import Rf4ce.App.KeyRepeat
import Rf4ce.Ota.Client
import Rf4ce.Refine.Run

/-! The stored handles to slots of `evTimer_list`: `autoPollingCb`, `tryPollingCb` of the OTA
client and `configTimer` of key repeat. -/
namespace Rf4ce.App
open Crash Drv Common Os Ota

inductive OwnHandle where
  | autoPolling | tryPolling | config
deriving DecidableEq, Repr

/-- The callbacks that the owner of a handle registers through it. -/
def OwnHandle.Owns : OwnHandle → EvCb → Prop
  | .autoPolling, cb => cb = .otaStartReqCb ∨ cb = .otaStopRspCb
  | .tryPolling, cb => cb = .otaDataTryReqCb
  | .config, cb => cb = .appSendRepeateDataTimerCb

/-- Each stored handle leads to a live timer of its owner. -/
structure HandlesLive (l : TimerList 12 EvCb) (hs : OwnHandle → Option (Fin 12)) : Prop where
  flags : l.FlagsOk
  live : ∀ a i, hs a = some i → ∃ cb, a.Owns cb ∧ l.Running i cb

/-- The live timers of other modules are live in `l'` too. -/
def Kept (l l' : TimerList 12 EvCb) : Prop := ∀ j k, l.Running j (.other k) → l'.Running j (.other k)

theorem OwnHandle.Owns.eq {a b : OwnHandle} {cb : EvCb} (ha : a.Owns cb) (hb : b.Owns cb) : a = b := by
  cases a <;> cases b <;> simp_all [OwnHandle.Owns]

theorem OwnHandle.Owns.not_other {a : OwnHandle} {k : Nat} : ¬ a.Owns (.other k) := by
  cases a <;> simp [OwnHandle.Owns]

theorem OwnHandle.Owns.not_restore {a : OwnHandle} : ¬ a.Owns .otaCallBackRestore := by
  cases a <;> simp [OwnHandle.Owns]

theorem running_cb {l : TimerList 12 EvCb} {i : Fin 12} {cb cb' : EvCb} (h : l.Running i cb)
    (h' : (l.slots i).cb = some cb') : cb = cb' := Option.some.inj (h.2.symm.trans h')

section Primitives
variable {l l' : TimerList 12 EvCb} {hs : OwnHandle → Option (Fin 12)}

theorem HandlesLive.unon (h : HandlesLive l hs) (a : OwnHandle) :
    HandlesLive (evUnonTimer (hs a) l) (Function.update hs a none) ∧ Kept l (evUnonTimer (hs a) l) := by
  constructor
  · constructor
    · exact evUnonTimer_flagsOk h.flags (hs a)
    · intro b i hb
      have hne : b ≠ a := by
        rintro rfl
        simp at hb
      rw [Function.update_of_ne hne] at hb
      obtain ⟨cb, hown, hrun⟩ := h.live b i hb
      refine ⟨cb, hown, (evUnonTimer_running i cb).mpr ⟨fun ha => ?_, hrun⟩⟩
      obtain ⟨cb', hown', hrun'⟩ := h.live a i ha
      obtain rfl := running_cb hrun' hrun.2
      exact hne (hown.eq hown')
  · intro j k hj
    apply (evUnonTimer_running j (EvCb.other k)).mpr
    refine ⟨fun ha => ?_, hj⟩
    obtain ⟨cb, hown, hrun⟩ := h.live a j ha
    obtain rfl := running_cb hrun hj.2
    exact hown.not_other

/-- A registration whose handle is not stored. -/
theorem HandlesLive.register (h : HandlesLive l hs) {clock1us now tUs : U32} {cb : EvCb} {i : Fin 12}
    (hon : onTimer clock1us now cb tUs l = some (i, l')) : HandlesLive l' hs ∧ Kept l l' := by
  have hrun := onTimer_running h.flags hon
  constructor
  · constructor
    · exact onTimer_flagsOk h.flags hon
    · intro b j hb
      obtain ⟨cb', hown, hj⟩ := h.live b j hb
      exact ⟨cb', hown, (hrun j cb').mpr (.inr hj)⟩
  · intro j k hj
    exact (hrun j (.other k)).mpr (.inr hj)

theorem HandlesLive.on (h : HandlesLive l hs) {a : OwnHandle} {clock1us now tUs : U32} {cb : EvCb} {i : Fin 12}
    (hon : onTimer clock1us now cb tUs l = some (i, l')) (ha : a.Owns cb) :
    HandlesLive l' (Function.update hs a (some i)) ∧ Kept l l' := by
  obtain ⟨hlive, hkept⟩ := h.register hon
  refine ⟨⟨hlive.flags, fun b j hb => ?_⟩, hkept⟩
  by_cases hba : b = a
  · subst hba
    rw [Function.update_self] at hb
    obtain rfl := Option.some.inj hb
    exact ⟨cb, ha, (onTimer_running h.flags hon i cb).mpr (.inl ⟨rfl, rfl⟩)⟩
  · rw [Function.update_of_ne hba] at hb
    exact hlive.live b j hb

theorem HandlesLive.reclaim (h : HandlesLive l hs) : HandlesLive (reclaim l) hs ∧ Kept l (reclaim l) := by
  constructor
  · constructor
    · exact reclaim_flagsOk h.flags
    · intro b i hb
      obtain ⟨cb, hown, hrun⟩ := h.live b i hb
      exact ⟨cb, hown, (reclaim_running i cb).mpr hrun⟩
  · intro j k hj
    exact (reclaim_running j (EvCb.other k)).mpr hj

/-- After a callback: its timer may end only when no stored handle leads to it. -/
theorem HandlesLive.done (h : HandlesLive l hs) {clock1us now : U32} {ret : Int} {i : Fin 12}
    (hi : ret < 0 → ∀ a, hs a ≠ some i) : HandlesLive (timerDone clock1us now ret i l) hs := by
  constructor
  · exact timerDone_flagsOk h.flags
  · intro b j hb
    obtain ⟨cb, hown, hrun⟩ := h.live b j hb
    refine ⟨cb, hown, (timerDone_running j cb).mpr ⟨fun hj => ?_, hrun⟩⟩
    by_contra hret
    exact hi (by omega) b (hj ▸ hb)

end Primitives

/-! ### The handlers -/

def handles (config : Option (Fin 12)) (c : Client) : OwnHandle → Option (Fin 12)
  | .autoPolling => c.autoPollingCb
  | .tryPolling => c.tryPollingCb
  | .config => config

/-- The handles are live, and the other modules' timers of `l` are too. -/
structure Tended (l : TimerList 12 EvCb) (config : Option (Fin 12)) (c : Client) : Prop where
  live : HandlesLive c.evTimerList (handles config c)
  kept : Kept l c.evTimerList

section Handlers
variable {l : TimerList 12 EvCb} {config : Option (Fin 12)} {c : Client} {cfg : OtaCfg} {now : U32}

theorem Kept.trans {l₁ l₂ l₃ : TimerList 12 EvCb} (h : Kept l₁ l₂) (h' : Kept l₂ l₃) : Kept l₁ l₃ :=
  fun j k hj => h' j k (h j k hj)

theorem handles_update_auto (h : Option (Fin 12)) :
    Function.update (handles config c) .autoPolling h = handles config { c with autoPollingCb := h } := by
  funext a
  cases a <;> simp [handles]

theorem handles_update_try (h : Option (Fin 12)) :
    Function.update (handles config c) .tryPolling h = handles config { c with tryPollingCb := h } := by
  funext a
  cases a <;> simp [handles]

theorem handles_update_config (h : Option (Fin 12)) :
    Function.update (handles config c) .config h = handles h c := by
  funext a
  cases a <;> simp [handles]

theorem Tended.unonAuto (h : Tended l config c) : Tended l config c.unonAutoPolling := by
  obtain ⟨hlive, hkept⟩ := h.live.unon .autoPolling
  rw [handles_update_auto] at hlive
  exact ⟨hlive, h.kept.trans hkept⟩

theorem Tended.unonTry (h : Tended l config c) : Tended l config c.unonTryPolling := by
  obtain ⟨hlive, hkept⟩ := h.live.unon .tryPolling
  rw [handles_update_try] at hlive
  exact ⟨hlive, h.kept.trans hkept⟩

theorem Tended.onAuto (h : Tended l config c) {cb : EvCb} {tUs : U32} (hcb : OwnHandle.autoPolling.Owns cb)
    {c' : Client} (hon : c.onAutoPolling cfg now cb tUs = some c') : Tended l config c' := by
  obtain ⟨⟨i, c''⟩, hreg, rfl⟩ := Option.map_eq_some_iff.mp hon
  obtain ⟨l', hl, rfl⟩ := evOnTimer_some hreg
  obtain ⟨hlive, hkept⟩ := h.live.on hl hcb
  rw [handles_update_auto] at hlive
  exact ⟨hlive, h.kept.trans hkept⟩

theorem Tended.onTry (h : Tended l config c) {cb : EvCb} {tUs : U32} (hcb : OwnHandle.tryPolling.Owns cb)
    {c' : Client} (hon : c.onTryPolling cfg now cb tUs = some c') : Tended l config c' := by
  obtain ⟨⟨i, c''⟩, hreg, rfl⟩ := Option.map_eq_some_iff.mp hon
  obtain ⟨l', hl, rfl⟩ := evOnTimer_some hreg
  obtain ⟨hlive, hkept⟩ := h.live.on hl hcb
  rw [handles_update_try] at hlive
  exact ⟨hlive, h.kept.trans hkept⟩

theorem Tended.register (h : Tended l config c) {cb : EvCb} {tUs : U32} {c' : Client}
    (hon : (c.evOnTimer cfg now cb tUs).map Prod.snd = some c') : Tended l config c' := by
  obtain ⟨⟨i, c''⟩, hreg, rfl⟩ := Option.map_eq_some_iff.mp hon
  obtain ⟨l', hl, rfl⟩ := evOnTimer_some hreg
  obtain ⟨hlive, hkept⟩ := h.live.register hl
  exact ⟨hlive, h.kept.trans hkept⟩

/-- If the handler returns, the handles are still live. -/
def Tends (l : TimerList 12 EvCb) (config : Option (Fin 12)) (m : OtaM (Option Client)) : Prop :=
  m.Yields fun r => ∀ c', r = some c' → Tended l config c'

theorem otaFail_tends (h : Tended l config c) : Tends l config (otaFail cfg now c) := by
  apply yields_bind
  apply yields_any
  intro _
  apply yields_pure
  intro c' hc'
  have hfields : Tended l config { c with otaState := .failed } := ⟨h.live, h.kept⟩
  exact hfields.register hc'

theorem otaDataReqCb_tends (h : Tended l config c) : Tends l config (otaDataReqCb cfg now c) := by
  apply yields_bind
  apply yields_any
  intro _
  apply yields_pure
  intro c' hc'
  have hun := h.unonTry
  have hfields : Tended l config
      { c.unonTryPolling with seqNo := c.unonTryPolling.seqNo + 1, otaRetryCnt := datareqRetrycnt } :=
    ⟨hun.live, hun.kept⟩
  exact hfields.onTry rfl hc'

theorem otaStartReq_tends (h : Tended l config c) : Tends l config (otaStartReq cfg now c) := by
  apply yields_bind
  apply yields_query
  intro f
  apply yields_pure
  intro c' hc'
  have hfields : Tended l config
      { otaInitInfo cfg f c with otaRetryCnt := startreqRetrycnt, otaHeadersize := 0, otaHeadercnt := 0 } :=
    ⟨h.live, h.kept⟩
  exact hfields.unonAuto.unonTry.onAuto (.inl rfl) hc'

theorem otaStartRspHandler_tends (h : Tended l config c) (hdr : OtaPreamble) :
    Tends l config (otaStartRspHandler cfg now hdr c) := by
  unfold otaStartRspHandler
  have hun := h.unonAuto
  split_ifs
  · apply yields_bind
    apply yields_any
    intro _
    apply yields_bind
    apply yields_any
    intro _
    exact otaDataReqCb_tends ⟨hun.live, hun.kept⟩
  · exact otaFail_tends ⟨hun.live, hun.kept⟩
  · have hfields : Tended l config { c with otaRetryCnt := 0 } := ⟨h.live, h.kept⟩
    exact otaFail_tends hfields.unonAuto

theorem otaDataRspNext_tends (h : Tended l config c) : Tends l config (otaDataRspNext cfg now c) := by
  unfold otaDataRspNext
  split_ifs
  · apply yields_bind
    apply yields_any
    intro verified
    cases verified with
    | none =>
      apply yields_pure
      intro c' hc'
      cases hc'
    | some ok =>
      cases ok with
      | true =>
        apply yields_bind
        apply yields_any
        intro _
        apply yields_pure
        intro c' hc'
        have hfields : Tended l config { c with otaState := .success, otaRetryCnt := datareqRetrycnt } :=
          ⟨h.live, h.kept⟩
        exact hfields.onAuto (.inr rfl) hc'
      | false => exact otaFail_tends h
  · exact otaDataReqCb_tends h

theorem Tended.countChunk (h : Tended l config c) : Tended l config c.countChunk := ⟨h.live, h.kept⟩

theorem otaDataRspHandler_tends (h : Tended l config c) (hdr : OtaDataFrame) :
    Tends l config (otaDataRspHandler cfg now hdr c) := by
  unfold otaDataRspHandler
  have hun := h.unonAuto.unonTry
  split_ifs
  · exact otaFail_tends hun
  · apply yields_bind
    apply yields_any
    rintro ⟨sta, t⟩
    have hfields : Tended l config { c.unonAutoPolling.unonTryPolling with toTransfer := t } := ⟨hun.live, hun.kept⟩
    dsimp only
    split_ifs
    · exact otaDataRspNext_tends hfields.countChunk
    · apply yields_bind
      refine Prog.Yields.mono (otaFail_tends hfields) fun r hr => ?_
      cases r with
      | none =>
        apply yields_pure
        intro c' hc'
        cases hc'
      | some c₁ => exact otaDataRspNext_tends (hr c₁ rfl).countChunk
  · apply yields_pure
    intro c' hc'
    obtain rfl := Option.some.inj hc'
    exact h

theorem otaStopRspHandler_tends (h : Tended l config c) (hdr : OtaIdent) :
    Tends l config (otaStopRspHandler cfg now hdr c) := by
  unfold otaStopRspHandler
  split_ifs
  · apply yields_pure
    intro c' hc'
    exact h.unonAuto.register hc'
  · exact otaFail_tends h

end Handlers

/-! ### Calls -/

/-- What the remote can be made to do; `keys` stands for the code that handles the keyboard. -/
inductive RemoteCall where
  | ota (k : ClientCall)
  | startRepeat (rptTime : U32)
  | stopRepeat
  | keys (keyCode : Nat) (bfRepeat inRfRpt : Bool) (state infoState : Nat)

/-- The OTA client and key repeat; `none` after a call that does not return. -/
structure Remote where
  parts : Option (Client × KeyRepeat)
  flash : Flash

/-- A call, the callback of key repeat among those of `fire`. -/
def partsStep (cfg : OtaCfg) (now : U32) (c : Client) (v : KeyRepeat) :
    RemoteCall → OtaM (Option (Client × KeyRepeat))
  | .ota (.fire i pass ret) =>
    if (c.evTimerList.slots i).cb = some .appSendRepeateDataTimerCb then
      let r := appSendRepeateDataTimerCb v c.evTimerList
      pure (some ({ c with evTimerList := timerDone cfg.clock1us pass r.2.2 i r.2.1 }, r.1))
    else do
      let r ← clientStep cfg now c (.fire i pass ret)
      pure (r.map fun c => (c, v))
  | .ota k => do
    let r ← clientStep cfg now c k
    pure (r.map fun c => (c, v))
  | .startRepeat rptTime =>
    pure ((appStartSendRepeateDataTimer cfg.clock1us now rptTime v c.evTimerList).map fun r =>
      ({ c with evTimerList := r.2 }, r.1))
  | .stopRepeat =>
    let r := appStopSendRepeateDataTimer v c.evTimerList
    pure (some ({ c with evTimerList := r.2 }, r.1))
  | .keys keyCode bfRepeat inRfRpt state infoState =>
    pure (some (c, { v with
      keyCode := keyCode, bfRepeat := bfRepeat, inRfRpt := inRfRpt, state := state, infoState := infoState }))

def remoteStep (cfg : OtaCfg) (r : Remote) (k : U32 × RemoteCall) : Remote × List OtaOp :=
  match r.parts with
  | none => (r, [])
  | some (c, v) =>
    let m := partsStep cfg k.1 c v k.2
    (⟨m.value r.flash, m.final r.flash⟩, m.ops r.flash)

/-- Passes call due timers only, and other modules cancel timers of their own. -/
def CallEnv (cfg : OtaCfg) (r : Remote) (k : U32 × RemoteCall) : Prop :=
  ∀ c v, r.parts = some (c, v) →
    match k.2 with
    | .ota (.fire i pass _) => timerDue cfg.clock1us pass (c.evTimerList.slots i) = true
    | .ota (.otherUnon i) => ∃ m, c.evTimerList.Running i (.other m)
    | _ => True

/-- The callback does not take an exit that ends its timer and keeps the handle. -/
def KeepsHandle (c : Client) (v : KeyRepeat) : EvCb → Prop
  | .otaStartReqCb | .otaDataTryReqCb | .otaStopRspCb => c.otaRetryCnt ≠ 0
  | .appSendRepeateDataTimerCb =>
    ¬ (v.state = appSendingIrState ∧ v.bfRepeat = false) ∧ ¬ (v.state ≠ appSendingIrState ∧ v.keyCode = 0xff)
  | _ => True

def HandleKept (r : Remote) (k : U32 × RemoteCall) : Prop :=
  ∀ c v, r.parts = some (c, v) →
    match k.2 with
    | .ota (.fire i _ _) => ∀ cb, (c.evTimerList.slots i).cb = some cb → KeepsHandle c v cb
    | _ => True

def RemoteLive (r : Remote) : Prop :=
  ∀ c v, r.parts = some (c, v) → HandlesLive c.evTimerList (handles v.configTimer c)

/-- The timers of other modules go on, except one that the call itself runs or cancels. -/
def OthersKept (k : RemoteCall) (r r' : Remote) : Prop :=
  ∀ c v c' v', r.parts = some (c, v) → r'.parts = some (c', v') → ∀ j m,
    c.evTimerList.Running j (.other m) → c'.evTimerList.Running j (.other m) ∨
      (∃ pass ret, k = .ota (.fire j pass ret)) ∨ k = .ota (.otherUnon j)

section Steps
variable {cfg : OtaCfg} {now : U32} {c : Client} {v : KeyRepeat}

theorem not_pointed {l : TimerList 12 EvCb} {hs : OwnHandle → Option (Fin 12)} (h : HandlesLive l hs) {i : Fin 12}
    {a : OwnHandle} (hown : ∀ cb, (l.slots i).cb = some cb → ¬ a.Owns cb) : hs a ≠ some i := by
  intro ha
  obtain ⟨cb, hcb, hrun⟩ := h.live a i ha
  exact hown cb hrun.2 hcb

theorem kept_done {l : TimerList 12 EvCb} {clock1us pass : U32} {ret : Int} {i j : Fin 12} {m : Nat}
    (hj : l.Running j (.other m)) (hne : j ≠ i) :
    (timerDone clock1us pass ret i l).Running j (.other m) :=
  (timerDone_running j (EvCb.other m)).mpr ⟨fun h => absurd h hne, hj⟩

/-- What a callback leaves behind: handles and timers as they were, and its own timer ends only
when no handle leads to it. -/
def CallbackLive (config : Option (Fin 12)) (i : Fin 12) (c : Client) (p : Client × Int) : Prop :=
  p.1.evTimerList = c.evTimerList ∧ handles config p.1 = handles config c ∧
    (p.2 < 0 → ∀ a, handles config c a ≠ some i)

theorem otaRetryCb_live {config : Option (Fin 12)} {i : Fin 12} {msg : OtaReq} {left : Nat}
    (hretry : c.otaRetryCnt ≠ 0) :
    (otaRetryCb cfg now msg left c).Yields fun r => ∀ p, r = some p → CallbackLive config i c p := by
  unfold otaRetryCb
  rw [if_pos hretry]
  apply yields_bind
  apply yields_any
  intro _
  apply yields_pure
  intro p hp
  obtain rfl := Option.some.inj hp
  exact ⟨rfl, rfl, fun hneg => absurd hneg (Int.lt_irrefl 0)⟩

/-- A callback of the client that does not take a bad exit. -/
theorem otaTimerCb_live {config : Option (Fin 12)} (h : HandlesLive c.evTimerList (handles config c)) {i : Fin 12}
    (ret : Int) (hkeep : ∀ cb, (c.evTimerList.slots i).cb = some cb → KeepsHandle c v cb)
    (hrep : (c.evTimerList.slots i).cb ≠ some .appSendRepeateDataTimerCb) :
    (otaTimerCb cfg now ret (c.evTimerList.slots i).cb c).Yields fun r =>
      ∀ p, r = some p → CallbackLive config i c p := by
  cases hcb : (c.evTimerList.slots i).cb with
  | none =>
    apply yields_pure
    intro p hp
    obtain rfl := Option.some.inj hp
    refine ⟨rfl, rfl, fun _ a => not_pointed h fun cb hcb' => ?_⟩
    rw [hcb] at hcb'
    cases hcb'
  | some cb =>
    have hother (hown : ∀ a : OwnHandle, ¬ a.Owns cb) (a : OwnHandle) : handles config c a ≠ some i :=
      not_pointed h fun cb' hcb' => Option.some.inj (hcb.symm.trans hcb') ▸ hown a
    have hk := hkeep cb hcb
    cases cb with
    | otaStartReqCb => exact otaRetryCb_live hk
    | otaDataTryReqCb => exact otaRetryCb_live hk
    | otaStopRspCb => exact otaRetryCb_live hk
    | otaCallBackRestore =>
      apply yields_bind
      apply yields_any
      intro _
      apply yields_pure
      intro p hp
      obtain rfl := Option.some.inj hp
      exact ⟨rfl, rfl, fun _ => hother fun _ => OwnHandle.Owns.not_restore⟩
    | appSendRepeateDataTimerCb => exact absurd hcb hrep
    | other m =>
      apply yields_pure
      intro p hp
      obtain rfl := Option.some.inj hp
      exact ⟨rfl, rfl, fun _ => hother fun _ => OwnHandle.Owns.not_other⟩

/-- Key repeat's callback, when it does not take a bad exit. -/
theorem appSendRepeate_live (clock1us pass : U32) {i : Fin 12} (h : HandlesLive c.evTimerList (handles v.configTimer c))
    (hcb : (c.evTimerList.slots i).cb = some .appSendRepeateDataTimerCb)
    (hkeep : KeepsHandle c v .appSendRepeateDataTimerCb) {v' : KeyRepeat} {l' : TimerList 12 EvCb} {ret : Int}
    (hr : appSendRepeateDataTimerCb v c.evTimerList = (v', l', ret)) :
    HandlesLive (timerDone clock1us pass ret i l') (handles v'.configTimer { c with evTimerList := l' }) ∧
      ∀ j m, c.evTimerList.Running j (.other m) → (timerDone clock1us pass ret i l').Running j (.other m) := by
  have hcount : appSendRepeateDataTimerCb v c.evTimerList = appSendRepeateCount v c.evTimerList := by
    unfold appSendRepeateDataTimerCb
    obtain ⟨h₁, h₂⟩ := hkeep
    split_ifs with hs hb hc
    · exact absurd ⟨hs, hb⟩ h₁
    · rfl
    · exact absurd ⟨hs, hc⟩ h₂
    · rfl
  have hne (j : Fin 12) (m : Nat) (hj : c.evTimerList.Running j (.other m)) : j ≠ i := by
    rintro rfl
    cases running_cb hj hcb
  rw [hcount] at hr
  unfold appSendRepeateCount at hr
  dsimp only at hr
  split_ifs at hr with hzero
  · -- the last repetition: the handle is cleared
    obtain ⟨rfl, rfl, rfl⟩ := Prod.mk.inj hr |>.imp_right Prod.mk.inj
    obtain ⟨hlive, hkept⟩ := h.unon .config
    rw [handles_update_config] at hlive
    constructor
    · apply hlive.done
      intro _ a
      have hout (hown : ¬ a.Owns .appSendRepeateDataTimerCb) : handles v.configTimer c a ≠ some i :=
        not_pointed h fun cb hcb' => Option.some.inj (hcb.symm.trans hcb') ▸ hown
      cases a with
      | autoPolling => exact hout (by simp [OwnHandle.Owns])
      | tryPolling => exact hout (by simp [OwnHandle.Owns])
      | config =>
        intro ha
        cases ha
    · intro j m hj
      exact kept_done (hkept j m hj) (hne j m hj)
  · obtain ⟨rfl, rfl, rfl⟩ := Prod.mk.inj hr |>.imp_right Prod.mk.inj
    constructor
    · apply h.done
      intro hneg
      exact absurd hneg (Int.lt_irrefl 0)
    · intro j m hj
      exact kept_done hj (hne j m hj)

/-- One call of the client keeps the handles live and the timers of other modules going. -/
theorem clientStep_live {config : Option (Fin 12)} (h : HandlesLive c.evTimerList (handles config c)) (k : ClientCall)
    (hfire : ∀ i pass ret, k = .fire i pass ret →
      (∀ cb, (c.evTimerList.slots i).cb = some cb → KeepsHandle c v cb) ∧
        (c.evTimerList.slots i).cb ≠ some .appSendRepeateDataTimerCb)
    (hunon : ∀ i, k = .otherUnon i → ∃ m, c.evTimerList.Running i (.other m)) :
    (clientStep cfg now c k).Yields fun r => ∀ c', r = some c' →
      HandlesLive c'.evTimerList (handles config c') ∧ ∀ j m, c.evTimerList.Running j (.other m) →
        c'.evTimerList.Running j (.other m) ∨ (∃ pass ret, k = .fire j pass ret) ∨ k = .otherUnon j := by
  have hself : Tended c.evTimerList config c := ⟨h, fun _ _ hj => hj⟩
  have htended {m : OtaM (Option Client)} (hm : Tends c.evTimerList config m) : m.Yields fun r => ∀ c', r = some c' →
      HandlesLive c'.evTimerList (handles config c') ∧ ∀ j m, c.evTimerList.Running j (.other m) →
        c'.evTimerList.Running j (.other m) ∨ (∃ pass ret, k = .fire j pass ret) ∨ k = .otherUnon j :=
    hm.mono fun r hr c' hc' => ⟨(hr c' hc').live, fun j m hj => .inl ((hr c' hc').kept j m hj)⟩
  cases k with
  | startReq => exact htended (otaStartReq_tends hself)
  | startRsp hdr => exact htended (otaStartRspHandler_tends hself hdr)
  | dataRsp hdr => exact htended (otaDataRspHandler_tends hself hdr)
  | stopRsp hdr => exact htended (otaStopRspHandler_tends hself hdr)
  | reclaim =>
    apply yields_pure
    intro c' hc'
    obtain rfl := Option.some.inj hc'
    obtain ⟨hlive, hkept⟩ := h.reclaim
    exact ⟨hlive, fun j m hj => .inl (hkept j m hj)⟩
  | fire i pass ret =>
    obtain ⟨hkeep, hrep⟩ := hfire i pass ret rfl
    apply yields_ite
    · intro _
      apply yields_bind
      refine Prog.Yields.mono (otaTimerCb_live h ret hkeep hrep) fun r hr => ?_
      apply yields_pure
      intro c' hc'
      obtain ⟨p, hp, rfl⟩ := Option.map_eq_some_iff.mp hc'
      obtain ⟨hlist, hhandles, hend⟩ := hr p hp
      constructor
      · have hlive : HandlesLive p.1.evTimerList (handles config p.1) := by
          rw [hlist, hhandles]
          exact h
        apply hlive.done
        intro hneg a
        rw [hhandles]
        exact hend hneg a
      · intro j m hj
        by_cases hji : j = i
        · subst hji
          exact .inr (.inl ⟨pass, ret, rfl⟩)
        · dsimp only
          rw [hlist]
          exact .inl (kept_done hj hji)
    · intro _
      apply yields_pure
      intro c' hc'
      obtain rfl := Option.some.inj hc'
      exact ⟨h, fun j m hj => .inl hj⟩
  | otherOn m tUs =>
    apply htended
    apply yields_pure
    intro c' hc'
    exact hself.register hc'
  | otherUnon i =>
    obtain ⟨m, hrun⟩ := hunon i rfl
    apply yields_pure
    intro c' hc'
    obtain rfl := Option.some.inj hc'
    constructor
    · constructor
      · exact evUnonTimer_flagsOk h.flags (some i)
      · intro a j ha
        obtain ⟨cb, hown, hj⟩ := h.live a j ha
        refine ⟨cb, hown, (evUnonTimer_running (h := some i) j cb).mpr ⟨fun hij => ?_, hj⟩⟩
        obtain rfl := Option.some.inj hij
        obtain rfl := running_cb hj hrun.2
        exact hown.not_other
    · intro j m' hj
      by_cases hji : i = j
      · subst hji
        exact .inr (.inr rfl)
      · exact .inl ((evUnonTimer_running (h := some i) j (EvCb.other m')).mpr ⟨by simpa using hji, hj⟩)

theorem appStartSendRepeate_live {rptTime : U32} (h : HandlesLive c.evTimerList (handles v.configTimer c))
    {v' : KeyRepeat} {l' : TimerList 12 EvCb}
    (hr : appStartSendRepeateDataTimer cfg.clock1us now rptTime v c.evTimerList = some (v', l')) :
    HandlesLive l' (handles v'.configTimer c) ∧ Kept c.evTimerList l' := by
  obtain ⟨⟨i, l''⟩, hon, heq⟩ := Option.map_eq_some_iff.mp hr
  obtain ⟨rfl, rfl⟩ := Prod.mk.inj heq
  obtain ⟨hlive, hkept⟩ := h.unon .config
  rw [handles_update_config] at hlive
  obtain ⟨hlive', hkept'⟩ := hlive.on (a := .config) hon rfl
  rw [handles_update_config] at hlive'
  exact ⟨hlive', hkept.trans hkept'⟩

theorem partsStep_live (cfg : OtaCfg) (now : U32) (h : HandlesLive c.evTimerList (handles v.configTimer c)) (k : RemoteCall)
    (hfire : ∀ i pass ret, k = .ota (.fire i pass ret) →
      ∀ cb, (c.evTimerList.slots i).cb = some cb → KeepsHandle c v cb)
    (hunon : ∀ i, k = .ota (.otherUnon i) → ∃ m, c.evTimerList.Running i (.other m)) :
    (partsStep cfg now c v k).Yields fun r => ∀ p, r = some p →
      HandlesLive p.1.evTimerList (handles p.2.configTimer p.1) ∧ ∀ j m, c.evTimerList.Running j (.other m) →
        p.1.evTimerList.Running j (.other m) ∨ (∃ pass ret, k = .ota (.fire j pass ret)) ∨
          k = .ota (.otherUnon j) := by
  have hclient (k' : ClientCall) (hk : k = .ota k')
      (hrep : ∀ i pass ret, k' = .fire i pass ret →
        (c.evTimerList.slots i).cb ≠ some .appSendRepeateDataTimerCb) :
      Prog.Yields (do let r ← clientStep cfg now c k'; pure (r.map fun c => (c, v))) fun r => ∀ p, r = some p →
        HandlesLive p.1.evTimerList (handles p.2.configTimer p.1) ∧ ∀ j m, c.evTimerList.Running j (.other m) →
          p.1.evTimerList.Running j (.other m) ∨ (∃ pass ret, k = .ota (.fire j pass ret)) ∨
            k = .ota (.otherUnon j) := by
    subst hk
    apply yields_bind
    refine Prog.Yields.mono (clientStep_live (v := v) h k' (fun i pass ret hk => ?_) fun i hk => ?_) fun r hr => ?_
    · exact ⟨hfire i pass ret (congrArg RemoteCall.ota hk), hrep i pass ret hk⟩
    · exact hunon i (congrArg RemoteCall.ota hk)
    · apply yields_pure
      intro p hp
      obtain ⟨c', hc', rfl⟩ := Option.map_eq_some_iff.mp hp
      obtain ⟨hlive, hkept⟩ := hr c' hc'
      refine ⟨hlive, fun j m hj => ?_⟩
      rcases hkept j m hj with hj' | ⟨pass, ret, rfl⟩ | rfl
      · exact .inl hj'
      · exact .inr (.inl ⟨pass, ret, rfl⟩)
      · exact .inr (.inr rfl)
  cases k with
  | ota k =>
    cases k with
    | fire i pass ret =>
      simp only [partsStep]
      split_ifs with hrep
      · apply yields_pure
        intro p hp
        obtain rfl := Option.some.inj hp
        obtain ⟨hlive, hkept⟩ := appSendRepeate_live cfg.clock1us pass h hrep (hfire i pass ret rfl _ hrep) rfl
        exact ⟨hlive, fun j m hj => .inl (hkept j m hj)⟩
      · apply hclient _ rfl
        intro i' pass' ret' hk
        obtain ⟨rfl, -, -⟩ := ClientCall.fire.inj hk
        exact hrep
    | startReq => exact hclient _ rfl fun _ _ _ hk => by cases hk
    | startRsp hdr => exact hclient _ rfl fun _ _ _ hk => by cases hk
    | dataRsp hdr => exact hclient _ rfl fun _ _ _ hk => by cases hk
    | stopRsp hdr => exact hclient _ rfl fun _ _ _ hk => by cases hk
    | reclaim => exact hclient _ rfl fun _ _ _ hk => by cases hk
    | otherOn m tUs => exact hclient _ rfl fun _ _ _ hk => by cases hk
    | otherUnon i => exact hclient _ rfl fun _ _ _ hk => by cases hk
  | startRepeat rptTime =>
    apply yields_pure
    intro p hp
    obtain ⟨⟨v', l'⟩, hr, rfl⟩ := Option.map_eq_some_iff.mp hp
    obtain ⟨hlive, hkept⟩ := appStartSendRepeate_live h hr
    exact ⟨hlive, fun j m hj => .inl (hkept j m hj)⟩
  | stopRepeat =>
    apply yields_pure
    intro p hp
    obtain rfl := Option.some.inj hp
    obtain ⟨hlive, hkept⟩ := h.unon .config
    rw [handles_update_config] at hlive
    exact ⟨hlive, fun j m hj => .inl (hkept j m hj)⟩
  | keys keyCode bfRepeat inRfRpt state infoState =>
    apply yields_pure
    intro p hp
    obtain rfl := Option.some.inj hp
    exact ⟨h, fun j m hj => .inl hj⟩

end Steps

theorem remoteStep_live {cfg : OtaCfg} {r : Remote} {k : U32 × RemoteCall} (h : RemoteLive r)
    (henv : CallEnv cfg r k) (hkeep : HandleKept r k) :
    RemoteLive (remoteStep cfg r k).1 ∧ OthersKept k.2 r (remoteStep cfg r k).1 := by
  cases hparts : r.parts with
  | none =>
    have hstep : (remoteStep cfg r k).1 = r := by
      unfold remoteStep
      rw [hparts]
    rw [hstep]
    refine ⟨h, fun c v c' v' hcv => ?_⟩
    rw [hparts] at hcv
    cases hcv
  | some p =>
    obtain ⟨c, v⟩ := p
    have hstep : (remoteStep cfg r k).1.parts = (partsStep cfg k.1 c v k.2).value r.flash := by
      unfold remoteStep
      rw [hparts]
    have hfire : ∀ i pass ret, k.2 = .ota (.fire i pass ret) →
        ∀ cb, (c.evTimerList.slots i).cb = some cb → KeepsHandle c v cb := by
      intro i pass ret hk cb hcb
      have := hkeep c v hparts
      rw [hk] at this
      exact this cb hcb
    have hunon : ∀ i, k.2 = .ota (.otherUnon i) → ∃ m, c.evTimerList.Running i (.other m) := by
      intro i hk
      have := henv c v hparts
      rw [hk] at this
      exact this
    have hlive := partsStep_live cfg k.1 (h c v hparts) k.2 hfire hunon r.flash
    constructor
    · intro c' v' hcv
      rw [hstep] at hcv
      exact (hlive _ hcv).1
    · intro c₀ v₀ c' v' hcv hcv' j m hj
      rw [hparts] at hcv
      obtain ⟨rfl, rfl⟩ := Prod.mk.inj (Option.some.inj hcv)
      rw [hstep] at hcv'
      exact (hlive _ hcv').2 j m hj

/-- After power-up: the handles are NULL and no timer is registered. -/
def Booted (r : Remote) : Prop :=
  ∃ c v, r.parts = some (c, v) ∧ c.autoPollingCb = none ∧ c.tryPollingCb = none ∧ v.configTimer = none ∧
    ∀ i, (c.evTimerList.slots i).valid = 0 ∧ (c.evTimerList.slots i).busy = 0

theorem Booted.live {r : Remote} (h : Booted r) : RemoteLive r := by
  obtain ⟨c, v, hparts, hauto, htry, hconfig, hfree⟩ := h
  intro c' v' hcv
  rw [hparts] at hcv
  obtain ⟨rfl, rfl⟩ := Prod.mk.inj (Option.some.inj hcv)
  constructor
  · intro i
    exact .inl (hfree i)
  · intro a i ha
    cases a <;> simp [handles, hauto, htry, hconfig] at ha

/-- In runs that take no bad exit, stored handles are never stale, and no call through them
touches a timer of another module. -/
theorem timerHandles_live {cfg : OtaCfg} {r : Remote} {ks : List (U32 × RemoteCall)} (hboot : Booted r)
    (hks : Refine.Legal (remoteStep cfg) (fun r k => CallEnv cfg r k ∧ HandleKept r k) r ks) :
    RemoteLive (Refine.run (remoteStep cfg) r ks).1 ∧
      ∀ k, CallEnv cfg (Refine.run (remoteStep cfg) r ks).1 k → HandleKept (Refine.run (remoteStep cfg) r ks).1 k →
        OthersKept k.2 (Refine.run (remoteStep cfg) r ks).1
          (remoteStep cfg (Refine.run (remoteStep cfg) r ks).1 k).1 := by
  have hlive : RemoteLive (Refine.run (remoteStep cfg) r ks).1 := by
    apply Refine.run_invariant _ hboot.live hks
    intro r k hr hk
    exact (remoteStep_live hr hk.1 hk.2).1
  exact ⟨hlive, fun k henv hkeep => (remoteStep_live hlive henv hkeep).2⟩

/-! ### A stale handle -/

def powerUp : Remote where
  parts := some (.powerUp, ⟨none, 0, 0, false, false, 3, 3⟩)
  flash := fun _ => 0xff

/-- A key without repetition is sent as IR code; the repeat timer ends in the first pass, and
12 timers of another module are registered after the next one. -/
def singleIrKey : List (U32 × RemoteCall) :=
  [(0, .keys 5 false false 0x20 3), (0, .startRepeat 150000), (2400000, .ota .reclaim),
    (2400000, .ota (.fire 0 2400000 0)), (2500000, .ota .reclaim)] ++
  (List.range 12).map fun k => (2600000, .ota (.otherOn k 1000000))

theorem powerUp_booted : Booted powerUp := ⟨_, _, rfl, rfl, rfl, rfl, fun _ => ⟨rfl, rfl⟩⟩

theorem singleIrKey_env : Refine.Legal (remoteStep cfg8258) (CallEnv cfg8258) powerUp singleIrKey := by
  refine ⟨fun _ _ _ => trivial, fun _ _ _ => trivial, fun _ _ _ => trivial, ?_, fun _ _ _ => trivial,
    fun _ _ _ => trivial, fun _ _ _ => trivial, fun _ _ _ => trivial, fun _ _ _ => trivial,
    fun _ _ _ => trivial, fun _ _ _ => trivial, fun _ _ _ => trivial, fun _ _ _ => trivial,
    fun _ _ _ => trivial, fun _ _ _ => trivial, fun _ _ _ => trivial, fun _ _ _ => trivial, trivial⟩
  intro c v h
  obtain ⟨rfl, rfl⟩ := Prod.mk.inj (Option.some.inj h)
  rfl

/-- An update is started and sends its first request. -/
def startedUpdate : List (U32 × RemoteCall) :=
  [(0, .ota .startReq), (16000000, .ota .reclaim), (16000000, .ota (.fire 0 16000000 0))]

theorem timerHandles_live_started :
    RemoteLive (Refine.run (remoteStep cfg8258) powerUp startedUpdate).1 := by
  apply (timerHandles_live powerUp_booted _).1
  refine ⟨⟨fun _ _ _ => trivial, fun _ _ _ => trivial⟩, ⟨fun _ _ _ => trivial, fun _ _ _ => trivial⟩,
    ⟨fun c v h => ?_, fun c v h => ?_⟩, trivial⟩
  · obtain ⟨rfl, rfl⟩ := Prod.mk.inj (Option.some.inj h)
    rfl
  · obtain ⟨rfl, rfl⟩ := Prod.mk.inj (Option.some.inj h)
    intro cb hcb
    obtain rfl := Option.some.inj hcb
    exact Nat.succ_ne_zero 4

/-- `configTimer` leads to the timer of another module, which the key's release cancels. -/
theorem timerHandles_stale :
    Booted powerUp ∧ Refine.Legal (remoteStep cfg8258) (CallEnv cfg8258) powerUp singleIrKey ∧
      ¬ RemoteLive (Refine.run (remoteStep cfg8258) powerUp singleIrKey).1 ∧
      ¬ OthersKept .stopRepeat (Refine.run (remoteStep cfg8258) powerUp singleIrKey).1
        (Refine.run (remoteStep cfg8258) powerUp (singleIrKey ++ [(2700000, .stopRepeat)])).1 := by
  refine ⟨powerUp_booted, singleIrKey_env, ?_, ?_⟩
  · intro h
    obtain ⟨cb, hown, hrun⟩ := (h _ _ rfl).live .config 0 rfl
    obtain rfl := hown
    cases hrun.2
  · intro h
    rcases h _ _ _ _ rfl rfl 0 11 ⟨rfl, rfl⟩ with hrun | ⟨pass, ret, hk⟩ | hk
    · cases hrun.1
    · cases hk
    · cases hk

end Rf4ce.App
