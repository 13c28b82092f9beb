import Rf4ce.Crash.Monitor
import Rf4ce.Ota.Network

/-! The calls of a client that neither start a transfer nor take a chunk. -/
namespace Rf4ce.Ota
open Crash Drv Common Os

/-- No live timer repeats a DATA_REQ. -/
def NoTry (l : TimerList 12 EvCb) : Prop := ∀ i, ¬ l.Running i .otaDataTryReqCb

theorem NoTry.unon {l : TimerList 12 EvCb} (h : NoTry l) (s : Option (Fin 12)) : NoTry (evUnonTimer s l) :=
  fun j hj => h j ((evUnonTimer_running j _).mp hj).2

theorem NoTry.reclaim {l : TimerList 12 EvCb} (h : NoTry l) : NoTry (reclaim l) :=
  fun j hj => h j ((reclaim_running j _).mp hj)

theorem NoTry.done {l : TimerList 12 EvCb} (h : NoTry l) (clock1us pass : U32) (ret : Int) (i : Fin 12) :
    NoTry (timerDone clock1us pass ret i l) := fun j hj => h j ((timerDone_running j _).mp hj).2

theorem NoTry.on {l l' : TimerList 12 EvCb} (h : NoTry l) {clock1us now tUs : U32} {cb : EvCb} {i : Fin 12}
    (hcb : cb ≠ .otaDataTryReqCb) (hon : onTimer clock1us now cb tUs l = some (i, l')) : NoTry l' := by
  obtain ⟨-, hslots⟩ := onTimer_spec hon
  intro j
  unfold TimerList.Running
  rw [hslots]
  by_cases hji : j = i
  · subst hji
    rw [Function.update_self]
    exact fun heq => hcb (Option.some.inj heq.2)
  · rw [Function.update_of_ne hji]
    exact h j

/-- A live timer that repeats a DATA_REQ is the one of `tryPollingCb`, which `ota_startReq` stops. -/
def TryKnown (c : Client) : Prop := ∀ i, c.evTimerList.Running i .otaDataTryReqCb → c.tryPollingCb = some i

theorem TryKnown.unonTryPolling {c : Client} (h : TryKnown c) : NoTry c.unonAutoPolling.unonTryPolling.evTimerList := by
  intro i hi
  have htry : c.tryPollingCb ≠ some i ∧ c.unonAutoPolling.evTimerList.Running i .otaDataTryReqCb :=
    (evUnonTimer_running i _).mp hi
  have hauto : c.autoPollingCb ≠ some i ∧ c.evTimerList.Running i .otaDataTryReqCb := (evUnonTimer_running i _).mp htry.2
  exact htry.1 (h i hauto.2)

/-- `ota_state` shows that no transfer runs. -/
def Ended (s : OtaState) : Prop := s ≠ .starting ∧ s ≠ .dataing

/-- The client goes on as it is, or it ends the transfer. -/
structure Kin (c c' : Client) : Prop where
  transfer : c'.toTransfer = c.toTransfer ∨ ∃ s, Ended s ∧ c'.toTransfer = { c.toTransfer with otaState := s }
  data : c'.rcDataCount = c.rcDataCount
  noTry : NoTry c.evTimerList → NoTry c'.evTimerList

theorem Kin.refl (c : Client) : Kin c c := ⟨.inl rfl, rfl, id⟩

theorem Kin.trans {c c' c'' : Client} (h : Kin c c') (h' : Kin c' c'') : Kin c c'' := by
  refine ⟨?_, h'.data.trans h.data, fun hc => h'.noTry (h.noTry hc)⟩
  rcases h'.transfer with heq | ⟨s, hs, heq⟩
  · rw [heq]
    exact h.transfer
  · refine .inr ⟨s, hs, ?_⟩
    rw [heq]
    rcases h.transfer with heq' | ⟨s', -, heq'⟩
    · rw [heq']
    · rw [heq']

theorem Kin.countChunk {c c' : Client} (h : Kin c c') : Kin c.countChunk c'.countChunk := by
  refine ⟨h.transfer, ?_, h.noTry⟩
  unfold Client.countChunk
  dsimp only
  rw [h.data]

theorem Kin.headercnt {c c' : Client} (h : Kin c c') : c'.otaHeadercnt = c.otaHeadercnt := by
  rcases h.transfer with heq | ⟨s, -, heq⟩
  · rw [heq]
  · rw [heq]

theorem Kin.rcOtaInfo {c c' : Client} (h : Kin c c') : c'.rcOtaInfo = c.rcOtaInfo := by
  rcases h.transfer with heq | ⟨s, -, heq⟩
  · rw [heq]
  · rw [heq]

def noteMon (m : Trace) (op : OtaOp) : Option Trace := some (m.note op)

/-- What a watched call leaves behind in a trace. -/
theorem watched_noted {α : Type} {p : OtaM α} {m : Trace} {g : Flash} {Q : Trace → α → Flash → Prop}
    (h : Watched noteMon m p Q g) : Q ((p.ops g).foldl Trace.note m) (p.value g) (p.final g) := by
  obtain ⟨m', hfold, hQ⟩ := h
  have heq : ∀ (ops : List OtaOp) (m m' : Trace), ops.foldlM noteMon m = some m' → ops.foldl Trace.note m = m' := by
    intro ops
    induction ops with
    | nil =>
      intro m m' h
      exact Option.some.inj h
    | cons op ops ih =>
      intro m m' h
      exact ih (m.note op) m' h
  rw [heq _ _ _ hfold]
  exact hQ

/-- A request that the client may send in a quiet step. -/
def QuietReq (cfg : OtaCfg) (c : Client) (req : OtaReq) : Prop :=
  (∃ seqNo, req = .startReq seqNo ⟨cfg.firmwareVersion, cfg.chipId, cfg.manufacturerCode⟩) ∨
    (∃ seqNo i, req = .stopReq seqNo i) ∨ req = c.dataReq ∧ ¬ NoTry c.evTimerList

/-- At most one request is sent, and the client goes on. -/
structure QuietStep (cfg : OtaCfg) (c : Client) (m m' : Trace) (r : Option Client) : Prop where
  programmed : m'.programmed = m.programmed
  erases : m'.erases = m.erases
  sent : m'.sent = m.sent ∨ ∃ req, m'.sent = m.sent ++ [req] ∧ QuietReq cfg c req
  client : ∀ c', r = some c' → Kin c c'

section Quiet
variable {cfg : OtaCfg} {now : U32} {c : Client} {m : Trace} {g : Flash}

theorem QuietStep.of_kin {r : Option Client} (h : ∀ c', r = some c' → Kin c c') : QuietStep cfg c m m r :=
  ⟨rfl, rfl, .inl rfl, h⟩

theorem evOnTimer_kin {c' : Client} {cb : EvCb} {tUs : U32} {i : Fin 12} (hcb : cb ≠ .otaDataTryReqCb)
    (hon : c.evOnTimer cfg now cb tUs = some (i, c')) : Kin c c' := by
  obtain ⟨l, hl, rfl⟩ := evOnTimer_some hon
  exact ⟨.inl rfl, rfl, fun h => h.on hcb hl⟩

theorem onCallBackRestore_kin {c' : Client} (hon : c.onCallBackRestore cfg now = some c') : Kin c c' := by
  obtain ⟨⟨i, c''⟩, hreg, rfl⟩ := Option.map_eq_some_iff.mp hon
  exact evOnTimer_kin (by decide) hreg

theorem otaFail_kin : Watched noteMon m (otaFail cfg now c)
    (fun m' r _ => m' = m ∧ ∀ c', r = some c' → Kin c c' ∧ Ended c'.otaState) g := by
  apply watched_bind
  apply watched_issue (show noteMon m (.setState .failed) = some m from rfl)
  apply watched_pure
  refine ⟨rfl, fun c' hc' => ?_⟩
  obtain ⟨⟨i, c''⟩, hreg, rfl⟩ := Option.map_eq_some_iff.mp hc'
  obtain ⟨l, hl, rfl⟩ := evOnTimer_some hreg
  have hended : Ended .failed := by unfold Ended; decide
  exact ⟨⟨.inr ⟨.failed, hended, rfl⟩, rfl, fun h => h.on (by decide) hl⟩, hended⟩

theorem unonAutoPolling_kin : Kin c c.unonAutoPolling := ⟨.inl rfl, rfl, fun h => h.unon _⟩

theorem unonTryPolling_kin : Kin c c.unonTryPolling := ⟨.inl rfl, rfl, fun h => h.unon _⟩

/-- The callbacks that repeat a message. -/
theorem otaRetryCb_quiet {msg : OtaReq} {left : Nat} (hmsg : QuietReq cfg c msg) :
    Watched noteMon m (otaRetryCb cfg now msg left c) (fun m' r _ => QuietStep cfg c m m' (r.map Prod.fst)) g := by
  unfold otaRetryCb
  split_ifs
  · apply watched_bind
    apply watched_issue (show noteMon m (.send msg) = some { m with sent := m.sent ++ [msg] } from rfl)
    apply watched_pure
    refine ⟨rfl, rfl, .inr ⟨msg, rfl, hmsg⟩, fun c' hc' => ?_⟩
    cases hc'
    exact ⟨.inl rfl, rfl, id⟩
  · apply watched_bind
    refine Watched.mono otaFail_kin fun m' r g' h => ?_
    obtain ⟨rfl, hr⟩ := h
    apply watched_pure
    apply QuietStep.of_kin
    intro c' hc'
    cases r with
    | none => cases hc'
    | some c'' =>
      cases hc'
      have hset : Kin c { c with otaRetryCnt := left } := ⟨.inl rfl, rfl, id⟩
      exact hset.trans (hr _ rfl).1

theorem otaTimerCb_quiet {i : Fin 12} {ret : Int} (hlive : (c.evTimerList.slots i).valid = 1) :
    Watched noteMon m (otaTimerCb cfg now ret (c.evTimerList.slots i).cb c)
      (fun m' r _ => QuietStep cfg c m m' (r.map Prod.fst)) g := by
  have hother : Watched noteMon m (pure (some (c, ret)) : OtaM (Option (Client × Int)))
      (fun m' r _ => QuietStep cfg c m m' (r.map Prod.fst)) g := by
    apply watched_pure
    apply QuietStep.of_kin
    intro c' hc'
    cases hc'
    exact Kin.refl c
  cases hslot : (c.evTimerList.slots i).cb with
  | none => exact hother
  | some cb =>
    cases cb with
    | otaStartReqCb => exact otaRetryCb_quiet (.inl ⟨_, rfl⟩)
    | otaDataTryReqCb => exact otaRetryCb_quiet (.inr (.inr ⟨rfl, fun h => h i ⟨hlive, hslot⟩⟩))
    | otaStopRspCb => exact otaRetryCb_quiet (.inr (.inl ⟨_, _, rfl⟩))
    | otaCallBackRestore =>
      apply watched_bind
      apply watched_issue (show noteMon m (.otaCb _) = some m from rfl)
      apply watched_pure
      apply QuietStep.of_kin
      intro c' hc'
      cases hc'
      exact Kin.refl c
    | appSendRepeateDataTimerCb => exact hother
    | other k => exact hother

theorem otaStopRspHandler_quiet {hdr : OtaIdent} :
    Watched noteMon m (otaStopRspHandler cfg now hdr c) (fun m' r _ => QuietStep cfg c m m' r) g := by
  unfold otaStopRspHandler
  split_ifs
  · apply watched_pure
    apply QuietStep.of_kin
    intro c' hc'
    exact unonAutoPolling_kin.trans (onCallBackRestore_kin hc')
  · refine Watched.mono otaFail_kin fun m' r g' h => ?_
    obtain ⟨rfl, hr⟩ := h
    exact QuietStep.of_kin fun c' hc' => (hr c' hc').1

/-- All calls but `ota_startReq`, START_RSP and DATA_RSP. -/
theorem clientStep_quiet {k : ClientCall} (hstart : k ≠ .startReq) (hrsp : ∀ hdr, k ≠ .startRsp hdr)
    (hdata : ∀ hdr, k ≠ .dataRsp hdr) :
    Watched noteMon m (clientStep cfg now c k) (fun m' r _ => QuietStep cfg c m m' r) g := by
  cases k with
  | startReq => exact absurd rfl hstart
  | startRsp hdr => exact absurd rfl (hrsp hdr)
  | dataRsp hdr => exact absurd rfl (hdata hdr)
  | stopRsp hdr => exact otaStopRspHandler_quiet
  | reclaim =>
    apply watched_pure
    apply QuietStep.of_kin
    intro c' hc'
    cases hc'
    exact ⟨.inl rfl, rfl, NoTry.reclaim⟩
  | fire i pass ret =>
    change Watched noteMon m (c.evProcessTimer cfg now i pass ret) _ g
    unfold Client.evProcessTimer
    split_ifs with hlive
    · apply watched_bind
      refine Watched.mono (otaTimerCb_quiet hlive) fun m' r g' h => ?_
      apply watched_pure
      refine ⟨h.programmed, h.erases, h.sent, fun c' hc' => ?_⟩
      obtain ⟨p, hp, rfl⟩ := Option.map_eq_some_iff.mp hc'
      have hkin := h.client p.1 (by rw [hp]; rfl)
      have hdone : Kin p.1 { p.1 with evTimerList := timerDone cfg.clock1us pass p.2 i p.1.evTimerList } :=
        ⟨.inl rfl, rfl, fun hn => hn.done _ _ _ _⟩
      exact hkin.trans hdone
    · apply watched_pure
      apply QuietStep.of_kin
      intro c' hc'
      cases hc'
      exact Kin.refl c
  | otherOn n tUs =>
    apply watched_pure
    apply QuietStep.of_kin
    intro c' hc'
    obtain ⟨⟨i, c''⟩, hreg, rfl⟩ := Option.map_eq_some_iff.mp hc'
    exact evOnTimer_kin (by simp) hreg
  | otherUnon i =>
    apply watched_pure
    apply QuietStep.of_kin
    intro c' hc'
    cases hc'
    exact ⟨.inl rfl, rfl, fun h => h.unon (some i)⟩

end Quiet

end Rf4ce.Ota
