import Rf4ce.Crash.Monitor
import Rf4ce.Ota.Client
import Rf4ce.Refine.Run

/-! A failed transfer stays failed until the next `ota_startReq`. -/
namespace Rf4ce.Ota
open Crash Drv Common Os

/-- From the first `OTA_STA_FAILED` on it counts the calls of `otaCb`; forbidden are a second
one, DATA_REQs, flash operations and other states. -/
def failMonitor : Option Nat → OtaOp → Option (Option Nat)
  | none, .setState .failed => some (some 0)
  | none, _ => some none
  | some n, .setState .failed => some (some n)
  | some _, .setState _ => none
  | some _, .flash _ => none
  | some _, .send (.dataReq _ _) => none
  | some n, .send _ => some (some n)
  | some n, .otaCb _ => if n = 0 then some (some 1) else none

/-- The callbacks that send requests. -/
def Requests (cb : EvCb) : Prop := cb = .otaStartReqCb ∨ cb = .otaDataTryReqCb ∨ cb = .otaStopRspCb

/-- The request timers are those that the stored handles lead to. -/
structure Active (c : Client) : Prop where
  flags : c.evTimerList.FlagsOk
  auto : ∀ i cb, c.evTimerList.Running i cb → cb = .otaStartReqCb ∨ cb = .otaStopRspCb → c.autoPollingCb = some i
  tryPolling : ∀ i, c.evTimerList.Running i .otaDataTryReqCb → c.tryPollingCb = some i
  one : c.autoPollingCb = none ∨ c.tryPollingCb = none
  restore : ∀ i, ¬ c.evTimerList.Running i .otaCallBackRestore

/-- No request timer runs. -/
structure Quiet (c : Client) : Prop where
  flags : c.evTimerList.FlagsOk
  quiet : ∀ i cb, c.evTimerList.Running i cb → ¬ Requests cb

/-- No timer of the client runs. -/
structure Idle (c : Client) : Prop extends Quiet c where
  restore : ∀ i, ¬ c.evTimerList.Running i .otaCallBackRestore

/-- The callbacks made and the one still to come are one in all. -/
def OneCallback (n : Nat) (c : Client) : Prop :=
  n = 0 ∧ (∃ i, ∀ j, c.evTimerList.Running j .otaCallBackRestore ↔ j = i) ∨
    n = 1 ∧ ∀ j, ¬ c.evTimerList.Running j .otaCallBackRestore

inductive Session : Option Nat → Client → Prop where
  | active {c : Client} (h : Active c) : Session none c
  | quiet {c : Client} (h : Quiet c) : Session none c
  | failed {n : Nat} {c : Client} (h : Quiet c) (hst : c.otaState = .failed) (hcb : OneCallback n c) :
      Session (some n) c

/-- When a call returns, the session is in order; after a failure it does return. -/
def InOrder (m : Option Nat) : Option Client → Prop
  | none => m = none
  | some c => Session m c

/-- A slot is free. -/
def HasFree (c : Client) : Prop := ∃ i, (c.evTimerList.slots i).busy = 0

/-- A slot is free that no stored handle leads to. -/
def HasRoom (c : Client) : Prop :=
  ∃ i, (c.evTimerList.slots i).busy = 0 ∧ c.autoPollingCb ≠ some i ∧ c.tryPollingCb ≠ some i

section Lists
variable {c : Client}

theorem Requests.not_restore : ¬ Requests .otaCallBackRestore := by simp [Requests]

theorem requests_cases {cb : EvCb} (h : Requests cb) :
    (cb = .otaStartReqCb ∨ cb = .otaStopRspCb) ∨ cb = .otaDataTryReqCb := by
  rcases h with h | h | h
  · exact .inl (.inl h)
  · exact .inr h
  · exact .inl (.inr h)

theorem unonBoth_running (i : Fin 12) (cb : EvCb) : c.unonAutoPolling.unonTryPolling.evTimerList.Running i cb ↔
    c.tryPollingCb ≠ some i ∧ c.autoPollingCb ≠ some i ∧ c.evTimerList.Running i cb := by
  unfold Client.unonTryPolling Client.unonAutoPolling
  dsimp only
  rw [evUnonTimer_running, evUnonTimer_running]

theorem unonBoth_flagsOk (h : c.evTimerList.FlagsOk) : c.unonAutoPolling.unonTryPolling.evTimerList.FlagsOk :=
  evUnonTimer_flagsOk (evUnonTimer_flagsOk h _) _

/-- Nothing of the client but its request timers runs. -/
def Ready (c : Client) : Prop := Active c ∨ Idle c

/-- Without the timers behind the stored handles nothing runs any more. -/
theorem Ready.unonBoth (h : Ready c) : Idle c.unonAutoPolling.unonTryPolling := by
  rcases h with h | h
  · refine ⟨⟨unonBoth_flagsOk h.flags, fun i cb hi hreq => ?_⟩, fun i hi => ?_⟩
    · obtain ⟨htry, hauto, hi⟩ := (unonBoth_running i cb).mp hi
      rcases requests_cases hreq with hcb | rfl
      · exact hauto (h.auto i cb hi hcb)
      · exact htry (h.tryPolling i hi)
    · exact h.restore i ((unonBoth_running i _).mp hi).2.2
  · refine ⟨⟨unonBoth_flagsOk h.flags, fun i cb hi => ?_⟩, fun i hi => ?_⟩
    · exact h.quiet i cb ((unonBoth_running i cb).mp hi).2.2
    · exact h.restore i ((unonBoth_running i _).mp hi).2.2

theorem Ready.unonAuto (h : Ready c) (htry : ∀ i, ¬ c.evTimerList.Running i .otaDataTryReqCb) :
    Idle c.unonAutoPolling := by
  have hrun {i : Fin 12} {cb : EvCb} (hi : c.unonAutoPolling.evTimerList.Running i cb) :
      c.autoPollingCb ≠ some i ∧ c.evTimerList.Running i cb := (evUnonTimer_running i cb).mp hi
  rcases h with h | h
  · refine ⟨⟨evUnonTimer_flagsOk h.flags _, fun i cb hi hreq => ?_⟩, fun i hi => ?_⟩
    · rcases requests_cases hreq with hcb | rfl
      · exact (hrun hi).1 (h.auto i cb (hrun hi).2 hcb)
      · exact htry i (hrun hi).2
    · exact h.restore i (hrun hi).2
  · refine ⟨⟨evUnonTimer_flagsOk h.flags _, fun i cb hi => ?_⟩, fun i hi => ?_⟩
    · exact h.quiet i cb (hrun hi).2
    · exact h.restore i (hrun hi).2

/-- Without request timers. -/
theorem Ready.idle (h : Ready c) (hreq : ∀ i cb, c.evTimerList.Running i cb → ¬ Requests cb) : Idle c := by
  rcases h with h | h
  · exact ⟨⟨h.flags, hreq⟩, h.restore⟩
  · exact h

theorem Idle.unonTry (h : Idle c) : Idle c.unonTryPolling := by
  have hrun {i : Fin 12} {cb : EvCb} (hi : c.unonTryPolling.evTimerList.Running i cb) :
      c.evTimerList.Running i cb := ((evUnonTimer_running i cb).mp hi).2
  refine ⟨⟨evUnonTimer_flagsOk h.flags _, fun i cb hi => ?_⟩, fun i hi => ?_⟩
  · exact h.quiet i cb (hrun hi)
  · exact h.restore i (hrun hi)

/-- `ev_unon_timer` touches no other slot. -/
theorem evUnonTimer_slot {h : Option (Fin 12)} {l : TimerList 12 EvCb} {i : Fin 12} (hi : h ≠ some i) :
    (evUnonTimer h l).slots i = l.slots i := by
  cases h with
  | none => rfl
  | some j =>
    apply Function.update_of_ne
    rintro rfl
    exact hi rfl

theorem HasRoom.unonAuto (h : HasRoom c) : HasFree c.unonAutoPolling := by
  obtain ⟨i, hfree, hauto, -⟩ := h
  refine ⟨i, ?_⟩
  unfold Client.unonAutoPolling
  rwa [evUnonTimer_slot hauto]

theorem HasRoom.unonBoth (h : HasRoom c) : HasFree c.unonAutoPolling.unonTryPolling := by
  obtain ⟨i, hfree, hauto, htry⟩ := h
  refine ⟨i, ?_⟩
  unfold Client.unonTryPolling Client.unonAutoPolling
  rwa [evUnonTimer_slot htry, evUnonTimer_slot hauto]

end Lists

section Handlers
variable {cfg : OtaCfg} {now : U32} {c : Client} {f : Flash}

/-- A new timer runs beside the others. -/
theorem register_running {c' : Client} {i : Fin 12} {cb : EvCb} {tUs : U32} (hflags : c.evTimerList.FlagsOk)
    (hon : c.evOnTimer cfg now cb tUs = some (i, c')) :
    ∃ l : TimerList 12 EvCb, c' = { c with evTimerList := l } ∧ l.FlagsOk ∧
      ∀ j k, l.Running j k ↔ j = i ∧ k = cb ∨ c.evTimerList.Running j k := by
  obtain ⟨l, hl, rfl⟩ := evOnTimer_some hon
  exact ⟨l, rfl, onTimer_flagsOk hflags hl, onTimer_running hflags hl⟩

/-- The first failure: the callback is to come, and all other timers are as before. -/
theorem otaFail_watched {Q : Option Nat → Option Client → Prop} (hflags : c.evTimerList.FlagsOk) (hfree : HasFree c)
    (hQ : ∀ i (l : TimerList 12 EvCb), l.FlagsOk →
      (∀ j k, l.Running j k ↔ j = i ∧ k = .otaCallBackRestore ∨ c.evTimerList.Running j k) →
      Q (some 0) (some { c with otaState := .failed, evTimerList := l })) :
    Watched failMonitor none (otaFail cfg now c) (fun m r _ => Q m r) f := by
  apply watched_bind
  apply watched_issue (show failMonitor none (.setState .failed) = some (some 0) from rfl)
  apply watched_pure
  obtain ⟨s, hs⟩ := hfree
  obtain ⟨⟨i, l⟩, hl⟩ := Option.isSome_iff_exists.mp (onTimer_isSome cfg.clock1us now .otaCallBackRestore callbackTimeUs hs)
  have hon : Client.onCallBackRestore cfg now { c with otaState := .failed } =
      some { c with otaState := .failed, evTimerList := l } := by
    unfold Client.onCallBackRestore Client.evOnTimer
    rw [hl]
    rfl
  rw [hon]
  exact hQ i l (onTimer_flagsOk hflags hl) (onTimer_running hflags hl)

theorem otaFail_idle (h : Idle c) (hfree : HasFree c) :
    Watched failMonitor none (otaFail cfg now c) (fun m r _ => InOrder m r) f := by
  apply otaFail_watched h.flags hfree
  intro i l hl hrun
  apply Session.failed
  · constructor
    · exact hl
    · intro j k hj hreq
      rcases (hrun j k).mp hj with ⟨rfl, rfl⟩ | hj
      · exact Requests.not_restore hreq
      · exact h.quiet j k hj hreq
  · rfl
  · refine .inl ⟨rfl, i, fun j => ?_⟩
    rw [hrun]
    constructor
    · rintro (⟨hj, -⟩ | hj)
      · exact hj
      · exact absurd hj (h.restore j)
    · intro hj
      exact .inl ⟨hj, rfl⟩

/-- A request timer is started by an idle client, with its handle stored. -/
theorem Idle.onAuto (h : Idle c) (htry : c.tryPollingCb = none) {cb : EvCb} {tUs : U32}
    (hcb : cb = .otaStartReqCb ∨ cb = .otaStopRspCb) : InOrder none (c.onAutoPolling cfg now cb tUs) := by
  unfold Client.onAutoPolling
  cases hreg : c.evOnTimer cfg now cb tUs with
  | none => rfl
  | some r =>
    obtain ⟨i, c'⟩ := r
    obtain ⟨l, rfl, hl, hrun⟩ := register_running h.flags hreg
    apply Session.active
    constructor
    · exact hl
    · intro j k hj hk
      rcases (hrun j k).mp hj with ⟨rfl, -⟩ | hj
      · rfl
      · exact absurd (by unfold Requests; tauto) (h.quiet j k hj)
    · intro j hj
      rcases (hrun j _).mp hj with ⟨-, rfl⟩ | hj
      · simp at hcb
      · exact absurd (.inr (.inl rfl)) (h.quiet j _ hj)
    · exact .inr htry
    · intro j hj
      rcases (hrun j _).mp hj with ⟨-, rfl⟩ | hj
      · simp at hcb
      · exact h.restore j hj

theorem Idle.onTry (h : Idle c) (hauto : c.autoPollingCb = none) {tUs : U32} :
    InOrder none (c.onTryPolling cfg now .otaDataTryReqCb tUs) := by
  unfold Client.onTryPolling
  cases hreg : c.evOnTimer cfg now .otaDataTryReqCb tUs with
  | none => rfl
  | some r =>
    obtain ⟨i, c'⟩ := r
    obtain ⟨l, rfl, hl, hrun⟩ := register_running h.flags hreg
    apply Session.active
    constructor
    · exact hl
    · intro j k hj hk
      rcases (hrun j k).mp hj with ⟨-, rfl⟩ | hj
      · simp at hk
      · exact absurd (by unfold Requests; tauto) (h.quiet j k hj)
    · intro j hj
      rcases (hrun j _).mp hj with ⟨rfl, -⟩ | hj
      · rfl
      · exact absurd (.inr (.inl rfl)) (h.quiet j _ hj)
    · exact .inl hauto
    · intro j hj
      rcases (hrun j _).mp hj with ⟨-, hk⟩ | hj
      · cases hk
      · exact h.restore j hj

/-- Operations before any failure. -/
theorem failMonitor_none {op : OtaOp} (h : op ≠ .setState .failed) : failMonitor none op = some none := by
  cases op with
  | setState s =>
    cases s with
    | failed => exact absurd rfl h
    | _ => rfl
  | _ => rfl

theorem otaDataReqCb_watched (h : Idle c.unonTryPolling) (hauto : c.autoPollingCb = none) :
    Watched failMonitor none (otaDataReqCb cfg now c) (fun m r _ => InOrder m r) f := by
  apply watched_bind
  apply watched_issue (show failMonitor none (.send _) = some none from rfl)
  apply watched_pure
  have hidle : Idle { c.unonTryPolling with seqNo := c.unonTryPolling.seqNo + 1, otaRetryCnt := datareqRetrycnt } :=
    ⟨⟨h.flags, h.quiet⟩, h.restore⟩
  exact hidle.onTry hauto

theorem otaDataRspNext_watched (h : Idle c) (hfree : HasFree c) (hauto : c.autoPollingCb = none)
    (htry : c.tryPollingCb = none) :
    Watched failMonitor none (otaDataRspNext cfg now c) (fun m r _ => InOrder m r) f := by
  unfold otaDataRspNext
  split_ifs
  · apply watched_bind
    apply watched_query
    cases otaVerify cfg.mcu c.toTransfer f with
    | none =>
      apply watched_pure
      rfl
    | some ok =>
      cases ok with
      | true =>
        apply watched_bind
        apply watched_issue (show failMonitor none (.setState .success) = some none from rfl)
        apply watched_pure
        have hidle : Idle { c with otaState := .success, otaRetryCnt := datareqRetrycnt } :=
          ⟨⟨h.flags, h.quiet⟩, h.restore⟩
        exact hidle.onAuto htry (.inr rfl)
      | false => exact otaFail_idle h hfree
  · exact otaDataReqCb_watched h.unonTry hauto

/-- A chunk that the flash can take is processed without a failure. -/
theorem otaDataProcess_watched {mcu : Mcu} {len : Byte} {pData : Nat → Byte} {t : Transfer}
    (hfits : ChunkFits mcu len pData t f) :
    Watched failMonitor none (otaDataProcess mcu len pData t) (fun m r _ => m = none ∧ r.1 = true) f := by
  have hprogram {i : Nat} {t' : Transfer} {g : Flash} (h : WriteFits mcu len.toNat i pData t' g) :
      Watched failMonitor none (otaProgram mcu len.toNat i pData t') (fun m r _ => m = none ∧ r.1 = true) g := by
    apply watched_idle
    · intro op hop
      apply failMonitor_none
      rintro rfl
      unfold otaProgram at hop
      split_ifs at hop
      · cases hop
      · obtain ⟨o, -, ho⟩ := List.mem_map.mp (List.mem_append.mp hop |>.resolve_right List.not_mem_nil)
        cases ho
    · exact ⟨rfl, otaProgram_value.mpr h⟩
  unfold otaDataProcess
  unfold ChunkFits at hfits
  cases hst : t.otaState with
  | starting =>
    rw [hst] at hfits
    dsimp only at hfits ⊢
    split_ifs with hdata
    · apply watched_bind
      apply watched_issue (show failMonitor none (.setState .dataing) = some none from rfl)
      exact hprogram (hfits hdata)
    · exact watched_pure ⟨rfl, rfl⟩
  | dataing =>
    rw [hst] at hfits
    exact hprogram hfits
  | success => exact watched_pure ⟨rfl, rfl⟩
  | failed => exact watched_pure ⟨rfl, rfl⟩
  | finished => exact watched_pure ⟨rfl, rfl⟩

theorem otaDataRspHandler_watched (h : Ready c) (hroom : HasRoom c) {hdr : OtaDataFrame}
    (hmatch : hdr.toOtaIdent = c.rcOtaInfo.toOtaIdent ∧ hdr.imageSize = c.rcDataCount)
    (hfits : hdr.payloadSize = 0 ∨ ChunkFits cfg.mcu hdr.payloadSize hdr.payload c.toTransfer f) :
    Watched failMonitor none (otaDataRspHandler cfg now hdr c) (fun m r _ => InOrder m r) f := by
  have hidle := h.unonBoth
  have hfree := hroom.unonBoth
  unfold otaDataRspHandler
  rw [if_pos hmatch]
  split_ifs with hzero
  · exact otaFail_idle hidle hfree
  · apply watched_bind
    apply (otaDataProcess_watched (hfits.resolve_left hzero)).mono
    rintro m ⟨sta, t⟩ g ⟨rfl, hsta⟩
    dsimp only at hsta ⊢
    rw [if_pos hsta]
    have hidle' : Idle ({ c.unonAutoPolling.unonTryPolling with toTransfer := t }.countChunk) :=
      ⟨⟨hidle.flags, hidle.quiet⟩, hidle.restore⟩
    exact otaDataRspNext_watched hidle' hfree rfl rfl

/-- START_RSP is taken up: for this device, newer, and not too long. -/
def Accepted (cfg : OtaCfg) (hdr : OtaPreamble) : Prop :=
  (hdr.manufaurerCode = cfg.manufacturerCode ∧ hdr.chipType = cfg.chipId ∧ cfg.firmwareVersion < hdr.fileVer) ∧
    hdr.imageSize < otaMaxImageSize

theorem otaStartRspHandler_watched (h : Ready c) {hdr : OtaPreamble}
    (hrej : ¬ Accepted cfg hdr → HasRoom c ∧ ∀ i, ¬ c.evTimerList.Running i .otaDataTryReqCb) :
    Watched failMonitor none (otaStartRspHandler cfg now hdr c) (fun m r _ => InOrder m r) f := by
  have hfail (hnot : ¬ Accepted cfg hdr) : Idle c.unonAutoPolling ∧ HasFree c.unonAutoPolling := by
    obtain ⟨hroom, htry⟩ := hrej hnot
    exact ⟨h.unonAuto htry, hroom.unonAuto⟩
  unfold otaStartRspHandler
  split_ifs with hid himg
  · have hidle := h.unonBoth
    apply watched_bind
    apply watched_idle
    · intro op hop
      apply failMonitor_none
      rintro rfl
      obtain ⟨o, -, ho⟩ := List.mem_map.mp hop
      cases ho
    · apply watched_bind
      apply watched_issue (show failMonitor none (.setState .starting) = some none from rfl)
      exact otaDataReqCb_watched ⟨⟨hidle.flags, hidle.quiet⟩, hidle.restore⟩ rfl
  · obtain ⟨hidle, hfree⟩ := hfail fun hacc => himg hacc.2
    exact otaFail_idle ⟨⟨hidle.flags, hidle.quiet⟩, hidle.restore⟩ hfree
  · obtain ⟨hidle, hfree⟩ := hfail fun hacc => hid hacc.1
    exact otaFail_idle ⟨⟨hidle.flags, hidle.quiet⟩, hidle.restore⟩ hfree

theorem otaStartReq_watched (h : Ready c) :
    Watched failMonitor none (otaStartReq cfg now c) (fun m r _ => InOrder m r) f := by
  have hidle := h.unonBoth
  apply watched_bind
  apply watched_query
  apply watched_pure
  have hidle' : Idle ({ otaInitInfo cfg f c with
      otaRetryCnt := startreqRetrycnt, otaHeadersize := 0, otaHeadercnt := 0 } : Client).unonAutoPolling.unonTryPolling :=
    ⟨⟨hidle.flags, hidle.quiet⟩, hidle.restore⟩
  exact hidle'.onAuto rfl (.inl rfl)

theorem otaStopRspHandler_watched (h : Ready c) (hroom : HasRoom c) {hdr : OtaIdent}
    (htimers : if hdr = c.rcOtaInfo.toOtaIdent then ∀ i, ¬ c.evTimerList.Running i .otaDataTryReqCb
      else ∀ i cb, c.evTimerList.Running i cb → ¬ Requests cb) :
    Watched failMonitor none (otaStopRspHandler cfg now hdr c) (fun m r _ => InOrder m r) f := by
  unfold otaStopRspHandler
  split_ifs at htimers ⊢
  · have hidle := h.unonAuto htimers
    apply watched_pure
    unfold Client.onCallBackRestore
    cases hreg : c.unonAutoPolling.evOnTimer cfg now .otaCallBackRestore callbackTimeUs with
    | none => rfl
    | some r =>
      obtain ⟨i, c'⟩ := r
      obtain ⟨l, rfl, hl, hrun⟩ := register_running hidle.flags hreg
      apply Session.quiet
      constructor
      · exact hl
      · intro j k hj hreq
        rcases (hrun j k).mp hj with ⟨-, rfl⟩ | hj
        · exact Requests.not_restore hreq
        · exact hidle.quiet j k hj hreq
  · obtain ⟨i, hi, -⟩ := hroom
    exact otaFail_idle (h.idle htimers) ⟨i, hi⟩

/-- A session goes on when the client's own timers do. -/
theorem Session.of_running {m : Option Nat} (h : Session m c) {c' : Client} (hauto : c'.autoPollingCb = c.autoPollingCb)
    (htry : c'.tryPollingCb = c.tryPollingCb) (hst : c'.otaState = c.otaState) (hflags : c'.evTimerList.FlagsOk)
    (hrun : ∀ j k, Requests k ∨ k = .otaCallBackRestore →
      (c'.evTimerList.Running j k ↔ c.evTimerList.Running j k)) : Session m c' := by
  have hquiet (hq : Quiet c) : Quiet c' := by
    constructor
    · exact hflags
    · intro j k hj hreq
      exact hq.quiet j k ((hrun j k (.inl hreq)).mp hj) hreq
  cases h with
  | active h =>
    apply Session.active
    constructor
    · exact hflags
    · intro j k hj hk
      rw [hauto]
      exact h.auto j k ((hrun j k (.inl (by unfold Requests; tauto))).mp hj) hk
    · intro j hj
      rw [htry]
      exact h.tryPolling j ((hrun j _ (.inl (.inr (.inl rfl)))).mp hj)
    · rw [hauto, htry]
      exact h.one
    · intro j hj
      exact h.restore j ((hrun j _ (.inr rfl)).mp hj)
  | quiet h => exact .quiet (hquiet h)
  | failed h hfailed hcb =>
    apply Session.failed (hquiet h) (hst.trans hfailed)
    rcases hcb with ⟨hn, i, hi⟩ | ⟨hn, hnone⟩
    · exact .inl ⟨hn, i, fun j => (hrun j _ (.inr rfl)).trans (hi j)⟩
    · exact .inr ⟨hn, fun j hj => hnone j ((hrun j _ (.inr rfl)).mp hj)⟩

/-- While a request timer runs the session is active. -/
theorem Session.polling {m : Option Nat} (h : Session m c) {i : Fin 12} {cb : EvCb} (hreq : Requests cb)
    (hi : c.evTimerList.Running i cb) : m = none ∧ Active c := by
  cases h with
  | active h => exact ⟨rfl, h⟩
  | quiet h => exact absurd hreq (h.quiet i cb hi)
  | failed h hst hcb => exact absurd hreq (h.quiet i cb hi)

/-- The timer of an active session that has used up its retries is the only request timer. -/
theorem Active.last (h : Active c) {i : Fin 12} {cb : EvCb} (hreq : Requests cb) (hi : c.evTimerList.Running i cb)
    {j : Fin 12} {k : EvCb} (hk : Requests k) (hj : c.evTimerList.Running j k) : j = i := by
  rcases requests_cases hreq with hcb | rfl
  · have hauto := h.auto i cb hi hcb
    rcases requests_cases hk with hk | rfl
    · exact Option.some.inj ((h.auto j k hj hk).symm.trans hauto)
    · rcases h.one with hone | hone
      · rw [hauto] at hone
        cases hone
      · rw [h.tryPolling j hj] at hone
        cases hone
  · have htry := h.tryPolling i hi
    rcases requests_cases hk with hk | rfl
    · rcases h.one with hone | hone
      · rw [h.auto j k hj hk] at hone
        cases hone
      · rw [htry] at hone
        cases hone
    · exact Option.some.inj ((h.tryPolling j hj).symm.trans htry)

/-- The client after the timer in slot `i` has returned. -/
def Client.fired (cfg : OtaCfg) (pass : U32) (i : Fin 12) (p : Client × Int) : Client :=
  { p.1 with evTimerList := timerDone cfg.clock1us pass p.2 i p.1.evTimerList }

theorem otaRetryCb_watched {m : Option Nat} (h : Session m c) {i : Fin 12} {cb : EvCb} {pass : U32} {msg : OtaReq}
    {left : Nat} (hreq : Requests cb) (hi : c.evTimerList.Running i cb) (hfree : HasFree c) :
    Watched failMonitor m (otaRetryCb cfg now msg left c)
      (fun m r _ => InOrder m (r.map (Client.fired cfg pass i))) f := by
  obtain ⟨rfl, hactive⟩ := h.polling hreq hi
  unfold otaRetryCb
  split_ifs with hretry
  · apply watched_bind
    apply watched_issue (show failMonitor none (.send _) = some none from rfl)
    apply watched_pure
    have hflags' : (timerDone cfg.clock1us pass 0 i c.evTimerList).FlagsOk := timerDone_flagsOk hactive.flags
    have hrun (j : Fin 12) (k : EvCb) :
        (timerDone cfg.clock1us pass 0 i c.evTimerList).Running j k ↔ c.evTimerList.Running j k := by
      rw [timerDone_running]
      simp
    exact h.of_running rfl rfl rfl hflags' fun j k _ => hrun j k
  · apply watched_bind
    have hflags : ({ c with otaRetryCnt := left } : Client).evTimerList.FlagsOk := hactive.flags
    refine Watched.mono (otaFail_watched
      (Q := fun m r => InOrder m ((r.map fun c => (c, -1)).map (Client.fired cfg pass i))) hflags hfree ?_)
      fun m r g hm => watched_pure hm
    · intro n l hl hrun
      have hdone (j : Fin 12) (k : EvCb) : (timerDone cfg.clock1us pass (-1) i l).Running j k ↔
          j ≠ i ∧ (j = n ∧ k = .otaCallBackRestore ∨ c.evTimerList.Running j k) := by
        rw [timerDone_running, hrun]
        simp
      have hni : n ≠ i := by
        rintro rfl
        have hnew := (hrun n .otaCallBackRestore).mpr (.inl ⟨rfl, rfl⟩)
        have hold := (hrun n cb).mpr (.inr hi)
        obtain rfl := Option.some.inj (hnew.2.symm.trans hold.2)
        exact Requests.not_restore hreq
      apply Session.failed
      · constructor
        · exact timerDone_flagsOk hl
        · intro j k hj hk
          obtain ⟨hji, ⟨-, rfl⟩ | hj⟩ := (hdone j k).mp hj
          · exact Requests.not_restore hk
          · exact hji (hactive.last hreq hi hk hj)
      · rfl
      · refine .inl ⟨rfl, n, fun j => (hdone j _).trans ?_⟩
        constructor
        · rintro ⟨-, ⟨hj, -⟩ | hj⟩
          · exact hj
          · exact absurd hj (hactive.restore j)
        · rintro rfl
          exact ⟨hni, .inl ⟨rfl, rfl⟩⟩

theorem otaCallBackRestore_watched {m : Option Nat} (h : Session m c) {i : Fin 12} {pass : U32}
    (hi : c.evTimerList.Running i .otaCallBackRestore) :
    Watched failMonitor m (otaCallBackRestore c) (fun m r _ => InOrder m (r.map (Client.fired cfg pass i))) f := by
  have hquiet (hq : Quiet c) : Quiet (Client.fired cfg pass i (c, -1)) := by
    constructor
    · exact timerDone_flagsOk hq.flags
    · intro j k hj
      exact hq.quiet j k ((timerDone_running j k).mp hj).2
  apply watched_bind
  cases h with
  | active h => exact absurd hi (h.restore i)
  | quiet h =>
    apply watched_issue (show failMonitor none (.otaCb _) = some none from rfl)
    apply watched_pure
    exact .quiet (hquiet h)
  | failed h hst hcb =>
    rcases hcb with ⟨rfl, n, hn⟩ | ⟨-, hnone⟩
    · apply watched_issue (show failMonitor (some 0) (.otaCb _) = some (some 1) from rfl)
      apply watched_pure
      refine Session.failed (hquiet h) hst (.inr ⟨rfl, fun j hj => ?_⟩)
      obtain ⟨hret, hj⟩ := (timerDone_running j _).mp hj
      have hji : j = i := ((hn j).mp hj).trans ((hn i).mp hi).symm
      have hneg : ¬ (0 : Int) ≤ -1 := by decide
      exact absurd (hret hji) hneg
    · exact absurd hi (hnone i)

/-- A request timer runs, or the client has not failed and no callback is to come. -/
def Open (c : Client) : Prop :=
  (∃ i cb, Requests cb ∧ c.evTimerList.Running i cb) ∨
    c.otaState ≠ .failed ∧ ∀ i, ¬ c.evTimerList.Running i .otaCallBackRestore

theorem Session.ready {m : Option Nat} (h : Session m c) (hopen : Open c) : m = none ∧ Ready c := by
  rcases hopen with ⟨i, cb, hreq, hi⟩ | ⟨hst, hr⟩
  · obtain ⟨hm, hactive⟩ := h.polling hreq hi
    exact ⟨hm, .inl hactive⟩
  · cases h with
    | active h => exact ⟨rfl, .inl h⟩
    | quiet h => exact ⟨rfl, .inr ⟨h, hr⟩⟩
    | failed h hfailed hcb => exact absurd hfailed hst

/-- What the main loop and the other party keep to in a call: timers fire when they are due,
other modules leave the client's timers alone, and messages come when the client waits for
them. -/
def Orderly (cfg : OtaCfg) (f : Flash) (c : Client) : ClientCall → Prop
  | .startReq => ∀ i, ¬ c.evTimerList.Running i .otaCallBackRestore
  | .startRsp hdr =>
    Open c ∧ (Accepted cfg hdr ∨ HasRoom c ∧ ∀ i, ¬ c.evTimerList.Running i .otaDataTryReqCb)
  | .dataRsp hdr =>
    hdr.toOtaIdent = c.rcOtaInfo.toOtaIdent ∧ hdr.imageSize = c.rcDataCount →
      Open c ∧ HasRoom c ∧ (hdr.payloadSize = 0 ∨ ChunkFits cfg.mcu hdr.payloadSize hdr.payload c.toTransfer f)
  | .stopRsp hdr =>
    Open c ∧ HasRoom c ∧
      if hdr = c.rcOtaInfo.toOtaIdent then ∀ i, ¬ c.evTimerList.Running i .otaDataTryReqCb
      else ∀ i cb, c.evTimerList.Running i cb → ¬ Requests cb
  | .reclaim => True
  | .fire i pass _ =>
    timerDue cfg.clock1us pass (c.evTimerList.slots i) ∧
      ∀ cb, Requests cb → c.evTimerList.Running i cb → HasFree c
  | .otherOn _ _ => HasFree c
  | .otherUnon i => ∀ cb, c.evTimerList.Running i cb → ¬ Requests cb ∧ cb ≠ .otaCallBackRestore

/-- A timer of another module fires. -/
theorem Session.otherFired {m : Option Nat} (h : Session m c) {i : Fin 12} {pass : U32} {ret : Int}
    (hother : ∀ cb, c.evTimerList.Running i cb → ¬ Requests cb ∧ cb ≠ .otaCallBackRestore)
    (hflags : c.evTimerList.FlagsOk) : Session m (Client.fired cfg pass i (c, ret)) := by
  have hflags' : (timerDone cfg.clock1us pass ret i c.evTimerList).FlagsOk := timerDone_flagsOk hflags
  have hrun (j : Fin 12) (k : EvCb) (hk : Requests k ∨ k = .otaCallBackRestore) :
      (timerDone cfg.clock1us pass ret i c.evTimerList).Running j k ↔ c.evTimerList.Running j k := by
    rw [timerDone_running]
    constructor
    · rintro ⟨-, hj⟩
      exact hj
    · intro hj
      refine ⟨?_, hj⟩
      rintro rfl
      obtain ⟨hreq, hr⟩ := hother k hj
      rcases hk with hk | hk
      · exact absurd hk hreq
      · exact absurd hk hr
  exact h.of_running rfl rfl rfl hflags' hrun

theorem Session.flags {m : Option Nat} (h : Session m c) : c.evTimerList.FlagsOk := by
  cases h with
  | active h => exact h.flags
  | quiet h => exact h.flags
  | failed h hst hcb => exact h.flags

theorem clientFire_watched {m : Option Nat} (h : Session m c) {i : Fin 12} {pass : U32} {ret : Int}
    (hk : Orderly cfg f c (.fire i pass ret)) :
    Watched failMonitor m (clientStep cfg now c (.fire i pass ret)) (fun m r _ => InOrder m r) f := by
  obtain ⟨hdue, hfree⟩ := hk
  have hvalid := timerDue_valid hdue
  change Watched failMonitor m (c.evProcessTimer cfg now i pass ret) _ f
  unfold Client.evProcessTimer
  rw [if_pos hvalid]
  apply watched_bind
  change Watched failMonitor m (otaTimerCb cfg now ret (c.evTimerList.slots i).cb c)
    (fun m r g => Watched failMonitor m (pure (r.map (Client.fired cfg pass i)) : OtaM (Option Client))
      (fun m r _ => InOrder m r) g) f
  suffices hcb : Watched failMonitor m (otaTimerCb cfg now ret (c.evTimerList.slots i).cb c)
      (fun m r _ => InOrder m (r.map (Client.fired cfg pass i))) f from
    hcb.mono fun m r g hm => watched_pure hm
  have hother (hnot : ∀ cb, (c.evTimerList.slots i).cb = some cb → ¬ Requests cb ∧ cb ≠ .otaCallBackRestore) :
      Watched failMonitor m (pure (some (c, ret)) : OtaM (Option (Client × Int)))
        (fun m r _ => InOrder m (r.map (Client.fired cfg pass i))) f := by
    apply watched_pure
    exact h.otherFired (fun cb hi => hnot cb hi.2) h.flags
  cases hslot : (c.evTimerList.slots i).cb with
  | none =>
    apply hother
    intro cb hcb
    rw [hslot] at hcb
    cases hcb
  | some cb =>
    have hi : c.evTimerList.Running i cb := ⟨hvalid, hslot⟩
    have hnot (hcb : ¬ Requests cb ∧ cb ≠ .otaCallBackRestore) (k : EvCb)
        (hk : (c.evTimerList.slots i).cb = some k) : ¬ Requests k ∧ k ≠ .otaCallBackRestore := by
      obtain rfl := Option.some.inj (hslot.symm.trans hk)
      exact hcb
    cases cb with
    | otaStartReqCb => exact otaRetryCb_watched h (.inl rfl) hi (hfree _ (.inl rfl) hi)
    | otaDataTryReqCb => exact otaRetryCb_watched h (.inr (.inl rfl)) hi (hfree _ (.inr (.inl rfl)) hi)
    | otaStopRspCb => exact otaRetryCb_watched h (.inr (.inr rfl)) hi (hfree _ (.inr (.inr rfl)) hi)
    | otaCallBackRestore => exact otaCallBackRestore_watched h hi
    | appSendRepeateDataTimerCb => exact hother (hnot (by simp [Requests]))
    | other k => exact hother (hnot (by simp [Requests]))

/-- `ota_startReq` begins a new transfer. -/
def watchFrom : ClientCall → Option Nat → Option Nat
  | .startReq, _ => none
  | _, m => m

theorem clientStep_watched {m : Option Nat} (h : Session m c) {k : ClientCall} (hk : Orderly cfg f c k) :
    Watched failMonitor (watchFrom k m) (clientStep cfg now c k)
      (fun m r _ => InOrder m r) f := by
  cases k with
  | startReq =>
    have hready : Ready c := by
      cases h with
      | active h => exact .inl h
      | quiet h => exact .inr ⟨h, hk⟩
      | failed h hst hcb => exact .inr ⟨h, hk⟩
    exact otaStartReq_watched hready
  | startRsp hdr =>
    obtain ⟨hopen, hacc⟩ := hk
    obtain ⟨rfl, hready⟩ := h.ready hopen
    exact otaStartRspHandler_watched hready hacc.resolve_left
  | dataRsp hdr =>
    by_cases hmatch : hdr.toOtaIdent = c.rcOtaInfo.toOtaIdent ∧ hdr.imageSize = c.rcDataCount
    · obtain ⟨hopen, hroom, hfits⟩ := hk hmatch
      obtain ⟨rfl, hready⟩ := h.ready hopen
      exact otaDataRspHandler_watched hready hroom hmatch hfits
    · change Watched failMonitor m (otaDataRspHandler cfg now hdr c) _ f
      unfold otaDataRspHandler
      rw [if_neg hmatch]
      exact watched_pure h
  | stopRsp hdr =>
    obtain ⟨hopen, hroom, htimers⟩ := hk
    obtain ⟨rfl, hready⟩ := h.ready hopen
    exact otaStopRspHandler_watched hready hroom htimers
  | reclaim =>
    apply watched_pure
    have hflags : (reclaim c.evTimerList).FlagsOk := reclaim_flagsOk h.flags
    exact h.of_running rfl rfl rfl hflags fun j k _ => reclaim_running j k
  | fire i pass ret => exact clientFire_watched h hk
  | otherOn n tUs =>
    apply watched_pure
    obtain ⟨s, hs⟩ := hk
    obtain ⟨⟨i, l⟩, hl⟩ := Option.isSome_iff_exists.mp (onTimer_isSome cfg.clock1us now (.other n) tUs hs)
    have hon : (c.evOnTimer cfg now (.other n) tUs).map Prod.snd = some { c with evTimerList := l } := by
      unfold Client.evOnTimer
      rw [hl]
      rfl
    rw [hon]
    have hflags : l.FlagsOk := onTimer_flagsOk h.flags hl
    refine Session.of_running h rfl rfl rfl hflags fun j k hk => ?_
    rw [onTimer_running h.flags hl]
    constructor
    · rintro (⟨-, rfl⟩ | hj)
      · simp [Requests] at hk
      · exact hj
    · exact .inr
  | otherUnon i =>
    apply watched_pure
    have hflags : (evUnonTimer (some i) c.evTimerList).FlagsOk := evUnonTimer_flagsOk h.flags _
    refine Session.of_running h rfl rfl rfl hflags fun j k hreq => ?_
    rw [evUnonTimer_running]
    constructor
    · rintro ⟨-, hj⟩
      exact hj
    · intro hj
      refine ⟨?_, hj⟩
      rintro hij
      obtain rfl := Option.some.inj hij
      obtain ⟨hnot, hr⟩ := hk k hj
      rcases hreq with hreq | hreq
      · exact hnot hreq
      · exact hr hreq

end Handlers

/-! ### Runs -/

/-- A step with the monitor beside it, which `ota_startReq` resets; it is `none` from a forbidden
operation on. -/
def failStep (cfg : OtaCfg) (s : OtaWorld × Option (Option Nat)) (k : U32 × ClientCall) :
    (OtaWorld × Option (Option Nat)) × List OtaOp :=
  let r := otaStep cfg s.1 k
  ((r.1, s.2.bind fun m => r.2.foldlM failMonitor (watchFrom k.2 m)), r.2)

def OrderlyStep (cfg : OtaCfg) (s : OtaWorld × Option (Option Nat)) (k : U32 × ClientCall) : Prop :=
  ∀ c, s.1.client = some c → Orderly cfg s.1.flash c k.2

def InSession (s : OtaWorld × Option (Option Nat)) : Prop := ∃ m, s.2 = some m ∧ InOrder m s.1.client

theorem failStep_inSession {cfg : OtaCfg} {s : OtaWorld × Option (Option Nat)} {k : U32 × ClientCall}
    (h : InSession s) (hk : OrderlyStep cfg s k) : InSession (failStep cfg s k).1 := by
  obtain ⟨⟨client, f⟩, m'⟩ := s
  obtain ⟨m, rfl, hm⟩ := h
  cases client with
  | none =>
    obtain rfl : m = none := hm
    refine ⟨none, ?_, rfl⟩
    obtain ⟨now, k⟩ := k
    cases k <;> rfl
  | some c => exact clientStep_watched hm (hk c rfl)

/-- In an orderly run from power-up on a failed transfer stays failed: until the next
`ota_startReq` nothing is requested, erased or programmed, and there is one callback. -/
theorem otaFailed_final {cfg : OtaCfg} {f : Flash} {ks : List (U32 × ClientCall)}
    (hks : Refine.Legal (failStep cfg) (OrderlyStep cfg) (⟨some .powerUp, f⟩, some none) ks) :
    ∃ m, (Refine.run (failStep cfg) (⟨some .powerUp, f⟩, some none) ks).1.2 = some m ∧
      ∀ n, m = some n → ∃ c, (Refine.run (failStep cfg) (⟨some .powerUp, f⟩, some none) ks).1.1.client = some c ∧
        c.otaState = .failed ∧ OneCallback n c := by
  have hstart : InSession (⟨some .powerUp, f⟩, some none) := by
    refine ⟨none, rfl, Session.quiet ⟨fun i => .inl ⟨rfl, rfl⟩, ?_⟩⟩
    rintro i cb ⟨hvalid, -⟩
    cases hvalid
  obtain ⟨m, hm, hin⟩ := Refine.run_invariant (fun _ _ h hk => failStep_inSession h hk) hstart hks
  refine ⟨m, hm, ?_⟩
  rintro n rfl
  cases hc : (Refine.run (failStep cfg) (⟨some .powerUp, f⟩, some none) ks).1.1.client with
  | none =>
    rw [hc] at hin
    cases hin
  | some c =>
    rw [hc] at hin
    cases hin with
    | failed h hst hcb => exact ⟨c, rfl, hst, hcb⟩

/-- START_RSP for an image that is no newer, and half a second later the callback. -/
def refusedStart : List (U32 × ClientCall) :=
  [(0, .startReq), (100, .startRsp ⟨⟨0, 0x8258, 0x1141⟩, 100⟩), (8000200, .reclaim), (8000300, .fire 1 8000200 0)]

theorem otaFailed_final_refused : ∃ c,
    (Refine.run (failStep cfg8258) (⟨some .powerUp, fun _ => 255⟩, some none) refusedStart).1.1.client = some c ∧
      c.otaState = .failed ∧ OneCallback 1 c := by
  have hks : Refine.Legal (failStep cfg8258) (OrderlyStep cfg8258) (⟨some .powerUp, fun _ => 255⟩, some none)
      refusedStart := by
    refine ⟨fun c hc => ?_, fun c hc => ?_, fun c hc => trivial, fun c hc => ?_, trivial⟩
    · obtain rfl := Option.some.inj hc
      change ∀ i, ¬ (_ ∧ _)
      decide +kernel
    · obtain rfl := Option.some.inj hc
      refine ⟨.inl ⟨0, .otaStartReqCb, .inl rfl, rfl, rfl⟩, .inr ⟨⟨5, ?_⟩, ?_⟩⟩
      · decide +kernel
      · change ∀ i, ¬ (_ ∧ _)
        decide +kernel
    · obtain rfl := Option.some.inj hc
      refine ⟨?_, fun cb hcb hi => ⟨5, ?_⟩⟩
      · decide +kernel
      · decide +kernel
  obtain ⟨m, hm, hfailed⟩ := otaFailed_final hks
  have hone : (Refine.run (failStep cfg8258) (⟨some .powerUp, fun _ => 255⟩, some none) refusedStart).1.2 =
      some (some 1) := by decide +kernel
  exact hfailed 1 (Option.some.inj (hm.symm.trans hone))

/-- After the refusal a START_RSP that is accepted erases the bank and sends DATA_REQ. -/
theorem otaFailed_resumed : ¬ ∃ m,
    (Refine.run (failStep cfg8258) (⟨some .powerUp, fun _ => 255⟩, some none)
      [(0, .startReq), (100, .startRsp ⟨⟨0, 0x8258, 0x1141⟩, 100⟩),
        (200, .startRsp ⟨⟨0x01000107, 0x8258, 0x1141⟩, 100⟩)]).1.2 = some m := by
  have hnone : (Refine.run (failStep cfg8258) (⟨some .powerUp, fun _ => 255⟩, some none)
      [(0, .startReq), (100, .startRsp ⟨⟨0, 0x8258, 0x1141⟩, 100⟩),
        (200, .startRsp ⟨⟨0x01000107, 0x8258, 0x1141⟩, 100⟩)]).1.2 = none := by decide +kernel
  rw [hnone]
  rintro ⟨m, hm⟩
  cases hm

end Rf4ce.Ota
