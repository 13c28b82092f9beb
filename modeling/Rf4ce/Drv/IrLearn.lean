import Rf4ce.Refine.Run
import Mathlib.Data.List.Basic
import Mathlib.Logic.Function.Basic

/-! Learning an infrared code from the edges of a GPIO, `ir_learn.c` without `MCU_CORE_TL321X`. -/
namespace Rf4ce.Drv
open Refine

def irLearnSeriesCnt : Nat := 247

/-- `S_TIMER_CLOCK_1US`, which is `sysTimerPerUs`. -/
def sTimerClock1us : BitVec 32 := 16

def clockTickToUs (t : BitVec 32) : BitVec 32 := t / sTimerClock1us

def clockTimeExceed (now ref us : BitVec 32) : Bool := now - ref > us * 16

/-- The middle value. -/
def calculateMid (a b c : BitVec 16) : BitVec 16 :=
  let (a, b) := if a > b then (b, a) else (a, b)
  if c < b then if c < a then a else c else b

/-- `ir_learn_save_t` -/
structure IrLearnSave where
  carrHighTm : BitVec 32
  seriesCnt : BitVec 16
  seriesTm : Nat → BitVec 16

/-- `ir_learn_pattern`, `ir_learn_ctrl`, `ir_learn_dat` and the flags, as far as they are used. -/
structure IrLearn where
  carrHighTm : BitVec 32
  seriesCnt : BitVec 16
  irIntCnt : BitVec 8
  carrHighCnt : BitVec 8
  carrHighTemp : Nat → BitVec 16
  seriesTm : Nat → BitVec 16
  timeInterval : BitVec 32
  lastTriggerTm : BitVec 32
  currTriggerTm : BitVec 32
  recordLastTime : BitVec 32
  irLearnDat : IrLearnSave
  kbKeyindexPressed : BitVec 8
  irLearnReady : Bool
  irLearningFlag : Bool
  keyIrlearnTimeoutTick : BitVec 32

/-- The static variables before the first call. -/
def IrLearn.initial : IrLearn where
  carrHighTm := 0
  seriesCnt := 0
  irIntCnt := 0
  carrHighCnt := 0
  carrHighTemp := fun _ => 0
  seriesTm := fun _ => 0
  timeInterval := 0
  lastTriggerTm := 0
  currTriggerTm := 0
  recordLastTime := 0
  irLearnDat := ⟨0, 0, fun _ => 0⟩
  kbKeyindexPressed := 0
  irLearnReady := false
  irLearningFlag := false
  keyIrlearnTimeoutTick := 0

/-- The array elements that are stored to, the length that `nv_ir_write` gets, and the callbacks
given to `ev_on_timer`. -/
inductive IrLearnEvent where
  | seriesTm (i : Nat)
  | carrHighTemp (i : Nat)
  | nvIrWrite (keycode : BitVec 8) (len : BitVec 16)
  | successTimer | failedTimer
deriving DecidableEq, Repr

section Code

/-- `memset4(&ir_learn_pattern, 0, sizeof(ir_learn_pattern))` -/
def clearPattern (s : IrLearn) : IrLearn :=
  { s with
    carrHighTm := 0
    seriesCnt := 0
    irIntCnt := 0
    carrHighCnt := 0
    carrHighTemp := fun _ => 0
    seriesTm := fun _ => 0 }

def clearCtrl (s : IrLearn) : IrLearn :=
  { s with timeInterval := 0, lastTriggerTm := 0, currTriggerTm := 0, recordLastTime := 0 }

/-- `series_tm[series_cnt] = CLOCK_TICK_TO_US(t)` -/
def storeSeries (t : BitVec 32) (s : IrLearn) : IrLearn × List IrLearnEvent :=
  ({ s with seriesTm := Function.update s.seriesTm s.seriesCnt.toNat ((clockTickToUs t).setWidth 16) },
    [.seriesTm s.seriesCnt.toNat])

/-- An interval that is not zero is stored and counted. -/
def appendSeries (t : BitVec 32) (s : IrLearn) : IrLearn × List IrLearnEvent :=
  if clockTickToUs t ≠ 0 then
    let r := storeSeries t s
    ({ r.1 with seriesCnt := r.1.seriesCnt + 1 }, r.2)
  else (s, [])

def irStopLearn (s : IrLearn) : IrLearn × List IrLearnEvent :=
  let r :=
    if clockTickToUs (s.lastTriggerTm - s.recordLastTime) ≠ 0 then storeSeries (s.lastTriggerTm - s.recordLastTime) s
    else (if s.seriesCnt ≠ 0 then { s with seriesCnt := s.seriesCnt - 1 } else s, [])
  let r' := if (r.1.seriesTm 0).toNat < 200 then (clearPattern r.1, [.failedTimer]) else (r.1, [.successTimer])
  ({ r'.1 with irLearnReady := false, irLearningFlag := false }, r.2 ++ r'.2)

/-- An interval below 71 us is a cycle of the carrier. -/
def recordCarrier (s : IrLearn) : IrLearn × List IrLearnEvent :=
  let i := s.carrHighCnt.toNat
  let temp := Function.update s.carrHighTemp i ((clockTickToUs s.timeInterval).setWidth 16)
  let cnt := s.carrHighCnt + 1
  (if cnt.toNat > 1 then
      { s with
        carrHighTemp := temp
        carrHighCnt := 0
        carrHighTm := (calculateMid (temp 0) (temp 1) (s.carrHighTm.setWidth 16)).setWidth 32 }
    else { s with carrHighTemp := temp, carrHighCnt := cnt },
    [.carrHighTemp i])

/-- A longer one ends a burst: the burst and the gap are appended. -/
def recordGap (s : IrLearn) : IrLearn × List IrLearnEvent :=
  let r := appendSeries (s.lastTriggerTm - s.recordLastTime) s
  let r' := appendSeries (r.1.currTriggerTm - r.1.lastTriggerTm) r.1
  ({ r'.1 with recordLastTime := r'.1.currTriggerTm }, r.2 ++ r'.2)

/-- More than 200 ms end the code. -/
def recordEnd (s : IrLearn) : IrLearn × List IrLearnEvent :=
  let r := appendSeries (s.lastTriggerTm - s.recordLastTime) s
  let r' :=
    if clockTickToUs (r.1.currTriggerTm - r.1.lastTriggerTm) ≠ 0 then
      storeSeries (r.1.currTriggerTm - r.1.lastTriggerTm) r.1
    else (r.1, [])
  let r'' := irStopLearn { r'.1 with irLearningFlag := false }
  (r''.1, r.2 ++ r'.2 ++ r''.2)

/-- The body of `ir_record` for an edge that is recorded; `now` is `clock_time()`. -/
def recordEdge (now : BitVec 32) (s : IrLearn) : IrLearn × List IrLearnEvent :=
  if s.irIntCnt ≠ 0 then
    let s := { s with timeInterval := s.currTriggerTm - s.lastTriggerTm }
    if s.timeInterval < 71 * sTimerClock1us then recordCarrier s
    else if s.timeInterval > 70 * sTimerClock1us ∧ s.timeInterval < 200001 * sTimerClock1us then recordGap s
    else if s.timeInterval > 200000 * sTimerClock1us then recordEnd s
    else (s, [])
  else
    ({ s with
        irIntCnt := 1
        recordLastTime := s.currTriggerTm
        irLearningFlag := true
        keyIrlearnTimeoutTick := now }, [])

def irRecord (tm now : BitVec 32) (s : IrLearn) : IrLearn × List IrLearnEvent :=
  let s := { s with currTriggerTm := tm }
  if s.seriesCnt.toNat ≥ irLearnSeriesCnt - 2 then (s, [])
  else
    let r := recordEdge now s
    ({ r.1 with lastTriggerTm := r.1.currTriggerTm }, r.2)

def irStartLearn (keyCode : BitVec 8) (s : IrLearn) : IrLearn :=
  clearPattern (clearCtrl { s with irLearnReady := true, irLearningFlag := false, kbKeyindexPressed := keyCode })

def irLearnCheck (now : BitVec 32) (s : IrLearn) : IrLearn × List IrLearnEvent :=
  if s.irLearnReady ∧ s.irLearningFlag ∧ clockTimeExceed now s.keyIrlearnTimeoutTick 400000 then irStopLearn s
  else (s, [])

/-- The copy that `nv_ir_write` makes. -/
def irSave (freq : BitVec 32) (buf : Nat → BitVec 16) (len : BitVec 16) : IrLearnSave where
  carrHighTm := freq
  seriesCnt := len
  seriesTm i := if i < len.toNat then buf i else 0xffff

def irLearnSuccessCallback (s : IrLearn) : IrLearn × List IrLearnEvent :=
  let len := s.seriesCnt + 1
  ({ s with irLearnDat := irSave s.carrHighTm s.seriesTm len }, [.nvIrWrite s.kbKeyindexPressed len])

inductive IrLearnCall where
  | start (keyCode : BitVec 8)
  | record (tm now : BitVec 32)
  | check (now : BitVec 32)
  | stop
  | success

def irLearnStep (s : IrLearn) : IrLearnCall → IrLearn × List IrLearnEvent
  | .start keyCode => (irStartLearn keyCode s, [])
  | .record tm now => irRecord tm now s
  | .check now => irLearnCheck now s
  | .stop => irStopLearn s
  | .success => irLearnSuccessCallback s

end Code

/-! ### Bounds -/

/-- The element exists, and so do all that `nv_ir_write` copies. -/
def IrLearnEvent.InBounds : IrLearnEvent → Prop
  | .seriesTm i => i < irLearnSeriesCnt
  | .carrHighTemp i => i < 3
  | .nvIrWrite _ len => len.toNat ≤ irLearnSeriesCnt
  | _ => True

/-- At most `b` entries are counted. -/
structure IrLearn.Counts (b : Nat) (s : IrLearn) : Prop where
  series : s.seriesCnt.toNat ≤ b
  carrier : s.carrHighCnt.toNat ≤ 1

theorem IrLearn.Counts.mono {b b' : Nat} {s : IrLearn} (h : s.Counts b) (hb : b ≤ b') : s.Counts b' :=
  ⟨Nat.le_trans h.series hb, h.carrier⟩

/-- What a function does to the counts and stores. -/
def StaysIn (b : Nat) (r : IrLearn × List IrLearnEvent) : Prop :=
  r.1.Counts b ∧ ∀ e ∈ r.2, e.InBounds

variable {b : Nat} {s : IrLearn}

theorem storeSeries_staysIn (h : s.Counts b) (hb : b < irLearnSeriesCnt) (t : BitVec 32) :
    StaysIn b (storeSeries t s) := by
  constructor
  · exact ⟨h.series, h.carrier⟩
  · intro e he
    rw [List.mem_singleton.mp he]
    exact Nat.lt_of_le_of_lt h.series hb

theorem appendSeries_staysIn (h : s.Counts b) (hb : b < irLearnSeriesCnt) (t : BitVec 32) :
    StaysIn (b + 1) (appendSeries t s) := by
  unfold appendSeries
  split_ifs with hzero
  · obtain ⟨hcounts, hevents⟩ := storeSeries_staysIn h hb t
    refine ⟨⟨?_, hcounts.carrier⟩, hevents⟩
    have hle := hcounts.series
    unfold irLearnSeriesCnt at hb
    show (s.seriesCnt + 1).toNat ≤ b + 1
    have hcnt : s.seriesCnt.toNat ≤ b := h.series
    rw [BitVec.toNat_add, show (1 : BitVec 16).toNat = 1 from rfl]
    omega
  · exact ⟨h.mono (Nat.le_succ b), by simp⟩

theorem clearPattern_counts (b : Nat) (s : IrLearn) : (clearPattern s).Counts b :=
  ⟨Nat.zero_le b, Nat.zero_le 1⟩

/-- The events of two steps in a row. -/
theorem events_append {es es' : List IrLearnEvent} (h : ∀ e ∈ es, e.InBounds) (h' : ∀ e ∈ es', e.InBounds) :
    ∀ e ∈ es ++ es', e.InBounds := by
  intro e he
  cases List.mem_append.mp he with
  | inl he => exact h e he
  | inr he => exact h' e he

/-- The last interval is stored without being counted, or the count goes back by one. -/
theorem irStopLearn_staysIn (h : s.Counts b) (hb : b < irLearnSeriesCnt) : StaysIn b (irStopLearn s) := by
  have hlast : StaysIn b
      (if clockTickToUs (s.lastTriggerTm - s.recordLastTime) ≠ 0 then
        storeSeries (s.lastTriggerTm - s.recordLastTime) s
      else (if s.seriesCnt ≠ 0 then { s with seriesCnt := s.seriesCnt - 1 } else s, [])) := by
    split_ifs with htick hcnt
    · exact storeSeries_staysIn h hb _
    · refine ⟨⟨?_, h.carrier⟩, by simp⟩
      have hle := h.series
      have hone : (1 : BitVec 16) ≤ s.seriesCnt := by
        rw [BitVec.le_def, show (1 : BitVec 16).toNat = 1 from rfl]
        have hne : s.seriesCnt.toNat ≠ 0 := fun hz => hcnt (BitVec.eq_of_toNat_eq hz)
        omega
      show (s.seriesCnt - 1).toNat ≤ b
      rw [BitVec.toNat_sub_of_le hone]
      omega
    · exact ⟨h, by simp⟩
  unfold irStopLearn
  dsimp only
  generalize (if clockTickToUs (s.lastTriggerTm - s.recordLastTime) ≠ 0 then
      storeSeries (s.lastTriggerTm - s.recordLastTime) s
    else (if s.seriesCnt ≠ 0 then { s with seriesCnt := s.seriesCnt - 1 } else s, [])) = r at hlast
  obtain ⟨hcounts, hevents⟩ := hlast
  split_ifs with hhead
  · have hclear := clearPattern_counts b r.1
    exact ⟨⟨hclear.series, hclear.carrier⟩, events_append hevents (by simp [IrLearnEvent.InBounds])⟩
  · exact ⟨⟨hcounts.series, hcounts.carrier⟩, events_append hevents (by simp [IrLearnEvent.InBounds])⟩

theorem recordCarrier_staysIn (h : s.Counts b) : StaysIn b (recordCarrier s) := by
  have hcarrier := h.carrier
  unfold recordCarrier
  dsimp only
  constructor
  · split_ifs with hfull
    · exact ⟨h.series, Nat.zero_le 1⟩
    · exact ⟨h.series, Nat.not_lt.mp hfull⟩
  · intro e he
    rw [List.mem_singleton.mp he]
    show s.carrHighCnt.toNat < 3
    omega

theorem recordGap_staysIn (h : s.Counts b) (hb : b + 1 < irLearnSeriesCnt) : StaysIn (b + 2) (recordGap s) := by
  obtain ⟨hburst, hevents⟩ := appendSeries_staysIn h (Nat.lt_of_succ_lt hb) (s.lastTriggerTm - s.recordLastTime)
  obtain ⟨hgap, hevents'⟩ := appendSeries_staysIn hburst hb
    ((appendSeries (s.lastTriggerTm - s.recordLastTime) s).1.currTriggerTm -
      (appendSeries (s.lastTriggerTm - s.recordLastTime) s).1.lastTriggerTm)
  exact ⟨⟨hgap.series, hgap.carrier⟩, events_append hevents hevents'⟩

theorem recordEnd_staysIn (h : s.Counts b) (hb : b + 1 < irLearnSeriesCnt) : StaysIn (b + 1) (recordEnd s) := by
  obtain ⟨hburst, hevents⟩ := appendSeries_staysIn h (Nat.lt_of_succ_lt hb) (s.lastTriggerTm - s.recordLastTime)
  unfold recordEnd
  dsimp only
  generalize appendSeries (s.lastTriggerTm - s.recordLastTime) s = r at hburst hevents
  have hgap : StaysIn (b + 1)
      (if clockTickToUs (r.1.currTriggerTm - r.1.lastTriggerTm) ≠ 0 then
        storeSeries (r.1.currTriggerTm - r.1.lastTriggerTm) r.1
      else (r.1, [])) := by
    split_ifs with htick
    · exact storeSeries_staysIn hburst hb _
    · exact ⟨hburst, by simp⟩
  generalize (if clockTickToUs (r.1.currTriggerTm - r.1.lastTriggerTm) ≠ 0 then
      storeSeries (r.1.currTriggerTm - r.1.lastTriggerTm) r.1
    else (r.1, [])) = r' at hgap
  obtain ⟨hcounts, hevents'⟩ := hgap
  have hstop := irStopLearn_staysIn (s := { r'.1 with irLearningFlag := false })
    ⟨hcounts.series, hcounts.carrier⟩ hb
  exact ⟨hstop.1, events_append (events_append hevents hevents') hstop.2⟩

/-- The guard of `ir_record` leaves room for two entries. -/
theorem irRecord_staysIn (h : s.Counts 246) (tm now : BitVec 32) : StaysIn 246 (irRecord tm now s) := by
  unfold irRecord
  dsimp only
  split_ifs with hguard
  · exact ⟨⟨h.series, h.carrier⟩, by simp⟩
  · have hroom : IrLearn.Counts 244 { s with currTriggerTm := tm } := by
      refine ⟨?_, h.carrier⟩
      unfold irLearnSeriesCnt at hguard
      show s.seriesCnt.toNat ≤ 244
      omega
    have hedge : StaysIn 246 (recordEdge now { s with currTriggerTm := tm }) := by
      unfold recordEdge
      dsimp only
      have hroom' : IrLearn.Counts 244 { s with currTriggerTm := tm, timeInterval := tm - s.lastTriggerTm } :=
        ⟨hroom.series, hroom.carrier⟩
      split_ifs with hfirst hcarrier hgap hend
      · obtain ⟨hcounts, hevents⟩ := recordCarrier_staysIn hroom'
        exact ⟨hcounts.mono (by decide), hevents⟩
      · exact recordGap_staysIn hroom' (by decide)
      · obtain ⟨hcounts, hevents⟩ := recordEnd_staysIn hroom' (by decide)
        exact ⟨hcounts.mono (by decide), hevents⟩
      · exact ⟨hroom'.mono (by decide), by simp⟩
      · exact ⟨⟨h.series, h.carrier⟩, by simp⟩
    exact ⟨⟨hedge.1.series, hedge.1.carrier⟩, hedge.2⟩

theorem irLearnStep_staysIn (h : s.Counts 246) (k : IrLearnCall) : StaysIn 246 (irLearnStep s k) := by
  cases k with
  | start keyCode => exact ⟨clearPattern_counts _ _, by simp [irLearnStep]⟩
  | record tm now => exact irRecord_staysIn h tm now
  | check now =>
    unfold irLearnStep irLearnCheck
    dsimp only
    split_ifs
    · exact irStopLearn_staysIn h (by decide)
    · exact ⟨h, by simp⟩
  | stop => exact irStopLearn_staysIn h (by decide)
  | success =>
    refine ⟨⟨h.series, h.carrier⟩, ?_⟩
    intro e he
    have hle := h.series
    rw [List.mem_singleton.mp he]
    show (s.seriesCnt + 1).toNat ≤ irLearnSeriesCnt
    unfold irLearnSeriesCnt
    rw [BitVec.toNat_add, show (1 : BitVec 16).toNat = 1 from rfl]
    omega

/-- After `ir_start_learn`, whatever edges, checks, stops and callbacks follow, no store leaves its
array and at most `IR_LEARN_SERIES_CNT` entries are written to the flash. -/
theorem irLearn_inBounds (keyCode : BitVec 8) (s : IrLearn) (ks : List IrLearnCall) :
    ∀ es ∈ (run irLearnStep (irStartLearn keyCode s) ks).2, ∀ e ∈ es, e.InBounds := by
  have hlegal : Legal irLearnStep (fun _ _ => True) (irStartLearn keyCode s) ks :=
    legal_forall.mpr fun _ _ => trivial
  have hstep (s : IrLearn) (k : IrLearnCall) (h : s.Counts 246) (_ : True) :
      (irLearnStep s k).1.Counts 246 ∧ ∀ e ∈ (irLearnStep s k).2, e.InBounds := irLearnStep_staysIn h k
  exact run_answers hstep (clearPattern_counts _ _) hlegal

/-- A burst of 210 us, a gap and a second burst. -/
def twoBursts : List IrLearnCall :=
  [.record 0 0, .record 1120 0, .record 2240 0, .record 3360 0, .record 19360 0, .record 20480 0, .stop, .success]

theorem irLearn_inBounds_twoBursts :
    [.nvIrWrite 5 3] ∈ (run irLearnStep (irStartLearn 5 .initial) twoBursts).2 ∧
      IrLearnEvent.InBounds (.nvIrWrite 5 3) := by
  have hmem : [.nvIrWrite 5 3] ∈ (run irLearnStep (irStartLearn 5 .initial) twoBursts).2 := by decide
  exact ⟨hmem, irLearn_inBounds 5 .initial twoBursts _ hmem _ (List.mem_singleton_self _)⟩

end Rf4ce.Drv
