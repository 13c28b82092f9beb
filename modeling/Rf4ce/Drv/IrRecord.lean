import Rf4ce.Drv.IrLearn
import Mathlib.Data.BitVec
import Mathlib.Tactic.Ring

/-! The code that the GPIO interrupt records from the edges of another remote's signal. -/
namespace Rf4ce.Drv
open Refine

section Code

/-- `IR_LEARN_IDLE`, `IR_LEARN_READY`, `IR_LEARN_DOING` -/
inductive IrLearnState where
  | idle | ready | doing
deriving DecidableEq, Repr

/-- What `ir_learn_check` returns. -/
def irLearnCheckState (now : BitVec 32) (s : IrLearn) : IrLearnState :=
  if s.irLearnReady then
    if s.irLearningFlag then
      if clockTimeExceed now s.keyIrlearnTimeoutTick 400000 then .idle else .doing
    else .ready
  else .idle

/-- The readings of `clock_time()` during one interrupt. -/
structure Edge where
  check : BitVec 32
  tm : BitVec 32
  now : BitVec 32

def gpioUserIrqHandler (s : IrLearn) (e : Edge) : IrLearn × List IrLearnEvent :=
  let r := irLearnCheck e.check s
  if irLearnCheckState e.check s ≠ .idle then
    let r' := irRecord e.tm e.now r.1
    (r'.1, r.2 ++ r'.2)
  else r

end Code

/-! ### The signal -/

/-- Bursts of carrier cycles with the gap after each, and a last burst, in ticks of the timer. -/
structure IrSignal where
  bursts : List (List (BitVec 32) × BitVec 32)
  last : List (BitVec 32)

/-- A time in the series: its microseconds in 16 bits, and nothing when it is below one. -/
def entry (t : BitVec 32) : List (BitVec 16) :=
  if clockTickToUs t ≠ 0 then [(clockTickToUs t).setWidth 16] else []

namespace IrSignal

/-- From each edge to the next. -/
def intervals (c : IrSignal) : List (BitVec 32) := c.bursts.flatMap (fun b => b.1 ++ [b.2]) ++ c.last

/-- How long each burst and each gap is. -/
def series (c : IrSignal) : List (BitVec 16) :=
  c.bursts.flatMap (fun b => entry b.1.sum ++ entry b.2) ++ entry c.last.sum

def cycles (c : IrSignal) : List (BitVec 32) := c.bursts.flatMap Prod.fst ++ c.last

/-- A carrier of `lo` to `hi` microseconds a cycle, and gaps that are no cycles and do not end the
code. -/
structure Recordable (lo hi : Nat) (c : IrSignal) : Prop where
  cycles : ∀ d ∈ c.cycles, lo ≤ (clockTickToUs d).toNat ∧ (clockTickToUs d).toNat ≤ hi
  carrier : hi ≤ 70
  gaps : ∀ b ∈ c.bursts, 71 * sTimerClock1us ≤ b.2 ∧ b.2 < 200001 * sTimerClock1us
  count : c.bursts.length ≤ 122

end IrSignal

def intervals (t : BitVec 32) : List Edge → List (BitVec 32)
  | [] => []
  | e :: es => (e.tm - t) :: intervals e.tm es

/-! ### What one edge records -/

/-- The entries that are counted. -/
def IrLearn.seriesList (s : IrLearn) : List (BitVec 16) := (List.range s.seriesCnt.toNat).map s.seriesTm

section Entries
variable {s : IrLearn} {t : BitVec 32}

theorem IrLearn.seriesList_length (s : IrLearn) : s.seriesList.length = s.seriesCnt.toNat := by
  simp [IrLearn.seriesList]

/-- An entry is stored behind those that are counted. -/
theorem seriesList_push (x : BitVec 16) (hroom : s.seriesCnt.toNat < 2 ^ 16 - 1) :
    (List.range (s.seriesCnt + 1).toNat).map (Function.update s.seriesTm s.seriesCnt.toNat x) =
      s.seriesList ++ [x] := by
  have hcnt : (s.seriesCnt + 1).toNat = s.seriesCnt.toNat + 1 := by
    rw [BitVec.toNat_add, show (1 : BitVec 16).toNat = 1 from rfl]
    omega
  have hold : (List.range s.seriesCnt.toNat).map (Function.update s.seriesTm s.seriesCnt.toNat x) = s.seriesList := by
    apply List.map_congr_left
    intro i hi
    exact Function.update_of_ne (Nat.ne_of_lt (List.mem_range.mp hi)) _ _
  rw [hcnt, List.range_succ, List.map_append, hold]
  simp

theorem appendSeries_seriesList (hroom : s.seriesCnt.toNat < 2 ^ 16 - 1) :
    (appendSeries t s).1.seriesList = s.seriesList ++ entry t := by
  unfold appendSeries entry
  split_ifs
  · exact seriesList_push _ hroom
  · simp

theorem appendSeries_frame (t : BitVec 32) (s : IrLearn) :
    ∃ f n, (appendSeries t s).1 = { s with seriesTm := f, seriesCnt := n } := by
  unfold appendSeries
  split_ifs
  · exact ⟨_, _, rfl⟩
  · exact ⟨s.seriesTm, s.seriesCnt, rfl⟩

theorem entry_length (t : BitVec 32) : (entry t).length ≤ 1 := by
  unfold entry
  split_ifs
  · exact Nat.le_refl 1
  · exact Nat.zero_le 1

/-- A gap is no shorter than a microsecond. -/
theorem entry_ne_nil (hgap : ¬t < 71 * sTimerClock1us) : entry t ≠ [] := by
  have hus : clockTickToUs t ≠ 0 := by
    intro hzero
    have hdiv := congrArg BitVec.toNat hzero
    unfold clockTickToUs sTimerClock1us at hdiv
    unfold sTimerClock1us at hgap
    rw [BitVec.lt_def] at hgap
    rw [BitVec.toNat_udiv] at hdiv
    change ¬t.toNat < 1136 at hgap
    change t.toNat / 16 = 0 at hdiv
    omega
  unfold entry
  rw [if_pos hus]
  exact List.cons_ne_nil _ _

theorem recordGap_state (s : IrLearn) :
    (recordGap s).1 =
      { (appendSeries (s.currTriggerTm - s.lastTriggerTm)
          (appendSeries (s.lastTriggerTm - s.recordLastTime) s).1).1 with recordLastTime := s.currTriggerTm } := by
  obtain ⟨f, n, hburst⟩ := appendSeries_frame (s.lastTriggerTm - s.recordLastTime) s
  unfold recordGap
  dsimp only
  rw [hburst]
  obtain ⟨f', n', hgap⟩ := appendSeries_frame (s.currTriggerTm - s.lastTriggerTm)
    { s with seriesTm := f, seriesCnt := n }
  dsimp only
  rw [hgap]

theorem recordGap_seriesList (hroom : s.seriesCnt.toNat < 2 ^ 16 - 2) :
    (recordGap s).1.seriesList =
      s.seriesList ++ (entry (s.lastTriggerTm - s.recordLastTime) ++ entry (s.currTriggerTm - s.lastTriggerTm)) := by
  have hburst : (appendSeries (s.lastTriggerTm - s.recordLastTime) s).1.seriesList =
      s.seriesList ++ entry (s.lastTriggerTm - s.recordLastTime) := appendSeries_seriesList (by omega)
  have hlen := congrArg List.length hburst
  rw [List.length_append, IrLearn.seriesList_length, IrLearn.seriesList_length] at hlen
  have hentry := entry_length (s.lastTriggerTm - s.recordLastTime)
  have hgap := appendSeries_seriesList (s := (appendSeries (s.lastTriggerTm - s.recordLastTime) s).1)
    (t := s.currTriggerTm - s.lastTriggerTm) (by omega)
  rw [hburst, List.append_assoc] at hgap
  rw [recordGap_state]
  exact hgap

/-- A gap changes the series and the time at which the next burst begins. -/
theorem recordGap_frame (s : IrLearn) :
    ∃ f n, (recordGap s).1 = { s with seriesTm := f, seriesCnt := n, recordLastTime := s.currTriggerTm } := by
  obtain ⟨f, n, hburst⟩ := appendSeries_frame (s.lastTriggerTm - s.recordLastTime) s
  rw [recordGap_state, hburst]
  obtain ⟨f', n', hgap⟩ := appendSeries_frame (s.currTriggerTm - s.lastTriggerTm)
    { s with seriesTm := f, seriesCnt := n }
  exact ⟨f', n', by rw [hgap]⟩

end Entries

/-! ### The carrier -/

/-- The middle of three values is between any two of them. -/
theorem calculateMid_between {a b : BitVec 16} {lo hi : Nat} (ha : lo ≤ a.toNat ∧ a.toNat ≤ hi)
    (hb : lo ≤ b.toNat ∧ b.toNat ≤ hi) (c : BitVec 16) :
    lo ≤ (calculateMid a b c).toNat ∧ (calculateMid a b c).toNat ≤ hi := by
  unfold calculateMid
  by_cases hab : a > b
  · simp only [hab, if_true]
    rw [gt_iff_lt, BitVec.lt_def] at hab
    split_ifs with hcb hca
    · exact hb
    · rw [BitVec.lt_def] at hcb hca
      omega
    · exact ha
  · simp only [hab, if_false]
    rw [gt_iff_lt, BitVec.lt_def] at hab
    split_ifs with hcb hca
    · exact ha
    · rw [BitVec.lt_def] at hcb hca
      omega
    · exact hb

/-- After `n` cycles of `lo` to `hi` microseconds. -/
structure Carrier (lo hi n : Nat) (s : IrLearn) : Prop where
  cnt : s.carrHighCnt.toNat = n % 2
  temp : n % 2 = 1 → lo ≤ (s.carrHighTemp 0).toNat ∧ (s.carrHighTemp 0).toNat ≤ hi
  tm : 2 ≤ n → lo ≤ s.carrHighTm.toNat ∧ s.carrHighTm.toNat ≤ hi

section Carrier
variable {s : IrLearn} {lo hi n : Nat}

theorem recordCarrier_frame (s : IrLearn) :
    ∃ tm cnt temp, (recordCarrier s).1 = { s with carrHighTm := tm, carrHighCnt := cnt, carrHighTemp := temp } := by
  unfold recordCarrier
  dsimp only
  split_ifs
  · exact ⟨_, _, _, rfl⟩
  · exact ⟨s.carrHighTm, _, _, rfl⟩

/-- A second cycle sets the carrier, which the first one only leaves for it. -/
theorem Carrier.cycle (h : Carrier lo hi n s) (hhi : hi ≤ 70)
    (hd : lo ≤ (clockTickToUs s.timeInterval).toNat ∧ (clockTickToUs s.timeInterval).toNat ≤ hi) :
    Carrier lo hi (n + 1) (recordCarrier s).1 := by
  have hcnt := h.cnt
  have hus : ((clockTickToUs s.timeInterval).setWidth 16).toNat = (clockTickToUs s.timeInterval).toNat := by
    rw [BitVec.toNat_setWidth]
    omega
  rw [← hus] at hd
  have hsucc : (s.carrHighCnt + 1).toNat = n % 2 + 1 := by
    rw [BitVec.toNat_add, hcnt, show (1 : BitVec 8).toNat = 1 from rfl]
    omega
  unfold recordCarrier
  dsimp only
  rw [hsucc, hcnt]
  rcases Nat.mod_two_eq_zero_or_one n with heven | hodd
  · rw [heven, if_neg (by decide)]
    constructor
    · show (s.carrHighCnt + 1).toNat = (n + 1) % 2
      omega
    · intro _
      simpa using hd
    · intro htwo
      exact h.tm (by omega)
  · rw [hodd, if_pos (by decide)]
    constructor
    · show (0 : BitVec 8).toNat = (n + 1) % 2
      rw [show (0 : BitVec 8).toNat = 0 from rfl]
      omega
    · intro heven
      omega
    · intro _
      have hmid := calculateMid_between (h.temp hodd) hd (s.carrHighTm.setWidth 16)
      simp only [Function.update_self, Function.update_of_ne Nat.zero_ne_one, BitVec.toNat_setWidth]
      omega

end Carrier

/-! ### A code, edge by edge -/

/-- The series that a burst belongs to, when `burst` of it is over and the intervals `ds` follow. -/
def seriesOf (burst : BitVec 32) : List (BitVec 32) → List (BitVec 16)
  | [] => entry burst
  | d :: ds =>
    if d < 71 * sTimerClock1us then seriesOf (burst + d) ds else entry burst ++ entry d ++ seriesOf 0 ds

def isGap (d : BitVec 32) : Bool := !(d < 71 * sTimerClock1us)

theorem isGap_eq_false {d : BitVec 32} : isGap d = false ↔ d < 71 * sTimerClock1us := by
  unfold isGap
  rw [Bool.not_eq_false', decide_eq_true_iff]

/-- The callbacks that end a session. -/
def endings (es : List IrLearnEvent) : List IrLearnEvent := es.filter fun e => e = .successTimer ∨ e = .failedTimer

/-- Learning goes on since `start`: `series` is recorded, and `burst` of the present burst was over
at the last edge, which came at `t`. -/
structure Recorded (keyCode : BitVec 8) (start : BitVec 32) (series : List (BitVec 16)) (burst t : BitVec 32)
    (s : IrLearn) : Prop where
  key : s.kbKeyindexPressed = keyCode
  ready : s.irLearnReady = true
  flag : s.irLearningFlag = true
  begun : s.irIntCnt ≠ 0
  start : s.keyIrlearnTimeoutTick = start
  last : s.lastTriggerTm = t
  burst : t - s.recordLastTime = burst
  fresh : series = [] → s.seriesTm 0 = 0
  series : s.seriesList = series

section Steps
variable {s : IrLearn} {keyCode : BitVec 8} {start burst t : BitVec 32} {series : List (BitVec 16)} {e : Edge}
  {lo hi n : Nat}

/-- Within 400 ms the interrupt records its edge. -/
theorem Recorded.handler (h : Recorded keyCode start series burst t s)
    (hlive : clockTimeExceed e.check start 400000 = false) : gpioUserIrqHandler s e = irRecord e.tm e.now s := by
  have hcheck : irLearnCheck e.check s = (s, []) := by
    unfold irLearnCheck
    rw [h.start, hlive, if_neg (by simp)]
  have hstate : irLearnCheckState e.check s = .doing := by
    unfold irLearnCheckState
    rw [h.ready, h.flag, h.start, hlive]
    rfl
  unfold gpioUserIrqHandler
  rw [hcheck, hstate]
  rfl

theorem Recorded.room (h : Recorded keyCode start series burst t s) (hroom : series.length ≤ 244) :
    s.seriesCnt.toNat ≤ 244 := by
  rw [← s.seriesList_length, h.series]
  exact hroom

/-- The edge as `ir_record` sees it. -/
def IrLearn.atEdge (s : IrLearn) (tm : BitVec 32) : IrLearn :=
  { s with currTriggerTm := tm, timeInterval := tm - s.lastTriggerTm }

theorem Recorded.irRecord (h : Recorded keyCode start series burst t s) (hroom : series.length ≤ 244) :
    irRecord e.tm e.now s =
      let s' := s.atEdge e.tm
      let r := if s'.timeInterval < 71 * sTimerClock1us then recordCarrier s'
        else if s'.timeInterval > 70 * sTimerClock1us ∧ s'.timeInterval < 200001 * sTimerClock1us then recordGap s'
        else if s'.timeInterval > 200000 * sTimerClock1us then recordEnd s'
        else (s', [])
      ({ r.1 with lastTriggerTm := r.1.currTriggerTm }, r.2) := by
  have hcnt := h.room hroom
  have hbegun := h.begun
  unfold Drv.irRecord recordEdge
  rw [if_neg (by unfold irLearnSeriesCnt; dsimp only; omega), if_pos hbegun]
  rfl

/-- A cycle lengthens the burst. -/
theorem Recorded.cycle (h : Recorded keyCode start series burst t s) (hc : Carrier lo hi n s)
    (hlive : clockTimeExceed e.check start 400000 = false) (hroom : series.length ≤ 244) (hhi : hi ≤ 70)
    (hcycle : e.tm - t < 71 * sTimerClock1us)
    (hd : lo ≤ (clockTickToUs (e.tm - t)).toNat ∧ (clockTickToUs (e.tm - t)).toNat ≤ hi) :
    Recorded keyCode start series (burst + (e.tm - t)) e.tm (gpioUserIrqHandler s e).1 ∧
      Carrier lo hi (n + 1) (gpioUserIrqHandler s e).1 ∧ endings (gpioUserIrqHandler s e).2 = [] := by
  have hint : (s.atEdge e.tm).timeInterval = e.tm - t := by
    show e.tm - s.lastTriggerTm = e.tm - t
    rw [h.last]
  rw [h.handler hlive, h.irRecord hroom]
  dsimp only
  rw [hint, if_pos hcycle]
  have hcarrier : Carrier lo hi (n + 1) (recordCarrier (s.atEdge e.tm)).1 :=
    Carrier.cycle ⟨hc.cnt, hc.temp, hc.tm⟩ hhi (by rwa [hint])
  constructor
  · obtain ⟨tm, cnt, temp, hframe⟩ := recordCarrier_frame (s.atEdge e.tm)
    rw [hframe]
    constructor
    · exact h.key
    · exact h.ready
    · exact h.flag
    · exact h.begun
    · exact h.start
    · rfl
    · have hburst := h.burst
      show e.tm - s.recordLastTime = burst + (e.tm - t)
      rw [← hburst]
      ring
    · exact h.fresh
    · exact h.series
  · exact ⟨⟨hcarrier.cnt, hcarrier.temp, hcarrier.tm⟩, rfl⟩

theorem endings_eq_nil {es : List IrLearnEvent} (h : ∀ x ∈ es, ∃ i, x = .seriesTm i) : endings es = [] := by
  apply List.filter_eq_nil_iff.mpr
  intro x hx
  obtain ⟨i, rfl⟩ := h x hx
  simp

theorem appendSeries_events (t : BitVec 32) (s : IrLearn) : ∀ x ∈ (appendSeries t s).2, ∃ i, x = .seriesTm i := by
  unfold appendSeries
  split_ifs
  · intro x hx
    exact ⟨_, List.mem_singleton.mp hx⟩
  · simp

theorem recordGap_endings (s : IrLearn) : endings (recordGap s).2 = [] := by
  apply endings_eq_nil
  intro x hx
  rcases List.mem_append.mp hx with hx | hx
  · exact appendSeries_events _ _ x hx
  · exact appendSeries_events _ _ x hx

/-- A gap closes the burst. -/
theorem Recorded.gap (h : Recorded keyCode start series burst t s) (hc : Carrier lo hi n s)
    (hlive : clockTimeExceed e.check start 400000 = false) (hroom : series.length ≤ 244)
    (hgap : ¬e.tm - t < 71 * sTimerClock1us) (hshort : e.tm - t < 200001 * sTimerClock1us) :
    Recorded keyCode start (series ++ (entry burst ++ entry (e.tm - t))) 0 e.tm (gpioUserIrqHandler s e).1 ∧
      Carrier lo hi n (gpioUserIrqHandler s e).1 ∧ endings (gpioUserIrqHandler s e).2 = [] := by
  have hint : (s.atEdge e.tm).timeInterval = e.tm - t := by
    show e.tm - s.lastTriggerTm = e.tm - t
    rw [h.last]
  have hlong : e.tm - t > 70 * sTimerClock1us := by
    unfold sTimerClock1us at hgap ⊢
    bv_omega
  have hseries : (recordGap (s.atEdge e.tm)).1.seriesList = series ++ (entry burst ++ entry (e.tm - t)) := by
    have hcnt : (s.atEdge e.tm).seriesCnt.toNat ≤ 244 := h.room hroom
    rw [recordGap_seriesList (by omega), ← h.burst, ← h.series, ← h.last]
    rfl
  obtain ⟨f, m, hframe⟩ := recordGap_frame (s.atEdge e.tm)
  rw [h.handler hlive, h.irRecord hroom]
  dsimp only
  rw [hint, if_neg hgap, if_pos ⟨hlong, hshort⟩]
  rw [hframe] at hseries ⊢
  constructor
  · constructor
    · exact h.key
    · exact h.ready
    · exact h.flag
    · exact h.begun
    · exact h.start
    · rfl
    · exact BitVec.sub_self _
    · intro hnil
      exact absurd hnil (by simp [entry_ne_nil hgap])
    · exact hseries
  · exact ⟨⟨hc.cnt, hc.temp, hc.tm⟩, recordGap_endings _⟩

/-- The first edge begins a burst. -/
theorem irStartLearn_recorded (keyCode : BitVec 8) (s : IrLearn) (e : Edge) (lo hi : Nat) :
    let r := gpioUserIrqHandler (irStartLearn keyCode s) e
    Recorded keyCode e.now [] 0 e.tm r.1 ∧ Carrier lo hi 0 r.1 ∧ endings r.2 = [] := by
  constructor
  · exact ⟨rfl, rfl, rfl, show (1 : BitVec 8) ≠ 0 by decide, rfl, rfl, BitVec.sub_self _, fun _ => rfl, rfl⟩
  · exact ⟨⟨rfl, by simp, by simp⟩, rfl⟩

/-- Edges within the 400 ms, none of them 200 ms after the one before. -/
theorem Recorded.edges {es : List Edge} (h : Recorded keyCode start series burst t s) (hc : Carrier lo hi n s)
    (hhi : hi ≤ 70) (hlive : ∀ e ∈ es, clockTimeExceed e.check start 400000 = false)
    (hcycles : ∀ d ∈ intervals t es, isGap d = false → lo ≤ (clockTickToUs d).toNat ∧ (clockTickToUs d).toNat ≤ hi)
    (hshort : ∀ d ∈ intervals t es, d < 200001 * sTimerClock1us)
    (hroom : series.length + 2 * (intervals t es).countP isGap ≤ 244) :
    let r := run gpioUserIrqHandler s es
    ∃ series' burst' t', Recorded keyCode start series' burst' t' r.1 ∧
      Carrier lo hi (n + (intervals t es).countP fun d => !isGap d) r.1 ∧ series'.length ≤ 244 ∧
      series' ++ entry burst' = series ++ seriesOf burst (intervals t es) ∧ ∀ x ∈ r.2, endings x = [] := by
  induction es generalizing s series burst t n with
  | nil => exact ⟨series, burst, t, h, hc, by simpa [intervals] using hroom, rfl, by simp [run]⟩
  | cons e es ih =>
    have he := hlive e List.mem_cons_self
    have hes := fun x hx => hlive x (List.mem_cons_of_mem e hx)
    have hd := hcycles (e.tm - t) List.mem_cons_self
    have hds := fun d hd => hcycles d (List.mem_cons_of_mem _ hd)
    have hlong := hshort (e.tm - t) List.mem_cons_self
    have hlongs := fun d hd => hshort d (List.mem_cons_of_mem _ hd)
    rw [intervals, List.countP_cons] at hroom
    dsimp only [run]
    rw [intervals, seriesOf, List.countP_cons]
    by_cases hcycle : e.tm - t < 71 * sTimerClock1us
    · have hno : isGap (e.tm - t) = false := isGap_eq_false.mpr hcycle
      obtain ⟨hrec, hcar, hend⟩ := h.cycle hc he (by omega) hhi hcycle (hd hno)
      obtain ⟨series', burst', t', hrec', hcar', hlen, hseries, hends⟩ :=
        ih hrec hcar hes hds hlongs (by simpa [hno] using hroom)
      refine ⟨series', burst', t', hrec', ?_, hlen, ?_, List.forall_mem_cons.mpr ⟨hend, hends⟩⟩
      · simpa [hno, Nat.add_assoc, Nat.add_comm] using hcar'
      · rw [hseries, if_pos hcycle]
    · have hyes : isGap (e.tm - t) = true := Bool.not_eq_false _ ▸ mt isGap_eq_false.mp hcycle
      obtain ⟨hrec, hcar, hend⟩ := h.gap hc he (by omega) hcycle hlong
      have hburst := entry_length burst
      have hgap := entry_length (e.tm - t)
      rw [hyes, if_pos rfl] at hroom
      obtain ⟨series', burst', t', hrec', hcar', hlen, hseries, hends⟩ :=
        ih hrec hcar hes hds hlongs (by simp only [List.length_append]; omega)
      refine ⟨series', burst', t', hrec', ?_, hlen, ?_, List.forall_mem_cons.mpr ⟨hend, hends⟩⟩
      · simpa [hyes] using hcar'
      · rw [hseries, if_neg hcycle]
        simp

/-- What `ir_stop_learn` leaves when the code `code` was recorded. -/
structure Learnt (keyCode : BitVec 8) (code : List (BitVec 16)) (s : IrLearn) : Prop where
  key : s.kbKeyindexPressed = keyCode
  series : (List.range (s.seriesCnt + 1).toNat).map s.seriesTm = code

/-- `ir_stop_learn` stores the burst that is not over, or takes the count back to the last entry. -/
def lastBurst (s : IrLearn) : IrLearn × List IrLearnEvent :=
  if clockTickToUs (s.lastTriggerTm - s.recordLastTime) ≠ 0 then storeSeries (s.lastTriggerTm - s.recordLastTime) s
  else (if s.seriesCnt ≠ 0 then { s with seriesCnt := s.seriesCnt - 1 } else s, [])

theorem lastBurst_frame (s : IrLearn) :
    ∃ f n, (lastBurst s).1 = { s with seriesTm := f, seriesCnt := n } := by
  unfold lastBurst
  split_ifs
  · exact ⟨_, s.seriesCnt, rfl⟩
  · exact ⟨s.seriesTm, _, rfl⟩
  · exact ⟨s.seriesTm, s.seriesCnt, rfl⟩

theorem lastBurst_endings (s : IrLearn) : endings (lastBurst s).2 = [] := by
  unfold lastBurst
  split_ifs <;> rfl

theorem Recorded.tail (h : Recorded keyCode start series burst t s) (hroom : series.length ≤ 244) :
    let s' := (lastBurst s).1
    (series ++ entry burst ≠ [] → (List.range (s'.seriesCnt + 1).toNat).map s'.seriesTm = series ++ entry burst) ∧
      (series ++ entry burst = [] → s'.seriesTm 0 = 0) := by
  have hcnt := h.room hroom
  have htime : s.lastTriggerTm - s.recordLastTime = burst := by rw [h.last, h.burst]
  unfold lastBurst entry
  rw [htime]
  by_cases hus : clockTickToUs burst = 0
  · simp only [hus, ne_eq, not_true_eq_false, if_false, List.append_nil]
    by_cases hzero : s.seriesCnt = 0
    · have hnil : series = [] := by
        rw [← h.series, IrLearn.seriesList, hzero]
        rfl
      rw [if_neg (not_not.mpr hzero)]
      exact ⟨fun hne => absurd hnil hne, h.fresh⟩
    · rw [if_pos hzero]
      constructor
      · intro _
        dsimp only
        rw [BitVec.sub_add_cancel]
        exact h.series
      · exact h.fresh
  · simp only [hus, ne_eq, not_false_eq_true, if_true]
    constructor
    · intro _
      rw [← h.series]
      exact seriesList_push _ (by omega)
    · intro hnil
      exact absurd hnil (by simp)

/-- The head of the series decides. -/
theorem Recorded.stop (h : Recorded keyCode start series burst t s) (hc : Carrier lo hi n s)
    (hroom : series.length ≤ 244) :
    let r := irStopLearn s
    let code := series ++ entry burst
    r.1.irLearnReady = false ∧
      (200 ≤ (code.headD 0).toNat → Learnt keyCode code r.1 ∧ Carrier lo hi n r.1 ∧ endings r.2 = [.successTimer]) ∧
      ((code.headD 0).toNat < 200 → endings r.2 = [.failedTimer]) := by
  obtain ⟨hlist, hempty⟩ := h.tail hroom
  have hends := lastBurst_endings s
  obtain ⟨f, m, hframe⟩ := lastBurst_frame s
  have hhead : (lastBurst s).1.seriesTm 0 = (series ++ entry burst).headD 0 := by
    by_cases hnil : series ++ entry burst = []
    · rw [hempty hnil, hnil]
      rfl
    · have hcode := hlist hnil
      cases hlen : ((lastBurst s).1.seriesCnt + 1).toNat with
      | zero =>
        rw [hlen] at hcode
        exact absurd hcode.symm hnil
      | succ k =>
        rw [hlen, List.range_succ_eq_map] at hcode
        rw [← hcode]
        rfl
  dsimp only
  rw [← hhead]
  have hstop : irStopLearn s = (
      let r' := if ((lastBurst s).1.seriesTm 0).toNat < 200 then (clearPattern (lastBurst s).1, [.failedTimer])
        else ((lastBurst s).1, [.successTimer])
      ({ r'.1 with irLearnReady := false, irLearningFlag := false }, (lastBurst s).2 ++ r'.2)) := rfl
  rw [hstop]
  constructor
  · rfl
  · constructor
    · intro hlong
      have hne : series ++ entry burst ≠ [] := by
        intro hnil
        rw [hempty hnil] at hlong
        contradiction
      rw [if_neg (by omega)]
      constructor
      · constructor
        · rw [hframe]
          exact h.key
        · exact hlist hne
      · constructor
        · rw [hframe]
          exact ⟨hc.cnt, hc.temp, hc.tm⟩
        · rw [endings, List.filter_append]
          change endings _ ++ _ = _
          rw [hends]
          rfl
    · intro hshort
      rw [if_pos hshort, endings, List.filter_append]
      change endings _ ++ _ = _
      rw [hends]
      rfl

end Steps

/-! ### A whole code -/

section Signal
variable {c : IrSignal} {lo hi : Nat}

theorem cycle_lt {d : BitVec 32} (hd : (clockTickToUs d).toNat ≤ 70) : d < 71 * sTimerClock1us := by
  unfold clockTickToUs sTimerClock1us at hd
  unfold sTimerClock1us
  rw [BitVec.toNat_udiv] at hd
  change d.toNat / 16 ≤ 70 at hd
  rw [BitVec.lt_def]
  change d.toNat < 1136
  omega

/-- The cycles of a burst. -/
theorem seriesOf_append {cs : List (BitVec 32)} (hcs : ∀ d ∈ cs, d < 71 * sTimerClock1us) (burst : BitVec 32)
    (ds : List (BitVec 32)) : seriesOf burst (cs ++ ds) = seriesOf (burst + cs.sum) ds := by
  induction cs generalizing burst with
  | nil => simp
  | cons d cs ih =>
    have hd := hcs d List.mem_cons_self
    have hrest := ih (fun x hx => hcs x (List.mem_cons_of_mem d hx)) (burst + d)
    rw [List.cons_append, seriesOf, if_pos hd, hrest, List.sum_cons, add_assoc]

namespace IrSignal

theorem Recordable.tail {b : List (BitVec 32) × BitVec 32} {bs : List (List (BitVec 32) × BitVec 32)}
    {last : List (BitVec 32)} (h : Recordable lo hi ⟨b :: bs, last⟩) : Recordable lo hi ⟨bs, last⟩ := by
  constructor
  · intro d hd
    apply h.cycles d
    unfold IrSignal.cycles at hd ⊢
    rw [List.flatMap_cons, List.append_assoc]
    exact List.mem_append_right _ hd
  · exact h.carrier
  · exact fun x hx => h.gaps x (List.mem_cons_of_mem b hx)
  · exact Nat.le_of_succ_le h.count

theorem Recordable.lt (h : c.Recordable lo hi) {d : BitVec 32} (hd : d ∈ c.cycles) : d < 71 * sTimerClock1us :=
  cycle_lt (Nat.le_trans (h.cycles d hd).2 h.carrier)

theorem Recordable.head {cs : List (BitVec 32)} {g : BitVec 32} {bs : List (List (BitVec 32) × BitVec 32)}
    {last : List (BitVec 32)} (h : Recordable lo hi ⟨(cs, g) :: bs, last⟩) :
    (∀ d ∈ cs, d < 71 * sTimerClock1us) ∧ ¬g < 71 * sTimerClock1us := by
  constructor
  · intro d hd
    apply h.lt
    unfold IrSignal.cycles
    rw [List.flatMap_cons, List.append_assoc]
    exact List.mem_append_left _ hd
  · exact BitVec.not_lt.mpr (h.gaps (cs, g) List.mem_cons_self).1

theorem seriesOf_intervals (h : c.Recordable lo hi) : seriesOf 0 c.intervals = c.series := by
  obtain ⟨bursts, last⟩ := c
  induction bursts with
  | nil =>
    have hlast := seriesOf_append (fun d (hd : d ∈ last) => h.lt (List.mem_append_right _ hd)) 0 []
    rw [List.append_nil, zero_add] at hlast
    exact hlast
  | cons b bs ih =>
    obtain ⟨cs, g⟩ := b
    obtain ⟨hcs, hg⟩ := h.head
    have hrest := ih h.tail
    unfold intervals series at hrest ⊢
    dsimp only at hrest ⊢
    simp only [List.flatMap_cons, List.append_assoc]
    rw [seriesOf_append hcs, List.singleton_append, seriesOf, if_neg hg, hrest, zero_add, List.append_assoc]

/-- The gaps of a code are its only long intervals. -/
theorem mem_intervals {d : BitVec 32} : d ∈ c.intervals ↔ d ∈ c.cycles ∨ ∃ b ∈ c.bursts, d = b.2 := by
  unfold intervals cycles
  simp only [List.mem_append, List.mem_flatMap, List.mem_singleton]
  constructor
  · rintro (⟨b, hb, hd | hd⟩ | hd)
    · exact .inl (.inl ⟨b, hb, hd⟩)
    · exact .inr ⟨b, hb, hd⟩
    · exact .inl (.inr hd)
  · rintro ((⟨b, hb, hd⟩ | hd) | ⟨b, hb, hd⟩)
    · exact .inl ⟨b, hb, .inl hd⟩
    · exact .inr hd
    · exact .inl ⟨b, hb, .inr hd⟩

theorem countP_cycles {cs : List (BitVec 32)} (hcs : ∀ d ∈ cs, d < 71 * sTimerClock1us) :
    cs.countP isGap = 0 ∧ (cs.countP fun d => !isGap d) = cs.length := by
  constructor
  · rw [List.countP_eq_zero]
    intro d hd hgap
    rw [isGap_eq_false.mpr (hcs d hd)] at hgap
    contradiction
  · rw [List.countP_eq_length]
    intro d hd
    rw [isGap_eq_false.mpr (hcs d hd)]
    rfl

theorem countP_intervals (h : c.Recordable lo hi) :
    c.intervals.countP isGap = c.bursts.length ∧ (c.intervals.countP fun d => !isGap d) = c.cycles.length := by
  obtain ⟨bursts, last⟩ := c
  induction bursts with
  | nil => exact countP_cycles fun d hd => h.lt (List.mem_append_right _ hd)
  | cons b bs ih =>
    obtain ⟨cs, g⟩ := b
    obtain ⟨hcs, hg⟩ := h.head
    rw [← isGap_eq_false, Bool.not_eq_false] at hg
    obtain ⟨hnone, hall⟩ := countP_cycles hcs
    obtain ⟨hgaps, hcycles⟩ := ih h.tail
    unfold intervals at hgaps hcycles ⊢
    unfold cycles at hcycles ⊢
    simp only [List.flatMap_cons, List.append_assoc, List.countP_append, List.countP_cons, List.countP_nil,
      List.length_append, List.length_cons, hnone, hall, hg, Bool.not_true] at hgaps hcycles ⊢
    simp only [if_true, Bool.false_eq_true, if_false]
    omega

end IrSignal
/-- After the session the interrupt records nothing. -/
theorem run_idle {s : IrLearn} (hidle : s.irLearnReady = false) (es : List Edge) :
    (run gpioUserIrqHandler s es).1 = s ∧ (run gpioUserIrqHandler s es).2.flatten = [] := by
  induction es with
  | nil => exact ⟨rfl, rfl⟩
  | cons e es ih =>
    have hstep : gpioUserIrqHandler s e = (s, []) := by
      have hcheck : irLearnCheck e.check s = (s, []) := by
        unfold irLearnCheck
        rw [hidle, if_neg (by simp)]
      have hstate : irLearnCheckState e.check s = .idle := by
        unfold irLearnCheckState
        rw [hidle]
        rfl
      unfold gpioUserIrqHandler
      rw [hcheck, hstate]
      rfl
    rw [run, hstep]
    exact ih

/-- The first edge after 400 ms ends the session. -/
theorem Recorded.final {s : IrLearn} {keyCode : BitVec 8} {start burst t : BitVec 32} {series : List (BitVec 16)}
    {e : Edge} (h : Recorded keyCode start series burst t s)
    (hfinal : clockTimeExceed e.check start 400000 = true) : gpioUserIrqHandler s e = irStopLearn s := by
  have hcheck : irLearnCheck e.check s = irStopLearn s := by
    unfold irLearnCheck
    rw [h.ready, h.flag, h.start, hfinal, if_pos (by simp)]
  have hstate : irLearnCheckState e.check s = .idle := by
    unfold irLearnCheckState
    rw [h.ready, h.flag, h.start, hfinal]
    rfl
  unfold gpioUserIrqHandler
  rw [hcheck, hstate]
  rfl

theorem endings_flatten {ess : List (List IrLearnEvent)} (h : ∀ es ∈ ess, endings es = []) :
    endings ess.flatten = [] := by
  rw [endings, List.filter_flatten, List.flatten_eq_nil_iff]
  intro es hes
  obtain ⟨es', hes', rfl⟩ := List.mem_map.mp hes
  exact h es' hes'

/-- The entries that are saved. -/
def IrLearnSave.code (d : IrLearnSave) : List (BitVec 16) := (List.range d.seriesCnt.toNat).map d.seriesTm

theorem Learnt.saved {s : IrLearn} {keyCode : BitVec 8} {code : List (BitVec 16)} (h : Learnt keyCode code s) :
    (irLearnSuccessCallback s).2 = [.nvIrWrite keyCode (BitVec.ofNat 16 code.length)] ∧
      (irLearnSuccessCallback s).1.irLearnDat.code = code := by
  have hcode := h.series
  have hlen := congrArg List.length hcode
  rw [List.length_map, List.length_range] at hlen
  constructor
  · rw [← h.key, ← hlen, BitVec.ofNat_toNat, BitVec.setWidth_eq]
    rfl
  · rw [← hcode]
    apply List.map_congr_left
    intro i hi
    exact if_pos (List.mem_range.mp hi)

/-- The edges of a code between the first one and one after 400 ms: what the callback saves are the
times of its bursts and gaps in order, with a carrier between the shortest and the longest cycle; a
code that begins with less than 200 us is given up. -/
theorem irLearn_records (keyCode : BitVec 8) (s : IrLearn) (first final : Edge) (es after : List Edge)
    (hc : c.Recordable lo hi) (hedges : intervals first.tm es = c.intervals)
    (hlive : ∀ e ∈ es, clockTimeExceed e.check first.now 400000 = false)
    (hfinal : clockTimeExceed final.check first.now 400000 = true) :
    let r := run gpioUserIrqHandler (irStartLearn keyCode s) (first :: es ++ final :: after)
    let saved := irLearnSuccessCallback r.1
    (200 ≤ (c.series.headD 0).toNat →
      endings r.2.flatten = [.successTimer] ∧ saved.2 = [.nvIrWrite keyCode (BitVec.ofNat 16 c.series.length)] ∧
        saved.1.irLearnDat.code = c.series ∧
        (2 ≤ c.cycles.length →
          lo ≤ saved.1.irLearnDat.carrHighTm.toNat ∧ saved.1.irLearnDat.carrHighTm.toNat ≤ hi)) ∧
    ((c.series.headD 0).toNat < 200 → endings r.2.flatten = [.failedTimer]) := by
  obtain ⟨hgaps, hcycles⟩ := IrSignal.countP_intervals hc
  obtain ⟨hbegin, hcarrier, hquiet⟩ := irStartLearn_recorded keyCode s first lo hi
  have hcount := hc.count
  have hcyc (d : BitVec 32) (hd : d ∈ intervals first.tm es) (hno : isGap d = false) :
      lo ≤ (clockTickToUs d).toNat ∧ (clockTickToUs d).toNat ≤ hi := by
    rw [hedges] at hd
    rcases IrSignal.mem_intervals.mp hd with hd | ⟨b, hb, rfl⟩
    · exact hc.cycles d hd
    · exact absurd (isGap_eq_false.mp hno) (BitVec.not_lt.mpr (hc.gaps b hb).1)
  have hshort (d : BitVec 32) (hd : d ∈ intervals first.tm es) : d < 200001 * sTimerClock1us := by
    rw [hedges] at hd
    rcases IrSignal.mem_intervals.mp hd with hd | ⟨b, hb, rfl⟩
    · exact BitVec.lt_trans (hc.lt hd) (by decide)
    · exact (hc.gaps b hb).2
  obtain ⟨series, burst, t, hrec, hcar, hlen, hseries, hends⟩ :=
    hbegin.edges hcarrier hc.carrier hlive hcyc hshort (by rw [hedges, hgaps]; simp only [List.length_nil]; omega)
  rw [hedges, IrSignal.seriesOf_intervals hc, List.nil_append] at hseries
  rw [hedges, hcycles, Nat.zero_add] at hcar
  obtain ⟨hidle, hsucc, hfail⟩ := hrec.stop hcar hlen
  rw [hseries] at hsucc hfail
  obtain ⟨hstate, hflat⟩ := run_idle hidle after
  have hstop := hrec.final hfinal
  have hrun : (run gpioUserIrqHandler (irStartLearn keyCode s) (first :: es ++ final :: after)).1 =
      (irStopLearn (run gpioUserIrqHandler (gpioUserIrqHandler (irStartLearn keyCode s) first).1 es).1).1 := by
    rw [run_state_append]
    dsimp only [run]
    rw [hstop, hstate]
  have hevents : endings (run gpioUserIrqHandler (irStartLearn keyCode s) (first :: es ++ final :: after)).2.flatten =
      endings (irStopLearn (run gpioUserIrqHandler (gpioUserIrqHandler (irStartLearn keyCode s) first).1 es).1).2 := by
    have hbefore := endings_flatten hends
    rw [run_answers_append]
    dsimp only [run]
    rw [hstop, List.flatten_append, List.flatten_cons, List.flatten_cons, hflat, List.append_nil]
    unfold endings at hquiet hbefore ⊢
    rw [List.filter_append, List.filter_append, hquiet, hbefore]
    rfl
  dsimp only
  rw [hrun, hevents]
  constructor
  · intro hhead
    obtain ⟨hlearnt, hlearntCarrier, hend⟩ := hsucc hhead
    obtain ⟨hwrite, hcode⟩ := hlearnt.saved
    exact ⟨hend, hwrite, hcode, fun htwo => hlearntCarrier.tm htwo⟩
  · exact hfail

/-- Two bursts of eight cycles of 26 us, 600 us apart. -/
def shortCode : IrSignal := ⟨[(List.replicate 8 416, 9600)], List.replicate 8 416⟩

def edgesFrom (t : BitVec 32) : List (BitVec 32) → List Edge
  | [] => []
  | d :: ds => ⟨t + d, t + d, t + d⟩ :: edgesFrom (t + d) ds

theorem irLearn_records_shortCode :
    let r := run gpioUserIrqHandler (irStartLearn 5 .initial)
      (⟨0, 0, 0⟩ :: edgesFrom 0 shortCode.intervals ++ ⟨6400001, 6400001, 6400001⟩ :: [])
    let saved := irLearnSuccessCallback r.1
    endings r.2.flatten = [.successTimer] ∧ saved.1.irLearnDat.code = [208, 600, 208] ∧
      saved.1.irLearnDat.carrHighTm.toNat ≤ 26 := by
  have hc : shortCode.Recordable 26 26 := by
    constructor
    · intro d hd
      have heq : d = 416 := by simpa [shortCode, IrSignal.cycles] using hd
      rw [heq]
      decide
    · decide
    · intro b hb
      rw [List.mem_singleton.mp hb]
      decide
    · decide
  obtain ⟨hend, -, hcode, hcarrier⟩ := (irLearn_records 5 .initial ⟨0, 0, 0⟩
    ⟨6400001, 6400001, 6400001⟩ (edgesFrom 0 shortCode.intervals) [] hc (by decide +kernel) (by decide +kernel)
    (by decide +kernel)).1 (by decide +kernel)
  have hseries : shortCode.series = [208, 600, 208] := by decide +kernel
  rw [hseries] at hcode
  exact ⟨hend, hcode, (hcarrier (by decide +kernel)).2⟩

end Signal

end Rf4ce.Drv
