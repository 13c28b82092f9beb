import Rf4ce.Drv.IrLearn
import Rf4ce.Refine.Wrap

/-! Learning an infrared code with the capture unit of the TL321X, `ir_learn.c` with
`MCU_CORE_TL321X`: interrupts store words in a ring, and `drv_ir_data_process` turns them into
intervals. -/
namespace Rf4ce.Drv.Tl321x
open Refine

def buffDataLen : Nat := 2000
def irDmaSeriesCnt1 : Nat := 247

/-- `g_il_wave_receive_buff`, `g_il_index` and `ir_learn_dat`. -/
structure IrWave where
  buff : Nat → BitVec 32
  index : Nat
  dat : IrLearnSave

def zeroSave : IrLearnSave := ⟨0, 0, fun _ => 0⟩

def IrWave.initial : IrWave := ⟨fun _ => 0, 0, zeroSave⟩

/-- What the loop of `drv_ir_data_process` takes a word for. -/
inductive WordKind where
  | zero | carrier | gap | long
deriving DecidableEq, Repr

section Code
variable (clk : BitVec 32)

/-- The bounds are `IR_LEARN_PWM_CARRIEN_MAX` and `IR_LEARN_PWM_NOCARRIEN_MAX`; `clk` is
`CLOCK_PWM_CLOCK_1US`. -/
def wordKind (w : BitVec 32) : WordKind :=
  if w = 0 then .zero else if w < 71 * clk then .carrier else if w < 20000 * clk then .gap else .long

/-- `(u16)(t / CLOCK_PWM_CLOCK_1US)` -/
def toUs (t : BitVec 32) : BitVec 16 := (t / clk).setWidth 16

/-- `record_idx`, `record_interval` and `series_tm`. -/
structure Scan where
  recordIdx : Nat
  recordInterval : BitVec 32
  seriesTm : Nat → BitVec 16

/-- `ir_learn_dat.series_tm[record_idx % IR_DMA_SERIES_CNT1] = tm` -/
def Scan.store (sc : Scan) (tm : BitVec 16) : Scan :=
  { sc with seriesTm := Function.update sc.seriesTm (sc.recordIdx % irDmaSeriesCnt1) tm }

def Scan.next (sc : Scan) : Scan := { sc with recordIdx := sc.recordIdx + 1 }

/-- The loop of `drv_ir_data_process` from `receive_idx = idx` on, with `k` words left in the ring, and
whether a long gap ended it. It is `none` when the loop reads behind the ring. -/
def dataLoop (buff : Nat → BitVec 32) : Nat → Nat → Scan → Option (Scan × Bool)
  | 0, _, _ => none
  | k + 1, idx, sc =>
    match wordKind clk (buff idx) with
    | .zero => some (sc, false)
    | .carrier => dataLoop buff k (idx + 1) { sc with recordInterval := sc.recordInterval + buff idx }
    | .gap =>
      let sc := (sc.store (toUs clk sc.recordInterval)).next
      let sc := (sc.store (toUs clk (buff idx))).next
      dataLoop buff k (idx + 1) { sc with recordInterval := 0 }
    | .long => some (sc.store (toUs clk sc.recordInterval), true)

/-- `ir_stop_learn` on `ir_learn_dat`. -/
def irStopLearn (dat : IrLearnSave) : IrLearnSave :=
  if (dat.seriesTm 0).toNat < 200 ∨ dat.seriesCnt.toNat < 10 then zeroSave else dat

/-- `carr_high_tm` from the first three words, which are passed as `u16`. -/
def carrierOf (buff : Nat → BitVec 32) : BitVec 32 :=
  (calculateMid ((buff 0).setWidth 16) ((buff 1).setWidth 16) ((buff 2).setWidth 16)).setWidth 32 / clk

def drvIrDataProcess (s : IrWave) : Option IrWave :=
  match dataLoop clk s.buff buffDataLen 0 ⟨0, 0, s.dat.seriesTm⟩ with
  | none => none
  | some (sc, false) => some { s with dat := { s.dat with seriesTm := sc.seriesTm } }
  | some (sc, true) =>
    let dat := { s.dat with seriesTm := sc.seriesTm }
    let dat :=
      if sc.recordIdx ≥ irDmaSeriesCnt1 then { dat with seriesCnt := 0 }
      else { dat with seriesCnt := BitVec.ofNat 16 (sc.recordIdx + 1), carrHighTm := carrierOf clk s.buff }
    some { buff := fun _ => 0, index := 0, dat := irStopLearn dat }

/-- The body of the loop of both interrupt handlers. -/
def storeWord (s : IrWave) (w : BitVec 32) : IrWave :=
  { s with buff := Function.update s.buff s.index w, index := (s.index + 1) % buffDataLen }

/-- `drv_ir_learn_rx_handler` with the words of the FIFO; `drv_ir_learn_timeout_handler` stores them
alike and has `drv_ir_data_process` called. -/
def drvIrLearnRxHandler (fifo : List (BitVec 32)) (s : IrWave) : IrWave := fifo.foldl storeWord s

def irCancelLearn (_ : IrWave) : IrWave := ⟨fun _ => 0, 0, zeroSave⟩

end Code

/-! ### What a scan records -/

section Recorded
variable (clk : BitVec 32) (buff : Nat → BitVec 32)

/-- The intervals of the words from `idx` on, after a burst of length `t`: each gap closes a burst. -/
def intervals : Nat → Nat → BitVec 32 → List (BitVec 16)
  | 0, _, _ => []
  | k + 1, idx, t =>
    match wordKind clk (buff idx) with
    | .zero => []
    | .carrier => intervals k (idx + 1) (t + buff idx)
    | .gap => toUs clk t :: toUs clk (buff idx) :: intervals k (idx + 1) 0
    | .long => [toUs clk t]

/-- The kind of the first word that ends a scan. -/
def scanEnd : Nat → Nat → Option WordKind
  | 0, _ => none
  | k + 1, idx =>
    match wordKind clk (buff idx) with
    | .zero => some .zero
    | .long => some .long
    | _ => scanEnd k (idx + 1)

variable {clk buff}

theorem dataLoop_none {k idx : Nat} {sc : Scan} : dataLoop clk buff k idx sc = none ↔ scanEnd clk buff k idx = none := by
  induction k generalizing idx sc with
  | zero => simp [dataLoop, scanEnd]
  | succ k ih =>
    simp only [dataLoop, scanEnd]
    cases wordKind clk (buff idx) with
    | zero => simp
    | carrier => exact ih
    | gap => exact ih
    | long => simp

/-- The loop stores the intervals round the array; the last one of a finished code is not counted. -/
theorem dataLoop_some {k idx : Nat} {sc sc' : Scan} {long : Bool}
    (h : dataLoop clk buff k idx sc = some (sc', long)) :
    let ints := intervals clk buff k idx sc.recordInterval
    sc'.seriesTm = storeWrapped irDmaSeriesCnt1 sc.seriesTm sc.recordIdx ints ∧
    sc'.recordIdx + long.toNat = sc.recordIdx + ints.length ∧
    scanEnd clk buff k idx = some (if long then .long else .zero) := by
  induction k generalizing idx sc with
  | zero => simp [dataLoop] at h
  | succ k ih =>
    simp only [dataLoop] at h
    simp only [intervals, scanEnd]
    cases hkind : wordKind clk (buff idx) with
    | zero =>
      simp only [hkind, Option.some.injEq, Prod.mk.injEq] at h
      obtain ⟨rfl, rfl⟩ := h
      simp [storeWrapped]
    | carrier =>
      simp only [hkind] at h
      exact ih h
    | gap =>
      simp only [hkind] at h
      obtain ⟨htm, hidx, hend⟩ := ih h
      refine ⟨htm, ?_, hend⟩
      rw [hidx]
      simp only [Scan.store, Scan.next, List.length_cons]
      omega
    | long =>
      simp only [hkind, Option.some.injEq, Prod.mk.injEq] at h
      obtain ⟨rfl, rfl⟩ := h
      simp [storeWrapped, Scan.store]

end Recorded

/-! ### Runs -/

inductive IrWaveCall where
  | rx (fifo : List (BitVec 32))
  | timeout (fifo : List (BitVec 32))
  | process
  | cancel

/-- The module, and the intervals of the last scan that recorded any. -/
structure IrWaveRun where
  wave : IrWave
  recorded : List (BitVec 16)

def IrWaveRun.initial : IrWaveRun := ⟨.initial, []⟩

section Run
variable (clk : BitVec 32)

def IrWave.intervals (s : IrWave) : List (BitVec 16) := Tl321x.intervals clk s.buff buffDataLen 0 0

def IrWave.scanEnd (s : IrWave) : Option WordKind := Tl321x.scanEnd clk s.buff buffDataLen 0

/-- The intervals that a scan of `s` leaves as the recorded ones. -/
def IrWaveRun.nextRecorded (r : IrWaveRun) : List (BitVec 16) :=
  if r.wave.intervals clk = [] then r.recorded else r.wave.intervals clk

/-- The answer is whether the call stayed inside the ring. -/
def irWaveStep (r : IrWaveRun) : IrWaveCall → IrWaveRun × Bool
  | .rx fifo => ({ r with wave := drvIrLearnRxHandler fifo r.wave }, true)
  | .timeout fifo => ({ r with wave := drvIrLearnRxHandler fifo r.wave }, true)
  | .cancel => ({ r with wave := irCancelLearn r.wave }, true)
  | .process =>
    match drvIrDataProcess clk r.wave with
    | some wave => (⟨wave, r.nextRecorded clk⟩, true)
    | none => (r, false)

/-- A count of `n` entries stands for the first `n` recorded intervals. -/
structure IrWaveRun.Intact (r : IrWaveRun) : Prop where
  size : r.wave.dat.seriesCnt.toNat ≤ irDmaSeriesCnt1
  entries : r.wave.dat.seriesCnt.toNat ≠ 0 →
    (List.range r.wave.dat.seriesCnt.toNat).map r.wave.dat.seriesTm = r.recorded.take r.wave.dat.seriesCnt.toNat

/-- A scan ends inside the ring and leaves an intact record. -/
def ScanRight (r : IrWaveRun) : IrWaveCall → Prop
  | .process => (irWaveStep clk r .process).2 = true ∧ (irWaveStep clk r .process).1.Intact
  | _ => True

/-- The ring holds a word that ends the scan. Where it is a zero, no earlier record is counted, or
nothing was recorded over it, or enough to cover it without overwriting its own start. -/
def ScanEnds (r : IrWaveRun) : IrWaveCall → Prop
  | .process =>
    r.wave.scanEnd clk = some .long ∨
    (r.wave.scanEnd clk = some .zero ∧
      (r.wave.dat.seriesCnt.toNat = 0 ∨ r.wave.intervals clk = [] ∨
        (r.wave.dat.seriesCnt.toNat ≤ (r.wave.intervals clk).length ∧
          ∀ j < r.wave.dat.seriesCnt.toNat,
            (r.wave.intervals clk)[lastAt irDmaSeriesCnt1 (r.wave.intervals clk).length j]? =
              (r.wave.intervals clk)[j]?)))
  | _ => True

variable {clk} {r : IrWaveRun}

theorem drvIrDataProcess_none {s : IrWave} (h : s.scanEnd clk = none) : drvIrDataProcess clk s = none := by
  have hloop : dataLoop clk s.buff buffDataLen 0 ⟨0, 0, s.dat.seriesTm⟩ = none := dataLoop_none.mpr h
  unfold drvIrDataProcess
  rw [hloop]

/-- The end of a scan that stays inside the ring. -/
theorem dataLoop_ends {e : WordKind} (h : r.wave.scanEnd clk = some e) :
    ∃ sc long, dataLoop clk r.wave.buff buffDataLen 0 ⟨0, 0, r.wave.dat.seriesTm⟩ = some (sc, long) ∧
      sc.seriesTm = storeWrapped irDmaSeriesCnt1 r.wave.dat.seriesTm 0 (r.wave.intervals clk) ∧
      sc.recordIdx + long.toNat = (r.wave.intervals clk).length ∧ e = if long then .long else .zero := by
  cases hloop : dataLoop clk r.wave.buff buffDataLen 0 ⟨0, 0, r.wave.dat.seriesTm⟩ with
  | none =>
    have hnone : r.wave.scanEnd clk = none := dataLoop_none.mp hloop
    rw [hnone] at h
    cases h
  | some result =>
    obtain ⟨sc, long⟩ := result
    obtain ⟨htm, hidx, hend⟩ := dataLoop_some hloop
    refine ⟨sc, long, rfl, htm, ?_, ?_⟩
    · rw [hidx]
      exact Nat.zero_add _
    · have hsame : some e = some (if long then WordKind.long else .zero) := h.symm.trans hend
      exact Option.some.inj hsame

/-- A scan that a zero word ends writes over the record and keeps its count. -/
theorem drvIrDataProcess_zero (h : r.wave.scanEnd clk = some .zero) :
    drvIrDataProcess clk r.wave = some { r.wave with
      dat := { r.wave.dat with
        seriesTm := storeWrapped irDmaSeriesCnt1 r.wave.dat.seriesTm 0 (r.wave.intervals clk) } } := by
  obtain ⟨sc, long, hloop, htm, -, hend⟩ := dataLoop_ends h
  cases long with
  | true => simp at hend
  | false =>
    unfold drvIrDataProcess
    rw [hloop]
    dsimp only
    rw [htm]

theorem irStopLearn_intact {wave : IrWave} {recorded : List (BitVec 16)} (h : IrWaveRun.Intact ⟨wave, recorded⟩) :
    IrWaveRun.Intact ⟨{ wave with dat := irStopLearn wave.dat }, recorded⟩ := by
  unfold irStopLearn
  split_ifs with hshort
  · exact ⟨Nat.zero_le _, fun hne => absurd rfl hne⟩
  · exact h

/-- A finished code is recorded whole or not at all. -/
theorem drvIrDataProcess_long (h : r.wave.scanEnd clk = some .long) :
    ∃ wave, drvIrDataProcess clk r.wave = some wave ∧ IrWaveRun.Intact ⟨wave, r.wave.intervals clk⟩ := by
  obtain ⟨sc, long, hloop, htm, hidx, hend⟩ := dataLoop_ends h
  cases long with
  | false => simp at hend
  | true =>
    unfold drvIrDataProcess
    rw [hloop]
    refine ⟨_, rfl, ?_⟩
    by_cases hfull : sc.recordIdx ≥ irDmaSeriesCnt1
    · -- more intervals than entries: the count is 0, and `ir_stop_learn` clears the rest
      rw [if_pos hfull]
      have hcleared : irStopLearn { r.wave.dat with seriesTm := sc.seriesTm, seriesCnt := 0 } = zeroSave :=
        if_pos (Or.inr (show (0 : BitVec 16).toNat < 10 by decide))
      rw [hcleared]
      exact ⟨Nat.zero_le _, fun hne => absurd rfl hne⟩
    · rw [if_neg hfull]
      have hlen : sc.recordIdx + 1 = (r.wave.intervals clk).length := hidx
      have hle : (r.wave.intervals clk).length ≤ irDmaSeriesCnt1 := by omega
      have hcnt : (BitVec.ofNat 16 (sc.recordIdx + 1)).toNat = (r.wave.intervals clk).length := by
        unfold irDmaSeriesCnt1 at hle
        rw [BitVec.toNat_ofNat, hlen]
        exact Nat.mod_eq_of_lt (by omega)
      apply @irStopLearn_intact ⟨fun _ => 0, 0, _⟩
      constructor
      · show (BitVec.ofNat 16 (sc.recordIdx + 1)).toNat ≤ irDmaSeriesCnt1
        rw [hcnt]
        exact hle
      · intro _
        dsimp only
        rw [hcnt, htm, storeWrapped_take _ _ hle]
        exact ⟨Nat.le_refl _, fun j _ => by rw [lastAt_of_le hle]⟩

theorem IrWaveRun.Intact.zero {wave : IrWave} {recorded : List (BitVec 16)} (h : wave.dat.seriesCnt.toNat = 0) :
    IrWaveRun.Intact ⟨wave, recorded⟩ :=
  ⟨by show wave.dat.seriesCnt.toNat ≤ _; omega, fun hne => absurd h hne⟩

theorem intervals_long (h : r.wave.scanEnd clk = some .long) : r.wave.intervals clk ≠ [] := by
  obtain ⟨sc, long, -, -, hidx, hend⟩ := dataLoop_ends h
  cases long with
  | false => simp at hend
  | true =>
    intro hnil
    rw [hnil] at hidx
    simp at hidx

/-- What a zero word leaves: an old count over new entries. -/
theorem zero_intact_iff (hr : r.Intact) :
    IrWaveRun.Intact ⟨{ r.wave with
      dat := { r.wave.dat with
        seriesTm := storeWrapped irDmaSeriesCnt1 r.wave.dat.seriesTm 0 (r.wave.intervals clk) } }, r.nextRecorded clk⟩ ↔
      r.wave.dat.seriesCnt.toNat = 0 ∨ r.wave.intervals clk = [] ∨
        (r.wave.dat.seriesCnt.toNat ≤ (r.wave.intervals clk).length ∧
          ∀ j < r.wave.dat.seriesCnt.toNat,
            (r.wave.intervals clk)[lastAt irDmaSeriesCnt1 (r.wave.intervals clk).length j]? =
              (r.wave.intervals clk)[j]?) := by
  have htake := storeWrapped_take r.wave.dat.seriesTm (r.wave.intervals clk) hr.size
  unfold IrWaveRun.nextRecorded
  by_cases hcnt : r.wave.dat.seriesCnt.toNat = 0
  · simp only [hcnt, true_or, iff_true]
    exact IrWaveRun.Intact.zero hcnt
  · by_cases hnil : r.wave.intervals clk = []
    · rw [if_pos hnil, hnil]
      simp only [true_or, or_true, iff_true]
      exact hr
    · rw [if_neg hnil, ← htake]
      simp only [hcnt, hnil, false_or]
      constructor
      · intro h
        exact h.entries hcnt
      · intro h
        exact ⟨hr.size, fun _ => h⟩

theorem scanRight_iff (hr : r.Intact) (k : IrWaveCall) : ScanRight clk r k ↔ ScanEnds clk r k := by
  cases k with
  | rx fifo => exact Iff.rfl
  | timeout fifo => exact Iff.rfl
  | cancel => exact Iff.rfl
  | process =>
    unfold ScanRight ScanEnds irWaveStep
    dsimp only
    cases hend : r.wave.scanEnd clk with
    | none =>
      rw [drvIrDataProcess_none hend]
      simp
    | some e =>
      obtain ⟨sc, long, -, -, -, he⟩ := dataLoop_ends hend
      cases long with
      | true =>
        have hlong : r.wave.scanEnd clk = some .long := by
          rw [hend, he]
          rfl
        obtain ⟨wave, hwave, hintact⟩ := drvIrDataProcess_long hlong
        have hrec : r.nextRecorded clk = r.wave.intervals clk := if_neg (intervals_long hlong)
        rw [hwave, hrec]
        simp [he, hintact]
      | false =>
        have hzero : r.wave.scanEnd clk = some .zero := by
          rw [hend, he]
          rfl
        rw [drvIrDataProcess_zero hzero, ← zero_intact_iff hr]
        simp [he]

theorem drvIrLearnRxHandler_dat (fifo : List (BitVec 32)) (s : IrWave) :
    (drvIrLearnRxHandler fifo s).dat = s.dat := by
  induction fifo generalizing s with
  | nil => rfl
  | cons w ws ih => exact ih (storeWord s w)

/-- The handlers fill the ring round and round. -/
theorem drvIrLearnRxHandler_buff (fifo : List (BitVec 32)) {s : IrWave} (hs : s.index < buffDataLen) :
    (drvIrLearnRxHandler fifo s).buff = storeWrapped buffDataLen s.buff s.index fifo := by
  induction fifo generalizing s with
  | nil => rfl
  | cons w ws ih =>
    have hnext : (storeWord s w).index < buffDataLen := Nat.mod_lt _ (by decide)
    have hrest := ih hnext
    rw [storeWrapped, Nat.mod_eq_of_lt hs]
    refine hrest.trans (storeWrapped_congr ?_ ws)
    exact Nat.mod_mod _ _

theorem irWaveStep_stored (hr : r.Intact) (fifo : List (BitVec 32)) :
    IrWaveRun.Intact ⟨drvIrLearnRxHandler fifo r.wave, r.recorded⟩ := by
  have hdat := drvIrLearnRxHandler_dat fifo r.wave
  constructor
  · dsimp only
    rw [hdat]
    exact hr.size
  · dsimp only
    rw [hdat]
    exact hr.entries

theorem irWaveStep_intact (hr : r.Intact) (k : IrWaveCall) (h : ScanRight clk r k) :
    (irWaveStep clk r k).1.Intact := by
  cases k with
  | rx fifo => exact irWaveStep_stored hr fifo
  | timeout fifo => exact irWaveStep_stored hr fifo
  | process => exact h.2
  | cancel => exact IrWaveRun.Intact.zero rfl

/-- In every run, all scans stay inside the ring and leave intact records exactly if the ring always
holds a word that ends the scan, and an unfinished code is never scanned over an earlier record. -/
theorem irDataProcess_right_iff (clk : BitVec 32) (ks : List IrWaveCall) :
    Legal (irWaveStep clk) (ScanRight clk) .initial ks ↔ Legal (irWaveStep clk) (ScanEnds clk) .initial ks := by
  have henv : Legal (irWaveStep clk) (fun _ _ => True) .initial ks := legal_forall.mpr fun _ _ => trivial
  refine legal_iff (I := IrWaveRun.Intact) (fun r k hr _ => scanRight_iff hr k)
    (fun r k hr _ hright => irWaveStep_intact hr k hright) ?_ henv
  exact IrWaveRun.Intact.zero rfl

theorem scanEnd_carrier {buff : Nat → BitVec 32} {k idx : Nat}
    (h : ∀ i < idx + k, wordKind clk (buff i) = .carrier) : Tl321x.scanEnd clk buff k idx = none := by
  induction k generalizing idx with
  | zero => rfl
  | succ k ih =>
    rw [Tl321x.scanEnd, h idx (by omega)]
    exact ih fun i hi => h i (by omega)

theorem scanRight_inside (h : ScanRight clk r .process) : r.wave.scanEnd clk ≠ none := by
  intro hnone
  have hin := h.1
  unfold irWaveStep at hin
  dsimp only at hin
  rw [drvIrDataProcess_none hnone] at hin
  exact Bool.false_ne_true hin

/-- The interrupts store their words one behind the other. -/
theorem run_rx (fifos : List (List (BitVec 32))) (r : IrWaveRun) :
    (run (irWaveStep clk) r (fifos.map .rx)).1 = { r with wave := drvIrLearnRxHandler fifos.flatten r.wave } := by
  induction fifos generalizing r with
  | nil => rfl
  | cons fifo fifos ih =>
    have hrest := ih { r with wave := drvIrLearnRxHandler fifo r.wave }
    unfold drvIrLearnRxHandler at hrest ⊢
    rw [List.flatten_cons, List.foldl_append]
    exact hrest

/-- Fifty interrupts fill the ring with carrier cycles, and the scan reads behind its end. -/
theorem irDataProcess_overruns :
    let fifo := List.replicate 40 1
    ¬Legal (irWaveStep 48) (ScanRight 48) .initial ((List.replicate 49 fifo).map .rx ++ [.timeout fifo, .process]) := by
  intro fifo hlegal
  obtain ⟨-, -, hright, -⟩ := legal_append.mp hlegal
  rw [run_rx] at hright
  have hwords : (List.replicate 49 fifo).flatten ++ fifo = List.replicate buffDataLen 1 := by
    rw [List.flatten_replicate_replicate, List.replicate_append_replicate]
    rfl
  have hwave : drvIrLearnRxHandler fifo (drvIrLearnRxHandler (List.replicate 49 fifo).flatten .initial) =
      drvIrLearnRxHandler (List.replicate buffDataLen 1) .initial := by
    rw [← hwords]
    exact (List.foldl_append ..).symm
  have hlen : (List.replicate buffDataLen (1 : BitVec 32)).length ≤ buffDataLen := by
    rw [List.length_replicate]
  have hget : ∀ i < buffDataLen, (List.replicate buffDataLen (1 : BitVec 32))[i]? = some 1 := fun i hi =>
    List.getElem?_replicate_of_lt hi
  generalize List.replicate buffDataLen (1 : BitVec 32) = words at hwave hlen hget
  generalize (List.replicate 49 fifo).flatten = first at hright hwave
  clear_value fifo
  have hend : IrWave.scanEnd 48 (drvIrLearnRxHandler words .initial) = none := by
    apply scanEnd_carrier
    intro i hi
    rw [Nat.zero_add] at hi
    have hword : (drvIrLearnRxHandler words .initial).buff i = 1 := by
      have hbuff := drvIrLearnRxHandler_buff (s := .initial) words (by decide)
      have hstored := storeWrapped_apply (fun _ => (0 : BitVec 32)) words hi
      rw [lastAt_of_le hlen, hget i hi] at hstored
      exact (congrFun hbuff i).trans hstored
    rw [hword]
    decide
  rw [← hwave] at hend
  exact scanRight_inside hright hend

end Run

end Rf4ce.Drv.Tl321x
