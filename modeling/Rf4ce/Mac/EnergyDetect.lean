import Mathlib.Algebra.Ring.Int.Defs
import Mathlib.Data.Int.Order.Basic
import Mathlib.Data.List.Basic

/-! The arithmetic of the energy detection in `mac_phy.c`. A signed overflow or a division by zero
is `none`. -/
namespace Rf4ce.Mac

/-- The result of a signed operation of 32 bits. -/
def signed (x : Int) : Option Int := if -2 ^ 31 ≤ x ∧ x < 2 ^ 31 then some x else none

def signedDiv (a b : Int) : Option Int := if b = 0 then none else signed (a.tdiv b)

/-- `soft_rssi`, `sum_rssi` and `cnt_rssi`. -/
structure EnergyDetect where
  softRssi : BitVec 8
  sumRssi : Int
  cntRssi : Int
deriving DecidableEq, Repr

def rfEdDetect (rssi : BitVec 8) (s : EnergyDetect) : Option EnergyDetect := do
  let sumRssi ← signed (s.sumRssi + rssi.toInt)
  let cntRssi ← signed (s.cntRssi + 1)
  if cntRssi ≥ 0xfffffe then do
    let sumRssi ← signedDiv sumRssi cntRssi
    pure { s with sumRssi := sumRssi, cntRssi := 1 }
  else pure { s with sumRssi := sumRssi, cntRssi := cntRssi }

def rfStartED : EnergyDetect := ⟨-110, 0, 0⟩

/-- The value of `ed` before it becomes an `u8`. -/
def edValue (softRssi : BitVec 8) : BitVec 32 :=
  if softRssi.toInt ≤ -106 then 0
  else if softRssi.toInt ≥ -6 then 0xff
  else
    let temp := BitVec.ofInt 32 ((softRssi.toInt + 106) * 255)
    temp / 100

def rfStopED (s : EnergyDetect) : Option (EnergyDetect × BitVec 8) := do
  let cntRssi := if s.cntRssi = 0 then 1 else s.cntRssi
  let quot ← signedDiv s.sumRssi cntRssi
  let softRssi := BitVec.ofInt 8 quot
  pure (⟨softRssi, s.sumRssi, cntRssi⟩, (edValue softRssi).setWidth 8)

/-- The calls of `rf_edDetect` after `rf_startED`. -/
def rfEdRun (samples : List (BitVec 8)) : Option EnergyDetect :=
  samples.foldlM (fun s rssi => rfEdDetect rssi s) rfStartED

/-- The average that `rf_stopED` takes. -/
def EnergyDetect.average (s : EnergyDetect) : Int := s.sumRssi.tdiv (if s.cntRssi = 0 then 1 else s.cntRssi)

/-! ### Bounds -/

/-- The sum is one of `cntRssi` samples, and there is room for one more. -/
structure EdBounded (s : EnergyDetect) : Prop where
  cnt : 0 ≤ s.cntRssi ∧ s.cntRssi < 0xfffffe
  sum : -128 * s.cntRssi ≤ s.sumRssi ∧ s.sumRssi ≤ 127 * s.cntRssi

theorem signed_eq {x : Int} (h : -2 ^ 31 ≤ x ∧ x < 2 ^ 31) : signed x = some x := if_pos h

/-- The quotient of a sum of `b` samples is a sample. -/
theorem tdiv_sample {a b : Int} (hb : 0 < b) (h : -128 * b ≤ a ∧ a ≤ 127 * b) :
    -128 ≤ a.tdiv b ∧ a.tdiv b ≤ 127 := by
  have hlow := Int.tdiv_le_tdiv hb h.1
  have hhigh := Int.tdiv_le_tdiv hb h.2
  rw [Int.mul_tdiv_cancel _ (by omega)] at hlow hhigh
  exact ⟨hlow, hhigh⟩

theorem signedDiv_eq {a b : Int} (hb : 0 < b) (h : -128 * b ≤ a ∧ a ≤ 127 * b) : signedDiv a b = some (a.tdiv b) := by
  have hquot := tdiv_sample hb h
  rw [signedDiv, if_neg (by omega)]
  exact signed_eq (by omega)

theorem rfStartED_bounded : EdBounded rfStartED := by
  constructor <;> decide

/-- The next sample, with or without folding the sum into an average. -/
theorem rfEdDetect_bounded {s : EnergyDetect} (h : EdBounded s) (rssi : BitVec 8) :
    ∃ s', rfEdDetect rssi s = some s' ∧ EdBounded s' := by
  have hlow : -128 ≤ rssi.toInt := BitVec.le_toInt rssi
  have hhigh : rssi.toInt < 128 := BitVec.toInt_lt
  obtain ⟨hcnt, hsum⟩ := h
  have hsum' := signed_eq (x := s.sumRssi + rssi.toInt) (by omega)
  have hcnt' := signed_eq (x := s.cntRssi + 1) (by omega)
  by_cases hfold : s.cntRssi + 1 ≥ 0xfffffe
  · have hin : -128 * (s.cntRssi + 1) ≤ s.sumRssi + rssi.toInt ∧ s.sumRssi + rssi.toInt ≤ 127 * (s.cntRssi + 1) := by
      omega
    have hdiv := signedDiv_eq (by omega) hin
    have hquot := tdiv_sample (by omega) hin
    refine ⟨{ s with sumRssi := (s.sumRssi + rssi.toInt).tdiv (s.cntRssi + 1), cntRssi := 1 }, ?_, ⟨by simp, ?_⟩⟩
    · simp [rfEdDetect, hsum', hcnt', hfold, hdiv]
    · dsimp only
      omega
  · refine ⟨{ s with sumRssi := s.sumRssi + rssi.toInt, cntRssi := s.cntRssi + 1 }, ?_, ⟨?_, ?_⟩⟩
    · simp [rfEdDetect, hsum', hcnt', hfold]
    · dsimp only
      omega
    · dsimp only
      omega

theorem rfEdRun_bounded (samples : List (BitVec 8)) : ∃ s, rfEdRun samples = some s ∧ EdBounded s := by
  unfold rfEdRun
  generalize hs : rfStartED = s₀
  have hbounded : EdBounded s₀ := hs ▸ rfStartED_bounded
  clear hs
  induction samples generalizing s₀ with
  | nil => exact ⟨s₀, rfl, hbounded⟩
  | cons rssi samples ih =>
    obtain ⟨s₁, hstep, hbounded₁⟩ := rfEdDetect_bounded hbounded rssi
    rw [List.foldlM_cons, hstep]
    exact ih s₁ hbounded₁

/-- The average is a sample. -/
theorem EdBounded.average {s : EnergyDetect} (h : EdBounded s) : -128 ≤ s.average ∧ s.average ≤ 127 := by
  obtain ⟨hcnt, hsum⟩ := h
  unfold EnergyDetect.average
  split_ifs with hzero
  · rw [hzero] at hsum
    have hnil : s.sumRssi = 0 := by omega
    rw [hnil]
    decide
  · exact tdiv_sample (by omega) hsum

theorem rfStopED_eq {s : EnergyDetect} (h : EdBounded s) :
    rfStopED s = some (⟨BitVec.ofInt 8 s.average, s.sumRssi, if s.cntRssi = 0 then 1 else s.cntRssi⟩,
      (edValue (BitVec.ofInt 8 s.average)).setWidth 8) := by
  have hdiv : signedDiv s.sumRssi (if s.cntRssi = 0 then 1 else s.cntRssi) = some s.average := by
    obtain ⟨hcnt, hsum⟩ := h
    unfold EnergyDetect.average
    split_ifs with hzero
    · exact signedDiv_eq (by decide) (by omega)
    · exact signedDiv_eq (by omega) hsum
  simp only [rfStopED, hdiv]
  rfl

theorem toInt_ofInt_sample {x : Int} (h : -128 ≤ x ∧ x ≤ 127) : (BitVec.ofInt 8 x).toInt = x := by
  rw [BitVec.toInt_ofInt]
  exact Int.bmod_eq_of_le (by omega) (by omega)

/-- The result as a number: 0, 255 or 2.55 per dB above -106. -/
theorem edValue_eq (softRssi : BitVec 8) :
    ((edValue softRssi).toNat : Int) =
      if softRssi.toInt ≤ -106 then 0 else if softRssi.toInt ≥ -6 then 255 else (softRssi.toInt + 106) * 255 / 100 := by
  unfold edValue
  split_ifs with hlow hhigh
  · rfl
  · rfl
  · have htemp : ((BitVec.ofInt 32 ((softRssi.toInt + 106) * 255)).toNat : Int) = (softRssi.toInt + 106) * 255 := by
      rw [BitVec.toNat_ofInt]
      omega
    dsimp only
    rw [BitVec.toNat_udiv, Int.natCast_ediv, htemp]
    rfl

theorem edValue_le (softRssi : BitVec 8) : (edValue softRssi).toNat ≤ 255 := by
  have hval := edValue_eq softRssi
  split_ifs at hval <;> omega

theorem edValue_mono {a b : BitVec 8} (h : a.toInt ≤ b.toInt) : (edValue a).toNat ≤ (edValue b).toNat := by
  have ha := edValue_eq a
  have hb := edValue_eq b
  split_ifs at ha hb <;> omega

theorem edByte_eq (softRssi : BitVec 8) : ((edValue softRssi).setWidth 8).toNat = (edValue softRssi).toNat := by
  have hle := edValue_le softRssi
  rw [BitVec.toNat_setWidth]
  exact Nat.mod_eq_of_lt (by omega)

/-- However many samples are taken, nothing overflows and no divisor is zero, the average fits in
`soft_rssi`, and the result is at most 255 and grows with the average. -/
theorem rfEd_safe : ∃ ed : Int → BitVec 8,
    (∀ a b, -128 ≤ a → a ≤ b → b ≤ 127 → (ed a).toNat ≤ (ed b).toNat) ∧
      ∀ samples, ∃ s s', rfEdRun samples = some s ∧ rfStopED s = some (s', ed s.average) ∧
        s'.softRssi.toInt = s.average ∧ (edValue s'.softRssi).toNat ≤ 255 := by
  refine ⟨fun a => (edValue (BitVec.ofInt 8 a)).setWidth 8, fun a b ha hab hb => ?_, fun samples => ?_⟩
  · rw [edByte_eq, edByte_eq]
    apply edValue_mono
    rw [toInt_ofInt_sample (by omega), toInt_ofInt_sample (by omega)]
    exact hab
  · obtain ⟨s, hrun, hbounded⟩ := rfEdRun_bounded samples
    have hfits := toInt_ofInt_sample hbounded.average
    exact ⟨s, _, hrun, rfStopED_eq hbounded, hfits, edValue_le _⟩

end Rf4ce.Mac
