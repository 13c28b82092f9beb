import Mathlib.Data.Fintype.Card
import Mathlib.Data.Nat.Bitwise

/-! The set bits of a word, and the test for a single one. -/
namespace Rf4ce.Common

variable {w : Nat}

def setBits (x : BitVec w) : Finset (Fin w) := Finset.univ.filter fun c => x.getLsbD c = true

@[simp] theorem mem_setBits {x : BitVec w} {c : Fin w} : c ∈ setBits x ↔ x.getLsbD c = true := by
  simp [setBits]

theorem setBits_and (x y : BitVec w) : setBits (x &&& y) = setBits x ∩ setBits y := by
  ext c
  simp

theorem isPowerOfTwo_iff {x : Nat} (hx : x ≠ 0) :
    x.isPowerOfTwo ↔ ∀ c d, x.testBit c = true → x.testBit d = true → c = d := by
  constructor
  · rintro ⟨k, rfl⟩ c d hc hd
    rw [Nat.testBit_two_pow, decide_eq_true_eq] at hc hd
    exact hc.symm.trans hd
  · intro h
    obtain ⟨k, hk⟩ := Nat.exists_testBit_of_ne_zero hx
    refine ⟨k, Nat.eq_of_testBit_eq fun c => ?_⟩
    rw [Nat.testBit_two_pow]
    by_cases hc : k = c
    · simp [← hc, hk]
    · have hclear : x.testBit c ≠ true := fun hset => hc (h k c hk hset)
      simp [hc, hclear]

/-- Clearing the lowest set bit leaves one exactly where there were two. -/
theorem and_sub_one_ne_zero {x : BitVec w} (hx : x ≠ 0) : x &&& (x - 1) ≠ 0 ↔ 2 ≤ (setBits x).card := by
  have hpos : x.toNat ≠ 0 := fun h => hx (BitVec.eq_of_toNat_eq (by simpa using h))
  have hw : 0 < w := by
    rcases Nat.eq_zero_or_pos w with rfl | hw
    · exact absurd (BitVec.eq_nil x) (by simpa using hx)
    · exact hw
  have hone : (1 : BitVec w).toNat = 1 := by
    rw [show (1 : BitVec w) = BitVec.ofNat w 1 from rfl, BitVec.toNat_ofNat]
    exact Nat.mod_eq_of_lt (Nat.one_lt_two_pow (by omega))
  have hsub : (x - 1).toNat = x.toNat - 1 := by
    rw [BitVec.toNat_sub_of_le (by rw [BitVec.le_def, hone]; omega), hone]
  have hand : x &&& (x - 1) = 0 ↔ x.toNat.isPowerOfTwo := by
    rw [← Nat.and_sub_one_eq_zero_iff_isPowerOfTwo hpos, ← hsub, ← BitVec.toNat_and, BitVec.toNat_eq]
    simp
  rw [ne_eq, hand, isPowerOfTwo_iff hpos]
  constructor
  · intro h
    push Not at h
    obtain ⟨c, d, hc, hd, hne⟩ := h
    have hlt : ∀ {c}, x.toNat.testBit c = true → c < w := fun {c} hc => BitVec.lt_of_getLsbD hc
    rw [Nat.succ_le_iff, Finset.one_lt_card]
    exact ⟨⟨c, hlt hc⟩, mem_setBits.mpr hc, ⟨d, hlt hd⟩, mem_setBits.mpr hd, by simpa using hne⟩
  · intro h hall
    rw [Nat.succ_le_iff, Finset.one_lt_card] at h
    obtain ⟨c, hc, d, hd, hne⟩ := h
    exact hne (Fin.ext (hall c d (mem_setBits.mp hc) (mem_setBits.mp hd)))

end Rf4ce.Common
