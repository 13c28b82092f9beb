import Mathlib.Algebra.CharP.Two
import Mathlib.Algebra.Field.ZMod
import Mathlib.Algebra.Polynomial.Div
import Mathlib.Data.BitVec
import Mathlib.RingTheory.Coprime.Lemmas
import Mathlib.Tactic.LinearCombination

/-! Division of bits by a polynomial over the field of two elements, in a register that shifts down.
The first bit and the lowest bit of the register are the highest coefficients. -/
namespace Rf4ce.Refine
open Polynomial

variable {w : Nat}

/-- The divisor is subtracted when the low bit of the register and the bit taken in differ. Its own
highest coefficient is not among the bits of `g`. -/
def divBit (g v : BitVec w) (b : Bool) : BitVec w := (v >>> 1) ^^^ (if v.getLsbD 0 ^^ b then g else 0)

def divBits (g v : BitVec w) (bs : List Bool) : BitVec w := bs.foldl (divBit g) v

theorem divBits_append (g v : BitVec w) (xs ys : List Bool) :
    divBits g v (xs ++ ys) = divBits g (divBits g v xs) ys := List.foldl_append

/-! ### Bits as polynomials -/

noncomputable def bitCoeff (b : Bool) : (ZMod 2)[X] := if b then 1 else 0

@[simp] theorem bitCoeff_false : bitCoeff false = 0 := rfl

@[simp] theorem bitCoeff_true : bitCoeff true = 1 := rfl

theorem bitCoeff_xor (a b : Bool) : bitCoeff (a ^^ b) = bitCoeff a + bitCoeff b := by
  have htwo : (1 : (ZMod 2)[X]) + 1 = 0 := CharTwo.add_self_eq_zero 1
  cases a <;> cases b <;> simp [bitCoeff, htwo]

theorem bitCoeff_degree (b : Bool) : (bitCoeff b).degree ≤ 0 := by
  cases b
  · exact degree_zero.trans_le bot_le
  · exact degree_one_le

noncomputable def bitsPoly : List Bool → (ZMod 2)[X]
  | [] => 0
  | b :: bs => bitCoeff b * X ^ bs.length + bitsPoly bs

theorem bitsPoly_append (xs ys : List Bool) : bitsPoly (xs ++ ys) = bitsPoly xs * X ^ ys.length + bitsPoly ys := by
  induction xs with
  | nil => rw [List.nil_append, bitsPoly, zero_mul, zero_add]
  | cons b xs ih => rw [List.cons_append, bitsPoly, ih, bitsPoly, List.length_append, pow_add]; ring

theorem bitsPoly_xor {xs ys : List Bool} (h : xs.length = ys.length) :
    bitsPoly (List.zipWith xor xs ys) = bitsPoly xs + bitsPoly ys := by
  induction xs generalizing ys with
  | nil =>
    obtain rfl := List.eq_nil_of_length_eq_zero h.symm
    exact (add_zero 0).symm
  | cons a xs ih =>
    cases ys with
    | nil => exact absurd h (Nat.succ_ne_zero _)
    | cons b ys =>
      have hlen : xs.length = ys.length := Nat.succ.inj h
      rw [List.zipWith_cons_cons, bitsPoly, ih hlen, bitsPoly, bitsPoly, bitCoeff_xor, List.length_zipWith, hlen,
        Nat.min_self]
      ring

theorem bitsPoly_degree (bs : List Bool) : (bitsPoly bs).degree < bs.length := by
  induction bs with
  | nil => exact degree_zero.trans_lt (WithBot.bot_lt_coe 0)
  | cons b bs ih =>
    have hlt : (bs.length : WithBot ℕ) < (b :: bs).length := by exact_mod_cast Nat.lt_succ_self bs.length
    have hhead : (bitCoeff b * X ^ bs.length).degree ≤ (bs.length : WithBot ℕ) := by
      calc (bitCoeff b * X ^ bs.length).degree
          ≤ (bitCoeff b).degree + (X ^ bs.length : (ZMod 2)[X]).degree := degree_mul_le _ _
        _ ≤ 0 + (bs.length : WithBot ℕ) := add_le_add (bitCoeff_degree b) (degree_X_pow_le _)
        _ = (bs.length : WithBot ℕ) := zero_add _
    rw [bitsPoly]
    exact (degree_add_le _ _).trans_lt (max_lt (hhead.trans_lt hlt) (ih.trans hlt))

theorem bitsPoly_coeff (b : Bool) (bs : List Bool) : (bitsPoly (b :: bs)).coeff bs.length = if b then 1 else 0 := by
  have hrest : (bitsPoly bs).coeff bs.length = 0 := coeff_eq_zero_of_degree_lt (bitsPoly_degree bs)
  rw [bitsPoly, coeff_add, hrest, add_zero, coeff_mul_X_pow', if_pos (Nat.le_refl _), Nat.sub_self]
  cases b
  · exact coeff_zero 0
  · exact coeff_one_zero

theorem bitsPoly_inj {xs ys : List Bool} (hlen : xs.length = ys.length) (h : bitsPoly xs = bitsPoly ys) : xs = ys := by
  induction xs generalizing ys with
  | nil => exact (List.eq_nil_of_length_eq_zero hlen.symm).symm
  | cons a xs ih =>
    cases ys with
    | nil => exact absurd hlen (Nat.succ_ne_zero _)
    | cons b ys =>
      have hlen' : xs.length = ys.length := Nat.succ.inj hlen
      have hhead : a = b := by
        have ha := bitsPoly_coeff a xs
        have hb := bitsPoly_coeff b ys
        rw [h, hlen', hb] at ha
        cases a <;> cases b <;> simp at ha <;> rfl
      have htail : bitsPoly xs = bitsPoly ys := by
        rw [bitsPoly, bitsPoly, hhead, hlen'] at h
        exact add_left_cancel h
      rw [hhead, ih hlen' htail]

/-! ### Words as polynomials -/

/-- The bits of a word, lowest first. -/
def wordBits (v : BitVec w) : List Bool := (List.range w).map v.getLsbD

@[simp] theorem wordBits_length (v : BitVec w) : (wordBits v).length = w := by
  rw [wordBits, List.length_map, List.length_range]

theorem wordBits_inj {a b : BitVec w} (h : wordBits a = wordBits b) : a = b := by
  apply BitVec.eq_of_getLsbD_eq
  intro i hi
  exact List.map_inj_left.mp h i (List.mem_range.mpr hi)

noncomputable def wordPoly (v : BitVec w) : (ZMod 2)[X] := bitsPoly (wordBits v)

theorem wordPoly_degree (v : BitVec w) : (wordPoly v).degree < w := by
  have h := bitsPoly_degree (wordBits v)
  rwa [wordBits_length] at h

theorem wordPoly_inj {a b : BitVec w} (h : wordPoly a = wordPoly b) : a = b :=
  wordBits_inj (bitsPoly_inj (by rw [wordBits_length, wordBits_length]) h)

theorem wordPoly_xor (a b : BitVec w) : wordPoly (a ^^^ b) = wordPoly a + wordPoly b := by
  have hbits : wordBits (a ^^^ b) = List.zipWith xor (wordBits a) (wordBits b) := by
    unfold wordBits
    rw [List.zipWith_map, List.zipWith_self]
    apply List.map_congr_left
    intro i _
    exact BitVec.getLsbD_xor
  unfold wordPoly
  rw [hbits, bitsPoly_xor (by rw [wordBits_length, wordBits_length])]

/-- A shift multiplies by `X`; the lowest bit falls out as the coefficient of `X ^ w`. -/
theorem wordPoly_shift (v : BitVec w) :
    wordPoly v * X = bitCoeff (v.getLsbD 0) * X ^ w + wordPoly (v >>> 1) := by
  cases w with
  | zero => simp [wordPoly, wordBits, bitsPoly, bitCoeff]
  | succ k =>
    have hbits : wordBits v = v.getLsbD 0 :: (List.range k).map (v.getLsbD ∘ Nat.succ) := by
      rw [wordBits, List.range_succ_eq_map, List.map_cons, List.map_map]
    have hshift : wordBits (v >>> 1) = (List.range k).map (v.getLsbD ∘ Nat.succ) ++ [false] := by
      have hlow : (List.range k).map (v >>> 1).getLsbD = (List.range k).map (v.getLsbD ∘ Nat.succ) := by
        apply List.map_congr_left
        intro i _
        rw [BitVec.getLsbD_ushiftRight, Nat.add_comm 1 i]
        rfl
      have hlast : (v >>> 1).getLsbD k = false := by
        rw [BitVec.getLsbD_ushiftRight, Nat.add_comm 1 k]
        exact BitVec.getLsbD_of_ge v (k + 1) (Nat.le_refl _)
      rw [wordBits, List.range_succ, List.map_append, hlow, List.map_singleton, hlast]
    unfold wordPoly
    rw [hbits, hshift, bitsPoly, bitsPoly_append, List.length_map, List.length_range, pow_succ]
    change _ = _ + (_ * X ^ 1 + (bitCoeff false * X ^ 0 + 0))
    rw [bitCoeff_false]
    ring

/-! ### The division -/

/-- The divisor with its highest coefficient. -/
noncomputable def divisor (g : BitVec w) : (ZMod 2)[X] := X ^ w + wordPoly g

theorem divisor_degree (g : BitVec w) : (divisor g).degree = w := by
  have hlt : (wordPoly g).degree < (X ^ w : (ZMod 2)[X]).degree := by
    rw [degree_X_pow]
    exact wordPoly_degree g
  rw [divisor, degree_add_eq_left_of_degree_lt hlt, degree_X_pow]

theorem divisor_monic (g : BitVec w) : (divisor g).Monic := monic_X_pow_add (wordPoly_degree g)

theorem wordPoly_zero : wordPoly (0 : BitVec w) = 0 := by
  have hdouble := wordPoly_xor (0 : BitVec w) 0
  rwa [BitVec.xor_self, CharTwo.add_self_eq_zero] at hdouble

theorem wordPoly_if (c : Bool) (g : BitVec w) : wordPoly (if c then g else 0) = bitCoeff c * wordPoly g := by
  cases c
  · exact wordPoly_zero.trans (zero_mul _).symm
  · exact (one_mul _).symm

theorem divBit_poly (g v : BitVec w) (b : Bool) :
    wordPoly v * X + bitCoeff b * X ^ w = wordPoly (divBit g v b) + bitCoeff (v.getLsbD 0 ^^ b) * divisor g := by
  have hdouble := CharTwo.add_self_eq_zero (bitCoeff (v.getLsbD 0 ^^ b) * wordPoly g)
  rw [divBit, wordPoly_xor, wordPoly_if, wordPoly_shift, divisor, mul_add, bitCoeff_xor] at *
  linear_combination -hdouble

/-- The register holds the remainder. -/
theorem divBits_poly (g v : BitVec w) (bs : List Bool) :
    wordPoly (divBits g v bs) = (wordPoly v * X ^ bs.length + bitsPoly bs * X ^ w) %ₘ divisor g := by
  induction bs generalizing v with
  | nil =>
    have hlt : (wordPoly v).degree < (divisor g).degree := by
      rw [divisor_degree]
      exact wordPoly_degree v
    have hself := (modByMonic_eq_self_iff (divisor_monic g)).mpr hlt
    rw [List.length_nil, pow_zero, mul_one, bitsPoly, zero_mul, add_zero, hself]
    rfl
  | cons b bs ih =>
    have hstep := divBit_poly g v b
    have hdvd : divisor g ∣ wordPoly (divBit g v b) * X ^ bs.length + bitsPoly bs * X ^ w -
        (wordPoly v * X ^ (b :: bs).length + bitsPoly (b :: bs) * X ^ w) := by
      use -(bitCoeff (v.getLsbD 0 ^^ b) * X ^ bs.length)
      rw [bitsPoly, List.length_cons, pow_succ]
      linear_combination -X ^ bs.length * hstep
    exact (ih (divBit g v b)).trans (modByMonic_eq_of_dvd_sub (divisor_monic g) hdvd)

/-! ### Detected errors -/

section Errors
variable {g v : BitVec w} {xs ys : List Bool}

/-- Bits of one length leave the same remainder if the divisor divides their difference. -/
theorem divBits_eq_iff (hg : IsCoprime (divisor g) X) (hlen : xs.length = ys.length) :
    divBits g v xs = divBits g v ys ↔ divisor g ∣ bitsPoly xs - bitsPoly ys := by
  have hdiff : wordPoly v * X ^ xs.length + bitsPoly xs * X ^ w - (wordPoly v * X ^ ys.length + bitsPoly ys * X ^ w) =
      (bitsPoly xs - bitsPoly ys) * X ^ w := by
    rw [hlen]
    ring
  constructor
  · intro h
    have hrem := congrArg wordPoly h
    rw [divBits_poly, divBits_poly, ← sub_eq_zero, ← sub_modByMonic, hdiff,
      modByMonic_eq_zero_iff_dvd (divisor_monic g)] at hrem
    exact hg.pow_right.dvd_of_dvd_mul_right hrem
  · intro h
    apply wordPoly_inj
    rw [divBits_poly, divBits_poly]
    apply modByMonic_eq_of_dvd_sub (divisor_monic g)
    rw [hdiff]
    exact h.mul_right _

/-- Errors within as many bits as the register has are always seen. -/
theorem divBits_burst (hg : IsCoprime (divisor g) X) {pre post : List Bool} (hlen : xs.length = ys.length)
    (hw : xs.length ≤ w) (h : divBits g v (pre ++ (xs ++ post)) = divBits g v (pre ++ (ys ++ post))) : xs = ys := by
  have hrest : (xs ++ post).length = (ys ++ post).length := by rw [List.length_append, List.length_append, hlen]
  rw [divBits_append g v pre, divBits_append g v pre, divBits_eq_iff hg hrest, bitsPoly_append, bitsPoly_append,
    add_sub_add_right_eq_sub, ← sub_mul] at h
  have hdvd := hg.pow_right.dvd_of_dvd_mul_right h
  have hdeg : (bitsPoly xs - bitsPoly ys).degree < (divisor g).degree := by
    have hx := bitsPoly_degree xs
    have hy := bitsPoly_degree ys
    rw [← hlen] at hy
    have hle : (xs.length : WithBot ℕ) ≤ w := by exact_mod_cast hw
    rw [divisor_degree]
    exact (degree_sub_le _ _).trans_lt ((max_lt hx hy).trans_le hle)
  exact bitsPoly_inj hlen (sub_eq_zero.mp (eq_zero_of_dvd_of_degree_lt hdvd hdeg))

end Errors

end Rf4ce.Refine
