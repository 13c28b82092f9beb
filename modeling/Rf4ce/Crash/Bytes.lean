import Mathlib.Algebra.GroupWithZero.Nat
import Mathlib.Data.List.Basic
import Mathlib.Logic.Function.Basic

/-! Byte memories and little-endian fields. -/
namespace Rf4ce.Crash

abbrev Byte := BitVec 8

/-- The `n` bytes of `f` from address `a` on. -/
def bytes (f : Nat → Byte) (a n : Nat) : List Byte := (List.range n).map fun i => f (a + i)

@[simp] theorem bytes_length (f : Nat → Byte) (a n : Nat) : (bytes f a n).length = n := by
  simp [bytes]

@[simp] theorem bytes_zero (f : Nat → Byte) (a : Nat) : bytes f a 0 = [] := rfl

theorem bytes_getElem? (f : Nat → Byte) (a n i : Nat) :
    (bytes f a n)[i]? = if i < n then some (f (a + i)) else none := by
  unfold bytes
  split_ifs with h
  · simp [h]
  · simp [Nat.le_of_not_lt h]

theorem bytes_getElem (f : Nat → Byte) (a n i : Nat) (h : i < (bytes f a n).length) :
    (bytes f a n)[i] = f (a + i) := by
  simp [bytes]

theorem bytes_append (f : Nat → Byte) (a m n : Nat) :
    bytes f a (m + n) = bytes f a m ++ bytes f (a + m) n := by
  simp [bytes, List.range_add, Nat.add_assoc, Function.comp_def]

/-- Two memories with equal bytes in a range read alike there. -/
theorem bytes_congr {f g : Nat → Byte} {a n : Nat}
    (h : ∀ x, a ≤ x → x < a + n → f x = g x) : bytes f a n = bytes g a n := by
  refine List.map_congr_left fun i hi => h _ (by omega) ?_
  have := List.mem_range.mp hi
  omega

theorem bytes_eq_iff {f : Nat → Byte} {a : Nat} {l : List Byte} :
    bytes f a l.length = l ↔ ∀ i (h : i < l.length), f (a + i) = l[i] := by
  constructor
  · intro h i hi
    have hk := congrArg (fun k => k[i]?) h
    rw [bytes_getElem?, if_pos hi, List.getElem?_eq_getElem hi] at hk
    exact Option.some.inj hk
  · intro h
    refine List.ext_getElem (by simp) fun i h₁ h₂ => ?_
    rw [bytes_getElem, h i h₂]

theorem bytes_const {f : Nat → Byte} {a n : Nat} {b : Byte}
    (h : ∀ x, a ≤ x → x < a + n → f x = b) : bytes f a n = List.replicate n b := by
  refine List.ext_getElem (by simp) fun i h₁ h₂ => ?_
  rw [bytes_length] at h₁
  rw [bytes_getElem, List.getElem_replicate, h _ (by omega) (by omega)]

/-- A part of a known range of bytes. -/
theorem bytes_sub {f : Nat → Byte} {a n : Nat} {l : List Byte} (h : bytes f a n = l)
    (i k : Nat) (hik : i + k ≤ n) : bytes f (a + i) k = (l.drop i).take k := by
  subst h
  refine List.ext_getElem? fun j => ?_
  simp only [bytes_getElem?, List.getElem?_take, List.getElem?_drop]
  by_cases hj : j < k
  · simp [hj, show i + j < n by omega, Nat.add_assoc]
  · simp [hj]

def le16 (n : Nat) : List Byte := [BitVec.ofNat 8 n, BitVec.ofNat 8 (n / 256)]

def le32 (n : Nat) : List Byte := le16 n ++ le16 (n / 65536)

/-- The number whose little-endian bytes are given. -/
def ofLe : List Byte → Nat
  | [] => 0
  | b :: bs => b.toNat + 256 * ofLe bs

@[simp] theorem le16_length (n : Nat) : (le16 n).length = 2 := rfl

@[simp] theorem le32_length (n : Nat) : (le32 n).length = 4 := rfl

theorem ofLe_le16 {n : Nat} (h : n < 65536) : ofLe (le16 n) = n := by
  simp only [le16, ofLe, BitVec.toNat_ofNat]
  omega

theorem ofLe_le32 {n : Nat} (h : n < 4294967296) : ofLe (le32 n) = n := by
  simp only [le32, le16, List.cons_append, List.nil_append, ofLe, BitVec.toNat_ofNat]
  omega

theorem ofLe_lt (l : List Byte) : ofLe l < 256 ^ l.length := by
  induction l with
  | nil => simp [ofLe]
  | cons b bs ih =>
    have := b.isLt
    simp only [ofLe, List.length_cons, Nat.pow_succ]
    omega

/-- The bytes `l` stored from address `a` on. -/
def storeBytes (f : Nat → Byte) (a : Nat) (l : List Byte) : Nat → Byte := fun x =>
  if a ≤ x ∧ x < a + l.length then l.getD (x - a) 0 else f x

theorem storeBytes_outside {f : Nat → Byte} {a x : Nat} {l : List Byte} (h : x < a ∨ a + l.length ≤ x) :
    storeBytes f a l x = f x := if_neg (by omega)

theorem bytes_storeBytes (f : Nat → Byte) (a : Nat) (l : List Byte) : bytes (storeBytes f a l) a l.length = l := by
  rw [bytes_eq_iff]
  intro i hi
  unfold storeBytes
  rw [if_pos ⟨Nat.le_add_right a i, by omega⟩, Nat.add_sub_cancel_left, List.getD, List.getElem?_eq_getElem hi]
  rfl

theorem storeBytes_apply (f : Nat → Byte) (a : Nat) (l : List Byte) (i : Nat) :
    storeBytes f a l (a + i) = l[i]?.getD (f (a + i)) := by
  by_cases h : i < l.length
  · simp [storeBytes, h]
  · rw [storeBytes_outside (by omega), List.getElem?_eq_none (by omega), Option.getD_none]

@[simp] theorem storeBytes_nil (f : Nat → Byte) (a : Nat) : storeBytes f a [] = f := by
  funext x
  exact storeBytes_outside (by simp; omega)

/-- Byte by byte. -/
theorem storeBytes_cons (f : Nat → Byte) (a : Nat) (b : Byte) (l : List Byte) :
    storeBytes f a (b :: l) = storeBytes (Function.update f a b) (a + 1) l := by
  funext x
  by_cases hx : x = a
  · have hleft : storeBytes (Function.update f a b) (a + 1) l a = b := by
      rw [storeBytes_outside (by omega), Function.update_self]
    rw [hx, hleft]
    simp [storeBytes]
  · by_cases hin : a ≤ x ∧ x < a + (b :: l).length
    · have hin' : a + 1 ≤ x ∧ x < a + 1 + l.length := by
        rw [List.length_cons] at hin
        omega
      have hsub : x - a = x - (a + 1) + 1 := by omega
      unfold storeBytes
      rw [if_pos hin, if_pos hin', hsub, List.getD_cons_succ]
    · rw [storeBytes_outside (by omega), storeBytes_outside (by rw [List.length_cons] at hin; omega),
        Function.update_of_ne hx]

/-- 32-bit unsigned results. -/
def u32 (n : Nat) : Nat := n % 4294967296

def u32Sub (a b : Nat) : Nat := u32 (a + 4294967296 - u32 b)

theorem u32_eq {n : Nat} (h : n < 4294967296) : u32 n = n := Nat.mod_eq_of_lt h

theorem u32Sub_eq {a b : Nat} (h : b ≤ a) (ha : a < 4294967296) : u32Sub a b = a - b := by
  unfold u32Sub u32
  omega

end Rf4ce.Crash
