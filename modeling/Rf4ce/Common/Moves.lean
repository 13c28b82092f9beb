import Rf4ce.Crash.Bytes

/-! The moves of `string.c`. An address is a natural number: no object reaches over the end of the
memory, so that no pointer wraps. -/
namespace Rf4ce.Common
open Crash (Byte)

/-- `while (n--) *d++ = *s++;` -/
def copyUp : Nat → Nat → Nat → (Nat → Byte) → Nat → Byte
  | 0, _, _, m => m
  | n + 1, d, s, m => copyUp n (d + 1) (s + 1) (Function.update m d (m s))

/-- `while (len--) *lastd-- = *lasts--;` -/
def copyDown : Nat → Nat → Nat → (Nat → Byte) → Nat → Byte
  | 0, _, _, m => m
  | len + 1, lastd, lasts, m => copyDown len (lastd - 1) (lasts - 1) (Function.update m lastd (m lasts))

/-- The memory afterwards and the pointer that is returned. -/
def memmove (dest src n : Nat) (m : Nat → Byte) : (Nat → Byte) × Nat := (copyUp n dest src m, dest)

def bcopy (src dest len : Nat) (m : Nat → Byte) : Nat → Byte :=
  if dest < src then copyUp len dest src m
  else
    let lasts := src + (len - 1)
    let lastd := dest + (len - 1)
    copyDown len lastd lasts m

/-- The destination holds what the source held, and nothing else has changed. -/
structure Moved (dest src n : Nat) (m m' : Nat → Byte) : Prop where
  copied : ∀ i < n, m' (dest + i) = m (src + i)
  others : ∀ x, x < dest ∨ dest + n ≤ x → m' x = m x

/-- Where a destination above the source covers it, the source repeats itself. -/
def Repeats (dest src n : Nat) (m : Nat → Byte) : Prop :=
  src < dest → ∀ x, dest ≤ x → x < src + n → m x = m (x - (dest - src))

section Proof
variable {n d s : Nat} {m : Nat → Byte}

theorem copyUp_outside {x : Nat} (hx : x < d ∨ d + n ≤ x) : copyUp n d s m x = m x := by
  induction n generalizing d s m with
  | zero => rfl
  | succ n ih =>
    have hne : x ≠ d := by omega
    rw [copyUp, ih (by omega), Function.update_of_ne hne]

/-- A source byte is the original one when it is read: it has not been written, or with the byte that
was there. -/
theorem copyUp_moved (h : Repeats d s n m) : Moved d s n m (copyUp n d s m) := by
  induction n generalizing d s m with
  | zero => exact ⟨fun i hi => absurd hi (Nat.not_lt_zero i), fun _ _ => rfl⟩
  | succ n ih =>
    have hunread {y : Nat} (h₁ : s < y) (h₂ : y ≤ s + n) : Function.update m d (m s) y = m y := by
      by_cases hy : y = d
      · have hsame := h (by omega) d (Nat.le_refl d) (by omega)
        rw [show d - (d - s) = s by omega] at hsame
        rw [hy, Function.update_self, hsame]
      · exact Function.update_of_ne hy _ _
    have hrest : Repeats (d + 1) (s + 1) n (Function.update m d (m s)) := by
      intro hlt x h₁ h₂
      have hne : x ≠ d := by omega
      have hsame := h (by omega) x (by omega) (by omega)
      rw [Function.update_of_ne hne, hsame, show d + 1 - (s + 1) = d - s by omega, hunread (by omega) (by omega)]
    have hmoved := ih hrest
    rw [copyUp]
    constructor
    · intro i hi
      cases i with
      | zero => rw [hmoved.others _ (by omega), Nat.add_zero, Nat.add_zero, Function.update_self]
      | succ i =>
        have hcopied := hmoved.copied i (by omega)
        rw [hunread (by omega) (by omega)] at hcopied
        rw [show d + (i + 1) = d + 1 + i by omega, hcopied, show s + 1 + i = s + (i + 1) by omega]
    · intro x hx
      have hne : x ≠ d := by omega
      rw [hmoved.others x (by omega), Function.update_of_ne hne]

/-- Copying upwards repeats the source in the part of the destination that it covers. -/
theorem copyUp_echo (h : s < d) {i : Nat} (hi : i < n) : copyUp n d s m (d + i) = copyUp n d s m (s + i) := by
  induction n generalizing d s m i with
  | zero => omega
  | succ n ih =>
    rw [copyUp]
    cases i with
    | zero =>
      have hne : s ≠ d := by omega
      rw [copyUp_outside (by omega), copyUp_outside (by omega)]
      change Function.update m d (m s) d = Function.update m d (m s) s
      rw [Function.update_self, Function.update_of_ne hne]
    | succ i =>
      have hnext := @ih (d + 1) (s + 1) (Function.update m d (m s)) (by omega) i (by omega)
      rw [show d + (i + 1) = d + 1 + i by omega, hnext, show s + (i + 1) = s + 1 + i by omega]

theorem copyUp_moved_iff : Moved d s n m (copyUp n d s m) ↔ Repeats d s n m := by
  constructor
  · intro h hlt x h₁ h₂
    -- the byte at `x` is read behind the bytes from `d` on have been written
    obtain ⟨j, rfl⟩ := Nat.exists_eq_add_of_le h₁
    obtain ⟨k, rfl⟩ := Nat.exists_eq_add_of_lt hlt
    have hread := h.copied (k + 1 + j) (by omega)
    have hecho := @copyUp_echo n (s + k + 1) s m hlt (k + 1 + j) (by omega)
    have hwritten := h.copied j (by omega)
    rw [hread, show s + (k + 1 + j) = s + k + 1 + j by omega, hwritten] at hecho
    rw [hecho]
    congr 1
    omega
  · exact copyUp_moved

/-- From the last byte on down no byte of a source below is written before it is read. -/
theorem copyDown_moved (h : s ≤ d) {a b : Nat} (hab : 0 < n → a + 1 = d + n ∧ b + 1 = s + n) :
    Moved d s n m (copyDown n a b m) := by
  induction n generalizing a b m with
  | zero => exact ⟨fun i hi => absurd hi (Nat.not_lt_zero i), fun _ _ => rfl⟩
  | succ n ih =>
    obtain ⟨ha, hb⟩ := hab (Nat.succ_pos n)
    obtain rfl : a = d + n := by omega
    obtain rfl : b = s + n := by omega
    have hmoved := @ih (Function.update m (d + n) (m (s + n))) (d + n - 1) (s + n - 1) (by omega)
    rw [copyDown]
    constructor
    · intro i hi
      rcases Nat.lt_succ_iff_lt_or_eq.mp hi with hlt | rfl
      · have hne : s + i ≠ d + n := by omega
        rw [hmoved.copied i hlt, Function.update_of_ne hne]
      · rw [hmoved.others _ (by omega), Function.update_self]
    · intro x hx
      have hne : x ≠ d + n := by omega
      rw [hmoved.others x (by omega), Function.update_of_ne hne]

end Proof

/-- `bcopy` moves whatever way the ranges overlap. -/
theorem bcopy_moved (src dest len : Nat) (m : Nat → Byte) : Moved dest src len m (bcopy src dest len m) := by
  unfold bcopy
  split_ifs with hlt
  · exact copyUp_moved fun h => absurd h (Nat.lt_asymm hlt)
  · exact copyDown_moved (Nat.not_lt.mp hlt) fun hpos => (by omega)

/-- Both functions move exactly if the source repeats itself where a destination above covers it. -/
theorem moves_iff (dest src n : Nat) (m : Nat → Byte) :
    Moved dest src n m (memmove dest src n m).1 ∧ Moved dest src n m (bcopy src dest n m) ↔ Repeats dest src n m := by
  rw [and_iff_left (bcopy_moved src dest n m)]
  exact copyUp_moved_iff

/-- Two bytes moved one up: the second one is read after it has been overwritten. -/
theorem memmove_overwrites :
    ¬ (Moved 1 0 2 (BitVec.ofNat 8) (memmove 1 0 2 (BitVec.ofNat 8)).1 ∧
      Moved 1 0 2 (BitVec.ofNat 8) (bcopy 0 1 2 (BitVec.ofNat 8))) := by
  intro h
  have hlast : (memmove 1 0 2 (BitVec.ofNat 8)).1 2 = BitVec.ofNat 8 1 := h.1.copied 1 (by decide)
  exact absurd hlast (by decide)

end Rf4ce.Common
