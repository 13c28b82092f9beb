import Mathlib.Data.List.Basic
import Mathlib.Data.List.Induction
import Mathlib.Data.Nat.ModEq
import Mathlib.Logic.Function.Basic

/-! Arrays that are filled round and round: a stream of values is stored at positions modulo the
size. -/
namespace Rf4ce.Refine

variable {α : Type}

/-- The values `xs` are stored from position `r` on, modulo `n`. -/
def storeWrapped (n : Nat) : (Nat → α) → Nat → List α → Nat → α
  | f, _, [] => f
  | f, r, x :: xs => storeWrapped n (Function.update f (r % n) x) (r + 1) xs

/-- The last number below `k` that is `i` modulo `n`. -/
def lastAt (n k i : Nat) : Nat := i + n * ((k - 1 - i) / n)

variable {n : Nat}

theorem storeWrapped_append (f : Nat → α) (r : Nat) (xs ys : List α) :
    storeWrapped n f r (xs ++ ys) = storeWrapped n (storeWrapped n f r xs) (r + xs.length) ys := by
  induction xs generalizing f r with
  | nil => rfl
  | cons x xs ih =>
    rw [List.cons_append, storeWrapped, ih, storeWrapped, List.length_cons, Nat.add_assoc r, Nat.add_comm 1]

/-- Only the position modulo the size matters. -/
theorem storeWrapped_congr {f : Nat → α} {r r' : Nat} (h : r % n = r' % n) (xs : List α) :
    storeWrapped n f r xs = storeWrapped n f r' xs := by
  induction xs generalizing f r r' with
  | nil => rfl
  | cons x xs ih =>
    have hnext : (r + 1) % n = (r' + 1) % n := Nat.ModEq.add_right 1 h
    rw [storeWrapped, storeWrapped, h, ih hnext]

theorem lastAt_lt {k i : Nat} (h : i < k) : lastAt n k i < k := by
  have := Nat.mul_div_le (k - 1 - i) n
  unfold lastAt
  omega

theorem lastAt_of_ge {k i : Nat} (h : k ≤ i) : lastAt n k i = i := by
  have hzero : k - 1 - i = 0 := by omega
  unfold lastAt
  rw [hzero, Nat.zero_div, Nat.mul_zero, Nat.add_zero]

theorem lastAt_of_le {k i : Nat} (hk : k ≤ n) : lastAt n k i = i := by
  by_cases hki : k ≤ i
  · exact lastAt_of_ge hki
  · unfold lastAt
    rw [Nat.div_eq_of_lt (by omega), Nat.mul_zero, Nat.add_zero]

theorem lastAt_self (k : Nat) : lastAt n (k + 1) (k % n) = k := by
  unfold lastAt
  rw [Nat.add_sub_cancel, ← Nat.div_eq_sub_mod_div, Nat.mod_add_div]

theorem lastAt_succ {k i : Nat} (hi : i < n) (hne : k % n ≠ i) : lastAt n (k + 1) i = lastAt n k i := by
  by_cases hki : k ≤ i
  · have hlt : k + 1 ≤ i := by
      have hkn : k ≠ i := fun h => hne (by rw [h, Nat.mod_eq_of_lt hi])
      omega
    rw [lastAt_of_ge hlt, lastAt_of_ge hki]
  · obtain ⟨d, rfl⟩ := Nat.exists_eq_add_of_lt (Nat.not_le.mp hki)
    have hndvd : ¬n ∣ d + 1 := by
      rintro ⟨q, hq⟩
      apply hne
      rw [Nat.add_assoc, hq, Nat.add_mul_mod_self_left, Nat.mod_eq_of_lt hi]
    have hnew : i + d + 1 + 1 - 1 - i = d + 1 := by omega
    have hold : i + d + 1 - 1 - i = d := by omega
    unfold lastAt
    rw [hnew, hold, Nat.succ_div_of_not_dvd hndvd]

/-- A position holds the last value that was stored there. -/
theorem storeWrapped_apply (f : Nat → α) (xs : List α) {i : Nat} (hi : i < n) :
    storeWrapped n f 0 xs i = xs[lastAt n xs.length i]?.getD (f i) := by
  induction xs using List.reverseRecOn with
  | nil => simp [storeWrapped]
  | append_singleton xs x ih =>
    rw [storeWrapped_append, List.length_append, List.length_singleton, Nat.zero_add]
    simp only [storeWrapped]
    by_cases hlast : xs.length % n = i
    · subst hlast
      rw [lastAt_self, Function.update_self, List.getElem?_append_right (Nat.le_refl _)]
      simp
    · rw [Function.update_of_ne (Ne.symm hlast), ih, lastAt_succ hi hlast]
      congr 1
      by_cases hil : i < xs.length
      · rw [List.getElem?_append_left (lastAt_lt hil)]
      · have hlt : xs.length < i := by
          have hne : xs.length ≠ i := fun h => hlast (by rw [h, Nat.mod_eq_of_lt hi])
          omega
        have hout : xs[i]? = none := List.getElem?_eq_none (Nat.le_of_lt hlt)
        have hout' : (xs ++ [x])[i]? = none := by
          apply List.getElem?_eq_none
          rw [List.length_append]
          exact hlt
        rw [lastAt_of_ge (Nat.le_of_lt hlt), hout, hout']

/-- The first `m` positions hold the first `m` values where each of these was the last one stored at
its position, or equal to it. -/
theorem storeWrapped_take (f : Nat → α) (xs : List α) {m : Nat} (hm : m ≤ n) :
    (List.range m).map (storeWrapped n f 0 xs) = xs.take m ↔
      m ≤ xs.length ∧ ∀ j < m, xs[lastAt n xs.length j]? = xs[j]? := by
  have hget {j : Nat} (hj : j < m) (hlen : m ≤ xs.length) :
      some (storeWrapped n f 0 xs j) = xs[lastAt n xs.length j]? := by
    have hlast : lastAt n xs.length j < xs.length := lastAt_lt (by omega)
    rw [storeWrapped_apply f xs (by omega), List.getElem?_eq_getElem hlast]
    rfl
  constructor
  · intro h
    have hlen : m ≤ xs.length := by
      have := congrArg List.length h
      simp at this
      exact this
    refine ⟨hlen, fun j hj => ?_⟩
    have hj' := congrArg (fun l => l[j]?) h
    simp only [List.getElem?_map, List.getElem?_range hj, List.getElem?_take, if_pos hj, Option.map_some] at hj'
    rw [← hget hj hlen, hj']
  · rintro ⟨hlen, hvalues⟩
    refine List.ext_getElem? fun j => ?_
    by_cases hj : j < m
    · rw [List.getElem?_map, List.getElem?_range hj, List.getElem?_take, if_pos hj, Option.map_some,
        hget hj hlen, hvalues j hj]
    · rw [List.getElem?_eq_none (by simp; omega), List.getElem?_eq_none (by simp; omega)]

end Rf4ce.Refine
