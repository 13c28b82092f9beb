import Rf4ce.Common.Bits
import Rf4ce.Refine.Lossy
import Mathlib.Data.List.FinRange
import Mathlib.Data.Fintype.Basic
import Mathlib.Logic.Equiv.Defs

/-! The key matrix of `keyboard.c`: ghost removal, debounce and the ring of changed matrices that
`kb_scan_key` reads from. A matrix has one row of scan pins for each drive pin. -/
namespace Rf4ce.Drv
open Refine Common

abbrev KeyMatrix (n : Nat) := Fin n → BitVec 32

/-- `BIT_IS_POW2` -/
def bitIsPow2 (x : BitVec 32) : Bool := x &&& (x - 1) = 0

section Code
variable {n : Nat}

/-- The body of the loop over `j` in `kb_rmv_ghost_key`. -/
def ghostMix (mixFinal rowI rowJ : BitVec 32) : BitVec 32 :=
  let mix := rowI &&& rowJ
  if mix ≠ 0 ∧ (bitIsPow2 mix = false ∨ rowI ^^^ rowJ ≠ 0) then mixFinal ||| mix else mixFinal

/-- The rows `j = i + 1, …` of the inner loop. -/
def laterRows (i : Fin n) : List (Fin n) := (List.finRange n).filter (i < ·)

/-- The body of the loop over `i`, on `pressed_matrix` and `mix_final`. -/
def ghostRow (s : KeyMatrix n × BitVec 32) (i : Fin n) : KeyMatrix n × BitVec 32 :=
  let mixFinal := (laterRows i).foldl (fun mix j => ghostMix mix (s.1 i) (s.1 j)) s.2
  (Function.update s.1 i (s.1 i &&& ~~~mixFinal), mixFinal)

def kbRmvGhostKey (m : KeyMatrix n) : KeyMatrix n := ((List.finRange n).foldl ghostRow (m, 0)).1

/-- `kb_data_t` -/
structure KbData where
  cnt : Nat
  ctrlKey : BitVec 8
  keycode : List (BitVec 8)
deriving DecidableEq, Repr

/-- The static variables: the histories of `key_debounce_filter`, the ring of matrices, what
`kb_key_pressed` remembers, and `kb_event`. -/
structure Kb (n : Nat) where
  mtrxPre : KeyMatrix n
  mtrxLast : KeyMatrix n
  matrixBuff : Nat → KeyMatrix n
  matrixWptr : BitVec 32
  matrixRptr : BitVec 32
  releaseCnt : BitVec 8
  retLast : BitVec 32
  kbEvent : KbData

def Kb.initial : Kb n where
  mtrxPre _ := 0
  mtrxLast _ := 0
  matrixBuff _ _ := 0
  matrixWptr := 0
  matrixRptr := 0
  releaseCnt := 0
  retLast := 0
  kbEvent := ⟨0, 0, []⟩

section Scan
variable (map : Nat → Nat → BitVec 8) (scanPins : Nat)

end Scan

end Code

/-! ### Ghost removal -/

section Ghost
variable {n : Nat}

/-- Column `c` is set in both rows, and the rows share two columns or differ. -/
def GhostPair (a b : BitVec 32) (c : Nat) : Prop :=
  a.getLsbD c = true ∧ b.getLsbD c = true ∧ (2 ≤ (setBits a ∩ setBits b).card ∨ a ≠ b)

theorem ghostMix_bit (mix a b : BitVec 32) (c : Nat) :
    (ghostMix mix a b).getLsbD c = true ↔ mix.getLsbD c = true ∨ GhostPair a b c := by
  have hxor : a ^^^ b ≠ 0 ↔ a ≠ b := not_congr BitVec.xor_eq_zero_iff
  unfold ghostMix GhostPair
  dsimp only
  by_cases hne : a &&& b = 0
  · have hclear : ¬(a.getLsbD c = true ∧ b.getLsbD c = true) := by
      intro hset
      have hbit : (a &&& b).getLsbD c = true := by simpa using hset
      rw [hne] at hbit
      simp at hbit
    rw [if_neg fun h => h.1 hne]
    constructor
    · exact Or.inl
    · intro h
      rcases h with h | h
      · exact h
      · exact absurd ⟨h.1, h.2.1⟩ hclear
  · have htest : bitIsPow2 (a &&& b) = false ↔ 2 ≤ (setBits a ∩ setBits b).card := by
      rw [← setBits_and, ← and_sub_one_ne_zero hne]
      simp [bitIsPow2]
    simp only [htest, hxor]
    split_ifs with hghost
    · simp [hghost.2]
    · have hnot : ¬(2 ≤ (setBits a ∩ setBits b).card ∨ a ≠ b) := fun h => hghost ⟨hne, h⟩
      simp [hnot]

theorem ghostMix_foldl_bit (a : BitVec 32) (m : KeyMatrix n) (l : List (Fin n)) (mix : BitVec 32) (c : Nat) :
    (l.foldl (fun mix j => ghostMix mix a (m j)) mix).getLsbD c = true ↔
      mix.getLsbD c = true ∨ ∃ j ∈ l, GhostPair a (m j) c := by
  induction l generalizing mix with
  | nil => simp
  | cons j l ih =>
    rw [List.foldl_cons, ih, ghostMix_bit]
    simp [or_assoc]

theorem ghostRow_mix (s : KeyMatrix n × BitVec 32) (i : Fin n) (c : Nat) :
    (ghostRow s i).2.getLsbD c = true ↔ s.2.getLsbD c = true ∨ ∃ j, i < j ∧ GhostPair (s.1 i) (s.1 j) c := by
  have h := ghostMix_foldl_bit (s.1 i) s.1 (laterRows i) s.2 c
  simpa [ghostRow, laterRows] using h

theorem ghostRow_self (s : KeyMatrix n × BitVec 32) (i : Fin n) (c : Nat) :
    ((ghostRow s i).1 i).getLsbD c = true ↔ (s.1 i).getLsbD c = true ∧ ¬(ghostRow s i).2.getLsbD c = true := by
  have hlt : (s.1 i).getLsbD c = true → c < 32 := BitVec.lt_of_getLsbD
  unfold ghostRow
  simp only [Function.update_self, BitVec.getLsbD_and, BitVec.getLsbD_not, Bool.and_eq_true]
  constructor
  · intro h
    simpa [hlt h.1] using h
  · intro h
    simpa [hlt h.1] using h

theorem ghostRow_other (s : KeyMatrix n × BitVec 32) {i j : Fin n} (h : j ≠ i) : (ghostRow s i).1 j = s.1 j :=
  Function.update_of_ne h _ _

/-- Up to row `i`, a row of `l` forms a ghost in column `c` with a row after itself. -/
def GhostBefore (m : KeyMatrix n) (l : List (Fin n)) (i : Fin n) (c : Nat) : Prop :=
  ∃ k ∈ l, k ≤ i ∧ ∃ j, k < j ∧ GhostPair (m k) (m j) c

theorem ghostBefore_congr {m m' : KeyMatrix n} {k : Fin n} {l : List (Fin n)} (hl : ∀ k' ∈ l, k < k')
    (h : ∀ j, k < j → m' j = m j) (i : Fin n) (c : Nat) : GhostBefore m' l i c ↔ GhostBefore m l i c := by
  have hpair : ∀ k' ∈ l, ∀ j, k' < j → (GhostPair (m' k') (m' j) c ↔ GhostPair (m k') (m j) c) := by
    intro k' hk' j hj
    rw [h k' (hl k' hk'), h j (Fin.lt_trans (hl k' hk') hj)]
  constructor
  · rintro ⟨k', hk', hle, j, hj, hg⟩
    exact ⟨k', hk', hle, j, hj, (hpair k' hk' j hj).mp hg⟩
  · rintro ⟨k', hk', hle, j, hj, hg⟩
    exact ⟨k', hk', hle, j, hj, (hpair k' hk' j hj).mpr hg⟩

theorem ghostRow_foldl_other (l : List (Fin n)) (s : KeyMatrix n × BitVec 32) {i : Fin n} (h : i ∉ l) :
    (l.foldl ghostRow s).1 i = s.1 i := by
  induction l generalizing s with
  | nil => rfl
  | cons k l ih =>
    rw [List.mem_cons, not_or] at h
    rw [List.foldl_cons, ih _ h.2, ghostRow_other s h.1]

/-- A row is read only before it is cleared, so that every mask comes from the original rows. -/
theorem ghostRow_foldl_bit {l : List (Fin n)} (hl : l.Pairwise (· < ·)) (s : KeyMatrix n × BitVec 32)
    {i : Fin n} (hi : i ∈ l) (c : Nat) :
    ((l.foldl ghostRow s).1 i).getLsbD c = true ↔
      (s.1 i).getLsbD c = true ∧ ¬(s.2.getLsbD c = true ∨ GhostBefore s.1 l i c) := by
  induction l generalizing s with
  | nil => cases hi
  | cons k l ih =>
    obtain ⟨hk, hl⟩ := List.pairwise_cons.mp hl
    rw [List.foldl_cons]
    by_cases hik : i = k
    · subst hik
      have hnot : i ∉ l := fun hmem => absurd (hk i hmem) (Fin.lt_irrefl i)
      have hbefore : GhostBefore s.1 (i :: l) i c ↔ ∃ j, i < j ∧ GhostPair (s.1 i) (s.1 j) c := by
        constructor
        · rintro ⟨k, hmem, hle, hj⟩
          rcases List.mem_cons.mp hmem with rfl | hmem
          · exact hj
          · exact absurd (hk k hmem) (Fin.not_lt.mpr hle)
        · intro hj
          exact ⟨i, List.mem_cons_self .., Fin.le_refl i, hj⟩
      rw [ghostRow_foldl_other l _ hnot, ghostRow_self, ghostRow_mix, hbefore]
    · have hmem : i ∈ l := (List.mem_cons.mp hi).resolve_left hik
      have hki : k ≤ i := Fin.le_of_lt (hk i hmem)
      have hkept := ghostBefore_congr hk (fun j hj => ghostRow_other s (Fin.ne_of_gt hj)) i c
      have hbefore : GhostBefore s.1 (k :: l) i c ↔
          (∃ j, k < j ∧ GhostPair (s.1 k) (s.1 j) c) ∨ GhostBefore s.1 l i c := by
        simp [GhostBefore, hki]
      rw [ih hl _ hmem, ghostRow_other s hik, ghostRow_mix, hkept, hbefore, or_assoc]

theorem kbRmvGhostKey_bit (m : KeyMatrix n) (i : Fin n) (c : Nat) :
    (kbRmvGhostKey m i).getLsbD c = true ↔
      (m i).getLsbD c = true ∧ ¬GhostBefore m (List.finRange n) i c := by
  have h := ghostRow_foldl_bit (List.pairwise_lt_finRange n) (m, 0) (List.mem_finRange i) c
  simpa [kbRmvGhostKey] using h

theorem GhostPair.symm {a b : BitVec 32} {c : Nat} (h : GhostPair a b c) : GhostPair b a c := by
  obtain ⟨ha, hb, hghost⟩ := h
  refine ⟨hb, ha, ?_⟩
  rwa [Finset.inter_comm, ne_comm]

/-- A third row that shares the column with a ghost pair forms a ghost with one of the two. -/
theorem GhostPair.third {a b x : BitVec 32} {c : Nat} (h : GhostPair a b c) (hx : x.getLsbD c = true) :
    GhostPair x a c ∨ GhostPair x b c := by
  obtain ⟨ha, hb, hghost⟩ := h
  by_cases hxa : x = a
  · subst hxa
    exact Or.inr ⟨hx, hb, hghost⟩
  · exact Or.inl ⟨hx, ha, Or.inr hxa⟩

/-- Masks of other pairs of rows clear nothing that the row's own pairs do not clear. -/
theorem ghostBefore_iff (m : KeyMatrix n) {i : Fin n} {c : Nat} (hset : (m i).getLsbD c = true) :
    GhostBefore m (List.finRange n) i c ↔ ∃ j, j ≠ i ∧ GhostPair (m i) (m j) c := by
  constructor
  · rintro ⟨k, -, hki, j, hkj, hg⟩
    by_cases hk : k = i
    · subst hk
      exact ⟨j, Fin.ne_of_gt hkj, hg⟩
    · by_cases hj : j = i
      · subst hj
        exact ⟨k, hk, hg.symm⟩
      · rcases hg.third hset with h | h
        · exact ⟨k, hk, h⟩
        · exact ⟨j, hj, h⟩
  · rintro ⟨j, hj, hg⟩
    rcases Fin.lt_or_lt_of_ne hj with hlt | hlt
    · exact ⟨j, List.mem_finRange j, Fin.le_of_lt hlt, i, hlt, hg.symm⟩
    · exact ⟨i, List.mem_finRange i, Fin.le_refl i, j, hlt, hg⟩

theorem kbRmvGhostKey_kept (m : KeyMatrix n) (i : Fin n) (c : Nat) :
    (kbRmvGhostKey m i).getLsbD c = true ↔
      (m i).getLsbD c = true ∧ ¬∃ j, j ≠ i ∧ GhostPair (m i) (m j) c := by
  rw [kbRmvGhostKey_bit]
  constructor
  · intro h
    exact ⟨h.1, (not_congr (ghostBefore_iff m h.1)).mp h.2⟩
  · intro h
    exact ⟨h.1, (not_congr (ghostBefore_iff m h.1)).mpr h.2⟩

/-- What is cleared depends on the original rows alone, and not on their order. -/
theorem kbRmvGhostKey_cleared (m : KeyMatrix n) :
    (∀ i c, (kbRmvGhostKey m i).getLsbD c = true → (m i).getLsbD c = true) ∧
    (∀ i c, (m i).getLsbD c = true ∧ (kbRmvGhostKey m i).getLsbD c = false ↔
      (m i).getLsbD c = true ∧ ∃ j, j ≠ i ∧ (m j).getLsbD c = true ∧
        (2 ≤ (setBits (m i) ∩ setBits (m j)).card ∨ m i ≠ m j)) ∧
    ∀ order : Equiv.Perm (Fin n), kbRmvGhostKey (m ∘ order) = kbRmvGhostKey m ∘ order := by
  refine ⟨fun i c h => ((kbRmvGhostKey_kept m i c).mp h).1, fun i c => ?_, fun order => ?_⟩
  · have hkept := kbRmvGhostKey_kept m i c
    constructor
    · rintro ⟨hset, hclear⟩
      by_contra hnone
      refine absurd (hkept.mpr ⟨hset, ?_⟩) (by simp [hclear])
      rintro ⟨j, hj, -, hb, hghost⟩
      exact hnone ⟨hset, j, hj, hb, hghost⟩
    · rintro ⟨hset, j, hj, hb, hghost⟩
      refine ⟨hset, ?_⟩
      have hnot : ¬(kbRmvGhostKey m i).getLsbD c = true := fun h => (hkept.mp h).2 ⟨j, hj, hset, hb, hghost⟩
      simpa using hnot
  · funext i
    apply BitVec.eq_of_getLsbD_eq
    intro c _
    have hpairs : (∃ j, j ≠ i ∧ GhostPair ((m ∘ order) i) ((m ∘ order) j) c) ↔
        ∃ j, j ≠ order i ∧ GhostPair (m (order i)) (m j) c := by
      constructor
      · rintro ⟨j, hj, hg⟩
        exact ⟨order j, fun h => hj (order.injective h), hg⟩
      · rintro ⟨j, hj, hg⟩
        refine ⟨order.symm j, fun h => hj (by rw [← h, Equiv.apply_symm_apply]), ?_⟩
        simpa using hg
    rw [Bool.eq_iff_iff, Function.comp_apply, kbRmvGhostKey_kept, kbRmvGhostKey_kept, hpairs]
    rfl

end Ghost

/-! ### Debounce and the ring of changed matrices -/

section Pipeline
variable {n : Nat}

section Scan
variable (map : Nat → Nat → BitVec 8) (scanPins : Nat)

end Scan

end Pipeline

end Rf4ce.Drv
