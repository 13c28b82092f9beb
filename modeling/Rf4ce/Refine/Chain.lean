import Mathlib.Data.BitVec
import Mathlib.Data.Fintype.Card
import Mathlib.Data.List.MinMax
import Mathlib.Data.List.Nodup
import Mathlib.Data.List.Sort
import Mathlib.Data.List.TakeWhile
import Mathlib.Logic.Function.Basic

/-! Chains of nodes that each hold the address of the next one, and lists ordered by priority and
by arrival among equals. -/
namespace Rf4ce.Refine

/-! ### Chains -/

section Chains
variable {α : Type} {next : α → α}

/-- The way along `next` from `p` meets the nodes `l` and then reaches `q`. -/
def Links (next : α → α) : α → List α → α → Prop
  | p, [], q => p = q
  | p, a :: l, q => p = a ∧ Links next (next a) l q

theorem Links.append {p q r : α} {l m : List α} (hl : Links next p l q) (hm : Links next q m r) :
    Links next p (l ++ m) r := by
  induction l generalizing p with
  | nil =>
    cases hl
    exact hm
  | cons a l ih => exact ⟨hl.1, ih hl.2⟩

theorem Links.of_append {p r : α} {l m : List α} (h : Links next p (l ++ m) r) :
    ∃ q, Links next p l q ∧ Links next q m r := by
  induction l generalizing p with
  | nil => exact ⟨p, rfl, h⟩
  | cons a l ih =>
    obtain ⟨q, hl, hm⟩ := ih h.2
    exact ⟨q, ⟨h.1, hl⟩, hm⟩

theorem Links.snoc {p a r : α} {l : List α} (h : Links next p (l ++ [a]) r) :
    Links next p l a ∧ next a = r := by
  obtain ⟨q, hl, rfl, hr⟩ := h.of_append
  exact ⟨hl, hr⟩

/-- A way starts at its first node, or at its end. -/
theorem Links.start {p q : α} {l : List α} (h : Links next p l q) : p = l.headD q := by
  cases l with
  | nil => exact h
  | cons a l => exact h.1

theorem snoc_apart {a : α} {l : List α} (h : (l ++ [a]).Nodup) : a ∉ l :=
  fun hmem => List.disjoint_of_nodup_append h hmem (List.mem_singleton_self a)

/-- The last node of the part `l ++ [a]` is nowhere else. -/
theorem last_apart {a : α} {l m : List α} (h : (l ++ [a] ++ m).Nodup) : a ∉ l ∧ a ∉ m := by
  constructor
  · exact snoc_apart (List.nodup_append.mp h).1
  · exact List.disjoint_of_nodup_append h (List.mem_append_right l (List.mem_singleton_self a))

/-- A chain through addresses of `n` bits is shorter than their number: it does not meet NULL. -/
theorem nodup_length_lt {n : Nat} {l : List (BitVec n)} (hnd : l.Nodup) (hnull : 0 ∉ l) : l.length < 2 ^ n := by
  have hfin : ((0 :: l).map BitVec.toFin).Nodup := by
    apply List.Nodup.map
    · intro a b hab
      exact BitVec.eq_of_toFin_eq hab
    · exact List.nodup_cons.mpr ⟨hnull, hnd⟩
  have hle := hfin.length_le_card
  rw [List.length_map, List.length_cons, Fintype.card_fin] at hle
  exact hle

variable [DecidableEq α]

/-- A store into a node that is not met leaves the way as it was. -/
theorem Links.update_off {p q a v : α} {l : List α} (h : Links next p l q) (ha : a ∉ l) :
    Links (Function.update next a v) p l q := by
  induction l generalizing p with
  | nil => exact h
  | cons b l ih =>
    obtain ⟨rfl, h⟩ := h
    rw [List.mem_cons, not_or] at ha
    refine ⟨rfl, ?_⟩
    rw [Function.update_of_ne (Ne.symm ha.1)]
    exact ih h ha.2

/-- A store into the last node of a way gives it a new end. -/
theorem Links.update_last {p q a v : α} {l : List α} (h : Links next p (l ++ [a]) q) (ha : a ∉ l) :
    Links (Function.update next a v) p (l ++ [a]) v := by
  have hl : Links (Function.update next a v) p l a := h.snoc.1.update_off ha
  have hv : Function.update next a v a = v := Function.update_self a v next
  exact hl.append ⟨rfl, hv⟩

/-- A node is linked in behind `a`. -/
theorem Links.insert {p q r a b : α} {l m : List α} (hl : Links next p (l ++ [a]) q) (hm : Links next q m r)
    (ha : a ∉ l) (ham : a ∉ m) (hbl : b ∉ l ++ [a]) (hbm : b ∉ m) :
    Links (Function.update (Function.update next a b) b q) p (l ++ [a] ++ b :: m) r := by
  have hl' := (hl.update_last (v := b) ha).update_off (v := q) hbl
  have hm' := (hm.update_off (v := b) ham).update_off (v := q) hbm
  have hb : Function.update (Function.update next a b) b q b = q := Function.update_self _ _ _
  apply hl'.append
  refine ⟨rfl, ?_⟩
  rw [hb]
  exact hm'

/-- The node behind `a` is linked out. -/
theorem Links.remove {p r a b : α} {l m : List α} (h : Links next p (l ++ [a] ++ b :: m) r)
    (ha : a ∉ l) (ham : a ∉ m) : Links (Function.update next a (next b)) p (l ++ [a] ++ m) r := by
  obtain ⟨q, hl, -, hm⟩ := h.of_append
  exact (hl.update_last ha).append (hm.update_off ham)

end Chains

/-! ### Priorities -/

section Priorities
variable {α β : Type} [LinearOrder β] {f : α → β}

/-- `es` are the elements that arrived in the order `ws`, with smaller values of `f` first and the
order of arrival kept among equals. -/
structure Ranked (f : α → β) (ws es : List α) : Prop where
  sorted : es.Pairwise (f · ≤ f ·)
  stable : ∀ v, es.filter (f · = v) = ws.filter (f · = v)

theorem Ranked.nil : Ranked f [] [] := ⟨List.Pairwise.nil, fun _ => rfl⟩

theorem Ranked.mem_iff {ws es : List α} (h : Ranked f ws es) {a : α} : a ∈ es ↔ a ∈ ws := by
  have hin : ∀ l : List α, a ∈ l ↔ a ∈ l.filter (f · = f a) := fun l => by simp
  rw [hin es, h.stable, ← hin ws]

theorem Ranked.perm [DecidableEq α] {ws es : List α} (h : Ranked f ws es) : es.Perm ws := by
  rw [List.perm_iff_count]
  intro a
  have hcount : ∀ l : List α, (l.filter (f · = f a)).count a = l.count a :=
    fun l => List.count_filter (by simp)
  rw [← hcount es, h.stable, hcount ws]

/-- The place of a new element: behind every element that does not come after it. -/
def place (f : α → β) (a : α) (es : List α) : List α := es.orderedInsert (fun x y => f x < f y) a

theorem place_eq (f : α → β) (a : α) (es : List α) :
    place f a es = es.takeWhile (fun b => f b ≤ f a) ++ a :: es.dropWhile (fun b => f b ≤ f a) := by
  unfold place
  rw [List.orderedInsert_eq_take_drop]
  simp only [not_lt]

theorem place_eq_append {a : α} {es : List α} (h : ∀ b ∈ es, f b ≤ f a) : place f a es = es ++ [a] := by
  have htake : es.takeWhile (fun b => f b ≤ f a) = es :=
    List.takeWhile_eq_self_iff.mpr fun b hb => decide_eq_true (h b hb)
  have hdrop : es.dropWhile (fun b => f b ≤ f a) = [] :=
    List.dropWhile_eq_nil_iff.mpr fun b hb => decide_eq_true (h b hb)
  rw [place_eq, htake, hdrop]

theorem place_sorted {a : α} {es : List α} (h : es.Pairwise (f · ≤ f ·)) :
    (place f a es).Pairwise (f · ≤ f ·) := by
  induction es with
  | nil => exact List.pairwise_singleton _ _
  | cons b es ih =>
    obtain ⟨hb, hes⟩ := List.pairwise_cons.mp h
    unfold place
    rw [List.orderedInsert_cons]
    by_cases hlt : f a < f b
    · rw [if_pos hlt, List.pairwise_cons]
      refine ⟨fun x hx => ?_, h⟩
      rcases List.mem_cons.mp hx with rfl | hx
      · exact hlt.le
      · exact hlt.le.trans (hb x hx)
    · rw [if_neg hlt, List.pairwise_cons]
      refine ⟨fun x hx => ?_, ih hes⟩
      rcases (List.mem_orderedInsert _).mp hx with rfl | hx
      · exact not_lt.mp hlt
      · exact hb x hx

/-- Among the elements of one value the new one comes last. -/
theorem place_filter {a : α} {es : List α} (h : es.Pairwise (f · ≤ f ·)) (v : β) :
    (place f a es).filter (f · = v) = (es ++ [a]).filter (f · = v) := by
  induction es with
  | nil => rfl
  | cons b es ih =>
    obtain ⟨hb, hes⟩ := List.pairwise_cons.mp h
    by_cases hlt : f a < f b
    · -- all that stands behind `a` has a greater value
      have hpl : place f a (b :: es) = a :: b :: es := List.orderedInsert_cons_of_le _ es hlt
      rw [hpl, List.filter_append]
      by_cases hv : f a = v
      · have hnone : (b :: es).filter (f · = v) = [] := by
          rw [List.filter_eq_nil_iff]
          intro x hx
          have hle : f b ≤ f x := by
            rcases List.mem_cons.mp hx with rfl | hx
            · exact le_rfl
            · exact hb x hx
          simpa using ((hv ▸ hlt).trans_le hle).ne'
        rw [List.filter_cons_of_pos (by simpa using hv), hnone]
        simp [hv]
      · rw [List.filter_cons_of_neg (by simpa using hv)]
        simp [hv]
    · have hpl : place f a (b :: es) = b :: place f a es := List.orderedInsert_of_not_le _ es hlt
      rw [hpl, List.cons_append, List.filter_cons, List.filter_cons, ih hes]

theorem Ranked.push {ws es : List α} (h : Ranked f ws es) (a : α) :
    Ranked f (ws ++ [a]) (place f a es) := by
  constructor
  · exact place_sorted h.sorted
  · intro v
    rw [place_filter h.sorted, List.filter_append, h.stable, List.filter_append]

theorem Ranked.erase [DecidableEq α] {ws es : List α} (h : Ranked f ws es) (hnd : ws.Nodup) (a : α) :
    Ranked f (ws.erase a) (es.erase a) := by
  constructor
  · exact h.sorted.sublist List.erase_sublist
  · intro v
    have hnd' : es.Nodup := h.perm.nodup_iff.mpr hnd
    rw [hnd.erase_eq_filter, hnd'.erase_eq_filter, List.filter_filter, List.filter_filter]
    simp only [Bool.and_comm (decide _)]
    rw [← List.filter_filter, ← List.filter_filter, h.stable]

/-- The first element is the earliest one with the least value. -/
theorem Ranked.head [DecidableEq α] {ws es : List α} {a : α} (h : Ranked f ws (a :: es)) :
    ws.argmin f = some a := by
  have hmem : ∀ b, b ∈ ws ↔ b ∈ a :: es := fun b => h.mem_iff.symm
  have hle : ∀ b ∈ ws, f a ≤ f b := by
    intro b hb
    rcases List.mem_cons.mp ((hmem b).mp hb) with rfl | hb
    · exact le_rfl
    · exact (List.pairwise_cons.mp h.sorted).1 b hb
  have hfirst : ∃ rest, ws.filter (f · = f a) = a :: rest := by
    rw [← h.stable, List.filter_cons_of_pos (by simp)]
    exact ⟨_, rfl⟩
  apply List.argmin_eq_some_iff.mpr
  refine ⟨(hmem a).mpr List.mem_cons_self, hle, fun b hb hba => ?_⟩
  have heq : f b = f a := le_antisymm hba (hle b hb)
  clear hmem hle h
  obtain ⟨rest, hfirst⟩ := hfirst
  induction ws with
  | nil => cases hb
  | cons c ws ih =>
    by_cases hc : f c = f a
    · rw [List.filter_cons_of_pos (by simpa using hc)] at hfirst
      cases hfirst
      rw [List.idxOf_cons_self]
      exact Nat.zero_le _
    · rw [List.filter_cons_of_neg (by simpa using hc)] at hfirst
      have hca : c ≠ a := fun hca => hc (by rw [hca])
      have hcb : c ≠ b := fun hcb => hc (by rw [hcb, heq])
      rw [List.idxOf_cons_ne _ hca, List.idxOf_cons_ne _ hcb]
      exact Nat.succ_le_succ (ih ((List.mem_cons.mp hb).resolve_left (Ne.symm hcb)) hfirst)

end Priorities

end Rf4ce.Refine
