import Rf4ce.Refine.Chain
import Rf4ce.Refine.Run

/-! The singly linked list of `list.c`: a variable with the address of the first node, and nodes that
begin with the address of the next one. -/
namespace Rf4ce.Common
open Refine

/-- The address of a node; 0 is NULL. -/
abbrev NodePtr := BitVec 32

/-- The variable behind a `list_t` and the field `next` of every node. -/
structure ListMem where
  head : NodePtr
  next : NodePtr → NodePtr

def ListMem.setNext (s : ListMem) (p v : NodePtr) : ListMem := { s with next := Function.update s.next p v }

/-- More rounds than there are addresses. -/
def listRounds : Nat := 2 ^ 32

/-- The loop of `listTail`. This one and the loops below are `none` when they take more than `fuel`
rounds. -/
def tailLoop (next : NodePtr → NodePtr) : Nat → NodePtr → Option NodePtr
  | 0, _ => none
  | fuel + 1, l => if next l ≠ 0 then tailLoop next fuel (next l) else some l

def listTail (s : ListMem) : Option NodePtr :=
  if s.head = 0 then some 0 else tailLoop s.next listRounds s.head

def listAdd (s : ListMem) (item : NodePtr) : Option ListMem :=
  let s := s.setNext item 0
  match listTail s with
  | none => none
  | some l => if l = 0 then some { s with head := item } else some (s.setNext l item)

def listPush (s : ListMem) (item : NodePtr) : ListMem := { s.setNext item s.head with head := item }

def chopLoop (next : NodePtr → NodePtr) : Nat → NodePtr → Option NodePtr
  | 0, _ => none
  | fuel + 1, l => if next (next l) ≠ 0 then chopLoop next fuel (next l) else some l

def listChop (s : ListMem) : Option (ListMem × NodePtr) :=
  if s.head = 0 then some (s, 0)
  else if s.next s.head = 0 then some ({ s with head := 0 }, s.head)
  else
    match chopLoop s.next listRounds s.head with
    | none => none
    | some l => some (s.setNext l 0, s.next l)

/-- The last statement reads the variable again. -/
def listPop (s : ListMem) : ListMem × NodePtr :=
  let s := if s.head ≠ 0 then { s with head := s.next s.head } else s
  (s, s.head)

/-- The loop of `listRemove`, up to `item` or to the end: the node before and the node reached. -/
def removeLoop (next : NodePtr → NodePtr) (item : NodePtr) : Nat → NodePtr → NodePtr → Option (NodePtr × NodePtr)
  | 0, _, _ => none
  | fuel + 1, p, l => if l ≠ 0 ∧ l ≠ item then removeLoop next item fuel l (next l) else some (p, l)

def listRemove (s : ListMem) (item : NodePtr) : Option ListMem :=
  if s.head = 0 then some s
  else
    match removeLoop s.next item listRounds 0 s.head with
    | none => none
    | some (p, l) =>
      if l = 0 then some s
      else
        let s' := if p = 0 then { s with head := s.next l } else s.setNext p (s.next l)
        some (s'.setNext l 0)

def lengthLoop (next : NodePtr → NodePtr) : Nat → NodePtr → Nat → Option Nat
  | 0, _, _ => none
  | fuel + 1, l, num => if l ≠ 0 then lengthLoop next fuel (next l) (num + 1) else some num

/-- The `int` of the source does not overflow: nodes of four bytes each are fewer than 2^30. -/
def listLength (s : ListMem) : Option Nat := lengthLoop s.next listRounds s.head 0

def listInsert (s : ListMem) (prevItem newItem : NodePtr) : ListMem :=
  if prevItem = 0 then listPush s newItem
  else (s.setNext newItem (s.next prevItem)).setNext prevItem newItem

def listHead (s : ListMem) : NodePtr := s.head

def listNext (s : ListMem) (item : NodePtr) : NodePtr := if item = 0 then 0 else s.next item

inductive ListCall where
  | push (item : NodePtr)
  | add (item : NodePtr)
  | insert (prevItem newItem : NodePtr)
  | remove (item : NodePtr)
  | pop
  | chop
  | length
  | head
  | tail
  | next (item : NodePtr)
deriving DecidableEq, Repr

inductive ListAns where
  | done
  | item (p : NodePtr)
  | num (n : Nat)
deriving DecidableEq, Repr

/-- One call; the answer `none` is a loop that does not end. -/
def listStep (s : ListMem) : ListCall → ListMem × Option ListAns
  | .push item => (listPush s item, some .done)
  | .add item =>
    match listAdd s item with
    | none => (s, none)
    | some s' => (s', some .done)
  | .insert prevItem newItem => (listInsert s prevItem newItem, some .done)
  | .remove item =>
    match listRemove s item with
    | none => (s, none)
    | some s' => (s', some .done)
  | .pop =>
    let r := listPop s
    (r.1, some (.item r.2))
  | .chop =>
    match listChop s with
    | none => (s, none)
    | some (s', p) => (s', some (.item p))
  | .length => (s, (listLength s).map .num)
  | .head => (s, some (.item (listHead s)))
  | .tail => (s, (listTail s).map .item)
  | .next item => (s, some (.item (listNext s item)))

/-! ### Sequences -/

def insertBehind (p a : NodePtr) : List NodePtr → List NodePtr
  | [] => []
  | b :: l => if b = p then b :: a :: l else b :: insertBehind p a l

/-- What stands behind `a`, NULL behind the last element. -/
def behind (a : NodePtr) : List NodePtr → NodePtr
  | [] => 0
  | b :: l => if b = a then l.headD 0 else behind a l

/-- The calls as operations on the sequence of nodes. -/
def seqStep (l : List NodePtr) : ListCall → List NodePtr × ListAns
  | .push item => (item :: l, .done)
  | .add item => (l ++ [item], .done)
  | .insert prevItem newItem => (if prevItem = 0 then newItem :: l else insertBehind prevItem newItem l, .done)
  | .remove item => (l.erase item, .done)
  | .pop => (l.tail, .item (l.headD 0))
  | .chop => (l.dropLast, .item (l.getLastD 0))
  | .length => (l, .num l.length)
  | .head => (l, .item (l.headD 0))
  | .tail => (l, .item (l.getLastD 0))
  | .next item => (l, .item (behind item l))

/-- A new item is a node outside the list, and it is inserted behind one of the list or in front. -/
def ItemsFit (l : List NodePtr) : ListCall → Prop
  | .push item => item ≠ 0 ∧ item ∉ l
  | .add item => item ≠ 0 ∧ item ∉ l
  | .insert prevItem newItem => (newItem ≠ 0 ∧ newItem ∉ l) ∧ (prevItem = 0 ∨ prevItem ∈ l)
  | .next item => item = 0 ∨ item ∈ l
  | _ => True

instance ItemsFit.decidable (l : List NodePtr) : ∀ k, Decidable (ItemsFit l k)
  | .push item => inferInstanceAs (Decidable (item ≠ 0 ∧ item ∉ l))
  | .add item => inferInstanceAs (Decidable (item ≠ 0 ∧ item ∉ l))
  | .insert prevItem newItem =>
    inferInstanceAs (Decidable ((newItem ≠ 0 ∧ newItem ∉ l) ∧ (prevItem = 0 ∨ prevItem ∈ l)))
  | .next item => inferInstanceAs (Decidable (item = 0 ∨ item ∈ l))
  | .remove _ | .pop | .chop | .length | .head | .tail => isTrue trivial

/-- No item is asked of a list that has one. -/
def PopsNothing (l : List NodePtr) (k : ListCall) : Prop := k = .pop → l = []

/-! ### The chain -/

/-- The nodes of the list are `l`, each met once. -/
structure ListRep (s : ListMem) (l : List NodePtr) : Prop where
  chain : Links s.next s.head l 0
  nodup : l.Nodup
  nonnull : 0 ∉ l

section Proof
variable {next : NodePtr → NodePtr} {s : ListMem} {p a b : NodePtr} {l : List NodePtr}

theorem ListRep.head_eq (h : ListRep s l) : s.head = l.headD 0 := h.chain.start

theorem ListRep.length_lt (h : ListRep s l) : l.length < listRounds :=
  nodup_length_lt h.nodup h.nonnull

/-- A way to NULL through a node does not start at NULL. -/
theorem start_ne_zero {m : List NodePtr} (h : Links next p (l ++ a :: m) 0) (hnull : 0 ∉ l ++ a :: m) : p ≠ 0 := by
  have hmem : p ∈ l ++ a :: m := by
    cases l with
    | nil =>
      obtain ⟨rfl, -⟩ := h
      exact List.mem_cons_self
    | cons b l =>
      obtain ⟨rfl, -⟩ := h
      exact List.mem_cons_self
  intro hzero
  rw [hzero] at hmem
  exact hnull hmem

theorem tailLoop_eq (fuel : Nat) (h : Links next p (l ++ [a]) 0) (hnull : 0 ∉ l ++ [a]) (hfuel : l.length < fuel) :
    tailLoop next fuel p = some a := by
  induction l generalizing fuel p with
  | nil =>
    obtain ⟨fuel, rfl⟩ := Nat.exists_eq_succ_of_ne_zero (Nat.ne_of_gt hfuel)
    obtain ⟨rfl, hend⟩ := h
    have hend : next p = 0 := hend
    simp [tailLoop, hend]
  | cons b l ih =>
    obtain ⟨fuel, rfl⟩ := Nat.exists_eq_succ_of_ne_zero (Nat.ne_of_gt (Nat.zero_lt_of_lt hfuel))
    obtain ⟨rfl, h⟩ := h
    rw [List.cons_append, List.mem_cons, not_or] at hnull
    rw [List.length_cons] at hfuel
    rw [tailLoop, if_pos (start_ne_zero h hnull.2)]
    exact ih fuel h hnull.2 (by omega)

theorem next_ne_zero (h : Links next p (l ++ [a, b]) 0) (hnull : 0 ∉ l ++ [a, b]) : next p ≠ 0 := by
  cases l with
  | nil =>
    obtain ⟨rfl, h⟩ := h
    rw [List.nil_append, List.mem_cons, not_or] at hnull
    exact start_ne_zero (l := []) h hnull.2
  | cons c l =>
    obtain ⟨rfl, h⟩ := h
    rw [List.cons_append, List.mem_cons, not_or] at hnull
    exact start_ne_zero h hnull.2

theorem chopLoop_eq (fuel : Nat) (h : Links next p (l ++ [a, b]) 0) (hnull : 0 ∉ l ++ [a, b])
    (hfuel : l.length < fuel) :
    chopLoop next fuel p = some a := by
  induction l generalizing fuel p with
  | nil =>
    obtain ⟨fuel, rfl⟩ := Nat.exists_eq_succ_of_ne_zero (Nat.ne_of_gt hfuel)
    obtain ⟨rfl, hb, hend⟩ := h
    have hend : next b = 0 := hend
    simp [chopLoop, hb, hend]
  | cons c l ih =>
    obtain ⟨fuel, rfl⟩ := Nat.exists_eq_succ_of_ne_zero (Nat.ne_of_gt (Nat.zero_lt_of_lt hfuel))
    obtain ⟨rfl, h⟩ := h
    rw [List.cons_append, List.mem_cons, not_or] at hnull
    rw [List.length_cons] at hfuel
    rw [chopLoop, if_pos (next_ne_zero h hnull.2)]
    exact ih fuel h hnull.2 (by omega)

/-- The search stops at the first of the nodes `m`, where the item stands or where there is none. -/
theorem removeLoop_eq {item q : NodePtr} {m : List NodePtr} (fuel : Nat) (h : Links next p (l ++ m) 0) (hnull : 0 ∉ l)
    (hitem : item ∉ l) (hm : m = [] ∨ m.head? = some item) (hfuel : l.length < fuel) :
    removeLoop next item fuel q p = some (l.getLastD q, m.headD 0) := by
  induction l generalizing fuel q p with
  | nil =>
    obtain ⟨fuel, rfl⟩ := Nat.exists_eq_succ_of_ne_zero (Nat.ne_of_gt hfuel)
    have hstop : p = 0 ∨ p = item := by
      have hp : p = m.headD 0 := Links.start h
      rw [hp]
      rcases hm with rfl | hm
      · exact .inl rfl
      · right
        rw [List.headD_eq_head?_getD, hm, Option.getD_some]
    rw [removeLoop, if_neg (by tauto)]
    simp [Links.start h]
  | cons b l ih =>
    obtain ⟨fuel, rfl⟩ := Nat.exists_eq_succ_of_ne_zero (Nat.ne_of_gt (Nat.zero_lt_of_lt hfuel))
    obtain ⟨rfl, h⟩ := h
    rw [List.mem_cons, not_or] at hnull hitem
    rw [List.length_cons] at hfuel
    rw [removeLoop, if_pos ⟨Ne.symm hnull.1, Ne.symm hitem.1⟩, List.getLastD_cons]
    exact ih fuel h hnull.2 hitem.2 (by omega)

theorem lengthLoop_eq (fuel num : Nat) (h : Links next p l 0) (hnull : 0 ∉ l) (hfuel : l.length < fuel) :
    lengthLoop next fuel p num = some (num + l.length) := by
  induction l generalizing fuel num p with
  | nil =>
    obtain ⟨fuel, rfl⟩ := Nat.exists_eq_succ_of_ne_zero (Nat.ne_of_gt hfuel)
    cases h
    rfl
  | cons b l ih =>
    obtain ⟨fuel, rfl⟩ := Nat.exists_eq_succ_of_ne_zero (Nat.ne_of_gt (Nat.zero_lt_of_lt hfuel))
    obtain ⟨rfl, h⟩ := h
    rw [List.mem_cons, not_or] at hnull
    rw [List.length_cons] at hfuel
    rw [lengthLoop, if_pos (Ne.symm hnull.1), ih fuel (num + 1) h hnull.2 (by omega), List.length_cons]
    congr 1
    omega

/-! ### The operations -/

theorem ListRep.head_eq_zero (h : ListRep s l) : s.head = 0 ↔ l = [] := by
  cases l with
  | nil => simpa using h.head_eq
  | cons a l => simpa using start_ne_zero (l := []) h.chain h.nonnull

theorem listTail_eq (h : ListRep s l) : listTail s = some (l.getLastD 0) := by
  cases l using List.reverseRecOn with
  | nil => simp [listTail, h.head_eq]
  | append_singleton l a =>
    have hlt := h.length_lt
    rw [List.length_append, List.length_singleton] at hlt
    rw [listTail, if_neg (start_ne_zero h.chain h.nonnull), List.getLastD_concat]
    exact tailLoop_eq listRounds h.chain h.nonnull (by omega)

theorem listLength_eq (h : ListRep s l) : listLength s = some l.length := by
  rw [listLength, lengthLoop_eq listRounds 0 h.chain h.nonnull h.length_lt, Nat.zero_add]

theorem listPush_rep (h : ListRep s l) (ha : a ≠ 0) (hnew : a ∉ l) : ListRep (listPush s a) (a :: l) := by
  have hchain : Links (Function.update s.next a s.head) (Function.update s.next a s.head a) l 0 := by
    rw [Function.update_self]
    exact h.chain.update_off hnew
  constructor
  · exact ⟨rfl, hchain⟩
  · exact List.nodup_cons.mpr ⟨hnew, h.nodup⟩
  · rw [List.mem_cons, not_or]
    exact ⟨Ne.symm ha, h.nonnull⟩

/-- A store into a node outside the list. -/
theorem ListRep.setNext (h : ListRep s l) (hnew : a ∉ l) (v : NodePtr) :
    ListRep (s.setNext a v) l := ⟨h.chain.update_off hnew, h.nodup, h.nonnull⟩

theorem listAdd_rep (h : ListRep s l) (ha : a ≠ 0) (hnew : a ∉ l) :
    ∃ s', listAdd s a = some s' ∧ ListRep s' (l ++ [a]) := by
  have h' := h.setNext hnew 0
  have hend : (s.setNext a 0).next a = 0 := Function.update_self a 0 s.next
  have hnd : (l ++ [a]).Nodup := by
    rw [(List.perm_append_singleton a l).nodup_iff]
    exact List.nodup_cons.mpr ⟨hnew, h.nodup⟩
  have hnull : 0 ∉ l ++ [a] := by
    rw [List.mem_append, List.mem_singleton, not_or]
    exact ⟨h.nonnull, Ne.symm ha⟩
  unfold listAdd
  dsimp only
  rw [listTail_eq h']
  cases l using List.reverseRecOn with
  | nil =>
    refine ⟨_, rfl, ?_, hnd, hnull⟩
    exact ⟨rfl, hend⟩
  | append_singleton l b =>
    have hb : b ≠ 0 := fun hb => h.nonnull (by simp [hb])
    have hab : a ≠ b := fun hab => hnew (by simp [hab])
    have hbl : b ∉ l := snoc_apart h.nodup
    dsimp only
    rw [List.getLastD_concat, if_neg hb]
    refine ⟨_, rfl, ?_, hnd, hnull⟩
    apply (h'.chain.update_last (v := a) hbl).append
    refine ⟨rfl, ?_⟩
    dsimp only [ListMem.setNext]
    rw [Function.update_of_ne hab]
    exact hend

theorem listPop_rep (h : ListRep s l) : ListRep (listPop s).1 l.tail ∧ (listPop s).2 = l.tail.headD 0 := by
  have hrep : ListRep (listPop s).1 l.tail := by
    unfold listPop
    cases l with
    | nil =>
      have hhead : s.head = 0 := h.head_eq
      simpa [hhead] using h
    | cons a l =>
      have hne : s.head ≠ 0 := start_ne_zero (l := []) h.chain h.nonnull
      obtain ⟨⟨hhead, hchain⟩, hnd, hnull⟩ := h
      rw [List.mem_cons, not_or] at hnull
      dsimp only
      rw [if_pos hne, hhead]
      exact ⟨hchain, (List.nodup_cons.mp hnd).2, hnull.2⟩
  exact ⟨hrep, hrep.head_eq⟩

theorem listChop_rep (h : ListRep s l) :
    ∃ s', listChop s = some (s', l.getLastD 0) ∧ ListRep s' l.dropLast := by
  unfold listChop
  cases l using List.reverseRecOn with
  | nil =>
    have hhead : s.head = 0 := h.head_eq
    rw [if_pos hhead]
    exact ⟨s, rfl, h⟩
  | append_singleton l b =>
    rw [if_neg (start_ne_zero h.chain h.nonnull), List.getLastD_concat, List.dropLast_concat]
    cases l using List.reverseRecOn with
    | nil =>
      obtain ⟨rfl, hend⟩ := h.chain
      have hend : s.next s.head = 0 := hend
      rw [if_pos hend]
      exact ⟨_, rfl, rfl, List.nodup_nil, List.not_mem_nil⟩
    | append_singleton l a =>
      have hlt := h.length_lt
      obtain ⟨hchain, hnd, hnull⟩ := h
      obtain ⟨hfirst, -⟩ := hchain.snoc
      have hb : s.next a = b := hfirst.snoc.2
      have hnd' := (List.nodup_append.mp hnd).1
      have hal : a ∉ l := snoc_apart hnd'
      have htwo : l ++ [a] ++ [b] = l ++ [a, b] := List.append_assoc l [a] [b]
      rw [htwo] at hchain hnull hlt
      rw [List.length_append] at hlt
      rw [if_neg (next_ne_zero hchain hnull), chopLoop_eq listRounds hchain hnull (by omega)]
      dsimp only
      rw [hb]
      refine ⟨_, rfl, ?_, hnd', ?_⟩
      · exact hfirst.update_last hal
      · rw [← htwo, List.mem_append, not_or] at hnull
        exact hnull.1

theorem listRemove_rep (h : ListRep s l) (a : NodePtr) :
    ∃ s', listRemove s a = some s' ∧ ListRep s' (l.erase a) := by
  have hlt := h.length_lt
  have hnd : (l.erase a).Nodup := h.nodup.erase a
  have hnull : 0 ∉ l.erase a := fun hmem => h.nonnull (List.mem_of_mem_erase hmem)
  unfold listRemove
  by_cases hnil : l = []
  · rw [if_pos (h.head_eq_zero.mpr hnil), hnil]
    rw [hnil] at h
    exact ⟨s, rfl, h⟩
  rw [if_neg fun hzero => hnil (h.head_eq_zero.mp hzero)]
  by_cases hmem : a ∈ l
  · obtain ⟨pre, post, hpre, rfl, herase⟩ := List.exists_erase_eq hmem
    rw [herase] at hnd hnull ⊢
    obtain ⟨hchain, hnd', hnull'⟩ := h
    rw [List.length_append] at hlt
    rw [List.mem_append, not_or] at hnull'
    have ha : a ≠ 0 := fun ha => hnull'.2 (by simp [ha])
    have hapost : a ∉ post := (List.nodup_cons.mp (List.nodup_append.mp hnd').2.1).1
    rw [removeLoop_eq listRounds hchain hnull'.1 hpre (.inr rfl) (by omega)]
    dsimp only [List.headD_cons]
    rw [if_neg ha]
    refine ⟨_, rfl, ?_, hnd, hnull⟩
    cases pre using List.reverseRecOn with
    | nil => exact hchain.2.update_off hapost
    | append_singleton pre c =>
      have hc : c ≠ 0 := fun hc => hnull'.1 (by simp [hc])
      obtain ⟨hcpre, hcpost⟩ := last_apart hnd
      rw [List.getLastD_concat, if_neg hc]
      have hout : a ∉ pre ++ [c] ++ post := by
        rw [List.mem_append, not_or]
        exact ⟨hpre, hapost⟩
      exact (hchain.remove hcpre hcpost).update_off hout
  · have hchain : Links s.next s.head (l ++ []) 0 := by
      rw [List.append_nil]
      exact h.chain
    rw [removeLoop_eq listRounds hchain h.nonnull hmem (.inl rfl) hlt, List.erase_of_not_mem hmem]
    exact ⟨s, rfl, h⟩

theorem insertBehind_eq {pre : List NodePtr} (hp : p ∉ pre) (a : NodePtr) (post : List NodePtr) :
    insertBehind p a (pre ++ p :: post) = pre ++ [p] ++ a :: post := by
  induction pre with
  | nil => simp [insertBehind]
  | cons b pre ih =>
    rw [List.mem_cons, not_or] at hp
    rw [List.cons_append, insertBehind, if_neg (Ne.symm hp.1), ih hp.2]
    rfl

theorem listInsert_rep (h : ListRep s l) (ha : a ≠ 0) (hnew : a ∉ l) (hp : p = 0 ∨ p ∈ l) :
    ListRep (listInsert s p a) (if p = 0 then a :: l else insertBehind p a l) := by
  unfold listInsert
  by_cases hzero : p = 0
  · rw [if_pos hzero, if_pos hzero]
    exact listPush_rep h ha hnew
  rw [if_neg hzero, if_neg hzero]
  have hmem : p ∈ l := hp.resolve_left hzero
  obtain ⟨pre, post, hpre, rfl, -⟩ := List.exists_erase_eq hmem
  rw [insertBehind_eq hpre]
  have hsplit : pre ++ p :: post = pre ++ [p] ++ post := by simp
  rw [hsplit] at h hnew
  obtain ⟨hchain, hnd, hnull⟩ := h
  rw [List.mem_append, not_or] at hnew hnull
  obtain ⟨q, hfirst, hrest⟩ := hchain.of_append
  have hq : s.next p = q := hfirst.snoc.2
  have hppost : p ∉ post := (last_apart hnd).2
  have hpa : p ≠ a := fun hpa => hnew.1 (by simp [hpa])
  constructor
  · dsimp only [ListMem.setNext]
    rw [hq, Function.update_comm hpa.symm]
    exact hfirst.insert hrest hpre hppost hnew.1 hnew.2
  · have hperm : (pre ++ [p] ++ a :: post).Perm (a :: (pre ++ [p] ++ post)) := List.perm_middle
    rw [hperm.nodup_iff, List.nodup_cons, List.mem_append, not_or]
    exact ⟨hnew, hnd⟩
  · rw [List.mem_append, List.mem_cons, not_or, not_or]
    exact ⟨hnull.1, Ne.symm ha, hnull.2⟩

theorem behind_eq (h : Links next p l 0) (ha : a ∈ l) : next a = behind a l := by
  induction l generalizing p with
  | nil => cases ha
  | cons b l ih =>
    obtain ⟨rfl, h⟩ := h
    unfold behind
    by_cases hpa : p = a
    · rw [if_pos hpa, ← h.start, hpa]
    · rw [if_neg hpa]
      exact ih h ((List.mem_cons.mp ha).resolve_left (Ne.symm hpa))

theorem behind_off (ha : a ∉ l) : behind a l = 0 := by
  induction l with
  | nil => rfl
  | cons b l ih =>
    rw [List.mem_cons, not_or] at ha
    rw [behind, if_neg (Ne.symm ha.1)]
    exact ih ha.2

theorem listNext_eq (h : ListRep s l) (ha : a = 0 ∨ a ∈ l) : listNext s a = behind a l := by
  unfold listNext
  by_cases hzero : a = 0
  · rw [if_pos hzero, hzero, behind_off h.nonnull]
  · rw [if_neg hzero]
    exact behind_eq h.chain (ha.resolve_left hzero)

/-! ### Runs -/

/-- The answer of `listPop` is wrong whenever there is an item to return. -/
theorem listPop_answer (h : ListRep s l) : (listPop s).2 = l.headD 0 ↔ l = [] := by
  rw [(listPop_rep h).2]
  cases l with
  | nil => simp
  | cons a l =>
    have hne : l.headD 0 ≠ a := by
      intro heq
      cases l with
      | nil => exact h.nonnull (by simp [← heq])
      | cons b l => exact (List.nodup_cons.mp h.nodup).1 (by simp [← heq])
    simpa using hne

theorem listStep_eq {k : ListCall} (h : ListRep s l) (hk : ItemsFit l k) (hpop : k ≠ .pop) :
    ∃ s', listStep s k = (s', some (seqStep l k).2) ∧ ListRep s' (seqStep l k).1 := by
  cases k with
  | push a => exact ⟨_, rfl, listPush_rep h hk.1 hk.2⟩
  | add a =>
    obtain ⟨s', hadd, hrep⟩ := listAdd_rep h hk.1 hk.2
    exact ⟨s', by simp only [listStep, hadd, seqStep], hrep⟩
  | insert p a => exact ⟨_, rfl, listInsert_rep h hk.1.1 hk.1.2 hk.2⟩
  | remove a =>
    obtain ⟨s', hremove, hrep⟩ := listRemove_rep h a
    exact ⟨s', by simp only [listStep, hremove, seqStep], hrep⟩
  | pop => exact absurd rfl hpop
  | chop =>
    obtain ⟨s', hchop, hrep⟩ := listChop_rep h
    exact ⟨s', by simp only [listStep, hchop, seqStep], hrep⟩
  | length => exact ⟨s, by simp only [listStep, listLength_eq h, Option.map_some, seqStep], h⟩
  | head => exact ⟨s, by simp only [listStep, listHead, h.head_eq, seqStep], h⟩
  | tail => exact ⟨s, by simp only [listStep, listTail_eq h, Option.map_some, seqStep], h⟩
  | next a => exact ⟨s, by simp only [listStep, listNext_eq h hk, seqStep], h⟩

/-- Every call leaves the list that it should; the answer is the one of the sequence except for a pop
from a list with items. -/
theorem listStep_rep {k : ListCall} (h : ListRep s l) (hk : ItemsFit l k) :
    ListRep (listStep s k).1 (seqStep l k).1 ∧
      ((listStep s k).2 = some (seqStep l k).2 ↔ PopsNothing l k) := by
  by_cases hpop : k = .pop
  · obtain rfl := hpop
    refine ⟨(listPop_rep h).1, ?_⟩
    have hans : (listStep s .pop).2 = some (seqStep l .pop).2 ↔ (listPop s).2 = l.headD 0 := by
      simp only [listStep, seqStep, Option.some.injEq, ListAns.item.injEq]
    rw [hans, listPop_answer h]
    simp only [PopsNothing, forall_const]
  · obtain ⟨s', hstep, hrep⟩ := listStep_eq h hk hpop
    rw [hstep]
    exact ⟨hrep, iff_of_true rfl fun heq => absurd heq hpop⟩

/-- A run leaves the list that the sequence has at its end, whatever `listPop` has returned. -/
theorem listRun_rep {ks : List ListCall} (h : ListRep s l) (hks : Legal seqStep ItemsFit l ks) :
    ListRep (run listStep s ks).1 (run seqStep l ks).1 := by
  induction ks generalizing s l with
  | nil => exact h
  | cons k ks ih => exact ih (listStep_rep h hks.1).1 hks.2

/-- The calls do to a linked list what they do to the sequence of its nodes, and answer alike, exactly
in the runs where no `listPop` meets an item. -/
theorem listRun_iff {ks : List ListCall} (h : ListRep s l) (hks : Legal seqStep ItemsFit l ks) :
    ListRep (run listStep s ks).1 (run seqStep l ks).1 ∧
        (run listStep s ks).2 = (run seqStep l ks).2.map some ↔
      Legal seqStep PopsNothing l ks := by
  have hrep := listRun_rep h hks
  rw [and_iff_right hrep]
  clear hrep
  induction ks generalizing s l with
  | nil => simp only [run, List.map_nil, Legal]
  | cons k ks ih =>
    obtain ⟨hrep, hans⟩ := listStep_rep h hks.1
    simp only [run, List.map_cons, List.cons.injEq, Legal]
    exact and_congr hans (ih hrep hks.2)

end Proof

theorem listRun_iff_two :
    ListRep (run listStep ⟨0, fun _ => 0⟩ [.push 4, .add 8, .insert 4 12, .remove 4, .chop, .tail, .length]).1 [12] ∧
      (run listStep ⟨0, fun _ => 0⟩ [.push 4, .add 8, .insert 4 12, .remove 4, .chop, .tail, .length]).2 =
        [some .done, some .done, some .done, some .done, some (.item 8), some (.item 12), some (.num 1)] :=
  have h : ListRep ⟨0, fun _ => 0⟩ [] := ⟨rfl, List.nodup_nil, List.not_mem_nil⟩
  (listRun_iff h (by decide)).mpr (by simp [Legal, PopsNothing])

/-- Of the nodes 4 and 8 the first one is removed and the second one is returned. -/
theorem listPop_second :
    ListRep ⟨4, Function.update (fun _ => 0) 4 8⟩ [4, 8] ∧
      (run listStep ⟨4, Function.update (fun _ => 0) 4 8⟩ [.pop]).2 = [some (.item 8)] ∧
      (run seqStep [4, 8] [.pop]).2 = [.item 4] :=
  ⟨⟨⟨rfl, rfl, rfl⟩, by decide, by decide⟩, by decide, by decide⟩

end Rf4ce.Common
