import Rf4ce.Refine.Chain
import Rf4ce.Refine.Run

/-! The priority queue of `ev_queue.c`: a chain through the elements, with the head, the tail and
the number of entries kept beside it. -/
namespace Rf4ce.Os
open Refine

/-- The address of a `queue_item_t`; 0 is NULL. -/
abbrev ItemPtr := BitVec 32

inductive EvQueueSts where
  | succ | invalidParameter | empty | notFound | overflow
deriving DecidableEq, Repr

/-- `ev_queue_t`; `none` is the priority function NULL. -/
structure EvQueue where
  head : ItemPtr
  tail : ItemPtr
  priFunc : Option (ItemPtr → BitVec 32)
  curNum : BitVec 32

/-- A queue and the field `next` of every element. -/
structure QueueMem where
  q : EvQueue
  next : ItemPtr → ItemPtr

def evQueueInit (priFunc : Option (ItemPtr → BitVec 32)) (next : ItemPtr → ItemPtr) : QueueMem :=
  ⟨⟨0, 0, priFunc, 0⟩, next⟩

/-- More rounds than there are addresses. -/
def loopFuel : Nat := 2 ^ 32

/-- The loops of the queue: `previous` and `current` at the first element where `stop` holds, or at
the end. `none` when this takes more than `fuel` rounds. -/
def walk (next : ItemPtr → ItemPtr) (stop : ItemPtr → Bool) : Nat → ItemPtr → ItemPtr → Option (ItemPtr × ItemPtr)
  | 0, _, _ => none
  | fuel + 1, previous, current =>
    if current ≠ 0 ∧ stop current = false then walk next stop fuel current (next current)
    else some (previous, current)

def evQueueRawPush (s : QueueMem) (newElement : ItemPtr) : Option (QueueMem × EvQueueSts) :=
  if newElement = 0 then some (s, .invalidParameter)
  else if s.q.head = 0 then
    some (⟨{ s.q with head := newElement, tail := newElement, curNum := s.q.curNum + 1 },
      Function.update s.next newElement 0⟩, .succ)
  else
    match s.q.priFunc with
    | none =>
      let next := Function.update s.next s.q.tail newElement
      some (⟨{ s.q with tail := newElement, curNum := s.q.curNum + 1 },
        Function.update next newElement 0⟩, .succ)
    | some priFunc =>
      match walk s.next (fun current => priFunc newElement < priFunc current) loopFuel 0 s.q.head with
      | none => none
      | some (previous, current) =>
        let head := if previous = 0 then newElement else s.q.head
        let next := if previous = 0 then s.next else Function.update s.next previous newElement
        let tail := if current = 0 then newElement else s.q.tail
        some (⟨{ s.q with head := head, tail := tail, curNum := s.q.curNum + 1 },
          Function.update next newElement current⟩, .succ)

def evQueueRawPop (s : QueueMem) : QueueMem × ItemPtr :=
  let oldHead := s.q.head
  let q :=
    if oldHead ≠ 0 then
      { s.q with
        tail := if oldHead = s.q.tail then 0 else s.q.tail
        head := s.next oldHead
        curNum := s.q.curNum - 1 }
    else s.q
  (⟨if q.curNum = 0 then { q with head := 0, tail := 0 } else q, s.next⟩, oldHead)

def evQueueRawDelete (s : QueueMem) (delElement : ItemPtr) : Option (QueueMem × EvQueueSts) :=
  if delElement = 0 then some (s, .invalidParameter)
  else if s.q.head = 0 then some (s, .empty)
  else if s.q.head = delElement then
    let head := s.next s.q.head
    some (⟨{ s.q with
      head := head
      tail := if head = 0 then 0 else s.q.tail
      curNum := s.q.curNum - 1 }, s.next⟩, .succ)
  else
    match walk s.next (fun current => current = delElement) loopFuel 0 s.q.head with
    | none => none
    | some (previous, current) =>
      if current ≠ 0 then
        let next := Function.update s.next previous (s.next current)
        some (⟨{ s.q with
          tail := if next current = 0 then previous else s.q.tail
          curNum := s.q.curNum - 1 }, next⟩, .succ)
      else some (s, .notFound)

inductive EvQueueCall where
  | rawPush (newElement : ItemPtr)
  | rawPop
  | rawDelete (delElement : ItemPtr)
deriving DecidableEq, Repr

inductive EvQueueAns where
  | sts (sts : EvQueueSts)
  | item (p : ItemPtr)
deriving DecidableEq, Repr

/-- One call; the answer `none` is a loop that does not end. -/
def evQueueStep (s : QueueMem) : EvQueueCall → QueueMem × Option EvQueueAns
  | .rawPush e =>
    match evQueueRawPush s e with
    | none => (s, none)
    | some (s', sts) => (s', some (.sts sts))
  | .rawPop =>
    let r := evQueueRawPop s
    (r.1, some (.item r.2))
  | .rawDelete e =>
    match evQueueRawDelete s e with
    | none => (s, none)
    | some (s', sts) => (s', some (.sts sts))

/-! ### What the queue is for -/

/-- Without a priority function all elements are equal. -/
def priority (priFunc : Option (ItemPtr → BitVec 32)) (e : ItemPtr) : Nat :=
  match priFunc with
  | none => 0
  | some f => (f e).toNat

/-- The waiting elements in the order of their arrival: a pop takes the earliest one with the least
priority value. -/
def waitingStep (pri : ItemPtr → Nat) (ws : List ItemPtr) : EvQueueCall → List ItemPtr × Option EvQueueAns
  | .rawPush e => if e = 0 then (ws, some (.sts .invalidParameter)) else (ws ++ [e], some (.sts .succ))
  | .rawPop =>
    match ws.argmin pri with
    | none => (ws, some (.item 0))
    | some e => (ws.erase e, some (.item e))
  | .rawDelete e =>
    if e = 0 then (ws, some (.sts .invalidParameter))
    else if ws = [] then (ws, some (.sts .empty))
    else if e ∈ ws then (ws.erase e, some (.sts .succ))
    else (ws, some (.sts .notFound))

/-- No element is pushed that waits already. -/
def PushedNew (ws : List ItemPtr) : EvQueueCall → Prop
  | .rawPush e => e ∉ ws
  | _ => True

instance PushedNew.decidable (ws : List ItemPtr) : ∀ k, Decidable (PushedNew ws k)
  | .rawPush e => inferInstanceAs (Decidable (e ∉ ws))
  | .rawPop => isTrue trivial
  | .rawDelete _ => isTrue trivial

def pushedBy : EvQueueCall → Option EvQueueAns → List ItemPtr
  | .rawPush e, some (.sts .succ) => [e]
  | _, _ => []

def takenBy : EvQueueCall → Option EvQueueAns → List ItemPtr
  | .rawPop, some (.item e) => if e = 0 then [] else [e]
  | .rawDelete e, some (.sts .succ) => [e]
  | _, _ => []

/-- The elements that were accepted. -/
def pushedItems (ks : List EvQueueCall) (rs : List (Option EvQueueAns)) : List ItemPtr :=
  (List.zipWith pushedBy ks rs).flatten

/-- The elements that were popped or deleted. -/
def takenItems (ks : List EvQueueCall) (rs : List (Option EvQueueAns)) : List ItemPtr :=
  (List.zipWith takenBy ks rs).flatten

/-! ### Refinement -/

/-- The chain of `s` are the elements `es`. -/
structure QueueRep (s : QueueMem) (es : List ItemPtr) : Prop where
  chain : Links s.next s.q.head es 0
  tail : s.q.tail = es.getLastD 0
  num : s.q.curNum = BitVec.ofNat 32 es.length
  nodup : es.Nodup
  nonnull : 0 ∉ es

theorem QueueRep.length_lt {s : QueueMem} {es : List ItemPtr} (h : QueueRep s es) : es.length < 2 ^ 32 :=
  nodup_length_lt h.nodup h.nonnull

theorem QueueRep.curNum {s : QueueMem} {es : List ItemPtr} (h : QueueRep s es) : s.q.curNum.toNat = es.length := by
  rw [h.num, BitVec.toNat_ofNat]
  exact Nat.mod_eq_of_lt h.length_lt

theorem QueueRep.head_eq_zero {s : QueueMem} {es : List ItemPtr} (h : QueueRep s es) : s.q.head = 0 ↔ es = [] := by
  rw [h.chain.start]
  cases es with
  | nil => simp
  | cons e es =>
    have he : e ≠ 0 := fun he => h.nonnull (he ▸ List.mem_cons_self)
    simpa using he

theorem evQueueInit_rep (priFunc : Option (ItemPtr → BitVec 32)) (next : ItemPtr → ItemPtr) :
    QueueRep (evQueueInit priFunc next) [] := ⟨rfl, rfl, rfl, List.nodup_nil, List.not_mem_nil⟩

/-- The loop stops behind the elements that do not stop it. -/
theorem walk_eq {next : ItemPtr → ItemPtr} (stop : ItemPtr → Bool) (fuel : Nat) (previous : ItemPtr)
    {current : ItemPtr} {es : List ItemPtr} (hc : Links next current es 0) (hnull : 0 ∉ es) (hfuel : es.length < fuel) :
    walk next stop fuel previous current =
      some ((es.takeWhile (!stop ·)).getLastD previous, (es.dropWhile (!stop ·)).headD 0) := by
  induction es generalizing fuel previous current with
  | nil =>
    obtain ⟨fuel, rfl⟩ := Nat.exists_eq_succ_of_ne_zero (Nat.ne_of_gt hfuel)
    cases hc
    simp [walk]
  | cons e es ih =>
    obtain ⟨fuel, rfl⟩ := Nat.exists_eq_succ_of_ne_zero (Nat.ne_of_gt (Nat.zero_lt_of_lt hfuel))
    obtain ⟨rfl, hc⟩ := hc
    rw [List.mem_cons, not_or] at hnull
    rw [List.length_cons] at hfuel
    cases hs : stop current with
    | true => simp [walk, hs]
    | false =>
      have hne : current ≠ 0 := Ne.symm hnull.1
      rw [walk, if_pos ⟨hne, hs⟩, ih fuel current hc hnull.2 (by omega), List.takeWhile_cons, List.dropWhile_cons]
      simp only [hs, Bool.not_false, if_true, List.getLastD_cons]

theorem getLastD_mem {l : List ItemPtr} (h : 0 ∉ l) : l.getLastD 0 = 0 ↔ l = [] := by
  cases l using List.reverseRecOn with
  | nil => simp
  | append_singleton l a =>
    have ha : a ≠ 0 := fun ha => h (by simp [ha])
    simpa using ha

theorem headD_mem {l : List ItemPtr} (h : 0 ∉ l) : l.headD 0 = 0 ↔ l = [] := by
  cases l with
  | nil => simp
  | cons a l =>
    have ha : a ≠ 0 := fun ha => h (by simp [ha])
    simpa using ha

/-- An element is linked in between `pre` and `post`. -/
theorem QueueRep.link {s : QueueMem} (pre post : List ItemPtr) {e : ItemPtr} (h : QueueRep s (pre ++ post))
    (he : e ≠ 0) (hnew : e ∉ pre ++ post) :
    QueueRep ⟨{ s.q with
        head := if pre.getLastD 0 = 0 then e else s.q.head
        tail := if post.headD 0 = 0 then e else s.q.tail
        curNum := s.q.curNum + 1 },
      Function.update (if pre.getLastD 0 = 0 then s.next else Function.update s.next (pre.getLastD 0) e)
        e (post.headD 0)⟩ (pre ++ e :: post) := by
  obtain ⟨hchain, htail, hnum, hnd, hnull⟩ := h
  rw [List.mem_append, not_or] at hnew hnull
  constructor
  · obtain ⟨q, hpre, hpost⟩ := hchain.of_append
    dsimp only
    rw [← hpost.start]
    cases pre using List.reverseRecOn with
    | nil =>
      refine ⟨rfl, ?_⟩
      rw [Function.update_self]
      exact hpost.update_off hnew.2
    | append_singleton pre a =>
      have hlast : (pre ++ [a]).getLastD 0 = a := by simp
      have ha : a ≠ 0 := fun ha => hnull.1 (by simp [ha])
      rw [hlast, if_neg ha, if_neg ha]
      obtain ⟨hapre, hapost⟩ := last_apart hnd
      exact hpre.insert hpost hapre hapost hnew.1 hnew.2
  · dsimp only
    cases post using List.reverseRecOn with
    | nil => simp
    | append_singleton post b =>
      have hend : pre ++ e :: (post ++ [b]) = pre ++ e :: post ++ [b] := by simp
      rw [if_neg (by rw [headD_mem hnull.2]; simp), htail, hend, List.getLastD_concat, ← List.append_assoc,
        List.getLastD_concat]
  · rw [hnum, List.length_append, List.length_append, List.length_cons, ← Nat.add_assoc]
    exact (BitVec.ofNat_add _ 1).symm
  · have hperm : (pre ++ e :: post).Perm (e :: (pre ++ post)) := List.perm_middle
    rw [hperm.nodup_iff, List.nodup_cons, List.mem_append, not_or]
    exact ⟨hnew, hnd⟩
  · rw [List.mem_append, List.mem_cons, not_or, not_or]
    exact ⟨hnull.1, Ne.symm he, hnull.2⟩

theorem evQueueRawPush_eq {s : QueueMem} {es : List ItemPtr} {e : ItemPtr} (h : QueueRep s es) (he : e ≠ 0)
    (hnew : e ∉ es) :
    ∃ s', evQueueRawPush s e = some (s', .succ) ∧ QueueRep s' (place (priority s.q.priFunc) e es) ∧
      s'.q.priFunc = s.q.priFunc := by
  unfold evQueueRawPush
  rw [if_neg he]
  by_cases hhead : s.q.head = 0
  · rw [if_pos hhead]
    obtain rfl := h.head_eq_zero.mp hhead
    exact ⟨_, rfl, QueueRep.link [] [] h he hnew, rfl⟩
  · rw [if_neg hhead]
    have hne : es ≠ [] := fun hnil => hhead (h.head_eq_zero.mpr hnil)
    cases hf : s.q.priFunc with
    | none =>
      have hplace : place (priority none) e es = es ++ [e] := place_eq_append fun _ _ => le_rfl
      have htail : s.q.tail ≠ 0 := by
        rw [h.tail, ne_eq, getLastD_mem h.nonnull]
        exact hne
      have hlink := QueueRep.link es [] (by rwa [List.append_nil]) he (by rwa [List.append_nil])
      rw [← h.tail] at hlink
      simp only [htail, if_false, List.headD_nil, if_true] at hlink
      rw [hplace]
      exact ⟨_, rfl, hlink, hf⟩
    | some f =>
      have hsplit := List.takeWhile_append_dropWhile (p := fun b => priority (some f) b ≤ priority (some f) e) (l := es)
      have hwalk := walk_eq (fun current => f e < f current) loopFuel 0 h.chain h.nonnull h.length_lt
      have hstop : (fun b => !decide (f e < f b)) = fun b => decide (priority (some f) b ≤ priority (some f) e) := by
        funext b
        rw [← decide_not, decide_eq_decide, BitVec.not_lt]
        exact BitVec.le_def
      rw [hstop] at hwalk
      dsimp only
      rw [hwalk, place_eq]
      rw [← hsplit] at h hnew
      exact ⟨_, rfl, h.link _ _ he hnew, hf⟩

theorem curNum_pred {n : Nat} : BitVec.ofNat 32 (n + 1) - 1 = BitVec.ofNat 32 n := by
  rw [BitVec.ofNat_add]
  exact BitVec.add_sub_cancel _ _

theorem evQueueRawPop_nil {s : QueueMem} (h : QueueRep s []) : evQueueRawPop s = (s, 0) := by
  obtain ⟨⟨head, tail, priFunc, curNum⟩, next⟩ := s
  have hnum : curNum = 0 := h.num
  have hhead : head = 0 := h.chain
  have htail : tail = 0 := h.tail
  simp [evQueueRawPop, hhead, hnum, htail]

theorem evQueueRawPop_cons {s : QueueMem} {e : ItemPtr} {es : List ItemPtr} (h : QueueRep s (e :: es)) :
    (evQueueRawPop s).2 = e ∧ QueueRep (evQueueRawPop s).1 es ∧
      (evQueueRawPop s).1.q.priFunc = s.q.priFunc := by
  have hlt := h.length_lt
  obtain ⟨⟨hhead, hchain⟩, htail, hnum, hnd, hnull⟩ := h
  rw [List.nodup_cons] at hnd
  rw [List.mem_cons, not_or] at hnull
  rw [List.length_cons] at hnum hlt
  have he : e ≠ 0 := Ne.symm hnull.1
  have hpred : s.q.curNum - 1 = BitVec.ofNat 32 es.length := by rw [hnum, curNum_pred]
  unfold evQueueRawPop
  simp only [hhead, he, ne_eq, not_false_eq_true, if_true, hpred]
  refine ⟨trivial, ?_, ?_⟩
  · cases es using List.reverseRecOn with
    | nil =>
      exact ⟨rfl, rfl, rfl, List.nodup_nil, List.not_mem_nil⟩
    | append_singleton es a =>
      have hnum' : BitVec.ofNat 32 (es ++ [a]).length ≠ 0 := by
        rw [List.length_append, List.length_singleton] at hlt ⊢
        intro hzero
        have hzero := congrArg BitVec.toNat hzero
        rw [BitVec.toNat_ofNat, Nat.mod_eq_of_lt (by omega)] at hzero
        cases hzero
      have hlast : s.q.tail = a := by
        rw [htail, ← List.cons_append, List.getLastD_concat]
      have hea : e ≠ a := fun hea => hnd.1 (by simp [hea])
      rw [if_neg hnum', hlast, if_neg hea]
      exact ⟨hchain, by rw [List.getLastD_concat], rfl, hnd.2, hnull.2⟩
  · split_ifs <;> rfl

/-- The tests of `ev_queue_rawDelete` on a queue without the element. -/
theorem evQueueRawDelete_absent {s : QueueMem} {es : List ItemPtr} {e : ItemPtr} (h : QueueRep s es) (he : e ≠ 0)
    (hne : es ≠ []) (habs : e ∉ es) : evQueueRawDelete s e = some (s, .notFound) := by
  have hhead : s.q.head ≠ 0 := fun hzero => hne (h.head_eq_zero.mp hzero)
  have hfirst : s.q.head ≠ e := by
    intro heq
    rw [h.chain.start] at heq
    cases es with
    | nil => exact hne rfl
    | cons a es => exact habs (heq ▸ List.mem_cons_self)
  have hdrop : es.dropWhile (fun b => !decide (b = e)) = [] := by
    apply List.dropWhile_eq_nil_iff.mpr
    intro b hb
    simpa using fun hbe : b = e => habs (hbe ▸ hb)
  unfold evQueueRawDelete
  rw [if_neg he, if_neg hhead, if_neg hfirst, walk_eq _ loopFuel 0 h.chain h.nonnull h.length_lt, hdrop]
  simp

/-- The first element is taken out. -/
theorem QueueRep.behead {s : QueueMem} {e : ItemPtr} {es : List ItemPtr} (h : QueueRep s (e :: es)) :
    QueueRep ⟨{ s.q with
        head := s.next e
        tail := if s.next e = 0 then 0 else s.q.tail
        curNum := s.q.curNum - 1 }, s.next⟩ es := by
  obtain ⟨⟨-, hchain⟩, htail, hnum, hnd, hnull⟩ := h
  rw [List.nodup_cons] at hnd
  rw [List.mem_cons, not_or] at hnull
  constructor
  · exact hchain
  · dsimp only
    rw [hchain.start]
    cases es using List.reverseRecOn with
    | nil => rfl
    | append_singleton es a =>
      rw [if_neg (by rw [headD_mem hnull.2]; simp), htail, ← List.cons_append, List.getLastD_concat,
        List.getLastD_concat]
  · rw [hnum, List.length_cons]
    exact curNum_pred
  · exact hnd.2
  · exact hnull.2

/-- The element behind `a` is taken out. -/
theorem QueueRep.unlink {s : QueueMem} {pre post : List ItemPtr} {a e : ItemPtr}
    (h : QueueRep s (pre ++ [a] ++ e :: post)) :
    QueueRep ⟨{ s.q with
        tail := if Function.update s.next a (s.next e) e = 0 then a else s.q.tail
        curNum := s.q.curNum - 1 }, Function.update s.next a (s.next e)⟩ (pre ++ [a] ++ post) := by
  obtain ⟨hchain, htail, hnum, hnd, hnull⟩ := h
  obtain ⟨hapre, haout⟩ := last_apart hnd
  rw [List.mem_cons, not_or] at haout
  obtain ⟨hae, hapost⟩ := haout
  rw [List.mem_append, List.mem_cons, not_or, not_or] at hnull
  constructor
  · exact hchain.remove hapre hapost
  · dsimp only
    rw [Function.update_of_ne (Ne.symm hae)]
    obtain ⟨q, -, -, hrest⟩ := hchain.of_append
    cases post using List.reverseRecOn with
    | nil =>
      have hzero : s.next e = 0 := hrest
      rw [if_pos hzero, List.append_nil, List.getLastD_concat]
    | append_singleton post b =>
      have hne : s.next e ≠ 0 := by
        rw [hrest.start, ne_eq, headD_mem hnull.2.2]
        simp
      have hend : pre ++ [a] ++ e :: (post ++ [b]) = pre ++ [a] ++ e :: post ++ [b] := by simp
      rw [if_neg hne, htail, hend, List.getLastD_concat, ← List.append_assoc, List.getLastD_concat]
  · have hlen : (pre ++ [a] ++ e :: post).length = (pre ++ [a] ++ post).length + 1 := by
      simp only [List.length_append, List.length_cons, List.length_nil]
      omega
    rw [hnum, hlen]
    exact curNum_pred
  · exact hnd.sublist (List.Sublist.append_left (List.sublist_cons_self e post) _)
  · rw [List.mem_append, not_or]
    exact ⟨hnull.1, hnull.2.2⟩

theorem evQueueRawDelete_present {s : QueueMem} {es : List ItemPtr} {e : ItemPtr} (h : QueueRep s es)
    (hmem : e ∈ es) :
    ∃ s', evQueueRawDelete s e = some (s', .succ) ∧ QueueRep s' (es.erase e) ∧
      s'.q.priFunc = s.q.priFunc := by
  have he : e ≠ 0 := fun he => h.nonnull (he ▸ hmem)
  have hhead : s.q.head ≠ 0 := by
    rw [ne_eq, h.head_eq_zero]
    exact List.ne_nil_of_mem hmem
  unfold evQueueRawDelete
  rw [if_neg he, if_neg hhead]
  by_cases hfirst : s.q.head = e
  · rw [if_pos hfirst]
    cases es with
    | nil => cases hmem
    | cons b es =>
      obtain rfl : b = e := h.chain.1.symm.trans hfirst
      rw [List.erase_cons_head, h.chain.1]
      exact ⟨_, rfl, h.behead, rfl⟩
  · rw [if_neg hfirst]
    have hwalk := walk_eq (fun current => current = e) loopFuel 0 h.chain h.nonnull h.length_lt
    obtain ⟨pre, post, rfl, hpre⟩ := List.eq_append_cons_of_mem hmem
    have hpass : ∀ b ∈ pre, (!decide (b = e)) = true := by
      intro b hb
      simpa using fun hbe : b = e => hpre (hbe ▸ hb)
    rw [List.takeWhile_append_of_pos hpass, List.dropWhile_append_of_pos hpass,
      List.takeWhile_cons_of_neg (by simp), List.dropWhile_cons_of_neg (by simp), List.append_nil] at hwalk
    rw [hwalk, List.erase_append_right _ hpre, List.erase_cons_head]
    cases pre using List.reverseRecOn with
    | nil => exact absurd h.chain.1 hfirst
    | append_singleton pre a =>
      rw [List.getLastD_concat]
      dsimp only [List.headD_cons]
      rw [if_pos he]
      exact ⟨_, rfl, h.unlink, rfl⟩

/-- The chain of `s` are the elements that wait, in the order of the queue. -/
def Waits (priFunc : Option (ItemPtr → BitVec 32)) (ws : List ItemPtr) (s : QueueMem) : Prop :=
  s.q.priFunc = priFunc ∧ ∃ es, QueueRep s es ∧ Ranked (priority priFunc) ws es

theorem evQueueStep_waits {priFunc : Option (ItemPtr → BitVec 32)} (ws : List ItemPtr) (s : QueueMem)
    (k : EvQueueCall) (h : Waits priFunc ws s) (hk : PushedNew ws k) :
    Waits priFunc (waitingStep (priority priFunc) ws k).1 (evQueueStep s k).1 ∧
      (waitingStep (priority priFunc) ws k).2 = (evQueueStep s k).2 := by
  obtain ⟨rfl, es, hrep, hrank⟩ := h
  have hnil : es = [] ↔ ws = [] := by
    rw [← List.length_eq_zero_iff, ← List.length_eq_zero_iff, hrank.perm.length_eq]
  have hwnd : ws.Nodup := hrank.perm.nodup_iff.mp hrep.nodup
  cases k with
  | rawPush e =>
    by_cases he : e = 0
    · simp only [waitingStep, evQueueStep, evQueueRawPush, he, if_true]
      exact ⟨⟨rfl, es, hrep, hrank⟩, trivial⟩
    · have hnew : e ∉ es := fun hmem => hk (hrank.mem_iff.mp hmem)
      obtain ⟨s', hs', hrep', hpri⟩ := evQueueRawPush_eq hrep he hnew
      simp only [waitingStep, evQueueStep, he, if_false, hs']
      exact ⟨⟨hpri, _, hrep', hrank.push e⟩, trivial⟩
  | rawPop =>
    cases es with
    | nil =>
      obtain rfl := hnil.mp rfl
      simp only [waitingStep, evQueueStep, evQueueRawPop_nil hrep, List.argmin_nil]
      exact ⟨⟨rfl, [], hrep, hrank⟩, trivial⟩
    | cons e es =>
      obtain ⟨hans, hrep', hpri⟩ := evQueueRawPop_cons hrep
      have hrank' := hrank.erase hwnd e
      rw [List.erase_cons_head] at hrank'
      simp only [waitingStep, evQueueStep, hrank.head, hans]
      exact ⟨⟨hpri, es, hrep', hrank'⟩, trivial⟩
  | rawDelete e =>
    by_cases he : e = 0
    · simp only [waitingStep, evQueueStep, evQueueRawDelete, he, if_true]
      exact ⟨⟨rfl, es, hrep, hrank⟩, trivial⟩
    by_cases hws : ws = []
    · have hhead : s.q.head = 0 := hrep.head_eq_zero.mpr (hnil.mpr hws)
      simp only [waitingStep, evQueueStep, evQueueRawDelete, he, hws, hhead, if_true, if_false]
      rw [← hws]
      exact ⟨⟨rfl, es, hrep, hrank⟩, trivial⟩
    by_cases hmem : e ∈ ws
    · obtain ⟨s', hs', hrep', hpri⟩ := evQueueRawDelete_present hrep (hrank.mem_iff.mpr hmem)
      simp only [waitingStep, evQueueStep, he, hws, hmem, if_true, if_false, hs']
      exact ⟨⟨hpri, _, hrep', hrank.erase hwnd e⟩, trivial⟩
    · have habs : e ∉ es := fun he => hmem (hrank.mem_iff.mp he)
      simp only [waitingStep, evQueueStep, he, hws, hmem, if_false,
        evQueueRawDelete_absent hrep he (fun h => hws (hnil.mp h)) habs]
      exact ⟨⟨rfl, es, hrep, hrank⟩, trivial⟩

theorem waitingStep_conserves (pri : ItemPtr → Nat) {ws : List ItemPtr} (k : EvQueueCall) (hnull : 0 ∉ ws) :
    0 ∉ (waitingStep pri ws k).1 ∧
    (ws ++ pushedBy k (waitingStep pri ws k).2).Perm
      (takenBy k (waitingStep pri ws k).2 ++ (waitingStep pri ws k).1) := by
  have herase : ∀ e ∈ ws, 0 ∉ ws.erase e ∧ (ws ++ []).Perm ([e] ++ ws.erase e) := by
    intro e he
    rw [List.append_nil]
    exact ⟨fun h => hnull (List.mem_of_mem_erase h), List.perm_cons_erase he⟩
  have hsame : 0 ∉ ws ∧ (ws ++ []).Perm ([] ++ ws) := ⟨hnull, by rw [List.append_nil, List.nil_append]⟩
  cases k with
  | rawPush e =>
    by_cases he : e = 0
    · simp only [waitingStep, he, if_true, pushedBy, takenBy]
      exact hsame
    · simp only [waitingStep, he, if_false, pushedBy, takenBy]
      rw [List.mem_append, List.mem_singleton, not_or, List.nil_append]
      exact ⟨⟨hnull, Ne.symm he⟩, List.Perm.refl _⟩
  | rawPop =>
    cases hmin : ws.argmin pri with
    | none =>
      simp only [waitingStep, hmin, pushedBy, takenBy, if_true]
      exact hsame
    | some e =>
      have hmem : e ∈ ws := List.argmin_mem hmin
      have he : e ≠ 0 := fun he => hnull (he ▸ hmem)
      simp only [waitingStep, hmin, pushedBy, takenBy, he, if_false]
      exact herase e hmem
  | rawDelete e =>
    simp only [waitingStep]
    by_cases he : e = 0
    · rw [if_pos he]
      exact hsame
    rw [if_neg he]
    by_cases hws : ws = []
    · rw [if_pos hws]
      exact hsame
    rw [if_neg hws]
    by_cases hmem : e ∈ ws
    · rw [if_pos hmem]
      exact herase e hmem
    · rw [if_neg hmem]
      exact hsame

/-- What was accepted has been taken out, or still waits. -/
theorem waiting_conserved (pri : ItemPtr → Nat) (ks : List EvQueueCall) (ws : List ItemPtr) (hnull : 0 ∉ ws) :
    (ws ++ pushedItems ks (run (waitingStep pri) ws ks).2).Perm
      (takenItems ks (run (waitingStep pri) ws ks).2 ++ (run (waitingStep pri) ws ks).1) := by
  induction ks generalizing ws with
  | nil => simp [run, pushedItems, takenItems]
  | cons k ks ih =>
    obtain ⟨hnull', hstep⟩ := waitingStep_conserves pri k hnull
    have hrest := ih _ hnull'
    simp only [run, pushedItems, takenItems, List.zipWith_cons_cons, List.flatten_cons]
    have hfirst := hstep.append_right (pushedItems ks (run (waitingStep pri) (waitingStep pri ws k).1 ks).2)
    rw [List.append_assoc, List.append_assoc] at hfirst
    rw [List.append_assoc]
    exact hfirst.trans (hrest.append_left _)

theorem evQueueRawPush_error {s s' : QueueMem} {e : ItemPtr} {sts : EvQueueSts}
    (h : evQueueRawPush s e = some (s', sts)) (hsts : sts ≠ .succ) : s' = s := by
  unfold evQueueRawPush at h
  split_ifs at h with he hhead
  · cases h
    rfl
  · cases h
    exact absurd rfl hsts
  · dsimp only at h
    split at h
    · cases h
      exact absurd rfl hsts
    · split at h
      · cases h
      · cases h
        exact absurd rfl hsts

theorem evQueueRawDelete_error {s s' : QueueMem} {e : ItemPtr} {sts : EvQueueSts}
    (h : evQueueRawDelete s e = some (s', sts)) (hsts : sts ≠ .succ) : s' = s := by
  unfold evQueueRawDelete at h
  split_ifs at h with he hhead hfirst
  · cases h
    rfl
  · cases h
    rfl
  · cases h
    exact absurd rfl hsts
  · split at h
    · cases h
    · split_ifs at h with hcur
      · cases h
        exact absurd rfl hsts
      · cases h
        rfl

/-- A call that answers an error leaves the queue as it is. -/
theorem evQueueStep_error {s : QueueMem} {k : EvQueueCall} {sts : EvQueueSts}
    (h : (evQueueStep s k).2 = some (.sts sts)) (hsts : sts ≠ .succ) : (evQueueStep s k).1 = s := by
  cases k with
  | rawPop => cases h
  | rawPush e =>
    simp only [evQueueStep] at h ⊢
    cases hr : evQueueRawPush s e with
    | none => rfl
    | some r =>
      rw [hr] at h
      cases h
      exact evQueueRawPush_error hr hsts
  | rawDelete e =>
    simp only [evQueueStep] at h ⊢
    cases hr : evQueueRawDelete s e with
    | none => rfl
    | some r =>
      rw [hr] at h
      cases h
      exact evQueueRawDelete_error hr hsts

/-- Under any calls the chain holds what waits, once each, by priority and by arrival among equals;
every call answers as the specification does, and no element is lost or repeated. -/
theorem evQueue_ordered (priFunc : Option (ItemPtr → BitVec 32)) (next : ItemPtr → ItemPtr) (ks : List EvQueueCall)
    (hks : Legal (waitingStep (priority priFunc)) PushedNew [] ks) :
    let s := run evQueueStep (evQueueInit priFunc next) ks
    let w := run (waitingStep (priority priFunc)) [] ks
    s.2 = w.2 ∧ ∃ es, Links s.1.next s.1.q.head es 0 ∧ s.1.q.tail = es.getLastD 0 ∧
      s.1.q.curNum.toNat = es.length ∧ es.Nodup ∧ 0 ∉ es ∧ Ranked (priority priFunc) w.1 es ∧
      (priFunc = none → es = w.1) ∧ (pushedItems ks s.2).Perm (takenItems ks s.2 ++ es) ∧
      ∀ k sts, (evQueueStep s.1 k).2 = some (.sts sts) → sts ≠ .succ → (evQueueStep s.1 k).1 = s.1 := by
  intro s w
  have hinit : Waits priFunc [] (evQueueInit priFunc next) := ⟨rfl, [], evQueueInit_rep priFunc next, Ranked.nil⟩
  obtain ⟨⟨hpri, es, hrep, hrank⟩, hans⟩ := run_refines (R := Waits priFunc) evQueueStep_waits hinit hks
  have hcons := waiting_conserved (priority priFunc) ks [] List.not_mem_nil
  rw [List.nil_append, hans] at hcons
  refine ⟨hans.symm, es, hrep.chain, hrep.tail, hrep.curNum, hrep.nodup, hrep.nonnull, hrank, ?_,
    hcons.trans (hrank.perm.symm.append_left _), fun k sts h => evQueueStep_error h⟩
  rintro rfl
  have hall := hrank.stable 0
  simpa [priority] using hall

/-- Three elements in two classes, with a pop and two deletes. -/
theorem evQueue_ordered_three :
    (run evQueueStep (evQueueInit (some fun e => e &&& 1) fun _ => 0)
      [.rawPush 9, .rawPush 4, .rawPush 8, .rawPop, .rawDelete 9, .rawDelete 9]).2 =
    (run (waitingStep (priority (some fun e => e &&& 1))) []
      [.rawPush 9, .rawPush 4, .rawPush 8, .rawPop, .rawDelete 9, .rawDelete 9]).2 :=
  (evQueue_ordered (some fun e => e &&& 1) (fun _ => 0)
    [.rawPush 9, .rawPush 4, .rawPush 8, .rawPop, .rawDelete 9, .rawDelete 9] (by decide)).1

end Rf4ce.Os
