import Rf4ce.Refine.Run
import Mathlib.Data.BitVec

/-! The user task queue of `task_queue.c`. -/
namespace Rf4ce.Os
open Refine

def tlTaskqUseruseSize : Nat := 16

/-- `tl_zb_task_t`: the addresses of the callback and of its argument. -/
structure TlZbTask where
  tlCb : Nat
  data : Nat
deriving DecidableEq, Repr

/-- `tl_taskq_user_t` -/
structure TlTaskqUser where
  evt : Nat → TlZbTask
  wptr : BitVec 8
  rptr : BitVec 8

inductive ZbRet where
  | ok | overflow
deriving DecidableEq, Repr

/-- `TL_QUEUE_HAS_SPACE`: the operands are promoted to `int` before the subtraction. -/
def tlQueueHasSpace (wptr rptr : BitVec 8) (size : Nat) : Bool :=
  (wptr.toNat : Int) - rptr.toNat < size

def taskSchedInit : TlTaskqUser := ⟨fun _ => ⟨0, 0⟩, 0, 0⟩

def tlTaskQPush (q : TlTaskqUser) (idx : Nat) (task : TlZbTask) : TlTaskqUser × ZbRet :=
  if idx = 0 ∧ tlQueueHasSpace q.wptr q.rptr tlTaskqUseruseSize then
    let slot := q.wptr.toNat % tlTaskqUseruseSize
    ({ q with evt := Function.update q.evt slot task, wptr := q.wptr + 1 }, .ok)
  else (q, .overflow)

/-- `tl_taskQPop`: the task copied to `taskInfo`, or `none` for the result NULL. -/
def tlTaskQPop (q : TlTaskqUser) (idx : Nat) : TlTaskqUser × Option TlZbTask :=
  if idx = 0 ∧ q.rptr ≠ q.wptr then
    ({ q with rptr := q.rptr + 1 }, some (q.evt (q.rptr.toNat % tlTaskqUseruseSize)))
  else (q, none)

def tlUserTaskQNum (q : TlTaskqUser) : Nat := (q.wptr - q.rptr).toNat

/-- The calls on index 0. -/
def tlTaskQStep (q : TlTaskqUser) : QueueCall TlZbTask → TlTaskqUser × QueueAns TlZbTask
  | .push task =>
    let r := tlTaskQPush q 0 task
    (r.1, match r.2 with
      | .ok => .accepted
      | .overflow => .refused)
  | .pop =>
    let r := tlTaskQPop q 0
    (r.1, match r.2 with
      | some task => .popped task
      | none => .empty)

/-! ### Refinement -/

/-- The queue holds the tasks `l`; `r` counts the tasks popped so far. -/
structure TaskQRep (q : TlTaskqUser) (r : Nat) (l : List TlZbTask) : Prop where
  rptr : q.rptr = BitVec.ofNat 8 r
  wptr : q.wptr = BitVec.ofNat 8 (r + l.length)
  ring : RingHolds tlTaskqUseruseSize q.evt r l

/-- The size divides 256, so the slot of an entry does not show the wraps of its counter. -/
theorem slot_eq (k : Nat) : (BitVec.ofNat 8 k).toNat % tlTaskqUseruseSize = k % tlTaskqUseruseSize := by
  rw [BitVec.toNat_ofNat]
  exact Nat.mod_mod_of_dvd k (by decide)

theorem TaskQRep.num {q : TlTaskqUser} {r : Nat} {l : List TlZbTask} (h : TaskQRep q r l) :
    tlUserTaskQNum q = l.length := by
  have hlen : l.length ≤ 16 := h.ring.1
  unfold tlUserTaskQNum
  rw [h.rptr, h.wptr, BitVec.toNat_sub, BitVec.toNat_ofNat, BitVec.toNat_ofNat]
  omega

theorem TaskQRep.empty_iff {q : TlTaskqUser} {r : Nat} {l : List TlZbTask} (h : TaskQRep q r l) :
    q.rptr = q.wptr ↔ l = [] := by
  rw [← List.length_eq_zero_iff, ← h.num]
  unfold tlUserTaskQNum
  rw [BitVec.toNat_eq, BitVec.toNat_sub]
  omega

/-- The comparison is right unless `wptr` alone has wrapped. -/
theorem TaskQRep.hasSpace {q : TlTaskqUser} {r : Nat} {l : List TlZbTask} (h : TaskQRep q r l) :
    tlQueueHasSpace q.wptr q.rptr tlTaskqUseruseSize = true ↔
      l.length < tlTaskqUseruseSize ∨ q.wptr.toNat < q.rptr.toNat := by
  have hnum := h.num
  have hlen : l.length ≤ 16 := h.ring.1
  unfold tlUserTaskQNum at hnum
  rw [BitVec.toNat_sub] at hnum
  unfold tlQueueHasSpace tlTaskqUseruseSize
  rw [decide_eq_true_iff]
  omega

/-- A push that the promoted comparison judges rightly: not one onto a full queue whose
write pointer alone has wrapped. -/
def PushSafe (q : TlTaskqUser) : QueueCall TlZbTask → Prop
  | .push _ => ¬ (tlUserTaskQNum q = tlTaskqUseruseSize ∧ q.wptr.toNat < q.rptr.toNat)
  | .pop => True

instance (q : TlTaskqUser) (k : QueueCall TlZbTask) : Decidable (PushSafe q k) :=
  match k with
  | .push _ => inferInstanceAs (Decidable (¬ _))
  | .pop => inferInstanceAs (Decidable True)

def TaskQRefines (q : TlTaskqUser) (l : List TlZbTask) : Prop := ∃ r, TaskQRep q r l

theorem taskSchedInit_refines : TaskQRefines taskSchedInit [] := ⟨0, rfl, rfl, .nil _ _ _⟩

theorem tlTaskQStep_refines (q : TlTaskqUser) (l : List TlZbTask) (k : QueueCall TlZbTask)
    (h : TaskQRefines q l) (hk : PushSafe q k) :
    TaskQRefines (tlTaskQStep q k).1 (fifoStep tlTaskqUseruseSize l k).1 ∧
      (tlTaskQStep q k).2 = (fifoStep tlTaskqUseruseSize l k).2 := by
  obtain ⟨r, hrep⟩ := h
  cases k with
  | push task =>
    have hspace := hrep.hasSpace
    by_cases hl : l.length < tlTaskqUseruseSize
    · have hroom : tlQueueHasSpace q.wptr q.rptr tlTaskqUseruseSize = true := hspace.mpr (.inl hl)
      have hslot : q.wptr.toNat % tlTaskqUseruseSize = (r + l.length) % tlTaskqUseruseSize := by
        rw [hrep.wptr, slot_eq]
      simp only [tlTaskQStep, tlTaskQPush, hroom, fifoStep, hl, if_true, and_self]
      refine ⟨⟨r, hrep.rptr, ?_, hrep.ring.push hl ?_ ?_⟩, trivial⟩
      · rw [List.length_append, List.length_singleton, ← Nat.add_assoc, BitVec.ofNat_add, ← hrep.wptr]
        rfl
      · rw [← hslot]
        exact Function.update_self _ _ _
      · intro j _ hj
        rw [← hslot] at hj
        exact Function.update_of_ne hj _ _
    · have hfull : l.length = tlTaskqUseruseSize := Nat.le_antisymm hrep.ring.1 (Nat.le_of_not_lt hl)
      have hnoroom : tlQueueHasSpace q.wptr q.rptr tlTaskqUseruseSize = false := by
        rw [← Bool.not_eq_true, hspace]
        rintro (h | h)
        · exact hl h
        · exact hk ⟨hrep.num.trans hfull, h⟩
      simp only [tlTaskQStep, tlTaskQPush, hnoroom, fifoStep, hl, if_false, and_false, Bool.false_eq_true]
      exact ⟨⟨r, hrep⟩, trivial⟩
  | pop =>
    cases l with
    | nil =>
      have heq : q.rptr = q.wptr := hrep.empty_iff.mpr rfl
      simp only [tlTaskQStep, tlTaskQPop, heq, ne_eq, not_true_eq_false, and_false, if_false, fifoStep]
      exact ⟨⟨r, hrep⟩, trivial⟩
    | cons a l =>
      have hne : q.rptr ≠ q.wptr := fun h => List.cons_ne_nil a l (hrep.empty_iff.mp h)
      have hslot : q.evt (q.rptr.toNat % tlTaskqUseruseSize) = a := by
        rw [hrep.rptr, slot_eq]
        exact hrep.ring.head
      simp only [tlTaskQStep, tlTaskQPop, hne, ne_eq, not_false_eq_true, and_self, if_true, fifoStep, hslot]
      refine ⟨⟨r + 1, ?_, ?_, hrep.ring.pop⟩, trivial⟩
      · rw [BitVec.ofNat_add, ← hrep.rptr]
        rfl
      · rw [hrep.wptr, List.length_cons]
        congr 1
        omega

/-- Until a push meets a full queue whose write pointer alone has wrapped, the task queue
answers as a queue of capacity 16, loses and repeats nothing, and counts what waits. -/
theorem tlTaskQ_fifo (ks : List (QueueCall TlZbTask)) (hks : Legal tlTaskQStep PushSafe taskSchedInit ks) :
    (run tlTaskQStep taskSchedInit ks).2 = (run (fifoStep tlTaskqUseruseSize) [] ks).2 ∧
    tlUserTaskQNum (run tlTaskQStep taskSchedInit ks).1 =
      (run (fifoStep tlTaskqUseruseSize) [] ks).1.length ∧
    acceptedValues ks (run tlTaskQStep taskSchedInit ks).2 =
      poppedValues (run tlTaskQStep taskSchedInit ks).2 ++ (run (fifoStep tlTaskqUseruseSize) [] ks).1 := by
  obtain ⟨⟨r, hrep⟩, hans⟩ := run_refines tlTaskQStep_refines taskSchedInit_refines hks
  refine ⟨hans, hrep.num, ?_⟩
  rw [hans]
  exact fifo_conservation tlTaskqUseruseSize [] ks

/-- Three tasks through the queue. -/
theorem tlTaskQ_fifo_three :
    acceptedValues [.push ⟨1, 0⟩, .push ⟨2, 0⟩, .pop, .push ⟨3, 0⟩]
      (run tlTaskQStep taskSchedInit [.push ⟨1, 0⟩, .push ⟨2, 0⟩, .pop, .push ⟨3, 0⟩]).2 =
    [⟨1, 0⟩] ++ [⟨2, 0⟩, ⟨3, 0⟩] :=
  (tlTaskQ_fifo [.push ⟨1, 0⟩, .push ⟨2, 0⟩, .pop, .push ⟨3, 0⟩] (by decide)).2.2

set_option maxRecDepth 20000 in
/-- After 240 tasks have passed and 16 wait, one more is accepted over the oldest and comes
out first. -/
theorem tlTaskQPush_over_full :
    let ks := (List.replicate 240 [QueueCall.push ⟨1, 0⟩, .pop]).flatten ++
      List.replicate 16 (.push ⟨2, 0⟩) ++ [.push ⟨3, 0⟩, .pop]
    (run tlTaskQStep taskSchedInit ks).2.drop 496 = [.accepted, .popped ⟨3, 0⟩] ∧
      (run (fifoStep tlTaskqUseruseSize) [] ks).2.drop 496 = [.refused, .popped ⟨2, 0⟩] := by
  decide +kernel

end Rf4ce.Os
