import Mathlib.Data.List.Basic
import Mathlib.Data.Nat.ModEq

/-! Runs of a machine that answers calls, refinement between two machines, and bounded
first-in-first-out queues. -/
namespace Rf4ce.Refine

variable {σ τ κ ρ α : Type}

/-- The state after a list of calls, and the answers in order. -/
def run (step : σ → κ → σ × ρ) : σ → List κ → σ × List ρ
  | s, [] => (s, [])
  | s, k :: ks =>
    let r := step s k
    let rest := run step r.1 ks
    (rest.1, r.2 :: rest.2)

/-- Every call of the list is legal in the state in which the machine receives it. -/
def Legal (step : σ → κ → σ × ρ) (legal : σ → κ → Prop) : σ → List κ → Prop
  | _, [] => True
  | s, k :: ks => legal s k ∧ Legal step legal (step s k).1 ks

instance Legal.decidable (step : σ → κ → σ × ρ) (legal : σ → κ → Prop)
    [h : ∀ s k, Decidable (legal s k)] : ∀ s ks, Decidable (Legal step legal s ks)
  | _, [] => isTrue trivial
  | s, k :: ks => @instDecidableAnd _ _ (h s k) (Legal.decidable step legal (step s k).1 ks)

/-- A condition on the calls alone. -/
theorem legal_forall {step : σ → κ → σ × ρ} {P : κ → Prop} {s : σ} {ks : List κ} :
    Legal step (fun _ k => P k) s ks ↔ ∀ k ∈ ks, P k := by
  induction ks generalizing s with
  | nil => simp [Legal]
  | cons k ks ih => simp [Legal, ih]

theorem run_state_append {step : σ → κ → σ × ρ} {s : σ} {ks ls : List κ} :
    (run step s (ks ++ ls)).1 = (run step (run step s ks).1 ls).1 := by
  induction ks generalizing s with
  | nil => rfl
  | cons k ks ih => exact ih

theorem run_answers_append {step : σ → κ → σ × ρ} {s : σ} {ks ls : List κ} :
    (run step s (ks ++ ls)).2 = (run step s ks).2 ++ (run step (run step s ks).1 ls).2 := by
  induction ks generalizing s with
  | nil => rfl
  | cons k ks ih => exact congrArg _ ih

theorem legal_append {step : σ → κ → σ × ρ} {legal : σ → κ → Prop} {s : σ} {ks ls : List κ} :
    Legal step legal s (ks ++ ls) ↔ Legal step legal s ks ∧ Legal step legal (run step s ks).1 ls := by
  induction ks generalizing s with
  | nil => exact (and_iff_right trivial).symm
  | cons k ks ih =>
    constructor
    · rintro ⟨hk, hrest⟩
      obtain ⟨hks, hls⟩ := ih.mp hrest
      exact ⟨⟨hk, hks⟩, hls⟩
    · rintro ⟨⟨hk, hks⟩, hls⟩
      exact ⟨hk, ih.mpr ⟨hks, hls⟩⟩

/-- An invariant of every legal step holds at the end of a legal run. -/
theorem run_invariant {step : σ → κ → σ × ρ} {legal : σ → κ → Prop} {I : σ → Prop}
    (hstep : ∀ s k, I s → legal s k → I (step s k).1) {s : σ} {ks : List κ} (hs : I s)
    (hks : Legal step legal s ks) : I (run step s ks).1 := by
  induction ks generalizing s with
  | nil => exact hs
  | cons k ks ih => exact ih (hstep s k hs hks.1) hks.2

/-- What an invariant gives for the answer of every legal step, it gives for all answers of a
legal run. -/
theorem run_answers {step : σ → κ → σ × ρ} {legal : σ → κ → Prop} {I : σ → Prop} {P : ρ → Prop}
    (hstep : ∀ s k, I s → legal s k → I (step s k).1 ∧ P (step s k).2) {s : σ} {ks : List κ} (hs : I s)
    (hks : Legal step legal s ks) : ∀ a ∈ (run step s ks).2, P a := by
  induction ks generalizing s with
  | nil =>
    intro a ha
    cases ha
  | cons k ks ih =>
    obtain ⟨hI, hP⟩ := hstep s k hs hks.1
    intro a ha
    rcases List.mem_cons.mp ha with rfl | ha
    · exact hP
    · exact ih hI hks.2 a ha

/-- Over steps that an environment allows, two step conditions agree in runs when they agree
wherever an invariant holds that the first one keeps. -/
theorem legal_iff {step : σ → κ → σ × ρ} {env P Q : σ → κ → Prop} {I : σ → Prop}
    (hstep : ∀ s k, I s → env s k → (P s k ↔ Q s k)) (hkeep : ∀ s k, I s → env s k → P s k → I (step s k).1)
    {s : σ} {ks : List κ} (hs : I s) (henv : Legal step env s ks) :
    Legal step P s ks ↔ Legal step Q s ks := by
  induction ks generalizing s with
  | nil => rfl
  | cons k ks ih =>
    obtain ⟨hk, henv⟩ := henv
    constructor
    · rintro ⟨hP, hrest⟩
      exact ⟨(hstep s k hs hk).mp hP, (ih (hkeep s k hs hk hP) henv).mp hrest⟩
    · rintro ⟨hQ, hrest⟩
      have hP := (hstep s k hs hk).mpr hQ
      exact ⟨hP, (ih (hkeep s k hs hk hP) henv).mpr hrest⟩

/-- A step condition that an invariant gives holds at every step of a legal run. -/
theorem legal_of {step : σ → κ → σ × ρ} {env P Q : σ → κ → Prop} {I : σ → Prop}
    (hstep : ∀ s k, I s → env s k → Q s k → I (step s k).1 ∧ P s k) {s : σ} {ks : List κ} (hs : I s)
    (henv : Legal step env s ks) (hQ : Legal step Q s ks) : Legal step P s ks := by
  induction ks generalizing s with
  | nil => trivial
  | cons k ks ih =>
    obtain ⟨hI, hP⟩ := hstep s k hs henv.1 hQ.1
    exact ⟨hP, ih hI henv.2 hQ.2⟩

/-- A legal run leads from one state to the other. -/
def Reaches (step : σ → κ → σ × ρ) (legal : σ → κ → Prop) (s s' : σ) : Prop :=
  ∃ ks, Legal step legal s ks ∧ (run step s ks).1 = s'

section Reaches
variable {step : σ → κ → σ × ρ} {legal : σ → κ → Prop} {s s' s'' : σ}

theorem Reaches.refl (s : σ) : Reaches step legal s s := ⟨[], trivial, rfl⟩

theorem Reaches.single {k : κ} (hk : legal s k) : Reaches step legal s (step s k).1 := ⟨[k], ⟨hk, trivial⟩, rfl⟩

theorem Reaches.trans (h : Reaches step legal s s') (h' : Reaches step legal s' s'') : Reaches step legal s s'' := by
  obtain ⟨ks, hks, rfl⟩ := h
  obtain ⟨ls, hls, rfl⟩ := h'
  exact ⟨ks ++ ls, legal_append.mpr ⟨hks, hls⟩, run_state_append⟩

theorem Reaches.invariant {I : σ → Prop} (hstep : ∀ s k, I s → legal s k → I (step s k).1)
    (h : Reaches step legal s s') (hs : I s) : I s' := by
  obtain ⟨ks, hks, rfl⟩ := h
  exact run_invariant hstep hs hks

end Reaches

/-- Machines whose legal steps answer alike and keep a relation answer alike in legal runs. -/
theorem run_refines {cstep : σ → κ → σ × ρ} {astep : τ → κ → τ × ρ} {legal : σ → κ → Prop}
    {R : σ → τ → Prop}
    (hstep : ∀ s t k, R s t → legal s k →
      R (cstep s k).1 (astep t k).1 ∧ (cstep s k).2 = (astep t k).2)
    {s : σ} {t : τ} {ks : List κ} (h : R s t) (hks : Legal cstep legal s ks) :
    R (run cstep s ks).1 (run astep t ks).1 ∧ (run cstep s ks).2 = (run astep t ks).2 := by
  induction ks generalizing s t with
  | nil => exact ⟨h, rfl⟩
  | cons k ks ih =>
    obtain ⟨hR, hans⟩ := hstep s t k h hks.1
    obtain ⟨hR', hrest⟩ := ih hR hks.2
    refine ⟨hR', ?_⟩
    simp only [run, hans, hrest]

/-! ### Specifications with choices -/

/-- The calls and answers lead from one state of the specification to the other. -/
inductive Allows (spec : τ → κ → ρ → τ → Prop) : τ → List κ → List ρ → τ → Prop where
  | nil (t : τ) : Allows spec t [] [] t
  | cons {t t' t'' : τ} {k : κ} {a : ρ} {ks : List κ} {as : List ρ} (hstep : spec t k a t')
      (hrest : Allows spec t' ks as t'') : Allows spec t (k :: ks) (a :: as) t''

/-- A relation that every legal step keeps with some choice of the specification. -/
theorem run_allowed {step : σ → κ → σ × ρ} {spec : τ → κ → ρ → τ → Prop} {legal : σ → κ → Prop} {R : σ → τ → Prop}
    (hstep : ∀ s t k, R s t → legal s k → ∃ t', spec t k (step s k).2 t' ∧ R (step s k).1 t') {s : σ} {t : τ}
    {ks : List κ} (h : R s t) (hks : Legal step legal s ks) :
    ∃ t', Allows spec t ks (run step s ks).2 t' ∧ R (run step s ks).1 t' := by
  induction ks generalizing s t with
  | nil => exact ⟨t, .nil t, h⟩
  | cons k ks ih =>
    obtain ⟨t', hspec, hR⟩ := hstep s t k h hks.1
    obtain ⟨t'', hrest, hend⟩ := ih hR hks.2
    exact ⟨t'', .cons hspec hrest, hend⟩

/-! ### Bounded queues -/

inductive QueueCall (α : Type) where
  | push (a : α)
  | pop
deriving DecidableEq, Repr

inductive QueueAns (α : Type) where
  | accepted | refused
  | popped (a : α)
  | empty
deriving DecidableEq, Repr

/-- A queue of capacity `n`; the list holds what waits, oldest first. -/
def fifoStep (n : Nat) (l : List α) : QueueCall α → List α × QueueAns α
  | .push a => if l.length < n then (l ++ [a], .accepted) else (l, .refused)
  | .pop =>
    match l with
    | [] => ([], .empty)
    | a :: l => (l, .popped a)

/-- The pushed values that were accepted. -/
def acceptedValues : List (QueueCall α) → List (QueueAns α) → List α
  | .push a :: ks, .accepted :: rs => a :: acceptedValues ks rs
  | _ :: ks, _ :: rs => acceptedValues ks rs
  | _, _ => []

def poppedValues : List (QueueAns α) → List α
  | [] => []
  | .popped a :: rs => a :: poppedValues rs
  | _ :: rs => poppedValues rs

/-- What was accepted has been popped in that order or still waits. -/
theorem fifo_conservation (n : Nat) (l : List α) (ks : List (QueueCall α)) :
    l ++ acceptedValues ks (run (fifoStep n) l ks).2 =
      poppedValues (run (fifoStep n) l ks).2 ++ (run (fifoStep n) l ks).1 := by
  induction ks generalizing l with
  | nil => simp [run, acceptedValues, poppedValues]
  | cons k ks ih =>
    cases k with
    | push a =>
      by_cases h : l.length < n
      · have hl := ih (l ++ [a])
        rw [List.append_assoc] at hl
        simpa [run, fifoStep, h, acceptedValues, poppedValues] using hl
      · simpa [run, fifoStep, h, acceptedValues, poppedValues] using ih l
    | pop =>
      cases l with
      | nil => simpa [run, fifoStep, acceptedValues, poppedValues] using ih []
      | cons a l => simpa [run, fifoStep, acceptedValues, poppedValues] using ih l

/-! ### Rings -/

/-- Entry `k` of a stream lives in slot `k % n`: the ring holds the entries `l` from `r` on. -/
def RingHolds (n : Nat) (slots : Nat → α) (r : Nat) (l : List α) : Prop :=
  l.length ≤ n ∧ ∀ i (h : i < l.length), slots ((r + i) % n) = l[i]

theorem RingHolds.nil (n : Nat) (slots : Nat → α) (r : Nat) : RingHolds n slots r [] :=
  ⟨Nat.zero_le n, fun _ h => absurd h (Nat.not_lt_zero _)⟩

/-- A new entry overwrites no waiting one while there is room. -/
theorem RingHolds.push {n : Nat} {slots slots' : Nat → α} {r : Nat} {l : List α} {a : α}
    (h : RingHolds n slots r l) (hroom : l.length < n) (hnew : slots' ((r + l.length) % n) = a)
    (hold : ∀ k < n, k ≠ (r + l.length) % n → slots' k = slots k) :
    RingHolds n slots' r (l ++ [a]) := by
  refine ⟨?_, fun i hi => ?_⟩
  · rw [List.length_append]
    exact hroom
  rw [List.length_append, List.length_singleton] at hi
  by_cases hl : i < l.length
  · have hne : (r + i) % n ≠ (r + l.length) % n := by
      intro heq
      have hmod : i % n = l.length % n := Nat.ModEq.add_left_cancel' r heq
      rw [Nat.mod_eq_of_lt (by omega), Nat.mod_eq_of_lt hroom] at hmod
      omega
    rw [hold _ (Nat.mod_lt _ (by omega)) hne, h.2 i hl, List.getElem_append_left hl]
  · obtain rfl : i = l.length := by omega
    rw [hnew, List.getElem_append_right (Nat.le_refl _)]
    simp

theorem RingHolds.head {n : Nat} {slots : Nat → α} {r : Nat} {a : α} {l : List α}
    (h : RingHolds n slots r (a :: l)) : slots (r % n) = a := h.2 0 (Nat.succ_pos _)

theorem RingHolds.pop {n : Nat} {slots : Nat → α} {r : Nat} {a : α} {l : List α}
    (h : RingHolds n slots r (a :: l)) : RingHolds n slots (r + 1) l := by
  obtain ⟨hlen, hslots⟩ := h
  rw [List.length_cons] at hlen
  refine ⟨by omega, fun i hi => ?_⟩
  have hi' := hslots (i + 1) (by rw [List.length_cons]; omega)
  rw [List.getElem_cons_succ] at hi'
  rw [← hi', Nat.add_assoc, Nat.add_comm 1 i]

end Rf4ce.Refine
