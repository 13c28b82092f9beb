import Mathlib.Data.List.Basic

/-! Programs over a memory that changes by atomic operations only, and a weakest
precondition that also covers every state at which the power may fail. -/
namespace Rf4ce.Crash

/-- A memory from `A` to `V`, changed only inside the footprint of an operation. -/
class Device (Op : Type) (A V : outParam Type) where
  apply : (A → V) → Op → A → V
  foot : Op → A → Prop
  apply_outside : ∀ {s : A → V} {op : Op} {x : A}, ¬ foot op x → apply s op x = s x

variable {Op A V : Type} [Device Op A V] {α β : Type}

def run (s : A → V) (ops : List Op) : A → V := ops.foldl Device.apply s

@[simp] theorem run_nil (s : A → V) : run s ([] : List Op) = s := rfl

@[simp] theorem run_cons (s : A → V) (op : Op) (ops : List Op) :
    run s (op :: ops) = run (Device.apply s op) ops := rfl

@[simp] theorem run_append (s : A → V) (xs ys : List Op) :
    run s (xs ++ ys) = run (run s xs) ys := List.foldl_append

theorem run_outside {R : A → Prop} {ops : List Op}
    (h : ∀ op ∈ ops, ∀ x, Device.foot op x → R x) (s : A → V) {x : A} (hx : ¬ R x) :
    run s ops x = s x := by
  induction ops generalizing s with
  | nil => rfl
  | cons op ops ih =>
    rw [run_cons, ih (fun o ho => h o (List.mem_cons_of_mem _ ho))]
    exact Device.apply_outside fun hf => hx (h op List.mem_cons_self x hf)

/-- A program returns a value and the operations it issues, in order. -/
def Prog (Op : Type) {A V : Type} [Device Op A V] (α : Type) : Type :=
  (A → V) → α × List Op

instance : Monad (Prog Op) where
  pure a := fun _ => (a, [])
  bind m g := fun s =>
    let r := m s
    let r' := g r.1 (run s r.2)
    (r'.1, r.2 ++ r'.2)

/-- Look at the memory without changing it. -/
def query (g : (A → V) → α) : Prog Op α := fun s => (g s, [])

/-- Issue one atomic operation. -/
def issue (op : Op) : Prog Op Unit := fun _ => ((), [op])

theorem query_bind (q : (A → V) → α) (g : α → Prog Op β) : (query q >>= g : Prog Op β) = fun s => g (q s) s := rfl

theorem pure_bind_eq (a : α) (g : α → Prog Op β) : (pure a >>= g : Prog Op β) = g a := rfl

/-- The value of a program started in `s`. -/
def Prog.value (m : Prog Op α) (s : A → V) : α := (m s).1

/-- A program that looks at two memories and sees the same. -/
theorem value_query_congr {q : (A → V) → α} {g : α → Prog Op β} {s t : A → V} (hq : q t = q s)
    (hg : (g (q s)).value t = (g (q s)).value s) :
    (query q >>= g : Prog Op β).value t = (query q >>= g : Prog Op β).value s := by
  rw [query_bind]
  change (g (q t)).value t = (g (q s)).value s
  rw [hq, hg]

/-- The operations a program issues when started in `s`. -/
def Prog.ops (m : Prog Op α) (s : A → V) : List Op := (m s).2

/-- The memory after an undisturbed run. -/
def Prog.final (m : Prog Op α) (s : A → V) : A → V := run s (m.ops s)

theorem Prog.value_query (g : (A → V) → α) (s : A → V) : (query g : Prog Op α).value s = g s := rfl

theorem Prog.value_bind (m : Prog Op α) (g : α → Prog Op β) (s : A → V) :
    (m >>= g).value s = (g (m.value s)).value (m.final s) := rfl

theorem Prog.ops_bind (m : Prog Op α) (g : α → Prog Op β) (s : A → V) :
    (m >>= g).ops s = m.ops s ++ (g (m.value s)).ops (m.final s) := rfl

/-- The memories left behind when the power fails after some prefix of the operations.
The whole list is a prefix too, so an undisturbed run is included. -/
def Prog.Cut (m : Prog Op α) (s t : A → V) : Prop := ∃ ops, ops <+: m.ops s ∧ t = run s ops

theorem Prog.cut_final (m : Prog Op α) (s : A → V) : m.Cut s (m.final s) :=
  ⟨_, List.prefix_rfl, rfl⟩

/-- All operations stay in the region `R`, `Q` holds of the result and the memory at
the end, and `C` holds of the memory after every prefix of the operations. -/
def wp (R : A → Prop) (m : Prog Op α) (Q : α → (A → V) → Prop) (C : (A → V) → Prop)
    (s : A → V) : Prop :=
  (∀ op ∈ m.ops s, ∀ x, Device.foot op x → R x) ∧ Q (m.value s) (m.final s) ∧
    ∀ t, m.Cut s t → C t

/-- Whatever the memory, the value satisfies `P`. -/
def Prog.Yields (m : Prog Op α) (P : α → Prop) : Prop := ∀ s, P (m.value s)

theorem yields_pure {a : α} {P : α → Prop} (h : P a) : (pure a : Prog Op α).Yields P := fun _ => h

theorem yields_any {m : Prog Op α} {P : α → Prop} (h : ∀ a, P a) : m.Yields P := fun s => h (m.value s)

theorem yields_query {g : (A → V) → α} {P : α → Prop} (h : ∀ s, P (g s)) : (query g : Prog Op α).Yields P := h

theorem yields_bind {m : Prog Op α} {g : α → Prog Op β} {P : β → Prop}
    (h : m.Yields fun a => (g a).Yields P) : (m >>= g).Yields P := fun s => h s (m.final s)

theorem yields_ite {p : Prop} [Decidable p] {m m' : Prog Op α} {P : α → Prop} (h : p → m.Yields P)
    (h' : ¬ p → m'.Yields P) : (if p then m else m').Yields P := by
  split_ifs with hp
  · exact h hp
  · exact h' hp

theorem Prog.Yields.mono {m : Prog Op α} {P Q : α → Prop} (h : m.Yields P) (hPQ : ∀ a, P a → Q a) :
    m.Yields Q := fun s => hPQ _ (h s)

variable {R R' : A → Prop} {m : Prog Op α} {g : α → Prog Op β}
variable {Q Q' : α → (A → V) → Prop} {C C' : (A → V) → Prop} {s : A → V}

theorem wp_result (h : wp R m Q C s) : Q (m.value s) (m.final s) := h.2.1

theorem wp_cut (h : wp R m Q C s) {t : A → V} (ht : m.Cut s t) : C t := h.2.2 t ht

theorem wp_pure {a : α} (hQ : Q a s) (hC : C s) : wp R (pure a : Prog Op α) Q C s := by
  refine ⟨fun op hop => absurd hop List.not_mem_nil, hQ, ?_⟩
  rintro t ⟨ops, hops, rfl⟩
  obtain rfl := List.prefix_nil.mp hops
  exact hC

theorem wp_query {q : (A → V) → α} (hQ : Q (q s) s) (hC : C s) :
    wp R (query q : Prog Op α) Q C s := wp_pure (a := q s) hQ hC

theorem wp_issue {op : Op} {Q : Unit → (A → V) → Prop}
    (hR : ∀ x, Device.foot op x → R x) (hC : C s)
    (hC' : C (Device.apply s op)) (hQ : Q () (Device.apply s op)) :
    wp R (issue op) Q C s := by
  refine ⟨fun o ho => ?_, hQ, ?_⟩
  · obtain rfl := List.mem_singleton.mp ho
    exact hR
  · rintro t ⟨ops, hops, rfl⟩
    rcases List.prefix_cons_iff.mp hops with rfl | ⟨l, rfl, hl⟩
    · exact hC
    · obtain rfl := List.prefix_nil.mp hl
      exact hC'

/-- Sequencing: the crash condition of the whole holds at every point of either part. -/
theorem wp_bind {Q : β → (A → V) → Prop}
    (h : wp R m (fun a t => wp R (g a) Q C t) C s) : wp R (m >>= g) Q C s := by
  obtain ⟨hR, ⟨hR', hQ, hC'⟩, hC⟩ := h
  have hops := Prog.ops_bind m g s
  refine ⟨fun op hop => ?_, ?_, ?_⟩
  · rw [hops] at hop
    rcases List.mem_append.mp hop with h | h
    · exact hR op h
    · exact hR' op h
  · have hfin : (m >>= g).final s = (g (m.value s)).final (m.final s) := by
      simp only [Prog.final, hops, run_append]
    rw [hfin]
    exact hQ
  · rintro t ⟨ops, hpre, rfl⟩
    rw [hops] at hpre
    rcases List.prefix_or_prefix_of_prefix hpre (List.prefix_append _ _) with h | ⟨l, rfl⟩
    · exact hC _ ⟨ops, h, rfl⟩
    · rw [run_append]
      exact hC' _ ⟨l, (List.prefix_append_right_inj _).mp hpre, rfl⟩

theorem wp_mono (h : wp R m Q C s) (hQ : ∀ a t, Q a t → Q' a t) (hC : ∀ t, C t → C' t) :
    wp R m Q' C' s :=
  ⟨h.1, hQ _ _ h.2.1, fun t ht => hC t (h.2.2 t ht)⟩

theorem wp_region (h : wp R m Q C s) (hR : ∀ x, R x → R' x) : wp R' m Q C s :=
  ⟨fun op hop x hx => hR x (h.1 op hop x hx), h.2⟩

/-- Two facts about the same run hold together. -/
theorem wp_and (h : wp R m Q C s) (h' : wp R' m Q' C' s) :
    wp R m (fun a t => Q a t ∧ Q' a t) (fun t => C t ∧ C' t) s :=
  ⟨h.1, ⟨h.2.1, h'.2.1⟩, fun t ht => ⟨h.2.2 t ht, h'.2.2 t ht⟩⟩

/-- What lies outside the region of a program is the same at every point of its run. -/
theorem wp_frame (h : wp R m Q C s) :
    wp R m (fun a t => Q a t ∧ ∀ x, ¬ R x → t x = s x)
      (fun t => C t ∧ ∀ x, ¬ R x → t x = s x) s := by
  refine ⟨h.1, ⟨h.2.1, fun x hx => run_outside h.1 s hx⟩, ?_⟩
  rintro t ⟨ops, hops, rfl⟩
  refine ⟨h.2.2 _ ⟨ops, hops, rfl⟩, fun x hx => run_outside (fun op hop => ?_) s hx⟩
  exact h.1 op (hops.subset hop)

/-- A known first step, then the rest; outside the region of the step nothing has changed. -/
theorem wp_seq {R₁ : A → Prop} {Q₁ : α → (A → V) → Prop} {C₁ : (A → V) → Prop} {Q : β → (A → V) → Prop}
    (h : wp R₁ m Q₁ C₁ s) (hR : ∀ x, R₁ x → R x)
    (hC : ∀ t, C₁ t → (∀ x, ¬ R₁ x → t x = s x) → C t)
    (hQ : ∀ a t, Q₁ a t → (∀ x, ¬ R₁ x → t x = s x) → wp R (g a) Q C t) : wp R (m >>= g) Q C s := by
  apply wp_bind
  apply wp_region (wp_mono (wp_frame h) _ _) hR
  · exact fun a t hpost => hQ a t hpost.1 hpost.2
  · exact fun t hcut => hC t hcut.1 hcut.2

/-- A fact about the end of a run that asks nothing of the way there. -/
theorem wp_of_result (h : Q (m.value s) (m.final s)) : wp (fun _ => True) m Q (fun _ => True) s :=
  ⟨fun _ _ _ _ => trivial, h, fun _ _ => trivial⟩

/-- Where nothing is asked of the memory, the value alone decides. -/
theorem Prog.Yields.wp {P : α → Prop} (h : m.Yields P) (s : A → V) :
    wp (fun _ => True) m (fun a _ => P a) (fun _ => True) s :=
  wp_of_result (h s)

end Rf4ce.Crash
