import Rf4ce.Refine.Run

/-! Computations that record what they touch, and what it means that all of it is allowed. -/
namespace Rf4ce.Refine

variable {A α β : Type}

/-- A result with the accesses made for it, in order. -/
structure Traced (A α : Type) where
  value : α
  trace : List A

namespace Traced

instance : Monad (Traced A) where
  pure a := ⟨a, []⟩
  bind m g := ⟨(g m.value).value, m.trace ++ (g m.value).trace⟩

def touch (a : A) : Traced A Unit := ⟨(), [a]⟩

/-- Every recorded access is allowed. -/
def Within (P : A → Prop) (m : Traced A α) : Prop := ∀ a ∈ m.trace, P a

variable {P : A → Prop} {m : Traced A α} {g : α → Traced A β}

@[simp] theorem value_pure (a : α) : (pure a : Traced A α).value = a := rfl

@[simp] theorem value_bind (m : Traced A α) (g : α → Traced A β) : (m >>= g).value = (g m.value).value := rfl

@[simp] theorem trace_touch (a : A) : (touch a).trace = [a] := rfl

@[simp] theorem trace_pure (a : α) : (pure a : Traced A α).trace = [] := rfl

@[simp] theorem trace_bind (m : Traced A α) (g : α → Traced A β) :
    (m >>= g).trace = m.trace ++ (g m.value).trace := rfl

@[simp] theorem within_pure (a : α) : (pure a : Traced A α).Within P ↔ True := by
  simp [Within]

@[simp] theorem within_touch (a : A) : (touch a).Within P ↔ P a := by
  simp [Within]

@[simp] theorem within_bind : (m >>= g).Within P ↔ m.Within P ∧ (g m.value).Within P := by
  simp [Within, or_imp, forall_and]

theorem within_ite {c : Prop} [Decidable c] {m m' : Traced A α} :
    (if c then m else m').Within P ↔ (c → m.Within P) ∧ (¬ c → m'.Within P) := by
  split_ifs with h
  · simp [h]
  · simp [h]

end Traced

/-! ### Runs -/

variable {σ κ : Type}

/-- All answers of a run have a property if every step answers so. -/
theorem answers_iff {ρ : Type} {step : σ → κ → σ × ρ} {P : ρ → Prop} {s : σ} {ks : List κ} :
    (∀ r ∈ (run step s ks).2, P r) ↔ Legal step (fun s k => P (step s k).2) s ks := by
  induction ks generalizing s with
  | nil => simp [run, Legal]
  | cons k ks ih => simp [run, Legal, ih]

end Rf4ce.Refine
