import Rf4ce.Crash.Program

/-! Programs under a monitor, which follows their operations and stops at a forbidden one. -/
namespace Rf4ce.Crash

variable {Op A V M : Type} [Device Op A V] {α β : Type}

/-- The monitor follows the whole program from `m`, and `Q` holds at the end. -/
def Watched (mon : M → Op → Option M) (m : M) (p : Prog Op α) (Q : M → α → (A → V) → Prop) (s : A → V) : Prop :=
  ∃ m', (p.ops s).foldlM mon m = some m' ∧ Q m' (p.value s) (p.final s)

variable {mon : M → Op → Option M} {m : M} {s : A → V}

theorem watched_pure {a : α} {Q : M → α → (A → V) → Prop} (h : Q m a s) :
    Watched mon m (pure a : Prog Op α) Q s := ⟨m, rfl, h⟩

theorem watched_query {g : (A → V) → α} {Q : M → α → (A → V) → Prop} (h : Q m (g s) s) :
    Watched mon m (query g : Prog Op α) Q s := ⟨m, rfl, h⟩

theorem watched_issue {op : Op} {m' : M} {Q : M → Unit → (A → V) → Prop} (hop : mon m op = some m')
    (h : Q m' () (Device.apply s op)) : Watched mon m (issue op) Q s := by
  refine ⟨m', ?_, h⟩
  change mon m op >>= pure = some m'
  rw [hop]
  rfl

theorem watched_bind {p : Prog Op α} {g : α → Prog Op β} {Q : M → β → (A → V) → Prop}
    (h : Watched mon m p (fun m' a t => Watched mon m' (g a) Q t) s) : Watched mon m (p >>= g) Q s := by
  obtain ⟨m₁, h₁, m₂, h₂, hQ⟩ := h
  have hops : (p >>= g).ops s = p.ops s ++ (g (p.value s)).ops (p.final s) := rfl
  have hfinal : (p >>= g).final s = (g (p.value s)).final (p.final s) := by
    simp only [Prog.final, hops, run_append]
  refine ⟨m₂, ?_, ?_⟩
  · rw [hops, List.foldlM_append, h₁]
    exact h₂
  · rw [hfinal]
    exact hQ

theorem Watched.mono {p : Prog Op α} {Q Q' : M → α → (A → V) → Prop} (h : Watched mon m p Q s)
    (hQ : ∀ m' a t, Q m' a t → Q' m' a t) : Watched mon m p Q' s := by
  obtain ⟨m', hm, h⟩ := h
  exact ⟨m', hm, hQ _ _ _ h⟩

/-- Operations that the monitor does not mind. -/
theorem watched_idle {p : Prog Op α} {Q : M → α → (A → V) → Prop} (hidle : ∀ op ∈ p.ops s, mon m op = some m)
    (h : Q m (p.value s) (p.final s)) : Watched mon m p Q s := by
  refine ⟨m, ?_, h⟩
  generalize p.ops s = ops at hidle
  induction ops with
  | nil => rfl
  | cons op ops ih =>
    rw [List.foldlM_cons, hidle op List.mem_cons_self]
    exact ih fun o ho => hidle o (List.mem_cons_of_mem _ ho)

end Rf4ce.Crash
