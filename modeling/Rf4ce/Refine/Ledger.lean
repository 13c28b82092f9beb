import Mathlib.Data.List.Perm.Basic

/-! What one client of an allocator holds, by its own allocations and frees. -/
namespace Rf4ce.Refine

/-- `held` are the buffers that were allocated and not freed since, `strays` counts the frees of a
buffer that was not held. -/
structure Ledger (β : Type) where
  held : List β
  strays : Nat
deriving DecidableEq, Repr

namespace Ledger
variable {β : Type} {l : Ledger β} {b : β} {bs : List β}

def empty : Ledger β := ⟨[], 0⟩

def take (l : Ledger β) (b : β) : Ledger β := { l with held := b :: l.held }

/-- An allocation that may have failed. -/
def takeAny (l : Ledger β) : Option β → Ledger β
  | none => l
  | some b => l.take b

/-- The client holds exactly the buffers `bs`, and freed nothing that it did not hold. -/
def Holds (l : Ledger β) (bs : List β) : Prop := l.held.Perm bs ∧ l.strays = 0

theorem holds_empty : (empty : Ledger β).Holds [] := ⟨.refl _, rfl⟩

theorem Holds.take (h : l.Holds bs) : (l.take b).Holds (b :: bs) := ⟨h.1.cons b, h.2⟩

theorem Holds.perm {cs : List β} (h : l.Holds bs) (hp : bs.Perm cs) : l.Holds cs := ⟨h.1.trans hp, h.2⟩

theorem Holds.length (h : l.Holds bs) : l.held.length = bs.length := h.1.length_eq

variable [DecidableEq β]

def give (l : Ledger β) (b : β) : Ledger β :=
  if b ∈ l.held then { l with held := l.held.erase b } else { l with strays := l.strays + 1 }

/-- The allocator refuses to free NULL. -/
def giveAny (l : Ledger β) : Option β → Ledger β
  | none => l
  | some b => l.give b

theorem Holds.give (h : l.Holds (b :: bs)) : (l.give b).Holds bs := by
  obtain ⟨hp, hs⟩ := h
  have hb : b ∈ l.held := hp.symm.subset List.mem_cons_self
  have hr := hp.erase b
  rw [List.erase_cons_head] at hr
  unfold Ledger.give
  rw [if_pos hb]
  exact ⟨hr, hs⟩

end Ledger

end Rf4ce.Refine
