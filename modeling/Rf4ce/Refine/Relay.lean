import Mathlib.Data.List.Basic

/-! Messages handed over one at a time: the history of what was sent, what of it was heard and what
was confirmed. -/
namespace Rf4ce.Refine

variable {α : Type}

structure Fate (α : Type) where
  msg : α
  heard : Bool
  confirmed : Bool

/-- The messages before the current one, and the current one. -/
structure Relay (α : Type) where
  past : List (Fate α)
  cur : Option (Fate α)

namespace Relay

def empty : Relay α := ⟨[], none⟩

def all (g : Relay α) : List (Fate α) := g.past ++ g.cur.toList

def sent (g : Relay α) : List α := g.all.map Fate.msg

def taken (g : Relay α) : List α := (g.all.filter Fate.heard).map Fate.msg

def acked (g : Relay α) : List α := (g.all.filter Fate.confirmed).map Fate.msg

/-- The current message, if nobody heard it. -/
def unheard (g : Relay α) : List α := (g.cur.toList.filter fun e => !e.heard).map Fate.msg

def unconfirmed (g : Relay α) : List α := (g.cur.toList.filter fun e => !e.confirmed).map Fate.msg

def send (g : Relay α) (a : α) : Relay α := ⟨g.all, some ⟨a, false, false⟩⟩

def hear (g : Relay α) : Relay α := { g with cur := g.cur.map fun e => { e with heard := true } }

def confirm (g : Relay α) : Relay α := { g with cur := g.cur.map fun e => { e with confirmed := true } }

/-- Something else takes the place of the current message. -/
def leave (g : Relay α) : Relay α := ⟨g.all, none⟩

/-- Only what was heard was confirmed. -/
def Sound (g : Relay α) : Prop := ∀ e ∈ g.all, e.confirmed = true → e.heard = true

theorem empty_sound : (empty : Relay α).Sound := by
  simp [empty, Sound, all]

section Steps
variable (g : Relay α) (a : α)

@[simp] theorem leave_all : g.leave.all = g.all := by
  simp [leave, all]

theorem send_all : (g.send a).all = g.all ++ [⟨a, false, false⟩] := rfl

@[simp] theorem send_sent : (g.send a).sent = g.sent ++ [a] := by
  simp [sent, send_all]

@[simp] theorem send_taken : (g.send a).taken = g.taken := by
  simp [taken, send_all]

@[simp] theorem send_acked : (g.send a).acked = g.acked := by
  simp [acked, send_all]

@[simp] theorem send_unheard : (g.send a).unheard = [a] := rfl

@[simp] theorem hear_sent : g.hear.sent = g.sent := by
  cases h : g.cur <;> simp [sent, all, hear, h]

@[simp] theorem hear_taken : g.hear.taken = g.taken ++ g.unheard := by
  cases h : g.cur with
  | none => simp [taken, unheard, all, hear, h]
  | some e => cases he : e.heard <;> simp [taken, unheard, all, hear, h, he]

@[simp] theorem hear_acked : g.hear.acked = g.acked := by
  cases h : g.cur with
  | none => simp [acked, all, hear, h]
  | some e => cases he : e.confirmed <;> simp [acked, all, hear, h, he]

@[simp] theorem confirm_sent : g.confirm.sent = g.sent := by
  cases h : g.cur <;> simp [sent, all, confirm, h]

@[simp] theorem confirm_taken : g.confirm.taken = g.taken := by
  cases h : g.cur with
  | none => simp [taken, all, confirm, h]
  | some e => cases he : e.heard <;> simp [taken, all, confirm, h, he]

@[simp] theorem confirm_acked : g.confirm.acked = g.acked ++ g.unconfirmed := by
  cases h : g.cur with
  | none => simp [acked, unconfirmed, all, confirm, h]
  | some e => cases he : e.confirmed <;> simp [acked, unconfirmed, all, confirm, h, he]

end Steps

theorem Sound.send {g : Relay α} (h : g.Sound) (a : α) : (g.send a).Sound := by
  intro e he
  rw [send_all] at he
  rcases List.mem_append.mp he with he | he
  · exact h e he
  · rw [List.mem_singleton.mp he]
    exact fun hc => absurd hc Bool.false_ne_true

theorem Sound.leave {g : Relay α} (h : g.Sound) : g.leave.Sound := by
  unfold Sound
  rw [leave_all]
  exact h

theorem Sound.hear {g : Relay α} (h : g.Sound) : g.hear.Sound := by
  intro e he
  rcases List.mem_append.mp he with he | he
  · exact h e (List.mem_append_left _ he)
  · obtain ⟨e', -, rfl⟩ := Option.map_eq_some_iff.mp (Option.mem_toList.mp he)
    exact fun _ => rfl

theorem Sound.confirm {g : Relay α} (h : g.Sound) (hheard : ∀ e ∈ g.cur, e.heard = true) : g.confirm.Sound := by
  intro e he
  rcases List.mem_append.mp he with he | he
  · exact h e (List.mem_append_left _ he)
  · obtain ⟨e', he', rfl⟩ := Option.map_eq_some_iff.mp (Option.mem_toList.mp he)
    exact fun _ => hheard e' he'

theorem taken_sublist (g : Relay α) : g.taken.Sublist g.sent := List.filter_sublist.map _

theorem Sound.acked_sublist {g : Relay α} (h : g.Sound) : g.acked.Sublist g.taken := by
  have hfilter : g.all.filter Fate.confirmed = (g.all.filter Fate.heard).filter Fate.confirmed := by
    rw [List.filter_filter]
    refine List.filter_congr fun e he => ?_
    cases hc : e.confirmed with
    | false => rfl
    | true => rw [h e he hc, Bool.and_true]
  unfold acked taken
  rw [hfilter]
  exact List.filter_sublist.map _

theorem unheard_length (g : Relay α) : g.unheard.length ≤ 1 := by
  unfold unheard
  cases g.cur with
  | none => exact Nat.zero_le 1
  | some e =>
    rw [List.length_map]
    exact List.length_filter_le ..

theorem unheard_eq_nil {g : Relay α} (h : ∀ e ∈ g.cur, e.heard = true) : g.unheard = [] := by
  unfold unheard
  rw [List.map_eq_nil_iff, List.filter_eq_nil_iff]
  intro e he
  simp [h e (Option.mem_toList.mp he)]

theorem all_heard {g : Relay α} (hpast : ∀ e ∈ g.past, e.heard = true) (hcur : ∀ e ∈ g.cur, e.heard = true) :
    ∀ e ∈ g.all, e.heard = true := by
  intro e he
  rcases List.mem_append.mp he with he | he
  · exact hpast e he
  · exact hcur e (Option.mem_toList.mp he)

/-- Where every earlier message was heard, only the current one may be missing. -/
theorem sent_eq {g : Relay α} (h : ∀ e ∈ g.past, e.heard = true) : g.sent = g.taken ++ g.unheard := by
  have hpast : g.past.filter Fate.heard = g.past := List.filter_eq_self.mpr h
  unfold sent taken unheard all
  rw [List.filter_append, hpast]
  cases hcur : g.cur with
  | none => simp
  | some e => cases he : e.heard <;> simp [he]

end Relay

end Rf4ce.Refine
