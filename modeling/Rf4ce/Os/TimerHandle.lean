import Rf4ce.Os.TimerEvent

/-! The timers of one module in a list that it shares with others: a stored handle, and the live
timers with its callback. -/
namespace Rf4ce.Os

variable {n : Nat} {κ : Type}

/-- The live timers with callback `cb`: the one that the handle `h` leads to, or none. -/
def TimerList.Linked (l : TimerList n κ) (h : Option (Fin n)) (cb : κ) : Prop :=
  ∀ i, l.Running i cb ↔ h = some i

/-- Some live timer has this callback. -/
def TimerList.Pending (l : TimerList n κ) (cb : κ) : Prop := ∃ i, l.Running i cb

namespace TimerList
variable {l l' : TimerList n κ} {h : Option (Fin n)} {i : Fin n} {cb cb' : κ}

theorem Linked.pending (hl : l.Linked h cb) : l.Pending cb ↔ h ≠ none := by
  constructor
  · rintro ⟨i, hi⟩
    rw [(hl i).mp hi]
    exact Option.some_ne_none i
  · intro hh
    obtain ⟨i, rfl⟩ := Option.ne_none_iff_exists'.mp hh
    exact ⟨i, (hl i).mpr rfl⟩

/-- One slot has one callback. -/
theorem Running.cb_eq (hi : l.Running i cb) (hi' : l.Running i cb') : cb = cb' :=
  Option.some.inj (hi.2.symm.trans hi'.2)

/-- The timer of the handle is cancelled and the handle is NULL. -/
theorem Linked.unon (hl : l.Linked h cb) : (evUnonTimer h l).Linked none cb := by
  intro i
  rw [evUnonTimer_running, hl i]
  simp

/-- A cancelled timer with another callback. -/
theorem Linked.unon_other {k : Option (Fin n)} (hl : l.Linked h cb) (hk : ∀ j, k = some j → ¬ l.Running j cb) :
    (evUnonTimer k l).Linked h cb := by
  intro i
  rw [evUnonTimer_running, ← hl i]
  constructor
  · exact fun hi => hi.2
  · intro hi
    exact ⟨fun hki => hk i hki hi, hi⟩

theorem Linked.not_running (hl : l.Linked h cb) (hne : cb ≠ cb') {j : Fin n} (hj : h = some j) :
    ¬ l.Running j cb' := by
  intro hr
  exact hne (((hl j).mpr hj).cb_eq hr)

section Registration
variable {clock1us now tUs : U32}

theorem Linked.on (hf : l.FlagsOk) (hl : l.Linked none cb)
    (hon : onTimer clock1us now cb tUs l = some (i, l')) : l'.Linked (some i) cb := by
  intro j
  rw [onTimer_running hf hon, hl j]
  simp [eq_comm]

theorem Linked.on_other (hf : l.FlagsOk) (hl : l.Linked h cb) (hne : cb ≠ cb')
    (hon : onTimer clock1us now cb' tUs l = some (i, l')) : l'.Linked h cb := by
  intro j
  rw [onTimer_running hf hon, ← hl j]
  simp [hne]

theorem Linked.reclaim (hl : l.Linked h cb) : (reclaim l).Linked h cb := by
  intro j
  rw [reclaim_running, hl j]

/-- The callback ended its own timer and set the handle to NULL. -/
theorem Linked.done (hl : l.Linked h cb) (hi : l.Running i cb) {ret : Int} (hret : ret < 0) :
    (timerDone clock1us now ret i l).Linked none cb := by
  intro j
  rw [timerDone_running]
  simp only [reduceCtorEq, iff_false]
  rintro ⟨hij, hj⟩
  have hji : j = i := by
    have hjh := (hl j).mp hj
    rw [(hl i).mp hi] at hjh
    exact (Option.some.inj hjh).symm
  have := hij hji
  omega

theorem Linked.done_other (hl : l.Linked h cb) (hi : ¬ l.Running i cb) {ret : Int} :
    (timerDone clock1us now ret i l).Linked h cb := by
  intro j
  rw [timerDone_running, ← hl j]
  constructor
  · exact fun hj => hj.2
  · intro hj
    refine ⟨fun hji => absurd (hji ▸ hj) hi, hj⟩

end Registration

end TimerList

/-! ### The other modules -/

/-- The callbacks of one module, and those of the others by a number. -/
inductive ModuleCb (κ : Type) where
  | own (cb : κ)
  | other (k : Nat)
deriving DecidableEq, Repr

/-- What happens to the list beside a module's own calls: a pass frees cancelled slots, another
module starts or cancels a timer, or its callback returns `ret`. -/
inductive OtherCall (n : Nat) where
  | reclaim
  | otherOn (k : Nat) (tUs : U32)
  | otherUnon (i : Fin n)
  | otherFire (i : Fin n) (pass : U32) (ret : Int)
deriving DecidableEq, Repr

/-- `none` is the endless loop of `on_timer`. -/
def otherCall (clock1us now : U32) (l : TimerList n (ModuleCb κ)) : OtherCall n → Option (TimerList n (ModuleCb κ))
  | .reclaim => some (reclaim l)
  | .otherOn k tUs => (onTimer clock1us now (.other k) tUs l).map Prod.snd
  | .otherUnon i => some (evUnonTimer (some i) l)
  | .otherFire i pass ret => some (timerDone clock1us pass ret i l)

/-- Other modules use their own timers only. -/
def OtherCallEnv (l : TimerList n (ModuleCb κ)) : OtherCall n → Prop
  | .otherUnon i | .otherFire i _ _ => ∃ m, l.Running i (.other m)
  | _ => True

/-- The timers of the module stay what its handles say. -/
theorem otherCall_linked {clock1us now : U32} {l l' : TimerList n (ModuleCb κ)} {k : OtherCall n}
    (hf : l.FlagsOk) (henv : OtherCallEnv l k) (hk : otherCall clock1us now l k = some l') :
    l'.FlagsOk ∧ ∀ h cb, l.Linked h (.own cb) → l'.Linked h (.own cb) := by
  cases k with
  | reclaim =>
    cases hk
    exact ⟨reclaim_flagsOk hf, fun h cb hl => hl.reclaim⟩
  | otherOn m tUs =>
    obtain ⟨⟨i, l''⟩, hon, rfl⟩ := Option.map_eq_some_iff.mp hk
    exact ⟨onTimer_flagsOk hf hon, fun h cb hl => hl.on_other hf (by simp) hon⟩
  | otherUnon i =>
    obtain ⟨m, hm⟩ := henv
    cases hk
    refine ⟨evUnonTimer_flagsOk hf _, fun h cb hl => hl.unon_other ?_⟩
    rintro j ⟨⟩ hrun
    cases hrun.cb_eq hm
  | otherFire i pass ret =>
    obtain ⟨m, hm⟩ := henv
    cases hk
    refine ⟨timerDone_flagsOk hf, fun h cb hl => hl.done_other ?_⟩
    intro hrun
    cases hrun.cb_eq hm

end Rf4ce.Os
