import Mathlib.Data.Fin.Basic
import Mathlib.Data.BitVec
import Mathlib.Logic.Function.Basic

/-! The software timers of `timer_event.c`: a list of slots, each with two flags, and a
rotating search for a free one. -/
namespace Rf4ce.Os

abbrev U32 := BitVec 32

/-- `ev_time_event_t`; `κ` is the callback together with its argument. -/
structure TimeEvent (κ : Type) where
  cb : Option κ
  t : U32
  interval : U32
  valid : Nat
  busy : Nat
deriving DecidableEq, Repr

/-- `evTimer_list` (12 slots) or `stackTimer_list` (10 slots) with its search position. -/
structure TimerList (n : Nat) (κ : Type) where
  slots : Fin n → TimeEvent κ
  currentPos : Fin n

instance evTimerSlots : NeZero 12 := ⟨by decide⟩

variable {n : Nat} {κ : Type}

def startTimer (now : U32) (e : TimeEvent κ) : TimeEvent κ := { e with t := now + e.interval, valid := 1 }

def cancelTimer (e : TimeEvent κ) : TimeEvent κ := { e with valid := 2, busy := 2 }

def nextPos (p : Fin n) : Fin n := ⟨(p.val + 1) % n, Nat.mod_lt _ (Nat.zero_lt_of_lt p.isLt)⟩

/-- The search loop of `on_timer`; the fuel is the number of slots. -/
def findFree (slots : Fin n → TimeEvent κ) : Nat → Fin n → Option (Fin n)
  | 0, _ => none
  | fuel + 1, p => if (slots p).busy = 0 then some p else findFree slots fuel (nextPos p)

/-- `on_timer` at clock time `now`; `none` is its endless loop when no slot is free. -/
def onTimer (clock1us now : U32) (cb : κ) (tUs : U32) (l : TimerList n κ) :
    Option (Fin n × TimerList n κ) :=
  match findFree l.slots n l.currentPos with
  | none => none
  | some i =>
    let e : TimeEvent κ := { l.slots i with cb := some cb, interval := tUs * clock1us, busy := 1 }
    some (i, ⟨Function.update l.slots i (startTimer now e), nextPos i⟩)

/-- `ev_unon_timer` on a stored handle, which is NULL afterwards. -/
def evUnonTimer (h : Option (Fin n)) (l : TimerList n κ) : TimerList n κ :=
  match h with
  | none => l
  | some i => { l with slots := Function.update l.slots i (cancelTimer (l.slots i)) }

/-- The first loop of `ev_process_timer`: cancelled slots become free. -/
def reclaim (l : TimerList n κ) : TimerList n κ :=
  { l with slots := fun i =>
      if (l.slots i).valid = 2 then { l.slots i with busy := 0, valid := 0 } else l.slots i }

def evTimerSafeMarginUs : U32 := 4000000

def evIsTimerExpired (clock1us now : U32) (e : TimeEvent κ) : Bool :=
  now - e.t < evTimerSafeMarginUs * clock1us

/-- The condition under which the second loop of `ev_process_timer` calls the callback. -/
def timerDue (clock1us now : U32) (e : TimeEvent κ) : Bool :=
  e.valid = 1 && evIsTimerExpired clock1us now e

theorem timerDue_valid {clock1us now : U32} {e : TimeEvent κ} (h : timerDue clock1us now e = true) : e.valid = 1 := by
  simp only [timerDue, Bool.and_eq_true, decide_eq_true_eq] at h
  exact h.1

/-- What `ev_process_timer` does with a slot after its callback returned `ret`. -/
def rearmTimer (clock1us now : U32) (ret : Int) (e : TimeEvent κ) : TimeEvent κ :=
  if ret < 0 then cancelTimer e
  else if ret = 0 then { e with t := now + e.interval }
  else
    let interval := BitVec.ofInt 32 ret * clock1us
    { e with interval := interval, t := now + interval }

def timerDone (clock1us now : U32) (ret : Int) (i : Fin n) (l : TimerList n κ) : TimerList n κ :=
  { l with slots := Function.update l.slots i (rearmTimer clock1us now ret (l.slots i)) }

/-! ### Running timers -/

/-- Slot `i` holds a live timer with this callback. -/
def TimerList.Running (l : TimerList n κ) (i : Fin n) (cb : κ) : Prop :=
  (l.slots i).valid = 1 ∧ (l.slots i).cb = some cb

/-- The flags move together: free, live or cancelled. -/
def TimeEvent.Flags (e : TimeEvent κ) : Prop :=
  e.valid = 0 ∧ e.busy = 0 ∨ e.valid = 1 ∧ e.busy = 1 ∨ e.valid = 2 ∧ e.busy = 2

def TimerList.FlagsOk (l : TimerList n κ) : Prop := ∀ i, (l.slots i).Flags

theorem findFree_free {slots : Fin n → TimeEvent κ} {fuel : Nat} {p i : Fin n}
    (h : findFree slots fuel p = some i) : (slots i).busy = 0 := by
  induction fuel generalizing p with
  | zero => simp [findFree] at h
  | succ fuel ih =>
    unfold findFree at h
    split_ifs at h with hp
    · obtain rfl := Option.some.inj h
      exact hp
    · exact ih h

theorem findFree_none {slots : Fin n → TimeEvent κ} {fuel : Nat} {p : Fin n} (h : findFree slots fuel p = none)
    (k : Nat) (hk : k < fuel) : (slots ⟨(p + k) % n, Nat.mod_lt _ (Nat.zero_lt_of_lt p.isLt)⟩).busy ≠ 0 := by
  induction fuel generalizing p k with
  | zero => omega
  | succ fuel ih =>
    unfold findFree at h
    split_ifs at h with hp
    cases k with
    | zero =>
      have hpos : (⟨(p + 0) % n, Nat.mod_lt _ (Nat.zero_lt_of_lt p.isLt)⟩ : Fin n) = p := by
        apply Fin.ext
        exact Nat.mod_eq_of_lt p.isLt
      rwa [hpos]
    | succ k =>
      have hnext := ih h k (by omega)
      have hpos : ((nextPos p).val + k) % n = (p + (k + 1)) % n := by
        simp only [nextPos, Nat.mod_add_mod]
        congr 1
        omega
      simpa only [hpos] using hnext

/-- The search goes around the whole list. -/
theorem onTimer_isSome (clock1us now : U32) (cb : κ) (tUs : U32) {l : TimerList n κ} {i : Fin n}
    (hi : (l.slots i).busy = 0) : (onTimer clock1us now cb tUs l).isSome := by
  unfold onTimer
  cases hf : findFree l.slots n l.currentPos with
  | some j => rfl
  | none =>
    exfalso
    have hpos : ∃ k < n, (l.currentPos + k) % n = i := by
      by_cases hle : l.currentPos.val ≤ i
      · refine ⟨i - l.currentPos, by omega, ?_⟩
        rw [Nat.add_sub_cancel' hle, Nat.mod_eq_of_lt i.isLt]
      · refine ⟨n - l.currentPos + i, by omega, ?_⟩
        have hsum : l.currentPos + (n - l.currentPos + i) = n + i := by omega
        rw [hsum, Nat.add_mod_left, Nat.mod_eq_of_lt i.isLt]
    obtain ⟨k, hk, hki⟩ := hpos
    have hbusy := findFree_none hf k hk
    simp only [hki, Fin.eta] at hbusy
    exact hbusy hi

/-- A registration takes a free slot and leaves the others alone. -/
theorem onTimer_spec {clock1us now : U32} {cb : κ} {tUs : U32} {l l' : TimerList n κ} {i : Fin n}
    (h : onTimer clock1us now cb tUs l = some (i, l')) :
    (l.slots i).busy = 0 ∧ l'.slots = Function.update l.slots i
      ⟨some cb, now + tUs * clock1us, tUs * clock1us, 1, 1⟩ := by
  unfold onTimer at h
  cases hf : findFree l.slots n l.currentPos with
  | none => simp [hf] at h
  | some j =>
    simp only [hf, Option.some.injEq, Prod.mk.injEq] at h
    obtain ⟨rfl, rfl⟩ := h
    exact ⟨findFree_free hf, rfl⟩

theorem onTimer_slot {clock1us now : U32} {cb : κ} {tUs : U32} {l l' : TimerList n κ} {i : Fin n}
    (h : onTimer clock1us now cb tUs l = some (i, l')) :
    (l.slots i).busy = 0 ∧ l'.slots i = ⟨some cb, now + tUs * clock1us, tUs * clock1us, 1, 1⟩ ∧
      ∀ j, j ≠ i → l'.slots j = l.slots j := by
  obtain ⟨hfree, hslots⟩ := onTimer_spec h
  rw [hslots]
  exact ⟨hfree, Function.update_self _ _ _, fun j hj => Function.update_of_ne hj _ _⟩

theorem TimerList.FlagsOk.not_running {l : TimerList n κ} (h : l.FlagsOk) {i : Fin n}
    (hb : (l.slots i).busy = 0) (cb : κ) : ¬ l.Running i cb := by
  rintro ⟨hv, -⟩
  rcases h i with h | h | h <;> omega

/-- After a registration the new timer runs, and every other one as before. -/
theorem onTimer_running {clock1us now : U32} {cb : κ} {tUs : U32} {l l' : TimerList n κ} {i : Fin n}
    (hl : l.FlagsOk) (h : onTimer clock1us now cb tUs l = some (i, l')) (j : Fin n) (k : κ) :
    l'.Running j k ↔ j = i ∧ k = cb ∨ l.Running j k := by
  obtain ⟨hfree, hslots⟩ := onTimer_spec h
  unfold TimerList.Running
  rw [hslots]
  by_cases hj : j = i
  · subst hj
    have hnot : ¬ ((l.slots j).valid = 1 ∧ (l.slots j).cb = some k) := hl.not_running hfree k
    rw [Function.update_self, or_iff_left hnot]
    simp [eq_comm]
  · simp [hj]

theorem onTimer_flagsOk {clock1us now : U32} {cb : κ} {tUs : U32} {l l' : TimerList n κ} {i : Fin n}
    (hl : l.FlagsOk) (h : onTimer clock1us now cb tUs l = some (i, l')) : l'.FlagsOk := by
  obtain ⟨-, hslots⟩ := onTimer_spec h
  intro j
  rw [hslots]
  by_cases hj : j = i
  · subst hj
    simp [TimeEvent.Flags]
  · simpa [hj] using hl j

theorem evUnonTimer_running {h : Option (Fin n)} {l : TimerList n κ} (j : Fin n) (k : κ) :
    (evUnonTimer h l).Running j k ↔ h ≠ some j ∧ l.Running j k := by
  cases h with
  | none => simp [evUnonTimer]
  | some i =>
    unfold evUnonTimer TimerList.Running
    by_cases hj : j = i
    · subst hj
      simp [cancelTimer]
    · simp [hj, Ne.symm hj]

theorem evUnonTimer_flagsOk {l : TimerList n κ} (hl : l.FlagsOk) (h : Option (Fin n)) :
    (evUnonTimer h l).FlagsOk := by
  cases h with
  | none => exact hl
  | some i =>
    intro j
    unfold evUnonTimer
    by_cases hj : j = i
    · subst hj
      simp [TimeEvent.Flags, cancelTimer]
    · simpa [hj] using hl j

theorem reclaim_running {l : TimerList n κ} (j : Fin n) (k : κ) :
    (reclaim l).Running j k ↔ l.Running j k := by
  unfold reclaim TimerList.Running
  dsimp only
  split_ifs with h
  · simp [h]
  · rfl

theorem reclaim_flagsOk {l : TimerList n κ} (hl : l.FlagsOk) : (reclaim l).FlagsOk := by
  intro j
  unfold reclaim
  dsimp only
  split_ifs with h
  · simp [TimeEvent.Flags]
  · exact hl j

theorem timerDone_running {clock1us now : U32} {ret : Int} {l : TimerList n κ} {i : Fin n}
    (j : Fin n) (k : κ) :
    (timerDone clock1us now ret i l).Running j k ↔ (j = i → 0 ≤ ret) ∧ l.Running j k := by
  unfold timerDone TimerList.Running
  by_cases hj : j = i
  · subst hj
    dsimp only
    rw [Function.update_self]
    unfold rearmTimer
    split_ifs with h₁ h₂
    · simp [cancelTimer, h₁]
    · simp [h₂]
    · simp [Int.not_lt.mp h₁]
  · simp [hj]

theorem timerDone_flagsOk {clock1us now : U32} {ret : Int} {l : TimerList n κ} {i : Fin n}
    (hl : l.FlagsOk) : (timerDone clock1us now ret i l).FlagsOk := by
  intro j
  have hj := hl j
  unfold timerDone
  by_cases hji : j = i
  · subst hji
    dsimp only
    rw [Function.update_self]
    unfold rearmTimer
    split_ifs with h₁ h₂
    · simp [TimeEvent.Flags, cancelTimer]
    · exact hj
    · exact hj
  · simpa [hji] using hj

end Rf4ce.Os
