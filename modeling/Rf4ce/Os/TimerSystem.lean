import Rf4ce.Os.TimerEvent

/-! Both timer lists of `timer_event.c` under registrations, cancellations and passes of
`ev_process_timer`, with callbacks that call back, and the agenda that they implement. -/
namespace Rf4ce.Os

/-- A slot of `evTimer_list` or of `stackTimer_list`. -/
abbrev Slot := Fin 12 ⊕ Fin 10

structure Timers (κ : Type) where
  ev : TimerList 12 κ
  stk : TimerList 10 κ

variable {κ : Type}

def Timers.slot (s : Timers κ) : Slot → TimeEvent κ
  | .inl i => s.ev.slots i
  | .inr i => s.stk.slots i

/-- The lists as initialised. -/
def Timers.zero : Timers κ := ⟨⟨fun _ => ⟨none, 0, 0, 0, 0⟩, 0⟩, ⟨fun _ => ⟨none, 0, 0, 0, 0⟩, 0⟩⟩

/-- `ev_on_timer`, or `stk_on_timer` with `stack`. -/
def Timers.on (clock1us now : U32) (stack : Bool) (cb : κ) (tUs : U32) (s : Timers κ) :
    Option (Slot × Timers κ) :=
  if stack then (onTimer clock1us now cb tUs s.stk).map fun r => (.inr r.1, { s with stk := r.2 })
  else (onTimer clock1us now cb tUs s.ev).map fun r => (.inl r.1, { s with ev := r.2 })

/-- `ev_unon_timer` or `stk_unon_timer` on a handle to slot `p`. -/
def Timers.unon (p : Slot) (s : Timers κ) : Timers κ :=
  match p with
  | .inl i => { s with ev := evUnonTimer (some i) s.ev }
  | .inr i => { s with stk := evUnonTimer (some i) s.stk }

def Timers.reclaim (s : Timers κ) : Timers κ := ⟨Os.reclaim s.ev, Os.reclaim s.stk⟩

def Timers.done (clock1us now : U32) (ret : Int) (p : Slot) (s : Timers κ) : Timers κ :=
  match p with
  | .inl i => { s with ev := timerDone clock1us now ret i s.ev }
  | .inr i => { s with stk := timerDone clock1us now ret i s.stk }

/-! ### What an operation does to a slot -/

theorem Timers.on_slot {clock1us now : U32} {stack : Bool} {cb : κ} {tUs : U32} {s s' : Timers κ} {p : Slot}
    (h : s.on clock1us now stack cb tUs = some (p, s')) :
    (s.slot p).busy = 0 ∧ s'.slot p = ⟨some cb, now + tUs * clock1us, tUs * clock1us, 1, 1⟩ ∧
      ∀ q, q ≠ p → s'.slot q = s.slot q := by
  unfold Timers.on at h
  cases stack with
  | true =>
    obtain ⟨⟨i, l⟩, hon, heq⟩ := Option.map_eq_some_iff.mp h
    obtain ⟨rfl, rfl⟩ := Prod.mk.inj heq
    obtain ⟨hfree, hself, hother⟩ := onTimer_slot hon
    refine ⟨hfree, hself, fun q hq => ?_⟩
    cases q with
    | inl j => rfl
    | inr j => exact hother j fun hj => hq (congrArg Sum.inr hj)
  | false =>
    obtain ⟨⟨i, l⟩, hon, heq⟩ := Option.map_eq_some_iff.mp h
    obtain ⟨rfl, rfl⟩ := Prod.mk.inj heq
    obtain ⟨hfree, hself, hother⟩ := onTimer_slot hon
    refine ⟨hfree, hself, fun q hq => ?_⟩
    cases q with
    | inl j => exact hother j fun hj => hq (congrArg Sum.inl hj)
    | inr j => rfl

theorem Timers.unon_slot (p : Slot) (s : Timers κ) :
    (s.unon p).slot p = cancelTimer (s.slot p) ∧ ∀ q, q ≠ p → (s.unon p).slot q = s.slot q := by
  constructor
  · cases p <;> simp only [Timers.unon, Timers.slot, evUnonTimer, Function.update_self]
  · intro q hq
    cases p <;> cases q <;> simp_all [Timers.unon, Timers.slot, evUnonTimer]

theorem Timers.reclaim_slot (s : Timers κ) (p : Slot) : s.reclaim.slot p =
    if (s.slot p).valid = 2 then { s.slot p with busy := 0, valid := 0 } else s.slot p := by
  cases p <;> rfl

theorem Timers.done_slot (clock1us now : U32) (ret : Int) (p : Slot) (s : Timers κ) :
    (s.done clock1us now ret p).slot p = rearmTimer clock1us now ret (s.slot p) ∧
      ∀ q, q ≠ p → (s.done clock1us now ret p).slot q = s.slot q := by
  constructor
  · cases p <;> simp only [Timers.done, Timers.slot, timerDone, Function.update_self]
  · intro q hq
    cases p <;> cases q <;> simp_all [Timers.done, Timers.slot, timerDone]

/-! ### The order of a pass -/

def slotPos : Slot → Nat
  | .inl i => i
  | .inr i => 12 + i

/-- The slot that the second loops of `ev_process_timer` visit as number `k`. -/
def slotAt (k : Nat) : Option Slot :=
  if h : k < 12 then some (.inl ⟨k, h⟩)
  else if h : k - 12 < 10 then some (.inr ⟨k - 12, h⟩)
  else none

theorem slotPos_lt (p : Slot) : slotPos p < 22 := by
  cases p with
  | inl i => exact Nat.lt_of_lt_of_le i.isLt (by decide)
  | inr i => exact Nat.add_lt_add_left i.isLt 12

theorem slotPos_slotAt {k : Nat} {p : Slot} (h : slotAt k = some p) : slotPos p = k := by
  unfold slotAt at h
  split_ifs at h with h₁ h₂
  · obtain rfl := Option.some.inj h
    rfl
  · obtain rfl := Option.some.inj h
    simp only [slotPos]
    omega

theorem slotPos_injective {p q : Slot} (h : slotPos p = slotPos q) : p = q := by
  cases p with
  | inl i =>
    cases q with
    | inl j => exact congrArg Sum.inl (Fin.ext h)
    | inr j =>
      simp only [slotPos] at h
      omega
  | inr i =>
    cases q with
    | inl j =>
      simp only [slotPos] at h
      omega
    | inr j => exact congrArg Sum.inr (Fin.ext (Nat.add_left_cancel h))

theorem le_of_slotAt_none {k : Nat} (h : slotAt k = none) : 22 ≤ k := by
  unfold slotAt at h
  split_ifs at h
  omega

/-! ### Runs -/

/-- Where the processor is: outside a pass, before the visit of slot `k`, or in the callback
of a slot. -/
inductive Phase where
  | main
  | walk (k : Nat)
  | call (p : Slot)
deriving DecidableEq, Repr

structure TimerWorld (κ : Type) where
  timers : Timers κ
  phase : Phase
  /-- real time in ticks; `clock_time` shows it modulo 2^32 -/
  time : Nat
  /-- the start of the last pass, or of the run -/
  passStart : Nat

def clockTime (t : Nat) : U32 := BitVec.ofNat 32 t

inductive TimerCall (κ : Type) where
  | tick (d : Nat)
  | on (stack : Bool) (cb : κ) (tUs : U32)
  | unon (p : Slot)
  | beginPass
  | visit
  | ret (ret : Int)

inductive TimerEv (κ : Type) where
  | registered (p : Slot) (cb : κ) (tUs : U32) (time : Nat)
  | cancelled (p : Slot)
  | passStart (time : Nat)
  | invoked (p : Slot) (cb : Option κ)
  | returned (p : Slot) (ret : Int)
  | passEnd

/-- Code other than `ev_process_timer` itself runs outside passes and in callbacks. -/
def Phase.open : Phase → Bool
  | .walk _ => false
  | _ => true

/-- One step, with what it shows; `none` where the call cannot happen or does not return. -/
def timerStep (clock1us : U32) (w : TimerWorld κ) : TimerCall κ → Option (TimerWorld κ × List (TimerEv κ))
  | .tick d => some ({ w with time := w.time + d }, [])
  | .on stack cb tUs =>
    if w.phase.open then
      match w.timers.on clock1us (clockTime w.time) stack cb tUs with
      | some (p, timers) => some ({ w with timers := timers }, [.registered p cb tUs w.time])
      | none => none
    else none
  | .unon p =>
    if w.phase.open then some ({ w with timers := w.timers.unon p }, [.cancelled p]) else none
  | .beginPass =>
    match w.phase with
    | .main => some ({ w with timers := w.timers.reclaim, phase := .walk 0, passStart := w.time }, [.passStart w.time])
    | _ => none
  | .visit =>
    match w.phase with
    | .walk k =>
      match slotAt k with
      | none => some ({ w with phase := .main }, [.passEnd])
      | some p =>
        if timerDue clock1us (clockTime w.passStart) (w.timers.slot p) then
          some ({ w with phase := .call p }, [.invoked p (w.timers.slot p).cb])
        else some ({ w with phase := .walk (k + 1) }, [])
    | _ => none
  | .ret ret =>
    match w.phase with
    | .call p =>
      some ({ w with
        timers := w.timers.done clock1us (clockTime w.passStart) ret p
        phase := .walk (slotPos p + 1) }, [.returned p ret])
    | _ => none

/-- The worlds and traces that legal steps lead to from time `t₀`, with all slots free. -/
inductive TimerRun (clock1us : U32) (legal : TimerWorld κ → TimerCall κ → Prop) (t₀ : Nat) :
    TimerWorld κ → List (TimerEv κ) → Prop where
  | start : TimerRun clock1us legal t₀ ⟨.zero, .main, t₀, t₀⟩ []
  | step {w w' : TimerWorld κ} {tr evs : List (TimerEv κ)} {k : TimerCall κ}
      (h : TimerRun clock1us legal t₀ w tr) (hk : legal w k) (hs : timerStep clock1us w k = some (w', evs)) :
      TimerRun clock1us legal t₀ w' (tr ++ evs)

/-! ### The agenda -/

/-- What a slot stands for: `deadline` in real time, `fresh` when armed since the last pass began. -/
inductive SlotStatus (κ : Type) where
  | free
  | live (cb : κ) (interval deadline : Nat) (fresh : Bool)
  | cancelled

structure Agenda (κ : Type) where
  status : Slot → SlotStatus κ
  pass : Nat
  running : Option Slot

def SlotStatus.atPassStart : SlotStatus κ → SlotStatus κ
  | .free | .cancelled => .free
  | .live cb interval deadline _ => .live cb interval deadline false

/-- After its callback returned in the pass begun at `pass`. -/
def SlotStatus.afterReturn (perUs pass : Nat) (ret : Int) : SlotStatus κ → SlotStatus κ
  | .live cb interval _ _ =>
    if ret < 0 then .cancelled
    else if ret = 0 then .live cb interval (pass + interval) true
    else .live cb (ret.toNat * perUs) (pass + ret.toNat * perUs) true
  | s => s

/-- What timers are meant to do, from the events alone. -/
def Agenda.next (perUs : Nat) (a : Agenda κ) : TimerEv κ → Agenda κ
  | .registered p cb tUs time =>
    { a with status := Function.update a.status p (.live cb (tUs.toNat * perUs) (time + tUs.toNat * perUs) true) }
  | .cancelled p => { a with status := Function.update a.status p .cancelled }
  | .passStart time => ⟨fun p => (a.status p).atPassStart, time, none⟩
  | .invoked p _ => { a with running := some p }
  | .returned p ret =>
    { a with
      status := Function.update a.status p ((a.status p).afterReturn perUs a.pass ret)
      running := none }
  | .passEnd => a

/-- The agenda after a trace. -/
def agenda (perUs t₀ : Nat) (tr : List (TimerEv κ)) : Agenda κ :=
  tr.foldl (Agenda.next perUs) ⟨fun _ => .free, t₀, none⟩

/-- Every event of the trace is allowed by the agenda at its point. -/
def Conforms (perUs t₀ : Nat) (allowed : Agenda κ → TimerEv κ → Prop) (tr : List (TimerEv κ)) : Prop :=
  ∀ pre e post, tr = pre ++ e :: post → allowed (agenda perUs t₀ pre) e

theorem agenda_append (perUs t₀ : Nat) (tr : List (TimerEv κ)) (e : TimerEv κ) :
    agenda perUs t₀ (tr ++ [e]) = (agenda perUs t₀ tr).next perUs e := by
  simp [agenda, List.foldl_append]

theorem Conforms.nil (perUs t₀ : Nat) (allowed : Agenda κ → TimerEv κ → Prop) :
    Conforms perUs t₀ allowed [] := by
  intro pre e post h
  simp at h

theorem Conforms.append {perUs t₀ : Nat} {allowed : Agenda κ → TimerEv κ → Prop} {tr : List (TimerEv κ)}
    {e : TimerEv κ} (h : Conforms perUs t₀ allowed tr) (he : allowed (agenda perUs t₀ tr) e) :
    Conforms perUs t₀ allowed (tr ++ [e]) := by
  intro pre e' post heq
  rcases List.eq_nil_or_concat post with rfl | ⟨post', last, rfl⟩
  · obtain ⟨rfl, hlast⟩ := List.append_inj' heq rfl
    obtain rfl := (List.cons.inj hlast).1
    exact he
  · rw [List.concat_eq_append, ← List.cons_append, ← List.append_assoc] at heq
    obtain ⟨rfl, -⟩ := List.append_inj' heq rfl
    exact h pre e' post' rfl

/-- Until it is registered again, a slot whose timer ended stays without one. -/
theorem agenda_not_live {perUs t₀ : Nat} {p : Slot} {tr : List (TimerEv κ)}
    (h : ∀ c i d f, (agenda perUs t₀ tr).status p ≠ .live c i d f) (mid : List (TimerEv κ))
    (hmid : ∀ c tUs time, TimerEv.registered p c tUs time ∉ mid) :
    ∀ c i d f, (agenda perUs t₀ (tr ++ mid)).status p ≠ .live c i d f := by
  induction mid using List.reverseRecOn with
  | nil => simpa using h
  | append_singleton mid e ih =>
    have hbefore := ih fun c tUs time hin => hmid c tUs time (List.mem_append_left _ hin)
    rw [← List.append_assoc, agenda_append]
    generalize agenda perUs t₀ (tr ++ mid) = a at hbefore
    intro c i d f
    cases e with
    | registered q c' tUs time =>
      have hq : p ≠ q := by
        rintro rfl
        exact hmid c' tUs time (by simp)
      simp only [Agenda.next, Function.update_of_ne hq]
      exact hbefore c i d f
    | cancelled q =>
      by_cases hq : p = q
      · subst hq
        simp [Agenda.next]
      · simp only [Agenda.next, Function.update_of_ne hq]
        exact hbefore c i d f
    | passStart time =>
      have hp := hbefore
      dsimp only [Agenda.next]
      cases hs : a.status p with
      | free => simp [SlotStatus.atPassStart]
      | cancelled => simp [SlotStatus.atPassStart]
      | live c' i' d' f' => exact absurd hs (hp c' i' d' f')
    | invoked q cb => exact hbefore c i d f
    | returned q ret =>
      by_cases hq : p = q
      · subst hq
        simp only [Agenda.next, Function.update_self]
        cases hs : a.status p with
        | free => simp [SlotStatus.afterReturn]
        | cancelled => simp [SlotStatus.afterReturn]
        | live c' i' d' f' => exact absurd hs (hbefore c' i' d' f')
      · simp only [Agenda.next, Function.update_of_ne hq]
        exact hbefore c i d f
    | passEnd => exact hbefore c i d f

end Rf4ce.Os
