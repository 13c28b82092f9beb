import Rf4ce.Os.TimerSystem

/-! Timer slots are handed out once: a handle leads to its timer until the slot is reclaimed. -/
namespace Rf4ce.Os

variable {κ : Type}

/-- The flags and the callback of a slot are those of its status. -/
def SlotStatus.Matches : SlotStatus κ → TimeEvent κ → Prop
  | .free, e => e.valid = 0 ∧ e.busy = 0
  | .live cb _ _ _, e => e.valid = 1 ∧ e.busy = 1 ∧ e.cb = some cb
  | .cancelled, e => e.valid = 2 ∧ e.busy = 2

theorem SlotStatus.Matches.eq_free {s : SlotStatus κ} {e : TimeEvent κ} (h : s.Matches e) (hb : e.busy = 0) :
    s = .free := by
  cases s with
  | free => rfl
  | live cb i d f =>
    have := h.2.1
    omega
  | cancelled =>
    have := h.2
    omega

theorem SlotStatus.Matches.eq_live {s : SlotStatus κ} {e : TimeEvent κ} (h : s.Matches e) (hv : e.valid = 1) :
    ∃ c i d f, s = .live c i d f ∧ e.cb = some c := by
  cases s with
  | free =>
    have := h.1
    omega
  | live cb i d f => exact ⟨cb, i, d, f, rfl, h.2.2⟩
  | cancelled =>
    have := h.1
    omega

theorem SlotStatus.Matches.atPassStart {s : SlotStatus κ} {e : TimeEvent κ} (h : s.Matches e) :
    s.atPassStart.Matches (if e.valid = 2 then { e with busy := 0, valid := 0 } else e) := by
  cases s with
  | free =>
    have hv : e.valid ≠ 2 := by
      have := h.1
      omega
    rw [if_neg hv]
    exact h
  | live cb i d f =>
    have hv : e.valid ≠ 2 := by
      have := h.1
      omega
    rw [if_neg hv]
    exact h
  | cancelled =>
    rw [if_pos h.1]
    exact ⟨rfl, rfl⟩

theorem SlotStatus.Matches.afterReturn {s : SlotStatus κ} {e : TimeEvent κ} (h : s.Matches e) (hs : s ≠ .free)
    (perUs pass : Nat) (clock1us now : U32) (ret : Int) :
    (s.afterReturn perUs pass ret).Matches (rearmTimer clock1us now ret e) := by
  unfold rearmTimer
  cases s with
  | free => exact absurd rfl hs
  | live cb i d f =>
    unfold SlotStatus.afterReturn
    split_ifs
    · exact ⟨rfl, rfl⟩
    · exact h
    · exact h
  | cancelled =>
    unfold SlotStatus.afterReturn
    split_ifs
    · exact ⟨rfl, rfl⟩
    · exact h
    · exact h

def Phase.running : Phase → Option Slot
  | .call p => some p
  | _ => none

/-- The world's slots are those of the agenda. -/
structure Tracks (a : Agenda κ) (w : TimerWorld κ) : Prop where
  slots : ∀ p, (a.status p).Matches (w.timers.slot p)
  running : a.running = w.phase.running
  busy : ∀ p, w.phase = .call p → a.status p ≠ .free

/-- Handles point to free slots, callbacks are those of live timers. -/
def SlotAllowed (a : Agenda κ) : TimerEv κ → Prop
  | .registered p _ _ _ => a.status p = .free
  | .invoked p cb => ∃ c i d f, a.status p = .live c i d f ∧ cb = some c
  | .returned p _ => a.running = some p
  | _ => True

/-- At most one event a step: it is allowed, and the agenda goes on with it. -/
def StepShows (perUs : Nat) (allowed : Agenda κ → TimerEv κ → Prop) (inv : Agenda κ → TimerWorld κ → Prop)
    (a : Agenda κ) (w' : TimerWorld κ) (evs : List (TimerEv κ)) : Prop :=
  evs = [] ∧ inv a w' ∨ ∃ e, evs = [e] ∧ allowed a e ∧ inv (a.next perUs e) w'

/-- An invariant between agenda and world that each step keeps holds along every run. -/
theorem TimerRun.invariant {clock1us : U32} {legal : TimerWorld κ → TimerCall κ → Prop} {t₀ perUs : Nat}
    {allowed : Agenda κ → TimerEv κ → Prop} {inv : Agenda κ → TimerWorld κ → Prop}
    (hstart : inv ⟨fun _ => .free, t₀, none⟩ ⟨.zero, .main, t₀, t₀⟩)
    (hstep : ∀ a w k w' evs, inv a w → legal w k → timerStep clock1us w k = some (w', evs) →
      StepShows perUs allowed inv a w' evs)
    {w : TimerWorld κ} {tr : List (TimerEv κ)} (h : TimerRun clock1us legal t₀ w tr) :
    Conforms perUs t₀ allowed tr ∧ inv (agenda perUs t₀ tr) w := by
  induction h with
  | start => exact ⟨.nil perUs t₀ allowed, hstart⟩
  | step _ hk hs ih =>
    obtain ⟨hconf, hinv⟩ := ih
    rcases hstep _ _ _ _ _ hinv hk hs with ⟨rfl, hinv'⟩ | ⟨e, rfl, he, hinv'⟩
    · rw [List.append_nil]
      exact ⟨hconf, hinv'⟩
    · rw [agenda_append]
      exact ⟨hconf.append he, hinv'⟩

/-- What a step does, one constructor for each branch of `timerStep`. -/
inductive Stepped (clock1us : U32) (w : TimerWorld κ) : TimerCall κ → TimerWorld κ → List (TimerEv κ) → Prop where
  | tick (d : Nat) : Stepped clock1us w (.tick d) { w with time := w.time + d } []
  | on (stack : Bool) (cb : κ) (tUs : U32) (p : Slot) (timers : Timers κ) (hopen : w.phase.open)
      (hon : w.timers.on clock1us (clockTime w.time) stack cb tUs = some (p, timers)) :
      Stepped clock1us w (.on stack cb tUs) { w with timers := timers } [.registered p cb tUs w.time]
  | unon (p : Slot) (hopen : w.phase.open) :
      Stepped clock1us w (.unon p) { w with timers := w.timers.unon p } [.cancelled p]
  | beginPass (hph : w.phase = .main) :
      Stepped clock1us w .beginPass
        { w with timers := w.timers.reclaim, phase := .walk 0, passStart := w.time } [.passStart w.time]
  | passEnd (n : Nat) (hph : w.phase = .walk n) (hslot : slotAt n = none) :
      Stepped clock1us w .visit { w with phase := .main } [.passEnd]
  | due (n : Nat) (p : Slot) (hph : w.phase = .walk n) (hslot : slotAt n = some p)
      (hdue : timerDue clock1us (clockTime w.passStart) (w.timers.slot p) = true) :
      Stepped clock1us w .visit { w with phase := .call p } [.invoked p (w.timers.slot p).cb]
  | notDue (n : Nat) (p : Slot) (hph : w.phase = .walk n) (hslot : slotAt n = some p)
      (hdue : timerDue clock1us (clockTime w.passStart) (w.timers.slot p) = false) :
      Stepped clock1us w .visit { w with phase := .walk (n + 1) } []
  | ret (p : Slot) (ret : Int) (hph : w.phase = .call p) :
      Stepped clock1us w (.ret ret)
        { w with
          timers := w.timers.done clock1us (clockTime w.passStart) ret p
          phase := .walk (slotPos p + 1) } [.returned p ret]

theorem timerStep_cases {clock1us : U32} {w w' : TimerWorld κ} {k : TimerCall κ} {evs : List (TimerEv κ)}
    (h : timerStep clock1us w k = some (w', evs)) : Stepped clock1us w k w' evs := by
  cases k with
  | tick d =>
    obtain ⟨rfl, rfl⟩ := Prod.mk.inj (Option.some.inj h)
    exact .tick d
  | on stack cb tUs =>
    simp only [timerStep] at h
    split_ifs at h with hopen
    cases hon : w.timers.on clock1us (clockTime w.time) stack cb tUs with
    | none => simp [hon] at h
    | some r =>
      rw [hon] at h
      obtain ⟨rfl, rfl⟩ := Prod.mk.inj (Option.some.inj h)
      exact .on stack cb tUs r.1 r.2 hopen hon
  | unon p =>
    simp only [timerStep] at h
    split_ifs at h with hopen
    obtain ⟨rfl, rfl⟩ := Prod.mk.inj (Option.some.inj h)
    exact .unon p hopen
  | beginPass =>
    cases hph : w.phase with
    | walk n => simp [timerStep, hph] at h
    | call p => simp [timerStep, hph] at h
    | main =>
      simp only [timerStep, hph] at h
      obtain ⟨rfl, rfl⟩ := Prod.mk.inj (Option.some.inj h)
      exact .beginPass hph
  | visit =>
    cases hph : w.phase with
    | main => simp [timerStep, hph] at h
    | call p => simp [timerStep, hph] at h
    | walk n =>
      cases hslot : slotAt n with
      | none =>
        simp only [timerStep, hph, hslot] at h
        obtain ⟨rfl, rfl⟩ := Prod.mk.inj (Option.some.inj h)
        exact .passEnd n hph hslot
      | some p =>
        cases hdue : timerDue clock1us (clockTime w.passStart) (w.timers.slot p) with
        | true =>
          simp only [timerStep, hph, hslot, hdue, if_true] at h
          obtain ⟨rfl, rfl⟩ := Prod.mk.inj (Option.some.inj h)
          exact .due n p hph hslot hdue
        | false =>
          simp only [timerStep, hph, hslot, hdue, Bool.false_eq_true, if_false] at h
          obtain ⟨rfl, rfl⟩ := Prod.mk.inj (Option.some.inj h)
          exact .notDue n p hph hslot hdue
  | ret ret =>
    cases hph : w.phase with
    | main => simp [timerStep, hph] at h
    | walk n => simp [timerStep, hph] at h
    | call p =>
      simp only [timerStep, hph] at h
      obtain ⟨rfl, rfl⟩ := Prod.mk.inj (Option.some.inj h)
      exact .ret p ret hph

/-- Only the status of one slot is new, and the code changed that slot only. -/
theorem Tracks.slots_update {a : Agenda κ} {w : TimerWorld κ} (h : Tracks a w) {p : Slot} {st : SlotStatus κ}
    {timers : Timers κ} (hself : st.Matches (timers.slot p))
    (hrest : ∀ q, q ≠ p → timers.slot q = w.timers.slot q) (q : Slot) :
    (Function.update a.status p st q).Matches (timers.slot q) := by
  by_cases hqp : q = p
  · rw [hqp, Function.update_self]
    exact hself
  · rw [Function.update_of_ne hqp, hrest q hqp]
    exact h.slots q

theorem tracks_step (perUs : Nat) {clock1us : U32} {a : Agenda κ} {w w' : TimerWorld κ} {k : TimerCall κ}
    {evs : List (TimerEv κ)} (h : Tracks a w) (hs : timerStep clock1us w k = some (w', evs)) :
    StepShows perUs SlotAllowed Tracks a w' evs := by
  have hrun := h.running
  cases timerStep_cases hs with
  | tick d => exact .inl ⟨rfl, h.slots, h.running, h.busy⟩
  | on stack cb tUs p timers hopen hon =>
    -- the slot was free, so no callback of it runs
    obtain ⟨hfree, hnew, hrest⟩ := Timers.on_slot hon
    have hstatus := (h.slots p).eq_free hfree
    refine .inr ⟨_, rfl, hstatus, h.slots_update ?_ hrest, hrun, fun q hq => ?_⟩
    · rw [hnew]
      exact ⟨rfl, rfl, rfl⟩
    · have hqp : q ≠ p := fun hqp => h.busy q hq (hqp ▸ hstatus)
      simp only [Agenda.next, Function.update_of_ne hqp]
      exact h.busy q hq
  | unon p hopen =>
    obtain ⟨hself, hrest⟩ := w.timers.unon_slot p
    refine .inr ⟨_, rfl, trivial, h.slots_update ?_ hrest, hrun, fun q hq => ?_⟩
    · rw [hself]
      exact ⟨rfl, rfl⟩
    · by_cases hqp : q = p
      · subst hqp
        simp [Agenda.next]
      · simp only [Agenda.next, Function.update_of_ne hqp]
        exact h.busy q hq
  | beginPass hph =>
    refine .inr ⟨_, rfl, trivial, fun q => ?_, rfl, fun q hq => by cases hq⟩
    simp only [Agenda.next, w.timers.reclaim_slot]
    exact (h.slots q).atPassStart
  | passEnd n hph hslot =>
    rw [hph] at hrun
    exact .inr ⟨_, rfl, trivial, h.slots, hrun, fun q hq => by cases hq⟩
  | due n p hph hslot hdue =>
    obtain ⟨c, i, d, f, hlive, hcb⟩ := (h.slots p).eq_live (timerDue_valid hdue)
    refine .inr ⟨_, rfl, ⟨c, i, d, f, hlive, hcb⟩, h.slots, rfl, fun q hq => ?_⟩
    cases hq
    simp [Agenda.next, hlive]
  | notDue n p hph hslot hdue =>
    rw [hph] at hrun
    exact .inl ⟨rfl, h.slots, hrun, fun q hq => by cases hq⟩
  | ret p ret hph =>
    obtain ⟨hself, hrest⟩ := w.timers.done_slot clock1us (clockTime w.passStart) ret p
    rw [hph] at hrun
    refine .inr ⟨_, rfl, hrun, h.slots_update ?_ hrest, rfl, fun q hq => by cases hq⟩
    rw [hself]
    exact (h.slots p).afterReturn (h.busy p hph) perUs a.pass clock1us _ ret

theorem tracks_start (t₀ : Nat) : Tracks (⟨fun _ => .free, t₀, none⟩ : Agenda κ) ⟨.zero, .main, t₀, t₀⟩ := by
  constructor
  · intro p
    cases p <;> exact ⟨rfl, rfl⟩
  · rfl
  · intro p hp
    cases hp

/-- Every slot of the agenda is the slot of the code, and what happens to it is allowed. -/
theorem TimerRun.tracks {clock1us : U32} {legal : TimerWorld κ → TimerCall κ → Prop} {t₀ : Nat} (perUs : Nat)
    {w : TimerWorld κ} {tr : List (TimerEv κ)} (h : TimerRun clock1us legal t₀ w tr) :
    Conforms perUs t₀ SlotAllowed tr ∧ Tracks (agenda perUs t₀ tr) w :=
  h.invariant (tracks_start t₀) fun _ _ _ _ _ hinv _ hs => tracks_step perUs hinv hs

theorem Timers.on_isSome (clock1us now : U32) (cb : κ) (tUs : U32) (s : Timers κ) {p : Slot}
    (hp : (s.slot p).busy = 0) : (s.on clock1us now p.isRight cb tUs).isSome := by
  cases p with
  | inl i =>
    have h := onTimer_isSome clock1us now cb tUs hp
    simpa [Timers.on] using h
  | inr i =>
    have h := onTimer_isSome clock1us now cb tUs hp
    simpa [Timers.on] using h

/-- A registration returns while its list has a free slot. -/
theorem register_isSome {clock1us : U32} {w : TimerWorld κ} {p : Slot} (hopen : w.phase.open)
    (hp : (w.timers.slot p).busy = 0) (cb : κ) (tUs : U32) :
    (timerStep clock1us w (.on p.isRight cb tUs)).isSome := by
  obtain ⟨r, hr⟩ := Option.isSome_iff_exists.mp (w.timers.on_isSome clock1us (clockTime w.time) cb tUs hp)
  simp only [timerStep, if_pos hopen, hr, Option.isSome_some]

/-- No step frees a live slot. -/
theorem timerStep_live_busy {clock1us : U32} {w w' : TimerWorld κ} {k : TimerCall κ} {evs : List (TimerEv κ)}
    (hs : timerStep clock1us w k = some (w', evs)) {a : Agenda κ} (h : Tracks a w) {p : Slot}
    (hp : (w.timers.slot p).valid = 1) : (w'.timers.slot p).busy ≠ 0 := by
  obtain ⟨c, i, d, f, hlive, -⟩ := (h.slots p).eq_live hp
  have hsome : ∀ a' : Agenda κ, Tracks a' w' → a'.status p ≠ .free → (w'.timers.slot p).busy ≠ 0 := by
    intro a' ha' hne
    have hm := ha'.slots p
    cases hst : a'.status p with
    | free => exact absurd hst hne
    | live c' i' d' f' =>
      rw [hst] at hm
      have := hm.2.1
      omega
    | cancelled =>
      rw [hst] at hm
      have := hm.2
      omega
  rcases tracks_step 0 h hs with ⟨-, h'⟩ | ⟨e, -, -, h'⟩
  · exact hsome a h' (by simp [hlive])
  · apply hsome _ h'
    cases e with
    | registered q c' tUs time =>
      by_cases hq : p = q
      · simp [Agenda.next, hq]
      · simp [Agenda.next, Function.update_of_ne hq, hlive]
    | cancelled q =>
      by_cases hq : p = q
      · simp [Agenda.next, hq]
      · simp [Agenda.next, Function.update_of_ne hq, hlive]
    | passStart time => simp [Agenda.next, SlotStatus.atPassStart, hlive]
    | invoked q cb => simp [Agenda.next, hlive]
    | returned q ret =>
      by_cases hq : p = q
      · subst hq
        simp only [Agenda.next, Function.update_self, hlive, SlotStatus.afterReturn]
        split_ifs <;> simp
      · simp [Agenda.next, Function.update_of_ne hq, hlive]
    | passEnd => simp [Agenda.next, hlive]

/-- Between a cancellation and the next callback of its slot lies a registration. -/
theorem Conforms.no_callback_after {perUs t₀ : Nat} {tr pre mid post : List (TimerEv κ)} {p : Slot} {cb : Option κ}
    {e : TimerEv κ} (h : Conforms perUs t₀ SlotAllowed tr)
    (htr : tr = pre ++ e :: mid ++ .invoked p cb :: post)
    (hended : ∀ c i d f, ((agenda perUs t₀ pre).next perUs e).status p ≠ .live c i d f) :
    ∃ c tUs time, .registered p c tUs time ∈ mid := by
  by_contra hnone
  push Not at hnone
  obtain ⟨c, i, d, f, hlive, -⟩ := h (pre ++ e :: mid) (.invoked p cb) post htr
  rw [← agenda_append] at hended
  have hmid := agenda_not_live hended mid hnone c i d f
  rw [List.append_assoc, List.singleton_append] at hmid
  exact hmid hlive

theorem timer_slots {clock1us : U32} {legal : TimerWorld κ → TimerCall κ → Prop} {t₀ : Nat} {w : TimerWorld κ}
    {tr : List (TimerEv κ)} (h : TimerRun clock1us legal t₀ w tr) :
    (∀ pre p cb tUs time post, tr = pre ++ .registered p cb tUs time :: post →
      (agenda clock1us.toNat t₀ pre).status p = .free) ∧
    (∀ pre p mid cb post, tr = pre ++ .cancelled p :: mid ++ .invoked p cb :: post →
      ∃ c tUs time, .registered p c tUs time ∈ mid) ∧
    (∀ p, ((agenda clock1us.toNat t₀ tr).status p).Matches (w.timers.slot p)) ∧
    (∀ k w' evs p, timerStep clock1us w k = some (w', evs) → (w.timers.slot p).valid = 1 →
      (w'.timers.slot p).busy ≠ 0) ∧
    (∀ w' evs p, timerStep clock1us w .beginPass = some (w', evs) → (w.timers.slot p).valid = 2 →
      (w'.timers.slot p).valid = 0 ∧ (w'.timers.slot p).busy = 0) ∧
    (∀ p cb tUs, w.phase.open → (w.timers.slot p).busy = 0 →
      (timerStep clock1us w (.on p.isRight cb tUs)).isSome) := by
  obtain ⟨hconf, htracks⟩ := h.tracks clock1us.toNat
  refine ⟨?_, ?_, htracks.slots, ?_, ?_, ?_⟩
  · intro pre p cb tUs time post htr
    exact hconf pre _ post htr
  · intro pre p mid cb post htr
    apply hconf.no_callback_after htr
    intro c i d f
    simp [Agenda.next]
  · intro k w' evs p hs hp
    exact timerStep_live_busy hs htracks hp
  · intro w' evs p hs hp
    cases timerStep_cases hs with
    | beginPass hph => simp [w.timers.reclaim_slot, hp]
  · intro p cb tUs hopen hp
    exact register_isSome hopen hp cb tUs

/-- Callback 7 is registered, and cancels itself in its call. -/
theorem timer_slots_self_cancel : ∃ (w : TimerWorld Nat) (tr : List (TimerEv Nat)),
    TimerRun 16 (fun _ _ => True) 5 w tr ∧ tr.length = 5 ∧
      ((agenda 16 5 tr).status (.inl 0)).Matches (w.timers.slot (.inl 0)) := by
  have h₁ : TimerRun 16 (fun (_ : TimerWorld Nat) _ => True) 5 _ _ :=
    .step (k := .on false 7 0) .start trivial rfl
  have h₂ := TimerRun.step (k := .beginPass) h₁ trivial rfl
  have h₃ := TimerRun.step (k := .visit) h₂ trivial rfl
  have h₄ := TimerRun.step (k := .unon (.inl 0)) h₃ trivial rfl
  have h₅ := TimerRun.step (k := .ret 0) h₄ trivial rfl
  exact ⟨_, _, h₅, rfl, (timer_slots h₅).2.2.1 (.inl 0)⟩

end Rf4ce.Os
