import Rf4ce.Os.TimerSlots

/-! Deadlines of the timers on the wrapping clock, with callbacks that arm and cancel timers
while a pass uses an older clock value. -/
namespace Rf4ce.Os

variable {κ : Type}

/-- `EV_TIMER_SAFE_MARGIN_US` in ticks of a clock that does not wrap. -/
def safeMargin (clock1us : U32) : Nat := 4000000 * clock1us.toNat

/-- Passes begin less than the margin apart, intervals are below 2^31 ticks. -/
def Timely (clock1us : U32) (w : TimerWorld κ) : TimerCall κ → Prop
  | .tick d => w.time + d < w.passStart + safeMargin clock1us
  | .on _ _ tUs => tUs.toNat * clock1us.toNat < 2 ^ 31
  | .ret ret => ret.toNat * clock1us.toNat < 2 ^ 31
  | _ => True

/-- Callbacks are not early, and a pass ends with no deadline of its own behind it. -/
def DueAllowed (a : Agenda κ) : TimerEv κ → Prop
  | .invoked p _ => ∀ c i d f, a.status p = .live c i d f → d ≤ a.pass
  | .passEnd => ∀ p c i d f, a.status p = .live c i d f → d ≤ a.pass → f = true
  | _ => True

/-- How many slots the second loops have behind them. -/
def Phase.visited : Phase → Nat
  | .main => 22
  | .walk k => k
  | .call p => slotPos p

/-- A slot's words are its deadline and its interval, inside one window around the pass. -/
structure InWindow (clock1us : U32) (pass visited : Nat) (p : Slot) (e : TimeEvent κ) (i d : Nat) (f : Bool) :
    Prop where
  t : e.t = clockTime d
  interval : e.interval = BitVec.ofNat 32 i
  short : i < 2 ^ 31
  low : pass < d + safeMargin clock1us
  high : d < pass + safeMargin clock1us + 2 ^ 31
  fresh : f = true → pass ≤ d
  behind : slotPos p < visited → f = true ∨ pass < d

structure InTime (clock1us : U32) (a : Agenda κ) (w : TimerWorld κ) : Prop where
  pass : a.pass = w.passStart
  started : w.passStart ≤ w.time
  soon : w.time < w.passStart + safeMargin clock1us
  live : ∀ p c i d f, a.status p = .live c i d f →
    InWindow clock1us w.passStart w.phase.visited p (w.timers.slot p) i d f

theorem evIsTimerExpired_iff {clock1us : U32} (hclk : safeMargin clock1us ≤ 2 ^ 30) {pass d : Nat}
    {e : TimeEvent κ} (ht : e.t = clockTime d) (hlow : pass < d + safeMargin clock1us)
    (hhigh : d < pass + safeMargin clock1us + 2 ^ 31) :
    evIsTimerExpired clock1us (clockTime pass) e = true ↔ d ≤ pass := by
  have hmargin : (evTimerSafeMarginUs * clock1us).toNat = safeMargin clock1us := by
    unfold safeMargin at *
    have hus : evTimerSafeMarginUs.toNat = 4000000 := rfl
    rw [BitVec.toNat_mul, hus]
    exact Nat.mod_eq_of_lt (by omega)
  have hdiff : (clockTime pass - clockTime d).toNat = (2 ^ 32 - d % 2 ^ 32 + pass % 2 ^ 32) % 2 ^ 32 := by
    simp only [clockTime, BitVec.toNat_sub, BitVec.toNat_ofNat]
  simp only [evIsTimerExpired, ht, decide_eq_true_eq, BitVec.lt_def, hmargin, hdiff]
  omega

theorem clockTime_add (t i : Nat) : clockTime t + BitVec.ofNat 32 i = clockTime (t + i) := by
  simp only [clockTime, BitVec.ofNat_add]

theorem ofNat_toNat_mul (x y : U32) : x * y = BitVec.ofNat 32 (x.toNat * y.toNat) := by
  rw [BitVec.ofNat_mul, BitVec.ofNat_toNat, BitVec.ofNat_toNat, BitVec.setWidth_eq, BitVec.setWidth_eq]

theorem ofInt_mul {ret : Int} (h : 0 ≤ ret) (y : U32) :
    BitVec.ofInt 32 ret * y = BitVec.ofNat 32 (ret.toNat * y.toNat) := by
  have hret : BitVec.ofInt 32 ret = BitVec.ofNat 32 ret.toNat := by
    conv_lhs => rw [← Int.toNat_of_nonneg h]
    exact BitVec.ofInt_natCast 32 _
  rw [hret, BitVec.ofNat_mul, BitVec.ofNat_toNat, BitVec.setWidth_eq]

theorem InWindow.passStart {clock1us : U32} {pass time : Nat} {p : Slot} {e : TimeEvent κ} {i d : Nat} {f : Bool}
    (h : InWindow clock1us pass 22 p e i d f) (hstart : pass ≤ time) (hsoon : time < pass + safeMargin clock1us) :
    InWindow clock1us time 0 p e i d false := by
  have hp := slotPos_lt p
  have hbehind := h.behind hp
  have hfresh := h.fresh
  have hhigh := h.high
  constructor
  · exact h.t
  · exact h.interval
  · exact h.short
  · cases f with
    | true =>
      have := hfresh rfl
      omega
    | false =>
      have : pass < d := by simpa using hbehind
      omega
  · omega
  · intro hf
    cases hf
  · intro hlt
    omega

/-- Once armed since the pass began, a timer is served as far as this pass goes. -/
theorem InWindow.armed {clock1us : U32} {pass from' visited : Nat} {p : Slot} {e : TimeEvent κ} {i : Nat}
    (ht : e.t = clockTime (from' + i)) (hi : e.interval = BitVec.ofNat 32 i) (hshort : i < 2 ^ 31)
    (hfrom : pass ≤ from') (hsoon : from' < pass + safeMargin clock1us) :
    InWindow clock1us pass visited p e i (from' + i) true := by
  constructor
  · exact ht
  · exact hi
  · exact hshort
  · omega
  · omega
  · intro _
    omega
  · intro _
    exact .inl rfl

/-- The slot just visited without a call was not due, and the others stay as they are. -/
theorem InWindow.visit {clock1us : U32} {pass n : Nat} {p q : Slot} {e : TimeEvent κ} {i d : Nat} {f : Bool}
    (h : InWindow clock1us pass n p e i d f) (hq : slotPos q = n) (hnext : p = q → f = true ∨ pass < d) :
    InWindow clock1us pass (n + 1) p e i d f := by
  constructor
  · exact h.t
  · exact h.interval
  · exact h.short
  · exact h.low
  · exact h.high
  · exact h.fresh
  · intro hlt
    by_cases hp : slotPos p = n
    · exact hnext (slotPos_injective (hp.trans hq.symm))
    · exact h.behind (by omega)

/-- After a callback returned, its timer is due an interval after the start of the pass. -/
theorem InWindow.returned {clock1us : U32} {pass visited visited' : Nat} {p : Slot} {e : TimeEvent κ} {c : κ}
    {i d : Nat} {f : Bool} (h : InWindow clock1us pass visited p e i d f) (hmargin : 0 < safeMargin clock1us)
    {ret : Int} (hret : ret.toNat * clock1us.toNat < 2 ^ 31) {c' : κ} {i' d' : Nat} {f' : Bool}
    (hst : (SlotStatus.live c i d f).afterReturn clock1us.toNat pass ret = .live c' i' d' f') :
    InWindow clock1us pass visited' p (rearmTimer clock1us (clockTime pass) ret e) i' d' f' := by
  unfold SlotStatus.afterReturn at hst
  unfold rearmTimer
  split_ifs at hst ⊢ with h₁ h₂
  · obtain ⟨rfl, rfl, rfl, rfl⟩ := SlotStatus.live.inj hst
    apply InWindow.armed
    · dsimp only
      rw [h.interval, clockTime_add]
    · exact h.interval
    · exact h.short
    · exact le_refl pass
    · omega
  · obtain ⟨rfl, rfl, rfl, rfl⟩ := SlotStatus.live.inj hst
    apply InWindow.armed
    · dsimp only
      rw [ofInt_mul (Int.not_lt.mp h₁), clockTime_add]
    · exact ofInt_mul (Int.not_lt.mp h₁) clock1us
    · exact hret
    · exact le_refl pass
    · omega

section Steps
variable {clock1us : U32} {a : Agenda κ} {w : TimerWorld κ}

/-- The test of the second loops is the deadline of the agenda. -/
theorem InTime.due_iff (h : InTime clock1us a w) (htr : Tracks a w) (hclk : safeMargin clock1us ≤ 2 ^ 30)
    {p : Slot} {c : κ} {i d : Nat} {f : Bool} (hst : a.status p = .live c i d f) :
    timerDue clock1us (clockTime w.passStart) (w.timers.slot p) = true ↔ d ≤ w.passStart := by
  have hwin := h.live p c i d f hst
  have hm := htr.slots p
  rw [hst] at hm
  simp only [timerDue, hm.1, decide_true, Bool.true_and]
  exact evIsTimerExpired_iff hclk hwin.t hwin.low hwin.high

/-- Only the status of one slot is new, and the code changed that slot only. -/
theorem InTime.live_update (h : InTime clock1us a w) {p : Slot} {st : SlotStatus κ} {timers : Timers κ}
    {visited : Nat}
    (hself : ∀ c i d f, st = .live c i d f → InWindow clock1us w.passStart visited p (timers.slot p) i d f)
    (hrest : ∀ q, q ≠ p → timers.slot q = w.timers.slot q)
    (hvisit : ∀ q i d f, q ≠ p → InWindow clock1us w.passStart w.phase.visited q (w.timers.slot q) i d f →
      InWindow clock1us w.passStart visited q (w.timers.slot q) i d f)
    (q : Slot) (c : κ) (i d : Nat) (f : Bool) (hst : Function.update a.status p st q = .live c i d f) :
    InWindow clock1us w.passStart visited q (timers.slot q) i d f := by
  by_cases hqp : q = p
  · rw [hqp, Function.update_self] at hst
    rw [hqp]
    exact hself c i d f hst
  · rw [Function.update_of_ne hqp] at hst
    rw [hrest q hqp]
    exact hvisit q i d f hqp (h.live q c i d f hst)

/-- A new pass: what was fresh is so no more. -/
theorem InTime.live_passStart (h : InTime clock1us a w) (htr : Tracks a w) (hph : w.phase = .main)
    (q : Slot) (c : κ) (i d : Nat) (f : Bool) (hst : (a.status q).atPassStart = .live c i d f) :
    InWindow clock1us w.time 0 q (w.timers.reclaim.slot q) i d f := by
  cases hq : a.status q with
  | free => simp [hq, SlotStatus.atPassStart] at hst
  | cancelled => simp [hq, SlotStatus.atPassStart] at hst
  | live c' i' d' f' =>
    rw [hq] at hst
    obtain ⟨rfl, rfl, rfl, rfl⟩ := SlotStatus.live.inj hst
    have hm := htr.slots q
    rw [hq] at hm
    have hvalid : (w.timers.slot q).valid ≠ 2 := by
      have := hm.1
      omega
    have hwin := h.live q _ _ _ _ hq
    rw [hph] at hwin
    rw [w.timers.reclaim_slot, if_neg hvalid]
    exact hwin.passStart h.started h.soon

/-- At the end of a pass every slot was visited. -/
theorem InTime.behind_all (h : InTime clock1us a w) {n : Nat} (hph : w.phase = .walk n) (hn : 22 ≤ n)
    {q : Slot} {c : κ} {i d : Nat} {f : Bool} (hst : a.status q = .live c i d f) : f = true ∨ w.passStart < d := by
  have hwin := h.live q c i d f hst
  rw [hph] at hwin
  exact hwin.behind (Nat.lt_of_lt_of_le (slotPos_lt q) hn)

end Steps

theorem inTime_step {clock1us : U32} (hclk : safeMargin clock1us ≤ 2 ^ 30) {a : Agenda κ} {w w' : TimerWorld κ}
    {k : TimerCall κ} {evs : List (TimerEv κ)} (htr : Tracks a w) (h : InTime clock1us a w)
    (hk : Timely clock1us w k) (hs : timerStep clock1us w k = some (w', evs)) :
    StepShows clock1us.toNat DueAllowed (InTime clock1us) a w' evs := by
  have hsoon := h.soon
  have hstarted := h.started
  cases timerStep_cases hs with
  | tick d => exact .inl ⟨rfl, h.pass, Nat.le_add_right_of_le hstarted, hk, h.live⟩
  | on stack cb tUs p timers hopen hon =>
    obtain ⟨-, hnew, hrest⟩ := Timers.on_slot hon
    refine .inr ⟨_, rfl, trivial, h.pass, hstarted, hsoon, h.live_update ?_ hrest fun _ _ _ _ _ hwin => hwin⟩
    intro c i d f hst
    obtain ⟨rfl, rfl, rfl, rfl⟩ := SlotStatus.live.inj hst
    apply InWindow.armed
    · simp only [hnew, ofNat_toNat_mul tUs clock1us, clockTime_add]
    · simp only [hnew, ofNat_toNat_mul tUs clock1us]
    · exact hk
    · exact hstarted
    · exact hsoon
  | unon p hopen =>
    obtain ⟨-, hrest⟩ := w.timers.unon_slot p
    refine .inr ⟨_, rfl, trivial, h.pass, hstarted, hsoon, h.live_update ?_ hrest fun _ _ _ _ _ hwin => hwin⟩
    intro c i d f hst
    cases hst
  | beginPass hph =>
    exact .inr ⟨_, rfl, trivial, rfl, le_refl w.time, by dsimp only; omega, h.live_passStart htr hph⟩
  | passEnd n hph hslot =>
    have hend {q c i d f} := h.behind_all hph (le_of_slotAt_none hslot) (q := q) (c := c) (i := i) (d := d) (f := f)
    refine .inr ⟨_, rfl, fun q c i d f hst hle => ?_, h.pass, hstarted, hsoon, fun q c i d f hst => ?_⟩
    · rw [h.pass] at hle
      exact (hend hst).resolve_right (by omega)
    · have hwin := h.live q c i d f hst
      exact ⟨hwin.t, hwin.interval, hwin.short, hwin.low, hwin.high, hwin.fresh, fun _ => hend hst⟩
  | due n p hph hslot hdue =>
    have hpos := slotPos_slotAt hslot
    refine .inr ⟨_, rfl, fun c i d f hst => ?_, h.pass, hstarted, hsoon, fun q c i d f hst => ?_⟩
    · rw [h.pass]
      exact (h.due_iff htr hclk hst).mp hdue
    · have hwin := h.live q c i d f hst
      rw [hph] at hwin
      simp only [Phase.visited, hpos]
      exact hwin
  | notDue n p hph hslot hdue =>
    refine .inl ⟨rfl, h.pass, hstarted, hsoon, fun q c i d f hst => ?_⟩
    have hwin := h.live q c i d f hst
    rw [hph] at hwin
    apply hwin.visit (slotPos_slotAt hslot)
    intro hqp
    have hnot := (h.due_iff htr hclk hst).not.mp (by simp [hqp, hdue])
    exact .inr (by omega)
  | ret p ret hph =>
    obtain ⟨hself, hrest⟩ := w.timers.done_slot clock1us (clockTime w.passStart) ret p
    refine .inr ⟨_, rfl, trivial, h.pass, hstarted, hsoon, h.live_update ?_ hrest ?_⟩
    · intro c i d f hst
      rw [hself]
      cases hq : a.status p with
      | free => simp [hq, SlotStatus.afterReturn] at hst
      | cancelled => simp [hq, SlotStatus.afterReturn] at hst
      | live c' i' d' f' =>
        rw [hq, h.pass] at hst
        exact (h.live p _ _ _ _ hq).returned (by omega) hk hst
    · intro q i d f hqp hwin
      rw [hph] at hwin
      exact hwin.visit rfl fun hpq => absurd hpq hqp

def Served (clock1us : U32) (a : Agenda κ) (w : TimerWorld κ) : Prop := Tracks a w ∧ InTime clock1us a w

theorem served_step {clock1us : U32} (hclk : safeMargin clock1us ≤ 2 ^ 30) {a : Agenda κ} {w w' : TimerWorld κ}
    {k : TimerCall κ} {evs : List (TimerEv κ)} (h : Served clock1us a w) (hk : Timely clock1us w k)
    (hs : timerStep clock1us w k = some (w', evs)) :
    StepShows clock1us.toNat DueAllowed (Served clock1us) a w' evs := by
  rcases tracks_step clock1us.toNat h.1 hs with ⟨rfl, htr⟩ | ⟨e, rfl, -, htr⟩
  · rcases inTime_step hclk h.1 h.2 hk hs with ⟨-, hin⟩ | ⟨e, hevs, -, -⟩
    · exact .inl ⟨rfl, htr, hin⟩
    · cases hevs
  · rcases inTime_step hclk h.1 h.2 hk hs with ⟨hevs, -⟩ | ⟨e', hevs, he, hin⟩
    · cases hevs
    · obtain ⟨rfl, -⟩ := List.cons.inj hevs
      exact .inr ⟨e, rfl, he, htr, hin⟩

theorem inTime_start {clock1us : U32} (hclk : 0 < safeMargin clock1us) (t₀ : Nat) :
    InTime clock1us (⟨fun _ => .free, t₀, none⟩ : Agenda κ) ⟨.zero, .main, t₀, t₀⟩ := by
  constructor
  · rfl
  · exact le_refl t₀
  · dsimp only
    omega
  · intro p c i d f hst
    cases hst

/-- A timer that was live when the pass began stays so until it is invoked or cancelled. -/
theorem Conforms.still_live {perUs t₀ : Nat} {pre mid post : List (TimerEv κ)} {pass : Nat} {p : Slot} {c : κ}
    {i d : Nat} {f : Bool} (h : Conforms perUs t₀ SlotAllowed (pre ++ .passStart pass :: mid ++ post))
    (hst : (agenda perUs t₀ pre).status p = .live c i d f) (hpass : ∀ t, .passStart t ∉ mid)
    (hcancel : .cancelled p ∉ mid) (hcall : .invoked p (some c) ∉ mid) :
    (agenda perUs t₀ (pre ++ .passStart pass :: mid)).status p = .live c i d false ∧
      (agenda perUs t₀ (pre ++ .passStart pass :: mid)).pass = pass ∧
      (agenda perUs t₀ (pre ++ .passStart pass :: mid)).running ≠ some p := by
  induction mid using List.reverseRecOn generalizing post with
  | nil =>
    rw [agenda_append]
    simp [Agenda.next, hst, SlotStatus.atPassStart]
  | append_singleton mid e ih =>
    rw [← List.cons_append, ← List.append_assoc] at h ⊢
    have hallowed : SlotAllowed (agenda perUs t₀ (pre ++ .passStart pass :: mid)) e :=
      h _ e post (by simp)
    rw [List.append_assoc] at h
    obtain ⟨hlive, htime, hrun⟩ := ih h (fun t hin => hpass t (List.mem_append_left _ hin))
      (fun hin => hcancel (List.mem_append_left _ hin)) fun hin => hcall (List.mem_append_left _ hin)
    rw [agenda_append]
    generalize agenda perUs t₀ (pre ++ .passStart pass :: mid) = a at hallowed hlive htime hrun
    cases e with
    | registered q c' tUs time =>
      have hq : p ≠ q := by
        rintro rfl
        rw [SlotAllowed, hlive] at hallowed
        cases hallowed
      simp only [Agenda.next, Function.update_of_ne hq]
      exact ⟨hlive, htime, hrun⟩
    | cancelled q =>
      have hq : p ≠ q := by
        rintro rfl
        exact hcancel (by simp)
      simp only [Agenda.next, Function.update_of_ne hq]
      exact ⟨hlive, htime, hrun⟩
    | passStart t => exact absurd (by simp) (hpass t)
    | invoked q cb =>
      have hq : p ≠ q := by
        rintro rfl
        obtain ⟨c', i', d', f', hlive', rfl⟩ := hallowed
        rw [hlive] at hlive'
        obtain ⟨rfl, -, -, -⟩ := SlotStatus.live.inj hlive'
        exact hcall (by simp)
      refine ⟨hlive, htime, ?_⟩
      simpa [Agenda.next] using hq.symm
    | returned q ret =>
      have hq : p ≠ q := by
        rintro rfl
        exact hrun hallowed
      simp only [Agenda.next, Function.update_of_ne hq]
      exact ⟨hlive, htime, by simp⟩
    | passEnd => exact ⟨hlive, htime, hrun⟩

/-- Callbacks run in the first pass that starts at or after their deadline, and what they
return decides the next one. -/
structure OnTime (perUs t₀ : Nat) (tr : List (TimerEv κ)) : Prop where
  not_early : ∀ pre p cb post, tr = pre ++ .invoked p cb :: post →
    ∃ c i d f, (agenda perUs t₀ pre).status p = .live c i d f ∧ cb = some c ∧ d ≤ (agenda perUs t₀ pre).pass
  not_late : ∀ pre pass mid post p c i d f, tr = pre ++ .passStart pass :: mid ++ .passEnd :: post →
    (∀ t, .passStart t ∉ mid) → (agenda perUs t₀ pre).status p = .live c i d f → d ≤ pass →
    .cancelled p ∈ mid ∨ .invoked p (some c) ∈ mid
  rearmed : ∀ pre p ret post c i d f, tr = pre ++ .returned p ret :: post →
    (agenda perUs t₀ pre).status p = .live c i d f → 0 ≤ ret →
    ∃ i', i' = (if ret = 0 then i else ret.toNat * perUs) ∧
      (agenda perUs t₀ (pre ++ [.returned p ret])).status p =
        .live c i' ((agenda perUs t₀ pre).pass + i') true
  ended : ∀ pre p ret mid cb post, tr = pre ++ .returned p ret :: mid ++ .invoked p cb :: post → ret < 0 →
    ∃ c tUs time, .registered p c tUs time ∈ mid

theorem timers_on_time {clock1us : U32} (hpos : 0 < clock1us.toNat) (hclk : 4000000 * clock1us.toNat ≤ 2 ^ 30)
    {t₀ : Nat} {w : TimerWorld κ} {tr : List (TimerEv κ)} (h : TimerRun clock1us (Timely clock1us) t₀ w tr) :
    OnTime clock1us.toNat t₀ tr := by
  have hmargin : 0 < safeMargin clock1us := by
    unfold safeMargin
    omega
  have hslots := (h.tracks clock1us.toNat).1
  have hstart : Served clock1us (⟨fun _ => .free, t₀, none⟩ : Agenda κ) ⟨.zero, .main, t₀, t₀⟩ :=
    ⟨tracks_start t₀, inTime_start hmargin t₀⟩
  have hdue := (h.invariant hstart fun _ _ _ _ _ hinv hk hs => served_step hclk hinv hk hs).1
  constructor
  · intro pre p cb post htr
    obtain ⟨c, i, d, f, hlive, hcb⟩ := hslots pre _ post htr
    exact ⟨c, i, d, f, hlive, hcb, hdue pre _ post htr c i d f hlive⟩
  · intro pre pass mid post p c i d f htr hpass hlive hle
    by_contra hnot
    push Not at hnot
    have hconf := hslots
    rw [htr] at hconf
    obtain ⟨hstill, htime, -⟩ := hconf.still_live hlive hpass hnot.1 hnot.2
    have hfresh := hdue _ _ _ htr p c i d false hstill (by rw [htime]; exact hle)
    cases hfresh
  · intro pre p ret post c i d f _ hlive hret
    refine ⟨_, rfl, ?_⟩
    rw [agenda_append]
    simp only [Agenda.next, Function.update_self, hlive, SlotStatus.afterReturn, if_neg (Int.not_lt.mpr hret)]
    split_ifs <;> rfl
  · intro pre p ret mid cb post htr hret
    apply hslots.no_callback_after htr
    intro c i d f
    simp only [Agenda.next, Function.update_self]
    cases (agenda clock1us.toNat t₀ pre).status p with
    | free => simp [SlotStatus.afterReturn]
    | cancelled => simp [SlotStatus.afterReturn]
    | live c' i' d' f' => simp [SlotStatus.afterReturn, hret]

/-- Callback 7 is registered for 1 s before the clock wraps, and runs in the first pass after. -/
theorem timers_on_time_wrap : ∃ (w : TimerWorld Nat) (tr : List (TimerEv Nat)),
    TimerRun 16 (Timely 16) 4290000000 w tr ∧ TimerEv.invoked (.inl 0) (some 7) ∈ tr ∧
      OnTime 16 4290000000 tr := by
  have h₁ : TimerRun 16 (fun (w : TimerWorld Nat) k => Timely 16 w k) 4290000000 _ _ :=
    .step (k := .on false 7 1000000) .start (show 1000000 * 16 < 2 ^ 31 by decide) rfl
  have h₂ := TimerRun.step (k := .tick 16000000) h₁
    (show 4290000000 + 16000000 < 4290000000 + 4000000 * 16 by decide) rfl
  have h₃ := TimerRun.step (k := .beginPass) h₂ trivial rfl
  have h₄ := TimerRun.step (k := .visit) h₃ trivial rfl
  exact ⟨_, _, h₄, List.mem_append_right _ (List.mem_singleton.mpr rfl), timers_on_time (by decide) (by decide) h₄⟩

end Rf4ce.Os
