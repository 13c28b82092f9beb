import Rf4ce.Refine.Run

/-! Bounded queues that drop their oldest entry to make room: the history of such a queue, the
event traces that it allows, and the ring of free-running counters that implements it. -/
namespace Rf4ce.Refine

variable {σ κ ρ α : Type}

inductive LossyEvent (α : Type) where
  | pushed (a : α)
  | popped (r : Option α)
deriving DecidableEq, Repr

/-- What happened to a queue: entry number `next` is the oldest unread one, and every earlier one
was read or dropped. -/
structure Lossy (α : Type) where
  pushed : List α
  next : Nat
  read : List Nat
  dropped : List Nat
deriving DecidableEq, Repr

def Lossy.empty : Lossy α := ⟨[], 0, [], []⟩

def Lossy.unread (g : Lossy α) : List α := g.pushed.drop g.next

/-- A new entry; it drops the oldest unread one where `n` are unread already. -/
def Lossy.push (n : Nat) (g : Lossy α) (a : α) : Lossy α :=
  if g.unread.length < n then { g with pushed := g.pushed ++ [a] }
  else { g with pushed := g.pushed ++ [a], next := g.next + 1, dropped := g.dropped ++ [g.next] }

/-- The oldest unread entry is read, if there is one. -/
def Lossy.pop (g : Lossy α) : Lossy α :=
  if g.unread = [] then g else { g with next := g.next + 1, read := g.read ++ [g.next] }

/-- The queue allows an event: a push always, a pop with the oldest unread entry as its answer. -/
inductive Lossy.Step (n : Nat) : Lossy α → LossyEvent α → Lossy α → Prop
  | push (g : Lossy α) (a : α) : Step n g (.pushed a) (g.push n a)
  | pop (g : Lossy α) : Step n g (.popped g.unread.head?) g.pop

inductive Lossy.Steps (n : Nat) : Lossy α → List (LossyEvent α) → Lossy α → Prop
  | nil (g : Lossy α) : Steps n g [] g
  | cons {g g' g'' : Lossy α} {e : LossyEvent α} {es : List (LossyEvent α)} (h : Step n g e g')
      (hs : Steps n g' es g'') : Steps n g (e :: es) g''

theorem Lossy.Steps.append {n : Nat} {g g' g'' : Lossy α} {es es' : List (LossyEvent α)}
    (h : Steps n g es g') (h' : Steps n g' es' g'') : Steps n g (es ++ es') g'' := by
  induction h with
  | nil => exact h'
  | cons hstep _ ih => exact .cons hstep (ih h')

theorem Lossy.Steps.single {n : Nat} {g g' : Lossy α} {e : LossyEvent α} (h : Step n g e g') :
    Steps n g [e] g' := .cons h (.nil g')

/-! ### What the history says -/

def pushedEvents : List (LossyEvent α) → List α
  | [] => []
  | .pushed a :: es => a :: pushedEvents es
  | .popped _ :: es => pushedEvents es

/-- The entries that pops returned. -/
def poppedEvents : List (LossyEvent α) → List α
  | [] => []
  | .popped (some a) :: es => a :: poppedEvents es
  | _ :: es => poppedEvents es

theorem pushedEvents_append (es es' : List (LossyEvent α)) :
    pushedEvents (es ++ es') = pushedEvents es ++ pushedEvents es' := by
  induction es with
  | nil => rfl
  | cons e es ih => cases e <;> simp [pushedEvents, ih]

theorem poppedEvents_append (es es' : List (LossyEvent α)) :
    poppedEvents (es ++ es') = poppedEvents es ++ poppedEvents es' := by
  induction es with
  | nil => rfl
  | cons e es ih =>
    cases e with
    | pushed a => simpa [poppedEvents] using ih
    | popped r => cases r <;> simp [poppedEvents, ih]

/-- Numbers of entries, in increasing order. -/
def Numbers (bound : Nat) (l : List Nat) : Prop := l.Pairwise (· < ·) ∧ ∀ k ∈ l, k < bound

theorem Numbers.mono {b b' : Nat} {l : List Nat} (h : Numbers b l) (hb : b ≤ b') : Numbers b' l :=
  ⟨h.1, fun k hk => Nat.lt_of_lt_of_le (h.2 k hk) hb⟩

theorem Numbers.snoc {b : Nat} {l : List Nat} (h : Numbers b l) : Numbers (b + 1) (l ++ [b]) := by
  constructor
  · rw [List.pairwise_append]
    refine ⟨h.1, List.pairwise_singleton _ _, fun k hk k' hk' => ?_⟩
    rw [List.mem_singleton.mp hk']
    exact h.2 k hk
  · intro k hk
    rcases List.mem_append.mp hk with hk | hk
    · exact Nat.lt_succ_of_lt (h.2 k hk)
    · rw [List.mem_singleton.mp hk]
      exact Nat.lt_succ_self b

/-- At most `n` entries are unread, and each earlier one was either read or dropped, once. -/
structure Lossy.Sound (n : Nat) (g : Lossy α) : Prop where
  bound : g.next ≤ g.pushed.length
  room : g.pushed.length ≤ g.next + n
  read : Numbers g.next g.read
  dropped : Numbers g.next g.dropped
  split : ∀ k < g.next, (k ∈ g.read ∧ k ∉ g.dropped) ∨ (k ∈ g.dropped ∧ k ∉ g.read)

theorem Lossy.empty_sound (n : Nat) : (Lossy.empty : Lossy α).Sound n := by
  constructor <;> simp [Lossy.empty, Numbers]

@[simp] theorem Lossy.unread_length (g : Lossy α) : g.unread.length = g.pushed.length - g.next := by
  simp [Lossy.unread]

theorem Lossy.unread_eq_nil {g : Lossy α} : g.unread = [] ↔ g.pushed.length ≤ g.next := by
  simp [Lossy.unread]

theorem Lossy.push_unread {n : Nat} {g : Lossy α} (h : g.next ≤ g.pushed.length) (hn : 0 < n) (a : α) :
    (g.push n a).unread = (if g.unread.length < n then g.unread else g.unread.tail) ++ [a] := by
  unfold Lossy.push
  split_ifs with hlt
  · exact List.drop_append_of_le_length h
  · rw [Lossy.unread_length] at hlt
    have hle : g.next + 1 ≤ g.pushed.length := by omega
    simp [Lossy.unread, List.drop_append_of_le_length hle, List.tail_drop]

theorem Lossy.pop_unread (g : Lossy α) : g.pop.unread = g.unread.tail := by
  unfold Lossy.pop
  split_ifs with hnil
  · rw [hnil]
    rfl
  · simp [Lossy.unread, List.tail_drop]

/-- One more number is settled. -/
theorem split_snoc {b : Nat} {l l' : List Nat} (hl : Numbers b l) (hl' : Numbers b l')
    (h : ∀ k < b, (k ∈ l ∧ k ∉ l') ∨ (k ∈ l' ∧ k ∉ l)) :
    ∀ k < b + 1, (k ∈ l ++ [b] ∧ k ∉ l') ∨ (k ∈ l' ∧ k ∉ l ++ [b]) := by
  intro k hk
  rcases Nat.lt_succ_iff_lt_or_eq.mp hk with hk | rfl
  · have hne : k ≠ b := Nat.ne_of_lt hk
    simpa [hne] using h k hk
  · have hnot : k ∉ l' := fun hmem => Nat.lt_irrefl k (hl'.2 k hmem)
    simp [hnot]

theorem Lossy.Sound.push {n : Nat} {g : Lossy α} (h : g.Sound n) (hn : 0 < n) (a : α) :
    (g.push n a).Sound n := by
  obtain ⟨hbound, hroom, hread, hdropped, hsplit⟩ := h
  unfold Lossy.push
  rw [Lossy.unread_length]
  split_ifs with hlt
  · constructor
    · show g.next ≤ (g.pushed ++ [a]).length
      rw [List.length_append]
      omega
    · show (g.pushed ++ [a]).length ≤ g.next + n
      rw [List.length_append, List.length_singleton]
      omega
    · exact hread
    · exact hdropped
    · exact hsplit
  · constructor
    · show g.next + 1 ≤ (g.pushed ++ [a]).length
      rw [List.length_append, List.length_singleton]
      omega
    · show (g.pushed ++ [a]).length ≤ g.next + 1 + n
      rw [List.length_append, List.length_singleton]
      omega
    · exact hread.mono (Nat.le_succ _)
    · exact hdropped.snoc
    · intro k hk
      exact (split_snoc hdropped hread (fun k hk => (hsplit k hk).symm) k hk).symm

theorem Lossy.Sound.pop {n : Nat} {g : Lossy α} (h : g.Sound n) : g.pop.Sound n := by
  unfold Lossy.pop
  split_ifs with hnil
  · exact h
  · obtain ⟨hbound, hroom, hread, hdropped, hsplit⟩ := h
    rw [Lossy.unread_eq_nil] at hnil
    constructor
    · show g.next + 1 ≤ g.pushed.length
      omega
    · show g.pushed.length ≤ g.next + 1 + n
      omega
    · exact hread.snoc
    · exact hdropped.mono (Nat.le_succ _)
    · exact split_snoc hread hdropped hsplit

theorem Lossy.Steps.sound {n : Nat} (hn : 0 < n) {g g' : Lossy α} {es : List (LossyEvent α)}
    (hs : Steps n g es g') (h : g.Sound n) : g'.Sound n := by
  induction hs with
  | nil => exact h
  | cons hstep _ ih =>
    apply ih
    cases hstep with
    | push => exact h.push hn _
    | pop => exact h.pop

theorem Lossy.Steps.pushed {n : Nat} {g g' : Lossy α} {es : List (LossyEvent α)} (hs : Steps n g es g') :
    g'.pushed = g.pushed ++ pushedEvents es := by
  induction hs with
  | nil => simp [pushedEvents]
  | @cons g _ _ _ _ hstep _ ih =>
    cases hstep with
    | push a =>
      rw [ih]
      unfold Lossy.push
      split_ifs <;> simp [pushedEvents]
    | pop =>
      rw [ih]
      unfold Lossy.pop
      split_ifs <;> simp [pushedEvents]

/-- The entries returned are those whose numbers are noted as read. -/
theorem Lossy.Steps.popped {n : Nat} {g g' : Lossy α} {es : List (LossyEvent α)} (hs : Steps n g es g') :
    ∃ ks, g'.read = g.read ++ ks ∧ (poppedEvents es).map some = ks.map (g'.pushed[·]?) := by
  induction hs with
  | nil => exact ⟨[], by simp [poppedEvents]⟩
  | @cons g g' g'' _ es hstep hs ih =>
    obtain ⟨ks, hread, hks⟩ := ih
    cases hstep with
    | push a =>
      refine ⟨ks, ?_, hks⟩
      rw [hread]
      unfold Lossy.push
      split_ifs <;> rfl
    | pop =>
      unfold Lossy.pop at hread hs
      by_cases hnil : g.unread = []
      · rw [if_pos hnil] at hread
        exact ⟨ks, hread, by simpa [hnil, poppedEvents] using hks⟩
      · rw [if_neg hnil] at hread hs
        rw [Lossy.unread_eq_nil] at hnil
        have hlt : g.next < g.pushed.length := by omega
        have hhead : g.unread.head? = some g.pushed[g.next] := by
          simp [Lossy.unread, List.head?_drop, hlt]
        have hkeep : g''.pushed[g.next]? = some g.pushed[g.next] := by
          rw [hs.pushed, List.getElem?_append_left hlt, List.getElem?_eq_getElem hlt]
        refine ⟨g.next :: ks, ?_, ?_⟩
        · rw [hread]
          simp
        · simp [hhead, poppedEvents, hks, hkeep]

/-- Where there is room for every push, nothing is dropped. -/
theorem Lossy.Steps.conserves {n : Nat} {g g' : Lossy α} {es : List (LossyEvent α)} (hs : Steps n g es g')
    (h : g.Sound n) (hroom : g.unread.length + (pushedEvents es).length ≤ n) :
    g.unread ++ pushedEvents es = poppedEvents es ++ g'.unread := by
  induction hs with
  | nil => simp [pushedEvents, poppedEvents]
  | @cons g g₁ g' _ es hstep _ ih =>
    cases hstep with
    | push a =>
      rw [pushedEvents, List.length_cons] at hroom
      have hn : 0 < n := by omega
      have hunread : (g.push n a).unread = g.unread ++ [a] := by
        rw [Lossy.push_unread h.bound hn, if_pos (by omega)]
      have hrest := ih (h.push hn a) (by rw [hunread, List.length_append, List.length_singleton]; omega)
      rw [hunread, List.append_assoc] at hrest
      exact hrest
    | pop =>
      have hroom' : g.pop.unread.length + (pushedEvents es).length ≤ n := by
        rw [Lossy.pop_unread, List.length_tail]
        rw [pushedEvents] at hroom
        omega
      have hrest := ih h.pop hroom'
      rw [Lossy.pop_unread] at hrest
      cases hu : g.unread with
      | nil =>
        rw [hu] at hrest
        exact hrest
      | cons a l =>
        rw [hu] at hrest
        exact congrArg (a :: ·) hrest

/-- The events are those of a queue with at most `n` unread entries: pops return pushed entries in
order, each at most once, and what they skip was the oldest unread entry when it was dropped. -/
def LossyTrace (n : Nat) (es : List (LossyEvent α)) : Prop :=
  ∃ g : Lossy α, Lossy.Steps n .empty es g ∧ g.Sound n ∧ g.pushed = pushedEvents es ∧
    (poppedEvents es).map some = g.read.map (g.pushed[·]?)

theorem Lossy.Steps.trace {n : Nat} (hn : 0 < n) {g : Lossy α} {es : List (LossyEvent α)}
    (hs : Steps n .empty es g) : LossyTrace n es := by
  obtain ⟨ks, hread, hks⟩ := hs.popped
  refine ⟨g, hs, hs.sound hn (Lossy.empty_sound n), ?_, ?_⟩
  · simpa [Lossy.empty] using hs.pushed
  · rw [hks, hread]
    simp [Lossy.empty]

/-- Entries read at increasing places come in their order. -/
theorem sublist_drop_of_read {xs l : List α} {ks : List Nat} (h : l.map some = ks.map (xs[·]?))
    (hks : ks.Pairwise (· < ·)) {b : Nat} (hb : ∀ k ∈ ks, b ≤ k) : l.Sublist (xs.drop b) := by
  induction ks generalizing l b with
  | nil =>
    rw [List.map_nil, List.map_eq_nil_iff] at h
    rw [h]
    exact List.nil_sublist _
  | cons k ks ih =>
    cases l with
    | nil => exact List.nil_sublist _
    | cons a l =>
      obtain ⟨hk, hks⟩ := List.pairwise_cons.mp hks
      obtain ⟨ha, hl⟩ := List.cons.inj h
      have hrest := ih hl hks fun k' hk' => hk k' hk'
      have hat : xs.drop k = a :: xs.drop (k + 1) := by
        obtain ⟨hlt, hget⟩ := List.getElem?_eq_some_iff.mp ha.symm
        rw [← hget]
        exact List.drop_eq_getElem_cons hlt
      have hcons := hrest.cons_cons a
      rw [← hat] at hcons
      exact hcons.trans (List.drop_sublist_drop_left xs (hb k List.mem_cons_self))

theorem LossyTrace.sublist {n : Nat} {es : List (LossyEvent α)} (h : LossyTrace n es) :
    (poppedEvents es).Sublist (pushedEvents es) := by
  obtain ⟨g, -, hsound, hpushed, hread⟩ := h
  rw [hpushed] at hread
  exact sublist_drop_of_read hread hsound.read.1 fun k _ => Nat.zero_le k

/-! ### Machines whose events are those of such a queue -/

/-- A machine whose steps emit events that the queue allows, related state by state, emits an
allowed trace in every run. -/
theorem lossy_run {n : Nat} {step : σ → κ → σ × ρ} {events : ρ → List (LossyEvent α)} {R : σ → Lossy α → Prop}
    (hstep : ∀ s k g, R s g → ∃ g', Lossy.Steps n g (events (step s k).2) g' ∧ R (step s k).1 g')
    {s : σ} {g : Lossy α} (h : R s g) (ks : List κ) :
    ∃ g', Lossy.Steps n g ((run step s ks).2.flatMap events) g' ∧ R (run step s ks).1 g' := by
  induction ks generalizing s g with
  | nil => exact ⟨g, .nil g, h⟩
  | cons k ks ih =>
    obtain ⟨g', hsteps, hR⟩ := hstep s k g h
    obtain ⟨g'', hrest, hR'⟩ := ih hR
    exact ⟨g'', hsteps.append hrest, hR'⟩

/-! ### Rings -/

/-- Counters `r` and `w` modulo `m` over `n` slots hold the unread entries. -/
def LossyRing (n m : Nat) (slots : Nat → α) (r w : Nat) (l : List α) : Prop :=
  ∃ k, RingHolds n slots k l ∧ r = k % m ∧ w = (k + l.length) % m

section Ring
variable {n m r w : Nat} {slots slots' : Nat → α} {l : List α}

theorem LossyRing.nil (n m : Nat) (slots : Nat → α) : LossyRing n m slots 0 0 ([] : List α) :=
  ⟨0, .nil n slots 0, by simp, by simp⟩

/-- The distance of the counters is the number of unread entries. -/
theorem LossyRing.count (h : LossyRing n m slots r w l) (hnm : n < m) : (w + (m - r)) % m = l.length := by
  obtain ⟨k, hring, rfl, rfl⟩ := h
  have hk := Nat.mod_lt k (show 0 < m by omega)
  have hlen := hring.1
  rw [Nat.mod_add_mod]
  have hsum : k + l.length + (m - k % m) = l.length + m * (k / m + 1) := by
    have := Nat.div_add_mod k m
    rw [Nat.mul_add]
    omega
  rw [hsum, Nat.add_mul_mod_self_left]
  exact Nat.mod_eq_of_lt (by omega)

theorem LossyRing.eq_iff (h : LossyRing n m slots r w l) (hnm : n < m) : r = w ↔ l = [] := by
  have hcount := h.count hnm
  obtain ⟨k, hring, rfl, rfl⟩ := h
  have hk := Nat.mod_lt k (show 0 < m by omega)
  constructor
  · intro heq
    rw [← heq, Nat.add_sub_cancel' (Nat.le_of_lt hk), Nat.mod_self] at hcount
    exact List.length_eq_zero_iff.mp hcount.symm
  · rintro rfl
    simp

theorem LossyRing.head {a : α} (h : LossyRing n m slots r w (a :: l)) (hdvd : n ∣ m) : slots (r % n) = a := by
  obtain ⟨k, hring, rfl, -⟩ := h
  rw [Nat.mod_mod_of_dvd _ hdvd]
  exact hring.head

theorem LossyRing.pop {a : α} (h : LossyRing n m slots r w (a :: l)) :
    LossyRing n m slots ((r + 1) % m) w l := by
  obtain ⟨k, hring, rfl, rfl⟩ := h
  refine ⟨k + 1, hring.pop, ?_, ?_⟩
  · rw [Nat.mod_add_mod]
  · rw [List.length_cons, Nat.add_right_comm, Nat.add_assoc k]

/-- A push with room. -/
theorem LossyRing.push (h : LossyRing n m slots r w l) (hdvd : n ∣ m) (hroom : l.length < n) {a : α}
    (hnew : slots' (w % n) = a) (hold : ∀ k < n, k ≠ w % n → slots' k = slots k) :
    LossyRing n m slots' r ((w + 1) % m) (l ++ [a]) := by
  obtain ⟨k, hring, rfl, rfl⟩ := h
  rw [Nat.mod_mod_of_dvd _ hdvd] at hnew hold
  refine ⟨k, hring.push hroom hnew hold, rfl, ?_⟩
  rw [Nat.mod_add_mod, List.length_append, List.length_singleton, Nat.add_assoc]

/-- A push on a full ring goes to the slot of the oldest entry, which is dropped. -/
theorem LossyRing.pushFull (h : LossyRing n m slots r w l) (hn : 0 < n) (hdvd : n ∣ m)
    (hfull : l.length = n) {a : α} (hnew : slots' (w % n) = a)
    (hold : ∀ k < n, k ≠ w % n → slots' k = slots k) :
    LossyRing n m slots' ((r + 1) % m) ((w + 1) % m) (l.tail ++ [a]) := by
  cases l with
  | nil =>
    rw [List.length_nil] at hfull
    omega
  | cons b l =>
    rw [List.length_cons] at hfull
    exact h.pop.push hdvd (by omega) hnew hold

/-- The ring holds what a history leaves unread. -/
structure LossyRep (n m : Nat) (slots : Nat → α) (r w : Nat) (g : Lossy α) : Prop where
  sound : g.Sound n
  ring : LossyRing n m slots r w g.unread

variable {g : Lossy α}

theorem LossyRep.empty (n m : Nat) (slots : Nat → α) : LossyRep n m slots 0 0 (Lossy.empty : Lossy α) :=
  ⟨Lossy.empty_sound n, LossyRing.nil n m slots⟩

theorem LossyRep.length_le (h : LossyRep n m slots r w g) : g.unread.length ≤ n := by
  have := h.sound.room
  rw [Lossy.unread_length]
  omega

theorem LossyRep.push (h : LossyRep n m slots r w g) (hn : 0 < n) (hdvd : n ∣ m) {a : α}
    (hnew : slots' (w % n) = a) (hold : ∀ k < n, k ≠ w % n → slots' k = slots k) :
    LossyRep n m slots' (if g.unread.length < n then r else (r + 1) % m) ((w + 1) % m) (g.push n a) := by
  refine ⟨h.sound.push hn a, ?_⟩
  rw [Lossy.push_unread h.sound.bound hn]
  by_cases hlt : g.unread.length < n
  · rw [if_pos hlt, if_pos hlt]
    exact h.ring.push hdvd hlt hnew hold
  · rw [if_neg hlt, if_neg hlt]
    exact h.ring.pushFull hn hdvd (Nat.le_antisymm h.length_le (Nat.not_lt.mp hlt)) hnew hold

theorem LossyRep.pop (h : LossyRep n m slots r w g) (hdvd : n ∣ m) (hne : g.unread ≠ []) :
    g.unread.head? = some (slots (r % n)) ∧ LossyRep n m slots ((r + 1) % m) w g.pop := by
  have hring := h.ring
  cases hu : g.unread with
  | nil => exact absurd hu hne
  | cons a l =>
    rw [hu] at hring
    refine ⟨by rw [hring.head hdvd, List.head?_cons], h.sound.pop, ?_⟩
    rw [Lossy.pop_unread, hu]
    exact hring.pop

end Ring

end Rf4ce.Refine
