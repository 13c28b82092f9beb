import Rf4ce.Os.TimerHandle
import Rf4ce.Refine.Ledger
import Rf4ce.Refine.Run

/-! The sender of `ir.c` that works through an allocated buffer of intervals by interrupts of a
hardware timer, and frees it from a software timer. -/
namespace Rf4ce.Drv
open Os Refine

inductive IrCb where
  | irRepeatTimerCb | irStopTimerCb
deriving DecidableEq, Repr

/-- `ir_info_t`; a pointer is NULL as `none`. -/
structure IrInfo (β : Type) where
  totalCnt : Nat
  curCnt : Nat
  interval : Option β
  repeatTimer : Option (Fin 12)
  stopTimer : Option (Fin 12)
  sta : Nat

/-- `irInfo`, the cells behind every pointer, whether timer 1 runs with `irTimer1IrqCb`, the
software timers and the buffers that the sender allocated. -/
structure IrSender (β : Type) where
  irInfo : IrInfo β
  mem : Option β → Nat → BitVec 16
  timer1 : Bool
  evTimerList : TimerList 12 (ModuleCb IrCb)
  pool : Ledger β

/-- A call of `MARK` or `SPACE` for the element `idx` of `irInfo.interval`. -/
structure IrEmit where
  idx : Nat
  mark : Bool
  tUs : Nat
deriving DecidableEq, Repr

def irDataLenMax : Nat := 128

section Code
variable {β : Type} [DecidableEq β]

/-- The body that the two senders share: `fill` are the cells that they store, `got` is what
`ev_buf_allocate` returns. -/
def irSend (fill : Nat → BitVec 16) (rawLen : Nat) (got : Option β) (s : IrSender β) : IrSender β :=
  let evTimerList := evUnonTimer s.irInfo.stopTimer (evUnonTimer s.irInfo.repeatTimer s.evTimerList)
  let irInfo := { s.irInfo with repeatTimer := none, stopTimer := none, interval := got }
  let pool := s.pool.takeAny got
  if rawLen > irDataLenMax ∨ got = none then
    { s with irInfo := irInfo, evTimerList := evTimerList, pool := pool }
  else
    { irInfo := { irInfo with totalCnt := rawLen, curCnt := 0, sta := 1 }
      mem := Function.update s.mem got fun i => if i < rawLen then fill i else s.mem got i
      timer1 := true
      evTimerList := evTimerList
      pool := pool }

def irSendSerial (serial : Nat → BitVec 16) (rawLen : BitVec 16) (got : Option β) (s : IrSender β) : IrSender β :=
  irSend serial rawLen.toNat got s

def irSendRaw (raw : Nat → BitVec 8) (rawLen : BitVec 32) (specialIndex specialBase : BitVec 8) (got : Option β)
    (s : IrSender β) : IrSender β :=
  irSend (fun i =>
    if i = specialIndex.toNat then BitVec.ofNat 16 ((raw i).toNat * specialBase.toNat)
    else BitVec.ofNat 16 ((raw i).toNat * 50)) rawLen.toNat got s

/-- `none` is the endless loop of `on_timer` when no slot is free. -/
def irTimer1IrqCb (clock1us now : U32) (s : IrSender β) : Option (IrSender β × Option IrEmit) :=
  let tUs := (s.mem s.irInfo.interval s.irInfo.curCnt).toNat
  let tUs := if tUs > 4 then tUs - 4 else tUs
  if s.irInfo.curCnt = s.irInfo.totalCnt then
    match onTimer clock1us now (.own .irRepeatTimerCb) 50000 s.evTimerList with
    | none => none
    | some (repeatTimer, l) =>
      match onTimer clock1us now (.own .irStopTimerCb) 100000 l with
      | none => none
      | some (stopTimer, l) =>
        some ({ s with
          irInfo := { s.irInfo with repeatTimer := some repeatTimer, stopTimer := some stopTimer }
          timer1 := false
          evTimerList := l }, none)
  else
    some ({ s with irInfo := { s.irInfo with curCnt := s.irInfo.curCnt + 1 } },
      some ⟨s.irInfo.curCnt, s.irInfo.curCnt % 2 = 0, tUs⟩)

def irRepeatTimerCb (s : IrSender β) : IrSender β :=
  { s with
    irInfo := { s.irInfo with interval := none, repeatTimer := none }
    pool := s.pool.giveAny s.irInfo.interval }

def irStopTimerCb (s : IrSender β) : IrSender β :=
  { s with irInfo := { s.irInfo with stopTimer := none, sta := 0 } }

/-- A call into the sender, an interrupt of timer 1, the callback in a slot of `evTimer_list`, or a
step of the other timers. -/
inductive IrCall (β : Type) where
  | sendSerial (serial : Nat → BitVec 16) (rawLen : BitVec 16) (got : Option β)
  | sendRaw (raw : Nat → BitVec 8) (rawLen : BitVec 32) (specialIndex specialBase : BitVec 8) (got : Option β)
  | irq
  | fire (i : Fin 12) (pass : U32)
  | timers (k : OtherCall 12)

/-- The callback in slot `i` of the sender, and what the pass does with the slot afterwards. -/
def irFire (clock1us : U32) (i : Fin 12) (pass : U32) (s : IrSender β) : IrSender β :=
  match (s.evTimerList.slots i).cb with
  | some (.own .irRepeatTimerCb) =>
    { irRepeatTimerCb s with evTimerList := timerDone clock1us pass (-1) i s.evTimerList }
  | some (.own .irStopTimerCb) =>
    { irStopTimerCb s with evTimerList := timerDone clock1us pass (-1) i s.evTimerList }
  | _ => s

def irCall (clock1us now : U32) (s : IrSender β) : IrCall β → Option (IrSender β × Option IrEmit)
  | .sendSerial serial rawLen got => some (irSendSerial serial rawLen got s, none)
  | .sendRaw raw rawLen specialIndex specialBase got => some (irSendRaw raw rawLen specialIndex specialBase got s, none)
  | .irq => irTimer1IrqCb clock1us now s
  | .fire i pass => some (irFire clock1us i pass s, none)
  | .timers k => (otherCall clock1us now s.evTimerList k).map fun l => ({ s with evTimerList := l }, none)

/-- One call at a clock time; the sender is `none` after a call that does not return. -/
def irStep (clock1us : U32) (s : Option (IrSender β)) (k : U32 × IrCall β) : Option (IrSender β) × Option IrEmit :=
  match s.bind fun s => irCall clock1us k.1 s k.2 with
  | none => (none, none)
  | some (s, e) => (some s, e)

end Code

/-! ### The buffer and its timers -/

section Owner
variable {β : Type}

/-- The buffer of the sender is the one in `irInfo.interval`, and its freeing is still to come;
`sta` is set while a transmission or its stop timer goes on. -/
structure IrSender.Owns (s : IrSender β) : Prop where
  pool : s.pool.Holds s.irInfo.interval.toList
  freed : s.irInfo.interval ≠ none → s.timer1 = true ∨ s.evTimerList.Pending (.own .irRepeatTimerCb)
  sta : s.irInfo.sta = 1 ↔ s.timer1 = true ∨ s.evTimerList.Pending (.own .irStopTimerCb)

/-- What a call leaves behind: the buffer is owned, and only an element before `totalCnt` was
emitted. -/
def IrStepOk [DecidableEq β] (clock1us : U32) (s : Option (IrSender β)) (k : U32 × IrCall β) : Prop :=
  (∀ t, (irStep clock1us s k).1 = some t → t.Owns) ∧
    ∀ t e, s = some t → (irStep clock1us s k).2 = some e → e.idx < t.irInfo.totalCnt

/-- The allocator returns a free buffer, the interrupt comes while timer 1 runs, passes call due
timers only, and other modules cancel timers of their own. -/
def IrEnv (clock1us : U32) (s : Option (IrSender β)) (k : U32 × IrCall β) : Prop :=
  ∀ t, s = some t →
    match k.2 with
    | .sendSerial _ _ got | .sendRaw _ _ _ _ got => ∀ b, got = some b → b ∉ t.pool.held
    | .irq => t.timer1 = true
    | .fire i pass => timerDue clock1us pass (t.evTimerList.slots i) = true
    | .timers k => OtherCallEnv t.evTimerList k

/-- A send finds no buffer; a buffer that it is given, it uses, and without one it finds the sender
idle. -/
def IrSender.Free (t : IrSender β) (rawLen : Nat) (got : Option β) : Prop :=
  t.irInfo.interval = none ∧ (got ≠ none → rawLen ≤ irDataLenMax) ∧ (got = none → t.irInfo.sta ≠ 1)

def SendFree (s : Option (IrSender β)) (k : U32 × IrCall β) : Prop :=
  ∀ t, s = some t →
    match k.2 with
    | .sendSerial _ rawLen got => t.Free rawLen.toNat got
    | .sendRaw _ rawLen _ _ got => t.Free rawLen.toNat got
    | _ => True

/-- The handles of `irInfo` lead to the live timers, which no transmission has, and the counter is
in range. -/
structure IrSender.Wired (s : IrSender β) : Prop where
  flags : s.evTimerList.FlagsOk
  repeats : s.evTimerList.Linked s.irInfo.repeatTimer (.own .irRepeatTimerCb)
  stops : s.evTimerList.Linked s.irInfo.stopTimer (.own .irStopTimerCb)
  running : s.timer1 = true → s.irInfo.repeatTimer = none ∧ s.irInfo.stopTimer = none
  count : s.irInfo.curCnt ≤ s.irInfo.totalCnt

/-- Between calls that are `SendFree`. -/
structure IrSender.Inv (s : IrSender β) : Prop where
  wired : s.Wired
  owns : s.Owns
  filled : s.timer1 = true ∨ s.irInfo.repeatTimer ≠ none → s.irInfo.interval ≠ none

/-- Before the first call. -/
def IrSender.Booted (s : IrSender β) : Prop :=
  s.irInfo = ⟨0, 0, none, none, none, 0⟩ ∧ s.timer1 = false ∧ s.pool = Ledger.empty ∧ s.evTimerList.FlagsOk ∧
    ∀ i cb, s.evTimerList.Running i cb → ∃ k, cb = .other k

section Steps
variable {s s' : IrSender β} {clock1us now : U32} {e : Option IrEmit} {l : TimerList 12 (ModuleCb IrCb)}

/-- The conditions on the timers, read off the handles. -/
theorem IrSender.Wired.owns_iff (hw : s.Wired) :
    s.Owns ↔ s.pool.Holds s.irInfo.interval.toList ∧
      (s.irInfo.interval ≠ none → s.timer1 = true ∨ s.irInfo.repeatTimer ≠ none) ∧
      (s.irInfo.sta = 1 ↔ s.timer1 = true ∨ s.irInfo.stopTimer ≠ none) := by
  have hr := hw.repeats.pending
  have hs := hw.stops.pending
  constructor
  · rintro ⟨hp, hf, ht⟩
    rw [hr] at hf
    rw [hs] at ht
    exact ⟨hp, hf, ht⟩
  · rintro ⟨hp, hf, ht⟩
    constructor
    · exact hp
    · rwa [hr]
    · rwa [hs]

/-- A step of the timers that keeps those of the sender. -/
theorem IrSender.Wired.timers (hw : s.Wired) (hf : l.FlagsOk)
    (hr : l.Linked s.irInfo.repeatTimer (.own .irRepeatTimerCb)) (hs : l.Linked s.irInfo.stopTimer (.own .irStopTimerCb)) :
    ({ s with evTimerList := l } : IrSender β).Wired := ⟨hf, hr, hs, hw.running, hw.count⟩

theorem IrSender.Inv.timers (h : s.Inv) (hw : ({ s with evTimerList := l } : IrSender β).Wired) :
    ({ s with evTimerList := l } : IrSender β).Inv := by
  constructor
  · exact hw
  · have hown := h.wired.owns_iff.mp h.owns
    exact hw.owns_iff.mpr hown
  · exact h.filled

theorem IrSender.Wired.cancelled (hw : s.Wired) :
    let l := evUnonTimer s.irInfo.stopTimer (evUnonTimer s.irInfo.repeatTimer s.evTimerList)
    l.FlagsOk ∧ l.Linked none (.own .irRepeatTimerCb) ∧ l.Linked none (.own .irStopTimerCb) := by
  have hr := hw.repeats.unon
  have hs : (evUnonTimer s.irInfo.repeatTimer s.evTimerList).Linked s.irInfo.stopTimer (.own .irStopTimerCb) := by
    apply hw.stops.unon_other
    intro j hj
    exact hw.repeats.not_running (by decide) hj
  constructor
  · exact evUnonTimer_flagsOk (evUnonTimer_flagsOk hw.flags _) _
  · constructor
    · apply hr.unon_other
      intro j _ hrun
      have hnone := (hr j).mp hrun
      cases hnone
    · exact hs.unon

/-- The interrupt ends the transmission or emits one element. -/
theorem irTimer1IrqCb_cases (h : irTimer1IrqCb clock1us now s = some (s', e)) :
    (∃ i j l l', s.irInfo.curCnt = s.irInfo.totalCnt ∧ e = none ∧
      onTimer clock1us now (.own .irRepeatTimerCb) 50000 s.evTimerList = some (i, l) ∧
      onTimer clock1us now (.own .irStopTimerCb) 100000 l = some (j, l') ∧
      s' = { s with
        irInfo := { s.irInfo with repeatTimer := some i, stopTimer := some j }, timer1 := false, evTimerList := l' }) ∨
    (∃ a, s.irInfo.curCnt ≠ s.irInfo.totalCnt ∧ e = some a ∧ a.idx = s.irInfo.curCnt ∧
      s' = { s with irInfo := { s.irInfo with curCnt := s.irInfo.curCnt + 1 } }) := by
  unfold irTimer1IrqCb at h
  dsimp only at h
  by_cases hend : s.irInfo.curCnt = s.irInfo.totalCnt
  · left
    rw [if_pos hend] at h
    cases hon : onTimer clock1us now (.own .irRepeatTimerCb) 50000 s.evTimerList with
    | none =>
      rw [hon] at h
      cases h
    | some r =>
      obtain ⟨i, l⟩ := r
      rw [hon] at h
      dsimp only at h
      cases hon' : onTimer clock1us now (.own .irStopTimerCb) 100000 l with
      | none =>
        rw [hon'] at h
        cases h
      | some r' =>
        obtain ⟨j, l'⟩ := r'
        rw [hon'] at h
        simp only [Option.some.injEq, Prod.mk.injEq] at h
        obtain ⟨rfl, rfl⟩ := h
        exact ⟨i, j, l, l', hend, rfl, rfl, hon', rfl⟩
  · right
    rw [if_neg hend] at h
    simp only [Option.some.injEq, Prod.mk.injEq] at h
    obtain ⟨rfl, rfl⟩ := h
    exact ⟨_, hend, rfl, rfl, rfl⟩

theorem irTimer1IrqCb_inv (h : s.Inv) (hrun : s.timer1 = true) (hcb : irTimer1IrqCb clock1us now s = some (s', e)) :
    s'.Inv := by
  obtain ⟨hp, hf, hsta⟩ := h.wired.owns_iff.mp h.owns
  obtain ⟨hr, hs⟩ := h.wired.running hrun
  have hbuf : s.irInfo.interval ≠ none := h.filled (.inl hrun)
  rcases irTimer1IrqCb_cases hcb with ⟨i, j, l, l', hend, rfl, hon, hon', rfl⟩ | ⟨a, hend, rfl, -, rfl⟩
  · have hrl : s.evTimerList.Linked none (.own .irRepeatTimerCb) := hr ▸ h.wired.repeats
    have hsl : s.evTimerList.Linked none (.own .irStopTimerCb) := hs ▸ h.wired.stops
    have hfl := onTimer_flagsOk h.wired.flags hon
    have hw : ({ s with
        irInfo := { s.irInfo with repeatTimer := some i, stopTimer := some j }, timer1 := false, evTimerList := l' } :
          IrSender β).Wired := by
      constructor
      · exact onTimer_flagsOk hfl hon'
      · exact (hrl.on h.wired.flags hon).on_other hfl (by decide) hon'
      · exact (hsl.on_other h.wired.flags (by decide) hon).on hfl hon'
      · intro hoff
        cases hoff
      · exact h.wired.count
    refine ⟨hw, hw.owns_iff.mpr ⟨hp, ?_, ?_⟩, fun _ => hbuf⟩
    · simp
    · simpa [hrun] using hsta
  · have hcnt := h.wired.count
    have hw : ({ s with irInfo := { s.irInfo with curCnt := s.irInfo.curCnt + 1 } } : IrSender β).Wired :=
      ⟨h.wired.flags, h.wired.repeats, h.wired.stops, h.wired.running, by
        dsimp only
        omega⟩
    exact ⟨hw, hw.owns_iff.mpr ⟨hp, hf, hsta⟩, h.filled⟩

variable [DecidableEq β]

theorem irSend_wired {fill : Nat → BitVec 16} {rawLen : Nat} {got : Option β} (hw : s.Wired) :
    (irSend fill rawLen got s).Wired := by
  obtain ⟨hf, hr, hs⟩ := hw.cancelled
  unfold irSend
  dsimp only
  split_ifs
  · exact ⟨hf, hr, hs, fun _ => ⟨rfl, rfl⟩, hw.count⟩
  · exact ⟨hf, hr, hs, fun _ => ⟨rfl, rfl⟩, Nat.zero_le _⟩

/-- A send into a free sender starts a transmission, or leaves it idle. -/
theorem irSend_inv {fill : Nat → BitVec 16} {rawLen : Nat} {got : Option β} (h : s.Inv)
    (hfree : s.Free rawLen got) : (irSend fill rawLen got s).Inv := by
  have hw : (irSend fill rawLen got s).Wired := irSend_wired h.wired
  obtain ⟨hp, -, hsta⟩ := h.wired.owns_iff.mp h.owns
  obtain ⟨hnull, hlen, hidle⟩ := hfree
  have hoff : ¬(s.timer1 = true ∨ s.irInfo.repeatTimer ≠ none) := fun hon => h.filled hon hnull
  rw [not_or] at hoff
  rw [hnull] at hp
  cases got with
  | none =>
    have hstop := hidle rfl
    refine ⟨hw, hw.owns_iff.mpr ?_, ?_⟩
    · simpa [irSend, Ledger.takeAny, hstop, hoff.1] using hp
    · simp [irSend, hoff.1]
  | some b =>
    have hle : ¬rawLen > irDataLenMax := Nat.not_lt.mpr (hlen (Option.some_ne_none b))
    refine ⟨hw, hw.owns_iff.mpr ?_, ?_⟩
    · simpa [irSend, Ledger.takeAny, hle] using hp.take
    · simp [irSend, hle]

/-- A send that is not free loses the buffer that it finds or the one that it is given, or leaves
`sta` set for good. -/
theorem irSend_lost {fill : Nat → BitVec 16} {rawLen : Nat} {got : Option β} (h : s.Inv)
    (hown : (irSend fill rawLen got s).Owns) : s.Free rawLen got := by
  have hw : (irSend fill rawLen got s).Wired := irSend_wired h.wired
  obtain ⟨hp', hf', hsta'⟩ := hw.owns_iff.mp hown
  obtain ⟨hp, -, hsta⟩ := h.wired.owns_iff.mp h.owns
  have hnull : s.irInfo.interval = none := by
    have hlen := hp'.length
    have hheld := hp.length
    cases got with
    | none =>
      simp only [irSend, Ledger.takeAny, or_true, if_true, Option.toList_none, List.length_nil] at hlen
      rw [hlen] at hheld
      cases hi : s.irInfo.interval with
      | none => rfl
      | some b => simp [hi] at hheld
    | some b =>
      have hone : (s.pool.take b).held.length = 1 := by
        unfold irSend at hlen
        dsimp only at hlen
        split_ifs at hlen <;> exact hlen
      cases hi : s.irInfo.interval with
      | none => rfl
      | some c => simp [hi, Ledger.take, hheld] at hone
  have hoff : ¬(s.timer1 = true ∨ s.irInfo.repeatTimer ≠ none) := fun hon => h.filled hon hnull
  rw [not_or] at hoff
  refine ⟨hnull, ?_, ?_⟩
  · intro hgot
    by_contra hlen
    have hgt : rawLen > irDataLenMax := Nat.lt_of_not_le hlen
    simp [irSend, hgt, hgot, hoff.1] at hf'
  · rintro rfl
    intro hset
    simp [irSend, hset, hoff.1] at hsta'

/-- A due timer of the sender is the one that its handle leads to. -/
theorem irFire_inv {i : Fin 12} {pass : U32} (h : s.Inv)
    (hdue : timerDue clock1us pass (s.evTimerList.slots i) = true) : (irFire clock1us i pass s).Inv := by
  obtain ⟨hp, hf, hsta⟩ := h.wired.owns_iff.mp h.owns
  have hvalid := timerDue_valid hdue
  have hfl (r : Int) : (timerDone clock1us pass r i s.evTimerList).FlagsOk := timerDone_flagsOk h.wired.flags
  unfold irFire
  split
  · rename_i hcb
    have hrun : s.evTimerList.Running i (.own .irRepeatTimerCb) := ⟨hvalid, hcb⟩
    have hhandle := (h.wired.repeats i).mp hrun
    have hoff : s.timer1 ≠ true := by
      intro hon
      have hnone := (h.wired.running hon).1
      rw [hnone] at hhandle
      cases hhandle
    have hw : ({ irRepeatTimerCb s with evTimerList := timerDone clock1us pass (-1) i s.evTimerList } :
        IrSender β).Wired := by
      constructor
      · exact hfl (-1)
      · exact h.wired.repeats.done hrun (by decide)
      · apply h.wired.stops.done_other
        intro hrun'
        cases hrun.cb_eq hrun'
      · exact fun hon => absurd hon hoff
      · exact h.wired.count
    refine ⟨hw, hw.owns_iff.mpr ⟨?_, fun hb => absurd rfl hb, hsta⟩, ?_⟩
    · cases hi : s.irInfo.interval with
      | none => simpa [irRepeatTimerCb, hi, Ledger.giveAny] using hp
      | some b =>
        rw [hi] at hp
        simpa [irRepeatTimerCb, hi, Ledger.giveAny] using hp.give
    · simp [irRepeatTimerCb, hoff]
  · rename_i hcb
    have hrun : s.evTimerList.Running i (.own .irStopTimerCb) := ⟨hvalid, hcb⟩
    have hhandle := (h.wired.stops i).mp hrun
    have hoff : s.timer1 ≠ true := by
      intro hon
      have hnone := (h.wired.running hon).2
      rw [hnone] at hhandle
      cases hhandle
    have hw : ({ irStopTimerCb s with evTimerList := timerDone clock1us pass (-1) i s.evTimerList } :
        IrSender β).Wired := by
      constructor
      · exact hfl (-1)
      · apply h.wired.repeats.done_other
        intro hrun'
        cases hrun.cb_eq hrun'
      · exact h.wired.stops.done hrun (by decide)
      · exact fun hon => absurd hon hoff
      · exact h.wired.count
    refine ⟨hw, hw.owns_iff.mpr ⟨hp, hf, ?_⟩, h.filled⟩
    simp [irStopTimerCb, hoff]
  · exact h

/-- The buffer is in order wherever the sender still answers. -/
def IrInv (s : Option (IrSender β)) : Prop := ∀ t, s = some t → t.Inv

omit [DecidableEq β] in
theorem IrSender.Booted.inv (h : s.Booted) : s.Inv := by
  obtain ⟨hinfo, htimer, hpool, hflags, hothers⟩ := h
  have hnone (cb : IrCb) : s.evTimerList.Linked none (.own cb) := by
    intro i
    simp only [reduceCtorEq, iff_false]
    intro hrun
    obtain ⟨k, hk⟩ := hothers i (.own cb) hrun
    cases hk
  have hw : s.Wired := by
    constructor
    · exact hflags
    · rw [hinfo]
      exact hnone .irRepeatTimerCb
    · rw [hinfo]
      exact hnone .irStopTimerCb
    · simp [htimer]
    · simp [hinfo]
  refine ⟨hw, hw.owns_iff.mpr ?_, ?_⟩
  · simpa [hinfo, htimer, hpool] using Ledger.holds_empty
  · simp [hinfo, htimer]

theorem irCall_inv {k : IrCall β} (h : s.Inv) (henv : IrEnv clock1us (some s) (now, k))
    (hfree : SendFree (some s) (now, k)) (hcall : irCall clock1us now s k = some (s', e)) : s'.Inv := by
  have henv := henv s rfl
  have hfree := hfree s rfl
  cases k with
  | sendSerial serial rawLen got =>
    cases hcall
    exact irSend_inv h hfree
  | sendRaw raw rawLen specialIndex specialBase got =>
    cases hcall
    exact irSend_inv h hfree
  | irq => exact irTimer1IrqCb_inv h henv hcall
  | fire i pass =>
    cases hcall
    exact irFire_inv h henv
  | timers k =>
    obtain ⟨l, hl, hr⟩ := Option.map_eq_some_iff.mp hcall
    cases hr
    obtain ⟨hf, hlinked⟩ := otherCall_linked h.wired.flags henv hl
    apply h.timers
    apply h.wired.timers hf
    · exact hlinked _ _ h.wired.repeats
    · exact hlinked _ _ h.wired.stops

theorem irCall_emit {k : IrCall β} {a : IrEmit} (h : s.Inv) (hcall : irCall clock1us now s k = some (s', some a)) :
    a.idx < s.irInfo.totalCnt := by
  cases k with
  | irq =>
    rcases irTimer1IrqCb_cases hcall with ⟨i, j, l, l', -, he, -⟩ | ⟨b, hend, he, hidx, -⟩
    · cases he
    · obtain rfl := Option.some.inj he
      have hcnt := h.wired.count
      rw [hidx]
      omega
  | timers k =>
    obtain ⟨r, -, hr⟩ := Option.map_eq_some_iff.mp hcall
    cases hr
  | _ => cases hcall

/-- Only a send can lose the buffer. -/
theorem sendFree_of_owns {k : IrCall β} (h : s.Inv)
    (hown : ∀ s' e, irCall clock1us now s k = some (s', e) → s'.Owns) : SendFree (some s) (now, k) := by
  rintro t ⟨⟩
  cases k with
  | sendSerial serial rawLen got => exact irSend_lost h (hown _ _ rfl)
  | sendRaw raw rawLen specialIndex specialBase got => exact irSend_lost h (hown _ _ rfl)
  | _ => trivial

theorem irStep_some {k : U32 × IrCall β} {t : IrSender β} :
    (irStep clock1us (some s) k).1 = some t ↔ ∃ e, irCall clock1us k.1 s k.2 = some (t, e) := by
  unfold irStep
  rw [Option.bind_some]
  cases irCall clock1us k.1 s k.2 with
  | none => simp
  | some r => simp [Prod.ext_iff]

theorem irStep_ok_iff {s : Option (IrSender β)} {k : U32 × IrCall β} (h : IrInv s) (henv : IrEnv clock1us s k) :
    IrStepOk clock1us s k ↔ SendFree s k := by
  cases s with
  | none => simp [IrStepOk, SendFree, irStep]
  | some s =>
    have hinv := h s rfl
    constructor
    · rintro ⟨hown, -⟩
      apply sendFree_of_owns hinv
      intro s' e hcall
      exact hown s' (irStep_some.mpr ⟨e, hcall⟩)
    · intro hfree
      constructor
      · intro t ht
        obtain ⟨e, hcall⟩ := irStep_some.mp ht
        exact (irCall_inv hinv henv hfree hcall).owns
      · rintro t a ⟨⟩ ha
        unfold irStep at ha
        rw [Option.bind_some] at ha
        cases hcall : irCall clock1us k.1 s k.2 with
        | none =>
          rw [hcall] at ha
          cases ha
        | some r =>
          obtain ⟨s', e⟩ := r
          rw [hcall] at ha
          cases ha
          exact irCall_emit hinv hcall

theorem irStep_inv {s : Option (IrSender β)} {k : U32 × IrCall β} (h : IrInv s) (henv : IrEnv clock1us s k)
    (hfree : SendFree s k) : IrInv (irStep clock1us s k).1 := by
  intro t ht
  cases s with
  | none => cases ht
  | some s =>
    obtain ⟨e, hcall⟩ := irStep_some.mp ht
    exact irCall_inv (h s rfl) henv hfree hcall

end Steps

/-- The buffer of the sender is freed exactly once, before it is replaced, and `sta` follows the
transmission, as long as every send finds a free sender and fits. -/
theorem irSender_owns_iff [DecidableEq β] {clock1us : U32} {s : IrSender β} {ks : List (U32 × IrCall β)}
    (hboot : s.Booted) (henv : Legal (irStep clock1us) (IrEnv clock1us) (some s) ks) :
    Legal (irStep clock1us) (IrStepOk clock1us) (some s) ks ↔ Legal (irStep clock1us) SendFree (some s) ks := by
  have hinv : IrInv (some s) := by
    rintro t ⟨⟩
    exact hboot.inv
  apply legal_iff _ _ hinv henv
  · exact fun s k h he => irStep_ok_iff h he
  · exact fun s k h he hok => irStep_inv h he ((irStep_ok_iff h he).mp hok)

end Owner

def irBoot : IrSender Nat where
  irInfo := ⟨0, 0, none, none, none, 0⟩
  mem := fun _ _ => 0
  timer1 := false
  evTimerList := ⟨fun _ => ⟨none, 0, 0, 0, 0⟩, 0⟩
  pool := Ledger.empty

theorem irBoot_booted : irBoot.Booted := by
  refine ⟨rfl, rfl, rfl, fun _ => .inl ⟨rfl, rfl⟩, ?_⟩
  rintro i cb ⟨hv, -⟩
  cases hv

/-- Two transmissions, the second one after the buffer of the first is freed but before its stop
timer has run. -/
def irTwoSends : List (U32 × IrCall Nat) :=
  [(0, .sendRaw (fun _ => 11) 1 0xff 0 (some 3)), (16000, .irq), (32000, .irq), (832000, .fire 0 832000),
    (900000, .sendSerial (fun _ => 560) 1 (some 3)), (916000, .irq)]

theorem irSender_owns_two : Legal (irStep 16) (IrStepOk 16) (some irBoot) irTwoSends := by
  have henv : Legal (irStep 16) (IrEnv 16) (some irBoot) irTwoSends := by
    refine ⟨?_, ?_, ?_, ?_, ?_, ?_, trivial⟩
    all_goals
      rintro t ht
      cases ht
    · intro b _ hb
      cases hb
    · rfl
    · rfl
    · decide +kernel
    · intro b _ hb
      cases hb
    · rfl
  have hfree : Legal (irStep 16) SendFree (some irBoot) irTwoSends := by
    refine ⟨?_, ?_, ?_, ?_, ?_, ?_, trivial⟩
    all_goals
      rintro t ht
      cases ht
    · exact ⟨rfl, by decide, by decide⟩
    · trivial
    · trivial
    · trivial
    · exact ⟨rfl, by decide, by decide⟩
    · trivial
  exact (irSender_owns_iff irBoot_booted henv).mpr hfree

/-- A pattern of 129 intervals: its buffer is never freed. -/
def irLongSend : List (U32 × IrCall Nat) := [(0, .sendSerial (fun _ => 560) 129 (some 3))]

theorem irSender_leaks :
    Legal (irStep 16) (IrEnv 16) (some irBoot) irLongSend ∧ ¬ Legal (irStep 16) (IrStepOk 16) (some irBoot) irLongSend := by
  constructor
  · refine ⟨?_, trivial⟩
    rintro t ht b _ hb
    cases ht
    cases hb
  · rintro ⟨⟨hown, -⟩, -⟩
    have hfree := irSend_lost irBoot_booted.inv (hown _ rfl)
    have hlen := hfree.2.1 (by simp)
    exact absurd hlen (by decide)

end Rf4ce.Drv
