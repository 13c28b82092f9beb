import Rf4ce.App.KeyRepeat
import Rf4ce.Refine.Ledger
import Rf4ce.Refine.Run

/-! The life cycle of a quickset transmission in `qsIR_Tx.c` with `IR_DMA_FIFO_EN`: a database is
copied into an allocated buffer, and one DMA transfer after the other sends its press, repeat and
release frames. -/
namespace Rf4ce.App
open Refine

/-- The fields of `zrcIRDataHead` that decide which frames are sent. -/
structure ZrcIrDataHead where
  codeLength : BitVec 8
  conFlag : BitVec 16
  numPress : BitVec 8
  numRepeat : BitVec 8
  numRelease : BitVec 8
  numToggle : BitVec 8
  numToggleSequ : BitVec 8
deriving DecidableEq, Repr

/-- The bits `IRSTART`, `IRREPEAT` and `IRRELEASE` of `ws`. -/
structure IrPhases where
  start : Bool
  repeats : Bool
  release : Bool
deriving DecidableEq, Repr

/-- The variables of `qsIR_Tx.c`, what `app_isSendingIR` reads (`app_getState()`, `irInfo.sta`), the
register `Toggle_Reg`, whether a DMA transfer runs whose interrupt is still to come, and the buffers
that `zrcIrInit` allocated. -/
structure QsIr (β : Type) where
  ws : IrPhases
  zrcMode : BitVec 8
  zrcRepeat : Int
  zrcIrState : Nat
  quicksetIrCodeData : Option β
  appState : Nat
  irSta : Nat
  toggle : BitVec 8
  dma : Bool
  pool : Ledger β
deriving DecidableEq, Repr

def largeBuffer : Nat := 210

inductive QsSts where
  | success | invalidTask
deriving DecidableEq, Repr

/-- At least one frame is still to be sent. -/
def IrPhases.any (ws : IrPhases) : Bool := ws.start || ws.repeats || ws.release

section Code
variable {β : Type} [DecidableEq β]

def appIsSendingIr (s : QsIr β) : Bool := s.appState = appSendingIrState || s.irSta ≠ 0

/-- `zrcRepeat` from `conFlag`: always, a count, or what it was. -/
def initRepeat (conFlag : BitVec 16) (zrcRepeat : Int) : Int :=
  if conFlag &&& 1 ≠ 0 then -1
  else if conFlag &&& 0xf00 ≠ 0 then ((conFlag &&& 0xf00) >>> 8).toNat
  else zrcRepeat

def framesOf (db : ZrcIrDataHead) : IrPhases := ⟨db.numPress ≠ 0, db.numRepeat ≠ 0, db.numRelease ≠ 0⟩

def nextToggle (db : ZrcIrDataHead) (toggle : BitVec 8) : BitVec 8 :=
  if db.numRepeat ≠ 0 ∧ db.numToggle ≠ 0 then
    if toggle + 1 > db.numToggleSequ then 0 else toggle + 1
  else toggle

/-- The rest of `zrcIrInit` once the database is copied. -/
def zrcIrStart (db : ZrcIrDataHead) (s : QsIr β) : QsIr β :=
  let s := { s with ws := framesOf db, toggle := nextToggle db s.toggle }
  let s :=
    if s.ws.any then
      { s with
        zrcIrState := 1
        appState := appSendingIrState
        zrcRepeat := if s.zrcMode = 0 then s.zrcRepeat else s.zrcMode.toInt
        zrcMode := 0 }
    else { s with zrcIrState := 0 }
  if s.ws.start then { s with ws := { s.ws with start := false }, dma := true }
  else if s.ws.repeats then
    { s with dma := true, zrcRepeat := if s.zrcRepeat > 0 then s.zrcRepeat - 1 else s.zrcRepeat }
  else if s.ws.release then { s with ws := { s.ws with release := false }, dma := true }
  else s

/-- `got` is what `ev_buf_allocate` returns. -/
def zrcIrInit (db : ZrcIrDataHead) (got : Option β) (s : QsIr β) : QsIr β × QsSts :=
  if appIsSendingIr s then (s, .invalidTask)
  else
    let s := { s with
      ws := ⟨false, false, false⟩
      zrcRepeat := initRepeat db.conFlag s.zrcRepeat
      quicksetIrCodeData := got
      pool := s.pool.takeAny got }
    if got ≠ none ∧ db.codeLength ≠ 0 then
      if 2 + db.codeLength.toNat ≤ largeBuffer then (zrcIrStart db s, .success)
      else (s, .invalidTask)
    else (s, .invalidTask)

def zrcStop (s : QsIr β) : QsIr β :=
  if s.zrcRepeat > 0 then s else { s with ws := { s.ws with repeats := false } }

/-- The transfer of the interrupt is over when the handler runs. -/
def qsIrqCallBack (s : QsIr β) : QsIr β :=
  let s := { s with dma := false }
  if s.ws.any = false then { s with zrcIrState := 0, pool := s.pool.giveAny s.quicksetIrCodeData }
  else if s.ws.repeats then
    if s.zrcRepeat ≠ 0 then
      if s.zrcRepeat > 0 then
        { s with
          dma := true
          zrcRepeat := s.zrcRepeat - 1
          ws := { s.ws with repeats := s.zrcRepeat - 1 ≠ 0 } }
      else { s with dma := true }
    else { s with ws := { s.ws with repeats := false } }
  else if s.ws.release then { s with dma := true, ws := { s.ws with release := false } }
  else s

/-- Besides the three entry points, the rest of the application sets its state, `irInfo.sta` and
`zrcMode`. -/
inductive QsCall (β : Type) where
  | init (db : ZrcIrDataHead) (got : Option β)
  | dmaDone
  | stop
  | app (state irSta : Nat) (mode : BitVec 8)
deriving DecidableEq, Repr

def qsStep (s : QsIr β) : QsCall β → QsIr β × QsSts
  | .init db got => zrcIrInit db got s
  | .dmaDone => (qsIrqCallBack s, .success)
  | .stop => (zrcStop s, .success)
  | .app state irSta mode => ({ s with appState := state, irSta := irSta, zrcMode := mode }, .success)

end Code

/-! ### The buffer and the transfers -/

section Cycle
variable {β : Type}

/-- A sender in state 1 waits for an interrupt, and the only buffer that is held is the one of its
transmission. -/
structure QsIr.Cycle (s : QsIr β) : Prop where
  awaits : s.zrcIrState = 1 → s.dma = true
  pool : s.pool.Holds (if s.zrcIrState = 1 then s.quicksetIrCodeData.toList else [])

/-- Between calls that are `QsGood`. -/
structure QsIr.Inv (s : QsIr β) : Prop extends s.Cycle where
  runs : s.dma = true → s.zrcIrState = 1
  copied : s.zrcIrState = 1 → s.quicksetIrCodeData ≠ none
  started : s.ws.start = false

/-- No transmission goes on and no buffer is held. -/
def QsIr.Idle (s : QsIr β) : Prop :=
  s.zrcIrState = 0 ∧ s.ws = ⟨false, false, false⟩ ∧ s.dma = false ∧ s.pool = Ledger.empty

theorem QsIr.Idle.inv {s : QsIr β} (h : s.Idle) : s.Inv := by
  obtain ⟨hstate, hws, hdma, hpool⟩ := h
  refine ⟨⟨?_, ?_⟩, ?_, ?_, ?_⟩
  · simp [hstate]
  · simpa [hstate, hpool] using Ledger.holds_empty
  · simp [hdma]
  · simp [hstate]
  · simp [hws]

variable [DecidableEq β]

def QsStepOk (s : QsIr β) (k : QsCall β) : Prop := (qsStep s k).1.Cycle

/-- The allocator returns a free buffer, and the interrupt ends a transfer. -/
def QsEnv (s : QsIr β) : QsCall β → Prop
  | .init _ got => ∀ b, got = some b → b ∉ s.pool.held
  | .dmaDone => s.dma = true
  | _ => True

/-- The database is copied into the buffer. -/
def ZrcIrDataHead.Fits (db : ZrcIrDataHead) : Prop := db.codeLength ≠ 0 ∧ 2 + db.codeLength.toNat ≤ largeBuffer

/-- A database is accepted with no transmission going on, and if there is a buffer for it then it
fits and has a frame; an interrupt that finds `IRREPEAT` finds a count too. -/
def QsGood (s : QsIr β) : QsCall β → Prop
  | .init db got => appIsSendingIr s = false →
      s.zrcIrState ≠ 1 ∧ (got ≠ none → db.Fits ∧ (framesOf db).any = true)
  | .dmaDone => s.ws.repeats = true → s.zrcRepeat ≠ 0
  | _ => True

section Steps
variable {s : QsIr β} {db : ZrcIrDataHead} {got : Option β}

omit [DecidableEq β]

/-- The first frame is on the air. -/
theorem zrcIrStart_frames (hany : (framesOf db).any = true) :
    (zrcIrStart db s).zrcIrState = 1 ∧ (zrcIrStart db s).dma = true ∧ (zrcIrStart db s).ws.start = false := by
  unfold zrcIrStart
  generalize framesOf db = ws at hany
  obtain ⟨start, repeats, release⟩ := ws
  cases start with
  | true => simp [IrPhases.any]
  | false =>
    cases repeats with
    | true => simp [IrPhases.any]
    | false =>
      cases release with
      | true => simp [IrPhases.any]
      | false => simp [IrPhases.any] at hany

theorem zrcIrStart_empty (hany : (framesOf db).any = false) : (zrcIrStart db s).zrcIrState = 0 := by
  unfold zrcIrStart
  generalize framesOf db = ws at hany
  obtain ⟨start, repeats, release⟩ := ws
  simp [IrPhases.any] at hany
  simp [IrPhases.any, hany]

theorem zrcIrStart_buffer : (zrcIrStart db s).quicksetIrCodeData = s.quicksetIrCodeData ∧
    (zrcIrStart db s).pool = s.pool := by
  unfold zrcIrStart
  dsimp only
  split_ifs <;> exact ⟨rfl, rfl⟩

/-- The buffer of the call replaces the one before. -/
theorem zrcIrInit_buffer (hfree : appIsSendingIr s = false) :
    (zrcIrInit db got s).1.quicksetIrCodeData = got ∧ (zrcIrInit db got s).1.pool = s.pool.takeAny got := by
  unfold zrcIrInit
  rw [hfree]
  simp only [Bool.false_eq_true, if_false]
  split_ifs
  · exact zrcIrStart_buffer
  · exact ⟨rfl, rfl⟩
  · exact ⟨rfl, rfl⟩

theorem zrcIrInit_refused (hfree : appIsSendingIr s = false) (h : ¬(got ≠ none ∧ db.Fits)) :
    (zrcIrInit db got s).1.zrcIrState = s.zrcIrState ∧ (zrcIrInit db got s).1.dma = s.dma ∧
      (zrcIrInit db got s).1.ws.start = false := by
  unfold zrcIrInit
  rw [hfree]
  simp only [Bool.false_eq_true, if_false]
  split_ifs with hgot hlen
  · exact absurd ⟨hgot.1, hgot.2, hlen⟩ h
  · exact ⟨rfl, rfl, rfl⟩
  · exact ⟨rfl, rfl, rfl⟩

theorem zrcIrInit_started (hfree : appIsSendingIr s = false) (hgot : got ≠ none) (hfit : db.Fits) :
    ∃ t : QsIr β, (zrcIrInit db got s).1 = zrcIrStart db t := by
  unfold zrcIrInit
  rw [hfree]
  simp only [Bool.false_eq_true, if_false]
  rw [if_pos ⟨hgot, hfit.1⟩, if_pos hfit.2]
  exact ⟨_, rfl⟩

theorem zrcIrInit_inv (h : s.Inv) (hgood : QsGood s (.init db got)) : (zrcIrInit db got s).1.Inv := by
  by_cases hfree : appIsSendingIr s = false
  · obtain ⟨hidle, hbuf⟩ := hgood hfree
    obtain ⟨hq, hpool⟩ := @zrcIrInit_buffer _ s db got hfree
    have hheld := h.pool
    rw [if_neg hidle] at hheld
    by_cases hgot : got = none
    · obtain ⟨hstate, hdma, hstart⟩ := @zrcIrInit_refused _ s db got hfree fun h => h.1 hgot
      have hoff : (zrcIrInit db got s).1.zrcIrState ≠ 1 := hstate ▸ hidle
      refine ⟨⟨fun hon => absurd hon hoff, ?_⟩, ?_, fun hon => absurd hon hoff, hstart⟩
      · rw [if_neg hoff, hpool, hgot]
        exact hheld
      · rw [hdma, hstate]
        exact h.runs
    · obtain ⟨hfit, hany⟩ := hbuf hgot
      obtain ⟨t, ht⟩ := zrcIrInit_started hfree hgot hfit
      obtain ⟨hstate, hdma, hstart⟩ := zrcIrStart_frames (s := t) hany
      rw [← ht] at hstate hdma hstart
      obtain ⟨b, rfl⟩ := Option.ne_none_iff_exists'.mp hgot
      refine ⟨⟨fun _ => hdma, ?_⟩, fun _ => hstate, fun _ => ?_, hstart⟩
      · rw [if_pos hstate, hpool, hq]
        exact hheld.take
      · rw [hq]
        exact hgot
  · rw [Bool.not_eq_false] at hfree
    simpa [zrcIrInit, hfree] using h

/-- An accepted database that is not good leaves a buffer behind that no transmission frees. -/
theorem zrcIrInit_lost (h : s.Inv) (hc : (zrcIrInit db got s).1.Cycle) : QsGood s (.init db got) := by
  intro hfree
  obtain ⟨hq, hpool⟩ := @zrcIrInit_buffer _ s db got hfree
  have hlen := hc.pool.length
  have hheld := h.pool.length
  rw [hpool] at hlen
  have hstate : s.zrcIrState ≠ 1 := by
    intro hon
    obtain ⟨b, hb⟩ := Option.ne_none_iff_exists'.mp (h.copied hon)
    rw [if_pos hon, hb] at hheld
    cases got with
    | none =>
      rw [hq] at hlen
      simp [Ledger.takeAny, hheld] at hlen
    | some c =>
      rw [hq] at hlen
      split_ifs at hlen <;> simp [Ledger.takeAny, Ledger.take, hheld] at hlen
  refine ⟨hstate, fun hgot => ?_⟩
  obtain ⟨c, rfl⟩ := Option.ne_none_iff_exists'.mp hgot
  have hsent : (zrcIrInit db (some c) s).1.zrcIrState = 1 := by
    by_contra hoff
    rw [if_neg hoff] at hlen
    simp [Ledger.takeAny, Ledger.take] at hlen
  have hfit : db.Fits := by
    by_contra hnot
    have hsame := (@zrcIrInit_refused _ s db (some c) hfree fun h => hnot h.2).1
    exact hstate (hsame ▸ hsent)
  refine ⟨hfit, ?_⟩
  by_contra hany
  obtain ⟨t, ht⟩ := zrcIrInit_started hfree hgot hfit
  have hzero := zrcIrStart_empty (s := t) (Bool.eq_false_iff.mpr hany)
  rw [← ht, hsent] at hzero
  cases hzero

variable [DecidableEq β]

/-- The transmission ends and frees its buffer, or the next frame is on the air. -/
theorem qsIrqCallBack_inv (h : s.Inv) (hdone : s.dma = true) (hgood : s.ws.repeats = true → s.zrcRepeat ≠ 0) :
    (qsIrqCallBack s).Inv := by
  have hon := h.runs hdone
  have hheld := h.pool
  rw [if_pos hon] at hheld
  unfold qsIrqCallBack
  dsimp only
  split_ifs with hany hrep hcnt hpos hrel
  · refine ⟨⟨by simp, ?_⟩, by simp, by simp, h.started⟩
    obtain ⟨b, hb⟩ := Option.ne_none_iff_exists'.mp (h.copied hon)
    rw [hb] at hheld
    simpa [hb, Ledger.giveAny] using hheld.give
  · exact ⟨⟨fun _ => rfl, h.pool⟩, fun _ => hon, h.copied, h.started⟩
  · exact ⟨⟨fun _ => rfl, h.pool⟩, fun _ => hon, h.copied, h.started⟩
  · rw [not_not] at hcnt
    exact absurd hcnt (hgood hrep)
  · exact ⟨⟨fun _ => rfl, h.pool⟩, fun _ => hon, h.copied, h.started⟩
  · simp [IrPhases.any, h.started, hrep, hrel] at hany

/-- Without a count the repeat phase ends with no transfer. -/
theorem qsIrqCallBack_stuck (h : s.Inv) (hdone : s.dma = true) (hc : (qsIrqCallBack s).Cycle)
    (hrep : s.ws.repeats = true) : s.zrcRepeat ≠ 0 := by
  intro hzero
  have hstuck : qsIrqCallBack s = { s with dma := false, ws := { s.ws with repeats := false } } := by
    simp [qsIrqCallBack, IrPhases.any, hrep, hzero]
  rw [hstuck] at hc
  have hnone := hc.awaits (h.runs hdone)
  cases hnone

theorem qsStep_inv {k : QsCall β} (h : s.Inv) (henv : QsEnv s k) (hgood : QsGood s k) : (qsStep s k).1.Inv := by
  cases k with
  | init db got => exact zrcIrInit_inv h hgood
  | dmaDone => exact qsIrqCallBack_inv h henv hgood
  | stop =>
    unfold qsStep zrcStop
    dsimp only
    split_ifs
    · exact h
    · exact ⟨⟨h.awaits, h.pool⟩, h.runs, h.copied, h.started⟩
  | app state irSta mode => exact ⟨⟨h.awaits, h.pool⟩, h.runs, h.copied, h.started⟩

theorem qsStep_ok_iff {k : QsCall β} (h : s.Inv) (henv : QsEnv s k) : QsStepOk s k ↔ QsGood s k := by
  constructor
  · intro hc
    cases k with
    | init db got => exact zrcIrInit_lost h hc
    | dmaDone => exact qsIrqCallBack_stuck h henv hc
    | stop => trivial
    | app state irSta mode => trivial
  · exact fun hgood => (qsStep_inv h henv hgood).toCycle

end Steps

/-- A quickset sender in state 1 waits for an interrupt, and every buffer is freed exactly once and
before the next one replaces it, as long as every call is good. -/
theorem qsIr_cycle_iff {s : QsIr β} {ks : List (QsCall β)} (hidle : s.Idle) (henv : Legal qsStep QsEnv s ks) :
    Legal qsStep QsStepOk s ks ↔ Legal qsStep QsGood s ks := by
  apply legal_iff _ _ hidle.inv henv
  · exact fun s k h he => qsStep_ok_iff h he
  · exact fun s k h he hok => qsStep_inv h he ((qsStep_ok_iff h he).mp hok)

end Cycle

/-- The sender at power-up. -/
def qsBoot : QsIr Nat where
  ws := ⟨false, false, false⟩
  zrcMode := 0
  zrcRepeat := 0
  zrcIrState := 0
  quicksetIrCodeData := none
  appState := 0
  irSta := 0
  toggle := 0
  dma := false
  pool := Ledger.empty

/-- The heads of the two databases of the source. -/
def volumnUp : ZrcIrDataHead := ⟨0x47, 0x0103, 0x22, 0x04, 0, 0, 0⟩
def volumnDown : ZrcIrDataHead := ⟨0x20, 0x0101, 0, 0x0c, 0, 2, 3⟩

/-- Volume up until the key is released, then volume down. -/
def qsTwoKeys : List (QsCall Nat) :=
  [.init volumnUp (some 3), .dmaDone, .dmaDone, .stop, .dmaDone, .app 0 0 0, .init volumnDown (some 3), .dmaDone]

theorem qsIr_cycle_twoKeys : Legal qsStep QsStepOk qsBoot qsTwoKeys := by
  have henv : Legal qsStep QsEnv qsBoot qsTwoKeys := by
    refine ⟨?_, rfl, rfl, trivial, rfl, trivial, ?_, rfl, trivial⟩
    · intro b _ hb
      cases hb
    · intro b _ hb
      cases hb
  have hgood : Legal qsStep QsGood qsBoot qsTwoKeys := by
    refine ⟨?_, ?_, ?_, trivial, ?_, trivial, ?_, ?_, trivial⟩
    · exact fun _ => ⟨by decide, fun _ => ⟨⟨by decide, by decide⟩, rfl⟩⟩
    · exact fun _ => by decide
    · exact fun _ => by decide
    · exact fun _ => by decide
    · exact fun _ => ⟨by decide, fun _ => ⟨⟨by decide, by decide⟩, rfl⟩⟩
    · exact fun _ => by decide
  exact (qsIr_cycle_iff ⟨rfl, rfl, rfl, rfl⟩ henv).mpr hgood

/-- A press and a repeat frame without a count in `conFlag`. -/
def uncounted : List (QsCall Nat) := [.init ⟨12, 0, 1, 1, 0, 0, 0⟩ (some 3), .dmaDone]

/-- After the press frame `zrcIrState` is 1 and no transfer runs. -/
theorem qsIr_stuck : Legal qsStep QsEnv qsBoot uncounted ∧ ¬ Legal qsStep QsStepOk qsBoot uncounted := by
  constructor
  · refine ⟨?_, rfl, trivial⟩
    intro b _ hb
    cases hb
  · rintro ⟨-, hc, -⟩
    have hdma := hc.awaits (by decide)
    cases hdma

end Rf4ce.App
