import Rf4ce.App.QsIr
import Rf4ce.Crash.Bytes
import Rf4ce.Refine.Traced
import Mathlib.Logic.Function.Basic
import Mathlib.Tactic.IntervalCases

/-! How `qsIR_Tx.c` decodes a database with `IR_DMA_FIFO_EN`: the carrier in `zrcIrInit` and the
frames of `qs_getIrData`, with all that they read, index and divide by. -/
namespace Rf4ce.App
open Crash Refine Traced

/-- `maxframe` -/
def maxFrame : Nat := 180

/-- The offset of `irData` in `zrcIRDataHead`. -/
def irDataOff : Nat := 12

/-- `CLOCK_SYS_CLOCK_HZ` or `PWM_PCLK_SPEED`, and `H_TIMER_CLOCK_1US`. -/
structure IrClock where
  speed : Nat
  clock1us : BitVec 8

/-- The byte of `quicksetIrCodeData` that is read, the row of `Timing` and the entry of
`zrcIRData.Symbol` that are written, a divisor, and a loop that does not end. -/
inductive QsAccess where
  | read (i : Nat)
  | timing (row : Nat)
  | symbol (i : Nat)
  | divide (d : Nat)
  | stuck
deriving DecidableEq, Repr

/-- `len` bytes were copied. -/
def QsAccess.InBounds (len : Nat) : QsAccess → Prop
  | .read i => i < len
  | .timing row => row < 16
  | .symbol i => i < maxFrame
  | .divide d => d ≠ 0
  | .stuck => False

instance (len : Nat) (a : QsAccess) : Decidable (a.InBounds len) := by
  cases a <;> unfold QsAccess.InBounds <;> infer_instance

/-! ### `zrcIrInit` -/

/-- The fields that decide which frames are sent. -/
def headOf (db : Nat → Byte) : ZrcIrDataHead :=
  ⟨db 1, db 3 ++ db 2, db 5, db 6, db 7, db 8, db 9⟩

def carrierPeriod (db : Nat → Byte) : Nat := (db 11 ++ db 10 : BitVec 16).toNat

/-- A database brings its own carrier: `IRVenSpec` is clear and `IRCarrier` is set. -/
def HasCarrier (db : Nat → Byte) : Prop := db 0 &&& 1 = 0 ∧ (headOf db).conFlag &&& 2 ≠ 0

instance (db : Nat → Byte) : Decidable (HasCarrier db) := inferInstanceAs (Decidable (_ ∧ _))

/-- What `qs_getIrData` works on: the copied database, `qsInfo.carrierFreq` and `Toggle_Reg`. -/
structure QsData where
  code : Nat → Byte
  carrierFreq : Nat
  toggle : BitVec 8

/-- The division of `IR_8MHZ` and the new `qsInfo.carrierFreq`. -/
def initCarrier (db : Nat → Byte) (carrierFreq : Nat) : Traced QsAccess Nat :=
  if db 0 &&& 1 = 0 then
    if (headOf db).conFlag &&& 2 ≠ 0 then do
      touch (.divide (carrierPeriod db))
      pure (8000000 / carrierPeriod db)
    else pure 100000
  else pure carrierFreq

/-- `zrcIrInit` as far as the data is concerned. `got` is the buffer that `ev_buf_allocate` returns,
with what is in it; no data comes back for a database that is not accepted. -/
def zrcIrInitData (db : Nat → Byte) (got : Option (Nat → Byte)) (carrierFreq : Nat) (toggle : BitVec 8) :
    Traced QsAccess (Option QsData) := do
  let carrierFreq ← initCarrier db carrierFreq
  match got with
  | none => pure none
  | some buf =>
    let len := 2 + (headOf db).codeLength.toNat
    if (headOf db).codeLength ≠ 0 ∧ len ≤ largeBuffer then
      pure (some ⟨fun i => if i < len then db i else buf i, carrierFreq, nextToggle (headOf db) toggle⟩)
    else pure none

/-! ### `qs_getIrData` -/

section GetIrData
variable (clk : IrClock) (d : QsData)

def readCode (i : Nat) : Traced QsAccess Byte := do
  touch (.read i)
  pure (d.code i)

def readCode16 (i : Nat) : Traced QsAccess (BitVec 16) := do
  let low ← readCode d i
  let high ← readCode d (i + 1)
  pure (high ++ low)

/-- The same on all chips. -/
def drvIrDmaPlusConfig (plusNum : BitVec 16) (carrien : Bool) : BitVec 16 :=
  (if carrien then 0x8000 else 0) ||| (plusNum &&& 0x3fff)

/-- `carrier_cycle_tick` -/
def readTick : Traced QsAccess Nat :=
  if d.carrierFreq ≠ 0 then do
    touch (.divide d.carrierFreq)
    pure (clk.speed / d.carrierFreq)
  else pure 0

/-- A time of the database as a number of carrier cycles. -/
def convertTime (tick : Nat) (t : BitVec 16) (carrien : Bool) : Traced QsAccess (BitVec 16) :=
  if t ≠ 0 then do
    touch (.divide tick)
    pure (drvIrDmaPlusConfig (BitVec.ofNat 16 (t.toNat * clk.clock1us.toNat * 4 / tick)) carrien)
  else pure t

/-- Mark and space of each row. -/
abbrev Timing := Nat → BitVec 16 × BitVec 16

/-- The loop that fills `Timing`; `i` is an `u8`. -/
def timingLoop (tick numTiming : Nat) : Nat → BitVec 8 → Timing → Traced QsAccess Timing
  | 0, _, timing => do
    touch .stuck
    pure timing
  | fuel + 1, i, timing =>
    if i.toNat < numTiming then do
      let mark ← readCode16 d (irDataOff + i.toNat * 4)
      let space ← readCode16 d (irDataOff + i.toNat * 4 + 2)
      touch (.timing i.toNat)
      let mark ← convertTime clk tick mark true
      let space ← convertTime clk tick space false
      timingLoop tick numTiming fuel (i + 1) (Function.update timing i.toNat (mark, space))
    else pure timing

/-- `(n >> 1) + (n & 1)`: the bytes that hold `n` codes. -/
def codeBytes (n : Nat) : Nat := n / 2 + n % 2

/-- The variables that a frame type sets: the number of codes, where they and the toggled ones are,
and which ones are toggled. -/
structure QsFrame where
  loopidx : Nat
  frameptr : Nat
  toggleptr : Nat
  togflag : BitVec 8
  togstart : Nat
  tognum : Nat

inductive IrFrameType where
  | irStart | irRepeat | irRelease
deriving DecidableEq, Repr

/-- The toggle part of a repeat frame whose codes begin at `frameptr`. -/
def toggleFrame (numRepeat frameptr : Nat) : Traced QsAccess QsFrame := do
  let numToggle ← readCode d 8
  if numToggle ≠ 0 ∧ d.toggle ≠ 0 then do
    let numRelease ← readCode d 7
    let toggleptr := frameptr + codeBytes numRepeat + codeBytes numRelease.toNat
    let togstart ← readCode d toggleptr
    pure ⟨numRepeat, frameptr, toggleptr + 1 + (d.toggle.toNat - 1) * codeBytes numToggle.toNat, d.toggle,
      togstart.toNat, numToggle.toNat⟩
  else pure ⟨numRepeat, frameptr, 0, 0, 0, 0⟩

/-- The chain of `else if` over the frame types, with the codes of the press frame at `frameptr`. -/
def selectFrame (frametype : IrFrameType) (frameptr : Nat) : Traced QsAccess (Option QsFrame) := do
  let numPress ← readCode d 5
  if numPress ≠ 0 ∧ frametype = .irStart then pure (some ⟨numPress.toNat, frameptr, 0, 0, 0, 0⟩)
  else do
    let numRepeat ← readCode d 6
    if numRepeat ≠ 0 ∧ frametype = .irRepeat then do
      let frame ← toggleFrame d numRepeat.toNat (frameptr + codeBytes numPress.toNat)
      pure (some frame)
    else do
      let numRelease ← readCode d 7
      if numRelease ≠ 0 ∧ frametype = .irRelease then
        pure (some ⟨numRelease.toNat, frameptr + codeBytes numPress.toNat + codeBytes numRepeat.toNat, 0, 0, 0, 0⟩)
      else pure none

/-- The variables of the loop over the codes. -/
structure SymbolState where
  frameptr : Nat
  toggleptr : Nat
  togidx : BitVec 8
  togdata : BitVec 8
  data : BitVec 8
  irdatasize : BitVec 16
  symbol : Nat → BitVec 16

/-- `(data&0xf0)>>4` -/
def highNibble (data : BitVec 8) : Nat := ((data &&& 0xf0) >>> 4).toNat

/-- A symbol that is not zero is stored. -/
def putSymbol (w : BitVec 16) (s : SymbolState) : Traced QsAccess SymbolState :=
  if w ≠ 0 then do
    touch (.symbol s.irdatasize.toNat)
    pure { s with
      symbol := Function.update s.symbol s.irdatasize.toNat w
      irdatasize := s.irdatasize + 1 }
  else pure s

/-- Codes `togstart` to `togstart + tognum - 1` of a frame with `togflag` are toggled. -/
def QsFrame.Toggled (fr : QsFrame) (i : Nat) : Prop :=
  fr.togflag ≠ 0 ∧ fr.togstart ≤ i ∧ i < fr.togstart + fr.tognum

instance (fr : QsFrame) (i : Nat) : Decidable (fr.Toggled i) := inferInstanceAs (Decidable (_ ∧ _ ∧ _))

/-- Two codes are in a byte of the frame. -/
def nextData (i : Nat) (s : SymbolState) : Traced QsAccess SymbolState :=
  if i % 2 = 0 then do
    let data ← readCode d s.frameptr
    pure { s with data := data, frameptr := s.frameptr + 1 }
  else pure s

def nextTogdata (s : SymbolState) : Traced QsAccess SymbolState :=
  if s.togidx.toNat % 2 = 0 then do
    let togdata ← readCode d s.toggleptr
    pure { s with togdata := togdata, toggleptr := s.toggleptr + 1 }
  else pure s

/-- A toggled code takes the place of the one in `data`. -/
def toggleData (fr : QsFrame) (i : Nat) (s : SymbolState) : Traced QsAccess SymbolState :=
  if fr.Toggled i then do
    let s ← nextTogdata d s
    pure { s with
      data := (s.data &&& 0x0f) ||| (s.togdata &&& 0xf0)
      togdata := s.togdata <<< 4
      togidx := s.togidx + 1 }
  else pure s

/-- Code `i` of the frame. -/
def symbolStep (timing : Timing) (fr : QsFrame) (i : Nat) (s : SymbolState) : Traced QsAccess SymbolState := do
  let s ← nextData d i s
  let s ← toggleData d fr i s
  let s ← putSymbol (timing (highNibble s.data)).1 s
  let s ← putSymbol (timing (highNibble s.data)).2 s
  pure { s with data := s.data <<< 4 }

/-- The loop over the codes; `i` is an `u8`. -/
def symbolLoop (timing : Timing) (fr : QsFrame) : Nat → BitVec 8 → SymbolState → Traced QsAccess SymbolState
  | 0, _, s => do
    touch .stuck
    pure s
  | fuel + 1, i, s =>
    if i.toNat < fr.loopidx then do
      let s ← symbolStep d timing fr i.toNat s
      symbolLoop timing fr fuel (i + 1) s
    else pure s

/-- `qs_getIrData` with `zrcIRData.Size` and `zrcIRData.Symbol`, when there is a frame of the type. -/
def qsGetIrData (symbol : Nat → BitVec 16) (frametype : IrFrameType) :
    Traced QsAccess (Option (Nat × (Nat → BitVec 16))) := do
  let tick ← readTick clk d
  let numTiming ← readCode d 4
  let timing ← timingLoop clk d tick numTiming.toNat 256 0 fun _ => (0, 0)
  let frame ← selectFrame d frametype (irDataOff + numTiming.toNat * 4)
  match frame with
  | none => pure none
  | some fr =>
    let s ← symbolLoop d timing fr 256 0 ⟨fr.frameptr, fr.toggleptr, 0, 0, 0, 0, symbol⟩
    pure (some ((s.irdatasize <<< 1).toNat, s.symbol))

end GetIrData

/-! ### Codes -/

section Nibbles

theorem highNibble_eq (x : BitVec 8) : highNibble x = x.toNat / 16 := by
  revert x
  decide

theorem highNibble_shift (x : BitVec 8) : highNibble (x <<< 4) = x.toNat % 16 := by
  revert x
  decide

/-- The toggled code comes from the other byte, the next one is as before. -/
theorem highNibble_mix (x y : BitVec 8) : highNibble ((x &&& 0x0f) ||| (y &&& 0xf0)) = y.toNat / 16 ∧
    ((x &&& 0x0f) ||| (y &&& 0xf0)) <<< 4 = x <<< 4 := by
  constructor
  · rw [← highNibble_eq]
    unfold highNibble
    congr 1
    ext i hi
    interval_cases i <;> simp
  · ext i hi
    interval_cases i <;> simp

end Nibbles

/-- Code `i` of those packed from byte `p` on, the high nibble first. -/
def codeNibble (mem : Nat → Byte) (p i : Nat) : Nat :=
  if i % 2 = 0 then (mem (p + i / 2)).toNat / 16 else (mem (p + i / 2)).toNat % 16

/-- Code `i` of a frame after toggling. -/
def QsFrame.codeAt (fr : QsFrame) (mem : Nat → Byte) (i : Nat) : Nat :=
  if fr.Toggled i then codeNibble mem fr.toggleptr (i - fr.togstart) else codeNibble mem fr.frameptr i

/-- The symbols that a row of `Timing` stands for. -/
def symbolsOf (row : BitVec 16 × BitVec 16) : Nat := (if row.1 ≠ 0 then 1 else 0) + if row.2 ≠ 0 then 1 else 0

/-- The symbols of the first codes of a frame. -/
def symbolCount (timing : Timing) (fr : QsFrame) (mem : Nat → Byte) : Nat → Nat
  | 0 => 0
  | n + 1 => symbolCount timing fr mem n + symbolsOf (timing (fr.codeAt mem n))

/-- The toggled codes before code `i`. -/
def QsFrame.toggledBelow (fr : QsFrame) (i : Nat) : Nat :=
  if fr.togflag = 0 then 0 else min i (fr.togstart + fr.tognum) - min i fr.togstart

section Symbols
variable {d : QsData} {timing : Timing} {fr : QsFrame} {i : Nat} {s : SymbolState} (len : Nat)

theorem QsFrame.toggledBelow_succ (fr : QsFrame) (i : Nat) :
    fr.toggledBelow (i + 1) = fr.toggledBelow i + if fr.Toggled i then 1 else 0 := by
  unfold toggledBelow Toggled
  by_cases hflag : fr.togflag = 0
  · simp [hflag]
  · simp only [hflag, ne_eq, not_false_eq_true, true_and, if_false]
    split_ifs <;> omega

theorem QsFrame.toggledBelow_of (h : fr.Toggled i) : fr.toggledBelow i = i - fr.togstart := by
  obtain ⟨hflag, hlow, hhigh⟩ := h
  rw [toggledBelow, if_neg hflag]
  omega

theorem QsFrame.toggledBelow_le (fr : QsFrame) (i : Nat) : fr.toggledBelow i ≤ i := by
  unfold toggledBelow
  split_ifs <;> omega

theorem symbolsOf_le (row : BitVec 16 × BitVec 16) : symbolsOf row ≤ 2 := by
  unfold symbolsOf
  split_ifs <;> omega

theorem symbolCount_le (timing : Timing) (fr : QsFrame) (mem : Nat → Byte) (n : Nat) :
    symbolCount timing fr mem n ≤ 2 * n := by
  induction n with
  | zero => simp [symbolCount]
  | succ n ih =>
    have hrow := symbolsOf_le (timing (fr.codeAt mem n))
    rw [symbolCount]
    omega

theorem codeNibble_next (mem : Nat → Byte) (p : Nat) {i : Nat} (hi : i % 2 = 0) :
    codeNibble mem p i = (mem (p + i / 2)).toNat / 16 ∧ codeNibble mem p (i + 1) = (mem (p + i / 2)).toNat % 16 := by
  have hhalf : (i + 1) / 2 = i / 2 := by omega
  unfold codeNibble
  rw [if_pos hi, if_neg (by omega), hhalf]
  exact ⟨rfl, rfl⟩

/-- The loop variables before code `i`. -/
structure SymbolInv (d : QsData) (timing : Timing) (fr : QsFrame) (i : Nat) (s : SymbolState) : Prop where
  frameptr : s.frameptr = fr.frameptr + (i + 1) / 2
  data : i % 2 = 1 → highNibble s.data = codeNibble d.code fr.frameptr i
  toggleptr : s.toggleptr = fr.toggleptr + (fr.toggledBelow i + 1) / 2
  togidx : s.togidx.toNat = fr.toggledBelow i
  togdata : fr.toggledBelow i % 2 = 1 → highNibble s.togdata = codeNibble d.code fr.toggleptr (fr.toggledBelow i)
  irdatasize : s.irdatasize.toNat = symbolCount timing fr d.code i

theorem symbolInv_start (d : QsData) (timing : Timing) (fr : QsFrame) (symbol : Nat → BitVec 16) :
    SymbolInv d timing fr 0 ⟨fr.frameptr, fr.toggleptr, 0, 0, 0, 0, symbol⟩ := by
  have hnone : fr.toggledBelow 0 = 0 := Nat.le_zero.mp (fr.toggledBelow_le 0)
  constructor
  · rfl
  · simp
  · rw [hnone]
    rfl
  · rw [hnone]
    rfl
  · simp [hnone]
  · rfl

/-- The loop variables while `data` holds code `i`, with `m` toggled codes consumed. -/
structure SymbolCode (d : QsData) (timing : Timing) (fr : QsFrame) (i m code : Nat) (s : SymbolState) : Prop where
  frameptr : s.frameptr = fr.frameptr + (i + 2) / 2
  code : highNibble s.data = code
  next : i % 2 = 0 → highNibble (s.data <<< 4) = codeNibble d.code fr.frameptr (i + 1)
  toggleptr : s.toggleptr = fr.toggleptr + (m + 1) / 2
  togidx : s.togidx.toNat = m
  togdata : m % 2 = 1 → highNibble s.togdata = codeNibble d.code fr.toggleptr m
  irdatasize : s.irdatasize.toNat = symbolCount timing fr d.code i

theorem nextData_spec (h : SymbolInv d timing fr i s) :
    ((nextData d i s).Within (QsAccess.InBounds len) ↔ (i % 2 = 0 → fr.frameptr + i / 2 < len)) ∧
      SymbolCode d timing fr i (fr.toggledBelow i) (codeNibble d.code fr.frameptr i) (nextData d i s).value := by
  have hptr := h.frameptr
  unfold nextData
  split_ifs with heven
  · obtain ⟨hthis, hnext⟩ := codeNibble_next d.code fr.frameptr heven
    have hbyte : s.frameptr = fr.frameptr + i / 2 := by omega
    constructor
    · simp [readCode, QsAccess.InBounds, heven, hbyte]
    · constructor
      · change s.frameptr + 1 = _
        omega
      · change highNibble (d.code s.frameptr) = _
        rw [highNibble_eq, hthis, hbyte]
      · change _ → highNibble (d.code s.frameptr <<< 4) = _
        rw [highNibble_shift, hnext, hbyte]
        exact fun _ => rfl
      · exact h.toggleptr
      · exact h.togidx
      · exact h.togdata
      · exact h.irdatasize
  · constructor
    · simp [heven]
    · constructor
      · change s.frameptr = _
        omega
      · exact h.data (by omega)
      · exact fun hbad => absurd hbad heven
      · exact h.toggleptr
      · exact h.togidx
      · exact h.togdata
      · exact h.irdatasize

theorem nextTogdata_spec {m code : Nat} (h : SymbolCode d timing fr i m code s) :
    ((nextTogdata d s).Within (QsAccess.InBounds len) ↔ (m % 2 = 0 → fr.toggleptr + m / 2 < len)) ∧
      (nextTogdata d s).value.toggleptr = fr.toggleptr + (m + 2) / 2 ∧
      highNibble (nextTogdata d s).value.togdata = codeNibble d.code fr.toggleptr m ∧
      (m % 2 = 0 → highNibble ((nextTogdata d s).value.togdata <<< 4) = codeNibble d.code fr.toggleptr (m + 1)) ∧
      (nextTogdata d s).value =
        { s with
          togdata := (nextTogdata d s).value.togdata
          toggleptr := (nextTogdata d s).value.toggleptr } := by
  have hptr := h.toggleptr
  unfold nextTogdata
  rw [h.togidx]
  split_ifs with heven
  · obtain ⟨hthis, hnext⟩ := codeNibble_next d.code fr.toggleptr heven
    have hbyte : s.toggleptr = fr.toggleptr + m / 2 := by omega
    constructor
    · simp [readCode, QsAccess.InBounds, heven, hbyte]
    constructor
    · change s.toggleptr + 1 = _
      omega
    constructor
    · change highNibble (d.code s.toggleptr) = _
      rw [highNibble_eq, hthis, hbyte]
    constructor
    · change _ → highNibble (d.code s.toggleptr <<< 4) = _
      rw [highNibble_shift, hnext, hbyte]
      exact fun _ => rfl
    · rfl
  · constructor
    · simp [heven]
    constructor
    · change s.toggleptr = _
      omega
    constructor
    · exact h.togdata (by omega)
    constructor
    · exact fun hbad => absurd hbad heven
    · rfl

theorem toggleData_spec (hi : i < 255)
    (h : SymbolCode d timing fr i (fr.toggledBelow i) (codeNibble d.code fr.frameptr i) s) :
    ((toggleData d fr i s).Within (QsAccess.InBounds len) ↔
        (fr.Toggled i → (i - fr.togstart) % 2 = 0 → fr.toggleptr + (i - fr.togstart) / 2 < len)) ∧
      SymbolCode d timing fr i (fr.toggledBelow (i + 1)) (fr.codeAt d.code i) (toggleData d fr i s).value := by
  have hsucc := fr.toggledBelow_succ i
  unfold toggleData QsFrame.codeAt
  split_ifs with htog
  · rw [if_pos htog] at hsucc
    have hbelow := QsFrame.toggledBelow_of htog
    have hle := fr.toggledBelow_le i
    have htogidx := h.togidx
    obtain ⟨hwithin, hptr, hcode, hnext, hvalue⟩ := nextTogdata_spec len h
    rw [hbelow] at hwithin
    rw [within_bind, hwithin, value_bind]
    generalize (nextTogdata d s).value = t at hptr hcode hnext hvalue
    have hdata : t.data = s.data := by rw [hvalue]
    have hidx : t.togidx = s.togidx := by rw [hvalue]
    have hframe : t.frameptr = s.frameptr := by rw [hvalue]
    have hsize : t.irdatasize = s.irdatasize := by rw [hvalue]
    obtain ⟨hmix, hshift⟩ := highNibble_mix t.data t.togdata
    rw [highNibble_eq] at hcode
    rw [hsucc]
    constructor
    · simp [htog]
    · constructor
      · exact hframe.trans h.frameptr
      · rw [value_pure, hmix, hcode, hbelow]
      · rw [value_pure, hshift, hdata]
        exact h.next
      · rw [value_pure, hptr]
      · rw [value_pure, hidx, BitVec.toNat_add, htogidx]
        exact Nat.mod_eq_of_lt (by change _ + 1 < 256; omega)
      · exact fun hodd => hnext (by omega)
      · rw [value_pure, hsize]
        exact h.irdatasize
  · rw [if_neg htog, Nat.add_zero] at hsucc
    rw [hsucc]
    constructor
    · simp [htog]
    · exact h

/-- Room for up to two entries, one after the other. -/
theorem room_iff (p q : Prop) [Decidable p] [Decidable q] (n m : Nat) :
    ((p → n < m) ∧ (q → n + (if p then 1 else 0) < m)) ↔
      ((if p then 1 else 0) + (if q then 1 else 0) ≠ 0 → n + ((if p then 1 else 0) + if q then 1 else 0) ≤ m) := by
  by_cases hp : p
  · by_cases hq : q
    · simp only [hp, hq, if_true, forall_const]
      omega
    · simp only [hp, hq, if_true, if_false, forall_const, false_implies, and_true]
      omega
  · by_cases hq : q
    · simp only [hp, hq, if_true, if_false, forall_const, false_implies, true_and]
      omega
    · simp [hp, hq]

/-- A stored symbol takes the next entry; the other variables stay. -/
theorem putSymbol_spec (w : BitVec 16) (hsize : s.irdatasize.toNat < 65535) :
    ((putSymbol w s).Within (QsAccess.InBounds len) ↔ (w ≠ 0 → s.irdatasize.toNat < maxFrame)) ∧
      (putSymbol w s).value.irdatasize.toNat = s.irdatasize.toNat + (if w ≠ 0 then 1 else 0) ∧
      (putSymbol w s).value =
        { s with
          irdatasize := (putSymbol w s).value.irdatasize
          symbol := (putSymbol w s).value.symbol } := by
  unfold putSymbol
  split_ifs with hw
  · constructor
    · simp only [within_bind, within_touch, within_pure, and_true]
      exact (imp_iff_right hw).symm
    constructor
    · change (s.irdatasize + 1).toNat = _
      rw [BitVec.toNat_add]
      exact Nat.mod_eq_of_lt (by change _ + 1 < 65536; omega)
    · rfl
  · constructor
    · exact iff_of_true ((within_pure s).mpr trivial) fun hne => absurd hne hw
    constructor
    · rfl
    · rfl

/-- Code `i` of a frame stays in bounds. -/
structure CodeFits (d : QsData) (timing : Timing) (len : Nat) (fr : QsFrame) (i : Nat) : Prop where
  frame : i % 2 = 0 → fr.frameptr + i / 2 < len
  toggle : fr.Toggled i → (i - fr.togstart) % 2 = 0 → fr.toggleptr + (i - fr.togstart) / 2 < len
  symbol : symbolsOf (timing (fr.codeAt d.code i)) ≠ 0 → symbolCount timing fr d.code (i + 1) ≤ maxFrame

theorem symbolStep_spec (hi : i < 255) (h : SymbolInv d timing fr i s) :
    ((symbolStep d timing fr i s).Within (QsAccess.InBounds len) ↔ CodeFits d timing len fr i) ∧
      SymbolInv d timing fr (i + 1) (symbolStep d timing fr i s).value := by
  have hcount := symbolCount_le timing fr d.code i
  obtain ⟨hdata, hread⟩ := nextData_spec len h
  obtain ⟨htoggle, hcode⟩ := toggleData_spec len hi hread
  generalize hs₁ : (nextData d i s).value = s₁ at htoggle hcode
  generalize hs₂ : (toggleData d fr i s₁).value = s₂ at hcode
  have hsize := hcode.irdatasize
  obtain ⟨hmark, hsize₃, hvalue₃⟩ := putSymbol_spec len (timing (fr.codeAt d.code i)).1 (s := s₂) (by omega)
  generalize hs₃ : (putSymbol (timing (fr.codeAt d.code i)).1 s₂).value = s₃ at hsize₃ hvalue₃
  have hdata₃ : s₃.data = s₂.data := by rw [hvalue₃]
  have hle₃ : s₃.irdatasize.toNat ≤ s₂.irdatasize.toNat + 1 := by
    rw [hsize₃]
    split_ifs <;> omega
  obtain ⟨hspace, hsize₄, hvalue₄⟩ := putSymbol_spec len (timing (fr.codeAt d.code i)).2 (s := s₃) (by omega)
  generalize hs₄ : (putSymbol (timing (fr.codeAt d.code i)).2 s₃).value = s₄ at hsize₄ hvalue₄
  have hsymbols : symbolCount timing fr d.code (i + 1) =
      symbolCount timing fr d.code i + symbolsOf (timing (fr.codeAt d.code i)) := rfl
  constructor
  · have hput : (symbolStep d timing fr i s).Within (QsAccess.InBounds len) ↔
        (nextData d i s).Within (QsAccess.InBounds len) ∧ (toggleData d fr i s₁).Within (QsAccess.InBounds len) ∧
        (putSymbol (timing (fr.codeAt d.code i)).1 s₂).Within (QsAccess.InBounds len) ∧
        (putSymbol (timing (fr.codeAt d.code i)).2 s₃).Within (QsAccess.InBounds len) := by
      simp only [symbolStep, within_bind, within_pure, and_true, hs₁, hs₂, hcode.code, hs₃, hdata₃]
    have hroom := room_iff ((timing (fr.codeAt d.code i)).1 ≠ 0) ((timing (fr.codeAt d.code i)).2 ≠ 0)
      (symbolCount timing fr d.code i) maxFrame
    rw [hput, hdata, htoggle, hmark, hspace, hsize₃, hsize, hroom]
    constructor
    · exact fun hall => ⟨hall.1, hall.2.1, hall.2.2⟩
    · exact fun hfits => ⟨hfits.frame, hfits.toggle, hfits.symbol⟩
  · have hvalue : (symbolStep d timing fr i s).value = { s₄ with data := s₄.data <<< 4 } := by
      simp only [symbolStep, value_bind, value_pure, hs₁, hs₂, hcode.code, hs₃, hdata₃, hs₄]
    have hframe₄ : s₄.frameptr = s₂.frameptr := by rw [hvalue₄, hvalue₃]
    have hdata₄ : s₄.data = s₂.data := by rw [hvalue₄, hvalue₃]
    have htogptr₄ : s₄.toggleptr = s₂.toggleptr := by rw [hvalue₄, hvalue₃]
    have htogidx₄ : s₄.togidx = s₂.togidx := by rw [hvalue₄, hvalue₃]
    have htogdata₄ : s₄.togdata = s₂.togdata := by rw [hvalue₄, hvalue₃]
    rw [hvalue]
    constructor
    · exact hframe₄.trans hcode.frameptr
    · intro hodd
      rw [hdata₄]
      exact hcode.next (by omega)
    · exact htogptr₄.trans hcode.toggleptr
    · rw [htogidx₄]
      exact hcode.togidx
    · rw [htogdata₄]
      exact hcode.togdata
    · rw [hsize₄, hsize₃, hsize, hsymbols, symbolsOf, Nat.add_assoc]

theorem ofNat_succ (i : Nat) : BitVec.ofNat 8 i + 1 = BitVec.ofNat 8 (i + 1) := (BitVec.ofNat_add i 1).symm

/-- With the fuel of 256 rounds the loop ends, and it stays in bounds if all its codes do. -/
theorem symbolLoop_within (fuel : Nat) (hfuel : 256 ≤ fuel + i) (hloop : fr.loopidx ≤ 255) (hi : i ≤ fr.loopidx)
    (h : SymbolInv d timing fr i s) :
    (symbolLoop d timing fr fuel (BitVec.ofNat 8 i) s).Within (QsAccess.InBounds len) ↔
      ∀ k, i ≤ k → k < fr.loopidx → CodeFits d timing len fr k := by
  induction fuel generalizing i s with
  | zero => omega
  | succ fuel ih =>
    have hnat : (BitVec.ofNat 8 i).toNat = i := by
      rw [BitVec.toNat_ofNat]
      omega
    rw [symbolLoop, hnat]
    by_cases hlt : i < fr.loopidx
    · obtain ⟨hstep, hnext⟩ := symbolStep_spec len (by omega) h
      have hrest := ih (by omega) (by omega) hnext
      rw [if_pos hlt, within_bind, hstep, ofNat_succ, hrest]
      constructor
      · intro hall k h₁ h₂
        by_cases hk : k = i
        · rw [hk]
          exact hall.1
        · exact hall.2 k (by omega) h₂
      · exact fun hall => ⟨hall i (Nat.le_refl i) hlt, fun k h₁ h₂ => hall k (by omega) h₂⟩
    · rw [if_neg hlt, within_pure]
      exact iff_of_true trivial fun k h₁ h₂ => absurd h₂ (by omega)

theorem symbolCount_mono {m n : Nat} (h : m ≤ n) :
    symbolCount timing fr d.code m ≤ symbolCount timing fr d.code n := by
  induction n with
  | zero =>
    obtain rfl : m = 0 := by omega
    exact Nat.le_refl _
  | succ n ih =>
    rw [symbolCount]
    by_cases hm : m ≤ n
    · exact Nat.le_trans (ih hm) (Nat.le_add_right _ _)
    · obtain rfl : m = n + 1 := by omega
      exact Nat.le_refl _

/-- The frame is in the copied bytes, with its toggled codes, and `Symbol` has room for it. -/
structure FrameFits (d : QsData) (timing : Timing) (len : Nat) (fr : QsFrame) : Prop where
  frame : fr.loopidx ≠ 0 → fr.frameptr + codeBytes fr.loopidx ≤ len
  toggle : fr.toggledBelow fr.loopidx ≠ 0 → fr.toggleptr + codeBytes (fr.toggledBelow fr.loopidx) ≤ len
  symbol : symbolCount timing fr d.code fr.loopidx ≤ maxFrame

/-- Where the toggled codes of a frame end. -/
theorem QsFrame.toggledBelow_pos {n : Nat} (h : fr.toggledBelow n ≠ 0) :
    fr.togflag ≠ 0 ∧ fr.togstart + fr.toggledBelow n ≤ n ∧ fr.toggledBelow n ≤ fr.tognum := by
  unfold toggledBelow at *
  split_ifs at * with hflag
  · exact absurd rfl h
  · exact ⟨hflag, by omega, by omega⟩

theorem frameFits_iff : (∀ k, 0 ≤ k → k < fr.loopidx → CodeFits d timing len fr k) ↔ FrameFits d timing len fr := by
  constructor
  · intro hall
    constructor
    · intro hne
      have hlast := (hall ((fr.loopidx - 1) / 2 * 2) (Nat.zero_le _) (by omega)).frame (by omega)
      unfold codeBytes
      omega
    · intro hne
      obtain ⟨hflag, hend, hnum⟩ := QsFrame.toggledBelow_pos hne
      generalize fr.toggledBelow fr.loopidx = m at hne hend hnum
      have hlast := (hall (fr.togstart + (m - 1) / 2 * 2) (Nat.zero_le _) (by omega)).toggle
        ⟨hflag, by omega, by omega⟩ (by omega)
      unfold codeBytes
      omega
    · have hcount : ∀ k ≤ fr.loopidx, symbolCount timing fr d.code k ≤ maxFrame := by
        intro k hk
        induction k with
        | zero => exact Nat.zero_le _
        | succ k ih =>
          by_cases hnone : symbolsOf (timing (fr.codeAt d.code k)) = 0
          · rw [symbolCount, hnone]
            exact ih (by omega)
          · exact (hall k (Nat.zero_le k) hk).symbol hnone
      exact hcount _ (Nat.le_refl _)
  · intro hfits k _ hk
    have hframe := hfits.frame (by omega)
    constructor
    · intro heven
      unfold codeBytes at hframe
      omega
    · intro htog heven
      have hlast : fr.toggledBelow fr.loopidx > k - fr.togstart := by
        obtain ⟨hflag, hlow, hhigh⟩ := htog
        rw [QsFrame.toggledBelow, if_neg hflag]
        omega
      have htoggle := hfits.toggle (by omega)
      unfold codeBytes at htoggle
      omega
    · exact fun _ => Nat.le_trans (symbolCount_mono hk) hfits.symbol

end Symbols

/-! ### The table of times -/

def wordAt (mem : Nat → Byte) (i : Nat) : BitVec 16 := mem (i + 1) ++ mem i

/-- Mark and space of a row in the database. -/
def rowAt (mem : Nat → Byte) (row : Nat) : BitVec 16 × BitVec 16 :=
  (wordAt mem (irDataOff + row * 4), wordAt mem (irDataOff + row * 4 + 2))

/-- The clock ticks of one cycle of the carrier, if there is one. -/
def carrierTick (clk : IrClock) (d : QsData) : Nat := if d.carrierFreq ≠ 0 then clk.speed / d.carrierFreq else 0

/-- A time of the database as it stands in `Timing`. -/
def cyclesOf (clk : IrClock) (tick : Nat) (t : BitVec 16) (carrien : Bool) : BitVec 16 :=
  if t ≠ 0 then drvIrDmaPlusConfig (BitVec.ofNat 16 (t.toNat * clk.clock1us.toNat * 4 / tick)) carrien else t

/-- `Timing` after the first rows are filled. -/
def timingOf (clk : IrClock) (mem : Nat → Byte) (tick n : Nat) : Timing := fun row =>
  if row < n then (cyclesOf clk tick (rowAt mem row).1 true, cyclesOf clk tick (rowAt mem row).2 false) else (0, 0)

section Rows
variable {clk : IrClock} {d : QsData} {tick n i len : Nat}

/-- A row of the database stays in bounds. -/
structure RowFits (mem : Nat → Byte) (tick len row : Nat) : Prop where
  read : irDataOff + row * 4 + 4 ≤ len
  index : row < 16
  divide : tick = 0 → rowAt mem row = (0, 0)

theorem convertTime_value (t : BitVec 16) (carrien : Bool) :
    (convertTime clk tick t carrien).value = cyclesOf clk tick t carrien := by
  unfold convertTime cyclesOf
  split_ifs
  · rfl
  · rfl

theorem convertTime_within (t : BitVec 16) (carrien : Bool) :
    (convertTime clk tick t carrien).Within (QsAccess.InBounds len) ↔ (tick = 0 → t = 0) := by
  unfold convertTime
  split_ifs with ht
  · simp only [within_bind, within_touch, within_pure, and_true]
    constructor
    · exact fun hne hzero => absurd hzero hne
    · exact fun hzero htick => ht (hzero htick)
  · rw [within_pure]
    exact iff_of_true trivial fun _ => not_not.mp ht

theorem readCode16_within (i : Nat) :
    (readCode16 d i).Within (QsAccess.InBounds len) ↔ i + 2 ≤ len := by
  simp only [readCode16, readCode, within_bind, within_touch, within_pure, and_true, QsAccess.InBounds]
  omega

theorem timingOf_succ (clk : IrClock) (mem : Nat → Byte) (tick i : Nat) :
    Function.update (timingOf clk mem tick i) i (cyclesOf clk tick (rowAt mem i).1 true,
      cyclesOf clk tick (rowAt mem i).2 false) = timingOf clk mem tick (i + 1) := by
  funext row
  by_cases hrow : row = i
  · subst hrow
    rw [Function.update_self, timingOf, if_pos (Nat.lt_succ_self _)]
  · rw [Function.update_of_ne hrow, timingOf, timingOf]
    exact if_congr (by omega) rfl rfl

/-- With the fuel of 256 rounds the table is filled. -/
theorem timingLoop_spec (fuel : Nat) (hfuel : 256 ≤ fuel + i) (hn : n ≤ 255) (hi : i ≤ n) :
    ((timingLoop clk d tick n fuel (BitVec.ofNat 8 i) (timingOf clk d.code tick i)).Within (QsAccess.InBounds len) ↔
        ∀ row, i ≤ row → row < n → RowFits d.code tick len row) ∧
      (timingLoop clk d tick n fuel (BitVec.ofNat 8 i) (timingOf clk d.code tick i)).value =
        timingOf clk d.code tick n := by
  induction fuel generalizing i with
  | zero => omega
  | succ fuel ih =>
    have hnat : (BitVec.ofNat 8 i).toNat = i := by
      rw [BitVec.toNat_ofNat]
      omega
    have hmark : (readCode16 d (irDataOff + i * 4)).value = (rowAt d.code i).1 := rfl
    have hspace : (readCode16 d (irDataOff + i * 4 + 2)).value = (rowAt d.code i).2 := rfl
    rw [timingLoop, hnat]
    by_cases hlt : i < n
    · obtain ⟨hrest, hvalue⟩ := ih (i := i + 1) (by omega) (by omega)
      simp only [if_pos hlt, within_bind, value_bind, within_touch, hmark, hspace, convertTime_value, ofNat_succ, timingOf_succ,
        readCode16_within, convertTime_within, hrest, hvalue, and_true]
      constructor
      · intro hall row h₁ h₂
        by_cases hrow : row = i
        · subst hrow
          obtain ⟨-, hread, hrow, hmark, hspace, -⟩ := hall
          exact ⟨by omega, hrow, fun htick => Prod.ext (hmark htick) (hspace htick)⟩
        · exact hall.2.2.2.2.2 row (by omega) h₂
      · intro hall
        have hfits := hall i (Nat.le_refl i) hlt
        have hread := hfits.read
        refine ⟨by omega, by omega, hfits.index, fun htick => ?_, fun htick => ?_, fun row h₁ h₂ => hall row (by omega) h₂⟩
        · rw [hfits.divide htick]
        · rw [hfits.divide htick]
    · obtain rfl : i = n := by omega
      rw [if_neg hlt, within_pure, value_pure]
      exact ⟨iff_of_true trivial fun row h₁ h₂ => absurd h₂ (by omega), rfl⟩

end Rows

/-! ### The frames of a database -/

section Frames
variable (d : QsData)

/-- Where the codes of the press frame begin. -/
def framesOff : Nat := irDataOff + (d.code 4).toNat * 4

/-- The byte with `togstart`, behind the codes of all frames. -/
def togstartOff : Nat :=
  framesOff d + codeBytes (d.code 5).toNat + codeBytes (d.code 6).toNat + codeBytes (d.code 7).toNat

/-- A repeat frame is sent with some of its codes toggled. -/
def Toggles : Prop := d.code 8 ≠ 0 ∧ d.toggle ≠ 0

instance : Decidable (Toggles d) := inferInstanceAs (Decidable (_ ∧ _))

/-- The repeat frame; the toggled codes are the set that `Toggle_Reg` says. -/
def repeatFrame : QsFrame :=
  if Toggles d then
    ⟨(d.code 6).toNat, framesOff d + codeBytes (d.code 5).toNat,
      togstartOff d + 1 + (d.toggle.toNat - 1) * codeBytes (d.code 8).toNat, d.toggle,
      (d.code (togstartOff d)).toNat, (d.code 8).toNat⟩
  else ⟨(d.code 6).toNat, framesOff d + codeBytes (d.code 5).toNat, 0, 0, 0, 0⟩

def frameOf : IrFrameType → Option QsFrame
  | .irStart => if d.code 5 ≠ 0 then some ⟨(d.code 5).toNat, framesOff d, 0, 0, 0, 0⟩ else none
  | .irRepeat => if d.code 6 ≠ 0 then some (repeatFrame d) else none
  | .irRelease =>
    if d.code 7 ≠ 0 then
      some ⟨(d.code 7).toNat, framesOff d + codeBytes (d.code 5).toNat + codeBytes (d.code 6).toNat, 0, 0, 0, 0⟩
    else none

variable {d} {len : Nat}

theorem readCode_value (i : Nat) : (readCode d i).value = d.code i := by
  rw [readCode, value_bind, value_pure]

theorem readCode_within (i : Nat) : (readCode d i).Within (QsAccess.InBounds len) ↔ i < len := by
  simp only [readCode, within_bind, within_touch, within_pure, and_true, QsAccess.InBounds]

theorem toggleFrame_spec :
    ((toggleFrame d (d.code 6).toNat (framesOff d + codeBytes (d.code 5).toNat)).Within (QsAccess.InBounds len) ↔
        8 < len ∧ (Toggles d → 7 < len ∧ togstartOff d < len)) ∧
      (toggleFrame d (d.code 6).toNat (framesOff d + codeBytes (d.code 5).toNat)).value = repeatFrame d := by
  unfold toggleFrame repeatFrame
  rw [within_bind, value_bind, readCode_within, readCode_value]
  by_cases htog : Toggles d
  · have hon : d.code 8 ≠ 0 ∧ d.toggle ≠ 0 := htog
    rw [if_pos hon, if_pos htog]
    simp only [within_bind, value_bind, within_pure, readCode_within, readCode_value, and_true, imp_iff_right htog]
    exact ⟨Iff.rfl, rfl⟩
  · have hoff : ¬ (d.code 8 ≠ 0 ∧ d.toggle ≠ 0) := htog
    rw [if_neg hoff, if_neg htog, within_pure]
    exact ⟨and_congr_right fun _ => iff_of_true trivial fun hon => absurd hon htog, rfl⟩

theorem selectFrame_value (frametype : IrFrameType) :
    (selectFrame d frametype (framesOff d)).value = frameOf d frametype := by
  have htoggle := (@toggleFrame_spec d 0).2
  cases frametype with
  | irStart =>
    simp only [selectFrame, frameOf, value_bind, readCode_value, and_true, and_false, reduceCtorEq, if_false]
    split_ifs
    · rfl
    · rfl
  | irRepeat =>
    simp only [selectFrame, frameOf, value_bind, readCode_value, and_true, and_false, reduceCtorEq, if_false]
    split_ifs
    · rw [value_bind, htoggle, value_pure]
    · rfl
  | irRelease =>
    simp only [selectFrame, frameOf, value_bind, readCode_value, and_true, and_false, reduceCtorEq, if_false]
    split_ifs
    · rfl
    · rfl

/-- The header fields and the start of the toggled codes are copied. -/
structure HeaderFits (d : QsData) (len : Nat) : Prop where
  counts : 8 ≤ len
  numToggle : d.code 6 ≠ 0 → 9 ≤ len
  togstart : d.code 6 ≠ 0 → Toggles d → togstartOff d < len

theorem selectFrame_within :
    (∀ frametype, (selectFrame d frametype (framesOff d)).Within (QsAccess.InBounds len)) ↔ HeaderFits d len := by
  have htoggle := (@toggleFrame_spec d len).1
  have hrelease : (selectFrame d .irRelease (framesOff d)).Within (QsAccess.InBounds len) ↔
      5 < len ∧ 6 < len ∧ 7 < len := by
    simp only [selectFrame, within_bind, within_ite, within_pure, readCode_within, and_true, and_false,
      reduceCtorEq, if_false, implies_true]
  have hrepeat : (selectFrame d .irRepeat (framesOff d)).Within (QsAccess.InBounds len) ↔
      5 < len ∧ 6 < len ∧ (d.code 6 ≠ 0 → 8 < len ∧ (Toggles d → 7 < len ∧ togstartOff d < len)) ∧
        (¬ d.code 6 ≠ 0 → 7 < len) := by
    simp only [selectFrame, within_bind, within_ite, within_pure, readCode_within, readCode_value, and_true,
      and_false, reduceCtorEq, if_false, htoggle]
  have hstart : (selectFrame d .irStart (framesOff d)).Within (QsAccess.InBounds len) ↔
      5 < len ∧ (¬ d.code 5 ≠ 0 → 6 < len ∧ 7 < len) := by
    simp only [selectFrame, within_bind, within_ite, within_pure, readCode_within, readCode_value, and_true,
      and_false, reduceCtorEq, if_false, implies_true, true_and]
  constructor
  · intro hall
    obtain ⟨-, -, hseven⟩ := hrelease.mp (hall .irRelease)
    obtain ⟨-, -, hrep, -⟩ := hrepeat.mp (hall .irRepeat)
    constructor
    · exact hseven
    · exact fun hne => (hrep hne).1
    · exact fun hne htog => ((hrep hne).2 htog).2
  · intro hfits frametype
    have hcounts := hfits.counts
    cases frametype with
    | irStart => exact hstart.mpr ⟨by omega, fun _ => ⟨by omega, by omega⟩⟩
    | irRepeat =>
      refine hrepeat.mpr ⟨by omega, by omega, fun hne => ?_, fun _ => by omega⟩
      exact ⟨hfits.numToggle hne, fun htog => ⟨by omega, hfits.togstart hne htog⟩⟩
    | irRelease => exact hrelease.mpr ⟨by omega, by omega, by omega⟩

end Frames

/-! ### Databases -/

/-- All that a database has to meet: the header is copied, `Timing` has room for the times and the
times are copied, a carrier is known if a time is not zero, and the frames fit. -/
structure QsFits (clk : IrClock) (d : QsData) (len : Nat) : Prop extends HeaderFits d len where
  rows : (d.code 4).toNat ≤ 16
  times : d.code 4 ≠ 0 → framesOff d ≤ len
  carrier : carrierTick clk d = 0 → ∀ row < (d.code 4).toNat, rowAt d.code row = (0, 0)
  frames : ∀ frametype fr, frameOf d frametype = some fr →
    FrameFits d (timingOf clk d.code (carrierTick clk d) (d.code 4).toNat) len fr

instance (db : ZrcIrDataHead) : Decidable db.Fits := inferInstanceAs (Decidable (_ ∧ _))

/-- `qsInfo.carrierFreq` after `zrcIrInit`. -/
def initFreq (db : Nat → Byte) (carrierFreq : Nat) : Nat :=
  if HasCarrier db then 8000000 / carrierPeriod db else if db 0 &&& 1 = 0 then 100000 else carrierFreq

/-- What `qs_getIrData` works on for an accepted database that was copied to `buf`. -/
def loadedData (db buf : Nat → Byte) (carrierFreq : Nat) (toggle : BitVec 8) : QsData :=
  ⟨fun i => if i < 2 + (headOf db).codeLength.toNat then db i else buf i, initFreq db carrierFreq,
    nextToggle (headOf db) toggle⟩

section Database
variable {clk : IrClock} {d : QsData} {len : Nat}

theorem rowFits_iff {tick n : Nat} :
    (∀ row, 0 ≤ row → row < n → RowFits d.code tick len row) ↔
      n ≤ 16 ∧ (n ≠ 0 → irDataOff + n * 4 ≤ len) ∧ (tick = 0 → ∀ row < n, rowAt d.code row = (0, 0)) := by
  constructor
  · intro hall
    by_cases hn : n = 0
    · simp [hn]
    · have hlast := hall (n - 1) (Nat.zero_le _) (by omega)
      have hread := hlast.read
      have hindex := hlast.index
      exact ⟨by omega, fun _ => by omega, fun htick row hrow => (hall row (Nat.zero_le row) hrow).divide htick⟩
  · rintro ⟨hrows, htimes, hdivide⟩ row _ hrow
    have hread := htimes (by omega)
    exact ⟨by omega, by omega, fun htick => hdivide htick row hrow⟩

theorem readTick_value (clk : IrClock) (d : QsData) : (readTick clk d).value = carrierTick clk d := by
  unfold readTick carrierTick
  split_ifs
  · rfl
  · rfl

theorem readTick_within (clk : IrClock) (d : QsData) (len : Nat) :
    (readTick clk d).Within (QsAccess.InBounds len) := by
  unfold readTick
  split_ifs with hfreq
  · simpa [QsAccess.InBounds] using hfreq
  · simp

theorem frameOf_loopidx {frametype : IrFrameType} {fr : QsFrame} (h : frameOf d frametype = some fr) :
    fr.loopidx ≤ 255 := by
  have hbyte (i : Nat) : (d.code i).toNat ≤ 255 := Nat.le_of_lt_succ (d.code i).isLt
  cases frametype with
  | irStart =>
    simp only [frameOf, Option.ite_none_right_eq_some, Option.some.injEq] at h
    rw [← h.2]
    exact hbyte 5
  | irRepeat =>
    simp only [frameOf, Option.ite_none_right_eq_some, Option.some.injEq] at h
    rw [← h.2]
    unfold repeatFrame
    split_ifs
    · exact hbyte 6
    · exact hbyte 6
  | irRelease =>
    simp only [frameOf, Option.ite_none_right_eq_some, Option.some.injEq] at h
    rw [← h.2]
    exact hbyte 7

/-- One call of `qs_getIrData`. -/
theorem qsGetIrData_within (symbol : Nat → BitVec 16) (frametype : IrFrameType) :
    (qsGetIrData clk d symbol frametype).Within (QsAccess.InBounds len) ↔ 4 < len ∧
      (∀ row, 0 ≤ row → row < (d.code 4).toNat → RowFits d.code (carrierTick clk d) len row) ∧
      (selectFrame d frametype (framesOff d)).Within (QsAccess.InBounds len) ∧
      ∀ fr, frameOf d frametype = some fr →
        FrameFits d (timingOf clk d.code (carrierTick clk d) (d.code 4).toNat) len fr := by
  have hcount : (d.code 4).toNat ≤ 255 := Nat.le_of_lt_succ (d.code 4).isLt
  have hempty : timingOf clk d.code (carrierTick clk d) 0 = fun _ => (0, 0) := by
    funext row
    exact if_neg (Nat.not_lt_zero row)
  obtain ⟨hrows, htiming⟩ := @timingLoop_spec clk d (carrierTick clk d) (d.code 4).toNat 0 len
    256 (by decide) hcount (Nat.zero_le _)
  rw [hempty] at hrows htiming
  have hframe := selectFrame_value (d := d) frametype
  have hstart : irDataOff + (d.code 4).toNat * 4 = framesOff d := rfl
  have hzero : timingLoop clk d (carrierTick clk d) (d.code 4).toNat 256 0 (fun _ => (0, 0)) =
      timingLoop clk d (carrierTick clk d) (d.code 4).toNat 256 (BitVec.ofNat 8 0) (fun _ => (0, 0)) := rfl
  simp only [qsGetIrData, within_bind, readTick_within, readTick_value, readCode_within, readCode_value, hzero, hrows,
    htiming, hstart, hframe, true_and]
  refine and_congr_right fun _ => and_congr_right fun _ => and_congr_right fun _ => ?_
  cases hsel : frameOf d frametype with
  | none => simp
  | some fr =>
    have hloop := symbolLoop_within len 256 (by decide) (frameOf_loopidx hsel) (Nat.zero_le _)
      (symbolInv_start d (timingOf clk d.code (carrierTick clk d) (d.code 4).toNat) fr symbol)
    simp only [within_bind, within_pure, and_true, Option.some.injEq, forall_eq']
    exact hloop.trans (frameFits_iff len)

/-- The three frames of a database. -/
theorem qsGetIrData_fits :
    (∀ symbol frametype, (qsGetIrData clk d symbol frametype).Within (QsAccess.InBounds len)) ↔ QsFits clk d len := by
  simp only [qsGetIrData_within, rowFits_iff]
  constructor
  · intro hall
    have hone := (hall (fun _ => 0) .irStart).2.1
    constructor
    · exact selectFrame_within.mp fun frametype => (hall (fun _ => 0) frametype).2.2.1
    · exact hone.1
    · exact fun hne => hone.2.1 fun hzero => hne (BitVec.eq_of_toNat_eq hzero)
    · exact hone.2.2
    · exact fun frametype => (hall (fun _ => 0) frametype).2.2.2
  · intro hfits symbol frametype
    have hcounts := hfits.counts
    refine ⟨by omega, ⟨hfits.rows, fun hne => hfits.times fun hzero => hne ?_, hfits.carrier⟩,
      selectFrame_within.mpr hfits.toHeaderFits frametype, hfits.frames frametype⟩
    rw [hzero]
    rfl

theorem initCarrier_within (db : Nat → Byte) (carrierFreq : Nat) :
    (initCarrier db carrierFreq).Within (QsAccess.InBounds len) ↔ (HasCarrier db → carrierPeriod db ≠ 0) := by
  unfold initCarrier HasCarrier
  split_ifs with hspec hcarrier
  · simp only [within_bind, within_touch, within_pure, and_true]
    exact (imp_iff_right ⟨hspec, hcarrier⟩).symm
  · rw [within_pure]
    exact iff_of_true trivial fun hboth => absurd hboth.2 hcarrier
  · rw [within_pure]
    exact iff_of_true trivial fun hboth => absurd hboth.1 hspec

theorem zrcIrInitData_within (db : Nat → Byte) (got : Option (Nat → Byte)) (carrierFreq : Nat) (toggle : BitVec 8) :
    (zrcIrInitData db got carrierFreq toggle).Within (QsAccess.InBounds len) ↔
      (HasCarrier db → carrierPeriod db ≠ 0) := by
  rw [zrcIrInitData, within_bind, initCarrier_within]
  cases got with
  | none => simp
  | some buf =>
    dsimp only
    split_ifs
    · simp
    · simp

theorem zrcIrInitData_value (db buf : Nat → Byte) (carrierFreq : Nat) (toggle : BitVec 8) :
    (zrcIrInitData db (some buf) carrierFreq toggle).value =
      if (headOf db).Fits then some (loadedData db buf carrierFreq toggle) else none := by
  have hfreq : (initCarrier db carrierFreq).value = initFreq db carrierFreq := by
    unfold initCarrier initFreq HasCarrier
    by_cases hspec : db 0 &&& 1 = 0
    · simp only [hspec, true_and, if_true]
      split_ifs
      · rfl
      · rfl
    · simp only [hspec, false_and, if_false]
      rfl
  rw [zrcIrInitData, value_bind, hfreq]
  dsimp only
  by_cases hfit : (headOf db).Fits
  · have hboth : (headOf db).codeLength ≠ 0 ∧ 2 + (headOf db).codeLength.toNat ≤ largeBuffer := hfit
    rw [if_pos hfit, if_pos hboth]
    rfl
  · have hnone : ¬ ((headOf db).codeLength ≠ 0 ∧ 2 + (headOf db).codeLength.toNat ≤ largeBuffer) := hfit
    rw [if_neg hfit, if_neg hnone]
    rfl

end Database

/-- An accepted database stays in bounds: its initialisation and all calls for its three frames. -/
def QsInBounds (clk : IrClock) (db : Nat → Byte) (got : Option (Nat → Byte)) (carrierFreq : Nat)
    (toggle : BitVec 8) : Prop :=
  let len := 2 + (headOf db).codeLength.toNat
  (zrcIrInitData db got carrierFreq toggle).Within (QsAccess.InBounds len) ∧
    ∀ d, (zrcIrInitData db got carrierFreq toggle).value = some d →
      ∀ symbol frametype, (qsGetIrData clk d symbol frametype).Within (QsAccess.InBounds len)

/-- **Quickset decoding.** An accepted database stays in bounds if and only if its carrier period is
not zero where it is divided by and its counts fit the copied bytes and the two arrays. -/
theorem qsIr_inBounds_iff {clk : IrClock} {db buf : Nat → Byte} {carrierFreq : Nat} {toggle : BitVec 8}
    (h : (headOf db).Fits) :
    QsInBounds clk db (some buf) carrierFreq toggle ↔
      (HasCarrier db → carrierPeriod db ≠ 0) ∧
        QsFits clk (loadedData db buf carrierFreq toggle) (2 + (headOf db).codeLength.toNat) := by
  unfold QsInBounds
  dsimp only
  rw [zrcIrInitData_within, zrcIrInitData_value, if_pos h]
  simp only [Option.some.injEq, forall_eq', qsGetIrData_fits]

/-- The bytes of `volumnUp`. -/
def volumnUpCode : List Byte :=
  [0x00, 0x47, 0x03, 0x01, 0x06, 0x22, 0x4, 0x00, 0x00, 0x00, 0xD2, 0x00, 0x90, 0x00, 0xEB, 0x5D, 0x90, 0x00, 0x6C,
    0x26, 0xCA, 0x08, 0x65, 0x04, 0xCA, 0x08, 0x32, 0x02, 0x90, 0x00, 0xA6, 0x01, 0x90, 0x00, 0x8D, 0x00, 0x25, 0x55,
    0x54, 0x54, 0x54, 0x44, 0x45, 0x45, 0x45, 0x45, 0x54, 0x55, 0x54, 0x54, 0x45, 0x44, 0x41, 0x30, 0x30, 0x25, 0x54,
    0x54, 0x54, 0x44, 0x45, 0x45, 0x45, 0x45, 0x54, 0x55, 0x54, 0x54, 0x45, 0x44, 0x41, 0x25, 0x25]

/-- The database of the source is decoded in bounds. -/
theorem qsIr_inBounds_volumnUp :
    QsInBounds ⟨32000000, 32⟩ (fun i => volumnUpCode.getD i 0) (some fun _ => 0) 0 0 := by
  refine (qsIr_inBounds_iff (by decide)).mpr ⟨by decide, ⟨?_, ?_, ?_⟩, ?_, ?_, ?_, ?_⟩
  · decide +kernel
  · decide +kernel
  · decide +kernel
  · decide +kernel
  · decide +kernel
  · decide +kernel
  · intro frametype fr hfr
    cases frametype with
    | irStart =>
      obtain rfl : (⟨34, 36, 0, 0, 0, 0⟩ : QsFrame) = fr := Option.some.inj hfr
      exact ⟨by decide +kernel, by decide +kernel, by decide +kernel⟩
    | irRepeat =>
      obtain rfl : (⟨4, 53, 0, 0, 0, 0⟩ : QsFrame) = fr := Option.some.inj hfr
      exact ⟨by decide +kernel, by decide +kernel, by decide +kernel⟩
    | irRelease => exact absurd hfr (by simp [frameOf, loadedData, volumnUpCode])

/-- A database with a carrier whose bytes from offset 12 on are all 0x11. -/
def irDatabase (codeLength numTiming numPress carrierPeriod : Byte) : Nat → Byte := fun i =>
  ([0, codeLength, 3, 0, numTiming, numPress, 0, 0, 0, 0, carrierPeriod, 0] : List Byte).getD i 0x11

/-- Accepted databases with 17 times, with a press frame behind the 12 copied bytes, with 182 symbols
in the press frame, and with carrier period 0. -/
theorem qsIr_inBounds_fails :
    ¬ QsInBounds ⟨32000000, 32⟩ (irDatabase 100 17 1 210) (some fun _ => 0) 0 0 ∧
      ¬ QsInBounds ⟨32000000, 32⟩ (irDatabase 10 0 1 210) (some fun _ => 0) 0 0 ∧
      ¬ QsInBounds ⟨32000000, 32⟩ (irDatabase 100 2 91 210) (some fun _ => 0) 0 0 ∧
      ¬ QsInBounds ⟨32000000, 32⟩ (irDatabase 10 0 0 0) (some fun _ => 0) 0 0 := by
  constructor
  · intro h
    exact absurd (h.2 _ rfl (fun _ => 0) .irStart (.timing 16) (by decide +kernel)) (by decide)
  constructor
  · intro h
    exact absurd (h.2 _ rfl (fun _ => 0) .irStart (.read 12) (by decide +kernel)) (by decide)
  constructor
  · intro h
    exact absurd (h.2 _ rfl (fun _ => 0) .irStart (.symbol 180) (by decide +kernel)) (by decide)
  · intro h
    exact absurd (h.1 (.divide 0) (by decide +kernel)) (by decide)

end Rf4ce.App
