import Rf4ce.Crash.Bytes
import Mathlib.Logic.Function.Basic

/-! The pulse coding of `ir.c`: one mark/space pair for each bit, in 8-bit units or in DMA words, and
the frame that `ir_send_upd6121g` makes of an address and a command. -/
namespace Rf4ce.Drv
open Crash

/-! ### Bits as pairs -/

section Pairs
variable {α : Type}

/-- A mark and a space in the order that the format flag asks for. -/
def pulsePair (mark space : α) (fmls : Byte) : α × α := if fmls ≠ 0 then (mark, space) else (space, mark)

/-- The loop of the convert functions, `*p++` twice for each bit. -/
def convertBits (one zero : α × α) : Nat → BitVec 16 → Nat → (Nat → α) → Nat → α
  | 0, _, _, buf => buf
  | n + 1, data, p, buf =>
    let pair := if data &&& 0x0001 ≠ 0 then one else zero
    let buf := Function.update buf p pair.1
    let buf := Function.update buf (p + 1) pair.2
    convertBits one zero n (data >>> 1) (p + 2) buf

/-- The bit that a pair stands for. -/
def readPair [DecidableEq α] (one zero pair : α × α) : Option Nat :=
  if pair = one then some 1 else if pair = zero then some 0 else none

/-- `n` pairs from `p` on, least significant bit first. -/
def decodeBits [DecidableEq α] (one zero : α × α) (buf : Nat → α) : Nat → Nat → Option Nat
  | _, 0 => some 0
  | p, n + 1 => do
    let bit ← readPair one zero (buf p, buf (p + 1))
    let rest ← decodeBits one zero buf (p + 2) n
    pure (bit + 2 * rest)

variable {one zero : α × α}

theorem convertBits_outside {n p x : Nat} (hx : x < p ∨ p + 2 * n ≤ x) (data : BitVec 16) (buf : Nat → α) :
    convertBits one zero n data p buf x = buf x := by
  induction n generalizing p data buf with
  | zero => rfl
  | succ n ih =>
    rw [convertBits, ih (by omega), Function.update_of_ne (by omega), Function.update_of_ne (by omega)]

variable [DecidableEq α]

theorem decodeBits_congr {buf buf' : Nat → α} {n p : Nat} (h : ∀ x, p ≤ x → x < p + 2 * n → buf' x = buf x) :
    decodeBits one zero buf' p n = decodeBits one zero buf p n := by
  induction n generalizing p with
  | zero => rfl
  | succ n ih =>
    rw [decodeBits, decodeBits, h p (Nat.le_refl p) (by omega), h (p + 1) (by omega) (by omega)]
    rw [ih fun x h₁ h₂ => h x (by omega) (by omega)]

theorem lowBit_iff (data : BitVec 16) : data &&& 0x0001 ≠ 0 ↔ data.toNat % 2 = 1 := by
  have hand : (data &&& 0x0001).toNat = data.toNat % 2 := by
    rw [BitVec.toNat_and]
    exact Nat.and_one_is_mod _
  rw [ne_eq, ← BitVec.toNat_inj, hand]
  change ¬ data.toNat % 2 = 0 ↔ _
  omega

/-- The pairs decode to the low bits of the data. -/
theorem convertBits_decode (hne : one ≠ zero) (n : Nat) (data : BitVec 16) (p : Nat) (buf : Nat → α) :
    decodeBits one zero (convertBits one zero n data p buf) p n = some (data.toNat % 2 ^ n) := by
  induction n generalizing data p buf with
  | zero =>
    rw [pow_zero, Nat.mod_one]
    rfl
  | succ n ih =>
    have hshift : (data >>> 1).toNat = data.toNat / 2 := by
      rw [BitVec.toNat_ushiftRight, Nat.shiftRight_one]
    have hbits : data.toNat % 2 ^ (n + 1) = data.toNat % 2 + 2 * (data.toNat / 2 % 2 ^ n) := by
      rw [pow_succ, Nat.mul_comm, Nat.mod_mul]
    generalize hpair : (if data &&& 0x0001 ≠ 0 then one else zero) = pair
    have hread : readPair one zero pair = some (data.toNat % 2) := by
      by_cases hlow : data &&& 0x0001 ≠ 0
      · rw [if_pos hlow] at hpair
        rw [readPair, ← hpair, if_pos rfl, (lowBit_iff data).mp hlow]
      · rw [if_neg hlow] at hpair
        have hlow' := mt (lowBit_iff data).mpr hlow
        rw [readPair, ← hpair, if_neg hne.symm, if_pos rfl]
        congr 1
        omega
    rw [decodeBits, convertBits, hpair, ih, convertBits_outside (by omega), convertBits_outside (by omega),
      Function.update_of_ne (by omega), Function.update_self, Function.update_self, hread, hshift, hbits]
    rfl

end Pairs

/-! ### The convert functions -/

def irConvertByte (data : BitVec 16) (bitLen : Byte) (p : Nat) (oneMark oneSpace fmls1 zeroMark zeroSpace fmls0 : Byte)
    (buf : Nat → Byte) : Nat → Byte :=
  convertBits (pulsePair oneMark oneSpace fmls1) (pulsePair zeroMark zeroSpace fmls0) bitLen.toNat data p buf

/-- `drv_ir_dma_plus_config`: the DMA word for a number of carrier pulses with the carrier on or off. -/
abbrev PlusConfig := BitVec 16 → Byte → BitVec 16

/-- The pair of DMA words for a mark and a space given as times. -/
def dmaPair (plusConfig : PlusConfig) (mark space : BitVec 16) (fmls : Byte) (irCarrierCycleUs : BitVec 16) :
    BitVec 16 × BitVec 16 :=
  pulsePair (plusConfig (mark / irCarrierCycleUs) 1) (plusConfig (space / irCarrierCycleUs) 0) fmls

def irDmaConvertByte (plusConfig : PlusConfig) (data : BitVec 16) (bitLen : Byte) (p : Nat)
    (oneMark oneSpace : BitVec 16) (fmls1 : Byte) (zeroMark zeroSpace : BitVec 16) (fmls0 : Byte)
    (irCarrierCycleUs : BitVec 16) (buf : Nat → BitVec 16) : Nat → BitVec 16 :=
  convertBits (dmaPair plusConfig oneMark oneSpace fmls1 irCarrierCycleUs)
    (dmaPair plusConfig zeroMark zeroSpace fmls0 irCarrierCycleUs) bitLen.toNat data p buf

/-! ### The frame -/

def irBaseTime : Nat := 50
def necHdrMark : Nat := 9000
def necHdrSpace : Nat := 4500
def necBitMark : Nat := 560
def necOneSpace : Nat := 1600
def necZeroSpace : Nat := 560
def necRptSpace : Nat := 2250
def upd6121gCarrier : Nat := 38000
def pwmCarrierCycleUs : Nat := 1000000 / upd6121gCarrier

/-- The body of both variants: the buffer and `p - buf`. `convert` converts 8 bits at a position. -/
def upd6121gFrame {α : Type} (hdrMark hdrSpace rptSpace bitMark : α)
    (convert : BitVec 16 → Nat → (Nat → α) → Nat → α) (addr cmd : BitVec 16) (fRepeat : Byte) (buf : Nat → α) :
    (Nat → α) × Nat :=
  let firstAddr := (((addr &&& 0xff00) >>> 8).setWidth 8).setWidth 16
  let secondAddr := ((addr &&& 0x00ff).setWidth 8).setWidth 16
  let firstCmd := (((cmd &&& 0xff00) >>> 8).setWidth 8).setWidth 16
  let secondCmd := ((cmd &&& 0x00ff).setWidth 8).setWidth 16
  let buf := Function.update buf 0 hdrMark
  if fRepeat = 0 then
    let buf := Function.update buf 1 hdrSpace
    let buf := convert firstAddr 2 buf
    let buf := convert secondAddr 18 buf
    let buf := convert firstCmd 34 buf
    let buf := convert secondCmd 50 buf
    (Function.update buf 66 bitMark, 67)
  else
    let buf := Function.update buf 1 rptSpace
    (Function.update buf 2 bitMark, 3)

/-- A time in units of `IR_BASE_TIME`. -/
def irUnits (time : Nat) : Byte := BitVec.ofNat 8 (time / irBaseTime)

/-- `ir_send_upd6121g` without DMA, up to the call of `ir_send_raw`. -/
def irSendUpd6121g (addr cmd : BitVec 16) (fRepeat : Byte) (buf : Nat → Byte) : (Nat → Byte) × Nat :=
  let oneMark := irUnits necBitMark
  let oneSpace := irUnits necOneSpace
  let zeroMark := irUnits necBitMark
  let zeroSpace := irUnits necZeroSpace
  upd6121gFrame (irUnits necHdrMark) (irUnits necHdrSpace) (irUnits necRptSpace) oneMark
    (fun data p => irConvertByte data 8 p oneMark oneSpace 1 zeroMark zeroSpace 1) addr cmd fRepeat buf

/-- A time in carrier pulses. -/
def carrierPulses (time : Nat) : BitVec 16 := BitVec.ofNat 16 (time / pwmCarrierCycleUs)

/-- `ir_send_upd6121g` with `IR_DMA_FIFO_EN`, up to the call of `ir_dma_send_raw`. -/
def irDmaSendUpd6121g (plusConfig : PlusConfig) (addr cmd : BitVec 16) (fRepeat : Byte) (buf : Nat → BitVec 16) :
    (Nat → BitVec 16) × Nat :=
  upd6121gFrame (plusConfig (carrierPulses necHdrMark) 1) (plusConfig (carrierPulses necHdrSpace) 0)
    (plusConfig (carrierPulses necRptSpace) 0) (plusConfig (carrierPulses necBitMark) 1)
    (fun data p => irDmaConvertByte plusConfig data 8 p (BitVec.ofNat 16 necBitMark) (BitVec.ofNat 16 necOneSpace) 1
      (BitVec.ofNat 16 necBitMark) (BitVec.ofNat 16 necZeroSpace) 1 (BitVec.ofNat 16 pwmCarrierCycleUs))
    addr cmd fRepeat buf

/-! ### Decoding -/

section Decode
variable {α : Type} [DecidableEq α] {one zero : α × α}

/-- The four bytes behind the two entries of the header. -/
def decodeBytes (one zero : α × α) (buf : Nat → α) : Option (List Nat) :=
  [2, 18, 34, 50].mapM fun p => decodeBits one zero buf p 8

/-- The address and the command of a frame of 67 entries. -/
def decodeFrame (one zero : α × α) (frame : (Nat → α) × Nat) : Option (BitVec 16 × BitVec 16) :=
  if frame.2 ≠ 67 then none
  else
    match decodeBytes one zero frame.1 with
    | some [a₁, a₂, c₁, c₂] => some (BitVec.ofNat 16 (256 * a₁ + a₂), BitVec.ofNat 16 (256 * c₁ + c₂))
    | _ => none

/-- A frame of 67 entries that decodes to the bytes of `addr` and `cmd`, the high ones first. -/
structure Carries (one zero : α × α) (addr cmd : BitVec 16) (frame : (Nat → α) × Nat) : Prop where
  length : frame.2 = 67
  bytes : decodeBytes one zero frame.1 =
    some [addr.toNat / 256, addr.toNat % 256, cmd.toNat / 256, cmd.toNat % 256]
  decodes : decodeFrame one zero frame = some (addr, cmd)

theorem highByte_toNat (w : BitVec 16) :
    (((w &&& 0xff00) >>> 8).setWidth 8 : Byte).toNat = w.toNat / 256 := by
  have hw := w.isLt
  rw [BitVec.toNat_setWidth, BitVec.toNat_ushiftRight, BitVec.toNat_and]
  change (w.toNat &&& 0xff00) >>> 8 % 256 = _
  rw [Nat.shiftRight_and_distrib, Nat.shiftRight_eq_div_pow]
  change (w.toNat / 256 &&& 2 ^ 8 - 1) % 256 = _
  rw [Nat.and_two_pow_sub_one_eq_mod]
  omega

theorem lowByte_toNat (w : BitVec 16) : ((w &&& 0x00ff).setWidth 8 : Byte).toNat = w.toNat % 256 := by
  rw [BitVec.toNat_setWidth, BitVec.toNat_and]
  change (w.toNat &&& 2 ^ 8 - 1) % 2 ^ 8 = _
  rw [Nat.and_two_pow_sub_one_eq_mod, Nat.mod_mod]

theorem eq_of_bytes (w : BitVec 16) : BitVec.ofNat 16 (256 * (w.toNat / 256) + w.toNat % 256) = w := by
  rw [Nat.div_add_mod, BitVec.ofNat_toNat, BitVec.setWidth_eq]

/-- Four converted bytes and the entry behind them. -/
def writtenBytes (one zero : α × α) (stop : α) (a₁ a₂ c₁ c₂ : Byte) (buf : Nat → α) : Nat → α :=
  let buf := convertBits one zero 8 (a₁.setWidth 16) 2 buf
  let buf := convertBits one zero 8 (a₂.setWidth 16) 18 buf
  let buf := convertBits one zero 8 (c₁.setWidth 16) 34 buf
  let buf := convertBits one zero 8 (c₂.setWidth 16) 50 buf
  Function.update buf 66 stop

theorem decodeBytes_written (hne : one ≠ zero) (stop : α) (a₁ a₂ c₁ c₂ : Byte) (buf : Nat → α) :
    decodeBytes one zero (writtenBytes one zero stop a₁ a₂ c₁ c₂ buf) =
      some [a₁.toNat, a₂.toNat, c₁.toNat, c₂.toNat] := by
  have hbyte (b : Byte) (p : Nat) (buf : Nat → α) :
      decodeBits one zero (convertBits one zero 8 (b.setWidth 16) p buf) p 8 = some b.toNat := by
    have hb := b.isLt
    rw [convertBits_decode hne, BitVec.toNat_setWidth]
    congr 1
    omega
  -- a byte is still there when the entries behind it have been written
  have hkeep {p q n : Nat} (hq : p + 16 ≤ q) (data : BitVec 16) (buf : Nat → α) :
      decodeBits one zero (convertBits one zero n data q buf) p 8 = decodeBits one zero buf p 8 :=
    decodeBits_congr fun x _ hx => convertBits_outside (.inl (by omega)) data buf
  have hstop {p : Nat} (hp : p ≤ 50) (buf : Nat → α) :
      decodeBits one zero (Function.update buf 66 stop) p 8 = decodeBits one zero buf p 8 :=
    decodeBits_congr fun x _ hx => Function.update_of_ne (by omega) _ _
  have h₁ : decodeBits one zero (writtenBytes one zero stop a₁ a₂ c₁ c₂ buf) 2 8 = some a₁.toNat := by
    rw [writtenBytes, hstop (by omega), hkeep (by omega), hkeep (by omega), hkeep (by omega), hbyte]
  have h₂ : decodeBits one zero (writtenBytes one zero stop a₁ a₂ c₁ c₂ buf) 18 8 = some a₂.toNat := by
    rw [writtenBytes, hstop (by omega), hkeep (by omega), hkeep (by omega), hbyte]
  have h₃ : decodeBits one zero (writtenBytes one zero stop a₁ a₂ c₁ c₂ buf) 34 8 = some c₁.toNat := by
    rw [writtenBytes, hstop (by omega), hkeep (by omega), hbyte]
  have h₄ : decodeBits one zero (writtenBytes one zero stop a₁ a₂ c₁ c₂ buf) 50 8 = some c₂.toNat := by
    rw [writtenBytes, hstop (by omega), hbyte]
  simp only [decodeBytes, List.mapM_cons, List.mapM_nil, h₁, h₂, h₃, h₄]
  rfl

/-- The frame carries its address and command if the conversion tells the two bits apart. -/
theorem upd6121gFrame_carries (hne : one ≠ zero) (hdrMark hdrSpace rptSpace bitMark : α) (addr cmd : BitVec 16)
    (buf : Nat → α) : Carries one zero addr cmd
      (upd6121gFrame hdrMark hdrSpace rptSpace bitMark (convertBits one zero 8) addr cmd 0 buf) := by
  have hbytes := decodeBytes_written hne bitMark (((addr &&& 0xff00) >>> 8).setWidth 8) ((addr &&& 0x00ff).setWidth 8)
    (((cmd &&& 0xff00) >>> 8).setWidth 8) ((cmd &&& 0x00ff).setWidth 8)
    (Function.update (Function.update buf 0 hdrMark) 1 hdrSpace)
  rw [highByte_toNat, highByte_toNat, lowByte_toNat, lowByte_toNat] at hbytes
  have hframe : decodeBytes one zero
      (upd6121gFrame hdrMark hdrSpace rptSpace bitMark (convertBits one zero 8) addr cmd 0 buf).1 =
        some [addr.toNat / 256, addr.toNat % 256, cmd.toNat / 256, cmd.toNat % 256] := hbytes
  refine ⟨rfl, hframe, ?_⟩
  have hlen : (upd6121gFrame hdrMark hdrSpace rptSpace bitMark (convertBits one zero 8) addr cmd 0 buf).2 = 67 := rfl
  rw [decodeFrame, if_neg (not_not_intro hlen), hframe]
  dsimp only
  rw [eq_of_bytes, eq_of_bytes]

end Decode

/-! ### Round trip -/

/-- The convert functions have written pairs for the low bits of the data, and nothing else. -/
structure Converted {α : Type} [DecidableEq α] (one zero : α × α) (data : BitVec 16) (bitLen p : Nat)
    (buf buf' : Nat → α) : Prop where
  decodes : decodeBits one zero buf' p bitLen = some (data.toNat % 2 ^ bitLen)
  outside : ∀ x, x < p ∨ p + 2 * bitLen ≤ x → buf' x = buf x

/-- The configuration is injective on these pulse counts and levels. -/
def TellsApart (plusConfig : PlusConfig) (pulses : List (BitVec 16 × Byte)) : Prop :=
  ∀ a ∈ pulses, ∀ b ∈ pulses, plusConfig a.1 a.2 = plusConfig b.1 b.2 → a = b

instance (plusConfig : PlusConfig) (pulses : List (BitVec 16 × Byte)) : Decidable (TellsApart plusConfig pulses) :=
  let same (a b : BitVec 16 × Byte) : Prop := plusConfig a.1 a.2 = plusConfig b.1 b.2 → a = b
  have _decSame (a b : BitVec 16 × Byte) : Decidable (same a b) := inferInstance
  @List.decidableBAll _ (fun a => ∀ b ∈ pulses, same a b) (fun a => List.decidableBAll (same a) pulses) pulses

/-- The pulse counts and levels that a mark and a space stand for. -/
def pulses (mark space irCarrierCycleUs : BitVec 16) : List (BitVec 16 × Byte) :=
  [(mark / irCarrierCycleUs, 1), (space / irCarrierCycleUs, 0)]

/-- The pulses of a bit of a DMA frame, by its space. -/
def necPulses (space : Nat) : List (BitVec 16 × Byte) :=
  pulses (BitVec.ofNat 16 necBitMark) (BitVec.ofNat 16 space) (BitVec.ofNat 16 pwmCarrierCycleUs)

/-- The words of a bit of a DMA frame. -/
def necDmaPair (plusConfig : PlusConfig) (space : Nat) : BitVec 16 × BitVec 16 :=
  dmaPair plusConfig (BitVec.ofNat 16 necBitMark) (BitVec.ofNat 16 space) 1 (BitVec.ofNat 16 pwmCarrierCycleUs)

/-- The counts and levels of a bit in the order of its format flag. -/
def levelPair (mark space : BitVec 16) (fmls : Byte) (irCarrierCycleUs : BitVec 16) :
    (BitVec 16 × Byte) × (BitVec 16 × Byte) :=
  pulsePair (mark / irCarrierCycleUs, 1) (space / irCarrierCycleUs, 0) fmls

/-- The configuration in the header files of the chips: the level in the top bit, 14 bits of count. -/
def pwmConfigDmaFifoWaveform (pulseNum : BitVec 16) (carrierEn : Byte) : BitVec 16 :=
  carrierEn.setWidth 16 <<< 15 ||| (pulseNum &&& 0x3fff)

section RoundTrip
variable {plusConfig : PlusConfig}

theorem levelPair_mem (mark space : BitVec 16) (fmls : Byte) (cycle : BitVec 16) :
    (levelPair mark space fmls cycle).1 ∈ pulses mark space cycle ∧
      (levelPair mark space fmls cycle).2 ∈ pulses mark space cycle := by
  unfold levelPair pulsePair pulses
  split_ifs <;> simp

theorem dmaPair_eq (mark space : BitVec 16) (fmls : Byte) (cycle : BitVec 16) :
    dmaPair plusConfig mark space fmls cycle =
      (plusConfig (levelPair mark space fmls cycle).1.1 (levelPair mark space fmls cycle).1.2,
        plusConfig (levelPair mark space fmls cycle).2.1 (levelPair mark space fmls cycle).2.2) := by
  unfold dmaPair levelPair pulsePair
  split_ifs <;> rfl

/-- Different pulses make different words. -/
theorem dmaPair_ne {oneMark oneSpace zeroMark zeroSpace cycle : BitVec 16} {fmls1 fmls0 : Byte}
    (hapart : TellsApart plusConfig (pulses oneMark oneSpace cycle ++ pulses zeroMark zeroSpace cycle))
    (hne : levelPair oneMark oneSpace fmls1 cycle ≠ levelPair zeroMark zeroSpace fmls0 cycle) :
    dmaPair plusConfig oneMark oneSpace fmls1 cycle ≠ dmaPair plusConfig zeroMark zeroSpace fmls0 cycle := by
  obtain ⟨hone₁, hone₂⟩ := levelPair_mem oneMark oneSpace fmls1 cycle
  obtain ⟨hzero₁, hzero₂⟩ := levelPair_mem zeroMark zeroSpace fmls0 cycle
  rw [dmaPair_eq, dmaPair_eq]
  intro heq
  obtain ⟨heq₁, heq₂⟩ := Prod.mk.inj heq
  apply hne
  apply Prod.ext
  · exact hapart _ (List.mem_append_left _ hone₁) _ (List.mem_append_right _ hzero₁) heq₁
  · exact hapart _ (List.mem_append_left _ hone₂) _ (List.mem_append_right _ hzero₂) heq₂

theorem convertBits_converted {α : Type} [DecidableEq α] {one zero : α × α} (hne : one ≠ zero) (data : BitVec 16)
    (bitLen p : Nat) (buf : Nat → α) :
    Converted one zero data bitLen p buf (convertBits one zero bitLen data p buf) :=
  ⟨convertBits_decode hne bitLen data p buf, fun _ hx => convertBits_outside hx data buf⟩

end RoundTrip

/-- What both encoders write is read back: the frames of `ir_send_upd6121g`, and any data through the
convert functions. -/
theorem irPulse_roundTrip (plusConfig : PlusConfig) :
    (∀ addr cmd buf, Carries (irUnits necBitMark, irUnits necOneSpace) (irUnits necBitMark, irUnits necZeroSpace)
      addr cmd (irSendUpd6121g addr cmd 0 buf)) ∧
    (TellsApart plusConfig (necPulses necOneSpace ++ necPulses necZeroSpace) → ∀ addr cmd buf,
      Carries (necDmaPair plusConfig necOneSpace) (necDmaPair plusConfig necZeroSpace) addr cmd
        (irDmaSendUpd6121g plusConfig addr cmd 0 buf)) ∧
    (∀ data bitLen p oneMark oneSpace fmls1 zeroMark zeroSpace fmls0 buf,
      pulsePair oneMark oneSpace fmls1 ≠ pulsePair zeroMark zeroSpace fmls0 →
      Converted (pulsePair oneMark oneSpace fmls1) (pulsePair zeroMark zeroSpace fmls0) data bitLen.toNat p buf
        (irConvertByte data bitLen p oneMark oneSpace fmls1 zeroMark zeroSpace fmls0 buf)) ∧
    (∀ data bitLen p oneMark oneSpace fmls1 zeroMark zeroSpace fmls0 cycle buf,
      TellsApart plusConfig (pulses oneMark oneSpace cycle ++ pulses zeroMark zeroSpace cycle) →
      levelPair oneMark oneSpace fmls1 cycle ≠ levelPair zeroMark zeroSpace fmls0 cycle →
      Converted (dmaPair plusConfig oneMark oneSpace fmls1 cycle) (dmaPair plusConfig zeroMark zeroSpace fmls0 cycle)
        data bitLen.toNat p buf
        (irDmaConvertByte plusConfig data bitLen p oneMark oneSpace fmls1 zeroMark zeroSpace fmls0 cycle buf)) := by
  constructor
  · intro addr cmd buf
    have hne : (irUnits necBitMark, irUnits necOneSpace) ≠ (irUnits necBitMark, irUnits necZeroSpace) := by decide
    exact upd6121gFrame_carries hne _ _ (irUnits necRptSpace) _ addr cmd buf
  constructor
  · intro hapart addr cmd buf
    exact upd6121gFrame_carries (dmaPair_ne hapart (by decide)) _ _ (plusConfig (carrierPulses necRptSpace) 0) _
      addr cmd buf
  constructor
  · intro data bitLen p oneMark oneSpace fmls1 zeroMark zeroSpace fmls0 buf hne
    exact convertBits_converted hne data bitLen.toNat p buf
  · intro data bitLen p oneMark oneSpace fmls1 zeroMark zeroSpace fmls0 cycle buf hapart hne
    exact convertBits_converted (dmaPair_ne hapart hne) data bitLen.toNat p buf

/-- With the configuration of the chips. -/
theorem irPulse_roundTrip_pwm :
    Carries (necDmaPair pwmConfigDmaFifoWaveform necOneSpace) (necDmaPair pwmConfigDmaFifoWaveform necZeroSpace)
      0x1234 0x5678 (irDmaSendUpd6121g pwmConfigDmaFifoWaveform 0x1234 0x5678 0 fun _ => 0) :=
  (irPulse_roundTrip pwmConfigDmaFifoWaveform).2.1 (by decide) 0x1234 0x5678 _

end Rf4ce.Drv
