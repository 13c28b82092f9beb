import Rf4ce.Ota.Types

/-! `ota_DataProcess`: the header of an upgrade file is read byte by byte, the rest is
programmed and summed. -/
namespace Rf4ce.Ota
open Crash Drv Common Os

/-- The globals that `ota_DataProcess` works on. -/
structure Transfer where
  rcOtaInfo : OtaPreamble
  otaState : OtaState
  otaHeadercnt : Nat
  otaHeadersize : Nat
  mcuBootAddr : Nat
  crcValue : U32
  flashOffsetAddr : Nat
deriving DecidableEq, Repr

/-- One header byte at index `i`; the fields look ahead in `pData`. True at the header's end. -/
def otaHeaderByte (pData : Nat → Byte) (i : Nat) (t : Transfer) : Transfer × Bool :=
  if t.otaHeadercnt = otaHeadLength then ({ t with otaHeadersize := ofLe (bytes pData i 2) }, false)
  else if t.otaHeadercnt = otaHeadMauncode then
    ({ t with rcOtaInfo.manufaurerCode := ofLe (bytes pData i 2) }, false)
  else if t.otaHeadercnt = otaHeadImagetype then
    ({ t with rcOtaInfo.chipType := ofLe (bytes pData i 2) }, false)
  else if t.otaHeadercnt = otaHeadFilever then
    ({ t with rcOtaInfo.fileVer := ofLe (bytes pData i 4) }, false)
  else if t.otaHeadercnt = t.otaHeadersize ∧ t.otaHeadersize ≠ 0 then
    ({ t with otaState := .dataing }, true)
  else (t, false)

/-- The header loop with `n` bytes left from index `i` on; also the index after it, an `u8`. -/
def otaHeaderLoop (pData : Nat → Byte) : Nat → Nat → Transfer → Nat × Transfer
  | 0, i, t => (i, t)
  | n + 1, i, t =>
    let r := otaHeaderByte pData i t
    if r.2 then ((i + 6) % 256, { r.1 with otaHeadercnt := u32 (r.1.otaHeadercnt + 6) })
    else otaHeaderLoop pData n (i + 1) { r.1 with otaHeadercnt := u32 (r.1.otaHeadercnt + 1) }

/-- How many of `datalen` new bytes are summed: not those of the image's own CRC. -/
def otaCrcLen (imageSize headerbuf headercnt datalen : Nat) : Nat :=
  if u32Sub imageSize 4 < headercnt then
    if u32Sub imageSize 4 < headerbuf then 0
    else
      let offset := u32Sub headercnt (u32Sub imageSize 4) % 65536
      if offset < datalen then datalen - offset else 0
  else datalen

/-- The `u8` that holds `len - i`. -/
def otaDataLen (len i : Nat) : Nat := (len + 256 - i) % 256

/-- The keyword byte lies in this chunk. -/
def KeywordHere (mcu : Mcu) (len i : Nat) (t : Transfer) : Prop :=
  t.flashOffsetAddr ≤ mcu.keywordAddrOffset ∧
    mcu.keywordAddrOffset < otaDataLen len i + t.flashOffsetAddr ∧ 0 < otaDataLen len i

instance (mcu : Mcu) (len i : Nat) (t : Transfer) : Decidable (KeywordHere mcu len i t) :=
  inferInstanceAs (Decidable (_ ∧ _))

/-- The chunk from index `i` on, with `b` for the keyword byte when that lies in it. -/
def withKeyword (mcu : Mcu) (b : Byte) (len i : Nat) (pData : Nat → Byte) (t : Transfer) : Nat → Byte :=
  if KeywordHere mcu len i t then Function.update pData (i + mcu.keywordAddrOffset - t.flashOffsetAddr) b
  else pData

def otaProgramAddr (t : Transfer) : Nat := u32 (otaBaseAddr t.mcuBootAddr + t.flashOffsetAddr)

/-- The bytes that go to the flash, without the keyword. -/
def otaProgramData (mcu : Mcu) (len i : Nat) (pData : Nat → Byte) (t : Transfer) : List Byte :=
  bytes (withKeyword mcu 0xff len i pData t) i (otaDataLen len i)

/-- The bytes that are summed, with `TL_IMAGE_START_FLAG` for the keyword. -/
def otaSumData (mcu : Mcu) (len i : Nat) (pData : Nat → Byte) (t : Transfer) : List Byte :=
  bytes (withKeyword mcu tlImageStartFlag len i pData t) i
    (otaCrcLen t.rcOtaInfo.imageSize t.otaHeadercnt (u32 (t.otaHeadercnt + otaDataLen len i)) (otaDataLen len i))

/-- The globals after a chunk from index `i` on. -/
def otaCounted (mcu : Mcu) (len i : Nat) (pData : Nat → Byte) (t : Transfer) : Transfer :=
  { t with
    otaHeadercnt := u32 (t.otaHeadercnt + otaDataLen len i)
    flashOffsetAddr := u32 (t.flashOffsetAddr + otaDataLen len i)
    crcValue := xcrc32 (otaSumData mcu len i pData t) t.crcValue }

/-- The `OTA_STA_DATAING` part of `ota_DataProcess`, for the bytes from index `i` on. -/
def otaProgram (mcu : Mcu) (len i : Nat) (pData : Nat → Byte) (t : Transfer) : OtaM (Bool × Transfer) :=
  if len = 0 then pure (true, t)
  else do
    let sta ← onFlash (flashWriteWithCheck (otaProgramAddr t) (otaProgramData mcu len i pData t))
    pure (sta, otaCounted mcu len i pData t)

/-- `ota_DataProcess`; the result is false when the programmed bytes do not read back. -/
def otaDataProcess (mcu : Mcu) (len : Byte) (pData : Nat → Byte) (t : Transfer) : OtaM (Bool × Transfer) :=
  match t.otaState with
  | .starting =>
    let r := otaHeaderLoop pData len.toNat 0 t
    if r.2.otaState = .dataing then do
      issue (.setState .dataing)
      otaProgram mcu len.toNat r.1 pData r.2
    else pure (true, r.2)
  | .dataing => otaProgram mcu len.toNat 0 pData t
  | _ => pure (true, t)

/-- The flash can take the bytes from index `i` on. -/
def WriteFits (mcu : Mcu) (len i : Nat) (pData : Nat → Byte) (t : Transfer) (f : Flash) : Prop :=
  len ≠ 0 → Programmable (bytes f (otaProgramAddr t) (otaDataLen len i)) (otaProgramData mcu len i pData t)

/-- The flash can take what the chunk programs. -/
def ChunkFits (mcu : Mcu) (len : Byte) (pData : Nat → Byte) (t : Transfer) (f : Flash) : Prop :=
  match t.otaState with
  | .starting =>
    let r := otaHeaderLoop pData len.toNat 0 t
    r.2.otaState = .dataing → WriteFits mcu len.toNat r.1 pData r.2 f
  | .dataing => WriteFits mcu len.toNat 0 pData t f
  | _ => True

theorem otaHeaderByte_frame (pData : Nat → Byte) (i : Nat) (t : Transfer) :
    (otaHeaderByte pData i t).1.rcOtaInfo.imageSize = t.rcOtaInfo.imageSize ∧
      (otaHeaderByte pData i t).1.otaHeadercnt = t.otaHeadercnt ∧
      (otaHeaderByte pData i t).1.mcuBootAddr = t.mcuBootAddr ∧
      (otaHeaderByte pData i t).1.crcValue = t.crcValue ∧
      (otaHeaderByte pData i t).1.flashOffsetAddr = t.flashOffsetAddr := by
  unfold otaHeaderByte
  split_ifs <;> exact ⟨rfl, rfl, rfl, rfl, rfl⟩

/-- The loop goes on in `OTA_STA_STARTING` until the count has reached the header size. -/
theorem otaHeaderByte_done (pData : Nat → Byte) (i : Nat) (t : Transfer) :
    ((otaHeaderByte pData i t).2 = true → (otaHeaderByte pData i t).1.otaState = .dataing ∧
      t.otaHeadercnt = (otaHeaderByte pData i t).1.otaHeadersize) ∧
    ((otaHeaderByte pData i t).2 = false → (otaHeaderByte pData i t).1.otaState = t.otaState) := by
  unfold otaHeaderByte
  split_ifs with h₁ h₂ h₃ h₄ h₅
  · simp
  · simp
  · simp
  · simp
  · simp [h₅.1]
  · simp

theorem otaProgramData_length (mcu : Mcu) (len i : Nat) (pData : Nat → Byte) (t : Transfer) :
    (otaProgramData mcu len i pData t).length = otaDataLen len i := bytes_length _ _ _

theorem otaProgram_value {mcu : Mcu} {len i : Nat} {pData : Nat → Byte} {t : Transfer} {f : Flash} :
    ((otaProgram mcu len i pData t).value f).1 = true ↔ WriteFits mcu len i pData t f := by
  unfold otaProgram WriteFits
  by_cases hlen : len = 0
  · simp [hlen, Prog.value, pure]
  · have hval : (flashWriteWithCheck (otaProgramAddr t) (otaProgramData mcu len i pData t)).value f = true ↔
        Programmable (bytes f (otaProgramAddr t) (otaDataLen len i)) (otaProgramData mcu len i pData t) := by
      have hdata := otaProgramData_length mcu len i pData t
      have hshort : otaDataLen len i < 256 := Nat.mod_lt _ (by decide)
      have hlen : (otaProgramData mcu len i pData t).length < 2 ^ 31 := by omega
      rw [flashWriteWithCheck_value _ hlen, hdata, decide_eq_true_iff]
    rw [if_neg hlen, ← hval]
    exact ⟨fun h _ => h, fun h => h hlen⟩

end Rf4ce.Ota
