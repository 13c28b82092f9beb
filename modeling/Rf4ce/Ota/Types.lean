import Rf4ce.Drv.Flash
import Rf4ce.Common.Crc
import Rf4ce.Os.TimerEvent

/-! Formats and constants of `tl_specific_data_ota.h`, and the actions of an OTA party. -/
namespace Rf4ce.Ota
open Crash Drv Common Os

inductive Mcu where
  | mcu826x | mcu8258 | mcu8278 | b92 | tl321x
deriving DecidableEq, Repr

/-- `FLASH_TLNK_FLAG_OFFSET` of `nv.h` -/
def Mcu.flashTlnkFlagOffset : Mcu → Nat
  | .tl321x => 32
  | _ => 8

/-- `OTA_TLNK_KEYWORD_ADDROFFSET` -/
def Mcu.keywordAddrOffset : Mcu → Nat
  | .b92 | .tl321x => 0x20
  | _ => 8

/-- Build constants of a device. -/
structure OtaCfg where
  mcu : Mcu
  /-- `TELINK_MANUFACTURER_CODE` -/
  manufacturerCode : Nat
  chipId : Nat
  firmwareVersion : Nat
  /-- `S_TIMER_CLOCK_1US` -/
  clock1us : U32

/-- The remote of `rc_info.h` with an 8258 at 16 MHz. -/
def cfg8258 : OtaCfg := ⟨.mcu8258, 0x1141, 0x8258, 0x01000106, 16⟩

def startreqRetrycnt : Nat := 5
def datareqRetrycnt : Nat := 5
def startreqTimeUs : U32 := 1000000
def datatryTimeUs : U32 := 1000000
def stopreqTimeUs : U32 := 100000
def callbackTimeUs : U32 := 500000
def otaFramesize : Nat := 0x30
def otaUpgradeFileId : Nat := 0x0BEEF11E

def firmwareLengthAddr : Nat := 0x18
def firmwarecrcLength : Nat := 4
def tlStartUpFlagWhole : Nat := 0x544c4e4b
def tlImageStartFlag : Byte := 0x4b

/-- `FLASH_OTA_NEWIMAGE_ADDR` and `FLASH_ADDR_OF_OTA_IMAGE` -/
def flashOtaNewimageAddr : Nat := 0x40000
def otaMaxImageSize : Nat := 0x30000

/-- `tl_otaHeaderLocation_e` -/
def otaHeadLength : Nat := 0x06
def otaHeadMauncode : Nat := 0x0a
def otaHeadImagetype : Nat := 0x0c
def otaHeadFilever : Nat := 0x0e

/-- `tl_otaState_e` -/
inductive OtaState where
  | success | failed | starting | dataing | finished
deriving DecidableEq, Repr

/-- The fields by which an image is recognised. -/
structure OtaIdent where
  fileVer : Nat
  chipType : Nat
  manufaurerCode : Nat
deriving DecidableEq, Repr

/-- `ota_preamble_t`: in data messages `imageSize` carries the chunk number. -/
structure OtaPreamble extends OtaIdent where
  imageSize : Nat
deriving DecidableEq, Repr

/-- `ota_dataFrame_t`: `payload` is the memory that follows, of which `payloadSize` bytes
belong to the message. -/
structure OtaDataFrame extends OtaPreamble where
  payloadSize : Byte
  payload : Nat → Byte

/-- The messages with `g_tlAppDataSeqNo` of their sender. -/
inductive OtaReq where
  | startReq (seqNo : Byte) (req : OtaIdent)
  | stopReq (seqNo : Byte) (req : OtaIdent)
  | dataReq (seqNo : Byte) (req : OtaPreamble)
deriving DecidableEq, Repr

/-- Callbacks in `evTimer_list`; `other` stands for those of other modules. -/
inductive EvCb where
  | otaStartReqCb | otaDataTryReqCb | otaStopRspCb | otaCallBackRestore
  | appSendRepeateDataTimerCb
  | other (k : Nat)
deriving DecidableEq, Repr

/-- What an OTA client does: flash operations, messages, assignments of `ota_state`, and
calls of `otaCb`. -/
inductive OtaOp where
  | flash (op : FlashOp)
  | send (msg : OtaReq)
  | setState (s : OtaState)
  | otaCb (status : OtaState)
deriving DecidableEq, Repr

def OtaOp.apply (f : Flash) : OtaOp → Flash
  | .flash op => op.apply f
  | _ => f

def OtaOp.foot : OtaOp → Nat → Prop
  | .flash op, x => op.foot x
  | _, _ => False

instance : Device OtaOp Nat Byte where
  apply := OtaOp.apply
  foot := OtaOp.foot
  apply_outside := by
    intro f op x hx
    cases op with
    | flash op =>
      have hop : ¬ Device.foot op x := hx
      exact Device.apply_outside hop
    | _ => rfl

abbrev OtaM := Prog OtaOp

/-- A flash access among the other actions. -/
def onFlash {α : Type} (m : FlashM α) : OtaM α := fun f =>
  let r := m f
  (r.1, r.2.map OtaOp.flash)

theorem run_map_flash (f : Flash) (ops : List FlashOp) :
    run f (ops.map OtaOp.flash) = run f ops := by
  induction ops generalizing f with
  | nil => rfl
  | cons op ops ih => exact ih _

@[simp] theorem onFlash_value {α : Type} (m : FlashM α) (f : Flash) :
    (onFlash m).value f = m.value f := rfl

@[simp] theorem onFlash_ops {α : Type} (m : FlashM α) (f : Flash) :
    (onFlash m).ops f = (m.ops f).map OtaOp.flash := rfl

@[simp] theorem onFlash_final {α : Type} (m : FlashM α) (f : Flash) :
    (onFlash m).final f = m.final f := run_map_flash f _

theorem wp_onFlash {α : Type} {R : Nat → Prop} {m : FlashM α} {Q : α → Flash → Prop} {C : Flash → Prop}
    {f : Flash} (h : wp R m Q C f) : wp R (onFlash m) Q C f := by
  refine ⟨?_, ?_, ?_⟩
  · intro op hop x hx
    rw [onFlash_ops] at hop
    obtain ⟨o, ho, rfl⟩ := List.mem_map.mp hop
    exact h.1 o ho x hx
  · rw [onFlash_value, onFlash_final]
    exact h.2.1
  · rintro t ⟨ops, hpre, rfl⟩
    rw [onFlash_ops] at hpre
    rw [List.prefix_iff_eq_take.mp hpre, ← List.map_take, run_map_flash]
    exact h.2.2 _ ⟨_, List.take_prefix _ _, rfl⟩

/-! ### Boot bank -/

/-- `mcuBootAddrGet` -/
def mcuBootAddrGet (mcu : Mcu) (f : Flash) : Nat :=
  if ofLe (flashRead f mcu.flashTlnkFlagOffset 4) = tlStartUpFlagWhole then 0
  else if ofLe (flashRead f (flashOtaNewimageAddr + mcu.flashTlnkFlagOffset) 4) = tlStartUpFlagWhole then
    flashOtaNewimageAddr
  else 0xFFFFFFFF

/-- The global `mcuBootAddr`, an `u8`, as `ota_initInfo` sets it. -/
def mcuBootAddrByte (mcu : Mcu) (f : Flash) : Nat := mcuBootAddrGet mcu f % 256

/-- The bank for the new image, by the global `mcuBootAddr`. -/
def otaBaseAddr (mcuBootAddr : Nat) : Nat := if mcuBootAddr ≠ 0 then 0 else flashOtaNewimageAddr

end Rf4ce.Ota
