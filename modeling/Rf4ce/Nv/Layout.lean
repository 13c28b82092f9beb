import Rf4ce.Drv.Flash
import Rf4ce.Common.Crc

/-! Flash layout and record formats of `nv.h`. -/
namespace Rf4ce.Nv
open Crash Drv Common

/-- The build options the layout depends on. -/
structure NvCfg where
  /-- `FLASH_CAP_SIZE_1M` -/
  flashCap1M : Bool
  /-- `MCU_CORE_B92` or `MCU_CORE_TL321X`: `nv_info_idx_t` ends with `resv[8]` -/
  idxResv : Bool
deriving DecidableEq, Repr

/-- `(n + 3) & ~3` -/
def alignUp4 (n : Nat) : Nat := u32 (n + 3) / 4 * 4

def dsNwkFramecountModule : Nat := 5
def dsIrLearnModule : Nat := 6
def dsMaxModuls : Nat := 7

def nvSectorValid : Nat := 0x5a5a
def nvSectorValidCheckcrc : Nat := 0x7a7a
def nvSectorValidReadyCheckcrc : Nat := 0xfafa
def nvSectorInvalid : Nat := 0x5050

def itemFieldValid : Byte := 0x5a
def itemFieldValidSingle : Byte := 0x7a
def itemFieldInvalid : Byte := 0x50
def itemFieldOperation : Byte := 0xfa
def itemFieldIdle : Byte := 0xff

def itemHdrFieldValidChecksum : Byte := 0x5a
def itemHdrFieldValidCheckcrc : Byte := 0x7a

inductive NvSts where
  | succ | invalidModuls | invalidId | itemNotFound | notEnoughSapce | itemLenNotMatch
  | checkSumError | enableProtectError | noMedia | dataCheckError | itemCheckError
  | moduleNotFound | moduleEraseNeed | notPermit
deriving DecidableEq, Repr

structure NvSectInfo where
  usedFlag : Nat
  idName : Byte
  /-- CRC check bits (6) and sector sequence number (2) -/
  opSect : Byte
deriving DecidableEq, Repr, Inhabited

structure NvInfoIdx where
  offset : Nat
  size : Nat
  itemId : Byte
  usedState : Byte
  /-- empty in the 8-byte layout -/
  resv : List Byte
deriving DecidableEq, Repr, Inhabited

structure ItemHdr where
  checkSum : BitVec 32
  size : Nat
  itemId : Byte
  used : Byte
deriving DecidableEq, Repr, Inhabited

def NvSectInfo.encode (s : NvSectInfo) : List Byte := le16 s.usedFlag ++ [s.idName, s.opSect]

def NvSectInfo.decode (l : List Byte) : NvSectInfo where
  usedFlag := ofLe (l.take 2)
  idName := l.getD 2 0
  opSect := l.getD 3 0

def NvInfoIdx.encode (i : NvInfoIdx) : List Byte :=
  le32 i.offset ++ le16 i.size ++ [i.itemId, i.usedState] ++ i.resv

def NvInfoIdx.decode (l : List Byte) : NvInfoIdx where
  offset := ofLe (l.take 4)
  size := ofLe ((l.drop 4).take 2)
  itemId := l.getD 6 0
  usedState := l.getD 7 0
  resv := l.drop 8

def ItemHdr.encode (h : ItemHdr) : List Byte :=
  le32 h.checkSum.toNat ++ le16 h.size ++ [h.itemId, h.used]

def ItemHdr.decode (l : List Byte) : ItemHdr where
  checkSum := BitVec.ofNat 32 (ofLe (l.take 4))
  size := ofLe ((l.drop 4).take 2)
  itemId := l.getD 6 0
  used := l.getD 7 0

def sizeofNvSectInfo : Nat := 4

def sizeofNvInfoIdx (c : NvCfg) : Nat := if c.idxResv then 16 else 8

def sizeofItemHdr : Nat := 8

/-- `OFFSETOF(nv_info_idx_t, usedState)` -/
def staOffset : Nat := 7

section Layout
variable (c : NvCfg) (id : Nat)

def modulesStartAddr : Nat :=
  if c.flashCap1M then 0x80000 + flashSectorSize * (2 * id)
  else if id < 6 then 0x34000 + flashSectorSize * (2 * id)
  else 0x78000 + flashSectorSize * (2 * (id - 6))

def nvSectorSize : Nat :=
  if id = dsIrLearnModule then flashSectorSize * 4 else flashSectorSize

def moduleInfoSize : Nat :=
  if id = dsIrLearnModule then flashPageSize * 2 else flashPageSize

def moduleSectorNum : Nat := 2

def moduleSectStart (sectNo : Nat) : Nat := modulesStartAddr c id + sectNo * nvSectorSize id

def moduleSectEnd (sectNo : Nat) : Nat := modulesStartAddr c id + (sectNo + 1) * nvSectorSize id

def moduleIdxStart (sectNo : Nat) : Nat := moduleSectStart c id sectNo + sizeofNvSectInfo

def moduleIdxNum : Nat := (moduleInfoSize id - sizeofNvSectInfo) / sizeofNvInfoIdx c

def moduleContextStart (sectNo : Nat) : Nat := moduleSectStart c id sectNo + moduleInfoSize id

/-- The address of the index entry `opIdx`. -/
def idxAddr (sectNo opIdx : Nat) : Nat := moduleIdxStart c id sectNo + opIdx * sizeofNvInfoIdx c

end Layout

def itemTotalLen (len : Nat) : Nat := len + sizeofItemHdr

def sectValidCheck (s : NvSectInfo) : Bool :=
  s.usedFlag = nvSectorValid || s.usedFlag = nvSectorValidCheckcrc

def itemValidFlagCheck (v : Byte) : Bool := v = itemFieldValid || v = itemFieldValidSingle

def itemFlagCheck (v : Byte) : Bool :=
  v = itemFieldValid || v = itemFieldValidSingle || v = itemFieldInvalid || v = itemFieldOperation

def itemOftCheck (c : NvCfg) (oft size id sec : Nat) : Bool :=
  (moduleContextStart c id sec ≤ oft && oft < moduleSectEnd c id sec) &&
    size ≤ moduleSectEnd c id sec - oft

def itemHdrValidCheck (v : Byte) : Bool :=
  v = itemHdrFieldValidChecksum || v = itemHdrFieldValidCheckcrc

def nvItemlenMatch (len unitLen : Nat) : Bool := len % unitLen = 0

def readSectInfo (f : Flash) (addr : Nat) : NvSectInfo :=
  .decode (flashRead f addr sizeofNvSectInfo)

def readInfoIdx (c : NvCfg) (f : Flash) (addr : Nat) : NvInfoIdx :=
  .decode (flashRead f addr (sizeofNvInfoIdx c))

def readItemHdr (f : Flash) (addr : Nat) : ItemHdr := .decode (flashRead f addr sizeofItemHdr)

/-- An array of index entries read in one go. -/
def readInfoIdxs (c : NvCfg) (f : Flash) (addr n : Nat) : List NvInfoIdx :=
  (List.range n).map fun i => readInfoIdx c f (addr + i * sizeofNvInfoIdx c)

/-- CRC over all bytes of an index entry but the last. -/
def crcIdx (c : NvCfg) (i : NvInfoIdx) : BitVec 32 :=
  xcrc32 (i.encode.take (sizeofNvInfoIdx c - 1)) 0xffffffff

/-- The four header bytes from `size` on, which follow the payload into its CRC. -/
def ItemHdr.tail (h : ItemHdr) : List Byte := le16 h.size ++ [h.itemId, h.used]

/-- An index entry agrees with the CRC kept in the upper half of its item's checksum. -/
def idxCrcCheck (c : NvCfg) (i : NvInfoIdx) (h : ItemHdr) : Bool :=
  crcIdx c i &&& 0xffff#32 = (h.checkSum >>> 16) &&& 0xffff#32

end Rf4ce.Nv
