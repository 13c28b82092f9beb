import Rf4ce.Nv.Layout

/-! The item store of `nv.c`. Functions that only read take the flash as an argument,
functions that erase or program are flash programs. -/
namespace Rf4ce.Nv
open Crash Drv Common

/-! ### Registered item lengths -/

def nvItemLenChkTabbleNum : Nat := 16

/-- `g_nvItemLengthCheckNum` and `g_nvItemLenCheckTbl`. -/
structure NvItemLenCheck where
  num : Nat
  tbl : List (Byte × Nat)
deriving DecidableEq, Repr

def NvItemLenCheck.initial : NvItemLenCheck :=
  ⟨0, List.replicate nvItemLenChkTabbleNum (itemFieldIdle, 0)⟩

def nvItemLengthCheckAdd (g : NvItemLenCheck) (itemId : Byte) (len : Nat) : NvItemLenCheck :=
  match (g.tbl.take g.num).findIdx? (fun p => itemId = p.1) with
  | some i => { g with tbl := g.tbl.set i (itemId, len) }
  | none =>
    if g.num ≥ nvItemLenChkTabbleNum then g
    else ⟨g.num + 1, g.tbl.set g.num (itemId, len)⟩

def nvItemLengthValidCheck (g : NvItemLenCheck) (itemId : Byte) (len : Nat) : Nat :=
  match g.tbl.find? (fun p => p.1 = itemId) with
  | some p => min p.2 len
  | none => len

/-! ### Sector selection -/

def nvSectInfoCrcCheck (s : NvSectInfo) : Bool :=
  let crcR := s.opSect >>> 2 &&& 0x3f
  let sectCrc := xcrc32 [s.idName, s.opSect &&& 0x03] 0xffffffff
  sectCrc &&& 0x3f = crcR.setWidth 32

/-- The scan over the sector headers; the result is `sectVN`, `0xff` when none is valid. -/
def nvSectorScan (id : Nat) : List NvSectInfo → Nat → Nat → Nat → Nat
  | [], _, _, sectVN => sectVN
  | s :: rest, sectValidCrc, sectPrev, sectVN =>
    let sectCur := (s.opSect &&& 0x03).toNat
    if s.usedFlag = nvSectorValidReadyCheckcrc then
      if nvSectInfoCrcCheck s then sectCur
      else nvSectorScan id rest sectValidCrc sectPrev sectVN
    else if sectValidCheck s && s.idName.toNat = id then
      if s.usedFlag = nvSectorValidCheckcrc then
        if nvSectInfoCrcCheck s then
          if sectValidCrc + 1 ≥ 2 then
            if max sectCur sectPrev - min sectCur sectPrev = 1 then max sectCur sectPrev
            else min sectCur sectPrev
          else nvSectorScan id rest (sectValidCrc + 1) sectCur sectCur
        else nvSectorScan id rest sectValidCrc sectPrev sectVN
      else nvSectorScan id rest (sectValidCrc + 1) sectPrev sectCur
    else nvSectorScan id rest sectValidCrc sectPrev sectVN

def readSectInfos (c : NvCfg) (f : Flash) (id : Nat) : List NvSectInfo :=
  (List.range moduleSectorNum).map fun i => readSectInfo f (modulesStartAddr c id + i * nvSectorSize id)

/-- The header found is absent when the result is `NV_ITEM_NOT_FOUND`. -/
def nvSectorRead (c : NvCfg) (fw : Bool) (id : Nat) : FlashM (NvSts × Option NvSectInfo) := do
  let s ← query fun f => readSectInfos c f id
  let sectVN := nvSectorScan id s 0 0 0xff
  if sectVN = 0xff then pure (.itemNotFound, none)
  else
    let sectDel := (sectVN + 1) % moduleSectorNum
    let sectOp := sectVN % moduleSectorNum
    let ok ←
      if fw && (s.getD sectOp default).usedFlag = nvSectorValidReadyCheckcrc then
        flashWriteWithCheck (moduleSectStart c id sectOp) (le16 nvSectorValidCheckcrc)
      else pure true
    if fw && ok && sectValidCheck (s.getD sectDel default) then
      flashWrite (moduleSectStart c id sectDel) (le16 nvSectorInvalid)
    pure (if ok then .succ else .dataCheckError, some (s.getD sectOp default))

/-- `nv_sect_info_check` -/
def nvSectInfoCheck (c : NvCfg) (f : Flash) (sect id : Nat) : Bool :=
  sectValidCheck (readSectInfo f (moduleSectStart c id sect))

/-! ### Index search -/

/-- The backward `for` over one group of entries. -/
def nvIndexGroup (jump : NvInfoIdx → Bool) (idxInfo : List NvInfoIdx) : Nat → Option Nat
  | 0 => none
  | i + 1 => if jump (idxInfo.getD i default) then some i else nvIndexGroup jump idxInfo i

/-- The `while` over groups of four; the fuel is the number of entries. -/
def nvIndexLoop (c : NvCfg) (f : Flash) (jump : NvInfoIdx → Bool) :
    Nat → Nat → Nat → Nat → Option Nat
  | 0, _, _, _ => none
  | fuel + 1, idxStartAddr, opItemIdx, idxTotalNum =>
    if idxTotalNum = 0 then none
    else
      let readIdxNum := if idxTotalNum > 4 then 4 else idxTotalNum
      let idxStartAddr := idxStartAddr - readIdxNum * sizeofNvInfoIdx c
      let opItemIdx := opItemIdx - readIdxNum
      match nvIndexGroup jump (readInfoIdxs c f idxStartAddr readIdxNum) readIdxNum with
      | some i => some (opItemIdx + i)
      | none => nvIndexLoop c f jump fuel idxStartAddr opItemIdx (idxTotalNum - readIdxNum)

/-- What stops the search for `itemId`. -/
def nvIndexMatch (itemId : Byte) (len : Nat) (i : NvInfoIdx) : Bool :=
  if itemId ≠ itemFieldIdle then
    itemValidFlagCheck i.usedState && i.itemId = itemId &&
      nvItemlenMatch (u32Sub i.size sizeofItemHdr) len
  else i.usedState ≠ itemFieldIdle || i.size ≠ 0xffff || i.itemId ≠ itemId

/-- `nv_index_read`, that is `nv_index_read_op` with its length check on. An index is found
when the result is `NV_SUCC`. -/
def nvIndexRead (c : NvCfg) (f : Flash) (id : Nat) (itemId : Byte) (len opSect totalItemNum : Nat) :
    Option Nat :=
  nvIndexLoop c f (nvIndexMatch itemId len) totalItemNum
    (moduleIdxStart c id opSect + totalItemNum * sizeofNvInfoIdx c) totalItemNum totalItemNum

/-! ### Writing one item -/

/-- CRC of a flash range read in pieces of `unit` bytes; the fuel is the length. -/
def flashCrcLoop (f : Flash) (unit : Nat) : Nat → Nat → Nat → BitVec 32 → BitVec 32
  | 0, _, _, crc => crc
  | fuel + 1, addr, len, crc =>
    if len = 0 then crc
    else
      let opLen := if len > unit then unit else len
      flashCrcLoop f unit fuel (addr + opLen) (len - opLen) (xcrc32 (flashRead f addr opLen) crc)

/-- Byte sum of a flash range read in pieces of `unit` bytes. -/
def flashSumLoop (f : Flash) (unit : Nat) : Nat → Nat → Nat → BitVec 32 → BitVec 32
  | 0, _, _, sum => sum
  | fuel + 1, addr, len, sum =>
    if len = 0 then sum
    else
      let opLen := if len > unit then unit else len
      flashSumLoop f unit fuel (addr + opLen) (len - opLen)
        ((flashRead f addr opLen).foldl (fun s b => s + b.setWidth 32) sum)

/-- Where the payload comes from: `isFlashCopy` with the address of the old item, or RAM. -/
inductive ItemSource where
  | flashCopy (addr : Nat)
  | ram (buf : List Byte)

/-- The index record the new one is built on and the offset of the new item. -/
def nvItemPlace (c : NvCfg) (f : Flash) (id opSect opItemIdx : Nat) : Option (NvInfoIdx × Nat) :=
  if opItemIdx = 0 then
    some (⟨0, 0, 0, 0, List.replicate (sizeofNvInfoIdx c - 8) 0⟩, moduleContextStart c id opSect)
  else
    let idxInfo := readInfoIdx c f (idxAddr c id opSect (opItemIdx - 1))
    let hdr := readItemHdr f idxInfo.offset
    if hdr.used = itemHdrFieldValidCheckcrc && !idxCrcCheck c idxInfo hdr then none
    else if itemFlagCheck idxInfo.usedState && itemOftCheck c idxInfo.offset idxInfo.size id opSect then
      some (idxInfo, alignUp4 (idxInfo.offset + idxInfo.size))
    else none

/-- The copy loop: CRC for a CRC item, byte sum and CRC for a checksum item. -/
def nvCopyLoop (checksum : Bool) : Nat → Nat → Nat → Nat → BitVec 32 → BitVec 32 →
    FlashM (Option (BitVec 32 × BitVec 32))
  | 0, _, _, _, checkSum, crc => pure (some (checkSum, crc))
  | fuel + 1, sAddr, dAddr, toalLen, checkSum, crc =>
    if toalLen = 0 then pure (some (checkSum, crc))
    else do
      let wLen := if toalLen > 48 then 48 else toalLen
      let pTemp ← query fun f => flashRead f sAddr wLen
      let checkSum :=
        if checksum then pTemp.foldl (fun s b => s + b.setWidth 32) checkSum else checkSum
      let ok ← flashWriteWithCheck dAddr pTemp
      if !ok then pure none
      else
        nvCopyLoop checksum fuel (sAddr + wLen) (dAddr + wLen) (toalLen - wLen) checkSum
          (xcrc32 pTemp crc)

/-- The payload of a copied item; the result is its header and payload CRC. -/
def nvCopyPayload (sAddr dAddr len : Nat) : FlashM (Except NvSts (ItemHdr × BitVec 32)) := do
  let hdr ← query fun f => readItemHdr f sAddr
  let checksum := hdr.used = itemHdrFieldValidChecksum
  let r ← nvCopyLoop checksum len (sAddr + sizeofItemHdr) dAddr len 0 0xffffffff
  match r with
  | none => pure (.error .checkSumError)
  | some (checkSum, crc) =>
    if checksum then
      if hdr.checkSum ≠ checkSum then pure (.error .dataCheckError)
      else
        let hdr := { hdr with used := itemHdrFieldValidCheckcrc }
        pure (.ok (hdr, xcrc32 hdr.tail crc))
    else
      let crcOri := xcrc32 hdr.tail crc
      if crcOri &&& 0xffff#32 ≠ hdr.checkSum &&& 0xffff#32 then pure (.error .dataCheckError)
      else pure (.ok (hdr, crcOri))

/-- The payload of a new item, read back in pieces of 16 bytes. -/
def nvStorePayload (itemId : Byte) (payloadAddr : Nat) (buf : List Byte) :
    FlashM (Except NvSts (ItemHdr × BitVec 32)) := do
  let crcOri := xcrc32 buf 0xffffffff
  flashWrite payloadAddr buf
  let crcDst ← query fun f => flashCrcLoop f 16 buf.length payloadAddr buf.length 0xffffffff
  if crcDst = crcOri then
    let hdr : ItemHdr := ⟨0, buf.length, itemId, itemHdrFieldValidCheckcrc⟩
    pure (.ok (hdr, xcrc32 hdr.tail crcOri))
  else pure (.error .checkSumError)

/-- The two ways of `nv_write_item` to store the payload, told apart by `isFlashCopy`. -/
def nvItemPayload (itemId : Byte) (payloadAddr len : Nat) :
    ItemSource → FlashM (Except NvSts (ItemHdr × BitVec 32))
  | .flashCopy addr => nvCopyPayload addr payloadAddr len
  | .ram buf => nvStorePayload itemId payloadAddr buf

def nvWriteItem (c : NvCfg) (single : Bool) (id : Nat) (itemId : Byte) (opSect opItemIdx len : Nat)
    (src : ItemSource) : FlashM NvSts := do
  let place ← query fun f => nvItemPlace c f id opSect opItemIdx
  match place with
  | none => pure .itemCheckError
  | some (idxInfo, offset) =>
    let idxInfo : NvInfoIdx := { idxInfo with
      usedState := itemFieldOperation, size := (len + sizeofItemHdr) % 65536, offset, itemId }
    if !itemOftCheck c idxInfo.offset idxInfo.size id opSect then pure .itemCheckError
    else
      let ok ← flashWriteWithCheck (idxAddr c id opSect opItemIdx) idxInfo.encode
      if !ok then pure .itemCheckError
      else
        let r ← nvItemPayload itemId (idxInfo.offset + sizeofItemHdr) (idxInfo.size - sizeofItemHdr) src
        match r with
        | .error ret => pure ret
        | .ok (hdr, crcOri) =>
          let idxInfo := { idxInfo with
            usedState := if single then itemFieldValidSingle else itemFieldValid }
          let hdr := { hdr with
            checkSum := (crcIdx c idxInfo &&& 0xffff#32) <<< 16 ||| (crcOri &&& 0xffff#32) }
          let ok ← flashWriteWithCheck idxInfo.offset hdr.encode
          if !ok then pure .checkSumError
          else
            let _ ← flashWriteWithCheck (idxAddr c id opSect opItemIdx + staOffset) [idxInfo.usedState]
            pure .succ

/-- The item id is not used. -/
def nvItemDeleteByIndex (c : NvCfg) (id opSect opIdx : Nat) : FlashM Unit :=
  flashWrite (idxAddr c id opSect opIdx + staOffset) [itemFieldInvalid]

/-! ### Reading one item -/

/-- The bytes stored to the caller's buffer come with the status. -/
def nvFlashReadByIndex (c : NvCfg) (g : NvItemLenCheck) (f : Flash) (id : Nat) (itemId : Byte)
    (opSect opIdx len : Nat) : NvSts × Option (List Byte) :=
  let idx := readInfoIdx c f (idxAddr c id opSect opIdx)
  if !itemValidFlagCheck idx.usedState then (.itemNotFound, none)
  else
    let hdr := readItemHdr f idx.offset
    let realLen := nvItemLengthValidCheck g itemId hdr.size
    if nvItemlenMatch hdr.size len && itemHdrValidCheck hdr.used && hdr.itemId = itemId then
      let buf := flashRead f (idx.offset + sizeofItemHdr) realLen
      let readOft := idx.offset + sizeofItemHdr + realLen
      let leftSize := hdr.size - realLen
      if hdr.used = itemHdrFieldValidChecksum then
        let checkSum := flashSumLoop f 32 leftSize readOft leftSize
          (buf.foldl (fun s b => s + b.setWidth 32) 0)
        (if checkSum ≠ hdr.checkSum then .checkSumError else .succ, some buf)
      else
        let crcRead := flashCrcLoop f 32 leftSize readOft leftSize (xcrc32 buf 0xffffffff)
        let crcRead := xcrc32 hdr.tail crcRead
        (if crcRead &&& 0xffff#32 ≠ hdr.checkSum &&& 0xffff#32 then .checkSumError else .succ, some buf)
    else (.itemNotFound, none)

/-- `nv_flashReadNew`, with `nv_flashReadNewHandler` called for a single item. -/
def nvFlashReadNew (c : NvCfg) (g : NvItemLenCheck) (id : Nat) (itemId : Byte) (len : Nat) :
    FlashM (NvSts × Option (List Byte)) :=
  if id = dsNwkFramecountModule then pure (.invalidModuls, none)
  else do
    let (ret, sectInfo) ← nvSectorRead c false id
    match ret, sectInfo with
    | .succ, some sectInfo =>
      let opSect := sectInfo.opSect.toNat % moduleSectorNum
      let idx ← query fun f => nvIndexRead c f id itemId len opSect (moduleIdxNum c id)
      match idx with
      | none => pure (.itemNotFound, none)
      | some opIdx =>
        let r ← query fun f => nvFlashReadByIndex c g f id itemId opSect opIdx len
        if r.1 = .checkSumError then nvItemDeleteByIndex c id opSect opIdx
        pure r
    | ret, _ => pure (ret, none)

/-! ### Compaction -/

/-- The backward scan that deletes older duplicates; the first argument counts the entries
still to look at, `idxTbl` holds the ids met so far. -/
def nvExceptionLoop (c : NvCfg) (single : Bool) (opSect id : Nat) (itemId : Byte) :
    Nat → List Byte → FlashM Unit
  | 0, _ => pure ()
  | opIdx + 1, idxTbl => do
    let idx ← query fun f => readInfoIdx c f (idxAddr c id opSect opIdx)
    if itemValidFlagCheck idx.usedState &&
        (idx.usedState = itemFieldValidSingle || (idx.itemId = itemId && single)) then
      if idx.itemId ∈ idxTbl then
        nvItemDeleteByIndex c id opSect opIdx
        nvExceptionLoop c single opSect id itemId opIdx idxTbl
      else nvExceptionLoop c single opSect id itemId opIdx (idxTbl ++ [idx.itemId])
    else nvExceptionLoop c single opSect id itemId opIdx idxTbl

/-- `alloc` tells whether `ev_buf_allocate` returned a buffer. -/
def nvExceptionDataHandler (c : NvCfg) (alloc single : Bool) (opSect id : Nat) (itemId : Byte) :
    FlashM Unit :=
  if alloc then nvExceptionLoop c single opSect id itemId (moduleIdxNum c id) [] else pure ()

/-- The variables of the copy loop. -/
structure CompactState where
  startChk : Bool
  offsetPrev : Nat
  sizePrev : Nat
  wItemIdx : Nat
  sizeusedAddr : Nat
deriving DecidableEq, Repr

/-- How the loop goes on after one entry: next entry, `search = 0`, or return. -/
inductive CompactStep where
  | next (st : CompactState)
  | stop (st : CompactState)
  | fail (ret : NvSts)

def nvCompactItem (c : NvCfg) (single : Bool) (id : Nat) (itemId : Byte) (oldSect opSect : Nat)
    (st : CompactState) (idxInfo : NvInfoIdx) : FlashM CompactStep :=
  let expected :=
    if st.startChk then moduleContextStart c id oldSect else alignUp4 (st.offsetPrev + st.sizePrev)
  if idxInfo.offset ≠ expected ∨ u32Sub (moduleSectEnd c id oldSect) idxInfo.offset < idxInfo.size then
    pure (.stop st)
  else
    let st := { st with startChk := false, offsetPrev := idxInfo.offset, sizePrev := idxInfo.size }
    if itemValidFlagCheck idxInfo.usedState &&
        (idxInfo.itemId ≠ itemId || (idxInfo.itemId = itemId && !single)) then do
      let sgl := idxInfo.usedState = itemFieldValidSingle
      let hdr ← query fun f => readItemHdr f idxInfo.offset
      if hdr.used = itemHdrFieldValidCheckcrc && !idxCrcCheck c idxInfo hdr then pure (.next st)
      else
        let ret ← nvWriteItem c sgl id idxInfo.itemId opSect st.wItemIdx
          (u32Sub idxInfo.size sizeofItemHdr % 65536) (.flashCopy idxInfo.offset)
        let st := { st with
          sizeusedAddr := alignUp4 (st.sizeusedAddr + idxInfo.size), wItemIdx := st.wItemIdx + 1 }
        match ret with
        | .succ => pure (.next st)
        | .itemCheckError => pure (.stop st)
        | .notEnoughSapce => pure (.fail .notEnoughSapce)
        | .checkSumError => pure (.fail .checkSumError)
        | _ => pure (.next st)
    else pure (.next st)

def nvCompactGroup (c : NvCfg) (single : Bool) (id : Nat) (itemId : Byte) (oldSect opSect : Nat) :
    CompactState → List NvInfoIdx → FlashM CompactStep
  | st, [] => pure (.next st)
  | st, idxInfo :: rest => do
    match ← nvCompactItem c single id itemId oldSect opSect st idxInfo with
    | .next st => nvCompactGroup c single id itemId oldSect opSect st rest
    | r => pure r

/-- The `while` over groups of four; the fuel is the number of entries. -/
def nvCompactLoop (c : NvCfg) (single : Bool) (id : Nat) (itemId : Byte) (oldSect opSect : Nat) :
    Nat → Nat → Nat → CompactState → FlashM CompactStep
  | 0, _, _, st => pure (.next st)
  | fuel + 1, idxStartAddr, idxTotalNum, st =>
    if idxTotalNum = 0 then pure (.next st)
    else do
      let readIdxNum := if idxTotalNum > 4 then 4 else idxTotalNum
      let idxInfo ← query fun f => readInfoIdxs c f idxStartAddr readIdxNum
      match ← nvCompactGroup c single id itemId oldSect opSect st idxInfo with
      | .next st =>
        nvCompactLoop c single id itemId oldSect opSect fuel
          (idxStartAddr + readIdxNum * sizeofNvInfoIdx c) (idxTotalNum - readIdxNum) st
      | r => pure r

/-- The `sectorUpdate` branch: the result is `wItemIdx` in the other sector. -/
def nvSectorUpdate (c : NvCfg) (alloc single : Bool) (id : Nat) (itemId : Byte)
    (len oldSect opSect : Nat) : FlashM (Except NvSts Nat) := do
  flashEraseSectors (modulesStartAddr c id + opSect * nvSectorSize id)
    (nvSectorSize id / flashSectorSize)
  nvExceptionDataHandler c alloc single oldSect id itemId
  let st : CompactState := ⟨true, 0, 0, 0, moduleContextStart c id opSect⟩
  let valid ← query fun f => nvSectInfoCheck c f oldSect id
  let r ←
    if valid then
      nvCompactLoop c single id itemId oldSect opSect (moduleIdxNum c id)
        (moduleIdxStart c id oldSect) (moduleIdxNum c id) st
    else pure (.next st)
  match r with
  | .fail ret => pure (.error ret)
  | .next st | .stop st =>
    if st.wItemIdx = moduleIdxNum c id ∨
        u32 (st.sizeusedAddr + itemTotalLen len) > moduleSectEnd c id opSect then
      pure (.error .notEnoughSapce)
    else pure (.ok st.wItemIdx)

/-! ### The write call -/

/-- Whether the operation sector takes the item: the free index, or `sectorUpdate`. -/
def nvFindSlot (c : NvCfg) (f : Flash) (id len opSect : Nat) : Option Nat :=
  let idxTotalNum := moduleIdxNum c id
  match nvIndexRead c f id itemFieldIdle len opSect idxTotalNum with
  | none => some 0
  | some wItemIdx =>
    let idxInfo := readInfoIdx c f (idxAddr c id opSect wItemIdx)
    if wItemIdx = idxTotalNum - 1 ∨
        u32 (idxInfo.offset + idxInfo.size + itemTotalLen len) > moduleSectEnd c id opSect then none
    else if itemFlagCheck idxInfo.usedState && itemOftCheck c idxInfo.offset idxInfo.size id opSect then
      some (wItemIdx + 1)
    else none

/-- A sector header with its check bits. -/
def mkSectInfo (id : Nat) (seq : Byte) : NvSectInfo :=
  let sectCrc := xcrc32 [BitVec.ofNat 8 id, seq] 0xffffffff
  ⟨nvSectorValidCheckcrc, BitVec.ofNat 8 id, (sectCrc.setWidth 8 <<< 2) ||| seq⟩

/-- The entry that the new one replaces, when there is one, becomes invalid. -/
def nvRetireItem (c : NvCfg) (id opSect : Nat) : Option Nat → FlashM Bool
  | some deleteIdx => flashWriteWithCheck (idxAddr c id opSect deleteIdx + staOffset) [itemFieldInvalid]
  | none => pure true

/-- The new item goes to slot `wItemIdx`; the entry to replace is searched before. -/
def nvPutItem (c : NvCfg) (single : Bool) (id : Nat) (itemId : Byte) (opSect wItemIdx : Nat)
    (buf : List Byte) : FlashM NvSts := do
  let deleteIdx ← query fun f =>
    if single then nvIndexRead c f id itemId buf.length opSect (moduleIdxNum c id) else none
  let ret ← nvWriteItem c single id itemId opSect wItemIdx buf.length (.ram buf)
  if ret ≠ .succ then pure ret
  else
    let ok ← nvRetireItem c id opSect deleteIdx
    pure (if ok then .succ else .checkSumError)

/-- After a sector change: the header of the new sector, then the end of the old one. -/
def nvCommitUpdate (c : NvCfg) (id oldSect opSect : Nat) (opSectSeq : Byte) : FlashM NvSts := do
  let ok ← flashWriteWithCheck (moduleSectStart c id opSect) (mkSectInfo id (opSectSeq &&& 0x03)).encode
  if !ok then pure .checkSumError
  else
    let _ ← flashWriteWithCheck (moduleSectStart c id oldSect) (le16 nvSectorInvalid)
    pure .succ

/-- Without a sector change only the first item of the module brings a header with it. -/
def nvCommitItem (c : NvCfg) (id opSect wItemIdx : Nat) : FlashM NvSts :=
  if wItemIdx = 0 then do
    let _ ← flashWriteWithCheck (moduleSectStart c id opSect) (mkSectInfo id (BitVec.ofNat 8 opSect)).encode
    pure .succ
  else pure .succ

/-- The sector to work in with its sequence byte; a module without one starts in sector 0. -/
def nvOperationSector (c : NvCfg) (id : Nat) : FlashM (Nat × Byte) := do
  let (ret, sectInfo) ← nvSectorRead c true id
  match ret, sectInfo with
  | .succ, some s => pure (s.opSect.toNat % moduleSectorNum, s.opSect)
  | _, _ =>
    flashEraseSectors (modulesStartAddr c id) (nvSectorSize id / flashSectorSize)
    pure (0, 0)

/-- The handler from the search for a free index on; no slot means `sectorUpdate`. -/
def nvStoreItem (c : NvCfg) (alloc single : Bool) (id : Nat) (itemId : Byte) (buf : List Byte)
    (opSect : Nat) (opSectSeq : Byte) : Option Nat → FlashM NvSts
  | some wItemIdx => do
    let ret ← nvPutItem c single id itemId opSect wItemIdx buf
    if ret ≠ .succ then pure ret else nvCommitItem c id opSect wItemIdx
  | none => do
    let oldSect := opSect
    let opSect := (opSect + 1) % moduleSectorNum
    match ← nvSectorUpdate c alloc single id itemId buf.length oldSect opSect with
    | .error ret => pure ret
    | .ok wItemIdx =>
      let ret ← nvPutItem c single id itemId opSect wItemIdx buf
      if ret ≠ .succ then pure ret else nvCommitUpdate c id oldSect opSect (opSectSeq + 1)

/-- `nv_flashWriteNewHandler`, called with `forceChgSec = 0` only. -/
def nvFlashWriteNewHandler (c : NvCfg) (alloc single : Bool) (id : Nat) (itemId : Byte)
    (buf : List Byte) : FlashM NvSts :=
  if nvSectorSize id < itemTotalLen buf.length + moduleInfoSize id then pure .notEnoughSapce
  else do
    let (opSect, opSectSeq) ← nvOperationSector c id
    let slot ← query fun f => nvFindSlot c f id buf.length opSect
    nvStoreItem c alloc single id itemId buf opSect opSectSeq slot

def nvFlashWriteNew (c : NvCfg) (alloc single : Bool) (id : Nat) (itemId : Byte) (buf : List Byte) :
    FlashM NvSts :=
  if id = dsNwkFramecountModule then pure .invalidModuls
  else nvFlashWriteNewHandler c alloc single id itemId buf

end Rf4ce.Nv
