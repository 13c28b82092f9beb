import Rf4ce.Ota.Types

/-! The OTA server: the handlers of `tl_specific_data_ota.c` that run on the target, with the
upgrade file in the bank that the target does not run from. -/
namespace Rf4ce.Ota
open Crash Drv Common Os

def otaTypeBin : Nat := 0

/-- `tl_otabin_e`, the values that `ota_state` takes on the target. -/
inductive OtaBin where
  | valid | invalid
deriving DecidableEq, Repr

/-- The fields of `ota_hdrFields_t` that are used; the structure is packed. -/
structure OtaHdrFields extends OtaIdent where
  otaHdrLen : Nat
  totalImageSize : Nat

/-- `ota_signInfo_t` -/
structure OtaSignInfo where
  binType : Nat
  binSize : Nat

def sizeofOtaSignInfo : Nat := 6

def readHdrFields (f : Flash) (a : Nat) : OtaHdrFields where
  otaHdrLen := ofLe (flashRead f (a + 6) 2)
  manufaurerCode := ofLe (flashRead f (a + 10) 2)
  chipType := ofLe (flashRead f (a + 12) 2)
  fileVer := ofLe (flashRead f (a + 14) 4)
  totalImageSize := ofLe (flashRead f (a + 52) 4)

def readSignInfo (f : Flash) (a : Nat) : OtaSignInfo := ⟨ofLe (flashRead f a 2), ofLe (flashRead f (a + 2) 4)⟩

theorem readHdrFields_eq (f : Flash) (a : Nat) : readHdrFields f a =
    { otaHdrLen := ofLe (bytes f (a + 6) 2), manufaurerCode := ofLe (bytes f (a + 10) 2),
      chipType := ofLe (bytes f (a + 12) 2), fileVer := ofLe (bytes f (a + 14) 4),
      totalImageSize := ofLe (bytes f (a + 52) 4) } := by
  unfold readHdrFields
  rw [flashRead_eq f (a + 6) 2, flashRead_eq f (a + 10) 2, flashRead_eq f (a + 12) 2, flashRead_eq f (a + 14) 4,
    flashRead_eq f (a + 52) 4]

theorem readHdrFields_otaHdrLen (f : Flash) (a : Nat) : (readHdrFields f a).otaHdrLen = ofLe (bytes f (a + 6) 2) := by
  rw [readHdrFields_eq]

theorem readSignInfo_binSize_lt (f : Flash) (a : Nat) : (readSignInfo f a).binSize < 4294967296 := by
  have hword := ofLe_lt (bytes f (a + 2) 4)
  rw [bytes_length] at hword
  unfold readSignInfo
  dsimp only
  rw [flashRead_eq f (a + 2) 4]
  exact hword

/-- The globals of the target that its handlers use. -/
structure Server where
  rcOtaInfo : OtaPreamble
  otaState : OtaBin
  otaHeadercnt : Nat
  otaHeadersize : Nat
  mcuBootAddr : Nat
  /-- `seq_number`, an `u16` -/
  seqNumber : Nat
  seqNo : Byte

/-- A message of the target; `none` as data for the one that ends after its header. -/
inductive OtaRsp where
  | startRsp (seqNo : Byte) (rsp : OtaPreamble)
  | stopRsp (seqNo : Byte) (rsp : OtaIdent)
  | dataRsp (seqNo : Byte) (data : Option (OtaPreamble × List Byte))
deriving DecidableEq, Repr

/-- The state that the header at `a` gives the target for a request. -/
def otaBinState (f : Flash) (a : Nat) (req : OtaIdent) (headinfo : OtaHdrFields) : OtaBin :=
  let state := if req.fileVer < headinfo.fileVer ∧ req.chipType = headinfo.chipType ∧
      req.manufaurerCode = headinfo.manufaurerCode then OtaBin.valid else .invalid
  let state := if state = .valid then
      if headinfo.otaHdrLen < headinfo.totalImageSize then
        let imageinfo := readSignInfo f (a + headinfo.otaHdrLen)
        if imageinfo.binType ≠ otaTypeBin ∨
            headinfo.totalImageSize ≠ u32 (headinfo.otaHdrLen + imageinfo.binSize + sizeofOtaSignInfo)
        then .invalid else state
      else .invalid
    else state
  if otaMaxImageSize ≤ headinfo.totalImageSize then .invalid else state

/-- There is an upgrade file at `a`. -/
def HasUpgradeFile (f : Flash) (a : Nat) : Prop := ofLe (flashRead f a 4) = otaUpgradeFileId

instance (f : Flash) (a : Nat) : Decidable (HasUpgradeFile f a) := inferInstanceAs (Decidable (_ = _))

/-- `ota_startReqHandler` up to its answer. -/
def otaStartReqCheck (mcu : Mcu) (f : Flash) (req : OtaIdent) (s : Server) : Server :=
  let s := { s with rcOtaInfo := ⟨⟨0, 0, 0⟩, 0⟩, mcuBootAddr := mcuBootAddrByte mcu f }
  let flashAddr := otaBaseAddr s.mcuBootAddr
  if HasUpgradeFile f flashAddr then
    let headinfo := readHdrFields f flashAddr
    { s with
      rcOtaInfo := ⟨headinfo.toOtaIdent, headinfo.totalImageSize⟩
      otaHeadersize := headinfo.totalImageSize
      otaHeadercnt := 0
      otaState := otaBinState f flashAddr req headinfo }
  else s

def otaStartReqHandler (mcu : Mcu) (f : Flash) (req : OtaIdent) (s : Server) : Server × OtaRsp :=
  let s := otaStartReqCheck mcu f req s
  ({ s with seqNo := s.seqNo + 1 }, .startRsp s.seqNo s.rcOtaInfo)

/-- `read_len` of `ota_dataReqHandler` -/
def otaReadLen (otaHeadercnt otaHeadersize : Nat) : Nat :=
  if u32 (otaHeadercnt + otaFramesize) < otaHeadersize then otaFramesize else otaHeadersize % otaFramesize

def otaDataReqHandler (f : Flash) (req : OtaPreamble) (s : Server) : Server × OtaRsp :=
  if req.toOtaIdent = s.rcOtaInfo.toOtaIdent ∧ s.otaState = .valid then
    let s := { s with otaHeadercnt := u32 (req.imageSize * otaFramesize) }
    let payload := flashRead f (u32 (otaBaseAddr s.mcuBootAddr + s.otaHeadercnt)) (otaReadLen s.otaHeadercnt s.otaHeadersize)
    ({ s with seqNo := s.seqNo + 1 }, .dataRsp s.seqNo (some (⟨s.rcOtaInfo.toOtaIdent, req.imageSize⟩, payload)))
  else ({ s with seqNo := s.seqNo + 1 }, .dataRsp s.seqNo none)

def otaStopReqHandler (req : OtaIdent) (s : Server) : Server × Option OtaRsp :=
  if req = s.rcOtaInfo.toOtaIdent then ({ s with seqNo := s.seqNo + 1 }, some (.stopRsp s.seqNo s.rcOtaInfo.toOtaIdent))
  else (s, none)

/-- `tl_appOtaCmdHandler` on the target; a DATA_REQ with the sequence number of the one before is
dropped. -/
def otaServerCmd (mcu : Mcu) (f : Flash) (s : Server) : OtaReq → Server × Option OtaRsp
  | .startReq _ req =>
    let r := otaStartReqHandler mcu f req s
    ({ r.1 with seqNumber := 0x100 }, some r.2)
  | .stopReq _ req => otaStopReqHandler req s
  | .dataReq seqNo req =>
    if s.seqNumber ≠ seqNo.toNat then
      let r := otaDataReqHandler f req { s with seqNumber := seqNo.toNat }
      (r.1, some r.2)
    else (s, none)

/-! ### The upgrade file -/

/-- The file at `a` passes the checks of `ota_startReqHandler` for the request. -/
def Offers (f : Flash) (a : Nat) (req : OtaIdent) : Prop :=
  HasUpgradeFile f a ∧ otaBinState f a req (readHdrFields f a) = .valid

instance (f : Flash) (a : Nat) (req : OtaIdent) : Decidable (Offers f a req) := inferInstanceAs (Decidable (_ ∧ _))

theorem otaBinState_valid {f : Flash} {a : Nat} {req : OtaIdent} {h : OtaHdrFields} (hvalid : otaBinState f a req h = .valid) :
    (req.fileVer < h.fileVer ∧ req.chipType = h.chipType ∧ req.manufaurerCode = h.manufaurerCode) ∧
      h.otaHdrLen < h.totalImageSize ∧ (readSignInfo f (a + h.otaHdrLen)).binType = otaTypeBin ∧
      h.totalImageSize = u32 (h.otaHdrLen + (readSignInfo f (a + h.otaHdrLen)).binSize + sizeofOtaSignInfo) ∧
      h.totalImageSize < otaMaxImageSize := by
  unfold otaBinState at hvalid
  dsimp only at hvalid
  by_cases hmax : otaMaxImageSize ≤ h.totalImageSize
  · rw [if_pos hmax] at hvalid
    cases hvalid
  · rw [if_neg hmax] at hvalid
    by_cases hid : req.fileVer < h.fileVer ∧ req.chipType = h.chipType ∧ req.manufaurerCode = h.manufaurerCode
    · rw [if_pos hid, if_pos rfl] at hvalid
      by_cases hlen : h.otaHdrLen < h.totalImageSize
      · rw [if_pos hlen] at hvalid
        by_cases hbin : (readSignInfo f (a + h.otaHdrLen)).binType ≠ otaTypeBin ∨
            h.totalImageSize ≠ u32 (h.otaHdrLen + (readSignInfo f (a + h.otaHdrLen)).binSize + sizeofOtaSignInfo)
        · rw [if_pos hbin] at hvalid
          cases hvalid
        · obtain ⟨htype, hsize⟩ := not_or.mp hbin
          exact ⟨hid, hlen, not_not.mp htype, not_not.mp hsize, Nat.lt_of_not_le hmax⟩
      · rw [if_neg hlen] at hvalid
        cases hvalid
    · rw [if_neg hid, if_neg (by decide)] at hvalid
      cases hvalid

end Rf4ce.Ota
