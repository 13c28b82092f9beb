import Rf4ce.Ota.Delivery
import Rf4ce.Ota.FailureFinal
import Rf4ce.Ota.VerifyCrc

/-! A running transfer can always be completed. -/
namespace Rf4ce.Ota
open Crash Drv Common Os

/-! ### Counts -/

/-- The place in the bank and the count move together. -/
structure Aligned (t : Transfer) : Prop where
  header : t.otaState = .starting → t.flashOffsetAddr = 0
  payload : t.otaState = .dataing → t.otaHeadercnt = t.otaHeadersize + 6 + t.flashOffsetAddr

section Counts
variable {mcu : Mcu} {pData : Nat → Byte} {t t' : Transfer} {ps : List (Nat × Byte)}

theorem otaHeaderLoop_aligned (n i : Nat) (hst : t.otaState = .starting) (hcnt : t.otaHeadercnt + n + 6 < 4294967296) :
    (otaHeaderLoop pData n i t).2.flashOffsetAddr = t.flashOffsetAddr ∧
      ((otaHeaderLoop pData n i t).2.otaState = .dataing →
        (otaHeaderLoop pData n i t).2.otaHeadercnt = (otaHeaderLoop pData n i t).2.otaHeadersize + 6) := by
  induction n generalizing i t with
  | zero =>
    refine ⟨rfl, fun hdata => ?_⟩
    rw [otaHeaderLoop, hst] at hdata
    cases hdata
  | succ n ih =>
    obtain ⟨-, hcount, -, -, hoff⟩ := otaHeaderByte_frame pData i t
    obtain ⟨hdone, hmore⟩ := otaHeaderByte_done pData i t
    unfold otaHeaderLoop
    dsimp only
    cases hr : (otaHeaderByte pData i t).2 with
    | true =>
      obtain ⟨-, hsize⟩ := hdone hr
      rw [if_pos rfl]
      refine ⟨hoff, fun _ => ?_⟩
      dsimp only
      rw [hcount, hsize, u32_eq]
      omega
    | false =>
      rw [if_neg Bool.false_ne_true, hcount, u32_eq (by omega)]
      obtain ⟨hoff', hend⟩ := ih (i + 1) (t := { (otaHeaderByte pData i t).1 with otaHeadercnt := t.otaHeadercnt + 1 })
        ((hmore hr).trans hst) (by dsimp only; omega)
      exact ⟨hoff'.trans hoff, hend⟩

theorem otaCounted_aligned {len i : Nat} (h : t.otaHeadercnt = t.otaHeadersize + 6 + t.flashOffsetAddr)
    (hcnt : t.otaHeadercnt + 256 < 4294967296) : Aligned (otaCounted mcu len i pData t) ∨ t.otaState ≠ .dataing := by
  by_cases hst : t.otaState = .dataing
  · left
    have hlen : otaDataLen len i < 256 := Nat.mod_lt _ (by decide)
    constructor
    · intro hst'
      exact absurd (hst.symm.trans hst') (by decide)
    · intro _
      change u32 (t.otaHeadercnt + otaDataLen len i) = t.otaHeadersize + 6 + u32 (t.flashOffsetAddr + otaDataLen len i)
      rw [u32_eq (by omega), u32_eq (by omega)]
      omega
  · exact .inr hst

/-- A chunk keeps them together. -/
theorem Processes.aligned {len : Byte} (h : Processes (otaDataProcess mcu len pData t) t' ps) (ht : Aligned t)
    (hcnt : t.otaHeadercnt < otaMaxImageSize) (hlen : len.toNat ≠ 0) : Aligned t' := by
  have hmax : t.otaHeadercnt < 196608 := hcnt
  have hlt := len.isLt
  have hidle (hended : Ended t.otaState) : Aligned t' := by
    obtain ⟨hv, -⟩ := (@otaDataProcess_ended mcu len pData t hended) fun _ => 0
    rw [(h fun _ => 0).1] at hv
    rw [hv]
    exact ht
  cases hst : t.otaState with
  | starting =>
    obtain ⟨hoff, hend⟩ := @otaHeaderLoop_aligned pData t len.toNat 0 hst (by omega)
    have hcount := @otaHeaderLoop_count pData len.toNat 0 t hst (by omega)
    cases hloop : otaHeaderLoop pData len.toNat 0 t with
    | mk i t₁ =>
      rw [hloop] at hoff hend hcount
      rcases hcount with ⟨hst₁, -⟩ | ⟨hst₁, j, hj, -, hc⟩
      · obtain ⟨hv, -⟩ := (@otaDataProcess_header mcu pData t t₁ len i hst hloop hst₁) fun _ => 0
        rw [(h fun _ => 0).1] at hv
        rw [hv]
        constructor
        · exact fun _ => hoff.trans (ht.header hst)
        · intro hst'
          exact absurd (hst₁.symm.trans hst') (by decide)
      · obtain ⟨hv, -⟩ := (@otaDataProcess_end mcu pData t t₁ len i hst hloop hst₁ hlen) fun _ => 0
        rw [(h fun _ => 0).1] at hv
        dsimp only at hoff hend hc
        rw [hv]
        have halign : t₁.otaHeadercnt = t₁.otaHeadersize + 6 + t₁.flashOffsetAddr := by
          rw [hend hst₁, hoff, ht.header hst]
        exact (otaCounted_aligned halign (by omega)).resolve_right fun hne => hne hst₁
  | dataing =>
    obtain ⟨hv, -⟩ := (@otaDataProcess_payload mcu pData t len hst hlen) fun _ => 0
    rw [(h fun _ => 0).1] at hv
    rw [hv]
    exact (otaCounted_aligned (ht.payload hst) (by omega)).resolve_right fun hne => hne hst
  | success =>
    apply hidle
    rw [hst]
    exact ⟨by decide, by decide⟩
  | failed =>
    apply hidle
    rw [hst]
    exact ⟨by decide, by decide⟩
  | finished =>
    apply hidle
    rw [hst]
    exact ⟨by decide, by decide⟩

end Counts

/-! ### The flash takes the next chunk -/

theorem burn_placed_behind {f₀ : Flash} {a : Nat} {data : List Byte} {x : Nat} (hx : a + data.length ≤ x) :
    burn f₀ (placed a data) x = f₀ x := by
  rw [burn_placed]
  apply program_outside
  omega

theorem programmable_blank {f : Flash} {a : Nat} {data : List Byte}
    (h : ∀ x, a ≤ x → x < a + data.length → f x = 0xff) : Programmable (bytes f a data.length) data := by
  rw [bytes_const h]
  exact programmable_erased data

section Fits
variable {mcu : Mcu} {file : Nat → Byte} {size hdrLen binSize k : Nat} {junk : Nat → Nat → Byte} {t₀ t : Transfer}
  {ps : List (Nat × Byte)} {f : Flash} {g : Nat → Byte} {n : Nat}

/-- What lies in the bank behind the programmed bytes is erased. -/
theorem Laid.behind (h : Laid size (placed flashOtaNewimageAddr (bytes g 0 n)) f) {x : Nat}
    (h₁ : flashOtaNewimageAddr + n ≤ x) (h₂ : x < flashOtaNewimageAddr + size) : f x = 0xff := by
  obtain ⟨f₀, herased, rfl⟩ := h
  rw [burn_placed_behind (by rw [bytes_length]; exact h₁)]
  exact herased x (by omega) h₂

theorem writeFits_of_laid {len i : Nat} {pData : Nat → Byte} (hboot : t.mcuBootAddr = 0)
    (h : Laid size (placed flashOtaNewimageAddr (bytes g 0 t.flashOffsetAddr)) f)
    (hfit : t.flashOffsetAddr + otaDataLen len i ≤ size) (hsize : size < otaMaxImageSize) :
    WriteFits mcu len i pData t f := by
  have hmax : size < 196608 := hsize
  intro _
  have haddr : otaProgramAddr t = flashOtaNewimageAddr + t.flashOffsetAddr := by
    have hupper : otaBaseAddr 0 = 262144 := rfl
    unfold otaProgramAddr flashOtaNewimageAddr
    rw [hboot, hupper]
    exact u32_eq (by omega)
  have hlen := otaProgramData_length mcu len i pData t
  rw [haddr, ← hlen]
  apply programmable_blank
  intro x h₁ h₂
  exact h.behind h₁ (by omega)

/-- The next frame of a separable file. -/
theorem Feeds.fits (h : Feeds mcu file size junk k t₀ t ps) (hlen : ofLe (bytes file 6 2) = hdrLen)
    (hsize : size < otaMaxImageSize) (hhdr : hdrLen < size) (hfit : hdrLen + 6 ≤ size) (hsub : hdrLen % 48 + 6 ≤ 48)
    (ht₀ : Started size t₀) (hk : 48 * k < size) (hboot : t.mcuBootAddr = 0) (hlaid : Laid size ps f) (g : Nat → Byte)
    (hg : ∀ j < frameLen size k, g j = file (48 * k + j)) :
    ChunkFits mcu (BitVec.ofNat 8 (frameLen size k)) g t f := by
  have hmax : size < 196608 := hsize
  have hend := @frameLen_end size k hk
  have hle := frameLen_le size k
  have htoNat := frameLen_toNat size k
  have hgframe : framePayload file size (fun _ => g) k = g := by
    funext j
    unfold framePayload
    split_ifs with hj
    · exact (hg j hj).symm
    · rfl
  unfold ChunkFits
  by_cases hpay : HeaderEnds hdrLen ∧ hdrLen / 48 < k
  · obtain ⟨hends, hlow⟩ := hpay
    have hframe : hdrLen % 48 + 6 ≤ frameLen size (hdrLen / 48) := by
      unfold frameLen otaFramesize
      omega
    obtain ⟨t₁, h₁, ht₁⟩ := feeds_payload junk hlen hsize hends hhdr hframe ht₀.inHeader k hlow (by omega)
    obtain ⟨rfl, rfl⟩ := h.unique h₁
    have hoff := ht₁.offset
    rw [ht₁.state]
    dsimp only
    rw [htoNat]
    rw [← hoff, ← ht₁.boot, hboot] at hlaid
    apply writeFits_of_laid hboot hlaid _ hsize
    unfold otaDataLen
    omega
  · obtain ⟨t₁, h₁, ht₁⟩ := @feeds_header mcu file size hdrLen _ junk t₀ hlen hsize ht₀.inHeader k (by omega)
      (fun hends => by
        have hlow : ¬ hdrLen / 48 < k := fun hlow => hpay ⟨hends, hlow⟩
        omega)
    obtain ⟨rfl, rfl⟩ := h.unique h₁
    rw [ht₁.state]
    dsimp only
    intro hdata
    have hin : InHeader size hdrLen t₀.mcuBootAddr t (48 * k + 0) := by
      rw [Nat.add_zero, ← Nat.min_eq_right (Nat.le_of_lt hk)]
      exact ht₁
    have hfield := @framePayload_field file size k (fun _ => g) hdrLen hlen
    rw [hgframe] at hfield
    rw [htoNat] at hdata ⊢
    by_cases hhere : HeaderEnds hdrLen ∧ hdrLen < 48 * k + frameLen size k
    · have hlow : ¬ hdrLen / 48 < k := fun hlow => hpay ⟨hhere.1, hlow⟩
      obtain ⟨t', hloop, ht'⟩ := @otaHeaderLoop_end size hdrLen _ g t (48 * k) (frameLen size k) 0 hin (by omega) (by omega)
        hfield hhere.1 (by omega) (by omega)
      rw [hloop]
      apply @writeFits_of_laid _ _ _ _ g
      · exact ht'.boot.trans (ht₁.boot.symm.trans hboot)
      · dsimp only
        rw [ht'.offset]
        exact hlaid
      · dsimp only
        rw [ht'.offset]
        unfold otaDataLen
        omega
      · exact hsize
    · obtain ⟨t', hloop, ht'⟩ := @otaHeaderLoop_inHeader size hdrLen _ g t (48 * k) (frameLen size k) 0 hin (by omega)
        (by omega) hfield (fun hends => by
          have hno : ¬ hdrLen < 48 * k + frameLen size k := fun hlt => hhere ⟨hends, hlt⟩
          omega)
      rw [hloop] at hdata
      exact absurd (ht'.state.symm.trans hdata) (by decide)

end Fits

/-! ### The image passes its checks -/

/-- An image that says its length and ends with its CRC. -/
structure CheckedImage (payload : Nat → Byte) (binSize : Nat) : Prop where
  long : 52 < binSize
  length : ofLe (bytes payload firmwareLengthAddr 4) = binSize
  crc : (xcrc32 (bytes payload 0 (binSize - 4)) 0xffffffff).toNat = ofLe (bytes payload (binSize - 4) 4)

section Checks
variable {mcu : Mcu} {payload : Nat → Byte} {binSize : Nat} {f : Flash}

theorem keyed_keywordSet (h : payload mcu.keywordAddrOffset = tlImageStartFlag) (v : Byte) (n : Nat) :
    keyed mcu (bytes (keywordSet mcu v payload) 0 n) = bytes payload 0 n := by
  unfold keyed
  rw [bytes_set]
  unfold keywordSet
  rw [Function.update_idem, ← h, Function.update_eq_self]

theorem keywordSet_apart (v : Byte) {x n : Nat}
    (hx : x + n ≤ mcu.keywordAddrOffset ∨ mcu.keywordAddrOffset < x) :
    bytes (keywordSet mcu v payload) x n = bytes payload x n := by
  apply bytes_congr
  intro y h₁ h₂
  apply Function.update_of_ne
  omega

theorem stored_part (hf : bytes f flashOtaNewimageAddr binSize = bytes (keywordSet mcu 0xff payload) 0 binSize) {x n : Nat}
    (hx : x + n ≤ binSize) (hapart : x + n ≤ mcu.keywordAddrOffset ∨ mcu.keywordAddrOffset < x) :
    bytes f (flashOtaNewimageAddr + x) n = bytes payload x n := by
  have hsub := bytes_sub (rfl : bytes (keywordSet mcu 0xff payload) 0 binSize = _) x n hx
  rw [bytes_sub hf x n hx, ← hsub, Nat.zero_add, keywordSet_apart _ hapart]

/-- An image that is stored but for its keyword passes `verifyFirmwareCrc`. -/
theorem verify_stored (himg : CheckedImage payload binSize) (hkey : payload mcu.keywordAddrOffset = tlImageStartFlag)
    (hmax : binSize ≤ otaMaxImageSize)
    (hf : bytes f flashOtaNewimageAddr binSize = bytes (keywordSet mcu 0xff payload) 0 binSize) :
    verifyFirmwareCrc mcu 0 f = some true := by
  have hlong := himg.long
  have hoff : mcu.keywordAddrOffset = 8 ∨ mcu.keywordAddrOffset = 32 := by cases mcu <;> decide
  have hbase : otaBaseAddr 0 = flashOtaNewimageAddr := rfl
  have hlen : imageLength f flashOtaNewimageAddr = binSize := by
    unfold imageLength
    rw [stored_part hf (by unfold firmwareLengthAddr; omega) (by unfold firmwareLengthAddr; omega)]
    exact himg.length
  have hcrc := @imageCrc_eq f flashOtaNewimageAddr (Nat.le_refl _) (by omega) (by rw [hlen]; exact hmax)
  rw [hlen, stored_part hf (by omega) (by omega), ← himg.crc] at hcrc
  have hbytes : bytes (blockByte f flashOtaNewimageAddr) 0 (binSize - 4) =
      bytes (keywordSet mcu 0xff payload) 0 (binSize - 4) := by
    rw [image_bytes (show flashOtaNewimageAddr ≤ 262144 from Nat.le_refl _) (by omega)]
    have hfirst := bytes_sub hf 0 (binSize - 4) (by omega)
    have hfirst' := bytes_sub (rfl : bytes (keywordSet mcu 0xff payload) 0 binSize = _) 0 (binSize - 4) (by omega)
    exact hfirst.trans hfirst'.symm
  have hmax' : binSize ≤ 196608 := hmax
  rw [@verify_long mcu f 0 (by rw [hbase, hlen]; exact hlong) (by rw [hbase, hlen]; omega), hbase, hlen, hbytes,
    keyed_keywordSet hkey, hcrc]
  simp

theorem otaVerify_stored {t : Transfer} {size hdrLen : Nat} (himg : CheckedImage payload binSize)
    (hkey : payload mcu.keywordAddrOffset = tlImageStartFlag) (hsize : size < otaMaxImageSize)
    (hsum : size = hdrLen + binSize + 6) (hboot : t.mcuBootAddr = 0) (himage : t.rcOtaInfo.imageSize = size)
    (hhdr : t.otaHeadersize = hdrLen) (hcrc : t.crcValue = xcrc32 (bytes payload 0 (binSize - 4)) 0xffffffff)
    (hf : bytes f flashOtaNewimageAddr binSize = bytes (keywordSet mcu 0xff payload) 0 binSize) :
    otaVerify mcu t f = some true := by
  have hmax : size < 196608 := hsize
  have hlong := himg.long
  have hoff : mcu.keywordAddrOffset = 8 ∨ mcu.keywordAddrOffset = 32 := by cases mcu <;> decide
  have haddr : crcBinAddr t = flashOtaNewimageAddr + (binSize - 4) := by
    have hupper : otaBaseAddr 0 = 262144 := rfl
    have hbin : u32Sub (262144 + size) hdrLen = 262144 + (binSize + 6) := by
      rw [u32Sub_eq (by omega) (by omega)]
      omega
    have hword : u32Sub (262144 + (binSize + 6)) 10 = 262144 + (binSize - 4) := by
      rw [u32Sub_eq (by omega) (by omega)]
      omega
    unfold crcBinAddr flashOtaNewimageAddr
    rw [hboot, himage, hhdr, hupper, hbin, hword]
  have hword : bytes f (flashOtaNewimageAddr + (binSize - 4)) 4 = bytes payload (binSize - 4) 4 :=
    stored_part hf (by omega) (by omega)
  unfold otaVerify
  rw [haddr, flashRead_eq, hword, ← himg.crc, hcrc, if_pos rfl, hboot]
  apply verify_stored himg hkey _ hf
  unfold otaMaxImageSize
  omega

end Checks

/-! ### What a running transfer has asked for -/

/-- The handle of the timer that repeats a DATA_REQ is there unless the transfer has ended. -/
def Polls (c c' : Client) : Prop :=
  Ended c'.otaState ∨ c'.tryPollingCb = c.tryPollingCb ∨ ∃ i, c'.tryPollingCb = some i

section Polling
variable {cfg : OtaCfg} {now : U32} {c : Client}

theorem otaFail_ended : Leads (otaFail cfg now c) fun c' => Ended c'.otaState := by
  refine otaFail_leads.mono fun c' hc' => ?_
  rw [hc'.2]
  exact ⟨by decide, by decide⟩

theorem otaDataReqCb_polls : Leads (otaDataReqCb cfg now c) fun c' => ∃ i, c'.tryPollingCb = some i := by
  apply yields_bind
  apply yields_any
  intro _
  exact leads_register fun i _ => ⟨i, rfl⟩

theorem otaRetryCb_polls {msg : OtaReq} {left : Nat} :
    Leads (otaRetryCb cfg now msg left c) fun p => Polls c p.1 := by
  apply yields_ite
  · intro _
    apply yields_bind
    apply yields_any
    intro _
    exact leads_pure (.inr (.inl rfl))
  · intro _
    exact otaFail_ended.map fun _ h => .inl h

theorem otaTimerCb_polls {ret : Int} {cb : Option EvCb} :
    Leads (otaTimerCb cfg now ret cb c) fun p => Polls c p.1 := by
  have hpure : Leads (pure (some (c, ret)) : OtaM (Option (Client × Int))) fun p => Polls c p.1 :=
    leads_pure (.inr (.inl rfl))
  cases cb with
  | none => exact hpure
  | some cb =>
    cases cb with
    | otaStartReqCb => exact otaRetryCb_polls
    | otaDataTryReqCb => exact otaRetryCb_polls
    | otaStopRspCb => exact otaRetryCb_polls
    | otaCallBackRestore =>
      apply yields_bind
      apply yields_any
      intro _
      exact leads_pure (.inr (.inl rfl))
    | appSendRepeateDataTimerCb => exact hpure
    | other k => exact hpure

theorem otaDataRspNext_polls {c₀ : Client} : Leads (otaDataRspNext cfg now c) fun c' => Polls c₀ c' := by
  apply yields_ite
  · intro _
    apply yields_bind
    apply yields_any
    intro ok
    cases ok with
    | none =>
      apply yields_pure
      intro c' hc'
      cases hc'
    | some ok =>
      cases ok with
      | true =>
        apply yields_bind
        apply yields_any
        intro _
        exact leads_register fun _ _ => .inl ended_success
      | false => exact otaFail_ended.mono fun _ h => .inl h
  · intro _
    exact otaDataReqCb_polls.mono fun _ h => .inr (.inr h)

theorem otaDataRspHandler_polls {hdr : OtaDataFrame} : Leads (otaDataRspHandler cfg now hdr c) fun c' => Polls c c' := by
  apply yields_ite
  · intro _
    apply yields_ite
    · intro _
      exact otaFail_ended.mono fun _ h => .inl h
    · intro _
      apply yields_bind
      apply yields_any
      intro r
      apply yields_ite
      · exact fun _ => otaDataRspNext_polls
      · intro _
        apply yields_bind
        apply yields_any
        intro r₂
        cases r₂ with
        | none =>
          apply yields_pure
          intro c' hc'
          cases hc'
        | some c₂ => exact otaDataRspNext_polls
  · intro _
    exact leads_pure (.inr (.inl rfl))

theorem clientStep_polls {k : ClientCall} (hstart : k ≠ .startReq) : Leads (clientStep cfg now c k) fun c' => Polls c c' := by
  cases k with
  | startReq => exact absurd rfl hstart
  | startRsp hdr =>
    have hfail {c₁ : Client} : Leads (otaFail cfg now c₁) fun c' => Polls c c' := otaFail_ended.mono fun _ h => .inl h
    apply yields_ite
    · intro _
      apply yields_ite
      · intro _
        apply yields_bind
        apply yields_any
        intro _
        apply yields_bind
        apply yields_any
        intro _
        exact otaDataReqCb_polls.mono fun _ h => .inr (.inr h)
      · exact fun _ => hfail
    · exact fun _ => hfail
  | dataRsp hdr => exact otaDataRspHandler_polls
  | stopRsp hdr =>
    apply yields_ite
    · intro _
      exact leads_register fun _ _ => .inr (.inl rfl)
    · exact fun _ => otaFail_ended.mono fun _ h => .inl h
  | reclaim => exact leads_pure (.inr (.inl rfl))
  | fire i pass ret =>
    apply yields_ite
    · exact fun _ => otaTimerCb_polls.map fun p hp => hp
    · exact fun _ => leads_pure (.inr (.inl rfl))
  | otherOn n tUs => exact leads_register fun _ _ => .inr (.inl rfl)
  | otherUnon i => exact leads_pure (.inr (.inl rfl))

end Polling

/-- A running transfer has asked for its file and for the next chunk. -/
structure Asking (info : OtaPreamble) (c : Client) (m : Trace) : Prop where
  start : ∃ seqNo ident, .startReq seqNo ident ∈ m.sent
  chunk : ∃ seqNo, .dataReq seqNo ⟨info.toOtaIdent, c.rcDataCount⟩ ∈ m.sent
  aligned : Aligned c.toTransfer
  polling : ∃ i, c.tryPollingCb = some i

theorem sent_mem (ops : List OtaOp) (m : Trace) {req : OtaReq} (h : req ∈ m.sent) :
    req ∈ (ops.foldl Trace.note m).sent := by
  induction ops generalizing m with
  | nil => exact h
  | cons op ops ih =>
    apply ih
    cases op with
    | flash op =>
      cases op with
      | erase a => exact h
      | program a data => exact h
    | send msg => exact List.mem_append_left _ h
    | setState s => exact h
    | otaCb s => exact h

section Ask
variable {cfg : OtaCfg} {now : U32} {info : OtaPreamble} {file : Nat → Byte} {c c' : Client} {m : Trace} {log : List Nat}
  {f : Flash} {k : ClientCall} {hdr : OtaDataFrame}

theorem Polls.some (h : Polls c c') (hc : ∃ i, c.tryPollingCb = some i) (hrun : ¬ Ended c'.otaState) :
    ∃ i, c'.tryPollingCb = some i := by
  rcases h with h | h | h
  · exact absurd h hrun
  · rw [h]
    exact hc
  · exact h

/-- A call that leaves the transfer alone. -/
theorem Asking.quiet (h : ¬ Ended c.otaState → Asking info c m) (hstart : k ≠ .startReq)
    (hkin : Kin c c') (hc' : (clientStep cfg now c k).value f = some c') (hrun : ¬ Ended c'.otaState) :
    Asking info c' (((clientStep cfg now c k).ops f).foldl Trace.note m) := by
  have hask := h fun hc => hrun (hkin.ended hc)
  have htransfer : c'.toTransfer = c.toTransfer := by
    rcases hkin.transfer with heq | ⟨s, hs, heq⟩
    · exact heq
    · exfalso
      apply hrun
      rw [heq]
      exact hs
  obtain ⟨seqNo, ident, hmem⟩ := hask.start
  obtain ⟨seqNo', hmem'⟩ := hask.chunk
  refine ⟨⟨seqNo, ident, sent_mem _ m hmem⟩, ⟨seqNo', ?_⟩, ?_, ?_⟩
  · rw [hkin.data]
    exact sent_mem _ m hmem'
  · rw [htransfer]
    exact hask.aligned
  · exact Polls.some (clientStep_polls hstart f c' hc') hask.polling hrun

/-- The next chunk of a running transfer. -/
theorem Asking.take (h : Asking info c m) (hup : Upgrade cfg info file) (htaken : Taken c hdr)
    (hfeeding : Feeding cfg info file c m log) (hgood : GoodFrame info file hdr)
    (hc' : (clientStep cfg now c (.dataRsp hdr)).value f = some c') (hrun : ¬ Ended c'.otaState) :
    Asking info c' (((clientStep cfg now c (.dataRsp hdr)).ops f).foldl Trace.note m) := by
  have hlow := hfeeding.low
  have hhigh := hfeeding.high
  have hmax : info.imageSize < 196608 := hup.size.2
  obtain ⟨t', ps, hproc, himg, -, hgo⟩ := hfeeding.frame hup hgood htaken.1.2 htaken.2
  obtain ⟨-, hnext⟩ := watched_noted (@otaDataRspHandler_takes cfg now hdr c m f _ _ htaken hproc)
  obtain ⟨c₂, hkin, hnext⟩ := hnext c' hc'
  have hlen : hdr.payloadSize.toNat ≠ 0 := by
    intro hzero
    exact htaken.2 (BitVec.eq_of_toNat_eq hzero)
  have hlt : c₂.otaHeadercnt < c₂.rcOtaInfo.imageSize := by
    by_contra hnot
    exact hrun (hnext.ends (Nat.le_of_not_lt hnot) c' rfl).1
  have hcnt : c₂.otaHeadercnt = t'.otaHeadercnt := hkin.headercnt
  have hinfo : c₂.rcOtaInfo = t'.rcOtaInfo := hkin.rcOtaInfo
  rw [hcnt, hinfo, himg] at hlt
  have hfed := hgo hlt (c.took t') rfl (u32_eq (show c.rcDataCount + 1 < 4294967296 by omega))
  obtain ⟨hsent, hsame⟩ := hnext.goesOn (by rw [hcnt, hinfo, himg]; exact hlt)
  obtain ⟨htransfer, hdata⟩ := hsame c' rfl
  have hcount : c'.rcDataCount = c.rcDataCount + 1 := by
    rw [hdata, hkin.data]
    exact u32_eq (show c.rcDataCount + 1 < 4294967296 by omega)
  have htook : c₂.toTransfer = t' := by
    rcases hkin.transfer with heq | ⟨s, hs, heq⟩
    · exact heq
    · exfalso
      apply hrun
      rw [htransfer, heq]
      exact hs
  obtain ⟨seqNo, ident, hmem⟩ := h.start
  refine ⟨⟨seqNo, ident, sent_mem _ m hmem⟩, ⟨c₂.seqNo, ?_⟩, ?_, ?_⟩
  · have hreq : c₂.dataReq = .dataReq c₂.seqNo ⟨info.toOtaIdent, c.rcDataCount + 1⟩ := by
      have hinfo' : c₂.rcOtaInfo = info := hinfo.trans hfed.hdr
      have hdata' : c₂.rcDataCount = c.rcDataCount + 1 := hdata.symm.trans hcount
      unfold Client.dataReq
      rw [hinfo', hdata']
    rw [hcount, ← hreq]
    change _ ∈ Trace.sent (((otaDataRspHandler cfg now hdr c).ops f).foldl Trace.note m)
    rw [hsent]
    exact List.mem_append_right _ (List.mem_singleton.mpr rfl)
  · rw [htransfer, htook]
    exact hproc.aligned h.aligned (hhigh.trans hup.size.2) hlen
  · exact Polls.some (clientStep_polls (by simp) f c' hc') h.polling hrun

/-- A transfer that starts asks for its first chunk. -/
theorem otaStartRspHandler_asks {hdr : OtaPreamble} (hup : Upgrade cfg hdr file) (hoff : c.flashOffsetAddr = 0) :
    Watched noteMon m (otaStartRspHandler cfg now hdr c) (fun m' r _ => ∀ c', r = some c' →
      (∃ seqNo, .dataReq seqNo ⟨hdr.toOtaIdent, c'.rcDataCount⟩ ∈ m'.sent) ∧ Aligned c'.toTransfer) f := by
  unfold otaStartRspHandler
  rw [if_pos hup.forDevice]
  dsimp only
  rw [if_pos hup.size.2]
  apply watched_bind
  refine Watched.mono (flashEraseSectors_noted _ _ m f) fun m₁ _ f₁ h₁ => ?_
  apply watched_bind
  apply watched_issue (show noteMon m₁ (.setState .starting) = some m₁ from rfl)
  refine Watched.mono otaDataReqCb_noted fun m' r f' hr => ?_
  obtain ⟨rfl, hr⟩ := hr
  intro c' hc'
  obtain ⟨htransfer, hdata⟩ := hr c' hc'
  constructor
  · refine ⟨c.seqNo, List.mem_append_right _ (List.mem_singleton.mpr ?_)⟩
    rw [hdata]
    rfl
  · rw [htransfer]
    constructor
    · exact fun _ => hoff
    · intro hst
      cases hst

theorem Asking.begin {hdr : OtaPreamble} (hup : Upgrade cfg hdr file) (hoff : c.flashOffsetAddr = 0)
    (hstart : ∃ seqNo ident, .startReq seqNo ident ∈ m.sent)
    (hc' : (clientStep cfg now c (.startRsp hdr)).value f = some c') :
    Asking hdr c' (((clientStep cfg now c (.startRsp hdr)).ops f).foldl Trace.note m) := by
  obtain ⟨seqNo, ident, hmem⟩ := hstart
  obtain ⟨hchunk, haligned⟩ := watched_noted (@otaStartRspHandler_asks cfg now file c m f hdr hup hoff) c' hc'
  refine ⟨⟨seqNo, ident, sent_mem _ m hmem⟩, hchunk, haligned, ?_⟩
  -- an accepted START_RSP always registers the timer
  have hpolls : Leads (otaStartRspHandler cfg now hdr c) fun c' => ∃ i, c'.tryPollingCb = some i := by
    unfold otaStartRspHandler
    rw [if_pos hup.forDevice]
    dsimp only
    rw [if_pos hup.size.2]
    apply yields_bind
    apply yields_any
    intro _
    apply yields_bind
    apply yields_any
    intro _
    exact otaDataReqCb_polls
  exact hpolls f c' hc'

/-- A chunk that comes too late starts nothing. -/
theorem Taken.ended (htaken : Taken c hdr) (hended : Ended c.otaState)
    (hc' : (clientStep cfg now c (.dataRsp hdr)).value f = some c') : Ended c'.otaState := by
  obtain ⟨-, hnext⟩ := watched_noted
    (@otaDataRspHandler_takes cfg now hdr c ⟨[], 0, []⟩ f _ _ htaken (otaDataProcess_ended hended))
  obtain ⟨c₂, hkin, hnext⟩ := hnext c' hc'
  exact hnext.ended (hkin.ended hended)

end Ask

/-- What a running transfer has asked for, and START_RSP only after START_REQ. -/
structure Asked (info : OtaPreamble) (w : OtaNet) : Prop where
  answered : ∀ seqNo hdr, .startRsp seqNo hdr ∈ w.rsps → ∃ seqNo ident, .startReq seqNo ident ∈ w.trace.sent
  asking : ∀ c, w.client.client = some c → ¬ Ended c.otaState → Asking info c w.trace

section Run
variable {cfg : OtaCfg} {serverMcu : Mcu} {f : Flash} {w : OtaNet} {now : U32} {k : ClientCall} {c : Client}

theorem otaServerCmd_startRsp {s : Server} {req : OtaReq} {seqNo : Byte} {hdr : OtaPreamble}
    (h : (otaServerCmd serverMcu f s req).2 = some (.startRsp seqNo hdr)) : ∃ seqNo ident, req = .startReq seqNo ident := by
  cases req with
  | startReq seqNo ident => exact ⟨seqNo, ident, rfl⟩
  | stopReq seqNo ident =>
    obtain ⟨hstop, -⟩ := otaServerCmd_stopReq serverMcu f s seqNo ident
    obtain ⟨_, _, heq⟩ := hstop _ h
    cases heq
  | dataReq seqNo req =>
    unfold otaServerCmd at h
    dsimp only at h
    split_ifs at h
    unfold otaDataReqHandler at h
    split_ifs at h
    · cases h
    · cases h

theorem Asked.client (h : Asked (offeredInfo serverMcu f) w) (hinv : NetInv cfg serverMcu f w)
    (hoffer : Offers f (upgradeBase serverMcu f) cfg.ident) (henv : NetEnv w (.client now k))
    (hfresh : StartsFresh w (.client now k)) {c c' : Client} (hc : w.client.client = some c)
    (hc' : (clientStep cfg now c k).value w.client.flash = some c') (hrun : ¬ Ended c'.otaState) :
    Asking (offeredInfo serverMcu f) c' (((clientStep cfg now c k).ops w.client.flash).foldl Trace.note w.trace) := by
  have hup := hoffer.upgrade
  have hquiet (hstart : k ≠ .startReq) (hrsp : ∀ hdr, k ≠ .startRsp hdr) (hdata : ∀ hdr, k ≠ .dataRsp hdr) :=
    Asking.quiet (h.asking c hc) hstart
      ((watched_noted (@clientStep_quiet cfg now c w.trace w.client.flash k hstart hrsp hdata)).client c' hc') hc' hrun
  cases k with
  | startReq => exact absurd henv id
  | startRsp hdr =>
    obtain ⟨seqNo, hmem⟩ := henv
    cases hinv with
    | stuck hnone => exact absurd (hc.symm.trans hnone) (by simp)
    | ended c₁ hc₁ hover =>
      obtain rfl := Option.some.inj (hc.symm.trans hc₁)
      exact absurd (hfresh c hc).2 hover.2
    | early c₁ hc₁ _ hrsps =>
      obtain ⟨_, _, heq⟩ := hrsps _ hmem
      cases heq
    | live c₁ hc₁ hlive _ hrsps =>
      obtain rfl := Option.some.inj (hc.symm.trans hc₁)
      have hhdr : hdr = offeredInfo serverMcu f := hrsps _ hmem
      subst hhdr
      exact Asking.begin hup (hlive.fresh (hfresh c hc).1).2.2 (h.answered _ _ hmem) hc'
  | dataRsp hdr =>
    obtain ⟨seqNo, data, hmem, hreads⟩ := henv
    by_cases htaken : Taken c hdr
    · have hactive : ¬ Ended c.otaState := fun hended => hrun (htaken.ended hended hc')
      cases hinv with
      | stuck hnone => exact absurd (hc.symm.trans hnone) (by simp)
      | ended c₁ hc₁ hover =>
        obtain rfl := Option.some.inj (hc.symm.trans hc₁)
        exact absurd hover.1 hactive
      | early c₁ hc₁ _ hrsps =>
        obtain ⟨_, _, heq⟩ := hrsps _ hmem
        cases heq
      | live c₁ hc₁ hlive _ hrsps =>
        obtain rfl := Option.some.inj (hc.symm.trans hc₁)
        cases hlive.1 with
        | waiting hw => exact absurd hw.state hactive
        | calm hcalm _ => exact absurd hcalm.state hactive
        | feeding hf => exact (h.asking c hc hactive).take hup htaken hf (hrsps _ hmem hdr hreads) hc' hrun
    · have hstep := watched_noted (@otaDataRspHandler_quiet cfg now hdr c w.trace w.client.flash htaken)
      exact Asking.quiet (h.asking c hc) (by simp) (hstep.client c' hc') hc' hrun
  | stopRsp hdr => exact hquiet (by simp) (by simp) (by simp)
  | reclaim => exact hquiet (by simp) (by simp) (by simp)
  | fire i pass ret => exact hquiet (by simp) (by simp) (by simp)
  | otherOn n tUs => exact hquiet (by simp) (by simp) (by simp)
  | otherUnon i => exact hquiet (by simp) (by simp) (by simp)

theorem Asked.step (h : Asked (offeredInfo serverMcu f) w) (hinv : NetInv cfg serverMcu f w)
    (hoffer : Offers f (upgradeBase serverMcu f) cfg.ident) {e : NetEv} (he : LinkStep w e) :
    Asked (offeredInfo serverMcu f) (netStep cfg serverMcu f w e).1 := by
  cases e with
  | server req =>
    refine ⟨fun seqNo hdr hmem => ?_, h.asking⟩
    rcases List.mem_append.mp hmem with hmem | hmem
    · exact h.answered seqNo hdr hmem
    · obtain ⟨seqNo', ident, rfl⟩ := otaServerCmd_startRsp (Option.mem_toList.mp hmem)
      exact ⟨seqNo', ident, he.1⟩
  | client now k =>
    cases hc : w.client.client with
    | none =>
      have hsame : netStep cfg serverMcu f w (.client now k) = (w, ()) := by
        unfold netStep otaStep
        simp only [hc]
        simp [logAfter]
      rw [hsame]
      exact h
    | some c =>
      rw [netStep_some hc]
      refine ⟨fun seqNo hdr hmem => ?_, fun c' hc' hrun => ?_⟩
      · obtain ⟨seqNo', ident, hmem'⟩ := h.answered seqNo hdr hmem
        exact ⟨seqNo', ident, sent_mem _ _ hmem'⟩
      · exact h.client hinv hoffer he.1 he.2 hc hc' hrun

end Run

/-! ### The next exchange -/

section Exchange
variable {cfg : OtaCfg} {now : U32} {info : OtaPreamble} {file : Nat → Byte} {hdrLen binSize : Nat} {c : Client}
  {m : Trace} {log : List Nat} {f : Flash} {hdr : OtaDataFrame} {t' : Transfer} {ps : List (Nat × Byte)}

theorem otaDataProcess_fits {mcu : Mcu} {len : Byte} {pData : Nat → Byte} {t : Transfer}
    (h : ChunkFits mcu len pData t f) : ((otaDataProcess mcu len pData t).value f).1 = true := by
  unfold ChunkFits at h
  unfold otaDataProcess
  cases hst : t.otaState with
  | starting =>
    rw [hst] at h
    dsimp only at h ⊢
    by_cases hdata : (otaHeaderLoop pData len.toNat 0 t).2.otaState = .dataing
    · rw [if_pos hdata]
      exact otaProgram_value.mpr (h hdata)
    · rw [if_neg hdata]
      rfl
  | dataing =>
    rw [hst] at h
    exact otaProgram_value.mpr h
  | success => rfl
  | failed => rfl
  | finished => rfl

theorem otaDataRspHandler_value (htaken : Taken c hdr)
    (hproc : Processes (otaDataProcess cfg.mcu hdr.payloadSize hdr.payload c.toTransfer) t' ps)
    (hfits : ChunkFits cfg.mcu hdr.payloadSize hdr.payload c.toTransfer f) :
    (otaDataRspHandler cfg now hdr c).value f = (otaDataRspNext cfg now (c.took t')).value
      ((otaDataProcess cfg.mcu hdr.payloadSize hdr.payload c.toTransfer).final f) := by
  have hvalue : (otaDataProcess cfg.mcu hdr.payloadSize hdr.payload c.toTransfer).value f = (true, t') :=
    Prod.ext (otaDataProcess_fits hfits) (hproc f).1
  unfold otaDataRspHandler
  rw [if_pos htaken.1]
  dsimp only
  rw [if_neg htaken.2, Prog.value_bind]
  have htransfer : c.unonAutoPolling.unonTryPolling.toTransfer = c.toTransfer := rfl
  rw [htransfer, hvalue]
  dsimp only
  rw [if_pos rfl]
  rfl

theorem Feeding.fits (h : Feeding cfg info file c m log) (hfile : OfferedFile cfg info file hdrLen binSize)
    (hsep : Separable cfg.mcu file info.imageSize hdrLen binSize) (hgood : GoodFrame info file hdr)
    (htaken : Taken c hdr) (hboot : c.mcuBootAddr = 0) (hlaid : Laid info.imageSize m.programmed f) :
    ChunkFits cfg.mcu hdr.payloadSize hdr.payload c.toTransfer f := by
  have hlow := h.low
  have hhigh := h.high
  obtain ⟨⟨-, hn⟩, hpay⟩ := htaken
  obtain ⟨hlen, hbytes⟩ := hgood.payload (by omega) hpay
  rw [hn] at hlen hbytes
  obtain ⟨junk, t₀, ht₀, hfed⟩ := h.fed
  rw [hlen]
  exact hfed.fits hfile.length hfile.upgrade.size.2 hfile.shorter hsep.1.1 hsep.1.2 ht₀ (by omega) hboot hlaid _ hbytes

/-- With the whole file counted the payload is summed too. -/
theorem Feeds.inPayload {mcu : Mcu} {size k : Nat} {junk : Nat → Nat → Byte} {t₀ t : Transfer}
    (h : Feeds mcu file size junk k t₀ t ps) (hlen : ofLe (bytes file 6 2) = hdrLen)
    (hsum : size = hdrLen + binSize + 6) (hsize : size < otaMaxImageSize) (hhdr : hdrLen < size) (ht₀ : Started size t₀)
    (hk : 48 * k < size + 48) (hsep : Separable mcu file size hdrLen binSize) (hpos : binSize ≠ 0)
    (hfull : size ≤ t.otaHeadercnt) : InPayload mcu file size hdrLen t₀.mcuBootAddr t binSize := by
  obtain ⟨⟨-, hframe⟩, hkey⟩ := hsep
  unfold sizeofOtaSignInfo otaFramesize at *
  have hends := (hkey.resolve_left hpos).1
  by_cases hlow : hdrLen / 48 < k
  · have hsub : hdrLen % 48 + 6 ≤ frameLen size (hdrLen / 48) := by
      unfold frameLen otaFramesize
      omega
    obtain ⟨t₁, h₁, ht₁⟩ := feeds_payload junk hlen hsize hends hhdr hsub ht₀.inHeader k hlow hk
    obtain ⟨rfl, -⟩ := h.unique h₁
    have hcnt := ht₁.count
    have hall : min size (48 * k) - (hdrLen + 6) = binSize := by omega
    rw [hall] at ht₁
    exact ht₁
  · obtain ⟨t₁, h₁, ht₁⟩ := @feeds_header mcu file size hdrLen _ junk t₀ hlen hsize ht₀.inHeader k hk (fun _ => by omega)
    obtain ⟨rfl, -⟩ := h.unique h₁
    have hcnt := ht₁.count
    omega

/-- After the last chunk both checks pass. -/
theorem Feeding.verified (h : Feeding cfg info file c m log) (hfile : OfferedFile cfg info file hdrLen binSize)
    (hsep : Separable cfg.mcu file info.imageSize hdrLen binSize) (himg : CheckedImage (payloadAt file hdrLen) binSize)
    (hkey : payloadAt file hdrLen cfg.mcu.keywordAddrOffset = tlImageStartFlag) (hgood : GoodFrame info file hdr)
    (htaken : Taken c hdr) (haimed : Aimed c.toTransfer) (haligned : Aligned c.toTransfer)
    (hlaid : Laid info.imageSize m.programmed f)
    (hproc : Processes (otaDataProcess cfg.mcu hdr.payloadSize hdr.payload c.toTransfer) t' ps)
    (hfull : info.imageSize ≤ t'.otaHeadercnt) :
    otaVerify cfg.mcu t' ((otaDataProcess cfg.mcu hdr.payloadSize hdr.payload c.toTransfer).final f) = some true := by
  have hup := hfile.upgrade
  have hmax : info.imageSize < 196608 := hup.size.2
  have hlow := h.low
  have hhigh := h.high
  have hlong := himg.long
  have hsum : info.imageSize = hdrLen + binSize + 6 := by
    have hsum := hfile.sum
    have hle := hsep.1.1
    have hbin := hfile.bin
    unfold sizeofOtaSignInfo at hsum hle
    unfold u32 at hsum
    omega
  have hlen : hdr.payloadSize.toNat ≠ 0 := by
    intro hzero
    exact htaken.2 (BitVec.eq_of_toNat_eq hzero)
  have hboot : t'.mcuBootAddr = 0 := by
    have hprocessed := wp_result (@otaDataProcess_wp cfg.mcu hdr.payloadSize hdr.payload _ f haimed (by omega))
    rw [(hproc f).1] at hprocessed
    exact hprocessed.boot
  obtain ⟨junk, t₀, ht₀, hfeeds⟩ := h.feeds hgood htaken hproc
  have hpayload := hfeeds.inPayload hfile.length hsum hup.size.2 hfile.shorter ht₀ (by omega) hsep (by omega) hfull
  have hprog := hfeeds.full hfile.length hfile.sum hfile.bin hup.size.2 hfile.shorter ht₀ (by omega) hsep hfull
  rw [hboot] at hprog
  have hlaid' : Laid info.imageSize (placed flashOtaNewimageAddr (bytes (keywordSet cfg.mcu 0xff (payloadAt file hdrLen)) 0 binSize))
      ((otaDataProcess cfg.mcu hdr.payloadSize hdr.payload c.toTransfer).final f) := by
    obtain ⟨hnoted, -⟩ := watched_noted (otaDataProcess_noted hproc (m := m) (g := f))
    obtain ⟨qs, hqs, hrun⟩ := run_noted ((otaDataProcess cfg.mcu hdr.payloadSize hdr.payload c.toTransfer).ops f) m f
      (by rw [hnoted])
    rw [hnoted] at hqs
    change Laid _ _ (run f _)
    rw [hrun, ← List.append_cancel_left hqs]
    change Laid _ (placed (otaBaseAddr 0) _) _
    rw [← hprog]
    exact hlaid.onward
  have hbytes := hlaid'.reads (by rw [bytes_length]; omega)
  rw [bytes_length] at hbytes
  have hsize : t'.otaHeadersize = hdrLen := by
    have halign := (hproc.aligned haligned (hhigh.trans hup.size.2) hlen).payload hpayload.state
    rw [hpayload.count, hpayload.offset] at halign
    omega
  apply otaVerify_stored himg hkey hup.size.2 hsum hboot hpayload.imageSize hsize _ hbytes
  have hcrc := hpayload.crc
  have hall : min binSize (info.imageSize - hdrLen - 10) = binSize - 4 := by omega
  rw [hall] at hcrc
  unfold keywordSet at hcrc
  rw [← hkey, Function.update_eq_self] at hcrc
  exact hcrc

/-- The transfer has succeeded, or it waits for chunk `k`. -/
def Onward (k : Nat) (c : Client) : Prop :=
  c.otaState = .success ∧ c.otaHeadercnt ≠ 0 ∨ ¬ Ended c.otaState ∧ c.rcDataCount = k ∧ HasRoom c

theorem HasFree.register {cb : EvCb} {tUs : U32} (h : HasFree c) :
    ∃ i l, onTimer cfg.clock1us now cb tUs c.evTimerList = some (i, l) := by
  obtain ⟨j, hj⟩ := h
  obtain ⟨⟨i, l⟩, hl⟩ := Option.isSome_iff_exists.mp (onTimer_isSome cfg.clock1us now cb tUs hj)
  exact ⟨i, l, hl⟩

/-- A cancelled slot makes room for the next exchange. -/
theorem otaDataRspNext_onward {i₀ : Fin 12} (hfree : HasFree c) (hauto : c.autoPollingCb = none)
    (htry : c.tryPollingCb = none) (hslot : (c.evTimerList.slots i₀).valid = 2 ∧ (c.evTimerList.slots i₀).busy = 2)
    (hrun : ¬ Ended c.otaState) (hcnt : c.otaHeadercnt ≠ 0)
    (hverify : c.rcOtaInfo.imageSize ≤ c.otaHeadercnt → otaVerify cfg.mcu c.toTransfer f = some true) :
    ∃ c', (otaDataRspNext cfg now c).value f = some c' ∧
      Onward c.rcDataCount { c' with evTimerList := reclaim c'.evTimerList } := by
  unfold otaDataRspNext
  by_cases hend : c.rcOtaInfo.imageSize ≤ c.otaHeadercnt
  · obtain ⟨i, l, hl⟩ := @HasFree.register cfg now c .otaStopRspCb stopreqTimeUs hfree
    rw [if_pos hend, Prog.value_bind, Prog.value_query, hverify hend, Prog.value_bind]
    refine ⟨{ c with
      otaState := .success, otaRetryCnt := datareqRetrycnt, evTimerList := l, autoPollingCb := some i }, ?_, ?_⟩
    · change Client.onAutoPolling cfg now _ _ _ = _
      unfold Client.onAutoPolling Client.evOnTimer
      dsimp only
      rw [hl]
      rfl
    · left
      exact ⟨rfl, hcnt⟩
  · obtain ⟨i, l, hl⟩ := @HasFree.register cfg now c .otaDataTryReqCb datatryTimeUs hfree
    obtain ⟨hi, -, hothers⟩ := onTimer_slot hl
    have hne : i₀ ≠ i := by
      rintro rfl
      omega
    have hunon : c.unonTryPolling = c := by
      unfold Client.unonTryPolling
      rw [htry]
      exact congrArg (fun h => { c with tryPollingCb := h }) htry.symm
    rw [if_neg hend]
    refine ⟨{ c with
      seqNo := c.seqNo + 1, otaRetryCnt := datareqRetrycnt, evTimerList := l, tryPollingCb := some i }, ?_,
      .inr ⟨hrun, rfl, i₀, ?_, ?_, ?_⟩⟩
    · unfold otaDataReqCb
      rw [hunon]
      dsimp only
      rw [Prog.value_bind]
      change Client.onTryPolling cfg now _ _ _ = _
      unfold Client.onTryPolling Client.evOnTimer
      dsimp only
      rw [hl]
      rfl
    · dsimp only [reclaim]
      rw [hothers i₀ hne, if_pos hslot.1]
    · dsimp only
      rw [hauto]
      simp
    · intro heq
      exact hne (Option.some.inj heq).symm

end Exchange

section Serve
variable {cfg : OtaCfg} {serverMcu : Mcu} {f : Flash}

/-- A server that is asked to start again answers the next DATA_REQ with its chunk. -/
theorem otaServerCmd_restart (hoffer : Offers f (upgradeBase serverMcu f) cfg.ident)
    (hmod : (offeredInfo serverMcu f).imageSize % otaFramesize ≠ 0) (s : Server) (s₁ s₂ : Byte) {k : Nat}
    (hk : 48 * k < (offeredInfo serverMcu f).imageSize) :
    ∃ seqNo, (otaServerCmd serverMcu f (otaServerCmd serverMcu f s (.startReq s₁ cfg.ident)).1
      (.dataReq s₂ ⟨(offeredInfo serverMcu f).toOtaIdent, k⟩)).2 =
        some (.dataRsp seqNo (some (⟨(offeredInfo serverMcu f).toOtaIdent, k⟩, fileChunk serverMcu f k))) := by
  have hsize := hoffer.upgrade.size.2
  obtain ⟨hserving, -⟩ := otaServerCmd_startReq hoffer s s₁
  have hlast : 48 * k + 48 ≠ (offeredInfo serverMcu f).imageSize := by
    unfold otaFramesize at hmod
    omega
  have hnumber : (otaServerCmd serverMcu f s (.startReq s₁ cfg.ident)).1.seqNumber = 0x100 := rfl
  generalize (otaServerCmd serverMcu f s (.startReq s₁ cfg.ident)).1 = s' at hserving hnumber ⊢
  have hs : Serving serverMcu f { s' with seqNumber := s₂.toNat } :=
    ⟨hserving.info, hserving.valid, hserving.size, hserving.boot⟩
  obtain ⟨-, hrsp⟩ := chunkStep_serving hs hsize hk
  rw [otaReadLen_exact hk hsize, if_neg hlast] at hrsp
  have hne : s'.seqNumber ≠ s₂.toNat := by
    have hlt := s₂.isLt
    omega
  refine ⟨s'.seqNo, ?_⟩
  unfold otaServerCmd
  dsimp only
  rw [if_pos hne]
  exact congrArg some hrsp

end Serve

section Link
variable {cfg : OtaCfg} {serverMcu : Mcu} {f : Flash} {old : List Byte} {w : OtaNet}

/-- A file that can come to an end: it is cut right, and its image passes its checks. -/
structure Completable (cfg : OtaCfg) (serverMcu : Mcu) (f : Flash) : Prop where
  offers : Offers f (upgradeBase serverMcu f) cfg.ident
  separable : Separable cfg.mcu (offeredFile serverMcu f) (offeredInfo serverMcu f).imageSize (offeredHdrLen serverMcu f)
    (offeredBinSize serverMcu f)
  checked : CheckedImage (payloadAt (offeredFile serverMcu f) (offeredHdrLen serverMcu f)) (offeredBinSize serverMcu f)
  keyword : payloadAt (offeredFile serverMcu f) (offeredHdrLen serverMcu f) cfg.mcu.keywordAddrOffset = tlImageStartFlag
  lastChunk : (offeredInfo serverMcu f).imageSize % otaFramesize ≠ 0

theorem Delivering.feeding (h : Delivering cfg serverMcu f old w) {c : Client} (hc : w.client.client = some c)
    (hactive : ¬ Ended c.otaState) :
    Live cfg (offeredInfo serverMcu f) (offeredFile serverMcu f) c w.trace w.log ∧
      Feeding cfg (offeredInfo serverMcu f) (offeredFile serverMcu f) c w.trace w.log := by
  cases h.inv with
  | stuck hnone => exact absurd (hc.symm.trans hnone) (by simp)
  | ended c₁ hc₁ hover =>
    obtain rfl := Option.some.inj (hc.symm.trans hc₁)
    exact absurd hover.1 hactive
  | early c₁ hc₁ hearly _ =>
    obtain rfl := Option.some.inj (hc.symm.trans hc₁)
    exact absurd hearly.1.state hactive
  | live c₁ hc₁ hlive _ _ =>
    obtain rfl := Option.some.inj (hc.symm.trans hc₁)
    cases hlive.1 with
    | waiting hw => exact absurd hw.state hactive
    | calm hcalm _ => exact absurd hcalm.state hactive
    | feeding hf => exact ⟨hlive, hf⟩

/-- The client takes the next chunk of the file. -/
theorem Delivering.chunk (h : Delivering cfg serverMcu f old w) (hfile : Completable cfg serverMcu f) {c : Client}
    (hc : w.client.client = some c)
    (hfeeding : Feeding cfg (offeredInfo serverMcu f) (offeredFile serverMcu f) c w.trace w.log)
    (hask : Asking (offeredInfo serverMcu f) c w.trace) (hroom : HasRoom c) (now : U32) :
    ∃ c', (clientStep cfg now c (.dataRsp (offeredFrame serverMcu f c.rcDataCount))).value w.client.flash = some c' ∧
      Onward (c.rcDataCount + 1) { c' with evTimerList := reclaim c'.evTimerList } := by
  have hoffered := hfile.offers.file
  have hup := hfile.offers.upgrade
  have hmax : (offeredInfo serverMcu f).imageSize < 196608 := hup.size.2
  have hlow := hfeeding.low
  have hhigh := hfeeding.high
  have hfilling := h.filling c hc
  obtain ⟨i₀, htry⟩ := hask.polling
  have hgood : GoodFrame (offeredInfo serverMcu f) (offeredFile serverMcu f) (offeredFrame serverMcu f c.rcDataCount) :=
    ⟨rfl, fun _ _ => ⟨rfl, fun _ _ => rfl⟩⟩
  have hpos : 0 < frameLen (offeredInfo serverMcu f).imageSize c.rcDataCount := by
    unfold frameLen otaFramesize
    omega
  have hle := frameLen_le (offeredInfo serverMcu f).imageSize c.rcDataCount
  have hlen : (offeredFrame serverMcu f c.rcDataCount).payloadSize.toNat =
      frameLen (offeredInfo serverMcu f).imageSize c.rcDataCount := frameLen_toNat _ _
  have htaken : Taken c (offeredFrame serverMcu f c.rcDataCount) := by
    refine ⟨⟨?_, rfl⟩, fun hzero => ?_⟩
    · rw [hfeeding.hdr]
      rfl
    · rw [hzero] at hlen
      exact absurd hlen.symm (Nat.ne_of_gt hpos)
  have hlaid := hfilling.laid fun hnot => hfeeding.state.elim hnot.1.1 hnot.1.2
  obtain ⟨t', ps, hproc, hread⟩ := @otaDataProcess_reads cfg.mcu (offeredFrame serverMcu f c.rcDataCount).payload
    (offeredFrame serverMcu f c.rcDataCount).payloadSize c.toTransfer hfeeding.state
    ⟨by omega, by omega⟩ (hhigh.trans hup.size.2)
  have hcount := hread.low
  have hfits := hfeeding.fits hoffered hfile.separable hgood htaken hfilling.aimed.boot hlaid
  have hnumber : (c.took t').rcDataCount = c.rcDataCount + 1 :=
    u32_eq (show c.rcDataCount + 1 < 4294967296 by omega)
  change ∃ c', (otaDataRspHandler cfg now _ c).value _ = some c' ∧ _
  rw [otaDataRspHandler_value htaken hproc hfits, ← hnumber]
  apply @otaDataRspNext_onward _ _ _ _ i₀
  · exact hroom.unonBoth
  · rfl
  · rfl
  · have hslot : (c.took t').evTimerList.slots i₀ = cancelTimer ((evUnonTimer c.autoPollingCb c.evTimerList).slots i₀) := by
      change (evUnonTimer c.tryPollingCb _).slots i₀ = _
      rw [htry]
      exact Function.update_self _ _ _
    rw [hslot]
    exact ⟨rfl, rfl⟩
  · exact fun hended => hread.state.elim hended.1 hended.2
  · change t'.otaHeadercnt ≠ 0
    omega
  · intro hfull
    have himage : t'.rcOtaInfo.imageSize = (offeredInfo serverMcu f).imageSize := by
      rw [hread.imageSize, hfeeding.hdr]
    change t'.rcOtaInfo.imageSize ≤ t'.otaHeadercnt at hfull
    rw [himage] at hfull
    exact hfeeding.verified hoffered hfile.separable hfile.checked hfile.keyword hgood htaken hfilling.aimed hask.aligned
      hlaid hproc hfull

variable (cfg serverMcu f) in
/-- A run that the link allows leads from one state to the other. -/
def LeadsTo : OtaNet → OtaNet → Prop := Refine.Reaches (netStep cfg serverMcu f) LinkStep

theorem leadsTo_step {w' : OtaNet} {e : NetEv} (he : NetEnv w e) (hfresh : StartsFresh w e)
    (hw' : (netStep cfg serverMcu f w e).1 = w') : LeadsTo cfg serverMcu f w w' := by
  subst hw'
  exact Refine.Reaches.single ⟨he, hfresh⟩

theorem server_exchange {req : OtaReq} (hreq : req ∈ w.trace.sent) :
    ∃ w', LeadsTo cfg serverMcu f w w' ∧ w'.client = w.client ∧ w'.trace = w.trace ∧
      w'.server = (otaServerCmd serverMcu f w.server req).1 ∧
      ∀ rsp, (otaServerCmd serverMcu f w.server req).2 = some rsp → rsp ∈ w'.rsps := by
  refine ⟨_, @leadsTo_step cfg serverMcu f w _ (.server req) hreq trivial rfl, rfl, rfl, rfl, fun rsp hrsp => ?_⟩
  exact List.mem_append_right _ (Option.mem_toList.mpr hrsp)

/-- A chunk arrives, and `ev_process_timer` frees the timers that were cancelled. -/
theorem client_exchange {c c₁ : Client} {hdr : OtaDataFrame} (hc : w.client.client = some c)
    (henv : NetEnv w (.client 0 (.dataRsp hdr)))
    (hc₁ : (clientStep cfg 0 c (.dataRsp hdr)).value w.client.flash = some c₁) :
    ∃ w', LeadsTo cfg serverMcu f w w' ∧ w'.client.client = some { c₁ with evTimerList := reclaim c₁.evTimerList } := by
  obtain ⟨w₁, hw₁⟩ : ∃ w₁, (netStep cfg serverMcu f w (.client 0 (.dataRsp hdr))).1 = w₁ := ⟨_, rfl⟩
  have hclient : w₁.client.client = some c₁ := by
    rw [← hw₁, netStep_some hc]
    exact hc₁
  have h₁ := leadsTo_step henv trivial hw₁
  have h₂ : LeadsTo cfg serverMcu f w₁ _ := leadsTo_step (e := .client 0 .reclaim) trivial trivial (netStep_some hclient)
  exact ⟨_, h₁.trans h₂, rfl⟩

/-- START_REQ again, the request for the next chunk, its answer, and a pass over the timers. -/
theorem Delivering.exchange (h : Delivering cfg serverMcu f old w) (hasked : Asked (offeredInfo serverMcu f) w)
    (hfile : Completable cfg serverMcu f) {c : Client} (hc : w.client.client = some c) (hactive : ¬ Ended c.otaState)
    (hroom : HasRoom c) :
    48 * c.rcDataCount < (offeredInfo serverMcu f).imageSize ∧
      ∃ w' c', LeadsTo cfg serverMcu f w w' ∧ w'.client.client = some c' ∧ Onward (c.rcDataCount + 1) c' := by
  have hoffer := hfile.offers
  obtain ⟨hlive, hfeeding⟩ := h.feeding hc hactive
  have hlow := hfeeding.low
  have hhigh := hfeeding.high
  have hk : 48 * c.rcDataCount < (offeredInfo serverMcu f).imageSize := by omega
  have hask := hasked.asking c hc hactive
  obtain ⟨s₁, ident, hstart⟩ := hask.start
  obtain ⟨s₂, hchunk⟩ := hask.chunk
  have hident : ident = cfg.ident := hlive.2 _ hstart
  subst hident
  obtain ⟨seqNo, hrsp⟩ := otaServerCmd_restart hoffer hfile.lastChunk w.server s₁ s₂ hk
  obtain ⟨w₁, hw₁, hclient₁, htrace₁, hserver₁, -⟩ := @server_exchange cfg serverMcu f w _ hstart
  rw [← htrace₁] at hchunk
  obtain ⟨w₂, hw₂, hclient₂, -, -, hmem⟩ := @server_exchange cfg serverMcu f w₁ _ hchunk
  rw [hserver₁] at hmem
  obtain ⟨c₁, hc₁, honward⟩ := h.chunk hfile hc hfeeding hask hroom 0
  rw [← hclient₁, ← hclient₂] at hc hc₁
  obtain ⟨w₃, hw₃, hc₃⟩ := client_exchange hc ⟨seqNo, _, hmem _ hrsp, offeredFrame_readsAs _⟩ hc₁
  exact ⟨hk, w₃, _, (hw₁.trans hw₂).trans hw₃, hc₃, honward⟩

theorem LeadsTo.keeps {w' : OtaNet} (h : LeadsTo cfg serverMcu f w w')
    (hoffer : Offers f (upgradeBase serverMcu f) cfg.ident) (hold : Image cfg.mcu old)
    (hw : Delivering cfg serverMcu f old w ∧ Asked (offeredInfo serverMcu f) w) :
    Delivering cfg serverMcu f old w' ∧ Asked (offeredInfo serverMcu f) w' := by
  refine Refine.Reaches.invariant (I := fun w => Delivering cfg serverMcu f old w ∧ Asked (offeredInfo serverMcu f) w)
    (fun w e hw he => ?_) h hw
  exact ⟨hw.1.step hoffer hold he, hw.2.step hw.1.inv hoffer he⟩

/-- One exchange after the other brings the transfer to its end. -/
theorem Delivering.completes (h : Delivering cfg serverMcu f old w) (hasked : Asked (offeredInfo serverMcu f) w)
    (hfile : Completable cfg serverMcu f) (hold : Image cfg.mcu old) {c : Client} (hc : w.client.client = some c)
    (hactive : ¬ Ended c.otaState) (hroom : HasRoom c) :
    ∃ w' c', LeadsTo cfg serverMcu f w w' ∧ w'.client.client = some c' ∧ c'.otaState = .success ∧ c'.otaHeadercnt ≠ 0 := by
  -- the bytes that are still to come
  generalize hn : (offeredInfo serverMcu f).imageSize - 48 * c.rcDataCount = n
  induction n using Nat.strong_induction_on generalizing w c with
  | _ n ih =>
    obtain ⟨hk, w₁, c₁, hw₁, hc₁, honward⟩ := h.exchange hasked hfile hc hactive hroom
    obtain ⟨h₁, hasked₁⟩ := hw₁.keeps hfile.offers hold ⟨h, hasked⟩
    rcases honward with ⟨hdone, hcnt⟩ | ⟨hactive₁, hnumber, hroom₁⟩
    · exact ⟨w₁, c₁, hw₁, hc₁, hdone, hcnt⟩
    · obtain ⟨w₂, c₂, hw₂, hend⟩ := ih _ (by omega) h₁ hasked₁ hc₁ hactive₁ hroom₁ rfl
      exact ⟨w₂, c₂, hw₁.trans hw₂, hend⟩

end Link

/-- Whatever the link did to a running transfer, with a timer to spare it can still be brought to its
end: some continuation succeeds and leaves the offered image in the upper bank. -/
theorem ota_completes {cfg : OtaCfg} {serverMcu : Mcu} {f g : Flash} {c₀ c : Client} {s : Server} {now : U32}
    {es : List NetEv} {old : List Byte} (hfile : Completable cfg serverMcu f) (hold : Image cfg.mcu old)
    (hrun : HoldsImage g 0 old) (hidle : Ended c₀.otaState) (hknown : TryKnown c₀)
    (hes : Refine.Legal (netStep cfg serverMcu f) LinkStep (OtaNet.start cfg now ⟨some c₀, g⟩ s) es)
    (hc : (Refine.run (netStep cfg serverMcu f) (OtaNet.start cfg now ⟨some c₀, g⟩ s) es).1.client.client = some c)
    (hactive : c.otaState = .starting ∨ c.otaState = .dataing) (hroom : HasRoom c) :
    ∃ es', Refine.Legal (netStep cfg serverMcu f) LinkStep (OtaNet.start cfg now ⟨some c₀, g⟩ s) (es ++ es') ∧
      let w := (Refine.run (netStep cfg serverMcu f) (OtaNet.start cfg now ⟨some c₀, g⟩ s) (es ++ es')).1
      ∃ c', w.client.client = some c' ∧ c'.otaState = .success ∧
        bytes w.client.flash flashOtaNewimageAddr (offeredImage serverMcu f).length =
          (offeredImage serverMcu f).set cfg.mcu.keywordAddrOffset 0xff := by
  have hdelivering : Delivering cfg serverMcu f old (OtaNet.start cfg now ⟨some c₀, g⟩ s) :=
    delivering_start hfile.offers hold hrun hidle hknown
  have hasked : Asked (offeredInfo serverMcu f) (OtaNet.start cfg now ⟨some c₀, g⟩ s) := by
    refine ⟨fun seqNo hdr hmem => absurd hmem List.not_mem_nil, fun c hc hrun => ?_⟩
    obtain ⟨⟨i, c'⟩, hreg, rfl⟩ := Option.map_eq_some_iff.mp hc
    obtain ⟨l, -, rfl⟩ := evOnTimer_some hreg
    exact absurd hidle hrun
  have hreach : LeadsTo cfg serverMcu f _ _ := ⟨es, hes, rfl⟩
  obtain ⟨hdelivering₁, hasked₁⟩ := hreach.keeps hfile.offers hold ⟨hdelivering, hasked⟩
  obtain ⟨w, c', ⟨es', hes', rfl⟩, hc', hdone, hcnt⟩ := hdelivering₁.completes hasked₁ hfile hold hc
    (fun hended => hactive.elim hended.1 hended.2) hroom
  obtain ⟨hdelivering₂, -⟩ := LeadsTo.keeps ⟨es', hes', rfl⟩ hfile.offers hold ⟨hdelivering₁, hasked₁⟩
  refine ⟨es', Refine.legal_append.mpr ⟨hes, hes'⟩, c', ?_, hdone, ?_⟩
  · rw [Refine.run_state_append]
    exact hc'
  · rw [Refine.run_state_append]
    exact hdelivering₂.holds hfile.offers hfile.separable hc' hdone hcnt

theorem bootable_completable : Completable cfg8258 .mcu8258 bootableTarget := by
  have hlen : offeredHdrLen .mcu8258 bootableTarget = 56 := by decide +kernel
  have hbin : offeredBinSize .mcu8258 bootableTarget = 64 := by decide +kernel
  have hsize : (offeredInfo .mcu8258 bootableTarget).imageSize = 126 := by decide +kernel
  refine ⟨by decide +kernel, bootable_separable, ?_, ?_, ?_⟩
  · rw [hlen, hbin]
    exact ⟨by decide, by decide +kernel, by decide +kernel⟩
  · rw [hlen]
    decide +kernel
  · rw [hsize]
    decide

theorem ota_completes_bootable : ∃ es,
    Refine.Legal (netStep cfg8258 .mcu8258 bootableTarget) LinkStep linkStart (untilAccepted ++ es) ∧
      ∃ c, (Refine.run (netStep cfg8258 .mcu8258 bootableTarget) linkStart (untilAccepted ++ es)).1.client.client = some c ∧
        c.otaState = .success := by
  have hstate : ((Refine.run (netStep cfg8258 .mcu8258 bootableTarget) linkStart untilAccepted).1.client.client.map
      fun c => (c.otaState, (c.evTimerList.slots 5).busy, c.autoPollingCb, c.tryPollingCb)) =
        some (.starting, 0, none, some 1) := by
    decide +kernel
  obtain ⟨c, hc, hfields⟩ := Option.map_eq_some_iff.mp hstate
  obtain ⟨hstarting, hfields⟩ := Prod.mk.inj hfields
  obtain ⟨hfree, hfields⟩ := Prod.mk.inj hfields
  obtain ⟨hauto, htry⟩ := Prod.mk.inj hfields
  have hroom : HasRoom c := by
    refine ⟨5, hfree, ?_, ?_⟩
    · rw [hauto]
      decide
    · rw [htry]
      decide
  have hlegal : Refine.Legal (netStep cfg8258 .mcu8258 bootableTarget) LinkStep linkStart (untilAccepted ++ []) :=
    untilAccepted_legal (fun _ _ h => h) trivial
  have hrun : HoldsImage (twoBanks shortImage []) 0 shortImage := by
    unfold HoldsImage
    decide +kernel
  have hidle : Ended Client.powerUp.otaState := ended_success
  have hknown : TryKnown .powerUp := fun i h => by cases h.2
  have hlink : linkStart = .start cfg8258 0 ⟨some .powerUp, twoBanks shortImage []⟩ targetIdle := rfl
  rw [List.append_nil] at hlegal
  rw [hlink] at hlegal hc ⊢
  obtain ⟨es, hes, c', hc', hdone, -⟩ := ota_completes bootable_completable shortImage_ok hrun hidle hknown hlegal hc
    (.inl hstarting) hroom
  exact ⟨es, hes, c', hc', hdone⟩

end Rf4ce.Ota
