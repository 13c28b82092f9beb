import Rf4ce.Ota.BootSwap
import Rf4ce.Ota.Client
import Rf4ce.Refine.Run

/-! An update never touches the bank that the device runs from. -/
namespace Rf4ce.Ota
open Crash Drv Common Os

/-- The addresses of the bank at `base`. -/
def InBank (base x : Nat) : Prop := base ≤ x ∧ x < base + flashOtaNewimageAddr

/-! ### The header loop -/

theorem otaHeaderByte_size (pData : Nat → Byte) (i : Nat) {t : Transfer} (h : t.otaHeadersize < 65536) :
    (otaHeaderByte pData i t).1.otaHeadersize < 65536 := by
  unfold otaHeaderByte
  have hword := ofLe_lt (bytes pData i 2)
  rw [bytes_length] at hword
  split_ifs
  · exact hword
  · exact h
  · exact h
  · exact h
  · exact h
  · exact h

/-- What the header loop leaves in place, and how far it counts. -/
structure HeaderRead (t t' : Transfer) (n i i' : Nat) : Prop where
  imageSize : t'.rcOtaInfo.imageSize = t.rcOtaInfo.imageSize
  mcuBootAddr : t'.mcuBootAddr = t.mcuBootAddr
  flashOffsetAddr : t'.flashOffsetAddr = t.flashOffsetAddr
  headersize : t'.otaHeadersize < 65536
  low : t.otaHeadercnt ≤ t'.otaHeadercnt
  high : t'.otaHeadercnt ≤ t.otaHeadercnt + n + 6
  state : t'.otaState = .starting ∨ t'.otaState = .dataing ∧ t'.otaHeadercnt < 65542
  index : i' < 256

theorem otaHeaderLoop_read (pData : Nat → Byte) (n i : Nat) (t : Transfer) (hi : i + n < 256)
    (hcnt : t.otaHeadercnt + n + 6 < 4294967296) (hsize : t.otaHeadersize < 65536) (hst : t.otaState = .starting) :
    HeaderRead t (otaHeaderLoop pData n i t).2 n i (otaHeaderLoop pData n i t).1 := by
  induction n generalizing i t with
  | zero =>
    unfold otaHeaderLoop
    exact ⟨rfl, rfl, rfl, hsize, le_refl _, Nat.le_add_right_of_le (Nat.le_add_right _ _), .inl hst,
      Nat.lt_of_le_of_lt (Nat.le_add_right i 0) hi⟩
  | succ n ih =>
    obtain ⟨himg, hhc, hboot, -, hoff⟩ := otaHeaderByte_frame pData i t
    have hsize' := otaHeaderByte_size pData i hsize
    obtain ⟨hdone, hmore⟩ := otaHeaderByte_done pData i t
    unfold otaHeaderLoop
    generalize otaHeaderByte pData i t = r at himg hhc hboot hoff hsize' hdone hmore
    obtain ⟨t₁, done⟩ := r
    dsimp only at himg hhc hboot hoff hsize' hdone hmore ⊢
    cases done with
    | true =>
      obtain ⟨hst₁, hcnt₁⟩ := hdone rfl
      rw [if_pos rfl, u32_eq (by omega)]
      exact ⟨himg, hboot, hoff, hsize', by dsimp only; omega, by dsimp only; omega,
        .inr ⟨hst₁, by dsimp only; omega⟩, Nat.mod_lt _ (by decide)⟩
    | false =>
      rw [if_neg Bool.false_ne_true, u32_eq (by omega)]
      have hrest := ih (i + 1) { t₁ with otaHeadercnt := t₁.otaHeadercnt + 1 } (by omega) (by dsimp only; omega)
        hsize' ((hmore rfl).trans hst)
      exact ⟨hrest.imageSize.trans himg, hrest.mcuBootAddr.trans hboot, hrest.flashOffsetAddr.trans hoff,
        hrest.headersize, by have := hrest.low; dsimp only at this; omega,
        by have := hrest.high; dsimp only at this; omega, hrest.state, hrest.index⟩

/-! ### What a chunk programs -/

/-- The target bank is the upper one, and the place in it lags behind the count. -/
structure Aim (t : Transfer) : Prop where
  boot : t.mcuBootAddr = 0
  lag : t.flashOffsetAddr ≤ t.otaHeadercnt
  headersize : t.otaHeadersize < 65536

/-- Also after a chunk, before the handler has looked at the count. -/
structure Processed (t : Transfer) : Prop extends Aim t where
  image : t.otaState = .starting ∨ t.otaState = .dataing → t.rcOtaInfo.imageSize < otaMaxImageSize

structure Aimed (t : Transfer) : Prop extends Processed t where
  room : t.otaState = .dataing → t.flashOffsetAddr < otaMaxImageSize

theorem otaProgram_wp {mcu : Mcu} {len i : Nat} {pData : Nat → Byte} {t : Transfer} {f : Flash}
    (ht : Processed t) (hoff : t.flashOffsetAddr < 196615) (hcnt : t.otaHeadercnt + 256 < 4294967296) :
    wp (InBank flashOtaNewimageAddr) (otaProgram mcu len i pData t) (fun r _ => Processed r.2) (fun _ => True) f := by
  unfold otaProgram
  split_ifs
  · exact wp_pure ht trivial
  · have hlen : otaDataLen len i < 256 := Nat.mod_lt _ (by decide)
    have hbase : otaProgramAddr t = 262144 + t.flashOffsetAddr := by
      have hupper : otaBaseAddr 0 = 262144 := rfl
      unfold otaProgramAddr
      rw [ht.boot, hupper]
      exact u32_eq (by omega)
    apply wp_bind
    apply wp_onFlash
    rw [hbase]
    apply flashWriteWithCheck_wp
    · rw [otaProgramData, bytes_length]
      omega
    · intro x h₁ h₂
      rw [otaProgramData, bytes_length] at h₂
      simp only [InBank, flashOtaNewimageAddr]
      omega
    · intro m _
      trivial
    · apply wp_pure _ trivial
      have hlag := ht.lag
      refine ⟨⟨ht.boot, ?_, ht.headersize⟩, ht.image⟩
      · have h₁ : u32 (t.flashOffsetAddr + otaDataLen len i) = t.flashOffsetAddr + otaDataLen len i :=
          u32_eq (by omega)
        have h₂ : u32 (t.otaHeadercnt + otaDataLen len i) = t.otaHeadercnt + otaDataLen len i := u32_eq (by omega)
        simp only [otaCounted]
        rw [h₁, h₂]
        exact Nat.add_le_add_right hlag _

theorem otaDataProcess_wp {mcu : Mcu} {len : Byte} {pData : Nat → Byte} {t : Transfer} {f : Flash}
    (ht : Aimed t) (hcnt : t.otaHeadercnt + 517 ≤ 4294967296) :
    wp (InBank flashOtaNewimageAddr) (otaDataProcess mcu len pData t) (fun r _ => Processed r.2) (fun _ => True) f := by
  have hlen := len.isLt
  have hprocessed := ht.toProcessed
  unfold otaDataProcess
  cases hst : t.otaState with
  | starting =>
    have hread := otaHeaderLoop_read pData len.toNat 0 t (by omega) (by omega) ht.headersize hst
    generalize otaHeaderLoop pData len.toNat 0 t = r at hread
    obtain ⟨i, t₁⟩ := r
    dsimp only at hread ⊢
    have hlag := ht.lag
    have hlow := hread.low
    have hhigh := hread.high
    have hoff := hread.flashOffsetAddr
    have hread' : Processed t₁ := by
      refine ⟨⟨hread.mcuBootAddr.trans ht.boot, by omega, hread.headersize⟩, fun _ => ?_⟩
      rw [hread.imageSize]
      exact ht.image (.inl hst)
    split_ifs with hdata
    · apply wp_bind
      apply wp_issue
      · intro x hx
        cases hx
      · trivial
      · trivial
      · have hsmall : t₁.otaHeadercnt < 65542 := by
          rcases hread.state with h | h
          · rw [h] at hdata
            cases hdata
          · exact h.2
        exact otaProgram_wp hread' (by omega) (by omega)
    · exact wp_pure hread' trivial
  | dataing =>
    have hroom := ht.room hst
    exact otaProgram_wp hprocessed (by unfold otaMaxImageSize at hroom; omega) (by omega)
  | success => exact wp_pure hprocessed trivial
  | failed => exact wp_pure hprocessed trivial
  | finished => exact wp_pure hprocessed trivial

/-! ### The handlers -/

theorem Aim.ended {t : Transfer} (h : Aim t) {s : OtaState} (hs : s ≠ .starting ∧ s ≠ .dataing) :
    Aimed { t with otaState := s } := by
  refine ⟨⟨⟨h.boot, h.lag, h.headersize⟩, ?_⟩, ?_⟩
  · rintro (hst | hst)
    · exact absurd hst hs.1
    · exact absurd hst hs.2
  · intro hst
    exact absurd hst hs.2

/-- All operations are in the upper bank, and the client still aims there. -/
def Aims (m : OtaM (Option Client)) (f : Flash) : Prop :=
  wp (InBank flashOtaNewimageAddr) m (fun r _ => ∀ c, r = some c → Aimed c.toTransfer) (fun _ => True) f

section Handlers
variable {cfg : OtaCfg} {now : U32} {c : Client} {f : Flash}

theorem aims_pure {r : Option Client} (h : ∀ c, r = some c → Aimed c.toTransfer) :
    Aims (pure r) f := wp_pure h trivial

/-- Sending a message or assigning `ota_state` does not touch the flash. -/
theorem aims_issue {op : OtaOp} {g : Unit → OtaM (Option Client)} (hop : ∀ x, ¬ Device.foot op x)
    (h : Aims (g ()) (Device.apply f op)) : Aims (issue op >>= g) f := by
  apply wp_bind
  apply wp_issue
  · intro x hx
    exact absurd hx (hop x)
  · trivial
  · trivial
  · exact h

theorem aims_register {cb : EvCb} {tUs : U32} (h : Aimed c.toTransfer) {g : Fin 12 × Client → Client}
    (hg : ∀ p, (g p).toTransfer = p.2.toTransfer) :
    Aims (pure ((c.evOnTimer cfg now cb tUs).map g)) f := by
  apply aims_pure
  intro c' hc'
  obtain ⟨⟨i, c''⟩, hon, rfl⟩ := Option.map_eq_some_iff.mp hc'
  obtain ⟨l, -, rfl⟩ := evOnTimer_some hon
  rw [hg]
  exact h

theorem otaFail_aims (h : Aim c.toTransfer) : Aims (otaFail cfg now c) f := by
  apply aims_issue
  · intro x hx
    cases hx
  · have hended := h.ended (s := .failed) (by decide)
    exact aims_register hended fun _ => rfl

theorem otaDataReqCb_aims (h : Aimed c.toTransfer) : Aims (otaDataReqCb cfg now c) f := by
  apply aims_issue
  · intro x hx
    cases hx
  · unfold Client.onTryPolling
    apply aims_register
    · exact h
    · intro _
      rfl

theorem otaStartReq_aims (hboot : HasStartUpFlag cfg.mcu f 0) : Aims (otaStartReq cfg now c) f := by
  have hbyte : mcuBootAddrByte cfg.mcu f = 0 := by
    unfold mcuBootAddrByte
    rw [mcuBootAddrGet_eq, if_pos hboot]
  have hzero : 0 < otaMaxImageSize := by decide
  apply wp_bind
  apply wp_query _ trivial
  unfold Client.onAutoPolling
  apply aims_register
  · exact ⟨⟨⟨hbyte, Nat.le_refl 0, Nat.succ_pos 65535⟩, fun _ => hzero⟩, fun _ => hzero⟩
  · intro _
    rfl

theorem otaStartRspHandler_aims (h : Aimed c.toTransfer) (hdr : OtaPreamble) :
    Aims (otaStartRspHandler cfg now hdr c) f := by
  have haim : Aim { c.toTransfer with rcOtaInfo := hdr } := ⟨h.boot, h.lag, h.headersize⟩
  unfold otaStartRspHandler
  split_ifs with hid himg
  · have hsectors : (hdr.imageSize / flashSectorSize + 1) % 65536 ≤ 48 := by
      unfold flashSectorSize
      unfold otaMaxImageSize at himg
      omega
    have hbase : otaBaseAddr c.mcuBootAddr = flashOtaNewimageAddr := by
      rw [h.boot]
      rfl
    generalize (hdr.imageSize / flashSectorSize + 1) % 65536 = n at hsectors
    have herase := flashEraseSectors_wp f (show flashOtaNewimageAddr % 4096 = 0 by decide) n
    apply wp_bind
    apply wp_onFlash
    change wp _ (flashEraseSectors (otaBaseAddr c.mcuBootAddr) n) _ _ f
    rw [hbase]
    apply wp_region (wp_mono herase _ fun _ _ => trivial)
    · rintro x ⟨h₁, h₂⟩
      refine ⟨h₁, ?_⟩
      unfold flashOtaNewimageAddr at h₂ ⊢
      omega
    · intro _ g _
      apply aims_issue
      · intro x hx
        cases hx
      · apply otaDataReqCb_aims
        refine ⟨⟨⟨h.boot, h.lag, h.headersize⟩, fun _ => himg⟩, fun hst => ?_⟩
        cases hst
  · exact otaFail_aims ⟨h.boot, h.lag, h.headersize⟩
  · exact otaFail_aims ⟨h.boot, h.lag, h.headersize⟩

theorem otaDataRspNext_aims (h : Processed c.toTransfer) : Aims (otaDataRspNext cfg now c) f := by
  unfold otaDataRspNext
  split_ifs with hend
  · apply wp_bind
    apply wp_query _ trivial
    cases otaVerify cfg.mcu c.toTransfer f with
    | none =>
      apply aims_pure
      intro c' hc'
      cases hc'
    | some ok =>
      cases ok with
      | true =>
        apply aims_issue
        · intro x hx
          cases hx
        · have hended := h.toAim.ended (s := .success) (by decide)
          unfold Client.onAutoPolling
          apply aims_register
          · exact hended
          · intro _
            rfl
      | false => exact otaFail_aims h.toAim
  · have hlag := h.lag
    refine otaDataReqCb_aims ⟨h, fun hst => ?_⟩
    have himg := h.image (.inr hst)
    omega

theorem otaDataRspHandler_aims (h : Aimed c.toTransfer) (hcnt : c.otaHeadercnt + 517 ≤ 4294967296)
    (hdr : OtaDataFrame) : Aims (otaDataRspHandler cfg now hdr c) f := by
  unfold otaDataRspHandler
  split_ifs
  · exact otaFail_aims h.toAim
  · apply wp_bind
    apply wp_mono (otaDataProcess_wp h hcnt) _ fun _ _ => trivial
    rintro ⟨sta, t⟩ g ht
    cases sta with
    | true => exact otaDataRspNext_aims ht
    | false =>
      apply wp_bind
      apply wp_mono (otaFail_aims ht.toAim) _ fun _ _ => trivial
      rintro r g' hr
      cases r with
      | none =>
        apply aims_pure
        intro c' hc'
        cases hc'
      | some c₁ => exact otaDataRspNext_aims (hr c₁ rfl).toProcessed
  · apply aims_pure
    intro c' hc'
    obtain rfl := Option.some.inj hc'
    exact h

theorem otaStopRspHandler_aims (h : Aimed c.toTransfer) (hdr : OtaIdent) :
    Aims (otaStopRspHandler cfg now hdr c) f := by
  unfold otaStopRspHandler
  split_ifs
  · unfold Client.onCallBackRestore
    apply aims_register
    · exact h
    · intro _
      rfl
  · exact otaFail_aims h.toAim

theorem otaRetryCb_aims {msg : OtaReq} {left : Nat} (h : Aimed c.toTransfer) :
    wp (InBank flashOtaNewimageAddr) (otaRetryCb cfg now msg left c)
      (fun r _ => ∀ p, r = some p → Aimed p.1.toTransfer) (fun _ => True) f := by
  unfold otaRetryCb
  split_ifs
  · apply wp_bind
    apply wp_issue
    · intro x hx
      cases hx
    · trivial
    · trivial
    · apply wp_pure _ trivial
      intro p hp
      obtain rfl := Option.some.inj hp
      exact h
  · apply wp_bind
    have hfail : Aims (otaFail cfg now { c with otaRetryCnt := left }) f := otaFail_aims h.toAim
    apply wp_mono hfail _ fun _ _ => trivial
    intro r g hr
    apply wp_pure _ trivial
    intro p hp
    obtain ⟨c', rfl, rfl⟩ := Option.map_eq_some_iff.mp hp
    exact hr c' rfl

theorem otaTimerCb_aims (h : Aimed c.toTransfer) (ret : Int) (cb : Option EvCb) :
    wp (InBank flashOtaNewimageAddr) (otaTimerCb cfg now ret cb c)
      (fun r _ => ∀ p, r = some p → Aimed p.1.toTransfer) (fun _ => True) f := by
  have hpure : wp (InBank flashOtaNewimageAddr) (pure (some (c, ret)) : OtaM (Option (Client × Int)))
      (fun r _ => ∀ p, r = some p → Aimed p.1.toTransfer) (fun _ => True) f := by
    apply wp_pure _ trivial
    intro p hp
    obtain rfl := Option.some.inj hp
    exact h
  cases cb with
  | none => exact hpure
  | some cb =>
    cases cb with
    | otaStartReqCb => exact otaRetryCb_aims h
    | otaDataTryReqCb => exact otaRetryCb_aims h
    | otaStopRspCb => exact otaRetryCb_aims h
    | otaCallBackRestore =>
      apply wp_bind
      apply wp_issue
      · intro x hx
        cases hx
      · trivial
      · trivial
      · apply wp_pure _ trivial
        intro p hp
        obtain rfl := Option.some.inj hp
        exact h
    | appSendRepeateDataTimerCb => exact hpure
    | other k => exact hpure

theorem clientStep_aims (h : Aimed c.toTransfer) (hboot : HasStartUpFlag cfg.mcu f 0) (k : ClientCall)
    (hcnt : ∀ hdr, k = .dataRsp hdr → c.otaHeadercnt + 517 ≤ 4294967296) : Aims (clientStep cfg now c k) f := by
  cases k with
  | startReq => exact otaStartReq_aims hboot
  | startRsp hdr => exact otaStartRspHandler_aims h hdr
  | dataRsp hdr => exact otaDataRspHandler_aims h (hcnt hdr rfl) hdr
  | stopRsp hdr => exact otaStopRspHandler_aims h hdr
  | reclaim =>
    apply aims_pure
    intro c' hc'
    obtain rfl := Option.some.inj hc'
    exact h
  | fire i pass ret =>
    change Aims (c.evProcessTimer cfg now i pass ret) f
    unfold Client.evProcessTimer
    split_ifs
    · apply wp_bind
      apply wp_mono (otaTimerCb_aims h ret _) _ fun _ _ => trivial
      intro r g hr
      apply aims_pure
      intro c' hc'
      obtain ⟨p, hp, rfl⟩ := Option.map_eq_some_iff.mp hc'
      exact hr p hp
    · apply aims_pure
      intro c' hc'
      obtain rfl := Option.some.inj hc'
      exact h
  | otherOn m tUs =>
    apply aims_register
    · exact h
    · intro _
      rfl
  | otherUnon i =>
    apply aims_pure
    intro c' hc'
    obtain rfl := Option.some.inj hc'
    exact h

end Handlers

/-! ### Runs -/

/-- The `u32` count does not wrap in this call. -/
def CountFits (w : OtaWorld) (k : U32 × ClientCall) : Prop :=
  ∀ c, w.client = some c → ∀ hdr, k.2 = .dataRsp hdr → c.otaHeadercnt + 517 ≤ 4294967296

/-- The lower bank has the start-up flag, and the client aims at the upper one. -/
def RunsLower (mcu : Mcu) (w : OtaWorld) : Prop :=
  HasStartUpFlag mcu w.flash 0 ∧ ∀ c, w.client = some c → Aimed c.toTransfer

/-- All operations of a call lie in the bank at `base`. -/
def StaysIn (base : Nat) (ops : List OtaOp) : Prop := ∀ op ∈ ops, ∀ x, Device.foot op x → InBank base x

theorem flag_kept {mcu : Mcu} {f g : Flash} (h : HasStartUpFlag mcu f 0)
    (hsame : ∀ x, ¬ InBank flashOtaNewimageAddr x → g x = f x) : HasStartUpFlag mcu g 0 := by
  unfold HasStartUpFlag at h ⊢
  have hbytes : bytes g (0 + mcu.flashTlnkFlagOffset) 4 = bytes f (0 + mcu.flashTlnkFlagOffset) 4 := by
    apply bytes_congr
    intro x h₁ h₂
    apply hsame
    rintro ⟨h₃, -⟩
    have hoff : mcu.flashTlnkFlagOffset ≤ 32 := by cases mcu <;> decide
    unfold flashOtaNewimageAddr at h₃
    omega
  rw [hbytes]
  exact h

/-- A call of a client on the lower bank, given what its program does. -/
theorem otaStep_lower {cfg : OtaCfg} {f : Flash} {c : Client} {k : U32 × ClientCall}
    (hboot : HasStartUpFlag cfg.mcu f 0) (h : Aims (clientStep cfg k.1 c k.2) f) :
    RunsLower cfg.mcu (otaStep cfg ⟨some c, f⟩ k).1 ∧ StaysIn flashOtaNewimageAddr (otaStep cfg ⟨some c, f⟩ k).2 := by
  obtain ⟨haimed, hsame⟩ := wp_result (wp_frame h)
  exact ⟨⟨flag_kept hboot hsame, haimed⟩, h.1⟩

theorem otaStep_runsLower {cfg : OtaCfg} {w : OtaWorld} {k : U32 × ClientCall} (h : RunsLower cfg.mcu w)
    (hk : CountFits w k) :
    RunsLower cfg.mcu (otaStep cfg w k).1 ∧ StaysIn flashOtaNewimageAddr (otaStep cfg w k).2 := by
  obtain ⟨client, f⟩ := w
  cases client with
  | none =>
    refine ⟨h, ?_⟩
    intro op hop
    cases hop
  | some c => exact otaStep_lower h.1 (clientStep_aims (h.2 c rfl) h.1 k.2 (hk c rfl))

/-- From the start of an update on a device that runs from the lower bank, all erases and
programs lie in the other one. -/
theorem ota_other_bank {cfg : OtaCfg} {f : Flash} {c : Client} {now : U32} {ks : List (U32 × ClientCall)}
    (hboot : mcuBootAddrGet cfg.mcu f = 0)
    (hks : Refine.Legal (otaStep cfg) CountFits (otaStep cfg ⟨some c, f⟩ (now, .startReq)).1 ks) :
    ∀ ops ∈ (Refine.run (otaStep cfg) ⟨some c, f⟩ ((now, .startReq) :: ks)).2,
      StaysIn (otherBank (mcuBootAddrGet cfg.mcu f)) ops := by
  have hflag : HasStartUpFlag cfg.mcu f 0 := by
    by_contra hnot
    rw [mcuBootAddrGet_eq, if_neg hnot] at hboot
    split_ifs at hboot
    cases hboot
  have hother : otherBank (mcuBootAddrGet cfg.mcu f) = flashOtaNewimageAddr := by
    rw [hboot]
    rfl
  rw [hother]
  have hstart : RunsLower cfg.mcu (otaStep cfg ⟨some c, f⟩ (now, .startReq)).1 ∧
      StaysIn flashOtaNewimageAddr (otaStep cfg ⟨some c, f⟩ (now, .startReq)).2 :=
    otaStep_lower hflag (otaStartReq_aims hflag)
  intro ops hops
  rcases List.mem_cons.mp hops with rfl | hops
  · exact hstart.2
  · exact Refine.run_answers (fun _ _ h hk => otaStep_runsLower h hk) hstart.1 hks ops hops

/-- One accepted START_RSP, for an image of 100 bytes. -/
def acceptedStart : List (U32 × ClientCall) := [(0, .startRsp ⟨⟨0x01000107, 0x8258, 0x1141⟩, 100⟩)]

theorem ota_other_bank_accepted :
    let f := twoBanks shortImage []
    mcuBootAddrGet .mcu8258 f = 0 ∧
      ∀ ops ∈ (Refine.run (otaStep cfg8258) ⟨some .powerUp, f⟩ ((0, .startReq) :: acceptedStart)).2,
        StaysIn (otherBank (mcuBootAddrGet .mcu8258 f)) ops := by
  have hboot : mcuBootAddrGet .mcu8258 (twoBanks shortImage []) = 0 := by decide +kernel
  constructor
  · exact hboot
  · apply ota_other_bank
    · exact hboot
    · refine ⟨fun c _ hdr hk => ?_, trivial⟩
      cases hk

/-- On a device that runs from the upper bank the same START_RSP erases that bank. -/
theorem ota_erases_running_bank :
    let f := twoBanks [] shortImage
    (¬ HasStartUpFlag .mcu8258 f 0 ∧ HasStartUpFlag .mcu8258 f flashOtaNewimageAddr) ∧
      ¬ ∀ ops ∈ (Refine.run (otaStep cfg8258) ⟨some .powerUp, f⟩ ((0, .startReq) :: acceptedStart)).2,
        StaysIn (otherBank (mcuBootAddrGet .mcu8258 f)) ops := by
  constructor
  · decide +kernel
  · intro h
    have hboot : mcuBootAddrGet .mcu8258 (twoBanks [] shortImage) = flashOtaNewimageAddr := by decide +kernel
    have hops : (Refine.run (otaStep cfg8258) ⟨some .powerUp, twoBanks [] shortImage⟩
        ((0, .startReq) :: acceptedStart)).2[1]?.bind (·[0]?) = some (.flash (.erase flashOtaNewimageAddr)) := by
      decide +kernel
    obtain ⟨ops, hmem, hop⟩ := Option.bind_eq_some_iff.mp hops
    have hin := h ops (List.mem_of_getElem? hmem) _ (List.mem_of_getElem? hop) flashOtaNewimageAddr rfl
    rw [hboot] at hin
    exact absurd hin.2 (by decide)

end Rf4ce.Ota
