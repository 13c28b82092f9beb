import Rf4ce.Ota.Chunks
import Rf4ce.Ota.RunningBank

/-! An update over the link from the first request to the boot of the new image. -/
namespace Rf4ce.Ota
open Crash Drv Common Os

/-! ### The flash as what was programmed since the erase -/

/-- The flash after these bytes were programmed one by one. -/
def burn (f : Flash) (ps : List (Nat × Byte)) : Flash :=
  ps.foldl (fun f p => Function.update f p.1 (f p.1 &&& p.2)) f

theorem burn_append (f : Flash) (ps qs : List (Nat × Byte)) : burn f (ps ++ qs) = burn (burn f ps) qs :=
  List.foldl_append

theorem program_single (f : Flash) (a : Nat) (b : Byte) : f.program a [b] = Function.update f a (f a &&& b) := by
  funext x
  by_cases hx : x = a
  · subst hx
    rw [Function.update_self]
    exact program_apply f x [b] 0 Nat.one_pos
  · rw [Function.update_of_ne hx, program_outside]
    rw [List.length_singleton]
    omega

theorem burn_placed (f : Flash) (a : Nat) (data : List Byte) : burn f (placed a data) = f.program a data := by
  induction data generalizing f a with
  | nil => exact (program_nil f a).symm
  | cons b bs ih =>
    have hstep : burn f (placed a (b :: bs)) = burn (f.program a [b]) (placed (a + 1) bs) := by
      rw [program_single]
      rfl
    rw [hstep, ih]
    exact program_append f a [b] bs

theorem erases_le (ops : List OtaOp) (m : Trace) : m.erases ≤ (ops.foldl Trace.note m).erases := by
  induction ops generalizing m with
  | nil => exact Nat.le_refl _
  | cons op ops ih =>
    have hop : m.erases ≤ (m.note op).erases := by
      cases op with
      | flash op =>
        cases op with
        | erase a => exact Nat.le_succ _
        | program a data => exact Nat.le_refl _
      | send msg => exact Nat.le_refl _
      | setState s => exact Nat.le_refl _
      | otaCb s => exact Nat.le_refl _
    exact hop.trans (ih _)

/-- Without an erase the flash takes what the trace notes. -/
theorem run_noted (ops : List OtaOp) (m : Trace) (f : Flash) (herases : (ops.foldl Trace.note m).erases = m.erases) :
    ∃ ps, (ops.foldl Trace.note m).programmed = m.programmed ++ ps ∧ run f ops = burn f ps := by
  induction ops generalizing m f with
  | nil => exact ⟨[], (List.append_nil _).symm, rfl⟩
  | cons op ops ih =>
    have hle := erases_le ops (m.note op)
    rw [List.foldl_cons] at herases ⊢
    rw [run_cons]
    have hrest (hsame : (m.note op).erases = m.erases) := ih (m.note op) (Device.apply f op) (herases.trans hsame.symm)
    cases op with
    | flash op =>
      cases op with
      | erase a =>
        have hlt : m.erases < (m.note (.flash (.erase a))).erases := Nat.lt_succ_self _
        omega
      | program a data =>
        obtain ⟨ps, hps, hrun⟩ := hrest rfl
        refine ⟨placed a data ++ ps, ?_, ?_⟩
        · rw [hps, ← List.append_assoc]
          rfl
        · rw [hrun, burn_append, burn_placed]
          rfl
    | send msg => exact hrest rfl
    | setState s => exact hrest rfl
    | otaCb s => exact hrest rfl

/-- The upper bank was erased for `size` bytes, and since then these were programmed. -/
def Laid (size : Nat) (ps : List (Nat × Byte)) (f : Flash) : Prop :=
  ∃ f₀ : Flash, (∀ x, flashOtaNewimageAddr ≤ x → x < flashOtaNewimageAddr + size → f₀ x = 0xff) ∧ f = burn f₀ ps

theorem Laid.onward {size : Nat} {ps qs : List (Nat × Byte)} {f : Flash} (h : Laid size ps f) :
    Laid size (ps ++ qs) (burn f qs) := by
  obtain ⟨f₀, herased, rfl⟩ := h
  exact ⟨f₀, herased, (burn_append f₀ ps qs).symm⟩

theorem Laid.reads {size : Nat} {data : List Byte} {f : Flash} (h : Laid size (placed flashOtaNewimageAddr data) f)
    (hfit : data.length ≤ size) : bytes f flashOtaNewimageAddr data.length = data := by
  obtain ⟨f₀, herased, rfl⟩ := h
  rw [burn_placed]
  apply bytes_program_erased
  intro x h₁ h₂
  exact herased x h₁ (by omega)

/-! ### Success -/

/-- The image stays the same, and a success that is new is claimed with all its bytes counted. -/
structure Honest (c c' : Client) : Prop where
  imageSize : c'.rcOtaInfo.imageSize = c.rcOtaInfo.imageSize
  success : c'.otaState = .success → c.otaState = .success ∨ c'.rcOtaInfo.imageSize ≤ c'.otaHeadercnt

theorem ended_success : Ended .success := ⟨by decide, by decide⟩

/-- What the call makes of the client, if it returns. -/
def Leads {α : Type} (m : OtaM (Option α)) (P : α → Prop) : Prop := m.Yields fun r => ∀ a, r = some a → P a

section Success
variable {cfg : OtaCfg} {now : U32} {c : Client}

theorem leads_pure {α : Type} {a : α} {P : α → Prop} (h : P a) : Leads (pure (some a)) P := by
  apply yields_pure
  intro b hb
  cases hb
  exact h

theorem leads_register {P : Client → Prop} {cb : EvCb} {tUs : U32} {g : Fin 12 × Client → Client}
    (h : ∀ i l, P (g (i, { c with evTimerList := l }))) : Leads (pure ((c.evOnTimer cfg now cb tUs).map g)) P := by
  apply yields_pure
  intro c' hc'
  obtain ⟨⟨i, c''⟩, hon, rfl⟩ := Option.map_eq_some_iff.mp hc'
  obtain ⟨l, -, rfl⟩ := evOnTimer_some hon
  exact h i l

theorem Leads.map {α β : Type} {m : OtaM (Option α)} {P : α → Prop} {g : α → β} {Q : β → Prop} (h : Leads m P)
    (hQ : ∀ a, P a → Q (g a)) : Leads (do let r ← m; pure (r.map g)) Q := by
  refine yields_bind (Prog.Yields.mono h fun r hr => yields_pure fun b hb => ?_)
  obtain ⟨a, ha, rfl⟩ := Option.map_eq_some_iff.mp hb
  exact hQ a (hr a ha)

theorem Leads.mono {α : Type} {m : OtaM (Option α)} {P Q : α → Prop} (h : Leads m P) (hQ : ∀ a, P a → Q a) :
    Leads m Q := Prog.Yields.mono h fun _ hr a ha => hQ a (hr a ha)

theorem Honest.ended {c' : Client} (himg : c'.rcOtaInfo.imageSize = c.rcOtaInfo.imageSize)
    (hs : c'.otaState ≠ .success) : Honest c c' := ⟨himg, fun h => absurd h hs⟩

theorem Honest.same {c' : Client} (himg : c'.rcOtaInfo.imageSize = c.rcOtaInfo.imageSize)
    (hst : c'.otaState = c.otaState) : Honest c c' := ⟨himg, fun h => .inl (hst.symm.trans h)⟩

theorem otaFail_leads : Leads (otaFail cfg now c) fun c' => c'.rcOtaInfo = c.rcOtaInfo ∧ c'.otaState = .failed := by
  apply yields_bind
  apply yields_any
  intro _
  exact leads_register fun _ _ => ⟨rfl, rfl⟩

theorem otaFail_honest {c₁ : Client} (himg : c₁.rcOtaInfo.imageSize = c.rcOtaInfo.imageSize) :
    Leads (otaFail cfg now c₁) fun c' => Honest c c' := by
  refine otaFail_leads.mono fun c' hc' => ?_
  obtain ⟨hinfo, hst⟩ := hc'
  apply Honest.ended
  · rw [hinfo]
    exact himg
  · rw [hst]
    decide

theorem otaDataReqCb_leads : Leads (otaDataReqCb cfg now c) fun c' => c'.toTransfer = c.toTransfer := by
  apply yields_bind
  apply yields_any
  intro _
  exact leads_register fun _ _ => rfl

theorem otaRetryCb_leads {msg : OtaReq} {left : Nat} :
    Leads (otaRetryCb cfg now msg left c) fun p => Honest c p.1 := by
  apply yields_ite
  · intro _
    apply yields_bind
    apply yields_any
    intro _
    exact leads_pure (.same rfl rfl)
  · intro _
    have hfail : Leads (otaFail cfg now { c with otaRetryCnt := left }) fun c' => Honest c c' := otaFail_honest rfl
    exact hfail.map fun _ h => h

theorem otaDataRspNext_leads : Leads (otaDataRspNext cfg now c) fun c' => Honest c c' := by
  apply yields_ite
  · intro hend
    apply yields_bind
    apply yields_any
    intro ok
    cases ok with
    | none =>
      apply yields_pure
      intro c' hc'
      cases hc'
    | some ok =>
      cases ok with
      | true =>
        apply yields_bind
        apply yields_any
        intro _
        exact leads_register fun _ _ => ⟨rfl, fun _ => .inr hend⟩
      | false => exact otaFail_honest rfl
  · intro _
    refine otaDataReqCb_leads.mono fun c' hc' => ?_
    apply Honest.same
    · rw [hc']
    · rw [hc']

theorem otaHeaderLoop_state (pData : Nat → Byte) (n i : Nat) (t : Transfer) :
    (otaHeaderLoop pData n i t).2.otaState = t.otaState ∨ (otaHeaderLoop pData n i t).2.otaState = .dataing := by
  induction n generalizing i t with
  | zero => exact .inl rfl
  | succ n ih =>
    obtain ⟨hdone, hmore⟩ := otaHeaderByte_done pData i t
    unfold otaHeaderLoop
    dsimp only
    cases hr : (otaHeaderByte pData i t).2 with
    | true =>
      rw [if_pos rfl]
      exact .inr (hdone hr).1
    | false =>
      rw [if_neg Bool.false_ne_true, ← hmore hr]
      exact ih (i + 1) { (otaHeaderByte pData i t).1 with otaHeadercnt := u32 ((otaHeaderByte pData i t).1.otaHeadercnt + 1) }

theorem otaProgram_leads {mcu : Mcu} {len i : Nat} {pData : Nat → Byte} {t : Transfer} :
    (otaProgram mcu len i pData t).Yields fun r => r.2.rcOtaInfo = t.rcOtaInfo ∧ r.2.otaState = t.otaState := by
  apply yields_ite
  · intro _
    exact yields_pure ⟨rfl, rfl⟩
  · intro _
    apply yields_bind
    apply yields_any
    intro _
    exact yields_pure ⟨rfl, rfl⟩

/-- No chunk changes the size of the image or claims success. -/
theorem otaDataProcess_leads {mcu : Mcu} {len : Byte} {pData : Nat → Byte} {t : Transfer} :
    (otaDataProcess mcu len pData t).Yields fun r => r.2.rcOtaInfo.imageSize = t.rcOtaInfo.imageSize ∧
      (r.2.otaState = .success → t.otaState = .success) := by
  unfold otaDataProcess
  cases hst : t.otaState with
  | starting =>
    have hloop := otaHeaderLoop_state pData len.toNat 0 t
    have himg := @otaHeaderLoop_imageSize pData len.toNat 0 t
    rw [hst] at hloop
    apply yields_ite
    · intro hdata
      apply yields_bind
      apply yields_any
      intro _
      refine otaProgram_leads.mono fun r hr => ⟨?_, fun hs => ?_⟩
      · rw [hr.1]
        exact himg
      · rw [hr.2, hdata] at hs
        cases hs
    · intro hno
      refine yields_pure ⟨himg, fun hs => ?_⟩
      rw [hloop.resolve_right hno] at hs
      cases hs
  | dataing =>
    refine otaProgram_leads.mono fun r hr => ⟨?_, fun hs => ?_⟩
    · rw [hr.1]
    · rw [hr.2, hst] at hs
      cases hs
  | success => exact yields_pure ⟨rfl, fun _ => rfl⟩
  | failed => exact yields_pure ⟨rfl, fun hs => absurd (hst.symm.trans hs) (by decide)⟩
  | finished => exact yields_pure ⟨rfl, fun hs => absurd (hst.symm.trans hs) (by decide)⟩

theorem Honest.after {c₁ c' : Client} (h : Honest c₁ c') (himg : c₁.rcOtaInfo.imageSize = c.rcOtaInfo.imageSize)
    (hs : c₁.otaState = .success → c.otaState = .success) : Honest c c' :=
  ⟨h.imageSize.trans himg, fun hc' => (h.success hc').imp_left hs⟩

theorem otaDataRspHandler_leads {hdr : OtaDataFrame} : Leads (otaDataRspHandler cfg now hdr c) fun c' => Honest c c' := by
  apply yields_ite
  · intro _
    apply yields_ite
    · intro _
      exact otaFail_honest rfl
    · intro _
      refine yields_bind (otaDataProcess_leads.mono fun r hr => ?_)
      apply yields_ite
      · intro _
        exact otaDataRspNext_leads.mono fun c' hc' => hc'.after hr.1 hr.2
      · intro _
        refine yields_bind (Prog.Yields.mono otaFail_leads fun r₂ hr₂ => ?_)
        cases r₂ with
        | none =>
          apply yields_pure
          intro c' hc'
          cases hc'
        | some c₂ =>
          obtain ⟨hinfo, hfailed⟩ := hr₂ c₂ rfl
          refine otaDataRspNext_leads.mono fun c' hc' => hc'.after ?_ fun hs => ?_
          · change c₂.rcOtaInfo.imageSize = _
            rw [hinfo]
            exact hr.1
          · exact absurd (hfailed.symm.trans hs) (by decide)
  · intro _
    exact leads_pure (.same rfl rfl)

theorem otaTimerCb_leads {ret : Int} {cb : Option EvCb} :
    Leads (otaTimerCb cfg now ret cb c) fun p => Honest c p.1 := by
  have hpure : Leads (pure (some (c, ret)) : OtaM (Option (Client × Int))) fun p => Honest c p.1 :=
    leads_pure (.same rfl rfl)
  cases cb with
  | none => exact hpure
  | some cb =>
    cases cb with
    | otaStartReqCb => exact otaRetryCb_leads
    | otaDataTryReqCb => exact otaRetryCb_leads
    | otaStopRspCb => exact otaRetryCb_leads
    | otaCallBackRestore =>
      apply yields_bind
      apply yields_any
      intro _
      exact leads_pure (.same rfl rfl)
    | appSendRepeateDataTimerCb => exact hpure
    | other k => exact hpure

/-- All calls but `ota_startReq` and START_RSP. -/
theorem clientStep_honest {k : ClientCall} (hstart : k ≠ .startReq) (hrsp : ∀ hdr, k ≠ .startRsp hdr) :
    Leads (clientStep cfg now c k) fun c' => Honest c c' := by
  cases k with
  | startReq => exact absurd rfl hstart
  | startRsp hdr => exact absurd rfl (hrsp hdr)
  | dataRsp hdr => exact otaDataRspHandler_leads
  | stopRsp hdr =>
    apply yields_ite
    · intro _
      exact leads_register fun _ _ => .same rfl rfl
    · exact fun _ => otaFail_honest rfl
  | reclaim => exact leads_pure (.same rfl rfl)
  | fire i pass ret =>
    apply yields_ite
    · exact fun _ => otaTimerCb_leads.map fun p hp => ⟨hp.imageSize, hp.success⟩
    · exact fun _ => leads_pure (.same rfl rfl)
  | otherOn n tUs => exact leads_register fun _ _ => .same rfl rfl
  | otherUnon i => exact leads_pure (.same rfl rfl)

end Success

/-! ### Whole transfers -/

section Full
variable {mcu : Mcu} {file : Nat → Byte} {size hdrLen binSize k : Nat} {junk : Nat → Nat → Byte} {t₀ t t' : Transfer}
  {ps ps' : List (Nat × Byte)}

theorem Feeds.unique (h : Feeds mcu file size junk k t₀ t ps) (h' : Feeds mcu file size junk k t₀ t' ps') :
    t = t' ∧ ps = ps' := by
  obtain ⟨hv, hp⟩ := h fun _ => 0
  obtain ⟨hv', hp'⟩ := h' fun _ => 0
  exact ⟨hv.symm.trans hv', hp.symm.trans hp'⟩

/-- The count is never far ahead of the file. -/
theorem Feeds.count_le (h : Feeds mcu file size junk k t₀ t ps) (hlen : ofLe (bytes file 6 2) = hdrLen)
    (hsize : size < otaMaxImageSize) (hhdr : hdrLen < size) (ht₀ : Started size t₀) (hk : 48 * k < size + 48) :
    t.otaHeadercnt ≤ size + 256 := by
  by_cases hpay : HeaderEnds hdrLen ∧ hdrLen / 48 < k
  · obtain ⟨hends, hlow⟩ := hpay
    by_cases hsub : hdrLen % 48 + 6 ≤ frameLen size (hdrLen / 48)
    · obtain ⟨t₁, h₁, ht₁⟩ := feeds_payload junk hlen hsize hends hhdr hsub ht₀.inHeader k hlow hk
      obtain ⟨rfl, -⟩ := h.unique h₁
      rw [ht₁.count]
      have hend := @frameLen_end size (hdrLen / 48) (by omega)
      omega
    · obtain ⟨t₁, ps₁, h₁, -, hcnt⟩ := @feeds_behind mcu file size hdrLen _ t₀ junk hlen hsize hends hhdr
        (Nat.lt_of_not_le hsub) ht₀.inHeader k hlow hk
      obtain ⟨rfl, -⟩ := h.unique h₁
      omega
  · obtain ⟨t₁, h₁, ht₁⟩ := @feeds_header mcu file size hdrLen _ junk t₀ hlen hsize ht₀.inHeader k hk
      (fun hends => by
        have hlow : ¬ hdrLen / 48 < k := fun hlow => hpay ⟨hends, hlow⟩
        omega)
    obtain ⟨rfl, -⟩ := h.unique h₁
    rw [ht₁.count]
    omega

/-- With all bytes of a separable file counted the payload is programmed. -/
theorem Feeds.full (h : Feeds mcu file size junk k t₀ t ps) (hlen : ofLe (bytes file 6 2) = hdrLen)
    (hsum : size = u32 (hdrLen + binSize + sizeofOtaSignInfo)) (hbin : binSize < 4294967296)
    (hsize : size < otaMaxImageSize) (hhdr : hdrLen < size) (ht₀ : Started size t₀) (hk : 48 * k < size + 48)
    (hsep : Separable mcu file size hdrLen binSize) (hfull : size ≤ t.otaHeadercnt) :
    ps = placed (otaBaseAddr t.mcuBootAddr) (bytes (keywordSet mcu 0xff (payloadAt file hdrLen)) 0 binSize) := by
  have hmax : size < 196608 := hsize
  obtain ⟨⟨hfit, hframe⟩, hkey⟩ := hsep
  unfold sizeofOtaSignInfo otaFramesize at *
  have hsize' : size = hdrLen + binSize + 6 := by
    unfold u32 at hsum
    omega
  by_cases hends : HeaderEnds hdrLen
  · by_cases hlow : hdrLen / 48 < k
    · have hsub : hdrLen % 48 + 6 ≤ frameLen size (hdrLen / 48) := by
        unfold frameLen otaFramesize
        omega
      obtain ⟨t₁, h₁, ht₁⟩ := feeds_payload junk hlen hsize hends hhdr hsub ht₀.inHeader k hlow hk
      obtain ⟨rfl, rfl⟩ := h.unique h₁
      have hcnt := ht₁.count
      have hall : min size (48 * k) - (hdrLen + 6) = binSize := by omega
      rw [hall, ht₁.boot]
    · obtain ⟨t₁, h₁, ht₁⟩ := @feeds_header mcu file size hdrLen _ junk t₀ hlen hsize ht₀.inHeader k hk
        (fun _ => by omega)
      obtain ⟨rfl, -⟩ := h.unique h₁
      have hcnt := ht₁.count
      omega
  · obtain ⟨t₁, h₁, ht₁⟩ := @feeds_header mcu file size hdrLen _ junk t₀ hlen hsize ht₀.inHeader k hk
      (fun h => absurd h hends)
    obtain ⟨rfl, rfl⟩ := h.unique h₁
    have hzero : binSize = 0 := hkey.resolve_right fun hkey => hends hkey.1
    subst hzero
    rfl

end Full

section Chunk
variable {cfg : OtaCfg} {info : OtaPreamble} {file : Nat → Byte} {c c' : Client} {m m' : Trace} {log : List Nat}
  {hdr : OtaDataFrame}

/-- The chunk that a running transfer takes is the next one of the file. -/
theorem Feeding.feeds {t' : Transfer} {ps : List (Nat × Byte)} (h : Feeding cfg info file c m log)
    (hgood : GoodFrame info file hdr) (htaken : Taken c hdr)
    (hproc : Processes (otaDataProcess cfg.mcu hdr.payloadSize hdr.payload c.toTransfer) t' ps) :
    ∃ junk t₀, Started info.imageSize t₀ ∧
      Feeds cfg.mcu file info.imageSize junk (c.rcDataCount + 1) t₀ t' (m.programmed ++ ps) := by
  have hlow := h.low
  have hhigh := h.high
  obtain ⟨⟨-, hn⟩, hpay⟩ := htaken
  obtain ⟨hlen, hbytes⟩ := hgood.payload (by omega) hpay
  rw [hn] at hlen hbytes
  obtain ⟨junk, t₀, ht₀, hfed⟩ := h.fed
  refine ⟨Function.update junk c.rcDataCount hdr.payload, t₀, ht₀, ?_⟩
  have hfed' : Feeds cfg.mcu file info.imageSize (Function.update junk c.rcDataCount hdr.payload) c.rcDataCount t₀
      c.toTransfer m.programmed := by
    unfold Feeds
    rw [otaFeed_congr _ _ fun i hi => Function.update_of_ne (Nat.ne_of_lt hi) _ _]
    exact hfed
  apply hfed'.succ
  rw [framePayload_update junk hbytes, ← hlen]
  exact hproc

theorem NextStep.headercnt (h : NextStep c m m' (some c')) : c'.otaHeadercnt = c.otaHeadercnt := by
  by_cases hend : c.rcOtaInfo.imageSize ≤ c.otaHeadercnt
  · exact (h.ends hend c' rfl).2
  · rw [((h.goesOn (Nat.lt_of_not_le hend)).2 c' rfl).1]

theorem NextStep.ended (h : NextStep c m m' (some c')) (hc : Ended c.otaState) : Ended c'.otaState := by
  by_cases hend : c.rcOtaInfo.imageSize ≤ c.otaHeadercnt
  · exact (h.ends hend c' rfl).1
  · rw [((h.goesOn (Nat.lt_of_not_le hend)).2 c' rfl).1]
    exact hc

theorem Kin.ended (h : Kin c c') (hc : Ended c.otaState) : Ended c'.otaState := by
  rcases h.transfer with heq | ⟨s, hs, heq⟩
  · rw [heq]
    exact hc
  · rw [heq]
    exact hs

end Chunk

/-! ### The invariant of a client that is filling its upper bank -/

/-- A file with its sizes, for a device. -/
structure OfferedFile (cfg : OtaCfg) (info : OtaPreamble) (file : Nat → Byte) (hdrLen binSize : Nat) : Prop where
  upgrade : Upgrade cfg info file
  length : ofLe (bytes file 6 2) = hdrLen
  sum : info.imageSize = u32 (hdrLen + binSize + sizeofOtaSignInfo)
  bin : binSize < 4294967296
  shorter : hdrLen < info.imageSize

/-- No transfer runs, and nothing is counted. -/
def Untouched (c : Client) : Prop := Ended c.otaState ∧ c.otaHeadercnt = 0

structure Filling (cfg : OtaCfg) (info : OtaPreamble) (file : Nat → Byte) (hdrLen binSize : Nat) (c : Client) (m : Trace)
    (f : Flash) : Prop where
  aimed : Aimed c.toTransfer
  count : c.otaHeadercnt ≤ info.imageSize + 256
  image : c.otaHeadercnt ≠ 0 → c.rcOtaInfo.imageSize = info.imageSize
  laid : ¬ Untouched c → Laid info.imageSize m.programmed f
  full : Separable cfg.mcu file info.imageSize hdrLen binSize → info.imageSize ≤ c.otaHeadercnt →
    m.programmed = placed flashOtaNewimageAddr (bytes (keywordSet cfg.mcu 0xff (payloadAt file hdrLen)) 0 binSize)
  success : c.otaState = .success → c.otaHeadercnt ≠ 0 → info.imageSize ≤ c.otaHeadercnt

section Fill
variable {cfg : OtaCfg} {now : U32} {info : OtaPreamble} {file : Nat → Byte} {hdrLen binSize : Nat} {c c' : Client}
  {m : Trace} {log : List Nat} {f : Flash} {k : ClientCall} {hdr : OtaDataFrame}

/-- A call that counts and programs nothing. -/
theorem Filling.idle {m' : Trace} {f' : Flash} (h : Filling cfg info file hdrLen binSize c m f) (hhonest : Honest c c')
    (haimed : Aimed c'.toTransfer) (hcnt : c'.otaHeadercnt = c.otaHeadercnt)
    (hended : Ended c.otaState → Ended c'.otaState) (hprog : m'.programmed = m.programmed) (hflash : f' = f) :
    Filling cfg info file hdrLen binSize c' m' f' := by
  have himage : c'.otaHeadercnt ≠ 0 → c'.rcOtaInfo.imageSize = info.imageSize := by
    rw [hcnt]
    exact fun hne => hhonest.imageSize.trans (h.image hne)
  refine ⟨haimed, ?_, himage, fun hnot => ?_, fun hsep hfull => ?_, fun hs hne => ?_⟩
  · rw [hcnt]
    exact h.count
  · rw [hprog, hflash]
    apply h.laid
    rintro ⟨hc, hzero⟩
    exact hnot ⟨hended hc, hcnt.trans hzero⟩
  · rw [hcnt] at hfull
    rw [hprog]
    exact h.full hsep hfull
  · rcases hhonest.success hs with hold | hnew
    · rw [hcnt] at hne ⊢
      exact h.success hold hne
    · rw [← himage hne]
      exact hnew

/-- The flash after a call that notes no erase and no program. -/
theorem final_of_noted {α : Type} {p : OtaM α} {m' : Trace} (hm' : (p.ops f).foldl Trace.note m = m')
    (herases : m'.erases = m.erases) (hprog : m'.programmed = m.programmed) : p.final f = f := by
  subst hm'
  obtain ⟨ps, hps, hrun⟩ := run_noted (p.ops f) m f herases
  rw [hprog] at hps
  have hnil : ps = [] := List.append_right_eq_self.mp hps.symm
  change run f (p.ops f) = f
  rw [hrun, hnil]
  rfl

theorem clientStep_aimed (h : Filling cfg info file hdrLen binSize c m f) (hup : Upgrade cfg info file)
    (hboot : HasStartUpFlag cfg.mcu f 0) (hc' : (clientStep cfg now c k).value f = some c') : Aimed c'.toTransfer := by
  have hcount := h.count
  have hmax : info.imageSize < 196608 := hup.size.2
  have haims := @clientStep_aims cfg now c f h.aimed hboot k fun _ _ => by omega
  exact (wp_result haims) c' hc'

/-- All calls but START_RSP and those that take a chunk. -/
theorem Filling.quiet (h : Filling cfg info file hdrLen binSize c m f) (hup : Upgrade cfg info file)
    (hboot : HasStartUpFlag cfg.mcu f 0) (hstart : k ≠ .startReq) (hrsp : ∀ hdr, k ≠ .startRsp hdr)
    (hquiet : QuietStep cfg c m (((clientStep cfg now c k).ops f).foldl Trace.note m) ((clientStep cfg now c k).value f))
    (hc' : (clientStep cfg now c k).value f = some c') :
    Filling cfg info file hdrLen binSize c' (((clientStep cfg now c k).ops f).foldl Trace.note m)
      ((clientStep cfg now c k).final f) := by
  have hkin := hquiet.client c' hc'
  have hhonest : Honest c c' := clientStep_honest hstart hrsp f c' hc'
  apply h.idle hhonest (clientStep_aimed h hup hboot hc') hkin.headercnt hkin.ended hquiet.programmed
  exact final_of_noted rfl hquiet.erases hquiet.programmed

/-- A chunk that arrives when no transfer runs. -/
theorem Filling.late (h : Filling cfg info file hdrLen binSize c m f) (hup : Upgrade cfg info file)
    (hboot : HasStartUpFlag cfg.mcu f 0) (htaken : Taken c hdr) (hended : Ended c.otaState)
    (hc' : (clientStep cfg now c (.dataRsp hdr)).value f = some c') :
    Filling cfg info file hdrLen binSize c' (((clientStep cfg now c (.dataRsp hdr)).ops f).foldl Trace.note m)
      ((clientStep cfg now c (.dataRsp hdr)).final f) := by
  obtain ⟨herases, hnext⟩ := watched_noted
    (@otaDataRspHandler_takes cfg now hdr c m f _ _ htaken (otaDataProcess_ended hended))
  obtain ⟨c₂, hkin, hnext⟩ := hnext c' hc'
  have hhonest : Honest c c' := clientStep_honest (by simp) (by simp) f c' hc'
  have hprog : (((clientStep cfg now c (.dataRsp hdr)).ops f).foldl Trace.note m).programmed = m.programmed := by
    have hprog := hnext.programmed
    rw [List.append_nil] at hprog
    exact hprog
  have hcnt : c'.otaHeadercnt = c.otaHeadercnt := by
    rw [hnext.headercnt, hkin.headercnt]
    rfl
  apply h.idle hhonest (clientStep_aimed h hup hboot hc') hcnt _ hprog
  · exact final_of_noted rfl herases hprog
  · intro _
    exact hnext.ended (hkin.ended hended)

/-- The next chunk of a running transfer. -/
theorem Filling.take (h : Filling cfg info file hdrLen binSize c m f) (hfile : OfferedFile cfg info file hdrLen binSize)
    (hboot : HasStartUpFlag cfg.mcu f 0) (htaken : Taken c hdr) (hfeeding : Feeding cfg info file c m log)
    (hgood : GoodFrame info file hdr) (hc' : (clientStep cfg now c (.dataRsp hdr)).value f = some c') :
    Filling cfg info file hdrLen binSize c' (((clientStep cfg now c (.dataRsp hdr)).ops f).foldl Trace.note m)
      ((clientStep cfg now c (.dataRsp hdr)).final f) := by
  have hup := hfile.upgrade
  have hcount := h.count
  have hlow := hfeeding.low
  have hhigh := hfeeding.high
  have hmax : info.imageSize < 196608 := hup.size.2
  obtain ⟨t', ps, hproc, -⟩ := hfeeding.frame hup hgood htaken.1.2 htaken.2
  obtain ⟨junk, t₀, ht₀, hfeeds⟩ := hfeeding.feeds hgood htaken hproc
  obtain ⟨herases, hnext⟩ := watched_noted (@otaDataRspHandler_takes cfg now hdr c m f _ _ htaken hproc)
  obtain ⟨c₂, hkin, hnext⟩ := hnext c' hc'
  have hhonest : Honest c c' := clientStep_honest (by simp) (by simp) f c' hc'
  have hcnt : c'.otaHeadercnt = t'.otaHeadercnt := by
    rw [hnext.headercnt, hkin.headercnt]
    rfl
  have hprog : (((clientStep cfg now c (.dataRsp hdr)).ops f).foldl Trace.note m).programmed = m.programmed ++ ps :=
    hnext.programmed
  have hboot' : t'.mcuBootAddr = 0 := by
    have hprocessed := wp_result (@otaDataProcess_wp cfg.mcu hdr.payloadSize hdr.payload _ f h.aimed (by omega))
    rw [(hproc f).1] at hprocessed
    exact hprocessed.boot
  have himage : c'.rcOtaInfo.imageSize = info.imageSize := by
    rw [hhonest.imageSize, hfeeding.hdr]
  refine ⟨clientStep_aimed h hup hboot hc', ?_, fun _ => himage, fun _ => ?_, fun hsep hfull => ?_, fun hs _ => ?_⟩
  · rw [hcnt]
    exact hfeeds.count_le hfile.length hup.size.2 hfile.shorter ht₀ (by omega)
  · have hnot : ¬ Untouched c := fun hc => hfeeding.state.elim hc.1.1 hc.1.2
    obtain ⟨qs, hqs, hrun⟩ := run_noted ((clientStep cfg now c (.dataRsp hdr)).ops f) m f herases
    change Laid _ _ (run f _)
    rw [hqs, hrun]
    exact (h.laid hnot).onward
  · rw [hcnt] at hfull
    have hall := hfeeds.full hfile.length hfile.sum hfile.bin hup.size.2 hfile.shorter ht₀ (by omega) hsep hfull
    rw [hboot'] at hall
    rw [hprog]
    exact hall
  · rcases hhonest.success hs with hold | hnew
    · rcases hfeeding.state with hst | hst
      · exact absurd (hst.symm.trans hold) (by decide)
      · exact absurd (hst.symm.trans hold) (by decide)
    · rw [← himage]
      exact hnew

/-- What START_RSP leaves of an accepted image. -/
theorem otaStartRspHandler_leads {hdr : OtaPreamble} (hup : Upgrade cfg hdr file) :
    Leads (otaStartRspHandler cfg now hdr c) fun c' => c'.otaState = .starting ∧ c'.otaHeadercnt = c.otaHeadercnt := by
  unfold otaStartRspHandler
  rw [if_pos hup.forDevice]
  dsimp only
  rw [if_pos hup.size.2]
  apply yields_bind
  apply yields_any
  intro _
  apply yields_bind
  apply yields_any
  intro _
  refine otaDataReqCb_leads.mono fun c' hc' => ⟨?_, ?_⟩
  · rw [hc']
  · rw [hc']
    rfl

theorem otaStartRspHandler_erased {hdr : OtaPreamble} (hup : Upgrade cfg hdr file) (hboot : c.mcuBootAddr = 0) :
    ∀ x, flashOtaNewimageAddr ≤ x → x < flashOtaNewimageAddr + hdr.imageSize →
      (otaStartRspHandler cfg now hdr c).final f x = 0xff := by
  have hmax : hdr.imageSize < 196608 := hup.size.2
  have hsectors : (hdr.imageSize / flashSectorSize + 1) % 65536 = hdr.imageSize / 4096 + 1 := by
    unfold flashSectorSize
    omega
  have herase := wp_result (flashEraseSectors_wp f (show flashOtaNewimageAddr % 4096 = 0 by decide)
    (hdr.imageSize / 4096 + 1))
  have hops : ∃ msg, (otaStartRspHandler cfg now hdr c).ops f =
      ((flashEraseSectors flashOtaNewimageAddr (hdr.imageSize / 4096 + 1)).ops f).map OtaOp.flash ++
        [.setState .starting, .send msg] := by
    unfold otaStartRspHandler
    rw [if_pos hup.forDevice]
    dsimp only
    rw [if_pos hup.size.2]
    have hbase : otaBaseAddr c.unonAutoPolling.mcuBootAddr = flashOtaNewimageAddr := if_neg (not_not.mpr hboot)
    rw [hsectors, hbase]
    exact ⟨_, rfl⟩
  obtain ⟨msg, hops⟩ := hops
  intro x h₁ h₂
  have hfinal : (otaStartRspHandler cfg now hdr c).final f =
      (flashEraseSectors flashOtaNewimageAddr (hdr.imageSize / 4096 + 1)).final f := by
    unfold Prog.final
    rw [hops, run_append, run_map_flash]
    rfl
  rw [hfinal, herase]
  exact eraseRange_in h₁ (by omega)

/-- START_RSP before the first chunk. -/
theorem Filling.start {hdr : OtaPreamble} (h : Filling cfg info file hdrLen binSize c m f) (hup : Upgrade cfg info file)
    (hboot : HasStartUpFlag cfg.mcu f 0) (hhdr : hdr = info) (hfresh : c.rcDataCount = 0 ∧ c.otaHeadercnt = 0)
    (hlive : Live cfg info file c m log) (hc' : (clientStep cfg now c (.startRsp hdr)).value f = some c') :
    Filling cfg info file hdrLen binSize c' (((clientStep cfg now c (.startRsp hdr)).ops f).foldl Trace.note m)
      ((clientStep cfg now c (.startRsp hdr)).final f) := by
  subst hhdr
  have hpos := hup.size.1
  obtain ⟨hst, hcnt⟩ := @otaStartRspHandler_leads cfg now file c hdr hup f c' hc'
  have hzero : c'.otaHeadercnt = 0 := hcnt.trans hfresh.2
  have hprog : (((clientStep cfg now c (.startRsp hdr)).ops f).foldl Trace.note m).programmed = [] := by
    obtain ⟨-, hsound⟩ := watched_noted
      (@otaStartRspHandler_sound cfg now hdr file c m log f hdr hup rfl hfresh hlive)
    rcases hsound c' hc' with hover | ⟨hphase, -⟩
    · exact absurd hst hover.1.1
    · cases hphase with
      | waiting hw => exact absurd hst hw.state.1
      | calm hcalm _ => exact absurd hst hcalm.state.1
      | feeding hf =>
        obtain ⟨junk, t₀, -, hfed⟩ := hf.fed
        have hlow := hf.low
        rw [show c'.rcDataCount = 0 by omega] at hfed
        exact (hfed.unique feeds_zero).2
  refine ⟨clientStep_aimed h hup hboot hc', by omega, fun hne => absurd hzero hne, fun _ => ?_, fun _ hfull => ?_,
    fun _ hne => absurd hzero hne⟩
  · exact ⟨_, otaStartRspHandler_erased hup h.aimed.boot, by rw [hprog]; rfl⟩
  · omega

end Fill

/-! ### The link -/

/-- What the link may do, and no START_RSP behind the first chunk. -/
def LinkStep (w : OtaNet) (e : NetEv) : Prop := NetEnv w e ∧ StartsFresh w e

section Offered
variable (serverMcu : Mcu) (f : Flash)

def offeredHdrLen : Nat := (readHdrFields f (upgradeBase serverMcu f)).otaHdrLen

def offeredBinSize : Nat := (readSignInfo f (upgradeBase serverMcu f + offeredHdrLen serverMcu f)).binSize

/-- The image in the offered file. -/
def offeredImage : List Byte :=
  bytes (payloadAt (offeredFile serverMcu f) (offeredHdrLen serverMcu f)) 0 (offeredBinSize serverMcu f)

/-- Chunk `k` as the client reads it. -/
def offeredFrame (k : Nat) : OtaDataFrame where
  toOtaIdent := (offeredInfo serverMcu f).toOtaIdent
  imageSize := k
  payloadSize := BitVec.ofNat 8 (frameLen (offeredInfo serverMcu f).imageSize k)
  payload j := offeredFile serverMcu f (48 * k + j)

end Offered

/-- `app_otaStateCb`: the user callback, which reboots after a success. -/
def appOtaStateCb (mcu : Mcu) (mcuBootAddr : Nat) (status : OtaState) : FlashM Unit :=
  if status = .success then otaMcuReboot mcu mcuBootAddr else pure ()

section Link
variable {cfg : OtaCfg} {serverMcu : Mcu} {f : Flash} {old : List Byte} {w : OtaNet}

theorem offeredFrame_readsAs (k : Nat) :
    ReadsAs (some (⟨(offeredInfo serverMcu f).toOtaIdent, k⟩, fileChunk serverMcu f k)) (offeredFrame serverMcu f k) := by
  have hlen : (fileChunk serverMcu f k).length = frameLen (offeredInfo serverMcu f).imageSize k := bytes_length _ _ _
  refine ⟨rfl, ?_, fun j hj => ?_⟩
  · rw [hlen]
    rfl
  · have hat : (fileChunk serverMcu f k)[j] = f (upgradeBase serverMcu f + otaFramesize * k + j) := bytes_getElem _ _ _ _ _
    rw [hat, Nat.add_assoc]
    rfl

theorem offeredFile_hdrLen (serverMcu : Mcu) (f : Flash) :
    ofLe (bytes (offeredFile serverMcu f) 6 2) = offeredHdrLen serverMcu f := by
  unfold offeredHdrLen
  rw [readHdrFields_otaHdrLen]
  exact congrArg ofLe (bytes_shift f _ _ _)

theorem Offers.file (h : Offers f (upgradeBase serverMcu f) cfg.ident) :
    OfferedFile cfg (offeredInfo serverMcu f) (offeredFile serverMcu f) (offeredHdrLen serverMcu f)
      (offeredBinSize serverMcu f) := by
  obtain ⟨-, hlt, -, hsum, -⟩ := otaBinState_valid h.2
  have hsize : (offeredInfo serverMcu f).imageSize = (readHdrFields f (upgradeBase serverMcu f)).totalImageSize := by
    unfold offeredInfo
    generalize readHdrFields f (upgradeBase serverMcu f) = hdr
    rfl
  have hlen : (readHdrFields f (upgradeBase serverMcu f)).otaHdrLen = offeredHdrLen serverMcu f := rfl
  have hbin : (readSignInfo f (upgradeBase serverMcu f + offeredHdrLen serverMcu f)).binSize =
      offeredBinSize serverMcu f := rfl
  rw [hlen, ← hsize] at hlt hsum
  rw [hbin] at hsum
  refine ⟨h.upgrade, offeredFile_hdrLen serverMcu f, hsum, ?_, hlt⟩
  rw [← hbin]
  exact readSignInfo_binSize_lt f _

/-- The invariant of the link with the client's flash. -/
structure Delivering (cfg : OtaCfg) (serverMcu : Mcu) (f : Flash) (old : List Byte) (w : OtaNet) : Prop where
  inv : NetInv cfg serverMcu f w
  old : HoldsImage w.client.flash 0 old
  filling : ∀ c, w.client.client = some c → Filling cfg (offeredInfo serverMcu f) (offeredFile serverMcu f)
    (offeredHdrLen serverMcu f) (offeredBinSize serverMcu f) c w.trace w.client.flash

theorem holdsImage_frame {g t : Flash} (hold : Image cfg.mcu old) (h : HoldsImage g 0 old)
    (hsame : ∀ x, ¬ InBank flashOtaNewimageAddr x → t x = g x) : HoldsImage t 0 old := by
  have hfits := hold.fits
  have hbytes : bytes t 0 old.length = bytes g 0 old.length := by
    apply bytes_congr
    intro x _ hx
    apply hsame
    rintro ⟨hlow, -⟩
    omega
  exact hbytes.trans h

/-- Wherever the power fails in a call, the old image is in place. -/
theorem Delivering.cut (h : Delivering cfg serverMcu f old w) (hoffer : Offers f (upgradeBase serverMcu f) cfg.ident)
    (hold : Image cfg.mcu old) {c : Client} (hc : w.client.client = some c) {now : U32} {k : ClientCall} {t : Flash}
    (ht : (clientStep cfg now c k).Cut w.client.flash t) : HoldsImage t 0 old := by
  have hfilling := h.filling c hc
  have hcount := hfilling.count
  have hmax : (offeredInfo serverMcu f).imageSize < 196608 := hoffer.upgrade.size.2
  have haims := @clientStep_aims cfg now c w.client.flash hfilling.aimed (hold.hasStartUpFlag h.old) k
    fun _ _ => by omega
  exact holdsImage_frame hold h.old (wp_cut (wp_frame haims) ht).2

theorem Delivering.client (h : Delivering cfg serverMcu f old w) (hoffer : Offers f (upgradeBase serverMcu f) cfg.ident)
    (hold : Image cfg.mcu old) {now : U32} {k : ClientCall} (henv : NetEnv w (.client now k))
    (hfresh : StartsFresh w (.client now k)) {c c' : Client} (hc : w.client.client = some c)
    (hc' : (clientStep cfg now c k).value w.client.flash = some c') :
    Filling cfg (offeredInfo serverMcu f) (offeredFile serverMcu f) (offeredHdrLen serverMcu f) (offeredBinSize serverMcu f)
      c' (((clientStep cfg now c k).ops w.client.flash).foldl Trace.note w.trace)
      ((clientStep cfg now c k).final w.client.flash) := by
  have hfill := h.filling c hc
  have hfile := hoffer.file
  have hboot := hold.hasStartUpFlag h.old
  have hquiet (hstart : k ≠ .startReq) (hrsp : ∀ hdr, k ≠ .startRsp hdr) (hdata : ∀ hdr, k ≠ .dataRsp hdr) :=
    hfill.quiet hfile.upgrade hboot hstart hrsp
      (watched_noted (@clientStep_quiet cfg now c w.trace w.client.flash k hstart hrsp hdata)) hc'
  cases k with
  | startReq => exact absurd henv id
  | startRsp hdr =>
    obtain ⟨seqNo, hmem⟩ := henv
    cases h.inv with
    | stuck h => exact absurd (hc.symm.trans h) (by simp)
    | ended c₁ hc₁ h =>
      obtain rfl := Option.some.inj (hc.symm.trans hc₁)
      exact absurd (hfresh c hc).2 h.2
    | early c₁ hc₁ h hrsps =>
      obtain ⟨_, _, heq⟩ := hrsps _ hmem
      cases heq
    | live c₁ hc₁ h hserver hrsps =>
      obtain rfl := Option.some.inj (hc.symm.trans hc₁)
      exact hfill.start hfile.upgrade hboot (hrsps _ hmem) (hfresh c hc) h hc'
  | dataRsp hdr =>
    obtain ⟨seqNo, data, hmem, hreads⟩ := henv
    by_cases htaken : Taken c hdr
    · cases h.inv with
      | stuck h => exact absurd (hc.symm.trans h) (by simp)
      | ended c₁ hc₁ h =>
        obtain rfl := Option.some.inj (hc.symm.trans hc₁)
        exact hfill.late hfile.upgrade hboot htaken h.1 hc'
      | early c₁ hc₁ h hrsps =>
        obtain ⟨_, _, heq⟩ := hrsps _ hmem
        cases heq
      | live c₁ hc₁ h hserver hrsps =>
        obtain rfl := Option.some.inj (hc.symm.trans hc₁)
        cases h.1 with
        | waiting hw => exact hfill.late hfile.upgrade hboot htaken hw.state hc'
        | calm hcalm _ => exact hfill.late hfile.upgrade hboot htaken hcalm.state hc'
        | feeding hf => exact hfill.take hfile hboot htaken hf (hrsps _ hmem hdr hreads) hc'
    · exact hfill.quiet hfile.upgrade hboot (by simp) (by simp) (watched_noted (otaDataRspHandler_quiet htaken)) hc'
  | stopRsp hdr => exact hquiet (by simp) (by simp) (by simp)
  | reclaim => exact hquiet (by simp) (by simp) (by simp)
  | fire i pass ret => exact hquiet (by simp) (by simp) (by simp)
  | otherOn n tUs => exact hquiet (by simp) (by simp) (by simp)
  | otherUnon i => exact hquiet (by simp) (by simp) (by simp)

theorem Delivering.step (h : Delivering cfg serverMcu f old w) (hoffer : Offers f (upgradeBase serverMcu f) cfg.ident)
    (hold : Image cfg.mcu old) {e : NetEv} (he : LinkStep w e) :
    Delivering cfg serverMcu f old (netStep cfg serverMcu f w e).1 := by
  have hinv := netStep_inv hoffer h.inv he.1 he.2
  cases e with
  | server req => exact ⟨hinv, h.old, h.filling⟩
  | client now k =>
    cases hc : w.client.client with
    | none =>
      have hsame : (netStep cfg serverMcu f w (.client now k)).1.client = w.client := by
        unfold netStep otaStep
        simp only [hc]
      refine ⟨hinv, ?_, fun c' hc' => ?_⟩
      · rw [hsame]
        exact h.old
      · rw [hsame, hc] at hc'
        cases hc'
    | some c =>
      refine ⟨hinv, ?_, fun c' hc' => ?_⟩
      · rw [netStep_some hc]
        exact h.cut hoffer hold hc ((clientStep cfg now c k).cut_final _)
      · rw [netStep_some hc] at hc' ⊢
        exact h.client hoffer hold he.1 he.2 hc hc'

theorem delivering_start {c₀ : Client} {g : Flash} {s : Server} {now : U32}
    (hoffer : Offers f (upgradeBase serverMcu f) cfg.ident) (hold : Image cfg.mcu old)
    (hrun : HoldsImage g 0 old) (hidle : Ended c₀.otaState) (hknown : TryKnown c₀) :
    Delivering cfg serverMcu f old (OtaNet.start cfg now ⟨some c₀, g⟩ s) := by
  have haims := @otaStartReq_aims cfg now c₀ g (hold.hasStartUpFlag hrun)
  refine ⟨start_inv hidle hknown, hrun, fun c hc => ?_⟩
  have haimed : Aimed c.toTransfer := (wp_result haims) c hc
  have hcalm : Ended c.otaState ∧ c.otaHeadercnt = 0 := by
    obtain ⟨⟨i, c'⟩, hreg, rfl⟩ := Option.map_eq_some_iff.mp hc
    obtain ⟨l, -, rfl⟩ := evOnTimer_some hreg
    exact ⟨hidle, rfl⟩
  obtain ⟨hended, hzero⟩ := hcalm
  refine ⟨haimed, by omega, fun hne => absurd hzero hne, fun hnot => absurd ⟨hended, hzero⟩ hnot, fun _ hfull => ?_,
    fun _ hne => absurd hzero hne⟩
  have hpos := hoffer.upgrade.size.1
  omega

theorem delivering_run {c₀ : Client} {g : Flash} {s : Server} {now : U32} {es : List NetEv}
    (hoffer : Offers f (upgradeBase serverMcu f) cfg.ident) (hold : Image cfg.mcu old) (hrun : HoldsImage g 0 old)
    (hidle : Ended c₀.otaState) (hknown : TryKnown c₀)
    (hes : Refine.Legal (netStep cfg serverMcu f) LinkStep
      (OtaNet.start cfg now ⟨some c₀, g⟩ s) es) :
    Delivering cfg serverMcu f old (Refine.run (netStep cfg serverMcu f) (OtaNet.start cfg now ⟨some c₀, g⟩ s) es).1 :=
  Refine.run_invariant (fun _ _ h he => h.step hoffer hold he) (delivering_start hoffer hold hrun hidle hknown) hes

theorem bytes_set (g : Nat → Byte) (i n : Nat) (v : Byte) :
    (bytes g 0 n).set i v = bytes (Function.update g i v) 0 n := by
  apply List.ext_getElem
  · simp
  · intro j h₁ h₂
    rw [bytes_getElem, List.getElem_set, Nat.zero_add]
    by_cases hij : i = j
    · subst hij
      rw [if_pos rfl, Function.update_self]
    · rw [if_neg hij, bytes_getElem, Nat.zero_add, Function.update_of_ne (Ne.symm hij)]

/-- After a success the upper bank holds the offered image but for its keyword. -/
theorem Delivering.holds (h : Delivering cfg serverMcu f old w) (hoffer : Offers f (upgradeBase serverMcu f) cfg.ident)
    (hsep : Separable cfg.mcu (offeredFile serverMcu f) (offeredInfo serverMcu f).imageSize (offeredHdrLen serverMcu f)
      (offeredBinSize serverMcu f))
    {c : Client} (hc : w.client.client = some c) (hdone : c.otaState = .success) (hcnt : c.otaHeadercnt ≠ 0) :
    bytes w.client.flash flashOtaNewimageAddr (offeredImage serverMcu f).length =
      (offeredImage serverMcu f).set cfg.mcu.keywordAddrOffset 0xff := by
  have hfill := h.filling c hc
  have hfit : offeredBinSize serverMcu f ≤ (offeredInfo serverMcu f).imageSize := by
    have hsum := hoffer.file.sum
    have hle := hsep.1.1
    have hbin := hoffer.file.bin
    unfold sizeofOtaSignInfo at hsum hle
    unfold u32 at hsum
    omega
  have hlaid := hfill.laid fun hno => hcnt hno.2
  rw [hfill.full hsep (hfill.success hdone hcnt)] at hlaid
  have hbytes := hlaid.reads (by rw [bytes_length]; exact hfit)
  rw [bytes_length] at hbytes
  unfold offeredImage
  rw [bytes_length, bytes_set]
  exact hbytes

end Link

/-- Whatever the link does, the client reports a success only when the upper bank holds the offered
image: the swap of the callback then boots it, and wherever the power fails meanwhile a complete
image boots. -/
theorem ota_delivery {cfg : OtaCfg} {serverMcu : Mcu} {f g : Flash} {c₀ c : Client} {s : Server} {now : U32}
    {es : List NetEv} {old : List Byte} (hmcu : cfg.mcu ≠ .b92) (hoffer : Offers f (upgradeBase serverMcu f) cfg.ident)
    (hsep : Separable cfg.mcu (offeredFile serverMcu f) (offeredInfo serverMcu f).imageSize (offeredHdrLen serverMcu f)
      (offeredBinSize serverMcu f))
    (hold : Image cfg.mcu old) (hrun : HoldsImage g 0 old) (hnew : Image cfg.mcu (offeredImage serverMcu f))
    (hidle : Ended c₀.otaState) (hknown : TryKnown c₀)
    (hes : Refine.Legal (netStep cfg serverMcu f) LinkStep
      (OtaNet.start cfg now ⟨some c₀, g⟩ s) es)
    (hc : (Refine.run (netStep cfg serverMcu f) (OtaNet.start cfg now ⟨some c₀, g⟩ s) es).1.client.client = some c)
    (hcnt : c.otaState = .success → c.otaHeadercnt ≠ 0) :
    let w := (Refine.run (netStep cfg serverMcu f) (OtaNet.start cfg now ⟨some c₀, g⟩ s) es).1
    let cb := appOtaStateCb cfg.mcu c.mcuBootAddr c.otaState
    (∀ t, cb.Cut w.client.flash t → BootsComplete cfg.mcu 0 old (offeredImage serverMcu f) t) ∧
      mcuBootAddrGet cfg.mcu (cb.final w.client.flash) = if c.otaState = .success then flashOtaNewimageAddr else 0 := by
  intro w cb
  have h : Delivering cfg serverMcu f old w := delivering_run hoffer hold hrun hidle hknown hes
  by_cases hdone : c.otaState = .success
  · have hswap := swapSafe_lower hold hnew h.old (h.holds hoffer hsep hc hdone (hcnt hdone)) hmcu
    have hcb : cb = otaMcuReboot cfg.mcu 0 := by
      change appOtaStateCb _ _ _ = _
      rw [appOtaStateCb, if_pos hdone, (h.filling c hc).aimed.boot]
    rw [hcb, if_pos hdone]
    exact hswap
  · have hcb : cb = pure () := if_neg hdone
    have hboot : mcuBootAddrGet cfg.mcu w.client.flash = 0 := by
      rw [mcuBootAddrGet_eq, if_pos (hold.hasStartUpFlag h.old)]
    rw [hcb, if_neg hdone]
    refine ⟨fun t ht => ?_, hboot⟩
    obtain ⟨ops, hpre, rfl⟩ := ht
    obtain rfl := List.prefix_nil.mp hpre
    exact .inl ⟨hboot, h.old⟩


/-- 64 bytes that pass the checks of an image. -/
def bootableImage : List Byte :=
  List.replicate 8 0 ++ le32 tlStartUpFlagWhole ++ List.replicate 12 0 ++ le32 64 ++ List.replicate 32 0 ++ [0x8c, 0xad, 0xdd, 0xba]

def bootableTarget : Flash := offering 56 bootableImage

def bootableFrame (k : Nat) : OtaDataFrame := offeredFrame .mcu8258 bootableTarget k

/-- The messages up to the acceptance of the file. -/
def untilAccepted : List NetEv :=
  [.client 0 (.fire 0 0 0), .server (.startReq 0 cfg8258.ident), .client 0 (.startRsp ⟨newerIdent, 126⟩)]

/-- Its three chunks. -/
def wholeFile : List NetEv :=
  [.server (.dataReq 1 ⟨newerIdent, 0⟩), .client 0 (.dataRsp (bootableFrame 0)),
    .server (.dataReq 2 ⟨newerIdent, 1⟩), .client 0 (.dataRsp (bootableFrame 1)),
    .server (.dataReq 3 ⟨newerIdent, 2⟩), .client 0 (.dataRsp (bootableFrame 2))]

theorem linkStep_server {w : OtaNet} {req : OtaReq} (hmem : req ∈ w.trace.sent) : LinkStep w (.server req) := ⟨hmem, trivial⟩

theorem linkStep_startRsp {w : OtaNet} {seqNo : Byte} {hdr : OtaPreamble} (hmem : .startRsp seqNo hdr ∈ w.rsps)
    (hcount : (w.client.client.map fun c => (c.rcDataCount, c.otaHeadercnt)) = some (0, 0)) :
    LinkStep w (.client 0 (.startRsp hdr)) := by
  refine ⟨⟨seqNo, hmem⟩, fun c hc => ?_⟩
  rw [hc] at hcount
  exact Prod.mk.inj (Option.some.inj hcount)

theorem linkStep_bootableFrame {w : OtaNet} {seqNo : Byte} {k : Nat}
    (hmem : .dataRsp seqNo (some (⟨newerIdent, k⟩, fileChunk .mcu8258 bootableTarget k)) ∈ w.rsps) :
    LinkStep w (.client 0 (.dataRsp (bootableFrame k))) := by
  have hident : (offeredInfo .mcu8258 bootableTarget).toOtaIdent = newerIdent := by decide +kernel
  rw [← hident] at hmem
  exact ⟨⟨seqNo, _, hmem, offeredFrame_readsAs k⟩, trivial⟩

theorem untilAccepted_legal {P : OtaNet → NetEv → Prop} {es : List NetEv} (hP : ∀ w e, LinkStep w e → P w e)
    (hes : Refine.Legal (netStep cfg8258 .mcu8258 bootableTarget) P
      (Refine.run (netStep cfg8258 .mcu8258 bootableTarget) linkStart untilAccepted).1 es) :
    Refine.Legal (netStep cfg8258 .mcu8258 bootableTarget) P linkStart (untilAccepted ++ es) := by
  refine ⟨hP _ _ ⟨trivial, trivial⟩, hP _ _ (linkStep_server ?_), hP _ _ (@linkStep_startRsp _ 0 _ ?_ ?_), hes⟩
  · decide +kernel
  · decide +kernel
  · decide +kernel

theorem wholeFile_legal {P : OtaNet → NetEv → Prop} (hP : ∀ w e, LinkStep w e → P w e) :
    Refine.Legal (netStep cfg8258 .mcu8258 bootableTarget) P
      (Refine.run (netStep cfg8258 .mcu8258 bootableTarget) linkStart untilAccepted).1 wholeFile := by
  refine ⟨hP _ _ (linkStep_server ?_), hP _ _ (@linkStep_bootableFrame _ 1 _ ?_),
    hP _ _ (linkStep_server ?_), hP _ _ (@linkStep_bootableFrame _ 2 _ ?_),
    hP _ _ (linkStep_server ?_), hP _ _ (@linkStep_bootableFrame _ 3 _ ?_), trivial⟩
  · decide +kernel
  · decide +kernel
  · decide +kernel
  · decide +kernel
  · decide +kernel
  · decide +kernel

theorem bootable_separable : Separable .mcu8258 (offeredFile .mcu8258 bootableTarget)
    (offeredInfo .mcu8258 bootableTarget).imageSize (offeredHdrLen .mcu8258 bootableTarget)
    (offeredBinSize .mcu8258 bootableTarget) := by
  have hlen : offeredHdrLen .mcu8258 bootableTarget = 56 := by decide +kernel
  have hsize : (offeredInfo .mcu8258 bootableTarget).imageSize = 126 := by decide +kernel
  have hkey : payloadAt (offeredFile .mcu8258 bootableTarget) 56 8 = tlImageStartFlag := by decide +kernel
  rw [hlen, hsize]
  refine ⟨⟨by decide, by decide⟩, .inr ⟨?_, .inr hkey⟩⟩
  unfold HeaderEnds
  decide
/-- The callback after the last chunk boots the image. -/
theorem ota_delivery_bootable : ∃ c,
    (Refine.run (netStep cfg8258 .mcu8258 bootableTarget) linkStart (untilAccepted ++ wholeFile)).1.client.client = some c ∧
      c.otaState = .success ∧
      mcuBootAddrGet .mcu8258 ((appOtaStateCb .mcu8258 c.mcuBootAddr c.otaState).final
        (Refine.run (netStep cfg8258 .mcu8258 bootableTarget) linkStart (untilAccepted ++ wholeFile)).1.client.flash) =
          flashOtaNewimageAddr := by
  have hstate : ((Refine.run (netStep cfg8258 .mcu8258 bootableTarget) linkStart (untilAccepted ++ wholeFile)).1.client.client.map
      fun c => (c.otaState, c.otaHeadercnt)) = some (.success, 126) := by
    decide +kernel
  obtain ⟨c, hc, hdone⟩ := Option.map_eq_some_iff.mp hstate
  obtain ⟨hsuccess, hcount⟩ := Prod.mk.inj hdone
  have hlegal := untilAccepted_legal (fun _ _ h => h) (wholeFile_legal fun _ _ h => h)
  have hoffer : Offers bootableTarget (upgradeBase .mcu8258 bootableTarget) cfg8258.ident := by decide +kernel
  have hrun : HoldsImage (twoBanks shortImage []) 0 shortImage := by
    unfold HoldsImage
    decide +kernel
  have himage : (offeredImage .mcu8258 bootableTarget) = bootableImage := by decide +kernel
  have hnew : Image .mcu8258 (offeredImage .mcu8258 bootableTarget) := by
    rw [himage]
    exact ⟨by decide +kernel, by decide +kernel, by decide +kernel⟩
  have hidle : Ended Client.powerUp.otaState := ended_success
  have hknown : TryKnown .powerUp := fun i h => by cases h.2
  have hcnt : c.otaState = .success → c.otaHeadercnt ≠ 0 := fun _ => by rw [hcount]; decide
  have hlink : linkStart = .start cfg8258 0 ⟨some .powerUp, twoBanks shortImage []⟩ targetIdle := rfl
  rw [hlink] at hlegal hc ⊢
  have hdelivery := @ota_delivery cfg8258 .mcu8258 bootableTarget (twoBanks shortImage []) .powerUp c targetIdle 0
    (untilAccepted ++ wholeFile) shortImage (by decide) hoffer bootable_separable shortImage_ok hrun hnew
    hidle hknown hlegal hc hcnt
  refine ⟨c, hc, hsuccess, ?_⟩
  have hboot := hdelivery.2
  rw [if_pos hsuccess] at hboot
  exact hboot

/-- Wherever the power fails in a transfer, whatever the link did before, the old image boots. -/
theorem ota_powerFailure {cfg : OtaCfg} {serverMcu : Mcu} {f g : Flash} {c₀ c : Client} {s : Server} {now : U32}
    {es : List NetEv} {old : List Byte} (hoffer : Offers f (upgradeBase serverMcu f) cfg.ident)
    (hold : Image cfg.mcu old) (hrun : HoldsImage g 0 old) (hidle : Ended c₀.otaState) (hknown : TryKnown c₀)
    (hes : Refine.Legal (netStep cfg serverMcu f) LinkStep
      (OtaNet.start cfg now ⟨some c₀, g⟩ s) es)
    (hc : (Refine.run (netStep cfg serverMcu f) (OtaNet.start cfg now ⟨some c₀, g⟩ s) es).1.client.client = some c)
    (now' : U32) (k : ClientCall) {t : Flash}
    (ht : (clientStep cfg now' c k).Cut
      (Refine.run (netStep cfg serverMcu f) (OtaNet.start cfg now ⟨some c₀, g⟩ s) es).1.client.flash t) :
    mcuBootAddrGet cfg.mcu t = 0 ∧ HoldsImage t 0 old := by
  have h : Delivering cfg serverMcu f old _ := delivering_run hoffer hold hrun hidle hknown hes
  have hcut := h.cut hoffer hold hc ht
  rw [mcuBootAddrGet_eq, if_pos (hold.hasStartUpFlag hcut)]
  exact ⟨rfl, hcut⟩

/-- The power fails while the first chunk is taken in. -/
theorem ota_powerFailure_bootable : ∃ c,
    (Refine.run (netStep cfg8258 .mcu8258 bootableTarget) linkStart untilAccepted).1.client.client = some c ∧
      HoldsImage ((clientStep cfg8258 0 c (.dataRsp (bootableFrame 0))).final
        (Refine.run (netStep cfg8258 .mcu8258 bootableTarget) linkStart untilAccepted).1.client.flash) 0 shortImage := by
  have hsome : (Refine.run (netStep cfg8258 .mcu8258 bootableTarget) linkStart untilAccepted).1.client.client.isSome := by
    decide +kernel
  obtain ⟨c, hc⟩ := Option.isSome_iff_exists.mp hsome
  have hlegal : Refine.Legal (netStep cfg8258 .mcu8258 bootableTarget) LinkStep linkStart (untilAccepted ++ []) :=
    untilAccepted_legal (fun _ _ h => h) trivial
  have hoffer : Offers bootableTarget (upgradeBase .mcu8258 bootableTarget) cfg8258.ident := by decide +kernel
  have hrun : HoldsImage (twoBanks shortImage []) 0 shortImage := by
    unfold HoldsImage
    decide +kernel
  have hidle : Ended Client.powerUp.otaState := ended_success
  have hknown : TryKnown .powerUp := fun i h => by cases h.2
  have hlink : linkStart = .start cfg8258 0 ⟨some .powerUp, twoBanks shortImage []⟩ targetIdle := rfl
  rw [List.append_nil] at hlegal
  rw [hlink] at hlegal hc ⊢
  exact ⟨c, hc, (ota_powerFailure hoffer shortImage_ok hrun hidle hknown hlegal hc 0 (.dataRsp (bootableFrame 0))
    (Prog.cut_final _ _)).2⟩

end Rf4ce.Ota
