import Rf4ce.Ota.Quiet

/-! What the client has programmed and summed while a transfer runs. -/
namespace Rf4ce.Ota
open Crash Drv Common Os

/-! ### One frame of the file -/

/-- A file that the client may take, with the values of its header that the client reads. -/
structure Upgrade (cfg : OtaCfg) (info : OtaPreamble) (file : Nat → Byte) : Prop where
  forDevice : info.manufaurerCode = cfg.manufacturerCode ∧ info.chipType = cfg.chipId ∧ cfg.firmwareVersion < info.fileVer
  size : 0 < info.imageSize ∧ info.imageSize < otaMaxImageSize
  manufaurerCode : ofLe (bytes file otaHeadMauncode 2) = info.manufaurerCode
  chipType : ofLe (bytes file otaHeadImagetype 2) = info.chipType
  fileVer : ofLe (bytes file otaHeadFilever 4) = info.fileVer

/-- Where the header loop comes to in `n` bytes: it goes on, or it ended `j` bytes on. -/
def LoopCount (n i cnt : Nat) (r : Nat × Transfer) : Prop :=
  r.2.otaState = .starting ∧ r.2.otaHeadercnt = cnt + n ∨
    r.2.otaState = .dataing ∧ ∃ j < n, r.1 = (i + j + 6) % 256 ∧ r.2.otaHeadercnt = cnt + j + 6

theorem otaHeaderLoop_count {pData : Nat → Byte} (n i : Nat) {t : Transfer} (hst : t.otaState = .starting)
    (hcnt : t.otaHeadercnt + n + 6 < 4294967296) :
    LoopCount n i t.otaHeadercnt (otaHeaderLoop pData n i t) := by
  induction n generalizing i t with
  | zero => exact .inl ⟨hst, rfl⟩
  | succ n ih =>
    obtain ⟨-, hcount, -⟩ := otaHeaderByte_frame pData i t
    obtain ⟨hdone, hmore⟩ := otaHeaderByte_done pData i t
    unfold otaHeaderLoop
    dsimp only
    cases hr : (otaHeaderByte pData i t).2 with
    | true =>
      obtain ⟨hst', -⟩ := hdone hr
      rw [if_pos rfl, hcount, u32_eq (by omega)]
      exact .inr ⟨hst', 0, Nat.succ_pos n, rfl, rfl⟩
    | false =>
      rw [if_neg Bool.false_ne_true, hcount, u32_eq (by omega)]
      rcases ih (i + 1) (t := { (otaHeaderByte pData i t).1 with otaHeadercnt := t.otaHeadercnt + 1 })
        ((hmore hr).trans hst) (by dsimp only; omega) with ⟨hst', hc⟩ | ⟨hst', j, hj, hi, hc⟩
      · dsimp only at hc
        exact .inl ⟨hst', by omega⟩
      · dsimp only at hc
        refine .inr ⟨hst', j + 1, by omega, ?_, by omega⟩
        rw [hi]
        congr 1
        omega

/-- A header byte whose field has the known value changes nothing of `rc_otaInfo`. -/
theorem otaHeaderByte_info {pData : Nat → Byte} {i : Nat} {t : Transfer}
    (h10 : t.otaHeadercnt = otaHeadMauncode → ofLe (bytes pData i 2) = t.rcOtaInfo.manufaurerCode)
    (h12 : t.otaHeadercnt = otaHeadImagetype → ofLe (bytes pData i 2) = t.rcOtaInfo.chipType)
    (h14 : t.otaHeadercnt = otaHeadFilever → ofLe (bytes pData i 4) = t.rcOtaInfo.fileVer) :
    (otaHeaderByte pData i t).1.rcOtaInfo = t.rcOtaInfo := by
  unfold otaHeaderByte
  split_ifs with h₁ h₂ h₃ h₄ h₅
  · rfl
  · dsimp only
    rw [h10 h₂]
  · dsimp only
    rw [h12 h₃]
  · dsimp only
    rw [h14 h₄]
  · rfl
  · rfl

/-- The fields of a frame at byte `s` of the file have the values of `info`. -/
def FieldsAgree (info : OtaPreamble) (pData : Nat → Byte) (s n : Nat) : Prop :=
  ∀ j < n, (s + j = otaHeadMauncode → ofLe (bytes pData j 2) = info.manufaurerCode) ∧
    (s + j = otaHeadImagetype → ofLe (bytes pData j 2) = info.chipType) ∧
    (s + j = otaHeadFilever → ofLe (bytes pData j 4) = info.fileVer)

theorem otaHeaderLoop_info {info : OtaPreamble} {pData : Nat → Byte} {s len : Nat} (n i : Nat) {t : Transfer}
    (hagree : FieldsAgree info pData s len) (hfit : i + n ≤ len) (hs : s + len < 4294967296)
    (hcnt : t.otaHeadercnt = s + i) (hinfo : t.rcOtaInfo = info) : (otaHeaderLoop pData n i t).2.rcOtaInfo = info := by
  induction n generalizing i t with
  | zero => exact hinfo
  | succ n ih =>
    obtain ⟨-, hcount, -⟩ := otaHeaderByte_frame pData i t
    obtain ⟨h10, h12, h14⟩ := hagree i (by omega)
    have hbyte : (otaHeaderByte pData i t).1.rcOtaInfo = info := by
      rw [← hinfo] at h10 h12 h14 ⊢
      rw [← hcnt] at h10 h12 h14
      exact otaHeaderByte_info h10 h12 h14
    unfold otaHeaderLoop
    dsimp only
    rw [hcount, hcnt, u32_eq (show s + i + 1 < 4294967296 by omega)]
    split_ifs
    · exact hbyte
    · exact ih (i + 1) (by omega) (by dsimp only; omega) hbyte

theorem otaHeaderLoop_imageSize {pData : Nat → Byte} (n i : Nat) (t : Transfer) :
    (otaHeaderLoop pData n i t).2.rcOtaInfo.imageSize = t.rcOtaInfo.imageSize := by
  induction n generalizing i t with
  | zero => rfl
  | succ n ih =>
    obtain ⟨himg, -⟩ := otaHeaderByte_frame pData i t
    unfold otaHeaderLoop
    dsimp only
    split_ifs
    · exact himg
    · rw [ih]
      exact himg

/-- What a frame makes of the globals of a running transfer. -/
structure FrameRead (pData : Nat → Byte) (len : Nat) (t t' : Transfer) : Prop where
  state : t'.otaState = .starting ∨ t'.otaState = .dataing
  imageSize : t'.rcOtaInfo.imageSize = t.rcOtaInfo.imageSize
  low : t.otaHeadercnt + len ≤ t'.otaHeadercnt
  info : FieldsAgree t.rcOtaInfo pData t.otaHeadercnt len → t'.rcOtaInfo = t.rcOtaInfo

theorem otaDataProcess_reads (mcu : Mcu) (pData : Nat → Byte) {len : Byte} {t : Transfer}
    (hst : t.otaState = .starting ∨ t.otaState = .dataing) (hlen : len.toNat ≠ 0 ∧ len.toNat ≤ 48)
    (hcnt : t.otaHeadercnt < otaMaxImageSize) :
    ∃ t' ps, Processes (otaDataProcess mcu len pData t) t' ps ∧ FrameRead pData len.toNat t t' := by
  have hmax : t.otaHeadercnt < 196608 := hcnt
  rcases hst with hst | hst
  · have hcount := @otaHeaderLoop_count pData len.toNat 0 t hst (by omega)
    have himg := @otaHeaderLoop_imageSize pData len.toNat 0 t
    have hinfo := @otaHeaderLoop_info t.rcOtaInfo pData t.otaHeadercnt len.toNat len.toNat 0 t
    cases hloop : otaHeaderLoop pData len.toNat 0 t with
    | mk i t₁ =>
      rw [hloop] at hcount himg hinfo
      rcases hcount with ⟨hst₁, hc⟩ | ⟨hst₁, j, hj, hi, hc⟩
      · refine ⟨t₁, [], otaDataProcess_header hst hloop hst₁, .inl hst₁, himg, hc.ge, fun hagree => ?_⟩
        exact hinfo hagree (by omega) (by omega) rfl rfl
      · refine ⟨_, _, otaDataProcess_end hst hloop hst₁ hlen.1, .inr hst₁, himg, ?_, fun hagree => ?_⟩
        · dsimp only at hi hc
          change t.otaHeadercnt + len.toNat ≤ u32 (t₁.otaHeadercnt + otaDataLen len.toNat i)
          unfold otaDataLen
          rw [hc, hi, u32_eq (by omega)]
          omega
        · exact hinfo hagree (by omega) (by omega) rfl rfl
  · refine ⟨_, _, otaDataProcess_payload hst hlen.1, .inr hst, rfl, ?_, fun _ => rfl⟩
    change t.otaHeadercnt + len.toNat ≤ u32 (t.otaHeadercnt + otaDataLen len.toNat 0)
    unfold otaDataLen
    rw [u32_eq (by omega)]
    omega

/-! ### Phases -/

section Phases
variable (cfg : OtaCfg) (info : OtaPreamble) (file : Nat → Byte)

/-- No transfer runs, and none of the file is read. -/
structure Calm (c : Client) : Prop where
  state : Ended c.otaState
  count : c.otaHeadercnt = 0
  headersize : c.otaHeadersize = 0
  crc : c.crcValue = 0xffffffff
  offset : c.flashOffsetAddr = 0

/-- The chunks below `rcDataCount` are taken in once each and in order, and the globals and the
programmed bytes are those that they lead to. -/
structure Feeding (c : Client) (m : Trace) (log : List Nat) : Prop where
  state : c.otaState = .starting ∨ c.otaState = .dataing
  hdr : c.rcOtaInfo = info
  fed : ∃ junk t₀, Started info.imageSize t₀ ∧
    Feeds cfg.mcu file info.imageSize junk c.rcDataCount t₀ c.toTransfer m.programmed
  log : log = List.range c.rcDataCount
  low : 48 * c.rcDataCount ≤ c.otaHeadercnt
  high : c.otaHeadercnt < info.imageSize

/-- The transfer ended after the first chunk. -/
def Over (c : Client) : Prop := Ended c.otaState ∧ c.otaHeadercnt ≠ 0

/-- `ota_startReq` was called, and no START_RSP has been taken. -/
structure Waiting (c : Client) : Prop extends Calm c where
  info : c.rcOtaInfo = ⟨⟨0, 0, 0⟩, 0⟩
  noTry : NoTry c.evTimerList

inductive Phase (c : Client) (m : Trace) (log : List Nat) : Prop
  | waiting (h : Waiting c)
  | calm (h : Calm c) (hinfo : c.rcOtaInfo = info)
  | feeding (h : Feeding cfg info file c m log)

def EarlyReq : OtaReq → Prop
  | .startReq _ req => req = ⟨cfg.firmwareVersion, cfg.chipId, cfg.manufacturerCode⟩
  | .stopReq _ _ => True
  | .dataReq _ _ => False

def GoodReq : OtaReq → Prop
  | .startReq _ req => req = ⟨cfg.firmwareVersion, cfg.chipId, cfg.manufacturerCode⟩
  | .stopReq _ _ => True
  | .dataReq _ req => req.toOtaIdent = info.toOtaIdent

/-- Before the first START_RSP no chunk is asked for. -/
def Early (c : Client) (m : Trace) : Prop := Waiting c ∧ ∀ req ∈ m.sent, EarlyReq cfg req

/-- The client asks for chunks of the file only. -/
def Live (c : Client) (m : Trace) (log : List Nat) : Prop :=
  Phase cfg info file c m log ∧ ∀ req ∈ m.sent, GoodReq cfg info req

def Sound (c : Client) (m : Trace) (log : List Nat) : Prop := Over c ∨ Live cfg info file c m log

end Phases

section Steps
variable {cfg : OtaCfg} {info : OtaPreamble} {file : Nat → Byte} {c c' : Client} {m m' : Trace} {log : List Nat}

theorem Waiting.kin (h : Waiting c) (hkin : Kin c c') : Waiting c' := by
  have hnoTry := hkin.noTry h.noTry
  rcases hkin.transfer with heq | ⟨s, hs, heq⟩
  · obtain ⟨⟨hst, hc, hsz, hcrc, hoff⟩, hinfo, -⟩ := h
    rw [← heq] at hst hc hsz hcrc hoff hinfo
    exact ⟨⟨hst, hc, hsz, hcrc, hoff⟩, hinfo, hnoTry⟩
  · refine ⟨⟨?_, ?_, ?_, ?_, ?_⟩, ?_, hnoTry⟩
    · rw [heq]
      exact hs
    · rw [heq]
      exact h.count
    · rw [heq]
      exact h.headersize
    · rw [heq]
      exact h.crc
    · rw [heq]
      exact h.offset
    · rw [heq]
      exact h.info

theorem Calm.congr (h : Calm c) (heq : c'.toTransfer = c.toTransfer) : Calm c' := by
  obtain ⟨hst, hc, hsz, hcrc, hoff⟩ := h
  rw [← heq] at hst hc hsz hcrc hoff
  exact ⟨hst, hc, hsz, hcrc, hoff⟩

theorem Feeding.congr (h : Feeding cfg info file c m log) (heq : c'.toTransfer = c.toTransfer)
    (hdata : c'.rcDataCount = c.rcDataCount) (hprog : m'.programmed = m.programmed) :
    Feeding cfg info file c' m' log := by
  obtain ⟨hst, hinfo, hfed, hlog, hlow, hhigh⟩ := h
  rw [← hprog, ← heq, ← hdata] at hfed
  rw [← heq] at hst hinfo hlow hhigh
  rw [← hdata] at hlog hlow
  exact ⟨hst, hinfo, hfed, hlog, hlow, hhigh⟩

theorem Calm.kin (h : Calm c) (hkin : Kin c c') : Calm c' := by
  rcases hkin.transfer with heq | ⟨s, hs, heq⟩
  · exact h.congr heq
  · refine ⟨?_, ?_, ?_, ?_, ?_⟩
    · rw [heq]
      exact hs
    · rw [heq]
      exact h.count
    · rw [heq]
      exact h.headersize
    · rw [heq]
      exact h.crc
    · rw [heq]
      exact h.offset

/-- Before the first chunk nothing is read. -/
theorem Feeding.started (h : Feeding cfg info file c m log) (hdata : c.rcDataCount = 0) :
    Started info.imageSize c.toTransfer := by
  obtain ⟨junk, t₀, ht₀, hfed⟩ := h.fed
  rw [hdata] at hfed
  have heq : t₀ = c.toTransfer := (hfed fun _ => 0).1
  rw [← heq]
  exact ht₀

theorem Over.kin (h : Over c) (hkin : Kin c c') : Over c' := by
  unfold Over at *
  rcases hkin.transfer with heq | ⟨s, hs, heq⟩
  · rw [heq]
    exact h
  · rw [heq]
    exact ⟨hs, h.2⟩

/-- A running transfer goes on or has ended. -/
theorem Phase.kin (h : Phase cfg info file c m log) (hkin : Kin c c') (hprog : m'.programmed = m.programmed) :
    Over c' ∨ Phase cfg info file c' m' log := by
  cases h with
  | waiting h => exact .inr (.waiting (h.kin hkin))
  | calm h hinfo =>
    refine .inr (.calm (h.kin hkin) ?_)
    rcases hkin.transfer with heq | ⟨s, -, heq⟩
    · rw [heq]
      exact hinfo
    · rw [heq]
      exact hinfo
  | feeding h =>
    rcases hkin.transfer with heq | ⟨s, hs, heq⟩
    · exact .inr (.feeding (h.congr heq hkin.data hprog))
    · by_cases hzero : c.otaHeadercnt = 0
      · right
        have hlow := h.low
        have hst := h.started (by omega)
        apply Phase.calm
        · refine ⟨?_, ?_, ?_, ?_, ?_⟩
          · rw [heq]
            exact hs
          · rw [heq]
            exact hst.count
          · rw [heq]
            exact hst.headersize
          · rw [heq]
            exact hst.crc
          · rw [heq]
            exact hst.offset
        · rw [heq]
          exact h.hdr
      · left
        unfold Over
        rw [heq]
        exact ⟨hs, hzero⟩

theorem QuietReq.early {req : OtaReq} (h : QuietReq cfg c req) (hc : Waiting c) : EarlyReq cfg req := by
  rcases h with ⟨seqNo, rfl⟩ | ⟨seqNo, i, rfl⟩ | ⟨-, hnot⟩
  · rfl
  · trivial
  · exact absurd hc.noTry hnot

theorem QuietReq.good {req : OtaReq} (h : QuietReq cfg c req) (hc : Phase cfg info file c m log) :
    GoodReq cfg info req := by
  rcases h with ⟨seqNo, rfl⟩ | ⟨seqNo, i, rfl⟩ | ⟨rfl, hnot⟩
  · rfl
  · trivial
  · have hgood (hinfo : c.rcOtaInfo = info) : GoodReq cfg info c.dataReq := by
      change c.rcOtaInfo.toOtaIdent = info.toOtaIdent
      rw [hinfo]
    cases hc with
    | waiting hc => exact absurd hc.noTry hnot
    | calm hc hinfo => exact hgood hinfo
    | feeding hc => exact hgood hc.hdr

/-- A property of all requests is kept when those that are sent have it. -/
theorem QuietStep.sent_all {r : Option Client} {P : OtaReq → Prop} (hq : QuietStep cfg c m m' r)
    (hP : ∀ req, QuietReq cfg c req → P req) (h : ∀ req ∈ m.sent, P req) : ∀ req ∈ m'.sent, P req := by
  intro req hreq
  rcases hq.sent with heq | ⟨new, heq, hnew⟩
  · rw [heq] at hreq
    exact h req hreq
  · rw [heq] at hreq
    rcases List.mem_append.mp hreq with hreq | hreq
    · exact h req hreq
    · rw [List.mem_singleton.mp hreq]
      exact hP new hnew

theorem Early.quiet {r : Option Client} (h : Early cfg c m) (hq : QuietStep cfg c m m' r) (hr : r = some c') :
    Early cfg c' m' := by
  constructor
  · exact h.1.kin (hq.client c' hr)
  · exact hq.sent_all (fun req hreq => hreq.early h.1) h.2

theorem Live.quiet {r : Option Client} (h : Live cfg info file c m log) (hq : QuietStep cfg c m m' r) (hr : r = some c') :
    Sound cfg info file c' m' log := by
  rcases h.1.kin (hq.client c' hr) hq.programmed with hover | hphase
  · exact .inl hover
  · exact .inr ⟨hphase, hq.sent_all (fun req hreq => hreq.good h.1) h.2⟩

end Steps

/-! ### One DATA_RSP -/

/-- The operations program or assign `ota_state`. -/
def OnlyPrograms : OtaOp → Prop
  | .flash (.program _ _) => True
  | .setState _ => True
  | _ => False

theorem foldlM_programs {ops : List OtaOp} (m : Trace) (hops : ∀ op ∈ ops, OnlyPrograms op) :
    ops.foldlM noteMon m = some { m with programmed := m.programmed ++ programmed ops } := by
  induction ops generalizing m with
  | nil =>
    change some m = some { m with programmed := m.programmed ++ [] }
    rw [List.append_nil]
  | cons op ops ih =>
    have hop := hops op List.mem_cons_self
    have hrest := ih (m.note op) fun o ho => hops o (List.mem_cons_of_mem _ ho)
    rw [List.foldlM_cons]
    change ops.foldlM noteMon (m.note op) = _
    rw [hrest]
    cases op with
    | flash op =>
      cases op with
      | erase a => exact absurd hop id
      | program a data =>
        change some { m with programmed := (m.programmed ++ placed a data) ++ programmed ops } = _
        rw [List.append_assoc]
        rfl
    | send msg => exact absurd hop id
    | setState s => rfl
    | otaCb s => exact absurd hop id

theorem flashProgramPieces_onlyPrograms (ps : List (Nat × Nat)) (buf : List Byte) (f : Flash) :
    ∀ op ∈ ((flashProgramPieces buf ps).ops f).map OtaOp.flash, OnlyPrograms op := by
  induction ps generalizing buf f with
  | nil =>
    intro op hop
    cases hop
  | cons p ps ih =>
    intro op hop
    change op ∈ OtaOp.flash _ :: ((flashProgramPieces (buf.drop p.2) ps).ops _).map OtaOp.flash at hop
    rcases List.mem_cons.mp hop with rfl | hop
    · trivial
    · exact ih _ _ op hop

section Chunk
variable {cfg : OtaCfg} {mcu : Mcu} {now : U32} {pData : Nat → Byte} {len : Byte} {t t' : Transfer} {m : Trace} {g : Flash}

theorem otaProgram_onlyPrograms {len i : Nat} {t : Transfer} :
    ∀ op ∈ (otaProgram mcu len i pData t).ops g, OnlyPrograms op := by
  intro op hop
  unfold otaProgram at hop
  split_ifs at hop
  · cases hop
  · change op ∈ (((flashWrite (otaProgramAddr t) _).ops g ++ []).map OtaOp.flash) ++ [] at hop
    rw [List.append_nil, List.append_nil] at hop
    exact flashProgramPieces_onlyPrograms _ _ g op hop

theorem otaDataProcess_onlyPrograms : ∀ op ∈ (otaDataProcess mcu len pData t).ops g, OnlyPrograms op := by
  intro op hop
  unfold otaDataProcess at hop
  cases hst : t.otaState with
  | starting =>
    rw [hst] at hop
    dsimp only at hop
    split_ifs at hop
    · rcases List.mem_cons.mp hop with rfl | hop
      · trivial
      · exact otaProgram_onlyPrograms op hop
    · cases hop
  | dataing =>
    rw [hst] at hop
    exact otaProgram_onlyPrograms op hop
  | success =>
    rw [hst] at hop
    cases hop
  | failed =>
    rw [hst] at hop
    cases hop
  | finished =>
    rw [hst] at hop
    cases hop

theorem otaDataProcess_noted {ps : List (Nat × Byte)} (h : Processes (otaDataProcess mcu len pData t) t' ps) :
    Watched noteMon m (otaDataProcess mcu len pData t)
      (fun m' r _ => m' = { m with programmed := m.programmed ++ ps } ∧ r.2 = t') g := by
  obtain ⟨hvalue, hops⟩ := h g
  refine ⟨_, foldlM_programs m otaDataProcess_onlyPrograms, ?_, hvalue⟩
  rw [hops]

variable {c : Client}

theorem otaDataReqCb_noted : Watched noteMon m (otaDataReqCb cfg now c)
    (fun m' r _ => m' = { m with sent := m.sent ++ [c.dataReq] } ∧
      ∀ c', r = some c' → c'.toTransfer = c.toTransfer ∧ c'.rcDataCount = c.rcDataCount) g := by
  unfold otaDataReqCb
  apply watched_bind
  apply watched_issue (show noteMon m (.send c.unonTryPolling.dataReq) =
    some { m with sent := m.sent ++ [c.dataReq] } from rfl)
  apply watched_pure
  refine ⟨rfl, fun c' hc' => ?_⟩
  obtain ⟨⟨i, c''⟩, hreg, rfl⟩ := Option.map_eq_some_iff.mp hc'
  obtain ⟨l, -, rfl⟩ := evOnTimer_some hreg
  exact ⟨rfl, rfl⟩

/-- What follows a counted chunk: the next request, or the end of the transfer. -/
structure NextStep (c : Client) (m m' : Trace) (r : Option Client) : Prop where
  programmed : m'.programmed = m.programmed
  erases : m'.erases = m.erases
  ends : c.rcOtaInfo.imageSize ≤ c.otaHeadercnt → ∀ c', r = some c' →
    Ended c'.otaState ∧ c'.otaHeadercnt = c.otaHeadercnt
  goesOn : c.otaHeadercnt < c.rcOtaInfo.imageSize → m'.sent = m.sent ++ [c.dataReq] ∧
    ∀ c', r = some c' → c'.toTransfer = c.toTransfer ∧ c'.rcDataCount = c.rcDataCount

theorem otaDataRspNext_noted : Watched noteMon m (otaDataRspNext cfg now c) (fun m' r _ => NextStep c m m' r) g := by
  unfold otaDataRspNext
  split_ifs with hend
  · have hnot : ¬ c.otaHeadercnt < c.rcOtaInfo.imageSize := Nat.not_lt.mpr hend
    apply watched_bind
    apply watched_query
    cases otaVerify cfg.mcu c.toTransfer g with
    | none =>
      apply watched_pure
      refine ⟨rfl, rfl, fun _ c' hc' => ?_, fun h => absurd h hnot⟩
      cases hc'
    | some b =>
      cases b with
      | true =>
        apply watched_bind
        apply watched_issue (show noteMon m (.setState .success) = some m from rfl)
        apply watched_pure
        refine ⟨rfl, rfl, fun _ c' hc' => ?_, fun h => absurd h hnot⟩
        obtain ⟨⟨i, c''⟩, hreg, rfl⟩ := Option.map_eq_some_iff.mp hc'
        obtain ⟨l, -, rfl⟩ := evOnTimer_some hreg
        have hended : Ended .success := by unfold Ended; decide
        exact ⟨hended, rfl⟩
      | false =>
        refine Watched.mono otaFail_kin fun m' r g' h => ?_
        obtain ⟨rfl, hr⟩ := h
        refine ⟨rfl, rfl, fun _ c' hc' => ?_, fun h => absurd h hnot⟩
        obtain ⟨hkin, hended⟩ := hr c' hc'
        exact ⟨hended, hkin.headercnt⟩
  · refine Watched.mono otaDataReqCb_noted fun m' r g' h => ?_
    obtain ⟨rfl, hr⟩ := h
    exact ⟨rfl, rfl, fun hle => absurd hle hend, fun _ => ⟨rfl, hr⟩⟩

end Chunk

/-- A DATA_RSP of the server as the client reads it. -/
structure GoodFrame (info : OtaPreamble) (file : Nat → Byte) (hdr : OtaDataFrame) : Prop where
  ident : hdr.toOtaIdent = info.toOtaIdent
  payload : 48 * hdr.imageSize < info.imageSize → hdr.payloadSize ≠ 0 →
    hdr.payloadSize = BitVec.ofNat 8 (frameLen info.imageSize hdr.imageSize) ∧
      ∀ j < frameLen info.imageSize hdr.imageSize, hdr.payload j = file (48 * hdr.imageSize + j)

/-- What lies behind the later frames does not matter. -/
theorem otaFeed_congr {mcu : Mcu} {file : Nat → Byte} {size : Nat} {junk junk' : Nat → Nat → Byte} (k : Nat) (t : Transfer)
    (h : ∀ i < k, junk' i = junk i) : otaFeed mcu file size junk' k t = otaFeed mcu file size junk k t := by
  induction k with
  | zero => rfl
  | succ k ih =>
    have hframe : framePayload file size junk' k = framePayload file size junk k := by
      unfold framePayload
      rw [h k (Nat.lt_succ_self k)]
    unfold otaFeed
    rw [ih fun i hi => h i (Nat.lt_succ_of_lt hi), hframe]

section Take
variable {cfg : OtaCfg} {now : U32} {info : OtaPreamble} {file : Nat → Byte} {hdr : OtaDataFrame} {c c' : Client}
  {m m' : Trace} {log : List Nat} {g : Flash}

theorem framePayload_update (junk : Nat → Nat → Byte) {size : Nat} {payload : Nat → Byte} {n : Nat}
    (h : ∀ j < frameLen size n, payload j = file (48 * n + j)) :
    framePayload file size (Function.update junk n payload) n = payload := by
  funext j
  unfold framePayload
  rw [Function.update_self]
  split_ifs with hj
  · exact (h j hj).symm
  · rfl

/-- A frame of the file has the fields of its header. -/
theorem Upgrade.fieldsAgree (h : Upgrade cfg info file) {pData : Nat → Byte} {n s : Nat} (hs : n = 0 → s = 0)
    (hlow : 48 * n ≤ s) (hpay : ∀ j < 48, pData j = file (48 * n + j)) : FieldsAgree info pData s 48 := by
  have hfield {j len : Nat} (hn : n = 0) (hj : j + len ≤ 48) : bytes pData j len = bytes file j len := by
    apply bytes_congr
    intro x h₁ h₂
    rw [hpay x (by omega)]
    congr 1
    omega
  have hfirst {off len : Nat} {j : Nat} (hoff : off + len ≤ 48) (hlen : 0 < len) (hj : s + j = off) :
      bytes pData j len = bytes file off len := by
    have hn : n = 0 := by omega
    have hs0 := hs hn
    have heq : j = off := by omega
    subst heq
    exact hfield hn hoff
  intro j _
  refine ⟨fun hj => ?_, fun hj => ?_, fun hj => ?_⟩
  · rw [hfirst (by decide) (by decide) hj]
    exact h.manufaurerCode
  · rw [hfirst (by decide) (by decide) hj]
    exact h.chipType
  · rw [hfirst (by decide) (by decide) hj]
    exact h.fileVer

/-- The next chunk of a running transfer; the last one ends it. -/
theorem Feeding.frame (hup : Upgrade cfg info file) (h : Feeding cfg info file c m log) (hgood : GoodFrame info file hdr)
    (hn : hdr.imageSize = c.rcDataCount) (hpay : hdr.payloadSize ≠ 0) :
    ∃ t' ps, Processes (otaDataProcess cfg.mcu hdr.payloadSize hdr.payload c.toTransfer) t' ps ∧
      t'.rcOtaInfo.imageSize = info.imageSize ∧ t'.otaHeadercnt ≠ 0 ∧
      (t'.otaHeadercnt < info.imageSize → ∀ c', c'.toTransfer = t' → c'.rcDataCount = c.rcDataCount + 1 →
        Feeding cfg info file c' { m with programmed := m.programmed ++ ps } (log ++ [c.rcDataCount])) := by
  have hlow := h.low
  have hhigh := h.high
  have hmax : info.imageSize < 196608 := hup.size.2
  obtain ⟨hlen, hbytes⟩ := hgood.payload (by omega) hpay
  rw [hn] at hlen hbytes
  have hle := frameLen_le info.imageSize c.rcDataCount
  have hend := @frameLen_end info.imageSize c.rcDataCount (by omega)
  have htoNat := frameLen_toNat info.imageSize c.rcDataCount
  rw [← hlen] at htoNat
  have hcnt : c.otaHeadercnt < otaMaxImageSize := hhigh.trans hup.size.2
  obtain ⟨t', ps, hproc, hread⟩ := @otaDataProcess_reads cfg.mcu hdr.payload hdr.payloadSize c.toTransfer h.state
    (by omega) hcnt
  have hlow' := hread.low
  have himg := hread.imageSize
  rw [h.hdr] at himg
  refine ⟨t', ps, hproc, himg, by omega, fun hlt c' ht' hdata => ?_⟩
  have hfull : frameLen info.imageSize c.rcDataCount = 48 := by omega
  have hinfo : t'.rcOtaInfo = info := by
    have hkeep := hread.info
    rw [h.hdr, htoNat, hfull] at hkeep
    apply hkeep
    apply hup.fieldsAgree
    · exact fun hzero => (h.started hzero).count
    · exact hlow
    · exact fun j hj => hbytes j (by omega)
  refine ⟨?_, ?_, ?_, ?_, ?_, ?_⟩
  · rw [ht']
    exact hread.state
  · rw [ht']
    exact hinfo
  · obtain ⟨junk, t₀, ht₀, hfed⟩ := h.fed
    refine ⟨Function.update junk c.rcDataCount hdr.payload, t₀, ht₀, ?_⟩
    have hfed' : Feeds cfg.mcu file info.imageSize (Function.update junk c.rcDataCount hdr.payload) c.rcDataCount t₀
        c.toTransfer m.programmed := by
      unfold Feeds
      rw [otaFeed_congr _ _ fun i hi => Function.update_of_ne (Nat.ne_of_lt hi) _ _]
      exact hfed
    rw [hdata, ht']
    apply hfed'.succ
    rw [framePayload_update junk hbytes, ← hlen]
    exact hproc
  · rw [hdata, List.range_succ, h.log]
  · rw [hdata, ht']
    omega
  · rw [ht']
    exact hlt

theorem NextStep.over {r : Option Client} (h : NextStep c m m' r) (hr : r = some c') (hc : Over c) : Over c' := by
  obtain ⟨hended, hcnt⟩ := hc
  by_cases hend : c.rcOtaInfo.imageSize ≤ c.otaHeadercnt
  · obtain ⟨hended', hcnt'⟩ := h.ends hend c' hr
    refine ⟨hended', ?_⟩
    rw [hcnt']
    exact hcnt
  · obtain ⟨ht, -⟩ := (h.goesOn (Nat.lt_of_not_le hend)).2 c' hr
    unfold Over
    rw [ht]
    exact ⟨hended, hcnt⟩

/-- The state after a counted chunk decides what follows it. -/
theorem NextStep.sound {r : Option Client} (h : NextStep c m m' r) (hr : r = some c') (hup : Upgrade cfg info file)
    (hne : c.rcOtaInfo.fileVer ≠ 0) (hc : Sound cfg info file c m log) : Sound cfg info file c' m' log := by
  rcases hc with hover | ⟨hphase, hsent⟩
  · exact .inl (h.over hr hover)
  · right
    have hinfo : c.rcOtaInfo = info ∧ c.otaHeadercnt < info.imageSize := by
      cases hphase with
      | waiting hc =>
        rw [hc.info] at hne
        exact absurd rfl hne
      | calm hc hinfo =>
        refine ⟨hinfo, ?_⟩
        rw [hc.count]
        exact hup.size.1
      | feeding hc => exact ⟨hc.hdr, hc.high⟩
    obtain ⟨hinfo, hlt⟩ := hinfo
    rw [← hinfo] at hlt
    obtain ⟨hsent', hnext⟩ := h.goesOn hlt
    obtain ⟨ht, hdata⟩ := hnext c' hr
    constructor
    · cases hphase with
      | waiting hc =>
        rw [hc.info] at hne
        exact absurd rfl hne
      | calm hc hinfo =>
        apply Phase.calm (hc.congr ht)
        rw [ht]
        exact hinfo
      | feeding hc => exact .feeding (hc.congr ht hdata h.programmed)
    · intro req hreq
      rw [hsent'] at hreq
      rcases List.mem_append.mp hreq with hreq | hreq
      · exact hsent req hreq
      · rw [List.mem_singleton.mp hreq]
        change c.rcOtaInfo.toOtaIdent = info.toOtaIdent
        rw [hinfo]

/-- The client with the globals `t'` after a chunk, and with the chunk counted. -/
def Client.took (c : Client) (t' : Transfer) : Client :=
  ({ c.unonAutoPolling.unonTryPolling with toTransfer := t' } : Client).countChunk

/-- A chunk that is taken in. -/
theorem otaDataRspHandler_takes {t' : Transfer} {ps : List (Nat × Byte)} (htaken : Taken c hdr)
    (h : Processes (otaDataProcess cfg.mcu hdr.payloadSize hdr.payload c.toTransfer) t' ps) :
    Watched noteMon m (otaDataRspHandler cfg now hdr c) (fun m' r _ => m'.erases = m.erases ∧
      ∀ c', r = some c' → ∃ c₂, Kin (c.took t') c₂ ∧
        NextStep c₂ { m with programmed := m.programmed ++ ps } m' (some c')) g := by
  unfold otaDataRspHandler
  rw [if_pos htaken.1]
  dsimp only
  rw [if_neg htaken.2]
  apply watched_bind
  refine Watched.mono (otaDataProcess_noted h) fun m₁ r₁ g₁ h₁ => ?_
  obtain ⟨rfl, ht'⟩ := h₁
  rw [ht']
  cases r₁.1 with
  | true =>
    refine Watched.mono otaDataRspNext_noted fun m' r g' hnext => ?_
    refine ⟨hnext.erases, fun c' hc' => ⟨c.took t', Kin.refl _, ?_⟩⟩
    rw [← hc']
    exact hnext
  | false =>
    apply watched_bind
    refine Watched.mono otaFail_kin fun m₂ r₂ g₂ h₂ => ?_
    obtain ⟨rfl, hr₂⟩ := h₂
    cases r₂ with
    | none =>
      apply watched_pure
      refine ⟨rfl, fun c' hc' => ?_⟩
      cases hc'
    | some c₂ =>
      refine Watched.mono otaDataRspNext_noted fun m' r g' hnext => ?_
      refine ⟨hnext.erases, fun c' hc' => ⟨c₂.countChunk, ?_, ?_⟩⟩
      · exact (hr₂ c₂ rfl).1.countChunk
      · rw [← hc']
        exact hnext

/-- In a state in which no transfer runs a chunk is counted and no more. -/
theorem otaDataProcess_ended {mcu : Mcu} {len : Byte} {pData : Nat → Byte} {t : Transfer} (h : Ended t.otaState) :
    Processes (otaDataProcess mcu len pData t) t [] := by
  intro f
  obtain ⟨hstart, hdata⟩ := h
  unfold otaDataProcess
  cases hst : t.otaState with
  | starting => exact absurd hst hstart
  | dataing => exact absurd hst hdata
  | success => exact ⟨rfl, rfl⟩
  | failed => exact ⟨rfl, rfl⟩
  | finished => exact ⟨rfl, rfl⟩

/-- What follows a chunk that leaves a running transfer behind. -/
theorem NextStep.sound_kin {c₁ c₂ : Client} (h : NextStep c₂ m m' (some c')) (hkin : Kin c₁ c₂) (hup : Upgrade cfg info file)
    (hne : c₁.rcOtaInfo.fileVer ≠ 0) (hc : Live cfg info file c₁ m log) : Sound cfg info file c' m' log := by
  have hq : QuietStep cfg c₁ m m (some c₂) := by
    apply QuietStep.of_kin
    intro c₃ hc₃
    cases hc₃
    exact hkin
  have hne₂ : c₂.rcOtaInfo.fileVer ≠ 0 := by
    rw [hkin.rcOtaInfo]
    exact hne
  exact h.sound rfl hup hne₂ (hc.quiet hq rfl)

theorem Live.take (hup : Upgrade cfg info file) (hgood : GoodFrame info file hdr) (htaken : Taken c hdr)
    (h : Live cfg info file c m log) :
    ∃ t' ps, Processes (otaDataProcess cfg.mcu hdr.payloadSize hdr.payload c.toTransfer) t' ps ∧
      ∀ c₂ m' c', Kin (c.took t') c₂ → NextStep c₂ { m with programmed := m.programmed ++ ps } m' (some c') →
        Sound cfg info file c' m' (log ++ [hdr.imageSize]) := by
  have hnew := hup.forDevice.2.2
  have hver : c.rcOtaInfo.fileVer ≠ 0 := by
    have heq : c.rcOtaInfo.fileVer = info.fileVer := congrArg OtaIdent.fileVer (htaken.1.1.symm.trans hgood.ident)
    omega
  obtain ⟨hphase, hsent⟩ := h
  cases hphase with
  | waiting hc =>
    rw [hc.info] at hver
    exact absurd rfl hver
  | calm hc hinfo =>
    refine ⟨_, [], otaDataProcess_ended hc.state, fun c₂ m' c' hkin hnext => ?_⟩
    apply hnext.sound_kin hkin hup hver
    exact ⟨.calm (hc.congr rfl) hinfo, hsent⟩
  | feeding hc =>
    obtain ⟨t', ps, hproc, himg, hcnt, hfeeding⟩ := hc.frame hup hgood htaken.1.2 htaken.2
    refine ⟨t', ps, hproc, fun c₂ m' c' hkin hnext => ?_⟩
    by_cases hlt : t'.otaHeadercnt < info.imageSize
    · have hlow := hc.low
      have hhigh := hc.high
      have hmax : info.imageSize < 196608 := hup.size.2
      have hnext' := hfeeding hlt (c.took t') rfl (u32_eq (show c.rcDataCount + 1 < 4294967296 by omega))
      rw [← htaken.1.2] at hnext'
      apply hnext.sound_kin hkin hup _ ⟨.feeding hnext', hsent⟩
      rw [hnext'.hdr]
      omega
    · left
      have hinfo : c₂.rcOtaInfo.imageSize = info.imageSize := by
        rw [hkin.rcOtaInfo]
        exact himg
      have hcnt₂ : c₂.otaHeadercnt = t'.otaHeadercnt := hkin.headercnt
      obtain ⟨hended, hcnt'⟩ := hnext.ends (by omega) c' rfl
      refine ⟨hended, ?_⟩
      rw [hcnt', hcnt₂]
      exact hcnt

/-- A DATA_RSP that does not match or has no payload. -/
theorem otaDataRspHandler_quiet (hnot : ¬ Taken c hdr) :
    Watched noteMon m (otaDataRspHandler cfg now hdr c) (fun m' r _ => QuietStep cfg c m m' r) g := by
  unfold otaDataRspHandler
  split_ifs with hmatch hpay
  · refine Watched.mono otaFail_kin fun m' r g' hr => ?_
    obtain ⟨rfl, hr⟩ := hr
    apply QuietStep.of_kin
    intro c' hc'
    exact (unonAutoPolling_kin.trans unonTryPolling_kin).trans (hr c' hc').1
  · exact absurd ⟨hmatch, hpay⟩ hnot
  · apply watched_pure
    apply QuietStep.of_kin
    intro c' hc'
    cases hc'
    exact Kin.refl c

theorem otaDataRspHandler_sound (hup : Upgrade cfg info file) (hgood : GoodFrame info file hdr)
    (h : Live cfg info file c m log) :
    Watched noteMon m (otaDataRspHandler cfg now hdr c) (fun m' r _ => m'.erases = m.erases ∧
      ∀ c', r = some c' → Sound cfg info file c' m' (log ++ takenChunk c (.dataRsp hdr))) g := by
  by_cases htaken : Taken c hdr
  · have hchunk : takenChunk c (.dataRsp hdr) = [hdr.imageSize] := if_pos htaken
    rw [hchunk]
    obtain ⟨t', ps, hproc, hnext⟩ := h.take hup hgood htaken
    refine Watched.mono (otaDataRspHandler_takes htaken hproc) fun m' r _ hr => ⟨hr.1, fun c' hc' => ?_⟩
    obtain ⟨c₂, hkin, hn⟩ := hr.2 c' hc'
    exact hnext c₂ m' c' hkin hn
  · have hchunk : takenChunk c (.dataRsp hdr) = [] := if_neg htaken
    rw [hchunk, List.append_nil]
    exact Watched.mono (otaDataRspHandler_quiet htaken) fun m' r _ hq => ⟨hq.erases, fun c' hc' => h.quiet hq hc'⟩

/-- After the end of a transfer no chunk revives it. -/
theorem otaDataRspHandler_over (h : Over c) : Watched noteMon m (otaDataRspHandler cfg now hdr c)
    (fun _ r _ => ∀ c', r = some c' → Over c') g := by
  by_cases htaken : Taken c hdr
  · refine Watched.mono (otaDataRspHandler_takes htaken (otaDataProcess_ended h.1)) fun m' r _ hr c' hc' => ?_
    obtain ⟨c₂, hkin, hn⟩ := hr.2 c' hc'
    have htook : Over (c.took c.toTransfer) := h
    exact hn.over rfl (htook.kin hkin)
  · exact Watched.mono (otaDataRspHandler_quiet htaken) fun m' r _ hq c' hc' => h.kin (hq.client c' hc')

end Take

/-! ### START_RSP -/

theorem flashEraseSectors_noted (n addr : Nat) (m : Trace) (g : Flash) :
    Watched noteMon m (onFlash (flashEraseSectors addr n)) (fun m' _ _ => m'.erases = m.erases + n ∧ m'.sent = m.sent ∧
      (n ≠ 0 → m'.programmed = [])) g := by
  have hops : ∃ m', (((flashEraseSectors addr n).ops g).map OtaOp.flash).foldlM noteMon m = some m' ∧
      m'.erases = m.erases + n ∧ m'.sent = m.sent ∧ (m.programmed = [] ∨ n ≠ 0 → m'.programmed = []) := by
    induction n generalizing addr m g with
    | zero => exact ⟨m, rfl, rfl, rfl, fun h => h.resolve_right (fun hn => hn rfl)⟩
    | succ n ih =>
      obtain ⟨m', hfold, herases, hsent, hprog⟩ := ih (addr + flashSectorSize)
        { m with programmed := [], erases := m.erases + 1 } (Device.apply g (FlashOp.erase addr))
      refine ⟨m', hfold, ?_, hsent, fun _ => hprog (.inl rfl)⟩
      rw [herases]
      dsimp only
      omega
  obtain ⟨m', hfold, herases, hsent, hprog⟩ := hops
  exact ⟨m', hfold, herases, hsent, fun hn => hprog (.inr hn)⟩

section Start
variable {cfg : OtaCfg} {now : U32} {info : OtaPreamble} {file : Nat → Byte} {c : Client} {m : Trace} {log : List Nat} {g : Flash}

/-- With nothing counted a transfer can start. -/
theorem Live.fresh (h : Live cfg info file c m log) (hfresh : c.rcDataCount = 0) :
    c.otaHeadersize = 0 ∧ c.crcValue = 0xffffffff ∧ c.flashOffsetAddr = 0 := by
  obtain ⟨hphase, -⟩ := h
  cases hphase with
  | waiting hc => exact ⟨hc.headersize, hc.crc, hc.offset⟩
  | calm hc hinfo => exact ⟨hc.headersize, hc.crc, hc.offset⟩
  | feeding hc =>
    have hst := hc.started hfresh
    exact ⟨hst.headersize, hst.crc, hst.offset⟩

theorem otaStartRspHandler_sound {hdr : OtaPreamble} (hup : Upgrade cfg info file) (hhdr : hdr = info)
    (hfresh : c.rcDataCount = 0 ∧ c.otaHeadercnt = 0) (h : Live cfg info file c m log) :
    Watched noteMon m (otaStartRspHandler cfg now hdr c) (fun m' r _ => m'.erases ≠ m.erases ∧
      ∀ c', r = some c' → Sound cfg info file c' m' []) g := by
  subst hhdr
  obtain ⟨hsize, hcrc, hoff⟩ := h.fresh hfresh.1
  unfold otaStartRspHandler
  rw [if_pos hup.forDevice]
  dsimp only
  rw [if_pos hup.size.2]
  apply watched_bind
  refine Watched.mono (flashEraseSectors_noted _ _ m g) fun m₁ _ g₁ h₁ => ?_
  obtain ⟨herases, hsent₁, hprog⟩ := h₁
  have hsectors : (hdr.imageSize / flashSectorSize + 1) % 65536 ≠ 0 := by
    have hmax : hdr.imageSize < 196608 := hup.size.2
    unfold flashSectorSize
    omega
  apply watched_bind
  apply watched_issue (show noteMon m₁ (.setState .starting) = some m₁ from rfl)
  refine Watched.mono otaDataReqCb_noted fun m' r g' hr => ?_
  obtain ⟨rfl, hr⟩ := hr
  constructor
  · change m₁.erases ≠ m.erases
    omega
  · intro c' hc'
    obtain ⟨ht, hdata⟩ := hr c' hc'
    right
    constructor
    · apply Phase.feeding
      have hzero : c'.rcDataCount = 0 := hdata.trans hfresh.1
      have hcnt : c'.otaHeadercnt = 0 := by
        rw [ht]
        exact hfresh.2
      refine ⟨?_, ?_, ?_, ?_, ?_, ?_⟩
      · rw [ht]
        exact .inl rfl
      · rw [ht]
      · refine ⟨fun _ _ => 0, c'.toTransfer, ?_, ?_⟩
        · rw [ht]
          exact ⟨rfl, hfresh.2, hsize, rfl, hcrc, hoff⟩
        · rw [hzero]
          change Feeds cfg.mcu file hdr.imageSize _ 0 c'.toTransfer c'.toTransfer m₁.programmed
          rw [hprog hsectors]
          exact feeds_zero
      · rw [hzero]
        rfl
      · rw [hzero, hcnt]
      · rw [hcnt]
        exact hup.size.1
    · intro req hreq
      rcases List.mem_append.mp hreq with hreq | hreq
      · rw [hsent₁] at hreq
        exact h.2 req hreq
      · rw [List.mem_singleton.mp hreq]
        rfl

end Start

end Rf4ce.Ota
