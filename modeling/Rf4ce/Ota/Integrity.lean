import Rf4ce.Ota.BootSwap
import Rf4ce.Ota.Intake
import Rf4ce.Refine.Run

/-! A transfer over the link takes in each chunk once and in order. -/
namespace Rf4ce.Ota
open Crash Drv Common Os

/-! ### The server -/

section Server
variable (serverMcu : Mcu) (f : Flash)

/-- Where the server has its upgrade file. -/
def upgradeBase : Nat := otaBaseAddr (mcuBootAddrByte serverMcu f)

def offeredInfo : OtaPreamble :=
  ⟨(readHdrFields f (upgradeBase serverMcu f)).toOtaIdent, (readHdrFields f (upgradeBase serverMcu f)).totalImageSize⟩

def offeredFile : Nat → Byte := fun x => f (upgradeBase serverMcu f + x)

/-- The server has looked at its file for the client. -/
structure Serving (s : Server) : Prop where
  info : s.rcOtaInfo = offeredInfo serverMcu f
  valid : s.otaState = .valid
  size : s.otaHeadersize = (offeredInfo serverMcu f).imageSize
  boot : s.mcuBootAddr = mcuBootAddrByte serverMcu f

def GoodRsp : OtaRsp → Prop
  | .startRsp _ hdr => hdr = offeredInfo serverMcu f
  | .stopRsp _ _ => True
  | .dataRsp _ data => ∀ hdr, ReadsAs data hdr → GoodFrame (offeredInfo serverMcu f) (offeredFile serverMcu f) hdr

end Server

/-- What the client asks for when it starts. -/
def OtaCfg.ident (cfg : OtaCfg) : OtaIdent := ⟨cfg.firmwareVersion, cfg.chipId, cfg.manufacturerCode⟩

section Serve
variable {cfg : OtaCfg} {serverMcu : Mcu} {f : Flash} {s : Server}

theorem upgradeBase_le (serverMcu : Mcu) (f : Flash) : upgradeBase serverMcu f ≤ 262144 := by
  unfold upgradeBase otaBaseAddr flashOtaNewimageAddr
  split_ifs <;> omega

theorem Offers.upgrade (h : Offers f (upgradeBase serverMcu f) cfg.ident) :
    Upgrade cfg (offeredInfo serverMcu f) (offeredFile serverMcu f) := by
  obtain ⟨⟨hver, hchip, hman⟩, hlen, -, -, hmax⟩ := otaBinState_valid h.2
  have hfields := readHdrFields_eq f (upgradeBase serverMcu f)
  unfold offeredInfo
  generalize readHdrFields f (upgradeBase serverMcu f) = hdr at hver hchip hman hlen hmax hfields ⊢
  refine ⟨⟨hman.symm, hchip.symm, hver⟩, ⟨?_, hmax⟩, ?_, ?_, ?_⟩
  · exact Nat.lt_of_le_of_lt (Nat.zero_le _) hlen
  · rw [hfields]
    exact congrArg ofLe (bytes_shift f _ _ _)
  · rw [hfields]
    exact congrArg ofLe (bytes_shift f _ _ _)
  · rw [hfields]
    exact congrArg ofLe (bytes_shift f _ _ _)

theorem otaStartReqCheck_serving (h : Offers f (upgradeBase serverMcu f) cfg.ident) :
    Serving serverMcu f (otaStartReqCheck serverMcu f cfg.ident s) := by
  obtain ⟨hfile, hvalid⟩ := h
  have hinfo : offeredInfo serverMcu f = ⟨(readHdrFields f (upgradeBase serverMcu f)).toOtaIdent,
      (readHdrFields f (upgradeBase serverMcu f)).totalImageSize⟩ := by
    unfold offeredInfo
    rfl
  unfold otaStartReqCheck
  dsimp only
  change HasUpgradeFile f (otaBaseAddr (mcuBootAddrByte serverMcu f)) at hfile
  rw [if_pos hfile]
  unfold upgradeBase at hvalid hinfo
  generalize readHdrFields f (otaBaseAddr (mcuBootAddrByte serverMcu f)) = hdr at hvalid hinfo ⊢
  refine ⟨hinfo.symm, hvalid, ?_, rfl⟩
  rw [hinfo]

/-- The remainder formula is right but for the last chunk of a file of full chunks. -/
theorem otaReadLen_exact {size n : Nat} (hn : 48 * n < size) (hsize : size < otaMaxImageSize) :
    otaReadLen (u32 (n * otaFramesize)) size = if 48 * n + 48 = size then 0 else frameLen size n := by
  have hmax : size < 196608 := hsize
  have hcnt : u32 (n * otaFramesize) = 48 * n := by
    unfold otaFramesize
    rw [u32_eq (by omega)]
    omega
  have hnext : u32 (48 * n + 48) = 48 * n + 48 := u32_eq (by omega)
  unfold otaReadLen frameLen
  rw [hcnt]
  unfold otaFramesize
  rw [hnext]
  split_ifs <;> omega

theorem Serving.chunkAddr (h : Serving serverMcu f s) (hsize : (offeredInfo serverMcu f).imageSize < otaMaxImageSize)
    {n : Nat} (hn : 48 * n < (offeredInfo serverMcu f).imageSize) :
    u32 (otaBaseAddr s.mcuBootAddr + u32 (n * otaFramesize)) = upgradeBase serverMcu f + otaFramesize * n := by
  have hmax : (offeredInfo serverMcu f).imageSize < 196608 := hsize
  have hbase := upgradeBase_le serverMcu f
  have hcnt : u32 (n * 48) = 48 * n := by
    rw [u32_eq (by omega), Nat.mul_comm]
  rw [h.boot]
  change u32 (upgradeBase serverMcu f + u32 (n * 48)) = upgradeBase serverMcu f + 48 * n
  rw [hcnt, u32_eq (by omega)]

theorem otaDataReqHandler_good (h : Serving serverMcu f s) (hsize : (offeredInfo serverMcu f).imageSize < otaMaxImageSize)
    {req : OtaPreamble} (hreq : req.toOtaIdent = (offeredInfo serverMcu f).toOtaIdent) :
    Serving serverMcu f (otaDataReqHandler f req s).1 ∧ GoodRsp serverMcu f (otaDataReqHandler f req s).2 := by
  have hident : req.toOtaIdent = s.rcOtaInfo.toOtaIdent := by
    rw [hreq, h.info]
  unfold otaDataReqHandler
  rw [if_pos ⟨hident, h.valid⟩]
  refine ⟨⟨h.info, h.valid, h.size, h.boot⟩, fun hdr hreads => ?_⟩
  obtain ⟨hhdr, hlen, hbytes⟩ := hreads
  dsimp only at hhdr hlen hbytes
  have hnum : hdr.imageSize = req.imageSize := by
    rw [hhdr]
  constructor
  · rw [hhdr, h.info]
  · intro hn hpay
    rw [hnum] at hn ⊢
    have haddr := h.chunkAddr hsize hn
    have hread := otaReadLen_exact hn hsize
    rw [← h.size] at hread
    generalize hp : flashRead f (u32 (otaBaseAddr s.mcuBootAddr + u32 (req.imageSize * otaFramesize)))
      (otaReadLen (u32 (req.imageSize * otaFramesize)) s.otaHeadersize) = payload at hlen hbytes
    rw [haddr, flashRead_eq] at hp
    subst hp
    rw [bytes_length] at hlen
    split_ifs at hread with hlast
    · rw [hread] at hlen
      exact absurd hlen hpay
    · rw [hread, h.size] at hlen
      refine ⟨hlen, fun j hj => ?_⟩
      rw [hbytes j (by rw [bytes_length, hread, h.size]; exact hj), bytes_getElem]
      unfold offeredFile
      rw [Nat.add_assoc]
      rfl

/-- Any server after the request of a client that starts. -/
theorem otaServerCmd_startReq (h : Offers f (upgradeBase serverMcu f) cfg.ident) (s : Server) (seqNo : Byte) :
    Serving serverMcu f (otaServerCmd serverMcu f s (.startReq seqNo cfg.ident)).1 ∧
      ∀ rsp ∈ (otaServerCmd serverMcu f s (.startReq seqNo cfg.ident)).2, GoodRsp serverMcu f rsp := by
  have hs := @otaStartReqCheck_serving cfg serverMcu f s h
  unfold otaServerCmd otaStartReqHandler
  dsimp only
  generalize otaStartReqCheck serverMcu f cfg.ident s = s' at hs ⊢
  obtain ⟨hinfo, hvalid, hsize, hboot⟩ := hs
  constructor
  · exact ⟨hinfo, hvalid, hsize, hboot⟩
  · intro rsp hrsp
    cases hrsp
    exact hinfo

theorem otaServerCmd_stopReq (serverMcu : Mcu) (f : Flash) (s : Server) (seqNo : Byte) (req : OtaIdent) :
    (∀ rsp ∈ (otaServerCmd serverMcu f s (.stopReq seqNo req)).2, ∃ seqNo' ident, rsp = .stopRsp seqNo' ident) ∧
      (Serving serverMcu f s → Serving serverMcu f (otaServerCmd serverMcu f s (.stopReq seqNo req)).1) := by
  unfold otaServerCmd otaStopReqHandler
  dsimp only
  split_ifs
  · refine ⟨fun rsp hrsp => ?_, fun hs => ⟨hs.info, hs.valid, hs.size, hs.boot⟩⟩
    cases hrsp
    exact ⟨_, _, rfl⟩
  · refine ⟨fun rsp hrsp => ?_, id⟩
    cases hrsp

/-- The server goes on serving a client that asks for its file. -/
theorem otaServerCmd_good (h : Offers f (upgradeBase serverMcu f) cfg.ident) (hs : Serving serverMcu f s) {req : OtaReq}
    (hreq : GoodReq cfg (offeredInfo serverMcu f) req) :
    Serving serverMcu f (otaServerCmd serverMcu f s req).1 ∧
      ∀ rsp ∈ (otaServerCmd serverMcu f s req).2, GoodRsp serverMcu f rsp := by
  cases req with
  | startReq seqNo ident =>
    have hident : ident = cfg.ident := hreq
    rw [hident]
    exact otaServerCmd_startReq h s seqNo
  | stopReq seqNo ident =>
    obtain ⟨hrsps, hserving⟩ := otaServerCmd_stopReq serverMcu f s seqNo ident
    refine ⟨hserving hs, fun rsp hrsp => ?_⟩
    obtain ⟨_, _, rfl⟩ := hrsps rsp hrsp
    trivial
  | dataReq seqNo req =>
    have hup := h.upgrade
    have hs' : Serving serverMcu f { s with seqNumber := seqNo.toNat } := ⟨hs.info, hs.valid, hs.size, hs.boot⟩
    obtain ⟨hserving, hrsp⟩ := otaDataReqHandler_good hs' hup.size.2 hreq
    unfold otaServerCmd
    dsimp only
    split_ifs
    · refine ⟨hserving, fun rsp hmem => ?_⟩
      cases hmem
      exact hrsp
    · refine ⟨hs, fun rsp hmem => ?_⟩
      cases hmem

end Serve

/-! ### The link -/

section Link
variable (cfg : OtaCfg) (serverMcu : Mcu) (f : Flash)

/-- What holds of client, server and messages whatever the link does. -/
inductive NetInv (w : OtaNet) : Prop
  | stuck (h : w.client.client = none)
  | ended (c : Client) (hc : w.client.client = some c) (h : Over c)
  | early (c : Client) (hc : w.client.client = some c) (h : Early cfg c w.trace)
      (hrsps : ∀ rsp ∈ w.rsps, ∃ seqNo ident, rsp = .stopRsp seqNo ident)
  | live (c : Client) (hc : w.client.client = some c)
      (h : Live cfg (offeredInfo serverMcu f) (offeredFile serverMcu f) c w.trace w.log)
      (hserver : Serving serverMcu f w.server) (hrsps : ∀ rsp ∈ w.rsps, GoodRsp serverMcu f rsp)

end Link

section Run
variable {cfg : OtaCfg} {serverMcu : Mcu} {f : Flash} {w : OtaNet}

theorem netStep_server (hoffer : Offers f (upgradeBase serverMcu f) cfg.ident) (h : NetInv cfg serverMcu f w) {req : OtaReq}
    (hreq : req ∈ w.trace.sent) : NetInv cfg serverMcu f (netStep cfg serverMcu f w (.server req)).1 := by
  cases h with
  | stuck h => exact .stuck h
  | ended c hc h => exact .ended c hc h
  | early c hc h hrsps =>
    have hearly := h.2 req hreq
    cases req with
    | startReq seqNo ident =>
      have hident : ident = cfg.ident := hearly
      subst hident
      obtain ⟨hserving, hrsp⟩ := otaServerCmd_startReq hoffer w.server seqNo
      refine .live c hc ⟨.waiting h.1, fun req' hreq' => ?_⟩ hserving fun rsp hmem => ?_
      · have hearly' := h.2 req' hreq'
        cases req' with
        | startReq _ _ => exact hearly'
        | stopReq _ _ => trivial
        | dataReq _ _ => exact absurd hearly' id
      · rcases List.mem_append.mp hmem with hmem | hmem
        · obtain ⟨_, _, rfl⟩ := hrsps rsp hmem
          trivial
        · exact hrsp rsp (Option.mem_toList.mp hmem)
    | stopReq seqNo ident =>
      obtain ⟨hrsp, -⟩ := otaServerCmd_stopReq serverMcu f w.server seqNo ident
      refine .early c hc h fun rsp hmem => ?_
      rcases List.mem_append.mp hmem with hmem | hmem
      · exact hrsps rsp hmem
      · exact hrsp rsp (Option.mem_toList.mp hmem)
    | dataReq seqNo req => exact absurd hearly id
  | live c hc h hserver hrsps =>
    obtain ⟨hserving, hrsp⟩ := otaServerCmd_good hoffer hserver (h.2 req hreq)
    refine .live c hc h hserving fun rsp hmem => ?_
    rcases List.mem_append.mp hmem with hmem | hmem
    · exact hrsps rsp hmem
    · exact hrsp rsp (Option.mem_toList.mp hmem)

variable {now : U32} {k : ClientCall} {c : Client}

theorem netStep_some (hc : w.client.client = some c) : (netStep cfg serverMcu f w (.client now k)).1 =
    { w with
      client := ⟨(clientStep cfg now c k).value w.client.flash, (clientStep cfg now c k).final w.client.flash⟩
      trace := ((clientStep cfg now c k).ops w.client.flash).foldl Trace.note w.trace
      log := logAfter (some c) k w.trace (((clientStep cfg now c k).ops w.client.flash).foldl Trace.note w.trace) w.log } := by
  unfold netStep otaStep
  simp only [hc]

theorem netStep_none (hc : w.client.client = none) :
    (netStep cfg serverMcu f w (.client now k)).1.client.client = none := by
  unfold netStep otaStep
  simp only [hc]

/-- A client that does not return from a call is stuck. -/
theorem NetInv.of_client (h : ∀ c', w.client.client = some c' → NetInv cfg serverMcu f w) : NetInv cfg serverMcu f w := by
  cases hc : w.client.client with
  | none => exact .stuck hc
  | some c' => exact h c' hc

theorem logAfter_kept {m m' : Trace} {log : List Nat} (herases : m'.erases = m.erases) :
    logAfter (some c) k m m' log = log ++ takenChunk c k := if_pos herases

theorem logAfter_erased {m m' : Trace} {log : List Nat} (herases : m'.erases ≠ m.erases) :
    logAfter (some c) k m m' log = [] := if_neg herases

theorem Sound.netInv (hc : w.client.client = some c)
    (h : Sound cfg (offeredInfo serverMcu f) (offeredFile serverMcu f) c w.trace w.log)
    (hserver : Serving serverMcu f w.server) (hrsps : ∀ rsp ∈ w.rsps, GoodRsp serverMcu f rsp) :
    NetInv cfg serverMcu f w := by
  rcases h with hover | hlive
  · exact .ended c hc hover
  · exact .live c hc hlive hserver hrsps

theorem netStep_quiet (h : NetInv cfg serverMcu f w) (hstart : k ≠ .startReq) (hrsp : ∀ hdr, k ≠ .startRsp hdr)
    (hdata : ∀ hdr, k ≠ .dataRsp hdr) : NetInv cfg serverMcu f (netStep cfg serverMcu f w (.client now k)).1 := by
  have hquiet {c : Client} := watched_noted (@clientStep_quiet cfg now c w.trace w.client.flash k hstart hrsp hdata)
  have hchunk {c : Client} : takenChunk c k = [] := by
    cases k with
    | dataRsp hdr => exact absurd rfl (hdata hdr)
    | _ => rfl
  apply NetInv.of_client
  intro c' hc'
  cases h with
  | stuck h =>
    rw [netStep_none h] at hc'
    cases hc'
  | ended c hc h =>
    rw [netStep_some hc] at hc' ⊢
    exact .ended c' hc' (h.kin (hquiet.client c' hc'))
  | early c hc h hrsps =>
    rw [netStep_some hc] at hc' ⊢
    exact .early c' hc' (h.quiet hquiet hc') hrsps
  | live c hc h hserver hrsps =>
    rw [netStep_some hc] at hc' ⊢
    apply Sound.netInv hc' _ hserver hrsps
    rw [logAfter_kept hquiet.erases, hchunk, List.append_nil]
    exact h.quiet hquiet hc'

theorem netStep_startRsp (hoffer : Offers f (upgradeBase serverMcu f) cfg.ident) (h : NetInv cfg serverMcu f w)
    {hdr : OtaPreamble} (henv : NetEnv w (.client now (.startRsp hdr))) (hfresh : StartsFresh w (.client now (.startRsp hdr))) :
    NetInv cfg serverMcu f (netStep cfg serverMcu f w (.client now (.startRsp hdr))).1 := by
  obtain ⟨seqNo, hmem⟩ := henv
  apply NetInv.of_client
  intro c' hc'
  cases h with
  | stuck h =>
    rw [netStep_none h] at hc'
    cases hc'
  | ended c hc h => exact absurd (hfresh c hc).2 h.2
  | early c hc h hrsps =>
    obtain ⟨_, _, heq⟩ := hrsps _ hmem
    cases heq
  | live c hc h hserver hrsps =>
    have hinfo : hdr = offeredInfo serverMcu f := hrsps _ hmem
    rw [netStep_some hc] at hc' ⊢
    obtain ⟨herases, hsound⟩ := watched_noted
      (@otaStartRspHandler_sound cfg now _ _ c w.trace w.log w.client.flash hdr hoffer.upgrade hinfo (hfresh c hc) h)
    apply Sound.netInv hc' _ hserver hrsps
    have hlog := @logAfter_erased (.startRsp hdr) c _ _ w.log herases
    dsimp only [clientStep]
    rw [hlog]
    exact hsound c' hc'

theorem netStep_dataRsp (hoffer : Offers f (upgradeBase serverMcu f) cfg.ident) (h : NetInv cfg serverMcu f w)
    {hdr : OtaDataFrame} (henv : NetEnv w (.client now (.dataRsp hdr))) :
    NetInv cfg serverMcu f (netStep cfg serverMcu f w (.client now (.dataRsp hdr))).1 := by
  obtain ⟨seqNo, data, hmem, hreads⟩ := henv
  apply NetInv.of_client
  intro c' hc'
  cases h with
  | stuck h =>
    rw [netStep_none h] at hc'
    cases hc'
  | ended c hc h =>
    rw [netStep_some hc] at hc' ⊢
    have hover := watched_noted (@otaDataRspHandler_over cfg now hdr c w.trace w.client.flash h)
    exact .ended c' hc' (hover c' hc')
  | early c hc h hrsps =>
    obtain ⟨_, _, heq⟩ := hrsps _ hmem
    cases heq
  | live c hc h hserver hrsps =>
    have hgood : GoodFrame (offeredInfo serverMcu f) (offeredFile serverMcu f) hdr := hrsps _ hmem hdr hreads
    rw [netStep_some hc] at hc' ⊢
    obtain ⟨herases, hsound⟩ := watched_noted
      (@otaDataRspHandler_sound cfg now _ _ hdr c w.trace w.log w.client.flash hoffer.upgrade hgood h)
    apply Sound.netInv hc' _ hserver hrsps
    have hlog := @logAfter_kept (.dataRsp hdr) c _ _ w.log herases
    dsimp only [clientStep]
    rw [hlog]
    exact hsound c' hc'

/-- No legal step breaks the invariant while START_RSP is handled before the first chunk only. -/
theorem netStep_inv (hoffer : Offers f (upgradeBase serverMcu f) cfg.ident) (h : NetInv cfg serverMcu f w) {e : NetEv}
    (henv : NetEnv w e) (hfresh : StartsFresh w e) : NetInv cfg serverMcu f (netStep cfg serverMcu f w e).1 := by
  cases e with
  | server req => exact netStep_server hoffer h henv
  | client now k =>
    cases k with
    | startReq => exact absurd henv id
    | startRsp hdr => exact netStep_startRsp hoffer h henv hfresh
    | dataRsp hdr => exact netStep_dataRsp hoffer h henv
    | stopRsp hdr => exact netStep_quiet h (by simp) (by simp) (by simp)
    | reclaim => exact netStep_quiet h (by simp) (by simp) (by simp)
    | fire i pass ret => exact netStep_quiet h (by simp) (by simp) (by simp)
    | otherOn n tUs => exact netStep_quiet h (by simp) (by simp) (by simp)
    | otherUnon i => exact netStep_quiet h (by simp) (by simp) (by simp)

/-- After `ota_startReq` with no transfer running. -/
theorem start_inv {c₀ : Client} {g : Flash} {s : Server} (hidle : Ended c₀.otaState) (hknown : TryKnown c₀) :
    NetInv cfg serverMcu f (OtaNet.start cfg now ⟨some c₀, g⟩ s) := by
  apply NetInv.of_client
  intro c hc
  obtain ⟨⟨i, c'⟩, hreg, rfl⟩ := Option.map_eq_some_iff.mp hc
  obtain ⟨l, hl, rfl⟩ := evOnTimer_some hreg
  refine .early _ hc ⟨⟨⟨hidle, rfl, rfl, rfl, rfl⟩, rfl, ?_⟩, ?_⟩ ?_
  · have hnoTry := hknown.unonTryPolling
    exact hnoTry.on (by decide) hl
  · intro req hreq
    cases hreq
  · intro rsp hrsp
    cases hrsp

end Run

/-- The chunks below `rcDataCount` are taken in once each and in order since the last erase, and the
globals, `crcValue` with them, and the programmed bytes are those of these chunks. -/
structure Intact (cfg : OtaCfg) (info : OtaPreamble) (file : Nat → Byte) (c : Client) (m : Trace) (log : List Nat) :
    Prop where
  log : log = List.range c.rcDataCount
  fed : ∃ junk t₀, Started info.imageSize t₀ ∧
    Feeds cfg.mcu file info.imageSize junk c.rcDataCount t₀ c.toTransfer m.programmed

/-- Whatever the link does, a running transfer is intact while START_RSP is handled before the first
chunk only. -/
theorem ota_transfer_intact {cfg : OtaCfg} {serverMcu : Mcu} {f g : Flash} {c₀ c : Client} {s : Server} {now : U32}
    {es : List NetEv} (hoffer : Offers f (upgradeBase serverMcu f) cfg.ident) (hidle : Ended c₀.otaState)
    (hknown : TryKnown c₀)
    (hes : Refine.Legal (netStep cfg serverMcu f) (fun w e => NetEnv w e ∧ StartsFresh w e)
      (OtaNet.start cfg now ⟨some c₀, g⟩ s) es)
    (hc : (Refine.run (netStep cfg serverMcu f) (OtaNet.start cfg now ⟨some c₀, g⟩ s) es).1.client.client = some c)
    (hrun : c.otaState = .starting ∨ c.otaState = .dataing) :
    let w := (Refine.run (netStep cfg serverMcu f) (OtaNet.start cfg now ⟨some c₀, g⟩ s) es).1
    Intact cfg (offeredInfo serverMcu f) (offeredFile serverMcu f) c w.trace w.log := by
  have hstart : NetInv cfg serverMcu f (OtaNet.start cfg now ⟨some c₀, g⟩ s) := start_inv hidle hknown
  have hstep : ∀ w e, NetInv cfg serverMcu f w → NetEnv w e ∧ StartsFresh w e →
      NetInv cfg serverMcu f (netStep cfg serverMcu f w e).1 := fun w e h he => netStep_inv hoffer h he.1 he.2
  have hinv := Refine.run_invariant hstep hstart hes
  have hnot : ¬ Ended c.otaState := fun h => hrun.elim h.1 h.2
  cases hinv with
  | stuck h =>
    rw [h] at hc
    cases hc
  | ended c' hc' h =>
    rw [hc'] at hc
    cases hc
    exact absurd h.1 hnot
  | early c' hc' h hrsps =>
    rw [hc'] at hc
    cases hc
    exact absurd h.1.state hnot
  | live c' hc' h hserver hrsps =>
    rw [hc'] at hc
    cases hc
    cases h.1 with
    | waiting h => exact absurd h.state hnot
    | calm h hinfo => exact absurd h.state hnot
    | feeding h => exact ⟨h.log, h.fed⟩

/-- A target that offers a file of 102 bytes. -/
def target : Flash := offering 56 smallImage

def targetIdle : Server := ⟨⟨⟨0, 0, 0⟩, 0⟩, .invalid, 0, 0, 0, 0x100, 0⟩

/-- A remote on the lower bank that has called `ota_startReq` after power-up. -/
def linkStart : OtaNet := .start cfg8258 0 ⟨some .powerUp, twoBanks shortImage []⟩ targetIdle

def newerIdent : OtaIdent := ⟨0x01000107, 0x8258, 0x1141⟩

def chunkZero : OtaDataFrame := ⟨⟨newerIdent, 0⟩, 48, fun j => (bytes target 0 48).getD j 0⟩

/-- The messages of the link up to the first chunk, none of them lost. -/
def untilFirstChunk : List NetEv :=
  [.client 0 (.fire 0 0 0), .server (.startReq 0 cfg8258.ident), .client 0 (.startRsp ⟨newerIdent, 102⟩),
    .server (.dataReq 1 ⟨newerIdent, 0⟩), .client 0 (.dataRsp chunkZero)]

theorem chunkZero_readsAs : ReadsAs (some (⟨newerIdent, 0⟩, bytes target 0 48)) chunkZero := by
  refine ⟨rfl, ?_, fun j hj => ?_⟩
  · rw [bytes_length]
    rfl
  · unfold chunkZero
    dsimp only
    rw [List.getD_eq_getElem _ _ hj]

/-- These messages are legal by any rule that allows what the link does. -/
theorem untilFirstChunk_legal {P : OtaNet → NetEv → Prop} {es : List NetEv} (hfire : ∀ w, P w (.client 0 (.fire 0 0 0)))
    (hserver : ∀ w req, req ∈ w.trace.sent → P w (.server req))
    (hstart : ∀ w hdr, .startRsp 0 hdr ∈ w.rsps →
      (w.client.client.map fun c => (c.rcDataCount, c.otaHeadercnt)) = some (0, 0) → P w (.client 0 (.startRsp hdr)))
    (hdata : ∀ w, .dataRsp 1 (some (⟨newerIdent, 0⟩, bytes target 0 48)) ∈ w.rsps → P w (.client 0 (.dataRsp chunkZero)))
    (hes : Refine.Legal (netStep cfg8258 .mcu8258 target) P
      (Refine.run (netStep cfg8258 .mcu8258 target) linkStart untilFirstChunk).1 es) :
    Refine.Legal (netStep cfg8258 .mcu8258 target) P linkStart (untilFirstChunk ++ es) := by
  refine ⟨hfire _, hserver _ _ ?_, hstart _ _ ?_ ?_, hserver _ _ ?_, hdata _ ?_, hes⟩
  · decide +kernel
  · decide +kernel
  · decide +kernel
  · decide +kernel
  · decide +kernel

theorem ota_transfer_intact_firstChunk :
    let w := (Refine.run (netStep cfg8258 .mcu8258 target) linkStart (untilFirstChunk ++ [])).1
    ∃ c, w.client.client = some c ∧
      Intact cfg8258 (offeredInfo .mcu8258 target) (offeredFile .mcu8258 target) c w.trace w.log := by
  have hstate : ((Refine.run (netStep cfg8258 .mcu8258 target) linkStart (untilFirstChunk ++ [])).1.client.client.map
      fun c => c.otaState) = some .starting := by
    decide +kernel
  obtain ⟨c, hc, hrun⟩ := Option.map_eq_some_iff.mp hstate
  refine ⟨c, hc, ?_⟩
  apply ota_transfer_intact (by decide +kernel) _ _ _ hc (.inl hrun)
  · unfold Ended
    decide
  · rintro i ⟨-, h⟩
    cases h
  · apply untilFirstChunk_legal
    · exact fun w => ⟨trivial, trivial⟩
    · exact fun w req hreq => ⟨hreq, trivial⟩
    · intro w hdr hmem hcount
      refine ⟨⟨0, hmem⟩, fun c hc => ?_⟩
      rw [hc] at hcount
      exact Prod.mk.inj (Option.some.inj hcount)
    · exact fun w hmem => ⟨⟨1, _, hmem, chunkZero_readsAs⟩, trivial⟩
    · trivial

/-- A START_RSP that arrives once more behind the first chunk erases what was taken in, and the
transfer goes on with the second one. -/
theorem ota_transfer_restarted :
    let es := untilFirstChunk ++ [.client 0 (.startRsp ⟨newerIdent, 102⟩)]
    let w := (Refine.run (netStep cfg8258 .mcu8258 target) linkStart es).1
    Offers target (upgradeBase .mcu8258 target) cfg8258.ident ∧
      Refine.Legal (netStep cfg8258 .mcu8258 target) NetEnv linkStart es ∧
      ∃ c, w.client.client = some c ∧ c.otaState = .starting ∧
        ¬ Intact cfg8258 (offeredInfo .mcu8258 target) (offeredFile .mcu8258 target) c w.trace w.log := by
  have hstate : ((Refine.run (netStep cfg8258 .mcu8258 target) linkStart
      (untilFirstChunk ++ [.client 0 (.startRsp ⟨newerIdent, 102⟩)])).1.client.client.map
        fun c => (c.otaState, c.rcDataCount)) = some (.starting, 1) := by
    decide +kernel
  have hlog : (Refine.run (netStep cfg8258 .mcu8258 target) linkStart
      (untilFirstChunk ++ [.client 0 (.startRsp ⟨newerIdent, 102⟩)])).1.log = [] := by
    decide +kernel
  obtain ⟨c, hc, hrun⟩ := Option.map_eq_some_iff.mp hstate
  obtain ⟨hstarting, hcount⟩ := Prod.mk.inj hrun
  refine ⟨by decide +kernel, ?_, c, hc, hstarting, fun h => ?_⟩
  · apply untilFirstChunk_legal
    · exact fun w => trivial
    · exact fun w req hreq => hreq
    · exact fun w hdr hmem _ => ⟨0, hmem⟩
    · exact fun w hmem => ⟨1, _, hmem, chunkZero_readsAs⟩
    · refine ⟨⟨0, ?_⟩, trivial⟩
      decide +kernel
  · have heq := h.log
    rw [hlog, hcount] at heq
    cases heq

end Rf4ce.Ota
