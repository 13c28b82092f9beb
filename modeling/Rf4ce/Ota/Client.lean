import Rf4ce.Ota.Process

/-! The OTA client: the handlers of `tl_specific_data_ota.c` that run on the remote, with
their timers in `evTimer_list`. -/
namespace Rf4ce.Ota
open Crash Drv Common Os

/-- The globals of the client, with `evTimer_list` and `g_tlAppDataSeqNo`. -/
structure Client extends Transfer where
  otaRetryCnt : Nat
  rcDataCount : Nat
  autoPollingCb : Option (Fin 12)
  tryPollingCb : Option (Fin 12)
  evTimerList : TimerList 12 EvCb
  seqNo : Byte

/-- The globals after power-up. -/
def Client.powerUp : Client where
  rcOtaInfo := ⟨⟨0, 0, 0⟩, 0⟩
  otaState := .success
  otaHeadercnt := 0
  otaHeadersize := 0
  mcuBootAddr := 0
  crcValue := 0
  flashOffsetAddr := 0
  otaRetryCnt := 0
  rcDataCount := 0
  autoPollingCb := none
  tryPollingCb := none
  evTimerList := ⟨fun _ => ⟨none, 0, 0, 0, 0⟩, 0⟩
  seqNo := 0

/-- `ev_on_timer`, which does not return when no slot is free. -/
def Client.evOnTimer (cfg : OtaCfg) (now : U32) (cb : EvCb) (tUs : U32) (c : Client) : Option (Fin 12 × Client) :=
  (onTimer cfg.clock1us now cb tUs c.evTimerList).map fun r => (r.1, { c with evTimerList := r.2 })

theorem evOnTimer_some {cfg : OtaCfg} {now tUs : U32} {cb : EvCb} {c c' : Client} {i : Fin 12}
    (hon : c.evOnTimer cfg now cb tUs = some (i, c')) :
    ∃ l, onTimer cfg.clock1us now cb tUs c.evTimerList = some (i, l) ∧ c' = { c with evTimerList := l } := by
  obtain ⟨⟨j, l⟩, hl, heq⟩ := Option.map_eq_some_iff.mp hon
  obtain ⟨rfl, rfl⟩ := Prod.mk.inj heq
  exact ⟨l, hl, rfl⟩

/-- `ev_unon_timer(&autoPollingCb)` -/
def Client.unonAutoPolling (c : Client) : Client :=
  { c with evTimerList := evUnonTimer c.autoPollingCb c.evTimerList, autoPollingCb := none }

/-- `ev_unon_timer(&tryPollingCb)` -/
def Client.unonTryPolling (c : Client) : Client :=
  { c with evTimerList := evUnonTimer c.tryPollingCb c.evTimerList, tryPollingCb := none }

/-- `autoPollingCb = ev_on_timer(cb, 0, tUs)` -/
def Client.onAutoPolling (cfg : OtaCfg) (now : U32) (cb : EvCb) (tUs : U32) (c : Client) : Option Client :=
  (c.evOnTimer cfg now cb tUs).map fun r => { r.2 with autoPollingCb := some r.1 }

/-- `tryPollingCb = ev_on_timer(cb, 0, tUs)` -/
def Client.onTryPolling (cfg : OtaCfg) (now : U32) (cb : EvCb) (tUs : U32) (c : Client) : Option Client :=
  (c.evOnTimer cfg now cb tUs).map fun r => { r.2 with tryPollingCb := some r.1 }

/-- `ev_on_timer(ota_callBackRestore, 0, 500*1000)` -/
def Client.onCallBackRestore (cfg : OtaCfg) (now : U32) (c : Client) : Option Client :=
  (c.evOnTimer cfg now .otaCallBackRestore callbackTimeUs).map Prod.snd

/-- `ota_state = OTA_STA_FAILED`, and the user callback in half a second. -/
def otaFail (cfg : OtaCfg) (now : U32) (c : Client) : OtaM (Option Client) := do
  issue (.setState .failed)
  pure ({ c with otaState := .failed }.onCallBackRestore cfg now)

def otaInitInfo (cfg : OtaCfg) (f : Flash) (c : Client) : Client :=
  { c with
    rcOtaInfo := ⟨⟨0, 0, 0⟩, 0⟩
    crcValue := 0xffffffff
    flashOffsetAddr := 0
    rcDataCount := 0
    mcuBootAddr := mcuBootAddrByte cfg.mcu f }

def otaStartReq (cfg : OtaCfg) (now : U32) (c : Client) : OtaM (Option Client) := do
  let c ← query fun f => otaInitInfo cfg f c
  let c := { c with otaRetryCnt := startreqRetrycnt, otaHeadersize := 0, otaHeadercnt := 0 }
  pure (c.unonAutoPolling.unonTryPolling.onAutoPolling cfg now .otaStartReqCb startreqTimeUs)

/-- The callbacks that repeat a message: `if(ota_RetryCnt--)` sends it, and else the transfer
has failed, with `left` in the counter. -/
def otaRetryCb (cfg : OtaCfg) (now : U32) (msg : OtaReq) (left : Nat) (c : Client) : OtaM (Option (Client × Int)) :=
  if c.otaRetryCnt ≠ 0 then do
    issue (.send msg)
    pure (some ({ c with otaRetryCnt := c.otaRetryCnt - 1, seqNo := c.seqNo + 1 }, 0))
  else do
    let r ← otaFail cfg now { c with otaRetryCnt := left }
    pure (r.map fun c => (c, -1))

/-- The `u8` counter has wrapped when this one fails. -/
def otaStartReqCb (cfg : OtaCfg) (now : U32) (c : Client) : OtaM (Option (Client × Int)) :=
  otaRetryCb cfg now (.startReq c.seqNo ⟨cfg.firmwareVersion, cfg.chipId, cfg.manufacturerCode⟩) 255 c

def otaCallBackRestore (c : Client) : OtaM (Option (Client × Int)) := do
  issue (.otaCb c.otaState)
  pure (some (c, -1))

/-- The request for chunk `rcDataCount`. -/
def Client.dataReq (c : Client) : OtaReq :=
  .dataReq c.seqNo ⟨c.rcOtaInfo.toOtaIdent, c.rcDataCount⟩

def otaDataReqCb (cfg : OtaCfg) (now : U32) (c : Client) : OtaM (Option Client) := do
  let c := c.unonTryPolling
  issue (.send c.dataReq)
  pure ({ c with seqNo := c.seqNo + 1, otaRetryCnt := datareqRetrycnt }.onTryPolling cfg now
    .otaDataTryReqCb datatryTimeUs)

def otaStartRspHandler (cfg : OtaCfg) (now : U32) (hdr : OtaPreamble) (c : Client) : OtaM (Option Client) :=
  if hdr.manufaurerCode = cfg.manufacturerCode ∧ hdr.chipType = cfg.chipId ∧ cfg.firmwareVersion < hdr.fileVer then
    let c := { c.unonAutoPolling with rcOtaInfo := hdr }
    if hdr.imageSize < otaMaxImageSize then do
      let sectorNumUsed := (hdr.imageSize / flashSectorSize + 1) % 65536
      onFlash (flashEraseSectors (otaBaseAddr c.mcuBootAddr) sectorNumUsed)
      issue (.setState .starting)
      otaDataReqCb cfg now { c with otaState := .starting }
    else otaFail cfg now { c with otaRetryCnt := 0 }
  else otaFail cfg now { c with otaRetryCnt := 0 }.unonAutoPolling

def otaDataTryReqCb (cfg : OtaCfg) (now : U32) (c : Client) : OtaM (Option (Client × Int)) :=
  otaRetryCb cfg now c.dataReq 0 c

/-- The loop of `verifyFirmwareCrc`: a piece is read with the length of the piece before it.
`none` when `i` wraps and the loop does not end; the fuel is `binLen + 1`. -/
def verifyLoop (mcu : Mcu) (f : Flash) (otaAddr binLen : Nat) : Nat → Nat → Nat → List Byte → U32 → Option U32
  | 0, _, _, _, _ => none
  | fuel + 1, i, frameLen, binBuf, calcCrc =>
    if i < binLen then
      let binBuf := flashRead f (u32 (otaAddr + i)) frameLen ++ binBuf.drop frameLen
      let binBuf := if i = 0 then binBuf.set mcu.keywordAddrOffset tlImageStartFlag else binBuf
      let frameLen := if u32 (i + otaFramesize) < binLen then otaFramesize else binLen - i
      verifyLoop mcu f otaAddr binLen fuel (u32 (i + frameLen)) frameLen binBuf
        (xcrc32 (binBuf.take frameLen) calcCrc)
    else some calcCrc

/-- `verifyFirmwareCrc`; `none` when it does not return. -/
def verifyFirmwareCrc (mcu : Mcu) (mcuBootAddr : Nat) (f : Flash) : Option Bool :=
  let otaAddr := otaBaseAddr mcuBootAddr
  let binLen := ofLe (flashRead f (otaAddr + firmwareLengthAddr) 4)
  let binCrc := ofLe (flashRead f (u32Sub (otaAddr + binLen) firmwarecrcLength) firmwarecrcLength)
  let binLen := u32Sub binLen firmwarecrcLength
  let frameLen := if otaFramesize < binLen then otaFramesize else 0
  (verifyLoop mcu f otaAddr binLen (binLen + 1) 0 frameLen (List.replicate otaFramesize 0) 0xffffffff).map
    fun calcCrc => calcCrc.toNat = binCrc

/-- Where `ota_dataRspHandler` reads the CRC of the image. -/
def crcBinAddr (t : Transfer) : Nat :=
  u32Sub (u32Sub (otaBaseAddr t.mcuBootAddr + t.rcOtaInfo.imageSize) t.otaHeadersize) 10

/-- `(crcBin==crcValue) && (verifyFirmwareCrc()==true)` -/
def otaVerify (mcu : Mcu) (t : Transfer) (f : Flash) : Option Bool :=
  if ofLe (flashRead f (crcBinAddr t) 4) = t.crcValue.toNat then verifyFirmwareCrc mcu t.mcuBootAddr f
  else some false

/-- `ota_dataRspHandler` after the chunk was counted. -/
def otaDataRspNext (cfg : OtaCfg) (now : U32) (c : Client) : OtaM (Option Client) :=
  if c.rcOtaInfo.imageSize ≤ c.otaHeadercnt then do
    match ← query (otaVerify cfg.mcu c.toTransfer) with
    | none => pure none
    | some true => do
      issue (.setState .success)
      pure ({ c with otaState := .success, otaRetryCnt := datareqRetrycnt }.onAutoPolling cfg now
        .otaStopRspCb stopreqTimeUs)
    | some false => otaFail cfg now c
  else otaDataReqCb cfg now c

/-- `rcDataCount++` -/
def Client.countChunk (c : Client) : Client := { c with rcDataCount := u32 (c.rcDataCount + 1) }

def otaDataRspHandler (cfg : OtaCfg) (now : U32) (hdr : OtaDataFrame) (c : Client) : OtaM (Option Client) :=
  if hdr.toOtaIdent = c.rcOtaInfo.toOtaIdent ∧ hdr.imageSize = c.rcDataCount then
    let c := c.unonAutoPolling.unonTryPolling
    if hdr.payloadSize = 0 then otaFail cfg now c
    else do
      let r ← otaDataProcess cfg.mcu hdr.payloadSize hdr.payload c.toTransfer
      let c := { c with toTransfer := r.2 }
      if r.1 then otaDataRspNext cfg now c.countChunk
      else do
        -- no return here: the chunk is counted and the transfer goes on
        match ← otaFail cfg now c with
        | none => pure none
        | some c => otaDataRspNext cfg now c.countChunk
  else pure (some c)

def otaStopRspCb (cfg : OtaCfg) (now : U32) (c : Client) : OtaM (Option (Client × Int)) :=
  otaRetryCb cfg now (.stopReq c.seqNo c.rcOtaInfo.toOtaIdent) 255 c

def otaStopRspHandler (cfg : OtaCfg) (now : U32) (hdr : OtaIdent) (c : Client) : OtaM (Option Client) :=
  if hdr = c.rcOtaInfo.toOtaIdent then pure (c.unonAutoPolling.onCallBackRestore cfg now)
  else otaFail cfg now c

/-! ### Calls of the client -/

/-- The callback of a timer; those of other modules return `ret` and leave the client alone. -/
def otaTimerCb (cfg : OtaCfg) (now : U32) (ret : Int) (cb : Option EvCb) (c : Client) :
    OtaM (Option (Client × Int)) :=
  match cb with
  | some .otaStartReqCb => otaStartReqCb cfg now c
  | some .otaDataTryReqCb => otaDataTryReqCb cfg now c
  | some .otaStopRspCb => otaStopRspCb cfg now c
  | some .otaCallBackRestore => otaCallBackRestore c
  | _ => pure (some (c, ret))

/-- One round of the loop of `ev_process_timer`: only a live timer is called. -/
def Client.evProcessTimer (cfg : OtaCfg) (now : U32) (i : Fin 12) (pass : U32) (ret : Int) (c : Client) :
    OtaM (Option Client) :=
  if (c.evTimerList.slots i).valid = 1 then do
    let r ← otaTimerCb cfg now ret (c.evTimerList.slots i).cb c
    pure (r.map fun p => { p.1 with evTimerList := timerDone cfg.clock1us pass p.2 i p.1.evTimerList })
  else pure (some c)

/-- What main loop and interrupts can make the client do. A pass of `ev_process_timer` is
`reclaim`, and then `fire` for each timer that is due by the clock value `pass`. -/
inductive ClientCall where
  | startReq
  | startRsp (hdr : OtaPreamble)
  | dataRsp (hdr : OtaDataFrame)
  | stopRsp (hdr : OtaIdent)
  | reclaim
  | fire (i : Fin 12) (pass : U32) (ret : Int)
  | otherOn (k : Nat) (tUs : U32)
  | otherUnon (i : Fin 12)

def clientStep (cfg : OtaCfg) (now : U32) (c : Client) : ClientCall → OtaM (Option Client)
  | .startReq => otaStartReq cfg now c
  | .startRsp hdr => otaStartRspHandler cfg now hdr c
  | .dataRsp hdr => otaDataRspHandler cfg now hdr c
  | .stopRsp hdr => otaStopRspHandler cfg now hdr c
  | .reclaim => pure (some { c with evTimerList := reclaim c.evTimerList })
  | .fire i pass ret => c.evProcessTimer cfg now i pass ret
  | .otherOn k tUs => pure ((c.evOnTimer cfg now (.other k) tUs).map Prod.snd)
  | .otherUnon i => pure (some { c with evTimerList := evUnonTimer (some i) c.evTimerList })

/-- A client and its flash; the client is `none` after a call that does not return. -/
structure OtaWorld where
  client : Option Client
  flash : Flash

def otaStep (cfg : OtaCfg) (w : OtaWorld) (k : U32 × ClientCall) : OtaWorld × List OtaOp :=
  match w.client with
  | none => (w, [])
  | some c =>
    let m := clientStep cfg k.1 c k.2
    (⟨m.value w.flash, m.final w.flash⟩, m.ops w.flash)

end Rf4ce.Ota
