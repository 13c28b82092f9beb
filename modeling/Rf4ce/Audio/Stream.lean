import Rf4ce.Audio.MicRing
import Rf4ce.Audio.Receive
import Rf4ce.Refine.Relay

/-! Voice from the remote's microphone to the dongle: the recorder and the sender of
`audio_rec_proc.c`, the frames of `tl_specific_data_audio.c`, the radio interrupts of `mac_phy.c` and
a link that may lose and repeat what `rf_tx_buf` holds. -/
namespace Rf4ce.Audio
open Crash Refine

def audioErrTimes : Nat := 0x96
def tlCmdAudioStartReq : Byte := 0x01
def tlCmdAudioStopReq : Byte := 0x02
def tlCmdAudioDataNotify : Byte := 0x03

/-- A frame of `TL_SPECIFIC_ID_AUDIO`. -/
def appFrame (seqNo cmdId : Byte) (payload : List Byte) : List Byte :=
  0x32 :: seqNo :: cmdId :: BitVec.ofNat 8 payload.length :: payload

/-- The remote: its packet ring, `audio_status`, `g_tlAppDataSeqNo`, `g_tlAppAudioErr`, what
`g_uapiVar` holds of the start request and the variables of the radio. `rfTxBuf` is none where
`rf_tx_buf` holds something else than audio data. -/
structure Remote where
  ring : MicRing
  opened : Bool
  seqNo : Byte
  err : Byte
  audioCb : Bool
  dataReqTimeoutCb : Bool
  dataReqRetries : Byte
  maxFrameRetries : Nat
  audioTxDataFlag : Bool
  audioTxCurCnt : Byte
  rfTxBuf : Option (List Byte)

/-! ### Sending -/

/-- What `nwk_profileAudioDataSend` returns and what it leaves in the variables of the radio. -/
structure NwkAns where
  ret : Byte
  audioTxDataFlag : Bool
  audioTxCurCnt : Byte
  rfTxBuf : Option (List Byte)

def audioRecTaskStart (r : Remote) : Remote :=
  if r.opened then r else { r with opened := true, ring := { r.ring with audioDelayTimes := 20 } }

def audioRecTaskStop (r : Remote) : Remote := { r with opened := false }

/-- `audioCb` with `AUDIO_IDLE`: `audio_stateSettingCb` clears the flag. -/
def audioIdle (r : Remote) : Remote := if r.audioCb then { r with audioTxDataFlag := false } else r

/-- `tl_audioDataSend`, with the packet where the frame is handed over. -/
def tlAudioDataSend (nwk : List Byte → NwkAns) (data : List Byte) (r : Remote) : Remote × Option (List Byte) :=
  if r.err.toNat ≥ audioErrTimes then (audioIdle (audioRecTaskStop { r with err := 0 }), none)
  else
    let a := nwk (appFrame r.seqNo tlCmdAudioDataNotify data)
    let r := { r with audioTxDataFlag := a.audioTxDataFlag, audioTxCurCnt := a.audioTxCurCnt, rfTxBuf := a.rfTxBuf }
    if a.ret = 0 then ({ r with seqNo := r.seqNo + 1 }, some data) else (r, none)

def tlAudioDataSendCnfHandler (sta : Byte) (r : Remote) : Remote :=
  { r with err := if sta = 0 then 0 else r.err + 1, audioTxDataFlag := false }

/-- What a call of the main loop did: to the ring, the block that it encoded and the packet sent. -/
structure TaskAns where
  events : List (LossyEvent (List Byte))
  blocks : List MicBlock
  sent : Option (List Byte)

def procSending84 (nwk : List Byte → NwkAns) (r : Remote) : Remote × TaskAns :=
  if r.ring.audioDelayTimes > 0 then (r, ⟨[], [], none⟩)
  else if r.audioTxDataFlag then (r, ⟨[], [], none⟩)
  else
    let m := micEncoderDataBuffer r.ring
    let r := { r with ring := m.1, maxFrameRetries := m.2.retries.getD r.maxFrameRetries }
    match poppedEvents m.2.events with
    | [] => (r, ⟨m.2.events, [], none⟩)
    | pkt :: _ =>
      let d := tlAudioDataSend nwk pkt r
      (d.1, ⟨m.2.events, [], d.2⟩)

/-- The samples that `proc_mic_encoder_82x8` takes where it encodes. -/
def micBlock (bufferMic : Nat → BitVec 16) (s : MicRing) (events : List (LossyEvent (List Byte))) :
    List MicBlock :=
  (pushedEvents events).map fun _ => ⟨fun i => bufferMic (s.bufferMicRptr.toNat / 2 + i), tlMicAdpcmUnitSize⟩

/-- The main loop: `audio_recTaskRun` where the recorder is open. -/
def audioRecTaskRun (fir : Bool) (micWptr : BitVec 16) (bufferMic : Nat → BitVec 16) (nwk : List Byte → NwkAns)
    (r : Remote) : Remote × TaskAns :=
  if r.opened then
    let e := procMicEncoder82x8 fir micWptr bufferMic r.ring
    let p := procSending84 nwk { r with ring := e.1 }
    (p.1, ⟨e.2.events ++ p.2.events, micBlock bufferMic r.ring e.2.events, p.2.sent⟩)
  else (r, ⟨[], [], none⟩)

/-- `AudioTimeOutTxCb` starts another transmission of `rf_tx_buf`. -/
def audioTimeOutTxCb (r : Remote) : Remote := { r with audioTxCurCnt := r.audioTxCurCnt + 1 }

/-- `rf_tx_irq_handler`: after the last try the packet failed. -/
def rfTxIrqHandler (r : Remote) : Remote :=
  if r.audioTxDataFlag then
    if r.audioTxCurCnt.toNat ≤ r.maxFrameRetries then r else tlAudioDataSendCnfHandler 0x01 r
  else r

/-- What `rf_rx_irq_handler` takes for the acknowledgement of the packet. -/
def Remote.HearsAck (r : Remote) (len : Nat) (fcf1 : Byte) : Prop :=
  r.audioTxDataFlag = true ∧ len = 5 ∧ fcf1.toNat % 8 = 2

instance (r : Remote) (len : Nat) (fcf1 : Byte) : Decidable (r.HearsAck len fcf1) :=
  inferInstanceAs (Decidable (_ ∧ _ ∧ _))

def rfRxIrqHandler (len : Nat) (fcf1 : Byte) (r : Remote) : Remote :=
  if r.HearsAck len fcf1 then tlAudioDataSendCnfHandler 0 r else r

/-! ### Requests -/

/-- `tl_audioStartReqSend` and `tl_audioStopReqSend`; `msg` is whether a buffer is there. -/
def tlAudioReqSend (msg : Bool) (cmdId : Byte) (payload : List Byte) (r : Remote) : Remote × Option (List Byte) :=
  if msg then ({ r with seqNo := r.seqNo + 1, rfTxBuf := none }, some (appFrame r.seqNo cmdId payload))
  else (r, none)

/-- `app_audioStart`; `timer` is whether `ev_on_timer` finds a timer. -/
def appAudioStart (msg timer : Bool) (startReq : List Byte) (r : Remote) : Remote × Option (List Byte) :=
  if r.dataReqTimeoutCb then (r, none)
  else
    let q := tlAudioReqSend msg tlCmdAudioStartReq startReq { r with audioCb := true }
    ({ q.1 with dataReqRetries := 5, dataReqTimeoutCb := timer }, q.2)

def audioStartReqTimeout (msg : Bool) (startReq : List Byte) (r : Remote) : Remote × Option (List Byte) :=
  let retries := r.dataReqRetries
  let r := { r with dataReqRetries := r.dataReqRetries - 1 }
  if retries = 0 then ({ audioIdle r with dataReqTimeoutCb := false }, none)
  else tlAudioReqSend msg tlCmdAudioStartReq startReq r

def tlAudioStop (msg : Bool) (r : Remote) : Remote × Option (List Byte) :=
  let q := tlAudioReqSend msg tlCmdAudioStopReq [] (audioRecTaskStop r)
  (audioIdle q.1, q.2)

/-- `TL_CMD_AUDIO_START_RSP` of `tl_appAudioCmdHandler`. -/
def tlAudioStartRsp (r : Remote) : Remote := audioRecTaskStart { r with dataReqTimeoutCb := false }

/-! ### The link -/

/-- Remote and dongle, the fate of every packet sent, and how many numbers the remote used since the
one in `audio_seq_no`. -/
structure Stream where
  remote : Remote
  dongle : AudioRx
  relay : Relay (List Byte)
  gap : Nat

/-- What lies around a received frame: in the receive buffer and on the stack. -/
structure Around where
  mem : Nat → Byte
  stack : Nat → Byte

/-- A call of either party; `heard` is whether the dongle receives the request that the call sends,
`air` one transmission of `rf_tx_buf` that it receives, and `otherTx` a frame of another part of the
program, with a number of `g_tlAppDataSeqNo` or without. -/
inductive StreamEv where
  | taskRun (micWptr : BitVec 16) (bufferMic : Nat → BitVec 16) (nwk : List Byte → NwkAns)
  | timeOutTx
  | rfTxIrq
  | rfRxIrq (len : Nat) (fcf1 : Byte)
  | audioStart (msg timer : Bool) (heard : Option Around)
  | startReqTimeout (msg : Bool) (heard : Option Around)
  | startRsp
  | audioStop (msg : Bool) (heard : Option Around)
  | air (around : Around)
  | otherTx (numbered : Bool)
  | micDec
  | decUsb (late : Bool)

structure StreamAns where
  events : List (LossyEvent (List Byte)) := []
  blocks : List MicBlock := []
  sent : List (List Byte) := []
  confirmed : List (List Byte) := []
  taken : List (List Byte) := []
  calls : List AbufCall := []
  written : List Sample := []

/-- The packets that calls add to the ring. -/
def addedPackets : List AbufCall → List (List Byte)
  | [] => []
  | .micAdd p :: ks => bytes p 0 micAdpcmFrameSize :: addedPackets ks
  | _ :: ks => addedPackets ks

/-- The receive buffer with a frame in it. -/
def received (around : Around) (frame : List Byte) : Nat → Byte := storeBytes around.mem 0 frame

/-- `mic_buf` in `tl_audioDataNotify` -/
def micBuf (around : Around) (frame : List Byte) : Nat → Byte :=
  overlay around.stack (fun i => received around frame (sizeofTlAppFrameHdr + i)) 0
    (u32Sub (BitVec.ofNat 8 frame.length : Byte).toNat sizeofTlAppFrameHdr)

def dongleHears (around : Around) (frame : List Byte) (s : AudioRx) : AudioRx :=
  (tlAppDataIndicate (received around frame) (BitVec.ofNat 8 frame.length) around.stack s).value

/-- The packets that get to `abuf_mic_add`. -/
def dongleTakes (around : Around) (frame : List Byte) (s : AudioRx) : List (Nat → Byte) :=
  if s.Notifies (received around frame) then [micBuf around frame] else []

/-- A request goes out, or does not; `start` is whether the dongle takes its number. -/
def Stream.requested (s : Stream) (start : Bool) (q : Remote × Option (List Byte)) (heard : Option Around) :
    Stream × StreamAns :=
  match q.2 with
  | none => ({ s with remote := q.1 }, {})
  | some frame =>
    ({ remote := q.1
       dongle := heard.elim s.dongle fun around => dongleHears around frame s.dongle
       relay := s.relay.leave
       gap := if start && heard.isSome then 1 else s.gap + 1 }, {})

section Model
variable (fir : Bool) (startReq : List Byte)

def streamStep (s : Stream) : StreamEv → Stream × StreamAns
  | .taskRun micWptr bufferMic nwk =>
    let t := audioRecTaskRun fir micWptr bufferMic nwk s.remote
    let s := { s with remote := t.1 }
    let ans : StreamAns := { events := t.2.events, blocks := t.2.blocks, sent := t.2.sent.toList }
    match t.2.sent with
    | none => (s, ans)
    | some pkt => ({ s with relay := s.relay.send pkt, gap := s.gap + 1 }, ans)
  | .timeOutTx => ({ s with remote := audioTimeOutTxCb s.remote }, {})
  | .rfTxIrq => ({ s with remote := rfTxIrqHandler s.remote }, {})
  | .rfRxIrq len fcf1 =>
    let s' := { s with remote := rfRxIrqHandler len fcf1 s.remote }
    if s.remote.HearsAck len fcf1 then
      ({ s' with relay := s.relay.confirm },
        { confirmed := (s.remote.rfTxBuf.map (List.drop sizeofTlAppFrameHdr)).toList })
    else (s', {})
  | .audioStart msg timer heard => s.requested true (appAudioStart msg timer startReq s.remote) heard
  | .startReqTimeout msg heard => s.requested true (audioStartReqTimeout msg startReq s.remote) heard
  | .startRsp => ({ s with remote := tlAudioStartRsp s.remote }, {})
  | .audioStop msg heard => s.requested false (tlAudioStop msg s.remote) heard
  | .air around =>
    match s.remote.rfTxBuf with
    | none => (s, {})
    | some frame =>
      let taken := dongleTakes around frame s.dongle
      ({ s with
          dongle := dongleHears around frame s.dongle
          relay := s.relay.hear
          gap := 1 },
        { taken := taken.map fun p => bytes p 0 micAdpcmFrameSize, calls := taken.map .micAdd })
  | .otherTx numbered =>
    let seqNo := if numbered then s.remote.seqNo + 1 else s.remote.seqNo
    ({ s with
        remote := { s.remote with seqNo, rfTxBuf := none }
        relay := s.relay.leave
        gap := if numbered then s.gap + 1 else s.gap }, {})
  | .micDec => ({ s with dongle := (rxStep s.dongle .micDec).1 }, { calls := [.micDec] })
  | .decUsb late =>
    ({ s with dongle := (rxStep s.dongle (.decUsb late)).1 },
      { calls := [.decUsb late], written := (abufDecUsb late s.dongle.abuf).2 })

end Model

/-- The network layer sends a frame from `rf_tx_buf` and sets the flag, or does nothing. -/
def NwkSends (nwk : List Byte → NwkAns) (r : Remote) : Prop :=
  ∀ frame, if (nwk frame).ret = 0 then (nwk frame).audioTxDataFlag = true ∧ (nwk frame).rfTxBuf = some frame
    else (nwk frame).audioTxDataFlag = r.audioTxDataFlag ∧ (nwk frame).rfTxBuf = r.rfTxBuf

/-- The key handler starts a closed recorder only, timers run out that were set, the answer to a
request comes while the dongle's number is that of the request or of one of its repetitions, an
acknowledgement in the time of a packet is one of the packet, and the rest of the program sends
nothing while the recorder is open. -/
def LinkEnv (s : Stream) : StreamEv → Prop
  | .taskRun _ _ nwk => NwkSends nwk s.remote
  | .rfRxIrq len fcf1 => s.remote.HearsAck len fcf1 → ∀ e ∈ s.relay.cur, e.heard = true
  | .audioStart .. => s.remote.opened = false
  | .startReqTimeout .. => s.remote.dataReqTimeoutCb = true
  | .startRsp => 1 ≤ s.gap ∧ s.gap ≤ 6
  | .otherTx _ => s.remote.opened = false
  | _ => True

/-! ### What the calls do -/

theorem received_header (around : Around) (seqNo cmdId : Byte) (payload : List Byte) :
    received around (appFrame seqNo cmdId payload) 0 = 0x32 ∧ received around (appFrame seqNo cmdId payload) 1 = seqNo ∧
      received around (appFrame seqNo cmdId payload) 2 = cmdId := by
  unfold received storeBytes appFrame
  simp

theorem notifies_data (around : Around) (seqNo : Byte) (payload : List Byte) (s : AudioRx) :
    s.Notifies (received around (appFrame seqNo tlCmdAudioDataNotify payload)) ↔ s.audioSeqNo ≠ seqNo := by
  obtain ⟨happ, hseq, hcmd⟩ := received_header around seqNo tlCmdAudioDataNotify payload
  unfold AudioRx.Notifies
  rw [happ, hseq, hcmd]
  exact ⟨fun h => h.2.2, fun h => ⟨rfl, rfl, h⟩⟩

theorem dongleHears_notifies {around : Around} {frame : List Byte} {s : AudioRx}
    (h : s.Notifies (received around frame)) :
    dongleHears around frame s = ⟨abufMicAdd (micBuf around frame) s.abuf, received around frame 1⟩ := by
  obtain ⟨happ, hcmd, hseq⟩ := h
  have hstart : received around frame 2 ≠ 0x01 := by
    rw [hcmd]
    decide
  unfold dongleHears tlAppDataIndicate tlAppAudioCmdHandler tlAudioDataNotify
  rw [if_pos happ]
  dsimp only
  rw [if_neg hstart, if_pos hcmd, if_pos hseq]
  simp only [Traced.value_bind, Traced.value_pure, abufMicAddTraced_value]
  rfl

theorem dongleHears_quiet {around : Around} {frame : List Byte} {s : AudioRx}
    (h : ¬ s.Notifies (received around frame)) : (dongleHears around frame s).abuf = s.abuf := by
  unfold dongleHears tlAppDataIndicate tlAppAudioCmdHandler
  dsimp only
  split_ifs with happ hstart hcmd hseq
  · rfl
  · exact absurd ⟨happ, hcmd, hseq⟩ h
  · rfl
  · rfl
  · rfl

/-- A frame does nothing to the ring or adds its packet. -/
theorem dongleHears_abuf (around : Around) (frame : List Byte) (s : AudioRx) :
    (dongleHears around frame s).abuf =
      (Refine.run abufStep s.abuf ((dongleTakes around frame s).map .micAdd)).1 := by
  unfold dongleTakes
  by_cases h : s.Notifies (received around frame)
  · rw [if_pos h, dongleHears_notifies h]
    rfl
  · rw [if_neg h, dongleHears_quiet h]
    rfl

/-- After the packet's frame the dongle has its number, whether it was new or not. -/
theorem dongleHears_data (around : Around) (seqNo : Byte) (payload : List Byte) (s : AudioRx) :
    (dongleHears around (appFrame seqNo tlCmdAudioDataNotify payload) s).audioSeqNo = seqNo := by
  obtain ⟨happ, hseq, hcmd⟩ := received_header around seqNo tlCmdAudioDataNotify payload
  by_cases h : s.Notifies (received around (appFrame seqNo tlCmdAudioDataNotify payload))
  · rw [dongleHears_notifies h]
    exact hseq
  · have hsame : s.audioSeqNo = seqNo := not_not.mp fun hne => h ((notifies_data ..).mpr hne)
    unfold dongleHears tlAppDataIndicate tlAppAudioCmdHandler
    dsimp only
    rw [if_pos happ, hseq, hcmd, if_neg (by decide), if_pos (show tlCmdAudioDataNotify = 3 from rfl),
      if_neg (not_not_intro hsame)]
    exact hsame

theorem dongleHears_startReq (around : Around) (seqNo : Byte) (payload : List Byte) (s : AudioRx) :
    dongleHears around (appFrame seqNo tlCmdAudioStartReq payload) s = { s with audioSeqNo := seqNo } := by
  obtain ⟨happ, hseq, hcmd⟩ := received_header around seqNo tlCmdAudioStartReq payload
  unfold dongleHears tlAppDataIndicate tlAppAudioCmdHandler
  dsimp only
  rw [if_pos happ, hseq, hcmd, if_pos (show tlCmdAudioStartReq = 1 from rfl)]
  rfl

theorem dongleHears_stopReq (around : Around) (seqNo : Byte) (payload : List Byte) (s : AudioRx) :
    dongleHears around (appFrame seqNo tlCmdAudioStopReq payload) s = s := by
  obtain ⟨happ, hseq, hcmd⟩ := received_header around seqNo tlCmdAudioStopReq payload
  unfold dongleHears tlAppDataIndicate tlAppAudioCmdHandler
  dsimp only
  rw [if_pos happ, hcmd, if_neg (by decide), if_neg (by decide)]
  rfl

/-- `mic_buf` starts with the packet. -/
theorem micBuf_packet (around : Around) (seqNo cmdId : Byte) {pkt : List Byte} (h : pkt.length = micAdpcmFrameSize) :
    bytes (micBuf around (appFrame seqNo cmdId pkt)) 0 micAdpcmFrameSize = pkt := by
  have hlen : (appFrame seqNo cmdId pkt).length = 88 := by
    simp [appFrame, h, micAdpcmFrameSize]
  have hframe : bytes (received around (appFrame seqNo cmdId pkt)) 0 88 = appFrame seqNo cmdId pkt := by
    rw [← hlen]
    exact bytes_storeBytes ..
  rw [show 88 = 4 + 84 from rfl, bytes_append] at hframe
  have hsplit : appFrame seqNo cmdId pkt = [0x32, seqNo, cmdId, BitVec.ofNat 8 pkt.length] ++ pkt := rfl
  obtain ⟨-, hpkt⟩ := List.append_inj (hframe.trans hsplit) (bytes_length ..)
  have hn : u32Sub (BitVec.ofNat 8 (appFrame seqNo cmdId pkt).length : Byte).toNat sizeofTlAppFrameHdr = 84 := by
    rw [hlen]
    rfl
  unfold micBuf
  rw [hn]
  refine Eq.trans ?_ hpkt
  apply List.ext_getElem
  · simp [micAdpcmFrameSize]
  · intro i hi hi'
    rw [bytes_length] at hi'
    rw [bytes_getElem, bytes_getElem, overlay, if_pos (by omega)]
    rw [show 0 + i - 0 = i by omega]
    rfl

/-! ### The recorder's task -/

theorem micEncoderDataBuffer_popped (s : MicRing) :
    ∀ pkt ∈ poppedEvents (micEncoderDataBuffer s).2.events, pkt.length = micAdpcmFrameSize := by
  unfold micEncoderDataBuffer
  by_cases hempty : s.pktRptr = s.pktWptr
  · simp [hempty, poppedEvents]
  · simp [hempty, poppedEvents, adpcmPacketLen, micAdpcmFrameSize]

/-- What a call of the sender does to the variables of the radio: nothing, or the errors were too
many and the recorder stops, or a packet goes out. -/
inductive Sends (r : Remote) : Remote × TaskAns → Prop
  | idle (ring : MicRing) (retries : Nat) (cnt : Byte) (events : List (LossyEvent (List Byte))) (blocks : List MicBlock) :
    Sends r ({ r with ring, maxFrameRetries := retries, audioTxCurCnt := cnt }, ⟨events, blocks, none⟩)
  | stops (ring : MicRing) (retries : Nat) (events : List (LossyEvent (List Byte))) (blocks : List MicBlock)
    (h : r.audioTxDataFlag = false) :
    Sends r ({ r with ring, maxFrameRetries := retries, opened := false, err := 0 }, ⟨events, blocks, none⟩)
  | sent (ring : MicRing) (retries : Nat) (cnt : Byte) (events : List (LossyEvent (List Byte))) (blocks : List MicBlock)
    (pkt : List Byte) (hopened : r.opened = true) (hflag : r.audioTxDataFlag = false)
    (herr : r.err.toNat < audioErrTimes) (hpkt : pkt.length = micAdpcmFrameSize) (hmem : [pkt].Sublist (poppedEvents events)) :
    Sends r ({ r with
        ring, maxFrameRetries := retries, seqNo := r.seqNo + 1, audioTxDataFlag := true, audioTxCurCnt := cnt,
        rfTxBuf := some (appFrame r.seqNo tlCmdAudioDataNotify pkt) }, ⟨events, blocks, some pkt⟩)

theorem audioIdle_clear {r : Remote} (h : r.audioTxDataFlag = false) : audioIdle r = r := by
  unfold audioIdle
  rw [← h]
  split_ifs <;> rfl

theorem tlAudioDataSend_cases {nwk : List Byte → NwkAns} {r : Remote} (data : List Byte)
    (hflag : r.audioTxDataFlag = false) (hnwk : NwkSends nwk r) :
    tlAudioDataSend nwk data r = ({ r with opened := false, err := 0 }, none) ∨
    (∃ cnt, tlAudioDataSend nwk data r = ({ r with audioTxCurCnt := cnt }, none)) ∨
    r.err.toNat < audioErrTimes ∧ ∃ cnt, tlAudioDataSend nwk data r =
      ({ r with
          seqNo := r.seqNo + 1, audioTxDataFlag := true, audioTxCurCnt := cnt,
          rfTxBuf := some (appFrame r.seqNo tlCmdAudioDataNotify data) }, some data) := by
  unfold tlAudioDataSend
  have hsends := hnwk (appFrame r.seqNo tlCmdAudioDataNotify data)
  by_cases herr : r.err.toNat ≥ audioErrTimes
  · left
    rw [if_pos herr, audioIdle_clear (by exact hflag)]
    rfl
  · right
    rw [if_neg herr]
    dsimp only
    by_cases hret : (nwk (appFrame r.seqNo tlCmdAudioDataNotify data)).ret = 0
    · right
      rw [if_pos hret] at hsends ⊢
      rw [hsends.1, hsends.2]
      exact ⟨Nat.lt_of_not_le herr, _, rfl⟩
    · left
      rw [if_neg hret] at hsends ⊢
      rw [hsends.1, hsends.2]
      exact ⟨_, rfl⟩

theorem procSending84_sends {nwk : List Byte → NwkAns} {r : Remote} (hopened : r.opened = true) (hnwk : NwkSends nwk r) :
    Sends r (procSending84 nwk r) := by
  unfold procSending84
  by_cases hdelay : r.ring.audioDelayTimes > 0
  · rw [if_pos hdelay]
    exact .idle r.ring r.maxFrameRetries r.audioTxCurCnt [] []
  by_cases hflag : r.audioTxDataFlag = true
  · rw [if_neg hdelay, if_pos hflag]
    exact .idle r.ring r.maxFrameRetries r.audioTxCurCnt [] []
  have hlen := micEncoderDataBuffer_popped r.ring
  rw [if_neg hdelay, if_neg hflag]
  rw [Bool.not_eq_true] at hflag
  dsimp only
  generalize micEncoderDataBuffer r.ring = m at hlen ⊢
  cases hpop : poppedEvents m.2.events with
  | nil => exact .idle m.1 _ r.audioTxCurCnt m.2.events []
  | cons pkt rest =>
    have hpkt : pkt.length = micAdpcmFrameSize := by
      apply hlen
      rw [hpop]
      exact List.mem_cons_self
    have hmem : [pkt].Sublist (poppedEvents m.2.events) := by
      rw [hpop]
      exact List.singleton_sublist.mpr List.mem_cons_self
    have hr : NwkSends nwk { r with ring := m.1, maxFrameRetries := m.2.retries.getD r.maxFrameRetries } := hnwk
    dsimp only
    obtain hstop | ⟨cnt, hidle⟩ | ⟨herr, cnt, hsent⟩ := tlAudioDataSend_cases pkt (by exact hflag) hr
    · rw [hstop]
      exact .stops m.1 _ m.2.events [] hflag
    · rw [hidle]
      exact .idle m.1 _ cnt m.2.events []
    · rw [hsent]
      exact .sent m.1 _ cnt m.2.events [] pkt hopened hflag herr hpkt hmem

theorem audioRecTaskRun_sends (fir : Bool) (micWptr : BitVec 16) (bufferMic : Nat → BitVec 16)
    {nwk : List Byte → NwkAns} {r : Remote} (hnwk : NwkSends nwk r) :
    Sends r (audioRecTaskRun fir micWptr bufferMic nwk r) := by
  unfold audioRecTaskRun
  by_cases hopened : r.opened = true
  · rw [if_pos hopened]
    dsimp only
    generalize procMicEncoder82x8 fir micWptr bufferMic r.ring = e
    have hsends : Sends { r with ring := e.1 } (procSending84 nwk { r with ring := e.1 }) :=
      procSending84_sends hopened hnwk
    generalize procSending84 nwk { r with ring := e.1 } = p at hsends
    cases hsends with
    | idle ring retries cnt events blocks => exact .idle ring retries cnt _ _
    | stops ring retries events blocks h => exact .stops ring retries _ _ h
    | sent ring retries cnt events blocks pkt hopened hflag herr hpkt hmem =>
      refine .sent ring retries cnt _ _ pkt hopened hflag herr hpkt ?_
      rw [poppedEvents_append]
      exact hmem.trans (List.sublist_append_right ..)
  · rw [if_neg hopened]
    exact .idle r.ring r.maxFrameRetries r.audioTxCurCnt [] []

/-! ### Requests -/

/-- What a call that may send a request does to the remote. -/
inductive Requests (cmdId : Byte) (payload : List Byte) (r : Remote) : Remote × Option (List Byte) → Prop
  | quiet (opened flag cb timer : Bool) (retries : Byte) (hopened : opened = true → r.opened = true)
    (hflag : flag = true → r.audioTxDataFlag = true) :
    Requests cmdId payload r ({ r with
        opened, audioCb := cb, dataReqTimeoutCb := timer, dataReqRetries := retries, audioTxDataFlag := flag }, none)
  | sent (opened flag cb timer : Bool) (retries : Byte) (hopened : opened = true → r.opened = true)
    (hflag : flag = true → r.audioTxDataFlag = true) :
    Requests cmdId payload r ({ r with
        opened, audioCb := cb, dataReqTimeoutCb := timer, dataReqRetries := retries, audioTxDataFlag := flag,
        seqNo := r.seqNo + 1, rfTxBuf := none }, some (appFrame r.seqNo cmdId payload))

theorem audioIdle_flag (r : Remote) : ∃ flag : Bool, audioIdle r = { r with audioTxDataFlag := flag } ∧
    (flag = true → r.audioTxDataFlag = true) := by
  unfold audioIdle
  split_ifs
  · exact ⟨false, rfl, fun h => absurd h Bool.false_ne_true⟩
  · exact ⟨r.audioTxDataFlag, rfl, id⟩

theorem appAudioStart_requests (msg timer : Bool) (startReq : List Byte) (r : Remote) :
    Requests tlCmdAudioStartReq startReq r (appAudioStart msg timer startReq r) := by
  unfold appAudioStart tlAudioReqSend
  split_ifs
  · exact .quiet r.opened r.audioTxDataFlag r.audioCb r.dataReqTimeoutCb r.dataReqRetries id id
  · exact .sent r.opened r.audioTxDataFlag true timer 5 id id
  · exact .quiet r.opened r.audioTxDataFlag true timer 5 id id

theorem audioStartReqTimeout_requests (msg : Bool) (startReq : List Byte) (r : Remote) :
    Requests tlCmdAudioStartReq startReq r (audioStartReqTimeout msg startReq r) := by
  unfold audioStartReqTimeout tlAudioReqSend
  dsimp only
  split_ifs
  · obtain ⟨flag, hidle, hflag⟩ := audioIdle_flag { r with dataReqRetries := r.dataReqRetries - 1 }
    rw [hidle]
    exact .quiet r.opened flag r.audioCb false _ id hflag
  · exact .sent r.opened r.audioTxDataFlag r.audioCb r.dataReqTimeoutCb _ id id
  · exact .quiet r.opened r.audioTxDataFlag r.audioCb r.dataReqTimeoutCb _ id id

theorem tlAudioStop_requests (msg : Bool) (r : Remote) : Requests tlCmdAudioStopReq [] r (tlAudioStop msg r) := by
  have hclosed (h : false = true) : r.opened = true := absurd h Bool.false_ne_true
  unfold tlAudioStop tlAudioReqSend audioRecTaskStop
  dsimp only
  split_ifs
  · obtain ⟨flag, hidle, hflag⟩ := audioIdle_flag { r with opened := false, seqNo := r.seqNo + 1, rfTxBuf := none }
    rw [hidle]
    exact .sent false flag r.audioCb r.dataReqTimeoutCb r.dataReqRetries hclosed hflag
  · obtain ⟨flag, hidle, hflag⟩ := audioIdle_flag { r with opened := false }
    rw [hidle]
    exact .quiet false flag r.audioCb r.dataReqTimeoutCb r.dataReqRetries hclosed hflag

/-! ### What goes through the ring -/

@[simp] theorem audioIdle_ring (r : Remote) : (audioIdle r).ring = r.ring := by
  unfold audioIdle
  split_ifs <;> rfl

theorem tlAudioDataSend_ring (nwk : List Byte → NwkAns) (data : List Byte) (r : Remote) :
    (tlAudioDataSend nwk data r).1.ring = r.ring := by
  unfold tlAudioDataSend
  dsimp only
  split_ifs
  · rw [audioIdle_ring]
    rfl
  · rfl
  · rfl

/-- The sender takes at most one packet out of the ring. -/
theorem procSending84_ring (nwk : List Byte → NwkAns) (r : Remote) :
    (procSending84 nwk r).1.ring = r.ring ∧ (procSending84 nwk r).2.events = [] ∨
    (procSending84 nwk r).1.ring = (micEncoderDataBuffer r.ring).1 ∧
      (procSending84 nwk r).2.events = (micEncoderDataBuffer r.ring).2.events := by
  unfold procSending84
  by_cases hdelay : r.ring.audioDelayTimes > 0
  · rw [if_pos hdelay]
    exact .inl ⟨rfl, rfl⟩
  by_cases hflag : r.audioTxDataFlag = true
  · rw [if_neg hdelay, if_pos hflag]
    exact .inl ⟨rfl, rfl⟩
  rw [if_neg hdelay, if_neg hflag]
  dsimp only
  right
  cases poppedEvents (micEncoderDataBuffer r.ring).2.events with
  | nil => exact ⟨rfl, rfl⟩
  | cons pkt rest => exact ⟨tlAudioDataSend_ring .., rfl⟩

theorem audioRecTaskRun_rep (fir : Bool) (micWptr : BitVec 16) (bufferMic : Nat → BitVec 16)
    (nwk : List Byte → NwkAns) {r : Remote} {g : Lossy (List Byte)} (h : MicRep r.ring g) :
    ∃ g', Lossy.Steps 32 g (audioRecTaskRun fir micWptr bufferMic nwk r).2.events g' ∧
      MicRep (audioRecTaskRun fir micWptr bufferMic nwk r).1.ring g' := by
  unfold audioRecTaskRun
  by_cases hopened : r.opened = true
  · rw [if_pos hopened]
    dsimp only
    obtain ⟨g₁, hpush, h₁⟩ := procMicEncoder82x8_rep fir micWptr bufferMic h
    generalize procMicEncoder82x8 fir micWptr bufferMic r.ring = e at hpush h₁ ⊢
    obtain ⟨hring, hev⟩ | ⟨hring, hev⟩ := procSending84_ring nwk { r with ring := e.1 }
    · rw [hring, hev, List.append_nil]
      exact ⟨g₁, hpush, h₁⟩
    · obtain ⟨g₂, hpop, h₂⟩ := micEncoderDataBuffer_rep h₁
      rw [hring, hev]
      exact ⟨g₂, hpush.append hpop, h₂⟩
  · rw [if_neg hopened]
    exact ⟨g, .nil g, h⟩

theorem Requests.requested {cmdId : Byte} {payload : List Byte} {s : Stream} {q : Remote × Option (List Byte)}
    (h : Requests cmdId payload s.remote q) (start : Bool) (heard : Option Around) :
    (s.requested start q heard).1.remote.ring = s.remote.ring ∧ (s.requested start q heard).2 = {} := by
  cases h <;> exact ⟨rfl, rfl⟩

section Run
variable (fir : Bool) (startReq : List Byte)

/-- Only the recorder's task moves packets. -/
theorem streamStep_ring (s : Stream) (e : StreamEv) :
    (∃ micWptr bufferMic nwk, e = .taskRun micWptr bufferMic nwk) ∨
    (streamStep fir startReq s e).2.events = [] ∧ (streamStep fir startReq s e).2.blocks = [] ∧
      (streamStep fir startReq s e).2.sent = [] ∧
      ∃ delay, (streamStep fir startReq s e).1.remote.ring = { s.remote.ring with audioDelayTimes := delay } := by
  cases e with
  | taskRun micWptr bufferMic nwk => exact .inl ⟨micWptr, bufferMic, nwk, rfl⟩
  | timeOutTx => exact .inr ⟨rfl, rfl, rfl, _, rfl⟩
  | rfTxIrq =>
    right
    simp only [streamStep, rfTxIrqHandler, tlAudioDataSendCnfHandler]
    split_ifs <;> exact ⟨trivial, trivial, trivial, _, rfl⟩
  | rfRxIrq len fcf1 =>
    right
    simp only [streamStep, rfRxIrqHandler, tlAudioDataSendCnfHandler]
    split_ifs <;> exact ⟨rfl, rfl, rfl, _, rfl⟩
  | audioStart msg timer heard =>
    obtain ⟨hring, hans⟩ := (appAudioStart_requests msg timer startReq s.remote).requested true heard
    right
    simp only [streamStep, hring, hans]
    exact ⟨trivial, trivial, trivial, _, rfl⟩
  | startReqTimeout msg heard =>
    obtain ⟨hring, hans⟩ := (audioStartReqTimeout_requests msg startReq s.remote).requested true heard
    right
    simp only [streamStep, hring, hans]
    exact ⟨trivial, trivial, trivial, _, rfl⟩
  | startRsp =>
    right
    simp only [streamStep, tlAudioStartRsp, audioRecTaskStart]
    split_ifs <;> exact ⟨trivial, trivial, trivial, _, rfl⟩
  | audioStop msg heard =>
    obtain ⟨hring, hans⟩ := (tlAudioStop_requests msg s.remote).requested false heard
    right
    simp only [streamStep, hring, hans]
    exact ⟨trivial, trivial, trivial, _, rfl⟩
  | air around =>
    right
    simp only [streamStep]
    cases s.remote.rfTxBuf <;> exact ⟨rfl, rfl, rfl, _, rfl⟩
  | otherTx numbered => exact .inr ⟨rfl, rfl, rfl, _, rfl⟩
  | micDec => exact .inr ⟨rfl, rfl, rfl, _, rfl⟩
  | decUsb late => exact .inr ⟨rfl, rfl, rfl, _, rfl⟩

theorem taskRun_step (s : Stream) (micWptr : BitVec 16) (bufferMic : Nat → BitVec 16) (nwk : List Byte → NwkAns) :
    let t := audioRecTaskRun fir micWptr bufferMic nwk s.remote
    let r := streamStep fir startReq s (.taskRun micWptr bufferMic nwk)
    r.1.remote = t.1 ∧ r.2.events = t.2.events ∧ r.2.blocks = t.2.blocks ∧ r.2.sent = t.2.sent.toList := by
  simp only [streamStep]
  cases (audioRecTaskRun fir micWptr bufferMic nwk s.remote).2.sent <;> simp

theorem streamStep_rep (s : Stream) (e : StreamEv) (g : Lossy (List Byte)) (h : MicRep s.remote.ring g) :
    ∃ g', Lossy.Steps 32 g (streamStep fir startReq s e).2.events g' ∧
      MicRep (streamStep fir startReq s e).1.remote.ring g' := by
  obtain ⟨micWptr, bufferMic, nwk, rfl⟩ | ⟨hev, -, -, delay, hring⟩ := streamStep_ring fir startReq s e
  · obtain ⟨hremote, hev, -, -⟩ := taskRun_step fir startReq s micWptr bufferMic nwk
    rw [hremote, hev]
    exact audioRecTaskRun_rep fir micWptr bufferMic nwk h
  · rw [hev, hring]
    exact ⟨g, .nil g, h⟩

end Run

/-! ### Numbers -/

/-- The invariant of a run: what `rf_tx_buf` holds is the current packet under the last number, a
packet that the dongle did not hear has a number that the dongle does not hold, and while the recorder
is open the dongle's number is behind by no more than the requests and the errors counted. -/
structure Stream.Inv (s : Stream) : Prop where
  sound : s.relay.Sound
  number : s.dongle.audioSeqNo + BitVec.ofNat 8 s.gap = s.remote.seqNo
  buffer : s.remote.rfTxBuf = s.relay.cur.map fun e => appFrame (s.remote.seqNo - 1) tlCmdAudioDataNotify e.msg
  length : ∀ e ∈ s.relay.cur, e.msg.length = micAdpcmFrameSize
  heard : ∀ e ∈ s.relay.cur, e.heard = true → s.gap = 1
  unheard : ∀ e ∈ s.relay.cur, e.heard = false → 2 ≤ s.gap ∧ s.gap ≤ 256
  unconfirmed : s.remote.audioTxDataFlag = true → ∀ e ∈ s.relay.cur, e.confirmed = false
  errors : s.remote.err.toNat ≤ audioErrTimes ∧
    (s.remote.audioTxDataFlag = true → s.remote.err.toNat < audioErrTimes)
  armed : s.remote.opened = true → s.remote.dataReqTimeoutCb = false
  behind : s.remote.opened = true → 1 ≤ s.gap ∧ s.gap ≤ 6 + s.remote.err.toNat + s.remote.audioTxDataFlag.toNat
  first : s.remote.opened = true → s.relay.cur = none → s.gap ≤ 6

/-- The lists of a run go on as the answers say. -/
structure Stream.Told (s s' : Stream) (a : StreamAns) : Prop where
  sent : s'.relay.sent = s.relay.sent ++ a.sent
  taken : s'.relay.taken = s.relay.taken ++ a.taken
  acked : s'.relay.acked = s.relay.acked ++ a.confirmed

theorem Stream.Told.quiet {s s' : Stream} {a : StreamAns} (h : s'.relay.all = s.relay.all) (ha : a.sent = [])
    (ht : a.taken = []) (hc : a.confirmed = []) : s.Told s' a := by
  constructor
  · simp [Relay.sent, h, ha]
  · simp [Relay.taken, h, ht]
  · simp [Relay.acked, h, hc]

theorem Requests.inv {cmdId : Byte} {payload : List Byte} {s : Stream} {q : Remote × Option (List Byte)}
    (hq : Requests cmdId payload s.remote q) (h : s.Inv) (hclosed : q.1.opened = false) (start : Bool)
    (heard : Option Around)
    (hnum : ∀ around ∈ heard, (dongleHears around (appFrame s.remote.seqNo cmdId payload) s.dongle).audioSeqNo =
      if start then s.remote.seqNo else s.dongle.audioSeqNo) :
    (s.requested start q heard).1.Inv ∧ s.Told (s.requested start q heard).1 (s.requested start q heard).2 := by
  cases hq with
  | quiet opened flag cb timer retries hopened hflag =>
    have hnot (hopen : opened = true) : False := Bool.false_ne_true (hclosed.symm.trans hopen)
    constructor
    · exact {
        sound := h.sound
        number := h.number
        buffer := h.buffer
        length := h.length
        heard := h.heard
        unheard := h.unheard
        unconfirmed := fun hf => h.unconfirmed (hflag hf)
        errors := ⟨h.errors.1, fun hf => h.errors.2 (hflag hf)⟩
        armed := fun hopen => (hnot hopen).elim
        behind := fun hopen => (hnot hopen).elim
        first := fun hopen => (hnot hopen).elim }
    · exact .quiet rfl rfl rfl rfl
  | sent opened flag cb timer retries hopened hflag =>
    have hnot (hopen : opened = true) : False := Bool.false_ne_true (hclosed.symm.trans hopen)
    have hnone {P : Fate (List Byte) → Prop} : ∀ e ∈ (none : Option (Fate (List Byte))), P e := by simp
    have hnext : s.dongle.audioSeqNo + BitVec.ofNat 8 (s.gap + 1) = s.remote.seqNo + 1 := by
      rw [BitVec.ofNat_add, ← BitVec.add_assoc, h.number]
      rfl
    constructor
    · refine {
        sound := h.sound.leave
        number := ?_
        buffer := rfl
        length := hnone
        heard := hnone
        unheard := hnone
        unconfirmed := fun _ => hnone
        errors := ⟨h.errors.1, fun hf => h.errors.2 (hflag hf)⟩
        armed := fun hopen => (hnot hopen).elim
        behind := fun hopen => (hnot hopen).elim
        first := fun hopen => (hnot hopen).elim }
      unfold Stream.requested
      dsimp only
      cases heard with
      | none =>
        rw [Option.isSome_none, Bool.and_false, if_neg Bool.false_ne_true]
        exact hnext
      | some around =>
        have hdongle := hnum around rfl
        rw [Option.isSome_some, Bool.and_true, Option.elim_some, hdongle]
        cases start with
        | true => rfl
        | false => exact hnext
    · exact .quiet (Relay.leave_all _) rfl rfl rfl

/-- Taking the remote from `r` to `r'` where its task told `a`. -/
def Stream.tasked (s : Stream) (t : Remote × TaskAns) : Stream :=
  match t.2.sent with
  | none => { s with remote := t.1 }
  | some pkt => { s with remote := t.1, relay := s.relay.send pkt, gap := s.gap + 1 }

theorem Sends.inv {s : Stream} {t : Remote × TaskAns} (ht : Sends s.remote t) (h : s.Inv) : (s.tasked t).Inv := by
  cases ht with
  | idle ring retries cnt events blocks =>
    exact ⟨h.sound, h.number, h.buffer, h.length, h.heard, h.unheard, h.unconfirmed, h.errors, h.armed, h.behind, h.first⟩
  | stops ring retries events blocks hflag =>
    have hnot {P : Prop} (hopen : false = true) : P := absurd hopen Bool.false_ne_true
    refine ⟨h.sound, h.number, h.buffer, h.length, h.heard, h.unheard, h.unconfirmed, ?_, hnot, hnot, hnot⟩
    exact ⟨Nat.zero_le _, fun _ => show (0 : Byte).toNat < audioErrTimes by decide⟩
  | sent ring retries cnt events blocks pkt hopened hflag herr hpkt hmem =>
    obtain ⟨hone, hgap⟩ := h.behind hopened
    rw [hflag] at hgap
    change s.gap ≤ 6 + s.remote.err.toNat + 0 at hgap
    unfold audioErrTimes at herr
    exact {
      sound := h.sound.send pkt
      number := by
        change _ + BitVec.ofNat 8 (s.gap + 1) = s.remote.seqNo + 1
        rw [BitVec.ofNat_add, ← BitVec.add_assoc]
        exact congrArg (· + 1) h.number
      buffer := by
        change some _ = some (appFrame (s.remote.seqNo + 1 - 1) _ pkt)
        rw [BitVec.add_sub_cancel]
      length := by
        intro e he
        obtain rfl := Option.some.inj he
        exact hpkt
      heard := by
        intro e he hh
        obtain rfl := Option.some.inj he
        exact absurd hh Bool.false_ne_true
      unheard := fun _ _ _ => ⟨Nat.succ_le_succ hone, by change s.gap + 1 ≤ 256; omega⟩
      unconfirmed := by
        intro _ e he
        obtain rfl := Option.some.inj he
        rfl
      errors := ⟨Nat.le_of_lt herr, fun _ => herr⟩
      armed := h.armed
      behind := fun _ => ⟨Nat.succ_pos _, by change s.gap + 1 ≤ 6 + s.remote.err.toNat + 1; omega⟩
      first := fun _ hcur => absurd hcur (Option.some_ne_none _) }

/-- A confirmation, after which the dongle is behind by the new count of errors. -/
theorem Stream.Inv.confirmed {s : Stream} {sta : Byte} (h : s.Inv) (hflag : s.remote.audioTxDataFlag = true)
    (hheard : sta = 0 → ∀ e ∈ s.relay.cur, e.heard = true) :
    ({ s with remote := tlAudioDataSendCnfHandler sta s.remote } : Stream).Inv := by
  have herr := h.errors.2 hflag
  have hnot {P : Prop} (hf : false = true) : P := absurd hf Bool.false_ne_true
  unfold audioErrTimes at herr
  have hcount : (if sta = 0 then 0 else s.remote.err + 1).toNat = if sta = 0 then 0 else s.remote.err.toNat + 1 := by
    split_ifs
    · rfl
    · rw [BitVec.toNat_add]
      exact Nat.mod_eq_of_lt (by change s.remote.err.toNat + 1 < 256; omega)
  refine ⟨h.sound, h.number, h.buffer, h.length, h.heard, h.unheard, hnot, ⟨?_, hnot⟩, h.armed, ?_, h.first⟩
  · change (if sta = 0 then 0 else s.remote.err + 1).toNat ≤ 150
    rw [hcount]
    split_ifs <;> omega
  · intro hopen
    obtain ⟨hone, hgap⟩ := h.behind hopen
    refine ⟨hone, ?_⟩
    change s.gap ≤ 6 + (if sta = 0 then 0 else s.remote.err + 1).toNat + 0
    rw [hflag] at hgap
    change s.gap ≤ 6 + s.remote.err.toNat + 1 at hgap
    rw [hcount]
    by_cases hsta : sta = 0
    · rw [if_pos hsta]
      cases hcur : s.relay.cur with
      | none =>
        have := h.first hopen hcur
        omega
      | some e =>
        have := h.heard e hcur (hheard hsta e hcur)
        omega
    · rw [if_neg hsta]
      omega

/-- The dongle holds the number of the current packet if and only if it heard the packet. -/
theorem Stream.Inv.fresh_iff {s : Stream} (h : s.Inv) {e : Fate (List Byte)} (he : s.relay.cur = some e) :
    s.dongle.audioSeqNo ≠ s.remote.seqNo - 1 ↔ e.heard = false := by
  have hnum := congrArg BitVec.toNat h.number
  have hprev : (s.remote.seqNo - 1).toNat = (s.remote.seqNo.toNat + 255) % 256 := by
    rw [BitVec.toNat_sub, Nat.add_comm]
    rfl
  have hlt := s.dongle.audioSeqNo.isLt
  rw [BitVec.toNat_add, BitVec.toNat_ofNat] at hnum
  rw [ne_eq, ← BitVec.toNat_inj, hprev, ← hnum]
  cases hheard : e.heard with
  | false =>
    obtain ⟨htwo, hgap⟩ := h.unheard e he hheard
    rw [eq_self, iff_true]
    omega
  | true =>
    have hone := h.heard e he hheard
    rw [hone]
    simp only [Bool.true_eq_false, iff_false, not_not]
    omega

/-- The packet is taken when the dongle hears it first. -/
theorem Stream.Inv.takes {s : Stream} (h : s.Inv) (around : Around) {e : Fate (List Byte)}
    (he : s.relay.cur = some e) :
    (dongleTakes around (appFrame (s.remote.seqNo - 1) tlCmdAudioDataNotify e.msg) s.dongle).map
      (fun p => bytes p 0 micAdpcmFrameSize) = s.relay.unheard := by
  have hfresh := (notifies_data around (s.remote.seqNo - 1) e.msg s.dongle).trans (h.fresh_iff he)
  unfold dongleTakes Relay.unheard
  rw [he]
  cases hheard : e.heard with
  | false =>
    rw [if_pos (hfresh.mpr hheard)]
    simp [hheard, micBuf_packet around _ _ (h.length e he)]
  | true =>
    rw [if_neg fun hn => Bool.false_ne_true ((hfresh.mp hn).symm.trans hheard)]
    simp [hheard]

theorem Stream.Inv.air {s : Stream} (h : s.Inv) (around : Around) {e : Fate (List Byte)} (he : s.relay.cur = some e) :
    ({ s with
        dongle := dongleHears around (appFrame (s.remote.seqNo - 1) tlCmdAudioDataNotify e.msg) s.dongle
        relay := s.relay.hear
        gap := 1 } : Stream).Inv := by
  have hcur : s.relay.hear.cur = some { e with heard := true } := by
    unfold Relay.hear
    rw [he]
    rfl
  have hall {P : Fate (List Byte) → Prop} (hP : P { e with heard := true }) : ∀ e' ∈ s.relay.hear.cur, P e' := by
    intro e' he'
    rw [hcur] at he'
    obtain rfl := Option.some.inj he'
    exact hP
  exact {
    sound := h.sound.hear
    number := by
      dsimp only
      rw [dongleHears_data]
      exact BitVec.sub_add_cancel ..
    buffer := by
      dsimp only
      rw [h.buffer, hcur, he]
      rfl
    length := hall (h.length e he)
    heard := fun _ _ _ => rfl
    unheard := hall fun hh => absurd hh.symm Bool.false_ne_true
    unconfirmed := fun hf => hall (h.unconfirmed hf e he)
    errors := h.errors
    armed := h.armed
    behind := fun hopen => ⟨Nat.le_refl _, by dsimp only; omega⟩
    first := fun _ hnone => absurd (hcur.symm.trans hnone) (Option.some_ne_none _) }

theorem Stream.Inv.acked {s : Stream} (h : s.Inv) (hflag : s.remote.audioTxDataFlag = false)
    (hheard : ∀ e ∈ s.relay.cur, e.heard = true) : ({ s with relay := s.relay.confirm } : Stream).Inv := by
  have hall {P : Fate (List Byte) → Prop} (hP : ∀ e ∈ s.relay.cur, P { e with confirmed := true }) :
      ∀ e' ∈ s.relay.confirm.cur, P e' := by
    intro e' he'
    obtain ⟨e, he, rfl⟩ := Option.map_eq_some_iff.mp he'
    exact hP e he
  exact {
    sound := h.sound.confirm hheard
    number := h.number
    buffer := by
      rw [h.buffer]
      cases hcur : s.relay.cur <;> simp [Relay.confirm, hcur]
    length := hall h.length
    heard := hall h.heard
    unheard := hall h.unheard
    unconfirmed := fun hf => absurd (hflag.symm.trans hf) Bool.false_ne_true
    errors := h.errors
    armed := h.armed
    behind := h.behind
    first := by
      intro hopen hnone
      exact h.first hopen (Option.map_eq_none_iff.mp hnone) }

/-- What the acknowledgement confirms is the current packet. -/
theorem Stream.Inv.confirms {s : Stream} (h : s.Inv) (hflag : s.remote.audioTxDataFlag = true) :
    (s.remote.rfTxBuf.map (List.drop sizeofTlAppFrameHdr)).toList = s.relay.unconfirmed := by
  rw [h.buffer]
  unfold Relay.unconfirmed
  cases hcur : s.relay.cur with
  | none => rfl
  | some e =>
    have hnot := h.unconfirmed hflag e hcur
    simp [hnot, appFrame, sizeofTlAppFrameHdr]

section Run
variable (fir : Bool) (startReq : List Byte)

theorem streamStep_inv {s : Stream} {e : StreamEv} (h : s.Inv) (henv : LinkEnv s e) :
    (streamStep fir startReq s e).1.Inv ∧
      s.Told (streamStep fir startReq s e).1 (streamStep fir startReq s e).2 := by
  have hclosed {q : Remote × Option (List Byte)} {cmdId : Byte} {payload : List Byte}
      (hq : Requests cmdId payload s.remote q) (hs : s.remote.opened = false) : q.1.opened = false := by
    rw [← Bool.not_eq_true]
    rw [← Bool.not_eq_true] at hs
    cases hq with
    | quiet opened flag cb timer retries hopened => exact fun ho => hs (hopened ho)
    | sent opened flag cb timer retries hopened => exact fun ho => hs (hopened ho)
  cases e with
  | taskRun micWptr bufferMic nwk =>
    have hsends := audioRecTaskRun_sends fir micWptr bufferMic henv
    have hinv := hsends.inv h
    unfold Stream.tasked at hinv
    simp only [streamStep]
    generalize audioRecTaskRun fir micWptr bufferMic nwk s.remote = t at hinv ⊢
    cases hsent : t.2.sent with
    | none =>
      rw [hsent] at hinv
      exact ⟨hinv, .quiet rfl rfl rfl rfl⟩
    | some pkt =>
      rw [hsent] at hinv
      exact ⟨hinv, ⟨by simp, by simp, by simp⟩⟩
  | timeOutTx =>
    constructor
    · exact ⟨h.sound, h.number, h.buffer, h.length, h.heard, h.unheard, h.unconfirmed, h.errors, h.armed, h.behind, h.first⟩
    · exact .quiet rfl rfl rfl rfl
  | rfTxIrq =>
    simp only [streamStep, rfTxIrqHandler]
    split_ifs with hflag
    · exact ⟨h, .quiet rfl rfl rfl rfl⟩
    · exact ⟨h.confirmed hflag fun hsta => absurd hsta (by decide), .quiet rfl rfl rfl rfl⟩
    · exact ⟨h, .quiet rfl rfl rfl rfl⟩
  | rfRxIrq len fcf1 =>
    simp only [streamStep, rfRxIrqHandler]
    by_cases hack : s.remote.HearsAck len fcf1
    · have hheard := henv hack
      have hcnf := @Stream.Inv.confirmed s 0 h hack.1 fun _ => hheard
      rw [if_pos hack, if_pos hack]
      constructor
      · exact hcnf.acked rfl hheard
      · exact ⟨by simp, by simp, by simp [h.confirms hack.1]⟩
    · rw [if_neg hack, if_neg hack]
      exact ⟨h, .quiet rfl rfl rfl rfl⟩
  | audioStart msg timer heard =>
    have hq := appAudioStart_requests msg timer startReq s.remote
    refine hq.inv h (hclosed hq henv) true heard fun around _ => ?_
    rw [dongleHears_startReq]
    rfl
  | startReqTimeout msg heard =>
    have hq := audioStartReqTimeout_requests msg startReq s.remote
    have hshut : s.remote.opened = false := by
      rw [← Bool.not_eq_true]
      exact fun hopen => Bool.false_ne_true ((h.armed hopen).symm.trans henv)
    refine hq.inv h (hclosed hq hshut) true heard fun around _ => ?_
    rw [dongleHears_startReq]
    rfl
  | startRsp =>
    simp only [streamStep, tlAudioStartRsp, audioRecTaskStart]
    split_ifs with hopen
    · constructor
      · exact ⟨h.sound, h.number, h.buffer, h.length, h.heard, h.unheard, h.unconfirmed, h.errors, fun _ => rfl,
          h.behind, h.first⟩
      · exact .quiet rfl rfl rfl rfl
    · obtain ⟨hone, hsix⟩ := henv
      constructor
      · refine ⟨h.sound, h.number, h.buffer, h.length, h.heard, h.unheard, h.unconfirmed, h.errors, fun _ => rfl, ?_,
          fun _ _ => hsix⟩
        exact fun _ => ⟨hone, by dsimp only; omega⟩
      · exact .quiet rfl rfl rfl rfl
  | audioStop msg heard =>
    have hshut : (tlAudioStop msg s.remote).1.opened = false := by
      obtain ⟨flag, hidle, -⟩ := audioIdle_flag (tlAudioReqSend msg tlCmdAudioStopReq [] (audioRecTaskStop s.remote)).1
      unfold tlAudioStop
      dsimp only
      rw [hidle]
      unfold tlAudioReqSend
      split_ifs <;> rfl
    refine (tlAudioStop_requests msg s.remote).inv h hshut false heard fun around _ => ?_
    rw [dongleHears_stopReq]
    rfl
  | air around =>
    have hbuf := h.buffer
    simp only [streamStep]
    cases hcur : s.relay.cur with
    | none =>
      rw [hcur] at hbuf
      rw [hbuf]
      exact ⟨h, .quiet rfl rfl rfl rfl⟩
    | some e =>
      rw [hcur] at hbuf
      rw [hbuf]
      have htaken := congrArg (s.relay.taken ++ ·) (h.takes around hcur)
      exact ⟨h.air around hcur, ⟨by simp, (Relay.hear_taken _).trans htaken.symm, by simp⟩⟩
  | otherTx numbered =>
    have hnot {P : Prop} (hopen : s.remote.opened = true) : P := absurd (Eq.trans (Eq.symm henv) hopen) Bool.false_ne_true
    have hnone {P : Fate (List Byte) → Prop} : ∀ e ∈ (none : Option (Fate (List Byte))), P e := by simp
    constructor
    · refine ⟨h.sound.leave, ?_, rfl, hnone, hnone, hnone, fun _ => hnone, h.errors, hnot, hnot, hnot⟩
      simp only [streamStep]
      split_ifs
      · rw [BitVec.ofNat_add, ← BitVec.add_assoc, h.number]
        rfl
      · exact h.number
    · exact .quiet (Relay.leave_all _) rfl rfl rfl
  | micDec =>
    constructor
    · exact ⟨h.sound, h.number, h.buffer, h.length, h.heard, h.unheard, h.unconfirmed, h.errors, h.armed, h.behind, h.first⟩
    · exact .quiet rfl rfl rfl rfl
  | decUsb late =>
    constructor
    · exact ⟨h.sound, h.number, h.buffer, h.length, h.heard, h.unheard, h.unconfirmed, h.errors, h.armed, h.behind, h.first⟩
    · exact .quiet rfl rfl rfl rfl

/-- Sent is only what was just taken out of the ring. -/
theorem streamStep_sent {s : Stream} {e : StreamEv} (henv : LinkEnv s e) :
    (streamStep fir startReq s e).2.sent.Sublist (poppedEvents (streamStep fir startReq s e).2.events) := by
  obtain ⟨micWptr, bufferMic, nwk, rfl⟩ | ⟨-, -, hsent, -⟩ := streamStep_ring fir startReq s e
  · obtain ⟨-, hev, -, hsent⟩ := taskRun_step fir startReq s micWptr bufferMic nwk
    have hsends := audioRecTaskRun_sends fir micWptr bufferMic henv
    rw [hev, hsent]
    generalize audioRecTaskRun fir micWptr bufferMic nwk s.remote = t at hsends ⊢
    cases hsends with
    | idle => exact List.nil_sublist _
    | stops => exact List.nil_sublist _
    | sent _ _ _ _ _ _ _ _ _ _ hmem => exact hmem
  · rw [hsent]
    exact List.nil_sublist _

end Run

/-! ### What is encoded -/

/-- Blocks encoded from one state of the encoder to another. -/
structure Encodes (fir : Bool) (st st' : AdpcmState) (events : List (LossyEvent (List Byte))) (blocks : List MicBlock) :
    Prop where
  packets : pushedEvents events = (encodeStream fir st blocks).map EncodedBlock.packet
  goesOn : ∀ rest, encodeStream fir st (blocks ++ rest) = encodeStream fir st blocks ++ encodeStream fir st' rest
  units : ∀ b ∈ blocks, b.len = tlMicAdpcmUnitSize

theorem Encodes.nil (fir : Bool) (st : AdpcmState) {events : List (LossyEvent (List Byte))} (h : pushedEvents events = []) :
    Encodes fir st st events [] := ⟨h, fun _ => rfl, by simp⟩

theorem Encodes.append {fir : Bool} {st st' st'' : AdpcmState} {events events' : List (LossyEvent (List Byte))}
    {blocks blocks' : List MicBlock} (h : Encodes fir st st' events blocks) (h' : Encodes fir st' st'' events' blocks') :
    Encodes fir st st'' (events ++ events') (blocks ++ blocks') := by
  constructor
  · rw [pushedEvents_append, h.packets, h'.packets, h.goesOn, List.map_append]
  · intro rest
    rw [List.append_assoc, h.goesOn, h'.goesOn, h.goesOn, List.append_assoc]
  · intro b hb
    rcases List.mem_append.mp hb with hb | hb
    · exact h.units b hb
    · exact h'.units b hb

theorem procMicEncoder82x8_encodes (fir : Bool) (micWptr : BitVec 16) (bufferMic : Nat → BitVec 16) (s : MicRing) :
    Encodes fir s.adpcm (procMicEncoder82x8 fir micWptr bufferMic s).1.adpcm
      (procMicEncoder82x8 fir micWptr bufferMic s).2.events
      (micBlock bufferMic s (procMicEncoder82x8 fir micWptr bufferMic s).2.events) := by
  unfold procMicEncoder82x8
  dsimp only
  by_cases hready : (if micWptr ≥ s.bufferMicRptr then (micWptr - s.bufferMicRptr).toNat else 0xffff) ≥
      tlMicBufferSize fir / 2
  · rw [if_pos hready]
    constructor
    · simp [micBlock, pushedEvents, encodeStream]
    · simp [micBlock, pushedEvents, encodeStream]
    · simp [micBlock, pushedEvents]
  · rw [if_neg hready]
    exact .nil fir _ rfl

theorem micEncoderDataBuffer_pushed (s : MicRing) :
    pushedEvents (micEncoderDataBuffer s).2.events = [] ∧ (micEncoderDataBuffer s).1.adpcm = s.adpcm := by
  unfold micEncoderDataBuffer
  dsimp only
  split_ifs <;> exact ⟨rfl, rfl⟩

theorem audioRecTaskRun_encodes (fir : Bool) (micWptr : BitVec 16) (bufferMic : Nat → BitVec 16)
    (nwk : List Byte → NwkAns) (r : Remote) :
    Encodes fir r.ring.adpcm (audioRecTaskRun fir micWptr bufferMic nwk r).1.ring.adpcm
      (audioRecTaskRun fir micWptr bufferMic nwk r).2.events (audioRecTaskRun fir micWptr bufferMic nwk r).2.blocks := by
  unfold audioRecTaskRun
  by_cases hopened : r.opened = true
  · rw [if_pos hopened]
    dsimp only
    have henc := procMicEncoder82x8_encodes fir micWptr bufferMic r.ring
    generalize procMicEncoder82x8 fir micWptr bufferMic r.ring = e at henc ⊢
    obtain ⟨hpushed, hadpcm⟩ := micEncoderDataBuffer_pushed e.1
    rw [← List.append_nil (micBlock bufferMic r.ring e.2.events)]
    obtain ⟨hring, hev⟩ | ⟨hring, hev⟩ := procSending84_ring nwk { r with ring := e.1 }
    · rw [hring, hev]
      exact henc.append (.nil fir _ rfl)
    · rw [hring, hev, hadpcm]
      exact henc.append (.nil fir _ hpushed)
  · rw [if_neg hopened]
    exact .nil fir _ rfl

section Run
variable (fir : Bool) (startReq : List Byte)

theorem streamStep_encodes (s : Stream) (e : StreamEv) :
    Encodes fir s.remote.ring.adpcm (streamStep fir startReq s e).1.remote.ring.adpcm
      (streamStep fir startReq s e).2.events (streamStep fir startReq s e).2.blocks := by
  obtain ⟨micWptr, bufferMic, nwk, rfl⟩ | ⟨hev, hblocks, -, delay, hring⟩ := streamStep_ring fir startReq s e
  · obtain ⟨hremote, hev, hblocks, -⟩ := taskRun_step fir startReq s micWptr bufferMic nwk
    rw [hremote, hev, hblocks]
    exact audioRecTaskRun_encodes fir micWptr bufferMic nwk s.remote
  · rw [hev, hblocks, hring]
    exact .nil fir _ rfl

/-! ### What reaches the dongle's ring -/

theorem addedPackets_map (ps : List (Nat → Byte)) :
    addedPackets (ps.map .micAdd) = ps.map fun p => bytes p 0 micAdpcmFrameSize := by
  induction ps with
  | nil => rfl
  | cons p ps ih => simp [addedPackets, ih]

/-- What an answer tells of the dongle's ring. -/
structure Stream.Played (s s' : Stream) (a : StreamAns) : Prop where
  abuf : s'.dongle.abuf = (Refine.run abufStep s.dongle.abuf a.calls).1
  taken : a.taken = addedPackets a.calls
  written : a.written = writtenSamples (Refine.run abufStep s.dongle.abuf a.calls).2
  single : a.calls = [] ∨ ∃ k, a.calls = [k]

theorem Stream.Played.quiet {s s' : Stream} {a : StreamAns} (h : s'.dongle.abuf = s.dongle.abuf) (hcalls : a.calls = [])
    (htaken : a.taken = []) (hwritten : a.written = []) : s.Played s' a := by
  constructor
  · rw [hcalls, h]
    rfl
  · rw [hcalls, htaken]
    rfl
  · rw [hcalls, hwritten]
    rfl
  · exact .inl hcalls

theorem Requests.played {cmdId : Byte} {payload : List Byte} {s : Stream} {q : Remote × Option (List Byte)}
    (h : Requests cmdId payload s.remote q) (start : Bool) (heard : Option Around)
    (hquiet : ∀ around, (dongleHears around (appFrame s.remote.seqNo cmdId payload) s.dongle).abuf = s.dongle.abuf) :
    s.Played (s.requested start q heard).1 (s.requested start q heard).2 := by
  cases h with
  | quiet => exact .quiet rfl rfl rfl rfl
  | sent =>
    cases heard with
    | none => exact .quiet rfl rfl rfl rfl
    | some around => exact .quiet (hquiet around) rfl rfl rfl

theorem streamStep_played (s : Stream) (e : StreamEv) :
    s.Played (streamStep fir startReq s e).1 (streamStep fir startReq s e).2 := by
  cases e with
  | taskRun micWptr bufferMic nwk =>
    simp only [streamStep]
    cases (audioRecTaskRun fir micWptr bufferMic nwk s.remote).2.sent <;> exact .quiet rfl rfl rfl rfl
  | rfRxIrq len fcf1 =>
    simp only [streamStep]
    split_ifs <;> exact .quiet rfl rfl rfl rfl
  | audioStart msg timer heard =>
    refine (appAudioStart_requests msg timer startReq s.remote).played true heard fun around => ?_
    rw [dongleHears_startReq]
  | startReqTimeout msg heard =>
    refine (audioStartReqTimeout_requests msg startReq s.remote).played true heard fun around => ?_
    rw [dongleHears_startReq]
  | audioStop msg heard =>
    refine (tlAudioStop_requests msg s.remote).played false heard fun around => ?_
    rw [dongleHears_stopReq]
  | air around =>
    simp only [streamStep]
    cases s.remote.rfTxBuf with
    | none => exact .quiet rfl rfl rfl rfl
    | some frame =>
      have habuf := dongleHears_abuf around frame s.dongle
      have hadded := (addedPackets_map (dongleTakes around frame s.dongle)).symm
      dsimp only
      refine ⟨habuf, hadded, ?_, ?_⟩
      · unfold dongleTakes
        split_ifs <;> rfl
      · unfold dongleTakes
        split_ifs
        · exact .inr ⟨_, rfl⟩
        · exact .inl rfl
  | micDec =>
    refine ⟨?_, rfl, rfl, .inr ⟨_, rfl⟩⟩
    simp only [streamStep, rxStep, rxEvent, Traced.value_bind, Traced.value_pure, abufMicDecTraced_value]
    rfl
  | decUsb late => exact ⟨rfl, rfl, (List.append_nil _).symm, .inr ⟨_, rfl⟩⟩
  | timeOutTx => exact .quiet rfl rfl rfl rfl
  | rfTxIrq => exact .quiet rfl rfl rfl rfl
  | startRsp => exact .quiet rfl rfl rfl rfl
  | otherTx numbered => exact .quiet rfl rfl rfl rfl

end Run

end Rf4ce.Audio
