import Rf4ce.Audio.Stream

/-! What of the remote's voice the dongle takes and plays, over whole runs. -/
namespace Rf4ce.Audio
open Crash Refine

def Remote.powerOn (maxFrameRetries : Nat) : Remote where
  ring := .initial
  opened := false
  seqNo := 0
  err := 0
  audioCb := false
  dataReqTimeoutCb := false
  dataReqRetries := 0
  maxFrameRetries := maxFrameRetries
  audioTxDataFlag := false
  audioTxCurCnt := 0
  rfTxBuf := none

def Stream.powerOn (maxFrameRetries : Nat) (abuf : Abuf) : Stream :=
  ⟨.powerOn maxFrameRetries, ⟨abufInit abuf, 0⟩, .empty, 0⟩

theorem Stream.powerOn_inv (maxFrameRetries : Nat) (abuf : Abuf) : (Stream.powerOn maxFrameRetries abuf).Inv := by
  have hnot {P : Prop} (hopen : false = true) : P := absurd hopen Bool.false_ne_true
  have hnone {P : Fate (List Byte) → Prop} : ∀ e ∈ (none : Option (Fate (List Byte))), P e := by simp
  exact ⟨Relay.empty_sound, rfl, rfl, hnone, hnone, hnone, hnot, ⟨Nat.zero_le _, hnot⟩, hnot, hnot, hnot⟩

/-! ### The lists of a run -/

def encodedPackets (as : List StreamAns) : List (List Byte) := pushedEvents (as.flatMap StreamAns.events)

def encodedBlocks (as : List StreamAns) : List MicBlock := as.flatMap StreamAns.blocks

def sentPackets (as : List StreamAns) : List (List Byte) := as.flatMap StreamAns.sent

def takenPackets (as : List StreamAns) : List (List Byte) := as.flatMap StreamAns.taken

def confirmedPackets (as : List StreamAns) : List (List Byte) := as.flatMap StreamAns.confirmed

section Run
variable (fir : Bool) (startReq : List Byte)

theorem stream_told {s : Stream} {es : List StreamEv} (h : s.Inv) (henv : Legal (streamStep fir startReq) LinkEnv s es) :
    (run (streamStep fir startReq) s es).1.Inv ∧
    (run (streamStep fir startReq) s es).1.relay.sent =
      s.relay.sent ++ sentPackets (run (streamStep fir startReq) s es).2 ∧
    (run (streamStep fir startReq) s es).1.relay.taken =
      s.relay.taken ++ takenPackets (run (streamStep fir startReq) s es).2 ∧
    (run (streamStep fir startReq) s es).1.relay.acked =
      s.relay.acked ++ confirmedPackets (run (streamStep fir startReq) s es).2 := by
  induction es generalizing s with
  | nil => simp [Refine.run, h, sentPackets, takenPackets, confirmedPackets]
  | cons e es ih =>
    obtain ⟨hinv, htold⟩ := streamStep_inv fir startReq h henv.1
    obtain ⟨hinv', hsent, htaken, hacked⟩ := ih hinv henv.2
    simp only [Refine.run, sentPackets, takenPackets, confirmedPackets, List.flatMap_cons, ← List.append_assoc,
      ← htold.sent, ← htold.taken, ← htold.acked]
    exact ⟨hinv', hsent, htaken, hacked⟩

theorem stream_sent {s : Stream} {es : List StreamEv} (h : s.Inv) (henv : Legal (streamStep fir startReq) LinkEnv s es) :
    (sentPackets (run (streamStep fir startReq) s es).2).Sublist
      (poppedEvents ((run (streamStep fir startReq) s es).2.flatMap StreamAns.events)) := by
  induction es generalizing s with
  | nil => exact List.nil_sublist _
  | cons e es ih =>
    obtain ⟨hinv, -⟩ := streamStep_inv fir startReq h henv.1
    simp only [Refine.run, sentPackets, List.flatMap_cons, poppedEvents_append]
    exact (streamStep_sent fir startReq henv.1).append (ih hinv henv.2)

theorem stream_encodes (s : Stream) (es : List StreamEv) :
    Encodes fir s.remote.ring.adpcm (run (streamStep fir startReq) s es).1.remote.ring.adpcm
      ((run (streamStep fir startReq) s es).2.flatMap StreamAns.events)
      (encodedBlocks (run (streamStep fir startReq) s es).2) := by
  induction es generalizing s with
  | nil => exact .nil fir _ rfl
  | cons e es ih => exact (streamStep_encodes fir startReq s e).append (ih _)

theorem stream_lossy {s : Stream} (hring : MicRep s.remote.ring .empty) (es : List StreamEv) :
    LossyTrace tlMicPacketBufferNum ((run (streamStep fir startReq) s es).2.flatMap StreamAns.events) := by
  obtain ⟨g, hsteps, -⟩ := lossy_run (fun s e g h => streamStep_rep fir startReq s e g h) hring es
  exact hsteps.trace (by decide)

variable (maxFrameRetries : Nat) (abuf : Abuf)

/-- The taken packets are those of some of the encoded blocks, in order. -/
theorem voice_taken {es : List StreamEv}
    (henv : Legal (streamStep fir startReq) LinkEnv (.powerOn maxFrameRetries abuf) es) :
    let as := (run (streamStep fir startReq) (.powerOn maxFrameRetries abuf) es).2
    ∃ bs : List EncodedBlock, bs.Sublist (encodeStream fir .initial (encodedBlocks as)) ∧
      takenPackets as = bs.map EncodedBlock.packet := by
  have hinv := Stream.powerOn_inv maxFrameRetries abuf
  obtain ⟨-, hsent, htaken, -⟩ := stream_told fir startReq hinv henv
  have hpopped := stream_sent fir startReq hinv henv
  have hlossy := stream_lossy fir startReq (s := .powerOn maxFrameRetries abuf) (LossyRep.empty 32 256 _) es
  have henc := stream_encodes fir startReq (.powerOn maxFrameRetries abuf) es
  dsimp only
  generalize run (streamStep fir startReq) (.powerOn maxFrameRetries abuf) es = r at *
  have hsub := r.1.relay.taken_sublist
  rw [hsent, htaken] at hsub
  have hpackets := (hsub.trans hpopped).trans hlossy.sublist
  rw [henc.packets] at hpackets
  exact List.sublist_map_iff.mp hpackets

theorem encodedBlocks_units (es : List StreamEv) :
    ∀ b ∈ encodedBlocks (run (streamStep fir startReq) (.powerOn maxFrameRetries abuf) es).2, b.len % 4 = 0 := by
  intro b hb
  rw [(stream_encodes fir startReq (.powerOn maxFrameRetries abuf) es).units b hb]
  rfl

/-- **Voice.** In every run from power-on the packets that the dongle takes are those of some of the
encoded blocks, in their order and each at most once; each decodes to the predictors of its block, and
every packet that the remote saw acknowledged is among them. -/
theorem voice_delivered {es : List StreamEv}
    (henv : Legal (streamStep fir startReq) LinkEnv (.powerOn maxFrameRetries abuf) es) :
    let as := (run (streamStep fir startReq) (.powerOn maxFrameRetries abuf) es).2
    (confirmedPackets as).Sublist (takenPackets as) ∧
    ∃ bs : List EncodedBlock, bs.Sublist (encodeStream fir .initial (encodedBlocks as)) ∧
      takenPackets as = bs.map EncodedBlock.packet ∧
      ∀ e ∈ bs, ∀ mem, bytes mem 0 e.packet.length = e.packet →
        (adpcmToPcm mem e.states.length).map BitVec.toInt = e.states.map (·.predict) := by
  obtain ⟨hinv, -, htaken, hacked⟩ := stream_told fir startReq (Stream.powerOn_inv maxFrameRetries abuf) henv
  obtain ⟨bs, hsub, hbs⟩ := voice_taken fir startReq maxFrameRetries abuf henv
  have hunits := encodedBlocks_units fir startReq maxFrameRetries abuf es
  constructor
  · have hconfirmed := hinv.sound.acked_sublist
    rw [hacked, htaken] at hconfirmed
    exact hconfirmed
  · refine ⟨bs, hsub, hbs, ?_⟩
    intro e he mem hmem
    exact (encodeStream_decodes fir _ hunits AdpcmState.initial_inRange e (hsub.subset he) mem hmem).1

/-- A network layer that takes every frame. -/
def takingNwk (frame : List Byte) : NwkAns := ⟨0, true, 0, some frame⟩

def aroundZero : Around := ⟨fun _ => 0, fun _ => 0⟩

def oneTask : StreamEv := .taskRun 0xffff (fun _ => 1000) takingNwk

/-- The recorder starts and encodes twenty blocks; two packets are sent, the first of them twice. -/
def talk : List StreamEv := [.audioStart true true (some aroundZero), .startRsp] ++ List.replicate 20 oneTask ++
  [.air aroundZero, .timeOutTx, .air aroundZero, .rfRxIrq 5 2, oneTask, .air aroundZero, .rfRxIrq 5 2]

theorem oneTask_env (s : Stream) : LinkEnv s oneTask := fun _ => ⟨rfl, rfl⟩

/-- After a transmission that the dongle received, an acknowledgement may come. -/
theorem air_heard {s : Stream} (h : s.Inv) (around : Around) :
    ∀ e ∈ (streamStep fir startReq s (.air around)).1.relay.cur, e.heard = true := by
  intro e he
  have hbuf := h.buffer
  simp only [streamStep] at he
  cases hcur : s.relay.cur with
  | none =>
    rw [hcur] at hbuf
    rw [hbuf] at he
    exact absurd (hcur.symm.trans he) (Option.some_ne_none e).symm
  | some e' =>
    rw [hcur] at hbuf
    rw [hbuf] at he
    obtain ⟨e'', -, rfl⟩ := Option.map_eq_some_iff.mp he
    rfl

theorem talk_env {s : Stream} (h : s.Inv) (hopened : s.remote.opened = false)
    (htimer : s.remote.dataReqTimeoutCb = false) : Legal (streamStep true []) LinkEnv s talk := by
  have htasks {s : Stream} (n : Nat) : Legal (streamStep true []) LinkEnv s (List.replicate n oneTask) := by
    induction n generalizing s with
    | zero => trivial
    | succ n ih => exact ⟨oneTask_env s, ih⟩
  have hgap : (streamStep true [] s (.audioStart true true (some aroundZero))).1.gap = 1 := by
    simp only [streamStep, appAudioStart, htimer]
    rfl
  have hstart : Legal (streamStep true []) LinkEnv s
      ([.audioStart true true (some aroundZero), .startRsp] ++ List.replicate 20 oneTask) := by
    rw [legal_append]
    exact ⟨⟨hopened, ⟨Nat.le_of_eq hgap.symm, by rw [hgap]; decide⟩, trivial⟩, htasks 20⟩
  have hinv := (stream_told true [] h hstart).1
  generalize hs : (run (streamStep true []) s _).1 = s₁ at hinv
  rw [talk, legal_append, hs]
  have h₁ := (streamStep_inv true [] (e := .air aroundZero) hinv trivial).1
  have h₂ := (streamStep_inv true [] (e := .timeOutTx) h₁ trivial).1
  have hheard := air_heard true [] h₂ aroundZero
  have h₃ := (streamStep_inv true [] (e := .air aroundZero) h₂ trivial).1
  have h₄ := (streamStep_inv true [] (e := .rfRxIrq 5 2) h₃ fun _ => hheard).1
  have h₅ := (streamStep_inv true [] (e := oneTask) h₄ (oneTask_env _)).1
  have hheard' := air_heard true [] h₅ aroundZero
  exact ⟨hstart, trivial, trivial, trivial, fun _ => hheard, oneTask_env _, trivial, fun _ => hheard', trivial⟩

theorem talk_env_powerOn : Legal (streamStep true []) LinkEnv (.powerOn 3 .zero) talk :=
  talk_env (Stream.powerOn_inv 3 .zero) rfl rfl

theorem voice_delivered_talk :
    let as := (run (streamStep true []) (.powerOn 3 .zero) talk).2
    (confirmedPackets as).Sublist (takenPackets as) ∧
    ∃ bs : List EncodedBlock, bs.Sublist (encodeStream true .initial (encodedBlocks as)) ∧
      takenPackets as = bs.map EncodedBlock.packet ∧
      ∀ e ∈ bs, ∀ mem, bytes mem 0 e.packet.length = e.packet →
        (adpcmToPcm mem e.states.length).map BitVec.toInt = e.states.map (·.predict) :=
  voice_delivered true [] 3 .zero talk_env_powerOn

/-! ### When nothing is lost -/

/-- The network layer takes every frame, the encoder finds room in its ring, no packet fails and
nothing else is sent in the place of an unheard one. -/
def Smooth (s : Stream) : StreamEv → Prop
  | .taskRun _ _ nwk => (∀ frame, (nwk frame).ret = 0) ∧
      (s.remote.ring.pktWptr - s.remote.ring.pktRptr).toNat < tlMicPacketBufferNum
  | .rfTxIrq => s.remote.audioTxDataFlag = true → s.remote.audioTxCurCnt.toNat ≤ s.remote.maxFrameRetries
  | .audioStart .. | .startReqTimeout .. | .audioStop .. | .otherTx _ => ∀ e ∈ s.relay.cur, e.heard = true
  | _ => True

/-- No error was counted, and only a packet that the remote waits for may be unheard. -/
structure Stream.Calm (s : Stream) : Prop where
  err : s.remote.err = 0
  past : ∀ e ∈ s.relay.past, e.heard = true
  waits : s.remote.audioTxDataFlag = false → ∀ e ∈ s.relay.cur, e.heard = true

/-- Nothing of what was encoded is lost: it was sent or waits in the ring. -/
def Stream.Keeps (s : Stream) (encoded : List (List Byte)) : Prop :=
  ∃ g, MicRep s.remote.ring g ∧ encoded = s.relay.sent ++ g.unread

theorem tlAudioDataSend_accepted {nwk : List Byte → NwkAns} {r : Remote} (data : List Byte) (herr : r.err = 0)
    (hret : ∀ frame, (nwk frame).ret = 0) : (tlAudioDataSend nwk data r).2 = some data := by
  have hsmall : ¬ r.err.toNat ≥ audioErrTimes := by
    rw [herr]
    decide
  unfold tlAudioDataSend
  rw [if_neg hsmall]
  dsimp only
  rw [if_pos (hret _)]

/-- Without errors everything that comes out of the ring is sent. -/
theorem procSending84_sent {nwk : List Byte → NwkAns} {r : Remote} (herr : r.err = 0)
    (hret : ∀ frame, (nwk frame).ret = 0) :
    (procSending84 nwk r).2.sent.toList = poppedEvents (procSending84 nwk r).2.events := by
  unfold procSending84
  by_cases hdelay : r.ring.audioDelayTimes > 0
  · rw [if_pos hdelay]
    rfl
  by_cases hflag : r.audioTxDataFlag = true
  · rw [if_neg hdelay, if_pos hflag]
    rfl
  rw [if_neg hdelay, if_neg hflag]
  dsimp only
  have hone : (poppedEvents (micEncoderDataBuffer r.ring).2.events).length ≤ 1 := by
    unfold micEncoderDataBuffer
    by_cases hempty : r.ring.pktRptr = r.ring.pktWptr
    · simp [hempty, poppedEvents]
    · simp [hempty, poppedEvents]
  cases hpop : poppedEvents (micEncoderDataBuffer r.ring).2.events with
  | nil => exact hpop.symm
  | cons pkt rest =>
    rw [hpop, List.length_cons] at hone
    have hrest : rest = [] := List.length_eq_zero_iff.mp (by omega)
    change (tlAudioDataSend nwk pkt _).2.toList = _
    rw [tlAudioDataSend_accepted pkt (by exact herr) hret, hpop, hrest]
    rfl

theorem procMicEncoder82x8_one (micWptr : BitVec 16) (bufferMic : Nat → BitVec 16) (s : MicRing) :
    (pushedEvents (procMicEncoder82x8 fir micWptr bufferMic s).2.events).length ≤ 1 ∧
      poppedEvents (procMicEncoder82x8 fir micWptr bufferMic s).2.events = [] := by
  unfold procMicEncoder82x8
  dsimp only
  by_cases hready : (if micWptr ≥ s.bufferMicRptr then (micWptr - s.bufferMicRptr).toNat else 0xffff) ≥
      tlMicBufferSize fir / 2
  · rw [if_pos hready]
    exact ⟨Nat.le_refl 1, rfl⟩
  · rw [if_neg hready]
    exact ⟨Nat.zero_le 1, rfl⟩

/-- A call of the task sends what it takes out of the ring, and loses nothing where there is room. -/
theorem audioRecTaskRun_keeps (micWptr : BitVec 16) (bufferMic : Nat → BitVec 16) {nwk : List Byte → NwkAns} {r : Remote}
    {g : Lossy (List Byte)} (h : MicRep r.ring g) (herr : r.err = 0) (hret : ∀ frame, (nwk frame).ret = 0)
    (hroom : (r.ring.pktWptr - r.ring.pktRptr).toNat < tlMicPacketBufferNum) :
    ∃ g', MicRep (audioRecTaskRun fir micWptr bufferMic nwk r).1.ring g' ∧
      g.unread ++ pushedEvents (audioRecTaskRun fir micWptr bufferMic nwk r).2.events =
        (audioRecTaskRun fir micWptr bufferMic nwk r).2.sent.toList ++ g'.unread := by
  obtain ⟨g', hsteps, hg'⟩ := audioRecTaskRun_rep fir micWptr bufferMic nwk h
  refine ⟨g', hg', ?_⟩
  have hsent : (audioRecTaskRun fir micWptr bufferMic nwk r).2.sent.toList =
        poppedEvents (audioRecTaskRun fir micWptr bufferMic nwk r).2.events ∧
      (pushedEvents (audioRecTaskRun fir micWptr bufferMic nwk r).2.events).length ≤ 1 := by
    unfold audioRecTaskRun
    by_cases hopened : r.opened = true
    · obtain ⟨hone, hpop⟩ := procMicEncoder82x8_one fir micWptr bufferMic r.ring
      rw [if_pos hopened]
      dsimp only
      generalize procMicEncoder82x8 fir micWptr bufferMic r.ring = e at hone hpop ⊢
      have hnone : pushedEvents (procSending84 nwk { r with ring := e.1 }).2.events = [] := by
        obtain ⟨-, hev⟩ | ⟨-, hev⟩ := procSending84_ring nwk { r with ring := e.1 }
        · rw [hev]
          rfl
        · rw [hev]
          exact (micEncoderDataBuffer_pushed e.1).1
      constructor
      · rw [poppedEvents_append, hpop]
        exact procSending84_sent herr hret
      · rw [pushedEvents_append, hnone, List.append_nil]
        exact hone
    · rw [if_neg hopened]
      exact ⟨rfl, Nat.zero_le 1⟩
  rw [h.distance] at hroom
  unfold tlMicPacketBufferNum at hroom
  rw [hsent.1]
  exact hsteps.conserves h.sound (by omega)

theorem streamStep_keeps {s : Stream} {e : StreamEv} {encoded : List (List Byte)} (h : s.Inv) (hcalm : s.Calm)
    (hkeeps : s.Keeps encoded) (henv : LinkEnv s e) (hsmooth : Smooth s e) :
    (streamStep fir startReq s e).1.Keeps (encoded ++ pushedEvents (streamStep fir startReq s e).2.events) := by
  obtain ⟨g, hg, rfl⟩ := hkeeps
  obtain ⟨-, htold⟩ := streamStep_inv fir startReq h henv
  unfold Stream.Keeps
  rw [htold.sent]
  obtain ⟨micWptr, bufferMic, nwk, rfl⟩ | ⟨hev, -, hsent, delay, hring⟩ := streamStep_ring fir startReq s e
  · obtain ⟨hremote, hev, -, hsent⟩ := taskRun_step fir startReq s micWptr bufferMic nwk
    obtain ⟨g', hg', hunread⟩ := audioRecTaskRun_keeps fir micWptr bufferMic hg hcalm.err hsmooth.1 hsmooth.2
    rw [hremote, hev, hsent]
    exact ⟨g', hg', by rw [List.append_assoc, hunread, List.append_assoc]⟩
  · rw [hev, hsent, hring]
    exact ⟨g, hg, by simp [pushedEvents]⟩

theorem Requests.calm {cmdId : Byte} {payload : List Byte} {s : Stream} {q : Remote × Option (List Byte)}
    (hq : Requests cmdId payload s.remote q) (h : s.Calm) (hcur : ∀ e ∈ s.relay.cur, e.heard = true) (start : Bool)
    (heard : Option Around) : (s.requested start q heard).1.Calm := by
  cases hq with
  | quiet => exact ⟨h.err, h.past, fun _ => hcur⟩
  | sent => exact ⟨h.err, Relay.all_heard h.past hcur, fun _ => by simp [Stream.requested, Relay.leave]⟩

theorem streamStep_calm {s : Stream} {e : StreamEv} (h : s.Calm) (henv : LinkEnv s e) (hsmooth : Smooth s e) :
    (streamStep fir startReq s e).1.Calm := by
  cases e with
  | taskRun micWptr bufferMic nwk =>
    have hsends := audioRecTaskRun_sends fir micWptr bufferMic henv
    simp only [streamStep]
    generalize audioRecTaskRun fir micWptr bufferMic nwk s.remote = t at hsends ⊢
    cases hsends with
    | idle => exact ⟨h.err, h.past, h.waits⟩
    | stops => exact ⟨rfl, h.past, h.waits⟩
    | sent ring retries cnt events blocks pkt hopened hflag =>
      exact ⟨h.err, Relay.all_heard h.past (h.waits hflag), fun hf => absurd hf (by simp)⟩
  | timeOutTx => exact ⟨h.err, h.past, h.waits⟩
  | rfTxIrq =>
    have hsame : rfTxIrqHandler s.remote = s.remote := by
      unfold rfTxIrqHandler
      split_ifs with hflag hlast
      · rfl
      · exact absurd (hsmooth hflag) hlast
      · rfl
    simp only [streamStep, hsame]
    exact h
  | rfRxIrq len fcf1 =>
    simp only [streamStep, rfRxIrqHandler]
    by_cases hack : s.remote.HearsAck len fcf1
    · have hheard := henv hack
      rw [if_pos hack, if_pos hack]
      refine ⟨rfl, h.past, fun _ e he => ?_⟩
      obtain ⟨e', he', rfl⟩ := Option.map_eq_some_iff.mp he
      exact hheard e' he'
    · rw [if_neg hack, if_neg hack]
      exact h
  | audioStart msg timer heard => exact (appAudioStart_requests msg timer startReq s.remote).calm h hsmooth true heard
  | startReqTimeout msg heard => exact (audioStartReqTimeout_requests msg startReq s.remote).calm h hsmooth true heard
  | startRsp =>
    simp only [streamStep, tlAudioStartRsp, audioRecTaskStart]
    split_ifs <;> exact ⟨h.err, h.past, h.waits⟩
  | audioStop msg heard => exact (tlAudioStop_requests msg s.remote).calm h hsmooth false heard
  | air around =>
    simp only [streamStep]
    cases s.remote.rfTxBuf with
    | none => exact h
    | some frame =>
      refine ⟨h.err, h.past, fun _ e he => ?_⟩
      obtain ⟨e', -, rfl⟩ := Option.map_eq_some_iff.mp he
      rfl
  | otherTx numbered => exact ⟨h.err, Relay.all_heard h.past hsmooth, fun _ => by simp [streamStep, Relay.leave]⟩
  | micDec => exact ⟨h.err, h.past, h.waits⟩
  | decUsb late => exact ⟨h.err, h.past, h.waits⟩

theorem stream_keeps {s : Stream} {encoded : List (List Byte)} {es : List StreamEv} (h : s.Inv) (hcalm : s.Calm)
    (hkeeps : s.Keeps encoded) (henv : Legal (streamStep fir startReq) LinkEnv s es)
    (hsmooth : Legal (streamStep fir startReq) Smooth s es) :
    (run (streamStep fir startReq) s es).1.Calm ∧ (run (streamStep fir startReq) s es).1.Keeps
      (encoded ++ encodedPackets (run (streamStep fir startReq) s es).2) := by
  induction es generalizing s encoded with
  | nil => exact ⟨hcalm, by simpa [Refine.run, encodedPackets, pushedEvents] using hkeeps⟩
  | cons e es ih =>
    have hinv := (streamStep_inv fir startReq h henv.1).1
    have hnext := ih hinv (streamStep_calm fir startReq hcalm henv.1 hsmooth.1)
      (streamStep_keeps fir startReq h hcalm hkeeps henv.1 hsmooth.1) henv.2 hsmooth.2
    simp only [Refine.run, encodedPackets, List.flatMap_cons, pushedEvents_append, ← List.append_assoc]
    exact hnext

/-- **Voice without loss.** In a smooth run from power-on the encoded packets are those that the dongle
took, at most one on its way, which the remote waits for, and those that wait in the ring. -/
theorem voice_lossless {es : List StreamEv}
    (henv : Legal (streamStep fir startReq) LinkEnv (.powerOn maxFrameRetries abuf) es)
    (hsmooth : Legal (streamStep fir startReq) Smooth (.powerOn maxFrameRetries abuf) es) :
    let r := run (streamStep fir startReq) (.powerOn maxFrameRetries abuf) es
    ∃ onWay waiting, encodedPackets r.2 = takenPackets r.2 ++ onWay ++ waiting ∧ onWay.length ≤ 1 ∧
      (r.1.remote.audioTxDataFlag = false → onWay = []) ∧
      waiting.length = (r.1.remote.ring.pktWptr - r.1.remote.ring.pktRptr).toNat := by
  have hinv := Stream.powerOn_inv maxFrameRetries abuf
  have hcalm : (Stream.powerOn maxFrameRetries abuf).Calm := by
    constructor <;> simp [Stream.powerOn, Remote.powerOn, Relay.empty]
  have hkeeps : (Stream.powerOn maxFrameRetries abuf).Keeps [] := ⟨.empty, LossyRep.empty 32 256 _, rfl⟩
  obtain ⟨hcalm', g, hg, hall⟩ := stream_keeps fir startReq hinv hcalm hkeeps henv hsmooth
  obtain ⟨-, -, htaken, -⟩ := stream_told fir startReq hinv henv
  dsimp only
  generalize run (streamStep fir startReq) (.powerOn maxFrameRetries abuf) es = r at *
  have htaken' : r.1.relay.taken = takenPackets r.2 := htaken
  refine ⟨r.1.relay.unheard, g.unread, ?_, ?_, ?_, hg.distance.symm⟩
  · rw [← htaken', ← Relay.sent_eq hcalm'.past]
    exact hall
  · exact r.1.relay.unheard_length
  · intro hflag
    exact Relay.unheard_eq_nil (hcalm'.waits hflag)

theorem talk_smooth : Legal (streamStep true []) Smooth (.powerOn 3 .zero) talk := by
  have htasks {s : Stream} (hroom : Legal (streamStep true [])
      (fun s _ => (s.remote.ring.pktWptr - s.remote.ring.pktRptr).toNat < tlMicPacketBufferNum) s (List.replicate 20 oneTask)) :
      Legal (streamStep true []) Smooth s (List.replicate 20 oneTask) := by
    have hall : Legal (streamStep true []) (fun _ e => e = oneTask) s (List.replicate 20 oneTask) :=
      legal_forall.mpr fun e he => List.eq_of_mem_replicate he
    refine legal_of (I := fun _ => True) (fun s e _ he hr => ⟨trivial, ?_⟩) trivial hall hroom
    rw [he]
    exact ⟨fun _ => rfl, hr⟩
  rw [talk, legal_append, legal_append]
  refine ⟨⟨⟨?_, trivial, trivial⟩, htasks (by decide +kernel)⟩, trivial, trivial, trivial, trivial, ⟨fun _ => rfl, ?_⟩,
    trivial, trivial, trivial⟩
  · simp [Smooth, Stream.powerOn, Relay.empty]
  · decide +kernel

theorem voice_lossless_talk :
    let r := run (streamStep true []) (.powerOn 3 .zero) talk
    ∃ onWay waiting, encodedPackets r.2 = takenPackets r.2 ++ onWay ++ waiting ∧ onWay.length ≤ 1 ∧
      (r.1.remote.audioTxDataFlag = false → onWay = []) ∧
      waiting.length = (r.1.remote.ring.pktWptr - r.1.remote.ring.pktRptr).toNat :=
  voice_lossless true [] 3 .zero talk_env_powerOn talk_smooth

end Run

end Rf4ce.Audio
