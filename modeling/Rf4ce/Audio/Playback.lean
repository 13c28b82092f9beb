import Rf4ce.Audio.Voice

/-! From the packets in the dongle's ring to the samples at its USB endpoint. -/
namespace Rf4ce.Audio
open Crash Refine

/-! ### The ring of packets -/

/-- The packets `l` wait in `abuf_mic`. -/
def MicHolds (s : Abuf) (l : List (List Byte)) : Prop :=
  LossyRing 4 256 (fun k => bytes s.mic (k * micAdpcmFrameSize) micAdpcmFrameSize) s.decWptr.toNat s.micWptr.toNat l

/-- No packet is added while four wait. -/
def RoomToAdd (s : Abuf) : AbufCall → Prop
  | .micAdd _ => s.numMic ≤ 3
  | _ => True

theorem MicHolds.numMic {s : Abuf} {l : List (List Byte)} (h : MicHolds s l) : s.numMic = l.length := by
  have hcount := LossyRing.count h (by decide)
  have hr := s.decWptr.isLt
  unfold Abuf.numMic
  rw [BitVec.toNat_sub]
  omega

theorem MicHolds.length_le {s : Abuf} {l : List (List Byte)} (h : MicHolds s l) : l.length ≤ 4 := by
  obtain ⟨k, hring, -⟩ := h
  exact hring.1

/-- The pointers are at one place. -/
theorem micHolds_nil {s : Abuf} (h : s.numMic = 0) : MicHolds s [] := by
  have hr := s.decWptr.isLt
  have hw := s.micWptr.isLt
  unfold Abuf.numMic at h
  rw [BitVec.toNat_sub] at h
  have heq : s.micWptr.toNat = s.decWptr.toNat := by omega
  refine ⟨s.decWptr.toNat, .nil _ _ _, (Nat.mod_eq_of_lt hr).symm, ?_⟩
  rw [heq, List.length_nil, Nat.add_zero, Nat.mod_eq_of_lt hr]

theorem MicHolds.add {s : Abuf} {l : List (List Byte)} (h : MicHolds s l) (p : Nat → Byte) (hroom : s.numMic ≤ 3) :
    MicHolds (abufMicAdd p s) (l ++ [bytes p 0 micAdpcmFrameSize]) := by
  rw [h.numMic] at hroom
  have hwptr : (s.micWptr + 1).toNat = (s.micWptr.toNat + 1) % 256 := BitVec.toNat_add ..
  unfold MicHolds abufMicAdd
  dsimp only
  rw [hwptr]
  refine LossyRing.push h (by decide) (by omega) ?_ fun k hk hne => ?_
  · apply List.ext_getElem
    · simp
    · intro i hi hi'
      rw [bytes_length] at hi
      rw [bytes_getElem, bytes_getElem, overlay, if_pos (by omega)]
      congr 1
      omega
  · refine bytes_congr fun x hlo hhi => ?_
    unfold overlay micAdpcmFrameSize at *
    rw [if_neg (by omega)]

/-- A frame that a packet decodes to, whatever lies behind the packet. -/
def DecodesTo (pkt : List Byte) (frame : List Sample) : Prop :=
  ∃ mem, bytes mem 0 micAdpcmFrameSize = pkt ∧ frame = adpcmToPcm mem micShortDecSize

theorem MicHolds.decode {s : Abuf} {l : List (List Byte)} (h : MicHolds s l) (hs : s.reset = 0)
    (hreset : (abufMicDec s).1.reset = 0) :
    (abufMicDec s).2 = none ∧ MicHolds (abufMicDec s).1 l ∨
    ∃ pkt rest frame, l = pkt :: rest ∧ (abufMicDec s).2 = some frame ∧ DecodesTo pkt frame ∧
      MicHolds (abufMicDec s).1 rest := by
  have hnum := h.numMic
  have hfour := h.length_le
  unfold abufMicDec at hreset ⊢
  rw [if_neg (not_not_intro hs)] at hreset ⊢
  dsimp only at hreset ⊢
  have hskip : ¬ s.numMic > 4 := by omega
  rw [if_neg hskip] at hreset ⊢
  by_cases hfull : s.numDec > 4
  · rw [if_pos hfull] at hreset
    exact absurd hreset (Nat.succ_ne_zero 15)
  rw [if_neg hfull]
  split_ifs with hgo
  · right
    cases l with
    | nil =>
      rw [List.length_nil] at hnum
      simp [hnum] at hgo
    | cons pkt rest =>
      have hhead := LossyRing.head h (by decide)
      refine ⟨pkt, rest, _, rfl, rfl, ⟨_, ?_, rfl⟩, ?_⟩
      · rw [← hhead]
        apply List.ext_getElem
        · simp
        · intro i hi hi'
          rw [bytes_getElem, bytes_getElem]
          congr 1
          omega
      · have hpop := LossyRing.pop h
        have hptr : (s.decWptr + 1).toNat = (s.decWptr.toNat + 1) % 256 := BitVec.toNat_add ..
        unfold MicHolds
        dsimp only
        rw [hptr]
        exact hpop
  · exact .inl ⟨rfl, h⟩

theorem MicHolds.copyUsb {s : Abuf} {l : List (List Byte)} (h : MicHolds s l) : MicHolds (abufCopyUsb s).1 l := by
  unfold abufCopyUsb
  dsimp only
  split_ifs <;> exact h

theorem MicHolds.decUsb {s : Abuf} {l : List (List Byte)} (h : MicHolds s l) (late : Bool) :
    MicHolds (abufDecUsb late s).1 l := by
  unfold abufDecUsb
  dsimp only
  apply MicHolds.copyUsb
  split_ifs <;> exact h

/-- A period without reset: packets are decoded in the order in which they were added, and no call of
the decoder skips one. -/
theorem micHolds_run {s : Abuf} {l : List (List Byte)} {ks : List AbufCall} (h : MicHolds s l) (hs : s.reset = 0)
    (hroom : Legal abufStep RoomToAdd s ks) (hreset : Legal abufStep NoReset s ks) :
    Legal abufStep NoSkip s ks ∧ ∃ done rest frames, l ++ addedPackets ks = done ++ rest ∧
      List.Forall₂ DecodesTo done frames ∧ decodedSamples (run abufStep s ks).2 = frames.flatten := by
  induction ks generalizing s l with
  | nil => exact ⟨trivial, [], l, [], by simp [addedPackets], .nil, rfl⟩
  | cons k ks ih =>
    obtain ⟨hk, hroom⟩ := hroom
    obtain ⟨hr, hreset⟩ := hreset
    cases k with
    | micAdd p =>
      obtain ⟨hskip, done, rest, frames, hsplit, hdec, hout⟩ := ih (h.add p hk) hr hroom hreset
      refine ⟨⟨trivial, hskip⟩, done, rest, frames, ?_, hdec, hout⟩
      rw [← hsplit, addedPackets, List.append_assoc, List.singleton_append]
    | decUsb late =>
      obtain ⟨hskip, done, rest, frames, hsplit, hdec, hout⟩ := ih (h.decUsb late) hr hroom hreset
      exact ⟨⟨trivial, hskip⟩, done, rest, frames, hsplit, hdec, hout⟩
    | micDec =>
      have hfour (_ : s.reset = 0) : s.numMic ≤ 4 := by
        rw [h.numMic]
        exact h.length_le
      obtain ⟨hnone, hnext⟩ | ⟨pkt, rest', frame, rfl, hsome, hpkt, hnext⟩ := h.decode hs hr
      · obtain ⟨hskip, done, rest, frames, hsplit, hdec, hout⟩ := ih hnext hr hroom hreset
        refine ⟨⟨hfour, hskip⟩, done, rest, frames, hsplit, hdec, ?_⟩
        rw [← hout]
        change decodedSamples (.decoded (abufMicDec s).2 :: _) = _
        rw [hnone]
        rfl
      · obtain ⟨hskip, done, rest, frames, hsplit, hdec, hout⟩ := ih hnext hr hroom hreset
        refine ⟨⟨hfour, hskip⟩, pkt :: done, rest, frame :: frames, ?_, .cons hpkt hdec, ?_⟩
        · exact congrArg (pkt :: ·) hsplit
        · change decodedSamples (.decoded (abufMicDec s).2 :: _) = _
          rw [hsome, List.flatten_cons, ← hout]
          rfl

/-- From a reset with an empty ring to the next reset, the endpoint gets the samples of the packets
added, in order. -/
theorem written_decodes {s : Abuf} {ks : List AbufCall} (hs : s.reset ≠ 0) (hempty : s.numMic = 0)
    (hroom : Legal abufStep RoomToAdd s ks) (hreset : Legal abufStep NoReset s ks) :
    ∃ done rest frames, addedPackets ks = done ++ rest ∧ List.Forall₂ DecodesTo done frames ∧
      writtenSamples (run abufStep s ks).2 <+: frames.flatten := by
  cases ks with
  | nil => exact ⟨[], [], [], rfl, .nil, List.prefix_rfl⟩
  | cons k ks =>
    have hall := hreset
    obtain ⟨-, hroom⟩ := hroom
    obtain ⟨hr, hreset⟩ := hreset
    cases k with
    | micAdd p => exact absurd hr hs
    | micDec =>
      have hr' : (abufMicDec s).1.reset = 0 := hr
      rw [abufMicDec, if_pos hs] at hr'
      exact absurd hr' hs
    | decUsb late =>
      obtain ⟨hskip, done, rest, frames, hsplit, hdec, hout⟩ :=
        micHolds_run ((micHolds_nil hempty).decUsb late) hr hroom hreset
      refine ⟨done, rest, frames, hsplit, hdec, ?_⟩
      have hskip' : Legal abufStep NoSkip s (.decUsb late :: ks) := ⟨trivial, hskip⟩
      have hprefix : writtenSamples (run abufStep s (.decUsb late :: ks)).2 <+:
          decodedSamples (run abufStep (abufDecUsb late s).1 ks).2 := writtenSamples_prefix hs hskip' hall
      rw [hout] at hprefix
      exact hprefix

/-! ### From microphone to endpoint -/

def playCalls (as : List StreamAns) : List AbufCall := as.flatMap StreamAns.calls

def writtenPcm (as : List StreamAns) : List Sample := as.flatMap StreamAns.written

theorem addedPackets_append (ks ks' : List AbufCall) :
    addedPackets (ks ++ ks') = addedPackets ks ++ addedPackets ks' := by
  induction ks with
  | nil => rfl
  | cons k ks ih => cases k <;> simp [addedPackets, ih]

/-- Packets and samples of a block as the encoder makes them. -/
theorem encodeStream_units (fir : Bool) {st : AdpcmState} {bs : List MicBlock}
    (h : ∀ b ∈ bs, b.len = tlMicAdpcmUnitSize) :
    ∀ e ∈ encodeStream fir st bs, e.packet.length = micAdpcmFrameSize ∧ e.states.length = micShortDecSize := by
  induction bs generalizing st with
  | nil => simp [encodeStream]
  | cons b bs ih =>
    intro e he
    rcases List.mem_cons.mp he with rfl | he
    · have hlen : b.len = 4 * 40 := h b List.mem_cons_self
      dsimp only
      rw [hlen, micToAdpcmSplit_length, encoderStates_length]
      exact ⟨rfl, rfl⟩
    · exact ih (fun b hb => h b (List.mem_cons_of_mem _ hb)) e he

/-- Frames decoded from packets of the encoder bring its predictors. -/
theorem decoded_predictors {bs : List EncodedBlock} {frames : List (List Sample)}
    (h : List.Forall₂ DecodesTo (bs.map EncodedBlock.packet) frames)
    (hbs : ∀ e ∈ bs, e.packet.length = micAdpcmFrameSize ∧ e.states.length = micShortDecSize ∧
      ∀ mem, bytes mem 0 e.packet.length = e.packet →
        (adpcmToPcm mem e.states.length).map BitVec.toInt = e.states.map (·.predict)) :
    frames.flatten.map BitVec.toInt = bs.flatMap fun e => e.states.map (·.predict) := by
  induction bs generalizing frames with
  | nil =>
    cases h
    rfl
  | cons e bs ih =>
    obtain ⟨hlen, hstates, hdec⟩ := hbs e List.mem_cons_self
    cases h with
    | cons hpkt hrest =>
      obtain ⟨mem, hmem, rfl⟩ := hpkt
      rw [hlen, hstates] at hdec
      rw [List.flatten_cons, List.map_append, List.flatMap_cons, hdec mem hmem,
        ih hrest fun e' he' => hbs e' (List.mem_cons_of_mem _ he')]

section Run
variable (fir : Bool) (startReq : List Byte)

/-- The period goes on, and no packet comes while four wait. -/
def Plays (s : Stream) (e : StreamEv) : Prop :=
  (streamStep fir startReq s e).1.dongle.abuf.reset = 0 ∧
    ((streamStep fir startReq s e).2.taken ≠ [] → s.dongle.abuf.numMic ≤ 3)

instance (s : Stream) (e : StreamEv) : Decidable (Plays fir startReq s e) := inferInstanceAs (Decidable (_ ∧ (_ → _)))

/-- The dongle's ring in a run: what it takes and writes, and which calls that takes. -/
theorem stream_plays {s : Stream} {es : List StreamEv} (h : Legal (streamStep fir startReq) (Plays fir startReq) s es) :
    takenPackets (run (streamStep fir startReq) s es).2 =
      addedPackets (playCalls (run (streamStep fir startReq) s es).2) ∧
    writtenPcm (run (streamStep fir startReq) s es).2 =
      writtenSamples (run abufStep s.dongle.abuf (playCalls (run (streamStep fir startReq) s es).2)).2 ∧
    Legal abufStep RoomToAdd s.dongle.abuf (playCalls (run (streamStep fir startReq) s es).2) ∧
    Legal abufStep NoReset s.dongle.abuf (playCalls (run (streamStep fir startReq) s es).2) := by
  induction es generalizing s with
  | nil => exact ⟨rfl, rfl, trivial, trivial⟩
  | cons e es ih =>
    obtain ⟨⟨hreset, hroom⟩, hrest⟩ := h
    obtain ⟨htaken, hwritten, hroom', hreset'⟩ := ih hrest
    obtain ⟨habuf, htook, hwrote, hone⟩ := streamStep_played fir startReq s e
    rw [habuf] at hreset hroom' hreset' hwritten
    rw [htook] at hroom
    simp only [Refine.run, takenPackets, writtenPcm, playCalls, List.flatMap_cons, addedPackets_append, htook, hwrote]
    obtain hcalls | ⟨k, hcalls⟩ := hone
    · rw [hcalls] at hwritten hroom' hreset' ⊢
      exact ⟨htaken, hwritten, hroom', hreset'⟩
    · rw [hcalls] at hreset hroom hwritten hroom' hreset' ⊢
      have hk : RoomToAdd s.dongle.abuf k := by
        cases k with
        | micAdd p => exact hroom (List.cons_ne_nil _ _)
        | micDec => trivial
        | decUsb late => trivial
      refine ⟨congrArg _ htaken, ?_, ⟨hk, hroom'⟩, hreset, hreset'⟩
      cases k with
      | micAdd p => exact hwritten
      | micDec => exact hwritten
      | decUsb late =>
        have hsplit := congrArg ((abufDecUsb late s.dongle.abuf).2 ++ ·) hwritten
        simpa [Refine.run, abufStep, writtenSamples, writtenPcm, playCalls] using hsplit

variable (maxFrameRetries : Nat) (abuf : Abuf)

/-- **From microphone to endpoint.** After any run, from a reset of the dongle with no packet waiting to
the next one, while packets find room, the samples at the endpoint are the predictors of some of the
encoded blocks, in order, from the first packet that the dongle took on. -/
theorem voice_played {pre post : List StreamEv}
    (henv : Legal (streamStep fir startReq) LinkEnv (.powerOn maxFrameRetries abuf) (pre ++ post))
    (hreset : (run (streamStep fir startReq) (.powerOn maxFrameRetries abuf) pre).1.dongle.abuf.reset ≠ 0)
    (hempty : (run (streamStep fir startReq) (.powerOn maxFrameRetries abuf) pre).1.dongle.abuf.numMic = 0)
    (hplays : Legal (streamStep fir startReq) (Plays fir startReq)
      (run (streamStep fir startReq) (.powerOn maxFrameRetries abuf) pre).1 post) :
    let as := (run (streamStep fir startReq) (run (streamStep fir startReq) (.powerOn maxFrameRetries abuf) pre).1 post).2
    ∃ bs : List EncodedBlock,
      bs.Sublist (encodeStream fir .initial
        (encodedBlocks (run (streamStep fir startReq) (.powerOn maxFrameRetries abuf) (pre ++ post)).2)) ∧
      takenPackets as = bs.map EncodedBlock.packet ∧
      (writtenPcm as).map BitVec.toInt <+: bs.flatMap fun e => e.states.map (·.predict) := by
  obtain ⟨all, hsub, hall⟩ := voice_taken fir startReq maxFrameRetries abuf henv
  obtain ⟨htaken, hwritten, hroom, hnoReset⟩ := stream_plays fir startReq hplays
  obtain ⟨done, rest, frames, hsplit, hdec, hprefix⟩ := written_decodes hreset hempty hroom hnoReset
  have hunits := (stream_encodes fir startReq (.powerOn maxFrameRetries abuf) (pre ++ post)).units
  have hfour := encodedBlocks_units fir startReq maxFrameRetries abuf (pre ++ post)
  have hboth : takenPackets (run (streamStep fir startReq) (.powerOn maxFrameRetries abuf) (pre ++ post)).2 =
      takenPackets (run (streamStep fir startReq) (.powerOn maxFrameRetries abuf) pre).2 ++
        takenPackets (run (streamStep fir startReq) (run (streamStep fir startReq) (.powerOn maxFrameRetries abuf) pre).1 post).2 := by
    unfold takenPackets
    rw [run_answers_append, List.flatMap_append]
  obtain ⟨before, bs, rfl, -, hbs⟩ := List.map_eq_append_iff.mp (hall.symm.trans hboth)
  have hsubBs := (List.sublist_append_right before bs).trans hsub
  refine ⟨bs, hsubBs, hbs.symm, ?_⟩
  obtain ⟨played, later, rfl, hplayed, -⟩ := List.map_eq_append_iff.mp (hbs.trans (htaken.trans hsplit))
  rw [← hplayed] at hdec
  have hpredict := decoded_predictors hdec fun e he => by
    have hmem := hsubBs.subset (List.mem_append_left later he)
    obtain ⟨hlen, hstates⟩ := encodeStream_units fir hunits e hmem
    exact ⟨hlen, hstates, fun mem h => (encodeStream_decodes fir _ hfour AdpcmState.initial_inRange e hmem mem h).1⟩
  have hwrote := hprefix.map BitVec.toInt
  rw [hpredict, ← hwritten] at hwrote
  rw [List.flatMap_append]
  exact hwrote.trans (List.prefix_append ..)

/-- The calls of the endpoint until the last one of a reset. -/
def untilReset : List StreamEv := List.replicate 15 (.decUsb false)

/-- A talk that begins with the last call of a reset. A third packet is sent and all of them are decoded. -/
def heardTalk : List StreamEv :=
  .decUsb false :: (talk ++ [oneTask, .air aroundZero, .rfRxIrq 5 2] ++
    [.micDec, .micDec, .micDec, .decUsb false, .decUsb false])

theorem thirdPacket_env {s : Stream} (h : s.Inv) (hopened : s.remote.opened = false)
    (htimer : s.remote.dataReqTimeoutCb = false) :
    Legal (streamStep true []) LinkEnv s (talk ++ [oneTask, .air aroundZero, .rfRxIrq 5 2]) := by
  have htalk := talk_env h hopened htimer
  have hinv := (stream_told true [] h htalk).1
  rw [legal_append]
  generalize (run (streamStep true []) s talk).1 = s₁ at hinv
  have h₁ := (streamStep_inv true [] (e := oneTask) hinv (oneTask_env _)).1
  exact ⟨htalk, oneTask_env _, trivial, fun _ => air_heard true [] h₁ aroundZero, trivial⟩

theorem heardTalk_env : Legal (streamStep true []) LinkEnv (.powerOn 3 .zero) (untilReset ++ heardTalk) := by
  have hquiet {s : Stream} (n : Nat) : Legal (streamStep true []) LinkEnv s (List.replicate n (.decUsb false)) := by
    induction n generalizing s with
    | zero => trivial
    | succ n ih => exact ⟨trivial, ih⟩
  have hinv := (stream_told true [] (Stream.powerOn_inv 3 .zero) (hquiet 16)).1
  rw [legal_append]
  refine ⟨hquiet 15, trivial, ?_⟩
  rw [legal_append]
  exact ⟨thirdPacket_env hinv rfl rfl, trivial, trivial, trivial, trivial, trivial, trivial⟩

theorem voice_played_talk :
    let s₁ := (run (streamStep true []) (.powerOn 3 .zero) untilReset).1
    (writtenPcm (run (streamStep true []) s₁ heardTalk).2).length = 32 ∧
    ∃ bs : List EncodedBlock,
      bs.Sublist (encodeStream true .initial
        (encodedBlocks (run (streamStep true []) (.powerOn 3 .zero) (untilReset ++ heardTalk)).2)) ∧
      takenPackets (run (streamStep true []) s₁ heardTalk).2 = bs.map EncodedBlock.packet ∧
      (writtenPcm (run (streamStep true []) s₁ heardTalk).2).map BitVec.toInt <+:
        bs.flatMap fun e => e.states.map (·.predict) :=
  ⟨by decide +kernel,
    voice_played true [] 3 .zero heardTalk_env (by decide +kernel) (by decide +kernel) (by decide +kernel)⟩

end Run

end Rf4ce.Audio
