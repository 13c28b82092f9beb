import Rf4ce.Audio.DecProc
import Rf4ce.Refine.Traced

/-! What received audio frames make the dongle touch: `tl_appDataIndicate`, `tl_audioDataNotify`,
`abuf_mic_add` and `adpcm_to_pcm` with the table entries and bytes that they use. -/
namespace Rf4ce.Audio
open Crash Refine

def sizeofTlAppFrameHdr : Nat := 4

/-- The length of a `memcpy` into `mic_buf`, the index into a table, the byte of the packet that is
read, the place of the word stored to `abuf_mic` and of the sample stored to `abuf_dec`. -/
inductive RxAccess where
  | micBuf (n : Nat)
  | steptbl (i : Int)
  | idxtbl (i : Nat)
  | packet (i : Nat)
  | mic (a : Nat)
  | dec (a : Nat)
deriving DecidableEq, Repr

def RxAccess.InBounds : RxAccess → Prop
  | .micBuf n => n ≤ 128
  | .steptbl i => 0 ≤ i ∧ i ≤ 88
  | .idxtbl i => i ≤ 15
  | .packet i => i < micAdpcmFrameSize
  | .mic a => a + 4 ≤ micAdpcmFrameSize * 4
  | .dec a => a < micShortDecSize * 4

instance (a : RxAccess) : Decidable a.InBounds := by
  cases a <;> unfold RxAccess.InBounds <;> infer_instance

open Traced

/-! ### Decoding -/

/-- A byte of the packet at `mem`. -/
def readPacket (mem : Nat → Byte) (i : Nat) : Traced RxAccess Byte := do
  touch (.packet i)
  pure (mem i)

/-- The code for the next sample and `pcode`; behind the last sample it is read too. -/
def nextCode (mem : Nat → Byte) (i pcode code : Nat) : Traced RxAccess (Nat × Nat) :=
  if i % 2 = 1 then do
    let code ← readPacket mem pcode
    pure (code.toNat, pcode + 1)
  else pure (code / 16, pcode)

/-- The sample loop of `adpcm_to_pcm`, which stores from sample `pd` on. -/
def adpcmToPcmTouch (mem : Nat → Byte) : Nat → Nat → Nat → Nat → Nat → AdpcmState →
    Traced RxAccess (List Sample)
  | 0, _, _, _, _, _ => pure []
  | n + 1, i, pd, pcode, code, st => do
    touch (.steptbl st.predictIdx)
    touch (.idxtbl (code % 16))
    let st := decodeSample st code
    let next ← nextCode mem i pcode code
    touch (.dec pd)
    let rest ← adpcmToPcmTouch mem n (i + 1) (pd + 1) next.2 next.1 st
    pure (BitVec.ofInt 16 st.predict :: rest)

/-- `adpcm_to_pcm`: the words `ps[0]` and `ps[1]`, the first code and the loop. -/
def adpcmToPcmTraced (mem : Nat → Byte) (pd len : Nat) : Traced RxAccess (List Sample) := do
  let _ ← readPacket mem 0
  let _ ← readPacket mem 1
  let _ ← readPacket mem 2
  let _ ← readPacket mem 3
  let code ← readPacket mem 4
  adpcmToPcmTouch mem len 0 pd 5 code.toNat (decodeHeader mem)

/-! ### The ring of packets -/

/-- The loop of `abuf_mic_add` over words, `n` of them left. -/
def micAddWords (p : Nat → Byte) (pd : Nat) : Nat → Nat → (Nat → Byte) → Traced RxAccess (Nat → Byte)
  | 0, _, mic => pure mic
  | n + 1, i, mic => do
    touch (.mic (pd + 4 * i))
    micAddWords p pd n (i + 1) (overlay mic (fun j => p (4 * i + j)) (pd + 4 * i) 4)

def abufMicAddTraced (p : Nat → Byte) (s : Abuf) : Traced RxAccess Abuf := do
  let mic ← micAddWords p (s.micWptr.toNat % 4 * micAdpcmFrameSize) (micAdpcmFrameSize / 4) 0 s.mic
  pure { s with mic := mic, micWptr := s.micWptr + 1 }

def abufMicDecTraced (s : Abuf) : Traced RxAccess Abuf :=
  if s.reset ≠ 0 then pure { s with decWptr := s.micWptr }
  else
    let numMic := s.numMic
    let numDec := s.numDec
    let s := if numMic > 4 then { s with decWptr := s.decWptr + 1 } else s
    if numDec > 4 then pure { s with reset := 16, start := true }
    else if (!s.start && decide (numMic ≥ 1) || s.start && decide (numMic ≥ 2)) && decide (numDec ≤ 3) then do
      let slot := s.decWptr.toNat % 4
      let frame ← adpcmToPcmTraced (fun j => s.mic (slot * micAdpcmFrameSize + j)) (slot * micShortDecSize)
        micShortDecSize
      pure { s with
        dec := overlay s.dec (fun j => frame.getD j 0) (slot * micShortDecSize) micShortDecSize
        decWptr := s.decWptr + 1
        start := false }
    else pure s

/-! ### Frames -/

/-- The ring and `audio_seq_no`. -/
structure AudioRx where
  abuf : Abuf
  audioSeqNo : Byte

/-- A frame with its length byte comes in while `mic_buf` holds what is left on the stack, or one of
the two ends of the ring goes on. -/
inductive RxEvent where
  | frame (pd : Nat → Byte) (len : Byte) (stack : Nat → Byte)
  | micDec
  | decUsb (late : Bool)

def tlAudioDataNotify (pld : Nat → Byte) (len : Byte) (stack : Nat → Byte) (s : Abuf) :
    Traced RxAccess Abuf := do
  let n := u32Sub len.toNat sizeofTlAppFrameHdr
  touch (.micBuf n)
  abufMicAddTraced (overlay stack (fun i => pld (sizeofTlAppFrameHdr + i)) 0 n) s

/-- The commands that set `audio_seq_no`: `TL_CMD_AUDIO_START_REQ` and `TL_CMD_AUDIO_DATA_NOTIFY`. -/
def tlAppAudioCmdHandler (pd : Nat → Byte) (len : Byte) (stack : Nat → Byte) (s : AudioRx) :
    Traced RxAccess AudioRx :=
  let seqNo := pd 1
  let cmdId := pd 2
  if cmdId = 0x01 then pure { s with audioSeqNo := seqNo }
  else if cmdId = 0x03 then
    if s.audioSeqNo ≠ seqNo then do
      let abuf ← tlAudioDataNotify pd len stack s.abuf
      pure ⟨abuf, seqNo⟩
    else pure s
  else pure s

/-- Frames of `TL_SPECIFIC_ID_AUDIO`; others do not get here. -/
def tlAppDataIndicate (pd : Nat → Byte) (len : Byte) (stack : Nat → Byte) (s : AudioRx) :
    Traced RxAccess AudioRx :=
  if pd 0 = 0x32 then tlAppAudioCmdHandler pd len stack s else pure s

def rxEvent (s : AudioRx) : RxEvent → Traced RxAccess AudioRx
  | .frame pd len stack => tlAppDataIndicate pd len stack s
  | .micDec => do
    let abuf ← abufMicDecTraced s.abuf
    pure { s with abuf := abuf }
  | .decUsb late => pure { s with abuf := (abufDecUsb late s.abuf).1 }

def rxStep (s : AudioRx) (e : RxEvent) : AudioRx × List RxAccess := ((rxEvent s e).value, (rxEvent s e).trace)

/-! ### The calls compute as before -/

theorem adpcmToPcmTouch_value (mem : Nat → Byte) (n i pd pcode code : Nat) (st : AdpcmState) :
    (adpcmToPcmTouch mem n i pd pcode code st).value = adpcmToPcmLoop mem n i pcode code st := by
  induction n generalizing i pd pcode code st with
  | zero => rfl
  | succ n ih =>
    have hnext : (nextCode mem i pcode code).value =
        if i % 2 = 1 then ((mem pcode).toNat, pcode + 1) else (code / 16, pcode) := by
      unfold nextCode
      split_ifs
      · rfl
      · rfl
    simp only [adpcmToPcmTouch, adpcmToPcmLoop, value_bind, value_pure, ih, hnext]

theorem adpcmToPcmTraced_value (mem : Nat → Byte) (pd len : Nat) :
    (adpcmToPcmTraced mem pd len).value = adpcmToPcm mem len := adpcmToPcmTouch_value ..

theorem overlay_append {α : Type} (f g : Nat → α) (a m n : Nat) :
    overlay (overlay f g a m) (fun j => g (m + j)) (a + m) n = overlay f g a (m + n) := by
  funext x
  unfold overlay
  dsimp only
  split_ifs
  · congr 1
    omega
  all_goals first | rfl | omega

theorem micAddWords_value (p : Nat → Byte) (pd n i : Nat) (mic : Nat → Byte) :
    (micAddWords p pd n i (overlay mic p pd (4 * i))).value = overlay mic p pd (4 * (i + n)) := by
  induction n generalizing i with
  | zero => rfl
  | succ n ih =>
    have hnext := ih (i + 1)
    rw [show i + 1 + n = i + (n + 1) by omega] at hnext
    rw [← hnext]
    simp only [micAddWords, value_bind]
    rw [overlay_append]
    rfl

theorem abufMicAddTraced_value (p : Nat → Byte) (s : Abuf) : (abufMicAddTraced p s).value = abufMicAdd p s := by
  have hwords := micAddWords_value p (s.micWptr.toNat % 4 * micAdpcmFrameSize) (micAdpcmFrameSize / 4) 0 s.mic
  have hstart : overlay s.mic p (s.micWptr.toNat % 4 * micAdpcmFrameSize) (4 * 0) = s.mic := by
    funext x
    exact if_neg (by omega)
  rw [hstart] at hwords
  simp only [abufMicAddTraced, value_bind, value_pure, hwords]
  rfl

theorem abufMicDecTraced_value (s : Abuf) : (abufMicDecTraced s).value = (abufMicDec s).1 := by
  unfold abufMicDecTraced abufMicDec
  dsimp only
  split_ifs
  all_goals simp only [value_bind, value_pure, adpcmToPcmTraced_value]

/-! ### What stays in bounds -/

/-- The accesses that stay in bounds and the byte behind the packet. -/
def RxAccess.NearBounds (a : RxAccess) : Prop := a.InBounds ∨ a = .packet micAdpcmFrameSize

theorem decodeSample_inRange (st : AdpcmState) (code : Nat) : (decodeSample st code).InRange := update_inRange ..

theorem decodeHeader_predictIdx (mem : Nat → Byte) : (decodeHeader mem).predictIdx = (mem 2).toNat := by
  have hlow := (mem 2).isLt
  have hbytes : bytes mem 2 2 = [mem 2, mem 3] := rfl
  have hword : ofLe (bytes mem 2 2) % 256 = (mem 2).toNat := by
    rw [hbytes]
    simp only [ofLe]
    omega
  exact congrArg Int.ofNat hword

/-- The codes of two samples are in one byte. -/
theorem nextCode_pcode {mem : Nat → Byte} {i pcode code : Nat} (h : pcode = 5 + i / 2) :
    (nextCode mem i pcode code).value.2 = 5 + (i + 1) / 2 := by
  unfold nextCode
  split_ifs
  · change pcode + 1 = _
    omega
  · change pcode = _
    omega

/-- From a valid step index on, only the byte behind the last code lies outside. -/
theorem adpcmToPcmTouch_near {mem : Nat → Byte} {n i pd pcode code : Nat} {st : AdpcmState}
    (hpcode : pcode = 5 + i / 2) (hlen : i + n ≤ micShortDecSize) (hpd : pd + n ≤ micShortDecSize * 4)
    (hst : 0 ≤ st.predictIdx ∧ st.predictIdx ≤ 88) :
    (adpcmToPcmTouch mem n i pd pcode code st).Within RxAccess.NearBounds := by
  induction n generalizing i pd pcode code st with
  | zero => simp [adpcmToPcmTouch]
  | succ n ih =>
    have hnext := @nextCode_pcode mem i pcode code hpcode
    have hread : (nextCode mem i pcode code).Within RxAccess.NearBounds := by
      have hbyte : RxAccess.NearBounds (.packet pcode) := by
        simp only [RxAccess.NearBounds, RxAccess.InBounds, RxAccess.packet.injEq]
        unfold micShortDecSize at hlen
        unfold micAdpcmFrameSize
        omega
      unfold nextCode
      split_ifs
      · simpa [readPacket] using hbyte
      · simp
    have hcode : code % 16 ≤ 15 := Nat.le_of_lt_succ (Nat.mod_lt _ (by decide))
    simp only [adpcmToPcmTouch, within_bind, within_touch, within_pure, and_true]
    constructor
    · exact .inl hst
    constructor
    · exact .inl hcode
    constructor
    · exact hread
    constructor
    · exact .inl (show pd < _ by omega)
    · exact ih hnext (by omega) (by omega) (decodeSample_inRange st code).predictIdx

theorem adpcmToPcmTouch_first (mem : Nat → Byte) (n i pd pcode code : Nat) (st : AdpcmState) :
    .steptbl st.predictIdx ∈ (adpcmToPcmTouch mem (n + 1) i pd pcode code st).trace := by
  simp [adpcmToPcmTouch]

/-- The byte behind the last code is read whenever the loop ends behind an odd sample. -/
theorem adpcmToPcmTouch_last {mem : Nat → Byte} {n i pd pcode code : Nat} {st : AdpcmState}
    (hpcode : pcode = 5 + i / 2) (hodd : (i + n) % 2 = 1) :
    .packet (5 + (i + n) / 2) ∈ (adpcmToPcmTouch mem (n + 1) i pd pcode code st).trace := by
  induction n generalizing i pd pcode code st with
  | zero =>
    have hread : .packet pcode ∈ (nextCode mem i pcode code).trace := by
      rw [nextCode, if_pos (by omega)]
      simp [readPacket]
    subst hpcode
    simp [adpcmToPcmTouch, hread]
  | succ n ih =>
    have hnext := @nextCode_pcode mem i pcode code hpcode
    have hrest := @ih (i + 1) (pd + 1) _ (nextCode mem i pcode code).value.1 (decodeSample st code) hnext (by omega)
    rw [show i + 1 + n = i + (n + 1) by omega] at hrest
    rw [adpcmToPcmTouch]
    simp [hrest]

/-- What a decoded packet touches: the step index that it brings decides, but for the byte behind
it, which is read in any case. -/
theorem adpcmToPcmTraced_bounds (mem : Nat → Byte) {pd : Nat} (hpd : pd + micShortDecSize ≤ micShortDecSize * 4) :
    ((adpcmToPcmTraced mem pd micShortDecSize).Within RxAccess.NearBounds ↔ (mem 2).toNat ≤ 88) ∧
      .packet micAdpcmFrameSize ∈ (adpcmToPcmTraced mem pd micShortDecSize).trace := by
  have hlast := @adpcmToPcmTouch_last mem 159 0 pd 5 (mem 4).toNat (decodeHeader mem) rfl rfl
  have hidx := decodeHeader_predictIdx mem
  constructor
  swap
  · simp only [adpcmToPcmTraced, readPacket, trace_bind, value_bind, value_pure]
    exact List.mem_append_right _ (List.mem_append_right _ (List.mem_append_right _
      (List.mem_append_right _ (List.mem_append_right _ hlast))))
  have hhead {i : Nat} (hi : i < 5) : RxAccess.NearBounds (.packet i) :=
    .inl (Nat.lt_of_lt_of_le hi (by decide))
  have hrest : (adpcmToPcmTraced mem pd micShortDecSize).Within RxAccess.NearBounds ↔
      (adpcmToPcmTouch mem micShortDecSize 0 pd 5 (mem 4).toNat (decodeHeader mem)).Within RxAccess.NearBounds := by
    simp [adpcmToPcmTraced, readPacket, hhead]
  rw [hrest]
  constructor
  · intro h
    have hstep := h _ (adpcmToPcmTouch_first mem 159 0 pd 5 (mem 4).toNat (decodeHeader mem))
    obtain ⟨-, hle⟩ := hstep.resolve_right (by simp)
    omega
  · exact fun h => adpcmToPcmTouch_near rfl (by decide) hpd (by omega)

theorem micAddWords_inBounds {p : Nat → Byte} {pd n i : Nat} {mic : Nat → Byte}
    (h : n ≠ 0 → pd + 4 * (i + n) ≤ micAdpcmFrameSize * 4) : (micAddWords p pd n i mic).Within RxAccess.InBounds := by
  induction n generalizing i mic with
  | zero => simp [micAddWords]
  | succ n ih =>
    have hlast := h (by omega)
    simp only [micAddWords, within_bind, within_touch]
    constructor
    · change pd + 4 * i + 4 ≤ _
      omega
    · exact ih fun _ => by omega

theorem abufMicAddTraced_inBounds (p : Nat → Byte) (s : Abuf) :
    (abufMicAddTraced p s).Within RxAccess.InBounds := by
  simp only [abufMicAddTraced, within_bind, within_pure, and_true]
  refine micAddWords_inBounds fun _ => ?_
  unfold micAdpcmFrameSize
  omega

/-! ### When a run stays in bounds -/

/-- `abuf_mic_dec` gets to `adpcm_to_pcm`. -/
def Abuf.Decodes (s : Abuf) : Prop :=
  s.reset = 0 ∧ s.numDec ≤ 3 ∧ (if s.start then 2 else 1) ≤ s.numMic

instance (s : Abuf) : Decidable s.Decodes := inferInstanceAs (Decidable (_ ∧ _ ∧ _))

/-- The frame gets to `tl_audioDataNotify`. -/
def AudioRx.Notifies (s : AudioRx) (pd : Nat → Byte) : Prop := pd 0 = 0x32 ∧ pd 2 = 0x03 ∧ s.audioSeqNo ≠ pd 1

instance (s : AudioRx) (pd : Nat → Byte) : Decidable (s.Notifies pd) := inferInstanceAs (Decidable (_ ∧ _ ∧ _))

/-- Audio data has at least its header and at most 128 bytes more, and no packet is decoded. -/
def Harmless (s : AudioRx) : RxEvent → Prop
  | .frame pd len _ => s.Notifies pd → 4 ≤ len.toNat ∧ len.toNat ≤ 132
  | .micDec => ¬ s.abuf.Decodes
  | .decUsb _ => True

theorem tlAudioDataNotify_inBounds_iff (pld : Nat → Byte) (len : Byte) (stack : Nat → Byte) (s : Abuf) :
    (tlAudioDataNotify pld len stack s).Within RxAccess.InBounds ↔ 4 ≤ len.toNat ∧ len.toNat ≤ 132 := by
  have hlen := len.isLt
  simp only [tlAudioDataNotify, within_bind, within_touch, abufMicAddTraced_inBounds, and_true]
  change u32Sub len.toNat 4 ≤ 128 ↔ _
  unfold u32Sub u32
  omega

theorem tlAppDataIndicate_inBounds_iff (pd : Nat → Byte) (len : Byte) (stack : Nat → Byte) (s : AudioRx) :
    (tlAppDataIndicate pd len stack s).Within RxAccess.InBounds ↔
      (s.Notifies pd → 4 ≤ len.toNat ∧ len.toNat ≤ 132) := by
  have hquiet (h : ¬ s.Notifies pd) : (pure s : Traced RxAccess AudioRx).Within RxAccess.InBounds ↔
      (s.Notifies pd → 4 ≤ len.toNat ∧ len.toNat ≤ 132) :=
    iff_of_true ((within_pure s).mpr trivial) fun hnotify => absurd hnotify h
  unfold tlAppDataIndicate tlAppAudioCmdHandler
  dsimp only
  split_ifs with happ hstart hcmd hseq
  · apply iff_of_true ((within_pure _).mpr trivial)
    intro hnotify
    rw [hnotify.2.1] at hstart
    exact absurd hstart (by decide)
  · have hnotify : s.Notifies pd := ⟨happ, hcmd, hseq⟩
    simp only [within_bind, within_pure, and_true, tlAudioDataNotify_inBounds_iff]
    exact (imp_iff_right hnotify).symm
  · exact hquiet fun hnotify => hseq hnotify.2.2
  · exact hquiet fun hnotify => hcmd hnotify.2.1
  · exact hquiet fun hnotify => happ hnotify.1

/-- No packet is decoded within bounds. -/
theorem abufMicDecTraced_inBounds_iff (s : Abuf) :
    (abufMicDecTraced s).Within RxAccess.InBounds ↔ ¬ s.Decodes := by
  have hbyte : ¬ RxAccess.InBounds (.packet micAdpcmFrameSize) := Nat.lt_irrefl _
  have hskip : (if s.numMic > 4 then { s with decWptr := s.decWptr + 1 } else s).start = s.start := by
    split_ifs
    · rfl
    · rfl
  unfold abufMicDecTraced
  dsimp only
  generalize (if s.numMic > 4 then { s with decWptr := s.decWptr + 1 } else s) = t at hskip
  have hready : ((!t.start && decide (s.numMic ≥ 1) || t.start && decide (s.numMic ≥ 2)) && decide (s.numDec ≤ 3)) = true ↔
      (if s.start then 2 else 1) ≤ s.numMic ∧ s.numDec ≤ 3 := by
    rw [hskip]
    cases s.start <;> simp
  by_cases hreset : s.reset ≠ 0
  · rw [if_pos hreset, within_pure]
    exact iff_of_true trivial fun hdec => hreset hdec.1
  rw [if_neg hreset]
  by_cases hfull : s.numDec > 4
  · rw [if_pos hfull, within_pure]
    exact iff_of_true trivial fun hdec => absurd hdec.2.1 (by omega)
  rw [if_neg hfull]
  by_cases hgo : (if s.start then 2 else 1) ≤ s.numMic ∧ s.numDec ≤ 3
  · have hslot : t.decWptr.toNat % 4 * micShortDecSize + micShortDecSize ≤ micShortDecSize * 4 := by
      unfold micShortDecSize
      omega
    have hlast := (adpcmToPcmTraced_bounds (fun j => t.mic (t.decWptr.toNat % 4 * micAdpcmFrameSize + j)) hslot).2
    rw [if_pos (hready.mpr hgo), within_bind]
    apply iff_of_false
    · exact fun hall => hbyte (hall.1 _ hlast)
    · exact not_not_intro ⟨not_not.mp hreset, hgo.2, hgo.1⟩
  · rw [if_neg fun h => hgo (hready.mp h), within_pure]
    exact iff_of_true trivial fun hdec => hgo ⟨hdec.2.2, hdec.2.1⟩

theorem rxStep_inBounds_iff (s : AudioRx) (e : RxEvent) :
    (∀ a ∈ (rxStep s e).2, a.InBounds) ↔ Harmless s e := by
  cases e with
  | frame pd len stack => exact tlAppDataIndicate_inBounds_iff pd len stack s
  | micDec =>
    have hdec := abufMicDecTraced_inBounds_iff s.abuf
    rw [Harmless, ← hdec]
    change (rxEvent s .micDec).Within RxAccess.InBounds ↔ _
    simp [rxEvent]
  | decUsb late => simp [rxStep, rxEvent, Harmless]

/-- **Received audio.** A run of frames, decoder calls and USB periods stays in bounds if and only if
every frame that gets to `tl_audioDataNotify` has a length from 4 to 132 and no packet is decoded. -/
theorem audioRx_inBounds_iff (s : AudioRx) (es : List RxEvent) :
    (∀ as ∈ (Refine.run rxStep s es).2, ∀ a ∈ as, a.InBounds) ↔ Legal rxStep Harmless s es := by
  have hall : Legal rxStep (fun _ _ => True) s es := legal_forall.mpr fun _ _ => trivial
  rw [answers_iff]
  exact legal_iff (I := fun _ => True) (fun s e _ _ => rxStep_inBounds_iff s e) (fun _ _ _ _ _ => trivial) trivial hall

/-- A data notification with sequence number `seqNo` whose packet brings step index 200. -/
def audioFrame (seqNo : Byte) : Nat → Byte := fun i => ([0x32, seqNo, 0x03, 84, 0, 0, 200] : List Byte).getD i 0

/-- After power-on: a frame of 3 bytes, one of 133 bytes, and two frames of 88 bytes that are
decoded with a step index and a byte that are not there. -/
theorem audioRx_inBounds_fails :
    let s : AudioRx := ⟨.zero, 0⟩
    let frame (seqNo len : Byte) := RxEvent.frame (audioFrame seqNo) len fun _ => 0
    .micBuf 4294967295 ∈ (rxStep s (frame 1 3)).2 ∧ .micBuf 129 ∈ (rxStep s (frame 1 133)).2 ∧
      .steptbl 200 ∈ (rxStep (Refine.run rxStep s [frame 1 88, frame 2 88]).1 .micDec).2 ∧
      .packet 84 ∈ (rxStep (Refine.run rxStep s [frame 1 88, frame 2 88]).1 .micDec).2 ∧
      ¬ ∀ as ∈ (Refine.run rxStep s [frame 1 88, frame 2 88, .micDec]).2, ∀ a ∈ as, a.InBounds := by
  decide +kernel

end Rf4ce.Audio
