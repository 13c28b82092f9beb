import Rf4ce.Audio.Adpcm
import Rf4ce.Refine.Lossy

/-! The packet ring of the recorder, `audio_rec_proc.c` on the 8258: the encoder appends packets
under free-running `u8` pointers, and the sender takes them out. -/
namespace Rf4ce.Audio
open Crash Refine

def tlMicPacketBufferNum : Nat := 32
def tlMicAdpcmUnitSize : Nat := 160
def bufferMicThreshold : Int := 20

/-- `TL_MIC_BUFFER_SIZE`; `fir` is `TL_MIC_32K_FIR_16K`. -/
def tlMicBufferSize (fir : Bool) : Nat := if fir then 80 * 8 * 2 else 80 * 8

/-- `buffer_mic_enc` and the variables of the encoder and the sender. -/
structure MicRing where
  bufferMicRptr : BitVec 16
  bufferMicEnc : Nat → Byte
  pktWptr : BitVec 8
  pktRptr : BitVec 8
  adpcm : AdpcmState
  audioDelayTimes : Int

def MicRing.initial : MicRing where
  bufferMicRptr := 0
  bufferMicEnc _ := 0
  pktWptr := 0
  pktRptr := 0
  adpcm := .initial
  audioDelayTimes := 0

/-- `(ADPCM_PACKET_LEN >> 2) * (ptr & (TL_MIC_PACKET_BUFFER_NUM - 1))`, in bytes. -/
def packetAddr (ptr : BitVec 8) : Nat := adpcmPacketLen * (ptr.toNat % tlMicPacketBufferNum)

/-- What a call did to the ring, and the number of retries that a read sets. -/
structure MicAns where
  events : List (LossyEvent (List Byte))
  retries : Option Nat

/-- `pkts` of `proc_mic_encoder_82x8`, an `int` -/
def micPkts (wptr rptr : BitVec 8) : Int :=
  ((wptr.toNat : Int) - rptr.toNat) % (tlMicPacketBufferNum * 2 : Nat)

/-- `proc_mic_encoder_82x8`; `micWptr` is `reg_audio_wptr` and `bufferMic` what the converter stored. -/
def procMicEncoder82x8 (fir : Bool) (micWptr : BitVec 16) (bufferMic : Nat → BitVec 16) (s : MicRing) :
    MicRing × MicAns :=
  let l := if micWptr ≥ s.bufferMicRptr then (micWptr - s.bufferMicRptr).toNat else 0xffff
  if l ≥ tlMicBufferSize fir / 2 then
    let ps := fun i => bufferMic (s.bufferMicRptr.toNat / 2 + i)
    let pkt := micToAdpcmSplit fir ps tlMicAdpcmUnitSize s.adpcm
    let wptr := s.pktWptr + 1
    ({ s with
        bufferMicRptr := if s.bufferMicRptr ≠ 0 then 0 else BitVec.ofNat 16 (tlMicBufferSize fir / 2)
        bufferMicEnc := storeBytes s.bufferMicEnc (packetAddr s.pktWptr) pkt.1
        adpcm := pkt.2
        pktWptr := wptr
        pktRptr := if micPkts wptr s.pktRptr > tlMicPacketBufferNum then s.pktRptr + 1 else s.pktRptr
        audioDelayTimes := if s.audioDelayTimes > 0 then s.audioDelayTimes - 1 else s.audioDelayTimes },
      ⟨[.pushed pkt.1], none⟩)
  else (s, ⟨[], none⟩)

/-- `mic_encoder_data_buffer`, with the packet that its result points to. -/
def micEncoderDataBuffer (s : MicRing) : MicRing × MicAns :=
  if s.pktRptr = s.pktWptr then (s, ⟨[.popped none], none⟩)
  else
    let retries := if (s.pktWptr - s.pktRptr).toInt > bufferMicThreshold then 1 else 3
    ({ s with pktRptr := s.pktRptr + 1 },
      ⟨[.popped (some (bytes s.bufferMicEnc (packetAddr s.pktRptr) adpcmPacketLen))], some retries⟩)

inductive MicCall where
  | encode (micWptr : BitVec 16) (bufferMic : Nat → BitVec 16)
  | read

def micStep (fir : Bool) (s : MicRing) : MicCall → MicRing × MicAns
  | .encode micWptr bufferMic => procMicEncoder82x8 fir micWptr bufferMic s
  | .read => micEncoderDataBuffer s

/-! ### The ring is a queue that drops its oldest packet -/

/-- Packet `k` of `buffer_mic_enc`. -/
def packetSlot (enc : Nat → Byte) (k : Nat) : List Byte := bytes enc (adpcmPacketLen * k) adpcmPacketLen

def MicRep (s : MicRing) (g : Lossy (List Byte)) : Prop :=
  LossyRep 32 256 (packetSlot s.bufferMicEnc) s.pktRptr.toNat s.pktWptr.toNat g

theorem MicRep.distance {s : MicRing} {g : Lossy (List Byte)} (h : MicRep s g) :
    (s.pktWptr - s.pktRptr).toNat = g.unread.length := by
  have hcount := h.ring.count (by decide)
  have hr := s.pktRptr.isLt
  rw [BitVec.toNat_sub]
  omega

/-- The test with the mask `2N - 1` counts the unread packets. -/
theorem MicRep.pkts {s : MicRing} {g : Lossy (List Byte)} (h : MicRep s g) :
    micPkts (s.pktWptr + 1) s.pktRptr = g.unread.length + 1 := by
  have hcount := h.ring.count (by decide)
  have hlen := h.length_le
  have hr := s.pktRptr.isLt
  have hw := s.pktWptr.isLt
  unfold micPkts tlMicPacketBufferNum
  rw [BitVec.toNat_add, show (1 : BitVec 8).toNat = 1 from rfl]
  omega

theorem packetSlot_store (enc : Nat → Byte) (k : Nat) {p : List Byte} (hp : p.length = adpcmPacketLen) :
    packetSlot (storeBytes enc (adpcmPacketLen * k) p) k = p := by
  unfold packetSlot
  rw [← hp]
  exact bytes_storeBytes ..

theorem packetSlot_other (enc : Nat → Byte) {j k : Nat} (hne : j ≠ k) {p : List Byte}
    (hp : p.length = adpcmPacketLen) :
    packetSlot (storeBytes enc (adpcmPacketLen * k) p) j = packetSlot enc j := by
  refine bytes_congr fun x hlo hhi => storeBytes_outside ?_
  rw [hp]
  unfold adpcmPacketLen at hlo hhi ⊢
  omega

theorem procMicEncoder82x8_rep (fir : Bool) (micWptr : BitVec 16) (bufferMic : Nat → BitVec 16)
    {s : MicRing} {g : Lossy (List Byte)} (h : MicRep s g) :
    ∃ g', Lossy.Steps 32 g (procMicEncoder82x8 fir micWptr bufferMic s).2.events g' ∧
      MicRep (procMicEncoder82x8 fir micWptr bufferMic s).1 g' := by
  unfold procMicEncoder82x8
  dsimp only
  by_cases hready : (if micWptr ≥ s.bufferMicRptr then (micWptr - s.bufferMicRptr).toNat else 0xffff) ≥
      tlMicBufferSize fir / 2
  · rw [if_pos hready]
    have hlen (ps : Nat → BitVec 16) : (micToAdpcmSplit fir ps tlMicAdpcmUnitSize s.adpcm).1.length = adpcmPacketLen :=
      micToAdpcmSplit_length fir ps 40 s.adpcm
    generalize hpkt : micToAdpcmSplit fir _ tlMicAdpcmUnitSize s.adpcm = pkt
    have hlen : pkt.1.length = adpcmPacketLen := by
      rw [← hpkt]
      exact hlen _
    refine ⟨g.push 32 pkt.1, .single (.push g pkt.1), ?_⟩
    have hrptr : (if micPkts (s.pktWptr + 1) s.pktRptr > tlMicPacketBufferNum then s.pktRptr + 1
        else s.pktRptr).toNat = if g.unread.length < 32 then s.pktRptr.toNat else (s.pktRptr.toNat + 1) % 256 := by
      rw [h.pkts]
      unfold tlMicPacketBufferNum
      by_cases hlt : g.unread.length < 32
      · rw [if_neg (by omega), if_pos hlt]
      · rw [if_pos (by omega), if_neg hlt, BitVec.toNat_add]
        rfl
    have hwptr : (s.pktWptr + 1).toNat = (s.pktWptr.toNat + 1) % 256 := BitVec.toNat_add ..
    unfold MicRep
    dsimp only
    rw [hrptr, hwptr]
    exact h.push (by decide) (by decide) (packetSlot_store _ _ hlen) fun k _ hk => packetSlot_other _ hk hlen
  · rw [if_neg hready]
    exact ⟨g, .nil g, h⟩

theorem micEncoderDataBuffer_rep {s : MicRing} {g : Lossy (List Byte)} (h : MicRep s g) :
    ∃ g', Lossy.Steps 32 g (micEncoderDataBuffer s).2.events g' ∧ MicRep (micEncoderDataBuffer s).1 g' := by
  unfold micEncoderDataBuffer
  have hstep := Lossy.Step.pop (n := 32) g
  by_cases hempty : s.pktRptr = s.pktWptr
  · rw [if_pos hempty]
    have hnil : g.unread = [] := (h.ring.eq_iff (by decide)).mp (by rw [hempty])
    rw [Lossy.pop, if_pos hnil, hnil] at hstep
    exact ⟨g, .single hstep, h⟩
  · rw [if_neg hempty]
    have hne : g.unread ≠ [] := by
      intro hnil
      exact hempty (BitVec.eq_of_toNat_eq ((h.ring.eq_iff (by decide)).mpr hnil))
    obtain ⟨hhead, hrep⟩ := h.pop (by decide) hne
    rw [hhead] at hstep
    refine ⟨g.pop, .single hstep, ?_⟩
    have hrptr : (s.pktRptr + 1).toNat = (s.pktRptr.toNat + 1) % 256 := BitVec.toNat_add ..
    unfold MicRep
    dsimp only
    rw [hrptr]
    exact hrep

theorem micStep_rep (fir : Bool) (s : MicRing) (k : MicCall) (g : Lossy (List Byte)) (h : MicRep s g) :
    ∃ g', Lossy.Steps 32 g (micStep fir s k).2.events g' ∧ MicRep (micStep fir s k).1 g' := by
  cases k with
  | encode micWptr bufferMic => exact procMicEncoder82x8_rep fir micWptr bufferMic h
  | read => exact micEncoderDataBuffer_rep h

/-- In every run the packets come out as from a queue that keeps the newest
`TL_MIC_PACKET_BUFFER_NUM`, and no more than these lie between the pointers. -/
theorem micRing_lossy (fir : Bool) (ks : List MicCall) :
    LossyTrace tlMicPacketBufferNum ((run (micStep fir) .initial ks).2.flatMap MicAns.events) ∧
    ((run (micStep fir) .initial ks).1.pktWptr - (run (micStep fir) .initial ks).1.pktRptr).toNat ≤
      tlMicPacketBufferNum := by
  have hempty : MicRep .initial .empty := LossyRep.empty 32 256 _
  obtain ⟨g, hsteps, hg⟩ := lossy_run (fun s k g h => micStep_rep fir s k g h) hempty ks
  constructor
  · exact hsteps.trace (by decide)
  · rw [hg.distance]
    exact hg.length_le

end Rf4ce.Audio
