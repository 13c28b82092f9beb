import Rf4ce.Drv.UsbUart
import Rf4ce.Os.EvBuffer

/-! Receiving over USB-CDC, `usbcdc.c`: a message arrives in packets and is collected in a buffer
of the application until a short packet or a timer ends it. -/
namespace Rf4ce.Drv
open Crash Refine

/-- The receiving part of `cdc_ctrl_t`, and the memory. -/
structure CdcRx where
  rxBuf : Option Nat
  lastIndex : BitVec 8
  rxTimer : Bool
  mem : Nat → Byte

/-- The buffers passed to `rxCb`, and the indices of `rxBuf` that were stored to. -/
structure CdcAns where
  rxCb : List (Option Nat)
  stores : List Nat

def usbcdcInit (s : CdcRx) : CdcRx := { s with lastIndex := 0 }

def usbcdcSetRxBuf (buf : Nat) (s : CdcRx) : CdcRx := { s with rxBuf := some buf }

def usbcdcRecvTimeoutCb (s : CdcRx) : CdcRx × CdcAns :=
  ({ s with lastIndex := 0, rxBuf := none, rxTimer := false }, ⟨[s.rxBuf], []⟩)

/-- The loop of `usbcdc_recvData`: the memory, `lastIndex` and the indices stored to. -/
def recvBytes (rxBuf : Nat) : List Byte → (Nat → Byte) → BitVec 8 → (Nat → Byte) × BitVec 8 × List Nat
  | [], mem, i => (mem, i, [])
  | b :: bs, mem, i =>
    let r := recvBytes rxBuf bs (Function.update mem (rxBuf + i.toNat) b) (i + 1)
    (r.1, r.2.1, i.toNat :: r.2.2)

/-- `usbcdc_recvData` with the packet in the endpoint; without a buffer it does not return. -/
def usbcdcRecvData (pkt : List Byte) (s : CdcRx) : Option (CdcRx × CdcAns) :=
  match s.rxBuf with
  | none => none
  | some p =>
    let r := recvBytes p pkt s.mem s.lastIndex
    if pkt.length = cdcTxrxEpsize then some ({ s with lastIndex := r.2.1, rxTimer := true, mem := r.1 }, ⟨[], r.2.2⟩)
    else some ({ rxBuf := none, lastIndex := 0, rxTimer := false, mem := r.1 }, ⟨[some p], r.2.2⟩)

/-- A message as the host sends it, and the buffer that waits for it; without a last packet the
timer ends it. -/
structure CdcMessage where
  buf : Nat
  full : List (List Byte)
  last : Option (List Byte)

def CdcMessage.bytes (m : CdcMessage) : List Byte := m.full.flatten ++ m.last.getD []

structure CdcMessage.Valid (m : CdcMessage) : Prop where
  full : ∀ pkt ∈ m.full, pkt.length = cdcTxrxEpsize
  last : ∀ pkt ∈ m.last, pkt.length < cdcTxrxEpsize
  size : m.bytes.length ≤ Os.bufferSize

def cdcDeliver : List (List Byte) → Option (List Byte) → CdcRx → Option (CdcRx × CdcAns)
  | [], none, s => some (usbcdcRecvTimeoutCb s)
  | [], some pkt, s => usbcdcRecvData pkt s
  | pkt :: pkts, last, s =>
    (usbcdcRecvData pkt s).bind fun r =>
      (cdcDeliver pkts last r.1).map fun r' =>
        (r'.1, ⟨r.2.rxCb ++ r'.2.rxCb, r.2.stores ++ r'.2.stores⟩)

/-- One message of a session; `none` as the answer if the device hangs. -/
def cdcStep (s : CdcRx) (m : CdcMessage) : CdcRx × Option CdcAns :=
  match cdcDeliver m.full m.last (usbcdcSetRxBuf m.buf s) with
  | some r => (r.1, some r.2)
  | none => (s, none)

/-- The message is handed over once, whole and from the start of the buffer; the index is 0 again,
and nothing was stored outside the buffer. -/
def Reassembled (s : CdcRx) (m : CdcMessage) : Prop :=
  ∃ ans, (cdcStep s m).2 = some ans ∧ ans.rxCb = [some m.buf] ∧
    bytes (cdcStep s m).1.mem m.buf m.bytes.length = m.bytes ∧
    (cdcStep s m).1.lastIndex = 0 ∧ ∀ i ∈ ans.stores, i < Os.bufferSize

/-- The bytes behind the first 256 repeat the first ones and are in the buffer already. -/
def TailInPlace (s : CdcRx) (m : CdcMessage) : Prop :=
  ∀ k, 256 + k < m.bytes.length →
    m.bytes[256 + k]? = m.bytes[k]? ∧ m.bytes[256 + k]? = some (s.mem (m.buf + (256 + k)))

/-! ### What a message leaves behind -/

theorem recvBytes_append (p : Nat) (as bs : List Byte) (mem : Nat → Byte) (i : BitVec 8) :
    recvBytes p (as ++ bs) mem i =
      let r := recvBytes p as mem i
      let r' := recvBytes p bs r.1 r.2.1
      (r'.1, r'.2.1, r.2.2 ++ r'.2.2) := by
  induction as generalizing mem i with
  | nil => rfl
  | cons a as ih => simp only [List.cons_append, recvBytes, ih]

theorem recvBytes_index (p : Nat) (bs : List Byte) (mem : Nat → Byte) (i : BitVec 8) :
    (recvBytes p bs mem i).2.1 = i + BitVec.ofNat 8 bs.length := by
  induction bs generalizing mem i with
  | nil => simp [recvBytes]
  | cons b bs ih =>
    have hone : BitVec.ofNat 8 (bs.length + 1) = 1 + BitVec.ofNat 8 bs.length := by
      rw [Nat.add_comm, BitVec.ofNat_add]
      rfl
    simp only [recvBytes, ih, List.length_cons, hone, BitVec.add_assoc]

theorem recvBytes_stores (p : Nat) (bs : List Byte) (mem : Nat → Byte) (i : BitVec 8) :
    ∀ j ∈ (recvBytes p bs mem i).2.2, j < 256 := by
  induction bs generalizing mem i with
  | nil => simp [recvBytes]
  | cons b bs ih =>
    intro j hj
    rcases List.mem_cons.mp hj with rfl | hj
    · exact i.isLt
    · exact ih _ _ j hj

/-- Up to the wrap of the index the bytes are stored one after the other. -/
theorem recvBytes_mem {p : Nat} {bs : List Byte} {mem : Nat → Byte} {i : BitVec 8}
    (h : i.toNat + bs.length ≤ 256) : (recvBytes p bs mem i).1 = storeBytes mem (p + i.toNat) bs := by
  induction bs generalizing mem i with
  | nil => simp [recvBytes]
  | cons b bs ih =>
    rw [List.length_cons] at h
    rw [storeBytes_cons]
    simp only [recvBytes]
    cases bs with
    | nil => simp [recvBytes]
    | cons c cs =>
      rw [List.length_cons] at h
      have hnext : (i + 1).toNat = i.toNat + 1 := by
        rw [BitVec.toNat_add, show (1 : BitVec 8).toNat = 1 from rfl]
        omega
      rw [ih (by rw [hnext, List.length_cons]; omega), hnext, Nat.add_assoc]

/-- What lies beyond 256 bytes goes to the start of the buffer again. -/
theorem recvBytes_mem_wrap {p : Nat} {bs : List Byte} {mem : Nat → Byte} (h : bs.length ≤ 512) :
    (recvBytes p bs mem 0).1 = storeBytes (storeBytes mem p (bs.take 256)) p (bs.drop 256) := by
  have hfirst : (recvBytes p (bs.take 256) mem 0).1 = storeBytes mem p (bs.take 256) := by
    have hfits : (0 : BitVec 8).toNat + (bs.take 256).length ≤ 256 := by simp
    rw [recvBytes_mem hfits]
    rfl
  conv => lhs; rw [← List.take_append_drop 256 bs]
  rw [recvBytes_append]
  dsimp only
  rw [recvBytes_index, hfirst]
  by_cases hlong : bs.length ≤ 256
  · rw [List.drop_eq_nil_of_le hlong, storeBytes_nil]
    rfl
  · have hlen : (bs.take 256).length = 256 := by
      rw [List.length_take]
      omega
    have hwrap : (0 : BitVec 8) + BitVec.ofNat 8 256 = 0 := rfl
    have hzero : (0 : BitVec 8).toNat = 0 := rfl
    rw [hlen, hwrap, recvBytes_mem (by rw [List.length_drop, hzero]; omega)]
    simp

/-- The memory after a message holds it exactly when the bytes that wrapped were in place. -/
theorem recvBytes_mem_iff {p : Nat} {bs : List Byte} {mem : Nat → Byte} (h : bs.length ≤ 512) :
    bytes (recvBytes p bs mem 0).1 p bs.length = bs ↔
      ∀ k, 256 + k < bs.length → bs[256 + k]? = bs[k]? ∧ bs[256 + k]? = some (mem (p + (256 + k))) := by
  have hmem (i : Nat) : (recvBytes p bs mem 0).1 (p + i) =
      (bs[256 + i]?).getD ((bs.take 256)[i]?.getD (mem (p + i))) := by
    rw [recvBytes_mem_wrap h, storeBytes_apply, storeBytes_apply, List.getElem?_drop]
  rw [bytes_eq_iff]
  constructor
  · intro hbytes k hk
    have hlow := hbytes k (by omega)
    have hhigh := hbytes (256 + k) hk
    rw [hmem, List.getElem?_eq_getElem hk, Option.getD_some] at hlow
    rw [hmem, List.getElem?_eq_none (by omega), List.getElem?_eq_none (by simp)] at hhigh
    rw [List.getElem?_eq_getElem hk, List.getElem?_eq_getElem (show k < bs.length by omega)]
    exact ⟨congrArg some hlow, congrArg some hhigh.symm⟩
  · intro htail i hi
    apply Option.some.inj
    rw [← List.getElem?_eq_getElem hi, hmem]
    by_cases hwrap : 256 + i < bs.length
    · rw [← (htail i hwrap).1, List.getElem?_eq_getElem hwrap]
      rfl
    · rw [List.getElem?_eq_none (by omega), Option.getD_none, List.getElem?_take]
      by_cases hfirst : i < 256
      · rw [if_pos hfirst, List.getElem?_eq_getElem hi]
        rfl
      · obtain ⟨k, rfl⟩ := Nat.exists_eq_add_of_le (Nat.not_lt.mp hfirst)
        rw [if_neg hfirst, (htail k hi).2]
        rfl

/-- The packets of a message are stored as one piece. -/
theorem cdcDeliver_eq {full : List (List Byte)} {last : Option (List Byte)} {s : CdcRx} {p : Nat}
    (hfull : ∀ pkt ∈ full, pkt.length = cdcTxrxEpsize) (hlast : ∀ pkt ∈ last, pkt.length < cdcTxrxEpsize)
    (hbuf : s.rxBuf = some p) :
    cdcDeliver full last s =
      let r := recvBytes p (full.flatten ++ last.getD []) s.mem s.lastIndex
      some (⟨none, 0, false, r.1⟩, ⟨[some p], r.2.2⟩) := by
  induction full generalizing s with
  | nil =>
    cases last with
    | none => simp [cdcDeliver, usbcdcRecvTimeoutCb, recvBytes, hbuf]
    | some pkt =>
      have hshort := hlast pkt rfl
      simp [cdcDeliver, usbcdcRecvData, hbuf, Nat.ne_of_lt hshort]
  | cons pkt pkts ih =>
    have hpkt := hfull pkt (List.mem_cons_self ..)
    have hrecv : usbcdcRecvData pkt s = some ({ s with
        lastIndex := (recvBytes p pkt s.mem s.lastIndex).2.1
        rxTimer := true
        mem := (recvBytes p pkt s.mem s.lastIndex).1 }, ⟨[], (recvBytes p pkt s.mem s.lastIndex).2.2⟩) := by
      simp [usbcdcRecvData, hbuf, hpkt]
    have hrest := ih (s := { s with
        lastIndex := (recvBytes p pkt s.mem s.lastIndex).2.1
        rxTimer := true
        mem := (recvBytes p pkt s.mem s.lastIndex).1 }) (fun pkt' h => hfull pkt' (List.mem_cons_of_mem _ h)) hbuf
    rw [cdcDeliver, hrecv, Option.bind_some]
    dsimp only
    rw [hrest]
    simp only [List.flatten_cons, List.append_assoc, recvBytes_append]
    rfl

theorem cdcStep_eq {s : CdcRx} {m : CdcMessage} (hm : m.Valid) :
    cdcStep s m =
      (⟨none, 0, false, (recvBytes m.buf m.bytes s.mem s.lastIndex).1⟩,
        some ⟨[some m.buf], (recvBytes m.buf m.bytes s.mem s.lastIndex).2.2⟩) := by
  have h := cdcDeliver_eq (s := usbcdcSetRxBuf m.buf s) hm.full hm.last rfl
  unfold cdcStep
  rw [h]
  rfl

theorem reassembled_iff {s : CdcRx} {m : CdcMessage} (hs : s.lastIndex = 0) (hm : m.Valid) :
    Reassembled s m ↔ TailInPlace s m := by
  have hsize := hm.size
  unfold Os.bufferSize at hsize
  unfold Reassembled TailInPlace
  rw [cdcStep_eq hm, hs, ← recvBytes_mem_iff (by omega)]
  constructor
  · rintro ⟨ans, -, -, hbytes, -⟩
    exact hbytes
  · intro hbytes
    refine ⟨_, rfl, rfl, hbytes, rfl, fun i hi => ?_⟩
    exact Nat.lt_trans (recvBytes_stores m.buf m.bytes s.mem 0 i hi) (by decide)

theorem cdcSession_lastIndex (s : CdcRx) {ms : List CdcMessage} (hms : ∀ m ∈ ms, m.Valid) :
    (run cdcStep (usbcdcInit s) ms).1.lastIndex = 0 := by
  have hlegal : Legal cdcStep (fun _ m => m.Valid) (usbcdcInit s) ms := legal_forall.mpr hms
  refine run_invariant (I := fun s => s.lastIndex = 0) (fun s m _ hm => ?_) rfl hlegal
  rw [cdcStep_eq hm]

/-- After any session, the next message is reassembled exactly if it has no tail behind byte 256 that
was not in place. -/
theorem usbcdc_reassembled_iff (s : CdcRx) (ms : List CdcMessage) (hms : ∀ m ∈ ms, m.Valid) (m : CdcMessage)
    (hm : m.Valid) :
    Reassembled (run cdcStep (usbcdcInit s) ms).1 m ↔ TailInPlace (run cdcStep (usbcdcInit s) ms).1 m :=
  reassembled_iff (cdcSession_lastIndex s hms) hm

def CdcRx.initial : CdcRx := ⟨none, 0, false, fun _ => 0⟩

/-- A message of three bytes after one of 64 that the timer ended. -/
theorem usbcdc_reassembled_short :
    Reassembled (run cdcStep (usbcdcInit .initial) [⟨0x1000, [List.replicate 64 7], none⟩]).1
      ⟨0x2000, [], some [1, 2, 3]⟩ := by
  refine (usbcdc_reassembled_iff .initial _ ?_ _ ?_).mpr ?_
  · intro m hm
    rw [List.mem_singleton.mp hm]
    exact ⟨by decide, by simp, by decide⟩
  · exact ⟨by simp, by simp [cdcTxrxEpsize], by decide⟩
  · intro k hk
    simp [CdcMessage.bytes] at hk
    omega

/-- 256 zeros and a one. -/
def cdcLongMessage : CdcMessage := ⟨0x1000, List.replicate 4 (List.replicate 64 0), some [1]⟩

theorem cdcLongMessage_bytes : cdcLongMessage.bytes = List.replicate 256 0 ++ [1] := by
  simp only [CdcMessage.bytes, cdcLongMessage, List.flatten_replicate_replicate, Option.getD_some]

theorem cdcLongMessage_valid : cdcLongMessage.Valid := by
  constructor
  · intro pkt hpkt
    rw [List.eq_of_mem_replicate hpkt, List.length_replicate]
    rfl
  · intro pkt hpkt
    rw [← Option.some.inj hpkt]
    decide
  · rw [cdcLongMessage_bytes, List.length_append, List.length_replicate]
    decide

/-- Its last byte replaces the first one. -/
theorem usbcdc_reassembled_fails :
    cdcLongMessage.Valid ∧ ¬Reassembled (usbcdcInit .initial) cdcLongMessage := by
  refine ⟨cdcLongMessage_valid, ?_⟩
  rw [reassembled_iff rfl cdcLongMessage_valid]
  intro htail
  have hlen : cdcLongMessage.bytes.length = 257 := by
    rw [cdcLongMessage_bytes, List.length_append, List.length_replicate]
    rfl
  have hlast := (htail 0 (by omega)).1
  rw [cdcLongMessage_bytes, List.getElem?_append_right (by rw [List.length_replicate]),
    List.getElem?_append_left (by rw [List.length_replicate]; decide), List.length_replicate,
    List.getElem?_replicate_of_lt (by decide)] at hlast
  exact absurd hlast (by decide)

end Rf4ce.Drv
