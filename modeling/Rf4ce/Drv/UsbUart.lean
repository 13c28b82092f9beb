import Rf4ce.Os.TimerHandle
import Rf4ce.Refine.Ledger
import Rf4ce.Refine.Run
import Mathlib.Data.List.Pairwise

/-! The transmit path of `usb_uart.c` and `usbcdc.c`: a buffer goes to the endpoint at once or waits
in a queue of three, in bulks of 64 bytes that interrupts continue and a timer cuts off. -/
namespace Rf4ce.Drv
open Os Refine

inductive UsbCb where
  | usbcdcTransmitTimeoutCb
deriving DecidableEq, Repr

/-- An `usbcdc_txBuf_t` at `ptr`; `num` counts the calls of `usb_uart_write`. -/
structure TxPacket (β : Type) where
  num : Nat
  ptr : β
  len : BitVec 8
  data : Nat → BitVec 8

/-- A transfer that ended after `handed` bytes. -/
structure Transfer (β : Type) where
  pkt : TxPacket β
  handed : Nat
  timedOut : Bool

def Transfer.bytes {β : Type} (t : Transfer β) : List (BitVec 8) := (List.range t.handed).map t.pkt.data

inductive UsbSts where
  | success | busy | multiblock
deriving DecidableEq, Repr

/-- The transmit side of `cdc_ctrl_t`, `usb_uart_txPendingQ` (an `ev_queue_t` without a priority
function: what waits, oldest first) and the software timers. Beside them the bytes that the endpoint
got, the transfers that ended, the number of writes and the buffers that the driver was given. -/
structure UsbUart (β : Type) where
  lenToSend : Nat
  lastSendIndex : Nat
  txBuf : Option (TxPacket β)
  txTimer : Option (Fin 12)
  txPendingQ : List (TxPacket β)
  evTimerList : TimerList 12 (ModuleCb UsbCb)
  wire : List (BitVec 8)
  transfers : List (Transfer β)
  received : Nat
  pool : Ledger β

def cdcTxrxEpsize : Nat := 64
def pendingMax : Nat := 3

section Code
variable {β : Type} [DecidableEq β]

def usbcdcIsAvailable (s : UsbUart β) : Bool := s.txBuf.isNone

/-- The cell `cdc_v->txBuf->data[i]`; NULL is not read, since nothing is left to send then. -/
def txData (txBuf : Option (TxPacket β)) (i : Nat) : BitVec 8 :=
  match txBuf with
  | none => 0
  | some p => p.data i

/-- `txCb`, which is `usb_uart_tXFinishCb`, and the reset of the transfer around it. -/
def endTransfer (timedOut : Bool) (s : UsbUart β) : UsbUart β :=
  { s with
    lenToSend := 0
    lastSendIndex := 0
    txBuf := none
    transfers := s.transfers ++ s.txBuf.toList.map fun p => ⟨p, s.lastSendIndex, timedOut⟩
    pool := s.pool.giveAny (s.txBuf.map TxPacket.ptr) }

/-- `busy` is `usbhw_is_ep_busy` at the first check; the call waits until the endpoint has sent the
bulk. The answer is the length. -/
def usbcdcSendBulkData (busy : Bool) (s : UsbUart β) : UsbUart β × Nat :=
  if busy then (s, 0)
  else
    let len := if s.lenToSend > cdcTxrxEpsize then cdcTxrxEpsize else s.lenToSend
    let s := { s with lenToSend := s.lenToSend - len }
    if len = 0 then (s, 0)
    else
      let s := { s with
        wire := s.wire ++ (List.range len).map fun i => txData s.txBuf (s.lastSendIndex + i)
        lastSendIndex := s.lastSendIndex + len }
      if s.lenToSend = 0 then (endTransfer false s, len)
      else (s, len)

/-- `none` is the endless loop of `on_timer`. -/
def usbcdcSendData (clock1us now : U32) (busy : Bool) (p : TxPacket β) (s : UsbUart β) : Option (UsbUart β × UsbSts) :=
  if s.txBuf.isSome then some (s, .busy)
  else
    let s := { s with
      evTimerList := evUnonTimer s.txTimer s.evTimerList
      txTimer := none
      lenToSend := p.len.toNat
      txBuf := some p
      lastSendIndex := 0 }
    if s.lenToSend > cdcTxrxEpsize then
      match onTimer clock1us now (.own .usbcdcTransmitTimeoutCb) 10000 s.evTimerList with
      | none => none
      | some (i, l) =>
        some ((usbcdcSendBulkData busy { s with txTimer := some i, evTimerList := l }).1, .success)
    else some ((usbcdcSendBulkData busy s).1, .success)

def usbcdcTransmitTimeoutCb (s : UsbUart β) : UsbUart β := { endTransfer true s with txTimer := none }

/-- `ev_queue_pop` and `ev_buf_free` of what it returns. -/
def dropPending (s : UsbUart β) : UsbUart β :=
  { s with txPendingQ := s.txPendingQ.tail, pool := s.pool.giveAny (s.txPendingQ.head?.map TxPacket.ptr) }

def usbUartWrite (clock1us now : U32) (busy : Bool) (p : TxPacket β) (s : UsbUart β) : Option (UsbUart β × UsbSts) :=
  if usbcdcIsAvailable s then usbcdcSendData clock1us now busy p s
  else
    let s := if s.txPendingQ.length ≥ pendingMax then dropPending s else s
    some ({ s with txPendingQ := s.txPendingQ ++ [p] }, .multiblock)

/-- `size` is an `u8`. -/
def usbUartClearQ (s : UsbUart β) : UsbUart β := dropPending^[s.txPendingQ.length % 256] s

def usbUartLoopQ (clock1us now : U32) (busy : Bool) (s : UsbUart β) : Option (UsbUart β) :=
  match s.txPendingQ with
  | [] => some s
  | p :: rest =>
    if usbcdcIsAvailable s then (usbUartWrite clock1us now busy p { s with txPendingQ := rest }).map Prod.fst
    else some s

/-- A write of a buffer at `ptr`, the other entry points, an interrupt of the endpoint (`bulk`), the
callback in a slot of `evTimer_list`, or a step of the other timers. -/
inductive UsbCall (β : Type) where
  | write (ptr : β) (len : BitVec 8) (data : Nat → BitVec 8) (busy : Bool)
  | loopQ (busy : Bool)
  | clearQ
  | bulk (busy : Bool)
  | fire (i : Fin 12) (pass : U32)
  | timers (k : OtherCall 12)

def usbCall (clock1us now : U32) (s : UsbUart β) : UsbCall β → Option (UsbUart β)
  | .write ptr len data busy =>
    (usbUartWrite clock1us now busy ⟨s.received, ptr, len, data⟩
      { s with received := s.received + 1, pool := s.pool.take ptr }).map Prod.fst
  | .loopQ busy => usbUartLoopQ clock1us now busy s
  | .clearQ => some (usbUartClearQ s)
  | .bulk busy => some (usbcdcSendBulkData busy s).1
  | .fire i pass =>
    match (s.evTimerList.slots i).cb with
    | some (.own .usbcdcTransmitTimeoutCb) =>
      some { usbcdcTransmitTimeoutCb s with evTimerList := timerDone clock1us pass (-1) i s.evTimerList }
    | _ => some s
  | .timers k => (otherCall clock1us now s.evTimerList k).map fun l => { s with evTimerList := l }

/-- One call at a clock time; the path is `none` after a call that does not return. -/
def usbStep (clock1us : U32) (s : Option (UsbUart β)) (k : U32 × UsbCall β) : Option (UsbUart β) × Unit :=
  (s.bind fun s => usbCall clock1us k.1 s k.2, ())

end Code

/-! ### Order and ownership -/

section Path
variable {β : Type}

/-- The buffers that wait for their turn or are on their way. -/
def UsbUart.buffers (s : UsbUart β) : List β := (s.txBuf.toList ++ s.txPendingQ).map TxPacket.ptr

/-- The transfers that ended and the one that goes on. -/
def UsbUart.started (s : UsbUart β) : List (Transfer β) :=
  s.transfers ++ s.txBuf.toList.map fun p => ⟨p, s.lastSendIndex, false⟩

/-- The driver holds just the buffers that wait or are on their way, at most three wait, and the one
on its way is still to be finished or cut off. The endpoint got the bytes of one transfer after the
other, each buffer whole unless it was cut off, in the order of the writes. -/
structure UsbUart.Orderly (s : UsbUart β) : Prop where
  pool : s.pool.Holds s.buffers
  freed : s.txBuf ≠ none → 0 < s.lenToSend ∨ s.evTimerList.Pending (.own .usbcdcTransmitTimeoutCb)
  pending : s.txPendingQ.length ≤ pendingMax
  wire : s.wire = s.started.flatMap Transfer.bytes
  whole : ∀ t ∈ s.transfers, t.timedOut = false → t.handed = t.pkt.len.toNat
  order : (s.started.map fun t => t.pkt.num).Pairwise (· < ·)

/-- The ways in which a call that took `s` to `s'` may free `b`: its transfer ended, it was the oldest
of three and made room for a write, or the queue was cleared. -/
def FreedFor (k : UsbCall β) (s s' : UsbUart β) (b : β) : Prop :=
  (∃ t, s'.transfers = s.transfers ++ [t] ∧ t.pkt.ptr = b ∧ (t.timedOut = true → ∃ i pass, k = .fire i pass)) ∨
  (s.txPendingQ.length = pendingMax ∧ s.txPendingQ.head?.map TxPacket.ptr = some b ∧
    ∃ ptr len data busy, k = .write ptr len data busy) ∨
  (k = .clearQ ∧ b ∈ s.txPendingQ.map TxPacket.ptr)

/-- The buffer that a call hands over. -/
def UsbCall.given : UsbCall β → Option β
  | .write ptr _ _ _ => some ptr
  | _ => none

/-- Also in the middle of a bulk. -/
structure UsbUart.Core (s : UsbUart β) : Prop where
  flags : s.evTimerList.FlagsOk
  timer : s.evTimerList.Linked s.txTimer (.own .usbcdcTransmitTimeoutCb)
  pool : s.pool.Holds s.buffers
  pending : s.txPendingQ.length ≤ pendingMax
  wire : s.wire = s.started.flatMap Transfer.bytes
  whole : ∀ t ∈ s.transfers, t.timedOut = false → t.handed = t.pkt.len.toNat
  order : (s.started.map (fun t => t.pkt.num) ++ s.txPendingQ.map TxPacket.num).Pairwise (· < ·)
  received : ∀ n ∈ s.started.map (fun t => t.pkt.num) ++ s.txPendingQ.map TxPacket.num, n < s.received

/-- Between calls that are `UsbGood`. -/
structure UsbUart.Inv (s : UsbUart β) : Prop extends s.Core where
  idle : s.txBuf = none → s.lenToSend = 0
  sending : ∀ p, s.txBuf = some p → s.lastSendIndex + s.lenToSend = p.len.toNat ∧ 0 < s.lenToSend

theorem UsbUart.Inv.orderly {s : UsbUart β} (h : s.Inv) : s.Orderly := by
  constructor
  · exact h.pool
  · intro hbuf
    obtain ⟨p, hp⟩ := Option.ne_none_iff_exists'.mp hbuf
    exact .inl (h.sending p hp).2
  · exact h.pending
  · exact h.wire
  · exact h.whole
  · exact (List.pairwise_append.mp h.order).1

section Parts
variable {s : UsbUart β} {p : TxPacket β}

theorem Transfer.bytes_add (p : TxPacket β) (n m : Nat) (timedOut timedOut' : Bool) :
    (⟨p, n + m, timedOut⟩ : Transfer β).bytes =
      (⟨p, n, timedOut'⟩ : Transfer β).bytes ++ (List.range m).map fun i => p.data (n + i) := by
  simp [Transfer.bytes, List.range_add, List.map_append, Function.comp_def]

/-- `n` more bytes of the transfer are on the wire. -/
theorem UsbUart.Inv.handed {n : Nat} (h : s.Inv) (hp : s.txBuf = some p) :
    ({ s with
      lenToSend := s.lenToSend - n
      wire := s.wire ++ (List.range n).map fun i => txData s.txBuf (s.lastSendIndex + i)
      lastSendIndex := s.lastSendIndex + n } : UsbUart β).Core := by
  have horder := h.order
  have hrec := h.received
  simp only [UsbUart.started, hp] at horder hrec
  constructor
  · exact h.flags
  · exact h.timer
  · exact h.pool
  · exact h.pending
  · have hadd := Transfer.bytes_add p s.lastSendIndex n false false
    simp [UsbUart.started, h.wire, hp, hadd, txData]
  · exact h.whole
  · simpa [UsbUart.started, hp] using horder
  · simpa [UsbUart.started, hp] using hrec

/-- The start of a transfer, before its timer is set. -/
def UsbUart.load (p : TxPacket β) (s : UsbUart β) : UsbUart β :=
  { s with lenToSend := p.len.toNat, txBuf := some p, lastSendIndex := 0 }

theorem UsbUart.Core.timers {h : Option (Fin 12)} {l : TimerList 12 (ModuleCb UsbCb)} (hc : s.Core) (hf : l.FlagsOk)
    (hl : l.Linked h (.own .usbcdcTransmitTimeoutCb)) :
    ({ s with txTimer := h, evTimerList := l } : UsbUart β).Core :=
  ⟨hf, hl, hc.pool, hc.pending, hc.wire, hc.whole, hc.order, hc.received⟩

theorem UsbUart.Core.loaded {h : Option (Fin 12)} {l : TimerList 12 (ModuleCb UsbCb)} (hc : (s.load p).Core)
    (hlen : p.len ≠ 0) (hf : l.FlagsOk) (hl : l.Linked h (.own .usbcdcTransmitTimeoutCb)) :
    ({ s.load p with txTimer := h, evTimerList := l } : UsbUart β).Inv := by
  refine ⟨hc.timers hf hl, ?_, ?_⟩
  · intro hnone
    cases hnone
  · intro q hq
    cases hq
    have hpos : p.len.toNat ≠ 0 := fun h0 => hlen (BitVec.eq_of_toNat_eq h0)
    exact ⟨Nat.zero_add _, Nat.pos_of_ne_zero hpos⟩

/-- A buffer is taken up when nothing is on its way: a new one, or the first that waits. -/
theorem UsbUart.Inv.core_load {l : Ledger β} {q : List (TxPacket β)} {n : Nat} (h : s.Inv) (hbuf : s.txBuf = none)
    (hpool : l.Holds ((p :: q).map TxPacket.ptr)) (hlen : q.length ≤ pendingMax)
    (horder : (s.transfers.map (fun t => t.pkt.num) ++ (p :: q).map TxPacket.num).Pairwise (· < ·))
    (hrec : ∀ m ∈ s.transfers.map (fun t => t.pkt.num) ++ (p :: q).map TxPacket.num, m < n) :
    (({ s with received := n, pool := l, txPendingQ := q } : UsbUart β).load p).Core := by
  have hwire := h.wire
  simp only [UsbUart.started, hbuf] at hwire
  constructor
  · exact h.flags
  · exact h.timer
  · exact hpool
  · exact hlen
  · simpa [UsbUart.started, UsbUart.load, Transfer.bytes] using hwire
  · exact h.whole
  · simpa [UsbUart.started, UsbUart.load] using horder
  · simpa [UsbUart.started, UsbUart.load] using hrec

theorem UsbUart.mem_buffers {b : β} :
    b ∈ s.buffers ↔ (∃ p, s.txBuf = some p ∧ p.ptr = b) ∨ b ∈ s.txPendingQ.map TxPacket.ptr := by
  unfold UsbUart.buffers
  rw [List.map_append, List.mem_append]
  cases s.txBuf <;> simp [eq_comm]

theorem UsbUart.Core.mem_held (h : s.Core) {b : β} :
    b ∈ s.pool.held ↔ (∃ p, s.txBuf = some p ∧ p.ptr = b) ∨ b ∈ s.txPendingQ.map TxPacket.ptr := by
  rw [← UsbUart.mem_buffers]
  exact h.pool.1.mem_iff

/-- The buffers of an idle path with nothing waiting, when a new one is loaded. -/
theorem UsbUart.Inv.core_direct {ptr : β} {len : BitVec 8} {data : Nat → BitVec 8} (h : s.Inv)
    (hbuf : s.txBuf = none) (hq : s.txPendingQ = []) :
    (({ s with received := s.received + 1, pool := s.pool.take ptr } : UsbUart β).load
      ⟨s.received, ptr, len, data⟩).Core := by
  have hpool := h.pool
  have horder := h.order
  have hrec := h.received
  simp only [UsbUart.buffers, UsbUart.started, hbuf, hq, Option.toList_none, List.map_nil, List.append_nil] at hpool horder hrec
  have hcore : (({ s with received := s.received + 1, pool := s.pool.take ptr, txPendingQ := [] } :
      UsbUart β).load ⟨s.received, ptr, len, data⟩).Core := by
    apply h.core_load hbuf
    · exact hpool.take
    · exact Nat.zero_le _
    · apply List.pairwise_append.mpr
      refine ⟨horder, by simp, ?_⟩
      intro a ha b hb
      obtain rfl : b = s.received := by simpa using hb
      exact hrec a ha
    · intro m hm
      rcases List.mem_append.mp hm with hm | hm
      · exact Nat.lt_succ_of_lt (hrec m hm)
      · obtain rfl : m = s.received := by simpa using hm
        exact Nat.lt_succ_self _
  rw [← hq] at hcore
  exact hcore

/-- A buffer that is gone once `p` waits behind `q` was waiting before, but not in `q`. -/
theorem UsbUart.Inv.lost_waiting {r : UsbUart β} {q : List (TxPacket β)} {p : TxPacket β} (h : s.Inv) (hinv : r.Inv)
    (hbuf : r.txBuf = s.txBuf) (hq : r.txPendingQ = q ++ [p]) {b : β} (hb : b ∈ s.pool.held ∨ b = p.ptr)
    (hb' : b ∉ r.pool.held) : b ∈ s.txPendingQ.map TxPacket.ptr ∧ b ∉ q.map TxPacket.ptr := by
  rw [hinv.mem_held, hbuf, hq, not_or, List.map_append, List.mem_append, not_or] at hb'
  obtain ⟨hcur, hwait, hnew⟩ := hb'
  rcases hb with hb | hb
  · rcases h.mem_held.mp hb with hb | hb
    · exact absurd hb hcur
    · exact ⟨hb, hwait⟩
  · exact absurd (by simp [hb]) hnew

end Parts

/-- Where a started transfer stands when its call returns. -/
def Launched (p : TxPacket β) (s s' : UsbUart β) : Prop :=
  s'.txPendingQ = s.txPendingQ ∧
    (s'.txBuf = some p ∨ s'.txBuf = none ∧ ∃ n, s'.transfers = s.transfers ++ [⟨p, n, false⟩])

variable [DecidableEq β]

/-- What a call does: the path is orderly, and whatever was freed was freed for a reason. -/
def UsbStepOk (clock1us : U32) (s : Option (UsbUart β)) (k : U32 × UsbCall β) : Prop :=
  ∀ t t', s = some t → (usbStep clock1us s k).1 = some t' →
    t'.Orderly ∧ ∀ b, b ∈ t.pool.held ∨ k.2.given = some b → b ∉ t'.pool.held → FreedFor k.2 t t' b

/-- A write hands over a buffer that the driver does not have, and passes call due timers only. -/
def UsbEnv (clock1us : U32) (s : Option (UsbUart β)) (k : U32 × UsbCall β) : Prop :=
  ∀ t, s = some t →
    match k.2 with
    | .write ptr _ _ _ => ptr ∉ t.pool.held
    | .fire i pass => timerDue clock1us pass (t.evTimerList.slots i) = true
    | .timers k => OtherCallEnv t.evTimerList k
    | _ => True

/-- A write that finds the path free finds nothing waiting, and a buffer that is sent has data. -/
def UsbGood (s : Option (UsbUart β)) (k : U32 × UsbCall β) : Prop :=
  ∀ t, s = some t → t.txBuf = none →
    match k.2 with
    | .write _ len _ _ => t.txPendingQ = [] ∧ len ≠ 0
    | .loopQ _ => ∀ p, t.txPendingQ.head? = some p → p.len ≠ 0
    | _ => True

section Steps
variable {s s' : UsbUart β} {clock1us now : U32} {busy : Bool} {p : TxPacket β}

/-- The end of a transfer frees its buffer and leaves the rest. -/
theorem endTransfer_inv {timedOut : Bool} (h : s.Core) (hp : s.txBuf = some p)
    (hwhole : timedOut = false → s.lastSendIndex = p.len.toNat) : (endTransfer timedOut s).Inv := by
  have hpool := h.pool
  have hwire := h.wire
  have horder := h.order
  have hrec := h.received
  simp only [UsbUart.buffers, UsbUart.started, hp, Option.toList_some] at hpool hwire horder hrec
  refine ⟨⟨h.flags, h.timer, ?_, h.pending, ?_, ?_, ?_, ?_⟩, fun _ => rfl, ?_⟩
  · simpa [endTransfer, UsbUart.buffers, hp, Ledger.giveAny] using Ledger.Holds.give hpool
  · simpa [endTransfer, UsbUart.started, hp, Transfer.bytes] using hwire
  · intro t ht hflag
    simp only [endTransfer, hp, Option.toList_some, List.map_cons, List.map_nil, List.mem_append,
      List.mem_singleton] at ht
    rcases ht with ht | rfl
    · exact h.whole t ht hflag
    · exact hwhole hflag
  · simpa [endTransfer, UsbUart.started, hp] using horder
  · simpa [endTransfer, UsbUart.started, hp] using hrec
  · intro q hq
    cases hq

theorem endTransfer_none {timedOut : Bool} (h : s.Inv) (hp : s.txBuf = none) : (endTransfer timedOut s).Inv := by
  have hpool := h.pool
  have hwire := h.wire
  have horder := h.order
  have hrec := h.received
  simp only [UsbUart.buffers, UsbUart.started, hp] at hpool hwire horder hrec
  refine ⟨⟨h.flags, h.timer, ?_, h.pending, ?_, ?_, ?_, ?_⟩, fun _ => rfl, ?_⟩
  · simpa [endTransfer, UsbUart.buffers, hp, Ledger.giveAny] using hpool
  · simpa [endTransfer, UsbUart.started, hp] using hwire
  · simpa [endTransfer, hp] using h.whole
  · simpa [endTransfer, UsbUart.started, hp] using horder
  · simpa [endTransfer, UsbUart.started, hp] using hrec
  · intro q hq
    cases hq

/-- A bulk leaves the queue alone, and ends no transfer but the one that goes on. -/
theorem usbcdcSendBulkData_ends :
    (usbcdcSendBulkData busy s).1.txPendingQ = s.txPendingQ ∧
      ((usbcdcSendBulkData busy s).1.txBuf = s.txBuf ∨
        (usbcdcSendBulkData busy s).1.txBuf = none ∧
          ∀ p, s.txBuf = some p → ∃ n, (usbcdcSendBulkData busy s).1.transfers = s.transfers ++ [⟨p, n, false⟩]) := by
  unfold usbcdcSendBulkData
  dsimp only
  split_ifs
  all_goals first
    | exact ⟨rfl, .inl rfl⟩
    | skip
  all_goals
    refine ⟨rfl, .inr ⟨rfl, fun p hp => ?_⟩⟩
    simp [endTransfer, hp]

/-- With nothing left to send an interrupt does nothing. -/
theorem usbcdcSendBulkData_nothing (hlen : s.lenToSend = 0) : (usbcdcSendBulkData busy s).1 = s := by
  obtain ⟨lenToSend, rest⟩ := s
  dsimp only at hlen
  subst hlen
  cases busy <;> simp [usbcdcSendBulkData]

theorem usbcdcSendBulkData_inv (h : s.Inv) : (usbcdcSendBulkData busy s).1.Inv := by
  cases hp : s.txBuf with
  | none =>
    rw [usbcdcSendBulkData_nothing (h.idle hp)]
    exact h
  | some p =>
    unfold usbcdcSendBulkData
    dsimp only
    rw [hp]
    obtain ⟨hsum, hpos⟩ := h.sending p hp
    generalize hn : (if s.lenToSend > cdcTxrxEpsize then cdcTxrxEpsize else s.lenToSend) = n
    have hle : n ≤ s.lenToSend := by
      rw [← hn]
      split_ifs with hgt
      · exact Nat.le_of_lt hgt
      · exact Nat.le_refl _
    have hnz : n ≠ 0 := by
      rw [← hn]
      split_ifs
      · decide
      · exact Nat.pos_iff_ne_zero.mp hpos
    have hcore := h.handed (n := n) hp
    rw [hp] at hcore
    cases busy with
    | true => exact h
    | false =>
      rw [if_neg (by simp), if_neg hnz]
      by_cases hrest : s.lenToSend - n = 0
      · rw [if_pos hrest]
        apply endTransfer_inv hcore rfl
        intro _
        dsimp only
        omega
      · rw [if_neg hrest]
        refine ⟨hcore, ?_, ?_⟩
        · intro hnone
          cases hnone
        · intro q hq
          cases hq
          dsimp only
          omega

theorem Launched.of_bulk {h : Option (Fin 12)} {l : TimerList 12 (ModuleCb UsbCb)} :
    Launched p s (usbcdcSendBulkData busy { s.load p with txTimer := h, evTimerList := l }).1 := by
  have hends := @usbcdcSendBulkData_ends _ _ { s.load p with txTimer := h, evTimerList := l } busy
  obtain ⟨hq, hbuf | ⟨hbuf, hdone⟩⟩ := hends
  · exact ⟨hq, .inl hbuf⟩
  · exact ⟨hq, .inr ⟨hbuf, hdone p rfl⟩⟩

theorem usbcdcSendData_inv {sts : UsbSts} (hc : (s.load p).Core) (hnone : s.txBuf = none) (hlen : p.len ≠ 0)
    (hsend : usbcdcSendData clock1us now busy p s = some (s', sts)) : s'.Inv ∧ Launched p s s' := by
  have hoff := hc.timer.unon
  have hfl := evUnonTimer_flagsOk hc.flags s.txTimer
  unfold usbcdcSendData at hsend
  rw [hnone] at hsend
  dsimp only at hsend
  split_ifs at hsend with hsome hlong
  · cases hsome
  · cases hon : onTimer clock1us now (.own .usbcdcTransmitTimeoutCb) 10000 (evUnonTimer s.txTimer s.evTimerList) with
    | none =>
      rw [hon] at hsend
      cases hsend
    | some r =>
      obtain ⟨i, l⟩ := r
      rw [hon] at hsend
      cases hsend
      have hinv := hc.loaded hlen (onTimer_flagsOk hfl hon) (hoff.on hfl hon)
      exact ⟨usbcdcSendBulkData_inv hinv, Launched.of_bulk⟩
  · cases hsend
    have hinv := hc.loaded hlen hfl hoff
    exact ⟨usbcdcSendBulkData_inv hinv, Launched.of_bulk⟩

/-! ### The queue -/

theorem dropPending_pool (cs : List β) (h : s.pool.Holds (cs ++ s.buffers)) :
    (dropPending s).pool.Holds (cs ++ (dropPending s).buffers) := by
  unfold UsbUart.buffers at h
  unfold dropPending UsbUart.buffers
  cases hq : s.txPendingQ with
  | nil => simpa [hq, Ledger.giveAny] using h
  | cons q rest =>
    rw [hq, List.map_append, List.map_cons, ← List.append_assoc] at h
    have hperm := h.perm List.perm_middle
    have hgive := Ledger.Holds.give hperm
    simpa [Ledger.giveAny] using hgive

theorem dropPending_inv (h : s.Inv) : (dropPending s).Inv := by
  have hsub : List.Sublist ((dropPending s).started.map (fun t => t.pkt.num) ++ (dropPending s).txPendingQ.map TxPacket.num)
      (s.started.map (fun t => t.pkt.num) ++ s.txPendingQ.map TxPacket.num) := by
    apply List.Sublist.append_left
    exact (List.tail_sublist _).map _
  have hpool : (dropPending s).pool.Holds (dropPending s).buffers := dropPending_pool [] h.pool
  have hlen : (dropPending s).txPendingQ.length ≤ pendingMax := by
    have htail : (dropPending s).txPendingQ.length = s.txPendingQ.length - 1 := List.length_tail
    have hmax := h.pending
    omega
  refine ⟨⟨h.flags, h.timer, hpool, hlen, h.wire, h.whole, h.order.sublist hsub, ?_⟩, h.idle, h.sending⟩
  exact fun n hn => h.received n (hsub.subset hn)

theorem dropPending_iterate (n : Nat) (h : s.Inv) :
    (dropPending^[n] s).Inv ∧ (dropPending^[n] s).txBuf = s.txBuf := by
  induction n generalizing s with
  | zero => exact ⟨h, rfl⟩
  | succ n ih =>
    rw [Function.iterate_succ_apply]
    exact ih (dropPending_inv h)

omit [DecidableEq β] in
/-- A written buffer joins the queue. -/
theorem UsbUart.Inv.enqueue {l : Ledger β} (h : s.Inv) (hroom : s.txPendingQ.length < pendingMax)
    (hpool : l.Holds (p.ptr :: s.buffers)) (hnum : p.num = s.received) :
    ({ s with received := s.received + 1, pool := l, txPendingQ := s.txPendingQ ++ [p] } : UsbUart β).Inv := by
  have hrec := h.received
  refine ⟨⟨h.flags, h.timer, ?_, ?_, h.wire, h.whole, ?_, ?_⟩, h.idle, h.sending⟩
  · have hsnoc : ({ s with received := s.received + 1, pool := l, txPendingQ := s.txPendingQ ++ [p] } : UsbUart β).buffers =
        s.buffers ++ [p.ptr] := by
      simp [UsbUart.buffers]
    rw [hsnoc]
    exact hpool.perm (List.perm_append_singleton p.ptr s.buffers).symm
  · rw [List.length_append]
    exact hroom
  · dsimp only
    rw [List.map_append, ← List.append_assoc]
    apply List.pairwise_append.mpr
    refine ⟨h.order, by simp, ?_⟩
    intro a ha b hb
    obtain rfl : b = p.num := by simpa using hb
    rw [hnum]
    exact hrec a ha
  · intro n hn
    dsimp only at hn
    rw [List.map_append, ← List.append_assoc, List.mem_append] at hn
    rcases hn with hn | hn
    · exact Nat.lt_succ_of_lt (hrec n hn)
    · obtain rfl : n = p.num := by simpa using hn
      dsimp only
      omega

/-! ### The calls -/

omit [DecidableEq β] in
/-- A call that keeps the queue and the transfer, or ends the transfer. -/
theorem freedFor_ended {k : UsbCall β} (h : s.Inv) (h' : s'.Inv) (hq : s'.txPendingQ = s.txPendingQ)
    (hbuf : s'.txBuf = s.txBuf ∨ ∀ p, s.txBuf = some p → ∃ n timedOut,
      s'.transfers = s.transfers ++ [⟨p, n, timedOut⟩] ∧ (timedOut = true → ∃ i pass, k = .fire i pass))
    {b : β} (hb : b ∈ s.pool.held) (hb' : b ∉ s'.pool.held) : FreedFor k s s' b := by
  rw [h'.mem_held, not_or, hq] at hb'
  rcases h.mem_held.mp hb with ⟨p, hp, hptr⟩ | hwait
  · rcases hbuf with hbuf | hend
    · rw [hbuf] at hb'
      exact absurd ⟨p, hp, hptr⟩ hb'.1
    · obtain ⟨n, timedOut, hdone, hfire⟩ := hend p hp
      exact .inl ⟨_, hdone, hptr, hfire⟩
  · exact absurd hwait hb'.2

theorem usbUartWrite_given {ptr : β} {len : BitVec 8} {data : Nat → BitVec 8} {r : UsbUart β × UsbSts} (h : s.Inv)
    (hgood : s.txBuf = none → s.txPendingQ = [] ∧ len ≠ 0)
    (hwrite : usbUartWrite clock1us now busy ⟨s.received, ptr, len, data⟩
      { s with received := s.received + 1, pool := s.pool.take ptr } = some r) :
    r.1.Inv ∧ ∀ b, b ∈ s.pool.held ∨ b = ptr → b ∉ r.1.pool.held → FreedFor (.write ptr len data busy) s r.1 b := by
  obtain ⟨s', sts⟩ := r
  unfold usbUartWrite at hwrite
  have havail : usbcdcIsAvailable ({ s with received := s.received + 1, pool := s.pool.take ptr } : UsbUart β) =
      s.txBuf.isNone := rfl
  rw [havail] at hwrite
  cases hbuf : s.txBuf with
  | none =>
    obtain ⟨hq, hlen⟩ := hgood hbuf
    rw [if_pos (by rw [hbuf]; rfl)] at hwrite
    obtain ⟨hinv, hpend, hgoes⟩ := usbcdcSendData_inv (h.core_direct hbuf hq) hbuf hlen hwrite
    refine ⟨hinv, fun b hb hb' => ?_⟩
    rw [hinv.mem_held, not_or] at hb'
    have hptr : b = ptr := by
      rcases hb with hb | hb
      · rw [h.mem_held, hbuf, hq] at hb
        simp at hb
      · exact hb
    rcases hgoes with hgoes | ⟨-, n, hdone⟩
    · exact absurd ⟨_, hgoes, hptr.symm⟩ hb'.1
    · exact .inl ⟨_, hdone, hptr.symm, by simp⟩
  | some p =>
    rw [if_neg (by rw [hbuf]; simp)] at hwrite
    by_cases hfull : s.txPendingQ.length ≥ pendingMax
    · have hmax := h.pending
      have hroom : (dropPending s).txPendingQ.length < pendingMax := by
        have htail : (dropPending s).txPendingQ.length = s.txPendingQ.length - 1 := List.length_tail
        unfold pendingMax at hfull hmax ⊢
        omega
      dsimp only at hwrite
      rw [if_pos hfull] at hwrite
      cases hwrite
      have htake : ({ s with received := s.received + 1, pool := s.pool.take ptr } : UsbUart β).pool.Holds
          ([ptr] ++ s.buffers) := h.pool.take
      have hdrop := dropPending_pool [ptr] htake
      have hinv := (dropPending_inv h).enqueue (p := ⟨s.received, ptr, len, data⟩) hroom hdrop rfl
      refine ⟨hinv, fun b hb hb' => .inr (.inl ⟨Nat.le_antisymm hmax hfull, ?_, _, _, _, _, rfl⟩)⟩
      -- only the oldest waiting buffer is gone
      obtain ⟨hwas, hgone⟩ := h.lost_waiting hinv rfl rfl hb hb'
      unfold dropPending at hgone
      cases hq : s.txPendingQ with
      | nil =>
        rw [hq] at hwas
        cases hwas
      | cons q rest =>
        rw [hq, List.map_cons, List.mem_cons] at hwas
        rw [hq] at hgone
        rw [hwas.resolve_right hgone]
        rfl
    · dsimp only at hwrite
      rw [if_neg hfull] at hwrite
      cases hwrite
      have hinv := h.enqueue (p := ⟨s.received, ptr, len, data⟩) (Nat.lt_of_not_le hfull) h.pool.take rfl
      refine ⟨hinv, fun b hb hb' => ?_⟩
      obtain ⟨hwas, hgone⟩ := h.lost_waiting hinv rfl rfl hb hb'
      exact absurd hwas hgone

theorem usbUartLoopQ_given {k : UsbCall β} (h : s.Inv)
    (hgood : s.txBuf = none → ∀ p, s.txPendingQ.head? = some p → p.len ≠ 0)
    (hloop : usbUartLoopQ clock1us now busy s = some s') :
    s'.Inv ∧ ∀ b, b ∈ s.pool.held → b ∉ s'.pool.held → FreedFor k s s' b := by
  unfold usbUartLoopQ at hloop
  cases hq : s.txPendingQ with
  | nil =>
    simp only [hq] at hloop
    cases hloop
    exact ⟨h, fun b hb hb' => absurd hb hb'⟩
  | cons p rest =>
    simp only [hq] at hloop
    cases hbuf : s.txBuf with
    | some q =>
      simp only [usbcdcIsAvailable, hbuf] at hloop
      cases hloop
      exact ⟨h, fun b hb hb' => absurd hb hb'⟩
    | none =>
      rw [if_pos (by simp [usbcdcIsAvailable, hbuf])] at hloop
      obtain ⟨⟨s'', sts⟩, hwrite, rfl⟩ := Option.map_eq_some_iff.mp hloop
      unfold usbUartWrite at hwrite
      rw [if_pos (by simp [usbcdcIsAvailable, hbuf])] at hwrite
      have hpool := h.pool
      have horder := h.order
      have hrec := h.received
      have hmax := h.pending
      simp only [UsbUart.buffers, UsbUart.started, hbuf, hq, Option.toList_none, List.map_nil, List.append_nil,
        List.nil_append] at hpool horder hrec
      rw [hq, List.length_cons] at hmax
      have hcore : (({ s with received := s.received, pool := s.pool, txPendingQ := rest } : UsbUart β).load p).Core :=
        h.core_load hbuf hpool (Nat.le_of_succ_le hmax) horder hrec
      obtain ⟨hinv, hpend, hgoes⟩ := usbcdcSendData_inv hcore hbuf (hgood hbuf p (by simp [hq])) hwrite
      refine ⟨hinv, fun b hb hb' => ?_⟩
      rw [hinv.mem_held, not_or] at hb'
      rw [h.mem_held, hbuf, hq, List.map_cons, List.mem_cons] at hb
      rcases hb with ⟨q, hq', -⟩ | hb | hb
      · cases hq'
      · rcases hgoes with hgoes | ⟨-, n, hdone⟩
        · exact absurd ⟨p, hgoes, hb.symm⟩ hb'.1
        · exact .inl ⟨_, hdone, hb.symm, by simp⟩
      · dsimp only at hpend
        rw [hpend] at hb'
        exact absurd hb hb'.2

theorem usbUartClearQ_given (h : s.Inv) :
    (usbUartClearQ s).Inv ∧ ∀ b, b ∈ s.pool.held → b ∉ (usbUartClearQ s).pool.held → FreedFor .clearQ s (usbUartClearQ s) b := by
  have hdrop := dropPending_iterate (s.txPendingQ.length % 256) h
  have hinv : (usbUartClearQ s).Inv := hdrop.1
  have hbuf : (usbUartClearQ s).txBuf = s.txBuf := hdrop.2
  refine ⟨hinv, fun b hb hb' => .inr (.inr ⟨rfl, ?_⟩)⟩
  rw [hinv.mem_held, hbuf, not_or] at hb'
  exact (h.mem_held.mp hb).resolve_left hb'.1

/-- The buffer that the timer cuts off is freed; without one nothing happens. -/
theorem usbcdcTransmitTimeoutCb_given {i : Fin 12} {pass : U32} (h : s.Inv)
    (hrun : s.evTimerList.Running i (.own .usbcdcTransmitTimeoutCb)) :
    let s' : UsbUart β := { usbcdcTransmitTimeoutCb s with evTimerList := timerDone clock1us pass (-1) i s.evTimerList }
    s'.Inv ∧ ∀ b, b ∈ s.pool.held → b ∉ s'.pool.held → FreedFor (.fire i pass) s s' b := by
  have hend : (endTransfer true s).Inv := by
    cases hp : s.txBuf with
    | some p => exact endTransfer_inv h.toCore hp (by simp)
    | none => exact endTransfer_none h hp
  have hf := @timerDone_flagsOk _ _ clock1us pass (-1) s.evTimerList i h.flags
  have hl := @TimerList.Linked.done _ _ s.evTimerList s.txTimer i _ clock1us pass h.timer hrun (-1) (by decide)
  have hinv : ({ usbcdcTransmitTimeoutCb s with evTimerList := timerDone clock1us pass (-1) i s.evTimerList } :
      UsbUart β).Inv := ⟨hend.toCore.timers hf hl, hend.idle, hend.sending⟩
  refine ⟨hinv, fun b hb hb' => freedFor_ended h hinv rfl (.inr fun p hp => ?_) hb hb'⟩
  exact ⟨s.lastSendIndex, true, by simp [usbcdcTransmitTimeoutCb, endTransfer, hp], fun _ => ⟨i, pass, rfl⟩⟩

theorem usbCall_given {k : UsbCall β} (h : s.Inv) (henv : UsbEnv clock1us (some s) (now, k))
    (hgood : UsbGood (some s) (now, k)) (hcall : usbCall clock1us now s k = some s') :
    s'.Inv ∧ ∀ b, b ∈ s.pool.held ∨ k.given = some b → b ∉ s'.pool.held → FreedFor k s s' b := by
  have henv := henv s rfl
  have hgood := hgood s rfl
  cases k with
  | write ptr len data busy =>
    obtain ⟨r, hwrite, rfl⟩ := Option.map_eq_some_iff.mp hcall
    obtain ⟨hinv, hfreed⟩ := usbUartWrite_given h hgood hwrite
    refine ⟨hinv, fun b hb => hfreed b (hb.imp_right fun hb => ?_)⟩
    exact (Option.some.inj hb).symm
  | loopQ busy =>
    obtain ⟨hinv, hfreed⟩ := usbUartLoopQ_given (k := .loopQ busy) h hgood hcall
    exact ⟨hinv, fun b hb => hfreed b (hb.resolve_right (by simp [UsbCall.given]))⟩
  | clearQ =>
    cases hcall
    obtain ⟨hinv, hfreed⟩ := usbUartClearQ_given h
    exact ⟨hinv, fun b hb => hfreed b (hb.resolve_right (by simp [UsbCall.given]))⟩
  | bulk busy =>
    cases hcall
    have hinv := @usbcdcSendBulkData_inv _ _ _ busy h
    obtain ⟨hq, hbuf⟩ := @usbcdcSendBulkData_ends _ _ s busy
    refine ⟨hinv, fun b hb hb' => ?_⟩
    apply freedFor_ended h hinv hq ?_ (hb.resolve_right (by simp [UsbCall.given])) hb'
    rcases hbuf with hbuf | ⟨-, hdone⟩
    · exact .inl hbuf
    · right
      intro p hp
      obtain ⟨n, hn⟩ := hdone p hp
      exact ⟨n, false, hn, by simp⟩
  | fire i pass =>
    have hvalid : (s.evTimerList.slots i).valid = 1 := timerDue_valid henv
    unfold usbCall at hcall
    dsimp only at hcall
    split at hcall
    · rename_i hcb
      cases hcall
      obtain ⟨hinv, hfreed⟩ := @usbcdcTransmitTimeoutCb_given _ _ s clock1us i pass h ⟨hvalid, hcb⟩
      exact ⟨hinv, fun b hb => hfreed b (hb.resolve_right (by simp [UsbCall.given]))⟩
    · cases hcall
      exact ⟨h, fun b hb hb' => absurd (hb.resolve_right (by simp [UsbCall.given])) hb'⟩
  | timers k =>
    obtain ⟨l, hl, rfl⟩ := Option.map_eq_some_iff.mp hcall
    obtain ⟨hf, hlinked⟩ := otherCall_linked h.flags henv hl
    refine ⟨⟨h.toCore.timers hf (hlinked _ _ h.timer), h.idle, h.sending⟩, fun b hb hb' => ?_⟩
    exact absurd (hb.resolve_right (by simp [UsbCall.given])) hb'

def UsbInv (s : Option (UsbUart β)) : Prop := ∀ t, s = some t → t.Inv

theorem usbStep_given {s : Option (UsbUart β)} {k : U32 × UsbCall β} (h : UsbInv s) (henv : UsbEnv clock1us s k)
    (hgood : UsbGood s k) : UsbInv (usbStep clock1us s k).1 ∧ UsbStepOk clock1us s k := by
  cases s with
  | none =>
    constructor
    · intro t ht
      cases ht
    · intro t t' ht
      cases ht
  | some s =>
    have hinv := h s rfl
    constructor
    · intro t ht
      exact (usbCall_given hinv henv hgood ht).1
    · rintro t t' ⟨⟩ ht'
      obtain ⟨hinv', hfreed⟩ := usbCall_given hinv henv hgood ht'
      exact ⟨hinv'.orderly, hfreed⟩

end Steps

/-- The path after `usbcdc_init` and `usb_uart_open`. -/
def UsbUart.Opened (s : UsbUart β) : Prop :=
  s.lenToSend = 0 ∧ s.lastSendIndex = 0 ∧ s.txBuf = none ∧ s.txTimer = none ∧ s.txPendingQ = [] ∧ s.wire = [] ∧
    s.transfers = [] ∧ s.pool = Ledger.empty ∧ s.evTimerList.FlagsOk ∧
    ∀ i cb, s.evTimerList.Running i cb → ∃ k, cb = .other k

omit [DecidableEq β] in
theorem UsbUart.Opened.inv {s : UsbUart β} (h : s.Opened) : s.Inv := by
  obtain ⟨hlen, hidx, hbuf, htimer, hq, hwire, htrans, hpool, hflags, hothers⟩ := h
  refine ⟨⟨hflags, ?_, ?_, ?_, ?_, ?_, ?_, ?_⟩, ?_, ?_⟩
  · intro i
    rw [htimer]
    simp only [reduceCtorEq, iff_false]
    intro hrun
    obtain ⟨k, hk⟩ := hothers i _ hrun
    cases hk
  · simpa [UsbUart.buffers, hbuf, hq, hpool] using Ledger.holds_empty
  · simp [hq]
  · simp [UsbUart.started, hwire, htrans, hbuf]
  · simp [htrans]
  · simp [UsbUart.started, htrans, hbuf, hq]
  · simp [UsbUart.started, htrans, hbuf, hq]
  · simp [hlen]
  · simp [hbuf]

/-- Every buffer is freed exactly once and for a reason, and buffers go out whole and in order, as
long as no write overtakes a waiting buffer and no empty buffer is sent. -/
theorem usbUart_orderly {clock1us : U32} {s : UsbUart β} {ks : List (U32 × UsbCall β)} (hopen : s.Opened)
    (henv : Legal (usbStep clock1us) (UsbEnv clock1us) (some s) ks)
    (hgood : Legal (usbStep clock1us) UsbGood (some s) ks) :
    Legal (usbStep clock1us) (UsbStepOk clock1us) (some s) ks := by
  have hinv : UsbInv (some s) := by
    rintro t ⟨⟩
    exact hopen.inv
  exact legal_of (fun s k h he hg => usbStep_given h he hg) hinv henv hgood

end Path

def usbOpened : UsbUart Nat where
  lenToSend := 0
  lastSendIndex := 0
  txBuf := none
  txTimer := none
  txPendingQ := []
  evTimerList := ⟨fun _ => ⟨none, 0, 0, 0, 0⟩, 0⟩
  wire := []
  transfers := []
  received := 0
  pool := Ledger.empty

theorem usbOpened_opened : usbOpened.Opened := by
  refine ⟨rfl, rfl, rfl, rfl, rfl, rfl, rfl, rfl, fun _ => .inl ⟨rfl, rfl⟩, ?_⟩
  rintro i cb ⟨hv, -⟩
  cases hv

/-- A buffer of two bulks, one that waits for it, and the timer of the first when all is done. -/
def usbTwoWrites : List (U32 × UsbCall Nat) :=
  [(0, .write 3 100 (fun _ => 7) false), (1600, .write 4 5 (fun _ => 8) false), (3200, .bulk true), (4800, .bulk false),
    (160000, .fire 0 160000), (161600, .loopQ false)]

theorem usbUart_orderly_two : Legal (usbStep 16) (UsbStepOk 16) (some usbOpened) usbTwoWrites := by
  have henv : Legal (usbStep 16) (UsbEnv 16) (some usbOpened) usbTwoWrites := by
    refine ⟨?_, ?_, ?_, ?_, ?_, ?_, trivial⟩
    all_goals
      rintro t ht
      cases ht
    · decide
    · decide
    · trivial
    · trivial
    · decide +kernel
    · trivial
  have hgood : Legal (usbStep 16) UsbGood (some usbOpened) usbTwoWrites := by
    refine ⟨?_, ?_, ?_, ?_, ?_, ?_, trivial⟩
    all_goals
      rintro t ht hbuf
      cases ht
    · exact ⟨rfl, by decide⟩
    · cases hbuf
    · trivial
    · trivial
    · trivial
    · rintro p ⟨⟩
      decide
  exact usbUart_orderly usbOpened_opened henv hgood

/-- The second buffer waits when the first is done, and the third goes out before it. -/
def usbOvertaken : List (U32 × UsbCall Nat) :=
  [(0, .write 3 100 (fun _ => 7) false), (1600, .write 4 5 (fun _ => 8) false), (3200, .bulk false),
    (4800, .write 5 6 (fun _ => 9) false), (6400, .loopQ false)]

theorem usbUart_overtakes :
    Legal (usbStep 16) (UsbEnv 16) (some usbOpened) usbOvertaken ∧
      ¬ Legal (usbStep 16) (UsbStepOk 16) (some usbOpened) usbOvertaken := by
  constructor
  · refine ⟨?_, ?_, ?_, ?_, ?_, trivial⟩
    all_goals
      rintro t ht
      cases ht
    · decide
    · decide
    · trivial
    · decide
    · trivial
  · rintro ⟨-, -, -, -, hlast, -⟩
    have horder := (hlast _ _ rfl rfl).1.order
    exact absurd horder (by decide)

end Rf4ce.Drv
