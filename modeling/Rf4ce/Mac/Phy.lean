import Rf4ce.Refine.Run
import Rf4ce.Crash.Bytes
import Mathlib.Logic.Function.Basic

/-! The interrupt handlers of `mac_phy.c` and their acknowledge flags. -/
namespace Rf4ce.Mac
open Crash Refine

/-- Build options. -/
structure PhyCfg where
  /-- a remote with `MODULE_AUDIO_ENABLE` -/
  audioEnable : Bool
  /-- `RF4CE_TARGET` -/
  target : Bool

def txBusy : Byte := 0x02
def txAckpacket : Byte := 0x04

def macFcfFrameType : Byte := 0x07
def macFcfAckReqBit : Byte := 0x20
def macFrameBeacon : Byte := 0
def macFrameAck : Byte := 2
def macFrameCommand : Byte := 3

/-- The variables of the driver that the handlers use. -/
structure Phy where
  busyFlag : Byte
  isAck : Nat
  ackBuf : Nat → Byte
  rxBuf : Nat
  /-- whether `rf_txCbFunc` and `rf_ackCbFunc` are set -/
  txCbFunc : Bool
  ackCbFunc : Bool

/-- What a receive interrupt finds: the radio, the frame in `rf_rxBuf`, and the answers of the
functions that the handler asks. -/
structure RxIrq where
  dmaBusy : Bool
  crcOk : Bool
  lengthOk : Bool
  len : Nat
  macPld : Nat → Byte
  /-- what `zb_macDataFilter` of the MAC library leaves in `fDrop` and `fAck` -/
  fDrop : Bool
  fAck : Bool
  /-- `GetAudioTxState()` -/
  audioTx : Bool
  /-- `mac_getState() == MAC_STATE_SCAN` -/
  scan : Bool
  /-- `ev_buf_getfreeSize()` -/
  freeSize : Nat
  framePending : Byte
  /-- `rf_getRxBuf()` -/
  nextRxBuf : Option Nat

/-- What a transmit interrupt finds; `retriesLeft` is `GetAudioTxCnt() <= maxFrameRetries`. -/
structure TxIrq where
  audioTx : Bool
  retriesLeft : Bool

/-- What the driver does. -/
inductive PhyAct where
  | startData
  | startAck
  | txCb
  | ackCb (pending seq : Byte)
  | audioCnf (success : Bool)
  | startUserTimer
  | postRx (buf : Nat)
deriving DecidableEq, Repr

/-- The acknowledge part of `rf_802154_reset`. -/
def rf802154Reset (s : Phy) : Phy :=
  { s with
    isAck := 0
    ackBuf := fun i => if i = 0 then 4 else if i = 4 then 5 else if i = 5 then 0x02 else 0 }

def rfTx (s : Phy) : Phy × List PhyAct := (s, [.startData])

/-- The exits of `rf_rx_irq_handler` before a frame is delivered. -/
inductive RxClass where
  | busy | garbage | audioAck | drop | ackFrame | deliver
deriving DecidableEq, Repr

def rxFrameType (r : RxIrq) : Byte := r.macPld 0 &&& macFcfFrameType

/-- `fDrop` after the beacon and command rules. -/
def rxDrop (c : PhyCfg) (r : RxIrq) : Bool :=
  if !c.target then
    if rxFrameType r = macFrameBeacon then true
    else if rxFrameType r = macFrameCommand then true
    else r.fDrop
  else if rxFrameType r = macFrameBeacon then !r.scan
  else if rxFrameType r = macFrameCommand ∧ r.freeSize < 4 then true
  else r.fDrop

def rxClass (c : PhyCfg) (s : Phy) (r : RxIrq) : RxClass :=
  if r.dmaBusy then .busy
  else if !r.crcOk || !r.lengthOk || decide (s.busyFlag &&& txBusy ≠ 0) then .garbage
  else if c.audioEnable && r.audioTx && decide (r.len = 5 ∧ rxFrameType r = macFrameAck) then .audioAck
  else if rxDrop c r then .drop
  else if r.fAck then .ackFrame
  else .deliver

/-- `fcf1 & MAC_FCF_ACK_REQ_BIT` -/
def rxNeedAck (r : RxIrq) : Bool := r.macPld 0 &&& macFcfAckReqBit ≠ 0

/-- `rf_rx_irq_handler` from the acknowledge on. -/
def rfRxDeliver (s : Phy) (r : RxIrq) : Phy × List PhyAct :=
  let s₁ :=
    if rxNeedAck r then
      { s with
        ackBuf := Function.update (Function.update s.ackBuf 7 (r.macPld 2)) 5 (s.ackBuf 5 ||| (r.framePending <<< 4))
        isAck := 1 }
    else s
  match r.nextRxBuf with
  | none => (s₁, [])
  | some nextRxBuf =>
    let s₂ := { s₁ with rxBuf := nextRxBuf }
    if rxNeedAck r then
      ({ s₂ with busyFlag := s₂.busyFlag ||| (txAckpacket ||| txBusy) }, [.startAck, .postRx s.rxBuf])
    else (s₂, [.postRx s.rxBuf])

def rfRxIrqHandler (c : PhyCfg) (s : Phy) (r : RxIrq) : Phy × List PhyAct :=
  match rxClass c s r with
  | .busy | .garbage | .drop => (s, [])
  | .audioAck => (s, [.audioCnf true])
  | .ackFrame => (s, if s.ackCbFunc then [.ackCb (r.macPld 0 &&& 0x10) (r.macPld 2)] else [])
  | .deliver => rfRxDeliver s r

def rfTxIrqHandler (c : PhyCfg) (s : Phy) (t : TxIrq) : Phy × List PhyAct :=
  if c.audioEnable && t.audioTx then
    (s, if t.retriesLeft then [.startUserTimer] else [.audioCnf false])
  else
    let s := { s with busyFlag := s.busyFlag &&& ~~~txBusy }
    if s.isAck ≠ 0 then
      ({ s with
        busyFlag := s.busyFlag &&& ~~~txAckpacket
        isAck := 0
        ackBuf := Function.update s.ackBuf 5 0x02 }, [])
    else (s, if s.txCbFunc then [.txCb] else [])

/-! ### The radio -/

inductive Transmission where
  | data | ack
deriving DecidableEq, Repr

/-- The driver and the transmission that is started and not yet completed. -/
structure Radio where
  phy : Phy
  air : Option Transmission

inductive RadioCall where
  | tx
  | rxIrq (r : RxIrq)
  | txIrq (t : TxIrq)

/-- The transmission that the actions of a call start. -/
def started : List PhyAct → Option Transmission
  | [] => none
  | .startData :: _ => some .data
  | .startAck :: _ => some .ack
  | _ :: as => started as

def radioStep (c : PhyCfg) (w : Radio) : RadioCall → Radio × List PhyAct
  | .tx => (⟨(rfTx w.phy).1, some .data⟩, (rfTx w.phy).2)
  | .rxIrq r =>
    let res := rfRxIrqHandler c w.phy r
    (⟨res.1, started res.2 <|> w.air⟩, res.2)
  | .txIrq t => (⟨(rfTxIrqHandler c w.phy t).1, none⟩, (rfTxIrqHandler c w.phy t).2)

/-- Starts and tx-done interrupts alternate. -/
def Alternates (c : PhyCfg) (w : Radio) : RadioCall → Prop
  | .tx => w.air = none
  | .rxIrq r => started (rfRxIrqHandler c w.phy r).2 = none ∨ w.air = none
  | .txIrq _ => w.air ≠ none

/-- The acknowledge flags are set only while an ACK is in the air. -/
structure AckFlagsOk (w : Radio) : Prop where
  isAck : w.phy.isAck = 1 → w.air = some .ack
  busyFlag : w.phy.busyFlag &&& (txBusy ||| txAckpacket) ≠ 0 → w.air = some .ack
  ackBuf : w.air ≠ some .ack → w.phy.ackBuf 5 = 0x02

/-- The completion of a data frame outside audio mode is reported exactly once. -/
def CompletionOk (c : PhyCfg) (w : Radio) : RadioCall → Prop
  | .txIrq t => w.air = some .data → (c.audioEnable && t.audioTx) = false → w.phy.txCbFunc = true →
      (rfTxIrqHandler c w.phy t).2.count .txCb = 1
  | _ => True

/-- No acknowledge is prepared without a buffer for the next frame, and no ACK completes in
audio mode. -/
def AckSafe (c : PhyCfg) (w : Radio) : RadioCall → Prop
  | .tx => True
  | .rxIrq r => ¬ (rxClass c w.phy r = .deliver ∧ rxNeedAck r = true ∧ r.nextRxBuf = none)
  | .txIrq t => ¬ (w.air = some .ack ∧ (c.audioEnable && t.audioTx) = true)

/-- Between the calls: the flags say exactly whether an ACK is in the air. -/
structure AckInv (w : Radio) : Prop where
  ack : w.air = some .ack → w.phy.isAck = 1 ∧ w.phy.busyFlag &&& txBusy ≠ 0
  noAck : w.air ≠ some .ack → w.phy.isAck = 0 ∧ w.phy.busyFlag &&& (txBusy ||| txAckpacket) = 0 ∧
    w.phy.ackBuf 5 = 0x02

theorem AckInv.flagsOk {w : Radio} (h : AckInv w) : AckFlagsOk w := by
  by_cases hair : w.air = some .ack
  · exact ⟨fun _ => hair, fun _ => hair, fun hne => absurd hair hne⟩
  · obtain ⟨hisAck, hbusy, hbuf⟩ := h.noAck hair
    constructor
    · intro h1
      rw [hisAck] at h1
      exact absurd h1 (by decide)
    · intro hne
      exact absurd hbusy hne
    · intro _
      exact hbuf

/-! ### One call -/

theorem set_txBusy : ∀ x : Byte, (x ||| (txAckpacket ||| txBusy)) &&& txBusy ≠ 0 := by
  decide +kernel

theorem clear_both : ∀ x : Byte, x &&& ~~~txBusy &&& ~~~txAckpacket &&& (txBusy ||| txAckpacket) = 0 := by
  decide +kernel

theorem clear_again : ∀ x : Byte, x &&& (txBusy ||| txAckpacket) = 0 →
    x &&& ~~~txBusy &&& (txBusy ||| txAckpacket) = 0 := by
  decide +kernel

/-- While an ACK is in the air every reception ends early. -/
theorem rxClass_while_ack {c : PhyCfg} {s : Phy} (h : s.busyFlag &&& txBusy ≠ 0) (r : RxIrq) :
    rxClass c s r ≠ .deliver := by
  unfold rxClass
  by_cases hdma : r.dmaBusy = true
  · rw [if_pos hdma]
    exact nofun
  · rw [if_neg hdma, decide_eq_true h, Bool.or_true, if_pos rfl]
    exact nofun

/-- Outside the delivery a reception changes nothing. -/
theorem rxIrq_not_deliver {c : PhyCfg} {s : Phy} {r : RxIrq} (h : rxClass c s r ≠ .deliver) :
    (rfRxIrqHandler c s r).1 = s ∧ started (rfRxIrqHandler c s r).2 = none := by
  unfold rfRxIrqHandler
  cases hr : rxClass c s r with
  | deliver => exact absurd hr h
  | ackFrame => cases s.ackCbFunc <;> exact ⟨rfl, rfl⟩
  | _ => exact ⟨rfl, rfl⟩

theorem AckInv.of_not_deliver {c : PhyCfg} {w : Radio} {r : RxIrq} (h : AckInv w)
    (hr : rxClass c w.phy r ≠ .deliver) : AckInv (radioStep c w (.rxIrq r)).1 := by
  obtain ⟨hphy, hstart⟩ := rxIrq_not_deliver hr
  unfold radioStep
  dsimp only
  rw [hphy, hstart]
  exact h

/-- What the call has to do: keep the flags right and report a completed data frame. -/
def StepOk (c : PhyCfg) (w : Radio) (k : RadioCall) : Prop :=
  AckFlagsOk (radioStep c w k).1 ∧ CompletionOk c w k

/-- An interrupt that leaves an acknowledge marked and none in the air. -/
theorem not_stepOk {c : PhyCfg} {w : Radio} {k : RadioCall} (hack : (radioStep c w k).1.phy.isAck = 1)
    (hair : (radioStep c w k).1.air ≠ some .ack) : ¬ StepOk c w k :=
  fun h => hair (h.1.isAck hack)

theorem rxIrq_step {c : PhyCfg} {w : Radio} {r : RxIrq} (h : AckInv w) :
    (AckSafe c w (.rxIrq r) → AckInv (radioStep c w (.rxIrq r)).1) ∧
      (¬ AckSafe c w (.rxIrq r) → ¬ StepOk c w (.rxIrq r)) := by
  by_cases hdeliver : rxClass c w.phy r = .deliver
  · have hair : w.air ≠ some .ack := fun hack => rxClass_while_ack (h.ack hack).2 r hdeliver
    obtain ⟨hisAck, hbusy, hbuf⟩ := h.noAck hair
    have hres : rfRxIrqHandler c w.phy r = rfRxDeliver w.phy r := by
      unfold rfRxIrqHandler
      rw [hdeliver]
    cases hneed : rxNeedAck r with
    | true =>
      cases hnext : r.nextRxBuf with
      | none =>
        refine ⟨fun hs => absurd ⟨hdeliver, hneed, hnext⟩ hs, fun _ => not_stepOk ?_ ?_⟩
        · simp [radioStep, hres, rfRxDeliver, hneed, hnext]
        · simpa [radioStep, hres, rfRxDeliver, hneed, hnext, started] using hair
      | some buf =>
        refine ⟨fun _ => ⟨fun _ => ⟨?_, ?_⟩, fun hne => absurd ?_ hne⟩,
          fun hs => absurd (fun hc => nomatch hnext.symm.trans hc.2.2) hs⟩
        · simp [radioStep, hres, rfRxDeliver, hneed, hnext]
        · have hset := set_txBusy w.phy.busyFlag
          simpa [radioStep, hres, rfRxDeliver, hneed, hnext] using hset
        · simp [radioStep, hres, rfRxDeliver, hneed, hnext, started]
    | false =>
      refine ⟨fun _ => ?_, fun hs => absurd (fun hc => nomatch hneed.symm.trans hc.2.1) hs⟩
      have hsame : (radioStep c w (.rxIrq r)).1.phy.isAck = w.phy.isAck ∧
          (radioStep c w (.rxIrq r)).1.phy.busyFlag = w.phy.busyFlag ∧
          (radioStep c w (.rxIrq r)).1.phy.ackBuf = w.phy.ackBuf ∧
          (radioStep c w (.rxIrq r)).1.air = w.air := by
        cases hnext : r.nextRxBuf <;>
          simp [radioStep, hres, rfRxDeliver, hneed, hnext, started]
      obtain ⟨h₁, h₂, h₃, h₄⟩ := hsame
      constructor
      · intro hack
        exact absurd (h₄ ▸ hack) hair
      · intro _
        rw [h₁, h₂, h₃]
        exact ⟨hisAck, hbusy, hbuf⟩
  · exact ⟨fun _ => h.of_not_deliver hdeliver, fun hs => absurd (fun hc => hdeliver hc.1) hs⟩

theorem txIrq_step {c : PhyCfg} {w : Radio} {t : TxIrq} (h : AckInv w) :
    (AckSafe c w (.txIrq t) → AckInv (radioStep c w (.txIrq t)).1 ∧ CompletionOk c w (.txIrq t)) ∧
      (¬ AckSafe c w (.txIrq t) → ¬ StepOk c w (.txIrq t)) := by
  cases haudio : c.audioEnable && t.audioTx with
  | true =>
    by_cases hack : w.air = some .ack
    · refine ⟨fun hs => absurd ⟨hack, haudio⟩ hs, fun _ => not_stepOk ?_ nofun⟩
      simpa [radioStep, rfTxIrqHandler, haudio] using (h.ack hack).1
    · refine ⟨fun _ => ⟨⟨nofun, fun _ => ?_⟩, fun _ hf => nomatch haudio.symm.trans hf⟩,
        fun hs => absurd (fun hc => hack hc.1) hs⟩
      simpa [radioStep, rfTxIrqHandler, haudio] using h.noAck hack
  | false =>
    refine ⟨fun _ => ?_, fun hs => absurd (fun hc => nomatch haudio.symm.trans hc.2) hs⟩
    by_cases hack : w.air = some .ack
    · have hisAck := (h.ack hack).1
      refine ⟨⟨nofun, fun _ => ?_⟩, fun hdata => nomatch hack.symm.trans hdata⟩
      have hclear := clear_both w.phy.busyFlag
      simpa [radioStep, rfTxIrqHandler, haudio, hisAck] using hclear
    · obtain ⟨hisAck, hbusy, hbuf⟩ := h.noAck hack
      have hclear := clear_again _ hbusy
      refine ⟨⟨nofun, fun _ => ?_⟩, fun _ _ hcb => ?_⟩
      · simpa [radioStep, rfTxIrqHandler, haudio, hisAck, hbuf] using hclear
      · simp [rfTxIrqHandler, haudio, hisAck, hcb]

/-- One call does what it has to exactly when it is safe. -/
theorem radioStep_iff {c : PhyCfg} (w : Radio) (k : RadioCall) (h : AckInv w) (halt : Alternates c w k) :
    (StepOk c w k ↔ AckSafe c w k) ∧ (StepOk c w k → AckInv (radioStep c w k).1) := by
  have hsplit : (AckSafe c w k → AckInv (radioStep c w k).1 ∧ CompletionOk c w k) ∧
      (¬ AckSafe c w k → ¬ StepOk c w k) := by
    cases k with
    | tx =>
      have hair : w.air = none := halt
      have hno := h.noAck (by rw [hair]; exact nofun)
      exact ⟨fun _ => ⟨⟨nofun, fun _ => hno⟩, trivial⟩, fun hs => absurd trivial hs⟩
    | rxIrq r =>
      obtain ⟨hsafe, hunsafe⟩ := @rxIrq_step c w r h
      exact ⟨fun hs => ⟨hsafe hs, trivial⟩, hunsafe⟩
    | txIrq t => exact txIrq_step h
  have hsafe : StepOk c w k → AckSafe c w k :=
    fun hok => Classical.byContradiction fun hs => hsplit.2 hs hok
  refine ⟨⟨hsafe, fun hs => ?_⟩, fun hok => (hsplit.1 (hsafe hok)).1⟩
  exact ⟨(hsplit.1 hs).1.flagsOk, (hsplit.1 hs).2⟩

/-- The driver after its reset, with an idle radio. -/
def Radio.afterReset (s : Phy) : Radio := ⟨rf802154Reset { s with busyFlag := 0 }, none⟩

theorem afterReset_inv (s : Phy) : AckInv (.afterReset s) :=
  ⟨nofun, fun _ => ⟨rfl, BitVec.zero_and, rfl⟩⟩

/-- In every alternating run from the reset, the flags are right in every state and every data
frame is reported once, exactly when all calls are safe. -/
theorem ackFlags_iff (c : PhyCfg) (s : Phy) (ks : List RadioCall)
    (halt : Legal (radioStep c) (Alternates c) (.afterReset s) ks) :
    AckFlagsOk (.afterReset s) ∧
      (Legal (radioStep c) (StepOk c) (.afterReset s) ks ↔ Legal (radioStep c) (AckSafe c) (.afterReset s) ks) :=
  ⟨(afterReset_inv s).flagsOk,
    legal_iff (fun w k h ha => (radioStep_iff w k h ha).1) (fun w k h ha => (radioStep_iff w k h ha).2)
      (afterReset_inv s) halt⟩

def Phy.zero : Phy := ⟨0, 0, fun _ => 0, 0, true, true⟩

/-- A data frame that wants an acknowledge. -/
def ackRequest (nextRxBuf : Option Nat) : RxIrq :=
  ⟨false, true, true, 20, fun i => if i = 0 then 0x21 else 7, false, false, false, false, 4, 0, nextRxBuf⟩

def plainCfg : PhyCfg := ⟨false, false⟩

theorem ackFlags_iff_exchange :
    let ks := [.tx, .txIrq ⟨false, true⟩, .rxIrq (ackRequest (some 1)), .txIrq ⟨false, true⟩]
    AckFlagsOk (.afterReset .zero) ∧
      (Legal (radioStep plainCfg) (StepOk plainCfg) (.afterReset .zero) ks ↔
        Legal (radioStep plainCfg) (AckSafe plainCfg) (.afterReset .zero) ks) :=
  ackFlags_iff plainCfg .zero _ ⟨rfl, nofun, .inr rfl, nofun, trivial⟩

/-- No buffer for the next frame: the acknowledge is marked and not sent, and the completion of
the next data frame is not reported. -/
theorem ackFlags_leak :
    let ks := [.rxIrq (ackRequest none), .tx, .txIrq ⟨false, true⟩]
    Legal (radioStep plainCfg) (Alternates plainCfg) (.afterReset .zero) ks ∧
      ¬ Legal (radioStep plainCfg) (StepOk plainCfg) (.afterReset .zero) ks ∧
      (run (radioStep plainCfg) (.afterReset .zero) [.rxIrq (ackRequest none)]).1.phy.isAck = 1 ∧
      (run (radioStep plainCfg) (.afterReset .zero) ks).2 = [[], [.startData], []] := by
  refine ⟨⟨.inl rfl, rfl, nofun, trivial⟩, fun hok => ?_, by decide +kernel, by decide +kernel⟩
  have hair := hok.1.1.isAck rfl
  cases hair

end Rf4ce.Mac
