import Rf4ce.Ota.Client
import Rf4ce.Ota.Reassembly

/-! One OTA client and one server over a link that may lose, delay, repeat and reorder their
messages. -/
namespace Rf4ce.Ota
open Crash Drv Common Os

/-- What the client has programmed since its last erase, its erases, and the requests it has
sent. -/
structure Trace where
  programmed : List (Nat × Byte)
  erases : Nat
  sent : List OtaReq

def Trace.note (m : Trace) : OtaOp → Trace
  | .flash (.erase _) => { m with programmed := [], erases := m.erases + 1 }
  | .flash (.program addr data) => { m with programmed := m.programmed ++ placed addr data }
  | .send msg => { m with sent := m.sent ++ [msg] }
  | _ => m

/-- Both parties, with all messages sent so far; `log` holds the numbers of the chunks that were
handed to `ota_DataProcess` since the last erase. -/
structure OtaNet where
  client : OtaWorld
  trace : Trace
  log : List Nat
  server : Server
  rsps : List OtaRsp

/-- The client takes a call, messages of the server included, or the server a request. -/
inductive NetEv where
  | client (now : U32) (k : ClientCall)
  | server (req : OtaReq)

/-- The client hands the message to `ota_DataProcess`. -/
def Taken (c : Client) (hdr : OtaDataFrame) : Prop :=
  (hdr.toOtaIdent = c.rcOtaInfo.toOtaIdent ∧ hdr.imageSize = c.rcDataCount) ∧ hdr.payloadSize ≠ 0

instance (c : Client) (hdr : OtaDataFrame) : Decidable (Taken c hdr) := inferInstanceAs (Decidable (_ ∧ _))

def takenChunk (c : Client) : ClientCall → List Nat
  | .dataRsp hdr => if Taken c hdr then [hdr.imageSize] else []
  | _ => []

/-- The chunk numbers after a call that leads from `m` to `m'`. -/
def logAfter (c : Option Client) (k : ClientCall) (m m' : Trace) (log : List Nat) : List Nat :=
  if m'.erases = m.erases then log ++ (c.elim [] fun c => takenChunk c k) else []

section Model
variable (cfg : OtaCfg) (serverMcu : Mcu) (f : Flash)

/-- `ota_startReq` is called, and nothing is sent so far. -/
def OtaNet.start (now : U32) (w : OtaWorld) (s : Server) : OtaNet where
  client := (otaStep cfg w (now, .startReq)).1
  trace := ⟨[], 0, []⟩
  log := []
  server := s
  rsps := []

def netStep (w : OtaNet) : NetEv → OtaNet × Unit
  | .client now k =>
    let r := otaStep cfg w.client (now, k)
    let trace := r.2.foldl Trace.note w.trace
    ({ w with client := r.1, trace, log := logAfter w.client.client k w.trace trace w.log }, ())
  | .server req =>
    let r := otaServerCmd serverMcu f w.server req
    ({ w with server := r.1, rsps := w.rsps ++ r.2.toList }, ())

end Model

/-- A DATA_RSP as it lies in the client's memory; of a message that ends after its header the
rest is whatever was there before. -/
def ReadsAs (data : Option (OtaPreamble × List Byte)) (hdr : OtaDataFrame) : Prop :=
  match data with
  | none => True
  | some (rsp, payload) => hdr.toOtaPreamble = rsp ∧ hdr.payloadSize = BitVec.ofNat 8 payload.length ∧
      ∀ j (hj : j < payload.length), hdr.payload j = payload[j]

/-- Only messages that were sent arrive, each any number of times; there is no other
`ota_startReq`. -/
def NetEnv (w : OtaNet) : NetEv → Prop
  | .client _ k =>
    match k with
    | .startReq => False
    | .startRsp hdr => ∃ seqNo, .startRsp seqNo hdr ∈ w.rsps
    | .dataRsp hdr => ∃ seqNo data, .dataRsp seqNo data ∈ w.rsps ∧ ReadsAs data hdr
    | .stopRsp hdr => ∃ seqNo, .stopRsp seqNo hdr ∈ w.rsps
    | _ => True
  | .server req => req ∈ w.trace.sent

/-- START_RSP is handled only before the first chunk. -/
def StartsFresh (w : OtaNet) : NetEv → Prop
  | .client _ (.startRsp _) => ∀ c, w.client.client = some c → c.rcDataCount = 0 ∧ c.otaHeadercnt = 0
  | _ => True

end Rf4ce.Ota
