import BeLa.Channel

/-!
The client of a card's channel: `acc_channel_connect`, `acc_channel_add_flows`
and `acc_channel_disconnect` of the VNF, each one request and one reply. The
reply comes from whatever the bytes of the request have reached.
-/
namespace BeLa.Client

open LittleEndian PartialTransfer Stops Framing BeLa.Flow Execute Plugin Channel

inductive ErrorCode
  | disconnect
  | invalid
  | flowsAccept
  | flowsRejection
  deriving DecidableEq, Repr

/-- The channel of a client: the answers to its writes, whether `poll` reports the reply, and
what can be read once the given bytes have been sent. -/
structure Link where
  writes : List Answer
  ready : Bool
  inbound : Bytes → Inbound

/-- `acc_unix_send_recv` without a buffer for the body of the reply; `none` where it
returns -1. -/
def accUnixSendRecv (msg : Framing.Message) (link : Link) : Except Stop (Option AccMsgHeader) :=
  match accUnixSendMessage msg.hdr msg.body link.writes with
  | none => .error .waiting
  | some sent =>
    if ¬ sent.success then .ok none
    else if ¬ link.ready then .ok none
    else
      match (accUnixRecvMessage 0 (link.inbound sent.bytes)).result with
      | .error stop => .error stop
      | .ok ⟨none, _⟩ => .ok none
      | .ok ⟨some reply, _⟩ => .ok (some reply.hdr)

def request (msgType : BitVec 32) (body : Bytes) : Framing.Message where
  hdr :=
    { totalLen := BitVec.ofNat 32 (AccMsgHeader.size + body.length)
      accType := accTypeFlow
      msgType := msgType
      code := 0 }
  body := body

def helloMessage (hostname : Bytes) : Framing.Message := request accUnixHello hostname

def addFlowsMessage (flows : List AccFlow) : Framing.Message :=
  request accUnixAddFlows (flowsBytes flows)

def byeMessage : Framing.Message := request accUnixDisconnect []

/-- `acc_channel_connect`: whether it returns a handle. -/
def accChannelConnect (opened : Bool) (hostname : Option Bytes) (link : Link) :
    Except Stop Bool :=
  if ¬ opened then .ok false
  else
    match hostname with
    | none => .ok false
    | some name =>
      match accUnixSendRecv (helloMessage name) link with
      | .error stop => .error stop
      | .ok none => .ok false
      | .ok (some reply) => .ok (reply.code = accUnixSuccess ∧ reply.msgType = accUnixHello)

def accChannelAddFlows (flows : List AccFlow) (link : Link) : Except Stop ErrorCode :=
  match accUnixSendRecv (addFlowsMessage flows) link with
  | .error stop => .error stop
  | .ok none => .ok .disconnect
  | .ok (some reply) =>
    if reply.code = accUnixSuccess ∧ reply.msgType = accUnixAddFlows then .ok .flowsAccept
    else .ok .flowsRejection

/-- Every request that fits the server's buffer is framed. -/
theorem request_framed (msgType : BitVec 32) {body : Bytes} (h : body.length ≤ bufSize) :
    (request msgType body).Framed := by
  refine ⟨?_, h⟩
  have hsize : bufSize = 2048 := rfl
  have hheader : AccMsgHeader.size = 16 := rfl
  have hvalue : (BitVec.ofNat 32 (AccMsgHeader.size + body.length)).toNat =
      AccMsgHeader.size + body.length := by
    rw [BitVec.toNat_ofNat, Nat.mod_eq_of_lt (by omega)]
  change (BitVec.ofNat 32 (AccMsgHeader.size + body.length)).toInt = _
  rw [BitVec.toInt_eq_toNat_of_lt (by omega), hvalue]
  rfl

theorem addFlowsMessage_framed {flows : List AccFlow}
    (h : AccFlow.size * flows.length ≤ bufSize) : (addFlowsMessage flows).Framed :=
  request_framed accUnixAddFlows (by rwa [length_flowsBytes])

def arriving (msg : Framing.Message) (w : World) : Delivery where
  stream := msg.bytes
  reads := List.replicate msg.bytes.length (.moved bufSize)
  writes := List.replicate AccMsgHeader.size (.moved AccMsgHeader.size)
  outBuf := []
  world := w

def closing (w : World) : Delivery where
  stream := []
  reads := [.moved AccMsgHeader.size]
  writes := []
  outBuf := []
  world := w

end BeLa.Client
