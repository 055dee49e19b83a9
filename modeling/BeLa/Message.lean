import BeLa.Card
import BeLa.Framing

/-!
The three message handlers and the table `s_msg_handle` through which
`be_acc_message_process` calls them. A handler changes its card and the shared
state; the length it is given is the length of the received body.
-/
namespace BeLa.Message

open LittleEndian Numerals Stops Framing BeLa.Flow Context Execute Plugin Card

/-- What a handler leaves behind: whether it returned 0, the length of its output, the
card and the shared state. -/
structure Handled where
  ok : Bool
  outLen : ℕ
  card : BeCardInner
  shared : Shared

/-- The memory of `hostname` and `bridge` after the copies of `hello_message_handle`. -/
def helloNames (names message : Bytes) : Bytes :=
  let copied := writeAt names 0 (strncpy message message.length)
  let terminated := writeAt copied message.length [0]
  writeAt terminated nameSize [0x62, 0x72, 0x30, 0]

def helloMessageHandle (w : World) (card : BeCardInner) (message : Bytes) (outLen : ℕ)
    (sh : Shared) : Except Stop Handled :=
  if nameSize < message.length then .ok ⟨false, outLen, card, sh⟩
  else
    match bePluginMatch gAccPlugins card.card.vendor card.card.model card.card.accType with
    | .error stop => .error stop
    | .ok none => .ok ⟨false, outLen, { card with plugin := none }, sh⟩
    | .ok (some slot) =>
      let destroyed : Except Stop Unit :=
        match card.context with
        | some context => bePluginContextDestory gAccPlugins slot context
        | none => .ok ()
      match destroyed with
      | .error stop => .error stop
      | .ok () =>
        match bePluginContextInit gAccPlugins slot w card.addr sh.nextAddr with
        | .error stop => .error stop
        | .ok none => .ok ⟨false, outLen, { card with plugin := none, context := none }, sh⟩
        | .ok (some zeroed) =>
          let context : AccContext :=
            { zeroed with
              names := helloNames zeroed.names message
              hostid := sh.contextHostId
              be := accGetRuleBeByName "ovs-rule".toList }
          .ok ⟨true, 0, { card with plugin := some slot, context := some context },
            { sh with
              contextHostId := sh.contextHostId + 1
              nextAddr := sh.nextAddr + 1
              history.hellos := sh.history.hellos ++
                [⟨card.addr, context.addr, sh.contextHostId⟩] }⟩

def addFlowsMessageHandle (w : World) (card : BeCardInner) (message : Bytes) (outLen : ℕ)
    (sh : Shared) : Except Stop Handled :=
  let nFlows := message.length / AccFlow.size
  if nFlows * AccFlow.size ≠ message.length then .ok ⟨false, outLen, card, sh⟩
  else
    match card.context with
    | none => .error (.assertion .addFlowsMessageHandle)
    | some context =>
      match context.be with
      | none => .error .nullDeref
      | some .ovsRule =>
        match accOvsAddRules w context (flowsOf nFlows message) sh with
        | .error stop => .error stop
        | .ok (ok, after) => .ok ⟨ok, 0, card, after⟩

/-- `be_acc_flush_rules`; the result of the flush is not looked at. -/
def beAccFlushRules (w : World) (card : BeCardInner) (sh : Shared) :
    Except Stop (BeCardInner × Shared) :=
  match card.context with
  | none => .error (.assertion .beAccFlushRules)
  | some context =>
    match context.be with
    | none => .error .nullDeref
    | some .ovsRule =>
      match accOvsFlushRules w context (w.shell 0) sh with
      | .error stop => .error stop
      | .ok (_, after) => .ok ({ card with plugin := none, context := none }, after)

def disconnectMessageHandle (w : World) (card : BeCardInner) (sh : Shared) :
    Except Stop Handled :=
  match beAccFlushRules w card sh with
  | .error stop => .error stop
  | .ok (card, after) => .ok ⟨true, 0, card, after⟩

inductive Handler
  | hello
  | addFlows
  | disconnect
  deriving DecidableEq, Repr

/-- `s_msg_handle` after `acc_unix_server_msg_init`. -/
def sMsgHandle : List (Option Handler) :=
  (((List.replicate accUnixMaxType none).set accUnixHello.toNat (some .hello)).set
    accUnixAddFlows.toNat (some .addFlows)).set accUnixDisconnect.toNat (some .disconnect)

/-- The entry that `s_msg_handle[type]` reads, for a signed index. -/
def handlerAt (type : BitVec 32) : Except Stop Handler :=
  if type.toInt < 0 ∨ accUnixMaxType ≤ type.toInt.toNat then .error .outOfBounds
  else
    match sMsgHandle.getD type.toInt.toNat none with
    | none => .error .nullCall
    | some handler => .ok handler

def Handler.run (handler : Handler) (w : World) (card : BeCardInner) (message : Bytes)
    (outLen : ℕ) (sh : Shared) : Except Stop Handled :=
  match handler with
  | .hello => helloMessageHandle w card message outLen sh
  | .addFlows => addFlowsMessageHandle w card message outLen sh
  | .disconnect => disconnectMessageHandle w card sh

def beAccMessageProcess (w : World) (card : BeCardInner) (type : BitVec 32) (message : Bytes)
    (outLen : ℕ) (sh : Shared) : Except Stop Handled :=
  match handlerAt type with
  | .error stop => .error stop
  | .ok handler => handler.run w card message outLen sh

end BeLa.Message
