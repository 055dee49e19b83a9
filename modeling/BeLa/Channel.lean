import BeLa.Message

/-!
The daemon's state and its channel callbacks: `do_vm_request_read` with the close
path, and `vm_channel_open` with the connection to a card's socket. The state
also keeps the armed read events, each with the card pointer it will be called
with, and the records that have been freed, as they were when they were freed.
-/
namespace BeLa.Channel

open LittleEndian PartialTransfer Stops Slots Framing Context Execute Card Message

/-- An armed read event with callback `do_vm_request_read`. -/
structure ReadEvent where
  id : ℕ
  /-- The name of the socket its descriptor is connected to. -/
  socket : Bytes
  arg : ℕ
  deriving DecidableEq, Repr

structure Daemon where
  table : AccCardsTable
  events : List ReadEvent
  freed : List BeCardInner
  shared : Shared

namespace Daemon

def cards (s : Daemon) : List BeCardInner := s.table.cards

/-- The card behind a pointer; `none` when no card of the table has that address. -/
def cardAt (s : Daemon) (addr : ℕ) : Option BeCardInner :=
  s.cards.find? (fun card => card.addr = addr)

def writeCard (s : Daemon) (card : BeCardInner) : Daemon :=
  { s with table.slots := overwrite BeCardInner.addr card s.table.slots }

end Daemon

/-- What one call of `do_vm_request_read` meets: the bytes before the end of the stream,
the answers of read and writev, what `out_buf` holds, and the world of its commands. -/
structure Delivery where
  stream : Bytes
  reads : List Answer
  writes : List Answer
  outBuf : Bytes
  world : World

/-- A call of `do_vm_request_read`: the body length it asked for, the index through which
it called a handler, its reply, the bytes it wrote, and how it ended. -/
structure RequestRun where
  asked : Option ℤ
  called : Option (BitVec 32)
  reply : Option AccMsgHeader
  sent : Bytes
  result : Except Stop Daemon

/-- The failure branch of `do_vm_request_read`; freeing a null event crashes. -/
def closeChannel (w : World) (card : BeCardInner) (s : Daemon) : Except Stop Daemon :=
  match card.readEvent with
  | none => .error .nullDeref
  | some myself =>
    let card := { card with readEvent := none }
    let s := { s.writeCard card with events := s.events.filter (fun e => e.id ≠ myself) }
    match beAccFlushRules w card s.shared with
    | .error stop => .error stop
    | .ok (card, shared) =>
      let s := { s.writeCard card with shared := shared }
      match beAccCardUnreg (.ofCard card) s.table with
      | .error stop => .error stop
      | .ok (table, freed) => .ok { s with table := table, freed := s.freed ++ freed.toList }

def replyTo (hdr : AccMsgHeader) (handled : Handled) : AccMsgHeader where
  totalLen := BitVec.ofNat 32 (AccMsgHeader.size + handled.outLen)
  accType := hdr.accType
  msgType := hdr.msgType
  code := if handled.ok then accUnixSuccess else accUnixFail

def doVmRequestRead (s : Daemon) (arg : ℕ) (d : Delivery) : RequestRun :=
  match s.cardAt arg with
  | none => ⟨none, none, none, [], .error .useAfterFree⟩
  | some card =>
    let recv := accUnixRecvMessage bufSize ⟨d.stream, d.reads⟩
    match recv.result with
    | .error stop => ⟨recv.asked, none, none, [], .error stop⟩
    | .ok ⟨none, _⟩ => ⟨recv.asked, none, none, [], closeChannel d.world card s⟩
    | .ok ⟨some msg, _⟩ =>
      match beAccMessageProcess d.world card msg.hdr.msgType msg.body 0 s.shared with
      | .error stop => ⟨recv.asked, some msg.hdr.msgType, none, [], .error stop⟩
      | .ok handled =>
        let reply := replyTo msg.hdr handled
        match accUnixSendMessage reply (d.outBuf.take handled.outLen) d.writes with
        | none => ⟨recv.asked, some msg.hdr.msgType, some reply, [], .error .waiting⟩
        | some sent =>
          ⟨recv.asked, some msg.hdr.msgType, some reply, sent.bytes,
            -- writev to a closed socket raises SIGPIPE; its error alone is not looked at
            if ¬ sent.success ∧ ¬ d.world.peerOpen then .error .brokenPipe
            else .ok { s.writeCard handled.card with shared := handled.shared }⟩

structure OpenRun where
  access : Bool
  socket : Bool
  connect : Bool
  nonblocking : Bool
  eventNew : Bool
  deriving DecidableEq, Repr

def sunPathSize : ℕ := 108

/-- `unix_socket_clnt_init`: the name that `connect` reads from `sun_path`, which was copied
with a bound of the whole structure less one. -/
def unixSocketClntInit (path : Bytes) (run : OpenRun) : Option Bytes :=
  if ¬ run.access then none
  else if ¬ run.socket then none
  else if ¬ run.connect then none
  else some (cString ((strncpy path (sunPathSize + 2 - 1)).take sunPathSize))

/-- `vm_channel_open` for the card whose path is the given string; true is 0. -/
def vmChannelOpen (path : Bytes) (run : OpenRun) (s : Daemon) : Except Stop (Bool × Daemon) :=
  match unixSocketClntInit path run with
  | none => .ok (false, s)
  | some socket =>
    match beLaGetAccCardptr s.table path with
    | none => .error .nullDeref
    | some card =>
      if card.context.isSome then .error (.assertion .vmChannelOpen)
      else if ¬ run.nonblocking then .ok (false, s)
      else if ¬ run.eventNew then .ok (false, s.writeCard { card with readEvent := none })
      else
        let id := s.shared.nextAddr
        .ok (true, { s.writeCard { card with readEvent := some id } with
          events := s.events ++ [⟨id, socket, card.addr⟩]
          shared.nextAddr := id + 1 })

end BeLa.Channel
