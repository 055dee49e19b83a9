import BeLa.Channel

/-!
The command server's `be_la_cmd_process`, and the daemon as a machine: its event
loop calls a command's callback or the callback of an armed read event.
-/
namespace BeLa.Command

open LittleEndian Stops Switch Context Card Channel

/-- `cmd_hdr_t`. -/
structure CmdHdr where
  card : AccCard
  cmdType : BitVec 32
  deriving DecidableEq

def cmdTypeRegister : BitVec 32 := 1
def cmdTypeUnregister : BitVec 32 := 2

structure CommandWorld where
  allocCard : Bool
  openRun : OpenRun
  deriving DecidableEq, Repr

/-- `be_la_cmd_process` on a received block, behind which the command buffer holds the
given bytes; true is 0. -/
def beLaCmdProcess (cmd : CmdHdr) (behind : Bytes) (env : CommandWorld) (s : Daemon) :
    Except Stop (Bool × Daemon) :=
  if cmd.cmdType = cmdTypeRegister then
    let rest := wordBytes 4 cmd.cmdType ++ behind
    match beAccCardReg env.allocCard s.shared.nextAddr cmd.card rest s.table with
    | .error stop => .error stop
    | .ok none => .ok (false, s)
    | .ok (some table) =>
      vmChannelOpen (cmd.card.pathBefore rest) env.openRun
        { s with table := table, shared.nextAddr := s.shared.nextAddr + 1 }
  else if cmd.cmdType = cmdTypeUnregister then
    match beAccCardUnreg (.ofCommand cmd.card cmd.cmdType behind) s.table with
    | .error stop => .error stop
    | .ok (table, freed) => .ok (true, { s with table := table, freed := s.freed ++ freed.toList })
  else .ok (false, s)

inductive DaemonEvent
  | command (cmd : CmdHdr) (behind : Bytes) (env : CommandWorld)
  | readable (event : ℕ) (delivery : Delivery)

/-- One round of the event loop; an event that is not armed is never called. -/
def daemonStep (s : Daemon) : DaemonEvent → Except Stop Daemon
  | .command cmd behind env =>
    match beLaCmdProcess cmd behind env s with
    | .error stop => .error stop
    | .ok (_, after) => .ok after
  | .readable event delivery =>
    match s.events.find? (fun e => e.id = event) with
    | none => .ok s
    | some e => (doVmRequestRead s e.arg delivery).result

/-- The daemon at start-up, in front of a bridge that may hold other rules. -/
def boot (rules : List SwitchRule) : Daemon where
  table := beLaAccCardsInit
  events := []
  freed := []
  shared := .start rules

/-- A card is registered under a one-letter path, and its channel opens. -/
def registerPlain (path : Byte) : DaemonEvent :=
  .command ⟨AccCard.plain path, cmdTypeRegister⟩ [] ⟨true, ⟨true, true, true, true, true⟩⟩

end BeLa.Command
