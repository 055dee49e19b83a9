import BeLa.CommandServer
import BeLa.Descriptors

/-!
The process around the daemon: `main`, the socket of the command server, and the
descriptors that the callbacks take and close. A connection to the command server
is served once and closed, a channel keeps its descriptor until it is closed, and
a channel whose connect fails leaves its descriptor behind. What a command line or
an ssh session opens is closed again before the callback returns. The daemon does
not look at the result of `event_add`; an added event is taken to be armed.
-/
namespace BeLa.EventLoop

open LittleEndian PartialTransfer Stops Runs Slots Framing Switch Context Card Channel Command
open CommandServer Descriptors

/-- An armed event with callback `be_cmd_request_process`. -/
structure CommandEvent where
  id : ℕ
  fd : ℕ
  deriving DecidableEq, Repr

structure Process where
  files : Files
  cmdSrv : ℕ
  waiting : List CommandEvent
  /-- The command events that are deleted from the base; nothing frees them. -/
  spent : List ℕ
  nextEvent : ℕ
  /-- The descriptor of each armed event of a channel, by the id of the event. -/
  sockets : List (ℕ × ℕ)
  daemon : Daemon

structure AcceptRun where
  accept : Bool
  nonblocking : Bool
  eventNew : Bool
  deriving DecidableEq, Repr

def fdSetsize : ℕ := 1024

def beCmdServerProcess (run : AcceptRun) (s : Process) : Except Stop Process :=
  match if run.accept then s.files.take else none with
  | none => .ok s
  | some (fd, files) =>
    if fd > fdSetsize then .ok { s with files := files.close fd }
    else if ¬ run.nonblocking then .ok { s with files := files.close fd }
    else if ¬ run.eventNew then .error .nullDeref
    else .ok { s with
      files := files
      waiting := s.waiting ++ [⟨s.nextEvent, fd⟩]
      nextEvent := s.nextEvent + 1 }

/-- `unix_socket_clnt_init`: the descriptor with the name it is connected to, and the
descriptors of the process. -/
def unixSocketClntInit (path : Bytes) (run : OpenRun) (files : Files) :
    Option (ℕ × Bytes) × Files :=
  if ¬ run.access then (none, files)
  else
    match if run.socket then files.take else none with
    | none => (none, files)
    | some (fd, files) =>
      -- a failed connect returns without closing the descriptor
      if ¬ run.connect then (none, files)
      else (some (fd, cString ((strncpy path (sunPathSize + 2 - 1)).take sunPathSize)), files)

/-- `vm_channel_open`; true is 0. -/
def vmChannelOpen (path : Bytes) (run : OpenRun) (s : Process) : Except Stop (Bool × Process) :=
  match unixSocketClntInit path run s.files with
  | (none, files) => .ok (false, { s with files := files })
  | (some (fd, socket), files) =>
    match beLaGetAccCardptr s.daemon.table path with
    | none => .error .nullDeref
    | some card =>
      if card.context.isSome then .error (.assertion .vmChannelOpen)
      else if ¬ run.nonblocking then .ok (false, { s with files := files.close fd })
      else if ¬ run.eventNew then
        .ok (false, { s with
          files := files.close fd
          daemon := s.daemon.writeCard { card with readEvent := none } })
      else
        let id := s.daemon.shared.nextAddr
        .ok (true, { s with
          files := files
          sockets := s.sockets ++ [(id, fd)]
          daemon := { s.daemon.writeCard { card with readEvent := some id } with
            events := s.daemon.events ++ [⟨id, socket, card.addr⟩]
            shared.nextAddr := id + 1 } })

/-- `be_la_cmd_process`; only the opening of a channel takes descriptors. -/
def beLaCmdProcess (cmd : CmdHdr) (behind : Bytes) (env : CommandWorld) (s : Process) :
    Except Stop (Bool × Process) :=
  if cmd.cmdType = cmdTypeRegister then
    let rest := wordBytes 4 cmd.cmdType ++ behind
    match beAccCardReg env.allocCard s.daemon.shared.nextAddr cmd.card rest s.daemon.table with
    | .error stop => .error stop
    | .ok none => .ok (false, s)
    | .ok (some table) =>
      vmChannelOpen (cmd.card.pathBefore rest) env.openRun
        { s with daemon := { s.daemon with
            table := table
            shared.nextAddr := s.daemon.shared.nextAddr + 1 } }
  else
    (Command.beLaCmdProcess cmd behind env s.daemon).map fun result =>
      (result.1, { s with daemon := result.2 })

def Process.dismiss (s : Process) (event : CommandEvent) : Process :=
  { s with
    files := s.files.close event.fd
    waiting := s.waiting.filter fun other => other.id ≠ event.id
    spent := event.id :: s.spent }

def beCmdRequestProcess (s : Process) (event : CommandEvent) (req : Request) :
    Except Stop Process :=
  match req.received with
  | none => .ok (s.dismiss event)
  | some block =>
    if block.length = 0 then .ok (s.dismiss event)
    else if block.length ≠ cmdHdrSize then .ok (s.dismiss event)
    else (beLaCmdProcess (cmdOf block) req.behind req.env s).map fun result =>
      result.2.dismiss event

def receiveFails (d : Delivery) : Bool :=
  match (accUnixRecvMessage bufSize ⟨d.stream, d.reads⟩).result with
  | .ok ⟨none, _⟩ => true
  | _ => false

/-- `do_vm_request_read` of an event: where nothing is received, the descriptor it was called
with is closed, and the event of the card is freed. -/
def doVmRequestRead (s : Process) (arg fd : ℕ) (d : Delivery) : Except Stop Process :=
  match (Channel.doVmRequestRead s.daemon arg d).result with
  | .error stop => .error stop
  | .ok daemon =>
    if receiveFails d then
      .ok { s with
        files := s.files.close fd
        sockets := s.sockets.filter fun socket => daemon.events.any fun e => e.id = socket.1
        daemon := daemon }
    else .ok { s with daemon := daemon }

inductive LoopEvent
  | incoming (run : AcceptRun)
  | request (event : ℕ) (req : Request)
  | readable (event : ℕ) (delivery : Delivery)

/-- One round of `event_base_dispatch`; an event that is not armed is never called. -/
def loopStep (s : Process) : LoopEvent → Except Stop Process
  | .incoming run => beCmdServerProcess run s
  | .request event req =>
    match s.waiting.find? (fun e => e.id = event) with
    | none => .ok s
    | some e => beCmdRequestProcess s e req
  | .readable event delivery =>
    match s.sockets.find? (fun socket => socket.1 = event) with
    | none => .ok s
    | some socket =>
      match s.daemon.events.find? (fun e => e.id = event) with
      | none => .ok s
      | some e => doVmRequestRead s e.arg socket.2 delivery

structure MainRun where
  socket : Bool
  bind : Bool
  listen : Bool
  eventNew : Bool
  deriving DecidableEq, Repr

/-- `be_cmd_srv_init`; none is -1. -/
def beCmdSrvInit (run : MainRun) (files : Files) : Option ℕ × Files :=
  match if run.socket then files.take else none with
  | none => (none, files)
  | some (fd, files) =>
    if ¬ run.bind then (none, files)
    else if ¬ run.listen then (none, files)
    else (some fd, files)

/-- `main` up to `event_base_dispatch`; none is a return of 1. What `event_base_new` opens for
the base is libevent's. -/
def main (eventBaseNew : Files → Option Files) (rules : List SwitchRule) (run : MainRun)
    (files : Files) : Option Process :=
  match beCmdSrvInit run files with
  | (none, _) => none
  | (some cmdSrv, files) =>
    match eventBaseNew files with
    | none => none
    | some files =>
      if ¬ run.eventNew then none
      else some ⟨files, cmdSrv, [], [], 0, [], boot rules⟩

/-! Without the descriptors, the loop is the command server over the daemon. -/

/-- The calls of `vm_channel_open` as they end with these descriptors: without a free one there
is no socket. -/
def roomed (run : OpenRun) (files : Files) : OpenRun :=
  { run with socket := run.socket && files.take.isSome }

def roomedRequest (req : Request) (files : Files) : Request :=
  { req with env := { req.env with openRun := roomed req.env.openRun files } }

def serverEvent (s : Process) : LoopEvent → Option ServerEvent
  | .incoming _ => none
  | .request event req =>
    (s.waiting.find? fun e => e.id = event).map fun _ => .request (roomedRequest req s.files)
  | .readable event delivery =>
    (s.sockets.find? fun socket => socket.1 = event).map fun _ => .readable event delivery

variable {s s' : Process} {files files' : Files}

theorem socket_taken (run : OpenRun) (files : Files) :
    (if run.socket then files.take else none).isSome = (run.socket && files.take.isSome) := by
  cases run.socket <;> rfl

/-- The connection is opened as the daemon without descriptors opens it. -/
theorem clntInit_socket (path : Bytes) (run : OpenRun) (files : Files) :
    (unixSocketClntInit path run files).1.map Prod.snd =
      Channel.unixSocketClntInit path (roomed run files) := by
  have htaken := socket_taken run files
  unfold unixSocketClntInit Channel.unixSocketClntInit roomed
  by_cases haccess : run.access
  · simp only [haccess, not_true_eq_false, if_false]
    cases htake : (if run.socket then files.take else none) with
    | none =>
      rw [htake] at htaken
      simp [← htaken]
    | some taken =>
      rw [htake] at htaken
      by_cases hconnect : run.connect
      · simp [← htaken, hconnect]
      · simp [← htaken, hconnect]
  · simp [haccess]

theorem vmChannelOpen_daemon (path : Bytes) (run : OpenRun) (s : Process) :
    (vmChannelOpen path run s).map (fun result => (result.1, result.2.daemon)) =
      Channel.vmChannelOpen path (roomed run s.files) s.daemon := by
  have hinit := clntInit_socket path run s.files
  unfold vmChannelOpen Channel.vmChannelOpen
  rcases hclnt : unixSocketClntInit path run s.files with ⟨_ | ⟨fd, socket⟩, files⟩
  · rw [hclnt] at hinit
    simp [← hinit, Except.map]
  · rw [hclnt] at hinit
    simp only [← hinit, Option.map_some]
    cases beLaGetAccCardptr s.daemon.table path with
    | none => rfl
    | some card =>
      have hnonblocking : (roomed run s.files).nonblocking = run.nonblocking := rfl
      have heventNew : (roomed run s.files).eventNew = run.eventNew := rfl
      rw [hnonblocking, heventNew]
      by_cases hcontext : card.context.isSome
      · simp [hcontext, Except.map]
      · by_cases hblocking : run.nonblocking
        · by_cases hevent : run.eventNew
          · simp [hcontext, hblocking, hevent, Except.map]
          · simp [hcontext, hblocking, hevent, Except.map]
        · simp [hcontext, hblocking, Except.map]

theorem beLaCmdProcess_daemon (cmd : CmdHdr) (behind : Bytes) (env : CommandWorld) (s : Process) :
    (beLaCmdProcess cmd behind env s).map (fun result => (result.1, result.2.daemon)) =
      Command.beLaCmdProcess cmd behind { env with openRun := roomed env.openRun s.files }
        s.daemon := by
  by_cases htype : cmd.cmdType = cmdTypeRegister
  · unfold beLaCmdProcess Command.beLaCmdProcess
    simp only [if_pos htype]
    cases beAccCardReg env.allocCard s.daemon.shared.nextAddr cmd.card
      (wordBytes 4 cmd.cmdType ++ behind) s.daemon.table with
    | error stop => rfl
    | ok table =>
      cases table with
      | none => rfl
      | some table => exact vmChannelOpen_daemon _ _ _
  · have hsame : ∀ run, Command.beLaCmdProcess cmd behind { env with openRun := run } s.daemon =
        Command.beLaCmdProcess cmd behind env s.daemon := by
      intro run
      unfold Command.beLaCmdProcess
      simp only [if_neg htype]
    rw [hsame, beLaCmdProcess, if_neg htype]
    cases Command.beLaCmdProcess cmd behind env s.daemon with
    | error stop => rfl
    | ok result => rfl

theorem beCmdRequestProcess_daemon (s : Process) (event : CommandEvent) (req : Request) :
    (beCmdRequestProcess s event req).map Process.daemon =
      CommandServer.beCmdRequestProcess s.daemon (roomedRequest req s.files) := by
  unfold beCmdRequestProcess CommandServer.beCmdRequestProcess roomedRequest
  cases req.received with
  | none => rfl
  | some block =>
    simp only
    split_ifs
    · rfl
    · rfl
    · have hcommand := beLaCmdProcess_daemon (cmdOf block) req.behind req.env s
      rw [← hcommand]
      cases beLaCmdProcess (cmdOf block) req.behind req.env s with
      | error stop => rfl
      | ok result => rfl

theorem doVmRequestRead_daemon (s : Process) (arg fd : ℕ) (d : Delivery) :
    (doVmRequestRead s arg fd d).map Process.daemon =
      (Channel.doVmRequestRead s.daemon arg d).result := by
  unfold doVmRequestRead
  cases (Channel.doVmRequestRead s.daemon arg d).result with
  | error stop => rfl
  | ok daemon =>
    by_cases hfails : receiveFails d
    · simp [hfails, Except.map]
    · simp [hfails, Except.map]

/-- A round that calls the command server or a channel is a round of the server. -/
theorem loopStep_some {ev : LoopEvent} {e : ServerEvent} (h : serverEvent s ev = some e) :
    (loopStep s ev).map Process.daemon = serverStep s.daemon e := by
  cases ev with
  | incoming run => cases h
  | request event req =>
    simp only [serverEvent] at h
    obtain ⟨found, hfind, rfl⟩ := Option.map_eq_some_iff.mp h
    simp only [loopStep, hfind, serverStep]
    exact beCmdRequestProcess_daemon s found req
  | readable event d =>
    simp only [serverEvent] at h
    obtain ⟨socket, hsocket, rfl⟩ := Option.map_eq_some_iff.mp h
    simp only [loopStep, hsocket, serverStep, daemonStep]
    cases s.daemon.events.find? (fun e => e.id = event) with
    | none => rfl
    | some e => exact doVmRequestRead_daemon s e.arg socket.2 d

/-- The other rounds leave the daemon alone. -/
theorem loopStep_none {ev : LoopEvent} (h : serverEvent s ev = none)
    (hstep : loopStep s ev = .ok s') : s'.daemon = s.daemon := by
  cases ev with
  | incoming run =>
    simp only [loopStep, beCmdServerProcess] at hstep
    split at hstep
    · cases hstep
      rfl
    · split at hstep
      · cases hstep
        rfl
      · split at hstep
        · cases hstep
          rfl
        · split at hstep
          · cases hstep
          · cases hstep
            rfl
  | request event req =>
    simp only [serverEvent, Option.map_eq_none_iff] at h
    simp only [loopStep, h] at hstep
    cases hstep
    rfl
  | readable event d =>
    simp only [serverEvent, Option.map_eq_none_iff] at h
    simp only [loopStep, h] at hstep
    cases hstep
    rfl

end BeLa.EventLoop
