import BeLa.Context
import BeLa.Stops

/-!
Carrying out rules: `execute_openflow_rule` with its local and its remote
branch, the flush, and the edit loop with its recovery flush. What the shell
and the remote host do is an input: how each command line fares. The log line
before a remote command prints the port as a string, so that no remote command
is ever reached.
-/
namespace BeLa.Execute

open Stops Numerals BeLa.Flow OfctlRule CommandLine Switch Context

structure SshRun where
  session : Bool
  connect : Bool
  userauth : Bool
  channel : Bool
  openSession : Bool
  requestExec : Bool
  deriving DecidableEq, Repr

structure CommandRun where
  forked : Bool
  ssh : SshRun
  status : ℕ
  deriving DecidableEq, Repr

structure World where
  ofctl : Ofctl
  /-- The command lines of the call, in order. -/
  shell : ℕ → CommandRun
  allocRemote : Bool
  allocContext : Bool
  allocRules : Bool
  /-- The other end of the channel is still open when a reply to it fails. -/
  peerOpen : Bool

def CommandRun.ended (status : ℕ) : CommandRun :=
  ⟨true, ⟨true, true, true, true, true, true⟩, status⟩

def World.openVSwitch (shell : ℕ → CommandRun) : World where
  ofctl := Switch.openVSwitch
  shell := shell
  allocRemote := true
  allocContext := true
  allocRules := true
  peerOpen := true

def World.healthy : World := .openVSwitch fun _ => .ended 0

/-- `system`: 0 exactly when the command ran and exited with status 0. -/
def system (run : CommandRun) : ℤ := if run.forked then run.status else -1

/-- `ssh_remote_exec`: the exit status of the command is not asked for. -/
def sshRemoteExec (run : SshRun) : ℤ :=
  if ¬ run.session then -1
  else if ¬ run.connect then -1
  else if ¬ run.userauth then -1
  else if ¬ run.channel then -1
  else if ¬ run.openSession then -1
  else if ¬ run.requestExec then -1
  else 0

/-- What `execute_openflow_rule` returns for a run of its command line; true is 0. -/
def verdict (context : AccContext) (run : CommandRun) : Bool :=
  match context.sshRemote with
  | some _ => sshRemoteExec run.ssh = 0
  | none => system run = 0

def carriedOut (context : AccContext) (run : CommandRun) : Bool :=
  match context.sshRemote with
  | some _ => sshRemoteExec run.ssh = 0 ∧ run.status = 0
  | none => system run = 0

/-- The `ACC_LOG` in front of a command. The one of the remote branch has its arguments in a
wrong order, the user name for `%d` and the port for `%s`, which is undefined for any port. -/
def logCommand (context : AccContext) : Except Stop Unit :=
  match context.sshRemote with
  | some _ => .error .badString
  | none => .ok ()

def executeOpenflowRule (w : World) (context : AccContext) (line : Text) (run : CommandRun)
    (sh : Shared) : Except Stop (Bool × Shared) :=
  match logCommand context with
  | .error stop => .error stop
  | .ok () => .ok (verdict context run,
      { sh with
        rules := if carriedOut context run then w.ofctl.apply line sh.rules else sh.rules
        history.lines := sh.history.lines ++ [line] })

/-- `acc_ovs_flush_rules`; true is 0. -/
def accOvsFlushRules (w : World) (context : AccContext) (run : CommandRun) (sh : Shared) :
    Except Stop (Bool × Shared) :=
  match commandLine (flushText context.bridge context.hostid) with
  | none => .ok (false, sh)
  | some line =>
    match executeOpenflowRule w context line run sh with
    | .error stop => .error stop
    | .ok (ok, after) => .ok (ok, { after with
        history.flushes := sh.history.flushes ++ [⟨context.card, context.addr, context.hostid,
          sh.rules.filter (· ∉ after.rules)⟩] })

/-- `acc_ovs_make_ofctl_rules`; the loop ends at the first flow that cannot be built. -/
def accOvsMakeOfctlRules (w : World) (context : AccContext) (flows : List AccFlow) :
    Option (List AccOfctlRule) :=
  if w.allocRules then flows.mapM (accOvsBuildOfctlRule context.hostid) else none

/-- Execute the line of one rule, and note the rule if the line adds it. -/
def editOne (w : World) (context : AccContext) (isDelete : Bool) (rule : AccOfctlRule)
    (line : Text) (run : CommandRun) (sh : Shared) : Except Stop (Bool × Shared) :=
  match executeOpenflowRule w context line run sh with
  | .error stop => .error stop
  | .ok (ok, after) =>
    if ¬ isDelete ∧ carriedOut context run then
      .ok (ok, { after with
        history.installs := sh.history.installs ++
          [⟨context.card, context.addr, installed rule⟩] })
    else .ok (ok, after)

/-- The loop of `acc_ovs_edit_rules` from command `i` on. A failure says which
command comes next. -/
def editLoop (w : World) (context : AccContext) (isDelete : Bool) :
    ℕ → List AccOfctlRule → Shared → Except Stop (Option ℕ × Shared)
  | _, [], sh => .ok (none, sh)
  | i, rule :: rules, sh =>
    match commandLine (editText isDelete context.bridge rule) with
    | none => .ok (some i, sh)
    | some line =>
      match editOne w context isDelete rule line (w.shell i) sh with
      | .error stop => .error stop
      | .ok (ok, after) =>
        if ok then editLoop w context isDelete (i + 1) rules after
        else .ok (some (i + 1), after)

/-- `acc_ovs_edit_rules`; true is 0. -/
def accOvsEditRules (w : World) (context : AccContext) (flows : List AccFlow) (isDelete : Bool)
    (sh : Shared) : Except Stop (Bool × Shared) :=
  match accOvsMakeOfctlRules w context flows with
  | none => .ok (false, sh)
  | some rules =>
    match editLoop w context isDelete 0 rules sh with
    | .error stop => .error stop
    | .ok (none, after) => .ok (true, after)
    | .ok (some next, after) =>
      if isDelete then .ok (false, after)
      else
        match accOvsFlushRules w context (w.shell next) after with
        | .error stop => .error stop
        | .ok (_, after) => .ok (false, after)

def accOvsAddRules (w : World) (context : AccContext) (flows : List AccFlow) (sh : Shared) :
    Except Stop (Bool × Shared) :=
  accOvsEditRules w context flows false
    { sh with history.batches := sh.history.batches ++ [⟨context.addr, flows⟩] }

def accOvsRemoveRules (w : World) (context : AccContext) (flows : List AccFlow) (sh : Shared) :
    Except Stop (Bool × Shared) :=
  accOvsEditRules w context flows true sh

end BeLa.Execute
