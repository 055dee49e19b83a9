import BeLa.Switch

/-!
The session context `struct acc_context` and the state that contexts share: the
host-id counter, the allocator, the rules of the bridge, and a history of what
has been executed. Host name and bridge name are one block of memory, so that a
write past the first runs into the second.
-/
namespace BeLa.Context

open LittleEndian Numerals BeLa.Flow OfctlRule Switch

structure SshRemoteExecute where
  remoteIp : Text
  username : Text
  password : Text
  port : ℕ
  deriving DecidableEq, Repr

/-- The rule back ends; the table `s_acc_rule_be` holds one after start-up. -/
inductive AccRuleBe
  | ovsRule
  deriving DecidableEq, Repr

def sAccRuleBe : List (Text × AccRuleBe) := [("ovs-rule".toList, .ovsRule)]

def accGetRuleBeByName (name : Text) : Option AccRuleBe := sAccRuleBe.lookup name

/-- The bytes of a C string: what stands before the first zero. -/
def cString (bs : Bytes) : Bytes := bs.takeWhile (· ≠ 0)

def charsOf (bs : Bytes) : Text := (cString bs).map (fun b => Char.ofNat b.toNat)

def writeAt (memory : Bytes) (offset : ℕ) (bytes : Bytes) : Bytes :=
  memory.take offset ++ bytes ++ memory.drop (offset + bytes.length)

/-- What `strncpy` writes: the string of the source, padded with zeros. -/
def strncpy (source : Bytes) (len : ℕ) : Bytes :=
  let string := cString (source.take len)
  string ++ List.replicate (len - string.length) 0

/-- The sizes of the fields `hostname` and `bridge`. -/
def nameSize : ℕ := 256

/-- `struct acc_context`. The address and the card it was made for stand for the pointer. -/
structure AccContext where
  addr : ℕ
  card : ℕ
  /-- `hostname` and behind it `bridge`. -/
  names : Bytes
  hostid : BitVec 32
  be : Option AccRuleBe
  sshRemote : Option SshRemoteExecute
  deriving DecidableEq, Repr

namespace AccContext

def hostname (context : AccContext) : Bytes := context.names.take nameSize

def bridge (context : AccContext) : Text := charsOf (context.names.drop nameSize)

end AccContext

/-- A context as an accepted HELLO with an empty host name leaves it, run locally. -/
def AccContext.plain (addr card : ℕ) (hostid : BitVec 32) : AccContext where
  addr := addr
  card := card
  names := writeAt (List.replicate (2 * nameSize) 0) nameSize [0x62, 0x72, 0x30, 0]
  hostid := hostid
  be := accGetRuleBeByName "ovs-rule".toList
  sshRemote := none

theorem AccContext.bridge_plain (addr card : ℕ) (hostid : BitVec 32) :
    (AccContext.plain addr card hostid).bridge = br0 := by
  rfl

structure Install where
  card : ℕ
  context : ℕ
  rule : SwitchRule
  deriving DecidableEq, Repr

structure Flush where
  card : ℕ
  context : ℕ
  hostid : BitVec 32
  deleted : List SwitchRule
  deriving DecidableEq, Repr

/-- One call of `acc_ovs_add_rules`. -/
structure Batch where
  context : ℕ
  flows : List AccFlow
  deriving DecidableEq, Repr

/-- A context attached to a card by a successful HELLO, with the host id it was given. -/
structure Hello where
  card : ℕ
  context : ℕ
  hostid : BitVec 32
  deriving DecidableEq, Repr

structure History where
  lines : List Text
  batches : List Batch
  installs : List Install
  flushes : List Flush
  hellos : List Hello
  deriving DecidableEq, Repr

structure Shared where
  contextHostId : BitVec 32
  /-- The next address the allocator returns; none is returned twice. -/
  nextAddr : ℕ
  rules : List SwitchRule
  history : History
  deriving DecidableEq, Repr

def Shared.start (rules : List SwitchRule) : Shared where
  contextHostId := 0xDEAD0000
  nextAddr := 1
  rules := rules
  history := ⟨[], [], [], [], []⟩

end BeLa.Context
