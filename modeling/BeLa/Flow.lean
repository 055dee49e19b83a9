import BeLa.LittleEndian

/-!
The flow records `struct acc_match`, `struct acc_action` and `struct acc_flow`
with the masks read by the rule builder, and their layout in memory on x86-64,
which is the layout in which a guest sends them: 92 bytes a flow.
-/
namespace BeLa.Flow

open LittleEndian

/-- `uint8_t mac[6]`. -/
@[ext] structure Mac where
  b0 : Byte
  b1 : Byte
  b2 : Byte
  b3 : Byte
  b4 : Byte
  b5 : Byte
  deriving DecidableEq, Repr

def Mac.bytes (m : Mac) : Bytes := [m.b0, m.b1, m.b2, m.b3, m.b4, m.b5]

def Mac.ofBytes (bs : Bytes) : Mac where
  b0 := bs.getD 0 0
  b1 := bs.getD 1 0
  b2 := bs.getD 2 0
  b3 := bs.getD 3 0
  b4 := bs.getD 4 0
  b5 := bs.getD 5 0

/-- `struct acc_match`; three bytes of padding follow the protocol. -/
structure AccMatch where
  srcmac : Mac
  dstmac : Mac
  srcIp : BitVec 32
  dstIp : BitVec 32
  srcPort : BitVec 16
  dstPort : BitVec 16
  protocol : Byte
  pad0 : Byte
  pad1 : Byte
  pad2 : Byte
  deriving DecidableEq, Repr

def AccMatch.size : ℕ := 28

def AccMatch.bytes (m : AccMatch) : Bytes :=
  m.srcmac.bytes ++ m.dstmac.bytes ++ wordBytes 4 m.srcIp ++ wordBytes 4 m.dstIp ++
    wordBytes 2 m.srcPort ++ wordBytes 2 m.dstPort ++ [m.protocol, m.pad0, m.pad1, m.pad2]

def AccMatch.ofBytes (bs : Bytes) : AccMatch where
  srcmac := Mac.ofBytes bs
  dstmac := Mac.ofBytes (bs.drop 6)
  srcIp := wordOf 4 (bs.drop 12)
  dstIp := wordOf 4 (bs.drop 16)
  srcPort := wordOf 2 (bs.drop 20)
  dstPort := wordOf 2 (bs.drop 22)
  protocol := bs.getD 24 0
  pad0 := bs.getD 25 0
  pad1 := bs.getD 26 0
  pad2 := bs.getD 27 0

/-- `struct acc_action` with its `field_update`; one byte of padding stands before `dl_type`. -/
structure AccAction where
  type : BitVec 32
  fieldMask : BitVec 32
  srcmac : Mac
  dstmac : Mac
  srcIp : BitVec 32
  dstIp : BitVec 32
  srcPort : BitVec 16
  dstPort : BitVec 16
  protocol : Byte
  pad : Byte
  dlType : BitVec 16
  deriving DecidableEq, Repr

def AccAction.bytes (a : AccAction) : Bytes :=
  wordBytes 4 a.type ++ wordBytes 4 a.fieldMask ++ a.srcmac.bytes ++ a.dstmac.bytes ++
    wordBytes 4 a.srcIp ++ wordBytes 4 a.dstIp ++ wordBytes 2 a.srcPort ++
    wordBytes 2 a.dstPort ++ [a.protocol, a.pad] ++ wordBytes 2 a.dlType

def AccAction.ofBytes (bs : Bytes) : AccAction where
  type := wordOf 4 bs
  fieldMask := wordOf 4 (bs.drop 4)
  srcmac := Mac.ofBytes (bs.drop 8)
  dstmac := Mac.ofBytes (bs.drop 14)
  srcIp := wordOf 4 (bs.drop 20)
  dstIp := wordOf 4 (bs.drop 24)
  srcPort := wordOf 2 (bs.drop 28)
  dstPort := wordOf 2 (bs.drop 30)
  protocol := bs.getD 32 0
  pad := bs.getD 33 0
  dlType := wordOf 2 (bs.drop 34)

/-- A match is read back from its memory, whatever follows it. -/
theorem AccMatch.ofBytes_bytes (m : AccMatch) (rest : Bytes) :
    AccMatch.ofBytes (m.bytes ++ rest) = m := by
  simp [AccMatch.bytes, AccMatch.ofBytes, Mac.ofBytes, Mac.bytes, List.drop_append,
    List.drop_of_length_le, wordOf_wordBytes, List.getElem?_append]

@[simp] theorem AccMatch.length_bytes (m : AccMatch) : m.bytes.length = AccMatch.size := by
  simp [AccMatch.bytes, AccMatch.size, Mac.bytes]

theorem AccAction.ofBytes_bytes (a : AccAction) (rest : Bytes) :
    AccAction.ofBytes (a.bytes ++ rest) = a := by
  simp [AccAction.bytes, AccAction.ofBytes, Mac.ofBytes, Mac.bytes, List.drop_append,
    List.drop_of_length_le, wordOf_wordBytes, List.getElem?_append]

@[simp] theorem AccAction.length_bytes (a : AccAction) : a.bytes.length = 36 := by
  simp [AccAction.bytes, Mac.bytes]

def actionFieldSrcmac : BitVec 32 := 1 <<< 1
def actionFieldDstmac : BitVec 32 := 1 <<< 2
def actionFieldSrcIp : BitVec 32 := 1 <<< 3
def actionFieldDstIp : BitVec 32 := 1 <<< 4
def actionFieldSrcPort : BitVec 32 := 1 <<< 5
def actionFieldDstPort : BitVec 32 := 1 <<< 6
def actionFieldProtocol : BitVec 32 := 1 <<< 7
def actionFieldDlType : BitVec 32 := 1 <<< 8

structure AccFlow where
  «match» : AccMatch
  mask : AccMatch
  action : AccAction
  deriving DecidableEq, Repr

namespace AccFlow

def size : ℕ := 92

def bytes (f : AccFlow) : Bytes := f.match.bytes ++ f.mask.bytes ++ f.action.bytes

def ofBytes (bs : Bytes) : AccFlow where
  «match» := AccMatch.ofBytes bs
  mask := AccMatch.ofBytes (bs.drop AccMatch.size)
  action := AccAction.ofBytes (bs.drop (2 * AccMatch.size))

/-- A flow of zeros but for its protocol: no field is set and no update is flagged. -/
def plain (protocol : Byte) : AccFlow where
  «match» := { AccMatch.ofBytes [] with protocol := protocol }
  mask := AccMatch.ofBytes []
  action := AccAction.ofBytes []

@[simp] theorem length_bytes (f : AccFlow) : f.bytes.length = size := by
  simp [bytes, size, AccMatch.size]

theorem ofBytes_bytes (f : AccFlow) (rest : Bytes) : ofBytes (f.bytes ++ rest) = f := by
  have hmask : (f.bytes ++ rest).drop AccMatch.size =
      f.mask.bytes ++ (f.action.bytes ++ rest) := by
    simp only [bytes, List.append_assoc]
    exact List.drop_left' f.match.length_bytes
  have haction : (f.bytes ++ rest).drop (2 * AccMatch.size) = f.action.bytes ++ rest := by
    rw [two_mul, ← List.drop_drop, hmask]
    exact List.drop_left' f.mask.length_bytes
  unfold ofBytes
  rw [hmask, haction, AccMatch.ofBytes_bytes, AccAction.ofBytes_bytes]
  simp only [bytes, List.append_assoc, AccMatch.ofBytes_bytes]

end AccFlow

def accActionIsFieldMaskSet (action : AccAction) (field : BitVec 32) : Bool :=
  action.fieldMask &&& field ≠ 0

/-- `acc_match_is_be_set`: some byte of the field's mask is not zero. -/
def accMatchIsBeSet (mask : Bytes) : Bool := mask.any (fun b => b ≠ 0)

def flowsBytes (flows : List AccFlow) : Bytes := (flows.map AccFlow.bytes).flatten

/-- The first `n` records of a memory block read as an array of flows. -/
def flowsOf : ℕ → Bytes → List AccFlow
  | 0, _ => []
  | n + 1, bs => AccFlow.ofBytes bs :: flowsOf n (bs.drop AccFlow.size)

theorem length_flowsBytes (flows : List AccFlow) :
    (flowsBytes flows).length = AccFlow.size * flows.length := by
  induction flows with
  | nil => rfl
  | cons f flows ih =>
    have hcons : flowsBytes (f :: flows) = f.bytes ++ flowsBytes flows := rfl
    rw [hcons, List.length_append, ih, AccFlow.length_bytes, List.length_cons, Nat.mul_succ,
      Nat.add_comm]

/-- An array of flows is read back from its memory. -/
theorem flowsOf_flowsBytes (flows : List AccFlow) :
    flowsOf flows.length (flowsBytes flows) = flows := by
  induction flows with
  | nil => rfl
  | cons f flows ih =>
    have hcons : flowsBytes (f :: flows) = f.bytes ++ flowsBytes flows := rfl
    rw [hcons, List.length_cons, flowsOf, AccFlow.ofBytes_bytes,
      List.drop_left' f.length_bytes, ih]

end BeLa.Flow
