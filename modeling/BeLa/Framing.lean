import BeLa.LittleEndian
import BeLa.PartialTransfer
import BeLa.Stops

/-!
Messages on a channel: the header `struct acc_msg_header` in its wire layout,
the receiving loop `_readn` and the sending loop over the two iovecs of
`acc_unix_send_message`, against channels that answer each call in pieces.
-/
namespace BeLa.Framing

open LittleEndian PartialTransfer Stops

/-- `struct acc_msg_header`; the four 32-bit words are signed ints in the source. -/
structure AccMsgHeader where
  totalLen : BitVec 32
  accType : BitVec 32
  msgType : BitVec 32
  code : BitVec 32
  deriving DecidableEq, Repr

def accUnixHello : BitVec 32 := 1
def accUnixAddFlows : BitVec 32 := 2
def accUnixDisconnect : BitVec 32 := 3
def accUnixMaxType : ℕ := 10

def accUnixSuccess : BitVec 32 := 0
def accUnixFail : BitVec 32 := 1

/-- The size of the body buffers `buf` and `out_buf` of `do_vm_request_read`. -/
def bufSize : ℕ := 2048

namespace AccMsgHeader

def size : ℕ := 16

def bytes (h : AccMsgHeader) : Bytes :=
  wordBytes 4 h.totalLen ++ wordBytes 4 h.accType ++ wordBytes 4 h.msgType ++ wordBytes 4 h.code

def ofBytes (bs : Bytes) : AccMsgHeader where
  totalLen := wordOf 4 bs
  accType := wordOf 4 (bs.drop 4)
  msgType := wordOf 4 (bs.drop 8)
  code := wordOf 4 (bs.drop 12)

@[simp] theorem length_bytes (h : AccMsgHeader) : h.bytes.length = size := by
  simp [bytes, size]

/-- A header is read back from its wire bytes. -/
theorem ofBytes_bytes (h : AccMsgHeader) : ofBytes h.bytes = h := by
  have hdrop : ∀ (x : BitVec (8 * 4)) (rest : Bytes),
      (wordBytes 4 x ++ rest).drop 4 = rest := fun x rest =>
    List.drop_left' (length_wordBytes 4 x)
  have h8 : ∀ bs : Bytes, bs.drop 8 = (bs.drop 4).drop 4 := by simp
  have h12 : ∀ bs : Bytes, bs.drop 12 = ((bs.drop 4).drop 4).drop 4 := by simp
  have hlast : wordOf 4 (wordBytes 4 h.code) = h.code := by
    simpa using wordOf_wordBytes 4 h.code []
  simp only [ofBytes, bytes, List.append_assoc, h8, h12, hdrop, wordOf_wordBytes, hlast]

end AccMsgHeader

structure Message where
  hdr : AccMsgHeader
  body : Bytes
  deriving DecidableEq, Repr

namespace Message

def bytes (m : Message) : Bytes := m.hdr.bytes ++ m.body

def Framed (m : Message) : Prop :=
  m.hdr.totalLen.toInt = (AccMsgHeader.size + m.body.length : ℕ) ∧ m.body.length ≤ bufSize

instance (m : Message) : Decidable m.Framed := by
  unfold Framed
  infer_instance

@[simp] theorem length_bytes (m : Message) :
    m.bytes.length = AccMsgHeader.size + m.body.length := by
  simp [bytes]

end Message

/-- What a channel has for its reader: the bytes before the end of the stream,
and how the coming read calls will be answered. -/
structure Inbound where
  stream : Bytes
  reads : List Answer
  deriving DecidableEq, Repr

/-- A call with output buffers: `none` where the source returns -1. -/
structure Received (α : Type) where
  got : Option α
  rest : Inbound
  deriving DecidableEq, Repr

/-- The loop of `_readn` into a buffer of `cap` bytes. A read that fails with
another error than EINTR or EAGAIN makes the source write through NULL. -/
def readnLoop (cap : ℕ) : List Answer → Bytes → ℕ → Bytes → Except Stop (Received Bytes)
  | reads, stream, 0, msg => .ok ⟨some msg, ⟨stream, reads⟩⟩
  | [], _, _ + 1, _ => .error .waiting
  | .again :: reads, stream, remain + 1, msg => readnLoop cap reads stream (remain + 1) msg
  | .broken :: _, _, _ + 1, _ => .error .nullDeref
  | .moved n :: reads, stream, remain + 1, msg =>
    let ret := clip n (min (remain + 1) stream.length)
    -- read returns 0 only at the end of the stream: "fd need close"
    if ret = 0 then .ok ⟨none, ⟨stream, reads⟩⟩
    else if cap < msg.length + ret then .error .outOfBounds
    else readnLoop cap reads (stream.drop ret) (remain + 1 - ret) (msg ++ stream.take ret)

def readn (cap : ℕ) (ch : Inbound) (len : ℤ) : Except Stop (Received Bytes) :=
  if len < 0 then .error (.assertion .readn)
  else readnLoop cap ch.reads ch.stream len.toNat []

/-- `int data_len = hdr->total_len - sizeof(*hdr)`: the int is widened to size_t,
and the difference is cut back to an int. -/
def dataLen (hdr : AccMsgHeader) : ℤ :=
  ((hdr.totalLen.signExtend 64 - BitVec.ofNat 64 AccMsgHeader.size).setWidth 32).toInt

/-- A run of `acc_unix_recv_message`, with the body length it asked `_readn` for. -/
structure RecvRun where
  asked : Option ℤ
  result : Except Stop (Received Message)

def accUnixRecvMessage (cap : ℕ) (ch : Inbound) : RecvRun :=
  match readn AccMsgHeader.size ch AccMsgHeader.size with
  | .error stop => ⟨none, .error stop⟩
  | .ok ⟨none, rest⟩ => ⟨none, .ok ⟨none, rest⟩⟩
  | .ok ⟨some head, rest⟩ =>
    let hdr := AccMsgHeader.ofBytes head
    ⟨some (dataLen hdr),
      match readn cap rest (dataLen hdr) with
      | .error stop => .error stop
      | .ok ⟨none, rest⟩ => .ok ⟨none, rest⟩
      | .ok ⟨some body, rest⟩ => .ok ⟨some ⟨hdr, body⟩, rest⟩⟩

/-- An iovec, as the bytes it describes: advancing the base drops bytes. -/
abbrev Iovec := Bytes

/-- The first entry of the array that `offset` bytes do not exhaust, and what is left of them. -/
def skipSent : List Iovec → ℕ → ℕ → ℕ × ℕ
  | [], i, offset => (i, offset)
  | v :: rest, i, offset =>
    if v.length ≤ offset then skipSent rest (i + 1) (offset - v.length) else (i, offset)

/-- The loop of `_iovec_copy` when its output array is its input array. -/
def iovecCopyLoop : ℕ → List Iovec → ℕ → ℕ → List Iovec × ℕ
  | 0, array, _, copyNumber => (array, copyNumber)
  | k + 1, array, index, copyNumber =>
    iovecCopyLoop k (array.set copyNumber (array.getD index [])) (index + 1) (copyNumber + 1)

def iovecCopy (array : List Iovec) (arrayLen index offset : ℕ) : List Iovec × ℕ :=
  if index < arrayLen then
    iovecCopyLoop (arrayLen - (index + 1)) (array.set 0 ((array.getD index []).drop offset))
      (index + 1) 1
  else (array, 0)

/-- `_get_next_send_iovec`, called in place as `acc_unix_send_message` calls it. -/
def getNextSendIovec (array : List Iovec) (arrayLen offset : ℕ) : List Iovec × ℕ :=
  let (i, offset) := skipSent (array.take arrayLen) 0 offset
  iovecCopy array arrayLen i offset

structure Sent where
  success : Bool
  bytes : Bytes
  rest : List Answer
  deriving DecidableEq, Repr

/-- The loop of `acc_unix_send_message`; `none` while it still waits for the channel. -/
def sendLoop : List Answer → List Iovec → ℕ → Bytes → Option Sent
  | writes, _, 0, sent => some ⟨true, sent, writes⟩
  | [], _, _ + 1, _ => none
  | .again :: writes, array, number + 1, sent => sendLoop writes array (number + 1) sent
  | .broken :: writes, _, _ + 1, sent => some ⟨false, sent, writes⟩
  | .moved n :: writes, array, number + 1, sent =>
    let offered := (array.take (number + 1)).flatten
    let ret := clip n offered.length
    let (array, number) := getNextSendIovec array (number + 1) ret
    sendLoop writes array number (sent ++ offered.take ret)

def accUnixSendMessage (hdr : AccMsgHeader) (body : Bytes) (writes : List Answer) : Option Sent :=
  sendLoop writes [hdr.bytes, body] 2 []

end BeLa.Framing
