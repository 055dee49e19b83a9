import BeLa.Channel
import BeLa.Handling
import BeLa.Receiving
import BeLa.Sending

/-!
Calls of `do_vm_request_read` on whole messages and on streams that end. A whole
message is processed and answered with a bare header. A reply that cannot be sent
changes nothing, unless its reader has closed the socket: that ends the daemon. A
stream that ends too soon takes the close path.
-/
namespace BeLa.Requests

open LittleEndian PartialTransfer Stops Framing Receiving Sending Context Execute Plugin Card
open Message Channel Handling

def ReplyFails (d : Delivery) : Prop :=
  (transfer (d.writes.map Answer.atLeastOne) (List.replicate AccMsgHeader.size ()) []).1 =
    some false

/-- The reply of a bare header fails on a socket that its reader has closed. -/
def ReplyKills (d : Delivery) : Prop := ReplyFails d ∧ ¬ d.world.peerOpen

instance (d : Delivery) : Decidable (ReplyKills d) := by
  unfold ReplyKills ReplyFails
  infer_instance

variable {s : Daemon} {arg : ℕ} {card : BeCardInner} {d : Delivery}

/-- Whether a bare header is sent does not depend on its words. -/
theorem replyFails_iff {hdr : AccMsgHeader} {sent : Sent}
    (h : accUnixSendMessage hdr [] d.writes = some sent) :
    ReplyFails d ↔ ¬ sent.success := by
  have htransfer := accUnixSendMessage_transfer h
  have hmap := transfer_map (fun _ : Byte => ()) (d.writes.map Answer.atLeastOne) hdr.bytes []
  rw [List.append_nil] at htransfer
  rw [List.map_const', AccMsgHeader.length_bytes, htransfer] at hmap
  unfold ReplyFails
  rw [show ([] : List Unit) = [].map fun _ : Byte => () from rfl, hmap]
  simp

theorem outLen_of_hello {w : World} {message : Bytes} {sh : Shared} {handled : Handled}
    (h : helloMessageHandle w card message 0 sh = .ok handled) : handled.outLen = 0 := by
  unfold helloMessageHandle at h
  split at h
  · cases h
    rfl
  · split at h
    · cases h
    · cases h
      rfl
    · dsimp only at h
      split at h
      · cases h
      · split at h <;> cases h <;> rfl

theorem outLen_of_addFlows {w : World} {message : Bytes} {sh : Shared} {handled : Handled}
    (h : addFlowsMessageHandle w card message 0 sh = .ok handled) : handled.outLen = 0 := by
  unfold addFlowsMessageHandle at h
  dsimp only at h
  split at h
  · cases h
    rfl
  · split at h
    · cases h
    · split at h
      · cases h
      · split at h <;> cases h
        rfl

theorem outLen_of_disconnect {w : World} {sh : Shared} {handled : Handled}
    (h : disconnectMessageHandle w card sh = .ok handled) : handled.outLen = 0 := by
  unfold disconnectMessageHandle at h
  split at h <;> cases h
  rfl

/-- No handler has output of its own. -/
theorem outLen_of_process {w : World} {type : BitVec 32} {message : Bytes} {sh : Shared}
    {handled : Handled} (h : beAccMessageProcess w card type message 0 sh = .ok handled) :
    handled.outLen = 0 := by
  unfold beAccMessageProcess at h
  split at h
  · cases h
  · rename_i handler _
    cases handler with
    | hello => exact outLen_of_hello h
    | addFlows => exact outLen_of_addFlows h
    | disconnect => exact outLen_of_disconnect h

/-- A whole message is processed, and its reply is a bare header. -/
theorem read_whole {msg : Framing.Message} {behind : Bytes} (hcard : s.cardAt arg = some card)
    (hmsg : msg.Framed) (hstream : d.stream = msg.bytes ++ behind)
    (hreads : Enough d.reads msg.bytes.length) :
    doVmRequestRead s arg d =
      match beAccMessageProcess d.world card msg.hdr.msgType msg.body 0 s.shared with
      | .error stop => ⟨some msg.body.length, some msg.hdr.msgType, none, [], .error stop⟩
      | .ok handled =>
        match accUnixSendMessage (replyTo msg.hdr handled) [] d.writes with
        | none => ⟨some msg.body.length, some msg.hdr.msgType, some (replyTo msg.hdr handled), [],
            .error .waiting⟩
        | some sent => ⟨some msg.body.length, some msg.hdr.msgType,
            some (replyTo msg.hdr handled), sent.bytes,
            if ReplyKills d then .error .brokenPipe
            else .ok { s.writeCard handled.card with shared := handled.shared }⟩ := by
  obtain ⟨rest, hrecv, -⟩ := recv_framed (m := 0) behind hmsg hreads
  unfold doVmRequestRead
  simp only [hcard, hstream, hrecv]
  cases hprocess : beAccMessageProcess d.world card msg.hdr.msgType msg.body 0 s.shared with
  | error stop => rfl
  | ok handled =>
    cases hsend : accUnixSendMessage (replyTo msg.hdr handled) [] d.writes with
    | none => simp only [outLen_of_process hprocess, List.take_zero, hsend]
    | some sent =>
      simp only [outLen_of_process hprocess, List.take_zero, hsend, ReplyKills,
        replyFails_iff hsend]

/-- With enough answers the reply is sent whole. -/
theorem read_framed {msg : Framing.Message} {behind : Bytes} (hcard : s.cardAt arg = some card)
    (hmsg : msg.Framed) (hstream : d.stream = msg.bytes ++ behind)
    (hreads : Enough d.reads msg.bytes.length) (hwrites : Enough d.writes AccMsgHeader.size) :
    doVmRequestRead s arg d =
      match beAccMessageProcess d.world card msg.hdr.msgType msg.body 0 s.shared with
      | .error stop => ⟨some msg.body.length, some msg.hdr.msgType, none, [], .error stop⟩
      | .ok handled => ⟨some msg.body.length, some msg.hdr.msgType,
          some (replyTo msg.hdr handled), (replyTo msg.hdr handled).bytes,
          .ok { s.writeCard handled.card with shared := handled.shared }⟩ := by
  rw [read_whole hcard hmsg hstream hreads]
  cases beAccMessageProcess d.world card msg.hdr.msgType msg.body 0 s.shared with
  | error stop => rfl
  | ok handled =>
    obtain ⟨left, hsend, -⟩ := accUnixSendMessage_enough (m := 0) (replyTo msg.hdr handled) []
      hwrites
    have hkills : ¬ ReplyKills d := fun h => (replyFails_iff hsend).mp h.1 rfl
    simp only [hsend, if_neg hkills, List.append_nil]

/-- A stream on which the receiver fails takes the close path. -/
theorem read_failed {asked : Option ℤ} {rest : Inbound} (hcard : s.cardAt arg = some card)
    (hrecv : accUnixRecvMessage bufSize ⟨d.stream, d.reads⟩ = ⟨asked, .ok ⟨none, rest⟩⟩) :
    doVmRequestRead s arg d = ⟨asked, none, none, [], closeChannel d.world card s⟩ := by
  unfold doVmRequestRead
  simp only [hcard, hrecv]

end BeLa.Requests
