import BeLa.Receiving
import BeLa.Sending

/-!
The framing as a whole. Messages sent one after the other over a channel that
splits every write and every read as it likes come out unchanged and in order,
and a stream cut inside a message delivers exactly the messages before the cut.
-/
namespace BeLa.FramingRoundTrip

open LittleEndian PartialTransfer Stops Framing Receiving Sending

/-- One `acc_unix_send_message` after the other: the results, and the bytes on the channel. -/
def sendMessages : List Message → List Answer → Option (List Bool × Bytes)
  | [], _ => some ([], [])
  | msg :: msgs, writes =>
    match accUnixSendMessage msg.hdr msg.body writes with
    | none => none
    | some sent =>
      match sendMessages msgs sent.rest with
      | none => none
      | some (results, stream) => some (sent.success :: results, sent.bytes ++ stream)

structure Reception where
  delivered : List Message
  failed : Bool
  rest : Inbound
  deriving DecidableEq, Repr

/-- `acc_unix_recv_message` called up to `calls` times, until it returns -1. -/
def recvMessages : ℕ → Inbound → Except Stop Reception
  | 0, ch => .ok ⟨[], false, ch⟩
  | calls + 1, ch =>
    match (accUnixRecvMessage bufSize ch).result with
    | .error stop => .error stop
    | .ok ⟨none, rest⟩ => .ok ⟨[], true, rest⟩
    | .ok ⟨some msg, rest⟩ =>
      match recvMessages calls rest with
      | .error stop => .error stop
      | .ok r => .ok ⟨msg :: r.delivered, r.failed, r.rest⟩

def streamOf (msgs : List Message) : Bytes := (msgs.map Message.bytes).flatten

theorem sendMessages_enough (msgs : List Message) {writes : List Answer}
    (hwrites : Enough writes (streamOf msgs).length) :
    sendMessages msgs writes = some (List.replicate msgs.length true, streamOf msgs) := by
  induction msgs generalizing writes with
  | nil => rfl
  | cons msg msgs ih =>
    simp only [streamOf, List.map_cons, List.flatten_cons, List.length_append,
      Message.length_bytes] at hwrites
    obtain ⟨rest, hsend, henough⟩ := accUnixSendMessage_enough msg.hdr msg.body hwrites
    simp only [sendMessages, hsend, ih henough]
    rfl

/-- Framed messages at the front of the stream are delivered before anything else is looked at. -/
theorem recvMessages_append (msgs : List Message) (hmsgs : ∀ msg ∈ msgs, msg.Framed)
    (tail : Bytes) (calls : ℕ) {reads : List Answer} {m : ℕ}
    (hreads : Enough reads ((streamOf msgs).length + m)) :
    ∃ reads', Enough reads' m ∧
      recvMessages (msgs.length + calls) ⟨streamOf msgs ++ tail, reads⟩ =
        match recvMessages calls ⟨tail, reads'⟩ with
        | .error stop => .error stop
        | .ok r => .ok ⟨msgs ++ r.delivered, r.failed, r.rest⟩ := by
  induction msgs generalizing reads with
  | nil =>
    refine ⟨reads, hreads.mono (by omega), ?_⟩
    simp only [List.length_nil, Nat.zero_add, streamOf, List.map_nil, List.flatten_nil,
      List.nil_append]
    cases recvMessages calls ⟨tail, reads⟩ <;> rfl
  | cons msg msgs ih =>
    have hlen : (streamOf (msg :: msgs)).length = msg.bytes.length + (streamOf msgs).length := by
      simp [streamOf]
    have hfirst : Enough reads (msg.bytes.length + ((streamOf msgs).length + m)) :=
      hreads.mono (by omega)
    obtain ⟨mid, hrecv, hmid⟩ :=
      recv_framed (streamOf msgs ++ tail) (hmsgs msg List.mem_cons_self) hfirst
    obtain ⟨reads', henough, hrest⟩ :=
      ih (fun q hq => hmsgs q (List.mem_cons_of_mem msg hq)) hmid
    refine ⟨reads', henough, ?_⟩
    have hcalls : (msg :: msgs).length + calls = msgs.length + calls + 1 := by
      simp only [List.length_cons]
      omega
    have hstream : streamOf (msg :: msgs) ++ tail = msg.bytes ++ (streamOf msgs ++ tail) := by
      simp [streamOf]
    rw [hcalls, hstream]
    simp only [recvMessages, hrecv, hrest]
    cases recvMessages calls ⟨tail, reads'⟩ <;> rfl

/-- Framed messages survive every segmentation of the writes and of the reads; a
stream cut inside one of them delivers those before it and then fails. -/
theorem framing_round_trip (msgs : List Message) (hmsgs : ∀ msg ∈ msgs, msg.Framed)
    (writes reads : ℕ → Answer) (hwrites : Fair writes) (hreads : Fair reads) :
    ∃ N, ∀ n, N ≤ n → ∃ stream,
      sendMessages msgs (script writes n) = some (List.replicate msgs.length true, stream) ∧
      (∃ rest, recvMessages msgs.length ⟨stream, script reads n⟩ =
        .ok ⟨msgs, false, ⟨[], rest⟩⟩) ∧
      ∀ before msg behind, msgs = before ++ msg :: behind → ∀ k, k < msg.bytes.length →
        ∀ calls, before.length < calls → ∃ rest,
          recvMessages calls ⟨stream.take ((streamOf before).length + k), script reads n⟩ =
            .ok ⟨before, true, rest⟩ := by
  obtain ⟨N, hN⟩ := hwrites.exists_enough (streamOf msgs).length
  obtain ⟨M, hM⟩ := hreads.exists_enough ((streamOf msgs).length + 1)
  refine ⟨max N M, fun n hn => ⟨streamOf msgs, ?_, ?_, ?_⟩⟩
  · exact sendMessages_enough msgs (hN n (by omega))
  · obtain ⟨rest, _, hrecv⟩ :=
      recvMessages_append msgs hmsgs [] 0 (hM n (by omega))
    refine ⟨rest, ?_⟩
    simpa only [Nat.add_zero, List.append_nil, recvMessages] using hrecv
  · rintro before msg behind rfl k hk calls hcalls
    have hmsg : msg.Framed := hmsgs msg (by simp)
    have hstream : streamOf (before ++ msg :: behind) =
        streamOf before ++ (msg.bytes ++ streamOf behind) := by
      simp [streamOf]
    have hcut : (streamOf (before ++ msg :: behind)).take ((streamOf before).length + k) =
        streamOf before ++ msg.bytes.take k := by
      rw [hstream, List.take_length_add_append, List.take_append_of_le_length (by omega)]
    have henough : Enough (script reads n) ((streamOf before).length + (k + 1)) := by
      refine (hM n (by omega)).mono ?_
      rw [hstream]
      simp only [List.length_append]
      omega
    obtain ⟨c, rfl⟩ : ∃ c, calls = before.length + (c + 1) :=
      ⟨calls - before.length - 1, by omega⟩
    obtain ⟨reads', henough', hrecv⟩ := recvMessages_append before
      (fun q hq => hmsgs q (List.mem_append_left _ hq)) (msg.bytes.take k) (c + 1) henough
    obtain ⟨asked, rest, hfail⟩ := recv_framed_cut hmsg hk henough'
    refine ⟨rest, ?_⟩
    rw [hcut, hrecv]
    simp only [recvMessages, hfail, List.append_nil]

/-- A HELLO and an empty DISCONNECT over channels that interrupt every other call. -/
theorem framing_round_trip_hello_disconnect :
    ∃ N, ∀ n, N ≤ n → ∃ stream,
      sendMessages [⟨⟨18, 1, 1, 0⟩, [104, 105]⟩, ⟨⟨16, 1, 3, 0⟩, []⟩]
          (script (fun i => if i % 2 = 0 then .again else .moved 7) n) =
        some (List.replicate 2 true, stream) ∧
      (∃ rest, recvMessages 2
          ⟨stream, script (fun i => if i % 2 = 0 then .again else .moved 5) n⟩ =
        .ok ⟨[⟨⟨18, 1, 1, 0⟩, [104, 105]⟩, ⟨⟨16, 1, 3, 0⟩, []⟩], false, ⟨[], rest⟩⟩) ∧
      ∀ before msg behind,
        [⟨⟨18, 1, 1, 0⟩, [104, 105]⟩, ⟨⟨16, 1, 3, 0⟩, []⟩] = before ++ msg :: behind →
        ∀ k, k < msg.bytes.length → ∀ calls, before.length < calls → ∃ rest,
          recvMessages calls ⟨stream.take ((streamOf before).length + k),
            script (fun i => if i % 2 = 0 then .again else .moved 5) n⟩ =
            .ok ⟨before, true, rest⟩ := by
  exact framing_round_trip [⟨⟨18, 1, 1, 0⟩, [104, 105]⟩, ⟨⟨16, 1, 3, 0⟩, []⟩] (by decide)
    _ _ (fair_interrupted 7) (fair_interrupted 5)

end BeLa.FramingRoundTrip
