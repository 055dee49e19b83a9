import BeLa.AddFlowsEndToEnd
import BeLa.Invariant
import Mathlib.Logic.Function.Basic

/-!
The replies of a conversation. Clients on any channels send requests, the daemon
answers each of them, and the client reads the answer without a buffer for its
body. No handler has output of its own, so that every answer is a bare header,
and nothing of it is left in the channel when the next request is sent. Only a
request that is fatal to the daemon is never answered.
-/
namespace BeLa.Replies

open LittleEndian PartialTransfer Runs Stops Framing BeLa.Flow Receiving Context Execute Card
open Message Channel Command Handling Steps Requests Invariant Client AddFlowsEndToEnd

/-- A request on a channel, and what its bytes and those of its reply meet on the way. -/
structure Turn where
  channel : ℕ
  msg : Framing.Message
  /-- what has been sent behind the request -/
  behind : Bytes
  clientWrites : List Answer
  clientReads : List Answer
  reads : List Answer
  writes : List Answer
  outBuf : Bytes
  world : World

namespace Turn

structure WellFormed (t : Turn) : Prop where
  framed : t.msg.Framed
  type : t.msg.hdr.msgType ∈ [accUnixHello, accUnixAddFlows, accUnixDisconnect]
  sent : Enough t.clientWrites (AccMsgHeader.size + t.msg.body.length)
  received : Enough t.reads t.msg.bytes.length
  answered : Enough t.writes AccMsgHeader.size
  heard : Enough t.clientReads AccMsgHeader.size

def call (t : Turn) (s : Daemon) (arg : ℕ) (bytes : Bytes) : RequestRun :=
  doVmRequestRead s arg ⟨bytes ++ t.behind, t.reads, t.writes, t.outBuf, t.world⟩

/-- The client's end of the channel; the reply stands behind what is still unread. -/
def link (t : Turn) (s : Daemon) (arg : ℕ) (unread : Bytes) : Link where
  writes := t.clientWrites
  ready := true
  inbound := fun bytes => ⟨unread ++ (t.call s arg bytes).sent, t.clientReads⟩

def returnsZero (t : Turn) (s : Daemon) (arg : ℕ) : Bool :=
  match s.cardAt arg with
  | none => false
  | some card =>
    match beAccMessageProcess t.world card t.msg.hdr.msgType t.msg.body 0 s.shared with
    | .error _ => false
    | .ok handled => handled.ok

end Turn

/-- What one turn has come to: the request, whether its handler returned 0, the bytes that
the daemon wrote, and what `acc_unix_send_recv` returned to the client. -/
structure Exchange where
  channel : ℕ
  request : Framing.Message
  returnedZero : Bool
  written : Bytes
  got : Except Stop (Option AccMsgHeader)

/-- The daemon, what has been written to each channel and not been read, and the turns so far. -/
structure Conversation where
  daemon : Daemon
  unread : ℕ → Bytes
  exchanges : List Exchange

def Conversation.start (s : Daemon) : Conversation := ⟨s, fun _ => [], []⟩

/-- What `acc_unix_recv_message` leaves in the channel. -/
def leftover (inbound : Inbound) : Bytes :=
  match (accUnixRecvMessage 0 inbound).result with
  | .error _ => inbound.stream
  | .ok ⟨_, rest⟩ => rest.stream

/-- One turn; on a channel without a read event nothing is called. -/
def serve (c : Conversation) (t : Turn) : Except Stop Conversation :=
  match c.daemon.events.find? (fun e => e.id = t.channel) with
  | none => .ok c
  | some e =>
    let run := t.call c.daemon e.arg t.msg.bytes
    let link := t.link c.daemon e.arg (c.unread t.channel)
    match run.result with
    | .error stop => .error stop
    | .ok daemon => .ok
      { daemon := daemon
        unread := Function.update c.unread t.channel (leftover (link.inbound t.msg.bytes))
        exchanges := c.exchanges ++ [⟨t.channel, t.msg, t.returnsZero c.daemon e.arg, run.sent,
          accUnixSendRecv t.msg link⟩] }

def exchangesAlong : Conversation → List Turn → List Exchange
  | c, [] => c.exchanges
  | c, t :: turns =>
    match serve c t with
    | .error _ => c.exchanges
    | .ok c' => exchangesAlong c' turns

def emptyReply (hdr : AccMsgHeader) (returnedZero : Bool) : AccMsgHeader where
  totalLen := 16
  accType := hdr.accType
  msgType := hdr.msgType
  code := if returnedZero then accUnixSuccess else accUnixFail

def writtenTo (channel : ℕ) (exchanges : List Exchange) : Bytes :=
  (exchanges.filter fun x => x.channel = channel).flatMap Exchange.written

/-- The daemon wrote one bare header of 16 bytes, and the client read all of it. -/
structure Answered (x : Exchange) : Prop where
  written : x.written = (emptyReply x.request.hdr x.returnedZero).bytes
  length : x.written.length = 16
  got : x.got = .ok (some (emptyReply x.request.hdr x.returnedZero))

/-- Each request of the conversation is answered with one bare header, in order, whose code is
SUCCESS when the handler returned 0; what is written to a channel are the answers to its
requests, and nothing of them stays unread. -/
structure OneReplyEach (s : Daemon) (turns : List Turn) : Prop where
  requests : (exchangesAlong (.start s) turns).map (fun x => (x.channel, x.request)) =
    turns.map (fun t => (t.channel, t.msg))
  answered : ∀ x ∈ exchangesAlong (.start s) turns, Answered x
  written : ∀ channel, writtenTo channel (exchangesAlong (.start s) turns) =
    ((exchangesAlong (.start s) turns).filter fun x => x.channel = channel).flatMap
      fun x => (emptyReply x.request.hdr x.returnedZero).bytes
  read : ∀ c, exec serve (.start s) turns = .ok c → ∀ channel, c.unread channel = []

/-- The request is fatal to the daemon, or its channel has no card any more. -/
def Crashes (c : Conversation) (t : Turn) : Prop :=
  ∃ e, c.daemon.events.find? (fun e => e.id = t.channel) = some e ∧
    (c.daemon.cardAt e.arg = none ∨ ∃ card, c.daemon.cardAt e.arg = some card ∧
      Fatal t.world card t.msg.hdr.msgType t.msg.body)

variable {s : Daemon} {arg : ℕ} {t : Turn} {c c' : Conversation}

/-- A call that returns has answered with a bare header. -/
theorem call_spec (ht : t.WellFormed) {daemon : Daemon}
    (h : (t.call s arg t.msg.bytes).result = .ok daemon) :
    (t.call s arg t.msg.bytes).sent = (emptyReply t.msg.hdr (t.returnsZero s arg)).bytes ∧
      daemon.events = s.events := by
  cases hcard : s.cardAt arg with
  | none =>
    unfold Turn.call doVmRequestRead at h
    simp [hcard] at h
  | some card =>
    have hread : t.call s arg t.msg.bytes = _ :=
      read_framed hcard ht.framed rfl ht.received ht.answered
    unfold Turn.returnsZero
    rw [hread] at h ⊢
    simp only [hcard]
    cases hprocess : beAccMessageProcess t.world card t.msg.hdr.msgType t.msg.body 0 s.shared with
    | error stop => simp [hprocess] at h
    | ok handled =>
      have hreply : replyTo t.msg.hdr handled = emptyReply t.msg.hdr handled.ok := by
        rw [replyTo, outLen_of_process hprocess]
        rfl
      simp only [hprocess] at h ⊢
      cases h
      exact ⟨by rw [hreply], rfl⟩

theorem leftover_header (reply : AccMsgHeader) {reads : List Answer}
    (hlength : reply.totalLen.toInt = AccMsgHeader.size)
    (hreads : Enough reads AccMsgHeader.size) : leftover ⟨reply.bytes, reads⟩ = [] := by
  have hdata : dataLen reply = (0 : ℕ) := dataLen_of_total (Nat.zero_le _) (by simpa using hlength)
  obtain ⟨rest, hrecv, -⟩ := @recv_full 0 reply [] _ 0 0 hreads hdata
    (Nat.zero_le _) (Nat.le_refl _)
  rw [List.append_nil] at hrecv
  rw [leftover, hrecv]
  rfl

/-- A turn on a channel without unread bytes appends one answered exchange, and leaves none. -/
theorem serve_spec (ht : t.WellFormed) (hunread : ∀ channel, c.unread channel = [])
    (hopen : ∃ e ∈ c.daemon.events, e.id = t.channel) (h : serve c t = .ok c') :
    c'.daemon.events = c.daemon.events ∧ (∀ channel, c'.unread channel = []) ∧
      ∃ x, c'.exchanges = c.exchanges ++ [x] ∧ x.channel = t.channel ∧ x.request = t.msg ∧
        Answered x := by
  unfold serve at h
  cases hfind : c.daemon.events.find? (fun e => e.id = t.channel) with
  | none =>
    obtain ⟨e, he, hid⟩ := hopen
    exact absurd hid (by simpa using List.find?_eq_none.mp hfind e he)
  | some e =>
    simp only [hfind, hunread] at h
    cases hresult : (t.call c.daemon e.arg t.msg.bytes).result with
    | error stop => simp [hresult] at h
    | ok daemon =>
      obtain ⟨hsent, hevents⟩ := call_spec ht hresult
      set reply := emptyReply t.msg.hdr (t.returnsZero c.daemon e.arg)
      have hlength : reply.totalLen.toInt = AccMsgHeader.size := rfl
      have hinbound : (t.link c.daemon e.arg []).inbound t.msg.bytes =
          ⟨reply.bytes, t.clientReads⟩ := by
        rw [← hsent]
        rfl
      simp only [hresult, hinbound, leftover_header reply hlength ht.heard] at h
      cases h
      have hsame : Function.update c.unread t.channel [] = c.unread := by
        rw [← hunread t.channel, Function.update_eq_self]
      refine ⟨hevents, ?_, _, rfl, rfl, rfl, hsent, ?_, ?_⟩
      · intro channel
        exact (congrFun hsame channel).trans (hunread channel)
      · rw [hsent]
        exact AccMsgHeader.length_bytes _
      · exact sendRecv_header ht.sent rfl (by rw [hinbound]) (by rw [hinbound]; exact ht.heard)
          hlength

/-- Every turn of a run is answered, in order, and no byte stays unread. -/
theorem serve_run {turns : List Turn} (hturns : ∀ t ∈ turns, t.WellFormed)
    (hunread : ∀ channel, c.unread channel = [])
    (hopen : ∀ t ∈ turns, ∃ e ∈ c.daemon.events, e.id = t.channel)
    (h : exec serve c turns = .ok c') :
    (∀ channel, c'.unread channel = []) ∧ ∃ added, c'.exchanges = c.exchanges ++ added ∧
      added.map (fun x => (x.channel, x.request)) = turns.map (fun t => (t.channel, t.msg)) ∧
      ∀ x ∈ added, Answered x := by
  induction turns generalizing c with
  | nil =>
    cases h
    exact ⟨hunread, [], (List.append_nil _).symm, rfl, by simp⟩
  | cons t turns ih =>
    rw [List.forall_mem_cons] at hturns hopen
    simp only [exec] at h
    cases hserve : serve c t with
    | error stop => simp [hserve] at h
    | ok c₁ =>
      simp only [hserve] at h
      obtain ⟨hevents, hunread₁, x, hx, hchannel, hrequest, hanswered⟩ :=
        serve_spec hturns.1 hunread hopen.1 hserve
      obtain ⟨hend, added, hadded, hmap, hall⟩ :=
        ih hturns.2 hunread₁ (by rw [hevents]; exact hopen.2) h
      refine ⟨hend, x :: added, ?_, ?_, List.forall_mem_cons.mpr ⟨hanswered, hall⟩⟩
      · rw [hadded, hx, List.append_assoc, List.singleton_append]
      · rw [List.map_cons, List.map_cons, hmap, hchannel, hrequest]

theorem exchangesAlong_of_ok {turns : List Turn} (h : exec serve c turns = .ok c') :
    exchangesAlong c turns = c'.exchanges := by
  induction turns generalizing c with
  | nil =>
    cases h
    rfl
  | cons t turns ih =>
    rw [exchangesAlong]
    cases hserve : serve c t with
    | error stop =>
      rw [exec_cons_of_error hserve] at h
      cases h
    | ok c₁ =>
      rw [exec_cons_of_ok hserve] at h
      exact ih h

theorem exchanges_serve (h : serve c t = .ok c') :
    c'.exchanges.length ≤ c.exchanges.length + 1 := by
  unfold serve at h
  split at h
  · cases h
    exact Nat.le_succ _
  · dsimp only at h
    split at h
    · cases h
    · cases h
      simp

/-- A conversation that stops has a request without an answer. -/
theorem exchangesAlong_of_error {turns : List Turn} {stop : Stop}
    (h : exec serve c turns = .error stop) :
    (exchangesAlong c turns).length < c.exchanges.length + turns.length := by
  induction turns generalizing c with
  | nil => cases h
  | cons t turns ih =>
    rw [exchangesAlong, List.length_cons]
    cases hserve : serve c t with
    | error stop => exact Nat.lt_add_of_pos_right (Nat.succ_pos _)
    | ok c₁ =>
      rw [exec_cons_of_ok hserve] at h
      have hshort := ih h
      have hone := exchanges_serve hserve
      dsimp only
      omega

theorem consistent_serve (hs : Consistent c.daemon) (h : serve c t = .ok c') :
    Consistent c'.daemon := by
  unfold serve at h
  cases hfind : c.daemon.events.find? (fun e => e.id = t.channel) with
  | none =>
    simp only [hfind] at h
    cases h
    exact hs
  | some e =>
    simp only [hfind] at h
    cases hresult : (t.call c.daemon e.arg t.msg.bytes).result with
    | error stop => simp [hresult] at h
    | ok daemon =>
      simp only [hresult] at h
      cases h
      have hstep : daemonStep c.daemon (.readable t.channel
          ⟨t.msg.bytes ++ t.behind, t.reads, t.writes, t.outBuf, t.world⟩) = .ok daemon := by
        simp only [daemonStep, hfind]
        exact hresult
      exact consistent_step hs hstep

/-- A call crashes with its handler, or without a card. -/
theorem call_crashed (hs : Consistent s) (ht : t.WellFormed) :
    Crashed (t.call s arg t.msg.bytes).result ↔
      (s.cardAt arg = none ∨ ∃ card, s.cardAt arg = some card ∧
        Fatal t.world card t.msg.hdr.msgType t.msg.body) := by
  cases hcard : s.cardAt arg with
  | none =>
    unfold Turn.call doVmRequestRead
    simp [hcard]
  | some card =>
    have hread : t.call s arg t.msg.bytes = _ :=
      read_framed hcard ht.framed rfl ht.received ht.answered
    have hcrashed := @process_crashed t.world card t.msg.hdr.msgType
      (hs.sound card (cardAt_some hcard).1) ht.type t.msg.body 0 s.shared
    rw [hread]
    simp only [Option.some.injEq, exists_eq_left', ← hcrashed, reduceCtorEq, false_or]
    cases hprocess : beAccMessageProcess t.world card t.msg.hdr.msgType t.msg.body 0 s.shared with
    | error stop => simp
    | ok handled => simp

theorem serve_crashed (hs : Consistent c.daemon) (ht : t.WellFormed) :
    Crashed (serve c t) ↔ Crashes c t := by
  unfold serve Crashes
  cases hfind : c.daemon.events.find? (fun e => e.id = t.channel) with
  | none => simp
  | some e =>
    simp only [Option.some.injEq, exists_eq_left', ← call_crashed hs ht]
    cases hresult : (t.call c.daemon e.arg t.msg.bytes).result with
    | error stop => simp
    | ok daemon => simp

section

variable {rules : List Switch.SwitchRule} {evs : List DaemonEvent} {turns : List Turn}

/-- A conversation that the daemon survives is answered request by request. -/
theorem replied_of_ok (hturns : ∀ t ∈ turns, t.WellFormed)
    (hopen : ∀ t ∈ turns, ∃ e ∈ s.events, e.id = t.channel)
    (h : exec serve (.start s) turns = .ok c) : OneReplyEach s turns := by
  obtain ⟨hunread, added, hadded, hmap, hall⟩ := serve_run hturns (fun _ => rfl) hopen h
  have hexchanges : exchangesAlong (.start s) turns = added :=
    (exchangesAlong_of_ok h).trans hadded
  refine ⟨hexchanges ▸ hmap, hexchanges ▸ hall, fun channel => ?_, fun c' hc' => ?_⟩
  · apply List.flatMap_congr
    intro x hx
    rw [hexchanges] at hx
    exact (hall x (List.mem_of_mem_filter hx)).written
  · cases h.symm.trans hc'
    exact hunread

theorem not_replied_of_error {stop : Stop} (h : exec serve (.start s) turns = .error stop) :
    ¬ OneReplyEach s turns := by
  intro hreplied
  have hshort := exchangesAlong_of_error h
  have hlength := congrArg List.length hreplied.requests
  rw [List.length_map, List.length_map] at hlength
  have hnone : (Conversation.start s).exchanges.length = 0 := rfl
  omega

/-- No turn of a conversation that the daemon survives crashes. -/
theorem each_survived (hs : Consistent s) (hturns : ∀ t ∈ turns, t.WellFormed)
    (h : exec serve (.start s) turns = .ok c) :
    Each serve (fun c t => ¬ Crashes c t) (.start s) turns := by
  refine Each.mono (I := fun c => Consistent c.daemon)
    (fun _ _ _ hs _ hserve => consistent_serve hs hserve) ?_ hs
    ((each_ok_of_exec h).and_forall hturns)
  rintro c t hs ⟨ht, c', hserve⟩ hcrashes
  have hcrashed := (serve_crashed hs ht).mpr hcrashes
  simp [hserve] at hcrashed

/-- Where no assertion fails, each request of a conversation is answered with one bare header
exactly if none of them crashes the daemon: no HELLO whose plugin match leaves the registry or
has no init hook, no command for a remote host, and no channel whose card has been freed. -/
theorem one_empty_reply_iff (hrun : exec daemonStep (boot rules) evs = .ok s)
    (hturns : ∀ t ∈ turns, t.WellFormed) (hopen : ∀ t ∈ turns, ∃ e ∈ s.events, e.id = t.channel)
    (hassert : ∀ site, exec serve (.start s) turns ≠ .error (.assertion site)) :
    OneReplyEach s turns ↔ Each serve (fun c t => ¬ Crashes c t) (.start s) turns := by
  have hs := consistent_of_run hrun
  cases hexec : exec serve (.start s) turns with
  | ok c => exact iff_of_true (replied_of_ok hturns hopen hexec) (each_survived hs hturns hexec)
  | error stop =>
    refine iff_of_false (not_replied_of_error hexec) fun heach => ?_
    obtain ⟨before, t, after, c, rfl, hreached, hstop⟩ := exists_stopping hexec
    have hc : Consistent c.daemon :=
      (along_iff_reached (P := fun c => Consistent c.daemon) _ _).mp
        (along_of_step (fun _ _ _ hs hserve => consistent_serve hs hserve) _ hs) before c
        (List.prefix_refl _) hreached
    refine heach.step_at hreached ((serve_crashed hc (hturns t (by simp))).mp ?_)
    rw [hstop, crashed_error]
    rintro site rfl
    exact hassert site hexec

end

/-- A request that is sent and answered whole on the channel of the first card. -/
def plainTurn (type : BitVec 32) (body : Bytes) : Turn where
  channel := 2
  msg := request type body
  behind := []
  clientWrites := List.replicate (AccMsgHeader.size + body.length) (.moved bufSize)
  clientReads := List.replicate AccMsgHeader.size (.moved AccMsgHeader.size)
  reads := List.replicate (request type body).bytes.length (.moved bufSize)
  writes := List.replicate AccMsgHeader.size (.moved AccMsgHeader.size)
  outBuf := []
  world := .healthy

theorem plainTurn_wellFormed {type : BitVec 32} {body : Bytes} (hbody : body.length ≤ bufSize)
    (htype : type ∈ [accUnixHello, accUnixAddFlows, accUnixDisconnect]) :
    (plainTurn type body).WellFormed :=
  ⟨request_framed type hbody, htype, enough_replicate _ _, enough_replicate _ _,
    enough_replicate _ _, enough_replicate _ _⟩

/-- A HELLO, a batch of one TCP flow, a body that is no array of flows, and a DISCONNECT. -/
def fourTurns : List Turn :=
  [plainTurn accUnixHello [], plainTurn accUnixAddFlows (flowsBytes [.plain 6]),
    plainTurn accUnixAddFlows [0], plainTurn accUnixDisconnect []]

theorem fourTurns_wellFormed : ∀ t ∈ fourTurns, t.WellFormed ∧ t.channel = 2 := by
  simp only [fourTurns, List.forall_mem_cons]
  exact ⟨⟨plainTurn_wellFormed (by decide) (by decide), rfl⟩,
    ⟨plainTurn_wellFormed (by decide) (by decide), rfl⟩,
    ⟨plainTurn_wellFormed (by decide) (by decide), rfl⟩,
    ⟨plainTurn_wellFormed (by decide) (by decide), rfl⟩, by simp⟩

/-- On a Netronome card each of the four is answered, and only the broken body with FAIL. -/
theorem one_empty_reply_four_turns :
    ∃ s, exec daemonStep (boot []) [registerPlain 0x73] = .ok s ∧ OneReplyEach s fourTurns ∧
      (exchangesAlong (.start s) fourTurns).map Exchange.returnedZero =
        [true, true, false, true] := by
  obtain ⟨s, hrun, hopen, hcodes, hserved⟩ : ∃ s,
      exec daemonStep (boot []) [registerPlain 0x73] = .ok s ∧ (∃ e ∈ s.events, e.id = 2) ∧
      (exchangesAlong (.start s) fourTurns).map Exchange.returnedZero = [true, true, false, true] ∧
      (exec serve (.start s) fourTurns).toBool = true := exists_of_eval (by decide +kernel)
  have hturns : ∀ t ∈ fourTurns, t.WellFormed := fun t ht => (fourTurns_wellFormed t ht).1
  have hchannels : ∀ t ∈ fourTurns, ∃ e ∈ s.events, e.id = t.channel := by
    intro t ht
    rw [(fourTurns_wellFormed t ht).2]
    exact hopen
  cases hexec : exec serve (.start s) fourTurns with
  | error stop =>
    rw [hexec] at hserved
    cases hserved
  | ok c =>
    refine ⟨s, hrun, ?_, hcodes⟩
    exact (one_empty_reply_iff hrun hturns hchannels (by simp [hexec])).mpr
      (each_survived (consistent_of_run hrun) hturns hexec)

def liquidioCard : AccCard := { AccCard.plain 0x73 with vendor := 4, model := 6 }

def registerLiquidio : DaemonEvent :=
  .command ⟨liquidioCard, cmdTypeRegister⟩ [] ⟨true, ⟨true, true, true, true, true⟩⟩

/-- On a LiquidIO card the batch behind a HELLO is never answered, though no assertion fails. -/
theorem remote_batch_unanswered :
    ¬ ∀ rules evs s turns, exec daemonStep (boot rules) evs = .ok s →
      (∀ t ∈ turns, Turn.WellFormed t) → (∀ t ∈ turns, ∃ e ∈ s.events, e.id = t.channel) →
      (∀ site, exec serve (.start s) turns ≠ .error (.assertion site)) → OneReplyEach s turns := by
  intro hall
  obtain ⟨s, hrun, hopen, hstop⟩ : ∃ s, exec daemonStep (boot []) [registerLiquidio] = .ok s ∧
      (∃ e ∈ s.events, e.id = 2) ∧
      reason (exec serve (.start s) (fourTurns.take 2)) = some .badString :=
    exists_of_eval (by decide +kernel)
  have hexec := eq_error_of_reason hstop
  have hturns : ∀ t ∈ fourTurns.take 2, t.WellFormed ∧ t.channel = 2 := fun t ht =>
    fourTurns_wellFormed t (List.mem_of_mem_take ht)
  refine not_replied_of_error hexec (hall [] _ s _ hrun (fun t ht => (hturns t ht).1) ?_
    (by simp [hexec]))
  intro t ht
  rw [(hturns t ht).2]
  exact hopen

end BeLa.Replies
