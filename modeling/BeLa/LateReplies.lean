import BeLa.Replies

/-!
Replies that come too late. The wait for a reply fails when a signal interrupts it;
a daemon that survives the request answers all the same, and the reply stays in the
channel, in front of the next one. A reply carries no number: so each request is given
the oldest reply that has not been read, which is its own as long as no wait on the
channel has failed.
-/
namespace BeLa.LateReplies

open LittleEndian PartialTransfer Runs Stops Framing Receiving Sending BeLa.Flow Card Channel Client
open AddFlowsEndToEnd Replies

structure Attempt extends Turn where
  ready : Bool

namespace Attempt

def link (t : Attempt) (s : Daemon) (arg : ℕ) (unread : Bytes) : Link :=
  { t.toTurn.link s arg unread with ready := t.ready }

def behindCall (t : Attempt) (s : Daemon) (arg : ℕ) (unread : Bytes) : Bytes :=
  let inbound := (t.link s arg unread).inbound t.msg.bytes
  if t.ready then leftover inbound else inbound.stream

end Attempt

/-- One attempt; on a channel without a read event nothing is called. -/
def attempt (c : Conversation) (t : Attempt) : Except Stop Conversation :=
  match c.daemon.events.find? (fun e => e.id = t.channel) with
  | none => .ok c
  | some e =>
    let run := t.call c.daemon e.arg t.msg.bytes
    let unread := c.unread t.channel
    match run.result with
    | .error stop => .error stop
    | .ok daemon => .ok
      { daemon := daemon
        unread := Function.update c.unread t.channel (t.behindCall c.daemon e.arg unread)
        exchanges := c.exchanges ++ [⟨t.channel, t.msg, t.returnsZero c.daemon e.arg, run.sent,
          accUnixSendRecv t.msg (t.link c.daemon e.arg unread)⟩] }

def onChannel (channel : ℕ) (xs : List Exchange) : List Exchange :=
  xs.filter fun x => x.channel = channel

def ownReply (x : Exchange) : AccMsgHeader := emptyReply x.request.hdr x.returnedZero

def given (x : Exchange) : Option AccMsgHeader :=
  match x.got with
  | .ok reply => reply
  | .error _ => none

def missed (xs : List Exchange) : ℕ := xs.countP fun x => (given x).isNone

/-- The replies of a channel are given in the order of the requests, and those that have not been
given yet are what is unread. -/
structure InOrder (c : Conversation) (channel : ℕ) (late : List AccMsgHeader) : Prop where
  unread : c.unread channel = late.flatMap AccMsgHeader.bytes
  order : (onChannel channel c.exchanges).map ownReply =
    (onChannel channel c.exchanges).filterMap given ++ late
  bare : ∀ reply ∈ late, reply.totalLen.toInt = AccMsgHeader.size

variable {c c' : Conversation} {t : Attempt} {channel : ℕ} {late : List AccMsgHeader}

/-- The client is given the header that stands first in the channel. -/
theorem sendRecv_first {msg : Framing.Message} {link : Link} {reply : AccMsgHeader} {rest : Bytes}
    (hmsg : Enough link.writes (AccMsgHeader.size + msg.body.length)) (hready : link.ready = true)
    (hreply : (link.inbound msg.bytes).stream = reply.bytes ++ rest)
    (hreads : Enough (link.inbound msg.bytes).reads AccMsgHeader.size)
    (hlength : reply.totalLen.toInt = AccMsgHeader.size) :
    accUnixSendRecv msg link = .ok (some reply) ∧ leftover (link.inbound msg.bytes) = rest := by
  obtain ⟨left, hsend, -⟩ := accUnixSendMessage_enough (m := 0) msg.hdr msg.body hmsg
  have hdata : dataLen reply = (0 : ℕ) := dataLen_of_total (Nat.zero_le _) (by simpa using hlength)
  obtain ⟨reads, hrecv, -⟩ := @recv_full 0 reply rest _ 0 0 hreads hdata
    (Nat.zero_le _) (Nat.le_refl _)
  have hinbound : link.inbound (msg.hdr.bytes ++ msg.body) =
      ⟨reply.bytes ++ rest, (link.inbound msg.bytes).reads⟩ := by
    rw [← hreply]
    rfl
  constructor
  · unfold accUnixSendRecv
    simp only [hsend, not_true_eq_false, if_false, hready, hinbound, hrecv]
  · have hsame : link.inbound msg.bytes =
        ⟨reply.bytes ++ rest, (link.inbound msg.bytes).reads⟩ := hinbound
    rw [leftover, hsame, hrecv]
    rfl

theorem sendRecv_unready {msg : Framing.Message} {link : Link}
    (hmsg : Enough link.writes (AccMsgHeader.size + msg.body.length))
    (hready : link.ready = false) : accUnixSendRecv msg link = .ok none := by
  obtain ⟨left, hsend, -⟩ := accUnixSendMessage_enough (m := 0) msg.hdr msg.body hmsg
  unfold accUnixSendRecv
  simp [hsend, hready]

/-- An attempt leaves the other channels alone. -/
theorem inOrder_other (h : InOrder c channel late) (hne : t.channel ≠ channel)
    (hstep : attempt c t = .ok c') : InOrder c' channel late := by
  unfold attempt at hstep
  split at hstep
  · cases hstep
    exact h
  · dsimp only at hstep
    split at hstep
    · cases hstep
    · cases hstep
      refine ⟨?_, ?_, h.bare⟩
      · rw [← h.unread]
        exact Function.update_of_ne hne.symm _ _
      · simpa [onChannel, List.filter_append, hne] using h.order

/-- A reply joins the queue of a channel, and the client takes the first one or none. -/
theorem inOrder_append {x : Exchange} {late' : List AccMsgHeader} (h : InOrder c channel late)
    (hchannel : x.channel = channel) (hexchanges : c'.exchanges = c.exchanges ++ [x])
    (hqueue : late ++ [ownReply x] = (given x).toList ++ late')
    (hunread : c'.unread channel = late'.flatMap AccMsgHeader.bytes) :
    InOrder c' channel late' := by
  have hon : onChannel channel c'.exchanges = onChannel channel c.exchanges ++ [x] := by
    rw [onChannel, hexchanges, List.filter_append]
    simp [onChannel, hchannel]
  refine ⟨hunread, ?_, fun reply hreply => ?_⟩
  · rw [hon, List.map_append, h.order, List.filterMap_append, List.append_assoc, List.append_assoc,
      List.map_singleton, hqueue]
    cases hgiven : given x <;> simp [hgiven]
  · have hin : reply ∈ late ++ [ownReply x] := hqueue ▸ List.mem_append_right _ hreply
    rcases List.mem_append.mp hin with hold | hnew
    · exact h.bare reply hold
    · rw [List.mem_singleton.mp hnew]
      rfl

/-- An attempt takes the oldest reply of its channel, or leaves one more. -/
theorem inOrder_own (ht : t.WellFormed) (h : InOrder c t.channel late)
    (hstep : attempt c t = .ok c') : ∃ late', InOrder c' t.channel late' := by
  unfold attempt at hstep
  split at hstep
  · cases hstep
    exact ⟨late, h⟩
  · rename_i e he
    dsimp only at hstep
    split at hstep
    · cases hstep
    · rename_i daemon hresult
      obtain ⟨hsent, -⟩ := call_spec ht hresult
      set reply := emptyReply t.msg.hdr (t.returnsZero c.daemon e.arg) with hreply
      set link := t.link c.daemon e.arg (c.unread t.channel) with hlink
      have hstream : (link.inbound t.msg.bytes).stream =
          (late ++ [reply]).flatMap AccMsgHeader.bytes := by
        rw [List.flatMap_append, List.flatMap_singleton, ← h.unread, ← hsent]
        rfl
      cases hready : t.ready with
      | true =>
        obtain ⟨first, rest, hqueue⟩ := List.exists_cons_of_ne_nil
          (List.append_ne_nil_of_right_ne_nil late (List.cons_ne_nil reply []))
        have hbare : first.totalLen.toInt = AccMsgHeader.size := by
          have hin : first ∈ late ++ [reply] := hqueue ▸ List.mem_cons_self
          rcases List.mem_append.mp hin with hold | hnew
          · exact h.bare first hold
          · rw [List.mem_singleton.mp hnew]
            rfl
        rw [hqueue, List.flatMap_cons] at hstream
        obtain ⟨hgot, hleft⟩ := sendRecv_first ht.sent hready hstream ht.heard hbare
        cases hstep
        refine ⟨rest, inOrder_append h rfl rfl ?_ ?_⟩
        · rw [given, hgot]
          exact hqueue
        · rw [← hleft]
          simp [Attempt.behindCall, hready, hlink]
      | false =>
        have hgot : accUnixSendRecv t.msg link = .ok none := sendRecv_unready ht.sent hready
        cases hstep
        refine ⟨late ++ [reply], inOrder_append h rfl rfl ?_ ?_⟩
        · rw [given, hgot]
          rfl
        · rw [← hstream]
          simp [Attempt.behindCall, hready, hlink]

theorem inOrder_start (s : Daemon) (channel : ℕ) : InOrder (.start s) channel [] :=
  ⟨rfl, rfl, by simp⟩

theorem inOrder_step (ht : t.WellFormed) (h : ∃ late, InOrder c channel late)
    (hstep : attempt c t = .ok c') : ∃ late, InOrder c' channel late := by
  obtain ⟨late, h⟩ := h
  by_cases hchannel : t.channel = channel
  · subst hchannel
    exact inOrder_own ht h hstep
  · exact ⟨late, inOrder_other h hchannel hstep⟩

theorem inOrder_run {turns : List Attempt} (hturns : ∀ t ∈ turns, t.WellFormed) {s : Daemon}
    (h : exec attempt (.start s) turns = .ok c) (channel : ℕ) : ∃ late, InOrder c channel late := by
  have hes : Each attempt (fun _ t => t.WellFormed) (Conversation.start s) turns :=
    each_of_forall (fun t ht _ => hturns t ht) _
  have halong : Along attempt (fun c => ∃ late, InOrder c channel late) (Conversation.start s)
      turns :=
    along_of_each (fun _ _ _ hc ht hstep => inOrder_step ht hc hstep)
      ⟨[], inOrder_start s channel⟩ hes
  exact (along_iff_reached _ _).mp halong turns c (List.prefix_refl _) h

theorem length_given (xs : List Exchange) :
    (xs.filterMap given).length + missed xs = xs.length := by
  induction xs with
  | nil => rfl
  | cons x xs ih =>
    rw [missed] at ih ⊢
    cases hgiven : given x with
    | none =>
      rw [List.filterMap_cons_none hgiven, List.countP_cons_of_pos (by simp [hgiven])]
      simp only [List.length_cons]
      omega
    | some reply =>
      rw [List.filterMap_cons_some hgiven, List.countP_cons_of_neg (by simp [hgiven])]
      simp only [List.length_cons]
      omega

/-- Whatever waits are interrupted, the replies of a channel are given in the order of its
requests, none is lost or given twice, and those that were not waited for are what is unread.
So a request is given the reply of the one that stands as many places before it as waits have
failed on its channel by then. -/
theorem replies_in_order (s : Daemon) {turns : List Attempt}
    (hturns : ∀ t ∈ turns, t.WellFormed) (h : exec attempt (.start s) turns = .ok c)
    (channel : ℕ) :
    (∃ late, (onChannel channel c.exchanges).map ownReply =
        (onChannel channel c.exchanges).filterMap given ++ late ∧
      c.unread channel = late.flatMap AccMsgHeader.bytes ∧
      late.length = missed (onChannel channel c.exchanges)) ∧
    ∀ before x after reply, onChannel channel c.exchanges = before ++ x :: after →
      given x = some reply →
      ∃ y, (before ++ [x])[before.length - missed before]? = some y ∧ reply = ownReply y := by
  obtain ⟨late, hunread, horder, -⟩ := inOrder_run hturns h channel
  constructor
  · refine ⟨late, horder, hunread, ?_⟩
    have hlength := congrArg List.length horder
    rw [List.length_map, List.length_append, ← length_given] at hlength
    omega
  · intro before x after reply hsplit hgiven
    have hcount := length_given before
    rw [hsplit, List.filterMap_append, List.filterMap_cons_some hgiven] at horder
    have hplace : before.length - missed before = (before.filterMap given).length := by omega
    have hat : ((before ++ x :: after).map ownReply)[(before.filterMap given).length]? =
        some reply := by
      rw [horder, List.append_assoc, List.getElem?_append_right (le_refl _), Nat.sub_self]
      rfl
    rw [List.getElem?_map, Option.map_eq_some_iff] at hat
    obtain ⟨y, hy, hreply⟩ := hat
    refine ⟨y, ?_, hreply.symm⟩
    rw [hplace, ← hy]
    have hshort : (before.filterMap given).length < (before ++ [x]).length := by
      rw [List.length_append, List.length_singleton]
      omega
    rw [show before ++ x :: after = (before ++ [x]) ++ after by simp]
    exact (List.getElem?_append_left hshort).symm

/-- A batch whose reply is not waited for, and one that cannot be built. -/
def interruptedWait : List Attempt :=
  [⟨plainTurn accUnixAddFlows (flowsBytes [AccFlow.plain 6]), false⟩,
    ⟨plainTurn accUnixAddFlows (flowsBytes [AccFlow.plain 1]), true⟩]

/-- The second batch is refused, and its client is given the success of the first. -/
theorem replies_in_order_interruptedWait :
    ∃ c, exec attempt (.start oneCard) interruptedWait = .ok c ∧
      c.exchanges.map Exchange.returnedZero = [true, false] ∧
      (c.exchanges.map given).map (fun reply => reply.map AccMsgHeader.code) =
        [none, some accUnixSuccess] ∧
      ∃ late, (onChannel 2 c.exchanges).map ownReply =
          (onChannel 2 c.exchanges).filterMap given ++ late ∧
        c.unread 2 = late.flatMap AccMsgHeader.bytes ∧
        late.length = missed (onChannel 2 c.exchanges) := by
  obtain ⟨c, hrun, hreturned, hgiven⟩ : ∃ c, exec attempt (.start oneCard) interruptedWait = .ok c ∧
      c.exchanges.map Exchange.returnedZero = [true, false] ∧
      (c.exchanges.map given).map (fun reply => reply.map AccMsgHeader.code) =
        [none, some accUnixSuccess] := exists_of_eval (by decide +kernel)
  have hturns : ∀ t ∈ interruptedWait, t.WellFormed := by
    rw [interruptedWait, List.forall_mem_cons, List.forall_mem_singleton]
    exact ⟨plainTurn_wellFormed (by decide) (by decide),
      plainTurn_wellFormed (by decide) (by decide)⟩
  exact ⟨c, hrun, hreturned, hgiven, (replies_in_order oneCard hturns hrun 2).1⟩

end BeLa.LateReplies
