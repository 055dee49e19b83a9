import BeLa.BatchExecution
import BeLa.Client
import BeLa.Requests

/-!
ADD_FLOWS from end to end. The batch that a client sends reaches the rule back
end of its card unchanged, once, and has its commands executed there; the client
learns whether every rule of the batch could be built and every command has
succeeded.
-/
namespace BeLa.AddFlowsEndToEnd

open LittleEndian PartialTransfer Stops Framing Receiving Sending BeLa.Flow OfctlRule Switch
open Context Execute Editing BatchExecution Plugin Card Message Channel Handling Requests Client

variable {w : World} {context : AccContext} {sh : Shared}

theorem batches_editFlow (isDelete : Bool) (i : ℕ) (flow : AccFlow) :
    (editFlow w context isDelete i flow sh).history.batches = sh.history.batches := by
  obtain ⟨_, _, _, hframe⟩ := @editFlow_frame w context sh isDelete i flow
  rw [hframe]

theorem batches_editFlows (isDelete : Bool) (i : ℕ) (flows : List AccFlow) :
    (editFlows w context isDelete i flows sh).history.batches = sh.history.batches :=
  editFlows_induct (P := fun after => after.history.batches = sh.history.batches)
    (fun j flow _ _ h => (batches_editFlow isDelete j flow).trans h) rfl

theorem batches_flush (run : CommandRun) :
    (afterFlush w context run sh).history.batches = sh.history.batches := by
  obtain ⟨_, _, _, hframe⟩ := @flush_frame w context sh run
  rw [hframe]

/-- The history notes one batch, however it ends. -/
theorem batches_addResult (flows : List AccFlow) :
    (addResult w context flows sh).2.history.batches =
      sh.history.batches ++ [⟨context.addr, flows⟩] := by
  rcases addResult_cases w context flows sh with ⟨hadd, -⟩ | ⟨hadd, -⟩ | ⟨k, -, -, -, hadd⟩
  · rw [hadd]
    rfl
  · rw [hadd, batches_editFlows]
    rfl
  · rw [hadd, batches_flush, batches_editFlows]
    rfl

theorem lines_addResult (halloc : w.allocRules) (flows : List AccFlow) :
    (addResult w context flows sh).2.history.lines = sh.history.lines ++
      if ∀ flow ∈ flows, Supported flow then executed w context false flows else [] := by
  by_cases hflows : ∀ flow ∈ flows, Supported flow
  · rw [if_pos hflows]
    exact lines_batchResult ⟨halloc, hflows⟩
  · rw [if_neg hflows, addResult_refused fun hbuilt => hflows hbuilt.2, List.append_nil]
    rfl

/-- A batch succeeds when every rule is built and every command succeeds. -/
theorem addResult_succeeds_iff (halloc : w.allocRules) (flows : List AccFlow) :
    (addResult w context flows sh).1 = true ↔
      (∀ flow ∈ flows, Supported flow) ∧ ∀ i, i < flows.length → verdict context (w.shell i) := by
  by_cases hflows : ∀ flow ∈ flows, Supported flow
  · rw [addResult, batchResult_ok ⟨halloc, hflows⟩]
    exact (and_iff_right hflows).symm
  · rw [addResult_refused fun hbuilt => hflows hbuilt.2]
    exact iff_of_false (by simp) fun h => hflows h.1

/-- A local command succeeds when its shell starts and exits with 0. -/
theorem verdict_local (hlocal : context.sshRemote = none) (run : CommandRun) :
    verdict context run = true ↔ run.forked = true ∧ run.status = 0 := by
  unfold verdict system
  rw [hlocal]
  cases hforked : run.forked <;> simp

/-- The handler decodes the flows that were encoded into the body. -/
theorem process_addFlows {card : BeCardInner} (hcontext : card.context = some context)
    (hbe : context.be = some .ovsRule) (hbridge : context.bridge.length < 256)
    (hlocal : context.sshRemote = none) (flows : List AccFlow) :
    beAccMessageProcess w card accUnixAddFlows (flowsBytes flows) 0 sh =
      .ok ⟨(addResult w context flows sh).1, 0, card, (addResult w context flows sh).2⟩ := by
  have hcount : (flowsBytes flows).length / AccFlow.size = flows.length := by
    rw [length_flowsBytes]
    exact Nat.mul_div_cancel_left _ (by decide)
  have hwhole : ¬ flows.length * AccFlow.size ≠ (flowsBytes flows).length := by
    rw [length_flowsBytes, Nat.mul_comm]
    exact not_not.mpr rfl
  unfold beAccMessageProcess
  rw [handlerAt_addFlows]
  simp only [Handler.run, addFlowsMessageHandle, hcount, if_neg hwhole, hcontext, hbe,
    flowsOf_flowsBytes, addRules_local hbridge hlocal]

/-- What the client makes of a reply that is a bare header. -/
theorem sendRecv_header {msg : Framing.Message} {link : Link} {reply : AccMsgHeader}
    (hmsg : Enough link.writes (AccMsgHeader.size + msg.body.length)) (hready : link.ready = true)
    (hreply : (link.inbound msg.bytes).stream = reply.bytes)
    (hreads : Enough (link.inbound msg.bytes).reads AccMsgHeader.size)
    (hlength : reply.totalLen.toInt = AccMsgHeader.size) :
    accUnixSendRecv msg link = .ok (some reply) := by
  obtain ⟨left, hsend, -⟩ := accUnixSendMessage_enough (m := 0) msg.hdr msg.body hmsg
  have hdata : dataLen reply = (0 : ℕ) := dataLen_of_total (Nat.zero_le _) (by simpa using hlength)
  obtain ⟨rest, hrecv, -⟩ := @recv_full 0 reply [] _ 0 0 hreads hdata
    (Nat.zero_le _) (Nat.le_refl _)
  have hinbound : link.inbound (msg.hdr.bytes ++ msg.body) =
      ⟨reply.bytes ++ [], (link.inbound msg.bytes).reads⟩ := by
    rw [List.append_nil, ← hreply]
    rfl
  unfold accUnixSendRecv
  simp only [hsend, not_true_eq_false, if_false, hready, hinbound, hrecv]

def linkTo (call : Bytes → RequestRun) (writes reads : List Answer) : Link where
  writes := writes
  ready := true
  inbound := fun bytes => ⟨(call bytes).sent, reads⟩

def replyToAdd (ok : Bool) : AccMsgHeader where
  totalLen := 16
  accType := accTypeFlow
  msgType := accUnixAddFlows
  code := if ok then accUnixSuccess else accUnixFail

/-- The call of the server that a batch reaches. -/
theorem serve_addFlows {flows : List AccFlow} (hfit : AccFlow.size * flows.length ≤ bufSize)
    {s : Daemon} {arg : ℕ} {card : BeCardInner} (hcard : s.cardAt arg = some card)
    (hcontext : card.context = some context) (hbe : context.be = some .ovsRule)
    (hbridge : context.bridge.length < 256) (hlocal : context.sshRemote = none) {d : Delivery}
    (hstream : d.stream = (addFlowsMessage flows).bytes)
    (hreads : Enough d.reads (addFlowsMessage flows).bytes.length)
    (hwrites : Enough d.writes AccMsgHeader.size) :
    (doVmRequestRead s arg d).sent =
        (replyToAdd (addResult d.world context flows s.shared).1).bytes ∧
      (doVmRequestRead s arg d).result =
        .ok { s.writeCard card with
          shared := (addResult d.world context flows s.shared).2 } := by
  have hread := read_framed hcard (addFlowsMessage_framed hfit)
    (hstream.trans (List.append_nil _).symm) hreads hwrites
  have hprocess : beAccMessageProcess d.world card (addFlowsMessage flows).hdr.msgType
      (addFlowsMessage flows).body 0 s.shared = _ :=
    process_addFlows hcontext hbe hbridge hlocal flows
  rw [hprocess] at hread
  rw [hread]
  exact ⟨rfl, rfl⟩

/-- The client reads its code off the reply. -/
theorem accChannelAddFlows_of_reply {flows : List AccFlow} {link : Link} {ok : Bool}
    (h : accUnixSendRecv (addFlowsMessage flows) link = .ok (some (replyToAdd ok))) :
    accChannelAddFlows flows link = .ok (if ok then .flowsAccept else .flowsRejection) := by
  unfold accChannelAddFlows
  rw [h]
  cases ok <;> rfl

/-- The batch of a client is handed to `acc_ovs_add_rules` once and as it is. One of protocols
6 and 17 has its commands executed, the one of flow `i` as the command whose result is
`w.shell i`; the client gets FLOWS_ACCEPT when every protocol is 6 or 17 and every command
succeeds, and FLOWS_REJECTION otherwise. -/
theorem add_flows_end_to_end {flows : List AccFlow} (hfit : AccFlow.size * flows.length ≤ bufSize)
    {s : Daemon} {arg : ℕ} {card : BeCardInner} {context : AccContext}
    (hcard : s.cardAt arg = some card) (hcontext : card.context = some context)
    (hbe : context.be = some .ovsRule) (hlocal : context.sshRemote = none)
    (hbr0 : context.bridge = br0) {w : World} (halloc : w.allocRules = true) (outBuf : Bytes)
    {clientWrites clientReads reads writes : ℕ → Answer} (hclientWrites : Fair clientWrites)
    (hclientReads : Fair clientReads) (hreads : Fair reads) (hwrites : Fair writes) :
    ∃ N, ∀ n, N ≤ n →
      let call := fun bytes =>
        doVmRequestRead s arg ⟨bytes, script reads n, script writes n, outBuf, w⟩
      ∃ sent s' code,
        accUnixSendMessage (addFlowsMessage flows).hdr (addFlowsMessage flows).body
          (script clientWrites n) = some sent ∧
        (call sent.bytes).result = .ok s' ∧
        s'.shared.history.batches = s.shared.history.batches ++ [⟨context.addr, flows⟩] ∧
        s'.shared.history.lines = s.shared.history.lines ++
          (if ∀ flow ∈ flows, flow.match.protocol = 6 ∨ flow.match.protocol = 17
            then executed w context false flows else []) ∧
        accChannelAddFlows flows (linkTo call (script clientWrites n) (script clientReads n)) =
          .ok code ∧
        (code = .flowsAccept ↔
          (∀ flow ∈ flows, flow.match.protocol = 6 ∨ flow.match.protocol = 17) ∧
            ∀ i, i < flows.length → (w.shell i).forked = true ∧ (w.shell i).status = 0) ∧
        (code ≠ .flowsAccept → code = .flowsRejection) := by
  have hbridge := bridge_length_of_br0 hbr0
  obtain ⟨N₁, hN₁⟩ := hclientWrites.exists_enough (addFlowsMessage flows).bytes.length
  obtain ⟨N₂, hN₂⟩ := hclientReads.exists_enough AccMsgHeader.size
  obtain ⟨N₃, hN₃⟩ := hreads.exists_enough (addFlowsMessage flows).bytes.length
  obtain ⟨N₄, hN₄⟩ := hwrites.exists_enough AccMsgHeader.size
  refine ⟨N₁ + N₂ + N₃ + N₄, fun n hn => ?_⟩
  intro call
  have hclient : Enough (script clientWrites n)
      (AccMsgHeader.size + (addFlowsMessage flows).body.length) :=
    Framing.Message.length_bytes _ ▸ hN₁ n (by omega)
  obtain ⟨left, hsend, -⟩ := accUnixSendMessage_enough (m := 0) (addFlowsMessage flows).hdr
    (addFlowsMessage flows).body hclient
  obtain ⟨hsent, hresult⟩ := @serve_addFlows context flows hfit s arg card hcard hcontext hbe
    hbridge hlocal ⟨(addFlowsMessage flows).bytes, script reads n, script writes n, outBuf, w⟩ rfl
    (hN₃ n (by omega)) (hN₄ n (by omega))
  have hreply : accUnixSendRecv (addFlowsMessage flows)
      (linkTo call (script clientWrites n) (script clientReads n)) =
      .ok (some (replyToAdd (addResult w context flows s.shared).1)) :=
    sendRecv_header hclient rfl hsent (hN₂ n (by omega)) rfl
  have hiff : (addResult w context flows s.shared).1 = true ↔
      (∀ flow ∈ flows, flow.match.protocol = 6 ∨ flow.match.protocol = 17) ∧
        ∀ i, i < flows.length → (w.shell i).forked = true ∧ (w.shell i).status = 0 := by
    rw [addResult_succeeds_iff halloc]
    simp only [verdict_local hlocal, Supported]
  refine ⟨_, _, _, hsend, hresult, batches_addResult flows, lines_addResult halloc flows,
    accChannelAddFlows_of_reply hreply, ?_, ?_⟩
  · rw [← hiff]
    cases (addResult w context flows s.shared).1 <;> simp
  · cases (addResult w context flows s.shared).1 <;> simp

def oneCard : Daemon where
  table := ⟨[some ⟨1, AccCard.plain 0x73, some (AccContext.plain 3 1 0xDEAD0000), some 2,
    some ⟨1, 1⟩⟩], 1⟩
  events := [⟨2, [0x73], 1⟩]
  freed := []
  shared := .start []

/-- A TCP flow is accepted, whatever the pieces in which its message travels. -/
theorem add_flows_end_to_end_tcp :
    ∃ N, ∀ n, N ≤ n →
      accChannelAddFlows [AccFlow.plain 6]
        (linkTo (fun bytes => doVmRequestRead oneCard 1
            ⟨bytes, script (interrupted 5) n, script (interrupted 7) n, [],
              .healthy⟩)
          (script (interrupted 9) n) (script (interrupted 3) n)) = .ok .flowsAccept := by
  obtain ⟨N, hN⟩ := @add_flows_end_to_end [AccFlow.plain 6] (by decide) oneCard 1 _ _ rfl rfl rfl
    rfl (AccContext.bridge_plain 3 1 0xDEAD0000) .healthy rfl [] _ _ _ _
    (fair_interrupted 9) (fair_interrupted 3) (fair_interrupted 5) (fair_interrupted 7)
  refine ⟨N, fun n hn => ?_⟩
  obtain ⟨sent, s', code, -, -, -, -, hcode, haccept, -⟩ := hN n hn
  rw [hcode, haccept.mpr ⟨by decide, fun _ _ => ⟨rfl, rfl⟩⟩]

end BeLa.AddFlowsEndToEnd
