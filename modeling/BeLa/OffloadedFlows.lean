import BeLa.NatBridge
import BeLa.Offloading

/-!
The flows that are offloaded. What a card of the tool holds on the bridge are the
entries of the flows for which a call on its channel has returned 1, and which it
has since neither lost to a call that returned 1 for another flow nor given up
with its session.
-/
namespace BeLa.OffloadedFlows

open LittleEndian Runs Framing Receiving BeLa.Flow OfctlRule Switch Context Execute Editing Plugin
open Card Message Channel Command Client Accelerate Stages AddFlowsEndToEnd Handling Replies Steps
open Invariant Ledger Tenancy SharedBridge BridgeTenants NatBridge Attachment CommandServer
open ToolCards Offloading

def deeds (s : System) (ev : SystemEvent) : List (Act ℕ Entry) :=
  match roundOf s ev with
  | none => []
  | some round => actsOf s.daemon round

/-- Between the two states a call on the channel of the card has returned 1 for a flow with the
entry. -/
def Accelerated (k : ℕ) (e : Entry) (s s' : System) : Prop :=
  ∃ x ∈ s.daemon.events, x.arg = k ∧ ∃ flow, entryOfFlow flow = e ∧
    s'.returns = s.returns ++ [⟨x.id, flow, true⟩]

def Accelerates (k : ℕ) (e : Entry) (s : System) (ev : SystemEvent) : Prop :=
  ∃ s', systemStep s ev = .ok s' ∧ Accelerated k e s s'

def Displaced (displaces : Entry → Entry → Prop) (e : Entry) (s : System) (ev : SystemEvent) :
    Prop :=
  ∃ k e', Accelerates k e' s ev ∧ displaces e' e

/-- The step has the rules of the card flushed, or leaves them to nobody. -/
def GivesUp (k : ℕ) (s : System) (ev : SystemEvent) : Prop :=
  .clear k ∈ deeds s ev ∨ .abandon k ∈ deeds s ev

def OnSwitch (displaces : Entry → Entry → Prop) (s : System) (ev : SystemEvent) : Prop :=
  ∀ round, roundOf s ev = some round → SharedBridge.OnSwitch displaces round

section

variable {daemon daemon' : Daemon} {card : BeCardInner} {context : AccContext} {w : Execute.World}

/-- A local command is carried out just if its verdict is good. -/
theorem carriedOut_local (hlocal : context.sshRemote = none) (run : CommandRun) :
    carriedOut context run = verdict context run := by
  unfold carriedOut verdict
  rw [hlocal]

/-- A batch of one flow does at most one act, and puts the flow just if it succeeds. -/
theorem single_batch (hlocal : context.sshRemote = none) (k : ℕ) (flow : AccFlow)
    (sh : Shared) :
    (batchActs w context k [flow]).length ≤ 1 ∧ ∀ j e, Act.put j e ∈ batchActs w context k [flow] ↔
      (addResult w context [flow] sh).1 = true ∧ k = j ∧ entryOfFlow flow = e := by
  unfold batchActs
  by_cases hbuilt : Built w [flow]
  · rw [if_pos hbuilt]
    have hadd := @addResult_succeeds_iff w context sh hbuilt.1 [flow]
    by_cases hok : verdict context (w.shell 0) = true
    · have hsucceeds : (addResult w context [flow] sh).1 = true :=
        hadd.mpr ⟨hbuilt.2, fun i hi => by simpa [Nat.lt_one_iff.mp hi] using hok⟩
      simp [loopActs, hok, carriedOut_local hlocal, hsucceeds, eq_comm]
    · have hfails : ¬ (addResult w context [flow] sh).1 = true :=
        fun h => hok ((hadd.mp h).2 0 Nat.one_pos)
      by_cases hflush : carriedOut context (w.shell 1) = true
      · simp [loopActs, hok, hflush, hfails]
      · simp [loopActs, hok, hflush, hfails]
  · rw [if_neg hbuilt, addResult_refused hbuilt]
    simp

/-! What a step is for the daemon. -/

variable {s s' : System} {ev : SystemEvent} {channel : ℕ} {meeting : Meeting} {call : Pending}
variable {t : Turn} {x : ReadEvent} {k n : ℕ} {e : Entry} {rules : List SwitchRule}
variable {displaces : Entry → Entry → Prop}

theorem daemon_of_goOn {run : ConnectRun} (h : goOn s channel run call = .ok s') :
    ∃ rest vnf, proceed run call (s.vms channel).vnf = .ok (rest, vnf) ∧
      s'.daemon = s.daemon ∧ s'.returns = s.returns ++ (Vm.after call channel rest).2 := by
  unfold goOn at h
  split at h
  · cases h
  · rename_i rest vnf hproceed
    cases h
    exact ⟨rest, vnf, hproceed, rfl, rfl⟩

/-- A request that is no whole block leaves the daemon alone. -/
theorem round_of_request {req : CommandServer.Request} {daemon : Daemon}
    (h : beCmdRequestProcess s.daemon req = .ok daemon) :
    (roundOf s (.request req) = none ∧ daemon = s.daemon) ∨
      ∃ round, roundOf s (.request req) = some round ∧ daemonStep s.daemon round = .ok daemon := by
  obtain ⟨received, behind, env⟩ := req
  unfold beCmdRequestProcess at h
  cases received with
  | none =>
    cases h
    exact .inl ⟨rfl, rfl⟩
  | some block =>
    have hsize : cmdHdrSize ≠ 0 := by decide
    by_cases hlength : block.length = cmdHdrSize
    · dsimp only at h
      rw [if_neg (by omega), if_neg (not_not.mpr hlength)] at h
      refine .inr ⟨.command (cmdOf block) behind env, by simp only [roundOf, if_pos hlength], ?_⟩
      cases hcmd : beLaCmdProcess (cmdOf block) behind env s.daemon with
      | error stop =>
        rw [hcmd] at h
        cases h
      | ok result =>
        rw [hcmd] at h
        obtain rfl : result.2 = daemon := Except.ok.inj h
        simp only [daemonStep, hcmd]
    · dsimp only at h
      rw [if_pos hlength, ite_self] at h
      cases h
      exact .inl ⟨by simp only [roundOf, if_neg hlength], rfl⟩

/-- A step is a round of the daemon, or leaves it alone. -/
theorem round_of_step (h : systemStep s ev = .ok s') :
    (roundOf s ev = none ∧ s'.daemon = s.daemon) ∨
      ∃ round, roundOf s ev = some round ∧ daemonStep s.daemon round = .ok s'.daemon := by
  cases ev with
  | request req =>
    simp only [systemStep] at h
    split at h
    · cases h
    · rename_i daemon hprocess
      cases h
      exact round_of_request hprocess
  | enter channel id flow =>
    refine .inl ⟨rfl, ?_⟩
    simp only [systemStep] at h
    split at h
    · cases h
      rfl
    · split at h
      · cases h
      · cases h
        rfl
  | proceed channel meeting =>
    simp only [systemStep] at h
    cases hcall : (s.vms channel).call with
    | none =>
      simp only [hcall] at h
      cases h
      exact .inl ⟨by simp only [roundOf, hcall], rfl⟩
    | some call =>
      simp only [hcall] at h
      cases hreach : reaches s channel meeting call with
      | none =>
        simp only [hreach] at h
        obtain ⟨-, -, -, hdaemon, -⟩ := daemon_of_goOn h
        exact .inl ⟨by simp only [roundOf, hcall, hreach], hdaemon⟩
      | some reached =>
        obtain ⟨t, x⟩ := reached
        obtain ⟨p, msg, -, -, hfind, -⟩ := reaches_some hreach
        simp only [hreach] at h
        split at h
        · cases h
        · rename_i daemon hresult
          obtain ⟨-, -, -, hdaemon, -⟩ := daemon_of_goOn h
          refine .inr ⟨.readable channel
            ⟨t.msg.bytes ++ t.behind, t.reads, t.writes, t.outBuf, t.world⟩,
            by simp only [roundOf, hcall, hreach], ?_⟩
          rw [hdaemon]
          simp only [daemonStep, hfind]
          exact hresult
  | other event d =>
    right
    refine ⟨.readable event d, rfl, ?_⟩
    simp only [systemStep] at h
    simp only [daemonStep]
    cases hfind : s.daemon.events.find? (fun e => e.id = event) with
    | none =>
      simp only [hfind] at h
      cases h
      rfl
    | some x =>
      simp only [hfind] at h
      split at h
      · cases h
      · rename_i daemon hresult
        cases h
        exact hresult

/-- A step has one call return, if any. -/
theorem returns_of_step (h : systemStep s ev = .ok s') :
    s'.returns = s.returns ∨ ∃ channel meeting call ok, ev = .proceed channel meeting ∧
      (s.vms channel).call = some call ∧
      s'.returns = s.returns ++ [⟨channel, call.flow, ok⟩] := by
  cases ev with
  | request req =>
    simp only [systemStep] at h
    split at h
    · cases h
    · cases h
      exact .inl rfl
  | enter channel id flow =>
    simp only [systemStep] at h
    split at h
    · cases h
      exact .inl rfl
    · split at h
      · cases h
      · cases h
        exact .inl rfl
  | proceed channel meeting =>
    have hafter : ∀ {s₁ : System} {run call}, (s.vms channel).call = some call →
        s₁.returns = s.returns → goOn s₁ channel run call = .ok s' →
        s'.returns = s.returns ∨ ∃ channel' meeting' call ok,
          SystemEvent.proceed channel meeting = .proceed channel' meeting' ∧
          (s.vms channel').call = some call ∧
          s'.returns = s.returns ++ [⟨channel', call.flow, ok⟩] := by
      intro s₁ run call hcall hsame hgo
      obtain ⟨rest, vnf, -, -, hreturns⟩ := daemon_of_goOn hgo
      rw [hsame] at hreturns
      cases rest with
      | left next => exact .inl (hreturns.trans (List.append_nil _))
      | returned ok => exact .inr ⟨channel, meeting, call, ok, rfl, hcall, hreturns⟩
    simp only [systemStep] at h
    cases hcall : (s.vms channel).call with
    | none =>
      simp only [hcall] at h
      cases h
      exact .inl rfl
    | some call =>
      simp only [hcall] at h
      split at h
      · exact hafter hcall rfl h
      · split at h
        · cases h
        · exact hafter hcall (by rfl) h
  | other event d =>
    simp only [systemStep] at h
    split at h
    · cases h
      exact .inl rfl
    · split at h
      · cases h
      · cases h
        exact .inl rfl

theorem returns_same (h : systemStep s ev = .ok s')
    (hev : ∀ channel meeting, ev ≠ .proceed channel meeting) : s'.returns = s.returns := by
  rcases returns_of_step h with hsame | ⟨channel, meeting, -, -, hproceed, -⟩
  · exact hsame
  · exact absurd hproceed (hev channel meeting)

structure Kept (rules : List SwitchRule) (s : System) : Prop where
  fit : Fit s
  ledger : Ledger rules s.daemon

theorem kept_step (hs : Kept rules s) (hev : Calm s ev)
    (h : systemStep s ev = .ok s') : Kept rules s' := by
  obtain ⟨s'', hok, hfit⟩ := fit_step hs.fit hev
  cases hok.symm.trans h
  rcases round_of_step h with ⟨-, hsame⟩ | ⟨round, -, hstep⟩
  · exact ⟨hfit, hsame ▸ hs.ledger⟩
  · exact ⟨hfit, ledger_step hs.fit.safe.consistent hs.ledger hstep⟩

theorem kept_start (rules : List SwitchRule) : Kept rules (start rules) where
  fit := fit_start rules
  ledger := ledger_boot rules

theorem hellos_mono (hs : Consistent s.daemon) (h : systemStep s ev = .ok s') :
    s.daemon.shared.history.hellos.length ≤ s'.daemon.shared.history.hellos.length := by
  rcases round_of_step h with ⟨-, hsame⟩ | ⟨round, -, hstep⟩
  · rw [hsame]
  · exact hellos_le_of_step hs hstep

/-! What a step does to the bridge. -/

structure OneDeed (acts : List (Act ℕ Entry)) (s s' : System) : Prop where
  one : acts.length ≤ 1
  put : ∀ k e, Act.put k e ∈ acts ↔ Accelerated k e s s'

theorem not_accelerated (h : s'.returns = s.returns) : ¬ Accelerated k e s s' := by
  rintro ⟨x, -, -, flow, -, hreturns⟩
  rw [h] at hreturns
  simp at hreturns

/-- Where no call returns, nothing may be put. -/
theorem oneDeed_quiet {acts : List (Act ℕ Entry)} (hone : acts.length ≤ 1)
    (hput : ∀ k e, Act.put k e ∉ acts) (h : s'.returns = s.returns) : OneDeed acts s s' :=
  ⟨hone, fun k e => iff_of_false (hput k e) (not_accelerated h)⟩

theorem oneDeed_none (h : s'.returns = s.returns) : OneDeed [] s s' :=
  oneDeed_quiet (Nat.zero_le _) (fun _ _ => List.not_mem_nil) h

theorem command_acts (daemon : Daemon) (cmd : CmdHdr) (behind : Bytes) :
    (commandActs daemon cmd behind).length ≤ 1 ∧
      ∀ k e, Act.put k e ∉ commandActs daemon cmd behind := by
  unfold commandActs
  split
  · split <;> simp
  · simp

theorem end_acts (w : Execute.World) (card : BeCardInner) :
    (endActs w card).length ≤ 1 ∧ ∀ k e, Act.put k e ∉ endActs w card := by
  refine ⟨?_, fun _ _ => not_put_of_end⟩
  unfold endActs
  split <;> simp

theorem hello_acts (w : Execute.World) (card : BeCardInner) (len : ℕ) :
    (helloActs w card len).length ≤ 1 ∧ ∀ k e, Act.put k e ∉ helloActs w card len := by
  unfold helloActs
  split <;> simp

theorem oneDeed_request {req : CommandServer.Request}
    (h : systemStep s (.request req) = .ok s') : OneDeed (deeds s (.request req)) s s' := by
  have hreturns := returns_same h fun _ _ => nofun
  unfold deeds roundOf
  dsimp only
  cases req.received with
  | none => exact oneDeed_none hreturns
  | some block =>
    by_cases hlength : block.length = cmdHdrSize
    · obtain ⟨hone, hput⟩ := command_acts s.daemon (cmdOf block) req.behind
      simp only [if_pos hlength]
      exact oneDeed_quiet hone hput hreturns
    · simp only [if_neg hlength]
      exact oneDeed_none hreturns

theorem oneDeed_enter {id : ℕ} {flow : AccFlow}
    (h : systemStep s (.enter channel id flow) = .ok s') :
    OneDeed (deeds s (.enter channel id flow)) s s' :=
  oneDeed_none (returns_same h fun _ _ => nofun)

/-- A channel that ends does what its card's context asks for. -/
theorem oneDeed_other {event : ℕ} {d : Delivery} (hev : Calm s (.other event d))
    (h : systemStep s (.other event d) = .ok s') : OneDeed (deeds s (.other event d)) s s' := by
  have hreturns := returns_same h fun _ _ => nofun
  obtain ⟨⟨rest, hrecv⟩, -⟩ := hev
  have hreceived : receivedMessage d = none := by
    unfold receivedMessage
    rw [hrecv]
  simp only [deeds, roundOf, actsOf, readActs, hreceived]
  split
  · exact oneDeed_none hreturns
  · split
    · exact oneDeed_none hreturns
    · rename_i card _
      obtain ⟨hone, hput⟩ := end_acts d.world card
      exact oneDeed_quiet hone hput hreturns

theorem accelerated_iff (hids : (s.daemon.events.map ReadEvent.id).Nodup)
    (hx : x ∈ s.daemon.events) {rest : Rest}
    (h : s'.returns = s.returns ++ (Vm.after call x.id rest).2) :
    Accelerated k e s s' ↔ rest = .returned true ∧ x.arg = k ∧ entryOfFlow call.flow = e := by
  constructor
  · rintro ⟨x', hx', harg, flow, he, hreturns⟩
    have hafter := List.append_cancel_left (h.symm.trans hreturns)
    cases rest with
    | left next => cases hafter
    | returned ok =>
      obtain ⟨hid, hflow, rfl⟩ := Returned.mk.inj (List.singleton_inj.mp hafter)
      obtain rfl := Slots.eq_of_ident_eq hids hx hx' hid
      exact ⟨rfl, harg, by rw [hflow, he]⟩
  · rintro ⟨rfl, harg, he⟩
    exact ⟨x, hx, harg, call.flow, he, h⟩

theorem received_turn (ht : t.WellFormed) :
    receivedMessage ⟨t.msg.bytes ++ t.behind, t.reads, t.writes, t.outBuf, t.world⟩ =
      some t.msg := by
  obtain ⟨rest, hrecv, -⟩ := recv_framed (m := 0) t.behind ht.framed ht.received
  unfold receivedMessage
  rw [hrecv]

/-- The acts of a call's request, and what its handler returns: a HELLO puts nothing, and the
batch of one flow puts it just if it succeeds. -/
theorem request_acts {card : BeCardInner} {fd : Option ℕ} {hostname : Option Bytes}
    {msg : Framing.Message} (hs : Kept rules s) (hcard : card ∈ s.daemon.cards)
    (hmsg : message fd hostname call = some msg)
    (hsession : call.stage ≠ .connect → card.context.isSome) (w : Execute.World) :
    (messageActs w card msg).length ≤ 1 ∧ ∀ k e, Act.put k e ∈ messageActs w card msg ↔
      call.stage ≠ .connect ∧ card.addr = k ∧ entryOfFlow call.flow = e ∧
        ∃ handled, beAccMessageProcess w card msg.hdr.msgType msg.body 0 s.daemon.shared =
          .ok handled ∧ handled.ok = true := by
  have hne : accUnixAddFlows ≠ accUnixHello := by decide
  rcases message_cases hmsg with ⟨hstage, name, -, rfl⟩ | ⟨hstage, rfl⟩
  · obtain ⟨hone, hput⟩ := hello_acts w card name.length
    have hacts : messageActs w card (helloMessage name) = helloActs w card name.length := if_pos rfl
    rw [hacts]
    exact ⟨hone, fun k e => iff_of_false (hput k e) fun h => h.1 hstage⟩
  · obtain ⟨context, hcontext⟩ := Option.isSome_iff_exists.mp (hsession hstage)
    have hsound := hs.fit.safe.consistent.sound card hcard context hcontext
    have hlocal := (hs.fit.safe.cards card hcard).sshRemote_eq hsound
    have hsize : AccFlow.size ∣ (flowsBytes [call.flow]).length := by
      rw [length_flowsBytes]
      exact Dvd.intro _ rfl
    have hflows : flowsOf ((flowsBytes [call.flow]).length / AccFlow.size)
        (flowsBytes [call.flow]) = [call.flow] := flowsOf_single call.flow
    have hacts : messageActs w card (addFlowsMessage [call.flow]) =
        batchActs w context card.addr [call.flow] := by
      have hadd : messageActs w card (addFlowsMessage [call.flow]) =
          addActs w card (flowsBytes [call.flow]) := (if_neg hne).trans (if_pos rfl)
      simp only [hadd, addActs, hcontext, if_pos hsize, hflows]
    have hprocess := @process_addFlows w context s.daemon.shared card hcontext hsound.be
      (bridge_length_of_br0 hsound.bridge) hlocal [call.flow]
    obtain ⟨hone, hput⟩ := @single_batch context w hlocal card.addr call.flow s.daemon.shared
    rw [hacts]
    refine ⟨hone, fun k e => (hput k e).trans ?_⟩
    constructor
    · rintro ⟨hok, hk, he⟩
      exact ⟨hstage, hk, he, _, hprocess, hok⟩
    · rintro ⟨-, hk, he, handled, hhandled, hok⟩
      cases hprocess.symm.trans hhandled
      exact ⟨hok, hk, he⟩

theorem returnsZero_iff {daemon : Daemon} {arg : ℕ} {card : BeCardInner}
    (hcard : daemon.cardAt arg = some card) : t.returnsZero daemon arg = true ↔
      ∃ handled, beAccMessageProcess t.world card t.msg.hdr.msgType t.msg.body 0 daemon.shared =
        .ok handled ∧ handled.ok = true := by
  unfold Turn.returnsZero
  rw [hcard]
  dsimp only
  cases beAccMessageProcess t.world card t.msg.hdr.msgType t.msg.body 0 daemon.shared with
  | error stop => simp
  | ok handled => simp

/-- A call that gets through to the daemon returns 1 just if its flow is put on the bridge. -/
theorem oneDeed_reaching (hs : Kept rules s) (hev : Calm s (.proceed channel meeting))
    (hcall : (s.vms channel).call = some call)
    (hreach : reaches s channel meeting call = some (t, x))
    (h : systemStep s (.proceed channel meeting) = .ok s') :
    OneDeed (deeds s (.proceed channel meeting)) s s' := by
  have ht := wellFormed_of_reaches hev hreach
  obtain ⟨p, msg, -, hmsg, hfind, rfl⟩ := reaches_some hreach
  obtain ⟨hx, rfl⟩ := event_some hfind
  have hconsistent := hs.fit.safe.consistent
  obtain ⟨card, hcard, harg⟩ := hs.fit.safe.live.live x hx
  have hat := hs.fit.safe.cardAt_arg hcard harg
  -- the acts are those of the request
  have hdeeds : deeds s (.proceed x.id meeting) = messageActs p.world card msg := by
    have hreceived := received_turn ht
    simp only [deeds, roundOf, hcall, hreach, actsOf, hfind, hat, readActs, hreceived]
    rfl
  have hsession : call.stage ≠ .connect → card.context.isSome := by
    intro hstage
    obtain ⟨other, hother, harg', hsome⟩ := session_of_stage hs.fit hx hcall hstage
    obtain rfl := Slots.eq_of_ident_eq hconsistent.nodup hother hcard (harg'.trans harg.symm)
    exact hsome
  obtain ⟨hone, hput⟩ := request_acts hs hcard hmsg hsession p.world
  rw [hdeeds]
  refine ⟨hone, fun k e => (hput k e).trans ?_⟩
  -- the call returns what the reply says
  simp only [systemStep, hcall, hreach, hs.fit.unread] at h
  split at h
  · cases h
  · rename_i daemon hresult
    obtain ⟨hreply, -⟩ := answered ht hresult
    obtain ⟨rest, vnf, hproceed, -, hreturns⟩ := daemon_of_goOn h
    have htrue : rest = .returned true ↔ call.stage ≠ .connect ∧ Accepts accUnixAddFlows
        (some (emptyReply msg.hdr ((p.turn x.id msg).returnsZero s.daemon x.arg))) := by
      refine returned_true_iff (fun msg' hmsg' => ?_) hproceed
      cases hmsg.symm.trans hmsg'
      exact hreply
    rw [accelerated_iff hconsistent.eventIds hx hreturns, htrue, accepts_emptyReply,
      returnsZero_iff hat, harg]
    have htype : call.stage ≠ .connect → msg.hdr.msgType = accUnixAddFlows := by
      intro hstage
      rcases message_cases hmsg with ⟨hconnect, -⟩ | ⟨-, rfl⟩
      · exact absurd hconnect hstage
      · rfl
    constructor
    · rintro ⟨hstage, hk, he, hok⟩
      exact ⟨⟨hstage, hok, htype hstage⟩, hk, he⟩
    · rintro ⟨⟨hstage, hok, -⟩, hk, he⟩
      exact ⟨hstage, hk, he, hok⟩

theorem oneDeed_proceed (hs : Kept rules s) (hev : Calm s (.proceed channel meeting))
    (h : systemStep s (.proceed channel meeting) = .ok s') :
    OneDeed (deeds s (.proceed channel meeting)) s s' := by
  cases hcall : (s.vms channel).call with
  | none =>
    simp only [systemStep, hcall] at h
    cases h
    simp only [deeds, roundOf, hcall]
    exact oneDeed_none rfl
  | some call =>
    cases hreach : reaches s channel meeting call with
    | some reached => exact oneDeed_reaching hs hev hcall hreach h
    | none =>
      -- nothing is sent, and so the call has not returned 1
      simp only [systemStep, hcall, hreach] at h
      obtain ⟨rest, vnf, hproceed, -, hreturns⟩ := daemon_of_goOn h
      have htrue : rest = .returned true ↔ call.stage ≠ .connect ∧ Accepts accUnixAddFlows none :=
        returned_true_iff (fun msg _ => sendRecv_down msg) hproceed
      simp only [deeds, roundOf, hcall, hreach]
      refine ⟨Nat.zero_le _, fun k e => iff_of_false List.not_mem_nil ?_⟩
      rintro ⟨x, -, -, flow, -, hafter⟩
      have hreturned := List.append_cancel_left (hreturns.symm.trans hafter)
      cases rest with
      | left next => cases hreturned
      | returned ok =>
        obtain ⟨-, -, rfl⟩ := Returned.mk.inj (List.singleton_inj.mp hreturned)
        obtain ⟨-, hdr, hnone, -⟩ := htrue.mp rfl
        cases hnone

theorem oneDeed_step (hs : Kept rules s) (hev : Calm s ev) (h : systemStep s ev = .ok s') :
    OneDeed (deeds s ev) s s' := by
  cases ev with
  | request req => exact oneDeed_request h
  | enter channel id flow => exact oneDeed_enter h
  | proceed channel meeting => exact oneDeed_proceed hs hev h
  | other event d => exact oneDeed_other hev h

/-- What a call that goes on can put is the flow that it was made for. -/
theorem supported_of_put (hev : Calm s (.proceed channel meeting))
    (hcall : (s.vms channel).call = some call)
    (h : Act.put k e ∈ deeds s (.proceed channel meeting)) :
    Supported call.flow ∧ entryOfFlow call.flow = e := by
  unfold deeds at h
  simp only [roundOf, hcall] at h
  cases hreach : reaches s channel meeting call with
  | none => simp [hreach] at h
  | some reached =>
    obtain ⟨t, x⟩ := reached
    have hreceived := received_turn (wellFormed_of_reaches hev hreach)
    obtain ⟨p, msg, -, hmsg, -, rfl⟩ := reaches_some hreach
    simp only [hreach] at h
    have hne : accUnixHello ≠ accUnixAddFlows := by decide
    have hdelivers : ∀ d, receivedMessage d = some msg →
        Delivers (fun flow => flow = call.flow) k s.daemon (.readable channel d) := by
      intro d hd _ _ _ _ msg' hmsg' htype flow hflow
      cases hd.symm.trans hmsg'
      rcases message_cases hmsg with ⟨-, name, -, rfl⟩ | ⟨-, rfl⟩
      · exact absurd htype hne
      · exact List.mem_singleton.mp (flowsOf_single call.flow ▸ hflow)
    obtain ⟨flow, rfl, hsupported, he⟩ := put_of_actsOf (hdelivers _ hreceived) h
    exact ⟨hsupported, he.symm⟩

/-- Behind an accelerated flow stands a call that went on over the channel of the card. -/
theorem call_of_accelerated (hs : Kept rules s) (hev : Calm s ev) (h : systemStep s ev = .ok s')
    (hreturned : Accelerated k e s s') :
    ∃ x ∈ s.daemon.events, x.arg = k ∧ ∃ meeting call, ev = .proceed x.id meeting ∧
      (s.vms x.id).call = some call ∧ Supported call.flow ∧ entryOfFlow call.flow = e := by
  have hput := ((oneDeed_step hs hev h).put k e).mpr hreturned
  obtain ⟨x, hx, harg, flow, -, hreturns⟩ := hreturned
  rcases returns_of_step h with hsame | ⟨channel, meeting, call, ok, rfl, hcall, hone⟩
  · rw [hsame] at hreturns
    simp at hreturns
  · have hlast := List.append_cancel_left (hone.symm.trans hreturns)
    obtain ⟨rfl, -, -⟩ := Returned.mk.inj (List.singleton_inj.mp hlast)
    exact ⟨x, hx, harg, meeting, call, rfl, hcall, supported_of_put hev hcall hput⟩

/-- A step does its deeds to the bridge. -/
theorem bridge_deeds (hn : n < 2 ^ 32) (hrules : Unstale n rules) (hs : Kept rules s)
    (hswitch : OnSwitch displaces s ev) (h : systemStep s ev = .ok s')
    (hcount : s'.daemon.shared.history.hellos.length ≤ n) :
    bridge s'.daemon = Tenancy.run displaces (bridge s.daemon) (deeds s ev) := by
  have hconsistent := hs.fit.safe.consistent
  have hbefore := (hellos_mono hconsistent h).trans hcount
  unfold deeds
  rcases round_of_step h with ⟨hnone, hsame⟩ | ⟨round, hround, hstep⟩
  · rw [hnone, hsame]
    rfl
  · rw [hround]
    exact bridge_step hn hrules ⟨hconsistent, hs.ledger, hbefore⟩ (hswitch round hround) hstep
      hcount

/-- A card holds an entry after a step that has had a call return 1 for it, or that has left it
to the card. -/
theorem held_step (hn : n < 2 ^ 32) (hrules : Unstale n rules) (hs : Kept rules s)
    (hev : Calm s ev) (hswitch : OnSwitch displaces s ev) (h : systemStep s ev = .ok s')
    (hcount : s'.daemon.shared.history.hellos.length ≤ n) :
    (some k, e) ∈ bridge s'.daemon ↔ Accelerates k e s ev ∨
      (some k, e) ∈ bridge s.daemon ∧ ¬ (Displaced displaces e s ev ∨ GivesUp k s ev) := by
  obtain ⟨hone, hput⟩ := oneDeed_step hs hev h
  have haccelerates : ∀ j e', Accelerates j e' s ev ↔ Act.put j e' ∈ deeds s ev := by
    intro j e'
    rw [hput]
    constructor
    · rintro ⟨s'', hok, hreturned⟩
      cases hok.symm.trans h
      exact hreturned
    · exact fun hreturned => ⟨s', h, hreturned⟩
  have hdisplaced : Displaced displaces e s ev ↔ ∃ act ∈ deeds s ev, act.Displaces displaces e := by
    constructor
    · rintro ⟨j, e', hreturned, hdisplaces⟩
      exact ⟨_, (haccelerates j e').mp hreturned, hdisplaces⟩
    · rintro ⟨act, hact, hdisplaces⟩
      cases act with
      | put j e' => exact ⟨j, e', (haccelerates j e').mpr hact, hdisplaces⟩
      | clear j => exact hdisplaces.elim
      | abandon j => exact hdisplaces.elim
  rw [bridge_deeds hn hrules hs hswitch h hcount, mem_run_of_one hone, haccelerates, hdisplaced]
  refine or_congr_right (and_congr_right fun _ => ?_)
  simp only [Act.Ends, GivesUp]
  constructor
  · rintro hall (⟨act, hact, hdisplaces⟩ | hclear | habandon)
    · exact hall act hact (.inl hdisplaces)
    · exact hall _ hclear (.inr (.inl rfl))
    · exact hall _ habandon (.inr (.inr rfl))
  · rintro hnot act hact (hdisplaces | rfl | rfl)
    · exact hnot (.inl ⟨act, hact, hdisplaces⟩)
    · exact hnot (.inr (.inl hact))
    · exact hnot (.inr (.inr hact))

/-- A call on the card's channel has returned 1 for a flow with the entry, and since then no
call has returned 1 for a flow that displaces it and the card has not given up what it held. -/
def Since (displaces : Entry → Entry → Prop) (k : ℕ) (e : Entry) (start : System)
    (evs : List SystemEvent) : Prop :=
  ∃ before ev after s₁ s₂, evs = before ++ ev :: after ∧
    exec systemStep start before = .ok s₁ ∧ systemStep s₁ ev = .ok s₂ ∧ Accelerates k e s₁ ev ∧
    Each systemStep (fun s ev => ¬ (Displaced displaces e s ev ∨ GivesUp k s ev)) s₂ after

theorem mem_bridge_iff (hn : n < 2 ^ 32) (hrules : Unstale n rules) {evs : List SystemEvent}
    (hcalm : Each systemStep Calm (start rules) evs)
    (hswitch : Each systemStep (OnSwitch displaces) (start rules) evs)
    (h : exec systemStep (start rules) evs = .ok s)
    (hcount : s.daemon.shared.history.hellos.length ≤ n) (k : ℕ) (e : Entry) :
    (some k, e) ∈ bridge s.daemon ↔ Since displaces k e (start rules) evs := by
  have hkeeps : ∀ s ev s', Kept rules s → Calm s ev → systemStep s ev = .ok s' → Kept rules s' :=
    fun _ _ _ hs hev h => kept_step hs hev h
  obtain ⟨-, hbounded⟩ := each_le_of_exec hkeeps
    (fun _ _ _ hs _ h => hellos_mono hs.fit.safe.consistent h) (kept_start rules) hcalm h
  have hstart : (some k, e) ∉ bridge (start rules).daemon := by
    intro hin
    cases (mem_bridge_boot.mp hin).1
  have hsince := holds_iff_since (P := fun s => (some k, e) ∈ bridge s.daemon)
    (fun s ev s' hs hev h => hkeeps s ev s' hs hev.1 h)
    (fun s ev s' hs hev h => held_step hn hrules hs hev.1 hev.2.1 h ((hev.2.2 s' h).trans hcount))
    (kept_start rules) (hcalm.and (hswitch.and hbounded)) h
  exact hsince.trans (or_iff_left fun hbefore => hstart hbefore.1)

/-- What the cards hold after a run in which the VNFs, the tool and the switch behave: an entry
is held by a card just if a call on the card's channel has returned 1 for a flow with this entry,
and since then no call has returned 1 for a flow that displaces it and the card has not given up
what it held. -/
theorem held_iff_accelerated (hn : n < 2 ^ 32) (hrules : Unstale n rules)
    {evs : List SystemEvent} (hcalm : Each systemStep Calm (start rules) evs)
    (hswitch : Each systemStep (OnSwitch displaces) (start rules) evs)
    (h : exec systemStep (start rules) evs = .ok s)
    (hcount : s.daemon.shared.history.hellos.length ≤ n) (k : ℕ) (e : Entry) :
    (∃ r ∈ s.daemon.shared.rules, entryOf r = e ∧ HeldBy s.daemon k r) ↔
      Since displaces k e (start rules) evs :=
  mem_bridge_iff hn hrules hcalm hswitch h hcount k e

end

theorem onSwitch_proceed {channel : ℕ} {fd : Option ℕ} {hostname : Option Bytes} (s : System) :
    OnSwitch sameMatch s (.proceed channel ⟨fd, hostname, some plainPassage⟩) := by
  intro round hround
  cases hcall : (s.vms channel).call with
  | none => simp [roundOf, hcall] at hround
  | some call =>
    cases hreach : reaches s channel ⟨fd, hostname, some plainPassage⟩ call with
    | none => simp [roundOf, hcall, hreach] at hround
    | some reached =>
      obtain ⟨p, msg, hp, -, -, ht⟩ := reaches_some hreach
      simp only [roundOf, hcall, hreach, ht] at hround
      cases hp
      cases hround
      exact replacesBy_openVSwitch

theorem onSwitch_firstCall (flow : AccFlow) :
    Each systemStep (OnSwitch sameMatch) (start []) (firstCall flow) := by
  refine each_of_forall ?_ _
  simp only [firstCall, List.forall_mem_cons, List.not_mem_nil, false_implies, implies_true,
    and_true]
  refine ⟨fun s round hround => ?_, fun s round hround => ?_, onSwitch_proceed, onSwitch_proceed⟩
  · have hlength : registerSBlock.length = cmdHdrSize := by decide +kernel
    simp only [roundOf, if_pos hlength] at hround
    cases hround
    trivial
  · cases hround

/-- The flow of the first call is on the bridge. -/
theorem held_iff_accelerated_firstCall : ∃ s,
    exec systemStep (start []) (firstCall (AccFlow.plain 6)) = .ok s ∧
    ∃ r ∈ s.daemon.shared.rules, entryOf r = entryOfFlow (AccFlow.plain 6) ∧
      HeldBy s.daemon 1 r := by
  obtain ⟨s₁, hbefore, hevents, hreturns, hlast⟩ : ∃ s₁,
      exec systemStep (start []) ((firstCall (AccFlow.plain 6)).take 3) = .ok s₁ ∧
      (s₁.daemon.events.map fun x => (x.id, x.arg)) = [(2, 1)] ∧ s₁.returns = [] ∧
      ((systemStep s₁ (.proceed 2 ⟨none, none, some plainPassage⟩)).toOption.map fun s =>
        (s.returns, s.daemon.shared.history.hellos.length)) =
          some ([⟨2, AccFlow.plain 6, true⟩], 1) := exists_of_eval (by decide +kernel)
  cases hstep : systemStep s₁ (.proceed 2 ⟨none, none, some plainPassage⟩) with
  | error stop => simp [hstep, Except.toOption] at hlast
  | ok s =>
    rw [hstep] at hlast
    obtain ⟨hreturned, hcount⟩ := Prod.mk.inj (Option.some.inj hlast)
    have hsplit := (List.take_append_drop 3 (firstCall (AccFlow.plain 6))).symm
    have hrun : exec systemStep (start []) (firstCall (AccFlow.plain 6)) = .ok s := by
      rw [hsplit]
      exact exec_append_iff.mpr ⟨s₁, hbefore, exec_cons_of_ok hstep⟩
    have haccelerated : Accelerated 1 (entryOfFlow (AccFlow.plain 6)) s₁ s := by
      have hin : (2, 1) ∈ s₁.daemon.events.map fun x => (x.id, x.arg) := by
        rw [hevents]
        exact List.mem_singleton_self _
      obtain ⟨x, hx, hpair⟩ := List.mem_map.mp hin
      obtain ⟨hid, harg⟩ := Prod.mk.inj hpair
      refine ⟨x, hx, harg, AccFlow.plain 6, rfl, ?_⟩
      rw [hreturns, hid]
      exact hreturned
    have hsince : Since sameMatch 1 (entryOfFlow (AccFlow.plain 6)) (start [])
        (firstCall (AccFlow.plain 6)) := by
      unfold Since
      exact ⟨_, _, [], s₁, s, hsplit, hbefore, hstep, ⟨s, hstep, haccelerated⟩, trivial⟩
    exact ⟨s, hrun, (held_iff_accelerated (n := 1) (by omega) (unstale_nil 1) (calm_firstCall _)
      (onSwitch_firstCall _) hrun hcount.le 1 _).mpr hsince⟩

end BeLa.OffloadedFlows
