import BeLa.Alone
import BeLa.Replies
import BeLa.Stages
import BeLa.ToolCards

/-!
The VNFs in front of the daemon. In each VM a VNF makes its calls of
`cgnat_accelerate` one after the other, and what they send reaches the card of the
VM's channel; calls of different VMs, commands and channels that close come in any
order. A VNF with a connected client has a session at the daemon, so that nothing
its calls send can stop the daemon. A VM has one channel in its life, and is known by
the event of this channel.
-/
namespace BeLa.Offloading

open LittleEndian PartialTransfer Runs Stops Framing BeLa.Flow Switch Context Card Message
open Channel Command Client Accelerate PacketPath Stages AddFlowsEndToEnd Handling Requests
open Replies Steps Editing Invariant LiveCards Attachment CommandServer ToolCards Alone

structure Passage where
  clientWrites : List Answer
  clientReads : List Answer
  reads : List Answer
  writes : List Answer
  outBuf : Bytes
  world : Execute.World

/-- The bytes of a request with up to a buffer's length behind its header get through, and those
of its reply. -/
structure Passage.Whole (p : Passage) : Prop where
  sent : Enough p.clientWrites (AccMsgHeader.size + bufSize)
  received : Enough p.reads (AccMsgHeader.size + bufSize)
  answered : Enough p.writes AccMsgHeader.size
  heard : Enough p.clientReads AccMsgHeader.size

def Passage.turn (p : Passage) (channel : ℕ) (msg : Framing.Message) : Turn :=
  ⟨channel, msg, [], p.clientWrites, p.clientReads, p.reads, p.writes, p.outBuf, p.world⟩

/-- What a stage of a call meets: the descriptor and the host name of a connect, and the passage
of its request, unless the channel is down. -/
structure Meeting where
  fd : Option ℕ
  hostname : Option Bytes
  passage : Option Passage

def downLink : Link := ⟨[.broken], false, fun _ => ⟨[], []⟩⟩

structure Vm where
  vnf : Vnf
  call : Option Pending

structure Returned where
  channel : ℕ
  flow : AccFlow
  ok : Bool
  deriving DecidableEq

/-- The daemon, the VM and the unread bytes behind each of its channels, and the calls that have
returned. -/
structure System where
  daemon : Daemon
  vms : ℕ → Vm
  unread : ℕ → Bytes
  returns : List Returned

def start (rules : List SwitchRule) : System :=
  ⟨boot rules, fun _ => ⟨.start, none⟩, fun _ => [], []⟩

/-- What can happen: a request on the command socket, a call that begins, a call that goes on,
and a channel on which something else is readable, or that has ended. -/
inductive SystemEvent
  | request (req : CommandServer.Request)
  | enter (channel id : ℕ) (flow : AccFlow)
  | proceed (channel : ℕ) (meeting : Meeting)
  | other (event : ℕ) (d : Delivery)

def Vm.after (call : Pending) (channel : ℕ) : Rest → Option Pending × List Returned
  | .returned ok => (none, [⟨channel, call.flow, ok⟩])
  | .left next => (some next, [])

def reaches (s : System) (channel : ℕ) (meeting : Meeting) (call : Pending) :
    Option (Turn × ReadEvent) :=
  match meeting.passage, message meeting.fd meeting.hostname call,
      s.daemon.events.find? (fun e => e.id = channel) with
  | some p, some msg, some e => some (p.turn channel msg, e)
  | _, _, _ => none

def goOn (s : System) (channel : ℕ) (run : ConnectRun) (call : Pending) : Except Stop System :=
  match proceed run call (s.vms channel).vnf with
  | .error stop => .error stop
  | .ok (rest, vnf) =>
    let (left, returns) := Vm.after call channel rest
    .ok { s with
      vms := Function.update s.vms channel ⟨vnf, left⟩
      returns := s.returns ++ returns }

def systemStep (s : System) : SystemEvent → Except Stop System
  | .request req =>
    match beCmdRequestProcess s.daemon req with
    | .error stop => .error stop
    | .ok daemon => .ok { s with daemon := daemon }
  | .enter channel id flow =>
    match (s.vms channel).call with
    | some _ => .ok s
    | none =>
      match enter id flow (s.vms channel).vnf with
      | .error stop => .error stop
      | .ok (call, vnf) => .ok { s with vms := Function.update s.vms channel ⟨vnf, some call⟩ }
  | .proceed channel meeting =>
    match (s.vms channel).call with
    | none => .ok s
    | some call =>
      match reaches s channel meeting call with
      | none => goOn s channel ⟨meeting.fd, meeting.hostname, downLink⟩ call
      | some (t, e) =>
        let link := t.link s.daemon e.arg (s.unread channel)
        match (t.call s.daemon e.arg t.msg.bytes).result with
        | .error stop => .error stop
        | .ok daemon =>
          goOn { s with
            daemon := daemon
            unread := Function.update s.unread channel (leftover (link.inbound t.msg.bytes)) }
            channel ⟨meeting.fd, meeting.hostname, link⟩ call
  | .other event d =>
    match s.daemon.events.find? (fun e => e.id = event) with
    | none => .ok s
    | some e =>
      let run := doVmRequestRead s.daemon e.arg d
      match run.result with
      | .error stop => .error stop
      | .ok daemon => .ok { s with
          daemon := daemon
          unread := Function.update s.unread event (s.unread event ++ run.sent) }

def roundOf (s : System) : SystemEvent → Option DaemonEvent
  | .request req =>
    match req.received with
    | none => none
    | some block =>
      if block.length = cmdHdrSize then some (.command (cmdOf block) req.behind req.env) else none
  | .enter _ _ _ => none
  | .proceed channel meeting =>
    match (s.vms channel).call with
    | none => none
    | some call =>
      match reaches s channel meeting call with
      | none => none
      | some (t, _) => some (.readable channel
          ⟨t.msg.bytes ++ t.behind, t.reads, t.writes, t.outBuf, t.world⟩)
  | .other event d => some (.readable event d)

/-! What a VM and the daemon agree on. -/

def HasSession (daemon : Daemon) (e : ReadEvent) : Prop :=
  ∃ card ∈ daemon.cards, card.addr = e.arg ∧ card.context.isSome

def Vm.Fit (vm : Vm) : Prop :=
  ∃ taken, Packed vm.vnf taken ∧ ∀ call, vm.call = some call → Standing vm.vnf taken call

/-- The daemon has no more than the tool's cards, and none of them is freed behind its event. -/
structure Safe (daemon : Daemon) : Prop where
  consistent : Consistent daemon
  cards : AllFromTool daemon
  live : NoFreedCard daemon

/-- Nothing is unread, and a connected VNF has a session as long as its channel is open. -/
structure Fit (s : System) : Prop where
  safe : Safe s.daemon
  vms : ∀ channel, (s.vms channel).Fit
  unread : ∀ channel, s.unread channel = []
  old : ∀ channel, Connected (s.vms channel).vnf → channel < s.daemon.shared.nextAddr
  agree : ∀ e ∈ s.daemon.events, Connected (s.vms e.id).vnf → HasSession s.daemon e

/-- What the system relies on: commands of the tool that free no card with an open channel, threads
for which the table of clients has a place, passages that are whole, memory for contexts, host
names as `gethostname` gives them, and channels that end after their VM has connected. -/
def Calm (s : System) : SystemEvent → Prop
  | .request req => FromTool (.request req) ∧ ∀ block, req.received = some block →
      block.length = cmdHdrSize →
      ¬ LiveUnregister s.daemon (.command (cmdOf block) req.behind req.env)
  | .enter channel id _ =>
      id ≠ 0 ∧ ∃ client ∈ (s.vms channel).vnf.clients, client.id = id ∨ client.id = 0
  | .proceed _ meeting =>
      (∀ fd, meeting.fd = some fd → fd < 2 ^ 32) ∧
      (∀ name, meeting.hostname = some name → name.length < 64) ∧
      ∀ p, meeting.passage = some p → p.Whole ∧ p.world.allocContext = true
  | .other event d =>
      (∃ rest, (accUnixRecvMessage bufSize ⟨d.stream, d.reads⟩).result = .ok ⟨none, rest⟩) ∧
      Connected (s.vms event).vnf

section

variable {daemon daemon' : Daemon} {round : DaemonEvent} {s s' : System} {ev : SystemEvent}
variable {channel : ℕ} {meeting : Meeting} {call : Pending} {t : Turn} {e : ReadEvent}

/-- A round on one channel keeps the daemon safe. -/
theorem Safe.readable (h : Safe daemon) {event : ℕ} {d : Delivery}
    (hstep : daemonStep daemon (.readable event d) = .ok daemon') : Safe daemon' where
  consistent := consistent_step h.consistent hstep
  cards x hx := by
    obtain ⟨y, hy, hrecord⟩ := record_kept h.consistent hstep hx
    rw [← hrecord]
    exact h.cards y hy
  live := noFreedCard_step h.consistent h.live
    (fun hlive : LiveUnregister daemon (.readable event d) => hlive) hstep

theorem Safe.cardAt_arg (h : Safe daemon) {card : BeCardInner} (hcard : card ∈ daemon.cards)
    (harg : card.addr = e.arg) : daemon.cardAt e.arg = some card := by
  rw [← harg]
  exact Slots.find_ident h.consistent.nodup hcard

/-- The rounds of the others leave a channel its session. -/
theorem session_others (h : Safe daemon) (h' : Safe daemon')
    (hstep : daemonStep daemon round = .ok daemon') (he : e ∈ daemon.events)
    (hround : ownRound e.id round = none) (hsession : HasSession daemon e) :
    HasSession daemon' e := by
  obtain ⟨he', hcards⟩ := others_step h.consistent he hround hstep
  obtain ⟨card, hcard, harg, hcontext⟩ := hsession
  obtain ⟨x, hx, hxarg⟩ := h'.live.live e he'
  have hsame : x = card :=
    Slots.eq_of_ident_eq h.consistent.nodup (hcards x hx hxarg) hcard (hxarg.trans harg.symm)
  exact ⟨x, hx, hxarg, hsame ▸ hcontext⟩

theorem reaches_some (h : reaches s channel meeting call = some (t, e)) :
    ∃ p msg, meeting.passage = some p ∧ message meeting.fd meeting.hostname call = some msg ∧
      s.daemon.events.find? (fun e => e.id = channel) = some e ∧ t = p.turn channel msg := by
  unfold reaches at h
  split at h
  · rename_i p msg found hp hmsg hfind
    cases h
    exact ⟨p, msg, hp, hmsg, hfind, rfl⟩
  · cases h

/-- Nothing is sent on a channel that is down. -/
theorem sendRecv_down (msg : Framing.Message) : accUnixSendRecv msg downLink = .ok none := by
  have hsend : accUnixSendMessage msg.hdr msg.body downLink.writes = some ⟨false, [], []⟩ := rfl
  unfold accUnixSendRecv
  simp [hsend]

/-- The requests of a call are framed and of two types. -/
theorem message_cases {fd : Option ℕ} {hostname : Option Bytes} {msg : Framing.Message}
    (h : message fd hostname call = some msg) :
    (call.stage = .connect ∧ ∃ name, hostname = some name ∧ msg = helloMessage name) ∨
      call.stage ≠ .connect ∧ msg = addFlowsMessage [call.flow] := by
  unfold message at h
  split at h
  · rename_i hstage
    split at h
    · obtain ⟨name, hname, rfl⟩ := Option.map_eq_some_iff.mp h
      exact .inl ⟨hstage, name, hname, rfl⟩
    · cases h
  · rename_i hstage
    cases h
    exact .inr ⟨hstage, rfl⟩

theorem turn_wellFormed {p : Passage} (hp : p.Whole) {fd : Option ℕ} {hostname : Option Bytes}
    {msg : Framing.Message} (hmsg : message fd hostname call = some msg)
    (hname : ∀ name, hostname = some name → name.length < 64) :
    (p.turn channel msg).WellFormed := by
  have hsize : bufSize = 2048 := rfl
  have hframed : msg.Framed ∧
      msg.hdr.msgType ∈ [accUnixHello, accUnixAddFlows, accUnixDisconnect] := by
    rcases message_cases hmsg with ⟨-, name, hsome, rfl⟩ | ⟨-, rfl⟩
    · have hlength := hname name hsome
      exact ⟨request_framed _ (by omega), by simp [helloMessage, request]⟩
    · refine ⟨addFlowsMessage_framed ?_, by simp [addFlowsMessage, request]⟩
      rw [List.length_singleton]
      decide
  have hbody : msg.body.length ≤ bufSize := hframed.1.2
  refine ⟨hframed.1, hframed.2, hp.sent.mono (by simpa [Passage.turn] using hbody),
    hp.received.mono ?_, hp.answered, hp.heard⟩
  change msg.bytes.length ≤ _
  rw [Framing.Message.length_bytes]
  omega

/-- A call that reaches the daemon makes a turn that is well formed. -/
theorem wellFormed_of_reaches (hev : Calm s (.proceed channel meeting))
    (hreach : reaches s channel meeting call = some (t, e)) : t.WellFormed := by
  obtain ⟨hfd, hname, hpassage⟩ := hev
  obtain ⟨p, msg, hp, hmsg, -, rfl⟩ := reaches_some hreach
  exact turn_wellFormed (hpassage p hp).1 hmsg hname

/-- A request that is served is answered, and its answer is read to the end. -/
theorem answered (ht : t.WellFormed) {arg : ℕ}
    (h : (t.call daemon arg t.msg.bytes).result = .ok daemon') :
    accUnixSendRecv t.msg (t.link daemon arg []) =
        .ok (some (emptyReply t.msg.hdr (t.returnsZero daemon arg))) ∧
      leftover ((t.link daemon arg []).inbound t.msg.bytes) = [] := by
  obtain ⟨hsent, -⟩ := call_spec ht h
  set reply := emptyReply t.msg.hdr (t.returnsZero daemon arg)
  have hlength : reply.totalLen.toInt = AccMsgHeader.size := rfl
  have hinbound : (t.link daemon arg []).inbound t.msg.bytes = ⟨reply.bytes, t.clientReads⟩ := by
    rw [← hsent]
    rfl
  rw [hinbound]
  exact ⟨sendRecv_header ht.sent rfl (by rw [hinbound]) (by rw [hinbound]; exact ht.heard) hlength,
    leftover_header reply hlength ht.heard⟩

/-- A request ends as its handler does. -/
theorem result_of_process {arg : ℕ} {card : BeCardInner} {handled : Handled}
    (hcard : daemon.cardAt arg = some card) (ht : t.WellFormed)
    (hprocess : beAccMessageProcess t.world card t.msg.hdr.msgType t.msg.body 0 daemon.shared =
      .ok handled) :
    (t.call daemon arg t.msg.bytes).result =
      .ok { daemon.writeCard handled.card with shared := handled.shared } := by
  have hread : t.call daemon arg t.msg.bytes = _ :=
    read_framed hcard ht.framed rfl ht.received ht.answered
  rw [hread, hprocess]

theorem accepts_emptyReply {type : BitVec 32} {hdr : AccMsgHeader} {ok : Bool} :
    Accepts type (some (emptyReply hdr ok)) ↔ ok = true ∧ hdr.msgType = type := by
  have hne : accUnixFail ≠ accUnixSuccess := by decide
  unfold Accepts
  cases ok <;> simp [emptyReply, hne]

/-- A request of a call is served, unless it is to add flows without a session, and leaves its
channel with a session. -/
theorem call_returns (h : Safe daemon) (he : e ∈ daemon.events) {p : Passage} (hp : p.Whole)
    (halloc : p.world.allocContext = true) {fd : Option ℕ} {hostname : Option Bytes}
    {msg : Framing.Message} (hmsg : message fd hostname call = some msg)
    (hname : ∀ name, hostname = some name → name.length < 64)
    (hsession : call.stage ≠ .connect → HasSession daemon e) :
    ∃ daemon', ((p.turn channel msg).call daemon e.arg msg.bytes).result = .ok daemon' ∧
      HasSession daemon' e := by
  obtain ⟨card, hcard, harg⟩ := h.live.live e he
  have hat := h.cardAt_arg hcard harg
  have hsound := h.consistent.sound card hcard
  have ht := @turn_wellFormed channel call p hp fd hostname msg hmsg hname
  obtain ⟨handled, hprocess, hcontext⟩ : ∃ handled,
      beAccMessageProcess p.world card msg.hdr.msgType msg.body 0 daemon.shared = .ok handled ∧
        handled.card.context.isSome := by
    rcases message_cases hmsg with ⟨-, name, hsome, rfl⟩ | ⟨hstage, rfl⟩
    · obtain ⟨handled, hprocess, hok⟩ :=
        hello_served hsound (h.cards card hcard) p.world name daemon.shared
      have hsize : nameSize = 256 := rfl
      have hfits := hname name hsome
      have hrun : helloMessageHandle p.world card name 0 daemon.shared = .ok handled := by
        unfold beAccMessageProcess at hprocess
        rw [handlerAt_hello] at hprocess
        exact hprocess
      obtain ⟨-, context, hattached, -⟩ :=
        names_of_hello hrun (hok.mpr ⟨by omega, halloc⟩)
      exact ⟨handled, hprocess, by rw [hattached]; rfl⟩
    · obtain ⟨other, hother, harg', hcontext⟩ := hsession hstage
      have hsame := Slots.eq_of_ident_eq h.consistent.nodup hother hcard (harg'.trans harg.symm)
      subst hsame
      obtain ⟨context, hcontext'⟩ := Option.isSome_iff_exists.mp hcontext
      have hsession := hsound context hcontext'
      exact ⟨_, process_addFlows hcontext' hsession.be (bridge_length_of_br0 hsession.bridge)
        ((h.cards other hother).sshRemote_eq hsession) [call.flow], hcontext⟩
  have hkept := (handles_keeps hsound (handles_of_process hsound hprocess)).1
  exact ⟨_, result_of_process hat ht hprocess, handled.card,
    mem_writeCard.mpr (.inl ⟨rfl, card, hcard, hkept.symm⟩), hkept.trans harg, hcontext⟩

/-- A call goes on when its channel has answered. -/
theorem goOn_spec {run : ConnectRun} {reply : Option AccMsgHeader} (hvm : (s.vms channel).Fit)
    (hcall : (s.vms channel).call = some call) (hfd : ∀ fd, run.fd = some fd → fd < 2 ^ 32)
    (hreply : ∀ msg, message run.fd run.hostname call = some msg →
      accUnixSendRecv msg run.link = .ok reply) :
    ∃ vm returns, goOn s channel run call =
        .ok { s with vms := Function.update s.vms channel vm, returns := returns } ∧ vm.Fit ∧
      (Connected vm.vnf → Connected (s.vms channel).vnf ∨
        (message run.fd run.hostname call).isSome ∧ Accepts accUnixHello reply) := by
  obtain ⟨taken, hpacked, hstanding⟩ := hvm
  obtain ⟨rest, vnf, taken', hproceed, hpacked', hleft, hconnected⟩ :=
    proceed_spec hpacked (hstanding call hcall) hfd hreply
  unfold goOn
  simp only [hproceed]
  refine ⟨⟨vnf, _⟩, _, rfl, ⟨taken', hpacked', fun next hnext => ?_⟩, fun h => ?_⟩
  · cases rest with
    | returned ok => cases hnext
    | left other =>
      cases hnext
      exact hleft next rfl
  · exact (hconnected h).imp_right fun hnew => hnew.2

/-- The VM behind a channel goes on, and gets no connection. -/
theorem fit_update (hs : Fit s) {vm : Vm} {returns : List Returned} (hvm : vm.Fit)
    (hconnected : Connected vm.vnf → Connected (s.vms channel).vnf) :
    Fit { s with vms := Function.update s.vms channel vm, returns := returns } := by
  have hupdate : ∀ other, Connected (Function.update s.vms channel vm other).vnf →
      Connected (s.vms other).vnf := by
    intro other h
    by_cases hother : other = channel
    · subst hother
      rw [Function.update_self] at h
      exact hconnected h
    · rwa [Function.update_of_ne hother] at h
  have hfit : ∀ other, (Function.update s.vms channel vm other).Fit := by
    intro other
    by_cases hother : other = channel
    · subst hother
      rwa [Function.update_self]
    · rw [Function.update_of_ne hother]
      exact hs.vms other
  exact ⟨hs.safe, hfit, hs.unread, fun other h => hs.old other (hupdate other h),
    fun e he h => hs.agree e he (hupdate e.id h)⟩

/-- A round of the daemon that leaves the VMs alone. -/
theorem fit_round (hs : Fit s) (hsafe : Safe daemon')
    (hstep : daemonStep s.daemon round = .ok daemon') {unread : ℕ → Bytes}
    (hunread : ∀ channel, unread channel = [])
    (hrounds : ∀ e ∈ s.daemon.events, e ∈ daemon'.events → ownRound e.id round = none) :
    Fit { s with daemon := daemon', unread := unread } := by
  have hmono := nextAddr_mono hs.safe.consistent hstep
  refine ⟨hsafe, hs.vms, hunread, fun channel h => (hs.old channel h).trans_le hmono,
    fun e he h => ?_⟩
  have hin : e ∈ s.daemon.events := by
    rcases events_step hs.safe.consistent hstep with hsub | ⟨_, _, _, new, -, hevents, hnew⟩
    · exact hsub e he
    · rw [hevents] at he
      rcases List.mem_append.mp he with he | he
      · exact he
      · obtain rfl := List.mem_singleton.mp he
        exact absurd (hs.old e.id h) (by omega)
  exact session_others hs.safe hsafe hstep hin (hrounds e hin he) (hs.agree e hin h)

theorem step_request (hs : Fit s) {req : CommandServer.Request} (hev : Calm s (.request req)) :
    ∃ s', systemStep s (.request req) = .ok s' ∧ Fit s' := by
  obtain ⟨htool, hfrees⟩ := hev
  obtain ⟨daemon', hprocess⟩ := served_of_fromTool ⟨hs.safe.consistent, hs.safe.cards⟩ htool
  have hserver : serverStep s.daemon (.request req) = .ok daemon' := hprocess
  obtain ⟨hconsistent, hcards⟩ :=
    allFromTool_step ⟨hs.safe.consistent, hs.safe.cards⟩ htool hserver
  refine ⟨{ s with daemon := daemon' }, by simp only [systemStep, hprocess], ?_⟩
  rcases serverStep_cases hserver with rfl | ⟨req', block, ok, heq, hblock, hlength, hcmd⟩ |
    ⟨event, d, heq, -⟩
  · exact hs
  · cases heq
    have hstep : daemonStep s.daemon (.command (cmdOf block) req.behind req.env) = .ok daemon' := by
      simp only [daemonStep, hcmd]
    have hlive := noFreedCard_step hs.safe.consistent hs.safe.live (hfrees block hblock hlength)
      hstep
    exact fit_round hs ⟨hconsistent, hcards, hlive⟩ hstep hs.unread fun _ _ _ => rfl
  · cases heq

theorem step_enter (hs : Fit s) {id : ℕ} {flow : AccFlow} (hev : Calm s (.enter channel id flow)) :
    ∃ s', systemStep s (.enter channel id flow) = .ok s' ∧ Fit s' := by
  obtain ⟨hid, client, hclient, hplace⟩ := hev
  obtain ⟨taken, hpacked, -⟩ := hs.vms channel
  simp only [systemStep]
  cases hcall : (s.vms channel).call with
  | some call => exact ⟨s, rfl, hs⟩
  | none =>
    have hroom : id ∈ taken.map AccClient.id ∨ taken.length < accClientMaxSize := by
      rw [hpacked.clients] at hclient
      rcases List.mem_append.mp hclient with hused | hfree
      · rcases hplace with rfl | hzero
        · exact .inl (List.mem_map_of_mem hused)
        · exact absurd hzero (hpacked.used client hused)
      · have hne := List.ne_nil_of_mem hfree
        rw [ne_eq, List.replicate_eq_nil_iff] at hne
        exact .inr (by omega)
    obtain ⟨call, vnf, taken', henter, hpacked', hstanding, hconnected⟩ :=
      enter_spec hpacked hid hroom flow
    simp only [henter]
    refine ⟨_, rfl, fit_update hs ⟨taken', hpacked', fun next hnext => ?_⟩ hconnected⟩
    cases hnext
    exact hstanding

theorem ownRound_of_ne {id event : ℕ} (h : event ≠ id) (d : Delivery) :
    ownRound id (.readable event d) = none := by
  rw [ownRound, if_neg h]

/-- A call goes on with the daemon that its request has left. -/
theorem systemStep_reaching (hcall : (s.vms channel).call = some call)
    (hreach : reaches s channel meeting call = some (t, e)) (hunread : s.unread channel = [])
    (hresult : (t.call s.daemon e.arg t.msg.bytes).result = .ok daemon')
    (hleft : leftover ((t.link s.daemon e.arg []).inbound t.msg.bytes) = []) :
    systemStep s (.proceed channel meeting) = goOn { s with daemon := daemon' } channel
      ⟨meeting.fd, meeting.hostname, t.link s.daemon e.arg []⟩ call := by
  have hupdated : Function.update s.unread channel [] = s.unread := by
    rw [← hunread, Function.update_eq_self]
  simp only [systemStep, hcall, hreach, hunread, hresult, hleft, hupdated]

/-- A call whose client has connected has a session to send its flow in. -/
theorem session_of_stage (hs : Fit s) (he : e ∈ s.daemon.events)
    (hcall : (s.vms e.id).call = some call) (hstage : call.stage ≠ .connect) :
    HasSession s.daemon e := by
  obtain ⟨taken, hpacked, hstanding⟩ := hs.vms e.id
  have hplace := (hstanding call hcall).place
  have hhandle := (hstanding call hcall).handle hstage
  refine hs.agree e he ((connected_iff hpacked).mpr ⟨_, List.getElem_mem hplace, ?_⟩)
  rwa [← hpacked.client_eq hplace]

/-- A call that goes on over an open channel leaves it with a session. -/
theorem step_reaching (hs : Fit s) {fd : Option ℕ} {hostname : Option Bytes} {p : Passage}
    (hcall : (s.vms channel).call = some call) (hfd : ∀ fd', fd = some fd' → fd' < 2 ^ 32)
    (hname : ∀ name, hostname = some name → name.length < 64) (hp : p.Whole)
    (halloc : p.world.allocContext = true) {msg : Framing.Message}
    (hmsg : message fd hostname call = some msg)
    (hfind : s.daemon.events.find? (fun e => e.id = channel) = some e)
    (hreach : reaches s channel ⟨fd, hostname, some p⟩ call = some (p.turn channel msg, e)) :
    ∃ s', systemStep s (.proceed channel ⟨fd, hostname, some p⟩) = .ok s' ∧ Fit s' := by
  obtain ⟨he, rfl⟩ := event_some hfind
  obtain ⟨taken, hpacked, hstanding⟩ := hs.vms e.id
  have hagree := session_of_stage hs he hcall
  obtain ⟨daemon', hresult, hsession⟩ := call_returns hs.safe he hp halloc hmsg hname hagree
  have ht := @turn_wellFormed e.id call p hp fd hostname msg hmsg hname
  obtain ⟨hreply, hleft⟩ := answered ht hresult
  have hstep : daemonStep s.daemon (.readable e.id
      ⟨msg.bytes ++ [], p.reads, p.writes, p.outBuf, p.world⟩) = .ok daemon' := by
    simp only [daemonStep, hfind]
    exact hresult
  have hsafe := hs.safe.readable hstep
  have hmono := nextAddr_mono hs.safe.consistent hstep
  have hevents : daemon'.events = s.daemon.events := (call_spec ht hresult).2
  obtain ⟨vm, returns, hgo, hvm, -⟩ := @goOn_spec { s with daemon := daemon' } e.id call
    ⟨fd, hostname, (p.turn e.id msg).link s.daemon e.arg []⟩ _ (hs.vms e.id) hcall hfd
    (fun msg' hmsg' => by
      cases hmsg.symm.trans hmsg'
      exact hreply)
  refine ⟨{ s with
    daemon := daemon', vms := Function.update s.vms e.id vm, returns := returns }, ?_, ?_⟩
  · rw [systemStep_reaching hcall hreach (hs.unread e.id) hresult hleft]
    exact hgo
  · have hfit : ∀ other, (Function.update s.vms e.id vm other).Fit := by
      intro other
      by_cases hother : other = e.id
      · rw [hother, Function.update_self]
        exact hvm
      · rw [Function.update_of_ne hother]
        exact hs.vms other
    refine ⟨hsafe, hfit, hs.unread, fun other h => ?_, fun x hx h => ?_⟩
    · by_cases hother : other = e.id
      · exact hother ▸ (hs.safe.consistent.freshEvents e he).1.trans_le hmono
      · have hold : Connected (Function.update s.vms e.id vm other).vnf := h
        rw [Function.update_of_ne hother] at hold
        exact (hs.old other hold).trans_le hmono
    · rw [hevents] at hx
      by_cases hother : x.id = e.id
      · rw [Slots.eq_of_ident_eq hs.safe.consistent.eventIds hx he hother]
        exact hsession
      · have hold : Connected (Function.update s.vms e.id vm x.id).vnf := h
        rw [Function.update_of_ne hother] at hold
        exact session_others hs.safe hsafe hstep hx (ownRound_of_ne (Ne.symm hother) _)
          (hs.agree x hx hold)

theorem step_proceed (hs : Fit s) (hev : Calm s (.proceed channel meeting)) :
    ∃ s', systemStep s (.proceed channel meeting) = .ok s' ∧ Fit s' := by
  obtain ⟨hfd, hname, hpassage⟩ := hev
  cases hcall : (s.vms channel).call with
  | none => exact ⟨s, by simp only [systemStep, hcall], hs⟩
  | some call =>
    cases hreach : reaches s channel meeting call with
    | some reached =>
      obtain ⟨t, e⟩ := reached
      obtain ⟨p, msg, hp, hmsg, hfind, rfl⟩ := reaches_some hreach
      obtain ⟨fd, hostname, passage⟩ := meeting
      obtain rfl : passage = some p := hp
      obtain ⟨hwhole, halloc⟩ := hpassage p rfl
      exact step_reaching hs hcall hfd hname hwhole halloc hmsg hfind hreach
    | none =>
      obtain ⟨vm, returns, hgo, hvm, hconnected⟩ := @goOn_spec s channel call
        ⟨meeting.fd, meeting.hostname, downLink⟩ none (hs.vms channel) hcall hfd
        fun msg _ => sendRecv_down msg
      have hstep : systemStep s (.proceed channel meeting) =
          goOn s channel ⟨meeting.fd, meeting.hostname, downLink⟩ call := by
        simp only [systemStep, hcall, hreach]
      refine ⟨_, hstep.trans hgo, fit_update hs hvm fun h => ?_⟩
      rcases hconnected h with hold | ⟨-, hdr, heq, -⟩
      · exact hold
      · cases heq

theorem step_other (hs : Fit s) {event : ℕ} {d : Delivery} (hev : Calm s (.other event d)) :
    ∃ s', systemStep s (.other event d) = .ok s' ∧ Fit s' := by
  obtain ⟨⟨rest, hrecv⟩, hconnected⟩ := hev
  cases hfind : s.daemon.events.find? (fun e => e.id = event) with
  | none => exact ⟨s, by simp only [systemStep, hfind], hs⟩
  | some e =>
    obtain ⟨he, rfl⟩ := event_some hfind
    obtain ⟨card, hcard, harg, hcontext⟩ := hs.agree e he hconnected
    obtain ⟨context, hcontext⟩ := Option.isSome_iff_exists.mp hcontext
    have hat := hs.safe.cardAt_arg hcard harg
    have hread : doVmRequestRead s.daemon e.arg d = _ := @read_failed _ _ _ d
      (accUnixRecvMessage bufSize ⟨d.stream, d.reads⟩).asked rest hat (by rw [← hrecv])
    have harmed := hs.safe.consistent.armed e he card hcard harg
    obtain ⟨daemon', hclose, hevents⟩ : ∃ daemon',
        closeChannel d.world card s.daemon = .ok daemon' ∧
        daemon'.events = s.daemon.events.filter (fun other => other.id ≠ e.id) := by
      have hsound := hs.safe.consistent.sound card hcard
      obtain ⟨result, -, hclose⟩ := @close_some d.world card e.id context s.daemon hsound harmed
        hcontext ((hs.safe.cards card hcard).sshRemote_eq (hsound context hcontext))
      exact ⟨_, hclose, rfl⟩
    rw [hclose] at hread
    have hstep : daemonStep s.daemon (.readable e.id d) = .ok daemon' := by
      simp only [daemonStep, hfind, hread]
    refine ⟨_, by simp only [systemStep, hfind, hread]; rfl, ?_⟩
    refine fit_round hs (hs.safe.readable hstep) hstep (fun other => ?_) fun x _ hx => ?_
    · by_cases hother : other = e.id
      · rw [hother, Function.update_self, hs.unread]
        rfl
      · rw [Function.update_of_ne hother]
        exact hs.unread other
    · rw [hevents] at hx
      exact ownRound_of_ne (Ne.symm (by simpa using (List.mem_filter.mp hx).2)) d

/-- No step that meets its conditions stops the system. -/
theorem fit_step (hs : Fit s) (hev : Calm s ev) : ∃ s', systemStep s ev = .ok s' ∧ Fit s' := by
  cases ev with
  | request req => exact step_request hs hev
  | enter channel id flow => exact step_enter hs hev
  | proceed channel meeting => exact step_proceed hs hev
  | other event d => exact step_other hs hev

theorem fit_start (rules : List SwitchRule) : Fit (start rules) where
  safe := by
    have hcards : (boot rules).cards = [] := Slots.records_replicate_none accCardMaxNum
    refine ⟨consistent_boot rules, fun card hcard => ?_, noFreedCard_boot rules⟩
    have hnone : card ∈ (boot rules).cards := hcard
    rw [hcards] at hnone
    cases hnone
  vms _ := ⟨[], packed_start, fun _ h => by cases h⟩
  unread _ := rfl
  old _ h := by
    obtain ⟨client, hclient, -⟩ := (connected_iff packed_start).mp h
    cases hclient
  agree e he := by simp [start, boot] at he

end

/-- The daemon serves VNFs that make any calls from any threads, in any order of the calls, of
their requests, of the tool's commands and of channels that end, whatever becomes of the commands
to the switch: no step stops, and a VNF that is connected has a session as long as its channel is
open. -/
theorem calls_are_served (rules : List SwitchRule) {evs : List SystemEvent}
    (hevs : Each systemStep Calm (start rules) evs) :
    ∃ s, exec systemStep (start rules) evs = .ok s ∧
      ∀ e ∈ s.daemon.events, Connected (s.vms e.id).vnf →
        ∃ card ∈ s.daemon.cards, card.addr = e.arg ∧ card.context.isSome := by
  obtain ⟨s, hexec, hs⟩ := hevs.exec_keeps (fun _ _ hs hev => fit_step hs hev) (fit_start rules)
  exact ⟨s, hexec, hs.agree⟩

def plainPassage : Passage where
  clientWrites := List.replicate (AccMsgHeader.size + bufSize) (.moved bufSize)
  clientReads := List.replicate AccMsgHeader.size (.moved AccMsgHeader.size)
  reads := List.replicate (AccMsgHeader.size + bufSize) (.moved bufSize)
  writes := List.replicate AccMsgHeader.size (.moved AccMsgHeader.size)
  outBuf := []
  world := .healthy

theorem plainPassage_whole : plainPassage.Whole :=
  ⟨enough_replicate _ _, enough_replicate _ _, enough_replicate _ _, enough_replicate _ _⟩

/-- The tool registers a card, whose VM accelerates a flow. -/
def firstCall (flow : AccFlow) : List SystemEvent :=
  [.request ⟨some registerSBlock, [], ⟨true, ⟨true, true, true, true, true⟩⟩⟩,
    .enter 2 1 flow, .proceed 2 ⟨some 5, some [0x61], some plainPassage⟩,
    .proceed 2 ⟨none, none, some plainPassage⟩]

theorem calm_firstCall (flow : AccFlow) : Each systemStep Calm (start []) (firstCall flow) := by
  have hproceed : ∀ channel fd hostname, (∀ fd', fd = some fd' → fd' < 2 ^ 32) →
      (∀ name : Bytes, hostname = some name → name.length < 64) → ∀ s,
      Calm s (.proceed channel ⟨fd, hostname, some plainPassage⟩) := by
    intro channel fd hostname hfd hname s
    refine ⟨hfd, hname, fun p hp => ?_⟩
    cases hp
    exact ⟨plainPassage_whole, rfl⟩
  refine ⟨⟨fromTool_registerS, fun block hblock _ hlive => ?_⟩, fun s hs => ?_⟩
  · cases hblock
    obtain ⟨card, hfrees, -⟩ := hlive
    have htype := hfrees.type
    rw [registerSBlock, cmdOf_cmdBytes] at htype
    exact absurd htype (by decide)
  · -- the request has left the VMs as they were
    have hvms : s.vms = (start []).vms := by
      simp only [systemStep] at hs
      split at hs
      · cases hs
      · cases hs
        rfl
    refine ⟨⟨by decide, .zero, ?_, .inr rfl⟩,
      fun s₁ _ => ⟨?_, fun s₂ _ => ⟨?_, fun _ _ => trivial⟩⟩⟩
    · rw [hvms]
      simp [start, Vnf.start, accClientMaxSize]
    · exact hproceed 2 _ _ (by simp) (by simp) s₁
    · exact hproceed 2 _ _ (by simp) (by simp) s₂

/-- The call returns 1, and its VM has a session. -/
theorem calls_are_served_firstCall : ∃ s,
    exec systemStep (start []) (firstCall (AccFlow.plain 6)) = .ok s ∧
    s.returns = [⟨2, AccFlow.plain 6, true⟩] ∧
      ∀ e ∈ s.daemon.events, Connected (s.vms e.id).vnf →
        ∃ card ∈ s.daemon.cards, card.addr = e.arg ∧ card.context.isSome := by
  obtain ⟨s, hrun, hreturns⟩ : ∃ s,
      exec systemStep (start []) (firstCall (AccFlow.plain 6)) = .ok s ∧
      s.returns = [⟨2, AccFlow.plain 6, true⟩] := exists_of_eval (by decide +kernel)
  obtain ⟨s', hrun', hagree⟩ := calls_are_served [] (calm_firstCall (AccFlow.plain 6))
  cases hrun.symm.trans hrun'
  exact ⟨s, hrun, hreturns, hagree⟩

end BeLa.Offloading
