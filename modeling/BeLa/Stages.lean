import BeLa.PacketPath

/-!
A call of `cgnat_accelerate` in stages. It waits for the daemon up to three times:
in the `add_flows` of a connected client, in the connect, and in the `add_flows`
behind it. Taken apart there, calls of different VMs can be interleaved.
-/
namespace BeLa.Stages

open LittleEndian Stops Framing BeLa.Flow Client Accelerate ChannelOwnership PacketPath

inductive Stage
  | first
  | connect
  | second
  deriving DecidableEq, Repr

structure Pending where
  client : ℕ
  flow : AccFlow
  stage : Stage
  deriving DecidableEq

inductive Rest
  | returned (ok : Bool)
  | left (call : Pending)
  deriving DecidableEq

/-- `cgnat_accelerate` up to where it first waits. -/
def enter (id : ℕ) (flow : AccFlow) (s : Vnf) : Except Stop (Pending × Vnf) :=
  if id = 0 then .error (.assertion .cgnatAccelerate)
  else
    match accClientRegister id s with
    | (none, _) => .error (.assertion .cgnatAccelerate)
    | (some i, s) =>
      .ok (⟨i, flow, if accClientIsConnected (s.client i) then .first else .connect⟩, s)

def proceed (run : ConnectRun) (call : Pending) (s : Vnf) : Except Stop (Rest × Vnf) :=
  match call.stage with
  | .first =>
    match accClientAddFlows (s.client call.client) [call.flow] run.link with
    | .error stop => .error stop
    | .ok ret =>
      if ret = .disconnect then .ok (.left { call with stage := .connect }, s)
      else .ok (.returned (ret = .flowsAccept), s)
  | .connect =>
    match accClientConnect run call.client s with
    | .error stop => .error stop
    | .ok (handle, s) =>
      if handle = 0 then .ok (.returned false, s)
      else .ok (.left { call with stage := .second }, s)
  | .second =>
    match accClientAddFlows (s.client call.client) [call.flow] run.link with
    | .error stop => .error stop
    | .ok ret => .ok (.returned (ret = .flowsAccept), s)

def proceedAll (runs : Stage → ConnectRun) : ℕ → Rest → Vnf → Except Stop (Rest × Vnf)
  | 0, rest, s => .ok (rest, s)
  | _ + 1, .returned ok, s => .ok (.returned ok, s)
  | n + 1, .left call, s =>
    match proceed (runs call.stage) call s with
    | .error stop => .error stop
    | .ok (rest, s) => proceedAll runs n rest s

def runsOf (call : Call) : Stage → ConnectRun
  | .first => ⟨none, none, call.first⟩
  | .connect => call.connect
  | .second => ⟨none, none, call.second⟩

variable {call : Call} {s s' : Vnf}

theorem proceedAll_returned (runs : Stage → ConnectRun) (n : ℕ) (ok : Bool) (s : Vnf) :
    proceedAll runs n (.returned ok) s = .ok (.returned ok, s) := by
  cases n <;> rfl

/-- The stages from the connect on. -/
theorem connect_iff (n i : ℕ) (ok : Bool) :
    proceedAll (runsOf call) (n + 2) (.left ⟨i, call.flow, .connect⟩) s = .ok (.returned ok, s') ↔
      ∃ handle, accClientConnect call.connect i s = .ok (handle, s') ∧
        (handle = 0 ∧ ok = false ∨ handle ≠ 0 ∧ ∃ ret,
          accClientAddFlows (s'.client i) [call.flow] call.second = .ok ret ∧
            ok = decide (ret = .flowsAccept)) := by
  simp only [proceedAll, proceed, runsOf]
  cases accClientConnect call.connect i s with
  | error stop => simp
  | ok after =>
    obtain ⟨handle, s₁⟩ := after
    by_cases hzero : handle = 0
    · simp [hzero, proceedAll, eq_comm, and_comm]
    · simp only [if_neg hzero, proceedAll, proceed]
      constructor
      · intro h
        split at h
        · cases h
        · rename_i hadd
          split at hadd
          · cases hadd
          · rename_i ret hret
            cases hadd
            rw [proceedAll_returned] at h
            cases h
            exact ⟨handle, rfl, .inr ⟨hzero, ret, hret, rfl⟩⟩
      · rintro ⟨handle', heq, ⟨hzero', -⟩ | ⟨-, ret, hret, rfl⟩⟩
        · cases heq
          exact absurd hzero' hzero
        · cases heq
          simp only [runsOf, hret, proceedAll_returned]

/-- The stages of a client that is connected. -/
theorem first_iff (i : ℕ) (ok : Bool) :
    proceedAll (runsOf call) 3 (.left ⟨i, call.flow, .first⟩) s = .ok (.returned ok, s') ↔
      ∃ ret, accClientAddFlows (s.client i) [call.flow] call.first = .ok ret ∧
        (ret ≠ .disconnect ∧ ok = decide (ret = .flowsAccept) ∧ s = s' ∨ ret = .disconnect ∧
          proceedAll (runsOf call) 2 (.left ⟨i, call.flow, .connect⟩) s =
            .ok (.returned ok, s')) := by
  rw [proceedAll]
  simp only [proceed, runsOf]
  cases accClientAddFlows (s.client i) [call.flow] call.first with
  | error stop => simp
  | ok ret =>
    by_cases hlost : ret = .disconnect
    · simp [hlost]
    · simp [hlost, proceedAll, eq_comm]

/-- The part of `cgnat_accelerate` that reconnects, as its stages. -/
theorem reconnect_iff (n i : ℕ) (ok : Bool) :
    (match accClientConnect call.connect i s with
      | .error stop => .error stop
      | .ok (handle, s) =>
        if handle = 0 then .ok (false, s)
        else
          match accClientAddFlows (s.client i) [call.flow] call.second with
          | .error stop => .error stop
          | .ok ret => .ok (decide (ret = .flowsAccept), s)) =
        (.ok (ok, s') : Except Stop (Bool × Vnf)) ↔
      proceedAll (runsOf call) (n + 2) (.left ⟨i, call.flow, .connect⟩) s =
        .ok (.returned ok, s') := by
  rw [connect_iff]
  cases accClientConnect call.connect i s with
  | error stop => simp
  | ok after =>
    obtain ⟨handle, s₁⟩ := after
    by_cases hzero : handle = 0
    · simp [hzero, eq_comm, and_comm]
    · simp only [if_neg hzero]
      constructor
      · intro h
        split at h
        · cases h
        · rename_i ret hret
          cases h
          exact ⟨handle, rfl, .inr ⟨hzero, ret, hret, rfl⟩⟩
      · rintro ⟨handle', heq, ⟨hzero', -⟩ | ⟨-, ret, hret, rfl⟩⟩
        · cases heq
          exact absurd hzero' hzero
        · cases heq
          rw [hret]

/-- A whole call ends as its stages do one behind the other. -/
theorem call_iff_stages (ok : Bool) :
    cgnatAccelerate call s = .ok (ok, s') ↔
      ∃ pending s₁, enter call.id call.flow s = .ok (pending, s₁) ∧
        proceedAll (runsOf call) 3 (.left pending) s₁ = .ok (.returned ok, s') := by
  unfold enter cgnatAccelerate
  by_cases hid : call.id = 0
  · simp [hid]
  · simp only [if_neg hid]
    rcases accClientRegister call.id s with ⟨_ | i, s₁⟩
    · simp
    · have hentered : ∀ pending : Pending,
          (∃ p s₂, (Except.ok (pending, s₁) : Except Stop _) = .ok (p, s₂) ∧
            proceedAll (runsOf call) 3 (.left p) s₂ = .ok (.returned ok, s')) ↔
          proceedAll (runsOf call) 3 (.left pending) s₁ = .ok (.returned ok, s') := by
        intro pending
        constructor
        · rintro ⟨p, s₂, heq, h⟩
          cases heq
          exact h
        · exact fun h => ⟨_, _, rfl, h⟩
      rw [hentered]
      dsimp only
      by_cases hconnected : accClientIsConnected (s₁.client i) = true
      · simp only [if_pos hconnected, first_iff, ← reconnect_iff 0]
        cases accClientAddFlows (s₁.client i) [call.flow] call.first with
        | error stop => simp
        | ok ret =>
          by_cases hlost : ret = .disconnect
          · subst hlost
            refine ⟨fun h => ⟨_, rfl, .inr ⟨rfl, h⟩⟩, ?_⟩
            rintro ⟨ret, heq, ⟨hkept, -⟩ | ⟨-, h⟩⟩
            · cases heq
              exact absurd rfl hkept
            · exact h
          · simp [hlost, eq_comm]
      · simp only [if_neg hconnected, if_true]
        exact reconnect_iff 1 i ok

/-! What the stages do to a table of clients. -/

def Connected (s : Vnf) : Prop := ∃ client ∈ s.clients, accClientIsConnected client

/-- The call has a client, which is connected while flows are added. -/
structure Standing (s : Vnf) (taken : List AccClient) (call : Pending) : Prop where
  place : call.client < taken.length
  handle : call.stage ≠ .connect → (s.client call.client).handle ≠ 0

def message (fd : Option ℕ) (hostname : Option Bytes) (call : Pending) : Option Framing.Message :=
  match call.stage with
  | .connect => if fd.isSome then hostname.map helloMessage else none
  | _ => some (addFlowsMessage [call.flow])

def Accepts (type : BitVec 32) (reply : Option AccMsgHeader) : Prop :=
  ∃ hdr, reply = some hdr ∧ hdr.code = accUnixSuccess ∧ hdr.msgType = type

section

variable {taken : List AccClient} {pending : Pending} {run : ConnectRun}

theorem connected_iff (h : Packed s taken) : Connected s ↔ ∃ client ∈ taken, client.handle ≠ 0 := by
  have hzero : accClientIsConnected .zero = false := rfl
  unfold Connected
  rw [h.clients]
  constructor
  · rintro ⟨client, hclient, hhandle⟩
    rcases List.mem_append.mp hclient with hmem | hfree
    · exact ⟨client, hmem, by simpa [accClientIsConnected] using hhandle⟩
    · rw [List.eq_of_mem_replicate hfree, hzero] at hhandle
      cases hhandle
  · rintro ⟨client, hclient, hhandle⟩
    exact ⟨client, List.mem_append_left _ hclient, by simpa [accClientIsConnected] using hhandle⟩

/-- The first part of a call returns while there is a place for its thread. -/
theorem enter_spec (h : Packed s taken) {id : ℕ} (hid : id ≠ 0)
    (hplace : id ∈ taken.map AccClient.id ∨ taken.length < accClientMaxSize) (flow : AccFlow) :
    ∃ pending s' taken', enter id flow s = .ok (pending, s') ∧ Packed s' taken' ∧
      Standing s' taken' pending ∧ (Connected s' → Connected s) := by
  have hstanding : ∀ s' taken' i, i < List.length taken' → Standing s' taken'
      ⟨i, flow, if accClientIsConnected (s'.client i) then .first else .connect⟩ := by
    intro s' taken' i hi
    refine ⟨hi, fun hstage => ?_⟩
    by_cases hconnected : accClientIsConnected (s'.client i) = true
    · simpa [accClientIsConnected] using hconnected
    · simp [hconnected] at hstage
  unfold enter
  by_cases hknown : id ∈ taken.map AccClient.id
  · obtain ⟨i, hi, hregister⟩ := register_known h hknown
    exact ⟨_, s, taken, by simp only [if_neg hid, hregister], h,
      hstanding s taken i hi, fun h => h⟩
  · obtain ⟨s₁, hregister, hpacked⟩ := register_new h hknown hid (hplace.resolve_left hknown)
    refine ⟨_, s₁, _, by simp only [if_neg hid, hregister], hpacked,
      hstanding s₁ _ taken.length (by simp), fun hconnected => ?_⟩
    rw [connected_iff hpacked] at hconnected
    rw [connected_iff h]
    obtain ⟨client, hclient, hhandle⟩ := hconnected
    rcases List.mem_append.mp hclient with hold | hnew
    · exact ⟨client, hold, hhandle⟩
    · rw [List.mem_singleton.mp hnew] at hhandle
      exact absurd rfl hhandle

/-- A connected client adds flows over its channel. -/
theorem accClientAddFlows_eq (h : Packed s taken) {i : ℕ} (hi : i < taken.length)
    (hhandle : (s.client i).handle ≠ 0) (flows : List AccFlow) (link : Link) :
    accClientAddFlows (s.client i) flows link = accChannelAddFlows flows link := by
  obtain ⟨socket, hsocket, hops⟩ := h.socket _ (List.getElem_mem hi)
  rw [← h.client_eq hi] at hsocket
  obtain ⟨ops, hops⟩ := Option.isSome_iff_exists.mp hops
  have hconnected : ¬ ¬ accClientIsConnected (s.client i) := by
    simpa [accClientIsConnected] using hhandle
  cases ops
  simp only [accClientAddFlows, if_neg hconnected, hsocket, hops]

/-- A batch is accepted when its reply says so, and the client is disconnected without one. -/
theorem accChannelAddFlows_eq {flows : List AccFlow} {link : Link} {reply : Option AccMsgHeader}
    (h : accUnixSendRecv (addFlowsMessage flows) link = .ok reply) :
    ∃ ret, accChannelAddFlows flows link = .ok ret ∧
      (ret = .flowsAccept ↔ Accepts accUnixAddFlows reply) ∧
      (ret = .disconnect ↔ reply = none) := by
  unfold accChannelAddFlows
  rw [h]
  cases reply with
  | none => exact ⟨_, rfl, by simp [Accepts], by simp⟩
  | some hdr =>
    by_cases haccept : hdr.code = accUnixSuccess ∧ hdr.msgType = accUnixAddFlows
    · exact ⟨_, if_pos haccept, by simp [Accepts, haccept], by simp⟩
    · refine ⟨_, if_neg haccept, iff_of_false (by simp) ?_, by simp⟩
      rintro ⟨hdr', heq, hgood⟩
      cases heq
      exact haccept hgood

/-- The channel connects when the HELLO is accepted. -/
theorem connectHandle_answered (channels : List ℕ) {reply : Option AccMsgHeader}
    (hreply : ∀ name, run.fd.isSome → run.hostname = some name →
      accUnixSendRecv (helloMessage name) run.link = .ok reply) :
    ∃ handle channels', accChannelConnectHandle run channels = .ok (handle, channels') ∧
      (handle ≠ 0 → run.fd.isSome ∧ run.hostname.isSome ∧ Accepts accUnixHello reply) := by
  unfold accChannelConnectHandle
  cases hfd : run.fd with
  | none => exact ⟨0, channels, rfl, fun h => absurd rfl h⟩
  | some fd =>
    unfold accChannelConnect
    cases hname : run.hostname with
    | none => exact ⟨0, _, rfl, fun h => absurd rfl h⟩
    | some name =>
      simp only [hreply name (by rw [hfd]; rfl) hname]
      cases reply with
      | none => exact ⟨0, _, rfl, fun h => absurd rfl h⟩
      | some hdr =>
        by_cases haccept : hdr.code = accUnixSuccess ∧ hdr.msgType = accUnixHello
        · exact ⟨fd, _, by simp [haccept]; rfl, fun _ => ⟨rfl, rfl, hdr, rfl, haccept⟩⟩
        · exact ⟨0, _, by simp [haccept]; rfl, fun h => absurd rfl h⟩

/-- A connect returns when the channel has answered, with a handle if the HELLO was accepted. -/
theorem accClientConnect_spec (h : Packed s taken) {i : ℕ} (hi : i < taken.length)
    (hfd : ∀ fd, run.fd = some fd → fd < 2 ^ 32) {reply : Option AccMsgHeader}
    (hreply : ∀ name, run.fd.isSome → run.hostname = some name →
      accUnixSendRecv (helloMessage name) run.link = .ok reply) :
    ∃ handle s' taken', accClientConnect run i s = .ok (handle, s') ∧ Packed s' taken' ∧
      i < taken'.length ∧ (s'.client i).handle = handle ∧
      (handle ≠ 0 → run.fd.isSome ∧ run.hostname.isSome ∧ Accepts accUnixHello reply) ∧
      (Connected s' → handle ≠ 0 ∨ Connected s) := by
  obtain ⟨handle, channels, hopen, haccept⟩ := connectHandle_answered s.channels hreply
  obtain ⟨socket, hsocket, hops⟩ := h.socket _ (List.getElem_mem hi)
  rw [← h.client_eq hi] at hsocket
  obtain ⟨ops, hops⟩ := Option.isSome_iff_exists.mp hops
  cases ops
  have hconnect : accClientConnect run i s = .ok (handle,
      ⟨s.types, s.clients.set i { s.client i with handle := handle }, channels⟩) := by
    simp only [accClientConnect, hsocket, hops, hopen]
  obtain ⟨hlt, -⟩ := connectTo_of_channel hfd hconnect
  have hvalue : (BitVec.ofNat 64 handle).toNat = handle := by
    rw [BitVec.toNat_ofNat, Nat.mod_eq_of_lt (by omega)]
  obtain ⟨taken', hpacked, hids⟩ := packed_withHandle h hi (BitVec.ofNat 64 handle)
  have hclients := hpacked.clients
  rw [withHandle, hvalue] at hclients
  have hi' : i < taken'.length := by
    have hlength := congrArg List.length hids
    rw [List.length_map, List.length_map] at hlength
    omega
  have hlt' : i < s.clients.length := by
    rw [h.length_clients]
    exact lt_of_lt_of_le hi h.room
  refine ⟨handle, _, taken', hconnect, ⟨hclients, hpacked.room, hpacked.nodup, hpacked.used,
    hpacked.socket, hpacked.types⟩, hi', ?_, haccept, ?_⟩
  · rw [client_set hlt', if_pos rfl]
  · rintro ⟨client, hclient, hhandle⟩
    rcases List.mem_or_eq_of_mem_set hclient with hold | rfl
    · exact .inr ⟨client, hold, hhandle⟩
    · exact .inl (by simpa [accClientIsConnected] using hhandle)

/-- A stage returns when the channel has answered, and a VNF gets connected by an accepted
HELLO only. -/
theorem proceed_spec (h : Packed s taken) (hstanding : Standing s taken pending)
    (hfd : ∀ fd, run.fd = some fd → fd < 2 ^ 32) {reply : Option AccMsgHeader}
    (hreply : ∀ msg, message run.fd run.hostname pending = some msg →
      accUnixSendRecv msg run.link = .ok reply) :
    ∃ rest s' taken', proceed run pending s = .ok (rest, s') ∧ Packed s' taken' ∧
      (∀ next, rest = .left next → Standing s' taken' next) ∧
      (Connected s' → Connected s ∨ pending.stage = .connect ∧
        (message run.fd run.hostname pending).isSome ∧ Accepts accUnixHello reply) := by
  obtain ⟨i, flow, stage⟩ := pending
  have hi : i < taken.length := hstanding.place
  unfold proceed
  cases stage with
  | connect =>
    have hhello : ∀ name, run.fd.isSome → run.hostname = some name →
        accUnixSendRecv (helloMessage name) run.link = .ok reply := by
      intro name hopened hname
      exact hreply _ (by simp [message, hopened, hname])
    obtain ⟨handle, s', taken', hconnect, hpacked, hi', hhandle, haccept, hconnected⟩ :=
      accClientConnect_spec h hi hfd hhello
    simp only [hconnect]
    by_cases hzero : handle = 0
    · refine ⟨_, s', taken', if_pos hzero, hpacked, by simp, fun hafter => ?_⟩
      exact .inl ((hconnected hafter).resolve_left (not_not.mpr hzero))
    · refine ⟨_, s', taken', if_neg hzero, hpacked, ?_, fun _ => .inr ⟨trivial, ?_⟩⟩
      · intro next hnext
        cases hnext
        exact ⟨hi', fun _ => by rwa [hhandle]⟩
      · obtain ⟨hopened, hname, hreplied⟩ := haccept hzero
        refine ⟨?_, hreplied⟩
        simpa [message, hopened] using hname
  | first =>
    have hhandle : (s.client i).handle ≠ 0 := hstanding.handle (by simp)
    obtain ⟨ret, hret, -, -⟩ := accChannelAddFlows_eq (hreply _ rfl)
    simp only [accClientAddFlows_eq h hi hhandle, hret]
    by_cases hlost : ret = .disconnect
    · refine ⟨_, s, taken, if_pos hlost, h, ?_, .inl⟩
      intro next hnext
      cases hnext
      exact ⟨hi, fun hne => absurd rfl hne⟩
    · exact ⟨_, s, taken, if_neg hlost, h, by simp, .inl⟩
  | second =>
    have hhandle : (s.client i).handle ≠ 0 := hstanding.handle (by simp)
    obtain ⟨ret, hret, -, -⟩ := accChannelAddFlows_eq (hreply _ rfl)
    simp only [accClientAddFlows_eq h hi hhandle, hret]
    exact ⟨_, s, taken, rfl, h, by simp, .inl⟩

/-- Flows that a client adds go over its channel. -/
theorem addFlows_of_ok {client : AccClient} {flows : List AccFlow} {link : Link} {ret : ErrorCode}
    (h : accClientAddFlows client flows link = .ok ret) :
    accChannelAddFlows flows link = .ok ret := by
  unfold accClientAddFlows at h
  split at h
  · cases h
  · split at h
    · cases h
    · split at h
      · cases h
      · exact h

/-- A call returns 1 when its flow was added and the reply accepts it. -/
theorem returned_true_iff {reply : Option AccMsgHeader} {rest : Rest}
    (hreply : ∀ msg, message run.fd run.hostname pending = some msg →
      accUnixSendRecv msg run.link = .ok reply)
    (h : proceed run pending s = .ok (rest, s')) :
    rest = .returned true ↔ pending.stage ≠ .connect ∧ Accepts accUnixAddFlows reply := by
  obtain ⟨i, flow, stage⟩ := pending
  unfold proceed at h
  cases stage with
  | connect =>
    refine iff_of_false ?_ (by simp)
    dsimp only at h
    split at h
    · cases h
    · split at h <;> cases h <;> simp
  | first =>
    dsimp only at h
    split at h
    · cases h
    · rename_i ret hadd
      obtain ⟨ret', hret, haccept, -⟩ := accChannelAddFlows_eq (hreply _ rfl)
      cases (addFlows_of_ok hadd).symm.trans hret
      split at h
      · rename_i hlost
        cases h
        rw [← haccept, hlost]
        simp
      · cases h
        simp [haccept]
  | second =>
    dsimp only at h
    split at h
    · cases h
    · rename_i ret hadd
      obtain ⟨ret', hret, haccept, -⟩ := accChannelAddFlows_eq (hreply _ rfl)
      cases (addFlows_of_ok hadd).symm.trans hret
      cases h
      simp [haccept]

end

end BeLa.Stages
