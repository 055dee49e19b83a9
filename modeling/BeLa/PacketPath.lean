import BeLa.ChannelOwnership
import BeLa.PrefixTables
import Mathlib.Data.Finset.Card
import Mathlib.Data.Finset.Insert

/-!
`cgnat_accelerate` over any channel: `connect` returns some pointer and each
`add_flows` some error code. The table of clients keeps a place for every thread
that has called, so the calls return as long as they come from no more threads
than the table has places; the next thread fails an assertion.
-/
namespace BeLa.PacketPath

open Stops BeLa.Flow Client Accelerate ChannelOwnership Runs PrefixTables

/-- A call of `cgnat_accelerate`, and what the functions of the channel return to it. -/
structure Request where
  id : ℕ
  /-- `add_flows` of a connected client -/
  first : ErrorCode
  /-- `connect` -/
  handle : BitVec 64
  /-- `add_flows` behind the connect -/
  second : ErrorCode
  deriving DecidableEq, Repr

/-- What a call has done: how often it has called `connect`, the handle and the result of each
`add_flows`, and whether it returns another value than 0. -/
structure Outcome where
  connects : ℕ
  added : List (ℕ × ErrorCode)
  nonzero : Bool
  deriving DecidableEq, Repr

def withHandle (handle : BitVec 64) (i : ℕ) (s : Vnf) : Vnf :=
  { s with clients := s.clients.set i { s.client i with handle := handle.toNat } }

/-- `acc_client_connect`: the handle takes the place of the old one, and is cut to an int. -/
def connectTo (handle : BitVec 64) (i : ℕ) (s : Vnf) : Except Stop (BitVec 32 × Vnf) :=
  match (s.client i).socket with
  | none => .error .nullDeref
  | some socket =>
    match socket.ops with
    | none => .error .nullCall
    | some _ => .ok (handle.setWidth 32, withHandle handle i s)

/-- `acc_client_add_flows`, with the handle it passes on. -/
def addFlowsTo (client : AccClient) (answer : ErrorCode) : Except Stop (ℕ × ErrorCode) :=
  if ¬ accClientIsConnected client then .error (.assertion .accClientAddFlows)
  else
    match client.socket with
    | none => .error .nullDeref
    | some socket =>
      match socket.ops with
      | none => .error .nullCall
      | some _ => .ok (client.handle, answer)

/-- The part of `cgnat_accelerate` that reconnects; DISCONNECT is 0. -/
def reconnect (request : Request) (i : ℕ) (added : List (ℕ × ErrorCode)) (s : Vnf) :
    Except Stop (Outcome × Vnf) :=
  match connectTo request.handle i s with
  | .error stop => .error stop
  | .ok (connected, s) =>
    if connected = 0 then .ok (⟨1, added, false⟩, s)
    else
      match addFlowsTo (s.client i) request.second with
      | .error stop => .error stop
      | .ok attempt => .ok (⟨1, added ++ [attempt], attempt.2 = .flowsAccept⟩, s)

/-- `cgnat_accelerate`. -/
def accelerate (request : Request) (s : Vnf) : Except Stop (Outcome × Vnf) :=
  if request.id = 0 then .error (.assertion .cgnatAccelerate)
  else
    match accClientRegister request.id s with
    | (none, _) => .error (.assertion .cgnatAccelerate)
    | (some i, s) =>
      if accClientIsConnected (s.client i) then
        match addFlowsTo (s.client i) request.first with
        | .error stop => .error stop
        | .ok attempt =>
          if attempt.2 = .disconnect then reconnect request i [attempt] s
          else .ok (⟨0, [attempt], attempt.2 = .flowsAccept⟩, s)
      else reconnect request i [] s

def step (s : Vnf) (request : Request) : Except Stop Vnf :=
  match accelerate request s with
  | .error stop => .error stop
  | .ok (_, s') => .ok s'

/-- The result tells whether the last `add_flows` was accepted; no handle is NULL, and there is
at most one connect and at most two attempts. -/
structure WellBehaved (outcome : Outcome) : Prop where
  result : outcome.nonzero = true ↔
    ∃ attempt, outcome.added.getLast? = some attempt ∧ attempt.2 = .flowsAccept
  handles : ∀ attempt ∈ outcome.added, attempt.1 ≠ 0
  connects : outcome.connects ≤ 1
  attempts : outcome.added.length ≤ 2

def Returns (s : Vnf) (request : Request) : Prop :=
  ∃ outcome s', accelerate request s = .ok (outcome, s') ∧ WellBehaved outcome

/-- The registered clients stand in front, each under its own id and with the functions of a
channel type; the other places are free, and the channel type is there. -/
structure Packed (s : Vnf) (taken : List AccClient) : Prop where
  clients : s.clients = taken ++ List.replicate (accClientMaxSize - taken.length) .zero
  room : taken.length ≤ accClientMaxSize
  nodup : (taken.map AccClient.id).Nodup
  used : ∀ client ∈ taken, client.id ≠ 0
  socket : ∀ client ∈ taken, ∃ socket, client.socket = some socket ∧ socket.ops.isSome
  types : ∃ rest, s.types = virtioChannel :: rest

variable {s s' : Vnf} {taken : List AccClient} {request : Request}

theorem packed_start : Packed .start [] where
  clients := rfl
  room := Nat.zero_le _
  nodup := List.nodup_nil
  used := by simp
  socket := by simp
  types := ⟨_, rfl⟩

/-- The table of clients is filled from the front. -/
theorem Packed.filled (h : Packed s taken) :
    Filled AccClient.id .zero accClientMaxSize s.clients taken :=
  ⟨h.clients, h.room, h.used, h.nodup⟩

theorem Packed.client_eq (h : Packed s taken) {i : ℕ} (hi : i < taken.length) :
    s.client i = taken[i] := h.filled.getD_of_lt hi

theorem Packed.length_clients (h : Packed s taken) : s.clients.length = accClientMaxSize :=
  h.filled.length_table

theorem getById_eq (h : Packed s taken) (id : ℕ) :
    accClientGetById id s.clients = taken.findIdx? fun client => client.id = id := by
  have hprefix : s.clients.takeWhile (fun client => client.id ≠ 0) = taken := by
    rw [h.clients, List.takeWhile_append_of_pos (by simpa using h.used)]
    cases accClientMaxSize - taken.length with
    | zero => simp
    | succ n => simp [List.replicate_succ, AccClient.zero]
  rw [accClientGetById, hprefix]

/-- A thread that has called before finds its client. -/
theorem register_known (h : Packed s taken) {id : ℕ} (hid : id ∈ taken.map AccClient.id) :
    ∃ i, i < taken.length ∧ accClientRegister id s = (some i, s) := by
  obtain ⟨client, hclient, rfl⟩ := List.mem_map.mp hid
  have hsome : (taken.findIdx? fun other => other.id = client.id).isSome := by
    rw [List.findIdx?_isSome, List.any_eq_true]
    exact ⟨client, hclient, by simp⟩
  obtain ⟨i, hi⟩ := Option.isSome_iff_exists.mp hsome
  obtain ⟨hlt, -⟩ := List.findIdx?_eq_some_iff_getElem.mp hi
  refine ⟨i, hlt, ?_⟩
  unfold accClientRegister
  rw [getById_eq h, hi]

theorem getById_new (h : Packed s taken) {id : ℕ} (hid : id ∉ taken.map AccClient.id) :
    accClientGetById id s.clients = none := by
  rw [getById_eq h, List.findIdx?_eq_none_iff]
  intro client hclient
  have hne : client.id ≠ id := fun heq => hid (List.mem_map.mpr ⟨client, hclient, heq⟩)
  simpa using hne

theorem getLastIdx_eq (h : Packed s taken) : accClientGetLastIdx s.clients =
    if taken.length < accClientMaxSize then some taken.length else none := by
  have hused : taken.findIdx? (fun client => client.id = 0) = none := by
    rw [List.findIdx?_eq_none_iff]
    intro client hclient
    simpa using h.used client hclient
  rw [accClientGetLastIdx, h.clients, List.findIdx?_append, hused]
  by_cases hroom : taken.length < accClientMaxSize
  · obtain ⟨n, hn⟩ : ∃ n, accClientMaxSize - taken.length = n + 1 :=
      ⟨accClientMaxSize - taken.length - 1, by omega⟩
    have hfree : decide (AccClient.zero.id = 0) = true := rfl
    rw [if_pos hroom, hn, List.replicate_succ, List.findIdx?_cons, hfree]
    simp
  · have hzero : accClientMaxSize - taken.length = 0 := by omega
    rw [if_neg hroom, hzero]
    rfl

/-- Registering the channel type once more leaves the first entry as it is. -/
theorem unixRegister_head {types rest : List AccVsocketType} (h : types = virtioChannel :: rest) :
    ∃ rest', (accVsocketUnixRegister types).2 = virtioChannel :: rest' := by
  subst h
  unfold accVsocketUnixRegister accVsocketTypeRegister
  split
  · exact ⟨rest, rfl⟩
  · split
    · exact ⟨rest, rfl⟩
    · rename_i idx hidx
      have hne : idx ≠ 0 := by
        intro hzero
        obtain ⟨_, hunused, -⟩ := List.findIdx?_eq_some_iff_getElem.mp hidx
        simp only [hzero, List.getElem_cons_zero] at hunused
        exact absurd hunused (by decide)
      obtain ⟨k, rfl⟩ := Nat.exists_eq_succ_of_ne_zero hne
      exact ⟨rest.set k virtioChannel, rfl⟩

def newClient (id : ℕ) : AccClient := ⟨id, 0, some virtioChannel⟩

/-- A new thread takes the next place. -/
theorem register_new (h : Packed s taken) {id : ℕ} (hid : id ∉ taken.map AccClient.id)
    (hne : id ≠ 0) (hroom : taken.length < accClientMaxSize) :
    ∃ s', accClientRegister id s = (some taken.length, s') ∧
      Packed s' (taken ++ [newClient id]) := by
  obtain ⟨rest, hrest⟩ := h.types
  obtain ⟨rest', hrest'⟩ := unixRegister_head hrest
  have hfirst : accGetFirstVsocketType (accVsocketUnixRegister s.types).2 =
      some virtioChannel := by
    rw [hrest']
    rfl
  have hregister : accClientRegister id s = (some taken.length,
      { s with
        types := (accVsocketUnixRegister s.types).2
        clients := s.clients.set taken.length (newClient id) }) := by
    unfold accClientRegister
    rw [getById_new h hid, accClientAdd_virtio, getLastIdx_eq h, if_pos hroom]
    simp only [hfirst]
    rfl
  have hfilled := h.filled.append (x := newClient id) hne hid hroom
  refine ⟨_, hregister, hfilled.entries, hfilled.room, hfilled.nodup, hfilled.used, ?_, rest',
    hrest'⟩
  intro client hclient
  rcases List.mem_append.mp hclient with hold | hnew
  · exact h.socket client hold
  · rw [List.mem_singleton.mp hnew]
    exact ⟨_, rfl, rfl⟩

/-- With every place taken a new thread gets no client. -/
theorem register_full (h : Packed s taken) {id : ℕ} (hid : id ∉ taken.map AccClient.id)
    (hfull : ¬ taken.length < accClientMaxSize) : accClientRegister id s = (none, s) := by
  unfold accClientRegister
  rw [getById_new h hid, accClientAdd_virtio, getLastIdx_eq h, if_neg hfull]

theorem connectTo_eq (h : Packed s taken) {i : ℕ} (hi : i < taken.length) (handle : BitVec 64) :
    connectTo handle i s = .ok (handle.setWidth 32, withHandle handle i s) := by
  obtain ⟨socket, hsocket, hops⟩ := h.socket _ (List.getElem_mem hi)
  rw [← h.client_eq hi] at hsocket
  obtain ⟨ops, hops⟩ := Option.isSome_iff_exists.mp hops
  simp only [connectTo, hsocket, hops]

/-- A connect keeps the clients in their places, under their ids. -/
theorem packed_withHandle (h : Packed s taken) {i : ℕ} (hi : i < taken.length)
    (handle : BitVec 64) :
    ∃ taken', Packed (withHandle handle i s) taken' ∧
      taken'.map AccClient.id = taken.map AccClient.id := by
  have hmem : taken[i] ∈ taken := List.getElem_mem hi
  have hids : (taken.set i { taken[i] with handle := handle.toNat }).map AccClient.id =
      taken.map AccClient.id := by
    have hi' : i < (taken.map AccClient.id).length := by rwa [List.length_map]
    have hsame : taken[i].id = (taken.map AccClient.id)[i] := by rw [List.getElem_map]
    rw [List.map_set, hsame, List.set_getElem_self]
  refine ⟨taken.set i { taken[i] with handle := handle.toNat }, ?_, hids⟩
  refine ⟨?_, ?_, ?_, ?_, ?_, h.types⟩
  · simp only [withHandle, h.client_eq hi, h.clients, List.length_set]
    rw [List.set_append_left _ _ hi]
  · rw [List.length_set]
    exact h.room
  · rw [hids]
    exact h.nodup
  · intro client hclient
    rcases List.mem_or_eq_of_mem_set hclient with hold | rfl
    · exact h.used client hold
    · exact h.used taken[i] hmem
  · intro client hclient
    rcases List.mem_or_eq_of_mem_set hclient with hold | rfl
    · exact h.socket client hold
    · exact h.socket taken[i] hmem

theorem addFlowsTo_eq (h : Packed s taken) {i : ℕ} (hi : i < taken.length)
    (hconnected : (s.client i).handle ≠ 0) (answer : ErrorCode) :
    addFlowsTo (s.client i) answer = .ok ((s.client i).handle, answer) := by
  obtain ⟨socket, hsocket, hops⟩ := h.socket _ (List.getElem_mem hi)
  rw [← h.client_eq hi] at hsocket
  obtain ⟨ops, hops⟩ := Option.isSome_iff_exists.mp hops
  have hnot : ¬ ¬ accClientIsConnected (s.client i) := by
    simpa [accClientIsConnected] using hconnected
  simp only [addFlowsTo, if_neg hnot, hsocket, hops]

/-- A pointer whose low half is not zero is not NULL. -/
theorem toNat_ne_zero {handle : BitVec 64} (h : handle.setWidth 32 ≠ 0) : handle.toNat ≠ 0 := by
  intro hzero
  apply h
  rw [BitVec.toNat_eq, BitVec.toNat_setWidth, hzero]
  rfl

/-- The reconnect returns, with one connect and at most one attempt more. -/
theorem reconnect_spec (h : Packed s taken) {i : ℕ} (hi : i < taken.length)
    {added : List (ℕ × ErrorCode)} (hshort : added.length ≤ 1)
    (hadded : ∀ attempt ∈ added, attempt.1 ≠ 0 ∧ attempt.2 = .disconnect) :
    ∃ outcome s' taken', reconnect request i added s = .ok (outcome, s') ∧
      WellBehaved outcome ∧ Packed s' taken' ∧
      taken'.map AccClient.id = taken.map AccClient.id := by
  obtain ⟨taken', hpacked, hids⟩ := packed_withHandle h hi request.handle
  have hi' : i < taken'.length := by
    have hlength := congrArg List.length hids
    rw [List.length_map, List.length_map] at hlength
    omega
  unfold reconnect
  simp only [connectTo_eq h hi]
  by_cases hzero : request.handle.setWidth 32 = 0
  · refine ⟨_, _, taken', if_pos hzero, ?_, hpacked, hids⟩
    refine ⟨?_, fun attempt hmem => (hadded attempt hmem).1, Nat.le_refl _, by
      dsimp only
      omega⟩
    refine iff_of_false (by simp) ?_
    rintro ⟨attempt, hlast, haccept⟩
    rw [(hadded attempt (List.mem_of_getLast? hlast)).2] at haccept
    cases haccept
  · have hhandle : ((withHandle request.handle i s).client i).handle = request.handle.toNat := by
      have hlt : i < s.clients.length := by
        rw [h.length_clients]
        have hroom := h.room
        omega
      rw [withHandle, client_set hlt, if_pos rfl]
    have hadd := addFlowsTo_eq hpacked hi' (hhandle.symm ▸ toNat_ne_zero hzero) request.second
    rw [hhandle] at hadd
    simp only [if_neg hzero, hadd]
    refine ⟨_, _, taken', rfl, ⟨by simp, ?_, Nat.le_refl _, ?_⟩, hpacked, hids⟩
    · intro attempt hmem
      rcases List.mem_append.mp hmem with hold | hnew
      · exact (hadded attempt hold).1
      · rw [List.mem_singleton.mp hnew]
        exact toNat_ne_zero hzero
    · rw [List.length_append, List.length_singleton]
      omega

/-- Past the registration a call returns and is well behaved. -/
theorem accelerate_registered (hid : request.id ≠ 0) {i : ℕ} {s₁ : Vnf}
    (hregister : accClientRegister request.id s = (some i, s₁)) (h : Packed s₁ taken)
    (hi : i < taken.length) :
    ∃ outcome s' taken', accelerate request s = .ok (outcome, s') ∧ WellBehaved outcome ∧
      Packed s' taken' ∧ taken'.map AccClient.id = taken.map AccClient.id := by
  unfold accelerate
  simp only [if_neg hid, hregister]
  by_cases hconnected : (s₁.client i).handle ≠ 0
  · have hisConnected : accClientIsConnected (s₁.client i) = true := by
      simpa [accClientIsConnected] using hconnected
    simp only [if_pos hisConnected, addFlowsTo_eq h hi hconnected]
    by_cases hlost : request.first = .disconnect
    · simp only [if_pos hlost]
      exact reconnect_spec h hi (Nat.le_refl _) (by simp [hconnected, hlost])
    · simp only [if_neg hlost]
      refine ⟨_, _, taken, rfl, ?_, h, rfl⟩
      exact ⟨by simp, by simp [hconnected], Nat.zero_le _, by simp⟩
  · have hnot : ¬ accClientIsConnected (s₁.client i) = true := by
      simpa [accClientIsConnected] using hconnected
    rw [if_neg hnot]
    exact reconnect_spec h hi (Nat.zero_le _) (by simp)

/-- A thread that has a place, or finds a free one, has it after the call. -/
theorem accelerate_returns (hid : request.id ≠ 0) (h : Packed s taken)
    (hplace : request.id ∈ taken.map AccClient.id ∨ taken.length < accClientMaxSize) :
    ∃ outcome s' taken', accelerate request s = .ok (outcome, s') ∧ WellBehaved outcome ∧
      Packed s' taken' ∧
      (taken'.map AccClient.id).toFinset = insert request.id (taken.map AccClient.id).toFinset := by
  by_cases hknown : request.id ∈ taken.map AccClient.id
  · obtain ⟨i, hi, hregister⟩ := register_known h hknown
    obtain ⟨outcome, s', taken', hcall, hgood, hpacked, hids⟩ :=
      accelerate_registered hid hregister h hi
    refine ⟨outcome, s', taken', hcall, hgood, hpacked, ?_⟩
    rw [hids, Finset.insert_eq_self.mpr (List.mem_toFinset.mpr hknown)]
  · obtain ⟨s₁, hregister, hpacked₁⟩ := register_new h hknown hid (hplace.resolve_left hknown)
    obtain ⟨outcome, s', taken', hcall, hgood, hpacked, hids⟩ :=
      accelerate_registered hid hregister hpacked₁ (by simp)
    refine ⟨outcome, s', taken', hcall, hgood, hpacked, ?_⟩
    rw [hids, List.map_append, List.toFinset_append, Finset.union_comm]
    rfl

/-- Without a place the call fails its assertion. -/
theorem accelerate_stops (hid : request.id ≠ 0) (h : Packed s taken)
    (hnew : request.id ∉ taken.map AccClient.id) (hfull : ¬ taken.length < accClientMaxSize) :
    accelerate request s = .error (.assertion .cgnatAccelerate) := by
  unfold accelerate
  rw [if_neg hid, register_full h hnew hfull]

/-- From a packed table the calls return just when the table holds all their threads. -/
theorem returns_iff_of_packed (h : Packed s taken) {requests : List Request}
    (hids : ∀ request ∈ requests, request.id ≠ 0) :
    Each step Returns s requests ↔
      ((taken.map AccClient.id).toFinset ∪ (requests.map Request.id).toFinset).card ≤
        accClientMaxSize := by
  induction requests generalizing s taken with
  | nil =>
    refine iff_of_true trivial ?_
    rw [List.map_nil, List.toFinset_nil, Finset.union_empty,
      List.toFinset_card_of_nodup h.nodup, List.length_map]
    exact h.room
  | cons request requests ih =>
    rw [List.forall_mem_cons] at hids
    rw [List.map_cons, List.toFinset_cons, Finset.union_insert, ← Finset.insert_union]
    by_cases hplace : request.id ∈ taken.map AccClient.id ∨ taken.length < accClientMaxSize
    · obtain ⟨outcome, s', taken', hcall, hgood, hpacked, hnext⟩ :=
        accelerate_returns hids.1 h hplace
      have hstep : step s request = .ok s' := by
        unfold step
        rw [hcall]
      rw [← hnext, ← ih hpacked hids.2]
      constructor
      · exact fun hall => hall.2 s' hstep
      · exact fun hall => Each.cons ⟨outcome, s', hcall, hgood⟩ hstep hall
    · rw [not_or] at hplace
      have hstop := accelerate_stops hids.1 h hplace.1 hplace.2
      refine iff_of_false ?_ ?_
      · rintro ⟨⟨outcome, s', hcall, -⟩, -⟩
        rw [hstop] at hcall
        cases hcall
      · have hcard : (insert request.id (taken.map AccClient.id).toFinset).card =
            taken.length + 1 := by
          rw [Finset.card_insert_of_notMem (by simpa using hplace.1),
            List.toFinset_card_of_nodup h.nodup, List.length_map]
        have hsub : insert request.id (taken.map AccClient.id).toFinset ⊆
            insert request.id (taken.map AccClient.id).toFinset ∪
              (requests.map Request.id).toFinset := Finset.subset_union_left
        have hle := Finset.card_le_card hsub
        omega

/-- Every call of a run returns, with a result that tells whether the last attempt was accepted,
no NULL handle, and no more attempts than allowed, just when the calls come from at most 32
threads. -/
theorem calls_return_iff (requests : List Request) (hids : ∀ request ∈ requests, request.id ≠ 0) :
    Each step Returns .start requests ↔
      (requests.map Request.id).toFinset.card ≤ accClientMaxSize := by
  rw [returns_iff_of_packed packed_start hids, List.map_nil, List.toFinset_nil,
    Finset.empty_union]

/-- A call over the channel of `acc_channel_vsocket.c` is a call over some channel. -/
theorem addFlowsTo_of_channel {client : AccClient} {flows : List AccFlow} {link : Link}
    {ret : ErrorCode} (h : accClientAddFlows client flows link = .ok ret) :
    addFlowsTo client ret = .ok (client.handle, ret) := by
  unfold accClientAddFlows at h
  unfold addFlowsTo
  split at h
  · cases h
  · rename_i hconnected
    rw [if_neg hconnected]
    split at h
    · cases h
    · split at h
      · cases h
      · rename_i hsocket _ hops
        simp only [hsocket, hops]

theorem connectTo_of_channel {run : ConnectRun} {i handle : ℕ}
    (hfd : ∀ fd, run.fd = some fd → fd < 2 ^ 32)
    (h : accClientConnect run i s = .ok (handle, s')) :
    handle < 2 ^ 32 ∧ ∃ channels, s' = { withHandle (BitVec.ofNat 64 handle) i s with
        channels := channels } ∧
      connectTo (BitVec.ofNat 64 handle) i s =
        .ok ((BitVec.ofNat 64 handle).setWidth 32, withHandle (BitVec.ofNat 64 handle) i s) := by
  obtain ⟨channels, hopen, hafter⟩ := connect_eq h
  have hlt : handle < 2 ^ 32 := by
    rcases connectHandle_spec hopen with ⟨rfl, -⟩ | ⟨hsome, -⟩
    · omega
    · exact hfd handle hsome
  have hvalue : (BitVec.ofNat 64 handle).toNat = handle := by
    rw [BitVec.toNat_ofNat, Nat.mod_eq_of_lt (by omega)]
  refine ⟨hlt, channels, ?_, ?_⟩
  · rw [hafter, withHandle, hvalue]
  · unfold accClientConnect at h
    unfold connectTo
    split at h
    · cases h
    · split at h
      · cases h
      · rename_i hsocket _ hops
        simp only [hsocket, hops]

theorem setWidth_ofNat_eq_zero {n : ℕ} (h : n < 2 ^ 32) :
    (BitVec.ofNat 64 n).setWidth 32 = 0 ↔ n = 0 := by
  rw [BitVec.toNat_eq, BitVec.toNat_setWidth, BitVec.toNat_ofNat,
    Nat.mod_eq_of_lt (show n < 2 ^ 64 by omega), Nat.mod_eq_of_lt h]
  exact Iff.rfl

/-- The reconnect over the channel, as one over what the channel has returned. -/
theorem reconnect_of_channel {call : Call} {i handle : ℕ} (added : List (ℕ × ErrorCode))
    {ok : Bool} {s₂ : Vnf} (hfd : ∀ fd, call.connect.fd = some fd → fd < 2 ^ 32)
    (hconnect : accClientConnect call.connect i s = .ok (handle, s₂))
    (h : (if handle = 0 then .ok (false, s₂)
      else
        match accClientAddFlows (s₂.client i) [call.flow] call.second with
        | .error stop => .error stop
        | .ok ret => .ok (decide (ret = .flowsAccept), s₂)) = (.ok (ok, s') : Except Stop _)) :
    ∃ second, ∀ first, ∃ outcome after,
      reconnect ⟨call.id, first, BitVec.ofNat 64 handle, second⟩ i added s =
        .ok (outcome, after) ∧
      outcome.nonzero = ok ∧ after.clients = s'.clients ∧ after.types = s'.types := by
  obtain ⟨hlt, channels, hafter, hto⟩ := connectTo_of_channel hfd hconnect
  have hclient : s₂.client i = (withHandle (BitVec.ofNat 64 handle) i s).client i := by
    rw [hafter]
    rfl
  unfold reconnect
  simp only [hto, setWidth_ofNat_eq_zero hlt]
  by_cases hzero : handle = 0
  · rw [if_pos hzero] at h
    cases h
    refine ⟨.disconnect, fun first => ?_⟩
    simp only [if_pos hzero]
    exact ⟨_, _, rfl, rfl, by rw [hafter], by rw [hafter]⟩
  · rw [if_neg hzero] at h
    split at h
    · cases h
    · rename_i ret hadd
      cases h
      refine ⟨ret, fun first => ?_⟩
      rw [hclient] at hadd
      simp only [if_neg hzero, addFlowsTo_of_channel hadd]
      exact ⟨_, _, rfl, rfl, by rw [hafter], by rw [hafter]⟩

/-- Every call of `cgnat_accelerate` over the channel that returns is a call over what the
channel has returned, with the same result and the same table of clients. -/
theorem accelerate_of_channel {call : Call} {ok : Bool}
    (hfd : ∀ fd, call.connect.fd = some fd → fd < 2 ^ 32)
    (h : cgnatAccelerate call s = .ok (ok, s')) :
    ∃ request outcome after, request.id = call.id ∧ accelerate request s = .ok (outcome, after) ∧
      outcome.nonzero = ok ∧ after.clients = s'.clients ∧ after.types = s'.types := by
  unfold cgnatAccelerate at h
  split at h
  · cases h
  · rename_i hid
    split at h
    · cases h
    · rename_i i s₁ hregister
      dsimp only at h
      by_cases hconnected : accClientIsConnected (s₁.client i) = true
      · rw [if_pos hconnected] at h
        split at h
        · cases h
        · rename_i ret hadd
          have hto := addFlowsTo_of_channel hadd
          split at h
          · rename_i hlost
            split at h
            · cases h
            · rename_i handle s₂ hconnect
              obtain ⟨second, hreconnect⟩ := reconnect_of_channel
                [((s₁.client i).handle, ret)] hfd hconnect h
              obtain ⟨outcome, after, hrun, hsame⟩ := hreconnect ret
              refine ⟨⟨call.id, ret, BitVec.ofNat 64 handle, second⟩, outcome, after, rfl, ?_,
                hsame⟩
              simp only [accelerate, if_neg hid, hregister, if_pos hconnected, hto, if_pos hlost]
              exact hrun
          · rename_i hkept
            cases h
            refine ⟨⟨call.id, ret, 0, ret⟩,
              ⟨0, [((s'.client i).handle, ret)], ret = .flowsAccept⟩, s', rfl, ?_, rfl, rfl, rfl⟩
            simp only [accelerate, if_neg hid, hregister, if_pos hconnected, hto, if_neg hkept]
      · rw [if_neg hconnected] at h
        simp only [if_true] at h
        split at h
        · cases h
        · rename_i handle s₂ hconnect
          obtain ⟨second, hreconnect⟩ := reconnect_of_channel [] hfd hconnect h
          obtain ⟨outcome, after, hrun, hsame⟩ := hreconnect .disconnect
          refine ⟨⟨call.id, .disconnect, BitVec.ofNat 64 handle, second⟩, outcome, after, rfl, ?_,
            hsame⟩
          simp only [accelerate, if_neg hid, hregister, if_neg hconnected]
          exact hrun

def requestOf (handle : BitVec 64) (id : ℕ) : Request where
  id := id
  first := .disconnect
  handle := handle
  second := .flowsAccept

/-- Two calls of one thread are within the bound. -/
theorem two_calls_return : Each step Returns .start [requestOf 3 1, requestOf 4 1] :=
  (calls_return_iff [requestOf 3 1, requestOf 4 1] (by simp [requestOf])).mpr (by decide)

/-- The call of the 33rd thread fails the assertion on its client. -/
theorem last_thread_asserts : ¬ ∀ requests : List Request,
    (∀ request ∈ requests, request.id ≠ 0) → Each step Returns .start requests := by
  intro hall
  have hreturns := hall ((List.range 33).map fun i => requestOf 0 (i + 1)) (by simp [requestOf])
  obtain ⟨s, hexec⟩ := hreturns.exec_ok fun s request ⟨outcome, s', hcall, _⟩ => ⟨s', by
    unfold step
    rw [hcall]⟩
  have hstop : exec step .start ((List.range 33).map fun i => requestOf 0 (i + 1)) =
      .error (.assertion .cgnatAccelerate) := by decide +kernel
  rw [hstop] at hexec
  cases hexec

end BeLa.PacketPath
