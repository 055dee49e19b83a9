import BeLa.PacketPath

/-!
The table of clients over any sequence of registrations and connects. The clients
that are registered stand in front of the free entries, so the scans that stop at
the first free entry see all of them, and each registration either finds its
client or takes the next place.
-/
namespace BeLa.ClientTable

open Stops Accelerate ChannelOwnership PacketPath Runs PrefixTables

/-- `acc_client_register` of an id, or `acc_client_connect` of a client that an earlier one has
returned, where the `connect` of the channel type returns the handle. -/
inductive ClientCall
  | register (id : ℕ)
  | connect (i : ℕ) (handle : BitVec 64)
  deriving DecidableEq, Repr

def clientStep (s : Vnf) : ClientCall → Except Stop Vnf
  | .register id => .ok (accClientRegister id s).2
  | .connect i handle =>
    match connectTo handle i s with
    | .error stop => .error stop
    | .ok (_, s') => .ok s'

def Legal (s : Vnf) : ClientCall → Prop
  | .register id => id ≠ 0
  | .connect i _ => (s.client i).id ≠ 0

def present (s : Vnf) : ℕ := (s.clients.filter fun client => client.id ≠ 0).length

/-- What a call is to do. A known id gets its own client and nothing changes. A new id gets the
next entry, without a handle and with the first channel type, or NULL when the table is full. A
connect writes the handle of its client. No call touches the other entries. -/
def Serves (s : Vnf) : ClientCall → Prop
  | .register id =>
    (∀ i, (s.client i).id = id → accClientRegister id s = (some i, s)) ∧
    ((∀ i, (s.client i).id ≠ id) →
      if present s < accClientMaxSize then
        ∃ s', accClientRegister id s = (some (present s), s') ∧
          s'.client (present s) = ⟨id, 0, accGetFirstVsocketType s.types⟩ ∧
          ∀ j, j ≠ present s → s'.client j = s.client j
      else accClientRegister id s = (none, s))
  | .connect i handle =>
    ∃ ret s', connectTo handle i s = .ok (ret, s') ∧
      s'.client i = { s.client i with handle := handle.toNat } ∧
      ∀ j, j ≠ i → s'.client j = s.client j

/-- The clients stand in front under pairwise different ids; their channel type is the first one,
which is the type that was registered first. -/
structure InOrder (s : Vnf) : Prop where
  clients : Ordered AccClient.id .zero accClientMaxSize s.clients
  first : accGetFirstVsocketType s.types = some virtioChannel
  socket : ∀ i, (s.client i).id ≠ 0 → (s.client i).socket = some virtioChannel

/-- The registered clients of the table, all of the channel type that was registered first. -/
structure Registered (s : Vnf) (taken : List AccClient) : Prop where
  packed : Packed s taken
  virtio : ∀ client ∈ taken, client.socket = some virtioChannel

variable {s s' : Vnf} {taken : List AccClient}

theorem registered_start : Registered .start [] := ⟨packed_start, by simp⟩

theorem client_used_iff (h : Packed s taken) (i : ℕ) :
    (s.client i).id ≠ 0 ↔ i < taken.length := h.filled.used_iff i

/-- Two entries in use with the same id are the same entry. -/
theorem client_inj (h : Packed s taken) {i j : ℕ} (hi : (s.client i).id ≠ 0)
    (hsame : (s.client i).id = (s.client j).id) : i = j := h.filled.index_inj hi hsame

theorem present_eq (h : Packed s taken) : present s = taken.length := by
  have hused : ∀ client : AccClient,
      decide (client.id ≠ 0) = true ↔ client.id ≠ AccClient.zero.id := fun _ => decide_eq_true_iff
  rw [present, h.filled.filter_used hused]

theorem first_eq (h : Packed s taken) : accGetFirstVsocketType s.types = some virtioChannel := by
  obtain ⟨rest, hrest⟩ := h.types
  rw [hrest]
  rfl

theorem inOrder_of_registered (h : Registered s taken) : InOrder s := by
  refine ⟨h.packed.filled.ordered, first_eq h.packed, fun i hi => ?_⟩
  rw [client_used_iff h.packed] at hi
  rw [h.packed.client_eq hi]
  exact h.virtio _ (List.getElem_mem hi)

theorem id_mem_iff (h : Packed s taken) {id : ℕ} (hid : id ≠ 0) :
    id ∈ taken.map AccClient.id ↔ ∃ i, (s.client i).id = id := by
  constructor
  · intro hmem
    obtain ⟨client, hclient, rfl⟩ := List.mem_map.mp hmem
    obtain ⟨i, hi, rfl⟩ := List.mem_iff_getElem.mp hclient
    exact ⟨i, by rw [h.client_eq hi]⟩
  · rintro ⟨i, rfl⟩
    have hi := (client_used_iff h i).mp hid
    rw [h.client_eq hi]
    exact List.mem_map_of_mem (List.getElem_mem hi)

/-- An id that is there has one entry, and its registration returns this entry. -/
theorem register_present (h : Packed s taken) {i : ℕ} (hi : (s.client i).id ≠ 0) :
    accClientRegister (s.client i).id s = (some i, s) := by
  have hlt := (client_used_iff h i).mp hi
  have hfound : taken.findIdx? (fun client => client.id = (s.client i).id) = some i := by
    rw [List.findIdx?_eq_some_iff_getElem]
    refine ⟨hlt, decide_eq_true (by rw [h.client_eq hlt]), fun j hj => ?_⟩
    rw [decide_eq_true_iff, ← h.client_eq (hj.trans hlt)]
    intro hsame
    have heq := client_inj h hi hsame.symm
    omega
  unfold accClientRegister
  rw [getById_eq h, hfound]

/-- The next free entry takes a new client. -/
theorem registered_append (h : Registered s taken) {id : ℕ}
    (hpacked : Packed s' (taken ++ [newClient id])) : Registered s' (taken ++ [newClient id]) := by
  refine ⟨hpacked, fun client hclient => ?_⟩
  rcases List.mem_append.mp hclient with hold | hnew
  · exact h.virtio client hold
  · rw [List.mem_singleton.mp hnew]
    rfl

theorem client_append (h : Packed s taken) {id : ℕ} (h' : Packed s' (taken ++ [newClient id])) :
    s'.client taken.length = newClient id ∧
      ∀ j, j ≠ taken.length → s'.client j = s.client j := by
  have hclient : ∀ j, s'.client j = (taken ++ [newClient id]).getD j .zero := h'.filled.getD_table
  constructor
  · rw [hclient, List.getD_eq_getElem?_getD, List.getElem?_concat_length, Option.getD_some]
  · intro j hj
    rw [hclient, show s.client j = taken.getD j .zero from h.filled.getD_table j,
      List.getD_eq_getElem?_getD, List.getD_eq_getElem?_getD]
    by_cases hlt : j < taken.length
    · rw [List.getElem?_append_left hlt]
    · have hlength : (taken ++ [newClient id]).length ≤ j := by
        rw [List.length_append, List.length_singleton]
        omega
      rw [List.getElem?_eq_none (show taken.length ≤ j by omega), List.getElem?_eq_none hlength]

/-- A connect writes one handle. -/
theorem client_withHandle (h : Packed s taken) (handle : BitVec 64) {i : ℕ}
    (hi : i < taken.length) (j : ℕ) : (withHandle handle i s).client j =
      if j = i then { s.client i with handle := handle.toNat } else s.client j := by
  have hroom := h.room
  rw [withHandle, client_set (by rw [h.length_clients]; omega)]

theorem registered_withHandle (h : Registered s taken) (handle : BitVec 64) {i : ℕ}
    (hi : i < taken.length) : ∃ taken', Registered (withHandle handle i s) taken' := by
  obtain ⟨taken', hpacked, hids⟩ := packed_withHandle h.packed hi handle
  have hlength : taken'.length = taken.length := by
    have heq := congrArg List.length hids
    rwa [List.length_map, List.length_map] at heq
  refine ⟨taken', hpacked, fun client hclient => ?_⟩
  obtain ⟨j, hj, rfl⟩ := List.mem_iff_getElem.mp hclient
  have hsocket : ∀ k, k < taken.length → (s.client k).socket = some virtioChannel := by
    intro k hk
    rw [h.packed.client_eq hk]
    exact h.virtio _ (List.getElem_mem hk)
  rw [← hpacked.client_eq hj, client_withHandle h.packed handle hi]
  split
  · exact hsocket i hi
  · exact hsocket j (hlength ▸ hj)

/-- Each call does what it is to do, and the table stays filled from the front. -/
theorem call_serves (h : Registered s taken) {call : ClientCall} (hlegal : Legal s call) :
    Serves s call ∧ ∃ s' taken', clientStep s call = .ok s' ∧ Registered s' taken' := by
  cases call with
  | register id =>
    by_cases hknown : ∃ i, (s.client i).id = id
    · obtain ⟨i, rfl⟩ := hknown
      have hregister := register_present h.packed hlegal
      refine ⟨⟨fun j hj => ?_, fun hnew => absurd rfl (hnew i)⟩, s, taken, ?_, h⟩
      · rw [hregister, client_inj h.packed hlegal hj.symm]
      · rw [clientStep, hregister]
    · have hid : id ∉ taken.map AccClient.id := fun hmem =>
        hknown ((id_mem_iff h.packed hlegal).mp hmem)
      by_cases hroom : taken.length < accClientMaxSize
      · obtain ⟨s', hregister, hpacked⟩ := register_new h.packed hid hlegal hroom
        obtain ⟨hhere, hothers⟩ := client_append h.packed hpacked
        refine ⟨⟨fun i hi => absurd ⟨i, hi⟩ hknown, fun _ => ?_⟩, s', _, ?_,
          registered_append h hpacked⟩
        · rw [present_eq h.packed, if_pos hroom, first_eq h.packed]
          exact ⟨s', hregister, hhere, hothers⟩
        · rw [clientStep, hregister]
      · have hregister := register_full h.packed hid hroom
        refine ⟨⟨fun i hi => absurd ⟨i, hi⟩ hknown, fun _ => ?_⟩, s, taken, ?_, h⟩
        · rw [present_eq h.packed, if_neg hroom]
          exact hregister
        · rw [clientStep, hregister]
  | connect i handle =>
    have hi := (client_used_iff h.packed i).mp hlegal
    have hconnect := connectTo_eq h.packed hi handle
    have hclients := client_withHandle h.packed handle hi
    obtain ⟨taken', hregistered⟩ := registered_withHandle h handle hi
    refine ⟨⟨_, _, hconnect, ?_, fun j hj => ?_⟩, _, taken', ?_, hregistered⟩
    · rw [hclients, if_pos rfl]
    · rw [hclients, if_neg hj]
    · simp only [clientStep, hconnect]

theorem registered_step (s : Vnf) (call : ClientCall) (s' : Vnf)
    (h : ∃ taken, Registered s taken) (hlegal : Legal s call)
    (hstep : clientStep s call = .ok s') : ∃ taken, Registered s' taken := by
  obtain ⟨taken, h⟩ := h
  obtain ⟨-, s₁, taken', hcall, hregistered⟩ := call_serves h hlegal
  rw [hcall] at hstep
  cases hstep
  exact ⟨taken', hregistered⟩

/-- In every run of registrations and connects each call is served, and the clients stand in
front of the table, each under an id of its own and with the first channel type. -/
theorem clients_served (calls : List ClientCall) (hlegal : Each clientStep Legal .start calls) :
    Each clientStep Serves .start calls ∧ Along clientStep InOrder .start calls ∧
      ∃ s', exec clientStep .start calls = .ok s' := by
  have hstart : ∃ taken, Registered .start taken := ⟨[], registered_start⟩
  have hserves : Each clientStep Serves .start calls := by
    refine hlegal.mono registered_step (fun s call h hcall => ?_) hstart
    obtain ⟨taken, h⟩ := h
    exact (call_serves h hcall).1
  refine ⟨hserves, ?_, hserves.exec_ok fun s call hcall => ?_⟩
  · refine Along.mono (fun s h => ?_) (along_of_each registered_step hstart hlegal)
    obtain ⟨taken, h⟩ := h
    exact inOrder_of_registered h
  · cases call with
    | register id => exact ⟨_, rfl⟩
    | connect i handle =>
      obtain ⟨ret, s', hconnect, -⟩ := hcall
      exact ⟨s', by simp only [clientStep, hconnect]⟩

/-- Two clients register, the first one connects, and registers once more. -/
theorem clients_served_reconnect :
    Each clientStep Serves .start [.register 5, .register 7, .connect 0 3, .register 5] ∧
      Along clientStep InOrder .start [.register 5, .register 7, .connect 0 3, .register 5] ∧
      ∃ s', exec clientStep .start [.register 5, .register 7, .connect 0 3, .register 5] =
        .ok s' := by
  apply clients_served
  have hfive : (5 : ℕ) ≠ 0 := by omega
  have hseven : (7 : ℕ) ≠ 0 := by omega
  refine Each.cons hfive rfl (Each.cons hseven rfl (Each.cons ?_ rfl (Each.cons hfive rfl trivial)))
  show (Vnf.client _ 0).id ≠ 0
  decide

end BeLa.ClientTable
