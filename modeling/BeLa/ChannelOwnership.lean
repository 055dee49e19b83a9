import BeLa.Accelerate
import BeLa.Owners
import BeLa.Runs

/-!
Who owns the channel descriptors of the VNF. As long as no call loses the
channel of a connected client, each open descriptor is the handle of exactly one
client. A call that loses it reconnects by writing the new handle over the old
one, and the old descriptor stays open without an owner.
-/
namespace BeLa.ChannelOwnership

open Stops Plugin Framing Client Accelerate Owners Runs

def ChannelsOwned (s : Vnf) : Prop :=
  ∀ fd ∈ s.channels, ∃! i : ℕ, ∃ client : AccClient, s.clients[i]? = some client ∧
    client.id ≠ 0 ∧ client.handle = fd

/-- `acc_channel_open` returns a positive descriptor that is not open yet. -/
def Fresh (s : Vnf) (call : Call) : Prop :=
  ∀ fd, call.connect.fd = some fd → 0 < fd ∧ fd ∉ s.channels

/-- The request of the first `add_flows` is sent and answered, if the client is connected. -/
def KeepsChannel (s : Vnf) (call : Call) : Prop :=
  ∀ i, accClientGetById call.id s.clients = some i → accClientIsConnected (s.client i) →
    accUnixSendRecv (addFlowsMessage [call.flow]) call.first ≠ .ok none

def handles (s : Vnf) : ℕ → ℕ := fun i => (s.client i).handle

structure Sane (s : Vnf) : Prop where
  positive : 0 ∉ s.channels
  free : ∀ i, (s.client i).id = 0 → handles s i = 0
  opened : ∀ i, handles s i ≠ 0 → handles s i ∈ s.channels

variable {s s' : Vnf} {call : Call}

theorem channelsOwned_iff (hs : Sane s) : ChannelsOwned s ↔ Owned (handles s) s.channels := by
  refine forall_congr' fun fd => imp_congr_right fun hfd => ?_
  have hne : fd ≠ 0 := fun h => hs.positive (h ▸ hfd)
  refine existsUnique_congr fun i => ?_
  constructor
  · rintro ⟨client, hget, -, hhandle⟩
    rw [handles, Vnf.client, List.getD_eq_getElem?_getD, hget]
    exact hhandle
  · intro hhandle
    have hclient : s.clients[i]? = some (s.client i) := by
      rw [Vnf.client, List.getD_eq_getElem?_getD]
      cases hget : s.clients[i]? with
      | some client => rfl
      | none =>
        rw [handles, Vnf.client, List.getD_eq_getElem?_getD, hget] at hhandle
        exact absurd hhandle.symm hne
    exact ⟨_, hclient, fun hid => hne (hhandle.symm.trans (hs.free i hid)), hhandle⟩

theorem sane_start : Sane .start := by
  have hclient : ∀ i, Vnf.start.client i = .zero := by
    intro i
    simp only [Vnf.client, Vnf.start, List.getD_eq_getElem?_getD, List.getElem?_replicate]
    split <;> rfl
  refine ⟨List.not_mem_nil, fun i _ => ?_, fun i hi => ?_⟩
  · rw [handles, hclient]
    rfl
  · rw [handles, hclient] at hi
    exact absurd rfl hi

/-- Writing an entry of the client table. -/
theorem client_set {types : List AccVsocketType} {channels : List ℕ} {i : ℕ}
    (hi : i < s.clients.length) (client : AccClient) (j : ℕ) :
    Vnf.client ⟨types, s.clients.set i client, channels⟩ j =
      if j = i then client else s.client j := by
  simp only [Vnf.client, List.getD_eq_getElem?_getD, List.getElem?_set]
  by_cases hij : i = j
  · subst hij
    simp [hi]
  · simp [hij, Ne.symm hij]

theorem handles_set {types : List AccVsocketType} {channels : List ℕ} {i : ℕ}
    (hi : i < s.clients.length) (client : AccClient) :
    handles ⟨types, s.clients.set i client, channels⟩ =
      Function.update (handles s) i client.handle := by
  funext j
  rw [handles, client_set hi]
  by_cases hj : j = i
  · subst hj
    rw [if_pos rfl, Function.update_self]
  · rw [if_neg hj, Function.update_of_ne hj]
    rfl

/-- A client is written, and descriptors are opened. -/
theorem sane_set (hs : Sane s) {types : List AccVsocketType} {channels : List ℕ} {i : ℕ}
    (hi : i < s.clients.length) {client : AccClient} (hid : client.id ≠ 0)
    (hzero : 0 ∉ channels) (hgrown : ∀ fd ∈ s.channels, fd ∈ channels)
    (hhandle : client.handle ≠ 0 → client.handle ∈ channels) :
    Sane ⟨types, s.clients.set i client, channels⟩ := by
  refine ⟨hzero, fun j hj => ?_, fun j hj => ?_⟩
  · rw [client_set hi] at hj
    rw [handles_set hi]
    by_cases hji : j = i
    · rw [if_pos hji] at hj
      exact absurd hj hid
    · rw [if_neg hji] at hj
      rw [Function.update_of_ne hji]
      exact hs.free j hj
  · rw [handles_set hi] at hj ⊢
    by_cases hji : j = i
    · subst hji
      rw [Function.update_self] at hj ⊢
      exact hhandle hj
    · rw [Function.update_of_ne hji] at hj ⊢
      exact hgrown _ (hs.opened j hj)

theorem client_eq {i : ℕ} (hi : i < s.clients.length) : s.client i = s.clients[i] := by
  rw [Vnf.client, List.getD_eq_getElem?_getD, List.getElem?_eq_getElem hi, Option.getD_some]

theorem accClientAdd_virtio (id : ℕ) (s : Vnf) :
    accClientAdd id none s =
      match accClientGetLastIdx s.clients with
      | none => (none, s)
      | some idx =>
        match accGetFirstVsocketType (accVsocketUnixRegister s.types).2 with
        | none => (none, { s with types := (accVsocketUnixRegister s.types).2 })
        | some socket => (some idx, { s with
            types := (accVsocketUnixRegister s.types).2
            clients := s.clients.set idx ⟨id, 0, some socket⟩ }) := by
  rfl

theorem getById_spec {id i : ℕ} (h : accClientGetById id s.clients = some i) :
    i < s.clients.length ∧ (s.client i).id = id := by
  obtain ⟨hlt, hhere, -⟩ := List.findIdx?_eq_some_iff_getElem.mp h
  have hprefix := List.takeWhile_prefix (l := s.clients) fun client => client.id ≠ 0
  have hlt' : i < s.clients.length := hlt.trans_le hprefix.length_le
  refine ⟨hlt', ?_⟩
  rw [client_eq hlt', ← hprefix.getElem hlt]
  simpa using hhere

theorem getLastIdx_spec {i : ℕ} (h : accClientGetLastIdx s.clients = some i) :
    i < s.clients.length ∧ (s.client i).id = 0 := by
  obtain ⟨hlt, hhere, -⟩ := List.findIdx?_eq_some_iff_getElem.mp h
  refine ⟨hlt, ?_⟩
  rw [client_eq hlt]
  simpa using hhere

/-- What `acc_client_register` returns is an entry with the id; no handle changes. -/
theorem register_spec {id i : ℕ} (hs : Sane s) (hid : id ≠ 0)
    (h : accClientRegister id s = (some i, s')) :
    Sane s' ∧ s'.channels = s.channels ∧ handles s' = handles s ∧ i < s'.clients.length ∧
      (s'.client i).id ≠ 0 ∧
      (accClientGetById id s.clients = some i ∨
        accClientGetById id s.clients = none ∧ handles s i = 0) := by
  unfold accClientRegister at h
  split at h
  · rename_i idx hfound
    cases h
    obtain ⟨hlt, hhere⟩ := getById_spec hfound
    exact ⟨hs, rfl, rfl, hlt, hhere ▸ hid, .inl hfound⟩
  · rename_i hnone
    rw [accClientAdd_virtio] at h
    split at h
    · cases h
    · rename_i idx hfree
      split at h
      · cases h
      · rename_i socket _
        cases h
        obtain ⟨hlt, hhere⟩ := getLastIdx_spec hfree
        have hzero : handles s i = 0 := hs.free i hhere
        have hsame : Function.update (handles s) i 0 = handles s := by
          rw [← hzero, Function.update_eq_self]
        refine ⟨sane_set hs hlt hid hs.positive (fun _ h => h) (absurd rfl), rfl, ?_, ?_, ?_, ?_⟩
        · rw [handles_set hlt, hsame]
        · rwa [List.length_set]
        · rw [client_set hlt, if_pos rfl]
          exact hid
        · exact .inr ⟨hnone, hzero⟩

/-- A connect opens a descriptor and returns it, or leaves none open and returns NULL. -/
theorem connectHandle_spec {run : ConnectRun} {channels channels' : List ℕ} {handle : ℕ}
    (h : accChannelConnectHandle run channels = .ok (handle, channels')) :
    handle = 0 ∧ channels' = channels ∨
      run.fd = some handle ∧ channels' = handle :: channels := by
  unfold accChannelConnectHandle at h
  split at h
  · cases h
    exact .inl ⟨rfl, rfl⟩
  · rename_i fd hfd
    split at h
    · cases h
    · cases h
      exact .inr ⟨hfd, rfl⟩
    · cases h
      exact .inl ⟨rfl, List.erase_cons_head _ _⟩

theorem connect_eq {run : ConnectRun} {i handle : ℕ}
    (h : accClientConnect run i s = .ok (handle, s')) :
    ∃ channels, accChannelConnectHandle run s.channels = .ok (handle, channels) ∧
      s' = ⟨s.types, s.clients.set i { s.client i with handle := handle }, channels⟩ := by
  unfold accClientConnect at h
  split at h
  · cases h
  · split at h
    · cases h
    · split at h
      · cases h
      · rename_i hconnect
        cases h
        exact ⟨_, hconnect, rfl⟩

/-- `acc_client_connect` writes the new handle over the old one. -/
theorem connect_spec {run : ConnectRun} {i handle : ℕ} (hs : Sane s) (hi : i < s.clients.length)
    (hid : (s.client i).id ≠ 0) (hfresh : ∀ fd, run.fd = some fd → 0 < fd ∧ fd ∉ s.channels)
    (h : accClientConnect run i s = .ok (handle, s')) :
    Sane s' ∧ handles s' = Function.update (handles s) i handle ∧
      (handle = 0 ∧ s'.channels = s.channels ∨
        run.fd = some handle ∧ s'.channels = handle :: s.channels) := by
  obtain ⟨channels, hconnect, rfl⟩ := connect_eq h
  have hopened := connectHandle_spec hconnect
  refine ⟨sane_set hs hi hid ?_ ?_ ?_, handles_set hi _, hopened⟩
  · rcases hopened with ⟨-, rfl⟩ | ⟨hfd, rfl⟩
    · exact hs.positive
    · rw [List.mem_cons, not_or]
      exact ⟨(hfresh handle hfd).1.ne, hs.positive⟩
  · intro fd hfd
    rcases hopened with ⟨-, rfl⟩ | ⟨-, rfl⟩
    · exact hfd
    · exact List.mem_cons_of_mem _ hfd
  · intro hne
    rcases hopened with ⟨hzero, -⟩ | ⟨-, rfl⟩
    · exact absurd hzero hne
    · exact List.mem_cons_self

/-- A connected client returns DISCONNECT exactly when its request is not answered. -/
theorem addFlows_disconnect_iff {client : AccClient} {flows : List Flow.AccFlow} {link : Link}
    {ret : ErrorCode} (h : accClientAddFlows client flows link = .ok ret) :
    ret = .disconnect ↔ accUnixSendRecv (addFlowsMessage flows) link = .ok none := by
  unfold accClientAddFlows at h
  split at h
  · cases h
  · split at h
    · cases h
    · split at h
      · cases h
      · unfold accChannelAddFlows at h
        split at h
        · cases h
        · rename_i hnone
          cases h
          exact iff_of_true rfl hnone
        · rename_i reply hsome
          split at h
          · cases h
            exact iff_of_false (by decide) (by simp [hsome])
          · cases h
            exact iff_of_false (by decide) (by simp [hsome])

theorem connected_iff (s : Vnf) (i : ℕ) : accClientIsConnected (s.client i) ↔ handles s i ≠ 0 :=
  decide_eq_true_iff

/-- What the first attempt of a call says about its channel. -/
theorem first_attempt {s₁ : Vnf} {i : ℕ} (hhandles : handles s₁ = handles s)
    (hfound : accClientGetById call.id s.clients = some i ∨
      accClientGetById call.id s.clients = none ∧ handles s i = 0) {ret : ErrorCode}
    (hret : (if accClientIsConnected (s₁.client i)
      then accClientAddFlows (s₁.client i) [call.flow] call.first else .ok .disconnect) = .ok ret) :
    if ret = .disconnect then KeepsChannel s call ↔ handles s i = 0 else KeepsChannel s call := by
  have hsame : accClientIsConnected (s₁.client i) ↔ handles s i ≠ 0 := by
    rw [connected_iff, hhandles]
  by_cases hzero : handles s i = 0
  · have hkeeps : KeepsChannel s call := by
      intro k hk hconnected
      rcases hfound with hsome | ⟨hnone, -⟩
      · cases hk.symm.trans hsome
        exact absurd hzero ((connected_iff s i).mp hconnected)
      · cases hk.symm.trans hnone
    split
    · exact iff_of_true hkeeps hzero
    · exact hkeeps
  · have hsome : accClientGetById call.id s.clients = some i :=
      hfound.resolve_right fun h => hzero h.2
    rw [if_pos (hsame.mpr hzero)] at hret
    have hlost := addFlows_disconnect_iff hret
    split
    · rename_i hdisconnect
      refine iff_of_false (fun hkeeps => ?_) hzero
      exact hkeeps i hsome ((connected_iff s i).mpr hzero) (hlost.mp hdisconnect)
    · rename_i hother
      intro k _ _ hnone
      exact hother (hlost.mpr hnone)

/-- A call that returns keeps the channel of its client, or connects and writes the handle of
its client, whatever the connect has returned. -/
theorem accelerate_cases (hs : Sane s) (hfresh : Fresh s call) (h : vnfStep s call = .ok s') :
    Sane s' ∧ (KeepsChannel s call ∧ handles s' = handles s ∧ s'.channels = s.channels ∨
      ∃ i handle, (KeepsChannel s call ↔ handles s i = 0) ∧
        handles s' = Function.update (handles s) i handle ∧
          (handle = 0 ∧ s'.channels = s.channels ∨
            call.connect.fd = some handle ∧ s'.channels = handle :: s.channels)) := by
  unfold vnfStep at h
  split at h
  · cases h
  · rename_i ok after hrun
    cases h
    unfold cgnatAccelerate at hrun
    split at hrun
    · cases hrun
    · rename_i hid
      split at hrun
      · cases hrun
      · rename_i i s₁ hregister
        obtain ⟨hs₁, hchannels, hhandles, hi, hid₁, hfound⟩ := register_spec hs hid hregister
        dsimp only at hrun
        split at hrun
        · cases hrun
        · rename_i ret hret
          have hfirst := first_attempt hhandles hfound hret
          split at hrun
          · rename_i hdisconnect
            rw [if_pos hdisconnect] at hfirst
            split at hrun
            · cases hrun
            · rename_i handle s₂ hconnect
              have hafter : s₂ = s' := by
                split at hrun
                · cases hrun
                  rfl
                · split at hrun
                  · cases hrun
                  · cases hrun
                    rfl
              subst hafter
              obtain ⟨hs₂, hupdate, hopened⟩ := connect_spec hs₁ hi hid₁
                (by rw [hchannels]; exact hfresh) hconnect
              rw [hhandles] at hupdate
              rw [hchannels] at hopened
              exact ⟨hs₂, .inr ⟨i, handle, hfirst, hupdate, hopened⟩⟩
          · rename_i hother
            rw [if_neg hother] at hfirst
            cases hrun
            exact ⟨hs₁, .inl ⟨hfirst, hhandles, hchannels⟩⟩

/-- A call that keeps the channel of its client keeps the ownership. -/
theorem owned_step (hs : Sane s) (hfresh : Fresh s call) (hkeeps : KeepsChannel s call)
    (howned : ChannelsOwned s) (h : vnfStep s call = .ok s') : Sane s' ∧ ChannelsOwned s' := by
  obtain ⟨hs', hcases⟩ := accelerate_cases hs hfresh h
  rw [channelsOwned_iff hs] at howned
  rw [channelsOwned_iff hs']
  refine ⟨hs', ?_⟩
  rcases hcases with ⟨-, hhandles, hchannels⟩ | ⟨i, handle, hiff, hhandles, hopened⟩
  · rw [hhandles, hchannels]
    exact howned
  · have hzero : handles s i = 0 := hiff.mp hkeeps
    rcases hopened with ⟨rfl, hchannels⟩ | ⟨hfd, hchannels⟩
    · rw [hhandles, hchannels, ← hzero, Function.update_eq_self]
      exact howned
    · obtain ⟨hpositive, hnew⟩ := hfresh handle hfd
      rw [hhandles, hchannels]
      apply howned.insert (hzero ▸ hs.positive) hnew
      intro j hj
      apply hnew
      rw [← hj]
      exact hs.opened j (by omega)

/-- A call that loses the channel of its client leaves the old descriptor without an owner. -/
theorem lost_step (hs : Sane s) (hfresh : Fresh s call) (hlost : ¬ KeepsChannel s call)
    (howned : ChannelsOwned s) (h : vnfStep s call = .ok s') : ¬ ChannelsOwned s' := by
  obtain ⟨hs', hcases⟩ := accelerate_cases hs hfresh h
  rw [channelsOwned_iff hs] at howned
  rw [channelsOwned_iff hs']
  rcases hcases with ⟨hkeeps, -⟩ | ⟨i, handle, hiff, hhandles, hopened⟩
  · exact absurd hkeeps hlost
  · have hold : handles s i ∈ s.channels := hs.opened i fun hzero => hlost (hiff.mpr hzero)
    rw [hhandles]
    rcases hopened with ⟨rfl, hchannels⟩ | ⟨hfd, hchannels⟩
    · apply howned.lost hold
      · rintro hzero
        exact hs.positive (hzero ▸ hold)
      · rwa [hchannels]
    · apply howned.lost hold
      · rintro rfl
        exact (hfresh _ hfd).2 hold
      · rw [hchannels]
        exact List.mem_cons_of_mem _ hold

/-- Along every run whose calls keep the channels of their clients each open descriptor has
exactly one owner; and a run of calls that return has this property only if they do. -/
theorem channels_owned (calls : List Call) (hfresh : Each vnfStep Fresh .start calls) :
    (Each vnfStep KeepsChannel .start calls → Along vnfStep ChannelsOwned .start calls) ∧
      ∀ s, exec vnfStep .start calls = .ok s → Along vnfStep ChannelsOwned .start calls →
        Each vnfStep KeepsChannel .start calls := by
  have hstart : Sane .start ∧ ChannelsOwned .start := by
    refine ⟨sane_start, fun fd hfd => ?_⟩
    cases hfd
  constructor
  · intro hkeeps
    refine Along.mono (fun s hs => hs.2)
      (along_of_each (I := fun s => Sane s ∧ ChannelsOwned s) ?_ hstart (hfresh.and hkeeps))
    intro s call s' hs hcall h
    exact owned_step hs.1 hcall.1 hcall.2 hs.2 h
  · intro s hexec howned
    refine each_of_along_of_exec (I := fun s => Sane s ∧ ChannelsOwned s) ?_ ?_ hstart hfresh
      hexec howned
    · intro s call s' hs hcall hkeeps h
      exact owned_step hs.1 hcall hkeeps hs.2 h
    · intro s call s' hs hcall hlost h
      exact lost_step hs.1 hcall hlost hs.2 h

def answering (msgType : BitVec 32) : Link where
  writes := [.moved 2048]
  ready := true
  inbound _ := ⟨AccMsgHeader.bytes ⟨16, accTypeFlow, msgType, accUnixSuccess⟩, [.moved 16]⟩

def silent : Link := { answering accUnixAddFlows with ready := false }

def callOn (fd : ℕ) (first : Link) : Call where
  id := 1
  flow := .plain 6
  first := first
  connect := ⟨some fd, some [], answering accUnixHello⟩
  second := answering accUnixAddFlows

set_option maxRecDepth 8192 in
/-- The first call of a thread connects it. -/
theorem first_call : ∃ s, vnfStep .start (callOn 3 silent) = .ok s ∧ s.channels = [3] :=
  ⟨_, rfl, rfl⟩

theorem fresh_callOn {fd : ℕ} (hfd : 0 < fd) (hnew : fd ∉ s.channels) (first : Link) :
    Fresh s (callOn fd first) := by
  intro fd' heq
  cases heq
  exact ⟨hfd, hnew⟩

theorem fresh_calls (first : Link) :
    Each vnfStep Fresh .start [callOn 3 silent, callOn 4 first] := by
  obtain ⟨s₁, hstep, hchannels⟩ := first_call
  apply Each.cons (fresh_callOn (by omega) List.not_mem_nil silent) hstep
  refine ⟨fresh_callOn (by omega) ?_ first, fun _ _ => trivial⟩
  rw [hchannels]
  decide

/-- Two calls of one thread: the first connects, and the second keeps the channel. -/
theorem channels_owned_two_calls :
    Each vnfStep Fresh .start [callOn 3 silent, callOn 4 (answering accUnixAddFlows)] ∧
      Along vnfStep ChannelsOwned .start
        [callOn 3 silent, callOn 4 (answering accUnixAddFlows)] := by
  have hfresh := fresh_calls (answering accUnixAddFlows)
  refine ⟨hfresh, (channels_owned _ hfresh).1 ?_⟩
  have hanswer : ∀ s, KeepsChannel s (callOn 4 (answering accUnixAddFlows)) := by
    intro s i _ _ hnone
    have hsome : ∃ reply, accUnixSendRecv (addFlowsMessage [.plain 6])
        (answering accUnixAddFlows) = .ok (some reply) := ⟨_, rfl⟩
    obtain ⟨reply, hsome⟩ := hsome
    cases hnone.symm.trans hsome
  have hstart : KeepsChannel .start (callOn 3 silent) := by
    intro i hi
    cases (show accClientGetById 1 Vnf.start.clients = none from rfl).symm.trans hi
  exact ⟨hstart, fun s _ => ⟨hanswer s, fun _ _ => trivial⟩⟩

/-- The answer to the second call does not come: the client reconnects as 4, and 3 stays open. -/
theorem reconnect_leaves_descriptor :
    ¬ ∀ calls, Each vnfStep Fresh .start calls → Along vnfStep ChannelsOwned .start calls := by
  intro hall
  have howned := hall _ (fresh_calls silent)
  obtain ⟨s, hexec, hopen, hnone⟩ : ∃ s, exec vnfStep .start [callOn 3 silent, callOn 4 silent] =
      .ok s ∧ 3 ∈ s.channels ∧ ∀ client ∈ s.clients, client.handle ≠ 3 :=
    exists_of_eval (by decide +kernel)
  have hend := (along_iff_reached _ _).mp howned _ s (List.prefix_refl _) hexec
  obtain ⟨i, ⟨client, hget, -, hhandle⟩, -⟩ := hend 3 hopen
  exact hnone client (List.mem_of_getElem? hget) hhandle

end BeLa.ChannelOwnership
