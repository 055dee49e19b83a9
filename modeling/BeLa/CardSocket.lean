import BeLa.Invariant
import BeLa.Writes

/-!
The socket behind a card's channel. `unix_socket_clnt_init` copies the path of the
card to `sun_path` with the size of the whole address less one for a bound, so the
copy always ends behind the field, and of a path that is longer than the field
only the part inside it is connected to.
-/
namespace BeLa.CardSocket

open LittleEndian Runs Stops Writes Switch Context Card Channel Command Paths Steps Invariant

/-- `sizeof(struct sockaddr_un)`: the family and `sun_path`. -/
def sockaddrUnSize : ℕ := 2 + sunPathSize

/-- The copy of a path to `sun_path`, with the bound that `strncpy` is given. -/
def addressCopy (bound : ℕ) (path : Bytes) : Write Byte := ⟨0, strncpy path bound⟩

/-- The stores of `unix_socket_clnt_init` to `sun_path`. -/
def addressWrites (path : Bytes) (run : OpenRun) : List (Write Byte) :=
  if run.access ∧ run.socket then [addressCopy (sockaddrUnSize - 1) path] else []

/-- The name that `connect` reads after the copy: `sun_path` was zeroed, the given bytes
stand behind it. -/
def connectName (bound : ℕ) (path behind : Bytes) : Bytes :=
  cString ((put (List.replicate sunPathSize 0 ++ behind) (addressCopy bound path)).take sunPathSize)

/-! The copied name. -/

theorem zero_not_mem_path (card : BeCardInner) : 0 ∉ card.path := zero_not_mem_cString _

/-- A path without a zero is copied up to the bound, and zeros behind it. -/
theorem strncpy_path {path : Bytes} (h : 0 ∉ path) (bound : ℕ) :
    strncpy path bound = path.take bound ++ List.replicate (bound - path.length) 0 := by
  have hstring : cString (path.take bound) = path.take bound := by
    apply cString_of_not_mem
    exact fun hmem => h (List.mem_of_mem_take hmem)
  rw [strncpy, hstring, List.length_take]
  congr 2
  omega

theorem connectName_eq (bound : ℕ) (path behind : Bytes) :
    connectName bound path behind = cString ((strncpy path bound ++
      (List.replicate sunPathSize 0 ++ behind).drop bound).take sunPathSize) := by
  have hput := put_append [] (strncpy path bound) (List.replicate sunPathSize 0 ++ behind)
  rw [List.nil_append, List.nil_append, Handling.length_strncpy, List.length_nil] at hput
  rw [connectName, addressCopy, hput]

/-- With a bound beyond the field the name is what of the path is inside the field. -/
theorem connectName_of_ge {bound : ℕ} {path : Bytes} (h : 0 ∉ path) (hbound : sunPathSize ≤ bound)
    (behind : Bytes) : connectName bound path behind = path.take sunPathSize := by
  have hlength : sunPathSize ≤ (strncpy path bound).length := by
    rwa [Handling.length_strncpy]
  have hfront : 0 ∉ path.take sunPathSize := fun hmem => h (List.mem_of_mem_take hmem)
  rw [connectName_eq, List.take_append_of_le_length hlength, strncpy_path h, List.take_append,
    List.take_take, Nat.min_eq_left hbound, List.take_replicate, cString_zeros,
    cString_of_not_mem hfront]

theorem not_within_addressCopy (path : Bytes) :
    ¬ (addressCopy (sockaddrUnSize - 1) path).Within sunPathSize := by
  simp only [Write.Within, addressCopy, Handling.length_strncpy, sockaddrUnSize]
  have hsize : 0 < sunPathSize := by decide
  omega

/-- The name `unix_socket_clnt_init` connects to, whatever stands behind `sun_path`. -/
theorem unixSocketClntInit_eq (path behind : Bytes) (run : OpenRun) :
    unixSocketClntInit path run =
      if run.access ∧ run.socket ∧ run.connect then
        some (connectName (sockaddrUnSize - 1) path behind)
      else none := by
  have hname : connectName (sockaddrUnSize - 1) path behind =
      cString ((strncpy path (sunPathSize + 2 - 1)).take sunPathSize) := by
    have hlength : sunPathSize ≤ (strncpy path (sockaddrUnSize - 1)).length := by
      rw [Handling.length_strncpy]
      decide
    rw [connectName_eq, List.take_append_of_le_length hlength]
    rfl
  rw [hname, unixSocketClntInit]
  cases run.access <;> cases run.socket <;> cases run.connect <;> simp

theorem socket_of_path {card : BeCardInner} {socket : Bytes} {run : OpenRun}
    (h : unixSocketClntInit card.path run = some socket) :
    socket = card.path.take sunPathSize := by
  rw [unixSocketClntInit_eq card.path [] run, connectName_of_ge (zero_not_mem_path card)
    (by decide)] at h
  split_ifs at h
  exact (Option.some.inj h).symm

/-! One call of `vm_channel_open`. -/

variable {s s' : Daemon}

structure OpenMeets (s : Daemon) (path : Bytes) (run : OpenRun) : Prop where
  named : (∃ s', vmChannelOpen path run s = .ok (false, s')) ∨
    unixSocketClntInit path run = some path
  inside : ∀ w ∈ addressWrites path run, w.Within sunPathSize

theorem openMeets_iff (s : Daemon) (path : Bytes) (run : OpenRun) :
    OpenMeets s path run ↔ ¬ (run.access ∧ run.socket) := by
  constructor
  · intro h hreached
    apply not_within_addressCopy path
    apply h.inside
    rw [addressWrites, if_pos hreached]
    exact List.mem_singleton_self _
  · intro hfails
    have hnone : unixSocketClntInit path run = none := by
      rw [unixSocketClntInit_eq path [] run, if_neg]
      exact fun hreached => hfails ⟨hreached.1, hreached.2.1⟩
    refine ⟨.inl ⟨s, ?_⟩, ?_⟩
    · simp only [vmChannelOpen, hnone]
    · rw [addressWrites, if_neg hfails]
      simp

/-- An event that a call adds belongs to the card of the path, and is on the socket that
the call connected to. -/
theorem open_event {path : Bytes} {run : OpenRun} {ok : Bool} {e : ReadEvent}
    (h : vmChannelOpen path run s = .ok (ok, s')) (he : e ∈ s'.events) :
    e ∈ s.events ∨ ∃ card ∈ s'.cards, card.addr = e.arg ∧ card.path = path ∧
      unixSocketClntInit path run = some e.socket := by
  rcases open_spec h with ⟨-, rfl⟩ | ⟨card, hcard, ⟨-, rfl⟩ | ⟨socket, -, hsocket, rfl⟩⟩
  · exact .inl he
  · exact .inl he
  · obtain ⟨hmem, hpath⟩ := named_some hcard
    rcases List.mem_append.mp he with hold | hnew
    · exact .inl hold
    · obtain rfl := List.mem_singleton.mp hnew
      refine .inr ⟨{ card with readEvent := some s.shared.nextAddr }, ?_, rfl, hpath, hsocket⟩
      exact mem_writeCard.mpr (.inl ⟨rfl, card, hmem, rfl⟩)

/-- The event of a channel that opens is on the socket that the path names within the field. -/
theorem opened_socket {card : BeCardInner} {run : OpenRun}
    (h : vmChannelOpen card.path run s = .ok (true, s')) :
    ∃ e, s'.events = s.events ++ [e] ∧ e.socket = card.path.take sunPathSize := by
  rcases open_spec h with ⟨hfails, -⟩ | ⟨card, -, ⟨hfails, -⟩ | ⟨socket, -, hsocket, rfl⟩⟩
  · cases hfails
  · cases hfails
  · exact ⟨_, rfl, socket_of_path hsocket⟩

/-! Whole runs. -/

structure Armed (s : Daemon) (e : ReadEvent) (card : BeCardInner) : Prop where
  event : e ∈ s.events
  listed : card ∈ s.cards
  addr : card.addr = e.arg

def SocketsNamed (s : Daemon) : Prop :=
  ∀ e card, Armed s e card → e.socket = card.path.take sunPathSize

/-- A card with an address that was in use keeps its record in every round. -/
theorem former_card {ev : DaemonEvent} {card : BeCardInner} (hs : Consistent s)
    (h : daemonStep s ev = .ok s') (hcard : card ∈ s'.cards)
    (haddr : card.addr < s.shared.nextAddr) :
    ∃ former ∈ s.cards, former.addr = card.addr ∧ former.path = card.path := by
  have hadded : ∀ {new : BeCardInner}, new.addr = s.shared.nextAddr →
      s'.cards.Perm (new :: s.cards) → card ∈ s.cards := by
    intro new hnew hcards
    rcases List.mem_cons.mp (hcards.mem_iff.mp hcard) with rfl | hold
    · exact absurd hnew haddr.ne
    · exact hold
  cases change_of_step hs h with
  | idle => exact ⟨card, hcard, rfl, rfl⟩
  | registered new _ hblank hcards => exact ⟨card, hadded hblank.addr hcards, rfl, rfl⟩
  | opened new socket _ hblank _ hcards =>
    have haddr' : ({ new with readEvent := some (s.shared.nextAddr + 1) } : BeCardInner).addr =
        s.shared.nextAddr := hblank.addr
    exact ⟨card, hadded haddr' hcards, rfl, rfl⟩
  | unregistered gone _ hcards =>
    exact ⟨card, hcards.mem_iff.mpr (List.mem_cons_of_mem _ hcard), rfl, rfl⟩
  | handled e old new msg shared he hold _ _ hhandles =>
    obtain ⟨hsame, hrecord, -⟩ := handles_keeps (hs.sound old hold) hhandles
    rcases mem_writeCard.mp hcard with ⟨rfl, -⟩ | ⟨hkept, -⟩
    · refine ⟨old, hold, hsame.symm, ?_⟩
      rw [BeCardInner.path, BeCardInner.path, hrecord]
    · exact ⟨card, hkept, rfl, rfl⟩
  | closed e old context he hold _ _ _ hcards =>
    exact ⟨card, ((closed_cards hs hcards).2 card hcard).1, rfl, rfl⟩

theorem registered_event {cmd : CmdHdr} {behind : Bytes} {env : CommandWorld} {ok : Bool}
    {e : ReadEvent} (htype : cmd.cmdType = cmdTypeRegister)
    (h : beLaCmdProcess cmd behind env s = .ok (ok, s')) (he : e ∈ s'.events) :
    e ∈ s.events ∨
      ∃ card ∈ s'.cards, card.addr = e.arg ∧ e.socket = card.path.take sunPathSize := by
  unfold beLaCmdProcess at h
  rw [if_pos htype] at h
  dsimp only at h
  split at h
  · cases h
  · cases h
    exact .inl he
  · rcases open_event h he with hold | ⟨card, hcard, haddr, hpath, hsocket⟩
    · exact .inl hold
    · rw [← hpath] at hsocket
      exact .inr ⟨card, hcard, haddr, socket_of_path hsocket⟩

/-- An event that a round adds is on the socket of its card's path. -/
theorem new_event {ev : DaemonEvent} {e : ReadEvent} (hs : Consistent s)
    (h : daemonStep s ev = .ok s') (he : e ∈ s'.events) (hnew : e ∉ s.events) :
    ∃ card ∈ s'.cards, card.addr = e.arg ∧ e.socket = card.path.take sunPathSize := by
  cases change_of_step hs h with
  | idle => exact absurd he hnew
  | registered card _ _ _ hevents => exact absurd (hevents ▸ he) hnew
  | unregistered card _ _ hevents => exact absurd (hevents ▸ he) hnew
  | handled => exact absurd he hnew
  | closed old card context _ _ _ _ _ _ hevents =>
    rw [hevents] at he
    exact absurd (List.mem_filter.mp he).1 hnew
  | @opened cmd behind env _ card socket htype =>
    unfold daemonStep at h
    dsimp only at h
    split at h
    · cases h
    · rename_i hprocess
      cases h
      exact (registered_event htype hprocess he).resolve_left hnew

theorem socketsNamed_step {ev : DaemonEvent} (hs : Consistent s) (hnamed : SocketsNamed s)
    (h : daemonStep s ev = .ok s') : SocketsNamed s' := by
  intro e card harmed
  by_cases hold : e ∈ s.events
  · have hfresh : card.addr < s.shared.nextAddr := by
      rw [harmed.addr]
      exact (hs.freshEvents e hold).2
    obtain ⟨former, hformer, haddr, hpath⟩ := former_card hs h harmed.listed hfresh
    rw [← hpath]
    exact hnamed e former ⟨hold, hformer, haddr.trans harmed.addr⟩
  · obtain ⟨owner, howner, haddr, hsocket⟩ := new_event hs h harmed.event hold
    have hnodup := (consistent_step hs h).nodup
    have hsame : owner = card := List.inj_on_of_nodup_map hnodup howner harmed.listed
      (haddr.trans harmed.addr.symm)
    rwa [← hsame]

theorem socketsNamed_of_run {rules : List SwitchRule} {evs : List DaemonEvent}
    (h : exec daemonStep (boot rules) evs = .ok s) : SocketsNamed s := by
  have hboot : Consistent (boot rules) ∧ SocketsNamed (boot rules) :=
    ⟨consistent_boot rules, fun e _ harmed => absurd harmed.event List.not_mem_nil⟩
  have hstep : ∀ s ev s', (Consistent s ∧ SocketsNamed s) → daemonStep s ev = .ok s' →
      (Consistent s' ∧ SocketsNamed s') := fun s ev s' hs h =>
    ⟨consistent_step hs.1 h, socketsNamed_step hs.1 hs.2 h⟩
  have halong := along_of_step hstep evs hboot
  exact ((along_iff_reached _ _).mp halong evs s (List.prefix_refl _) h).2

def OwnSockets (s : Daemon) : Prop :=
  ∀ e card e' card', Armed s e card → Armed s e' card' →
    card.path ≠ card'.path → e.socket ≠ e'.socket

def PathsApart (s : Daemon) : Prop :=
  ∀ e card e' card', Armed s e card → Armed s e' card' →
    card.path ≠ card'.path → card.path.take sunPathSize ≠ card'.path.take sunPathSize

theorem ownSockets_iff (h : SocketsNamed s) : OwnSockets s ↔ PathsApart s := by
  constructor
  · intro hown e card e' card' harmed harmed' hne
    rw [← h e card harmed, ← h e' card' harmed']
    exact hown e card e' card' harmed harmed' hne
  · intro hapart e card e' card' harmed harmed' hne
    rw [h e card harmed, h e' card' harmed']
    exact hapart e card e' card' harmed harmed' hne

/-- A call is as it should be exactly when it fails before the copy; the name of a channel
that opens is the whole path exactly up to the size of the field; and in a state of a run
different cards are on different sockets exactly when their paths differ within the field. -/
theorem own_channel_iff (s : Daemon) :
    (∀ (card : BeCardInner) (run : OpenRun),
      card ∈ s.cards → Terminated card.card → card.path ≠ [] →
        (OpenMeets s card.path run ↔ ¬ (run.access ∧ run.socket)) ∧
        ∀ s', vmChannelOpen card.path run s = .ok (true, s') → ∃ e,
          s'.events = s.events ++ [e] ∧
            (e.socket = card.path ↔ card.path.length ≤ sunPathSize)) ∧
    ∀ (rules : List SwitchRule) (evs : List DaemonEvent),
      exec daemonStep (boot rules) evs = .ok s → (OwnSockets s ↔ PathsApart s) := by
  refine ⟨fun card run _ _ _ => ⟨openMeets_iff s card.path run, fun s' h => ?_⟩, ?_⟩
  · obtain ⟨e, hevents, hsocket⟩ := opened_socket h
    refine ⟨e, hevents, ?_⟩
    rw [hsocket, List.take_eq_self_iff]
  · intro rules evs h
    exact ownSockets_iff (socketsNamed_of_run h)

def longCard (last : Byte) : AccCard :=
  { AccCard.plain 0x61 with
    vmpath := ⟨List.replicate 108 0x61 ++ last :: List.replicate 19 0, by simp [nameMaxLen]⟩ }

def registerLong (last : Byte) : DaemonEvent :=
  .command ⟨longCard last, cmdTypeRegister⟩ [] ⟨true, ⟨true, true, true, true, true⟩⟩

def Crossed (s : Daemon) : Prop :=
  ∃ e ∈ s.events, ∃ e' ∈ s.events, ∃ card ∈ s.cards, ∃ card' ∈ s.cards,
    card.addr = e.arg ∧ card'.addr = e'.arg ∧ card.path ≠ card'.path ∧ e.socket = e'.socket

instance (s : Daemon) : Decidable (Crossed s) := by
  unfold Crossed
  infer_instance

/-- The copy of a path ends behind the field, and two paths that differ in their last letter
only lead to one socket. -/
theorem long_paths_share_socket :
    (¬ ∀ (s : Daemon) (card : BeCardInner) (run : OpenRun),
      card ∈ s.cards → Terminated card.card → card.path ≠ [] → OpenMeets s card.path run) ∧
    ¬ ∀ (rules : List SwitchRule) (evs : List DaemonEvent) (s : Daemon),
      exec daemonStep (boot rules) evs = .ok s → OwnSockets s := by
  constructor
  · intro hall
    obtain ⟨s, -, card, hcard, hterm, hpath⟩ : ∃ s,
        exec daemonStep (boot []) [registerLong 0x62] = .ok s ∧
          ∃ card ∈ s.cards, Terminated card.card ∧ card.path ≠ [] :=
      exists_of_eval (by decide +kernel)
    have hmeets := hall s card ⟨true, true, true, true, true⟩ hcard hterm hpath
    exact (openMeets_iff s card.path _).mp hmeets ⟨rfl, rfl⟩
  · intro hall
    obtain ⟨s, h, e, he, e', he', card, hcard, card', hcard', haddr, haddr', hne, hsame⟩ : ∃ s,
        exec daemonStep (boot []) [registerLong 0x62, registerLong 0x63] = .ok s ∧ Crossed s :=
      exists_of_eval (by decide +kernel)
    exact hall [] _ s h e card e' card' ⟨he, hcard, haddr⟩ ⟨he', hcard', haddr'⟩ hne hsame

end BeLa.CardSocket
