import BeLa.EventLoop

/-!
What the process holds open, over whole runs of its loop. Every open descriptor is
held by exactly one armed event, was there when the loop began, or was left behind
by a connect that failed; so no event finds its descriptor closed by another. What
is left behind takes room from the channels for good.
-/
namespace BeLa.OpenFiles

open LittleEndian PartialTransfer Stops Runs Framing Switch Context Card Channel Command Steps
open Invariant CommandServer Descriptors EventLoop

/-- The connect of an opened channel fails after its socket was made. -/
def loses (run : OpenRun) (files : Files) : Bool :=
  run.access && run.socket && files.take.isSome && !run.connect

def commandLoses (cmd : CmdHdr) (behind : Bytes) (env : CommandWorld) (s : Process) : Bool :=
  match beAccCardReg env.allocCard s.daemon.shared.nextAddr cmd.card
    (wordBytes 4 cmd.cmdType ++ behind) s.daemon.table with
  | .ok (some _) => cmd.cmdType = cmdTypeRegister && loses env.openRun s.files
  | _ => false

def connectFails (s : Process) : LoopEvent → Bool
  | .request event req =>
    match s.waiting.find? (fun e => e.id = event), req.received with
    | some _, some block =>
      block.length = cmdHdrSize && commandLoses (cmdOf block) req.behind req.env s
    | _, _ => false
  | _ => false

def failedConnects : Process → List LoopEvent → ℕ
  | _, [] => 0
  | s, ev :: evs =>
    (connectFails s ev).toNat +
      match loopStep s ev with
      | .ok s' => failedConnects s' evs
      | .error _ => 0

def owned (s : Process) : List ℕ :=
  s.cmdSrv :: (s.waiting.map CommandEvent.fd ++ s.sockets.map Prod.snd)

/-- What holds of the process between two rounds: with the other descriptors of the process,
and the lost ones, the descriptors of the armed events are the open ones. -/
structure Kept (limit : ℕ) (others lost : List ℕ) (s : Process) : Prop where
  accounts : s.files.Accounts (owned s ++ others) lost
  channels : s.sockets.map Prod.fst = s.daemon.events.map ReadEvent.id
  served : (s.spent ++ s.waiting.map CommandEvent.id).Perm (List.range s.nextEvent)
  consistent : Consistent s.daemon
  bound : s.files.limit = limit
  capacity : s.sockets.length + lost.length ≤ limit - (others.length + 2)

variable {s s' : Process} {limit : ℕ} {others lost : List ℕ}

structure Beside (s s' : Process) : Prop where
  limit : s'.files.limit = s.files.limit
  cmdSrv : s'.cmdSrv = s.cmdSrv
  waiting : s'.waiting = s.waiting
  spent : s'.spent = s.spent
  nextEvent : s'.nextEvent = s.nextEvent

inductive Opening (s : Process) : Bool → Process → Prop
  | kept {s' : Process} : s'.files = s.files → s'.sockets = s.sockets →
      s'.daemon.events = s.daemon.events → Opening s false s'
  | lost {s' : Process} (fd : ℕ) : s.files.take = some (fd, s'.files) → s'.sockets = s.sockets →
      s'.daemon.events = s.daemon.events → Opening s true s'
  | armed {s' : Process} (fd : ℕ) (e : ReadEvent) : s.files.take = some (fd, s'.files) →
      s'.sockets = s.sockets ++ [(e.id, fd)] → s'.daemon.events = s.daemon.events ++ [e] →
      Opening s false s'

theorem taken_of_some {b : Bool} {files : Files} {taken : ℕ × Files}
    (h : (if b then files.take else none) = some taken) : b = true ∧ files.take = some taken := by
  split at h
  · rename_i hb
    exact ⟨hb, h⟩
  · cases h

/-- The three ways in which the connection to a channel ends. -/
theorem clntInit_spec {path : Bytes} {run : OpenRun} {files files' : Files}
    {result : Option (ℕ × Bytes)} (h : EventLoop.unixSocketClntInit path run files =
      (result, files')) :
    (result = none ∧ files' = files ∧ loses run files = false) ∨
      (result = none ∧ loses run files = true ∧ ∃ fd, files.take = some (fd, files')) ∨
      ∃ fd socket, result = some (fd, socket) ∧ loses run files = false ∧
        files.take = some (fd, files') := by
  unfold EventLoop.unixSocketClntInit at h
  by_cases haccess : run.access
  · rw [if_neg (not_not.mpr haccess)] at h
    cases htake : (if run.socket then files.take else none) with
    | none =>
      have htaken := socket_taken run files
      rw [htake] at htaken h
      cases h
      exact .inl ⟨rfl, rfl, by simp [loses, haccess, ← htaken]⟩
    | some taken =>
      obtain ⟨fd, files'⟩ := taken
      obtain ⟨hsocket, hfiles⟩ := taken_of_some htake
      rw [htake] at h
      by_cases hconnect : run.connect
      · simp only [hconnect, not_true_eq_false, if_false] at h
        cases h
        exact .inr (.inr ⟨fd, _, rfl, by simp [loses, hconnect], hfiles⟩)
      · simp only [hconnect] at h
        cases h
        exact .inr (.inl ⟨rfl, by simp [loses, haccess, hsocket, hfiles, hconnect], fd, hfiles⟩)
  · rw [if_pos haccess] at h
    cases h
    exact .inl ⟨rfl, rfl, by simp [loses, haccess]⟩

theorem open_spec {path : Bytes} {run : OpenRun} {ok : Bool}
    (h : EventLoop.vmChannelOpen path run s = .ok (ok, s')) :
    Beside s s' ∧ Opening s (loses run s.files) s' := by
  unfold EventLoop.vmChannelOpen at h
  rcases hinit : EventLoop.unixSocketClntInit path run s.files with ⟨result, files⟩
  rw [hinit] at h
  rcases clntInit_spec hinit with ⟨rfl, rfl, hloses⟩ | ⟨rfl, hloses, fd, htake⟩ |
    ⟨fd, socket, rfl, hloses, htake⟩
  · cases h
    rw [hloses]
    exact ⟨⟨rfl, rfl, rfl, rfl, rfl⟩, .kept rfl rfl rfl⟩
  · obtain ⟨hlimit, -, -⟩ := Files.take_spec htake
    cases h
    rw [hloses]
    exact ⟨⟨hlimit, rfl, rfl, rfl, rfl⟩, .lost fd htake rfl rfl⟩
  · obtain ⟨hlimit, -, -⟩ := Files.take_spec htake
    have hclose := Files.close_taken htake
    rw [hloses]
    simp only at h
    split at h
    · cases h
    · split at h
      · cases h
      · split at h
        · cases h
          exact ⟨⟨hlimit, rfl, rfl, rfl, rfl⟩, .kept hclose rfl rfl⟩
        · split at h
          · cases h
            exact ⟨⟨hlimit, rfl, rfl, rfl, rfl⟩, .kept hclose rfl rfl⟩
          · cases h
            exact ⟨⟨hlimit, rfl, rfl, rfl, rfl⟩, .armed fd _ htake rfl rfl⟩

theorem command_spec {cmd : CmdHdr} {behind : Bytes} {env : CommandWorld} {ok : Bool}
    (h : EventLoop.beLaCmdProcess cmd behind env s = .ok (ok, s')) :
    Beside s s' ∧ Opening s (commandLoses cmd behind env s) s' := by
  unfold EventLoop.beLaCmdProcess at h
  by_cases htype : cmd.cmdType = cmdTypeRegister
  · simp only [if_pos htype] at h
    unfold commandLoses
    simp only [htype, decide_true, Bool.true_and] at h ⊢
    split at h
    · cases h
    · rename_i hreg
      cases h
      rw [hreg]
      exact ⟨⟨rfl, rfl, rfl, rfl, rfl⟩, .kept rfl rfl rfl⟩
    · rename_i table hreg
      obtain ⟨⟨hlimit, hcmdSrv, hwaiting, hspent, hnext⟩, hopening⟩ := open_spec h
      rw [hreg]
      refine ⟨⟨hlimit, hcmdSrv, hwaiting, hspent, hnext⟩, ?_⟩
      revert hopening
      simp only
      generalize loses env.openRun s.files = b
      intro hopening
      cases hopening with
      | kept hfiles hsockets hevents => exact .kept hfiles hsockets hevents
      | lost fd htake hsockets hevents => exact .lost fd htake hsockets hevents
      | armed fd e htake hsockets hevents => exact .armed fd e htake hsockets hevents
  · rw [if_neg htype] at h
    have hloses : commandLoses cmd behind env s = false := by
      unfold commandLoses
      simp only [htype, decide_false, Bool.false_and]
      split <;> rfl
    rw [hloses]
    cases hprocess : Command.beLaCmdProcess cmd behind env s.daemon with
    | error stop =>
      rw [hprocess] at h
      cases h
    | ok result =>
      rw [hprocess] at h
      cases h
      refine ⟨⟨rfl, rfl, rfl, rfl, rfl⟩, .kept rfl rfl ?_⟩
      unfold Command.beLaCmdProcess at hprocess
      rw [if_neg htype] at hprocess
      split at hprocess
      · split at hprocess
        · cases hprocess
        · cases hprocess
          rfl
      · cases hprocess
        rfl

/-! One round. -/

/-- An event that is put behind the armed ones has a descriptor of its own. -/
theorem owned_append_socket (id fd : ℕ) (h : s'.sockets = s.sockets ++ [(id, fd)])
    (hcmdSrv : s'.cmdSrv = s.cmdSrv) (hwaiting : s'.waiting = s.waiting) :
    (owned s').Perm (fd :: owned s) := by
  rw [owned, owned, h, hcmdSrv, hwaiting, List.map_append, List.map_singleton, ← List.append_assoc,
    ← List.cons_append]
  exact List.perm_append_singleton _ _

theorem owned_append_waiting {event : CommandEvent} (h : s'.waiting = s.waiting ++ [event])
    (hcmdSrv : s'.cmdSrv = s.cmdSrv) (hsockets : s'.sockets = s.sockets) :
    (owned s').Perm (event.fd :: owned s) := by
  rw [owned, owned, h, hcmdSrv, hsockets, List.map_append, List.map_singleton, List.append_assoc]
  refine List.Perm.trans (List.Perm.cons _ ?_) (List.Perm.swap _ _ _)
  exact List.perm_middle

/-- The daemon's part of a round keeps its cards and events consistent. -/
theorem consistent_round {ev : LoopEvent} (hs : Consistent s.daemon)
    (h : loopStep s ev = .ok s') : Consistent s'.daemon := by
  cases hserver : serverEvent s ev with
  | none => rwa [loopStep_none hserver h]
  | some e =>
    have hdaemon := loopStep_some hserver
    rw [h] at hdaemon
    rcases serverStep_cases hdaemon.symm with heq | ⟨req, block, ok, -, -, -, hprocess⟩ |
      ⟨event, d, -, hstep⟩
    · rwa [heq]
    · have hstep : daemonStep s.daemon (.command (cmdOf block) req.behind req.env) =
          .ok s'.daemon := by
        simp only [daemonStep, hprocess]
      exact consistent_step hs hstep
    · exact consistent_step hs hstep

theorem kept_incoming {run : AcceptRun} (hs : Kept limit others lost s)
    (h : beCmdServerProcess run s = .ok s') : Kept limit others lost s' := by
  unfold beCmdServerProcess at h
  split at h
  · cases h
    exact hs
  · rename_i fd files htake
    obtain ⟨-, htake⟩ := taken_of_some htake
    have hclose := Files.close_taken htake
    obtain ⟨hlimit, -, -⟩ := Files.take_spec htake
    split at h
    · cases h
      rw [hclose]
      exact hs
    · split at h
      · cases h
        rw [hclose]
        exact hs
      · split at h
        · cases h
        · cases h
          refine ⟨?_, hs.channels, ?_, hs.consistent, hlimit.trans hs.bound, hs.capacity⟩
          · refine (hs.accounts.take htake).perm ?_
            have howned := @owned_append_waiting s { s with
              files := files
              waiting := s.waiting ++ [⟨s.nextEvent, fd⟩]
              nextEvent := s.nextEvent + 1 } ⟨s.nextEvent, fd⟩ rfl rfl rfl
            exact (howned.append_right others).symm
          · simp only [List.map_append, List.map_singleton, List.range_succ, ← List.append_assoc]
            exact hs.served.append_right _

/-- The descriptors after the opening of a channel, while a connection is being served. -/
theorem kept_opening {b : Bool} (hs : Kept limit others lost s) (hwaiting : s.waiting ≠ [])
    (hbeside : Beside s s') (hopening : Opening s b s') (hconsistent : Consistent s'.daemon) :
    ∃ lost', Kept limit others lost' s' ∧ lost'.length = lost.length + b.toNat := by
  have hserved : (s'.spent ++ s'.waiting.map CommandEvent.id).Perm (List.range s'.nextEvent) := by
    rw [hbeside.spent, hbeside.waiting, hbeside.nextEvent]
    exact hs.served
  have hlength : s.files.held.length =
      1 + s.waiting.length + s.sockets.length + others.length + lost.length := by
    rw [hs.accounts.length, owned]
    simp only [List.length_append, List.length_cons, List.length_map]
    omega
  have hone : 0 < s.waiting.length := List.length_pos_iff.mpr hwaiting
  have hcapacity := hs.capacity
  have hlimit : s'.files.limit = limit := hbeside.limit.trans hs.bound
  cases hopening with
  | kept hfiles hsockets hevents =>
    refine ⟨lost, ⟨?_, ?_, hserved, hconsistent, hlimit, ?_⟩, rfl⟩
    · have howned : owned s' = owned s := by
        rw [owned, owned, hbeside.cmdSrv, hbeside.waiting, hsockets]
      rw [hfiles, howned]
      exact hs.accounts
    · rw [hsockets, hevents, hs.channels]
    · rwa [hsockets]
  | lost fd htake hsockets hevents =>
    have hroom := (Files.take_isSome_iff s.files).mp (by rw [htake]; rfl)
    refine ⟨fd :: lost, ⟨?_, ?_, hserved, hconsistent, hlimit, ?_⟩, rfl⟩
    · have howned : owned s' = owned s := by
        rw [owned, owned, hbeside.cmdSrv, hbeside.waiting, hsockets]
      rw [howned]
      exact (hs.accounts.take htake).lose
    · rw [hsockets, hevents, hs.channels]
    · have hheld := hs.bound
      rw [hsockets, List.length_cons]
      omega
  | armed fd e htake hsockets hevents =>
    have hroom := (Files.take_isSome_iff s.files).mp (by rw [htake]; rfl)
    refine ⟨lost, ⟨?_, ?_, hserved, hconsistent, hlimit, ?_⟩, rfl⟩
    · refine (hs.accounts.take htake).perm ?_
      have howned := owned_append_socket e.id fd hsockets hbeside.cmdSrv hbeside.waiting
      exact (howned.append_right others).symm
    · rw [hsockets, hevents, List.map_append, List.map_append, hs.channels]
      rfl
    · have hheld := hs.bound
      rw [hsockets, List.length_append, List.length_singleton]
      omega

/-- The end of a connection. -/
theorem kept_dismiss {event : CommandEvent} (hs : Kept limit others lost s)
    (hevent : event ∈ s.waiting) : Kept limit others lost (s.dismiss event) := by
  have hnodup : (s.waiting.map CommandEvent.id).Nodup :=
    (hs.served.nodup_iff.mpr List.nodup_range).of_append_right
  have hperm := perm_cons_filter hnodup hevent
  refine ⟨?_, hs.channels, ?_, hs.consistent, hs.bound, hs.capacity⟩
  · refine Files.Accounts.close (hs.accounts.perm ?_)
    rw [← List.cons_append]
    refine List.Perm.append_right others ?_
    refine List.Perm.trans (List.Perm.cons _ ?_) (List.Perm.swap _ _ _)
    have hmap := hperm.map CommandEvent.fd
    rw [List.map_cons] at hmap
    exact hmap.append_right _
  · have hmap := hperm.map CommandEvent.id
    rw [List.map_cons] at hmap
    refine List.Perm.trans ?_ hs.served
    refine List.Perm.trans ?_ (hmap.append_left s.spent).symm
    exact List.perm_middle.symm

/-- A call on a channel closes it where nothing is received, and else keeps the armed events. -/
theorem read_spec {daemon daemon' : Daemon} {arg : ℕ} {d : Delivery}
    (h : (Channel.doVmRequestRead daemon arg d).result = .ok daemon') :
    ∃ card ∈ daemon.cards, card.addr = arg ∧
      ((receiveFails d = true ∧ closeChannel d.world card daemon = .ok daemon') ∨
        (receiveFails d = false ∧ daemon'.events = daemon.events)) := by
  unfold Channel.doVmRequestRead at h
  unfold receiveFails
  dsimp only at h
  split at h
  · cases h
  · rename_i card hat
    obtain ⟨hcard, haddr⟩ := cardAt_some hat
    refine ⟨card, hcard, haddr, ?_⟩
    split at h
    · cases h
    · rename_i hrecv
      rw [hrecv]
      exact .inl ⟨rfl, h⟩
    · rename_i hrecv
      rw [hrecv]
      split at h
      · cases h
      · split at h
        · cases h
        · dsimp only at h
          split at h
          · cases h
          · cases h
            exact .inr ⟨rfl, rfl⟩

/-- The end of a channel: its own descriptor is closed, and its own event freed. -/
theorem kept_closed {daemon : Daemon} {e : ReadEvent} {fd : ℕ} (hs : Kept limit others lost s)
    (hsocket : (e.id, fd) ∈ s.sockets) (hconsistent : Consistent daemon)
    (hevents : daemon.events = s.daemon.events.filter fun other => other.id ≠ e.id) :
    Kept limit others lost { s with
      files := s.files.close fd
      sockets := s.sockets.filter fun socket => daemon.events.any fun e => e.id = socket.1
      daemon := daemon } := by
  have hsame : (s.sockets.filter fun socket => daemon.events.any fun e => e.id = socket.1) =
      s.sockets.filter fun socket => socket.1 ≠ e.id := by
    refine List.filter_congr fun socket hin => ?_
    have hid : socket.1 ∈ s.daemon.events.map ReadEvent.id := by
      rw [← hs.channels]
      exact List.mem_map_of_mem hin
    obtain ⟨other, hother, hidother⟩ := List.mem_map.mp hid
    rw [Bool.eq_iff_iff, List.any_eq_true, decide_eq_true_iff, hevents]
    constructor
    · rintro ⟨found, hfound, hidfound⟩
      have hne := (List.mem_filter.mp hfound).2
      rw [← of_decide_eq_true hidfound]
      simpa using hne
    · intro hne
      refine ⟨other, List.mem_filter.mpr ⟨hother, ?_⟩, ?_⟩
      · rw [hidother]
        simpa using hne
      · simpa using hidother
  have hnodup : (s.sockets.map Prod.fst).Nodup := by
    rw [hs.channels]
    exact hs.consistent.eventIds
  have hperm := perm_cons_filter hnodup hsocket
  rw [hsame]
  refine ⟨?_, ?_, hs.served, hconsistent, hs.bound, ?_⟩
  · refine Files.Accounts.close (hs.accounts.perm ?_)
    rw [← List.cons_append]
    refine List.Perm.append_right others ?_
    refine List.Perm.trans (List.Perm.cons _ ?_) (List.Perm.swap _ _ _)
    have hmap := hperm.map Prod.snd
    rw [List.map_cons] at hmap
    exact (hmap.append_left _).trans List.perm_middle
  · have hfst : (s.sockets.filter fun socket => socket.1 ≠ e.id).map Prod.fst =
        (s.sockets.map Prod.fst).filter fun id => id ≠ e.id := by
      rw [List.filter_map]
      rfl
    simp only [hevents]
    rw [hfst, hs.channels, List.filter_map]
    rfl
  · have hle := List.length_filter_le (fun socket => socket.1 ≠ e.id) s.sockets
    exact le_trans (Nat.add_le_add_right hle _) hs.capacity

theorem kept_read {e : ReadEvent} {fd : ℕ} {d : Delivery} (hs : Kept limit others lost s)
    (he : e ∈ s.daemon.events) (hsocket : (e.id, fd) ∈ s.sockets)
    (hconsistent : Consistent s'.daemon)
    (h : EventLoop.doVmRequestRead s e.arg fd d = .ok s') : Kept limit others lost s' := by
  unfold EventLoop.doVmRequestRead at h
  split at h
  · cases h
  · rename_i daemon hread
    obtain ⟨card, hcard, haddr, ⟨hfails, hclose⟩ | ⟨hreceived, hevents⟩⟩ := read_spec hread
    · rw [if_pos hfails] at h
      cases h
      obtain ⟨-, -, -, -, hevents, -, -⟩ := close_spec hs.consistent he hcard haddr hclose
      exact kept_closed hs hsocket hconsistent hevents
    · rw [if_neg (by simp [hreceived])] at h
      cases h
      exact ⟨hs.accounts, by rw [hs.channels, hevents], hs.served, hconsistent, hs.bound,
        hs.capacity⟩

theorem kept_request {event : CommandEvent} {req : Request} (hs : Kept limit others lost s)
    (hfind : s.waiting.find? (fun e => e.id = event.id) = some event)
    (hconsistent : Consistent s'.daemon)
    (h : EventLoop.beCmdRequestProcess s event req = .ok s') :
    ∃ lost', Kept limit others lost' s' ∧
      lost'.length = lost.length + (connectFails s (.request event.id req)).toNat := by
  have hevent : event ∈ s.waiting := List.mem_of_find?_eq_some hfind
  have hdismiss : Kept limit others lost (s.dismiss event) := kept_dismiss hs hevent
  unfold EventLoop.beCmdRequestProcess at h
  simp only [connectFails, hfind]
  cases hreceived : req.received with
  | none =>
    rw [hreceived] at h
    cases h
    exact ⟨lost, hdismiss, rfl⟩
  | some block =>
    rw [hreceived] at h
    by_cases hlength : block.length = cmdHdrSize
    · have hzero : ¬ block.length = 0 := by
        rw [hlength]
        decide
      simp only [if_neg hzero, if_neg (not_not.mpr hlength)] at h
      cases hprocess : EventLoop.beLaCmdProcess (cmdOf block) req.behind req.env s with
      | error stop =>
        rw [hprocess] at h
        cases h
      | ok result =>
        obtain ⟨ok, after⟩ := result
        rw [hprocess] at h
        cases h
        obtain ⟨hbeside, hopening⟩ := command_spec hprocess
        obtain ⟨lost', hkept, hcount⟩ :=
          kept_opening hs (List.ne_nil_of_mem hevent) hbeside hopening hconsistent
        refine ⟨lost', kept_dismiss hkept (hbeside.waiting ▸ hevent), ?_⟩
        simpa [hlength] using hcount
    · refine ⟨lost, ?_, by simp [hlength]⟩
      by_cases hzero : block.length = 0
      · simp only [if_pos hzero] at h
        cases h
        exact hdismiss
      · simp only [if_neg hzero, if_pos hlength] at h
        cases h
        exact hdismiss

/-- What one round keeps. -/
theorem kept_step {ev : LoopEvent} (hs : Kept limit others lost s) (h : loopStep s ev = .ok s') :
    ∃ lost', Kept limit others lost' s' ∧
      lost'.length = lost.length + (connectFails s ev).toNat := by
  have hconsistent := consistent_round hs.consistent h
  cases ev with
  | incoming run => exact ⟨lost, kept_incoming hs h, rfl⟩
  | request event req =>
    cases hfind : s.waiting.find? (fun e => e.id = event) with
    | none =>
      simp only [loopStep, hfind] at h
      cases h
      exact ⟨lost, hs, by simp [connectFails, hfind]⟩
    | some found =>
      simp only [loopStep, hfind] at h
      obtain rfl : found.id = event := by simpa using List.find?_some hfind
      exact kept_request hs hfind hconsistent h
  | readable event d =>
    refine ⟨lost, ?_, rfl⟩
    simp only [loopStep] at h
    split at h
    · cases h
      exact hs
    · rename_i socket hsocket
      split at h
      · cases h
        exact hs
      · rename_i e hfind
        obtain rfl : e.id = event := by simpa using List.find?_some hfind
        have hid : socket.1 = e.id := by simpa using List.find?_some hsocket
        have hmem : (e.id, socket.2) ∈ s.sockets := by
          rw [← hid]
          exact List.mem_of_find?_eq_some hsocket
        exact kept_read hs (List.mem_of_find?_eq_some hfind) hmem hconsistent h

/-! Whole runs. -/

theorem kept_run {evs : List LoopEvent} (hs : Kept limit others lost s)
    (h : exec loopStep s evs = .ok s') :
    ∃ lost', Kept limit others lost' s' ∧ lost'.length = lost.length + failedConnects s evs := by
  induction evs generalizing s lost with
  | nil =>
    cases h
    exact ⟨lost, hs, rfl⟩
  | cons ev evs ih =>
    cases hstep : loopStep s ev with
    | error stop =>
      rw [exec_cons_of_error hstep] at h
      cases h
    | ok next =>
      rw [exec_cons_of_ok hstep] at h
      obtain ⟨lost₁, hkept₁, hlost₁⟩ := kept_step hs hstep
      obtain ⟨lost', hkept, hlost⟩ := ih hkept₁ h
      refine ⟨lost', hkept, ?_⟩
      simp only [failedConnects, hstep]
      omega

/-- What `event_base_new` leaves of the descriptors before it: all of them. -/
def KeepsOpen (eventBaseNew : Files → Option Files) : Prop :=
  ∀ files files', eventBaseNew files = some files' → files.held ⊆ files'.held

def inherited (start : Process) : List ℕ := start.files.held.erase start.cmdSrv

variable {eventBaseNew : Files → Option Files} {rules : List SwitchRule} {run : MainRun}
  {files : Files} {start : Process} {evs : List LoopEvent}

/-- `main` dispatches with an open listener and no other event armed. -/
theorem main_spec (hbase : KeepsOpen eventBaseNew)
    (hmain : main eventBaseNew rules run files = some start) :
    start.cmdSrv ∈ start.files.held ∧
      start = ⟨start.files, start.cmdSrv, [], [], 0, [], boot rules⟩ := by
  unfold main beCmdSrvInit at hmain
  cases htake : (if run.socket then files.take else none) with
  | none =>
    rw [htake] at hmain
    cases hmain
  | some taken =>
    obtain ⟨fd, taken⟩ := taken
    obtain ⟨-, hfiles⟩ := taken_of_some htake
    obtain ⟨-, hheld, -⟩ := Files.take_spec hfiles
    rw [htake] at hmain
    simp only at hmain
    split at hmain
    · cases hmain
    · rename_i cmdSrv opened hinit
      have hsrv : cmdSrv = fd ∧ opened = taken := by
        split at hinit
        · cases hinit
        · split at hinit
          · cases hinit
          · cases hinit
            exact ⟨rfl, rfl⟩
      obtain ⟨rfl, rfl⟩ := hsrv
      split at hmain
      · cases hmain
      · rename_i based hbased
        split at hmain
        · cases hmain
        · cases hmain
          refine ⟨hbase _ _ hbased ?_, rfl⟩
          rw [hheld]
          exact List.mem_cons_self

theorem kept_main (hbase : KeepsOpen eventBaseNew)
    (hmain : main eventBaseNew rules run files = some start) :
    Kept start.files.limit (inherited start) [] start := by
  obtain ⟨hopen, hstart⟩ := main_spec hbase hmain
  have hperm := List.perm_cons_erase hopen
  rw [hstart]
  refine ⟨?_, rfl, List.Perm.refl _, consistent_boot rules, rfl, Nat.zero_le _⟩
  rw [Files.Accounts, List.append_nil]
  exact hperm

/-- A process with the three standard descriptors and room for eight. -/
def stdio : Files := ⟨8, [2, 1, 0], by decide, by decide⟩

/-- A base with one descriptor of its own. -/
def oneMore (files : Files) : Option Files := files.take.map Prod.snd

theorem keepsOpen_oneMore : KeepsOpen oneMore := by
  intro files files' h
  obtain ⟨⟨fd, taken⟩, htake, rfl⟩ := Option.map_eq_some_iff.mp h
  obtain ⟨-, hheld, -⟩ := Files.take_spec htake
  rw [hheld]
  exact List.subset_cons_self _ _

def registering (path : Byte) (connect : Bool) : Request where
  received := some (cmdBytes ⟨AccCard.plain path, cmdTypeRegister⟩)
  behind := []
  env := ⟨true, ⟨true, true, connect, true, true⟩⟩

/-- Two registrations, the first with a connect that fails, and a third connection. -/
def threeConnections : List LoopEvent :=
  [.incoming ⟨true, true, true⟩, .request 0 (registering 0x73 false), .incoming ⟨true, true, true⟩,
    .request 1 (registering 0x74 true), .incoming ⟨true, true, true⟩]

def stdioStart : Process :=
  ⟨⟨8, [4, 3, 2, 1, 0], by decide, by decide⟩, 3, [], [], 0, [], boot []⟩

theorem main_stdio : main oneMore [] ⟨true, true, true, true⟩ stdio = some stdioStart := by
  rfl

set_option maxRecDepth 8192 in
/-- The lost descriptor is 6, and the process is full with a single channel. -/
theorem exec_threeConnections : ∃ s, exec loopStep stdioStart threeConnections = .ok s ∧
    s.files.held = [5, 7, 6, 4, 3, 2, 1, 0] ∧ owned s = [3, 5, 7] :=
  exists_of_eval (by decide +kernel)

/-- Every open descriptor is that of exactly one armed event, or was there when `main`
dispatched, or is one of as many lost ones as connects have failed. -/
theorem descriptors_owned (hbase : KeepsOpen eventBaseNew)
    (hmain : main eventBaseNew rules run files = some start)
    (h : exec loopStep start evs = .ok s) :
    s.sockets.map Prod.fst = s.daemon.events.map ReadEvent.id ∧
      ∃ lost : List ℕ, lost.length = failedConnects start evs ∧
        (owned s ++ inherited start ++ lost).Nodup ∧
        s.files.held.Perm (owned s ++ inherited start ++ lost) := by
  obtain ⟨lost, hkept, hlost⟩ := kept_run (kept_main hbase hmain) h
  refine ⟨hkept.channels, lost, ?_, hkept.accounts.nodup, hkept.accounts⟩
  rwa [List.length_nil, Nat.zero_add] at hlost

theorem descriptors_owned_threeConnections :
    ∃ s, exec loopStep stdioStart threeConnections = .ok s ∧
      ∃ lost : List ℕ, lost.length = failedConnects stdioStart threeConnections ∧
        s.files.held.Perm (owned s ++ inherited stdioStart ++ lost) := by
  obtain ⟨s, h, -⟩ := exec_threeConnections
  obtain ⟨-, lost, hlost, -, hperm⟩ := descriptors_owned keepsOpen_oneMore main_stdio h
  exact ⟨s, h, lost, hlost, hperm⟩

/-- The lost descriptors never come back: with every connect that fails, fewer channels can be
open at once, and when none is left to spare, none is ever opened again. -/
theorem channel_capacity (hbase : KeepsOpen eventBaseNew)
    (hmain : main eventBaseNew rules run files = some start)
    (h : exec loopStep start evs = .ok s) :
    s.daemon.events.length + failedConnects start evs ≤
      start.files.limit - (start.files.held.length + 1) := by
  obtain ⟨lost, hkept, hlost⟩ := kept_run (kept_main hbase hmain) h
  obtain ⟨hopen, -⟩ := main_spec hbase hmain
  have hothers : (inherited start).length + 1 = start.files.held.length := by
    rw [inherited, List.length_erase_add_one hopen]
  have hchannels : s.sockets.length = s.daemon.events.length := by
    simpa using congrArg List.length hkept.channels
  have hcapacity := hkept.capacity
  rw [List.length_nil] at hlost
  omega

theorem channel_capacity_threeConnections :
    ∃ s, exec loopStep stdioStart threeConnections = .ok s ∧
      s.daemon.events.length + failedConnects stdioStart threeConnections ≤ 8 - (5 + 1) := by
  obtain ⟨s, h, -⟩ := exec_threeConnections
  exact ⟨s, h, channel_capacity keepsOpen_oneMore main_stdio h⟩

/-! The loop as a run of the command server. -/

def serverEvents : Process → List LoopEvent → List ServerEvent
  | _, [] => []
  | s, ev :: evs =>
    (serverEvent s ev).toList ++
      match loopStep s ev with
      | .ok s' => serverEvents s' evs
      | .error _ => []

def isRequest : ServerEvent → Bool
  | .request _ => true
  | .readable _ _ => false

/-- A connection is spent in the round that serves it. -/
theorem spent_step {ev : LoopEvent} (h : loopStep s ev = .ok s') :
    s'.spent.length = s.spent.length + (serverEvent s ev).toList.countP isRequest := by
  cases ev with
  | incoming run =>
    simp only [loopStep, beCmdServerProcess] at h
    split at h
    · cases h
      rfl
    · split at h
      · cases h
        rfl
      · split at h
        · cases h
          rfl
        · split at h
          · cases h
          · cases h
            rfl
  | request event req =>
    cases hfind : s.waiting.find? (fun e => e.id = event) with
    | none =>
      simp only [loopStep, hfind] at h
      cases h
      simp [serverEvent, hfind]
    | some found =>
      simp only [loopStep, hfind, EventLoop.beCmdRequestProcess] at h
      have hone : (serverEvent s (.request event req)).toList.countP isRequest = 1 := by
        simp [serverEvent, hfind, isRequest]
      rw [hone]
      split at h
      · cases h
        rfl
      · split at h
        · cases h
          rfl
        · split at h
          · cases h
            rfl
          · rename_i block _ _ _
            cases hprocess : EventLoop.beLaCmdProcess (cmdOf block) req.behind req.env s with
            | error stop =>
              rw [hprocess] at h
              cases h
            | ok result =>
              obtain ⟨ok, after⟩ := result
              rw [hprocess] at h
              cases h
              obtain ⟨hbeside, -⟩ := command_spec hprocess
              rw [← hbeside.spent]
              rfl
  | readable event d =>
    have hzero : (serverEvent s (.readable event d)).toList.countP isRequest = 0 := by
      simp only [serverEvent]
      cases s.sockets.find? (fun socket => socket.1 = event) with
      | none => rfl
      | some socket => rfl
    rw [hzero]
    simp only [loopStep] at h
    split at h
    · cases h
      rfl
    · split at h
      · cases h
        rfl
      · unfold EventLoop.doVmRequestRead at h
        split at h
        · cases h
        · split at h
          · cases h
            rfl
          · cases h
            rfl

/-- A round of the loop, as a run of the server. -/
theorem server_step {ev : LoopEvent} (h : loopStep s ev = .ok s') (es : List ServerEvent) :
    exec serverStep s.daemon ((serverEvent s ev).toList ++ es) = exec serverStep s'.daemon es := by
  cases hserver : serverEvent s ev with
  | none =>
    rw [loopStep_none hserver h]
    rfl
  | some e =>
    have hdaemon := loopStep_some hserver
    rw [h] at hdaemon
    exact exec_cons_of_ok hdaemon.symm

theorem server_run {evs : List LoopEvent} (h : exec loopStep s evs = .ok s') :
    exec serverStep s.daemon (serverEvents s evs) = .ok s'.daemon ∧
      s'.spent.length = s.spent.length + (serverEvents s evs).countP isRequest := by
  induction evs generalizing s with
  | nil =>
    cases h
    exact ⟨rfl, rfl⟩
  | cons ev evs ih =>
    cases hstep : loopStep s ev with
    | error stop =>
      rw [exec_cons_of_error hstep] at h
      cases h
    | ok next =>
      rw [exec_cons_of_ok hstep] at h
      obtain ⟨hexec, hspent⟩ := ih h
      have hfirst := spent_step hstep
      simp only [serverEvents, hstep]
      rw [server_step hstep, List.countP_append]
      exact ⟨hexec, by omega⟩

/-- The daemon of the loop is that of a run of the command server, which is called for a
connection just once: every connection that was accepted is waiting, or was served in one of the
rounds of this run. -/
theorem served_once (hbase : KeepsOpen eventBaseNew)
    (hmain : main eventBaseNew rules run files = some start)
    (h : exec loopStep start evs = .ok s) :
    exec serverStep (boot rules) (serverEvents start evs) = .ok s.daemon ∧
      (serverEvents start evs).countP isRequest = s.spent.length ∧
      (s.spent ++ s.waiting.map CommandEvent.id).Perm (List.range s.nextEvent) := by
  obtain ⟨lost, hkept, -⟩ := kept_run (kept_main hbase hmain) h
  obtain ⟨-, hstart⟩ := main_spec hbase hmain
  obtain ⟨hexec, hspent⟩ := server_run h
  rw [hstart] at hexec hspent ⊢
  rw [List.length_nil, Nat.zero_add] at hspent
  exact ⟨hexec, hspent.symm, hkept.served⟩

theorem served_once_threeConnections :
    ∃ s, exec loopStep stdioStart threeConnections = .ok s ∧
      exec serverStep (boot []) (serverEvents stdioStart threeConnections) = .ok s.daemon := by
  obtain ⟨s, h, -⟩ := exec_threeConnections
  exact ⟨s, h, (served_once keepsOpen_oneMore main_stdio h).1⟩

end BeLa.OpenFiles
