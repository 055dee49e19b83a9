import BeLa.Handling
import BeLa.Paths

/-!
What one round of the event loop can do, stated once. The changes are told in
terms of the cards of the table, up to the order of its slots: a card is added
blank or armed, a card is taken out, a handler rewrites its card, or the close
path flushes its card and takes it out.
-/
namespace BeLa.Steps

open LittleEndian PartialTransfer Stops Slots Framing Context Execute Editing Plugin Card Message
open Channel Command Handling Paths

/-- The cards and events of a running daemon: addresses and event ids are fresh and tell
them apart, an event whose card is in the table is that card's event, and a card
without an event has no session. -/
structure Consistent (s : Daemon) : Prop where
  nodup : (s.cards.map BeCardInner.addr).Nodup
  fresh : ∀ card ∈ s.cards, card.addr < s.shared.nextAddr
  freshEvents : ∀ e ∈ s.events, e.id < s.shared.nextAddr ∧ e.arg < s.shared.nextAddr
  eventIds : (s.events.map ReadEvent.id).Nodup
  armed : ∀ e ∈ s.events, ∀ card ∈ s.cards, card.addr = e.arg → card.readEvent = some e.id
  session : ∀ card ∈ s.cards, card.readEvent = none → card.context = none ∧ card.plugin = none
  paths : ∀ card ∈ s.cards, ∀ other ∈ s.cards, Terminated card.card → card.path = other.path →
    card.addr = other.addr
  terminated : ∀ card ∈ s.cards, card.readEvent ≠ none → Terminated card.card
  sound : ∀ card ∈ s.cards, Sound card

/-- A card as registering makes it: a fresh address, no session, and a path of its own
if the path ends. -/
structure Blank (s : Daemon) (card : BeCardInner) : Prop where
  addr : card.addr = s.shared.nextAddr
  context : card.context = none
  plugin : card.plugin = none
  readEvent : card.readEvent = none
  path : Terminated card.card → ∀ other ∈ s.cards, other.path ≠ card.path

def receivedMessage (d : Delivery) : Option Framing.Message :=
  match (accUnixRecvMessage bufSize ⟨d.stream, d.reads⟩).result with
  | .ok ⟨msg, _⟩ => msg
  | .error _ => none

/-- The command frees a card of the table: the words behind the block pass the guard,
and the path names the card. -/
structure Frees (s : Daemon) (cmd : CmdHdr) (behind : Bytes) (card : BeCardInner) : Prop where
  type : cmd.cmdType = cmdTypeUnregister
  context : pointerAt behind 0 = false
  readEvent : pointerAt behind 8 = false
  plugin : pointerAt behind 16 = false
  named : beLaGetAccCardptr s.table (cmd.card.pathBefore (wordBytes 4 cmd.cmdType ++ behind)) =
    some card

def cleared (card : BeCardInner) : BeCardInner :=
  { card with readEvent := none, plugin := none, context := none }

inductive Change (s : Daemon) : DaemonEvent → Daemon → Prop
  | idle (ev : DaemonEvent) : Change s ev s
  | registered {cmd : CmdHdr} {behind : Bytes} {env : CommandWorld} {s' : Daemon}
      (card : BeCardInner) :
      cmd.cmdType = cmdTypeRegister → Blank s card →
      s'.cards.Perm (card :: s.cards) → s'.events = s.events → s'.freed = s.freed →
      s'.shared = { s.shared with nextAddr := s.shared.nextAddr + 1 } →
      Change s (.command cmd behind env) s'
  | opened {cmd : CmdHdr} {behind : Bytes} {env : CommandWorld} {s' : Daemon}
      (card : BeCardInner) (socket : Bytes) :
      cmd.cmdType = cmdTypeRegister → Blank s card → Terminated card.card →
      s'.cards.Perm ({ card with readEvent := some (s.shared.nextAddr + 1) } :: s.cards) →
      s'.events = s.events ++ [⟨s.shared.nextAddr + 1, socket, card.addr⟩] →
      s'.freed = s.freed →
      s'.shared = { s.shared with nextAddr := s.shared.nextAddr + 2 } →
      Change s (.command cmd behind env) s'
  | unregistered {cmd : CmdHdr} {behind : Bytes} {env : CommandWorld} {s' : Daemon}
      (card : BeCardInner) :
      Frees s cmd behind card → s.cards.Perm (card :: s'.cards) → s'.events = s.events →
      s'.freed = s.freed ++ [card] → s'.shared = s.shared →
      Change s (.command cmd behind env) s'
  | handled {d : Delivery} (e : ReadEvent) (card card' : BeCardInner) (msg : Framing.Message)
      (shared : Shared) :
      e ∈ s.events → card ∈ s.cards → card.addr = e.arg → receivedMessage d = some msg →
      Handles d.world msg.hdr.msgType msg.body card s.shared card' shared →
      Change s (.readable e.id d) { s.writeCard card' with shared := shared }
  | closed {d : Delivery} {s' : Daemon} (e : ReadEvent) (card : BeCardInner)
      (context : AccContext) :
      e ∈ s.events → card ∈ s.cards → card.addr = e.arg → card.context = some context →
      context.sshRemote = none →
      (s.writeCard (cleared card)).cards.Perm (cleared card :: s'.cards) →
      s'.events = s.events.filter (fun other => other.id ≠ e.id) →
      s'.freed = s.freed ++ [cleared card] →
      s'.shared = afterFlush d.world context (d.world.shell 0) s.shared →
      Change s (.readable e.id d) s'

theorem mem_writeCard {s : Daemon} {card x : BeCardInner} :
    x ∈ (s.writeCard card).cards ↔
      (x = card ∧ ∃ y ∈ s.cards, y.addr = card.addr) ∨ (x ∈ s.cards ∧ x.addr ≠ card.addr) :=
  mem_overwrite

theorem cardAt_some {s : Daemon} {addr : ℕ} {card : BeCardInner} (h : s.cardAt addr = some card) :
    card ∈ s.cards ∧ card.addr = addr :=
  ⟨List.mem_of_find?_eq_some h, by simpa using List.find?_some h⟩

theorem event_some {s : Daemon} {id : ℕ} {e : ReadEvent}
    (h : s.events.find? (fun e => e.id = id) = some e) : e ∈ s.events ∧ e.id = id :=
  ⟨List.mem_of_find?_eq_some h, by simpa using List.find?_some h⟩

theorem named_some {table : AccCardsTable} {path : Bytes} {card : BeCardInner}
    (h : beLaGetAccCardptr table path = some card) : card ∈ table.cards ∧ card.path = path :=
  ⟨List.mem_of_find?_eq_some h, by simpa using List.find?_some h⟩

theorem not_named {table : AccCardsTable} {path : Bytes}
    (h : beLaGetAccCardptr table path = none) : ∀ card ∈ table.cards, card.path ≠ path := by
  intro card hcard
  simpa using List.find?_eq_none.mp h card hcard

/-- A successful registration adds one card, whose path was not in the table. -/
theorem reg_spec {alloc : Bool} {addr : ℕ} {reginfo : AccCard} {behind : Bytes}
    {table table' : AccCardsTable}
    (h : beAccCardReg alloc addr reginfo behind table = .ok (some table')) :
    beLaGetAccCardptr table (reginfo.pathBefore behind) = none ∧
      table'.cards.Perm (⟨addr, reginfo, none, none, none⟩ :: table.cards) := by
  unfold beAccCardReg at h
  split at h
  · cases h
  · split at h
    · cases h
    · split at h
      · cases h
      · rename_i hnone
        dsimp only at h
        split at h
        · cases h
        · rename_i slots hplace
          split at h
          · cases h
            exact ⟨by simpa using hnone, records_place hplace⟩
          · cases h

/-- Opening a channel fails without a change or over the event of the card that the path
names, or it arms that card with an event on the socket it has connected to. -/
theorem open_spec {path : Bytes} {run : OpenRun} {s s' : Daemon} {ok : Bool}
    (h : vmChannelOpen path run s = .ok (ok, s')) :
    (ok = false ∧ s' = s) ∨ ∃ card, beLaGetAccCardptr s.table path = some card ∧
      ((ok = false ∧ s' = s.writeCard { card with readEvent := none }) ∨ ∃ socket,
        ok = true ∧ unixSocketClntInit path run = some socket ∧
        s' = { s.writeCard { card with readEvent := some s.shared.nextAddr } with
          events := s.events ++ [⟨s.shared.nextAddr, socket, card.addr⟩]
          shared.nextAddr := s.shared.nextAddr + 1 }) := by
  unfold vmChannelOpen at h
  split at h
  · cases h
    exact .inl ⟨rfl, rfl⟩
  · rename_i socket hsocket
    split at h
    · cases h
    · rename_i card hcard
      split at h
      · cases h
      · split at h
        · cases h
          exact .inl ⟨rfl, rfl⟩
        · split at h
          · cases h
            exact .inr ⟨card, hcard, .inl ⟨rfl, rfl⟩⟩
          · cases h
            exact .inr ⟨card, hcard, .inr ⟨socket, rfl, hsocket, rfl⟩⟩

/-- A write to the one card of an address leaves the others alone. -/
theorem writeCard_perm {s : Daemon} {card card' : BeCardInner} {others : List BeCardInner}
    (hcards : s.cards.Perm (card :: others)) (haddr : card.addr = card'.addr)
    (hothers : ∀ other ∈ others, other.addr ≠ card'.addr) :
    (s.writeCard card').cards.Perm (card' :: others) := by
  have hmap := hcards.map (fun y => if y.addr = card'.addr then card' else y)
  rw [List.map_cons, if_pos haddr] at hmap
  have hsame : others.map (fun y => if y.addr = card'.addr then card' else y) = others :=
    (List.map_congr_left fun other hother => if_neg (hothers other hother)).trans
      (List.map_id others)
  rw [hsame] at hmap
  exact (List.Perm.of_eq (records_overwrite card' s.table.slots)).trans hmap

theorem change_of_register {s s' : Daemon} {cmd : CmdHdr} {behind : Bytes} {env : CommandWorld}
    {ok : Bool} (hs : Consistent s) (htype : cmd.cmdType = cmdTypeRegister)
    (h : beLaCmdProcess cmd behind env s = .ok (ok, s')) :
    Change s (.command cmd behind env) s' := by
  unfold beLaCmdProcess at h
  rw [if_pos htype, htype] at h
  dsimp only at h
  split at h
  · cases h
  · cases h
    exact .idle _
  · rename_i table hreg
    obtain ⟨hnone, hperm⟩ := reg_spec hreg
    set rest := wordBytes 4 cmdTypeRegister ++ behind
    let card : BeCardInner := ⟨s.shared.nextAddr, cmd.card, none, none, none⟩
    have hpath : Terminated cmd.card → cmd.card.pathBefore rest = card.path := fun hterm => by
      rw [BeCardInner.path, pathBefore_of_terminated hterm, pathBefore_of_terminated hterm]
    have hblank : Blank s card :=
      { addr := rfl
        context := rfl
        plugin := rfl
        readEvent := rfl
        path := fun hterm other hother => by
          rw [← hpath hterm]
          exact not_named hnone other hother }
    have hfresh : ∀ other ∈ s.cards, other.addr ≠ card.addr := fun other hother =>
      (hs.fresh other hother).ne
    -- the only card that the path can name is the new one
    have hfound : ∀ found, beLaGetAccCardptr table (cmd.card.pathBefore rest) = some found →
        found = card := by
      intro found hsome
      obtain ⟨hmem, hnamed⟩ := named_some hsome
      rcases List.mem_cons.mp (hperm.mem_iff.mp hmem) with heq | hold
      · exact heq
      · exact absurd hnamed (not_named hnone found hold)
    rcases open_spec h with ⟨-, rfl⟩ | ⟨found, hsome, hwrite⟩
    · exact .registered card htype hblank hperm rfl rfl rfl
    · obtain rfl := hfound found hsome
      have hterm : Terminated card.card := terminated_of_command_path (named_some hsome).2
      rcases hwrite with ⟨-, rfl⟩ | ⟨socket, -, -, rfl⟩
      · exact .registered card htype hblank (writeCard_perm hperm rfl hfresh) rfl rfl rfl
      · exact .opened card socket htype hblank hterm (writeCard_perm hperm rfl hfresh) rfl rfl rfl

/-- Past the guard the first card of the path is taken out. -/
theorem unreg_spec {unreginfo : UnregInfo} {table : AccCardsTable}
    {result : AccCardsTable × Option BeCardInner}
    (h : beAccCardUnreg unreginfo table = .ok result) :
    (unreginfo.context = false ∧ unreginfo.plugin = false ∧ unreginfo.readEvent = false) ∧
      result.2 = beLaGetAccCardptr table unreginfo.path ∧
      match result.2 with
      | none => result.1 = table
      | some card => table.cards.Perm (card :: result.1.cards) := by
  unfold beAccCardUnreg at h
  split at h
  · cases h
  · split at h
    · cases h
    · split at h
      · cases h
      · rename_i hcontext hplugin hread
        obtain rfl := (Except.ok.inj h).symm
        refine ⟨⟨by simpa using hcontext, by simpa using hplugin, by simpa using hread⟩,
          takeOut_find _ _, ?_⟩
        dsimp only
        split
        · rename_i hnone
          rw [hnone, (takeOut_none hnone).1]
          rfl
        · rename_i card hsome
          exact (takeOut_some hsome).1

theorem change_of_unregister {s s' : Daemon} {cmd : CmdHdr} {behind : Bytes} {env : CommandWorld}
    {ok : Bool} (htype : cmd.cmdType = cmdTypeUnregister)
    (h : beLaCmdProcess cmd behind env s = .ok (ok, s')) :
    Change s (.command cmd behind env) s' := by
  have hne : cmd.cmdType ≠ cmdTypeRegister := by
    rw [htype]
    decide
  unfold beLaCmdProcess at h
  rw [if_neg hne, if_pos htype] at h
  split at h
  · cases h
  · rename_i table freed hunreg
    cases h
    obtain ⟨⟨hcontext, hplugin, hread⟩, hfound, heffect⟩ := unreg_spec hunreg
    cases freed with
    | none =>
      have hsame : ({ s with
          table := table
          freed := s.freed ++ (none : Option BeCardInner).toList } : Daemon) = s := by
        obtain rfl : table = s.table := heffect
        simp
      rw [hsame]
      exact .idle _
    | some card =>
      exact .unregistered card ⟨htype, hcontext, hread, hplugin, hfound.symm⟩ heffect rfl rfl rfl

theorem change_of_command {s s' : Daemon} {cmd : CmdHdr} {behind : Bytes} {env : CommandWorld}
    {ok : Bool} (hs : Consistent s) (h : beLaCmdProcess cmd behind env s = .ok (ok, s')) :
    Change s (.command cmd behind env) s' := by
  by_cases hreg : cmd.cmdType = cmdTypeRegister
  · exact change_of_register hs hreg h
  · by_cases hunreg : cmd.cmdType = cmdTypeUnregister
    · exact change_of_unregister hunreg h
    · unfold beLaCmdProcess at h
      rw [if_neg hreg, if_neg hunreg] at h
      cases h
      exact .idle _

/-- The close path of a card without a context fails the assertion of the flush. -/
theorem close_none {w : World} {card : BeCardInner} {id : ℕ} (s : Daemon)
    (hread : card.readEvent = some id) (hcontext : card.context = none) :
    closeChannel w card s = .error (.assertion .beAccFlushRules) := by
  unfold closeChannel beAccFlushRules
  simp only [hread, hcontext]

/-- With a remote host the flush of the close path stops the daemon. -/
theorem close_remote {w : World} {card : BeCardInner} {id : ℕ} {context : AccContext} (s : Daemon)
    (hsound : Sound card) (hread : card.readEvent = some id)
    (hcontext : card.context = some context) (hremote : context.sshRemote.isSome) :
    closeChannel w card s = .error .badString := by
  have hsilent : Sound { card with readEvent := none } := hsound
  unfold closeChannel
  simp only [hread]
  rw [flush_spec hsilent]
  simp only [hcontext, if_pos hremote]

/-- The close path of a card whose context runs its commands here flushes it and calls for
its removal, whose guard the cleared card passes. -/
theorem close_some {w : World} {card : BeCardInner} {id : ℕ} {context : AccContext} (s : Daemon)
    (hsound : Sound card) (hread : card.readEvent = some id)
    (hcontext : card.context = some context) (hlocal : context.sshRemote = none) :
    ∃ result, beAccCardUnreg (.ofCard (cleared card)) (s.writeCard (cleared card)).table =
        .ok result ∧
      closeChannel w card s = .ok
        { table := result.1
          events := s.events.filter (fun other => other.id ≠ id)
          freed := s.freed ++ result.2.toList
          shared := afterFlush w context (w.shell 0) s.shared } := by
  have hnot : ¬ context.sshRemote.isSome := by simp [hlocal]
  have hsilent : Sound { card with readEvent := none } := hsound
  have htwice : overwrite BeCardInner.addr (cleared card)
      (overwrite BeCardInner.addr { card with readEvent := none } s.table.slots) =
      overwrite BeCardInner.addr (cleared card) s.table.slots :=
    @overwrite_overwrite _ _ _ BeCardInner.addr { card with readEvent := none } (cleared card)
      rfl s.table.slots
  refine ⟨_, rfl, ?_⟩
  unfold closeChannel
  simp only [hread]
  rw [flush_spec hsilent]
  rw [hcontext] at htwice
  unfold cleared at htwice
  simp only [hcontext, if_neg hnot, Daemon.writeCard]
  rw [htwice]
  rfl

/-- On an armed card the close path needs a context that runs its commands here, flushes it
and takes out exactly that card. -/
theorem close_spec {s s' : Daemon} {e : ReadEvent} {card : BeCardInner} {w : World}
    (hs : Consistent s) (he : e ∈ s.events) (hcard : card ∈ s.cards) (haddr : card.addr = e.arg)
    (h : closeChannel w card s = .ok s') :
    ∃ context, card.context = some context ∧ context.sshRemote = none ∧
      (s.writeCard (cleared card)).cards.Perm (cleared card :: s'.cards) ∧
      s'.events = s.events.filter (fun other => other.id ≠ e.id) ∧
      s'.freed = s.freed ++ [cleared card] ∧
      s'.shared = afterFlush w context (w.shell 0) s.shared := by
  have harmed := hs.armed e he card hcard haddr
  have hterm : Terminated card.card := hs.terminated card hcard (by rw [harmed]; simp)
  cases hcontext : card.context with
  | none => simp [close_none s harmed hcontext] at h
  | some context =>
    have hlocal : context.sshRemote = none := by
      refine Option.not_isSome_iff_eq_none.mp fun hremote => ?_
      rw [close_remote s (hs.sound card hcard) harmed hcontext hremote] at h
      cases h
    obtain ⟨result, hunreg, hclose⟩ := close_some s (hs.sound card hcard) harmed hcontext hlocal
    obtain ⟨-, hfound, heffect⟩ := unreg_spec hunreg
    rw [h, Except.ok.injEq] at hclose
    have hmem : cleared card ∈ (s.writeCard (cleared card)).cards :=
      mem_writeCard.mpr (.inl ⟨rfl, card, hcard, rfl⟩)
    cases hfreed : result.2 with
    | none =>
      rw [hfreed] at hfound
      exact absurd rfl (not_named hfound.symm _ hmem)
    | some freed =>
      rw [hfreed] at hfound heffect
      obtain ⟨hin, hpath⟩ := named_some hfound.symm
      -- no other card has the path of an armed card
      have hfreed_eq : freed = cleared card := by
        rcases mem_writeCard.mp hin with ⟨heq, -⟩ | ⟨hother, hne⟩
        · exact heq
        · exact absurd (hs.paths card hcard freed hother hterm hpath.symm).symm hne
      subst hfreed_eq
      subst hclose
      exact ⟨context, rfl, hlocal, heffect, rfl, by rw [hfreed]; rfl, rfl⟩

theorem change_of_close {s s' : Daemon} {e : ReadEvent} {card : BeCardInner} {d : Delivery}
    (hs : Consistent s) (he : e ∈ s.events) (hcard : card ∈ s.cards) (haddr : card.addr = e.arg)
    (h : closeChannel d.world card s = .ok s') : Change s (.readable e.id d) s' := by
  obtain ⟨context, hcontext, hlocal, hperm, hevents, hfreed, hshared⟩ :=
    close_spec hs he hcard haddr h
  exact .closed e card context he hcard haddr hcontext hlocal hperm hevents hfreed hshared

/-- A call on a channel finds nothing to call, or takes the close path of its card, or
handles a message for it. -/
theorem readable_cases {s s' : Daemon} {event : ℕ} {d : Delivery}
    (h : daemonStep s (.readable event d) = .ok s') :
    s' = s ∨ ∃ e ∈ s.events, e.id = event ∧ ∃ card ∈ s.cards, card.addr = e.arg ∧
      (closeChannel d.world card s = .ok s' ∨ ∃ msg handled, receivedMessage d = some msg ∧
        beAccMessageProcess d.world card msg.hdr.msgType msg.body 0 s.shared = .ok handled ∧
        s' = { s.writeCard handled.card with shared := handled.shared }) := by
  simp only [daemonStep] at h
  split at h
  · cases h
    exact .inl rfl
  · rename_i e hfind
    obtain ⟨he, hid⟩ := event_some hfind
    refine .inr ⟨e, he, hid, ?_⟩
    unfold doVmRequestRead at h
    dsimp only at h
    split at h
    · cases h
    · rename_i card hat
      obtain ⟨hcard, haddr⟩ := cardAt_some hat
      refine ⟨card, hcard, haddr, ?_⟩
      split at h
      · cases h
      · exact .inl h
      · rename_i msg rest hrecv
        split at h
        · cases h
        · rename_i handled hprocess
          split at h
          · cases h
          · dsimp only at h
            split at h
            · cases h
            · cases h
              exact .inr ⟨msg, handled, by rw [receivedMessage, hrecv], hprocess, rfl⟩

theorem change_of_step {s s' : Daemon} {ev : DaemonEvent} (hs : Consistent s)
    (h : daemonStep s ev = .ok s') : Change s ev s' := by
  cases ev with
  | command cmd behind env =>
    simp only [daemonStep] at h
    split at h
    · cases h
    · rename_i hcmd
      cases h
      exact change_of_command hs hcmd
  | readable event d =>
    rcases readable_cases h with rfl | ⟨e, he, rfl, card, hcard, haddr,
      hclose | ⟨msg, handled, hreceived, hprocess, rfl⟩⟩
    · exact .idle _
    · exact change_of_close hs he hcard haddr hclose
    · exact .handled e card handled.card msg handled.shared he hcard haddr hreceived
        (handles_of_process (hs.sound card hcard) hprocess)

end BeLa.Steps
