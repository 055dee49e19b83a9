import BeLa.Attachment
import BeLa.BatchExecution
import BeLa.LiveCards
import BeLa.Registration
import BeLa.Session
import BeLa.Unwinding

/-!
What a VM sees of a daemon that serves others as well. Its bytes reach one card,
and what the handlers do to this card and answer depends on its record, its
session and the world of the call, not on addresses, host ids or the rules on the
bridge. So a VM is answered, in every run, as by a daemon that serves it alone,
and the daemon outlives the run exactly when each of these daemons would.
-/
namespace BeLa.Alone

open LittleEndian Runs Unwinding Slots Stops Framing BeLa.Flow Switch Context Execute Editing
open BatchExecution Plugin Card Message Channel Command Handling Paths Steps Invariant LiveCards
open Registration Session Attachment Client

structure Alike (card other : BeCardInner) : Prop where
  record : card.card = other.card
  executor : card.context.map AccContext.sshRemote = other.context.map AccContext.sshRemote

structure SameAnswer (a b : Handled) : Prop where
  ok : a.ok = b.ok
  outLen : a.outLen = b.outLen
  card : Alike a.card b.card

inductive Both {α β : Type} (R : α → β → Prop) : Except Stop α → Except Stop β → Prop
  | ok {a b} : R a b → Both R (.ok a) (.ok b)
  | stop (stop : Stop) : Both R (.error stop) (.error stop)

section

variable {w : World} {card other : BeCardInner} {sh sh' : Shared} {context context' : AccContext}

/-- Cards that are alike have their contexts together. -/
theorem Alike.contexts (h : Alike card other) :
    (card.context = none ∧ other.context = none) ∨
      ∃ context context', card.context = some context ∧ other.context = some context' ∧
        context.sshRemote = context'.sshRemote := by
  have hexecutor := h.executor
  cases hcard : card.context with
  | none =>
    cases hother : other.context with
    | none => exact .inl ⟨rfl, rfl⟩
    | some context' => simp [hcard, hother] at hexecutor
  | some context =>
    cases hother : other.context with
    | none => simp [hcard, hother] at hexecutor
    | some context' =>
      rw [hcard, hother] at hexecutor
      exact .inr ⟨context, context', rfl, rfl, Option.some.inj hexecutor⟩

/-- A batch ends the same way for every context with the same executor. -/
theorem addResult_alike (h : context.sshRemote = context'.sshRemote) (flows : List AccFlow) :
    (addResult w context flows sh).1 = (addResult w context' flows sh').1 := by
  by_cases hbuilt : Built w flows
  · have hverdict : verdict context = verdict context' := by
      funext run
      unfold verdict
      rw [h]
    rw [Bool.eq_iff_iff, addResult, addResult, batchResult_ok hbuilt, batchResult_ok hbuilt,
      hverdict]
  · rw [addResult_refused hbuilt, addResult_refused hbuilt]

theorem remoteCommand_alike (h : context.sshRemote = context'.sshRemote) (flows : List AccFlow) :
    RemoteCommand w context flows ↔ RemoteCommand w context' flows := by
  unfold RemoteCommand
  rw [h]

/-- The executor of a new context is chosen by the plugin's hook. -/
theorem initContext_alike (hook : ContextHook) (w : World) (k k' n n' : ℕ) :
    (initContext hook w k n).map AccContext.sshRemote =
      (initContext hook w k' n').map AccContext.sshRemote := by
  cases hook with
  | plain => by_cases h : w.allocContext <;> simp [initContext, h]
  | liquidio =>
    by_cases h : w.allocContext <;> by_cases h' : w.allocRemote <;> simp [initContext, h, h']

theorem hello_alike (hsound : Sound card) (hsound' : Sound other) (h : Alike card other)
    (message : Bytes) (outLen : ℕ) : Both SameAnswer
      (helloMessageHandle w card message outLen sh)
      (helloMessageHandle w other message outLen sh') := by
  by_cases hlen : nameSize < message.length
  · simp only [helloMessageHandle, if_pos hlen]
    exact .ok ⟨rfl, rfl, h⟩
  · cases hmatch : bePluginMatch gAccPlugins card.card.vendor card.card.model
        card.card.accType with
    | error stop =>
      have hmatch' := hmatch
      rw [h.record] at hmatch'
      simp only [helloMessageHandle, if_neg hlen, hmatch, hmatch']
      exact .stop stop
    | ok found =>
      have hmatch' := hmatch
      rw [h.record] at hmatch'
      cases found with
      | none =>
        simp only [helloMessageHandle, if_neg hlen, hmatch, hmatch']
        exact .ok ⟨rfl, rfl, h.record, h.executor⟩
      | some slot =>
        rw [hello_matched hsound hlen hmatch, hello_matched hsound' hlen hmatch']
        cases (gAccPlugins slot.vendor slot.model).contextInit with
        | none => exact .stop _
        | some hook =>
          have hinit := initContext_alike hook w card.addr other.addr sh.nextAddr sh'.nextAddr
          dsimp only
          cases hcontext : initContext hook w card.addr sh.nextAddr with
          | none =>
            rw [hcontext] at hinit
            rw [Option.map_eq_none_iff.mp hinit.symm]
            exact .ok ⟨rfl, rfl, h.record, rfl⟩
          | some zeroed =>
            rw [hcontext] at hinit
            obtain ⟨zeroed', hcontext', hremote⟩ := Option.map_eq_some_iff.mp hinit.symm
            rw [hcontext']
            exact .ok ⟨rfl, rfl, h.record, congrArg some hremote.symm⟩

theorem addFlows_alike (hsound : Sound card) (hsound' : Sound other) (h : Alike card other)
    (message : Bytes) (outLen : ℕ) : Both SameAnswer
      (addFlowsMessageHandle w card message outLen sh)
      (addFlowsMessageHandle w other message outLen sh') := by
  by_cases hsize : AccFlow.size ∣ message.length
  · rw [addFlows_spec hsound outLen sh hsize, addFlows_spec hsound' outLen sh' hsize]
    rcases h.contexts with ⟨hnone, hnone'⟩ | ⟨context, context', hsome, hsome', hremote⟩
    · rw [hnone, hnone']
      exact .stop _
    · rw [hsome, hsome']
      dsimp only
      by_cases hstops : RemoteCommand w context
          (flowsOf (message.length / AccFlow.size) message)
      · rw [if_pos hstops, if_pos ((remoteCommand_alike hremote _).mp hstops)]
        exact .stop _
      · rw [if_neg hstops, if_neg (mt (remoteCommand_alike hremote _).mpr hstops)]
        exact .ok ⟨addResult_alike hremote _, rfl, h⟩
  · rw [addFlows_odd outLen sh hsize, addFlows_odd outLen sh' hsize]
    exact .ok ⟨rfl, rfl, h⟩

theorem disconnect_alike (hsound : Sound card) (hsound' : Sound other) (h : Alike card other) :
    Both SameAnswer (disconnectMessageHandle w card sh) (disconnectMessageHandle w other sh') := by
  rw [disconnect_spec hsound, disconnect_spec hsound']
  rcases h.contexts with ⟨hnone, hnone'⟩ | ⟨context, context', hsome, hsome', hremote⟩
  · rw [hnone, hnone']
    exact .stop _
  · rw [hsome, hsome']
    dsimp only
    rw [← hremote]
    by_cases hstops : context.sshRemote.isSome
    · rw [if_pos hstops, if_pos hstops]
      exact .stop _
    · rw [if_neg hstops, if_neg hstops]
      exact .ok ⟨rfl, rfl, h.record, rfl⟩

/-- No handler sees more of its card than what it is alike in. -/
theorem process_alike (hsound : Sound card) (hsound' : Sound other) (h : Alike card other)
    (type : BitVec 32) (message : Bytes) (outLen : ℕ) : Both SameAnswer
      (beAccMessageProcess w card type message outLen sh)
      (beAccMessageProcess w other type message outLen sh') := by
  unfold beAccMessageProcess
  cases handlerAt type with
  | error stop => exact .stop stop
  | ok handler =>
    cases handler with
    | hello => exact hello_alike hsound hsound' h message outLen
    | addFlows => exact addFlows_alike hsound hsound' h message outLen
    | disconnect => exact disconnect_alike hsound hsound' h

end

/-- How two daemons stand to a channel each: both serve it, with cards that are alike, or both
have closed it; or the first one will call it with a card that a command has freed, while the
second one still serves it. -/
inductive Follows (s : Daemon) (id : ℕ) (t : Daemon) (id' : ℕ) : Prop
  | live (card other : BeCardInner) : Open s id card → Open t id' other → Alike card other →
      Follows s id t id'
  | closed : (∀ e ∈ s.events, e.id ≠ id) → (∀ e ∈ t.events, e.id ≠ id') → Follows s id t id'
  | freed (e : ReadEvent) (other : BeCardInner) : e ∈ s.events → e.id = id →
      (∀ card ∈ s.cards, card.addr ≠ e.arg) → Open t id' other → Follows s id t id'

def written (id : ℕ) (s : Daemon) : DaemonEvent → Bytes
  | .command _ _ _ => []
  | .readable event d =>
    if event = id then
      match s.events.find? (fun e => e.id = event) with
      | none => []
      | some e => (doVmRequestRead s e.arg d).sent
    else []

/-- The event that a fresh daemon gives to the channel of its first card. -/
def firstEvent : ℕ := 2

/-- A round on the channel, as it would come to a daemon with this channel only. -/
def ownRound (id : ℕ) : DaemonEvent → Option DaemonEvent
  | .command _ _ _ => none
  | .readable event d => if event = id then some (.readable firstEvent d) else none

def ownRounds (id : ℕ) (evs : List DaemonEvent) : List DaemonEvent := evs.filterMap (ownRound id)

section

variable {s s' t : Daemon} {id id' : ℕ} {card other : BeCardInner} {ev : DaemonEvent}

theorem ownRound_some {ev' : DaemonEvent} (h : ownRound id ev = some ev') :
    ∃ d, ev = .readable id d ∧ ev' = .readable firstEvent d := by
  cases ev with
  | command => cases h
  | readable event d =>
    by_cases hid : event = id
    · subst hid
      rw [ownRound, if_pos rfl, Option.some.injEq] at h
      exact ⟨d, rfl, h.symm⟩
    · rw [ownRound, if_neg hid] at h
      cases h

theorem written_others (h : ownRound id ev = none) (s : Daemon) : written id s ev = [] := by
  cases ev with
  | command => rfl
  | readable event d =>
    by_cases hid : event = id
    · rw [ownRound, if_pos hid] at h
      cases h
    · rw [written, if_neg hid]

theorem written_open (h : Open s id card) (d : Delivery) :
    written id s (.readable id d) = (doVmRequestRead s card.addr d).sent := by
  obtain ⟨socket, hevent⟩ := h.event
  simp only [written, if_true, hevent]

/-- The close path ends alike on cards that are alike. -/
theorem close_alike (hopen : Open s id card) (hopen' : Open t id' other) (h : Alike card other)
    (w : World) : Both (fun s' t' => Follows s' id t' id') (closeChannel w card s)
      (closeChannel w other t) := by
  rcases h.contexts with ⟨hnone, hnone'⟩ | ⟨context, context', hsome, hsome', hremote⟩
  · rw [close_none s hopen.readEvent hnone, close_none t hopen'.readEvent hnone']
    exact .stop _
  · by_cases hstops : context.sshRemote.isSome
    · rw [close_remote s hopen.sound hopen.readEvent hsome hstops,
        close_remote t hopen'.sound hopen'.readEvent hsome' (hremote ▸ hstops)]
      exact .stop _
    · have hlocal := Option.not_isSome_iff_eq_none.mp hstops
      obtain ⟨result, -, hclose⟩ :=
        close_some (w := w) s hopen.sound hopen.readEvent hsome hlocal
      obtain ⟨result', -, hclose'⟩ :=
        close_some (w := w) t hopen'.sound hopen'.readEvent hsome' (hremote ▸ hlocal)
      rw [hclose, hclose']
      refine .ok (.closed (fun e he => ?_) (fun e he => ?_))
      · simpa using (List.mem_filter.mp he).2
      · simpa using (List.mem_filter.mp he).2

/-- A card that a handler has written is still open. -/
theorem open_handled (h : Open s id card) {w : World} {type : BitVec 32} {message : Bytes}
    {outLen : ℕ} {handled : Handled}
    (hrun : beAccMessageProcess w card type message outLen s.shared = .ok handled) :
    Open { s.writeCard handled.card with shared := handled.shared } id handled.card := by
  have hhandles := handles_of_process h.sound hrun
  obtain ⟨haddr, -, hread, -⟩ := handles_keeps h.sound hhandles
  exact h.write handled.shared haddr hread (handles_sound h.sound hhandles)

/-- One delivery is answered alike, and leads both daemons on or stops both. -/
theorem read_alike (hopen : Open s id card) (hopen' : Open t id' other) (h : Alike card other)
    (d : Delivery) :
    (doVmRequestRead s card.addr d).sent = (doVmRequestRead t other.addr d).sent ∧
      Both (fun s' t' => Follows s' id t' id') (doVmRequestRead s card.addr d).result
        (doVmRequestRead t other.addr d).result := by
  unfold doVmRequestRead
  simp only [hopen.found, hopen'.found]
  cases (accUnixRecvMessage bufSize ⟨d.stream, d.reads⟩).result with
  | error stop => exact ⟨rfl, .stop stop⟩
  | ok received =>
    obtain ⟨msg, rest⟩ := received
    cases msg with
    | none => exact ⟨rfl, close_alike hopen hopen' h d.world⟩
    | some msg =>
      have hboth := @process_alike d.world card other s.shared t.shared hopen.sound hopen'.sound h
        msg.hdr.msgType msg.body 0
      dsimp only
      generalize hrun : beAccMessageProcess d.world card msg.hdr.msgType msg.body 0 s.shared = run
        at hboth ⊢
      generalize hrun' : beAccMessageProcess d.world other msg.hdr.msgType msg.body 0 t.shared =
        run'
        at hboth ⊢
      cases hboth with
      | stop stop => exact ⟨rfl, .stop stop⟩
      | @ok handled handled' hsame =>
        have hreply : replyTo msg.hdr handled = replyTo msg.hdr handled' := by
          rw [replyTo, replyTo, hsame.ok, hsame.outLen]
        dsimp only
        rw [hreply, hsame.outLen]
        cases accUnixSendMessage (replyTo msg.hdr handled') (d.outBuf.take handled'.outLen)
            d.writes with
        | none => exact ⟨rfl, .stop _⟩
        | some sent =>
          refine ⟨rfl, ?_⟩
          dsimp only
          by_cases hkills : ¬ sent.success ∧ ¬ d.world.peerOpen
          · rw [if_pos hkills, if_pos hkills]
            exact .stop _
          · rw [if_neg hkills, if_neg hkills]
            exact .ok (.live _ _ (open_handled hopen hrun) (open_handled hopen' hrun')
              hsame.card)

theorem open_of_mem (hs : Consistent s) {e : ReadEvent} (he : e ∈ s.events) (hcard : card ∈ s.cards)
    (harg : card.addr = e.arg) : Open s e.id card where
  event := by
    refine ⟨e.socket, ?_⟩
    rw [find_ident hs.eventIds he, harg]
  found := find_ident hs.nodup hcard
  readEvent := hs.armed e he card hcard harg
  sound := hs.sound card hcard

theorem mem_of_open (h : Open s id card) :
    card ∈ s.cards ∧ ∃ e ∈ s.events, e.id = id ∧ e.arg = card.addr := by
  obtain ⟨socket, hevent⟩ := h.event
  exact ⟨(cardAt_some h.found).1, _, List.mem_of_find?_eq_some hevent, rfl, rfl⟩

/-- The rounds of the others keep a channel's event, and put no other card where its card was. -/
theorem others_step (hs : Consistent s) {e : ReadEvent} (he : e ∈ s.events)
    (hev : ownRound e.id ev = none) (h : daemonStep s ev = .ok s') :
    e ∈ s'.events ∧ ∀ x ∈ s'.cards, x.addr = e.arg → x ∈ s.cards := by
  have hold := (hs.freshEvents e he).2
  cases change_of_step hs h with
  | idle => exact ⟨he, fun x hx _ => hx⟩
  | registered card _ hblank hcards hevents =>
    refine ⟨hevents ▸ he, fun x hx harg => ?_⟩
    rcases List.mem_cons.mp (hcards.mem_iff.mp hx) with rfl | hx
    · exact absurd (harg.symm.trans hblank.addr) hold.ne
    · exact hx
  | opened card socket _ hblank _ hcards hevents =>
    refine ⟨hevents ▸ List.mem_append_left _ he, fun x hx harg => ?_⟩
    rcases List.mem_cons.mp (hcards.mem_iff.mp hx) with rfl | hx
    · exact absurd (harg.symm.trans hblank.addr) hold.ne
    · exact hx
  | unregistered card _ hcards hevents =>
    exact ⟨hevents ▸ he, fun x hx _ => hcards.mem_iff.mpr (List.mem_cons_of_mem _ hx)⟩
  | handled e' card card' msg shared he' hcard harg' _ hhandles =>
    refine ⟨he, fun x hx harg => ?_⟩
    rcases mem_writeCard.mp hx with ⟨rfl, -⟩ | ⟨hx, -⟩
    · -- the card that is written has another event
      obtain ⟨haddr, -⟩ := handles_keeps (hs.sound card hcard) hhandles
      have harmed := hs.armed e he card hcard (haddr.symm.trans harg)
      have hid : e'.id = e.id :=
        Option.some.inj ((hs.armed e' he' card hcard harg').symm.trans harmed)
      rw [ownRound, if_pos hid] at hev
      cases hev
    · exact hx
  | closed e' card context he' hcard harg' _ _ hcards hevents =>
    have hid : e'.id ≠ e.id := by
      intro hid
      rw [ownRound, if_pos hid] at hev
      cases hev
    refine ⟨?_, fun x hx _ => ((closed_cards hs hcards).2 x hx).1⟩
    rw [hevents]
    exact List.mem_filter.mpr ⟨he, by simpa using hid.symm⟩

/-- The events after a round: none is new, or a command has armed one that is. -/
theorem events_step (hs : Consistent s) (h : daemonStep s ev = .ok s') :
    (∀ e ∈ s'.events, e ∈ s.events) ∨ ∃ cmd behind env e, ev = .command cmd behind env ∧
      s'.events = s.events ++ [e] ∧ s.shared.nextAddr < e.id := by
  cases change_of_step hs h with
  | idle => exact .inl fun e he => he
  | registered card _ _ _ hevents => exact .inl fun e he => hevents ▸ he
  | @opened cmd behind env _ card socket _ _ _ _ hevents =>
    exact .inr ⟨cmd, behind, env, _, rfl, hevents, Nat.lt_succ_self _⟩
  | unregistered card _ _ hevents => exact .inl fun e he => hevents ▸ he
  | handled => exact .inl fun e he => he
  | closed e card context _ _ _ _ _ _ hevents =>
    refine .inl fun e he => ?_
    rw [hevents] at he
    exact (List.mem_filter.mp he).1

structure Beside (id : ℕ) (s t : Daemon) : Prop where
  consistent : Consistent s
  old : id < s.shared.nextAddr
  follows : Follows s id t firstEvent

theorem follows_others (hs : Consistent s) (hold : id < s.shared.nextAddr)
    (h : Follows s id t id') (hev : ownRound id ev = none) (hstep : daemonStep s ev = .ok s') :
    Follows s' id t id' := by
  have hs' := consistent_step hs hstep
  cases h with
  | live card other hopen hopen' halike =>
    obtain ⟨hcard, e, he, rfl, harg⟩ := mem_of_open hopen
    obtain ⟨he', hcards⟩ := others_step hs he hev hstep
    by_cases hkept : ∃ x ∈ s'.cards, x.addr = e.arg
    · obtain ⟨x, hx, hxarg⟩ := hkept
      obtain rfl := eq_of_ident_eq hs.nodup (hcards x hx hxarg) hcard (hxarg.trans harg)
      exact .live x other (open_of_mem hs' he' hx hxarg) hopen' halike
    · exact .freed e other he' rfl (fun x hx hxarg => hkept ⟨x, hx, hxarg⟩) hopen'
  | closed hnone hnone' =>
    refine .closed (fun e he => ?_) hnone'
    rcases events_step hs hstep with hsub | ⟨_, _, _, new, -, hevents, hnew⟩
    · exact hnone e (hsub e he)
    · rw [hevents] at he
      rcases List.mem_append.mp he with he | he
      · exact hnone e he
      · rw [List.mem_singleton.mp he]
        exact (hold.trans hnew).ne'
  | freed e other he hid hgone hopen' =>
    subst hid
    obtain ⟨he', hcards⟩ := others_step hs he hev hstep
    exact .freed e other he' rfl (fun x hx hxarg => hgone x (hcards x hx hxarg) hxarg) hopen'

theorem step_of_closed (h : ∀ e ∈ s.events, e.id ≠ id) (d : Delivery) :
    daemonStep s (.readable id d) = .ok s ∧ written id s (.readable id d) = [] := by
  have hnone : s.events.find? (fun e => e.id = id) = none :=
    List.find?_eq_none.mpr fun e he => by simpa using h e he
  simp only [daemonStep, written, hnone, if_true, and_self]

/-- A card that has been freed is read when its event is called. -/
theorem step_of_freed (hs : Consistent s) {e : ReadEvent} (he : e ∈ s.events)
    (hgone : ∀ card ∈ s.cards, card.addr ≠ e.arg) (d : Delivery) :
    daemonStep s (.readable e.id d) = .error .useAfterFree := by
  have hnone : s.cardAt e.arg = none :=
    List.find?_eq_none.mpr fun card hcard => by simpa using hgone card hcard
  simp only [daemonStep, find_ident hs.eventIds he, doVmRequestRead, hnone]

theorem beside_unwinds (id : ℕ) : Unwinds daemonStep (written id) (ownRound id) daemonStep
    (written firstEvent) (Beside id) where
  others s t ev s' h hev hstep :=
    ⟨⟨consistent_step h.consistent hstep, h.old.trans_le (nextAddr_mono h.consistent hstep),
      follows_others h.consistent h.old h.follows hev hstep⟩, written_others hev s⟩
  own s t ev ev' s' h hev hstep := by
    obtain ⟨d, rfl, rfl⟩ := ownRound_some hev
    have hs' := consistent_step h.consistent hstep
    have hold' := h.old.trans_le (nextAddr_mono h.consistent hstep)
    cases h.follows with
    | live card other hopen hopen' halike =>
      obtain ⟨hsent, hboth⟩ := read_alike hopen hopen' halike d
      rw [written_open hopen, written_open hopen', hopen'.step d]
      rw [hopen.step d] at hstep
      rw [hstep] at hboth
      generalize hresult : (doVmRequestRead t other.addr d).result = result at hboth ⊢
      cases hboth with
      | ok hfollows => exact ⟨_, rfl, ⟨hs', hold', hfollows⟩, hsent⟩
    | closed hnone hnone' =>
      obtain ⟨hidle, hwritten⟩ := step_of_closed hnone d
      obtain ⟨hidle', hwritten'⟩ := step_of_closed hnone' d
      rw [hidle] at hstep
      cases hstep
      exact ⟨t, hidle', ⟨hs', hold', .closed hnone hnone'⟩, hwritten.trans hwritten'.symm⟩
    | freed e _ he hid hgone =>
      rw [← hid, step_of_freed h.consistent he hgone d] at hstep
      cases hstep

end

/-! The opening of a channel. -/

section

variable {s s' : Daemon} {cmd : CmdHdr} {behind : Bytes} {env : CommandWorld} {e : ReadEvent}

structure Openable (cmd : CmdHdr) (env : CommandWorld) : Prop where
  type : cmd.cmdType = cmdTypeRegister
  uuid : cmd.card.vmUuid.toList.headD 0 ≠ 0
  path : cmd.card.vmpath.toList.headD 0 ≠ 0
  pathEnds : Terminated cmd.card
  alloc : env.allocCard = true
  opens : opens env.openRun = true

/-- A registration arms an event when it returns 0. -/
theorem register_events {ok : Bool} (htype : cmd.cmdType = cmdTypeRegister)
    (h : beLaCmdProcess cmd behind env s = .ok (ok, s')) :
    (ok = false ∧ s'.events = s.events) ∨ (ok = true ∧ ∃ socket arg,
      s'.events = s.events ++ [⟨s.shared.nextAddr + 1, socket, arg⟩]) := by
  unfold beLaCmdProcess at h
  rw [if_pos htype] at h
  dsimp only at h
  split at h
  · cases h
  · cases h
    exact .inl ⟨rfl, rfl⟩
  · rcases open_spec h with ⟨rfl, rfl⟩ | ⟨card, -, ⟨rfl, rfl⟩ | ⟨socket, rfl, -, rfl⟩⟩
    · exact .inl ⟨rfl, rfl⟩
    · exact .inl ⟨rfl, rfl⟩
    · exact .inr ⟨rfl, socket, card.addr, rfl⟩

/-- A command that arms an event is such a registration, and its card has no session. -/
theorem opened_spec (hs : Consistent s) (h : daemonStep s (.command cmd behind env) = .ok s')
    (hevents : s'.events = s.events ++ [e]) :
    Openable cmd env ∧ s.shared.nextAddr < e.id ∧ e.id < s'.shared.nextAddr ∧
      ∃ card, Open s' e.id card ∧ card.card = cmd.card ∧ card.context = none := by
  have hs' := consistent_step hs h
  have hnew : s'.events ≠ s.events := by
    rw [hevents]
    simp
  obtain ⟨ok, hprocess⟩ : ∃ ok, beLaCmdProcess cmd behind env s = .ok (ok, s') := by
    simp only [daemonStep] at h
    split at h
    · cases h
    · rename_i ok after hprocess
      cases h
      exact ⟨ok, hprocess⟩
  have he : e ∈ s'.events := hevents ▸ List.mem_append_right _ (List.mem_singleton_self e)
  cases change_of_step hs h with
  | idle => exact absurd rfl hnew
  | registered card _ _ _ hsame => exact absurd hsame hnew
  | unregistered card _ _ hsame => exact absurd hsame hnew
  | opened card socket htype hblank hterm hcards hadded =>
    rw [hevents, List.append_cancel_left_eq, List.singleton_inj] at hadded
    set armed : BeCardInner := { card with readEvent := some (s.shared.nextAddr + 1) }
    have harmed : armed ∈ s'.cards := hcards.mem_iff.mpr List.mem_cons_self
    have hopen : Open s' e.id armed := open_of_mem hs' he harmed (by rw [hadded])
    have hnamed : cmd.card.vmUuid.toList.headD 0 ≠ 0 ∧ cmd.card.vmpath.toList.headD 0 ≠ 0 := by
      by_contra hempty
      unfold beLaCmdProcess at hprocess
      rw [if_pos htype] at hprocess
      simp only [reg_asserts hempty] at hprocess
      cases hprocess
    have hins : Inserts s.table env.allocCard cmd.card (behindRecord cmd behind) := by
      by_contra hrefused
      rw [command_refused htype hnamed.1 hnamed.2 hrefused] at hprocess
      cases hprocess
      exact hnew rfl
    obtain ⟨-, inserted, -, hrecord, hrest⟩ :=
      command_inserted htype hnamed.1 hnamed.2 hins hprocess
    -- the armed card is the one that was inserted
    have hcard : armed.card = cmd.card := by
      rcases hrest armed harmed with heq | hold
      · rw [heq, hrecord]
      · exact absurd hblank.addr (hs.fresh armed hold).ne
    have hends : Terminated cmd.card := hcard ▸ hterm
    obtain ⟨after, hresult⟩ := command_opens htype hnamed.1 hnamed.2 hends hins
    rw [hprocess, Except.ok.injEq, Prod.mk.injEq] at hresult
    have hopens : opens env.openRun = true := by
      rcases register_events htype hprocess with ⟨-, hsame⟩ | ⟨htrue, -⟩
      · exact absurd hsame hnew
      · rw [← hresult.1, htrue]
    have hid : s.shared.nextAddr < e.id := by
      rw [hadded]
      exact Nat.lt_succ_self _
    exact ⟨⟨htype, hnamed.1, hnamed.2, hends, hins.alloc, hopens⟩, hid,
      (hs'.freshEvents e he).1, armed, hopen, hcard, hblank.context⟩

/-- A fresh daemon opens the channel as its first. -/
theorem boot_opens (rules : List SwitchRule) (h : Openable cmd env) :
    ∃ t, daemonStep (boot rules) (.command cmd behind env) = .ok t ∧
      ∃ card, Open t firstEvent card ∧ card.card = cmd.card ∧ card.context = none := by
  have hins : Inserts (boot rules).table env.allocCard cmd.card (behindRecord cmd behind) := by
    refine ⟨?_, ?_, h.alloc⟩
    · have hcards : (boot rules).table.cards = [] := records_replicate_none accCardMaxNum
      rw [beLaGetAccCardptr, hcards]
      rfl
    · exact List.mem_replicate.mpr ⟨by decide, rfl⟩
  obtain ⟨t, hprocess⟩ := command_opens h.type h.uuid h.path h.pathEnds hins
  rw [h.opens] at hprocess
  have hstep : daemonStep (boot rules) (.command cmd behind env) = .ok t := by
    simp only [daemonStep, hprocess]
  rcases register_events h.type hprocess with ⟨hfalse, -⟩ | ⟨-, socket, arg, hevents⟩
  · cases hfalse
  · obtain ⟨-, -, -, hopened⟩ := opened_spec (consistent_boot rules) hstep hevents
    exact ⟨t, hstep, hopened⟩

end

section

variable {rules : List SwitchRule} {evs : List DaemonEvent} {s s' : Daemon}

theorem nextAddr_run (hs : Consistent s) (h : exec daemonStep s evs = .ok s') :
    Consistent s' ∧ s.shared.nextAddr ≤ s'.shared.nextAddr := by
  induction evs generalizing s with
  | nil =>
    cases h
    exact ⟨hs, le_refl _⟩
  | cons ev evs ih =>
    cases ht : daemonStep s ev with
    | error stop =>
      rw [exec_cons_of_error ht] at h
      cases h
    | ok t =>
      rw [exec_cons_of_ok ht] at h
      obtain ⟨hs', hle⟩ := ih (consistent_step hs ht) h
      exact ⟨hs', (nextAddr_mono hs ht).trans hle⟩

/-- Nothing is written to a channel that has no event yet. -/
theorem silent_before {id : ℕ} (hs : Consistent s) (h : exec daemonStep s evs = .ok s')
    (hid : s'.shared.nextAddr ≤ id) : outputs daemonStep (written id) s evs = [] := by
  induction evs generalizing s with
  | nil => rfl
  | cons ev evs ih =>
    cases ht : daemonStep s ev with
    | error stop =>
      rw [exec_cons_of_error ht] at h
      cases h
    | ok t =>
      have hle := (nextAddr_run hs h).2
      rw [exec_cons_of_ok ht] at h
      rw [outputs_cons_of_ok evs ht, ih (consistent_step hs ht) h, List.append_nil]
      cases hev : ownRound id ev with
      | none => exact written_others hev s
      | some ev' =>
        obtain ⟨d, rfl, -⟩ := ownRound_some hev
        exact (step_of_closed (fun e he => ((hs.freshEvents e he).1.trans_le (hle.trans hid)).ne)
          d).2

end

structure Opening (rules : List SwitchRule) (evs : List DaemonEvent) where
  before : List DaemonEvent
  cmd : CmdHdr
  behind : Bytes
  env : CommandWorld
  rest : List DaemonEvent
  split : evs = before ++ .command cmd behind env :: rest
  closed : Daemon
  opened : Daemon
  event : ReadEvent
  reached : exec daemonStep (boot rules) before = .ok closed
  step : daemonStep closed (.command cmd behind env) = .ok opened
  armed : opened.events = closed.events ++ [event]

def Opening.alone {rules : List SwitchRule} {evs : List DaemonEvent} (o : Opening rules evs) :
    List DaemonEvent :=
  .command o.cmd o.behind o.env :: ownRounds o.event.id o.rest

namespace Opening

variable {rules : List SwitchRule} {evs evs' : List DaemonEvent} {s : Daemon}

def extend (o : Opening rules evs) (evs' : List DaemonEvent) : Opening rules (evs ++ evs') :=
  { o with
    rest := o.rest ++ evs'
    split := (congrArg (· ++ evs') o.split).trans (List.append_assoc _ _ _) }

theorem alone_extend (o : Opening rules evs) (evs' : List DaemonEvent) :
    (o.extend evs').alone = o.alone ++ ownRounds o.event.id evs' := by
  simp [alone, extend, ownRounds]

/-- The daemon that serves the channel alone follows the run of the other one. -/
theorem follows (o : Opening rules evs) (rules' : List SwitchRule)
    (h : exec daemonStep (boot rules) evs = .ok s) :
    ∃ t, exec daemonStep (boot rules') o.alone = .ok t ∧ Beside o.event.id s t ∧
      outputs daemonStep (written o.event.id) (boot rules) evs =
        outputs daemonStep (written firstEvent) (boot rules') o.alone := by
  have hclosed := (nextAddr_run (consistent_boot rules) o.reached).1
  obtain ⟨hopenable, hnew, hold, card, hcard, hrecord, hcontext⟩ :=
    opened_spec hclosed o.step o.armed
  obtain ⟨t, hfirst, other, hother, hrecord', hcontext'⟩ :=
    @boot_opens o.cmd o.behind o.env rules' hopenable
  have hbeside : Beside o.event.id o.opened t :=
    ⟨consistent_step hclosed o.step, hold, .live card other hcard hother
      ⟨hrecord.trans hrecord'.symm, by rw [hcontext, hcontext']⟩⟩
  have hrest : exec daemonStep o.opened o.rest = .ok s := by
    rw [o.split] at h
    obtain ⟨closed, hreached, h⟩ := exec_append_iff.mp h
    rw [o.reached, Except.ok.injEq] at hreached
    subst hreached
    rwa [exec_cons_of_ok o.step] at h
  obtain ⟨t', halone, hlast, houtputs⟩ := (beside_unwinds o.event.id).run hbeside hrest
  refine ⟨t', (exec_cons_of_ok hfirst).trans halone, hlast, ?_⟩
  have hsilent := silent_before (consistent_boot rules) o.reached hnew.le
  have hwhole : outputs daemonStep (written o.event.id) (boot rules) evs =
      outputs daemonStep (written o.event.id) o.opened o.rest := by
    refine (congrArg (outputs daemonStep (written o.event.id) (boot rules)) o.split).trans ?_
    rw [outputs_append _ o.reached, hsilent, outputs_cons_of_ok _ o.step]
    rfl
  rw [hwhole, houtputs, alone, outputs_cons_of_ok _ hfirst]
  rfl

end Opening

section

variable {rules : List SwitchRule} {evs : List DaemonEvent} {s s' : Daemon}

/-- Every armed event of a run has been opened in it. -/
theorem exists_opening (h : exec daemonStep (boot rules) evs = .ok s) {e : ReadEvent}
    (he : e ∈ s.events) : ∃ o : Opening rules evs, o.event = e := by
  induction evs using List.reverseRecOn generalizing s with
  | nil =>
    cases h
    cases he
  | append_singleton evs ev ih =>
    obtain ⟨closed, hreached, hstep⟩ := exec_append_iff.mp h
    have hclosed := (nextAddr_run (consistent_boot rules) hreached).1
    have hlast : daemonStep closed ev = .ok s := by
      cases ht : daemonStep closed ev with
      | error stop =>
        rw [exec_cons_of_error ht] at hstep
        cases hstep
      | ok t =>
        rw [exec_cons_of_ok ht] at hstep
        exact hstep
    have hextended : e ∈ closed.events → ∃ o : Opening rules (evs ++ [ev]), o.event = e := by
      intro hold
      obtain ⟨o, ho⟩ := ih hreached hold
      exact ⟨o.extend [ev], ho⟩
    rcases events_step hclosed hlast with hsub | ⟨cmd, behind, env, new, rfl, hevents, -⟩
    · exact hextended (hsub e he)
    · rw [hevents] at he
      rcases List.mem_append.mp he with hold | hnew
      · exact hextended hold
      · obtain rfl := List.mem_singleton.mp hnew
        exact ⟨⟨evs, cmd, behind, env, [], rfl, closed, s, e, hreached, hlast, hevents⟩, rfl⟩

/-- A VM is written, in every run, the bytes that a daemon writes that serves it alone. Both leave
its session alike, unless a command has freed its card behind its open channel; the messages,
failures and closes of the others are not seen. -/
theorem as_if_alone (rules' : List SwitchRule) (o : Opening rules evs)
    (h : exec daemonStep (boot rules) evs = .ok s) :
    ∃ t, exec daemonStep (boot rules') o.alone = .ok t ∧
      outputs daemonStep (written o.event.id) (boot rules) evs =
        outputs daemonStep (written firstEvent) (boot rules') o.alone ∧
      Follows s o.event.id t firstEvent := by
  obtain ⟨t, halone, hbeside, houtputs⟩ := o.follows rules' h
  exact ⟨t, halone, houtputs, hbeside.follows⟩

/-- Two VMs connect; the second one is refused a batch, and leaves. -/
def twoVms : List DaemonEvent :=
  [registerPlain 0x73, registerPlain 0x74,
    .readable 2 (arriving (helloMessage []) .healthy),
    .readable 4 (arriving (helloMessage []) .healthy),
    .readable 2 (arriving (addFlowsMessage [AccFlow.plain 6]) .healthy),
    .readable 4 (arriving (addFlowsMessage [AccFlow.plain 1]) .healthy),
    .readable 4 (closing .healthy)]

theorem as_if_alone_twoVms :
    ∃ s, ∃ o : Opening [] twoVms, ∃ t, o.event.id = 4 ∧
      exec daemonStep (boot []) o.alone = .ok t ∧
      outputs daemonStep (written o.event.id) (boot []) twoVms =
        outputs daemonStep (written firstEvent) (boot []) o.alone ∧
      Follows s o.event.id t firstEvent := by
  obtain ⟨s, h, -⟩ : ∃ s, exec daemonStep (boot []) twoVms = .ok s ∧ s.cards.length = 1 :=
    exists_of_eval (by decide +kernel)
  let o : Opening [] twoVms :=
    { before := [registerPlain 0x73], cmd := _, behind := _, env := _, rest := _, split := rfl,
      closed := _, opened := _, event := _, reached := rfl, step := rfl, armed := rfl }
  obtain ⟨t, halone, houtputs, hfollows⟩ := as_if_alone [] o h
  exact ⟨s, o, t, rfl, halone, houtputs, hfollows⟩

def CommandReturns (s : Daemon) : DaemonEvent → Prop
  | .command cmd behind env => ∃ s', daemonStep s (.command cmd behind env) = .ok s'
  | .readable _ _ => True

/-- A round on a channel that stops the daemon stops the one that serves the channel alone. -/
theorem stops_alone {id : ℕ} {t : Daemon} {d : Delivery} {stop : Stop} (hbeside : Beside id s t)
    (hlive : NoFreedCard s) (h : daemonStep s (.readable id d) = .error stop) :
    daemonStep t (.readable firstEvent d) = .error stop := by
  cases hbeside.follows with
  | live card other hopen hopen' halike =>
    have hboth := (read_alike hopen hopen' halike d).2
    rw [hopen'.step d]
    rw [hopen.step d] at h
    rw [h] at hboth
    generalize hresult : (doVmRequestRead t other.addr d).result = result at hboth ⊢
    cases hboth
    rfl
  | closed hnone =>
    rw [(step_of_closed hnone d).1] at h
    cases h
  | freed e _ he _ hgone =>
    obtain ⟨card, hcard, harg⟩ := hlive.live e he
    exact absurd harg (hgone card hcard)

/-- In a run whose commands return and free no card of an open channel, the daemon survives
exactly when it would survive each of its VMs alone. -/
theorem survives_iff (rules' : List SwitchRule)
    (hcommands : Each daemonStep (fun s ev => CommandReturns s ev ∧ ¬ LiveUnregister s ev)
      (boot rules) evs) :
    (∃ s, exec daemonStep (boot rules) evs = .ok s) ↔
      ∀ o : Opening rules evs, ∃ t, exec daemonStep (boot rules') o.alone = .ok t := by
  constructor
  · rintro ⟨s, h⟩ o
    obtain ⟨t, halone, -⟩ := o.follows rules' h
    exact ⟨t, halone⟩
  · intro hall
    cases hexec : exec daemonStep (boot rules) evs with
    | ok s => exact ⟨s, rfl⟩
    | error stop =>
      exfalso
      obtain ⟨before, ev, after, s, rfl, hreached, hstop⟩ := exists_stopping hexec
      have hsafe : Consistent s ∧ NoFreedCard s :=
        (along_iff_reached (P := fun s => Consistent s ∧ NoFreedCard s) _ _).mp
          (along_of_each (fun _ _ _ hs hev hstep => ⟨consistent_step hs.1 hstep,
            noFreedCard_step hs.1 hs.2 hev.2 hstep⟩)
            ⟨consistent_boot rules, noFreedCard_boot rules⟩ hcommands.front)
          before s (List.prefix_refl _) hreached
      cases ev with
      | command cmd behind env =>
        obtain ⟨⟨t, hreturns⟩, -⟩ := hcommands.step_at hreached
        rw [hstop] at hreturns
        cases hreturns
      | readable id d =>
        -- the event is armed, so its channel has been opened before
        have harmed : ∃ e ∈ s.events, e.id = id := by
          by_contra hnone
          have hidle := (step_of_closed (fun e he hid => hnone ⟨e, he, hid⟩) d).1
          rw [hstop] at hidle
          cases hidle
        obtain ⟨e, he, rfl⟩ := harmed
        obtain ⟨o, rfl⟩ := exists_opening hreached he
        obtain ⟨t, halone, hbeside, -⟩ := o.follows rules' hreached
        have hstops := stops_alone hbeside hsafe.2 hstop
        obtain ⟨t', hsurvives⟩ := hall (o.extend (.readable o.event.id d :: after))
        have hown : ownRounds o.event.id (.readable o.event.id d :: after) =
            .readable firstEvent d :: ownRounds o.event.id after :=
          List.filterMap_cons_some (if_pos rfl)
        rw [o.alone_extend, hown] at hsurvives
        obtain ⟨t₁, hfirst, hrest⟩ := exec_append_iff.mp hsurvives
        rw [halone, Except.ok.injEq] at hfirst
        subst hfirst
        rw [exec_cons_of_error hstops] at hrest
        cases hrest

/-- A registration with a uuid and a path returns, and frees nothing. -/
theorem register_returns {cmd : CmdHdr} (htype : cmd.cmdType = cmdTypeRegister)
    (hnamed : WellNamed cmd.card) (behind : Bytes) (env : CommandWorld) (s : Daemon) :
    CommandReturns s (.command cmd behind env) ∧ ¬ LiveUnregister s (.command cmd behind env) := by
  constructor
  · by_cases hins : Inserts s.table env.allocCard cmd.card (behindRecord cmd behind)
    · obtain ⟨s', h⟩ := command_opens htype hnamed.uuid hnamed.path hnamed.pathEnds hins
      exact ⟨s', by simp only [daemonStep, h]⟩
    · refine ⟨s, ?_⟩
      simp only [daemonStep, command_refused htype hnamed.uuid hnamed.path hins]
  · rintro ⟨card, hfrees, -⟩
    have htypes := htype.symm.trans hfrees.type
    exact absurd htypes (by decide)

/-- The second VM says good-bye before it closes, so that the close path stops the daemon. -/
def byeThenClose : List DaemonEvent :=
  [registerPlain 0x73, registerPlain 0x74,
    .readable 2 (arriving (helloMessage []) .healthy),
    .readable 4 (arriving (helloMessage []) .healthy),
    .readable 4 (arriving byeMessage .healthy),
    .readable 4 (closing .healthy),
    .readable 2 (arriving (addFlowsMessage [AccFlow.plain 6]) .healthy)]

theorem survives_iff_byeThenClose :
    ((∃ s, exec daemonStep (boot []) byeThenClose = .ok s) ↔
      ∀ o : Opening [] byeThenClose, ∃ t, exec daemonStep (boot []) o.alone = .ok t) ∧
    ¬ ∃ s, exec daemonStep (boot []) byeThenClose = .ok s := by
  refine ⟨survives_iff [] (each_of_forall ?_ _), ?_⟩
  · have hnamed : WellNamed (AccCard.plain 0x74) := ⟨by decide, by decide, by decide, by decide⟩
    simp only [byeThenClose, List.forall_mem_cons, List.not_mem_nil, false_implies, implies_true,
      and_true]
    exact ⟨register_returns rfl wellNamed_plain [] _, register_returns rfl hnamed [] _,
      fun _ => ⟨trivial, not_false⟩, fun _ => ⟨trivial, not_false⟩, fun _ => ⟨trivial, not_false⟩,
      fun _ => ⟨trivial, not_false⟩, fun _ => ⟨trivial, not_false⟩⟩
  · rintro ⟨s, h⟩
    have hstops : exec daemonStep (boot []) byeThenClose =
        .error (.assertion .beAccFlushRules) := rfl
    rw [hstops] at h
    cases h

end

end BeLa.Alone
