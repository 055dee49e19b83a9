import BeLa.Attachment
import BeLa.Pairing

/-!
The calls of plugin hooks. Each round of the daemon is given the calls of
`context_init` that succeed, the calls of `context_destroy` and the writes of
`card->context` that its handlers make, in order. A HELLO pairs them; the flush
behind DISCONNECT and close frees the context without the hook, so the log of a
run is paired exactly when no session ends that way. The flush of a session with
a remote host stops the daemon before it touches the context.
-/
namespace BeLa.PluginHooks

open LittleEndian PartialTransfer Runs Stops Slots Switch Framing Context Execute Editing Plugin
open Card Message Channel Command Client Handling Steps Invariant Ledger Attachment Pairing

/-- Owners are cards and objects are contexts, both by their addresses. -/
abbrev HookLog := List (Entry ℕ PluginSlot ℕ)

/-- `be_plugin_context_init` and what follows it in `hello_message_handle`. -/
def setupCalls (w : World) (card : BeCardInner) (slot : PluginSlot) (sh : Shared) : HookLog :=
  match bePluginContextInit gAccPlugins slot w card.addr sh.nextAddr with
  | .error _ => []
  | .ok none => []
  | .ok (some context) => [.made card.addr slot context.addr, .wrote card.addr (some context.addr)]

/-- The calls of `hello_message_handle`. -/
def helloCalls (w : World) (card : BeCardInner) (message : Bytes) (sh : Shared) : HookLog :=
  if nameSize < message.length then []
  else
    match bePluginMatch gAccPlugins card.card.vendor card.card.model card.card.accType with
    | .error _ => []
    | .ok none => []
    | .ok (some slot) =>
      match card.context with
      | none => setupCalls w card slot sh
      | some context =>
        match bePluginContextDestory gAccPlugins slot context with
        | .error _ => [.released card.addr slot context.addr]
        | .ok () => [.released card.addr slot context.addr, .wrote card.addr none] ++
            setupCalls w card slot sh

/-- The calls of `be_acc_flush_rules`: `acc_context_destory` frees the context itself, once the
flush of its rules has returned. -/
def flushCalls (w : World) (card : BeCardInner) (sh : Shared) : HookLog :=
  match card.context with
  | none => []
  | some context =>
    match context.be with
    | none => []
    | some .ovsRule =>
      match accOvsFlushRules w context (w.shell 0) sh with
      | .error _ => []
      | .ok _ => [.wrote card.addr none]

/-- The calls of `be_acc_message_process`. -/
def processCalls (w : World) (card : BeCardInner) (type : BitVec 32) (message : Bytes)
    (sh : Shared) : HookLog :=
  match handlerAt type with
  | .error _ => []
  | .ok .hello => helloCalls w card message sh
  | .ok .addFlows => []
  | .ok .disconnect => flushCalls w card sh

/-- The calls of `do_vm_request_read`. -/
def readCalls (s : Daemon) (arg : ℕ) (d : Delivery) : HookLog :=
  match s.cardAt arg with
  | none => []
  | some card =>
    match (accUnixRecvMessage bufSize ⟨d.stream, d.reads⟩).result with
    | .error _ => []
    | .ok ⟨none, _⟩ =>
      match card.readEvent with
      | none => []
      | some _ => flushCalls d.world card s.shared
    | .ok ⟨some msg, _⟩ => processCalls d.world card msg.hdr.msgType msg.body s.shared

/-- The calls of a round; commands call no hook and write no context. -/
def eventCalls (s : Daemon) : DaemonEvent → HookLog
  | .command _ _ _ => []
  | .readable event d =>
    match s.events.find? (fun e => e.id = event) with
    | none => []
    | some e => readCalls s e.arg d

def hookLog : Daemon → List DaemonEvent → HookLog
  | _, [] => []
  | s, ev :: evs =>
    eventCalls s ev ++
      match daemonStep s ev with
      | .error _ => []
      | .ok s' => hookLog s' evs

/-- A DISCONNECT or the end of the channel, on a card with a context that runs its commands
here. -/
def EndsByFlush (s : Daemon) : DaemonEvent → Prop
  | .command _ _ _ => False
  | .readable event d =>
    ∃ e ∈ s.events, e.id = event ∧ ∃ card ∈ s.cards, card.addr = e.arg ∧
      (∃ context, card.context = some context ∧ context.sshRemote = none) ∧
      ((∃ rest, (accUnixRecvMessage bufSize ⟨d.stream, d.reads⟩).result = .ok ⟨none, rest⟩) ∨
        ∃ msg, receivedMessage d = some msg ∧ msg.hdr.msgType = accUnixDisconnect)

variable {s s' : Daemon} {log : HookLog} {ev : DaemonEvent}

/-- The log tells which context each card has and which plugin made it. -/
structure Tracks (log : HookLog) (s : Daemon) : Prop where
  settled : Settled log
  field : ∀ card ∈ s.cards, fieldOf log card.addr = card.context.map AccContext.addr
  made : ∀ card ∈ s.cards, ∀ context, card.context = some context →
    ∃ slot, matchOf card.card = .ok (some slot) ∧ .made card.addr slot context.addr ∈ log
  known : ∀ owner slot object, .made owner slot object ∈ log →
    owner < s.shared.nextAddr ∧ object < s.shared.nextAddr

theorem tracks_boot (rules : List SwitchRule) : Tracks [] (boot rules) := by
  have hcards : (boot rules).cards = [] := records_replicate_none accCardMaxNum
  exact ⟨settled_nil, by simp [hcards], by simp [hcards], by simp⟩

/-- The field of an address that is not handed out is unwritten. -/
theorem Tracks.field_fresh (h : Tracks log s) {addr : ℕ} (haddr : s.shared.nextAddr ≤ addr) :
    fieldOf log addr = none := by
  rw [Option.eq_none_iff_forall_ne_some]
  intro object hheld
  obtain ⟨slot, hmade⟩ := h.settled.held addr object hheld
  exact absurd (h.known addr slot object hmade).1 (by omega)

/-- Commands change the cards of the table, but nobody's context. -/
theorem tracks_command (hs : Consistent s) (h : Tracks log s) {cmd : CmdHdr} {behind : Bytes}
    {env : CommandWorld} (hstep : daemonStep s (.command cmd behind env) = .ok s') :
    Tracks log s' := by
  have hmono := nextAddr_mono hs hstep
  have hcards : ∀ card ∈ s'.cards, card ∈ s.cards ∨
      (card.addr = s.shared.nextAddr ∧ card.context = none) := by
    intro x hx
    cases change_of_step hs hstep with
    | idle => exact .inl hx
    | registered card _ hblank hperm =>
      rcases List.mem_cons.mp (hperm.mem_iff.mp hx) with rfl | hold
      · exact .inr ⟨hblank.addr, hblank.context⟩
      · exact .inl hold
    | opened card socket _ hblank _ hperm =>
      rcases List.mem_cons.mp (hperm.mem_iff.mp hx) with rfl | hold
      · exact .inr ⟨hblank.addr, hblank.context⟩
      · exact .inl hold
    | unregistered card _ hperm => exact .inl (hperm.mem_iff.mpr (List.mem_cons_of_mem _ hx))
  refine ⟨h.settled, ?_, ?_, ?_⟩
  · intro card hcard
    rcases hcards card hcard with hold | ⟨haddr, hnone⟩
    · exact h.field card hold
    · rw [hnone, h.field_fresh haddr.ge]
      rfl
  · intro card hcard context hcontext
    rcases hcards card hcard with hold | ⟨-, hnone⟩
    · exact h.made card hold context hcontext
    · rw [hnone] at hcontext
      cases hcontext
  · intro owner slot object hmade
    obtain ⟨howner, hobject⟩ := h.known owner slot object hmade
    exact ⟨howner.trans_le hmono, hobject.trans_le hmono⟩

/-- A write to one card, with a longer log that tells of its new context. -/
theorem tracks_write {card card' : BeCardInner} {shared : Shared} {log' : HookLog}
    (h : Tracks log s) (hgrown : log ⊆ log') (haddr : card'.addr = card.addr)
    (hrecord : card'.card = card.card) (hsettled : Settled log')
    (hfield : fieldOf log' card.addr = card'.context.map AccContext.addr)
    (hothers : ∀ other, other ≠ card.addr → fieldOf log' other = fieldOf log other)
    (hmade : ∀ context, card'.context = some context →
      ∃ slot, matchOf card.card = .ok (some slot) ∧ .made card.addr slot context.addr ∈ log')
    (hknown : ∀ owner slot object, .made owner slot object ∈ log' →
      owner < shared.nextAddr ∧ object < shared.nextAddr) :
    Tracks log' { s.writeCard card' with shared := shared } := by
  refine ⟨hsettled, ?_, ?_, hknown⟩
  · intro x hx
    rcases mem_writeCard.mp hx with ⟨rfl, -⟩ | ⟨hold, hne⟩
    · rw [haddr, hfield]
    · rw [haddr] at hne
      rw [hothers x.addr hne, h.field x hold]
  · intro x hx context hcontext
    rcases mem_writeCard.mp hx with ⟨rfl, -⟩ | ⟨hold, -⟩
    · rw [haddr, hrecord]
      exact hmade context hcontext
    · obtain ⟨slot, hmatch, hin⟩ := h.made x hold context hcontext
      exact ⟨slot, hmatch, hgrown hin⟩

def tearCalls (card : BeCardInner) (slot : PluginSlot) : HookLog :=
  match card.context with
  | none => []
  | some context => giveUp card.addr slot context.addr

theorem helloCalls_matched {w : World} {card : BeCardInner} {message : Bytes} {sh : Shared}
    {slot : PluginSlot} (hsound : Sound card) (hlen : ¬ nameSize < message.length)
    (hmatch : bePluginMatch gAccPlugins card.card.vendor card.card.model card.card.accType =
      .ok (some slot)) :
    helloCalls w card message sh = tearCalls card slot ++ setupCalls w card slot sh := by
  unfold helloCalls tearCalls
  simp only [if_neg hlen, hmatch]
  cases hcontext : card.context with
  | none => rfl
  | some context =>
    simp only [destroy_sound (hsound context hcontext) hmatch]
    rfl

/-- After the first calls of a HELLO the card holds no context. -/
theorem settled_tearCalls {card : BeCardInner} {slot : PluginSlot} (h : Tracks log s)
    (hcard : card ∈ s.cards) (hmatch : matchOf card.card = .ok (some slot)) :
    Settled (log ++ tearCalls card slot) ∧
      (∀ other, fieldOf (log ++ tearCalls card slot) other =
        if card.addr = other then none else fieldOf log other) ∧
      ∀ owner plugin object, .made owner plugin object ∈ log ++ tearCalls card slot ↔
        .made owner plugin object ∈ log := by
  unfold tearCalls
  cases hcontext : card.context with
  | none =>
    have hfree := h.field card hcard
    rw [hcontext, Option.map_none] at hfree
    refine ⟨by simpa using h.settled, fun other => ?_, by simp⟩
    rw [List.append_nil]
    split
    · rename_i hsame
      rw [← hsame, hfree]
    · rfl
  | some context =>
    obtain ⟨slot', hmatch', hmade⟩ := h.made card hcard context hcontext
    rw [hmatch] at hmatch'
    obtain rfl : slot = slot' := by simpa using hmatch'
    have hheld := h.field card hcard
    rw [hcontext, Option.map_some] at hheld
    exact ⟨h.settled.giveUp hheld hmade, fun other => fieldOf_giveUp other,
      fun owner plugin object => made_mem_giveUp⟩

/-- Past the plugin match a HELLO gives up the old context and may get a new one. -/
theorem hello_matched_tracks {w : World} {card : BeCardInner} {message : Bytes}
    {slot : PluginSlot} (hs : Consistent s) (h : Tracks log s) (hcard : card ∈ s.cards)
    (hlen : ¬ nameSize < message.length)
    (hmatch : bePluginMatch gAccPlugins card.card.vendor card.card.model card.card.accType =
      .ok (some slot)) :
    Paired (log ++ helloCalls w card message s.shared) ∧
      ∀ outLen handled, helloMessageHandle w card message outLen s.shared = .ok handled →
        Tracks (log ++ helloCalls w card message s.shared)
          { s.writeCard handled.card with shared := handled.shared } := by
  have hsound := hs.sound card hcard
  obtain ⟨htorn, hfield, hmade⟩ := settled_tearCalls h hcard hmatch
  rw [helloCalls_matched hsound hlen hmatch]
  simp only [hello_matched hsound hlen hmatch, setupCalls, bePluginContextInit]
  have hfree : fieldOf (log ++ tearCalls card slot) card.addr = none :=
    (hfield card.addr).trans (if_pos rfl)
  cases hhook : (gAccPlugins slot.vendor slot.model).contextInit with
  | none =>
    rw [List.append_nil]
    exact ⟨htorn.paired, fun _ _ hrun => by cases hrun⟩
  | some hook =>
    cases hinit : initContext hook w card.addr s.shared.nextAddr with
    | none =>
      simp only [hinit, List.append_nil]
      refine ⟨htorn.paired, fun outLen handled hrun => ?_⟩
      cases hrun
      refine tracks_write h (List.subset_append_left _ _) rfl rfl htorn hfree ?_ ?_ ?_
      · intro other hne
        rw [hfield, if_neg hne.symm]
      · intro context hnone
        cases hnone
      · intro owner plugin object hin
        exact h.known owner plugin object ((hmade owner plugin object).mp hin)
    | some zeroed =>
      obtain ⟨haddr, -⟩ := initContext_spec hinit
      have hnew : ∀ maker plugin, .made maker plugin zeroed.addr ∉ log ++ tearCalls card slot := by
        intro maker plugin hin
        have hlt := (h.known _ _ _ ((hmade maker plugin zeroed.addr).mp hin)).2
        omega
      have hgot : Settled (log ++ tearCalls card slot ++ acquire card.addr slot zeroed.addr) :=
        htorn.acquire hfree hnew
      have hgrown : log ⊆ log ++ tearCalls card slot ++ acquire card.addr slot zeroed.addr :=
        fun _ hin => List.mem_append_left _ (List.mem_append_left _ hin)
      simp only [hinit]
      rw [← List.append_assoc]
      refine ⟨hgot.paired, fun outLen handled hrun => ?_⟩
      cases hrun
      refine tracks_write h hgrown rfl rfl hgot ?_ ?_ ?_ ?_
      · exact (fieldOf_acquire _).trans (if_pos rfl)
      · intro other hne
        refine (fieldOf_acquire _).trans ?_
        rw [if_neg hne.symm, hfield, if_neg hne.symm]
      · intro context hcontext
        cases hcontext
        exact ⟨slot, hmatch, made_mem_acquire.mpr (.inr ⟨rfl, rfl, rfl⟩)⟩
      · intro owner plugin object hin
        rcases made_mem_acquire.mp hin with hold | ⟨rfl, rfl, rfl⟩
        · obtain ⟨howner, hobject⟩ := h.known _ _ _ ((hmade owner plugin object).mp hold)
          exact ⟨howner.trans (Nat.lt_succ_self _), hobject.trans (Nat.lt_succ_self _)⟩
        · rw [haddr]
          exact ⟨(hs.fresh card hcard).trans (Nat.lt_succ_self _), Nat.lt_succ_self _⟩

/-- A HELLO pairs its calls, and tells of the context it leaves. -/
theorem hello_tracks {w : World} {card : BeCardInner} {message : Bytes} (hs : Consistent s)
    (h : Tracks log s) (hcard : card ∈ s.cards) :
    Paired (log ++ helloCalls w card message s.shared) ∧
      ∀ outLen handled, helloMessageHandle w card message outLen s.shared = .ok handled →
        Tracks (log ++ helloCalls w card message s.shared)
          { s.writeCard handled.card with shared := handled.shared } := by
  have hsound := hs.sound card hcard
  -- where no call is made the card keeps its context
  have hquiet : ∀ plugin, Tracks (log ++ [])
      { s.writeCard { card with plugin := plugin } with shared := s.shared } := fun plugin =>
    tracks_write h (List.subset_append_left _ _) rfl rfl (by simpa using h.settled)
      (by simpa using h.field card hcard)
      (fun other _ => by rw [List.append_nil])
      (fun context hcontext => by simpa using h.made card hcard context hcontext)
      (fun owner slot object hin => h.known owner slot object (by simpa using hin))
  by_cases hlen : nameSize < message.length
  · have hcalls : helloCalls w card message s.shared = [] := if_pos hlen
    rw [hcalls]
    refine ⟨by simpa using h.settled.paired, fun outLen handled hrun => ?_⟩
    simp only [helloMessageHandle, if_pos hlen, Except.ok.injEq] at hrun
    subst hrun
    exact hquiet card.plugin
  · cases hmatch : bePluginMatch gAccPlugins card.card.vendor card.card.model
        card.card.accType with
    | error stop =>
      have hcalls : helloCalls w card message s.shared = [] := by
        simp only [helloCalls, if_neg hlen, hmatch]
      rw [hcalls]
      refine ⟨by simpa using h.settled.paired, fun outLen handled hrun => ?_⟩
      simp only [helloMessageHandle, if_neg hlen, hmatch] at hrun
      cases hrun
    | ok found =>
      cases found with
      | none =>
        have hcalls : helloCalls w card message s.shared = [] := by
          simp only [helloCalls, if_neg hlen, hmatch]
        rw [hcalls]
        refine ⟨by simpa using h.settled.paired, fun outLen handled hrun => ?_⟩
        simp only [helloMessageHandle, if_neg hlen, hmatch, Except.ok.injEq] at hrun
        subst hrun
        exact hquiet none
      | some slot => exact hello_matched_tracks hs h hcard hlen hmatch

theorem flushCalls_eq {w : World} {card : BeCardInner} (hsound : Sound card) (sh : Shared) :
    flushCalls w card sh =
      match card.context with
      | none => []
      | some context => if context.sshRemote.isSome then [] else [.wrote card.addr none] := by
  unfold flushCalls
  cases hcontext : card.context with
  | none => rfl
  | some context =>
    have hbridge := bridge_length_of_br0 (hsound context hcontext).bridge
    simp only [(hsound context hcontext).be, flushRules_eq hbridge]
    by_cases hremote : context.sshRemote.isSome
    · simp only [if_pos hremote]
    · simp only [if_neg hremote]

/-- A flush that stops the daemon, or finds nothing to flush, calls no hook. -/
theorem flushCalls_nil {w : World} {card : BeCardInner} (hsound : Sound card) (sh : Shared)
    (h : ¬ ∃ context, card.context = some context ∧ context.sshRemote = none) :
    flushCalls w card sh = [] := by
  rw [flushCalls_eq hsound]
  cases hcontext : card.context with
  | none => rfl
  | some context =>
    refine if_pos (Option.isSome_iff_ne_none.mpr fun hlocal => h ⟨context, hcontext, hlocal⟩)

/-- A message pairs its calls unless it is the DISCONNECT of a session without a remote host. -/
theorem process_tracks {w : World} {card : BeCardInner} {type : BitVec 32} {message : Bytes}
    (hs : Consistent s) (h : Tracks log s) (hcard : card ∈ s.cards)
    (hkept : (∃ context, card.context = some context ∧ context.sshRemote = none) →
      type ≠ accUnixDisconnect) :
    Paired (log ++ processCalls w card type message s.shared) ∧
      ∀ outLen handled, beAccMessageProcess w card type message outLen s.shared = .ok handled →
        Tracks (log ++ processCalls w card type message s.shared)
          { s.writeCard handled.card with shared := handled.shared } := by
  have hsound := hs.sound card hcard
  unfold processCalls beAccMessageProcess
  rcases handlerAt_cases type with ⟨-, hat⟩ | ⟨-, hat⟩ | ⟨htype, hat⟩ | ⟨-, hat | hat⟩
  · rw [hat]
    exact hello_tracks hs h hcard
  · simp only [hat, List.append_nil]
    refine ⟨h.settled.paired, fun outLen handled hrun => ?_⟩
    have hprocess : beAccMessageProcess w card type message outLen s.shared = .ok handled := by
      unfold beAccMessageProcess
      rw [hat]
      exact hrun
    have hmono := (handles_keeps hsound (handles_of_process hsound hprocess)).2.2.2
    rw [addFlows_card hrun, ← List.append_nil log]
    refine tracks_write h (List.subset_append_left _ _) rfl rfl (by simpa using h.settled)
      (by simpa using h.field card hcard)
      (fun other _ => by rw [List.append_nil])
      (fun context hcontext => by simpa using h.made card hcard context hcontext)
      (fun owner slot object hin => ?_)
    obtain ⟨howner, hobject⟩ := h.known owner slot object (by simpa using hin)
    exact ⟨howner.trans_le hmono, hobject.trans_le hmono⟩
  · have hstays := fun hlocal => hkept hlocal htype
    simp only [hat, flushCalls_nil hsound s.shared hstays, List.append_nil]
    refine ⟨h.settled.paired, fun outLen handled hrun => ?_⟩
    change disconnectMessageHandle w card s.shared = .ok handled at hrun
    rw [disconnect_spec hsound] at hrun
    cases hcontext : card.context with
    | none => simp [hcontext] at hrun
    | some context =>
      by_cases hremote : context.sshRemote.isSome
      · simp [hcontext, hremote] at hrun
      · exact absurd ⟨context, hcontext, Option.not_isSome_iff_eq_none.mp hremote⟩ hstays
  · simp only [hat, List.append_nil]
    exact ⟨h.settled.paired, fun _ _ hrun => by cases hrun⟩
  · simp only [hat, List.append_nil]
    exact ⟨h.settled.paired, fun _ _ hrun => by cases hrun⟩

/-- A round pairs its calls unless it ends a session by a flush. -/
theorem event_tracks (hs : Consistent s) (h : Tracks log s) (hev : ¬ EndsByFlush s ev) :
    Paired (log ++ eventCalls s ev) ∧
      ∀ s', daemonStep s ev = .ok s' → Tracks (log ++ eventCalls s ev) s' := by
  cases ev with
  | command cmd behind env =>
    simp only [eventCalls, List.append_nil]
    exact ⟨h.settled.paired, fun s' hstep => tracks_command hs h hstep⟩
  | readable event d =>
    simp only [eventCalls, daemonStep]
    cases hfind : s.events.find? (fun e => e.id = event) with
    | none =>
      simp only [List.append_nil]
      exact ⟨h.settled.paired, fun s' hstep => by cases hstep; exact h⟩
    | some e =>
      obtain ⟨he, hid⟩ := event_some hfind
      simp only [readCalls, doVmRequestRead]
      cases hat : s.cardAt e.arg with
      | none =>
        simp only [List.append_nil]
        exact ⟨h.settled.paired, fun s' hstep => by cases hstep⟩
      | some card =>
        obtain ⟨hcard, haddr⟩ := cardAt_some hat
        cases hrecv : (accUnixRecvMessage bufSize ⟨d.stream, d.reads⟩).result with
        | error stop =>
          simp only [List.append_nil]
          exact ⟨h.settled.paired, fun s' hstep => by cases hstep⟩
        | ok received =>
          obtain ⟨received, rest⟩ := received
          cases received with
          | none =>
            have hstays : ¬ ∃ context, card.context = some context ∧
                context.sshRemote = none := fun hlocal =>
              hev ⟨e, he, hid, card, hcard, haddr, hlocal, .inl ⟨rest, hrecv⟩⟩
            have hread := hs.armed e he card hcard haddr
            simp only [hread, flushCalls_nil (hs.sound card hcard) s.shared hstays,
              List.append_nil]
            refine ⟨h.settled.paired, fun s' hstep => ?_⟩
            obtain ⟨context, hcontext, hlocal, -⟩ := close_spec hs he hcard haddr hstep
            exact absurd ⟨context, hcontext, hlocal⟩ hstays
          | some msg =>
            have hreceived : receivedMessage d = some msg := by rw [receivedMessage, hrecv]
            have hkept : (∃ context, card.context = some context ∧
                context.sshRemote = none) → msg.hdr.msgType ≠ accUnixDisconnect :=
              fun hlocal htype => hev ⟨e, he, hid, card, hcard, haddr, hlocal,
                .inr ⟨msg, hreceived, htype⟩⟩
            obtain ⟨hpaired, htracks⟩ := @process_tracks s log d.world card msg.hdr.msgType
              msg.body hs h hcard hkept
            dsimp only
            refine ⟨hpaired, fun s' hstep => ?_⟩
            split at hstep
            · cases hstep
            · rename_i handled hprocess
              split at hstep
              · cases hstep
              · dsimp only at hstep
                split at hstep
                · cases hstep
                · cases hstep
                  exact htracks 0 handled hprocess

/-- A round that ends a session by a flush clears the context without its hook. -/
theorem event_breaks (hs : Consistent s) (h : Tracks log s) (hev : EndsByFlush s ev) :
    ¬ Paired (log ++ eventCalls s ev) := by
  cases ev with
  | command => exact hev.elim
  | readable event d =>
    obtain ⟨e, he, rfl, card, hcard, haddr, ⟨context, hcontext, hlocal⟩, hends⟩ := hev
    have hfind : s.events.find? (fun other => other.id = e.id) = some e :=
      find_ident hs.eventIds he
    have hat : s.cardAt e.arg = some card := by
      rw [← haddr]
      exact find_ident hs.nodup hcard
    have hread := hs.armed e he card hcard haddr
    have hflush : flushCalls d.world card s.shared = [.wrote card.addr none] := by
      rw [flushCalls_eq (hs.sound card hcard), hcontext]
      simp [hlocal]
    have hcalls : eventCalls s (.readable e.id d) = [.wrote card.addr none] := by
      simp only [eventCalls, hfind, readCalls, hat]
      rcases hends with ⟨rest, hrecv⟩ | ⟨msg, hreceived, htype⟩
      · simp only [hrecv, hread, hflush]
      · unfold receivedMessage at hreceived
        split at hreceived
        · rename_i hrecv
          subst hreceived
          simp only [hrecv, processCalls, htype, handlerAt_disconnect, hflush]
        · cases hreceived
    have hheld := h.field card hcard
    rw [hcontext, Option.map_some] at hheld
    rw [hcalls]
    exact h.settled.not_paired_cleared hheld

/-- From a tracked state on the log stays paired exactly while no session ends by a flush. -/
theorem paired_run_iff (hs : Consistent s) (h : Tracks log s) (evs : List DaemonEvent) :
    Paired (log ++ hookLog s evs) ↔ Each daemonStep (fun s ev => ¬ EndsByFlush s ev) s evs := by
  induction evs generalizing s log with
  | nil => simpa [hookLog, Each] using h.settled.paired
  | cons ev evs ih =>
    simp only [hookLog, Each]
    rw [← List.append_assoc]
    by_cases hev : EndsByFlush s ev
    · refine iff_of_false (fun hpaired => ?_) (fun heach => heach.1 hev)
      exact event_breaks hs h hev hpaired.of_append
    · obtain ⟨hpaired, htracks⟩ := event_tracks hs h hev
      cases hstep : daemonStep s ev with
      | error stop => simpa [hev] using hpaired
      | ok s' => simpa [hev] using ih (consistent_step hs hstep) (htracks s' hstep)

/-- In the log of a run from start-up every context is destroyed by its plugin exactly once
before it leaves its card, exactly if no session without a remote host ends by DISCONNECT or
close. -/
theorem hooks_paired_iff (rules : List SwitchRule) (evs : List DaemonEvent) :
    Paired (hookLog (boot rules) evs) ↔
      Each daemonStep (fun s ev => ¬ EndsByFlush s ev) (boot rules) evs := by
  simpa using paired_run_iff (consistent_boot rules) (tracks_boot rules) evs

def helloBye : List DaemonEvent :=
  [registerPlain 0x73, .readable 2 (arriving (helloMessage []) .healthy),
    .readable 2 (arriving byeMessage .healthy)]

set_option maxRecDepth 8192 in
/-- The DISCONNECT frees the context without the hook of its plugin. -/
theorem disconnect_skips_destroy :
    ¬ ∀ rules evs s, exec daemonStep (boot rules) evs = .ok s →
      Paired (hookLog (boot rules) evs) := by
  intro hall
  have hrun : ∃ s, exec daemonStep (boot []) helloBye = .ok s := ⟨_, rfl⟩
  obtain ⟨s, hexec⟩ := hrun
  have hlog : hookLog (boot []) helloBye =
      [.made 1 ⟨1, 1⟩ 3, .wrote 1 (some 3)] ++ .wrote 1 none :: [] := rfl
  have hone := hall [] helloBye s hexec _ 1 none [] hlog ⟨1, 1⟩ 3 (by simp) (by simp)
  exact absurd hone (by decide)

end BeLa.PluginHooks
