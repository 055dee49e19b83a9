import BeLa.Invariant

/-!
Freed cards behind live channels. The guard of `be_acc_card_unreg` reads the
session pointers behind the record it is given; for an UNREGISTER command that
record is the received block, and behind it lies whatever the command buffer
holds. So the daemon is safe exactly as long as no such command that passes the
guard names a card whose channel is open.
-/
namespace BeLa.LiveCards

open LittleEndian Runs Slots Switch Context Card Channel Command Handling Paths Steps Invariant

variable {s s' : Daemon}

/-- Every armed event will be called with a card of the table, and no card was freed with
a session of its own. -/
structure NoFreedCard (s : Daemon) : Prop where
  live : ∀ e ∈ s.events, ∃ card ∈ s.cards, card.addr = e.arg
  clean : ∀ card ∈ s.freed, card.context = none ∧ card.plugin = none ∧ card.readEvent = none

/-- An UNREGISTER command that passes the guard and names a card with an open channel. -/
def LiveUnregister (s : Daemon) : DaemonEvent → Prop
  | .command cmd behind _ => ∃ card, Frees s cmd behind card ∧ card.readEvent ≠ none
  | .readable _ _ => False

theorem noFreedCard_boot (rules : List SwitchRule) : NoFreedCard (boot rules) :=
  ⟨fun e he => by simp [boot] at he, fun card hcard => by simp [boot] at hcard⟩

/-- More cards, and events that have their cards among them. -/
theorem noFreedCard_add {armed : List ReadEvent} (hs : NoFreedCard s)
    (hcards : ∀ card ∈ s.cards, card ∈ s'.cards) (hevents : s'.events = s.events ++ armed)
    (harmed : ∀ e ∈ armed, ∃ card ∈ s'.cards, card.addr = e.arg) (hfreed : s'.freed = s.freed) :
    NoFreedCard s' := by
  refine ⟨fun e he => ?_, by rw [hfreed]; exact hs.clean⟩
  rw [hevents] at he
  rcases List.mem_append.mp he with hold | hnew
  · obtain ⟨card, hcard, haddr⟩ := hs.live e hold
    exact ⟨card, hcards card hcard, haddr⟩
  · exact harmed e hnew

/-- A freed card without a session was behind no event. -/
theorem noFreedCard_unregistered {card : BeCardInner} (hs : Consistent s) (hlive : NoFreedCard s)
    (hquiet : card.readEvent = none) (hcards : s.cards.Perm (card :: s'.cards))
    (hevents : s'.events = s.events) (hfreed : s'.freed = s.freed ++ [card]) : NoFreedCard s' := by
  have hcard : card ∈ s.cards := hcards.mem_iff.mpr List.mem_cons_self
  constructor
  · intro e he
    rw [hevents] at he
    obtain ⟨x, hx, haddr⟩ := hlive.live e he
    rcases List.mem_cons.mp (hcards.mem_iff.mp hx) with rfl | hleft
    · have harmed := hs.armed e he x hcard haddr
      rw [hquiet] at harmed
      cases harmed
    · exact ⟨x, hleft, haddr⟩
  · intro x hx
    rw [hfreed] at hx
    rcases List.mem_append.mp hx with hold | hnew
    · exact hlive.clean x hold
    · obtain rfl := List.mem_singleton.mp hnew
      obtain ⟨hcontext, hplugin⟩ := hs.session x hcard hquiet
      exact ⟨hcontext, hplugin, hquiet⟩

/-- The close path frees a cleared card together with its event. -/
theorem noFreedCard_closed {e : ReadEvent} {card : BeCardInner} (hs : Consistent s)
    (hlive : NoFreedCard s) (he : e ∈ s.events) (hcard : card ∈ s.cards)
    (haddr : card.addr = e.arg)
    (hcards : (s.writeCard (cleared card)).cards.Perm (cleared card :: s'.cards))
    (hevents : s'.events = s.events.filter (fun other => other.id ≠ e.id))
    (hfreed : s'.freed = s.freed ++ [cleared card]) : NoFreedCard s' := by
  have harmed := hs.armed e he card hcard haddr
  constructor
  · intro other hother
    rw [hevents] at hother
    obtain ⟨hin, hid⟩ := List.mem_filter.mp hother
    obtain ⟨x, hx, hsame⟩ := hlive.live other hin
    have hne : x.addr ≠ card.addr := by
      intro heq
      have hevent := hs.armed other hin card hcard (heq.symm.trans hsame)
      rw [harmed, Option.some.injEq] at hevent
      exact absurd hevent.symm (by simpa using hid)
    have hkept : x ∈ (s.writeCard (cleared card)).cards := mem_writeCard.mpr (.inr ⟨hx, hne⟩)
    rcases List.mem_cons.mp (hcards.mem_iff.mp hkept) with rfl | hleft
    · exact absurd rfl hne
    · exact ⟨x, hleft, hsame⟩
  · intro x hx
    rw [hfreed] at hx
    rcases List.mem_append.mp hx with hold | hnew
    · exact hlive.clean x hold
    · obtain rfl := List.mem_singleton.mp hnew
      exact ⟨rfl, rfl, rfl⟩

/-- Every round but a live UNREGISTER keeps the cards behind the events. -/
theorem noFreedCard_step {ev : DaemonEvent} (hs : Consistent s) (hlive : NoFreedCard s)
    (hev : ¬ LiveUnregister s ev) (h : daemonStep s ev = .ok s') : NoFreedCard s' := by
  cases change_of_step hs h with
  | idle => exact hlive
  | registered card _ _ hcards hevents hfreed =>
    exact noFreedCard_add hlive (fun x hx => hcards.mem_iff.mpr (List.mem_cons_of_mem _ hx))
      (hevents.trans (List.append_nil _).symm) (by simp) hfreed
  | opened card socket _ _ _ hcards hevents hfreed =>
    refine noFreedCard_add hlive (fun x hx => hcards.mem_iff.mpr (List.mem_cons_of_mem _ hx))
      hevents ?_ hfreed
    intro e he
    obtain rfl := List.mem_singleton.mp he
    exact ⟨_, hcards.mem_iff.mpr List.mem_cons_self, rfl⟩
  | unregistered card hfrees hcards hevents hfreed =>
    have hquiet : card.readEvent = none :=
      Classical.byContradiction fun hread => hev ⟨card, hfrees, hread⟩
    exact noFreedCard_unregistered hs hlive hquiet hcards hevents hfreed
  | handled e card card' msg shared he hcard haddr _ hhandles =>
    have hsame := (handles_keeps (hs.sound card hcard) hhandles).1
    refine ⟨fun other hother => ?_, hlive.clean⟩
    obtain ⟨x, hx, harg⟩ := hlive.live other hother
    by_cases hx' : x.addr = card'.addr
    · exact ⟨card', mem_writeCard.mpr (.inl ⟨rfl, x, hx, hx'⟩), hx'.symm.trans harg⟩
    · exact ⟨x, mem_writeCard.mpr (.inr ⟨hx, hx'⟩), harg⟩
  | closed e card context he hcard haddr _ _ hcards hevents hfreed =>
    exact noFreedCard_closed hs hlive he hcard haddr hcards hevents hfreed

/-- A live UNREGISTER frees a card that still has its event. -/
theorem liveUnregister_frees {ev : DaemonEvent} (hev : LiveUnregister s ev) :
    ∃ s', daemonStep s ev = .ok s' ∧ ¬ NoFreedCard s' := by
  cases ev with
  | readable => exact hev.elim
  | command cmd behind env =>
    obtain ⟨card, hfrees, hread⟩ := hev
    have hne : cmd.cmdType ≠ cmdTypeRegister := by
      rw [hfrees.type]
      decide
    obtain ⟨result, hunreg, hfreed⟩ : ∃ result,
        beAccCardUnreg (.ofCommand cmd.card cmd.cmdType behind) s.table = .ok result ∧
          result.2 = some card := by
      refine ⟨_, by
        simp [beAccCardUnreg, UnregInfo.ofCommand, hfrees.context, hfrees.plugin,
          hfrees.readEvent]; rfl, ?_⟩
      dsimp only
      rw [takeOut_find]
      exact hfrees.named
    refine ⟨{ s with table := result.1, freed := s.freed ++ result.2.toList }, ?_, ?_⟩
    · simp only [daemonStep, beLaCmdProcess, if_neg hne, if_pos hfrees.type, hunreg]
    · intro hlive
      have hclean := hlive.clean card (by simp [hfreed])
      exact hread hclean.2.2

/-- No armed event has a freed card, and no card is freed with a session, in exactly the
runs without a live UNREGISTER. -/
theorem no_freed_card_iff (rules : List SwitchRule) (evs : List DaemonEvent) :
    Along daemonStep NoFreedCard (boot rules) evs ↔
      Each daemonStep (fun s ev => ¬ LiveUnregister s ev) (boot rules) evs := by
  have hstep : ∀ s ev s', Consistent s ∧ NoFreedCard s → ¬ LiveUnregister s ev →
      daemonStep s ev = .ok s' → Consistent s' ∧ NoFreedCard s' :=
    fun s ev s' hs hev h => ⟨consistent_step hs.1 h, noFreedCard_step hs.1 hs.2 hev h⟩
  have hboot : Consistent (boot rules) ∧ NoFreedCard (boot rules) :=
    ⟨consistent_boot rules, noFreedCard_boot rules⟩
  constructor
  · exact each_of_along hstep
      (fun s ev _ hev => liveUnregister_frees (not_not.mp hev)) hboot
  · intro hes
    exact (along_of_each hstep hboot hes).mono fun s hs => hs.2

/-- The commands of the defect: the channel of a registered card opens, and an UNREGISTER
block with zeros behind it names the card. -/
def registerUnregister : List DaemonEvent :=
  [registerPlain 0x73,
    .command ⟨AccCard.plain 0x73, cmdTypeUnregister⟩ (List.replicate 24 0)
      ⟨true, ⟨true, true, true, true, true⟩⟩]

theorem unregister_frees_live_card :
    ¬ ∀ rules evs, Along daemonStep NoFreedCard (boot rules) evs := by
  intro hall
  obtain ⟨s, hexec, hevents, hcards⟩ : ∃ s, exec daemonStep (boot []) registerUnregister = .ok s ∧
      s.events = [⟨2, [0x73], 1⟩] ∧ s.cards = [] := exists_of_eval (by decide +kernel)
  have hlive := (along_iff_reached _ _).mp (hall [] registerUnregister) _ _
    (List.prefix_refl _) hexec
  obtain ⟨card, hcard, -⟩ := hlive.live ⟨2, [0x73], 1⟩ (by rw [hevents]; exact List.mem_cons_self)
  rw [hcards] at hcard
  cases hcard

end BeLa.LiveCards
