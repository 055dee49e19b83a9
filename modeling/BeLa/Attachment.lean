import BeLa.Isolation

/-!
Sessions and plugins. A card has a plugin exactly while it has a context, the
plugin is the one that its vendor, model and type match, and contexts of
different cards are different objects. HELLO takes four ways out, one of them
after the old context is gone; each of them leaves the card so.
-/
namespace BeLa.Attachment

open LittleEndian Runs Slots Switch Context Execute Plugin Card Message Channel Command Handling
open Steps Invariant Ledger Editing Isolation

variable {s s' : Daemon} {rules : List SwitchRule}

def matchOf (card : AccCard) : Except Stops.Stop (Option PluginSlot) :=
  bePluginMatch gAccPlugins card.vendor card.model card.accType

structure Matched (card : BeCardInner) : Prop where
  both : card.context.isSome ↔ card.plugin.isSome
  plugin : ∀ slot, card.plugin = some slot → matchOf card.card = .ok (some slot)

theorem matched_silent {card : BeCardInner} (hcontext : card.context = none)
    (hplugin : card.plugin = none) : Matched card := by
  refine ⟨by rw [hcontext, hplugin]; rfl, fun slot h => ?_⟩
  rw [hplugin] at h
  cases h

/-- On each of its ways out a HELLO leaves the card matched. -/
theorem matched_hello {w : World} {card : BeCardInner} {message : Bytes} {outLen : ℕ}
    {sh : Shared} {handled : Handled} (hsound : Sound card) (hcard : Matched card)
    (h : helloMessageHandle w card message outLen sh = .ok handled) : Matched handled.card := by
  by_cases hlen : nameSize < message.length
  · simp only [helloMessageHandle, if_pos hlen, Except.ok.injEq] at h
    subst h
    exact hcard
  · cases hmatch : bePluginMatch gAccPlugins card.card.vendor card.card.model
        card.card.accType with
    | error stop =>
      simp only [helloMessageHandle, if_neg hlen, hmatch] at h
      cases h
    | ok found =>
      cases found with
      | none =>
        simp only [helloMessageHandle, if_neg hlen, hmatch, Except.ok.injEq] at h
        subst h
        -- a card that no plugin matches has no context that could stay behind
        refine matched_silent (Option.eq_none_iff_forall_ne_some.mpr fun context hcontext => ?_) rfl
        obtain ⟨slot, -, hslot, -⟩ := (hsound context hcontext).plugin
        rw [hmatch] at hslot
        cases hslot
      | some slot =>
        rw [hello_matched hsound hlen hmatch] at h
        split at h
        · cases h
        · split at h
          · cases h
            exact matched_silent rfl rfl
          · cases h
            refine ⟨Iff.rfl, fun other hother => ?_⟩
            obtain rfl : slot = other := Option.some.inj hother
            exact hmatch

/-- ADD_FLOWS does not touch its card. -/
theorem addFlows_card {w : World} {card : BeCardInner} {message : Bytes} {outLen : ℕ}
    {sh : Shared} {handled : Handled}
    (h : addFlowsMessageHandle w card message outLen sh = .ok handled) : handled.card = card := by
  unfold addFlowsMessageHandle at h
  dsimp only at h
  split at h
  · cases h
    rfl
  · split at h
    · cases h
    · split at h
      · cases h
      · split at h
        · cases h
        · cases h
          rfl

/-- A DISCONNECT that returns leaves its card without a session. -/
theorem disconnect_silent {w : World} {card : BeCardInner} {sh : Shared} {handled : Handled}
    (hsound : Sound card) (h : disconnectMessageHandle w card sh = .ok handled) :
    handled.card.context = none ∧ handled.card.plugin = none := by
  rw [disconnect_spec hsound] at h
  split at h
  · cases h
  · split at h
    · cases h
    · cases h
      exact ⟨rfl, rfl⟩

/-- Every handler that returns leaves the card matched. -/
theorem matched_process {w : World} {card : BeCardInner} {type : BitVec 32} {message : Bytes}
    {outLen : ℕ} {sh : Shared} {handled : Handled} (hsound : Sound card) (hcard : Matched card)
    (h : beAccMessageProcess w card type message outLen sh = .ok handled) :
    Matched handled.card := by
  unfold beAccMessageProcess at h
  split at h
  · cases h
  · rename_i handler _
    cases handler with
    | hello => exact matched_hello hsound hcard h
    | addFlows => exact (addFlows_card h).symm ▸ hcard
    | disconnect =>
      obtain ⟨hcontext, hplugin⟩ := disconnect_silent hsound h
      exact matched_silent hcontext hplugin

theorem matched_step {ev : DaemonEvent} (hs : Consistent s)
    (hcards : ∀ card ∈ s.cards, Matched card) (h : daemonStep s ev = .ok s') :
    ∀ card ∈ s'.cards, Matched card := by
  -- the cards of a command's table are old or blank, those behind a channel are handled
  cases ev with
  | command cmd behind env =>
    have hjoin : ∀ {card : BeCardInner}, s'.cards.Perm (card :: s.cards) → card.context = none →
        card.plugin = none → ∀ x ∈ s'.cards, Matched x := by
      intro card hperm hcontext hplugin x hx
      rcases List.mem_cons.mp (hperm.mem_iff.mp hx) with rfl | hold
      · exact matched_silent hcontext hplugin
      · exact hcards x hold
    cases change_of_step hs h with
    | idle => exact hcards
    | registered card _ hblank hperm => exact hjoin hperm hblank.context hblank.plugin
    | opened card socket _ hblank _ hperm => exact hjoin hperm hblank.context hblank.plugin
    | unregistered card _ hperm =>
      exact fun x hx => hcards x (hperm.mem_iff.mpr (List.mem_cons_of_mem _ hx))
  | readable event d =>
    rcases readable_cases h with rfl | ⟨e, he, -, card, hcard, haddr,
      hclose | ⟨msg, handled, -, hprocess, rfl⟩⟩
    · exact hcards
    · obtain ⟨context, -, -, hperm, -⟩ := close_spec hs he hcard haddr hclose
      exact fun x hx => hcards x ((closed_cards hs hperm).2 x hx).1
    · intro x hx
      rcases mem_writeCard.mp hx with ⟨rfl, -⟩ | ⟨hold, -⟩
      · exact matched_process (hs.sound card hcard) (hcards card hcard) hprocess
      · exact hcards x hold

/-- Addresses are handed out in order. -/
theorem nextAddr_mono {ev : DaemonEvent} (hs : Consistent s) (h : daemonStep s ev = .ok s') :
    s.shared.nextAddr ≤ s'.shared.nextAddr := by
  cases change_of_step hs h with
  | idle => exact le_refl _
  | registered card _ _ _ _ _ hshared => simp [hshared]
  | opened card socket _ _ _ _ _ _ hshared => simp [hshared]
  | unregistered card _ _ _ _ hshared => simp [hshared]
  | handled e card card' msg shared _ hcard _ _ hhandles =>
    exact (handles_keeps (hs.sound card hcard) hhandles).2.2.2
  | closed e card context _ _ _ _ _ _ _ _ hshared =>
    rw [hshared]
    exact (flush_sameCounters _).nextAddr.ge

/-- Attached contexts have addresses of their own. -/
structure Apart (s : Daemon) : Prop where
  fresh : ∀ addr context, Attached s addr context → context.addr < s.shared.nextAddr
  apart : ∀ addr addr' context context', Attached s addr context → Attached s addr' context' →
    context.addr = context'.addr → addr = addr'

theorem apart_boot (rules : List SwitchRule) : Apart (boot rules) := by
  have hnone : ∀ addr context, ¬ Attached (boot rules) addr context := by
    rintro addr context ⟨card, hcard, -⟩
    rw [show (boot rules).cards = [] from records_replicate_none accCardMaxNum] at hcard
    cases hcard
  exact ⟨fun addr context h => absurd h (hnone addr context),
    fun addr _ context _ h => absurd h (hnone addr context)⟩

theorem apart_step {ev : DaemonEvent} (hs : Consistent s) (ha : Apart s)
    (h : daemonStep s ev = .ok s') : Apart s' := by
  have hmono := nextAddr_mono hs h
  have hkept : (∀ addr context, Attached s' addr context → Attached s addr context) → Apart s' :=
    fun hattached =>
      ⟨fun addr context hin => (ha.fresh addr context (hattached addr context hin)).trans_le hmono,
        fun addr addr' context context' hin hin' =>
          ha.apart _ _ _ _ (hattached _ _ hin) (hattached _ _ hin')⟩
  cases sessionChange_of_step hs h with
  | quiet n hattached => exact hkept hattached
  | ran addr context _ hattached => exact hkept hattached
  | hello card card' context _ hnew haddr hcontext =>
    -- a context is the new one, at the new address, or an old one
    have hcases : ∀ addr other, Attached { s.writeCard card' with
        shared := noteHello card.addr context.addr s.shared } addr other →
        (addr = card'.addr ∧ other.addr = s.shared.nextAddr) ∨ Attached s addr other := by
      intro addr other hin
      rcases attached_writeCard hin with ⟨hsame, hsome⟩ | hold
      · obtain rfl : context = other := Option.some.inj (hcontext.symm.trans hsome)
        exact .inl ⟨hsame, hnew.addr⟩
      · exact .inr hold
    constructor
    · intro addr other hin
      rcases hcases addr other hin with ⟨-, hother⟩ | hold
      · rw [hother]
        exact Nat.lt_succ_self _
      · exact (ha.fresh addr other hold).trans_le hmono
    · intro addr addr' other other' hin hin' hsame
      rcases hcases addr other hin with ⟨rfl, hother⟩ | hold <;>
        rcases hcases addr' other' hin' with ⟨rfl, hother'⟩ | hold'
      · rfl
      · exact absurd (hother.symm.trans hsame) (ha.fresh addr' other' hold').ne'
      · exact absurd (hsame.trans hother') (ha.fresh addr other hold).ne
      · exact ha.apart _ _ _ _ hold hold' hsame

/-- In every state that a run of the daemon reaches, each card has a plugin just if it has a
context, the plugin is its match, the context runs the ovs back end on br0, and no two cards
share one. -/
theorem session_state_invariant {evs : List DaemonEvent}
    (h : exec daemonStep (boot rules) evs = .ok s) :
    (∀ card ∈ s.cards, (card.context.isSome ↔ card.plugin.isSome) ∧
      (∀ slot, card.plugin = some slot → bePluginMatch gAccPlugins card.card.vendor
        card.card.model card.card.accType = .ok (some slot)) ∧
      ∀ context, card.context = some context →
        context.be = accGetRuleBeByName "ovs-rule".toList ∧ context.be = some .ovsRule ∧
          context.bridge = br0) ∧
    ∀ card ∈ s.cards, ∀ other ∈ s.cards, ∀ context context', card.context = some context →
      other.context = some context' → context.addr = context'.addr → card = other := by
  have hinv : Consistent s ∧ (∀ card ∈ s.cards, Matched card) ∧ Apart s := by
    refine (along_iff_reached (P := fun s => Consistent s ∧ (∀ card ∈ s.cards, Matched card) ∧
      Apart s) _ _).mp (along_of_step ?_ evs ⟨consistent_boot rules, ?_, apart_boot rules⟩) evs s
      (List.prefix_refl _) h
    · exact fun s ev s' hs hstep => ⟨consistent_step hs.1 hstep, matched_step hs.1 hs.2.1 hstep,
        apart_step hs.1 hs.2.2 hstep⟩
    · intro card hcard
      rw [show (boot rules).cards = [] from records_replicate_none accCardMaxNum] at hcard
      cases hcard
  obtain ⟨hs, hmatched, hapart⟩ := hinv
  constructor
  · intro card hcard
    refine ⟨(hmatched card hcard).both, (hmatched card hcard).plugin, fun context hcontext => ?_⟩
    have hsound := hs.sound card hcard context hcontext
    exact ⟨hsound.be, hsound.be, hsound.bridge⟩
  · intro card hcard other hother context context' hcontext hcontext' hsame
    have haddr := hapart.apart card.addr other.addr context context' ⟨card, hcard, rfl, hcontext⟩
      ⟨other, hother, rfl, hcontext'⟩ hsame
    exact eq_of_ident_eq hs.nodup hcard hother haddr

set_option maxRecDepth 8192 in
/-- Two cards with a session each. -/
theorem session_state_invariant_two_sessions :
    ∃ s, exec daemonStep (boot []) twoSessions = .ok s ∧ s.cards.length = 2 ∧
      ∀ card ∈ s.cards, card.context.isSome ↔ card.plugin.isSome := by
  have hrun : ∃ s, exec daemonStep (boot []) twoSessions = .ok s ∧ s.cards.length = 2 :=
    ⟨_, rfl, rfl⟩
  obtain ⟨s, hexec, hlength⟩ := hrun
  exact ⟨s, hexec, hlength, fun card hcard => ((session_state_invariant hexec).1 card hcard).1⟩

end BeLa.Attachment
