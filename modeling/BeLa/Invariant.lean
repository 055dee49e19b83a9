import BeLa.Footprint
import BeLa.Runs
import BeLa.Steps

/-!
The cards and events stay consistent in every run of the daemon, whatever the
commands, the messages and the answers of the world.
-/
namespace BeLa.Invariant

open Runs Slots Switch Context Execute Card Message Channel Command Editing Footprint Handling
open Paths Steps

variable {s s' : Daemon}

theorem consistent_boot (rules : List SwitchRule) : Consistent (boot rules) := by
  have hcards : (boot rules).cards = [] := records_replicate_none accCardMaxNum
  have hevents : (boot rules).events = [] := rfl
  constructor <;> simp [hcards, hevents]

/-- A handler keeps what a card is known by, and takes addresses from the allocator only. -/
theorem handles_keeps {w : World} {type : BitVec 32} {message : LittleEndian.Bytes}
    {card card' : BeCardInner} {sh sh' : Shared} (hsound : Sound card)
    (h : Handles w type message card sh card' sh') :
    card'.addr = card.addr ∧ card'.card = card.card ∧ card'.readEvent = card.readEvent ∧
      sh.nextAddr ≤ sh'.nextAddr := by
  cases h with
  | refused => exact ⟨rfl, rfl, rfl, le_refl _⟩
  | unmatched => exact ⟨rfl, rfl, rfl, le_refl _⟩
  | dropped => exact ⟨rfl, rfl, rfl, le_refl _⟩
  | attached => exact ⟨rfl, rfl, rfl, Nat.le_succ _⟩
  | added context _ hcontext =>
    have hbr0 := (hsound context hcontext).bridge
    exact ⟨rfl, rfl, rfl, (footprint_addRules hbr0 _).counters.nextAddr.ge⟩
  | flushed context => exact ⟨rfl, rfl, rfl, (flush_sameCounters _).nextAddr.ge⟩

theorem handles_sound {w : World} {type : BitVec 32} {message : LittleEndian.Bytes}
    {card card' : BeCardInner} {sh sh' : Shared} (hsound : Sound card)
    (h : Handles w type message card sh card' sh') : Sound card' := by
  cases h with
  | refused => exact hsound
  | unmatched => exact hsound
  | dropped => intro context hcontext; cases hcontext
  | attached slot context _ _ hnew =>
    intro other hother
    obtain rfl : context = other := Option.some.inj hother
    exact hnew.sound
  | added => exact hsound
  | flushed => intro context hcontext; cases hcontext

/-- A card without a session joins the others, and new events are its own. -/
theorem consistent_add {card : BeCardInner} {armed : List ReadEvent} (hs : Consistent s)
    (haddr : card.addr = s.shared.nextAddr) (hcontext : card.context = none)
    (hplugin : card.plugin = none)
    (hpath : Terminated card.card → ∀ other ∈ s.cards, other.path ≠ card.path)
    (hterm : card.readEvent ≠ none → Terminated card.card)
    (hcards : s'.cards.Perm (card :: s.cards)) (hevents : s'.events = s.events ++ armed)
    (hnext : s.shared.nextAddr < s'.shared.nextAddr) (hids : (armed.map ReadEvent.id).Nodup)
    (harmed : ∀ e ∈ armed, card.readEvent = some e.id ∧ e.arg = card.addr ∧
      s.shared.nextAddr < e.id ∧ e.id < s'.shared.nextAddr) : Consistent s' := by
  have hmem : ∀ x, x ∈ s'.cards ↔ x = card ∨ x ∈ s.cards := fun x => by
    rw [hcards.mem_iff, List.mem_cons]
  have hin : ∀ e, e ∈ s'.events ↔ e ∈ s.events ∨ e ∈ armed := fun e => by
    rw [hevents, List.mem_append]
  have hold : ∀ x ∈ s.cards, x.addr ≠ card.addr := fun x hx => by
    rw [haddr]
    exact (hs.fresh x hx).ne
  constructor
  case nodup =>
    rw [(hcards.map BeCardInner.addr).nodup_iff, List.map_cons, List.nodup_cons]
    refine ⟨?_, hs.nodup⟩
    intro hsame
    obtain ⟨x, hx, hsame⟩ := List.mem_map.mp hsame
    exact hold x hx hsame
  case fresh =>
    intro x hx
    rcases (hmem x).mp hx with rfl | hx
    · rw [haddr]
      exact hnext
    · exact (hs.fresh x hx).trans hnext
  case freshEvents =>
    intro e he
    rcases (hin e).mp he with he | he
    · exact ⟨(hs.freshEvents e he).1.trans hnext, (hs.freshEvents e he).2.trans hnext⟩
    · obtain ⟨-, harg, -, hid⟩ := harmed e he
      exact ⟨hid, by rw [harg, haddr]; exact hnext⟩
  case eventIds =>
    rw [hevents, List.map_append, List.nodup_append]
    refine ⟨hs.eventIds, hids, ?_⟩
    intro a ha b hb
    obtain ⟨e, he, rfl⟩ := List.mem_map.mp ha
    obtain ⟨e', he', rfl⟩ := List.mem_map.mp hb
    exact ((hs.freshEvents e he).1.trans (harmed e' he').2.2.1).ne
  case armed =>
    intro e he x hx hsame
    rcases (hin e).mp he with he | he
    · rcases (hmem x).mp hx with rfl | hx
      · exact absurd (hsame.symm.trans haddr) (hs.freshEvents e he).2.ne
      · exact hs.armed e he x hx hsame
    · obtain ⟨hread, harg, -⟩ := harmed e he
      rcases (hmem x).mp hx with rfl | hx
      · exact hread
      · exact absurd (hsame.trans harg) (hold x hx)
  case session =>
    intro x hx hread
    rcases (hmem x).mp hx with rfl | hx
    · exact ⟨hcontext, hplugin⟩
    · exact hs.session x hx hread
  case paths =>
    intro x hx y hy hends hsame
    rcases (hmem x).mp hx with rfl | hx
    · rcases (hmem y).mp hy with rfl | hy
      · rfl
      · exact absurd hsame.symm (hpath hends y hy)
    · rcases (hmem y).mp hy with rfl | hy
      · exact absurd hsame (hpath (terminated_of_path_eq hsame hends) x hx)
      · exact hs.paths x hx y hy hends hsame
  case terminated =>
    intro x hx hread
    rcases (hmem x).mp hx with rfl | hx
    · exact hterm hread
    · exact hs.terminated x hx hread
  case sound =>
    intro x hx
    rcases (hmem x).mp hx with rfl | hx
    · intro context hsome
      rw [hcontext] at hsome
      cases hsome
    · exact hs.sound x hx

/-- Cards and events may leave. -/
theorem consistent_remove (hs : Consistent s) (hnodup : (s'.cards.map BeCardInner.addr).Nodup)
    (hcards : ∀ card ∈ s'.cards, card ∈ s.cards) (hevents : s'.events.Sublist s.events)
    (hnext : s.shared.nextAddr ≤ s'.shared.nextAddr) : Consistent s' where
  nodup := hnodup
  fresh card hcard := (hs.fresh card (hcards card hcard)).trans_le hnext
  freshEvents e he :=
    ⟨(hs.freshEvents e (hevents.subset he)).1.trans_le hnext,
      (hs.freshEvents e (hevents.subset he)).2.trans_le hnext⟩
  eventIds := (hevents.map ReadEvent.id).nodup hs.eventIds
  armed e he card hcard := hs.armed e (hevents.subset he) card (hcards card hcard)
  session card hcard := hs.session card (hcards card hcard)
  paths card hcard other hother := hs.paths card (hcards card hcard) other (hcards other hother)
  terminated card hcard := hs.terminated card (hcards card hcard)
  sound card hcard := hs.sound card (hcards card hcard)

/-- A write to an armed card that keeps what the card is known by. -/
theorem consistent_write {card card' : BeCardInner} {shared : Shared} (hs : Consistent s)
    (hcard : card ∈ s.cards) (harmed : card.readEvent ≠ none) (haddr : card'.addr = card.addr)
    (hrecord : card'.card = card.card) (hread : card'.readEvent = card.readEvent)
    (hsound : Sound card') (hnext : s.shared.nextAddr ≤ shared.nextAddr) :
    Consistent { s.writeCard card' with shared := shared } := by
  -- every card has a former self that differs at most in its session
  have hformer : ∀ x ∈ (s.writeCard card').cards, ∃ y ∈ s.cards, y.addr = x.addr ∧
      y.card = x.card ∧ y.readEvent = x.readEvent ∧ (y.readEvent = none → y = x) := by
    intro x hx
    rcases mem_writeCard.mp hx with ⟨rfl, -⟩ | ⟨hx, -⟩
    · exact ⟨card, hcard, haddr.symm, hrecord.symm, hread.symm, fun hnone => absurd hnone harmed⟩
    · exact ⟨x, hx, rfl, rfl, rfl, fun _ => rfl⟩
  have hpath : ∀ {x y : BeCardInner}, y.card = x.card → y.path = x.path := fun h => by
    rw [BeCardInner.path, BeCardInner.path, h]
  constructor
  case nodup =>
    have hsame : (s.writeCard card').cards.map BeCardInner.addr = s.cards.map BeCardInner.addr :=
      idents_overwrite card' s.table.slots
    change ((s.writeCard card').cards.map BeCardInner.addr).Nodup
    rw [hsame]
    exact hs.nodup
  case fresh =>
    intro x hx
    obtain ⟨y, hy, hsame, -⟩ := hformer x hx
    rw [← hsame]
    exact (hs.fresh y hy).trans_le hnext
  case freshEvents =>
    intro e he
    exact ⟨(hs.freshEvents e he).1.trans_le hnext, (hs.freshEvents e he).2.trans_le hnext⟩
  case eventIds => exact hs.eventIds
  case armed =>
    intro e he x hx harg
    obtain ⟨y, hy, hsame, -, hevent, -⟩ := hformer x hx
    rw [← hevent]
    exact hs.armed e he y hy (hsame.trans harg)
  case session =>
    intro x hx hnone
    obtain ⟨y, hy, -, -, hevent, hkept⟩ := hformer x hx
    obtain rfl := hkept (hevent.trans hnone)
    exact hs.session y hy hnone
  case paths =>
    intro x hx z hz hterm heq
    obtain ⟨y, hy, hsame, hcard, -⟩ := hformer x hx
    obtain ⟨u, hu, hsame', hcard', -⟩ := hformer z hz
    rw [← hsame, ← hsame']
    refine hs.paths y hy u hu (by rwa [hcard]) ?_
    rw [hpath hcard, hpath hcard', heq]
  case terminated =>
    intro x hx hevent
    obtain ⟨y, hy, -, hcard, hsame, -⟩ := hformer x hx
    rw [← hcard]
    exact hs.terminated y hy (by rwa [hsame])
  case sound =>
    intro x hx
    rcases mem_writeCard.mp hx with ⟨rfl, -⟩ | ⟨hx, -⟩
    · exact hsound
    · exact hs.sound x hx

/-- The close path leaves the other cards as they were. -/
theorem closed_cards (hs : Consistent s) {card : BeCardInner}
    (hperm : (s.writeCard (cleared card)).cards.Perm (cleared card :: s'.cards)) :
    (s'.cards.map BeCardInner.addr).Nodup ∧
      ∀ x ∈ s'.cards, x ∈ s.cards ∧ x.addr ≠ card.addr := by
  have hsame : (s.writeCard (cleared card)).cards.map BeCardInner.addr =
      s.cards.map BeCardInner.addr := idents_overwrite (cleared card) s.table.slots
  have hnodup : ((cleared card :: s'.cards).map BeCardInner.addr).Nodup := by
    rw [← (hperm.map BeCardInner.addr).nodup_iff, hsame]
    exact hs.nodup
  rw [List.map_cons, List.nodup_cons] at hnodup
  refine ⟨hnodup.2, fun x hx => ?_⟩
  have hne : x.addr ≠ card.addr := fun heq => hnodup.1 (List.mem_map.mpr ⟨x, hx, heq⟩)
  rcases mem_writeCard.mp (hperm.mem_iff.mpr (List.mem_cons_of_mem _ hx)) with
    ⟨rfl, -⟩ | ⟨hold, -⟩
  · exact absurd rfl hne
  · exact ⟨hold, hne⟩

theorem consistent_step {ev : DaemonEvent} (hs : Consistent s) (h : daemonStep s ev = .ok s') :
    Consistent s' := by
  cases change_of_step hs h with
  | idle => exact hs
  | registered card _ hblank hcards hevents _ hshared =>
    exact @consistent_add s s' card [] hs hblank.addr hblank.context hblank.plugin hblank.path
      (fun hread => absurd hblank.readEvent hread) hcards (hevents.trans (List.append_nil _).symm)
      (by rw [hshared]; exact Nat.lt_succ_self _) List.nodup_nil (by simp)
  | opened card socket _ hblank hterm hcards hevents _ hshared =>
    have hnext : s'.shared.nextAddr = s.shared.nextAddr + 2 := by rw [hshared]
    refine @consistent_add s s' { card with readEvent := some (s.shared.nextAddr + 1) } _ hs
      hblank.addr hblank.context hblank.plugin hblank.path (fun _ => hterm) hcards hevents
      (by omega) (List.nodup_singleton _) ?_
    intro e he
    obtain rfl := List.mem_singleton.mp he
    exact ⟨rfl, rfl, Nat.lt_succ_self _, by rw [hnext]; exact Nat.lt_succ_self _⟩
  | unregistered card _ hcards hevents _ hshared =>
    have hnodup := ((hcards.map BeCardInner.addr).nodup_iff).mp hs.nodup
    rw [List.map_cons, List.nodup_cons] at hnodup
    exact consistent_remove hs hnodup.2
      (fun x hx => hcards.mem_iff.mpr (List.mem_cons_of_mem _ hx))
      (hevents ▸ List.Sublist.refl _) (by rw [hshared])
  | handled e card card' msg shared he hcard haddr _ hhandles =>
    have hsound := hs.sound card hcard
    obtain ⟨hsame, hrecord, hread, hnext⟩ := handles_keeps hsound hhandles
    have harmed := hs.armed e he card hcard haddr
    exact consistent_write hs hcard (by rw [harmed]; simp) hsame hrecord hread
      (handles_sound hsound hhandles) hnext
  | closed e card context he hcard haddr hcontext _ hcards hevents _ hshared =>
    obtain ⟨hnodup, hothers⟩ := closed_cards hs hcards
    refine consistent_remove hs hnodup (fun x hx => (hothers x hx).1) ?_ ?_
    · rw [hevents]
      exact List.filter_sublist
    · rw [hshared]
      exact (flush_sameCounters _).nextAddr.ge

theorem consistent_of_run {rules : List SwitchRule} {evs : List DaemonEvent}
    (h : exec daemonStep (boot rules) evs = .ok s) : Consistent s :=
  (along_iff_reached _ _).mp
    (along_of_step (fun _ _ _ => consistent_step) evs (consistent_boot rules))
    evs s (List.prefix_refl _) h

end BeLa.Invariant
