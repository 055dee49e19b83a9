import BeLa.Client
import BeLa.Footprint
import BeLa.Invariant

/-!
Orphan rules. A card that loses its context through DISCONNECT or a closed
channel is flushed first; a repeated HELLO replaces the context without a flush.
While no HELLO reaches a context with rules on the bridge, every rule the daemon
has added belongs to an attached context.
-/
namespace BeLa.Orphans

open Runs Logs Slots Framing BeLa.Flow Switch Context Execute Plugin Card Message Channel Command
open Client Editing Footprint Handling Steps Invariant

variable {s s' : Daemon}

/-- Allocations succeed, and every command line reaches a shell and succeeds there. -/
structure Healthy (w : World) : Prop where
  allocRemote : w.allocRemote = true
  allocContext : w.allocContext = true
  allocRules : w.allocRules = true
  commands : ∀ context i, carriedOut context (w.shell i) = true

/-- The events of the runs: registrations, and channel events in a healthy world. -/
def Admitted : DaemonEvent → Prop
  | .command cmd _ _ => cmd.cmdType ≠ cmdTypeUnregister
  | .readable _ d => Healthy d.world

/-- A rule that `acc_ovs_add_rules` has put on the bridge and that is still there. -/
def AddedRule (s : Daemon) (r : SwitchRule) : Prop :=
  r ∈ s.shared.rules ∧ ∃ install ∈ s.shared.history.installs, install.rule = r

def Owns (card : BeCardInner) (r : SwitchRule) : Prop :=
  ∃ context, card.context = some context ∧ r.cookie = context.hostid.toNat

def NoOrphans (s : Daemon) : Prop := ∀ r, AddedRule s r → ∃ card ∈ s.cards, Owns card r

/-- A HELLO of at most 256 bytes arrives on a card whose context has a rule on the bridge. -/
def HelloOverRules (s : Daemon) : DaemonEvent → Prop
  | .command _ _ _ => False
  | .readable event d => ∃ e ∈ s.events, e.id = event ∧ ∃ card ∈ s.cards, card.addr = e.arg ∧
      ∃ msg, receivedMessage d = some msg ∧ msg.hdr.msgType = accUnixHello ∧
        msg.body.length ≤ nameSize ∧ ∃ r, AddedRule s r ∧ Owns card r

theorem Healthy.not_dropped {w : World} (h : Healthy w) (card : AccCard) (len : ℕ) :
    helloOutcome w card len ≠ .dropped := by
  have hsome : ∀ hook, (initContext hook w 0 0).isSome = true := by
    intro hook
    cases hook <;> simp [initContext, h.allocContext, h.allocRemote]
  unfold helloOutcome
  split
  · simp
  · split
    · simp
    · simp
    · split
      · simp
      · simp [hsome]

theorem length_of_attached {w : World} {card : AccCard} {len : ℕ}
    (h : helloOutcome w card len = .attached) : len ≤ nameSize := by
  unfold helloOutcome at h
  split at h
  · cases h
  · omega

theorem noOrphans_boot (rules : List SwitchRule) : NoOrphans (boot rules) := by
  rintro r ⟨-, install, hin, -⟩
  simp [boot, Shared.start] at hin

/-- The owners of the old rules stay, and new rules have an owner. -/
theorem noOrphans_of {card : BeCardInner} (hs : NoOrphans s)
    (hold : ∀ r, AddedRule s' r → AddedRule s r ∨ ∃ card ∈ s'.cards, Owns card r)
    (hstay : ∀ other ∈ s.cards, other ≠ card → other ∈ s'.cards)
    (hcard : ∀ r, AddedRule s' r → Owns card r → ∃ card ∈ s'.cards, Owns card r) :
    NoOrphans s' := by
  intro r hr
  rcases hold r hr with hbefore | hnew
  · obtain ⟨owner, hin, howns⟩ := hs r hbefore
    by_cases heq : owner = card
    · exact hcard r hr (heq ▸ howns)
    · exact ⟨owner, hstay owner hin heq, howns⟩
  · exact hnew

/-- After a batch an added rule was one before or has the cookie of the context. -/
theorem addedRule_of_footprint {context : AccContext}
    (h : Footprint context s.shared s'.shared) {r : SwitchRule} (hr : AddedRule s' r) :
    AddedRule s r ∨ r.cookie = context.hostid.toNat := by
  obtain ⟨hrules, install, hin, rfl⟩ := hr
  rcases h.rules install.rule hrules with hold | ⟨hcookie, -⟩
  · rcases h.installs.old_or hin with hbefore | ⟨-, -, hcookie⟩
    · exact .inl ⟨hold, install, hbefore, rfl⟩
    · exact .inr hcookie
  · exact .inr hcookie

/-- After a flush that is carried out an added rule was one before, under another cookie. -/
theorem addedRule_of_flush {w : World} (hw : Healthy w) {context : AccContext}
    (hbr0 : context.bridge = br0)
    (h : s'.shared = afterFlush w context (w.shell 0) s.shared) {r : SwitchRule}
    (hr : AddedRule s' r) : AddedRule s r ∧ r.cookie ≠ context.hostid.toNat := by
  obtain ⟨hrules, hinstalls⟩ := hr
  rw [h, mem_rules_flush hbr0] at hrules
  rw [h, installs_flush] at hinstalls
  exact ⟨⟨hrules.1, hinstalls⟩, hrules.2 (hw.commands context 0)⟩

theorem not_owns_of_cookie_ne {card : BeCardInner} {context : AccContext} {r : SwitchRule}
    (hcontext : card.context = some context) (h : r.cookie ≠ context.hostid.toNat) :
    ¬ Owns card r := by
  rintro ⟨other, hother, hcookie⟩
  obtain rfl : context = other := Option.some.inj (hcontext.symm.trans hother)
  exact h hcookie

/-- A card other than the written one stays. -/
theorem mem_writeCard_of_ne (hs : Consistent s) {card card' other : BeCardInner}
    (hcard : card ∈ s.cards) (haddr : card'.addr = card.addr) (hother : other ∈ s.cards)
    (hne : other ≠ card) : other ∈ (s.writeCard card').cards := by
  refine mem_writeCard.mpr (.inr ⟨hother, fun heq => hne ?_⟩)
  exact eq_of_ident_eq hs.nodup hother hcard (heq.trans haddr)

/-- A handler in a healthy world leaves no orphans, unless it is a HELLO over rules. -/
theorem noOrphans_handled {w : World} {type : BitVec 32} {message : LittleEndian.Bytes}
    {card card' : BeCardInner} {shared : Shared} (hs : Consistent s) (hno : NoOrphans s)
    (hw : Healthy w) (hcard : card ∈ s.cards)
    (hhello : type = accUnixHello → message.length ≤ nameSize →
      ¬ ∃ r, AddedRule s r ∧ Owns card r)
    (h : Handles w type message card s.shared card' shared) :
    NoOrphans { s.writeCard card' with shared := shared } := by
  have haddr : card'.addr = card.addr := (handles_keeps (hs.sound card hcard) h).1
  have hwritten : card' ∈ (s.writeCard card').cards :=
    mem_writeCard.mpr (.inl ⟨rfl, card, hcard, haddr.symm⟩)
  have hstay : ∀ other ∈ s.cards, other ≠ card → other ∈ (s.writeCard card').cards :=
    fun other hother hne => mem_writeCard_of_ne hs hcard haddr hother hne
  cases h with
  | refused => exact noOrphans_of hno (fun _ hr => .inl hr) hstay fun _ _ how => ⟨_, hwritten, how⟩
  | unmatched =>
    exact noOrphans_of hno (fun _ hr => .inl hr) hstay fun _ _ how => ⟨_, hwritten, how⟩
  | dropped _ hdropped => exact absurd hdropped (hw.not_dropped _ _)
  | attached slot context htype hattached _ =>
    refine noOrphans_of hno (fun _ hr => .inl hr) hstay fun r hr how => ?_
    exact absurd ⟨r, hr, how⟩ (hhello htype (length_of_attached hattached))
  | added context _ hcontext =>
    have hbr0 := (hs.sound card hcard context hcontext).bridge
    refine noOrphans_of hno (fun r hr => ?_) hstay fun _ _ how => ⟨_, hwritten, how⟩
    refine (addedRule_of_footprint (footprint_addRules hbr0 _) hr).imp_right fun hcookie => ?_
    exact ⟨card, hwritten, context, hcontext, hcookie⟩
  | flushed context _ hcontext =>
    have hbr0 := (hs.sound card hcard context hcontext).bridge
    refine noOrphans_of hno (fun r hr => .inl (addedRule_of_flush hw hbr0 rfl hr).1) hstay ?_
    intro r hr how
    exact absurd how (not_owns_of_cookie_ne hcontext (addedRule_of_flush hw hbr0 rfl hr).2)

theorem noOrphans_step {ev : DaemonEvent} (hs : Consistent s) (hno : NoOrphans s)
    (hadmitted : Admitted ev) (hev : ¬ HelloOverRules s ev) (h : daemonStep s ev = .ok s') :
    NoOrphans s' := by
  -- a card without a context joins the table
  have hjoin : ∀ {card : BeCardInner} {n : ℕ}, s'.cards.Perm (card :: s.cards) →
      s'.shared = { s.shared with nextAddr := n } → NoOrphans s' := by
    intro card n hcards hshared r hr
    obtain ⟨owner, hin, howns⟩ := hno r (by rwa [AddedRule, hshared] at hr)
    exact ⟨owner, hcards.mem_iff.mpr (List.mem_cons_of_mem _ hin), howns⟩
  cases change_of_step hs h with
  | idle => exact hno
  | registered card _ _ hcards _ _ hshared => exact hjoin hcards hshared
  | opened card socket _ _ _ hcards _ _ hshared => exact hjoin hcards hshared
  | unregistered card hfrees => exact absurd hfrees.type hadmitted
  | handled e card card' msg shared he hcard haddr hreceived hhandles =>
    refine noOrphans_handled hs hno hadmitted hcard ?_ hhandles
    intro htype hlen hex
    exact hev ⟨e, he, rfl, card, hcard, haddr, msg, hreceived, htype, hlen, hex⟩
  | closed e card context _ hcard _ hcontext _ hcards _ _ hshared =>
    have hbr0 := (hs.sound card hcard context hcontext).bridge
    have hflushed : ∀ r, AddedRule s' r → AddedRule s r ∧ ¬ Owns card r := fun r hr => by
      obtain ⟨hbefore, hcookie⟩ := addedRule_of_flush hadmitted hbr0 hshared hr
      exact ⟨hbefore, not_owns_of_cookie_ne hcontext hcookie⟩
    refine noOrphans_of hno (fun r hr => .inl (hflushed r hr).1) ?_
      fun r hr how => absurd how (hflushed r hr).2
    · intro other hother hne
      have hkept : other ∈ (s.writeCard (cleared card)).cards :=
        mem_writeCard_of_ne hs hcard rfl hother hne
      rcases List.mem_cons.mp (hcards.mem_iff.mp hkept) with rfl | hleft
      · exact absurd (eq_of_ident_eq hs.nodup hother hcard rfl) hne
      · exact hleft

/-- In a run of registrations and channel events in a healthy world, of which none is a
HELLO over rules, every rule that was added and is still on the bridge belongs to an
attached context. -/
theorem no_orphan_rules {rules : List SwitchRule} {evs : List DaemonEvent}
    (hadmitted : ∀ ev ∈ evs, Admitted ev)
    (heach : Each daemonStep (fun s ev => ¬ HelloOverRules s ev) (boot rules) evs) :
    Along daemonStep NoOrphans (boot rules) evs := by
  have hstep : ∀ s ev s', Consistent s ∧ NoOrphans s → Admitted ev ∧ ¬ HelloOverRules s ev →
      daemonStep s ev = .ok s' → Consistent s' ∧ NoOrphans s' :=
    fun s ev s' hs hev h =>
      ⟨consistent_step hs.1 h, noOrphans_step hs.1 hs.2 hev.1 hev.2 h⟩
  exact (along_of_each hstep ⟨consistent_boot rules, noOrphans_boot rules⟩
    (heach.and_forall hadmitted)).mono fun s hs => hs.2

theorem healthy_healthy : Healthy World.healthy where
  allocRemote := rfl
  allocContext := rfl
  allocRules := rfl
  commands context i := by
    unfold carriedOut
    cases context.sshRemote <;> rfl

def helloAdd : List DaemonEvent :=
  [registerPlain 0x73, .readable 2 (arriving (helloMessage []) .healthy),
    .readable 2 (arriving (addFlowsMessage [AccFlow.plain 6]) .healthy)]

theorem helloAdd_admitted : ∀ ev ∈ helloAdd, Admitted ev := by
  intro ev hev
  simp only [helloAdd, List.mem_cons, List.not_mem_nil, or_false] at hev
  rcases hev with rfl | rfl | rfl
  · exact (by decide : cmdTypeRegister ≠ cmdTypeUnregister)
  · exact healthy_healthy
  · exact healthy_healthy

theorem not_helloOverRules_of_empty {ev : DaemonEvent} (h : s.shared.rules = []) :
    ¬ HelloOverRules s ev := by
  cases ev with
  | command => exact id
  | readable event d =>
    rintro ⟨e, -, -, card, -, -, msg, -, -, -, r, ⟨hr, -⟩, -⟩
    rw [h] at hr
    cases hr

set_option maxRecDepth 8192 in
/-- A run without a HELLO over rules, at whose end a rule is on the bridge. -/
theorem no_orphan_rules_helloAdd : Along daemonStep NoOrphans (boot []) helloAdd := by
  refine no_orphan_rules helloAdd_admitted ?_
  exact Each.cons (not_helloOverRules_of_empty rfl) rfl
    (Each.cons (not_helloOverRules_of_empty rfl) rfl
      (Each.cons (not_helloOverRules_of_empty rfl) rfl trivial))

/-- The same client connects once more: its second HELLO orphans the rule of the first
session. -/
theorem second_hello_orphans :
    ¬ ∀ rules evs, (∀ ev ∈ evs, Admitted ev) → Along daemonStep NoOrphans (boot rules) evs := by
  intro hall
  obtain ⟨s, hexec, ⟨r, hr, hinstalled, hcookie⟩, hcards⟩ : ∃ s, exec daemonStep (boot [])
      (helloAdd ++ [.readable 2 (arriving (helloMessage []) .healthy)]) = .ok s ∧
      (∃ r ∈ s.shared.rules, r ∈ s.shared.history.installs.map Install.rule ∧
        r.cookie = 0xDEAD0000) ∧
      s.cards.map (fun card => card.context.map AccContext.hostid) = [some 0xDEAD0001] :=
    exists_of_eval (by decide +kernel)
  have hadmitted : ∀ ev ∈ helloAdd ++ [.readable 2 (arriving (helloMessage []) .healthy)],
      Admitted ev := by
    intro ev hev
    rcases List.mem_append.mp hev with hold | hlast
    · exact helloAdd_admitted ev hold
    · rw [List.mem_singleton.mp hlast]
      exact healthy_healthy
  have hno := (along_iff_reached _ _).mp (hall [] _ hadmitted) _ _ (List.prefix_refl _) hexec
  obtain ⟨card, hcard, context, hcontext, howns⟩ := hno r ⟨hr, List.mem_map.mp hinstalled⟩
  have hhostid : some context.hostid ∈
      s.cards.map (fun card => card.context.map AccContext.hostid) :=
    List.mem_map.mpr ⟨card, hcard, by rw [hcontext]; rfl⟩
  rw [hcards, List.mem_singleton, Option.some.injEq] at hhostid
  rw [hhostid, hcookie] at howns
  exact absurd howns (by decide)

end BeLa.Orphans
