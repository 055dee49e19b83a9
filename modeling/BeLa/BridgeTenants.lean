import BeLa.SharedBridge

/-!
Who holds what on the bridge, in whole runs. The daemon refines the shared table.
Whatever commands fail, and whichever sessions are replaced or dropped, a card
holds at any time what it has added since, and has neither lost to another add
nor given up; there is one rule for each match; and a card that nothing is about
loses its rules to displacing adds only.
-/
namespace BeLa.BridgeTenants

open Runs Slots BeLa.Flow OfctlRule Switch Context Execute Card Message Channel Command Client
open Handling Steps Invariant Ledger Isolation Tenancy SharedBridge

/-- At the start nobody holds the rules of the bridge. -/
theorem mem_bridge_boot {rules : List SwitchRule} {x : Option ℕ × Entry} :
    x ∈ bridge (boot rules) ↔ x.1 = none ∧ ∃ r ∈ rules, entryOf r = x.2 := by
  have hnobody : ∀ k r, ¬ HeldBy (boot rules) k r := by
    rintro k r ⟨context, ⟨card, hcard, -⟩, -⟩
    rw [show (boot rules).cards = [] from records_replicate_none accCardMaxNum] at hcard
    cases hcard
  constructor
  · rintro ⟨r, hr, he, hholder⟩
    cases hx : x.1 with
    | none => exact ⟨rfl, r, hr, he⟩
    | some k =>
      rw [hx] at hholder
      exact absurd hholder (hnobody k r)
  · rintro ⟨hx, r, hr, he⟩
    refine ⟨r, hr, he, ?_⟩
    rw [hx]
    exact fun k => hnobody k r

def matchKey (e : Entry) : ℕ × ℕ × List Numerals.Text := (e.table, e.priority, e.match)

/-- Open vSwitch replaces an entry by one with its match. -/
def sameMatch (e e' : Entry) : Prop := matchKey e = matchKey e'

theorem replacesBy_openVSwitch : ReplacesBy sameMatch openVSwitch := by
  intro r q
  simp [openVSwitch, sameKey, sameMatch, matchKey, entryOf]

def takeover : List DaemonEvent :=
  twoSessions ++ [.readable 4 (arriving (addFlowsMessage [AccFlow.plain 6]) .healthy)]

theorem takeover_onSwitch : ∀ ev ∈ takeover, OnSwitch sameMatch ev := by
  simp only [takeover, twoSessions, List.cons_append, List.nil_append, List.forall_mem_cons,
    List.not_mem_nil, false_implies, implies_true, and_true]
  exact ⟨trivial, trivial, replacesBy_openVSwitch, replacesBy_openVSwitch,
    replacesBy_openVSwitch, replacesBy_openVSwitch⟩

theorem unstale_nil (n : ℕ) : Unstale n [] := by simp [Unstale]

set_option maxRecDepth 8192 in
/-- The acts of that run: two HELLOs, and one flow added by each card. -/
theorem actsAlong_takeover :
    actsAlong (boot []) takeover = [.abandon 1, .abandon 3, .put 1 (entryOfFlow (AccFlow.plain 6)),
      .put 3 (entryOfFlow (AccFlow.plain 6))] := by
  decide +kernel

theorem takeover_runs : ∃ s, exec daemonStep (boot []) takeover = .ok s ∧
    s.shared.history.hellos.length ≤ 2 :=
  exists_of_eval (by decide +kernel)

section

variable {displaces : Entry → Entry → Prop} {rules : List SwitchRule} {evs : List DaemonEvent}
variable {s : Daemon} {n : ℕ}

/-- In every run with at most `n` HELLOs, from a bridge without stale host ids, the bridge is
what the acts of the run make of the table that several cards share. -/
theorem daemon_refines_tenancy (hn : n < 2 ^ 32) (hrules : Unstale n rules)
    (hswitch : ∀ ev ∈ evs, OnSwitch displaces ev)
    (h : exec daemonStep (boot rules) evs = .ok s)
    (hcount : s.shared.history.hellos.length ≤ n) :
    bridge s = run displaces (bridge (boot rules)) (actsAlong (boot rules) evs) :=
  bridge_run hn hrules (consistent_boot rules) (ledger_boot rules) hswitch h hcount

theorem daemon_refines_tenancy_takeover : ∃ s, exec daemonStep (boot []) takeover = .ok s ∧
    bridge s = run sameMatch (bridge (boot [])) [.abandon 1, .abandon 3,
      .put 1 (entryOfFlow (AccFlow.plain 6)), .put 3 (entryOfFlow (AccFlow.plain 6))] := by
  obtain ⟨s, hexec, hcount⟩ := takeover_runs
  rw [← actsAlong_takeover]
  exact ⟨s, hexec, daemon_refines_tenancy (n := 2) (by omega) (unstale_nil 2) takeover_onSwitch
    hexec hcount⟩

/-- A rule carries the host id of a card's context just if the card has added it, and has since
neither ended that session nor lost it to an add that displaces it. A rule that no context
carries was on the bridge at the start, or belonged to a session that ended without a flush. -/
theorem held_iff_added (hn : n < 2 ^ 32) (hrules : Unstale n rules)
    (hswitch : ∀ ev ∈ evs, OnSwitch displaces ev)
    (h : exec daemonStep (boot rules) evs = .ok s)
    (hcount : s.shared.history.hellos.length ≤ n) (e : Entry) :
    (∀ k, (∃ r ∈ s.shared.rules, entryOf r = e ∧ HeldBy s k r) ↔
      ∃ before later, actsAlong (boot rules) evs = before ++ .put k e :: later ∧
        ∀ act ∈ later, ¬ act.Ends displaces k e) ∧
    ((∃ r ∈ s.shared.rules, entryOf r = e ∧ ∀ k, ¬ HeldBy s k r) ↔
      (∃ before k later, actsAlong (boot rules) evs = before ++ .abandon k :: later ∧
        (some k, e) ∈ run displaces (bridge (boot rules)) before ∧
        ∀ act ∈ later, ¬ act.Displaces displaces e) ∨
      (∃ r ∈ rules, entryOf r = e) ∧
        ∀ act ∈ actsAlong (boot rules) evs, ¬ act.Displaces displaces e) := by
  have hrun := bridge_run hn hrules (consistent_boot rules) (ledger_boot rules) hswitch h hcount
  constructor
  · intro k
    have hheld := @held_iff ℕ Entry displaces (bridge (boot rules)) (actsAlong (boot rules) evs) k e
    rw [← hrun] at hheld
    refine hheld.trans (or_iff_left fun hstart => ?_)
    exact absurd (mem_bridge_boot.mp hstart.1).1 (by simp)
  · have hnobody := @nobodys_iff ℕ Entry displaces (bridge (boot rules))
      (actsAlong (boot rules) evs) e
    rw [← hrun] at hnobody
    refine hnobody.trans (or_congr_right (and_congr_left fun _ => ?_))
    rw [mem_bridge_boot]
    exact and_iff_right rfl

/-- The flow belongs to the second card, and the first has lost it. -/
theorem held_iff_added_takeover : ∃ s, exec daemonStep (boot []) takeover = .ok s ∧
    (∃ r ∈ s.shared.rules, entryOf r = entryOfFlow (AccFlow.plain 6) ∧ HeldBy s 3 r) ∧
    ¬ ∃ r ∈ s.shared.rules, entryOf r = entryOfFlow (AccFlow.plain 6) ∧ HeldBy s 1 r := by
  obtain ⟨s, hexec, hcount⟩ := takeover_runs
  obtain ⟨hheld, -⟩ := held_iff_added (n := 2) (by omega) (unstale_nil 2) takeover_onSwitch
    hexec hcount (entryOfFlow (AccFlow.plain 6))
  rw [actsAlong_takeover] at hheld
  refine ⟨s, hexec, (hheld 3).mpr ⟨[_, _, _], [], rfl, by simp⟩, fun hfirst => ?_⟩
  obtain ⟨before, later, hsplit, hlater⟩ := (hheld 1).mp hfirst
  -- the put of the first card is the third act, and the last act displaces it
  have hlast : later = [.put 3 (entryOfFlow (AccFlow.plain 6))] := by
    rcases before with _ | ⟨_, _ | ⟨_, _ | ⟨_, _ | ⟨_, before⟩⟩⟩⟩
    · simp at hsplit
    · simp at hsplit
    · simp only [List.cons_append, List.nil_append, List.cons.injEq, true_and] at hsplit
      exact hsplit.2.2.symm
    · simp at hsplit
    · simp at hsplit
  rw [hlast, List.forall_mem_singleton] at hlater
  exact hlater (.inl (show sameMatch _ _ from rfl))

/-- One rule for each match at the start is one in every state. -/
theorem onePerKey_bridge (hn : n < 2 ^ 32) (hrules : Unstale n rules)
    (hswitch : ∀ ev ∈ evs, OnSwitch sameMatch ev)
    (hstart : ∀ r ∈ rules, ∀ r' ∈ rules, sameMatch (entryOf r) (entryOf r') →
      entryOf r = entryOf r')
    (h : exec daemonStep (boot rules) evs = .ok s)
    (hcount : s.shared.history.hellos.length ≤ n) : OnePerKey matchKey (bridge s) := by
  have hboot : OnePerKey matchKey (bridge (boot rules)) := by
    rintro ⟨o, e⟩ hx ⟨o', e'⟩ hy hkey
    obtain ⟨ho, r, hr, he⟩ := mem_bridge_boot.mp hx
    obtain ⟨ho', r', hr', he'⟩ := mem_bridge_boot.mp hy
    obtain rfl : o = none := ho
    obtain rfl : o' = none := ho'
    obtain rfl : entryOf r = e := he
    obtain rfl : entryOf r' = e' := he'
    rw [hstart r hr r' hr' hkey]
  rw [bridge_run hn hrules (consistent_boot rules) (ledger_boot rules) hswitch h hcount]
  exact hboot.run _

/-- Where the bridge holds one rule for each match at the start, it does so in every state: two
rules with one table, priority and match have the same actions and the same holder. -/
theorem one_rule_per_match (hn : n < 2 ^ 32) (hrules : Unstale n rules)
    (hswitch : ∀ ev ∈ evs, OnSwitch sameMatch ev)
    (hstart : ∀ r ∈ rules, ∀ r' ∈ rules, sameMatch (entryOf r) (entryOf r') →
      entryOf r = entryOf r')
    (h : exec daemonStep (boot rules) evs = .ok s)
    (hcount : s.shared.history.hellos.length ≤ n) :
    ∀ r ∈ s.shared.rules, ∀ r' ∈ s.shared.rules, r.table = r'.table → r.priority = r'.priority →
      r.match = r'.match → r.actions = r'.actions ∧ ∀ k, HeldBy s k r ↔ HeldBy s k r' := by
  have hone := onePerKey_bridge hn hrules hswitch hstart h hcount
  intro r hr r' hr' htable hpriority hmatch
  have hkey : matchKey (entryOf r) = matchKey (entryOf r') := by
    simp [matchKey, entryOf, htable, hpriority, hmatch]
  -- a rule is in the table under its holder, if it has one, and under nobody otherwise
  have hin : ∀ q ∈ s.shared.rules, ∃ o, Holder (HeldBy s) o q ∧ (o, entryOf q) ∈ bridge s := by
    intro q hq
    by_cases hheld : ∃ k, HeldBy s k q
    · obtain ⟨k, hk⟩ := hheld
      exact ⟨some k, hk, q, hq, rfl, hk⟩
    · have hnobody : ∀ k, ¬ HeldBy s k q := not_exists.mp hheld
      exact ⟨none, hnobody, q, hq, rfl, hnobody⟩
  obtain ⟨o, hholder, hmem⟩ := hin r hr
  obtain ⟨o', hholder', hmem'⟩ := hin r' hr'
  obtain ⟨rfl, hsame⟩ := Prod.mk.inj (hone _ hmem _ hmem' hkey)
  refine ⟨congrArg Entry.actions hsame, fun k => ?_⟩
  obtain ⟨hs, hl⟩ := ledger_of_run h
  have hunique := heldBy_unique hl (hcount.trans_lt hn)
  cases o with
  | none => exact iff_of_false (hholder k) (hholder' k)
  | some j =>
    constructor
    · intro hk
      rwa [hunique r k j hk hholder]
    · intro hk
      rwa [hunique r' k j hk hholder']

theorem one_rule_per_match_takeover : ∃ s, exec daemonStep (boot []) takeover = .ok s ∧
    ∀ r ∈ s.shared.rules, ∀ r' ∈ s.shared.rules, r.table = r'.table → r.priority = r'.priority →
      r.match = r'.match → r.actions = r'.actions ∧ ∀ k, HeldBy s k r ↔ HeldBy s k r' := by
  obtain ⟨s, hexec, hcount⟩ := takeover_runs
  exact ⟨s, hexec, one_rule_per_match (n := 2) (by omega) (unstale_nil 2) takeover_onSwitch
    (by simp) hexec hcount⟩

/-- The card that a round is about: the one that an unregistration names, or the one behind
the read event. -/
def target (s : Daemon) : DaemonEvent → Option ℕ
  | .command cmd tail _ =>
    if cmd.cmdType = cmdTypeUnregister then
      (beLaGetAccCardptr s.table (cmd.card.pathBefore
        (LittleEndian.wordBytes 4 cmd.cmdType ++ tail))).map BeCardInner.addr
    else none
  | .readable event _ => (s.events.find? (fun e => e.id = event)).map ReadEvent.arg

theorem tenant_of_loop {w : World} {context : AccContext} {k i : ℕ} {flows : List AccFlow}
    {act : Act ℕ Entry} (h : act ∈ loopActs w context k i flows) : act.tenant = k := by
  induction flows generalizing i with
  | nil => cases h
  | cons flow flows ih =>
    unfold loopActs at h
    split at h
    · rcases List.mem_append.mp h with hput | hrest
      · split at hput
        · obtain rfl := List.mem_singleton.mp hput
          rfl
        · cases hput
      · exact ih hrest
    · split at h
      · obtain rfl := List.mem_singleton.mp h
        rfl
      · cases h

theorem tenant_of_end {w : World} {card : BeCardInner} {act : Act ℕ Entry}
    (h : act ∈ endActs w card) : act.tenant = card.addr := by
  unfold endActs endAct at h
  split at h
  · cases h
  · obtain rfl := List.mem_singleton.mp h
    split <;> rfl

theorem tenant_of_message {w : World} {card : BeCardInner} {msg : Framing.Message}
    {act : Act ℕ Entry} (h : act ∈ messageActs w card msg) : act.tenant = card.addr := by
  unfold messageActs at h
  split at h
  · unfold helloActs at h
    split at h
    · obtain rfl := List.mem_singleton.mp h
      rfl
    · obtain rfl := List.mem_singleton.mp h
      rfl
    · cases h
  · split at h
    · unfold addActs batchActs at h
      split at h
      · cases h
      · split at h
        · split at h
          · exact tenant_of_loop h
          · cases h
        · cases h
    · split at h
      · exact tenant_of_end h
      · cases h

/-- All acts of a round are acts of the card that it is about. -/
theorem tenant_of_act {ev : DaemonEvent} {act : Act ℕ Entry} (h : act ∈ actsOf s ev) :
    target s ev = some act.tenant := by
  cases ev with
  | command cmd tail env =>
    simp only [actsOf, commandActs] at h
    simp only [target]
    split at h
    · rename_i htype
      rw [if_pos htype]
      split at h
      · cases h
      · rename_i card hcard
        obtain rfl := List.mem_singleton.mp h
        rw [hcard]
        rfl
    · cases h
  | readable event d =>
    simp only [actsOf] at h
    simp only [target]
    split at h
    · cases h
    · rename_i e hfind
      rw [hfind]
      split at h
      · cases h
      · rename_i card hat
        have haddr := (cardAt_some hat).2
        have htenant : act.tenant = card.addr := by
          unfold readActs at h
          split at h
          · exact tenant_of_message h
          · exact tenant_of_end h
        rw [Option.map_some, htenant, haddr]

theorem tenant_of_actsAlong {k : ℕ}
    (hothers : Each daemonStep (fun s ev => target s ev ≠ some k) s evs) {act : Act ℕ Entry}
    (h : act ∈ actsAlong s evs) : act.tenant ≠ k := by
  induction evs generalizing s with
  | nil => cases h
  | cons ev evs ih =>
    unfold actsAlong at h
    split at h
    · cases h
    · rename_i t ht
      rcases List.mem_append.mp h with hfirst | hrest
      · rintro rfl
        exact hothers.1 (tenant_of_act hfirst)
      · exact ih (hothers.2 t ht) hrest

/-- While nothing that happens is about a card, it gains no entry, and it loses those that
another card's add displaces and no others. -/
theorem bystander_loses_displaced (hn : n < 2 ^ 32) (hrules : Unstale n rules) {s' : Daemon}
    {later : List DaemonEvent} (hswitch : ∀ ev ∈ later, OnSwitch displaces ev)
    (h : exec daemonStep (boot rules) evs = .ok s) (h' : exec daemonStep s later = .ok s')
    (hcount : s'.shared.history.hellos.length ≤ n) {k : ℕ}
    (hothers : Each daemonStep (fun s ev => target s ev ≠ some k) s later) (e : Entry) :
    (∃ r ∈ s'.shared.rules, entryOf r = e ∧ HeldBy s' k r) ↔
      (∃ r ∈ s.shared.rules, entryOf r = e ∧ HeldBy s k r) ∧
        ∀ act ∈ actsAlong s later, ¬ act.Displaces displaces e := by
  obtain ⟨hs, hl⟩ := ledger_of_run h
  have hheld := @held_iff ℕ Entry displaces (bridge s) (actsAlong s later) k e
  rw [← bridge_run hn hrules hs hl hswitch h' hcount] at hheld
  have htenant : ∀ act ∈ actsAlong s later, act.tenant ≠ k := fun act hact =>
    tenant_of_actsAlong hothers hact
  refine hheld.trans ?_
  constructor
  · rintro (⟨before, rest, hsplit, -⟩ | ⟨hin, hall⟩)
    · refine absurd rfl (htenant (.put k e) ?_)
      rw [hsplit]
      simp
    · exact ⟨hin, fun act hact hdisplaces => hall act hact (.inl hdisplaces)⟩
  · rintro ⟨hin, hall⟩
    refine .inr ⟨hin, fun act hact => ?_⟩
    rintro (hdisplaces | rfl | rfl)
    · exact hall act hact hdisplaces
    · exact htenant _ hact rfl
    · exact htenant _ hact rfl

def secondLeaves : List DaemonEvent := [.readable 4 (arriving byeMessage .healthy)]

set_option maxRecDepth 8192 in
/-- Then the first card still has its flow. -/
theorem bystander_loses_displaced_twoSessions : ∃ s s',
    exec daemonStep (boot []) twoSessions = .ok s ∧ exec daemonStep s secondLeaves = .ok s' ∧
      ∃ r ∈ s'.shared.rules, entryOf r = entryOfFlow (AccFlow.plain 6) ∧ HeldBy s' 1 r := by
  obtain ⟨s, hexec, ⟨r, hr, he, card, hcard, haddr, hcookie⟩, htargets, hacts, hends⟩ : ∃ s,
      exec daemonStep (boot []) twoSessions = .ok s ∧
      (∃ r ∈ s.shared.rules, entryOf r = entryOfFlow (AccFlow.plain 6) ∧ ∃ card ∈ s.cards,
        card.addr = 1 ∧ card.context.map (fun c => c.hostid.toNat) = some r.cookie) ∧
      target s (.readable 4 (arriving byeMessage .healthy)) = some 3 ∧
      actsAlong s secondLeaves = [.clear 3] ∧
      ((exec daemonStep s secondLeaves).toOption.map fun s' =>
        s'.shared.history.hellos.length) = some 2 :=
    exists_of_eval (by decide +kernel)
  cases hexec' : exec daemonStep s secondLeaves with
  | error stop => simp [hexec', Except.toOption] at hends
  | ok s' =>
    rw [hexec'] at hends
    have hcount : s'.shared.history.hellos.length ≤ 2 := (Option.some.inj hends).le
    obtain ⟨context, hcontext, hhostid⟩ := Option.map_eq_some_iff.mp hcookie
    have hother : target s (.readable 4 (arriving byeMessage .healthy)) ≠ some 1 := by
      rw [htargets]
      decide
    have hothers : Each daemonStep (fun s ev => target s ev ≠ some 1) s secondLeaves :=
      ⟨hother, fun _ _ => trivial⟩
    have hswitch : ∀ ev ∈ secondLeaves, OnSwitch sameMatch ev :=
      List.forall_mem_singleton.mpr replacesBy_openVSwitch
    refine ⟨s, s', hexec, hexec', (bystander_loses_displaced (n := 2) (by omega) (unstale_nil 2)
      hswitch hexec hexec' hcount hothers _).mpr
      ⟨⟨r, hr, he, context, ⟨card, hcard, haddr, hcontext⟩, hhostid.symm⟩, ?_⟩⟩
    rw [hacts, List.forall_mem_singleton]
    exact id

end

end BeLa.BridgeTenants
