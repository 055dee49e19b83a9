import BeLa.Client
import BeLa.Ledger

/-!
Isolation of cards. Within 2^32 HELLOs the contexts attached at one time have
different host ids, the edit and the flush lines of a context carry its host id
as their cookie, and so a flush takes off only what its own context has added.
-/
namespace BeLa.Isolation

open Numerals Words KeyedWords Runs Logs BeLa.Flow OfctlRule CommandLine Switch Context Execute Card
open Message Channel Command Client Editing Footprint Handling Steps Ledger

variable {s s' : Daemon} {rules : List SwitchRule}

def cookieOf (line : Text) : Option ℕ :=
  (findAfter "cookie=0X".toList line).bind fun rest =>
    readNumeral 16 (rest.takeWhile (fun c => digitValue c < 16))

theorem cookieOf_append {front rest : Text} (n : ℕ)
    (hfront : ∀ t ∈ front.tails, t ≠ [] → differ "cookie=0X".toList (t ++ "cookie=0X".toList))
    (hrest : ∀ c ∈ rest.head?, digitValue c = 16) :
    cookieOf (front ++ ("cookie=0X".toList ++ (numeral 16 n ++ rest))) = some n := by
  have hdigits : ∀ c ∈ numeral 16 n, decide (digitValue c < 16) = true := fun c hc =>
    decide_eq_true (digitValue_lt_of_mem_numeral (by omega) (by omega) c hc)
  have hstop : rest.takeWhile (fun c => decide (digitValue c < 16)) = [] := by
    cases rest with
    | nil => rfl
    | cons c rest =>
      have hc : digitValue c = 16 := hrest c rfl
      simp [hc]
  rw [cookieOf, findAfter_append hfront, Option.bind_some, List.takeWhile_append_of_pos hdigits,
    hstop, List.append_nil, readNumeral_numeral (by omega) (by omega)]

/-- The line of an edited rule carries the host id that the rule was built with. -/
theorem cookieOf_editText (isDelete : Bool) (hostid : BitVec 32) (flow : AccFlow) :
    cookieOf (editText isDelete br0 (ruleOf hostid flow)) = some hostid.toNat := by
  have htext : ∀ mode : Text, "ovs-ofctl ".toList ++ mode ++ " ".toList ++ br0 ++ " '".toList ++
      editArgument (ruleOf hostid flow) ++ "'".toList =
      ("ovs-ofctl ".toList ++ mode ++ " ".toList ++ br0 ++ " '".toList) ++
        ("cookie=0X".toList ++ (numeral 16 hostid.toNat ++ (" priority=".toList ++
          (numeral 10 (ruleOf hostid flow).priority ++ " table=".toList ++
            numeral 10 (ruleOf hostid flow).table ++ " ".toList ++ (ruleOf hostid flow).match ++
            " ".toList ++ (ruleOf hostid flow).action ++ "'".toList)))) := by
    intro mode
    unfold editArgument
    simp only [List.append_assoc]
    rfl
  unfold editText
  rw [htext]
  cases isDelete with
  | false => exact cookieOf_append _ (by decide) (by rintro c ⟨⟩; rfl)
  | true => exact cookieOf_append _ (by decide) (by rintro c ⟨⟩; rfl)

theorem cookieOf_flushText (hostid : BitVec 32) :
    cookieOf (flushText br0 hostid) = some hostid.toNat := by
  have htext : flushText br0 hostid = "ovs-ofctl del-flows br0 ".toList ++ ("cookie=0X".toList ++
      (numeral 16 hostid.toNat ++ ("/".toList ++ "-1".toList))) := by
    unfold flushText
    rw [← List.append_assoc, ← List.append_assoc, ← List.append_assoc]
    rfl
  rw [htext]
  exact cookieOf_append _ (by decide) (by rintro c ⟨⟩; rfl)

/-- Within 2^32 HELLOs no two cards have contexts of one host id. -/
theorem distinct_hostids (hs : Consistent s) (hl : Ledger rules s)
    (hcount : s.shared.history.hellos.length < 2 ^ 32) {card other : BeCardInner}
    {context context' : AccContext} (hcard : card ∈ s.cards) (hother : other ∈ s.cards)
    (hcontext : card.context = some context) (hcontext' : other.context = some context')
    (hne : card ≠ other) : context.hostid ≠ context'.hostid := by
  intro hsame
  have hin := (hl.attached card.addr context ⟨card, hcard, rfl, hcontext⟩).2
  have hin' := (hl.attached other.addr context' ⟨other, hother, rfl, hcontext'⟩).2
  have hhello := hl.hello_eq hcount hin hin' (congrArg BitVec.toNat hsame)
  exact hne (Slots.eq_of_ident_eq hs.nodup hcard hother (congrArg Hello.card hhello))

/-- A flush of an attached context, of rules that this card added under this context, or that
were on the bridge when the daemon started; nobody else has added any of them. -/
structure OwnFlush (rules : List SwitchRule) (s s' : Daemon) (flush : Flush) : Prop where
  current : ∃ card ∈ s.cards, ∃ context, card.context = some context ∧
    flush.card = card.addr ∧ flush.context = context.addr ∧ flush.hostid = context.hostid
  own : ∀ r ∈ flush.deleted, r ∉ rules → ∃ install ∈ s'.shared.history.installs,
    install.rule = r ∧ install.card = flush.card ∧ install.context = flush.context
  others : ∀ r ∈ flush.deleted, ∀ install ∈ s'.shared.history.installs, install.rule = r →
    install.card = flush.card ∧ install.context = flush.context

/-- What a context flushes is its own. -/
theorem ownFlush_of_flushedBy {addr : ℕ} {context : AccContext} {flush : Flush}
    (hl : Ledger rules s) (hl' : Ledger rules s')
    (hcount : s.shared.history.hellos.length < 2 ^ 32)
    (hattached : Attached s addr context) (hprint : Footprint context s.shared s'.shared)
    (hflush : FlushedBy context s.shared s'.shared flush) : OwnFlush rules s s' flush := by
  obtain ⟨hcard, hname, hhostid, hdeleted⟩ := hflush
  obtain ⟨haddr, hhello⟩ := hl.attached addr context hattached
  have hsame : s'.shared.history.hellos = s.shared.history.hellos := hprint.counters.hellos
  -- an entry with the cookie of the context is an entry of the context
  have hentry : ∀ r ∈ flush.deleted, ∀ install ∈ s'.shared.history.installs, install.rule = r →
      install.card = flush.card ∧ install.context = flush.context := by
    rintro r hr install hin rfl
    obtain ⟨hello, hmem, hby, hunder, hcookie⟩ := hl'.installs install hin
    rw [hsame] at hmem
    have hid : hello.hostid.toNat = context.hostid.toNat :=
      hcookie.symm.trans (hdeleted install.rule hr).1
    obtain rfl := hl.hello_eq hcount hmem hhello hid
    exact ⟨hby.symm.trans (haddr.symm.trans hcard.symm), hunder.symm.trans hname.symm⟩
  refine ⟨?_, ?_, hentry⟩
  · obtain ⟨card, hin, hat, hcontext⟩ := hattached
    exact ⟨card, hin, context, hcontext, hcard.trans (haddr.trans hat.symm), hname, hhostid⟩
  · intro r hr hstart
    have hadded : ∃ install ∈ s'.shared.history.installs, install.rule = r := by
      rcases (hdeleted r hr).2 with hold | ⟨-, hin⟩
      · obtain hbefore | ⟨install, hin, hrule⟩ := hl.rules r hold
        · exact absurd hbefore hstart
        · exact ⟨install, hprint.installs.mem_of_old hin, hrule⟩
      · exact hin
    obtain ⟨install, hin, hrule⟩ := hadded
    exact ⟨install, hin, hrule, hentry r hr install hin hrule⟩

/-- Every flush of a round is a flush of its own rules. -/
theorem flushes_of_step {ev : DaemonEvent} (hs : Consistent s) (hl : Ledger rules s)
    (hcount : s.shared.history.hellos.length < 2 ^ 32) (h : daemonStep s ev = .ok s') :
    Grown (OwnFlush rules s s') s.shared.history.flushes s'.shared.history.flushes := by
  have hl' := ledger_step hs hl h
  cases sessionChange_of_step hs h with
  | quiet n _ hshared => exact Grown.of_eq (by rw [hshared])
  | ran addr context hattached _ hprint =>
    exact hprint.flushes.mono fun flush hflush =>
      ownFlush_of_flushedBy hl hl' hcount hattached hprint hflush
  | hello => exact Grown.refl _

/-- In every run with fewer than 2^32 HELLOs the attached contexts have different host ids,
their edit and flush lines carry the same cookie, and a flush takes off rules of its own
card and context only. -/
theorem isolation {rules : List SwitchRule} {evs : List DaemonEvent} {s : Daemon}
    (hrun : exec daemonStep (boot rules) evs = .ok s)
    (hcount : s.shared.history.hellos.length < 2 ^ 32) :
    (∀ card ∈ s.cards, ∀ other ∈ s.cards, ∀ context context', card.context = some context →
      other.context = some context' → card ≠ other → context.hostid ≠ context'.hostid) ∧
    (∀ card ∈ s.cards, ∀ context, card.context = some context → ∀ isDelete flow,
      (commandLine (editText isDelete context.bridge (ruleOf context.hostid flow))).bind
          cookieOf = some context.hostid.toNat ∧
        (commandLine (flushText context.bridge context.hostid)).bind cookieOf =
          some context.hostid.toNat) ∧
    ∀ ev s', daemonStep s ev = .ok s' →
      Grown (OwnFlush rules s s') s.shared.history.flushes s'.shared.history.flushes := by
  obtain ⟨hs, hl⟩ := ledger_of_run hrun
  refine ⟨?_, ?_, fun ev s' h => flushes_of_step hs hl hcount h⟩
  · intro card hcard other hother context context' hcontext hcontext' hne
    exact distinct_hostids hs hl hcount hcard hother hcontext hcontext' hne
  · intro card hcard context hcontext isDelete flow
    have hbr0 : context.bridge = br0 := (hs.sound card hcard context hcontext).bridge
    have hshort := bridge_length_of_br0 hbr0
    rw [commandLine_editText isDelete hshort, commandLine_flushText hshort, hbr0]
    exact ⟨cookieOf_editText isDelete context.hostid flow, cookieOf_flushText context.hostid⟩

/-- Two cards with a session each, and a flow that the first has added. -/
def twoSessions : List DaemonEvent :=
  [registerPlain 0x73, registerPlain 0x74,
    .readable 2 (arriving (helloMessage []) .healthy),
    .readable 4 (arriving (helloMessage []) .healthy),
    .readable 2 (arriving (addFlowsMessage [AccFlow.plain 6]) .healthy)]

set_option maxRecDepth 8192 in
/-- The first card then disconnects, and its flush is a flush of its own rule. -/
theorem isolation_two_sessions :
    ∃ s s', exec daemonStep (boot []) twoSessions = .ok s ∧
      daemonStep s (.readable 2 (arriving byeMessage .healthy)) = .ok s' ∧
      s'.shared.history.flushes.map (fun flush => (flush.card, flush.deleted.length)) =
        [(1, 1)] ∧
      Grown (OwnFlush [] s s') s.shared.history.flushes s'.shared.history.flushes := by
  have hrun : ∃ s s', exec daemonStep (boot []) twoSessions = .ok s ∧
      daemonStep s (.readable 2 (arriving byeMessage .healthy)) = .ok s' ∧
      s.shared.history.hellos.length = 2 ∧
      s'.shared.history.flushes.map (fun flush => (flush.card, flush.deleted.length)) =
        [(1, 1)] := ⟨_, _, rfl, rfl, rfl, rfl⟩
  obtain ⟨s, s', hexec, hstep, hcount, hflushes⟩ := hrun
  exact ⟨s, s', hexec, hstep, hflushes, (isolation hexec (by omega)).2.2 _ _ hstep⟩

end BeLa.Isolation
