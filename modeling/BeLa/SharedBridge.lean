import BeLa.Isolation
import BeLa.Rollback
import BeLa.Tenancy

/-!
The bridge as a table that the cards share. What a card holds are the rules with
the cookie of its attached context, and what nobody holds are the others. Each
round of the event loop does the acts that can be read off its message: a
command that is carried out puts an entry or clears a card, and a session that
is replaced, dropped or ended without its flush abandons what it held.
-/
namespace BeLa.SharedBridge

open Runs Logs Slots Framing BeLa.Flow OfctlRule CommandLine Switch Context Execute Plugin Card
open Message Channel Command Client Editing Rollback Handling Steps Invariant Ledger Isolation
open Tenancy

/-- A rule of the bridge without its cookie. -/
structure Entry where
  priority : ℕ
  table : ℕ
  «match» : List Numerals.Text
  actions : List Numerals.Text
  deriving DecidableEq

def entryOf (r : SwitchRule) : Entry := ⟨r.priority, r.table, r.match, r.actions⟩

/-- The entry that a flow asks for; the cookie of its rule is not part of it. -/
def entryOfFlow (flow : AccFlow) : Entry := entryOf (installed (ruleOf 0 flow))

/-! The acts of a round. -/

/-- The loop of a batch from command `i` on, with the recovery flush behind a failure. -/
def loopActs (w : World) (context : AccContext) (k : ℕ) : ℕ → List AccFlow → List (Act ℕ Entry)
  | _, [] => []
  | i, flow :: flows =>
    if verdict context (w.shell i) then
      (if carriedOut context (w.shell i) then [.put k (entryOfFlow flow)] else []) ++
        loopActs w context k (i + 1) flows
    else if carriedOut context (w.shell (i + 1)) then [.clear k]
    else []

/-- A batch that cannot be built executes nothing. -/
def batchActs (w : World) (context : AccContext) (k : ℕ) (flows : List AccFlow) :
    List (Act ℕ Entry) :=
  if Built w flows then loopActs w context k 0 flows else []

/-- The flush at the end of a session; if it fails the rules stay. -/
def endAct (w : World) (context : AccContext) (k : ℕ) : Act ℕ Entry :=
  if carriedOut context (w.shell 0) then .clear k else .abandon k

/-- A HELLO that gets to its new context has given up the old one. -/
def helloActs (w : World) (card : BeCardInner) (len : ℕ) : List (Act ℕ Entry) :=
  match helloOutcome w card.card len with
  | .dropped => [.abandon card.addr]
  | .attached => [.abandon card.addr]
  | _ => []

/-- ADD_FLOWS of whole records needs a context. -/
def addActs (w : World) (card : BeCardInner) (message : LittleEndian.Bytes) :
    List (Act ℕ Entry) :=
  match card.context with
  | none => []
  | some context =>
    if AccFlow.size ∣ message.length then
      batchActs w context card.addr (flowsOf (message.length / AccFlow.size) message)
    else []

def endActs (w : World) (card : BeCardInner) : List (Act ℕ Entry) :=
  match card.context with
  | none => []
  | some context => [endAct w context card.addr]

def messageActs (w : World) (card : BeCardInner) (msg : Framing.Message) : List (Act ℕ Entry) :=
  if msg.hdr.msgType = accUnixHello then helloActs w card msg.body.length
  else if msg.hdr.msgType = accUnixAddFlows then addActs w card msg.body
  else if msg.hdr.msgType = accUnixDisconnect then endActs w card
  else []

/-- A call of `do_vm_request_read`: a message, or the end of the channel. -/
def readActs (card : BeCardInner) (d : Delivery) : List (Act ℕ Entry) :=
  match receivedMessage d with
  | some msg => messageActs d.world card msg
  | none => endActs d.world card

/-- A command that frees a card gives up what the card held. -/
def commandActs (s : Daemon) (cmd : CmdHdr) (behind : LittleEndian.Bytes) : List (Act ℕ Entry) :=
  if cmd.cmdType = cmdTypeUnregister then
    match beLaGetAccCardptr s.table (cmd.card.pathBefore
        (LittleEndian.wordBytes 4 cmd.cmdType ++ behind)) with
    | none => []
    | some card => [.abandon card.addr]
  else []

def actsOf (s : Daemon) : DaemonEvent → List (Act ℕ Entry)
  | .command cmd behind _ => commandActs s cmd behind
  | .readable event d =>
    match s.events.find? (fun e => e.id = event) with
    | none => []
    | some e =>
      match s.cardAt e.arg with
      | none => []
      | some card => readActs card d

def actsAlong : Daemon → List DaemonEvent → List (Act ℕ Entry)
  | _, [] => []
  | s, ev :: evs =>
    match daemonStep s ev with
    | .error _ => []
    | .ok s' => actsOf s ev ++ actsAlong s' evs

/-! The table that the daemon's state stands for. -/

def Holder (holds : ℕ → SwitchRule → Prop) : Option ℕ → SwitchRule → Prop
  | some k, r => holds k r
  | none, r => ∀ k, ¬ holds k r

def view (holds : ℕ → SwitchRule → Prop) (rules : List SwitchRule) : Table ℕ Entry :=
  {x | ∃ r ∈ rules, entryOf r = x.2 ∧ Holder holds x.1 r}

/-- The rule carries the host id of the context attached to the card. -/
def HeldBy (s : Daemon) (k : ℕ) (r : SwitchRule) : Prop :=
  ∃ context, Attached s k context ∧ r.cookie = context.hostid.toNat

def bridge (s : Daemon) : Table ℕ Entry := view (HeldBy s) s.shared.rules

section

variable {displaces : Entry → Entry → Prop} {holds holds' : ℕ → SwitchRule → Prop}
variable {rules rules' : List SwitchRule} {a : ℕ}

theorem holder_congr {r : SwitchRule} (h : ∀ k, holds' k r ↔ holds k r) (o : Option ℕ) :
    Holder holds' o r ↔ Holder holds o r := by
  cases o with
  | none => simp only [Holder, h]
  | some k => exact h k

theorem view_congr (hrules : ∀ r, r ∈ rules' ↔ r ∈ rules)
    (hholds : ∀ r ∈ rules, ∀ k, holds' k r ↔ holds k r) :
    view holds' rules' = view holds rules := by
  ext x
  refine exists_congr fun r => ?_
  rw [hrules]
  refine and_congr_right fun hr => and_congr_right fun _ => ?_
  exact holder_congr (hholds r hr) x.1

/-- A rule that its holder adds, in place of those it replaces. -/
theorem view_put {new : SwitchRule} {replaces : SwitchRule → SwitchRule → Bool}
    (hrules : ∀ r, r ∈ rules' ↔ r = new ∨ r ∈ rules ∧ ¬ replaces new r)
    (hreplaces : ∀ r q, replaces r q ↔ displaces (entryOf r) (entryOf q))
    (hnew : ∀ k, holds k new ↔ k = a) :
    view holds rules' = (Act.put a (entryOf new)).apply displaces (view holds rules) := by
  ext ⟨o, e⟩
  constructor
  · rintro ⟨r, hr, he, hholder⟩
    obtain rfl : entryOf r = e := he
    rcases (hrules r).mp hr with rfl | ⟨hold, hkept⟩
    · cases o with
      | none => exact absurd ((hnew a).mpr rfl) (hholder a)
      | some k =>
        obtain rfl := (hnew k).mp hholder
        exact .inl rfl
    · exact .inr ⟨⟨r, hold, rfl, hholder⟩, fun h => hkept ((hreplaces new r).mpr h)⟩
  · rintro (heq | ⟨⟨r, hr, he, hholder⟩, hkept⟩)
    · obtain ⟨rfl, rfl⟩ := Prod.mk.inj heq
      exact ⟨new, (hrules new).mpr (.inl rfl), rfl, (hnew a).mpr rfl⟩
    · obtain rfl : entryOf r = e := he
      refine ⟨r, (hrules r).mpr (.inr ⟨hr, fun h => hkept ?_⟩), rfl, hholder⟩
      exact (hreplaces new r).mp h

/-- The rules of a holder are taken off. -/
theorem view_clear (hrules : ∀ r, r ∈ rules' ↔ r ∈ rules ∧ ¬ holds a r)
    (hholds : ∀ r ∈ rules', ∀ k, holds' k r ↔ holds k r)
    (hunique : ∀ r k k', holds k r → holds k' r → k = k') :
    view holds' rules' = (Act.clear a).apply displaces (view holds rules) := by
  ext ⟨o, e⟩
  constructor
  · rintro ⟨r, hr, he, hholder⟩
    obtain ⟨hold, hnot⟩ := (hrules r).mp hr
    refine ⟨⟨r, hold, he, (holder_congr (hholds r hr) o).mp hholder⟩, ?_⟩
    rintro rfl
    exact hnot ((hholds r hr a).mp hholder)
  · rintro ⟨⟨r, hr, he, hholder⟩, hne⟩
    have hnot : ¬ holds a r := by
      intro ha
      cases o with
      | none => exact hholder a ha
      | some k => exact hne (congrArg some (hunique r k a hholder ha))
    have hr' : r ∈ rules' := (hrules r).mpr ⟨hr, hnot⟩
    exact ⟨r, hr', he, (holder_congr (hholds r hr') o).mpr hholder⟩

/-- The rules of a holder stay without it. -/
theorem view_abandon (hrules : ∀ r, r ∈ rules' ↔ r ∈ rules)
    (hholds : ∀ r ∈ rules, ∀ k, holds' k r ↔ holds k r ∧ k ≠ a)
    (hunique : ∀ r k k', holds k r → holds k' r → k = k') :
    view holds' rules' = (Act.abandon a).apply displaces (view holds rules) := by
  ext ⟨o, e⟩
  constructor
  · rintro ⟨r, hr, he, hholder⟩
    rw [hrules] at hr
    have hkeep := hholds r hr
    cases o with
    | some k =>
      obtain ⟨hk, hne⟩ := (hkeep k).mp hholder
      exact .inl ⟨⟨r, hr, he, hk⟩, fun h => hne (Option.some.inj h)⟩
    | none =>
      by_cases ha : holds a r
      · exact .inr ⟨rfl, r, hr, he, ha⟩
      · refine .inl ⟨⟨r, hr, he, fun k hk => hholder k ((hkeep k).mpr ⟨hk, ?_⟩)⟩, by simp⟩
        rintro rfl
        exact ha hk
  · rintro (⟨⟨r, hr, he, hholder⟩, hne⟩ | ⟨ho, r, hr, he, ha⟩)
    · refine ⟨r, (hrules r).mpr hr, he, ?_⟩
      cases o with
      | some k => exact (hholds r hr k).mpr ⟨hholder, fun h => hne (congrArg some h)⟩
      | none => exact fun k hk => hholder k ((hholds r hr k).mp hk).1
    · obtain rfl : o = none := ho
      refine ⟨r, (hrules r).mpr hr, he, fun k hk => ?_⟩
      obtain ⟨hk, hne⟩ := (hholds r hr k).mp hk
      exact hne (hunique r k a hk ha)

end

/-! A batch, under holders that do not change. -/

section

variable {displaces : Entry → Entry → Prop} {holds : ℕ → SwitchRule → Prop}
variable {w : World} {context : AccContext} {k : ℕ} {sh : Shared}

structure Holds (holds : ℕ → SwitchRule → Prop) (context : AccContext) (k : ℕ) : Prop where
  own : ∀ r, holds k r ↔ r.cookie = context.hostid.toNat
  unique : ∀ r i j, holds i r → holds j r → i = j

/-- The switch replaces by what the entries say. -/
def ReplacesBy (displaces : Entry → Entry → Prop) (ofctl : Ofctl) : Prop :=
  ∀ r q, ofctl.replaces r q ↔ displaces (entryOf r) (entryOf q)

theorem Holds.only (h : Holds holds context k) {r : SwitchRule}
    (hr : r.cookie = context.hostid.toNat) (j : ℕ) : holds j r ↔ j = k := by
  have hk : holds k r := (h.own r).mpr hr
  constructor
  · exact fun hj => h.unique r j k hj hk
  · rintro rfl
    exact hk

theorem view_editFlow (hbr0 : context.bridge = br0) (hholds : Holds holds context k)
    (hswitch : ReplacesBy displaces w.ofctl) {flow : AccFlow} (hflow : Supported flow) (i : ℕ) :
    view holds (editFlow w context false i flow sh).rules =
      run displaces (view holds sh.rules)
        (if carriedOut context (w.shell i) then [.put k (entryOfFlow flow)] else []) := by
  have hmem := @mem_rules_editFlow w context sh hbr0 flow hflow i
  by_cases hout : carriedOut context (w.shell i)
  · simp only [hout, true_and] at hmem
    have hput : view holds (editFlow w context false i flow sh).rules =
        (Act.put k (entryOf (installed (ruleOf context.hostid flow)))).apply displaces
          (view holds sh.rules) := view_put hmem hswitch (hholds.only rfl)
    rw [if_pos hout]
    exact hput
  · simp only [hout, false_and, false_or, not_false_eq_true, and_true, Bool.false_eq_true] at hmem
    rw [if_neg hout]
    exact view_congr hmem fun _ _ _ => Iff.rfl

theorem view_flush (hbr0 : context.bridge = br0) (hholds : Holds holds context k)
    (ran : CommandRun) :
    view holds (afterFlush w context ran sh).rules =
      run displaces (view holds sh.rules) (if carriedOut context ran then [.clear k] else []) := by
  have hmem := @mem_rules_flush w context sh hbr0 ran
  by_cases hout : carriedOut context ran
  · simp only [hout, forall_const] at hmem
    rw [if_pos hout]
    simp only [ne_eq, ← hholds.own] at hmem
    exact @view_clear displaces _ _ _ _ _ hmem (fun _ _ _ => Iff.rfl) hholds.unique
  · simp only [hout, false_implies, and_true, Bool.false_eq_true] at hmem
    rw [if_neg hout]
    exact view_congr hmem fun _ _ _ => Iff.rfl

/-- A loop in which no command fails does an act for each command that is carried out. -/
theorem view_editFlows (hbr0 : context.bridge = br0) (hholds : Holds holds context k)
    (hswitch : ReplacesBy displaces w.ofctl) {flows : List AccFlow}
    (hflows : ∀ flow ∈ flows, Supported flow) {i : ℕ}
    (h : ∀ j, j < flows.length → verdict context (w.shell (i + j))) :
    view holds (editFlows w context false i flows sh).rules =
      run displaces (view holds sh.rules) (loopActs w context k i flows) := by
  induction flows generalizing i sh with
  | nil => rfl
  | cons flow flows ih =>
    rw [List.forall_mem_cons] at hflows
    have hhead : verdict context (w.shell i) := h 0 (by simp)
    have htail : ∀ j, j < flows.length → verdict context (w.shell (i + 1 + j)) := by
      intro j hj
      rw [Nat.add_assoc, Nat.add_comm 1 j]
      exact h (j + 1) (by simpa using hj)
    rw [editFlows, ih hflows.2 htail, loopActs, if_pos hhead, run_append,
      view_editFlow hbr0 hholds hswitch hflows.1]

/-- Behind the first command that fails comes the flush. -/
theorem view_failed (hbr0 : context.bridge = br0) (hholds : Holds holds context k)
    (hswitch : ReplacesBy displaces w.ofctl) {flows : List AccFlow}
    (hflows : ∀ flow ∈ flows, Supported flow) {i n : ℕ} (hn : n < flows.length)
    (h : ∀ j, j < n → verdict context (w.shell (i + j)))
    (hfail : ¬ verdict context (w.shell (i + n))) :
    view holds (afterFlush w context (w.shell (i + n + 1))
        (editFlows w context false i (flows.take (n + 1)) sh)).rules =
      run displaces (view holds sh.rules) (loopActs w context k i flows) := by
  induction flows generalizing i n sh with
  | nil => simp at hn
  | cons flow flows ih =>
    rw [List.forall_mem_cons] at hflows
    have hfirst := @view_editFlow displaces holds w context k sh hbr0 hholds hswitch flow
      hflows.1 i
    rw [List.take_succ_cons, editFlows, loopActs]
    cases n with
    | zero =>
      -- the failed command has changed nothing
      rw [Nat.add_zero] at hfail ⊢
      rw [if_neg (not_carriedOut_of_failed hfail)] at hfirst
      rw [view_flush hbr0 hholds, if_neg hfail]
      exact congrArg (fun table => run displaces table _) hfirst
    | succ n =>
      have hhead : verdict context (w.shell i) := h 0 (by omega)
      have htail : ∀ j, j < n → verdict context (w.shell (i + 1 + j)) := by
        intro j hj
        rw [Nat.add_assoc, Nat.add_comm 1 j]
        exact h (j + 1) (by omega)
      have hshift : i + (n + 1) = i + 1 + n := by omega
      rw [hshift] at hfail ⊢
      rw [ih hflows.2 (by simpa using hn) htail hfail, if_pos hhead, run_append, hfirst]

theorem view_batch (hbr0 : context.bridge = br0) (hholds : Holds holds context k)
    (hswitch : ReplacesBy displaces w.ofctl) (flows : List AccFlow) :
    view holds (addResult w context flows sh).2.rules =
      run displaces (view holds sh.rules) (batchActs w context k flows) := by
  unfold batchActs
  by_cases hbuilt : Built w flows
  · rw [if_pos hbuilt]
    rcases firstFailure_cases w context flows.length with ⟨-, h⟩ | ⟨n, -, hn, h, hfail⟩
    · rw [addResult_succeeds hbuilt h]
      exact view_editFlows hbr0 hholds hswitch hbuilt.2 (by simpa using h)
    · have hview := @view_failed displaces holds w context k (noteBatch context flows sh) hbr0
        hholds hswitch flows hbuilt.2 0 n hn (by simpa using h) (by simpa using hfail)
      rw [Nat.zero_add] at hview
      rw [addResult_fails hbuilt hn h hfail]
      exact hview
  · rw [addResult_refused hbuilt, if_neg hbuilt]
    rfl

/-- The flush at the end of a session, behind which the context is gone. -/
theorem view_endAct {holds' : ℕ → SwitchRule → Prop} (hbr0 : context.bridge = br0)
    (hholds : Holds holds context k) (hgone : ∀ r j, holds' j r ↔ holds j r ∧ j ≠ k) :
    view holds' (afterFlush w context (w.shell 0) sh).rules =
      run displaces (view holds sh.rules) [endAct w context k] := by
  have hmem := @mem_rules_flush w context sh hbr0 (w.shell 0)
  unfold endAct
  by_cases hout : carriedOut context (w.shell 0)
  · simp only [hout, forall_const, ne_eq, ← hholds.own] at hmem
    rw [if_pos hout]
    refine @view_clear displaces _ _ _ _ _ hmem
      (fun r hr j => (hgone r j).trans (and_iff_left_of_imp ?_)) hholds.unique
    rintro hj rfl
    exact ((hmem r).mp hr).2 hj
  · simp only [hout, false_implies, and_true, Bool.false_eq_true] at hmem
    rw [if_neg hout]
    exact @view_abandon displaces _ _ _ _ _ hmem (fun r _ j => hgone r j) hholds.unique

end

/-! The holders that the cards of the daemon are. -/

section

variable {displaces : Entry → Entry → Prop} {s s' : Daemon} {rules : List SwitchRule}

theorem attached_unique (hs : Consistent s) {k : ℕ} {context context' : AccContext}
    (h : Attached s k context) (h' : Attached s k context') : context = context' := by
  obtain ⟨card, hcard, haddr, hcontext⟩ := h
  obtain ⟨other, hother, haddr', hcontext'⟩ := h'
  obtain rfl := eq_of_ident_eq hs.nodup hcard hother (haddr.trans haddr'.symm)
  exact Option.some.inj (hcontext.symm.trans hcontext')

/-- Within 2^32 HELLOs a rule has one holder. -/
theorem heldBy_unique (hl : Ledger rules s) (hcount : s.shared.history.hellos.length < 2 ^ 32)
    (r : SwitchRule) (i j : ℕ) (hi : HeldBy s i r) (hj : HeldBy s j r) : i = j := by
  obtain ⟨context, hattached, hcookie⟩ := hi
  obtain ⟨context', hattached', hcookie'⟩ := hj
  have hhello := hl.hello_eq hcount (hl.attached i context hattached).2
    (hl.attached j context' hattached').2 (hcookie.symm.trans hcookie')
  exact congrArg Hello.card hhello

theorem holds_heldBy (hs : Consistent s) (hl : Ledger rules s)
    (hcount : s.shared.history.hellos.length < 2 ^ 32) {k : ℕ} {context : AccContext}
    (hattached : Attached s k context) : Holds (HeldBy s) context k := by
  refine ⟨fun r => ⟨?_, fun h => ⟨context, hattached, h⟩⟩, heldBy_unique hl hcount⟩
  rintro ⟨other, hother, hcookie⟩
  rw [attached_unique hs hattached hother]
  exact hcookie

/-- The contexts after a write to a card of the table. -/
theorem attached_write_iff {card card' : BeCardInner} {shared : Shared} (hcard : card ∈ s.cards)
    (haddr : card'.addr = card.addr) (k : ℕ) (context : AccContext) :
    Attached { s.writeCard card' with shared := shared } k context ↔
      (k = card.addr ∧ card'.context = some context) ∨ (k ≠ card.addr ∧ Attached s k context) := by
  constructor
  · rintro ⟨x, hx, rfl, hcontext⟩
    rcases mem_writeCard.mp hx with ⟨rfl, -⟩ | ⟨hold, hne⟩
    · exact .inl ⟨haddr, hcontext⟩
    · exact .inr ⟨fun h => hne (h.trans haddr.symm), x, hold, rfl, hcontext⟩
  · rintro (⟨rfl, hcontext⟩ | ⟨hne, x, hx, rfl, hcontext⟩)
    · exact ⟨card', mem_writeCard.mpr (.inl ⟨rfl, card, hcard, haddr.symm⟩), haddr, hcontext⟩
    · exact ⟨x, mem_writeCard.mpr (.inr ⟨hx, fun h => hne (h.trans haddr)⟩), rfl, hcontext⟩

/-- A write that leaves the context leaves the holders. -/
theorem heldBy_kept {card card' : BeCardInner} {shared : Shared} (hs : Consistent s)
    (hcard : card ∈ s.cards) (haddr : card'.addr = card.addr)
    (hcontext : card'.context = card.context) (r : SwitchRule) (k : ℕ) :
    HeldBy { s.writeCard card' with shared := shared } k r ↔ HeldBy s k r := by
  refine exists_congr fun context => and_congr_left fun _ => ?_
  rw [attached_write_iff hcard haddr, hcontext]
  constructor
  · rintro (⟨rfl, hsome⟩ | ⟨-, hold⟩)
    · exact ⟨card, hcard, rfl, hsome⟩
    · exact hold
  · rintro ⟨x, hx, rfl, hsome⟩
    by_cases heq : x.addr = card.addr
    · obtain rfl := eq_of_ident_eq hs.nodup hx hcard heq
      exact .inl ⟨rfl, hsome⟩
    · exact .inr ⟨heq, x, hx, rfl, hsome⟩

/-- A write that takes the context away, or puts one in its place that no rule is held by. -/
theorem heldBy_lost {card card' : BeCardInner} {shared : Shared} (hcard : card ∈ s.cards)
    (haddr : card'.addr = card.addr) {r : SwitchRule}
    (hcontext : ∀ context, card'.context = some context → r.cookie ≠ context.hostid.toNat)
    (k : ℕ) : HeldBy { s.writeCard card' with shared := shared } k r ↔
      HeldBy s k r ∧ k ≠ card.addr := by
  constructor
  · rintro ⟨context, hattached, hcookie⟩
    rcases (attached_write_iff hcard haddr k context).mp hattached with ⟨-, hsome⟩ | ⟨hne, hold⟩
    · exact absurd hcookie (hcontext context hsome)
    · exact ⟨⟨context, hold, hcookie⟩, hne⟩
  · rintro ⟨⟨context, hold, hcookie⟩, hne⟩
    exact ⟨context, (attached_write_iff hcard haddr k context).mpr (.inr ⟨hne, hold⟩), hcookie⟩

/-- Cards leave the table, or come to it without a context. -/
theorem heldBy_of_attached (h : ∀ k context, Attached s' k context ↔ Attached s k context)
    (r : SwitchRule) (k : ℕ) : HeldBy s' k r ↔ HeldBy s k r := by
  simp only [HeldBy, h]

theorem heldBy_left {a : ℕ}
    (h : ∀ k context, Attached s' k context ↔ Attached s k context ∧ k ≠ a)
    (r : SwitchRule) (k : ℕ) : HeldBy s' k r ↔ HeldBy s k r ∧ k ≠ a := by
  simp only [HeldBy, h]
  constructor
  · rintro ⟨context, ⟨hold, hne⟩, hcookie⟩
    exact ⟨⟨context, hold, hcookie⟩, hne⟩
  · rintro ⟨⟨context, hold, hcookie⟩, hne⟩
    exact ⟨context, ⟨hold, hne⟩, hcookie⟩

/-- No rule that was on the bridge at the start has the host id of one of the first HELLOs. -/
def Unstale (n : ℕ) (rules : List SwitchRule) : Prop :=
  ∀ r ∈ rules, ∀ i, i < n → r.cookie ≠ (hostIdAt i).toNat

/-- What the step lemmas rely on: the invariants, and a bound on the HELLOs. -/
structure Sane (n : ℕ) (rules : List SwitchRule) (s : Daemon) : Prop where
  consistent : Consistent s
  ledger : Ledger rules s
  count : s.shared.history.hellos.length ≤ n

/-- No rule is held by a context that the next HELLO attaches. -/
theorem fresh_hostid {n : ℕ} (hn : n < 2 ^ 32) (hrules : Unstale n rules) (hs : Sane n rules s)
    (hroom : s.shared.history.hellos.length < n) :
    ∀ r ∈ s.shared.rules, r.cookie ≠ s.shared.contextHostId.toNat := by
  intro r hr hcookie
  rw [hs.ledger.counter] at hcookie
  rcases hs.ledger.rules r hr with hstart | ⟨install, hin, rfl⟩
  · exact hrules r hstart _ hroom hcookie
  · obtain ⟨hello, hmem, -, -, hhello⟩ := hs.ledger.installs install hin
    obtain ⟨i, hi, hget⟩ := List.mem_iff_getElem.mp hmem
    have hid := hs.ledger.hostids i hello (by rw [List.getElem?_eq_getElem hi, hget])
    rw [hhello, hid] at hcookie
    exact absurd (hostIdAt_injective (by omega) (by omega) hcookie) (by omega)

variable {n : ℕ}

theorem Sane.holds (hn : n < 2 ^ 32) (hs : Sane n rules s) {k : ℕ} {context : AccContext}
    (h : Attached s k context) : Holds (HeldBy s) context k :=
  holds_heldBy hs.consistent hs.ledger (hs.count.trans_lt hn) h

def handledBy (s : Daemon) (handled : Handled) : Daemon :=
  { s.writeCard handled.card with shared := handled.shared }

section

variable {card : BeCardInner} {w : World} {message : LittleEndian.Bytes} {handled : Handled}

theorem bridge_hello (hn : n < 2 ^ 32) (hrules : Unstale n rules) (hs : Sane n rules s)
    (hcard : card ∈ s.cards)
    (h : helloMessageHandle w card message 0 s.shared = .ok handled)
    (hcount : handled.shared.history.hellos.length ≤ n) :
    bridge (handledBy s handled) =
      run displaces (bridge s) (helloActs w card message.length) := by
  have hunique := heldBy_unique hs.ledger (hs.count.trans_lt hn)
  have hspec := @hello_spec w card (hs.consistent.sound card hcard) message 0 s.shared
  unfold helloActs
  cases houtcome : helloOutcome w card.card message.length with
  | refused =>
    simp only [houtcome, h, Except.ok.injEq] at hspec
    subst hspec
    exact view_congr (fun _ => Iff.rfl) fun r _ =>
      @heldBy_kept s card card s.shared hs.consistent hcard rfl rfl r
  | unmatched =>
    simp only [houtcome, h, Except.ok.injEq] at hspec
    subst hspec
    exact view_congr (fun _ => Iff.rfl) fun r _ =>
      @heldBy_kept s card { card with plugin := none } s.shared hs.consistent hcard rfl rfl r
  | crash => simp [houtcome, h] at hspec
  | dropped =>
    simp only [houtcome, h, Except.ok.injEq] at hspec
    subst hspec
    refine @view_abandon displaces _ _ _ _ _ (fun _ => Iff.rfl) (fun r _ => ?_) hunique
    exact @heldBy_lost s card { card with plugin := none, context := none } s.shared hcard rfl r
      fun _ hsome => by cases hsome
  | attached =>
    simp only [houtcome, h, Except.ok.injEq] at hspec
    obtain ⟨slot, context, hnew, rfl⟩ := hspec
    have hroom : s.shared.history.hellos.length < n := by
      simp only [noteHello, List.length_append, List.length_singleton] at hcount
      omega
    have hfresh := fresh_hostid hn hrules hs hroom
    refine @view_abandon displaces _ _ _ _ _ (fun _ => Iff.rfl) (fun r hr => ?_) hunique
    refine @heldBy_lost s card { card with plugin := some slot, context := some context }
      (noteHello card.addr context.addr s.shared) hcard rfl r fun other hother => ?_
    obtain rfl : context = other := Option.some.inj hother
    rw [hnew.hostid]
    exact hfresh r hr

theorem bridge_addFlows (hn : n < 2 ^ 32) (hs : Sane n rules s) (hcard : card ∈ s.cards)
    (hswitch : ReplacesBy displaces w.ofctl)
    (h : addFlowsMessageHandle w card message 0 s.shared = .ok handled) :
    bridge (handledBy s handled) = run displaces (bridge s) (addActs w card message) := by
  have hsound := hs.consistent.sound card hcard
  have hkept := @heldBy_kept s card card handled.shared hs.consistent hcard rfl rfl
  unfold addActs
  by_cases hsize : AccFlow.size ∣ message.length
  · rw [addFlows_spec hsound 0 s.shared hsize] at h
    cases hcontext : card.context with
    | none => simp [hcontext] at h
    | some context =>
      simp only [hcontext] at h
      split at h
      · cases h
      obtain rfl := Except.ok.inj h
      have hbr0 := (hsound context hcontext).bridge
      simp only [if_pos hsize]
      refine Eq.trans ?_ (view_batch hbr0 (hs.holds hn ⟨card, hcard, rfl, hcontext⟩) hswitch _)
      exact view_congr (fun _ => Iff.rfl) fun r _ => hkept r
  · rw [addFlows_odd 0 s.shared hsize, Except.ok.injEq] at h
    subst h
    have hsame : bridge (handledBy s ⟨false, 0, card, s.shared⟩) = bridge s :=
      view_congr (fun _ => Iff.rfl) fun r _ => hkept r
    cases card.context with
    | none => exact hsame
    | some context =>
      simp only [if_neg hsize]
      exact hsame

theorem bridge_disconnect (hn : n < 2 ^ 32) (hs : Sane n rules s) (hcard : card ∈ s.cards)
    (h : disconnectMessageHandle w card s.shared = .ok handled) :
    bridge (handledBy s handled) = run displaces (bridge s) (endActs w card) := by
  have hsound := hs.consistent.sound card hcard
  rw [disconnect_spec hsound] at h
  unfold endActs
  cases hcontext : card.context with
  | none => simp [hcontext] at h
  | some context =>
    simp only [hcontext] at h
    split at h
    · cases h
    obtain rfl := Except.ok.inj h
    refine view_endAct (hsound context hcontext).bridge
      (hs.holds hn ⟨card, hcard, rfl, hcontext⟩) fun r => ?_
    exact @heldBy_lost s card { card with plugin := none, context := none } _ hcard rfl r
      fun _ hsome => by cases hsome

/-- A message that is processed does its acts. -/
theorem bridge_message (hn : n < 2 ^ 32) (hrules : Unstale n rules) (hs : Sane n rules s)
    (hcard : card ∈ s.cards) (hswitch : ReplacesBy displaces w.ofctl) {msg : Framing.Message}
    (h : beAccMessageProcess w card msg.hdr.msgType msg.body 0 s.shared = .ok handled)
    (hcount : handled.shared.history.hellos.length ≤ n) :
    bridge (handledBy s handled) = run displaces (bridge s) (messageActs w card msg) := by
  have hadd : accUnixAddFlows ≠ accUnixHello := by decide
  have hbye : accUnixDisconnect ≠ accUnixHello ∧ accUnixDisconnect ≠ accUnixAddFlows := by decide
  unfold beAccMessageProcess at h
  unfold messageActs
  rcases handlerAt_cases msg.hdr.msgType with ⟨htype, hat⟩ | ⟨htype, hat⟩ | ⟨htype, hat⟩ |
    ⟨-, hat | hat⟩
  · rw [hat] at h
    rw [if_pos htype]
    exact bridge_hello hn hrules hs hcard h hcount
  · rw [hat] at h
    rw [htype, if_neg hadd, if_pos rfl]
    exact bridge_addFlows hn hs hcard hswitch h
  · rw [hat] at h
    rw [htype, if_neg hbye.1, if_neg hbye.2, if_pos rfl]
    exact bridge_disconnect hn hs hcard h
  · simp [hat] at h
  · simp [hat] at h

end

/-! The rounds. -/

/-- A card without a context joins the table. -/
theorem attached_join {card : BeCardInner} (hcards : s'.cards.Perm (card :: s.cards))
    (hcontext : card.context = none) (k : ℕ) (context : AccContext) :
    Attached s' k context ↔ Attached s k context := by
  constructor
  · rintro ⟨x, hx, haddr, hsome⟩
    rcases List.mem_cons.mp (hcards.mem_iff.mp hx) with rfl | hold
    · rw [hcontext] at hsome
      cases hsome
    · exact ⟨x, hold, haddr, hsome⟩
  · rintro ⟨x, hx, haddr, hsome⟩
    exact ⟨x, hcards.mem_iff.mpr (List.mem_cons_of_mem _ hx), haddr, hsome⟩

theorem attached_leave {card : BeCardInner} (hnodup : (s.cards.map BeCardInner.addr).Nodup)
    (hcards : s.cards.Perm (card :: s'.cards)) (k : ℕ) (context : AccContext) :
    Attached s' k context ↔ Attached s k context ∧ k ≠ card.addr := by
  have hleft := ((hcards.map BeCardInner.addr).nodup_iff).mp hnodup
  rw [List.map_cons, List.nodup_cons] at hleft
  constructor
  · rintro ⟨x, hx, rfl, hsome⟩
    refine ⟨⟨x, hcards.mem_iff.mpr (List.mem_cons_of_mem _ hx), rfl, hsome⟩, fun heq => ?_⟩
    exact hleft.1 (List.mem_map.mpr ⟨x, hx, heq⟩)
  · rintro ⟨⟨x, hx, rfl, hsome⟩, hne⟩
    rcases List.mem_cons.mp (hcards.mem_iff.mp hx) with rfl | hold
    · exact absurd rfl hne
    · exact ⟨x, hold, rfl, hsome⟩

theorem attached_closed {card : BeCardInner} (hs : Consistent s)
    (hcards : (s.writeCard (cleared card)).cards.Perm (cleared card :: s'.cards)) (k : ℕ)
    (context : AccContext) : Attached s' k context ↔ Attached s k context ∧ k ≠ card.addr := by
  obtain ⟨-, hothers⟩ := closed_cards hs hcards
  constructor
  · rintro ⟨x, hx, rfl, hsome⟩
    obtain ⟨hold, hne⟩ := hothers x hx
    exact ⟨⟨x, hold, rfl, hsome⟩, hne⟩
  · rintro ⟨⟨x, hx, rfl, hsome⟩, hne⟩
    have hkept : x ∈ (s.writeCard (cleared card)).cards := mem_writeCard.mpr (.inr ⟨hx, hne⟩)
    rcases List.mem_cons.mp (hcards.mem_iff.mp hkept) with rfl | hleft
    · exact absurd rfl hne
    · exact ⟨x, hleft, rfl, hsome⟩

theorem bridge_register (hs : Consistent s) {cmd : CmdHdr} {tail : LittleEndian.Bytes}
    {env : CommandWorld} {ok : Bool} (htype : cmd.cmdType = cmdTypeRegister)
    (h : beLaCmdProcess cmd tail env s = .ok (ok, s')) : bridge s' = bridge s := by
  have hjoin : ∀ {card : BeCardInner} {m : ℕ}, s'.cards.Perm (card :: s.cards) →
      card.context = none → s'.shared = { s.shared with nextAddr := m } →
      bridge s' = bridge s := by
    intro card m hcards hcontext hshared
    refine view_congr (fun r => by rw [hshared]) fun r _ => ?_
    exact heldBy_of_attached (attached_join hcards hcontext) r
  cases change_of_register hs htype h with
  | idle => rfl
  | registered card _ hblank hcards _ _ hshared => exact hjoin hcards hblank.context hshared
  | opened card socket _ hblank _ hcards _ _ hshared => exact hjoin hcards hblank.context hshared
  | unregistered card hfrees =>
    rw [hfrees.type] at htype
    exact absurd htype (by decide)

theorem bridge_command (hn : n < 2 ^ 32) (hs : Sane n rules s) {cmd : CmdHdr}
    {tail : LittleEndian.Bytes} {env : CommandWorld} {ok : Bool}
    (h : beLaCmdProcess cmd tail env s = .ok (ok, s')) :
    bridge s' = run displaces (bridge s) (commandActs s cmd tail) := by
  unfold commandActs
  by_cases hreg : cmd.cmdType = cmdTypeRegister
  · have hne : cmd.cmdType ≠ cmdTypeUnregister := by
      rw [hreg]
      decide
    rw [if_neg hne]
    exact bridge_register hs.consistent hreg h
  · unfold beLaCmdProcess at h
    rw [if_neg hreg] at h
    by_cases hunreg : cmd.cmdType = cmdTypeUnregister
    · rw [if_pos hunreg] at h
      rw [if_pos hunreg]
      split at h
      · cases h
      · rename_i table freed hresult
        cases h
        obtain ⟨-, hfound, heffect⟩ := unreg_spec hresult
        change freed = beLaGetAccCardptr s.table (cmd.card.pathBefore
          (LittleEndian.wordBytes 4 cmd.cmdType ++ tail)) at hfound
        rw [← hfound]
        cases freed with
        | none =>
          obtain rfl : table = s.table := heffect
          exact view_congr (fun _ => Iff.rfl) fun r _ =>
            heldBy_of_attached (fun _ _ => Iff.rfl) r
        | some card =>
          refine @view_abandon displaces _ _ _ _ _ (fun _ => Iff.rfl) (fun r _ => ?_)
            (heldBy_unique hs.ledger (hs.count.trans_lt hn))
          refine heldBy_left ?_ r
          exact attached_leave hs.consistent.nodup heffect
    · rw [if_neg hunreg] at h
      rw [if_neg hunreg]
      cases h
      rfl

/-- What a call on a channel does, by what it receives. -/
theorem read_outcome {e : ReadEvent} {card : BeCardInner} {d : Delivery}
    (hat : s.cardAt e.arg = some card) (h : (doVmRequestRead s e.arg d).result = .ok s') :
    (receivedMessage d = none ∧ closeChannel d.world card s = .ok s') ∨
      ∃ msg handled, receivedMessage d = some msg ∧
        beAccMessageProcess d.world card msg.hdr.msgType msg.body 0 s.shared = .ok handled ∧
        s' = handledBy s handled := by
  unfold doVmRequestRead at h
  simp only [hat] at h
  unfold receivedMessage
  split at h
  · cases h
  · rename_i rest hrecv
    rw [hrecv]
    exact .inl ⟨rfl, h⟩
  · rename_i msg rest hrecv
    rw [hrecv]
    split at h
    · cases h
    · rename_i handled hprocess
      split at h
      · cases h
      · dsimp only at h
        split at h
        · cases h
        · cases h
          exact .inr ⟨msg, handled, rfl, hprocess, rfl⟩

def OnSwitch (displaces : Entry → Entry → Prop) : DaemonEvent → Prop
  | .command _ _ _ => True
  | .readable _ d => ReplacesBy displaces d.world.ofctl

/-- A round of the event loop does its acts. -/
theorem bridge_step (hn : n < 2 ^ 32) (hrules : Unstale n rules) (hs : Sane n rules s)
    {ev : DaemonEvent} (hswitch : OnSwitch displaces ev) (h : daemonStep s ev = .ok s')
    (hcount : s'.shared.history.hellos.length ≤ n) :
    bridge s' = run displaces (bridge s) (actsOf s ev) := by
  cases ev with
  | command cmd tail env =>
    simp only [daemonStep] at h
    split at h
    · cases h
    · rename_i hcmd
      cases h
      exact bridge_command hn hs hcmd
  | readable event d =>
    simp only [daemonStep] at h
    cases hfind : s.events.find? (fun e => e.id = event) with
    | none =>
      simp only [hfind] at h
      cases h
      simp only [actsOf, hfind]
      rfl
    | some e =>
      simp only [hfind] at h
      have he := List.mem_of_find?_eq_some hfind
      cases hat : s.cardAt e.arg with
      | none =>
        unfold doVmRequestRead at h
        simp [hat] at h
      | some card =>
        obtain ⟨hcard, haddr⟩ := cardAt_some hat
        simp only [actsOf, hfind, hat, readActs]
        rcases read_outcome hat h with ⟨hnone, hclose⟩ | ⟨msg, handled, hsome, hprocess, rfl⟩
        · obtain ⟨context, hcontext, -, hperm, -, -, hshared⟩ :=
            close_spec hs.consistent he hcard haddr hclose
          simp only [hnone, endActs, hcontext]
          unfold bridge
          rw [hshared]
          exact view_endAct (hs.consistent.sound card hcard context hcontext).bridge
            (hs.holds hn ⟨card, hcard, rfl, hcontext⟩)
            fun r k => heldBy_left (attached_closed hs.consistent hperm) r k
        · simp only [hsome]
          exact bridge_message hn hrules hs hcard hswitch hprocess hcount

theorem hellos_le_of_step {ev : DaemonEvent} (hs : Consistent s) (h : daemonStep s ev = .ok s') :
    s.shared.history.hellos.length ≤ s'.shared.history.hellos.length := by
  cases sessionChange_of_step hs h with
  | quiet m _ hshared => rw [hshared]
  | ran addr context _ _ hprint => exact (congrArg List.length hprint.counters.hellos).ge
  | hello card card' context => simp [noteHello]

theorem hellos_le_of_run {evs : List DaemonEvent} (hs : Consistent s)
    (h : exec daemonStep s evs = .ok s') :
    s.shared.history.hellos.length ≤ s'.shared.history.hellos.length := by
  induction evs generalizing s with
  | nil =>
    cases h
    exact le_refl _
  | cons ev evs ih =>
    simp only [exec] at h
    split at h
    · rename_i t ht
      exact (hellos_le_of_step hs ht).trans (ih (consistent_step hs ht) h)
    · cases h

/-- A run of the event loop does the acts of its rounds, one after the other. -/
theorem bridge_run (hn : n < 2 ^ 32) (hrules : Unstale n rules) {evs : List DaemonEvent}
    (hs : Consistent s) (hl : Ledger rules s) (hswitch : ∀ ev ∈ evs, OnSwitch displaces ev)
    (h : exec daemonStep s evs = .ok s') (hcount : s'.shared.history.hellos.length ≤ n) :
    bridge s' = run displaces (bridge s) (actsAlong s evs) := by
  induction evs generalizing s with
  | nil =>
    cases h
    rfl
  | cons ev evs ih =>
    rw [List.forall_mem_cons] at hswitch
    simp only [exec] at h
    cases hstep : daemonStep s ev with
    | error stop => simp [hstep] at h
    | ok t =>
      simp only [hstep] at h
      have ht := consistent_step hs hstep
      have hmid : t.shared.history.hellos.length ≤ n := (hellos_le_of_run ht h).trans hcount
      have hbefore := (hellos_le_of_step hs hstep).trans hmid
      simp only [actsAlong, hstep, run_append]
      rw [← bridge_step hn hrules ⟨hs, hl, hbefore⟩ hswitch.1 hstep hmid]
      exact ih ht (ledger_step hs hl hstep) hswitch.2 h

end

end BeLa.SharedBridge
