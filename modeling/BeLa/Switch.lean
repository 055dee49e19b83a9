import BeLa.CommandLine

/-!
The switch that the command lines talk to. The daemon relies on two facts about
`ovs-ofctl` on its bridge: an add-flow line installs the rule its argument
denotes, in place of the rules it replaces, and a del-flows line with a full
cookie mask deletes exactly the rules of that cookie. A switch that reads the
lines word by word has both.
-/
namespace BeLa.Switch

open Numerals Words KeyedWords BeLa.Flow OfctlRule CommandLine

/-- The bridge every HELLO sets. -/
def br0 : Text := "br0".toList

/-- A rule of the bridge: match and actions are the words of their texts. -/
structure SwitchRule where
  cookie : ℕ
  priority : ℕ
  table : ℕ
  «match» : List Text
  actions : List Text
  deriving DecidableEq, Repr

def installed (rule : AccOfctlRule) : SwitchRule where
  cookie := rule.cookie.toNat
  priority := rule.priority
  table := rule.table
  «match» := words rule.match
  actions := words rule.action

/-- What the daemon relies on in `ovs-ofctl`, for command lines on bridge br0. -/
structure Ofctl where
  /-- The rules of the bridge after a command line that succeeded. -/
  apply : Text → List SwitchRule → List SwitchRule
  /-- Whether installing the first rule removes the second. -/
  replaces : SwitchRule → SwitchRule → Bool
  mem_addFlow : ∀ hostid flow, Supported flow → ∀ rules r,
    r ∈ apply (editText false br0 (ruleOf hostid flow)) rules ↔
      r = installed (ruleOf hostid flow) ∨
        r ∈ rules ∧ ¬ replaces (installed (ruleOf hostid flow)) r
  mem_delFlows : ∀ hostid rules r,
    r ∈ apply (flushText br0 hostid) rules ↔ r ∈ rules ∧ r.cookie ≠ hostid.toNat

def readField (b : ℕ) (key w : Text) : Option ℕ := (after key w).bind (readNumeral b)

def readRule (argument : Text) : Option SwitchRule :=
  match words argument with
  | cookie :: priority :: table :: ws =>
    match readField 16 "cookie=0X".toList cookie, readField 10 "priority=".toList priority,
        readField 10 "table=".toList table with
    | some cookie, some priority, some table =>
      some ⟨cookie, priority, table, ws.takeWhile (· ≠ "actions=".toList),
        ws.dropWhile (· ≠ "actions=".toList)⟩
    | _, _, _ => none
  | _ => none

/-- Open vSwitch replaces a rule of the same table, priority and match. -/
def sameKey (rule r : SwitchRule) : Bool :=
  rule.table = r.table ∧ rule.priority = r.priority ∧ rule.match = r.match

/-- Open vSwitch on the two kinds of line; other lines leave the rules as they are. -/
def runLine (line : Text) (rules : List SwitchRule) : List SwitchRule :=
  match after "ovs-ofctl add-flow br0 '".toList line with
  | some rest =>
    match (before "'".toList rest).bind readRule with
    | some rule => rule :: rules.filter (fun r => !sameKey rule r)
    | none => rules
  | none =>
    match after "ovs-ofctl del-flows br0 cookie=0X".toList line with
    | some rest =>
      match (before ("/".toList ++ "-1".toList) rest).bind (readNumeral 16) with
      | some cookie => rules.filter (fun r => r.cookie ≠ cookie)
      | none => rules
    | none => rules

theorem readField_append {b n : ℕ} (hb : 1 < b) (hb' : b ≤ 16) (key : Text) :
    readField b key (key ++ numeral b n) = some n := by
  simp only [readField, after_append, Option.bind_some, readNumeral_numeral hb hb']

/-- The words of an edit line's argument: cookie, priority, table, match, actions. -/
theorem words_editArgument_rule (rule : AccOfctlRule) :
    words (editArgument rule) =
      ("cookie=0X".toList ++ numeral 16 rule.cookie.toNat) ::
        ("priority=".toList ++ numeral 10 rule.priority) ::
        ("table=".toList ++ numeral 10 rule.table) ::
        (words rule.match ++ words rule.action) := by
  have hspaces : editArgument rule =
      ("cookie=0X".toList ++ numeral 16 rule.cookie.toNat) ++ ' ' ::
        (("priority=".toList ++ numeral 10 rule.priority) ++ ' ' ::
          (("table=".toList ++ numeral 10 rule.table) ++ ' ' ::
            (rule.match ++ ' ' :: rule.action))) := by
    have hpriority : " priority=".toList = ' ' :: "priority=".toList := rfl
    have htable : " table=".toList = ' ' :: "table=".toList := rfl
    have hspace : " ".toList = [' '] := rfl
    unfold editArgument
    rw [hpriority, htable, hspace]
    simp only [List.append_assoc, List.cons_append, List.nil_append]
  have hword : ∀ (key : Text) {b n : ℕ}, Solid key → key ≠ [] → 1 < b → b ≤ 16 →
      words (key ++ numeral b n) = [key ++ numeral b n] := by
    intro key b n hsolid hne hb hb'
    rw [words_solid (hsolid.append (solid_numeral hb hb')), if_neg (by simp [hne])]
  rw [hspaces, words_append_space, words_append_space, words_append_space, words_append_space,
    hword _ (by decide) (by decide) (by omega) (by omega),
    hword _ (by decide) (by decide) (by omega) (by omega),
    hword _ (by decide) (by decide) (by omega) (by omega)]
  rfl

theorem words_action (flow : AccFlow) :
    ∃ ws, words (actionText flow) = "actions=".toList :: ws :=
  ⟨_, (words_pieces (actionPieces_spaced flow)).2⟩

/-- No word of a match is the word that begins the actions. -/
theorem actions_not_mem_words_match (hostid : BitVec 32) (flow : AccFlow) :
    ∀ w ∈ words (ruleOf hostid flow).match, w ≠ "actions=".toList := by
  have hnone : ∀ {fields : List Keyed}, fields.all (·.excludes "actions=".toList) →
      ∀ w ∈ keyedWords fields, w ≠ "actions=".toList := by
    intro fields hfields w hw hactions
    have hafter := List.findSome?_eq_none_iff.mp (valueOf_eq_none hfields) w hw
    rw [hactions] at hafter
    exact absurd hafter (by decide)
  rw [words_match]
  split
  · exact hnone rfl
  · exact hnone rfl

theorem takeWhile_dropWhile_ne {front back : List Text} {mark : Text}
    (h : ∀ w ∈ front, w ≠ mark) :
    (front ++ mark :: back).takeWhile (· ≠ mark) = front ∧
      (front ++ mark :: back).dropWhile (· ≠ mark) = mark :: back := by
  have hfront : ∀ w ∈ front, decide (w ≠ mark) = true := fun w hw => decide_eq_true (h w hw)
  rw [List.takeWhile_append_of_pos hfront, List.dropWhile_append_of_pos hfront]
  simp

/-- The argument of an add-flow line denotes the rule it was printed from. -/
theorem readRule_of_words {rule : AccOfctlRule} {ws : List Text}
    (hmatch : ∀ w ∈ words rule.match, w ≠ "actions=".toList)
    (haction : words rule.action = "actions=".toList :: ws) :
    readRule (editArgument rule) = some (installed rule) := by
  obtain ⟨htake, hdrop⟩ := @takeWhile_dropWhile_ne _ ws _ hmatch
  have hcookie : readField 16 "cookie=0X".toList
      ("cookie=0X".toList ++ numeral 16 rule.cookie.toNat) = some rule.cookie.toNat :=
    readField_append (by omega) (by omega) _
  have hpriority : readField 10 "priority=".toList
      ("priority=".toList ++ numeral 10 rule.priority) = some rule.priority :=
    readField_append (by omega) (by omega) _
  have htable : readField 10 "table=".toList ("table=".toList ++ numeral 10 rule.table) =
      some rule.table :=
    readField_append (by omega) (by omega) _
  unfold readRule
  rw [words_editArgument_rule, haction]
  simp only [hcookie, hpriority, htable, htake, hdrop]
  rw [installed, haction]

theorem readRule_editArgument (hostid : BitVec 32) (flow : AccFlow) :
    readRule (editArgument (ruleOf hostid flow)) = some (installed (ruleOf hostid flow)) := by
  obtain ⟨ws, haction⟩ := words_action flow
  exact readRule_of_words (actions_not_mem_words_match hostid flow) haction

theorem runLine_editText (hostid : BitVec 32) (flow : AccFlow) (rules : List SwitchRule) :
    runLine (editText false br0 (ruleOf hostid flow)) rules =
      installed (ruleOf hostid flow) ::
        rules.filter (fun r => !sameKey (installed (ruleOf hostid flow)) r) := by
  have htext : editText false br0 (ruleOf hostid flow) =
      "ovs-ofctl add-flow br0 '".toList ++
        (editArgument (ruleOf hostid flow) ++ "'".toList) := by
    unfold editText
    rw [← List.append_assoc]
    rfl
  simp only [runLine, htext, after_append, before_append, Option.bind_some,
    readRule_editArgument]

theorem runLine_flushText (hostid : BitVec 32) (rules : List SwitchRule) :
    runLine (flushText br0 hostid) rules =
      rules.filter (fun r => r.cookie ≠ hostid.toNat) := by
  have htext : flushText br0 hostid = "ovs-ofctl del-flows br0 cookie=0X".toList ++
      (numeral 16 hostid.toNat ++ ("/".toList ++ "-1".toList)) := by
    unfold flushText
    rw [← List.append_assoc, ← List.append_assoc]
    rfl
  have hadd : after "ovs-ofctl add-flow br0 '".toList (flushText br0 hostid) = none := by
    rw [htext]
    exact after_of_differ (by decide) _
  have hread : readNumeral 16 (numeral 16 hostid.toNat) = some hostid.toNat :=
    readNumeral_numeral (by omega) (by omega)
  rw [htext] at hadd
  simp only [runLine, htext, hadd, after_append, before_append, Option.bind_some, hread]

def openVSwitch : Ofctl where
  apply := runLine
  replaces := sameKey
  mem_addFlow hostid flow _ rules r := by
    rw [runLine_editText]
    simp
  mem_delFlows hostid rules r := by
    rw [runLine_flushText]
    simp

end BeLa.Switch
