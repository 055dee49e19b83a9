import BeLa.CommandLine

/-!
The text of an add-flow command line determines the rule: cookie, protocol, the
set match fields and the flagged updates are read back from the words between
the quotes, and each printed value determines the number that was printed.
-/
namespace BeLa.CommandText

open LittleEndian Numerals Words KeyedWords BeLa.Flow OfctlRule FieldText CommandLine

/-- An optional field is present in both flows or in neither, and where present it has one value. -/
def SameField {α : Type} (isSet isSet' : Bool) (value value' : α) : Prop :=
  isSet = isSet' ∧ (isSet → value = value')

structure SameMatch (flow flow' : AccFlow) : Prop where
  protocol : flow.match.protocol = flow'.match.protocol
  srcmac : SameField (accMatchIsBeSet flow.mask.srcmac.bytes)
    (accMatchIsBeSet flow'.mask.srcmac.bytes) flow.match.srcmac flow'.match.srcmac
  dstmac : SameField (accMatchIsBeSet flow.mask.dstmac.bytes)
    (accMatchIsBeSet flow'.mask.dstmac.bytes) flow.match.dstmac flow'.match.dstmac
  srcIp : SameField (accMatchIsBeSet (wordBytes 4 flow.mask.srcIp))
    (accMatchIsBeSet (wordBytes 4 flow'.mask.srcIp)) flow.match.srcIp flow'.match.srcIp
  dstIp : SameField (accMatchIsBeSet (wordBytes 4 flow.mask.dstIp))
    (accMatchIsBeSet (wordBytes 4 flow'.mask.dstIp)) flow.match.dstIp flow'.match.dstIp
  srcPort : SameField (accMatchIsBeSet (wordBytes 2 flow.mask.srcPort))
    (accMatchIsBeSet (wordBytes 2 flow'.mask.srcPort)) flow.match.srcPort flow'.match.srcPort
  dstPort : SameField (accMatchIsBeSet (wordBytes 2 flow.mask.dstPort))
    (accMatchIsBeSet (wordBytes 2 flow'.mask.dstPort)) flow.match.dstPort flow'.match.dstPort

structure SameUpdates (action action' : AccAction) : Prop where
  srcmac : SameField (accActionIsFieldMaskSet action actionFieldSrcmac)
    (accActionIsFieldMaskSet action' actionFieldSrcmac) action.srcmac action'.srcmac
  dstmac : SameField (accActionIsFieldMaskSet action actionFieldDstmac)
    (accActionIsFieldMaskSet action' actionFieldDstmac) action.dstmac action'.dstmac
  srcIp : SameField (accActionIsFieldMaskSet action actionFieldSrcIp)
    (accActionIsFieldMaskSet action' actionFieldSrcIp) action.srcIp action'.srcIp
  dstIp : SameField (accActionIsFieldMaskSet action actionFieldDstIp)
    (accActionIsFieldMaskSet action' actionFieldDstIp) action.dstIp action'.dstIp
  srcPort : SameField (accActionIsFieldMaskSet action actionFieldSrcPort)
    (accActionIsFieldMaskSet action' actionFieldSrcPort) action.srcPort action'.srcPort
  dstPort : SameField (accActionIsFieldMaskSet action actionFieldDstPort)
    (accActionIsFieldMaskSet action' actionFieldDstPort) action.dstPort action'.dstPort

/-- Field `i` of two flows with the same words, printed by an injective printer. -/
theorem sameField_of_words {α : Type} {print : α → Text} (hprint : Function.Injective print)
    {fields fields' : List Keyed} (hwords : keyedWords fields = keyedWords fields') (i : ℕ)
    {isSet isSet' : Bool} {key : Text} {value value' : α}
    (hi : fields[i]? = some ⟨isSet, key, print value⟩)
    (hi' : fields'[i]? = some ⟨isSet', key, print value'⟩)
    (h : (fields.eraseIdx i).all (·.excludes key))
    (h' : (fields'.eraseIdx i).all (·.excludes key)) :
    SameField isSet isSet' value value' := by
  obtain ⟨hlt, hget⟩ := List.getElem?_eq_some_iff.mp hi
  obtain ⟨hlt', hget'⟩ := List.getElem?_eq_some_iff.mp hi'
  have hagree := agree_of_keyedWords_eq hwords hlt hlt' (by rw [hget, hget'])
    (by rwa [hget]) (by rwa [hget'])
  rw [hget, hget'] at hagree
  exact ⟨hagree.1, fun hset => hprint (hagree.2 hset)⟩

/-- The protocol word of one flow is a word of no flow of the other protocol. -/
theorem tcp_words_ne_udp_words (hostid hostid' : BitVec 32) (flow flow' : AccFlow) :
    keyedWords (argumentFields hostid flow "tcp".toList "tcp_src=".toList "tcp_dst=".toList) ≠
      keyedWords
        (argumentFields hostid' flow' "udp".toList "udp_src=".toList "udp_dst=".toList) := by
  intro h
  have hudp : valueOf "tcp".toList (keyedWords
      (argumentFields hostid' flow' "udp".toList "udp_src=".toList "udp_dst=".toList)) = none :=
    valueOf_eq_none (by rfl)
  rw [← h, valueOf, List.findSome?_eq_none_iff] at hudp
  have hmem : "tcp".toList ∈ keyedWords
      (argumentFields hostid flow "tcp".toList "tcp_src=".toList "tcp_dst=".toList) := by
    refine List.mem_map.mpr ⟨⟨true, "tcp".toList, []⟩, List.mem_filter.mpr ⟨?_, rfl⟩, rfl⟩
    simp [argumentFields]
  have hnone := hudp _ hmem
  revert hnone
  decide

/-- Flows of one protocol whose rules have the same words agree on every set field. -/
theorem sameRule_of_words {hostid hostid' : BitVec 32} {flow flow' : AccFlow}
    {word srcKey dstKey : Text}
    (hkeys : (word, srcKey, dstKey) = ("tcp".toList, "tcp_src=".toList, "tcp_dst=".toList) ∨
      (word, srcKey, dstKey) = ("udp".toList, "udp_src=".toList, "udp_dst=".toList))
    (hprotocol : flow.match.protocol = flow'.match.protocol)
    (h : keyedWords (argumentFields hostid flow word srcKey dstKey) =
      keyedWords (argumentFields hostid' flow' word srcKey dstKey)) :
    hostid = hostid' ∧ SameMatch flow flow' ∧ SameUpdates flow.action flow'.action := by
  have hcookie : Function.Injective fun x : BitVec 32 => numeral 16 x.toNat := fun x y hxy =>
    BitVec.eq_of_toNat_eq (numeral_injective (by omega) (by omega) hxy)
  have hmac := printMac_injective
  have hip := printIp_injective
  have hport := printPort_injective
  simp only [Prod.mk.injEq] at hkeys
  rcases hkeys with ⟨rfl, rfl, rfl⟩ | ⟨rfl, rfl, rfl⟩
  all_goals
    refine ⟨(sameField_of_words hcookie h 0 rfl rfl rfl rfl).2 rfl, ?_, ?_⟩
    · exact ⟨hprotocol, sameField_of_words hmac h 3 rfl rfl rfl rfl,
        sameField_of_words hmac h 4 rfl rfl rfl rfl, sameField_of_words hip h 6 rfl rfl rfl rfl,
        sameField_of_words hip h 7 rfl rfl rfl rfl, sameField_of_words hport h 9 rfl rfl rfl rfl,
        sameField_of_words hport h 10 rfl rfl rfl rfl⟩
    · exact ⟨sameField_of_words hmac h 12 rfl rfl rfl rfl,
        sameField_of_words hmac h 13 rfl rfl rfl rfl, sameField_of_words hip h 14 rfl rfl rfl rfl,
        sameField_of_words hip h 15 rfl rfl rfl rfl, sameField_of_words hport h 16 rfl rfl rfl rfl,
        sameField_of_words hport h 17 rfl rfl rfl rfl⟩

theorem editArgument_of_line {bridge line : Text} {rule rule' : AccOfctlRule}
    (h : commandLine (editText false bridge rule) = some line)
    (h' : commandLine (editText false bridge rule') = some line) :
    editArgument rule = editArgument rule' := by
  have heq := (commandLine_eq_some_iff.mp h).2.trans (commandLine_eq_some_iff.mp h').2.symm
  unfold editText at heq
  exact List.append_cancel_left (List.append_cancel_right heq)

/-- Equal add-flow command lines come from equal host ids and flows that set the
same match fields and flag the same updates, with the same values. -/
theorem command_determines_rule {bridge line : Text} {hostid hostid' : BitVec 32}
    {flow flow' : AccFlow} {rule rule' : AccOfctlRule}
    (hbuild : accOvsBuildOfctlRule hostid flow = some rule)
    (hbuild' : accOvsBuildOfctlRule hostid' flow' = some rule')
    (hline : commandLine (editText false bridge rule) = some line)
    (hline' : commandLine (editText false bridge rule') = some line) :
    hostid = hostid' ∧ SameMatch flow flow' ∧ SameUpdates flow.action flow'.action := by
  obtain ⟨hsupported, rfl⟩ := build_eq_some_iff.mp hbuild
  obtain ⟨hsupported', rfl⟩ := build_eq_some_iff.mp hbuild'
  have hwords := congrArg words (editArgument_of_line hline hline')
  rcases hsupported with htcp | hudp <;> rcases hsupported' with htcp' | hudp'
  · rw [words_editArgument_tcp hostid htcp, words_editArgument_tcp hostid' htcp'] at hwords
    exact sameRule_of_words (.inl rfl) (htcp.trans htcp'.symm) hwords
  · rw [words_editArgument_tcp hostid htcp, words_editArgument_udp hostid' hudp'] at hwords
    exact absurd hwords (tcp_words_ne_udp_words hostid hostid' flow flow')
  · rw [words_editArgument_udp hostid hudp, words_editArgument_tcp hostid' htcp'] at hwords
    exact absurd hwords.symm (tcp_words_ne_udp_words hostid' hostid flow' flow)
  · rw [words_editArgument_udp hostid hudp, words_editArgument_udp hostid' hudp'] at hwords
    exact sameRule_of_words (.inr rfl) (hudp.trans hudp'.symm) hwords

/-- A TCP flow that sets its source address and port, and flags the update of both. -/
def snatFlow : AccFlow where
  «match» := { (AccFlow.plain 6).match with srcIp := 0x0100000A, srcPort := 0x5000 }
  mask := { (AccFlow.plain 6).mask with srcIp := 0xFFFFFFFF, srcPort := 0xFFFF }
  action := { (AccFlow.plain 6).action with
    fieldMask := actionFieldSrcIp ||| actionFieldSrcPort
    srcIp := 0x07070707
    srcPort := 0x0010 }

/-- The same in what the builder prints: the masks have other values where they are set, and
the match and the action where they are not. -/
def snatTwin : AccFlow where
  «match» := { snatFlow.match with dstIp := 0x08080808, pad0 := 1 }
  mask := { snatFlow.mask with srcIp := 0xFF, protocol := 255 }
  action := { snatFlow.action with dstPort := 0x0020, protocol := 17 }

/-- The command lines of the two are equal, so that they set and update the same. -/
theorem command_determines_rule_snat : snatFlow ≠ snatTwin ∧ SameMatch snatFlow snatTwin ∧
    SameUpdates snatFlow.action snatTwin.action := by
  have hbridge : "br0".toList.length < 256 := by decide
  have hsame : ruleOf 0xDEAD0000 snatTwin = ruleOf 0xDEAD0000 snatFlow := by rfl
  have hbuild := build_eq_some_iff.mpr ⟨show Supported snatTwin by decide, hsame⟩
  have hline := commandLine_editText false hbridge 0xDEAD0000 snatFlow
  exact ⟨by decide,
    (command_determines_rule (build_of_supported (by decide)) hbuild hline hline).2⟩

end BeLa.CommandText
