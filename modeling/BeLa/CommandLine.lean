import BeLa.FieldText
import BeLa.KeyedWords

/-!
The `ovs-ofctl` command lines of `acc_ovs_edit_rules` and `acc_ovs_flush_rules`,
and the words of an edit line's last argument as optional keyed words: cookie,
priority, table, then the fields of the match and of the actions.
-/
namespace BeLa.CommandLine

open LittleEndian Numerals Words KeyedWords BeLa.Flow OfctlRule FieldText

def lineSize : ℕ := 4096

def editArgument (rule : AccOfctlRule) : Text :=
  "cookie=0X".toList ++ numeral 16 rule.cookie.toNat ++ " priority=".toList ++
    numeral 10 rule.priority ++ " table=".toList ++ numeral 10 rule.table ++ " ".toList ++
    rule.match ++ " ".toList ++ rule.action

/-- `"ovs-ofctl %s %s 'cookie=0X%X priority=%d table=%d %s %s'"`. -/
def editText (isDelete : Bool) (bridge : Text) (rule : AccOfctlRule) : Text :=
  "ovs-ofctl ".toList ++ (if isDelete then "del-flow".toList else "add-flow".toList) ++
    " ".toList ++ bridge ++ " '".toList ++ editArgument rule ++ "'".toList

/-- `"ovs-ofctl del-flows %s cookie=0X%X"`, with the cookie mask -1 behind a slash. -/
def flushText (bridge : Text) (hostid : BitVec 32) : Text :=
  "ovs-ofctl del-flows ".toList ++ bridge ++ " cookie=0X".toList ++
    numeral 16 hostid.toNat ++ "/".toList ++ "-1".toList

/-- A command line printed into its buffer; `none` when it would be truncated. -/
def commandLine (text : Text) : Option Text :=
  let (line, ret) := snprintf lineSize text
  if lineSize ≤ ret then none else some line

theorem commandLine_eq_some_iff {text line : Text} :
    commandLine text = some line ↔ text.length < lineSize ∧ text = line := by
  unfold commandLine snprintf
  by_cases h : text.length < lineSize
  · rw [List.take_of_length_le (by omega)]
    simp [h]
  · simp only [if_pos (show lineSize ≤ text.length by omega)]
    simp [h]

theorem length_ruleText_le (hostid : BitVec 32) (flow : AccFlow) :
    (ruleOf hostid flow).match.length ≤ 138 ∧ (ruleOf hostid flow).action.length ≤ 175 := by
  have hhead := length_matchHead_le flow
  have hport : (portText flow).length ≤ 34 := by
    unfold portText
    split
    · exact length_portText_le flow (by rfl) (by rfl) (by rfl)
    · exact length_portText_le flow (by rfl) (by rfl) (by rfl)
  refine ⟨?_, length_actionText_le flow⟩
  simp only [ruleOf, List.length_append]
  omega

theorem length_cookie_le (hostid : BitVec 32) : (numeral 16 hostid.toNat).length ≤ 8 :=
  length_numeral_le (by omega) (by omega) (by omega)

/-- No line for a bridge name of fewer than 256 characters is ever truncated. -/
theorem commandLine_editText (isDelete : Bool) {bridge : Text} (hbridge : bridge.length < 256)
    (hostid : BitVec 32) (flow : AccFlow) :
    commandLine (editText isDelete bridge (ruleOf hostid flow)) =
      some (editText isDelete bridge (ruleOf hostid flow)) := by
  rw [commandLine_eq_some_iff]
  refine ⟨?_, rfl⟩
  have hcookie := length_cookie_le hostid
  have hrule := length_ruleText_le hostid flow
  have hsize : lineSize = 4096 := rfl
  have hpriority : (numeral 10 (ruleOf hostid flow).priority).length ≤ 2 :=
    length_numeral_le (by omega) (by omega) (show 68 < 10 ^ 2 by omega)
  have htable : (numeral 10 (ruleOf hostid flow).table).length ≤ 1 :=
    length_numeral_le (by omega) (by omega) (show 0 < 10 ^ 1 by omega)
  have hcookie' : (ruleOf hostid flow).cookie = hostid := rfl
  cases isDelete <;>
    · unfold editText editArgument
      rw [hcookie']
      simp
      omega

theorem commandLine_flushText {bridge : Text} (hbridge : bridge.length < 256)
    (hostid : BitVec 32) :
    commandLine (flushText bridge hostid) = some (flushText bridge hostid) := by
  rw [commandLine_eq_some_iff]
  refine ⟨?_, rfl⟩
  have hcookie := length_cookie_le hostid
  have hsize : lineSize = 4096 := rfl
  unfold flushText
  simp
  omega

/-- The keyed words of a piece: a literal contributes its own words. -/
def pieceFields : Piece → List Keyed
  | .lit text => (words text).map (fun w => ⟨true, w, []⟩)
  | .field arg => [⟨arg.isSet, arg.key.tail, arg.value⟩]

def KeySpaced (key : Text) : Prop := key = ' ' :: key.tail ∧ key.tail ≠ [] ∧ Solid key.tail

instance (key : Text) : Decidable (KeySpaced key) := by
  unfold KeySpaced
  infer_instance

/-- A literal ends the word before it; a field does so with the space its key begins with. -/
def PieceSpaced : Piece → Prop
  | .lit text => Spaced text
  | .field arg => KeySpaced arg.key ∧ Solid arg.value

theorem field_spaced {isSet : Bool} {key : Text} {buffer : StaticBuffer} {value : Text}
    (hkey : KeySpaced key) (hvalue : Solid value) :
    PieceSpaced (.field ⟨isSet, key, buffer, value⟩) :=
  ⟨hkey, hvalue⟩

theorem literal_spaced {text : Text} (h : text.head? = some ' ') : PieceSpaced (.lit text) := by
  intro c hc
  simpa [h, eq_comm] using hc

theorem matchPieces_spaced (flow : AccFlow) : ∀ piece ∈ matchPieces flow, PieceSpaced piece := by
  simp only [matchPieces, matchArg, List.forall_mem_cons]
  exact ⟨field_spaced (by decide) (solid_printMac _), literal_spaced rfl,
    field_spaced (by decide) (solid_printMac _), literal_spaced rfl,
    field_spaced (by decide) (solid_printIp _), literal_spaced rfl,
    field_spaced (by decide) (solid_printIp _), by simp⟩

theorem portPieces_spaced (flow : AccFlow) {word srcKey dstKey : Text}
    (hword : word.head? = some ' ') (hsrc : KeySpaced srcKey) (hdst : KeySpaced dstKey) :
    ∀ piece ∈ portPieces flow word srcKey dstKey, PieceSpaced piece := by
  simp only [portPieces, matchArg, List.forall_mem_cons]
  exact ⟨literal_spaced hword, field_spaced hsrc (solid_printPort _), literal_spaced rfl,
    field_spaced hdst (solid_printPort _), by simp⟩

theorem actionPieces_spaced (flow : AccFlow) :
    ∀ piece ∈ actionPieces flow, PieceSpaced piece := by
  simp only [actionPieces, actionArg, List.forall_mem_cons]
  exact ⟨literal_spaced rfl, field_spaced (by decide) (solid_printMac _),
    literal_spaced rfl, field_spaced (by decide) (solid_printMac _),
    literal_spaced rfl, field_spaced (by decide) (solid_printIp _),
    literal_spaced rfl, field_spaced (by decide) (solid_printIp _),
    literal_spaced rfl, field_spaced (by decide) (solid_printPort _),
    literal_spaced rfl, field_spaced (by decide) (solid_printPort _),
    literal_spaced rfl, by simp⟩

theorem spaced_pieceText {piece : Piece} (h : PieceSpaced piece) : Spaced piece.text := by
  cases piece with
  | lit text => exact h
  | field arg =>
    obtain ⟨⟨hkey, _⟩, _⟩ := h
    by_cases hset : arg.isSet
    · simp only [Piece.text, FieldArg.text, if_pos hset]
      rw [hkey]
      exact spaced_cons _
    · simp [Piece.text, FieldArg.text, hset, Spaced]

theorem words_pieceText {piece : Piece} (h : PieceSpaced piece) :
    words piece.text = keyedWords (pieceFields piece) := by
  cases piece with
  | lit text =>
    simp [Piece.text, pieceFields, keyedWords, List.filter_map, Function.comp_def]
  | field arg =>
    obtain ⟨⟨hkey, hne, hsolid⟩, hvalue⟩ := h
    by_cases hset : arg.isSet
    · have hword : arg.key.tail ++ arg.value ≠ [] := by simp [hne]
      have htext : (Piece.field arg).text = ' ' :: (arg.key.tail ++ arg.value) := by
        simp only [Piece.text, FieldArg.text, if_pos hset]
        rw [← List.cons_append, ← hkey]
      rw [htext, words_space, words_solid (hsolid.append hvalue), if_neg hword]
      simp [pieceFields, keyedWords, hset]
    · simp [Piece.text, FieldArg.text, pieceFields, keyedWords, hset, words_nil]

/-- The words of pieces put together are the keyed words of all their fields. -/
theorem words_pieces {pieces : List Piece} (h : ∀ piece ∈ pieces, PieceSpaced piece) :
    Spaced ((pieces.map Piece.text).flatten) ∧
      words ((pieces.map Piece.text).flatten) = keyedWords (pieces.flatMap pieceFields) := by
  induction pieces with
  | nil => exact ⟨by simp [Spaced], rfl⟩
  | cons piece pieces ih =>
    obtain ⟨hspaced, hwords⟩ := ih (fun p hp => h p (List.mem_cons_of_mem _ hp))
    have hpiece := h piece List.mem_cons_self
    have hhead := spaced_pieceText hpiece
    rw [List.map_cons, List.flatten_cons, List.flatMap_cons, keyedWords_append,
      words_append_spaced _ hspaced, words_pieceText hpiece, hwords]
    refine ⟨?_, rfl⟩
    intro c hc
    rw [List.head?_append] at hc
    rcases Option.or_eq_some_iff.mp hc with hc | ⟨_, hc⟩
    · exact hhead c hc
    · exact hspaced c hc

def matchFields (flow : AccFlow) (word srcKey dstKey : Text) : List Keyed :=
  [⟨accMatchIsBeSet flow.mask.srcmac.bytes, "eth_src=".toList, printMac flow.match.srcmac⟩,
    ⟨accMatchIsBeSet flow.mask.dstmac.bytes, "eth_dst=".toList, printMac flow.match.dstmac⟩,
    ⟨true, "ip".toList, []⟩,
    ⟨accMatchIsBeSet (wordBytes 4 flow.mask.srcIp), "nw_src=".toList, printIp flow.match.srcIp⟩,
    ⟨accMatchIsBeSet (wordBytes 4 flow.mask.dstIp), "nw_dst=".toList, printIp flow.match.dstIp⟩,
    ⟨true, word, []⟩,
    ⟨accMatchIsBeSet (wordBytes 2 flow.mask.srcPort), srcKey, printPort flow.match.srcPort⟩,
    ⟨accMatchIsBeSet (wordBytes 2 flow.mask.dstPort), dstKey, printPort flow.match.dstPort⟩]

theorem words_matchText (flow : AccFlow) {word srcKey dstKey : Text}
    (hword : word.head? = some ' ') (hsrc : KeySpaced srcKey) (hdst : KeySpaced dstKey) :
    words (matchHead flow ++ ((portPieces flow word srcKey dstKey).map Piece.text).flatten) =
      keyedWords
        ((matchPieces flow ++ portPieces flow word srcKey dstKey).flatMap pieceFields) := by
  rw [← (words_pieces (List.forall_mem_append.mpr
    ⟨matchPieces_spaced flow, portPieces_spaced flow hword hsrc hdst⟩)).2,
    List.map_append, List.flatten_append, matchHead]

theorem words_match (hostid : BitVec 32) (flow : AccFlow) :
    words (ruleOf hostid flow).match =
      keyedWords (if flow.match.protocol = 6
        then matchFields flow "tcp".toList "tcp_src=".toList "tcp_dst=".toList
        else matchFields flow "udp".toList "udp_src=".toList "udp_dst=".toList) := by
  unfold ruleOf portText
  by_cases htcp : flow.match.protocol = 6
  · rw [if_pos htcp, if_pos htcp, tcpText, tcpPieces,
      words_matchText flow rfl (by decide) (by decide)]
    rfl
  · rw [if_neg htcp, if_neg htcp, udpText, udpPieces,
      words_matchText flow rfl (by decide) (by decide)]
    rfl

/-- The quoted argument as pieces, with one more space in front. -/
def argumentPieces (hostid : BitVec 32) (flow : AccFlow) (port : List Piece) : List Piece :=
  [.field ⟨true, " cookie=0X".toList, .mac1, numeral 16 hostid.toNat⟩,
    .field ⟨true, " priority=".toList, .mac1, numeral 10 68⟩,
    .field ⟨true, " table=".toList, .mac1, numeral 10 0⟩,
    .lit " ".toList] ++
    matchPieces flow ++ port ++ [.lit " ".toList] ++ actionPieces flow

def argumentFields (hostid : BitVec 32) (flow : AccFlow) (word srcKey dstKey : Text) :
    List Keyed :=
  [⟨true, "cookie=0X".toList, numeral 16 hostid.toNat⟩,
    ⟨true, "priority=".toList, numeral 10 68⟩,
    ⟨true, "table=".toList, numeral 10 0⟩,
    ⟨accMatchIsBeSet flow.mask.srcmac.bytes, "eth_src=".toList, printMac flow.match.srcmac⟩,
    ⟨accMatchIsBeSet flow.mask.dstmac.bytes, "eth_dst=".toList, printMac flow.match.dstmac⟩,
    ⟨true, "ip".toList, []⟩,
    ⟨accMatchIsBeSet (wordBytes 4 flow.mask.srcIp), "nw_src=".toList, printIp flow.match.srcIp⟩,
    ⟨accMatchIsBeSet (wordBytes 4 flow.mask.dstIp), "nw_dst=".toList, printIp flow.match.dstIp⟩,
    ⟨true, word, []⟩,
    ⟨accMatchIsBeSet (wordBytes 2 flow.mask.srcPort), srcKey, printPort flow.match.srcPort⟩,
    ⟨accMatchIsBeSet (wordBytes 2 flow.mask.dstPort), dstKey, printPort flow.match.dstPort⟩,
    ⟨true, "actions=".toList, []⟩,
    ⟨accActionIsFieldMaskSet flow.action actionFieldSrcmac, "mod_dl_src:".toList,
      printMac flow.action.srcmac⟩,
    ⟨accActionIsFieldMaskSet flow.action actionFieldDstmac, "mod_dl_dst:".toList,
      printMac flow.action.dstmac⟩,
    ⟨accActionIsFieldMaskSet flow.action actionFieldSrcIp, "mod_nw_src:".toList,
      printIp flow.action.srcIp⟩,
    ⟨accActionIsFieldMaskSet flow.action actionFieldDstIp, "mod_nw_dst:".toList,
      printIp flow.action.dstIp⟩,
    ⟨accActionIsFieldMaskSet flow.action actionFieldSrcPort, "mod_tp_src:".toList,
      printPort flow.action.srcPort⟩,
    ⟨accActionIsFieldMaskSet flow.action actionFieldDstPort, "mod_tp_dst:".toList,
      printPort flow.action.dstPort⟩,
    ⟨true, "output:normal".toList, []⟩]

theorem argumentPieces_tcp (hostid : BitVec 32) (flow : AccFlow) :
    (argumentPieces hostid flow (tcpPieces flow)).flatMap pieceFields =
      argumentFields hostid flow "tcp".toList "tcp_src=".toList "tcp_dst=".toList := by
  rfl

theorem argumentPieces_udp (hostid : BitVec 32) (flow : AccFlow) :
    (argumentPieces hostid flow (udpPieces flow)).flatMap pieceFields =
      argumentFields hostid flow "udp".toList "udp_src=".toList "udp_dst=".toList := by
  rfl

theorem argumentPieces_spaced (hostid : BitVec 32) (flow : AccFlow) {port : List Piece}
    (hport : ∀ piece ∈ port, PieceSpaced piece) :
    ∀ piece ∈ argumentPieces hostid flow port, PieceSpaced piece := by
  simp only [argumentPieces, List.forall_mem_append, List.forall_mem_cons]
  exact ⟨⟨⟨⟨⟨field_spaced (by decide) (solid_numeral (by omega) (by omega)),
    field_spaced (by decide) (solid_numeral (by omega) (by omega)),
    field_spaced (by decide) (solid_numeral (by omega) (by omega)),
    literal_spaced rfl, by simp⟩, matchPieces_spaced flow⟩, hport⟩,
    literal_spaced rfl, by simp⟩, actionPieces_spaced flow⟩

/-- The words between the quotes are the fields of the rule. -/
theorem words_editArgument (hostid : BitVec 32) (flow : AccFlow) {port : List Piece}
    (hport : ∀ piece ∈ port, PieceSpaced piece)
    (htext : portText flow = (port.map Piece.text).flatten) :
    words (editArgument (ruleOf hostid flow)) =
      keyedWords ((argumentPieces hostid flow port).flatMap pieceFields) := by
  have hpieces := (words_pieces (argumentPieces_spaced hostid flow hport)).2
  have hargument : ((argumentPieces hostid flow port).map Piece.text).flatten =
      ' ' :: editArgument (ruleOf hostid flow) := by
    have hset : ∀ key buffer value,
        (Piece.field ⟨true, key, buffer, value⟩).text = key ++ value := fun _ _ _ => rfl
    have hlit : ∀ text, (Piece.lit text).text = text := fun _ => rfl
    have hcookie : " cookie=0X".toList = ' ' :: "cookie=0X".toList := rfl
    unfold argumentPieces editArgument ruleOf matchHead actionText
    rw [htext, hcookie]
    simp only [List.map_append, List.flatten_append, List.map_cons, List.flatten_cons, hset, hlit,
      List.nil_append, List.append_assoc, List.cons_append]
  rw [← hpieces, hargument, words_space]

theorem words_editArgument_tcp (hostid : BitVec 32) {flow : AccFlow}
    (h : flow.match.protocol = 6) :
    words (editArgument (ruleOf hostid flow)) =
      keyedWords (argumentFields hostid flow "tcp".toList "tcp_src=".toList "tcp_dst=".toList) := by
  rw [← argumentPieces_tcp]
  apply words_editArgument
  · exact portPieces_spaced flow rfl (by decide) (by decide)
  · rw [portText, if_pos h, tcpText]

theorem words_editArgument_udp (hostid : BitVec 32) {flow : AccFlow}
    (h : flow.match.protocol = 17) :
    words (editArgument (ruleOf hostid flow)) =
      keyedWords (argumentFields hostid flow "udp".toList "udp_src=".toList "udp_dst=".toList) := by
  rw [← argumentPieces_udp]
  apply words_editArgument
  · exact portPieces_spaced flow rfl (by decide) (by decide)
  · rw [portText, if_neg (by simp [h]), udpText]

end BeLa.CommandLine
