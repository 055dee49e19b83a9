import BeLa.Flow
import BeLa.Numerals
import Mathlib.Data.List.Induction

/-!
The rule builder `acc_ovs_build_ofctl_rule`: a flow becomes the match text and
the action text of an `ovs-ofctl` command line. Each optional field is a key and
a value printed into a static buffer; all arguments of one `snprintf` call are
evaluated before the call reads any buffer.
-/
namespace BeLa.OfctlRule

open LittleEndian Numerals BeLa.Flow

def printPort (port : BitVec 16) : Text := numeral 10 port.toNat

/-- `_print_ip`: the four bytes in memory order, joined by dots. -/
def printIp (ip : BitVec 32) : Text :=
  List.intercalate ['.'] ((wordBytes 4 ip).map (fun b => numeral 10 b.toNat))

/-- `_print_mac`: each byte as `%02X`, joined by colons. -/
def printMac (mac : Mac) : Text :=
  List.intercalate [':'] (mac.bytes.map (fun b => padded 2 16 b.toNat))

/-- The static buffers of `print_mac1` to `print_port2`. -/
inductive StaticBuffer
  | mac1
  | mac2
  | ip1
  | ip2
  | port1
  | port2
  deriving DecidableEq, Repr

/-- The two arguments of one `_FARG`; the value is printed only when the field is set. -/
structure FieldArg where
  isSet : Bool
  key : Text
  buffer : StaticBuffer
  value : Text
  deriving DecidableEq, Repr

/-- A piece of a format string: literal text, or a `%s%s` with its `_FARG`. -/
inductive Piece
  | lit (text : Text)
  | field (arg : FieldArg)
  deriving DecidableEq, Repr

def fieldArgs (pieces : List Piece) : List FieldArg :=
  pieces.filterMap fun
    | .lit _ => none
    | .field arg => some arg

def bufferAfter (buffer : StaticBuffer) (args : List FieldArg) : Text :=
  args.foldl (fun held arg => if arg.isSet ∧ arg.buffer = buffer then arg.value else held) []

def pieceText (args : List FieldArg) : Piece → Text
  | .lit text => text
  | .field arg => if arg.isSet then arg.key ++ bufferAfter arg.buffer args else []

/-- The text that `snprintf` prints for a format and its arguments. -/
def formatted (pieces : List Piece) : Text :=
  (pieces.map (pieceText (fieldArgs pieces))).flatten

/-- `snprintf` into a buffer of `size` bytes: the text it stores, and the value it returns. -/
def snprintf (size : ℕ) (text : Text) : Text × ℕ := (text.take (size - 1), text.length)

/-- `_FARG` over `ACC_MATCH_IS_FIELD_MASK_SET`. -/
def matchArg (mask : Bytes) (key : Text) (buffer : StaticBuffer) (value : Text) : Piece :=
  .field ⟨accMatchIsBeSet mask, key, buffer, value⟩

/-- `_FARG` over `ACC_ACTION_IS_FIELD_MASK_SET`. -/
def actionArg (action : AccAction) (field : BitVec 32) (key : Text) (buffer : StaticBuffer)
    (value : Text) : Piece :=
  .field ⟨accActionIsFieldMaskSet action field, key, buffer, value⟩

def matchPieces (flow : AccFlow) : List Piece :=
  [matchArg flow.mask.srcmac.bytes " eth_src=".toList .mac1 (printMac flow.match.srcmac),
    .lit " ".toList,
    matchArg flow.mask.dstmac.bytes " eth_dst=".toList .mac2 (printMac flow.match.dstmac),
    .lit " ip ".toList,
    matchArg (wordBytes 4 flow.mask.srcIp) " nw_src=".toList .ip1 (printIp flow.match.srcIp),
    .lit " ".toList,
    matchArg (wordBytes 4 flow.mask.dstIp) " nw_dst=".toList .ip2 (printIp flow.match.dstIp)]

def portPieces (flow : AccFlow) (word srcKey dstKey : Text) : List Piece :=
  [.lit word,
    matchArg (wordBytes 2 flow.mask.srcPort) srcKey .port1 (printPort flow.match.srcPort),
    .lit " ".toList,
    matchArg (wordBytes 2 flow.mask.dstPort) dstKey .port2 (printPort flow.match.dstPort)]

def tcpPieces (flow : AccFlow) : List Piece :=
  portPieces flow " tcp ".toList " tcp_src=".toList " tcp_dst=".toList

def udpPieces (flow : AccFlow) : List Piece :=
  portPieces flow " udp ".toList " udp_src=".toList " udp_dst=".toList

/-- The switch over `flow->match.protocol`; `none` is its default case. -/
def protocolPieces (flow : AccFlow) : Option (List Piece) :=
  if flow.match.protocol = 6 then some (tcpPieces flow)
  else if flow.match.protocol = 17 then some (udpPieces flow)
  else none

def actionPieces (flow : AccFlow) : List Piece :=
  let action := flow.action
  [.lit " actions=".toList,
    actionArg action actionFieldSrcmac " mod_dl_src:".toList .mac1 (printMac action.srcmac),
    .lit " ".toList,
    actionArg action actionFieldDstmac " mod_dl_dst:".toList .mac2 (printMac action.dstmac),
    .lit " ".toList,
    actionArg action actionFieldSrcIp " mod_nw_src:".toList .ip1 (printIp action.srcIp),
    .lit "  ".toList,
    actionArg action actionFieldDstIp " mod_nw_dst:".toList .ip2 (printIp action.dstIp),
    .lit " ".toList,
    actionArg action actionFieldSrcPort " mod_tp_src:".toList .port1 (printPort action.srcPort),
    .lit " ".toList,
    actionArg action actionFieldDstPort " mod_tp_dst:".toList .port2 (printPort action.dstPort),
    .lit " output:normal".toList]

structure AccOfctlRule where
  cookie : BitVec 32
  priority : ℕ
  table : ℕ
  «match» : Text
  action : Text
  deriving DecidableEq, Repr

/-- The size of the fields `match` and `action` of `struct acc_ofctl_rule`. -/
def textSize : ℕ := 1024

/-- `none` where the source returns -1. -/
def accOvsBuildOfctlRule (hostid : BitVec 32) (flow : AccFlow) : Option AccOfctlRule :=
  let (head, useLen) := snprintf textSize (formatted (matchPieces flow))
  if textSize ≤ useLen then none
  else
    match protocolPieces flow with
    | none => none
    | some pieces =>
      let (tail, ret) := snprintf (textSize - useLen) (formatted pieces)
      if textSize ≤ ret + useLen then none
      else
        let (action, ret) := snprintf textSize (formatted (actionPieces flow))
        if textSize ≤ ret then none
        else some ⟨hostid, 68, 0, head ++ tail, action⟩

/-- The protocols for which the builder has a case. -/
def Supported (flow : AccFlow) : Prop := flow.match.protocol = 6 ∨ flow.match.protocol = 17

instance (flow : AccFlow) : Decidable (Supported flow) := by
  unfold Supported
  infer_instance

def FieldArg.text (arg : FieldArg) : Text := if arg.isSet then arg.key ++ arg.value else []

def Piece.text : Piece → Text
  | .lit text => text
  | .field arg => arg.text

theorem bufferAfter_append (buffer : StaticBuffer) (args : List FieldArg) (arg : FieldArg) :
    bufferAfter buffer (args ++ [arg]) =
      if arg.isSet ∧ arg.buffer = buffer then arg.value else bufferAfter buffer args := by
  simp [bufferAfter]

/-- With a buffer for each argument, a set argument reads back what it printed. -/
theorem bufferAfter_of_nodup {args : List FieldArg} (hbuffers : (args.map FieldArg.buffer).Nodup)
    {arg : FieldArg} (harg : arg ∈ args) (hset : arg.isSet) :
    bufferAfter arg.buffer args = arg.value := by
  induction args using List.reverseRecOn with
  | nil => simp at harg
  | append_singleton args last ih =>
    rw [List.map_append, List.nodup_append] at hbuffers
    obtain ⟨hinit, _, hapart⟩ := hbuffers
    rw [bufferAfter_append]
    rcases List.mem_append.mp harg with hmem | hmem
    · have hne : arg.buffer ≠ last.buffer :=
        hapart _ (List.mem_map_of_mem hmem) _ (by simp)
      rw [if_neg (by simp [Ne.symm hne]), ih hinit hmem]
    · obtain rfl := List.mem_singleton.mp hmem
      rw [if_pos ⟨hset, rfl⟩]

theorem formatted_of_nodup {pieces : List Piece}
    (hbuffers : ((fieldArgs pieces).map FieldArg.buffer).Nodup) :
    formatted pieces = (pieces.map Piece.text).flatten := by
  have hpiece : ∀ piece ∈ pieces, pieceText (fieldArgs pieces) piece = piece.text := by
    intro piece hmem
    cases piece with
    | lit text => rfl
    | field arg =>
      have harg : arg ∈ fieldArgs pieces := List.mem_filterMap.mpr ⟨.field arg, hmem, rfl⟩
      by_cases hset : arg.isSet
      · simp [pieceText, Piece.text, FieldArg.text, hset, bufferAfter_of_nodup hbuffers harg hset]
      · simp [pieceText, Piece.text, FieldArg.text, hset]
  rw [formatted, List.map_congr_left hpiece]

def matchHead (flow : AccFlow) : Text := ((matchPieces flow).map Piece.text).flatten

def tcpText (flow : AccFlow) : Text := ((tcpPieces flow).map Piece.text).flatten

def udpText (flow : AccFlow) : Text := ((udpPieces flow).map Piece.text).flatten

def actionText (flow : AccFlow) : Text := ((actionPieces flow).map Piece.text).flatten

theorem formatted_matchPieces (flow : AccFlow) : formatted (matchPieces flow) = matchHead flow :=
  formatted_of_nodup (by simp [fieldArgs, matchPieces, matchArg])

theorem formatted_tcpPieces (flow : AccFlow) : formatted (tcpPieces flow) = tcpText flow :=
  formatted_of_nodup (by simp [fieldArgs, tcpPieces, portPieces, matchArg])

theorem formatted_udpPieces (flow : AccFlow) : formatted (udpPieces flow) = udpText flow :=
  formatted_of_nodup (by simp [fieldArgs, udpPieces, portPieces, matchArg])

theorem formatted_actionPieces (flow : AccFlow) : formatted (actionPieces flow) = actionText flow :=
  formatted_of_nodup (by simp [fieldArgs, actionPieces, actionArg])

theorem length_printPort_le (port : BitVec 16) : (printPort port).length ≤ 5 :=
  length_numeral_le (by omega) (by omega) (by omega)

theorem length_byteNumeral_le (b : Byte) : (numeral 10 b.toNat).length ≤ 3 :=
  length_numeral_le (by omega) (by omega) (by omega)

theorem length_printIp_le (ip : BitVec 32) : (printIp ip).length ≤ 15 := by
  obtain ⟨b0, b1, b2, b3, hb⟩ : ∃ b0 b1 b2 b3, wordBytes 4 ip = [b0, b1, b2, b3] :=
    ⟨_, _, _, _, rfl⟩
  have h0 := length_byteNumeral_le b0
  have h1 := length_byteNumeral_le b1
  have h2 := length_byteNumeral_le b2
  have h3 := length_byteNumeral_le b3
  simp [printIp, hb, List.intercalate]
  omega

theorem length_printMac (mac : Mac) : (printMac mac).length = 17 := by
  have hbyte : ∀ b : Byte, (padded 2 16 b.toNat).length = 2 := fun b =>
    length_padded (by omega) (by omega) (by omega)
  simp [printMac, Mac.bytes, List.intercalate, hbyte]

theorem FieldArg.length_text_le (arg : FieldArg) :
    arg.text.length ≤ arg.key.length + arg.value.length := by
  unfold FieldArg.text
  split <;> simp

theorem length_matchHead_le (flow : AccFlow) : (matchHead flow).length ≤ 104 := by
  have hsrcmac := FieldArg.length_text_le ⟨accMatchIsBeSet flow.mask.srcmac.bytes,
    " eth_src=".toList, .mac1, printMac flow.match.srcmac⟩
  have hdstmac := FieldArg.length_text_le ⟨accMatchIsBeSet flow.mask.dstmac.bytes,
    " eth_dst=".toList, .mac2, printMac flow.match.dstmac⟩
  have hsrcIp := FieldArg.length_text_le ⟨accMatchIsBeSet (wordBytes 4 flow.mask.srcIp),
    " nw_src=".toList, .ip1, printIp flow.match.srcIp⟩
  have hdstIp := FieldArg.length_text_le ⟨accMatchIsBeSet (wordBytes 4 flow.mask.dstIp),
    " nw_dst=".toList, .ip2, printIp flow.match.dstIp⟩
  have hsrcIp15 := length_printIp_le flow.match.srcIp
  have hdstIp15 := length_printIp_le flow.match.dstIp
  simp only [length_printMac] at hsrcmac hdstmac
  simp [matchHead, matchPieces, matchArg, Piece.text] at *
  omega

theorem length_portText_le (flow : AccFlow) {word srcKey dstKey : Text} (hword : word.length = 5)
    (hsrcKey : srcKey.length = 9) (hdstKey : dstKey.length = 9) :
    (((portPieces flow word srcKey dstKey).map Piece.text).flatten).length ≤ 34 := by
  have hsrc := FieldArg.length_text_le ⟨accMatchIsBeSet (wordBytes 2 flow.mask.srcPort),
    srcKey, .port1, printPort flow.match.srcPort⟩
  have hdst := FieldArg.length_text_le ⟨accMatchIsBeSet (wordBytes 2 flow.mask.dstPort),
    dstKey, .port2, printPort flow.match.dstPort⟩
  have hsrcPort := length_printPort_le flow.match.srcPort
  have hdstPort := length_printPort_le flow.match.dstPort
  simp [portPieces, matchArg, Piece.text] at *
  omega

theorem length_actionText_le (flow : AccFlow) : (actionText flow).length ≤ 175 := by
  have hsrcmac := FieldArg.length_text_le ⟨accActionIsFieldMaskSet flow.action actionFieldSrcmac,
    " mod_dl_src:".toList, .mac1, printMac flow.action.srcmac⟩
  have hdstmac := FieldArg.length_text_le ⟨accActionIsFieldMaskSet flow.action actionFieldDstmac,
    " mod_dl_dst:".toList, .mac2, printMac flow.action.dstmac⟩
  have hsrcIp := FieldArg.length_text_le ⟨accActionIsFieldMaskSet flow.action actionFieldSrcIp,
    " mod_nw_src:".toList, .ip1, printIp flow.action.srcIp⟩
  have hdstIp := FieldArg.length_text_le ⟨accActionIsFieldMaskSet flow.action actionFieldDstIp,
    " mod_nw_dst:".toList, .ip2, printIp flow.action.dstIp⟩
  have hsrcPort := FieldArg.length_text_le
    ⟨accActionIsFieldMaskSet flow.action actionFieldSrcPort, " mod_tp_src:".toList, .port1,
      printPort flow.action.srcPort⟩
  have hdstPort := FieldArg.length_text_le
    ⟨accActionIsFieldMaskSet flow.action actionFieldDstPort, " mod_tp_dst:".toList, .port2,
      printPort flow.action.dstPort⟩
  have hsrcIp15 := length_printIp_le flow.action.srcIp
  have hdstIp15 := length_printIp_le flow.action.dstIp
  have hsrcPort5 := length_printPort_le flow.action.srcPort
  have hdstPort5 := length_printPort_le flow.action.dstPort
  simp only [length_printMac] at hsrcmac hdstmac
  simp [actionText, actionPieces, actionArg, Piece.text] at *
  omega

def portText (flow : AccFlow) : Text :=
  if flow.match.protocol = 6 then tcpText flow else udpText flow

/-- The rule that the builder makes of a supported flow. -/
def ruleOf (hostid : BitVec 32) (flow : AccFlow) : AccOfctlRule :=
  ⟨hostid, 68, 0, matchHead flow ++ portText flow, actionText flow⟩

theorem formatted_protocolPieces {flow : AccFlow} (h : Supported flow) :
    ∃ pieces, protocolPieces flow = some pieces ∧ formatted pieces = portText flow ∧
      (portText flow).length ≤ 34 := by
  unfold protocolPieces portText
  by_cases htcp : flow.match.protocol = 6
  · simp only [if_pos htcp]
    exact ⟨_, rfl, formatted_tcpPieces flow,
      length_portText_le flow (by rfl) (by rfl) (by rfl)⟩
  · simp only [if_neg htcp, if_pos (h.resolve_left htcp)]
    exact ⟨_, rfl, formatted_udpPieces flow,
      length_portText_le flow (by rfl) (by rfl) (by rfl)⟩

theorem snprintf_fits {size : ℕ} {text : Text} (h : text.length < size) :
    snprintf size text = (text, text.length) := by
  rw [snprintf, List.take_of_length_le (by omega)]

/-- The builder succeeds exactly on the supported protocols, and truncates nothing. -/
theorem accOvsBuildOfctlRule_eq (hostid : BitVec 32) (flow : AccFlow) :
    accOvsBuildOfctlRule hostid flow =
      if Supported flow then some (ruleOf hostid flow) else none := by
  have hhead := length_matchHead_le flow
  have haction := length_actionText_le flow
  have hsize : textSize = 1024 := rfl
  unfold accOvsBuildOfctlRule
  rw [formatted_matchPieces, formatted_actionPieces, snprintf_fits (by omega),
    snprintf_fits (by omega)]
  simp only [if_neg (show ¬ textSize ≤ (matchHead flow).length by omega)]
  by_cases hsupported : Supported flow
  · obtain ⟨pieces, hpieces, hformatted, hlen⟩ := formatted_protocolPieces hsupported
    simp only [hpieces, hformatted]
    rw [snprintf_fits (by omega)]
    simp only
    rw [if_neg (by omega), if_neg (by omega), if_pos hsupported, ruleOf]
  · have hnone : protocolPieces flow = none := by
      unfold Supported at hsupported
      unfold protocolPieces
      rw [if_neg (fun h => hsupported (.inl h)), if_neg (fun h => hsupported (.inr h))]
    simp only [hnone, if_neg hsupported]

theorem build_of_supported {hostid : BitVec 32} {flow : AccFlow} (h : Supported flow) :
    accOvsBuildOfctlRule hostid flow = some (ruleOf hostid flow) := by
  rw [accOvsBuildOfctlRule_eq, if_pos h]

theorem build_eq_some_iff {hostid : BitVec 32} {flow : AccFlow} {rule : AccOfctlRule} :
    accOvsBuildOfctlRule hostid flow = some rule ↔
      Supported flow ∧ ruleOf hostid flow = rule := by
  rw [accOvsBuildOfctlRule_eq]
  split
  · rename_i h
    simp [h]
  · rename_i h
    simp [h]

end BeLa.OfctlRule
