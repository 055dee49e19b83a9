import BeLa.KeyedWords
import BeLa.OfctlRule
import BeLa.Writes

/-!
The text dump of a flow, `acc_flows_dumps`: conditional pieces printed one behind
the other. Each `snprintf` is told the length of the buffer plus what is used of it,
where it should be told what is left, so the dump stays in its buffer exactly when
the whole text fits with its terminator.
-/
namespace BeLa.FlowDump

open LittleEndian Numerals KeyedWords BeLa.Flow OfctlRule Writes

def nul : Char := Char.ofNat 0

/-- `%02x:%02x:%02x:%02x:%02x:%02x`: the text of `printMac` in lower case. -/
def dumpMac (mac : Mac) : Text := (printMac mac).map Char.toLower

/-- The pieces behind `ACC_MATCH_IS_FIELD_MASK_SET`. -/
def matchFields (flow : AccFlow) : List Keyed :=
  [⟨accMatchIsBeSet flow.mask.srcmac.bytes, " src_mac ".toList, dumpMac flow.match.srcmac⟩,
    ⟨accMatchIsBeSet flow.mask.dstmac.bytes, " dst_mac ".toList, dumpMac flow.match.dstmac⟩,
    ⟨accMatchIsBeSet (wordBytes 4 flow.mask.srcIp), " src_ip  ".toList,
      printIp flow.match.srcIp⟩,
    ⟨accMatchIsBeSet (wordBytes 4 flow.mask.dstIp), " dst_ip  ".toList,
      printIp flow.match.dstIp⟩,
    ⟨accMatchIsBeSet (wordBytes 2 flow.mask.srcPort), " src_port  ".toList,
      printPort flow.match.srcPort⟩,
    ⟨accMatchIsBeSet (wordBytes 2 flow.mask.dstPort), " dst_port  ".toList,
      printPort flow.match.dstPort⟩,
    ⟨accMatchIsBeSet [flow.mask.protocol], " protocol  ".toList,
      numeral 10 flow.match.protocol.toNat⟩]

/-- The pieces behind `ACC_ACTION_IS_FIELD_MASK_SET`. -/
def actionFields (action : AccAction) : List Keyed :=
  [⟨accActionIsFieldMaskSet action actionFieldSrcmac, " xlate_src_mac ".toList,
      dumpMac action.srcmac⟩,
    ⟨accActionIsFieldMaskSet action actionFieldDstmac, " xlate_dst_mac ".toList,
      dumpMac action.dstmac⟩,
    ⟨accActionIsFieldMaskSet action actionFieldSrcIp, " xlate_src_ip  ".toList,
      printIp action.srcIp⟩,
    ⟨accActionIsFieldMaskSet action actionFieldDstIp, " xlate_dst_ip  ".toList,
      printIp action.dstIp⟩,
    ⟨accActionIsFieldMaskSet action actionFieldSrcPort, " xlate_src_port  ".toList,
      printPort action.srcPort⟩,
    ⟨accActionIsFieldMaskSet action actionFieldDstPort, " xlate_dst_port  ".toList,
      printPort action.dstPort⟩,
    ⟨accActionIsFieldMaskSet action actionFieldProtocol, " xlate_protocol  ".toList,
      numeral 10 action.protocol.toNat⟩]

def dumpTexts (flow : AccFlow) : List Text :=
  keyedWords (matchFields flow) ++ "---->".toList ::
    (keyedWords (actionFields flow.action) ++ ["\n".toList])

def dumpText (flow : AccFlow) : Text := (dumpTexts flow).flatten

/-- `len+use`, an `int`, as the `size_t` that `snprintf` takes. -/
def room (len use : BitVec 32) : ℕ := ((len + use).signExtend 64).toNat

/-- What `snprintf` stores at an offset; it stores nothing at size 0. -/
def stores (offset size : ℕ) (text : Text) : List (Write Char) :=
  if size = 0 then [] else [⟨offset, (snprintf size text).1 ++ [nul]⟩]

/-- The calls of `snprintf` for the pieces, from `buffer+use` on. -/
def printPieces (len : BitVec 32) : BitVec 32 → List Text → List (Write Char)
  | _, [] => []
  | use, text :: texts =>
    let writen := (snprintf (room len use) text).2
    -- a length is not negative, so `HELP_SCRIPT` always goes on
    stores use.toNat (room len use) text ++
      printPieces len (use + BitVec.ofNat 32 writen) texts

/-- `acc_flows_dumps`: what it returns, and its stores to the buffer. -/
def accFlowsDumps (len : BitVec 32) (flow : AccFlow) : ℤ × List (Write Char) :=
  (0, printPieces len 0 (dumpTexts flow))

/-! The size that a call is told. -/

theorem toNat_lt_of_pos {len : BitVec 32} (hlen : 0 < len.toInt) :
    0 < len.toNat ∧ len.toNat < 2 ^ 31 := by
  rw [BitVec.toInt_eq_toNat_cond] at hlen
  split at hlen <;> omega

/-- A call is told at least the length of the buffer and what is used of it together. -/
theorem le_room {len use : BitVec 32} (hlen : 0 < len.toInt) (huse : use.toNat < 2 ^ 31) :
    len.toNat + use.toNat ≤ room len use := by
  have hlt := (toNat_lt_of_pos hlen).2
  have hsum : (len + use).toNat = len.toNat + use.toNat := by
    rw [BitVec.toNat_add, Nat.mod_eq_of_lt (by omega)]
  rw [room, BitVec.toNat_signExtend, BitVec.toNat_setWidth, hsum, Nat.mod_eq_of_lt (by omega)]
  omega

theorem mem_stores {offset size : ℕ} {text : Text} (hsize : 0 < size) :
    ⟨offset, text.take (size - 1) ++ [nul]⟩ ∈ stores offset size text := by
  rw [stores, if_neg (by omega)]
  exact List.mem_singleton_self _

theorem toNat_use_add {use : BitVec 32} {n : ℕ} (h : use.toNat + n < 2 ^ 31) :
    (use + BitVec.ofNat 32 n).toNat = use.toNat + n := by
  rw [BitVec.toNat_add, BitVec.toNat_ofNat, Nat.add_mod_mod, Nat.mod_eq_of_lt (by omega)]

/-! The pieces one behind the other. -/

/-- A text that fits is stored piece by piece as it is. -/
theorem printPieces_eq_chain {len use : BitVec 32} {texts : List Text} (hlen : 0 < len.toInt)
    (h : use.toNat + texts.flatten.length < len.toNat) :
    printPieces len use texts = chain nul use.toNat texts := by
  have hlt := (toNat_lt_of_pos hlen).2
  induction texts generalizing use with
  | nil => rfl
  | cons text texts ih =>
    rw [List.flatten_cons, List.length_append] at h
    have hroom := le_room hlen (show use.toNat < 2 ^ 31 by omega)
    have hnext : (use + BitVec.ofNat 32 text.length).toNat = use.toNat + text.length :=
      toNat_use_add (by omega)
    have hrest : printPieces len (use + BitVec.ofNat 32 text.length) texts =
        chain nul (use + BitVec.ofNat 32 text.length).toNat texts := ih (by omega)
    have htext : text.take (room len use - 1) = text := List.take_of_length_le (by omega)
    rw [hnext] at hrest
    simp only [printPieces, snprintf, hrest, stores, if_neg (show ¬ room len use = 0 by omega),
      htext, chain]
    rfl

/-- Behind the first piece a store that is cut by the size it is told ends outside. -/
theorem fits_of_within {len use : BitVec 32} {texts : List Text} (hlen : 0 < len.toInt)
    (hpos : 0 < use.toNat) (huse : use.toNat < 2 ^ 31) (hne : texts ≠ [])
    (h : ∀ w ∈ printPieces len use texts, w.Within len.toNat) :
    use.toNat + texts.flatten.length < len.toNat := by
  have hlt := (toNat_lt_of_pos hlen).2
  induction texts generalizing use with
  | nil => exact absurd rfl hne
  | cons text texts ih =>
    have hroom := le_room hlen huse
    have hhead := h _ (List.mem_append_left _ (mem_stores (by omega)))
    simp only [Write.Within, List.length_append, List.length_take,
      List.length_singleton] at hhead
    have hfits : use.toNat + text.length < len.toNat := by omega
    have hnext : (use + BitVec.ofNat 32 text.length).toNat = use.toNat + text.length :=
      toNat_use_add (by omega)
    rw [List.flatten_cons, List.length_append]
    by_cases hlast : texts = []
    · rw [hlast]
      simpa using hfits
    · have hrest : (use + BitVec.ofNat 32 text.length).toNat + texts.flatten.length <
          len.toNat := by
        apply ih (by omega) (by omega) hlast
        exact fun w hw => h w (List.mem_append_right _ hw)
      omega

/-- The first piece is told the length of the buffer; the text must fit for the others. -/
theorem fits_of_within_zero {len : BitVec 32} {text : Text} {texts : List Text}
    (hlen : 0 < len.toInt) (hpos : 0 < text.length) (htext : text.length < 2 ^ 31)
    (hne : texts ≠ []) (h : ∀ w ∈ printPieces len 0 (text :: texts), w.Within len.toNat) :
    (text :: texts).flatten.length < len.toNat := by
  have hnext : (0 + BitVec.ofNat 32 text.length).toNat = text.length := by
    rw [toNat_use_add (by simpa using htext)]
    exact Nat.zero_add _
  have hrest : (0 + BitVec.ofNat 32 text.length).toNat + texts.flatten.length < len.toNat := by
    apply fits_of_within hlen (by omega) (by omega) hne
    exact fun w hw => h w (List.mem_append_right _ hw)
  rw [List.flatten_cons, List.length_append]
  omega

/-! The lengths of the pieces. -/

theorem length_dumpMac (mac : Mac) : (dumpMac mac).length = 17 := by
  rw [dumpMac, List.length_map, length_printMac]

theorem length_matchField_le (flow : AccFlow) :
    ∀ field ∈ matchFields flow, (field.key ++ field.value).length ≤ 40 := by
  have hsrcIp := length_printIp_le flow.match.srcIp
  have hdstIp := length_printIp_le flow.match.dstIp
  have hsrcPort := length_printPort_le flow.match.srcPort
  have hdstPort := length_printPort_le flow.match.dstPort
  have hprotocol := length_byteNumeral_le flow.match.protocol
  simp [matchFields, length_dumpMac]
  omega

theorem length_actionField_le (action : AccAction) :
    ∀ field ∈ actionFields action, (field.key ++ field.value).length ≤ 40 := by
  have hsrcIp := length_printIp_le action.srcIp
  have hdstIp := length_printIp_le action.dstIp
  have hsrcPort := length_printPort_le action.srcPort
  have hdstPort := length_printPort_le action.dstPort
  have hprotocol := length_byteNumeral_le action.protocol
  simp [actionFields, length_dumpMac]
  omega

theorem length_keyedWords_le {fields : List Keyed} {n : ℕ}
    (h : ∀ field ∈ fields, (field.key ++ field.value).length ≤ n) :
    (keyedWords fields).flatten.length ≤ n * fields.length := by
  induction fields with
  | nil => simp [keyedWords]
  | cons field fields ih =>
    rw [List.forall_mem_cons] at h
    have hrest := ih h.2
    have hsplit : keyedWords (field :: fields) = keyedWords [field] ++ keyedWords fields :=
      keyedWords_append [field] fields
    have hfirst : (keyedWords [field]).flatten.length ≤ n := by
      cases hset : field.isSet
      · simp [keyedWords, hset]
      · simpa [keyedWords, hset] using h.1
    rw [hsplit, List.flatten_append, List.length_append, List.length_cons, Nat.mul_succ]
    omega

theorem length_dumpText_le (flow : AccFlow) : (dumpText flow).length ≤ 566 := by
  have hmatch := length_keyedWords_le (length_matchField_le flow)
  have haction := length_keyedWords_le (length_actionField_le flow.action)
  have hmatches : (matchFields flow).length = 7 := rfl
  have hactions : (actionFields flow.action).length = 7 := rfl
  have harrow : "---->".toList.length = 5 := by decide
  have hnewline : "\n".toList.length = 1 := by decide
  simp only [dumpText, dumpTexts, List.flatten_append, List.flatten_cons, List.flatten_nil,
    List.length_append, List.append_nil] at *
  omega

/-- The dump begins with a piece that is not empty and has another one behind it. -/
theorem dumpTexts_cons (flow : AccFlow) :
    ∃ text texts, dumpTexts flow = text :: texts ∧ 0 < text.length ∧ texts ≠ [] := by
  unfold dumpTexts
  cases hmatch : keyedWords (matchFields flow) with
  | nil => exact ⟨_, _, rfl, by decide, by simp⟩
  | cons text texts =>
    refine ⟨_, _, rfl, ?_, by simp⟩
    obtain ⟨field, hfield, rfl⟩ : ∃ field ∈ matchFields flow, field.key ++ field.value = text := by
      have hmem : text ∈ keyedWords (matchFields flow) := by simp [hmatch]
      obtain ⟨field, hfield, heq⟩ := List.mem_map.mp hmem
      exact ⟨field, (List.mem_filter.mp hfield).1, heq⟩
    have hkey : ∀ field ∈ matchFields flow, 0 < field.key.length := by simp [matchFields]
    have hpos := hkey field hfield
    rw [List.length_append]
    omega

/-! The whole dump. -/

/-- No store of the dump is at an index from `len` on, and a text that fits is in the buffer
with its terminator. -/
structure DumpMeets (len : BitVec 32) (flow : AccFlow) : Prop where
  inside : ∀ w ∈ (accFlowsDumps len flow).2, w.Within len.toNat
  text : (dumpText flow).length < len.toNat → ∀ buffer : List Char,
    buffer.length = len.toNat → putAll buffer (accFlowsDumps len flow).2 =
      dumpText flow ++ nul :: buffer.drop ((dumpText flow).length + 1)

theorem dumpMeets_of_fits {len : BitVec 32} (hlen : 0 < len.toInt) {flow : AccFlow}
    (h : (dumpText flow).length < len.toNat) : DumpMeets len flow := by
  obtain ⟨text, texts, heq, -, -⟩ := dumpTexts_cons flow
  have hchain : (accFlowsDumps len flow).2 = chain nul 0 (dumpTexts flow) :=
    printPieces_eq_chain hlen (by simpa [dumpText] using h)
  refine ⟨?_, fun _ buffer hbuffer => ?_⟩
  · rw [hchain]
    exact chain_within (by simpa [dumpText] using h)
  · have hne : dumpTexts flow ≠ [] := by simp [heq]
    have hput := putAll_chain nul hne [] buffer (by simpa [dumpText, hbuffer] using h)
    simpa [hchain, dumpText] using hput

/-- The buffer of `cgnat_accelerate` is large enough for every flow. -/
theorem dumpMeets_buffer (flow : AccFlow) : DumpMeets 4096 flow :=
  dumpMeets_of_fits (by decide) (Nat.lt_of_le_of_lt (length_dumpText_le flow) (by decide))

/-- The dump is as it should be exactly when the whole text fits with its terminator. -/
theorem dumpMeets_iff {len : BitVec 32} (hlen : 0 < len.toInt) (flow : AccFlow) :
    DumpMeets len flow ↔ (dumpText flow).length < len.toNat := by
  constructor
  · intro h
    obtain ⟨text, texts, heq, hpos, hne⟩ := dumpTexts_cons flow
    have hle := length_dumpText_le flow
    have hinside := h.inside
    simp only [accFlowsDumps, dumpText, heq] at hle hinside ⊢
    refine fits_of_within_zero hlen hpos ?_ hne hinside
    rw [List.flatten_cons, List.length_append] at hle
    omega
  · exact dumpMeets_of_fits hlen

/-- A flow without a set field, in a buffer that is just large enough. -/
theorem dumpMeets_seven : 0 < (7#32).toInt ∧ DumpMeets 7 (AccFlow.plain 6) :=
  ⟨by decide, (dumpMeets_iff (by decide) _).mpr (by decide)⟩

/-- A buffer of one byte: the newline and its terminator are stored at 5 and 6. -/
theorem dump_outside : ¬ ∀ (len : BitVec 32) (flow : AccFlow), 0 < len.toInt →
    DumpMeets len flow := by
  intro hall
  have hmeets := hall 1 (AccFlow.plain 6) (by decide)
  have hwithin := hmeets.inside ⟨5, ['\n', nul]⟩ (by decide)
  exact absurd hwithin (by decide)

end BeLa.FlowDump
