import BeLa.CommandLine
import BeLa.Masks

/-!
What an emitted match text selects. The words of the text are read as tests of
a packet: the protocol words test the protocol, each keyed word tests one field
for equality. The text of a flow selects the packets of its protocol that are
equal to the flow on every field whose mask is not zero; this is the masked
comparison of `struct acc_match` exactly for masks that are zero or full.
-/
namespace BeLa.MatchMeaning

open LittleEndian Numerals Words KeyedWords BeLa.Flow OfctlRule FieldText CommandLine Masks

/-- The fields of an IPv4 TCP or UDP packet, as `struct acc_match` holds them. -/
structure Packet where
  srcmac : Mac
  dstmac : Mac
  srcIp : BitVec 32
  dstIp : BitVec 32
  srcPort : BitVec 16
  dstPort : BitVec 16
  protocol : Byte
  transport : protocol = 6 ∨ protocol = 17

def keyedTests : List (Text × (Packet → Text → Bool)) :=
  [("eth_src=".toList, fun p v => readMac v = some p.srcmac),
    ("eth_dst=".toList, fun p v => readMac v = some p.dstmac),
    ("nw_src=".toList, fun p v => readIp v = some p.srcIp),
    ("nw_dst=".toList, fun p v => readIp v = some p.dstIp),
    ("tcp_src=".toList, fun p v => readPort v = some p.srcPort),
    ("tcp_dst=".toList, fun p v => readPort v = some p.dstPort),
    ("udp_src=".toList, fun p v => readPort v = some p.srcPort),
    ("udp_dst=".toList, fun p v => readPort v = some p.dstPort)]

/-- The tests of the plain words; every packet here is an IPv4 packet. -/
def plainTests : List (Text × (Packet → Bool)) :=
  [("ip".toList, fun _ => true),
    ("tcp".toList, fun p => p.protocol = 6),
    ("udp".toList, fun p => p.protocol = 17)]

/-- The test of one word; a word that is no test holds of no packet. -/
def wordHolds (p : Packet) (w : Text) : Bool :=
  match keyedTests.findSome? (fun test => (after test.1 w).map (test.2 p)) with
  | some holds => holds
  | none =>
    match plainTests.lookup w with
    | some test => test p
    | none => false

def Satisfies (p : Packet) (text : Text) : Prop := ∀ w ∈ words text, wordHolds p w

instance (p : Packet) (text : Text) : Decidable (Satisfies p text) := by
  unfold Satisfies
  infer_instance

/-- A word under the key of test `i` is decided by that test alone. -/
theorem wordHolds_keyed (p : Packet) {i : ℕ} {key : Text} {test : Packet → Text → Bool}
    (hi : keyedTests[i]? = some (key, test))
    (hfirst : (keyedTests.take i).all (fun t => differ t.1 key)) (value : Text) :
    wordHolds p (key ++ value) = test p value := by
  have hfind : keyedTests.findSome? (fun t => (after t.1 (key ++ value)).map (t.2 p)) =
      some (test p value) := by
    simp only [Option.map_eq_bind]
    exact @findSome?_keyed _ _ keyedTests (fun test value => some (test p value)) _ _ _ _ _ hi
      hfirst rfl
  rw [wordHolds, hfind]

theorem forall_keyedWords {fields : List Keyed} {P : Text → Prop} :
    (∀ w ∈ keyedWords fields, P w) ↔
      ∀ field ∈ fields, field.isSet → P (field.key ++ field.value) := by
  simp only [keyedWords, List.forall_mem_map, List.mem_filter, and_imp]

/-- Bytewise masking of a MAC. -/
instance : Maskable Mac where
  masked x mask := ⟨x.b0 &&& mask.b0, x.b1 &&& mask.b1, x.b2 &&& mask.b2, x.b3 &&& mask.b3,
    x.b4 &&& mask.b4, x.b5 &&& mask.b5⟩
  zeros := ⟨0, 0, 0, 0, 0, 0⟩
  ones := ⟨255, 255, 255, 255, 255, 255⟩
  masked_ones x := by
    have hones : ∀ b : Byte, b &&& 255 = b := fun b => BitVec.and_allOnes
    simp only [hones]
  masked_zeros := by simp
  exists_agreeing mask hmask m := by
    refine ⟨⟨m.b0 ^^^ ~~~mask.b0, m.b1 ^^^ ~~~mask.b1, m.b2 ^^^ ~~~mask.b2, m.b3 ^^^ ~~~mask.b3,
      m.b4 ^^^ ~~~mask.b4, m.b5 ^^^ ~~~mask.b5⟩, ?_, ?_⟩
    · intro h
      apply hmask
      simp only [Mac.ext_iff, xor_not_eq_iff] at h
      exact Mac.ext_iff.mpr h
    · simp only [xor_not_and]

theorem accMatchIsBeSet_iff (mask : Bytes) : accMatchIsBeSet mask ↔ ∃ b ∈ mask, b ≠ 0 := by
  simp [accMatchIsBeSet]

theorem isBeSet_word (k : ℕ) (mask : BitVec (8 * k)) :
    accMatchIsBeSet (wordBytes k mask) ↔ mask ≠ Maskable.zeros := by
  rw [accMatchIsBeSet_iff]
  exact wordBytes_any_ne_zero k mask

theorem isBeSet_mac (mask : Mac) : accMatchIsBeSet mask.bytes ↔ mask ≠ Maskable.zeros := by
  rw [accMatchIsBeSet_iff, ne_eq, Mac.ext_iff]
  simp only [Mac.bytes, List.mem_cons, List.not_mem_nil, or_false, exists_eq_or_imp,
    exists_eq_left, Maskable.zeros]
  tauto

structure Selects (flow : AccFlow) (p : Packet) : Prop where
  protocol : p.protocol = flow.match.protocol
  srcmac : Present flow.mask.srcmac flow.match.srcmac p.srcmac
  dstmac : Present flow.mask.dstmac flow.match.dstmac p.dstmac
  srcIp : Present flow.mask.srcIp flow.match.srcIp p.srcIp
  dstIp : Present flow.mask.dstIp flow.match.dstIp p.dstIp
  srcPort : Present flow.mask.srcPort flow.match.srcPort p.srcPort
  dstPort : Present flow.mask.dstPort flow.match.dstPort p.dstPort

structure MaskedEqual (flow : AccFlow) (p : Packet) : Prop where
  protocol : Agrees flow.mask.protocol flow.match.protocol p.protocol
  srcmac : Agrees flow.mask.srcmac flow.match.srcmac p.srcmac
  dstmac : Agrees flow.mask.dstmac flow.match.dstmac p.dstmac
  srcIp : Agrees flow.mask.srcIp flow.match.srcIp p.srcIp
  dstIp : Agrees flow.mask.dstIp flow.match.dstIp p.dstIp
  srcPort : Agrees flow.mask.srcPort flow.match.srcPort p.srcPort
  dstPort : Agrees flow.mask.dstPort flow.match.dstPort p.dstPort

theorem readMac_eq_iff (mac mac' : Mac) : readMac (printMac mac) = some mac' ↔ mac' = mac := by
  rw [readMac_printMac, Option.some_inj, eq_comm]

theorem readIp_eq_iff (ip ip' : BitVec 32) : readIp (printIp ip) = some ip' ↔ ip' = ip := by
  rw [readIp_printIp, Option.some_inj, eq_comm]

theorem readPort_eq_iff (port port' : BitVec 16) :
    readPort (printPort port) = some port' ↔ port' = port := by
  rw [readPort_printPort, Option.some_inj, eq_comm]

/-- The eight fields of a match text, with its two port tests and its protocol test. -/
theorem fields_hold_iff {p : Packet} {flow : AccFlow} {word srcKey dstKey : Text}
    (hword : wordHolds p (word ++ []) ↔ p.protocol = flow.match.protocol)
    (hsrc : ∀ v, wordHolds p (srcKey ++ v) = (readPort v = some p.srcPort : Bool))
    (hdst : ∀ v, wordHolds p (dstKey ++ v) = (readPort v = some p.dstPort : Bool)) :
    (∀ field ∈ matchFields flow word srcKey dstKey,
      field.isSet → wordHolds p (field.key ++ field.value)) ↔ Selects flow p := by
  have hip : wordHolds p ("ip".toList ++ []) := by rfl
  simp only [matchFields, List.forall_mem_cons, List.not_mem_nil, false_implies, implies_true,
    and_true]
  rw [wordHolds_keyed p (i := 0) rfl rfl, wordHolds_keyed p (i := 1) rfl rfl,
    wordHolds_keyed p (i := 2) rfl rfl, wordHolds_keyed p (i := 3) rfl rfl, hsrc, hdst, hword]
  simp only [decide_eq_true_eq, readMac_eq_iff, readIp_eq_iff, readPort_eq_iff]
  rw [isBeSet_mac, isBeSet_mac, isBeSet_word 4, isBeSet_word 4, isBeSet_word 2, isBeSet_word 2]
  constructor
  · rintro ⟨hsrcmac, hdstmac, _, hsrcIp, hdstIp, hprotocol, hsrcPort, hdstPort⟩
    exact ⟨hprotocol trivial, hsrcmac, hdstmac, hsrcIp, hdstIp, hsrcPort, hdstPort⟩
  · rintro ⟨hprotocol, hsrcmac, hdstmac, hsrcIp, hdstIp, hsrcPort, hdstPort⟩
    exact ⟨hsrcmac, hdstmac, fun _ => hip, hsrcIp, hdstIp, fun _ => hprotocol, hsrcPort, hdstPort⟩

/-- The emitted match text holds of exactly the packets the flow selects. -/
theorem satisfies_iff (hostid : BitVec 32) {flow : AccFlow} (h : Supported flow) (p : Packet) :
    Satisfies p (ruleOf hostid flow).match ↔ Selects flow p := by
  have htest : ∀ {i key test}, keyedTests[i]? = some (key, test) →
      (keyedTests.take i).all (fun t => differ t.1 key) → ∀ v,
      wordHolds p (key ++ v) = test p v := fun hi hfirst v => wordHolds_keyed p hi hfirst v
  unfold Satisfies
  rw [words_match, forall_keyedWords]
  by_cases htcp : flow.match.protocol = 6
  · rw [if_pos htcp]
    apply fields_hold_iff
    · rw [htcp]
      exact decide_eq_true_iff
    · exact htest (i := 4) rfl rfl
    · exact htest (i := 5) rfl rfl
  · rw [if_neg htcp]
    apply fields_hold_iff
    · rw [h.resolve_left htcp]
      exact decide_eq_true_iff
    · exact htest (i := 6) rfl rfl
    · exact htest (i := 7) rfl rfl

/-- Every mask of an address or a port is zero or full, and the protocol mask
tells TCP from UDP. -/
structure PresenceMasks (mask : AccMatch) : Prop where
  protocol : mask.protocol &&& 0x17 ≠ 0
  srcmac : mask.srcmac = Maskable.zeros ∨ mask.srcmac = Maskable.ones
  dstmac : mask.dstmac = Maskable.zeros ∨ mask.dstmac = Maskable.ones
  srcIp : mask.srcIp = Maskable.zeros ∨ mask.srcIp = Maskable.ones
  dstIp : mask.dstIp = Maskable.zeros ∨ mask.dstIp = Maskable.ones
  srcPort : mask.srcPort = Maskable.zeros ∨ mask.srcPort = Maskable.ones
  dstPort : mask.dstPort = Maskable.zeros ∨ mask.dstPort = Maskable.ones

theorem agrees_protocol_iff {mask pattern value : Byte} (hmask : mask &&& 0x17 ≠ 0)
    (hpattern : pattern = 6 ∨ pattern = 17) (hvalue : value = 6 ∨ value = 17) :
    value = pattern ↔ Agrees mask pattern value := by
  have hapart : ∀ m : Byte, 6 &&& m = 17 &&& m → m &&& 0x17 = 0 := by decide
  constructor
  · rintro rfl
    exact agrees_self mask value
  · intro hagrees
    have hand : value &&& mask = pattern &&& mask := hagrees
    rcases hvalue with rfl | rfl <;> rcases hpattern with rfl | rfl
    · rfl
    · exact absurd (hapart mask hand) hmask
    · exact absurd (hapart mask hand.symm) hmask
    · rfl

def Packet.ofFlow (flow : AccFlow) (h : Supported flow) : Packet where
  srcmac := flow.match.srcmac
  dstmac := flow.match.dstmac
  srcIp := flow.match.srcIp
  dstIp := flow.match.dstIp
  srcPort := flow.match.srcPort
  dstPort := flow.match.dstPort
  protocol := flow.match.protocol
  transport := h

theorem maskedEqual_ofFlow (flow : AccFlow) (h : Supported flow) :
    MaskedEqual flow (Packet.ofFlow flow h) :=
  ⟨rfl, rfl, rfl, rfl, rfl, rfl, rfl⟩

theorem selects_iff_maskedEqual {flow : AccFlow} (h : Supported flow)
    (hmask : PresenceMasks flow.mask) (p : Packet) : Selects flow p ↔ MaskedEqual flow p := by
  have hprotocol := agrees_protocol_iff hmask.protocol h p.transport
  constructor
  · intro hp
    exact ⟨hprotocol.mp hp.protocol, (present_iff_agrees hmask.srcmac _ _).mp hp.srcmac,
      (present_iff_agrees hmask.dstmac _ _).mp hp.dstmac,
      (present_iff_agrees hmask.srcIp _ _).mp hp.srcIp,
      (present_iff_agrees hmask.dstIp _ _).mp hp.dstIp,
      (present_iff_agrees hmask.srcPort _ _).mp hp.srcPort,
      (present_iff_agrees hmask.dstPort _ _).mp hp.dstPort⟩
  · intro hp
    exact ⟨hprotocol.mpr hp.protocol, (present_iff_agrees hmask.srcmac _ _).mpr hp.srcmac,
      (present_iff_agrees hmask.dstmac _ _).mpr hp.dstmac,
      (present_iff_agrees hmask.srcIp _ _).mpr hp.srcIp,
      (present_iff_agrees hmask.dstIp _ _).mpr hp.dstIp,
      (present_iff_agrees hmask.srcPort _ _).mpr hp.srcPort,
      (present_iff_agrees hmask.dstPort _ _).mpr hp.dstPort⟩

/-- A mask of another kind lets some packet agree that the flow does not select. -/
theorem presenceMasks_of_iff {flow : AccFlow} (h : Supported flow)
    (hiff : ∀ p, Selects flow p ↔ MaskedEqual flow p) : PresenceMasks flow.mask := by
  have hself := maskedEqual_ofFlow flow h
  refine ⟨?_, ?_, ?_, ?_, ?_, ?_, ?_⟩
  · intro hzero
    have hother : ∀ m : Byte, m &&& 0x17 = 0 → 6 &&& m = 17 &&& m := by decide
    rcases h with htcp | hudp
    · have hagrees : Agrees flow.mask.protocol flow.match.protocol 17 := by
        rw [htcp]
        exact (hother _ hzero).symm
      have hselects := (hiff { Packet.ofFlow flow (.inl htcp) with
        protocol := 17, transport := .inr rfl }).mpr { hself with protocol := hagrees }
      have hprotocol : (17 : Byte) = 6 := hselects.protocol.trans htcp
      exact absurd hprotocol (by decide)
    · have hagrees : Agrees flow.mask.protocol flow.match.protocol 6 := by
        rw [hudp]
        exact hother _ hzero
      have hselects := (hiff { Packet.ofFlow flow (.inr hudp) with
        protocol := 6, transport := .inl rfl }).mpr { hself with protocol := hagrees }
      have hprotocol : (6 : Byte) = 17 := hselects.protocol.trans hudp
      exact absurd hprotocol (by decide)
  · exact zeros_or_ones_of_agrees fun value hvalue => ((hiff { Packet.ofFlow flow h with
      srcmac := value }).mpr { hself with srcmac := hvalue }).srcmac
  · exact zeros_or_ones_of_agrees fun value hvalue => ((hiff { Packet.ofFlow flow h with
      dstmac := value }).mpr { hself with dstmac := hvalue }).dstmac
  · exact zeros_or_ones_of_agrees fun value hvalue => ((hiff { Packet.ofFlow flow h with
      srcIp := value }).mpr { hself with srcIp := hvalue }).srcIp
  · exact zeros_or_ones_of_agrees fun value hvalue => ((hiff { Packet.ofFlow flow h with
      dstIp := value }).mpr { hself with dstIp := hvalue }).dstIp
  · exact zeros_or_ones_of_agrees fun value hvalue => ((hiff { Packet.ofFlow flow h with
      srcPort := value }).mpr { hself with srcPort := hvalue }).srcPort
  · exact zeros_or_ones_of_agrees fun value hvalue => ((hiff { Packet.ofFlow flow h with
      dstPort := value }).mpr { hself with dstPort := hvalue }).dstPort

/-- The emitted text selects by protocol and by equality on the fields with a
non-zero mask. This is the masked comparison for all packets exactly when the
masks only say whether a field is present. No flow is refused for its masks. -/
theorem match_text_meaning (hostid : BitVec 32) (flow : AccFlow) :
    (accOvsBuildOfctlRule hostid flow = none ↔
      flow.match.protocol ≠ 6 ∧ flow.match.protocol ≠ 17) ∧
    ∀ rule, accOvsBuildOfctlRule hostid flow = some rule →
      (∀ p, Satisfies p rule.match ↔ Selects flow p) ∧
      ((∀ p, Satisfies p rule.match ↔ MaskedEqual flow p) ↔ PresenceMasks flow.mask) := by
  constructor
  · rw [accOvsBuildOfctlRule_eq]
    by_cases h : Supported flow
    · simp only [if_pos h, reduceCtorEq, false_iff, not_and_or, not_not]
      exact h
    · simp only [if_neg h, true_iff]
      exact not_or.mp h
  · intro rule hrule
    obtain ⟨h, rfl⟩ := build_eq_some_iff.mp hrule
    have hselects := satisfies_iff hostid h
    refine ⟨hselects, ?_⟩
    simp only [hselects]
    exact ⟨presenceMasks_of_iff h, selects_iff_maskedEqual h⟩

/-- A TCP flow on port 80 whose source port mask covers the low byte only. -/
def lowByteFlow : AccFlow :=
  { AccFlow.plain 6 with
    match.srcPort := 0x0050
    mask.srcPort := 0x00FF }

/-- A packet from port 0x0150 agrees with the flow under its mask and is not
selected by the emitted text, which asks for port 80. -/
theorem low_byte_mask_read_as_full :
    ∃ rule, accOvsBuildOfctlRule 0xDEAD0000 lowByteFlow = some rule ∧
      ¬ ∀ p, Satisfies p rule.match ↔ MaskedEqual lowByteFlow p := by
  have h : Supported lowByteFlow := by decide
  refine ⟨_, build_of_supported h, ?_⟩
  intro hiff
  have hlow : (0x0150 : BitVec 16) &&& 0x00FF = 0x0050 &&& 0x00FF := by decide
  have hmasked : MaskedEqual lowByteFlow { Packet.ofFlow lowByteFlow h with srcPort := 0x0150 } :=
    { maskedEqual_ofFlow lowByteFlow h with srcPort := hlow }
  have hselects := (satisfies_iff _ h _).mp ((hiff _).mpr hmasked)
  have hport : (0x0150 : BitVec 16) = 0x0050 := hselects.srcPort (by decide)
  exact absurd hport (by decide)

end BeLa.MatchMeaning
