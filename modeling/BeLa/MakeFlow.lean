import BeLa.MatchMeaning
import BeLa.UpdateText

/-!
The flow that `cgnat_accelerate_make_flow` builds. The setter macros copy from the
address of their argument. An array parameter is a pointer, so for the four MACs the
bytes that are copied are those of the pointer and not those of the array; the flow
depends on where the arrays stand and not on what is in them.
-/
namespace BeLa.MakeFlow

open LittleEndian BeLa.Flow OfctlRule CommandLine Masks MatchMeaning UpdateText

inductive MatchField
  | srcmac
  | dstmac
  | srcIp
  | dstIp
  | srcPort
  | dstPort
  | protocol
  deriving DecidableEq, Repr

def MatchField.size : MatchField → ℕ
  | .srcmac => 6
  | .dstmac => 6
  | .srcIp => 4
  | .dstIp => 4
  | .srcPort => 2
  | .dstPort => 2
  | .protocol => 1

def storeMatch (field : MatchField) (src : Bytes) (m : AccMatch) : AccMatch :=
  match field with
  | .srcmac => { m with srcmac := Mac.ofBytes src }
  | .dstmac => { m with dstmac := Mac.ofBytes src }
  | .srcIp => { m with srcIp := wordOf 4 src }
  | .dstIp => { m with dstIp := wordOf 4 src }
  | .srcPort => { m with srcPort := wordOf 2 src }
  | .dstPort => { m with dstPort := wordOf 2 src }
  | .protocol => { m with protocol := src.getD 0 0 }

def storeAction (field : ActionField) (src : Bytes) (action : AccAction) : AccAction :=
  match field with
  | .srcmac => { action with srcmac := Mac.ofBytes src }
  | .dstmac => { action with dstmac := Mac.ofBytes src }
  | .srcIp => { action with srcIp := wordOf 4 src }
  | .dstIp => { action with dstIp := wordOf 4 src }
  | .srcPort => { action with srcPort := wordOf 2 src }
  | .dstPort => { action with dstPort := wordOf 2 src }
  | .protocol => { action with protocol := src.getD 0 0 }
  | .dlType => { action with dlType := wordOf 2 src }

/-- `acc_match_field_set`; `src` is the memory at the address of its last argument. -/
def accMatchFieldSet (field : MatchField) (src : Bytes) (flow : AccFlow) : AccFlow :=
  { flow with
    «match» := storeMatch field src flow.match
    mask := storeMatch field (List.replicate field.size 0xFF) flow.mask }

def accActionFieldSet (field : ActionField) (src : Bytes) (flow : AccFlow) : AccFlow :=
  let action := storeAction field src flow.action
  { flow with action := { action with fieldMask := action.fieldMask ||| field.bit } }

/-- The parameters; those declared as arrays of six bytes are addresses. -/
structure MakeArgs where
  srcmac : BitVec 64
  dstmac : BitVec 64
  srcIp : BitVec 32
  srcPort : BitVec 16
  protocol : Byte
  xlateSrcIp : BitVec 32
  xlateSrcPort : BitVec 16
  xlateSrcmac : BitVec 64
  xlateDstmac : BitVec 64
  deriving DecidableEq, Repr

def cgnatAccelerateMakeFlow (args : MakeArgs) : AccFlow :=
  let flow := AccFlow.ofBytes (List.replicate AccFlow.size 0)
  let flow := accMatchFieldSet .srcmac (wordBytes 8 args.srcmac) flow
  let flow := accMatchFieldSet .dstmac (wordBytes 8 args.dstmac) flow
  let flow := accMatchFieldSet .srcIp (wordBytes 4 args.srcIp) flow
  let flow := accMatchFieldSet .srcPort (wordBytes 2 args.srcPort) flow
  let flow := accMatchFieldSet .protocol [args.protocol] flow
  let flow := accActionFieldSet .srcmac (wordBytes 8 args.xlateSrcmac) flow
  let flow := accActionFieldSet .dstmac (wordBytes 8 args.xlateDstmac) flow
  let flow := accActionFieldSet .srcIp (wordBytes 4 args.xlateSrcIp) flow
  accActionFieldSet .srcPort (wordBytes 2 args.xlateSrcPort) flow

abbrev Memory := BitVec 64 → Byte

def macAt (memory : Memory) (address : BitVec 64) : Mac where
  b0 := memory address
  b1 := memory (address + 1)
  b2 := memory (address + 2)
  b3 := memory (address + 3)
  b4 := memory (address + 4)
  b5 := memory (address + 5)

def lowBytes (address : BitVec 64) : Mac := Mac.ofBytes (wordBytes 8 address)

/-- The flow of a session: its match, full masks for the fields of the match that are given,
and the updates to the translated values. -/
def natFlow (srcmac dstmac xlateSrcmac xlateDstmac : Mac) (args : MakeArgs) : AccFlow where
  «match» := ⟨srcmac, dstmac, args.srcIp, 0, args.srcPort, 0, args.protocol, 0, 0, 0⟩
  mask := ⟨Maskable.ones, Maskable.ones, Maskable.ones, 0, Maskable.ones, 0, 0xFF, 0, 0, 0⟩
  action := ⟨0, actionFieldSrcmac ||| actionFieldDstmac ||| actionFieldSrcIp |||
    actionFieldSrcPort, xlateSrcmac, xlateDstmac, args.xlateSrcIp, 0, args.xlateSrcPort, 0, 0, 0, 0⟩

theorem wordOf_self (k : ℕ) (x : BitVec (8 * k)) : wordOf k (wordBytes k x) = x := by
  have h := wordOf_wordBytes k x []
  rwa [List.append_nil] at h

/-- What is built has the low bytes of the addresses in the place of the MACs. -/
theorem makeFlow_eq (args : MakeArgs) :
    cgnatAccelerateMakeFlow args =
      natFlow (lowBytes args.srcmac) (lowBytes args.dstmac) (lowBytes args.xlateSrcmac)
        (lowBytes args.xlateDstmac) args := by
  have hsrcIp := wordOf_self 4 args.srcIp
  have hsrcPort := wordOf_self 2 args.srcPort
  have hxlateIp := wordOf_self 4 args.xlateSrcIp
  have hxlatePort := wordOf_self 2 args.xlateSrcPort
  simp only [cgnatAccelerateMakeFlow, accMatchFieldSet, accActionFieldSet, storeMatch, storeAction,
    hsrcIp, hsrcPort, hxlateIp, hxlatePort]
  rfl

/-! What was meant. -/

/-- The match and the updates hold the values that are given, those of the MACs being in
memory; the masks of the five fields of the match are full. -/
structure Built (memory : Memory) (args : MakeArgs) (flow : AccFlow) : Prop where
  srcmac : flow.match.srcmac = macAt memory args.srcmac
  dstmac : flow.match.dstmac = macAt memory args.dstmac
  srcIp : flow.match.srcIp = args.srcIp
  srcPort : flow.match.srcPort = args.srcPort
  protocol : flow.match.protocol = args.protocol
  macMasks : flow.mask.srcmac = Maskable.ones ∧ flow.mask.dstmac = Maskable.ones
  srcMasks : flow.mask.srcIp = Maskable.ones ∧ flow.mask.srcPort = Maskable.ones
  protocolMask : flow.mask.protocol = Maskable.ones
  dstMasks : flow.mask.dstIp = Maskable.zeros ∧ flow.mask.dstPort = Maskable.zeros
  fieldMask : flow.action.fieldMask =
    actionFieldSrcmac ||| actionFieldDstmac ||| actionFieldSrcIp ||| actionFieldSrcPort
  xlateSrcmac : flow.action.srcmac = macAt memory args.xlateSrcmac
  xlateDstmac : flow.action.dstmac = macAt memory args.xlateDstmac
  xlateSrcIp : flow.action.srcIp = args.xlateSrcIp
  xlateSrcPort : flow.action.srcPort = args.xlateSrcPort

/-- Two calls are given the same values, wherever their arrays stand. -/
structure SameValues (memory memory' : Memory) (args args' : MakeArgs) : Prop where
  srcmac : macAt memory args.srcmac = macAt memory' args'.srcmac
  dstmac : macAt memory args.dstmac = macAt memory' args'.dstmac
  srcIp : args.srcIp = args'.srcIp
  srcPort : args.srcPort = args'.srcPort
  protocol : args.protocol = args'.protocol
  xlateSrcIp : args.xlateSrcIp = args'.xlateSrcIp
  xlateSrcPort : args.xlateSrcPort = args'.xlateSrcPort
  xlateSrcmac : macAt memory args.xlateSrcmac = macAt memory' args'.xlateSrcmac
  xlateDstmac : macAt memory args.xlateDstmac = macAt memory' args'.xlateDstmac

def MakeArgs.addresses (args : MakeArgs) : List (BitVec 64) :=
  [args.srcmac, args.dstmac, args.xlateSrcmac, args.xlateDstmac]

theorem built_makeFlow_iff (memory : Memory) (args : MakeArgs) :
    Built memory args (cgnatAccelerateMakeFlow args) ↔
      ∀ address ∈ args.addresses, macAt memory address = lowBytes address := by
  rw [makeFlow_eq]
  simp only [MakeArgs.addresses, List.forall_mem_cons, List.not_mem_nil, false_implies,
    implies_true, and_true]
  constructor
  · intro h
    exact ⟨h.srcmac.symm, h.dstmac.symm, h.xlateSrcmac.symm, h.xlateDstmac.symm⟩
  · rintro ⟨hsrcmac, hdstmac, hxlateSrcmac, hxlateDstmac⟩
    exact ⟨hsrcmac.symm, hdstmac.symm, rfl, rfl, rfl, ⟨rfl, rfl⟩, ⟨rfl, rfl⟩, rfl, ⟨rfl, rfl⟩, rfl,
      hxlateSrcmac.symm, hxlateDstmac.symm, rfl, rfl⟩

theorem makeFlow_eq_iff {memory memory' : Memory} {args args' : MakeArgs}
    (h : SameValues memory memory' args args') :
    cgnatAccelerateMakeFlow args = cgnatAccelerateMakeFlow args' ↔
      args.addresses.map lowBytes = args'.addresses.map lowBytes := by
  rw [makeFlow_eq, makeFlow_eq]
  simp only [natFlow, MakeArgs.addresses, List.map_cons, List.map_nil, AccFlow.mk.injEq,
    AccMatch.mk.injEq, AccAction.mk.injEq, List.cons.injEq, h.srcIp, h.srcPort, h.protocol,
    h.xlateSrcIp, h.xlateSrcPort, and_true, true_and]
  tauto

/-- The flow is the one that was meant exactly when each of the four arrays holds the low
bytes of its own address, and calls with the same values build the same flow exactly when
the low bytes of the addresses agree. -/
theorem make_flow_by_address (memory memory' : Memory) (args args' : MakeArgs) :
    (Built memory args (cgnatAccelerateMakeFlow args) ↔
        ∀ address ∈ args.addresses, macAt memory address = lowBytes address) ∧
      (SameValues memory memory' args args' →
        (cgnatAccelerateMakeFlow args = cgnatAccelerateMakeFlow args' ↔
          args.addresses.map lowBytes = args'.addresses.map lowBytes)) :=
  ⟨built_makeFlow_iff memory args, makeFlow_eq_iff⟩

def letters (start : BitVec 64) : Memory := fun address => (address - start).setWidth 8 + 0x61

/-- The MACs at one address of the stack. -/
def stackArgs (address : BitVec 64) : MakeArgs :=
  ⟨address, address, 3, 4, 6, 6, 7, address, address⟩

/-- Two calls are given the same letters at two addresses, and build two flows. -/
theorem make_flow_by_address_moved :
    SameValues (letters 0x7FFC00001000) (letters 0x7FFC00002000) (stackArgs 0x7FFC00001000)
      (stackArgs 0x7FFC00002000) ∧
    cgnatAccelerateMakeFlow (stackArgs 0x7FFC00001000) ≠
      cgnatAccelerateMakeFlow (stackArgs 0x7FFC00002000) := by
  have hsame : SameValues (letters 0x7FFC00001000) (letters 0x7FFC00002000)
      (stackArgs 0x7FFC00001000) (stackArgs 0x7FFC00002000) := by
    constructor <;> decide
  refine ⟨hsame, fun hflows => ?_⟩
  have hbytes := ((make_flow_by_address _ _ _ _).2 hsame).mp hflows
  exact absurd hbytes (by decide)

/-- The flow of a call does not hold the letters that its arrays hold. -/
theorem make_flow_copies_pointer : ¬ ∀ (memory : Memory) (args : MakeArgs),
    Built memory args (cgnatAccelerateMakeFlow args) := by
  intro hall
  have hsrcmac := (hall (letters 0x7FFC00001000) (stackArgs 0x7FFC00001000)).srcmac
  exact absurd hsrcmac (by decide)

/-! The rule of a flow that is built. -/

theorem presenceMasks_makeFlow (args : MakeArgs) :
    PresenceMasks (cgnatAccelerateMakeFlow args).mask := by
  have hprotocol : (0xFF : Byte) &&& 0x17 ≠ 0 := by decide
  rw [makeFlow_eq]
  exact ⟨hprotocol, .inr rfl, .inr rfl, .inr rfl, .inl rfl, .inr rfl, .inl rfl⟩

/-- The rule of a flow that is built tests the MACs of a packet for the low bytes of the
addresses. -/
theorem satisfies_makeFlow (hostid : BitVec 32) {args : MakeArgs}
    (h : args.protocol = 6 ∨ args.protocol = 17) (p : Packet) :
    Satisfies p (ruleOf hostid (cgnatAccelerateMakeFlow args)).match ↔
      p.protocol = args.protocol ∧ p.srcmac = lowBytes args.srcmac ∧
        p.dstmac = lowBytes args.dstmac ∧ p.srcIp = args.srcIp ∧ p.srcPort = args.srcPort := by
  have hsupported : Supported (cgnatAccelerateMakeFlow args) := by
    rw [makeFlow_eq]
    exact h
  rw [satisfies_iff hostid hsupported, makeFlow_eq]
  have hmac : (Maskable.ones : Mac) ≠ Maskable.zeros := by decide
  have hword : (Maskable.ones : BitVec 32) ≠ Maskable.zeros := by decide
  have hport : (Maskable.ones : BitVec 16) ≠ Maskable.zeros := by decide
  constructor
  · intro hselects
    exact ⟨hselects.protocol, hselects.srcmac hmac, hselects.dstmac hmac, hselects.srcIp hword,
      hselects.srcPort hport⟩
  · intro h
    obtain ⟨hprotocol, hsrcmac, hdstmac, hsrcIp, hsrcPort⟩ := h
    -- the masks of the destination ask for nothing
    exact ⟨hprotocol, fun _ => hsrcmac, fun _ => hdstmac, fun _ => hsrcIp,
      fun hne => absurd rfl hne, fun _ => hsrcPort, fun hne => absurd rfl hne⟩

end BeLa.MakeFlow
