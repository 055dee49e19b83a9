import BeLa.BridgeTenants
import BeLa.MakeFlow
import BeLa.Translation

/-!
The flows that the NAT pipeline offloads. For each packet that it translates the
pipeline builds a flow from the header as it came and the header as it will leave;
the rule of the flow is then taken for the later packets of the session. What a
rule does to a packet is read off the words of its action text.
-/
namespace BeLa.NatFlows

open LittleEndian KeyedWords BeLa.Flow OfctlRule Masks MatchMeaning UpdateText MakeFlow SharedBridge

/-! What the rule of a flow takes, and what it makes of a packet. -/

def Takes (e : Entry) (p : Packet) : Prop := ∀ w ∈ e.match, wordHolds p w

instance (e : Entry) (p : Packet) : Decidable (Takes e p) := by
  unfold Takes
  infer_instance

/-- One action of the switch; no action text has the last two. -/
def applyUpdate (p : Packet) : Update → Packet
  | .srcmac mac => { p with srcmac := mac }
  | .dstmac mac => { p with dstmac := mac }
  | .srcIp ip => { p with srcIp := ip }
  | .dstIp ip => { p with dstIp := ip }
  | .srcPort port => { p with srcPort := port }
  | .dstPort port => { p with dstPort := port }
  | .protocol _ => p
  | .dlType _ => p

def forward (reader : UpdateReader) (e : Entry) (p : Packet) : Packet :=
  (e.actions.filterMap reader.read).foldl applyUpdate p

theorem takes_iff {flow : AccFlow} (h : Supported flow) (p : Packet) :
    Takes (entryOfFlow flow) p ↔ Selects flow p :=
  satisfies_iff 0 h p

def applyWord (reader : UpdateReader) (p : Packet) (field : Keyed) : Packet :=
  if field.isSet then (reader.read (field.key ++ field.value)).elim p (applyUpdate p) else p

theorem foldl_keyedWords (reader : UpdateReader) (fields : List Keyed) (p : Packet) :
    ((keyedWords fields).filterMap reader.read).foldl applyUpdate p =
      fields.foldl (applyWord reader) p := by
  induction fields generalizing p with
  | nil => rfl
  | cons field fields ih =>
    rw [List.foldl_cons, ← ih, applyWord, keyedWords]
    by_cases hset : field.isSet
    · rw [List.filter_cons_of_pos hset, List.map_cons, List.filterMap_cons, if_pos hset]
      cases reader.read (field.key ++ field.value) with
      | none => rfl
      | some update => rfl
    · rw [List.filter_cons_of_neg hset, if_neg hset]
      rfl

theorem applyWord_some {reader : UpdateReader} {b : Bool} {key value : Numerals.Text}
    {update : Update} (h : reader.read (key ++ value) = some update) (p : Packet) :
    applyWord reader p ⟨b, key, value⟩ = if b then applyUpdate p update else p := by
  rw [applyWord, h]
  rfl

theorem applyWord_none {reader : UpdateReader} {b : Bool} {key : Numerals.Text}
    (h : reader.read key = none) (p : Packet) : applyWord reader p ⟨b, key, []⟩ = p := by
  rw [applyWord, List.append_nil, h]
  exact ite_self p

/-- The rule of a flow sets the fields that the flow flags, and no others. -/
theorem forward_eq (reader : UpdateReader) (flow : AccFlow) (p : Packet) :
    forward reader (entryOfFlow flow) p =
      { p with
        srcmac := if Flagged flow.action .srcmac then flow.action.srcmac else p.srcmac
        dstmac := if Flagged flow.action .dstmac then flow.action.dstmac else p.dstmac
        srcIp := if Flagged flow.action .srcIp then flow.action.srcIp else p.srcIp
        dstIp := if Flagged flow.action .dstIp then flow.action.dstIp else p.dstIp
        srcPort := if Flagged flow.action .srcPort then flow.action.srcPort else p.srcPort
        dstPort := if Flagged flow.action .dstPort then flow.action.dstPort else p.dstPort } := by
  have hactions : (entryOfFlow flow).actions = keyedWords (updateFields flow.action) :=
    words_actionText flow
  -- a field that is not flagged keeps its value
  have hite : ∀ (c : Prop) [Decidable c] (q q' : Packet), (if c then q else q') =
      { srcmac := if c then q.srcmac else q'.srcmac
        dstmac := if c then q.dstmac else q'.dstmac
        srcIp := if c then q.srcIp else q'.srcIp
        dstIp := if c then q.dstIp else q'.dstIp
        srcPort := if c then q.srcPort else q'.srcPort
        dstPort := if c then q.dstPort else q'.dstPort
        protocol := if c then q.protocol else q'.protocol
        transport := by
          split
          · exact q.transport
          · exact q'.transport } := by
    intro c _ q q'
    by_cases hc : c
    · simp [hc]
    · simp [hc]
  rw [forward, hactions, foldl_keyedWords, updateFields]
  simp only [List.foldl_cons, List.foldl_nil]
  rw [applyWord_none reader.actions, applyWord_some (reader.srcmac _),
    applyWord_some (reader.dstmac _), applyWord_some (reader.srcIp _),
    applyWord_some (reader.dstIp _), applyWord_some (reader.srcPort _),
    applyWord_some (reader.dstPort _), applyWord_none reader.output]
  simp only [hite, applyUpdate, ite_self]
  rfl

/-! The flows of the pipeline. -/

def rteBswap16 (x : BitVec 16) : BitVec 16 := wordOf 2 (wordBytes 2 x).reverse

def rteBswap32 (x : BitVec 32) : BitVec 32 := wordOf 4 (wordBytes 4 x).reverse

/-- The headers of a packet as it comes in; addresses and ports are words of the packet. -/
structure Header where
  ethSrc : Mac
  ethDest : Mac
  srcAddr : BitVec 32
  dstAddr : BitVec 32
  srcPort : BitVec 16
  dstPort : BitVec 16
  protocol : Byte
  deriving DecidableEq

structure NatEntry where
  prvIp : BitVec 32
  prvPort : BitVec 16
  pubIp : BitVec 32
  pubPort : BitVec 16
  deriving DecidableEq

/-- A packet that is translated: its headers, the MACs that it leaves with, and its entry. -/
structure Work where
  header : Header
  ethSrc : Mac
  ethDest : Mac
  entry : NatEntry
  deriving DecidableEq

/-- The flow of a packet: it matches the endpoint in the given fields, and updates these fields
to the translated endpoint. -/
def cgnatFlow (ip port : MatchField) (ipUpdate portUpdate : ActionField) (work : Work)
    (addr : BitVec 32) (currentPort : BitVec 16) (xlateAddr : BitVec 32) (xlatePort : BitVec 16) :
    AccFlow :=
  let flow := AccFlow.ofBytes (List.replicate AccFlow.size 0)
  let flow := accMatchFieldSet .srcmac work.header.ethSrc.bytes flow
  let flow := accMatchFieldSet .dstmac work.header.ethDest.bytes flow
  let flow := accMatchFieldSet ip (wordBytes 4 addr) flow
  let flow := accMatchFieldSet port (wordBytes 2 currentPort) flow
  let flow := accMatchFieldSet .protocol [work.header.protocol] flow
  let flow := accActionFieldSet .srcmac work.ethSrc.bytes flow
  let flow := accActionFieldSet .dstmac work.ethDest.bytes flow
  let flow := accActionFieldSet ipUpdate (wordBytes 4 xlateAddr) flow
  accActionFieldSet portUpdate (wordBytes 2 xlatePort) flow

/-- The flow that `pkt_work_cgnapt_ipv4_prv` and `pkt4_work_cgnapt_ipv4_prv` build. -/
def pktWorkCgnaptIpv4Prv (work : Work) : AccFlow :=
  cgnatFlow .srcIp .srcPort .srcIp .srcPort work work.header.srcAddr
    (rteBswap16 work.header.srcPort) (rteBswap32 work.entry.pubIp) work.entry.pubPort

/-- The flow that `pkt_work_cgnapt_ipv4_pub` and `pkt4_work_cgnapt_ipv4_pub` build. -/
def pktWorkCgnaptIpv4Pub (work : Work) : AccFlow :=
  cgnatFlow .dstIp .dstPort .dstIp .dstPort work work.header.dstAddr
    (rteBswap16 work.header.dstPort) (rteBswap32 work.entry.prvIp) work.entry.prvPort

/-- An endpoint, with the address in the order of the packet and the port as a number. -/
structure Endpoint where
  addr : BitVec 32
  port : BitVec 16
  protocol : Byte
  deriving DecidableEq

def srcOf (p : Packet) : Endpoint := ⟨p.srcIp, p.srcPort, p.protocol⟩

def dstOf (p : Packet) : Endpoint := ⟨p.dstIp, p.dstPort, p.protocol⟩

def Header.src (header : Header) : Endpoint :=
  ⟨header.srcAddr, rteBswap16 header.srcPort, header.protocol⟩

def Header.dst (header : Header) : Endpoint :=
  ⟨header.dstAddr, rteBswap16 header.dstPort, header.protocol⟩

def NatEntry.inside (entry : NatEntry) (protocol : Byte) : Endpoint :=
  ⟨rteBswap32 entry.prvIp, entry.prvPort, protocol⟩

def NatEntry.outside (entry : NatEntry) (protocol : Byte) : Endpoint :=
  ⟨rteBswap32 entry.pubIp, entry.pubPort, protocol⟩

variable {work work' : Work} {reader : UpdateReader} {p : Packet}

theorem prv_eq (work : Work) : pktWorkCgnaptIpv4Prv work =
    { «match» := ⟨work.header.ethSrc, work.header.ethDest, work.header.srcAddr, 0,
        rteBswap16 work.header.srcPort, 0, work.header.protocol, 0, 0, 0⟩
      mask := ⟨Maskable.ones, Maskable.ones, Maskable.ones, 0, Maskable.ones, 0, 0xFF, 0, 0, 0⟩
      action := ⟨0, actionFieldSrcmac ||| actionFieldDstmac ||| actionFieldSrcIp |||
        actionFieldSrcPort, work.ethSrc, work.ethDest, rteBswap32 work.entry.pubIp, 0,
        work.entry.pubPort, 0, 0, 0, 0⟩ } := by
  have haddr := wordOf_self 4 work.header.srcAddr
  have hport := wordOf_self 2 (rteBswap16 work.header.srcPort)
  have hxlateAddr := wordOf_self 4 (rteBswap32 work.entry.pubIp)
  have hxlatePort := wordOf_self 2 work.entry.pubPort
  simp only [pktWorkCgnaptIpv4Prv, cgnatFlow, accMatchFieldSet, accActionFieldSet, storeMatch,
    storeAction, haddr, hport, hxlateAddr, hxlatePort]
  rfl

theorem pub_eq (work : Work) : pktWorkCgnaptIpv4Pub work =
    { «match» := ⟨work.header.ethSrc, work.header.ethDest, 0, work.header.dstAddr, 0,
        rteBswap16 work.header.dstPort, work.header.protocol, 0, 0, 0⟩
      mask := ⟨Maskable.ones, Maskable.ones, 0, Maskable.ones, 0, Maskable.ones, 0xFF, 0, 0, 0⟩
      action := ⟨0, actionFieldSrcmac ||| actionFieldDstmac ||| actionFieldDstIp |||
        actionFieldDstPort, work.ethSrc, work.ethDest, 0, rteBswap32 work.entry.prvIp, 0,
        work.entry.prvPort, 0, 0, 0⟩ } := by
  have haddr := wordOf_self 4 work.header.dstAddr
  have hport := wordOf_self 2 (rteBswap16 work.header.dstPort)
  have hxlateAddr := wordOf_self 4 (rteBswap32 work.entry.prvIp)
  have hxlatePort := wordOf_self 2 work.entry.prvPort
  simp only [pktWorkCgnaptIpv4Pub, cgnatFlow, accMatchFieldSet, accActionFieldSet, storeMatch,
    storeAction, haddr, hport, hxlateAddr, hxlatePort]
  rfl

/-- The rule for a private packet is taken for the packets of its source, with its MACs. -/
theorem takes_prv (h : Supported (pktWorkCgnaptIpv4Prv work)) :
    Takes (entryOfFlow (pktWorkCgnaptIpv4Prv work)) p ↔
      p.srcmac = work.header.ethSrc ∧ p.dstmac = work.header.ethDest ∧
        srcOf p = work.header.src := by
  have hmac : (Maskable.ones : Mac) ≠ Maskable.zeros := by decide
  have hword : (Maskable.ones : BitVec 32) ≠ Maskable.zeros := by decide
  have hport : (Maskable.ones : BitVec 16) ≠ Maskable.zeros := by decide
  rw [takes_iff h, prv_eq, srcOf, Header.src, Endpoint.mk.injEq]
  constructor
  · intro hselects
    exact ⟨hselects.srcmac hmac, hselects.dstmac hmac, hselects.srcIp hword,
      hselects.srcPort hport, hselects.protocol⟩
  · rintro ⟨hsrcmac, hdstmac, haddr, hsrcPort, hprotocol⟩
    exact ⟨hprotocol, fun _ => hsrcmac, fun _ => hdstmac, fun _ => haddr,
      fun hne => absurd rfl hne, fun _ => hsrcPort, fun hne => absurd rfl hne⟩

theorem takes_pub (h : Supported (pktWorkCgnaptIpv4Pub work)) :
    Takes (entryOfFlow (pktWorkCgnaptIpv4Pub work)) p ↔
      p.srcmac = work.header.ethSrc ∧ p.dstmac = work.header.ethDest ∧
        dstOf p = work.header.dst := by
  have hmac : (Maskable.ones : Mac) ≠ Maskable.zeros := by decide
  have hword : (Maskable.ones : BitVec 32) ≠ Maskable.zeros := by decide
  have hport : (Maskable.ones : BitVec 16) ≠ Maskable.zeros := by decide
  rw [takes_iff h, pub_eq, dstOf, Header.dst, Endpoint.mk.injEq]
  constructor
  · intro hselects
    exact ⟨hselects.srcmac hmac, hselects.dstmac hmac, hselects.dstIp hword,
      hselects.dstPort hport, hselects.protocol⟩
  · rintro ⟨hsrcmac, hdstmac, haddr, hdstPort, hprotocol⟩
    exact ⟨hprotocol, fun _ => hsrcmac, fun _ => hdstmac, fun hne => absurd rfl hne,
      fun _ => haddr, fun hne => absurd rfl hne, fun _ => hdstPort⟩

theorem flagged_iff (action : AccAction) (field : ActionField) :
    Flagged action field ↔ action.fieldMask &&& field.bit ≠ 0 := decide_eq_true_iff

theorem flagged_prv (work : Work) (field : ActionField) :
    Flagged (pktWorkCgnaptIpv4Prv work).action field ↔
      field ∈ [ActionField.srcmac, .dstmac, .srcIp, .srcPort] := by
  rw [flagged_iff, prv_eq]
  dsimp only
  cases field
  all_goals decide

theorem flagged_pub (work : Work) (field : ActionField) :
    Flagged (pktWorkCgnaptIpv4Pub work).action field ↔
      field ∈ [ActionField.srcmac, .dstmac, .dstIp, .dstPort] := by
  rw [flagged_iff, pub_eq]
  dsimp only
  cases field
  all_goals decide

/-- It gives the packet the public endpoint of the entry, and the MACs it is to leave with. -/
theorem forward_prv (work : Work) (p : Packet) :
    forward reader (entryOfFlow (pktWorkCgnaptIpv4Prv work)) p =
      { p with
        srcmac := work.ethSrc
        dstmac := work.ethDest
        srcIp := rteBswap32 work.entry.pubIp
        srcPort := work.entry.pubPort } := by
  rw [forward_eq]
  simp only [flagged_prv]
  simp [prv_eq]

theorem forward_pub (work : Work) (p : Packet) :
    forward reader (entryOfFlow (pktWorkCgnaptIpv4Pub work)) p =
      { p with
        srcmac := work.ethSrc
        dstmac := work.ethDest
        dstIp := rteBswap32 work.entry.prvIp
        dstPort := work.entry.prvPort } := by
  rw [forward_eq]
  simp only [flagged_pub]
  simp [pub_eq]

end BeLa.NatFlows
