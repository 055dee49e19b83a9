import BeLa.NatFlows
import BeLa.Requests

/-!
The bridge of a NAT. Whatever messages, failures and other cards come between, the
rules that a VNF holds on the bridge translate the packets they are taken for as
its table says, and the replies to these packets back; and no two of its rules
treat a packet differently, unless it goes from one inner endpoint to another
through the outside.
-/
namespace BeLa.NatBridge

open Runs PartialTransfer Framing Receiving BeLa.Flow OfctlRule MatchMeaning UpdateText Switch
open Context Execute Card Channel Command Client Steps Invariant Ledger Tenancy SharedBridge
open BridgeTenants Translation NatFlows

inductive Offloaded (table : Translator Endpoint Endpoint) : AccFlow → Prop
  | prv (work : Work) :
      (work.header.src, work.entry.outside work.header.protocol) ∈ table.sessions →
      Offloaded table (pktWorkCgnaptIpv4Prv work)
  | pub (work : Work) :
      (work.entry.inside work.header.protocol, work.header.dst) ∈ table.sessions →
      Offloaded table (pktWorkCgnaptIpv4Pub work)

def Translates (table : Translator Endpoint Endpoint) (p p' : Packet) : Prop :=
  (table.outbound (srcOf p) = some (srcOf p') ∧ dstOf p' = dstOf p) ∨
    (table.inbound (dstOf p) = some (dstOf p') ∧ srcOf p' = srcOf p)

variable {table : Translator Endpoint Endpoint} {reader : UpdateReader} {flow flow' : AccFlow}
  {p : Packet}

theorem translates_prv (reader : UpdateReader) {work : Work}
    (hsession : (work.header.src, work.entry.outside work.header.protocol) ∈ table.sessions)
    (hflow : Supported (pktWorkCgnaptIpv4Prv work))
    (htakes : Takes (entryOfFlow (pktWorkCgnaptIpv4Prv work)) p) :
    table.outbound (srcOf p) =
        some (srcOf (forward reader (entryOfFlow (pktWorkCgnaptIpv4Prv work)) p)) ∧
      dstOf (forward reader (entryOfFlow (pktWorkCgnaptIpv4Prv work)) p) = dstOf p := by
  obtain ⟨-, -, hsrc⟩ := (takes_prv hflow).mp htakes
  have hprotocol : p.protocol = work.header.protocol := congrArg Endpoint.protocol hsrc
  rw [forward_prv]
  refine ⟨?_, rfl⟩
  rw [Translator.outbound_eq_some_iff, hsrc]
  simp only [srcOf, hprotocol]
  exact hsession

theorem translates_pub (reader : UpdateReader) {work : Work}
    (hsession : (work.entry.inside work.header.protocol, work.header.dst) ∈ table.sessions)
    (hflow : Supported (pktWorkCgnaptIpv4Pub work))
    (htakes : Takes (entryOfFlow (pktWorkCgnaptIpv4Pub work)) p) :
    table.inbound (dstOf p) =
        some (dstOf (forward reader (entryOfFlow (pktWorkCgnaptIpv4Pub work)) p)) ∧
      srcOf (forward reader (entryOfFlow (pktWorkCgnaptIpv4Pub work)) p) = srcOf p := by
  obtain ⟨-, -, hdst⟩ := (takes_pub hflow).mp htakes
  have hprotocol : p.protocol = work.header.protocol := congrArg Endpoint.protocol hdst
  rw [forward_pub]
  refine ⟨?_, rfl⟩
  rw [Translator.inbound_eq_some_iff, hdst]
  simp only [dstOf, hprotocol]
  exact hsession

theorem translates_of_takes (reader : UpdateReader) (hoff : Offloaded table flow)
    (hflow : Supported flow) (htakes : Takes (entryOfFlow flow) p) :
    Translates table p (forward reader (entryOfFlow flow) p) := by
  cases hoff with
  | prv work hsession => exact .inl (translates_prv reader hsession hflow htakes)
  | pub work hsession => exact .inr (translates_pub reader hsession hflow htakes)

/-- The actions of a flow are no part of what tells its rule apart. -/
theorem matchKey_congr (hmatch : flow.match = flow'.match) (hmask : flow.mask = flow'.mask) :
    matchKey (entryOfFlow flow) = matchKey (entryOfFlow flow') := by
  obtain ⟨pattern, mask, action⟩ := flow
  obtain ⟨pattern', mask', action'⟩ := flow'
  obtain rfl : pattern = pattern' := hmatch
  obtain rfl : mask = mask' := hmask
  rfl

/-- Two rules for private packets that are taken for one packet have one match. -/
theorem matchKey_prv {work work' : Work} (hflow : Supported (pktWorkCgnaptIpv4Prv work))
    (hflow' : Supported (pktWorkCgnaptIpv4Prv work'))
    (htakes : Takes (entryOfFlow (pktWorkCgnaptIpv4Prv work)) p)
    (htakes' : Takes (entryOfFlow (pktWorkCgnaptIpv4Prv work')) p) :
    matchKey (entryOfFlow (pktWorkCgnaptIpv4Prv work)) =
      matchKey (entryOfFlow (pktWorkCgnaptIpv4Prv work')) := by
  obtain ⟨hsrcmac, hdstmac, hsrc⟩ := (takes_prv hflow).mp htakes
  obtain ⟨hsrcmac', hdstmac', hsrc'⟩ := (takes_prv hflow').mp htakes'
  obtain ⟨haddr, hport, hprotocol⟩ := Endpoint.mk.inj (hsrc.symm.trans hsrc')
  apply matchKey_congr
  · rw [prv_eq, prv_eq, ← hsrcmac, ← hsrcmac', ← hdstmac, ← hdstmac', haddr, hport, hprotocol]
  · rw [prv_eq, prv_eq]

theorem matchKey_pub {work work' : Work} (hflow : Supported (pktWorkCgnaptIpv4Pub work))
    (hflow' : Supported (pktWorkCgnaptIpv4Pub work'))
    (htakes : Takes (entryOfFlow (pktWorkCgnaptIpv4Pub work)) p)
    (htakes' : Takes (entryOfFlow (pktWorkCgnaptIpv4Pub work')) p) :
    matchKey (entryOfFlow (pktWorkCgnaptIpv4Pub work)) =
      matchKey (entryOfFlow (pktWorkCgnaptIpv4Pub work')) := by
  obtain ⟨hsrcmac, hdstmac, hdst⟩ := (takes_pub hflow).mp htakes
  obtain ⟨hsrcmac', hdstmac', hdst'⟩ := (takes_pub hflow').mp htakes'
  obtain ⟨haddr, hport, hprotocol⟩ := Endpoint.mk.inj (hdst.symm.trans hdst')
  apply matchKey_congr
  · rw [pub_eq, pub_eq, ← hsrcmac, ← hsrcmac', ← hdstmac, ← hdstmac', haddr, hport, hprotocol]
  · rw [pub_eq, pub_eq]

/-- A packet from an inner endpoint of the table to an outer one. -/
def Hairpin (table : Translator Endpoint Endpoint) (p : Packet) : Prop :=
  (table.outbound (srcOf p)).isSome ∧ (table.inbound (dstOf p)).isSome

/-- Two rules that are taken for one packet have one match, except for a hairpin. -/
theorem matchKey_of_takes (hoff : Offloaded table flow) (hoff' : Offloaded table flow')
    (hflow : Supported flow) (hflow' : Supported flow') (htakes : Takes (entryOfFlow flow) p)
    (htakes' : Takes (entryOfFlow flow') p) (hhairpin : ¬ Hairpin table p) :
    matchKey (entryOfFlow flow) = matchKey (entryOfFlow flow') := by
  cases hoff with
  | prv work hsession =>
    cases hoff' with
    | prv work' hsession' => exact matchKey_prv hflow hflow' htakes htakes'
    | pub work' hsession' =>
      have hout := (translates_prv ofctlReader hsession hflow htakes).1
      have hin := (translates_pub ofctlReader hsession' hflow' htakes').1
      exact absurd ⟨Option.isSome_of_eq_some hout, Option.isSome_of_eq_some hin⟩ hhairpin
  | pub work hsession =>
    cases hoff' with
    | prv work' hsession' =>
      have hout := (translates_prv ofctlReader hsession' hflow' htakes').1
      have hin := (translates_pub ofctlReader hsession hflow htakes).1
      exact absurd ⟨Option.isSome_of_eq_some hout, Option.isSome_of_eq_some hin⟩ hhairpin
    | pub work' hsession' => exact matchKey_pub hflow hflow' htakes htakes'

/-! What a card has put on the bridge. -/

/-- The flows of a batch that a round delivers for the card have the property. -/
def Delivers (F : AccFlow → Prop) (k : ℕ) (s : Daemon) : DaemonEvent → Prop
  | .command _ _ _ => True
  | .readable event d => ∀ e ∈ s.events, e.id = event → e.arg = k → ∀ msg,
      receivedMessage d = some msg → msg.hdr.msgType = accUnixAddFlows →
      ∀ flow ∈ flowsOf (msg.body.length / AccFlow.size) msg.body, F flow

theorem put_of_loop {w : World} {context : AccContext} {k k' i : ℕ} {flows : List AccFlow}
    {e : Entry} (h : Act.put k e ∈ loopActs w context k' i flows) :
    ∃ flow ∈ flows, e = entryOfFlow flow := by
  induction flows generalizing i with
  | nil => cases h
  | cons flow flows ih =>
    unfold loopActs at h
    split at h
    · rcases List.mem_append.mp h with hput | hrest
      · split at hput
        · obtain heq := List.mem_singleton.mp hput
          exact ⟨flow, List.mem_cons_self, (Act.put.inj heq).2⟩
        · cases hput
      · obtain ⟨other, hother, he⟩ := ih hrest
        exact ⟨other, List.mem_cons_of_mem _ hother, he⟩
    · split at h
      · cases List.mem_singleton.mp h
      · cases h

theorem not_put_of_end {w : World} {card : BeCardInner} {k : ℕ} {e : Entry} :
    Act.put k e ∉ endActs w card := by
  unfold endActs endAct
  split
  · exact List.not_mem_nil
  · rw [List.mem_singleton]
    split <;> simp

theorem put_of_message {w : World} {card : BeCardInner} {msg : Framing.Message} {k : ℕ}
    {e : Entry} (h : Act.put k e ∈ messageActs w card msg) :
    msg.hdr.msgType = accUnixAddFlows ∧
      ∃ flow ∈ flowsOf (msg.body.length / AccFlow.size) msg.body,
        Supported flow ∧ e = entryOfFlow flow := by
  unfold messageActs at h
  split at h
  · unfold helloActs at h
    split at h <;> simp at h
  · split at h
    · rename_i htype
      refine ⟨htype, ?_⟩
      unfold addActs batchActs at h
      split at h
      · cases h
      · split at h
        · split at h
          · rename_i hbuilt
            obtain ⟨flow, hflow, he⟩ := put_of_loop h
            exact ⟨flow, hflow, hbuilt.2 flow hflow, he⟩
          · cases h
        · cases h
    · split at h
      · exact absurd h not_put_of_end
      · cases h

/-- What is put in a round is put for a flow that the round delivers. -/
theorem put_of_actsOf {F : AccFlow → Prop} {s : Daemon} {ev : DaemonEvent} {k : ℕ} {e : Entry}
    (hdelivers : Delivers F k s ev) (h : Act.put k e ∈ actsOf s ev) :
    ∃ flow, F flow ∧ Supported flow ∧ e = entryOfFlow flow := by
  have htarget := tenant_of_act h
  cases ev with
  | command cmd tail env =>
    simp only [actsOf, commandActs] at h
    split at h
    · split at h
      · cases h
      · cases List.mem_singleton.mp h
    · cases h
  | readable event d =>
    simp only [actsOf] at h
    simp only [target] at htarget
    split at h
    · cases h
    · rename_i found hfind
      rw [hfind] at htarget
      obtain harg : found.arg = k := Option.some.inj htarget
      split at h
      · cases h
      · unfold readActs at h
        split at h
        · rename_i msg hreceived
          obtain ⟨htype, flow, hflow, hsupported, he⟩ := put_of_message h
          obtain ⟨hmem, hid⟩ := event_some hfind
          exact ⟨flow, hdelivers found hmem hid harg msg hreceived htype flow hflow, hsupported, he⟩
        · exact absurd h not_put_of_end

theorem put_of_actsAlong {F : AccFlow → Prop} {s : Daemon} {evs : List DaemonEvent} {k : ℕ}
    {e : Entry} (hdelivers : Each daemonStep (Delivers F k) s evs)
    (h : Act.put k e ∈ actsAlong s evs) :
    ∃ flow, F flow ∧ Supported flow ∧ e = entryOfFlow flow := by
  induction evs generalizing s with
  | nil => cases h
  | cons ev evs ih =>
    unfold actsAlong at h
    split at h
    · cases h
    · rename_i t ht
      rcases List.mem_append.mp h with hfirst | hrest
      · exact put_of_actsOf hdelivers.1 hfirst
      · exact ih (hdelivers.2 t ht) hrest

theorem receivedMessage_arriving {msg : Framing.Message} (hmsg : msg.Framed) (w : World) :
    receivedMessage (arriving msg w) = some msg := by
  have hreads : Enough (arriving msg w).reads (msg.bytes.length + 0) := enough_replicate _ _
  obtain ⟨rest, hrecv, -⟩ := recv_framed (m := 0) [] hmsg hreads
  rw [List.append_nil] at hrecv
  unfold receivedMessage
  rw [show (arriving msg w).stream = msg.bytes from rfl, hrecv]

theorem flowsOf_single (flow : AccFlow) :
    flowsOf ((addFlowsMessage [flow]).body.length / AccFlow.size) (addFlowsMessage [flow]).body =
      [flow] := by
  have hbody : (addFlowsMessage [flow]).body = flowsBytes [flow] := rfl
  have hcount : (flowsBytes [flow]).length / AccFlow.size = [flow].length := by
    rw [length_flowsBytes]
    exact Nat.mul_div_cancel_left _ (by decide)
  rw [hbody, hcount, flowsOf_flowsBytes]

/-- The flow that a client sends is the one that is delivered. -/
theorem delivers_flow {F : AccFlow → Prop} (hflow : F flow) (w : World) (event k : ℕ) (s : Daemon) :
    Delivers F k s (.readable event (arriving (addFlowsMessage [flow]) w)) := by
  intro e _ _ _ msg hmsg _ other hother
  have hfit : AccFlow.size * [flow].length ≤ bufSize := Nat.le_of_ble_eq_true rfl
  rw [receivedMessage_arriving (addFlowsMessage_framed hfit) w] at hmsg
  cases hmsg
  rw [flowsOf_single] at hother
  rw [List.mem_singleton.mp hother]
  exact hflow

theorem delivers_hello {F : AccFlow → Prop} (w : World) (event k : ℕ) (s : Daemon) :
    Delivers F k s (.readable event (arriving (helloMessage []) w)) := by
  intro e _ _ _ msg hmsg htype
  have hframed : (helloMessage []).Framed := request_framed accUnixHello (Nat.zero_le _)
  rw [receivedMessage_arriving hframed w] at hmsg
  cases hmsg
  exact absurd htype (by decide)

/-! A NAT with one session, from 10.0.0.1 port 4000 to 192.0.2.1 port 5000. -/

def oneEntry : NatEntry := ⟨0x0A000001, 4000, 0xC0000201, 5000⟩

def oneSession : Translator Endpoint Endpoint where
  sessions := [(oneEntry.inside 6, oneEntry.outside 6)]
  inner := List.nodup_singleton _
  outer := List.nodup_singleton _

def macOf (b : LittleEndian.Byte) : Mac := ⟨2, 0, 0, 0, 0, b⟩

def outgoing : Work where
  header := ⟨macOf 1, macOf 2, rteBswap32 0x0A000001, rteBswap32 0xC6336407, rteBswap16 4000,
    rteBswap16 80, 6⟩
  ethSrc := macOf 3
  ethDest := macOf 4
  entry := oneEntry

def incoming : Work where
  header := ⟨macOf 4, macOf 3, rteBswap32 0xC6336407, rteBswap32 0xC0000201, rteBswap16 80,
    rteBswap16 5000, 6⟩
  ethSrc := macOf 2
  ethDest := macOf 1
  entry := oneEntry

theorem offloaded_outgoing : Offloaded oneSession (pktWorkCgnaptIpv4Prv outgoing) :=
  .prv outgoing (by decide)

theorem offloaded_incoming : Offloaded oneSession (pktWorkCgnaptIpv4Pub incoming) :=
  .pub incoming (by decide)

/-- A card whose VNF offloads both. -/
def natSession : List DaemonEvent :=
  [registerPlain 0x73, .readable 2 (arriving (helloMessage []) .healthy),
    .readable 2 (arriving (addFlowsMessage [pktWorkCgnaptIpv4Prv outgoing]) .healthy),
    .readable 2 (arriving (addFlowsMessage [pktWorkCgnaptIpv4Pub incoming]) .healthy)]

theorem natSession_delivers :
    Each daemonStep (Delivers (Offloaded oneSession) 1) (boot []) natSession := by
  refine each_of_forall ?_ _
  simp only [natSession, List.forall_mem_cons, List.not_mem_nil, false_implies, implies_true,
    and_true]
  exact ⟨fun _ => trivial, delivers_hello _ _ _, delivers_flow offloaded_outgoing _ _ _,
    delivers_flow offloaded_incoming _ _ _⟩

theorem natSession_onSwitch : ∀ ev ∈ natSession, OnSwitch sameMatch ev := by
  simp only [natSession, List.forall_mem_cons, List.not_mem_nil, false_implies, implies_true,
    and_true]
  exact ⟨trivial, replacesBy_openVSwitch, replacesBy_openVSwitch, replacesBy_openVSwitch⟩

set_option maxRecDepth 8192 in
theorem natSession_runs : ∃ s, exec daemonStep (boot []) natSession = .ok s ∧
    s.shared.history.hellos.length ≤ 1 ∧ s.shared.rules.length = 2 :=
  exists_of_eval (by decide +kernel)

section

variable {rules : List SwitchRule} {evs : List DaemonEvent} {s : Daemon} {n k : ℕ}

/-- What a card holds is the rule of a flow that was delivered for it. -/
theorem held_offloaded {displaces : Entry → Entry → Prop} (hn : n < 2 ^ 32)
    (hrules : Unstale n rules) (hswitch : ∀ ev ∈ evs, OnSwitch displaces ev)
    (h : exec daemonStep (boot rules) evs = .ok s)
    (hcount : s.shared.history.hellos.length ≤ n)
    (hdelivers : Each daemonStep (Delivers (Offloaded table) k) (boot rules) evs) {r : SwitchRule}
    (hr : r ∈ s.shared.rules) (hheld : HeldBy s k r) :
    ∃ flow, Offloaded table flow ∧ Supported flow ∧ entryOf r = entryOfFlow flow := by
  have hin : (some k, entryOf r) ∈ bridge s := ⟨r, hr, rfl, hheld⟩
  rw [bridge_run hn hrules (consistent_boot rules) (ledger_boot rules) hswitch h hcount] at hin
  rcases held_iff _ _ _ _ |>.mp hin with ⟨before, later, hsplit, -⟩ | ⟨hstart, -⟩
  · refine put_of_actsAlong hdelivers ?_
    rw [hsplit]
    simp
  · exact absurd (mem_bridge_boot.mp hstart).1 (by simp)

/-- In every run in which the flows delivered for a card are those of packets that its NAT
translates, each rule that the card holds translates every packet it is taken for as the table
of the NAT says. -/
theorem rules_translate {displaces : Entry → Entry → Prop} (hn : n < 2 ^ 32)
    (hrules : Unstale n rules) (hswitch : ∀ ev ∈ evs, OnSwitch displaces ev)
    (h : exec daemonStep (boot rules) evs = .ok s)
    (hcount : s.shared.history.hellos.length ≤ n)
    (hdelivers : Each daemonStep (Delivers (Offloaded table) k) (boot rules) evs) :
    ∀ r ∈ s.shared.rules, HeldBy s k r → ∀ p, Takes (entryOf r) p →
      Translates table p (forward reader (entryOf r) p) := by
  intro r hr hheld p htakes
  obtain ⟨flow, hoff, hflow, he⟩ := held_offloaded hn hrules hswitch h hcount hdelivers hr hheld
  rw [he] at htakes ⊢
  exact translates_of_takes reader hoff hflow htakes

theorem rules_translate_natSession : ∃ s, exec daemonStep (boot []) natSession = .ok s ∧
    s.shared.rules.length = 2 ∧ ∀ r ∈ s.shared.rules, HeldBy s 1 r → ∀ p, Takes (entryOf r) p →
      Translates oneSession p (forward ofctlReader (entryOf r) p) := by
  obtain ⟨s, h, hcount, hlength⟩ := natSession_runs
  exact ⟨s, h, hlength, rules_translate (n := 1) (by omega) (unstale_nil 1) natSession_onSwitch h
    hcount natSession_delivers⟩

/-- The answer to a packet that goes out through one of these rules is brought back by any other
that is taken for it, unless the answer is a hairpin. -/
theorem replies_return {displaces : Entry → Entry → Prop} (hn : n < 2 ^ 32)
    (hrules : Unstale n rules) (hswitch : ∀ ev ∈ evs, OnSwitch displaces ev)
    (h : exec daemonStep (boot rules) evs = .ok s)
    (hcount : s.shared.history.hellos.length ≤ n)
    (hdelivers : Each daemonStep (Delivers (Offloaded table) k) (boot rules) evs) :
    ∀ r ∈ s.shared.rules, ∀ r' ∈ s.shared.rules, HeldBy s k r → HeldBy s k r' →
      ∀ p q, Takes (entryOf r) p → Takes (entryOf r') q →
        srcOf (forward reader (entryOf r) p) ≠ srcOf p →
        srcOf q = dstOf (forward reader (entryOf r) p) →
        dstOf q = srcOf (forward reader (entryOf r) p) → ¬ Hairpin table q →
        dstOf (forward reader (entryOf r') q) = srcOf p ∧
          srcOf (forward reader (entryOf r') q) = dstOf p := by
  intro r hr r' hr' hheld hheld' p q htakes htakes' hchanged hsrc hdst hhairpin
  obtain ⟨flow, hoff, hflow, he⟩ := held_offloaded hn hrules hswitch h hcount hdelivers hr hheld
  obtain ⟨flow', hoff', hflow', he'⟩ :=
    held_offloaded hn hrules hswitch h hcount hdelivers hr' hheld'
  rw [he] at htakes hchanged hsrc hdst
  rw [he'] at htakes' ⊢
  rcases translates_of_takes reader hoff hflow htakes with ⟨hout, hkept⟩ | ⟨-, hsame⟩
  · rw [hkept] at hsrc
    -- the answer comes to the outer endpoint of the session
    have hin : table.inbound (dstOf q) = some (srcOf p) := by
      rw [hdst]
      exact Translator.inbound_of_outbound hout
    rcases translates_of_takes reader hoff' hflow' htakes' with
      ⟨hout', -⟩ | ⟨hin', hkept'⟩
    · exact absurd ⟨Option.isSome_of_eq_some hout', Option.isSome_of_eq_some hin⟩ hhairpin
    · rw [hin, Option.some.injEq] at hin'
      exact ⟨hin'.symm, hkept'.trans hsrc⟩
  · exact absurd hsame hchanged

theorem replies_return_natSession : ∃ s, exec daemonStep (boot []) natSession = .ok s ∧
    ∀ r ∈ s.shared.rules, ∀ r' ∈ s.shared.rules, HeldBy s 1 r → HeldBy s 1 r' →
      ∀ p q, Takes (entryOf r) p → Takes (entryOf r') q →
        srcOf (forward ofctlReader (entryOf r) p) ≠ srcOf p →
        srcOf q = dstOf (forward ofctlReader (entryOf r) p) →
        dstOf q = srcOf (forward ofctlReader (entryOf r) p) → ¬ Hairpin oneSession q →
        dstOf (forward ofctlReader (entryOf r') q) = srcOf p ∧
          srcOf (forward ofctlReader (entryOf r') q) = dstOf p := by
  obtain ⟨s, h, hcount, -⟩ := natSession_runs
  exact ⟨s, h, replies_return (n := 1) (by omega) (unstale_nil 1) natSession_onSwitch h hcount
    natSession_delivers⟩

/-- No packet but a hairpin is treated differently by two rules of the card. -/
theorem forwarding_unambiguous (hn : n < 2 ^ 32) (hrules : Unstale n rules)
    (hswitch : ∀ ev ∈ evs, OnSwitch sameMatch ev)
    (hstart : ∀ r ∈ rules, ∀ r' ∈ rules, sameMatch (entryOf r) (entryOf r') →
      entryOf r = entryOf r')
    (h : exec daemonStep (boot rules) evs = .ok s)
    (hcount : s.shared.history.hellos.length ≤ n)
    (hdelivers : Each daemonStep (Delivers (Offloaded table) k) (boot rules) evs) :
    ∀ r ∈ s.shared.rules, ∀ r' ∈ s.shared.rules, HeldBy s k r → HeldBy s k r' →
      ∀ p, Takes (entryOf r) p → Takes (entryOf r') p → ¬ Hairpin table p →
        forward reader (entryOf r) p = forward reader (entryOf r') p := by
  intro r hr r' hr' hheld hheld' p htakes htakes' hhairpin
  obtain ⟨flow, hoff, hflow, he⟩ := held_offloaded hn hrules hswitch h hcount hdelivers hr hheld
  obtain ⟨flow', hoff', hflow', he'⟩ :=
    held_offloaded hn hrules hswitch h hcount hdelivers hr' hheld'
  rw [he] at htakes
  rw [he'] at htakes'
  have hkey := matchKey_of_takes hoff hoff' hflow hflow' htakes htakes' hhairpin
  rw [← he, ← he'] at hkey
  have hone := onePerKey_bridge hn hrules hswitch hstart h hcount
  have hsame := hone (some k, entryOf r) ⟨r, hr, rfl, hheld⟩ (some k, entryOf r')
    ⟨r', hr', rfl, hheld'⟩ hkey
  rw [(Prod.mk.inj hsame).2]

theorem forwarding_unambiguous_natSession : ∃ s, exec daemonStep (boot []) natSession = .ok s ∧
    ∀ r ∈ s.shared.rules, ∀ r' ∈ s.shared.rules, HeldBy s 1 r → HeldBy s 1 r' →
      ∀ p, Takes (entryOf r) p → Takes (entryOf r') p → ¬ Hairpin oneSession p →
        forward ofctlReader (entryOf r) p = forward ofctlReader (entryOf r') p := by
  obtain ⟨s, h, hcount, -⟩ := natSession_runs
  exact ⟨s, h, forwarding_unambiguous (n := 1) (by omega) (unstale_nil 1) natSession_onSwitch
    (by simp) h hcount natSession_delivers⟩

end

end BeLa.NatBridge
