import BeLa.Accsh
import BeLa.Client

/-!
The cards of the tool. What `accsh` sends names the one plugin that its options can
ask for, and types that this plugin has. So a command of the tool always returns, and
so does a HELLO on a card that the tool has registered, which is accepted if its host
name fits and there is memory for its context. The tool can still free a card whose
channel is open, and the next request on this channel finds no card any more.
-/
namespace BeLa.ToolCards

open LittleEndian Runs Stops Framing Switch Context Execute Plugin Card Message Channel Command
open Handling Steps Invariant Registration CommandServer Accsh

structure ToolCard (card : AccCard) : Prop where
  usable : Usable card
  vendor : card.vendor = vendorNetronome
  model : card.model = agilioIsa4000
  types : sNetronomePlugin.accType &&& card.accType = card.accType

/-- A whole block that reaches the command server comes from a call of the tool whose texts fit,
and one that unregisters a card has nulls behind it. -/
def FromTool : ServerEvent → Prop
  | .request req => ∀ block, req.received = some block → block.length = cmdHdrSize →
      (∃ world os, (∀ o ∈ os, o.Fits) ∧ accsh world os = .ok (.sent block)) ∧
        ((cmdOf block).cmdType = cmdTypeUnregister → pointerAt req.behind 0 = false ∧
          pointerAt req.behind 8 = false ∧ pointerAt req.behind 16 = false)
  | .readable _ _ => True

/-- The command returns; a HELLO returns, and is accepted if its host name fits and there is
memory for the context. -/
def Served (s : Daemon) : ServerEvent → Prop
  | .request req => ∃ s', beCmdRequestProcess s req = .ok s'
  | .readable event d => ∀ e ∈ s.events, e.id = event → ∀ card, s.cardAt e.arg = some card →
      ∀ msg, receivedMessage d = some msg → msg.hdr.msgType = accUnixHello →
        ∃ handled, beAccMessageProcess d.world card msg.hdr.msgType msg.body 0 s.shared =
            .ok handled ∧
          (handled.ok = true ↔ msg.body.length ≤ nameSize ∧ d.world.allocContext = true)

def AllFromTool (s : Daemon) : Prop := ∀ card ∈ s.cards, ToolCard card.card

variable {s s' : Daemon} {card : AccCard}

/-- The types of the options are among those of the plugin. -/
theorem types_foldl (os : List Opt) {types : BitVec 32}
    (h : sNetronomePlugin.accType &&& types = types) :
    sNetronomePlugin.accType &&& os.foldl (fun types o => types ||| o.typeBits) types =
      os.foldl (fun types o => types ||| o.typeBits) types := by
  induction os generalizing types with
  | nil => exact h
  | cons o os ih =>
    have hbits : sNetronomePlugin.accType &&& o.typeBits = o.typeBits := by
      cases o with
      | type optarg =>
        rw [Opt.typeBits]
        split
        · decide
        · split
          · decide
          · decide
      | _ => exact BitVec.and_zero
    refine ih ?_
    rw [BitVec.and_or_distrib_left, h, hbits]

theorem toolCard_of_sent {world : Accsh.World} {os : List Opt} {block : Bytes}
    (hfits : ∀ o ∈ os, o.Fits) (h : accsh world os = .ok (.sent block)) :
    ToolCard (cmdOf block).card := by
  obtain ⟨hexec, hgood⟩ := sent_eq h
  obtain ⟨hvendor, hmodel⟩ := known_of_exec hfits hexec
  obtain ⟨block', hexec', -, -, -, htypes⟩ := fields_of_exec hfits
  cases hexec.symm.trans hexec'
  simp only [BadUsage, not_or] at hgood
  obtain ⟨hvendor', -, hmodel', -⟩ := hgood
  refine ⟨usable_of_sent hfits h, hvendor.resolve_left hvendor', hmodel.resolve_left hmodel', ?_⟩
  rw [htypes]
  exact types_foldl os (by decide)

/-- A card of the tool is matched by the Netronome plugin. -/
theorem ToolCard.matched (h : ToolCard card) :
    bePluginMatch gAccPlugins card.vendor card.model card.accType = .ok (some ⟨1, 1⟩) := by
  have htypes : (gAccPlugins 1 1).accType &&& card.accType = card.accType := h.types
  rw [h.vendor, h.model]
  exact (if_neg (by decide)).trans (if_pos htypes)

/-- The sessions of a card of the tool run their commands here. -/
theorem ToolCard.sshRemote_eq (h : ToolCard card) {context : AccContext}
    (hsound : SoundContext card context) : context.sshRemote = none := by
  have hhook : (gAccPlugins 1 1).contextInit = some .plain := rfl
  refine Option.not_isSome_iff_eq_none.mp fun hremote => ?_
  have hruns := hsound.remote_iff.mp hremote
  simp [runsRemotely, h.matched, hhook] at hruns

/-- What a HELLO on a card of the tool comes to. -/
theorem ToolCard.outcome (h : ToolCard card) (w : Execute.World) (len : ℕ) :
    helloOutcome w card len =
      if nameSize < len then .refused else if w.allocContext then .attached else .dropped := by
  have hhook : (gAccPlugins 1 1).contextInit = some .plain := rfl
  rw [helloOutcome, h.matched]
  dsimp only
  rw [hhook]
  by_cases halloc : w.allocContext = true
  · simp [initContext, halloc]
  · simp [initContext, halloc]

theorem hello_served {card : BeCardInner} (hsound : Sound card) (h : ToolCard card.card)
    (w : Execute.World) (message : Bytes) (sh : Shared) :
    ∃ handled, beAccMessageProcess w card accUnixHello message 0 sh = .ok handled ∧
      (handled.ok = true ↔ message.length ≤ nameSize ∧ w.allocContext = true) := by
  have hrun : beAccMessageProcess w card accUnixHello message 0 sh =
      helloMessageHandle w card message 0 sh := by
    unfold beAccMessageProcess
    rw [handlerAt_hello]
    rfl
  have hspec := hello_spec (w := w) hsound message 0 sh
  rw [h.outcome] at hspec
  rw [hrun]
  by_cases hlen : nameSize < message.length
  · rw [if_pos hlen] at hspec
    exact ⟨_, hspec, iff_of_false (by simp) fun hfits => Nat.not_le_of_lt hlen hfits.1⟩
  · rw [if_neg hlen] at hspec
    by_cases halloc : w.allocContext = true
    · rw [if_pos halloc] at hspec
      obtain ⟨slot, context, -, hattached⟩ := hspec
      exact ⟨_, hattached, iff_of_true rfl ⟨Nat.le_of_not_lt hlen, halloc⟩⟩
    · rw [if_neg halloc] at hspec
      exact ⟨_, hspec, iff_of_false (by simp) fun hfits => halloc hfits.2⟩

/-- A call on a channel adds no card, and changes no record. -/
theorem record_kept {event : ℕ} {d : Delivery} (hs : Consistent s)
    (h : daemonStep s (.readable event d) = .ok s') {x : BeCardInner} (hx : x ∈ s'.cards) :
    ∃ y ∈ s.cards, y.card = x.card := by
  cases change_of_step hs h with
  | idle => exact ⟨x, hx, rfl⟩
  | handled e card card' msg shared _ hcard _ _ hhandles =>
    obtain ⟨-, hrecord, -⟩ := handles_keeps (hs.sound card hcard) hhandles
    rcases mem_writeCard.mp hx with ⟨rfl, -⟩ | ⟨hx, -⟩
    · exact ⟨card, hcard, hrecord.symm⟩
    · exact ⟨x, hx, rfl⟩
  | closed e card context _ _ _ _ _ hcards => exact ⟨x, ((closed_cards hs hcards).2 x hx).1, rfl⟩

/-- A command adds no card but its own. -/
theorem allFromTool_command {cmd : CmdHdr} {behind : Bytes} {env : CommandWorld} {ok : Bool}
    (hs : AllFromTool s) (huuid : cmd.card.vmUuid.toList.headD 0 ≠ 0)
    (hpath : cmd.card.vmpath.toList.headD 0 ≠ 0) (hcard : ToolCard cmd.card)
    (h : beLaCmdProcess cmd behind env s = .ok (ok, s')) : AllFromTool s' := by
  by_cases hreg : cmd.cmdType = cmdTypeRegister
  · by_cases hins : Inserts s.table env.allocCard cmd.card (behindRecord cmd behind)
    · obtain ⟨-, card, -, hrecord, hrest⟩ := command_inserted hreg huuid hpath hins h
      intro x hx
      rcases hrest x hx with rfl | hx
      · rw [hrecord]
        exact hcard
      · exact hs x hx
    · rw [command_refused hreg huuid hpath hins] at h
      cases h
      exact hs
  · by_cases hunreg : cmd.cmdType = cmdTypeUnregister
    · cases change_of_unregister hunreg h with
      | idle => exact hs
      | registered _ htype => exact absurd htype hreg
      | opened _ _ htype => exact absurd htype hreg
      | unregistered card _ hcards =>
        exact fun x hx => hs x (hcards.mem_iff.mpr (List.mem_cons_of_mem _ hx))
    · unfold beLaCmdProcess at h
      rw [if_neg hreg, if_neg hunreg] at h
      cases h
      exact hs

theorem allFromTool_step {ev : ServerEvent} (hs : Consistent s ∧ AllFromTool s) (hev : FromTool ev)
    (h : serverStep s ev = .ok s') : Consistent s' ∧ AllFromTool s' := by
  rcases serverStep_cases h with rfl | ⟨req, block, ok, rfl, hblock, hlength, hprocess⟩ |
    ⟨event, d, rfl, hstep⟩
  · exact hs
  · obtain ⟨⟨world, os, hfits, hsent⟩, -⟩ := hev block hblock hlength
    have hgood := (sent_eq hsent).2
    simp only [BadUsage, not_or] at hgood
    obtain ⟨-, -, -, -, hpath, huuid⟩ := hgood
    have hstep : daemonStep s (.command (cmdOf block) req.behind req.env) = .ok s' := by
      simp only [daemonStep, hprocess]
    exact ⟨consistent_step hs.1 hstep,
      allFromTool_command hs.2 huuid hpath (toolCard_of_sent hfits hsent) hprocess⟩
  · refine ⟨consistent_step hs.1 hstep, fun x hx => ?_⟩
    obtain ⟨y, hy, hrecord⟩ := record_kept hs.1 hstep hx
    rw [← hrecord]
    exact hs.2 y hy

theorem served_of_fromTool {ev : ServerEvent} (hs : Consistent s ∧ AllFromTool s)
    (hev : FromTool ev) : Served s ev := by
  cases ev with
  | readable event d =>
    intro e _ _ card hcard msg _ htype
    obtain ⟨hin, -⟩ := cardAt_some hcard
    rw [htype]
    exact hello_served (hs.1.sound card hin) (hs.2 card hin) d.world msg.body s.shared
  | request req =>
    obtain ⟨received, behind, env⟩ := req
    cases received with
    | none => exact ⟨s, rfl⟩
    | some block =>
      by_cases hlength : block.length = cmdHdrSize
      · obtain ⟨⟨world, os, hfits, hsent⟩, hnulls⟩ := hev block rfl hlength
        have husable : AllUsable s := fun card hcard => (hs.2 card hcard).usable
        obtain ⟨s', hprocess, -⟩ := sent_request_served env hfits hsent husable hnulls
        exact ⟨s', hprocess⟩
      · refine ⟨s, ?_⟩
        simp only [beCmdRequestProcess, if_pos hlength, ite_self]

/-- In every run of the command server that is commanded through the tool only, whatever the VMs
send, every command returns, and every HELLO on a card returns and is accepted exactly when its
host name fits and there is memory. -/
theorem tool_cards_served (rules : List SwitchRule) {evs : List ServerEvent}
    (hevs : ∀ ev ∈ evs, FromTool ev) : Each serverStep Served (boot rules) evs := by
  have hboot : Consistent (boot rules) ∧ AllFromTool (boot rules) := by
    refine ⟨consistent_boot rules, fun card hcard => ?_⟩
    rw [show (boot rules).cards = [] from Slots.records_replicate_none accCardMaxNum] at hcard
    cases hcard
  exact Each.mono (fun _ _ _ hs hev h => allFromTool_step hs hev h)
    (fun _ _ hs hev => served_of_fromTool hs hev) hboot
    (each_of_forall (fun ev hev _ => hevs ev hev) (boot rules))

theorem netronome_text : (0 : Byte) ∉ netronome := by decide

theorem agilioIsa_text : (0 : Byte) ∉ agilioIsa := by decide

/-- `accsh -v netronome -m agilio_isa_4000 -u q -c s -t compress -r`. -/
def registerS : List Opt :=
  [.vendor ⟨netronome, netronome_text⟩, .model ⟨agilioIsa, agilioIsa_text⟩,
    .uuid (letter 0x71 (by decide)), .channel (letter 0x73 (by decide)),
    .type ⟨compress, by decide⟩, .register]

def registerSBlock : Bytes :=
  cmdBytes ⟨{ AccCard.plain 0x73 with
    accType := accTypeCompress
    vmUuid := ⟨0x71 :: List.replicate 127 0, by simp [nameMaxLen]⟩ }, cmdTypeRegister⟩

theorem sent_registerS : accsh ⟨true, true⟩ registerS = .ok (.sent registerSBlock) := by
  decide +kernel

theorem fromTool_registerS :
    FromTool (.request ⟨some registerSBlock, [], ⟨true, ⟨true, true, true, true, true⟩⟩⟩) := by
  intro block hblock _
  cases hblock
  have hfits : ∀ o ∈ registerS, o.Fits := by
    simp [registerS, Opt.Fits, letter, nameMaxLen]
  refine ⟨⟨_, registerS, hfits, sent_registerS⟩, fun htype => ?_⟩
  rw [registerSBlock, cmdOf_cmdBytes] at htype
  exact absurd htype (by decide)

/-- A VM whose card does compression only is served like the others. -/
theorem tool_cards_served_registerS :
    accsh ⟨true, true⟩ registerS = .ok (.sent registerSBlock) ∧
      Each serverStep Served (boot [])
        [.request ⟨some registerSBlock, [], ⟨true, ⟨true, true, true, true, true⟩⟩⟩,
          .readable 2 (Client.arriving (Client.helloMessage []) .healthy)] := by
  refine ⟨sent_registerS, tool_cards_served [] fun ev hev => ?_⟩
  simp only [List.mem_cons, List.not_mem_nil, or_false] at hev
  rcases hev with rfl | rfl
  · exact fromTool_registerS
  · trivial

end BeLa.ToolCards
