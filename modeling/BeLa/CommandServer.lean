import BeLa.Invariant
import BeLa.Registration

/-!
The command server. `be_cmd_request_process` takes any block of the size of a
`cmd_hdr_t` for a command, so what enters the card table is what the sender put
into the block. The cards stay usable, and no command fails an assertion, exactly
in the runs whose blocks are well formed where the daemon relies on it.
-/
namespace BeLa.CommandServer

open LittleEndian Stops Runs Slots Switch Context Plugin Card Channel Command Paths Steps
open Registration Invariant

/-- `sizeof(cmd_hdr_t)`. -/
def cmdHdrSize : ℕ := 272

def charArrayAt (memory : Bytes) : CharArray :=
  ⟨(memory ++ List.replicate nameMaxLen 0).take nameMaxLen, by simp⟩

def cmdOf (block : Bytes) : CmdHdr where
  card :=
    { vendor := wordOf 4 block
      model := wordOf 4 (block.drop 4)
      accType := wordOf 4 (block.drop 8)
      vmUuid := charArrayAt (block.drop 12)
      vmpath := charArrayAt (block.drop 140) }
  cmdType := wordOf 4 (block.drop 268)

def cmdBytes (cmd : CmdHdr) : Bytes :=
  wordBytes 4 cmd.card.vendor ++ (wordBytes 4 cmd.card.model ++ (wordBytes 4 cmd.card.accType ++
    (cmd.card.vmUuid.toList ++ (cmd.card.vmpath.toList ++ wordBytes 4 cmd.cmdType))))

/-- A call of `be_cmd_request_process`: what the read returns, the bytes of the buffer
behind a whole block, and what the command meets. -/
structure Request where
  received : Option Bytes
  behind : Bytes
  env : CommandWorld

/-- `be_cmd_request_process`; the result of the command is not looked at. -/
def beCmdRequestProcess (s : Daemon) (req : Request) : Except Stop Daemon :=
  match req.received with
  | none => .ok s
  | some block =>
    if block.length = 0 then .ok s
    else if block.length ≠ cmdHdrSize then .ok s
    else (beLaCmdProcess (cmdOf block) req.behind req.env s).map Prod.snd

inductive ServerEvent
  | request (req : Request)
  | readable (event : ℕ) (delivery : Delivery)

def serverStep (s : Daemon) : ServerEvent → Except Stop Daemon
  | .request req => beCmdRequestProcess s req
  | .readable event delivery => daemonStep s (.readable event delivery)

theorem charArrayAt_append (array : CharArray) (rest : Bytes) :
    charArrayAt (array.toList ++ rest) = array := by
  apply Subtype.ext
  have hlength : array.toList.length = nameMaxLen := array.toList_length
  change ((array.toList ++ rest) ++ _).take nameMaxLen = array.toList
  rw [List.append_assoc, List.take_left' hlength]

/-- A command is read back from its bytes. -/
theorem cmdOf_cmdBytes (cmd : CmdHdr) : cmdOf (cmdBytes cmd) = cmd := by
  have hword : ∀ (x : BitVec (8 * 4)) (rest : Bytes), (wordBytes 4 x ++ rest).drop 4 = rest :=
    fun x rest => List.drop_left' (length_wordBytes 4 x)
  have harray : ∀ (array : CharArray) (rest : Bytes), (array.toList ++ rest).drop 128 = rest :=
    fun array rest => List.drop_left' array.toList_length
  have h8 : ∀ bs : Bytes, bs.drop 8 = (bs.drop 4).drop 4 := by simp
  have h12 : ∀ bs : Bytes, bs.drop 12 = (bs.drop 8).drop 4 := by simp
  have h140 : ∀ bs : Bytes, bs.drop 140 = (bs.drop 12).drop 128 := by simp
  have h268 : ∀ bs : Bytes, bs.drop 268 = (bs.drop 140).drop 128 := by simp
  have hlast : wordOf 4 (wordBytes 4 cmd.cmdType) = cmd.cmdType := by
    simpa using wordOf_wordBytes 4 cmd.cmdType []
  simp only [cmdOf, cmdBytes, h268, h140, h12, h8, hword, harray, wordOf_wordBytes,
    charArrayAt_append, hlast]

theorem length_cmdBytes (cmd : CmdHdr) : (cmdBytes cmd).length = cmdHdrSize := by
  simp only [cmdBytes, List.length_append, length_wordBytes, List.Vector.toList_length]
  rfl

/-- A card that the code which uses it later can rely on: its vendor and model index
`g_acc_plugins`, and its path is a string inside its array. -/
structure Usable (card : AccCard) : Prop where
  vendor : card.vendor.toNat < vendorMax
  model : card.model.toNat < modelMax
  path : card.vmpath.toList.headD 0 ≠ 0
  pathEnds : Terminated card

def AllUsable (s : Daemon) : Prop := ∀ card ∈ s.cards, Usable card.card

def CommandSafe (s : Daemon) (cmd : CmdHdr) (behind : Bytes) (env : CommandWorld) : Prop :=
  ∃ ok s', beLaCmdProcess cmd behind env s = .ok (ok, s') ∧ AllUsable s'

/-- What a command has to be for that: a registration has a uuid and a path, and a usable
record if the table takes it; an unregistration has nulls behind its block. -/
structure CommandAcceptable (s : Daemon) (cmd : CmdHdr) (behind : Bytes) (env : CommandWorld) :
    Prop where
  uuid : cmd.cmdType = cmdTypeRegister → cmd.card.vmUuid.toList.headD 0 ≠ 0
  path : cmd.cmdType = cmdTypeRegister → cmd.card.vmpath.toList.headD 0 ≠ 0
  usable : cmd.cmdType = cmdTypeRegister →
    Inserts s.table env.allocCard cmd.card (behindRecord cmd behind) → Usable cmd.card
  nulls : cmd.cmdType = cmdTypeUnregister →
    pointerAt behind 0 = false ∧ pointerAt behind 8 = false ∧ pointerAt behind 16 = false

variable {s s' : Daemon} {cmd : CmdHdr} {behind : Bytes} {env : CommandWorld}

theorem register_safe_iff (hs : AllUsable s) (htype : cmd.cmdType = cmdTypeRegister) :
    CommandSafe s cmd behind env ↔ CommandAcceptable s cmd behind env := by
  have hne : cmd.cmdType ≠ cmdTypeUnregister := by
    rw [htype]
    decide
  constructor
  · rintro ⟨ok, s', h, hafter⟩
    have hnamed : cmd.card.vmUuid.toList.headD 0 ≠ 0 ∧ cmd.card.vmpath.toList.headD 0 ≠ 0 := by
      by_contra hempty
      unfold beLaCmdProcess at h
      rw [if_pos htype] at h
      simp only [reg_asserts hempty] at h
      cases h
    refine ⟨fun _ => hnamed.1, fun _ => hnamed.2, fun _ hins => ?_, fun hun => absurd hun hne⟩
    obtain ⟨-, card, hcard, hrecord, -⟩ := command_inserted htype hnamed.1 hnamed.2 hins h
    rw [← hrecord]
    exact hafter card hcard
  · intro hacc
    have huuid := hacc.uuid htype
    have hpath := hacc.path htype
    by_cases hins : Inserts s.table env.allocCard cmd.card (behindRecord cmd behind)
    · have husable := hacc.usable htype hins
      obtain ⟨s', h⟩ := command_opens htype huuid hpath husable.pathEnds hins
      obtain ⟨-, card, -, hrecord, hold⟩ := command_inserted htype huuid hpath hins h
      refine ⟨_, s', h, fun x hx => ?_⟩
      rcases hold x hx with rfl | hx
      · rw [hrecord]
        exact husable
      · exact hs x hx
    · exact ⟨false, s, command_refused htype huuid hpath hins, hs⟩

theorem unregister_safe_iff (hs : AllUsable s) (htype : cmd.cmdType = cmdTypeUnregister) :
    CommandSafe s cmd behind env ↔ CommandAcceptable s cmd behind env := by
  have hne : cmd.cmdType ≠ cmdTypeRegister := by
    rw [htype]
    decide
  constructor
  · rintro ⟨ok, s', h, -⟩
    refine ⟨fun hreg => absurd hreg hne, fun hreg => absurd hreg hne,
      fun hreg => absurd hreg hne, fun _ => ?_⟩
    unfold beLaCmdProcess at h
    rw [if_neg hne, if_pos htype] at h
    split at h
    · cases h
    · rename_i hunreg
      obtain ⟨⟨hcontext, hplugin, hread⟩, -⟩ := unreg_spec hunreg
      exact ⟨hcontext, hread, hplugin⟩
  · intro hacc
    obtain ⟨hcontext, hread, hplugin⟩ := hacc.nulls htype
    have hunreg : ∃ result,
        beAccCardUnreg (.ofCommand cmd.card cmd.cmdType behind) s.table = .ok result := by
      simp [beAccCardUnreg, UnregInfo.ofCommand, hcontext, hread, hplugin]
    obtain ⟨result, hunreg⟩ := hunreg
    refine ⟨true, { s with table := result.1, freed := s.freed ++ result.2.toList }, ?_, ?_⟩
    · unfold beLaCmdProcess
      simp only [if_neg hne, if_pos htype, hunreg]
    · obtain ⟨-, -, heffect⟩ := unreg_spec hunreg
      intro card hcard
      split at heffect
      · rw [Daemon.cards, heffect] at hcard
        exact hs card hcard
      · exact hs card (heffect.mem_iff.mpr (List.mem_cons_of_mem _ hcard))

/-- A command is safe exactly when it is acceptable. -/
theorem commandSafe_iff (hs : AllUsable s) :
    CommandSafe s cmd behind env ↔ CommandAcceptable s cmd behind env := by
  by_cases hreg : cmd.cmdType = cmdTypeRegister
  · exact register_safe_iff hs hreg
  · by_cases hunreg : cmd.cmdType = cmdTypeUnregister
    · exact unregister_safe_iff hs hunreg
    · refine iff_of_true ⟨false, s, ?_, hs⟩ ⟨fun h => absurd h hreg, fun h => absurd h hreg,
        fun h => absurd h hreg, fun h => absurd h hunreg⟩
      unfold beLaCmdProcess
      rw [if_neg hreg, if_neg hunreg]

/-- A call on a channel changes no record. -/
theorem allUsable_readable {event : ℕ} {d : Delivery} (hcons : Consistent s) (hs : AllUsable s)
    (h : daemonStep s (.readable event d) = .ok s') : AllUsable s' := by
  cases change_of_step hcons h with
  | idle => exact hs
  | handled e card card' msg shared he hcard haddr _ hhandles =>
    obtain ⟨-, hrecord, -⟩ := handles_keeps (hcons.sound card hcard) hhandles
    intro x hx
    rcases mem_writeCard.mp hx with ⟨rfl, -⟩ | ⟨hx, -⟩
    · rw [hrecord]
      exact hs card hcard
    · exact hs x hx
  | closed e card context he hcard haddr hcontext _ hcards =>
    intro x hx
    have hwritten : x ∈ (s.writeCard (cleared card)).cards :=
      hcards.mem_iff.mpr (List.mem_cons_of_mem _ hx)
    rcases mem_writeCard.mp hwritten with ⟨rfl, -⟩ | ⟨hx, -⟩
    · exact hs card hcard
    · exact hs x hx

def OnCommand (P : Daemon → CmdHdr → Bytes → CommandWorld → Prop) (s : Daemon) :
    ServerEvent → Prop
  | .request req => ∀ block, req.received = some block → block.length = cmdHdrSize →
      P s (cmdOf block) req.behind req.env
  | .readable _ _ => True

/-- A round of the server is a round of the daemon, or none. -/
theorem serverStep_cases {ev : ServerEvent} (h : serverStep s ev = .ok s') :
    s' = s ∨ (∃ req block ok, ev = .request req ∧ req.received = some block ∧
      block.length = cmdHdrSize ∧
        beLaCmdProcess (cmdOf block) req.behind req.env s = .ok (ok, s')) ∨
      ∃ event d, ev = .readable event d ∧ daemonStep s (.readable event d) = .ok s' := by
  cases ev with
  | readable event d => exact .inr (.inr ⟨event, d, rfl, h⟩)
  | request req =>
    simp only [serverStep, beCmdRequestProcess] at h
    split at h
    · cases h
      exact .inl rfl
    · rename_i block hblock
      split at h
      · cases h
        exact .inl rfl
      · split at h
        · cases h
          exact .inl rfl
        · rename_i hlength
          cases hprocess : beLaCmdProcess (cmdOf block) req.behind req.env s with
          | error stop =>
            rw [hprocess] at h
            cases h
          | ok result =>
            rw [hprocess] at h
            obtain rfl : result.2 = s' := Except.ok.inj h
            exact .inr (.inl ⟨req, block, result.1, rfl, hblock, not_not.mp hlength, hprocess⟩)

/-- The safe rounds keep the cards usable. -/
theorem usable_step {ev : ServerEvent} (hs : Consistent s ∧ AllUsable s)
    (hev : OnCommand CommandSafe s ev) (h : serverStep s ev = .ok s') :
    Consistent s' ∧ AllUsable s' := by
  rcases serverStep_cases h with rfl | ⟨req, block, ok, rfl, hblock, hlength, hprocess⟩ |
    ⟨event, d, rfl, hstep⟩
  · exact hs
  · obtain ⟨ok', after, hsafe, hafter⟩ := hev block hblock hlength
    rw [hprocess, Except.ok.injEq, Prod.mk.injEq] at hsafe
    have hstep : daemonStep s (.command (cmdOf block) req.behind req.env) = .ok s' := by
      simp only [daemonStep, hprocess]
    exact ⟨consistent_step hs.1 hstep, hsafe.2 ▸ hafter⟩
  · exact ⟨consistent_step hs.1 hstep, allUsable_readable hs.1 hs.2 hstep⟩

/-- Every command of a run returns 0 or -1 and leaves usable cards behind, exactly in the
runs whose commands are acceptable. -/
theorem commands_validated_iff (rules : List SwitchRule) (evs : List ServerEvent) :
    Each serverStep (OnCommand CommandSafe) (boot rules) evs ↔
      Each serverStep (OnCommand CommandAcceptable) (boot rules) evs := by
  have hboot : Consistent (boot rules) ∧ AllUsable (boot rules) := by
    refine ⟨consistent_boot rules, fun card hcard => ?_⟩
    have hcards : (boot rules).cards = [] := records_replicate_none accCardMaxNum
    rw [hcards] at hcard
    cases hcard
  refine each_iff_of_invariant (fun s ev s' hs hev h => usable_step hs hev h) ?_ hboot evs
  intro s ev hs
  cases ev with
  | readable event d => exact Iff.rfl
  | request req =>
    refine forall_congr' fun block => imp_congr_right fun _ => imp_congr_right fun _ => ?_
    exact commandSafe_iff hs.2

/-- A block whose vendor is beyond `g_acc_plugins` is taken for a registration. -/
theorem vendor_beyond_registry_registered :
    ¬ ∀ rules evs, Each serverStep (OnCommand CommandSafe) (boot rules) evs := by
  intro hall
  let cmd : CmdHdr := ⟨{ AccCard.plain 0x73 with vendor := 200 }, cmdTypeRegister⟩
  let env : CommandWorld := ⟨true, ⟨true, true, true, true, true⟩⟩
  obtain ⟨hsafe, -⟩ := hall [] [.request ⟨some (cmdBytes cmd), [], env⟩]
  have hcommand := hsafe (cmdBytes cmd) rfl (length_cmdBytes cmd)
  rw [cmdOf_cmdBytes] at hcommand
  obtain ⟨ok, s', h, hafter⟩ := hcommand
  have hins : Inserts (boot []).table env.allocCard cmd.card (behindRecord cmd []) :=
    ⟨by decide, by decide, rfl⟩
  obtain ⟨-, card, hcard, hrecord, -⟩ := command_inserted rfl (by decide) (by decide) hins h
  have hvendor := (hafter card hcard).vendor
  rw [hrecord] at hvendor
  exact absurd hvendor (by decide)

end BeLa.CommandServer
