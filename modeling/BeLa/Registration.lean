import BeLa.Steps

/-!
Registering a card in two phases. The record enters the table first and its
channel is opened then, so a registration that fails in the second phase has
already changed the table. What a command does to the table is told here for any
state of the daemon, reachable or not.
-/
namespace BeLa.Registration

open LittleEndian Stops Slots Card Channel Command Paths Steps

/-- The record has a uuid and a path, and both end inside their arrays. -/
structure WellNamed (card : AccCard) : Prop where
  uuid : card.vmUuid.toList.headD 0 ≠ 0
  uuidEnds : 0 ∈ card.vmUuid.toList
  path : card.vmpath.toList.headD 0 ≠ 0
  pathEnds : Terminated card

def behindRecord (cmd : CmdHdr) (behind : Bytes) : Bytes := wordBytes 4 cmd.cmdType ++ behind

structure Inserts (table : AccCardsTable) (alloc : Bool) (reginfo : AccCard) (behind : Bytes) :
    Prop where
  absent : beLaGetAccCardptr table (reginfo.pathBefore behind) = none
  room : none ∈ table.slots
  alloc : alloc = true

def opens (run : OpenRun) : Bool :=
  run.access && run.socket && run.connect && run.nonblocking && run.eventNew

variable {table : AccCardsTable} {alloc : Bool} {reginfo : AccCard} {behind : Bytes}

theorem reg_inserts (huuid : reginfo.vmUuid.toList.headD 0 ≠ 0)
    (hpath : reginfo.vmpath.toList.headD 0 ≠ 0) (h : Inserts table alloc reginfo behind)
    (addr : ℕ) :
    ∃ slots, place ⟨addr, reginfo, none, none, none⟩ table.slots = some slots ∧
      beAccCardReg alloc addr reginfo behind table = .ok (some ⟨slots, table.regNum + 1⟩) := by
  have hplace : place ⟨addr, reginfo, none, none, none⟩ table.slots ≠ none := by
    rw [ne_eq, place_eq_none_iff, not_not]
    exact h.room
  obtain ⟨slots, hslots⟩ := Option.ne_none_iff_exists'.mp hplace
  refine ⟨slots, hslots, ?_⟩
  unfold beAccCardReg
  rw [if_neg huuid, if_neg hpath, h.absent, h.alloc]
  simp only [hslots]
  rfl

theorem reg_refuses (huuid : reginfo.vmUuid.toList.headD 0 ≠ 0)
    (hpath : reginfo.vmpath.toList.headD 0 ≠ 0) (h : ¬ Inserts table alloc reginfo behind)
    (addr : ℕ) : beAccCardReg alloc addr reginfo behind table = .ok none := by
  unfold beAccCardReg
  rw [if_neg huuid, if_neg hpath]
  split
  · rfl
  · rename_i habsent
    have hnone : beLaGetAccCardptr table (reginfo.pathBefore behind) = none := by
      simpa using habsent
    dsimp only
    split
    · rfl
    · rename_i slots hslots
      have hroom : none ∈ table.slots := by
        by_contra hfull
        rw [(place_eq_none_iff _ _).mpr hfull] at hslots
        cases hslots
      have halloc : alloc ≠ true := fun halloc => h ⟨hnone, hroom, halloc⟩
      rw [if_neg halloc]

/-- An empty uuid or path fails an assertion. -/
theorem reg_asserts (h : ¬ (reginfo.vmUuid.toList.headD 0 ≠ 0 ∧ reginfo.vmpath.toList.headD 0 ≠ 0))
    (addr : ℕ) :
    beAccCardReg alloc addr reginfo behind table = .error (.assertion .beAccCardReg) := by
  unfold beAccCardReg
  split
  · rfl
  · rename_i huuid
    rw [if_pos (by_contra fun hpath => h ⟨huuid, hpath⟩)]

/-- After a registration the path names the new card. -/
theorem named_after_place {addr : ℕ} {slots : List (Option BeCardInner)} (regNum : ℤ)
    (hterm : Terminated reginfo)
    (habsent : beLaGetAccCardptr table (reginfo.pathBefore behind) = none)
    (hplace : place ⟨addr, reginfo, none, none, none⟩ table.slots = some slots) :
    beLaGetAccCardptr ⟨slots, regNum⟩ (reginfo.pathBefore behind) =
      some ⟨addr, reginfo, none, none, none⟩ := by
  have hperm : (records slots).Perm (⟨addr, reginfo, none, none, none⟩ :: table.cards) :=
    records_place hplace
  have hpath : (⟨addr, reginfo, none, none, none⟩ : BeCardInner).path =
      reginfo.pathBefore behind := by
    rw [BeCardInner.path, pathBefore_of_terminated hterm, pathBefore_of_terminated hterm]
  have hsome : (beLaGetAccCardptr ⟨slots, regNum⟩ (reginfo.pathBefore behind)).isSome := by
    rw [beLaGetAccCardptr, List.find?_isSome]
    exact ⟨_, hperm.mem_iff.mpr List.mem_cons_self, by simpa using hpath⟩
  obtain ⟨found, hfound⟩ := Option.isSome_iff_exists.mp hsome
  obtain ⟨hmem, hnamed⟩ := named_some hfound
  rcases List.mem_cons.mp (hperm.mem_iff.mp hmem) with heq | hold
  · rw [hfound, heq]
  · exact absurd hnamed (not_named habsent found hold)

variable {cmd : CmdHdr} {env : CommandWorld} {s s' : Daemon} {ok : Bool}

/-- A registration that the table refuses returns -1 and changes nothing. -/
theorem command_refused (htype : cmd.cmdType = cmdTypeRegister)
    (huuid : cmd.card.vmUuid.toList.headD 0 ≠ 0) (hpath : cmd.card.vmpath.toList.headD 0 ≠ 0)
    (h : ¬ Inserts s.table env.allocCard cmd.card (behindRecord cmd behind)) :
    beLaCmdProcess cmd behind env s = .ok (false, s) := by
  unfold behindRecord at h
  unfold beLaCmdProcess
  rw [if_pos htype]
  simp only [reg_refuses huuid hpath h]

/-- A registration that the table takes adds one card, with the record of the command,
whether the channel opens or not. -/
theorem command_inserted (htype : cmd.cmdType = cmdTypeRegister)
    (huuid : cmd.card.vmUuid.toList.headD 0 ≠ 0) (hpath : cmd.card.vmpath.toList.headD 0 ≠ 0)
    (hins : Inserts s.table env.allocCard cmd.card (behindRecord cmd behind))
    (h : beLaCmdProcess cmd behind env s = .ok (ok, s')) :
    s'.cards.length = s.cards.length + 1 ∧
      ∃ card ∈ s'.cards, card.card = cmd.card ∧ ∀ x ∈ s'.cards, x = card ∨ x ∈ s.cards := by
  have hplaced := reg_inserts huuid hpath hins s.shared.nextAddr
  unfold behindRecord at hplaced
  obtain ⟨slots, hslots, hreg⟩ := hplaced
  unfold beLaCmdProcess at h
  rw [if_pos htype] at h
  simp only [hreg] at h
  set copy : BeCardInner := ⟨s.shared.nextAddr, cmd.card, none, none, none⟩ with hcopy
  have hperm : (records slots).Perm (copy :: s.cards) := records_place hslots
  have hlength : (records slots).length = s.cards.length + 1 := hperm.length_eq
  have hmem : ∀ x, x ∈ records slots ↔ x = copy ∨ x ∈ s.cards := fun x => by
    rw [hperm.mem_iff, List.mem_cons]
  rcases open_spec h with ⟨-, rfl⟩ | ⟨found, hfound, hwrite⟩
  · exact ⟨hlength, copy, (hmem copy).mpr (.inl rfl), rfl, fun x hx => (hmem x).mp hx⟩
  · obtain ⟨hin, hnamed⟩ := named_some hfound
    have hnew : found = copy := by
      rcases (hmem found).mp hin with heq | hold
      · exact heq
      · exact absurd hnamed (not_named hins.absent found hold)
    subst hnew
    -- either write puts the armed or silent copy in the place of the new card
    have hwritten : ∀ event, s'.cards = (Daemon.writeCard
        { s with table := ⟨slots, s.table.regNum + 1⟩ } { copy with readEvent := event }).cards →
        s'.cards.length = s.cards.length + 1 ∧
          ∃ card ∈ s'.cards, card.card = cmd.card ∧ ∀ x ∈ s'.cards, x = card ∨ x ∈ s.cards := by
      intro event hcards
      rw [hcards]
      refine ⟨?_, { copy with readEvent := event }, mem_writeCard.mpr (.inl ⟨rfl, copy, hin, rfl⟩),
        rfl, ?_⟩
      · rw [← hlength]
        exact (congrArg List.length (records_overwrite _ _)).trans (List.length_map _)
      · intro x hx
        rcases mem_writeCard.mp hx with ⟨heq, -⟩ | ⟨hx, hne⟩
        · exact .inl heq
        · rcases (hmem x).mp hx with rfl | hold
          · exact absurd rfl hne
          · exact .inr hold
    rcases hwrite with ⟨-, rfl⟩ | ⟨socket, -, -, rfl⟩
    · exact hwritten none rfl
    · exact hwritten _ rfl

/-- A registration that the table takes returns what opening its channel returns. -/
theorem command_opens (htype : cmd.cmdType = cmdTypeRegister)
    (huuid : cmd.card.vmUuid.toList.headD 0 ≠ 0) (hpath : cmd.card.vmpath.toList.headD 0 ≠ 0)
    (hterm : Terminated cmd.card)
    (hins : Inserts s.table env.allocCard cmd.card (behindRecord cmd behind)) :
    ∃ s', beLaCmdProcess cmd behind env s = .ok (opens env.openRun, s') := by
  have hplaced := reg_inserts huuid hpath hins s.shared.nextAddr
  have habsent := hins.absent
  unfold behindRecord at hplaced habsent
  obtain ⟨slots, hslots, hreg⟩ := hplaced
  have hnamed := named_after_place (s.table.regNum + 1) hterm habsent hslots
  unfold beLaCmdProcess
  rw [if_pos htype]
  simp only [hreg, vmChannelOpen, unixSocketClntInit, hnamed]
  unfold opens
  cases env.openRun.access <;> cases env.openRun.socket <;> cases env.openRun.connect <;>
    cases env.openRun.nonblocking <;> cases env.openRun.eventNew <;> simp

/-- After a registration that fails in its second phase every further one of the same
record is refused, whatever its system calls do. -/
theorem retry_refused (htype : cmd.cmdType = cmdTypeRegister) (hnamed : WellNamed cmd.card)
    (hins : Inserts s.table env.allocCard cmd.card (behindRecord cmd behind))
    (h : beLaCmdProcess cmd behind env s = .ok (ok, s')) (env' : CommandWorld) :
    beLaCmdProcess cmd behind env' s' = .ok (false, s') := by
  obtain ⟨-, card, hcard, hrecord, -⟩ := command_inserted htype hnamed.uuid hnamed.path hins h
  refine command_refused htype hnamed.uuid hnamed.path fun hagain => ?_
  refine not_named hagain.absent card hcard ?_
  rw [BeCardInner.path, hrecord, pathBefore_of_terminated hnamed.pathEnds,
    pathBefore_of_terminated hnamed.pathEnds]

/-- A failed registration leaves the table as it was exactly where it does not fail in the
opening of the channel of a card that the table took. -/
theorem failed_registration_traceless_iff (htype : cmd.cmdType = cmdTypeRegister)
    (hnamed : WellNamed cmd.card) :
    (∀ s', beLaCmdProcess cmd behind env s = .ok (false, s') → s'.table = s.table) ↔
      ¬ (Inserts s.table env.allocCard cmd.card (behindRecord cmd behind) ∧
        opens env.openRun = false) := by
  constructor
  · rintro htraceless ⟨hins, hfails⟩
    obtain ⟨s', h⟩ := command_opens htype hnamed.uuid hnamed.path hnamed.pathEnds hins
    rw [hfails] at h
    obtain ⟨hlength, -⟩ := command_inserted htype hnamed.uuid hnamed.path hins h
    rw [Daemon.cards, htraceless s' h] at hlength
    exact absurd hlength (Nat.succ_ne_self _).symm
  · intro hcond s' h
    by_cases hins : Inserts s.table env.allocCard cmd.card (behindRecord cmd behind)
    · obtain ⟨after, hopens⟩ := command_opens htype hnamed.uuid hnamed.path hnamed.pathEnds hins
      rw [h, Except.ok.injEq, Prod.mk.injEq] at hopens
      exact absurd ⟨hins, hopens.1.symm⟩ hcond
    · rw [command_refused htype hnamed.uuid hnamed.path hins] at h
      cases h
      rfl

theorem wellNamed_plain : WellNamed (AccCard.plain 0x73) :=
  ⟨by decide, by decide, by decide, by decide⟩

/-- Where the copy of the card is not allocated, the failed registration leaves no trace. -/
theorem failed_registration_traceless_no_memory :
    ∃ s', beLaCmdProcess ⟨AccCard.plain 0x73, cmdTypeRegister⟩ []
        ⟨false, ⟨true, true, true, true, true⟩⟩ (boot []) = .ok (false, s') ∧
      s'.table = (boot []).table := by
  have hrefused : beLaCmdProcess ⟨AccCard.plain 0x73, cmdTypeRegister⟩ []
      ⟨false, ⟨true, true, true, true, true⟩⟩ (boot []) = .ok (false, boot []) :=
    command_refused rfl wellNamed_plain.uuid wellNamed_plain.path fun hins => by cases hins.alloc
  refine ⟨boot [], hrefused, ?_⟩
  apply (failed_registration_traceless_iff rfl wellNamed_plain).mpr _ _ hrefused
  exact fun h => by cases h.1.alloc

/-- The channel of a fresh card does not connect: the command fails, and the card stays. -/
theorem failed_connect_leaves_card :
    ¬ ∀ (cmd : CmdHdr) (behind : Bytes) (env : CommandWorld) (s s' : Daemon),
      cmd.cmdType = cmdTypeRegister → WellNamed cmd.card →
      beLaCmdProcess cmd behind env s = .ok (false, s') → s'.table = s.table := by
  intro hall
  let cmd : CmdHdr := ⟨AccCard.plain 0x73, cmdTypeRegister⟩
  let env : CommandWorld := ⟨true, ⟨true, true, false, true, true⟩⟩
  have hins : Inserts (boot []).table env.allocCard cmd.card (behindRecord cmd []) :=
    ⟨by decide, by decide, rfl⟩
  obtain ⟨s', h⟩ := command_opens (s := boot []) rfl wellNamed_plain.uuid wellNamed_plain.path
    wellNamed_plain.pathEnds hins
  obtain ⟨hlength, -⟩ := command_inserted rfl wellNamed_plain.uuid wellNamed_plain.path hins h
  rw [Daemon.cards, hall cmd [] env (boot []) s' rfl wellNamed_plain h] at hlength
  exact absurd hlength (Nat.succ_ne_self _).symm

end BeLa.Registration
