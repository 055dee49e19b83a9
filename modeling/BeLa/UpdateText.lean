import BeLa.CommandLine

/-!
What an emitted action text does to a packet. The eight bits of `field_mask`
flag updates of eight fields; the words of the text are read as updates. The
text of a flow holds exactly the flagged updates of the six fields that the
template prints, so nothing is lost exactly when the bits of the protocol and
of `dl_type` are clear.
-/
namespace BeLa.UpdateText

open LittleEndian Numerals Words KeyedWords BeLa.Flow OfctlRule FieldText CommandLine

/-- The fields that have an `ACTION_FIELD` bit. -/
inductive ActionField
  | srcmac
  | dstmac
  | srcIp
  | dstIp
  | srcPort
  | dstPort
  | protocol
  | dlType
  deriving DecidableEq, Repr

def ActionField.bit : ActionField → BitVec 32
  | .srcmac => actionFieldSrcmac
  | .dstmac => actionFieldDstmac
  | .srcIp => actionFieldSrcIp
  | .dstIp => actionFieldDstIp
  | .srcPort => actionFieldSrcPort
  | .dstPort => actionFieldDstPort
  | .protocol => actionFieldProtocol
  | .dlType => actionFieldDlType

inductive Update
  | srcmac (mac : Mac)
  | dstmac (mac : Mac)
  | srcIp (ip : BitVec 32)
  | dstIp (ip : BitVec 32)
  | srcPort (port : BitVec 16)
  | dstPort (port : BitVec 16)
  | protocol (protocol : Byte)
  | dlType (dlType : BitVec 16)
  deriving DecidableEq, Repr

def Update.field : Update → ActionField
  | .srcmac _ => .srcmac
  | .dstmac _ => .dstmac
  | .srcIp _ => .srcIp
  | .dstIp _ => .dstIp
  | .srcPort _ => .srcPort
  | .dstPort _ => .dstPort
  | .protocol _ => .protocol
  | .dlType _ => .dlType

def ActionField.updateIn (action : AccAction) : ActionField → Update
  | .srcmac => .srcmac action.srcmac
  | .dstmac => .dstmac action.dstmac
  | .srcIp => .srcIp action.srcIp
  | .dstIp => .dstIp action.dstIp
  | .srcPort => .srcPort action.srcPort
  | .dstPort => .dstPort action.dstPort
  | .protocol => .protocol action.protocol
  | .dlType => .dlType action.dlType

def Flagged (action : AccAction) (field : ActionField) : Prop :=
  accActionIsFieldMaskSet action field.bit

instance (action : AccAction) (field : ActionField) : Decidable (Flagged action field) := by
  unfold Flagged
  infer_instance

/-- What the switch makes of a word of an action text: it knows the six rewriting actions the
template uses, and the words at the two ends of the template rewrite nothing. How it reads
other words is left open. -/
structure UpdateReader where
  read : Text → Option Update
  srcmac : ∀ mac, read ("mod_dl_src:".toList ++ printMac mac) = some (.srcmac mac)
  dstmac : ∀ mac, read ("mod_dl_dst:".toList ++ printMac mac) = some (.dstmac mac)
  srcIp : ∀ ip, read ("mod_nw_src:".toList ++ printIp ip) = some (.srcIp ip)
  dstIp : ∀ ip, read ("mod_nw_dst:".toList ++ printIp ip) = some (.dstIp ip)
  srcPort : ∀ port, read ("mod_tp_src:".toList ++ printPort port) = some (.srcPort port)
  dstPort : ∀ port, read ("mod_tp_dst:".toList ++ printPort port) = some (.dstPort port)
  actions : read "actions=".toList = none
  output : read "output:normal".toList = none

def UpdateReader.updates (reader : UpdateReader) (text : Text) : List Update :=
  (words text).filterMap reader.read

/-- No update of the flow is dropped: an accepted flow has an action text with exactly its
flagged updates, and a flow is refused when one of its updates is in no action text. -/
structure UpdatesKept (reader : UpdateReader) (hostid : BitVec 32) (flow : AccFlow) : Prop where
  kept : ∀ rule, accOvsBuildOfctlRule hostid flow = some rule → ∀ update : Update,
    update ∈ reader.updates rule.action ↔
      Flagged flow.action update.field ∧ update = update.field.updateIn flow.action
  refused : ∀ field, Flagged flow.action field →
    (∀ other rule, accOvsBuildOfctlRule hostid other = some rule →
      field.updateIn flow.action ∉ reader.updates rule.action) →
    accOvsBuildOfctlRule hostid flow = none

def ActionField.InTemplate (field : ActionField) : Prop := field ≠ .protocol ∧ field ≠ .dlType

def updateFields (action : AccAction) : List Keyed :=
  [⟨true, "actions=".toList, []⟩,
    ⟨accActionIsFieldMaskSet action actionFieldSrcmac, "mod_dl_src:".toList,
      printMac action.srcmac⟩,
    ⟨accActionIsFieldMaskSet action actionFieldDstmac, "mod_dl_dst:".toList,
      printMac action.dstmac⟩,
    ⟨accActionIsFieldMaskSet action actionFieldSrcIp, "mod_nw_src:".toList, printIp action.srcIp⟩,
    ⟨accActionIsFieldMaskSet action actionFieldDstIp, "mod_nw_dst:".toList, printIp action.dstIp⟩,
    ⟨accActionIsFieldMaskSet action actionFieldSrcPort, "mod_tp_src:".toList,
      printPort action.srcPort⟩,
    ⟨accActionIsFieldMaskSet action actionFieldDstPort, "mod_tp_dst:".toList,
      printPort action.dstPort⟩,
    ⟨true, "output:normal".toList, []⟩]

theorem words_actionText (flow : AccFlow) :
    words (actionText flow) = keyedWords (updateFields flow.action) :=
  (words_pieces (actionPieces_spaced flow)).2

theorem mem_filterMap_keyedWords {α : Type} {read : Text → Option α} {fields : List Keyed}
    {a : α} : a ∈ (keyedWords fields).filterMap read ↔
      ∃ field ∈ fields, field.isSet ∧ read (field.key ++ field.value) = some a := by
  simp only [keyedWords, List.mem_filterMap, List.mem_map, List.mem_filter]
  constructor
  · rintro ⟨_, ⟨field, ⟨hmem, hset⟩, rfl⟩, hread⟩
    exact ⟨field, hmem, hset, hread⟩
  · rintro ⟨field, hmem, hset, hread⟩
    exact ⟨_, ⟨field, ⟨hmem, hset⟩, rfl⟩, hread⟩

variable {reader : UpdateReader}

/-- The text of a flow holds the flagged updates of the fields in the template. -/
theorem mem_updates_iff (flow : AccFlow) (update : Update) :
    update ∈ reader.updates (actionText flow) ↔ update.field.InTemplate ∧
      Flagged flow.action update.field ∧ update = update.field.updateIn flow.action := by
  have hswap : ∀ value : Update, value = update ↔ update = value := fun value => eq_comm
  rw [UpdateReader.updates, words_actionText, mem_filterMap_keyedWords]
  simp only [updateFields, List.mem_cons, List.not_mem_nil, or_false, exists_eq_or_imp,
    exists_eq_left, List.append_nil, reader.srcmac, reader.dstmac, reader.srcIp, reader.dstIp,
    reader.srcPort, reader.dstPort, reader.actions, reader.output, Option.some.injEq, hswap]
  cases update <;>
    simp [Update.field, ActionField.InTemplate, ActionField.updateIn, Flagged, ActionField.bit]

theorem rule_of_built {hostid : BitVec 32} {flow : AccFlow} {rule : AccOfctlRule}
    (h : accOvsBuildOfctlRule hostid flow = some rule) :
    Supported flow ∧ rule.action = actionText flow := by
  rw [accOvsBuildOfctlRule_eq, Option.ite_none_right_eq_some] at h
  obtain ⟨hsupported, hrule⟩ := h
  cases hrule
  exact ⟨hsupported, rfl⟩

/-- A flagged update of an accepted flow that the template does not print is dropped. -/
theorem not_kept {hostid : BitVec 32} {flow : AccFlow} (hflow : Supported flow)
    {field : ActionField} (hflagged : Flagged flow.action field) (hfield : ¬ field.InTemplate) :
    ¬ UpdatesKept reader hostid flow := by
  intro hkept
  have hbuilt : accOvsBuildOfctlRule hostid flow = some (ruleOf hostid flow) := by
    rw [accOvsBuildOfctlRule_eq, if_pos hflow]
  have hself : (field.updateIn flow.action).field = field := by cases field <;> rfl
  have hmem := (hkept.kept _ hbuilt (field.updateIn flow.action)).mpr
    (by rw [hself]; exact ⟨hflagged, rfl⟩)
  have htemplate := ((mem_updates_iff flow _).mp hmem).1
  rw [hself] at htemplate
  exact hfield htemplate

/-- No update is dropped exactly when the flow is refused for its protocol, or flags neither
an update of the protocol nor one of `dl_type`. -/
theorem updates_kept_iff (reader : UpdateReader) (hostid : BitVec 32) (flow : AccFlow) :
    UpdatesKept reader hostid flow ↔
      (Supported flow → ¬ Flagged flow.action .protocol ∧ ¬ Flagged flow.action .dlType) := by
  constructor
  · intro hkept hflow
    refine ⟨fun hflagged => ?_, fun hflagged => ?_⟩
    · exact not_kept hflow hflagged (fun h => h.1 rfl) hkept
    · exact not_kept hflow hflagged (fun h => h.2 rfl) hkept
  · intro hclear
    have htemplate : Supported flow → ∀ field, Flagged flow.action field → field.InTemplate := by
      intro hflow field hflagged
      refine ⟨?_, ?_⟩
      · rintro rfl
        exact (hclear hflow).1 hflagged
      · rintro rfl
        exact (hclear hflow).2 hflagged
    constructor
    · intro rule hrule update
      obtain ⟨hflow, haction⟩ := rule_of_built hrule
      rw [haction, mem_updates_iff]
      exact and_iff_right_of_imp fun h => htemplate hflow _ h.1
    · intro field hflagged hnone
      rw [accOvsBuildOfctlRule_eq]
      refine if_neg fun hflow => ?_
      have hbuilt : accOvsBuildOfctlRule hostid flow = some (ruleOf hostid flow) := by
        rw [accOvsBuildOfctlRule_eq, if_pos hflow]
      have hself : (field.updateIn flow.action).field = field := by cases field <;> rfl
      refine hnone flow _ hbuilt ((mem_updates_iff flow _).mpr ?_)
      rw [hself]
      exact ⟨htemplate hflow field hflagged, hflagged, rfl⟩

/-- The rewriting actions of `ovs-ofctl` that a template uses, with the readers of their values. -/
def ofctlActions : List (Text × (Text → Option Update)) :=
  [("mod_dl_src:".toList, fun v => (readMac v).map .srcmac),
    ("mod_dl_dst:".toList, fun v => (readMac v).map .dstmac),
    ("mod_nw_src:".toList, fun v => (readIp v).map .srcIp),
    ("mod_nw_dst:".toList, fun v => (readIp v).map .dstIp),
    ("mod_tp_src:".toList, fun v => (readPort v).map .srcPort),
    ("mod_tp_dst:".toList, fun v => (readPort v).map .dstPort)]

def readAction (w : Text) : Option Update :=
  ofctlActions.findSome? fun action => (after action.1 w).bind action.2

theorem readAction_keyed {i : ℕ} {key value : Text} {read : Text → Option Update}
    {update : Update} (hi : ofctlActions[i]? = some (key, read))
    (hfirst : (ofctlActions.take i).all fun action => differ action.1 key)
    (hread : read value = some update) : readAction (key ++ value) = some update :=
  @findSome?_keyed _ _ ofctlActions (fun read => read) _ _ _ _ _ hi hfirst hread

def ofctlReader : UpdateReader where
  read := readAction
  srcmac mac := @readAction_keyed 0 _ _ _ _ rfl rfl (by rw [readMac_printMac]; rfl)
  dstmac mac := @readAction_keyed 1 _ _ _ _ rfl rfl (by rw [readMac_printMac]; rfl)
  srcIp ip := @readAction_keyed 2 _ _ _ _ rfl rfl (by rw [readIp_printIp]; rfl)
  dstIp ip := @readAction_keyed 3 _ _ _ _ rfl rfl (by rw [readIp_printIp]; rfl)
  srcPort port := @readAction_keyed 4 _ _ _ _ rfl rfl (by rw [readPort_printPort]; rfl)
  dstPort port := @readAction_keyed 5 _ _ _ _ rfl rfl (by rw [readPort_printPort]; rfl)
  actions := by decide
  output := by decide

def protocolUpdate : AccFlow :=
  { AccFlow.plain 6 with action :=
      { AccAction.ofBytes [] with fieldMask := actionFieldProtocol, protocol := 17 } }

/-- The flow is accepted, and its text leaves the protocol alone. -/
theorem protocol_update_dropped :
    ¬ ∀ (hostid : BitVec 32) (flow : AccFlow), UpdatesKept ofctlReader hostid flow := by
  intro hall
  have hflow : Supported protocolUpdate := by decide
  have hflagged : Flagged protocolUpdate.action .protocol := by decide
  exact not_kept hflow hflagged (fun h => h.1 rfl) (hall 0 protocolUpdate)

end BeLa.UpdateText
