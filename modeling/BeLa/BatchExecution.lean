import BeLa.Editing

/-!
What `acc_ovs_edit_rules` makes of a whole batch. A flow of another protocol
stops it before the first command. Otherwise no text is ever too long for its
buffer, and the commands run in the order of the flows as far as the first one
that fails, behind which an added batch is flushed and a removed one is left. A
command for a remote host is the exception: the daemon does not survive it.
-/
namespace BeLa.BatchExecution

open Stops Numerals BeLa.Flow OfctlRule CommandLine Switch Context Execute Editing

def editLines (context : AccContext) (isDelete : Bool) (flows : List AccFlow) : List Text :=
  flows.map fun flow => editText isDelete context.bridge (ruleOf context.hostid flow)

/-- The commands of a batch that is built: the edit lines up to the first failure, and behind
a failure the flush of an add. -/
def executed (w : World) (context : AccContext) (isDelete : Bool) (flows : List AccFlow) :
    List Text :=
  match firstFailure w context flows.length with
  | none => editLines context isDelete flows
  | some k => editLines context isDelete (flows.take (k + 1)) ++
      if isDelete then [] else [flushText context.bridge context.hostid]

structure Untruncated (context : AccContext) (isDelete : Bool) (flow : AccFlow) : Prop where
  head : (formatted (matchPieces flow)).length < textSize
  ports : ∀ pieces, protocolPieces flow = some pieces →
    (formatted (matchPieces flow)).length + (formatted pieces).length < textSize
  action : (formatted (actionPieces flow)).length < textSize
  rule : accOvsBuildOfctlRule context.hostid flow = some (ruleOf context.hostid flow)
  line : (editText isDelete context.bridge (ruleOf context.hostid flow)).length < lineSize

/-- A batch with a flow of another protocol than 6 and 17 executes nothing and fails. Every
other batch truncates nothing, succeeds when none of its commands fails, and executes one
command for each flow as far as the first failure, with one flush behind it for an add. -/
structure ExecutesBatch (w : World) (context : AccContext) (flows : List AccFlow)
    (isDelete : Bool) (sh : Shared) (ok : Bool) (after : Shared) : Prop where
  refused : (∃ flow ∈ flows, flow.match.protocol ≠ 6 ∧ flow.match.protocol ≠ 17) →
    ok = false ∧ after = sh
  untruncated : (∀ flow ∈ flows, flow.match.protocol = 6 ∨ flow.match.protocol = 17) →
    (∀ flow ∈ flows, Untruncated context isDelete flow) ∧
      (flushText context.bridge context.hostid).length < lineSize
  result : (∀ flow ∈ flows, flow.match.protocol = 6 ∨ flow.match.protocol = 17) →
    (ok = true ↔ ∀ i, i < flows.length → verdict context (w.shell i))
  lines : (∀ flow ∈ flows, flow.match.protocol = 6 ∨ flow.match.protocol = 17) →
    after.history.lines = sh.history.lines ++ executed w context isDelete flows

def BatchExecuted (w : World) (context : AccContext) (flows : List AccFlow) (isDelete : Bool)
    (sh : Shared) : Prop :=
  ∃ ok after, accOvsEditRules w context flows isDelete sh = .ok (ok, after) ∧
    ExecutesBatch w context flows isDelete sh ok after

variable {w : World} {context : AccContext} {isDelete : Bool} {flows : List AccFlow} {sh : Shared}

theorem untruncated (hbridge : context.bridge.length < 256) {flow : AccFlow}
    (hflow : Supported flow) : Untruncated context isDelete flow where
  head := by
    have hhead := length_matchHead_le flow
    rw [formatted_matchPieces, textSize]
    omega
  ports := by
    intro pieces hpieces
    have hhead := length_matchHead_le flow
    obtain ⟨built, hbuilt, hformatted, hlen⟩ := formatted_protocolPieces hflow
    cases hpieces.symm.trans hbuilt
    rw [formatted_matchPieces, hformatted, textSize]
    omega
  action := by
    have haction := length_actionText_le flow
    rw [formatted_actionPieces, textSize]
    omega
  rule := build_of_supported hflow
  line := (commandLine_eq_some_iff.mp
    (commandLine_editText isDelete hbridge context.hostid flow)).1

theorem lines_batchResult (hbuilt : Built w flows) :
    (batchResult w context isDelete flows sh).2.history.lines =
      sh.history.lines ++ executed w context isDelete flows := by
  rw [batchResult, if_pos hbuilt]
  unfold executed
  cases firstFailure w context flows.length with
  | none => exact lines_editFlows 0 flows
  | some k =>
    cases isDelete with
    | true => exact (lines_editFlows 0 _).trans (by simp [editLines])
    | false =>
      -- the flush adds its line behind those of the loop
      have hflush : ∀ run after, (afterFlush w context run after).history.lines =
          after.history.lines ++ [flushText context.bridge context.hostid] := fun _ _ => rfl
      simp only [Bool.false_eq_true, if_false]
      rw [hflush, lines_editFlows, List.append_assoc]
      rfl

theorem batchResult_ok (hbuilt : Built w flows) :
    (batchResult w context isDelete flows sh).1 = true ↔
      ∀ i, i < flows.length → verdict context (w.shell i) := by
  rw [batchResult, if_pos hbuilt]
  rcases firstFailure_cases w context flows.length with ⟨hfirst, h⟩ | ⟨k, hfirst, hk, -, hfail⟩
  · rw [hfirst]
    exact iff_of_true rfl h
  · rw [hfirst]
    exact iff_of_false (by simp) fun hall => hfail (hall k hk)

theorem executesBatch (hbridge : context.bridge.length < 256) (halloc : w.allocRules = true) :
    ExecutesBatch w context flows isDelete sh (batchResult w context isDelete flows sh).1
      (batchResult w context isDelete flows sh).2 where
  refused := by
    rintro ⟨flow, hflow, htcp, hudp⟩
    rw [batchResult, if_neg fun hbuilt => (hbuilt.2 flow hflow).elim htcp hudp]
    exact ⟨rfl, rfl⟩
  untruncated hflows := ⟨fun flow hflow => untruncated hbridge (hflows flow hflow),
    (commandLine_eq_some_iff.mp (commandLine_flushText hbridge context.hostid)).1⟩
  result hflows := batchResult_ok ⟨halloc, hflows⟩
  lines hflows := lines_batchResult ⟨halloc, hflows⟩

/-- A batch is executed just where no command of it is for a remote host: the context runs its
commands here, or a flow is of another protocol, or there is none. -/
theorem batch_executed_iff (w : World) (context : AccContext) (flows : List AccFlow)
    (isDelete : Bool) (sh : Shared) (hbridge : context.bridge.length < 256)
    (halloc : w.allocRules = true) :
    BatchExecuted w context flows isDelete sh ↔
      context.sshRemote = none ∨
        (∃ flow ∈ flows, flow.match.protocol ≠ 6 ∧ flow.match.protocol ≠ 17) ∨ flows = [] := by
  have hcond : (context.sshRemote = none ∨
      (∃ flow ∈ flows, flow.match.protocol ≠ 6 ∧ flow.match.protocol ≠ 17) ∨ flows = []) ↔
        ¬ RemoteCommand w context flows := by
    have hother : (∃ flow ∈ flows, flow.match.protocol ≠ 6 ∧ flow.match.protocol ≠ 17) ↔
        ¬ ∀ flow ∈ flows, Supported flow := by
      simp [Supported]
    unfold RemoteCommand Built
    rw [hother, ← Option.not_isSome_iff_eq_none]
    tauto
  unfold BatchExecuted
  rw [hcond, edit_eq hbridge]
  constructor
  · rintro ⟨ok, after, hresult, -⟩ hremote
    rw [if_pos hremote] at hresult
    cases hresult
  · intro hlocal
    rw [if_neg hlocal]
    exact ⟨_, _, rfl, executesBatch hbridge halloc⟩

def secondFails : World := .openVSwitch fun i => .ended (if i = 1 then 1 else 0)

def threeFlows : List AccFlow := [.plain 6, .plain 17, .plain 6]

/-- Of three flows two are attempted, and the flush follows. -/
theorem batch_executed_second_fails :
    BatchExecuted secondFails (.plain 1 0 0xDEAD0000) threeFlows false (.start []) ∧
    (executed secondFails (.plain 1 0 0xDEAD0000) false threeFlows).length = 3 :=
  ⟨(batch_executed_iff secondFails (.plain 1 0 0xDEAD0000) threeFlows false (.start [])
    (by decide) rfl).mpr (.inl rfl), rfl⟩

/-- With a remote host a batch of one TCP flow is not executed, though its command would run
and exit with 0. -/
theorem remote_batch_stops :
    ¬ ∀ (w : World) (context : AccContext) (flows : List AccFlow) (isDelete : Bool) (sh : Shared),
      context.bridge.length < 256 → w.allocRules = true →
        BatchExecuted w context flows isDelete sh := by
  intro hall
  obtain ⟨ok, after, hresult, -⟩ := hall .healthy
    { AccContext.plain 1 0 0xDEAD0000 with sshRemote := some ⟨[], [], [], 22⟩ } [.plain 6] false
    (.start []) (by decide) rfl
  rw [edit_remote (by decide) rfl (by decide) (by decide)] at hresult
  cases hresult

end BeLa.BatchExecution
