import BeLa.Editing

/-!
Local and remote execution. The local executor learns the exit status of a
command from `system`. The remote one prints a log line first, whose arguments
are not in the order of its format, and does not get past it: the two take the
same way through a batch exactly when it comes to no command.
-/
namespace BeLa.RemoteExecution

open Stops Numerals BeLa.Flow OfctlRule CommandLine Switch Context Execute Editing

def runLocally (context : AccContext) : AccContext := { context with sshRemote := none }

def runRemotely (remote : SshRemoteExecute) (context : AccContext) : AccContext :=
  { context with sshRemote := some remote }

/-- The command strings that `acc_ovs_add_rules` issues; none is issued by a call that stops. -/
def issued (w : World) (context : AccContext) (flows : List AccFlow) (sh : Shared) : List Text :=
  match accOvsAddRules w context flows sh with
  | .error _ => []
  | .ok (_, after) => after.history.lines.drop sh.history.lines.length

/-- Every command reaches a shell, here and on the remote host, and the commands of the batch
exit with the same statuses here and there, as far as they are issued here. -/
structure SameExits (here there : World) (n : ℕ) : Prop where
  reached : ∀ i, here.shell i = .ended (here.shell i).status
  accepted : ∀ i, there.shell i = .ended (there.shell i).status
  alloc : here.allocRules = there.allocRules
  exits : ∀ i, i < n → (∀ j, j < i → (here.shell j).status = 0) →
    (there.shell i).status = (here.shell i).status

def JudgedByExit (w : World) (context : AccContext) (run : CommandRun) : Prop :=
  ∀ line sh, ∃ ok after, executeOpenflowRule w context line run sh = .ok (ok, after) ∧
    (ok = true ↔ run.status = 0)

structure Agree (here there : World) (context : AccContext) (remote : SshRemoteExecute)
    (flows : List AccFlow) (sh : Shared) : Prop where
  result : (accOvsAddRules here (runLocally context) flows sh).map Prod.fst =
    (accOvsAddRules there (runRemotely remote context) flows sh).map Prod.fst
  commands : issued here (runLocally context) flows sh =
    issued there (runRemotely remote context) flows sh
  judged : ∀ i, i < (issued here (runLocally context) flows sh).length →
    JudgedByExit here (runLocally context) (here.shell i) ∧
    JudgedByExit there (runRemotely remote context) (there.shell i)

variable {w here there : World} {context : AccContext} {remote : SshRemoteExecute}
variable {flows : List AccFlow} {sh : Shared}

/-- A batch without a command returns by its allocation and its flows alone. -/
theorem add_of_no_command (hbridge : context.bridge.length < 256)
    (h : ¬ Built w flows ∨ flows = []) :
    accOvsAddRules w context flows sh =
        .ok (decide (Built w flows), noteBatch context flows sh) ∧
      issued w context flows sh = [] := by
  have hresult : accOvsAddRules w context flows sh =
      .ok (decide (Built w flows), noteBatch context flows sh) := by
    rw [addRules_eq hbridge, if_neg fun hremote => h.elim (fun hn => hn hremote.2.1) hremote.2.2]
    by_cases hbuilt : Built w flows
    · obtain rfl := h.resolve_left (not_not.mpr hbuilt)
      rw [addResult_succeeds hbuilt (by simp), decide_eq_true hbuilt]
      rfl
    · rw [addResult_refused hbuilt, decide_eq_false hbuilt]
  refine ⟨hresult, ?_⟩
  unfold issued
  rw [hresult]
  exact List.drop_length

/-- The executors agree exactly on the batches that come to no command. -/
theorem executors_agree_iff (hbridge : context.bridge.length < 256)
    (hexits : SameExits here there flows.length) :
    Agree here there context remote flows sh ↔
      ¬ (here.allocRules ∧ ∀ flow ∈ flows, Supported flow) ∨ flows = [] := by
  have hthere : Built there flows ↔ Built here flows := by
    unfold Built
    rw [hexits.alloc]
  constructor
  · intro hagree
    by_contra hcommand
    obtain ⟨hbuilt, hflows⟩ := not_or.mp hcommand
    have hremote : RemoteCommand there (runRemotely remote context) flows :=
      ⟨rfl, hthere.mpr (not_not.mp hbuilt), hflows⟩
    have hresult := hagree.result
    rw [@addRules_local here (runLocally context) sh hbridge rfl,
      @addRules_eq there (runRemotely remote context) sh hbridge, if_pos hremote] at hresult
    cases hresult
  · intro hcond
    have hhere := @add_of_no_command here (runLocally context) flows sh hbridge hcond
    have hremote := @add_of_no_command there (runRemotely remote context) flows sh hbridge
      (hcond.imp_left fun hnot => hnot ∘ hthere.mp)
    refine ⟨?_, hhere.2.trans hremote.2.symm, fun i hi => ?_⟩
    · rw [hhere.1, hremote.1]
      simp only [Except.map, hthere]
    · rw [hhere.2] at hi
      exact absurd hi (Nat.not_lt_zero i)

theorem sameExits_ended (n status : ℕ) :
    SameExits (.openVSwitch fun _ => .ended status) (.openVSwitch fun _ => .ended status) n :=
  ⟨fun _ => rfl, fun _ => rfl, rfl, fun _ _ _ => rfl⟩

/-- On a batch with a flow that is neither TCP nor UDP the executors agree. -/
theorem executors_agree_icmp :
    (AccContext.plain 1 0 0xDEAD0000).bridge.length < 256 ∧
      Agree .healthy .healthy (.plain 1 0 0xDEAD0000) ⟨[], [], [], 22⟩ [.plain 6, .plain 1]
        (.start []) := by
  have hbridge := bridge_length_of_br0 (AccContext.bridge_plain 1 0 0xDEAD0000)
  exact ⟨hbridge, (executors_agree_iff hbridge (sameExits_ended 2 0)).mpr (.inl (by decide))⟩

/-- Even a batch of one flow whose command exits with 0 returns here and stops there. -/
theorem remote_command_stops :
    ¬ ∀ (here there : World) (context : AccContext) (remote : SshRemoteExecute)
      (flows : List AccFlow) (sh : Shared), context.bridge.length < 256 →
      SameExits here there flows.length → Agree here there context remote flows sh := by
  intro hall
  have hbridge := bridge_length_of_br0 (AccContext.bridge_plain 1 0 0xDEAD0000)
  have hresult := (hall .healthy .healthy (.plain 1 0 0xDEAD0000) ⟨[], [], [], 22⟩ [.plain 6]
    (.start []) hbridge (sameExits_ended 1 0)).result
  have hremote : RemoteCommand .healthy
      (runRemotely ⟨[], [], [], 22⟩ (.plain 1 0 0xDEAD0000)) [.plain 6] := by decide
  rw [@addRules_local _ (runLocally (.plain 1 0 0xDEAD0000)) _ hbridge rfl,
    @addRules_eq _ (runRemotely ⟨[], [], [], 22⟩ (.plain 1 0 0xDEAD0000)) _ hbridge,
    if_pos hremote] at hresult
  cases hresult

end BeLa.RemoteExecution
