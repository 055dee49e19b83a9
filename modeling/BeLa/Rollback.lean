import BeLa.Editing

/-!
The recovery flush of a failed batch. It takes off every rule of the context's
cookie, not the rules of the batch: the bridge is as before the call exactly when
it held no rule of that cookie and none that a rule of the batch has replaced.
-/
namespace BeLa.Rollback

open Numerals BeLa.Flow OfctlRule CommandLine Switch Context Execute Editing

variable {w : World} {context : AccContext} {sh : Shared} {flows : List AccFlow} {k : ℕ}

/-- A command that is reported to have failed has changed nothing. -/
theorem not_carriedOut_of_failed {run : CommandRun} (h : ¬ verdict context run) :
    ¬ carriedOut context run := by
  unfold verdict at h
  unfold carriedOut
  cases hremote : context.sshRemote with
  | none => simpa [hremote] using h
  | some remote =>
    have hssh : ¬ sshRemoteExec run.ssh = 0 := by simpa [hremote] using h
    simp [hssh]

/-- The rules a batch replaces before its command `k`. -/
def ReplacedBefore (w : World) (context : AccContext) (flows : List AccFlow) (k : ℕ)
    (r : SwitchRule) : Prop :=
  ∃ j flow, j < k ∧ flows[j]? = some flow ∧ carriedOut context (w.shell j) ∧
    w.ofctl.replaces (installed (ruleOf context.hostid flow)) r

/-- What a failed batch leaves on the bridge. -/
theorem mem_rules_of_failed (hbr0 : context.bridge = br0) (hbuilt : Built w flows)
    (hk : k < flows.length) (hbefore : ∀ j, j < k → verdict context (w.shell j))
    (hfail : ¬ verdict context (w.shell k)) (hflush : carriedOut context (w.shell (k + 1)))
    (r : SwitchRule) :
    r ∈ (addResult w context flows sh).2.rules ↔
      r ∈ sh.rules ∧ r.cookie ≠ context.hostid.toNat ∧
        ¬ ReplacedBefore w context flows k r := by
  have hlast := not_carriedOut_of_failed hfail
  rw [addResult_fails hbuilt hk hbefore hfail, mem_rules_flush hbr0]
  simp only [hflush, forall_const]
  rw [and_comm, and_left_comm]
  refine and_congr_right fun hr => ?_
  rw [mem_rules_editFlows hbr0 (fun f hf => hbuilt.2 f (List.mem_of_mem_take hf)) 0 hr, noteBatch]
  refine and_congr_right fun _ => ?_
  unfold ReplacedBefore
  constructor
  · rintro h ⟨j, flow, hj, hflow, hout, hreplaces⟩
    have htake : (flows.take (k + 1))[j]? = some flow := by
      rwa [List.getElem?_take_of_lt (by omega)]
    exact h j flow htake (by rwa [Nat.zero_add]) hreplaces
  · intro h j flow hflow hout hreplaces
    obtain ⟨hlt, _⟩ := List.getElem?_eq_some_iff.mp hflow
    have hj : j < k + 1 := lt_of_lt_of_le hlt (List.length_take_le _ _)
    rw [List.getElem?_take_of_lt hj] at hflow
    rw [Nat.zero_add] at hout
    have hne : j ≠ k := by
      rintro rfl
      exact hlast hout
    exact h ⟨j, flow, by omega, hflow, hout, hreplaces⟩

/-- A failed batch leaves the bridge as it was exactly when no rule on it carried the
context's cookie and none was replaced by a rule of the batch before the failure. -/
theorem failed_batch_restores_iff (hbr0 : context.bridge = br0)
    (hlocal : context.sshRemote = none) (halloc : w.allocRules)
    (hflows : ∀ flow ∈ flows, Supported flow) (hk : k < flows.length)
    (hbefore : ∀ j, j < k → verdict context (w.shell j)) (hfail : ¬ verdict context (w.shell k))
    (hflush : carriedOut context (w.shell (k + 1))) :
    ∃ after, accOvsAddRules w context flows sh = .ok (false, after) ∧
      ((∀ r, r ∈ after.rules ↔ r ∈ sh.rules) ↔
        ∀ r ∈ sh.rules, r.cookie ≠ context.hostid.toNat ∧
          ¬ ReplacedBefore w context flows k r) := by
  have hmem := @mem_rules_of_failed w context sh flows k hbr0 ⟨halloc, hflows⟩ hk hbefore hfail
    hflush
  have hresult := @addRules_local w context sh (bridge_length_of_br0 hbr0) hlocal flows
  rw [addResult_fails ⟨halloc, hflows⟩ hk hbefore hfail] at hresult hmem
  refine ⟨_, hresult, fun hsame r hr => ?_, fun hcond r => ?_⟩
  · exact ((hmem r).mp ((hsame r).mpr hr)).2
  · rw [hmem r]
    exact ⟨fun h => h.1, fun hr => ⟨hr, hcond r hr⟩⟩

/-- The second command of a batch fails, its recovery flush does not. -/
def secondFails : World := .openVSwitch fun i => .ended (if i = 1 then 1 else 0)

def foreignRule : SwitchRule := installed (ruleOf 0xDEAD0001 (AccFlow.plain 17))

/-- Beside a rule of another VM the condition holds: the rule of the first command is
taken off again, and that of the other VM stays. -/
theorem failed_batch_restores_foreign :
    ∃ after, accOvsAddRules secondFails (.plain 1 0 0xDEAD0000) [.plain 6, .plain 17]
        (.start [foreignRule]) = .ok (false, after) ∧
      ∀ r, r ∈ after.rules ↔ r = foreignRule := by
  obtain ⟨after, hfails, hrestores⟩ := @failed_batch_restores_iff secondFails
    (.plain 1 0 0xDEAD0000) (.start [foreignRule]) [.plain 6, .plain 17] 1
    (AccContext.bridge_plain 1 0 0xDEAD0000) rfl rfl (by decide) (by decide) (by decide)
    (by decide) (by decide)
  have hsame : ∀ r ∈ (Shared.start [foreignRule]).rules,
      r.cookie ≠ (AccContext.plain 1 0 0xDEAD0000).hostid.toNat ∧
        ¬ ReplacedBefore secondFails (.plain 1 0 0xDEAD0000) [.plain 6, .plain 17] 1 r := by
    intro r hr
    obtain rfl := List.mem_singleton.mp hr
    refine ⟨by decide, ?_⟩
    rintro ⟨j, flow, hj, hflow, -, hreplaces⟩
    obtain rfl : j = 0 := by omega
    obtain rfl : AccFlow.plain 6 = flow := by simpa using hflow
    exact absurd hreplaces (by decide)
  refine ⟨after, hfails, fun r => ?_⟩
  rw [hrestores.mpr hsame r]
  exact List.mem_singleton

/-- The first command of a batch fails, its recovery flush does not. -/
def firstFails : World := .openVSwitch fun i => .ended (if i = 0 then 1 else 0)

def earlierRule : SwitchRule := installed (ruleOf 0xDEAD0000 (AccFlow.plain 17))

/-- A rule of an earlier batch is gone after a later batch fails on its first command. -/
theorem earlier_batch_flushed :
    ∃ after, accOvsAddRules firstFails (.plain 1 0 0xDEAD0000) [.plain 6]
        (.start [earlierRule]) = .ok (false, after) ∧
      earlierRule ∉ after.rules := by
  have hbr0 := AccContext.bridge_plain 1 0 0xDEAD0000
  have hbuilt : Built firstFails [.plain 6] := by decide
  have hresult := @addRules_local firstFails (.plain 1 0 0xDEAD0000) (.start [earlierRule])
    (bridge_length_of_br0 hbr0) rfl [.plain 6]
  have hmem := @mem_rules_of_failed firstFails (.plain 1 0 0xDEAD0000) (.start [earlierRule])
    [.plain 6] 0 hbr0 hbuilt (by decide) (by simp) (by decide) (by decide) earlierRule
  rw [addResult_fails (k := 0) hbuilt (by decide) (by simp) (by decide)] at hresult hmem
  refine ⟨_, hresult, ?_⟩
  rw [hmem]
  exact fun h => h.2.1 rfl

end BeLa.Rollback
