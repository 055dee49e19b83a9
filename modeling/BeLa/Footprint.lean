import BeLa.Editing
import BeLa.Logs

/-!
What a context leaves behind when it executes commands: every rule it adds is
noted under its name with its cookie, the bridge gains no other rules, and what
its flushes take off has its cookie. A batch and a flush both have such a
footprint, and footprints compose.
-/
namespace BeLa.Footprint

open BeLa.Flow OfctlRule CommandLine Switch Context Execute Editing Logs

variable {w : World} {context : AccContext} {sh sh₁ sh₂ sh₃ : Shared}

/-- A rule that was on the bridge before, or that has been added since under the cookie of
the context. -/
def Accounted (context : AccContext) (sh after : Shared) (r : SwitchRule) : Prop :=
  r ∈ sh.rules ∨ r.cookie = context.hostid.toNat ∧
    ∃ install ∈ after.history.installs, install.rule = r

def InstalledBy (context : AccContext) (install : Install) : Prop :=
  install.card = context.card ∧ install.context = context.addr ∧
    install.rule.cookie = context.hostid.toNat

def FlushedBy (context : AccContext) (sh after : Shared) (flush : Flush) : Prop :=
  flush.card = context.card ∧ flush.context = context.addr ∧ flush.hostid = context.hostid ∧
    ∀ r ∈ flush.deleted, r.cookie = context.hostid.toNat ∧ Accounted context sh after r

structure Footprint (context : AccContext) (sh after : Shared) : Prop where
  counters : SameCounters sh after
  installs : Grown (InstalledBy context) sh.history.installs after.history.installs
  rules : ∀ r ∈ after.rules, Accounted context sh after r
  flushes : Grown (FlushedBy context sh after) sh.history.flushes after.history.flushes

theorem Footprint.refl (context : AccContext) (sh : Shared) : Footprint context sh sh :=
  ⟨⟨rfl, rfl, rfl⟩, Grown.refl _, fun _ hr => .inl hr, Grown.refl _⟩

theorem Footprint.trans (h : Footprint context sh₁ sh₂) (h' : Footprint context sh₂ sh₃) :
    Footprint context sh₁ sh₃ := by
  have hlater : ∀ r, Accounted context sh₁ sh₂ r → Accounted context sh₁ sh₃ r := by
    rintro r (hr | ⟨hcookie, install, hin, hrule⟩)
    · exact .inl hr
    · exact .inr ⟨hcookie, install, h'.installs.mem_of_old hin, hrule⟩
  have hearlier : ∀ r, Accounted context sh₂ sh₃ r → Accounted context sh₁ sh₃ r := by
    rintro r (hr | hin)
    · exact hlater r (h.rules r hr)
    · exact .inr hin
  refine ⟨h.counters.trans h'.counters, h.installs.trans h'.installs,
    fun r hr => hearlier r (h'.rules r hr), ?_⟩
  refine (h.flushes.mono ?_).trans (h'.flushes.mono ?_)
  · rintro flush ⟨hcard, hcontext, hhostid, hdeleted⟩
    exact ⟨hcard, hcontext, hhostid, fun r hr => (hdeleted r hr).imp_right (hlater r)⟩
  · rintro flush ⟨hcard, hcontext, hhostid, hdeleted⟩
    exact ⟨hcard, hcontext, hhostid, fun r hr => (hdeleted r hr).imp_right (hearlier r)⟩

theorem footprint_noteBatch (flows : List AccFlow) :
    Footprint context sh (noteBatch context flows sh) :=
  ⟨⟨rfl, rfl, rfl⟩, Grown.refl _, fun _ hr => .inl hr, Grown.refl _⟩

theorem footprint_editFlow (hbr0 : context.bridge = br0) {flow : AccFlow} (hflow : Supported flow)
    (i : ℕ) : Footprint context sh (editFlow w context false i flow sh) := by
  have hinstalls := @installs_editFlow w context sh i flow
  refine ⟨editFlow_sameCounters false i flow, ?_, fun r hr => ?_,
    Grown.of_eq (flushes_editFlow false i flow)⟩
  · by_cases hout : carriedOut context (w.shell i)
    · rw [if_pos hout] at hinstalls
      exact Grown.push hinstalls ⟨rfl, rfl, rfl⟩
    · rw [if_neg hout] at hinstalls
      exact Grown.of_eq hinstalls
  · rcases (mem_rules_editFlow hbr0 hflow i r).mp hr with ⟨hout, rfl⟩ | ⟨hold, -⟩
    · rw [if_pos hout] at hinstalls
      exact .inr ⟨rfl, _, by rw [hinstalls]; exact List.mem_concat_self, rfl⟩
    · exact .inl hold

theorem footprint_editFlows (hbr0 : context.bridge = br0) {flows : List AccFlow}
    (hflows : ∀ flow ∈ flows, Supported flow) (i : ℕ) :
    Footprint context sh (editFlows w context false i flows sh) :=
  editFlows_induct (P := Footprint context sh)
    (fun j flow _ hflow h => h.trans (footprint_editFlow hbr0 (hflows flow hflow) j))
    (Footprint.refl context sh)

theorem footprint_flush (hbr0 : context.bridge = br0) (run : CommandRun) :
    Footprint context sh (afterFlush w context run sh) := by
  obtain ⟨deleted, hflushes, hdeleted⟩ := @flushes_flush w context sh hbr0 run
  refine ⟨flush_sameCounters run, Grown.of_eq (installs_flush run), fun r hr => ?_, ?_⟩
  · exact .inl ((mem_rules_flush hbr0 run r).mp hr).1
  · exact Grown.push hflushes
      ⟨rfl, rfl, rfl, fun r hr => ⟨(hdeleted r hr).2, .inl (hdeleted r hr).1⟩⟩

/-- A batch has the footprint of its context, however it ends. -/
theorem footprint_addRules (hbr0 : context.bridge = br0) (flows : List AccFlow) :
    Footprint context sh (addResult w context flows sh).2 := by
  have hnote : Footprint context sh (noteBatch context flows sh) := footprint_noteBatch flows
  rcases addResult_cases w context flows sh with
    ⟨hadd, -⟩ | ⟨hadd, hbuilt, -⟩ | ⟨k, -, hbuilt, -, hadd⟩
  · rw [hadd]
    exact hnote
  · rw [hadd]
    exact hnote.trans (footprint_editFlows hbr0 hbuilt.2 0)
  · have hfront : ∀ flow ∈ flows.take (k + 1), Supported flow := fun flow hflow =>
      hbuilt.2 flow (List.mem_of_mem_take hflow)
    rw [hadd]
    exact (hnote.trans (footprint_editFlows hbr0 hfront 0)).trans (footprint_flush hbr0 _)

end BeLa.Footprint
