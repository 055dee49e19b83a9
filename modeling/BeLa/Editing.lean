import BeLa.Execute

/-!
What the edit loop and the flush do to the shared state. A context that runs its
commands here issues them one after the other, up to the first one that fails; a
context with a remote host stops the daemon at its first command. A flush on
bridge br0 takes off exactly the rules of its cookie.
-/
namespace BeLa.Editing

open Stops Numerals BeLa.Flow OfctlRule CommandLine Switch Context Execute

variable {w : World} {context : AccContext} {sh : Shared}

def afterCommand (w : World) (context : AccContext) (line : Text) (run : CommandRun)
    (sh : Shared) : Shared :=
  { sh with
    rules := if carriedOut context run then w.ofctl.apply line sh.rules else sh.rules
    history.lines := sh.history.lines ++ [line] }

def afterFlush (w : World) (context : AccContext) (run : CommandRun) (sh : Shared) : Shared :=
  let after := afterCommand w context (flushText context.bridge context.hostid) run sh
  { after with
    history.flushes := sh.history.flushes ++ [⟨context.card, context.addr, context.hostid,
      sh.rules.filter (· ∉ after.rules)⟩] }

def editFlow (w : World) (context : AccContext) (isDelete : Bool) (i : ℕ) (flow : AccFlow)
    (sh : Shared) : Shared :=
  let rule := ruleOf context.hostid flow
  let after := afterCommand w context (editText isDelete context.bridge rule) (w.shell i) sh
  if ¬ isDelete ∧ carriedOut context (w.shell i) then
    { after with
      history.installs := sh.history.installs ++
        [⟨context.card, context.addr, installed rule⟩] }
  else after

def editFlows (w : World) (context : AccContext) (isDelete : Bool) :
    ℕ → List AccFlow → Shared → Shared
  | _, [], sh => sh
  | i, flow :: flows, sh =>
    editFlows w context isDelete (i + 1) flows (editFlow w context isDelete i flow sh)

def Built (w : World) (flows : List AccFlow) : Prop :=
  w.allocRules ∧ ∀ flow ∈ flows, Supported flow

instance (w : World) (flows : List AccFlow) : Decidable (Built w flows) := by
  unfold Built
  infer_instance

/-- The batch has a command, and it is for a remote host. -/
def RemoteCommand (w : World) (context : AccContext) (flows : List AccFlow) : Prop :=
  context.sshRemote.isSome ∧ Built w flows ∧ flows ≠ []

instance (w : World) (context : AccContext) (flows : List AccFlow) :
    Decidable (RemoteCommand w context flows) := by
  unfold RemoteCommand
  infer_instance

def firstFailure (w : World) (context : AccContext) (n : ℕ) : Option ℕ :=
  (List.range n).find? fun i => ¬ verdict context (w.shell i)

/-- What a batch returns and leaves behind where its commands run here; true is 0. -/
def batchResult (w : World) (context : AccContext) (isDelete : Bool) (flows : List AccFlow)
    (sh : Shared) : Bool × Shared :=
  if Built w flows then
    match firstFailure w context flows.length with
    | none => (true, editFlows w context isDelete 0 flows sh)
    | some k =>
      let after := editFlows w context isDelete 0 (flows.take (k + 1)) sh
      (false, if isDelete then after else afterFlush w context (w.shell (k + 1)) after)
  else (false, sh)

def noteBatch (context : AccContext) (flows : List AccFlow) (sh : Shared) : Shared :=
  { sh with history.batches := sh.history.batches ++ [⟨context.addr, flows⟩] }

def addResult (w : World) (context : AccContext) (flows : List AccFlow) (sh : Shared) :
    Bool × Shared :=
  batchResult w context false flows (noteBatch context flows sh)

theorem mapM_build (hostid : BitVec 32) (flows : List AccFlow) :
    flows.mapM (accOvsBuildOfctlRule hostid) =
      if ∀ flow ∈ flows, Supported flow then some (flows.map (ruleOf hostid)) else none := by
  induction flows with
  | nil => simp
  | cons flow flows ih =>
    rw [List.mapM_cons, ih, accOvsBuildOfctlRule_eq]
    by_cases hflow : Supported flow
    · by_cases hflows : ∀ f ∈ flows, Supported f
      · rw [if_pos hflow, if_pos hflows, if_pos (List.forall_mem_cons.mpr ⟨hflow, hflows⟩)]
        rfl
      · rw [if_pos hflow, if_neg hflows, if_neg (fun h => hflows (List.forall_mem_cons.mp h).2)]
        rfl
    · rw [if_neg hflow, if_neg (fun h => hflow (List.forall_mem_cons.mp h).1)]
      rfl

theorem makeOfctlRules_eq (w : World) (context : AccContext) (flows : List AccFlow) :
    accOvsMakeOfctlRules w context flows =
      if Built w flows then some (flows.map (ruleOf context.hostid)) else none := by
  unfold accOvsMakeOfctlRules Built
  rw [mapM_build]
  by_cases halloc : w.allocRules <;> simp [halloc]

theorem firstFailure_none {n : ℕ} (h : ∀ i, i < n → verdict context (w.shell i)) :
    firstFailure w context n = none := by
  apply List.find?_eq_none.mpr
  intro i hi
  simpa using h i (List.mem_range.mp hi)

theorem firstFailure_some {n k : ℕ} (hk : k < n) (h : ∀ i, i < k → verdict context (w.shell i))
    (hfail : ¬ verdict context (w.shell k)) : firstFailure w context n = some k := by
  refine List.find?_range_eq_some.mpr ⟨by simpa using hfail, List.mem_range.mpr hk, ?_⟩
  intro i hi
  simpa using h i hi

/-- Either no command below the bound fails, or one of them is the first to fail. -/
theorem firstFailure_cases (w : World) (context : AccContext) (n : ℕ) :
    (firstFailure w context n = none ∧ ∀ i, i < n → verdict context (w.shell i)) ∨
      ∃ k, firstFailure w context n = some k ∧ k < n ∧
        (∀ i, i < k → verdict context (w.shell i)) ∧ ¬ verdict context (w.shell k) := by
  cases hfirst : firstFailure w context n with
  | none =>
    refine .inl ⟨rfl, fun i hi => ?_⟩
    simpa using List.find?_eq_none.mp hfirst i (List.mem_range.mpr hi)
  | some k =>
    obtain ⟨hfail, hk, hbefore⟩ := List.find?_range_eq_some.mp hfirst
    refine .inr ⟨k, rfl, List.mem_range.mp hk, fun i hi => ?_, by simpa using hfail⟩
    simpa using hbefore i hi

/-! Commands here, and on a remote host. -/

theorem execute_local (hlocal : context.sshRemote = none) (line : Text) (run : CommandRun) :
    executeOpenflowRule w context line run sh =
      .ok (verdict context run, afterCommand w context line run sh) := by
  simp only [executeOpenflowRule, logCommand, hlocal, afterCommand]

theorem execute_remote (hremote : context.sshRemote.isSome) (line : Text) (run : CommandRun) :
    executeOpenflowRule w context line run sh = .error .badString := by
  obtain ⟨remote, hsome⟩ := Option.isSome_iff_exists.mp hremote
  simp only [executeOpenflowRule, logCommand, hsome]

theorem editOne_local (hlocal : context.sshRemote = none) (isDelete : Bool) (i : ℕ)
    (flow : AccFlow) :
    editOne w context isDelete (ruleOf context.hostid flow)
      (editText isDelete context.bridge (ruleOf context.hostid flow)) (w.shell i) sh =
      .ok (verdict context (w.shell i), editFlow w context isDelete i flow sh) := by
  unfold editOne editFlow
  rw [execute_local hlocal]
  dsimp only
  split <;> rfl

/-- Every command succeeds: the loop carries out the whole batch. -/
theorem editLoop_succeeds {isDelete : Bool} (hbridge : context.bridge.length < 256)
    (hlocal : context.sshRemote = none) {flows : List AccFlow} {i : ℕ}
    (h : ∀ j, j < flows.length → verdict context (w.shell (i + j))) :
    editLoop w context isDelete i (flows.map (ruleOf context.hostid)) sh =
      .ok (none, editFlows w context isDelete i flows sh) := by
  induction flows generalizing i sh with
  | nil => rfl
  | cons flow flows ih =>
    have hhead : verdict context (w.shell i) := h 0 (by simp)
    have htail : ∀ j, j < flows.length → verdict context (w.shell (i + 1 + j)) := by
      intro j hj
      rw [Nat.add_assoc, Nat.add_comm 1 j]
      exact h (j + 1) (by simpa using hj)
    rw [List.map_cons, editLoop, commandLine_editText isDelete hbridge]
    simp only [editOne_local hlocal, if_pos hhead]
    exact ih htail

/-- Command `k` is the first to fail: the loop ends behind it. -/
theorem editLoop_fails {isDelete : Bool} (hbridge : context.bridge.length < 256)
    (hlocal : context.sshRemote = none) {flows : List AccFlow} {i k : ℕ} (hk : k < flows.length)
    (h : ∀ j, j < k → verdict context (w.shell (i + j)))
    (hfail : ¬ verdict context (w.shell (i + k))) :
    editLoop w context isDelete i (flows.map (ruleOf context.hostid)) sh =
      .ok (some (i + k + 1), editFlows w context isDelete i (flows.take (k + 1)) sh) := by
  induction flows generalizing i k sh with
  | nil => simp at hk
  | cons flow flows ih =>
    rw [List.map_cons, editLoop, commandLine_editText isDelete hbridge]
    simp only [editOne_local hlocal]
    cases k with
    | zero =>
      rw [if_neg (by simpa using hfail)]
      rfl
    | succ k =>
      have hhead : verdict context (w.shell i) := h 0 (by omega)
      have htail : ∀ j, j < k → verdict context (w.shell (i + 1 + j)) := by
        intro j hj
        rw [Nat.add_assoc, Nat.add_comm 1 j]
        exact h (j + 1) (by omega)
      have hlast : ¬ verdict context (w.shell (i + 1 + k)) := by
        rwa [Nat.add_assoc, Nat.add_comm 1 k]
      rw [if_pos hhead, ih (by simpa using hk) htail hlast, List.take_succ_cons, editFlows]
      congr 3
      omega

theorem flushRules_local (hbridge : context.bridge.length < 256)
    (hlocal : context.sshRemote = none) (run : CommandRun) :
    accOvsFlushRules w context run sh =
      .ok (verdict context run, afterFlush w context run sh) := by
  unfold accOvsFlushRules
  rw [commandLine_flushText hbridge]
  simp only [execute_local hlocal]
  rfl

theorem flushRules_remote (hbridge : context.bridge.length < 256)
    (hremote : context.sshRemote.isSome) (run : CommandRun) :
    accOvsFlushRules w context run sh = .error .badString := by
  unfold accOvsFlushRules
  rw [commandLine_flushText hbridge]
  simp only [execute_remote hremote]

/-- A flush returns just where it runs here. -/
theorem flushRules_eq (hbridge : context.bridge.length < 256) (run : CommandRun) :
    accOvsFlushRules w context run sh =
      if context.sshRemote.isSome then .error .badString
      else .ok (verdict context run, afterFlush w context run sh) := by
  by_cases hremote : context.sshRemote.isSome
  · rw [if_pos hremote, flushRules_remote hbridge hremote]
  · rw [if_neg hremote, flushRules_local hbridge (Option.not_isSome_iff_eq_none.mp hremote)]

/-- The batch cannot be built: nothing is executed. -/
theorem edit_refused {isDelete : Bool} {flows : List AccFlow} (h : ¬ Built w flows) :
    accOvsEditRules w context flows isDelete sh = .ok (false, sh) := by
  unfold accOvsEditRules
  rw [makeOfctlRules_eq, if_neg h]

/-- On a remote host the first command of a batch stops the daemon. -/
theorem edit_remote {isDelete : Bool} (hbridge : context.bridge.length < 256)
    (hremote : context.sshRemote.isSome) {flows : List AccFlow} (hbuilt : Built w flows)
    (hflows : flows ≠ []) :
    accOvsEditRules w context flows isDelete sh = .error .badString := by
  obtain ⟨flow, flows, rfl⟩ := List.exists_cons_of_ne_nil hflows
  unfold accOvsEditRules
  rw [makeOfctlRules_eq, if_pos hbuilt, List.map_cons]
  simp only [editLoop, commandLine_editText isDelete hbridge, editOne, execute_remote hremote]

theorem edit_local {isDelete : Bool} (hbridge : context.bridge.length < 256)
    (hlocal : context.sshRemote = none) (flows : List AccFlow) :
    accOvsEditRules w context flows isDelete sh =
      .ok (batchResult w context isDelete flows sh) := by
  unfold batchResult
  by_cases hbuilt : Built w flows
  · rw [if_pos hbuilt]
    unfold accOvsEditRules
    rw [makeOfctlRules_eq, if_pos hbuilt]
    rcases firstFailure_cases w context flows.length with
      ⟨hfirst, h⟩ | ⟨k, hfirst, hk, h, hfail⟩
    · simp only [hfirst, editLoop_succeeds hbridge hlocal (i := 0) (by simpa using h)]
    · simp only [hfirst, editLoop_fails hbridge hlocal (i := 0) hk (by simpa using h)
        (by simpa using hfail), Nat.zero_add]
      cases isDelete with
      | true => rfl
      | false => simp only [flushRules_local hbridge hlocal, Bool.false_eq_true, if_false]
  · rw [if_neg hbuilt, edit_refused hbuilt]

/-- A batch stops the daemon just where it has a command for a remote host. -/
theorem edit_eq {isDelete : Bool} (hbridge : context.bridge.length < 256)
    (flows : List AccFlow) :
    accOvsEditRules w context flows isDelete sh =
      if RemoteCommand w context flows then .error .badString
      else .ok (batchResult w context isDelete flows sh) := by
  by_cases hremote : context.sshRemote.isSome
  · by_cases hbuilt : Built w flows
    · by_cases hflows : flows = []
      · subst hflows
        rw [if_neg fun h => h.2.2 rfl]
        unfold accOvsEditRules batchResult
        rw [makeOfctlRules_eq, if_pos hbuilt, if_pos hbuilt]
        rfl
      · rw [if_pos ⟨hremote, hbuilt, hflows⟩, edit_remote hbridge hremote hbuilt hflows]
    · rw [if_neg fun h => hbuilt h.2.1, edit_refused hbuilt, batchResult, if_neg hbuilt]
  · rw [if_neg fun h => hremote h.1,
      edit_local hbridge (Option.not_isSome_iff_eq_none.mp hremote)]

theorem addRules_eq (hbridge : context.bridge.length < 256) (flows : List AccFlow) :
    accOvsAddRules w context flows sh =
      if RemoteCommand w context flows then .error .badString
      else .ok (addResult w context flows sh) :=
  edit_eq hbridge flows

theorem addRules_local (hbridge : context.bridge.length < 256)
    (hlocal : context.sshRemote = none) (flows : List AccFlow) :
    accOvsAddRules w context flows sh = .ok (addResult w context flows sh) :=
  edit_local hbridge hlocal flows

theorem addResult_refused {flows : List AccFlow} (h : ¬ Built w flows) :
    addResult w context flows sh = (false, noteBatch context flows sh) := if_neg h

theorem addResult_succeeds {flows : List AccFlow} (hbuilt : Built w flows)
    (h : ∀ j, j < flows.length → verdict context (w.shell j)) :
    addResult w context flows sh =
      (true, editFlows w context false 0 flows (noteBatch context flows sh)) := by
  rw [addResult, batchResult, if_pos hbuilt, firstFailure_none h]

/-- Command `k` fails: the commands before it and the recovery flush are executed. -/
theorem addResult_fails {flows : List AccFlow} (hbuilt : Built w flows) {k : ℕ}
    (hk : k < flows.length) (h : ∀ j, j < k → verdict context (w.shell j))
    (hfail : ¬ verdict context (w.shell k)) :
    addResult w context flows sh = (false, afterFlush w context (w.shell (k + 1))
      (editFlows w context false 0 (flows.take (k + 1)) (noteBatch context flows sh))) := by
  rw [addResult, batchResult, if_pos hbuilt, firstFailure_some hk h hfail]
  rfl

/-- The three ways a batch can go. -/
theorem addResult_cases (w : World) (context : AccContext) (flows : List AccFlow) (sh : Shared) :
    (addResult w context flows sh = (false, noteBatch context flows sh) ∧ ¬ Built w flows) ∨
    (addResult w context flows sh =
        (true, editFlows w context false 0 flows (noteBatch context flows sh)) ∧
      Built w flows ∧ ∀ j, j < flows.length → verdict context (w.shell j)) ∨
    ∃ k, k < flows.length ∧ Built w flows ∧ ¬ verdict context (w.shell k) ∧
      addResult w context flows sh = (false, afterFlush w context (w.shell (k + 1))
        (editFlows w context false 0 (flows.take (k + 1)) (noteBatch context flows sh))) := by
  by_cases hbuilt : Built w flows
  · rcases firstFailure_cases w context flows.length with ⟨-, h⟩ | ⟨k, -, hk, h, hfail⟩
    · exact .inr (.inl ⟨addResult_succeeds hbuilt h, hbuilt, h⟩)
    · exact .inr (.inr ⟨k, hk, hbuilt, hfail, addResult_fails hbuilt hk h hfail⟩)
  · exact .inl ⟨addResult_refused hbuilt, hbuilt⟩

structure SameCounters (sh after : Shared) : Prop where
  contextHostId : after.contextHostId = sh.contextHostId
  nextAddr : after.nextAddr = sh.nextAddr
  hellos : after.history.hellos = sh.history.hellos

theorem SameCounters.trans {sh₁ sh₂ sh₃ : Shared} (h : SameCounters sh₁ sh₂)
    (h' : SameCounters sh₂ sh₃) : SameCounters sh₁ sh₃ :=
  ⟨h'.contextHostId.trans h.contextHostId, h'.nextAddr.trans h.nextAddr,
    h'.hellos.trans h.hellos⟩

/-- A property that every added rule keeps, the batch keeps. -/
theorem editFlows_induct {P : Shared → Prop} {isDelete : Bool} {flows : List AccFlow} {i : ℕ}
    (hstep : ∀ i flow sh, flow ∈ flows → P sh → P (editFlow w context isDelete i flow sh))
    (h : P sh) : P (editFlows w context isDelete i flows sh) := by
  induction flows generalizing i sh with
  | nil => exact h
  | cons flow flows ih =>
    apply ih
    · intro j f s hf hs
      exact hstep j f s (List.mem_cons_of_mem _ hf) hs
    · exact hstep i flow sh List.mem_cons_self h

theorem rules_editFlow (i : ℕ) (flow : AccFlow) :
    (editFlow w context false i flow sh).rules =
      if carriedOut context (w.shell i)
      then w.ofctl.apply (editText false context.bridge (ruleOf context.hostid flow)) sh.rules
      else sh.rules := by
  unfold editFlow afterCommand
  dsimp only
  split <;> rfl

theorem lines_editFlow {isDelete : Bool} (i : ℕ) (flow : AccFlow) :
    (editFlow w context isDelete i flow sh).history.lines =
      sh.history.lines ++ [editText isDelete context.bridge (ruleOf context.hostid flow)] := by
  unfold editFlow afterCommand
  dsimp only
  split <;> rfl

theorem lines_editFlows {isDelete : Bool} (i : ℕ) (flows : List AccFlow) :
    (editFlows w context isDelete i flows sh).history.lines = sh.history.lines ++
      flows.map (fun flow => editText isDelete context.bridge (ruleOf context.hostid flow)) := by
  induction flows generalizing i sh with
  | nil => exact (List.append_nil _).symm
  | cons flow flows ih =>
    rw [editFlows, ih, lines_editFlow, List.map_cons, List.append_assoc, List.singleton_append]

/-- An executed add line puts its rule on the bridge, in place of those it replaces. -/
theorem mem_rules_editFlow (hbr0 : context.bridge = br0) {flow : AccFlow}
    (hflow : Supported flow) (i : ℕ) (r : SwitchRule) :
    r ∈ (editFlow w context false i flow sh).rules ↔
      (carriedOut context (w.shell i) ∧ r = installed (ruleOf context.hostid flow)) ∨
        (r ∈ sh.rules ∧ ¬ (carriedOut context (w.shell i) ∧
          w.ofctl.replaces (installed (ruleOf context.hostid flow)) r)) := by
  rw [rules_editFlow]
  by_cases hout : carriedOut context (w.shell i)
  · rw [if_pos hout, hbr0, w.ofctl.mem_addFlow context.hostid flow hflow]
    simp [hout]
  · simp [hout]

theorem installs_editFlow (i : ℕ) (flow : AccFlow) :
    (editFlow w context false i flow sh).history.installs =
      if carriedOut context (w.shell i)
      then sh.history.installs ++
        [⟨context.card, context.addr, installed (ruleOf context.hostid flow)⟩]
      else sh.history.installs := by
  unfold editFlow afterCommand
  dsimp only
  by_cases hout : carriedOut context (w.shell i)
  · simp [hout]
  · simp [hout]

/-- An edited rule changes the bridge, the executed lines and the noted rules, and nothing else. -/
theorem editFlow_frame (isDelete : Bool) (i : ℕ) (flow : AccFlow) :
    ∃ rules lines installs, editFlow w context isDelete i flow sh =
      { sh with rules := rules, history.lines := lines, history.installs := installs } := by
  unfold editFlow afterCommand
  dsimp only
  split <;> exact ⟨_, _, _, rfl⟩

theorem editFlow_sameCounters (isDelete : Bool) (i : ℕ) (flow : AccFlow) :
    SameCounters sh (editFlow w context isDelete i flow sh) := by
  obtain ⟨_, _, _, hframe⟩ := @editFlow_frame w context sh isDelete i flow
  rw [hframe]
  exact ⟨rfl, rfl, rfl⟩

theorem flushes_editFlow (isDelete : Bool) (i : ℕ) (flow : AccFlow) :
    (editFlow w context isDelete i flow sh).history.flushes = sh.history.flushes := by
  obtain ⟨_, _, _, hframe⟩ := @editFlow_frame w context sh isDelete i flow
  rw [hframe]

/-- Of the rules of other cookies a batch leaves those that no executed line replaces. -/
theorem mem_rules_editFlows (hbr0 : context.bridge = br0) {flows : List AccFlow}
    (hflows : ∀ flow ∈ flows, Supported flow) (i : ℕ) {r : SwitchRule}
    (hr : r.cookie ≠ context.hostid.toNat) :
    r ∈ (editFlows w context false i flows sh).rules ↔
      r ∈ sh.rules ∧ ∀ j flow, flows[j]? = some flow → carriedOut context (w.shell (i + j)) →
        ¬ w.ofctl.replaces (installed (ruleOf context.hostid flow)) r := by
  induction flows generalizing i sh with
  | nil => simp [editFlows]
  | cons flow flows ih =>
    have hflow : Supported flow := hflows flow List.mem_cons_self
    have hne : r ≠ installed (ruleOf context.hostid flow) := by
      rintro rfl
      exact hr rfl
    have hshift : ∀ j, i + 1 + j = i + (j + 1) := by omega
    rw [editFlows, ih (fun f hf => hflows f (List.mem_cons_of_mem _ hf)),
      mem_rules_editFlow hbr0 hflow]
    simp only [hne, and_false, false_or, not_and]
    constructor
    · rintro ⟨⟨hmem, hhead⟩, htail⟩
      refine ⟨hmem, ?_⟩
      rintro (_ | j) f hf hout
      · obtain rfl : flow = f := by simpa using hf
        exact hhead hout
      · rw [← hshift j] at hout
        exact htail j f (by simpa using hf) hout
    · rintro ⟨hmem, hall⟩
      refine ⟨⟨hmem, hall 0 flow rfl⟩, ?_⟩
      intro j f hf hout
      rw [hshift j] at hout
      exact hall (j + 1) f (by simpa using hf) hout

theorem bridge_length_of_br0 (hbr0 : context.bridge = br0) : context.bridge.length < 256 := by
  rw [hbr0]
  decide

/-- A flush takes the rules of its cookie off the bridge when its line is carried out. -/
theorem mem_rules_flush (hbr0 : context.bridge = br0) (run : CommandRun) (r : SwitchRule) :
    r ∈ (afterFlush w context run sh).rules ↔
      r ∈ sh.rules ∧ (carriedOut context run → r.cookie ≠ context.hostid.toNat) := by
  unfold afterFlush afterCommand
  dsimp only
  by_cases hout : carriedOut context run
  · rw [if_pos hout, hbr0, w.ofctl.mem_delFlows]
    simp [hout]
  · simp [hout]

/-- A flush changes the bridge, the executed lines and the noted flushes, and nothing else. -/
theorem flush_frame (run : CommandRun) :
    ∃ rules lines flushes, afterFlush w context run sh =
      { sh with rules := rules, history.lines := lines, history.flushes := flushes } :=
  ⟨_, _, _, rfl⟩

theorem flush_sameCounters (run : CommandRun) :
    SameCounters sh (afterFlush w context run sh) := by
  obtain ⟨_, _, _, hframe⟩ := @flush_frame w context sh run
  rw [hframe]
  exact ⟨rfl, rfl, rfl⟩

theorem installs_flush (run : CommandRun) :
    (afterFlush w context run sh).history.installs = sh.history.installs := by
  obtain ⟨_, _, _, hframe⟩ := @flush_frame w context sh run
  rw [hframe]

/-- The history notes one flush, with the rules of the cookie that it took off. -/
theorem flushes_flush (hbr0 : context.bridge = br0) (run : CommandRun) :
    ∃ deleted, (afterFlush w context run sh).history.flushes =
        sh.history.flushes ++ [⟨context.card, context.addr, context.hostid, deleted⟩] ∧
      ∀ r ∈ deleted, r ∈ sh.rules ∧ r.cookie = context.hostid.toNat := by
  have hmem := fun r => @mem_rules_flush w context sh hbr0 run r
  refine ⟨_, rfl, ?_⟩
  intro r hr
  obtain ⟨hrules, hgone⟩ := List.mem_filter.mp hr
  have hnot := of_decide_eq_true hgone
  refine ⟨hrules, Decidable.byContradiction fun hne => hnot ((hmem r).mpr ⟨hrules, ?_⟩)⟩
  exact fun _ => hne

end BeLa.Editing
