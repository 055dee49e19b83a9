import Mathlib.Data.List.Basic
import Mathlib.Tactic.Basic

/-!
Runs of a machine whose step consumes one event and may stop instead of
producing a state. A property of every state of a run, and a condition on every
step of it, are recursions over the events; an invariant that the condition
carries from step to step gives the property on the whole run, and where each
violated step spoils the property the two are equivalent. A simulation relates
the results of two machines on one list of events.
-/
namespace BeLa.Runs

variable {σ τ ε φ : Type*}

/-- Run the machine over the events; a stop ends the run with its reason. -/
def exec (step : σ → ε → Except φ σ) : σ → List ε → Except φ σ
  | s, [] => .ok s
  | s, e :: es =>
    match step s e with
    | .ok s' => exec step s' es
    | .error stop => .error stop

/-- The property holds in every state the run reaches. -/
def Along (step : σ → ε → Except φ σ) (P : σ → Prop) : σ → List ε → Prop
  | s, [] => P s
  | s, e :: es => P s ∧ ∀ s', step s e = .ok s' → Along step P s' es

/-- The condition holds of every step the run attempts. -/
def Each (step : σ → ε → Except φ σ) (C : σ → ε → Prop) : σ → List ε → Prop
  | _, [] => True
  | s, e :: es => C s e ∧ ∀ s', step s e = .ok s' → Each step C s' es

variable {step : σ → ε → Except φ σ} {P Q I : σ → Prop} {C D : σ → ε → Prop}

/-- The end of a run with a property, from the evaluation of the run. -/
theorem exists_of_eval [DecidablePred P] {s : σ} {es : List ε}
    (h : (match exec step s es with
      | .ok s' => decide (P s')
      | .error _ => false) = true) : ∃ s', exec step s es = .ok s' ∧ P s' := by
  cases hrun : exec step s es with
  | error stop => simp [hrun] at h
  | ok s' => exact ⟨s', rfl, by simpa [hrun] using h⟩

theorem Along.head {s : σ} {es : List ε} (h : Along step P s es) : P s := by
  cases es with
  | nil => exact h
  | cons e es => exact h.1

theorem Along.mono (hPQ : ∀ s, P s → Q s) {s : σ} {es : List ε}
    (h : Along step P s es) : Along step Q s es := by
  induction es generalizing s with
  | nil => exact hPQ s h
  | cons e es ih => exact ⟨hPQ s h.1, fun s' hs => ih (h.2 s' hs)⟩

/-- Every state of a run is the result of running a prefix of the events. -/
theorem along_iff_reached (s : σ) (es : List ε) :
    Along step P s es ↔
      ∀ pre s', pre <+: es → exec step s pre = .ok s' → P s' := by
  induction es generalizing s with
  | nil =>
    constructor
    · intro h pre s' hpre hexec
      rw [List.prefix_nil.mp hpre] at hexec
      cases hexec
      exact h
    · intro h
      exact h [] s (List.prefix_refl _) rfl
  | cons e es ih =>
    constructor
    · intro h pre s' hpre hexec
      cases pre with
      | nil =>
        cases hexec
        exact h.1
      | cons f pre =>
        obtain ⟨rfl, htail⟩ := List.cons_prefix_cons.mp hpre
        simp only [exec] at hexec
        split at hexec
        · rename_i t ht
          exact (ih t).mp (h.2 t ht) pre s' htail hexec
        · contradiction
    · intro h
      refine ⟨h [] s List.nil_prefix rfl, fun t ht => (ih t).mpr ?_⟩
      intro pre s' hpre hexec
      apply h (e :: pre) s' (List.cons_prefix_cons.mpr ⟨rfl, hpre⟩)
      simpa only [exec, ht] using hexec

/-- An invariant carried by every step that meets the condition holds along the run. -/
theorem along_of_each (hstep : ∀ s e s', I s → C s e → step s e = .ok s' → I s')
    {s : σ} {es : List ε} (hs : I s) (hes : Each step C s es) : Along step I s es := by
  induction es generalizing s with
  | nil => exact hs
  | cons e es ih =>
    exact ⟨hs, fun s' h => ih (hstep s e s' hs hes.1 h) (hes.2 s' h)⟩

theorem along_of_step (hstep : ∀ s e s', I s → step s e = .ok s' → I s')
    {s : σ} (es : List ε) (hs : I s) : Along step I s es := by
  induction es generalizing s with
  | nil => exact hs
  | cons e es ih => exact ⟨hs, fun s' h => ih (hstep s e s' hs h)⟩

theorem Each.cons {s s' : σ} {e : ε} {es : List ε} (hC : C s e) (hs : step s e = .ok s')
    (h : Each step C s' es) : Each step C s (e :: es) := by
  refine ⟨hC, fun t ht => ?_⟩
  cases hs.symm.trans ht
  exact h

/-- Under an invariant that the steps keep, a condition on them gives another one. -/
theorem Each.mono (hstep : ∀ s e s', I s → C s e → step s e = .ok s' → I s')
    (hCD : ∀ s e, I s → C s e → D s e) {s : σ} {es : List ε} (hs : I s)
    (h : Each step C s es) : Each step D s es := by
  induction es generalizing s with
  | nil => trivial
  | cons e es ih =>
    exact ⟨hCD s e hs h.1, fun s' hok => ih (hstep s e s' hs h.1 hok) (h.2 s' hok)⟩

theorem each_of_step (hstep : ∀ s e s', I s → step s e = .ok s' → I s')
    (hC : ∀ s e, I s → C s e) {s : σ} (es : List ε) (hs : I s) : Each step C s es := by
  induction es generalizing s with
  | nil => trivial
  | cons e es ih => exact ⟨hC s e hs, fun s' hok => ih (hstep s e s' hs hok)⟩

/-- What the events of a run meet in every state, its steps meet. -/
theorem each_of_forall {es : List ε} (h : ∀ e ∈ es, ∀ s, C s e) (s : σ) : Each step C s es := by
  induction es generalizing s with
  | nil => trivial
  | cons e es ih =>
    rw [List.forall_mem_cons] at h
    exact ⟨h.1 s, fun s' _ => ih h.2 s'⟩

/-- A condition on the events alone is a condition on every step. -/
theorem Each.and_forall {W : ε → Prop} {s : σ} {es : List ε} (hW : ∀ e ∈ es, W e)
    (h : Each step C s es) : Each step (fun s e => W e ∧ C s e) s es := by
  induction es generalizing s with
  | nil => trivial
  | cons e es ih =>
    rw [List.forall_mem_cons] at hW
    exact ⟨⟨hW.1, h.1⟩, fun s' hs => ih hW.2 (h.2 s' hs)⟩

/-- A run whose steps meet a condition under which none of them stops goes to its end. -/
theorem Each.exec_ok (hC : ∀ s e, C s e → ∃ s', step s e = .ok s') {s : σ} {es : List ε}
    (h : Each step C s es) : ∃ s', exec step s es = .ok s' := by
  induction es generalizing s with
  | nil => exact ⟨s, rfl⟩
  | cons e es ih =>
    obtain ⟨s', hs⟩ := hC s e h.1
    simp only [exec, hs]
    exact ih (h.2 s' hs)

/-- Where the condition lets every step go on and keep the invariant, the run goes to its end. -/
theorem Each.exec_keeps (hstep : ∀ s e, I s → C s e → ∃ s', step s e = .ok s' ∧ I s')
    {s : σ} {es : List ε} (hs : I s) (h : Each step C s es) :
    ∃ s', exec step s es = .ok s' ∧ I s' := by
  induction es generalizing s with
  | nil => exact ⟨s, rfl, hs⟩
  | cons e es ih =>
    obtain ⟨s', hok, hs'⟩ := hstep s e hs h.1
    simp only [exec, hok]
    exact ih hs' (h.2 s' hok)

/-- Where a step outside the condition leads to a state without the property,
the property along the run forces the condition on every step. -/
theorem each_of_along (hstep : ∀ s e s', I s → C s e → step s e = .ok s' → I s')
    (hbad : ∀ s e, I s → ¬ C s e → ∃ s', step s e = .ok s' ∧ ¬ P s')
    {s : σ} {es : List ε} (hs : I s) (hes : Along step P s es) : Each step C s es := by
  induction es generalizing s with
  | nil => trivial
  | cons e es ih =>
    have hC : C s e := by
      by_contra hC
      obtain ⟨s', hs', hP⟩ := hbad s e hs hC
      exact hP (hes.2 s' hs').head
    exact ⟨hC, fun s' h => ih (hstep s e s' hs hC h) (hes.2 s' h)⟩

/-- The condition on the step that a part of the run leads to. -/
theorem Each.step_at {s s' : σ} {before after : List ε} {e : ε}
    (h : Each step C s (before ++ e :: after)) (hrun : exec step s before = .ok s') : C s' e := by
  induction before generalizing s with
  | nil =>
    cases hrun
    exact h.1
  | cons f before ih =>
    simp only [exec] at hrun
    split at hrun
    · rename_i t ht
      exact ih (h.2 t ht) hrun
    · cases hrun

theorem Each.front {s : σ} {es es' : List ε} (h : Each step C s (es ++ es')) :
    Each step C s es := by
  induction es generalizing s with
  | nil => trivial
  | cons e es ih => exact ⟨h.1, fun s' hs => ih (h.2 s' hs)⟩

/-- Two conditions on the steps of a run, taken together. -/
theorem Each.and {s : σ} {es : List ε} (hC : Each step C s es) (hD : Each step D s es) :
    Each step (fun s e => C s e ∧ D s e) s es := by
  induction es generalizing s with
  | nil => trivial
  | cons e es ih => exact ⟨⟨hC.1, hD.1⟩, fun s' hs => ih (hC.2 s' hs) (hD.2 s' hs)⟩

/-- In a run that no step stops, and whose steps meet an assumption `D`, the property along
the run forces the condition on every step when a step outside of it spoils the property. -/
theorem each_of_along_of_exec (hstep : ∀ s e s', I s → D s e → C s e → step s e = .ok s' → I s')
    (hbad : ∀ s e s', I s → D s e → ¬ C s e → step s e = .ok s' → ¬ P s') {s t : σ}
    {es : List ε} (hs : I s) (hD : Each step D s es) (hexec : exec step s es = .ok t)
    (hes : Along step P s es) : Each step C s es := by
  induction es generalizing s with
  | nil => trivial
  | cons e es ih =>
    simp only [exec] at hexec
    split at hexec
    · rename_i s₁ hs₁
      have hC : C s e := by
        by_contra hC
        exact hbad s e s₁ hs hD.1 hC hs₁ (hes.2 s₁ hs₁).head
      apply Each.cons hC hs₁
      exact ih (hstep s e s₁ hs hD.1 hC hs₁) (hD.2 s₁ hs₁) hexec (hes.2 s₁ hs₁)
    · cases hexec

/-- Two conditions that say the same under an invariant, which the first one carries from
step to step, are met by the steps of the same runs. -/
theorem each_iff_of_invariant (hstep : ∀ s e s', I s → C s e → step s e = .ok s' → I s')
    (hCD : ∀ s e, I s → (C s e ↔ D s e)) {s : σ} (hs : I s) (es : List ε) :
    Each step C s es ↔ Each step D s es := by
  induction es generalizing s with
  | nil => exact Iff.rfl
  | cons e es ih =>
    simp only [Each, ← hCD s e hs]
    refine and_congr_right fun hC => forall_congr' fun s' => ?_
    exact imp_congr_right fun h => ih (hstep s e s' hs hC h)

/-- Conditions that say the same of every event of a run are met by its steps together. -/
theorem each_congr {es : List ε} (hCD : ∀ e ∈ es, ∀ s, C s e ↔ D s e) (s : σ) :
    Each step C s es ↔ Each step D s es := by
  induction es generalizing s with
  | nil => exact Iff.rfl
  | cons e es ih =>
    rw [List.forall_mem_cons] at hCD
    refine and_congr (hCD.1 s) (forall_congr' fun s' => ?_)
    exact imp_congr_right fun _ => ih hCD.2 s'

theorem exec_cons_of_ok {e : ε} {es : List ε} {s s' : σ} (h : step s e = .ok s') :
    exec step s (e :: es) = exec step s' es := by
  simp only [exec, h]

theorem exec_cons_of_error {e : ε} {es : List ε} {s : σ} {stop : φ} (h : step s e = .error stop) :
    exec step s (e :: es) = .error stop := by
  simp only [exec, h]

/-- The steps of a run that gets to its end do so, too. -/
theorem each_ok_of_exec {s t : σ} {es : List ε} (h : exec step s es = .ok t) :
    Each step (fun s e => ∃ s', step s e = .ok s') s es := by
  induction es generalizing s with
  | nil => trivial
  | cons e es ih =>
    cases hs : step s e with
    | error stop =>
      rw [exec_cons_of_error hs] at h
      cases h
    | ok s' =>
      rw [exec_cons_of_ok hs] at h
      exact Each.cons ⟨s', hs⟩ hs (ih h)

/-- A run over two lists is a run over the first and then over the second. -/
theorem exec_append_iff {s t : σ} {es es' : List ε} :
    exec step s (es ++ es') = .ok t ↔ ∃ s', exec step s es = .ok s' ∧ exec step s' es' = .ok t := by
  induction es generalizing s with
  | nil => simp [exec]
  | cons e es ih =>
    rw [List.cons_append]
    cases hs : step s e with
    | ok s' => rw [exec_cons_of_ok hs, exec_cons_of_ok hs, ih]
    | error stop => simp [exec_cons_of_error hs]

/-- A run that stops does so at one of its events. -/
theorem exists_stopping {s : σ} {es : List ε} {stop : φ} (h : exec step s es = .error stop) :
    ∃ before e after s', es = before ++ e :: after ∧ exec step s before = .ok s' ∧
      step s' e = .error stop := by
  induction es generalizing s with
  | nil => cases h
  | cons e es ih =>
    cases hs : step s e with
    | ok s' =>
      rw [exec_cons_of_ok hs] at h
      obtain ⟨before, e', after, t, rfl, hbefore, hstop⟩ := ih h
      exact ⟨e :: before, e', after, t, rfl, (exec_cons_of_ok hs).trans hbefore, hstop⟩
    | error stop' =>
      rw [exec_cons_of_error hs] at h
      cases h
      exact ⟨[], e, es, s, rfl, rfl, hs⟩

/-- Where a step starts a property, or leaves it as it is unless it ends it, the property holds
after a run when some step has started it or it held before, and no later step has ended it. -/
theorem holds_iff_since {A E : σ → ε → Prop}
    (hstep : ∀ s e s', I s → C s e → step s e = .ok s' → I s')
    (hlaw : ∀ s e s', I s → C s e → step s e = .ok s' → (P s' ↔ A s e ∨ P s ∧ ¬ E s e))
    {s t : σ} {es : List ε} (hs : I s) (hes : Each step C s es) (h : exec step s es = .ok t) :
    P t ↔
      (∃ before e after s₁ s₂, es = before ++ e :: after ∧ exec step s before = .ok s₁ ∧
        step s₁ e = .ok s₂ ∧ A s₁ e ∧ Each step (fun s e => ¬ E s e) s₂ after) ∨
      P s ∧ Each step (fun s e => ¬ E s e) s es := by
  induction es generalizing s with
  | nil =>
    cases h
    simp [Each]
  | cons e es ih =>
    cases hok : step s e with
    | error stop =>
      rw [exec_cons_of_error hok] at h
      cases h
    | ok s' =>
      rw [exec_cons_of_ok hok] at h
      rw [ih (hstep s e s' hs hes.1 hok) (hes.2 s' hok) h, hlaw s e s' hs hes.1 hok]
      constructor
      · rintro (⟨before, f, after, s₁, s₂, rfl, hrun, hf, hstart, hkept⟩ |
          ⟨hstart | ⟨hheld, hkeep⟩, hkept⟩)
        · exact .inl ⟨e :: before, f, after, s₁, s₂, rfl, (exec_cons_of_ok hok).trans hrun, hf,
            hstart, hkept⟩
        · exact .inl ⟨[], e, es, s, s', rfl, rfl, hok, hstart, hkept⟩
        · exact .inr ⟨hheld, Each.cons hkeep hok hkept⟩
      · rintro (⟨before, f, after, s₁, s₂, hsplit, hrun, hf, hstart, hkept⟩ | ⟨hheld, hkept⟩)
        · cases before with
          | nil =>
            obtain ⟨rfl, rfl⟩ := List.cons.inj hsplit
            cases hrun
            cases hok.symm.trans hf
            exact .inr ⟨.inl hstart, hkept⟩
          | cons first before =>
            obtain ⟨rfl, rfl⟩ := List.cons.inj hsplit
            rw [exec_cons_of_ok hok] at hrun
            exact .inl ⟨before, f, after, s₁, s₂, rfl, hrun, hf, hstart, hkept⟩
        · exact .inr ⟨.inr ⟨hheld, hkept.1⟩, hkept.2 s' hok⟩

/-- A measure that no step lowers is bounded in every state of a run by its value at the end. -/
theorem each_le_of_exec {f : σ → ℕ}
    (hstep : ∀ s e s', I s → C s e → step s e = .ok s' → I s')
    (hmono : ∀ s e s', I s → C s e → step s e = .ok s' → f s ≤ f s') {s t : σ} {es : List ε}
    (hs : I s) (hes : Each step C s es) (h : exec step s es = .ok t) :
    f s ≤ f t ∧ Each step (fun s e => ∀ s', step s e = .ok s' → f s' ≤ f t) s es := by
  induction es generalizing s with
  | nil =>
    cases h
    exact ⟨Nat.le_refl _, trivial⟩
  | cons e es ih =>
    cases hok : step s e with
    | error stop =>
      rw [exec_cons_of_error hok] at h
      cases h
    | ok s' =>
      rw [exec_cons_of_ok hok] at h
      obtain ⟨hle, hrest⟩ := ih (hstep s e s' hs hes.1 hok) (hes.2 s' hok) h
      have hless := hmono s e s' hs hes.1 hok
      refine ⟨Nat.le_trans hless hle, Each.cons (fun s'' hok' => ?_) hok hrest⟩
      cases hok.symm.trans hok'
      exact hle

/-- Two machines that agree on each step, up to a relation of their states and
of their reasons to stop, agree on each run. -/
theorem exec_simulates {ψ : Type*} {step' : τ → ε → Except ψ τ} {R : σ → τ → Prop}
    {S : φ → ψ → Prop} {W : ε → Prop}
    (hstep : ∀ s t e, R s t → W e →
      (∃ s' t', step s e = .ok s' ∧ step' t e = .ok t' ∧ R s' t') ∨
      (∃ a b, step s e = .error a ∧ step' t e = .error b ∧ S a b))
    {s : σ} {t : τ} {es : List ε} (hst : R s t) (hW : ∀ e ∈ es, W e) :
    (∃ s' t', exec step s es = .ok s' ∧ exec step' t es = .ok t' ∧ R s' t') ∨
      (∃ a b, exec step s es = .error a ∧ exec step' t es = .error b ∧ S a b) := by
  induction es generalizing s t with
  | nil => exact Or.inl ⟨s, t, rfl, rfl, hst⟩
  | cons e es ih =>
    have hrest : ∀ f ∈ es, W f := fun f hf => hW f (List.mem_cons_of_mem e hf)
    rcases hstep s t e hst (hW e List.mem_cons_self) with
      ⟨s', t', hs, ht, hst'⟩ | ⟨a, b, hs, ht, hab⟩
    · simpa only [exec, hs, ht] using ih hst' hrest
    · exact Or.inr ⟨a, b, by simp only [exec, hs], by simp only [exec, ht], hab⟩

end BeLa.Runs
