import BeLa.Runs

/-!
Non-interference by unwinding. The users of a machine have events of their own, and
the machine puts out something for each of them. If a machine that takes the events
of one user alone can follow every step of the shared one, and does not notice the
steps of the others, then a user sees in every run what it would see alone.
-/
namespace BeLa.Unwinding

open Runs

variable {σ τ ε δ φ ψ ω : Type*}

def outputs (step : σ → ε → Except φ σ) (out : σ → ε → List ω) : σ → List ε → List ω
  | _, [] => []
  | s, e :: es =>
    match step s e with
    | .ok s' => out s e ++ outputs step out s' es
    | .error _ => out s e

/-- The relation of a shared machine to the machine of one user, whose events are told by `own`,
is kept by every step. -/
structure Unwinds (step : σ → ε → Except φ σ) (out : σ → ε → List ω) (own : ε → Option δ)
    (alone : τ → δ → Except ψ τ) (outAlone : τ → δ → List ω) (R : σ → τ → Prop) : Prop where
  /-- what the others do the user does not see -/
  others : ∀ s t e s', R s t → own e = none → step s e = .ok s' → R s' t ∧ out s e = []
  own : ∀ s t e d s', R s t → own e = some d → step s e = .ok s' →
    ∃ t', alone t d = .ok t' ∧ R s' t' ∧ out s e = outAlone t d

variable {step : σ → ε → Except φ σ} {out : σ → ε → List ω} {own : ε → Option δ}
  {alone : τ → δ → Except ψ τ} {outAlone : τ → δ → List ω} {R : σ → τ → Prop}

theorem outputs_cons_of_ok {s s' : σ} {e : ε} (es : List ε) (h : step s e = .ok s') :
    outputs step out s (e :: es) = out s e ++ outputs step out s' es := by
  simp only [outputs, h]

theorem outputs_append {s s' : σ} {es : List ε} (es' : List ε) (h : exec step s es = .ok s') :
    outputs step out s (es ++ es') = outputs step out s es ++ outputs step out s' es' := by
  induction es generalizing s with
  | nil =>
    cases h
    rfl
  | cons e es ih =>
    cases hs : step s e with
    | error stop =>
      rw [exec_cons_of_error hs] at h
      cases h
    | ok t =>
      rw [exec_cons_of_ok hs] at h
      rw [List.cons_append, outputs_cons_of_ok _ hs, outputs_cons_of_ok _ hs, ih h,
        List.append_assoc]

/-- A run of the shared machine is, for the user, the run over its own events. -/
theorem Unwinds.run (h : Unwinds step out own alone outAlone R) {s s' : σ} {t : τ} {es : List ε}
    (hst : R s t) (hrun : exec step s es = .ok s') :
    ∃ t', exec alone t (es.filterMap own) = .ok t' ∧ R s' t' ∧
      outputs step out s es = outputs alone outAlone t (es.filterMap own) := by
  induction es generalizing s t with
  | nil =>
    cases hrun
    exact ⟨t, rfl, hst, rfl⟩
  | cons e es ih =>
    cases hs : step s e with
    | error stop =>
      rw [exec_cons_of_error hs] at hrun
      cases hrun
    | ok s₁ =>
      rw [exec_cons_of_ok hs] at hrun
      rw [outputs_cons_of_ok es hs]
      cases hown : own e with
      | none =>
        obtain ⟨hst', hsilent⟩ := h.others s t e s₁ hst hown hs
        rw [List.filterMap_cons_none hown, hsilent, List.nil_append]
        exact ih hst' hrun
      | some d =>
        obtain ⟨t₁, ht, hst', hout⟩ := h.own s t e d s₁ hst hown hs
        obtain ⟨t', hrun', hlast, houts⟩ := ih hst' hrun
        rw [List.filterMap_cons_some hown, exec_cons_of_ok ht, outputs_cons_of_ok _ ht]
        exact ⟨t', hrun', hlast, by rw [hout, houts]⟩

end BeLa.Unwinding
