import BeLa.Runs

/-!
Machines whose state has components and whose events have kinds. Where each event
changes only the component of its kind, a component after a run is what the events
of its kind make of it, in their order. So events of different kinds may be
interleaved in any way: the run ends in the same state.
-/
namespace BeLa.Components

open Runs

variable {σ ε φ κ β γ : Type*} [DecidableEq κ]

def actAll (act : ε → β → β) (es : List ε) (b : β) : β := es.foldl (fun b e => act e b) b

/-- The steps of the events that fit keep the invariant, and change only the component of the
kind of the event. -/
def Separate (step : σ → ε → Except φ σ) (kind : ε → κ) (get : κ → σ → β) (act : ε → β → β)
    (I : σ → Prop) (Fits : ε → Prop) : Prop :=
  ∀ s e, I s → Fits e → ∃ s', step s e = .ok s' ∧ I s' ∧
    ∀ k, get k s' = if k = kind e then act e (get k s) else get k s

/-- The same events, with those of each kind in the same order. -/
def Rearranged (kind : ε → κ) (es es' : List ε) : Prop :=
  ∀ k, es'.filter (fun e => kind e = k) = es.filter (fun e => kind e = k)

variable {step : σ → ε → Except φ σ} {kind : ε → κ} {get : κ → σ → β} {act : ε → β → β}
  {I : σ → Prop} {Fits : ε → Prop} {s : σ} {es es' : List ε}

theorem Rearranged.mem (h : Rearranged kind es es') {e : ε} (he : e ∈ es') : e ∈ es := by
  have hfilter : e ∈ es'.filter (fun f => kind f = kind e) := by simpa using he
  rw [h (kind e)] at hfilter
  exact List.mem_of_mem_filter hfilter

/-- Every component after a run comes from the events of its kind. -/
theorem Separate.exec (h : Separate step kind get act I Fits) (hs : I s)
    (hfits : ∀ e ∈ es, Fits e) : ∃ s', exec step s es = .ok s' ∧ I s' ∧
      ∀ k, get k s' = actAll act (es.filter fun e => kind e = k) (get k s) := by
  induction es generalizing s with
  | nil => exact ⟨s, rfl, hs, fun _ => rfl⟩
  | cons e es ih =>
    rw [List.forall_mem_cons] at hfits
    obtain ⟨s₁, hstep, hs₁, hget⟩ := h s e hs hfits.1
    obtain ⟨s', hexec, hs', hrest⟩ := ih hs₁ hfits.2
    refine ⟨s', ?_, hs', fun k => ?_⟩
    · simp only [Runs.exec, hstep]
      exact hexec
    · rw [hrest, hget]
      by_cases hk : k = kind e
      · rw [if_pos hk, List.filter_cons, if_pos (decide_eq_true hk.symm)]
        rfl
      · rw [if_neg hk, List.filter_cons, if_neg (by simpa using Ne.symm hk)]

/-- Where the components make up the state, rearranged events lead to the same one. -/
theorem Separate.exec_rearranged (h : Separate step kind get act I Fits)
    (hext : ∀ s t, I s → I t → (∀ k, get k s = get k t) → s = t) (hs : I s)
    (hfits : ∀ e ∈ es, Fits e) (hes : Rearranged kind es es') :
    Runs.exec step s es' = Runs.exec step s es := by
  obtain ⟨t, hexec, ht, hget⟩ := h.exec hs hfits
  obtain ⟨t', hexec', ht', hget'⟩ := h.exec hs fun e he => hfits e (hes.mem he)
  have hsame : t' = t := hext t' t ht' ht fun k => by rw [hget', hget, hes k]
  rw [hexec, hexec', hsame]

/-- What is observed of a component after a run, where each event of its kind takes one
observation to the next and the other events take none. -/
theorem observe_actAll {observe : β → γ} {next : γ → ε → γ} {k : κ}
    (h : ∀ e, kind e = k → ∀ b, observe (act e b) = next (observe b) e)
    (hother : ∀ e, kind e ≠ k → ∀ x, next x e = x) (es : List ε) (b : β) :
    observe (actAll act (es.filter fun e => kind e = k) b) = es.foldl next (observe b) := by
  induction es generalizing b with
  | nil => rfl
  | cons e es ih =>
    rw [List.filter_cons, List.foldl_cons]
    by_cases hk : kind e = k
    · rw [if_pos (decide_eq_true hk), actAll, List.foldl_cons, ← actAll, ih, h e hk]
    · rw [if_neg (by simpa using hk), ih, hother e hk]

/-- Where events either set a value or leave it, the last one that sets it decides. -/
theorem foldl_getD (value : ε → Option γ) (es : List ε) (x : γ) :
    es.foldl (fun x e => (value e).getD x) x = (es.filterMap value).getLast?.getD x := by
  induction es generalizing x with
  | nil => rfl
  | cons e es ih =>
    rw [List.foldl_cons, ih]
    cases hvalue : value e with
    | none => rw [List.filterMap_cons_none hvalue, Option.getD_none]
    | some v =>
      rw [List.filterMap_cons_some hvalue, List.getLast?_cons, Option.getD_some, Option.getD_some]

end BeLa.Components
