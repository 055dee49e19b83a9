import Mathlib.Logic.Function.Basic
import Mathlib.Logic.ExistsUnique

/-!
Open things and the places that hold them. Each open thing is owned when exactly
one place holds it. Opening into a place that held nothing open keeps this; a
write over a place that holds an open thing loses it.
-/
namespace BeLa.Owners

variable {ι α : Type*} [DecidableEq ι]

def Owned (holds : ι → α) (opened : List α) : Prop := ∀ a ∈ opened, ∃! i, holds i = a

variable {holds : ι → α} {opened opened' : List α}

/-- A write that neither takes an open thing away nor copies one. -/
theorem Owned.write {i : ι} {x : α} (h : Owned holds opened) (hi : holds i ∉ opened)
    (hx : x ∉ opened) : Owned (Function.update holds i x) opened := by
  intro a ha
  obtain ⟨j, hj, hunique⟩ := h a ha
  have hji : j ≠ i := by
    rintro rfl
    exact hi (hj ▸ ha)
  refine ⟨j, (Function.update_of_ne hji x holds).trans hj, fun k hk => ?_⟩
  change Function.update holds i x k = a at hk
  by_cases hki : k = i
  · rw [hki, Function.update_self] at hk
    exact absurd (hk ▸ ha) hx
  · rw [Function.update_of_ne hki] at hk
    exact hunique k hk

/-- A thing that no place holds is opened into a place that holds nothing open. -/
theorem Owned.insert {i : ι} {a : α} (h : Owned holds opened) (hi : holds i ∉ opened)
    (ha : a ∉ opened) (hfree : ∀ j, holds j ≠ a) :
    Owned (Function.update holds i a) (a :: opened) := by
  intro b hb
  rcases List.mem_cons.mp hb with rfl | hold
  · refine ⟨i, Function.update_self i b holds, fun k hk => ?_⟩
    by_contra hki
    change Function.update holds i b k = b at hk
    rw [Function.update_of_ne hki] at hk
    exact hfree k hk
  · exact h.write hi ha b hold

/-- What is written over while it is open has no owner left. -/
theorem Owned.lost {i : ι} {x : α} (h : Owned holds opened) (hi : holds i ∈ opened)
    (hx : x ≠ holds i) (hstill : holds i ∈ opened') :
    ¬ Owned (Function.update holds i x) opened' := by
  intro h'
  obtain ⟨j, hj, -⟩ := h' (holds i) hstill
  by_cases hji : j = i
  · rw [hji, Function.update_self] at hj
    exact hx hj
  · rw [Function.update_of_ne hji] at hj
    exact hji ((h (holds i) hi).unique hj rfl)

end BeLa.Owners
