import Mathlib.Data.List.Basic

/-!
Logs that only grow. A log has grown by entries with a property when the new
log is the old one with such entries behind it; growing composes, and an entry
of the new log is old or has the property.
-/
namespace BeLa.Logs

variable {α : Type*} {P Q : α → Prop} {old mid new : List α}

def Grown (P : α → Prop) (old new : List α) : Prop :=
  ∃ added, new = old ++ added ∧ ∀ x ∈ added, P x

theorem Grown.refl (old : List α) : Grown P old old :=
  ⟨[], (List.append_nil old).symm, by simp⟩

theorem Grown.of_eq (h : new = old) : Grown P old new := by
  rw [h]
  exact Grown.refl old

theorem Grown.push {x : α} (h : new = old ++ [x]) (hx : P x) : Grown P old new :=
  ⟨[x], h, by simpa using hx⟩

theorem Grown.trans (h : Grown P old mid) (h' : Grown P mid new) : Grown P old new := by
  obtain ⟨added, rfl, hadded⟩ := h
  obtain ⟨added', rfl, hadded'⟩ := h'
  refine ⟨added ++ added', List.append_assoc _ _ _, fun x hx => ?_⟩
  rcases List.mem_append.mp hx with hx | hx
  · exact hadded x hx
  · exact hadded' x hx

theorem Grown.mono (hPQ : ∀ x, P x → Q x) (h : Grown P old new) : Grown Q old new := by
  obtain ⟨added, hnew, hadded⟩ := h
  exact ⟨added, hnew, fun x hx => hPQ x (hadded x hx)⟩

theorem Grown.mem_of_old (h : Grown P old new) {x : α} (hx : x ∈ old) : x ∈ new := by
  obtain ⟨added, rfl, _⟩ := h
  exact List.mem_append_left added hx

theorem Grown.old_or (h : Grown P old new) {x : α} (hx : x ∈ new) : x ∈ old ∨ P x := by
  obtain ⟨added, rfl, hadded⟩ := h
  exact (List.mem_append.mp hx).imp_right (hadded x)

end BeLa.Logs
