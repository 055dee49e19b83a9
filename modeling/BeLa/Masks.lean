import Mathlib.Data.Nat.Notation
import Mathlib.Tactic.Basic

/-!
Masked comparison of field values. A mask of all ones compares the whole value
and a mask of zeros compares nothing; under any other mask some value agrees
with a given one without being equal to it. Hence "equal when the mask is not
zero" says the same as the masked comparison exactly for these two masks.
-/
namespace BeLa.Masks

class Maskable (α : Type) where
  masked : α → α → α
  zeros : α
  ones : α
  masked_ones : ∀ x, masked x ones = x
  masked_zeros : ∀ x y, masked x zeros = masked y zeros
  exists_agreeing : ∀ mask, mask ≠ ones → ∀ m, ∃ x, x ≠ m ∧ masked x mask = masked m mask

open Maskable

variable {α : Type} [Maskable α]

/-- The value agrees with the pattern on the bits of the mask. -/
def Agrees (mask pattern value : α) : Prop := masked value mask = masked pattern mask

/-- The value is the pattern, unless the mask asks for nothing. -/
def Present (mask pattern value : α) : Prop := mask ≠ zeros → value = pattern

theorem agrees_self (mask pattern : α) : Agrees mask pattern pattern := rfl

theorem present_iff_agrees {mask : α} (h : mask = zeros ∨ mask = ones) (pattern value : α) :
    Present mask pattern value ↔ Agrees mask pattern value := by
  by_cases hzeros : mask = zeros
  · subst hzeros
    exact ⟨fun _ => masked_zeros value pattern, fun _ hne => absurd rfl hne⟩
  · obtain rfl := h.resolve_left hzeros
    simp only [Present, Agrees, masked_ones]
    exact ⟨fun h => h hzeros, fun h _ => h⟩

/-- Where every value that agrees is present, the mask is zero or full. -/
theorem zeros_or_ones_of_agrees {mask pattern : α}
    (h : ∀ value, Agrees mask pattern value → Present mask pattern value) :
    mask = zeros ∨ mask = ones := by
  by_cases hzeros : mask = zeros
  · exact .inl hzeros
  · refine .inr (Classical.byContradiction fun hones => ?_)
    obtain ⟨value, hne, hagrees⟩ := exists_agreeing mask hones pattern
    exact hne (h value hagrees hzeros)

/-- Flipping every bit outside the mask keeps the masked value. -/
theorem xor_not_and {w : ℕ} (m mask : BitVec w) : (m ^^^ ~~~mask) &&& mask = m &&& mask := by
  ext i hi
  simp only [BitVec.getElem_and, BitVec.getElem_xor, BitVec.getElem_not]
  cases m[i] <;> cases mask[i] <;> rfl

theorem xor_not_eq_iff {w : ℕ} (m mask : BitVec w) :
    m ^^^ ~~~mask = m ↔ mask = BitVec.allOnes w := by
  constructor
  · intro heq
    have hzero : ~~~mask = 0 := by
      have h := congrArg (m ^^^ ·) heq
      simpa [← BitVec.xor_assoc] using h
    have h := congrArg (~~~·) hzero
    simpa using h
  · rintro rfl
    simp

instance (w : ℕ) : Maskable (BitVec w) where
  masked x mask := x &&& mask
  zeros := 0
  ones := BitVec.allOnes w
  masked_ones := by simp
  masked_zeros := by simp
  exists_agreeing mask hmask m :=
    ⟨m ^^^ ~~~mask, fun h => hmask ((xor_not_eq_iff m mask).mp h), xor_not_and m mask⟩

end BeLa.Masks
