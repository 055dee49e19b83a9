import Mathlib.Data.List.Basic
import Mathlib.Tactic.Basic

/-!
Writes into a block of memory. A write replaces the values from an offset on; it
stays within a field at the start of the block when it ends there. Texts that are
written one behind the other, each with a terminator that the next one replaces,
leave their concatenation with one terminator.
-/
namespace BeLa.Writes

variable {α : Type*}

structure Write (α : Type*) where
  offset : ℕ
  values : List α
  deriving DecidableEq, Repr

def Write.Within (size : ℕ) (w : Write α) : Prop := w.offset + w.values.length ≤ size

instance (size : ℕ) (w : Write α) : Decidable (w.Within size) := by
  unfold Write.Within
  infer_instance

def put (memory : List α) (w : Write α) : List α :=
  memory.take w.offset ++ w.values ++ memory.drop (w.offset + w.values.length)

def putAll (memory : List α) (writes : List (Write α)) : List α := writes.foldl put memory

/-- A write leaves what stands before it. -/
theorem take_put {memory : List α} {offset n : ℕ} (values : List α) (hn : n ≤ offset)
    (hoffset : offset ≤ memory.length) : (put memory ⟨offset, values⟩).take n = memory.take n := by
  have hlen : n ≤ (memory.take offset).length := by
    rw [List.length_take]
    omega
  rw [put, List.append_assoc, List.take_append_of_le_length hlen, List.take_take,
    Nat.min_eq_left hn]

/-- A write behind a prefix replaces the first values that follow it. -/
theorem put_append (front : List α) (values rest : List α) :
    put (front ++ rest) ⟨front.length, values⟩ = front ++ values ++ rest.drop values.length := by
  rw [put, List.take_left, ← List.drop_drop, List.drop_left]

def field (offset size : ℕ) (memory : List α) : List α := (memory.drop offset).take size

theorem getElem?_field (offset size : ℕ) (memory : List α) (i : ℕ) :
    (field offset size memory)[i]? = if i < size then memory[offset + i]? else none := by
  rw [field, List.getElem?_take, List.getElem?_drop]

theorem length_put {memory : List α} {w : Write α} (h : w.Within memory.length) :
    (put memory w).length = memory.length := by
  unfold Write.Within at h
  rw [put, List.length_append, List.length_append, List.length_take, List.length_drop]
  omega

/-- A write within the block replaces the places it covers. -/
theorem getElem?_put {memory : List α} {w : Write α} (h : w.Within memory.length) (i : ℕ) :
    (put memory w)[i]? =
      if w.offset ≤ i ∧ i < w.offset + w.values.length then w.values[i - w.offset]?
      else memory[i]? := by
  unfold Write.Within at h
  have hfront : (memory.take w.offset).length = w.offset := by
    rw [List.length_take]
    omega
  rw [put, List.append_assoc]
  by_cases hbefore : i < w.offset
  · rw [if_neg (by omega), List.getElem?_append_left (by omega),
      List.getElem?_take_of_lt hbefore]
  · rw [List.getElem?_append_right (by omega), hfront]
    by_cases hin : i < w.offset + w.values.length
    · rw [if_pos ⟨by omega, hin⟩, List.getElem?_append_left (by omega)]
    · rw [if_neg (by omega), List.getElem?_append_right (by omega), List.getElem?_drop]
      congr 1
      omega

/-- A write leaves the parts of the block that it does not reach. -/
theorem field_put_apart {memory : List α} {w : Write α} {offset size : ℕ}
    (h : w.Within memory.length)
    (hapart : w.offset + w.values.length ≤ offset ∨ offset + size ≤ w.offset) :
    field offset size (put memory w) = field offset size memory := by
  apply List.ext_getElem?
  intro i
  rw [getElem?_field, getElem?_field, getElem?_put h]
  by_cases hi : i < size
  · rw [if_pos hi, if_pos hi, if_neg (by omega)]
  · rw [if_neg hi, if_neg hi]

/-- A write at the start of a part replaces its first values. -/
theorem field_put_start {memory values : List α} {offset size : ℕ}
    (hsize : offset + size ≤ memory.length) (hvalues : values.length ≤ size) :
    field offset size (put memory ⟨offset, values⟩) =
      values ++ (field offset size memory).drop values.length := by
  have hwithin : (Write.mk offset values).Within memory.length := by
    simp only [Write.Within]
    omega
  apply List.ext_getElem?
  intro i
  rw [getElem?_field, getElem?_put hwithin]
  dsimp only
  by_cases hi : i < values.length
  · rw [if_pos (by omega), if_pos (by omega), List.getElem?_append_left hi,
      Nat.add_sub_cancel_left]
  · rw [List.getElem?_append_right (by omega), List.getElem?_drop, getElem?_field,
      Nat.add_sub_cancel' (by omega)]
    by_cases hin : i < size
    · rw [if_pos hin, if_pos hin, if_neg (by omega)]
    · rw [if_neg hin, if_neg hin]

/-- Texts one behind the other from an offset on, each with its terminator. -/
def chain (terminator : α) : ℕ → List (List α) → List (Write α)
  | _, [] => []
  | offset, text :: texts =>
    ⟨offset, text ++ [terminator]⟩ :: chain terminator (offset + text.length) texts

/-- A chain stays within a field that holds all its texts and the last terminator. -/
theorem chain_within {terminator : α} {texts : List (List α)} {offset size : ℕ}
    (h : offset + texts.flatten.length < size) :
    ∀ w ∈ chain terminator offset texts, w.Within size := by
  induction texts generalizing offset with
  | nil => simp [chain]
  | cons text texts ih =>
    rw [List.flatten_cons, List.length_append] at h
    refine List.forall_mem_cons.mpr ⟨?_, ih (by omega)⟩
    simp only [Write.Within, List.length_append, List.length_singleton]
    omega

/-- What a chain leaves behind the prefix. -/
theorem putAll_chain (terminator : α) {texts : List (List α)} (hne : texts ≠ [])
    (front rest : List α) (h : texts.flatten.length < rest.length) :
    putAll (front ++ rest) (chain terminator front.length texts) =
      front ++ texts.flatten ++ terminator :: rest.drop (texts.flatten.length + 1) := by
  induction texts generalizing front rest with
  | nil => exact absurd rfl hne
  | cons text texts ih =>
    rw [List.flatten_cons, List.length_append] at h
    have hfirst : put (front ++ rest) ⟨front.length, text ++ [terminator]⟩ =
        (front ++ text) ++ (terminator :: rest.drop (text.length + 1)) := by
      rw [put_append, List.length_append, List.length_singleton]
      simp
    rw [chain, putAll, List.foldl_cons, hfirst]
    cases texts with
    | nil => simp [chain]
    | cons next texts =>
      have hnext := ih (by simp) (front ++ text) (terminator :: rest.drop (text.length + 1)) (by
        simp only [List.length_cons, List.length_drop]
        omega)
      rw [List.length_append] at hnext
      have hdrop : text.length + 1 + (next :: texts).flatten.length =
          text.length + (next :: texts).flatten.length + 1 := by omega
      have hflatten : (text :: next :: texts).flatten = text ++ (next :: texts).flatten := rfl
      rw [← putAll, hnext, List.drop_succ_cons, List.drop_drop, hdrop, hflatten,
        List.length_append, List.append_assoc front]

end BeLa.Writes
