import Mathlib.Data.Nat.Basic
import Mathlib.Data.List.Basic
import Mathlib.Tactic.Linarith

/-!
Numbers as little-endian byte strings of a fixed width, the memory layout of
machine words. Reading inverts writing below the width's bound, and a word is
zero exactly when all of its bytes are.
-/
namespace BeLa.LittleEndian

abbrev Byte := BitVec 8
abbrev Bytes := List Byte

/-- The `k` low-order bytes of a number, least significant first. -/
def leBytes : ℕ → ℕ → Bytes
  | 0, _ => []
  | k + 1, n => BitVec.ofNat 8 n :: leBytes k (n / 256)

def leValue : Bytes → ℕ
  | [] => 0
  | b :: bs => b.toNat + 256 * leValue bs

@[simp] theorem length_leBytes (k n : ℕ) : (leBytes k n).length = k := by
  induction k generalizing n with
  | zero => rfl
  | succ k ih => simp [leBytes, ih]

theorem leValue_leBytes {k n : ℕ} (h : n < 256 ^ k) : leValue (leBytes k n) = n := by
  induction k generalizing n with
  | zero =>
    have hn : n = 0 := by omega
    simp [leBytes, leValue, hn]
  | succ k ih =>
    have hdiv : n / 256 < 256 ^ k := by
      rw [pow_succ] at h
      omega
    simp only [leBytes, leValue, ih hdiv, BitVec.toNat_ofNat]
    omega

theorem leValue_eq_zero_iff (bs : Bytes) : leValue bs = 0 ↔ ∀ b ∈ bs, b = 0 := by
  induction bs with
  | nil => simp [leValue]
  | cons b bs ih =>
    have hb : b.toNat = 0 ↔ b = 0 := by
      constructor
      · intro h
        exact BitVec.eq_of_toNat_eq h
      · rintro rfl
        rfl
    simp only [leValue, List.forall_mem_cons, ← ih, ← hb]
    omega

def wordBytes (k : ℕ) (x : BitVec (8 * k)) : Bytes := leBytes k x.toNat

def wordOf (k : ℕ) (bs : Bytes) : BitVec (8 * k) := BitVec.ofNat (8 * k) (leValue (bs.take k))

theorem word_lt (k : ℕ) (x : BitVec (8 * k)) : x.toNat < 256 ^ k := by
  have h := x.isLt
  rwa [pow_mul] at h

@[simp] theorem length_wordBytes (k : ℕ) (x : BitVec (8 * k)) : (wordBytes k x).length = k :=
  length_leBytes k x.toNat

/-- A word read from its own bytes, whatever follows them, is the word. -/
theorem wordOf_wordBytes (k : ℕ) (x : BitVec (8 * k)) (rest : Bytes) :
    wordOf k (wordBytes k x ++ rest) = x := by
  rw [wordOf, List.take_left' (length_wordBytes k x), wordBytes, leValue_leBytes (word_lt k x)]
  simp

theorem wordBytes_any_ne_zero (k : ℕ) (x : BitVec (8 * k)) :
    (∃ b ∈ wordBytes k x, b ≠ 0) ↔ x ≠ 0 := by
  have hx : x = 0 ↔ leValue (wordBytes k x) = 0 := by
    rw [wordBytes, leValue_leBytes (word_lt k x)]
    constructor
    · rintro rfl
      simp
    · intro h
      exact BitVec.eq_of_toNat_eq (by simpa using h)
  rw [ne_eq, hx, leValue_eq_zero_iff]
  simp only [not_forall, exists_prop, ne_eq]

end BeLa.LittleEndian
