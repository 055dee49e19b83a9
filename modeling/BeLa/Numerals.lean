import Mathlib.Tactic.IntervalCases
import Mathlib.Tactic.NormNum
import Mathlib.Data.List.Basic

/-!
Positional numerals as texts, with upper-case digits, for any base up to 16.
A printed number reads back as itself, has a bounded length, and consists of
digits of its base alone. Zero padding to a fixed width does not change the
value read. Nothing here is specific to one program.
-/
namespace BeLa.Numerals

abbrev Text := List Char

/-- The value of a digit character; 16 stands for every other character. -/
def digitValue (c : Char) : ℕ :=
  if '0' ≤ c ∧ c ≤ '9' then c.toNat - 48
  else if 'A' ≤ c ∧ c ≤ 'F' then c.toNat - 55
  else 16

/-- The number in base `b`, most significant digit first, with no leading zero. -/
def numeral (b n : ℕ) : Text := (Nat.toDigits b n).map Char.toUpper

def padded (width b n : ℕ) : Text := List.leftpad width '0' (numeral b n)

def digitsValue (b : ℕ) (t : Text) : ℕ := t.foldl (fun acc c => acc * b + digitValue c) 0

def readNumeral (b : ℕ) (t : Text) : Option ℕ :=
  if t ≠ [] ∧ t.all (fun c => digitValue c < b) then some (digitsValue b t) else none

theorem readNumeral_of_digits {b : ℕ} {t : Text} (hne : t ≠ [])
    (hdigits : ∀ c ∈ t, digitValue c < b) : readNumeral b t = some (digitsValue b t) :=
  if_pos ⟨hne, List.all_eq_true.mpr fun c hc => decide_eq_true (hdigits c hc)⟩

theorem digitValue_upper_digitChar {d : ℕ} (hd : d < 16) :
    digitValue (Nat.digitChar d).toUpper = d := by
  interval_cases d <;> rfl

theorem numeral_of_lt {b n : ℕ} (h : n < b) :
    numeral b n = [(Nat.digitChar n).toUpper] := by
  simp [numeral, Nat.toDigits_of_lt_base h]

theorem numeral_of_le {b n : ℕ} (hb : 1 < b) (h : b ≤ n) :
    numeral b n = numeral b (n / b) ++ [(Nat.digitChar (n % b)).toUpper] := by
  simp [numeral, Nat.toDigits_of_base_le hb h]

theorem numeral_ne_nil (b n : ℕ) : numeral b n ≠ [] := by
  simp [numeral]

theorem length_numeral_le {b n k : ℕ} (hb : 1 < b) (hk : 0 < k) (h : n < b ^ k) :
    (numeral b n).length ≤ k := by
  simpa [numeral] using (Nat.length_toDigits_le_iff hb hk).mpr h

theorem digitsValue_concat (b : ℕ) (t : Text) (c : Char) :
    digitsValue b (t ++ [c]) = digitsValue b t * b + digitValue c := by
  simp [digitsValue]

/-- Every character of a numeral is a digit of its base. -/
theorem digitValue_lt_of_mem_numeral {b n : ℕ} (hb : 1 < b) (hb' : b ≤ 16) :
    ∀ c ∈ numeral b n, digitValue c < b := by
  induction n using Nat.strong_induction_on with
  | h n ih =>
    by_cases hn : n < b
    · intro c hc
      rw [numeral_of_lt hn, List.mem_singleton] at hc
      rw [hc, digitValue_upper_digitChar (by omega)]
      exact hn
    · have hmod : n % b < b := Nat.mod_lt n (by omega)
      have hdiv : n / b < n := Nat.div_lt_self (by omega) hb
      intro c hc
      rw [numeral_of_le hb (by omega), List.mem_append, List.mem_singleton] at hc
      rcases hc with hc | rfl
      · exact ih (n / b) hdiv c hc
      · rwa [digitValue_upper_digitChar (by omega)]

theorem digitsValue_numeral {b n : ℕ} (hb : 1 < b) (hb' : b ≤ 16) :
    digitsValue b (numeral b n) = n := by
  induction n using Nat.strong_induction_on with
  | h n ih =>
    by_cases hn : n < b
    · rw [numeral_of_lt hn]
      simp [digitsValue, digitValue_upper_digitChar (show n < 16 by omega)]
    · have hmod : n % b < b := Nat.mod_lt n (by omega)
      have hdiv : n / b < n := Nat.div_lt_self (by omega) hb
      rw [numeral_of_le hb (by omega), digitsValue_concat, ih _ hdiv,
        digitValue_upper_digitChar (by omega)]
      exact Nat.div_add_mod' n b

theorem readNumeral_numeral {b n : ℕ} (hb : 1 < b) (hb' : b ≤ 16) :
    readNumeral b (numeral b n) = some n := by
  rw [readNumeral_of_digits (numeral_ne_nil b n) (digitValue_lt_of_mem_numeral hb hb'),
    digitsValue_numeral hb hb']

theorem numeral_injective {b : ℕ} (hb : 1 < b) (hb' : b ≤ 16) :
    Function.Injective (numeral b) := by
  intro m n h
  have hread := congrArg (readNumeral b) h
  simpa [readNumeral_numeral hb hb'] using hread

/-- A character that is no digit does not occur in a numeral. -/
theorem not_mem_numeral {b n : ℕ} {c : Char} (hb : 1 < b) (hb' : b ≤ 16)
    (hc : digitValue c = 16) : c ∉ numeral b n := by
  intro hmem
  have hlt := digitValue_lt_of_mem_numeral hb hb' c hmem
  omega

theorem digitsValue_replicate_zero (b k : ℕ) (t : Text) :
    digitsValue b (List.replicate k '0' ++ t) = digitsValue b t := by
  induction k with
  | zero => rfl
  | succ k ih =>
    have hzero : digitValue '0' = 0 := rfl
    simpa [digitsValue, List.replicate_succ, hzero] using ih

theorem readNumeral_padded {b n : ℕ} (width : ℕ) (hb : 1 < b) (hb' : b ≤ 16) :
    readNumeral b (padded width b n) = some n := by
  have hdigits : ∀ c ∈ padded width b n, digitValue c < b := by
    intro c hc
    simp only [padded, List.leftpad, List.mem_append, List.mem_replicate] at hc
    rcases hc with ⟨_, rfl⟩ | hc
    · have hzero : digitValue '0' = 0 := rfl
      omega
    · exact digitValue_lt_of_mem_numeral hb hb' c hc
  have hne : padded width b n ≠ [] := by
    simp [padded, List.leftpad, numeral_ne_nil]
  rw [readNumeral_of_digits hne hdigits, padded, List.leftpad,
    digitsValue_replicate_zero, digitsValue_numeral hb hb']

theorem not_mem_padded {b n : ℕ} {c : Char} (width : ℕ) (hb : 1 < b) (hb' : b ≤ 16)
    (hc : digitValue c = 16) : c ∉ padded width b n := by
  intro hmem
  simp only [padded, List.leftpad, List.mem_append, List.mem_replicate] at hmem
  rcases hmem with ⟨_, rfl⟩ | hmem
  · exact absurd hc (by decide)
  · exact not_mem_numeral hb hb' hc hmem

theorem length_padded {b n width : ℕ} (hb : 1 < b) (hw : 0 < width) (h : n < b ^ width) :
    (padded width b n).length = width := by
  have hlen := length_numeral_le hb hw h
  simp only [padded, List.leftpad, List.length_append, List.length_replicate]
  omega

end BeLa.Numerals
