import BeLa.Numerals

/-!
The words of a text: its maximal pieces without spaces. A text assembled from
solid pieces and spaces has exactly those pieces as its words, so words can be
read back from a printed line whatever optional pieces it contains. Prefixes
are removed by a checked operation, and keyed words split at a separator.
-/
namespace BeLa.Words

open Numerals

def words (t : Text) : List Text := (t.splitOn ' ').filter (fun w => !w.isEmpty)

/-- A piece of text that is one word or nothing. -/
def Solid (t : Text) : Prop := ' ' ∉ t

instance (t : Text) : Decidable (Solid t) := by
  unfold Solid
  infer_instance

/-- The rest of a text after a prefix, when it begins with it. -/
def after (pre t : Text) : Option Text :=
  if pre.isPrefixOf t then some (t.drop pre.length) else none

/-- The text before a suffix, when it ends with it. -/
def before (suffix t : Text) : Option Text :=
  if suffix.isSuffixOf t then some (t.take (t.length - suffix.length)) else none

theorem words_nil : words [] = [] := rfl

theorem words_append_space (a b : Text) : words (a ++ ' ' :: b) = words a ++ words b := by
  simp [words, List.splitOn_append_cons_self]

theorem words_space (b : Text) : words (' ' :: b) = words b :=
  words_append_space [] b

theorem words_solid {a : Text} (ha : Solid a) : words a = if a = [] then [] else [a] := by
  rw [words, List.splitOn_eq_singleton ha]
  cases a <;> simp

theorem Solid.append {a b : Text} (ha : Solid a) (hb : Solid b) : Solid (a ++ b) := by
  simp only [Solid, List.mem_append, not_or]
  exact ⟨ha, hb⟩

theorem solid_numeral {b n : ℕ} (hb : 1 < b) (hb' : b ≤ 16) : Solid (numeral b n) :=
  not_mem_numeral hb hb' rfl

/-- What holds of the characters of the pieces and the separator holds of the joined text. -/
theorem forall_mem_intercalate {P : Char → Prop} {sep : Text} {parts : List Text}
    (hs : ∀ c ∈ sep, P c) (hp : ∀ p ∈ parts, ∀ c ∈ p, P c) :
    ∀ c ∈ sep.intercalate parts, P c := by
  induction parts with
  | nil => simp
  | cons p rest ih =>
    have hrest : ∀ c ∈ sep.intercalate rest, P c :=
      ih (fun q hq => hp q (List.mem_cons_of_mem p hq))
    have hhead : ∀ c ∈ p, P c := hp p List.mem_cons_self
    cases rest with
    | nil => simpa using hhead
    | cons q rest =>
      rw [List.intercalate_cons_cons]
      exact List.forall_mem_append.mpr ⟨List.forall_mem_append.mpr ⟨hhead, hs⟩, hrest⟩

theorem solid_iff {t : Text} : Solid t ↔ ∀ c ∈ t, c ≠ ' ' :=
  ⟨fun h _ hc hspace => h (hspace ▸ hc), fun h hmem => h ' ' hmem rfl⟩

/-- Solid pieces joined by a solid separator are solid. -/
theorem solid_intercalate {sep : Text} {parts : List Text} (hs : Solid sep)
    (hp : ∀ p ∈ parts, Solid p) : Solid (sep.intercalate parts) :=
  solid_iff.mpr (forall_mem_intercalate (solid_iff.mp hs) fun p hmem => solid_iff.mp (hp p hmem))

theorem after_append (pre t : Text) : after pre (pre ++ t) = some t := by
  simp [after]

theorem after_eq_none {pre t : Text} (h : ¬ pre <+: t) : after pre t = none := by
  simp [after, h]

theorem before_append (t suffix : Text) : before suffix (t ++ suffix) = some t := by
  simp [before]

end BeLa.Words
