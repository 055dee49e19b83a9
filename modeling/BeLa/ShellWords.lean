import BeLa.Numerals

/-!
How a shell cuts a command line into commands and their words, as far as plain
characters, spaces, single quotes and the operators between commands go. Any
other character may mean something else to a shell, and the reader rejects it
outside of quotes; between quotes every character stands for itself.
-/
namespace BeLa.ShellWords

open Numerals

/-- Letters, digits and the few signs that a shell takes as they are. -/
def plainChar (c : Char) : Bool := c.isAlphanum || "=:._/-".toList.contains c

/-- The characters that end a command. -/
def controlChar (c : Char) : Bool := ";&|\n".toList.contains c

def quoteChar : Char := Char.ofNat 39

structure Reader where
  quoted : Bool
  /-- The word that has begun, if any. -/
  word : Option Text
  words : List Text
  commands : List (List Text)
  deriving DecidableEq, Repr

namespace Reader

def start : Reader := ⟨false, none, [], []⟩

def push (r : Reader) (t : Text) : Reader := { r with word := some (r.word.getD [] ++ t) }

def endWord (r : Reader) : Reader :=
  match r.word with
  | none => r
  | some word => { r with word := none, words := r.words ++ [word] }

def endCommand (r : Reader) : Reader :=
  let ended := r.endWord
  if ended.words = [] then ended
  else { ended with words := [], commands := ended.commands ++ [ended.words] }

def read (r : Reader) (c : Char) : Option Reader :=
  if r.quoted then
    if c = quoteChar then some { r with quoted := false } else some (r.push [c])
  else if c = quoteChar then some { r.push [] with quoted := true }
  else if c = ' ' then some r.endWord
  else if controlChar c then some r.endCommand
  else if plainChar c then some (r.push [c])
  else none

def readText (r : Reader) (t : Text) : Option Reader := t.foldlM read r

end Reader

open Reader

/-- The commands of a line, each as its words; `none` when a quote stays open or a
character is not understood. -/
def shellCommands (line : Text) : Option (List (List Text)) :=
  (start.readText line).bind fun r => if r.quoted then none else some r.endCommand.commands

variable {r : Reader}

theorem readText_nil (r : Reader) : r.readText [] = some r := rfl

theorem readText_append {t t' : Text} {r' : Reader} (h : r.readText t = some r') :
    r.readText (t ++ t') = r'.readText t' := by
  simp only [readText, List.foldlM_append] at h ⊢
  rw [h]
  rfl

theorem readText_cons {c : Char} {t : Text} {r' : Reader} (h : r.read c = some r') :
    r.readText (c :: t) = r'.readText t := by
  simp only [readText, List.foldlM_cons, h]
  rfl

theorem push_push (r : Reader) (t t' : Text) : (r.push t).push t' = r.push (t ++ t') := by
  simp [push]

theorem push_of_word {word : Text} (h : r.word = some word) : r.push [] = r := by
  cases r
  simp_all [push]

theorem read_plain (hquoted : r.quoted = false) {c : Char} (hc : plainChar c) :
    r.read c = some (r.push [c]) := by
  have hspecial : (quoteChar :: ' ' :: ";&|\n".toList).all (fun d => !plainChar d) := rfl
  have hne : ∀ d ∈ quoteChar :: ' ' :: ";&|\n".toList, c ≠ d := by
    intro d hd hcd
    have hplain := List.all_eq_true.mp hspecial d hd
    rw [← hcd, hc] at hplain
    cases hplain
  have hcontrol : ¬ controlChar c := by
    intro h
    have hmem := List.contains_iff_mem.mp h
    exact hne c (List.mem_cons_of_mem _ (List.mem_cons_of_mem _ hmem)) rfl
  unfold Reader.read
  rw [if_neg (by simp [hquoted]), if_neg (hne quoteChar List.mem_cons_self),
    if_neg (hne ' ' (List.mem_cons_of_mem _ List.mem_cons_self)), if_neg hcontrol, if_pos hc]

/-- Plain characters make the word longer that is being read. -/
theorem readText_plain {word : Text} (hquoted : r.quoted = false) (hword : r.word = some word)
    {t : Text} (ht : t.all plainChar) : r.readText t = some (r.push t) := by
  induction t generalizing r word with
  | nil => rw [readText_nil, push_of_word hword]
  | cons c t ih =>
    rw [List.all_cons, Bool.and_eq_true] at ht
    have hnext : (r.push [c]).word = some (word ++ [c]) := by simp [push, hword]
    rw [readText_cons (read_plain hquoted ht.1), ih (r := r.push [c]) hquoted hnext ht.2, push_push]
    rfl

/-- Between quotes everything but the quote goes into the word. -/
theorem readText_quoted {word : Text} (hquoted : r.quoted = true) (hword : r.word = some word)
    {t : Text} (ht : quoteChar ∉ t) : r.readText t = some (r.push t) := by
  induction t generalizing r word with
  | nil => rw [readText_nil, push_of_word hword]
  | cons c t ih =>
    rw [List.mem_cons, not_or] at ht
    have hread : r.read c = some (r.push [c]) := by
      simp [Reader.read, hquoted, Ne.symm ht.1]
    have hnext : (r.push [c]).word = some (word ++ [c]) := by simp [push, hword]
    rw [readText_cons hread, ih (r := r.push [c]) hquoted hnext ht.2, push_push]
    rfl

theorem shellCommands_of_readText {line word : Text} {ws : List Text}
    (h : start.readText line = some ⟨false, some word, ws, []⟩) :
    shellCommands line = some [ws ++ [word]] := by
  rw [shellCommands, h]
  simp [endCommand, endWord]

/-- A line whose last word is plain throughout. -/
theorem shellCommands_plain {front key t : Text} {ws : List Text}
    (hfront : start.readText front = some ⟨false, some key, ws, []⟩) (ht : t.all plainChar) :
    shellCommands (front ++ t) = some [ws ++ [key ++ t]] := by
  apply shellCommands_of_readText
  rw [readText_append hfront]
  exact readText_plain rfl rfl ht

/-- A line whose last word is quoted. -/
theorem shellCommands_quoted {front t : Text} {ws : List Text}
    (hfront : start.readText front = some ⟨true, some [], ws, []⟩) (ht : quoteChar ∉ t) :
    shellCommands (front ++ (t ++ [quoteChar])) = some [ws ++ [t]] := by
  apply shellCommands_of_readText
  rw [readText_append hfront, readText_append (readText_quoted rfl rfl ht)]
  rfl

/-- An operator outside of quotes ends the command; between quotes it does not. -/
example :
    shellCommands "ls -a;ls".toList = some [["ls".toList, "-a".toList], ["ls".toList]] ∧
      shellCommands "ls 'a;ls'".toList = some [["ls".toList, "a;ls".toList]] := by
  decide

end BeLa.ShellWords
