import BeLa.Words

/-!
Lines made of optional keyed words. A field that is set contributes one word,
its key with its value behind it; a field that is not set contributes nothing.
When no other field can produce a word that begins with a field's key, the
field's presence and its value are read back from the words of the line.
-/
namespace BeLa.KeyedWords

open Numerals Words

/-- An optional word: a key with a value behind it. -/
structure Keyed where
  isSet : Bool
  key : Text
  value : Text
  deriving DecidableEq, Repr

def keyedWords (fields : List Keyed) : List Text :=
  (fields.filter Keyed.isSet).map (fun field => field.key ++ field.value)

def valueOf (key : Text) (ws : List Text) : Option Text := ws.findSome? (after key)

/-- Two keys differ where both have a character, so no word begins with both. -/
def differ (key key' : Text) : Bool := (key.zip key').any (fun p => p.1 ≠ p.2)

def Keyed.excludes (field : Keyed) (key : Text) : Bool :=
  differ key field.key || (field.value.isEmpty && !key.isPrefixOf field.key)

/-- A text that is empty or begins with a space ends the word before it. -/
def Spaced (t : Text) : Prop := ∀ c ∈ t.head?, c = ' '

theorem spaced_cons (t : Text) : Spaced (' ' :: t) := by
  simp [Spaced]

theorem words_append_spaced (a : Text) {b : Text} (hb : Spaced b) :
    words (a ++ b) = words a ++ words b := by
  cases b with
  | nil => simp [words_nil]
  | cons c b =>
    obtain rfl : c = ' ' := hb c (by simp)
    rw [words_append_space, words_space]

theorem keyedWords_append (fields fields' : List Keyed) :
    keyedWords (fields ++ fields') = keyedWords fields ++ keyedWords fields' := by
  simp [keyedWords]

theorem after_of_differ {key key' : Text} (h : differ key key') (value : Text) :
    after key (key' ++ value) = none := by
  apply after_eq_none
  intro hprefix
  induction key generalizing key' with
  | nil => simp [differ] at h
  | cons c key ih =>
    cases key' with
    | nil => simp [differ] at h
    | cons c' key' =>
      obtain ⟨rfl, hrest⟩ := List.cons_prefix_cons.mp hprefix
      refine ih ?_ hrest
      simpa [differ] using h

/-- A word under the key of entry `i` is read by that entry alone. -/
theorem findSome?_keyed {α β : Type} {entries : List (Text × α)} {read : α → Text → Option β}
    {i : ℕ} {key value : Text} {a : α} {b : β} (hi : entries[i]? = some (key, a))
    (hfirst : (entries.take i).all fun entry => differ entry.1 key)
    (hread : read a value = some b) :
    entries.findSome? (fun entry => (after entry.1 (key ++ value)).bind (read entry.2)) =
      some b := by
  obtain ⟨hlt, hget⟩ := List.getElem?_eq_some_iff.mp hi
  have hsplit : entries = entries.take i ++ (entries[i] :: entries.drop (i + 1)) := by simp
  have hnone : (entries.take i).findSome?
      (fun entry => (after entry.1 (key ++ value)).bind (read entry.2)) = none := by
    rw [List.findSome?_eq_none_iff]
    intro entry hentry
    rw [after_of_differ (List.all_eq_true.mp hfirst entry hentry), Option.bind_none]
  rw [hsplit, List.findSome?_append, hnone, Option.none_or, hget, List.findSome?_cons,
    after_append, Option.bind_some]
  simp only [hread]

def findAfter (key t : Text) : Option Text := t.tails.findSome? (after key)

/-- In front of the key every character begins something else. -/
theorem findAfter_append {key front : Text}
    (hfront : ∀ t ∈ front.tails, t ≠ [] → differ key (t ++ key)) (rest : Text) :
    findAfter key (front ++ (key ++ rest)) = some rest := by
  induction front with
  | nil =>
    have hself : ∀ t : Text, ∃ more, t.tails = t :: more := by
      intro t
      cases t <;> exact ⟨_, rfl⟩
    obtain ⟨more, htails⟩ := hself (key ++ rest)
    rw [findAfter, List.nil_append, htails, List.findSome?_cons, after_append]
  | cons c front ih =>
    have htails : ∀ t : Text, (c :: t).tails = (c :: t) :: t.tails := fun _ => rfl
    rw [htails, List.forall_mem_cons] at hfront
    have hskip : after key (c :: (front ++ (key ++ rest))) = none := by
      have hhead := after_of_differ (hfront.1 (by simp)) rest
      rwa [List.append_assoc] at hhead
    rw [findAfter, List.cons_append, htails, List.findSome?_cons, hskip]
    exact ih hfront.2

theorem Keyed.after_of_excludes {field : Keyed} {key : Text} (h : field.excludes key) :
    after key (field.key ++ field.value) = none := by
  rcases (Bool.or_eq_true _ _).mp h with h | h
  · exact after_of_differ h field.value
  · simp only [Bool.and_eq_true, List.isEmpty_iff, Bool.not_eq_true'] at h
    rw [h.1, List.append_nil]
    simp [after, h.2]

theorem valueOf_eq_none {fields : List Keyed} {key : Text}
    (h : fields.all (·.excludes key)) : valueOf key (keyedWords fields) = none := by
  simp only [valueOf, List.findSome?_eq_none_iff, keyedWords, List.mem_map, List.mem_filter]
  rintro _ ⟨field, ⟨hmem, _⟩, rfl⟩
  exact Keyed.after_of_excludes (List.all_eq_true.mp h field hmem)

theorem valueOf_append (key : Text) (ws ws' : List Text) :
    valueOf key (ws ++ ws') = (valueOf key ws).or (valueOf key ws') := by
  simp [valueOf, List.findSome?_append]

/-- A field whose key every other field excludes is read back from the words. -/
theorem valueOf_keyedWords {fields : List Keyed} {i : ℕ} (hi : i < fields.length)
    (h : (fields.eraseIdx i).all (·.excludes fields[i].key)) :
    valueOf fields[i].key (keyedWords fields) =
      if fields[i].isSet then some fields[i].value else none := by
  have hsplit : fields = fields.take i ++ (fields[i] :: fields.drop (i + 1)) := by simp
  rw [List.eraseIdx_eq_take_drop_succ, List.all_append, Bool.and_eq_true] at h
  have hfront := valueOf_eq_none h.1
  have hback := valueOf_eq_none h.2
  have hfield : valueOf fields[i].key (keyedWords [fields[i]]) =
      if fields[i].isSet then some fields[i].value else none := by
    by_cases hset : fields[i].isSet
    · simp [keyedWords, hset, valueOf, after_append]
    · simp [keyedWords, hset, valueOf]
  have hwords : keyedWords fields = keyedWords (fields.take i) ++
      (keyedWords [fields[i]] ++ keyedWords (fields.drop (i + 1))) := by
    rw [← keyedWords_append, ← keyedWords_append]
    exact congrArg keyedWords hsplit
  rw [hwords, valueOf_append, valueOf_append, hfront, hback, hfield]
  simp

/-- Two lines with the same words agree on a field that both read back under one key. -/
theorem agree_of_keyedWords_eq {fields fields' : List Keyed}
    (hwords : keyedWords fields = keyedWords fields') {i j : ℕ} (hi : i < fields.length)
    (hj : j < fields'.length) (hkey : fields[i].key = fields'[j].key)
    (h : (fields.eraseIdx i).all (·.excludes fields[i].key))
    (h' : (fields'.eraseIdx j).all (·.excludes fields'[j].key)) :
    fields[i].isSet = fields'[j].isSet ∧
      (fields[i].isSet → fields[i].value = fields'[j].value) := by
  have hread := valueOf_keyedWords hi h
  rw [hwords, hkey, valueOf_keyedWords hj h'] at hread
  by_cases hset : fields[i].isSet <;> by_cases hset' : fields'[j].isSet <;>
    simp_all

end BeLa.KeyedWords
