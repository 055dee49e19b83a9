import Mathlib.Data.List.Nodup
import Mathlib.Data.List.Perm.Basic

/-!
Tables of optional records: a record is placed in the first free slot, the first
record with a property is taken out, and a record is overwritten in its slot.
Up to the order of the slots, placing adds one record and taking out removes
one. Where an identity tells the records apart, it finds them again.
-/
namespace BeLa.Slots

variable {α ι : Type*}

def records (slots : List (Option α)) : List α := slots.filterMap id

/-- The table with the record in its first free slot; `none` when it is full. -/
def place (x : α) : List (Option α) → Option (List (Option α))
  | [] => none
  | none :: slots => some (some x :: slots)
  | some y :: slots => (place x slots).map (some y :: ·)

def takeOut (p : α → Bool) : List (Option α) → List (Option α) × Option α
  | [] => ([], none)
  | none :: slots =>
    let (rest, taken) := takeOut p slots
    (none :: rest, taken)
  | some y :: slots =>
    if p y then (none :: slots, some y)
    else
      let (rest, taken) := takeOut p slots
      (some y :: rest, taken)

def overwrite [DecidableEq ι] (ident : α → ι) (x : α) (slots : List (Option α)) :
    List (Option α) :=
  slots.map (Option.map fun y => if ident y = ident x then x else y)

theorem records_none (slots : List (Option α)) : records (none :: slots) = records slots := rfl

theorem records_some (x : α) (slots : List (Option α)) :
    records (some x :: slots) = x :: records slots := rfl

theorem records_replicate_none (n : ℕ) : records (List.replicate n (none : Option α)) = [] := by
  simp [records]

/-- Placing adds the record. -/
theorem records_place {x : α} {slots slots' : List (Option α)} (h : place x slots = some slots') :
    (records slots').Perm (x :: records slots) := by
  induction slots generalizing slots' with
  | nil => simp [place] at h
  | cons slot slots ih =>
    cases slot with
    | none =>
      obtain rfl : some x :: slots = slots' := by simpa [place] using h
      rw [records_some, records_none]
    | some y =>
      obtain ⟨rest, hrest, rfl⟩ := Option.map_eq_some_iff.mp h
      rw [records_some, records_some]
      exact ((ih hrest).cons y).trans (List.Perm.swap x y _)

/-- Taking out finds nothing where no record has the property. -/
theorem takeOut_none {p : α → Bool} {slots : List (Option α)}
    (h : (takeOut p slots).2 = none) :
    (takeOut p slots).1 = slots ∧ ∀ x ∈ records slots, ¬ p x := by
  induction slots with
  | nil => exact ⟨rfl, by simp [records]⟩
  | cons slot slots ih =>
    cases slot with
    | none =>
      obtain ⟨hsame, hall⟩ := ih h
      exact ⟨congrArg (none :: ·) hsame, hall⟩
    | some y =>
      by_cases hy : p y
      · simp [takeOut, hy] at h
      · simp only [takeOut, if_neg hy] at h ⊢
        obtain ⟨hsame, hall⟩ := ih h
        refine ⟨congrArg (some y :: ·) hsame, ?_⟩
        rw [records_some, List.forall_mem_cons]
        exact ⟨hy, hall⟩

/-- Taking out removes one record, which has the property. -/
theorem takeOut_some {p : α → Bool} {slots : List (Option α)} {x : α}
    (h : (takeOut p slots).2 = some x) :
    (records slots).Perm (x :: records (takeOut p slots).1) ∧ p x := by
  induction slots with
  | nil => simp [takeOut] at h
  | cons slot slots ih =>
    cases slot with
    | none => exact ih h
    | some y =>
      by_cases hy : p y
      · simp only [takeOut, if_pos hy, Option.some.injEq] at h ⊢
        subst h
        exact ⟨List.Perm.refl _, hy⟩
      · simp only [takeOut, if_neg hy] at h ⊢
        obtain ⟨hperm, hx⟩ := ih h
        refine ⟨?_, hx⟩
        rw [records_some, records_some]
        exact (hperm.cons y).trans (List.Perm.swap x y _)

/-- What is taken out is what a search finds. -/
theorem takeOut_find (p : α → Bool) (slots : List (Option α)) :
    (takeOut p slots).2 = (records slots).find? p := by
  induction slots with
  | nil => rfl
  | cons slot slots ih =>
    cases slot with
    | none => exact ih
    | some y =>
      rw [records_some]
      by_cases hy : p y
      · simp [takeOut, hy]
      · rw [List.find?_cons_of_neg hy, ← ih]
        simp [takeOut, hy]

theorem mem_records {x : α} {slots : List (Option α)} : x ∈ records slots ↔ some x ∈ slots := by
  simp [records]

theorem mem_records_of_getElem {x : α} {slots : List (Option α)} {i : ℕ}
    (h : slots[i]? = some (some x)) : x ∈ records slots :=
  mem_records.mpr (List.mem_of_getElem? h)

/-- Placing fills one slot that was free. -/
theorem place_set {x : α} {slots slots' : List (Option α)} (h : place x slots = some slots') :
    ∃ i : ℕ, slots[i]? = some none ∧ slots' = slots.set i (some x) := by
  induction slots generalizing slots' with
  | nil => simp [place] at h
  | cons slot slots ih =>
    cases slot with
    | none =>
      obtain rfl : some x :: slots = slots' := by simpa [place] using h
      exact ⟨0, rfl, rfl⟩
    | some y =>
      obtain ⟨rest, hrest, rfl⟩ := Option.map_eq_some_iff.mp h
      obtain ⟨i, hfree, rfl⟩ := ih hrest
      exact ⟨i + 1, hfree, rfl⟩

/-- Placing fails only in a table without a free slot. -/
theorem place_eq_none_iff (x : α) (slots : List (Option α)) :
    place x slots = none ↔ none ∉ slots := by
  induction slots with
  | nil => simp [place]
  | cons slot slots ih =>
    cases slot with
    | none => simp [place]
    | some y => simp [place, ih]

/-- Taking out empties the slot of the record. -/
theorem takeOut_set {p : α → Bool} {slots : List (Option α)} {x : α}
    (h : (takeOut p slots).2 = some x) :
    ∃ i : ℕ, slots[i]? = some (some x) ∧ (takeOut p slots).1 = slots.set i none := by
  induction slots with
  | nil => simp [takeOut] at h
  | cons slot slots ih =>
    cases slot with
    | none =>
      obtain ⟨i, hfound, hset⟩ := ih h
      exact ⟨i + 1, hfound, congrArg (none :: ·) hset⟩
    | some y =>
      by_cases hy : p y
      · simp only [takeOut, if_pos hy, Option.some.injEq] at h ⊢
        subst h
        exact ⟨0, rfl, rfl⟩
      · simp only [takeOut, if_neg hy] at h ⊢
        obtain ⟨i, hfound, hset⟩ := ih h
        exact ⟨i + 1, hfound, congrArg (some y :: ·) hset⟩

theorem length_records (slots : List (Option α)) :
    (records slots).length = slots.countP Option.isSome := by
  induction slots with
  | nil => rfl
  | cons slot slots ih =>
    cases slot with
    | none => simpa [records_none] using ih
    | some y => simpa [records_some] using ih

/-- A table has as many records as slots, or a free slot. -/
theorem length_records_lt_iff (slots : List (Option α)) :
    (records slots).length < slots.length ↔ none ∈ slots := by
  have hfull : slots.countP Option.isSome = slots.length ↔ none ∉ slots := by
    rw [List.countP_eq_length]
    constructor
    · intro hall hfree
      simpa using hall none hfree
    · intro hfree slot hslot
      cases slot with
      | none => exact absurd hslot hfree
      | some x => rfl
  rw [length_records, Nat.lt_iff_le_and_ne, ne_eq, hfull, not_not]
  exact and_iff_right List.countP_le_length

/-- Filling a slot leaves the records of the other slots in theirs. -/
theorem getElem_set_of_ne {y : α} {slots : List (Option α)} {slot : Option α} {i j : ℕ}
    (hi : slots[i]? = some slot) (hy : slots[j]? = some (some y)) (hne : slot ≠ some y)
    (x' : Option α) : (slots.set i x')[j]? = some (some y) := by
  have hij : i ≠ j := by
    rintro rfl
    exact hne (Option.some.inj (hi.symm.trans hy))
  rw [List.getElem?_set_ne hij, hy]

variable [DecidableEq ι] {ident : α → ι}

theorem records_overwrite (x : α) (slots : List (Option α)) :
    records (overwrite ident x slots) =
      (records slots).map (fun y => if ident y = ident x then x else y) := by
  induction slots with
  | nil => rfl
  | cons slot slots ih =>
    cases slot with
    | none => exact ih
    | some y => exact congrArg _ ih

/-- Of two writes to one record the later stands. -/
theorem overwrite_overwrite {x x' : α} (h : ident x = ident x') (slots : List (Option α)) :
    overwrite ident x' (overwrite ident x slots) = overwrite ident x' slots := by
  unfold overwrite
  rw [List.map_map]
  refine List.map_congr_left fun slot _ => ?_
  cases slot with
  | none => rfl
  | some y => by_cases hy : ident y = ident x' <;> simp [h, hy]

/-- Overwriting keeps the identities. -/
theorem idents_overwrite (x : α) (slots : List (Option α)) :
    (records (overwrite ident x slots)).map ident = (records slots).map ident := by
  rw [records_overwrite, List.map_map]
  refine List.map_congr_left fun y _ => ?_
  by_cases h : ident y = ident x <;> simp [h]

theorem mem_overwrite {x y : α} {slots : List (Option α)} :
    y ∈ records (overwrite ident x slots) ↔
      (y = x ∧ ∃ z ∈ records slots, ident z = ident x) ∨
        (y ∈ records slots ∧ ident y ≠ ident x) := by
  rw [records_overwrite, List.mem_map]
  constructor
  · rintro ⟨z, hz, rfl⟩
    by_cases h : ident z = ident x
    · exact .inl ⟨if_pos h, z, hz, h⟩
    · rw [if_neg h]
      exact .inr ⟨hz, h⟩
  · rintro (⟨rfl, z, hz, h⟩ | ⟨hy, h⟩)
    · exact ⟨z, hz, if_pos h⟩
    · exact ⟨y, hy, if_neg h⟩

/-- What is overwritten is found again. -/
theorem find_overwrite {x y : α} {slots : List (Option α)}
    (h : (records slots).find? (fun z => ident z = ident x) = some y) :
    (records (overwrite ident x slots)).find? (fun z => ident z = ident x) = some x := by
  rw [records_overwrite, List.find?_map]
  have hsame : ((fun z => decide (ident z = ident x)) ∘
      fun z => if ident z = ident x then x else z) =
      fun z => decide (ident z = ident x) := by
    funext z
    by_cases hz : ident z = ident x <;> simp [hz]
  have hy : ident y = ident x := by simpa using List.find?_some h
  rw [hsame, h, Option.map_some, if_pos hy]

/-- An identity shared by no two records finds its record. -/
theorem find_ident {records : List α} (hnodup : (records.map ident).Nodup) {x : α}
    (hx : x ∈ records) : records.find? (fun y => ident y = ident x) = some x := by
  induction records with
  | nil => simp at hx
  | cons y records ih =>
    rw [List.map_cons, List.nodup_cons] at hnodup
    by_cases h : ident y = ident x
    · rw [List.find?_cons_of_pos (by simpa using h)]
      rcases List.mem_cons.mp hx with rfl | hmem
      · rfl
      · exact absurd (List.mem_map.mpr ⟨x, hmem, h.symm⟩) hnodup.1
    · rw [List.find?_cons_of_neg (by simpa using h)]
      rcases List.mem_cons.mp hx with rfl | hmem
      · exact absurd rfl h
      · exact ih hnodup.2 hmem

theorem eq_of_ident_eq {records : List α} (hnodup : (records.map ident).Nodup) {x y : α}
    (hx : x ∈ records) (hy : y ∈ records) (h : ident x = ident y) : x = y := by
  have hfind := find_ident hnodup hx
  simp only [h] at hfind
  rw [find_ident hnodup hy] at hfind
  exact (Option.some.inj hfind).symm

omit [DecidableEq ι] in
/-- Records told apart by their identities stand in different slots. -/
theorem slot_unique {slots : List (Option α)} (hnodup : ((records slots).map ident).Nodup)
    {i j : ℕ} {x y : α} (hx : slots[i]? = some (some x)) (hy : slots[j]? = some (some y))
    (h : ident x = ident y) : i = j := by
  induction slots generalizing i j with
  | nil => simp at hx
  | cons slot slots ih =>
    have htail : ((records slots).map ident).Nodup := by
      cases slot with
      | none => exact hnodup
      | some z => exact (List.nodup_cons.mp hnodup).2
    -- the head record is none of the tail
    have hhead : ∀ z w (k : ℕ), slot = some z → slots[k]? = some (some w) → ident z ≠ ident w := by
      intro z w k hz hw hsame
      rw [hz, records_some, List.map_cons, List.nodup_cons, hsame] at hnodup
      exact hnodup.1 (List.mem_map_of_mem (mem_records_of_getElem hw))
    cases i with
    | zero =>
      cases j with
      | zero => rfl
      | succ j => exact absurd h (hhead x y j (by simpa using hx) (by simpa using hy))
    | succ i =>
      cases j with
      | zero => exact absurd h.symm (hhead y x i (by simpa using hy) (by simpa using hx))
      | succ j => exact congrArg (· + 1) (ih htail (by simpa using hx) (by simpa using hy))

end BeLa.Slots
