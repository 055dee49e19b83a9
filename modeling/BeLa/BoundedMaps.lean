import BeLa.Slots
import Mathlib.Data.Finset.Card
import Mathlib.Logic.Function.Basic

/-!
Finite maps that hold at most a given number of keys. A map takes a new key while
it has room and refuses one that it has; erasing a key always succeeds. A list of
records told apart by their identities represents the map that finds each record
under its identity, and adding or removing a record represents the map's own
operation.
-/
namespace BeLa.BoundedMaps

open Slots

/-- A partial function with its keys, of which there are at most `capacity`. -/
structure BoundedMap (ι α : Type*) (capacity : ℕ) where
  lookup : ι → Option α
  keys : Finset ι
  mem_keys : ∀ k, k ∈ keys ↔ (lookup k).isSome
  bounded : keys.card ≤ capacity

namespace BoundedMap

variable {ι α : Type*} [DecidableEq ι] {capacity : ℕ}

omit [DecidableEq ι] in
/-- A map is what it finds. -/
theorem eq_of_lookup {m m' : BoundedMap ι α capacity} (h : ∀ k, m.lookup k = m'.lookup k) :
    m = m' := by
  have hkeys : m.keys = m'.keys := by
    ext k
    rw [m.mem_keys, m'.mem_keys, h]
  cases m
  cases m'
  obtain rfl := hkeys
  obtain rfl := funext h
  rfl

def empty : BoundedMap ι α capacity where
  lookup := fun _ => none
  keys := ∅
  mem_keys := by simp
  bounded := by simp

def insert (m : BoundedMap ι α capacity) (k : ι) (x : α) : Option (BoundedMap ι α capacity) :=
  if h : k ∉ m.keys ∧ m.keys.card < capacity then
    some
      { lookup := Function.update m.lookup k (some x)
        keys := Insert.insert k m.keys
        mem_keys := fun j => by
          by_cases hj : j = k
          · simp [hj]
          · simp [hj, m.mem_keys]
        bounded := by
          rw [Finset.card_insert_of_notMem h.1]
          exact h.2 }
  else none

def erase (m : BoundedMap ι α capacity) (k : ι) : BoundedMap ι α capacity where
  lookup := Function.update m.lookup k none
  keys := m.keys.erase k
  mem_keys := fun j => by
    by_cases hj : j = k
    · simp [hj]
    · simp [hj, m.mem_keys]
  bounded := (Finset.card_erase_le).trans m.bounded

theorem insert_isSome_iff (m : BoundedMap ι α capacity) (k : ι) (x : α) :
    (m.insert k x).isSome ↔ m.lookup k = none ∧ m.keys.card < capacity := by
  unfold insert
  split
  · rename_i h
    simpa [m.mem_keys] using h
  · rename_i h
    simpa [m.mem_keys] using h

theorem lookup_insert {m m' : BoundedMap ι α capacity} {k : ι} {x : α}
    (h : m.insert k x = some m') (j : ι) :
    m'.lookup j = if j = k then some x else m.lookup j := by
  unfold insert at h
  split at h
  · cases h
    exact Function.update_apply ..
  · cases h

theorem lookup_erase (m : BoundedMap ι α capacity) (k j : ι) :
    (m.erase k).lookup j = if j = k then none else m.lookup j :=
  Function.update_apply ..

end BoundedMap

variable {ι α : Type*} [DecidableEq ι] {capacity : ℕ} {ident : α → ι}

/-- The records are what the map finds, each under its own identity. -/
structure Represents (ident : α → ι) (records : List α) (m : BoundedMap ι α capacity) : Prop where
  nodup : (records.map ident).Nodup
  finds : ∀ k, m.lookup k = records.find? (fun x => ident x = k)

theorem represents_empty : Represents ident [] (BoundedMap.empty : BoundedMap ι α capacity) :=
  ⟨List.nodup_nil, fun _ => rfl⟩

theorem Represents.mem_keys {records : List α} {m : BoundedMap ι α capacity}
    (h : Represents ident records m) (k : ι) : k ∈ m.keys ↔ k ∈ records.map ident := by
  rw [m.mem_keys, h.finds, List.find?_isSome, List.mem_map]
  simp

/-- There are as many records as keys. -/
theorem Represents.card_keys {records : List α} {m : BoundedMap ι α capacity}
    (h : Represents ident records m) : m.keys.card = records.length := by
  have hkeys : m.keys = (records.map ident).toFinset := by
    ext k
    rw [h.mem_keys, List.mem_toFinset]
  rw [hkeys, List.toFinset_card_of_nodup h.nodup, List.length_map]

theorem find_eq_some_iff {records : List α} (hnodup : (records.map ident).Nodup) (k : ι) (x : α) :
    records.find? (fun y => ident y = k) = some x ↔ x ∈ records ∧ ident x = k := by
  constructor
  · intro hfind
    exact ⟨List.mem_of_find?_eq_some hfind, by simpa using List.find?_some hfind⟩
  · intro ⟨hx, hk⟩
    subst hk
    exact find_ident hnodup hx

/-- The order of the records does not matter. -/
theorem Represents.perm {records records' : List α} {m : BoundedMap ι α capacity}
    (h : Represents ident records m) (hperm : records.Perm records') :
    Represents ident records' m := by
  have hnodup : (records'.map ident).Nodup := (hperm.map ident).nodup_iff.mp h.nodup
  refine ⟨hnodup, fun k => ?_⟩
  ext x
  rw [h.finds, find_eq_some_iff h.nodup, find_eq_some_iff hnodup, hperm.mem_iff]

/-- A record of a new identity is an insertion. -/
theorem Represents.insert {records : List α} {m : BoundedMap ι α capacity}
    (h : Represents ident records m) {x : α} (hnew : ident x ∉ records.map ident)
    (hroom : records.length < capacity) :
    ∃ m', m.insert (ident x) x = some m' ∧ Represents ident (x :: records) m' := by
  have hsome : (m.insert (ident x) x).isSome := by
    rw [m.insert_isSome_iff, h.card_keys, h.finds, List.find?_eq_none]
    refine ⟨fun y hy hsame => hnew ?_, hroom⟩
    have hident : ident y = ident x := by simpa using hsame
    rw [← hident]
    exact List.mem_map_of_mem hy
  obtain ⟨m', hm'⟩ := Option.isSome_iff_exists.mp hsome
  refine ⟨m', hm', List.nodup_cons.mpr ⟨hnew, h.nodup⟩, fun k => ?_⟩
  rw [BoundedMap.lookup_insert hm']
  by_cases hk : k = ident x
  · rw [if_pos hk, List.find?_cons_of_pos (by simp [hk])]
  · rw [if_neg hk, List.find?_cons_of_neg (by simpa using Ne.symm hk), h.finds]

/-- A record less is an erasure. -/
theorem Represents.erase {records rest : List α} {m : BoundedMap ι α capacity} {x : α}
    (h : Represents ident records m) (hperm : records.Perm (x :: rest)) :
    Represents ident rest (m.erase (ident x)) := by
  have hcons := h.perm hperm
  obtain ⟨hx, hnodup⟩ := List.nodup_cons.mp hcons.nodup
  refine ⟨hnodup, fun k => ?_⟩
  rw [BoundedMap.lookup_erase]
  by_cases hk : k = ident x
  · rw [if_pos hk, eq_comm, List.find?_eq_none]
    intro y hy hsame
    have hident : ident y = k := by simpa using hsame
    rw [← hk, ← hident] at hx
    exact hx (List.mem_map_of_mem hy)
  · rw [if_neg hk, hcons.finds, List.find?_cons_of_neg (by simpa using Ne.symm hk)]

/-- Erasing an identity that no record has leaves the map as it was. -/
theorem Represents.erase_absent {records : List α} {m : BoundedMap ι α capacity} {k : ι}
    (h : Represents ident records m) (habsent : k ∉ records.map ident) : m.erase k = m := by
  refine BoundedMap.eq_of_lookup fun j => ?_
  rw [BoundedMap.lookup_erase]
  split
  · rename_i hj
    subst hj
    rw [← h.mem_keys, m.mem_keys] at habsent
    exact (Option.not_isSome_iff_eq_none.mp habsent).symm
  · rfl

end BeLa.BoundedMaps
