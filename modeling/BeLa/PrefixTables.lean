import Mathlib.Data.List.Basic
import Mathlib.Data.List.Nodup
import Mathlib.Tactic.Basic

/-!
Tables of a fixed size that are filled from the front: behind the entries in use,
which have pairwise different keys, stand free ones, all of them alike and with a
key that no entry in use has. Such a table is what a scan for the first free
entry relies on, and writing an entry of a new key there keeps it so.
-/
namespace BeLa.PrefixTables

variable {α ι : Type*}

/-- The table holds the entries that are taken, and free ones behind them. -/
structure Filled (key : α → ι) (free : α) (size : ℕ) (table taken : List α) : Prop where
  entries : table = taken ++ List.replicate (size - taken.length) free
  room : taken.length ≤ size
  used : ∀ x ∈ taken, key x ≠ key free
  nodup : (taken.map key).Nodup

/-- The entries in use come first and have pairwise different keys. -/
structure Ordered (key : α → ι) (free : α) (size : ℕ) (table : List α) : Prop where
  size : table.length = size
  front : ∀ i j, i ≤ j → key (table.getD j free) ≠ key free → key (table.getD i free) ≠ key free
  distinct : ∀ i j, key (table.getD i free) ≠ key free →
    key (table.getD i free) = key (table.getD j free) → i = j

variable {key : α → ι} {free x : α} {size i j : ℕ} {table taken : List α}

theorem filled_empty : Filled key free size (List.replicate size free) [] :=
  ⟨rfl, Nat.zero_le _, by simp, List.nodup_nil⟩

namespace Filled

theorem length_table (h : Filled key free size table taken) : table.length = size := by
  have hroom := h.room
  rw [h.entries, List.length_append, List.length_replicate]
  omega

theorem getElem?_table (h : Filled key free size table taken) (hi : i < taken.length) :
    table[i]? = some taken[i] := by
  rw [h.entries, List.getElem?_append_left hi, List.getElem?_eq_getElem hi]

/-- Every index stands for an entry in use or a free one. -/
theorem getD_table (h : Filled key free size table taken) (i : ℕ) :
    table.getD i free = taken.getD i free := by
  rw [List.getD_eq_getElem?_getD, List.getD_eq_getElem?_getD]
  by_cases hi : i < taken.length
  · rw [h.getElem?_table hi, List.getElem?_eq_getElem hi]
  · rw [h.entries, List.getElem?_append_right (by omega), List.getElem?_replicate,
      List.getElem?_eq_none (by omega)]
    split <;> rfl

theorem getD_of_lt (h : Filled key free size table taken) (hi : i < taken.length) :
    table.getD i free = taken[i] := by
  rw [List.getD_eq_getElem?_getD, h.getElem?_table hi, Option.getD_some]

theorem used_iff (h : Filled key free size table taken) (i : ℕ) :
    key (table.getD i free) ≠ key free ↔ i < taken.length := by
  constructor
  · intro hused
    by_contra hi
    rw [h.getD_table, List.getD_eq_getElem?_getD, List.getElem?_eq_none (by omega)] at hused
    exact hused rfl
  · intro hi
    rw [h.getD_of_lt hi]
    exact h.used _ (List.getElem_mem hi)

/-- Two entries in use with the same key are the same entry. -/
theorem index_inj (h : Filled key free size table taken) (hi : key (table.getD i free) ≠ key free)
    (hsame : key (table.getD i free) = key (table.getD j free)) : i = j := by
  have hj : key (table.getD j free) ≠ key free := hsame ▸ hi
  rw [h.used_iff] at hi hj
  rw [h.getD_of_lt hi, h.getD_of_lt hj] at hsame
  have hi' : i < (taken.map key).length := by rwa [List.length_map]
  have hj' : j < (taken.map key).length := by rwa [List.length_map]
  have hequal : (taken.map key)[i] = (taken.map key)[j] := by
    rw [List.getElem_map, List.getElem_map, hsame]
  exact h.nodup.getElem_inj_iff.mp hequal

theorem ordered (h : Filled key free size table taken) : Ordered key free size table where
  size := h.length_table
  front i j hij hj := by
    rw [h.used_iff] at hj ⊢
    omega
  distinct _ _ hi hsame := h.index_inj hi hsame

/-- The entries in use are those that are taken. -/
theorem filter_used (h : Filled key free size table taken) {p : α → Bool}
    (hp : ∀ x, p x = true ↔ key x ≠ key free) : table.filter p = taken := by
  have hall : taken.filter p = taken :=
    List.filter_eq_self.mpr fun x hx => (hp x).mpr (h.used x hx)
  have hnone : (List.replicate (size - taken.length) free).filter p = [] := by
    rw [List.filter_eq_nil_iff]
    intro x hx
    rw [List.eq_of_mem_replicate hx, hp]
    exact not_not.mpr rfl
  rw [h.entries, List.filter_append, hall, hnone, List.append_nil]

/-- Other keys than the free one are in the table when they are taken. -/
theorem key_mem_iff (h : Filled key free size table taken) {k : ι} (hk : k ≠ key free) :
    k ∈ taken.map key ↔ ∃ x ∈ table, key x = k := by
  rw [List.mem_map, h.entries]
  constructor
  · intro ⟨x, hx, hkey⟩
    exact ⟨x, List.mem_append_left _ hx, hkey⟩
  · intro ⟨x, hx, hkey⟩
    rcases List.mem_append.mp hx with hused | hfree
    · exact ⟨x, hused, hkey⟩
    · rw [List.eq_of_mem_replicate hfree] at hkey
      exact absurd hkey.symm hk

/-- An entry of a new key takes the first free place. -/
theorem append (h : Filled key free size table taken) (hused : key x ≠ key free)
    (hnew : key x ∉ taken.map key) (hroom : taken.length < size) :
    Filled key free size (table.set taken.length x) (taken ++ [x]) := by
  obtain ⟨n, hn⟩ : ∃ n, size - taken.length = n + 1 := ⟨size - taken.length - 1, by omega⟩
  have hleft : size - (taken ++ [x]).length = n := by
    rw [List.length_append, List.length_singleton]
    omega
  refine ⟨?_, ?_, ?_, ?_⟩
  · rw [hleft, h.entries, hn, List.replicate_succ, List.set_append_right _ _ (Nat.le_refl _),
      Nat.sub_self, List.set_cons_zero, List.append_assoc, List.singleton_append]
  · rw [List.length_append, List.length_singleton]
    omega
  · intro y hy
    rcases List.mem_append.mp hy with hold | hlast
    · exact h.used y hold
    · rw [List.mem_singleton.mp hlast]
      exact hused
  · rw [List.map_append, List.map_singleton, List.nodup_append]
    refine ⟨h.nodup, List.nodup_singleton _, fun a ha b hb => ?_⟩
    rw [List.mem_singleton.mp hb]
    intro hsame
    exact hnew (hsame ▸ ha)

end Filled

end BeLa.PrefixTables
