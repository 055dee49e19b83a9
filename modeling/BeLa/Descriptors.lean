import Mathlib.Data.Finset.Card
import Mathlib.Data.List.Nodup
import Mathlib.Data.List.Range
import Mathlib.Data.Finset.Range

/-!
The descriptors of a process. The system gives out the lowest number that is not
in use, as long as it is below the limit of the process, and takes a number back
when it is closed. The owners of a process account for its descriptors where the
numbers they hold, with those that nobody holds any more, are the open ones.
-/
namespace BeLa.Descriptors

def lowest (used : List ℕ) : ℕ :=
  ((List.range (used.length + 1)).find? fun fd => fd ∉ used).getD used.length

structure Files where
  limit : ℕ
  held : List ℕ
  nodup : held.Nodup
  below : ∀ fd ∈ held, fd < limit

theorem lowest_spec (used : List ℕ) :
    lowest used ∉ used ∧ ∀ fd < lowest used, fd ∈ used := by
  have hfree : ∃ fd ∈ List.range (used.length + 1), fd ∉ used := by
    by_contra hall
    have hsub : List.range (used.length + 1) ⊆ used := fun fd hfd => by
      by_contra hfree
      exact hall ⟨fd, hfd, hfree⟩
    have hlength := (List.nodup_range.subperm hsub).length_le
    rw [List.length_range] at hlength
    omega
  have hsome : ((List.range (used.length + 1)).find? fun fd => fd ∉ used).isSome := by
    rw [List.find?_isSome]
    simpa using hfree
  obtain ⟨fd, hfd⟩ := Option.isSome_iff_exists.mp hsome
  rw [lowest, hfd, Option.getD_some]
  obtain ⟨hnot, -, hbefore⟩ := List.find?_range_eq_some.mp hfd
  exact ⟨by simpa using hnot, fun other hother => by simpa using hbefore other hother⟩

namespace Files

def take (files : Files) : Option (ℕ × Files) :=
  if h : lowest files.held < files.limit then
    some (lowest files.held,
      { files with
        held := lowest files.held :: files.held
        nodup := List.nodup_cons.mpr ⟨(lowest_spec files.held).1, files.nodup⟩
        below := List.forall_mem_cons.mpr ⟨h, files.below⟩ })
  else none

def close (files : Files) (fd : ℕ) : Files :=
  { files with
    held := files.held.erase fd
    nodup := files.nodup.erase fd
    below := fun other hother => files.below other (List.mem_of_mem_erase hother) }

/-- The numbers of the owners, and the lost ones, are the open descriptors. -/
def Accounts (files : Files) (owned lost : List ℕ) : Prop := files.held.Perm (owned ++ lost)

variable {files files' : Files} {owned owned' lost : List ℕ} {fd : ℕ}

theorem take_spec (h : files.take = some (fd, files')) :
    files'.limit = files.limit ∧ files'.held = fd :: files.held ∧ fd ∉ files.held := by
  unfold take at h
  split at h
  · cases h
    exact ⟨rfl, rfl, (lowest_spec files.held).1⟩
  · cases h

theorem length_le (files : Files) : files.held.length ≤ files.limit := by
  have hsub : files.held ⊆ List.range files.limit := fun fd hfd =>
    List.mem_range.mpr (files.below fd hfd)
  simpa using (files.nodup.subperm hsub).length_le

/-- A descriptor can be taken just while fewer than the limit are open. -/
theorem take_isSome_iff (files : Files) : files.take.isSome ↔ files.held.length < files.limit := by
  constructor
  · intro h
    obtain ⟨⟨fd, files'⟩, htake⟩ := Option.isSome_iff_exists.mp h
    obtain ⟨hlimit, hheld, -⟩ := take_spec htake
    have hlength := files'.length_le
    rw [hlimit, hheld, List.length_cons] at hlength
    exact hlength
  · intro hroom
    have hlt : lowest files.held < files.limit := by
      by_contra hge
      have hall : List.range files.limit ⊆ files.held := fun fd hfd =>
        (lowest_spec files.held).2 fd (by rw [List.mem_range] at hfd; omega)
      have hlength := (List.nodup_range.subperm hall).length_le
      rw [List.length_range] at hlength
      omega
    rw [take, dif_pos hlt]
    rfl

/-- A descriptor that is closed at once leaves no trace. -/
theorem close_taken (h : files.take = some (fd, files')) : files'.close fd = files := by
  unfold take at h
  split at h
  · cases h
    simp [close]
  · cases h

namespace Accounts

theorem nodup (h : files.Accounts owned lost) : (owned ++ lost).Nodup := h.nodup_iff.mp files.nodup

theorem mem (h : files.Accounts owned lost) (hfd : fd ∈ owned) : fd ∈ files.held :=
  h.mem_iff.mpr (List.mem_append_left _ hfd)

theorem length (h : files.Accounts owned lost) :
    files.held.length = owned.length + lost.length := by
  rw [h.length_eq, List.length_append]

theorem perm (h : files.Accounts owned lost) (howned : owned.Perm owned') :
    files.Accounts owned' lost := h.trans (howned.append_right lost)

/-- A descriptor that was taken has an owner. -/
theorem take (h : files.Accounts owned lost) (htake : files.take = some (fd, files')) :
    files'.Accounts (fd :: owned) lost := by
  obtain ⟨-, hheld, -⟩ := take_spec htake
  rw [Accounts, hheld, List.cons_append]
  exact h.cons fd

/-- The owner of a descriptor closes it. -/
theorem close (h : files.Accounts (fd :: owned) lost) : (files.close fd).Accounts owned lost := by
  have herase := h.erase fd
  rwa [List.cons_append, List.erase_cons_head] at herase

/-- The owner of a descriptor forgets it. -/
theorem lose (h : files.Accounts (fd :: owned) lost) : files.Accounts owned (fd :: lost) :=
  h.trans List.perm_middle.symm

end Accounts

end Files

/-- Where keys tell the owners apart, an owner that goes leaves all the others. -/
theorem perm_cons_filter {α ι : Type*} [DecidableEq ι] {key : α → ι} {owners : List α} {x : α}
    (hnodup : (owners.map key).Nodup) (hx : x ∈ owners) :
    owners.Perm (x :: owners.filter fun y => key y ≠ key x) := by
  induction owners with
  | nil => cases hx
  | cons y owners ih =>
    rw [List.map_cons, List.nodup_cons] at hnodup
    rcases List.mem_cons.mp hx with rfl | hx
    · have hothers : owners.filter (fun y => key y ≠ key x) = owners := by
        rw [List.filter_eq_self]
        intro y hy
        have hkey : key y ≠ key x := fun hkey => hnodup.1 (hkey ▸ List.mem_map_of_mem hy)
        simpa using hkey
      rw [List.filter_cons, if_neg (by simp), hothers]
    · have hkey : key y ≠ key x := fun hkey => hnodup.1 (hkey ▸ List.mem_map_of_mem hx)
      rw [List.filter_cons, if_pos (by simpa using hkey)]
      exact ((ih hnodup.2 hx).cons y).trans (List.Perm.swap _ _ _)

end BeLa.Descriptors
