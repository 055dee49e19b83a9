import BeLa.Command
import Mathlib.Data.List.TakeWhile

/-!
The paths that tell cards apart. A path that ends inside its array reads the
same whatever stands behind the record; one that fills the array reads on, into
the zero descriptor of a table card and into the command type of a command.
-/
namespace BeLa.Paths

open LittleEndian Context Card Command

/-- The path ends inside its array. -/
def Terminated (card : AccCard) : Prop := 0 ∈ card.vmpath.toList

instance (card : AccCard) : Decidable (Terminated card) := by
  unfold Terminated
  infer_instance

theorem cString_append_of_not_mem {front : Bytes} (h : 0 ∉ front) (back : Bytes) :
    cString (front ++ back) = front ++ cString back := by
  refine List.takeWhile_append_of_pos fun b hb => ?_
  have hne : b ≠ 0 := fun hzero => h (hzero ▸ hb)
  simpa using hne

/-- The string ends at the first zero. -/
theorem cString_zero {front : Bytes} (h : 0 ∉ front) (back : Bytes) :
    cString (front ++ 0 :: back) = front := by
  rw [cString_append_of_not_mem h]
  simp [cString]

theorem cString_append_of_mem {front : Bytes} (h : 0 ∈ front) (back : Bytes) :
    cString (front ++ back) = cString front := by
  obtain ⟨string, rest, rfl, hstring⟩ := List.eq_append_cons_of_mem h
  rw [List.append_assoc, List.cons_append, cString_zero hstring, cString_zero hstring]

theorem zero_not_mem_cString (bs : Bytes) : 0 ∉ cString bs := by
  intro hmem
  have hne := List.mem_takeWhile_imp hmem
  simp at hne

/-- Bytes without a zero are a string. -/
theorem cString_of_not_mem {bs : Bytes} (h : 0 ∉ bs) : cString bs = bs := by
  have hstring := cString_append_of_not_mem h []
  have hnil : cString [] = [] := rfl
  rwa [hnil, List.append_nil] at hstring

theorem cString_zeros (bs : Bytes) (n : ℕ) : cString (bs ++ List.replicate n 0) = cString bs := by
  unfold cString
  rw [List.takeWhile_append]
  split
  · rename_i hall
    have hself : bs.takeWhile (· ≠ 0) = bs :=
      (List.takeWhile_prefix _).eq_of_length hall
    rw [hself, List.takeWhile_replicate]
    simp
  · rfl

theorem length_cString_lt {bs : Bytes} (h : 0 ∈ bs) : (cString bs).length < bs.length := by
  obtain ⟨string, rest, rfl, hstring⟩ := List.eq_append_cons_of_mem h
  rw [cString_zero hstring, List.length_append, List.length_cons]
  omega

/-- What stands behind the record does not show in a path that ends inside it. -/
theorem pathBefore_of_terminated {card : AccCard} (h : Terminated card) (behind : Bytes) :
    card.pathBefore behind = cString card.vmpath.toList :=
  cString_append_of_mem h behind

theorem length_path_of_terminated {card : AccCard} (h : Terminated card) (behind : Bytes) :
    (card.pathBefore behind).length < nameMaxLen := by
  rw [pathBefore_of_terminated h]
  exact (length_cString_lt h).trans_eq card.vmpath.toList_length

theorem path_of_not_terminated {card : AccCard} (h : ¬ Terminated card) (behind : Bytes) :
    card.pathBefore behind = card.vmpath.toList ++ cString behind :=
  cString_append_of_not_mem h behind

theorem length_path_of_not_terminated {card : AccCard} (h : ¬ Terminated card) (behind : Bytes) :
    (card.pathBefore behind).length = nameMaxLen + (cString behind).length := by
  rw [path_of_not_terminated h, List.length_append, card.vmpath.toList_length]

/-- Two cards of one path end it inside their arrays, or neither does. -/
theorem terminated_of_path_eq {card other : BeCardInner} (hpath : card.path = other.path)
    (h : Terminated card.card) : Terminated other.card := by
  by_cases hother : Terminated other.card
  · exact hother
  · have hlength := length_path_of_not_terminated hother [0, 0, 0, 0]
    have hlt := length_path_of_terminated h [0, 0, 0, 0]
    have hsame : card.card.pathBefore [0, 0, 0, 0] = other.card.pathBefore [0, 0, 0, 0] := hpath
    rw [hsame, hlength] at hlt
    omega

/-- A register command whose path runs into its command type names no card of the table. -/
theorem terminated_of_command_path {card : AccCard} {behind : Bytes} {other : BeCardInner}
    (h : other.path = card.pathBefore (wordBytes 4 cmdTypeRegister ++ behind)) :
    Terminated card := by
  by_cases hcard : Terminated card
  · exact hcard
  · have hbytes : wordBytes 4 cmdTypeRegister = [1, 0, 0, 0] := by decide
    have hlong := length_path_of_not_terminated hcard (wordBytes 4 cmdTypeRegister ++ behind)
    have hone : (cString (wordBytes 4 cmdTypeRegister ++ behind)).length = 1 := by
      rw [hbytes]
      simp [cString]
    have hshort : other.path.length ≤ nameMaxLen := by
      by_cases hother : Terminated other.card
      · exact (length_path_of_terminated hother _).le
      · exact (length_path_of_not_terminated hother [0, 0, 0, 0]).le
    rw [h, hlong, hone] at hshort
    omega

end BeLa.Paths
