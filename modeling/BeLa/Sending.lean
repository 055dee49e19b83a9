import BeLa.Framing

/-!
What the sending loop puts on the channel. After each partial write the in-place
array holds exactly the bytes not yet sent, so with enough answers the loop ends
successfully and has sent the header and the body, whatever the pieces.
-/
namespace BeLa.Sending

open LittleEndian PartialTransfer Framing

/-- The entries that `number` counts, as one byte string. -/
def pending (array : List Iovec) (number : ℕ) : Bytes := (array.take number).flatten

theorem skipSent_spec (l : List Iovec) (i offset : ℕ) (h : offset ≤ l.flatten.length) :
    ∃ k left, skipSent l i offset = (i + k, left) ∧ k ≤ l.length ∧
      l.flatten.drop offset = (l.drop k).flatten.drop left ∧
      ∀ v ∈ (l.drop k).head?, left < v.length := by
  induction l generalizing i offset with
  | nil => exact ⟨0, offset, rfl, le_refl _, rfl, by simp⟩
  | cons v rest ih =>
    simp only [List.flatten_cons, List.length_append] at h
    by_cases hv : v.length ≤ offset
    · obtain ⟨k, left, hskip, hk, hdrop, hhead⟩ := ih (i + 1) (offset - v.length) (by omega)
      refine ⟨k + 1, left, ?_, ?_, ?_, by simpa using hhead⟩
      · rw [skipSent, if_pos hv, hskip]
        congr 1
        omega
      · simpa using hk
      · rw [List.flatten_cons, List.drop_append, List.drop_of_length_le hv, List.nil_append, hdrop]
        rfl
    · refine ⟨0, offset, ?_, by simp, rfl, ?_⟩
      · rw [skipSent, if_neg hv]
        rfl
      · simp only [List.drop_zero, List.head?_cons, Option.mem_def, Option.some.injEq]
        rintro w rfl
        omega

/-- Shifting entries forward in place keeps them, because the write index never
passes the read index. -/
theorem iovecCopyLoop_spec (k : ℕ) (array : List Iovec) (index copyNumber : ℕ)
    (hle : copyNumber ≤ index) (hlen : index + k ≤ array.length) :
    (iovecCopyLoop k array index copyNumber).2 = copyNumber + k ∧
      (iovecCopyLoop k array index copyNumber).1.length = array.length ∧
      (iovecCopyLoop k array index copyNumber).1.take (copyNumber + k) =
        array.take copyNumber ++ (array.drop index).take k := by
  induction k generalizing array index copyNumber with
  | zero => simp [iovecCopyLoop]
  | succ k ih =>
    have hindex : index < array.length := by omega
    obtain ⟨hnum, hkept, htake⟩ :=
      ih (array.set copyNumber (array.getD index [])) (index + 1) (copyNumber + 1)
        (by omega) (by simp only [List.length_set]; omega)
    have hentry : array.getD index [] = array[index] := by
      simp [List.getD_eq_getElem?_getD, hindex]
    have hfront : (array.set copyNumber (array.getD index [])).take (copyNumber + 1) =
        array.take copyNumber ++ [array[index]] := by
      rw [List.take_succ_eq_append_getElem (by simp only [List.length_set]; omega),
        List.take_set_of_le (le_refl _), List.getElem_set_self, hentry]
    have hback : (array.set copyNumber (array.getD index [])).drop (index + 1) =
        array.drop (index + 1) := List.drop_set_of_lt (by omega)
    have hsum : copyNumber + (k + 1) = copyNumber + 1 + k := by omega
    refine ⟨?_, by simpa [iovecCopyLoop] using hkept, ?_⟩
    · rw [iovecCopyLoop, hnum, hsum]
    · rw [iovecCopyLoop, hsum, htake, hfront, hback, List.drop_eq_getElem_cons hindex,
        List.take_succ_cons, List.append_assoc]
      rfl

theorem iovecCopy_spec (array : List Iovec) (arrayLen index offset : ℕ)
    (hlen : arrayLen ≤ array.length)
    (hoffset : ∀ v ∈ ((array.take arrayLen).drop index).head?, offset < v.length) :
    (iovecCopy array arrayLen index offset).2 = arrayLen - index ∧
      (iovecCopy array arrayLen index offset).1.length = array.length ∧
      pending (iovecCopy array arrayLen index offset).1
          (iovecCopy array arrayLen index offset).2 =
        ((array.take arrayLen).drop index).flatten.drop offset := by
  by_cases hindex : index < arrayLen
  · have hlt : index < array.length := by omega
    have hentry : array.getD index [] = array[index] := by
      simp [List.getD_eq_getElem?_getD, hlt]
    have hrest : (array.take arrayLen).drop index =
        array[index] :: (array.drop (index + 1)).take (arrayLen - (index + 1)) := by
      rw [List.drop_take, List.drop_eq_getElem_cons hlt,
        show arrayLen - index = arrayLen - (index + 1) + 1 by omega, List.take_succ_cons]
    have htrim : offset < array[index].length := hoffset _ (by rw [hrest]; rfl)
    obtain ⟨hnum, hkept, htake⟩ :=
      iovecCopyLoop_spec (arrayLen - (index + 1)) (array.set 0 (array[index].drop offset))
        (index + 1) 1 (by omega) (by simp only [List.length_set]; omega)
    have hfront : (array.set 0 (array[index].drop offset)).take 1 =
        [array[index].drop offset] := by
      cases array with
      | nil => simp at hlt
      | cons v rest => simp
    rw [List.drop_set_of_lt (by omega), hfront] at htake
    rw [iovecCopy, if_pos hindex, hentry]
    refine ⟨by omega, by simpa using hkept, ?_⟩
    rw [pending, hnum, htake, hrest, List.flatten_cons, List.drop_append,
      show offset - array[index].length = 0 by omega]
    rfl
  · rw [iovecCopy, if_neg hindex]
    refine ⟨by omega, rfl, ?_⟩
    have hnone : (array.take arrayLen).drop index = [] := by
      apply List.drop_eq_nil_of_le
      simp only [List.length_take]
      omega
    simp [pending, hnone]

/-- The in-place update describes the unsent bytes and no others; it has no
entry left exactly when every byte has been sent. -/
theorem getNextSendIovec_spec (array : List Iovec) (arrayLen offset : ℕ)
    (hlen : arrayLen ≤ array.length) (hoffset : offset ≤ (pending array arrayLen).length) :
    (getNextSendIovec array arrayLen offset).1.length = array.length ∧
      (getNextSendIovec array arrayLen offset).2 ≤ arrayLen ∧
      pending (getNextSendIovec array arrayLen offset).1
          (getNextSendIovec array arrayLen offset).2 = (pending array arrayLen).drop offset ∧
      ((getNextSendIovec array arrayLen offset).2 = 0 ↔
        (pending array arrayLen).drop offset = []) := by
  have htake : (array.take arrayLen).length = arrayLen := by
    simp only [List.length_take]
    omega
  obtain ⟨k, left, hskip, hk, hdrop, hhead⟩ :=
    skipSent_spec (array.take arrayLen) 0 offset hoffset
  obtain ⟨hnum, hkept, hpending⟩ := iovecCopy_spec array arrayLen k left hlen hhead
  have hunfold : getNextSendIovec array arrayLen offset = iovecCopy array arrayLen k left := by
    simp only [getNextSendIovec, hskip, Nat.zero_add]
  have hbytes : (pending array arrayLen).drop offset =
      ((array.take arrayLen).drop k).flatten.drop left := hdrop
  rw [hunfold, hbytes]
  refine ⟨hkept, by omega, hpending, ?_⟩
  rw [hnum]
  constructor
  · intro hzero
    have hnone : (array.take arrayLen).drop k = [] := List.drop_eq_nil_of_le (by omega)
    simp [hnone]
  · intro hempty
    by_contra hne
    have hlt : k < (array.take arrayLen).length := by omega
    rw [List.drop_eq_getElem_cons hlt] at hhead hempty
    have hleft : left < ((array.take arrayLen)[k]).length := hhead _ rfl
    have hlength := congrArg List.length hempty
    simp only [List.flatten_cons, List.length_drop, List.length_append, List.length_nil] at hlength
    omega

/-- With an answer for every unsent byte the loop succeeds and sends all of them. -/
theorem sendLoop_enough (array : List Iovec) (number : ℕ) (sent : Bytes)
    {writes : List Answer} {m : ℕ}
    (hlen : number ≤ array.length) (hsome : number = 0 ∨ pending array number ≠ [])
    (hwrites : Enough writes ((pending array number).length + m)) :
    ∃ rest, sendLoop writes array number sent = some ⟨true, sent ++ pending array number, rest⟩ ∧
      Enough rest m := by
  induction writes generalizing array number sent with
  | nil =>
    cases number with
    | zero => exact ⟨[], by simp [sendLoop, pending], hwrites.mono (by omega)⟩
    | succ number =>
      have hpos : 0 < (pending array (number + 1)).length :=
        List.length_pos_iff.mpr (by simpa using hsome)
      exact absurd (hwrites.mono (by omega)) (Enough.not_nil (n := 0))
  | cons a writes ih =>
    cases number with
    | zero => exact ⟨a :: writes, by simp [sendLoop, pending], hwrites.mono (by omega)⟩
    | succ number =>
      have hpos : 0 < (pending array (number + 1)).length :=
        List.length_pos_iff.mpr (by simpa using hsome)
      cases a with
      | again => exact ih _ _ sent hlen hsome hwrites.tail_again
      | broken => exact absurd hwrites Enough.not_broken
      | moved n =>
        have hle := clip_le n (pending array (number + 1)).length
        have hclip := clip_pos n _ hpos
        simp only [sendLoop]
        change ∃ rest, sendLoop writes
            (getNextSendIovec array (number + 1) (clip n (pending array (number + 1)).length)).1
            (getNextSendIovec array (number + 1) (clip n (pending array (number + 1)).length)).2
            (sent ++ (pending array (number + 1)).take
              (clip n (pending array (number + 1)).length)) = _ ∧ _
        generalize clip n (pending array (number + 1)).length = ret at hle hclip
        obtain ⟨hkept, hnum, hleft, hzero⟩ :=
          getNextSendIovec_spec array (number + 1) ret hlen hle
        have hsplit : sent ++ pending array (number + 1) =
            sent ++ (pending array (number + 1)).take ret ++
              (pending array (number + 1)).drop ret := by
          rw [List.append_assoc, List.take_append_drop]
        rw [hsplit, ← hleft]
        have hwrites' : Enough (.moved n :: writes)
            ((pending array (number + 1)).length - 1 + m + 1) := hwrites.mono (by omega)
        refine ih _ _ _ (by omega) ?_ (hwrites'.tail_moved.mono ?_)
        · rw [hleft]
          exact or_iff_not_imp_right.mpr fun h => hzero.mpr (not_not.mp h)
        · rw [hleft, List.length_drop]
          omega

theorem pending_message (hdr : AccMsgHeader) (body : Bytes) :
    pending [hdr.bytes, body] 2 = hdr.bytes ++ body := by
  simp [pending]

theorem message_ne_nil (hdr : AccMsgHeader) (body : Bytes) : hdr.bytes ++ body ≠ [] := by
  intro h
  have hlength := congrArg List.length h
  simp [AccMsgHeader.size] at hlength

/-- A message is sent whole, whatever the pieces, and the answers it did not need remain. -/
theorem accUnixSendMessage_enough (hdr : AccMsgHeader) (body : Bytes) {writes : List Answer}
    {m : ℕ} (hwrites : Enough writes (AccMsgHeader.size + body.length + m)) :
    ∃ rest, accUnixSendMessage hdr body writes = some ⟨true, hdr.bytes ++ body, rest⟩ ∧
      Enough rest m := by
  have hpending := pending_message hdr body
  have hne := message_ne_nil hdr body
  have hcount : Enough writes ((pending [hdr.bytes, body] 2).length + m) := by
    rwa [hpending, List.length_append, AccMsgHeader.length_bytes]
  obtain ⟨rest, hloop, henough⟩ :=
    sendLoop_enough [hdr.bytes, body] 2 [] (le_refl 2) (Or.inr (by rwa [hpending])) hcount
  exact ⟨rest, by rw [accUnixSendMessage, hloop, hpending, List.nil_append], henough⟩

/-- The loop is a transfer of the pending bytes in which every success moves something. -/
theorem sendLoop_transfer {writes : List Answer} {array : List Iovec} {number : ℕ} {sent : Bytes}
    {s : Sent} (hlen : number ≤ array.length) (hsome : number = 0 ↔ pending array number = [])
    (h : sendLoop writes array number sent = some s) :
    transfer (writes.map Answer.atLeastOne) (pending array number) sent =
      (some s.success, s.bytes) := by
  induction writes generalizing array number sent with
  | nil =>
    cases number with
    | zero =>
      cases h
      rfl
    | succ number => cases h
  | cons a writes ih =>
    cases number with
    | zero =>
      cases h
      rw [hsome.mp rfl, transfer_nil]
    | succ number =>
      obtain ⟨x, xs, hpending⟩ :=
        List.exists_cons_of_ne_nil (mt hsome.mpr (Nat.succ_ne_zero number))
      cases a with
      | again =>
        have hloop := ih hlen hsome h
        rw [hpending] at hloop ⊢
        exact hloop
      | broken =>
        cases h
        rw [hpending]
        rfl
      | moved n =>
        have hle := clip_le n (pending array (number + 1)).length
        obtain ⟨hkept, hnumber, hleft, hzero⟩ := getNextSendIovec_spec array (number + 1)
          (clip n (pending array (number + 1)).length) hlen hle
        have hloop : sendLoop writes
            (getNextSendIovec array (number + 1) (clip n (pending array (number + 1)).length)).1
            (getNextSendIovec array (number + 1) (clip n (pending array (number + 1)).length)).2
            (sent ++ (pending array (number + 1)).take
              (clip n (pending array (number + 1)).length)) = some s := h
        have hnext := ih (by omega) (hzero.trans (by rw [hleft])) hloop
        have hclip : clip n (pending array (number + 1)).length =
            min (max 1 n) (pending array (number + 1)).length := rfl
        rw [hleft, hclip, ← List.drop_eq_drop_min, ← List.take_eq_take_min, hpending] at hnext
        rw [hpending]
        exact hnext

theorem accUnixSendMessage_transfer {hdr : AccMsgHeader} {body : Bytes} {writes : List Answer}
    {s : Sent} (h : accUnixSendMessage hdr body writes = some s) :
    transfer (writes.map Answer.atLeastOne) (hdr.bytes ++ body) [] = (some s.success, s.bytes) := by
  have hpending := pending_message hdr body
  have hsome : pending [hdr.bytes, body] 2 ≠ [] := hpending ▸ message_ne_nil hdr body
  have hloop := sendLoop_transfer (Nat.le_refl 2) (iff_of_false (Nat.succ_ne_zero 1) hsome) h
  rwa [hpending] at hloop

end BeLa.Sending
