import BeLa.Sending
import Mathlib.Logic.Function.Basic

/-!
The arrays of iovecs that a sender hands to `writev`, as entries in memory that
point to the bytes they describe. After a partial write the entries that are left
are copied to an output array, which may be the array they are read from: the
write index never passes the read index, so no entry is overwritten before it is
read.
-/
namespace BeLa.VectoredWrite

open LittleEndian PartialTransfer Framing Sending

/-- `struct iovec`. -/
structure IovecEntry where
  base : ℕ
  len : ℕ
  deriving DecidableEq, Repr

/-- The memory that holds arrays of iovecs, by the index of an entry. -/
abbrev Cells := ℕ → IovecEntry

def entries (cells : Cells) : ℕ → ℕ → List IovecEntry
  | _, 0 => []
  | array, n + 1 => cells array :: entries cells (array + 1) n

def bytesAt (memory : ℕ → Byte) : ℕ → ℕ → Bytes
  | _, 0 => []
  | base, n + 1 => memory base :: bytesAt memory (base + 1) n

def described (memory : ℕ → Byte) (vs : List IovecEntry) : Bytes :=
  vs.flatMap fun v => bytesAt memory v.base v.len

/-- An entry of the output array is written field by field. -/
def copyEntry (cells : Cells) (source target offset : ℕ) : Cells :=
  let cells := Function.update cells target
    { cells target with base := (cells source).base + offset }
  Function.update cells target { cells target with len := (cells source).len - offset }

/-- The loop of `_iovec_copy`, with the number of entries that are still to be copied. -/
def iovecCopyLoop (array remainArray : ℕ) : ℕ → ℕ → ℕ → Cells → Cells × ℕ
  | 0, _, copyNumber, cells => (cells, copyNumber)
  | k + 1, index, copyNumber, cells =>
    iovecCopyLoop array remainArray k (index + 1) (copyNumber + 1)
      (copyEntry cells (array + index) (remainArray + copyNumber) 0)

def iovecCopy (cells : Cells) (array arrayLen index offset remainArray : ℕ) : Cells × ℕ :=
  if index < arrayLen then
    iovecCopyLoop array remainArray (arrayLen - (index + 1)) (index + 1) 1
      (copyEntry cells (array + index) remainArray offset)
  else (cells, 0)

/-- The loop of `_get_next_send_iovec`, with the number of entries it has still to look at: the
index of the first entry that is not sent whole, and how many of its bytes are. -/
def skipSent (cells : Cells) (array : ℕ) : ℕ → ℕ → ℕ → ℕ × ℕ
  | 0, i, offset => (i, offset)
  | k + 1, i, offset =>
    if offset ≥ (cells (array + i)).len then
      skipSent cells array k (i + 1) (offset - (cells (array + i)).len)
    else (i, offset)

def getNextSendIovec (cells : Cells) (array arrayLen offset remainArray : ℕ) : Cells × ℕ :=
  let (i, offset) := skipSent cells array arrayLen 0 offset
  iovecCopy cells array arrayLen i offset remainArray

/-- The loop of `acc_unix_send_message`, as far as the results of `writev` go: the value it
returns, if it has returned, and what it has written so far. The array `message` is input and
output of each update. -/
def sendLoop (memory : ℕ → Byte) (message : ℕ) :
    List Answer → Cells → ℕ → Bytes → Option Bool × Bytes
  | _, _, 0, sent => (some true, sent)
  | [], _, _ + 1, sent => (none, sent)
  | .again :: writes, cells, number + 1, sent =>
    sendLoop memory message writes cells (number + 1) sent
  | .broken :: _, _, _ + 1, sent => (some false, sent)
  | .moved n :: writes, cells, number + 1, sent =>
    let offered := described memory (entries cells message (number + 1))
    let ret := min n offered.length
    let (cells, number) := getNextSendIovec cells message (number + 1) ret message
    sendLoop memory message writes cells number (sent ++ offered.take ret)

/-- `acc_unix_send_message` of the header and the body at two addresses. -/
def accUnixSendMessage (memory : ℕ → Byte) (hdr body bodyLen message : ℕ) (cells : Cells)
    (writes : List Answer) : Option Bool × Bytes :=
  let cells := Function.update cells message ⟨hdr, AccMsgHeader.size⟩
  let cells := Function.update cells (message + 1) ⟨body, bodyLen⟩
  sendLoop memory message writes cells 2 []

def resume : List IovecEntry → ℕ → List IovecEntry
  | [], _ => []
  | v :: vs, offset =>
    if v.len ≤ offset then resume vs (offset - v.len)
    else ⟨v.base + offset, v.len - offset⟩ :: vs

variable {cells : Cells} {memory : ℕ → Byte} {array arrayLen remainArray : ℕ}

@[simp] theorem length_entries (cells : Cells) (array n : ℕ) :
    (entries cells array n).length = n := by
  induction n generalizing array with
  | zero => rfl
  | succ n ih => rw [entries, List.length_cons, ih]

/-- Entries are read from the cells of their array only. -/
theorem entries_congr {cells' : Cells} {n : ℕ}
    (h : ∀ c, array ≤ c → c < array + n → cells c = cells' c) :
    entries cells array n = entries cells' array n := by
  induction n generalizing array with
  | zero => rfl
  | succ n ih =>
    rw [entries, entries, h array (Nat.le_refl _) (by omega)]
    rw [ih fun c hc hcn => h c (by omega) (by omega)]

@[simp] theorem length_bytesAt (memory : ℕ → Byte) (base n : ℕ) :
    (bytesAt memory base n).length = n := by
  induction n generalizing base with
  | zero => rfl
  | succ n ih => rw [bytesAt, List.length_cons, ih]

theorem drop_bytesAt (memory : ℕ → Byte) (base n offset : ℕ) :
    (bytesAt memory base n).drop offset = bytesAt memory (base + offset) (n - offset) := by
  induction offset generalizing base n with
  | zero => rfl
  | succ offset ih =>
    cases n with
    | zero => rw [Nat.zero_sub, bytesAt, List.drop_nil, bytesAt]
    | succ n =>
      rw [bytesAt, List.drop_succ_cons, ih, Nat.add_sub_add_right, Nat.add_assoc,
        Nat.add_comm 1]

@[simp] theorem described_nil : described memory [] = [] := rfl

@[simp] theorem described_cons (v : IovecEntry) (vs : List IovecEntry) :
    described memory (v :: vs) = bytesAt memory v.base v.len ++ described memory vs := rfl

theorem described_append (memory : ℕ → Byte) (vs ws : List IovecEntry) :
    described memory (vs ++ ws) = described memory vs ++ described memory ws :=
  List.flatMap_append

/-- What is left describes the bytes that are not sent yet. -/
theorem described_resume (vs : List IovecEntry) (offset : ℕ) :
    described memory (resume vs offset) = (described memory vs).drop offset := by
  induction vs generalizing offset with
  | nil => rw [resume, described_nil, List.drop_nil]
  | cons v vs ih =>
    rw [described_cons, List.drop_append, length_bytesAt]
    by_cases hv : v.len ≤ offset
    · have hgone : (bytesAt memory v.base v.len).drop offset = [] := by
        apply List.drop_of_length_le
        rwa [length_bytesAt]
      rw [resume, if_pos hv, ih, hgone, List.nil_append]
    · rw [resume, if_neg hv, described_cons, drop_bytesAt, show offset - v.len = 0 by omega,
        List.drop_zero]

theorem resume_eq_nil_iff_le (memory : ℕ → Byte) (vs : List IovecEntry) (offset : ℕ) :
    resume vs offset = [] ↔ (described memory vs).length ≤ offset := by
  induction vs generalizing offset with
  | nil => exact iff_of_true rfl (Nat.zero_le _)
  | cons v vs ih =>
    rw [described_cons, List.length_append, length_bytesAt, resume]
    by_cases hv : v.len ≤ offset
    · rw [if_pos hv, ih]
      omega
    · rw [if_neg hv]
      exact iff_of_false (List.cons_ne_nil _ _) (by omega)

theorem described_eq_nil {vs : List IovecEntry} (h : ∀ v ∈ vs, v.len = 0) :
    described memory vs = [] := by
  rw [described, List.flatMap_eq_nil_iff]
  intro v hv
  rw [h v hv, bytesAt]

/-- Nothing is left when the bytes of some first entries are sent and the others have none. -/
theorem resume_eq_nil_iff {vs : List IovecEntry} {offset : ℕ}
    (hoffset : offset ≤ (described memory vs).length) : resume vs offset = [] ↔
      ∃ k, (described memory (vs.take k)).length = offset ∧ ∀ v ∈ vs.drop k, v.len = 0 := by
  rw [resume_eq_nil_iff_le memory]
  constructor
  · intro hle
    refine ⟨vs.length, ?_, by simp⟩
    rw [List.take_length]
    omega
  · intro ⟨k, htake, hdrop⟩
    have hsplit := described_append memory (vs.take k) (vs.drop k)
    rw [List.take_append_drop, described_eq_nil hdrop, List.append_nil] at hsplit
    rw [hsplit, htake]

theorem copyEntry_eq (cells : Cells) (source target offset : ℕ) :
    copyEntry cells source target offset = Function.update cells target
      ⟨(cells source).base + offset, (cells source).len - offset⟩ := by
  have hlen : (Function.update cells target
      { cells target with base := (cells source).base + offset } source).len =
        (cells source).len := by
    by_cases hsource : source = target
    · rw [hsource, Function.update_self]
    · rw [Function.update_of_ne hsource]
  unfold copyEntry
  dsimp only
  rw [hlen, Function.update_self, Function.update_idem]

/-- Copying entries keeps them when no entry is overwritten that is still to be read: the output
array does not start behind the input, or it starts behind its end. -/
theorem iovecCopyLoop_spec (array remainArray k index copyNumber : ℕ) (cells : Cells)
    (hsafe : remainArray + copyNumber ≤ array + index ∨
      array + index + k ≤ remainArray + copyNumber) :
    (iovecCopyLoop array remainArray k index copyNumber cells).2 = copyNumber + k ∧
      entries (iovecCopyLoop array remainArray k index copyNumber cells).1
          (remainArray + copyNumber) k = entries cells (array + index) k ∧
      ∀ c, c < remainArray + copyNumber ∨ remainArray + copyNumber + k ≤ c →
        (iovecCopyLoop array remainArray k index copyNumber cells).1 c = cells c := by
  induction k generalizing index copyNumber cells with
  | zero => exact ⟨rfl, rfl, fun _ _ => rfl⟩
  | succ k ih =>
    have hcopy := copyEntry_eq cells (array + index) (remainArray + copyNumber) 0
    obtain ⟨hnumber, hentries, hframe⟩ := ih (index + 1) (copyNumber + 1)
      (copyEntry cells (array + index) (remainArray + copyNumber) 0) (by omega)
    rw [iovecCopyLoop]
    refine ⟨by omega, ?_, fun c hc => ?_⟩
    · have hrest : entries (copyEntry cells (array + index) (remainArray + copyNumber) 0)
          (array + (index + 1)) k = entries cells (array + index + 1) k := by
        apply entries_congr
        intro c hc hck
        rw [hcopy, Function.update_of_ne (by omega)]
      rw [entries, entries, ← hrest, ← hentries, hframe _ (by omega), hcopy,
        Function.update_self]
      rfl
    · rw [hframe c (by omega), hcopy, Function.update_of_ne (by omega)]

/-- The skipped entries are those that are sent whole. -/
theorem skipSent_spec (cells : Cells) (array k i offset : ℕ) : ∃ j left,
    skipSent cells array k i offset = (i + j, left) ∧
      (j = k ∧ resume (entries cells (array + i) k) offset = [] ∨
        j < k ∧ resume (entries cells (array + i) k) offset =
          ⟨(cells (array + (i + j))).base + left, (cells (array + (i + j))).len - left⟩ ::
            entries cells (array + (i + j + 1)) (k - (j + 1))) := by
  induction k generalizing i offset with
  | zero => exact ⟨0, offset, rfl, Or.inl ⟨rfl, rfl⟩⟩
  | succ k ih =>
    rw [skipSent, entries, resume]
    by_cases hskip : offset ≥ (cells (array + i)).len
    · obtain ⟨j, left, heq, hcase⟩ := ih (i + 1) (offset - (cells (array + i)).len)
      rw [if_pos hskip, if_pos hskip]
      refine ⟨j + 1, left, ?_, ?_⟩
      · rw [heq, Nat.add_assoc, Nat.add_comm 1]
      · rw [← Nat.add_assoc] at hcase
        rw [show i + (j + 1) = i + 1 + j by omega, Nat.add_sub_add_right]
        rcases hcase with ⟨hj, hnil⟩ | ⟨hj, hcons⟩
        · exact Or.inl ⟨by omega, hnil⟩
        · exact Or.inr ⟨by omega, hcons⟩
    · rw [if_neg hskip, if_neg hskip]
      exact ⟨0, offset, rfl, Or.inr ⟨Nat.succ_pos k, rfl⟩⟩

/-- The output array holds what is left, whether or not it is the input array, and no other
entry is written. -/
theorem getNextSendIovec_spec (cells : Cells) (offset : ℕ)
    (hsafe : remainArray ≤ array ∨ array + arrayLen ≤ remainArray) :
    entries (getNextSendIovec cells array arrayLen offset remainArray).1 remainArray
        (getNextSendIovec cells array arrayLen offset remainArray).2 =
      resume (entries cells array arrayLen) offset ∧
    ∀ c, c < remainArray ∨ remainArray + arrayLen ≤ c →
      (getNextSendIovec cells array arrayLen offset remainArray).1 c = cells c := by
  obtain ⟨j, left, hskip, hcase⟩ := skipSent_spec cells array arrayLen 0 offset
  rw [Nat.zero_add] at hskip
  rw [Nat.zero_add, Nat.add_zero] at hcase
  have hunfold : getNextSendIovec cells array arrayLen offset remainArray =
      iovecCopy cells array arrayLen j left remainArray := by
    unfold getNextSendIovec
    rw [hskip]
  rw [hunfold]
  rcases hcase with ⟨hj, hnil⟩ | ⟨hj, hcons⟩
  · rw [iovecCopy, if_neg (by omega), hnil]
    exact ⟨rfl, fun _ _ => rfl⟩
  · have hcopy := copyEntry_eq cells (array + j) remainArray left
    obtain ⟨hnumber, hentries, hframe⟩ := iovecCopyLoop_spec array remainArray
      (arrayLen - (j + 1)) (j + 1) 1 (copyEntry cells (array + j) remainArray left) (by omega)
    rw [iovecCopy, if_pos hj, hnumber, hcons]
    refine ⟨?_, fun c hc => ?_⟩
    · have hrest : entries (copyEntry cells (array + j) remainArray left) (array + (j + 1))
          (arrayLen - (j + 1)) = entries cells (array + (j + 1)) (arrayLen - (j + 1)) := by
        apply entries_congr
        intro c hc hcn
        rw [hcopy, Function.update_of_ne (by omega)]
      rw [Nat.add_comm 1, entries, hentries, hrest, hframe _ (by omega), hcopy,
        Function.update_self]
    · rw [hframe c (by omega), hcopy, Function.update_of_ne (by omega)]

/-- The number that is returned is 0 when nothing is left. -/
theorem number_eq_zero_iff (cells : Cells) (offset : ℕ)
    (hsafe : remainArray ≤ array ∨ array + arrayLen ≤ remainArray) :
    (getNextSendIovec cells array arrayLen offset remainArray).2 = 0 ↔
      resume (entries cells array arrayLen) offset = [] := by
  obtain ⟨hentries, -⟩ := getNextSendIovec_spec cells offset hsafe
  rw [← hentries, ← List.length_eq_zero_iff, length_entries]

/-- An update in place leaves the bytes that are not sent yet. -/
theorem described_next (memory : ℕ → Byte) (cells : Cells) (array arrayLen offset : ℕ) :
    described memory (entries (getNextSendIovec cells array arrayLen offset array).1 array
        (getNextSendIovec cells array arrayLen offset array).2) =
      (described memory (entries cells array arrayLen)).drop offset ∧
    ((getNextSendIovec cells array arrayLen offset array).2 = 0 ↔
      (described memory (entries cells array arrayLen)).drop offset = []) := by
  have hsafe : array ≤ array ∨ array + arrayLen ≤ array := Or.inl (Nat.le_refl array)
  obtain ⟨hentries, -⟩ := getNextSendIovec_spec cells offset hsafe
  rw [hentries, described_resume, number_eq_zero_iff cells offset hsafe,
    resume_eq_nil_iff_le memory, List.drop_eq_nil_iff]
  exact ⟨rfl, Iff.rfl⟩

/-- Each update leaves the bytes not yet written, so the loop is a transfer of the bytes that the
array describes. -/
theorem sendLoop_eq_transfer (message : ℕ) (writes : List Answer) (cells : Cells) (number : ℕ)
    (sent : Bytes)
    (hsome : number = 0 ↔ described memory (entries cells message number) = []) :
    sendLoop memory message writes cells number sent =
      transfer writes (described memory (entries cells message number)) sent := by
  induction writes generalizing cells number sent with
  | nil =>
    cases number with
    | zero => rfl
    | succ number =>
      obtain ⟨x, xs, hpending⟩ :=
        List.exists_cons_of_ne_nil (mt hsome.mpr (Nat.succ_ne_zero number))
      rw [hpending]
      rfl
  | cons a writes ih =>
    cases number with
    | zero => rw [sendLoop, entries, described_nil, transfer_nil]
    | succ number =>
      obtain ⟨x, xs, hpending⟩ :=
        List.exists_cons_of_ne_nil (mt hsome.mpr (Nat.succ_ne_zero number))
      cases a with
      | again =>
        have hloop := ih cells (number + 1) sent hsome
        rw [hpending] at hloop ⊢
        exact hloop
      | broken =>
        rw [hpending]
        rfl
      | moved n =>
        obtain ⟨hleft, hzero⟩ := described_next memory cells message (number + 1)
          (min n (described memory (entries cells message (number + 1))).length)
        have hnext := ih _ _ (sent ++ (described memory (entries cells message (number + 1))).take
          (min n (described memory (entries cells message (number + 1))).length))
          (hzero.trans (by rw [hleft]))
        rw [hleft, ← List.take_eq_take_min, ← List.drop_eq_drop_min] at hnext
        refine Eq.trans ?_ (hnext.trans ?_)
        · rw [sendLoop, ← List.take_eq_take_min]
        · rw [hpending]
          rfl

/-- A message is sent as a transfer of its header and its body. -/
theorem accUnixSendMessage_eq_transfer (memory : ℕ → Byte) (hdr body bodyLen message : ℕ)
    (cells : Cells) (writes : List Answer) :
    accUnixSendMessage memory hdr body bodyLen message cells writes =
      transfer writes (bytesAt memory hdr AccMsgHeader.size ++ bytesAt memory body bodyLen) [] := by
  have hentries : described memory (entries (Function.update (Function.update cells message
      ⟨hdr, AccMsgHeader.size⟩) (message + 1) ⟨body, bodyLen⟩) message 2) =
        bytesAt memory hdr AccMsgHeader.size ++ bytesAt memory body bodyLen := by
    rw [entries, entries, entries, Function.update_self, Function.update_of_ne (by omega),
      Function.update_self, described_cons, described_cons, described_nil, List.append_nil]
  unfold accUnixSendMessage
  dsimp only
  rw [sendLoop_eq_transfer, hentries]
  rw [hentries]
  exact iff_of_false (by omega) fun h => by cases h

/-- What an update of the array in place is to do. It leaves the same entries as one with another
output array; they describe the bytes behind the offset, and there are none of them just when the
offset is the end of some entry and no entry behind it has bytes. -/
def Resumes (memory : ℕ → Byte) (cells : Cells) (array arrayLen offset remainArray : ℕ) : Prop :=
  let inPlace := getNextSendIovec cells array arrayLen offset array
  let apart := getNextSendIovec cells array arrayLen offset remainArray
  entries inPlace.1 array inPlace.2 = entries apart.1 remainArray apart.2 ∧
    described memory (entries inPlace.1 array inPlace.2) =
      (described memory (entries cells array arrayLen)).drop offset ∧
    (inPlace.2 = 0 ↔
      ∃ k, (described memory ((entries cells array arrayLen).take k)).length = offset ∧
        ∀ v ∈ (entries cells array arrayLen).drop k, v.len = 0)

theorem resumes (memory : ℕ → Byte) (cells : Cells) {array arrayLen offset remainArray : ℕ}
    (hoffset : offset ≤ (described memory (entries cells array arrayLen)).length)
    (hapart : remainArray + arrayLen ≤ array ∨ array + arrayLen ≤ remainArray) :
    Resumes memory cells array arrayLen offset remainArray := by
  have hsafe : array ≤ array ∨ array + arrayLen ≤ array := Or.inl (Nat.le_refl array)
  obtain ⟨hentries, -⟩ := getNextSendIovec_spec cells offset hsafe
  have hsafe' : remainArray ≤ array ∨ array + arrayLen ≤ remainArray := by omega
  obtain ⟨hentries', -⟩ := getNextSendIovec_spec cells offset hsafe'
  refine ⟨hentries.trans hentries'.symm, (described_next memory cells array arrayLen offset).1, ?_⟩
  rw [number_eq_zero_iff cells offset hsafe, resume_eq_nil_iff hoffset]

/-- A partial write is resumed in place as with another array, for every array of entries; so
whatever `writev` answers, the bytes written and the result are those of one transfer of the
message. It is written from its front, and is sent successfully just when all of it was written. -/
theorem partial_writes_resume :
    (∀ (memory : ℕ → Byte) (cells : Cells) (array arrayLen offset remainArray : ℕ),
      offset ≤ (described memory (entries cells array arrayLen)).length →
      remainArray + arrayLen ≤ array ∨ array + arrayLen ≤ remainArray →
      Resumes memory cells array arrayLen offset remainArray) ∧
    ∀ (memory : ℕ → Byte) (hdr body bodyLen message : ℕ) (cells : Cells) (writes : List Answer),
      accUnixSendMessage memory hdr body bodyLen message cells writes =
          transfer writes
            (bytesAt memory hdr AccMsgHeader.size ++ bytesAt memory body bodyLen) [] ∧
        (accUnixSendMessage memory hdr body bodyLen message cells writes).2 <+:
          bytesAt memory hdr AccMsgHeader.size ++ bytesAt memory body bodyLen ∧
        ((accUnixSendMessage memory hdr body bodyLen message cells writes).1 = some true ↔
          (accUnixSendMessage memory hdr body bodyLen message cells writes).2 =
            bytesAt memory hdr AccMsgHeader.size ++ bytesAt memory body bodyLen) := by
  refine ⟨fun memory cells array arrayLen offset remainArray => resumes memory cells, ?_⟩
  intro memory hdr body bodyLen message cells writes
  rw [accUnixSendMessage_eq_transfer]
  exact ⟨rfl, transfer_spec writes _ []⟩

/-- Resuming behind the first of two entries with bytes, into the array behind them. -/
theorem partial_writes_resume_entry_end :
    Resumes (fun _ => 0) (fun i => ⟨2 * i, i⟩) 0 3 1 3 :=
  partial_writes_resume.1 _ _ _ _ _ _ (by decide) (by omega)

/-- A message over byte strings is sent as one over entries that describe the same bytes. -/
theorem framing_send {h : AccMsgHeader} {b : Bytes} {writes : List Answer} {s : Sent}
    {hdr body : ℕ} (hhdr : bytesAt memory hdr AccMsgHeader.size = h.bytes)
    (hbody : bytesAt memory body b.length = b)
    (hsend : Framing.accUnixSendMessage h b writes = some s) (message : ℕ) (cells : Cells) :
    accUnixSendMessage memory hdr body b.length message cells
      (writes.map Answer.atLeastOne) = (some s.success, s.bytes) := by
  rw [accUnixSendMessage_eq_transfer, hhdr, hbody]
  exact accUnixSendMessage_transfer hsend

end BeLa.VectoredWrite
