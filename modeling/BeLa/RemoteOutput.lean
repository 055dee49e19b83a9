import BeLa.Execute
import BeLa.Stops

/-!
Draining the output of a remote command. Both read loops of `ssh_remote_exec`
keep the result of a read in an unsigned count and store a terminator behind the
data. A read that fills the buffer, and a failed one, send that store outside the
buffer; results below the size of the buffer are drained up to the first empty read.
-/
namespace BeLa.RemoteOutput

open Stops Execute

def bufferSize : ℕ := 1024

/-- The results of `ssh_channel_read` on one stream, read after read: an `int`, at most the
requested size, and one that is not positive is repeated from then on. -/
structure Stream where
  read : ℕ → ℤ
  isInt : ∀ i, -2 ^ 31 ≤ read i
  atMost : ∀ i, read i ≤ bufferSize
  settled : ∀ i, read i ≤ 0 → read (i + 1) = read i

/-- The `unsigned int` that keeps a result. -/
def nbytes (result : ℤ) : BitVec 32 := BitVec.ofInt 32 result

/-- A read loop from read `i` on: it returns the read that ends it, and is still waiting
when the fuel for its tests is used up. -/
def readLoop (stream : Stream) : ℕ → ℕ → Except Stop ℕ
  | 0, _ => .error .waiting
  | fuel + 1, i =>
    if 0 < nbytes (stream.read i) then
      -- buffer[nbytes]='\0'
      if (nbytes (stream.read i)).toNat < bufferSize then readLoop stream fuel (i + 1)
      else .error .outOfBounds
    else .ok i

def readStreams (out err : Stream) (fuel : ℕ) : Except Stop (ℕ × ℕ) := do
  let i ← readLoop out fuel 0
  let j ← readLoop err fuel 0
  return (i, j)

/-- `ssh_remote_exec` with its read loops. -/
def sshRemoteExecReading (run : SshRun) (out err : Stream) (fuel : ℕ) : Except Stop ℤ :=
  if sshRemoteExec run = 0 then do
    let _ ← readStreams out err fuel
    return 0
  else return -1

def FirstEnd (stream : Stream) (k : ℕ) : Prop :=
  stream.read k ≤ 0 ∧ ∀ i < k, 0 < stream.read i

def Ends (stream : Stream) : Prop := ∃ k, stream.read k ≤ 0

def Calm (stream : Stream) : Prop := ∀ i, 0 ≤ stream.read i ∧ stream.read i < bufferSize

theorem exists_firstEnd {stream : Stream} (h : Ends stream) : ∃ k, FirstEnd stream k := by
  classical
  refine ⟨Nat.find h, Nat.find_spec h, fun i hi => ?_⟩
  have hmin := Nat.find_min h hi
  omega

theorem read_settled {stream : Stream} {i : ℕ} (h : stream.read i ≤ 0) (n : ℕ) :
    stream.read (i + n) = stream.read i := by
  induction n with
  | zero => rfl
  | succ n ih => rw [← Nat.add_assoc, stream.settled _ (ih ▸ h), ih]

/-- What the unsigned count makes of a result: a negative one becomes a large one. -/
theorem toNat_nbytes (stream : Stream) (i : ℕ) :
    ((nbytes (stream.read i)).toNat : ℤ) =
      if 0 ≤ stream.read i then stream.read i else stream.read i + 2 ^ 32 := by
  have hint := stream.isInt i
  have hmost := stream.atMost i
  simp only [bufferSize] at hmost
  rw [nbytes, BitVec.toNat_ofInt]
  split <;> omega

theorem nbytes_pos (stream : Stream) (i : ℕ) :
    0 < nbytes (stream.read i) ↔ stream.read i ≠ 0 := by
  have hcount := toNat_nbytes stream i
  have hint := stream.isInt i
  have hzero : (0 : BitVec 32).toNat = 0 := rfl
  rw [BitVec.lt_def, hzero]
  split at hcount <;> omega

/-! One read. -/

theorem readLoop_empty {stream : Stream} {i : ℕ} (h : stream.read i = 0) (fuel : ℕ) :
    readLoop stream (fuel + 1) i = .ok i := by
  rw [readLoop, if_neg]
  rw [nbytes_pos]
  exact fun hne => hne h

theorem readLoop_data {stream : Stream} {i : ℕ} (hpos : 0 < stream.read i)
    (hlt : stream.read i < bufferSize) (fuel : ℕ) :
    readLoop stream (fuel + 1) i = readLoop stream fuel (i + 1) := by
  have hcount := toNat_nbytes stream i
  rw [if_pos (by omega)] at hcount
  rw [readLoop, if_pos ((nbytes_pos stream i).mpr (by omega)), if_pos (by omega)]

theorem readLoop_bad {stream : Stream} {i : ℕ}
    (h : ¬ (0 ≤ stream.read i ∧ stream.read i < bufferSize)) (fuel : ℕ) :
    readLoop stream (fuel + 1) i = .error .outOfBounds := by
  have hcount := toNat_nbytes stream i
  have hint := stream.isInt i
  have hsize : bufferSize = 1024 := rfl
  rw [readLoop, if_pos ((nbytes_pos stream i).mpr (by omega)), if_neg]
  split at hcount <;> omega

/-! Whole loops. -/

/-- Reads that bring data are passed one by one. -/
theorem readLoop_skip {stream : Stream} {k i : ℕ}
    (h : ∀ j < k, 0 < stream.read (i + j) ∧ stream.read (i + j) < bufferSize) (fuel : ℕ) :
    readLoop stream (fuel + k) i = readLoop stream fuel (i + k) := by
  induction k generalizing i with
  | zero => rfl
  | succ k ih =>
    have hfirst : 0 < stream.read i ∧ stream.read i < bufferSize := h 0 (Nat.succ_pos k)
    have hrest : ∀ j < k, 0 < stream.read (i + 1 + j) ∧
        stream.read (i + 1 + j) < bufferSize := by
      intro j hj
      have hnext := h (j + 1) (by omega)
      rwa [Nat.add_comm j, ← Nat.add_assoc] at hnext
    rw [← Nat.add_assoc, readLoop_data hfirst.1 hfirst.2, ih hrest, Nat.add_assoc,
      Nat.add_comm 1 k]

theorem readLoop_skip_zero {stream : Stream} {k fuel : ℕ} (hk : k < fuel)
    (h : ∀ j < k, 0 < stream.read j ∧ stream.read j < bufferSize) :
    readLoop stream fuel 0 = readLoop stream (fuel - k - 1 + 1) k := by
  have hskip := readLoop_skip (i := 0) (k := k) (by simpa using h) (fuel - k - 1 + 1)
  have hfuel : fuel - k - 1 + 1 + k = fuel := by omega
  rwa [hfuel, Nat.zero_add] at hskip

/-- A calm stream is drained to the first read that is not positive. -/
theorem readLoop_of_calm {stream : Stream} (hcalm : Calm stream) {k fuel : ℕ}
    (hk : FirstEnd stream k) (hfuel : k < fuel) : readLoop stream fuel 0 = .ok k := by
  rw [readLoop_skip_zero hfuel fun j hj => ⟨hk.2 j hj, (hcalm j).2⟩]
  apply readLoop_empty
  have hend := hk.1
  have hnonneg := (hcalm k).1
  omega

theorem readLoop_inside {stream : Stream} (hcalm : Calm stream) (fuel i : ℕ) :
    readLoop stream fuel i ≠ .error .outOfBounds := by
  induction fuel generalizing i with
  | zero => simp [readLoop]
  | succ fuel ih =>
    by_cases hzero : stream.read i = 0
    · simp [readLoop_empty hzero]
    · have hi := hcalm i
      rw [readLoop_data (by omega) hi.2]
      exact ih (i + 1)

theorem ends_of_readLoop {stream : Stream} {fuel i k : ℕ}
    (h : readLoop stream fuel i = .ok k) : Ends stream := by
  induction fuel generalizing i with
  | zero => cases h
  | succ fuel ih =>
    by_cases hzero : stream.read i = 0
    · exact ⟨i, by omega⟩
    · rw [readLoop] at h
      split at h
      · split at h
        · exact ih h
        · cases h
      · rename_i hcount
        exact absurd ((nbytes_pos stream i).mpr hzero) hcount

/-- The first read that is not calm is reached, and the store behind it is outside. -/
theorem exists_outOfBounds {stream : Stream} (h : ¬ Calm stream) :
    ∃ k, ∀ fuel, k < fuel → readLoop stream fuel 0 = .error .outOfBounds := by
  classical
  have hbad : ∃ k, ¬ (0 ≤ stream.read k ∧ stream.read k < bufferSize) := by
    simpa only [Calm, not_forall] using h
  refine ⟨Nat.find hbad, fun fuel hfuel => ?_⟩
  have hbefore : ∀ j < Nat.find hbad, 0 < stream.read j ∧ stream.read j < bufferSize := by
    intro j hj
    have hj' := not_not.mp (Nat.find_min hbad hj)
    refine ⟨?_, hj'.2⟩
    by_contra hle
    -- an empty read would be repeated, so that no later one could be bad
    have hsame := read_settled (Int.not_lt.mp hle) (Nat.find hbad - j)
    rw [Nat.add_sub_cancel' (Nat.le_of_lt hj)] at hsame
    exact Nat.find_spec hbad (hsame ▸ hj')
  rw [readLoop_skip_zero hfuel hbefore, readLoop_bad (Nat.find_spec hbad)]

/-! Both loops. -/

/-- No store is outside the buffer, and each loop ends at the first result that is not
positive. -/
structure Drained (out err : Stream) : Prop where
  inside : ∀ fuel, readStreams out err fuel ≠ .error .outOfBounds
  outEnds : ∀ k, FirstEnd out k → ∀ fuel, k < fuel → readLoop out fuel 0 = .ok k
  errEnds : ∀ k l, FirstEnd out k → FirstEnd err l →
    ∀ fuel, k < fuel → l < fuel → readStreams out err fuel = .ok (k, l)

theorem readStreams_ok {out err : Stream} {fuel k : ℕ} (h : readLoop out fuel 0 = .ok k) :
    readStreams out err fuel = (readLoop err fuel 0).map fun l => (k, l) := by
  rw [readStreams, h]
  cases readLoop err fuel 0 <;> rfl

theorem readStreams_error {out err : Stream} {fuel : ℕ} {stop : Stop}
    (h : readLoop out fuel 0 = .error stop) : readStreams out err fuel = .error stop := by
  rw [readStreams, h]
  rfl

theorem drained_of_calm {out err : Stream} (hout : Calm out) (herr : Ends out → Calm err) :
    Drained out err := by
  refine ⟨fun fuel hstop => ?_, fun k hk fuel => readLoop_of_calm hout hk, ?_⟩
  · cases hfirst : readLoop out fuel 0 with
    | error stop =>
      rw [readStreams_error hfirst] at hstop
      cases hstop
      exact readLoop_inside hout fuel 0 hfirst
    | ok k =>
      have hcalm := herr (ends_of_readLoop hfirst)
      rw [readStreams_ok hfirst] at hstop
      cases hsecond : readLoop err fuel 0 with
      | error stop =>
        rw [hsecond] at hstop
        cases hstop
        exact readLoop_inside hcalm fuel 0 hsecond
      | ok l =>
        rw [hsecond] at hstop
        cases hstop
  · intro k l hk hl fuel hkf hlf
    rw [readStreams_ok (readLoop_of_calm hout hk hkf),
      readLoop_of_calm (herr ⟨k, hk.1⟩) hl hlf]
    rfl

/-- The loops drain exactly the calm streams; the second is reached where the first ends. -/
theorem drained_iff_calm (out err : Stream) :
    Drained out err ↔ Calm out ∧ (Ends out → Calm err) := by
  constructor
  · intro h
    have hout : Calm out := by
      by_contra hbad
      obtain ⟨k, hk⟩ := exists_outOfBounds hbad
      exact h.inside (k + 1) (readStreams_error (hk (k + 1) (Nat.lt_succ_self k)))
    refine ⟨hout, fun hends => ?_⟩
    obtain ⟨k, hk⟩ := exists_firstEnd hends
    by_contra hbad
    obtain ⟨l, hl⟩ := exists_outOfBounds hbad
    apply h.inside (k + l + 1)
    rw [readStreams_ok (readLoop_of_calm hout hk (by omega)), hl _ (by omega)]
    rfl
  · intro h
    exact drained_of_calm h.1 h.2

def fullRead : Stream where
  read i := if i = 0 then bufferSize else 0
  isInt i := by split <;> simp
  atMost i := by split <;> simp
  settled i := by cases i <;> simp [bufferSize]

/-- The terminator behind a full read is stored at the index one past the buffer. -/
theorem full_read_outside : ¬ ∀ out err : Stream, Drained out err := by
  intro hall
  apply (hall fullRead fullRead).inside 1
  exact readStreams_error rfl

theorem sshRemoteExec_fail {run : SshRun} (h : sshRemoteExec run ≠ 0) :
    sshRemoteExec run = -1 := by
  unfold sshRemoteExec at h ⊢
  split_ifs at h ⊢ <;> first | rfl | exact absurd rfl h

/-- Over calm streams that end, the read loops leave the result of the steps before them. -/
theorem sshRemoteExecReading_of_calm (run : SshRun) {out err : Stream} (hout : Calm out)
    (herr : Calm err) (hends : Ends out) (hends' : Ends err) :
    ∃ n, ∀ fuel, n < fuel →
      sshRemoteExecReading run out err fuel = .ok (sshRemoteExec run) := by
  obtain ⟨k, hk⟩ := exists_firstEnd hends
  obtain ⟨l, hl⟩ := exists_firstEnd hends'
  refine ⟨k + l, fun fuel hfuel => ?_⟩
  have hdrained := drained_of_calm hout fun _ => herr
  rw [sshRemoteExecReading, hdrained.errEnds k l hk hl fuel (by omega) (by omega)]
  by_cases hrun : sshRemoteExec run = 0
  · rw [if_pos hrun, hrun]
    rfl
  · rw [if_neg hrun, sshRemoteExec_fail hrun]
    rfl

end BeLa.RemoteOutput
