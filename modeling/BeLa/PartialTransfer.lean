import Mathlib.Data.List.Basic
import Mathlib.Data.List.Range
import Mathlib.Tactic.Linarith

/-!
Byte transfers in pieces. A call on a channel moves some of the bytes on offer,
asks to be repeated, or fails for good. A finite script of such answers is enough
for a transfer when it is unbroken and has one success for each byte, because
every success moves at least one. Any unbroken endless sequence in which repeats
come only finitely often in a row has enough prefixes for every transfer.
-/
namespace BeLa.PartialTransfer

inductive Answer
  | moved (n : ℕ)
  | again
  | broken
  deriving DecidableEq, Repr

/-- A success moves at least one and at most all of the bytes on offer. -/
def clip (n offered : ℕ) : ℕ := min (max 1 n) offered

def successes : List Answer → ℕ
  | [] => 0
  | .moved _ :: rest => successes rest + 1
  | _ :: rest => successes rest

structure Enough (answers : List Answer) (n : ℕ) : Prop where
  unbroken : Answer.broken ∉ answers
  count : n ≤ successes answers

theorem clip_le (n offered : ℕ) : clip n offered ≤ offered := min_le_right _ _

theorem clip_pos (n offered : ℕ) (h : 0 < offered) : 0 < clip n offered := by
  unfold clip
  omega

theorem clip_zero (n : ℕ) : clip n 0 = 0 := by
  simp [clip]

namespace Enough

theorem mono {answers : List Answer} {m n : ℕ} (h : Enough answers n) (hmn : m ≤ n) :
    Enough answers m :=
  ⟨h.unbroken, le_trans hmn h.count⟩

theorem tail_again {answers : List Answer} {n : ℕ} (h : Enough (.again :: answers) n) :
    Enough answers n :=
  ⟨fun hb => h.unbroken (List.mem_cons_of_mem _ hb), h.count⟩

/-- A success is spent on at least one byte. -/
theorem tail_moved {answers : List Answer} {k n : ℕ} (h : Enough (.moved k :: answers) (n + 1)) :
    Enough answers n :=
  ⟨fun hb => h.unbroken (List.mem_cons_of_mem _ hb), Nat.le_of_succ_le_succ h.count⟩

theorem not_broken {answers : List Answer} {n : ℕ} : ¬ Enough (.broken :: answers) n :=
  fun h => h.unbroken List.mem_cons_self

theorem not_nil {n : ℕ} : ¬ Enough [] (n + 1) :=
  fun h => Nat.not_succ_le_zero n h.count

end Enough

def Answer.atLeastOne : Answer → Answer
  | .moved n => .moved (max 1 n)
  | .again => .again
  | .broken => .broken

/-- A transfer as far as its answers go: how it has ended, if it has, and what has been moved. A
success may also move nothing. -/
def transfer {α : Type*} : List Answer → List α → List α → Option Bool × List α
  | _, [], done => (some true, done)
  | [], _ :: _, done => (none, done)
  | .again :: answers, x :: xs, done => transfer answers (x :: xs) done
  | .broken :: _, _ :: _, done => (some false, done)
  | .moved n :: answers, x :: xs, done =>
    transfer answers ((x :: xs).drop n) (done ++ (x :: xs).take n)

@[simp] theorem transfer_nil {α : Type*} (answers : List Answer) (done : List α) :
    transfer answers [] done = (some true, done) := by
  cases answers <;> rfl

/-- Whatever the answers, what has been moved stands at the front of what was to be moved, and
only a transfer of all of it succeeds. -/
theorem transfer_spec {α : Type*} (answers : List Answer) (pending done : List α) :
    (transfer answers pending done).2 <+: done ++ pending ∧
      ((transfer answers pending done).1 = some true ↔
        (transfer answers pending done).2 = done ++ pending) := by
  have hmore : ∀ (done xs : List α) (x : α), done ≠ done ++ x :: xs := by
    intro done xs x h
    have hlength := congrArg List.length h
    rw [List.length_append, List.length_cons] at hlength
    omega
  induction answers generalizing pending done with
  | nil =>
    cases pending with
    | nil => simp
    | cons x xs =>
      exact ⟨List.prefix_append _ _, iff_of_false (fun h => by cases h) (hmore done xs x)⟩
  | cons a answers ih =>
    cases pending with
    | nil => simp
    | cons x xs =>
      cases a with
      | again => exact ih (x :: xs) done
      | broken =>
        exact ⟨List.prefix_append _ _, iff_of_false (fun h => by cases h) (hmore done xs x)⟩
      | moved n =>
        have hrest := ih ((x :: xs).drop n) (done ++ (x :: xs).take n)
        rw [List.append_assoc, List.take_append_drop] at hrest
        exact hrest

/-- A transfer does not look at what it moves. -/
theorem transfer_map {α β : Type*} (f : α → β) (answers : List Answer) (pending done : List α) :
    transfer answers (pending.map f) (done.map f) =
      ((transfer answers pending done).1, (transfer answers pending done).2.map f) := by
  induction answers generalizing pending done with
  | nil => cases pending <;> rfl
  | cons a answers ih =>
    cases pending with
    | nil => simp
    | cons x xs =>
      cases a with
      | again => exact ih (x :: xs) done
      | broken => rfl
      | moved n =>
        have hrest := ih ((x :: xs).drop n) (done ++ (x :: xs).take n)
        rw [List.map_append, List.map_drop, List.map_take] at hrest
        exact hrest

/-- Answers that bring a transfer of `n` bytes to an end, be it by a failure. -/
def Ends (answers : List Answer) (n : ℕ) : Prop := .broken ∈ answers ∨ n ≤ successes answers

/-- An endless sequence of answers that never breaks and never stops succeeding. -/
structure Fair (answers : ℕ → Answer) : Prop where
  unbroken : ∀ i, answers i ≠ .broken
  succeeds : ∀ i, ∃ j, i ≤ j ∧ ∃ n, answers j = .moved n

def interrupted (n i : ℕ) : Answer := if i % 2 = 0 then .again else .moved n

theorem fair_interrupted (n : ℕ) : Fair (interrupted n) where
  unbroken i := by
    unfold interrupted
    split <;> simp
  succeeds i := ⟨2 * i + 1, by omega, n, if_neg (by omega)⟩

def script (answers : ℕ → Answer) (n : ℕ) : List Answer := (List.range n).map answers

theorem successes_append (as bs : List Answer) :
    successes (as ++ bs) = successes as + successes bs := by
  induction as with
  | nil => simp [successes]
  | cons a as ih =>
    cases a with
    | moved n =>
      simp only [List.cons_append, successes, ih]
      omega
    | again => simpa only [List.cons_append, successes] using ih
    | broken => simpa only [List.cons_append, successes] using ih

/-- As many successes as bytes are enough. -/
theorem enough_replicate (n k : ℕ) : Enough (List.replicate n (.moved k)) n := by
  refine ⟨by simp [List.mem_replicate], Nat.le_of_eq ?_⟩
  induction n with
  | zero => rfl
  | succ n ih => rw [List.replicate_succ, successes, ← ih]

theorem successes_script_succ (answers : ℕ → Answer) (n : ℕ) :
    successes (script answers (n + 1)) =
      successes (script answers n) + successes [answers n] := by
  simp [script, List.range_succ, successes_append]

theorem successes_script_mono (answers : ℕ → Answer) {m n : ℕ} (h : m ≤ n) :
    successes (script answers m) ≤ successes (script answers n) := by
  induction n, h using Nat.le_induction with
  | base => exact le_refl _
  | succ n hmn ih =>
    rw [successes_script_succ]
    omega

/-- From some length on every script of a fair sequence is enough. -/
theorem Fair.exists_enough {answers : ℕ → Answer} (h : Fair answers) (n : ℕ) :
    ∃ N, ∀ k, N ≤ k → Enough (script answers k) n := by
  have hunbroken : ∀ k, Answer.broken ∉ script answers k := by
    intro k hb
    obtain ⟨i, _, hi⟩ := List.mem_map.mp hb
    exact h.unbroken i hi
  induction n with
  | zero => exact ⟨0, fun k _ => ⟨hunbroken k, Nat.zero_le _⟩⟩
  | succ n ih =>
    obtain ⟨N, hN⟩ := ih
    obtain ⟨j, hj, m, hm⟩ := h.succeeds N
    refine ⟨j + 1, fun k hk => ⟨hunbroken k, ?_⟩⟩
    have hbefore : n ≤ successes (script answers j) := (hN j hj).count
    calc
      n + 1 ≤ successes (script answers j) + successes [answers j] := by
        rw [hm]
        simp only [successes]
        omega
      _ = successes (script answers (j + 1)) := (successes_script_succ answers j).symm
      _ ≤ successes (script answers k) := successes_script_mono answers hk

end BeLa.PartialTransfer
