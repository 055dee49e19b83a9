import Mathlib.Data.List.Basic
import Mathlib.Data.List.Count
import Mathlib.Tactic.Basic

/-!
Logs of objects that plugins make and release while owners hold them in a field.
A log is paired when no field is written over an object that its plugin has not
released exactly once. A paired log in which every object that was made is held
and not released, or is released and not held, stays so when an owner without an
object gets a new one and when a held object is released before the field is
cleared; clearing the field alone breaks the pairing for good.
-/
namespace BeLa.Pairing

inductive Entry (κ π ο : Type*)
  | made (owner : κ) (plugin : π) (object : ο)
  | released (owner : κ) (plugin : π) (object : ο)
  | wrote (owner : κ) (field : Option ο)
  deriving DecidableEq

variable {κ π ο : Type*} [DecidableEq κ]

def fieldOf (log : List (Entry κ π ο)) (owner : κ) : Option ο :=
  log.foldl (fun held entry =>
    match entry with
    | .wrote writer field => if writer = owner then field else held
    | _ => held) none

@[simp] theorem fieldOf_nil (owner : κ) : fieldOf ([] : List (Entry κ π ο)) owner = none := rfl

@[simp] theorem fieldOf_made (log : List (Entry κ π ο)) (maker : κ) (plugin : π) (object : ο)
    (owner : κ) : fieldOf (log ++ [.made maker plugin object]) owner = fieldOf log owner := by
  simp [fieldOf]

@[simp] theorem fieldOf_released (log : List (Entry κ π ο)) (releaser : κ) (plugin : π) (object : ο)
    (owner : κ) :
    fieldOf (log ++ [.released releaser plugin object]) owner = fieldOf log owner := by
  simp [fieldOf]

@[simp] theorem fieldOf_wrote (log : List (Entry κ π ο)) (writer : κ) (field : Option ο)
    (owner : κ) :
    fieldOf (log ++ [.wrote writer field]) owner =
      if writer = owner then field else fieldOf log owner := by
  simp [fieldOf]

variable {log log' : List (Entry κ π ο)} {owner : κ} {plugin : π} {object : ο}

def acquire (owner : κ) (plugin : π) (object : ο) : List (Entry κ π ο) :=
  [.made owner plugin object, .wrote owner (some object)]

def giveUp (owner : κ) (plugin : π) (object : ο) : List (Entry κ π ο) :=
  [.released owner plugin object, .wrote owner none]

theorem fieldOf_acquire (other : κ) : fieldOf (log ++ acquire owner plugin object) other =
    if owner = other then some object else fieldOf log other := by
  rw [acquire, ← List.singleton_append, ← List.append_assoc, fieldOf_wrote, fieldOf_made]

theorem fieldOf_giveUp (other : κ) : fieldOf (log ++ giveUp owner plugin object) other =
    if owner = other then none else fieldOf log other := by
  rw [giveUp, ← List.singleton_append, ← List.append_assoc, fieldOf_wrote, fieldOf_released]

omit [DecidableEq κ] in
theorem made_mem_acquire {maker : κ} {other : π} {x : ο} :
    .made maker other x ∈ log ++ acquire owner plugin object ↔
      .made maker other x ∈ log ∨ (maker = owner ∧ other = plugin ∧ x = object) := by
  simp [acquire]

omit [DecidableEq κ] in
theorem made_mem_giveUp {maker : κ} {other : π} {x : ο} :
    .made maker other x ∈ log ++ giveUp owner plugin object ↔ .made maker other x ∈ log := by
  simp [giveUp]

variable [DecidableEq π] [DecidableEq ο]

/-- Before a field is written anew, each object of its owner has been released exactly once. -/
def Paired (log : List (Entry κ π ο)) : Prop :=
  ∀ front owner field back, log = front ++ .wrote owner field :: back →
    ∀ plugin object, .made owner plugin object ∈ front → field ≠ some object →
      front.count (.released owner plugin object) = 1

/-- What is paired was paired before. -/
theorem Paired.of_append (h : Paired (log ++ log')) : Paired log := by
  intro front owner field back hlog
  refine h front owner field (back ++ log') ?_
  rw [hlog, List.append_assoc, List.cons_append]

/-- One entry more is fine if it is no write, or a write after the releases it needs. -/
theorem paired_concat_iff (entry : Entry κ π ο) :
    Paired (log ++ [entry]) ↔ Paired log ∧ ∀ owner field, entry = .wrote owner field →
      ∀ plugin object, .made owner plugin object ∈ log → field ≠ some object →
        log.count (.released owner plugin object) = 1 := by
  constructor
  · intro h
    refine ⟨h.of_append, fun owner field hentry => ?_⟩
    exact h log owner field [] (by rw [hentry])
  · rintro ⟨hlog, hentry⟩ front owner field back heq
    rcases List.eq_nil_or_concat back with rfl | ⟨back, last, rfl⟩
    · obtain ⟨rfl, hlast⟩ := List.append_inj' heq rfl
      exact hentry owner field (List.singleton_inj.mp hlast)
    · rw [List.concat_eq_append, ← List.cons_append, ← List.append_assoc] at heq
      obtain ⟨rfl, -⟩ := List.append_inj' heq rfl
      exact hlog front owner field back rfl

/-- Every object made is held and not released, or released once and not held. -/
structure Settled (log : List (Entry κ π ο)) : Prop where
  paired : Paired log
  balance : ∀ owner plugin object, .made owner plugin object ∈ log →
    log.count (.released owner plugin object) = if fieldOf log owner = some object then 0 else 1
  maker : ∀ owner plugin plugin' object, .made owner plugin object ∈ log →
    .made owner plugin' object ∈ log → plugin = plugin'
  held : ∀ owner object, fieldOf log owner = some object →
    ∃ plugin, .made owner plugin object ∈ log
  released : ∀ owner plugin object, .released owner plugin object ∈ log →
    .made owner plugin object ∈ log

theorem settled_nil : Settled ([] : List (Entry κ π ο)) := by
  refine ⟨fun front owner field back h => ?_, ?_, ?_, ?_, ?_⟩
  · simp at h
  all_goals simp [fieldOf_nil]

/-- An owner that holds nothing has released all it made, exactly once. -/
theorem Settled.count_of_free (h : Settled log) (hfree : fieldOf log owner = none)
    (hmade : .made owner plugin object ∈ log) :
    log.count (.released owner plugin object) = 1 := by
  rw [h.balance owner plugin object hmade, hfree]
  rfl

/-- Nothing is released before it is made. -/
theorem Settled.count_of_new (h : Settled log) (hnew : .made owner plugin object ∉ log) :
    log.count (.released owner plugin object) = 0 :=
  List.count_eq_zero_of_not_mem fun hin => hnew (h.released owner plugin object hin)

/-- A new object for an owner without one. -/
theorem Settled.acquire (h : Settled log) (hfree : fieldOf log owner = none)
    (hnew : ∀ maker plugin, .made maker plugin object ∉ log) :
    Settled (log ++ Pairing.acquire owner plugin object) := by
  have hcount : ∀ maker other x, (log ++ Pairing.acquire owner plugin object).count
      (.released maker other x) = log.count (.released maker other x) := by
    intro maker other x
    rw [List.count_append]
    simp [Pairing.acquire]
  refine ⟨?_, ?_, ?_, ?_, ?_⟩
  · rw [Pairing.acquire, ← List.singleton_append, ← List.append_assoc, paired_concat_iff,
      paired_concat_iff]
    refine ⟨⟨h.paired, fun _ _ hwrite => by cases hwrite⟩, ?_⟩
    rintro writer field ⟨rfl, rfl⟩ other x hmade hne
    rcases List.mem_append.mp hmade with hold | hlast
    · rw [List.count_append, h.count_of_free hfree hold]
      simp
    · obtain ⟨-, -, rfl⟩ : owner = owner ∧ other = plugin ∧ x = object := by simpa using hlast
      exact absurd rfl hne
  · intro maker other x hmade
    rw [hcount, fieldOf_acquire]
    rcases made_mem_acquire.mp hmade with hold | ⟨rfl, rfl, rfl⟩
    · have hother : x ≠ object := fun hsame => hnew maker other (hsame ▸ hold)
      by_cases howner : owner = maker
      · subst howner
        rw [h.count_of_free hfree hold, if_pos rfl, if_neg fun hsame => hother (Option.some.inj
          hsame).symm]
      · rw [if_neg howner, h.balance maker other x hold]
    · rw [h.count_of_new (hnew maker other), if_pos rfl, if_pos rfl]
  · intro maker other other' x hmade hmade'
    rcases made_mem_acquire.mp hmade with hold | ⟨rfl, rfl, rfl⟩
    · rcases made_mem_acquire.mp hmade' with hold' | ⟨rfl, rfl, rfl⟩
      · exact h.maker maker other other' x hold hold'
      · exact absurd hold (hnew maker other)
    · rcases made_mem_acquire.mp hmade' with hold' | ⟨-, rfl, -⟩
      · exact absurd hold' (hnew maker other')
      · rfl
  · intro maker x hheld
    rw [fieldOf_acquire] at hheld
    by_cases howner : owner = maker
    · rw [if_pos howner, Option.some.injEq] at hheld
      exact ⟨plugin, made_mem_acquire.mpr (.inr ⟨howner.symm, rfl, hheld.symm⟩)⟩
    · rw [if_neg howner] at hheld
      obtain ⟨other, hmade⟩ := h.held maker x hheld
      exact ⟨other, made_mem_acquire.mpr (.inl hmade)⟩
  · intro maker other x hreleased
    have hold : .released maker other x ∈ log := by simpa [Pairing.acquire] using hreleased
    exact made_mem_acquire.mpr (.inl (h.released maker other x hold))

/-- Releasing the held object settles the account of its owner. -/
theorem Settled.count_released (h : Settled log) (hheld : fieldOf log owner = some object)
    (hmade : .made owner plugin object ∈ log) {other : π} {x : ο}
    (hin : .made owner other x ∈ log) :
    (log ++ [Entry.released owner plugin object]).count (.released owner other x) = 1 := by
  have hbalance := h.balance owner other x hin
  rw [hheld] at hbalance
  rw [List.count_append, hbalance]
  by_cases hx : object = x
  · subst hx
    obtain rfl := h.maker owner plugin other object hmade hin
    simp
  · simp [hx]

/-- The held object is released and given up. -/
theorem Settled.giveUp (h : Settled log) (hheld : fieldOf log owner = some object)
    (hmade : .made owner plugin object ∈ log) :
    Settled (log ++ Pairing.giveUp owner plugin object) := by
  refine ⟨?_, ?_, ?_, ?_, ?_⟩
  · rw [Pairing.giveUp, ← List.singleton_append, ← List.append_assoc, paired_concat_iff,
      paired_concat_iff]
    refine ⟨⟨h.paired, fun _ _ hwrite => by cases hwrite⟩, ?_⟩
    rintro writer field ⟨rfl, rfl⟩ other x hin -
    exact h.count_released hheld hmade (by simpa using hin)
  · intro maker other x hin
    have hold := made_mem_giveUp.mp hin
    have hcount : (log ++ Pairing.giveUp owner plugin object).count (.released maker other x) =
        (log ++ [Entry.released owner plugin object]).count (.released maker other x) := by
      rw [List.count_append, List.count_append]
      simp [Pairing.giveUp, List.count_cons]
    rw [hcount, fieldOf_giveUp]
    by_cases howner : owner = maker
    · subst howner
      rw [if_pos rfl, h.count_released hheld hmade hold]
      rfl
    · rw [if_neg howner, List.count_append, h.balance maker other x hold]
      simp [howner]
  · intro maker other other' x hin hin'
    exact h.maker maker other other' x (made_mem_giveUp.mp hin) (made_mem_giveUp.mp hin')
  · intro maker x hkept
    rw [fieldOf_giveUp] at hkept
    by_cases howner : owner = maker
    · rw [if_pos howner] at hkept
      cases hkept
    · rw [if_neg howner] at hkept
      obtain ⟨other, hin⟩ := h.held maker x hkept
      exact ⟨other, made_mem_giveUp.mpr hin⟩
  · intro maker other x hreleased
    rw [made_mem_giveUp]
    have hcases :
        .released maker other x ∈ log ∨ (maker = owner ∧ other = plugin ∧ x = object) := by
      simpa [Pairing.giveUp] using hreleased
    rcases hcases with hold | ⟨rfl, rfl, rfl⟩
    · exact h.released maker other x hold
    · exact hmade

/-- A held object that is given up without its release. -/
theorem Settled.not_paired_cleared (h : Settled log) (hheld : fieldOf log owner = some object) :
    ¬ Paired (log ++ [.wrote owner none]) := by
  intro hpaired
  obtain ⟨plugin, hmade⟩ := h.held owner object hheld
  have hone := ((paired_concat_iff _).mp hpaired).2 owner none rfl plugin object hmade (by simp)
  rw [h.balance owner plugin object hmade, if_pos hheld] at hone
  cases hone

end BeLa.Pairing
