import Mathlib.Tactic.Basic

/-!
The ways a call of the daemon can end without returning. The assertions are
told apart by the function they stand in; a null pointer that is called or
dereferenced, an access outside an array, a number that is printed as a string
and a write to a channel without a reader are kept as separate reasons. A call
that has used up the answers of its channel is still waiting in its loop.
-/
namespace BeLa.Stops

inductive AssertSite
  | readn
  | addFlowsMessageHandle
  | beAccFlushRules
  | accLiquidioContextDestroy
  | beAccCardReg
  | beAccCardUnreg
  | vmChannelOpen
  | bePluginRegister
  | bePluginUnregister
  | cgnatAccelerate
  | accClientAddFlows
  deriving DecidableEq, Repr

inductive Stop
  | assertion (site : AssertSite)
  | nullCall
  | nullDeref
  | outOfBounds
  | useAfterFree
  /-- `%s` with a number: the string is read at that address -/
  | badString
  /-- SIGPIPE, which nothing ignores -/
  | brokenPipe
  | waiting
  deriving DecidableEq, Repr

def reason {α : Type} : Except Stop α → Option Stop
  | .ok _ => none
  | .error stop => some stop

theorem eq_error_of_reason {α : Type} {result : Except Stop α} {stop : Stop}
    (h : reason result = some stop) : result = .error stop := by
  cases result with
  | ok a => cases h
  | error other => rw [Option.some.inj h]

/-- The call has stopped, and not at an assertion. -/
def Crashed {α : Type} (result : Except Stop α) : Prop :=
  ∃ stop, result = .error stop ∧ ∀ site, stop ≠ .assertion site

@[simp] theorem not_crashed_ok {α : Type} (a : α) : ¬ Crashed (.ok a : Except Stop α) := by
  rintro ⟨stop, h, -⟩
  cases h

@[simp] theorem crashed_error {α : Type} (stop : Stop) :
    Crashed (.error stop : Except Stop α) ↔ ∀ site, stop ≠ .assertion site := by
  constructor
  · rintro ⟨other, h, hne⟩
    cases h
    exact hne
  · exact fun hne => ⟨stop, rfl, hne⟩

end BeLa.Stops
