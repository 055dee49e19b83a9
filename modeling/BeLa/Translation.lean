import BeLa.BoundedMaps

/-!
Address translation. A translator relates inner to outer endpoints, none of which
belongs to two of its sessions. So it translates both ways, and the one way
undoes the other.
-/
namespace BeLa.Translation

open BoundedMaps

variable {α β : Type*}

structure Translator (α β : Type*) where
  sessions : List (α × β)
  inner : (sessions.map Prod.fst).Nodup
  outer : (sessions.map Prod.snd).Nodup

namespace Translator

def outbound [DecidableEq α] (table : Translator α β) (a : α) : Option β :=
  (table.sessions.find? fun session => session.1 = a).map Prod.snd

def inbound [DecidableEq β] (table : Translator α β) (b : β) : Option α :=
  (table.sessions.find? fun session => session.2 = b).map Prod.fst

variable {table : Translator α β} {a : α} {b : β}

theorem outbound_eq_some_iff [DecidableEq α] :
    table.outbound a = some b ↔ (a, b) ∈ table.sessions := by
  rw [outbound, Option.map_eq_some_iff]
  simp only [find_eq_some_iff table.inner]
  constructor
  · rintro ⟨session, ⟨hmem, rfl⟩, rfl⟩
    exact hmem
  · exact fun hmem => ⟨(a, b), ⟨hmem, rfl⟩, rfl⟩

theorem inbound_eq_some_iff [DecidableEq β] :
    table.inbound b = some a ↔ (a, b) ∈ table.sessions := by
  rw [inbound, Option.map_eq_some_iff]
  simp only [find_eq_some_iff table.outer]
  constructor
  · rintro ⟨session, ⟨hmem, rfl⟩, rfl⟩
    exact hmem
  · exact fun hmem => ⟨(a, b), ⟨hmem, rfl⟩, rfl⟩

/-- What is translated to the outside comes back from it. -/
theorem inbound_of_outbound [DecidableEq α] [DecidableEq β] (h : table.outbound a = some b) :
    table.inbound b = some a :=
  inbound_eq_some_iff.mpr (outbound_eq_some_iff.mp h)

end Translator

end BeLa.Translation
