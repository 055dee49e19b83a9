import Mathlib.Data.Set.Basic

/-!
A table that several tenants share. Each entry is held by one tenant or by
nobody. A tenant puts entries, which takes away those they displace, whoever
holds them; it clears what it holds; or it abandons that, and then nobody holds
it. After any sequence of such acts a tenant holds what it has put since, and
has neither lost to a displacing entry nor given up.
-/
namespace BeLa.Tenancy

variable {κ ε : Type*}

inductive Act (κ ε : Type*)
  | put (tenant : κ) (entry : ε)
  | clear (tenant : κ)
  | abandon (tenant : κ)
  deriving DecidableEq

/-- The entries, each with its holder; `none` is nobody. -/
abbrev Table (κ ε : Type*) := Set (Option κ × ε)

def Act.tenant : Act κ ε → κ
  | .put k _ => k
  | .clear k => k
  | .abandon k => k

section

variable (displaces : ε → ε → Prop)

def Act.apply (table : Table κ ε) : Act κ ε → Table κ ε
  | .put k e => {x | x = (some k, e) ∨ x ∈ table ∧ ¬ displaces e x.2}
  | .clear k => {x | x ∈ table ∧ x.1 ≠ some k}
  | .abandon k => {x | (x ∈ table ∧ x.1 ≠ some k) ∨ x.1 = none ∧ (some k, x.2) ∈ table}

def run (table : Table κ ε) (acts : List (Act κ ε)) : Table κ ε :=
  acts.foldl (Act.apply displaces) table

def Act.Displaces (e : ε) : Act κ ε → Prop
  | .put _ other => displaces other e
  | .clear _ => False
  | .abandon _ => False

def Act.Ends (k : κ) (e : ε) (act : Act κ ε) : Prop :=
  act.Displaces displaces e ∨ act = .clear k ∨ act = .abandon k

variable {displaces}

theorem run_append (table : Table κ ε) (acts acts' : List (Act κ ε)) :
    run displaces table (acts ++ acts') = run displaces (run displaces table acts) acts' :=
  List.foldl_append

theorem run_cons (table : Table κ ε) (act : Act κ ε) (acts : List (Act κ ε)) :
    run displaces table (act :: acts) = run displaces (act.apply displaces table) acts :=
  rfl

/-- After an act a tenant holds what it has just put, or what the act leaves it. -/
theorem mem_apply_some {table : Table κ ε} {act : Act κ ε} {k : κ} {e : ε} :
    (some k, e) ∈ act.apply displaces table ↔
      act = .put k e ∨ (some k, e) ∈ table ∧ ¬ act.Ends displaces k e := by
  cases act with
  | put k' e' =>
    simp [Act.apply, Act.Ends, Act.Displaces, Prod.mk.injEq, eq_comm]
  | clear k' => simp [Act.apply, Act.Ends, Act.Displaces, eq_comm]
  | abandon k' => simp [Act.apply, Act.Ends, Act.Displaces, eq_comm]

/-- After an act nobody holds what was abandoned by it, or what it leaves. -/
theorem mem_apply_none {table : Table κ ε} {act : Act κ ε} {e : ε} :
    (none, e) ∈ act.apply displaces table ↔
      ((none, e) ∈ table ∧ ¬ act.Displaces displaces e) ∨
        ∃ k, act = .abandon k ∧ (some k, e) ∈ table := by
  cases act with
  | put k' e' => simp [Act.apply, Act.Displaces]
  | clear k' => simp [Act.apply, Act.Displaces]
  | abandon k' => simp [Act.apply, Act.Displaces]

/-- After at most one act a tenant holds what it has put, or what is not ended. -/
theorem mem_run_of_one {table : Table κ ε} {acts : List (Act κ ε)} (hone : acts.length ≤ 1) {k : κ}
    {e : ε} : (some k, e) ∈ run displaces table acts ↔
      .put k e ∈ acts ∨ (some k, e) ∈ table ∧ ∀ act ∈ acts, ¬ act.Ends displaces k e := by
  match acts, hone with
  | [], _ => simp [run]
  | [act], _ =>
    rw [List.mem_singleton, List.forall_mem_singleton, eq_comm]
    exact mem_apply_some

/-- What a tenant holds after the acts: what it has put, or held before, and what no later act
has ended. -/
theorem held_iff (table : Table κ ε) (acts : List (Act κ ε)) (k : κ) (e : ε) :
    (some k, e) ∈ run displaces table acts ↔
      (∃ before later, acts = before ++ .put k e :: later ∧
        ∀ act ∈ later, ¬ act.Ends displaces k e) ∨
      (some k, e) ∈ table ∧ ∀ act ∈ acts, ¬ act.Ends displaces k e := by
  induction acts generalizing table with
  | nil => simp [run]
  | cons act acts ih =>
    rw [run_cons, ih, mem_apply_some]
    constructor
    · rintro (⟨before, later, rfl, hlater⟩ | ⟨rfl | ⟨hin, hact⟩, hacts⟩)
      · exact .inl ⟨act :: before, later, rfl, hlater⟩
      · exact .inl ⟨[], acts, rfl, hacts⟩
      · exact .inr ⟨hin, List.forall_mem_cons.mpr ⟨hact, hacts⟩⟩
    · rintro (⟨before, later, hsplit, hlater⟩ | ⟨hin, hall⟩)
      · cases before with
        | nil =>
          obtain ⟨rfl, rfl⟩ := List.cons.inj hsplit
          exact .inr ⟨.inl rfl, hlater⟩
        | cons first before =>
          obtain ⟨-, rfl⟩ := List.cons.inj hsplit
          exact .inl ⟨before, later, rfl, hlater⟩
      · rw [List.forall_mem_cons] at hall
        exact .inr ⟨.inr ⟨hin, hall.1⟩, hall.2⟩

/-- What nobody holds after the acts: what nobody held before, or what some tenant held when it
abandoned it, and what nothing has displaced since. -/
theorem nobodys_iff (table : Table κ ε) (acts : List (Act κ ε)) (e : ε) :
    (none, e) ∈ run displaces table acts ↔
      (∃ before k later, acts = before ++ .abandon k :: later ∧
        (some k, e) ∈ run displaces table before ∧
        ∀ act ∈ later, ¬ act.Displaces displaces e) ∨
      (none, e) ∈ table ∧ ∀ act ∈ acts, ¬ act.Displaces displaces e := by
  induction acts generalizing table with
  | nil => simp [run]
  | cons act acts ih =>
    rw [run_cons, ih, mem_apply_none]
    constructor
    · rintro (⟨before, k, later, rfl, hheld, hlater⟩ | ⟨⟨hin, hact⟩ | ⟨k, rfl, hheld⟩, hacts⟩)
      · exact .inl ⟨act :: before, k, later, rfl, by rwa [run_cons], hlater⟩
      · exact .inr ⟨hin, List.forall_mem_cons.mpr ⟨hact, hacts⟩⟩
      · exact .inl ⟨[], k, acts, rfl, hheld, hacts⟩
    · rintro (⟨before, k, later, hsplit, hheld, hlater⟩ | ⟨hin, hall⟩)
      · cases before with
        | nil =>
          obtain ⟨rfl, rfl⟩ := List.cons.inj hsplit
          exact .inr ⟨.inr ⟨k, rfl, hheld⟩, hlater⟩
        | cons first before =>
          obtain ⟨rfl, rfl⟩ := List.cons.inj hsplit
          rw [run_cons] at hheld
          exact .inl ⟨before, k, later, rfl, hheld, hlater⟩
      · rw [List.forall_mem_cons] at hall
        exact .inr ⟨.inl ⟨hin, hall.1⟩, hall.2⟩

end

section Keyed

variable {ι : Type*} {key : ε → ι}

def OnePerKey (key : ε → ι) (table : Table κ ε) : Prop :=
  ∀ x ∈ table, ∀ y ∈ table, key x.2 = key y.2 → x = y

/-- Where an entry displaces those of its key, the acts keep one entry for each key. -/
theorem OnePerKey.run {table : Table κ ε} (h : OnePerKey key table) (acts : List (Act κ ε)) :
    OnePerKey key (run (fun e e' => key e = key e') table acts) := by
  induction acts generalizing table with
  | nil => exact h
  | cons act acts ih =>
    rw [run_cons]
    apply ih
    cases act with
    | put k e =>
      rintro x (rfl | ⟨hx, hxe⟩) y (rfl | ⟨hy, hye⟩) hkey
      · rfl
      · exact absurd hkey hye
      · exact absurd hkey.symm hxe
      · exact h x hx y hy hkey
    | clear k => exact fun x hx y hy hkey => h x hx.1 y hy.1 hkey
    | abandon k =>
      -- an abandoned entry has its key alone, like one that stays
      rintro ⟨o, e⟩ (⟨hx, hxk⟩ | ⟨rfl, hx⟩) ⟨o', e'⟩ (⟨hy, hyk⟩ | ⟨rfl, hy⟩) hkey
      · exact h _ hx _ hy hkey
      · exact absurd (Prod.mk.inj (h _ hx _ hy hkey)).1 hxk
      · exact absurd (Prod.mk.inj (h _ hx _ hy hkey)).1.symm hyk
      · have hsame : e = e' := (Prod.mk.inj (h _ hx _ hy hkey)).2
        rw [hsame]

end Keyed

end BeLa.Tenancy
