import BeLa.BoundedMaps
import BeLa.Paths
import BeLa.PrefixTables
import BeLa.Runs

/-!
The registry of rule back ends. One scan of the table serves as lookup, as check
for duplicates and as search for a free entry. It ends at the first free entry,
which is right because registrations fill the table from the front and none of
them frees an entry.
-/
namespace BeLa.RuleRegistry

open LittleEndian Stops Context Paths Runs PrefixTables BoundedMaps

/-- The size of the field `name` of `struct acc_rule_be`. -/
def ruleNameSize : ℕ := 32

/-- `struct acc_rule_be`; its functions are told apart by their addresses. -/
structure AccRuleBe where
  name : List.Vector Byte ruleNameSize
  accAddRules : ℕ
  accRemoveRules : ℕ
  accFlushRules : ℕ
  deriving DecidableEq

namespace AccRuleBe

def zero : AccRuleBe := ⟨⟨List.replicate ruleNameSize 0, by simp⟩, 0, 0, 0⟩

def used (be : AccRuleBe) : Bool := be.name.toList.headD 0 ≠ 0

/-- The name as it is compared: its bytes up to a zero, or all 32 of them. -/
def key (be : AccRuleBe) : Bytes := cString be.name.toList

end AccRuleBe

def accRuleBeMaxSize : ℕ := 32

/-- `s_acc_rule_be` before any registration. -/
def emptyTable : List AccRuleBe := List.replicate accRuleBeMaxSize .zero

/-- `strncmp`: the difference of the first bytes that differ, unless a zero or the number of bytes
ends the comparison before. Behind the bytes of a string stands a zero. -/
def strncmp : Bytes → Bytes → ℕ → ℤ
  | _, _, 0 => 0
  | s, t, n + 1 =>
    if s.headD 0 = t.headD 0 ∧ s.headD 0 ≠ 0 then strncmp s.tail t.tail n
    else (s.headD 0).toNat - (t.headD 0).toNat

inductive Scan
  | found (i : ℕ)
  | ended (loc : ℕ)
  deriving DecidableEq, Repr

/-- The loop of `_get_rule_be_by_name`, from the given index on. -/
def getRuleBeFrom (name : Bytes) : List AccRuleBe → ℕ → Scan
  | [], i => .ended i
  | entry :: entries, i =>
    if entry.used then
      if strncmp name entry.name.toList ruleNameSize = 0 then .found i
      else getRuleBeFrom name entries (i + 1)
    else .ended i

def getRuleBeByName (name : Bytes) (table : List AccRuleBe) : Scan := getRuleBeFrom name table 0

def accGetRuleBeByName (name : Bytes) (table : List AccRuleBe) : Option AccRuleBe :=
  match getRuleBeByName name table with
  | .found i => table[i]?
  | .ended _ => none

def accGetFirstRuleBe (table : List AccRuleBe) : Option AccRuleBe := table.head?.filter (·.used)

/-- `acc_rule_be_register`, of NULL or of a back end, with the value it returns. -/
def accRuleBeRegister (be : Option AccRuleBe) (table : List AccRuleBe) : ℤ × List AccRuleBe :=
  match be with
  | none => (-1, table)
  | some be =>
    if ¬ be.used then (-1, table)
    else
      match getRuleBeByName be.name.toList table with
      | .found _ => (-1, table)
      | .ended loc => if loc ≥ accRuleBeMaxSize then (-1, table) else (0, table.set loc be)

def registerStep (table : List AccRuleBe) (be : Option AccRuleBe) :
    Except Stop (List AccRuleBe) :=
  .ok (accRuleBeRegister be table).2

def accepted : List AccRuleBe → List (Option AccRuleBe) → List AccRuleBe
  | _, [] => []
  | table, call :: calls =>
    (if (accRuleBeRegister call table).1 = 0 then call.toList else []) ++
      accepted (accRuleBeRegister call table).2 calls

def present (table : List AccRuleBe) : ℕ := (table.filter (·.used)).length

/-- A back end that is to be registered: it has a name, no entry has this name, and there is
room. -/
def Admitted (table : List AccRuleBe) (be : AccRuleBe) : Prop :=
  be.key ≠ [] ∧ (∀ entry ∈ table, entry.key ≠ be.key) ∧ present table < accRuleBeMaxSize

/-- A registration returns 0 for a back end that is to be registered, and puts it behind the
entries in use; otherwise it changes nothing. -/
def Serves (table : List AccRuleBe) (call : Option AccRuleBe) : Prop :=
  ((accRuleBeRegister call table).1 = 0 ↔ ∃ be, call = some be ∧ Admitted table be) ∧
  (∀ be, call = some be → Admitted table be →
    (accRuleBeRegister call table).2 = table.set (present table) be) ∧
  ((accRuleBeRegister call table).1 ≠ 0 → (accRuleBeRegister call table).2 = table)

abbrev Holds (table taken : List AccRuleBe) : Prop :=
  Filled AccRuleBe.key .zero accRuleBeMaxSize table taken

variable {table taken : List AccRuleBe} {be : AccRuleBe} {name : Bytes}

theorem cString_take_succ (s : Bytes) (n : ℕ) : cString (s.take (n + 1)) =
    if s.headD 0 = 0 then [] else s.headD 0 :: cString (s.tail.take n) := by
  cases s with
  | nil => rfl
  | cons a s =>
    rw [List.take_succ_cons, cString, List.takeWhile_cons, List.headD_cons, List.tail_cons]
    by_cases ha : a = 0
    · rw [if_pos ha, ha]
      rfl
    · rw [if_neg ha, if_pos (decide_eq_true ha)]
      rfl

/-- `strncmp` finds no difference just when the strings in the bytes it compares are equal. -/
theorem strncmp_eq_zero_iff (s t : Bytes) (n : ℕ) :
    strncmp s t n = 0 ↔ cString (s.take n) = cString (t.take n) := by
  induction n generalizing s t with
  | zero => simp [strncmp]
  | succ n ih =>
    rw [strncmp, cString_take_succ, cString_take_succ]
    by_cases hzero : s.headD 0 = 0
    · rw [if_neg (fun h => h.2 hzero), if_pos hzero, hzero]
      have hnat : ((0 : Byte).toNat : ℤ) = 0 := rfl
      rw [hnat, zero_sub, neg_eq_zero, Int.natCast_eq_zero]
      split
      · rename_i ht
        rw [ht]
        exact iff_of_true rfl rfl
      · rename_i ht
        exact iff_of_false (fun h => ht (BitVec.eq_of_toNat_eq h)) (by simp)
    · rw [if_neg hzero]
      by_cases hsame : s.headD 0 = t.headD 0
      · rw [if_pos ⟨hsame, hzero⟩, if_neg (hsame ▸ hzero), ih, hsame, List.cons.injEq]
        simp
      · rw [if_neg (fun h => hsame h.1), sub_eq_zero, Int.natCast_inj]
        refine iff_of_false (fun h => hsame (BitVec.eq_of_toNat_eq h)) ?_
        split
        · simp
        · intro h
          exact hsame (List.cons.inj h).1

theorem key_eq (be : AccRuleBe) : be.key = cString (be.name.toList.take ruleNameSize) := by
  rw [AccRuleBe.key, List.take_of_length_le be.name.toList_length.le]

theorem used_iff : be.used = true ↔ be.key ≠ [] := by
  have hhead : cString (be.name.toList.take ruleNameSize) =
      if be.name.toList.headD 0 = 0 then []
      else be.name.toList.headD 0 :: cString (be.name.toList.tail.take 31) :=
    cString_take_succ be.name.toList 31
  rw [AccRuleBe.used, decide_eq_true_iff, key_eq, hhead]
  split
  · rename_i hzero
    exact iff_of_false (fun h => h hzero) (fun h => h rfl)
  · rename_i hne
    exact iff_of_true hne (by simp)

theorem key_zero : AccRuleBe.zero.key = [] := rfl

theorem not_used_zero : ¬ AccRuleBe.zero.used = true := fun h => used_iff.mp h key_zero

/-- The scan passes entries of other names. -/
theorem scan_skip {front : List AccRuleBe} (hnamed : ∀ entry ∈ front, entry.key ≠ [])
    (hother : ∀ entry ∈ front, entry.key ≠ cString (name.take ruleNameSize))
    (rest : List AccRuleBe) (i : ℕ) :
    getRuleBeFrom name (front ++ rest) i = getRuleBeFrom name rest (i + front.length) := by
  induction front generalizing i with
  | nil => rfl
  | cons entry front ih =>
    rw [List.forall_mem_cons] at hnamed hother
    have hdiffers : ¬ strncmp name entry.name.toList ruleNameSize = 0 := by
      rw [strncmp_eq_zero_iff, ← key_eq]
      exact hother.1.symm
    rw [List.cons_append, getRuleBeFrom, if_pos (used_iff.mpr hnamed.1), if_neg hdiffers,
      ih hnamed.2 hother.2, List.length_cons, Nat.add_assoc, Nat.add_comm 1]

/-- The scan ends behind the entries in use when none of them has the name. -/
theorem scan_absent (h : Holds table taken)
    (hnone : ∀ entry ∈ taken, entry.key ≠ cString (name.take ruleNameSize)) :
    getRuleBeByName name table = .ended taken.length := by
  rw [getRuleBeByName, h.entries, scan_skip h.used hnone, Nat.zero_add]
  cases accRuleBeMaxSize - taken.length with
  | zero => rfl
  | succ n => rw [List.replicate_succ, getRuleBeFrom, if_neg not_used_zero]

/-- The scan finds the entry of the name. -/
theorem scan_present (h : Holds table taken) (hbe : be ∈ taken)
    (hkey : be.key = cString (name.take ruleNameSize)) :
    ∃ i, getRuleBeByName name table = .found i ∧ table[i]? = some be := by
  obtain ⟨front, back, rfl⟩ := List.append_of_mem hbe
  have hnodup := h.nodup
  rw [List.map_append, List.map_cons] at hnodup
  have hother : ∀ entry ∈ front, entry.key ≠ cString (name.take ruleNameSize) := by
    intro entry hentry hsame
    have hdisjoint := (List.nodup_append.mp hnodup).2.2
    exact hdisjoint _ (List.mem_map_of_mem hentry) _ List.mem_cons_self (hsame.trans hkey.symm)
  have hnamed : ∀ entry ∈ front, entry.key ≠ [] := fun entry hentry =>
    h.used entry (List.mem_append_left _ hentry)
  have hequal : strncmp name be.name.toList ruleNameSize = 0 := by
    rw [strncmp_eq_zero_iff, ← key_eq, hkey]
  refine ⟨front.length, ?_, ?_⟩
  · rw [getRuleBeByName, h.entries, List.append_assoc, scan_skip hnamed hother, List.cons_append,
      getRuleBeFrom, if_pos (used_iff.mpr (h.used be hbe)), if_pos hequal, Nat.zero_add]
  · rw [h.entries, List.append_assoc, List.cons_append,
      List.getElem?_append_right (Nat.le_refl _), Nat.sub_self, List.getElem?_cons_zero]

theorem scan_new (h : Holds table taken) (hnew : be.key ∉ taken.map AccRuleBe.key) :
    getRuleBeByName be.name.toList table = .ended taken.length := by
  apply scan_absent h
  intro entry hentry hsame
  rw [← key_eq] at hsame
  exact hnew (hsame ▸ List.mem_map_of_mem hentry)

/-- A lookup returns the entry of the name, if there is one. -/
theorem lookup_eq_some_iff (h : Holds table taken) : accGetRuleBeByName name table = some be ↔
    be ∈ taken ∧ be.key = cString (name.take ruleNameSize) := by
  unfold accGetRuleBeByName
  by_cases hthere : ∃ entry ∈ taken, entry.key = cString (name.take ruleNameSize)
  · obtain ⟨entry, hentry, hkey⟩ := hthere
    obtain ⟨i, hfound, hget⟩ := scan_present h hentry hkey
    rw [hfound]
    simp only [hget, Option.some.injEq]
    constructor
    · rintro rfl
      exact ⟨hentry, hkey⟩
    · intro hbe
      exact List.inj_on_of_nodup_map h.nodup hentry hbe.1 (hkey.trans hbe.2.symm)
  · have hnone : ∀ entry ∈ taken, entry.key ≠ cString (name.take ruleNameSize) :=
      fun entry hentry hkey => hthere ⟨entry, hentry, hkey⟩
    rw [scan_absent h hnone]
    exact iff_of_false (by simp) fun hbe => hthere ⟨be, hbe⟩

/-- The first back end is the one that was registered first. -/
theorem first_eq (h : Holds table taken) : accGetFirstRuleBe table = taken.head? := by
  cases taken with
  | nil =>
    rw [accGetFirstRuleBe, h.entries, List.nil_append, List.head?_replicate]
    rfl
  | cons be taken =>
    rw [accGetFirstRuleBe, h.entries, List.cons_append, List.head?_cons, List.head?_cons,
      Option.filter_some, if_pos (used_iff.mpr (h.used be List.mem_cons_self))]

theorem present_eq (h : Holds table taken) : present table = taken.length := by
  rw [present, h.filter_used fun _ => used_iff]

theorem admitted_iff (h : Holds table taken) : Admitted table be ↔
    be.key ≠ [] ∧ be.key ∉ taken.map AccRuleBe.key ∧ taken.length < accRuleBeMaxSize := by
  rw [Admitted, present_eq h]
  refine and_congr_right fun hkey => and_congr_left fun _ => ?_
  rw [h.key_mem_iff hkey, not_exists]
  simp only [not_and]

/-- A back end that is to be registered takes the next entry. -/
theorem register_admitted (h : Holds table taken) (hbe : Admitted table be) :
    accRuleBeRegister (some be) table = (0, table.set taken.length be) := by
  obtain ⟨hkey, hnew, hroom⟩ := (admitted_iff h).mp hbe
  have hended := scan_new h hnew
  have hused : ¬ ¬ be.used = true := not_not.mpr (used_iff.mpr hkey)
  simp only [accRuleBeRegister, if_neg hused, hended]
  rw [if_neg (by omega)]

/-- Any other registration is refused. -/
theorem register_refused (h : Holds table taken) (hbe : ¬ Admitted table be) :
    accRuleBeRegister (some be) table = (-1, table) := by
  unfold accRuleBeRegister
  by_cases hused : be.used = true
  · simp only [hused, not_true_eq_false, if_false]
    by_cases hthere : be.key ∈ taken.map AccRuleBe.key
    · obtain ⟨entry, hentry, hkey⟩ := List.mem_map.mp hthere
      rw [key_eq be] at hkey
      obtain ⟨i, hfound, -⟩ := scan_present h hentry hkey
      rw [hfound]
    · have hfull : ¬ taken.length < accRuleBeMaxSize := fun hroom =>
        hbe ((admitted_iff h).mpr ⟨used_iff.mp hused, hthere, hroom⟩)
      simp only [scan_new h hthere]
      rw [if_pos (by omega)]
  · simp only [if_pos hused]

/-- The step of a run: the call is served, and an accepted back end stands last. -/
theorem call_serves (h : Holds table taken) (call : Option AccRuleBe) :
    Serves table call ∧ Holds (accRuleBeRegister call table).2
      (taken ++ if (accRuleBeRegister call table).1 = 0 then call.toList else []) := by
  have hfail : ¬ ((-1 : ℤ) = 0) := by omega
  cases call with
  | none =>
    have hnull : accRuleBeRegister none table = (-1, table) := rfl
    rw [Serves, hnull, if_neg hfail, List.append_nil]
    exact ⟨⟨iff_of_false hfail (by simp), by simp, fun _ => rfl⟩, h⟩
  | some be =>
    by_cases hbe : Admitted table be
    · have hregister := register_admitted h hbe
      rw [Serves, hregister, if_pos rfl, present_eq h]
      obtain ⟨hkey, hnew, hroom⟩ := (admitted_iff h).mp hbe
      refine ⟨⟨iff_of_true rfl ⟨be, rfl, hbe⟩, ?_, fun hne => absurd rfl hne⟩,
        h.append hkey hnew hroom⟩
      intro other hother _
      cases hother
      rfl
    · have hrefused := register_refused h hbe
      rw [Serves, hrefused, if_neg hfail, List.append_nil]
      refine ⟨⟨iff_of_false hfail ?_, ?_, fun _ => rfl⟩, h⟩
      · rintro ⟨other, hother, hadmitted⟩
        cases hother
        exact hbe hadmitted
      · intro other hother hadmitted
        cases hother
        exact absurd hadmitted hbe

/-- A run leaves the accepted back ends in the table, behind those that were there. -/
theorem holds_run (h : Holds table taken) (calls : List (Option AccRuleBe)) :
    ∃ table', exec registerStep table calls = .ok table' ∧
      Holds table' (taken ++ accepted table calls) := by
  induction calls generalizing table taken with
  | nil =>
    refine ⟨table, rfl, ?_⟩
    rwa [accepted, List.append_nil]
  | cons call calls ih =>
    obtain ⟨-, hnext⟩ := call_serves h call
    obtain ⟨table', hexec, hholds⟩ := ih hnext
    refine ⟨table', hexec, ?_⟩
    rwa [accepted, ← List.append_assoc]

theorem holds_step (table : List AccRuleBe) (call : Option AccRuleBe) (table' : List AccRuleBe)
    (h : ∃ taken, Holds table taken) (hstep : registerStep table call = .ok table') :
    ∃ taken, Holds table' taken := by
  obtain ⟨taken, h⟩ := h
  cases hstep
  exact ⟨_, (call_serves h call).2⟩

/-- After any registrations each of them was served, the entries in use stand in front under
different names, and the lookup of a name returns the back end registered under it. -/
theorem registry_served (calls : List (Option AccRuleBe)) :
    Each registerStep Serves emptyTable calls ∧
      Along registerStep (Ordered AccRuleBe.key .zero accRuleBeMaxSize) emptyTable calls ∧
      ∃ table, exec registerStep emptyTable calls = .ok table ∧
        table = accepted emptyTable calls ++
          List.replicate (accRuleBeMaxSize - (accepted emptyTable calls).length) .zero ∧
        ∀ name be, accGetRuleBeByName name table = some be ↔
          be ∈ accepted emptyTable calls ∧ be.key = cString (name.take ruleNameSize) := by
  have hempty : ∃ taken, Holds emptyTable taken := ⟨[], filled_empty⟩
  refine ⟨each_of_step holds_step (fun table call h => ?_) calls hempty,
    (along_of_step holds_step calls hempty).mono fun table h => ?_, ?_⟩
  · obtain ⟨taken, h⟩ := h
    exact (call_serves h call).1
  · obtain ⟨taken, h⟩ := h
    exact h.ordered
  · obtain ⟨table, hexec, hholds⟩ := holds_run filled_empty calls
    rw [List.nil_append] at hholds
    exact ⟨table, hexec, hholds.entries, fun name be => lookup_eq_some_iff hholds⟩

/-- What the registry is for: a map from names to back ends, in which a name stays as it was
given first. -/
def enroll (m : BoundedMap Bytes AccRuleBe accRuleBeMaxSize) :
    Option AccRuleBe → BoundedMap Bytes AccRuleBe accRuleBeMaxSize
  | none => m
  | some be => if be.key = [] then m else (m.insert be.key be).getD m

/-- A registration is one in the map. -/
theorem represents_register {m : BoundedMap Bytes AccRuleBe accRuleBeMaxSize}
    (h : Holds table taken) (hm : Represents AccRuleBe.key taken m) (call : Option AccRuleBe) :
    Represents AccRuleBe.key
      (taken ++ if (accRuleBeRegister call table).1 = 0 then call.toList else [])
      (enroll m call) := by
  have hfail : ¬ ((-1 : ℤ) = 0) := by omega
  cases call with
  | none =>
    have hnull : accRuleBeRegister none table = (-1, table) := rfl
    rwa [hnull, if_neg hfail, List.append_nil]
  | some be =>
    by_cases hbe : Admitted table be
    · obtain ⟨hkey, hnew, hroom⟩ := (admitted_iff h).mp hbe
      obtain ⟨m', hinsert, hm'⟩ := hm.insert hnew hroom
      rw [register_admitted h hbe, if_pos rfl, enroll, if_neg hkey, hinsert]
      exact hm'.perm (List.perm_append_singleton be taken).symm
    · have hsame : enroll m (some be) = m := by
        rw [enroll]
        split
        · rfl
        · rename_i hkey
          have hnone : m.insert be.key be = none := by
            rw [← Option.not_isSome_iff_eq_none, m.insert_isSome_iff, hm.card_keys,
              ← Option.not_isSome_iff_eq_none, ← m.mem_keys, hm.mem_keys]
            exact fun hroom => hbe ((admitted_iff h).mpr ⟨hkey, hroom⟩)
          rw [hnone]
          rfl
      rwa [register_refused h hbe, if_neg hfail, List.append_nil, hsame]

theorem represents_run {m : BoundedMap Bytes AccRuleBe accRuleBeMaxSize}
    (h : Holds table taken) (hm : Represents AccRuleBe.key taken m)
    (calls : List (Option AccRuleBe)) : ∃ table' taken',
    exec registerStep table calls = .ok table' ∧ Holds table' taken' ∧
      Represents AccRuleBe.key taken' (calls.foldl enroll m) := by
  induction calls generalizing table taken m with
  | nil => exact ⟨table, taken, rfl, h, hm⟩
  | cons call calls ih =>
    exact ih (call_serves h call).2 (represents_register h hm call)

/-- After any registrations a lookup in the table is a lookup in the map. -/
theorem registry_refines (calls : List (Option AccRuleBe)) :
    ∃ table, exec registerStep emptyTable calls = .ok table ∧ ∀ name,
      accGetRuleBeByName name table =
        (calls.foldl enroll .empty).lookup (cString (name.take ruleNameSize)) := by
  obtain ⟨table, taken, hexec, hholds, hm⟩ := represents_run filled_empty represents_empty calls
  refine ⟨table, hexec, fun name => ?_⟩
  ext be
  rw [lookup_eq_some_iff hholds, hm.finds, find_eq_some_iff hm.nodup]

def ovsRule : Bytes := [0x6F, 0x76, 0x73, 0x2D, 0x72, 0x75, 0x6C, 0x65]

/-- `acc_rule_ovs`, the back end that `acc_ovs_rule_be_register` registers at start-up. -/
def accRuleOvs (accOvsAddRules accOvsRemoveRules accOvsFlushRules : ℕ) : AccRuleBe where
  name := ⟨ovsRule ++ List.replicate 24 0, rfl⟩
  accAddRules := accOvsAddRules
  accRemoveRules := accOvsRemoveRules
  accFlushRules := accOvsFlushRules

theorem charOf_injective {b c : Byte} (h : Char.ofNat b.toNat = Char.ofNat c.toNat) : b = c := by
  have hvalid : ∀ d : Byte, (Char.ofNat d.toNat).toNat = d.toNat := by
    intro d
    have hlt := d.isLt
    rw [Char.ofNat, dif_pos (Or.inl (by omega))]
    rfl
  apply BitVec.eq_of_toNat_eq
  rw [← hvalid b, ← hvalid c, h]

theorem context_lookup_iff (name : Bytes) :
    (Context.accGetRuleBeByName (charsOf name)).isSome ↔ cString name = ovsRule := by
  have hchars : "ovs-rule".toList = ovsRule.map fun b => Char.ofNat b.toNat := by decide
  have hlookup : ∀ text : List Char,
      (Context.accGetRuleBeByName text).isSome ↔ text = "ovs-rule".toList := by
    intro text
    rw [Context.accGetRuleBeByName, sAccRuleBe, List.lookup_cons]
    by_cases htext : text = "ovs-rule".toList
    · exact iff_of_true (by simp [htext]) htext
    · rw [beq_eq_false_iff_ne.mpr htext]
      exact iff_of_false (by simp) htext
  rw [hlookup, hchars, charsOf]
  exact (List.map_injective_iff.mpr fun _ _ => charOf_injective).eq_iff

/-- A lookup after start-up finds the back end just where the table of names has one. -/
theorem lookup_after_start (add remove flush : ℕ) (name : Bytes) :
    (accGetRuleBeByName name
      (accRuleBeRegister (some (accRuleOvs add remove flush)) emptyTable).2).isSome =
      (Context.accGetRuleBeByName (charsOf name)).isSome := by
  set be := accRuleOvs add remove flush
  have hkey : be.key = ovsRule := rfl
  have hused : be.key ≠ [] := by
    rw [hkey]
    exact List.cons_ne_nil _ _
  have hadmitted : Admitted emptyTable be :=
    (admitted_iff filled_empty).mpr ⟨hused, List.not_mem_nil, by decide⟩
  have hholds : Holds (emptyTable.set 0 be) [be] :=
    filled_empty.append hused List.not_mem_nil (by decide)
  have hfound : (accGetRuleBeByName name (emptyTable.set 0 be)).isSome ↔
      cString (name.take ruleNameSize) = ovsRule := by
    rw [Option.isSome_iff_exists]
    constructor
    · intro ⟨other, hother⟩
      obtain ⟨hmem, hname⟩ := (lookup_eq_some_iff hholds).mp hother
      rw [← hname, List.mem_singleton.mp hmem, hkey]
    · intro hname
      exact ⟨be, (lookup_eq_some_iff hholds).mpr ⟨List.mem_singleton_self be, hname ▸ hkey⟩⟩
  have hregister : accRuleBeRegister (some be) emptyTable = (0, emptyTable.set 0 be) :=
    register_admitted filled_empty hadmitted
  rw [hregister, Bool.eq_iff_iff, context_lookup_iff]
  refine hfound.trans ?_
  -- the name is shorter than its field, so cutting at the size of the field does not matter
  rw [cString, ← List.take_takeWhile]
  constructor
  · intro hcut
    have hlength : ovsRule.length = 8 := rfl
    rw [← hcut, List.length_take, ruleNameSize] at hlength
    rwa [List.take_of_length_le] at hcut
    rw [ruleNameSize]
    omega
  · intro hname
    rw [← cString, hname]
    rfl

end BeLa.RuleRegistry
