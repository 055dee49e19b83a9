import BeLa.Accelerate
import BeLa.Runs

/-!
The registry of channel types. The lookup compares names the wrong way round: it
finds the first entry of another name. On an empty registry this makes no
difference; as soon as one type is registered no lookup gives its entry, and a
registration succeeds just for the name that is already there.
-/
namespace BeLa.ChannelTypes

open LittleEndian Stops Context Accelerate Runs

inductive Use
  | register (vsocketType : AccVsocketType)
  | lookup (name : Bytes)

def Named (vsocketType : AccVsocketType) : Prop :=
  vsocketType.name ≠ [] ∧ vsocketType.name.length < typeSize

def Use.Legal : Use → Prop
  | .register vsocketType => Named vsocketType
  | .lookup _ => True

def useStep (types : List AccVsocketType) : Use → Except Stop (List AccVsocketType)
  | .register vsocketType => .ok (accVsocketTypeRegister vsocketType types).2
  | .lookup _ => .ok types

/-- `s_acc_vsocket_types` before any registration. -/
def emptyTypes : List AccVsocketType := List.replicate accClientMaxSize .zero

/-- A registration succeeds when the name is new and there is room, and changes nothing
otherwise; a lookup returns the entry of the name. -/
def Meets (types : List AccVsocketType) : Use → Prop
  | .register vsocketType =>
    ((accVsocketTypeRegister vsocketType types).1 = true ↔
      (∀ entry ∈ types, entry.used → entry.name ≠ vsocketType.name) ∧
        (types.filter (·.used)).length < accClientMaxSize) ∧
    ((accVsocketTypeRegister vsocketType types).1 = false →
      (accVsocketTypeRegister vsocketType types).2 = types)
  | .lookup name => ∀ entry, accGetVsocketTypeByName types name = some entry ↔
      entry ∈ types ∧ entry.used ∧ entry.name = cString name

def Distinct (types : List AccVsocketType) : Prop :=
  ((types.filter (·.used)).map AccVsocketType.name).Nodup

def Unused (types : List AccVsocketType) (_ : Use) : Prop :=
  ∀ entry ∈ types, entry.used = false

variable {types : List AccVsocketType} {vsocketType entry : AccVsocketType} {name : Bytes}

/-- What a lookup finds is an entry of another name. -/
theorem getByName_some (h : accGetVsocketTypeByName types name = some entry) :
    entry ∈ types ∧ entry.used ∧ entry.name ≠ cString name := by
  unfold accGetVsocketTypeByName at h
  obtain ⟨idx, hidx, hentry⟩ := Option.bind_eq_some_iff.mp h
  obtain ⟨hlt, hhere, -⟩ := List.findIdx?_eq_some_iff_getElem.mp hidx
  rw [List.getElem?_eq_getElem hlt, Option.some.injEq] at hentry
  rw [hentry] at hhere
  obtain ⟨hused, hne⟩ := of_decide_eq_true hhere
  exact ⟨hentry ▸ List.getElem_mem hlt, hused, Ne.symm hne⟩

/-- A lookup finds nothing when every entry has the name that is looked for. -/
theorem getByName_none_iff : accGetVsocketTypeByName types name = none ↔
    ∀ entry ∈ types, entry.used → entry.name = cString name := by
  unfold accGetVsocketTypeByName
  constructor
  · intro h entry hentry hused
    cases hidx : accVsocketGetByName types name with
    | none =>
      have hnot := List.findIdx?_eq_none_iff.mp hidx entry hentry
      simp only [hused, true_and, decide_eq_false_iff_not, not_not] at hnot
      exact hnot.symm
    | some idx =>
      obtain ⟨hlt, -⟩ := List.findIdx?_eq_some_iff_getElem.mp hidx
      rw [hidx, Option.bind_some, List.getElem?_eq_getElem hlt] at h
      cases h
  · intro h
    have hidx : accVsocketGetByName types name = none := by
      apply List.findIdx?_eq_none_iff.mpr
      intro entry hentry
      rw [decide_eq_false_iff_not]
      rintro ⟨hused, hne⟩
      exact hne (h entry hentry hused).symm
    rw [hidx]
    rfl

theorem used_iff : entry.used = true ↔ entry.name ≠ [] := decide_eq_true_iff

def oneType (vsocketType : AccVsocketType) : List AccVsocketType :=
  vsocketType :: List.replicate (accClientMaxSize - 1) .zero

theorem unused_zero : AccVsocketType.zero.used = false := rfl

theorem used_oneType (hnamed : Named vsocketType) :
    (oneType vsocketType).filter (·.used) = [vsocketType] := by
  rw [oneType, List.filter_cons_of_pos (used_iff.mpr hnamed.1), List.filter_replicate,
    unused_zero]
  rfl

theorem mem_oneType (hentry : entry ∈ oneType vsocketType) (hused : entry.used) :
    entry = vsocketType := by
  rcases List.mem_cons.mp hentry with heq | hzero
  · exact heq
  · rw [List.eq_of_mem_replicate hzero, unused_zero] at hused
    cases hused

theorem used_emptyTypes : ∀ entry ∈ emptyTypes, entry.used = false := by
  intro entry hentry
  rw [List.eq_of_mem_replicate hentry]
  exact unused_zero

/-- The first registration succeeds. -/
theorem register_empty (vsocketType : AccVsocketType) :
    accVsocketTypeRegister vsocketType emptyTypes = (true, oneType vsocketType) := by
  have hnone : accGetVsocketTypeByName emptyTypes vsocketType.type.toList = none :=
    getByName_none_iff.mpr fun entry hentry hused => by
      rw [used_emptyTypes entry hentry] at hused
      cases hused
  unfold accVsocketTypeRegister
  rw [hnone]
  rfl

/-- An empty registry serves every use as it should. -/
theorem meets_empty (u : Use) : Meets emptyTypes u := by
  have hunused : ∀ entry ∈ emptyTypes, ¬ entry.used = true := fun entry hentry => by
    rw [used_emptyTypes entry hentry]
    exact Bool.false_ne_true
  cases u with
  | register vsocketType =>
    dsimp only [Meets]
    rw [register_empty]
    refine ⟨iff_of_true rfl ⟨fun entry hentry hused => absurd hused (hunused entry hentry), ?_⟩,
      fun h => by cases h⟩
    rw [List.filter_eq_nil_iff.mpr hunused]
    decide
  | lookup name =>
    have hnone : accGetVsocketTypeByName emptyTypes name = none :=
      getByName_none_iff.mpr fun entry hentry hused => absurd hused (hunused entry hentry)
    intro entry
    rw [hnone]
    exact iff_of_false (by simp) fun h => hunused entry h.1 h.2.1

/-- With one type registered no use is served as it should be. -/
theorem not_meets_oneType (hnamed : Named vsocketType) (u : Use) :
    ¬ Meets (oneType vsocketType) u := by
  have hmem : vsocketType ∈ oneType vsocketType := List.mem_cons_self
  have hused : vsocketType.used = true := used_iff.mpr hnamed.1
  have hone : ((oneType vsocketType).filter (·.used)).length < accClientMaxSize := by
    rw [used_oneType hnamed]
    exact show 1 < accClientMaxSize by decide
  cases u with
  | register other =>
    rintro ⟨hresult, -⟩
    by_cases hname : vsocketType.name = other.name
    · have hnone : accGetVsocketTypeByName (oneType vsocketType) other.type.toList = none :=
        getByName_none_iff.mpr fun entry hentry hin => by
          rw [mem_oneType hentry hin, hname]
          rfl
      have htaken : decide (¬ vsocketType.used = true) = false := by simp [hused]
      have hfree : accVsocketTypeGetLastIdx (oneType vsocketType) = some 1 := by
        rw [accVsocketTypeGetLastIdx, oneType, List.findIdx?_cons, htaken]
        rfl
      refine (hresult.mp ?_).1 vsocketType hmem hused hname
      simp only [accVsocketTypeRegister, hnone, hfree]
    · cases hfound : accGetVsocketTypeByName (oneType vsocketType) other.type.toList with
      | none => exact hname (getByName_none_iff.mp hfound vsocketType hmem hused)
      | some entry =>
        have hrefused : accVsocketTypeRegister other (oneType vsocketType) =
            (false, oneType vsocketType) := by
          simp only [accVsocketTypeRegister, hfound]
        rw [hrefused] at hresult
        refine Bool.false_ne_true (hresult.mpr ⟨fun entry hentry hin => ?_, hone⟩)
        rw [mem_oneType hentry hin]
        exact hname
  | lookup name =>
    intro hlookup
    by_cases hname : vsocketType.name = cString name
    · have hfound := (hlookup vsocketType).mpr ⟨hmem, hused, hname⟩
      exact (getByName_some hfound).2.2 hname
    · cases hfound : accGetVsocketTypeByName (oneType vsocketType) name with
      | none => exact hname (getByName_none_iff.mp hfound vsocketType hmem hused)
      | some entry =>
        obtain ⟨-, -, hother⟩ := getByName_some hfound
        exact hother ((hlookup entry).mp hfound).2.2

theorem distinct_oneType (hnamed : Named vsocketType) : Distinct (oneType vsocketType) := by
  rw [Distinct, used_oneType hnamed]
  exact List.nodup_singleton _

theorem distinct_emptyTypes : Distinct emptyTypes := by
  have hnil : emptyTypes.filter (·.used) = [] := rfl
  rw [Distinct, hnil]
  exact List.nodup_nil

/-- On a registry with one type only the empty run goes as it should. -/
theorem meets_oneType_iff (hnamed : Named vsocketType) (uses : List Use) :
    Each useStep Meets (oneType vsocketType) uses ∧
        Along useStep Distinct (oneType vsocketType) uses ↔
      Each useStep Unused (oneType vsocketType) uses := by
  cases uses with
  | nil => exact iff_of_true ⟨trivial, distinct_oneType hnamed⟩ trivial
  | cons u uses =>
    refine iff_of_false (fun h => not_meets_oneType hnamed u h.1.1) fun h => ?_
    have hunused := h.1 vsocketType List.mem_cons_self
    rw [used_iff.mpr hnamed.1] at hunused
    cases hunused

/-- Every use of a run is served as it should be, and no name is registered twice, just when
every use finds the registry empty. -/
theorem registry_meets_iff (uses : List Use) (hlegal : ∀ u ∈ uses, u.Legal) :
    Each useStep Meets emptyTypes uses ∧ Along useStep Distinct emptyTypes uses ↔
      Each useStep Unused emptyTypes uses := by
  induction uses with
  | nil => exact iff_of_true ⟨trivial, distinct_emptyTypes⟩ trivial
  | cons u uses ih =>
    rw [List.forall_mem_cons] at hlegal
    have hunused : Unused emptyTypes u := used_emptyTypes
    have hmeets := meets_empty u
    cases u with
    | register vsocketType =>
      have hnext : useStep emptyTypes (.register vsocketType) = .ok (oneType vsocketType) := by
        rw [useStep, register_empty]
      have hrest := meets_oneType_iff hlegal.1 uses
      simp only [Each, Along, hnext, Except.ok.injEq, forall_eq', hmeets, distinct_emptyTypes,
        hunused, true_and]
      exact hrest
    | lookup name =>
      have hnext : useStep emptyTypes (.lookup name) = .ok emptyTypes := rfl
      simp only [Each, Along, hnext, Except.ok.injEq, forall_eq', hmeets, distinct_emptyTypes,
        hunused, true_and]
      exact ih hlegal.2

theorem named_virtioChannel : Named virtioChannel := by
  refine ⟨?_, ?_⟩ <;> decide

/-- A lookup before the first registration, and the first registration. -/
theorem registry_meets_first :
    Each useStep Meets emptyTypes [.lookup [0x78, 0], .register virtioChannel] ∧
      Along useStep Distinct emptyTypes [.lookup [0x78, 0], .register virtioChannel] := by
  refine (registry_meets_iff _ ?_).mpr ?_
  · intro u hu
    simp only [List.mem_cons, List.not_mem_nil, or_false] at hu
    rcases hu with rfl | rfl
    · trivial
    · exact named_virtioChannel
  · exact Each.cons used_emptyTypes rfl (Each.cons used_emptyTypes rfl trivial)

/-- The registration of the channel module and the one that the first client repeats. -/
theorem repeated_registration_succeeds : ¬ ∀ uses : List Use, (∀ u ∈ uses, u.Legal) →
    Each useStep Meets emptyTypes uses ∧ Along useStep Distinct emptyTypes uses := by
  intro hall
  have hmeets := (hall [.register virtioChannel, .register virtioChannel] (by
    intro u hu
    simp only [List.mem_cons, List.not_mem_nil, or_false, or_self] at hu
    rw [hu]
    exact named_virtioChannel)).1
  have hsecond := hmeets.2 _ rfl
  exact not_meets_oneType named_virtioChannel _ (register_empty virtioChannel ▸ hsecond.1)

end BeLa.ChannelTypes
