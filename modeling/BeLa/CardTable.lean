import BeLa.BoundedMaps
import BeLa.Registration
import BeLa.Runs

/-!
The card table as a finite map from paths to cards. Calls of `be_acc_card_reg` and
`be_acc_card_unreg` in any order keep the table and the map in step: the cards of
the table represent the map, the counter counts them, and each call does to the
slots what the map does to its keys.
-/
namespace BeLa.CardTable

open LittleEndian Stops Runs Slots Context Card Paths Steps Registration BoundedMaps

/-- A call on the table, with what stands in memory behind the record it is given. The
copy of a registered record gets an address from the allocator; the record that is
unregistered has no session. -/
inductive TableCall
  | reg (addr : ℕ) (reginfo : AccCard) (behind : Bytes)
  | unreg (unreginfo : AccCard) (behind : Bytes)

namespace TableCall

def record : TableCall → AccCard
  | .reg _ reginfo _ => reginfo
  | .unreg unreginfo _ => unreginfo

def path (call : TableCall) : Bytes := cString call.record.vmpath.toList

end TableCall

def copyOf (addr : ℕ) (reginfo : AccCard) : BeCardInner := ⟨addr, reginfo, none, none, none⟩

/-- A call in a process whose allocations succeed; true is 0. -/
def tableCall (table : AccCardsTable) : TableCall → Except Stop (Bool × AccCardsTable)
  | .reg addr reginfo behind =>
    match beAccCardReg true addr reginfo behind table with
    | .error stop => .error stop
    | .ok none => .ok (false, table)
    | .ok (some after) => .ok (true, after)
  | .unreg unreginfo behind =>
    match beAccCardUnreg ⟨unreginfo.pathBefore behind, false, false, false⟩ table with
    | .error stop => .error stop
    | .ok (after, _) => .ok (true, after)

def tableStep (table : AccCardsTable) (call : TableCall) : Except Stop AccCardsTable :=
  (tableCall table call).map Prod.snd

/-- The map that the table is for. -/
abbrev CardMap := BoundedMap Bytes BeCardInner accCardMaxNum

def mapCall (m : CardMap) : TableCall → Bool × CardMap
  | .reg addr reginfo behind =>
    match m.insert (TableCall.reg addr reginfo behind).path (copyOf addr reginfo) with
    | none => (false, m)
    | some after => (true, after)
  | .unreg unreginfo behind => (true, m.erase (TableCall.unreg unreginfo behind).path)

def mapStep (m : CardMap) (call : TableCall) : Except Stop CardMap := .ok (mapCall m call).2

structure Holds (table : AccCardsTable) (m : CardMap) : Prop where
  slots : table.slots.length = accCardMaxNum
  count : table.regNum = table.cards.length
  cards : Represents BeCardInner.path table.cards m

theorem holds_init : Holds beLaAccCardsInit .empty := by
  have hcards : beLaAccCardsInit.cards = [] := records_replicate_none accCardMaxNum
  refine ⟨List.length_replicate, ?_, ?_⟩
  · rw [hcards]
    rfl
  · rw [hcards]
    exact represents_empty

/-- What a call promises of the table: when it returns 0, which slot it writes, and that it
leaves the table alone otherwise. -/
def Promise (table : AccCardsTable) (call : TableCall) (ok : Bool) (after : AccCardsTable) : Prop :=
  match call with
  | .reg addr reginfo _ =>
    (ok = true ↔ (∀ card ∈ table.cards, card.path ≠ call.path) ∧
      table.slots.countP Option.isSome < accCardMaxNum) ∧
    (ok = true → beLaGetAccCardptr after call.path = some (copyOf addr reginfo) ∧
      ∃ i : ℕ, table.slots[i]? = some none ∧
        after.slots = table.slots.set i (some (copyOf addr reginfo))) ∧
    (ok = false → after = table)
  | .unreg _ _ =>
    ok = true ∧ beLaGetAccCardptr after call.path = none ∧
      (after = table ∨ ∃ (i : ℕ) (card : BeCardInner), table.slots[i]? = some (some card) ∧
        card.path = call.path ∧ after.slots = table.slots.set i none)

variable {table after : AccCardsTable} {m : CardMap} {call : TableCall} {ok : Bool}

/-- A call that keeps its promise leaves every other card in its slot. -/
theorem promise_frame (h : Promise table call ok after) {j : ℕ} {card : BeCardInner}
    (hcard : table.slots[j]? = some (some card)) (hpath : card.path ≠ call.path) :
    after.slots[j]? = some (some card) := by
  cases call with
  | reg addr reginfo behind =>
    obtain ⟨-, hdone, hfailed⟩ := h
    cases ok with
    | false => rwa [hfailed rfl]
    | true =>
      obtain ⟨-, i, hfree, hslots⟩ := hdone rfl
      rw [hslots]
      exact getElem_set_of_ne hfree hcard (by simp) _
  | unreg unreginfo behind =>
    obtain ⟨-, -, rfl | ⟨i, other, hother, hsame, hslots⟩⟩ := h
    · exact hcard
    · rw [hslots]
      refine getElem_set_of_ne hother hcard ?_ _
      rintro ⟨rfl⟩
      exact hpath hsame

theorem path_copyOf {addr : ℕ} {reginfo : AccCard} (h : Terminated reginfo) :
    (copyOf addr reginfo).path = cString reginfo.vmpath.toList :=
  pathBefore_of_terminated h _

/-- The table has room exactly while it holds fewer cards than slots. -/
theorem Holds.room_iff (h : Holds table m) :
    none ∈ table.slots ↔ table.cards.length < accCardMaxNum := by
  rw [← h.slots]
  exact (length_records_lt_iff table.slots).symm

theorem holds_reg {addr : ℕ} {reginfo : AccCard} {behind : Bytes} (h : Holds table m)
    (hnamed : WellNamed reginfo) :
    ∃ after, tableCall table (.reg addr reginfo behind) =
        .ok ((mapCall m (.reg addr reginfo behind)).1, after) ∧
      Holds after (mapCall m (.reg addr reginfo behind)).2 ∧
      Promise table (.reg addr reginfo behind) (mapCall m (.reg addr reginfo behind)).1 after := by
  have hpath : reginfo.pathBefore behind = cString reginfo.vmpath.toList :=
    pathBefore_of_terminated hnamed.pathEnds behind
  have hcount : table.slots.countP Option.isSome = table.cards.length :=
    (length_records table.slots).symm
  have habsent : beLaGetAccCardptr table (reginfo.pathBefore behind) = none ↔
      ∀ card ∈ table.cards, card.path ≠ cString reginfo.vmpath.toList := by
    simp [beLaGetAccCardptr, hpath]
  by_cases hins : Inserts table true reginfo behind
  · obtain ⟨slots, hplace, hreg⟩ := reg_inserts hnamed.uuid hnamed.path hins addr
    have hnew := habsent.mp hins.absent
    have hroom := h.room_iff.mp hins.room
    have hfresh : (copyOf addr reginfo).path ∉ table.cards.map BeCardInner.path := by
      rw [path_copyOf hnamed.pathEnds]
      intro hmem
      obtain ⟨card, hcard, hsame⟩ := List.mem_map.mp hmem
      exact hnew card hcard hsame
    obtain ⟨m', hm', hrep⟩ := h.cards.insert hfresh hroom
    have hcall : mapCall m (.reg addr reginfo behind) = (true, m') := by
      rw [path_copyOf hnamed.pathEnds] at hm'
      simp only [mapCall, TableCall.path, TableCall.record, hm']
    have hperm : (records slots).Perm (copyOf addr reginfo :: table.cards) := records_place hplace
    obtain ⟨i, hfree, hset⟩ := place_set hplace
    rw [hcall]
    refine ⟨⟨slots, table.regNum + 1⟩, ?_, ?_, ?_, ?_, ?_⟩
    · simp only [tableCall, hreg]
    · refine ⟨?_, ?_, hrep.perm hperm.symm⟩
      · rw [hset, List.length_set, h.slots]
      · rw [AccCardsTable.cards, hperm.length_eq, h.count, List.length_cons]
        rfl
    · rw [hcount]
      exact ⟨fun _ => ⟨hnew, hroom⟩, fun _ => rfl⟩
    · intro _
      refine ⟨?_, i, hfree, hset⟩
      have hnamed_after := named_after_place (table.regNum + 1) hnamed.pathEnds hins.absent hplace
      rwa [hpath] at hnamed_after
    · exact fun hfalse => (Bool.false_ne_true hfalse.symm).elim
  · have hrefused : ¬ ((∀ card ∈ table.cards, card.path ≠ cString reginfo.vmpath.toList) ∧
        table.cards.length < accCardMaxNum) := fun hcond =>
      hins ⟨habsent.mpr hcond.1, h.room_iff.mpr hcond.2, rfl⟩
    have hnone : m.insert (cString reginfo.vmpath.toList) (copyOf addr reginfo) = none := by
      rw [← Option.not_isSome_iff_eq_none, m.insert_isSome_iff, h.cards.card_keys, h.cards.finds,
        List.find?_eq_none]
      simpa using hrefused
    have hcall : mapCall m (.reg addr reginfo behind) = (false, m) := by
      simp only [mapCall, TableCall.path, TableCall.record, hnone]
    rw [hcall]
    refine ⟨table, ?_, h, ?_, ?_, fun _ => rfl⟩
    · simp only [tableCall, reg_refuses hnamed.uuid hnamed.path hins]
    · rw [hcount]
      exact ⟨fun hfalse => (Bool.false_ne_true hfalse).elim, fun hcond => absurd hcond hrefused⟩
    · exact fun hfalse => (Bool.false_ne_true hfalse).elim

theorem holds_unreg {unreginfo : AccCard} {behind : Bytes} (h : Holds table m)
    (hnamed : WellNamed unreginfo) :
    ∃ after, tableCall table (.unreg unreginfo behind) =
        .ok ((mapCall m (.unreg unreginfo behind)).1, after) ∧
      Holds after (mapCall m (.unreg unreginfo behind)).2 ∧
      Promise table (.unreg unreginfo behind) (mapCall m (.unreg unreginfo behind)).1 after := by
  have hpath : unreginfo.pathBefore behind = cString unreginfo.vmpath.toList :=
    pathBefore_of_terminated hnamed.pathEnds behind
  set path := cString unreginfo.vmpath.toList
  -- the card that the scan takes out, if any
  cases htaken : (takeOut (fun card : BeCardInner => card.path = path) table.slots).2 with
  | none =>
    obtain ⟨hsame, habsent⟩ := takeOut_none htaken
    have hcall : tableCall table (.unreg unreginfo behind) = .ok (true, table) := by
      simp [tableCall, beAccCardUnreg, hpath, htaken, hsame]
    have herase : m.erase path = m := by
      refine h.cards.erase_absent fun hmem => ?_
      obtain ⟨card, hcard, hcardPath⟩ := List.mem_map.mp hmem
      exact habsent card hcard (by simpa using hcardPath)
    refine ⟨table, hcall, ?_, rfl, ?_, .inl rfl⟩
    · have hmap : (mapCall m (.unreg unreginfo behind)).2 = m := herase
      rw [hmap]
      exact h
    · rw [beLaGetAccCardptr, List.find?_eq_none]
      exact habsent
  | some card =>
    obtain ⟨hperm, hcardPath⟩ := takeOut_some htaken
    obtain ⟨i, hfound, hset⟩ := takeOut_set htaken
    obtain hcardPath : card.path = path := by simpa using hcardPath
    set slots := (takeOut (fun card : BeCardInner => card.path = path) table.slots).1
    have hcall : tableCall table (.unreg unreginfo behind) =
        .ok (true, ⟨slots, table.regNum - 1⟩) := by
      simp [tableCall, beAccCardUnreg, hpath, htaken, slots]
    have hrep : Represents BeCardInner.path (records slots) (m.erase path) := by
      rw [← hcardPath]
      exact h.cards.erase hperm
    refine ⟨⟨slots, table.regNum - 1⟩, hcall, ⟨?_, ?_, hrep⟩, rfl, ?_,
      .inr ⟨i, card, hfound, hcardPath, hset⟩⟩
    · rw [hset, List.length_set, h.slots]
    · have hlength : table.cards.length = (records slots).length + 1 := hperm.length_eq
      rw [h.count, hlength, AccCardsTable.cards]
      simp
    · rw [beLaGetAccCardptr, AccCardsTable.cards, ← hrep.finds]
      exact (m.lookup_erase path path).trans (if_pos rfl)

/-- A call does to the table what it does to the map, and keeps its promise. -/
theorem holds_call (h : Holds table m) (hnamed : WellNamed call.record) :
    ∃ after, tableCall table call = .ok ((mapCall m call).1, after) ∧
      Holds after (mapCall m call).2 ∧ Promise table call (mapCall m call).1 after := by
  cases call with
  | reg addr reginfo behind => exact holds_reg h hnamed
  | unreg unreginfo behind => exact holds_unreg h hnamed

/-- The table holds the map after any calls. -/
theorem holds_run {calls : List TableCall} (h : Holds table m)
    (hcalls : ∀ call ∈ calls, WellNamed call.record) :
    ∃ after m', exec tableStep table calls = .ok after ∧ exec mapStep m calls = .ok m' ∧
      Holds after m' := by
  have hstep : ∀ table m call, Holds table m → WellNamed (TableCall.record call) →
      (∃ after m', tableStep table call = .ok after ∧ mapStep m call = .ok m' ∧ Holds after m') ∨
      (∃ a b, tableStep table call = .error a ∧ mapStep m call = .error b ∧ False) := by
    intro table m call hm hnamed
    obtain ⟨after, hcall, hafter, -⟩ := holds_call hm hnamed
    refine .inl ⟨after, _, ?_, rfl, hafter⟩
    simp only [tableStep, hcall, Except.map]
  rcases exec_simulates hstep h hcalls with hrun | ⟨_, _, _, _, hfalse⟩
  · exact hrun
  · exact hfalse.elim

/-- After any calls with well-named records the table is a finite map from paths to cards,
of at most as many cards as slots, and every further call acts on it as on the map. -/
theorem card_table_is_bounded_map {calls : List TableCall}
    (hcalls : ∀ call ∈ calls, WellNamed call.record) :
    ∃ table m, exec tableStep beLaAccCardsInit calls = .ok table ∧
      exec mapStep BoundedMap.empty calls = .ok m ∧
      m.lookup = beLaGetAccCardptr table ∧
      table.slots.length = accCardMaxNum ∧
      table.regNum = table.slots.countP Option.isSome ∧
      table.slots.countP Option.isSome ≤ accCardMaxNum ∧
      (∀ (i j : ℕ) (card other : BeCardInner), table.slots[i]? = some (some card) →
        table.slots[j]? = some (some other) → card.path = other.path → i = j) ∧
      ∀ call, WellNamed call.record →
        ∃ ok after, tableCall table call = .ok (ok, after) ∧ Promise table call ok after ∧
          ∀ (j : ℕ) (card : BeCardInner), table.slots[j]? = some (some card) →
            card.path ≠ call.path → after.slots[j]? = some (some card) := by
  obtain ⟨table, m, hrun, hmap, h⟩ := holds_run holds_init hcalls
  have hcount : table.slots.countP Option.isSome = table.cards.length :=
    (length_records table.slots).symm
  refine ⟨table, m, hrun, hmap, funext h.cards.finds, h.slots, ?_, ?_, ?_, ?_⟩
  · rw [hcount, h.count]
  · rw [← h.slots]
    exact List.countP_le_length
  · intro i j card other hcard hother hpath
    exact slot_unique h.cards.nodup hcard hother hpath
  · intro call hnamed
    obtain ⟨after, hcall, -, hpromise⟩ := holds_call h hnamed
    exact ⟨_, after, hcall, hpromise, fun j card => promise_frame hpromise⟩

/-- Two registrations of one path and an unregistration leave an empty table. -/
theorem card_table_is_bounded_map_plain :
    ∃ table, exec tableStep beLaAccCardsInit
        [.reg 1 (AccCard.plain 0x73) [], .reg 2 (AccCard.plain 0x73) [],
          .unreg (AccCard.plain 0x73) []] = .ok table ∧
      table.regNum = table.slots.countP Option.isSome := by
  obtain ⟨table, -, hrun, -, -, -, hcount, -⟩ := @card_table_is_bounded_map
    [.reg 1 (AccCard.plain 0x73) [], .reg 2 (AccCard.plain 0x73) [],
      .unreg (AccCard.plain 0x73) []] (by
        simp only [List.forall_mem_cons, TableCall.record]
        exact ⟨wellNamed_plain, wellNamed_plain, wellNamed_plain, by simp⟩)
  exact ⟨table, hrun, hcount⟩

end BeLa.CardTable
