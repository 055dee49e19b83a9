import BeLa.Plugin
import BeLa.Runs
import Mathlib.Data.Finset.SDiff
import Mathlib.Data.Finset.Insert

/-!
Matching a card with a plugin. A plugin is registered for a set of acceleration
types and a card asks for a set of them, both given as the OR of their values.
The value of `ACC_TYPE_UNCOMPRESS` shares bits with two other types, and a slot
that nobody registered reads as a plugin for no type at all; outside these two
cases the test of the masks decides what it is for.
-/
namespace BeLa.PluginMatch

open Stops Runs Plugin

/-- The types of `enum tag_acc_type`; the closing `ACC_TYPE_MAX` is none of them. -/
inductive AccType
  | flow
  | crypto
  | decrypto
  | compress
  | uncompress
  deriving DecidableEq, Repr

namespace AccType

def value : AccType → BitVec 32
  | .flow => accTypeFlow
  | .crypto => accTypeCrypto
  | .decrypto => accTypeDecrypto
  | .compress => accTypeCompress
  | .uncompress => accTypeUncompress

def all : List AccType := [.flow, .crypto, .decrypto, .compress, .uncompress]

end AccType

def orOf (masks : List (BitVec 32)) : BitVec 32 := masks.foldr (· ||| ·) 0

def maskOf (types : Finset AccType) : BitVec 32 :=
  orOf ((AccType.all.filter (· ∈ types)).map AccType.value)

/-- A mask has all bits of an OR exactly when it has all bits of both sides. -/
theorem covers_or {w : ℕ} (m a b : BitVec w) :
    m &&& (a ||| b) = a ||| b ↔ m &&& a = a ∧ m &&& b = b := by
  constructor
  · intro h
    have hbit : ∀ i, (a.getLsbD i || b.getLsbD i) = true → m.getLsbD i = true := fun i hi => by
      have hboth := congrArg (fun x => x.getLsbD i) h
      simp only [BitVec.getLsbD_and, BitVec.getLsbD_or, hi, Bool.and_true] at hboth
      exact hboth
    constructor
    · refine BitVec.eq_of_getLsbD_eq fun i _ => ?_
      cases ha : a.getLsbD i with
      | false => simp [ha]
      | true => simp [ha, hbit i (by simp [ha])]
    · refine BitVec.eq_of_getLsbD_eq fun i _ => ?_
      cases hb : b.getLsbD i with
      | false => simp [hb]
      | true => simp [hb, hbit i (by simp [hb])]
  · rintro ⟨ha, hb⟩
    refine BitVec.eq_of_getLsbD_eq fun i _ => ?_
    rw [← ha, ← hb]
    simp only [BitVec.getLsbD_and, BitVec.getLsbD_or]
    cases m.getLsbD i <;> simp

theorem covers_orOf (m : BitVec 32) (masks : List (BitVec 32)) :
    m &&& orOf masks = orOf masks ↔ ∀ mask ∈ masks, m &&& mask = mask := by
  induction masks with
  | nil => simp [orOf]
  | cons mask masks ih =>
    rw [List.forall_mem_cons, ← ih]
    exact covers_or m mask (orOf masks)

/-- The OR of a set has the bits of its own types, and with `ACC_TYPE_UNCOMPRESS` those of
`ACC_TYPE_CRYPTO` and `ACC_TYPE_DECRYPTO` too. -/
theorem covers_value_iff (types : Finset AccType) (type : AccType) :
    maskOf types &&& type.value = type.value ↔
      type ∈ types ∨ (.uncompress ∈ types ∧ (type = .crypto ∨ type = .decrypto)) := by
  by_cases hflow : AccType.flow ∈ types <;> by_cases hcrypto : AccType.crypto ∈ types <;>
    by_cases hdecrypto : AccType.decrypto ∈ types <;>
    by_cases hcompress : AccType.compress ∈ types <;>
    by_cases huncompress : AccType.uncompress ∈ types <;> cases type <;>
    simp [maskOf, orOf, AccType.all, AccType.value, accTypeFlow, accTypeCrypto, accTypeDecrypto,
      accTypeCompress, accTypeUncompress, hflow, hcrypto, hdecrypto, hcompress, huncompress]

/-- The test of the masks compares the sets, up to the overlap. -/
theorem covers_maskOf_iff (S T : Finset AccType) :
    maskOf S &&& maskOf T = maskOf T ↔
      T ⊆ S ∨ (.uncompress ∈ S ∧ T \ S ⊆ {.crypto, .decrypto}) := by
  have htypes : maskOf S &&& maskOf T = maskOf T ↔ ∀ type ∈ T, type ∈ S ∨
      (.uncompress ∈ S ∧ (type = .crypto ∨ type = .decrypto)) := by
    have hall : ∀ type : AccType, type ∈ AccType.all := fun type => by cases type <;> decide
    rw [maskOf.eq_def T, covers_orOf]
    simp [covers_value_iff, hall]
  rw [htypes]
  constructor
  · intro h
    by_cases huncompress : AccType.uncompress ∈ S
    · refine .inr ⟨huncompress, fun type htype => ?_⟩
      obtain ⟨hin, hnot⟩ := Finset.mem_sdiff.mp htype
      simpa using ((h type hin).resolve_left hnot).2
    · exact .inl fun type htype => (h type htype).resolve_right fun hright => huncompress hright.1
  · intro h type htype
    by_cases hin : type ∈ S
    · exact .inl hin
    · rcases h with hsub | ⟨huncompress, hsub⟩
      · exact .inl (hsub htype)
      · exact .inr ⟨huncompress, by simpa using hsub (Finset.mem_sdiff.mpr ⟨htype, hin⟩)⟩

/-- A plugin given to `be_plugin_register`, with the set of types that its mask stands for. -/
structure Registration where
  plugin : AccPlugin
  types : Finset AccType
  mask : plugin.accType = maskOf types

structure RegistryLog where
  registry : Registry
  registered : ℕ → ℕ → Option (Finset AccType)

def startRegistry : RegistryLog := ⟨fun _ _ => emptyPlugin, fun _ _ => none⟩

/-- A call of `be_plugin_register`, noted when it returns 0. -/
def registerStep (log : RegistryLog) (reg : Registration) : Except Stop RegistryLog :=
  match bePluginRegister log.registry reg.plugin with
  | .error stop => .error stop
  | .ok (false, registry) => .ok ⟨registry, log.registered⟩
  | .ok (true, registry) =>
    .ok ⟨registry, fun vendor model =>
      if vendor = reg.plugin.vendor.toNat ∧ model = reg.plugin.model.toNat then some reg.types
      else log.registered vendor model⟩

/-- Each slot has the mask of the plugin registered for it, or is empty. -/
def Recorded (log : RegistryLog) : Prop :=
  ∀ vendor model, (log.registry vendor model).accType =
    maskOf ((log.registered vendor model).getD ∅)

/-- Registering changes nothing when it fails, and stores the plugin otherwise. -/
theorem bePluginRegister_cases {registry registry' : Registry} {plugin : AccPlugin} {ok : Bool}
    (h : bePluginRegister registry plugin = .ok (ok, registry')) :
    (ok = false ∧ registry' = registry) ∨ (ok = true ∧ registry' = registry.store plugin) := by
  unfold bePluginRegister at h
  split at h
  · cases h
  · split at h
    · cases h
    · split at h
      · cases h
      · split at h
        · cases h
          exact .inl ⟨rfl, rfl⟩
        · split at h
          · cases h
          · split at h
            · cases h
              exact .inl ⟨rfl, rfl⟩
            · cases h
              exact .inr ⟨rfl, rfl⟩

theorem recorded_start : Recorded startRegistry := fun _ _ => rfl

theorem recorded_step {log log' : RegistryLog} {reg : Registration} (hlog : Recorded log)
    (h : registerStep log reg = .ok log') : Recorded log' := by
  unfold registerStep at h
  split at h
  · cases h
  · rename_i registry hreg
    cases h
    obtain ⟨-, rfl⟩ | ⟨hok, -⟩ := bePluginRegister_cases hreg
    · exact hlog
    · cases hok
  · rename_i registry hreg
    cases h
    obtain ⟨hok, -⟩ | ⟨-, rfl⟩ := bePluginRegister_cases hreg
    · cases hok
    · intro vendor model
      unfold Registry.store
      dsimp only
      split
      · exact reg.mask
      · exact hlog vendor model

theorem recorded_run {log : RegistryLog} {regs : List Registration}
    (h : exec registerStep startRegistry regs = .ok log) : Recorded log :=
  (along_iff_reached _ _).mp (along_of_step (fun _ _ _ => recorded_step) regs recorded_start) _ _
    (List.prefix_refl regs) h

/-- The set that a card asks for keeps clear of the overlap and of the empty slots. -/
def Decided (registered : Option (Finset AccType)) (T : Finset AccType) : Prop :=
  match registered with
  | none => T ≠ ∅
  | some S => .uncompress ∉ S ∨ T ⊆ S ∨ ¬ T \ S ⊆ {.crypto, .decrypto}

theorem match_some_iff {registry : Registry} {vendor model : BitVec 32} {accType : BitVec 32}
    (hvendor : vendor.toNat < vendorMax) (hmodel : model.toNat < modelMax) :
    (∃ slot, bePluginMatch registry vendor model accType = .ok (some slot)) ↔
      (registry vendor.toNat model.toNat).accType &&& accType = accType := by
  have hin : ¬ (vendorMax ≤ vendor.toNat ∨ modelMax ≤ model.toNat) := by omega
  unfold bePluginMatch
  rw [if_neg hin]
  split <;> simp_all

/-- A card gets a plugin just when one with the types it asks for has been registered for its
vendor and model, for exactly the requests that keep clear. -/
theorem match_iff_registered_iff {regs : List Registration} {log : RegistryLog}
    (h : exec registerStep startRegistry regs = .ok log) {vendor model : BitVec 32}
    (hvendor : vendor.toNat < vendorMax) (hmodel : model.toNat < modelMax) (T : Finset AccType) :
    ((∃ slot, bePluginMatch log.registry vendor model (maskOf T) = .ok (some slot)) ↔
      ∃ S, log.registered vendor.toNat model.toNat = some S ∧ T ⊆ S) ↔
      Decided (log.registered vendor.toNat model.toNat) T := by
  rw [match_some_iff hvendor hmodel, recorded_run h vendor.toNat model.toNat, covers_maskOf_iff]
  unfold Decided
  cases log.registered vendor.toNat model.toNat with
  | none => simp
  | some S =>
    simp only [Option.getD_some, Option.some.injEq, exists_eq_left']
    tauto

/-- A Netronome card that asks for flows is matched when its plugin is registered. -/
theorem match_netronome :
    ∃ log, exec registerStep startRegistry [⟨sNetronomePlugin, {.flow, .compress}, by decide⟩] =
        .ok log ∧
      ∃ slot, bePluginMatch log.registry 1 1 (maskOf {.flow}) = .ok (some slot) := by
  refine ⟨_, rfl, ?_⟩
  have hdecided := @match_iff_registered_iff
    [⟨sNetronomePlugin, {.flow, .compress}, by decide⟩] _ rfl 1 1 (by decide) (by decide) {.flow}
  refine (hdecided.mpr (.inr (.inl (by decide)))).mpr ⟨_, rfl, by decide⟩

/-- A card of a vendor without plugins that asks for no type is matched with the empty slot. -/
theorem empty_slot_matched :
    ¬ ∀ (regs : List Registration) (log : RegistryLog) (vendor model : BitVec 32)
      (T : Finset AccType), exec registerStep startRegistry regs = .ok log →
      vendor.toNat < vendorMax → model.toNat < modelMax →
      ((∃ slot, bePluginMatch log.registry vendor model (maskOf T) = .ok (some slot)) ↔
        ∃ S, log.registered vendor.toNat model.toNat = some S ∧ T ⊆ S) := by
  intro hall
  have hmatched := hall [⟨sNetronomePlugin, {.flow, .compress}, by decide⟩] _ 2 2 ∅ rfl
    (by decide) (by decide)
  obtain ⟨S, hnone, -⟩ := hmatched.mp ⟨⟨2, 2⟩, rfl⟩
  cases hnone

end BeLa.PluginMatch
