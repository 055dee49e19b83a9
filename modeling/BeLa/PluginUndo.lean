import BeLa.Plugin
import BeLa.Runs

/-!
Registering a plugin and taking it out again. `be_plugin_unregister` asks
`be_plugin_destroy` first, which fails whatever the plugin, so that a slot once
filled is never emptied. Registration alone does what it should.
-/
namespace BeLa.PluginUndo

open Stops Plugin Runs

/-- `acc_plugin_t` with its hook `destroy`, as what the hook returns. -/
structure HookedPlugin extends AccPlugin where
  destroy : Option ℤ

def bePluginIsRegisted (registry : Registry) (vendor model : BitVec 32) : Bool :=
  (registry vendor.toNat model.toNat).pfunc

/-- `be_plugin_destroy`: its result, and how often it has called the hook. -/
def bePluginDestroy (_plugin : HookedPlugin) : ℤ × ℕ := (-1, 0)

def clearSlot (registry : Registry) (plugin : AccPlugin) : Registry := fun vendor model =>
  if vendor = plugin.vendor.toNat ∧ model = plugin.model.toNat then emptyPlugin
  else registry vendor model

/-- What `be_plugin_unregister` leaves: whether it returned 0, how often the destroy hook was
called, and the registry. -/
structure Unregistered where
  ok : Bool
  destroyed : ℕ
  registry : Registry

def bePluginUnregister (registry : Registry) (plugin : HookedPlugin) :
    Except Stop Unregistered :=
  if ¬ plugin.pfunc then .error (.assertion .bePluginUnregister)
  else
    let (ret, destroyed) := bePluginDestroy plugin
    if ret ≠ 0 then .ok ⟨false, destroyed, registry⟩
    else if vendorMax ≤ plugin.vendor.toNat ∨ modelMax ≤ plugin.model.toNat then
      .error .outOfBounds
    else if bePluginIsRegisted registry plugin.vendor plugin.model then
      .ok ⟨true, destroyed, clearSlot registry plugin.toAccPlugin⟩
    else .ok ⟨true, destroyed, registry⟩

inductive RegistryCall
  | register (plugin : HookedPlugin)
  | unregister (plugin : HookedPlugin)

/-- The plugin passes the assertions, and its own hooks return 0. -/
structure Proper (plugin : HookedPlugin) : Prop where
  pfunc : plugin.pfunc = true
  model : plugin.model.toNat < modelMax ∧ 0 < plugin.model.toNat
  vendor : plugin.vendor.toNat < vendorMax ∧ 0 < plugin.vendor.toNat
  init : plugin.init = some 0
  destroy : plugin.destroy = some 0

namespace RegistryCall

def plugin : RegistryCall → HookedPlugin
  | register plugin => plugin
  | unregister plugin => plugin

end RegistryCall

def registryStep (registry : Registry) : RegistryCall → Except Stop Registry
  | .register plugin =>
    match bePluginRegister registry plugin.toAccPlugin with
    | .error stop => .error stop
    | .ok (_, registry) => .ok registry
  | .unregister plugin =>
    match bePluginUnregister registry plugin with
    | .error stop => .error stop
    | .ok result => .ok result.registry

structure RegistersWell (registry : Registry) (plugin : HookedPlugin) (ok : Bool)
    (after : Registry) : Prop where
  result : ok = true ↔ bePluginIsRegisted registry plugin.vendor plugin.model = false
  stored : ok = true → after = registry.store plugin.toAccPlugin
  unchanged : ok = false → after = registry

/-- The removal of a registered plugin succeeds, calls its destroy hook once, and empties its
slot, which can be filled again. -/
structure UnregistersWell (registry : Registry) (plugin : HookedPlugin)
    (result : Unregistered) : Prop where
  removed : bePluginIsRegisted registry plugin.vendor plugin.model = true →
    result.ok = true ∧ result.destroyed = 1 ∧
      result.registry = clearSlot registry plugin.toAccPlugin ∧
      ∀ again : HookedPlugin, Proper again → again.vendor = plugin.vendor →
        again.model = plugin.model →
        ∃ after, bePluginRegister result.registry again.toAccPlugin = .ok (true, after)
  unchanged : result.ok = false → result.registry = registry

def Meets (registry : Registry) : RegistryCall → Prop
  | .register plugin => ∃ ok after,
      bePluginRegister registry plugin.toAccPlugin = .ok (ok, after) ∧
        RegistersWell registry plugin ok after
  | .unregister plugin => ∃ result, bePluginUnregister registry plugin = .ok result ∧
      UnregistersWell registry plugin result

def NothingToUndo (registry : Registry) : RegistryCall → Prop
  | .register _ => True
  | .unregister plugin => bePluginIsRegisted registry plugin.vendor plugin.model = false

variable {registry : Registry} {plugin : HookedPlugin}

theorem register_proper (h : Proper plugin) (registry : Registry) :
    bePluginRegister registry plugin.toAccPlugin =
      if bePluginIsRegisted registry plugin.vendor plugin.model then .ok (false, registry)
      else .ok (true, registry.store plugin.toAccPlugin) := by
  unfold bePluginRegister bePluginIsRegisted
  rw [if_neg (not_not.mpr h.pfunc), if_neg (not_not.mpr h.model), if_neg (not_not.mpr h.vendor),
    h.init]
  rfl

/-- Taking a plugin out always fails, and changes nothing. -/
theorem unregister_proper (h : Proper plugin) (registry : Registry) :
    bePluginUnregister registry plugin = .ok ⟨false, 0, registry⟩ := by
  unfold bePluginUnregister bePluginDestroy
  rw [if_neg (not_not.mpr h.pfunc)]
  rfl

theorem register_meets (h : Proper plugin) (registry : Registry) :
    Meets registry (.register plugin) := by
  have hregister := register_proper h registry
  cases hslot : bePluginIsRegisted registry plugin.vendor plugin.model with
  | true =>
    rw [hslot, if_pos rfl] at hregister
    refine ⟨_, _, hregister, ?_, (fun h => by cases h), fun _ => rfl⟩
    exact iff_of_false Bool.false_ne_true (by simp [hslot])
  | false =>
    rw [hslot, if_neg Bool.false_ne_true] at hregister
    exact ⟨_, _, hregister, iff_of_true rfl hslot, fun _ => rfl, fun h => by cases h⟩

/-- The removal does what it should just when there is nothing to remove. -/
theorem unregister_meets_iff (h : Proper plugin) (registry : Registry) :
    Meets registry (.unregister plugin) ↔
      bePluginIsRegisted registry plugin.vendor plugin.model = false := by
  constructor
  · rintro ⟨result, hresult, hwell⟩
    rw [unregister_proper h, Except.ok.injEq] at hresult
    subst hresult
    cases hslot : bePluginIsRegisted registry plugin.vendor plugin.model with
    | false => rfl
    | true => exact absurd (hwell.removed hslot).1 Bool.false_ne_true
  · intro hslot
    refine ⟨_, unregister_proper h registry, ?_, fun _ => rfl⟩
    intro hfilled
    rw [hslot] at hfilled
    cases hfilled

/-- Every call of a run does what it should, just when no call is asked to take out a plugin
that is registered. -/
theorem undo_meets_iff (calls : List RegistryCall) (hproper : ∀ call ∈ calls, Proper call.plugin) :
    Each registryStep Meets (fun _ _ => emptyPlugin) calls ↔
      Each registryStep NothingToUndo (fun _ _ => emptyPlugin) calls := by
  apply each_congr
  intro call hcall registry
  have hplugin := hproper call hcall
  cases call with
  | register plugin => exact iff_of_true (register_meets hplugin registry) trivial
  | unregister plugin => exact unregister_meets_iff hplugin registry

/-- The plugin of `be_netronome_plugin.c`, with a destroy hook that returns 0. -/
def netronome : HookedPlugin := ⟨sNetronomePlugin, some 0⟩

theorem netronome_proper : Proper netronome := by
  constructor <;> decide

/-- A removal from an empty slot, a registration, and a second one that is refused. -/
theorem undo_meets_registrations :
    Each registryStep Meets (fun _ _ => emptyPlugin)
      [.unregister netronome, .register netronome, .register netronome] := by
  refine (undo_meets_iff _ fun call hcall => ?_).mpr
    ⟨rfl, fun _ _ => ⟨trivial, fun _ _ => ⟨trivial, fun _ _ => trivial⟩⟩⟩
  simp only [List.mem_cons, List.not_mem_nil, or_false] at hcall
  rcases hcall with rfl | rfl | rfl <;> exact netronome_proper

/-- A plugin that has been registered cannot be taken out. -/
theorem registered_plugin_stays : ¬ ∀ calls : List RegistryCall,
    (∀ call ∈ calls, Proper call.plugin) →
      Each registryStep Meets (fun _ _ => emptyPlugin) calls := by
  intro hall
  have hmeets := hall [.register netronome, .unregister netronome] (by
    intro call hcall
    simp only [List.mem_cons, List.not_mem_nil, or_false] at hcall
    rcases hcall with rfl | rfl <;> exact netronome_proper)
  have hsecond := (hmeets.2 _ rfl).1
  rw [unregister_meets_iff netronome_proper] at hsecond
  cases hsecond

end BeLa.PluginUndo
