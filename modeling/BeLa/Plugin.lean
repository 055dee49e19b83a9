import BeLa.Execute
import BeLa.Stops

/-!
The plugin registry `g_acc_plugins` and its hooks. A plugin's context hooks are
those of the three plugins under plugins/: they allocate a zeroed context, the
LiquidIO one with the ssh access of its card. Hooks are pointers and may be null.
-/
namespace BeLa.Plugin

open Numerals Stops Context Execute

def vendorMax : ℕ := 6
def modelMax : ℕ := 7

def accTypeFlow : BitVec 32 := 0x1
def accTypeCrypto : BitVec 32 := 0x2
def accTypeDecrypto : BitVec 32 := 0x4
def accTypeCompress : BitVec 32 := 0x8
def accTypeUncompress : BitVec 32 := 0x16

inductive ContextHook
  | plain
  | liquidio
  deriving DecidableEq, Repr

/-- `acc_plugin_t`; `init` is what the hook returns. -/
structure AccPlugin where
  pfunc : Bool
  init : Option ℤ
  contextInit : Option ContextHook
  contextDestroy : Option ContextHook
  vendor : BitVec 32
  model : BitVec 32
  accType : BitVec 32
  deriving DecidableEq, Repr

def emptyPlugin : AccPlugin := ⟨false, none, none, none, 0, 0, 0⟩

/-- `g_acc_plugins`, by vendor and model. -/
abbrev Registry := ℕ → ℕ → AccPlugin

def Registry.store (registry : Registry) (plugin : AccPlugin) : Registry := fun vendor model =>
  if vendor = plugin.vendor.toNat ∧ model = plugin.model.toNat then plugin
  else registry vendor model

/-- `be_plugin_register`; true is 0. -/
def bePluginRegister (registry : Registry) (plugin : AccPlugin) : Except Stop (Bool × Registry) :=
  if ¬ plugin.pfunc then .error (.assertion .bePluginRegister)
  else if ¬ (plugin.model.toNat < modelMax ∧ 0 < plugin.model.toNat) then
    .error (.assertion .bePluginRegister)
  else if ¬ (plugin.vendor.toNat < vendorMax ∧ 0 < plugin.vendor.toNat) then
    .error (.assertion .bePluginRegister)
  else if (registry plugin.vendor.toNat plugin.model.toNat).pfunc then .ok (false, registry)
  else
    match plugin.init with
    | none => .error .nullCall
    | some ret => if ret ≠ 0 then .ok (false, registry) else .ok (true, registry.store plugin)

def sNetronomePlugin : AccPlugin :=
  ⟨true, some 0, some .plain, some .plain, 1, 1, accTypeFlow ||| accTypeCompress⟩

def sIntelQatPlugin : AccPlugin :=
  ⟨true, some 0, some .plain, some .plain, 3, 5,
    accTypeCrypto ||| accTypeDecrypto ||| accTypeCompress ||| accTypeUncompress⟩

def sLiquidioPlugin : AccPlugin :=
  ⟨true, some 0, some .liquidio, some .liquidio, 4, 6, accTypeFlow⟩

/-- The registry after the constructors of the three plugins have run. -/
def gAccPlugins : Registry :=
  ((Registry.store (fun _ _ => emptyPlugin) sNetronomePlugin).store sIntelQatPlugin).store
    sLiquidioPlugin

/-- The constructors' calls of `be_plugin_register` all succeed and leave this registry. -/
theorem bePluginRegister_startup :
    (do
      let first ← bePluginRegister (fun _ _ => emptyPlugin) sNetronomePlugin
      let second ← bePluginRegister first.2 sIntelQatPlugin
      bePluginRegister second.2 sLiquidioPlugin) = .ok (true, gAccPlugins) := by
  rfl

structure PluginSlot where
  vendor : ℕ
  model : ℕ
  deriving DecidableEq, Repr

/-- `be_plugin_match`: the test that the slot is there is always true. -/
def bePluginMatch (registry : Registry) (vendor model accType : BitVec 32) :
    Except Stop (Option PluginSlot) :=
  if vendorMax ≤ vendor.toNat ∨ modelMax ≤ model.toNat then .error .outOfBounds
  else if (registry vendor.toNat model.toNat).accType &&& accType = accType then
    .ok (some ⟨vendor.toNat, model.toNat⟩)
  else .ok none

/-- The ssh access that the LiquidIO plugin attaches to its contexts. -/
def liquidioRemote : SshRemoteExecute :=
  ⟨"169.254.1.1".toList, "root".toList, "liquidio".toList, 22⟩

/-- A zeroed context, if the allocations succeed. -/
def initContext (hook : ContextHook) (w : World) (card addr : ℕ) : Option AccContext :=
  let zeroed : AccContext := ⟨addr, card, List.replicate (2 * nameSize) 0, 0, none, none⟩
  match hook with
  | .plain => if w.allocContext then some zeroed else none
  | .liquidio =>
    if ¬ w.allocRemote then none
    else if w.allocContext then some { zeroed with sshRemote := some liquidioRemote }
    else none

def bePluginContextInit (registry : Registry) (slot : PluginSlot) (w : World) (card addr : ℕ) :
    Except Stop (Option AccContext) :=
  match (registry slot.vendor slot.model).contextInit with
  | none => .error .nullCall
  | some hook => .ok (initContext hook w card addr)

/-- `be_plugin_context_destory`: the context and what the plugin attached to it are freed. -/
def bePluginContextDestory (registry : Registry) (slot : PluginSlot) (context : AccContext) :
    Except Stop Unit :=
  match (registry slot.vendor slot.model).contextDestroy with
  | none => .error .nullCall
  | some .plain => .ok ()
  | some .liquidio =>
    match context.sshRemote with
    | none => .error (.assertion .accLiquidioContextDestroy)
    | some _ => .ok ()

end BeLa.Plugin
