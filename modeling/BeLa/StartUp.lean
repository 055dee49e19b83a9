import BeLa.Message
import BeLa.RuleRegistry

/-!
Start-up. The functions that `module_init` makes constructors fill the tables of
the daemon before `main` runs, and one that does not return 0 ends the process.
The linker orders those of one level. Whatever the order, start-up of plugins that
have an `init` hook succeeds just if no two of them claim one slot and each hook
returns 0, and then the tables are the same.
-/
namespace BeLa.StartUp

open Stops Runs Plugin Message RuleRegistry

/-- `s_acc_rule_be`, `s_msg_handle` and `g_acc_plugins`. -/
structure Statics where
  rules : List AccRuleBe
  handles : List (Option Handler)
  plugins : Registry

def Statics.zeroed : Statics where
  rules := emptyTable
  handles := List.replicate Framing.accUnixMaxType none
  plugins := fun _ _ => emptyPlugin

/-- What `module_init` is used on: `acc_ovs_rule_be_register`, with the addresses of its three
functions, `acc_unix_server_msg_init`, and `be_plugin_register` of a plugin. -/
inductive Module
  | ovsRule (accOvsAddRules accOvsRemoveRules accOvsFlushRules : ℕ)
  | serverMsg
  | bePlugin (plugin : AccPlugin)

/-- Call the function of a module; true is 0. -/
def Module.call (s : Statics) : Module → Except Stop (Bool × Statics)
  | .ovsRule add remove flush =>
    let (ret, rules) := accRuleBeRegister (some (accRuleOvs add remove flush)) s.rules
    .ok (ret = 0, { s with rules := rules })
  | .serverMsg => .ok (true, { s with handles := sMsgHandle })
  | .bePlugin plugin =>
    match bePluginRegister s.plugins plugin with
    | .error stop => .error stop
    | .ok (ok, plugins) => .ok (ok, { s with plugins := plugins })

inductive Death
  /-- `MAKE_SELF_DEAD` -/
  | exited
  | stopped (stop : Stop)
  deriving DecidableEq

/-- The constructor that `module_init` defines for a module. -/
def moduleInit (s : Statics) (m : Module) : Except Death Statics :=
  match m.call s with
  | .error stop => .error (.stopped stop)
  | .ok (ok, s') => if ok then .ok s' else .error .exited

/-- The modules of the daemon, with the plugins it is linked with. -/
def program (add remove flush : ℕ) (plugins : List AccPlugin) : List Module :=
  .ovsRule add remove flush :: .serverMsg :: plugins.map .bePlugin

def started (add remove flush : ℕ) (plugins : List AccPlugin) : Statics where
  rules := accRuleOvs add remove flush :: List.replicate 31 .zero
  handles := sMsgHandle
  plugins := plugins.foldl Registry.store (fun _ _ => emptyPlugin)

/-- A plugin passes the assertions of `be_plugin_register`, and has an `init` hook. -/
structure Registrable (plugin : AccPlugin) : Prop where
  pfunc : plugin.pfunc = true
  model : plugin.model.toNat < modelMax ∧ 0 < plugin.model.toNat
  vendor : plugin.vendor.toNat < vendorMax ∧ 0 < plugin.vendor.toNat
  init : plugin.init.isSome = true

def slotOf (plugin : AccPlugin) : ℕ × ℕ := (plugin.vendor.toNat, plugin.model.toNat)

structure Fine (plugins : List AccPlugin) : Prop where
  slots : (plugins.map slotOf).Nodup
  inits : ∀ plugin ∈ plugins, plugin.init = some 0

/-! One constructor. -/

def pluginOf : Module → Option AccPlugin
  | .bePlugin plugin => some plugin
  | _ => none

def ruleOf : Module → Option AccRuleBe
  | .ovsRule add remove flush => some (accRuleOvs add remove flush)
  | _ => none

def isServerMsg : Module → Bool
  | .serverMsg => true
  | _ => false

def registered (plugins : List AccPlugin) : Registry :=
  plugins.foldl Registry.store (fun _ _ => emptyPlugin)

def after (ms : List Module) : Statics where
  rules := ms.filterMap ruleOf ++ List.replicate (32 - (ms.filterMap ruleOf).length) .zero
  handles := if ms.any isServerMsg then sMsgHandle
    else List.replicate Framing.accUnixMaxType none
  plugins := registered (ms.filterMap pluginOf)

theorem after_nil : after [] = .zeroed := rfl

theorem registered_append (plugins : List AccPlugin) (plugin : AccPlugin) :
    registered (plugins ++ [plugin]) = (registered plugins).store plugin := by
  simp [registered]

/-- A slot is taken just if one of the plugins claims it. -/
theorem registered_pfunc {plugins : List AccPlugin} (h : ∀ plugin ∈ plugins, Registrable plugin)
    (vendor model : ℕ) :
    (registered plugins vendor model).pfunc = true ↔ (vendor, model) ∈ plugins.map slotOf := by
  induction plugins using List.reverseRecOn with
  | nil => simp [registered, emptyPlugin]
  | append_singleton plugins plugin ih =>
    have hfront : ∀ other ∈ plugins, Registrable other := fun other hother =>
      h other (List.mem_append_left _ hother)
    have hlast : plugin.pfunc = true := (h plugin (by simp)).pfunc
    rw [registered_append, Registry.store]
    by_cases hslot : vendor = plugin.vendor.toNat ∧ model = plugin.model.toNat
    · simp [hslot, hlast, slotOf]
    · rw [if_neg hslot, ih hfront, List.map_append, List.mem_append, List.map_singleton,
        List.mem_singleton]
      refine (or_iff_left fun heq => hslot ?_).symm
      exact Prod.mk.inj heq

theorem register_registrable {plugin : AccPlugin} (h : Registrable plugin) (registry : Registry) :
    bePluginRegister registry plugin =
      if (registry plugin.vendor.toNat plugin.model.toNat).pfunc ∨ plugin.init ≠ some 0 then
        .ok (false, registry)
      else .ok (true, registry.store plugin) := by
  obtain ⟨ret, hret⟩ := Option.isSome_iff_exists.mp h.init
  unfold bePluginRegister
  rw [if_neg (not_not.mpr h.pfunc), if_neg (not_not.mpr h.model), if_neg (not_not.mpr h.vendor),
    hret]
  by_cases hslot : (registry plugin.vendor.toNat plugin.model.toNat).pfunc
  · simp [hslot]
  · by_cases hzero : ret = 0
    · simp [hslot, hzero]
    · simp [hslot, hzero]

theorem Fine.front {front back : List AccPlugin} (h : Fine (front ++ back)) : Fine front where
  slots := by
    have hslots := h.slots
    rw [List.map_append] at hslots
    exact hslots.of_append_left
  inits := fun plugin hplugin => h.inits plugin (List.mem_append_left _ hplugin)

theorem fine_append_iff {front : List AccPlugin} {plugin : AccPlugin} (h : Fine front) :
    Fine (front ++ [plugin]) ↔
      slotOf plugin ∉ front.map slotOf ∧ plugin.init = some 0 := by
  constructor
  · intro hfine
    have hslots := hfine.slots
    rw [List.map_append, List.map_singleton, ← List.concat_eq_append, List.nodup_concat] at hslots
    exact ⟨hslots.1, hfine.inits plugin (by simp)⟩
  · rintro ⟨hnew, hinit⟩
    refine ⟨?_, ?_⟩
    · rw [List.map_append, List.map_singleton, ← List.concat_eq_append, List.nodup_concat]
      exact ⟨hnew, h.slots⟩
    · intro other hother
      rcases List.mem_append.mp hother with hfront | hlast
      · exact h.inits other hfront
      · rw [List.mem_singleton.mp hlast]
        exact hinit

/-- The constructor of a plugin. -/
theorem plugin_step {pre : List Module} {plugin : AccPlugin} (hplugin : Registrable plugin)
    (hpre : ∀ other ∈ pre.filterMap pluginOf, Registrable other)
    (hfine : Fine (pre.filterMap pluginOf)) :
    (Fine (pre.filterMap pluginOf ++ [plugin]) →
      moduleInit (after pre) (.bePlugin plugin) = .ok (after (pre ++ [.bePlugin plugin]))) ∧
    (¬ Fine (pre.filterMap pluginOf ++ [plugin]) →
      moduleInit (after pre) (.bePlugin plugin) = .error .exited) := by
  have htaken := registered_pfunc hpre plugin.vendor.toNat plugin.model.toNat
  have hregister := register_registrable hplugin (after pre).plugins
  rw [fine_append_iff hfine]
  constructor
  · rintro ⟨hnew, hinit⟩
    rw [if_neg (by simpa [hinit, after, slotOf] using (not_congr htaken).mpr hnew)] at hregister
    have hafter : after (pre ++ [.bePlugin plugin]) =
        { after pre with plugins := (after pre).plugins.store plugin } := by
      simp [after, ruleOf, isServerMsg, pluginOf, registered, List.filterMap_cons]
    simp only [moduleInit, Module.call, hregister, hafter, if_true]
  · intro hnot
    have hrefused : ((after pre).plugins plugin.vendor.toNat plugin.model.toNat).pfunc = true ∨
        plugin.init ≠ some 0 := by
      by_contra hneither
      rw [not_or, not_not] at hneither
      exact hnot ⟨fun hmem => hneither.1 (htaken.mpr hmem), hneither.2⟩
    rw [if_pos hrefused] at hregister
    simp [moduleInit, Module.call, hregister]

/-- The constructor of the rule back end. -/
theorem ovsRule_step {pre : List Module} (add remove flush : ℕ)
    (hpre : pre.filterMap ruleOf = []) :
    moduleInit (after pre) (.ovsRule add remove flush) =
      .ok (after (pre ++ [.ovsRule add remove flush])) := by
  set be := accRuleOvs add remove flush with hbe
  have hadmitted : Admitted emptyTable be := (admitted_iff PrefixTables.filled_empty).mpr
    ⟨List.cons_ne_nil _ _, List.not_mem_nil, by decide⟩
  have hregister : accRuleBeRegister (some be) emptyTable = (0, emptyTable.set 0 be) :=
    register_admitted PrefixTables.filled_empty hadmitted
  have hempty : (after pre).rules = emptyTable := by
    rw [after, hpre]
    rfl
  have hafter : after (pre ++ [.ovsRule add remove flush]) =
      { after pre with rules := emptyTable.set 0 be } := by
    simp [after, ruleOf, isServerMsg, pluginOf, List.filterMap_cons, hpre, ← hbe]
    rfl
  simp [moduleInit, Module.call, hempty, ← hbe, hregister, hafter]

/-- The constructor of the message handlers. -/
theorem serverMsg_step (pre : List Module) :
    moduleInit (after pre) .serverMsg = .ok (after (pre ++ [.serverMsg])) := by
  simp [moduleInit, Module.call, after, ruleOf, isServerMsg, pluginOf, List.filterMap_cons]

/-- The constructors after the given ones. -/
theorem exec_after {pre ms : List Module}
    (hrules : ((pre ++ ms).filterMap ruleOf).length ≤ 1)
    (hplugins : ∀ plugin ∈ (pre ++ ms).filterMap pluginOf, Registrable plugin)
    (hfine : Fine (pre.filterMap pluginOf)) :
    (Fine ((pre ++ ms).filterMap pluginOf) →
      exec moduleInit (after pre) ms = .ok (after (pre ++ ms))) ∧
    (¬ Fine ((pre ++ ms).filterMap pluginOf) →
      exec moduleInit (after pre) ms = .error .exited) := by
  induction ms generalizing pre with
  | nil =>
    rw [List.append_nil]
    exact ⟨fun _ => rfl, fun hnot => absurd hfine hnot⟩
  | cons m ms ih =>
    have hassoc : pre ++ m :: ms = pre ++ [m] ++ ms := by simp
    rw [hassoc] at hrules hplugins ⊢
    have hfront : ∀ plugin ∈ pre.filterMap pluginOf, Registrable plugin := fun plugin hplugin =>
      hplugins plugin (by
        rw [List.filterMap_append, List.filterMap_append]
        exact List.mem_append_left _ (List.mem_append_left _ hplugin))
    -- a constructor that returns leaves the rest to the induction hypothesis
    have hnext : moduleInit (after pre) m = .ok (after (pre ++ [m])) →
        exec moduleInit (after pre) (m :: ms) = exec moduleInit (after (pre ++ [m])) ms :=
      exec_cons_of_ok
    cases m with
    | ovsRule add remove flush =>
      have hnone : pre.filterMap ruleOf = [] := by
        have hone : [Module.ovsRule add remove flush].filterMap ruleOf =
            [accRuleOvs add remove flush] := rfl
        rw [List.filterMap_append, List.filterMap_append, hone, List.length_append,
          List.length_append, List.length_singleton] at hrules
        exact List.eq_nil_of_length_eq_zero (by omega)
      rw [hnext (ovsRule_step add remove flush hnone)]
      exact ih hrules hplugins (by simpa [pluginOf, List.filterMap_cons] using hfine)
    | serverMsg =>
      rw [hnext (serverMsg_step pre)]
      exact ih hrules hplugins (by simpa [pluginOf, List.filterMap_cons] using hfine)
    | bePlugin plugin =>
      have hfilter : (pre ++ [Module.bePlugin plugin]).filterMap pluginOf =
          pre.filterMap pluginOf ++ [plugin] := by
        simp [pluginOf]
      have hplugin : Registrable plugin := hplugins plugin (by
        rw [List.filterMap_append, hfilter]
        simp)
      obtain ⟨hok, hexit⟩ := plugin_step hplugin hfront hfine
      by_cases hlonger : Fine (pre.filterMap pluginOf ++ [plugin])
      · rw [hnext (hok hlonger)]
        exact ih hrules hplugins (hfilter ▸ hlonger)
      · have hnever : ¬ Fine ((pre ++ [Module.bePlugin plugin] ++ ms).filterMap pluginOf) := by
          rw [List.filterMap_append, hfilter]
          exact fun h => hlonger h.front
        exact ⟨fun h => absurd h hnever, fun _ => exec_cons_of_error (hexit hlonger)⟩

/-! Any order of the constructors. -/

theorem Fine.perm {plugins plugins' : List AccPlugin} (h : Fine plugins)
    (hperm : plugins.Perm plugins') : Fine plugins' where
  slots := (hperm.map slotOf).nodup_iff.mp h.slots
  inits := fun plugin hplugin => h.inits plugin (hperm.mem_iff.mpr hplugin)

/-- Plugins of different slots may be stored in any order. -/
theorem registered_perm {plugins plugins' : List AccPlugin} (h : (plugins.map slotOf).Nodup)
    (hperm : plugins.Perm plugins') : registered plugins = registered plugins' := by
  refine hperm.foldl_eq' (fun first hfirst second hsecond registry => ?_) _
  by_cases hsame : first = second
  · rw [hsame]
  · have hslots : slotOf first ≠ slotOf second := fun heq =>
      hsame (List.inj_on_of_nodup_map h hfirst hsecond heq)
    funext vendor model
    simp only [Registry.store]
    split_ifs with hone htwo
    · exact absurd (Prod.ext (htwo.1.symm.trans hone.1) (htwo.2.symm.trans hone.2)) hslots
    · rfl
    · rfl
    · rfl

theorem after_perm {add remove flush : ℕ} {plugins : List AccPlugin} {order : List Module}
    (horder : order.Perm (program add remove flush plugins)) :
    order.filterMap ruleOf = [accRuleOvs add remove flush] ∧ order.any isServerMsg = true ∧
      (order.filterMap pluginOf).Perm plugins := by
  have hplugins : (program add remove flush plugins).filterMap pluginOf = plugins := by
    have hsome : pluginOf ∘ Module.bePlugin = some := rfl
    rw [program, List.filterMap_cons, List.filterMap_cons, List.filterMap_map, hsome]
    exact List.filterMap_some
  have hrules : (program add remove flush plugins).filterMap ruleOf =
      [accRuleOvs add remove flush] := by
    have hnone : ruleOf ∘ Module.bePlugin = fun _ => none := rfl
    rw [program, List.filterMap_cons, List.filterMap_cons, List.filterMap_map, hnone,
      List.filterMap_eq_nil_iff.mpr fun _ _ => rfl]
    rfl
  refine ⟨?_, ?_, ?_⟩
  · have hperm := horder.filterMap ruleOf
    rw [hrules] at hperm
    exact List.perm_singleton.mp hperm
  · rw [List.any_eq_true]
    exact ⟨.serverMsg, horder.mem_iff.mpr (by simp [program]), rfl⟩
  · have hperm := horder.filterMap pluginOf
    rwa [hplugins] at hperm

def daemonPlugins : List AccPlugin := [sNetronomePlugin, sIntelQatPlugin, sLiquidioPlugin]

theorem daemonPlugins_registrable : ∀ plugin ∈ daemonPlugins, Registrable plugin := by
  intro plugin hplugin
  simp only [daemonPlugins, List.mem_cons, List.not_mem_nil, or_false] at hplugin
  rcases hplugin with rfl | rfl | rfl
  all_goals exact ⟨rfl, by decide, by decide, rfl⟩

theorem daemonPlugins_fine : Fine daemonPlugins where
  slots := by decide
  inits := by decide

/-- Whatever the order of the constructors, start-up succeeds just if the plugins are fine, and
then leaves the same tables; otherwise the process exits. -/
theorem start_up {add remove flush : ℕ} {plugins : List AccPlugin} {order : List Module}
    (hplugins : ∀ plugin ∈ plugins, Registrable plugin)
    (horder : order.Perm (program add remove flush plugins)) :
    (Fine plugins →
      exec moduleInit .zeroed order = .ok (started add remove flush plugins)) ∧
    (¬ Fine plugins → exec moduleInit .zeroed order = .error .exited) := by
  obtain ⟨hrules, hserver, hperm⟩ := after_perm horder
  have hnone : Fine (([] : List Module).filterMap pluginOf) :=
    ⟨List.nodup_nil, fun plugin hplugin => absurd hplugin List.not_mem_nil⟩
  obtain ⟨hok, hexit⟩ := @exec_after [] order (by simp [hrules])
    (fun plugin hplugin => hplugins plugin (hperm.mem_iff.mp hplugin)) hnone
  rw [after_nil, List.nil_append] at hok hexit
  constructor
  · intro hfine
    rw [hok (hfine.perm hperm.symm)]
    have hsame := registered_perm (hfine.perm hperm.symm).slots hperm
    simp only [after, hrules, hserver, hsame]
    rfl
  · exact fun hnot => hexit fun hfine => hnot (hfine.perm hperm)

/-- The daemon with its constructors in the reverse order. -/
theorem start_up_daemon :
    exec moduleInit .zeroed (program 1 2 3 daemonPlugins).reverse =
      .ok (started 1 2 3 daemonPlugins) :=
  (start_up daemonPlugins_registrable (List.reverse_perm _)).1 daemonPlugins_fine

example (add remove flush : ℕ) : (started add remove flush daemonPlugins).plugins = gAccPlugins :=
  rfl

end BeLa.StartUp
