import Llmtrace.Trace.Sanitized

/-! What the plugins add to a trace (`run_hook` and `PluginEffects::merge` in `plugins.rs`, `merge_effects`
    and the hooks of `build_trace` in `trace.rs`). Each plugin is run at the hooks that it names, in the
    order of the configuration, and any of the runs may fail.

    A plugin writes under its own name. Whatever the others give or fail at, the fields there are its
    own, the later hook over the earlier one, and a failure leaves a warning and nothing else. -/

namespace Llmtrace.Plugins
open Schemes Trace

/-- `PluginHook` -/
inductive PluginHook where
  | requestStart
  | responseHeaders
  | responseEnd
  deriving DecidableEq

/-- A configured plugin. -/
structure Plugin where
  name : String
  wasmPath : String
  hooks : List PluginHook

/-- The fields are a JSON object, so their names ascend. -/
structure HookOutput extends Trace.PluginEffects where
  customFields : List (String × Json) := []
  warnings : List String := []
  ordered : Ascending customFields := by decide

/-- What comes of a run of a plugin. -/
inductive Invocation where
  | output (output : HookOutput)
  | silent
  | failed (error : String)

/-- What a plugin gives is added to what came before it. -/
def mergeOutput (effects : HookEffects) (name : String) (output : HookOutput) : HookEffects where
  metadata := if output.customFields.isEmpty then effects.metadata
    else put name (.obj output.customFields) effects.metadata
  tags := effects.tags ++ output.tags
  warnings := effects.warnings ++ output.warnings
  sessionKey := effects.sessionKey.or output.sessionKey
  userId := effects.userId.or output.userId
  userName := effects.userName.or output.userName

section
variable (invoke : Plugin → PluginHook → Invocation) (hook : PluginHook)

/-- The round of a plugin in `run_hook`; an error becomes a warning. -/
def runPlugin (effects : HookEffects) (plugin : Plugin) : HookEffects :=
  if !plugin.hooks.contains hook then effects
  else
    match invoke plugin hook with
    | .output output => mergeOutput effects plugin.name output
    | .silent => effects
    | .failed error => { effects with
        warnings := effects.warnings ++ [s!"{plugin.name} ({plugin.wasmPath}): {error}"] }

/-- `run_hook` -/
def runHook (plugins : List Plugin) : HookEffects := plugins.foldl (runPlugin invoke hook) {}

/-- What a plugin gives at a hook. -/
def given (plugin : Plugin) : Option HookOutput :=
  if plugin.hooks.contains hook then
    match invoke plugin hook with
    | .output output => some output
    | _ => none
  else none

/-- The warnings of a plugin at a hook, its own or the one about its failure. -/
def warned (plugin : Plugin) : List String :=
  if plugin.hooks.contains hook then
    match invoke plugin hook with
    | .output output => output.warnings
    | .silent => []
    | .failed error => [s!"{plugin.name} ({plugin.wasmPath}): {error}"]
  else []

/-- The value that a plugin puts under its name. -/
def fieldsGiven (plugin : Plugin) : Option Json :=
  (((given invoke hook plugin).map HookOutput.customFields).filter fun fields => !fields.isEmpty).map .obj

/-! ### One hook -/

variable {invoke hook} {effects : HookEffects}

theorem runPlugin_eq (effects : HookEffects) (plugin : Plugin) :
    (runPlugin invoke hook effects plugin).tags =
        effects.tags ++ ((given invoke hook plugin).map fun output => output.tags).getD [] ∧
      (runPlugin invoke hook effects plugin).warnings = effects.warnings ++ warned invoke hook plugin ∧
      (runPlugin invoke hook effects plugin).sessionKey =
        effects.sessionKey.or ((given invoke hook plugin).bind fun output => output.sessionKey) := by
  unfold runPlugin given warned
  cases hhook : plugin.hooks.contains hook with
  | false => simp
  | true =>
    cases invoke plugin hook <;> simp [mergeOutput]

/-- A plugin writes under its own name only. -/
theorem fetch_runPlugin (effects : HookEffects) (plugin : Plugin) (key : String) :
    fetch key (runPlugin invoke hook effects plugin).metadata =
      if key = plugin.name then (fieldsGiven invoke hook plugin).or (fetch key effects.metadata)
      else fetch key effects.metadata := by
  unfold runPlugin fieldsGiven given
  cases hhook : plugin.hooks.contains hook with
  | false => simp
  | true =>
    cases hrun : invoke plugin hook with
    | silent => simp
    | failed error => simp
    | output output =>
      simp only [Bool.not_true, Bool.false_eq_true, if_false, if_true, mergeOutput, Option.map_some]
      cases hempty : output.customFields.isEmpty with
      | true => simp [Option.filter, hempty]
      | false =>
        simp only [Bool.false_eq_true, if_false, Option.filter, hempty, Bool.not_false, if_true,
          Option.map_some, Option.some_or]
        exact fetch_put ..

theorem ascending_runPlugin (h : Ascending effects.metadata) (plugin : Plugin) :
    Ascending (runPlugin invoke hook effects plugin).metadata := by
  unfold runPlugin
  split
  · exact h
  split
  · simp only [mergeOutput]
    split
    · exact h
    · exact h.put
  · exact h
  · exact h

theorem foldl_runPlugin (plugins : List Plugin) : ∀ effects : HookEffects,
    (plugins.foldl (runPlugin invoke hook) effects).tags = effects.tags ++ plugins.flatMap (fun plugin =>
        ((given invoke hook plugin).map fun output => output.tags).getD []) ∧
      (plugins.foldl (runPlugin invoke hook) effects).warnings =
        effects.warnings ++ plugins.flatMap (warned invoke hook) ∧
      (plugins.foldl (runPlugin invoke hook) effects).sessionKey = effects.sessionKey.or
        (plugins.findSome? fun plugin => (given invoke hook plugin).bind fun output => output.sessionKey) := by
  induction plugins with
  | nil => simp
  | cons plugin plugins ih =>
    intro effects
    obtain ⟨htags, hwarnings, hkey⟩ := @runPlugin_eq invoke hook effects plugin
    obtain ⟨htags', hwarnings', hkey'⟩ := ih (runPlugin invoke hook effects plugin)
    rw [List.foldl_cons, htags', hwarnings', hkey', htags, hwarnings, hkey]
    refine ⟨by simp, by simp, ?_⟩
    rw [List.findSome?_cons, Option.or_assoc]
    cases (given invoke hook plugin).bind fun output => output.sessionKey <;> rfl

theorem ascending_foldl (plugins : List Plugin) : ∀ {effects : HookEffects}, Ascending effects.metadata →
    Ascending (plugins.foldl (runPlugin invoke hook) effects).metadata := by
  induction plugins with
  | nil => exact id
  | cons plugin plugins ih => exact fun h => ih (ascending_runPlugin h plugin)

/-- Under a name that no plugin has, nothing is written. -/
theorem fetch_foldl_other {key : String} : ∀ {plugins : List Plugin} {effects : HookEffects},
    key ∉ plugins.map Plugin.name →
    fetch key (plugins.foldl (runPlugin invoke hook) effects).metadata = fetch key effects.metadata
  | [], _, _ => rfl
  | plugin :: plugins, effects, h => by
    rw [List.map_cons, List.mem_cons, not_or] at h
    rw [List.foldl_cons, fetch_foldl_other h.2, fetch_runPlugin, if_neg h.1]

theorem fetch_foldl_own {plugin : Plugin} : ∀ {plugins : List Plugin} {effects : HookEffects},
    (plugins.map Plugin.name).Nodup → plugin ∈ plugins →
    fetch plugin.name (plugins.foldl (runPlugin invoke hook) effects).metadata =
      (fieldsGiven invoke hook plugin).or (fetch plugin.name effects.metadata)
  | first :: plugins, effects, hnames, hin => by
    rw [List.map_cons, List.nodup_cons] at hnames
    rw [List.foldl_cons]
    rcases List.mem_cons.mp hin with rfl | hin
    · rw [fetch_foldl_other hnames.1, fetch_runPlugin, if_pos rfl]
    · have hne : plugin.name ≠ first.name := fun heq => hnames.1 (heq ▸ List.mem_map_of_mem hin)
      rw [fetch_foldl_own hnames.2 hin, fetch_runPlugin, if_neg hne]

end

/-! ### All hooks of a trace -/

/-- What stands under a name in the metadata, field by field. -/
def fieldAt (metadata : List (String × Json)) (name field : String) : Option Json :=
  ((fetch name metadata).bind Json.asObject).bind (fetch field)

theorem fetch_extendFields {field : String} : ∀ {fields existing : List (String × Json)}, Ascending fields →
    fetch field (extendFields existing fields) = (fetch field fields).or (fetch field existing)
  | [], _, _ => rfl
  | e :: fields, existing, h => by
    obtain ⟨hfirst, hrest⟩ := List.pairwise_cons.mp h
    change fetch field (extendFields (put e.1 e.2 existing) fields) = _
    rw [fetch_extendFields hrest, fetch_put, fetch]
    by_cases heq : field = e.1
    · rw [if_pos heq, if_pos heq, heq, fetch_of_lt hfirst]
      rfl
    · rw [if_neg heq, if_neg heq]

/-- What a name holds after `value` was merged into it. -/
def mergedValue (existing : Option Json) (value : Json) : Json :=
  match existing, value with
  | some (.obj existing), .obj fields => .obj (extendFields existing fields)
  | _, value => value

theorem mergeField_eq (metadata : List (String × Json)) (name : String) (value : Json) :
    mergeField metadata (name, value) = put name (mergedValue (fetch name metadata) value) metadata := by
  unfold mergeField mergedValue
  cases fetch name metadata with
  | none => rfl
  | some existing => cases existing <;> cases value <;> rfl

theorem fetch_mergeField (metadata : List (String × Json)) (e : String × Json) (key : String) :
    fetch key (mergeField metadata e) =
      if key = e.1 then some (mergedValue (fetch e.1 metadata) e.2) else fetch key metadata := by
  rw [mergeField_eq, fetch_put]

theorem fetch_mergeFields {key : String} : ∀ {given metadata : List (String × Json)}, Ascending given →
    fetch key (given.foldl mergeField metadata) =
      ((fetch key given).map (mergedValue (fetch key metadata))).or (fetch key metadata)
  | [], _, _ => rfl
  | e :: given, metadata, h => by
    obtain ⟨hfirst, hrest⟩ := List.pairwise_cons.mp h
    rw [List.foldl_cons, fetch_mergeFields hrest, fetch_mergeField, fetch]
    by_cases heq : key = e.1
    · rw [if_pos heq, if_pos heq, heq, fetch_of_lt hfirst]
      rfl
    · rw [if_neg heq, if_neg heq]

theorem fetch_mergeWarnings_other {key : String} (h : key ≠ "plugin_warnings") (metadata : List (String × Json))
    (warnings : List String) : fetch key (mergeWarnings metadata warnings) = fetch key metadata := by
  unfold mergeWarnings
  split
  · rfl
  · split
    · rw [fetch_put, if_neg h]
    · rw [fetch_put, if_neg h]
    · rfl

/-- The warnings that stand in the metadata. -/
def metadataWarnings (metadata : List (String × Json)) : List Json :=
  ((fetch "plugin_warnings" metadata).bind Json.asArray).getD []

/-- Warnings can be added: nothing else stands in their place. -/
def WarningsFit (metadata : List (String × Json)) : Prop :=
  ∀ value, fetch "plugin_warnings" metadata = some value → value.isArray = true

theorem mergeWarnings_fit {metadata : List (String × Json)} (h : WarningsFit metadata) (warnings : List String) :
    metadataWarnings (mergeWarnings metadata warnings) = metadataWarnings metadata ++ warnings.map .str ∧
      WarningsFit (mergeWarnings metadata warnings) := by
  unfold mergeWarnings
  split
  · rename_i hempty
    rw [List.isEmpty_iff.mp hempty]
    exact ⟨(List.append_nil _).symm, h⟩
  · split
    · rename_i hnone
      refine ⟨?_, fun value hvalue => ?_⟩
      · rw [metadataWarnings, metadataWarnings, fetch_put, if_pos rfl, hnone]
        rfl
      · rw [fetch_put, if_pos rfl] at hvalue
        cases hvalue
        rfl
    · rename_i existing hsome
      refine ⟨?_, fun value hvalue => ?_⟩
      · rw [metadataWarnings, metadataWarnings, fetch_put, if_pos rfl, hsome]
        rfl
      · rw [fetch_put, if_pos rfl] at hvalue
        cases hvalue
        rfl
    · rename_i value hnot hsome
      have harray := h value hsome
      obtain ⟨items, hitems⟩ := Option.isSome_iff_exists.mp harray
      cases value with
      | arr existing => exact absurd rfl (hnot existing)
      | null | bool _ | int _ | float _ | str _ | obj _ => cases hitems

section
variable {invoke : Plugin → PluginHook → Invocation} {hook : PluginHook} {plugins : List Plugin}
  {metadata : List (String × Json)}

theorem ascending_runHook : Ascending (runHook invoke hook plugins).metadata :=
  ascending_foldl plugins (List.Pairwise.nil : Ascending ({} : HookEffects).metadata)

theorem fetch_mergeHook {key : String} (h : key ≠ "plugin_warnings") :
    fetch key (mergeMetadata metadata (runHook invoke hook plugins)) =
      ((fetch key (runHook invoke hook plugins).metadata).map (mergedValue (fetch key metadata))).or
        (fetch key metadata) := by
  rw [mergeMetadata, fetch_mergeWarnings_other h, fetch_mergeFields ascending_runHook]

theorem fetch_mergeHook_other {key : String} (hwarnings : key ≠ "plugin_warnings")
    (hkey : key ∉ plugins.map Plugin.name) :
    fetch key (mergeMetadata metadata (runHook invoke hook plugins)) = fetch key metadata := by
  rw [fetch_mergeHook hwarnings, runHook, fetch_foldl_other hkey]
  rfl

theorem asObject_mergedValue (existing : Option Json) (fields : List (String × Json)) :
    (mergedValue existing (.obj fields)).asObject =
      some (extendFields ((existing.bind Json.asObject).getD []) fields) ∨
    (existing.bind Json.asObject = none ∧ (mergedValue existing (.obj fields)).asObject = some fields) := by
  cases existing with
  | none => exact .inr ⟨rfl, rfl⟩
  | some value =>
    cases value with
    | obj existing => exact .inl rfl
    | null | bool _ | int _ | float _ | str _ | arr _ => exact .inr ⟨rfl, rfl⟩

/-- What a plugin gives at a hook stands before what was there. -/
theorem fieldAt_mergeHook {plugin : Plugin} (hnames : (plugins.map Plugin.name).Nodup) (hin : plugin ∈ plugins)
    (hwarnings : plugin.name ≠ "plugin_warnings") (field : String) :
    fieldAt (mergeMetadata metadata (runHook invoke hook plugins)) plugin.name field =
      ((given invoke hook plugin).bind fun output => fetch field output.customFields).or
        (fieldAt metadata plugin.name field) := by
  have hempty : fetch plugin.name ({} : HookEffects).metadata = none := rfl
  rw [fieldAt, fetch_mergeHook hwarnings, runHook, fetch_foldl_own hnames hin, hempty, Option.or_none,
    fieldsGiven]
  cases given invoke hook plugin with
  | none => rfl
  | some output =>
    cases hfields : output.customFields with
    | nil => simp [hfields, Option.filter, fetch, fieldAt]
    | cons e fields =>
      simp only [Option.map_some, hfields, Option.filter, List.isEmpty_cons, Bool.not_false, if_true,
        Option.some_or, Option.bind_some]
      have hordered := output.ordered
      rw [hfields] at hordered
      rcases asObject_mergedValue (fetch plugin.name metadata) (e :: fields) with hmerged | ⟨hnone, hmerged⟩
      · rw [hmerged, Option.bind_some, fetch_extendFields hordered, fieldAt]
        cases (fetch plugin.name metadata).bind Json.asObject <;> rfl
      · rw [hmerged, Option.bind_some, fieldAt, hnone, Option.bind_none, Option.or_none]

theorem warnings_mergeHook (hfit : WarningsFit metadata) (hfree : "plugin_warnings" ∉ plugins.map Plugin.name) :
    metadataWarnings (mergeMetadata metadata (runHook invoke hook plugins)) =
        metadataWarnings metadata ++ (plugins.flatMap (warned invoke hook)).map .str ∧
      WarningsFit (mergeMetadata metadata (runHook invoke hook plugins)) := by
  have hsame : fetch "plugin_warnings" ((runHook invoke hook plugins).metadata.foldl mergeField metadata) =
      fetch "plugin_warnings" metadata := by
    rw [fetch_mergeFields ascending_runHook, runHook, fetch_foldl_other hfree]
    rfl
  have hwarned : (runHook invoke hook plugins).warnings = plugins.flatMap (warned invoke hook) :=
    (foldl_runPlugin plugins {}).2.1.trans (List.nil_append _)
  have hfit' : WarningsFit ((runHook invoke hook plugins).metadata.foldl mergeField metadata) := by
    intro value hvalue
    exact hfit value (hsame ▸ hvalue)
  obtain ⟨hall, hstays⟩ := mergeWarnings_fit hfit' (runHook invoke hook plugins).warnings
  rw [mergeMetadata]
  refine ⟨?_, hstays⟩
  rw [hall, hwarned, metadataWarnings, hsame, metadataWarnings]

/-! ### All hooks -/

theorem fieldAt_hooks {plugin : Plugin} (hnames : (plugins.map Plugin.name).Nodup) (hin : plugin ∈ plugins)
    (hwarnings : plugin.name ≠ "plugin_warnings") (field : String) :
    ∀ (hooks : List PluginHook) (metadata : List (String × Json)),
      fieldAt (hooks.foldl (fun metadata hook => mergeMetadata metadata (runHook invoke hook plugins)) metadata)
          plugin.name field =
        (hooks.reverse.findSome? fun hook =>
          (given invoke hook plugin).bind fun output => fetch field output.customFields).or
            (fieldAt metadata plugin.name field)
  | [], _ => rfl
  | hook :: hooks, metadata => by
    rw [List.foldl_cons, fieldAt_hooks hnames hin hwarnings field hooks, fieldAt_mergeHook hnames hin hwarnings,
      ← Option.or_assoc, List.reverse_cons, List.findSome?_append, List.findSome?_singleton]

theorem fetch_hooks_other {key : String} (hwarnings : key ≠ "plugin_warnings")
    (hkey : key ∉ plugins.map Plugin.name) : ∀ (hooks : List PluginHook) (metadata : List (String × Json)),
      fetch key (hooks.foldl (fun metadata hook => mergeMetadata metadata (runHook invoke hook plugins)) metadata) =
        fetch key metadata
  | [], _ => rfl
  | hook :: hooks, metadata => by
    rw [List.foldl_cons, fetch_hooks_other hwarnings hkey hooks, fetch_mergeHook_other hwarnings hkey]

theorem warnings_hooks (hfree : "plugin_warnings" ∉ plugins.map Plugin.name) : ∀ (hooks : List PluginHook)
    {metadata : List (String × Json)}, WarningsFit metadata →
    metadataWarnings
        (hooks.foldl (fun metadata hook => mergeMetadata metadata (runHook invoke hook plugins)) metadata) =
      metadataWarnings metadata ++ (hooks.flatMap fun hook => plugins.flatMap (warned invoke hook)).map .str
  | [], _, _ => by simp
  | hook :: hooks, metadata, hfit => by
    obtain ⟨hall, hfit'⟩ := @warnings_mergeHook invoke hook _ _ hfit hfree
    rw [List.foldl_cons, warnings_hooks hfree hooks hfit', hall, List.flatMap_cons, List.map_append,
      List.append_assoc]

end

/-- An event under a list of plugins. -/
def withPlugins (t : BuildInput) (plugins : List Plugin) (invoke : Plugin → PluginHook → Invocation) :
    BuildInput :=
  { t with
    hasPlugins := !plugins.isEmpty
    requestStart := runHook invoke .requestStart plugins
    responseHeaders := runHook invoke .responseHeaders plugins
    responseEnd := runHook invoke .responseEnd plugins }

/-- The hooks that are run for an event. -/
def hooksOf (t : BuildInput) (plugins : List Plugin) : List PluginHook :=
  if t.event.runPlugins && !plugins.isEmpty then
    if t.event.status.isSome then [.requestStart, .responseHeaders, .responseEnd] else [.requestStart]
  else []

theorem effects_withPlugins (t : BuildInput) (plugins : List Plugin) (invoke : Plugin → PluginHook → Invocation) :
    (withPlugins t plugins invoke).effects =
      (hooksOf t plugins).map fun hook => runHook invoke hook plugins := by
  unfold BuildInput.effects hooksOf
  by_cases hrun : (t.event.runPlugins && !plugins.isEmpty) = true
  · rw [if_pos hrun, withPlugins, if_pos hrun]
    by_cases hstatus : t.event.status.isSome = true
    · rw [if_pos hstatus, if_pos hstatus]
      rfl
    · rw [if_neg hstatus, if_neg hstatus]
      rfl
  · rw [if_neg hrun, withPlugins, if_neg hrun]
    rfl

/-- The effects that decide the session are the same ones. -/
theorem session_effects (t : BuildInput) :
    t.session.effects = t.effects.map HookEffects.toPluginEffects := by
  unfold TraceInput.effects BuildInput.effects
  by_cases hrun : (t.event.runPlugins && t.hasPlugins) = true
  · rw [if_pos hrun, BuildInput.session, if_pos hrun]
    by_cases hstatus : t.event.status.isSome = true
    · rw [if_pos hstatus, if_pos hstatus]
      rfl
    · rw [if_neg hstatus, if_neg hstatus]
      rfl
  · rw [if_neg hrun, BuildInput.session, if_neg hrun]
    rfl

theorem mergeFirst_eq : ∀ (first : Option String) (effects : List (Option String)),
    mergeFirst first effects = first.or (effects.findSome? id)
  | some _, _ => by simp [mergeFirst]
  | none, [] => rfl
  | none, effect :: effects => by
    rw [mergeFirst, mergeFirst_eq effect effects, List.findSome?_cons, id]
    cases effect <;> rfl

/-! ### Two plugins -/

/-- A plugin for the samples. -/
def tierPlugin : Plugin := ⟨"tier", "tier.wasm", [.requestStart, .responseEnd]⟩

/-- A plugin that fails. -/
def brokenPlugin : Plugin := ⟨"broken", "broken.wasm", [.requestStart]⟩

/-- One plugin corrects itself at the end, the other one traps. -/
def sampleInvoke (plugin : Plugin) (hook : PluginHook) : Invocation :=
  if plugin.name = "tier" then
    .output {
      customFields := [("plan", .str (if hook = .responseEnd then "annual" else "trial"))]
      ordered := List.pairwise_singleton _ _ }
  else .failed "unreachable"

/-- A trace that was answered, with nothing else in it. -/
def answeredInput : BuildInput where
  event := { id := 7, upstreamUrl := "", status := some 200, runPlugins := true }

/-- CORRECT: at all hooks of a trace together, each plugin writes the fields under its own name and
    nobody else does, later hooks over earlier ones; all warnings are kept, in order; and the event
    itself, then the first plugin at the first hook, decides the session. -/
theorem plugins_write_their_own (t : BuildInput) (plugins : List Plugin)
    (invoke : Plugin → PluginHook → Invocation) (hnames : (plugins.map Plugin.name).Nodup)
    (hfree : "plugin_warnings" ∉ plugins.map Plugin.name)
    (hfit : WarningsFit (objectOrEmpty t.event.pluginMetadata)) :
    (∀ plugin ∈ plugins, ∀ field, fieldAt (withPlugins t plugins invoke).metadata plugin.name field =
        ((hooksOf t plugins).reverse.findSome? fun hook =>
          (given invoke hook plugin).bind fun output => fetch field output.customFields).or
            (fieldAt (objectOrEmpty t.event.pluginMetadata) plugin.name field)) ∧
      (∀ key, key ≠ "plugin_warnings" → key ∉ plugins.map Plugin.name →
        fetch key (withPlugins t plugins invoke).metadata =
          fetch key (objectOrEmpty t.event.pluginMetadata)) ∧
      metadataWarnings (withPlugins t plugins invoke).metadata =
        metadataWarnings (objectOrEmpty t.event.pluginMetadata) ++
          ((hooksOf t plugins).flatMap fun hook => plugins.flatMap (warned invoke hook)).map .str ∧
      (withPlugins t plugins invoke).session.suppliedTags = t.event.tags ++
        ((hooksOf t plugins).flatMap fun hook => plugins.flatMap fun plugin =>
          ((given invoke hook plugin).map fun output => output.tags).getD []) ∧
      (withPlugins t plugins invoke).session.sessionKey = t.event.sessionKey.or
        ((hooksOf t plugins).findSome? fun hook => plugins.findSome? fun plugin =>
          (given invoke hook plugin).bind fun output => output.sessionKey) := by
  have hmetadata : (withPlugins t plugins invoke).metadata =
      (hooksOf t plugins).foldl (fun metadata hook => mergeMetadata metadata (runHook invoke hook plugins))
        (objectOrEmpty t.event.pluginMetadata) := by
    rw [BuildInput.metadata, effects_withPlugins, List.foldl_map]
    rfl
  have hsession : (withPlugins t plugins invoke).session.effects =
      (hooksOf t plugins).map fun hook => (runHook invoke hook plugins).toPluginEffects := by
    rw [session_effects, effects_withPlugins, List.map_map]
    rfl
  refine ⟨fun plugin hin field => ?_, fun key hwarnings hkey => ?_, ?_, ?_, ?_⟩
  · rw [hmetadata]
    exact fieldAt_hooks hnames hin (fun heq => hfree (heq ▸ List.mem_map_of_mem hin)) field _ _
  · rw [hmetadata]
    exact fetch_hooks_other hwarnings hkey _ _
  · rw [hmetadata]
    exact warnings_hooks hfree _ hfit
  · rw [TraceInput.suppliedTags, hsession, List.flatMap_map]
    congr 2
    funext hook
    exact (foldl_runPlugin plugins {}).1.trans (List.nil_append _)
  · rw [TraceInput.sessionKey, mergeFirst_eq, hsession, List.map_map, List.findSome?_map]
    congr 2
    funext hook
    exact (foldl_runPlugin plugins {}).2.2

theorem plugins_write_their_own_broken :
    let built := withPlugins answeredInput [tierPlugin, brokenPlugin] sampleInvoke
    fieldAt built.metadata "tier" "plan" = some (.str "annual") ∧
      metadataWarnings built.metadata = [.str "broken (broken.wasm): unreachable"] := by
  intro built
  have hfit : WarningsFit (objectOrEmpty answeredInput.event.pluginMetadata) := by
    rintro value ⟨⟩
  obtain ⟨hfields, -, hwarnings, -, -⟩ := plugins_write_their_own answeredInput [tierPlugin, brokenPlugin]
    sampleInvoke (by decide) (by decide) hfit
  refine ⟨(hfields tierPlugin List.mem_cons_self "plan").trans ?_, hwarnings.trans ?_⟩
  · rfl
  · rfl

end Llmtrace.Plugins
