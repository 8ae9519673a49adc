import CyranoAgent.Contracts.Types
import CyranoAgent.Lib.Dict

/-!
# The registry of plugins

A plugin registers services while it is set up, and returns a disposer; a setup that raises is taken
back. `Setup` is what a plugin may do with the function it registers with. A call without arguments,
such as a disposer, is what it comes to: it returns, or raises.

`Registry.Without` says what is left of a registry without some of its plugins. To load a plugin and
to take it away again leaves everything as it was (`Loads.without`).
-/

namespace CyranoAgent

open Lib

namespace Plugins

variable {σ : Type}

/-- What a registry keeps of a plugin: the names of its services, and its disposer. -/
structure PluginRecord where
  names : List String
  dispose : Except Failure Unit

/-- `Registry`. -/
structure Registry (σ : Type) where
  services : Dict String σ := ∅
  loaded : Dict String PluginRecord := ∅

/-- `Plugin.setup`: it registers services, may go on when it cannot, and returns a disposer or
raises. -/
inductive Setup (σ : Type)
  | done (result : Except Failure (Except Failure Unit))
  | register (name : String) (value : σ) (next : Except Failure Unit → Setup σ)

/-- Run a setup with `register`, from the services and the names registered so far. -/
def Setup.run : Setup σ → Dict String σ → List String →
    Except Failure (Except Failure Unit) × Dict String σ × List String
  | .done result, services, names => (result, services, names)
  | .register name value next, services, names =>
    if name ∈ services.keys then
      (next (.error (.cyrano "DUPLICATE_SERVICE" name))).run services names
    else (next (.ok ())).run (services.set name value) (names ++ [name])

/-- Take services away, the last name first. -/
def popAll (names : List String) (services : Dict String σ) : Dict String σ :=
  names.reverse.foldl (fun services name => services.erase name) services

/-- `Registry.load`. -/
def Registry.load (pluginId : String) (plugin : Setup σ) (R : Registry σ) :
    Except Failure Unit × Registry σ :=
  if pluginId ∈ R.loaded.keys then (.error (.cyrano "DUPLICATE_PLUGIN" pluginId), R)
  else
    match plugin.run R.services [] with
    | (.error failure, services, names) =>
      (.error failure, { R with services := popAll names services })
    | (.ok dispose, services, names) =>
      (.ok (), ⟨services, R.loaded.set pluginId ⟨names, dispose⟩⟩)

/-- `Registry.unload`. -/
def Registry.unload (pluginId : String) (R : Registry σ) : Except Failure Unit × Registry σ :=
  match R.loaded.get? pluginId with
  | none => (.ok (), R)
  | some record => (record.dispose, ⟨popAll record.names R.services, R.loaded.erase pluginId⟩)

/-! ### What is left without some plugins -/

/-- The second registry is the first without some of its plugins and their services. -/
structure Registry.Without (R : Registry σ) (plugins : List (String × PluginRecord))
    (R' : Registry σ) : Prop where
  services : ∀ name, R'.services.get? name =
    if ∃ p ∈ plugins, name ∈ p.2.names then none else R.services.get? name
  loaded : ∀ pluginId, R'.loaded.get? pluginId =
    if pluginId ∈ plugins.map Prod.fst then none else R.loaded.get? pluginId

/-- Registries that hold the same services and plugins. -/
def Registry.Same (R R' : Registry σ) : Prop :=
  (∀ name, R.services.get? name = R'.services.get? name) ∧
    ∀ pluginId, R.loaded.get? pluginId = R'.loaded.get? pluginId

/-- The plugins of a registry that another one does not have. -/
def Registry.added (before R : Registry σ) : List (String × PluginRecord) :=
  R.loaded.entries.filter fun p => p.1 ∉ before.loaded.keys

section

variable {R R' R'' before : Registry σ} {names : List String} {services : Dict String σ}
  {name pluginId : String} {plugins : List (String × PluginRecord)} {record : PluginRecord}

theorem get?_popAll : (popAll names services).get? name =
    if name ∈ names then none else services.get? name := by
  rw [popAll]
  have hfold : ∀ (l : List String) (services : Dict String σ),
      (l.foldl (fun services name => services.erase name) services).get? name =
        if name ∈ l then none else services.get? name := by
    intro l
    induction l with
    | nil => simp
    | cons first l ih =>
      intro services
      rw [List.foldl_cons, ih, Dict.get?_erase]
      by_cases hfirst : name = first <;> simp [hfirst]
  rw [hfold]
  simp only [List.mem_reverse]

/-- Two registries without the same plugins hold the same. -/
theorem Registry.Without.same_iff (h : R.Without plugins R') :
    R'.Same R'' ↔ R.Without plugins R'' := by
  constructor
  · rintro ⟨hservices, hloaded⟩
    exact ⟨fun name => (hservices name).symm.trans (h.services name),
      fun pluginId => (hloaded pluginId).symm.trans (h.loaded pluginId)⟩
  · intro h'
    exact ⟨fun name => (h.services name).trans (h'.services name).symm,
      fun pluginId => (h.loaded pluginId).trans (h'.loaded pluginId).symm⟩

/-- The order of the plugins does not matter. -/
theorem Registry.Without.of_mem_iff {plugins' : List (String × PluginRecord)}
    (h : R.Without plugins R') (hmem : ∀ p, p ∈ plugins' ↔ p ∈ plugins) :
    R.Without plugins' R' where
  services name := by
    rw [h.services]
    simp only [hmem]
  loaded pluginId := by
    rw [h.loaded]
    simp only [List.mem_map, hmem]

theorem Registry.without_nil : R.Without [] R := ⟨fun _ => by simp, fun _ => by simp⟩

/-- To unload a plugin takes it away, whether its disposer returns or raises. -/
theorem Registry.unload_spec (h : R.loaded.get? pluginId = some record) :
    (R.unload pluginId).1 = record.dispose ∧
      R.Without [(pluginId, record)] (R.unload pluginId).2 := by
  rw [Registry.unload, h]
  refine ⟨rfl, fun name => ?_, fun key => ?_⟩
  · rw [get?_popAll]
    simp
  · rw [Dict.get?_erase]
    simp

/-- To take plugins away one after the other. -/
theorem Registry.Without.cons {p : String × PluginRecord} (h : R.Without [p] R')
    (h' : R'.Without plugins R'') : R.Without (p :: plugins) R'' where
  services name := by
    rw [h'.services, h.services, if_congr (List.exists_mem_cons_iff _ _ _) rfl rfl]
    by_cases hp : name ∈ p.2.names <;> by_cases hrest : ∃ q ∈ plugins, name ∈ q.2.names <;>
      simp [hp, hrest]
  loaded key := by
    rw [h'.loaded, h.loaded, List.map_cons, if_congr List.mem_cons rfl rfl]
    by_cases hp : key = p.1 <;> by_cases hrest : key ∈ plugins.map Prod.fst <;> simp [hp, hrest]

theorem Registry.mem_added {p : String × PluginRecord} :
    p ∈ before.added R ↔ R.loaded.get? p.1 = some p.2 ∧ before.loaded.get? p.1 = none := by
  rw [Registry.added, List.mem_filter, ← Dict.get?_eq_some_iff, decide_eq_true_iff,
    ← Dict.get?_eq_none_iff]

/-! ### What loading leaves -/

/-- A setup only adds services, under the names that it adds. -/
theorem Setup.run_spec (plugin : Setup σ) (services : Dict String σ) (names : List String) :
    ∃ new, (plugin.run services names).2.2 = names ++ new ∧ ∀ name, services.get? name =
      if name ∈ new then none else (plugin.run services names).2.1.get? name := by
  induction plugin generalizing services names with
  | done result => exact ⟨[], by simp [Setup.run], fun name => by simp [Setup.run]⟩
  | register first value next ih =>
    rw [Setup.run]
    split_ifs with hfirst
    · exact ih _ services names
    · obtain ⟨new, hnames, hservices⟩ := ih (.ok ()) (services.set first value) (names ++ [first])
      refine ⟨first :: new, ?_, fun name => ?_⟩
      · rw [hnames, List.append_assoc, List.singleton_append]
      by_cases hname : name = first
      · rw [hname, if_pos List.mem_cons_self]
        exact Dict.get?_eq_none_iff.mpr hfirst
      · rw [← Dict.get?_set_of_ne hname, hservices name]
        simp [hname]

/-- The registries that loading plugins leads to, whether or not each load succeeds. -/
inductive Loads (before : Registry σ) : Registry σ → Prop
  | refl : Loads before before
  | load {R : Registry σ} (pluginId : String) (plugin : Setup σ) (h : Loads before R) :
    Loads before (R.load pluginId plugin).2

/-- **Loaded plugins can be taken away**: this leaves what there was before. -/
theorem Loads.without (h : Loads before R) : R.Without (before.added R) before := by
  induction h with
  | refl =>
    have hnone : before.added before = [] := by
      refine List.filter_eq_nil_iff.mpr fun p hp => ?_
      rw [decide_eq_true_eq, not_not]
      exact List.mem_map_of_mem hp
    rw [hnone]
    exact Registry.without_nil
  | @load R pluginId plugin _ ih =>
    rw [Registry.load]
    split_ifs with hloaded
    · exact ih
    obtain ⟨new, hnames, hservices⟩ := plugin.run_spec R.services []
    rcases hrun : plugin.run R.services [] with ⟨_ | dispose, services, names⟩
    · rw [hrun] at hnames hservices
      simp only [List.nil_append] at hnames hservices
      refine ⟨fun name => ?_, ih.loaded⟩
      simp only
      rw [get?_popAll, hnames, ← hservices]
      exact ih.services name
    · rw [hrun] at hnames hservices
      simp only [List.nil_append] at hnames hservices
      have hnew : before.loaded.get? pluginId = none := by
        rw [ih.loaded, Dict.get?_eq_none_iff.mpr hloaded, ite_self]
      have hadded : before.added ⟨services, R.loaded.set pluginId ⟨names, dispose⟩⟩ =
          before.added R ++ [(pluginId, ⟨names, dispose⟩)] := by
        have hkey : pluginId ∉ before.loaded.keys := Dict.get?_eq_none_iff.mp hnew
        rw [Registry.added, Dict.entries_set_of_not_mem hloaded, List.filter_append]
        simp [Registry.added, hkey]
      simp only
      rw [hadded]
      refine ⟨fun name => ?_, fun key => ?_⟩
      · simp only [List.mem_append, List.mem_singleton, or_and_right, exists_or, exists_eq_left]
        rw [ih.services, hservices name, hnames]
        by_cases hold : ∃ p ∈ before.added R, name ∈ p.2.names <;> by_cases hmem : name ∈ new <;>
          simp [hold, hmem]
      · rw [ih.loaded, Dict.get?_set]
        by_cases hkey : key = pluginId
        · simp [hkey, Dict.get?_eq_none_iff.mpr hloaded]
        · have hmem : key ∈ (before.added R ++ [(pluginId, PluginRecord.mk names dispose)]).map
              Prod.fst ↔ key ∈ (before.added R).map Prod.fst := by
            rw [List.map_append, List.mem_append]
            simp [hkey]
          rw [if_neg hkey, if_congr hmem rfl rfl]

end

end Plugins

end CyranoAgent
