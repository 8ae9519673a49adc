import CyranoAgent.Lib.Outcome
import CyranoAgent.Plugins.Registry

/-!
# Starting the components of a composition

`start_components` starts components one after the other, in the order that `resolve_config` gives,
each by its factory. When a factory is missing or raises, the handles that were started are closed
and the plugins that were loaded are unloaded, the last one first. A factory may do to the registry
what it likes; a closer or a disposer does not get the registry.

The clean-up ends with the first closer or disposer that raises. `rolledBack_iff` says when it is
complete all the same.
-/

namespace CyranoAgent

open Lib

namespace Plugins

/-! ### The order of the components -/

/-- `ComponentSpec`. -/
structure ComponentSpec where
  name : String
  dependsOn : List String := []

/-- The marks of the names, and the order so far. -/
structure Ordering where
  state : String → ℕ := fun _ => 0
  order : List String := []

/-- `visit` of `_topo_order`, which calls itself at most `limit` deep. -/
def visit (specs : List ComponentSpec) : ℕ → Ordering → String → Except Failure Ordering
  | 0, _, _ => .error (.python "RecursionError" "maximum recursion depth exceeded")
  | limit + 1, s, name =>
    if s.state name = 1 then .error (.cyrano "PLUGIN_CYCLE" name)
    else if s.state name = 2 then .ok s
    else
      match specs.find? fun spec => spec.name = name with
      | none => .error (.python "StopIteration" "")
      | some spec => do
        let s ← spec.dependsOn.foldlM (visit specs limit)
          { s with state := Function.update s.state name 1 }
        return ⟨Function.update s.state name 2, s.order ++ [name]⟩

/-- `_topo_order`. -/
def topoOrder (limit : ℕ) (specs : List ComponentSpec) : Except Failure (List String) := do
  specs.forM fun spec => spec.dependsOn.forM fun dep =>
    if dep ∈ specs.map (·.name) then .ok ()
    else .error (.cyrano "UNKNOWN_COMPONENT" (spec.name ++ " depends on unconfigured " ++ dep))
  let s ← (specs.map (·.name)).foldlM (visit specs limit) {}
  return s.order

/-- The names in order are different, and marked. -/
def Ordering.Valid (s : Ordering) : Prop := s.order.Nodup ∧ ∀ name ∈ s.order, s.state name = 2

/-- What a visit leaves: a valid order, and the marks of the names that it comes from. -/
structure Ordering.Onward (s s' : Ordering) : Prop where
  valid : s.Valid → s'.Valid
  gray : ∀ name, s.state name = 1 → s'.state name = 1

section

variable {specs : List ComponentSpec} {limit : ℕ} {s s' : Ordering} {name : String}
  {names order : List String}

theorem Ordering.Onward.foldlM {f : Ordering → String → Except Failure Ordering}
    (hf : ∀ s s' name, f s name = .ok s' → s.Onward s') (h : names.foldlM f s = .ok s') :
    s.Onward s' := by
  induction names generalizing s with
  | nil =>
    obtain rfl := Except.ok.inj h
    exact ⟨id, fun _ => id⟩
  | cons name names ih =>
    rw [List.foldlM_cons, except_bind_eq_ok] at h
    obtain ⟨next, hnext, hrest⟩ := h
    have hfirst := hf _ _ _ hnext
    have hlast := ih hrest
    exact ⟨hlast.valid ∘ hfirst.valid, fun name => hlast.gray name ∘ hfirst.gray name⟩

theorem visit_onward (h : visit specs limit s name = .ok s') : s.Onward s' := by
  induction limit generalizing s s' name with
  | zero => cases h
  | succ limit ih =>
    rw [visit] at h
    split_ifs at h with hgray hblack
    · obtain rfl := Except.ok.inj h
      exact ⟨id, fun _ => id⟩
    split at h
    · cases h
    · obtain ⟨next, hnext, h⟩ := except_bind_eq_ok.mp h
      obtain rfl := Except.ok.inj h
      obtain ⟨hvalid, hkept⟩ := Ordering.Onward.foldlM (fun s s' name => ih) hnext
      refine ⟨fun ⟨hnodup, hmarked⟩ => ?_, fun other hother => ?_⟩
      · obtain ⟨hnodup', hmarked'⟩ := hvalid ⟨hnodup, fun other hmem => by
          have hne : other ≠ name := fun heq => hblack (heq ▸ hmarked other hmem)
          exact (Function.update_of_ne hne _ _).trans (hmarked other hmem)⟩
        -- the name is gray until its dependencies have been visited, so that none of them adds it
        have hnew : name ∉ next.order := fun hmem => by
          have hstill := hkept name (Function.update_self _ _ _)
          rw [hmarked' name hmem] at hstill
          cases hstill
        have hconcat := hnodup'.concat hnew
        rw [List.concat_eq_append] at hconcat
        refine ⟨hconcat, fun other hmem => ?_⟩
        obtain hmem | hmem := List.mem_append.mp hmem
        · have hne : other ≠ name := fun heq => hnew (heq ▸ hmem)
          exact (Function.update_of_ne hne _ _).trans (hmarked' other hmem)
        · rw [List.mem_singleton.mp hmem]
          exact Function.update_self _ _ _
      · have hne : other ≠ name := fun heq => hgray (heq ▸ hother)
        have hstill := hkept other ((Function.update_of_ne hne _ _).trans hother)
        exact (Function.update_of_ne hne _ _).trans hstill

/-- **Each component comes once.** -/
theorem nodup_topoOrder (h : topoOrder limit specs = .ok order) : order.Nodup := by
  obtain ⟨-, -, h⟩ := except_bind_eq_ok.mp h
  obtain ⟨s, hs, h⟩ := except_bind_eq_ok.mp h
  obtain rfl := Except.ok.inj h
  have honward := Ordering.Onward.foldlM (fun s s' name => visit_onward) hs
  exact (honward.valid ⟨List.nodup_nil, by simp⟩).1

end

/-! ### Starting -/

/-- What `resolve_config` gives: the components in order, each of them once. -/
structure ResolvedComposition where
  order : List String
  nodup : order.Nodup

/-- The composition of an order that has been found. -/
def ResolvedComposition.ofSpecs {limit : ℕ} {specs : List ComponentSpec} {order : List String}
    (h : topoOrder limit specs = .ok order) : ResolvedComposition := ⟨order, nodup_topoOrder h⟩

/-- A handle, with its closer if it has one. -/
structure Handle where
  close : Option (Except Failure Unit) := none
  deriving DecidableEq

/-- The closer of a handle raises. -/
def Handle.Raises (handle : Handle) : Prop := ∃ failure, handle.close = some (.error failure)

variable {σ : Type}

/-- The factories, by the names of their components. -/
abbrev Factories (σ : Type) := String → Option (Registry σ → Except Failure Handle × Registry σ)

/-- Where the start of components ends: it fails, or all are started. -/
structure Startup (σ : Type) where
  failure : Option Failure
  started : Dict String Handle
  registry : Registry σ

/-- The loop that starts components, from those started so far. -/
def startFrom (factories : Factories σ) :
    List String → Dict String Handle → Registry σ → Startup σ
  | [], started, R => ⟨none, started, R⟩
  | name :: order, started, R =>
    match factories name with
    | none =>
      ⟨some (.cyrano "MISSING_FACTORY" ("no factory bound for " ++ name)), started, R⟩
    | some factory =>
      match factory R with
      | (.error failure, R) => ⟨some failure, started, R⟩
      | (.ok handle, R) => startFrom factories order (started.set name handle) R

/-- Close handles with `_safe_close` up to the first that raises: the names of those closed, and how
this ends. -/
def closeAll : List (String × Handle) → List String × Except Failure Unit
  | [] => ([], .ok ())
  | (name, handle) :: rest =>
    match handle.close with
    | none => closeAll rest
    | some (.error failure) => ([name], .error failure)
    | some (.ok ()) => (name :: (closeAll rest).1, (closeAll rest).2)

/-- Unload plugins up to the first whose disposer raises. -/
def unloadAll : List String → Registry σ → Except Failure Unit × Registry σ
  | [], R => (.ok (), R)
  | pluginId :: rest, R =>
    match R.unload pluginId with
    | (.error failure, R) => (.error failure, R)
    | (.ok (), R) => unloadAll rest R

/-- What `start_components` does: what it returns or raises, the names of the handles that it
closes, and the registry that it leaves. -/
structure StartResult (σ : Type) where
  outcome : Except Failure (Dict String Handle)
  closed : List String
  registry : Registry σ

/-- The handlers of a failed start. -/
def cleanUp (before : Registry σ) (started : Dict String Handle) (R : Registry σ)
    (failure : Failure) : StartResult σ :=
  match closeAll started.entries.reverse with
  | (closed, .error failure) => ⟨.error failure, closed, R⟩
  | (closed, .ok ()) =>
    let unloaded := unloadAll ((before.added R).map Prod.fst).reverse R
    ⟨unloaded.1 >>= fun _ => .error failure, closed, unloaded.2⟩

/-- `start_components`. -/
def startComponents (composition : ResolvedComposition) (factories : Factories σ)
    (registry : Option (Registry σ)) : StartResult σ :=
  let before := registry.getD {}
  let s := startFrom factories composition.order ∅ before
  match s.failure with
  | none => ⟨.ok s.started, [], s.registry⟩
  | some failure => cleanUp before s.started s.registry failure

/-! ### Closing and unloading -/

/-- The names of the handles that have a closer. -/
def closable (handles : List (String × Handle)) : List String :=
  (handles.filter fun e => e.2.close ≠ none).map Prod.fst

theorem closable_eq_nil_iff {handles : List (String × Handle)} :
    closable handles = [] ↔ ∀ e ∈ handles, e.2.close = none := by
  simp [closable]

section

variable {handles : List (String × Handle)} {R R' : Registry σ} {p : String × PluginRecord}
  {plugins : List (String × PluginRecord)}

/-- **All handles are closed** when none that raises is followed by one with a closer. -/
theorem closeAll_eq_closable_iff : (closeAll handles).1 = closable handles ↔
    handles.Pairwise fun e e' => e.2.Raises → e'.2.close = none := by
  induction handles with
  | nil => simp [closeAll, closable]
  | cons e handles ih =>
    obtain ⟨name, handle⟩ := e
    rw [List.pairwise_cons, closeAll]
    rcases hclose : handle.close with _ | failure | _
    · have hskip : closable ((name, handle) :: handles) = closable handles := by
        simp [closable, hclose]
      simp [hskip, ih, Handle.Raises, hclose]
    · have hcons : closable ((name, handle) :: handles) = name :: closable handles := by
        simp [closable, hclose]
      have hraises : handle.Raises := ⟨failure, hclose⟩
      simp only [hcons, List.cons.injEq, true_and, eq_comm (a := []), closable_eq_nil_iff, hraises,
        true_imp_iff]
      refine ⟨fun hnone => ⟨hnone, List.pairwise_of_forall_mem_list ?_⟩, And.left⟩
      exact fun e _ e' he' _ => hnone e' he'
    · have hcons : closable ((name, handle) :: handles) = name :: closable handles := by
        simp [closable, hclose]
      simp [hcons, ih, Handle.Raises, hclose]

theorem closeAll_eq_ok_iff : (closeAll handles).2 = .ok () ↔ ∀ e ∈ handles, ¬e.2.Raises := by
  induction handles with
  | nil => simp [closeAll]
  | cons e handles ih =>
    obtain ⟨name, handle⟩ := e
    rw [List.forall_mem_cons, ← ih, closeAll]
    rcases hclose : handle.close with _ | failure | _ <;> simp [Handle.Raises, hclose]

/-- A plugin leaves the others loaded when it is unloaded. -/
theorem loaded_after (hR : R.Without [p] R') (hnodup : ((p :: plugins).map Prod.fst).Nodup)
    (hloaded : ∀ q ∈ p :: plugins, R.loaded.get? q.1 = some q.2) :
    ∀ q ∈ plugins, R'.loaded.get? q.1 = some q.2 := by
  intro q hq
  rw [List.map_cons, List.nodup_cons] at hnodup
  have hne : q.1 ∉ [p].map Prod.fst := by
    rw [List.map_singleton, List.mem_singleton]
    exact fun heq => hnodup.1 (heq ▸ List.mem_map_of_mem hq)
  rw [hR.loaded, if_neg hne]
  exact hloaded q (List.mem_cons_of_mem _ hq)

/-- **All plugins are unloaded** when no disposer but the last one raises. -/
theorem unloadAll_spec (hloaded : ∀ q ∈ plugins, R.loaded.get? q.1 = some q.2)
    (hnodup : (plugins.map Prod.fst).Nodup)
    (hreturn : plugins.Pairwise fun q _ => q.2.dispose = .ok ()) :
    R.Without plugins (unloadAll (plugins.map Prod.fst) R).2 := by
  induction plugins generalizing R with
  | nil => exact Registry.without_nil
  | cons p plugins ih =>
    obtain ⟨hdispose, hR⟩ := Registry.unload_spec (hloaded p List.mem_cons_self)
    have hrest := loaded_after hR hnodup hloaded
    rw [List.map_cons, unloadAll]
    rcases hunload : R.unload p.1 with ⟨failure | _, R'⟩
    · -- the disposer raises, and nothing is left to unload
      rw [hunload] at hdispose hR
      obtain rfl : plugins = [] := by
        refine List.eq_nil_iff_forall_not_mem.mpr fun q hq => ?_
        rw [(List.pairwise_cons.mp hreturn).1 q hq] at hdispose
        cases hdispose
      exact hR
    · rw [hunload] at hR hrest
      exact hR.cons (ih hrest (List.nodup_cons.mp hnodup).2 (List.pairwise_cons.mp hreturn).2)

/-- Plugins that are gone have been unloaded one after the other. -/
theorem pairwise_of_unloadAll (hloaded : ∀ q ∈ plugins, R.loaded.get? q.1 = some q.2)
    (hnodup : (plugins.map Prod.fst).Nodup)
    (hgone : ∀ q ∈ plugins, (unloadAll (plugins.map Prod.fst) R).2.loaded.get? q.1 = none) :
    plugins.Pairwise fun q _ => q.2.dispose = .ok () := by
  induction plugins generalizing R with
  | nil => exact .nil
  | cons p plugins ih =>
    obtain ⟨hdispose, hR⟩ := Registry.unload_spec (hloaded p List.mem_cons_self)
    have hrest := loaded_after hR hnodup hloaded
    rw [List.map_cons, unloadAll] at hgone
    rcases hunload : R.unload p.1 with ⟨failure | _, R'⟩
    · rw [hunload] at hgone hrest
      obtain rfl : plugins = [] := by
        refine List.eq_nil_iff_forall_not_mem.mpr fun q hq => ?_
        have hstill := (hrest q hq).symm.trans (hgone q (List.mem_cons_of_mem _ hq))
        cases hstill
      exact List.pairwise_singleton _ _
    · rw [hunload] at hgone hrest hdispose
      refine List.pairwise_cons.mpr ⟨fun _ _ => hdispose.symm, ?_⟩
      exact ih hrest (List.nodup_cons.mp hnodup).2 fun q hq => hgone q (List.mem_cons_of_mem _ hq)

end

/-! ### What a failed start leaves -/

/-- The handles that the factories start, in order. -/
def starts (factories : Factories σ) : List String → Registry σ → List (String × Handle)
  | [], _ => []
  | name :: order, R =>
    match factories name with
    | none => []
    | some factory =>
      match factory R with
      | (.error _, _) => []
      | (.ok handle, R) => (name, handle) :: starts factories order R

/-- The registry that the factories leave, up to the first that is missing or fails. -/
def reached (factories : Factories σ) : List String → Registry σ → Registry σ
  | [], R => R
  | name :: order, R =>
    match factories name with
    | none => R
    | some factory =>
      match factory R with
      | (.error _, R) => R
      | (.ok _, R) => reached factories order R

/-- Every handle that was started has been closed once, the last one first, and the registry holds
what it held before. -/
structure RolledBack (composition : ResolvedComposition) (factories : Factories σ)
    (before : Registry σ) (result : StartResult σ) : Prop where
  closed : result.closed = closable (starts factories composition.order before).reverse
  restored : result.registry.Same before

/-- The clean-up gets to its end, or fails with the last thing that it has to do; and the factories
have kept what the registry held. -/
structure CleansUp (composition : ResolvedComposition) (factories : Factories σ)
    (before : Registry σ) : Prop where
  /-- No handle with a closer was started before one whose closer raises. -/
  closers : (starts factories composition.order before).Pairwise fun e e' =>
    e'.2.Raises → e.2.close = none
  /-- Where a closer raises, no plugin has been added. -/
  nothingAdded : (∃ e ∈ starts factories composition.order before, e.2.Raises) →
    before.added (reached factories composition.order before) = []
  /-- Of the disposers of the plugins added, none but that of the first raises. -/
  disposers : (before.added (reached factories composition.order before)).Pairwise fun _ p =>
    p.2.dispose = .ok ()
  kept : (reached factories composition.order before).Without
    (before.added (reached factories composition.order before)) before

section

variable {composition : ResolvedComposition} {factories : Factories σ} {order : List String}
  {started : Dict String Handle} {R before : Registry σ} {registry : Option (Registry σ)}
  {failure : Failure}

/-- The handles of the loop are those that the factories start. -/
theorem entries_startFrom (hnodup : order.Nodup) (hnew : ∀ name ∈ order, name ∉ started.keys) :
    (startFrom factories order started R).started.entries =
      started.entries ++ starts factories order R := by
  induction order generalizing started R with
  | nil => simp [startFrom, starts]
  | cons name order ih =>
    rw [List.nodup_cons] at hnodup
    rw [List.forall_mem_cons] at hnew
    rw [startFrom, starts]
    rcases factories name with _ | factory
    · simp
    rcases hfactory : factory R with ⟨failure | handle, R'⟩
    · simp [hfactory]
    simp only [hfactory]
    have hset : (started.set name handle).entries = started.entries ++ [(name, handle)] :=
      Dict.entries_set_of_not_mem hnew.1
    rw [ih hnodup.2, hset, List.append_assoc, List.singleton_append]
    intro other hother hmem
    rw [Dict.keys, hset, List.map_append, List.mem_append] at hmem
    obtain hmem | hmem := hmem
    · exact hnew.2 other hother hmem
    · obtain rfl : other = name := by simpa using hmem
      exact hnodup.1 hother

theorem registry_startFrom :
    (startFrom factories order started R).registry = reached factories order R := by
  induction order generalizing started R with
  | nil => rfl
  | cons name order ih =>
    rw [startFrom, reached]
    rcases factories name with _ | factory
    · rfl
    rcases hfactory : factory R with ⟨failure | handle, R'⟩ <;> simp only [hfactory]
    exact ih

/-- **The plugins are unloaded** if no disposer but that of the first added raises, and this leaves
what there was if it was kept. -/
theorem unloadAll_same_iff :
    (unloadAll ((before.added R).map Prod.fst).reverse R).2.Same before ↔
      ((before.added R).Pairwise fun _ p => p.2.dispose = .ok ()) ∧
        R.Without (before.added R) before := by
  have hloaded : ∀ p ∈ (before.added R).reverse, R.loaded.get? p.1 = some p.2 := fun p hp =>
    (Registry.mem_added.mp (List.mem_reverse.mp hp)).1
  have hnodup : ((before.added R).reverse.map Prod.fst).Nodup := by
    rw [List.map_reverse, List.nodup_reverse]
    exact (List.filter_sublist.map Prod.fst).nodup R.loaded.nodup
  have hreverse : ((before.added R).reverse.Pairwise fun p _ => p.2.dispose = .ok ()) ↔
      (before.added R).Pairwise fun _ p => p.2.dispose = .ok () := List.pairwise_reverse
  rw [← hreverse, ← List.map_reverse]
  have hmem : ∀ p, p ∈ before.added R ↔ p ∈ (before.added R).reverse := fun p =>
    List.mem_reverse.symm
  constructor
  · intro hsame
    have hreturn := pairwise_of_unloadAll hloaded hnodup fun p hp => by
      rw [hsame.2]
      exact (Registry.mem_added.mp (List.mem_reverse.mp hp)).2
    have hwithout := unloadAll_spec hloaded hnodup hreturn
    exact ⟨hreturn, (hwithout.same_iff.mp hsame).of_mem_iff hmem⟩
  · rintro ⟨hreturn, hkept⟩
    have hwithout := unloadAll_spec hloaded hnodup hreturn
    exact hwithout.same_iff.mpr (hkept.of_mem_iff fun p => (hmem p).symm)

/-- A registry that holds the same has no plugin added. -/
theorem Registry.Same.added_eq_nil (h : R.Same before) : before.added R = [] := by
  refine List.eq_nil_iff_forall_not_mem.mpr fun p hp => ?_
  obtain ⟨hsome, hnone⟩ := Registry.mem_added.mp hp
  rw [h.2, hnone] at hsome
  cases hsome

/-- **When a failed start is undone**: exactly when nothing that its clean-up runs raises too early,
and the factories have kept what the registry held. -/
theorem rolledBack_iff
    (h : (startComponents composition factories registry).outcome = .error failure) :
    RolledBack composition factories (registry.getD {})
        (startComponents composition factories registry) ↔
      CleansUp composition factories (registry.getD {}) := by
  generalize hbefore : registry.getD {} = before
  have hentries : (startFrom factories composition.order ∅ before).started.entries = _ :=
    entries_startFrom composition.nodup fun _ _ => List.not_mem_nil
  rw [startComponents, hbefore] at h ⊢
  rcases hfailure : (startFrom factories composition.order ∅ before).failure with _ | first
  · simp [hfailure] at h
  have hempty : (∅ : Dict String Handle).entries = [] := rfl
  simp only [cleanUp]
  rw [hentries, hempty, List.nil_append, registry_startFrom]
  have hclosers : (closeAll (starts factories composition.order before).reverse).1 =
      closable (starts factories composition.order before).reverse ↔
        (starts factories composition.order before).Pairwise fun e e' =>
          e'.2.Raises → e.2.close = none := closeAll_eq_closable_iff.trans List.pairwise_reverse
  have hok : (closeAll (starts factories composition.order before).reverse).2 = .ok () ↔ _ :=
    closeAll_eq_ok_iff
  simp only [List.mem_reverse] at hok
  rcases hclose : closeAll (starts factories composition.order before).reverse with
    ⟨closed, failure' | _⟩ <;> rw [hclose] at hclosers hok
  · -- a closer raises, and the plugins stay
    have hraises : ∃ e ∈ starts factories composition.order before, e.2.Raises := by
      by_contra hnone
      exact absurd (hok.mpr fun e he hraise => hnone ⟨e, he, hraise⟩) (by simp)
    constructor
    · rintro ⟨hclosed, hsame⟩
      have hadded := hsame.added_eq_nil
      refine ⟨hclosers.mp hclosed, fun _ => hadded, ?_, ?_⟩
      · rw [hadded]
        exact .nil
      · rw [hadded]
        exact Registry.without_nil.same_iff.mp hsame
    · rintro ⟨hclosed, hadded, -, hkept⟩
      refine ⟨hclosers.mpr hclosed, ?_⟩
      rw [hadded hraises] at hkept
      exact Registry.without_nil.same_iff.mpr hkept
  · -- the plugins are unloaded, up to a disposer that raises
    have hnone := hok.mp rfl
    have hsame := @unloadAll_same_iff σ (reached factories composition.order before) before
    constructor
    · rintro ⟨hclosed, hrestored⟩
      obtain ⟨hdisposers, hkept⟩ := hsame.mp hrestored
      exact ⟨hclosers.mp hclosed, fun ⟨e, he, hraises⟩ => absurd hraises (hnone e he), hdisposers,
        hkept⟩
    · rintro ⟨hclosed, -, hdisposers, hkept⟩
      exact ⟨hclosers.mpr hclosed, hsame.mpr ⟨hdisposers, hkept⟩⟩

/-- Factories that only load plugins keep what the registry held. -/
theorem kept_of_loads
    (h : ∀ name factory, factories name = some factory →
      ∀ R, Loads before R → Loads before (factory R).2) :
    (reached factories composition.order before).Without
      (before.added (reached factories composition.order before)) before := by
  have hloads : ∀ order R, Loads before R → Loads before (reached factories order R) := by
    intro order
    induction order with
    | nil => exact fun _ hR => hR
    | cons name order ih =>
      intro R hR
      rw [reached]
      rcases hname : factories name with _ | factory
      · exact hR
      have hfactory := h name factory hname R hR
      rcases hrun : factory R with ⟨failure | handle, R'⟩ <;> simp only [hrun] at hfactory ⊢
      · exact hfactory
      · exact ih _ hfactory
  exact (hloads _ _ .refl).without

end

/-! ### Two starts that fail -/

/-- Three components. -/
def threeComponents : ResolvedComposition := ⟨["control", "memory", "context"], by decide⟩

/-- A plugin of one service. -/
def oneService (name : String) : Setup Unit := .register name () fun _ => .done (.ok (.ok ()))

/-- The first two components load a plugin each, the third has no factory. -/
def loadingFactories (close : Except Failure Unit) : Factories Unit := fun name =>
  if name = "context" then none
  else some fun R => (.ok ⟨some close⟩, (R.load name (oneService name)).2)

/-- The first two components are started. -/
theorem starts_loading (close : Except Failure Unit) :
    starts (loadingFactories close) threeComponents.order {} =
      [("control", ⟨some close⟩), ("memory", ⟨some close⟩)] := rfl

/-- With closers that return the start is undone. -/
theorem rolledBack_iff_loading :
    RolledBack threeComponents (loadingFactories (.ok ())) {}
      (startComponents threeComponents (loadingFactories (.ok ())) none) := by
  have hfailed : (startComponents threeComponents (loadingFactories (.ok ())) none).outcome =
      .error (.cyrano "MISSING_FACTORY" "no factory bound for context") := rfl
  refine (rolledBack_iff hfailed).mpr ⟨?_, ?_, ?_, kept_of_loads ?_⟩
  · rw [Option.getD_none, starts_loading]
    simp [Handle.Raises]
  · rw [Option.getD_none, starts_loading]
    simp [Handle.Raises]
  · decide
  · intro name factory hname R hR
    rw [loadingFactories] at hname
    split_ifs at hname
    obtain rfl := Option.some.inj hname
    exact hR.load name _

/-- **A closer that raises** leaves a handle open that was started before, and plugins loaded. -/
theorem not_rolledBack_raising :
    ¬RolledBack threeComponents (loadingFactories (.error (.python "RuntimeError" "boom"))) {}
      (startComponents threeComponents
        (loadingFactories (.error (.python "RuntimeError" "boom"))) none) := by
  rintro ⟨hclosed, -⟩
  revert hclosed
  decide

end Plugins

end CyranoAgent
