import CyranoAgent.Lib.PosixPath
import CyranoAgent.Planning.Validation

/-!
# What the units of a ready plan may write and spend

Units that share a write path are in order when one of them reaches the other along the
dependencies, and `reachable_iff` says that the search of the validator decides this. The validator
compares the texts of the paths, and knows three wildcards: `serializedWrites_iff` says of which
ready plans all writers of a file are in order and every write path is concrete.

It compares the sum of the caps of all units with the cap of the plan, and takes caps below zero:
`neverOverspends_iff` says of which ready plans no selection of units may spend more than that.
-/

namespace CyranoAgent

namespace Planning

open Lib Relation

/-! ### Chains of dependencies -/

/-- The unit of an id depends on another one. -/
def DependsOn (units : List WorkUnitSpec) (unitId dep : String) : Prop :=
  ∃ u, unit? units unitId = some u ∧ dep ∈ u.dependencies

section

variable {units : List WorkUnitSpec} {dst : String} {seen stack : List String}

/-- An id without a unit leads nowhere. -/
theorem not_dependsOn {node dep : String} (h : unit? units node = none) :
    ¬DependsOn units node dep := by
  rintro ⟨u, hu, -⟩
  rw [h] at hu
  cases hu

/-- Ids without a unit are passed over. -/
theorem reachableFrom_none {node : String} (hne : node ≠ dst) (hseen : node ∉ seen)
    (hunit : unit? units node = none) :
    reachableFrom units dst seen (node :: stack) = reachableFrom units dst seen stack := by
  rw [reachableFrom, if_neg hne, dif_neg hseen]
  split
  next => rfl
  next u hsome => exact absurd (hunit.symm.trans hsome) (by simp)

/-- From a unit the search goes on to its dependencies, the last one first. -/
theorem reachableFrom_some {node : String} {u : WorkUnitSpec} (hne : node ≠ dst)
    (hseen : node ∉ seen) (hunit : unit? units node = some u) :
    reachableFrom units dst seen (node :: stack) =
      reachableFrom units dst (node :: seen) (u.dependencies.reverse ++ stack) := by
  rw [reachableFrom, if_neg hne, dif_neg hseen]
  split
  next hnone => exact absurd (hunit.symm.trans hnone) (by simp)
  next v hsome =>
    obtain rfl := Option.some.inj (hunit.symm.trans hsome)
    rfl

/-- What the search finds is reached from its stack. -/
theorem exists_of_reachableFrom (h : reachableFrom units dst seen stack = true) :
    ∃ node ∈ stack, ReflTransGen (DependsOn units) node dst := by
  induction seen, stack using reachableFrom.induct units dst with
  | case1 seen =>
    rw [reachableFrom] at h
    cases h
  | case2 seen stack => exact ⟨dst, List.mem_cons_self, .refl⟩
  | case3 seen node stack hne hseen ih =>
    rw [reachableFrom, if_neg hne, dif_pos hseen] at h
    obtain ⟨found, hfound, hreach⟩ := ih h
    exact ⟨found, List.mem_cons_of_mem _ hfound, hreach⟩
  | case4 seen node stack hne hseen hunit ih =>
    rw [reachableFrom_none hne hseen hunit] at h
    obtain ⟨found, hfound, hreach⟩ := ih h
    exact ⟨found, List.mem_cons_of_mem _ hfound, hreach⟩
  | case5 seen node stack hne hseen u hunit ih =>
    rw [reachableFrom_some hne hseen hunit] at h
    obtain ⟨found, hfound, hreach⟩ := ih h
    rcases List.mem_append.mp hfound with hdep | hold
    · exact ⟨node, List.mem_cons_self, hreach.head ⟨u, hunit, List.mem_reverse.mp hdep⟩⟩
    · exact ⟨found, List.mem_cons_of_mem _ hold, hreach⟩

/-- What was seen is closed, but for what waits on the stack and for ids without a unit. -/
structure Searched (units : List WorkUnitSpec) (dst : String) (seen stack : List String) :
    Prop where
  missed : dst ∉ seen
  closed : ∀ node ∈ seen, ∀ dep, DependsOn units node dep →
    dep ∈ seen ∨ dep ∈ stack ∨ (unit? units dep = none ∧ dep ≠ dst)

/-- A place of the stack that leads nowhere new is done. -/
theorem Searched.skip {node : String} (h : Searched units dst seen (node :: stack))
    (hnode : node ∈ seen ∨ (unit? units node = none ∧ node ≠ dst)) :
    Searched units dst seen stack where
  missed := h.missed
  closed x hx dep hdep := by
    rcases h.closed x hx dep hdep with hseen | hstack | hnone
    · exact .inl hseen
    · rcases List.mem_cons.mp hstack with rfl | hstack
      · exact hnode.imp_right .inr
      · exact .inr (.inl hstack)
    · exact .inr (.inr hnone)

/-- **One step of the search**: a unit is seen, and its dependencies wait. -/
theorem Searched.step {node : String} {u : WorkUnitSpec}
    (h : Searched units dst seen (node :: stack)) (hne : node ≠ dst)
    (hunit : unit? units node = some u) :
    Searched units dst (node :: seen) (u.dependencies.reverse ++ stack) where
  missed hmem := (List.mem_cons.mp hmem).elim (fun heq => hne heq.symm) h.missed
  closed x hx dep hdep := by
    rcases List.mem_cons.mp hx with rfl | hx
    · obtain ⟨v, hv, hmem⟩ := hdep
      obtain rfl := Option.some.inj (hunit.symm.trans hv)
      exact .inr (.inl (List.mem_append_left _ (List.mem_reverse.mpr hmem)))
    · rcases h.closed x hx dep hdep with hseen | hstack | hnone
      · exact .inl (List.mem_cons_of_mem _ hseen)
      · rcases List.mem_cons.mp hstack with rfl | hstack
        · exact .inl List.mem_cons_self
        · exact .inr (.inl (List.mem_append_right _ hstack))
      · exact .inr (.inr hnone)

/-- A search that does not find the goal has missed it: nothing it saw, and nothing on its stack,
reaches the goal. -/
theorem not_reach_of_reachableFrom (hsearched : Searched units dst seen stack)
    (h : reachableFrom units dst seen stack = false) {node : String}
    (hnode : node ∈ seen ∨ node ∈ stack) : ¬ReflTransGen (DependsOn units) node dst := by
  induction seen, stack using reachableFrom.induct units dst with
  | case1 seen =>
    -- nothing waits any more, so that what was seen stays among itself
    have hstay : ∀ x, ReflTransGen (DependsOn units) node x →
        x ∈ seen ∨ (unit? units x = none ∧ x ≠ dst) := by
      intro x hreach
      induction hreach with
      | refl => exact .inl (hnode.resolve_right List.not_mem_nil)
      | tail _ hstep ih =>
        rcases ih with hseen | ⟨hnone, -⟩
        · exact (hsearched.closed _ hseen _ hstep).imp_right fun hrest =>
            hrest.resolve_left List.not_mem_nil
        · exact absurd hstep (not_dependsOn hnone)
    intro hreach
    rcases hstay dst hreach with hseen | ⟨-, hne⟩
    · exact hsearched.missed hseen
    · exact hne rfl
  | case2 seen stack =>
    rw [reachableFrom, if_pos rfl] at h
    cases h
  | case3 seen top stack hne hseen ih =>
    rw [reachableFrom, if_neg hne, dif_pos hseen] at h
    refine ih (hsearched.skip (.inl hseen)) h (hnode.elim .inl fun hmem => ?_)
    exact (List.mem_cons.mp hmem).elim (fun heq => .inl (heq ▸ hseen)) .inr
  | case4 seen top stack hne hseen hunit ih =>
    rw [reachableFrom_none hne hseen hunit] at h
    have hskip := hsearched.skip (.inr ⟨hunit, hne⟩)
    rcases hnode with hmem | hmem
    · exact ih hskip h (.inl hmem)
    rcases List.mem_cons.mp hmem with rfl | hmem
    · intro hreach
      rcases hreach.cases_head with heq | ⟨x, hstep, -⟩
      · exact hne heq
      · exact not_dependsOn hunit hstep
    · exact ih hskip h (.inr hmem)
  | case5 seen top stack hne hseen u hunit ih =>
    rw [reachableFrom_some hne hseen hunit] at h
    refine ih (hsearched.step hne hunit) h ?_
    rcases hnode with hmem | hmem
    · exact .inl (List.mem_cons_of_mem _ hmem)
    rcases List.mem_cons.mp hmem with rfl | hmem
    · exact .inl List.mem_cons_self
    · exact .inr (List.mem_append_right _ hmem)

/-- **The search decides whether a chain of dependencies leads from one unit to another.** -/
theorem reachable_iff {src : String} :
    reachable units src dst = true ↔ ReflTransGen (DependsOn units) src dst := by
  constructor
  · intro h
    obtain ⟨node, hnode, hreach⟩ := exists_of_reachableFrom h
    rwa [List.mem_singleton.mp hnode] at hreach
  · intro hreach
    by_contra h
    have hstart : Searched units dst [] [src] :=
      ⟨List.not_mem_nil, fun _ hx => absurd hx List.not_mem_nil⟩
    exact not_reach_of_reachableFrom hstart (Bool.eq_false_iff.mpr h)
      (.inr (List.mem_singleton_self src)) hreach

end

/-! ### Writers of a file -/

/-- A chain of dependencies leads from one of two units to the other. -/
def Ordered (units : List WorkUnitSpec) (left right : String) : Prop :=
  TransGen (DependsOn units) left right ∨ TransGen (DependsOn units) right left

/-- A path with a wildcard in it. -/
def HasWildcard (path : String) : Prop := ∃ c ∈ path.toList, c ∈ ['*', '?', '[']

instance (path : String) : Decidable (HasWildcard path) :=
  inferInstanceAs (Decidable (∃ c ∈ path.toList, _))

/-- A path of one file below the root of the tree. -/
structure Concrete (path : String) : Prop where
  relative : path.toList.head? ≠ some '/'
  within : (normalForm path).ups = 0
  plain : ¬HasWildcard path

/-- Two units write one file, under paths of one normal form. -/
def Shares (u v : WorkUnitSpec) (path path' : String) : Prop :=
  path ∈ u.writePaths ∧ path' ∈ v.writePaths ∧ normpath path = normpath path'

/-- All writers of a file are in order, and every write path is concrete. -/
structure SerializedWrites (units : List WorkUnitSpec) : Prop where
  ordered : ∀ u ∈ units, ∀ v ∈ units, u ≠ v → ∀ path path', Shares u v path path' →
    Ordered units u.unitId v.unitId
  concrete : ∀ u ∈ units, ∀ path ∈ u.writePaths, Concrete path

section

variable {reprText : String → String} {plan : GovernedWorkPlan} {registries : Registries}
  {cycle : List String} {limit : ℕ} {r : PlanCheckReport}

/-- The units of a ready plan have ids of their own. -/
theorem Ready.unitId_ne (h : Ready plan registries cycle) {u v : WorkUnitSpec}
    (hu : u ∈ plan.units) (hv : v ∈ plan.units) (hne : u ≠ v) : u.unitId ≠ v.unitId :=
  fun heq => hne (List.inj_on_of_nodup_map h.unique hu hv heq)

/-- Two units of a ready plan that write under one text are in order. -/
theorem Ready.ordered (h : Ready plan registries cycle) {u v : WorkUnitSpec}
    (hu : u ∈ plan.units) (hv : v ∈ plan.units) (hne : u ≠ v) {path : String}
    (hpath : path ∈ u.writePaths) (hpath' : path ∈ v.writePaths) :
    Ordered plan.units u.unitId v.unitId := by
  have hids := h.unitId_ne hu hv hne
  have howner {w : WorkUnitSpec} (hw : w ∈ plan.units) (hmem : path ∈ w.writePaths) :
      w.unitId ∈ owners plan path := by
    refine List.mem_flatMap.mpr ⟨w, hw, List.mem_map.mpr ⟨path, ?_, rfl⟩⟩
    exact List.mem_filter.mpr ⟨hmem, decide_eq_true rfl⟩
  have hlength : 2 ≤ (owners plan path).length := by
    have hsub : [u.unitId, v.unitId] ⊆ owners plan path := by
      simpa using ⟨howner hu hpath, howner hv hpath'⟩
    have hnodup : [u.unitId, v.unitId].Nodup := by simpa using hids
    exact (hnodup.subperm hsub).length_le
  have hordered : ¬Unordered plan u.unitId v.unitId := by
    intro hunordered
    have hconflict := List.filter_eq_nil_iff.mp h.serialized path
      (List.mem_flatMap.mpr ⟨u, hu, hpath⟩)
    exact hconflict (decide_eq_true ⟨hlength, _, howner hu hpath, _, howner hv hpath', hunordered⟩)
  rw [Unordered, not_and_not_right, byId_eq_self h.unique, reachable_iff, reachable_iff] at hordered
  exact (hordered hids).imp (fun hreach => (reflTransGen_iff_eq_or_transGen.mp hreach).resolve_left
    hids.symm) fun hreach => (reflTransGen_iff_eq_or_transGen.mp hreach).resolve_left hids

/-- The write paths of a ready plan do not leave the tree. -/
theorem Ready.within (h : Ready plan registries cycle) {u : WorkUnitSpec} (hu : u ∈ plan.units)
    {path : String} (hpath : path ∈ u.writePaths) :
    path.toList.head? ≠ some '/' ∧ (normalForm path).ups = 0 := by
  have hbounded := h.bounded u hu path hpath
  simp only [Wild, not_or] at hbounded
  refine ⟨hbounded.2.1, ?_⟩
  have hnames : ∀ part ∈ pathParts path, ProperName part := by
    intro part hpart
    refine (properName_of_mem_pathParts hpart).resolve_right ?_
    rintro rfl
    exact hbounded.2.2 (List.mem_of_mem_filter hpart)
  exact (NormalPath.foldl_push_names hnames).1

/-- **Of which ready plans all writers of a file are in order**, and every write path is concrete:
no path has a wildcard, and a file that two units without an order may write has one spelling. -/
theorem serializedWrites_iff (h : validatePlan reprText plan registries limit = .ok r)
    (hready : r.readyForReview = true) :
    SerializedWrites plan.units ↔
      (∀ u ∈ plan.units, ∀ path ∈ u.writePaths, ¬HasWildcard path) ∧
        ∀ u ∈ plan.units, ∀ v ∈ plan.units, u ≠ v → ∀ path path', Shares u v path path' →
          path ≠ path' → Ordered plan.units u.unitId v.unitId := by
  have hplan := (readyForReview_iff h).mp hready
  constructor
  · intro hserialized
    refine ⟨fun u hu path hpath => (hserialized.concrete u hu path hpath).plain, ?_⟩
    exact fun u hu v hv hne path path' hshares _ =>
      hserialized.ordered u hu v hv hne path path' hshares
  · rintro ⟨hplain, hspelled⟩
    refine ⟨fun u hu v hv hne path path' hshares => ?_, fun u hu path hpath => ?_⟩
    · by_cases hsame : path = path'
      · exact hplan.ordered hu hv hne hshares.1 (hsame ▸ hshares.2.1)
      · exact hspelled u hu v hv hne path path' hshares hsame
    · obtain ⟨hrelative, hwithin⟩ := hplan.within hu hpath
      exact ⟨hrelative, hwithin, hplain u hu path hpath⟩

end

/-- A unit that depends on no other, writes one path and has a cap. -/
def loneUnit (unitId path : String) (cap : ℤ) : WorkUnitSpec where
  unitId := unitId
  requirementIds := ["r1"]
  acceptanceIds := ["a1"]
  writePaths := [path]
  testRecipe := some "pytest"
  testOracle := some "exit-0"
  costCap := some cap

/-- The plan of some units, under a cap of 100. -/
def loneUnits (units : List WorkUnitSpec) : GovernedWorkPlan where
  planId := "p1"
  revision := 0
  requirements := ["r1"]
  units := units
  budgetCap := some 100

/-- One recipe is registered. -/
def loneRegistries : Registries := { knownRecipes := some ["pytest"] }

/-- Two units that write different files, and share the cap of their plan. -/
def apartUnits : List WorkUnitSpec := [loneUnit "A" "a.py" 60, loneUnit "B" "b.py" 40]

theorem serializedWrites_iff_apart : ∃ r,
    validatePlan id (loneUnits apartUnits) loneRegistries 10 = .ok r ∧ r.readyForReview = true ∧
      (SerializedWrites apartUnits ↔
        (∀ u ∈ apartUnits, ∀ path ∈ u.writePaths, ¬HasWildcard path) ∧
          ∀ u ∈ apartUnits, ∀ v ∈ apartUnits, u ≠ v → ∀ path path', Shares u v path path' →
            path ≠ path' → Ordered apartUnits u.unitId v.unitId) := by
  obtain ⟨r, hr, hready⟩ := exists_ready id (loneUnits apartUnits) loneRegistries 10
    (by decide +kernel)
  exact ⟨r, hr, hready, serializedWrites_iff hr hready⟩

/-- **A ready plan whose units write one file without an order**, under two spellings. -/
theorem not_serializedWrites : ¬∀ (reprText : String → String) (plan : GovernedWorkPlan)
    (registries : Registries) (limit : ℕ) (r : PlanCheckReport),
    validatePlan reprText plan registries limit = .ok r → r.readyForReview = true →
      SerializedWrites plan.units := by
  intro hclaim
  let units := [loneUnit "A" "src/a.py" 10, loneUnit "B" "src/./a.py" 10]
  obtain ⟨r, hr, hready⟩ := exists_ready id (loneUnits units) loneRegistries 10 (by decide +kernel)
  have hordered := (hclaim id _ _ 10 r hr hready).ordered (loneUnit "A" "src/a.py" 10)
    List.mem_cons_self (loneUnit "B" "src/./a.py" 10) (List.mem_cons_of_mem _ List.mem_cons_self)
    (by decide) "src/a.py" "src/./a.py"
    ⟨List.mem_cons_self, List.mem_cons_self, by decide⟩
  -- neither of the units depends on anything
  have hnone : ∀ unitId dep, ¬DependsOn units unitId dep := by
    rintro unitId dep ⟨u, hu, hdep⟩
    have hmem := List.mem_of_find?_eq_some hu
    simp only [units, List.mem_cons, List.not_mem_nil, or_false] at hmem
    rcases hmem with rfl | rfl <;> exact List.not_mem_nil hdep
  rcases hordered with hreach | hreach <;>
    exact hnone _ _ (TransGen.tail'_iff.mp hreach).choose_spec.2

/-! ### Caps -/

/-- What some units may spend. -/
def totalCap (units : List WorkUnitSpec) : ℤ := (units.map fun u => u.costCap.getD 0).sum

/-- Every unit has a cap that is not below zero, and no selection of the units, in any order, may
spend more than the cap of the plan. -/
def NeverOverspends (plan : GovernedWorkPlan) : Prop :=
  ∃ cap, plan.budgetCap = some cap ∧ (∀ u ∈ plan.units, ∃ c, u.costCap = some c ∧ 0 ≤ c) ∧
    ∀ chosen, chosen.Subperm plan.units → totalCap chosen ≤ cap

/-- Units with caps that are not below zero spend no less together than some of them. -/
theorem totalCap_mono {units chosen : List WorkUnitSpec}
    (h : ∀ u ∈ units, 0 ≤ u.costCap.getD 0) (hchosen : chosen.Subperm units) :
    totalCap chosen ≤ totalCap units := by
  obtain ⟨selected, hperm, hsub⟩ := hchosen
  rw [totalCap, totalCap, ← (hperm.map _).sum_eq]
  refine (hsub.map _).sum_le_sum fun c hc => ?_
  obtain ⟨u, hu, rfl⟩ := List.mem_map.mp hc
  exact h u hu

/-- **Of which ready plans no selection of units may overspend**: the cap of no unit is below
zero. -/
theorem neverOverspends_iff {reprText : String → String} {plan : GovernedWorkPlan}
    {registries : Registries} {limit : ℕ} {r : PlanCheckReport}
    (h : validatePlan reprText plan registries limit = .ok r) (hready : r.readyForReview = true) :
    NeverOverspends plan ↔ ∀ u ∈ plan.units, ∀ c, u.costCap = some c → 0 ≤ c := by
  obtain ⟨cap, hcap, hcaps, htotal⟩ := ((readyForReview_iff h).mp hready).budget
  constructor
  · rintro ⟨-, -, hunits, -⟩ u hu c hc
    obtain ⟨c', hc', hpos⟩ := hunits u hu
    rwa [Option.some.inj (hc.symm.trans hc')]
  · intro hpos
    have hunits : ∀ u ∈ plan.units, ∃ c, u.costCap = some c ∧ 0 ≤ c := by
      intro u hu
      obtain ⟨c, hc⟩ := Option.ne_none_iff_exists'.mp (hcaps u hu)
      exact ⟨c, hc, hpos u hu c hc⟩
    refine ⟨cap, hcap, hunits, fun chosen hchosen => (totalCap_mono ?_ hchosen).trans htotal⟩
    intro u hu
    obtain ⟨c, hc, hc0⟩ := hunits u hu
    rwa [hc, Option.getD_some]

theorem neverOverspends_iff_apart : ∃ r,
    validatePlan id (loneUnits apartUnits) loneRegistries 10 = .ok r ∧ r.readyForReview = true ∧
      (NeverOverspends (loneUnits apartUnits) ↔
        ∀ u ∈ apartUnits, ∀ c, u.costCap = some c → 0 ≤ c) := by
  obtain ⟨r, hr, hready⟩ := exists_ready id (loneUnits apartUnits) loneRegistries 10
    (by decide +kernel)
  exact ⟨r, hr, hready, neverOverspends_iff hr hready⟩

/-- **A ready plan that may be overspent**: one cap below zero makes room for another one. -/
theorem not_neverOverspends : ¬∀ (reprText : String → String) (plan : GovernedWorkPlan)
    (registries : Registries) (limit : ℕ) (r : PlanCheckReport),
    validatePlan reprText plan registries limit = .ok r → r.readyForReview = true →
      NeverOverspends plan := by
  intro hclaim
  obtain ⟨r, hr, hready⟩ := exists_ready id
    (loneUnits [loneUnit "A" "a.py" 150, loneUnit "B" "b.py" (-50)]) loneRegistries 10
    (by decide +kernel)
  obtain ⟨cap, hcap, -, hspend⟩ := hclaim id _ _ 10 r hr hready
  obtain rfl : 100 = cap := Option.some.inj hcap
  have hover := hspend [loneUnit "A" "a.py" 150]
    (List.Sublist.subperm (List.Sublist.cons_cons _ (List.nil_sublist _)))
  revert hover
  decide

end Planning

end CyranoAgent
