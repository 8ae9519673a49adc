import CyranoAgent.Lib.DepthFirst
import CyranoAgent.Planning.WriteScope

/-!
# The search for a cycle

The units of the path that the search is on are gray, and lead one to the next. A unit is black once
the search has gone back from it, and then none of its dependencies leads back to it (`Searching`).
`Outcome` says how each part of the search can end: with a circle, with its goal black, or beyond
the nested calls that the interpreter has left. The search finds a circle exactly when there is one
(`findCycle_spec`).
-/

namespace CyranoAgent

namespace Planning

open Lib Relation

section

variable {units rest : List WorkUnitSpec} {u : WorkUnitSpec} {front stack deps : List String}
  {color color' : Colors} {node dep : String} {limit : ℕ} {goal goal' : Set String}
  {result : Except Failure (List String × Colors)}

/-! ### The state of the search -/

/-- The ids that the search is done with: the black ones, and those without a unit. -/
def doneWith (units : List WorkUnitSpec) (color : Colors) : Set String :=
  {x | color x = .black ∨ unit? units x = none}

/-- How many units the search has not come to. -/
def unvisited (units : List WorkUnitSpec) (color : Colors) : ℕ :=
  units.countP fun u => color u.unitId = .white

/-- The gray units are those of the path, and the search has finished with what it is done with. -/
structure Searching (units : List WorkUnitSpec) (stack : List String) (color : Colors) :
    Prop where
  chain : stack.IsChain (DependsOn units)
  gray : ∀ x, color x = .gray ↔ x ∈ stack
  finished : Finished (DependsOn units) (doneWith units color)

/-- The search goes on: what it has come to stays so, and so does what it is done with. -/
structure Onward (units : List WorkUnitSpec) (color color' : Colors) : Prop where
  white : ∀ x, color' x = .white → color x = .white
  done : doneWith units color ⊆ doneWith units color'

/-- How a part of the search ends that starts from some colors, to be done with a goal. -/
inductive Outcome (units : List WorkUnitSpec) (limit : ℕ) (stack : List String) (color : Colors)
    (goal : Set String) : Except Failure (List String × Colors) → Prop
  | circle {found : List String} {color' : Colors} (hcircle : IsCircle (DependsOn units) found) :
    Outcome units limit stack color goal (.ok (found, color'))
  | finished {color' : Colors} (hsearching : Searching units stack color')
    (honward : Onward units color color') (hgoal : goal ⊆ doneWith units color') :
    Outcome units limit stack color goal (.ok ([], color'))
  | tooDeep (hlimit : limit < unvisited units color) :
    Outcome units limit stack color goal
      (.error (.python "RecursionError" "maximum recursion depth exceeded"))

theorem Onward.refl (units : List WorkUnitSpec) (color : Colors) : Onward units color color :=
  ⟨fun _ h => h, subset_rfl⟩

theorem Onward.trans {color'' : Colors} (h : Onward units color color')
    (h' : Onward units color' color'') : Onward units color color'' :=
  ⟨fun x hx => h.white x (h'.white x hx), h.done.trans h'.done⟩

/-- Fewer units are left as the search goes on. -/
theorem Onward.unvisited_le (h : Onward units color color') :
    unvisited units color' ≤ unvisited units color :=
  List.countP_mono_left fun _ _ hu => decide_eq_true (h.white _ (of_decide_eq_true hu))

/-- A part of the search that starts later, once it is done with some id. -/
theorem Outcome.after (honward : Onward units color color') (hdep : dep ∈ doneWith units color')
    (h : Outcome units limit stack color' goal result) :
    Outcome units limit stack color (insert dep goal) result := by
  cases h with
  | circle hcircle => exact .circle hcircle
  | finished hsearching honward' hgoal =>
    exact .finished hsearching (honward.trans honward')
      (Set.insert_subset (honward'.done hdep) hgoal)
  | tooDeep hlimit => exact .tooDeep (hlimit.trans_le honward.unvisited_le)

/-! ### One unit -/

/-- The search is not done with a unit that it has not come to, or whose visit has not ended. -/
theorem not_mem_doneWith (hcolor : color node ≠ .black) (hunit : unit? units node = some u) :
    node ∉ doneWith units color := by
  rintro (hblack | hnone)
  · exact hcolor hblack
  · exact absurd (hunit.symm.trans hnone) (by simp)

/-- The colors at the start of a visit. -/
theorem onward_gray (hwhite : color node = .white) :
    Onward units color (Function.update color node .gray) where
  white x hx := by
    by_cases heq : x = node
    · exact heq ▸ hwhite
    · rwa [Function.update_of_ne heq] at hx
  done x hx := by
    by_cases heq : x = node
    · subst heq
      exact .inr (hx.resolve_left (by simp [hwhite]))
    · exact hx.imp_left fun hblack => (Function.update_of_ne heq _ _).trans hblack

/-- A unit is on the path while it is visited. -/
theorem Searching.push (h : Searching units front color) (hwhite : color node = .white)
    (hchain : (front ++ [node]).IsChain (DependsOn units)) :
    Searching units (front ++ [node]) (Function.update color node .gray) where
  chain := hchain
  gray x := by
    by_cases heq : x = node
    · simp [heq]
    · simp [h.gray, heq]
  finished := by
    have hsame : doneWith units (Function.update color node .gray) = doneWith units color := by
      refine Set.Subset.antisymm (fun x hx => ?_) (onward_gray hwhite).done
      refine hx.imp_left fun hblack => ?_
      by_cases heq : x = node
      · simp [heq] at hblack
      · rwa [Function.update_of_ne heq] at hblack
    exact hsame ▸ h.finished

/-- **The end of a visit**: the unit is black once the search is done with its dependencies. -/
theorem Searching.pop (h : Searching units (front ++ [node]) color) (hfront : node ∉ front)
    (hunit : unit? units node = some u) (hdeps : {x | x ∈ u.dependencies} ⊆ doneWith units color) :
    Searching units front (Function.update color node .black) where
  chain := h.chain.left_of_append
  gray x := by
    by_cases heq : x = node
    · simp [heq, hfront]
    · simp [h.gray, heq]
  finished := by
    have hgray : color node = .gray := (h.gray node).mpr (by simp)
    have hinsert : doneWith units (Function.update color node .black) =
        insert node (doneWith units color) := by
      ext x
      by_cases heq : x = node
      · simp [doneWith, heq]
      · simp [doneWith, heq]
    rw [hinsert]
    refine h.finished.insert (not_mem_doneWith (by simp [hgray]) hunit) fun y hy => ?_
    obtain ⟨v, hv, hmem⟩ := hy
    obtain rfl := Option.some.inj (hunit.symm.trans hv)
    exact hdeps hmem

theorem onward_black : Onward units color (Function.update color node .black) where
  white x hx := by
    by_cases heq : x = node
    · simp [heq] at hx
    · rwa [Function.update_of_ne heq] at hx
  done x hx := by
    by_cases heq : x = node
    · simp [doneWith, heq]
    · exact hx.imp_left fun hblack => (Function.update_of_ne heq _ _).trans hblack

/-- A visit leaves fewer units to come to. -/
theorem unvisited_gray_lt (hunit : unit? units node = some u) (hwhite : color node = .white) :
    unvisited units (Function.update color node .gray) < unvisited units color := by
  have hmem := List.mem_of_find?_eq_some hunit
  obtain rfl : u.unitId = node := by simpa using List.find?_some hunit
  rw [unvisited, unvisited, List.countP_eq_length_filter, List.countP_eq_length_filter]
  have hfilter : (units.filter fun v => Function.update color u.unitId .gray v.unitId = .white) =
      (units.filter fun v => color v.unitId = .white).filter fun v => v.unitId ≠ u.unitId := by
    rw [List.filter_filter]
    refine List.filter_congr fun v _ => ?_
    by_cases heq : v.unitId = u.unitId
    · simp [heq]
    · simp [heq]
  rw [hfilter]
  exact List.length_filter_lt_length_iff_exists.mpr ⟨u, by simp [hmem, hwhite], by simp⟩

/-! ### The search -/

/-- **The loop over the dependencies** of a unit, when each visit of it ends as it should. -/
theorem outcome_visitDependencies {visit : String → Colors → Except Failure (List String × Colors)}
    (hvisit : ∀ dep color, color dep = .white → unit? units dep ≠ none → DependsOn units node dep →
      Searching units (front ++ [node]) color →
      Outcome units limit (front ++ [node]) color {dep} (visit dep color))
    (hdeps : ∀ dep ∈ deps, DependsOn units node dep)
    (h : Searching units (front ++ [node]) color) :
    Outcome units limit (front ++ [node]) color {x | x ∈ deps}
      (visitDependencies units visit (front ++ [node]) deps color) := by
  induction deps generalizing color with
  | nil => exact .finished h (.refl _ _) fun _ hx => absurd hx List.not_mem_nil
  | cons dep deps ih =>
    rw [List.forall_mem_cons] at hdeps
    have hgoal : {x | x ∈ dep :: deps} = insert dep {x | x ∈ deps} := by
      ext x
      simp
    rw [hgoal, visitDependencies]
    by_cases hunit : unit? units dep = none
    · rw [if_pos hunit]
      exact (ih hdeps.2 h).after (.refl _ _) (.inr hunit)
    rw [if_neg hunit]
    cases hcolor : color dep with
    | gray => exact .circle (isCircle_dropWhile h.chain hdeps.1 ((h.gray dep).mp hcolor))
    | black => exact (ih hdeps.2 h).after (.refl _ _) (.inl hcolor)
    | white =>
      have hfirst := hvisit dep color hcolor hunit hdeps.1 h
      generalize visit dep color = result at hfirst
      cases hfirst with
      | circle hcircle =>
        dsimp only
        rw [if_pos hcircle.ne_nil]
        exact .circle hcircle
      | finished hsearching honward hdone =>
        exact (ih hdeps.2 hsearching).after honward (hdone rfl)
      | tooDeep hlimit => exact .tooDeep hlimit

/-- **A visit** ends with a circle, with its unit black, or with too many nested calls. -/
theorem outcome_visit (hwhite : color node = .white) (hunit : unit? units node = some u)
    (hchain : (front ++ [node]).IsChain (DependsOn units)) (h : Searching units front color) :
    Outcome units limit front color {node} (visit units limit front node color) := by
  induction limit generalizing front node u color with
  | zero => exact .tooDeep ((Nat.zero_le _).trans_lt (unvisited_gray_lt hunit hwhite))
  | succ limit ih =>
    have hfront : node ∉ front := fun hmem => by simp [(h.gray node).mpr hmem] at hwhite
    have hnested : ∀ dep color, color dep = .white → unit? units dep ≠ none →
        DependsOn units node dep → Searching units (front ++ [node]) color →
        Outcome units limit (front ++ [node]) color {dep}
          (visit units limit (front ++ [node]) dep color) := by
      intro dep color hwhite' hdep hedge hsearching
      obtain ⟨v, hv⟩ := Option.ne_none_iff_exists'.mp hdep
      refine ih hwhite' hv ?_ hsearching
      refine List.isChain_append.mpr ⟨hchain, .singleton dep, fun last hlast x hx => ?_⟩
      rw [List.getLast?_concat, Option.mem_some_iff] at hlast
      obtain rfl : dep = x := by simpa using hx
      exact hlast ▸ hedge
    have hloop := outcome_visitDependencies hnested (fun dep hdep => ⟨u, hunit, hdep⟩)
      (h.push hwhite hchain)
    have hdeps : ((unit? units node).map (·.dependencies)).getD [] = u.dependencies := by
      rw [hunit]
      rfl
    rw [visit, hdeps]
    generalize visitDependencies units _ _ _ _ = result at hloop
    cases hloop with
    | circle hcircle =>
      dsimp only
      rw [if_pos hcircle.ne_nil]
      exact .circle hcircle
    | finished hsearching honward hdone =>
      refine .finished (hsearching.pop hfront hunit hdone)
        (((onward_gray hwhite).trans honward).trans onward_black) ?_
      rintro x rfl
      exact .inl (Function.update_self ..)
    | tooDeep hlimit =>
      have hfewer := unvisited_gray_lt hunit hwhite
      exact .tooDeep (by omega)

/-- The loop over the units: it ends with a circle, or without one when all of them are black. -/
theorem findCycleFrom_spec (hrest : rest ⊆ units) (h : Searching units [] color) :
    (∃ path, findCycleFrom units limit rest color = .ok path ∧ IsCircle (DependsOn units) path) ∨
    (findCycleFrom units limit rest color = .ok [] ∧
      ∃ color', Searching units [] color' ∧ Onward units color color' ∧
        ∀ u ∈ rest, u.unitId ∈ doneWith units color') ∨
    (findCycleFrom units limit rest color =
        .error (.python "RecursionError" "maximum recursion depth exceeded") ∧
      limit < unvisited units color) := by
  induction rest generalizing color with
  | nil =>
    exact .inr (.inl ⟨rfl, color, h, .refl _ _, fun _ hu => absurd hu List.not_mem_nil⟩)
  | cons u rest ih =>
    obtain ⟨hu, hrest⟩ := List.cons_subset.mp hrest
    have hfind : ∃ v, unit? units u.unitId = some v :=
      Option.isSome_iff_exists.mp (List.find?_isSome.mpr ⟨u, hu, by simp⟩)
    obtain ⟨v, hv⟩ := hfind
    rw [findCycleFrom]
    by_cases hwhite : color u.unitId = .white
    · rw [if_pos hwhite]
      have hvisit : Outcome units limit [] color {u.unitId} (visit units limit [] u.unitId color) :=
        outcome_visit hwhite hv (.singleton _) h
      generalize visit units limit [] u.unitId color = result at hvisit
      cases hvisit with
      | circle hcircle =>
        dsimp only
        rw [if_pos hcircle.ne_nil]
        exact .inl ⟨_, rfl, hcircle⟩
      | finished hsearching honward hdone =>
        rcases ih hrest hsearching with hcircle | ⟨hok, color', hs, hon, hall⟩ | ⟨herr, hlimit⟩
        · exact .inl hcircle
        · refine .inr (.inl ⟨hok, color', hs, honward.trans hon, ?_⟩)
          exact List.forall_mem_cons.mpr ⟨hon.done (hdone rfl), hall⟩
        · exact .inr (.inr ⟨herr, hlimit.trans_le honward.unvisited_le⟩)
      | tooDeep hlimit => exact .inr (.inr ⟨rfl, hlimit⟩)
    · rw [if_neg hwhite]
      rcases ih hrest h with hcircle | ⟨hok, color', hs, hon, hall⟩ | herr
      · exact .inl hcircle
      · refine .inr (.inl ⟨hok, color', hs, hon, List.forall_mem_cons.mpr ⟨?_, hall⟩⟩)
        -- between two visits no unit is gray
        have hgray : color u.unitId ≠ .gray := fun hgray => by simpa using (h.gray _).mp hgray
        refine hon.done (.inl ?_)
        cases hcolor : color u.unitId with
        | white => exact absurd hcolor hwhite
        | gray => exact absurd hcolor hgray
        | black => rfl
      · exact .inr (.inr herr)

/-- At the start no unit has been met. -/
theorem searching_white : Searching units [] fun _ => .white where
  chain := .nil
  gray x := by simp
  finished := by
    have hnone : ∀ x ∈ doneWith units fun _ => .white, ∀ y, ¬DependsOn units x y := fun x hx _ =>
      not_dependsOn (hx.resolve_left (by simp))
    refine ⟨fun x hx y hy => absurd hy (hnone x hx y), fun x hx hcircle => ?_⟩
    obtain ⟨y, hy, -⟩ := TransGen.head'_iff.mp hcircle
    exact hnone x hx y hy

/-- When every unit is black, there is no circle. -/
theorem Searching.not_transGen (h : Searching units stack color)
    (hall : ∀ u ∈ units, u.unitId ∈ doneWith units color) (x : String) :
    ¬TransGen (DependsOn units) x x := by
  refine h.finished.not_transGen (fun x y hxy => ?_) x
  obtain ⟨u, hu, -⟩ := hxy
  obtain rfl : u.unitId = x := by simpa using List.find?_some hu
  exact hall u (List.mem_of_find?_eq_some hu)

/-- **The searches of the validator**: an outcome of the search for a cycle is empty when no
dependency leads back to where it starts, and a circle of dependencies otherwise. With nested calls
enough for every unit there always is an outcome, and without one the nested calls are what was
missing. The other search finds the chains of dependencies from one id to another. -/
theorem findCycle_spec (units : List WorkUnitSpec) (limit : ℕ) :
    (∀ path, findCycle units limit = .ok path →
      (path = [] ↔ ∀ x, ¬TransGen (DependsOn units) x x) ∧
      (path ≠ [] → IsCircle (DependsOn units) path)) ∧
    (units.length ≤ limit → ∃ path, findCycle units limit = .ok path) ∧
    (∀ e, findCycle units limit = .error e →
      e = .python "RecursionError" "maximum recursion depth exceeded") ∧
    ∀ src dst, reachable units src dst = true ↔ ReflTransGen (DependsOn units) src dst := by
  rw [findCycle]
  rcases findCycleFrom_spec (List.Subset.refl units) searching_white with
    ⟨found, hfound, hcircle⟩ | ⟨hfound, color', hs, -, hall⟩ | ⟨herror, hlimit⟩
  · obtain ⟨x, hx⟩ := hcircle.exists_transGen
    rw [hfound]
    refine ⟨fun path hpath => ?_, fun _ => ⟨found, rfl⟩, fun e he => (nomatch he),
      fun src dst => reachable_iff⟩
    obtain rfl := Except.ok.inj hpath
    exact ⟨⟨fun h => absurd h hcircle.ne_nil, fun h => absurd hx (h x)⟩, fun _ => hcircle⟩
  · rw [hfound]
    refine ⟨fun path hpath => ?_, fun _ => ⟨[], rfl⟩, fun e he => (nomatch he),
      fun src dst => reachable_iff⟩
    obtain rfl := Except.ok.inj hpath
    exact ⟨⟨fun _ => hs.not_transGen hall, fun _ => rfl⟩, fun h => absurd rfl h⟩
  · rw [herror]
    refine ⟨fun path hpath => (nomatch hpath), fun hle => ?_, fun e he => ?_,
      fun src dst => reachable_iff⟩
    · have hunits : unvisited units (fun _ => .white) ≤ units.length := List.countP_le_length
      omega
    · exact (Except.error.inj he).symm

end

end Planning

end CyranoAgent
