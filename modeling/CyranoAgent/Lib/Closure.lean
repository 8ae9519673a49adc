import Mathlib.Data.List.Dedup
import Mathlib.Data.List.Perm.Subperm
import Mathlib.Logic.Relation
import Mathlib.Order.Bounds.Basic
import Mathlib.Tactic.Common

/-!
# Exploring what is reachable

A search from a root keeps what it has found and a frontier of what it has not gone on from.
`Explored` is its invariant, for any relation and any order of the frontier; when the frontier is
empty, what was found is what the root reaches (`Explored.mem_iff`).

From a set of seeds, what is reached is the least set that holds the seeds and is closed
(`isLeast_reachable`), and `FiniteGraph.saturate` computes it (`FiniteGraph.mem_saturate_iff`). A
search that follows only some of the edges finds the least closed set exactly when each edge it
overlooks ends in a place that it finds otherwise (`isLeast_reachable_iff`).
-/

namespace Lib

open Relation

variable {α : Type} {r : α → α → Prop} {root : α} {found frontier : List α}

/-- What was found is reached from the root, and what was found and is not on the frontier has been
gone on from. -/
structure Explored (r : α → α → Prop) (root : α) (found frontier : List α) : Prop where
  reached : ∀ y ∈ found, TransGen r root y
  waiting : ∀ y ∈ frontier, y = root ∨ y ∈ found
  closed : ∀ x, x = root ∨ x ∈ found → x ∈ frontier ∨ ∀ y, r x y → y ∈ found

namespace Explored

/-- At the start nothing is found, and the root waits. -/
theorem start (r : α → α → Prop) (root : α) : Explored r root [] [root] where
  reached y hy := absurd hy List.not_mem_nil
  waiting y hy := .inl (List.mem_singleton.mp hy)
  closed x hx := by
    rcases hx with rfl | hx
    · exact .inl List.mem_cons_self
    · exact absurd hx List.not_mem_nil

/-- Going on from one place of the frontier: all that it leads to is found, and what is new
waits. -/
theorem step {x : α} {new frontier' : List α} (h : Explored r root found (x :: frontier))
    (hnew : ∀ y ∈ new, r x y) (hall : ∀ y, r x y → y ∈ found ∨ y ∈ new)
    (hfrontier : ∀ y, y ∈ frontier' ↔ y ∈ new ∨ y ∈ frontier) :
    Explored r root (found ++ new) frontier' where
  reached y hy := by
    rcases List.mem_append.mp hy with hy | hy
    · exact h.reached y hy
    · rcases h.waiting x List.mem_cons_self with rfl | hx
      · exact .single (hnew y hy)
      · exact (h.reached x hx).tail (hnew y hy)
  waiting y hy := by
    rcases (hfrontier y).mp hy with hy | hy
    · exact .inr (List.mem_append_right _ hy)
    · exact (h.waiting y (List.mem_cons_of_mem _ hy)).imp_right (List.mem_append_left _)
  closed z hz := by
    by_cases hmem : z ∈ new
    · exact .inl ((hfrontier z).mpr (.inl hmem))
    have hold : z = root ∨ z ∈ found := by
      refine hz.imp_right fun hz => ?_
      exact (List.mem_append.mp hz).resolve_right hmem
    rcases h.closed z hold with hwaits | hclosed
    · rcases List.mem_cons.mp hwaits with rfl | hwaits
      · exact .inr fun y hy => List.mem_append.mpr (hall y hy)
      · exact .inl ((hfrontier z).mpr (.inr hwaits))
    · exact .inr fun y hy => List.mem_append_left _ (hclosed y hy)

/-- **At the end what was found is what the root reaches.** -/
theorem mem_iff (h : Explored r root found []) {y : α} : y ∈ found ↔ TransGen r root y := by
  have hclosed : ∀ x, x = root ∨ x ∈ found → ∀ y, r x y → y ∈ found := fun x hx =>
    (h.closed x hx).resolve_left List.not_mem_nil
  refine ⟨h.reached y, fun hreach => ?_⟩
  induction hreach with
  | single hy => exact hclosed _ (.inl rfl) _ hy
  | tail _ hy ih => exact hclosed _ (.inr ih) _ hy

end Explored

/-! ### Closed sets -/

section

variable {s : α → α → Prop} {seeds seeds' : Set α} {x y : α}

/-- The sets that hold the seeds and, with a place, all that it leads to. -/
def closedOver (r : α → α → Prop) (seeds : Set α) : Set (Set α) :=
  {places | seeds ⊆ places ∧ ∀ x ∈ places, ∀ y, r x y → y ∈ places}

/-- What the seeds reach. -/
def reachable (r : α → α → Prop) (seeds : Set α) : Set α :=
  {y | ∃ x ∈ seeds, ReflTransGen r x y}

theorem subset_reachable : seeds ⊆ reachable r seeds := fun x hx => ⟨x, hx, .refl⟩

theorem mem_reachable_of_step (hx : x ∈ reachable r seeds) (hxy : r x y) :
    y ∈ reachable r seeds := by
  obtain ⟨z, hz, hreach⟩ := hx
  exact ⟨z, hz, hreach.tail hxy⟩

/-- **What is reached is the least closed set.** -/
theorem isLeast_reachable : IsLeast (closedOver r seeds) (reachable r seeds) := by
  refine ⟨⟨subset_reachable, fun x hx y hxy => mem_reachable_of_step hx hxy⟩, ?_⟩
  rintro places ⟨hseeds, hclosed⟩ y ⟨x, hx, hreach⟩
  induction hreach with
  | refl => exact hseeds hx
  | tail _ hstep ih => exact hclosed _ ih _ hstep

/-- More seeds reach more. -/
theorem reachable_mono (h : seeds ⊆ seeds') : reachable r seeds ⊆ reachable r seeds' :=
  fun _ ⟨x, hx, hreach⟩ => ⟨x, h hx, hreach⟩

/-- What is reached reaches nothing else. -/
theorem reachable_reachable : reachable r (reachable r seeds) = reachable r seeds :=
  Set.Subset.antisymm
    (isLeast_reachable.2 ⟨subset_rfl, fun _ hx _ hxy => mem_reachable_of_step hx hxy⟩)
    subset_reachable

/-- **A search that overlooks edges** finds the least closed set exactly when each edge that it
overlooks, from a place that it finds, ends in a place that it finds. -/
theorem isLeast_reachable_iff (hsub : ∀ x y, s x y → r x y) :
    IsLeast (closedOver r seeds) (reachable s seeds) ↔
      ∀ x y, x ∈ reachable s seeds → r x y → ¬ s x y → y ∈ reachable s seeds := by
  constructor
  · intro hleast x y hx hxy _
    exact hleast.1.2 x hx y hxy
  · intro hfound
    refine ⟨⟨subset_reachable, fun x hx y hxy => ?_⟩, ?_⟩
    · by_cases hs : s x y
      · exact mem_reachable_of_step hx hs
      · exact hfound x y hx hxy hs
    · rintro places ⟨hseeds, hclosed⟩
      exact isLeast_reachable.2 ⟨hseeds, fun x hx y hxy => hclosed x hx y (hsub x y hxy)⟩

/-- **A search from other seeds** finds all that the seeds lead to exactly when each edge on the way
that it does not follow ends in a place that it finds. -/
theorem forall_transGen_mem_iff :
    (∀ x ∈ seeds, ∀ y, TransGen r x y → y ∈ reachable s seeds') ↔
      ∀ x y, x ∈ reachable r seeds → r x y → ¬ (x ∈ reachable s seeds' ∧ s x y) →
        y ∈ reachable s seeds' := by
  constructor
  · rintro hall x y ⟨z, hz, hreach⟩ hxy -
    exact hall z hz y (.tail' hreach hxy)
  · intro hfound z hz y hzy
    obtain ⟨x, hreach, hxy⟩ := TransGen.tail'_iff.1 hzy
    by_cases hfollowed : x ∈ reachable s seeds' ∧ s x y
    · exact mem_reachable_of_step hfollowed.1 hfollowed.2
    · exact hfound x y ⟨z, hz, hreach⟩ hxy hfollowed

end

/-! ### Closed parts -/

section

variable {places part : Set α} {x y : α}

/-- The parts of a set that hold, with a place, all that it leads to. -/
def closedWithin (r : α → α → Prop) (places : Set α) : Set (Set α) :=
  {part | part ⊆ places ∧ ∀ x ∈ part, ∀ y, r x y → y ∈ part}

theorem mem_of_transGen_of_closedWithin (h : part ∈ closedWithin r places) (hx : x ∈ part)
    (hxy : TransGen r x y) : y ∈ part := by
  induction hxy with
  | single hy => exact h.2 _ hx _ hy
  | tail _ hy ih => exact h.2 _ ih _ hy

/-- A place that leads out of what a closed part is in is not in the part. -/
theorem not_mem_of_closedWithin {kept : Set α} (h : part ∈ closedWithin r places)
    (hsub : part ⊆ kept) (hxy : r x y) (hy : y ∉ kept) : x ∉ part :=
  fun hx => hy (hsub (h.2 x hx y hxy))

end

/-! ### Saturation -/

/-- A finite graph: where it leads to from each place, within a list of places. -/
structure FiniteGraph (α : Type) where
  next : α → List α
  places : List α
  next_subset : ∀ x, next x ⊆ places

namespace FiniteGraph

variable (G : FiniteGraph α)

/-- One place leads to another. -/
def Leads (x y : α) : Prop := y ∈ G.next x

/-- What was found is reached from the seeds, and what was found and does not wait has been gone on
from. -/
structure Saturating (seeds : Set α) (found frontier : List α) : Prop where
  nodup : found.Nodup
  reached : ∀ y ∈ found, y ∈ reachable G.Leads seeds
  start : ∀ y ∈ seeds, y ∈ found
  closed : ∀ x ∈ found, x ∈ frontier ∨ ∀ y, G.Leads x y → y ∈ found
  waiting : frontier ⊆ found

/-- At the start the seeds are found, and all of them wait. -/
theorem saturating_start {start : List α} (hnodup : start.Nodup) :
    G.Saturating {x | x ∈ start} start start where
  nodup := hnodup
  reached _ hy := subset_reachable hy
  start _ hy := hy
  closed _ hx := .inl hx
  waiting := List.Subset.refl _

variable [DecidableEq α]

/-- Where a place leads to that was not found before, each place once. -/
def fresh (found : List α) (x : α) : List α := ((G.next x).filter (· ∉ found)).dedup

theorem mem_fresh {found : List α} {x y : α} :
    y ∈ G.fresh found x ↔ G.Leads x y ∧ y ∉ found := by
  simp [fresh, Leads]

/-- What is found now is no longer to be found. -/
theorem length_unfound_le (found : List α) (x : α) :
    (G.places.filter (· ∉ found ++ G.fresh found x)).length + (G.fresh found x).length ≤
      (G.places.filter (· ∉ found)).length := by
  have hnodup : (G.fresh found x).Nodup := List.nodup_dedup _
  have hsub : G.fresh found x ⊆
      (G.places.filter (· ∉ found)).filter (· ∈ G.fresh found x) := by
    intro y hy
    have hnew := (G.mem_fresh).1 hy
    simpa [hy, hnew.2] using G.next_subset x hnew.1
  have hle := (hnodup.subperm hsub).length_le
  have hsplit := List.length_eq_length_filter_add (l := G.places.filter (· ∉ found))
    fun y => decide (y ∈ G.fresh found x)
  have hrest : G.places.filter (· ∉ found ++ G.fresh found x) =
      (G.places.filter (· ∉ found)).filter fun y => !decide (y ∈ G.fresh found x) := by
    rw [List.filter_filter]
    refine List.filter_congr fun y _ => ?_
    simp [Bool.and_comm]
  rw [hrest]
  omega

/-- Go on from the top of the frontier until nothing waits there. -/
def saturate (found : List α) : List α → List α
  | [] => found
  | x :: frontier =>
    saturate (found ++ G.fresh found x) ((G.fresh found x).reverse ++ frontier)
termination_by frontier => (G.places.filter (· ∉ found)).length + frontier.length
decreasing_by
  have hle := G.length_unfound_le found x
  rw [List.length_append, List.length_reverse, List.length_cons]
  omega

variable {G} {seeds : Set α} {found frontier : List α}

/-- **Going on from one place** keeps the invariant. -/
theorem Saturating.step {x : α} (h : G.Saturating seeds found (x :: frontier)) :
    G.Saturating seeds (found ++ G.fresh found x) ((G.fresh found x).reverse ++ frontier) where
  nodup := by
    refine List.nodup_append.2 ⟨h.nodup, List.nodup_dedup _, fun a ha b hb => ?_⟩
    rintro rfl
    exact (G.mem_fresh.1 hb).2 ha
  reached y hy := by
    rcases List.mem_append.1 hy with hy | hy
    · exact h.reached y hy
    · exact mem_reachable_of_step (h.reached x (h.waiting List.mem_cons_self)) (G.mem_fresh.1 hy).1
  start y hy := List.mem_append_left _ (h.start y hy)
  closed z hz := by
    by_cases hmem : z ∈ G.fresh found x
    · exact .inl (List.mem_append_left _ (List.mem_reverse.2 hmem))
    have hold := (List.mem_append.1 hz).resolve_right hmem
    rcases h.closed z hold with hwaits | hclosed
    · rcases List.mem_cons.1 hwaits with rfl | hwaits
      · refine .inr fun y hy => ?_
        by_cases hfound : y ∈ found
        · exact List.mem_append_left _ hfound
        · exact List.mem_append_right _ (G.mem_fresh.2 ⟨hy, hfound⟩)
      · exact .inl (List.mem_append_right _ hwaits)
    · exact .inr fun y hy => List.mem_append_left _ (hclosed y hy)
  waiting y hy := by
    rcases List.mem_append.1 hy with hy | hy
    · exact List.mem_append_right _ (List.mem_reverse.1 hy)
    · exact List.mem_append_left _ (h.waiting (List.mem_cons_of_mem _ hy))

/-- The search ends with nothing waiting. -/
theorem saturating_saturate (found frontier : List α) (h : G.Saturating seeds found frontier) :
    G.Saturating seeds (G.saturate found frontier) [] := by
  induction found, frontier using saturate.induct G with
  | case1 found =>
    rw [saturate]
    exact h
  | case2 found x frontier ih =>
    rw [saturate]
    exact ih h.step

/-- **The search finds what the seeds reach.** -/
theorem mem_saturate_iff {start : List α} (hnodup : start.Nodup) {y : α} :
    y ∈ G.saturate start start ↔ y ∈ reachable G.Leads {x | x ∈ start} := by
  have h := saturating_saturate _ _ (saturating_start G hnodup)
  refine ⟨h.reached y, fun hy => ?_⟩
  have hclosed : {z | z ∈ G.saturate start start} ∈ closedOver G.Leads {x | x ∈ start} :=
    ⟨h.start, fun x hx => (h.closed x hx).resolve_left List.not_mem_nil⟩
  exact isLeast_reachable.2 hclosed hy

theorem nodup_saturate {start : List α} (hnodup : start.Nodup) :
    (G.saturate start start).Nodup :=
  (saturating_saturate _ _ (saturating_start G hnodup)).nodup

end FiniteGraph

end Lib
