import CyranoAgent.Contracts.Types
import Mathlib.Data.Finset.Basic

/-!
# Grants and delegation

A grant list is evaluated at a path: a deny wins, and an `only_write` grant implies a deny of
`read`. Delegation intersects two lists. What a list permits at a path is a pair of sets, its
`Rights`, and a delegation should give the meet of the rights of both sides. The merge is made of
the written denies only: `delegation_iff` says which implied ones are lost with it, and when a read
is permitted that one of the sides denies.
-/

namespace CyranoAgent

namespace Kernel

/-! ### Rights -/

/-- What is allowed and what is denied, among the actions `α`. -/
structure Rights (α : Type) where
  allow : Set α
  deny : Set α

namespace Rights

variable {α : Type} {r s t : Rights α} {a : α}

/-- A deny wins. -/
def Permits (r : Rights α) (a : α) : Prop := a ∈ r.allow ∧ a ∉ r.deny

/-- What both sides allow and neither denies. -/
def meet (r s : Rights α) : Rights α := ⟨r.allow ∩ s.allow, r.deny ∪ s.deny⟩

theorem permits_meet : (r.meet s).Permits a ↔ r.Permits a ∧ s.Permits a := by
  simp only [Permits, meet, Set.mem_inter_iff, Set.mem_union, not_or]
  exact and_and_and_comm

/-- Rights that allow no more than a meet and keep its deny of an action narrow both sides. -/
theorem narrow_of_allow_subset (hallow : t.allow ⊆ (r.meet s).allow)
    (hdeny : a ∈ (r.meet s).deny → a ∈ t.deny) (h : t.Permits a) : r.Permits a ∧ s.Permits a :=
  permits_meet.mp ⟨hallow h.1, fun ha => h.2 (hdeny ha)⟩

end Rights

/-! ### Grants -/

/-- `Grant`. -/
structure Grant where
  path : String
  allow : Finset String := ∅
  deny : Finset String := ∅
  deriving DecidableEq

/-- `Decision`. -/
structure Decision where
  allowed : Bool
  code : String
  detail : String := ""
  deriving DecidableEq, Repr

/-- The parts of a relative `PurePosixPath`. -/
def pathParts (path : String) : List String :=
  ((path.toList.splitOn '/').map String.ofList).filter fun part => part ≠ "" ∧ part ≠ "."

/-- `_normalize`. The parts of a path are never empty or a dot, so of the three only `..` can be
refused; the path of no parts is shown as a dot. -/
def normalizePath (path : String) : Except Failure String :=
  if path = "" ∨ '\\' ∈ path.toList ∨ path.toList.head? = some '/' ∨ ".." ∈ pathParts path then
    .error (.cyrano "ACL_DENIED" path)
  else .ok (if pathParts path = [] then "." else "/".intercalate (pathParts path))

/-- The merge of a grant of the child with one of the parent, for the same path. -/
def Grant.merge (cg pg : Grant) : Grant where
  path := cg.path
  allow := cg.allow ∩ pg.allow
  deny := cg.deny ∪ pg.deny

/-- `result` in `intersect_grants`. -/
def mergedGrants (parent child : List Grant) : List Grant :=
  child.flatMap fun cg => (parent.filter fun pg => pg.path = cg.path).map cg.merge

/-- `parent_denies` in `intersect_grants`. -/
def parentDenies (parent result : List Grant) : List Grant :=
  (parent.filter fun g => g.deny ≠ ∅ ∧ ∀ r ∈ result, r.path ≠ g.path).map fun g =>
    { path := g.path, deny := g.deny }

/-- `intersect_grants`. -/
def intersectGrants (parent child : List Grant) : List Grant :=
  mergedGrants parent child ++ parentDenies parent (mergedGrants parent child)

/-- `effective_deny` in `evaluate`. -/
def Grant.effectiveDeny (grant : Grant) : Finset String :=
  if "only_write" ∈ grant.allow then insert "read" grant.deny else grant.deny

/-- A grant allows an action, as `evaluate` collects it. -/
def Grant.Allows (grant : Grant) (action : String) : Prop :=
  action ∈ grant.allow ∨
    (action = "create" ∨ action = "write_existing") ∧ "only_write" ∈ grant.allow

instance (grant : Grant) (action : String) : Decidable (grant.Allows action) :=
  inferInstanceAs (Decidable (_ ∨ _))

/-- The loop of `evaluate` over the grants, and what it returns at their end. -/
def evaluateFrom (action path normalized : String) (preexisting : Bool) :
    List Grant → List Grant → Decision
  | allowedBy, [] =>
    if allowedBy = [] then
      if action = "create" ∧ ¬preexisting then ⟨false, "CREATE_APPROVAL_REQUIRED", path⟩
      else ⟨false, "SCOPE_DENIED", path⟩
    else ⟨true, "ALLOWED", path⟩
  | allowedBy, grant :: grants =>
    if grant.path ≠ normalized then evaluateFrom action path normalized preexisting allowedBy grants
    else if action ∈ grant.effectiveDeny then ⟨false, "DENIED", path⟩
    else evaluateFrom action path normalized preexisting
      (if grant.Allows action then allowedBy ++ [grant] else allowedBy) grants

/-- `evaluate`. -/
def evaluate (action path : String) (grants : List Grant) (preexisting : Bool := false) :
    Except Failure Decision :=
  (normalizePath path).map fun normalized =>
    evaluateFrom action path normalized preexisting [] grants

/-! ### What an evaluation says -/

/-- The rights that a grant list gives at a path. -/
def rightsAt (grants : List Grant) (normalized : String) : Rights String where
  allow := {action | ∃ g ∈ grants, g.path = normalized ∧ g.Allows action}
  deny := {action | ∃ g ∈ grants, g.path = normalized ∧ action ∈ g.effectiveDeny}

/-- The evaluation of an action is `allowed`. -/
def Allowed (action path : String) (preexisting : Bool) (grants : List Grant) : Prop :=
  ∃ decision, evaluate action path grants preexisting = .ok decision ∧ decision.allowed = true

/-- The evaluation of an action finds a deny. -/
def Denied (action path : String) (preexisting : Bool) (grants : List Grant) : Prop :=
  ∃ decision, evaluate action path grants preexisting = .ok decision ∧ decision.code = "DENIED"

section

variable {action path normalized : String} {preexisting : Bool} {grants allowedBy : List Grant}
  {grant : Grant}

theorem mem_effectiveDeny :
    action ∈ grant.effectiveDeny ↔
      action ∈ grant.deny ∨ action = "read" ∧ "only_write" ∈ grant.allow := by
  unfold Grant.effectiveDeny
  split
  next honly => simp [honly, or_comm]
  next honly => simp [honly]

/-- Rights at a path, for one more grant. -/
theorem rightsAt_cons :
    rightsAt (grant :: grants) normalized =
      if grant.path = normalized then
        ⟨{action | grant.Allows action} ∪ (rightsAt grants normalized).allow,
          grant.effectiveDeny ∪ (rightsAt grants normalized).deny⟩
      else rightsAt grants normalized := by
  split
  next heq => simp [rightsAt, heq, Set.ext_iff]
  next hne => simp [rightsAt, hne]

/-- **What the loop decides**, from the grants that allowed the action so far. -/
theorem evaluateFrom_spec (action path normalized : String) (preexisting : Bool)
    (grants allowedBy : List Grant) :
    let decision := evaluateFrom action path normalized preexisting allowedBy grants
    let rights := rightsAt grants normalized
    (decision.code = "DENIED" ↔ action ∈ rights.deny) ∧
      (decision.allowed = true ↔
        (allowedBy ≠ [] ∨ action ∈ rights.allow) ∧ action ∉ rights.deny) := by
  induction grants generalizing allowedBy with
  | nil =>
    dsimp only
    rw [evaluateFrom]
    split
    next hnone => split <;> simp [rightsAt, hnone]
    next hsome => simp [rightsAt, hsome]
  | cons grant grants ih =>
    dsimp only at ih ⊢
    rw [evaluateFrom, rightsAt_cons]
    split
    next => exact ih allowedBy
    next heq =>
      rw [if_pos (not_not.mp heq)]
      split
      next hdeny => simp [hdeny]
      next hdeny =>
        obtain ⟨hcode, hallowed⟩ := ih (if grant.Allows action then allowedBy ++ [grant]
          else allowedBy)
        rw [hcode, hallowed]
        by_cases hallows : grant.Allows action
        · simp [hallows, hdeny]
        · simp [hallows, hdeny]

/-- An action is allowed exactly when the rights at its path permit it. -/
theorem allowed_iff :
    Allowed action path preexisting grants ↔
      ∃ normalized, normalizePath path = .ok normalized ∧
        (rightsAt grants normalized).Permits action := by
  unfold Allowed evaluate
  cases hpath : normalizePath path with
  | error failure => simp [Except.map]
  | ok normalized =>
    have hspec := (evaluateFrom_spec action path normalized preexisting grants []).2
    simpa [Except.map, Rights.Permits] using hspec

/-- An action is denied exactly when the rights at its path deny it. -/
theorem denied_iff :
    Denied action path preexisting grants ↔
      ∃ normalized, normalizePath path = .ok normalized ∧
        action ∈ (rightsAt grants normalized).deny := by
  unfold Denied evaluate
  cases hpath : normalizePath path with
  | error failure => simp [Except.map]
  | ok normalized =>
    have hspec := (evaluateFrom_spec action path normalized preexisting grants []).1
    simpa [Except.map] using hspec

end

/-! ### What a delegation keeps -/

section

variable {parent child : List Grant} {action path normalized : String} {preexisting : Bool}
  {g : Grant}

theorem mem_mergedGrants :
    g ∈ mergedGrants parent child ↔
      ∃ cg ∈ child, ∃ pg ∈ parent, pg.path = cg.path ∧ g = cg.merge pg := by
  simp only [mergedGrants, List.mem_flatMap, List.mem_map, List.mem_filter, decide_eq_true_eq,
    and_assoc, eq_comm (a := g)]

theorem mem_parentDenies {result : List Grant} :
    g ∈ parentDenies parent result ↔
      ∃ pg ∈ parent, pg.deny ≠ ∅ ∧ (∀ r ∈ result, r.path ≠ pg.path) ∧
        g = { path := pg.path, deny := pg.deny } := by
  simp only [parentDenies, List.mem_map, List.mem_filter, decide_eq_true_eq, and_assoc,
    eq_comm (a := g)]

/-- Some grant for the path has the action in its set. -/
def Has (set : Grant → Finset String) (action normalized : String) (grants : List Grant) : Prop :=
  ∃ g ∈ grants, g.path = normalized ∧ action ∈ set g

theorem Has.append {set : Grant → Finset String} :
    Has set action normalized (parent ++ child) ↔
      Has set action normalized parent ∨ Has set action normalized child := by
  simp only [Has, List.mem_append, or_and_right, exists_or]

/-- A list denies at a path what is written, and `read` when a grant is `only_write`. -/
theorem mem_deny {grants : List Grant} :
    action ∈ (rightsAt grants normalized).deny ↔
      Has Grant.deny action normalized grants ∨
        action = "read" ∧ Has Grant.allow "only_write" normalized grants := by
  simp only [rightsAt, Set.mem_ofPred_eq, mem_effectiveDeny, Has, and_or_left, exists_or]
  refine or_congr Iff.rfl ⟨?_, ?_⟩
  · rintro ⟨g, hg, hpath, hread, honly⟩
    exact ⟨hread, g, hg, hpath, honly⟩
  · rintro ⟨hread, g, hg, hpath, honly⟩
    exact ⟨g, hg, hpath, hread, honly⟩

/-- What the merge has in its allow sets, both sides have. -/
theorem has_allow_intersect :
    Has Grant.allow action normalized (intersectGrants parent child) ↔
      Has Grant.allow action normalized parent ∧ Has Grant.allow action normalized child := by
  constructor
  · rintro ⟨g, hg, hpath, haction⟩
    rcases List.mem_append.mp hg with hg | hg
    · obtain ⟨cg, hcg, pg, hpg, hsame, rfl⟩ := mem_mergedGrants.mp hg
      obtain ⟨hc, hp⟩ := Finset.mem_inter.mp haction
      exact ⟨⟨pg, hpg, hsame.trans hpath, hp⟩, cg, hcg, hpath, hc⟩
    · obtain ⟨pg, -, -, -, rfl⟩ := mem_parentDenies.mp hg
      simp at haction
  · rintro ⟨⟨pg, hpg, hppath, hp⟩, cg, hcg, hcpath, hc⟩
    refine ⟨cg.merge pg, List.mem_append_left _ ?_, hcpath, Finset.mem_inter.mpr ⟨hc, hp⟩⟩
    exact mem_mergedGrants.mpr ⟨cg, hcg, pg, hpg, hppath.trans hcpath.symm, rfl⟩

/-- The written denies of the parent are kept, those of the child where the parent has a grant. -/
theorem has_deny_intersect :
    Has Grant.deny action normalized (intersectGrants parent child) ↔
      Has Grant.deny action normalized parent ∨
        Has Grant.deny action normalized child ∧ ∃ g ∈ parent, g.path = normalized := by
  constructor
  · rintro ⟨g, hg, hpath, haction⟩
    rcases List.mem_append.mp hg with hg | hg
    · obtain ⟨cg, hcg, pg, hpg, hsame, rfl⟩ := mem_mergedGrants.mp hg
      rcases Finset.mem_union.mp haction with hc | hp
      · exact .inr ⟨⟨cg, hcg, hpath, hc⟩, pg, hpg, hsame.trans hpath⟩
      · exact .inl ⟨pg, hpg, hsame.trans hpath, hp⟩
    · obtain ⟨pg, hpg, -, -, rfl⟩ := mem_parentDenies.mp hg
      exact .inl ⟨pg, hpg, hpath, haction⟩
  · rintro (⟨pg, hpg, hpath, hp⟩ | ⟨⟨cg, hcg, hcpath, hc⟩, pg, hpg, hpath⟩)
    · by_cases hmerged : ∃ r ∈ mergedGrants parent child, r.path = pg.path
      · obtain ⟨r, hr, hrpath⟩ := hmerged
        obtain ⟨cg, hcg, pg', -, -, rfl⟩ := mem_mergedGrants.mp hr
        refine ⟨cg.merge pg, List.mem_append_left _ ?_, hrpath.trans hpath,
          Finset.mem_union_right _ hp⟩
        exact mem_mergedGrants.mpr ⟨cg, hcg, pg, hpg, hrpath.symm, rfl⟩
      · refine ⟨⟨pg.path, ∅, pg.deny⟩, List.mem_append_right _ ?_, hpath, hp⟩
        refine mem_parentDenies.mpr ⟨pg, hpg, Finset.ne_empty_of_mem hp, ?_, rfl⟩
        exact fun r hr hrpath => hmerged ⟨r, hr, hrpath⟩
    · refine ⟨cg.merge pg, List.mem_append_left _ ?_, hcpath, Finset.mem_union_left _ hc⟩
      exact mem_mergedGrants.mpr ⟨cg, hcg, pg, hpg, hpath.trans hcpath.symm, rfl⟩

/-- A list allows at a path what is written, and writes when a grant is `only_write`. -/
theorem mem_allow {grants : List Grant} :
    action ∈ (rightsAt grants normalized).allow ↔
      Has Grant.allow action normalized grants ∨
        (action = "create" ∨ action = "write_existing") ∧
          Has Grant.allow "only_write" normalized grants := by
  simp only [rightsAt, Set.mem_ofPred_eq, Grant.Allows, Has, and_or_left, exists_or]
  refine or_congr Iff.rfl ⟨?_, ?_⟩
  · rintro ⟨g, hg, hpath, hwrite, honly⟩
    exact ⟨hwrite, g, hg, hpath, honly⟩
  · rintro ⟨hwrite, g, hg, hpath, honly⟩
    exact ⟨g, hg, hpath, hwrite, honly⟩

/-- The intersection allows no more than the meet. -/
theorem allow_intersect_subset (parent child : List Grant) (normalized : String) :
    (rightsAt (intersectGrants parent child) normalized).allow ⊆
      ((rightsAt parent normalized).meet (rightsAt child normalized)).allow := by
  intro action haction
  rcases mem_allow.mp haction with hwritten | ⟨hwrite, honly⟩
  · obtain ⟨hp, hc⟩ := has_allow_intersect.mp hwritten
    exact ⟨mem_allow.mpr (.inl hp), mem_allow.mpr (.inl hc)⟩
  · obtain ⟨hp, hc⟩ := has_allow_intersect.mp honly
    exact ⟨mem_allow.mpr (.inr ⟨hwrite, hp⟩), mem_allow.mpr (.inr ⟨hwrite, hc⟩)⟩

/-- An allowed action narrows both sides. -/
def Narrows (parent child : List Grant) (action path : String) (preexisting : Bool) : Prop :=
  Allowed action path preexisting (intersectGrants parent child) →
    Allowed action path preexisting parent ∧ Allowed action path preexisting child

/-- No deny of either side is lost. -/
def KeepsDenies (parent child : List Grant) (action path : String) (preexisting : Bool) : Prop :=
  Denied action path preexisting parent ∨ Denied action path preexisting child →
    Denied action path preexisting (intersectGrants parent child)

/-- The deny of `read` that an `only_write` grant of either side implies is there after the merge:
`read` is denied in writing as well, or both sides have an `only_write` grant for the path. -/
def ImpliedDenyKept (parent child : List Grant) (normalized : String) : Prop :=
  Has Grant.allow "only_write" normalized (parent ++ child) →
    Has Grant.deny "read" normalized (parent ++ child) ∨
      Has Grant.allow "only_write" normalized parent ∧ Has Grant.allow "only_write" normalized child

/-- **When the intersection denies** what either side denies. -/
theorem denies_kept_iff :
    (action ∈ ((rightsAt parent normalized).meet (rightsAt child normalized)).deny →
        action ∈ (rightsAt (intersectGrants parent child) normalized).deny) ↔
      (Has Grant.deny action normalized child → ∃ g ∈ parent, g.path = normalized) ∧
        (action = "read" → ImpliedDenyKept parent child normalized) := by
  have hp : ∀ set action, Has set action normalized parent → ∃ g ∈ parent, g.path = normalized :=
    fun set action ⟨g, hg, hpath, _⟩ => ⟨g, hg, hpath⟩
  have hmeet : action ∈ ((rightsAt parent normalized).meet (rightsAt child normalized)).deny ↔
      Has Grant.deny action normalized (parent ++ child) ∨
        action = "read" ∧ Has Grant.allow "only_write" normalized (parent ++ child) := by
    rw [Has.append, Has.append]
    refine (or_congr mem_deny mem_deny).trans ?_
    tauto
  rw [hmeet, mem_deny, has_deny_intersect, has_allow_intersect]
  constructor
  · intro hkept
    refine ⟨fun hchild => ?_, fun hread honly => ?_⟩
    · rcases hkept (.inl (Has.append.mpr (.inr hchild))) with (hdeny | ⟨-, hpath⟩) | ⟨-, honly, -⟩
      · exact hp _ _ hdeny
      · exact hpath
      · exact hp _ _ honly
    · subst hread
      rcases hkept (.inr ⟨rfl, honly⟩) with (hdeny | ⟨hdeny, -⟩) | ⟨-, hboth⟩
      · exact .inl (Has.append.mpr (.inl hdeny))
      · exact .inl (Has.append.mpr (.inr hdeny))
      · exact .inr hboth
  · rintro ⟨hwritten, himplied⟩
    have hexplicit : Has Grant.deny action normalized (parent ++ child) →
        Has Grant.deny action normalized parent ∨
          Has Grant.deny action normalized child ∧ ∃ g ∈ parent, g.path = normalized :=
      fun hdeny => (Has.append.mp hdeny).imp_right fun hchild => ⟨hchild, hwritten hchild⟩
    rintro (hdeny | ⟨rfl, honly⟩)
    · exact .inl (hexplicit hdeny)
    · exact (himplied rfl honly).imp hexplicit fun hboth => ⟨rfl, hboth⟩

/-- Reads are allowed in writing only. -/
theorem has_allow_of_read {grants : List Grant}
    (h : "read" ∈ (rightsAt grants normalized).allow) :
    Has Grant.allow "read" normalized grants := by
  rcases mem_allow.mp h with hread | ⟨hwrite, -⟩
  · exact hread
  · exact absurd hwrite (by decide)

/-- **When what the intersection permits is permitted by both sides.** -/
theorem permits_both_iff :
    ((rightsAt (intersectGrants parent child) normalized).Permits action →
        (rightsAt parent normalized).Permits action ∧
          (rightsAt child normalized).Permits action) ↔
      (action = "read" → Has Grant.allow "read" normalized parent →
        Has Grant.allow "read" normalized child → ImpliedDenyKept parent child normalized) := by
  constructor
  · rintro hboth rfl hp hc honly
    by_contra hlost
    obtain ⟨hwritten, hone⟩ := not_or.mp hlost
    obtain ⟨hwp, hwc⟩ := not_or.mp fun h => hwritten (Has.append.mpr h)
    -- nothing in the merge denies the read that both sides list
    have hpermits : (rightsAt (intersectGrants parent child) normalized).Permits "read" := by
      refine ⟨mem_allow.mpr (.inl (has_allow_intersect.mpr ⟨hp, hc⟩)), fun hdeny => ?_⟩
      rw [mem_deny, has_deny_intersect, has_allow_intersect] at hdeny
      rcases hdeny with (hdeny | ⟨hdeny, -⟩) | ⟨-, hdeny⟩
      · exact hwp hdeny
      · exact hwc hdeny
      · exact hone hdeny
    obtain ⟨⟨-, hnp⟩, -, hnc⟩ := hboth hpermits
    rcases Has.append.mp honly with honly | honly
    · exact hnp (mem_deny.mpr (.inr ⟨rfl, honly⟩))
    · exact hnc (mem_deny.mpr (.inr ⟨rfl, honly⟩))
  · intro hkept hpermits
    have hallow := allow_intersect_subset parent child normalized
    obtain ⟨hp, hc⟩ := hallow hpermits.1
    refine Rights.narrow_of_allow_subset hallow (denies_kept_iff.mpr ⟨fun _ => ?_, ?_⟩) hpermits
    · obtain ⟨g, hg, hpath, -⟩ := hp
      exact ⟨g, hg, hpath⟩
    · rintro rfl
      exact hkept rfl (has_allow_of_read hp) (has_allow_of_read hc)

/-- **When a delegation narrows, and when it keeps every deny**, for any grant lists, action and
path. An allowed action is allowed by both sides unless it is a read that both sides list, that
only one of them denies, and only by an `only_write` grant. -/
theorem delegation_iff (parent child : List Grant) (action path : String) (preexisting : Bool) :
    (Narrows parent child action path preexisting ↔
      ∀ normalized, normalizePath path = .ok normalized → action = "read" →
        Has Grant.allow "read" normalized parent → Has Grant.allow "read" normalized child →
          ImpliedDenyKept parent child normalized) ∧
    (Narrows parent child action path preexisting ∧
        KeepsDenies parent child action path preexisting ↔
      ∀ normalized, normalizePath path = .ok normalized →
        (Has Grant.deny action normalized child → ∃ g ∈ parent, g.path = normalized) ∧
          (action = "read" → ImpliedDenyKept parent child normalized)) := by
  simp only [Narrows, KeepsDenies, allowed_iff, denied_iff]
  cases hpath : normalizePath path with
  | error failure => simp
  | ok normalized =>
    simp only [Except.ok.injEq, exists_eq_left', forall_eq']
    refine ⟨permits_both_iff, ?_⟩
    rw [← denies_kept_iff, Rights.meet, Set.mem_union]
    refine and_iff_right_of_imp fun hkept hpermits => ?_
    exact Rights.narrow_of_allow_subset (allow_intersect_subset parent child normalized) hkept
      hpermits

end

/-! ### A read that the child may not make -/

/-- The parent may read the path. -/
def readerGrants : List Grant := [{ path := "src", allow := {"read"} }]

/-- The child may only write there: `evaluate` denies it the read that it also lists. -/
def writerGrants : List Grant := [{ path := "src", allow := {"read", "only_write"} }]

/-- **A read that the child is denied is allowed by the delegation.** -/
theorem denied_read_allowed : ¬∀ (parent child : List Grant) (action path : String)
    (preexisting : Bool), Narrows parent child action path preexisting := by
  intro hclaim
  have hallowed : evaluate "read" "src" (intersectGrants readerGrants writerGrants) =
      .ok ⟨true, "ALLOWED", "src"⟩ := by decide
  have hdenied : evaluate "read" "src" writerGrants = .ok ⟨false, "DENIED", "src"⟩ := by decide
  obtain ⟨-, decision, hdecision, htrue⟩ :=
    hclaim readerGrants writerGrants "read" "src" false ⟨_, hallowed, rfl⟩
  obtain rfl : decision = _ := Except.ok.inj (hdecision.symm.trans hdenied)
  cases htrue

end Kernel

end CyranoAgent
