import CyranoAgent.Contracts.Types
import CyranoAgent.Lib.PosixPath

/-!
# Access to a leased worktree

`checkWorktreeAccess` normalises the root of a lease and the path that is asked for, and compares
their texts. It looks for `.git` on the way from the root to the path only, and a root that only
goes up is in front of every path that goes up further. `contained_iff` says of which paths that it
lets pass the normal form is inside the root, with no `.git` in it.
-/

namespace CyranoAgent

open Lib

/-- A row of `worktree_leases`, as far as the check reads it. -/
structure WorktreeLease where
  leaseId : String
  path : String
  active : Bool

/-- The row of a lease. -/
def worktreeLease? (leases : List WorktreeLease) (leaseId : String) : Option WorktreeLease :=
  leases.find? fun lease => lease.leaseId = leaseId

/-- `check_worktree_access`, from a working directory. -/
def checkWorktreeAccess (cwd : String) (leases : List WorktreeLease) (leaseId path : String) :
    Except Failure Unit :=
  match (worktreeLease? leases leaseId).filter (·.active) with
  | none => .error (.cyrano "LEASE_LOST" leaseId)
  | some lease =>
    let root := normpath lease.path
    let target := normpath path
    if ¬(root ++ "/").toList <+: target.toList ∧ target ≠ root then
      .error (.cyrano "ACL_DENIED" (path ++ " escapes lease root " ++ root))
    else if ".git" ∈ components (relpath cwd target root) then
      .error (.cyrano "ACL_DENIED" "lease may not touch .git internals")
    else .ok ()

/-- The normal form of a path is inside a root, and no component of it is `.git`. -/
def Contained (root path : String) : Prop :=
  (normalForm root).Inside (normalForm path) ∧ ".git" ∉ (normalForm path).parts

instance (root path : String) : Decidable (Contained root path) :=
  inferInstanceAs (Decidable (_ ∧ _))

variable {cwd leaseId path : String} {leases : List WorktreeLease} {lease : WorktreeLease}

/-- What the check asks for. -/
theorem checkWorktreeAccess_eq_ok :
    checkWorktreeAccess cwd leases leaseId path = .ok () ↔
      ∃ lease, worktreeLease? leases leaseId = some lease ∧ lease.active = true ∧
        ((normpath lease.path ++ "/").toList <+: (normpath path).toList ∨
          normpath path = normpath lease.path) ∧
        ".git" ∉ components (relpath cwd (normpath path) (normpath lease.path)) := by
  rw [checkWorktreeAccess]
  cases hlease : (worktreeLease? leases leaseId).filter (·.active) with
  | none =>
    refine iff_of_false (by simp) ?_
    rintro ⟨lease, hfound, hactive, -⟩
    rw [hfound] at hlease
    simp [hactive] at hlease
  | some lease =>
    obtain ⟨hfound, hactive⟩ := Option.filter_eq_some_iff.mp hlease
    simp only [hfound, Option.some.injEq, exists_eq_left', hactive, true_and]
    split_ifs with hescapes hgit
    · refine iff_of_false (by simp) ?_
      rintro ⟨haccepted, -⟩
      exact haccepted.elim hescapes.1 hescapes.2
    · exact iff_of_false (by simp) fun hpass => hpass.2 hgit
    · refine iff_of_true rfl ⟨?_, hgit⟩
      exact (not_and_or.mp hescapes).imp not_not.mp not_not.mp

/-- What the check lets pass starts like the root. -/
theorem parts_of_accepted {root path : String}
    (h : (normpath root ++ "/").toList <+: (normpath path).toList ∨
      normpath path = normpath root) :
    (0 < (normalForm root).slashes ↔ 0 < (normalForm path).slashes) ∧
      ∃ rest, (normalForm path).parts = (normalForm root).parts ++ rest := by
  rw [← text_normalForm, ← text_normalForm] at h
  rcases h with h | h
  · exact NormalPath.parts_of_prefix h
  · rw [NormalPath.text_injective h]
    exact ⟨Iff.rfl, [], (List.append_nil _).symm⟩

/-- **Which paths that pass are inside the root, with no `.git` in them**: the root has none itself,
and the path does not go up further than the root. -/
theorem contained_iff (hcwd : cwd.toList.head? = some '/')
    (hlease : worktreeLease? leases leaseId = some lease)
    (h : checkWorktreeAccess cwd leases leaseId path = .ok ()) :
    Contained lease.path path ↔ ".git" ∉ (normalForm lease.path).parts ∧
      (normalForm path).ups ≤ (normalForm lease.path).ups := by
  obtain ⟨found, hfound, -, haccepted, hgit⟩ := checkWorktreeAccess_eq_ok.mp h
  obtain rfl := Option.some.inj (hlease.symm.trans hfound)
  obtain ⟨hstart, rest, hparts⟩ := parts_of_accepted haccepted
  rw [Contained, NormalPath.inside_iff hstart hparts, hparts, List.mem_append, not_or]
  constructor
  · rintro ⟨hups, hroot, -⟩
    exact ⟨hroot, hups⟩
  · rintro ⟨hroot, hups⟩
    refine ⟨hups, hroot, fun hmem => hgit ?_⟩
    -- what is behind the root is what the check looks at
    have hnames : ∀ name ∈ rest, ProperName name := by
      intro name hname
      refine (normalForm path).proper name ?_
      rw [(NormalPath.names_eq hparts hups).2]
      exact List.mem_append_right _ hname
    have hanchor : (normpath path).toList.head? = some '/' ↔
        (normpath lease.path).toList.head? = some '/' := by
      rw [← initialSlashes_pos, ← initialSlashes_pos, ← text_normalForm, ← text_normalForm,
        NormalPath.initialSlashes_text, NormalPath.initialSlashes_text]
      exact hstart.symm
    have hbelow : pathParts (normpath path) = pathParts (normpath lease.path) ++ rest := by
      rw [← text_normalForm, ← text_normalForm, NormalPath.pathParts_text,
        NormalPath.pathParts_text, hparts]
    rw [components_relpath hcwd hanchor hbelow hnames, if_neg (List.ne_nil_of_mem hmem)]
    exact hmem

/-- A file of a worktree. -/
theorem contained_iff_file :
    Contained "/repo/tree-a" "/repo/tree-a/src/../x.py" ↔
      ".git" ∉ (normalForm "/repo/tree-a").parts ∧
        (normalForm "/repo/tree-a/src/../x.py").ups ≤ (normalForm "/repo/tree-a").ups := by
  have hcwd : "/work".toList.head? = some '/' := by decide
  have hlease : worktreeLease? [⟨"lease-1", "/repo/tree-a", true⟩] "lease-1" =
      some ⟨"lease-1", "/repo/tree-a", true⟩ := rfl
  have hpass : checkWorktreeAccess "/work" [⟨"lease-1", "/repo/tree-a", true⟩] "lease-1"
      "/repo/tree-a/src/../x.py" = .ok () := by decide +kernel
  have hiff := contained_iff hcwd hlease hpass
  dsimp only at hiff
  exact hiff

/-- **A path outside of its root that passes**: the root goes up, and the path goes up further. -/
theorem not_contained : ¬∀ (cwd : String) (leases : List WorktreeLease) (leaseId path : String)
    (lease : WorktreeLease), cwd.toList.head? = some '/' →
    worktreeLease? leases leaseId = some lease →
    checkWorktreeAccess cwd leases leaseId path = .ok () → Contained lease.path path := by
  intro hclaim
  have hcontained := hclaim "/work/repo/tree" [⟨"lease-1", "..", true⟩] "lease-1" "../../etc/x"
    ⟨"lease-1", "..", true⟩ (by decide) rfl (by decide +kernel)
  revert hcontained
  decide

end CyranoAgent
