import CyranoAgent.Contracts.Canonical
import CyranoAgent.Lib.Closure
import CyranoAgent.Lib.Dict

/-!
# References between documents

`validateReferences` holds the references of documents to the digests that are known, to scopes and
to types, and reports every document that reaches itself. The search looks at ids: it keeps the
references of the last document of an id, and the id of the last document of a digest
(`mem_cycles_iff`). So it reports the documents on a cycle, and no others, where documents that
share an id share their references and their digest, and documents that share a digest share their
id (`reports_iff`). It always comes to an end.
-/

namespace CyranoAgent

open Lib Relation

namespace References

/-- A contract document: its fields, in their order. -/
abbrev Document := Dict String PyValue

/-- What the code takes from the language for its texts. -/
structure Language where
  /-- `str(value)`. -/
  text : PyValue → String
  text_str : ∀ s, text (.str s) = s
  /-- `part.capitalize()`. -/
  capitalize : String → String

/-- The order in which a set is iterated. -/
structure SetOrder where
  order : List String → List String
  perm : ∀ members, (order members).Perm members

/-! ### Projections -/

/-- `ProjectionRule`. -/
structure ProjectionRule where
  typeName : String
  schemaVersion : String
  subjectFields : List String
  envelopeFields : List String

/-- `ProjectionTable`. -/
structure ProjectionTable where
  rules : Dict String ProjectionRule

/-- `ProjectionTable.rule`. -/
def ProjectionTable.rule (table : ProjectionTable) (schemaType : String) :
    Except Failure ProjectionRule :=
  match table.rules.get? schemaType with
  | none => .error (.cyrano "UNKNOWN_SUBJECT_TYPE" schemaType)
  | some rule => .ok rule

/-- `ProjectionTable.binding_digest`. -/
def ProjectionTable.bindingDigest (P : Primitives) (table : ProjectionTable) (schemaType : String)
    (document : Document) : Except Failure String := do
  let rule ← table.rule schemaType
  let allowed := rule.subjectFields ++ rule.envelopeFields
  if ¬(document.keys ⊆ allowed ∧ allowed ⊆ document.keys) then
    throw (.cyrano "INVALID_SUBJECT_FIELDS" "validate the complete typed envelope")
  let subject := rule.subjectFields.filterMap fun key =>
    (document.get? key).map fun value => (PyKey.str key, value)
  digest P (.dict [(.str "projection_version", .str "1"), (.str "schema_type", .str schemaType),
    (.str "subject", .dict subject)])

/-! ### Fields of a document -/

/-- `_REFERENCE_TARGETS`. -/
def referenceTargets : List (String × List String) :=
  [("learning_work_plan_digest", ["LearningWorkPlan"]),
    ("candidate_digest", ["CandidateProposal"]),
    ("candidate_input_digest", ["CandidateProposal"]),
    ("experiment_plan_digest", ["ExperimentPlan"]),
    ("baseline_release_digest", ["HarnessRelease"]),
    ("baseline_input_digest", ["HarnessRelease"]),
    ("parent_release_digest", ["HarnessRelease"]),
    ("rollback_release_digest", ["HarnessRelease"]),
    ("release_digest", ["HarnessRelease"]),
    ("release_subject_digest", ["HarnessRelease"]),
    ("contract_digest", ["InterviewContract"]),
    ("contract_subject_digest", ["InterviewContract"]),
    ("work_plan_subject_digest", ["GovernedWorkPlan"]),
    ("memory_subject_digest", ["MemoryRecord"]),
    ("depends_on_digests", ["MemoryRecord"])]

/-- `key.endswith(suffix)`. -/
def endsWith (key suffix : String) : Bool := suffix.toList.isSuffixOf key.toList

/-- The strings among the items of a list. -/
def strings (items : List PyValue) : List String :=
  items.filterMap fun
    | .str s => some s
    | _ => none

/-- `_ref_values`. -/
def refValues (document : Document) : List (String × String) :=
  document.entries.flatMap fun
    | (key, .str s) => if endsWith key "_digest" || endsWith key "_ref" then [(key, s)] else []
    | (key, .list items) =>
      if endsWith key "_digests" || endsWith key "_refs" then (strings items).map (key, ·) else []
    | _ => []

/-- The references of a document, as a set. -/
def refs (document : Document) : List String := ((refValues document).map Prod.snd).dedup

section

variable (lang : Language)

/-- `_doc_id`. -/
def docId (document : Document) : String :=
  match document.get? "id" with
  | none | some .none => "<no-id>"
  | some value => lang.text value

/-- `_type_name`. -/
def typeName (document : Document) : String :=
  match document.get? "kind" with
  | some (.str kind) =>
    String.join ((kind.toList.splitOn '_').map fun part => lang.capitalize (String.ofList part))
  | _ => ""

/-- `_scope_key`. -/
def scopeKey (document : Document) : Option (List String) :=
  match document.get? "scope" with
  | some (.dict scope) =>
    some (["tenant", "user", "workspace"].map fun k =>
      lang.text ((PyMapping.get? scope k).getD .none))
  | _ => none

/-- The digest of a document's subject, if it has one. Every exception of `binding_digest` is a
`CyranoError`, so none gets through. -/
def subjectDigest? (P : Primitives) (table : ProjectionTable) (document : Document) :
    Option String :=
  if typeName lang document = "" then none
  else match table.rule (typeName lang document) with
    | .error _ => none
    | .ok rule => (table.bindingDigest P rule.typeName document).toOption

/-- `_subject_digests`. -/
def subjectDigests (P : Primitives) (table : ProjectionTable) (docs : List Document) :
    Dict String Document :=
  Dict.ofList (docs.filterMap fun doc => (subjectDigest? lang P table doc).map fun d => (d, doc))

end

/-! ### Findings -/

/-- `ReferenceFinding`. -/
structure ReferenceFinding where
  code : String
  documentId : String
  field : String
  detail : String
  deriving DecidableEq

/-- What the search from a document keeps: the ids it has come to, and those it has to go on from,
the next one first. -/
structure Search where
  visiting : List String
  stack : List String

/-- The inner loop of `_cycles`: the reference that leads back, if there is one. -/
def visit (owner : Dict String String) (docId : String) : List String → Search →
    Option String × Search
  | [], s => (none, s)
  | ref :: rest, s =>
    match owner.get? ref with
    | none => visit owner docId rest s
    | some target =>
      if target = docId then (some ref, s)
      else if target ∈ s.visiting then visit owner docId rest s
      else visit owner docId rest ⟨s.visiting ++ [target], target :: s.stack⟩

/-- What is found of a reference that leads back. -/
def circularIdentity (docId ref : String) : ReferenceFinding :=
  ⟨"CIRCULAR_IDENTITY", docId, "subject_graph", ref⟩

/-- The loop of `_cycles` over the stack, at most `fuel` times. -/
def search (sets : SetOrder) (owner : Dict String String) (edges : Dict String (List String))
    (docId : String) : ℕ → Search → Option (List ReferenceFinding)
  | _, ⟨_, []⟩ => some []
  | 0, ⟨_, _ :: _⟩ => none
  | fuel + 1, ⟨visiting, node :: stack⟩ =>
    let (hit, s) := visit owner docId (sets.order ((edges.get? node).getD [])) ⟨visiting, stack⟩
    (search sets owner edges docId fuel s).map fun rest =>
      (hit.map (circularIdentity docId)).toList ++ rest

/-- `_cycles`. -/
def cycles (sets : SetOrder) (lang : Language) (fuel : ℕ) (subjects : Dict String Document)
    (edges : Dict String (List String)) : Option (List ReferenceFinding) :=
  let owner := subjects.map (docId lang)
  (edges.keys.mapM fun id => search sets owner edges id fuel ⟨[], [id]⟩).map List.flatten

/-- What is found of one reference of a document. -/
def referenceFindings (lang : Language) (subjects : Dict String Document) (known : List String)
    (expected : Dict String String) (doc : Document) (field value : String) :
    List ReferenceFinding :=
  let id := docId lang doc
  if value ∉ known then [⟨"DANGLING_REFERENCE", id, field, value⟩]
  else match subjects.get? value with
    | none => []
    | some target =>
      (if scopeKey lang target ≠ scopeKey lang doc then [⟨"SCOPE_MISMATCH", id, field, value⟩]
        else []) ++
      (match referenceTargets.lookup field with
        | some allowed =>
          if typeName lang target ∉ allowed then [⟨"FORBIDDEN_REFERENCE", id, field, value⟩]
          else []
        | none => []) ++
      (match expected.get? field with
        | some digest => if digest ≠ value then [⟨"DIGEST_MISMATCH", id, field, value⟩] else []
        | none => [])

/-- What the loop of `validate_references` finds of the references of documents. -/
def documentFindings (lang : Language) (subjects : Dict String Document) (known : List String)
    (expected : Dict String String) (docs : List Document) : List ReferenceFinding :=
  docs.flatMap fun doc => (refValues doc).flatMap fun (field, value) =>
    referenceFindings lang subjects known expected doc field value

/-- `validate_references`, `none` when the fuel of a search runs out. -/
def validateReferences (sets : SetOrder) (lang : Language) (P : Primitives) (fuel : ℕ)
    (docs : List Document) (table : ProjectionTable) (knownDigests : List String)
    (expected : Dict String String) : Option (List ReferenceFinding) :=
  let subjects := subjectDigests lang P table docs
  let findings := documentFindings lang subjects (knownDigests ++ subjects.keys) expected docs
  let edges := Dict.ofList (docs.map fun doc => (docId lang doc, refs doc))
  (cycles sets lang fuel subjects edges).map (findings ++ ·)

/-! ### The search -/

section

variable {sets : SetOrder} {owner : Dict String String} {edges : Dict String (List String)}
  {root : String} {s s' : Search} {fuel : ℕ} {findings : List ReferenceFinding}

/-- The edges that the search follows: a reference of the id, to a digest of the other one. -/
def Follows (owner : Dict String String) (edges : Dict String (List String)) (u v : String) :
    Prop :=
  ∃ refs, edges.get? u = some refs ∧ ∃ ref ∈ refs, owner.get? ref = some v

/-- An upper bound of the places the search has to go on from. -/
def remaining (owner : Dict String String) (s : Search) : ℕ :=
  s.stack.length + (owner.values.filter (· ∉ s.visiting)).length

/-- **What the inner loop does** with the references of a node: what is new waits, and unless a
reference leads back, all that they lead to was found. -/
structure Visited (owner : Dict String String) (root : String) (refs : List String) (s : Search)
    (hit : Option String) (s' : Search) (new : List String) : Prop where
  visiting : s'.visiting = s.visiting ++ new
  stack : ∀ y, y ∈ s'.stack ↔ y ∈ new ∨ y ∈ s.stack
  led : ∀ y ∈ new, y ≠ root ∧ ∃ ref ∈ refs, owner.get? ref = some y
  back : ∀ ref, hit = some ref → ref ∈ refs ∧ owner.get? ref = some root
  all : hit = none → ∀ ref ∈ refs, ∀ y, owner.get? ref = some y →
    y ≠ root ∧ (y ∈ s.visiting ∨ y ∈ new)
  bound : remaining owner s' ≤ remaining owner s

/-- A new place takes itself off those that were not found. -/
theorem remaining_push {target : String} (htarget : target ∈ owner.values)
    (hnew : target ∉ s.visiting) :
    remaining owner ⟨s.visiting ++ [target], target :: s.stack⟩ ≤ remaining owner s := by
  have hfilter : owner.values.filter (· ∉ s.visiting ++ [target]) =
      (owner.values.filter (· ∉ s.visiting)).filter (· ≠ target) := by
    rw [List.filter_filter]
    refine List.filter_congr fun y _ => ?_
    simp [not_or, and_comm]
  have hlt : ((owner.values.filter (· ∉ s.visiting)).filter (· ≠ target)).length <
      (owner.values.filter (· ∉ s.visiting)).length := by
    refine List.length_filter_lt_length_iff_exists.mpr ⟨target, ?_, by simp⟩
    exact List.mem_filter.mpr ⟨htarget, by simpa using hnew⟩
  rw [remaining, remaining, hfilter, List.length_cons]
  omega

theorem visited_visit (owner : Dict String String) (root : String) (refs : List String)
    (s : Search) : ∃ new, Visited owner root refs s (visit owner root refs s).1
      (visit owner root refs s).2 new := by
  induction refs generalizing s with
  | nil =>
    refine ⟨[], (List.append_nil _).symm, fun y => by simp [visit], fun y hy => ?_, ?_, ?_, le_rfl⟩
    · exact absurd hy List.not_mem_nil
    · exact fun ref h => absurd h (by simp [visit])
    · exact fun _ ref href => absurd href List.not_mem_nil
  | cons ref rest ih =>
    rw [visit]
    -- a loop over the rest does so over all, if the first reference adds nothing
    have hskip (s₁ : Search) (pushed : List String)
        (hvisiting : s₁.visiting = s.visiting ++ pushed)
        (hstack : ∀ y, y ∈ s₁.stack ↔ y ∈ pushed ∨ y ∈ s.stack)
        (hled : ∀ y ∈ pushed, y ≠ root ∧ owner.get? ref = some y)
        (hall : ∀ y, owner.get? ref = some y → y ≠ root ∧ y ∈ s₁.visiting)
        (hbound : remaining owner s₁ ≤ remaining owner s) :
        ∃ new, Visited owner root (ref :: rest) s (visit owner root rest s₁).1
          (visit owner root rest s₁).2 new := by
      obtain ⟨new, h⟩ := ih s₁
      refine ⟨pushed ++ new, ?_, fun y => ?_, fun y hy => ?_, fun r hr => ?_,
        fun hnone r hr y hy => ?_, h.bound.trans hbound⟩
      · rw [h.visiting, hvisiting, List.append_assoc]
      · rw [h.stack, hstack, List.mem_append]
        exact or_left_comm.trans or_assoc.symm
      · rcases List.mem_append.mp hy with hy | hy
        · exact ⟨(hled y hy).1, ref, List.mem_cons_self, (hled y hy).2⟩
        · obtain ⟨hne, r, hr, howner⟩ := h.led y hy
          exact ⟨hne, r, List.mem_cons_of_mem _ hr, howner⟩
      · exact ⟨List.mem_cons_of_mem _ (h.back r hr).1, (h.back r hr).2⟩
      · rw [List.mem_append, ← or_assoc, ← List.mem_append, ← hvisiting]
        rcases List.mem_cons.mp hr with rfl | hr
        · exact (hall y hy).imp_right .inl
        · exact h.all hnone r hr y hy
    rcases howner : owner.get? ref with _ | target
    · exact hskip s [] (by simp) (by simp) (by simp) (by simp [howner]) le_rfl
    dsimp only
    by_cases hback : target = root
    · rw [if_pos hback]
      refine ⟨[], (List.append_nil _).symm, fun y => by simp, fun y hy => ?_, ?_, ?_, le_rfl⟩
      · exact absurd hy List.not_mem_nil
      · rintro r ⟨⟩
        exact ⟨List.mem_cons_self, hback ▸ howner⟩
      · exact fun h => absurd h (by simp)
    rw [if_neg hback]
    by_cases hold : target ∈ s.visiting
    · rw [if_pos hold]
      refine hskip s [] (by simp) (by simp) (by simp) (fun y hy => ?_) le_rfl
      obtain rfl := Option.some.inj (howner.symm.trans hy)
      exact ⟨hback, hold⟩
    · rw [if_neg hold]
      refine hskip _ [target] rfl (by simp) ?_ (fun y hy => ?_)
        (remaining_push (Dict.mem_values_iff.mpr ⟨ref, howner⟩) hold)
      · rintro y hy
        rw [List.mem_singleton.mp hy]
        exact ⟨hback, howner⟩
      · obtain rfl := Option.some.inj (howner.symm.trans hy)
        exact ⟨hback, List.mem_concat_self⟩

/-- **The search comes to an end**, with fuel for what remains, and more fuel changes nothing. -/
theorem exists_search_eq (h : remaining owner s ≤ fuel) :
    ∃ findings, ∀ fuel' ≥ fuel, search sets owner edges root fuel' s = some findings := by
  induction fuel generalizing s with
  | zero =>
    have hstack : s.stack = [] := by
      rw [remaining] at h
      exact List.length_eq_zero_iff.mp (by omega)
    obtain ⟨visiting, stack⟩ := s
    obtain rfl : stack = [] := hstack
    exact ⟨[], fun fuel' _ => by rw [search]⟩
  | succ fuel ih =>
    obtain ⟨visiting, _ | ⟨node, stack⟩⟩ := s
    · exact ⟨[], fun fuel' _ => by rw [search]⟩
    obtain ⟨new, hvisited⟩ := visited_visit owner root (sets.order ((edges.get? node).getD []))
      ⟨visiting, stack⟩
    have hbound : remaining owner (visit owner root (sets.order ((edges.get? node).getD []))
        ⟨visiting, stack⟩).2 ≤ fuel := by
      refine hvisited.bound.trans ?_
      rw [remaining, List.length_cons] at h
      rw [remaining]
      dsimp only at h ⊢
      omega
    obtain ⟨findings, hfindings⟩ := ih hbound
    refine ⟨((visit owner root (sets.order ((edges.get? node).getD [])) ⟨visiting, stack⟩).1.map
      (circularIdentity root)).toList ++ findings, fun fuel' hle => ?_⟩
    obtain ⟨m, rfl⟩ : ∃ m, fuel' = m + 1 := ⟨fuel' - 1, by omega⟩
    rw [search]
    exact congrArg (Option.map _) (hfindings m (by omega))

/-- A node leads where its references do. -/
theorem follows_iff {node y : String} : Follows owner edges node y ↔
    ∃ ref ∈ sets.order ((edges.get? node).getD []), owner.get? ref = some y := by
  rw [Follows]
  rcases edges.get? node with _ | refs
  · have hnil := sets.perm []
    simp [hnil.eq_nil]
  · simp [(sets.perm refs).mem_iff]

/-- **What the search reports is a cycle**: a reference leads back from where the search has come
to. -/
theorem search_sound (h : search sets owner edges root fuel s = some findings)
    (hvisiting : ∀ y ∈ s.visiting, TransGen (Follows owner edges) root y)
    (hstack : ∀ y ∈ s.stack, y = root ∨ y ∈ s.visiting) :
    ∀ f ∈ findings, (f.code = "CIRCULAR_IDENTITY" ∧ f.documentId = root) ∧
      TransGen (Follows owner edges) root root := by
  induction fuel generalizing s findings with
  | zero =>
    obtain ⟨visiting, _ | ⟨node, stack⟩⟩ := s
    · rw [search] at h
      obtain rfl := Option.some.inj h
      exact fun f hf => absurd hf List.not_mem_nil
    · rw [search] at h
      cases h
  | succ fuel ih =>
    obtain ⟨visiting, _ | ⟨node, stack⟩⟩ := s
    · rw [search] at h
      obtain rfl := Option.some.inj h
      exact fun f hf => absurd hf List.not_mem_nil
    obtain ⟨new, hvisited⟩ := visited_visit owner root (sets.order ((edges.get? node).getD []))
      ⟨visiting, stack⟩
    rw [search, Option.map_eq_some_iff] at h
    obtain ⟨rest, hrest, rfl⟩ := h
    have hreach {y : String} (hy : Follows owner edges node y) :
        TransGen (Follows owner edges) root y := by
      rcases hstack node List.mem_cons_self with rfl | hnode
      · exact .single hy
      · exact (hvisiting node hnode).tail hy
    intro f hf
    rcases List.mem_append.mp hf with hf | hf
    · obtain ⟨ref, href, rfl⟩ := Option.map_eq_some_iff.mp (Option.mem_toList.mp hf)
      exact ⟨⟨rfl, rfl⟩, hreach (follows_iff.mpr ⟨ref, hvisited.back ref href⟩)⟩
    · refine ih hrest (fun y hy => ?_) (fun y hy => ?_) f hf
      · rw [hvisited.visiting] at hy
        rcases List.mem_append.mp hy with hy | hy
        · exact hvisiting y hy
        · exact hreach (follows_iff.mpr (hvisited.led y hy).2)
      · rw [hvisited.visiting, List.mem_append]
        rcases (hvisited.stack y).mp hy with hy | hy
        · exact .inr (.inr hy)
        · exact (hstack y (List.mem_cons_of_mem _ hy)).imp_right .inl

/-- **A search that reports nothing** has found all that its root leads to, and not the root. -/
theorem search_complete (h : search sets owner edges root fuel s = some [])
    (hs : Explored (Follows owner edges) root s.visiting s.stack) (hroot : root ∉ s.visiting) :
    ¬TransGen (Follows owner edges) root root := by
  induction fuel generalizing s with
  | zero =>
    obtain ⟨visiting, _ | ⟨node, stack⟩⟩ := s
    · exact fun hcycle => hroot (hs.mem_iff.mpr hcycle)
    · rw [search] at h
      cases h
  | succ fuel ih =>
    obtain ⟨visiting, _ | ⟨node, stack⟩⟩ := s
    · exact fun hcycle => hroot (hs.mem_iff.mpr hcycle)
    obtain ⟨new, hvisited⟩ := visited_visit owner root (sets.order ((edges.get? node).getD []))
      ⟨visiting, stack⟩
    rw [search, Option.map_eq_some_iff] at h
    obtain ⟨rest, hrest, heq⟩ := h
    obtain ⟨hhit, rfl⟩ := List.append_eq_nil_iff.mp heq
    have hnone : (visit owner root (sets.order ((edges.get? node).getD []))
        ⟨visiting, stack⟩).1 = none := by
      rcases hvisit : (visit owner root (sets.order ((edges.get? node).getD []))
        ⟨visiting, stack⟩).1 with _ | ref
      · rfl
      · rw [hvisit] at hhit
        cases hhit
    refine ih hrest ?_ ?_
    · rw [hvisited.visiting]
      refine hs.step (fun y hy => follows_iff.mpr (hvisited.led y hy).2) (fun y hy => ?_)
        hvisited.stack
      obtain ⟨ref, href, howner⟩ := follows_iff.mp hy
      exact (hvisited.all hnone ref href y howner).2
    · rw [hvisited.visiting, List.mem_append, not_or]
      exact ⟨hroot, fun hmem => (hvisited.led root hmem).1 rfl⟩

end

/-- An error reports a document as part of a cycle. -/
def Reports (findings : List ReferenceFinding) (id : String) : Prop :=
  ∃ f ∈ findings, f.code = "CIRCULAR_IDENTITY" ∧ f.documentId = id

/-- **A search from an id** comes to an end, and reports the id exactly if it leads back to
itself. -/
theorem exists_search (sets : SetOrder) (owner : Dict String String)
    (edges : Dict String (List String)) (id : String) : ∃ found,
    (∀ fuel > owner.entries.length, search sets owner edges id fuel ⟨[], [id]⟩ = some found) ∧
      (∀ f ∈ found, f.code = "CIRCULAR_IDENTITY" ∧ f.documentId = id) ∧
      (found ≠ [] ↔ TransGen (Follows owner edges) id id) := by
  have hbound : remaining owner ⟨[], [id]⟩ ≤ owner.entries.length + 1 := by
    have hlength : (owner.values.filter (· ∉ (⟨[], [id]⟩ : Search).visiting)).length ≤
        owner.entries.length := (List.length_filter_le _ _).trans_eq (List.length_map _)
    rw [remaining, Nat.add_comm]
    exact Nat.add_le_add_right hlength 1
  obtain ⟨found, hfound⟩ := @exists_search_eq sets owner edges id _ _ hbound
  have hsearch := hfound _ le_rfl
  have hsound := search_sound hsearch (fun y hy => absurd hy List.not_mem_nil)
    fun y hy => .inl (List.mem_singleton.mp hy)
  refine ⟨found, hfound, fun f hf => (hsound f hf).1, fun hne => ?_, fun hcycle hnil => ?_⟩
  · obtain ⟨f, hf⟩ := List.exists_mem_of_ne_nil _ hne
    exact (hsound f hf).2
  · rw [hnil] at hsearch
    exact search_complete hsearch (Explored.start _ _) List.not_mem_nil hcycle

/-- **What `_cycles` reports**: the ids that lead back to themselves. -/
theorem exists_cycles (sets : SetOrder) (lang : Language) (subjects : Dict String Document)
    (edges : Dict String (List String)) : ∃ findings,
    (∀ fuel > subjects.entries.length, cycles sets lang fuel subjects edges = some findings) ∧
      ∀ id, Reports findings id ↔
        TransGen (Follows (subjects.map (docId lang)) edges) id id := by
  choose found hfound hcode hcycle using exists_search sets (subjects.map (docId lang)) edges
  have hlength : (subjects.map (docId lang)).entries.length = subjects.entries.length :=
    List.length_map _
  refine ⟨(edges.keys.map found).flatten, fun fuel hfuel => ?_, fun id => ?_⟩
  · have hmap (ids : List String) : (ids.mapM fun id =>
        search sets (subjects.map (docId lang)) edges id fuel ⟨[], [id]⟩) =
          some (ids.map found) := by
      induction ids with
      | nil => rfl
      | cons id ids ih =>
        rw [List.mapM_cons, hfound id fuel (hlength ▸ hfuel), ih]
        rfl
    rw [cycles, hmap]
    rfl
  rw [← hcycle]
  constructor
  · rintro ⟨f, hf, -, rfl⟩
    obtain ⟨_, hlist, hf⟩ := List.mem_flatten.mp hf
    obtain ⟨id, -, rfl⟩ := List.mem_map.mp hlist
    rw [(hcode id f hf).2]
    exact List.ne_nil_of_mem hf
  · intro hne
    obtain ⟨f, hf⟩ := List.exists_mem_of_ne_nil _ hne
    -- an id that leads somewhere is the id of a document
    have hkey : id ∈ edges.keys := by
      obtain ⟨y, ⟨refs, hrefs, -⟩, -⟩ := TransGen.head'_iff.mp ((hcycle id).mp hne)
      exact Dict.mem_keys_iff.mpr ⟨refs, hrefs⟩
    exact ⟨f, List.mem_flatten.mpr ⟨_, List.mem_map_of_mem hkey, hf⟩, hcode id f hf⟩

/-! ### Cycles of documents -/

section

variable (lang : Language) (P : Primitives) (table : ProjectionTable) (docs : List Document)

/-- A document refers to another one: it has the digest of its subject among its references. -/
def Refers (d e : Document) : Prop :=
  e ∈ docs ∧ ∃ ref ∈ refs d, subjectDigest? lang P table e = some ref

/-- **The document lies on a cycle of references.** -/
def OnCycle (d : Document) : Prop := TransGen (Refers lang P table docs) d d

/-- A reference that is kept: of the last document of an id, to the last one of a digest. -/
def Keeps (u v : String) : Prop :=
  ∃ d e ref, docs.reverse.find? (fun d => docId lang d = u) = some d ∧ ref ∈ refs d ∧
    docs.reverse.find? (fun e => subjectDigest? lang P table e = some ref) = some e ∧
    docId lang e = v

/-- Documents that share an id share their references and their digest, and documents that share a
digest share their id. -/
structure Apart : Prop where
  same_id : ∀ d ∈ docs, ∀ d' ∈ docs, docId lang d = docId lang d' →
    (∀ ref, ref ∈ refs d ↔ ref ∈ refs d') ∧
      subjectDigest? lang P table d = subjectDigest? lang P table d'
  same_digest : ∀ d ∈ docs, ∀ d' ∈ docs, ∀ ref, subjectDigest? lang P table d = some ref →
    subjectDigest? lang P table d' = some ref → docId lang d = docId lang d'

end

variable {lang : Language} {P : Primitives} {table : ProjectionTable} {docs : List Document}

/-- The edges of the search are the references that are kept. -/
theorem follows_iff_keeps {u v : String} :
    Follows ((subjectDigests lang P table docs).map (docId lang))
        (Dict.ofList (docs.map fun doc => (docId lang doc, refs doc))) u v ↔
      Keeps lang P table docs u v := by
  have hedges : (Dict.ofList (docs.map fun doc => (docId lang doc, refs doc))).get? u =
      (docs.reverse.find? fun d => docId lang d = u).map refs := by
    rw [Dict.get?_ofList, ← List.map_reverse, List.find?_map, Option.map_map]
    rfl
  have howner (ref : String) : ((subjectDigests lang P table docs).map (docId lang)).get? ref =
      (docs.reverse.find? fun e => subjectDigest? lang P table e = some ref).map (docId lang) := by
    have hfind (d : Document) : (((subjectDigest? lang P table d).map fun digest =>
        (digest, d)).any fun entry => entry.1 = ref) =
          decide (subjectDigest? lang P table d = some ref) := by
      rcases subjectDigest? lang P table d with _ | digest <;> simp
    rw [Dict.get?_map, subjectDigests, Dict.get?_ofList, ← List.filterMap_reverse,
      List.find?_filterMap]
    simp only [hfind]
    rcases hlast : docs.reverse.find? fun e => subjectDigest? lang P table e = some ref with _ | e
    · rfl
    · have hdigest : subjectDigest? lang P table e = some ref := by
        simpa using List.find?_some hlast
      simp [hdigest]
  simp only [Follows, Keeps, hedges, howner, Option.map_eq_some_iff]
  constructor
  · rintro ⟨_, ⟨d, hd, rfl⟩, ref, href, e, he, rfl⟩
    exact ⟨d, e, ref, hd, href, he, rfl⟩
  · rintro ⟨d, e, ref, hd, href, he, rfl⟩
    exact ⟨_, ⟨d, hd, rfl⟩, ref, href, e, he, rfl⟩

/-- The last document with a property has it, and is one of them. -/
theorem of_find?_reverse {p : Document → Prop} [DecidablePred p] {d : Document}
    (h : docs.reverse.find? (fun d => p d) = some d) : d ∈ docs ∧ p d :=
  ⟨List.mem_reverse.mp (List.mem_of_find?_eq_some h), by simpa using List.find?_some h⟩

/-- If some document has a property, there is a last one. -/
theorem exists_find?_reverse {p : Document → Prop} [DecidablePred p] {d : Document}
    (hd : d ∈ docs) (hp : p d) : ∃ e, docs.reverse.find? (fun d => p d) = some e :=
  Option.isSome_iff_exists.mp (List.find?_isSome.mpr
    ⟨d, List.mem_reverse.mpr hd, decide_eq_true hp⟩)

namespace Apart

variable (hdocs : Apart lang P table docs) {d e : Document} {v : String}

include hdocs

/-- A reference between documents is kept, between their ids. -/
theorem keeps_of_refers (hd : d ∈ docs) (h : Refers lang P table docs d e) :
    Keeps lang P table docs (docId lang d) (docId lang e) := by
  obtain ⟨he, ref, href, hdigest⟩ := h
  obtain ⟨d', hd'⟩ := exists_find?_reverse (p := fun d' => docId lang d' = docId lang d) hd rfl
  obtain ⟨e', he'⟩ := exists_find?_reverse
    (p := fun e' => subjectDigest? lang P table e' = some ref) he hdigest
  obtain ⟨hmem, hid⟩ := of_find?_reverse hd'
  obtain ⟨hmem', hdigest'⟩ := of_find?_reverse he'
  exact ⟨d', e', ref, hd', ((hdocs.same_id d' hmem d hd hid).1 ref).mpr href, he',
    hdocs.same_digest e' hmem' e he ref hdigest' hdigest⟩

/-- A reference that is kept is one of every document of its id. -/
theorem refers_of_keeps (hd : d ∈ docs) (h : Keeps lang P table docs (docId lang d) v) :
    ∃ e, Refers lang P table docs d e ∧ docId lang e = v := by
  obtain ⟨d', e, ref, hd', href, he, rfl⟩ := h
  obtain ⟨hmem, hid⟩ := of_find?_reverse hd'
  obtain ⟨hmem', hdigest⟩ := of_find?_reverse he
  exact ⟨e, ⟨hmem', ref, ((hdocs.same_id d' hmem d hd hid).1 ref).mp href, hdigest⟩, rfl⟩

theorem transGen_keeps (hd : d ∈ docs) (h : TransGen (Refers lang P table docs) d e) :
    TransGen (Keeps lang P table docs) (docId lang d) (docId lang e) := by
  induction h using TransGen.head_induction_on with
  | single h => exact .single (hdocs.keeps_of_refers hd h)
  | head h _ ih => exact .head (hdocs.keeps_of_refers hd h) (ih h.1)

theorem exists_transGen_refers (hd : d ∈ docs)
    (h : TransGen (Keeps lang P table docs) (docId lang d) v) :
    ∃ e, TransGen (Refers lang P table docs) d e ∧ e ∈ docs ∧ docId lang e = v := by
  induction h with
  | single h =>
    obtain ⟨e, he, rfl⟩ := hdocs.refers_of_keeps hd h
    exact ⟨e, .single he, he.1, rfl⟩
  | tail _ h ih =>
    obtain ⟨e, he, hmem, rfl⟩ := ih
    obtain ⟨e', he', rfl⟩ := hdocs.refers_of_keeps hmem h
    exact ⟨e', he.tail he', he'.1, rfl⟩

/-- **Where nothing is overwritten**, the cycles of the documents are those of their ids. -/
theorem cycle_iff (hd : d ∈ docs) :
    TransGen (Keeps lang P table docs) (docId lang d) (docId lang d) ↔
      OnCycle lang P table docs d := by
  refine ⟨fun h => ?_, hdocs.transGen_keeps hd⟩
  obtain ⟨e, he, hmem, hid⟩ := hdocs.exists_transGen_refers hd h
  -- what refers to a document of this digest refers to the other one too
  obtain ⟨x, hx, -, ref, href, hdigest⟩ := TransGen.tail'_iff.mp he
  refine TransGen.tail'_iff.mpr ⟨x, hx, hd, ref, href, ?_⟩
  rw [← (hdocs.same_id e hmem d hd hid).2, hdigest]

end Apart

/-- What is found of a reference itself is no cycle. -/
theorem code_ne_of_mem {subjects : Dict String Document} {known : List String}
    {expected : Dict String String} {doc : Document} {field value : String} {f : ReferenceFinding}
    (hf : f ∈ referenceFindings lang subjects known expected doc field value) :
    f.code ≠ "CIRCULAR_IDENTITY" := by
  have hlone {p : Prop} [Decidable p] {g : ReferenceFinding}
      (hg : g.code ≠ "CIRCULAR_IDENTITY") (hf : f ∈ if p then [g] else []) :
      f.code ≠ "CIRCULAR_IDENTITY" := by
    split at hf
    · rw [List.mem_singleton.mp hf]
      exact hg
    · exact absurd hf List.not_mem_nil
  rw [referenceFindings] at hf
  split at hf
  · rw [List.mem_singleton.mp hf]
    exact (by decide : "DANGLING_REFERENCE" ≠ "CIRCULAR_IDENTITY")
  split at hf
  · exact absurd hf List.not_mem_nil
  rcases List.mem_append.mp hf with hf | hf
  · rcases List.mem_append.mp hf with hf | hf
    · exact hlone (by decide : "SCOPE_MISMATCH" ≠ "CIRCULAR_IDENTITY") hf
    · split at hf
      · exact hlone (by decide : "FORBIDDEN_REFERENCE" ≠ "CIRCULAR_IDENTITY") hf
      · exact absurd hf List.not_mem_nil
  · split at hf
    · exact hlone (by decide : "DIGEST_MISMATCH" ≠ "CIRCULAR_IDENTITY") hf
    · exact absurd hf List.not_mem_nil

/-- There are no more subjects than documents. -/
theorem length_subjectDigests_le :
    (subjectDigests lang P table docs).entries.length ≤ docs.length := by
  have hsub : (subjectDigests lang P table docs).keys ⊆ (docs.filterMap fun doc =>
      (subjectDigest? lang P table doc).map fun d => (d, doc)).map Prod.fst := fun key hkey =>
    Dict.mem_keys_ofList_iff.mp hkey
  have hle := ((Dict.nodup_keys _).subperm hsub).length_le
  rw [Dict.keys, List.length_map, List.length_map] at hle
  exact hle.trans (List.length_filterMap_le _ _)

/-- **Which documents are reported**: the search comes to an end for all documents, whatever their
ids. It reports a document exactly if it lies on a cycle, as long as the references that are kept
have a cycle through an id exactly where its documents lie on one; so it does where nothing is
overwritten. -/
theorem reports_iff (sets : SetOrder) (lang : Language) (P : Primitives) (docs : List Document)
    (table : ProjectionTable) (knownDigests : List String) (expected : Dict String String) :
    ∃ findings, (∀ fuel > docs.length,
        validateReferences sets lang P fuel docs table knownDigests expected = some findings) ∧
      ((∀ doc ∈ docs, Reports findings (docId lang doc) ↔ OnCycle lang P table docs doc) ↔
        ∀ doc ∈ docs, TransGen (Keeps lang P table docs) (docId lang doc) (docId lang doc) ↔
          OnCycle lang P table docs doc) ∧
      (Apart lang P table docs →
        ∀ doc ∈ docs, Reports findings (docId lang doc) ↔ OnCycle lang P table docs doc) := by
  obtain ⟨found, hfound, hcycle⟩ := exists_cycles sets lang (subjectDigests lang P table docs)
    (Dict.ofList (docs.map fun doc => (docId lang doc, refs doc)))
  have hfollows : Follows ((subjectDigests lang P table docs).map (docId lang))
      (Dict.ofList (docs.map fun doc => (docId lang doc, refs doc))) = Keeps lang P table docs := by
    funext u v
    exact propext follows_iff_keeps
  let findings := documentFindings lang (subjectDigests lang P table docs)
    (knownDigests ++ (subjectDigests lang P table docs).keys) expected docs
  have hreports (id : String) : Reports (findings ++ found) id ↔
      TransGen (Keeps lang P table docs) id id := by
    rw [← hfollows, ← hcycle]
    constructor
    · rintro ⟨f, hf, hcode, hid⟩
      refine ⟨f, (List.mem_append.mp hf).resolve_left fun hmem => ?_, hcode, hid⟩
      obtain ⟨doc, -, hmem⟩ := List.mem_flatMap.mp hmem
      obtain ⟨reference, -, hmem⟩ := List.mem_flatMap.mp hmem
      exact code_ne_of_mem hmem hcode
    · rintro ⟨f, hf, hcode, hid⟩
      exact ⟨f, List.mem_append_right _ hf, hcode, hid⟩
  refine ⟨findings ++ found, fun fuel hfuel => ?_, ?_, fun hapart doc hdoc => ?_⟩
  · rw [validateReferences, hfound fuel (length_subjectDigests_le.trans_lt hfuel), Option.map_some]
  · simp only [hreports]
  · rw [hreports, hapart.cycle_iff hdoc]

/-! ### A cycle that is lost -/

/-- The rule of plans. -/
def planTable : ProjectionTable where
  rules := Dict.ofList [("PlanBundle", {
    typeName := "PlanBundle"
    schemaVersion := "1.0"
    subjectFields := ["kind", "schema_version", "id", "scope", "contract_digest",
      "base_snapshot_digest", "work_units"]
    envelopeFields := ["review_refs", "plan_approval_ref", "execution_permit_ref", "status"] })]

/-- A plan `p` with some references in its envelope, which the digest does not bind. -/
def planOf (reviewRefs : List PyValue) : Document :=
  Dict.ofList [("kind", .str "plan_bundle"), ("schema_version", .str "1"), ("id", .str "p"),
    ("scope", .dict []), ("contract_digest", .str "c"), ("base_snapshot_digest", .str "b"),
    ("work_units", .list []), ("review_refs", .list reviewRefs), ("plan_approval_ref", .none),
    ("execution_permit_ref", .none), ("status", .str "draft")]

/-- Texts of strings, and words of ASCII letters. -/
def asciiLanguage : Language where
  text
    | .str s => s
    | _ => "object"
  text_str _ := rfl
  capitalize s := String.ofList <| match s.toList with
    | [] => []
    | c :: rest => c.toUpper :: rest.map Char.toLower

/-- The order of insertion. -/
def insertionOrder : SetOrder := ⟨id, fun _ => .refl _⟩

/-- The digest of the subject of such a plan. -/
def planDigest : String := "sha256:9a461eaa59274f7f292bfb7028eaabc8812fadcbc52f8ed400cb843e3a0beab4"

theorem subjectDigest?_planOf :
    subjectDigest? asciiLanguage .ascii planTable (planOf [.str planDigest]) = some planDigest := by
  decide +kernel

/-- Such a plan is called `p`, whatever it refers to. -/
example : docId asciiLanguage (planOf []) = "p" := by decide +kernel

/-- **A cycle that is lost**: a plan refers to itself, and another document has its id. -/
theorem not_reports : ∃ docs findings,
    validateReferences insertionOrder asciiLanguage .ascii 3 docs planTable ["c", "b"] ∅ =
      some findings ∧
    ¬∀ doc ∈ docs, Reports findings (docId asciiLanguage doc) ↔
      OnCycle asciiLanguage .ascii planTable docs doc := by
  refine ⟨[planOf [.str planDigest], planOf []], [], by decide +kernel, fun h => ?_⟩
  have hcycle : OnCycle asciiLanguage .ascii planTable
      [planOf [.str planDigest], planOf []] (planOf [.str planDigest]) :=
    .single ⟨List.mem_cons_self, planDigest, by decide, subjectDigest?_planOf⟩
  obtain ⟨f, hf, -⟩ := (h _ List.mem_cons_self).mpr hcycle
  exact List.not_mem_nil hf

end References

end CyranoAgent
