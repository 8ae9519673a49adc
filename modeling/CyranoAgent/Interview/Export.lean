import CyranoAgent.Contracts.PlainPrinting
import CyranoAgent.Interview.Service
import CyranoAgent.Planning.Review

/-!
# Contracts and their export

`compile_contract` seals the state of an interview under a subject digest, and
`export_approved_bundle` exports what a user approved under it. The digest reads the kind and the
text of the statements, the status and the revision of the decisions, and the ids of the
obligations (`subjectText_eq_iff`); what a contract says beyond these may change under it
(`digest_covers_iff`).
-/

namespace CyranoAgent

open Lib Lib.Action

namespace Interview

/-- The status of a bundle. -/
inductive BundleStatus
  | draftUnapproved | approved
  deriving DecidableEq, Repr

/-- `Approval`. -/
structure Approval where
  approvalId : String
  subjectDigest : String
  snapshotDigest : String

/-- `ContractBundle`. -/
structure ContractBundle where
  status : BundleStatus
  subjectDigest : String
  snapshotDigest : String
  statementCount : ℕ
  decisionCount : ℕ

namespace InterviewService

variable (S : InterviewService)

/-- The current decisions under their own ids. -/
def contractDecisions : Dict String Decision :=
  Dict.ofList (S.decisions.allCurrent.map fun d => (d.decisionId, d))

/-- `json.dumps` of the kind and the text of a statement. -/
def printStatement (s : String × String) : String :=
  PlainJson.list [PlainJson.text s.1, PlainJson.text s.2]

/-- `json.dumps` of the status and the revision of a decision. -/
def printDecision (d : String × ℤ) : String := PlainJson.list [PlainJson.text d.1, d.2.repr]

/-- What the digest reads of the statements. -/
def digestedStatements : Dict String (String × String) :=
  S.statements.map fun s => (s.kind.text, s.text)

/-- What the digest reads of the decisions. -/
def digestedDecisions : Dict String (String × ℤ) :=
  S.contractDecisions.map fun d => (d.status.text, d.revision)

/-- `obligations`: the ids of the registered obligations, sorted. -/
def obligationIds : List String := S.obligations.keys.insertionSort (· ≤ ·)

/-- The text that the subject digest hashes. -/
def subjectText : String :=
  "\x7b\"decisions\": " ++
    PlainJson.sortedObject (S.digestedDecisions.entries.map fun d => (d.1, printDecision d.2)) ++
    ", \"obligations\": " ++ PlainJson.list (S.obligationIds.map PlainJson.text) ++
    ", \"statements\": " ++
    PlainJson.sortedObject (S.digestedStatements.entries.map fun s => (s.1, printStatement s.2)) ++
    "\x7d"

/-- The subject digest of the contract. -/
def subjectDigest : String := rawDigest S.subjectText.toByteArray

/-- `compile_contract`. -/
def compileContract (snapshotDigest : String) : ContractBundle where
  status := if S.approved then .approved else .draftUnapproved
  subjectDigest := S.subjectDigest
  snapshotDigest := snapshotDigest
  statementCount := S.statements.entries.length
  decisionCount := S.contractDecisions.entries.length

end InterviewService

/-- What an export of an approved bundle says. -/
structure ExportedBundle where
  status : BundleStatus
  subjectDigest : String
  snapshotDigest : String
  approvalId : String
  executionAuthorized : Bool

/-- `export_approved_bundle`. -/
def exportApprovedBundle (reprText : String → String) (bundle : ContractBundle)
    (approval : Approval) (ledger : ReviewLedger) (currentSnapshot : String) :
    Except Failure ExportedBundle :=
  if bundle.status ≠ .approved then
    .error (.cyrano "UNAPPROVED_EXPORT" "bundle is a draft, not a contract")
  else if approval.subjectDigest ≠ bundle.subjectDigest then
    .error (.cyrano "APPROVAL_MISMATCH" "approval binds a different subject")
  else if approval.snapshotDigest ≠ bundle.snapshotDigest ∨
      bundle.snapshotDigest ≠ currentSnapshot then
    .error (.cyrano "STALE_SNAPSHOT" "snapshot changed since approval; re-review required")
  else if ledger.missingRequired ≠ [] then
    .error (.cyrano "REVIEW_INCOMPLETE" ("required reviews missing: " ++
      Planning.reprStrings reprText (ledger.missingRequired.insertionSort (· ≤ ·))))
  else .ok ⟨.approved, bundle.subjectDigest, bundle.snapshotDigest, approval.approvalId, true⟩

/-! ### What the digest covers -/

section

open InterviewService PlainJson

variable {S T : InterviewService}

/-- The contracts agree in what the digest reads. -/
structure SameDigested (S T : InterviewService) : Prop where
  statements : ∀ id, S.digestedStatements.get? id = T.digestedStatements.get? id
  decisions : ∀ id, S.digestedDecisions.get? id = T.digestedDecisions.get? id
  obligations : ∀ id, id ∈ S.obligations.keys ↔ id ∈ T.obligations.keys

theorem delimited_printStatement (s : String × String) :
    Delimited (fun s => (printStatement s).toList) s :=
  delimited_pair s (delimited_text _) (delimited_text _)

theorem delimited_printDecision (d : String × ℤ) :
    Delimited (fun d => (printDecision d).toList) d :=
  delimited_pair d (delimited_text _) (delimited_int _)

theorem obligationIds_eq_iff :
    S.obligationIds = T.obligationIds ↔
      ∀ id, id ∈ S.obligations.keys ↔ id ∈ T.obligations.keys := by
  have hperm : S.obligationIds = T.obligationIds ↔ S.obligations.keys.Perm T.obligations.keys := by
    constructor
    · intro h
      have hsorted := List.perm_insertionSort (fun a b : String => a ≤ b) S.obligations.keys
      rw [show S.obligations.keys.insertionSort (· ≤ ·) = _ from h] at hsorted
      exact hsorted.symm.trans (List.perm_insertionSort _ _)
    · intro h
      refine List.Perm.eq_of_pairwise' (List.pairwise_insertionSort _ _)
        (List.pairwise_insertionSort _ _) ?_
      exact (List.perm_insertionSort _ _).trans (h.trans (List.perm_insertionSort _ _).symm)
  rw [hperm]
  exact List.perm_ext_iff_of_nodup S.obligations.nodup_keys T.obligations.nodup_keys

theorem ends_of_head? {s : List Char} (hs : s.head? = some ',') (rest : List Char) :
    Ends (s ++ rest) := by
  obtain ⟨tail, rfl⟩ := List.head?_eq_some_iff.mp hs
  exact ⟨',', tail ++ rest, rfl, .inl rfl⟩

theorem toList_seven (a b c d e f g : String) : (a ++ b ++ c ++ d ++ e ++ f ++ g).toList =
    a.toList ++ (b.toList ++ (c.toList ++ (d.toList ++ (e.toList ++ (f.toList ++ g.toList))))) := by
  simp only [String.toList_append, List.append_assoc]

/-- **The text under a subject digest determines what the digest reads**, and nothing else. -/
theorem subjectText_eq_iff : S.subjectText = T.subjectText ↔ SameDigested S T := by
  constructor
  · intro h
    have hlists := congrArg String.toList h
    unfold subjectText at hlists
    rw [toList_seven, toList_seven] at hlists
    have hobligations (rest : List Char) : Ends (", \"obligations\": ".toList ++ rest) :=
      ends_of_head? rfl rest
    have hstatements (rest : List Char) : Ends (", \"statements\": ".toList ++ rest) :=
      ends_of_head? rfl rest
    have hclose : Ends "\x7d".toList := ⟨'\x7d', [], rfl, .inr (.inr rfl)⟩
    obtain ⟨hdecided, hrest⟩ := sortedObject_append_inj delimited_printDecision
      (hobligations _) (hobligations _) (List.append_cancel_left hlists)
    obtain ⟨hids, hrest⟩ := delimited_list starts_text _ (fun id _ => delimited_text id) _ _ _
      (hstatements _) (hstatements _) (List.append_cancel_left hrest)
    obtain ⟨hstated, -⟩ := sortedObject_append_inj delimited_printStatement hclose hclose
      (List.append_cancel_left hrest)
    exact ⟨hstated, hdecided, obligationIds_eq_iff.mp hids⟩
  · intro h
    have hdecided : sortedObject (S.digestedDecisions.entries.map fun d =>
        (d.1, printDecision d.2)) = _ := sortedObject_congr h.decisions
    have hstated : sortedObject (S.digestedStatements.entries.map fun s =>
        (s.1, printStatement s.2)) = _ := sortedObject_congr h.statements
    have hids : S.obligationIds = T.obligationIds := obligationIds_eq_iff.mpr h.obligations
    unfold subjectText
    rw [hdecided, hstated, hids]

/-- The contracts say the same: statements, decisions with their text, status and authority, and
obligations. -/
structure SameContract (S T : InterviewService) : Prop where
  statements : ∀ id, S.statements.get? id = T.statements.get? id
  decisions : ∀ id,
    (S.contractDecisions.get? id).map (fun d => (d.text, d.status, d.authority)) =
      (T.contractDecisions.get? id).map fun d => (d.text, d.status, d.authority)
  obligations : ∀ id, S.obligations.get? id = T.obligations.get? id

/-- The contracts agree in what the digest does not read: the sources of the statements, the text
and the authority of the decisions, and the obligations themselves. -/
structure SameUndigested (S T : InterviewService) : Prop where
  statements : ∀ id, (S.statements.get? id).map (fun s => (s.statementId, s.source)) =
    (T.statements.get? id).map fun s => (s.statementId, s.source)
  decisions : ∀ id, (S.contractDecisions.get? id).map (fun d => (d.text, d.authority)) =
    (T.contractDecisions.get? id).map fun d => (d.text, d.authority)
  obligations : ∀ id, S.obligations.get? id = T.obligations.get? id

theorem StatementKind.text_injective : Function.Injective StatementKind.text := by
  intro k l h
  cases k <;> cases l <;> first | rfl | exact absurd h (by decide)

theorem DecisionStatus.text_injective : Function.Injective DecisionStatus.text := by
  intro k l h
  cases k <;> cases l <;> first | rfl | exact absurd h (by decide)

/-- Two options are the same once they are so under two functions that tell values apart. -/
theorem option_eq_of_maps {α β γ δ : Type} {f : α → β} {g : α → γ} {k : α → δ}
    (hk : ∀ a b, f a = f b → g a = g b → k a = k b) {x y : Option α}
    (hf : x.map f = y.map f) (hg : x.map g = y.map g) : x.map k = y.map k := by
  rcases x with _ | a <;> rcases y with _ | b
  · rfl
  · cases hf
  · cases hf
  · exact congrArg some (hk a b (Option.some.inj hf) (Option.some.inj hg))

/-- Contracts of the same digested content say the same where the rest is the same. -/
theorem sameContract_iff (h : SameDigested S T) : SameContract S T ↔ SameUndigested S T := by
  have hstatements (id : String) := h.statements id
  have hdecisions (id : String) := h.decisions id
  simp only [digestedStatements, digestedDecisions, Dict.get?_map] at hstatements hdecisions
  constructor
  · intro hsame
    refine ⟨fun id => by rw [hsame.statements id], fun id => ?_, hsame.obligations⟩
    refine option_eq_of_maps (fun a b heq _ => ?_) (hsame.decisions id) (hdecisions id)
    obtain ⟨htext, hrest⟩ := Prod.mk.inj heq
    exact Prod.ext htext (Prod.mk.inj hrest).2
  · intro hsame
    refine ⟨fun id => ?_, fun id => ?_, hsame.obligations⟩
    · have hid := option_eq_of_maps (k := fun s => s) (fun a b hread hrest => ?_)
        (hstatements id) (hsame.statements id)
      · simpa using hid
      · obtain ⟨hkind, htext⟩ := Prod.mk.inj hread
        obtain ⟨hsid, hsource⟩ := Prod.mk.inj hrest
        obtain ⟨aid, atext, akind, asource⟩ := a
        obtain ⟨bid, btext, bkind, bsource⟩ := b
        obtain rfl := StatementKind.text_injective hkind
        obtain rfl := htext
        obtain rfl := hsid
        obtain rfl := hsource
        rfl
    · refine option_eq_of_maps (fun a b hread hrest => ?_) (hdecisions id) (hsame.decisions id)
      obtain ⟨hstatus, -⟩ := Prod.mk.inj hread
      obtain ⟨htext, hauthority⟩ := Prod.mk.inj hrest
      exact Prod.ext htext (Prod.ext (DecisionStatus.text_injective hstatus) hauthority)

/-- **What an equal subject digest covers**: two contracts say the same under it exactly if they
differ in what the digest reads, or agree in what it does not. -/
theorem digest_covers_iff
    (hfree : Set.InjOn rawDigest {S.subjectText.toByteArray, T.subjectText.toByteArray}) :
    (S.subjectDigest = T.subjectDigest → SameContract S T) ↔
      (SameDigested S T → SameUndigested S T) := by
  have hdigest : S.subjectDigest = T.subjectDigest ↔ SameDigested S T := by
    rw [← subjectText_eq_iff]
    constructor
    · intro h
      exact String.toByteArray_inj.mp (hfree (.inl rfl) (.inr rfl) h)
    · intro h
      rw [subjectDigest, subjectDigest, h]
  rw [hdigest]
  exact forall_congr' sameContract_iff

end

/-- An interview with one decision of a user, by its text. -/
def decidedInterview (text : String) : InterviewService where
  repo := {}
  scopeId := "s"
  streamId := "run-1"
  machine := ⟨["INTAKE"], [], [], List.nodup_nil⟩
  decisions := ((LogCall.propose { userDecision with text }).act {}).2

/-- The texts under the digests do not tell the texts of decisions apart. -/
theorem subjectText_decided (text text' : String) :
    (decidedInterview text).subjectText = (decidedInterview text').subjectText :=
  subjectText_eq_iff.mpr ⟨fun _ => rfl, fun _ => rfl, fun _ => Iff.rfl⟩

theorem injOn_decided (text text' : String) : Set.InjOn rawDigest
    {(decidedInterview text).subjectText.toByteArray,
      (decidedInterview text').subjectText.toByteArray} := by
  rw [subjectText_decided text text', Set.pair_eq_singleton]
  exact Set.injOn_singleton _ _

/-- Two interviews with the same decision. -/
theorem digest_covers_iff_decided :
    ((decidedInterview "use sqlite").subjectDigest =
        (decidedInterview "use sqlite").subjectDigest →
      SameContract (decidedInterview "use sqlite") (decidedInterview "use sqlite")) ↔
    (SameDigested (decidedInterview "use sqlite") (decidedInterview "use sqlite") →
      SameUndigested (decidedInterview "use sqlite") (decidedInterview "use sqlite")) :=
  digest_covers_iff (injOn_decided _ _)

/-- **Another decision under the same digest.** -/
theorem not_digest_covers : ¬∀ S T : InterviewService,
    Set.InjOn rawDigest {S.subjectText.toByteArray, T.subjectText.toByteArray} →
      S.subjectDigest = T.subjectDigest → SameContract S T := by
  intro hclaim
  have hsame := hclaim (decidedInterview "use sqlite") (decidedInterview "use postgres")
    (injOn_decided _ _) (congrArg (fun text : String => rawDigest text.toByteArray)
      (subjectText_decided _ _))
  have hdecision := hsame.decisions "D1"
  have htext : "use sqlite" = "use postgres" := congrArg Prod.fst (Option.some.inj hdecision)
  exact absurd htext (by decide)

end Interview

end CyranoAgent
