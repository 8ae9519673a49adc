import Mathlib.Data.List.Induction
import CyranoAgent.Planning.Review
import CyranoAgent.Lib.Run

/-!
# Runs of the review board

The findings of all rounds are kept under their ids. A finding that is submitted under the id of
another takes its place, and with it the right to resolve it: the blocking findings of a round stay
open until they are resolved in runs that never do this (`stays_open_of_spared`).

`is_reviewed` asks for an approved round, `require_reviewed` for the latest one. They agree exactly
where an approved round is the latest of its digest and has nothing open (`gatesAgree_iff`), and in
runs that keep it so (`gates_agree_of_kept`).
-/

namespace CyranoAgent

open Lib Lib.Action

namespace Planning

/-- The operations of a board. -/
inductive ReviewCall
  | request (subjectDigest : String) (binding : ReviewerBinding) (reviewerInput : List String)
  | submit (record : ℕ) (finding : ReviewFinding)
  | resolve (findingId resolvingRunId decision newSubjectDigest : String)
      (evidenceIds : List String) (testPlanChanged : Bool)
  | finish (record : ℕ) (reviewerOk : Bool)

/-- What an operation returns. -/
inductive ReviewReply
  | record (place : ℕ)
  | finding (f : ReviewFinding)
  | outcome (o : ReviewOutcome)

variable (reprText : String → String)

open ReviewBoard in
/-- The action of an operation. -/
def ReviewCall.op : ReviewCall → BoardOp ReviewReply
  | .request subjectDigest binding reviewerInput =>
    .record <$> requestReview reprText subjectDigest binding reviewerInput
  | .submit record finding => .finding <$> submitFinding record finding
  | .resolve findingId resolvingRunId decision newSubjectDigest evidenceIds testPlanChanged =>
    .finding <$> resolveFinding reprText findingId resolvingRunId decision newSubjectDigest
      evidenceIds testPlanChanged
  | .finish record reviewerOk => .outcome <$> finishReview record reviewerOk

/-- Perform an operation. -/
def ReviewCall.act (call : ReviewCall) (B : ReviewBoard) :
    Except Failure ReviewReply × ReviewBoard :=
  (call.op reprText).run B

/-- One operation of a history of a board. -/
abbrev ReviewEntry := Entry ReviewBoard ReviewCall (Except Failure ReviewReply)

/-! ### What the operations do -/

namespace ReviewBoard

variable {reprText} {B : ReviewBoard}

/-- The board with another round. -/
def opened (B : ReviewBoard) (subjectDigest reviewerRunId : String) : ReviewBoard :=
  { B with reviews := B.reviews ++ [⟨subjectDigest, reviewerRunId, .unverifiable, [], 1⟩] }

/-- The board with a finding in a round. -/
def filed (B : ReviewBoard) (record : ℕ) (finding : ReviewFinding) : ReviewBoard :=
  { B with
    findings := Function.update B.findings finding.findingId (some finding)
    reviews := B.reviews.modify record fun r => { r with findings := r.findings ++ [finding] } }

/-- The board with a finding resolved. -/
def resolved (B : ReviewBoard) (finding : ReviewFinding) (findingId decision digest : String) :
    ReviewBoard :=
  { B with
    findings := Function.update B.findings findingId
      (some { finding with state := decision, subjectDigest := digest }) }

/-- The board with the verdict of a round. -/
def judged (B : ReviewBoard) (record : ℕ) (verdict : Verdict) : ReviewBoard :=
  { B with reviews := B.reviews.modify record fun r => { r with verdict } }

theorem findings_filed_self (record : ℕ) (f : ReviewFinding) :
    (B.filed record f).findings f.findingId = some f :=
  Function.update_self ..

theorem findings_filed_of_ne {findingId : String} {f : ReviewFinding} (h : findingId ≠ f.findingId)
    (record : ℕ) : (B.filed record f).findings findingId = B.findings findingId :=
  Function.update_of_ne h ..

theorem findings_resolved_self (f : ReviewFinding) (findingId decision digest : String) :
    (B.resolved f findingId decision digest).findings findingId =
      some { f with state := decision, subjectDigest := digest } :=
  Function.update_self ..

theorem findings_resolved_of_ne {findingId id : String} (h : id ≠ findingId) (f : ReviewFinding)
    (decision digest : String) :
    (B.resolved f findingId decision digest).findings id = B.findings id :=
  Function.update_of_ne h ..

theorem requestReview_cases (reprText : String → String) (subjectDigest : String)
    (binding : ReviewerBinding) (reviewerInput : List String) (B : ReviewBoard) :
    ((requestReview reprText subjectDigest binding reviewerInput).run B).2 = B ∨
      ((requestReview reprText subjectDigest binding reviewerInput).run B).2 =
          B.opened subjectDigest binding.reviewerRunId ∧
        ∃ place, ((requestReview reprText subjectDigest binding reviewerInput).run B).1 =
          .ok place := by
  rw [requestReview]
  simp only [run_raiseIf_bind]
  split_ifs
  · exact .inl rfl
  · exact .inl rfl
  · exact .inl rfl
  · exact .inr ⟨rfl, _, rfl⟩

theorem submitFinding_cases (record : ℕ) (finding : ReviewFinding) (B : ReviewBoard) :
    (submitFinding record finding).run B = (.ok finding, B) ∧ B.reviews[record]? = none ∨
      (∃ e, (submitFinding record finding).run B = (.error e, B)) ∨
      (submitFinding record finding).run B = (.ok finding, B.filed record finding) ∧
        ∃ r, B.reviews[record]? = some r ∧ finding.subjectDigest = r.subjectDigest := by
  rw [submitFinding, run_bind, run_get]
  dsimp only
  rcases hrecord : B.reviews[record]? with _ | r
  · exact .inl ⟨rfl, rfl⟩
  simp only [run_raiseIf_bind]
  split_ifs with hdigest
  · exact .inr (.inl ⟨_, rfl⟩)
  · exact .inr (.inl ⟨_, rfl⟩)
  · exact .inr (.inr ⟨rfl, r, rfl, not_not.mp hdigest⟩)

theorem resolveFinding_cases (reprText : String → String)
    (findingId resolvingRunId decision newSubjectDigest : String) (evidenceIds : List String)
    (testPlanChanged : Bool) (B : ReviewBoard) :
    (∃ e, (resolveFinding reprText findingId resolvingRunId decision newSubjectDigest evidenceIds
        testPlanChanged).run B = (.error e, B)) ∨
      ∃ f g, (resolveFinding reprText findingId resolvingRunId decision newSubjectDigest
          evidenceIds testPlanChanged).run B =
            (.ok g, B.resolved f findingId decision newSubjectDigest) ∧
        B.findings findingId = some f ∧ resolvingRunId = f.reviewerRunId ∧
          decision ∈ resolutions := by
  rw [resolveFinding, run_bind, run_get]
  dsimp only
  rcases hfinding : B.findings findingId with _ | f
  · exact .inl ⟨_, rfl⟩
  simp only [run_raiseIf_bind]
  by_cases hrun : resolvingRunId = f.reviewerRunId
  swap
  · exact .inl ⟨_, by rw [if_pos hrun]⟩
  by_cases hplan : testPlanChanged = true
  · exact .inl ⟨_, by rw [if_neg (not_not.mpr hrun), if_pos hplan]⟩
  by_cases hdecision : decision ∈ resolutions
  swap
  · exact .inl ⟨_, by rw [if_neg (not_not.mpr hrun), if_neg hplan, if_pos hdecision]⟩
  rw [if_neg (not_not.mpr hrun), if_neg hplan, if_neg (not_not.mpr hdecision)]
  by_cases hfixed : decision = "fixed_verified" ∧ evidenceIds = []
  · exact .inl ⟨_, by rw [if_pos hfixed]⟩
  by_cases hrefuted : decision = "refuted_verified" ∧ evidenceIds = []
  · exact .inl ⟨_, by rw [if_neg hfixed, if_pos hrefuted]⟩
  rw [if_neg hfixed, if_neg hrefuted]
  exact .inr ⟨f, _, rfl, rfl, hrun, hdecision⟩

/-- A round is judged, and approved only where none of its blocking findings is open. -/
theorem finishReview_cases (record : ℕ) (reviewerOk : Bool) (B : ReviewBoard) :
    ((finishReview record reviewerOk).run B = (.ok .unverifiable, B) ∧
        B.reviews[record]? = none) ∨
      ∃ r verdict outcome, (finishReview record reviewerOk).run B =
          (.ok outcome, B.judged record verdict) ∧ B.reviews[record]? = some r ∧
        (verdict = .approve ↔ reviewerOk = true ∧ B.openBlocking r = []) ∧
        (outcome = .reviewed ↔ verdict = .approve) := by
  rw [finishReview, run_bind, run_get]
  dsimp only
  rcases hrecord : B.reviews[record]? with _ | r
  · exact .inl ⟨rfl, rfl⟩
  refine .inr ⟨r, ?_⟩
  dsimp only
  rcases reviewerOk
  · exact ⟨.unverifiable, .unverifiable, rfl, rfl, by simp, by simp⟩
  by_cases hopen : B.openBlocking r = []
  · refine ⟨.approve, .reviewed, ?_, rfl, by simp [hopen], by simp⟩
    rw [if_neg (by simp), if_neg (by simp [hopen]), if_neg (by simp [hopen])]
    rfl
  by_cases hrounds : B.maxRounds ≤ r.rounds
  · refine ⟨.changesRequired, .deferred, ?_, rfl, by simp [hopen], by simp⟩
    rw [if_neg (by simp), if_pos ⟨hrounds, hopen⟩]
    rfl
  · refine ⟨.changesRequired, .changesRequired, ?_, rfl, by simp [hopen], by simp⟩
    rw [if_neg (by simp), if_neg (fun h => hrounds h.1), if_pos hopen]
    rfl

/-! ### Open blocking findings -/

theorem mem_openBlocking {r : ReviewRecord} {f : ReviewFinding} :
    f ∈ B.openBlocking r ↔
      f ∈ r.findings ∧ (∃ current, B.findings f.findingId = some current ∧
        current.state = "open") ∧ f.severity ∈ blocking := by
  simp [openBlocking, Option.any_eq_true]

/-- A round with an open blocking finding is not finished as reviewed. -/
theorem finishReview_ne_reviewed {record : ℕ} {r : ReviewRecord}
    (hr : B.reviews[record]? = some r) (hopen : B.openBlocking r ≠ []) (reviewerOk : Bool) :
    ((finishReview record reviewerOk).run B).1 ≠ .ok .reviewed := by
  obtain ⟨-, hnone⟩ | ⟨r', verdict, outcome, hrun, hr', hverdict, houtcome⟩ :=
    finishReview_cases record reviewerOk B
  · rw [hr] at hnone
    cases hnone
  obtain rfl : r = r' := Option.some.inj (hr.symm.trans hr')
  rw [hrun]
  intro heq
  have hreviewed : outcome = .reviewed := Except.ok.inj heq
  exact hopen (hverdict.mp (houtcome.mp hreviewed)).2

/-- A digest whose latest round has an open blocking finding is not passed. -/
theorem requireReviewed_ne_ok {subjectDigest : String} {r : ReviewRecord}
    (hlatest : (B.reviews.filter fun s => s.subjectDigest = subjectDigest).getLast? = some r)
    (hopen : B.openBlocking r ≠ []) : B.requireReviewed reprText subjectDigest ≠ .ok () := by
  rw [requireReviewed, hlatest]
  dsimp only
  rw [if_pos hopen]
  exact nofun

end ReviewBoard

/-! ### Findings stay open until they are resolved -/

/-- The operation adds an open blocking finding to a round of the board. -/
structure Raises (e : ReviewEntry) (record : ℕ) (f : ReviewFinding) : Prop where
  op : e.op = .submit record f
  onBoard : record < e.before.reviews.length
  reply : e.reply = .ok (.finding f)
  isOpen : f.state = "open"
  isBlocking : f.severity ∈ blocking

/-- The operation resolves this very finding, for its own reviewer. -/
def Resolves (e : ReviewEntry) (f : ReviewFinding) : Prop :=
  ∃ decision newSubjectDigest evidenceIds testPlanChanged g,
    e.op = .resolve f.findingId f.reviewerRunId decision newSubjectDigest evidenceIds
      testPlanChanged ∧
    e.before.findings f.findingId = some f ∧ e.reply = .ok (.finding g)

/-- The finding blocks its round: it is among the open ones, the round is not finished as
reviewed, and its digest is not passed while the round is the latest. -/
structure Blocks (B : ReviewBoard) (record : ℕ) (r : ReviewRecord) (f : ReviewFinding) : Prop where
  round : B.reviews[record]? = some r
  listed : f ∈ B.openBlocking r
  unfinished : ∀ reviewerOk, ((ReviewBoard.finishReview record reviewerOk).run B).1 ≠ .ok .reviewed
  unpassed : (B.reviews.filter fun s => s.subjectDigest = r.subjectDigest).getLast? = some r →
    B.requireReviewed reprText r.subjectDigest ≠ .ok ()

/-- Blocking findings block their rounds until they are resolved. -/
def StaysOpen (h : List ReviewEntry) (B : ReviewBoard) : Prop :=
  ∀ h₁ e h₂ record f, h = h₁ ++ e :: h₂ → Raises e record f → (∀ e' ∈ h₂, ¬Resolves e' f) →
    ∃ r, Blocks reprText B record r f

/-- No open blocking finding is replaced by another that is submitted under its id. -/
def SparesIds (e : ReviewEntry) : Prop :=
  ∀ record g, e.op = .submit record g → ∀ f, e.before.findings g.findingId = some f →
    f.state = "open" → f.severity ∈ blocking → g = f

namespace ReviewBoard

variable {reprText} {B : ReviewBoard}

/-- The finding is open under its id, in its round. -/
structure Holds (B : ReviewBoard) (record : ℕ) (f : ReviewFinding) : Prop where
  current : B.findings f.findingId = some f
  inRound : ∃ r, B.reviews[record]? = some r ∧ f ∈ r.findings

theorem Holds.blocks {record : ℕ} {f : ReviewFinding} (h : B.Holds record f)
    (hopen : f.state = "open") (hblocking : f.severity ∈ blocking) :
    ∃ r, Blocks reprText B record r f := by
  obtain ⟨r, hr, hf⟩ := h.inRound
  have hmem : f ∈ B.openBlocking r := mem_openBlocking.mpr ⟨hf, ⟨f, h.current, hopen⟩, hblocking⟩
  have hne : B.openBlocking r ≠ [] := List.ne_nil_of_mem hmem
  exact ⟨r, hr, hmem, finishReview_ne_reviewed hr hne, fun h => requireReviewed_ne_ok h hne⟩

/-- A round that is changed in place keeps the findings it has. -/
theorem inRound_modify {record place : ℕ} {f : ReviewFinding} {change : ReviewRecord → ReviewRecord}
    (hkept : ∀ r, f ∈ r.findings → f ∈ (change r).findings)
    (h : ∃ r, B.reviews[record]? = some r ∧ f ∈ r.findings) :
    ∃ r, (B.reviews.modify place change)[record]? = some r ∧ f ∈ r.findings := by
  obtain ⟨r, hr, hf⟩ := h
  by_cases hplace : place = record
  · refine ⟨change r, ?_, hkept r hf⟩
    rw [hplace, List.getElem?_modify_eq, hr]
    rfl
  · refine ⟨r, ?_, hf⟩
    rw [List.getElem?_modify_ne _ _ hplace, hr]

/-- **One operation** keeps an open blocking finding, or resolves it. -/
theorem holds_perform {e : ReviewEntry} {record : ℕ} {f : ReviewFinding}
    (he : e = Entry.perform (ReviewCall.act reprText) e.before e.op) (hspares : SparesIds e)
    (hopen : f.state = "open") (hblocking : f.severity ∈ blocking)
    (h : e.before.Holds record f) : e.after.Holds record f ∨ Resolves e f := by
  have hafter : e.after = (e.op.act reprText e.before).2 := congrArg Entry.after he
  have hreply : e.reply = (e.op.act reprText e.before).1 := congrArg Entry.reply he
  rw [hafter]
  rcases hop : e.op with ⟨subjectDigest, binding, input⟩ | ⟨place, g⟩ |
    ⟨findingId, runId, decision, digest, evidenceIds, planChanged⟩ | ⟨place, reviewerOk⟩
  · rw [ReviewCall.act, ReviewCall.op, run_map]
    dsimp only
    obtain hsame | ⟨hopened, -⟩ := requestReview_cases reprText subjectDigest binding input
      e.before
    · rw [hsame]
      exact .inl h
    · rw [hopened]
      obtain ⟨r, hr, hf⟩ := h.inRound
      refine .inl ⟨h.current, r, ?_, hf⟩
      exact (List.getElem?_append_left (List.getElem?_eq_some_iff.mp hr).1).trans hr
  · rw [ReviewCall.act, ReviewCall.op, run_map]
    dsimp only
    obtain ⟨hsame, -⟩ | ⟨failure, hsame⟩ | ⟨hfiled, -⟩ := submitFinding_cases place g e.before
    · rw [hsame]
      exact .inl h
    · rw [hsame]
      exact .inl h
    · rw [hfiled]
      -- a finding under the id of `f` is `f`
      have hcurrent : (e.before.filed place g).findings f.findingId = some f := by
        by_cases hid : f.findingId = g.findingId
        · obtain rfl := hspares place g hop f (hid ▸ h.current) hopen hblocking
          exact findings_filed_self place g
        · exact (findings_filed_of_ne hid place).trans h.current
      exact .inl ⟨hcurrent, inRound_modify (fun r hr => List.mem_append_left _ hr) h.inRound⟩
  · rw [hop, ReviewCall.act, ReviewCall.op, run_map] at hreply
    rw [ReviewCall.act, ReviewCall.op, run_map]
    dsimp only at hreply ⊢
    obtain ⟨failure, hsame⟩ | ⟨f', g, hresolved, hfound, hrun, -⟩ :=
      resolveFinding_cases reprText findingId runId decision digest evidenceIds planChanged
        e.before
    · rw [hsame]
      exact .inl h
    rw [hresolved] at hreply ⊢
    by_cases hid : f.findingId = findingId
    · obtain rfl : f' = f := by
        rw [← hid, h.current] at hfound
        exact (Option.some.inj hfound).symm
      subst hid hrun
      exact .inr ⟨decision, digest, evidenceIds, planChanged, g, hop, hfound, hreply⟩
    · exact .inl ⟨(findings_resolved_of_ne hid _ decision digest).trans h.current, h.inRound⟩
  · rw [ReviewCall.act, ReviewCall.op, run_map]
    dsimp only
    obtain ⟨hsame, -⟩ | ⟨r, verdict, outcome, hjudged, -⟩ :=
      finishReview_cases place reviewerOk e.before
    · rw [hsame]
      exact .inl h
    · rw [hjudged]
      exact .inl ⟨h.current, inRound_modify (fun r hr => hr) h.inRound⟩

/-- The operation that raises a finding leaves it open in its round. -/
theorem Raises.holds {e : ReviewEntry} {record : ℕ} {f : ReviewFinding}
    (he : e = Entry.perform (ReviewCall.act reprText) e.before e.op) (h : Raises e record f) :
    e.after.Holds record f := by
  have hafter : e.after = (e.op.act reprText e.before).2 := congrArg Entry.after he
  have hreply : e.reply = (e.op.act reprText e.before).1 := congrArg Entry.reply he
  rw [h.op, ReviewCall.act, ReviewCall.op, run_map] at hafter hreply
  dsimp only at hafter hreply
  obtain ⟨-, hnone⟩ | ⟨failure, hsame⟩ | ⟨hfiled, r, hr, -⟩ := submitFinding_cases record f e.before
  · rw [List.getElem?_eq_none_iff] at hnone
    exact absurd h.onBoard (Nat.not_lt.mpr hnone)
  · rw [hsame, h.reply] at hreply
    cases hreply
  · rw [hafter, hfiled]
    refine ⟨findings_filed_self record f, { r with findings := r.findings ++ [f] }, ?_, by simp⟩
    rw [filed]
    dsimp only
    rw [List.getElem?_modify_eq, hr]
    rfl

/-- An open blocking finding that is held stays held over a run that does not resolve it. -/
theorem holds_of_run {B₀ : ReviewBoard} {h : List ReviewEntry} {record : ℕ} {f : ReviewFinding}
    (hrun : Run (ReviewCall.act reprText) B₀ h B) (hspares : ∀ e ∈ h, SparesIds e)
    (hunresolved : ∀ e ∈ h, ¬Resolves e f) (hopen : f.state = "open")
    (hblocking : f.severity ∈ blocking) (hholds : B₀.Holds record f) : B.Holds record f := by
  refine (hrun.inv_entries (I := fun B => B.Holds record f) hholds ?_).1
  intro h₁ e h₂ hsplit _ hbefore
  have he : e ∈ h := by simp [hsplit]
  obtain hafter | hresolves :=
    holds_perform (hrun.eq_perform he) (hspares e he) hopen hblocking hbefore
  · exact hafter
  · exact absurd hresolves (hunresolved e he)

end ReviewBoard

/-- **Blocking findings stay open until they are resolved**, in every run that never submits
another finding under the id of an open blocking one. -/
theorem stays_open_of_spared {B₀ B : ReviewBoard} {h : List ReviewEntry}
    (hrun : Run (ReviewCall.act reprText) B₀ h B) (hspares : ∀ e ∈ h, SparesIds e) :
    StaysOpen reprText h B := by
  rintro h₁ e h₂ record f rfl hraises hunresolved
  obtain ⟨-, he, hrest⟩ := hrun.split
  have hspares' : ∀ e' ∈ h₂, SparesIds e' := fun e' he' =>
    hspares e' (List.mem_append_right _ (List.mem_cons_of_mem _ he'))
  exact (ReviewBoard.holds_of_run hrest hspares' hunresolved hraises.isOpen hraises.isBlocking
    (ReviewBoard.Raises.holds he hraises)).blocks hraises.isOpen hraises.isBlocking

/-- A critical finding of the first reviewer. -/
def criticalFinding : ReviewFinding :=
  { findingId := "f1", subjectDigest := "d", reviewerRunId := "a", severity := "critical"
    summary := "no rollback", evidenceIds := ["e1"] }

/-- A remark of the second reviewer, under the same id. -/
def sameIdRemark : ReviewFinding :=
  { findingId := "f1", subjectDigest := "d", reviewerRunId := "b", severity := "low"
    summary := "typo", evidenceIds := [] }

/-- A blind review of the digest `"d"` by a run of its own. -/
def blindRequest (reviewerRunId : String) : ReviewCall :=
  .request "d" ⟨reviewerRunId, "author", "m1", "m2", true, true⟩ []

/-- A critical finding is submitted, and the round is finished. -/
def raisedCalls : List ReviewCall :=
  [blindRequest "a", .submit 0 criticalFinding, .finish 0 true]

/-- A round with one critical finding meets the condition. -/
theorem stays_open_of_spared_raised :
    StaysOpen id (exec (ReviewCall.act id) {} raisedCalls).1
      (exec (ReviewCall.act id) {} raisedCalls).2 := by
  refine stays_open_of_spared id (run_exec _ _ _) ?_
  intro e he record g hop f hfound hopen hblocking
  simp only [raisedCalls, exec, List.mem_cons, List.not_mem_nil, or_false] at he
  obtain rfl | rfl | rfl := he
  · cases hop
  · cases hfound
  · cases hop

/-- The critical finding is replaced by a remark, which its own reviewer resolves. -/
def replacedCalls : List ReviewCall :=
  [blindRequest "a", .submit 0 criticalFinding, .submit 0 sameIdRemark,
    .resolve "f1" "b" "risk_accepted" "d" [] false]

/-- The round of the critical finding is then finished as reviewed. -/
theorem not_stays_open :
    ¬∀ h B, Run (ReviewCall.act id) {} h B → StaysOpen id h B := by
  intro hclaim
  have hopen := hclaim _ _ (run_exec (ReviewCall.act id) {} replacedCalls)
  have hraises : Raises (Entry.perform (ReviewCall.act id)
      (ReviewBoard.opened {} "d" "a") (.submit 0 criticalFinding)) 0 criticalFinding :=
    ⟨rfl, by decide, rfl, rfl, by decide⟩
  have hunresolved : ∀ e ∈ (exec (ReviewCall.act id)
      ((ReviewBoard.opened {} "d" "a").filed 0 criticalFinding) (replacedCalls.drop 2)).1,
      ¬Resolves e criticalFinding := by
    intro e he
    rintro ⟨decision, digest, evidenceIds, planChanged, g, hop, hfound, -⟩
    simp only [replacedCalls, List.drop, exec, List.mem_cons, List.not_mem_nil, or_false] at he
    obtain rfl | rfl := he
    · cases hop
    · have hauthor : ("b" : String) = "a" :=
        congrArg ReviewFinding.reviewerRunId (Option.some.inj hfound)
      exact absurd hauthor (by decide)
  obtain ⟨r, hblocks⟩ := hopen [_] _ _ 0 criticalFinding rfl hraises hunresolved
  exact hblocks.unfinished true rfl

/-! ### The two gates -/

/-- Some round of the digest was approved. -/
def Approved (rounds : List ReviewRecord) (subjectDigest : String) : Prop :=
  ∃ (place : ℕ) (r : ReviewRecord), rounds[place]? = some r ∧ r.subjectDigest = subjectDigest ∧
    r.verdict = .approve

/-- The place of the latest round of its digest. -/
structure IsLatest (rounds : List ReviewRecord) (place : ℕ) (r : ReviewRecord) : Prop where
  round : rounds[place]? = some r
  last : ∀ later s, place < later → rounds[later]? = some s → s.subjectDigest ≠ r.subjectDigest

/-- The round is approved, and none of its blocking findings is open. -/
def Clear (B : ReviewBoard) (r : ReviewRecord) : Prop :=
  r.verdict = .approve ∧ B.openBlocking r = []

/-- The two gates answer alike. -/
def GatesAgree (B : ReviewBoard) (subjectDigest : String) : Prop :=
  B.isReviewed subjectDigest = true ↔ B.requireReviewed reprText subjectDigest = .ok ()

/-- Where a round of a digest is approved, its latest round is clear. -/
def Consistent (B : ReviewBoard) : Prop :=
  ∀ place r, IsLatest B.reviews place r → Approved B.reviews r.subjectDigest → Clear B r

/-- The elements of a list and one more, by their places. -/
theorem getElem?_concat_eq_some_iff {α : Type} {l : List α} {x a : α} {place : ℕ} :
    (l ++ [x])[place]? = some a ↔ l[place]? = some a ∨ place = l.length ∧ x = a := by
  obtain hlt | rfl | hgt := Nat.lt_trichotomy place l.length
  · rw [List.getElem?_append_left hlt]
    simp [Nat.ne_of_lt hlt]
  · simp
  · rw [List.getElem?_eq_none (by simpa using Nat.succ_le_of_lt hgt),
      List.getElem?_eq_none (Nat.le_of_lt hgt)]
    simp [Nat.ne_of_gt hgt]

/-- The last element of a list that satisfies a test, by its place. -/
theorem getLast?_filter_eq_some_iff {α : Type} {p : α → Bool} {l : List α} {a : α} :
    (l.filter p).getLast? = some a ↔ ∃ place : ℕ, l[place]? = some a ∧ p a = true ∧
      ∀ later b, place < later → l[later]? = some b → ¬p b = true := by
  induction l using List.reverseRecOn with
  | nil => simp
  | append_singleton l x ih =>
    have hlength {place : ℕ} {b : α} (hb : l[place]? = some b) : place < l.length :=
      (List.getElem?_eq_some_iff.mp hb).1
    rw [List.filter_append]
    simp only [getElem?_concat_eq_some_iff]
    by_cases hx : p x = true
    · rw [List.filter_cons_of_pos hx, List.filter_nil, List.getLast?_concat]
      constructor
      · rintro ⟨⟩
        refine ⟨l.length, .inr ⟨rfl, rfl⟩, hx, ?_⟩
        rintro later b hlater (hb | ⟨rfl, -⟩)
        · exact absurd (hlength hb) (Nat.lt_asymm hlater)
        · exact absurd hlater (Nat.lt_irrefl _)
      · rintro ⟨place, ha | ⟨rfl, rfl⟩, hpa, hlast⟩
        · exact absurd hx (hlast l.length x (hlength ha) (.inr ⟨rfl, rfl⟩))
        · rfl
    · rw [List.filter_cons_of_neg hx, List.filter_nil, List.append_nil, ih]
      refine exists_congr fun place => ⟨?_, ?_⟩
      · rintro ⟨ha, hpa, hlast⟩
        refine ⟨.inl ha, hpa, ?_⟩
        rintro later b hlater (hb | ⟨-, rfl⟩)
        · exact hlast later b hlater hb
        · exact hx
      · rintro ⟨ha | ⟨-, rfl⟩, hpa, hlast⟩
        · exact ⟨ha, hpa, fun later b hlater hb => hlast later b hlater (.inl hb)⟩
        · exact absurd hpa hx

section

variable {reprText} {B : ReviewBoard} {subjectDigest : String}

theorem getLast?_rounds_eq_some_iff {r : ReviewRecord} :
    (B.reviews.filter fun s => s.subjectDigest = subjectDigest).getLast? = some r ↔
      ∃ place, IsLatest B.reviews place r ∧ r.subjectDigest = subjectDigest := by
  rw [getLast?_filter_eq_some_iff]
  refine exists_congr fun place => ⟨?_, ?_⟩
  · rintro ⟨hr, hdigest, hlast⟩
    obtain rfl := of_decide_eq_true hdigest
    exact ⟨⟨hr, fun later s hlater hs heq => hlast later s hlater hs (decide_eq_true heq)⟩, rfl⟩
  · rintro ⟨⟨hr, hlast⟩, rfl⟩
    exact ⟨hr, decide_eq_true rfl, fun later s hlater hs heq =>
      hlast later s hlater hs (of_decide_eq_true heq)⟩

theorem isReviewed_iff : B.isReviewed subjectDigest = true ↔ Approved B.reviews subjectDigest := by
  rw [ReviewBoard.isReviewed, List.any_eq_true]
  constructor
  · rintro ⟨r, hr, happroved⟩
    obtain ⟨place, hplace⟩ := List.mem_iff_getElem?.mp hr
    exact ⟨place, r, hplace, of_decide_eq_true happroved⟩
  · rintro ⟨place, r, hplace, happroved⟩
    exact ⟨r, List.mem_of_getElem? hplace, decide_eq_true happroved⟩

theorem requireReviewed_eq_ok_iff :
    B.requireReviewed reprText subjectDigest = .ok () ↔
      ∃ place r, IsLatest B.reviews place r ∧ r.subjectDigest = subjectDigest ∧ Clear B r := by
  have hrounds (r : ReviewRecord) :
      (B.reviews.filter fun s => s.subjectDigest = subjectDigest).getLast? = some r ↔
        ∃ place, IsLatest B.reviews place r ∧ r.subjectDigest = subjectDigest :=
    getLast?_rounds_eq_some_iff
  rw [ReviewBoard.requireReviewed]
  rcases hlatest : (B.reviews.filter fun s => s.subjectDigest = subjectDigest).getLast? with _ | r
  · rw [hlatest]
    refine ⟨nofun, ?_⟩
    rintro ⟨place, r, hr, hdigest, -⟩
    have hsome := (hrounds r).mpr ⟨place, hr, hdigest⟩
    rw [hlatest] at hsome
    cases hsome
  · have hclear : (∃ place s, IsLatest B.reviews place s ∧ s.subjectDigest = subjectDigest ∧
        Clear B s) ↔ Clear B r := by
      constructor
      · rintro ⟨place, s, hs, hdigest, hclear⟩
        have hsome := (hrounds s).mpr ⟨place, hs, hdigest⟩
        rw [hlatest] at hsome
        rwa [Option.some.inj hsome]
      · intro hclear
        obtain ⟨place, hr, hdigest⟩ := (hrounds r).mp hlatest
        exact ⟨place, r, hr, hdigest, hclear⟩
    rw [hlatest, hclear, Clear]
    dsimp only
    split_ifs with hopen hverdict
    · exact ⟨nofun, fun h => absurd h.2 hopen⟩
    · exact ⟨nofun, fun h => absurd h.1 hverdict⟩
    · exact ⟨fun _ => ⟨not_not.mp hverdict, not_not.mp hopen⟩, fun _ => rfl⟩

theorem exists_latest_of_approved (h : Approved B.reviews subjectDigest) :
    ∃ place r, IsLatest B.reviews place r ∧ r.subjectDigest = subjectDigest := by
  obtain ⟨place, r, hr, hdigest, -⟩ := h
  have hmem : r ∈ B.reviews.filter fun s => s.subjectDigest = subjectDigest :=
    List.mem_filter.mpr ⟨List.mem_of_getElem? hr, decide_eq_true hdigest⟩
  obtain ⟨latest, hlatest⟩ := Option.isSome_iff_exists.mp
    (List.getLast?_isSome.mpr (List.ne_nil_of_mem hmem))
  obtain ⟨place', h⟩ := getLast?_rounds_eq_some_iff.mp hlatest
  exact ⟨place', latest, h⟩

/-- **When the gates agree**: an approved digest has a clear latest round. -/
theorem gatesAgree_iff : GatesAgree reprText B subjectDigest ↔ ∀ place r,
    IsLatest B.reviews place r → r.subjectDigest = subjectDigest →
      Approved B.reviews subjectDigest → Clear B r := by
  rw [GatesAgree, isReviewed_iff, requireReviewed_eq_ok_iff]
  constructor
  · rintro hagree place r hr rfl happroved
    obtain ⟨place', r', hr', hdigest, hclear⟩ := hagree.mp happroved
    have hlatest := getLast?_rounds_eq_some_iff.mpr ⟨place, hr, rfl⟩
    rw [getLast?_rounds_eq_some_iff.mpr ⟨place', hr', hdigest⟩] at hlatest
    rwa [← Option.some.inj hlatest]
  · refine fun h => ⟨fun happroved => ?_, ?_⟩
    · obtain ⟨place, r, hr, hdigest⟩ := exists_latest_of_approved happroved
      exact ⟨place, r, hr, hdigest, h place r hr hdigest happroved⟩
    · rintro ⟨place, r, hr, hdigest, hclear⟩
      exact ⟨place, r, hr.round, hdigest, hclear.1⟩

theorem gatesAgree_of_consistent (h : Consistent B) (subjectDigest : String) :
    GatesAgree reprText B subjectDigest := by
  rw [gatesAgree_iff]
  rintro place r hr rfl happroved
  exact h place r hr happroved

/-! ### What keeps the gates in agreement -/

variable {rounds : List ReviewRecord} {place : ℕ} {change : ReviewRecord → ReviewRecord}

/-- A round after one of them was changed in place. -/
theorem getElem?_modify_eq_some_iff {record : ℕ} {r : ReviewRecord} :
    (rounds.modify record change)[place]? = some r ↔
      ∃ s, rounds[place]? = some s ∧ r = if record = place then change s else s := by
  rw [List.getElem?_modify]
  rcases rounds[place]? with _ | s
  · simp
  · by_cases hplace : record = place <;> simp [hplace, eq_comm]

/-- A change that keeps the digest of a round keeps which rounds are the latest. -/
theorem IsLatest.of_modify {record : ℕ} {r : ReviewRecord}
    (h : IsLatest (rounds.modify record change) place r)
    (hdigest : ∀ s, (change s).subjectDigest = s.subjectDigest) :
    ∃ s, IsLatest rounds place s ∧ s.subjectDigest = r.subjectDigest ∧
      r = if record = place then change s else s := by
  obtain ⟨s, hs, hr⟩ := getElem?_modify_eq_some_iff.mp h.round
  have hsame : s.subjectDigest = r.subjectDigest := by
    rw [hr]
    split_ifs
    · exact (hdigest s).symm
    · rfl
  refine ⟨s, ⟨hs, fun later t hlater ht heq => ?_⟩, hsame, hr⟩
  refine h.last later _ hlater (getElem?_modify_eq_some_iff.mpr ⟨t, ht, rfl⟩) ?_
  split_ifs
  · exact (hdigest t).trans (heq.trans hsame)
  · exact heq.trans hsame

/-- An operation that keeps the gates in agreement: no round is opened for a digest that has an
approved one, no finding is left open and blocking in the latest round of such a digest, a round is
approved only as the latest of its digest or next to an approved one, and the latest round loses its
approval only where no other of its digest is approved. -/
structure KeepsGates (e : ReviewEntry) : Prop where
  request : ∀ digest binding input place, e.op = .request digest binding input →
    e.reply = .ok (.record place) → ¬Approved e.before.reviews digest
  submit : ∀ record f, e.op = .submit record f → e.reply = .ok (.finding f) → f.state = "open" →
    ∀ place r, IsLatest e.before.reviews place r → Approved e.before.reviews r.subjectDigest →
      (record = place → f.severity ∉ blocking) ∧
        ∀ g ∈ r.findings, g.findingId = f.findingId → g.severity ∉ blocking
  approve : ∀ record r, e.op = .finish record true → e.before.reviews[record]? = some r →
    e.before.openBlocking r = [] →
      IsLatest e.before.reviews record r ∨ Approved e.before.reviews r.subjectDigest
  reject : ∀ record reviewerOk r, e.op = .finish record reviewerOk →
    IsLatest e.before.reviews record r → reviewerOk = false ∨ e.before.openBlocking r ≠ [] →
      ∀ place s, place ≠ record → e.before.reviews[place]? = some s →
        s.subjectDigest = r.subjectDigest → s.verdict ≠ .approve

theorem openBlocking_eq_nil_iff {r : ReviewRecord} :
    B.openBlocking r = [] ↔ ∀ f ∈ r.findings, f.severity ∈ blocking →
      ∀ current, B.findings f.findingId = some current → current.state ≠ "open" := by
  rw [List.eq_nil_iff_forall_not_mem]
  constructor
  · intro h f hf hblocking current hcurrent hopen
    exact h f (ReviewBoard.mem_openBlocking.mpr ⟨hf, ⟨current, hcurrent, hopen⟩, hblocking⟩)
  · intro h f hmem
    obtain ⟨hf, ⟨current, hcurrent, hopen⟩, hblocking⟩ := ReviewBoard.mem_openBlocking.mp hmem
    exact h f hf hblocking current hcurrent hopen

namespace Consistent

theorem opened (h : Consistent B) (hnew : ¬Approved B.reviews subjectDigest)
    (reviewerRunId : String) : Consistent (B.opened subjectDigest reviewerRunId) := by
  intro place r hlatest happroved
  have hround (place : ℕ) (s : ReviewRecord) :
      (B.opened subjectDigest reviewerRunId).reviews[place]? = some s ↔
        B.reviews[place]? = some s ∨ place = B.reviews.length ∧
          ⟨subjectDigest, reviewerRunId, .unverifiable, [], 1⟩ = s :=
    getElem?_concat_eq_some_iff
  have happroved' : Approved B.reviews r.subjectDigest := by
    obtain ⟨place', s, hs, hdigest, hverdict⟩ := happroved
    obtain hs | ⟨-, rfl⟩ := (hround place' s).mp hs
    · exact ⟨place', s, hs, hdigest, hverdict⟩
    · cases hverdict
  obtain hr | ⟨-, rfl⟩ := (hround place r).mp hlatest.round
  · exact h place r ⟨hr, fun later s hlater hs => hlatest.last later s hlater
      ((hround later s).mpr (.inl hs))⟩ happroved'
  · exact absurd happroved' hnew

theorem filed (h : Consistent B) {record : ℕ} {f : ReviewFinding}
    (hfile : f.state = "open" → ∀ place r, IsLatest B.reviews place r →
      Approved B.reviews r.subjectDigest → (record = place → f.severity ∉ blocking) ∧
        ∀ g ∈ r.findings, g.findingId = f.findingId → g.severity ∉ blocking) :
    Consistent (B.filed record f) := by
  intro place r hlatest happroved
  have hmodified : IsLatest (B.reviews.modify record fun r =>
      { r with findings := r.findings ++ [f] }) place r := hlatest
  obtain ⟨s, hs, hdigest, hr⟩ := hmodified.of_modify fun _ => rfl
  have happroved' : Approved B.reviews s.subjectDigest := by
    obtain ⟨place', t, ht, hsame, hverdict⟩ := happroved
    obtain ⟨u, hu, rfl⟩ := getElem?_modify_eq_some_iff.mp ht
    refine ⟨place', u, hu, ?_, ?_⟩
    · rw [hdigest, ← hsame]
      split_ifs <;> rfl
    · rw [← hverdict]
      split_ifs <;> rfl
  obtain ⟨hverdict, hclear⟩ := h place s hs happroved'
  refine ⟨?_, openBlocking_eq_nil_iff.mpr ?_⟩
  · rw [hr, ← hverdict]
    split_ifs <;> rfl
  rw [openBlocking_eq_nil_iff] at hclear
  intro g hg hblocking current hcurrent hopen
  by_cases hid : g.findingId = f.findingId
  · -- the finding just filed is the current one
    obtain rfl : f = current := by
      rw [hid, ReviewBoard.findings_filed_self] at hcurrent
      exact Option.some.inj hcurrent
    obtain ⟨hown, hothers⟩ := hfile hopen place s hs happroved'
    rw [hr] at hg
    split_ifs at hg with hrecord
    · obtain hg | hg := List.mem_append.mp hg
      · exact hothers g hg hid hblocking
      · rw [List.mem_singleton.mp hg] at hblocking
        exact hown hrecord hblocking
    · exact hothers g hg hid hblocking
  · rw [ReviewBoard.findings_filed_of_ne hid] at hcurrent
    rw [hr] at hg
    split_ifs at hg with hrecord
    · obtain hg | hg := List.mem_append.mp hg
      · exact hclear g hg hblocking current hcurrent hopen
      · exact hid (congrArg ReviewFinding.findingId (List.mem_singleton.mp hg))
    · exact hclear g hg hblocking current hcurrent hopen

theorem resolved (h : Consistent B) {f : ReviewFinding} {findingId decision digest : String}
    (hdecision : decision ∈ resolutions) : Consistent (B.resolved f findingId decision digest) := by
  intro place r hlatest happroved
  obtain ⟨hverdict, hclear⟩ := h place r hlatest happroved
  refine ⟨hverdict, openBlocking_eq_nil_iff.mpr ?_⟩
  rw [openBlocking_eq_nil_iff] at hclear
  intro g hg hblocking current hcurrent hopen
  by_cases hid : g.findingId = findingId
  · rw [hid, ReviewBoard.findings_resolved_self] at hcurrent
    obtain rfl := Option.some.inj hcurrent
    obtain rfl : decision = "open" := hopen
    exact absurd hdecision (by decide)
  · rw [ReviewBoard.findings_resolved_of_ne hid] at hcurrent
    exact hclear g hg hblocking current hcurrent hopen

/-- The round that is judged, by its verdict: approved with nothing open, as the latest round or
next to an approved one; or not approved, and as the latest round the only one that was. -/
theorem judged (h : Consistent B) {record : ℕ} {r : ReviewRecord} {verdict : Verdict}
    (hround : B.reviews[record]? = some r)
    (happrove : verdict = .approve → B.openBlocking r = [] ∧
      (IsLatest B.reviews record r ∨ Approved B.reviews r.subjectDigest))
    (hreject : verdict ≠ .approve → IsLatest B.reviews record r → ∀ place s, place ≠ record →
      B.reviews[place]? = some s → s.subjectDigest = r.subjectDigest → s.verdict ≠ .approve) :
    Consistent (B.judged record verdict) := by
  intro place t hlatest happroved
  have hmodified : IsLatest (B.reviews.modify record fun r => { r with verdict }) place t := hlatest
  obtain ⟨s, hs, hdigest, ht⟩ := hmodified.of_modify fun _ => rfl
  have hopen : (B.judged record verdict).openBlocking t = B.openBlocking s := by
    rw [ht]
    split_ifs <;> rfl
  rw [Clear, hopen]
  obtain ⟨place', u, hu, hsame, hverdict⟩ := happroved
  obtain ⟨v, hv, rfl⟩ := getElem?_modify_eq_some_iff.mp hu
  by_cases hplace : record = place
  · -- the latest round is judged
    subst hplace
    obtain rfl : r = s := Option.some.inj (hround.symm.trans hs.round)
    rw [if_pos rfl] at ht
    rw [ht]
    by_cases happroves : verdict = .approve
    · exact ⟨happroves, (happrove happroves).1⟩
    · by_cases hplace' : record = place'
      · rw [if_pos hplace'] at hverdict
        exact absurd hverdict happroves
      · rw [if_neg hplace'] at hverdict hsame
        exact absurd hverdict
          (hreject happroves hs place' v (Ne.symm hplace') hv (hsame.trans hdigest.symm))
  · rw [if_neg hplace] at ht
    subst ht
    by_cases hplace' : record = place'
    · subst hplace'
      obtain rfl : r = v := Option.some.inj (hround.symm.trans hv)
      rw [if_pos rfl] at hverdict hsame
      obtain hthis | happroved := (happrove hverdict).2
      · obtain hlt | rfl | hgt := Nat.lt_trichotomy record place
        · exact absurd hsame.symm (hthis.last place t hlt hs.round)
        · exact absurd rfl hplace
        · exact absurd hsame (hs.last record r hgt hround)
      · exact h place t hs (hsame ▸ happroved)
    · rw [if_neg hplace'] at hverdict hsame
      exact h place t hs ⟨place', v, hv, hsame, hverdict⟩

/-- **One operation** that keeps the gates in agreement leaves the board consistent. -/
theorem perform {e : ReviewEntry}
    (he : e = Entry.perform (ReviewCall.act reprText) e.before e.op) (hkeeps : KeepsGates e)
    (h : Consistent e.before) : Consistent e.after := by
  have hafter : e.after = (e.op.act reprText e.before).2 := congrArg Entry.after he
  have hreply : e.reply = (e.op.act reprText e.before).1 := congrArg Entry.reply he
  rw [hafter]
  rcases hop : e.op with ⟨digest, binding, input⟩ | ⟨record, f⟩ |
    ⟨findingId, runId, decision, digest, evidenceIds, planChanged⟩ | ⟨record, reviewerOk⟩
  all_goals
    rw [hop, ReviewCall.act, ReviewCall.op, run_map] at hreply
    rw [ReviewCall.act, ReviewCall.op, run_map]
    dsimp only at hreply ⊢
  · obtain hsame | ⟨hopened, place, hok⟩ := ReviewBoard.requestReview_cases reprText digest
      binding input e.before
    · rw [hsame]
      exact h
    · rw [hok] at hreply
      rw [hopened]
      exact h.opened (hkeeps.request digest binding input place hop hreply) _
  · obtain ⟨hsame, -⟩ | ⟨failure, hsame⟩ | ⟨hfiled, -⟩ :=
      ReviewBoard.submitFinding_cases record f e.before
    · rw [hsame]
      exact h
    · rw [hsame]
      exact h
    · rw [hfiled] at hreply ⊢
      exact h.filed (hkeeps.submit record f hop hreply)
  · obtain ⟨failure, hsame⟩ | ⟨f, g, hresolved, -, -, hdecision⟩ :=
      ReviewBoard.resolveFinding_cases reprText findingId runId decision digest evidenceIds
        planChanged e.before
    · rw [hsame]
      exact h
    · rw [hresolved]
      exact h.resolved hdecision
  · obtain ⟨hsame, -⟩ | ⟨r, verdict, outcome, hjudged, hround, hverdict, -⟩ :=
      ReviewBoard.finishReview_cases record reviewerOk e.before
    · rw [hsame]
      exact h
    rw [hjudged]
    refine h.judged hround (fun happroves => ?_) fun hnot hlatest => ?_
    · obtain ⟨rfl, hclear⟩ := hverdict.mp happroves
      exact ⟨hclear, hkeeps.approve record r hop hround hclear⟩
    · refine hkeeps.reject record reviewerOk r hop hlatest ?_
      by_contra hno
      rw [not_or, Bool.not_eq_false, not_not] at hno
      exact hnot (hverdict.mpr hno)

end Consistent

end

/-- **The two gates agree** on every digest, in every run from a board without rounds whose
operations keep them in agreement. -/
theorem gates_agree_of_kept {B₀ B : ReviewBoard} {h : List ReviewEntry}
    (hrun : Run (ReviewCall.act reprText) B₀ h B) (hstart : B₀.reviews = [])
    (hkeeps : ∀ e ∈ h, KeepsGates e) (subjectDigest : String) :
    GatesAgree reprText B subjectDigest := by
  have hconsistent : Consistent B₀ := by
    intro place r hlatest
    have hnone := hlatest.round
    rw [hstart] at hnone
    cases hnone
  refine gatesAgree_of_consistent (hrun.inv_entries (I := Consistent) hconsistent ?_).1 _
  intro h₁ e h₂ hsplit _ hbefore
  have he : e ∈ h := by simp [hsplit]
  exact hbefore.perform (hrun.eq_perform he) (hkeeps e he)

/-- A round is opened, and approved. -/
def approvedCalls : List ReviewCall := [blindRequest "a", .finish 0 true]

/-- One approved round keeps the gates in agreement. -/
theorem gates_agree_of_kept_approved :
    GatesAgree id (exec (ReviewCall.act id) {} approvedCalls).2 "d" := by
  refine gates_agree_of_kept id (run_exec _ _ _) rfl ?_ "d"
  intro e he
  simp only [approvedCalls, exec, List.mem_cons, List.not_mem_nil, or_false] at he
  obtain rfl | rfl := he
  · refine ⟨?_, by rintro _ _ ⟨⟩, by rintro _ _ ⟨⟩, by rintro _ _ _ ⟨⟩⟩
    rintro digest binding input place - -
    rintro ⟨place', r, hr, -⟩
    cases hr
  · refine ⟨by rintro _ _ _ _ ⟨⟩, by rintro _ _ ⟨⟩, ?_, ?_⟩
    · rintro record r ⟨⟩ hr -
      refine .inl ⟨hr, fun later s hlater hs => ?_⟩
      obtain ⟨n, rfl⟩ := Nat.exists_eq_add_of_lt hlater
      rw [Nat.zero_add] at hs
      cases hs
    · rintro record reviewerOk r ⟨⟩ hr hrejected
      obtain rfl := Option.some.inj hr.round
      rcases hrejected with hno | hopen
      · cases hno
      · exact absurd rfl hopen

/-- **A second round is opened** for a digest that was approved: one gate passes, the other does
not. -/
theorem not_gates_agree : ¬∀ h B, Run (ReviewCall.act id) {} h B →
    ∀ subjectDigest, GatesAgree id B subjectDigest := by
  intro hclaim
  have hagree := hclaim _ _
    (run_exec (ReviewCall.act id) {} (approvedCalls ++ [blindRequest "b"])) "d"
  have hpasses := hagree.mp rfl
  cases hpasses

end Planning

end CyranoAgent
