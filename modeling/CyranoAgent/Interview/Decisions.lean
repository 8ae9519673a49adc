import Mathlib.Data.Finset.Card
import Mathlib.Data.Int.Notation
import CyranoAgent.Contracts.Types
import CyranoAgent.Lib.Action
import CyranoAgent.Lib.Dict
import CyranoAgent.Lib.Run

/-!
# The decision log of an interview

`DecisionLog`: the current decisions under their ids, and the history of all that were recorded. A
proposal is compared with a decided entry by its text alone, and takes the place of one of the same
text with its own authority and status. In runs where a decided entry is proposed again only as
decided, and by a user where a user decided it, decisions stand until they are rescinded
(`decisions_stand_of_upheld`).
-/

namespace CyranoAgent

open Lib Lib.Action

namespace Interview

/-- `DECISION_STATUS`. -/
inductive DecisionStatus
  | proposed | decided | superseded | revoked
  deriving DecidableEq, Repr

/-- The text of a status. -/
def DecisionStatus.text : DecisionStatus → String
  | .proposed => "proposed"
  | .decided => "decided"
  | .superseded => "superseded"
  | .revoked => "revoked"

/-- `Decision`. -/
structure Decision where
  decisionId : String
  text : String
  authority : String
  domain : String
  impact : String
  revision : ℤ
  status : DecisionStatus := .proposed
  deriving DecidableEq, Repr

/-- `DELEGATED_DOMAINS`. -/
def delegatedDomains : List String := ["internal_structure", "internal_choice"]

/-- `DecisionLog`. -/
structure DecisionLog where
  delegated : List String := delegatedDomains
  decisions : Dict String Decision := ∅
  history : List Decision := []

/-! ### What a change affects -/

/-- The nodes with a parent among the affected ones. -/
def extraAffected (dependencies : Dict String (List String)) (affected : List String) :
    List String :=
  (dependencies.entries.filter fun entry => entry.2.any (· ∈ affected)).map Prod.fst

/-- A round that adds something leaves fewer nodes to add. -/
theorem card_unaffected_lt {dependencies : Dict String (List String)} {affected : List String}
    (h : ¬extraAffected dependencies affected ⊆ affected) :
    (dependencies.keys.toFinset \
        (affected ++ extraAffected dependencies affected).toFinset).card <
      (dependencies.keys.toFinset \ affected.toFinset).card := by
  obtain ⟨node, hnode, hnew⟩ := Set.not_subset.mp h
  refine Finset.card_lt_card ((Finset.ssubset_iff_of_subset ?_).mpr ⟨node, ?_, ?_⟩)
  · refine Finset.sdiff_subset_sdiff (subset_refl _) fun x hx => ?_
    rw [List.mem_toFinset] at hx ⊢
    exact List.mem_append_left _ hx
  · obtain ⟨entry, hentry, rfl⟩ := List.mem_map.mp hnode
    rw [Finset.mem_sdiff, List.mem_toFinset, List.mem_toFinset]
    exact ⟨List.mem_map_of_mem (List.mem_of_mem_filter hentry), hnew⟩
  · rw [Finset.mem_sdiff, List.mem_toFinset, List.mem_toFinset]
    exact fun hmem => hmem.2 (List.mem_append_right _ hnode)

/-- The loop of `affected_closure`. -/
def affectedLoop (dependencies : Dict String (List String)) (affected : List String) :
    List String :=
  if _h : extraAffected dependencies affected ⊆ affected then affected
  else affectedLoop dependencies (affected ++ extraAffected dependencies affected)
termination_by (dependencies.keys.toFinset \ affected.toFinset).card
decreasing_by exact card_unaffected_lt _h

/-- `affected_closure`. -/
def affectedClosure (changed : List String) (dependencies : Dict String (List String)) :
    List String :=
  affectedLoop dependencies changed

namespace DecisionLog

/-- What a call on the log is. -/
abbrev LogOp (α : Type) := Lib.Action DecisionLog Failure α

/-- The status a proposal gets. -/
def proposedStatus (delegated : List String) (proposer domain impact : String)
    (userAuthorized : Bool) : DecisionStatus :=
  if domain ∈ delegated ∧ impact = "low" then .decided
  else if proposer = "user" ∨ userAuthorized = true then .decided
  else .proposed

/-- The decision a proposal makes. -/
def proposal (delegated : List String) (decisionId text proposer domain impact : String)
    (revision : ℤ) (userAuthorized : Bool) : Decision :=
  let status := proposedStatus delegated proposer domain impact userAuthorized
  { decisionId, text, domain, impact, revision, status
    authority :=
      if userAuthorized = true ∨ proposer = "user" then "user"
      else if status = .decided then "delegated"
      else proposer }

/-- `propose`. -/
def propose (decisionId text proposer domain impact : String) (revision : ℤ)
    (userAuthorized : Bool) : LogOp Decision := do
  let log ← get
  raiseIf (proposer = "model" ∧ impact = "high" ∧ userAuthorized = false)
    (.cyrano "UNAUTHORIZED_DECISION" decisionId)
  raiseIf (proposer = "model" ∧ domain ∉ log.delegated ∧ userAuthorized = false)
    (.cyrano "UNAUTHORIZED_DECISION" decisionId)
  let decision :=
    proposal log.delegated decisionId text proposer domain impact revision userAuthorized
  raiseIf ((log.decisions.get? decisionId).any fun current =>
      current.status = .decided ∧ current.text ≠ text)
    (.cyrano "DECISION_CONFLICT" decisionId)
  set { log with
    decisions := log.decisions.set decisionId decision
    history := log.history ++ [decision] }
  return decision

/-- `get`. -/
def current (decisionId : String) : LogOp Decision := do
  match (← get).decisions.get? decisionId with
  | some decision => return decision
  | none => throw (.cyrano "UNKNOWN_DECISION" decisionId)

/-- `rescind`: what the rescission invalidates. -/
def rescind (decisionId : String) (dependents : Dict String (List String)) :
    LogOp (List String) := do
  let decision ← current decisionId
  raiseIf (decision.status = .revoked) (.cyrano "DECISION_CONFLICT" decisionId)
  let revoked := { decision with status := .revoked }
  modify fun log => { log with
    decisions := log.decisions.set decisionId revoked
    history := log.history ++ [revoked] }
  return affectedClosure [decisionId] dependents

/-- `history`: all versions of a decision, oldest first. -/
def historyOf (log : DecisionLog) (decisionId : String) : List Decision :=
  log.history.filter fun decision => decision.decisionId = decisionId

/-- `all_current`. -/
def allCurrent (log : DecisionLog) : List Decision := log.decisions.values

/-! ### What the calls do -/

/-- The log with one more decision, now the current one under its key. -/
def recorded (log : DecisionLog) (decisionId : String) (decision : Decision) : DecisionLog :=
  { log with
    decisions := log.decisions.set decisionId decision
    history := log.history ++ [decision] }

/-- A recorded decision is appended to the history of its id. -/
theorem historyOf_prefix_recorded (log : DecisionLog) (key : String) (decision : Decision)
    (decisionId : String) :
    log.historyOf decisionId <+: (log.recorded key decision).historyOf decisionId := by
  rw [historyOf, historyOf, recorded, List.filter_append]
  exact List.prefix_append _ _

end DecisionLog

/-- The arguments of `propose`. -/
structure Proposal where
  decisionId : String
  text : String
  proposer : String
  domain : String
  impact : String
  revision : ℤ
  userAuthorized : Bool := false

/-- The proposal comes from a user, or a user authorised it. -/
def Proposal.FromUser (p : Proposal) : Prop := p.userAuthorized = true ∨ p.proposer = "user"

/-- A model proposes only what a user authorised, or what is delegated and of no high impact. -/
def Proposal.Admitted (p : Proposal) (delegated : List String) : Prop :=
  p.proposer = "model" → p.userAuthorized = false → p.impact ≠ "high" ∧ p.domain ∈ delegated

/-- The calls that change a log. -/
inductive LogCall
  | propose (p : Proposal)
  | rescind (decisionId : String) (dependents : Dict String (List String))

/-- What a call returns. -/
inductive LogReply
  | decision (d : Decision)
  | invalidated (nodes : List String)

/-- The action of a call. -/
def LogCall.op : LogCall → DecisionLog.LogOp LogReply
  | .propose p => .decision <$> DecisionLog.propose p.decisionId p.text p.proposer p.domain
      p.impact p.revision p.userAuthorized
  | .rescind decisionId dependents => .invalidated <$> DecisionLog.rescind decisionId dependents

/-- Perform a call. -/
def LogCall.act (call : LogCall) (log : DecisionLog) : Except Failure LogReply × DecisionLog :=
  call.op.run log

/-- One call of a history of a log. -/
abbrev LogEntry := Entry DecisionLog LogCall (Except Failure LogReply)

/-- The decision that a proposal makes. -/
def Proposal.decision (p : Proposal) (delegated : List String) : Decision :=
  DecisionLog.proposal delegated p.decisionId p.text p.proposer p.domain p.impact p.revision
    p.userAuthorized

/-- The proposal contradicts a decided entry. -/
def Proposal.Conflicts (p : Proposal) (log : DecisionLog) : Prop :=
  ∃ d, log.decisions.get? p.decisionId = some d ∧ d.status = .decided ∧ d.text ≠ p.text

/-- A proposal is recorded where it is admitted and contradicts nothing. -/
theorem act_propose (p : Proposal) (log : DecisionLog) :
    (p.Admitted log.delegated ∧ ¬p.Conflicts log ∧
        (LogCall.propose p).act log = (.ok (.decision (p.decision log.delegated)),
          log.recorded p.decisionId (p.decision log.delegated))) ∨
      (¬(p.Admitted log.delegated ∧ ¬p.Conflicts log) ∧
        ((LogCall.propose p).act log).2 = log) := by
  have hconflicts : ((log.decisions.get? p.decisionId).any fun current =>
      current.status = .decided ∧ current.text ≠ p.text) = true ↔ p.Conflicts log := by
    simp [Option.any_eq_true, Proposal.Conflicts]
  rw [LogCall.act, LogCall.op, run_map, DecisionLog.propose, run_bind, run_get]
  simp only [run_raiseIf_bind]
  by_cases hhigh : p.proposer = "model" ∧ p.impact = "high" ∧ p.userAuthorized = false
  · rw [if_pos hhigh]
    exact .inr ⟨fun h => (h.1 hhigh.1 hhigh.2.2).1 hhigh.2.1, rfl⟩
  by_cases hdomain : p.proposer = "model" ∧ p.domain ∉ log.delegated ∧ p.userAuthorized = false
  · rw [if_neg hhigh, if_pos hdomain]
    exact .inr ⟨fun h => hdomain.2.1 (h.1 hdomain.1 hdomain.2.2).2, rfl⟩
  have hadmitted : p.Admitted log.delegated := fun hmodel hno =>
    ⟨fun h => hhigh ⟨hmodel, h, hno⟩, by_contra fun h => hdomain ⟨hmodel, h, hno⟩⟩
  rw [if_neg hhigh, if_neg hdomain]
  by_cases hconflict : p.Conflicts log
  · rw [if_pos (hconflicts.mpr hconflict)]
    exact .inr ⟨fun h => h.2 hconflict, rfl⟩
  · rw [if_neg fun h => hconflict (hconflicts.mp h)]
    exact .inl ⟨hadmitted, hconflict, rfl⟩

/-- A rescission records that the decision is revoked, or changes nothing. -/
theorem act_rescind (decisionId : String) (dependents : Dict String (List String))
    (log : DecisionLog) :
    ((LogCall.rescind decisionId dependents).act log).2 = log ∨
      ∃ d : Decision, ((LogCall.rescind decisionId dependents).act log).2 =
        log.recorded decisionId { d with status := .revoked } := by
  rw [LogCall.act, LogCall.op, run_map, DecisionLog.rescind, DecisionLog.current, run_bind,
    run_bind, run_get]
  dsimp only
  rcases log.decisions.get? decisionId with _ | d
  · exact .inl rfl
  dsimp only
  rw [run_pure]
  dsimp only
  rw [run_raiseIf_bind]
  split_ifs
  · exact .inl rfl
  · exact .inr ⟨d, rfl⟩

/-! ### Decisions stand until they are rescinded -/

/-- The call rescinds the decision. -/
def Rescinds (e : LogEntry) (decisionId : String) : Prop :=
  ∃ dependents, e.op = .rescind decisionId dependents

/-- A decision that stands: the text and the status are the same, and the authority if it was a
user's. -/
structure Upheld (d d' : Decision) : Prop where
  text : d'.text = d.text
  status : d'.status = d.status
  authority : d.authority = "user" → d'.authority = "user"

theorem Upheld.refl (d : Decision) : Upheld d d := ⟨rfl, rfl, id⟩

theorem Upheld.trans {d d' d'' : Decision} (h : Upheld d d') (h' : Upheld d' d'') : Upheld d d'' :=
  ⟨h'.text.trans h.text, h'.status.trans h.status, fun hd => h'.authority (h.authority hd)⟩

/-- What a log promises over every part of a history. -/
structure DecisionLaw (h : List LogEntry) : Prop where
  /-- A decided entry stands over calls that do not rescind it. -/
  kept : ∀ span, span <:+: h → ∀ log log', Run LogCall.act log span log' → ∀ decisionId d,
    log.decisions.get? decisionId = some d → d.status = .decided →
      (∀ e ∈ span, ¬Rescinds e decisionId) →
        ∃ d', log'.decisions.get? decisionId = some d' ∧ Upheld d d'
  /-- The history of every id grows by appending. -/
  grown : ∀ span, span <:+: h → ∀ log log', Run LogCall.act log span log' → ∀ decisionId,
    log.historyOf decisionId <+: log'.historyOf decisionId

/-- A proposal under the id and the text of a decided entry that is admitted comes from a user, or
decides what is delegated where no user decided it. -/
def Upholds (e : LogEntry) : Prop :=
  ∀ p, e.op = .propose p → p.Admitted e.before.delegated → ∀ d,
    e.before.decisions.get? p.decisionId = some d → d.status = .decided → d.text = p.text →
      p.FromUser ∨ d.authority ≠ "user" ∧ p.domain ∈ e.before.delegated ∧ p.impact = "low"

section

variable {log log' log₀ : DecisionLog} {h : List LogEntry} {e : LogEntry}

/-- A decision is decided where it comes from a user, or is delegated and of low impact. -/
theorem decided_iff (p : Proposal) (delegated : List String) :
    (p.decision delegated).status = .decided ↔
      p.FromUser ∨ p.domain ∈ delegated ∧ p.impact = "low" := by
  rw [Proposal.decision, DecisionLog.proposal, Proposal.FromUser]
  dsimp only
  rw [DecisionLog.proposedStatus]
  split_ifs with hlow huser
  · simp [hlow]
  · simp [huser.symm]
  · simp only [false_iff, not_or]
    rw [not_or] at huser
    exact ⟨⟨huser.2, huser.1⟩, hlow⟩

/-- A decision has the authority of a user where it comes from one, or from one who is called
so. -/
theorem authority_of_fromUser {p : Proposal} {delegated : List String} (h : p.FromUser) :
    (p.decision delegated).authority = "user" := by
  rw [Proposal.decision, DecisionLog.proposal]
  exact if_pos h

theorem fromUser_of_authority {p : Proposal} {delegated : List String}
    (h : (p.decision delegated).authority = "user") : p.FromUser := by
  rw [Proposal.decision, DecisionLog.proposal] at h
  dsimp only at h
  by_contra hno
  rw [Proposal.FromUser] at hno
  rw [if_neg hno] at h
  split_ifs at h with hdecided
  · exact absurd h (by decide)
  · exact hno (.inr h)

/-- **One call** keeps a decided entry if it upholds it, unless it rescinds it. -/
theorem upheld_of_upholds (he : e = Entry.perform LogCall.act e.before e.op) (hup : Upholds e)
    {decisionId : String} {d : Decision} (hd : e.before.decisions.get? decisionId = some d)
    (hdecided : d.status = .decided) (hnot : ¬Rescinds e decisionId) :
    ∃ d', e.after.decisions.get? decisionId = some d' ∧ Upheld d d' := by
  have hafter : e.after = (e.op.act e.before).2 := congrArg Entry.after he
  rw [hafter]
  rcases hop : e.op with p | ⟨id, dependents⟩
  · obtain ⟨hadmitted, hfree, hact⟩ | ⟨-, hact⟩ := act_propose p e.before
    swap
    · rw [hact]
      exact ⟨d, hd, .refl d⟩
    rw [hact, DecisionLog.recorded]
    by_cases hid : decisionId = p.decisionId
    swap
    · exact ⟨d, (Dict.get?_set_of_ne hid).trans hd, .refl d⟩
    -- the entry is replaced by one of its text
    subst hid
    refine ⟨_, Dict.get?_set_self, ?_⟩
    have htext : d.text = p.text := by
      by_contra hne
      exact hfree ⟨d, hd, hdecided, hne⟩
    obtain huser | ⟨hnouser, hlow⟩ := hup p hop hadmitted d hd hdecided htext
    · exact ⟨htext.symm, ((decided_iff p _).mpr (.inl huser)).trans hdecided.symm,
        fun _ => authority_of_fromUser huser⟩
    · exact ⟨htext.symm, ((decided_iff p _).mpr (.inr hlow)).trans hdecided.symm,
        fun huser => absurd huser hnouser⟩
  · have hid : decisionId ≠ id := by
      rintro rfl
      exact hnot ⟨dependents, hop⟩
    obtain hact | ⟨d', hact⟩ := act_rescind id dependents e.before
    · rw [hact]
      exact ⟨d, hd, .refl d⟩
    · rw [hact, DecisionLog.recorded]
      exact ⟨d, (Dict.get?_set_of_ne hid).trans hd, .refl d⟩

/-- A call that keeps the decided entries upholds them. -/
theorem upholds_of_upheld (he : e = Entry.perform LogCall.act e.before e.op)
    (hkept : ∀ decisionId d, e.before.decisions.get? decisionId = some d → d.status = .decided →
      ¬Rescinds e decisionId → ∃ d', e.after.decisions.get? decisionId = some d' ∧ Upheld d d') :
    Upholds e := by
  intro p hop hadmitted d hd hdecided htext
  have hafter : e.after = (e.op.act e.before).2 := congrArg Entry.after he
  have hnot : ¬Rescinds e p.decisionId := by
    rintro ⟨dependents, hrescind⟩
    rw [hop] at hrescind
    cases hrescind
  obtain ⟨d', hd', hupheld⟩ := hkept p.decisionId d hd hdecided hnot
  obtain ⟨-, -, hact⟩ | ⟨hrefused, -⟩ := act_propose p e.before
  · rw [hafter, hop, hact, DecisionLog.recorded, Dict.get?_set_self] at hd'
    obtain rfl := Option.some.inj hd'
    obtain huser | hlow := (decided_iff p _).mp (hupheld.status.trans hdecided)
    · exact .inl huser
    · by_cases hauthority : d.authority = "user"
      · exact .inl (fromUser_of_authority (hupheld.authority hauthority))
      · exact .inr ⟨hauthority, hlow⟩
  · refine absurd ⟨hadmitted, ?_⟩ hrefused
    rintro ⟨d'', hd'', -, hne⟩
    rw [hd] at hd''
    exact hne (Option.some.inj hd'' ▸ htext)

/-- A call appends to the history of every id. -/
theorem historyOf_prefix_act (call : LogCall) (log : DecisionLog) (decisionId : String) :
    log.historyOf decisionId <+: (call.act log).2.historyOf decisionId := by
  rcases call with p | ⟨id, dependents⟩
  · obtain ⟨-, -, hact⟩ | ⟨-, hact⟩ := act_propose p log
    · rw [hact]
      exact log.historyOf_prefix_recorded _ _ _
    · rw [hact]
  · obtain hact | ⟨d, hact⟩ := act_rescind id dependents log
    · rw [hact]
    · rw [hact]
      exact log.historyOf_prefix_recorded _ _ _

/-- **The law of the decision log** holds of a history exactly where its proposals uphold what was
decided; histories grow by appending in any case. -/
theorem decisionLaw_iff (hrun : Run LogCall.act log₀ h log) :
    DecisionLaw h ↔ ∀ e ∈ h, Upholds e := by
  constructor
  · intro hlaw e he
    have hperform := hrun.eq_perform he
    refine upholds_of_upheld hperform fun decisionId d hd hdecided hnot => ?_
    obtain ⟨h₁, h₂, rfl⟩ := List.append_of_mem he
    have hspan : [e] <:+: h₁ ++ e :: h₂ := ⟨h₁, h₂, by simp⟩
    have honFrom : Run LogCall.act e.before ([] ++ e :: h₂) log := hrun.onFrom
    exact hlaw.kept [e] hspan _ _ honFrom.upTo decisionId d hd hdecided (by simpa using hnot)
  · intro hup
    refine ⟨?_, ?_⟩
    · intro span hspan log log' hspanRun decisionId d hd hdecided hnot
      -- what stands at the start of the span stands at every step of it
      refine (hspanRun.inv_entries
        (I := fun log => ∃ d', log.decisions.get? decisionId = some d' ∧ Upheld d d')
        ⟨d, hd, .refl d⟩ ?_).1
      rintro h₁ e h₂ rfl - ⟨d', hd', hupheld⟩
      have he : e ∈ h₁ ++ e :: h₂ := by simp
      obtain ⟨d'', hd'', hupheld'⟩ := upheld_of_upholds (hspanRun.eq_perform he)
        (hup e (hspan.subset he)) hd' (hupheld.status.trans hdecided) (hnot e he)
      exact ⟨d'', hd'', hupheld.trans hupheld'⟩
    · intro span hspan log log' hspanRun decisionId
      exact hspanRun.inv_state (I := fun log' => log.historyOf decisionId <+:
        log'.historyOf decisionId) (List.prefix_refl _) fun log' call hprefix =>
          hprefix.trans (historyOf_prefix_act call log' decisionId)

end

/-- A user decides on a store. -/
def userDecision : Proposal := ⟨"D1", "use sqlite", "user", "storage", "high", 1, false⟩

/-- A facilitator notes the same text. -/
def notedAgain : Proposal := ⟨"D1", "use sqlite", "facilitator", "storage", "low", 2, false⟩

/-- A decision of a user, rescinded later. -/
theorem decisionLaw_iff_rescinded :
    DecisionLaw (exec LogCall.act {} [.propose userDecision, .rescind "D1" ∅]).1 ↔
      ∀ e ∈ (exec LogCall.act {} [.propose userDecision, .rescind "D1" ∅]).1, Upholds e :=
  decisionLaw_iff (run_exec _ _ _)

/-- **A proposal of the same text takes a user's decision back.** -/
theorem not_decisionLaw : ¬∀ h log, Run LogCall.act {} h log → DecisionLaw h := by
  intro hclaim
  have hrun := run_exec LogCall.act {} [.propose userDecision, .propose notedAgain]
  have hnoted : Run LogCall.act (DecisionLog.recorded {} "D1" (userDecision.decision
      delegatedDomains)) _ _ := run_exec LogCall.act _ [.propose notedAgain]
  have hnot : ∀ e ∈ (exec LogCall.act (DecisionLog.recorded {} "D1" (userDecision.decision
      delegatedDomains)) [.propose notedAgain]).1, ¬Rescinds e "D1" := by
    intro e he
    obtain rfl := List.mem_singleton.mp he
    rintro ⟨dependents, hop⟩
    cases hop
  obtain ⟨d', hd', hupheld⟩ := (hclaim _ _ hrun).kept _ (List.suffix_cons _ _).isInfix _ _ hnoted
    "D1" (userDecision.decision delegatedDomains) rfl rfl hnot
  obtain rfl := Option.some.inj hd'
  exact absurd hupheld.status (by decide)

end Interview

end CyranoAgent
