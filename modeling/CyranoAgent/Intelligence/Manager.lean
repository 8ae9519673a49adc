import CyranoAgent.Contracts.Canonical
import CyranoAgent.Lib.Action
import CyranoAgent.Lib.Run

/-!
# Analysis sessions

`LspManager` opens sessions, each with a generation of its own, and lets a session query what it may
only read and what its server advertised. `session_spec` says what a session is after any history of
any sessions: a response is delivered by the one session that was given its generation, until it is
closed; a query is let through by an open session alone, and is never refused for its snapshot; and
the denials that a session keeps are those of its own queries, in their order.
-/

namespace CyranoAgent

open Lib Lib.Action

namespace Intelligence

/-- `READ_METHODS`. -/
def readMethods : List String :=
  ["textDocument/references", "textDocument/definition", "textDocument/hover",
    "textDocument/documentSymbol", "textDocument/completion"]

/-- `WRITE_METHODS`. -/
def writeMethods : List String :=
  ["workspace/applyEdit", "workspace/executeCommand", "textDocument/didChange",
    "textDocument/didOpen", "textDocument/didClose", "workspace/didChangeWatchedFiles"]

/-- What a method is. -/
inductive MethodKind
  | read | write | unknown
  deriving DecidableEq, Repr

/-- `classify_method`. -/
def classifyMethod (method : String) : MethodKind :=
  if method ∈ readMethods then .read
  else if method ∈ writeMethods then .write
  else .unknown

/-- `AnalysisSession`. -/
structure AnalysisSession where
  sessionId : String
  generation : ℤ
  snapshotDigest : String
  capabilities : List String
  closed : Bool := false
  deniedEvents : List String := []

/-- `LspManager`. -/
structure LspManager where
  snapshotDigest : String
  seq : ℕ := 0

/-- What a call on a session is. -/
abbrev SessionOp (α : Type) := Action AnalysisSession Failure α

namespace LspManager

/-- `open_analysis`. -/
def openAnalysis (M : LspManager) (binding : String) (capabilities : List String) :
    AnalysisSession × LspManager :=
  let seq := M.seq + 1
  ({ sessionId := binding ++ "-" ++ toString seq, generation := seq,
     snapshotDigest := M.snapshotDigest, capabilities }, { M with seq })

/-- `query`. -/
def query (reprText : String → String) (M : LspManager) (method : String)
    (params : List (String × Json)) : SessionOp (String × List (String × Json)) := do
  let session ← get
  raiseIf session.closed (.cyrano "INPUT_INVALID" "session is closed")
  if classifyMethod method ≠ .read then do
    set { session with deniedEvents := session.deniedEvents ++ ["DENIED:" ++ method] }
    throw (.cyrano "SCOPE_DENIED" ("method " ++ reprText method ++ " is not read-only"))
  else do
    raiseIf (method ∉ session.capabilities)
      (.cyrano "CAPABILITY_UNAVAILABLE" ("server did not advertise " ++ reprText method))
    raiseIf (session.snapshotDigest ≠ M.snapshotDigest)
      (.cyrano "STALE_SNAPSHOT" "source changed since the session was bound")
    return (method, params)

end LspManager

/-- `receive_response`. -/
def receiveResponse (session : AnalysisSession) (generation : ℤ) (response : Json) : Option Json :=
  if generation ≠ session.generation then none else some response

/-- `close_analysis`. -/
def closeAnalysis (session : AnalysisSession) : AnalysisSession :=
  { session with closed := true, generation := -1 }

/-! ### A manager and its sessions -/

/-- A manager and the sessions that it opened, in the order of their opening. -/
structure Analyses where
  manager : LspManager
  sessions : List AnalysisSession := []

/-- A call. A session is named by the number of its opening. -/
inductive AnalysisCall
  | openAnalysis (binding : String) (capabilities : List String)
  | query (i : ℕ) (method : String) (params : List (String × Json))
  | receiveResponse (i : ℕ) (generation : ℤ) (response : Json)
  | closeAnalysis (i : ℕ)

/-- What a call returns. -/
inductive AnalysisReply
  | opened (session : AnalysisSession)
  | answered (answer : Except Failure (String × List (String × Json)))
  | received (response : Option Json)
  | closed

/-- Performing a call; without its session there is none. -/
def AnalysisCall.act (reprText : String → String) (call : AnalysisCall) (A : Analyses) :
    Option AnalysisReply × Analyses :=
  match call with
  | .openAnalysis binding capabilities =>
    let (session, manager) := A.manager.openAnalysis binding capabilities
    (some (.opened session), ⟨manager, A.sessions ++ [session]⟩)
  | .query i method params =>
    match A.sessions[i]? with
    | none => (none, A)
    | some session =>
      let (answer, session) := (A.manager.query reprText method params).run session
      (some (.answered answer), { A with sessions := A.sessions.set i session })
  | .receiveResponse i generation response =>
    (A.sessions[i]?.map fun session =>
      .received (Intelligence.receiveResponse session generation response), A)
  | .closeAnalysis i =>
    match A.sessions[i]? with
    | none => (none, A)
    | some session =>
      (some .closed, { A with sessions := A.sessions.set i (Intelligence.closeAnalysis session) })

/-- An entry of a history of sessions. -/
abbrev AnalysisEntry := Entry Analyses AnalysisCall (Option AnalysisReply)

/-- The entry closed a session. -/
def Closed (i : ℕ) (e : AnalysisEntry) : Prop := e.op = .closeAnalysis i ∧ e.reply = some .closed

/-- The event of a query of a session that was denied. -/
def denied? (i : ℕ) (e : AnalysisEntry) : Option String :=
  match e.op, e.reply with
  | .query j method _, some (.answered (.error (.cyrano "SCOPE_DENIED" _))) =>
    if j = i then some ("DENIED:" ++ method) else none
  | _, _ => none

/-! ### Single calls -/

section

variable {reprText : String → String} {A : Analyses} {M : LspManager} {session : AnalysisSession}
  {method : String} {h : List AnalysisEntry} {i : ℕ}

theorem classifyMethod_eq_read : classifyMethod method = .read ↔ method ∈ readMethods := by
  unfold classifyMethod
  split_ifs with hread hwrite <;> simp [hread]

/-- What a query of a session does. -/
inductive Queried (reprText : String → String) (M : LspManager) (session : AnalysisSession)
    (method : String) (params : List (String × Json)) :
    Except Failure (String × List (String × Json)) → AnalysisSession → Prop
  | closed : session.closed = true →
      Queried reprText M session method params
        (.error (.cyrano "INPUT_INVALID" "session is closed")) session
  | denied : session.closed = false → method ∉ readMethods →
      Queried reprText M session method params
        (.error (.cyrano "SCOPE_DENIED" ("method " ++ reprText method ++ " is not read-only")))
        { session with deniedEvents := session.deniedEvents ++ ["DENIED:" ++ method] }
  | unavailable : session.closed = false → method ∈ readMethods → method ∉ session.capabilities →
      Queried reprText M session method params
        (.error (.cyrano "CAPABILITY_UNAVAILABLE" ("server did not advertise " ++ reprText method)))
        session
  | stale : session.closed = false → method ∈ readMethods → method ∈ session.capabilities →
      session.snapshotDigest ≠ M.snapshotDigest →
      Queried reprText M session method params
        (.error (.cyrano "STALE_SNAPSHOT" "source changed since the session was bound")) session
  | answered : session.closed = false → method ∈ readMethods → method ∈ session.capabilities →
      session.snapshotDigest = M.snapshotDigest →
      Queried reprText M session method params (.ok (method, params)) session

/-- **A query does one of these.** -/
theorem queried (reprText : String → String) (M : LspManager) (session : AnalysisSession)
    (method : String) (params : List (String × Json)) :
    Queried reprText M session method params ((M.query reprText method params).run session).1
      ((M.query reprText method params).run session).2 := by
  rw [LspManager.query, run_bind_ok (run_get session), run_raiseIf_bind]
  by_cases hclosed : session.closed = true
  · rw [if_pos hclosed]
    exact .closed hclosed
  rw [if_neg hclosed]
  rw [Bool.not_eq_true] at hclosed
  by_cases hread : method ∈ readMethods
  · rw [if_neg (not_not.mpr (classifyMethod_eq_read.mpr hread)), run_raiseIf_bind]
    by_cases hcapable : method ∈ session.capabilities
    · rw [if_neg (not_not.mpr hcapable), run_raiseIf_bind]
      by_cases hsnapshot : session.snapshotDigest = M.snapshotDigest
      · rw [if_neg (not_not.mpr hsnapshot)]
        exact .answered hclosed hread hcapable hsnapshot
      · rw [if_pos hsnapshot]
        exact .stale hclosed hread hcapable hsnapshot
    · rw [if_pos hcapable]
      exact .unavailable hclosed hread hcapable
  · rw [if_pos (classifyMethod_eq_read.not.mpr hread)]
    exact .denied hclosed hread

/-! ### Histories -/

/-- The entry is about no session but `i`, of those that are closed or denied something. -/
def Quiet (i : ℕ) (e : AnalysisEntry) : Prop := ¬Closed i e ∧ denied? i e = none

/-- What a session is after a history. -/
structure SessionOf (snapshot : String) (h : List AnalysisEntry) (i : ℕ)
    (session : AnalysisSession) : Prop where
  closed : session.closed = true ↔ ∃ e ∈ h, Closed i e
  generation : session.generation = if session.closed then -1 else (i : ℤ) + 1
  snapshotDigest : session.snapshotDigest = snapshot
  denied : session.deniedEvents = h.filterMap (denied? i)

/-- What a manager and its sessions are after a history. -/
structure Managed (snapshot : String) (h : List AnalysisEntry) (A : Analyses) : Prop where
  seq : A.manager.seq = A.sessions.length
  snapshotDigest : A.manager.snapshotDigest = snapshot
  sessions : ∀ i session, A.sessions[i]? = some session → SessionOf snapshot h i session
  unopened : ∀ i, A.sessions.length ≤ i → ∀ e ∈ h, Quiet i e

variable {snapshot : String} {e : AnalysisEntry} {session' : AnalysisSession}

theorem SessionOf.quiet (hsession : SessionOf snapshot h i session) (hquiet : Quiet i e) :
    SessionOf snapshot (h ++ [e]) i session where
  closed := by simpa [or_and_right, exists_or, hquiet.1] using hsession.closed
  generation := hsession.generation
  snapshotDigest := hsession.snapshotDigest
  denied := by simpa [hquiet.2] using hsession.denied

/-- A denial is noted. -/
theorem SessionOf.deny (hsession : SessionOf snapshot h i session) {event : String}
    (hclosed : ¬Closed i e) (hdenied : denied? i e = some event) :
    SessionOf snapshot (h ++ [e]) i
      { session with deniedEvents := session.deniedEvents ++ [event] } where
  closed := by simpa [or_and_right, exists_or, hclosed] using hsession.closed
  generation := hsession.generation
  snapshotDigest := hsession.snapshotDigest
  denied := by simp [hdenied, hsession.denied]

theorem SessionOf.close (hsession : SessionOf snapshot h i session) (hclosed : Closed i e)
    (hdenied : denied? i e = none) :
    SessionOf snapshot (h ++ [e]) i (closeAnalysis session) where
  closed := iff_of_true rfl ⟨e, List.mem_concat_self, hclosed⟩
  generation := rfl
  snapshotDigest := hsession.snapshotDigest
  denied := by
    rw [List.filterMap_append, List.filterMap_cons_none hdenied, List.filterMap_nil,
      List.append_nil]
    exact hsession.denied

/-- An entry that is quiet everywhere. -/
theorem Managed.quiet (hA : Managed snapshot h A) (hquiet : ∀ i, Quiet i e) :
    Managed snapshot (h ++ [e]) A where
  seq := hA.seq
  snapshotDigest := hA.snapshotDigest
  sessions i session hi := (hA.sessions i session hi).quiet (hquiet i)
  unopened i hi e' he' := by
    rcases List.mem_append.mp he' with he' | he'
    · exact hA.unopened i hi e' he'
    · rw [List.mem_singleton.mp he']
      exact hquiet i

/-- One session changes. -/
theorem Managed.set (hA : Managed snapshot h A) (hi : i < A.sessions.length)
    (hsession : SessionOf snapshot (h ++ [e]) i session')
    (hquiet : ∀ j, j ≠ i → Quiet j e) :
    Managed snapshot (h ++ [e]) { A with sessions := A.sessions.set i session' } where
  seq := by rw [List.length_set]; exact hA.seq
  snapshotDigest := hA.snapshotDigest
  sessions j session hj := by
    rw [List.getElem?_set] at hj
    by_cases hij : i = j
    · obtain rfl := hij
      rw [if_pos rfl, if_pos hi] at hj
      rw [← Option.some.inj hj]
      exact hsession
    · rw [if_neg hij] at hj
      exact (hA.sessions j session hj).quiet (hquiet j (Ne.symm hij))
  unopened j hj e' he' := by
    rw [List.length_set] at hj
    rcases List.mem_append.mp he' with he' | he'
    · exact hA.unopened j hj e' he'
    · rw [List.mem_singleton.mp he']
      exact hquiet j (by omega)

/-- **A session is opened**, the next one. -/
theorem Managed.opened (hA : Managed snapshot h A) (hquiet : ∀ i, Quiet i e)
    (binding : String) (capabilities : List String) :
    Managed snapshot (h ++ [e]) ⟨(A.manager.openAnalysis binding capabilities).2,
      A.sessions ++ [(A.manager.openAnalysis binding capabilities).1]⟩ where
  seq := by simp [LspManager.openAnalysis, hA.seq]
  snapshotDigest := hA.snapshotDigest
  sessions i session hi := by
    rcases lt_trichotomy i A.sessions.length with hlt | rfl | hgt
    · rw [List.getElem?_append_left hlt] at hi
      exact (hA.sessions i session hi).quiet (hquiet i)
    · rw [List.getElem?_concat_length] at hi
      obtain rfl := Option.some.inj hi
      have hnone := hA.unopened A.sessions.length le_rfl
      have hfresh : SessionOf snapshot h A.sessions.length
          (A.manager.openAnalysis binding capabilities).1 := by
        refine ⟨iff_of_false Bool.false_ne_true ?_, ?_, hA.snapshotDigest, ?_⟩
        · rintro ⟨e', he', hclosed⟩
          exact (hnone e' he').1 hclosed
        · simp [LspManager.openAnalysis, hA.seq]
        · exact (List.filterMap_eq_nil_iff.mpr fun e' he' => (hnone e' he').2).symm
      exact hfresh.quiet (hquiet _)
    · rw [List.getElem?_eq_none (by simp; omega)] at hi
      cases hi
  unopened i hi e' he' := by
    rcases List.mem_append.mp he' with he' | he'
    · exact hA.unopened i (by simp at hi; omega) e' he'
    · rw [List.mem_singleton.mp he']
      exact hquiet i

/-- **What a manager and its sessions are after any history.** -/
theorem managed (hr : Run (AnalysisCall.act reprText) ⟨⟨snapshot, 0⟩, []⟩ h A) :
    Managed snapshot h A := by
  refine hr.inv (I := Managed snapshot) ⟨rfl, rfl, by simp, by simp⟩
    fun h A call _ hA => ?_
  cases call with
  | openAnalysis binding capabilities =>
    exact hA.opened (fun i => ⟨fun hclosed => (by cases hclosed.1), rfl⟩) binding capabilities
  | query i method params =>
    rcases hi : A.sessions[i]? with _ | session
    · have hact : AnalysisCall.act reprText (.query i method params) A = (none, A) := by
        simp only [AnalysisCall.act, hi]
      rw [Entry.perform, hact]
      exact hA.quiet fun j => ⟨fun hclosed => (by cases hclosed.1), rfl⟩
    · have hlength : i < A.sessions.length := (List.getElem?_eq_some_iff.mp hi).1
      have hsession := hA.sessions i session hi
      have hact : AnalysisCall.act reprText (.query i method params) A =
          (some (.answered ((A.manager.query reprText method params).run session).1),
            { A with sessions :=
              A.sessions.set i ((A.manager.query reprText method params).run session).2 }) := by
        simp only [AnalysisCall.act, hi]
      rw [Entry.perform, hact]
      have hclosed (j : ℕ) (reply : Option AnalysisReply) (A' : Analyses) :
          ¬Closed j ⟨A, .query i method params, reply, A'⟩ := fun hclosed => by cases hclosed.1
      have hq := queried reprText A.manager session method params
      generalize (A.manager.query reprText method params).run session = answer at hq ⊢
      obtain ⟨answer, session'⟩ := answer
      dsimp only at hq ⊢
      have hkept {reply : Except Failure (String × List (String × Json))}
          (hreply : ∀ j A',
            denied? j ⟨A, .query i method params, some (.answered reply), A'⟩ = none) :
          Managed snapshot (h ++ [⟨A, .query i method params, some (.answered reply),
            { A with sessions := A.sessions.set i session }⟩])
            { A with sessions := A.sessions.set i session } :=
        hA.set hlength (hsession.quiet ⟨hclosed _ _ _, hreply _ _⟩) fun j _ =>
          ⟨hclosed _ _ _, hreply _ _⟩
      cases hq with
      | closed => exact hkept fun _ _ => rfl
      | denied =>
        refine hA.set hlength (hsession.deny (hclosed _ _ _) (if_pos rfl)) fun j hj => ?_
        exact ⟨hclosed _ _ _, if_neg (Ne.symm hj)⟩
      | unavailable => exact hkept fun _ _ => rfl
      | stale => exact hkept fun _ _ => rfl
      | answered => exact hkept fun _ _ => rfl
  | receiveResponse i generation response =>
    exact hA.quiet fun j => ⟨fun hclosed => (by cases hclosed.1), rfl⟩
  | closeAnalysis i =>
    rcases hi : A.sessions[i]? with _ | session
    · have hact : AnalysisCall.act reprText (.closeAnalysis i) A = (none, A) := by
        simp only [AnalysisCall.act, hi]
      rw [Entry.perform, hact]
      exact hA.quiet fun j => ⟨fun hclosed => (by cases hclosed.2), rfl⟩
    · have hlength : i < A.sessions.length := (List.getElem?_eq_some_iff.mp hi).1
      have hact : AnalysisCall.act reprText (.closeAnalysis i) A =
          (some .closed, { A with sessions := A.sessions.set i (closeAnalysis session) }) := by
        simp only [AnalysisCall.act, hi]
      rw [Entry.perform, hact]
      refine hA.set hlength ((hA.sessions i session hi).close ⟨rfl, rfl⟩ rfl) fun j hj => ⟨?_, rfl⟩
      rintro ⟨hop, -⟩
      cases hop
      exact hj rfl

/-- **What a session is after any history** of the sessions of one manager. A response of a
generation that was given out is delivered by the session that got it, as long as nothing closed it,
and by no other. A query is answered by a session that is open, whose server advertised the method,
when the method only reads; no session of a manager is ever found stale. Its denials are those of
its own queries. -/
theorem session_spec (hr : Run (AnalysisCall.act reprText) ⟨⟨snapshot, 0⟩, []⟩ h A)
    (hi : A.sessions[i]? = some session) :
    (∀ (generation : ℤ) (response : Json), 0 ≤ generation →
        (receiveResponse session generation response = some response ↔
          (∀ e ∈ h, ¬Closed i e) ∧ generation = i + 1)) ∧
      (∀ (method : String) (params : List (String × Json)),
        (((A.manager.query reprText method params).run session).1 = .ok (method, params) ↔
          (∀ e ∈ h, ¬Closed i e) ∧ method ∈ readMethods ∧ method ∈ session.capabilities) ∧
        ((A.manager.query reprText method params).run session).1 ≠
          .error (.cyrano "STALE_SNAPSHOT" "source changed since the session was bound")) ∧
      session.deniedEvents = h.filterMap (denied? i) := by
  have hA := managed hr
  obtain ⟨hclosed, hgeneration, hsnapshot, hdenied⟩ := hA.sessions i session hi
  have hopen : (∀ e ∈ h, ¬Closed i e) ↔ session.closed = false := by
    rw [← Bool.not_eq_true, hclosed]
    simp
  refine ⟨fun generation response hpos => ?_, fun method params => ?_, hdenied⟩
  · rw [hopen, receiveResponse, hgeneration]
    cases session.closed with
    | true =>
      have hne : generation ≠ -1 := by omega
      simp [hne]
    | false => simp
  · rw [hopen]
    have hq := queried reprText A.manager session method params
    generalize (A.manager.query reprText method params).run session = answer at hq ⊢
    obtain ⟨answer, session'⟩ := answer
    dsimp only at hq ⊢
    cases hq with
    | closed hclosed => simp [hclosed]
    | denied hclosed hread => simp [hread]
    | unavailable hclosed hread hcapable => simp [hcapable]
    | stale hclosed hread hcapable hstale =>
      exact absurd (hsnapshot.trans hA.snapshotDigest.symm) hstale
    | answered hclosed hread hcapable hsame => simp [hclosed, hread, hcapable]

/-- Two sessions, the first of which is denied a write and closed. -/
def twoSessions : List AnalysisCall :=
  [.openAnalysis "a" ["textDocument/hover"], .openAnalysis "b" ["textDocument/hover"],
    .query 0 "workspace/applyEdit" [], .closeAnalysis 0]

/-- The second session is open. -/
theorem session_spec_second :
    let run := exec (AnalysisCall.act id) ⟨⟨"d0", 0⟩, []⟩ twoSessions
    let session : AnalysisSession := ⟨"b-2", 2, "d0", ["textDocument/hover"], false, []⟩
    (∀ (generation : ℤ) (response : Json), 0 ≤ generation →
        (receiveResponse session generation response = some response ↔
          (∀ e ∈ run.1, ¬Closed 1 e) ∧ generation = (1 : ℕ) + 1)) ∧
      (∀ (method : String) (params : List (String × Json)),
        (((run.2.manager.query id method params).run session).1 = .ok (method, params) ↔
          (∀ e ∈ run.1, ¬Closed 1 e) ∧ method ∈ readMethods ∧ method ∈ session.capabilities) ∧
        ((run.2.manager.query id method params).run session).1 ≠
          .error (.cyrano "STALE_SNAPSHOT" "source changed since the session was bound")) ∧
      session.deniedEvents = run.1.filterMap (denied? 1) :=
  session_spec (run_exec _ _ _) rfl

end

end Intelligence

end CyranoAgent
