import CyranoAgent.Monitor.Projection

/-!
# Orders of events

What a projection holds of a set of events does not depend on the order in which it takes them in,
nor on repetitions (`Holds`), and a tally of records depends on their order only in the attempt that
it keeps of several equal ones (`Tallied`). So the timeline is the same for every order, and so is
the summary, where there is one (`sameView`): where it raises for one order it does for every other,
but perhaps with another error (`not_sameSummary_malformed`).
-/

namespace CyranoAgent

open Lib

namespace Monitor

variable {F : Type} {N : Floats F}

/-! ### Payloads -/

theorem Value.rebuildMembers_eq_map {G : Type} (leaf : Value F → Value G) (members : Members F) :
    Value.rebuildMembers leaf members = members.map fun m => (m.1, m.2.rebuild leaf) := by
  induction members with
  | nil => rfl
  | cons member members ih =>
    obtain ⟨key, v⟩ := member
    rw [Value.rebuildMembers, ih, List.map_cons]

/-- Equal payloads have equal values under each name. -/
theorem get?_of_payloadKey {p q : Dict String (Value F)} (h : payloadKey N p = payloadKey N q)
    (name : String) : (p.get? name).map (Value.key N) = (q.get? name).map (Value.key N) := by
  rw [← Dict.get?_map, ← Dict.get?_map]
  refine Dict.perm_iff.mp ?_ name
  simp only [payloadKey, Value.key, Value.rebuild, Value.rebuildMembers_eq_map,
    Value.obj.injEq] at h
  have hp := List.perm_insertionSort (fun a b : String × Value ℚ => a.1 ≤ b.1)
    (p.entries.map fun m => (m.1, m.2.rebuild (Value.number N)))
  rw [h] at hp
  exact hp.symm.trans (List.perm_insertionSort _ _)

theorem get?_of_isBool {p : Dict String (Value F)} {name : String}
    (h : (get p name).isBool = true) : ∃ b, p.get? name = some (.bool b) := by
  rcases hget : p.get? name with _ | v
  · simp [get, hget, Value.isBool] at h
  · have hv : v.isBool = true := by simpa [get, hget] using h
    cases v <;> simp [Value.isBool] at hv ⊢

/-- Equal attempts are both retries, or neither. -/
theorem isTrue_of_payloadKey {p q : Dict String (Value F)} (h : payloadKey N p = payloadKey N q)
    (hp : (get p "is_retry").isBool = true) (hq : (get q "is_retry").isBool = true) :
    (get p "is_retry").isTrue = (get q "is_retry").isTrue := by
  obtain ⟨b, hb⟩ := get?_of_isBool hp
  obtain ⟨c, hc⟩ := get?_of_isBool hq
  have hkey := get?_of_payloadKey h "is_retry"
  rw [hb, hc] at hkey
  simp only [get, hb, hc, Option.getD_some, Value.isTrue]
  cases b <;> cases c <;> simp [Value.key, Value.rebuild, Value.number] at hkey ⊢

/-! ### What a record adds -/

/-- What a record adds to a tally: the keys of its attempt, whether it is a failure, and the members
of the sets. -/
structure Reading where
  attempt : Option (Value ℚ × Value ℚ)
  failed : Bool
  applications : Finset (Value ℚ)
  candidates : Finset (Value ℚ)
  releases : Finset (Value ℚ)

/-- The keys of the attempt of a record. -/
def Row.attemptKeys (N : Floats F) (row : Row F) : Except Failure (Option (Value ℚ × Value ℚ)) :=
  if row.eventType = "model.attempt_started" then do
    rejectIf (¬(get row.payload "attempt_id").truth N ∨
      ¬(get row.payload "logical_request_id").truth N ∨ ¬(get row.payload "is_retry").isBool)
      (projectionError "INVALID_ATTEMPT")
    let key ← (get row.payload "attempt_id").hashed N
    let logicalKey ← (get row.payload "logical_request_id").hashed N
    return some (key, logicalKey)
  else .ok none

/-- What a record adds, whatever there is. -/
def Row.reading (N : Floats F) (row : Row F) : Except Failure Reading := do
  let attempt ← row.attemptKeys N
  let failed ← row.failed N
  let applications ← row.added "memory.applied" (applied N row.payload)
  let candidates ← row.added "learning.proposed" (demanded N row.payload "candidate_id")
  let releases ← row.added "release.promoted" (demanded N row.payload "release_digest")
  return ⟨attempt, failed, applications, candidates, releases⟩

/-- An attempt of a record that is bound as in a tally. -/
def Tally.Binds (N : Floats F) (t : Tally F) (row : Row F) (attempt : Option (Value ℚ × Value ℚ)) :
    Prop :=
  ∀ a ∈ attempt, ∀ old ∈ t.calls.get? a.1, payloadKey N old = payloadKey N row.payload

/-- A tally with what a record adds. -/
def Tally.record (t : Tally F) (row : Row F) (r : Reading) : Tally F where
  calls := r.attempt.elim t.calls fun a => t.calls.set a.1 row.payload
  logical := r.attempt.elim t.logical fun a => insert a.2 t.logical
  failures := t.failures ++ if r.failed then [row] else []
  memoryApplied := t.memoryApplied ∪ r.applications
  candidates := t.candidates ∪ r.candidates
  promoted := t.promoted ∪ r.releases

variable {t t' : Tally F} {row : Row F}

theorem Tally.attempt_eq_ok : t.attempt N row = .ok t' ↔
    ∃ attempt, row.attemptKeys N = .ok attempt ∧ t.Binds N row attempt ∧
      t' = { t with
        calls := attempt.elim t.calls fun a => t.calls.set a.1 row.payload
        logical := attempt.elim t.logical fun a => insert a.2 t.logical } := by
  rw [Tally.attempt, Row.attemptKeys]
  split_ifs with hkind
  · simp only [except_bind_eq_ok, rejectIf_eq_ok]
    constructor
    · rintro ⟨_, hvalid, key, hkey, _, hbound, logicalKey, hlogical, h⟩
      refine ⟨some (key, logicalKey), ⟨(), hvalid, key, hkey, logicalKey, hlogical, rfl⟩, ?_,
        (Except.ok.inj h).symm⟩
      intro a ha old hold
      obtain rfl := Option.some.inj ha
      exact not_not.mp fun hne => hbound ⟨old, hold, hne⟩
    · rintro ⟨_, ⟨_, hvalid, key, hkey, logicalKey, hlogical, h⟩, hbinds, rfl⟩
      obtain rfl := Except.ok.inj h
      refine ⟨(), hvalid, key, hkey, (), ?_, logicalKey, hlogical, rfl⟩
      rintro ⟨old, hold, hne⟩
      exact hne (hbinds _ rfl old hold)
  · constructor
    · intro h
      obtain rfl := Except.ok.inj h
      exact ⟨none, rfl, fun _ h => absurd h (Option.not_mem_none _), rfl⟩
    · rintro ⟨_, h, -, rfl⟩
      obtain rfl := Except.ok.inj h
      rfl

/-- **A record is tallied** when it can be read and its attempt is bound as before. -/
theorem Tally.step_eq_ok : t.step N row = .ok t' ↔
    ∃ r, row.reading N = .ok r ∧ t.Binds N row r.attempt ∧ t' = t.record row r := by
  simp only [Tally.step, Row.reading, except_bind_eq_ok, Tally.attempt_eq_ok]
  constructor
  · rintro ⟨_, ⟨attempt, hattempt, hbinds, rfl⟩, failed, hfailed, applications, happlications,
      candidates, hcandidates, releases, hreleases, h⟩
    exact ⟨⟨attempt, failed, applications, candidates, releases⟩,
      ⟨attempt, hattempt, failed, hfailed, applications, happlications, candidates, hcandidates,
        releases, hreleases, rfl⟩,
      hbinds, (Except.ok.inj h).symm⟩
  · rintro ⟨_, ⟨attempt, hattempt, failed, hfailed, applications, happlications, candidates,
      hcandidates, releases, hreleases, h⟩, hbinds, rfl⟩
    obtain rfl := Except.ok.inj h
    exact ⟨_, ⟨attempt, hattempt, hbinds, rfl⟩, failed, hfailed, applications, happlications,
      candidates, hcandidates, releases, hreleases, rfl⟩

/-! ### A tally of records -/

/-- A record with an attempt under a key. -/
def Row.Attempts (N : Floats F) (row : Row F) (key : Value ℚ) : Prop :=
  ∃ logicalKey, row.attemptKeys N = .ok (some (key, logicalKey))

/-- The key of the request that a record is an attempt of. -/
def Reading.logical (r : Reading) : Finset (Value ℚ) :=
  r.attempt.elim ∅ fun a => {a.2}

/-- A set holds what records add to it. -/
def Gathers (N : Floats F) (rows : List (Row F)) (members : Reading → Finset (Value ℚ))
    (set : Finset (Value ℚ)) : Prop :=
  ∀ key, key ∈ set ↔ ∃ row ∈ rows, ∃ r, row.reading N = .ok r ∧ key ∈ members r

/-- What a tally holds of records. -/
structure Tallied (N : Floats F) (rows : List (Row F)) (t : Tally F) : Prop where
  reads : ∀ row ∈ rows, ∃ r, row.reading N = .ok r
  call : ∀ key, ∀ payload ∈ t.calls.get? key, ∃ row ∈ rows, row.Attempts N key ∧
    row.payload = payload
  bound : ∀ row ∈ rows, ∀ key, row.Attempts N key → ∃ payload ∈ t.calls.get? key,
    payloadKey N payload = payloadKey N row.payload
  failures : t.failures = rows.filter fun row => row.failed N = .ok true
  logical : Gathers N rows Reading.logical t.logical
  applied : Gathers N rows Reading.applications t.memoryApplied
  candidates : Gathers N rows Reading.candidates t.candidates
  promoted : Gathers N rows Reading.releases t.promoted

variable {rows rows' : List (Row F)} {r : Reading} {members : Reading → Finset (Value ℚ)}
  {set set' : Finset (Value ℚ)}

theorem Row.reading_spec (h : row.reading N = .ok r) :
    row.attemptKeys N = .ok r.attempt ∧ row.failed N = .ok r.failed := by
  simp only [Row.reading, except_bind_eq_ok] at h
  obtain ⟨attempt, hattempt, failed, hfailed, _, -, _, -, _, -, h⟩ := h
  obtain rfl := Except.ok.inj h
  exact ⟨hattempt, hfailed⟩

theorem Gathers.concat (h : Gathers N rows members set) (hr : row.reading N = .ok r) :
    Gathers N (rows ++ [row]) members (set ∪ members r) := by
  intro key
  rw [Finset.mem_union, h key]
  simp only [List.mem_append, List.mem_singleton, or_and_right, exists_or, exists_eq_left]
  refine or_congr_right ⟨fun hkey => ⟨r, hr, hkey⟩, ?_⟩
  rintro ⟨r', hr', hkey⟩
  rwa [Except.ok.inj (hr.symm.trans hr')]

/-- Records in another order gather the same. -/
theorem Gathers.unique (h : Gathers N rows members set) (h' : Gathers N rows' members set')
    (hmem : ∀ row, row ∈ rows ↔ row ∈ rows') : set = set' := by
  ext key
  rw [h key, h' key]
  simp only [hmem]

/-- **What one record adds.** -/
theorem Tallied.record (h : Tallied N rows t) (hr : row.reading N = .ok r)
    (hbinds : t.Binds N row r.attempt) : Tallied N (rows ++ [row]) (t.record row r) := by
  obtain ⟨hattempt, hfailed⟩ := row.reading_spec hr
  have hkeys : ∀ key, row.Attempts N key ↔ ∃ a ∈ r.attempt, a.1 = key := by
    intro key
    simp only [Row.Attempts, hattempt, Except.ok.injEq]
    exact ⟨fun ⟨logicalKey, heq⟩ => ⟨(key, logicalKey), heq, rfl⟩,
      fun ⟨a, ha, heq⟩ => ⟨a.2, heq ▸ ha⟩⟩
  have hlogical : (t.record row r).logical = t.logical ∪ r.logical := by
    rw [Tally.record, Reading.logical]
    cases r.attempt with
    | none => exact (Finset.union_empty _).symm
    | some a => exact (Finset.insert_eq _ _).trans (Finset.union_comm _ _)
  have hcalls : ∀ key, (t.record row r).calls.get? key =
      if ∃ a ∈ r.attempt, a.1 = key then some row.payload else t.calls.get? key := by
    intro key
    rw [Tally.record]
    cases r.attempt with
    | none => simp
    | some a => simp [Dict.get?_set, eq_comm]
  refine ⟨?_, fun key payload hpayload => ?_, fun row' hrow' key hattempts => ?_, ?_, ?_,
    h.applied.concat hr, h.candidates.concat hr, h.promoted.concat hr⟩
  · rw [List.forall_mem_append, List.forall_mem_singleton]
    exact ⟨h.reads, r, hr⟩
  · rw [hcalls] at hpayload
    split_ifs at hpayload with hkey
    · obtain rfl := Option.some.inj hpayload
      exact ⟨row, List.mem_concat_self, (hkeys key).mpr hkey, rfl⟩
    · obtain ⟨row', hrow', hattempts, hrow⟩ := h.call key payload hpayload
      exact ⟨row', List.mem_append_left _ hrow', hattempts, hrow⟩
  · rw [hcalls]
    obtain hrow' | hrow' := List.mem_append.mp hrow'
    · obtain ⟨payload, hpayload, hsame⟩ := h.bound row' hrow' key hattempts
      split_ifs with hkey
      · obtain ⟨a, ha, rfl⟩ := hkey
        exact ⟨row.payload, rfl, (hbinds a ha payload hpayload).symm.trans hsame⟩
      · exact ⟨payload, hpayload, hsame⟩
    · obtain rfl := List.mem_singleton.mp hrow'
      rw [if_pos ((hkeys key).mp hattempts)]
      exact ⟨row'.payload, rfl, rfl⟩
  · rw [Tally.record, h.failures, List.filter_append]
    cases hfail : r.failed <;> simp [hfailed, hfail]
  · rw [hlogical]
    exact h.logical.concat hr

/-- Attempts under one key are equal. -/
def Consistent (N : Floats F) (rows : List (Row F)) : Prop :=
  ∀ row ∈ rows, ∀ row' ∈ rows, ∀ key, row.Attempts N key → row'.Attempts N key →
    payloadKey N row.payload = payloadKey N row'.payload

theorem Tallied.consistent (h : Tallied N rows t) : Consistent N rows := by
  intro row hrow row' hrow' key hattempts hattempts'
  obtain ⟨payload, hpayload, hsame⟩ := h.bound row hrow key hattempts
  obtain ⟨payload', hpayload', hsame'⟩ := h.bound row' hrow' key hattempts'
  obtain rfl := Option.some.inj (hpayload.symm.trans hpayload')
  exact hsame.symm.trans hsame'

/-- **What is tallied of records**, if anything. -/
theorem tallied_of_foldlM (h : rows.foldlM (Tally.step N) {} = .ok t) : Tallied N rows t := by
  induction rows using List.reverseRecOn generalizing t with
  | nil =>
    obtain rfl := Except.ok.inj h
    exact ⟨by simp, by simp, by simp, rfl, by simp [Gathers], by simp [Gathers], by simp [Gathers],
      by simp [Gathers]⟩
  | append_singleton rows row ih =>
    rw [List.foldlM_append, except_bind_eq_ok] at h
    obtain ⟨t', ht', h⟩ := h
    rw [List.foldlM_cons, except_bind_eq_ok] at h
    obtain ⟨t'', hstep, h⟩ := h
    obtain rfl := Except.ok.inj h
    obtain ⟨r, hr, hbinds, rfl⟩ := Tally.step_eq_ok.mp hstep
    exact (ih ht').record hr hbinds

/-- **Records are tallied** when each can be read and their attempts agree. -/
theorem exists_foldlM_iff : (∃ t, rows.foldlM (Tally.step N) {} = .ok t) ↔
    (∀ row ∈ rows, ∃ r, row.reading N = .ok r) ∧ Consistent N rows := by
  constructor
  · rintro ⟨t, h⟩
    have htallied := tallied_of_foldlM h
    exact ⟨htallied.reads, htallied.consistent⟩
  · rintro ⟨hreads, hconsistent⟩
    induction rows using List.reverseRecOn with
    | nil => exact ⟨{}, rfl⟩
    | append_singleton rows row ih =>
      rw [List.forall_mem_append, List.forall_mem_singleton] at hreads
      obtain ⟨hreads, r, hr⟩ := hreads
      obtain ⟨t, ht⟩ := ih hreads fun row hrow row' hrow' =>
        hconsistent row (List.mem_append_left _ hrow) row' (List.mem_append_left _ hrow')
      have hattempt := (row.reading_spec hr).1
      have hbinds : t.Binds N row r.attempt := by
        rintro ⟨key, logicalKey⟩ ha old hold
        obtain ⟨row', hrow', hattempts, rfl⟩ := (tallied_of_foldlM ht).call key old hold
        exact hconsistent row' (List.mem_append_left _ hrow') row List.mem_concat_self key hattempts
          ⟨logicalKey, hattempt.trans (congrArg Except.ok ha)⟩
      refine ⟨t.record row r, ?_⟩
      rw [List.foldlM_append, except_bind_eq_ok]
      refine ⟨t, ht, ?_⟩
      rw [List.foldlM_cons, except_bind_eq_ok]
      exact ⟨_, Tally.step_eq_ok.mpr ⟨r, hr, hbinds, rfl⟩, rfl⟩

/-! ### Records in another order -/

/-- An attempt says whether it is a retry. -/
theorem Row.Attempts.isBool {key : Value ℚ} (h : row.Attempts N key) :
    (get row.payload "is_retry").isBool = true := by
  obtain ⟨logicalKey, h⟩ := h
  rw [Row.attemptKeys] at h
  split_ifs at h
  · obtain ⟨_, hvalid, -⟩ := except_bind_eq_ok.mp h
    rw [rejectIf_eq_ok, not_or, not_or, not_not, not_not, not_not] at hvalid
    exact hvalid.2.2
  · cases h

/-- An attempt that one tally holds, the other one holds too, as a retry or not. -/
theorem Tallied.exists_call (h : Tallied N rows t) (h' : Tallied N rows' t')
    (hmem : ∀ row, row ∈ rows ↔ row ∈ rows') {key : Value ℚ} {p : Dict String (Value F)}
    (hp : t.calls.get? key = some p) : ∃ p', t'.calls.get? key = some p' ∧
      (get p' "is_retry").isTrue = (get p "is_retry").isTrue := by
  obtain ⟨row, hrow, hattempts, rfl⟩ := h.call key p hp
  obtain ⟨p', hp', hsame⟩ := h'.bound row ((hmem row).mp hrow) key hattempts
  obtain ⟨row', -, hattempts', rfl⟩ := h'.call key p' hp'
  exact ⟨row'.payload, hp', isTrue_of_payloadKey hsame hattempts'.isBool hattempts.isBool⟩

/-- **The counts of attempts and retries.** -/
theorem Tallied.counts (h : Tallied N rows t) (h' : Tallied N rows' t')
    (hmem : ∀ row, row ∈ rows ↔ row ∈ rows') :
    t.calls.entries.length = t'.calls.entries.length ∧
      (t.calls.values.countP fun payload => (get payload "is_retry").isTrue) =
        t'.calls.values.countP fun payload => (get payload "is_retry").isTrue := by
  have hperm : (t.calls.map fun payload => (get payload "is_retry").isTrue).entries.Perm
      (t'.calls.map fun payload => (get payload "is_retry").isTrue).entries := by
    rw [Dict.perm_iff]
    refine fun key => Option.ext fun b => ?_
    rw [Dict.get?_map, Dict.get?_map, Option.map_eq_some_iff, Option.map_eq_some_iff]
    constructor
    · rintro ⟨p, hp, rfl⟩
      exact h.exists_call h' hmem hp
    · rintro ⟨p', hp', rfl⟩
      exact h'.exists_call h (fun row => (hmem row).symm) hp'
  have hvalues : ∀ d : Dict (Value ℚ) (Dict String (Value F)),
      (d.values.countP fun payload => (get payload "is_retry").isTrue) =
        (d.map fun payload => (get payload "is_retry").isTrue).values.countP id := by
    intro d
    rw [Dict.values, Dict.values, Dict.map, List.countP_map, List.countP_map, List.countP_map]
    rfl
  rw [hvalues, hvalues]
  refine ⟨?_, (hperm.map Prod.snd).countP_eq _⟩
  have hlength := hperm.length_eq
  rwa [Dict.map, Dict.map, List.length_map, List.length_map] at hlength

theorem earliest_eq_none_iff : earliest rows = none ↔ rows = [] := by
  cases rows with
  | nil => simp [earliest]
  | cons row rows =>
    rw [earliest]
    rcases earliest rows with _ | other
    · simp
    · simp only
      split_ifs <;> simp

theorem earliest_spec {first : Row F} (h : earliest rows = some first) :
    first ∈ rows ∧ ∀ row ∈ rows, first.commitSeq ≤ row.commitSeq := by
  induction rows generalizing first with
  | nil => cases h
  | cons row rows ih =>
    rw [earliest] at h
    rcases hrest : earliest rows with _ | other <;> rw [hrest] at h
    · obtain rfl := Option.some.inj h
      rw [earliest_eq_none_iff.mp hrest]
      simp
    · obtain ⟨hother, hleast⟩ := ih hrest
      simp only at h
      split_ifs at h with hlt <;> obtain rfl := Option.some.inj h
      · exact ⟨List.mem_cons_of_mem _ hother, List.forall_mem_cons.mpr ⟨hlt.le, hleast⟩⟩
      · refine ⟨List.mem_cons_self, List.forall_mem_cons.mpr ⟨le_rfl, fun row' hrow' => ?_⟩⟩
        exact (not_lt.mp hlt).trans (hleast row' hrow')

/-- Rows of different sequence numbers have the same earliest in every order. -/
theorem earliest_congr (hmem : ∀ row, row ∈ rows ↔ row ∈ rows')
    (hdistinct : ∀ row ∈ rows, ∀ row' ∈ rows, row.commitSeq = row'.commitSeq → row = row') :
    earliest rows = earliest rows' := by
  rcases hfirst : earliest rows with _ | first <;> rcases hfirst' : earliest rows' with _ | first'
  · rfl
  · rw [earliest_eq_none_iff] at hfirst
    simpa [hfirst] using (hmem first').mpr (earliest_spec hfirst').1
  · rw [earliest_eq_none_iff] at hfirst'
    simpa [hfirst'] using (hmem first).mp (earliest_spec hfirst).1
  · obtain ⟨hrow, hleast⟩ := earliest_spec hfirst
    obtain ⟨hrow', hleast'⟩ := earliest_spec hfirst'
    have hsame := hdistinct first hrow first' ((hmem _).mpr hrow')
      (le_antisymm (hleast _ ((hmem _).mpr hrow')) (hleast' _ ((hmem _).mp hrow)))
    rw [hsame]

/-! ### What a projection holds -/

/-- Different records have different ids and sequence numbers. -/
def Distinct (rows : List (Row F)) : Prop :=
  ∀ row ∈ rows, ∀ row' ∈ rows, row.eventId = row'.eventId ∨ row.commitSeq = row'.commitSeq →
    row = row'

/-- What a projection holds that has taken in records, from where it started. -/
structure Holds (N : Floats F) (P₀ : Projection F) (rows : List (Row F)) (P : Projection F) :
    Prop where
  same : P = { P₀ with records := P.records, hashes := P.hashes, cursor := P.cursor }
  record : ∀ id row, P.records.get? id = some row ↔ row ∈ rows ∧ row.eventId = id
  hash : ∀ id digest, P.hashes.get? id = some digest ↔
    ∃ row ∈ rows, row.eventId = id ∧ row.digest N = digest
  cursor : ∀ bound, P.cursor ≤ bound ↔ P₀.cursor ≤ bound ∧ ∀ row ∈ rows, row.commitSeq ≤ bound

variable {P P' P₀ : Projection F}

/-- What has been taken in does not change what is read of an event. -/
theorem Holds.read_eq (h : Holds N P₀ rows P) (event : Dict String (Value F)) :
    P.read event = P₀.read event := by
  rw [h.same]
  rfl

theorem Holds.congr (h : Holds N P₀ rows P) (hmem : ∀ row, row ∈ rows ↔ row ∈ rows') :
    Holds N P₀ rows' P := by
  refine ⟨h.same, ?_, ?_, ?_⟩
  · simpa only [hmem] using h.record
  · simpa only [hmem] using h.hash
  · simpa only [hmem] using h.cursor

/-- **An event of a record that is there** changes nothing. -/
theorem Holds.takes_of_mem (h : Holds N P₀ rows P) (hrow : row ∈ rows) :
    P.takes N row = .ok false := by
  have hhash := (h.hash row.eventId (row.digest N)).mpr ⟨row, hrow, rfl, rfl⟩
  rw [Projection.takes, hhash]
  simp [rejectIf]

/-- **An event of a new record** is taken in, if there is room. -/
theorem Holds.takes_of_not_mem (h : Holds N P₀ rows P) (hdistinct : Distinct (row :: rows))
    (hrow : row ∉ rows) (hroom : (P.records.entries.length : ℤ) < P.maxEvents) :
    P.takes N row = .ok true := by
  have hnew : ∀ row' ∈ rows, row'.eventId ≠ row.eventId ∧ row'.commitSeq ≠ row.commitSeq := by
    intro row' hrow'
    have hne : row' ≠ row := fun heq => hrow (heq ▸ hrow')
    have hsame := hdistinct row' (List.mem_cons_of_mem _ hrow') row List.mem_cons_self
    exact ⟨fun heq => hne (hsame (.inl heq)), fun heq => hne (hsame (.inr heq))⟩
  have hhash : P.hashes.get? row.eventId = none := by
    refine Option.eq_none_iff_forall_ne_some.mpr fun digest hdigest => ?_
    obtain ⟨row', hrow', hid, -⟩ := (h.hash _ _).mp hdigest
    exact (hnew row' hrow').1 hid
  have hseq : ¬∃ row' ∈ P.records.values, row'.commitSeq = row.commitSeq := by
    rintro ⟨row', hrow', hseq⟩
    obtain ⟨id, hid⟩ := Dict.mem_values_iff.mp hrow'
    exact (hnew row' ((h.record id row').mp hid).1).2 hseq
  rw [Projection.takes, hhash]
  simp only [rejectIf, if_neg hseq, if_neg (not_le.mpr hroom)]
  rfl

theorem Holds.add (h : Holds N P₀ rows P) (hdistinct : Distinct (row :: rows)) :
    Holds N P₀ (row :: rows) (P.add N row) := by
  have hsame : ∀ row' ∈ row :: rows, row'.eventId = row.eventId → row' = row :=
    fun row' hrow' heq => hdistinct row' hrow' row List.mem_cons_self (.inl heq)
  have hother : ∀ {id : String} {row' : Row F}, id ≠ row.eventId → row'.eventId = id →
      row' ∈ row :: rows → row' ∈ rows := fun hid heq hrow' =>
    (List.mem_cons.mp hrow').resolve_left fun hrow => hid (heq.symm.trans (congrArg _ hrow))
  refine ⟨?_, fun id row' => ?_, fun id digest => ?_, fun bound => ?_⟩
  · rw [Projection.add, h.same]
  · rw [Projection.add, Dict.get?_set]
    split_ifs with hid
    · rw [Option.some_inj]
      constructor
      · rintro rfl
        exact ⟨List.mem_cons_self, hid.symm⟩
      · rintro ⟨hrow', heq⟩
        exact (hsame row' hrow' (heq.trans hid)).symm
    · rw [h.record]
      constructor
      · rintro ⟨hrow', heq⟩
        exact ⟨List.mem_cons_of_mem _ hrow', heq⟩
      · rintro ⟨hrow', heq⟩
        exact ⟨hother hid heq hrow', heq⟩
  · rw [Projection.add, Dict.get?_set]
    split_ifs with hid
    · rw [Option.some_inj]
      constructor
      · rintro rfl
        exact ⟨row, List.mem_cons_self, hid.symm, rfl⟩
      · rintro ⟨row', hrow', heq, rfl⟩
        rw [hsame row' hrow' (heq.trans hid)]
    · rw [h.hash]
      constructor
      · rintro ⟨row', hrow', heq, hdigest⟩
        exact ⟨row', List.mem_cons_of_mem _ hrow', heq, hdigest⟩
      · rintro ⟨row', hrow', heq, hdigest⟩
        exact ⟨row', hother hid heq hrow', heq, hdigest⟩
  · rw [Projection.add, max_le_iff, h.cursor, List.forall_mem_cons]
    tauto

/-- The records of the events that can be read. -/
def rowsOf (P : Projection F) (events : List (Dict String (Value F))) : List (Row F) :=
  events.filterMap fun event => (P.read event).toOption

variable {events events' : List (Dict String (Value F))} {event : Dict String (Value F)}

/-- A projection that has not taken in anything. -/
def Projection.Fresh (P : Projection F) : Prop := P.records = ∅ ∧ P.hashes = ∅

/-- Records that fit into a projection together. -/
def Fits (P : Projection F) (rows : List (Row F)) : Prop :=
  Distinct rows ∧ ((rows.map Row.eventId).toFinset.card : ℤ) ≤ P.maxEvents

theorem Fits.mono (h : Fits P rows) (hsub : ∀ row ∈ rows', row ∈ rows) : Fits P rows' := by
  refine ⟨fun row hrow row' hrow' => h.1 row (hsub row hrow) row' (hsub row' hrow'), ?_⟩
  refine le_trans (Nat.cast_le.mpr (Finset.card_le_card fun id hid => ?_)) h.2
  rw [List.mem_toFinset, List.mem_map] at hid ⊢
  obtain ⟨row, hrow, hid⟩ := hid
  exact ⟨row, hsub row hrow, hid⟩

/-- There is room for a new record of those that fit. -/
theorem Holds.room (h : Holds N P₀ rows P) (hfits : Fits P₀ (row :: rows)) (hrow : row ∉ rows) :
    (P.records.entries.length : ℤ) < P.maxEvents := by
  have hmax : P.maxEvents = P₀.maxEvents := by rw [h.same]
  have hkey : ∀ id ∈ P.records.keys, ∃ row' ∈ rows, row'.eventId = id := fun id hid => by
    obtain ⟨row', hrow'⟩ := Dict.mem_keys_iff.mp hid
    exact ⟨row', (h.record id row').mp hrow'⟩
  have hnodup : (row.eventId :: P.records.keys).Nodup := by
    refine List.nodup_cons.mpr ⟨fun hid => ?_, P.records.nodup_keys⟩
    obtain ⟨row', hrow', heq⟩ := hkey _ hid
    have hsame := hfits.1 row' (List.mem_cons_of_mem _ hrow') row List.mem_cons_self (.inl heq)
    exact hrow (hsame ▸ hrow')
  have hsub : (row.eventId :: P.records.keys).toFinset ⊆
      ((row :: rows).map Row.eventId).toFinset := by
    intro id hid
    rw [List.mem_toFinset, List.mem_cons] at hid
    rw [List.mem_toFinset, List.mem_map]
    obtain rfl | hid := hid
    · exact ⟨row, List.mem_cons_self, rfl⟩
    · obtain ⟨row', hrow', heq⟩ := hkey id hid
      exact ⟨row', List.mem_cons_of_mem _ hrow', heq⟩
  have hcard := Finset.card_le_card hsub
  rw [List.toFinset_card_of_nodup hnodup, List.length_cons, Dict.keys, List.length_map] at hcard
  have hfit := hfits.2
  omega

/-- **Events in any order, with repetitions**: each that can be read is taken in once. -/
theorem holds_ingestAll (hfresh : P₀.Fresh) (hfits : Fits P₀ (rowsOf P₀ events)) :
    Holds N P₀ (rowsOf P₀ events) (P₀.ingestAll N events) := by
  induction events using List.reverseRecOn with
  | nil =>
    obtain ⟨hrecords, hhashes⟩ := hfresh
    refine ⟨rfl, ?_, ?_, ?_⟩ <;> simp [rowsOf, Projection.ingestAll, hrecords, hhashes]
  | append_singleton events event ih =>
    have hrows : rowsOf P₀ (events ++ [event]) =
        rowsOf P₀ events ++ ((P₀.read event).toOption).toList := by
      rw [rowsOf, List.filterMap_append, rowsOf]
      cases h : (P₀.read event).toOption <;> simp [h]
    have hP := ih (hfits.mono fun row hrow => hrows ▸ List.mem_append_left _ hrow)
    have hstep : P₀.ingestAll N (events ++ [event]) =
        ((P₀.ingestAll N events).ingest N event).2 := by
      rw [Projection.ingestAll, List.foldl_append]
      rfl
    rw [hrows] at hfits ⊢
    rw [hstep, Projection.ingest, hP.read_eq event]
    rcases hread : P₀.read event with failure | row <;> rw [hread] at hfits
    · simpa [Except.toOption] using hP
    have hmem : ∀ row', row' ∈ row :: rowsOf P₀ events ↔ row' ∈ rowsOf P₀ events ++ [row] :=
      fun row' => by simp [or_comm]
    simp only [Except.toOption, Option.toList_some] at hfits ⊢
    by_cases hrow : row ∈ rowsOf P₀ events
    · rw [hP.takes_of_mem hrow]
      refine hP.congr fun row' => ?_
      rw [← hmem, List.mem_cons, or_iff_right_of_imp]
      rintro rfl
      exact hrow
    · have hfits' : Fits P₀ (row :: rowsOf P₀ events) := hfits.mono fun row' => (hmem row').mp
      rw [hP.takes_of_not_mem hfits'.1 hrow (hP.room hfits' hrow)]
      exact (hP.add hfits'.1).congr hmem

/-! ### The same view -/

/-- Projections of the same records hold them in some order. -/
theorem Holds.perm (h : Holds N P₀ rows P) (h' : Holds N P₀ rows P') :
    P.records.entries.Perm P'.records.entries :=
  Dict.perm_iff.mpr fun id => Option.ext fun row => (h.record id row).trans (h'.record id row).symm

theorem Holds.cursor_eq (h : Holds N P₀ rows P) (h' : Holds N P₀ rows P') :
    P.cursor = P'.cursor :=
  eq_of_forall_ge_iff fun bound => (h.cursor bound).trans (h'.cursor bound).symm

theorem Holds.mem_values (h : Holds N P₀ rows P) : row ∈ P.records.values → row ∈ rows := by
  rw [Dict.mem_values_iff]
  rintro ⟨id, hid⟩
  exact ((h.record id row).mp hid).1

/-- **The timeline** is the same. -/
theorem Holds.timeline_eq (h : Holds N P₀ rows P) (h' : Holds N P₀ rows P')
    (hdistinct : Distinct rows) (limit : ℤ) : P.timeline limit = P'.timeline limit := by
  have hvalues : P.records.values.Perm P'.records.values := (h.perm h').map Prod.snd
  have hsort : P.records.values.insertionSort (fun a b => a.commitSeq ≤ b.commitSeq) =
      P'.records.values.insertionSort fun a b => a.commitSeq ≤ b.commitSeq := by
    refine List.Perm.eq_of_pairwise (fun row row' hrow hrow' hle hge => ?_)
      (List.pairwise_insertionSort _ _) (List.pairwise_insertionSort _ _)
      ((List.perm_insertionSort _ _).trans (hvalues.trans (List.perm_insertionSort _ _).symm))
    rw [(List.perm_insertionSort _ _).mem_iff] at hrow hrow'
    exact hdistinct row (h.mem_values hrow) row' (h'.mem_values hrow')
      (.inr (le_antisymm hle hge))
  rw [Projection.timeline, Projection.timeline, hsort]

/-- **The summary**, where there is one, is the same. -/
theorem Holds.summary_of_ok (h : Holds N P₀ rows P) (h' : Holds N P₀ rows P')
    (hdistinct : Distinct rows) {s : Summary F} (hs : P.summary N = .ok s) :
    P'.summary N = .ok s := by
  have hperm := h.perm h'
  have hmem : ∀ row, row ∈ P.records.values ↔ row ∈ P'.records.values := fun row =>
    (hperm.map Prod.snd).mem_iff
  have hseq : ∀ row ∈ P.records.values, ∀ row' ∈ P.records.values,
      row.commitSeq = row'.commitSeq → row = row' := fun row hrow row' hrow' heq =>
    hdistinct row (h.mem_values hrow) row' (h.mem_values hrow') (.inr heq)
  obtain ⟨t, ht, hs⟩ := except_bind_eq_ok.mp hs
  obtain rfl := Except.ok.inj hs
  have htallied := tallied_of_foldlM ht
  obtain ⟨t', ht'⟩ : ∃ t', P'.records.values.foldlM (Tally.step N) {} = .ok t' := by
    refine exists_foldlM_iff.mpr ⟨fun row hrow => htallied.reads row ((hmem row).mpr hrow), ?_⟩
    exact fun row hrow row' hrow' =>
      htallied.consistent row ((hmem row).mpr hrow) row' ((hmem row').mpr hrow')
  have htallied' := tallied_of_foldlM ht'
  obtain ⟨hattempts, hretries⟩ := htallied.counts htallied' hmem
  have hfirst : earliest t.failures = earliest t'.failures := by
    rw [htallied.failures, htallied'.failures]
    refine earliest_congr (fun row => ?_) fun row hrow row' hrow' => ?_
    · rw [List.mem_filter, List.mem_filter, hmem]
    · exact hseq row (List.mem_filter.mp hrow).1 row' (List.mem_filter.mp hrow').1
  have hconnected : P'.connected = P.connected := by rw [h.same, h'.same]
  have hcomplete : P'.complete = P.complete := by rw [h.same, h'.same]
  refine except_bind_eq_ok.mpr ⟨t', ht', congrArg Except.ok ?_⟩
  rw [hperm.length_eq, htallied.logical.unique htallied'.logical hmem,
    htallied.applied.unique htallied'.applied hmem,
    htallied.candidates.unique htallied'.candidates hmem,
    htallied.promoted.unique htallied'.promoted hmem, hattempts, hretries, hfirst,
    h.cursor_eq h', hconnected, hcomplete]

/-- **An event that is rejected** leaves the projection as it is. -/
theorem ingest_of_error {failure : Failure} (h : (P.ingest N event).1 = .error failure) :
    (P.ingest N event).2 = P := by
  rw [Projection.ingest] at h ⊢
  rcases hread : P.read event with failure' | row
  · rfl
  rw [hread] at h
  rcases htakes : P.takes N row with failure' | _ | _
  · simp only [htakes]
  · simp only [htakes]
  · simp [htakes] at h

/-- **The same view of the same events**: of events that fit into a new projection, taken in in any
order and any number of times among others that cannot be read, the timelines are the same; so are
the summaries, which there are for one order if there are for the other; and an event that is
rejected leaves a projection as it is. -/
theorem sameView (hfresh : P₀.Fresh) (hfits : Fits P₀ (rowsOf P₀ events))
    (hsame : ∀ row, row ∈ rowsOf P₀ events ↔ row ∈ rowsOf P₀ events') :
    (∀ limit, (P₀.ingestAll N events).timeline limit = (P₀.ingestAll N events').timeline limit) ∧
    (∀ s, (P₀.ingestAll N events).summary N = .ok s ↔ (P₀.ingestAll N events').summary N = .ok s) ∧
    ∀ (P : Projection F) event failure, (P.ingest N event).1 = .error failure →
      (P.ingest N event).2 = P := by
  have h := holds_ingestAll (N := N) hfresh hfits
  have h' := holds_ingestAll (N := N) hfresh (hfits.mono fun row => (hsame row).mpr)
  have h' := h'.congr fun row => (hsame row).symm
  exact ⟨h.timeline_eq h' hfits.1,
    fun s => ⟨h.summary_of_ok h' hfits.1, h'.summary_of_ok h hfits.1⟩,
    fun P event failure => ingest_of_error⟩

/-! ### Two events -/

/-- No floats. -/
def noFloats : Floats Empty := ⟨nofun, nofun⟩

/-- A new projection. -/
def emptyView : Projection Empty := { workspaceId := "w", requestId := "r", generation := "g" }

/-- An event with a payload. -/
def viewEvent (eventId : String) (commitSeq : ℤ) (eventType : String) (payload : Members Empty) :
    Dict String (Value Empty) :=
  ⟨[("event_id", .str eventId), ("commit_seq", .int commitSeq), ("workspace_id", .str "w"),
    ("request_id", .str "r"), ("generation", .str "g"), ("event_type", .str eventType),
    ("payload", .obj payload)], by simp⟩

/-- An attempt and an application, each with the payload that it needs or with none. -/
def viewEvents (attempt application : Members Empty) : List (Dict String (Value Empty)) :=
  [viewEvent "a" 1 "model.attempt_started" attempt, viewEvent "b" 2 "memory.applied" application]

/-- Two records of different ids and sequence numbers fit. -/
theorem fits_pair {first second : Row Empty} (hid : first.eventId ≠ second.eventId)
    (hseq : first.commitSeq ≠ second.commitSeq) : Fits emptyView [first, second] := by
  refine ⟨?_, ?_⟩
  · simp [Distinct, hid, hseq, hid.symm, hseq.symm]
  · refine (Nat.cast_le.mpr (List.toFinset_card_le _)).trans ?_
    simp [emptyView]

/-- The record of such an event. -/
def viewRow (eventId : String) (commitSeq : ℤ) (eventType : String) (payload : Members Empty) :
    Row Empty :=
  ⟨eventId, commitSeq, eventType, reloaded (.ofList payload),
    reloaded (viewEvent eventId commitSeq eventType payload)⟩

/-- The payloads that the two events need. -/
def viewAttempt : Members Empty :=
  [("attempt_id", .int 1), ("logical_request_id", .str "q"), ("is_retry", .bool false)]

theorem sameView_reverse :
    (∀ limit, (emptyView.ingestAll noFloats (viewEvents viewAttempt
          [("application_id", .str "m")])).timeline limit =
        (emptyView.ingestAll noFloats (viewEvents viewAttempt
          [("application_id", .str "m")]).reverse).timeline limit) ∧
    (∀ s, (emptyView.ingestAll noFloats (viewEvents viewAttempt
          [("application_id", .str "m")])).summary noFloats = .ok s ↔
        (emptyView.ingestAll noFloats (viewEvents viewAttempt
          [("application_id", .str "m")]).reverse).summary noFloats = .ok s) ∧
    ∀ (P : Projection Empty) event failure, (P.ingest noFloats event).1 = .error failure →
      (P.ingest noFloats event).2 = P := by
  have hrows : rowsOf emptyView (viewEvents viewAttempt [("application_id", .str "m")]) =
      [viewRow "a" 1 "model.attempt_started" viewAttempt,
        viewRow "b" 2 "memory.applied" [("application_id", .str "m")]] := rfl
  have hrows' : rowsOf emptyView (viewEvents viewAttempt [("application_id", .str "m")]).reverse =
      [viewRow "b" 2 "memory.applied" [("application_id", .str "m")],
        viewRow "a" 1 "model.attempt_started" viewAttempt] := rfl
  refine sameView ⟨rfl, rfl⟩ ?_ fun row => ?_
  · rw [hrows]
    exact fits_pair (by simp [viewRow]) (by simp [viewRow])
  · rw [hrows, hrows']
    simp [or_comm]

/-- **Two events without what they need**: the summary raises in both orders, each time for the
event that came first. -/
theorem not_sameSummary_malformed :
    Fits emptyView (rowsOf emptyView (viewEvents [] [])) ∧
    (emptyView.ingestAll noFloats (viewEvents [] [])).summary noFloats ≠
      (emptyView.ingestAll noFloats (viewEvents [] []).reverse).summary noFloats := by
  have hrows : rowsOf emptyView (viewEvents [] []) =
      [viewRow "a" 1 "model.attempt_started" [], viewRow "b" 2 "memory.applied" []] := rfl
  have hfirst : (emptyView.ingestAll noFloats (viewEvents [] [])).summary noFloats =
      .error (projectionError "INVALID_ATTEMPT") := rfl
  have hsecond : (emptyView.ingestAll noFloats (viewEvents [] []).reverse).summary noFloats =
      .error (projectionError "MISSING_APPLICATION_ID") := rfl
  refine ⟨?_, ?_⟩
  · rw [hrows]
    exact fits_pair (by simp [viewRow]) (by simp [viewRow])
  · rw [hfirst, hsecond]
    simp [projectionError]

end Monitor

end CyranoAgent
