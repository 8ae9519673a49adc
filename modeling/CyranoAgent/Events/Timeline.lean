import CyranoAgent.Events.Query

/-!
# What paging through a stream yields

In an ordered log a page is a prefix of the stream's events after the cursor
(`getTimeline_eq`). The cursor it returns, however, is past every event of the stream, so the
next page is empty and complete: paging stops after one page, and yields the whole stream
exactly when one page holds it (`iterEvents_eq`, `Polls.flatMap_eq`).
-/

namespace CyranoAgent

namespace Query

variable {P : Primitives} {L : Ledger} {scopeId streamId : String}

/-! ### Rows -/

/-- The events of a stream in commit order, by their position. -/
def commitOrder (L : Ledger) (streamId : String) : List Event :=
  (L.eventsOf streamId).insertionSort fun ev ev' => ev.streamRevision ≤ ev'.streamRevision

/-- Every event of a stream as a row, once and in commit order. -/
def allRows (P : Primitives) (L : Ledger) (scopeId streamId : String) : List EventRow :=
  (commitOrder L streamId).map (eventRow P L scopeId)

theorem pairwise_eventsOf (hL : L.OrderedLog) (streamId : String) :
    (L.eventsOf streamId).Pairwise fun ev ev' => ev.eventSeq < ev'.eventSeq :=
  hL.event_seqs.sublist List.filter_sublist

/-- Commit order is the order of insertion. -/
theorem commitOrder_eq (hL : L.OrderedLog) (streamId : String) :
    commitOrder L streamId = L.eventsOf streamId := by
  refine List.Pairwise.insertionSort_eq ?_
  have hsorted : ((L.eventsOf streamId).map (·.streamRevision)).Pairwise (· ≤ ·) := by
    rw [hL.positions]
    exact List.pairwise_le_range'
  exact List.pairwise_map.mp hsorted

/-- The rows of a stream after a cursor. -/
def rowsAfter (P : Primitives) (L : Ledger) (scopeId streamId : String) (afterSeq : ℤ) :
    List EventRow :=
  ((L.eventsOf streamId).filter fun ev => afterSeq < ev.eventSeq).map (eventRow P L scopeId)

/-- The scope of a stream is the one that may read it. -/
theorem checkScope_eq_ok :
    checkScope L scopeId streamId = .ok () ↔ L.Owns scopeId streamId := by
  rw [checkScope]
  constructor
  · intro h
    rcases hrun : (Repository.readScopedEntity scopeId streamId).run L with ⟨e | n, L'⟩
    · rw [hrun] at h
      cases h
    · exact (Repository.readScopedEntity_eq_ok.mp hrun).1
  · intro howns
    have hrun : (Repository.readScopedEntity scopeId streamId).run L =
        (.ok (L.revision streamId), L) :=
      Repository.readScopedEntity_eq_ok.mpr ⟨howns, rfl, rfl⟩
    rw [hrun]
    rfl

theorem rows_eq (hL : L.OrderedLog) (howns : L.Owns scopeId streamId) (afterSeq : ℤ) :
    rows P L scopeId streamId afterSeq = .ok (rowsAfter P L scopeId streamId afterSeq) := by
  have hsorted : ((L.eventsOf streamId).filter fun ev => afterSeq < ev.eventSeq).Pairwise
      fun ev ev' => ev.eventSeq ≤ ev'.eventSeq :=
    ((pairwise_eventsOf hL streamId).sublist List.filter_sublist).imp Nat.le_of_lt
  rw [rows, checkScope_eq_ok.mpr howns, hsorted.insertionSort_eq]
  rfl

/-- Rows of distinct, unseen events are all kept. -/
theorem dedupe_eq {seen : List String} {rows : List EventRow}
    (hnodup : (rows.map (·.eventId)).Nodup) (hseen : ∀ row ∈ rows, row.eventId ∉ seen) :
    dedupe seen rows = rows := by
  induction rows generalizing seen with
  | nil => rfl
  | cons row rows ih =>
    rw [List.map_cons, List.nodup_cons] at hnodup
    rw [dedupe, if_neg (hseen row List.mem_cons_self), ih hnodup.2]
    intro row' hrow'
    rw [List.mem_cons, not_or]
    refine ⟨fun heq => hnodup.1 ?_, hseen row' (List.mem_cons_of_mem _ hrow')⟩
    exact heq ▸ List.mem_map_of_mem hrow'

theorem dedupe_rowsAfter (hL : L.OrderedLog) (afterSeq : ℤ) :
    dedupe [] (rowsAfter P L scopeId streamId afterSeq) =
      rowsAfter P L scopeId streamId afterSeq := by
  refine dedupe_eq ?_ (by simp)
  have hids : (rowsAfter P L scopeId streamId afterSeq).map (·.eventId) =
      ((L.eventsOf streamId).filter fun ev => afterSeq < ev.eventSeq).map (·.eventId) := by
    rw [rowsAfter, List.map_map]
    rfl
  rw [hids]
  exact hL.event_ids.sublist ((List.filter_sublist.trans List.filter_sublist).map _)

/-! ### Pages -/

variable {limit : ℤ}

/-- **A page** of an ordered log: the first rows after the cursor, and the cursor of the very
last one. -/
theorem getTimeline_eq (hL : L.OrderedLog) (howns : L.Owns scopeId streamId) (afterSeq : ℤ)
    (hlimit : 1 ≤ limit ∧ limit ≤ maxPage) :
    getTimeline P L scopeId streamId afterSeq limit = .ok
      { events := (rowsAfter P L scopeId streamId afterSeq).take limit.toNat
        cursor := ((rowsAfter P L scopeId streamId afterSeq).getLast?.map
          fun row => (row.eventSeq : ℤ)).getD afterSeq
        staleCursor := 0 < afterSeq ∧ rowsAfter P L scopeId streamId afterSeq ≠ [] ∧
          staleAfter L streamId afterSeq
        complete := (rowsAfter P L scopeId streamId afterSeq).length ≤ limit } := by
  have hdeny : denyUnlessScope L scopeId streamId = .ok () := by
    obtain ⟨row, hrow, rfl⟩ := howns
    simp [denyUnlessScope, hrow]
  rw [getTimeline, hdeny, rows_eq hL howns, if_neg (not_not.mpr hlimit)]
  change Except.ok _ = Except.ok _
  rw [dedupe_rowsAfter hL]

/-- The rows after a cursor past every event. -/
theorem rowsAfter_eq_nil {afterSeq : ℤ} (h : ∀ ev ∈ L.eventsOf streamId, ev.eventSeq ≤ afterSeq) :
    rowsAfter P L scopeId streamId afterSeq = [] := by
  rw [rowsAfter, List.map_eq_nil_iff, List.filter_eq_nil_iff]
  intro ev hev
  simpa using h ev hev

/-- From the start, the rows are those of every event. -/
theorem rowsAfter_zero (hL : L.OrderedLog) :
    rowsAfter P L scopeId streamId 0 = allRows P L scopeId streamId := by
  have hall : ((L.eventsOf streamId).filter fun ev => (0 : ℤ) < ev.eventSeq) =
      L.eventsOf streamId := by
    refine List.filter_eq_self.mpr fun ev hev => ?_
    have hpos := hL.event_seq_pos ev (Ledger.mem_eventsOf.mp hev).1
    simpa using hpos
  rw [rowsAfter, hall, allRows, commitOrder_eq hL]

/-- The rows of the whole stream have ascending sequence numbers. -/
theorem eventSeq_le_getLast (hL : L.OrderedLog) {last : EventRow}
    (hlast : (allRows P L scopeId streamId).getLast? = some last) :
    0 < last.eventSeq ∧ ∀ ev ∈ L.eventsOf streamId, ev.eventSeq ≤ last.eventSeq := by
  rw [allRows, commitOrder_eq hL, List.getLast?_map, Option.map_eq_some_iff] at hlast
  obtain ⟨ev, hev, rfl⟩ := hlast
  obtain ⟨init, hinit⟩ := List.getLast?_eq_some_iff.mp hev
  have hmem : ev ∈ L.eventsOf streamId := List.mem_of_getLast? hev
  refine ⟨hL.event_seq_pos ev (Ledger.mem_eventsOf.mp hmem).1, fun ev' hev' => ?_⟩
  have hsorted := pairwise_eventsOf hL streamId
  rw [hinit, List.pairwise_append] at hsorted
  rw [hinit, List.mem_append, List.mem_singleton] at hev'
  rcases hev' with hev' | rfl
  · exact (hsorted.2.2 ev' hev' ev (List.mem_singleton_self _)).le
  · exact le_rfl

/-- The first page, when the whole stream fits: it is complete. -/
theorem getTimeline_of_le (hL : L.OrderedLog) (howns : L.Owns scopeId streamId)
    (hlimit : 1 ≤ limit ∧ limit ≤ maxPage)
    (hle : ((allRows P L scopeId streamId).length : ℤ) ≤ limit) :
    ∃ page, getTimeline P L scopeId streamId 0 limit = .ok page ∧ page.complete = true ∧
      page.events = (allRows P L scopeId streamId).take limit.toNat := by
  refine ⟨_, getTimeline_eq hL howns 0 hlimit, ?_, ?_⟩
  · simpa [rowsAfter_zero hL] using hle
  · rw [rowsAfter_zero hL]

/-- The first page of a longer stream is not complete, and its cursor is past every event. -/
theorem getTimeline_of_lt (hL : L.OrderedLog) (howns : L.Owns scopeId streamId)
    (hlimit : 1 ≤ limit ∧ limit ≤ maxPage)
    (hlt : limit < (allRows P L scopeId streamId).length) :
    ∃ page, getTimeline P L scopeId streamId 0 limit = .ok page ∧ page.complete = false ∧
      page.events = (allRows P L scopeId streamId).take limit.toNat ∧ 0 < page.cursor ∧
      ∀ ev ∈ L.eventsOf streamId, (ev.eventSeq : ℤ) ≤ page.cursor := by
  refine ⟨_, getTimeline_eq hL howns 0 hlimit, ?_, ?_⟩
  · simpa [rowsAfter_zero hL] using hlt
  rw [rowsAfter_zero hL]
  refine ⟨rfl, ?_⟩
  rcases hlast : (allRows P L scopeId streamId).getLast? with _ | last
  · rw [List.getLast?_eq_none_iff] at hlast
    simp [hlast] at hlt
    omega
  · obtain ⟨hpos, hle⟩ := eventSeq_le_getLast hL hlast
    exact ⟨by simpa using hpos, fun ev hev => by simpa using hle ev hev⟩

/-- A page after a cursor past every event is empty and complete. -/
theorem getTimeline_past (hL : L.OrderedLog) (howns : L.Owns scopeId streamId)
    (hlimit : 1 ≤ limit ∧ limit ≤ maxPage) {afterSeq : ℤ}
    (hpast : ∀ ev ∈ L.eventsOf streamId, ev.eventSeq ≤ afterSeq) :
    ∃ page, getTimeline P L scopeId streamId afterSeq limit = .ok page ∧
      page.complete = true ∧ page.events = [] := by
  refine ⟨_, getTimeline_eq hL howns afterSeq hlimit, ?_, ?_⟩
  · simp [rowsAfter_eq_nil hpast]
    omega
  · simp [rowsAfter_eq_nil hpast]

/-! ### The generator -/

/-- **`iter_events` yields the first page and stops.** -/
theorem iterEvents_eq (hL : L.OrderedLog) (howns : L.Owns scopeId streamId)
    (hlimit : 1 ≤ limit ∧ limit ≤ maxPage) :
    iterEvents P L scopeId streamId limit =
      ((allRows P L scopeId streamId).take limit.toNat, .returned) := by
  have hlength : (allRows P L scopeId streamId).length = (L.eventsOf streamId).length := by
    rw [allRows, commitOrder_eq hL, List.length_map]
  rw [iterEvents]
  rcases le_or_gt ((allRows P L scopeId streamId).length : ℤ) limit with hle | hlt
  · obtain ⟨page, hpage, hcomplete, hevents⟩ := getTimeline_of_le hL howns hlimit hle
    rw [iterPages, hpage]
    simp [hcomplete, hevents]
  · obtain ⟨page, hpage, hcomplete, hevents, hpos, hpast⟩ :=
      getTimeline_of_lt hL howns hlimit hlt
    obtain ⟨page', hpage', hcomplete', hevents'⟩ :=
      getTimeline_past (P := P) hL howns hlimit hpast
    obtain ⟨n, hn⟩ : ∃ n, (L.eventsOf streamId).length = n + 1 :=
      Nat.exists_eq_succ_of_ne_zero (by omega)
    rw [hn, iterPages, hpage]
    simp [hcomplete, hevents, not_le.mpr hpos, iterPages, hpage', hcomplete', hevents']

/-! ### A client that polls -/

/-- The pages a client reads that calls `get_timeline` again with each returned cursor, until
a page is complete. -/
inductive Polls (P : Primitives) (L : Ledger) (scopeId streamId : String) (limit : ℤ) :
    ℤ → List Timeline → Prop
  | last {afterSeq : ℤ} {page : Timeline} :
      getTimeline P L scopeId streamId afterSeq limit = .ok page → page.complete = true →
      Polls P L scopeId streamId limit afterSeq [page]
  | next {afterSeq : ℤ} {page : Timeline} {pages : List Timeline} :
      getTimeline P L scopeId streamId afterSeq limit = .ok page → page.complete = false →
      Polls P L scopeId streamId limit page.cursor pages →
      Polls P L scopeId streamId limit afterSeq (page :: pages)

/-- From one cursor there is at most one sequence of pages. -/
theorem Polls.unique {afterSeq : ℤ} {pages pages' : List Timeline}
    (h : Polls P L scopeId streamId limit afterSeq pages)
    (h' : Polls P L scopeId streamId limit afterSeq pages') : pages = pages' := by
  induction h generalizing pages' with
  | last hpage hcomplete =>
    cases h' with
    | last hpage' _ => rw [hpage, Except.ok.injEq] at hpage'; rw [hpage']
    | next hpage' hcomplete' _ => simp_all
  | next hpage hcomplete _ ih =>
    cases h' with
    | last hpage' hcomplete' => simp_all
    | next hpage' hcomplete' h' =>
      obtain rfl := Except.ok.inj (hpage.symm.trans hpage')
      rw [ih h']

/-- **Polling ends, with the rows of the first page.** -/
theorem exists_polls (hL : L.OrderedLog) (howns : L.Owns scopeId streamId)
    (hlimit : 1 ≤ limit ∧ limit ≤ maxPage) :
    ∃ pages, Polls P L scopeId streamId limit 0 pages ∧
      pages.flatMap (·.events) = (allRows P L scopeId streamId).take limit.toNat := by
  rcases le_or_gt ((allRows P L scopeId streamId).length : ℤ) limit with hle | hlt
  · obtain ⟨page, hpage, hcomplete, hevents⟩ := getTimeline_of_le hL howns hlimit hle
    exact ⟨[page], .last hpage hcomplete, by simp [hevents]⟩
  · obtain ⟨page, hpage, hcomplete, hevents, -, hpast⟩ := getTimeline_of_lt hL howns hlimit hlt
    obtain ⟨page', hpage', hcomplete', hevents'⟩ :=
      getTimeline_past (P := P) hL howns hlimit hpast
    exact ⟨[page, page'], .next hpage hcomplete (.last hpage' hcomplete'),
      by simp [hevents, hevents']⟩

/-- A prefix is the whole exactly when the whole is no longer. -/
theorem take_eq_allRows_iff (hL : L.OrderedLog) (hlimit : 1 ≤ limit) :
    (allRows P L scopeId streamId).take limit.toNat = allRows P L scopeId streamId ↔
      ((L.eventsOf streamId).length : ℤ) ≤ limit := by
  have hlength : (allRows P L scopeId streamId).length = (L.eventsOf streamId).length := by
    rw [allRows, commitOrder_eq hL, List.length_map]
  rw [List.take_eq_self_iff, hlength]
  omega

end Query

end CyranoAgent
