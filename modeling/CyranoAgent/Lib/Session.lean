import CyranoAgent.Lib.Action

/-!
# Database sessions, faults and what is durable

A `Session δ ε` is a connection to a database of contents `δ`: what is durable, what an open
transaction has written on top of it, and the fault to come, if any. A statement outside a
transaction is durable at once; inside one it becomes durable with the `COMMIT`. The fault
strikes one statement, the `n`-th from now: that statement raises and writes nothing.

A program whose statements only write is a list of writes (`writes`). `run_writes` and
`run_writes_of_struck` say where a fault leaves it, `run_tx_writes` and
`durable_tx_writes_of_struck` what a transaction of them leaves durable: all of them or none.

A `script` is a list of statements, each of which may raise by itself; it may open and close
transactions. `Wrote` says what statements that went through have written, whatever their number.
-/

namespace Lib

/-- A connection: the durable contents, the contents an open transaction sees, and the
statement that will fail with its failure. -/
structure Session (δ ε : Type) where
  durable : δ
  pending : Option δ := none
  fault : Option (ℕ × ε) := none

namespace Session

open Lib.Action

variable {δ ε α : Type}

/-- What the connection sees: the writes of its open transaction, or what is durable. -/
def view (s : Session δ ε) : δ := s.pending.getD s.durable

/-- Contents that the connection has written. -/
def write (s : Session δ ε) (d : δ) : Session δ ε :=
  match s.pending with
  | none => { s with durable := d }
  | some _ => { s with pending := some d }

/-- Every statement may be the one that fails. -/
def strike : Action (Session δ ε) ε Unit := fun s =>
  match s.fault with
  | none => (.ok (), s)
  | some (0, e) => (.error e, { s with fault := none })
  | some (n + 1, e) => (.ok (), { s with fault := some (n, e) })

/-- Leave the contents, or raise, as the statement says. -/
def apply (f : δ → Except ε δ) : Action (Session δ ε) ε Unit := fun s =>
  match f s.view with
  | .ok d => (.ok (), s.write d)
  | .error e => (.error e, s)

/-- A statement that writes. A statement that raises writes nothing. -/
def statement (f : δ → Except ε δ) : Action (Session δ ε) ε Unit := do
  strike
  apply f

/-- A statement that reads. -/
def select (f : δ → α) : Action (Session δ ε) ε α := do
  strike
  return f (← get).view

/-- `BEGIN`, and what it raises inside a transaction. -/
def beginTx (nested : ε) : Action (Session δ ε) ε Unit := do
  strike
  raiseIf (← get).pending.isSome nested
  modify fun s => { s with pending := some s.durable }

/-- `COMMIT`, and what it raises outside a transaction. -/
def commitTx (idle : ε) : Action (Session δ ε) ε Unit := do
  strike
  raiseIf (← get).pending.isNone idle
  modify fun s => { s with durable := s.view, pending := none }

/-- Drop the open transaction, if there is one. -/
def rollback : Action (Session δ ε) ε Unit := modify fun s => { s with pending := none }

/-- `BEGIN`, the body, and `COMMIT`; a body that raises is rolled back. -/
def tx (nested idle : ε) (body : Action (Session δ ε) ε α) : Action (Session δ ε) ε α := do
  beginTx nested
  let a ← tryCatch body fun e => do
    rollback
    throw e
  commitTx idle
  return a

/-- Statements that write one after the other. -/
def writes (fs : List (δ → δ)) : Action (Session δ ε) ε Unit :=
  fs.forM fun f => statement fun d => .ok (f d)

/-- A statement of a script. -/
inductive Statement (δ ε : Type)
  | begin
  | commit
  | rollback
  | write (f : δ → Except ε δ)

/-- What transaction control raises where it does not belong: a `BEGIN` inside a transaction, a
`COMMIT` and a `ROLLBACK` outside. -/
structure Control (ε : Type) where
  nested : ε
  noCommit : ε
  noRollback : ε

/-- `ROLLBACK`, as a statement of a script. -/
def rollbackTx (idle : ε) : Action (Session δ ε) ε Unit := do
  strike
  raiseIf (← get).pending.isNone idle
  rollback

/-- Execute one statement of a script. -/
def exec (control : Control ε) : Statement δ ε → Action (Session δ ε) ε Unit
  | .begin => beginTx control.nested
  | .commit => commitTx control.noCommit
  | .rollback => rollbackTx control.noRollback
  | .write f => statement f

/-- The statements of a script, up to the first that raises. -/
def script (control : Control ε) (stmts : List (Statement δ ε)) : Action (Session δ ε) ε Unit :=
  stmts.forM (exec control)

/-- The contents after a list of writes. -/
def applyAll (fs : List (δ → δ)) (d : δ) : δ := fs.foldl (fun d f => f d) d

theorem applyAll_append (fs gs : List (δ → δ)) (d : δ) :
    applyAll (fs ++ gs) d = applyAll gs (applyAll fs d) := List.foldl_append

/-- Writes that change nothing, taken together. -/
theorem applyAll_of_id {fs : List (δ → δ)} (hfs : ∀ f ∈ fs, f = id) (d : δ) :
    applyAll fs d = d := by
  induction fs with
  | nil => rfl
  | cons f fs ih =>
    rw [List.forall_mem_cons] at hfs
    obtain ⟨rfl, hrest⟩ := hfs
    exact ih hrest

/-! ### Faults -/

/-- The fault strikes one of the next `k` statements. -/
def Struck (s : Session δ ε) (k : ℕ) : Prop := s.fault.any (fun fault => fault.1 < k) = true

instance (s : Session δ ε) (k : ℕ) : Decidable (s.Struck k) :=
  inferInstanceAs (Decidable (_ = true))

/-- The session `k` statements later, if the fault strikes none of them. -/
def pass (s : Session δ ε) (k : ℕ) : Session δ ε :=
  { s with fault := s.fault.map fun fault => (fault.1 - k, fault.2) }

section

variable {s : Session δ ε} {fs : List (δ → δ)}

@[simp] theorem durable_pass (k : ℕ) : (s.pass k).durable = s.durable := rfl

@[simp] theorem pending_pass (k : ℕ) : (s.pass k).pending = s.pending := rfl

@[simp] theorem view_pass (k : ℕ) : (s.pass k).view = s.view := rfl

theorem pass_pass (j k : ℕ) : (s.pass j).pass k = s.pass (j + k) := by
  rcases s with ⟨_, _, _ | ⟨n, e⟩⟩
  · rfl
  · simp [pass, Nat.sub_sub]

@[simp] theorem view_write (d : δ) : (s.write d).view = d := by
  rcases s with ⟨_, _ | _, _⟩ <;> rfl

@[simp] theorem write_view : s.write s.view = s := by
  rcases s with ⟨_, _ | _, _⟩ <;> rfl

@[simp] theorem write_view_pass (k : ℕ) : (s.pass k).write s.view = s.pass k :=
  write_view

@[simp] theorem write_write (d d' : δ) : (s.write d).write d' = s.write d' := by
  rcases s with ⟨_, _ | _, _⟩ <;> rfl

theorem pass_write (k : ℕ) (d : δ) : (s.write d).pass k = (s.pass k).write d := by
  rcases s with ⟨_, _ | _, _⟩ <;> rfl

theorem durable_write_of_none (hs : s.pending = none) (d : δ) : (s.write d).durable = d := by
  rw [write, hs]

@[simp] theorem struck_write (d : δ) (k : ℕ) : (s.write d).Struck k ↔ s.Struck k := by
  rcases s with ⟨_, _ | _, _⟩ <;> rfl

/-- A fault that passes `j` statements by strikes among the next ones as before. -/
theorem struck_pass {j k : ℕ} (hno : ¬s.Struck j) : (s.pass j).Struck k ↔ s.Struck (j + k) := by
  rcases s with ⟨_, _, _ | ⟨n, e⟩⟩
  · simp [Struck, pass]
  · have hn : j ≤ n := by simpa [Struck] using hno
    simp only [Struck, pass, Option.map_some, Option.any_some, decide_eq_true_eq]
    omega

theorem Struck.mono {j k : ℕ} (h : s.Struck j) (hjk : j ≤ k) : s.Struck k := by
  rcases s with ⟨_, _, _ | ⟨n, e⟩⟩
  · simp [Struck] at h
  · have hn : n < j := by simpa [Struck] using h
    simp only [Struck, Option.any_some, decide_eq_true_eq]
    omega

/-! ### One statement -/

/-- A statement that no fault strikes goes on. -/
theorem run_strike (hno : ¬s.Struck 1) :
    (strike : Action (Session δ ε) ε Unit).run s = (.ok (), s.pass 1) := by
  rcases s with ⟨_, _, _ | ⟨n, e⟩⟩
  · rfl
  · rcases n with _ | n
    · simp [Struck] at hno
    · rfl

/-- A statement that the fault strikes raises, and the fault is over. -/
theorem run_strike_of_struck (h : s.Struck 1) :
    ∃ e, (strike : Action (Session δ ε) ε Unit).run s = (.error e, { s with fault := none }) := by
  rcases s with ⟨_, _, _ | ⟨n, e⟩⟩
  · simp [Struck] at h
  · rcases n with _ | n
    · exact ⟨e, rfl⟩
    · simp [Struck] at h

/-- A read that no fault strikes. -/
theorem run_select (f : δ → α) (hno : ¬s.Struck 1) :
    (select f : Action (Session δ ε) ε α).run s = (.ok (f s.view), s.pass 1) := by
  rw [select, run_bind_ok (run_strike hno)]
  rfl

/-- A read that the fault strikes. -/
theorem run_select_of_struck (f : δ → α) (h : s.Struck 1) :
    ∃ e, (select f : Action (Session δ ε) ε α).run s = (.error e, { s with fault := none }) := by
  obtain ⟨e, hstrike⟩ := run_strike_of_struck h
  exact ⟨e, run_bind_error hstrike⟩

/-- A statement that the fault strikes writes nothing. -/
theorem run_statement_of_struck (f : δ → Except ε δ) (h : s.Struck 1) :
    ∃ e, (statement f : Action (Session δ ε) ε Unit).run s =
      (.error e, { s with fault := none }) := by
  obtain ⟨e, hstrike⟩ := run_strike_of_struck h
  exact ⟨e, run_bind_error hstrike⟩

/-- A write that no fault strikes. -/
theorem run_write (f : δ → δ) (hno : ¬s.Struck 1) :
    (statement fun d => .ok (f d) : Action (Session δ ε) ε Unit).run s =
      (.ok (), (s.pass 1).write (f s.view)) := by
  rw [statement, run_bind_ok (run_strike hno)]
  rfl

/-- Reads leave what is durable. -/
theorem keeps_durable_select (f : δ → α) :
    Keeps (·.durable) (select f : Action (Session δ ε) ε α) := by
  intro s
  by_cases hstruck : s.Struck 1
  · obtain ⟨e, hrun⟩ := run_select_of_struck f hstruck
    rw [hrun]
  · rw [run_select f hstruck]
    rfl

/-! ### Statements that succeed -/

/-- The session `s` has written `d`, in any number of statements, and come to `s'`. -/
def Wrote (s : Session δ ε) (d : δ) (s' : Session δ ε) : Prop := ∃ k, s' = (s.pass k).write d

theorem Wrote.view {d : δ} {s' : Session δ ε} (h : s.Wrote d s') : s'.view = d := by
  obtain ⟨k, rfl⟩ := h
  exact view_write d

theorem Wrote.durable {d : δ} {s' : Session δ ε} (h : s.Wrote d s') (hs : s.pending = none) :
    s'.durable = d := by
  obtain ⟨k, rfl⟩ := h
  exact durable_write_of_none (s := s.pass k) hs d

theorem Wrote.pending {d : δ} {s' : Session δ ε} (h : s.Wrote d s') (hs : s.pending = none) :
    s'.pending = none := by
  obtain ⟨k, rfl⟩ := h
  rw [write, pending_pass, hs]

/-- One stretch of statements after another. -/
theorem Wrote.trans {d d' : δ} {s' s'' : Session δ ε} (h : s.Wrote d s') (h' : s'.Wrote d' s'') :
    s.Wrote d' s'' := by
  obtain ⟨k, rfl⟩ := h
  obtain ⟨k', rfl⟩ := h'
  exact ⟨k + k', by rw [pass_write, write_write, pass_pass]⟩

/-- What a stretch of reads leaves. -/
theorem wrote_pass (k : ℕ) : s.Wrote s.view (s.pass k) := ⟨k, (write_view_pass k).symm⟩

/-- What no statement leaves. -/
theorem wrote_view : s.Wrote s.view s := by
  rcases s with ⟨_, _ | _, _ | _⟩ <;> exact ⟨0, rfl⟩

theorem strike_eq_ok {u : Unit} {s' : Session δ ε} :
    (strike : Action (Session δ ε) ε Unit).run s = (.ok u, s') → s' = s.pass 1 := by
  by_cases hstruck : s.Struck 1
  · obtain ⟨e, hrun⟩ := run_strike_of_struck hstruck
    rw [hrun]
    simp
  · rw [run_strike hstruck, Prod.mk.injEq]
    exact fun h => h.2.symm

/-- A statement that goes through has written what it says. -/
theorem statement_eq_ok {f : δ → Except ε δ} {u : Unit} {s' : Session δ ε}
    (h : (statement f).run s = (.ok u, s')) : ∃ d, f s.view = .ok d ∧ s.Wrote d s' := by
  rw [statement, bind_eq_ok] at h
  obtain ⟨_, t, hstrike, happly⟩ := h
  obtain rfl := strike_eq_ok hstrike
  rcases hf : f s.view with e | d
  · simp [apply, Action.run, hf] at happly
  · obtain rfl : (s.pass 1).write d = s' := by simpa [apply, Action.run, hf] using happly
    exact ⟨d, rfl, 1, rfl⟩

/-- A read that goes through has read what the session sees. -/
theorem select_eq_ok {f : δ → α} {a : α} {s' : Session δ ε}
    (h : (select f).run s = (.ok a, s')) : a = f s.view ∧ s.Wrote s.view s' := by
  rw [select, bind_eq_ok] at h
  obtain ⟨_, t, hstrike, hread⟩ := h
  obtain rfl := strike_eq_ok hstrike
  obtain ⟨rfl, rfl⟩ : s.pass 1 = s' ∧ f s.view = a := by simpa using hread
  exact ⟨rfl, wrote_pass 1⟩

/-- A script of writes that goes through has made all of them. -/
theorem script_eq_ok {control : Control ε} {fs : List (δ → Except ε δ)} {u : Unit}
    {s' : Session δ ε} (h : (script control (fs.map .write)).run s = (.ok u, s')) :
    ∃ d, fs.foldlM (fun d f => f d) s.view = .ok d ∧ s.Wrote d s' := by
  induction fs generalizing s with
  | nil =>
    obtain rfl : s = s' := (Prod.mk.inj h).2
    exact ⟨s.view, rfl, wrote_view⟩
  | cons f fs ih =>
    obtain ⟨_, t, hfirst, hrest⟩ := bind_eq_ok.mp h
    obtain ⟨d₁, hf, hwrote⟩ := statement_eq_ok hfirst
    obtain ⟨d, hfs, hlast⟩ := ih hrest
    rw [hwrote.view] at hfs
    refine ⟨d, ?_, hwrote.trans hlast⟩
    rw [List.foldlM_cons, hf]
    exact hfs

/-! ### Writes -/

theorem writes_cons (f : δ → δ) (fs : List (δ → δ)) :
    (writes (f :: fs) : Action (Session δ ε) ε Unit) =
      (statement fun d => .ok (f d)) >>= fun _ => writes fs := rfl

/-- **Writes that no fault strikes are all made.** -/
theorem run_writes (hno : ¬s.Struck fs.length) :
    (writes fs).run s = (.ok (), (s.pass fs.length).write (applyAll fs s.view)) := by
  induction fs generalizing s with
  | nil =>
    have hpass : s.pass 0 = s := by
      rcases s with ⟨_, _, _ | _⟩ <;> rfl
    have hview : (s.pass 0).write s.view = s := by rw [hpass, write_view]
    exact congrArg (Prod.mk _) hview.symm
  | cons f fs ih =>
    have hone : ¬s.Struck 1 := fun h => hno (h.mono (by simp))
    have hrest : ¬((s.pass 1).write (f s.view)).Struck fs.length := by
      rw [struck_write, struck_pass hone, Nat.add_comm]
      exact hno
    rw [writes_cons, run_bind_ok (run_write f hone), ih hrest, view_write, pass_write, pass_pass,
      write_write, List.length_cons, Nat.add_comm]
    rfl

/-- **Writes that the fault strikes are made up to it.** -/
theorem run_writes_of_struck (h : s.Struck fs.length) :
    ∃ n < fs.length, ∃ e, (writes fs).run s =
      (.error e, ({ s with fault := none } : Session δ ε).write (applyAll (fs.take n) s.view)) := by
  induction fs generalizing s with
  | nil =>
    rcases s with ⟨_, _, _ | _⟩ <;> simp [Struck] at h
  | cons f fs ih =>
    by_cases hone : s.Struck 1
    · obtain ⟨e, hfirst⟩ := run_statement_of_struck (fun d => .ok (f d)) hone
      refine ⟨0, by simp, e, ?_⟩
      rw [writes_cons, run_bind_error hfirst]
      exact congrArg (Prod.mk _) write_view.symm
    · have hrest : ((s.pass 1).write (f s.view)).Struck fs.length := by
        rw [struck_write, struck_pass hone, Nat.add_comm]
        exact h
      obtain ⟨n, hn, e, hrun⟩ := ih hrest
      refine ⟨n + 1, by simpa using hn, e, ?_⟩
      rw [writes_cons, run_bind_ok (run_write f hone), hrun, view_write]
      rcases s with ⟨_, _ | _, _⟩ <;> rfl

/-! ### Transactions -/

variable {nested idle : ε}

theorem run_beginTx (hs : s.pending = none) (hno : ¬s.Struck 1) :
    (beginTx nested).run s = (.ok (), { s.pass 1 with pending := some s.durable }) := by
  rw [beginTx, run_bind_ok (run_strike hno), run_bind_ok (run_get _), run_raiseIf_bind, if_neg]
  · rfl
  · simp [hs]

theorem run_commitTx {d : δ} (hs : s.pending = some d) (hno : ¬s.Struck 1) :
    (commitTx idle).run s = (.ok (), { s.pass 1 with durable := d, pending := none }) := by
  rw [commitTx, run_bind_ok (run_strike hno), run_bind_ok (run_get _), run_raiseIf_bind, if_neg]
  · simp [view, hs]
  · simp [hs]

/-- Inside a transaction the fault strikes as outside. -/
theorem struck_pending {j k : ℕ} {pending : Option δ} (hno : ¬s.Struck j) :
    ({ s.pass j with pending } : Session δ ε).Struck k ↔ s.Struck (j + k) :=
  struck_pass hno

/-- The body of a transaction that no fault has struck yet. -/
theorem run_writes_inside (hno : ¬s.Struck (1 + fs.length)) :
    (writes fs).run ({ s.pass 1 with pending := some s.durable } : Session δ ε) =
      (.ok (), { s.pass (1 + fs.length) with pending := some (applyAll fs s.durable) }) := by
  have hone : ¬s.Struck 1 := fun h => hno (h.mono (by omega))
  rw [run_writes ((struck_pending hone).not.mpr hno), ← pass_pass]
  rfl

/-- **A transaction of writes that no fault strikes makes all of them durable.** -/
theorem run_tx_writes (hs : s.pending = none) (hno : ¬s.Struck (fs.length + 2)) :
    (tx nested idle (writes fs)).run s =
      (.ok (), { s.pass (fs.length + 2) with durable := applyAll fs s.durable }) := by
  have hone : ¬s.Struck 1 := fun h => hno (h.mono (by omega))
  have hbody : ¬s.Struck (1 + fs.length) := fun h => hno (h.mono (by omega))
  have hcommit : ¬({ s.pass (1 + fs.length) with
      pending := some (applyAll fs s.durable) } : Session δ ε).Struck 1 := by
    rw [struck_pending hbody]
    exact fun h => hno (h.mono (by omega))
  rw [tx, run_bind_ok (run_beginTx hs hone),
    run_bind_ok (run_tryCatch_ok (run_writes_inside hbody)), run_bind_ok (run_commitTx rfl hcommit)]
  have hpass : (s.pass (1 + fs.length)).pass 1 = s.pass (fs.length + 2) := by
    rw [pass_pass]
    congr 1
    omega
  rw [← hpass]
  rcases s with ⟨_, _ | _, _⟩
  · rfl
  · cases hs

/-- **A transaction of writes that the fault strikes makes none of them durable.** -/
theorem durable_tx_writes_of_struck (hs : s.pending = none) (h : s.Struck (fs.length + 2)) :
    ∃ e s', (tx nested idle (writes fs)).run s = (.error e, s') ∧ s'.durable = s.durable := by
  by_cases hone : s.Struck 1
  · obtain ⟨e, hstrike⟩ := run_strike_of_struck hone
    refine ⟨e, { s with fault := none }, ?_, rfl⟩
    rw [tx, run_bind_error]
    rw [beginTx, run_bind_error hstrike]
  rw [tx, run_bind_ok (run_beginTx hs hone)]
  by_cases hbody : s.Struck (1 + fs.length)
  · obtain ⟨n, -, e, hrun⟩ := run_writes_of_struck ((struck_pending hone).mpr hbody)
    exact ⟨e, _, run_bind_error (run_tryCatch_error hrun), rfl⟩
  · rw [run_bind_ok (run_tryCatch_ok (run_writes_inside hbody))]
    -- the fault is left for the `COMMIT`
    have hcommit : ({ s.pass (1 + fs.length) with
        pending := some (applyAll fs s.durable) } : Session δ ε).Struck 1 := by
      rw [struck_pending hbody]
      exact h.mono (by omega)
    obtain ⟨e, hstrike⟩ := run_strike_of_struck hcommit
    exact ⟨e, _, run_bind_error (run_bind_error hstrike), rfl⟩

end

end Session

end Lib
