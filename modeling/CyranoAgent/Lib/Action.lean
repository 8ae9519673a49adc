import CyranoAgent.Lib.Outcome
import Mathlib.Tactic.Common

/-!
# Fallible actions on a state, and transactions

An `Action σ ε α` reads and writes a state `σ` and ends in a value or in a failure. A
failure does **not** undo the writes made before it: it is the `transaction` combinator that
restores the state its body started from. Atomicity is therefore a theorem about the
combinator (`run_transaction_error`), not a feature of the monad.

Two sets of rules follow. The `…_eq_ok` lemmas invert a successful run statement by
statement, so that `simp` turns it into the conditions the code checked and the writes it
made. `Atomic` says that a failure leaves the state alone; transactions are atomic, and a
read-only prefix does not spoil it (`Atomic.bind`).
-/

namespace Lib

/-- A fallible computation on a state of type `σ`. The state comes back on both exits. -/
def Action (σ ε α : Type) : Type := σ → Except ε α × σ

namespace Action

variable {σ ε α β : Type}

/-- The outcome of an action started from `s`, with the state it leaves. -/
def run (act : Action σ ε α) (s : σ) : Except ε α × σ := act s

instance : Monad (Action σ ε) where
  pure a := fun s => (.ok a, s)
  bind act next := fun s =>
    match act s with
    | (.ok a, s') => next a s'
    | (.error e, s') => (.error e, s')

instance : MonadStateOf σ (Action σ ε) where
  get := fun s => (.ok s, s)
  set s := fun _ => (.ok (), s)
  modifyGet f := fun s => (.ok (f s).1, (f s).2)

instance : MonadExceptOf ε (Action σ ε) where
  throw e := fun s => (.error e, s)
  tryCatch act handler := fun s =>
    match act s with
    | (.ok a, s') => (.ok a, s')
    | (.error e, s') => handler e s'

/-- Lift an outcome that does not touch the state. -/
def lift : Except ε α → Action σ ε α
  | .ok a => pure a
  | .error e => throw e

/-- `if c: raise e`. -/
def raiseIf (c : Prop) [Decidable c] (e : ε) : Action σ ε Unit :=
  if c then throw e else pure ()

/-- Run an action on a part of the state. -/
def zoom {τ : Type} (part : σ → τ) (put : τ → σ → σ) (act : Action τ ε α) : Action σ ε α := fun s =>
  ((act (part s)).1, put (act (part s)).2 s)

/-- Run `act` and put the starting state back when it fails. -/
def transaction (act : Action σ ε α) : Action σ ε α := fun s =>
  match act s with
  | (.ok a, s') => (.ok a, s')
  | (.error e, _) => (.error e, s)

/-! ### Running the primitives -/

@[simp] theorem run_pure (a : α) (s : σ) : (pure a : Action σ ε α).run s = (.ok a, s) := rfl

@[simp] theorem run_throw (e : ε) (s : σ) :
    (throw e : Action σ ε α).run s = (.error e, s) := rfl

@[simp] theorem run_get (s : σ) : (get : Action σ ε σ).run s = (.ok s, s) := rfl

@[simp] theorem run_set (t s : σ) : (set t : Action σ ε PUnit).run s = (.ok (), t) := rfl

@[simp] theorem run_modify (f : σ → σ) (s : σ) :
    (modify f : Action σ ε PUnit).run s = (.ok (), f s) := rfl

@[simp] theorem run_lift_ok (a : α) (s : σ) :
    (lift (.ok a) : Action σ ε α).run s = (.ok a, s) := rfl

@[simp] theorem run_lift_error (e : ε) (s : σ) :
    (lift (.error e) : Action σ ε α).run s = (.error e, s) := rfl

theorem run_bind (act : Action σ ε α) (next : α → Action σ ε β) (s : σ) :
    (act >>= next).run s =
      match act.run s with
      | (.ok a, s') => (next a).run s'
      | (.error e, s') => (.error e, s') := rfl

theorem run_ite (c : Prop) [Decidable c] (a b : Action σ ε α) (s : σ) :
    (if c then a else b).run s = if c then a.run s else b.run s := by
  split <;> rfl

theorem run_raiseIf_bind (c : Prop) [Decidable c] (e : ε) (next : Unit → Action σ ε β) (s : σ) :
    (raiseIf c e >>= next).run s = if c then (.error e, s) else (next ()).run s := by
  by_cases hc : c <;> simp [raiseIf, hc, run_bind]

/-- A check that is passed. -/
theorem run_raiseIf_skip {c : Prop} [Decidable c] {e : ε} {next : Unit → Action σ ε β} {s : σ}
    (h : ¬c) : (raiseIf c e >>= next).run s = (next ()).run s := by
  rw [run_raiseIf_bind, if_neg h]

@[simp] theorem run_map (f : α → β) (act : Action σ ε α) (s : σ) :
    (f <$> act).run s = ((act.run s).1.map f, (act.run s).2) := by
  change (act >>= fun a => pure (f a)).run s = _
  rw [run_bind]
  rcases act.run s with ⟨_ | _, _⟩ <;> rfl

theorem run_zoom {τ : Type} (part : σ → τ) (put : τ → σ → σ) (act : Action τ ε α) (s : σ) :
    (zoom part put act).run s = ((act.run (part s)).1, put (act.run (part s)).2 s) := rfl

theorem run_ext {act act' : Action σ ε α} (h : ∀ s, act.run s = act'.run s) : act = act' :=
  funext h

/-! ### Rearranging a sequence

The monad laws, as lemmas to rewrite with: an instance of `LawfulMonad` would let `simp` turn
the statements that the `…_eq_ok` lemmas invert into maps. -/

theorem pure_then (a : α) (next : α → Action σ ε β) : pure a >>= next = next a := rfl

theorem then_assoc {γ : Type} (act : Action σ ε α) (next : α → Action σ ε β)
    (last : β → Action σ ε γ) : act >>= next >>= last = act >>= fun a => next a >>= last := by
  refine run_ext fun s => ?_
  simp only [run_bind]
  rcases act.run s with ⟨_ | _, _⟩ <;> rfl

theorem map_eq_then (f : α → β) (act : Action σ ε α) :
    f <$> act = act >>= fun a => pure (f a) := rfl

/-- What follows an action that succeeded. -/
theorem run_bind_ok {act : Action σ ε α} {next : α → Action σ ε β} {s s' : σ} {a : α}
    (h : act.run s = (.ok a, s')) : (act >>= next).run s = (next a).run s' := by
  rw [run_bind, h]

/-- An action that failed ends the sequence. -/
theorem run_bind_error {act : Action σ ε α} {next : α → Action σ ε β} {s s' : σ} {e : ε}
    (h : act.run s = (.error e, s')) : (act >>= next).run s = (.error e, s') := by
  rw [run_bind, h]

theorem run_tryCatch (act : Action σ ε α) (handler : ε → Action σ ε α) (s : σ) :
    (tryCatch act handler).run s =
      match act.run s with
      | (.ok a, s') => (.ok a, s')
      | (.error e, s') => (handler e).run s' := rfl

/-- A handler is not asked after an action that succeeded. -/
theorem run_tryCatch_ok {act : Action σ ε α} {handler : ε → Action σ ε α} {s s' : σ} {a : α}
    (h : act.run s = (.ok a, s')) : (tryCatch act handler).run s = (.ok a, s') := by
  rw [run_tryCatch, h]

/-- After an action that failed, the handler goes on from the state it left. -/
theorem run_tryCatch_error {act : Action σ ε α} {handler : ε → Action σ ε α} {s s' : σ} {e : ε}
    (h : act.run s = (.error e, s')) : (tryCatch act handler).run s = (handler e).run s' := by
  rw [run_tryCatch, h]

/-! ### When an action succeeds

The `…_eq_ok` lemmas turn "this action succeeds with this result" into what its statements
require, one statement at a time. -/

section Success

variable {s s' : σ} {a : α} {b : β}

@[simp] theorem bind_eq_ok {act : Action σ ε α} {next : α → Action σ ε β} :
    (act >>= next).run s = (.ok b, s') ↔
      ∃ a t, act.run s = (.ok a, t) ∧ (next a).run t = (.ok b, s') := by
  rw [run_bind]
  rcases act.run s with ⟨_ | _, _⟩ <;> simp

@[simp] theorem lift_eq_ok {x : Except ε α} :
    (lift x : Action σ ε α).run s = (.ok a, s') ↔ x = .ok a ∧ s = s' := by
  cases x <;> simp

@[simp] theorem ite_eq_ok {c : Prop} [Decidable c] {act act' : Action σ ε α} :
    (if c then act else act').run s = (.ok a, s') ↔
      (c ∧ act.run s = (.ok a, s')) ∨ (¬c ∧ act'.run s = (.ok a, s')) := by
  split <;> simp_all

@[simp] theorem raiseIf_eq_ok {c : Prop} [Decidable c] {e : ε} {u : Unit} :
    (raiseIf c e : Action σ ε Unit).run s = (.ok u, s') ↔ ¬c ∧ s = s' := by
  by_cases hc : c <;> simp [raiseIf, hc]

@[simp] theorem map_eq_ok {f : α → β} {act : Action σ ε α} :
    (f <$> act).run s = (.ok b, s') ↔ ∃ a, act.run s = (.ok a, s') ∧ f a = b := by
  rw [run_map]
  rcases act.run s with ⟨_ | _, _⟩ <;> simp [Except.map, and_comm]

@[simp] theorem map_eq_error {f : α → β} {act : Action σ ε α} {e : ε} :
    (f <$> act).run s = (.error e, s') ↔ act.run s = (.error e, s') := by
  rw [run_map]
  rcases act.run s with ⟨_ | _, _⟩ <;> simp [Except.map]

@[simp] theorem tryCatch_eq_ok {act : Action σ ε α} {handler : ε → Action σ ε α} :
    (tryCatch act handler).run s = (.ok a, s') ↔
      act.run s = (.ok a, s') ∨
        ∃ e t, act.run s = (.error e, t) ∧ (handler e).run t = (.ok a, s') := by
  rw [run_tryCatch]
  rcases act.run s with ⟨_ | _, _⟩ <;> simp

/-- A handler that always raises lets only what succeeded through. -/
theorem eq_ok_of_reraise {act : Action σ ε α} {handler : ε → Action σ ε α}
    (hraise : ∀ e t, ∃ e', ((handler e).run t).1 = .error e')
    (h : (tryCatch act handler).run s = (.ok a, s')) : act.run s = (.ok a, s') := by
  rcases tryCatch_eq_ok.mp h with hact | ⟨e, t, -, hhandler⟩
  · exact hact
  · obtain ⟨e', he'⟩ := hraise e t
    rw [hhandler] at he'
    cases he'

end Success

/-! ### Transactions -/

theorem run_transaction (act : Action σ ε α) (s : σ) :
    (transaction act).run s =
      match act.run s with
      | (.ok a, s') => (.ok a, s')
      | (.error e, _) => (.error e, s) := rfl

/-- **A failed transaction changes nothing**, whatever its body wrote before failing. -/
theorem run_transaction_error {act : Action σ ε α} {s s' : σ} {e : ε}
    (h : (transaction act).run s = (.error e, s')) : s' = s := by
  rw [run_transaction] at h
  split at h
  · simp at h
  · exact (Prod.mk.inj h).2.symm

/-- A transaction commits exactly when its body succeeds, with the body's result. -/
@[simp] theorem transaction_eq_ok {act : Action σ ε α} {s s' : σ} {a : α} :
    (transaction act).run s = (.ok a, s') ↔ act.run s = (.ok a, s') := by
  rw [run_transaction]
  rcases h : act.run s with ⟨_ | b, t⟩ <;> simp

/-! ### Atomic and read-only actions -/

/-- A failure leaves the state as it was. -/
def Atomic (act : Action σ ε α) : Prop :=
  ∀ {s s' : σ} {e : ε}, act.run s = (.error e, s') → s' = s

/-- The state is left as it was on both exits. -/
def ReadOnly (act : Action σ ε α) : Prop := ∀ s, (act.run s).2 = s

theorem atomic_transaction (act : Action σ ε α) : Atomic (transaction act) :=
  run_transaction_error

theorem ReadOnly.atomic {act : Action σ ε α} (h : ReadOnly act) : Atomic act := by
  intro s s' e heq
  rw [← h s, heq]

theorem readOnly_pure (a : α) : ReadOnly (pure a : Action σ ε α) := fun _ => rfl

theorem readOnly_throw (e : ε) : ReadOnly (throw e : Action σ ε α) := fun _ => rfl

theorem readOnly_get : ReadOnly (get : Action σ ε σ) := fun _ => rfl

theorem readOnly_raiseIf (c : Prop) [Decidable c] (e : ε) :
    ReadOnly (raiseIf c e : Action σ ε Unit) := by
  intro s
  by_cases hc : c <;> simp [raiseIf, hc]

theorem readOnly_lift (x : Except ε α) : ReadOnly (lift x : Action σ ε α) := by
  cases x <;> exact fun _ => rfl

theorem ReadOnly.bind {act : Action σ ε α} {next : α → Action σ ε β} (h : ReadOnly act)
    (hnext : ∀ a, ReadOnly (next a)) : ReadOnly (act >>= next) := by
  intro s
  have hs := h s
  rw [run_bind]
  rcases hr : act.run s with ⟨_ | a, t⟩ <;> rw [hr] at hs
  · exact hs
  · exact (hnext a t).trans hs

/-- What follows a read-only prefix decides whether the whole is atomic. -/
theorem Atomic.bind {act : Action σ ε α} {next : α → Action σ ε β} (h : ReadOnly act)
    (hnext : ∀ a, Atomic (next a)) : Atomic (act >>= next) := by
  intro s s' e heq
  have hs := h s
  rw [run_bind] at heq
  rcases hr : act.run s with ⟨_ | a, t⟩ <;> rw [hr] at hs heq
  · exact (Prod.mk.inj heq).2.symm.trans hs
  · exact (hnext a heq).trans hs

theorem Atomic.ite {c : Prop} [Decidable c] {act act' : Action σ ε α} (h : Atomic act)
    (h' : Atomic act') : Atomic (if c then act else act') := by
  split
  · exact h
  · exact h'

theorem Atomic.map {f : α → β} {act : Action σ ε α} (h : Atomic act) : Atomic (f <$> act) := by
  intro s s' e heq
  exact h (map_eq_error.mp heq)

/-- An atomic action whose value is only repackaged stays atomic. -/
theorem Atomic.bind_pure {f : α → β} {act : Action σ ε α} (h : Atomic act) :
    Atomic (act >>= fun a => pure (f a)) := h.map

/-! ### Frames -/

/-- The part `f` of the state is the same on both exits. -/
def Keeps {τ : Type} (f : σ → τ) (act : Action σ ε α) : Prop := ∀ s, f (act.run s).2 = f s

theorem ReadOnly.keeps {τ : Type} {f : σ → τ} {act : Action σ ε α} (h : ReadOnly act) :
    Keeps f act := fun s => congrArg f (h s)

theorem keeps_modify {τ : Type} {f : σ → τ} {g : σ → σ} (h : ∀ s, f (g s) = f s) :
    Keeps f (modify g : Action σ ε PUnit) := h

theorem Keeps.transaction {τ : Type} {f : σ → τ} {act : Action σ ε α} (h : Keeps f act) :
    Keeps f (Action.transaction act) := by
  intro s
  have hs := h s
  rw [run_transaction]
  rcases hr : act.run s with ⟨e | a, t⟩
  · rfl
  · rwa [hr] at hs

/-- What follows an action keeps the part of the state the action left. -/
theorem keeps_run_bind {τ : Type} {f : σ → τ} {act : Action σ ε α} {next : α → Action σ ε β}
    (hnext : ∀ a, Keeps f (next a)) (s : σ) :
    f ((act >>= next).run s).2 = f (act.run s).2 := by
  rw [run_bind]
  rcases act.run s with ⟨_ | a, t⟩
  · rfl
  · exact hnext a t

theorem Keeps.bind {τ : Type} {f : σ → τ} {act : Action σ ε α} {next : α → Action σ ε β}
    (h : Keeps f act) (hnext : ∀ a, Keeps f (next a)) : Keeps f (act >>= next) :=
  fun s => (keeps_run_bind hnext s).trans (h s)

theorem Keeps.map {τ : Type} {f : σ → τ} {g : α → β} {act : Action σ ε α} (h : Keeps f act) :
    Keeps f (g <$> act) := by
  intro s
  rw [run_map]
  exact h s

/-! ### Invariants -/

/-- The invariant survives the action, on both exits. -/
def Preserves (I : σ → Prop) (act : Action σ ε α) : Prop := ∀ s, I s → I (act.run s).2

variable {I : σ → Prop}

theorem ReadOnly.preserves {act : Action σ ε α} (h : ReadOnly act) : Preserves I act :=
  fun s hs => by rwa [h s]

theorem preserves_modify {g : σ → σ} (h : ∀ s, I s → I (g s)) :
    Preserves I (modify g : Action σ ε PUnit) := h

theorem Preserves.bind {act : Action σ ε α} {next : α → Action σ ε β} (h : Preserves I act)
    (hnext : ∀ a, Preserves I (next a)) : Preserves I (act >>= next) := by
  intro s hs
  have hs' := h s hs
  rw [run_bind]
  rcases hr : act.run s with ⟨e | a, t⟩ <;> rw [hr] at hs'
  · exact hs'
  · exact hnext a t hs'

/-- An invariant of what stays the same survives. -/
theorem Keeps.preserves {τ : Type} {f : σ → τ} {act : Action σ ε α} (h : Keeps f act)
    (hI : ∀ s s', f s' = f s → I s → I s') : Preserves I act :=
  fun s hs => hI s _ (h s) hs

theorem Preserves.transaction {act : Action σ ε α} (h : Preserves I act) :
    Preserves I (Action.transaction act) := by
  intro s hs
  have hs' := h s hs
  rw [run_transaction]
  rcases hr : act.run s with ⟨e | a, t⟩ <;> rw [hr] at hs'
  · exact hs
  · exact hs'

theorem Preserves.of_map {f : α → β} {act : Action σ ε α} (h : Preserves I (f <$> act)) :
    Preserves I act := by
  intro s hs
  have hs' := h s hs
  rwa [run_map] at hs'

theorem Preserves.map {f : α → β} {act : Action σ ε α} (h : Preserves I act) :
    Preserves I (f <$> act) := by
  intro s hs
  rw [run_map]
  exact h s hs

theorem preserves_forM {l : List β} {body : β → Action σ ε PUnit}
    (h : ∀ b, Preserves I (body b)) : Preserves I (l.forM body) := by
  induction l with
  | nil => exact (readOnly_pure _).preserves
  | cons b l ih => exact (h b).bind fun _ => ih

/-! ### What an action may raise -/

/-- Every failure of the action satisfies `p`. -/
def RaisesOnly (p : ε → Prop) (act : Action σ ε α) : Prop :=
  ∀ s s' e, act.run s = (.error e, s') → p e

section

variable {p : ε → Prop}

theorem raisesOnly_pure (a : α) : RaisesOnly p (pure a : Action σ ε α) := nofun

theorem raisesOnly_get : RaisesOnly p (get : Action σ ε σ) := nofun

theorem raisesOnly_modify (f : σ → σ) : RaisesOnly p (modify f : Action σ ε PUnit) := nofun

theorem raisesOnly_throw {e : ε} (he : p e) : RaisesOnly p (throw e : Action σ ε α) := by
  rintro s s' e' ⟨⟩
  exact he

theorem raisesOnly_raiseIf {c : Prop} [Decidable c] {e : ε} (he : p e) :
    RaisesOnly p (raiseIf c e : Action σ ε Unit) := by
  unfold raiseIf
  split
  · exact raisesOnly_throw he
  · exact raisesOnly_pure ()

theorem raisesOnly_lift {x : Except ε α} (hx : ∀ e, x = .error e → p e) :
    RaisesOnly p (lift x : Action σ ε α) := by
  cases x with
  | error e => exact raisesOnly_throw (hx e rfl)
  | ok a => exact raisesOnly_pure a

theorem RaisesOnly.bind {act : Action σ ε α} {next : α → Action σ ε β} (h : RaisesOnly p act)
    (hnext : ∀ a, RaisesOnly p (next a)) : RaisesOnly p (act >>= next) := by
  intro s s' e heq
  rw [run_bind] at heq
  rcases hr : act.run s with ⟨e' | a, t⟩ <;> rw [hr] at heq
  · obtain rfl : e' = e := Except.error.inj (Prod.mk.inj heq).1
    exact h s t e' hr
  · exact hnext a t s' e heq

theorem RaisesOnly.ite {c : Prop} [Decidable c] {act act' : Action σ ε α} (h : RaisesOnly p act)
    (h' : RaisesOnly p act') : RaisesOnly p (if c then act else act') := by
  split
  · exact h
  · exact h'

end

end Action

end Lib
