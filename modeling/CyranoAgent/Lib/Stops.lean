import CyranoAgent.Lib.Program

/-!
# Programs that are stopped

A program may be stopped before any of its operations, by a crash or by whoever runs it.
`Program.stopped n` is what is left of it after its first `n` operations, with the state then.

`Performs` says which operations a program performs, whatever they answer. `stopped_inv` carries an
invariant of these operations to wherever the program is stopped; `stopped_bind_cases` and
`exists_stopped_bind` say where a sequence is stopped.
-/

namespace Lib

namespace Program

variable {Op : Type} {Reply : Op → Type} {ε σ α β : Type}

section

variable (act : (op : Op) → Action σ ε (Reply op))

/-- What is left of a program after its first operations, and the state they leave. -/
def stopped : ℕ → Program Op Reply ε α → σ → Program Op Reply ε α × σ
  | 0, p, s => (p, s)
  | _ + 1, .done result, s => (.done result, s)
  | n + 1, .call op next, s =>
    match (act op).run s with
    | (.ok reply, t) => stopped n (next reply) t
    | (.error e, t) => (.done (.error e), t)

end

variable {act : (op : Op) → Action σ ε (Reply op)} {s t : σ} {a : α}

@[simp] theorem stopped_done (n : ℕ) (result : Except ε α) (s : σ) :
    stopped act n (.done result) s = (.done result, s) := by
  cases n <;> rfl

/-- The program performs operations of `A` only. -/
def Performs (A : Op → Prop) : Program Op Reply ε α → Prop
  | .done _ => True
  | .call op next => A op ∧ ∀ reply, Performs A (next reply)

variable {A : Op → Prop}

@[simp] theorem performs_done {result : Except ε α} :
    Performs A (.done result : Program Op Reply ε α) := trivial

@[simp] theorem performs_pure {a : α} : Performs A (pure a : Program Op Reply ε α) := trivial

@[simp] theorem performs_call {op : Op} {next : Reply op → Program Op Reply ε α} :
    Performs A (.call op next) ↔ A op ∧ ∀ reply, Performs A (next reply) := Iff.rfl

@[simp] theorem performs_raiseIf {c : Prop} [Decidable c] {e : ε} :
    Performs A (raiseIf c e : Program Op Reply ε Unit) := by
  unfold raiseIf
  split <;> trivial

theorem Performs.bind {p : Program Op Reply ε α} {next : α → Program Op Reply ε β}
    (hp : Performs A p) (hnext : ∀ a, Performs A (next a)) : Performs A (p >>= next) := by
  induction p with
  | done result =>
    cases result with
    | ok a => exact hnext a
    | error e => trivial
  | call op rest ih => exact ⟨hp.1, fun reply => ih reply (hp.2 reply)⟩

theorem performs_forM {l : List β} {body : β → Program Op Reply ε PUnit}
    (h : ∀ b ∈ l, Performs A (body b)) : Performs A (l.forM body) := by
  induction l with
  | nil => trivial
  | cons b l ih =>
    rw [List.forall_mem_cons] at h
    exact h.1.bind fun _ => ih h.2

/-- **The rule of stopping**: what the operations of a program keep, holds wherever it stops. -/
theorem stopped_inv {I : σ → Prop} {p : Program Op Reply ε α} (hp : Performs A p)
    (hstep : ∀ op s, A op → I s → I ((act op).run s).2) (hs : I s) (n : ℕ) :
    I (stopped act n p s).2 := by
  induction n generalizing p s with
  | zero => exact hs
  | succ n ih =>
    cases p with
    | done result => exact hs
    | call op next =>
      have hnext := hstep op s hp.1 hs
      rw [stopped]
      rcases hrun : (act op).run s with ⟨_ | reply, t⟩ <;> rw [hrun] at hnext
      · exact hnext
      · exact ih (hp.2 reply) hnext

/-- A sequence is stopped in its first part, or after it. -/
theorem stopped_bind_cases (p : Program Op Reply ε α) (next : α → Program Op Reply ε β) (s : σ)
    (n : ℕ) :
    (stopped act n (p >>= next) s).2 = (stopped act n p s).2 ∨
      ∃ m a t, (alone act p).run s = (.ok a, t) ∧
        stopped act n (p >>= next) s = stopped act m (next a) t := by
  induction p generalizing s n with
  | done result =>
    cases result with
    | ok a => exact .inr ⟨n, a, s, rfl, rfl⟩
    | error e =>
      left
      change (stopped act n (.done (.error e)) s).2 = _
      rw [stopped_done, stopped_done]
  | call op rest ih =>
    cases n with
    | zero => exact .inl rfl
    | succ n =>
      change (stopped act (n + 1) (.call op fun reply => rest reply >>= next) s).2 = _ ∨ _
      change _ ∨ ∃ m a t, (act op >>= fun reply => alone act (rest reply)).run s = _ ∧
        stopped act (n + 1) (.call op fun reply => rest reply >>= next) s = _
      rw [stopped, stopped, Action.run_bind]
      rcases (act op).run s with ⟨e | reply, t⟩
      · exact .inl rfl
      · exact ih reply t n

/-- A sequence can be stopped wherever its second part can. -/
theorem exists_stopped_bind {p : Program Op Reply ε α} (next : α → Program Op Reply ε β)
    (h : (alone act p).run s = (.ok a, t)) :
    ∃ n, ∀ m, stopped act (n + m) (p >>= next) s = stopped act m (next a) t := by
  induction p generalizing s with
  | done result =>
    cases result with
    | ok b =>
      obtain ⟨hb, rfl⟩ := Prod.mk.inj h
      obtain rfl := Except.ok.inj hb
      exact ⟨0, fun m => by rw [Nat.zero_add]; rfl⟩
    | error e => cases h
  | call op rest ih =>
    change (act op >>= fun reply => alone act (rest reply)).run s = _ at h
    obtain ⟨reply, r, hop, hrest⟩ := Action.bind_eq_ok.mp h
    obtain ⟨n, hn⟩ := ih reply hrest
    refine ⟨n + 1, fun m => ?_⟩
    rw [← hn m, Nat.add_right_comm]
    change stopped act (n + m + 1) (.call op fun reply => rest reply >>= next) s = _
    rw [stopped, hop]

end Program

end Lib
