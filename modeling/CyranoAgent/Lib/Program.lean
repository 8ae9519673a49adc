import CyranoAgent.Lib.Action
import CyranoAgent.Lib.Run
import Mathlib.Logic.Function.Basic

/-!
# Programs of atomic steps, and their interleavings

A `Program` performs atomic operations on a shared state, one after the other, and goes on with
what each of them returns; an operation that raises ends it. `Program.alone` runs a program that
nothing interrupts. A `Pool` is any number of programs on one state, and `Pool.step` lets one of
them perform its next operation: the runs of `Pool.step` are the interleavings.

What a program has seen before an operation is its own past, whatever came in between.
`Program.Ensures` is the program logic over pasts, and `Pool.guarded` carries what it shows of
each program to every interleaving of them.
-/

namespace Lib

/-- A program over the operations `Op`, which answer in `Reply`. -/
inductive Program (Op : Type) (Reply : Op → Type) (ε α : Type)
  | done (result : Except ε α)
  | call (op : Op) (next : Reply op → Program Op Reply ε α)

/-- An operation that was performed, with what it returned or raised. -/
structure Access (Op : Type) (Reply : Op → Type) (ε : Type) where
  op : Op
  reply : Except ε (Reply op)

namespace Program

variable {Op : Type} {Reply : Op → Type} {ε σ α β : Type}

/-- Go on with the value of a program. -/
def andThen (next : α → Program Op Reply ε β) : Program Op Reply ε α → Program Op Reply ε β
  | .done (.ok a) => next a
  | .done (.error e) => .done (.error e)
  | .call op rest => .call op fun reply => andThen next (rest reply)

instance : Monad (Program Op Reply ε) where
  pure a := .done (.ok a)
  bind p next := p.andThen next

/-- Raise an exception. -/
def raise (e : ε) : Program Op Reply ε α := .done (.error e)

/-- `if c: raise e`. -/
def raiseIf (c : Prop) [Decidable c] (e : ε) : Program Op Reply ε Unit :=
  if c then raise e else pure ()

/-- Perform one operation. -/
def perform (op : Op) : Program Op Reply ε (Reply op) := .call op fun reply => pure reply

/-! ### A program on its own -/

section

variable (act : (op : Op) → Action σ ε (Reply op))

/-- The program, with nothing coming in between its operations. -/
def alone : Program Op Reply ε α → Action σ ε α
  | .done (.ok a) => pure a
  | .done (.error e) => throw e
  | .call op next => act op >>= fun reply => alone (next reply)

variable {act}

@[simp] theorem alone_pure (a : α) : alone act (pure a) = pure a := rfl

@[simp] theorem alone_raise (e : ε) : alone act (raise e : Program Op Reply ε α) = throw e := rfl

@[simp] theorem alone_perform (op : Op) : alone act (perform op) = act op := by
  refine Action.run_ext fun s => ?_
  change ((act op >>= fun reply => pure reply) : Action σ ε _).run s = _
  rw [Action.run_bind]
  rcases (act op).run s with ⟨_ | _, _⟩ <;> rfl

@[simp] theorem alone_bind (p : Program Op Reply ε α) (next : α → Program Op Reply ε β) :
    alone act (p >>= next) = alone act p >>= fun a => alone act (next a) := by
  induction p with
  | done result => cases result <;> rfl
  | call op rest ih =>
    change (act op >>= fun reply => alone act (rest reply >>= next)) = _
    simp only [ih]
    rw [alone, Action.then_assoc]

@[simp] theorem alone_raiseIf (c : Prop) [Decidable c] (e : ε) :
    alone act (raiseIf c e : Program Op Reply ε Unit) = Action.raiseIf c e := by
  unfold raiseIf Action.raiseIf
  split <;> rfl

end

/-! ### What a program ensures -/

section

variable {J : List (Access Op Reply ε) → Op → Prop} {Q Q' : List (Access Op Reply ε) → α → Prop}
  {past : List (Access Op Reply ε)}

/-- From its own past on, the program performs only operations that `J` allows, and what it returns
satisfies `Q`. -/
def Ensures (J : List (Access Op Reply ε) → Op → Prop)
    (Q : List (Access Op Reply ε) → α → Prop) :
    List (Access Op Reply ε) → Program Op Reply ε α → Prop
  | past, .done (.ok a) => Q past a
  | _, .done (.error _) => True
  | past, .call op next => J past op ∧ ∀ reply, Ensures J Q (past ++ [⟨op, .ok reply⟩]) (next reply)

@[simp] theorem ensures_pure {a : α} : Ensures J Q past (pure a) ↔ Q past a := Iff.rfl

@[simp] theorem ensures_raise {e : ε} : Ensures J Q past (raise e) := trivial

@[simp] theorem ensures_perform {op : Op} {Q : List (Access Op Reply ε) → Reply op → Prop} :
    Ensures J Q past (perform op) ↔ J past op ∧ ∀ reply, Q (past ++ [⟨op, .ok reply⟩]) reply :=
  Iff.rfl

/-- The rule of sequence. -/
@[simp] theorem ensures_bind {p : Program Op Reply ε β} {next : β → Program Op Reply ε α} :
    Ensures J Q past (p >>= next) ↔ Ensures J (fun past b => Ensures J Q past (next b)) past p := by
  induction p generalizing past with
  | done result => cases result <;> rfl
  | call op rest ih => exact and_congr_right fun _ => forall_congr' fun reply => ih reply

@[simp] theorem ensures_raiseIf {c : Prop} [Decidable c] {e : ε}
    {Q : List (Access Op Reply ε) → Unit → Prop} :
    Ensures J Q past (raiseIf c e) ↔ (¬c → Q past ()) := by
  unfold raiseIf
  split
  · next hc => exact iff_of_true trivial fun h => absurd hc h
  · next hc => exact ⟨fun h _ => h, fun h => h hc⟩

/-- The rule of consequence. -/
theorem Ensures.mono {p : Program Op Reply ε α} (h : Ensures J Q past p)
    (hQ : ∀ past a, Q past a → Q' past a) : Ensures J Q' past p := by
  induction p generalizing past with
  | done result =>
    cases result with
    | ok a => exact hQ past a h
    | error e => trivial
  | call op rest ih => exact ⟨h.1, fun reply => ih reply (h.2 reply)⟩

/-- The rule of iteration: what each round keeps of the past, all keep. -/
theorem ensures_forM {I : List (Access Op Reply ε) → Prop} {l : List β}
    {body : β → Program Op Reply ε PUnit}
    (hbody : ∀ b ∈ l, ∀ past, I past → Ensures J (fun past _ => I past) past (body b))
    (h0 : I past) : Ensures J (fun past _ => I past) past (l.forM body) := by
  induction l generalizing past with
  | nil => exact h0
  | cons b l ih =>
    rw [List.forall_mem_cons] at hbody
    change Ensures J _ past (body b >>= fun _ => l.forM body)
    rw [ensures_bind]
    exact (hbody.1 past h0).mono fun past _ hI => ih hbody.2 hI

end

end Program

/-! ### Interleavings -/

/-- Programs that share a state. -/
structure Pool (Op : Type) (Reply : Op → Type) (ε σ α : Type) where
  state : σ
  programs : ℕ → Program Op Reply ε α

namespace Pool

variable {Op : Type} {Reply : Op → Type} {ε σ α : Type}

/-- What is left of a program after an operation. -/
def resume {op : Op} (next : Reply op → Program Op Reply ε α) :
    Except ε (Reply op) → Program Op Reply ε α
  | .ok reply => next reply
  | .error e => .done (.error e)

/-- Program number `k` performs its next operation, if it has one. -/
def step (act : (op : Op) → Action σ ε (Reply op)) (k : ℕ) (S : Pool Op Reply ε σ α) :
    Option (Access Op Reply ε) × Pool Op Reply ε σ α :=
  match S.programs k with
  | .done _ => (none, S)
  | .call op next =>
    let out := (act op).run S.state
    (some ⟨op, out.1⟩, ⟨out.2, Function.update S.programs k (resume next out.1)⟩)

/-- One step of a history: the program that came, and the operation it performed. -/
abbrev Step (Op : Type) (Reply : Op → Type) (ε σ α : Type) :=
  Entry (Pool Op Reply ε σ α) ℕ (Option (Access Op Reply ε))

/-- The operations that program number `k` has performed. -/
def pastOf (k : ℕ) (h : List (Step Op Reply ε σ α)) : List (Access Op Reply ε) :=
  h.filterMap fun e => if e.op = k then e.reply else none

variable {act : (op : Op) → Action σ ε (Reply op)} {S₀ S : Pool Op Reply ε σ α}
  {h h₁ h₂ : List (Step Op Reply ε σ α)} {e : Step Op Reply ε σ α} {k : ℕ}

theorem mem_pastOf {access : Access Op Reply ε} :
    access ∈ pastOf k h ↔ ∃ e ∈ h, e.op = k ∧ e.reply = some access := by
  simp [pastOf]

theorem pastOf_append : pastOf k (h₁ ++ h₂) = pastOf k h₁ ++ pastOf k h₂ :=
  List.filterMap_append

/-- A past cut at one of its operations is the past of a history cut there. -/
theorem exists_of_pastOf_eq {access : Access Op Reply ε} {past₁ past₂ : List (Access Op Reply ε)}
    (hpast : pastOf k h = past₁ ++ access :: past₂) :
    ∃ h₁ e h₂, h = h₁ ++ e :: h₂ ∧ e.op = k ∧ e.reply = some access ∧ pastOf k h₁ = past₁ ∧
      pastOf k h₂ = past₂ := by
  obtain ⟨h₁, h₂, rfl, hpast₁, hrest⟩ := List.filterMap_eq_append_iff.mp hpast
  obtain ⟨g, e, h₃, rfl, hnone, hsome, hpast₂⟩ := List.filterMap_eq_cons_iff.mp hrest
  split at hsome
  · next hk =>
    refine ⟨h₁ ++ g, e, h₃, by simp, hk, hsome, ?_, hpast₂⟩
    have hg : pastOf k g = [] := List.filterMap_eq_nil_iff.mpr hnone
    rw [pastOf_append, hg, List.append_nil]
    exact hpast₁
  · cases hsome

/-- **What a step does**: nothing, or the next operation of its program. -/
theorem step_cases (act : (op : Op) → Action σ ε (Reply op)) (k : ℕ)
    (S : Pool Op Reply ε σ α) :
    step act k S = (none, S) ∨ ∃ op next, S.programs k = .call op next ∧
      step act k S = (some ⟨op, ((act op).run S.state).1⟩, ⟨((act op).run S.state).2,
        Function.update S.programs k (resume next ((act op).run S.state).1)⟩) := by
  unfold step
  split
  · exact .inl rfl
  · next op next hprogram => exact .inr ⟨op, next, hprogram, rfl⟩

/-- The operation of a step was performed on the state the step found. -/
theorem run_of_mem (hr : Run (step act) S₀ h S) (he : e ∈ h) {access : Access Op Reply ε}
    (hreply : e.reply = some access) :
    (act access.op).run e.before.state = (access.reply, e.after.state) := by
  have hperform := hr.eq_perform he
  rcases step_cases act e.op e.before with hidle | ⟨op, next, -, hstep⟩
  · rw [hperform, Entry.perform_reply, hidle] at hreply
    cases hreply
  · rw [hperform, Entry.perform_reply, hstep] at hreply
    obtain rfl := Option.some.inj hreply
    have hafter : e.after = (step act e.op e.before).2 := congrArg Entry.after hperform
    rw [hafter, hstep]

/-- A step that performs nothing changes nothing. -/
theorem after_of_none (hr : Run (step act) S₀ h S) (he : e ∈ h) (hreply : e.reply = none) :
    e.after = e.before := by
  have hperform := hr.eq_perform he
  have hafter : e.after = (step act e.op e.before).2 := congrArg Entry.after hperform
  rcases step_cases act e.op e.before with hidle | ⟨op, next, -, hstep⟩
  · rw [hafter, hidle]
  · rw [hperform, Entry.perform_reply, hstep] at hreply
    cases hreply

/-- What a program ensures from the start, its rest ensures from its past. -/
theorem ensures_of_run {J : List (Access Op Reply ε) → Op → Prop}
    (hr : Run (step act) S₀ h S)
    (hJ : ∀ k, Program.Ensures J (fun _ _ => True) [] (S₀.programs k)) (k : ℕ) :
    Program.Ensures J (fun _ _ => True) (pastOf k h) (S.programs k) := by
  refine hr.inv (I := fun h S => ∀ k, Program.Ensures J (fun _ _ => True) (pastOf k h)
    (S.programs k)) hJ ?_ k
  intro h S i _ ih k
  rw [pastOf_append]
  rcases step_cases act i S with hidle | ⟨op, next, hprogram, hstep⟩
  · have hpast : pastOf k [Entry.perform (step act) S i] = [] := by
      simp [pastOf, hidle]
    rw [hpast, List.append_nil, hidle]
    exact ih k
  rw [hstep]
  dsimp only
  by_cases hk : i = k
  · subst hk
    have hpast : pastOf i [Entry.perform (step act) S i] =
        [⟨op, ((act op).run S.state).1⟩] := by
      simp [pastOf, hstep]
    have hbefore := ih i
    rw [hprogram] at hbefore
    rw [hpast, Function.update_self]
    cases hreply : ((act op).run S.state).1 with
    | ok reply => exact hbefore.2 reply
    | error failure => trivial
  · have hpast : pastOf k [Entry.perform (step act) S i] = [] := by
      simp [pastOf, hk]
    rw [hpast, List.append_nil, Function.update_of_ne (Ne.symm hk)]
    exact ih k

/-- **In every interleaving an operation is one that its program's own past allows.** -/
theorem guarded {J : List (Access Op Reply ε) → Op → Prop}
    (hr : Run (step act) S₀ (h₁ ++ e :: h₂) S)
    (hJ : ∀ k, Program.Ensures J (fun _ _ => True) [] (S₀.programs k))
    {access : Access Op Reply ε} (hreply : e.reply = some access) :
    J (pastOf e.op h₁) access.op := by
  obtain ⟨hbefore, hperform, -⟩ := hr.split
  have hensures := ensures_of_run hbefore hJ e.op
  rcases step_cases act e.op e.before with hidle | ⟨op, next, hprogram, hstep⟩
  · rw [hperform, Entry.perform_reply, hidle] at hreply
    cases hreply
  · rw [hperform, Entry.perform_reply, hstep] at hreply
    obtain rfl := Option.some.inj hreply
    rw [hprogram] at hensures
    exact hensures.1

end Pool

end Lib
