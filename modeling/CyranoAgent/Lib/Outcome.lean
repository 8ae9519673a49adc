import Mathlib.Data.List.Forall2
import Mathlib.Tactic.Common

/-!
# Outcomes

An outcome is a value or a failure, `Except ε α`. A sequence of outcomes succeeds when each of them
does, and a list of them when each of its members does (`mapM_eq_ok`, `forM_eq_ok`,
`exists_foldlM_eq_ok`).
-/

namespace Lib

section

variable {ε α β : Type} {R : α → β → Prop} {l : List α} {l' : List β} {a : α} {b : β}

/-- A sequence of outcomes succeeds when both do. -/
theorem except_bind_eq_ok {x : Except ε α} {f : α → Except ε β} :
    (x >>= f) = .ok b ↔ ∃ a, x = .ok a ∧ f a = .ok b := by
  rcases x with e | a <;> simp [bind, Except.bind]

theorem except_map_eq_ok {x : Except ε α} {f : α → β} :
    x.map f = .ok b ↔ ∃ a, x = .ok a ∧ f a = b := by
  rcases x with e | a <;> simp [Except.map]

theorem except_seq_eq_ok {x y : Except ε Unit} :
    (x >>= fun _ => y) = .ok () ↔ x = .ok () ∧ y = .ok () := by
  rw [except_bind_eq_ok]
  exact ⟨fun ⟨_, hx, hy⟩ => ⟨hx, hy⟩, fun ⟨hx, hy⟩ => ⟨(), hx, hy⟩⟩

theorem forM_eq_ok {f : α → Except ε Unit} : l.forM f = .ok () ↔ ∀ a ∈ l, f a = .ok () := by
  rw [List.forM_eq_forM]
  induction l with
  | nil => simp [pure, Except.pure]
  | cons a l ih => rw [List.forM_cons, except_seq_eq_ok, ih, List.forall_mem_cons]

/-- Fail under a condition. -/
def rejectIf (c : Prop) [Decidable c] (e : ε) : Except ε Unit := if c then .error e else .ok ()

theorem rejectIf_eq_ok {c : Prop} [Decidable c] {e : ε} {u : Unit} :
    rejectIf c e = .ok u ↔ ¬c := by
  rw [rejectIf]
  split <;> simp_all

/-- A fold succeeds when each of its steps can, wherever it starts. -/
theorem exists_foldlM_eq_ok {σ : Type} {f : σ → α → Except ε σ} {p : α → Prop} {s : σ}
    (h : ∀ a ∈ l, ∀ s, (∃ s', f s a = .ok s') ↔ p a) :
    (∃ s', l.foldlM f s = .ok s') ↔ ∀ a ∈ l, p a := by
  induction l generalizing s with
  | nil => simp [pure, Except.pure]
  | cons a l ih =>
    rw [List.forall_mem_cons] at h ⊢
    simp only [List.foldlM_cons, except_bind_eq_ok]
    rw [exists_comm, ← h.1 s]
    simp only [exists_and_left, ih h.2, exists_and_right]

/-- A list is mapped without an error when every element is. -/
theorem mapM_eq_ok {f : α → Except ε β} :
    l.mapM f = .ok l' ↔ List.Forall₂ (fun a b => f a = .ok b) l l' := by
  induction l generalizing l' with
  | nil =>
    rw [List.mapM_nil, List.forall₂_nil_left_iff]
    exact ⟨fun h => (Except.ok.inj h).symm, fun h => congrArg Except.ok h.symm⟩
  | cons a l ih =>
    rw [List.mapM_cons, except_bind_eq_ok]
    constructor
    · rintro ⟨b, hb, h⟩
      obtain ⟨bs, hbs, h⟩ := except_bind_eq_ok.mp h
      obtain rfl := Except.ok.inj h
      exact .cons hb (ih.mp hbs)
    · rintro (_ | ⟨hb, hbs⟩)
      exact ⟨_, hb, except_bind_eq_ok.mpr ⟨_, ih.mpr hbs, rfl⟩⟩

/-- A list can be mapped when each of its members can. -/
theorem exists_mapM_eq_ok {f : α → Except ε β} :
    (∃ l', l.mapM f = .ok l') ↔ ∀ a ∈ l, ∃ b, f a = .ok b := by
  simp only [mapM_eq_ok]
  induction l with
  | nil => simp
  | cons a l ih => simp [List.forall₂_cons_left_iff, ih]

/-- A list fails as it does under another function that fails on the same members. -/
theorem mapM_eq_error {f g : α → Except ε β} {e : ε}
    (hsame : ∀ a ∈ l, ∀ e, f a = .error e → g a = .error e)
    (hok : ∀ a ∈ l, ∀ b, f a = .ok b → ∃ b', g a = .ok b') (h : l.mapM f = .error e) :
    l.mapM g = .error e := by
  induction l with
  | nil => cases h
  | cons a l ih =>
    rw [List.mapM_cons] at h ⊢
    rw [List.forall_mem_cons] at hsame hok
    rcases hf : f a with e' | b
    · rw [hf] at h
      rw [hsame.1 e' hf]
      exact h
    · obtain ⟨b', hb'⟩ := hok.1 b hf
      rw [hf] at h
      rw [hb']
      rcases hrest : l.mapM f with e' | bs
      · rw [hrest] at h
        obtain rfl := Except.error.inj h
        rw [ih hsame.2 hok.2 hrest]
        rfl
      · rw [hrest] at h
        cases h

theorem exists_of_mem_left (h : List.Forall₂ R l l') (ha : a ∈ l) : ∃ b ∈ l', R a b := by
  induction h with
  | nil => cases ha
  | cons hab _ ih =>
    rcases List.mem_cons.mp ha with rfl | ha
    · exact ⟨_, List.mem_cons_self, hab⟩
    · obtain ⟨b, hb, hR⟩ := ih ha
      exact ⟨b, List.mem_cons_of_mem _ hb, hR⟩

/-- Related lists are related place by place. -/
theorem exists_of_getElem? (h : List.Forall₂ R l l') {i : ℕ} (ha : l[i]? = some a) :
    ∃ b, l'[i]? = some b ∧ R a b := by
  induction h generalizing i with
  | nil => cases ha
  | @cons a' b' _ _ hab _ ih =>
    cases i with
    | zero =>
      obtain rfl := Option.some.inj ha
      exact ⟨b', rfl, hab⟩
    | succ i => exact ih ha

theorem exists_of_mem_right (h : List.Forall₂ R l l') (hb : b ∈ l') : ∃ a ∈ l, R a b := by
  obtain ⟨a, ha, hR⟩ := exists_of_mem_left h.flip hb
  exact ⟨a, ha, hR⟩

end

end Lib
