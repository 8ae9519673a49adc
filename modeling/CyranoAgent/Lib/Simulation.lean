import CyranoAgent.Lib.Run

/-!
# Simulations between machines

Two machines with the same operations and replies. A relation between their states is a simulation
when every operation, performed in related states, replies the same and leaves related states. Then
the two answer every sequence of operations alike (`Simulation.exec`), also when operations that
the relation does not see are left out of it (`Simulation.exec_filter`), and every run of one is a
run of the other, operation by operation and reply by reply (`Simulation.run`).
-/

namespace Lib

variable {σ τ ι ο : Type} {act : ι → σ → ο × σ} {act' : ι → τ → ο × τ} {R : σ → τ → Prop}
  {s s' : σ} {t : τ}

/-- Related states reply the same, and stay related. -/
def Simulation (act : ι → σ → ο × σ) (act' : ι → τ → ο × τ) (R : σ → τ → Prop) : Prop :=
  ∀ i s t, R s t → (act i s).1 = (act' i t).1 ∧ R (act i s).2 (act' i t).2

namespace Simulation

/-- **Related machines answer alike.** -/
theorem exec (hsim : Simulation act act' R) (hst : R s t) (ops : List ι) :
    (Lib.exec act s ops).1.map (·.reply) = (Lib.exec act' t ops).1.map (·.reply) ∧
      R (Lib.exec act s ops).2 (Lib.exec act' t ops).2 := by
  induction ops generalizing s t with
  | nil => exact ⟨rfl, hst⟩
  | cons i ops ih =>
    obtain ⟨hreply, hnext⟩ := hsim i s t hst
    obtain ⟨hreplies, hend⟩ := ih hnext
    refine ⟨?_, hend⟩
    simp only [Lib.exec, List.map_cons, Entry.perform_reply, hreply, hreplies]

/-- **Operations that stutter can be left out**: when some operations of the first machine change
nothing that the relation sees, the replies to the others are those of the second machine without
them. -/
theorem exec_filter (hsim : Simulation act act' R) {keep : ι → Bool}
    (hstutter : ∀ i s t, keep i = false → R s t → R (act i s).2 t) (hst : R s t) (ops : List ι) :
    ((Lib.exec act s ops).1.filter fun entry => keep entry.op).map (·.reply) =
        (Lib.exec act' t (ops.filter keep)).1.map (·.reply) ∧
      R (Lib.exec act s ops).2 (Lib.exec act' t (ops.filter keep)).2 := by
  induction ops generalizing s t with
  | nil => exact ⟨rfl, hst⟩
  | cons i ops ih =>
    cases hkeep : keep i with
    | false =>
      rw [List.filter_cons_of_neg (by simp [hkeep])]
      obtain ⟨hreplies, hend⟩ := ih (hstutter i s t hkeep hst)
      refine ⟨?_, hend⟩
      rw [Lib.exec, List.filter_cons_of_neg (by simp [hkeep]), hreplies]
    | true =>
      rw [List.filter_cons_of_pos hkeep]
      obtain ⟨hreply, hnext⟩ := hsim i s t hst
      obtain ⟨hreplies, hend⟩ := ih hnext
      refine ⟨?_, hend⟩
      rw [Lib.exec, List.filter_cons_of_pos (by simp [hkeep])]
      simp only [Lib.exec, List.map_cons, Entry.perform_reply, hreply, hreplies]

/-- **A run of one machine is one of the other.** -/
theorem run (hsim : Simulation act act' R) (hst : R s t) {h : List (Entry σ ι ο)}
    (hr : Run act s h s') :
    ∃ h' t', Run act' t h' t' ∧ h'.map (·.op) = h.map (·.op) ∧
      h'.map (·.reply) = h.map (·.reply) ∧ R s' t' := by
  induction hr with
  | nil => exact ⟨[], t, .nil, rfl, rfl, hst⟩
  | @snoc h s' i _ ih =>
    obtain ⟨h', t', hr', hops, hreplies, hrel⟩ := ih
    obtain ⟨hreply, hnext⟩ := hsim i s' t' hrel
    refine ⟨_, _, hr'.snoc i, ?_, ?_, hnext⟩
    · simp [hops]
    · simp [hreplies, hreply]

end Simulation

end Lib
