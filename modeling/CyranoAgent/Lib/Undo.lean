import Mathlib.Logic.Function.Basic
import Mathlib.Tactic.Common

/-!
# Undoing writes row by row

A journal of writes has one row for each of them: the cell that was written, what was in it before,
and a mark of what was written. `undo` goes through the rows in their order and puts the earlier
contents back where the cell still has the mark, and keeps the other rows aside.

Each cell goes its own way (`undo_cell`): either all its rows match in turn, and it ends as it was
before the last of them, or one of them is kept aside. `cellRows` are the rows of the writes to a
cell, some of which fail and leave anything.
-/

namespace Lib

/-- A row of a journal: the cell, its contents before the write, and the mark of what was written.
-/
structure UndoRow (K α β : Type) where
  cell : K
  before : α
  mark : β
  deriving DecidableEq

namespace UndoRow

variable {K α β : Type}

section

variable [DecidableEq K] [DecidableEq β] (mark : α → β)

/-- Undo the rows in their order: the contents that are left, and the rows that did not match. -/
def undo (c : K → α) : List (UndoRow K α β) → (K → α) × List (UndoRow K α β)
  | [] => (c, [])
  | row :: rows =>
    if mark (c row.cell) = row.mark then undo (Function.update c row.cell row.before) rows
    else ((undo c rows).1, row :: (undo c rows).2)

end

variable (mark : α → β)

/-- The rows match in turn, from the contents `a` of their cell on. -/
def Matches (a : α) : List (UndoRow K α β) → Prop
  | [] => True
  | row :: rows => mark a = row.mark ∧ Matches row.before rows

/-- What a cell of contents `a` holds, as its rows are undone one after the other. -/
def undone (a : α) (rows : List (UndoRow K α β)) : List α := a :: rows.map UndoRow.before

/-- The rows of the writes to a cell that held `a`: each write left its contents, and has a row if
it went through. -/
def cellRows (k : K) (a : α) : List (Bool × α) → List (UndoRow K α β)
  | [] => []
  | (true, b) :: writes => ⟨k, a, mark b⟩ :: cellRows k b writes
  | (false, b) :: writes => cellRows k b writes

/-- What the writes to a cell that held `a` leave in it. -/
def leaves (a : α) (writes : List (Bool × α)) : α := (writes.getLast?.map Prod.snd).getD a

variable {mark} {a : α} {k : K} {rows : List (UndoRow K α β)}

theorem leaves_cons (w : Bool × α) (writes : List (Bool × α)) :
    leaves a (w :: writes) = leaves w.2 writes := by
  cases writes <;> simp [leaves, List.getLast?_cons]

/-- The rows of writes that all went through. -/
theorem cellRows_written (k : K) (a : α) (posts : List α) :
    (cellRows mark k a (posts.map (Prod.mk true))).map UndoRow.before = (a :: posts).dropLast ∧
      (cellRows mark k a (posts.map (Prod.mk true))).map UndoRow.mark = posts.map mark := by
  induction posts generalizing a with
  | nil => simp [cellRows]
  | cons b posts ih =>
    obtain ⟨hbefore, hmark⟩ := ih b
    simp [cellRows, hbefore, hmark]

theorem matches_iff :
    Matches mark a rows ↔ rows.map UndoRow.mark = ((undone a rows).dropLast).map mark := by
  induction rows generalizing a with
  | nil => simp [Matches, undone]
  | cons row rows ih =>
    rw [Matches, ih]
    simp [undone, eq_comm]

variable [DecidableEq K] [DecidableEq β]

/-- **Each cell goes its own way**: one of its rows is kept aside, or they match in turn and it ends
as it was before the last of them. -/
theorem undo_cell (mark : α → β) (c : K → α) (rows : List (UndoRow K α β)) (k : K) :
    ((∃ row ∈ (undo mark c rows).2, row.cell = k) ↔
        ¬Matches mark (c k) (rows.filter (·.cell = k))) ∧
      (Matches mark (c k) (rows.filter (·.cell = k)) →
        (undone (c k) (rows.filter (·.cell = k))).getLast? = some ((undo mark c rows).1 k)) := by
  induction rows generalizing c with
  | nil => simp [undo, Matches, undone]
  | cons row rows ih =>
    rw [undo]
    by_cases hk : row.cell = k
    · subst hk
      by_cases hmark : mark (c row.cell) = row.mark
      · obtain ⟨hkept, hlast⟩ := ih (Function.update c row.cell row.before)
        rw [Function.update_self] at hkept hlast
        rw [if_pos hmark, hkept]
        simpa [Matches, hmark, undone] using hlast
      · rw [if_neg hmark]
        simp [Matches, hmark]
    · rw [List.filter_cons_of_neg (by simpa using hk)]
      split
      · have hcell := ih (Function.update c row.cell row.before)
        rwa [Function.update_of_ne (Ne.symm hk)] at hcell
      · simpa [hk] using ih c

end UndoRow

end Lib
