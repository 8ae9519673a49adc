import CyranoAgent.Contracts.Types
import CyranoAgent.Lib.Columns
import Mathlib.Algebra.BigOperators.Ring.List
import Mathlib.Algebra.Order.Ring.Nat

/-!
# Positions of the language-server protocol

The protocol counts a column in UTF-16 code units, the language in characters. `utf16Column` and
`pyOffsetFromUtf16` convert between the two; `utf16_round_trip` says when each of them raises, that
the second gives the character that a column is in, and that it is the inverse of the first on every
line but the empty one.

A `String` has no lone surrogates, which the encoder of the language refuses.
-/

namespace CyranoAgent

open Lib

namespace Intelligence

/-- The bytes of a character in UTF-16. -/
def utf16Bytes (c : Char) : ℕ := if 0xffff < c.toNat then 4 else 2

/-- `2 if ord(char) > 0xFFFF else 1`. -/
def utf16Units (c : Char) : ℕ := if 0xffff < c.toNat then 2 else 1

/-- `utf16_column`. -/
def utf16Column (lineText : String) (characterOffset : ℤ) : Except Failure ℕ :=
  if characterOffset < 0 ∨ (lineText.toList.length : ℤ) < characterOffset then
    .error (.cyrano "INPUT_INVALID" ("offset " ++ toString characterOffset ++ " outside line"))
  else .ok (((lineText.toList.take characterOffset.toNat).map utf16Bytes).sum / 2)

/-- The loop of `py_offset_from_utf16`. -/
def pyOffset? (utf16Col : ℤ) : ℕ → ℕ → List Char → Option ℕ
  | _, _, [] => none
  | units, index, char :: rest =>
    let units := units + utf16Units char
    if (units : ℤ) > utf16Col then some index
    else if (units : ℤ) = utf16Col then some (index + 1)
    else pyOffset? utf16Col units (index + 1) rest

/-- `py_offset_from_utf16`. -/
def pyOffsetFromUtf16 (lineText : String) (utf16Col : ℤ) : Except Failure ℕ :=
  match pyOffset? utf16Col 0 0 lineText.toList with
  | some offset => .ok offset
  | none =>
    .error (.cyrano "INPUT_INVALID" ("utf16 column " ++ toString utf16Col ++ " outside line"))

section

variable {line : String} {k : ℕ}

theorem utf16Units_pos (c : Char) : 0 < utf16Units c := by
  unfold utf16Units
  split_ifs <;> decide

theorem utf16Bytes_eq (c : Char) : utf16Bytes c = 2 * utf16Units c := by
  unfold utf16Bytes utf16Units
  split_ifs <;> rfl

/-- An offset of the line has its column. -/
theorem utf16Column_eq (hk : k ≤ line.toList.length) :
    utf16Column line k = .ok (column utf16Units line.toList k) := by
  have hinside : ¬((k : ℤ) < 0 ∨ (line.toList.length : ℤ) < k) := by omega
  have hbytes : utf16Bytes = fun c => 2 * utf16Units c := funext utf16Bytes_eq
  rw [utf16Column, if_neg hinside, Int.toNat_natCast, column, hbytes, List.sum_map_mul_left,
    Nat.mul_div_cancel_left _ (by decide)]

/-- The loop is the walk. -/
theorem pyOffset?_eq (utf16Col : ℤ) (units index : ℕ) (chars : List Char) :
    pyOffset? utf16Col units index chars = offsetFrom utf16Units utf16Col units index chars := by
  induction chars generalizing units index with
  | nil => rfl
  | cons c chars ih => simp only [pyOffset?, offsetFrom, ih]

theorem pyOffset_eq_ok_iff {utf16Col : ℤ} :
    pyOffsetFromUtf16 line utf16Col = .ok k ↔ offset? utf16Units line.toList utf16Col = some k := by
  rw [pyOffsetFromUtf16, pyOffset?_eq, offset?]
  cases offsetFrom utf16Units utf16Col 0 0 line.toList <;> simp

theorem pyOffset_eq_error_iff {utf16Col : ℤ} :
    pyOffsetFromUtf16 line utf16Col = .error (.cyrano "INPUT_INVALID"
        ("utf16 column " ++ toString utf16Col ++ " outside line")) ↔
      offset? utf16Units line.toList utf16Col = none := by
  rw [pyOffsetFromUtf16, pyOffset?_eq, offset?]
  cases offsetFrom utf16Units utf16Col 0 0 line.toList <;> simp

end

/-- **Offsets and columns of a line.** A column is outside a line exactly when the line is empty or
ends before it; else its offset is the greatest one whose column is not beyond it, also when it is
in the middle of a surrogate pair. The offset of the column of an offset is the offset again, on
every line but the empty one, where not even the column 0 has one. -/
theorem utf16_round_trip (line : String) :
    (∀ utf16Col : ℤ, pyOffsetFromUtf16 line utf16Col = .error (.cyrano "INPUT_INVALID"
          ("utf16 column " ++ toString utf16Col ++ " outside line")) ↔
        line = "" ∨ ∀ width, utf16Column line line.toList.length = .ok width →
          (width : ℤ) < utf16Col) ∧
      (∀ (utf16Col : ℤ) (k : ℕ), 0 ≤ utf16Col → pyOffsetFromUtf16 line utf16Col = .ok k →
        IsGreatest {j : ℕ | ∃ units, utf16Column line j = .ok units ∧ (units : ℤ) ≤ utf16Col} k) ∧
      ∀ (k units : ℕ), utf16Column line k = .ok units →
        (pyOffsetFromUtf16 line units = .ok k ↔ line ≠ "") := by
  have hempty : line.toList = [] ↔ line = "" := String.toList_eq_nil_iff
  have hinside {j units : ℕ} (hj : utf16Column line j = .ok units) :
      j ≤ line.toList.length ∧ column utf16Units line.toList j = units := by
    by_cases hle : j ≤ line.toList.length
    · rw [utf16Column_eq hle] at hj
      exact ⟨hle, Except.ok.inj hj⟩
    · rw [utf16Column, if_pos (by omega)] at hj
      cases hj
  refine ⟨fun utf16Col => ?_, fun utf16Col k hcol h => ?_, fun k units hk => ?_⟩
  · rw [pyOffset_eq_error_iff, offset?_eq_none_iff, hempty, utf16Column_eq le_rfl]
    simp
  · obtain ⟨⟨hk, hcolumn⟩, hgreatest⟩ :=
      isGreatest_of_offset? utf16Units_pos hcol (pyOffset_eq_ok_iff.mp h)
    refine ⟨⟨_, utf16Column_eq hk, hcolumn⟩, fun j hj => ?_⟩
    obtain ⟨units, hj, hle⟩ := hj
    obtain ⟨hlength, rfl⟩ := hinside hj
    exact hgreatest ⟨hlength, hle⟩
  · obtain ⟨hlength, rfl⟩ := hinside hk
    rw [pyOffset_eq_ok_iff, Ne, ← hempty]
    refine ⟨fun h hnil => ?_, fun hne => offset?_column utf16Units_pos hne hlength⟩
    rw [hnil] at h
    cases h

/-- A column in the middle of a pair, and the one behind it. -/
example : pyOffsetFromUtf16 "a𝄞b" 2 = .ok 1 ∧ pyOffsetFromUtf16 "a𝄞b" 3 = .ok 2 := by decide

end Intelligence

end CyranoAgent
