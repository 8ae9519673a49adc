import Mathlib.Data.List.Infix
import Mathlib.Tactic.Common

/-!
# Shell patterns

`fnmatchcase` matches a text against a pattern of the shell: `*` is any text, `?` any character,
`[seq]` a character of the set and `[!seq]` one that is not in it. A separator is a character like
any other.
-/

namespace Lib

namespace Glob

/-- A part of a pattern. A set is the list of its ranges; a single character is a range of one. -/
inductive Token
  | char (c : Char)
  | any
  | star
  | set (negated : Bool) (ranges : List (Char × Char))
  deriving DecidableEq, Repr

/-- The ranges of what stands between the brackets. -/
def rangesOf : List Char → List (Char × Char)
  | a :: '-' :: b :: rest => (a, b) :: rangesOf rest
  | a :: rest => (a, a) :: rangesOf rest
  | [] => []

/-- What stands between the brackets, and what follows: the first character never closes. -/
def bracketed (body : List Char) : Option (List Char × List Char) :=
  match body with
  | [] => none
  | first :: rest =>
    match rest.dropWhile (· ≠ ']') with
    | [] => none
    | _ :: after => some (first :: rest.takeWhile (· ≠ ']'), after)

/-- The parts of a pattern; a bracket that is not closed is a character. -/
def tokensFrom : ℕ → List Char → List Token
  | 0, _ => []
  | _, [] => []
  | n + 1, '*' :: rest => .star :: tokensFrom n rest
  | n + 1, '?' :: rest => .any :: tokensFrom n rest
  | n + 1, '[' :: rest =>
    let negated := rest.head? = some '!'
    match bracketed (if negated then rest.tail else rest) with
    | none => .char '[' :: tokensFrom n rest
    | some (inside, after) => .set negated (rangesOf inside) :: tokensFrom n after
  | n + 1, c :: rest => .char c :: tokensFrom n rest

/-- The parts of a pattern. -/
def tokens (pattern : List Char) : List Token := tokensFrom pattern.length pattern

/-- The part matches a single character. -/
def Token.accepts : Token → Char → Bool
  | .char c, d => c = d
  | .any, _ => true
  | .star, _ => true
  | .set negated ranges, d => negated != ranges.any fun range => range.1 ≤ d ∧ d ≤ range.2

/-- The parts match the whole text. -/
def matchesAll : List Token → List Char → Bool
  | [], text => text.isEmpty
  | .star :: rest, text => text.tails.any (matchesAll rest)
  | _ :: _, [] => false
  | token :: rest, c :: text => token.accepts c && matchesAll rest text

/-- `fnmatch.fnmatchcase(name, pat)`. -/
def fnmatchcase (name pattern : String) : Bool := matchesAll (tokens pattern.toList) name.toList

example : fnmatchcase "src/a.py" "src/[!b]*.p?" = true := by decide

/-! ### Patterns without brackets -/

/-- The part that a character is, outside of brackets. -/
def tokenOf : Char → Token
  | '*' => .star
  | '?' => .any
  | c => .char c

theorem tokens_cons {c : Char} (h : c ≠ '[') (rest : List Char) :
    tokens (c :: rest) = tokenOf c :: tokens rest := by
  unfold tokens
  rw [List.length_cons]
  by_cases hstar : c = '*'
  · rw [hstar]
    rfl
  · by_cases hany : c = '?'
    · rw [hany]
      rfl
    · rw [tokensFrom, tokenOf]
      all_goals simp_all

/-- Without brackets the parts of a pattern are those of its characters. -/
theorem tokens_append {a : List Char} (h : '[' ∉ a) (b : List Char) :
    tokens (a ++ b) = a.map tokenOf ++ tokens b := by
  induction a with
  | nil => rfl
  | cons c a ih =>
    obtain ⟨hc, ha⟩ := not_or.mp (mt List.mem_cons.mpr h)
    rw [List.cons_append, tokens_cons (Ne.symm hc), ih ha, List.map_cons, List.cons_append]

theorem tokens_eq_map {a : List Char} (h : '[' ∉ a) : tokens a = a.map tokenOf := by
  have happend := tokens_append h []
  rwa [List.append_nil, show tokens [] = [] from rfl, List.append_nil] at happend

theorem matchesAll_cons {token : Token} (h : token ≠ .star) (ts : List Token) (c : Char)
    (text : List Char) :
    matchesAll (token :: ts) (c :: text) = (token.accepts c && matchesAll ts text) := by
  cases token with
  | star => exact absurd rfl h
  | char _ => rfl
  | any => rfl
  | set _ _ => rfl

/-- Patterns that match two texts match the one text that they make. -/
theorem matchesAll_append {ts ts' : List Token} {x y : List Char} (h : matchesAll ts x = true)
    (h' : matchesAll ts' y = true) : matchesAll (ts ++ ts') (x ++ y) = true := by
  induction ts generalizing x with
  | nil =>
    obtain rfl : x = [] := by simpa [matchesAll] using h
    exact h'
  | cons token ts ih =>
    by_cases hstar : token = .star
    · subst hstar
      rw [matchesAll, List.any_eq_true] at h
      obtain ⟨rest, hrest, hmatches⟩ := h
      obtain ⟨start, rfl⟩ := (List.mem_tails _ _).mp hrest
      rw [List.cons_append, matchesAll, List.any_eq_true]
      exact ⟨rest ++ y, (List.mem_tails _ _).mpr ⟨start, (List.append_assoc _ _ _).symm⟩,
        ih hmatches⟩
    · cases x with
      | nil => cases token <;> simp_all [matchesAll]
      | cons c x =>
        rw [matchesAll_cons hstar, Bool.and_eq_true] at h
        rw [List.cons_append, List.cons_append, matchesAll_cons hstar, Bool.and_eq_true]
        exact ⟨h.1, ih h.2⟩

end Glob

end Lib
