import Mathlib.Tactic.Common
import Mathlib.Data.List.Basic

/-!
# Patterns of text: matching, searching, substituting

A `Pattern` is a regular expression whose only repetition is that of a class of characters. A
match may look at the character before it and at what follows it (`boundary`), so `Matches` says
where a text matches; `ends` is the backtracking matcher, its outcomes in order of preference
(`mem_ends_iff`), and `search` and `sub` are built on it.

Where a text is put together from parts, a match can be looked for in the parts: a separator the
pattern does not use splits the search (`found_append_cons_iff`, `found_intercalate_iff`), and one
the pattern uses in one place splits the pattern there as well (`found_pair_iff`). Both need that
the pattern sees no more of its surroundings than whether it starts behind a word (`Local`).
-/

namespace Lib

/-- A pattern over the alphabet `α`. -/
inductive Pattern (α : Type)
  | empty
  /-- Between a character of a word and something else. -/
  | boundary (word : α → Bool)
  | one (p : α → Bool)
  /-- As many characters of a class as there are, or fewer. -/
  | many (p : α → Bool)
  | seq (a b : Pattern α)
  /-- The first pattern, else the second. -/
  | alt (a b : Pattern α)

namespace Pattern

variable {α : Type}

/-- A given text, up to what `same` identifies. -/
def literal (same : α → α → Bool) : List α → Pattern α
  | [] => empty
  | c :: s => seq (one (same c)) (literal same s)

/-- At least `n` characters of a class. -/
def atLeast (p : α → Bool) : ℕ → Pattern α
  | 0 => many p
  | n + 1 => seq (one p) (atLeast p n)

/-- The character before what follows `m`, when `prev` is the one before `m`. -/
def after : Option α → List α → Option α
  | prev, [] => prev
  | _, c :: m => after (some c) m

@[simp] theorem after_nil (prev : Option α) : after prev [] = prev := rfl

@[simp] theorem after_cons (prev : Option α) (c : α) (m : List α) :
    after prev (c :: m) = after (some c) m := rfl

@[simp] theorem after_append (prev : Option α) (m m' : List α) :
    after prev (m ++ m') = after (after prev m) m' := by
  induction m generalizing prev with
  | nil => rfl
  | cons c m ih => exact ih (some c)

/-! ### Matching -/

/-- `m` matches the pattern, between the character `prev` and the text `rest`. -/
def Matches : Pattern α → Option α → List α → List α → Prop
  | empty, _, m, _ => m = []
  | boundary word, prev, m, rest => m = [] ∧ prev.any word ≠ rest.head?.any word
  | one p, _, m, _ => ∃ c, p c = true ∧ m = [c]
  | many p, _, m, _ => ∀ c ∈ m, p c = true
  | seq a b, prev, m, rest => ∃ m₁ m₂, m = m₁ ++ m₂ ∧ a.Matches prev m₁ (m₂ ++ rest) ∧
      b.Matches (after prev m₁) m₂ rest
  | alt a b, prev, m, rest => a.Matches prev m rest ∨ b.Matches prev m rest

/-- The outcomes of a repetition, the longest first. -/
def repeats (p : α → Bool) : Option α → List α → List (Option α × List α)
  | prev, [] => [(prev, [])]
  | prev, c :: s => (if p c then repeats p (some c) s else []) ++ [(prev, c :: s)]

/-- The backtracking matcher: what each match leaves of the text, and the character before it. -/
def ends : Pattern α → Option α → List α → List (Option α × List α)
  | empty, prev, s => [(prev, s)]
  | boundary word, prev, s => if prev.any word = s.head?.any word then [] else [(prev, s)]
  | one _, _, [] => []
  | one p, _, c :: s => if p c then [(some c, s)] else []
  | many p, prev, s => repeats p prev s
  | seq a b, prev, s => (a.ends prev s).flatMap fun e => b.ends e.1 e.2
  | alt a b, prev, s => a.ends prev s ++ b.ends prev s

theorem mem_repeats_iff {p : α → Bool} {prev : Option α} {s : List α} {e : Option α × List α} :
    e ∈ repeats p prev s ↔
      ∃ m, s = m ++ e.2 ∧ e.1 = after prev m ∧ ∀ c ∈ m, p c = true := by
  induction s generalizing prev with
  | nil =>
    rw [repeats, List.mem_singleton]
    constructor
    · rintro rfl
      exact ⟨[], rfl, rfl, by simp⟩
    · rintro ⟨m, hm, he, -⟩
      obtain ⟨rfl, hrest⟩ := List.append_eq_nil_iff.mp hm.symm
      exact Prod.ext he hrest
  | cons c s ih =>
    rw [repeats, List.mem_append, List.mem_singleton]
    constructor
    · rintro (hmem | rfl)
      · split at hmem
        · rename_i hc
          obtain ⟨m, rfl, he, hm⟩ := ih.mp hmem
          exact ⟨c :: m, rfl, he, List.forall_mem_cons.mpr ⟨hc, hm⟩⟩
        · exact absurd hmem List.not_mem_nil
      · exact ⟨[], rfl, rfl, by simp⟩
    · rintro ⟨m, hm, he, hall⟩
      rcases m with _ | ⟨c', m⟩
      · exact .inr (Prod.ext he hm.symm)
      · obtain ⟨rfl, rfl⟩ := List.cons.inj hm
        obtain ⟨hc, hall⟩ := List.forall_mem_cons.mp hall
        rw [if_pos hc]
        exact .inl (ih.mpr ⟨m, rfl, he, hall⟩)

/-- **The matcher finds exactly the matches.** -/
theorem mem_ends_iff {q : Pattern α} {prev : Option α} {s : List α} {e : Option α × List α} :
    e ∈ q.ends prev s ↔ ∃ m, s = m ++ e.2 ∧ e.1 = after prev m ∧ q.Matches prev m e.2 := by
  induction q generalizing prev s e with
  | empty =>
    simp only [ends, Matches, List.mem_singleton]
    constructor
    · rintro rfl
      exact ⟨[], rfl, rfl, rfl⟩
    · rintro ⟨m, rfl, he, rfl⟩
      exact Prod.ext he rfl
  | boundary word =>
    simp only [ends, Matches]
    constructor
    · intro hmem
      split at hmem
      · exact absurd hmem List.not_mem_nil
      · obtain rfl := List.mem_singleton.mp hmem
        exact ⟨[], rfl, rfl, rfl, by assumption⟩
    · rintro ⟨m, rfl, he, rfl, hne⟩
      rw [List.nil_append, if_neg hne, List.mem_singleton]
      exact Prod.ext he rfl
  | one p =>
    cases s with
    | nil => simp [ends, Matches]
    | cons c s =>
      simp only [ends, Matches]
      constructor
      · intro hmem
        split at hmem
        · obtain rfl := List.mem_singleton.mp hmem
          exact ⟨[c], rfl, rfl, c, by assumption, rfl⟩
        · exact absurd hmem List.not_mem_nil
      · rintro ⟨_, hs, he, c', hc, rfl⟩
        obtain ⟨rfl, hrest⟩ := List.cons.inj hs
        rw [if_pos hc, List.mem_singleton]
        exact Prod.ext he hrest.symm
  | many p => exact mem_repeats_iff
  | seq a b iha ihb =>
    simp only [ends, Matches, List.mem_flatMap, iha, ihb]
    constructor
    · rintro ⟨⟨prev', s'⟩, ⟨m₁, rfl, rfl, ha⟩, m₂, rfl, he, hb⟩
      exact ⟨m₁ ++ m₂, by simp, by rw [he, after_append], m₁, m₂, rfl, ha, hb⟩
    · rintro ⟨_, rfl, he, m₁, m₂, rfl, ha, hb⟩
      exact ⟨(after prev m₁, m₂ ++ e.2), ⟨m₁, by simp, rfl, ha⟩, m₂, rfl,
        by rw [he, after_append], hb⟩
  | alt a b iha ihb =>
    simp only [ends, Matches, List.mem_append, iha, ihb]
    constructor
    · rintro (⟨m, hs, he, h⟩ | ⟨m, hs, he, h⟩)
      · exact ⟨m, hs, he, .inl h⟩
      · exact ⟨m, hs, he, .inr h⟩
    · rintro ⟨m, hs, he, h | h⟩
      · exact .inl ⟨m, hs, he, h⟩
      · exact .inr ⟨m, hs, he, h⟩

/-! ### Searching and substituting -/

/-- The search from a position on, `prev` being the character before it. -/
def searchFrom (q : Pattern α) : Option α → List α → Bool
  | prev, [] => !(q.ends prev []).isEmpty
  | prev, c :: s => !(q.ends prev (c :: s)).isEmpty || searchFrom q (some c) s

/-- Whether the pattern matches anywhere in the text. -/
def search (q : Pattern α) (s : List α) : Bool := q.searchFrom none s

/-- Some part of the text matches the pattern where it stands. -/
def Found (q : Pattern α) (s : List α) : Prop :=
  ∃ pre m post, s = pre ++ (m ++ post) ∧ q.Matches (after none pre) m post

theorem searchFrom_eq_true_iff {q : Pattern α} {prev : Option α} {s : List α} :
    q.searchFrom prev s = true ↔
      ∃ pre m post, s = pre ++ (m ++ post) ∧ q.Matches (after prev pre) m post := by
  have hhere (prev : Option α) (s : List α) :
      (!(q.ends prev s).isEmpty) = true ↔ ∃ m post, s = m ++ post ∧ q.Matches prev m post := by
    rw [Bool.not_eq_true', List.isEmpty_eq_false_iff_exists_mem]
    constructor
    · rintro ⟨e, he⟩
      obtain ⟨m, hs, -, hm⟩ := mem_ends_iff.mp he
      exact ⟨m, e.2, hs, hm⟩
    · rintro ⟨m, post, hs, hm⟩
      exact ⟨(after prev m, post), mem_ends_iff.mpr ⟨m, hs, rfl, hm⟩⟩
  induction s generalizing prev with
  | nil =>
    rw [searchFrom, hhere]
    constructor
    · rintro ⟨m, post, hs, hm⟩
      exact ⟨[], m, post, hs, hm⟩
    · rintro ⟨pre, m, post, hs, hm⟩
      obtain ⟨rfl, hs'⟩ := List.append_eq_nil_iff.mp hs.symm
      exact ⟨m, post, hs'.symm, hm⟩
  | cons c s ih =>
    rw [searchFrom, Bool.or_eq_true, hhere]
    refine (or_congr_right ih).trans ?_
    constructor
    · rintro (⟨m, post, hs, hm⟩ | ⟨pre, m, post, rfl, hm⟩)
      · exact ⟨[], m, post, hs, hm⟩
      · exact ⟨c :: pre, m, post, rfl, hm⟩
    · rintro ⟨pre, m, post, hs, hm⟩
      rcases pre with _ | ⟨c', pre⟩
      · exact .inl ⟨m, post, hs, hm⟩
      · obtain ⟨rfl, hs'⟩ := List.cons.inj hs
        exact .inr ⟨pre, m, post, hs', hm⟩

theorem search_eq_true_iff {q : Pattern α} {s : List α} : q.search s = true ↔ q.Found s :=
  searchFrom_eq_true_iff

instance (q : Pattern α) (s : List α) : Decidable (q.Found s) :=
  decidable_of_iff _ search_eq_true_iff

/-- The text with `new` for the matches, from a position on: `skip` characters of the last match
are still to be dropped. An empty match is passed over. -/
def subFrom (q : Pattern α) (new : List α) : Option α → ℕ → List α → List α
  | _, _, [] => []
  | _, skip + 1, c :: s => subFrom q new (some c) skip s
  | prev, 0, c :: s =>
    match q.ends prev (c :: s) with
    | (_, rest) :: _ =>
      if rest.length ≤ s.length then new ++ subFrom q new (some c) (s.length - rest.length) s
      else c :: subFrom q new (some c) 0 s
    | [] => c :: subFrom q new (some c) 0 s

/-- The text with every match, from the left, replaced by `new`. -/
def sub (q : Pattern α) (new s : List α) : List α := q.subFrom new none 0 s

/-! ### What a match can be made of -/

/-- A match may contain the character. -/
def uses : Pattern α → α → Bool
  | empty, _ => false
  | boundary _, _ => false
  | one p, c => p c
  | many p, c => p c
  | seq a b, c => a.uses c || b.uses c
  | alt a b, c => a.uses c || b.uses c

/-- A match may be empty. -/
def nullable : Pattern α → Bool
  | empty => true
  | boundary _ => true
  | one _ => false
  | many _ => true
  | seq a b => a.nullable && b.nullable
  | alt a b => a.nullable || b.nullable

/-- The pattern does not look at its surroundings. -/
def plain : Pattern α → Bool
  | empty => true
  | boundary _ => false
  | one _ => true
  | many _ => true
  | seq a b => a.plain && b.plain
  | alt a b => a.plain && b.plain

section

variable {q a b : Pattern α} {prev prev' : Option α} {m rest rest' : List α}

theorem Matches.uses (h : q.Matches prev m rest) {c : α} (hc : c ∈ m) : q.uses c = true := by
  induction q generalizing prev m rest with
  | empty =>
    obtain rfl : m = [] := h
    exact absurd hc List.not_mem_nil
  | boundary word =>
    obtain rfl : m = [] := h.1
    exact absurd hc List.not_mem_nil
  | one p =>
    obtain ⟨c', hp, rfl⟩ := h
    rwa [Pattern.uses, List.mem_singleton.mp hc]
  | many p => exact h c hc
  | seq a b iha ihb =>
    obtain ⟨m₁, m₂, rfl, ha, hb⟩ := h
    rw [Pattern.uses, Bool.or_eq_true]
    rcases List.mem_append.mp hc with hc | hc
    · exact .inl (iha ha hc)
    · exact .inr (ihb hb hc)
  | alt a b iha ihb =>
    rw [Pattern.uses, Bool.or_eq_true]
    exact h.imp (fun h => iha h hc) fun h => ihb h hc

theorem Matches.nullable (h : q.Matches prev m rest) (hm : m = []) : q.nullable = true := by
  induction q generalizing prev m rest with
  | empty | boundary | many => rfl
  | one p =>
    obtain ⟨c, -, rfl⟩ := h
    cases hm
  | seq a b iha ihb =>
    obtain ⟨m₁, m₂, rfl, ha, hb⟩ := h
    obtain ⟨h₁, h₂⟩ := List.append_eq_nil_iff.mp hm
    rw [Pattern.nullable, iha ha h₁, ihb hb h₂]
    rfl
  | alt a b iha ihb =>
    rw [Pattern.nullable, Bool.or_eq_true]
    exact h.imp (fun h => iha h hm) fun h => ihb h hm

/-- A plain pattern matches in any surroundings what it matches in one. -/
theorem Matches.of_plain (h : q.Matches prev m rest) (hq : q.plain = true) :
    q.Matches prev' m rest' := by
  induction q generalizing prev prev' m rest rest' with
  | empty | one p | many p => exact h
  | boundary word => cases hq
  | seq a b iha ihb =>
    obtain ⟨hqa, hqb⟩ := (Bool.and_eq_true _ _).mp hq
    obtain ⟨m₁, m₂, rfl, ha, hb⟩ := h
    exact ⟨m₁, m₂, rfl, iha ha hqa, ihb hb hqb⟩
  | alt a b iha ihb =>
    obtain ⟨hqa, hqb⟩ := (Bool.and_eq_true _ _).mp hq
    exact h.imp (fun h => iha h hqa) fun h => ihb h hqb

/-! ### Patterns that see only what is before them -/

/-- The pattern matches no empty text, and of its surroundings it only sees whether it starts
behind a character of a word. -/
structure Local (word : α → Bool) (q : Pattern α) : Prop where
  ne_nil : ∀ {prev m rest}, q.Matches prev m rest → m ≠ []
  surroundings : ∀ {prev prev' m rest rest'}, prev.any word = prev'.any word →
    q.Matches prev m rest → q.Matches prev' m rest'

variable {word : α → Bool}

theorem local_of_plain (hplain : q.plain = true) (hne : q.nullable = false) : q.Local word where
  ne_nil h := fun hm => by
    rw [h.nullable hm] at hne
    cases hne
  surroundings _ h := h.of_plain hplain

/-- A word boundary before a plain pattern sees the first character of the match. -/
theorem local_boundary (hplain : q.plain = true) (hne : q.nullable = false) :
    (seq (boundary word) q).Local word := by
  have hlocal : q.Local word := local_of_plain hplain hne
  refine ⟨?_, ?_⟩
  · rintro prev m rest ⟨m₁, m₂, rfl, -, hq⟩ hm
    exact hlocal.ne_nil hq (List.append_eq_nil_iff.mp hm).2
  · rintro prev prev' m rest rest' hprev ⟨m₁, m₂, rfl, ⟨rfl, hbound⟩, hq⟩
    refine ⟨[], m₂, rfl, ⟨rfl, ?_⟩, hq.of_plain hplain⟩
    cases m₂ with
    | nil => exact absurd rfl (hlocal.ne_nil hq)
    | cons c m => rwa [← hprev]

/-- What follows in a plain way changes nothing. -/
theorem Local.seq (ha : a.Local word) (hb : b.plain = true) : (Pattern.seq a b).Local word where
  ne_nil := by
    rintro prev m rest ⟨m₁, m₂, rfl, hm, -⟩ hnil
    exact ha.ne_nil hm (List.append_eq_nil_iff.mp hnil).1
  surroundings := by
    rintro prev prev' m rest rest' hprev ⟨m₁, m₂, rfl, hm₁, hm₂⟩
    exact ⟨m₁, m₂, rfl, ha.surroundings hprev hm₁, hm₂.of_plain hb⟩

end

/-! ### Searching a text made of parts -/

section

variable {q a b : Pattern α} {word : α → Bool} {c : α} {x y : List α}

/-- Behind a character that is no part of a word, a text starts as if nothing were before it. -/
theorem any_after_append_cons (hc : word c = false) (prev prev' : Option α) (x y : List α) :
    (after prev (x ++ c :: y)).any word =
      (after (if y = [] then none else prev') y).any word := by
  rw [after_append, after_cons]
  cases y with
  | nil => simpa using hc
  | cons d y => rfl

theorem Local.not_found_nil (hq : q.Local word) : ¬q.Found [] := by
  rintro ⟨pre, m, post, hs, hm⟩
  obtain ⟨-, hs⟩ := List.append_eq_nil_iff.mp hs.symm
  exact hq.ne_nil hm (List.append_eq_nil_iff.mp hs).1

/-- A match of the first part is one of the whole. -/
theorem Local.found_append_left (hq : q.Local word) (h : q.Found x) (y : List α) :
    q.Found (x ++ y) := by
  obtain ⟨pre, m, post, rfl, hm⟩ := h
  exact ⟨pre, m, post ++ y, by simp, hq.surroundings rfl hm⟩

/-- A match of the part behind a separator is one of the whole. -/
theorem Local.found_cons_right (hq : q.Local word) (hc : word c = false) (h : q.Found y)
    (x : List α) : q.Found (x ++ c :: y) := by
  obtain ⟨pre, m, post, rfl, hm⟩ := h
  refine ⟨x ++ c :: pre, m, post, by simp, hq.surroundings ?_ hm⟩
  rw [any_after_append_cons hc none none, ite_self]

/-- A match in a text with a separator is before it, behind it, or contains it. -/
theorem Local.found_cases (hq : q.Local word) (hc : word c = false) (h : q.Found (x ++ c :: y)) :
    q.Found x ∨ q.Found y ∨ ∃ pre m₁ m₂ post, x = pre ++ m₁ ∧ y = m₂ ++ post ∧
      q.Matches (after none pre) (m₁ ++ c :: m₂) post := by
  obtain ⟨pre, m, post, hs, hm⟩ := h
  rcases List.append_eq_append_iff.mp hs with ⟨x', rfl, hrest⟩ | ⟨m', rfl, hrest⟩
  · -- the match starts behind the first part
    rcases x' with _ | ⟨c', x'⟩
    · obtain ⟨d, m, rfl⟩ := List.exists_cons_of_ne_nil (hq.ne_nil hm)
      obtain ⟨rfl, rfl⟩ := List.cons.inj hrest
      exact .inr (.inr ⟨x, [], m, post, by simp, rfl, by simpa using hm⟩)
    · obtain ⟨rfl, rfl⟩ := List.cons.inj hrest
      refine .inr (.inl ⟨x', m, post, rfl, hq.surroundings ?_ hm⟩)
      rw [any_after_append_cons hc none none, ite_self]
  · rcases List.append_eq_append_iff.mp hrest with ⟨x', rfl, -⟩ | ⟨t, rfl, htail⟩
    · exact .inl ⟨pre, m, x', rfl, hq.surroundings rfl hm⟩
    · rcases t with _ | ⟨c', m₂⟩
      · rw [List.append_nil] at hm
        exact .inl ⟨pre, _, [], by simp, hq.surroundings rfl hm⟩
      · obtain ⟨rfl, rfl⟩ := List.cons.inj htail
        exact .inr (.inr ⟨pre, _, m₂, post, rfl, rfl, hm⟩)

/-- **A separator that the pattern does not use splits the search.** -/
theorem found_append_cons_iff (hq : q.Local word) (hc : word c = false) (huses : q.uses c = false) :
    q.Found (x ++ c :: y) ↔ q.Found x ∨ q.Found y := by
  constructor
  · intro h
    rcases hq.found_cases hc h with hx | hy | ⟨pre, m₁, m₂, post, -, -, hm⟩
    · exact .inl hx
    · exact .inr hy
    · rw [hm.uses (by simp)] at huses
      cases huses
  · rintro (hx | hy)
    · exact hq.found_append_left hx _
    · exact hq.found_cons_right hc hy x

/-- The search in a list of parts is one in each of them. -/
theorem found_intercalate_iff (hq : q.Local word) (hc : word c = false) (huses : q.uses c = false)
    {parts : List (List α)} :
    q.Found (List.intercalate [c] parts) ↔ ∃ part ∈ parts, q.Found part := by
  induction parts with
  | nil => simpa [List.intercalate] using hq.not_found_nil
  | cons part parts ih =>
    cases parts with
    | nil => simp [List.intercalate]
    | cons part' parts =>
      have hsplit : List.intercalate [c] (part :: part' :: parts) =
          part ++ c :: List.intercalate [c] (part' :: parts) := by
        simp [List.intercalate]
      rw [hsplit, found_append_cons_iff hq hc huses, ih]
      exact (List.exists_mem_cons_iff _ part (part' :: parts)).symm

/-- Brackets that the pattern does not use do not matter. -/
theorem found_brackets_iff (hq : q.Local word) {c' : α} (hc : word c = false)
    (hc' : word c' = false) (huses : q.uses c = false) (huses' : q.uses c' = false) :
    q.Found (c :: (x ++ [c'])) ↔ q.Found x := by
  have hopen : q.Found (c :: (x ++ [c'])) ↔ q.Found [] ∨ q.Found (x ++ [c']) :=
    found_append_cons_iff (x := []) hq hc huses
  rw [hopen, found_append_cons_iff hq hc' huses']
  have hnil := hq.not_found_nil
  tauto

/-- The text ends in a match of the pattern. -/
def EndsIn (q : Pattern α) (x : List α) : Prop :=
  ∃ pre m, x = pre ++ m ∧ q.Matches (after none pre) m []

/-- The text starts with a match of the pattern. -/
def StartsWith (q : Pattern α) (x : List α) : Prop :=
  ∃ m post, x = m ++ post ∧ q.Matches none m post

instance (q : Pattern α) (x : List α) : Decidable (q.StartsWith x) :=
  decidable_of_iff (q.ends none x ≠ []) <| by
    rw [← List.isEmpty_eq_false_iff, List.isEmpty_eq_false_iff_exists_mem]
    constructor
    · rintro ⟨e, he⟩
      obtain ⟨m, hx, -, hm⟩ := mem_ends_iff.mp he
      exact ⟨m, e.2, hx, hm⟩
    · rintro ⟨m, post, hx, hm⟩
      exact ⟨(after none m, post), mem_ends_iff.mpr ⟨m, hx, rfl, hm⟩⟩

/-- **A separator that the pattern uses in one place only splits the pattern with the text.** -/
theorem found_pair_iff {d : α → Bool} (ha : a.Local word) (hb : b.plain = true) (hd : d c = true)
    (hc : word c = false) (husesa : a.uses c = false) (husesb : b.uses c = false) :
    (seq a (seq (one d) b)).Found (x ++ c :: y) ↔
      (seq a (seq (one d) b)).Found x ∨ (seq a (seq (one d) b)).Found y ∨
        a.EndsIn x ∧ b.StartsWith y := by
  have hq : (seq a (seq (one d) b)).Local word := ha.seq (by simp [plain, hb])
  constructor
  · intro h
    rcases hq.found_cases hc h with hx | hy | ⟨pre, m₁, m₂, post, rfl, rfl, hm⟩
    · exact .inl hx
    · exact .inr (.inl hy)
    · refine .inr (.inr ?_)
      obtain ⟨n₁, _, heq, ha', n₂, n₃, rfl, ⟨c', -, rfl⟩, hb'⟩ := hm
      -- the separator is no character of the match of `a`, nor of that of `b`
      have hsame : m₁ = n₁ ∧ m₂ = n₃ := by
        rcases List.append_eq_append_iff.mp heq with ⟨t, rfl, ht⟩ | ⟨t, rfl, ht⟩
        · rcases t with _ | ⟨c'', t⟩
          · obtain ⟨-, rfl⟩ := List.cons.inj ht
            exact ⟨by simp, rfl⟩
          · obtain ⟨rfl, -⟩ := List.cons.inj ht
            rw [ha'.uses (by simp)] at husesa
            cases husesa
        · rcases t with _ | ⟨c'', t⟩
          · obtain ⟨-, rfl⟩ := List.cons.inj ht
            exact ⟨by simp, rfl⟩
          · obtain ⟨rfl, rfl⟩ := List.cons.inj ht
            rw [hb'.uses (by simp)] at husesb
            cases husesb
      obtain ⟨rfl, rfl⟩ := hsame
      exact ⟨⟨pre, m₁, rfl, ha.surroundings rfl ha'⟩, m₂, post, rfl, hb'.of_plain hb⟩
  · rintro (hx | hy | ⟨⟨pre, m₁, rfl, ha'⟩, m₂, post, rfl, hb'⟩)
    · exact hq.found_append_left hx _
    · exact hq.found_cons_right hc hy x
    · refine ⟨pre, m₁ ++ c :: m₂, post, by simp, ?_⟩
      exact ⟨m₁, c :: m₂, rfl, ha.surroundings rfl ha', [c], m₂, rfl, ⟨c, hd, rfl⟩,
        hb'.of_plain hb⟩

end

end Pattern

end Lib
