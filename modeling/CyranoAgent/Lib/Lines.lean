import Mathlib.Data.List.Basic
import Mathlib.Data.List.Chain
import Mathlib.Tactic.Common

/-!
# Texts and their lines

A text is a list of characters. Three readings of its lines live side by side: the split at line
feeds, the split at every line boundary that Unicode knows (each line with its terminator), and
the split of the text once its carriage returns are rewritten to line feeds. Each is described by
what it does to a text that starts with a line (`splitlines_append_cons`), and the three are
compared by induction on the line feeds (`lfInduction`).
-/

namespace Lib

/-- A text: its characters in order. -/
abbrev Text := List Char

namespace Text

/-! ### Breaks and splits -/

/-- The characters at which `str.splitlines` ends a line. -/
def breaks : List Char :=
  ['\n', '\r', '\x0b', '\x0c', '\x1c', '\x1d', '\x1e', '\u0085', '\u2028', '\u2029']

/-- Put a character in front of the first line. -/
def consLine (ch : Char) : List Text → List Text
  | [] => [[ch]]
  | line :: lines => (ch :: line) :: lines

/-- `text.splitlines(keepends=True)`. -/
def splitlines : Text → List Text
  | [] => []
  | '\r' :: '\n' :: rest => ['\r', '\n'] :: splitlines rest
  | ch :: rest => if ch ∈ breaks then [ch] :: splitlines rest else consLine ch (splitlines rest)

/-- `text.split("\n")`. -/
def lfLines (text : Text) : List Text := text.splitOn '\n'

/-- `text.replace("\r\n", "\n")`. -/
def crlfToLf : Text → Text
  | [] => []
  | '\r' :: '\n' :: rest => '\n' :: crlfToLf rest
  | ch :: rest => ch :: crlfToLf rest

/-- `text.replace("\r", "\n")`. -/
def crToLf (text : Text) : Text := text.map fun ch => if ch = '\r' then '\n' else ch

/-- The text with its carriage returns rewritten to line feeds, a pair of the two to one. -/
def toLf (text : Text) : Text := crToLf (crlfToLf text)

/-- A line without its terminator. -/
def chomp : Text → Text
  | [] => []
  | ['\n'] => []
  | ['\r'] => []
  | ['\r', '\n'] => []
  | ch :: rest => ch :: chomp rest

/-- A text without a line boundary. -/
def Clean (text : Text) : Prop := ∀ ch ∈ text, ch ∉ breaks

/-- The lines of a text without the empty one after its last line feed. -/
def dropBlankEnd (lines : List Text) : List Text :=
  if lines.getLast? = some [] then lines.dropLast else lines

/-! ### Induction on the line feeds -/

/-- A text is a line, or a line with its line feed before another text. -/
theorem lfInduction {P : Text → Prop} (last : ∀ line, '\n' ∉ line → P line)
    (cons : ∀ line rest, '\n' ∉ line → P rest → P (line ++ '\n' :: rest)) (text : Text) :
    P text := by
  suffices h : ∀ line, '\n' ∉ line → P (line ++ text) from h [] (by simp)
  induction text with
  | nil =>
    intro line hline
    rw [List.append_nil]
    exact last line hline
  | cons ch text ih =>
    intro line hline
    by_cases hch : ch = '\n'
    · rw [hch]
      exact cons line text hline (ih [] (by simp))
    · have h := ih (line ++ [ch]) (by simpa [hline] using Ne.symm hch)
      simpa using h

theorem lfLines_of_not_mem {line : Text} (h : '\n' ∉ line) : lfLines line = [line] :=
  List.splitOn_eq_singleton h

theorem lfLines_append_cons {line : Text} (h : '\n' ∉ line) (rest : Text) :
    lfLines (line ++ '\n' :: rest) = line :: lfLines rest :=
  List.splitOn_append_cons_self_of_not_mem h _

theorem lfLines_ne_nil (text : Text) : lfLines text ≠ [] := List.splitOn_ne_nil _ _

theorem dropBlankEnd_cons {lines : List Text} (line : Text) (h : lines ≠ []) :
    dropBlankEnd (line :: lines) = line :: dropBlankEnd lines := by
  obtain ⟨next, lines, rfl⟩ := List.exists_cons_of_ne_nil h
  simp only [dropBlankEnd, List.getLast?_cons_cons]
  split_ifs <;> simp

/-! ### The first boundary -/

/-- A text has no boundary, or a first one. -/
theorem clean_or_break (text : Text) :
    Clean text ∨ ∃ line ch rest, text = line ++ ch :: rest ∧ Clean line ∧ ch ∈ breaks := by
  induction text with
  | nil => exact .inl fun ch h => absurd h (List.not_mem_nil)
  | cons ch text ih =>
    by_cases hch : ch ∈ breaks
    · exact .inr ⟨[], ch, text, rfl, fun ch h => absurd h (List.not_mem_nil), hch⟩
    rcases ih with h | ⟨line, b, rest, rfl, hline, hb⟩
    · exact .inl (List.forall_mem_cons.2 ⟨hch, h⟩)
    · exact .inr ⟨ch :: line, b, rest, rfl, List.forall_mem_cons.2 ⟨hch, hline⟩, hb⟩

theorem Clean.not_mem {text : Text} (h : Clean text) {ch : Char} (hch : ch ∈ breaks) :
    ch ∉ text := fun hmem => h ch hmem hch

section

variable {line rest : Text} {ch : Char}

/-- A character that is no boundary joins the line after it. -/
theorem splitlines_cons_of_not_mem (h : ch ∉ breaks) :
    splitlines (ch :: rest) = consLine ch (splitlines rest) := by
  have hcr : ch ≠ '\r' := by
    rintro rfl
    exact h (by decide)
  rw [splitlines, if_neg h]
  rintro rest' rfl
  exact absurd rfl hcr

/-- A boundary other than the first half of a pair ends a line. -/
theorem splitlines_cons_of_mem (h : ch ∈ breaks) (hpair : ch = '\r' → rest.head? ≠ some '\n') :
    splitlines (ch :: rest) = [ch] :: splitlines rest := by
  rw [splitlines, if_pos h]
  rintro rest' rfl rfl
  exact hpair rfl rfl

theorem splitlines_of_clean (h : Clean line) (hne : line ≠ []) : splitlines line = [line] := by
  induction line with
  | nil => exact absurd rfl hne
  | cons ch line ih =>
    obtain ⟨hch, hline⟩ := List.forall_mem_cons.1 h
    rw [splitlines_cons_of_not_mem hch]
    rcases line with _ | ⟨next, line⟩
    · rfl
    · rw [ih hline (by simp)]
      rfl

/-- **The first line of a text** ends with its first boundary. -/
theorem splitlines_append_cons (h : Clean line) (hch : ch ∈ breaks)
    (hpair : ch = '\r' → rest.head? ≠ some '\n') :
    splitlines (line ++ ch :: rest) = (line ++ [ch]) :: splitlines rest := by
  induction line with
  | nil => exact splitlines_cons_of_mem hch hpair
  | cons first line ih =>
    obtain ⟨hfirst, hline⟩ := List.forall_mem_cons.1 h
    rw [List.cons_append, splitlines_cons_of_not_mem hfirst, ih hline]
    rfl

/-- A carriage return and a line feed end a line together. -/
theorem splitlines_append_crlf (h : Clean line) :
    splitlines (line ++ '\r' :: '\n' :: rest) = (line ++ ['\r', '\n']) :: splitlines rest := by
  induction line with
  | nil => rfl
  | cons first line ih =>
    obtain ⟨hfirst, hline⟩ := List.forall_mem_cons.1 h
    rw [List.cons_append, splitlines_cons_of_not_mem hfirst, ih hline]
    rfl

end

/-! ### Terminators -/

/-- A text of carriage returns and line feeds only. -/
def OnlyEnds (text : Text) : Prop := ∀ ch ∈ text, ch ∈ ['\r', '\n']

theorem Clean.not_ends {text : Text} (h : Clean text) : ∀ ch ∈ text, ch ∉ ['\r', '\n'] := by
  intro ch hch hend
  refine h ch hch ?_
  rcases List.mem_pair.1 hend with rfl | rfl <;> decide

section

variable {line rest : Text} {ch : Char}

theorem chomp_cons (h : ch ∉ ['\r', '\n']) (rest : Text) :
    chomp (ch :: rest) = ch :: chomp rest := by
  rw [chomp] <;> rintro rfl
  all_goals exact fun _ => absurd (by decide) h

/-- Only the end of a text is a terminator. -/
theorem chomp_append (h : ∀ ch ∈ line, ch ∉ ['\r', '\n']) (rest : Text) :
    chomp (line ++ rest) = line ++ chomp rest := by
  induction line with
  | nil => rfl
  | cons ch line ih =>
    obtain ⟨hch, hline⟩ := List.forall_mem_cons.1 h
    rw [List.cons_append, chomp_cons hch, ih hline, List.cons_append]

/-- A line that has no line feed loses at most one carriage return. -/
theorem chomp_of_not_mem (h : '\n' ∉ line) : chomp line = line ∨ line = chomp line ++ ['\r'] := by
  induction line with
  | nil => exact .inl rfl
  | cons ch line ih =>
    obtain ⟨hch, hline⟩ := not_or.1 (mt List.mem_cons.2 h)
    rcases line with _ | ⟨next, line⟩
    · by_cases hcr : ch = '\r'
      · subst hcr
        exact .inr rfl
      · rw [chomp_cons (by simp [hcr, Ne.symm hch])]
        exact .inl rfl
    · have hnext : next ≠ '\n' := fun heq => hline (heq ▸ List.mem_cons_self)
      have hcons : chomp (ch :: next :: line) = ch :: chomp (next :: line) := by
        rw [chomp] <;> simp [hnext]
      rw [hcons]
      rcases ih hline with heq | heq
      · exact .inl (by rw [heq])
      · exact .inr (by rw [List.cons_append, ← heq])

theorem chomp_of_not_ends (h : ∀ ch ∈ line, ch ∉ ['\r', '\n']) : chomp line = line := by
  simpa [chomp] using chomp_append h []

theorem chomp_concat_lf (h : ∀ ch ∈ line, ch ∉ ['\r', '\n']) : chomp (line ++ ['\n']) = line := by
  rw [chomp_append h]
  exact List.append_nil _

theorem chomp_eq_nil_iff (h : '\n' ∉ line) : chomp line = [] ↔ line = [] ∨ line = ['\r'] := by
  constructor
  · intro hnil
    rcases chomp_of_not_mem h with heq | heq
    · exact .inl (heq.symm.trans hnil)
    · rw [hnil] at heq
      exact .inr heq
  · rintro (rfl | rfl) <;> rfl

end

/-! ### Texts on which the readings agree -/

/-- **Plain line ends**: a carriage return stands before a line feed or at the end of the text, and
after any other boundary that is no line feed come only carriage returns and line feeds. -/
def EndsPlain : Text → Prop
  | [] => True
  | ch :: rest =>
    ((ch = '\r' → ∀ next ∈ rest.head?, next = '\n') ∧
      (ch ∈ breaks → ch ∉ ['\r', '\n'] → OnlyEnds rest)) ∧ EndsPlain rest

instance decidableOnlyEnds (text : Text) : Decidable (OnlyEnds text) :=
  List.decidableBAll _ text

instance decidableEndsPlain : DecidablePred EndsPlain
  | [] => isTrue trivial
  | ch :: rest =>
    haveI := decidableEndsPlain rest
    haveI : Decidable (∀ next ∈ rest.head?, next = '\n') := Option.decidableForallMem _
    inferInstanceAs (Decidable (((ch = '\r' → ∀ next ∈ rest.head?, next = '\n') ∧
      (ch ∈ breaks → ch ∉ ['\r', '\n'] → OnlyEnds rest)) ∧ EndsPlain rest))

/-- One list of lines has, at the place of each line of another that is not empty, that line up to
its terminator. -/
def Follows (lines lines' : List Text) : Prop :=
  ∀ (i : ℕ) (line : Text), lines[i]? = some line → line ≠ [] →
    ∃ line', lines'[i]? = some line' ∧ chomp line' = chomp line

theorem follows_nil (lines : List Text) : Follows [] lines := fun i line h => by simp at h

theorem follows_cons {line line' : Text} {lines lines' : List Text} :
    Follows (line :: lines) (line' :: lines') ↔
      (line ≠ [] → chomp line' = chomp line) ∧ Follows lines lines' := by
  constructor
  · intro h
    refine ⟨fun hne => ?_, fun i found hget hne => ?_⟩
    · obtain ⟨found, hget, heq⟩ := h 0 line rfl hne
      rw [List.getElem?_cons_zero] at hget
      rw [Option.some.inj hget, heq]
    · obtain ⟨found', hget', heq⟩ := h (i + 1) found (by simpa using hget) hne
      exact ⟨found', by simpa using hget', heq⟩
  · rintro ⟨hfirst, hrest⟩ i found hget hne
    cases i with
    | zero =>
      rw [List.getElem?_cons_zero, Option.some.injEq] at hget
      subst hget
      exact ⟨line', rfl, hfirst hne⟩
    | succ i => simpa using hrest i found (by simpa using hget) hne

section

variable {line rest : Text} {ch : Char}

theorem endsPlain_append (h : Clean line) : EndsPlain (line ++ rest) ↔ EndsPlain rest := by
  induction line with
  | nil => rfl
  | cons ch line ih =>
    obtain ⟨hch, hline⟩ := List.forall_mem_cons.1 h
    have hcr : ch ≠ '\r' := by
      rintro rfl
      exact hch (by decide)
    simp [EndsPlain, hch, hcr, ih hline]

theorem endsPlain_lf_cons : EndsPlain ('\n' :: rest) ↔ EndsPlain rest := by
  simp [EndsPlain]

theorem endsPlain_cr_cons :
    EndsPlain ('\r' :: rest) ↔ (∀ next ∈ rest.head?, next = '\n') ∧ EndsPlain rest := by
  simp [EndsPlain]

/-- A boundary that is neither of the two has only them behind it. -/
theorem endsPlain_break_cons (h : ch ∈ breaks) (hend : ch ∉ ['\r', '\n']) :
    EndsPlain (ch :: rest) ↔ OnlyEnds rest ∧ EndsPlain rest := by
  have hcr : ch ≠ '\r' := by
    rintro rfl
    exact hend (by decide)
  simp only [EndsPlain, hcr, IsEmpty.forall_iff, true_and, h, hend, not_false_eq_true,
    forall_const]

/-- A piece of a line that is nothing but a terminator, before the end of the line. -/
theorem onlyEnds_append_iff (h : '\n' ∉ line) (hrest : ∀ next ∈ rest.head?, next = '\n') :
    OnlyEnds (line ++ rest) ∧ EndsPlain (line ++ rest) ↔
      chomp line = [] ∧ OnlyEnds rest ∧ EndsPlain rest := by
  rw [chomp_eq_nil_iff h]
  constructor
  · rintro ⟨hends, hplain⟩
    have hends' : OnlyEnds rest := fun ch hch => hends ch (List.mem_append_right _ hch)
    rcases line with _ | ⟨ch, _ | ⟨next, line⟩⟩
    · exact ⟨.inl rfl, hends', hplain⟩
    · have hch := (List.mem_pair.1 (hends ch (by simp))).resolve_right fun heq => h (by simp [heq])
      subst hch
      exact ⟨.inr rfl, hends', (endsPlain_cr_cons.1 hplain).2⟩
    · have hch := (List.mem_pair.1 (hends ch (by simp))).resolve_right fun heq => h (by simp [heq])
      subst hch
      have hnext := (endsPlain_cr_cons.1 hplain).1 next (by simp)
      exact absurd (by simp [hnext]) h
  · rintro ⟨rfl | rfl, hends, hplain⟩
    · exact ⟨hends, hplain⟩
    · exact ⟨List.forall_mem_cons.2 ⟨by simp, hends⟩, endsPlain_cr_cons.2 ⟨hrest, hplain⟩⟩

/-- A piece of the last line that is nothing but a terminator. -/
theorem onlyEnds_iff (h : '\n' ∉ line) : OnlyEnds line ∧ EndsPlain line ↔ chomp line = [] := by
  have hiff : OnlyEnds (line ++ []) ∧ EndsPlain (line ++ []) ↔
      chomp line = [] ∧ OnlyEnds [] ∧ EndsPlain [] := onlyEnds_append_iff h (by simp)
  rw [List.append_nil] at hiff
  exact hiff.trans (and_iff_left ⟨by simp [OnlyEnds], trivial⟩)

end

/-! ### The split at line feeds against the split at every boundary -/

section

variable {line rest : Text} {ch : Char}

theorem head?_of_lf_not_mem (h : '\n' ∉ line) (hnil : line ≠ []) (rest : Text) :
    (line ++ rest).head? ≠ some '\n' := by
  obtain ⟨next, line, rfl⟩ := List.exists_cons_of_ne_nil hnil
  intro heq
  rw [List.cons_append, List.head?_cons, Option.some.injEq] at heq
  exact h (by simp [heq])

/-- A blank piece of a line ends it. -/
theorem splitlines_of_chomp_nil (h : '\n' ∉ line) (hnil : chomp line = []) (rest : Text) :
    splitlines (line ++ '\n' :: rest) = (line ++ ['\n']) :: splitlines rest ∧
      chomp (line ++ ['\n']) = [] := by
  rcases (chomp_eq_nil_iff h).1 hnil with rfl | rfl <;> exact ⟨rfl, rfl⟩

/-- **A blank line too many** in front shifts every line after it, which goes unseen when all of
them are blank. -/
theorem follows_shifted_iff (text : Text) : ∀ blank, chomp blank = [] →
    (Follows (lfLines text) (blank :: splitlines text) ↔ OnlyEnds text ∧ EndsPlain text) := by
  induction text using lfInduction with
  | last line hline =>
    intro blank hblank
    have h := onlyEnds_iff hline
    rw [lfLines_of_not_mem hline, follows_cons, h, hblank]
    constructor
    · rintro ⟨hfirst, -⟩
      by_cases hnil : line = []
      · rw [hnil]
        rfl
      · exact (hfirst hnil).symm
    · exact fun hnil => ⟨fun _ => hnil.symm, follows_nil _⟩
  | cons line rest hline ih =>
    intro blank hblank
    have hiff : (line ≠ [] → chomp blank = chomp line) ↔ chomp line = [] := by
      rw [hblank]
      refine ⟨fun h => ?_, fun h _ => h.symm⟩
      by_cases hnil : line = []
      · rw [hnil]
        rfl
      · exact (h hnil).symm
    rw [lfLines_append_cons hline, follows_cons, hiff,
      onlyEnds_append_iff hline (by simp), endsPlain_lf_cons]
    refine and_congr_right fun hnil => ?_
    obtain ⟨hsplit, hchomp⟩ := splitlines_of_chomp_nil hline hnil rest
    rw [hsplit, ih _ hchomp]
    simp [OnlyEnds]

/-- A line that a carriage return cuts in two is not the line before the cut. -/
theorem chomp_ne_of_cr (h : '\n' ∉ rest) (hnil : rest ≠ []) (hline : Clean line) :
    chomp (line ++ ['\r']) ≠ chomp (line ++ '\r' :: rest) := by
  rw [chomp_append hline.not_ends, chomp_append hline.not_ends]
  intro heq
  have hrest : chomp ('\r' :: rest) = [] := List.append_cancel_left heq.symm
  rcases (chomp_eq_nil_iff (by simpa using h)).1 hrest with hcons | hcons
  · exact absurd hcons (by simp)
  · exact hnil (List.cons.inj hcons).2

/-- Where a line is cut at a boundary inside it, the piece before the cut is the whole line when
only a terminator comes behind. -/
theorem chomp_eq_iff_of_break (hline : Clean line) (hend : ch ∉ ['\r', '\n']) :
    chomp (line ++ [ch]) = chomp (line ++ ch :: rest) ↔ chomp rest = [] := by
  rw [chomp_append hline.not_ends, chomp_append hline.not_ends, chomp_cons hend, chomp_cons hend,
    List.append_cancel_left_eq, List.cons.injEq, eq_comm]
  simp [chomp]

/-- The last line of a text. -/
theorem follows_last_iff (h : '\n' ∉ line) :
    Follows [line] (splitlines line) ↔ EndsPlain line := by
  rcases clean_or_break line with hclean | ⟨start, ch, rest, rfl, hstart, hch⟩
  · have hplain : EndsPlain line := by
      have h : EndsPlain (line ++ []) := (endsPlain_append hclean).2 trivial
      rwa [List.append_nil] at h
    refine iff_of_true ?_ hplain
    by_cases hnil : line = []
    · subst hnil
      exact fun i line hget hne => by
        cases i <;> simp_all
    · rw [splitlines_of_clean hclean hnil]
      exact follows_cons.2 ⟨fun _ => rfl, follows_nil _⟩
  have hrest : '\n' ∉ rest := fun hmem => h (by simp [hmem])
  have hlf : ch ≠ '\n' := fun heq => h (by simp [heq])
  have hhead : rest.head? ≠ some '\n' := fun heq => hrest (List.mem_of_mem_head? heq)
  rw [splitlines_append_cons hstart hch fun _ => hhead, follows_cons, endsPlain_append hstart]
  by_cases hcr : ch = '\r'
  · subst hcr
    rw [endsPlain_cr_cons]
    by_cases hnil : rest = []
    · subst hnil
      exact iff_of_true ⟨fun _ => rfl, follows_nil _⟩ ⟨by simp, trivial⟩
    · refine iff_of_false (fun hfollows => ?_) fun hplain => ?_
      · exact chomp_ne_of_cr hrest hnil hstart (hfollows.1 (by simp))
      · obtain ⟨next, rest, rfl⟩ := List.exists_cons_of_ne_nil hnil
        exact hrest (by simp [hplain.1 next rfl])
  · have hend : ch ∉ ['\r', '\n'] := by simp [hcr, hlf]
    rw [endsPlain_break_cons hch hend, onlyEnds_iff hrest, chomp_eq_iff_of_break hstart hend]
    constructor
    · exact fun hfollows => hfollows.1 (by simp)
    · exact fun hnil => ⟨fun _ => hnil, follows_nil _⟩

/-- A line of a text before its line feed. -/
theorem follows_line_iff (h : '\n' ∉ line)
    (ih : Follows (lfLines rest) (splitlines rest) ↔ EndsPlain rest) :
    Follows (line :: lfLines rest) (splitlines (line ++ '\n' :: rest)) ↔
      EndsPlain (line ++ '\n' :: rest) := by
  rcases clean_or_break line with hclean | ⟨start, ch, piece, rfl, hstart, hch⟩
  · rw [splitlines_append_cons hclean (by decide) (by simp), follows_cons, ih,
      endsPlain_append hclean, endsPlain_lf_cons]
    exact and_iff_right fun _ =>
      (chomp_concat_lf hclean.not_ends).trans (chomp_of_not_ends hclean.not_ends).symm
  have hpiece : '\n' ∉ piece := fun hmem => h (by simp [hmem])
  have hlf : ch ≠ '\n' := fun heq => h (by simp [heq])
  rw [List.append_assoc, List.cons_append, endsPlain_append hstart]
  by_cases hcr : ch = '\r'
  · subst hcr
    rw [endsPlain_cr_cons]
    by_cases hnil : piece = []
    · subst hnil
      rw [List.nil_append, splitlines_append_crlf hstart, follows_cons, ih, endsPlain_lf_cons,
        and_iff_right fun _ => ?_, and_iff_right (by simp)]
      rw [chomp_append hstart.not_ends, chomp_append hstart.not_ends]
      rfl
    · rw [splitlines_append_cons hstart hch fun _ => head?_of_lf_not_mem hpiece hnil _,
        follows_cons]
      refine iff_of_false (fun hfollows => ?_) fun hplain => ?_
      · exact chomp_ne_of_cr hpiece hnil hstart (hfollows.1 (by simp))
      · obtain ⟨next, piece, rfl⟩ := List.exists_cons_of_ne_nil hnil
        exact hpiece (by simp [hplain.1 next rfl])
  · have hend : ch ∉ ['\r', '\n'] := by simp [hcr, hlf]
    have hfirst : start ++ ch :: piece ≠ [] := by simp
    rw [splitlines_append_cons hstart hch (absurd · hcr), follows_cons,
      chomp_eq_iff_of_break hstart hend, endsPlain_break_cons hch hend,
      onlyEnds_append_iff hpiece (by simp), endsPlain_lf_cons, forall_prop_of_true hfirst]
    refine and_congr_right fun hnil => ?_
    obtain ⟨hsplit, hchomp⟩ := splitlines_of_chomp_nil hpiece hnil rest
    rw [hsplit, follows_shifted_iff rest _ hchomp]
    simp [OnlyEnds]

end

/-- **The two splits number the lines alike** on the texts with plain line ends, and on no
other. -/
theorem follows_splitlines_iff (text : Text) :
    Follows (lfLines text) (splitlines text) ↔ EndsPlain text := by
  induction text using lfInduction with
  | last line hline =>
    rw [lfLines_of_not_mem hline]
    exact follows_last_iff hline
  | cons line rest hline ih =>
    rw [lfLines_append_cons hline]
    exact follows_line_iff hline ih

/-! ### The text rewritten to line feeds -/

section

variable {line rest : Text}

theorem crlfToLf_append (h : '\r' ∉ line) (rest : Text) :
    crlfToLf (line ++ rest) = line ++ crlfToLf rest := by
  induction line with
  | nil => rfl
  | cons ch line ih =>
    obtain ⟨hch, hline⟩ := not_or.1 (mt List.mem_cons.2 h)
    have hcons : crlfToLf (ch :: (line ++ rest)) = ch :: crlfToLf (line ++ rest) := by
      rw [crlfToLf]
      rintro rest' rfl
      exact absurd rfl hch
    rw [List.cons_append, hcons, ih hline, List.cons_append]

/-- Rewriting keeps what has no carriage return. -/
theorem toLf_append (h : '\r' ∉ line) (rest : Text) : toLf (line ++ rest) = line ++ toLf rest := by
  have hmap : crToLf line = line := by
    refine (List.map_congr_left fun ch hch => ?_).trans (List.map_id line)
    exact if_neg fun heq : ch = '\r' => h (heq ▸ hch)
  rw [toLf, crlfToLf_append h, crToLf, List.map_append]
  exact congrArg (· ++ _) hmap

/-- A line of a text with plain line ends holds a carriage return at its end at most. -/
theorem exists_of_endsPlain (h : '\n' ∉ line) (hplain : EndsPlain (line ++ rest)) :
    (∃ start, '\r' ∉ start ∧ (line = start ∨ line = start ++ ['\r'])) ∧ EndsPlain rest := by
  induction line with
  | nil => exact ⟨⟨[], by simp, .inl rfl⟩, hplain⟩
  | cons ch line ih =>
    obtain ⟨hch, hline⟩ := not_or.1 (mt List.mem_cons.2 h)
    obtain ⟨⟨start, hstart, heq⟩, hplain'⟩ := ih hline hplain.2
    refine ⟨?_, hplain'⟩
    by_cases hcr : ch = '\r'
    · subst hcr
      rcases line with _ | ⟨next, line⟩
      · exact ⟨[], by simp, .inr rfl⟩
      · have hnext := hplain.1.1 rfl next (by simp)
        exact absurd (by simp [hnext]) hline
    · refine ⟨ch :: start, by simp [hstart, Ne.symm hcr], ?_⟩
      rcases heq with rfl | rfl
      · exact .inl rfl
      · exact .inr rfl

/-- A line up to its terminator, whichever of the two stands at its end. -/
theorem chomp_eq_of_or {start : Text} (hlf : '\n' ∉ start) (hcr : '\r' ∉ start)
    (h : line = start ∨ line = start ++ ['\r']) : chomp line = start ∧ chomp start = start := by
  have hends : ∀ ch ∈ start, ch ∉ ['\r', '\n'] := by
    rintro ch hch hmem
    rcases List.mem_pair.1 hmem with rfl | rfl
    · exact hcr hch
    · exact hlf hch
  refine ⟨?_, chomp_of_not_ends hends⟩
  rcases h with rfl | rfl
  · exact chomp_of_not_ends hends
  · rw [chomp_append hends]
    exact List.append_nil _

end

theorem toLf_lf_cons (rest : Text) : toLf ('\n' :: rest) = '\n' :: toLf rest := by
  have h : crlfToLf ('\n' :: rest) = '\n' :: crlfToLf rest := by
    rw [crlfToLf]
    rintro rest' ⟨⟩
  rw [toLf, h]
  rfl

/-- The end of a line, rewritten. -/
theorem toLf_line {line start : Text} (hcr : '\r' ∉ start)
    (h : line = start ∨ line = start ++ ['\r']) (rest : Text) :
    toLf (line ++ '\n' :: rest) = start ++ '\n' :: toLf rest := by
  rcases h with rfl | rfl
  · rw [toLf_append hcr, toLf_lf_cons]
  · rw [List.append_assoc, toLf_append hcr]
    rfl

/-- **The lines of the rewritten text** are the lines of a text with plain line ends. -/
theorem follows_dropBlankEnd (text : Text) :
    EndsPlain text → Follows (lfLines text) (dropBlankEnd (lfLines (toLf text))) := by
  induction text using lfInduction with
  | last line hline =>
    intro hplain
    rw [lfLines_of_not_mem hline]
    have hplain' : EndsPlain (line ++ []) := by rwa [List.append_nil]
    obtain ⟨⟨start, hstart, heq⟩, -⟩ := exists_of_endsPlain hline hplain'
    have hlf : '\n' ∉ start := fun hmem => hline (by rcases heq with rfl | rfl <;> simp [hmem])
    obtain ⟨hchomp, hself⟩ := chomp_eq_of_or hlf hstart heq
    have hto : toLf start = start := by simpa [toLf, crlfToLf, crToLf] using toLf_append hstart []
    by_cases hnil : line = []
    · subst hnil
      exact fun i found hget hne => by cases i <;> simp_all
    have hlines : dropBlankEnd (lfLines (toLf line)) = [start] := by
      rcases heq with rfl | rfl
      · rw [hto, lfLines_of_not_mem hlf, dropBlankEnd, if_neg (by simpa using hnil)]
      · rw [toLf_append hstart]
        have hlast : lfLines (start ++ toLf ['\r']) = [start, []] := lfLines_append_cons hlf []
        rw [hlast]
        rfl
    rw [hlines]
    exact follows_cons.2 ⟨fun _ => hself.trans hchomp.symm, follows_nil _⟩
  | cons line rest hline ih =>
    intro hplain
    obtain ⟨⟨start, hstart, heq⟩, hrest⟩ := exists_of_endsPlain hline hplain
    have hlf : '\n' ∉ start := fun hmem => hline (by rcases heq with rfl | rfl <;> simp [hmem])
    obtain ⟨hchomp, hself⟩ := chomp_eq_of_or hlf hstart heq
    rw [lfLines_append_cons hline, toLf_line hstart heq, lfLines_append_cons hlf,
      dropBlankEnd_cons _ (lfLines_ne_nil _)]
    exact follows_cons.2 ⟨fun _ => hself.trans hchomp.symm, ih (endsPlain_lf_cons.1 hrest)⟩

/-! ### Single lines -/

/-- The lines with their terminators are the text. -/
theorem flatten_splitlines (text : Text) : (splitlines text).flatten = text := by
  fun_induction splitlines text with
  | case1 => rfl
  | case2 rest ih => rw [List.flatten_cons, ih]; rfl
  | case3 ch rest _ hch ih => rw [List.flatten_cons, ih]; rfl
  | case4 ch rest _ hch ih =>
    have h : ∀ lines, (consLine ch lines).flatten = ch :: lines.flatten := by
      rintro (_ | ⟨first, lines⟩) <;> rfl
    rw [h, ih]

theorem mem_consLine {ch : Char} {line : Text} {lines : List Text} (h : line ∈ consLine ch lines) :
    line = [ch] ∨ (∃ tail ∈ lines, line = ch :: tail) ∨ line ∈ lines := by
  cases lines with
  | nil => exact .inl (List.mem_singleton.1 h)
  | cons first lines =>
    rcases List.mem_cons.1 h with rfl | hmem
    · exact .inr (.inl ⟨first, List.mem_cons_self, rfl⟩)
    · exact .inr (.inr (List.mem_cons_of_mem _ hmem))

/-- A line of a text: what stands before a boundary, and its terminator if it has one. -/
theorem exists_of_mem_splitlines {line text : Text} (h : line ∈ splitlines text) :
    ∃ start, Clean start ∧
      (line = start ∨ (∃ ch ∈ breaks, line = start ++ [ch]) ∨ line = start ++ ['\r', '\n']) := by
  fun_induction splitlines text generalizing line with
  | case1 => exact absurd h List.not_mem_nil
  | case2 rest ih =>
    rcases List.mem_cons.1 h with rfl | hmem
    · exact ⟨[], by simp [Clean], .inr (.inr rfl)⟩
    · exact ih hmem
  | case3 ch rest _ hch ih =>
    rcases List.mem_cons.1 h with rfl | hmem
    · exact ⟨[], by simp [Clean], .inr (.inl ⟨ch, hch, rfl⟩)⟩
    · exact ih hmem
  | case4 ch rest _ hch ih =>
    rcases mem_consLine h with rfl | ⟨tail, hmem, rfl⟩ | hmem
    · exact ⟨[ch], by simpa [Clean] using hch, .inl rfl⟩
    · obtain ⟨start, hclean, heq⟩ := ih hmem
      refine ⟨ch :: start, List.forall_mem_cons.2 ⟨hch, hclean⟩, ?_⟩
      rcases heq with rfl | ⟨b, hb, rfl⟩ | rfl
      · exact .inl rfl
      · exact .inr (.inl ⟨b, hb, rfl⟩)
      · exact .inr (.inr rfl)
    · exact ih hmem

/-- A line of a text, its terminator rewritten. -/
theorem chomp_toLf_of_mem {line text : Text} (h : line ∈ splitlines text) :
    chomp (toLf line) = chomp line := by
  obtain ⟨start, hclean, rfl | ⟨ch, hch, rfl⟩ | rfl⟩ := exists_of_mem_splitlines h
  · have hcr : '\r' ∉ line := hclean.not_mem (by decide)
    have hto : toLf line = line := by simpa [toLf, crlfToLf, crToLf] using toLf_append hcr []
    rw [hto]
  · rw [toLf_append (hclean.not_mem (by decide)), chomp_append hclean.not_ends,
      chomp_append hclean.not_ends]
    have hone : breaks.Forall fun ch => chomp (toLf [ch]) = chomp [ch] := by decide
    rw [List.forall_iff_forall_mem.mp hone ch hch]
  · rw [toLf_append (hclean.not_mem (by decide)), chomp_append hclean.not_ends,
      chomp_append hclean.not_ends]
    rfl

/-! ### Lines that are rewritten one by one -/

/-- No pair of a carriage return and a line feed is split between two lines. -/
def Keeps (line next : Text) : Prop := line.getLast? = some '\r' → next.head? ≠ some '\n'

theorem crlfToLf_append_of_keeps {line next : Text} (h : Keeps line next) :
    crlfToLf (line ++ next) = crlfToLf line ++ crlfToLf next := by
  fun_induction crlfToLf line with
  | case1 => rfl
  | case2 rest ih =>
    have hrest : Keeps rest next := by
      cases rest with
      | nil => exact fun hlast => (nomatch hlast)
      | cons ch rest => simpa [Keeps] using h
    rw [List.cons_append, List.cons_append, crlfToLf, ih hrest, List.cons_append]
  | case3 ch rest hpair ih =>
    have hrest : Keeps rest next := by
      cases rest with
      | nil => exact fun hlast => (nomatch hlast)
      | cons ch rest => simpa [Keeps] using h
    rw [List.cons_append, crlfToLf, ih hrest, List.cons_append]
    rintro rest' rfl hrest'
    rcases rest with _ | ⟨ch, rest⟩
    · exact h rfl (by simp_all)
    · exact hpair rest rfl (by simp_all)

/-- **Two lines are rewritten apart** as they are together. -/
theorem toLf_append_of_keeps {line next : Text} (h : Keeps line next) :
    toLf (line ++ next) = toLf line ++ toLf next := by
  rw [toLf, crlfToLf_append_of_keeps h, crToLf, List.map_append]
  rfl

theorem toLf_flatten {lines : List Text} (h : lines.IsChain Keeps)
    (hne : ∀ line ∈ lines, line ≠ []) :
    toLf lines.flatten = (lines.map toLf).flatten := by
  induction lines with
  | nil => rfl
  | cons line lines ih =>
    rw [List.forall_mem_cons] at hne
    have hkeeps : Keeps line lines.flatten := by
      cases lines with
      | nil => exact fun _ hhead => (nomatch hhead)
      | cons next lines =>
        have hnext := (List.isChain_cons_cons.mp h).1
        obtain ⟨ch, next, rfl⟩ := List.exists_cons_of_ne_nil (hne.2 next List.mem_cons_self)
        exact hnext
    rw [List.flatten_cons, toLf_append_of_keeps hkeeps, ih h.tail hne.2]
    rfl

theorem ne_nil_of_mem_splitlines {line text : Text} (h : line ∈ splitlines text) : line ≠ [] := by
  fun_induction splitlines text with
  | case1 => exact absurd h List.not_mem_nil
  | case2 rest ih =>
    rcases List.mem_cons.1 h with rfl | hmem
    · exact List.cons_ne_nil _ _
    · exact ih hmem
  | case3 ch rest _ hch ih =>
    rcases List.mem_cons.1 h with rfl | hmem
    · exact List.cons_ne_nil _ _
    · exact ih hmem
  | case4 ch rest _ hch ih =>
    rcases mem_consLine h with rfl | ⟨tail, -, rfl⟩ | hmem
    · exact List.cons_ne_nil _ _
    · exact List.cons_ne_nil _ _
    · exact ih hmem

/-- The first line starts as the text does. -/
theorem head?_of_mem_head?_splitlines {line text : Text} (h : line ∈ (splitlines text).head?) :
    line.head? = text.head? := by
  have hflat := flatten_splitlines text
  obtain ⟨rest, hrest⟩ := List.head?_eq_some_iff.mp h
  obtain ⟨ch, line, rfl⟩ := List.exists_cons_of_ne_nil
    (ne_nil_of_mem_splitlines (List.mem_of_mem_head? h))
  rw [← hflat, hrest]
  rfl

/-- **No pair is split between the lines** of a text. -/
theorem isChain_splitlines (text : Text) : (splitlines text).IsChain Keeps := by
  fun_induction splitlines text with
  | case1 => exact .nil
  | case2 rest ih => exact List.isChain_cons.mpr ⟨fun next _ hlast => (nomatch hlast), ih⟩
  | case3 ch rest hpair hch ih =>
    refine List.isChain_cons.mpr ⟨fun next hnext hlast hhead => ?_, ih⟩
    rw [head?_of_mem_head?_splitlines hnext] at hhead
    obtain ⟨rest', rfl⟩ := List.head?_eq_some_iff.mp hhead
    exact hpair rest' (by simpa using hlast) rfl
  | case4 ch rest hpair hch ih =>
    -- a character in front of the first line leaves its end as it is
    rcases hlines : splitlines rest with _ | ⟨line, lines⟩
    · exact .singleton _
    · rw [hlines] at ih
      obtain ⟨hnext, hchain⟩ := List.isChain_cons.mp ih
      refine List.isChain_cons.mpr ⟨fun next hmem hlast => hnext next hmem ?_, hchain⟩
      have hne : line ≠ [] := ne_nil_of_mem_splitlines (hlines ▸ List.mem_cons_self)
      rwa [List.getLast?_cons_of_ne_nil hne] at hlast

/-! ### Slices of a line -/

/-- The slices of a line in steps of a length. -/
def slices (n : ℕ) (line : Text) : List Text :=
  (List.range ((line.length + n - 1) / n)).map fun k => (line.drop (k * n)).take n

/-- The slices of a line are the line. -/
theorem flatten_slices {n : ℕ} (hn : 0 < n) (line : Text) : (slices n line).flatten = line := by
  have htake (k : ℕ) :
      ((List.range k).map fun j => (line.drop (j * n)).take n).flatten = line.take (k * n) := by
    induction k with
    | zero => simp
    | succ k ih =>
      rw [List.range_succ, List.map_append, List.flatten_append, ih, Nat.succ_mul, List.take_add]
      simp
  have hlen : line.length ≤ (line.length + n - 1) / n * n := by
    have hmod := Nat.mod_lt (line.length + n - 1) hn
    have hdiv := Nat.div_add_mod (line.length + n - 1) n
    rw [Nat.mul_comm] at hdiv
    omega
  rw [slices, htake, List.take_of_length_le hlen]

end Text

end Lib
