import CyranoAgent.Lib.PathGlob

/-!
# The lexical normal form of a path

`normpath` is `os.path.normpath`: it works on the components of a text one after the other.
`NormalPath` is what it arrives at, leading slashes, steps up and names, with a text of its own.
`normalForm` finds the normal form of a text (`text_normalForm`), and the normal form of the text of
a normal path is that path (`normalForm_text`), so that normal paths with one text are the same.

`relpath` is `os.path.relpath` under a working directory. Below a directory it is the names that
lead down from there (`components_relpath`).
-/

namespace Lib

/-- What stands between the slashes of a text, `text.split("/")`. -/
def components (text : String) : List String := (text.toList.splitOn '/').map String.ofList

/-- The slashes in front of a path that its normal form keeps: exactly two stay two. -/
def initialSlashes (text : String) : ℕ :=
  match text.toList with
  | '/' :: '/' :: '/' :: _ => 1
  | '/' :: '/' :: _ => 2
  | '/' :: _ => 1
  | _ => 0

/-- The next component, after those that were kept. -/
def keepPart (anchored : Bool) (kept : List String) (part : String) : List String :=
  if part ≠ ".." ∨ (anchored = false ∧ kept = []) ∨ kept.getLast? = some ".." then kept ++ [part]
  else kept.dropLast

/-- The components that are kept. -/
def keptParts (anchored : Bool) (parts : List String) : List String :=
  parts.foldl (keepPart anchored) []

/-- Slashes, and the components after them; a dot where there is neither. -/
def renderPath (slashes : ℕ) (parts : List String) : String :=
  let text := String.ofList (List.replicate slashes '/') ++ "/".intercalate parts
  if text = "" then "." else text

/-- `os.path.normpath`. -/
def normpath (text : String) : String :=
  renderPath (initialSlashes text) (keptParts (0 < initialSlashes text) (pathParts text))

/-- `os.path.join`. -/
def joinPath (base path : String) : String :=
  if path.toList.head? = some '/' then path
  else if base = "" ∨ base.toList.getLast? = some '/' then base ++ path
  else base ++ "/" ++ path

/-- `os.path.abspath`, from a working directory. -/
def abspath (cwd path : String) : String := normpath (joinPath cwd path)

/-- How many components two paths share in front, the length of their `os.path.commonprefix`. -/
def commonLength : List String → List String → ℕ
  | part :: parts, part' :: parts' => if part = part' then commonLength parts parts' + 1 else 0
  | _, _ => 0

/-- `os.path.relpath` of a path that is not empty, from a working directory. -/
def relpath (cwd path start : String) : String :=
  let startParts := (components (abspath cwd start)).filter (· ≠ "")
  let parts := (components (abspath cwd path)).filter (· ≠ "")
  let common := commonLength startParts parts
  let relative := List.replicate (startParts.length - common) ".." ++ parts.drop common
  if relative = [] then "." else "/".intercalate relative

/-! ### Components -/

theorem pathParts_eq (text : String) :
    pathParts text = (components text).filter fun part => part ≠ "" ∧ part ≠ "." := rfl

/-- The components on both sides of a slash. -/
theorem components_append_slash (text text' : String) :
    components (text ++ "/" ++ text') = components text ++ components text' := by
  have htext : (text ++ "/" ++ text').toList = text.toList ++ '/' :: text'.toList := by simp
  rw [components, htext, List.splitOn_append_cons_self, List.map_append]
  rfl

theorem pathParts_append_slash (text text' : String) :
    pathParts (text ++ "/" ++ text') = pathParts text ++ pathParts text' := by
  rw [pathParts_eq, components_append_slash, List.filter_append]
  rfl

/-- Components without slashes are found again. -/
theorem components_intercalate {parts : List String} (hne : parts ≠ [])
    (h : ∀ part ∈ parts, '/' ∉ part.toList) : components ("/".intercalate parts) = parts := by
  have hchars : ("/".intercalate parts).toList = ['/'].intercalate (parts.map String.toList) := by
    rw [String.toList_intercalate]
    rfl
  have hslash : ∀ chars ∈ parts.map String.toList, '/' ∉ chars := by
    intro chars hmem
    obtain ⟨part, hpart, rfl⟩ := List.mem_map.mp hmem
    exact h part hpart
  rw [components, hchars, List.splitOn_intercalate '/' hslash (by simpa using hne), List.map_map]
  have hid : String.ofList ∘ String.toList = id := funext fun text => String.ofList_toList
  rw [hid, List.map_id]

/-- What a split leaves has no separator in it, and nothing new. -/
theorem of_mem_splitOn {chars piece : List Char} (h : piece ∈ chars.splitOn '/') :
    '/' ∉ piece ∧ piece ⊆ chars := by
  induction chars generalizing piece with
  | nil =>
    rw [List.splitOn_nil, List.mem_singleton] at h
    simp [h]
  | cons c chars ih =>
    rw [List.splitOn_cons_eq_if_modifyHead] at h
    obtain ⟨head, tail, hcons⟩ := List.exists_cons_of_ne_nil (List.splitOn_ne_nil '/' chars)
    rw [hcons] at ih h
    split at h
    next hslash =>
      rcases List.mem_cons.mp h with rfl | h
      · simp
      · exact (ih h).imp_right (List.subset_cons_of_subset c)
    next hslash =>
      have hne : '/' ≠ c := fun heq => hslash (beq_iff_eq.mpr heq.symm)
      rcases List.mem_cons.mp h with rfl | h
      · obtain ⟨hhead, hsub⟩ := ih List.mem_cons_self
        exact ⟨by simpa [hne] using hhead, List.cons_subset_cons c hsub⟩
      · exact (ih (List.mem_cons_of_mem _ h)).imp_right (List.subset_cons_of_subset c)

/-- A component has no slash in it, and no other characters than the text. -/
theorem of_mem_components {text part : String} (h : part ∈ components text) :
    '/' ∉ part.toList ∧ part.toList ⊆ text.toList := by
  obtain ⟨piece, hpiece, rfl⟩ := List.mem_map.mp h
  rw [String.toList_ofList]
  exact of_mem_splitOn hpiece

/-- What is joined has the characters of its components, and slashes. -/
theorem of_mem_intercalate {parts : List String} {c : Char}
    (h : c ∈ ("/".intercalate parts).toList) : c = '/' ∨ ∃ part ∈ parts, c ∈ part.toList := by
  induction parts with
  | nil => simp at h
  | cons part parts ih =>
    cases parts with
    | nil => exact .inr ⟨part, List.mem_cons_self, by simpa using h⟩
    | cons part' parts =>
      rw [String.intercalate_cons_cons, String.toList_append, String.toList_append,
        List.mem_append, List.mem_append] at h
      rcases h with (h | h) | h
      · exact .inr ⟨part, List.mem_cons_self, h⟩
      · exact .inl (by simpa using h)
      · exact (ih h).imp_right fun ⟨found, hfound, hc⟩ => ⟨found, List.mem_cons_of_mem _ hfound, hc⟩

/-- The parts of a path are names, or go up. -/
theorem properName_of_mem_pathParts {text part : String} (h : part ∈ pathParts text) :
    ProperName part ∨ part = ".." := by
  rw [pathParts_eq, List.mem_filter, decide_eq_true_eq] at h
  obtain ⟨hmem, hempty, hdot⟩ := h
  by_cases hup : part = ".."
  · exact .inr hup
  · exact .inl ⟨by simp [hempty, hdot, hup], (of_mem_components hmem).1⟩

/-- Names are kept. -/
theorem keptParts_append (anchored : Bool) {parts names : List String}
    (h : ∀ name ∈ names, name ≠ "..") :
    keptParts anchored (parts ++ names) = keptParts anchored parts ++ names := by
  rw [keptParts, List.foldl_append]
  change names.foldl (keepPart anchored) (keptParts anchored parts) = _
  generalize keptParts anchored parts = kept
  induction names generalizing kept with
  | nil => simp
  | cons name names ih =>
    obtain ⟨hname, hnames⟩ := List.forall_mem_cons.mp h
    rw [List.foldl_cons, keepPart, if_pos (.inl hname), ih hnames, List.append_assoc,
      List.singleton_append]

theorem initialSlashes_le_two (text : String) : initialSlashes text ≤ 2 := by
  unfold initialSlashes
  split <;> omega

/-- Only an absolute path has slashes in front. -/
theorem initialSlashes_pos {text : String} :
    0 < initialSlashes text ↔ text.toList.head? = some '/' := by
  rw [initialSlashes]
  cases text.toList with
  | nil => simp
  | cons c chars =>
    by_cases hc : c = '/'
    · subst hc
      refine iff_of_true ?_ rfl
      split <;> simp_all
    · refine iff_of_false ?_ (by simpa using hc)
      split <;> simp_all

theorem initialSlashes_eq {text : String} {slashes : ℕ} {chars : List Char} (hle : slashes ≤ 2)
    (hhead : chars.head? ≠ some '/') (htext : text.toList = List.replicate slashes '/' ++ chars) :
    initialSlashes text = slashes := by
  rw [initialSlashes, htext]
  interval_cases slashes <;> cases chars <;> simp_all [List.replicate_succ]

/-! ### Normal paths -/

/-- A path in normal form: slashes, steps up, and names. Only a relative path goes up. -/
@[ext]
structure NormalPath where
  slashes : ℕ
  ups : ℕ
  names : List String
  slashes_le : slashes ≤ 2
  ups_eq : 0 < slashes → ups = 0
  proper : ∀ name ∈ names, ProperName name
  deriving DecidableEq

namespace NormalPath

/-- The components of a normal path. -/
def parts (P : NormalPath) : List String := List.replicate P.ups ".." ++ P.names

/-- The text of a normal path. -/
def text (P : NormalPath) : String := renderPath P.slashes P.parts

/-- Where a normal path starts. -/
def start (slashes : ℕ) (h : slashes ≤ 2) : NormalPath where
  slashes := slashes
  ups := 0
  names := []
  slashes_le := h
  ups_eq _ := rfl
  proper := by simp

/-- A normal path, and what a component leads to from there. -/
def push (P : NormalPath) (part : String) : NormalPath :=
  if hpart : ProperName part then
    { P with
      names := P.names ++ [part]
      proper := by simpa [or_imp, forall_and] using ⟨P.proper, hpart⟩ }
  else if part ≠ ".." then P
  else if P.names ≠ [] then
    { P with
      names := P.names.dropLast
      proper := fun name hname => P.proper name (List.mem_of_mem_dropLast hname) }
  else if hrelative : P.slashes = 0 then
    { P with
      ups := P.ups + 1
      ups_eq := by omega }
  else P

/-- A path lies inside another one: it has the same start, and goes down from there. -/
def Inside (root P : NormalPath) : Prop :=
  (0 < root.slashes ↔ 0 < P.slashes) ∧ root.ups = P.ups ∧ root.names <+: P.names

instance (root P : NormalPath) : Decidable (root.Inside P) := inferInstanceAs (Decidable (_ ∧ _))

variable {P : NormalPath}

theorem ne_up_of_mem {name : String} (h : name ∈ P.names) : name ≠ ".." := by
  rintro rfl
  exact (P.proper _ h).1 (by simp)

theorem properName_or_of_mem_parts {part : String} (h : part ∈ P.parts) :
    ProperName part ∨ part = ".." := by
  rcases List.mem_append.mp h with h | h
  · exact .inr (List.eq_of_mem_replicate h)
  · exact .inl (P.proper part h)

theorem not_mem_of_mem_parts {part : String} (h : part ∈ P.parts) : '/' ∉ part.toList := by
  rcases properName_or_of_mem_parts h with h | rfl
  · exact h.2
  · decide

theorem ne_dot_of_mem_parts {part : String} (h : part ∈ P.parts) : part ≠ "" ∧ part ≠ "." := by
  rcases properName_or_of_mem_parts h with h | rfl
  · have hproper := h.1
    simp only [List.mem_cons, not_or] at hproper
    exact ⟨hproper.1, hproper.2.1⟩
  · decide

@[simp]
theorem slashes_push (part : String) : (P.push part).slashes = P.slashes := by
  unfold push
  split_ifs <;> rfl

/-- A component of the source is one step of a normal path. -/
theorem parts_push {part : String} (h : ProperName part ∨ part = "..") :
    (P.push part).parts = keepPart (0 < P.slashes) P.parts part := by
  rcases h with h | rfl
  · have hup : part ≠ ".." := by
      rintro rfl
      exact h.1 (by simp)
    rw [push, dif_pos h, keepPart, if_pos (.inl hup), parts, parts, List.append_assoc]
  · have hup : ¬ProperName ".." := by decide
    rw [push, dif_neg hup, if_neg (by simp), keepPart]
    by_cases hnames : P.names = []
    · have hparts : P.parts = List.replicate P.ups ".." := by rw [parts, hnames, List.append_nil]
      rw [if_neg (not_not.mpr hnames), hparts]
      split_ifs with hrelative hkeep hkeep
      · simp [parts, hnames, List.replicate_succ']
      · refine absurd ?_ hkeep
        rcases Nat.eq_zero_or_pos P.ups with hups | hups
        · exact .inr (.inl ⟨by simp [hrelative], by rw [hups, List.replicate_zero]⟩)
        · exact .inr (.inr (by rw [List.getLast?_replicate, if_neg hups.ne']))
      · have hups := P.ups_eq (Nat.pos_of_ne_zero hrelative)
        simp [hups, hrelative] at hkeep
      · rw [hparts, P.ups_eq (Nat.pos_of_ne_zero hrelative)]
        rfl
    · have hlast : P.parts.getLast? ≠ some ".." := by
        rw [parts, List.getLast?_append_of_ne_nil _ hnames]
        exact fun hup => ne_up_of_mem (List.mem_of_getLast? hup) rfl
      have hne : P.parts ≠ [] := by simp [parts, hnames]
      rw [if_pos hnames, if_neg (by simp [hne, hlast]), parts, parts,
        List.dropLast_append_of_ne_nil hnames]

/-- The components of the source are the steps of a normal path. -/
theorem parts_foldl_push {parts : List String}
    (h : ∀ part ∈ parts, ProperName part ∨ part = "..") :
    (parts.foldl push P).parts = parts.foldl (keepPart (0 < P.slashes)) P.parts := by
  induction parts generalizing P with
  | nil => rfl
  | cons part parts ih =>
    obtain ⟨hpart, hparts⟩ := List.forall_mem_cons.mp h
    rw [List.foldl_cons, List.foldl_cons, ih hparts, parts_push hpart, slashes_push]

@[simp]
theorem slashes_foldl_push (parts : List String) :
    (parts.foldl push P).slashes = P.slashes := by
  induction parts generalizing P with
  | nil => rfl
  | cons part parts ih => rw [List.foldl_cons, ih, slashes_push]

/-- Names lead down. -/
theorem foldl_push_names {names : List String} (h : ∀ name ∈ names, ProperName name) :
    (names.foldl push P).ups = P.ups ∧ (names.foldl push P).names = P.names ++ names := by
  induction names generalizing P with
  | nil => simp
  | cons name names ih =>
    obtain ⟨hname, hnames⟩ := List.forall_mem_cons.mp h
    have hpush : (P.push name).ups = P.ups ∧ (P.push name).names = P.names ++ [name] := by
      rw [push, dif_pos hname]
      exact ⟨rfl, rfl⟩
    obtain ⟨hups, hall⟩ := ih hnames (P := P.push name)
    rw [List.foldl_cons, hups, hall, hpush.1, hpush.2, List.append_assoc, List.singleton_append]
    exact ⟨rfl, rfl⟩

/-- Steps up lead up from a relative start. -/
theorem foldl_push_ups (ups : ℕ) :
    (List.replicate ups "..").foldl push (start 0 (Nat.zero_le 2)) =
      ⟨0, ups, [], Nat.zero_le 2, fun h => absurd h (lt_irrefl 0), by simp⟩ := by
  induction ups with
  | zero => rfl
  | succ ups ih =>
    have hup : ¬ProperName ".." := by decide
    rw [List.replicate_succ', List.foldl_append, ih]
    simp [push, hup]

end NormalPath

/-- **The normal form of a path.** -/
def normalForm (text : String) : NormalPath :=
  (pathParts text).foldl NormalPath.push
    (NormalPath.start (initialSlashes text) (initialSlashes_le_two text))

@[simp]
theorem slashes_normalForm (text : String) : (normalForm text).slashes = initialSlashes text :=
  NormalPath.slashes_foldl_push _

/-- **`normpath` arrives at the normal form.** -/
theorem text_normalForm (text : String) : (normalForm text).text = normpath text := by
  rw [NormalPath.text, slashes_normalForm, normalForm,
    NormalPath.parts_foldl_push fun part hpart => properName_of_mem_pathParts hpart]
  rfl

/-- Slashes and components are found again, by a test that tells them from what is empty. -/
theorem filter_components {p : String → Bool} (hempty : p "" = false) {parts : List String}
    (h : ∀ part ∈ parts, p part = true ∧ '/' ∉ part.toList) (slashes : ℕ) :
    (components (String.ofList (List.replicate slashes '/') ++ "/".intercalate parts)).filter p =
      parts := by
  induction slashes with
  | zero =>
    have hjoined : String.ofList (List.replicate 0 '/') ++ "/".intercalate parts =
        "/".intercalate parts := String.empty_append
    rw [hjoined]
    by_cases hne : parts = []
    · subst hne
      have hnone : components ("/".intercalate []) = [""] := rfl
      rw [hnone, List.filter_singleton, hempty]
      rfl
    · rw [components_intercalate hne fun part hpart => (h part hpart).2, List.filter_eq_self]
      exact fun part hpart => (h part hpart).1
  | succ slashes ih =>
    have hslash : String.ofList (List.replicate (slashes + 1) '/') ++ "/".intercalate parts =
        "" ++ "/" ++ (String.ofList (List.replicate slashes '/') ++ "/".intercalate parts) := by
      rw [← String.toList_inj]
      simp [List.replicate_succ]
    have hnone : components "" = [""] := rfl
    rw [hslash, components_append_slash, List.filter_append, ih, hnone, List.filter_singleton,
      hempty]
    rfl

namespace NormalPath

variable {P Q : NormalPath}

theorem pathParts_rendered (slashes : ℕ) :
    pathParts (String.ofList (List.replicate slashes '/') ++ "/".intercalate P.parts) =
      P.parts := by
  refine filter_components (by decide) (fun part hpart => ?_) slashes
  exact ⟨decide_eq_true (ne_dot_of_mem_parts hpart), not_mem_of_mem_parts hpart⟩

/-- The text of a normal path, where there is something to render. -/
theorem text_eq (h : 0 < P.slashes ∨ P.parts ≠ []) :
    P.text = String.ofList (List.replicate P.slashes '/') ++ "/".intercalate P.parts := by
  refine if_neg fun hempty => ?_
  have hparts := pathParts_rendered (P := P) P.slashes
  rw [hempty] at hparts
  have hslashes := congrArg String.toList hempty
  simp only [String.toList_append, String.toList_ofList, String.toList_empty,
    List.append_eq_nil_iff, List.replicate_eq_nil_iff] at hslashes
  exact h.elim (fun hpos => hpos.ne' hslashes.1) fun hne => hne hparts.symm

theorem text_of_empty (hslashes : P.slashes = 0) (hparts : P.parts = []) : P.text = "." := by
  rw [text, hslashes, hparts]
  rfl

/-- The parts of the text of a normal path. -/
@[simp]
theorem pathParts_text : pathParts P.text = P.parts := by
  by_cases h : 0 < P.slashes ∨ P.parts ≠ []
  · rw [text_eq h, pathParts_rendered]
  · obtain ⟨hslashes, hparts⟩ := not_or.mp h
    rw [text_of_empty (Nat.eq_zero_of_not_pos hslashes) (not_not.mp hparts), not_not.mp hparts]
    rfl

/-- The components of the text of an absolute normal path, without the empty ones. -/
theorem nonempty_components_text (h : 0 < P.slashes) :
    (components P.text).filter (· ≠ "") = P.parts := by
  rw [text_eq (.inl h)]
  refine filter_components (by decide) (fun part hpart => ?_) P.slashes
  exact ⟨decide_eq_true (ne_dot_of_mem_parts hpart).1, not_mem_of_mem_parts hpart⟩

/-- What is rendered behind the slashes does not start with one. -/
theorem head?_intercalate_parts : ("/".intercalate P.parts).toList.head? ≠ some '/' := by
  cases hparts : P.parts with
  | nil => decide
  | cons part parts =>
    have hmem : part ∈ P.parts := by rw [hparts]; exact List.mem_cons_self
    obtain ⟨c, chars, hchars⟩ : ∃ c chars, part.toList = c :: chars := by
      refine List.exists_cons_of_ne_nil fun hnil => (ne_dot_of_mem_parts hmem).1 ?_
      rw [← String.toList_inj, hnil]
      rfl
    have hslash := not_mem_of_mem_parts hmem
    rw [hchars, List.mem_cons, not_or] at hslash
    rw [String.toList_intercalate, List.map_cons, hchars, List.intercalate_cons_cons_left,
      List.head?_cons, Ne, Option.some.injEq]
    exact Ne.symm hslash.1

@[simp]
theorem initialSlashes_text : initialSlashes P.text = P.slashes := by
  by_cases h : 0 < P.slashes ∨ P.parts ≠ []
  · have hchars : P.text.toList =
        List.replicate P.slashes '/' ++ ("/".intercalate P.parts).toList := by
      rw [text_eq h, String.toList_append, String.toList_ofList]
    exact initialSlashes_eq P.slashes_le head?_intercalate_parts hchars
  · obtain ⟨hslashes, hparts⟩ := not_or.mp h
    rw [text_of_empty (Nat.eq_zero_of_not_pos hslashes) (not_not.mp hparts),
      Nat.eq_zero_of_not_pos hslashes]
    rfl

/-- **A normal path is the normal form of its text.** -/
@[simp]
theorem normalForm_text : normalForm P.text = P := by
  have hstart : start (initialSlashes P.text) (initialSlashes_le_two P.text) =
      start P.slashes P.slashes_le := by
    simp only [initialSlashes_text]
  have hups : ((List.replicate P.ups "..").foldl push (start P.slashes P.slashes_le)).ups = P.ups ∧
      ((List.replicate P.ups "..").foldl push (start P.slashes P.slashes_le)).names = [] := by
    rcases Nat.eq_zero_or_pos P.slashes with hslashes | hslashes
    · simp only [hslashes, foldl_push_ups, and_self]
    · simp only [P.ups_eq hslashes, List.replicate_zero, List.foldl_nil]
      exact ⟨rfl, rfl⟩
  have hnames := foldl_push_names (P := (List.replicate P.ups "..").foldl push
    (start P.slashes P.slashes_le)) P.proper
  rw [hups.1, hups.2, List.nil_append] at hnames
  have hform : normalForm P.text = P.names.foldl push ((List.replicate P.ups "..").foldl push
      (start P.slashes P.slashes_le)) := by
    rw [normalForm, hstart, pathParts_text, parts, List.foldl_append]
  refine NormalPath.ext ?_ ?_ ?_
  · rw [slashes_normalForm, initialSlashes_text]
  · rw [hform, hnames.1]
  · rw [hform, hnames.2]

theorem text_injective : Function.Injective text := fun P Q h => by
  rw [← normalForm_text (P := P), h, normalForm_text]

end NormalPath

/-- Normalisation is done once. -/
@[simp]
theorem normpath_normpath (text : String) : normpath (normpath text) = normpath text := by
  rw [← text_normalForm text, ← text_normalForm, NormalPath.normalForm_text]

/-! ### Paths inside of others -/

namespace NormalPath

variable {root P : NormalPath} {rest : List String}

theorem text_ne_empty : P.text ≠ "" := by
  simp only [text, renderPath]
  split_ifs with hempty
  · decide
  · exact hempty

/-- A text behind the text of a normal path, and a slash, starts like that path and goes on with
other components. -/
theorem parts_of_prefix (h : (root.text ++ "/").toList <+: P.text.toList) :
    (0 < root.slashes ↔ 0 < P.slashes) ∧ ∃ rest, P.parts = root.parts ++ rest := by
  obtain ⟨chars, hchars⟩ := h
  have htext : P.text = root.text ++ "/" ++ String.ofList chars := by
    rw [← String.toList_inj, ← hchars]
    simp
  refine ⟨?_, pathParts (String.ofList chars), ?_⟩
  · rw [← initialSlashes_text (P := root), ← initialSlashes_text (P := P), initialSlashes_pos,
      initialSlashes_pos, htext, String.toList_append, String.toList_append, List.append_assoc,
      List.head?_append_of_ne_nil]
    simpa using text_ne_empty
  · rw [← pathParts_text, htext, pathParts_append_slash, pathParts_text]

/-- Steps up come first. -/
theorem eq_of_replicate_append {α : Type} {a : α} {m n : ℕ} {xs ys : List α} (hxs : a ∉ ys)
    (hle : n ≤ m) (h : List.replicate n a ++ ys = List.replicate m a ++ xs) : n = m ∧ ys = xs := by
  induction n generalizing m with
  | zero =>
    cases m with
    | zero => exact ⟨rfl, h⟩
    | succ m =>
      refine absurd ?_ hxs
      rw [List.replicate_zero, List.nil_append] at h
      rw [h, List.replicate_succ]
      exact List.mem_cons_self
  | succ n ih =>
    obtain ⟨m, rfl⟩ := Nat.exists_eq_add_of_le' (Nat.one_le_of_lt hle)
    rw [List.replicate_succ, List.replicate_succ, List.cons_append, List.cons_append,
      List.cons.injEq] at h
    obtain ⟨hn, hys⟩ := ih (Nat.le_of_succ_le_succ hle) h.2
    exact ⟨by rw [hn], hys⟩

/-- What goes on from a path without going up further goes down. -/
theorem names_eq (h : P.parts = root.parts ++ rest) (hups : P.ups ≤ root.ups) :
    P.ups = root.ups ∧ P.names = root.names ++ rest := by
  rw [parts, parts, List.append_assoc] at h
  exact eq_of_replicate_append (fun hup => ne_up_of_mem hup rfl) hups h

/-- **What goes on from a path is inside it** exactly when it does not go up further. -/
theorem inside_iff (hstart : 0 < root.slashes ↔ 0 < P.slashes)
    (h : P.parts = root.parts ++ rest) : root.Inside P ↔ P.ups ≤ root.ups := by
  constructor
  · rintro ⟨-, hups, -⟩
    exact hups.ge
  · intro hups
    obtain ⟨hsame, hnames⟩ := names_eq h hups
    exact ⟨hstart, hsame.symm, rest, hnames.symm⟩

end NormalPath

/-! ### Relative paths -/

@[simp]
theorem parts_normalForm (text : String) :
    (normalForm text).parts = keptParts (0 < initialSlashes text) (pathParts text) :=
  NormalPath.parts_foldl_push fun _ hpart => properName_of_mem_pathParts hpart

/-- The parts of a path behind a directory. -/
theorem pathParts_joinPath (base path : String) :
    pathParts (joinPath base path) =
      (if path.toList.head? = some '/' then [] else pathParts base) ++ pathParts path := by
  unfold joinPath
  split
  next => rfl
  next =>
    split
    next hend =>
      rcases hend with rfl | hend
      · rw [String.empty_append]
        rfl
      · obtain ⟨front, hfront⟩ : ∃ front : String, base = front ++ "/" := by
          obtain ⟨chars, hchars⟩ := List.getLast?_eq_some_iff.mp hend
          refine ⟨String.ofList chars, ?_⟩
          rw [← String.toList_inj, hchars]
          simp
        have hbase : base = front ++ "/" ++ "" := by rw [hfront, String.append_empty]
        have hnone : pathParts "" = [] := rfl
        rw [hbase, pathParts_append_slash, hnone, List.append_nil, String.append_empty,
          pathParts_append_slash]
    next => exact pathParts_append_slash base path

/-- A path behind an absolute directory is absolute. -/
theorem head?_joinPath {base path : String} (h : base.toList.head? = some '/') :
    (joinPath base path).toList.head? = some '/' := by
  obtain ⟨chars, hchars⟩ : ∃ chars, base.toList = '/' :: chars := by
    cases hbase : base.toList with
    | nil => simp [hbase] at h
    | cons c chars =>
      rw [hbase, List.head?_cons, Option.some.injEq] at h
      exact ⟨chars, by rw [h]⟩
  unfold joinPath
  split_ifs with hpath hend
  · exact hpath
  · simp [hchars]
  · simp [hchars]

theorem nonempty_components_abspath {cwd : String} (hcwd : cwd.toList.head? = some '/')
    (path : String) :
    (components (abspath cwd path)).filter (· ≠ "") =
      keptParts true (pathParts (joinPath cwd path)) := by
  have hslashes : 0 < initialSlashes (joinPath cwd path) :=
    initialSlashes_pos.mpr (head?_joinPath hcwd)
  rw [abspath, ← text_normalForm,
    NormalPath.nonempty_components_text (by rwa [slashes_normalForm]), parts_normalForm,
    decide_eq_true hslashes]

theorem commonLength_append (parts parts' : List String) :
    commonLength parts (parts ++ parts') = parts.length := by
  induction parts with
  | nil => rfl
  | cons part parts ih => rw [List.cons_append, commonLength, if_pos rfl, ih, List.length_cons]

/-- **From a directory to a path that goes down from there** it is the names on the way. -/
theorem relpath_eq {cwd path root : String} {names : List String}
    (hcwd : cwd.toList.head? = some '/')
    (hanchor : path.toList.head? = some '/' ↔ root.toList.head? = some '/')
    (hparts : pathParts path = pathParts root ++ names) (hnames : ∀ name ∈ names, name ≠ "..") :
    relpath cwd path root = if names = [] then "." else "/".intercalate names := by
  have hkept : keptParts true (pathParts (joinPath cwd path)) =
      keptParts true (pathParts (joinPath cwd root)) ++ names := by
    rw [pathParts_joinPath, pathParts_joinPath, hparts, ← List.append_assoc,
      keptParts_append true hnames]
    simp only [hanchor]
  simp only [relpath, nonempty_components_abspath hcwd, hkept, commonLength_append, Nat.sub_self,
    List.replicate_zero, List.nil_append, List.drop_left]

/-- The components of such a path. -/
theorem components_relpath {cwd path root : String} {names : List String}
    (hcwd : cwd.toList.head? = some '/')
    (hanchor : path.toList.head? = some '/' ↔ root.toList.head? = some '/')
    (hparts : pathParts path = pathParts root ++ names)
    (hnames : ∀ name ∈ names, ProperName name) :
    components (relpath cwd path root) = if names = [] then ["."] else names := by
  rw [relpath_eq hcwd hanchor hparts fun name hname hup => (hup ▸ hnames name hname).1 (by simp)]
  split_ifs with hnone
  · rfl
  · exact components_intercalate hnone fun name hname => (hnames name hname).2

end Lib
