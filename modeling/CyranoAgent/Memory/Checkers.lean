import CyranoAgent.Lib.PathGlob
import CyranoAgent.Memory.Obligations

/-!
# Trusted checkers

A checker is data: the fields that JSON documents have to have, the derived files that trigger files
have to have, or the digests of files. `evaluate` looks at a work tree, and skips only what it is
given as covered. An evaluator that raises leaves an unverifiable verdict.

What `==`, `repr` and `str` make of values, and the texts of the errors of readers, are parameters.
A float is not told apart from another one.
-/

namespace CyranoAgent

open Lib

namespace Memory

/-- `CHECKER_KINDS`. -/
inductive CheckerKind
  | pairedFiles | jsonFields | expectedPostimage
  deriving DecidableEq, Repr

/-- `CheckerSpec`. -/
structure CheckerSpec where
  checkerId : String
  kind : CheckerKind
  params : PyMapping
  digest : String

/-- The states of a verdict. -/
inductive VerdictState
  | satisfied | violated | unverifiable
  deriving DecidableEq, Repr

/-- `CheckerVerdict`. -/
structure CheckerVerdict where
  state : VerdictState
  detail : String
  evidenceRefs : List String := []
  deriving DecidableEq, Repr

/-- What the checkers take from Python. -/
structure Python where
  /-- The minor version of Python 3. -/
  minor : ℕ
  /-- `left == right`. -/
  equal : PyValue → PyValue → Bool
  /-- `repr(value)`. -/
  repr : PyValue → String
  /-- The text of the exception that `json.loads(data)` raises. -/
  unparsable : ByteArray → String
  /-- The text of the exception that `read_bytes` of a directory raises. -/
  unreadable : String → String

/-- `str(value)`. -/
def Python.str (py : Python) : PyValue → String
  | .str s => s
  | value => py.repr value

/-- `bool(value)`. -/
def isTruthy : PyValue → Bool
  | .none => false
  | .bool b => b
  | .int n => n ≠ 0
  | .str s => s ≠ ""
  | .list items => ¬items.isEmpty
  | .dict entries => ¬entries.isEmpty
  | .other => true

/-- `_str_map`. -/
def strMap (value : PyValue) (field : String) : Except Failure (List (String × PyValue)) :=
  match value with
  | .dict entries => entries.mapM fun entry => match entry.1 with
    | .str key => .ok (key, entry.2)
    | .other => .error (invalid (field ++ " key must str"))
  | _ => .error (invalid (field ++ " must map"))

/-- The value of a key, of a mapping with text keys. -/
def valueOf (entries : List (String × PyValue)) (key : String) : Option PyValue :=
  (entries.find? fun entry => entry.1 = key).map Prod.snd

/-- `path.stem`: since 3.14 a name may end with a dot as its suffix. -/
def stem (minor : ℕ) (name : String) : String :=
  let reversed := name.toList.reverse
  let suffix := reversed.takeWhile (· ≠ '.')
  let start := (reversed.drop (suffix.length + 1)).reverse
  if '.' ∉ reversed then name
  else if 14 ≤ minor then if start.all (· = '.') then name else String.ofList start
  else if start = [] ∨ suffix = [] then name
  else String.ofList start

/-- `text.replace("\x7bstem\x7d", stem)`. -/
def replaceStem (stem : List Char) : List Char → List Char
  | '\x7b' :: 's' :: 't' :: 'e' :: 'm' :: '\x7d' :: rest => stem ++ replaceStem stem rest
  | c :: rest => c :: replaceStem stem rest
  | [] => []

section

variable (py : Python)

/-- What is wrong with a field of a document. -/
def fieldFailure (document : PyMapping) (stem name : String) (rule : PyValue) :
    Except Failure (List String) := do
  let ruleMap ← strMap rule ("field " ++ name ++ " rule")
  match document.get? name with
  | none =>
    return [if (valueOf ruleMap "required").isSome then name ++ " missing" else name ++ " absent"]
  | some actual =>
    let equals := match valueOf ruleMap "equals" with
      | some expected =>
        if py.equal actual expected then [] else [name ++ "!=" ++ py.repr expected]
      | none => []
    let oneOf := match valueOf ruleMap "one_of" with
      | none => []
      | some .none => []
      | some (.list options) =>
        if options.any (py.equal actual) then []
        else [name ++ " not in " ++ py.repr (.list options)]
      | some value => [name ++ " not in " ++ py.str value]
    let stems :=
      if (valueOf ruleMap "matches_stem").any isTruthy ∧ ¬py.equal actual (.str stem) then
        [name ++ "!=" ++ py.repr (.str stem)]
      else []
    return equals ++ oneOf ++ stems

/-- `_field_failures`. -/
def fieldFailures (fields : List (String × PyValue)) (document : PyMapping) (stem : String) :
    Except Failure (List String) :=
  (fields.mapM fun field => fieldFailure py document stem field.1 field.2).map List.flatten

variable (P : Primitives) (T : FileTree) (root : List String)

/-- The name of `root / text`. -/
def nameOf (text : String) : String :=
  (((if text.toList.head? = some '/' then [] else root) ++ pathParts text).getLast?).getD ""

/-- `_json_document`, or what is wrong with it. -/
def jsonDocument (text : String) : TreeNode → Except String PyMapping
  | .directory => .error (nameOf root text ++ " unparsable: " ++ py.unreadable text)
  | .file content =>
    match P.loads content with
    | none => .error (nameOf root text ++ " unparsable: " ++ py.unparsable content)
    | some (.dict body) => .ok body
    | some _ => .error (nameOf root text ++ " is not a JSON object")

/-- A glob, and what it raises. -/
def globPaths (pattern : String) : Except Failure (List (List String)) :=
  match T.glob py.minor root pattern with
  | .ok found => .ok found
  | .error .absolute =>
    .error (.python "NotImplementedError" "Non-relative patterns are unsupported")
  | .error .unacceptable =>
    .error (.python "ValueError" ("Unacceptable pattern: " ++ py.repr (.str pattern)))
  | .error .mixed =>
    .error (.python "ValueError" "Invalid pattern: '**' can only be an entire path component")

/-- `str(params[key])`. -/
def textParam (params : PyMapping) (key : String) : Except Failure String :=
  match params.get? key with
  | some value => .ok (py.str value)
  | none => .error (.python "KeyError" (py.repr (.str key)))

/-! ### The evaluators -/

/-- A trigger file, its stem and its derived file. -/
structure FilePair where
  rel : String
  stem : String
  derivedRel : String
  deriving DecidableEq, Repr

/-- The trigger files with their derived files, in the order of their paths. -/
def pairedFiles (trigger derive : String) : Except Failure (List FilePair) := do
  let found ← globPaths py T root trigger
  return (found.insertionSort (· ≤ ·)).map fun path =>
    let stem := stem py.minor ((root ++ path).getLast?.getD "")
    { rel := posix path, stem
      derivedRel := String.ofList (replaceStem stem.toList derive.toList) }

/-- The pair is skipped. -/
def FilePair.Skipped (covered : List String) (pair : FilePair) : Prop :=
  pair.rel ∈ covered ∨ pair.derivedRel ∈ covered

instance (covered : List String) (pair : FilePair) : Decidable (pair.Skipped covered) :=
  inferInstanceAs (Decidable (_ ∨ _))

/-- The pairs that are checked. -/
def checkedPairs (covered : List String) (pairs : List FilePair) : List FilePair :=
  pairs.filter fun pair => ¬pair.Skipped covered

/-- What is wrong with a pair. -/
def pairViolations (required : Bool) (fields : List (String × PyValue)) (pair : FilePair) :
    Except Failure (List String) :=
  match T.lookup root pair.derivedRel with
  | none => .ok (if required then [pair.rel ++ ": missing " ++ pair.derivedRel] else [])
  | some entry =>
    match jsonDocument py P root pair.derivedRel entry with
    | .error text => .ok [pair.rel ++ ": " ++ text]
    | .ok document =>
      (fieldFailures py fields document pair.stem).map fun failures =>
        failures.map fun failure => pair.derivedRel ++ ": " ++ failure

/-- The verdict on what was checked. -/
def verdictOn (violations : List String) (checked : ℕ) (nothing conform : String) :
    CheckerVerdict :=
  if violations ≠ [] then ⟨.violated, "; ".intercalate violations, violations⟩
  else if checked = 0 then ⟨.unverifiable, nothing, []⟩
  else ⟨.satisfied, toString checked ++ conform, []⟩

theorem verdictOn_violated_iff {violations : List String} {checked : ℕ} {nothing conform : String} :
    (verdictOn violations checked nothing conform).state = .violated ↔ violations ≠ [] := by
  rw [verdictOn]
  split_ifs with hviolations hchecked
  · exact iff_of_true rfl hviolations
  · exact iff_of_false nofun hviolations
  · exact iff_of_false nofun hviolations

/-- `_eval_paired_files`. -/
def evalPairedFiles (params : PyMapping) (covered : List String) :
    Except Failure CheckerVerdict := do
  let trigger ← textParam py params "trigger"
  let derive ← textParam py params "derive"
  let required := isTruthy ((params.get? "required").getD (.bool true))
  let fields ← strMap ((params.get? "json_fields").getD (.dict [])) "json_fields"
  let checked := checkedPairs covered (← pairedFiles py T root trigger derive)
  let violations ← checked.mapM (pairViolations py P T root required fields)
  return verdictOn violations.flatten checked.length "no trigger paths matched" " pairs conform"

/-- What is wrong with a touched file. -/
def fileViolations (missingIsViolation : Bool) (fields : List (String × PyValue)) (rel : String) :
    Except Failure (List String) :=
  match T.lookup root rel with
  | none => .ok (if missingIsViolation then [rel ++ " deleted"] else [])
  | some entry =>
    match jsonDocument py P root rel entry with
    | .error text => .ok [rel ++ ": " ++ text]
    | .ok document =>
      (fieldFailures py fields document (stem py.minor (nameOf root rel))).map fun failures =>
        failures.map fun failure => rel ++ ": " ++ failure

/-- `_eval_json_fields`. -/
def evalJsonFields (params : PyMapping) (touched covered : List String) :
    Except Failure CheckerVerdict := do
  let pattern ← textParam py params "files"
  let fields ← match params.get? "fields" with
    | some value => strMap value "fields"
    | none => .error (.python "KeyError" (py.repr (.str "fields")))
  let missingIsViolation := (params.get? "missing_is_violation").any isTruthy
  let checked := (Planning.sortedSet touched).filter fun rel =>
    rel ∉ covered ∧ Glob.fnmatchcase rel pattern
  let violations ← checked.mapM (fileViolations py P T root missingIsViolation fields)
  return verdictOn violations.flatten checked.length "no touched paths matched" " files conform"

/-- What is wrong with a file that has to have a digest. -/
def postimageViolation (rel : String) (expected : PyValue) : Except Failure (List String) :=
  match expected with
  | .str expected => .ok <|
    match T.lookup root rel with
    | none => [rel ++ " missing"]
    | some .directory => [rel ++ " unreadable: " ++ py.unreadable rel]
    | some (.file content) =>
      if rawDigest content = expected then [] else [rel ++ " digest " ++ rawDigest content]
  | _ => .error (.python "AssertionError" "")

/-- `_eval_expected_postimage`. -/
def evalExpectedPostimage (params : PyMapping) : Except Failure CheckerVerdict := do
  let files ← match params.get? "files" with
    | some value => strMap value "files"
    | none => .error (.python "KeyError" (py.repr (.str "files")))
  let violations ← (files.insertionSort fun file file' => file.1 ≤ file'.1).mapM fun file =>
    postimageViolation py T root file.1 file.2
  return if violations.flatten ≠ [] then
      ⟨.violated, "; ".intercalate violations.flatten, violations.flatten⟩
    else ⟨.satisfied, "postimages match", []⟩

/-- `_EVALUATORS[spec.kind]`. -/
def evaluator (spec : CheckerSpec) (touched covered : List String) :
    Except Failure CheckerVerdict :=
  match spec.kind with
  | .pairedFiles => evalPairedFiles py P T root spec.params covered
  | .jsonFields => evalJsonFields py P T root spec.params touched covered
  | .expectedPostimage => evalExpectedPostimage py T root spec.params

/-- A touched path that could lead out of the work tree. -/
def Unsafe (rel : String) : Prop := rel.toList.head? = some '/' ∨ ".." ∈ pathParts rel

instance (rel : String) : Decidable (Unsafe rel) := inferInstanceAs (Decidable (_ ∨ _))

/-- `f"{exc.code} {exc}"` of a `CyranoError`, `str(exc)` of another exception. -/
def failureDetail : Failure → String
  | .cyrano code message => code ++ " " ++ (Failure.cyrano code message).text
  | e => e.text

/-- `evaluate`. The touched paths are a set: which unsafe one is named is not determined. -/
def evaluate (spec : CheckerSpec) (touched covered : List String) : CheckerVerdict :=
  match touched.find? fun rel => Unsafe rel with
  | some rel => ⟨.unverifiable, "unsafe touched path " ++ rel, []⟩
  | none =>
    match evaluator py P T root spec touched covered with
    | .ok verdict => verdict
    | .error e => ⟨.unverifiable, failureDetail e, []⟩

end

/-! ### The registry -/

/-- `TrustedCheckerRegistry`. -/
structure TrustedCheckerRegistry where
  specs : Dict String CheckerSpec
  blobs : Dict String ByteArray

/-- `resolve`. -/
def TrustedCheckerRegistry.resolve (registry : TrustedCheckerRegistry)
    (reprText : String → String) (checkerId : String) (expectedDigest : Option String) :
    Except Failure CheckerSpec :=
  match registry.specs.get? checkerId with
  | none => .error (.cyrano "CAPABILITY_UNAVAILABLE" ("checker " ++ reprText checkerId))
  | some spec =>
    if ∃ blob ∈ registry.blobs.get? checkerId, rawDigest blob ≠ spec.digest then
      .error (.cyrano "CHECKER_DIGEST_MISMATCH" ("checker " ++ checkerId ++ " store diverged"))
    else if ∃ digest ∈ expectedDigest, spec.digest ≠ digest then
      .error (.cyrano "CHECKER_DIGEST_MISMATCH"
        ("checker " ++ checkerId ++ " bound " ++ expectedDigest.getD ""))
    else .ok spec

end Memory

end CyranoAgent
