import CyranoAgent.Contracts.Canonical

/-!
# Values of events

The values that `json` writes and reads, with floats, and what Python asks of them: whether they are
true, whether they can be hashed, and which are equal. A float is given by its text and the number
that it is; equal values have one `key`, and this is what a set or a dictionary holds.
-/

namespace CyranoAgent

namespace Monitor

/-- A value; `other` is what `json.dumps` refuses, an object of another type or a float that is not
finite. -/
inductive Value (F : Type)
  | null
  | bool (b : Bool)
  | int (n : ℤ)
  | float (x : F)
  | str (s : String)
  | arr (items : List (Value F))
  | obj (members : List (String × Value F))
  | other

/-- The items of a dictionary. -/
abbrev Members (F : Type) := List (String × Value F)

/-- What is known of the floats. -/
structure Floats (F : Type) where
  /-- `repr(x)`. -/
  text : F → String
  /-- The number that a float is. -/
  value : F → ℚ

namespace Value

variable {F G : Type}

/-! ### Decidable equality -/

mutual

/-- Whether values are identical. -/
def identical [DecidableEq F] : Value F → Value F → Bool
  | .null, .null | .other, .other => true
  | .bool a, .bool b => a = b
  | .int m, .int n => m = n
  | .float x, .float y => x = y
  | .str s, .str t => s = t
  | .arr items, .arr items' => identicalItems items items'
  | .obj members, .obj members' => identicalMembers members members'
  | _, _ => false

/-- Whether lists are identical. -/
def identicalItems [DecidableEq F] : List (Value F) → List (Value F) → Bool
  | [], [] => true
  | v :: items, w :: items' => identical v w && identicalItems items items'
  | _, _ => false

/-- Whether the items of dictionaries are identical. -/
def identicalMembers [DecidableEq F] : Members F → Members F → Bool
  | [], [] => true
  | (key, v) :: members, (key', w) :: members' =>
    key = key' && identical v w && identicalMembers members members'
  | _, _ => false

end

mutual

theorem identical_iff [DecidableEq F] : (v w : Value F) → (identical v w = true ↔ v = w)
  | .null, w | .other, w | .bool _, w | .int _, w | .float _, w | .str _, w => by
    cases w <;> simp [identical]
  | .arr items, w => by
    cases w <;> simp [identical, identicalItems_iff items]
  | .obj members, w => by
    cases w <;> simp [identical, identicalMembers_iff members]

theorem identicalItems_iff [DecidableEq F] :
    (items items' : List (Value F)) → (identicalItems items items' = true ↔ items = items')
  | [], items' => by cases items' <;> simp [identicalItems]
  | v :: items, items' => by
    cases items' <;> simp [identicalItems, identical_iff v, identicalItems_iff items]

theorem identicalMembers_iff [DecidableEq F] :
    (members members' : Members F) → (identicalMembers members members' = true ↔ members = members')
  | [], members' => by cases members' <;> simp [identicalMembers]
  | (key, v) :: members, members' => by
    rcases members' with _ | ⟨⟨key', w⟩, members'⟩ <;>
      simp [identicalMembers, identical_iff v, identicalMembers_iff members]

end

instance [DecidableEq F] : DecidableEq (Value F) := fun v w =>
  decidable_of_iff _ (identical_iff v w)

/-! ### Texts -/

mutual

/-- `json.dumps` accepts a value. -/
def dumpable : Value F → Bool
  | .other => false
  | .arr items => dumpableItems items
  | .obj members => dumpableMembers members
  | _ => true

/-- It accepts all items. -/
def dumpableItems : List (Value F) → Bool
  | [] => true
  | v :: items => dumpable v && dumpableItems items

/-- It accepts all values of a dictionary. -/
def dumpableMembers : Members F → Bool
  | [] => true
  | (_, v) :: members => dumpable v && dumpableMembers members

end

mutual

/-- A value built anew, with its leaves replaced and its dictionaries sorted. -/
def rebuild (leaf : Value F → Value G) : Value F → Value G
  | .arr items => .arr (rebuildItems leaf items)
  | .obj members => .obj ((rebuildMembers leaf members).insertionSort fun a b => a.1 ≤ b.1)
  | v => leaf v

/-- The items of a list built anew. -/
def rebuildItems (leaf : Value F → Value G) : List (Value F) → List (Value G)
  | [] => []
  | v :: items => rebuild leaf v :: rebuildItems leaf items

/-- The values of a dictionary built anew. -/
def rebuildMembers (leaf : Value F → Value G) : Members F → Members G
  | [] => []
  | (key, v) :: members => (key, rebuild leaf v) :: rebuildMembers leaf members

end

/-- `json.loads(json.dumps(v, sort_keys=True))`. -/
def sorted (v : Value F) : Value F := v.rebuild id

/-- `type(v) is bool`. -/
def isBool : Value F → Bool
  | .bool _ => true
  | _ => false

/-- `v is True`. -/
def isTrue : Value F → Bool
  | .bool b => b
  | _ => false

section

variable (N : Floats F)

mutual

/-- `json.dumps(v, ensure_ascii=False)`. -/
def text : Value F → List Char
  | .null | .other => "null".toList
  | .bool b => (if b then "true" else "false").toList
  | .int n => n.repr.toList
  | .float x => (N.text x).toList
  | .str s => quote s
  | .arr items => '[' :: (", ".toList.intercalate (textItems items) ++ [']'])
  | .obj members =>
    Char.ofNat 123 :: (", ".toList.intercalate (textMembers members) ++ [Char.ofNat 125])

/-- The texts of the items of a list. -/
def textItems : List (Value F) → List (List Char)
  | [] => []
  | v :: items => text v :: textItems items

/-- The texts of the items of a dictionary. -/
def textMembers : Members F → List (List Char)
  | [] => []
  | (key, v) :: members => (quote key ++ ": ".toList ++ text v) :: textMembers members

end

/-! ### What Python asks -/

/-- The number that a value is, in the place of a boolean, an integer or a float. -/
def number : Value F → Value ℚ
  | .bool b => .float (if b then 1 else 0)
  | .int n => .float n
  | .float x => .float (N.value x)
  | .str s => .str s
  | .other => .other
  | _ => .null

/-- What equal values have in common: numbers are equal as numbers, and the order of a dictionary
does not matter. -/
def key (v : Value F) : Value ℚ := v.rebuild (number N)

/-- `bool(v)`. -/
def truth : Value F → Bool
  | .null => false
  | .bool b => b
  | .int n => n ≠ 0
  | .float x => N.value x ≠ 0
  | .str s => s ≠ ""
  | .arr items => !items.isEmpty
  | .obj members => !members.isEmpty
  | .other => true

/-- The key under which a set or a dictionary holds a value; a list or a dictionary has none. -/
def hashed (v : Value F) : Except Failure (Value ℚ) :=
  match v with
  | .arr _ => .error (.python "TypeError" "unhashable type: 'list'")
  | .obj _ => .error (.python "TypeError" "unhashable type: 'dict'")
  | v => .ok (v.key N)

end

end Value

end Monitor

end CyranoAgent
