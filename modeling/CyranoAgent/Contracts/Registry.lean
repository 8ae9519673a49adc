import CyranoAgent.Contracts.JsonSchema
import CyranoAgent.Lib.Outcome
import CyranoAgent.Planning.Subject
import Mathlib.Logic.Relation

/-!
# The structural check of the contract registry

`check` follows one `$ref`, asks for one of five types, and goes into the members and the items
that a type `object` or `array` lets it see. What it reads it holds the value to
(`check_eq_ok_iff`), and every valid value passes. What it passes over it does not ask: the
keywords beside a `$ref` and behind a second one, those without their type, other types, a constant
`null`, and the difference of a boolean and a number in a constant. So it agrees with JSON Schema
exactly on the values that satisfy what is passed over, or break what is read (`check_agrees_iff`).
-/

namespace CyranoAgent

open Lib JsonSchema Planning

/-! ### Equality as Python has it -/

mutual

/-- `v == w`: a boolean equals the number it is. -/
def Json.pyEq : Json → Json → Bool
  | .null, .null => true
  | .bool a, .bool b => a = b
  | .bool a, .int n | .int n, .bool a => n = if a then 1 else 0
  | .int m, .int n => m = n
  | .str s, .str t => s = t
  | .arr items, .arr items' => Json.pyEqItems items items'
  | .obj members, .obj members' =>
    members.length = members'.length && Json.pyEqMembers members members'
  | _, _ => false

/-- Lists are equal item by item. -/
def Json.pyEqItems : List Json → List Json → Bool
  | [], [] => true
  | v :: items, w :: items' => Json.pyEq v w && Json.pyEqItems items items'
  | _, _ => false

/-- Each member equals a member under its key. -/
def Json.pyEqMembers : List (String × Json) → List (String × Json) → Bool
  | [], _ => true
  | (key, v) :: members, members' =>
    (members'.any fun member => member.1 = key && Json.pyEq v member.2) &&
      Json.pyEqMembers members members'

end

/-- `bool(v)`. -/
def Json.truth : Json → Bool
  | .null => false
  | .bool b => b
  | .int n => n ≠ 0
  | .str s => s ≠ ""
  | .arr items => !items.isEmpty
  | .obj members => !members.isEmpty

namespace Registry

/-! ### References -/

/-- `node.get(key)`. -/
def get (node : JsonMap) (key : String) : Json := (node.find? key).getD .null

/-- `_defs`. -/
def defs (schema : JsonMap) : JsonMap :=
  let table := get schema "$defs"
  match if table.truth then table else get schema "definitions" with
  | .obj definitions => definitions
  | _ => []

/-- The definition that `_resolve` puts in the place of a node. -/
def followed? (root node : JsonMap) : Option JsonMap :=
  match get node "$ref" with
  | .str ref =>
    match (after? "#/$defs/" ref).bind (defs root).find? with
    | some (.obj target) => some target
    | _ =>
      match (after? "#/definitions/" ref).bind (defs root).find? with
      | some (.obj target) => some target
      | _ => none
  | _ => none

/-- `_resolve`. -/
def resolve (root node : JsonMap) : JsonMap := (followed? root node).getD node

/-! ### The check -/

/-- `node.get("type") == kind`. -/
def typeIs (node : JsonMap) (kind : String) : Bool :=
  match get node "type" with
  | .str type => type = kind
  | _ => false

/-- The required fields of a node, none where they are no list. -/
def requiredOf (node : JsonMap) : List Json :=
  match get node "required" with
  | .arr required => required
  | _ => []

/-- The properties of a node, none where they are no object. -/
def propertiesOf (node : JsonMap) : JsonMap :=
  match get node "properties" with
  | .obj properties => properties
  | _ => []

section

variable (reprJson : Json → String)

/-- A document that is not what the schema says. -/
def invalid {α : Type} (message : String) : Except Failure α :=
  .error (.cyrano "SCHEMA_INVALID" message)

/-- The loop over the `required` fields. -/
def checkRequired (members : JsonMap) (path : String) : List Json → Except Failure Unit
  | [] => .ok ()
  | .str field :: required =>
    if field ∈ members.map Prod.fst then checkRequired members path required
    else invalid (path ++ "." ++ field ++ ": required field missing")
  | _ :: required => checkRequired members path required

/-- The fields that are no properties, where `additionalProperties` is `False`. -/
def checkExtra (node members : JsonMap) (path : String) : Except Failure Unit :=
  match get node "additionalProperties" with
  | .bool false =>
    let extra := (members.map Prod.fst).filter (· ∉ (propertiesOf node).map Prod.fst)
    match sortedStrings extra with
    | [] => .ok ()
    | field :: _ => invalid (path ++ ": unknown field " ++ reprJson (.str field))
  | _ => .ok ()

/-- `value is not None`. -/
def notNone : Json → Bool
  | .null => false
  | _ => true

/-- The constants of a node. -/
def checkConstants (value : Json) (node : JsonMap) (path : String) : Except Failure Unit :=
  let const := get node "const"
  if notNone const && !value.pyEq const then
    invalid (path ++ ": expected const " ++ reprJson const)
  else
    match get node "enum" with
    | .arr options =>
      if options ≠ [] ∧ !options.any value.pyEq then invalid (path ++ ": value not in enum")
      else .ok ()
    | _ => .ok ()

/-- A value of a type without parts. -/
def checkScalar (value : Json) (node : JsonMap) (path : String) : Except Failure Unit :=
  if typeIs node "string" && !hasType "string" value then invalid (path ++ ": expected string")
  else if typeIs node "integer" && !hasType "integer" value then
    invalid (path ++ ": expected integer")
  else if typeIs node "boolean" && !hasType "boolean" value then
    invalid (path ++ ": expected boolean")
  else .ok ()

variable (root : JsonMap)

mutual

/-- `_check`. -/
def check (value : Json) (node : JsonMap) (path : String) : Except Failure Unit :=
  let node := resolve root node
  (if typeIs node "object" then
    match value with
    | .obj members =>
      checkRequired members path (requiredOf node) >>= fun _ =>
        checkExtra reprJson node members path >>= fun _ =>
          checkMembers members (propertiesOf node) path
    | _ => invalid (path ++ ": expected object")
  else if typeIs node "array" then
    match value with
    | .arr items =>
      match get node "items" with
      | .obj sub => checkItems items sub 0 path
      | _ => .ok ()
    | _ => invalid (path ++ ": expected array")
  else checkScalar value node path) >>= fun _ => checkConstants reprJson value node path

/-- The loop over the members of an object. -/
def checkMembers (members : List (String × Json)) (properties : JsonMap) (path : String) :
    Except Failure Unit :=
  match members with
  | [] => .ok ()
  | (key, item) :: members =>
    (match properties.find? key with
    | some (.obj sub) => check item sub (path ++ "." ++ key)
    | _ => .ok ()) >>= fun _ => checkMembers members properties path

/-- The loop over the items of an array. -/
def checkItems (items : List Json) (sub : JsonMap) (index : ℕ) (path : String) :
    Except Failure Unit :=
  match items with
  | [] => .ok ()
  | item :: items =>
    check item sub (path ++ "[" ++ toString index ++ "]") >>= fun _ =>
      checkItems items sub (index + 1) path

end

end

/-! ### What is read and what is passed over -/

/-- The types that a check asks for. -/
def readTypes : List String := ["object", "array", "string", "integer", "boolean"]

/-- The check of a value goes on with a schema and a part of it. -/
inductive Follows (node : JsonMap) : Json → JsonMap → Json → Prop
  | property {properties members sub : JsonMap} {key : String} {part : Json}
      (htype : node.find? "type" = some (.str "object"))
      (hproperties : node.find? "properties" = some (.obj properties))
      (hsub : properties.find? key = some (.obj sub)) (hpart : (key, part) ∈ members) :
      Follows node (.obj members) sub part
  | item {items : List Json} {sub : JsonMap} {part : Json}
      (htype : node.find? "type" = some (.str "array"))
      (hsub : node.find? "items" = some (.obj sub)) (hpart : part ∈ items) :
      Follows node (.arr items) sub part

/-- A part is looked at: the check goes on with it, or it is no property of an object that may have
no other. -/
inductive Seen (node : JsonMap) : Json → Json → Json → Prop
  | followed {v part : Json} {sub : JsonMap} (h : Follows node v sub part) :
      Seen node v (.obj sub) part
  | closed {members : JsonMap} {key : String} {part : Json}
      (htype : node.find? "type" = some (.str "object"))
      (hclosed : node.find? "additionalProperties" = some (.bool false))
      (hpart : (key, part) ∈ members) (hkey : key ∉ propertyNames node) :
      Seen node (.obj members) (.bool false) part

/-- What the check reads of a node holds of the value, constants as Python compares them. -/
structure ReadHere (node : JsonMap) (v : Json) : Prop where
  type : ∀ type ∈ readTypes, node.find? "type" = some (.str type) → hasType type v
  required : node.find? "type" = some (.str "object") → RequiredHolds node v
  closed : node.find? "type" = some (.str "object") →
    node.find? "additionalProperties" = some (.bool false) →
      ∀ members, v = .obj members → ∀ key ∈ members.map Prod.fst, key ∈ propertyNames node
  const : ∀ c, node.find? "const" = some c → c ≠ .null → v.pyEq c
  enum : ∀ options, node.find? "enum" = some (.arr options) → options ≠ [] →
    ∃ c ∈ options, v.pyEq c

/-- What the check passes over at a node holds of the value. -/
structure PassedHere (root node : JsonMap) (v : Json) : Prop where
  /-- The keywords beside a `$ref` that is followed. -/
  beside : ∀ n, followed? root node = some n →
    Valid root (.obj (withoutRef node)) v
  /-- The definition is what the `$ref` names. -/
  named : ∀ n, followed? root node = some n →
    ∀ ref, node.find? "$ref" = some (.str ref) → target? root ref = some (.obj n)
  /-- A `$ref` that is not followed: the second of a chain, or one without an object behind it. -/
  reference : ∀ ref, (resolve root node).find? "$ref" = some (.str ref) →
    ∃ schema, target? root ref = some schema ∧ Valid root schema v
  /-- Other types than the five, and lists of types. -/
  type : (∀ type ∈ readTypes, (resolve root node).find? "type" ≠ some (.str type)) →
    TypeHolds (resolve root node) v
  /-- `required` without the type `object`. -/
  required : (resolve root node).find? "type" ≠ some (.str "object") →
    RequiredHolds (resolve root node) v
  /-- Schemas of parts that are not looked at: without the type, or no objects, or of other
  members. -/
  parts : ∀ sub part, Applies (resolve root node) v sub part →
    ¬Seen (resolve root node) v sub part → Valid root sub part
  /-- A constant `null`, and a boolean that equals a number. -/
  const : ∀ c, (resolve root node).find? "const" = some c → c = .null ∨ v.pyEq c → v.Same c
  /-- No constants at all, and a boolean that equals a number. -/
  enum : ∀ options, (resolve root node).find? "enum" = some (.arr options) →
    (options = [] ∨ ∃ c ∈ options, v.pyEq c) → ∃ c ∈ options, v.Same c

section

variable (root node : JsonMap) (v : Json)

/-- The check of a value comes to a node and a value within. -/
def Comes (place : JsonMap × Json) : Prop :=
  Relation.ReflTransGen (fun p q => Follows (resolve root p.1) p.2 q.1 q.2) (node, v) place

/-- The value satisfies all that the check reads. -/
def Read : Prop := ∀ place, Comes root node v place → ReadHere (resolve root place.1) place.2

/-- The value satisfies all that the check passes over. -/
def Passed : Prop := ∀ place, Comes root node v place → PassedHere root place.1 place.2

end

/-! ### The check reads -/

section

variable {reprJson : Json → String} {root node sub : JsonMap} {v part : Json} {path : String}

theorem get_eq_iff {key : String} {w : Json} (hw : w ≠ .null) :
    get node key = w ↔ node.find? key = some w := by
  rw [get]
  rcases node.find? key with - | w'
  · exact ⟨fun h => absurd h.symm hw, fun h => (nomatch h)⟩
  · rw [Option.getD_some, Option.some.injEq]

theorem typeIs_iff {kind : String} :
    typeIs node kind = true ↔ node.find? "type" = some (.str kind) := by
  rw [← get_eq_iff Json.noConfusion, typeIs]
  split
  · next type htype => rw [htype, decide_eq_true_iff, Json.str.injEq]
  · next hother => exact ⟨fun h => (nomatch h), fun h => absurd h (hother kind)⟩

theorem map_fst_propertiesOf : (propertiesOf node).map Prod.fst = propertyNames node := by
  rw [propertiesOf, propertyNames, get]
  rcases node.find? "properties" with - | w
  · rfl
  · cases w <;> rfl

theorem find?_propertiesOf {key : String} {w : Json} :
    (propertiesOf node).find? key = some w ↔
      ∃ properties, node.find? "properties" = some (.obj properties) ∧
        JsonMap.find? properties key = some w := by
  rw [propertiesOf]
  split
  · next properties hproperties =>
    rw [(get_eq_iff Json.noConfusion).mp hproperties]
    simp
  · next hother =>
    refine ⟨fun h => (nomatch h), ?_⟩
    rintro ⟨properties, hproperties, -⟩
    exact absurd ((get_eq_iff Json.noConfusion).mpr hproperties) (hother properties)

theorem mem_requiredOf {name : Json} :
    name ∈ requiredOf node ↔ ∃ names, node.find? "required" = some (.arr names) ∧ name ∈ names := by
  rw [requiredOf]
  split
  · next names hnames =>
    rw [(get_eq_iff Json.noConfusion).mp hnames]
    simp
  · next hother =>
    refine ⟨fun h => absurd h List.not_mem_nil, ?_⟩
    rintro ⟨names, hnames, -⟩
    exact absurd ((get_eq_iff Json.noConfusion).mpr hnames) (hother names)

theorem invalid_ne_ok {message : String} : (invalid message : Except Failure Unit) ≠ .ok () :=
  fun h => nomatch h

/-- A guard succeeds when it does not refuse. -/
theorem guard_eq_ok {refused : Bool} {message : String} {x : Except Failure Unit} :
    (if refused then invalid message else x) = .ok () ↔ refused = false ∧ x = .ok () := by
  cases refused
  · simp
  · simp [invalid]

theorem checkRequired_eq_ok {members : JsonMap} {required : List Json} :
    checkRequired members path required = .ok () ↔
      ∀ name, .str name ∈ required → name ∈ members.map Prod.fst := by
  induction required with
  | nil => exact ⟨fun _ _ h => absurd h List.not_mem_nil, fun _ => rfl⟩
  | cons field required ih =>
    simp only [List.mem_cons]
    rcases hfield : field with - | b | n | name | items | members'
    case str =>
      rw [checkRequired]
      by_cases hname : name ∈ members.map Prod.fst
      · rw [if_pos hname, ih]
        refine ⟨fun h other => ?_, fun h other hother => h other (Or.inr hother)⟩
        rintro (heq | hother)
        · rwa [Json.str.inj heq]
        · exact h other hother
      · rw [if_neg hname]
        exact ⟨fun h => absurd h invalid_ne_ok, fun h => absurd (h name (Or.inl rfl)) hname⟩
    all_goals
      rw [checkRequired, ih]
      · simp
      · exact fun _ => Json.noConfusion

theorem checkExtra_eq_ok {members : JsonMap} :
    checkExtra reprJson node members path = .ok () ↔
      (node.find? "additionalProperties" = some (.bool false) →
        ∀ key ∈ members.map Prod.fst, key ∈ propertyNames node) := by
  rw [← get_eq_iff Json.noConfusion, checkExtra]
  split
  · next hclosed =>
    rw [hclosed, map_fst_propertiesOf]
    dsimp only
    split
    · next hnil =>
      refine ⟨fun _ _ key hkey => ?_, fun _ => rfl⟩
      by_contra hnot
      have hextra := List.filter_eq_nil_iff.mp (List.Perm.eq_nil (hnil ▸ perm_sortedStrings _).symm)
      exact hextra key hkey (decide_eq_true hnot)
    · next field fields hcons =>
      refine ⟨fun h => absurd h invalid_ne_ok, fun h => ?_⟩
      have hmem : field ∈ sortedStrings _ := hcons ▸ List.mem_cons_self
      obtain ⟨hkey, hnot⟩ := List.mem_filter.mp (mem_sortedStrings.mp hmem)
      exact absurd (h rfl field hkey) (of_decide_eq_true hnot)
  · next hother => exact ⟨fun _ h => absurd h hother, fun _ => rfl⟩

theorem notNone_iff : notNone v = true ↔ v ≠ .null := by
  cases v <;> simp [notNone]

theorem checkConstants_eq_ok :
    checkConstants reprJson v node path = .ok () ↔
      (∀ c, node.find? "const" = some c → c ≠ .null → v.pyEq c) ∧
        ∀ options, node.find? "enum" = some (.arr options) → options ≠ [] →
          ∃ c ∈ options, v.pyEq c := by
  have hconst : (notNone (get node "const") && !v.pyEq (get node "const")) = false ↔
      ∀ c, node.find? "const" = some c → c ≠ .null → v.pyEq c := by
    rw [Bool.and_eq_false_imp, notNone_iff, Bool.not_eq_false']
    constructor
    · intro h c hc hnull
      have hget := (get_eq_iff hnull).mpr hc
      rw [hget] at h
      exact h hnull
    · intro h hnull
      exact h _ ((get_eq_iff hnull).mp rfl) hnull
  have henum : (match get node "enum" with
      | .arr options => if options ≠ [] ∧ !options.any v.pyEq then
          invalid (path ++ ": value not in enum") else .ok ()
      | _ => .ok ()) = (.ok () : Except Failure Unit) ↔
      ∀ options, node.find? "enum" = some (.arr options) → options ≠ [] →
        ∃ c ∈ options, v.pyEq c := by
    split
    · next options hoptions =>
      rw [(get_eq_iff Json.noConfusion).mp hoptions]
      split
      · next hnone =>
        refine ⟨fun h => absurd h invalid_ne_ok, fun h => ?_⟩
        obtain ⟨c, hc, heq⟩ := h options rfl hnone.1
        rw [List.any_eq_true.mpr ⟨c, hc, heq⟩] at hnone
        exact absurd hnone.2 Bool.false_ne_true
      · next hsome =>
        refine ⟨fun _ options' heq hne => ?_, fun _ => rfl⟩
        obtain rfl := Json.arr.inj (Option.some.inj heq)
        simpa [hne] using hsome
    · next hother =>
      exact ⟨fun _ options h => absurd ((get_eq_iff Json.noConfusion).mpr h) (hother options),
        fun _ => rfl⟩
  rw [← hconst, ← henum, checkConstants]
  cases notNone (get node "const") && !v.pyEq (get node "const")
  · simp
  · simp [invalid]

theorem checkScalar_eq_ok :
    checkScalar v node path = .ok () ↔
      ∀ type ∈ ["string", "integer", "boolean"], node.find? "type" = some (.str type) →
        hasType type v := by
  simp only [checkScalar, guard_eq_ok, ← typeIs_iff, List.forall_mem_cons, List.not_mem_nil,
    false_imp_iff, implies_true, and_true, Bool.and_eq_false_imp, Bool.not_eq_false']

/-- What the check reads holds at a place, and at those that it goes on to. -/
theorem read_iff :
    Read root node v ↔ ReadHere (resolve root node) v ∧
      ∀ sub part, Follows (resolve root node) v sub part → Read root sub part := by
  constructor
  · intro h
    exact ⟨h (node, v) .refl, fun sub part hfollows place hcomes => h place (.head hfollows hcomes)⟩
  · rintro ⟨hhere, hrest⟩ place hcomes
    obtain heq | ⟨next, hfollows, hcomes⟩ := hcomes.cases_head
    · rw [← heq]
      exact hhere
    · exact hrest next.1 next.2 hfollows place hcomes

/-- The check passes over what it does at a place, and at those that it goes on to. -/
theorem passed_iff :
    Passed root node v ↔ PassedHere root node v ∧
      ∀ sub part, Follows (resolve root node) v sub part → Passed root sub part := by
  constructor
  · intro h
    exact ⟨h (node, v) .refl, fun sub part hfollows place hcomes => h place (.head hfollows hcomes)⟩
  · rintro ⟨hhere, hrest⟩ place hcomes
    obtain heq | ⟨next, hfollows, hcomes⟩ := hcomes.cases_head
    · rw [← heq]
      exact hhere
    · exact hrest next.1 next.2 hfollows place hcomes

theorem checkMembers_eq_ok {members properties : JsonMap}
    (ih : ∀ member ∈ members, ∀ sub path,
      check reprJson root member.2 sub path = .ok () ↔ Read root sub member.2) :
    checkMembers reprJson root members properties path = .ok () ↔
      ∀ key part, (key, part) ∈ members → ∀ sub,
        JsonMap.find? properties key = some (.obj sub) → Read root sub part := by
  induction members with
  | nil => rw [checkMembers]; simp
  | cons member members ihm =>
    obtain ⟨key, item⟩ := member
    rw [checkMembers, except_seq_eq_ok, ihm fun m hm => ih m (List.mem_cons_of_mem _ hm)]
    have hitem : (match JsonMap.find? properties key with
        | some (.obj sub) => check reprJson root item sub (path ++ "." ++ key)
        | _ => .ok ()) = .ok () ↔
        ∀ sub, JsonMap.find? properties key = some (.obj sub) → Read root sub item := by
      split
      · next sub hsub =>
        rw [ih _ List.mem_cons_self]
        refine ⟨fun h sub' hsub' => ?_, fun h => h sub hsub⟩
        rwa [← Json.obj.inj (Option.some.inj (hsub.symm.trans hsub'))]
      · next hother => exact ⟨fun _ sub h => absurd h (hother sub), fun _ => rfl⟩
    rw [hitem]
    constructor
    · rintro ⟨h, hrest⟩ key' part hpart
      obtain heq | hpart := List.mem_cons.mp hpart
      · obtain ⟨rfl, rfl⟩ := Prod.mk.inj heq
        exact h
      · exact hrest key' part hpart
    · intro h
      exact ⟨h key item List.mem_cons_self, fun key' part hpart =>
        h key' part (List.mem_cons_of_mem _ hpart)⟩

theorem checkItems_eq_ok {items : List Json} {index : ℕ}
    (ih : ∀ part ∈ items, ∀ path,
      check reprJson root part sub path = .ok () ↔ Read root sub part) :
    checkItems reprJson root items sub index path = .ok () ↔
      ∀ part ∈ items, Read root sub part := by
  induction items generalizing index with
  | nil => rw [checkItems]; simp
  | cons item items ihi =>
    rw [checkItems, except_seq_eq_ok, ih item List.mem_cons_self,
      ihi fun part hpart => ih part (List.mem_cons_of_mem _ hpart), List.forall_mem_cons]

/-- What the check of an object comes to. -/
theorem follows_obj_iff {members : JsonMap} (htype : node.find? "type" = some (.str "object")) :
    Follows node (.obj members) sub part ↔ ∃ key, (key, part) ∈ members ∧
      (propertiesOf node).find? key = some (.obj sub) := by
  constructor
  · rintro (⟨-, hproperties, hsub, hpart⟩ | _)
    exact ⟨_, hpart, find?_propertiesOf.mpr ⟨_, hproperties, hsub⟩⟩
  · rintro ⟨key, hpart, hfind⟩
    obtain ⟨properties, hproperties, hsub⟩ := find?_propertiesOf.mp hfind
    exact .property htype hproperties hsub hpart

/-- What the check of an array comes to. -/
theorem follows_arr_iff {items : List Json} (htype : node.find? "type" = some (.str "array")) :
    Follows node (.arr items) sub part ↔
      part ∈ items ∧ node.find? "items" = some (.obj sub) := by
  constructor
  · rintro (_ | ⟨-, hsub, hpart⟩)
    exact ⟨hpart, hsub⟩
  · rintro ⟨hpart, hsub⟩
    exact .item htype hsub hpart

/-- A node without the types of values with parts is gone into nowhere. -/
theorem not_follows (hobject : node.find? "type" ≠ some (.str "object"))
    (harray : node.find? "type" ≠ some (.str "array")) : ¬Follows node v sub part := by
  rintro (⟨htype, -⟩ | ⟨htype, -⟩)
  · exact hobject htype
  · exact harray htype

/-- What is read of an object. -/
theorem readHere_obj_iff {members : JsonMap}
    (htype : node.find? "type" = some (.str "object")) :
    ReadHere node (.obj members) ↔
      (∀ name, .str name ∈ requiredOf node → name ∈ members.map Prod.fst) ∧
      (node.find? "additionalProperties" = some (.bool false) →
        ∀ key ∈ members.map Prod.fst, key ∈ propertyNames node) ∧
      (∀ c, node.find? "const" = some c → c ≠ .null → (Json.obj members).pyEq c) ∧
      ∀ options, node.find? "enum" = some (.arr options) → options ≠ [] →
        ∃ c ∈ options, (Json.obj members).pyEq c := by
  constructor
  · intro h
    refine ⟨fun name hname => ?_, fun hclosed => h.closed htype hclosed members rfl, h.const,
      h.enum⟩
    obtain ⟨names, hnames, hmem⟩ := mem_requiredOf.mp hname
    exact h.required htype names members hnames rfl name hmem
  · rintro ⟨hrequired, hclosed, hconst, henum⟩
    refine ⟨fun type _ h => ?_, fun _ names members' hnames heq name hname => ?_,
      fun _ h members' heq => ?_, hconst, henum⟩
    · rw [← Json.str.inj (Option.some.inj (htype.symm.trans h))]
      rfl
    · obtain rfl := Json.obj.inj heq
      exact hrequired name (mem_requiredOf.mpr ⟨names, hnames, hname⟩)
    · obtain rfl := Json.obj.inj heq
      exact hclosed h

/-- What is read of a value where the type is not that of objects. -/
theorem readHere_iff (hobject : node.find? "type" ≠ some (.str "object")) :
    ReadHere node v ↔
      (∀ type ∈ readTypes, node.find? "type" = some (.str type) → hasType type v) ∧
      (∀ c, node.find? "const" = some c → c ≠ .null → v.pyEq c) ∧
      ∀ options, node.find? "enum" = some (.arr options) → options ≠ [] →
        ∃ c ∈ options, v.pyEq c :=
  ⟨fun h => ⟨h.type, h.const, h.enum⟩, fun ⟨htype, hconst, henum⟩ =>
    ⟨htype, fun h => absurd h hobject, fun h => absurd h hobject, hconst, henum⟩⟩

theorem hasType_object_iff : hasType "object" v = true ↔ ∃ members, v = .obj members := by
  cases v <;> simp [hasType]

theorem hasType_array_iff : hasType "array" v = true ↔ ∃ items, v = .arr items := by
  cases v <;> simp [hasType]

theorem types_iff {kind : String} (hkind : kind ∈ readTypes)
    (htype : node.find? "type" = some (.str kind)) :
    (∀ type ∈ readTypes, node.find? "type" = some (.str type) → hasType type v) ↔
      hasType kind v := by
  refine ⟨fun h => h kind hkind htype, fun h type _ htype' => ?_⟩
  rwa [← Json.str.inj (Option.some.inj (htype.symm.trans htype'))]

/-- **The check reports no error** exactly on the values that satisfy all that it reads. -/
theorem check_eq_ok_iff : check reprJson root v node path = .ok () ↔ Read root node v := by
  induction hsize : sizeOf v using Nat.strong_induction_on generalizing v node path
  rename_i size hchecks
  rw [read_iff, check.eq_def]
  dsimp only
  rw [except_seq_eq_ok, checkConstants_eq_ok]
  generalize resolve root node = n
  by_cases hobject : n.find? "type" = some (.str "object")
  · rw [if_pos (typeIs_iff.mpr hobject)]
    split
    · next members =>
      have ih : ∀ member ∈ members, ∀ sub path,
          check reprJson root member.2 sub path = .ok () ↔ Read root sub member.2 :=
        fun member hmember sub path => hchecks _ (hsize ▸ sizeOf_member_lt hmember) rfl
      rw [except_seq_eq_ok, except_seq_eq_ok, checkRequired_eq_ok, checkExtra_eq_ok,
        checkMembers_eq_ok ih,
        readHere_obj_iff hobject]
      simp only [follows_obj_iff hobject]
      constructor
      · rintro ⟨⟨hrequired, hclosed, hparts⟩, hconstants⟩
        exact ⟨⟨hrequired, hclosed, hconstants⟩, fun sub part ⟨key, hpart, hsub⟩ =>
          hparts key part hpart sub hsub⟩
      · rintro ⟨⟨hrequired, hclosed, hconstants⟩, hparts⟩
        exact ⟨⟨hrequired, hclosed, fun key part hpart sub hsub =>
          hparts sub part ⟨key, hpart, hsub⟩⟩, hconstants⟩
    · next hother =>
      refine ⟨fun h => absurd h.1 invalid_ne_ok, fun h => ?_⟩
      obtain ⟨members, rfl⟩ :=
        hasType_object_iff.mp (h.1.type "object" List.mem_cons_self hobject)
      exact absurd rfl (hother members)
  · rw [if_neg (mt typeIs_iff.mp hobject), readHere_iff hobject]
    by_cases harray : n.find? "type" = some (.str "array")
    · rw [if_pos (typeIs_iff.mpr harray), types_iff (by simp [readTypes]) harray]
      split
      · next items =>
        have ih : ∀ part ∈ items, ∀ sub path,
            check reprJson root part sub path = .ok () ↔ Read root sub part :=
          fun part hpart sub path => hchecks _ (hsize ▸ sizeOf_item_lt hpart) rfl
        have hitems : (match get n "items" with
            | .obj sub => checkItems reprJson root items sub 0 path
            | _ => .ok ()) = .ok () ↔
            ∀ sub part, Follows n (.arr items) sub part → Read root sub part := by
          simp only [follows_arr_iff harray]
          split
          · next sub hsub =>
            rw [checkItems_eq_ok fun part hpart => ih part hpart sub,
              (get_eq_iff Json.noConfusion).mp hsub]
            refine ⟨fun h sub' part hpart => ?_, fun h part hpart => h sub part ⟨hpart, rfl⟩⟩
            rw [← Json.obj.inj (Option.some.inj hpart.2)]
            exact h part hpart.1
          · next hother =>
            exact ⟨fun _ sub part h => absurd ((get_eq_iff Json.noConfusion).mpr h.2) (hother sub),
              fun _ => rfl⟩
        rw [hitems]
        exact ⟨fun h => ⟨⟨rfl, h.2⟩, h.1⟩, fun h => ⟨h.2, h.1.2⟩⟩
      · next hother =>
        refine ⟨fun h => absurd h.1 invalid_ne_ok, fun h => ?_⟩
        obtain ⟨items, rfl⟩ := hasType_array_iff.mp h.1.1
        exact absurd rfl (hother items)
    · rw [if_neg (mt typeIs_iff.mp harray), checkScalar_eq_ok]
      have htypes : (∀ type ∈ ["string", "integer", "boolean"],
          n.find? "type" = some (.str type) → hasType type v) ↔
          ∀ type ∈ readTypes, n.find? "type" = some (.str type) → hasType type v := by
        simp [readTypes, hobject, harray]
      rw [htypes]
      exact ⟨fun h => ⟨h, fun sub part hfollows => absurd hfollows (not_follows hobject harray)⟩,
        fun h => h.1⟩

end

/-! ### What is valid is read and passed over -/

mutual

/-- Values that are the same are equal. -/
theorem pyEq_of_same : (v w : Json) → v.Same w → v.pyEq w = true
  | .arr items, w, h => by
    cases w with
    | arr items' =>
      rw [Json.Same] at h
      rw [Json.pyEq]
      exact pyEqItems_of_same items items' h
    | _ => simp [Json.Same] at h
  | .obj members, w, h => by
    cases w with
    | obj members' =>
      rw [Json.Same] at h
      rw [Json.pyEq, decide_eq_true h.1, Bool.true_and]
      exact pyEqMembers_of_same members members' h.2
    | _ => simp [Json.Same] at h
  | .null, w, h => by cases w <;> simp_all [Json.Same, Json.pyEq]
  | .bool _, w, h => by cases w <;> simp_all [Json.Same, Json.pyEq]
  | .int _, w, h => by cases w <;> simp_all [Json.Same, Json.pyEq]
  | .str _, w, h => by cases w <;> simp_all [Json.Same, Json.pyEq]

theorem pyEqItems_of_same : (items items' : List Json) → Json.SameItems items items' →
    Json.pyEqItems items items' = true
  | [], items', h => by
    cases items' with
    | nil => rfl
    | cons => simp [Json.SameItems] at h
  | v :: items, items', h => by
    cases items' with
    | nil => simp [Json.SameItems] at h
    | cons w items' =>
      rw [Json.SameItems] at h
      rw [Json.pyEqItems, pyEq_of_same v w h.1, pyEqItems_of_same items items' h.2, Bool.and_self]

theorem pyEqMembers_of_same : (members members' : List (String × Json)) →
    Json.SameMembers members members' → Json.pyEqMembers members members' = true
  | [], _, _ => rfl
  | (key, v) :: members, members', h => by
    rw [Json.SameMembers] at h
    obtain ⟨⟨w, hw, hsame⟩, hrest⟩ := h
    rw [Json.pyEqMembers, pyEqMembers_of_same members members' hrest, Bool.and_true,
      List.any_eq_true]
    exact ⟨(key, w), hw, by simp [pyEq_of_same v w hsame]⟩

end

/-- The file keeps its definitions under one keyword. -/
def OneTable (root : JsonMap) : Prop :=
  root.find? "$defs" = none ∨ root.find? "definitions" = none

section

variable {root node n : JsonMap} {v part : Json} {place : JsonMap × Json} {ref name : String}
  {schema : Json}

theorem after?_definitions (h : after? "#/$defs/" ref = some name) :
    after? "#/definitions/" ref = none := by
  rw [after?] at h
  split at h
  · next hstart =>
    obtain ⟨rest, hrest⟩ := List.isPrefixOf_iff_prefix.mp hstart
    rw [after?, ← hrest]
    rfl
  · cases h

theorem definition?_eq_some {keyword : String} (h : definition? root keyword name = some schema) :
    ∃ definitions, root.find? keyword = some (.obj definitions) ∧
      JsonMap.find? definitions name = some schema := by
  rw [definition?] at h
  split at h
  · next definitions hdefinitions =>
    split at h
    · exact ⟨definitions, hdefinitions, h⟩
    · cases h
  · cases h

/-- The table of the check has the definitions under `$defs`. -/
theorem find?_defs (h : definition? root "$defs" name = some schema) :
    (defs root).find? name = some schema := by
  obtain ⟨definitions, hdefinitions, hfind⟩ := definition?_eq_some h
  have htruth : (Json.obj definitions).truth = true := by
    cases definitions with
    | nil => cases hfind
    | cons => rfl
  rw [defs, (get_eq_iff Json.noConfusion).mpr hdefinitions, if_pos htruth]
  exact hfind

/-- The table of the check has those under `definitions`, where there are no others. -/
theorem find?_definitions (hroot : OneTable root)
    (h : definition? root "definitions" name = some schema) :
    (defs root).find? name = some schema := by
  obtain ⟨definitions, hdefinitions, hfind⟩ := definition?_eq_some h
  obtain hnone | hnone := hroot
  · rw [defs, get, hnone, (get_eq_iff Json.noConfusion).mpr hdefinitions]
    exact hfind
  · rw [hnone] at hdefinitions
    cases hdefinitions

/-- The check follows a reference to the definition that it names. -/
theorem eq_of_followed? (hroot : OneTable root) (hfollowed : followed? root node = some n)
    (href : node.find? "$ref" = some (.str ref)) (htarget : target? root ref = some schema) :
    schema = .obj n := by
  rw [followed?, (get_eq_iff Json.noConfusion).mpr href] at hfollowed
  dsimp only at hfollowed
  rw [target?] at htarget
  split at htarget
  · next name hname =>
    rw [hname, after?_definitions hname, Option.bind_some, find?_defs htarget] at hfollowed
    split at hfollowed
    · next target heq =>
      rw [← Option.some.inj hfollowed]
      exact Option.some.inj heq
    · cases hfollowed
  · next hnone =>
    split at htarget
    · next name hname =>
      rw [hnone, hname, Option.bind_some, find?_definitions hroot htarget] at hfollowed
      simp only [Option.bind_none] at hfollowed
      split at hfollowed
      · next target heq =>
        rw [← Option.some.inj hfollowed]
        exact Option.some.inj heq
      · cases hfollowed
    · cases htarget

/-- A node is replaced by what its reference names. -/
theorem exists_ref (hfollowed : followed? root node = some n) :
    ∃ ref, node.find? "$ref" = some (.str ref) := by
  rw [followed?] at hfollowed
  split at hfollowed
  · next ref href => exact ⟨ref, (get_eq_iff Json.noConfusion).mp href⟩
  · cases hfollowed

/-- A valid value is valid under what the check reads in the place of the node. -/
theorem valid_resolve (hroot : OneTable root) (h : Valid root (.obj node) v) :
    Valid root (.obj (resolve root node)) v := by
  rw [resolve]
  rcases hfollowed : followed? root node with - | n
  · exact h
  · obtain ⟨ref, href⟩ := exists_ref hfollowed
    obtain ⟨schema, htarget, hvalid⟩ := h.inv.2.2 ref href
    rw [eq_of_followed? hroot hfollowed href htarget] at hvalid
    exact hvalid

/-- What the check goes on with is a schema of the part. -/
theorem Follows.applies {sub : JsonMap} (h : Follows node v sub part) :
    Applies node v (.obj sub) part := by
  cases h with
  | property _ hproperties hsub hpart => exact .property hproperties hsub hpart
  | item _ hsub hpart => exact .item hsub hpart

/-- All that is read holds of a valid value. -/
theorem readHere_of_valid (h : Valid root (.obj node) v) : ReadHere node v := by
  obtain ⟨⟨htype, hrequired, hconst, henum⟩, hparts, -⟩ := h.inv
  refine ⟨fun type _ => htype.1 type, fun _ => hrequired, fun _ hclosed members hv key hkey => ?_,
    fun c hc _ => pyEq_of_same v c (hconst c hc), fun options hoptions _ => ?_⟩
  · by_contra hnot
    obtain ⟨⟨key, part⟩, hpart, rfl⟩ := List.mem_map.mp hkey
    have hfalse := hparts (.bool false) part (hv ▸ .additional hclosed hpart hnot)
    cases hfalse
  · obtain ⟨c, hc, hsame⟩ := henum options hoptions
    exact ⟨c, hc, pyEq_of_same v c hsame⟩

/-- All that is passed over holds of a valid value. -/
theorem passedHere_of_valid (hroot : OneTable root) (h : Valid root (.obj node) v) :
    PassedHere root node v := by
  obtain ⟨⟨htype, hrequired, hconst, henum⟩, hparts, hrefs⟩ := (valid_resolve hroot h).inv
  refine ⟨fun _ _ => (valid_iff_withoutRef.mp h).1, fun n hfollowed ref href => ?_, hrefs,
    fun _ => htype, fun _ => hrequired, fun sub part happlies _ => hparts sub part happlies,
    fun c hc _ => hconst c hc, fun options hoptions _ => henum options hoptions⟩
  obtain ⟨schema, htarget, -⟩ := h.inv.2.2 ref href
  rw [htarget, eq_of_followed? hroot hfollowed href htarget]

/-- A valid value is valid at every place that the check comes to. -/
theorem valid_of_comes (hroot : OneTable root) (h : Valid root (.obj node) v)
    (hcomes : Comes root node v place) : Valid root (.obj place.1) place.2 := by
  induction hcomes with
  | refl => exact h
  | tail _ hfollows ih => exact (valid_resolve hroot ih).inv.2.1 _ _ hfollows.applies

/-- What is read and what is passed over at a place, with the parts that are looked at, make the
value valid. -/
theorem valid_of_here (hread : ReadHere (resolve root node) v) (hpassed : PassedHere root node v)
    (hparts : ∀ sub part, Follows (resolve root node) v sub part → Valid root (.obj sub) part) :
    Valid root (.obj node) v := by
  have hresolved : Valid root (.obj (resolve root node)) v := by
    refine .intro ⟨?_, ?_, fun c hc => ?_, fun options hoptions => ?_⟩
      (fun sub part happlies => ?_) hpassed.reference
    · by_cases htype : ∃ type ∈ readTypes, (resolve root node).find? "type" = some (.str type)
      · obtain ⟨type, hmem, htype⟩ := htype
        refine ⟨fun type' htype' => ?_, fun types htypes => ?_⟩
        · rw [← Json.str.inj (Option.some.inj (htype.symm.trans htype'))]
          exact hread.type type hmem htype
        · exact absurd (htype.symm.trans htypes) (by simp)
      · exact hpassed.type fun type hmem htype' => htype ⟨type, hmem, htype'⟩
    · by_cases hobject : (resolve root node).find? "type" = some (.str "object")
      · exact hread.required hobject
      · exact hpassed.required hobject
    · by_cases hnull : c = .null
      · exact hpassed.const c hc (Or.inl hnull)
      · exact hpassed.const c hc (Or.inr (hread.const c hc hnull))
    · by_cases hnil : options = []
      · exact hpassed.enum options hoptions (Or.inl hnil)
      · exact hpassed.enum options hoptions (Or.inr (hread.enum options hoptions hnil))
    · by_cases hseen : Seen (resolve root node) v sub part
      · cases hseen with
        | followed hfollows => exact hparts _ part hfollows
        | closed hobject hclosed hpart hkey =>
          exact absurd (hread.closed hobject hclosed _ rfl _ (List.mem_map_of_mem hpart)) hkey
      · exact hpassed.parts sub part happlies hseen
  rw [resolve] at hresolved
  rcases hfollowed : followed? root node with - | n
  · rwa [hfollowed] at hresolved
  · rw [hfollowed] at hresolved
    exact valid_iff_withoutRef.mpr ⟨hpassed.beside n hfollowed, fun ref href =>
      ⟨.obj n, hpassed.named n hfollowed ref href, hresolved⟩⟩

/-- **Valid values** are those that satisfy what the check reads and what it passes over. -/
theorem valid_iff (hroot : OneTable root) :
    Valid root (.obj node) v ↔ Read root node v ∧ Passed root node v := by
  constructor
  · intro h
    refine ⟨fun place hcomes => ?_, fun place hcomes => ?_⟩
    · exact readHere_of_valid (valid_resolve hroot (valid_of_comes hroot h hcomes))
    · exact passedHere_of_valid hroot (valid_of_comes hroot h hcomes)
  · rintro ⟨hread, hpassed⟩
    induction hsize : sizeOf v using Nat.strong_induction_on generalizing v node
    rename_i size ih
    obtain ⟨hhere, hrest⟩ := read_iff.mp hread
    obtain ⟨hhere', hrest'⟩ := passed_iff.mp hpassed
    refine valid_of_here hhere hhere' fun sub part hfollows => ?_
    exact ih _ (hsize ▸ hfollows.applies.sizeOf_lt) (hrest sub part hfollows)
      (hrest' sub part hfollows) rfl

/-- **The check agrees with JSON Schema** exactly on the values that satisfy all that it passes
over, or break something that it reads. -/
theorem check_agrees_iff (reprJson : Json → String) (path : String) (hroot : OneTable root) :
    (check reprJson root v node path = .ok () ↔ Valid root (.obj node) v) ↔
      Passed root node v ∨ ¬Read root node v := by
  rw [check_eq_ok_iff, valid_iff hroot]
  tauto

/-- A node that asks for the constant 1. -/
def oneNode : JsonMap := [("const", .int 1)]

theorem check_agrees_iff_one :
    (check (fun _ => "1") [] (.int 1) oneNode "$" = .ok () ↔ Valid [] (.obj oneNode) (.int 1)) ↔
      Passed [] oneNode (.int 1) ∨ ¬Read [] oneNode (.int 1) :=
  check_agrees_iff (fun _ => "1") "$" (Or.inl rfl)

/-- **The check lets `true` pass for the constant 1**, and it is not valid. -/
theorem check_true_one :
    check (fun _ => "1") [] (.bool true) oneNode "$" = .ok () ∧
      ¬Valid [] (.obj oneNode) (.bool true) := by
  refine ⟨by decide, fun h => ?_⟩
  have hsame := h.inv.1.2.2.1 (.int 1) rfl
  exact hsame

end

end Registry

end CyranoAgent
