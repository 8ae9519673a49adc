import CyranoAgent.Contracts.Sameness

/-!
# Validity under a JSON Schema

The fragment of the keywords `type`, `required`, `properties`, `additionalProperties`, `items`,
`const`, `enum` and `$ref`. A schema is a boolean or an object, a keyword that is absent asserts
nothing, and all keywords of an object assert, those beside a `$ref` too. A `$ref` names a
definition of the file, which may be another `$ref`: a value is valid where a derivation of finite
depth says so (`Valid`).
-/

namespace CyranoAgent

/-- The members of an object. -/
abbrev JsonMap := List (String × Json)

/-- The member of a key. -/
def JsonMap.find? (members : JsonMap) (key : String) : Option Json :=
  (List.find? (fun member => member.1 = key) members).map Prod.snd

namespace JsonSchema

/-! ### Assertions of one keyword -/

/-- A value is of a type of JSON Schema. A boolean is no number. -/
def hasType : String → Json → Bool
  | "null", .null | "boolean", .bool _ | "integer", .int _ | "number", .int _ | "string", .str _
  | "array", .arr _ | "object", .obj _ => true
  | _, _ => false

section

variable (node : JsonMap) (v : Json)

/-- `type`: the value is of the type, or of one of the types. -/
def TypeHolds : Prop :=
  (∀ type, node.find? "type" = some (.str type) → hasType type v) ∧
    ∀ types, node.find? "type" = some (.arr types) → ∃ type, .str type ∈ types ∧ hasType type v

/-- `required`: an object has the members. -/
def RequiredHolds : Prop :=
  ∀ names members, node.find? "required" = some (.arr names) → v = .obj members →
    ∀ name, .str name ∈ names → name ∈ members.map Prod.fst

/-- `const`: the value is the constant. -/
def ConstHolds : Prop := ∀ c, node.find? "const" = some c → v.Same c

/-- `enum`: the value is one of the constants. -/
def EnumHolds : Prop := ∀ options, node.find? "enum" = some (.arr options) → ∃ c ∈ options, v.Same c

end

/-- The keys that `properties` names. -/
def propertyNames (node : JsonMap) : List String :=
  match node.find? "properties" with
  | some (.obj properties) => properties.map Prod.fst
  | _ => []

/-- A keyword of a schema applies a schema to a part of a value. -/
inductive Applies (node : JsonMap) : Json → Json → Json → Prop
  | property {properties members : JsonMap} {key : String} {sub part : Json}
      (hproperties : node.find? "properties" = some (.obj properties))
      (hsub : properties.find? key = some sub) (hpart : (key, part) ∈ members) :
      Applies node (.obj members) sub part
  | additional {members : JsonMap} {key : String} {sub part : Json}
      (hsub : node.find? "additionalProperties" = some sub) (hpart : (key, part) ∈ members)
      (hkey : key ∉ propertyNames node) : Applies node (.obj members) sub part
  | item {items : List Json} {sub part : Json}
      (hsub : node.find? "items" = some sub) (hpart : part ∈ items) :
      Applies node (.arr items) sub part

/-! ### References -/

/-- What follows a start of a text. -/
def after? (start text : String) : Option String :=
  if start.toList.isPrefixOf text.toList then
    some (String.ofList (text.toList.drop start.toList.length))
  else none

/-- A character that stands for itself in a pointer. -/
def plainInPointer (c : Char) : Bool := c ≠ '/' ∧ c ≠ '~' ∧ c ≠ '%'

section

variable (root : JsonMap)

/-- The definition of a name under a keyword of the file. -/
def definition? (keyword name : String) : Option Json :=
  match root.find? keyword with
  | some (.obj definitions) =>
    if name.toList.all plainInPointer then JsonMap.find? definitions name else none
  | _ => none

/-- The definition that a reference names. -/
def target? (ref : String) : Option Json :=
  match after? "#/$defs/" ref with
  | some name => definition? root "$defs" name
  | none =>
    match after? "#/definitions/" ref with
    | some name => definition? root "definitions" name
    | none => none

/-! ### Validity -/

/-- **A value is valid under a schema** of a file. -/
inductive Valid : Json → Json → Prop
  | anything {v : Json} : Valid (.bool true) v
  | keywords {node : JsonMap} {v : Json} (htype : TypeHolds node v)
      (hrequired : RequiredHolds node v) (hconst : ConstHolds node v) (henum : EnumHolds node v)
      (hparts : ∀ sub part, Applies node v sub part → Valid sub part)
      (hnamed : ∀ ref, node.find? "$ref" = some (.str ref) → (target? root ref).isSome)
      (htarget : ∀ ref schema, node.find? "$ref" = some (.str ref) →
        target? root ref = some schema → Valid schema v) :
      Valid (.obj node) v

end

section

variable {root node : JsonMap} {v sub part : Json} {ref : String}

/-- What an object schema asserts. -/
theorem Valid.inv (h : Valid root (.obj node) v) :
    (TypeHolds node v ∧ RequiredHolds node v ∧ ConstHolds node v ∧ EnumHolds node v) ∧
      (∀ sub part, Applies node v sub part → Valid root sub part) ∧
      ∀ ref, node.find? "$ref" = some (.str ref) →
        ∃ schema, target? root ref = some schema ∧ Valid root schema v := by
  cases h with
  | keywords htype hrequired hconst henum hparts hnamed htarget =>
    refine ⟨⟨htype, hrequired, hconst, henum⟩, hparts, fun ref href => ?_⟩
    obtain ⟨schema, hschema⟩ := Option.isSome_iff_exists.mp (hnamed ref href)
    exact ⟨schema, hschema, htarget ref schema href hschema⟩

/-- What makes a value valid under an object schema. -/
theorem Valid.intro
    (hasserts : TypeHolds node v ∧ RequiredHolds node v ∧ ConstHolds node v ∧ EnumHolds node v)
    (hparts : ∀ sub part, Applies node v sub part → Valid root sub part)
    (hrefs : ∀ ref, node.find? "$ref" = some (.str ref) →
      ∃ schema, target? root ref = some schema ∧ Valid root schema v) :
    Valid root (.obj node) v := by
  obtain ⟨htype, hrequired, hconst, henum⟩ := hasserts
  refine .keywords htype hrequired hconst henum hparts (fun ref href => ?_)
    fun ref schema href hschema => ?_
  · obtain ⟨schema, hschema, -⟩ := hrefs ref href
    rw [hschema]
    rfl
  · obtain ⟨schema', hschema', hvalid⟩ := hrefs ref href
    rwa [Option.some.inj (hschema.symm.trans hschema')]

/-- The keywords beside a `$ref`. -/
def withoutRef (node : JsonMap) : JsonMap := node.filter fun member => member.1 ≠ "$ref"

theorem find?_withoutRef {key : String} (h : key ≠ "$ref") :
    (withoutRef node).find? key = node.find? key := by
  have hpred : (fun member : String × Json =>
      decide (decide (member.1 ≠ "$ref") = true ∧ decide (member.1 = key) = true)) =
      fun member => decide (member.1 = key) := by
    funext member
    by_cases hkey : member.1 = key
    · simp [hkey, h]
    · simp [hkey]
  rw [JsonMap.find?, withoutRef, List.find?_filter, hpred]
  rfl

theorem find?_withoutRef_ref : (withoutRef node).find? "$ref" = none := by
  rw [JsonMap.find?, withoutRef, Option.map_eq_none_iff, List.find?_eq_none]
  intro member hmember
  simpa using (List.mem_filter.mp hmember).2

theorem applies_withoutRef :
    Applies (withoutRef node) v sub part ↔ Applies node v sub part := by
  have hnames : propertyNames (withoutRef node) = propertyNames node := by
    rw [propertyNames, propertyNames, find?_withoutRef (by decide)]
  constructor
  · intro h
    cases h with
    | property hproperties hsub hpart =>
      rw [find?_withoutRef (by decide)] at hproperties
      exact .property hproperties hsub hpart
    | additional hsub hpart hkey =>
      rw [find?_withoutRef (by decide)] at hsub
      exact .additional hsub hpart (hnames ▸ hkey)
    | item hsub hpart =>
      rw [find?_withoutRef (by decide)] at hsub
      exact .item hsub hpart
  · intro h
    cases h with
    | property hproperties hsub hpart =>
      rw [← find?_withoutRef (by decide)] at hproperties
      exact .property hproperties hsub hpart
    | additional hsub hpart hkey =>
      rw [← find?_withoutRef (by decide)] at hsub
      exact .additional hsub hpart (hnames ▸ hkey)
    | item hsub hpart =>
      rw [← find?_withoutRef (by decide)] at hsub
      exact .item hsub hpart

/-- **A `$ref` and the keywords beside it** assert apart from each other. -/
theorem valid_iff_withoutRef :
    Valid root (.obj node) v ↔ Valid root (.obj (withoutRef node)) v ∧
      ∀ ref, node.find? "$ref" = some (.str ref) →
        ∃ schema, target? root ref = some schema ∧ Valid root schema v := by
  have hasserts : (TypeHolds (withoutRef node) v ∧ RequiredHolds (withoutRef node) v ∧
      ConstHolds (withoutRef node) v ∧ EnumHolds (withoutRef node) v) ↔
      (TypeHolds node v ∧ RequiredHolds node v ∧ ConstHolds node v ∧ EnumHolds node v) := by
    simp only [TypeHolds, RequiredHolds, ConstHolds, EnumHolds]
    simp only [find?_withoutRef (show "type" ≠ "$ref" by decide),
      find?_withoutRef (show "required" ≠ "$ref" by decide),
      find?_withoutRef (show "const" ≠ "$ref" by decide),
      find?_withoutRef (show "enum" ≠ "$ref" by decide)]
  constructor
  · intro h
    obtain ⟨hhere, hparts, hrefs⟩ := h.inv
    refine ⟨.intro (hasserts.mpr hhere) (fun sub part h => hparts sub part
      (applies_withoutRef.mp h)) fun ref href => ?_, hrefs⟩
    rw [find?_withoutRef_ref] at href
    cases href
  · rintro ⟨h, hrefs⟩
    obtain ⟨hhere, hparts, -⟩ := h.inv
    exact .intro (hasserts.mp hhere) (fun sub part h => hparts sub part
      (applies_withoutRef.mpr h)) hrefs

theorem sizeOf_member_lt {members : JsonMap} {member : String × Json} (h : member ∈ members) :
    sizeOf member.2 < sizeOf (Json.obj members) := by
  have hlt := List.sizeOf_lt_of_mem h
  obtain ⟨key, part⟩ := member
  simp only [Prod.mk.sizeOf_spec, Json.obj.sizeOf_spec] at hlt ⊢
  omega

theorem sizeOf_item_lt {items : List Json} (h : part ∈ items) :
    sizeOf part < sizeOf (Json.arr items) := by
  have hlt := List.sizeOf_lt_of_mem h
  simp only [Json.arr.sizeOf_spec] at hlt ⊢
  omega

/-- A schema is applied to smaller values. -/
theorem Applies.sizeOf_lt (h : Applies node v sub part) : sizeOf part < sizeOf v := by
  cases h with
  | property _ _ hpart => exact sizeOf_member_lt hpart
  | additional _ hpart _ => exact sizeOf_member_lt hpart
  | item _ hpart => exact sizeOf_item_lt hpart

end

end JsonSchema

end CyranoAgent
