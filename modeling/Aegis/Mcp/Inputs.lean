import Aegis.Lib.Outcome
import Aegis.Mcp.Masking

/-!
# Mcp.Inputs

`rulecontract.ApplyAndValidateTaskInputs`: the defaults of a schema are filled in, and every input
is checked against its property. Where several checks fail, any of their errors may be the one that
is returned.
-/

namespace Aegis

namespace Mcp

variable {ν : Type}

/-- What the checks ask of `float64` and of `regexp`. A pattern that does not compile matches
nothing. -/
structure Checks (ν : Type) where
  less : ν → ν → Bool
  ofNat : Nat → ν
  /-- `%.0f`. -/
  render : ν → String
  hasMatch : String → String → Bool

section Equal

variable [DecidableEq ν]

mutual

def deepEqual : Json ν → Json ν → Bool
  | .null, .null => true
  | .bool b, .bool c => b == c
  | .num n, .num m => n == m
  | .str s, .str t => s == t
  | .arr items, .arr items' => deepEqualItems items items'
  | .obj fields, .obj fields' => deepEqualFields fields fields'
  | _, _ => false

def deepEqualItems : List (Json ν) → List (Json ν) → Bool
  | [], [] => true
  | v :: items, w :: items' => deepEqual v w && deepEqualItems items items'
  | _, _ => false

def deepEqualFields : Fields ν → Fields ν → Bool
  | [], [] => true
  | (key, v) :: fields, (key', w) :: fields' =>
    key == key' && deepEqual v w && deepEqualFields fields fields'
  | _, _ => false

end

end Equal

def isText : Json ν → Option String
  | .str s => some s
  | _ => none

def stringSet : Json ν → List String
  | .arr items => items.filterMap isText
  | _ => []

def number : Json ν → Option ν
  | .num n => some n
  | _ => none

def matchesJSONType (value : Json ν) (expected : String) : Bool :=
  match value with
  | .str _ => expected == "string"
  | .num _ => expected == "number"
  | .bool _ => expected == "boolean"
  | .obj _ => expected == "object"
  | .arr _ => expected == "array"
  | .null => false

def textOf (v : Json ν) : String := (isText v).getD ""

def propertiesOf (schema : Fields ν) : Fields ν := members (child schema "properties")

/-- Names that are not declared are allowed unless `additionalProperties` is false. -/
def isClosed (schema : Fields ν) : Bool :=
  match child schema "additionalProperties" with
  | .bool b => !b
  | _ => false

section Validate

variable [DecidableEq ν] (checks : Checks ν)

def atLeast (schema : Fields ν) (key : String) (n : ν) : Bool :=
  (number (child schema key)).all fun bound => !checks.less n bound

def atMost (schema : Fields ν) (key : String) (n : ν) : Bool :=
  (number (child schema key)).all fun bound => !checks.less bound n

def bound (schema : Fields ν) (key : String) : String :=
  ((number (child schema key)).map checks.render).getD ""

def checkText (schema : Fields ν) (path s : String) : Except String Unit := do
  let length := checks.ofNat s.length
  ensure (atLeast checks schema "minLength" length)
    (path ++ " is shorter than " ++ bound checks schema "minLength" ++ " characters")
  ensure (atMost checks schema "maxLength" length)
    (path ++ " is longer than " ++ bound checks schema "maxLength" ++ " characters")
  match child schema "pattern" with
  | .str pattern => ensure (checks.hasMatch pattern s) (path ++ " does not match its pattern")
  | _ => return

def checkValue (schema : Fields ν) (path : String) (value : Json ν) : Except String Unit := do
  let expected := textOf (child schema "type")
  ensure (matchesJSONType value expected) (path ++ " must be " ++ expected)
  match child schema "enum" with
  | .arr candidates =>
    ensure (candidates.any (deepEqual · value)) (path ++ " is not an allowed value")
  | _ => pure ()
  match value with
  | .num n =>
    ensure (atLeast checks schema "minimum" n) (path ++ " is below its minimum")
    ensure (atMost checks schema "maximum" n) (path ++ " exceeds its maximum")
  | .str s => checkText checks schema path s
  | .arr items =>
    let length := checks.ofNat items.length
    ensure (atLeast checks schema "minItems" length) (path ++ " has too few items")
    ensure (atMost checks schema "maxItems" length) (path ++ " has too many items")
  | .obj fields =>
    match (stringSet (child schema "required")).find? fun name => (fields.lookup name).isNone with
    | some name => throw (path ++ " is missing \"" ++ name ++ "\"")
    | none =>
      match fields.find? fun p =>
        isClosed schema && ((propertiesOf schema).lookup p.1).isNone with
      | some p => throw (path ++ " has undeclared field \"" ++ p.1 ++ "\"")
      | none => pure ()
  | _ => pure ()

mutual

def validateSchemaValue : Fields ν → String → Json ν → Except String Unit
  | schema, path, .arr items => do
    checkValue checks schema path (.arr items)
    match child schema "items" with
    | .obj itemSchema => validateItems itemSchema path 0 items
    | _ => return
  | schema, path, .obj fields => do
    checkValue checks schema path (.obj fields)
    validateFields (propertiesOf schema) path fields
  | schema, path, value => checkValue checks schema path value

def validateItems : Fields ν → String → Nat → List (Json ν) → Except String Unit
  | _, _, _, [] => return
  | schema, path, index, v :: items => do
    validateSchemaValue schema (path ++ "[" ++ toString index ++ "]") v
    validateItems schema path (index + 1) items

def validateFields : Fields ν → String → Fields ν → Except String Unit
  | _, _, [] => return
  | properties, path, (key, v) :: fields => do
    match properties.lookup key with
    | some (.obj childSchema) => validateSchemaValue childSchema (path ++ "." ++ key) v
    | _ => pure ()
    validateFields properties path fields

end

/-- What `ErrInvalidTaskInput` is wrapped around. -/
def invalidInput (message : String) : String :=
  "task input does not conform to rule version schema: " ++ message

def applyProperty (required : List String) (values : Fields ν) (p : String × Json ν) :
    Except String (Fields ν) :=
  match p.2 with
  | .obj property =>
    match values.lookup p.1 with
    | some value => do
      checkInput property value
      return values
    | none =>
      match property.lookup "default" with
      | some value => do
        checkInput property value
        return Assoc.set p.1 value values
      | none =>
        if required.contains p.1 then
          .error (invalidInput ("missing required input \"" ++ p.1 ++ "\""))
        else .ok values
  | _ => .error (invalidInput ("invalid schema for \"" ++ p.1 ++ "\""))
where
  checkInput (property : Fields ν) (value : Json ν) : Except String Unit := do
    ensure (!isTrue (child property "x-secret"))
      (invalidInput ("secret input \"" ++ p.1 ++ "\" must use an approved secret reference"))
    (validateSchemaValue checks property p.1 value).mapError invalidInput

def applyAndValidateTaskInputs (schema supplied : Fields ν) : Except String (Fields ν) := do
  ensure (!schema.isEmpty) (invalidInput "schema is missing or invalid")
  ensure (textOf (child schema "type") == "object")
    (invalidInput "root schema must be an object")
  match supplied.find? fun p => isClosed schema && ((propertiesOf schema).lookup p.1).isNone with
  | some p => throw (invalidInput ("undeclared input \"" ++ p.1 ++ "\""))
  | none =>
    let required := stringSet (child schema "required")
    (propertiesOf schema).foldlM (applyProperty checks required) supplied

section Kept

variable {checks} {schema supplied values values' : Fields ν} {required : List String}
  {p : String × Json ν} {name : String}

theorem applyProperty_cases (h : applyProperty checks required values p = .ok values') : values' = values ∨
      values.lookup p.1 = none ∧ ∃ value, values' = Assoc.set p.1 value values := by
  rw [applyProperty] at h
  split at h
  · split at h
    · obtain ⟨-, -, hvalues⟩ := bind_eq_ok.mp h
      exact .inl (Except.ok.inj hvalues).symm
    · rename_i hnone
      split at h
      · rename_i value _
        obtain ⟨-, -, hvalues⟩ := bind_eq_ok.mp h
        exact .inr ⟨hnone, value, (Except.ok.inj hvalues).symm⟩
      · split at h
        · cases h
        · exact .inl (Except.ok.inj h).symm
  · cases h

theorem applyProperty_lookup (h : applyProperty checks required values p = .ok values')
    (hname : (values.lookup name).isSome) : values'.lookup name = values.lookup name := by
  rcases applyProperty_cases h with rfl | ⟨hnone, value, rfl⟩
  · rfl
  · rw [Assoc.lookup_set]
    split
    · rename_i hsame
      rw [hsame, hnone] at hname
      cases hname
    · rfl

theorem foldlM_lookup {properties : Fields ν}
    (h : properties.foldlM (applyProperty checks required) values = .ok values')
    (hname : (values.lookup name).isSome) : values'.lookup name = values.lookup name := by
  induction properties generalizing values with
  | nil => rw [← Except.ok.inj h]
  | cons p properties ih =>
    rw [List.foldlM_cons] at h
    obtain ⟨next, hstep, hrest⟩ := bind_eq_ok.mp h
    have hkept := applyProperty_lookup hstep hname
    rw [ih hrest (hkept.symm ▸ hname), hkept]

theorem applyAndValidateTaskInputs_lookup
    (h : applyAndValidateTaskInputs checks schema supplied = .ok values)
    (hname : (supplied.lookup name).isSome) :
    values.lookup name = supplied.lookup name := by
  rw [applyAndValidateTaskInputs] at h
  obtain ⟨-, -, h⟩ := bind_eq_ok.mp h
  obtain ⟨-, -, h⟩ := bind_eq_ok.mp h
  split at h
  · cases h
  · exact foldlM_lookup h hname

end Kept

end Validate

end Mcp

end Aegis
