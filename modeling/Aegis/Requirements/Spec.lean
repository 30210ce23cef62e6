import Aegis.Recording.JsonText
import Aegis.Rules.Models
import Mathlib.Data.List.Infix

/-!
# Requirements.Spec

A collection requirement on its two sides: `CollectionRequirementSpec` and `ValidateSpec` of the
server, `isCollectionRequirementSpec` of the extension.

* `decode`, `toJson`             — the requirement as JSON; the strict decoder refuses unknown members.
* `validateSpec`                 — what the server accepts.
* `isCollectionRequirementSpec`  — what the extension accepts.

Where the two sides compute one thing (the type of a value, its equality with another, whether it
meets a constraint) there is one definition. The regular expressions are a parameter: those that
both engines compile, and match alike.
-/

namespace Aegis

namespace Requirements

variable {ν : Type}

abbrev Fields (ν : Type) := List (String × Json ν)

/-- What the two runtimes provide: a length as a number, a number as text, and the patterns that
compile. -/
structure Platform (ν : Type) where
  ofNat : Nat → ν
  number : ν → List Char
  regex : String → Option (String → Bool)

structure RequirementInput (ν : Type) where
  name : String
  type : String
  description : String
  /-- `nil` for an absent default, and for `null`. -/
  default : Option (Json ν)
  constraints : Fields ν
  secret : Bool

structure RequirementOutputField where
  name : String
  type : String
  description : String

structure CollectionRequirementSpec (ν : Type) where
  title : String
  description : String
  requiredInputs : Option (List (RequirementInput ν))
  optionalInputs : Option (List (RequirementInput ν))
  outputFields : List RequirementOutputField
  sampleOutput : Option (Fields ν)

namespace CollectionRequirementSpec

variable (s : CollectionRequirementSpec ν)

def inputs : List (RequirementInput ν) := s.requiredInputs.getD [] ++ s.optionalInputs.getD []

def texts : List String :=
  s.title :: s.description :: s.inputs.map RequirementInput.description ++
    s.outputFields.map RequirementOutputField.description

end CollectionRequirementSpec

def RequirementInput.toJson (i : RequirementInput ν) : Json ν :=
  .obj ((if i.constraints.isEmpty then [] else [("constraints", .obj i.constraints)]) ++
    (match i.default with
      | none => []
      | some v => [("default", v)]) ++
    [("description", .str i.description), ("name", .str i.name)] ++
    (if i.secret then [("secret", .bool true)] else []) ++ [("type", .str i.type)])

def RequirementOutputField.toJson (f : RequirementOutputField) : Json ν :=
  .obj [("description", .str f.description), ("name", .str f.name), ("type", .str f.type)]

def listJson {α : Type} (toJson : α → Json ν) : Option (List α) → Json ν
  | none => .null
  | some items => .arr (items.map toJson)

def CollectionRequirementSpec.toJson (s : CollectionRequirementSpec ν) : Json ν :=
  .obj [("description", .str s.description),
    ("optionalInputs", listJson RequirementInput.toJson s.optionalInputs),
    ("outputFields", .arr (s.outputFields.map RequirementOutputField.toJson)),
    ("requiredInputs", listJson RequirementInput.toJson s.requiredInputs),
    ("sampleOutput", (s.sampleOutput.map Json.obj).getD .null),
    ("title", .str s.title)]

section Decode

def specMembers : List String :=
  ["title", "description", "requiredInputs", "optionalInputs", "outputFields", "sampleOutput"]

def inputMembers : List String :=
  ["name", "type", "description", "default", "constraints", "secret"]

def outputMembers : List String := ["name", "type", "description"]

def member (fields : Fields ν) (name : String) : Option (Json ν) :=
  ((fields.filter fun f => Rules.Rule.foldName f.1 = Rules.Rule.foldName name).getLast?).map Prod.snd

/-- `DisallowUnknownFields`. -/
def unknown (strict : Bool) (members : List String) (fields : Fields ν) : Bool :=
  strict && fields.any fun f => members.all fun name =>
    Rules.Rule.foldName f.1 ≠ Rules.Rule.foldName name

/-- A member that holds text; one that is absent or `null` leaves the field empty. -/
def decodeText : Option (Json ν) → Option String
  | none | some .null => some ""
  | some (.str s) => some s
  | _ => none

def decodeFlag : Option (Json ν) → Option Bool
  | none | some .null => some false
  | some (.bool b) => some b
  | _ => none

def decodeAny : Option (Json ν) → Option (Json ν)
  | none | some .null => none
  | some v => some v

def decodeMap : Option (Json ν) → Option (Option (Fields ν))
  | none | some .null => some none
  | some (.obj fields) => some (some fields)
  | _ => none

def decodeList {α : Type} (decode : Json ν → Option α) : Option (Json ν) → Option (Option (List α))
  | none | some .null => some none
  | some (.arr items) => (items.mapM decode).map some
  | _ => none

variable (strict : Bool)

def decodeInput : Json ν → Option (RequirementInput ν)
  | .null => some ⟨"", "", "", none, [], false⟩
  | .obj fields => do
    if unknown strict inputMembers fields then none
    let name ← decodeText (member fields "name")
    let type ← decodeText (member fields "type")
    let description ← decodeText (member fields "description")
    let constraints ← decodeMap (member fields "constraints")
    let secret ← decodeFlag (member fields "secret")
    return ⟨name, type, description, decodeAny (member fields "default"), constraints.getD [], secret⟩
  | _ => none

def decodeOutputField : Json ν → Option RequirementOutputField
  | .null => some ⟨"", "", ""⟩
  | .obj fields => do
    if unknown strict outputMembers fields then none
    let name ← decodeText (member fields "name")
    let type ← decodeText (member fields "type")
    let description ← decodeText (member fields "description")
    return ⟨name, type, description⟩
  | _ => none

def decode : Json ν → Option (CollectionRequirementSpec ν)
  | .null => some ⟨"", "", none, none, [], none⟩
  | .obj fields => do
    if unknown strict specMembers fields then none
    let title ← decodeText (member fields "title")
    let description ← decodeText (member fields "description")
    let requiredInputs ← decodeList (decodeInput strict) (member fields "requiredInputs")
    let optionalInputs ← decodeList (decodeInput strict) (member fields "optionalInputs")
    let outputFields ← decodeList (decodeOutputField strict) (member fields "outputFields")
    let sampleOutput ← decodeMap (member fields "sampleOutput")
    return ⟨title, description, requiredInputs, optionalInputs, outputFields.getD [], sampleOutput⟩
  | _ => none

end Decode

/-! ## What both sides check -/

def isLetter (c : Char) : Bool := ('a' ≤ c && c ≤ 'z') || ('A' ≤ c && c ≤ 'Z')

/-- `identifierPattern`, `requirementNamePattern`. -/
def isIdentifier (name : String) : Bool :=
  match name.toList with
  | [] => false
  | c :: cs => isLetter c && decide (cs.length ≤ 63) && cs.all fun d => isLetter d || d.isDigit || d = '_'

/-- The key of a name: `strings.ToLower`, `toLowerCase`. -/
def nameKey (name : String) : List Char := name.toList.map Char.toLower

def valueTypes : List String := ["string", "number", "boolean", "object", "array"]

def validType (type : String) : Bool := valueTypes.contains type

/-- `matchesType`, `requirementValueMatches`. -/
def matchesType (value : Json ν) (type : String) : Bool :=
  match value with
  | .str _ => type = "string"
  | .num _ => type = "number"
  | .bool _ => type = "boolean"
  | .obj _ => type = "object"
  | .arr _ => type = "array"
  | .null => false

/-- `allowedConstraintNames`, `inputConstraintNames`. -/
def constraintNames : List String :=
  ["enum", "minLength", "maxLength", "pattern", "minimum", "maximum", "minItems", "maxItems"]

section Values

variable [LinearOrder ν]

mutual

/-- `jsonValuesEqual`, and `reflect.DeepEqual` of decoded values. -/
def jsonValuesEqual : Json ν → Json ν → Bool
  | .null, .null => true
  | .bool a, .bool b => a == b
  | .num a, .num b => decide (a = b)
  | .str a, .str b => a == b
  | .arr items, .arr others => itemsEqual items others
  | .obj fields, .obj others => decide (fields.length = others.length) && fieldsEqual fields others
  | _, _ => false

def itemsEqual : List (Json ν) → List (Json ν) → Bool
  | [], [] => true
  | v :: items, w :: others => jsonValuesEqual v w && itemsEqual items others
  | _, _ => false

def fieldsEqual : List (String × Json ν) → List (String × Json ν) → Bool
  | [], _ => true
  | (key, v) :: fields, others =>
    (match others.lookup key with
      | some w => jsonValuesEqual v w
      | none => false) && fieldsEqual fields others

end

/-- `numberFromConstraint`; `typeof constraint === 'number'`. -/
def numberFromConstraint (constraints : Fields ν) (name : String) : Option ν :=
  match constraints.lookup name with
  | some (.num n) => some n
  | _ => none

def withinBounds (constraints : Fields ν) (least most : String) (measure : ν) : Bool :=
  (numberFromConstraint constraints least).all (fun v => !decide (measure < v)) &&
    (numberFromConstraint constraints most).all (fun v => !decide (v < measure))

variable (p : Platform ν)

def matchesPattern (constraints : Fields ν) (text : String) : Bool :=
  match constraints.lookup "pattern" with
  | some (.str raw) => (p.regex raw).any fun re => re text
  | _ => true

def valueSatisfiesConstraints (value : Json ν) (constraints : Fields ν) : Bool :=
  (match constraints.lookup "enum" with
    | some (.arr allowed) => allowed.any fun candidate => jsonValuesEqual candidate value
    | _ => true) &&
  match value with
  | .str text => withinBounds constraints "minLength" "maxLength" (p.ofNat text.length) &&
      matchesPattern p constraints text
  | .num n => withinBounds constraints "minimum" "maximum" n
  | .arr items => withinBounds constraints "minItems" "maxItems" (p.ofNat items.length)
  | _ => true

end Values

section Unsafe

def unsafeTerms : List String :=
  ["password", "passwd", "cookie", "token", "credit card", "身份证", "密码", "登录凭证", "信用卡"]

def stringifyChar (c : Char) : List Char :=
  if c = '"' then ['\\', '"']
  else if c = '\\' then ['\\', '\\']
  else if c = '\x08' then ['\\', 'b']
  else if c = '\x0c' then ['\\', 'f']
  else if c = '\n' then ['\\', 'n']
  else if c = '\r' then ['\\', 'r']
  else if c = '\t' then ['\\', 't']
  else if c.toNat < 32 then '\\' :: 'u' :: JsonText.hexDigits c.toNat
  else [c]

def stringifyText (s : String) : List Char := '"' :: s.toList.flatMap stringifyChar ++ ['"']

variable (number : ν → List Char)

mutual

/-- `JSON.stringify`, the members in their order in the value: no term extends over two of them. -/
def stringify : Json ν → List Char
  | .null => ['n', 'u', 'l', 'l']
  | .bool true => ['t', 'r', 'u', 'e']
  | .bool false => ['f', 'a', 'l', 's', 'e']
  | .num n => number n
  | .str s => stringifyText s
  | .arr items => '[' :: JsonText.writeList (stringifyItems items) ++ [']']
  | .obj fields => '\x7b' :: JsonText.writeList (stringifyFields fields) ++ ['\x7d']

def stringifyItems : List (Json ν) → List (List Char)
  | [] => []
  | v :: items => stringify v :: stringifyItems items

def stringifyFields : List (String × Json ν) → List (List Char)
  | [] => []
  | (key, v) :: fields => (stringifyText key ++ ':' :: stringify v) :: stringifyFields fields

end

/-- `HTMLEscape`, which `json.Marshal` applies. -/
def htmlEscape (c : Char) : List Char :=
  if c = '<' || c = '>' || c = '&' || c = '\u2028' || c = '\u2029' then
    '\\' :: 'u' :: JsonText.hexDigits c.toNat
  else [c]

def mustJSON (v : Json ν) : List Char := (stringify number v).flatMap htmlEscape

def lowerCase (c : Char) : Char := if c = '\u212a' then 'k' else c.toLower

def toLower (c : Char) : Char := if c = '\u0130' then 'i' else lowerCase c

/-- `toLowerCase`, of one character. -/
def toLowerCase (c : Char) : List Char := if c = '\u0130' then ['i', '\u0307'] else [lowerCase c]

def hasTerm (text : List Char) : Bool := unsafeTerms.any fun term => decide (term.toList <:+: text)

def containsUnsafe (text : List Char) : Bool := hasTerm (text.map toLower)

def containsUnsafeRequirement (v : Json ν) : Bool :=
  hasTerm ((stringify number v).flatMap toLowerCase)

end Unsafe

section Server

inductive SpecError where
  | textsRequired
  | outputFieldRequired
  | listsRequired
  | unsafeRequirement
  | invalidField (name : String)
  | unknownConstraint (input : String)
  | invalidDefault (input : String)
  | duplicateInput (name : String)
  | duplicateOutputField (name : String)
  | sampleMismatch (name type : String)
deriving DecidableEq

/-- Stop with `e` unless `b`. -/
def require (b : Bool) (e : SpecError) : Except SpecError Unit := if b then .ok () else .error e

/-- `strings.TrimSpace(s) == ""`. -/
def isBlank (s : String) : Bool := trimSpace s = ""

def validateField (name type description : String) : Except SpecError Unit :=
  require (isIdentifier name && !isBlank description && validType type) (.invalidField name)

variable [LinearOrder ν] (p : Platform ν)

def validateInput (i : RequirementInput ν) : Except SpecError Unit := do
  validateField i.name i.type i.description
  require (i.constraints.all fun c => constraintNames.contains c.1) (.unknownConstraint i.name)
  require (i.constraints.isEmpty || i.default.all fun v => valueSatisfiesConstraints p v i.constraints)
    (.invalidDefault i.name)

def validateInputs : List (List Char) → List (RequirementInput ν) → Except SpecError Unit
  | _, [] => .ok ()
  | names, i :: inputs => do
    validateInput p i
    require (!names.contains (nameKey i.name)) (.duplicateInput i.name)
    validateInputs (nameKey i.name :: names) inputs

def validateOutputFields (sample : Fields ν) :
    List (List Char) → List RequirementOutputField → Except SpecError Unit
  | _, [] => .ok ()
  | names, f :: fields => do
    validateField f.name f.type f.description
    require (!names.contains (nameKey f.name)) (.duplicateOutputField f.name)
    require ((sample.lookup f.name).any (matchesType · f.type)) (.sampleMismatch f.name f.type)
    validateOutputFields sample (nameKey f.name :: names) fields

def validateSpec (s : CollectionRequirementSpec ν) : Except SpecError Unit := do
  require (!(isBlank s.title || isBlank s.description)) .textsRequired
  require (!s.outputFields.isEmpty) .outputFieldRequired
  require (s.requiredInputs.isSome && s.optionalInputs.isSome && s.sampleOutput.isSome)
    .listsRequired
  require (!containsUnsafe (mustJSON p.number s.toJson)) .unsafeRequirement
  validateInputs p [] s.inputs
  validateOutputFields (s.sampleOutput.getD []) [] s.outputFields

end Server

section Extension

def isWhiteSpace (c : Char) : Bool := (c ≠ '\u0085' && isSpace c) || c = '\ufeff'

/-- `s.trim().length === 0`. -/
def isTrimmedEmpty (s : String) : Bool := s.toList.all isWhiteSpace

def textMember (fields : Fields ν) (name : String) : Option String :=
  match fields.lookup name with
  | some (.str s) => some s
  | _ => none

def validRequirementField : Json ν → Bool
  | .obj fields => (textMember fields "name").any isIdentifier &&
      (textMember fields "description").any (fun s => !isTrimmedEmpty s) &&
      (textMember fields "type").any validType
  | _ => false

variable [LinearOrder ν] (p : Platform ν)

def validConstraint (type : String) (constraint : String × Json ν) : Bool :=
  constraintNames.contains constraint.1 && if constraint.1 = "enum" then
      match constraint.2 with
      | .arr items => items.all (matchesType · type)
      | _ => false
    else if constraint.1 = "pattern" then
      match constraint.2 with
      | .str raw => (p.regex raw).isSome
      | _ => false
    else
      match constraint.2 with
      | .num _ => true
      | _ => false

def validConstraints (type : String) (default constraints : Option (Json ν)) : Bool :=
  match constraints with
  | none => true
  | some (.obj constraints) => constraints.all (validConstraint p type) &&
      default.all fun v => valueSatisfiesConstraints p v constraints
  | some _ => false

def validRequirementInput : Json ν → Bool
  | .obj fields =>
    let type := (textMember fields "type").getD ""
    validRequirementField (.obj fields) &&
      ((fields.lookup "secret").all fun v => matchesType v "boolean") &&
      ((fields.lookup "default").all fun v => matchesType v type) &&
      validConstraints p type (fields.lookup "default") (fields.lookup "constraints")
  | _ => false

def nameOf : Json ν → String
  | .obj fields => (textMember fields "name").getD ""
  | _ => ""

def typeOf : Json ν → String
  | .obj fields => (textMember fields "type").getD ""
  | _ => ""

def inputsDistinct : List (List Char) → List (Json ν) → Bool
  | _, [] => true
  | names, input :: inputs =>
    !names.contains (nameKey (nameOf input)) && inputsDistinct (nameKey (nameOf input) :: names) inputs

def outputsSampled (sample : Fields ν) : List (List Char) → List (Json ν) → Bool
  | _, [] => true
  | names, output :: outputs =>
    !names.contains (nameKey (nameOf output)) &&
      ((sample.lookup (nameOf output)).any (matchesType · (typeOf output))) &&
      outputsSampled sample (nameKey (nameOf output) :: names) outputs

def isCollectionRequirementSpec : Json ν → Bool
  | .obj fields =>
    match fields.lookup "requiredInputs", fields.lookup "optionalInputs",
        fields.lookup "outputFields", fields.lookup "sampleOutput" with
    | some (.arr required), some (.arr optional), some (.arr outputs), some (.obj sample) =>
      (textMember fields "title").any (fun s => !isTrimmedEmpty s) &&
        (textMember fields "description").any (fun s => !isTrimmedEmpty s) &&
        !outputs.isEmpty && !containsUnsafeRequirement p.number (.obj fields) &&
        (required ++ optional).all (validRequirementInput p) &&
        outputs.all validRequirementField && inputsDistinct [] (required ++ optional) &&
        outputsSampled sample [] outputs
    | _, _, _, _ => false
  | _ => false

end Extension

end Requirements

end Aegis
