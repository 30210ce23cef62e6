import Aegis.Lib.Regex
import Aegis.Scheduler.Cron

/-!
# Recording.Sanitize

The redaction pass of `recording/sanitize.go`.

A payload is a JSON value. Its strings and numbers carry tags, which stand for nothing in the
program: the pass hands a tag on with what becomes of its leaf, so that a tag tells which leaf of
the input a leaf of the output is at the place of. What the pass writes of its own has the tag
`default`.
-/

namespace Aegis

inductive Payload (ν τ : Type) where
  | null
  | bool (b : Bool)
  | num (n : ν) (tag : τ)
  | str (s : String) (tag : τ)
  | arr (items : List (Payload ν τ))
  | obj (fields : List (String × Payload ν τ))

/-- `unicode.ToLower`, beyond ASCII. -/
structure Unicode where
  toLower : Char → Char

structure SanitizationReport where
  redactedValues : Nat
  removedFields : Nat

namespace SanitizationReport

def zero : SanitizationReport := ⟨0, 0⟩

def add (r q : SanitizationReport) : SanitizationReport :=
  ⟨r.redactedValues + q.redactedValues, r.removedFields + q.removedFields⟩

/-- `report.RedactedValues++` if `b`. -/
def redactedIf (b : Bool) : SanitizationReport := ⟨if b then 1 else 0, 0⟩

/-- `report.RemovedFields++`. -/
def removed : SanitizationReport := ⟨0, 1⟩

end SanitizationReport

namespace Sanitize

open Regex (inOrder oneOf literal isBlank isWord)

def redactedMarker : String := "[REDACTED]"
def removedURL : String := "[REMOVED_URL]"
def maxSanitizationAttributeNames : Nat := 64
def maxSanitizationAttributeBytes : Nat := 128

section Text

def isQuote (c : Char) : Bool := c == '"' || c == '\''

/-- `[^"'\s<>;&]`. -/
def isSecretChar (c : Char) : Bool :=
  !(isQuote c || isBlank c || c == '<' || c == '>' || c == ';' || c == '&')

/-- `[a-z0-9._~+/=-]` under `(?i)`. -/
def isBearerChar (c : Char) : Bool :=
  (Regex.foldCase c).isAlphanum || c == '.' || c == '_' || c == '~' || c == '+' || c == '/' ||
    c == '=' || c == '-'

/-- `[A-Za-z0-9_-]`. -/
def isTokenChar (c : Char) : Bool := c.isAlphanum || c == '_' || c == '-'

/-- `[A-Za-z0-9._%+-]`. -/
def isMailboxChar (c : Char) : Bool :=
  c.isAlphanum || c == '.' || c == '_' || c == '%' || c == '+' || c == '-'

/-- `[A-Za-z0-9.-]`. -/
def isDomainChar (c : Char) : Bool := c.isAlphanum || c == '.' || c == '-'

/-- A word, `:` or `=`, and a value that may be quoted. -/
def assignmentPattern : Regex :=
  inOrder
    (oneOf (literal "password".toList) [literal "passwd".toList, literal "pwd".toList,
      literal "secret".toList, literal "token".toList,
      inOrder (literal "api".toList)
        [.many (fun c => c == '_' || c == '-') 0 (some 1), literal "key".toList],
      literal "authorization".toList, literal "cookie".toList])
    [.many isBlank 0 none, .one (fun c => c == ':' || c == '='), .many isBlank 0 none,
      .many isQuote 0 (some 1), .many isSecretChar 1 none, .many isQuote 0 (some 1)]

def bearerPattern : Regex :=
  inOrder (literal "bearer".toList) [.many isBlank 1 none, .many isBearerChar 1 none]

def webTokenPattern : Regex :=
  inOrder .boundary [.one (· == 'e'), .one (· == 'y'), .one (· == 'J'), .many isTokenChar 1 none,
    .one (· == '.'), .many isTokenChar 1 none, .one (· == '.'), .many isTokenChar 1 none, .boundary]

def cardNumberPattern : Regex := inOrder .boundary [.many Char.isDigit 16 (some 19), .boundary]

def emailPattern : Regex :=
  inOrder .boundary [.many isMailboxChar 1 none, .one (· == '@'), .many isDomainChar 1 none,
    .one (· == '.'), .many Char.isAlpha 2 none, .boundary]

def sensitiveTextPatterns : List Regex :=
  [assignmentPattern, bearerPattern, webTokenPattern, cardNumberPattern, emailPattern]

def redactText (s : String) : String :=
  sensitiveTextPatterns.foldl (fun s pattern => pattern.replaceAll redactedMarker s) s

/-- `[^/@\s]`. -/
def isCredentialChar (c : Char) : Bool := !(c == '/' || c == '@' || isBlank c)

/-- `://user:password@`. -/
def urlCredentialsPattern : Regex :=
  inOrder (.one (· == ':')) [.one (· == '/'), .one (· == '/'),
    .many (fun c => isCredentialChar c) 1 none, .one (· == ':'), .many isCredentialChar 1 none,
    .one (· == '@')]

end Text

section Keys

variable (u : Unicode)

/-- `unicode.ToLower`. -/
def lower (c : Char) : Char := if c.toNat < 128 then c.toLower else u.toLower c

def toLower (s : String) : String := String.ofList (s.toList.map (lower u))

/-- `strings.EqualFold`, with a text of small ASCII letters. -/
def equalFold (s text : String) : Bool := s.toList.map Regex.foldCase == text.toList

def hasPrefix (s text : String) : Bool := text.toList.isPrefixOf s.toList
def hasSuffix (s text : String) : Bool := text.toList.isSuffixOf s.toList
def contains (s text : String) : Bool := s.toList.tails.any (text.toList.isPrefixOf ·)

def normalizeKey (key : String) : String :=
  String.ofList ((toLower u key).toList.filter Char.isAlphanum)

def sensitiveKeys : List String :=
  ["password", "passwd", "pwd", "secret", "token", "accesstoken", "refreshtoken",
    "apikey", "authorization", "cookie", "setcookie", "credential", "credentials",
    "clientsecret", "privatekey"]

def isSensitiveKey (key : String) : Bool := sensitiveKeys.any (hasSuffix (normalizeKey u key))

def handlerEvents : List String :=
  ["click", "load", "error", "submit", "change", "input", "focus", "blur", "key",
    "mouse", "pointer", "touch", "drag", "drop", "scroll", "wheel", "animation",
    "transition", "before", "after", "message", "storage", "popstate", "hashchange"]

def isUnsafeSemanticField (key : String) : Bool :=
  ["outerhtml", "innerhtml", "rawhtml", "srcdoc", "style", "stylesheet"].contains
      (normalizeKey u key) ||
    (let name := toLower u (trimSpace key)
     hasPrefix name "on" && handlerEvents.any (hasPrefix (String.ofList (name.toList.drop 2))))

def unsafeSemanticFieldOmitsContent (key : String) : Bool :=
  ["outerhtml", "innerhtml", "rawhtml", "srcdoc"].contains (normalizeKey u key)

def isValueField (key : String) : Bool :=
  ["value", "text", "innertext", "textcontent"].contains (normalizeKey u key)

def isSensitiveIdentity (value : String) : Bool :=
  ["username", "login", "currentpassword", "newpassword", "onetimecode", "ccnumber",
      "cccsc"].contains (normalizeKey u value) ||
    ["password", "passwd", "pwd", "secret", "token", "apikey", "authorization", "cookie",
      "credential", "cardnumber", "cvv", "cvc", "ssn"].any (contains (normalizeKey u value))

def isUnsafeSemanticAttribute (name : String) : Bool :=
  normalizeKey u name == "style" || normalizeKey u name == "srcdoc" || isUnsafeSemanticField u name

def isSensitiveSemanticValueAttribute (normalizedName : String) : Bool :=
  ["value", "placeholder", "title", "arialabel"].contains normalizedName

def isURLAttribute (normalizedName : String) : Bool :=
  ["href", "src", "action"].contains normalizedName

def normalizeSanitizationAttributeName (value : String) : Option String :=
  let value := toLower u (trimSpace value)
  if value == "*" then some value
  else if value.isEmpty || maxSanitizationAttributeBytes < value.utf8ByteSize then none
  else if value.toList.any fun c => c ≤ ' ' || c == '"' || c == '\'' || c == '<' || c == '>' ||
      c == '=' || c == '\x60' then none
  else some value

end Keys

section Nodes

variable (u : Unicode) {ν τ : Type}

/-- `value.(string)`, or the empty string. -/
def textOf : Option (Payload ν τ) → String
  | some (.str s _) => s
  | _ => ""

def semanticNode (fields : List (String × Payload ν τ)) : Bool :=
  textOf (fields.lookup "type") == "element" || textOf (fields.lookup "type") == "text"

def isUnsafeSemanticNode (fields : List (String × Payload ν τ)) : Bool :=
  ["script", "style", "noscript", "template", "link", "meta"].contains
    (toLower u (trimSpace (textOf (fields.lookup "tagName"))))

def semanticChildConvertible (fields : List (String × Payload ν τ)) : Bool :=
  textOf (fields.lookup "type") == "text" || (textOf (fields.lookup "type") == "element" &&
      trimSpace (textOf (fields.lookup "tagName")) != "")

def hides (name value : String) : Bool :=
  let normalized := normalizeKey u name
  (normalized == "type" && (equalFold value "password" || equalFold value "hidden")) ||
    ((normalized == "name" || normalized == "id" || normalized == "arialabel" ||
      normalized == "autocomplete") && isSensitiveIdentity u value)

def fieldHides (key : String) : Payload ν τ → Bool
  | .str text _ => hides u key text
  | _ => false

def attributeHides : Payload ν τ → Bool
  | .obj a => hides u (textOf (a.lookup "name")) (textOf (a.lookup "value"))
  | _ => false

def itemsOf : Option (Payload ν τ) → List (Payload ν τ)
  | some (.arr items) => items
  | _ => []

def isHiddenInput (node : List (String × Payload ν τ)) : Bool :=
  (node.any fun f => fieldHides u f.1 f.2) || (itemsOf (node.lookup "attributes")).any (attributeHides u)

end Nodes

/-! ## Evidence -/

/-- `semanticSanitizationEvidence`. -/
structure Evidence where
  markupAltered : Bool
  contentOmitted : Bool
  alteredAttrs : List String
  allAttrsAltered : Bool

namespace Evidence

def none : Evidence := ⟨false, false, [], false⟩

/-- `failClosedSemanticSanitization`. -/
def failClosed : Evidence := ⟨true, true, [], true⟩

/-- `e` with its markup altered, if `b`. -/
def alterMarkup (e : Evidence) (b : Bool) : Evidence :=
  { e with markupAltered := e.markupAltered || b }

/-- `e` with its content omitted, if `b`. -/
def omitContent (e : Evidence) (b : Bool) : Evidence :=
  { e with contentOmitted := e.contentOmitted || b }

def addAlteredAttribute (u : Unicode) (e : Evidence) (value : String) : Evidence :=
  if e.allAttrsAltered then e
  else match normalizeSanitizationAttributeName u value with
    | some name =>
      if name == "*" then { e with allAttrsAltered := true, alteredAttrs := [] }
      else
        let names := e.alteredAttrs.insert name
        if maxSanitizationAttributeNames < names.length then
          { e with allAttrsAltered := true, alteredAttrs := [] }
        else { e with alteredAttrs := names }
    | _ => { e with allAttrsAltered := true, alteredAttrs := [] }

variable {ν τ : Type}

def jsonValue [Inhabited τ] (e : Evidence) : List (String × Payload ν τ) :=
  (if e.allAttrsAltered then [("alteredAttributes", .arr [.str "*" default])]
    else if e.alteredAttrs.isEmpty then []
    else [("alteredAttributes",
      .arr ((e.alteredAttrs.mergeSort (· ≤ ·)).map fun name => .str name default))]) ++
  (if e.contentOmitted then [("contentOmitted", .bool true)] else []) ++
  (if e.markupAltered || e.contentOmitted || e.allAttrsAltered || !e.alteredAttrs.isEmpty then
    [("markupAltered", .bool true)] else [])

/-- One of the names of `sanitizationAttributeNames`. -/
def attributeName (u : Unicode) : Payload ν τ → Option String
  | .str name _ => normalizeSanitizationAttributeName u name
  | _ => .none

def sanitizationAttributeNames (u : Unicode) : Payload ν τ → Option (List String)
  | .arr values =>
    if values.isEmpty || maxSanitizationAttributeNames < values.length then .none
    else values.mapM (attributeName u)
  | _ => .none

/-- The marker `true`. -/
def isTrue : Payload ν τ → Bool
  | .bool b => b
  | _ => false

/-- One turn of the loop of `normalizeSemanticSanitization`. -/
def read (u : Unicode) (e : Evidence) (key : String) (item : Payload ν τ) : Option Evidence :=
  if key == "markupAltered" then
    if isTrue item then some { e with markupAltered := true } else .none
  else if key == "contentOmitted" then
    if isTrue item then some { e with contentOmitted := true, markupAltered := true } else .none
  else if key == "alteredAttributes" then
    (sanitizationAttributeNames u item).map fun names =>
      { names.foldl (addAlteredAttribute u) e with markupAltered := true }
  else .none

/-- `normalizeSemanticSanitization`. -/
def normalize (u : Unicode) : Payload ν τ → Evidence
  | .obj raw =>
    if raw.isEmpty then failClosed
    else match raw.foldlM (fun e f => read u e f.1 f.2) none with
      | some e =>
        if !e.markupAltered && !e.contentOmitted && e.alteredAttrs.isEmpty && !e.allAttrsAltered then
          failClosed
        else e
      | _ => failClosed
  | _ => failClosed

def initial (u : Unicode) (fields : List (String × Payload ν τ)) : Evidence :=
  let evidence := match fields.lookup "sanitization" with
    | some raw => normalize u raw
    | .none => none
  if textOf (fields.lookup "type") == "text" && (fields.lookup "rendered").isSome then
    { evidence with markupAltered := true, contentOmitted := true }
  else evidence

end Evidence

section Values

variable {ν τ : Type} [DecidableEq ν]

mutual

/-- `reflect.DeepEqual`. -/
def same : Payload ν τ → Payload ν τ → Bool
  | .null, .null => true
  | .bool b, .bool c => b == c
  | .num n _, .num m _ => n == m
  | .str s _, .str t _ => s == t
  | .arr l, .arr m => l.length == m.length && sameItems l m
  | .obj l, .obj m => l.length == m.length && sameFields l m
  | _, _ => false

def sameItems : List (Payload ν τ) → List (Payload ν τ) → Bool
  | v :: l, w :: m => same v w && sameItems l m
  | _, _ => true

def sameFields : List (String × Payload ν τ) → List (String × Payload ν τ) → Bool
  | (key, v) :: l, m => (match m.lookup key with
      | some w => same v w
      | none => false) && sameFields l m
  | [], _ => true

end

/-- `out[key] = value`, of an output that has no such key. -/
def put (key : String) (value : Payload ν τ) : List (String × Payload ν τ) → List (String × Payload ν τ)
  | [] => [(key, value)]
  | f :: rest => if key < f.1 then (key, value) :: f :: rest else f :: put key value rest

def sanitizeText (s : String) : String × SanitizationReport :=
  (redactText s, .redactedIf (redactText s != s))

def sanitizeSemanticURL (u : Unicode) (value : String) : String × SanitizationReport :=
  let trimmed := trimSpace (toLower u value)
  if hasPrefix trimmed "data:" || hasPrefix trimmed "blob:" || hasPrefix trimmed "javascript:" then
    (removedURL, .redactedIf true)
  else
    let withoutCredentials :=
      urlCredentialsPattern.replaceAll ("://" ++ redactedMarker ++ "@") value
    let clean := sanitizeText withoutCredentials
    (clean.1, (SanitizationReport.redactedIf (withoutCredentials != value)).add clean.2)

def sanitizeAttributeText (u : Unicode) (name : String) (sensitiveElement : Bool) (text : String) :
    String × SanitizationReport × Bool :=
  let normalizedName := normalizeKey u name
  if isSensitiveKey u name || (sensitiveElement && isSensitiveSemanticValueAttribute normalizedName) then
    if text != "" then (redactedMarker, .redactedIf true, true) else (text, .zero, false)
  else if isURLAttribute normalizedName then
    let sanitized := sanitizeSemanticURL u text
    (sanitized.1, sanitized.2, sanitized.1 != text)
  else
    let sanitized := sanitizeText text
    (sanitized.1, sanitized.2, sanitized.1 != text)

/-- What `sanitizeValue` does of a field of an object. -/
inductive FieldKind where
  | provenance
  | unsafeField
  | attributes
  | children
  | value (redact : Bool)
deriving DecidableEq

/-- What the fields of an object become, with the evidence and the report so far. -/
structure Fields (ν τ : Type) where
  fields : List (String × Payload ν τ)
  evidence : Evidence
  report : SanitizationReport

def Fields.cons (key : String) (clean : Payload ν τ) (report : SanitizationReport)
    (rest : Fields ν τ) : Fields ν τ :=
  { rest with fields := (key, clean) :: rest.fields, report := report.add rest.report }

def Fields.drop (rest : Fields ν τ) : Fields ν τ :=
  { rest with report := SanitizationReport.removed.add rest.report }

structure Attributes (ν τ : Type) where
  items : List (Payload ν τ)
  changed : Bool
  altered : List String
  report : SanitizationReport

structure Children (ν τ : Type) where
  items : List (Payload ν τ)
  omitted : Bool
  report : SanitizationReport

structure AttributeFields (ν τ : Type) where
  fields : List (String × Payload ν τ)
  changed : Bool
  altered : List String
  report : SanitizationReport

def AttributeFields.cons (key : String) (clean : Payload ν τ) (changed : Bool)
    (altered : List String) (report : SanitizationReport) (rest : AttributeFields ν τ) :
    AttributeFields ν τ where
  fields := (key, clean) :: rest.fields
  changed := changed || rest.changed
  altered := (if changed then altered else []) ++ rest.altered
  report := report.add rest.report

def Children.drop (report : SanitizationReport) (rest : Children ν τ) : Children ν τ where
  items := rest.items
  omitted := true
  report := report.add (SanitizationReport.removed.add rest.report)

/-- `value.(map[string]any)`. -/
def nodeOf : Payload ν τ → Option (List (String × Payload ν τ))
  | .obj fields => some fields
  | _ => none

/-- `value.(string)`, with its tag. -/
def stringOf : Payload ν τ → Option (String × τ)
  | .str s tag => some (s, tag)
  | _ => none

def alteredNames (names : List String) : List String := names.dedup.mergeSort (· ≤ ·)

section Combine

variable (u : Unicode)

def fieldKind (semantic hiddenInput forceRedact : Bool) (key : String) : FieldKind :=
  if semantic && normalizeKey u key == "sanitization" then .provenance
  else if isUnsafeSemanticField u key then .unsafeField
  else if normalizeKey u key == "attributes" then .attributes
  else if semantic && normalizeKey u key == "children" then .children
  else .value (forceRedact || isSensitiveKey u key || (hiddenInput && isValueField u key))

def Evidence.remove (e : Evidence) (semantic : Bool) (key : String) : Evidence :=
  (e.alterMarkup semantic).omitContent (semantic && unsafeSemanticFieldOmitsContent u key)

/-- `sanitizeSemanticAttributes`: the attributes one by one, or, of what is no list of them, the
value as any other. -/
def semanticAttributes (whole : Payload ν τ × SanitizationReport) (each : Option (Attributes ν τ)) :
    Payload ν τ × Bool × List String × SanitizationReport :=
  match each with
  | some out => (.arr out.items, out.changed, alteredNames out.altered, out.report)
  | none => (whole.1, true, ["*"], whole.2)

def Evidence.alterAttributes (e : Evidence) (semantic changed : Bool) (altered : List String) : Evidence :=
  if semantic && changed then altered.foldl (addAlteredAttribute u) (e.alterMarkup true) else e

/-- `sanitizeSemanticChildren`. -/
def semanticChildren (whole : Payload ν τ × SanitizationReport) (each : Option (Children ν τ)) :
    Payload ν τ × Bool × SanitizationReport :=
  match each with
  | some out => (.arr out.items, out.omitted, out.report)
  | none => (whole.1, true, whole.2)

def finish [Inhabited τ] (semantic : Bool) (r : Fields ν τ) : Payload ν τ × SanitizationReport :=
  let provenance : List (String × Payload ν τ) := r.evidence.jsonValue
  (.obj (if semantic && !provenance.isEmpty then put "sanitization" (.obj provenance) r.fields
    else r.fields), r.report)

end Combine

variable [Inhabited τ] (u : Unicode)

mutual

def sanitizeValue (forceRedact : Bool) : Payload ν τ → Payload ν τ × SanitizationReport
  | .obj fields =>
    let semantic := semanticNode fields
    finish semantic (sanitizeFields semantic (isHiddenInput u fields) forceRedact
      (if semantic then Evidence.initial u fields else .none) fields)
  | .arr items =>
    let out := sanitizeItems forceRedact items
    (.arr out.1, out.2)
  | .str s tag =>
    if forceRedact then (.str redactedMarker tag, .redactedIf true)
    else (.str (sanitizeText s).1 tag, (sanitizeText s).2)
  | .num n tag =>
    if forceRedact then (.str redactedMarker tag, .redactedIf true) else (.num n tag, .zero)
  | .bool b =>
    if forceRedact then (.str redactedMarker default, .redactedIf true) else (.bool b, .zero)
  | .null => (.null, .zero)

def sanitizeItems (forceRedact : Bool) : List (Payload ν τ) → List (Payload ν τ) × SanitizationReport
  | [] => ([], .zero)
  | item :: items =>
    let rest := sanitizeItems forceRedact items
    if (nodeOf item).any (isUnsafeSemanticNode u) then
      (rest.1, SanitizationReport.removed.add rest.2)
    else
      let clean := sanitizeValue forceRedact item
      (clean.1 :: rest.1, clean.2.add rest.2)

def sanitizeFields (semantic hiddenInput forceRedact : Bool) (evidence : Evidence) :
    List (String × Payload ν τ) → Fields ν τ
  | [] => ⟨[], evidence, .zero⟩
  | (key, item) :: fields =>
    match fieldKind u semantic hiddenInput forceRedact key with
    | .provenance => sanitizeFields semantic hiddenInput forceRedact evidence fields
    | .unsafeField =>
      (sanitizeFields semantic hiddenInput forceRedact (evidence.remove u semantic key) fields).drop
    | .attributes =>
      let out := semanticAttributes (sanitizeValue false item) (attributesOf hiddenInput item)
      (sanitizeFields semantic hiddenInput forceRedact
        (evidence.alterAttributes u semantic out.2.1 out.2.2.1) fields).cons key out.1 out.2.2.2
    | .children =>
      let out := semanticChildren (sanitizeValue false item) (childrenOf item)
      (sanitizeFields semantic hiddenInput forceRedact
        ((evidence.alterMarkup out.2.1).omitContent out.2.1) fields).cons key out.1 out.2.2
    | .value redact =>
      let clean := sanitizeValue redact item
      let altered := semantic && !same clean.1 item
      (sanitizeFields semantic hiddenInput forceRedact
        ((evidence.alterMarkup altered).omitContent (altered && normalizeKey u key == "text"))
        fields).cons key clean.1 clean.2

def attributesOf (sensitiveElement : Bool) : Payload ν τ → Option (Attributes ν τ)
  | .arr attributes => some (sanitizeAttributes sensitiveElement attributes)
  | _ => none

/-- The loop of `sanitizeSemanticAttributes`. -/
def sanitizeAttributes (sensitiveElement : Bool) : List (Payload ν τ) → Attributes ν τ
  | [] => ⟨[], false, [], .zero⟩
  | item :: items =>
    let rest := sanitizeAttributes sensitiveElement items
    match attributeOf sensitiveElement item with
    | none =>
      let clean := sanitizeValue false item
      ⟨clean.1 :: rest.items, true, "*" :: rest.altered, clean.2.add rest.report⟩
    | some none => ⟨rest.items, true, rest.altered, SanitizationReport.removed.add rest.report⟩
    | some (some clean) =>
      ⟨.obj clean.fields :: rest.items, clean.changed || rest.changed,
        clean.altered ++ rest.altered, clean.report.add rest.report⟩

/-- One attribute: `some none` when it is not safe to keep. -/
def attributeOf (sensitiveElement : Bool) : Payload ν τ → Option (Option (AttributeFields ν τ))
  | .obj a =>
    let name := textOf (a.lookup "name")
    if isUnsafeSemanticAttribute u name then some none
    else some (some (sanitizeAttribute name sensitiveElement a))
  | _ => none

def sanitizeAttribute (name : String) (sensitiveElement : Bool) :
    List (String × Payload ν τ) → AttributeFields ν τ
  | [] => ⟨[], false, [], .zero⟩
  | (key, raw) :: fields =>
    let rest := sanitizeAttribute name sensitiveElement fields
    if normalizeKey u key != "value" then
      let sanitized := sanitizeValue false raw
      rest.cons key sanitized.1 (!same sanitized.1 raw)
        (if normalizeKey u key == "name" then ["*"] else []) sanitized.2
    else
      match stringOf raw with
      | some (text, tag) =>
        let sanitized := sanitizeAttributeText u name sensitiveElement text
        rest.cons key (.str sanitized.1 tag) sanitized.2.2 [name] sanitized.2.1
      | none =>
        let sanitized := sanitizeValue (sensitiveElement || isSensitiveKey u name) raw
        rest.cons key sanitized.1 (!same sanitized.1 raw) [name] sanitized.2

def childrenOf : Payload ν τ → Option (Children ν τ)
  | .arr children => some (sanitizeChildren children)
  | _ => none

/-- The loop of `sanitizeSemanticChildren`. -/
def sanitizeChildren : List (Payload ν τ) → Children ν τ
  | [] => ⟨[], false, .zero⟩
  | item :: items =>
    let rest := sanitizeChildren items
    match nodeOf item with
    | none => rest.drop .zero
    | some node =>
      if !semanticChildConvertible node || isUnsafeSemanticNode u node then rest.drop .zero
      else
        let clean := sanitizeValue false item
        if (nodeOf clean.1).any semanticChildConvertible then
          ⟨clean.1 :: rest.items, rest.omitted, clean.2.add rest.report⟩
        else rest.drop clean.2

end

def sanitize (input : List (String × Payload ν τ)) : List (String × Payload ν τ) × SanitizationReport :=
  let out := sanitizeValue u false (.obj input)
  ((nodeOf out.1).getD [], out.2)

end Values

end Sanitize

end Aegis
