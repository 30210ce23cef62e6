import Aegis.Lib.Run
import Aegis.Scheduler.Cron
import Mathlib.Algebra.Order.Ring.Rat

/-!
# Engine.Extraction

What the extraction actions store in `ctx.extracted`, of `scriptcat-engine/actions/index.ts`.

What is `undefined` is `none`; an object is the list of its fields. The page and the parts of the
language that no type depends on (regular expressions, dates, the criteria of filters) are
parameters.
-/

namespace Aegis

open List

namespace Extraction

/-- `models.RequirementValueType`. -/
inductive ValueType where
  | string | number | boolean | object | array
deriving DecidableEq

inductive Value where
  | null
  | bool (b : Bool)
  | num (n : Rat)
  | str (s : String)
  | arr (items : List Value)
  | obj (fields : List (String × Value))
  | native

/-- What `requirementValueMatches` takes a value for. -/
def Value.type : Value → Option ValueType
  | .str _ => some .string
  | .num _ => some .number
  | .bool _ => some .boolean
  | .obj _ => some .object
  | .arr _ => some .array
  | .null | .native => none

def index (key : String) : Option Nat := key.toNat?.filter fun n => toString n == key

def units (s : String) : List Char :=
  s.toList.flatMap fun c =>
    if c.toNat < 0x10000 then [c] else [Char.ofNat 0xFFFD, Char.ofNat 0xFFFD]

/-- What a value that has no such field of its own has under a key; `inherited` are the members of
prototypes. -/
def builtin (inherited : ValueType → String → Bool) (v : Value) (key : String) : Option Value :=
  match v with
  | .null => none
  | .native => some .native
  | .str s =>
    if key = "length" then some (.num (units s).length)
    else match index key with
      | some i => (units s)[i]?.map fun c => .str (String.ofList [c])
      | none => if inherited .string key then some .native else none
  | .arr items =>
    if key = "length" then some (.num items.length)
    else match index key with
      | some i => items[i]?
      | none => if inherited .array key then some .native else none
  | .num _ => if inherited .number key then some .native else none
  | .bool _ => if inherited .boolean key then some .native else none
  | .obj _ => if inherited .object key then some .native else none

/-- `o == null ? undefined : o[k]`. -/
def member (inherited : ValueType → String → Bool) (v : Value) (key : String) : Option Value :=
  match v with
  | .obj fields => match fields.lookup key with
    | some x => some x
    | none => builtin inherited v key
  | _ => builtin inherited v key

/-- `getPath`, of the keys of a path. -/
def getKeys (inherited : ValueType → String → Bool) (v : Value) : List String → Option Value
  | [] => some v
  | key :: keys => (member inherited v key).bind (getKeys inherited · keys)

def getPath (inherited : ValueType → String → Bool) (v : Value) (path : String) : Option Value :=
  getKeys inherited v (split path '.')

/-- `o[k] = v`. -/
def setKey (fields : List (String × Value)) (key : String) (v : Value) : List (String × Value) :=
  fields.filter (fun f => f.1 != key) ++ [(key, v)]

/-- The fields of `{ ...v }`. -/
def spread : Value → List (String × Value)
  | .obj fields => fields
  | .arr items => items.zipIdx.map fun (v, i) => (toString i, v)
  | .str s => (units s).zipIdx.map fun (c, i) => (toString i, .str (String.ofList [c]))
  | _ => []

def isJsSpace (c : Char) : Bool := (isSpace c && c.toNat != 0x85) || c.toNat == 0xFEFF

def trim (s : String) : String :=
  String.ofList (((s.toList.dropWhile isJsSpace).reverse.dropWhile isJsSpace).reverse)

def digits (l : List Char) : Nat := l.foldl (fun n c => 10 * n + (c.toNat - 48)) 0

/-- The number that begins with a digit; `none` if it is not finite. -/
def number (negative : Bool) (l : List Char) : Option Rat :=
  let isPart := fun c : Char => c.isDigit || c == ',' || isJsSpace c
  let whole := digits ((l.takeWhile isPart).filter Char.isDigit)
  let fraction := match l.dropWhile isPart with
    | '.' :: rest => rest.takeWhile Char.isDigit
    | _ => []
  -- from there on `Number` rounds to infinity
  if 2 ^ 1024 - 2 ^ 970 ≤ whole then none
  else
    let n : Rat := whole + digits fraction / 10 ^ fraction.length
    some (if negative then -n else n)

/-- The first match of the pattern of `toNumber`. -/
def scanNumber : List Char → Option Rat
  | [] => none
  | c :: rest =>
    if c.isDigit then number false (c :: rest)
    else if (c == '+' || c == '-') && (rest.head?.any Char.isDigit) then number (c == '-') rest
    else scanNumber rest

def toNumber : Value → Option Rat
  | .num n => some n
  | .str s => scanNumber s.toList
  | _ => none

structure FieldSpec where
  type : String
  selector : Option String
  /-- `visible === true`. -/
  visible : Bool
  default : Option Value
  /-- `trim !== false`. -/
  trim : Bool
  regex : Option String
  attr : String
  /-- `resolve`, of an `href` or a `src`. -/
  resolve : Bool
  cssProperty : String
  path : Option String

inductive ExtractField where
  | mk (spec : FieldSpec) (fields : Option (List (String × ExtractField)))

@[elab_as_elim]
theorem ExtractField.ind {P : ExtractField → Prop} (leaf : ∀ spec, P (.mk spec none))
    (nested : ∀ spec fields, (∀ name field, (name, field) ∈ fields → P field) →
      P (.mk spec (some fields))) (field : ExtractField) : P field :=
  @ExtractField.rec P (fun o => ∀ fields, o = some fields → ∀ f ∈ fields, P f.2)
    (fun fields => ∀ f ∈ fields, P f.2) (fun f => P f.2)
    (fun spec fields ih => match fields, ih with
      | none, _ => leaf spec
      | some fields, ih => nested spec fields fun name field h => ih fields rfl (name, field) h)
    nofun (fun fields ih _ h => Option.some.inj h ▸ ih)
    (fun _ h => absurd h not_mem_nil)
    (fun _ _ hf hrest => forall_mem_cons.mpr ⟨hf, hrest⟩) (fun _ _ h => h) field

/-- An operation of `transform`; `params` is what the parameters of the model make of it. -/
structure Op where
  type : String
  field : String
  params : Value

/-- An action, with what the extraction actions and the collector of types read of it. -/
structure Action where
  action : String
  name : String
  multiple : Bool
  /-- `onEmpty === 'fail'`. -/
  failOnEmpty : Bool
  /-- `target.visible === true`. -/
  visible : Bool
  fields : Option (List (String × ExtractField))
  attr : String
  path : Option String
  headers : Option (List (String × String))
  /-- The types of the fields of `extractPageInfo`. -/
  info : List (String × String)
  strategy : String
  /-- `from`. -/
  source : String
  keys : List String
  operations : List Op

inductive Step where
  | mk (action : Action) (thenSteps elseSteps steps default onOpen : List Step)
    (cases : List (List Step))

@[elab_as_elim]
theorem Step.ind {P : Step → Prop} (mk : ∀ a thenSteps elseSteps steps default onOpen cases,
    (∀ s ∈ thenSteps, P s) → (∀ s ∈ elseSteps, P s) → (∀ s ∈ steps, P s) → (∀ s ∈ default, P s) →
      (∀ s ∈ onOpen, P s) → (∀ l ∈ cases, ∀ s ∈ l, P s) →
      P (.mk a thenSteps elseSteps steps default onOpen cases)) (step : Step) : P step :=
  @Step.rec P (fun l => ∀ s ∈ l, P s) (fun cases => ∀ l ∈ cases, ∀ s ∈ l, P s)
    mk (fun _ h => absurd h not_mem_nil)
    (fun _ _ hs hrest => forall_mem_cons.mpr ⟨hs, hrest⟩)
    (fun _ h => absurd h not_mem_nil)
    (fun _ _ hs hrest => forall_mem_cons.mpr ⟨hs, hrest⟩) step

structure Js where
  inherited : ValueType → String → Bool
  /-- `JSON.parse`; `none` if it throws. -/
  parse : String → Option Value
  /-- `new RegExp` and the first match of a text; `none` if it throws. -/
  regexp : String → Option (String → Option String)
  /-- `new URL(v, location.href).href`; `none` if it throws. -/
  href : Value → Option String
  /-- The texts that `regex` and `replace` make of a text. -/
  regexOp : Op → String → String
  replaceOp : Op → String → String
  renamed : Op → String → String
  matchesCriteria : Op → Value → Bool
  /-- `toISOString`, of the date of a value that is valid. -/
  date : Value → Option String
  /-- `join('|')`. -/
  joined : List (Option Value) → String

structure Page (ν : Type) where
  textContent : ν → String
  innerHTML : ν → String
  outerHTML : ν → String
  getAttribute : ν → String → Option String
  /-- `querySelector`; `none` in `none` if the selector is not valid. -/
  querySelector : ν → String → Option ν
  isVisible : ν → Bool
  propertyValue : ν → String → String
  childElementCount : ν → Nat
  /-- The texts of the headers and of the cells of a table, as `headers` says where they stand. -/
  headers : ν → List String
  cells : ν → List (List String)
  url : String
  title : String
  domain : String
  timestamp : Nat
  referrer : String
  userAgent : String

section Handlers

variable {ν : Type} (js : Js) (page : Page ν)

/-- `default ?? null`. -/
def orNull (v : Option Value) : Value := v.getD .null

/-- `default ?? ''`. -/
def orEmpty : Option Value → Value
  | none | some .null => .str ""
  | some v => v

/-- `applyTransform`; `none` if it throws. -/
def applyTransform (v : Value) (f : FieldSpec) : Option Value :=
  match v, f.regex with
  | .str s, some regex =>
    if regex = "" then some v
    else (js.regexp regex).map fun find => match find s with
      | some text => .str text
      | none => orEmpty f.default
  | _, _ => some v

def extractRegexField (text : String) (f : FieldSpec) : Option Value :=
  match f.regex with
  | none => none
  | some regex =>
    if trim regex = "" then none
    else (js.regexp regex).map fun find => match find text with
      | some text => .str text
      | none => orEmpty f.default

def fieldText (node : ν) (f : FieldSpec) : String :=
  if f.trim then trim (page.textContent node) else page.textContent node

def truthy : Value → Bool
  | .null => false
  | .bool b => b
  | .num n => n != 0
  | .str s => s != ""
  | .arr _ | .obj _ | .native => true

/-- `getAttribute(attr) ?? default ?? null`, resolved. -/
def attrValue (node : ν) (f : FieldSpec) : Option Value :=
  let v := match page.getAttribute node f.attr with
    | some s => .str s
    | none => orNull f.default
  if f.resolve && truthy v then (js.href v).map .str else some v

/-- The steps of `getJsonPath`. -/
def jsonKeys (v : Value) : List String → Option (Option Value)
  | [] => some (some v)
  | key :: keys => match v with
    | .arr items => match index key with
      | none => none
      | some i =>
        if 2 ^ 53 ≤ i then none
        else match items[i]? with
          | some v => jsonKeys v keys
          -- of `undefined` each further key is `undefined`
          | none => some none
    | .obj fields => match fields.lookup key with
      | some v => jsonKeys v keys
      | none => some none
    | _ => some none

/-- `getJsonPath`; `none` if it throws. -/
def getJsonPath (v : Value) (path : String) : Option (Option Value) :=
  if trim path = "" then some (some v)
  else
    let segments := split (trim path) '.'
    if segments.contains "" then none else jsonKeys v segments

/-- `parseExtractedJson` and the path of a `json` field. -/
def jsonValue (node : ν) (path : Option String) : Option (Option Value) :=
  (js.parse (trim (page.textContent node))).bind fun v => match path with
    | none | some "" => some (some v)
    | some path => getJsonPath v path

inductive FieldKind where
  | text | html | number | boolean | attr | css | json | regex | present | count | other

def fieldKind : String → FieldKind
  | "text" => .text
  | "html" => .html
  | "number" => .number
  | "boolean" => .boolean
  | "attr" => .attr
  | "css" => .css
  | "json" => .json
  | "regex" => .regex
  | "exists" => .present
  | "count" => .count
  | _ => .other

def fieldValue (node : ν) (f : FieldSpec) : Option Value :=
  match fieldKind f.type with
  | .text => applyTransform js (.str (fieldText page node f)) f
  | .html => some (.str (page.innerHTML node))
  | .number => (applyTransform js (.str (page.textContent node)) f).map fun v =>
      match toNumber v with
      | some n => .num n
      | none => orNull f.default
  | .boolean => some (.bool true)
  | .attr => (attrValue js page node f).bind fun v => applyTransform js v f
  | .css => some (.str (page.propertyValue node f.cssProperty))
  | .json => (jsonValue js page node f.path).map fun
      | some v => v
      | none => orNull f.default
  | .regex => extractRegexField js (fieldText page node f) f
  | .present => some (.bool true)
  | .count => some (.num (page.childElementCount node))
  | .other => some (.str (trim (page.textContent node)))

def fieldNode (el : ν) (f : FieldSpec) : Option ν :=
  match f.selector with
  | none | some "" => some el
  | some selector => page.querySelector el selector

mutual

/-- `extractField`; `none` if it throws. -/
def extractField (el : ν) : ExtractField → Option Value
  | .mk f fields =>
    match fieldNode page el f with
    | none => if f.visible then none else some (orNull f.default)
    | some node =>
      if f.visible && !page.isVisible node then none
      else match fields with
        | some nested => (extractFields node nested).map .obj
        | none => fieldValue js page node f

def extractFields (el : ν) : List (String × ExtractField) → Option (List (String × Value))
  | [] => some []
  | field :: rest => (extractNamed el field).bind fun v => (extractFields el rest).map (v :: ·)

def extractNamed (el : ν) : String × ExtractField → Option (String × Value)
  | (key, field) => (extractField el field).map fun v => (key, v)

end

/-- The items of an `extract`. -/
def extractItems (fields : List (String × ExtractField)) : List ν → Option (List Value)
  | [] => some []
  | el :: rest => (extractFields js page el fields).bind fun item =>
      (extractItems fields rest).map (.obj item :: ·)

/-! ## Actions -/

abbrev Extracted := List (String × Value)

/-- What an action finds: elements, values of `ctx`, and what it has interpolated. -/
structure Answer (ν : Type) where
  element : Option ν
  elements : List ν
  path : String
  /-- The sources of `merge`. -/
  sources : List (Option Value)
  ctxVariables : Value
  ctxEvaluated : Value
  /-- The criteria of `filter`. -/
  keeps : Value → Bool

/-- `ctx.extracted[name] = value`. -/
def store (extracted : Extracted) (name : String) : Option Value → Extracted
  | some v => setKey extracted name v
  | none => extracted.filter fun f => f.1 != name

/-- `v ?? next`. -/
def orElse (v next : Option Value) : Option Value :=
  match v with
  | none | some .null => next
  | some v => some v

def resolveExpressionSource (extracted : Extracted) (answer : Answer ν) (source : String) : Option Value :=
  let ctx := Value.obj extracted
  if source = "extracted" then some ctx
  else if source = "variables" then some answer.ctxVariables
  else if source = "evaluated" then some answer.ctxEvaluated
  else if "extracted.".toList.isPrefixOf source.toList then
    getPath js.inherited ctx (String.ofList (source.toList.drop 10))
  else if "variables.".toList.isPrefixOf source.toList then
    getPath js.inherited answer.ctxVariables (String.ofList (source.toList.drop 10))
  else if "evaluated.".toList.isPrefixOf source.toList then
    getPath js.inherited answer.ctxEvaluated (String.ofList (source.toList.drop 10))
  else orElse (member js.inherited ctx source)
    (orElse (member js.inherited answer.ctxVariables source)
      (member js.inherited answer.ctxEvaluated source))

def numOrNull : Option Rat → Value
  | some n => .num n
  | none => .null

/-- `[key]: v` in an object. -/
def setField (fields : List (String × Value)) (key : String) : Option Value → List (String × Value)
  | some v => setKey fields key v
  | none => fields.filter fun f => f.1 != key

def applyToField (data : Option Value) (field : String) (fn : Option Value → Option Value) : Option Value :=
  let apply := fun item =>
    Value.obj (setField (spread item) field (fn (getPath js.inherited item field)))
  match data with
  | some (.arr items) => some (.arr (items.map fun item => match item with
    | .null => item
    | _ => apply item))
  | some (.obj fields) => some (apply (.obj fields))
  | _ => data

def applyOp (data : Option Value) (op : Op) (fn : Option Value → Option Value) : Option Value :=
  if op.field = "" then fn data else applyToField js data op.field fn

def onText (fn : String → Value) : Option Value → Option Value
  | some (.str s) => some (fn s)
  | v => v

def dateOf : Option Value → Option Value
  | some .null => some .null
  | some v => match js.date v with
    | some text => some (.str text)
    | none => some v
  | none => none

def renameItem (op : Op) : Value → Option Value
  | .null => none
  | item => some (.obj ((spread item).foldl (fun out (k, v) => setKey out (js.renamed op k) v) []))

def renameItems (op : Op) : List Value → Option (List Value)
  | [] => some []
  | item :: rest => (renameItem js op item).bind fun item =>
      (renameItems op rest).map (item :: ·)

def numberItem (op : Op) (item : Value) : Value :=
  if op.field = "" then numOrNull (toNumber item)
  else .obj (setKey (spread item) op.field (numOrNull ((getPath js.inherited item op.field).bind toNumber)))

inductive OpKind where
  | map | number | filter | regex | replace | trim | date | jsonParse | other

def opKind : String → OpKind
  | "map" => .map
  | "number" => .number
  | "filter" => .filter
  | "regex" => .regex
  | "replace" => .replace
  | "trim" => .trim
  | "date" => .date
  | "jsonParse" => .jsonParse
  | _ => .other

/-- `none` if it throws. -/
def applyTransformOp (data : Option Value) (op : Op) : Option (Option Value) :=
  match opKind op.type with
  | .map => match data with
    | some (.arr items) => (renameItems js op items).map fun items => some (.arr items)
    | _ => some data
  | .number => match data with
    | some (.arr items) => some (some (.arr (items.map (numberItem js op))))
    | _ => some (some (numOrNull (data.bind toNumber)))
  | .filter => match data with
    | some (.arr items) => some (some (.arr (items.filter (js.matchesCriteria op))))
    | _ => some (some (.arr []))
  | .regex => some (applyOp js data op (onText fun s => .str (js.regexOp op s)))
  | .replace => some (applyOp js data op (onText fun s => .str (js.replaceOp op s)))
  | .trim => some (applyOp js data op (onText fun s => .str (trim s)))
  | .date => some (applyOp js data op (dateOf js))
  | .jsonParse => some (applyOp js data op (onText fun s => (js.parse s).getD (.str s)))
  | .other => some data

def applyTransformOps (data : Option Value) : List Op → Option (Option Value)
  | [] => some data
  | op :: ops => (applyTransformOp js data op).bind fun data => applyTransformOps data ops

def handleExtract (answer : Answer ν) (a : Action) (extracted : Extracted) : Option Extracted :=
  let elements := if a.multiple then answer.elements else answer.element.toList
  if elements.isEmpty && (a.failOnEmpty || (!a.multiple && a.visible)) then none
  else
    (match a.fields with
    | some fields => extractItems js page fields elements
    -- there are no fields to go through
    | none => if elements.isEmpty then some [] else none).map fun items =>
      store extracted a.name (if a.multiple then some (.arr items) else items.head?)

def handleExtractText (answer : Answer ν) (a : Action) (extracted : Extracted) : Option Extracted :=
  match answer.element with
  | some el => some (store extracted a.name (some (.str (trim (page.textContent el)))))
  | none => if a.visible then none else some (store extracted a.name (some (.str "")))

def handleExtractAttribute (answer : Answer ν) (a : Action) (extracted : Extracted) : Option Extracted :=
  match answer.element with
  | some el => some (store extracted a.name (match page.getAttribute el a.attr with
    | some s => some (.str s)
    | none => some .null))
  | none => if a.visible then none else some (store extracted a.name (some .null))

def handleExtractHtml (answer : Answer ν) (a : Action) (extracted : Extracted) : Option Extracted :=
  answer.element.map fun el => store extracted a.name (some (.str (page.outerHTML el)))

def handleExtractJson (answer : Answer ν) (a : Action) (extracted : Extracted) : Option Extracted :=
  answer.element.bind fun el =>
    (jsonValue js page el (a.path.map fun path => if path = "" then path else answer.path)).map
      (store extracted a.name)

def tableRow (a : Action) (headers cells : List String) : List (String × Value) :=
  headers.zipIdx.foldl (fun row (h, i) =>
    setKey row ((a.headers.bind (·.lookup h)).getD h) (.str (cells[i]?.getD ""))) []

def isBlankText : Value → Bool
  | .str s => s == ""
  | _ => false

def handleExtractTable (answer : Answer ν) (a : Action) (extracted : Extracted) : Option Extracted :=
  answer.element.map fun el =>
    let headers := page.headers el
    let rows := ((page.cells el).map (tableRow a headers)).filter (·.any fun f => !isBlankText f.2)
    store extracted a.name (some (.obj [("headers", .arr (headers.map .str)),
      ("rows", .arr (rows.map .obj))]))

def infoValue : String → Option Value
  | "url" => some (.str page.url)
  | "title" => some (.str page.title)
  | "domain" => some (.str page.domain)
  | "timestamp" => some (.num page.timestamp)
  | "referrer" => some (.str page.referrer)
  | "userAgent" => some (.str page.userAgent)
  | _ => none

def handleExtractPageInfo (a : Action) (extracted : Extracted) : Option Extracted :=
  some (store extracted a.name (some (.obj (a.info.filterMap fun (key, type) =>
    (infoValue page type).map fun v => (key, v)))))

/-- `Object.assign({}, ...)`. -/
def assign (sources : List (Option Value)) : List (String × Value) :=
  sources.foldl (fun out v =>
    ((v.map spread).getD []).foldl (fun out (k, v) => setKey out k v) out) []

/-- An element of an array; one that is `undefined` is `null` in JSON. -/
def flat : Option Value → List Value
  | some (.arr items) => items
  | some v => [v]
  | none => [.null]

def zipLength (sources : List (Option Value)) : Nat :=
  ((sources.map fun
    | some (.arr items) => items.length
    | _ => 0).min?).getD 0

def handleMerge (answer : Answer ν) (a : Action) (extracted : Extracted) : Option Extracted :=
  let sources := answer.sources
  match a.strategy with
  | "concat" => some (store extracted a.name (some (.arr (sources.flatMap flat))))
  | "assign" => some (store extracted a.name (some (.obj (assign sources))))
  | "zip" => some (store extracted a.name (some (.arr ((List.range (zipLength sources)).map fun i =>
      .obj (assign (sources.map fun
        | some (.arr items) => items[i]?
        | _ => some (.obj [])))))))
  | _ => none

def handleTransform (answer : Answer ν) (a : Action) (extracted : Extracted) : Option Extracted :=
  (applyTransformOps js (resolveExpressionSource js extracted answer a.source) a.operations).map
    (store extracted a.name)

def arrayOf : Option Value → List Value
  | some (.arr items) => items
  | _ => []

def handleFilter (answer : Answer ν) (a : Action) (extracted : Extracted) : Option Extracted :=
  let data := resolveExpressionSource js extracted answer a.source
  some (store extracted a.name (some (.arr ((arrayOf data).filter answer.keeps))))

def unseen (keys seen : List String) : List Value → List Value
  | [] => []
  | item :: rest =>
    let key := js.joined (keys.map (getPath js.inherited item))
    if seen.contains key then unseen keys seen rest else item :: unseen keys (key :: seen) rest

def handleDeduplicate (answer : Answer ν) (a : Action) (extracted : Extracted) : Option Extracted :=
  let data := resolveExpressionSource js extracted answer a.source
  some (store extracted a.name (some (.arr (unseen js a.keys [] (arrayOf data)))))

/-- The cases of the switch of `executeAction`. -/
inductive ActionKind where
  | extract | extractText | extractAttribute | extractHtml | extractJson | extractTable
  | extractPageInfo | merge | transform | filter | deduplicate | other

def actionKind : String → ActionKind
  | "extract" => .extract
  | "extractText" => .extractText
  | "extractAttribute" => .extractAttribute
  | "extractHtml" => .extractHtml
  | "extractJson" => .extractJson
  | "extractTable" => .extractTable
  | "extractPageInfo" => .extractPageInfo
  | "merge" => .merge
  | "transform" => .transform
  | "filter" => .filter
  | "deduplicate" => .deduplicate
  | _ => .other

/-- `executeAction`, as far as it stores anything; `none` if it throws. -/
def executeAction (answer : Answer ν) (a : Action) (extracted : Extracted) : Option Extracted :=
  match actionKind a.action with
  | .extract => handleExtract js page answer a extracted
  | .extractText => handleExtractText page answer a extracted
  | .extractAttribute => handleExtractAttribute page answer a extracted
  | .extractHtml => handleExtractHtml page answer a extracted
  | .extractJson => handleExtractJson js page answer a extracted
  | .extractTable => handleExtractTable page answer a extracted
  | .extractPageInfo => handleExtractPageInfo page a extracted
  | .merge => handleMerge answer a extracted
  | .transform => handleTransform js answer a extracted
  | .filter => handleFilter js answer a extracted
  | .deduplicate => handleDeduplicate js answer a extracted
  | .other => some extracted

end Handlers

inductive Occurs (steps : List Step) : Step → Prop where
  | here {s} (h : s ∈ steps) : Occurs steps s
  | inner {a thenSteps elseSteps inside default onOpen cases s}
      (h : Occurs steps (.mk a thenSteps elseSteps inside default onOpen cases))
      (hs : s ∈ thenSteps ++ elseSteps ++ inside ++ default ++ onOpen ++ cases.flatten) :
      Occurs steps s

def actionOf : Step → Action
  | .mk a _ _ _ _ _ _ => a

structure Event (ν : Type) where
  step : Step
  page : Page ν
  answer : Answer ν

/-- Which step comes next is chosen by the events: branches, iterations and what fails. -/
def step {ν : Type} (js : Js) (extracted : Extracted) (e : Event ν) : Extracted :=
  (executeAction js e.page e.answer (actionOf e.step) extracted).getD extracted

end Extraction

end Aegis
