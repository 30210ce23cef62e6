import Mathlib
import Aegis.Recording.Json
import Aegis.Recording.Sanitize

/-!
# Gate.Stabilize

How `rule/selector_evidence.go` replaces the selectors of extractions by stable candidates of the
recording.

The CSS engine is a parameter, and so is what reads the text and the attributes of nodes. Neither
the texts of errors nor the counts of the report are kept.
-/

namespace Aegis

namespace Stabilize

open Sanitize (toLower contains)

variable {ν N T : Type}

abbrev Fields (ν : Type) := List (String × Json ν)

/-- The nodes that a selector matches in a tree, and below a node. -/
structure Engine (N T : Type) where
  compiles : String → Bool
  matchAll : String → T → List N
  queryAll : String → N → List N

/-- `selectorEvidenceSnapshot`. -/
structure Snapshot (T : Type) where
  state : String
  sequence : Int
  root : T

/-- `SelectorEvidenceCandidate`. -/
structure Candidate where
  selector : String
  state : String
  snapshotSequences : List Int
  cardinalities : List Nat

/-- The snapshots of a recording and their candidates, which have no blanks around them. -/
structure Catalog (T : Type) where
  snapshots : List (Snapshot T)
  candidates : List Candidate
  validationCandidates : List Candidate
  trimmed : ∀ c ∈ candidates ++ validationCandidates, trimSpace c.selector = c.selector

/-- What is asked of the text and the attributes of nodes, and of the tokens of a selector. -/
structure Checks (ν N T : Type) where
  /-- What `compileBrowserSelector` does not refuse. -/
  browser : String → Bool
  volatileTokens : String → Bool
  selectorUsesNonUniqueID : String → List (Snapshot T) → Bool
  validateTargetDisambiguators : (String → Option (Json ν)) → List (List N) → Bool
  validateFreeFormExtractionCapability : Fields ν → String → List (List N) → Bool
  validateTypedFieldCapability : Fields ν → List (List N) → Bool
  stableRelativeCandidates : List (List N) → List String
  trimmed : ∀ nodeSets, ∀ c ∈ stableRelativeCandidates nodeSets, trimSpace c = c
  unambiguousSemanticFieldReplacement : String → List (List N) → Option (String × List (List N))
  /-- `json.Marshal`. -/
  marshal : Fields ν → String

variable (u : Unicode) (engine : Engine N T) (checks : Checks ν N T)

/-- `selectorOutsideStrings`, within a quote or outside. -/
def outsideStrings : Option Char → Bool → List Char → List Char
  | _, _, [] => []
  | some q, escaped, c :: cs =>
    if escaped then ' ' :: outsideStrings (some q) false cs
    else if c = '\\' then ' ' :: outsideStrings (some q) true cs
    else if c = q then ' ' :: outsideStrings none false cs
    else ' ' :: outsideStrings (some q) false cs
  | none, _, c :: cs =>
    if c = '\'' || c = '"' then ' ' :: outsideStrings (some c) false cs
    else c :: outsideStrings none false cs

def selectorOutsideStrings (selector : String) : String :=
  String.ofList (outsideStrings none false selector.toList)

def isPositionalSelector (selector : String) : Bool :=
  [":nth-", ":first-child", ":last-child", ":first-of-type", ":last-of-type", ":only-child",
    ":only-of-type"].any (contains (toLower u (selectorOutsideStrings selector)))

def isVolatileSelector (selector : String) : Bool :=
  isPositionalSelector u selector || checks.volatileTokens selector

def selectorQuality (selector : String) : Nat :=
  if ["data-testid", "data-qa", "data-automation-id"].any (contains selector) then 5
  else if contains selector "#" then 4
  else if ["[name=", "[role=", "[aria-"].any (contains selector) then 3
  else if contains selector "." then 2
  else 1

def stableSelectorLess (left right : String) : Bool :=
  if selectorQuality left ≠ selectorQuality right then
    selectorQuality right < selectorQuality left
  else if left.utf8ByteSize ≠ right.utf8ByteSize then left.utf8ByteSize < right.utf8ByteSize
  else left < right

/-- The best of some selectors: the first that is not less than another; `""` when there is none. -/
def better (best selector : String) : String :=
  if best = "" || stableSelectorLess selector best then selector else best

def minIntSlice : List Nat → Nat
  | [] => 0
  | value :: values => values.foldl min value

variable [DecidableEq N]

def sameNodeSet (left right : List N) : Bool := left.isPerm right

/-- `consistentSelectorWindow`: the snapshots between the first and the last that have a node. -/
def consistentSelectorWindow (evidence : List (Snapshot T × List N)) :
    Option (List (Snapshot T × List N)) :=
  let window := ((evidence.dropWhile fun e => e.2.isEmpty).reverse.dropWhile
    fun e => e.2.isEmpty).reverse
  match window with
  | [] => none
  | (_, nodes) :: _ =>
    if window.all fun e => e.2.length == nodes.length then some window else none

def total (evidence : List (Snapshot T × List N)) : Nat := (evidence.map fun e => e.2.length).sum

def states (snapshots : List (Snapshot T)) : List String :=
  (snapshots.map Snapshot.state).dedup.mergeSort

def strongestSelectorEvidence (snapshots : List (Snapshot T)) (selector : String) :
    Option (List (Snapshot T × List N)) :=
  (states snapshots).foldl (fun best state =>
    let group := (snapshots.filter fun s => s.state = state).map
      fun s => (s, engine.matchAll selector s.root)
    match consistentSelectorWindow group with
    | none => best
    | some window =>
      match best with
      | none => some window
      | some b => if total b < total window then some window else some b) none

def exactCandidate (snapshots : List (Snapshot T)) (observed : String) (minimum : Nat)
    (c : Candidate) : Bool :=
  !isVolatileSelector u checks c.selector && minimum ≤ minIntSlice c.cardinalities &&
    engine.compiles c.selector &&
    (snapshots.filter fun s => s.state = c.state).all (fun s =>
      sameNodeSet (engine.matchAll observed s.root) (engine.matchAll c.selector s.root)) &&
    (snapshots.filter fun s => s.state = c.state && c.snapshotSequences.contains s.sequence).length
      == c.snapshotSequences.length

def candidateEvidence (snapshots : List (Snapshot T)) (c : Candidate) : List (Snapshot T × List N) :=
  (snapshots.filter fun s => s.state = c.state && c.snapshotSequences.contains s.sequence).map
    fun s => (s, engine.matchAll c.selector s.root)

/-- `exactStableTargetEvidence`: the exact candidate that is preferred. -/
def exactStableTargetEvidence (candidates : List Candidate) (snapshots : List (Snapshot T))
    (observed : String) (minimum : Nat) : Option Candidate :=
  candidates.foldl (fun best c =>
    if exactCandidate u engine checks snapshots observed minimum c then
      match best with
      | none => some c
      | some b => if b.selector = "" || stableSelectorLess c.selector b.selector then some c
        else some b
    else best) none

def onlyNode : List N → Option N
  | [n] => some n
  | _ => none

/-- `relativeSelectorNodeSets`: the one descendant of each row. -/
def relativeSelectorNodeSets (selector : String) (nodeSets : List (List N)) : Option (List (List N)) :=
  nodeSets.mapM fun rows => rows.mapM fun row => onlyNode (engine.queryAll selector row)

def exactRelative (nodeSets : List (List N)) (expected candidate : String) : Bool :=
  engine.compiles candidate && !isVolatileSelector u checks candidate &&
    nodeSets.all fun rows => rows.all fun row =>
      sameNodeSet (engine.queryAll candidate row) (engine.queryAll expected row)

def exactStableRelativeReplacement (nodeSets : List (List N)) (expected : String) : String :=
  ((checks.stableRelativeCandidates nodeSets).filter
    (exactRelative u engine checks nodeSets expected)).foldl better ""

def stringValue (fields : Fields ν) (key : String) : String :=
  match fields.lookup key with
  | some (.str s) => s
  | _ => ""

def selectorOf (fields : Fields ν) : String := trimSpace (stringValue fields "selector")

def put (key : String) (v : Json ν) (fields : Fields ν) : Fields ν :=
  fields.map fun (k, w) => (k, if k = key then v else w)

def extractFieldRequiresRecordedText (field : Fields ν) : Bool :=
  ["text", "number", "json", "regex"].contains (trimSpace (stringValue field "type"))

def fieldSelection (name : String) (nodeSets : List (List N)) (field : Fields ν) :
    Option (Option String × List (List N)) :=
  let selector := selectorOf field
  if selector = "" then some (none, nodeSets)
  else if !(engine.compiles selector && checks.browser selector) || isPositionalSelector u selector then
    none
  else
    match relativeSelectorNodeSets engine selector nodeSets with
    | none =>
      if (field.lookup "fields").isSome || !extractFieldRequiresRecordedText field then none
      else (checks.unambiguousSemanticFieldReplacement name nodeSets).bind
        fun (replacement, nodes) =>
          if replacement = "" then none else some (some replacement, nodes)
    | some covered =>
      let replacement := exactStableRelativeReplacement u engine checks nodeSets selector
      if replacement ≠ "" && replacement ≠ selector then
        some (some replacement, (relativeSelectorNodeSets engine replacement nodeSets).getD [])
      else if replacement = "" && isVolatileSelector u checks selector then none
      else some (none, covered)

def replaceSelector (replacement : Option String) (field : Fields ν) : Fields ν :=
  match replacement with
  | some selector => put "selector" (.str selector) field
  | none => field

mutual

/-- `validateExtractionFieldSelectors`. -/
def stabilizeFields (nodeSets : List (List N)) : Fields ν → Option (Fields ν)
  | [] => some []
  | (name, v) :: rest => do
    let v ← stabilizeField name nodeSets v
    let rest ← stabilizeFields nodeSets rest
    pure ((name, v) :: rest)

def stabilizeField (name : String) (nodeSets : List (List N)) : Json ν → Option (Json ν)
  | .obj field => do
    let (replacement, fieldNodeSets) ← fieldSelection u engine checks name nodeSets field
    if checks.validateTypedFieldCapability (replaceSelector replacement field) fieldNodeSets then
      let inner ← stabilizeNested fieldNodeSets field
      pure (.obj (replaceSelector replacement inner))
    else none
  | .null => none
  | .bool _ => none
  | .num _ => none
  | .str _ => none
  | .arr _ => none

def stabilizeNested (nodeSets : List (List N)) : Fields ν → Option (Fields ν)
  | [] => some []
  | (key, v) :: rest => do
    let v ← stabilizeUnder key nodeSets v
    let rest ← stabilizeNested nodeSets rest
    pure ((key, v) :: rest)

def stabilizeUnder (key : String) (nodeSets : List (List N)) : Json ν → Option (Json ν)
  | .obj nested => do
    if key = "fields" then
      if nested.isEmpty then none
      else
        let nested ← stabilizeFields nodeSets nested
        pure (.obj nested)
    else pure (.obj nested)
  | .null => if key = "fields" then none else some .null
  | .bool b => if key = "fields" then none else some (.bool b)
  | .num n => if key = "fields" then none else some (.num n)
  | .str s => if key = "fields" then none else some (.str s)
  | .arr items => if key = "fields" then none else some (.arr items)

end

structure Rule (ν : Type) where
  selectors : Option (Json ν)
  steps : Json ν
  hooks : Option (Json ν)

def isExtraction (action : String) : Bool :=
  ["extract", "extractAttribute", "extractHtml", "extractJson", "extractPageInfo", "extractTable",
    "extractText"].contains action

def isMultiple (step : Fields ν) : Bool :=
  match step.lookup "multiple" with
  | some (.bool true) => true
  | _ => false

/-- The target with what its alias says; `none` when there is no such alias. -/
def resolveTarget (aliases inline : Fields ν) : Option (String → Option (Json ν)) :=
  let ref := trimSpace (stringValue inline "$ref")
  if ref = "" then some fun key => inline.lookup key
  else
    match aliases.lookup ref with
    | some (.obj aliased) => some fun key => (inline.lookup key).or (aliased.lookup key)
    | _ => none

def stringAt (resolved : String → Option (Json ν)) (key : String) : String :=
  match resolved key with
  | some (.str s) => s
  | _ => ""

def isStated : Option (Json ν) → Bool
  | none => false
  | some .null => false
  | some (.str s) => trimSpace s ≠ ""
  | some _ => true

def resolvedSelector (resolved : String → Option (Json ν)) : String :=
  trimSpace (stringAt resolved "selector")

def groundable (resolved : String → Option (Json ν)) : Bool :=
  !(resolved "frame").isSome && !(resolved "shadowPath").isSome &&
    ["xpath", "text", "position"].all (fun key => !isStated (resolved key)) &&
    resolvedSelector resolved ≠ "" && engine.compiles (resolvedSelector resolved) &&
    checks.browser (resolvedSelector resolved) &&
    !isPositionalSelector u (resolvedSelector resolved)

variable (catalog : Catalog T)

def Catalog.validation : List Candidate :=
  if catalog.validationCandidates.isEmpty then catalog.candidates else catalog.validationCandidates

def preferred (multiple : Bool) (selector : String) : Option Candidate :=
  exactStableTargetEvidence u engine checks catalog.validation catalog.snapshots selector
    (if multiple then 2 else 1)

def targetSelection (multiple : Bool) (resolved : String → Option (Json ν)) :
    Option (Option String × List (List N)) :=
  let selector := resolvedSelector resolved
  if multiple then
    match preferred u engine checks catalog true selector with
    | none => none
    | some c =>
      if c.selector = "" then none
      else
        let nodeSets := (candidateEvidence engine catalog.snapshots c).map Prod.snd
        if checks.validateTargetDisambiguators resolved nodeSets then
          some (if selector ≠ c.selector then some c.selector else none, nodeSets)
        else none
  else
    match strongestSelectorEvidence engine catalog.snapshots selector with
    | none => none
    | some evidence =>
      let nodeSets := evidence.map Prod.snd
      if !(nodeSets.all fun nodes => nodes.length == 1) ||
          !checks.validateTargetDisambiguators resolved nodeSets then none
      else
        match preferred u engine checks catalog false selector with
        | some c =>
          if c.selector ≠ "" then
            if c.selector ≠ selector && selector ≠ "main" then
              some (some c.selector, (candidateEvidence engine catalog.snapshots c).map Prod.snd)
            else some (none, nodeSets)
          else if isVolatileSelector u checks selector ||
              checks.selectorUsesNonUniqueID selector (evidence.map Prod.fst) then none
          else some (none, nodeSets)
        | none =>
          if isVolatileSelector u checks selector ||
              checks.selectorUsesNonUniqueID selector (evidence.map Prod.fst) then none
          else some (none, nodeSets)

def replaceTarget (replacement : Option String) (inline : Fields ν) : Fields ν :=
  match replacement with
  | some selector => Assoc.set "selector" (.str selector) inline
  | none => inline

def validateOneExtractionSelector (aliases : Fields ν) (step inline : Fields ν) : Option (Fields ν) :=
  (resolveTarget aliases inline).bind fun resolved =>
    if !groundable u engine checks resolved then none
    else (targetSelection u engine checks catalog (isMultiple step) resolved).bind
      fun (replacement, nodeSets) =>
        let stabilized := put "target" (.obj (replaceTarget replacement inline)) step
        if !checks.validateFreeFormExtractionCapability stabilized (stringValue step "action")
            nodeSets then none
        else
          match step.lookup "fields" with
          | some (.obj fields) =>
            (stabilizeFields u engine checks nodeSets fields).map fun fields =>
              put "fields" (.obj fields) stabilized
          | _ => some stabilized

def isStep (action : String) (step : Fields ν) : Bool :=
  match step.lookup "action" with
  | some (.str a) => a = action
  | _ => false

/-- `step[key] == nil`. -/
def isNil (step : Fields ν) (key : String) : Bool :=
  match step.lookup key with
  | none => true
  | some .null => true
  | _ => false

def unconditionalFixedWait : Json ν → Bool
  | .obj step => isStep "waitForTimeout" step && isNil step "condition"
  | _ => false

def workflowTargetIdentity (target : Fields ν) : String :=
  checks.marshal (Assoc.erase "visible" (Assoc.erase "timeout" (Assoc.erase "multiple" target)))

def equivalentVisibleReadiness (step extractionTarget : Fields ν) : Bool :=
  isStep "waitForElementVisible" step && isNil step "condition" &&
    (isNil step "onError" || stringValue step "onError" = "stop") &&
    match step.lookup "target" with
    | some (.obj target) =>
      (match target.lookup "visible" with
        | some (.bool true) => true
        | _ => false) &&
        workflowTargetIdentity checks target = workflowTargetIdentity checks extractionTarget
    | _ => false

/-- `synchronizeRepeatedExtractionReadiness`; what comes before the extraction is the nearest
first. -/
def synchronize (originalTarget stabilizedTarget : Fields ν) : List (Json ν) → List (Json ν)
  | [] => []
  | v :: before =>
    if unconditionalFixedWait v then v :: synchronize originalTarget stabilizedTarget before
    else
      match v with
      | .obj wait =>
        if equivalentVisibleReadiness checks wait originalTarget then
          .obj (put "target" (.obj stabilizedTarget) wait) :: before
        else v :: before
      | _ => v :: before

def nestedActionListKeys : List String := ["steps", "then", "else", "default", "onOpen"]

def isInner (key : String) : Bool :=
  nestedActionListKeys.contains key || key = "trigger" || key = "cases"

def visit (aliases : Fields ν) (step : Fields ν) : Option (Fields ν) :=
  if isExtraction (stringValue step "action") then
    match step.lookup "target" with
    | some (.obj target) =>
      validateOneExtractionSelector u engine checks catalog aliases step target
    | _ => some step
  else some step

def settle (step own : Fields ν) (before : List (Json ν)) : List (Json ν) :=
  match step.lookup "target", own.lookup "target" with
  | some (.obj original), some (.obj stabilized) =>
    if stringValue step "action" = "extract" && isMultiple step then
      synchronize checks original stabilized before
    else before
  | _, _ => before

def graft (own inner : Fields ν) : Fields ν :=
  own.map fun (key, v) => (key, if isInner key then (inner.lookup key).getD v else v)

section Walk

variable (aliases : Fields ν)

mutual

/-- `validateSelectorEvidenceActions`; `before` are the steps that have been done, the last
first. -/
def walkActions (before : List (Json ν)) : List (Json ν) → Option (List (Json ν))
  | [] => some before.reverse
  | v :: rest => do
    let (v, before) ← walkAction before v
    walkActions (v :: before) rest

def walkAction (before : List (Json ν)) : Json ν → Option (Json ν × List (Json ν))
  | .obj step => do
    let own ← visit u engine checks catalog aliases step
    let inner ← walkInner step
    pure (.obj (graft own inner), settle checks step own before)
  | .null => some (.null, before)
  | .bool b => some (.bool b, before)
  | .num n => some (.num n, before)
  | .str s => some (.str s, before)
  | .arr items => some (.arr items, before)

def walkInner : Fields ν → Option (Fields ν)
  | [] => some []
  | (key, v) :: rest => do
    let v ← walkUnder key v
    let rest ← walkInner rest
    pure ((key, v) :: rest)

def walkUnder (key : String) : Json ν → Option (Json ν)
  | .arr items => do
    if nestedActionListKeys.contains key then
      let items ← walkActions [] items
      pure (.arr items)
    else if key = "cases" then
      let items ← walkCases items
      pure (.arr items)
    else pure (.arr items)
  | .obj step => do
    if key = "trigger" then
      let own ← visit u engine checks catalog aliases step
      let inner ← walkInner step
      pure (.obj (graft own inner))
    else pure (.obj step)
  | .null => some .null
  | .bool b => some (.bool b)
  | .num n => some (.num n)
  | .str s => some (.str s)

def walkCases : List (Json ν) → Option (List (Json ν))
  | [] => some []
  | v :: rest => do
    let v ← walkCase v
    let rest ← walkCases rest
    pure (v :: rest)

def walkCase : Json ν → Option (Json ν)
  | .obj fields => do
    let fields ← walkCaseSteps fields
    pure (.obj fields)
  | .null => some .null
  | .bool b => some (.bool b)
  | .num n => some (.num n)
  | .str s => some (.str s)
  | .arr items => some (.arr items)

def walkCaseSteps : Fields ν → Option (Fields ν)
  | [] => some []
  | (key, v) :: rest => do
    let v ← walkCaseList key v
    let rest ← walkCaseSteps rest
    pure ((key, v) :: rest)

def walkCaseList (key : String) : Json ν → Option (Json ν)
  | .arr items => do
    if key = "steps" then
      let items ← walkActions [] items
      pure (.arr items)
    else pure (.arr items)
  | .null => some .null
  | .bool b => some (.bool b)
  | .num n => some (.num n)
  | .str s => some (.str s)
  | .obj fields => some (.obj fields)

end

end Walk

def selectorEvidenceHookNames : List String := ["beforeAll", "afterAll", "onError", "cleanup"]

variable (aliases : Fields ν)

def walkHook (name : String) : Json ν → Option (Json ν)
  | .arr items =>
    if selectorEvidenceHookNames.contains name then
      (walkActions u engine checks catalog aliases [] items).map .arr
    else some (.arr items)
  | v => some v

def walkHooks : Fields ν → Option (Fields ν)
  | [] => some []
  | (name, v) :: rest => do
    let v ← walkHook u engine checks catalog aliases name v
    let rest ← walkHooks rest
    pure ((name, v) :: rest)

def aliasesOf (rule : Rule ν) : Option (Fields ν) :=
  match rule.selectors with
  | none => some []
  | some (.obj aliases) => some aliases
  | some .null => some []
  | some _ => none

def walkSteps : Json ν → Option (Json ν)
  | .arr items => (walkActions u engine checks catalog aliases [] items).map .arr
  | .null => some .null
  | _ => none

def walkRuleHooks : Option (Json ν) → Option (Option (Json ν))
  | none => some none
  | some (.obj hooks) => (walkHooks u engine checks catalog aliases hooks).map fun hooks =>
    some (.obj hooks)
  | some .null => some (some .null)
  | some _ => none

def stabilized (rule : Rule ν) : Option (Rule ν) := do
  if catalog.snapshots.isEmpty then none
  let aliases ← aliasesOf rule
  let steps ← walkSteps u engine checks catalog aliases rule.steps
  let hooks ← walkRuleHooks u engine checks catalog aliases rule.hooks
  pure { rule with steps := steps, hooks := hooks }

/-- `ValidateAndStabilizeGeneratedExtractionSelectors`: the rule afterwards, and whether there was
no error. -/
def validateAndStabilize (rule : Rule ν) : Rule ν × Bool :=
  match stabilized u engine checks catalog rule with
  | some stabilized => (stabilized, true)
  | none => (rule, false)

end Stabilize

end Aegis
