import Aegis.Engine.Extraction
import Aegis.Lib.Assoc
import Aegis.Lib.Outcome
import Mathlib.Data.String.Basic

/-!
# Gate.Candidates

How the selector candidates of a provider become selectors, of `rule/selector_candidates.go`.

An object is the list of its fields in the order of their names. The checks of recorded evidence are
parameters: they only refuse more rules. Neither the places and texts of errors nor the counts of a
report are kept.
-/

namespace Aegis

namespace Candidates

open Extraction (Value)

abbrev Fields := List (String × Value)

inductive CandidateError where
  | notPrepared | staleHash | notList | notObject | wireRequired | wireKeys | blankSlot
  | unknownSelector | unknownFamily | slotCombination | outsideExtraction | conditionTarget
  | multipleUnsupported | pageInfoTarget | targetRequired | candidateRequired | cardinality
  | candidateKind | candidateUnknown | forbiddenKey | capability | fieldsRequired | fieldName
  | fieldRequired | candidateScope | candidateParent | fieldShape

structure Rule where
  selectors : Option Value
  steps : Value
  hooks : Option Value

/-- `extractionWorkflowActions`. -/
def isExtraction (action : String) : Bool :=
  ["extract", "extractAttribute", "extractHtml", "extractJson", "extractPageInfo", "extractTable",
    "extractText"].contains action

def nestedActionListKeys : List String := ["steps", "then", "else", "default", "onOpen"]

def selectorCandidateHookNames : List String := ["beforeAll", "afterAll", "onError", "cleanup"]

/-- The keys below which `walkSelectorCandidateActions` goes on. -/
def isInner (key : String) : Bool :=
  nestedActionListKeys.contains key || key == "trigger" || key == "cases"

/-- `s, _ := fields[key].(string)`. -/
def stringValue (fields : Fields) (key : String) : String :=
  match fields.lookup key with
  | some (.str s) => s
  | _ => ""

def actionOf (step : Fields) : String := trimSpace (stringValue step "action")

def graft (own inner : Fields) : Fields :=
  own.map fun (key, v) => (key, if isInner key then (inner.lookup key).getD v else v)

section Walk

variable (visit : Fields → Except CandidateError Fields)

mutual

def walkSelectorCandidateActions : List Value → Except CandidateError (List Value)
  | [] => .ok []
  | v :: rest => do
    let v ← walkAction v
    let rest ← walkSelectorCandidateActions rest
    pure (v :: rest)

def walkAction : Value → Except CandidateError Value
  | .obj step => do
    let own ← visit step
    let inner ← walkInner step
    pure (.obj (graft own inner))
  | .arr items => .ok (.arr items)
  | .str s => .ok (.str s)
  | .null => .ok .null
  | .bool b => .ok (.bool b)
  | .num n => .ok (.num n)
  | .native => .ok .native

def walkInner : Fields → Except CandidateError Fields
  | [] => .ok []
  | (key, v) :: rest => do
    let v ← walkUnder key v
    let rest ← walkInner rest
    pure ((key, v) :: rest)

def walkUnder (key : String) : Value → Except CandidateError Value
  | .arr items => do
    if nestedActionListKeys.contains key then
      let items ← walkSelectorCandidateActions items
      pure (.arr items)
    else if key = "cases" then
      let items ← walkCases items
      pure (.arr items)
    else pure (.arr items)
  | .obj fields => do
    if key = "trigger" then
      let own ← visit fields
      let inner ← walkInner fields
      pure (.obj (graft own inner))
    else pure (.obj fields)
  | .str s => .ok (.str s)
  | .null => .ok .null
  | .bool b => .ok (.bool b)
  | .num n => .ok (.num n)
  | .native => .ok .native

def walkCases : List Value → Except CandidateError (List Value)
  | [] => .ok []
  | v :: rest => do
    let v ← walkCase v
    let rest ← walkCases rest
    pure (v :: rest)

def walkCase : Value → Except CandidateError Value
  | .obj fields => do
    let fields ← walkCaseSteps fields
    pure (.obj fields)
  | .arr items => .ok (.arr items)
  | .str s => .ok (.str s)
  | .null => .ok .null
  | .bool b => .ok (.bool b)
  | .num n => .ok (.num n)
  | .native => .ok .native

def walkCaseSteps : Fields → Except CandidateError Fields
  | [] => .ok []
  | (key, v) :: rest => do
    let v ← walkCaseList key v
    let rest ← walkCaseSteps rest
    pure ((key, v) :: rest)

def walkCaseList (key : String) : Value → Except CandidateError Value
  | .arr items => do
    if key = "steps" then
      let items ← walkSelectorCandidateActions items
      pure (.arr items)
    else pure (.arr items)
  | .obj fields => .ok (.obj fields)
  | .str s => .ok (.str s)
  | .null => .ok .null
  | .bool b => .ok (.bool b)
  | .num n => .ok (.num n)
  | .native => .ok .native

end

def walkHook (name : String) : Value → Except CandidateError Value
  | .arr items => do
    if selectorCandidateHookNames.contains name then
      let items ← walkSelectorCandidateActions visit items
      pure (.arr items)
    else pure (.arr items)
  | v => pure v

def walkHooks : Fields → Except CandidateError Fields
  | [] => .ok []
  | (name, v) :: rest => do
    let v ← walkHook visit name v
    let rest ← walkHooks rest
    pure ((name, v) :: rest)

def walkSteps : Value → Except CandidateError Value
  | .arr steps => do
    let steps ← walkSelectorCandidateActions visit steps
    pure (.arr steps)
  | .null => pure .null
  | _ => .error .notList

def walkRuleHooks : Option Value → Except CandidateError (Option Value)
  | none => pure none
  | some (.obj hooks) => do
    let hooks ← walkHooks visit hooks
    pure (some (.obj hooks))
  | some .null => pure (some .null)
  | some _ => .error .notObject

def walkRule (rule : Rule) : Except CandidateError Rule := do
  let steps ← walkSteps visit rule.steps
  let hooks ← walkRuleHooks visit rule.hooks
  pure { rule with steps := steps, hooks := hooks }

end Walk

def lowerSlots (aliases : Fields) (family value name : String) : Except CandidateError Fields :=
  if trimSpace family = "" || trimSpace value = "" then .error .blankSlot
  else if family = "role" then
    if trimSpace name ≠ "" then .ok [("role", .str value), ("roleName", .str name)]
    else .error .slotCombination
  else if !(["ref", "selector", "selectorVisible", "selectorUnfiltered", "text", "textVisible",
      "ariaLabel"].contains family) then .error .unknownFamily
  else if name ≠ "" then .error .slotCombination
  else if family = "ref" then
    if (aliases.lookup value).isSome then .ok [("$ref", .str value)]
    else .error .unknownSelector
  else if family = "selector" then .ok [("selector", .str value)]
  else if family = "selectorVisible" then .ok [("selector", .str value), ("visible", .bool true)]
  else if family = "selectorUnfiltered" then
    .ok [("selector", .str value), ("visible", .bool false)]
  else if family = "text" then .ok [("text", .str value)]
  else if family = "textVisible" then .ok [("text", .str value), ("visible", .bool true)]
  else .ok [("ariaLabel", .str value)]

def lowerProviderTargetWire (aliases : Fields) (target : Fields) : Except CandidateError Fields :=
  if !(target.length == 3 && ["family", "value", "name"].all fun k => (target.lookup k).isSome) then
    .error .wireKeys
  else match target.lookup "family", target.lookup "value", target.lookup "name" with
    | some (.str family), some (.str value), some (.str name) => lowerSlots aliases family value name
    | _, _, _ => .error .blankSlot

def providerTargetWirePresent (target : Fields) : Bool :=
  ["family", "value", "name"].any fun key => (target.lookup key).isSome

/-- `lowerProviderActionTarget`, of the key `target`. -/
def lowerProviderActionTarget (aliases : Fields) (requireWire : Bool) (owner : Fields) :
    Except CandidateError Fields :=
  match owner.lookup "target" with
  | none => .ok owner
  | some (.obj target) =>
    if !providerTargetWirePresent target then
      if requireWire then .error .wireRequired else .ok owner
    else do
      let canonical ← lowerProviderTargetWire aliases target
      pure (Assoc.set "target" (.obj canonical) owner)
  | some _ => .error .notObject

def lowerTarget (aliases : Fields) (requireWire : Bool) (step : Fields) : Except CandidateError Fields :=
  if isExtraction (actionOf step) then .ok step
  else lowerProviderActionTarget aliases requireWire step

def lowerCondition (aliases : Fields) (requireWire : Bool) (step : Fields) : Except CandidateError Fields :=
  match step.lookup "condition" with
  | some (.obj condition) => do
    let condition ← lowerProviderActionTarget aliases requireWire condition
    pure (Assoc.set "condition" (.obj condition) step)
  | _ => .ok step

/-- What `resolveProviderOrdinaryTargets` does to a step. -/
def lowerStep (aliases : Fields) (requireWire : Bool) (step : Fields) : Except CandidateError Fields := do
  let step ← lowerTarget aliases requireWire step
  lowerCondition aliases requireWire step

def aliasesOf (rule : Rule) : Except CandidateError Fields :=
  match rule.selectors with
  | none => .ok []
  | some (.obj aliases) => .ok aliases
  | some .null => .ok []
  | some _ => .error .notObject

def resolveProviderOrdinaryTargets (requireWire : Bool) (rule : Rule) : Except CandidateError Rule := do
  let aliases ← aliasesOf rule
  walkRule (lowerStep aliases requireWire) rule

section

variable {ν : Type}

/-- `providerTargetEvidence`; `nodeSets` are the recorded nodes. -/
structure TargetEvidence (ν : Type) where
  rowCandidateID : String
  targetCandidateID : String
  selector : String
  nodeSets : ν

/-- `providerFieldEvidence`. -/
structure FieldEvidence (ν : Type) where
  fieldCandidateID : String
  parentFieldCandidateID : String
  supportedTypes : List String
  selector : String
  targetID : String
  nodeSets : ν

/-- What `PreparePrompt` leaves in a catalog: a target is there under the one candidate ID it has. -/
structure Catalog (ν : Type) where
  hash : String
  targets : List (String × TargetEvidence ν)
  fields : List (String × FieldEvidence ν)
  prepared : ∀ id evidence, targets.lookup id = some evidence → id ≠ "" ∧
    (evidence.rowCandidateID = id ∧ evidence.targetCandidateID = "" ∨
      evidence.rowCandidateID = "" ∧ evidence.targetCandidateID = id)

/-- `validateStandaloneExtractionCapability` and `validateTypedFieldCapability`, of recorded nodes. -/
structure Capabilities (ν : Type) where
  standalone : Fields → String → ν → Bool
  field : Fields → ν → Bool

def rejectTargetBearingCondition (owner : Fields) : Except CandidateError Unit :=
  match owner.lookup "condition" with
  | some (.obj condition) =>
    if (condition.lookup "target").isSome then .error .conditionTarget else .ok ()
  | _ => .ok ()

def providerLeafAllowedKeys (fieldType : String) : List String :=
  ["type", "fieldCandidateId"] ++ if fieldType = "text" then ["trim", "regex"]
    else if fieldType = "number" then ["regex"]
    else if fieldType = "attr" then ["attr", "regex", "resolve"]
    else if fieldType = "json" then ["path"]
    else if fieldType = "regex" then ["regex", "trim"]
    else []

/-- `validateProviderFieldShape`; `strings.ToLower` is only compared. -/
def validateProviderFieldShape (toLower : String → String) (field : Fields) : Except CandidateError Unit :=
  if ["condition", "required", "transform"].any fun k => (field.lookup k).isSome then
    .error .fieldShape
  else
    let fieldType := trimSpace (stringValue field "type")
    match field.lookup "fields" with
    | some (.obj nested) =>
      if nested.isEmpty || fieldType ≠ "exists" ||
          !field.all (fun f => ["type", "fieldCandidateId", "fields"].contains f.1) then
        .error .fieldShape
      else .ok ()
    | some _ => .error .fieldShape
    | none =>
      if !field.all fun f => (providerLeafAllowedKeys fieldType).contains f.1 then
        .error .fieldShape
      else if fieldType = "attr" && (field.lookup "resolve").isSome &&
          !(["href", "src"].contains (toLower (trimSpace (stringValue field "attr")))) then
        .error .fieldShape
      else .ok ()

def deleteProviderFieldLocatorHints (field : Fields) : Fields :=
  ["selector", "stableSelector", "observedSelector", "observedRelativeSelector"].foldl
    (fun field key => Assoc.erase key field) field

def bindField (evidence : FieldEvidence ν) (field : Fields) : Fields :=
  let field := Assoc.erase "fieldCandidateId" field
  let field := if evidence.selector = "" then Assoc.erase "selector" field
    else Assoc.set "selector" (.str evidence.selector) field
  Assoc.set "visible" (.bool true) field

/-- The checks of `resolveProviderFields` on one field. -/
def checkField (toLower : String → String) (caps : Capabilities ν) (c : Catalog ν)
    (targetID parentID : String) (field : Fields) :
    Except CandidateError (String × FieldEvidence ν) := do
  rejectTargetBearingCondition field
  let id := trimSpace (stringValue field "fieldCandidateId")
  if id = "" then .error .fieldRequired
  else match c.fields.lookup id with
    | none => .error .candidateScope
    | some evidence =>
      if evidence.targetID ≠ targetID then .error .candidateScope
      else if evidence.parentFieldCandidateID ≠ parentID then .error .candidateParent
      else do
        validateProviderFieldShape toLower (deleteProviderFieldLocatorHints field)
        if caps.field (deleteProviderFieldLocatorHints field) evidence.nodeSets then
          pure (id, evidence)
        else .error .capability

section

variable (toLower : String → String) (caps : Capabilities ν) (c : Catalog ν) (targetID : String)

mutual

def resolveProviderFields (parentID : String) : Fields → Except CandidateError Fields
  | [] => .ok []
  | (name, v) :: rest => do
    let v ← resolveProviderField parentID v
    let rest ← resolveProviderFields parentID rest
    pure ((name, v) :: rest)

def resolveProviderField (parentID : String) : Value → Except CandidateError Value
  | .obj field => do
    let (id, evidence) ← checkField toLower caps c targetID parentID field
    let field ← resolveNested id field
    pure (.obj (bindField evidence (deleteProviderFieldLocatorHints field)))
  | .arr _ | .str _ | .null | .bool _ | .num _ | .native => .error .fieldShape

def resolveNested (id : String) : Fields → Except CandidateError Fields
  | [] => .ok []
  | (key, v) :: rest => do
    let v ← resolveBelow id key v
    let rest ← resolveNested id rest
    pure ((key, v) :: rest)

def resolveBelow (id key : String) : Value → Except CandidateError Value
  | .obj nested => do
    if key = "fields" then
      let nested ← resolveProviderFields id nested
      pure (.obj nested)
    else pure (.obj nested)
  | .arr items => .ok (.arr items)
  | .str s => .ok (.str s)
  | .null => .ok .null
  | .bool b => .ok (.bool b)
  | .num n => .ok (.num n)
  | .native => .ok .native

end

end

def nameFields : Fields → List Value → Except CandidateError Fields
  | fields, [] => .ok fields
  | fields, .obj entry :: rest =>
    match entry.lookup "name" with
    | some (.str name) =>
      if name = "" || trimSpace name ≠ name || (fields.lookup name).isSome then .error .fieldName
      else nameFields (Assoc.set name (.obj (Assoc.erase "name" entry)) fields) rest
    | _ => .error .fieldName
  | _, _ :: _ => .error .fieldName

def canonicalizeProviderFieldCollection : Option Value → Except CandidateError Fields
  | some (.obj fields) => .ok fields
  | some (.arr entries) => if entries.isEmpty then .error .fieldsRequired else nameFields [] entries
  | _ => .error .fieldsRequired

/-! ## Extraction steps -/

def commonParent (c : Catalog ν) : String → Fields → Option String
  | parent, [] => some parent
  | parent, (_, .obj field) :: rest =>
    let id := trimSpace (stringValue field "fieldCandidateId")
    match c.fields.lookup id with
    | some evidence =>
      if id = "" || evidence.targetID = "" then none
      else if parent = "" || parent = evidence.targetID then commonParent c evidence.targetID rest
      else none
    | none => none
  | _, _ :: _ => none

def recoverMissingTargetFromFields (c : Catalog ν) (step : Fields) (multiple : Bool) : Option Fields :=
  match step.lookup "fields" with
  | some (.obj fields) =>
    if fields.isEmpty then none
    else match commonParent c "" fields with
      | none => none
      | some parentID => match c.targets.lookup parentID with
        | none => none
        | some parent =>
          if multiple then
            if parent.rowCandidateID = "" then none else some [("rowCandidateId", .str parentID)]
          else if parent.targetCandidateID = "" then none
          else some [("targetCandidateId", .str parentID)]
  | _ => none

structure Choice where
  step : Fields
  target : Fields
  multiple : Bool
  id : String

def chooseSlot (step target : Fields) (multiple : Bool) : Except CandidateError Choice :=
  let rowID := trimSpace (stringValue target "rowCandidateId")
  let singleID := trimSpace (stringValue target "targetCandidateId")
  if (rowID == "") == (singleID == "") then .error .candidateRequired
  else if multiple && rowID == "" then
    .ok ⟨step, Assoc.erase "targetCandidateId" (Assoc.set "rowCandidateId" (.str singleID) target),
      multiple, singleID⟩
  else if multiple then .ok ⟨step, target, multiple, rowID⟩
  else if singleID == "" then .error .cardinality
  else .ok ⟨step, target, multiple, singleID⟩

def asRow (id : String) (target : Fields) : Fields :=
  Assoc.erase "targetCandidateId" (Assoc.set "rowCandidateId" (.str id) target)

def asSingle (id : String) (target : Fields) : Fields :=
  Assoc.erase "rowCandidateId" (Assoc.set "targetCandidateId" (.str id) target)

/-- `text`, or else the first supported type. -/
def boundType (supportedTypes : List String) : String :=
  if supportedTypes.contains "text" then "text" else (supportedTypes.find? (· ≠ "")).getD ""

def rowFieldName (step : Fields) : String :=
  if trimSpace (stringValue step "name") = "" then "field" else trimSpace (stringValue step "name")

def rowFields (step : Fields) : Fields :=
  match step.lookup "fields" with
  | some (.obj fields) => fields
  | _ => []

def bindRowField (field : FieldEvidence ν) (step : Fields) : Except CandidateError Fields :=
  if ((rowFields step).lookup (rowFieldName step)).isSome then
    .ok (Assoc.set "fields" (.obj (rowFields step)) step)
  else if boundType field.supportedTypes = "" then .error .candidateKind
  else .ok (Assoc.set "fields" (.obj (Assoc.set (rowFieldName step) (.obj
    [("fieldCandidateId", .str field.fieldCandidateID),
      ("type", .str (boundType field.supportedTypes))]) (rowFields step))) step)

def chooseEvidence (c : Catalog ν) (choice : Choice) : Except CandidateError (Choice × TargetEvidence ν) :=
  match c.targets.lookup choice.id with
  | some evidence => .ok (choice, evidence)
  | none => match c.fields.lookup choice.id with
    | none => .error .candidateUnknown
    | some field =>
      if field.targetID = "" then .error .candidateUnknown
      else match c.targets.lookup field.targetID with
        | none => .error .candidateUnknown
        | some parent =>
          if choice.multiple then
            if parent.rowCandidateID ≠ "" then
              .ok ({ choice with target := asRow field.targetID choice.target, id := field.targetID },
                parent)
            else .error .candidateUnknown
          else if parent.targetCandidateID ≠ "" then
            .ok ({ choice with target := asSingle field.targetID choice.target, id := field.targetID },
              parent)
          else if parent.rowCandidateID ≠ "" then do
            let step ← bindRowField field (Assoc.set "multiple" (.bool true) choice.step)
            pure (⟨step, asRow field.targetID choice.target, true, field.targetID⟩, parent)
          else .error .candidateUnknown

def flipCardinality (evidence : TargetEvidence ν) (choice : Choice) : Choice :=
  if !choice.multiple && evidence.rowCandidateID != "" && evidence.targetCandidateID == "" then
    ⟨Assoc.set "multiple" (.bool true) choice.step, asRow choice.id choice.target, true, choice.id⟩
  else choice

def deleteProviderTargetLocatorHints (target : Fields) : Fields :=
  ["selector", "stableSelector", "observedSelector"].foldl
    (fun target key => Assoc.erase key target) target

/-- `providerCandidateIDKey`, of the targets of an action. -/
def hasCandidateID (target : Fields) : Bool :=
  ["fieldCandidateId", "rowCandidateId", "targetCandidateId"].any fun k => (target.lookup k).isSome

def currentActionProviderCandidateID (step : Fields) : Bool :=
  (match step.lookup "target" with
    | some (.obj target) => hasCandidateID target
    | _ => false) ||
  match step.lookup "condition" with
    | some (.obj condition) => match condition.lookup "target" with
      | some (.obj target) => hasCandidateID target
      | _ => false
    | _ => false

def extractionActionUsesRepeatedTarget (step : Fields) (action : String) : Except CandidateError Bool :=
  if action ≠ "extract" && (step.lookup "multiple").isSome then .error .multipleUnsupported
  else .ok (action = "extract" && match step.lookup "multiple" with
    | some (.bool b) => b
    | _ => false)

def bindTarget (evidence : TargetEvidence ν) (target : Fields) : Except CandidateError Fields :=
  let target := deleteProviderTargetLocatorHints target
  if !target.all fun f =>
      ["rowCandidateId", "targetCandidateId", "timeout", "visible"].contains f.1 then
    .error .forbiddenKey
  else .ok (Assoc.set "selector" (.str evidence.selector)
    (Assoc.erase "targetCandidateId" (Assoc.erase "rowCandidateId" target)))

def stepTarget (c : Catalog ν) (step : Fields) (multiple : Bool) : Except CandidateError Fields :=
  match step.lookup "target" with
  | some (.obj target) => .ok target
  | _ => match recoverMissingTargetFromFields c step multiple with
    | some target => .ok target
    | none => .error .targetRequired

def checkKind (evidence : TargetEvidence ν) (choice : Choice) : Except CandidateError Unit :=
  if choice.multiple && evidence.rowCandidateID ≠ choice.id then .error .candidateKind
  else if !choice.multiple && evidence.targetCandidateID ≠ choice.id then .error .candidateKind
  else .ok ()

def bindStep (toLower : String → String) (caps : Capabilities ν) (c : Catalog ν) (action : String)
    (choice : Choice) (evidence : TargetEvidence ν) : Except CandidateError Fields := do
  let target ← bindTarget evidence choice.target
  if !caps.standalone choice.step action evidence.nodeSets then .error .capability
  else if action = "extract" then do
    let fields ← canonicalizeProviderFieldCollection (choice.step.lookup "fields")
    let fields ← resolveProviderFields toLower caps c choice.id "" fields
    pure (Assoc.set "fields" (.obj fields) (Assoc.set "target" (.obj target) choice.step))
  else pure (Assoc.set "target" (.obj target) choice.step)

def resolveTarget (toLower : String → String) (caps : Capabilities ν) (c : Catalog ν)
    (action : String) (step : Fields) (multiple : Bool) : Except CandidateError Fields := do
  let target ← stepTarget c step multiple
  let choice ← chooseSlot step target multiple
  let chosen ← chooseEvidence c choice
  checkKind chosen.2 (flipCardinality chosen.2 chosen.1)
  bindStep toLower caps c action (flipCardinality chosen.2 chosen.1) chosen.2

/-- What `resolveProviderExtractionCandidates` does to a step. -/
def resolveStep (toLower : String → String) (caps : Capabilities ν) (c : Catalog ν)
    (step : Fields) : Except CandidateError Fields :=
  if !isExtraction (actionOf step) then
    if currentActionProviderCandidateID step then .error .outsideExtraction else .ok step
  else do
    rejectTargetBearingCondition step
    let multiple ← extractionActionUsesRepeatedTarget step (actionOf step)
    if actionOf step = "extractPageInfo" then
      if (step.lookup "target").isSome then .error .pageInfoTarget else .ok step
    else resolveTarget toLower caps c (actionOf step) step multiple

/-- `resolveProviderExtractionCandidates`, of a catalog that may not be there. -/
def resolveProviderExtractionCandidates (toLower : String → String) (caps : Capabilities ν)
    (c : Option (Catalog ν)) (claimedCatalogHash : String) (rule : Rule) :
    Except CandidateError Rule :=
  match c with
  | none => .error .notPrepared
  | some c =>
    if c.hash = "" then .error .notPrepared
    else if trimSpace claimedCatalogHash = "" || claimedCatalogHash ≠ c.hash then .error .staleHash
    else walkRule (resolveStep toLower caps c) rule

/-- `ResolveProviderCandidates`: the rule as it is left, and the error. -/
def resolveProviderCandidates (toLower : String → String) (caps : Capabilities ν)
    (c : Option (Catalog ν)) (rule : Rule) (claimedCatalogHash : String) :
    Rule × Option CandidateError :=
  let resolved := do
    let rule ← resolveProviderOrdinaryTargets true rule
    resolveProviderExtractionCandidates toLower caps c claimedCatalogHash rule
  match resolved with
  | .ok resolved => (resolved, none)
  | .error e => (rule, some e)

end

end Candidates

end Aegis
