import Aegis.Rules.Models

/-!
# Rules.Patch

What a provider makes of a rule: `ApplyPatch` and its walks, `rule.Validate`, and `Enhance`.

* `editAt`     — the four walks to the place a path names; they differ in what they do there.
* `applyPatch` — the selectors, the variables and the step patches of a suggestion.
* `enhance`    — the rule of the result: the patched one, or the baseline.
-/

namespace Aegis

namespace Rules

variable {ν : Type}

structure PatchOp (ν : Type) where
  op : String
  path : String
  value : Json ν

structure SelectorSuggestion where
  selector : String
  reason : String

structure EnhancementSuggestion (ν : Type) where
  selectors : List (String × SelectorSuggestion)
  steps : List (PatchOp ν)
  vars : List (String × String)

inductive PatchStop where
  | refused | crash

structure Edit (ν : Type) where
  here : Json ν → Except PatchStop (Json ν)
  member? : Option (Fields ν → String → Fields ν)
  item? : Option (List (Json ν) → Nat → List (Json ν))
  past : Bool

/-- `setAtPath`, `addAtPath`, `removeAtPath`, `mergeAtPath`: a member that is missing is read as
`null`. -/
def editAt (e : Edit ν) : Json ν → List String → Except PatchStop (Json ν)
  | cur, [] => e.here cur
  | .obj members, p :: rest =>
    match rest, e.member? with
    | [], some f => .ok (.obj (f members p))
    | _, _ => do
      let next ← editAt e ((members.lookup p).getD .null) rest
      pure (.obj (Assoc.set p next members))
  | .arr items, p :: rest =>
    match atoi p with
    | none => .error .refused
    | some idx =>
      if idx < 0 ∨ items.length < idx ∨ (!e.past ∧ idx = items.length) then .error .refused
      else
        match rest, e.item? with
        | [], some f => .ok (.arr (f items idx.toNat))
        | _, _ =>
          -- an `add` below the index after the last reads it
          match items[idx.toNat]? with
          | none => .error .crash
          | some v => do
            let next ← editAt e v rest
            pure (.arr (items.set idx.toNat next))
  | _, _ :: _ => .error .refused

def mergeValues : Json ν → Json ν → Json ν
  | .obj a, .obj b => .obj (b.foldl (fun m f => Assoc.set f.1 f.2 m) a)
  | _, b => b

def setAtPath (value : Json ν) : Edit ν := ⟨fun _ => .ok value, none, none, false⟩

def addAtPath (value : Json ν) : Edit ν :=
  ⟨fun _ => .ok value, some fun members p => Assoc.set p value members,
    some fun items i => items.insertIdx i value, true⟩

def removeAtPath : Edit ν :=
  ⟨fun _ => .error .refused, some fun members p => Assoc.erase p members,
    some fun items i => items.eraseIdx i, false⟩

def mergeAtPath (value : Json ν) : Edit ν :=
  ⟨fun cur => .ok (mergeValues cur value), none, none, false⟩

/-- `strings.Trim(path, "/")`. -/
def trimSlashes (path : List Char) : List Char :=
  ((path.dropWhile (· == '/')).reverse.dropWhile (· == '/')).reverse

def splitPath (path : String) : List String :=
  ((trimSlashes path.toList).splitOn '/').map String.ofList

/-- The walk of an operation; `none` when it is not supported. -/
def PatchOp.edit (op : PatchOp ν) : Option (Edit ν) :=
  if op.op = "replace" then some (setAtPath op.value)
  else if op.op = "add" then some (addAtPath op.value)
  else if op.op = "remove" then some removeAtPath
  else if op.op = "merge" then some (mergeAtPath op.value)
  else none

def applyPatchOp (doc : Fields ν) (op : PatchOp ν) : Except PatchStop (Fields ν) :=
  match op.edit with
  | none => .error .refused
  | some e =>
    match editAt e (.obj doc) (splitPath op.path) with
    | .error stop => .error stop
    | .ok (.obj doc) => .ok doc
    | .ok _ => .error .refused

/-- `patched[name]`, when it is an object. -/
def objectAt (doc : Fields ν) (name : String) : Fields ν :=
  match doc.lookup name with
  | some (.obj members) => members
  | _ => []

def SelectorSuggestion.json (s : SelectorSuggestion) : Json ν :=
  .obj [("reason", .str s.reason), ("selector", .str s.selector)]

/-- Members written into the object at `name`, unless there are none. -/
def writeInto (doc : Fields ν) (name : String) (written : List (String × Json ν)) : Fields ν :=
  if written.isEmpty then doc
  else
    let members := written.foldl (fun m f => Assoc.set f.1 f.2 m) (objectAt doc name)
    Assoc.set name (.obj members) doc

def applyPatch (baseline : Fields ν) (s : EnhancementSuggestion ν) : Except PatchStop (Fields ν) :=
  let selected := writeInto baseline "selectors" (s.selectors.map fun f => (f.1, f.2.json))
  let bound := writeInto selected "variables" (s.vars.map fun f => (f.1, .str f.2))
  s.steps.foldlM applyPatchOp bound

/-- `m[key].(string)`, or the empty string. -/
def getString (m : Fields ν) (key : String) : String :=
  match m.lookup key with
  | some (.str s) => s
  | _ => ""

/-- `rule.Validate`; `urlParses` is `url.Parse`. -/
def validate (urlParses : String → Bool) (rule : Fields ν) : Bool :=
  let entry := getString rule "entry"
  getString rule "name" ≠ "" && entry ≠ "" && urlParses entry &&
    ("http://".toList.isPrefixOf entry.toList || "https://".toList.isPrefixOf entry.toList) &&
    match rule.lookup "steps" with
    | some (.arr steps) => !steps.isEmpty
    | _ => false

/-- What comes of the calls to the provider: no suggestion that is fit for use, or one, with the
verdict of the reflection on its patch. -/
inductive Response (ν : Type) where
  | failed
  | suggestion (s : EnhancementSuggestion ν) (verified : Bool)

/-- How `Enhance` stops without a result. -/
inductive EnhanceStop where
  | closed | crash

def fallback (enforced : Bool) (baseline : Fields ν) : Except EnhanceStop (Fields ν) :=
  if enforced then .error .closed else .ok baseline

/-- `Enhance`, with the fallback of `runJob`. -/
def enhance (urlParses : String → Bool) (enforced : Bool) (baseline : Fields ν) :
    Response ν → Except EnhanceStop (Fields ν)
  | .failed => fallback enforced baseline
  | .suggestion s verified =>
    match applyPatch baseline s with
    | .error .crash => .error .crash
    | .error .refused => fallback enforced baseline
    | .ok patched =>
      if validate urlParses patched && verified then .ok patched else fallback enforced baseline

end Rules

end Aegis
