import Aegis.Recording.Patch
import Mathlib.Data.Rat.Floor

/-!
# Recording.Expand

The two expanders of reference and delta snapshots: `ExpandSnapshotReferences` of
`recording/snapshot_refs.go` and `expandSnapshotReferences` of
`rule-generator/converter/snapshot-refs.ts`.

Both walk over the snapshots and keep those with content by their sequence number. The copies that
they make of the content are the values themselves; the messages of the errors are left out.
-/

namespace Aegis

namespace Expand

open Patch (textOf)
open Patch.Client (Stop orThrow)

/-- The fields of a JSON object, the numbers among them finite. -/
abbrev Fields := List (String × Json ℚ)

abbrev Content := List (ℚ × Fields)

def copyContent (names : List String) (target snapshot : Fields) : Fields :=
  names.foldl (fun snapshot name =>
    match target.lookup name with
    | some v => Assoc.set name v snapshot
    | none => snapshot) snapshot

def writeFields (patched snapshot : Fields) : Fields :=
  patched.foldl (fun snapshot f => Assoc.set f.1 f.2 snapshot) snapshot

def numericSequence : Option (Json ℚ) → Option ℚ
  | some (.num n) => some n
  | _ => none

def remember (sequence : Option ℚ) (snapshot : Fields) (content : Content) : Content :=
  match sequence with
  | some n => (n, snapshot) :: content
  | none => content

/-- The conversion `int64(x)`: towards zero in its range, and what the machine does beyond it. -/
structure Int64Of where
  toInt : ℚ → ℤ
  inRange : ∀ q : ℚ, 0 ≤ q → q < 2 ^ 63 → toInt q = ⌊q⌋

namespace Server

variable (machine : Int64Of)

def referenceSequence : Json ℚ → Option ℚ
  | .num ref => if ref < 0 ∨ ref ≠ (machine.toInt ref : ℚ) then none else some ref
  | _ => none

def expandSnapshotDelta (content : Content) (snapshot : Fields) (rawPatch : Json ℚ) : Option Fields :=
  (snapshot.lookup "base").bind fun rawBase =>
    (referenceSequence machine rawBase).bind fun base =>
      (content.lookup base).bind fun target =>
        match rawPatch with
        | .arr patchOps =>
          (Patch.Server.applySnapshotPatch
            (copyContent ["selectorMap", "domTree", "capture"] target []) patchOps).map
            fun patched =>
              Assoc.erase "patch" (Assoc.erase "base" (writeFields patched snapshot))
        | _ => none

/-- One turn of the loop of `ExpandSnapshotReferences`, on an object. -/
def expandOne (content : Content) (snapshot : Fields) : Option (Content × Fields) :=
  match snapshot.lookup "ref", snapshot.lookup "patch" with
  | none, none =>
    if (snapshot.lookup "domTree").isSome then
      some (remember (numericSequence (snapshot.lookup "sequence")) snapshot content, snapshot)
    else some (content, snapshot)
  | some _, some _ => none
  | none, some rawPatch =>
    (expandSnapshotDelta machine content snapshot rawPatch).map fun snapshot =>
      -- the number is read from the expanded snapshot
      (remember (numericSequence (snapshot.lookup "sequence")) snapshot content, snapshot)
  | some rawRef, none =>
    (referenceSequence machine rawRef).bind fun ref =>
      (content.lookup ref).map fun target =>
        (content, Assoc.erase "ref" (copyContent ["domTree", "selectorMap", "capture"] target snapshot))

/-- The loop of `ExpandSnapshotReferences`. -/
def expandAll : Content → List (Json ℚ) → Option (List (Json ℚ))
  | _, [] => some []
  | content, .obj snapshot :: rest =>
    (expandOne machine content snapshot).bind fun r =>
      (expandAll r.1 rest).map fun rest => .obj r.2 :: rest
  | content, raw :: rest => (expandAll content rest).map fun rest => raw :: rest

def expandSnapshotReferences (recording : Fields) : Option Fields :=
  match recording.lookup "snapshots" with
  | some (.arr rawSnapshots) =>
    (expandAll machine [] rawSnapshots).map fun snapshots =>
      Assoc.set "snapshots" (.arr snapshots) recording
  | _ => some recording

end Server

namespace Client

def requireSequence : Option (Json ℚ) → Except Stop ℚ
  | some (.num n) => if n < 0 ∨ n ≠ ⌊n⌋ then .error .throws else .ok n
  | _ => .error .throws

/-- What `for (const op of patch)` runs through: the items of an array, the characters of a
string. -/
def iterate : Json ℚ → Except Stop (List (Json ℚ))
  | .arr ops => .ok ops
  | .str s => .ok (s.toList.map fun c => .str (String.singleton c))
  | _ => .error .throws

def fieldsOf : Json ℚ → Fields
  | .obj fields => fields
  | _ => []

def expandDelta (content : Content) (snapshot : Fields) (patch : Json ℚ) : Except Stop Fields := do
  let base ← requireSequence (snapshot.lookup "base")
  let target ← orThrow (content.lookup base)
  let ops ← iterate patch
  let patched ← Patch.Client.applyJsonPatch
    (.obj (copyContent ["selectorMap", "domTree", "capture"] target [])) ops
  return Assoc.erase "patch" (Assoc.erase "base" (writeFields (fieldsOf patched) snapshot))

/-- One turn of the loop of `expandSnapshotReferences`, on an object. -/
def expandOne (content : Content) (snapshot : Fields) : Except Stop (Content × Fields) :=
  match snapshot.lookup "ref", snapshot.lookup "patch" with
  | none, none =>
    -- a key that is no number is never looked up
    if (snapshot.lookup "domTree").isSome then
      .ok (remember (numericSequence (snapshot.lookup "sequence")) snapshot content, snapshot)
    else .ok (content, snapshot)
  | some _, some _ => .error .throws
  | none, some patch => do
    let sequence ← requireSequence (snapshot.lookup "sequence")
    let snapshot ← expandDelta content snapshot patch
    return (remember (some sequence) snapshot content, snapshot)
  | some ref, none => do
    let _ ← requireSequence (snapshot.lookup "sequence")
    let ref ← requireSequence (some ref)
    let target ← orThrow (content.lookup ref)
    return (content, Assoc.erase "ref" (copyContent ["domTree", "selectorMap", "capture"] target snapshot))

def expandAll : Content → List (Json ℚ) → Except Stop (List (Json ℚ))
  | _, [] => .ok []
  | content, .obj snapshot :: rest => do
    let r ← expandOne content snapshot
    let rest ← expandAll r.1 rest
    return .obj r.2 :: rest
  | content, raw :: rest => do
    let rest ← expandAll content rest
    return raw :: rest

def expandSnapshotReferences (recording : Fields) : Except Stop Fields :=
  match recording.lookup "version", recording.lookup "snapshots" with
  | some (.str version), some (.arr snapshots) =>
    if version == "2.0.0" then do
      let snapshots ← expandAll [] snapshots
      return Assoc.set "snapshots" (.arr snapshots) recording
    else .ok recording
  | _, _ => .ok recording

end Client

end Expand

end Aegis
