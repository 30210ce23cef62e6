import Aegis.Recording.Patch

/-!
# Recording.SnapshotDelta

The deltas of `recording/snapshot-delta.ts`.

The order in which an object lists its keys is not part of its value: it is a `KeyOrder`, one order
for each pointer. The lengths of the texts of values decide only whether a delta is worth it, and
are a parameter.
-/

namespace Aegis

structure PatchOp (ν : Type) where
  kind : PatchKind
  path : String
  value : Option (Json ν)

def PatchOp.json {ν : Type} (op : PatchOp ν) : Json ν :=
  .obj (("op", .str op.kind.name) :: ("path", .str op.path) :: match op.value with
    | some v => [("value", v)]
    | none => [])

/-- `Object.keys`, for the object at each pointer. -/
structure KeyOrder where
  keys : String → List String → List String
  perm : ∀ pointer l, (keys pointer l).Perm l

structure SnapshotContent (ν : Type) where
  selectorMap : Json ν
  domTree : Json ν
  capture : Json ν
  wf : selectorMap.wf && domTree.wf && capture.wf

def SnapshotContent.fields {ν : Type} (c : SnapshotContent ν) : List (String × Json ν) :=
  [("capture", c.capture), ("domTree", c.domTree), ("selectorMap", c.selectorMap)]

namespace Delta

open Pointer (child)
open Patch.Client (inheritedNames protoName)

variable {ν : Type} [DecidableEq ν]

/-- `===` of two values that are not both objects or both arrays. -/
def leafEq : Json ν → Json ν → Bool
  | .null, .null => true
  | .bool b, .bool c => b == c
  | .num n, .num m => n == m
  | .str s, .str t => s == t
  | _, _ => false

/-- The operations of one key: they are done where `Object.keys` lists it. -/
def inOrder {α : Type} (keys : List String) (blocks : List (String × List α)) : List α :=
  keys.flatMap fun key => (blocks.lookup key).getD []

/-- The removals of an array of `length` items down to `shared`. -/
def removals (pointer : String) (shared length : Nat) : List (PatchOp ν) :=
  (List.range' shared (length - shared)).reverse.map fun index =>
    ⟨.remove, child pointer (toString index), none⟩

/-- The additions of the items from `index` on. -/
def additions (pointer : String) (index : Nat) : List (Json ν) → List (PatchOp ν)
  | [] => []
  | v :: items =>
    ⟨.add, child pointer (toString index), some v⟩ :: additions pointer (index + 1) items

/-- The removals of the keys that `target` does not have, of its own or of `Object.prototype`. -/
def removedKeys (pointer : String) (keys : List String) (target : List (String × Json ν)) :
    List (PatchOp ν) :=
  (keys.filter fun key => !((target.lookup key).isSome || inheritedNames.contains key)).map
    fun key => ⟨.remove, child pointer key, none⟩

/-- `diffJson`, of `Object.prototype` and an object. -/
def diffPrototype (o : KeyOrder) (pointer : String) (target : List (String × Json ν)) : List (PatchOp ν) :=
  inOrder (o.keys pointer (target.map Prod.fst)) (target.map fun f =>
    (f.1, if f.1 == protoName then
        -- `Object.prototype` has no prototype of its own
        if leafEq .null f.2 then [] else [⟨.replace, child pointer f.1, some f.2⟩]
      else if inheritedNames.contains f.1 then [⟨.replace, child pointer f.1, some f.2⟩]
      else [⟨.add, child pointer f.1, some f.2⟩]))

/-- `diffJson`, of what an object has under `key` of `Object.prototype` and a value. -/
def diffInherited (o : KeyOrder) (pointer key : String) (target : Json ν) : List (PatchOp ν) :=
  match key == protoName, target with
  | true, .obj fields => diffPrototype o pointer fields
  | _, _ => [⟨.replace, pointer, some target⟩]

mutual

def diffJson (o : KeyOrder) (pointer : String) (base : Json ν) : Json ν → List (PatchOp ν)
  | .arr targets =>
    match base with
    | .arr bases =>
      diffItems o pointer 0 bases targets ++
        removals pointer (min bases.length targets.length) bases.length ++
        additions pointer (min bases.length targets.length)
          (targets.drop (min bases.length targets.length))
    | _ => [⟨.replace, pointer, some (.arr targets)⟩]
  | .obj targets =>
    match base with
    | .obj bases =>
      removedKeys pointer (o.keys pointer (bases.map Prod.fst)) targets ++
        inOrder (o.keys pointer (targets.map Prod.fst)) (diffFields o pointer bases targets)
    | _ => [⟨.replace, pointer, some (.obj targets)⟩]
  | target => if leafEq base target then [] else [⟨.replace, pointer, some target⟩]

def diffItems (o : KeyOrder) (pointer : String) (index : Nat) (bases : List (Json ν)) :
    List (Json ν) → List (PatchOp ν)
  | [] => []
  | target :: targets =>
    match bases with
    | [] => []
    | base :: bases =>
      diffJson o (child pointer (toString index)) base target ++
        diffItems o pointer (index + 1) bases targets

/-- The keys of `target`, each with its operations. -/
def diffFields (o : KeyOrder) (pointer : String) (bases : List (String × Json ν)) :
    List (String × Json ν) → List (String × List (PatchOp ν))
  | [] => []
  | (key, target) :: targets =>
    (key, match bases.lookup key with
      | some base => diffJson o (child pointer key) base target
      | none =>
        if inheritedNames.contains key then diffInherited o (child pointer key) key target
        else [⟨.add, child pointer key, some target⟩]) ::
      diffFields o pointer bases targets

end

def maxDeltaPatchOps : Nat := 2048

/-- `buildSnapshotDelta`. `textLength` is the length of what `JSON.stringify` makes of a value. -/
def buildSnapshotDelta (o : KeyOrder) (textLength : Json ν → Nat) (sequence : ν)
    (base candidate : SnapshotContent ν) : Option (ν × List (Json ν)) :=
  let ops := diffJson o "" (.obj base.fields) (.obj candidate.fields)
  if ops.isEmpty || maxDeltaPatchOps < ops.length then none
  else
    let patch := ops.map PatchOp.json
    -- `MAX_DELTA_SIZE_RATIO` is a half
    if textLength (.obj candidate.fields) ≤ 2 * textLength (.arr patch) then none
    else some (sequence, patch)

end Delta

end Aegis
