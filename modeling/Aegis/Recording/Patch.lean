import Aegis.Recording.Json
import Aegis.Recording.Pointer

/-!
# Recording.Patch

The two appliers of snapshot patches: `applySnapshotPatch` of `recording/snapshot_delta.go` and
`applyJsonPatch` of `rule-generator/converter/json-patch.ts`.

Both walk to the parent of the place a pointer names and edit it there; here the walk puts the
edited parent back. They differ in what they take of a token: an object of the client has the names
of `Object.prototype` beside its own keys. An operation of the client that reaches
`Object.prototype` itself leaves the tree, and is an outcome of its own. The messages of the errors
are left out.
-/

namespace Aegis

inductive PatchKind where
  | add | replace | remove
deriving DecidableEq

def PatchKind.name : PatchKind → String
  | .add => "add"
  | .replace => "replace"
  | .remove => "remove"

def PatchKind.parse (name : String) : Option PatchKind :=
  if name == "add" then some .add
  else if name == "replace" then some .replace
  else if name == "remove" then some .remove
  else none

namespace Patch

open Pointer (arrayIndex splitPointer)

variable {ν : Type}

/-- `value.(string)`, or the empty string. -/
def textOf : Option (Json ν) → String
  | some (.str s) => s
  | _ => ""

/-- An edit of the items of an array, at the place `last`. -/
def editItems (kind : PatchKind) (last : String) (value : Option (Json ν))
    (items : List (Json ν)) : Option (List (Json ν)) :=
  (arrayIndex last items.length (kind == .add)).bind fun index =>
    match kind with
    | .add => value.map fun v => items.insertIdx index v
    | .replace => value.map fun v => items.set index v
    | .remove => some (items.eraseIdx index)

namespace Server

def maxSnapshotPatchOps : Nat := 4096

def editFields (kind : PatchKind) (last : String) (value : Option (Json ν))
    (fields : List (String × Json ν)) : Option (List (String × Json ν)) :=
  match kind with
  | .add => value.map fun v => Assoc.set last v fields
  | .replace => value.bind fun v =>
    if (fields.lookup last).isSome then some (Assoc.set last v fields) else none
  | .remove => if (fields.lookup last).isSome then some (Assoc.erase last fields) else none

/-- The switch of `applyOp` on the parent. -/
def edit (kind : PatchKind) (last : String) (value : Option (Json ν)) : Json ν → Option (Json ν)
  | .obj fields => (editFields kind last value fields).map .obj
  | .arr items => (editItems kind last value items).map .arr
  | _ => none

/-- `descend`, and the way back with the edited parent (`rebuild`). -/
def descend (f : Json ν → Option (Json ν)) : List String → Json ν → Option (Json ν)
  | [], container => f container
  | token :: tokens, .obj fields =>
    (fields.lookup token).bind fun v =>
      (descend f tokens v).map fun v => .obj (Assoc.set token v fields)
  | token :: tokens, .arr items =>
    (arrayIndex token items.length false).bind fun index =>
      items[index]?.bind fun v => (descend f tokens v).map fun v => .arr (items.set index v)
  | _, _ => none

def applyOp (container : Json ν) (tokens : List String) (kind : PatchKind)
    (value : Option (Json ν)) : Option (Json ν) :=
  descend (edit kind (tokens.getLastD "") value) tokens.dropLast container

/-- One turn of the loop of `applySnapshotPatch`. -/
def applyRawOp (container : Json ν) : Json ν → Option (Json ν)
  | .obj op =>
    match op.lookup "path" with
    | some (.str path) =>
      if path.toList.head? != some '/' then none
      else if (splitPointer path).headD "" == "" then none
      else (PatchKind.parse (textOf (op.lookup "op"))).bind fun kind =>
        applyOp container (splitPointer path) kind (op.lookup "value")
    | _ => none
  | _ => none

/-- The loop of `applySnapshotPatch`. -/
def applyOps (container : Json ν) (rawOps : List (Json ν)) : Option (Json ν) :=
  rawOps.foldlM applyRawOp container

def applySnapshotPatch (content : List (String × Json ν)) (rawOps : List (Json ν)) :
    Option (List (String × Json ν)) :=
  if rawOps.isEmpty || maxSnapshotPatchOps < rawOps.length then none
  else match applyOps (.obj content) rawOps with
    | some (.obj content) => some content
    | _ => none

end Server

namespace Client

/-- The properties that every object of the client has of `Object.prototype`. -/
def inheritedNames : List String :=
  ["constructor", "__defineGetter__", "__defineSetter__", "hasOwnProperty", "__lookupGetter__",
    "__lookupSetter__", "isPrototypeOf", "propertyIsEnumerable", "toString", "valueOf",
    "__proto__", "toLocaleString"]

/-- The one of them whose value is an object: `Object.prototype`. -/
def protoName : String := "__proto__"

inductive Stop where
  | throws
  /-- The operation reaches `Object.prototype`. -/
  | reachesPrototype

def orThrow {α : Type} : Option α → Except Stop α
  | some a => .ok a
  | none => .error .throws

def editFields (kind : PatchKind) (last : String) (value : Option (Json ν))
    (fields : List (String × Json ν)) : Except Stop (List (String × Json ν)) :=
  let own := (fields.lookup last).isSome
  match kind with
  | .add =>
    if last == protoName && !own then .error .reachesPrototype
    else orThrow (value.map fun v => Assoc.set last v fields)
  | .replace =>
    if last == protoName && !own then .error .reachesPrototype
    else if own || inheritedNames.contains last then
      orThrow (value.map fun v => Assoc.set last v fields)
    else .error .throws
  | .remove =>
    if own then .ok (Assoc.erase last fields)
    -- `delete` of what is not the object's own leaves it as it is
    else if inheritedNames.contains last then .ok fields
    else .error .throws

def edit (kind : PatchKind) (last : String) (value : Option (Json ν)) : Json ν → Except Stop (Json ν)
  | .arr items => .arr <$> orThrow (editItems kind last value items)
  | .obj fields => .obj <$> editFields kind last value fields
  | _ => .error .throws

def descend (f : Json ν → Except Stop (Json ν)) : List String → Json ν → Except Stop (Json ν)
  | [], container => f container
  | token :: tokens, .arr items =>
    match arrayIndex token items.length false with
    | some index =>
      match items[index]? with
      | some v => (fun v => .arr (items.set index v)) <$> descend f tokens v
      | none => .error .throws
    | none => .error .throws
  | token :: tokens, .obj fields =>
    match fields.lookup token with
    | some v => (fun v => .obj (Assoc.set token v fields)) <$> descend f tokens v
    -- a function is no container
    | none => if token == protoName then .error .reachesPrototype else .error .throws
  | _, _ => .error .throws

/-- One turn of the loop of `applyJsonPatch`. -/
def applyRawOp (root : Json ν) : Json ν → Except Stop (Json ν)
  | .obj op =>
    match PatchKind.parse (textOf (op.lookup "op")), op.lookup "path" with
    | some kind, some (.str path) =>
      let tokens := splitPointer path
      if kind != .remove && (op.lookup "value").isNone then .error .throws
      else if path.toList.head? != some '/' then .error .throws
      else if tokens.getLastD "" == "" then .error .throws
      else descend (edit kind (tokens.getLastD "") (op.lookup "value")) tokens.dropLast root
    | _, _ => .error .throws
  | _ => .error .throws

def applyJsonPatch (root : Json ν) (ops : List (Json ν)) : Except Stop (Json ν) :=
  ops.foldlM applyRawOp root

end Client

end Patch

end Aegis
