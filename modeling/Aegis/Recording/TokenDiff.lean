import Aegis.Recording.SnapshotDelta

/-!
# Recording.TokenDiff

Patches without pointers: an operation names its place by tokens, relative to the value it is of
(`TokenOp`), and `run` does it.

`tokenDiff` is `diffJson` in these terms (`diffJson_eq`). The operations of a part of a value are
those of the part below its token (`under`), and to do them on the value is to do them on the part
(`runAll_under_fields`, `runAll_under_items`).
-/

namespace Aegis

open List Option

namespace Delta

open Pointer (child arrayIndex)
open Patch.Client (inheritedNames protoName)

variable {ν : Type}

structure TokenOp (ν : Type) where
  kind : PatchKind
  tokens : List String
  value : Option (Json ν)

/-- The operation on the value at `pointer`. -/
def TokenOp.at (pointer : String) (op : TokenOp ν) : PatchOp ν :=
  ⟨op.kind, op.tokens.foldl child pointer, op.value⟩

/-- The operations of the part at `token`. -/
def under (token : String) (ops : List (TokenOp ν)) : List (TokenOp ν) :=
  ops.map fun op => { op with tokens := token :: op.tokens }

/-! ## Doing an operation -/

def run (kind : PatchKind) (value : Option (Json ν)) : List String → Json ν → Option (Json ν)
  | [], _ => if kind = .replace then value else none
  | token :: tokens, .obj fields =>
    if tokens = [] ∧ kind = .add then value.map fun v => .obj (Assoc.set token v fields)
    else if tokens = [] ∧ kind = .remove then
      if (fields.lookup token).isSome then some (.obj (Assoc.erase token fields)) else none
    else (fields.lookup token).bind fun v =>
      (run kind value tokens v).map fun v => .obj (Assoc.set token v fields)
  | token :: tokens, .arr items =>
    if tokens = [] ∧ kind = .add then
      (arrayIndex token items.length true).bind fun index =>
        value.map fun v => .arr (items.insertIdx index v)
    else if tokens = [] ∧ kind = .remove then
      (arrayIndex token items.length false).map fun index => .arr (items.eraseIdx index)
    else (arrayIndex token items.length false).bind fun index => items[index]?.bind fun v =>
      (run kind value tokens v).map fun v => .arr (items.set index v)
  | _ :: _, _ => none

def runAll (ops : List (TokenOp ν)) (v : Json ν) : Option (Json ν) :=
  ops.foldlM (fun v op => run op.kind op.value op.tokens v) v

def Anchored (ops : List (TokenOp ν)) : Prop := ∀ op ∈ ops, op.tokens = [] → op.kind = .replace

section Run

variable {ops ops' : List (TokenOp ν)} {op : TokenOp ν} {v w : Json ν}
  {fields : List (String × Json ν)} {items : List (Json ν)} {token : String}

@[simp] theorem runAll_nil : runAll [] v = some v := rfl

theorem runAll_cons : runAll (op :: ops) v = (run op.kind op.value op.tokens v).bind (runAll ops) := rfl

theorem runAll_append : runAll (ops ++ ops') v = (runAll ops v).bind (runAll ops') := by
  rw [runAll, foldlM_append]
  rfl

theorem under_cons : under token (op :: ops) =
    { op with tokens := token :: op.tokens } :: under token ops := rfl

theorem Anchored.tail (h : Anchored (op :: ops)) : Anchored ops :=
  fun o ho => h o (mem_cons_of_mem op ho)

theorem run_under_fields {kind : PatchKind} {value : Option (Json ν)} {tokens : List String}
    (h : tokens = [] → kind = .replace) : run kind value (token :: tokens) (.obj fields) =
      (fields.lookup token).bind fun v =>
        (run kind value tokens v).map fun v => .obj (Assoc.set token v fields) := by
  rw [run, if_neg, if_neg]
  all_goals
    rintro ⟨ht, hk⟩
    rw [h ht] at hk
    cases hk

theorem run_under_items {kind : PatchKind} {value : Option (Json ν)} {tokens : List String}
    (h : tokens = [] → kind = .replace) : run kind value (token :: tokens) (.arr items) =
      (arrayIndex token items.length false).bind fun index => items[index]?.bind fun v =>
        (run kind value tokens v).map fun v => .arr (items.set index v) := by
  rw [run, if_neg, if_neg]
  all_goals
    rintro ⟨ht, hk⟩
    rw [h ht] at hk
    cases hk

theorem runAll_under_fields (hsorted : Assoc.Sorted fields) (hops : Anchored ops)
    (hv : fields.lookup token = some v) : runAll (under token ops) (.obj fields) =
      (runAll ops v).map fun v => .obj (Assoc.set token v fields) := by
  induction ops generalizing fields v with
  | nil => simp [under, hsorted.set_self hv]
  | cons op ops ih =>
    rw [under_cons, runAll_cons, run_under_fields (hops op mem_cons_self), hv, runAll_cons, bind_some]
    cases hrun : run op.kind op.value op.tokens v with
    | none => rfl
    | some w =>
      have hset : (Assoc.set token w fields).lookup token = some w := by
        rw [Assoc.lookup_set, if_pos rfl]
      rw [map_some, bind_some, ih (hsorted.set token w) hops.tail hset]
      simp only [hsorted.set_set]
      rfl

theorem runAll_under_missing (hops : Anchored ops) (hne : ops ≠ [])
    (hv : fields.lookup token = none) : runAll (under token ops) (.obj fields) = none := by
  cases ops with
  | nil => exact absurd rfl hne
  | cons op ops =>
    rw [under_cons, runAll_cons, run_under_fields (hops op mem_cons_self), hv]
    rfl

theorem runAll_under_items {index : Nat} (hops : Anchored ops) (hv : items[index]? = some v) :
    runAll (under (toString index) ops) (.arr items) =
      (runAll ops v).map fun v => .arr (items.set index v) := by
  induction ops generalizing items v with
  | nil =>
    obtain ⟨hlt, rfl⟩ := List.getElem?_eq_some_iff.mp hv
    simp [under]
  | cons op ops ih =>
    have hlt : index < items.length := (List.getElem?_eq_some_iff.mp hv).1
    rw [under_cons, runAll_cons, run_under_items (hops op mem_cons_self),
      Pointer.arrayIndex_toString (by simpa using hlt), bind_some, hv, bind_some,
      runAll_cons]
    cases hrun : run op.kind op.value op.tokens v with
    | none => rfl
    | some w =>
      have hset : (items.set index w)[index]? = some w := by simp [hlt]
      rw [map_some, bind_some, ih hops.tail hset]
      simp only [List.set_set]
      rfl

end Run

section Diff

variable [DecidableEq ν] (o : KeyOrder)

def tokenRemovals (shared length : Nat) : List (TokenOp ν) :=
  (List.range' shared (length - shared)).reverse.map fun index =>
    ⟨.remove, [toString index], none⟩

def tokenAdditions (index : Nat) : List (Json ν) → List (TokenOp ν)
  | [] => []
  | v :: items => ⟨.add, [toString index], some v⟩ :: tokenAdditions (index + 1) items

def tokenRemovedKeys (keys : List String) (target : List (String × Json ν)) : List (TokenOp ν) :=
  (keys.filter fun key => !((target.lookup key).isSome || inheritedNames.contains key)).map
    fun key => ⟨.remove, [key], none⟩

def tokenPrototype (pointer : String) (target : List (String × Json ν)) : List (TokenOp ν) :=
  inOrder (o.keys pointer (target.map Prod.fst)) (target.map fun f =>
    (f.1, if f.1 == protoName then if leafEq .null f.2 then [] else [⟨.replace, [f.1], some f.2⟩]
      else if inheritedNames.contains f.1 then [⟨.replace, [f.1], some f.2⟩]
      else [⟨.add, [f.1], some f.2⟩]))

def tokenInherited (pointer key : String) (target : Json ν) : List (TokenOp ν) :=
  match key == protoName, target with
  | true, .obj fields => tokenPrototype o pointer fields
  | _, _ => [⟨.replace, [], some target⟩]

mutual

/-- `diffJson`, of the value at `pointer`. -/
def tokenDiff (pointer : String) (base : Json ν) : Json ν → List (TokenOp ν)
  | .arr targets =>
    match base with
    | .arr bases =>
      tokenItems pointer 0 bases targets ++ tokenRemovals (min bases.length targets.length) bases.length ++
        tokenAdditions (min bases.length targets.length)
          (targets.drop (min bases.length targets.length))
    | _ => [⟨.replace, [], some (.arr targets)⟩]
  | .obj targets =>
    match base with
    | .obj bases =>
      tokenRemovedKeys (o.keys pointer (bases.map Prod.fst)) targets ++
        inOrder (o.keys pointer (targets.map Prod.fst)) (tokenFields pointer bases targets)
    | _ => [⟨.replace, [], some (.obj targets)⟩]
  | target => if leafEq base target then [] else [⟨.replace, [], some target⟩]

def tokenItems (pointer : String) (index : Nat) (bases : List (Json ν)) : List (Json ν) → List (TokenOp ν)
  | [] => []
  | target :: targets =>
    match bases with
    | [] => []
    | base :: bases =>
      under (toString index) (tokenDiff (child pointer (toString index)) base target) ++
        tokenItems pointer (index + 1) bases targets

def tokenFields (pointer : String) (bases : List (String × Json ν)) :
    List (String × Json ν) → List (String × List (TokenOp ν))
  | [] => []
  | (key, target) :: targets =>
    (key, match bases.lookup key with
      | some base => under key (tokenDiff (child pointer key) base target)
      | none =>
        if inheritedNames.contains key then
          under key (tokenInherited o (child pointer key) key target)
        else [⟨.add, [key], some target⟩]) ::
      tokenFields pointer bases targets

end

variable {o} {pointer : String} {key : String} {target : List (String × Json ν)}

omit [DecidableEq ν] in
theorem map_at_under (ops : List (TokenOp ν)) :
    (under key ops).map (TokenOp.at pointer) = ops.map (TokenOp.at (child pointer key)) := by
  rw [under, List.map_map]
  rfl

theorem inOrder_map {α β : Type} (f : α → β) (keys : List String) (blocks : List (String × List α)) :
    (inOrder keys blocks).map f = inOrder keys (blocks.map fun b => (b.1, b.2.map f)) := by
  have hlookup : ∀ key, ((blocks.map fun b => (b.1, b.2.map f)).lookup key).getD [] =
      ((blocks.lookup key).getD []).map f := by
    intro key
    induction blocks with
    | nil => rfl
    | cons b blocks ih =>
      rw [map_cons, lookup_cons, lookup_cons]
      cases key == b.1 with
      | true => rfl
      | false => exact ih
  rw [inOrder, inOrder, map_flatMap]
  exact flatMap_congr fun key _ => (hlookup key).symm

omit [DecidableEq ν] in
theorem map_at_removals {shared length : Nat} :
    (tokenRemovals (ν := ν) shared length).map (TokenOp.at pointer) = removals pointer shared length := by
  rw [tokenRemovals, List.map_map]
  rfl

omit [DecidableEq ν] in
theorem map_at_additions {index : Nat} {items : List (Json ν)} :
    (tokenAdditions index items).map (TokenOp.at pointer) = additions pointer index items := by
  induction items generalizing index with
  | nil => rfl
  | cons v items ih => rw [tokenAdditions, map_cons, ih, additions, TokenOp.at]; rfl

omit [DecidableEq ν] in
theorem map_at_removedKeys {keys : List String} :
    (tokenRemovedKeys keys target).map (TokenOp.at pointer) = removedKeys pointer keys target := by
  rw [tokenRemovedKeys, List.map_map]
  rfl

theorem map_at_prototype :
    (tokenPrototype o pointer target).map (TokenOp.at pointer) = diffPrototype o pointer target := by
  rw [tokenPrototype, inOrder_map, List.map_map, diffPrototype]
  congr 1
  refine map_congr_left fun f _ => Prod.ext rfl ?_
  show List.map _ (if _ then _ else _) = _
  split <;> split <;> rfl

theorem map_at_inherited {target : Json ν} :
    (tokenInherited o pointer key target).map (TokenOp.at pointer) =
      diffInherited o pointer key target := by
  cases hk : key == protoName with
  | true =>
    cases target with
    | obj fields =>
      rw [tokenInherited, diffInherited, map_at_prototype]
      all_goals exact hk
    | _ => simp [tokenInherited, diffInherited, TokenOp.at]
  | false => simp [tokenInherited, diffInherited, hk, TokenOp.at]

mutual

/-- The diff by pointers is the diff by tokens, with the pointers joined. -/
theorem diffJson_eq (pointer : String) (base : Json ν) : ∀ target : Json ν,
    diffJson o pointer base target = (tokenDiff o pointer base target).map (TokenOp.at pointer)
  | .arr targets => by
    cases base with
    | arr bases =>
      rw [diffJson, tokenDiff, map_append, map_append, map_at_removals, map_at_additions,
        diffItems_eq pointer 0 bases targets]
    | _ => simp [diffJson, tokenDiff, TokenOp.at]
  | .obj targets => by
    cases base with
    | obj bases =>
      rw [diffJson, tokenDiff, map_append, map_at_removedKeys, inOrder_map,
        diffFields_eq pointer bases targets]
    | _ => simp [diffJson, tokenDiff, TokenOp.at]
  | .null | .bool _ | .num _ | .str _ => by
    rw [diffJson, tokenDiff]
    · split <;> rfl
    all_goals simp

theorem diffItems_eq (pointer : String) (index : Nat) : ∀ bases targets : List (Json ν),
    diffItems o pointer index bases targets =
      (tokenItems o pointer index bases targets).map (TokenOp.at pointer)
  | bases, [] => by
    cases bases <;> rw [diffItems, tokenItems, map_nil]
  | [], target :: targets => by rw [diffItems, tokenItems, map_nil]
  | base :: bases, target :: targets => by
    rw [diffItems, tokenItems, map_append, map_at_under, diffJson_eq _ base target,
      diffItems_eq pointer (index + 1) bases targets]

theorem diffFields_eq (pointer : String) (bases : List (String × Json ν)) :
    ∀ targets : List (String × Json ν), diffFields o pointer bases targets =
      (tokenFields o pointer bases targets).map fun b => (b.1, b.2.map (TokenOp.at pointer))
  | [] => by rw [diffFields, tokenFields, map_nil]
  | (key, target) :: targets => by
    rw [diffFields, tokenFields, map_cons, diffFields_eq pointer bases targets]
    cases bases.lookup key with
    | some base =>
      dsimp only
      rw [map_at_under, diffJson_eq _ base target]
    | none =>
      dsimp only
      split
      · rw [map_at_under, map_at_inherited]
      · rfl

end

end Diff

end Delta

end Aegis
