import Aegis.Recording.TokenDiff
import Mathlib.Data.List.Induction

/-!
# Recording.Exactness

When a snapshot delta gives the snapshot back.

The server's applier gives it back exactly when the two snapshots agree, at every pair of objects
the diff compares, on which of the names of `Object.prototype` they have (`sharesInherited`): the
diff takes such a name for present. The client's applier refuses, besides, an operation on the empty
key (`keepsEmptyKey`).
-/

namespace Aegis

open List Option

namespace Delta

open Pointer (child arrayIndex)
open Patch.Client (inheritedNames protoName)

variable {ν : Type}

/-! ## The conditions -/

/-- The two objects have the same names of `Object.prototype` among their own. -/
def sharesNames (bases targets : List (String × Json ν)) : Bool :=
  inheritedNames.all fun key => (bases.lookup key).isSome == (targets.lookup key).isSome

mutual

def sharesInherited (base : Json ν) : Json ν → Bool
  | .arr targets =>
    match base with
    | .arr bases => itemsShare bases targets
    | _ => true
  | .obj targets =>
    match base with
    | .obj bases => sharesNames bases targets && fieldsShare bases targets
    | _ => true
  | _ => true

def itemsShare (bases : List (Json ν)) : List (Json ν) → Bool
  | [] => true
  | target :: targets =>
    match bases with
    | [] => true
    | base :: bases => sharesInherited base target && itemsShare bases targets

def fieldsShare (bases : List (String × Json ν)) : List (String × Json ν) → Bool
  | [] => true
  | (key, target) :: targets =>
    (match bases.lookup key with
      | some base => sharesInherited base target
      | none => true) && fieldsShare bases targets

end

variable [DecidableEq ν]

def replaced : Json ν → Json ν → Bool
  | .arr _, .arr _ => false
  | .obj _, .obj _ => false
  | base, target => !leafEq base target

def sameEmptyKey (bases targets : List (String × Json ν)) : Bool :=
  match bases.lookup "", targets.lookup "" with
  | none, none => true
  | some base, some target => !replaced base target
  | _, _ => false

mutual

/-- At every two objects that are compared the diff has nothing to do at the empty key. -/
def keepsEmptyKey (base : Json ν) : Json ν → Bool
  | .arr targets =>
    match base with
    | .arr bases => itemsKeepEmptyKey bases targets
    | _ => true
  | .obj targets =>
    match base with
    | .obj bases => sameEmptyKey bases targets && fieldsKeepEmptyKey bases targets
    | _ => true
  | _ => true

def itemsKeepEmptyKey (bases : List (Json ν)) : List (Json ν) → Bool
  | [] => true
  | target :: targets =>
    match bases with
    | [] => true
    | base :: bases => keepsEmptyKey base target && itemsKeepEmptyKey bases targets

def fieldsKeepEmptyKey (bases : List (String × Json ν)) : List (String × Json ν) → Bool
  | [] => true
  | (key, target) :: targets =>
    (match bases.lookup key with
      | some base => keepsEmptyKey base target
      | none => true) && fieldsKeepEmptyKey bases targets

end

section Arrays

variable {o : KeyOrder} {pointer : String} {items : List (Json ν)}

omit [DecidableEq ν] in
theorem runAll_additions (items l : List (Json ν)) :
    runAll (tokenAdditions items.length l) (.arr items) = some (.arr (items ++ l)) := by
  induction l generalizing items with
  | nil => simp [tokenAdditions]
  | cons v l ih =>
    have hadd : run .add (some v) [toString items.length] (.arr items) = some (.arr (items ++ [v])) := by
      rw [run, if_pos ⟨rfl, rfl⟩, Pointer.arrayIndex_toString (by simp)]
      simp
    have hrest := ih (items ++ [v])
    rw [length_append, length_singleton] at hrest
    rw [tokenAdditions, runAll_cons, hadd, bind_some, hrest, append_assoc, singleton_append]

omit [DecidableEq ν] in
theorem runAll_removals (shared : Nat) (l : List (Json ν)) (h : items.length = shared) :
    runAll (tokenRemovals shared (shared + l.length)) (.arr (items ++ l)) = some (.arr items) := by
  induction l using List.reverseRecOn with
  | nil => simp [tokenRemovals]
  | append_singleton l v ih =>
    have hremove : run .remove none [toString (shared + l.length)] (.arr (items ++ (l ++ [v]))) =
        some (.arr (items ++ l)) := by
      rw [run, if_neg (by simp), if_pos ⟨rfl, rfl⟩,
        Pointer.arrayIndex_toString (by simp; omega), map_some]
      rw [← append_assoc, eraseIdx_append_of_length_le (by simp; omega)]
      have hzero : shared + l.length - (items ++ l).length = 0 := by simp; omega
      rw [hzero]
      simp
    have hlist : tokenRemovals (ν := ν) shared (shared + (l ++ [v]).length) =
        ⟨.remove, [toString (shared + l.length)], none⟩ ::
          tokenRemovals shared (shared + l.length) := by
      unfold tokenRemovals
      have hlen : shared + (l ++ [v]).length - shared = l.length + 1 := by simp
      have hlen' : shared + l.length - shared = l.length := by omega
      rw [hlen, hlen', List.range'_1_concat, reverse_append, reverse_singleton, singleton_append, map_cons]
    rw [hlist, runAll_cons, hremove, bind_some, ih]

omit [DecidableEq ν] in
theorem runAll_under_item (pre : List (Json ν)) (v : Json ν) (rest : List (Json ν))
    {ops : List (TokenOp ν)} (hops : Anchored ops) :
    runAll (under (toString pre.length) ops) (.arr (pre ++ v :: rest)) =
      (runAll ops v).map fun w => .arr ((pre ++ [w]) ++ rest) := by
  have hv : (pre ++ v :: rest)[pre.length]? = some v := by simp
  rw [runAll_under_items hops hv]
  simp

end Arrays

section Anchors

variable {o : KeyOrder} {pointer : String} {op : TokenOp ν}

theorem mem_inOrder {α : Type} {keys : List String} {blocks : List (String × List α)} {a : α}
    (h : a ∈ inOrder keys blocks) : ∃ b ∈ blocks, a ∈ b.2 := by
  obtain ⟨key, -, hmem⟩ := mem_flatMap.mp h
  cases hb : blocks.lookup key with
  | none =>
    rw [hb] at hmem
    cases hmem
  | some ops =>
    rw [hb] at hmem
    exact ⟨(key, ops), Assoc.mem_of_lookup hb, hmem⟩

def Below (op : TokenOp ν) : Prop := op.tokens ≠ []

omit [DecidableEq ν] in
theorem below_of_mem_under {token : String} {ops : List (TokenOp ν)}
    (h : op ∈ under token ops) : Below op := by
  obtain ⟨op', -, rfl⟩ := List.mem_map.mp h
  exact cons_ne_nil _ _

omit [DecidableEq ν] in
theorem below_of_mem_additions {index : Nat} {items : List (Json ν)}
    (h : op ∈ tokenAdditions index items) : Below op := by
  induction items generalizing index with
  | nil => cases h
  | cons v items ih =>
    rcases mem_cons.mp h with rfl | h
    · exact cons_ne_nil _ _
    · exact ih h

theorem below_of_mem_items {index : Nat} {bases targets : List (Json ν)}
    (h : op ∈ tokenItems o pointer index bases targets) : Below op := by
  induction targets generalizing index bases with
  | nil => cases bases <;> cases h
  | cons target targets ih =>
    cases bases with
    | nil => cases h
    | cons base bases =>
      rw [tokenItems] at h
      rcases mem_append.mp h with h | h
      · exact below_of_mem_under h
      · exact ih h

theorem below_of_mem_fields {bases targets : List (String × Json ν)}
    {b : String × List (TokenOp ν)} (hb : b ∈ tokenFields o pointer bases targets) (h : op ∈ b.2) : Below op := by
  induction targets with
  | nil => cases hb
  | cons f targets ih =>
    obtain ⟨key, target⟩ := f
    rw [tokenFields] at hb
    rcases mem_cons.mp hb with rfl | hb
    · dsimp only at h
      split at h
      · exact below_of_mem_under h
      · split at h
        · exact below_of_mem_under h
        · rw [mem_singleton.mp h]
          exact cons_ne_nil _ _
    · exact ih hb

theorem anchored_tokenInherited (key : String) (target : Json ν) :
    Anchored (tokenInherited o pointer key target) := by
  intro op hop hnil
  unfold tokenInherited at hop
  split at hop
  · obtain ⟨b, hb, hop⟩ := mem_inOrder hop
    obtain ⟨f, -, rfl⟩ := List.mem_map.mp hb
    dsimp only at hop
    split at hop
    · split at hop
      · cases hop
      · rw [mem_singleton.mp hop]
    · split at hop
      · rw [mem_singleton.mp hop]
      · rw [mem_singleton.mp hop] at hnil
        cases hnil
  · rw [mem_singleton.mp hop]

theorem eq_of_leafEq {base target : Json ν} (h : leafEq base target) : base = target := by
  unfold leafEq at h
  split at h
  · rfl
  · rw [eq_of_beq h]
  · rw [of_decide_eq_true h]
  · rw [eq_of_beq h]
  · cases h

theorem anchored_tokenDiff (base target : Json ν) : Anchored (tokenDiff o pointer base target) := by
  have hreplace : ∀ v : Json ν, Anchored [⟨.replace, [], some v⟩] := by
    intro v op hop _
    rw [mem_singleton.mp hop]
  intro op hop hnil
  cases target with
  | arr targets =>
    cases base with
    | arr bases =>
      rw [tokenDiff] at hop
      rcases mem_append.mp hop with hop | hop
      · rcases mem_append.mp hop with hop | hop
        · exact absurd hnil (below_of_mem_items hop)
        · obtain ⟨index, -, rfl⟩ := List.mem_map.mp hop
          cases hnil
      · exact absurd hnil (below_of_mem_additions hop)
    | _ =>
      simp only [tokenDiff] at hop
      exact hreplace _ op hop hnil
  | obj targets =>
    cases base with
    | obj bases =>
      rw [tokenDiff] at hop
      rcases mem_append.mp hop with hop | hop
      · obtain ⟨key, -, rfl⟩ := List.mem_map.mp hop
        cases hnil
      · obtain ⟨b, hb, hop⟩ := mem_inOrder hop
        exact absurd hnil (below_of_mem_fields hb hop)
    | _ =>
      simp only [tokenDiff] at hop
      exact hreplace _ op hop hnil
  | _ =>
    simp only [tokenDiff] at hop
    split at hop
    · cases hop
    · exact hreplace _ op hop hnil

end Anchors

section Items

variable {o : KeyOrder} {pointer : String}

theorem runAll_items_arr (pre : List (Json ν)) {bases targets : List (Json ν)} {v : Json ν}
    (h : runAll (tokenItems o pointer pre.length bases targets) (.arr (pre ++ bases)) = some v) :
    ∃ items, v = .arr (pre ++ items) ∧ items.length = bases.length := by
  induction targets generalizing pre bases with
  | nil =>
    cases bases <;> exact ⟨_, (some.inj h).symm, rfl⟩
  | cons target targets ih =>
    cases bases with
    | nil => exact ⟨_, (some.inj h).symm, rfl⟩
    | cons base bases =>
      rw [tokenItems, runAll_append, runAll_under_item _ _ _ (anchored_tokenDiff base target)] at h
      cases hrun : runAll (tokenDiff o (child pointer (toString pre.length)) base target) base with
      | none =>
        rw [hrun] at h
        cases h
      | some w =>
        rw [hrun, map_some, bind_some] at h
        have hlen : pre.length + 1 = (pre ++ [w]).length := by simp
        rw [hlen] at h
        obtain ⟨items, rfl, hitems⟩ := ih _ h
        exact ⟨w :: items, by simp, by simp [hitems]⟩

theorem runAll_items_iff (pre : List (Json ν)) {bases targets : List (Json ν)}
    (hbases : ∀ v ∈ bases, v.wf) (htargets : ∀ v ∈ targets, v.wf)
    (hiff : ∀ target ∈ targets, ∀ (pointer : String) (base : Json ν), base.wf →
      target.wf → (runAll (tokenDiff o pointer base target) base = some target ↔
        sharesInherited base target)) :
    (∃ items, runAll (tokenItems o pointer pre.length bases targets) (.arr (pre ++ bases)) =
        some (.arr (pre ++ items)) ∧
      items.take (min bases.length targets.length) =
        targets.take (min bases.length targets.length)) ↔ itemsShare bases targets := by
  induction targets generalizing pre bases with
  | nil =>
    cases bases <;> simp [tokenItems, itemsShare]
  | cons target targets ih =>
    cases bases with
    | nil => simp [tokenItems, itemsShare]
    | cons base bases =>
      obtain ⟨hbase, hbases⟩ := forall_mem_cons.mp hbases
      obtain ⟨htarget, htargets⟩ := forall_mem_cons.mp htargets
      have hhead := hiff target mem_cons_self (child pointer (toString pre.length)) base hbase
        htarget
      rw [tokenItems, runAll_append, runAll_under_item _ _ _ (anchored_tokenDiff base target),
        itemsShare, Bool.and_eq_true, ← hhead, length_cons, length_cons,
        Nat.add_min_add_right]
      have hrest := ih (pre ++ [target]) hbases htargets
        fun t ht => hiff t (mem_cons_of_mem target ht)
      rw [length_append, length_singleton] at hrest
      rw [← hrest]
      constructor
      · rintro ⟨items, hrun, htake⟩
        cases hw : runAll (tokenDiff o (child pointer (toString pre.length)) base target) base with
        | none =>
          rw [hw] at hrun
          cases hrun
        | some w =>
          rw [hw, map_some, bind_some] at hrun
          have hlen : pre.length + 1 = (pre ++ [w]).length := by simp
          rw [hlen] at hrun
          obtain ⟨items', heq, -⟩ := runAll_items_arr _ hrun
          have hitems : items = w :: items' := by simpa using heq
          subst hitems
          rw [take_succ_cons, take_succ_cons, List.cons.injEq] at htake
          obtain ⟨rfl, htake⟩ := htake
          rw [← hlen] at hrun
          exact ⟨rfl, items', by simpa using hrun, htake⟩
      · rintro ⟨hw, items, hrun, htake⟩
        refine ⟨target :: items, ?_, by rw [take_succ_cons, take_succ_cons, htake]⟩
        rw [hw, map_some, bind_some, hrun, append_assoc, singleton_append]

theorem runAll_arr_iff {bases targets : List (Json ν)}
    (hbases : ∀ v ∈ bases, v.wf) (htargets : ∀ v ∈ targets, v.wf)
    (hiff : ∀ target ∈ targets, ∀ (pointer : String) (base : Json ν), base.wf →
      target.wf → (runAll (tokenDiff o pointer base target) base = some target ↔
        sharesInherited base target)) :
    runAll (tokenDiff o pointer (.arr bases) (.arr targets)) (.arr bases) = some (.arr targets) ↔
      itemsShare bases targets := by
  have hitems := @runAll_items_iff ν _ o pointer [] bases targets hbases htargets hiff
  simp only [nil_append, length_nil] at hitems
  rw [← hitems, tokenDiff, runAll_append, runAll_append]
  -- the rest cuts the array off where the target ends, and adds what is missing
  have hrest : ∀ items : List (Json ν), items.length = bases.length →
      ((runAll (tokenRemovals (min bases.length targets.length) bases.length) (.arr items)).bind
        (runAll (tokenAdditions (min bases.length targets.length)
          (targets.drop (min bases.length targets.length))))) =
        some (.arr (items.take (min bases.length targets.length) ++
          targets.drop (min bases.length targets.length))) := by
    intro items hlen
    have hshared : (items.take (min bases.length targets.length)).length =
        min bases.length targets.length := by
      rw [length_take]
      omega
    have hcut := runAll_removals (min bases.length targets.length)
      (items.drop (min bases.length targets.length)) hshared
    rw [take_append_drop, length_drop, hlen, Nat.add_sub_cancel' (Nat.min_le_left _ _)] at hcut
    have hadd := runAll_additions (items.take (min bases.length targets.length))
      (targets.drop (min bases.length targets.length))
    rw [hshared] at hadd
    rw [hcut, bind_some, hadd]
  constructor
  · intro h
    cases hrun : runAll (tokenItems o pointer 0 bases targets) (.arr bases) with
    | none =>
      rw [hrun] at h
      cases h
    | some v =>
      obtain ⟨items, rfl, hlen⟩ := runAll_items_arr [] hrun
      rw [hrun, bind_some, nil_append, hrest items hlen, some.injEq, Json.arr.injEq] at h
      refine ⟨items, rfl, ?_⟩
      have hleft := congrArg (List.take (min bases.length targets.length)) h
      rwa [take_left' (by rw [length_take]; omega)] at hleft
  · rintro ⟨items, hrun, htake⟩
    obtain ⟨items', heq, hlen⟩ := runAll_items_arr [] hrun
    obtain rfl : items = items' := by simpa using heq
    rw [hrun, bind_some, hrest items hlen, htake, take_append_drop]

end Items

section Keys

def putKey (key : String) (fields : List (String × Json ν)) : Option (Json ν) → List (String × Json ν)
  | some v => Assoc.set key v fields
  | none => Assoc.erase key fields

def underEffect (ops : List (TokenOp ν)) : Option (Json ν) → Option (Option (Json ν))
  | some v => (runAll ops v).map some
  | none => if ops.isEmpty then some none else none

/-- What the operations of one key do: `E` tells what the key has then, if they can be done. -/
def Touches (key : String) (E : Option (Json ν) → Option (Option (Json ν)))
    (ops : List (TokenOp ν)) : Prop :=
  ∀ fields : List (String × Json ν), Assoc.Sorted fields → runAll ops (.obj fields) =
      (E (fields.lookup key)).map fun r => .obj (putKey key fields r)

section PutKey

variable {key : String} {fields : List (String × Json ν)} {r : Option (Json ν)}

omit [DecidableEq ν] in
theorem sorted_putKey (h : Assoc.Sorted fields) : Assoc.Sorted (putKey key fields r) := by
  cases r with
  | some v => exact h.set key v
  | none => exact h.erase key

omit [DecidableEq ν] in
theorem lookup_putKey (j : String) :
    (putKey key fields r).lookup j = if j = key then r else fields.lookup j := by
  cases r with
  | some v => exact Assoc.lookup_set key j v fields
  | none => exact Assoc.lookup_erase key j fields

omit [DecidableEq ν] in
theorem putKey_self (h : Assoc.Sorted fields) (hr : fields.lookup key = r) :
    putKey key fields r = fields := by
  refine (sorted_putKey h).ext h fun j => ?_
  rw [lookup_putKey]
  by_cases hj : j = key
  · rw [if_pos hj, hj, hr]
  · rw [if_neg hj]

end PutKey

omit [DecidableEq ν] in
theorem runAll_flatMap_iff {keys : List String} {ops : String → List (TokenOp ν)}
    {E : String → Option (Json ν) → Option (Option (Json ν))}
    (hops : ∀ key ∈ keys, Touches key (E key) (ops key)) (hkeys : keys.Nodup)
    {fields fields' : List (String × Json ν)} (hsorted : Assoc.Sorted fields)
    (hsorted' : Assoc.Sorted fields') :
    runAll (keys.flatMap ops) (.obj fields) = some (.obj fields') ↔
      ∀ key, if key ∈ keys then E key (fields.lookup key) = some (fields'.lookup key)
        else fields'.lookup key = fields.lookup key := by
  induction keys generalizing fields with
  | nil =>
    simp only [flatMap_nil, runAll_nil, some.injEq, Json.obj.injEq, not_mem_nil, if_false]
    exact ⟨fun h key => by rw [h], fun h => (hsorted'.ext hsorted h).symm⟩
  | cons key keys ih =>
    obtain ⟨hkey, hkeys⟩ := nodup_cons.mp hkeys
    obtain ⟨hhead, hops⟩ := forall_mem_cons.mp hops
    rw [flatMap_cons, runAll_append, hhead fields hsorted]
    cases hE : E key (fields.lookup key) with
    | none =>
      simp only [map_none, bind_none, reduceCtorEq, false_iff]
      intro h
      have hat := h key
      rw [if_pos mem_cons_self, hE] at hat
      cases hat
    | some r =>
      have hsorted₁ : Assoc.Sorted (putKey key fields r) := sorted_putKey hsorted
      rw [map_some, bind_some, ih hops hkeys hsorted₁]
      refine forall_congr' fun j => ?_
      rw [lookup_putKey j]
      by_cases hj : j = key
      · subst hj
        rw [if_neg hkey, if_pos mem_cons_self, if_pos rfl, hE, some.injEq]
        exact eq_comm
      · simp only [mem_cons, hj, false_or, if_false]

omit [DecidableEq ν] in
theorem touches_add (key : String) (v : Json ν) :
    Touches key (fun _ => some (some v)) [⟨.add, [key], some v⟩] := by
  intro fields _
  rw [runAll_cons, run, if_pos ⟨rfl, rfl⟩]
  rfl

def removeEffect (r : Option (Json ν)) : Option (Option (Json ν)) :=
  if r.isSome then some none else none

omit [DecidableEq ν] in
theorem touches_remove (key : String) : Touches (ν := ν) key removeEffect [⟨.remove, [key], none⟩] := by
  intro fields _
  rw [runAll_cons, run, if_neg (by simp), if_pos ⟨rfl, rfl⟩, removeEffect]
  by_cases hkey : (fields.lookup key).isSome
  · rw [if_pos hkey, if_pos hkey]
    rfl
  · rw [if_neg hkey, if_neg hkey]
    rfl

omit [DecidableEq ν] in
theorem touches_under (key : String) {ops : List (TokenOp ν)} (hops : Anchored ops) :
    Touches key (underEffect ops) (under key ops) := by
  intro fields hsorted
  cases hv : fields.lookup key with
  | some v =>
    rw [runAll_under_fields hsorted hops hv, underEffect]
    cases runAll ops v <;> rfl
  | none =>
    cases ops with
    | nil =>
      have hsame := putKey_self hsorted hv
      simp [under, underEffect, hsame]
    | cons op ops =>
      rw [runAll_under_missing hops (cons_ne_nil op ops) hv]
      rfl

end Keys

section Objects

variable {o : KeyOrder} {pointer key : String} {base target : Json ν}
  {bases targets : List (String × Json ν)}

omit [DecidableEq ν] in
theorem fields_iff {check : Json ν → Json ν → Bool} {checks : List (String × Json ν) → Bool}
    (hnil : checks []) (hcons : ∀ key target targets, checks ((key, target) :: targets) =
      ((bases.lookup key).all (check · target) && checks targets)) : checks targets ↔
    ∀ key target, (key, target) ∈ targets → ∀ base, bases.lookup key = some base →
      check base target := by
  induction targets with
  | nil => simp [hnil]
  | cons f targets ih =>
    obtain ⟨key, target⟩ := f
    rw [hcons, Bool.and_eq_true, ih, Option.all_eq_true]
    constructor
    · rintro ⟨hhead, hrest⟩ k t hmem
      rcases mem_cons.mp hmem with heq | hmem
      · cases heq
        exact hhead
      · exact hrest k t hmem
    · intro h
      exact ⟨h key target mem_cons_self, fun k t hmem => h k t (mem_cons_of_mem _ hmem)⟩

omit [DecidableEq ν] in
theorem fieldsShare_iff : fieldsShare bases targets ↔
    ∀ key target, (key, target) ∈ targets → ∀ base, bases.lookup key = some base →
      sharesInherited base target := by
  refine fields_iff rfl fun key target targets => ?_
  rw [fieldsShare]
  cases bases.lookup key <;> rfl

omit [DecidableEq ν] in
theorem sharesNames_iff : sharesNames bases targets ↔
    ∀ key ∈ inheritedNames, (bases.lookup key).isSome = (targets.lookup key).isSome := by
  simp [sharesNames]

theorem lookup_tokenFields_shared (ht : targets.lookup key = some target)
    (hb : bases.lookup key = some base) : (tokenFields o pointer bases targets).lookup key =
      some (under key (tokenDiff o (child pointer key) base target)) := by
  induction targets with
  | nil => cases ht
  | cons f targets ih =>
    obtain ⟨k, t⟩ := f
    rw [tokenFields]
    by_cases hk : key = k
    · subst hk
      rw [lookup_cons, beq_self_eq_true] at ht
      rw [lookup_cons, beq_self_eq_true, hb, some.inj ht]
    · rw [Assoc.lookup_cons_ne hk] at ht
      rw [Assoc.lookup_cons_ne hk]
      exact ih ht

theorem lookup_tokenFields_missing (ht : targets.lookup key = some target)
    (hb : bases.lookup key = none) : (tokenFields o pointer bases targets).lookup key =
      some (if inheritedNames.contains key then
        under key (tokenInherited o (child pointer key) key target)
        else [⟨.add, [key], some target⟩]) := by
  induction targets with
  | nil => cases ht
  | cons f targets ih =>
    obtain ⟨k, t⟩ := f
    rw [tokenFields]
    by_cases hk : key = k
    · subst hk
      rw [lookup_cons, beq_self_eq_true] at ht
      rw [lookup_cons, beq_self_eq_true, hb, some.inj ht]
    · rw [Assoc.lookup_cons_ne hk] at ht
      rw [Assoc.lookup_cons_ne hk]
      exact ih ht

def kept (bases targets : List (String × Json ν)) : List (String × Json ν) :=
  bases.filter fun f => (targets.lookup f.1).isSome || inheritedNames.contains f.1

omit [DecidableEq ν] in
theorem lookup_kept (key : String) : (kept bases targets).lookup key =
    if (targets.lookup key).isSome || inheritedNames.contains key then bases.lookup key
      else none :=
  Assoc.lookup_filter_key (fun key => (targets.lookup key).isSome || inheritedNames.contains key)
    key bases

omit [DecidableEq ν] in
theorem sorted_kept (h : Assoc.Sorted bases) : Assoc.Sorted (kept bases targets) := h.filter _

omit [DecidableEq ν] in
theorem runAll_removedKeys (hsorted : Assoc.Sorted bases) :
    runAll (tokenRemovedKeys (o.keys pointer (bases.map Prod.fst)) targets) (.obj bases) =
      some (.obj (kept bases targets)) := by
  have hkeys : (o.keys pointer (bases.map Prod.fst)).Nodup :=
    (o.perm pointer _).nodup_iff.mpr hsorted.nodup_keys
  rw [tokenRemovedKeys, map_eq_flatMap, runAll_flatMap_iff (fun key _ => touches_remove key)
    (hkeys.filter _) hsorted (sorted_kept hsorted)]
  intro key
  have hmem : key ∈ o.keys pointer (bases.map Prod.fst) ↔ (bases.lookup key).isSome := by
    rw [(o.perm pointer _).mem_iff, Assoc.mem_keys_iff]
  simp only [mem_filter, hmem, lookup_kept, removeEffect]
  cases hkey : (targets.lookup key).isSome || inheritedNames.contains key with
  | true => simp
  | false =>
    cases hb : bases.lookup key with
    | none | some base => simp

theorem runAll_obj_iff (hbases : Assoc.Sorted bases) (htargets : Assoc.Sorted targets)
    (hiff : ∀ key target, (key, target) ∈ targets → ∀ (pointer : String) (base : Json ν),
      bases.lookup key = some base →
      (runAll (tokenDiff o pointer base target) base = some target ↔ sharesInherited base target = true)) :
    runAll (tokenDiff o pointer (.obj bases) (.obj targets)) (.obj bases) = some (.obj targets) ↔
      (sharesNames bases targets && fieldsShare bases targets) := by
  have hkeys : (o.keys pointer (targets.map Prod.fst)).Nodup :=
    (o.perm pointer _).nodup_iff.mpr htargets.nodup_keys
  have hmem : ∀ key, key ∈ o.keys pointer (targets.map Prod.fst) ↔
      (targets.lookup key).isSome := fun key => by
    rw [(o.perm pointer _).mem_iff, Assoc.mem_keys_iff]
  -- what becomes of each key of the target
  have heffect : ∀ key ∈ o.keys pointer (targets.map Prod.fst), ∃ E,
      Touches key E (((tokenFields o pointer bases targets).lookup key).getD []) ∧
      (E ((kept bases targets).lookup key) = some (targets.lookup key) ↔
        (inheritedNames.contains key → (bases.lookup key).isSome) ∧
        ∀ target, targets.lookup key = some target → ∀ base, bases.lookup key = some base →
          sharesInherited base target) := by
    intro key hkey
    obtain ⟨target, ht⟩ := isSome_iff_exists.mp ((hmem key).mp hkey)
    have hkept : (kept bases targets).lookup key = bases.lookup key := by
      rw [lookup_kept, ht]
      rfl
    rw [hkept, ht]
    cases hb : bases.lookup key with
    | some base =>
      refine ⟨underEffect (tokenDiff o (child pointer key) base target), ?_, ?_⟩
      · rw [lookup_tokenFields_shared ht hb]
        exact touches_under key (anchored_tokenDiff base target)
      · rw [underEffect, map_eq_some_iff]
        simp [hiff key target (Assoc.mem_of_lookup ht) (child pointer key) base hb]
    | none =>
      by_cases hinherited : inheritedNames.contains key
      · refine ⟨underEffect (tokenInherited o (child pointer key) key target), ?_, ?_⟩
        · rw [lookup_tokenFields_missing ht hb, if_pos hinherited]
          exact touches_under key (anchored_tokenInherited key target)
        · rw [underEffect]
          simp [contains_iff_mem.mp hinherited]
      · refine ⟨fun _ => some (some target), ?_, ?_⟩
        · rw [lookup_tokenFields_missing ht hb, if_neg hinherited]
          exact touches_add key target
        · simp [mt contains_iff_mem.mpr hinherited]
  choose! E hE using heffect
  rw [tokenDiff, runAll_append, runAll_removedKeys hbases, bind_some, inOrder,
    runAll_flatMap_iff (fun key hkey => (hE key hkey).1) hkeys (sorted_kept hbases) htargets,
    Bool.and_eq_true, sharesNames_iff, fieldsShare_iff]
  constructor
  · intro h
    constructor
    · intro key hkey
      have hcontains : inheritedNames.contains key := contains_iff_mem.mpr hkey
      have hat := h key
      by_cases hin : key ∈ o.keys pointer (targets.map Prod.fst)
      · rw [if_pos hin, (hE key hin).2] at hat
        rw [hat.1 hcontains, (hmem key).mp hin]
      · rw [if_neg hin, lookup_kept, hcontains, Bool.or_true, if_pos rfl] at hat
        rw [hat]
    · intro key target ht base hbase
      have hlookup := htargets.lookup_of_mem ht
      have hin : key ∈ o.keys pointer (targets.map Prod.fst) := by
        rw [hmem, hlookup]
        rfl
      have hat := h key
      rw [if_pos hin, (hE key hin).2] at hat
      exact hat.2 target hlookup base hbase
  · rintro ⟨hnames, hfields⟩ key
    by_cases hin : key ∈ o.keys pointer (targets.map Prod.fst)
    · rw [if_pos hin, (hE key hin).2]
      refine ⟨fun hcontains => ?_, fun target ht base hbase =>
        hfields key target (Assoc.mem_of_lookup ht) base hbase⟩
      rw [hnames key (contains_iff_mem.mp hcontains), (hmem key).mp hin]
    · rw [if_neg hin, lookup_kept]
      have hnone : targets.lookup key = none := by
        rw [← not_isSome_iff_eq_none, ← hmem]
        exact hin
      by_cases hcontains : inheritedNames.contains key
      · have hsame := hnames key (contains_iff_mem.mp hcontains)
        rw [hnone, isSome_none, isSome_eq_false_iff, isNone_iff_eq_none]
          at hsame
        rw [hsame, hnone, ite_self]
      · rw [hnone, if_neg (by simpa using hcontains)]

end Objects

section Values

variable {o : KeyOrder}

theorem runAll_leaf {pointer : String} {base target : Json ν} (htokens : tokenDiff o pointer base target =
      if leafEq base target then [] else [⟨.replace, [], some target⟩]) :
    runAll (tokenDiff o pointer base target) base = some target := by
  rw [htokens]
  split
  · rename_i hleaf
    rw [runAll_nil, eq_of_leafEq hleaf]
  · rfl

/-- The diff leads from the base to the target exactly where the two share the inherited names. -/
theorem runAll_tokenDiff_iff {pointer : String} {base target : Json ν} (hbase : base.wf)
    (htarget : target.wf) :
    runAll (tokenDiff o pointer base target) base = some target ↔ sharesInherited base target = true := by
  induction target using Json.ind generalizing pointer base with
  | arr targets ih =>
    cases base with
    | arr bases =>
      rw [sharesInherited]
      rw [Json.wf, Json.wfItems_iff] at hbase htarget
      exact runAll_arr_iff hbase htarget fun target ht _ _ hb hw => ih target ht hb hw
    | _ => simp [tokenDiff, sharesInherited, runAll, run]
  | obj targets ih =>
    cases base with
    | obj bases =>
      rw [sharesInherited]
      rw [Json.wf_obj] at hbase htarget
      exact runAll_obj_iff hbase.1 htarget.1 fun key target ht _ _ hb =>
        ih key target ht (Json.wf_of_lookup hbase.2 hb) (htarget.2 _ ht)
    | _ => simp [tokenDiff, sharesInherited, runAll, run]
  | _ => exact iff_of_true (runAll_leaf (by simp [tokenDiff])) (by simp [sharesInherited])

end Values

end Delta

end Aegis
