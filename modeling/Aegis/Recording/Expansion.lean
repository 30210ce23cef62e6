import Aegis.Recording.Mirror

/-!
# Recording.Expansion

What `ExpandSnapshotReferences` changes of a recording.

* `Operated`, `Patched` — the operations of RFC 6902 on a JSON tree.
* `Expanded`, `OnlyContent` — nothing but the content of the snapshots is touched.
* `Clean` — when that is so: a patch writes nothing but content, and leaves no content of the
  snapshot itself.
-/

namespace Aegis

open List Option

namespace Expand

open Patch (textOf editItems)
open Pointer (splitPointer arrayIndex arrayIndex_eq_some toString_injective)

/-- What an operation makes of a value, at the place that the tokens lead to. The items of an array
are shifted to the right by `add` and to the left by `remove`. -/
inductive Operated : PatchKind → Option (Json ℚ) → List String → Json ℚ → Json ℚ → Prop where
  | addField {key v fields} : Operated .add (some v) [key] (.obj fields)
      (.obj (Assoc.set key v fields))
  | replaceField {key v fields} (h : (fields.lookup key).isSome) :
      Operated .replace (some v) [key] (.obj fields) (.obj (Assoc.set key v fields))
  | removeField {key value fields} (h : (fields.lookup key).isSome) :
      Operated .remove value [key] (.obj fields) (.obj (Assoc.erase key fields))
  | addItem {token i v items} (htoken : token = toString i) (hi : i ≤ items.length) :
      Operated .add (some v) [token] (.arr items) (.arr (items.insertIdx i v))
  | replaceItem {token i v items} (htoken : token = toString i) (hi : i < items.length) :
      Operated .replace (some v) [token] (.arr items) (.arr (items.set i v))
  | removeItem {token i value items} (htoken : token = toString i) (hi : i < items.length) :
      Operated .remove value [token] (.arr items) (.arr (items.eraseIdx i))
  | inField {kind value key tokens fields v v'} (hv : fields.lookup key = some v)
      (h : Operated kind value tokens v v') :
      Operated kind value (key :: tokens) (.obj fields) (.obj (Assoc.set key v' fields))
  | inItem {kind value token tokens i items v v'} (htoken : token = toString i)
      (hv : items[i]? = some v) (h : Operated kind value tokens v v') :
      Operated kind value (token :: tokens) (.arr items) (.arr (items.set i v'))

inductive Patched : List (Json ℚ) → Json ℚ → Json ℚ → Prop where
  | nil {v} : Patched [] v v
  | cons {op kind path ops v v' v''} (hkind : op.lookup "op" = some (.str (PatchKind.name kind)))
      (hpath : op.lookup "path" = some (.str path))
      (h : Operated kind (op.lookup "value") (splitPointer path) v v')
      (hrest : Patched ops v' v'') : Patched (.obj op :: ops) v v''

section Operations

variable {kind : PatchKind} {value : Option (Json ℚ)} {tokens : List String} {v w w' : Json ℚ}
  {ops : List (Json ℚ)}

theorem not_operated_nil : ¬ Operated kind value [] v w := nofun

theorem Operated.unique (h : Operated kind value tokens v w)
    (h' : Operated kind value tokens v w') : w = w' := by
  induction h generalizing w' with
  | addField | replaceField _ | removeField _ =>
    cases h' with
    | inField _ h => exact absurd h not_operated_nil
    | _ => rfl
  | addItem htoken _ =>
    cases h' with
    | addItem htoken' _ => rw [toString_injective (htoken.symm.trans htoken')]
    | inItem _ _ h => exact absurd h not_operated_nil
  | replaceItem htoken _ =>
    cases h' with
    | replaceItem htoken' _ => rw [toString_injective (htoken.symm.trans htoken')]
    | inItem _ _ h => exact absurd h not_operated_nil
  | removeItem htoken _ =>
    cases h' with
    | removeItem htoken' _ => rw [toString_injective (htoken.symm.trans htoken')]
    | inItem _ _ h => exact absurd h not_operated_nil
  | inField hv h ih =>
    cases h' with
    | inField hv' h' =>
      obtain rfl := mem_unique hv hv'
      rw [ih h']
    | _ => exact absurd h not_operated_nil
  | inItem htoken hv h ih =>
    cases h' with
    | inItem htoken' hv' h' =>
      obtain rfl := toString_injective (htoken.symm.trans htoken')
      obtain rfl := mem_unique hv hv'
      rw [ih h']
    | _ => exact absurd h not_operated_nil

theorem Patched.unique (h : Patched ops v w) (h' : Patched ops v w') : w = w' := by
  induction h generalizing w' with
  | nil =>
    cases h'
    rfl
  | @cons op kind path ops v v₁ w hkind hpath h hrest ih =>
    cases h' with
    | @cons _ kind' _ _ _ _ _ hkind' hpath' h' hrest' =>
      have hname : kind.name = kind'.name := by simpa [hkind] using hkind'
      obtain rfl : kind = kind' := by
        cases kind <;> cases kind' <;> first | rfl | exact absurd hname (by decide)
      obtain rfl : path = _ := by simpa [hpath] using hpath'
      obtain rfl := h.unique h'
      exact ih hrest'

end Operations

section Applied

variable {kind : PatchKind} {value : Option (Json ℚ)} {v w : Json ℚ}

theorem operated_of_edit {last : String} (h : Patch.Server.edit kind last value v = some w) :
    Operated kind value [last] v w := by
  cases v with
  | obj fields =>
    obtain ⟨fields', hfields, rfl⟩ := map_eq_some_iff.mp h
    cases kind with
    | add =>
      obtain ⟨x, rfl, rfl⟩ := map_eq_some_iff.mp hfields
      exact .addField
    | replace =>
      obtain ⟨x, rfl, hx⟩ := bind_eq_some_iff.mp hfields
      obtain ⟨hthere, hx⟩ := ite_none_right_eq_some.mp hx
      cases hx
      exact .replaceField hthere
    | remove =>
      obtain ⟨hthere, hx⟩ := ite_none_right_eq_some.mp hfields
      cases hx
      exact .removeField hthere
  | arr items =>
    obtain ⟨items', hitems, rfl⟩ := map_eq_some_iff.mp h
    obtain ⟨i, hindex, hi⟩ := bind_eq_some_iff.mp hitems
    obtain ⟨rfl, hlt⟩ := arrayIndex_eq_some hindex
    cases kind with
    | add =>
      obtain ⟨x, rfl, rfl⟩ := map_eq_some_iff.mp hi
      exact .addItem rfl (Nat.le_of_lt_succ hlt)
    | replace =>
      obtain ⟨x, rfl, rfl⟩ := map_eq_some_iff.mp hi
      exact .replaceItem rfl hlt
    | remove =>
      cases hi
      exact .removeItem rfl hlt
  | null | bool _ | num _ | str _ => cases h

theorem operated_of_applyOp {tokens : List String} (hne : tokens ≠ [])
    (h : Patch.Server.applyOp v tokens kind value = some w) : Operated kind value tokens v w := by
  unfold Patch.Server.applyOp at h
  induction tokens generalizing v w with
  | nil => exact absurd rfl hne
  | cons token tokens ih =>
    cases tokens with
    | nil => exact operated_of_edit h
    | cons token' tokens =>
      have ih := fun {v w} => @ih v w (cons_ne_nil _ _)
      rw [dropLast_cons_cons, getLastD_cons] at h
      cases v with
      | obj fields =>
        obtain ⟨x, hx, h⟩ := bind_eq_some_iff.mp h
        obtain ⟨y, hy, rfl⟩ := map_eq_some_iff.mp h
        exact .inField hx (ih hy)
      | arr items =>
        obtain ⟨i, hindex, h⟩ := bind_eq_some_iff.mp h
        obtain ⟨x, hx, h⟩ := bind_eq_some_iff.mp h
        obtain ⟨y, hy, rfl⟩ := map_eq_some_iff.mp h
        obtain ⟨rfl, -⟩ := arrayIndex_eq_some hindex
        exact .inItem rfl hx (ih hy)
      | null | bool _ | num _ | str _ => cases h

theorem eq_str_of_parse {name : Option (Json ℚ)} (h : PatchKind.parse (textOf name) = some kind) :
    name = some (.str kind.name) := by
  rcases name with _ | _ | _ | _ | text | _ | _
  case some.str =>
    simp only [textOf, PatchKind.parse, beq_iff_eq] at h
    split_ifs at h with hname hname hname <;> rw [hname, ← some.inj h, PatchKind.name]
  all_goals simp [textOf, PatchKind.parse] at h

theorem patched_of_applyOps {ops : List (Json ℚ)} (h : Patch.Server.applyOps v ops = some w) :
    Patched ops v w := by
  unfold Patch.Server.applyOps at h
  induction ops generalizing v with
  | nil =>
    cases h
    exact .nil
  | cons raw ops ih =>
    rw [foldlM_cons] at h
    obtain ⟨v', hraw, hrest⟩ := bind_eq_some_iff.mp h
    cases raw with
    | obj op =>
      rw [Patch.Server.applyRawOp] at hraw
      split at hraw
      · rename_i path hpath
        obtain ⟨-, hraw⟩ := ite_none_left_eq_some.mp hraw
        obtain ⟨-, hraw⟩ := ite_none_left_eq_some.mp hraw
        obtain ⟨kind, hkind, hop⟩ := bind_eq_some_iff.mp hraw
        exact .cons (eq_str_of_parse hkind) hpath
          (operated_of_applyOp (by simp [splitPointer]) hop) (ih hrest)
      · cases hraw
    | null | bool _ | num _ | str _ | arr _ => cases hraw

end Applied

/-! ## What is to be left alone -/

def contentNames : List String := ["selectorMap", "domTree", "capture"]

def contentOf (target : Fields) : Fields := copyContent contentNames target []

def Points (before : Fields) (n : ℚ) (ops : List (Json ℚ)) : Prop :=
  before.lookup "ref" = some (.num n) ∧ ops = [] ∨
    before.lookup "base" = some (.num n) ∧ before.lookup "patch" = some (.arr ops)

/-- What has become of a snapshot, if it can be pointed to by `n`. -/
def asTarget (n : ℚ) : Json ℚ × Json ℚ → Option Fields
  | (.obj before, .obj after) =>
    if (before.lookup "ref").isNone ∧ ((before.lookup "patch").isSome ∨ (before.lookup "domTree").isSome) ∧
        numericSequence (after.lookup "sequence") = some n then some after else none
  | _ => none

/-- Of the snapshots before, each with what has become of it, the one that `n` names: the latest. -/
def named (earlier : List (Json ℚ × Json ℚ)) (n : ℚ) : Option Fields :=
  earlier.findSome? (asTarget n)

/-- Of a snapshot that points to another one only the content is new: the content of that one, with
the operations done. -/
structure Expanded (earlier : List (Json ℚ × Json ℚ)) (before after : Fields) : Prop where
  frame : ∀ name ∉ contentNames ++ ["ref", "base", "patch"], after.lookup name = before.lookup name
  pointers : after.lookup "ref" = none ∧ after.lookup "patch" = none
  content : ∃ n ops target patched, Points before n ops ∧ named earlier n = some target ∧
    Patched ops (.obj (contentOf target)) (.obj patched) ∧
      ∀ name ∈ contentNames, after.lookup name = patched.lookup name

def Throughout (P : List (Json ℚ × Json ℚ) → Json ℚ → Json ℚ → Prop) :
    List (Json ℚ × Json ℚ) → List (Json ℚ) → List (Json ℚ) → Prop
  | _, [], [] => True
  | earlier, raw :: raws, after :: afters =>
    P earlier raw after ∧ Throughout P ((raw, after) :: earlier) raws afters
  | _, _, _ => False

def carries (before : Fields) : Bool :=
  (before.lookup "ref").isSome || (before.lookup "patch").isSome

def OnlyContent (earlier : List (Json ℚ × Json ℚ)) : Json ℚ → Json ℚ → Prop
  | .obj before, after =>
    if carries before then ∃ fields, after = .obj fields ∧ Expanded earlier before fields
    else after = .obj before
  | raw, after => after = raw

/-- The patch makes `patched` of the content that the snapshot points to. It writes no field but
content, and the snapshot itself has no content that `patched` lacks. -/
structure Clean (content : Content) (before patched : Fields) : Prop where
  origin : ∃ n ops target, Points before n ops ∧ content.lookup n = some target ∧
    Patched ops (.obj (contentOf target)) (.obj patched)
  others : ∀ name ∉ contentNames ++ ["base", "patch"], ∀ v, patched.lookup name = some v →
    name ≠ "ref" ∧ before.lookup name = some v
  kept : ∀ name ∈ contentNames, (before.lookup name).isSome → (patched.lookup name).isSome

/-- The content that later snapshots can point to, after a snapshot with the content `fields`. -/
def carried (content : Content) (before fields : Fields) : Content :=
  if (before.lookup "ref").isNone ∧ ((before.lookup "patch").isSome ∨ (before.lookup "domTree").isSome) then
    remember (numericSequence (before.lookup "sequence")) fields content
  else content

def AllClean : Content → List (Json ℚ) → Prop
  | _, [] => True
  | content, .obj before :: raws =>
    if carries before then
      ∃ patched, Clean content before patched ∧ AllClean (carried content before patched) raws
    else AllClean (carried content before before) raws
  | content, _ :: raws => AllClean content raws

def snapshotsOf (recording : Fields) : List (Json ℚ) :=
  match recording.lookup "snapshots" with
  | some (.arr snapshots) => snapshots
  | _ => []

/-- Nothing of the recording is touched but the content of snapshots. -/
def TouchesOnlyContent (recording out : Fields) : Prop :=
  (∀ name ≠ "snapshots", out.lookup name = recording.lookup name) ∧
    Throughout OnlyContent [] (snapshotsOf recording) (snapshotsOf out)

section Turns

variable {machine : Int64Of} {content content' : Content} {earlier : List (Json ℚ × Json ℚ)}
  {before after target patched : Fields} {key : String}

theorem lookup_contentOf : (contentOf target).lookup key =
    if key ∈ contentNames then target.lookup key else none := by
  rw [contentOf, lookup_copyContent, lookup_nil, or_none]

theorem lookup_writeFields_eq (h : Assoc.Sorted patched) : (writeFields patched before).lookup key =
    (patched.lookup key).or (before.lookup key) := by
  induction patched generalizing before with
  | nil => rfl
  | cons f patched ih =>
    obtain ⟨hlt, hrest⟩ := pairwise_cons.mp h
    rw [writeFields, foldl_cons]
    refine (ih hrest).trans ?_
    rw [Assoc.lookup_set]
    by_cases hkey : key = f.1
    · subst hkey
      have hnone : patched.lookup f.1 = none := eq_none_iff_forall_ne_some.mpr fun v hv =>
        lt_irrefl f.1 (hlt (f.1, v) (Assoc.mem_of_lookup hv))
      simp [hnone, Assoc.lookup_cons_self]
    · rw [if_neg hkey, Assoc.lookup_cons_ne hkey]

def InOrder (v : Json ℚ) : Prop := ∀ fields, v = .obj fields → Assoc.Sorted fields

theorem inOrder_operated {kind : PatchKind} {value : Option (Json ℚ)} {tokens : List String}
    {v w : Json ℚ} (h : Operated kind value tokens v w) (hv : InOrder v) : InOrder w := by
  cases h with
  | addField | replaceField _ | inField _ _ =>
    rintro _ ⟨⟩
    exact (hv _ rfl).set _ _
  | removeField _ =>
    rintro _ ⟨⟩
    exact (hv _ rfl).erase _
  | addItem _ _ | replaceItem _ _ | removeItem _ _ | inItem _ _ _ => exact nofun

theorem inOrder_patched {ops : List (Json ℚ)} {v w : Json ℚ} (h : Patched ops v w)
    (hv : InOrder v) : InOrder w := by
  induction h with
  | nil => exact hv
  | cons _ _ h _ ih => exact ih (inOrder_operated h hv)

theorem sorted_contentOf : Assoc.Sorted (contentOf target) := by
  refine List.foldlRecOn _ _ List.Pairwise.nil fun fields h name _ => ?_
  cases target.lookup name with
  | none => exact h
  | some v => exact h.set _ _

structure Turned (earlier : List (Json ℚ × Json ℚ)) (before patched after : Fields) : Prop where
  alone : before.lookup "ref" = none ∨ before.lookup "patch" = none
  origin : ∃ n ops target, Points before n ops ∧ named earlier n = some target ∧
    Patched ops (.obj (contentOf target)) (.obj patched)
  others : ∀ name ∉ ["ref", "base", "patch"], after.lookup name =
    (patched.lookup name).or (before.lookup name)
  patch : after.lookup "patch" = none
  ref : after.lookup "ref" = patched.lookup "ref"

theorem referenceSequence_eq_some {v : Json ℚ} {n : ℚ}
    (h : Server.referenceSequence machine v = some n) : v = .num n := by
  cases v with
  | num m =>
    obtain ⟨-, h⟩ := ite_none_left_eq_some.mp h
    rw [some.inj h]
  | null | bool _ | str _ | arr _ | obj _ => cases h

theorem expandSnapshotDelta_turned {patch : Json ℚ} (href : before.lookup "ref" = none)
    (hpatch : before.lookup "patch" = some patch) (hnamed : ∀ n, content.lookup n = named earlier n)
    (h : Server.expandSnapshotDelta machine content before patch = some after) :
    ∃ patched, Turned earlier before patched after := by
  obtain ⟨rawBase, hbase, h⟩ := bind_eq_some_iff.mp h
  obtain ⟨n, hn, h⟩ := bind_eq_some_iff.mp h
  obtain ⟨target, htarget, h⟩ := bind_eq_some_iff.mp h
  cases patch with
  | arr ops =>
    obtain ⟨patched, hops, rfl⟩ := map_eq_some_iff.mp h
    obtain ⟨-, hops⟩ := ite_none_left_eq_some.mp hops
    split at hops
    · rename_i fields happly
      obtain rfl := some.inj hops
      have hpatched : Patched ops (.obj (contentOf target)) (.obj fields) :=
        patched_of_applyOps happly
      have hsorted := inOrder_patched hpatched
        (fun _ heq => Json.obj.inj heq ▸ sorted_contentOf) _ rfl
      rw [referenceSequence_eq_some hn] at hbase
      have htarget : named earlier n = some target := hnamed n ▸ htarget
      refine ⟨fields, .inl href, ⟨n, ops, target, .inr ⟨hbase, hpatch⟩, htarget, hpatched⟩,
        fun name hname => ?_, ?_, ?_⟩
      · simp only [mem_cons, not_mem_nil, or_false, not_or] at hname
        rw [Assoc.lookup_erase, if_neg hname.2.2, Assoc.lookup_erase, if_neg hname.2.1,
          lookup_writeFields_eq hsorted]
      · rw [Assoc.lookup_erase, if_pos rfl]
      · rw [Assoc.lookup_erase, if_neg (by decide), Assoc.lookup_erase, if_neg (by decide),
          lookup_writeFields_eq hsorted, href, or_none]
    · cases hops
  | null | bool _ | num _ | str _ | obj _ => cases h

theorem expandOne_turned (hnamed : ∀ n, content.lookup n = named earlier n)
    (hcarries : carries before)
    (h : Server.expandOne machine content before = some (content', after)) :
    ∃ patched, Turned earlier before patched after := by
  rw [Server.expandOne] at h
  split at h
  · rename_i href hpatch
    simp [carries, href, hpatch] at hcarries
  · cases h
  · rename_i patch href hpatch
    obtain ⟨fields, hdelta, heq⟩ := map_eq_some_iff.mp h
    cases heq
    exact expandSnapshotDelta_turned href hpatch hnamed hdelta
  · rename_i rawRef href hpatch
    obtain ⟨n, hn, h⟩ := bind_eq_some_iff.mp h
    obtain ⟨target, htarget, heq⟩ := map_eq_some_iff.mp h
    cases heq
    rw [referenceSequence_eq_some hn] at href
    have hmem : ∀ name, name ∈ ["domTree", "selectorMap", "capture"] ↔ name ∈ contentNames := by
      simp only [contentNames, mem_cons]
      tauto
    have htarget : named earlier n = some target := hnamed n ▸ htarget
    refine ⟨contentOf target, .inr hpatch, ⟨n, [], target, .inl ⟨href, rfl⟩, htarget, .nil⟩,
      fun name hname => ?_, ?_, ?_⟩
    · rw [Assoc.lookup_erase, if_neg (by rintro rfl; simp at hname), lookup_copyContent,
        lookup_contentOf]
      simp only [hmem]
      split <;> simp
    · rw [Assoc.lookup_erase, if_neg (by decide), lookup_copyContent, if_neg (by decide), hpatch]
    · rw [Assoc.lookup_erase, if_pos rfl, lookup_contentOf, if_neg (by decide)]

theorem expandOne_same (hcarries : carries before = false)
    (h : Server.expandOne machine content before = some (content', after)) : after = before := by
  simp only [carries, Bool.or_eq_false_iff, isSome_eq_false_iff, isNone_iff_eq_none]
    at hcarries
  rw [Server.expandOne, hcarries.1, hcarries.2] at h
  dsimp only at h
  split at h <;> exact (Prod.mk.inj (some.inj h)).2.symm

theorem lookup_remember (sequence : Option ℚ) (fields : Fields) (content : Content) (n : ℚ) :
    (remember sequence fields content).lookup n =
      if sequence = some n then some fields else content.lookup n := by
  cases sequence with
  | none => simp [remember]
  | some m =>
    by_cases hm : n = m
    · simp [remember, hm]
    · simp [remember, lookup_cons, beq_eq_false_iff_ne.mpr hm, Ne.symm hm]

theorem named_cons (pair : Json ℚ × Json ℚ) (n : ℚ) :
    named (pair :: earlier) n = (asTarget n pair).or (named earlier n) := by
  rw [named, findSome?_cons]
  cases asTarget n pair <;> rfl

theorem expandOne_named (hnamed : ∀ n, content.lookup n = named earlier n)
    (h : Server.expandOne machine content before = some (content', after)) (n : ℚ) :
    content'.lookup n = named ((.obj before, .obj after) :: earlier) n := by
  rw [named_cons, asTarget]
  rw [Server.expandOne] at h
  split at h
  · rename_i href hpatch
    split at h
    · rename_i htree
      cases h
      rw [lookup_remember]
      by_cases hn : numericSequence (before.lookup "sequence") = some n <;>
        simp [href, htree, hn, hnamed n]
    · rename_i htree
      obtain ⟨rfl, rfl⟩ := Prod.mk.inj (some.inj h)
      simp [hpatch, htree, hnamed n]
  · cases h
  · rename_i patch href hpatch
    obtain ⟨fields, -, heq⟩ := map_eq_some_iff.mp h
    obtain ⟨rfl, rfl⟩ := Prod.mk.inj heq
    rw [lookup_remember]
    by_cases hn : numericSequence (fields.lookup "sequence") = some n <;>
      simp [href, hpatch, hn, hnamed n]
  · rename_i rawRef href hpatch
    obtain ⟨m, -, h⟩ := bind_eq_some_iff.mp h
    obtain ⟨target, -, heq⟩ := map_eq_some_iff.mp h
    cases heq
    simp [href, hnamed n]

/-- As long as all snapshots are clean, `content` has the content of the snapshots that can be
named. -/
def Agrees (earlier : List (Json ℚ × Json ℚ)) (content : Content) : Prop :=
  ∀ n, (named earlier n).map contentOf = (content.lookup n).map contentOf

theorem Agrees.cons {fields : Fields} (h : Agrees earlier content)
    (hsequence : after.lookup "sequence" = before.lookup "sequence")
    (hcontent : ∀ name ∈ contentNames, after.lookup name = fields.lookup name) :
    Agrees ((.obj before, .obj after) :: earlier) (carried content before fields) := by
  intro n
  have hsame : contentOf after = contentOf fields := by
    simp only [contentNames, forall_mem_cons] at hcontent
    simp [contentOf, copyContent, contentNames, hcontent]
  rw [named_cons, asTarget, carried, hsequence]
  split_ifs with hthere hnot hnot
  · rw [lookup_remember, if_pos hthere.2.2, map_some, ← hsame]
    rfl
  · exact absurd ⟨hthere.1, hthere.2.1⟩ hnot
  · rw [lookup_remember, if_neg fun hn => hthere ⟨hnot.1, hnot.2, hn⟩]
    exact h n
  · exact h n

theorem Points.unique {n n' : ℚ} {ops ops' : List (Json ℚ)}
    (halone : before.lookup "ref" = none ∨ before.lookup "patch" = none)
    (h : Points before n ops) (h' : Points before n' ops') : n = n' ∧ ops = ops' := by
  rcases h with ⟨href, rfl⟩ | ⟨hbase, hpatch⟩ <;> rcases h' with ⟨href', rfl⟩ | ⟨hbase', hpatch'⟩
  · rw [href] at href'
    exact ⟨by simpa using href', rfl⟩
  · simp [href, hpatch'] at halone
  · simp [href', hpatch] at halone
  · rw [hbase] at hbase'
    rw [hpatch] at hpatch'
    exact ⟨by simpa using hbase', by simpa using hpatch'⟩

theorem Turned.unique {patched' : Fields} (h : Turned earlier before patched after)
    (hagrees : Agrees earlier content) (hclean : Clean content before patched') :
    patched' = patched := by
  obtain ⟨n, ops, target, hpoints, htarget, hpatched⟩ := h.origin
  obtain ⟨n', ops', target', hpoints', htarget', hpatched'⟩ := hclean.origin
  obtain ⟨rfl, rfl⟩ := hpoints.unique h.alone hpoints'
  have hsame := hagrees n
  rw [htarget, htarget'] at hsame
  rw [← some.inj hsame] at hpatched'
  exact (Json.obj.inj (hpatched.unique hpatched')).symm

theorem Turned.content_eq (h : Turned earlier before patched after)
    (hexpanded : Expanded earlier before after) :
    ∀ name ∈ contentNames, after.lookup name = patched.lookup name := by
  obtain ⟨n, ops, target, hpoints, htarget, hpatched⟩ := h.origin
  obtain ⟨n', ops', target', patched', hpoints', htarget', hpatched', hsame⟩ := hexpanded.content
  obtain ⟨rfl, rfl⟩ := hpoints.unique h.alone hpoints'
  obtain rfl := mem_unique htarget htarget'
  cases hpatched.unique hpatched'
  exact hsame

theorem Turned.expanded_iff (h : Turned earlier before patched after) (hagrees : Agrees earlier content) :
    Expanded earlier before after ↔ Clean content before patched := by
  obtain ⟨n, ops, target, hpoints, htarget, hpatched⟩ := h.origin
  have hcontent : ∀ name ∈ contentNames, name ∉ ["ref", "base", "patch"] := by decide
  constructor
  · intro hexpanded
    have hsame := hagrees n
    rw [htarget, map_some, eq_comm] at hsame
    obtain ⟨target', htarget', hsame⟩ := map_eq_some_iff.mp hsame
    refine ⟨⟨n, ops, target', hpoints, htarget', hsame ▸ hpatched⟩, fun name hname v hv => ?_,
      fun name hname hthere => ?_⟩
    · have hne : name ≠ "ref" := by
        rintro rfl
        rw [← h.ref, hexpanded.pointers.1] at hv
        cases hv
      have hother : name ∉ contentNames ++ ["ref", "base", "patch"] := by
        simp only [mem_append, mem_cons, not_or] at hname ⊢
        exact ⟨hname.1, hne, hname.2⟩
      refine ⟨hne, ?_⟩
      rw [← hexpanded.frame name hother,
        h.others name (fun hmem => hother (mem_append_right _ hmem)), hv, some_or]
    · have hafter := h.content_eq hexpanded name hname
      rw [h.others name (hcontent name hname)] at hafter
      cases hnew : patched.lookup name with
      | some v => rfl
      | none =>
        rw [hnew, none_or] at hafter
        simp [hafter] at hthere
  · intro hclean
    refine ⟨fun name hname => ?_, ⟨?_, h.patch⟩,
      ⟨n, ops, target, patched, hpoints, htarget, hpatched, fun name hname => ?_⟩⟩
    · rw [h.others name fun hmem => hname (mem_append_right _ hmem)]
      cases hnew : patched.lookup name with
      | none => rfl
      | some v =>
        refine (hclean.others name (fun hmem => hname ?_) v hnew).2.symm
        simp only [mem_append, mem_cons] at hmem ⊢
        exact hmem.imp_right .inr
    · rw [h.ref]
      exact eq_none_iff_forall_ne_some.mpr fun v hv =>
        (hclean.others "ref" (by decide) v hv).1 rfl
    · rw [h.others name (hcontent name hname)]
      cases hnew : patched.lookup name with
      | some v => rfl
      | none =>
        have hkept := hclean.kept name hname
        rw [hnew, isSome_none] at hkept
        rw [not_isSome_iff_eq_none.mp fun hthere => Bool.false_ne_true (hkept hthere),
          or_none]

/-- Along the snapshots only content is touched exactly while all are clean. -/
theorem expandAll_onlyContent_iff {raws afters : List (Json ℚ)}
    (hnamed : ∀ n, content.lookup n = named earlier n) {clean : Content}
    (hagrees : Agrees earlier clean) (h : Server.expandAll machine content raws = some afters) :
    Throughout OnlyContent earlier raws afters ↔ AllClean clean raws := by
  induction raws generalizing content earlier clean afters with
  | nil =>
    cases h
    rfl
  | cons raw raws ih =>
    cases raw with
    | obj before =>
      obtain ⟨⟨content', after⟩, hone, h⟩ := bind_eq_some_iff.mp h
      obtain ⟨afters, hrest, rfl⟩ := map_eq_some_iff.mp h
      have hnext := expandOne_named hnamed hone
      rw [AllClean, Throughout, OnlyContent]
      cases hcarries : carries before with
      | false =>
        obtain rfl := expandOne_same hcarries hone
        have hrest := ih hnext (hagrees.cons rfl fun _ _ => rfl) hrest
        simpa using hrest
      | true =>
        obtain ⟨patched, hturned⟩ := expandOne_turned hnamed hcarries hone
        have hiff := hturned.expanded_iff hagrees
        have hlater := fun hexpanded : Expanded earlier before after =>
          ih hnext (hagrees.cons (hexpanded.frame "sequence" (by decide))
            (hturned.content_eq hexpanded)) hrest
        rw [if_pos rfl, if_pos rfl]
        constructor
        · rintro ⟨⟨_, ⟨⟩, hexpanded⟩, hothers⟩
          exact ⟨patched, hiff.mp hexpanded, (hlater hexpanded).mp hothers⟩
        · rintro ⟨patched', hclean, hothers⟩
          obtain rfl := hturned.unique hagrees hclean
          exact ⟨⟨after, rfl, hiff.mpr hclean⟩, (hlater (hiff.mpr hclean)).mpr hothers⟩
    | null | bool _ | num _ | str _ | arr _ =>
      obtain ⟨afters, hrest, rfl⟩ := map_eq_some_iff.mp h
      refine Iff.trans (and_iff_right rfl) ?_
      rw [AllClean]
      · refine ih ?_ ?_ hrest
        · exact hnamed
        · exact hagrees
      · exact nofun

end Turns

/-- Nothing but content is touched exactly when all snapshots are clean. -/
theorem touchesOnlyContent_iff (machine : Int64Of) (recording out : Fields)
    (h : Server.expandSnapshotReferences machine recording = some out) :
    TouchesOnlyContent recording out ↔ AllClean [] (snapshotsOf recording) := by
  rw [Server.expandSnapshotReferences] at h
  split at h
  · rename_i raws hraws
    obtain ⟨afters, hall, rfl⟩ := map_eq_some_iff.mp h
    have hother : ∀ name ≠ "snapshots",
        (Assoc.set "snapshots" (.arr afters) recording).lookup name = recording.lookup name :=
      fun name hname => by rw [Assoc.lookup_set, if_neg hname]
    have hafters : snapshotsOf (Assoc.set "snapshots" (.arr afters) recording) = afters := by
      simp [snapshotsOf, Assoc.lookup_set]
    have hbefore : snapshotsOf recording = raws := by simp [snapshotsOf, hraws]
    rw [TouchesOnlyContent, hafters, hbefore]
    exact (and_iff_right hother).trans (expandAll_onlyContent_iff (fun _ => rfl)
      (fun _ => rfl) hall)
  · rename_i hnone
    cases h
    have hnil : snapshotsOf recording = [] := by
      unfold snapshotsOf
      split
      · rename_i raws hraws
        exact absurd hraws (hnone raws)
      · rfl
    rw [TouchesOnlyContent, hnil]
    exact iff_of_true ⟨fun _ _ => rfl, trivial⟩ trivial

/-- A snapshot with this content, and one that is a reference to it. -/
def referring (second : Fields) : Fields :=
  recordingOf [.obj [("domTree", .num 1), ("sequence", .num 1)], .obj second]

theorem referenceSequence_one : Server.referenceSequence truncating (.num 1) = some 1 := by
  norm_num [Server.referenceSequence, truncating]

theorem touchesOnlyContent_reference : TouchesOnlyContent
    (referring [("ref", .num 1), ("sequence", .num 2)])
    (referring [("domTree", .num 1), ("sequence", .num 2)]) := by
  have hout : Server.expandSnapshotReferences truncating
      (referring [("ref", .num 1), ("sequence", .num 2)]) =
        some (referring [("domTree", .num 1), ("sequence", .num 2)]) := by
    have horder : "domTree" < "ref" := by
      simp only [String.lt_iff_toList_lt]
      decide
    simp [Server.expandSnapshotReferences, referring, recordingOf, lookup_cons,
      Server.expandAll, Server.expandOne, remember, numericSequence, referenceSequence_one,
      copyContent, Assoc.set, Assoc.erase, horder]
  refine (touchesOnlyContent_iff truncating _ _ hout).mpr ?_
  refine ⟨[("domTree", .num 1)], ⟨⟨1, [], _, .inl ⟨rfl, rfl⟩, rfl, .nil⟩, fun name hname v hv => ?_,
    fun name hname hthere => ?_⟩, trivial⟩
  · obtain rfl : name = "domTree" := by
      by_contra hne
      simp [lookup_cons, beq_eq_false_iff_ne.mpr hne] at hv
    exact absurd (by decide) hname
  · simp only [contentNames, mem_cons, not_mem_nil, or_false] at hname
    rcases hname with rfl | rfl | rfl <;> cases hthere

def writeURL : Json ℚ :=
  .obj [("op", .str "add"), ("path", .str "/url"), ("value", .str "/b")]

/-- A patch may write the URL of its snapshot. -/
theorem url_patched : ¬ ∀ (machine : Int64Of) (recording out : Fields),
    Server.expandSnapshotReferences machine recording = some out → TouchesOnlyContent recording out := by
  intro h
  have hsplit : splitPointer "/url" = ["url"] := by decide
  have hout : Server.expandSnapshotReferences truncating
      (recordingOf (twoSnapshots [writeURL])) = some (recordingOf
        [.obj [("domTree", .obj [("a", .num 1)]), ("sequence", .num 1)],
          .obj [("domTree", .obj [("a", .num 1)]), ("sequence", .num 2), ("url", .str "/b")]]) := by
    have horder : "domTree" < "patch" ∧ ¬ "domTree" < "base" ∧ ¬ "url" < "domTree" ∧
        ¬ "url" < "base" ∧ ¬ "url" < "patch" ∧ ¬ "url" < "sequence" := by
      simp only [String.lt_iff_toList_lt]
      decide
    simp [Server.expandSnapshotReferences, recordingOf, twoSnapshots, writeURL, lookup_cons,
      Server.expandAll, Server.expandOne, Server.expandSnapshotDelta, remember, numericSequence,
      referenceSequence_one, horder, hsplit, copyContent, writeFields,
      Patch.Server.applySnapshotPatch, Patch.Server.applyOps, Patch.Server.applyRawOp,
      Patch.Server.applyOp, Patch.Server.descend, Patch.Server.edit, Patch.Server.editFields,
      Patch.Server.maxSnapshotPatchOps, PatchKind.parse, textOf, Assoc.set, Assoc.erase]
  obtain ⟨-, -, hsecond, -⟩ := h _ _ _ hout
  obtain ⟨fields, heq, hexpanded⟩ := hsecond
  cases heq
  have hurl := hexpanded.frame "url" (by decide)
  simp [lookup_cons] at hurl

end Expand

end Aegis
