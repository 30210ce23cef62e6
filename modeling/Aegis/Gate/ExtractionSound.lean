import Aegis.Gate.ExtractionTypes
import Aegis.Lib.Assoc

/-!
# Gate.ExtractionSound

Of which runs the types that the gate takes for known are those of what has been extracted.
-/

namespace Aegis

open List Option

namespace Extraction

abbrev Types := String → Option ValueType

def below (path : String) (keys : List String) : String :=
  keys.foldl (fun path key => path ++ "." ++ key) path

/-- A value at a path has the types that are known there and below. -/
def Fits (inherited : ValueType → String → Bool) (types : Types) (path : String) (v : Value) : Prop :=
  ∀ keys type, types (below path keys) = some type → ∀ x, getKeys inherited v keys = some x →
    x.type = some type

def isBuiltin (inherited : ValueType → String → Bool) (type : ValueType) (key : String) : Bool :=
  inherited type key || ((type == .string || type == .array) && (key == "length" || (index key).isSome))

/-- No builtin property hides what is known below the path. -/
def Plain (inherited : ValueType → String → Bool) (types : Types) (type : ValueType)
    (path : String) : Prop :=
  ∀ key keys known, types (below path (key :: keys)) = some known → isBuiltin inherited type key = false

variable {inherited : ValueType → String → Bool} {types : Types} {path : String} {v : Value}
  {type : ValueType}

theorem builtin_none {key : String} (htype : v.type = some type)
    (h : isBuiltin inherited type key = false) : builtin inherited v key = none := by
  rw [isBuiltin, Bool.or_eq_false_iff] at h
  obtain ⟨hinherited, hkey⟩ := h
  cases v with
  | null => rfl
  | native => cases htype
  | str s =>
    cases htype
    simp only [beq_self_eq_true, Bool.true_or, Bool.true_and, Bool.or_eq_false_iff,
      beq_eq_false_iff_ne, isSome_eq_false_iff, isNone_iff_eq_none] at hkey
    simp [builtin, hkey.1, hkey.2, hinherited]
  | arr items =>
    cases htype
    simp only [beq_self_eq_true, Bool.or_true, Bool.true_and, Bool.or_eq_false_iff,
      beq_eq_false_iff_ne, isSome_eq_false_iff, isNone_iff_eq_none] at hkey
    simp [builtin, hkey.1, hkey.2, hinherited]
  | num n | bool b | obj fields =>
    cases htype
    simp [builtin, hinherited]

theorem Fits.of_plain (htype : v.type = some type) (hobject : type ≠ .object)
    (hself : Agrees types path type) (hplain : Plain inherited types type path) :
    Fits inherited types path v := by
  intro keys known hknown x hx
  cases keys with
  | nil =>
    cases hx
    rcases hself with hself | hself
    · exact absurd (hself.symm.trans hknown) (by simp)
    · rw [htype, ← hself]
      exact hknown
  | cons key keys =>
    have hmember : member inherited v key = none := by
      have hbuiltin := builtin_none htype (hplain key keys known hknown)
      cases v with
      | obj fields => exact absurd (some.inj htype).symm hobject
      | _ => exact hbuiltin
    rw [getKeys, hmember] at hx
    cases hx

theorem Fits.null (h : types path = none) : Fits inherited types path .null := by
  intro keys known hknown x hx
  cases keys with
  | nil => exact absurd (h.symm.trans hknown) (by simp)
  | cons key keys => cases hx

theorem Fits.of_fields {fields : List (String × Value)} (hself : Agrees types path .object)
    (hfields : ∀ key v, (key, v) ∈ fields → Fits inherited types (path ++ "." ++ key) v)
    (hother : ∀ key keys known, types (below path (key :: keys)) = some known →
      fields.lookup key = none → inherited .object key = false) :
    Fits inherited types path (.obj fields) := by
  intro keys known hknown x hx
  cases keys with
  | nil =>
    cases hx
    rcases hself with hself | hself
    · exact absurd (hself.symm.trans hknown) (by simp)
    · rw [← hknown]
      exact hself.symm
  | cons key keys =>
    rw [getKeys, member] at hx
    cases hlookup : fields.lookup key with
    | some y =>
      rw [hlookup] at hx
      exact hfields key y (Assoc.mem_of_lookup hlookup) keys known hknown x hx
    | none =>
      rw [hlookup] at hx
      simp [builtin, hother key keys known hknown hlookup] at hx

theorem Fits.of_below (h : ∀ key keys, types (below path (key :: keys)) = none)
    (hself : ∀ type, types path = some type → v.type = some type) :
    Fits inherited types path v := by
  intro keys known hknown x hx
  cases keys with
  | nil => exact some.inj hx ▸ hself known hknown
  | cons key keys => exact absurd ((h key keys).symm.trans hknown) (by simp)

theorem Fits.of_none (h : ∀ keys, types (below path keys) = none) : Fits inherited types path v :=
  fun keys _ hknown => absurd ((h keys).symm.trans hknown) (by simp)

section Fields

variable {ν : Type} (js : Js) (page : Page ν) (types : Types)

def RegexFine (path : String) (f : FieldSpec) (text : String) : Prop :=
  ∀ regex find, f.regex = some regex → js.regexp regex = some find → find text = none →
    Fits js.inherited types path (orEmpty f.default)

def ValueFine (path : String) (node : ν) (f : FieldSpec) : Prop :=
  match fieldKind f.type with
  | .text | .regex =>
    Plain js.inherited types .string path ∧ RegexFine js types path f (fieldText page node f)
  | .html | .css => Plain js.inherited types .string path
  | .number => Plain js.inherited types .number path ∧
    ∀ v, applyTransform js (.str (page.textContent node)) f = some v → toNumber v = none →
      Fits js.inherited types path (orNull f.default)
  | .boolean | .present => Plain js.inherited types .boolean path
  | .count => Plain js.inherited types .number path
  | .attr => Plain js.inherited types .string path ∧
    (page.getAttribute node f.attr = none → (f.resolve && truthy (orNull f.default)) = false →
      Fits js.inherited types path (orNull f.default)) ∧
    ∀ text, attrValue js page node f = some (.str text) → RegexFine js types path f text
  | .json => (∀ v, jsonValue js page node f.path = some (some v) → Fits js.inherited types path v) ∧
    (jsonValue js page node f.path = some none → Fits js.inherited types path (orNull f.default))
  | .other => Plain js.inherited types .string path ∧ Agrees types path .string

def OthersFine (path : String) (keys : List String) : Prop :=
  ∀ key rest known, types (below path (key :: rest)) = some known → key ∉ keys →
    js.inherited .object key = false

mutual

def FieldFine (path : String) (el : ν) : ExtractField → Prop
  | .mk f fields => match fieldNode page el f with
    | none => f.visible = false → Fits js.inherited types path (orNull f.default)
    | some node => match fields with
      | some (field :: rest) => FieldsFine path node (field :: rest) ∧
        OthersFine js types path ((field :: rest).map Prod.fst)
      -- the collector takes it for a field without fields
      | some [] => Agrees types path .object ∧ OthersFine js types path []
      | none => ValueFine js page types path node f

def FieldsFine (parent : String) (el : ν) : List (String × ExtractField) → Prop
  | [] => True
  | field :: rest => NamedFine parent el field ∧ FieldsFine parent el rest

def NamedFine (parent : String) (el : ν) : String × ExtractField → Prop
  | (name, field) => FieldFine (parent ++ "." ++ name) el field

end

end Fields

variable {ν : Type} {js : Js} {page : Page ν} {el node : ν} {f : FieldSpec}

variable {fields : List (String × ExtractField)}

theorem FieldsFine.mem {parent name : String} {field : ExtractField} (h : FieldsFine js page types parent el fields)
    (hf : (name, field) ∈ fields) : FieldFine js page types (parent ++ "." ++ name) el field := by
  induction fields with
  | nil => cases hf
  | cons x fields ih =>
    rw [FieldsFine] at h
    rcases mem_cons.mp hf with rfl | hf
    · rw [NamedFine] at h
      exact h.1
    · exact ih h.2 hf

/-! ## What a field gives -/

theorem known_fieldKind (name : String) : knownExtractFieldType name = match fieldKind name with
    | .text | .html | .attr | .css | .regex => some .string
    | .number | .count => some .number
    | .boolean | .present => some .boolean
    | .json | .other => none := by
  fun_cases fieldKind name <;> try rfl
  rename_i htext hhtml hnumber hboolean hattr hcss hjson hregex hexists hcount
  simp only [knownExtractFieldType, contains_cons, contains_nil, Bool.or_false, Bool.or_eq_true, beq_iff_eq]
  rw [if_neg, if_neg, if_neg]
  · rintro (h | h)
    · exact hboolean h
    · exact hexists h
  · rintro (h | h)
    · exact hnumber h
    · exact hcount h
  · rintro (h | h | h | h | h)
    · exact htext h
    · exact hhtml h
    · exact hattr h
    · exact hcss h
    · exact hregex h

theorem applyTransform_str {text : String} (hself : Agrees types path .string)
    (hplain : Plain js.inherited types .string path) (hregex : RegexFine js types path f text)
    (h : applyTransform js (.str text) f = some v) : Fits js.inherited types path v := by
  have hstr : ∀ s, Fits js.inherited types path (.str s) := fun s =>
    .of_plain rfl (by decide) hself hplain
  cases hpattern : f.regex with
  | none =>
    simp only [applyTransform, hpattern] at h
    cases h
    exact hstr _
  | some regex =>
    simp only [applyTransform, hpattern] at h
    split at h
    · cases h
      exact hstr _
    · obtain ⟨find, hfind, rfl⟩ := map_eq_some_iff.mp h
      split
      · exact hstr _
      · rename_i hnone
        exact hregex regex find hpattern hfind hnone

theorem fieldValue_fits (hseen : LeafSeen (Agrees types) path f)
    (hfine : ValueFine js page types path node f) (h : fieldValue js page node f = some v) :
    Fits js.inherited types path v := by
  rw [LeafSeen, known_fieldKind] at hseen
  rw [ValueFine.eq_def] at hfine
  rw [fieldValue] at h
  cases hkind : fieldKind f.type with
  | text =>
    simp only [hkind] at hseen hfine h
    exact applyTransform_str (hseen _ rfl) hfine.1 hfine.2 h
  | html | boolean | css | present | count =>
    simp only [hkind] at hseen hfine h
    cases h
    exact .of_plain rfl (by decide) (hseen _ rfl) hfine
  | number =>
    simp only [hkind] at hseen hfine h
    obtain ⟨x, hx, rfl⟩ := map_eq_some_iff.mp h
    split
    · exact .of_plain rfl (by decide) (hseen _ rfl) hfine.1
    · rename_i hnone
      exact hfine.2 x hx hnone
  | attr =>
    simp only [hkind] at hseen hfine h
    obtain ⟨hplain, hmissing, hregex⟩ := hfine
    obtain ⟨x, hx, happly⟩ := bind_eq_some_iff.mp h
    cases x with
    | str text => exact applyTransform_str (hseen _ rfl) hplain (hregex text hx) happly
    | _ =>
      -- no attribute, and a default that is no text
      simp only [applyTransform, some.injEq] at happly
      subst happly
      rw [attrValue] at hx
      cases hattr : page.getAttribute node f.attr with
      | some s =>
        rw [hattr] at hx
        dsimp only at hx
        split at hx
        · obtain ⟨_, -, hx⟩ := map_eq_some_iff.mp hx
          cases hx
        · cases hx
      | none =>
        rw [hattr] at hx
        dsimp only at hx
        split at hx
        · obtain ⟨_, -, hx⟩ := map_eq_some_iff.mp hx
          cases hx
        · rename_i hresolve
          rw [Bool.not_eq_true] at hresolve
          rw [← some.inj hx]
          exact hmissing hattr hresolve
  | json =>
    simp only [hkind] at hfine h
    obtain ⟨x, hx, rfl⟩ := map_eq_some_iff.mp h
    cases x with
    | some x => exact hfine.1 x hx
    | none => exact hfine.2 hx
  | regex =>
    simp only [hkind] at hseen hfine h
    have hstr : ∀ s, Fits js.inherited types path (.str s) := fun s =>
      .of_plain rfl (by decide) (hseen _ rfl) hfine.1
    rw [extractRegexField] at h
    split at h
    · cases h
    · rename_i regex hpattern
      split at h
      · cases h
      · obtain ⟨find, hfind, rfl⟩ := map_eq_some_iff.mp h
        split
        · exact hstr _
        · rename_i hnone
          exact hfine.2 regex find hpattern hfind hnone
  | other =>
    simp only [hkind] at hfine h
    cases h
    exact .of_plain rfl (by decide) hfine.2 hfine.1

theorem extractFields_mem {item : List (String × Value)}
    (h : extractFields js page el fields = some item) :
    item.map Prod.fst = fields.map Prod.fst ∧ ∀ name v, (name, v) ∈ item →
      ∃ field, (name, field) ∈ fields ∧ extractField js page el field = some v := by
  induction fields generalizing item with
  | nil =>
    rw [extractFields] at h
    cases h
    exact ⟨rfl, fun _ _ h => absurd h not_mem_nil⟩
  | cons x rest ih =>
    obtain ⟨key, field⟩ := x
    rw [extractFields, extractNamed] at h
    obtain ⟨y, hy, h⟩ := bind_eq_some_iff.mp h
    obtain ⟨value, hvalue, rfl⟩ := map_eq_some_iff.mp hy
    obtain ⟨item, hitem, rfl⟩ := map_eq_some_iff.mp h
    obtain ⟨hnames, hmem⟩ := ih hitem
    refine ⟨by rw [map_cons, map_cons, hnames], fun name v hv => ?_⟩
    rcases mem_cons.mp hv with heq | hv
    · cases heq
      exact ⟨field, mem_cons_self, hvalue⟩
    · obtain ⟨field, hf, hfield⟩ := hmem name v hv
      exact ⟨field, mem_cons_of_mem _ hf, hfield⟩

theorem item_fits {item : List (String × Value)}
    (hself : Agrees types path .object)
    (hfields : ∀ name field, (name, field) ∈ fields → ∀ v,
      extractField js page el field = some v → Fits js.inherited types (path ++ "." ++ name) v)
    (hothers : OthersFine js types path (fields.map Prod.fst))
    (h : extractFields js page el fields = some item) :
    Fits js.inherited types path (.obj item) := by
  obtain ⟨hnames, hmem⟩ := extractFields_mem h
  refine .of_fields hself (fun name v hv => ?_) fun key keys known hknown hlookup => ?_
  · obtain ⟨field, hf, hfield⟩ := hmem name v hv
    exact hfields name field hf v hfield
  · refine hothers key keys known hknown ?_
    rw [← hnames, Assoc.mem_keys_iff, hlookup]
    exact Bool.false_ne_true

theorem extractField_fits (field : ExtractField) : ∀ path el v,
    FieldSeen (Agrees types) path field → FieldFine js page types path el field →
      extractField js page el field = some v → Fits js.inherited types path v := by
  induction field using ExtractField.ind with
  | leaf f =>
    intro path el v hseen hfine h
    rw [FieldSeen] at hseen
    rw [FieldFine] at hfine
    rw [extractField] at h
    split at h
    · rename_i hnode
      rw [hnode] at hfine
      split at h
      · cases h
      · rename_i hvisible
        cases h
        exact hfine (by simpa using hvisible)
    · rename_i node hnode
      rw [hnode] at hfine
      split at h
      · cases h
      · exact fieldValue_fits hseen hfine h
  | nested f fields ih =>
    intro path el v hseen hfine h
    rw [extractField] at h
    split at h
    · rename_i hnode
      have hdefault : f.visible = false → Fits js.inherited types path (orNull f.default) := by
        cases fields with
        | nil | cons field rest =>
          rw [FieldFine, hnode] at hfine
          exact hfine
      split at h
      · cases h
      · rename_i hvisible
        cases h
        exact hdefault (by simpa using hvisible)
    · rename_i node hnode
      split at h
      · cases h
      · obtain ⟨item, hitem, rfl⟩ := map_eq_some_iff.mp h
        cases fields with
        | nil =>
          rw [FieldFine, hnode] at hfine
          exact item_fits hfine.1 (fun _ _ hf => absurd hf not_mem_nil) hfine.2 hitem
        | cons field rest =>
          rw [FieldSeen] at hseen
          rw [FieldFine, hnode] at hfine
          exact item_fits hseen.1 (fun name field hf v hv => ih name field hf _ node v
            (hseen.2.mem hf) (hfine.1.mem hf) hv) hfine.2 hitem

section Actions

variable (js : Js) (types : Types)

/-- The name is as the collector takes it, or nothing is known under it. -/
def Named (a : Action) : Prop :=
  trimSpace a.name = a.name ∧ a.name ≠ "" ∨ ∀ keys, types (below a.name keys) = none

def OpFine (known : Option ValueType) (data : Option Value) (op : Op) : Prop :=
  let targetsField := trimSpace op.field != ""
  match opKind op.type with
  -- it makes numbers of the items of an array, and `null` of what has no number
  | .number =>
    if targetsField then
      known ≠ none → ∃ v, data = some v ∧ (v.type = some .array ∨ v.type = some .number)
    else ∃ v, data = some v ∧ v.type ≠ some .array ∧ (toNumber v).isSome
  -- it leaves what is no date as it is, and a blank field is a field
  | .date =>
    if targetsField then True
    else ∀ v, data = some v → v.type = some .string ∨ op.field = "" ∧ v ≠ .null ∧ (js.date v).isSome
  | _ => True

def OpsFine (known : Option ValueType) (data : Option Value) : List Op → Prop
  | [] => True
  | op :: ops => OpFine js known data op ∧
    ∀ data', applyTransformOp js data op = some data' → OpsFine (knownOp known op) data' ops

def HasKnown (known : Option ValueType) (data : Option Value) : Prop :=
  ∀ type, known = some type → ∀ v, data = some v → v.type = some type

/-- The type that is stored by `merge`. -/
def mergeType (strategy : String) : ValueType := if strategy = "assign" then .object else .array

def ActionFine {ν : Type} (page : Page ν) (answer : Answer ν) (extracted : Extracted) (a : Action) : Prop :=
  let name := a.name
  match actionKind a.action with
  | .extract =>
    if a.multiple then Plain js.inherited types .array name
    else ∀ fields, a.fields = some fields → ∀ el, answer.element = some el →
      FieldsFine js page types name el fields ∧ OthersFine js types name (fields.map Prod.fst)
  | .extractText | .extractHtml => Plain js.inherited types .string name
  | .extractAttribute => Plain js.inherited types .string name ∧
    (types name ≠ none → ∃ el, answer.element = some el ∧ (page.getAttribute el a.attr).isSome)
  -- what the page has there
  | .extractJson => ∀ el v, answer.element = some el →
    jsonValue js page el (a.path.map fun path => if path = "" then path else answer.path) =
      some (some v) → Fits js.inherited types name v
  -- it stores an object
  | .extractTable => ∀ keys, types (below name keys) = none
  | .extractPageInfo => ∀ key keys, types (below name (key :: keys)) = none
  | .merge => Agrees types name (mergeType a.strategy) ∧
    if a.strategy = "assign" then ∀ key keys, types (below name (key :: keys)) = none
    else Plain js.inherited types .array name
  | .transform => (∀ key keys, types (below name (key :: keys)) = none) ∧
    ∃ known, HasKnown known (resolveExpressionSource js extracted answer a.source) ∧
      OpsFine js known (resolveExpressionSource js extracted answer a.source) a.operations ∧
      (types name = none ∨ knownOps known a.operations = types name)
  | .filter | .deduplicate => Plain js.inherited types .array name
  | .other => True

/-- A step does not go wrong: what it stores under is no path, or it stores what fits, and if it is
in an `onOpen` what the collector would have recorded agrees with what is known. -/
def StepFine {ν : Type} (steps : List Step) (extracted : Extracted) (e : Event ν) : Prop :=
  let types := (collectKnownExtractionTypes steps).types
  let a := actionOf e.step
  '.' ∉ a.name.toList → Named types a ∧ ActionFine js types e.page e.answer extracted a ∧
    (Collected steps e.step ∨ ActionSeen (Agrees types) a)

end Actions

theorem foldl_dots (pre x : List Char) (xs : List (List Char)) :
    xs.foldl (fun path key => path ++ '.' :: key) (pre ++ x) =
      pre ++ xs.foldl (fun path key => path ++ '.' :: key) x := by
  induction xs generalizing x with
  | nil => rfl
  | cons y xs ih => rw [foldl_cons, foldl_cons, append_assoc, ih]

theorem splitOn_dots (l : List Char) : ∃ x xs, l.splitOn '.' = x :: xs ∧ '.' ∉ x ∧
    xs.foldl (fun path key => path ++ '.' :: key) x = l := by
  induction l with
  | nil => exact ⟨[], [], rfl, not_mem_nil, rfl⟩
  | cons c l ih =>
    obtain ⟨x, xs, hsplit, hx, hfold⟩ := ih
    rw [List.splitOn, splitOnP_cons_eq_if_modifyHead]
    rw [List.splitOn] at hsplit
    rw [hsplit]
    by_cases hc : c = '.'
    · refine ⟨[], x :: xs, by simp [hc], not_mem_nil, ?_⟩
      rw [foldl_cons, nil_append, hc, ← hfold]
      exact foldl_dots ['.'] x xs
    · refine ⟨c :: x, xs, by simp [hc], ?_, ?_⟩
      · rw [mem_cons, not_or]
        exact ⟨fun h => hc h.symm, hx⟩
      · rw [← hfold]
        exact foldl_dots [c] x xs

theorem toList_below (path : String) (keys : List (List Char)) :
    (below path (keys.map String.ofList)).toList =
      keys.foldl (fun path key => path ++ '.' :: key) path.toList := by
  rw [below]
  induction keys generalizing path with
  | nil => rfl
  | cons key keys ih =>
    rw [map_cons, foldl_cons, ih, foldl_cons]
    simp

theorem split_below (path : String) : ∃ name keys, split path '.' = name :: keys ∧
    '.' ∉ name.toList ∧ below name keys = path := by
  obtain ⟨x, xs, hsplit, hx, hfold⟩ := splitOn_dots path.toList
  refine ⟨String.ofList x, xs.map String.ofList, ?_, ?_, ?_⟩
  · rw [split, hsplit, map_cons]
  · rw [String.toList_ofList]
    exact hx
  · apply String.toList_injective
    rw [toList_below, String.toList_ofList, hfold]

variable {known : Option ValueType} {extracted : Extracted}

theorem applyOp_known {data : Option Value} {op : Op}
    {fn : Option Value → Option Value} (h : HasKnown known data)
    (hfn : op.field = "" → HasKnown known (fn data)) : HasKnown known (applyOp js data op fn) := by
  rw [applyOp]
  split
  · rename_i hfield
    exact hfn hfield
  · intro type htype v hv
    unfold applyToField at hv
    split at hv
    · cases hv
      have hdata := h type htype _ rfl
      exact hdata
    · cases hv
      have hdata := h type htype _ rfl
      exact hdata
    · exact h type htype v hv

theorem onText_known {data : Option Value} {fn : String → Value}
    (h : HasKnown known data) (hfn : ∀ s, known ≠ none → (fn s).type = some .string) :
    HasKnown known (onText fn data) := by
  intro type htype v hv
  unfold onText at hv
  split at hv
  · rename_i s
    cases hv
    rw [hfn s (by simp [htype]), ← h type htype _ rfl]
    rfl
  · exact h type htype v hv

theorem applyTransformOp_known {data data' : Option Value} {op : Op}
    (h : HasKnown known data) (hfine : OpFine js known data op)
    (hop : applyTransformOp js data op = some data') : HasKnown (knownOp known op) data' := by
  have htext : ∀ fn : String → String,
      HasKnown known (applyOp js data op (onText fun s => .str (fn s))) := fun fn =>
    applyOp_known h fun _ => onText_known h fun _ _ => rfl
  unfold applyTransformOp at hop
  unfold OpFine at hfine
  unfold knownOp
  cases hkind : opKind op.type with
  | map =>
    simp only [hkind] at hop ⊢
    split at hop
    · obtain ⟨items, -, rfl⟩ := map_eq_some_iff.mp hop
      intro type htype v hv
      cases hv
      have hdata := h type htype _ rfl
      exact hdata
    · cases hop
      exact h
  | number =>
    simp only [hkind] at hop hfine ⊢
    split at hfine
    · rename_i htargets
      rw [if_pos htargets]
      intro type htype v hv
      obtain ⟨x, hx, hor⟩ := hfine (by simp [htype])
      have hxtype := h type htype x hx
      cases x with
      | arr items | num n =>
        rw [hx] at hop
        cases hop
        cases hv
        exact hxtype
      | null | bool b | str s | obj fields | native => rcases hor with hor | hor <;> cases hor
    · rename_i htargets
      rw [if_neg htargets]
      obtain ⟨x, hx, harray, hnumber⟩ := hfine
      obtain ⟨n, hn⟩ := isSome_iff_exists.mp hnumber
      intro type htype v hv
      have hdata : data' = some (.num n) := by
        cases x with
        | arr items => exact absurd rfl harray
        | _ =>
          rw [hx] at hop
          simp only [bind_some, hn] at hop
          exact (some.inj hop).symm
      rw [hdata] at hv
      cases hv
      exact htype
  | filter =>
    simp only [hkind] at hop ⊢
    intro type htype v hv
    split at hop
    all_goals
      cases hop
      cases hv
      exact htype
  | regex | replace | trim =>
    simp only [hkind] at hop ⊢
    cases hop
    exact htext _
  | date =>
    simp only [hkind] at hop hfine ⊢
    cases hop
    split at hfine
    · rename_i htargets
      rw [if_pos htargets]
      refine applyOp_known h fun hfield => ?_
      rw [hfield] at htargets
      cases htargets
    · rename_i htargets
      rw [if_neg htargets]
      intro type htype v hv
      cases htype
      rw [applyOp] at hv
      split at hv
      · cases data with
        | none => cases hv
        | some x =>
          have hor := hfine x rfl
          cases x with
          | null =>
            rcases hor with hor | hor
            · cases hor
            · exact absurd rfl hor.2.1
          | _ =>
            unfold dateOf at hv
            dsimp only at hv
            split at hv
            · cases hv
              rfl
            · rename_i hnone
              cases hv
              rcases hor with hor | hor
              · exact hor
              · rw [hnone] at hor
                cases hor.2.2
      · rename_i hfield
        unfold applyToField at hv
        split at hv
        · rename_i items
          rcases hfine _ rfl with hor | hor
          · cases hor
          · exact absurd hor.1 hfield
        · rename_i fields
          rcases hfine _ rfl with hor | hor
          · cases hor
          · exact absurd hor.1 hfield
        · rcases hfine v hv with hor | hor
          · exact hor
          · exact absurd hor.1 hfield
  | jsonParse =>
    simp only [hkind] at hop ⊢
    cases hop
    split
    · rename_i htargets
      refine applyOp_known h fun hfield => ?_
      rw [hfield] at htargets
      cases htargets
    · exact nofun
  | other =>
    simp only [hkind] at hop ⊢
    cases hop
    exact h

theorem applyTransformOps_known {ops : List Op}
    {data data' : Option Value} (h : HasKnown known data) (hfine : OpsFine js known data ops)
    (hops : applyTransformOps js data ops = some data') : HasKnown (knownOps known ops) data' := by
  induction ops generalizing known data with
  | nil =>
    rw [applyTransformOps] at hops
    cases hops
    exact h
  | cons op ops ih =>
    rw [applyTransformOps] at hops
    obtain ⟨next, hnext, hrest⟩ := bind_eq_some_iff.mp hops
    exact ih (applyTransformOp_known h hfine.1 hnext) (hfine.2 next hnext) hrest

/-! ## What is stored -/

/-- Each value is stored as its types say. -/
def Stored (inherited : ValueType → String → Bool) (types : Types) (extracted : Extracted) : Prop :=
  ∀ name v, (name, v) ∈ extracted → '.' ∉ name.toList → Fits inherited types name v

theorem Stored.store {name : String} {x : Option Value}
    (h : Stored inherited types extracted)
    (hx : ∀ v, x = some v → '.' ∉ name.toList → Fits inherited types name v) :
    Stored inherited types (store extracted name x) := by
  intro name' v hmem hdot
  cases x with
  | none => exact h name' v (mem_of_mem_filter hmem) hdot
  | some x =>
    rcases mem_append.mp hmem with hmem | hmem
    · exact h name' v (mem_of_mem_filter hmem) hdot
    · cases mem_singleton.mp hmem
      exact hx v rfl hdot

theorem producer_actionKind (name : String) : producer name = match actionKind name with
    | .extractText | .extractAttribute | .extractHtml => .string
    | .extractTable | .filter | .deduplicate => .array
    | .extractPageInfo => .object
    | .extract => .extract
    | .transform => .transform
    | .extractJson | .merge | .other => .other := by
  fun_cases actionKind name <;> try rfl
  fun_cases producer name <;> first | rfl | simp_all

def SeenAt (types : Types) (a : Action) : Prop :=
  match actionKind a.action with
  | .extractText | .extractAttribute | .extractHtml => Agrees types a.name .string
  | .extractTable | .filter | .deduplicate => Agrees types a.name .array
  | .extractPageInfo => Agrees types a.name .object
  | .extract =>
    if a.multiple then Agrees types a.name .array
    else Agrees types a.name .object ∧ FieldsSeen (Agrees types) a.name (a.fields.getD [])
  | .transform | .extractJson | .merge | .other => True

theorem Named.seen {a : Action} (h : Named types a) (hseen : ActionSeen (Agrees types) a) :
    SeenAt types a ∨ ∀ v, Fits inherited types a.name v := by
  rcases h with ⟨htrim, hne⟩ | hnone
  · left
    rw [ActionSeen, htrim, producer_actionKind] at hseen
    have hseen := hseen hne
    unfold SeenAt
    cases hkind : actionKind a.action <;> simp only [hkind] at hseen ⊢ <;> exact hseen
  · exact .inr fun v => .of_none hnone

section Handlers

variable {answer : Answer ν} {a : Action} {extracted extracted' : Extracted}

theorem handleExtract_stored (hkind : actionKind a.action = .extract)
    (hfine : '.' ∉ a.name.toList → ActionFine js types page answer extracted a ∧
      (SeenAt types a ∨ ∀ v, Fits js.inherited types a.name v))
    (h : Stored js.inherited types extracted)
    (hexec : handleExtract js page answer a extracted = some extracted') :
    Stored js.inherited types extracted' := by
  unfold handleExtract at hexec
  dsimp only at hexec
  by_cases hmultiple : a.multiple
  · simp only [if_pos hmultiple] at hexec
    split at hexec
    · cases hexec
    · obtain ⟨items, -, rfl⟩ := map_eq_some_iff.mp hexec
      refine h.store fun v hv hdot => ?_
      cases hv
      obtain ⟨hfine, hseen | hfits⟩ := hfine hdot
      · simp only [ActionFine, SeenAt, hkind, if_pos hmultiple] at hfine hseen
        exact .of_plain rfl (by decide) hseen hfine
      · exact hfits _
  · simp only [if_neg hmultiple] at hexec
    split at hexec
    · cases hexec
    · obtain ⟨items, hitems, rfl⟩ := map_eq_some_iff.mp hexec
      refine h.store fun v hv hdot => ?_
      obtain ⟨hfine, hseen | hfits⟩ := hfine hdot
      · simp only [ActionFine, SeenAt, hkind, if_neg hmultiple] at hfine hseen
        cases helement : answer.element with
        | none =>
          rw [helement] at hitems
          have hnil : items = [] := by
            split at hitems <;> exact (some.inj hitems).symm
          rw [hnil] at hv
          cases hv
        | some el =>
          rw [helement] at hitems
          cases hfields : a.fields with
          | none =>
            rw [hfields] at hitems
            cases hitems
          | some fields =>
            rw [hfields] at hitems hseen
            obtain ⟨item, hitem, hrest⟩ := bind_eq_some_iff.mp hitems
            obtain ⟨rest, -, rfl⟩ := map_eq_some_iff.mp hrest
            cases hv
            obtain ⟨hfieldsFine, hothers⟩ := hfine fields hfields el helement
            exact item_fits hseen.1 (fun name field hf v hv => extractField_fits field _ el v
              (hseen.2.mem hf) (hfieldsFine.mem hf) hv) hothers hitem
      · exact hfits v

theorem executeAction_stored (hfine : '.' ∉ a.name.toList → ActionFine js types page answer extracted a ∧
      (SeenAt types a ∨ ∀ v, Fits js.inherited types a.name v))
    (h : Stored js.inherited types extracted)
    (hexec : executeAction js page answer a extracted = some extracted') :
    Stored js.inherited types extracted' := by
  unfold executeAction at hexec
  have hstring : actionKind a.action = .extractText ∨ actionKind a.action = .extractHtml →
      '.' ∉ a.name.toList → ∀ s, Fits js.inherited types a.name (.str s) := by
    intro hkind hdot s
    obtain ⟨hfine, hseen | hfits⟩ := hfine hdot
    · rcases hkind with hkind | hkind <;> simp only [ActionFine, SeenAt, hkind] at hfine hseen <;>
        exact .of_plain rfl (by decide) hseen hfine
    · exact hfits _
  have harray : actionKind a.action = .filter ∨ actionKind a.action = .deduplicate →
      '.' ∉ a.name.toList → ∀ items, Fits js.inherited types a.name (.arr items) := by
    intro hkind hdot items
    obtain ⟨hfine, hseen | hfits⟩ := hfine hdot
    · rcases hkind with hkind | hkind <;> simp only [ActionFine, SeenAt, hkind] at hfine hseen <;>
        exact .of_plain rfl (by decide) hseen hfine
    · exact hfits _
  cases hkind : actionKind a.action with
  | extract =>
    simp only [hkind] at hexec
    exact handleExtract_stored hkind hfine h hexec
  | extractText =>
    simp only [hkind, handleExtractText] at hexec
    split at hexec
    · cases hexec
      exact h.store fun v hv hdot => some.inj hv ▸ hstring (.inl hkind) hdot _
    · split at hexec
      · cases hexec
      · cases hexec
        exact h.store fun v hv hdot => some.inj hv ▸ hstring (.inl hkind) hdot _
  | extractAttribute =>
    have hnull : '.' ∉ a.name.toList → (∀ el, answer.element = some el →
        page.getAttribute el a.attr = none) → Fits js.inherited types a.name .null := by
      intro hdot hmissing
      obtain ⟨hfine, hseen | hfits⟩ := hfine hdot
      · simp only [ActionFine, hkind] at hfine
        refine .null ?_
        by_contra hne
        obtain ⟨el, hel, hattr⟩ := hfine.2 hne
        rw [hmissing el hel] at hattr
        cases hattr
      · exact hfits _
    simp only [hkind, handleExtractAttribute] at hexec
    split at hexec
    · rename_i el hel
      cases hexec
      refine h.store fun v hv hdot => ?_
      split at hv
      · cases hv
        obtain ⟨hfine, hseen | hfits⟩ := hfine hdot
        · simp only [ActionFine, SeenAt, hkind] at hfine hseen
          exact .of_plain rfl (by decide) hseen hfine.1
        · exact hfits _
      · rename_i hattr
        cases hv
        exact hnull hdot fun el' hel' => by
          rw [hel] at hel'
          rw [← some.inj hel']
          exact hattr
    · rename_i hel
      split at hexec
      · cases hexec
      · cases hexec
        refine h.store fun v hv hdot => ?_
        cases hv
        exact hnull hdot fun el' hel' => by
          rw [hel] at hel'
          cases hel'
  | extractHtml =>
    simp only [hkind, handleExtractHtml] at hexec
    obtain ⟨el, -, rfl⟩ := map_eq_some_iff.mp hexec
    exact h.store fun v hv hdot => some.inj hv ▸ hstring (.inr hkind) hdot _
  | extractJson =>
    simp only [hkind, handleExtractJson] at hexec
    obtain ⟨el, hel, hmap⟩ := bind_eq_some_iff.mp hexec
    obtain ⟨x, hx, rfl⟩ := map_eq_some_iff.mp hmap
    refine h.store fun v hv hdot => ?_
    have hfine := (hfine hdot).1
    simp only [ActionFine, hkind] at hfine
    exact hfine el v hel (hv ▸ hx)
  | extractTable =>
    simp only [hkind, handleExtractTable] at hexec
    obtain ⟨el, -, rfl⟩ := map_eq_some_iff.mp hexec
    refine h.store fun v hv hdot => ?_
    have hfine := (hfine hdot).1
    simp only [ActionFine, hkind] at hfine
    exact .of_none hfine
  | extractPageInfo =>
    simp only [hkind, handleExtractPageInfo] at hexec
    cases hexec
    refine h.store fun v hv hdot => ?_
    cases hv
    obtain ⟨hfine, hseen | hfits⟩ := hfine hdot
    · simp only [ActionFine, SeenAt, hkind] at hfine hseen
      exact .of_below hfine fun type htype => by
        rcases hseen with hseen | hseen
        · exact absurd (hseen.symm.trans htype) (by simp)
        · exact hseen.symm.trans htype
    · exact hfits _
  | merge =>
    have hmerge : ∀ v, v.type = some (mergeType a.strategy) → '.' ∉ a.name.toList →
        Fits js.inherited types a.name v := by
      intro v hv hdot
      obtain ⟨hself, hbelow⟩ := by
        have hfine := (hfine hdot).1
        simpa only [ActionFine, hkind] using hfine
      by_cases hassign : a.strategy = "assign"
      · rw [if_pos hassign] at hbelow
        refine .of_below hbelow fun type htype => ?_
        rcases hself with hself | hself
        · exact absurd (hself.symm.trans htype) (by simp)
        · exact hv.trans (hself.symm.trans htype)
      · rw [if_neg hassign] at hbelow
        rw [mergeType, if_neg hassign] at hself hv
        exact .of_plain hv (by decide) hself hbelow
    simp only [hkind, handleMerge] at hexec
    split at hexec
    · rename_i hstrategy
      cases hexec
      exact h.store fun v hv hdot => hmerge v (by rw [← some.inj hv, hstrategy]; rfl) hdot
    · rename_i hstrategy
      cases hexec
      exact h.store fun v hv hdot => hmerge v (by rw [← some.inj hv, hstrategy]; rfl) hdot
    · rename_i hstrategy
      cases hexec
      exact h.store fun v hv hdot => hmerge v (by rw [← some.inj hv, hstrategy]; rfl) hdot
    · cases hexec
  | transform =>
    simp only [hkind, handleTransform] at hexec
    obtain ⟨data, hdata, rfl⟩ := map_eq_some_iff.mp hexec
    refine h.store fun v hv hdot => ?_
    have hfine := (hfine hdot).1
    simp only [ActionFine, hkind] at hfine
    obtain ⟨hbelow, known, hknown, hops, hself⟩ := hfine
    refine .of_below hbelow fun type htype => ?_
    rcases hself with hself | hself
    · exact absurd (hself.symm.trans htype) (by simp)
    · exact applyTransformOps_known hknown hops hdata type (hself.trans htype) v hv
  | filter =>
    simp only [hkind, handleFilter] at hexec
    cases hexec
    exact h.store fun v hv hdot => some.inj hv ▸ harray (.inl hkind) hdot _
  | deduplicate =>
    simp only [hkind, handleDeduplicate] at hexec
    cases hexec
    exact h.store fun v hv hdot => some.inj hv ▸ harray (.inr hkind) hdot _
  | other =>
    simp only [hkind] at hexec
    cases hexec
    exact h

end Handlers

/-- Every path with a known type holds a value of it, or none. -/
def WellTyped (js : Js) (types : Types) (extracted : Extracted) : Prop :=
  ∀ path type, types path = some type →
    ∀ v, getPath js.inherited (.obj extracted) path = some v → v.type = some type

/-- No variable with a known type has the name of an inherited property. -/
def RootsFine (js : Js) (types : Types) : Prop :=
  ∀ path type, types path = some type → ∀ name ∈ (split path '.').head?,
    js.inherited .object name = false

/-- Values that are stored as their types say are well typed. -/
theorem Stored.wellTyped (h : Stored js.inherited types extracted)
    (hroots : RootsFine js types) : WellTyped js types extracted := by
  intro path type htype v hv
  obtain ⟨name, keys, hsplit, hdot, hbelow⟩ := split_below path
  rw [getPath, hsplit, getKeys, member] at hv
  cases hlookup : extracted.lookup name with
  | some x =>
    rw [hlookup] at hv
    exact h name x (Assoc.mem_of_lookup hlookup) hdot keys type (hbelow ▸ htype) v hv
  | none =>
    have hname := hroots path type htype name (by simp [hsplit])
    rw [hlookup] at hv
    simp [builtin, hname] at hv

/-- One step that goes right stores a value of its type. -/
theorem step_stored {steps : List Step} {e : Event ν}
    (h : Stored js.inherited (collectKnownExtractionTypes steps).types extracted)
    (hfine : StepFine js steps extracted e) :
    Stored js.inherited (collectKnownExtractionTypes steps).types (step js extracted e) := by
  rw [step]
  cases hexec : executeAction js e.page e.answer (actionOf e.step) extracted with
  | none => exact h
  | some extracted' =>
    refine executeAction_stored (fun hdot => ?_) h hexec
    obtain ⟨hnamed, haction, hseen⟩ := hfine hdot
    exact ⟨haction, hnamed.seen (hseen.elim Collected.agrees id)⟩

/-- The types that the gate takes for known are sound for runs in which no step goes wrong. -/
theorem types_sound (js : Js) (steps : List Step)
    (hroots : RootsFine js (collectKnownExtractionTypes steps).types) (es : List (Event ν))
    (hfine : Meets (step js) (StepFine js steps) [] es) :
    Always (step js) (WellTyped js (collectKnownExtractionTypes steps).types) [] es := by
  have hempty : Stored js.inherited (collectKnownExtractionTypes steps).types [] :=
    fun _ _ h => absurd h not_mem_nil
  have hstored := hfine.always hempty fun extracted e h he => step_stored h he
  exact hstored.mono fun extracted h => h.wellTyped hroots

section Examples

def objectMembers : List String :=
  ["constructor", "hasOwnProperty", "isPrototypeOf", "propertyIsEnumerable", "toLocaleString",
    "toString", "valueOf", "__proto__"]

def browser : Js where
  inherited _ key := objectMembers.contains key
  parse _ := none
  regexp _ := none
  href _ := none
  regexOp _ s := s
  replaceOp _ s := s
  renamed _ key := key
  matchesCriteria _ _ := false
  date _ := none
  joined _ := ""

def tablePage : Page Unit where
  textContent _ := " Price 12 "
  innerHTML _ := ""
  outerHTML _ := "<table></table>"
  getAttribute _ _ := none
  querySelector _ _ := none
  isVisible _ := true
  propertyValue _ _ := ""
  childElementCount _ := 1
  headers _ := ["Price"]
  cells _ := [["12"]]
  url := "https://example.com/list"
  title := "List"
  domain := "example.com"
  timestamp := 0
  referrer := ""
  userAgent := ""

def found : Answer Unit where
  element := some ()
  elements := [()]
  path := ""
  sources := []
  ctxVariables := .obj []
  ctxEvaluated := .obj []
  keeps _ := true

def named (action name : String) : Step :=
  .mk { action := action, name := name, multiple := false, failOnEmpty := false, visible := false,
        fields := none, attr := "href", path := none, headers := none, info := [], strategy := "concat",
        source := "", keys := [], operations := [] } [] [] [] [] [] []

def comesTo (step : Step) : Event Unit := ⟨step, tablePage, found⟩

theorem length_below (path : String) (keys : List String) : path.length ≤ (below path keys).length := by
  rw [below]
  induction keys generalizing path with
  | nil => exact Nat.le_refl _
  | cons key keys ih =>
    rw [foldl_cons]
    refine Nat.le_trans ?_ (ih (path ++ "." ++ key))
    simp only [String.length_append]
    omega

theorem types_title (path : String) :
    (collectKnownExtractionTypes [named "extractText" "title"]).types path =
      if path = "title" then some .string else none := rfl

theorem types_sound_title : Always (step browser) (WellTyped browser
      (collectKnownExtractionTypes [named "extractText" "title"]).types) []
      [comesTo (named "extractText" "title")] := by
  refine types_sound browser _ (fun path type htype name hname => ?_) _
    ⟨fun _ => ⟨.inl ⟨rfl, by decide⟩, fun key keys known hknown => ?_,
      .inl (.here mem_cons_self)⟩, trivial⟩
  · rw [types_title] at htype
    split at htype
    · rename_i hpath
      rw [hpath] at hname
      obtain rfl : "title" = name := some.inj hname
      rfl
    · cases htype
  · rw [types_title] at hknown
    split at hknown
    · rename_i hpath
      have hlength := length_below ("title" ++ "." ++ key) keys
      have hsame : below ("title" ++ "." ++ key) keys = "title" := hpath
      rw [hsame] at hlength
      simp only [String.length_append] at hlength
      have htitle : "title".length = 5 := rfl
      have hdot : ".".length = 1 := rfl
      omega
    · cases hknown

/-- A table is taken for an array and stored as an object, and an attribute that is not there is
taken for a string and stored as `null`. -/
theorem types_unsound : (Occurs [named "extractTable" "prices"] (named "extractTable" "prices") ∧
        ¬ Always (step browser) (WellTyped browser
          (collectKnownExtractionTypes [named "extractTable" "prices"]).types) []
          [comesTo (named "extractTable" "prices")]) ∧
      (Occurs [named "extractAttribute" "link"] (named "extractAttribute" "link") ∧
        ¬ Always (step browser) (WellTyped browser
          (collectKnownExtractionTypes [named "extractAttribute" "link"]).types) []
          [comesTo (named "extractAttribute" "link")]) := by
  refine ⟨⟨.here mem_cons_self, fun h => ?_⟩, ⟨.here mem_cons_self, fun h => ?_⟩⟩
  · have htype := h.2 "prices" .array rfl _ rfl
    cases htype
  · have htype := h.2 "link" .string rfl _ rfl
    cases htype

end Examples

end Extraction

end Aegis
