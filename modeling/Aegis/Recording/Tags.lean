import Aegis.Recording.Sanitize

/-!
# Recording.Tags

The tags of a payload decide nothing: what the pass makes of a payload without its tags is what it
makes of the payload, without its tags (`sanitize_erase`).
-/

namespace Aegis

open List Option

namespace Sanitize

variable {ν τ : Type}

mutual

def erase : Payload ν τ → Payload ν Unit
  | .null => .null
  | .bool b => .bool b
  | .num n _ => .num n ()
  | .str s _ => .str s ()
  | .arr items => .arr (eraseItems items)
  | .obj fields => .obj (eraseFields fields)

def eraseItems : List (Payload ν τ) → List (Payload ν Unit)
  | [] => []
  | item :: items => erase item :: eraseItems items

def eraseFields : List (String × Payload ν τ) → List (String × Payload ν Unit)
  | [] => []
  | (key, item) :: fields => (key, erase item) :: eraseFields fields

end

section Views

variable {u : Unicode} {fields : List (String × Payload ν τ)} {items : List (Payload ν τ)}

@[simp] theorem eraseFields_cons (f : String × Payload ν τ) :
    eraseFields (f :: fields) = (f.1, erase f.2) :: eraseFields fields := rfl

theorem eraseItems_eq_map : eraseItems items = items.map erase := by
  induction items with
  | nil => rfl
  | cons item items ih => rw [eraseItems, ih, map_cons]

theorem length_eraseFields : (eraseFields fields).length = fields.length := by
  induction fields with
  | nil => rfl
  | cons f fields ih => rw [eraseFields_cons, length_cons, length_cons, ih]

theorem eraseFields_append {l : List (String × Payload ν τ)} :
    eraseFields (fields ++ l) = eraseFields fields ++ eraseFields l := by
  induction fields with
  | nil => rfl
  | cons f fields ih => rw [cons_append, eraseFields_cons, eraseFields_cons, ih, cons_append]

theorem lookup_eraseFields (key : String) :
    (eraseFields fields).lookup key = (fields.lookup key).map erase := by
  induction fields with
  | nil => rfl
  | cons f fields ih =>
    obtain ⟨k, item⟩ := f
    rw [eraseFields, lookup_cons, lookup_cons, ih]
    cases key == k <;> rfl

theorem textOf_map_erase (o : Option (Payload ν τ)) : textOf (o.map erase) = textOf o := by
  cases o with
  | none => rfl
  | some v => cases v <;> rfl

@[simp] theorem textOf_lookup_eraseFields (key : String) :
    textOf ((eraseFields fields).lookup key) = textOf (fields.lookup key) := by
  rw [lookup_eraseFields, textOf_map_erase]

@[simp] theorem semanticNode_eraseFields :
    semanticNode (eraseFields fields) = semanticNode fields := by
  simp [semanticNode]

@[simp] theorem isUnsafeSemanticNode_eraseFields :
    isUnsafeSemanticNode u (eraseFields fields) = isUnsafeSemanticNode u fields := by
  simp [isUnsafeSemanticNode]

@[simp] theorem semanticChildConvertible_eraseFields :
    semanticChildConvertible (eraseFields fields) = semanticChildConvertible fields := by
  simp [semanticChildConvertible]

theorem fieldHides_erase (key : String) (v : Payload ν τ) :
    fieldHides u key (erase v) = fieldHides u key v := by
  cases v <;> rfl

theorem attributeHides_erase (v : Payload ν τ) : attributeHides u (erase v) = attributeHides u v := by
  cases v <;> simp [erase, attributeHides]

theorem any_fieldHides_eraseFields : ((eraseFields fields).any fun f => fieldHides u f.1 f.2) =
    fields.any fun f => fieldHides u f.1 f.2 := by
  induction fields with
  | nil => rfl
  | cons f fields ih => rw [eraseFields_cons, any_cons, any_cons, ih, fieldHides_erase]

theorem itemsOf_map_erase (o : Option (Payload ν τ)) : itemsOf (o.map erase) = eraseItems (itemsOf o) := by
  cases o with
  | none => rfl
  | some v => cases v <;> rfl

theorem any_attributeHides_eraseItems :
    (eraseItems items).any (attributeHides u) = items.any (attributeHides u) := by
  induction items with
  | nil => rfl
  | cons item items ih => rw [eraseItems, any_cons, any_cons, ih, attributeHides_erase]

@[simp] theorem isHiddenInput_eraseFields :
    isHiddenInput u (eraseFields fields) = isHiddenInput u fields := by
  rw [isHiddenInput, isHiddenInput, any_fieldHides_eraseFields, lookup_eraseFields,
    itemsOf_map_erase, any_attributeHides_eraseItems]

@[simp] theorem nodeOf_erase (v : Payload ν τ) : nodeOf (erase v) = (nodeOf v).map eraseFields := by
  cases v <;> rfl

theorem any_isUnsafeSemanticNode_erase (o : Option (List (String × Payload ν τ))) :
    (o.map eraseFields).any (isUnsafeSemanticNode u) = o.any (isUnsafeSemanticNode u) := by
  cases o with
  | none => rfl
  | some fields =>
    rw [map_some, any_some, any_some, isUnsafeSemanticNode_eraseFields]

theorem any_semanticChildConvertible_erase (o : Option (List (String × Payload ν τ))) :
    (o.map eraseFields).any semanticChildConvertible = o.any semanticChildConvertible := by
  cases o with
  | none => rfl
  | some fields =>
    rw [map_some, any_some, any_some, semanticChildConvertible_eraseFields]

@[simp] theorem stringOf_erase (v : Payload ν τ) :
    stringOf (erase v) = (stringOf v).map fun r => (r.1, ()) := by
  cases v <;> rfl

end Views

section Evidence

variable {u : Unicode} {fields : List (String × Payload ν τ)}

namespace Evidence

theorem attributeName_erase (v : Payload ν τ) : attributeName u (erase v) = attributeName u v := by
  cases v <;> rfl

theorem isTrue_erase (v : Payload ν τ) : isTrue (erase v) = isTrue v := by
  cases v <;> rfl

theorem mapM_attributeName_erase (items : List (Payload ν τ)) :
    (eraseItems items).mapM (attributeName u) = items.mapM (attributeName u) := by
  induction items with
  | nil => rfl
  | cons item items ih => rw [eraseItems, mapM_cons, mapM_cons, ih, attributeName_erase]

theorem sanitizationAttributeNames_erase (v : Payload ν τ) :
    sanitizationAttributeNames u (erase v) = sanitizationAttributeNames u v := by
  cases v with
  | arr items =>
    rw [erase, sanitizationAttributeNames, sanitizationAttributeNames, mapM_attributeName_erase,
      eraseItems_eq_map, length_map, isEmpty_map]
  | _ => rfl

theorem read_erase (e : Evidence) (key : String) (v : Payload ν τ) :
    read u e key (erase v) = read u e key v := by
  rw [read, read, isTrue_erase, sanitizationAttributeNames_erase]

theorem foldlM_read_erase (e : Evidence) : (eraseFields fields).foldlM (fun e f => read u e f.1 f.2) e =
      fields.foldlM (fun e f => read u e f.1 f.2) e := by
  induction fields generalizing e with
  | nil => rfl
  | cons f fields ih =>
    rw [eraseFields_cons, foldlM_cons, foldlM_cons, read_erase]
    cases read u e f.1 f.2 with
    | none => rfl
    | some e => exact ih e

theorem normalize_erase (v : Payload ν τ) : normalize u (erase v) = normalize u v := by
  cases v with
  | obj fields =>
    have hempty : (eraseFields fields).isEmpty = fields.isEmpty := by cases fields <;> rfl
    rw [erase, normalize, normalize, foldlM_read_erase, hempty]
  | _ => rfl

theorem initial_erase : initial u (eraseFields fields) = initial u fields := by
  rw [initial, initial, textOf_lookup_eraseFields, lookup_eraseFields, lookup_eraseFields, isSome_map]
  cases fields.lookup "sanitization" with
  | none => rfl
  | some raw => simp only [map_some, normalize_erase]

theorem erase_jsonValue [Inhabited τ] (e : Evidence) :
    eraseFields (e.jsonValue : List (String × Payload ν τ)) = e.jsonValue := by
  have hnames : ∀ names : List String,
      eraseItems (names.map fun name => (.str name default : Payload ν τ)) =
        names.map fun name => .str name default := by
    intro names
    rw [eraseItems_eq_map, List.map_map]
    rfl
  rw [jsonValue, jsonValue, eraseFields_append, eraseFields_append]
  congr 1
  · congr 1
    · split
      · rfl
      · split
        · rfl
        · rw [eraseFields_cons, erase, hnames]
          rfl
    · split <;> rfl
  · split <;> rfl

end Evidence

end Evidence

section Values

variable [DecidableEq ν] {u : Unicode} {fields : List (String × Payload ν τ)}

mutual

theorem same_erase : ∀ v w : Payload ν τ, same (erase v) (erase w) = same v w
  | .null, w | .bool _, w | .num _ _, w | .str _ _, w => by
    cases w <;> simp [erase, same]
  | .arr l, .arr m => by
    rw [erase, erase, same, same, sameItems_erase l m, eraseItems_eq_map, eraseItems_eq_map,
      length_map, length_map]
  | .obj l, .obj m => by
    rw [erase, erase, same, same, sameFields_erase l m, length_eraseFields, length_eraseFields]
  | .arr _, .null | .arr _, .bool _ | .arr _, .num _ _ | .arr _, .str _ _ | .arr _, .obj _
  | .obj _, .null | .obj _, .bool _ | .obj _, .num _ _ | .obj _, .str _ _ | .obj _, .arr _ => by
    simp [erase, same]

theorem sameItems_erase : ∀ l m : List (Payload ν τ),
    sameItems (eraseItems l) (eraseItems m) = sameItems l m
  | [], m => by cases m <;> simp [eraseItems, sameItems]
  | v :: l, [] => by simp [eraseItems, sameItems]
  | v :: l, w :: m => by
    rw [eraseItems, eraseItems, sameItems, sameItems, same_erase v w, sameItems_erase l m]

theorem sameFields_erase : ∀ l m : List (String × Payload ν τ),
    sameFields (eraseFields l) (eraseFields m) = sameFields l m
  | [], m => by rw [eraseFields, sameFields, sameFields]
  | (key, v) :: l, m => by
    rw [eraseFields, sameFields, sameFields, sameFields_erase l m, lookup_eraseFields]
    cases m.lookup key with
    | none => rfl
    | some w =>
      rw [map_some]
      dsimp only
      rw [same_erase v w]

end

def Fields.erase (r : Fields ν τ) : Fields ν Unit := ⟨eraseFields r.fields, r.evidence, r.report⟩

def Attributes.erase (r : Attributes ν τ) : Attributes ν Unit :=
  ⟨eraseItems r.items, r.changed, r.altered, r.report⟩

def AttributeFields.erase (r : AttributeFields ν τ) : AttributeFields ν Unit :=
  ⟨eraseFields r.fields, r.changed, r.altered, r.report⟩

omit [DecidableEq ν] in
theorem AttributeFields.erase_cons {key : String} {clean : Payload ν τ} {changed : Bool}
    {altered : List String} {report : SanitizationReport} {rest : AttributeFields ν τ} :
    (rest.cons key clean changed altered report).erase =
      rest.erase.cons key (Sanitize.erase clean) changed altered report := rfl

def Children.erase (r : Children ν τ) : Children ν Unit := ⟨eraseItems r.items, r.omitted, r.report⟩

def eraseFst (r : Payload ν τ × SanitizationReport) : Payload ν Unit × SanitizationReport :=
  (Sanitize.erase r.1, r.2)

omit [DecidableEq ν] in
theorem eraseFields_put {key : String} {v : Payload ν τ} :
    eraseFields (put key v fields) = put key (erase v) (eraseFields fields) := by
  induction fields with
  | nil => rfl
  | cons f fields ih =>
    rw [put, eraseFields_cons, put]
    split
    · rfl
    · rw [eraseFields_cons, ih]

variable [Inhabited τ]

omit [DecidableEq ν] in
theorem eraseFst_finish {semantic : Bool} {r : Fields ν τ} :
    eraseFst (finish semantic r) = finish semantic r.erase := by
  have hempty : (r.evidence.jsonValue : List (String × Payload ν Unit)).isEmpty =
      (r.evidence.jsonValue : List (String × Payload ν τ)).isEmpty := by
    rw [← Evidence.erase_jsonValue (τ := τ)]
    cases (r.evidence.jsonValue : List (String × Payload ν τ)) <;> rfl
  unfold finish
  dsimp only [Fields.erase]
  rw [hempty]
  split
  · rw [eraseFst, erase, eraseFields_put, erase, Evidence.erase_jsonValue]
  · rfl

mutual

theorem sanitizeValue_erase (forced : Bool) : ∀ v : Payload ν τ,
    sanitizeValue u forced (erase v) = eraseFst (sanitizeValue u forced v)
  | .null => by rw [erase, sanitizeValue, sanitizeValue, eraseFst, erase]
  | .bool b => by cases forced <;> simp [erase, sanitizeValue, eraseFst]
  | .num n _ => by cases forced <;> simp [erase, sanitizeValue, eraseFst]
  | .str s _ => by cases forced <;> simp [erase, sanitizeValue, eraseFst]
  | .arr items => by
    rw [erase, sanitizeValue, sanitizeValue, sanitizeItems_erase forced items, eraseFst, erase]
  | .obj fields => by
    rw [erase, sanitizeValue, sanitizeValue, eraseFst_finish, semanticNode_eraseFields,
      isHiddenInput_eraseFields, Evidence.initial_erase, sanitizeFields_erase _ _ forced _ fields]

theorem sanitizeItems_erase (forced : Bool) : ∀ items : List (Payload ν τ),
    sanitizeItems u forced (eraseItems items) =
      (eraseItems (sanitizeItems u forced items).1, (sanitizeItems u forced items).2)
  | [] => by rw [eraseItems, sanitizeItems, sanitizeItems, eraseItems]
  | item :: items => by
    rw [eraseItems, sanitizeItems, sanitizeItems, nodeOf_erase, any_isUnsafeSemanticNode_erase,
      sanitizeItems_erase forced items, sanitizeValue_erase forced item]
    dsimp only
    split
    · rfl
    · rw [eraseFst, eraseItems]

theorem sanitizeFields_erase (semantic hiddenInput forced : Bool) (evidence : Evidence) :
    ∀ fields : List (String × Payload ν τ),
      sanitizeFields u semantic hiddenInput forced evidence (eraseFields fields) =
        (sanitizeFields u semantic hiddenInput forced evidence fields).erase
  | [] => by rw [eraseFields, sanitizeFields, sanitizeFields, Fields.erase, eraseFields]
  | (key, item) :: fields => by
    rw [eraseFields, sanitizeFields, sanitizeFields]
    cases fieldKind u semantic hiddenInput forced key with
    | provenance =>
      dsimp only
      rw [sanitizeFields_erase _ _ _ _ fields]
    | unsafeField =>
      dsimp only
      rw [sanitizeFields_erase _ _ _ _ fields]
      rfl
    | attributes =>
      dsimp only
      rw [sanitizeValue_erase false item, attributesOf_erase hiddenInput item,
        sanitizeFields_erase _ _ _ _ fields]
      cases attributesOf u hiddenInput item with
      | none =>
        rw [map_none]
        rfl
      | some out =>
        rw [map_some]
        rfl
    | children =>
      dsimp only
      rw [sanitizeValue_erase false item, childrenOf_erase item, sanitizeFields_erase _ _ _ _ fields]
      cases childrenOf u item with
      | none =>
        rw [map_none]
        rfl
      | some out =>
        rw [map_some]
        rfl
    | value redact =>
      dsimp only
      rw [sanitizeValue_erase redact item, eraseFst, same_erase, sanitizeFields_erase _ _ _ _ fields]
      rfl

theorem attributesOf_erase (sensitiveElement : Bool) : ∀ v : Payload ν τ,
    attributesOf u sensitiveElement (erase v) = (attributesOf u sensitiveElement v).map Attributes.erase
  | .arr attributes => by
    rw [erase, attributesOf, attributesOf, map_some, sanitizeAttributes_erase sensitiveElement attributes]
  | .null | .bool _ | .num _ _ | .str _ _ | .obj _ => rfl

theorem sanitizeAttributes_erase (sensitiveElement : Bool) : ∀ items : List (Payload ν τ),
    sanitizeAttributes u sensitiveElement (eraseItems items) =
      (sanitizeAttributes u sensitiveElement items).erase
  | [] => by rw [eraseItems, sanitizeAttributes, sanitizeAttributes, Attributes.erase, eraseItems]
  | item :: items => by
    rw [eraseItems, sanitizeAttributes, sanitizeAttributes, attributeOf_erase sensitiveElement item,
      sanitizeAttributes_erase sensitiveElement items, sanitizeValue_erase false item]
    cases attributeOf u sensitiveElement item with
    | none =>
      rw [map_none]
      rfl
    | some kept =>
      rw [map_some]
      cases kept with
      | none =>
        rw [map_none]
        rfl
      | some clean =>
        rw [map_some]
        rfl

theorem attributeOf_erase (sensitiveElement : Bool) : ∀ v : Payload ν τ,
    attributeOf u sensitiveElement (erase v) =
      (attributeOf u sensitiveElement v).map (Option.map AttributeFields.erase)
  | .obj a => by
    rw [erase, attributeOf, attributeOf, textOf_lookup_eraseFields]
    split
    · rfl
    · rw [map_some, map_some, sanitizeAttribute_erase _ _ a]
  | .null | .bool _ | .num _ _ | .str _ _ | .arr _ => rfl

theorem sanitizeAttribute_erase (name : String) (sensitiveElement : Bool) :
    ∀ fields : List (String × Payload ν τ),
      sanitizeAttribute u name sensitiveElement (eraseFields fields) =
        (sanitizeAttribute u name sensitiveElement fields).erase
  | [] => by
    rw [eraseFields, sanitizeAttribute, sanitizeAttribute, AttributeFields.erase, eraseFields]
  | (key, raw) :: fields => by
    rw [eraseFields, sanitizeAttribute, sanitizeAttribute, sanitizeAttribute_erase _ _ fields,
      stringOf_erase, sanitizeValue_erase false raw, sanitizeValue_erase _ raw]
    dsimp only [eraseFst]
    rw [same_erase, same_erase]
    split
    · rw [AttributeFields.erase_cons]
    · cases stringOf raw with
      | some r =>
        rw [map_some]
        dsimp only
        rw [AttributeFields.erase_cons, erase]
      | none =>
        rw [map_none]
        dsimp only
        rw [AttributeFields.erase_cons]

theorem childrenOf_erase : ∀ v : Payload ν τ, childrenOf u (erase v) = (childrenOf u v).map Children.erase
  | .arr children => by
    rw [erase, childrenOf, childrenOf, map_some, sanitizeChildren_erase children]
  | .null | .bool _ | .num _ _ | .str _ _ | .obj _ => rfl

theorem sanitizeChildren_erase : ∀ items : List (Payload ν τ),
    sanitizeChildren u (eraseItems items) = (sanitizeChildren u items).erase
  | [] => by rw [eraseItems, sanitizeChildren, sanitizeChildren, Children.erase, eraseItems]
  | item :: items => by
    rw [eraseItems, sanitizeChildren, sanitizeChildren, nodeOf_erase,
      sanitizeChildren_erase items, sanitizeValue_erase false item]
    cases nodeOf item with
    | none =>
      rw [map_none]
      rfl
    | some node =>
      rw [map_some]
      dsimp only
      rw [semanticChildConvertible_eraseFields, isUnsafeSemanticNode_eraseFields]
      split
      · rfl
      · rw [eraseFst, nodeOf_erase, any_semanticChildConvertible_erase]
        split <;> rfl

end

/-- The pass reads no tag. -/
theorem sanitize_erase : sanitize u (eraseFields fields) =
    (eraseFields (sanitize u fields).1, (sanitize u fields).2) := by
  have hvalue := sanitizeValue_erase (u := u) false (.obj fields)
  rw [erase] at hvalue
  rw [sanitize, hvalue, sanitize, eraseFst, nodeOf_erase]
  cases nodeOf (sanitizeValue u false (.obj fields)).1 <;> rfl

end Values

end Sanitize

end Aegis
