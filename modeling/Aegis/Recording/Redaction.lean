import Aegis.Recording.Tags

/-!
# Recording.Redaction

What becomes of the values beneath a sensitive key.

The tag of a leaf says whether it lies beneath a sensitive key of the payload (`mark`), and a
payload is `redacted` when each such leaf is the marker. The flag that forces the redaction reaches
a leaf or is lost on the way (`reached`), and that decides it.
-/

namespace Aegis

open List Option

namespace Sanitize

variable {ν : Type} (u : Unicode)

mutual

/-- The payload, with the leaves beneath a sensitive key tagged; `beneath` if all of it is. -/
def mark (beneath : Bool) : Payload ν Unit → Payload ν Bool
  | .null => .null
  | .bool b => .bool b
  | .num n _ => .num n beneath
  | .str s _ => .str s beneath
  | .arr items => .arr (markItems beneath items)
  | .obj fields => .obj (markFields beneath fields)

def markItems (beneath : Bool) : List (Payload ν Unit) → List (Payload ν Bool)
  | [] => []
  | item :: items => mark beneath item :: markItems beneath items

def markFields (beneath : Bool) : List (String × Payload ν Unit) → List (String × Payload ν Bool)
  | [] => []
  | (key, item) :: fields =>
    (key, mark (beneath || isSensitiveKey u key) item) :: markFields beneath fields

end

mutual

def redacted : Payload ν Bool → Bool
  | .null | .bool _ => true
  | .num _ tag => !tag
  | .str s tag => !tag || s == redactedMarker
  | .arr items => redactedItems items
  | .obj fields => redactedFields fields

def redactedItems : List (Payload ν Bool) → Bool
  | [] => true
  | item :: items => redacted item && redactedItems items

def redactedFields : List (String × Payload ν Bool) → Bool
  | [] => true
  | (_, item) :: fields => redacted item && redactedFields fields

end

/-! ## The flag -/

def attributeTextRedacted (name : String) (sensitiveElement : Bool) (text : String) : Bool :=
  if isSensitiveKey u name ||
      (sensitiveElement && isSensitiveSemanticValueAttribute (normalizeKey u name)) then text != ""
  else if isURLAttribute (normalizeKey u name) then
    (sanitizeSemanticURL u text).1 == redactedMarker
  else redactText text == redactedMarker

mutual

/-- Every string and number beneath a sensitive key that is kept is forced to be redacted, or is
a text that the patterns replace whole. `forced` is the flag, and `beneath` says that all of the
value is beneath a sensitive key. -/
def reached (forced beneath : Bool) : Payload ν Unit → Bool
  | .null | .bool _ => true
  | .num _ _ => !beneath || forced
  | .str s _ => !beneath || forced || redactText s == redactedMarker
  | .arr items => reachedItems forced beneath items
  | .obj fields =>
    reachedFields (semanticNode fields) (isHiddenInput u fields) forced beneath fields

def reachedItems (forced beneath : Bool) : List (Payload ν Unit) → Bool
  | [] => true
  | item :: items =>
    ((nodeOf item).any (isUnsafeSemanticNode u) || reached forced beneath item) &&
      reachedItems forced beneath items

def reachedFields (semantic hiddenInput forced beneath : Bool) : List (String × Payload ν Unit) → Bool
  | [] => true
  | (key, item) :: fields =>
    (match fieldKind u semantic hiddenInput forced key with
      | .provenance | .unsafeField => true
      -- the flag is lost in attributes and in children
      | .attributes =>
        (attributesReached hiddenInput (beneath || isSensitiveKey u key) item).getD
          (reached false (beneath || isSensitiveKey u key) item)
      | .children =>
        (childrenReached (beneath || isSensitiveKey u key) item).getD
          (reached false (beneath || isSensitiveKey u key) item)
      | .value redact => reached redact (beneath || isSensitiveKey u key) item) &&
      reachedFields semantic hiddenInput forced beneath fields

def attributesReached (sensitiveElement beneath : Bool) : Payload ν Unit → Option Bool
  | .arr attributes => some (reachedAttributes sensitiveElement beneath attributes)
  | _ => none

def reachedAttributes (sensitiveElement beneath : Bool) : List (Payload ν Unit) → Bool
  | [] => true
  | item :: items =>
    (match attributeReached sensitiveElement beneath item with
      | none => reached false beneath item
      | some kept => kept.getD true) && reachedAttributes sensitiveElement beneath items

def attributeReached (sensitiveElement beneath : Bool) : Payload ν Unit → Option (Option Bool)
  | .obj a =>
    let name := textOf (a.lookup "name")
    if isUnsafeSemanticAttribute u name then some none
    else some (some (reachedAttribute name sensitiveElement beneath a))
  | _ => none

def reachedAttribute (name : String) (sensitiveElement beneath : Bool) :
    List (String × Payload ν Unit) → Bool
  | [] => true
  | (key, raw) :: fields =>
    (if normalizeKey u key != "value" then reached false (beneath || isSensitiveKey u key) raw
      else match stringOf raw with
        | some (text, _) => !(beneath || isSensitiveKey u key) ||
          attributeTextRedacted u name sensitiveElement text
        | none => reached (sensitiveElement || isSensitiveKey u name)
          (beneath || isSensitiveKey u key) raw) &&
      reachedAttribute name sensitiveElement beneath fields

def childrenReached (beneath : Bool) : Payload ν Unit → Option Bool
  | .arr children => some (reachedChildren beneath children)
  | _ => none

def reachedChildren (beneath : Bool) : List (Payload ν Unit) → Bool
  | [] => true
  | item :: items =>
    (match nodeOf item with
      | none => true
      | some node => !semanticChildConvertible node || isUnsafeSemanticNode u node ||
        reached false beneath item) && reachedChildren beneath items

end

section Views

variable {u} {beneath : Bool}

mutual

theorem erase_mark : ∀ (beneath : Bool) (v : Payload ν Unit), erase (mark u beneath v) = v
  | _, .null | _, .bool _ | _, .num _ _ | _, .str _ _ => rfl
  | beneath, .arr items => by rw [mark, erase, eraseItems_markItems beneath items]
  | beneath, .obj fields => by rw [mark, erase, eraseFields_markFields beneath fields]

theorem eraseItems_markItems : ∀ (beneath : Bool) (items : List (Payload ν Unit)),
    eraseItems (markItems u beneath items) = items
  | _, [] => rfl
  | beneath, item :: items => by
    rw [markItems, eraseItems, erase_mark beneath item, eraseItems_markItems beneath items]

theorem eraseFields_markFields : ∀ (beneath : Bool) (fields : List (String × Payload ν Unit)),
    eraseFields (markFields u beneath fields) = fields
  | _, [] => rfl
  | beneath, (key, item) :: fields => by
    rw [markFields, eraseFields, erase_mark _ item, eraseFields_markFields beneath fields]

end

variable {fields : List (String × Payload ν Unit)}

theorem textOf_lookup_markFields (key : String) :
    textOf ((markFields u beneath fields).lookup key) = textOf (fields.lookup key) := by
  rw [← textOf_lookup_eraseFields, eraseFields_markFields]

theorem semanticNode_markFields : semanticNode (markFields u beneath fields) = semanticNode fields := by
  rw [← semanticNode_eraseFields, eraseFields_markFields]

theorem isUnsafeSemanticNode_markFields :
    isUnsafeSemanticNode u (markFields u beneath fields) = isUnsafeSemanticNode u fields := by
  rw [← isUnsafeSemanticNode_eraseFields, eraseFields_markFields]

theorem semanticChildConvertible_markFields :
    semanticChildConvertible (markFields u beneath fields) = semanticChildConvertible fields := by
  rw [← semanticChildConvertible_eraseFields, eraseFields_markFields]

theorem isHiddenInput_markFields :
    isHiddenInput u (markFields u beneath fields) = isHiddenInput u fields := by
  rw [← isHiddenInput_eraseFields, eraseFields_markFields]

theorem nodeOf_mark (v : Payload ν Unit) :
    nodeOf (mark u beneath v) = (nodeOf v).map (markFields u beneath) := by
  cases v <;> rfl

theorem stringOf_mark (v : Payload ν Unit) :
    stringOf (mark u beneath v) = (stringOf v).map fun r => (r.1, beneath) := by
  cases v <;> rfl

theorem any_isUnsafeSemanticNode_map (o : Option (List (String × Payload ν Unit))) :
    (o.map (markFields u beneath)).any (isUnsafeSemanticNode u) = o.any (isUnsafeSemanticNode u) := by
  cases o with
  | none => rfl
  | some fields =>
    rw [map_some, any_some, any_some, isUnsafeSemanticNode_markFields]

end Views

section Written

variable {u}

theorem redactedFields_put {key : String} {value : Payload ν Bool}
    {fields : List (String × Payload ν Bool)} :
    redactedFields (put key value fields) = (redacted value && redactedFields fields) := by
  induction fields with
  | nil => rfl
  | cons f fields ih =>
    rw [put]
    split
    · rfl
    · rw [redactedFields, redactedFields, ih, Bool.and_left_comm]

theorem redactedItems_names (names : List String) :
    redactedItems (ν := ν) (names.map fun name => .str name false) = true := by
  induction names with
  | nil => rfl
  | cons name names ih =>
    rw [map_cons, redactedItems, ih]
    rfl

theorem redactedFields_append {l m : List (String × Payload ν Bool)} :
    redactedFields (l ++ m) = (redactedFields l && redactedFields m) := by
  induction l with
  | nil => rfl
  | cons f l ih => rw [cons_append, redactedFields, redactedFields, ih, Bool.and_assoc]

theorem redactedFields_jsonValue (e : Evidence) :
    redactedFields (e.jsonValue : List (String × Payload ν Bool)) := by
  unfold Evidence.jsonValue
  rw [redactedFields_append, redactedFields_append]
  have hnames : redactedFields (ν := ν) (if e.allAttrsAltered then
      [("alteredAttributes", .arr [.str "*" default])]
      else if e.alteredAttrs.isEmpty then []
      else [("alteredAttributes",
        .arr ((e.alteredAttrs.mergeSort (· ≤ ·)).map fun name => .str name default))]) = true := by
    split
    · rfl
    · split
      · rfl
      · simp [redactedFields, redacted, redactedItems_names]
  rw [hnames]
  split <;> split <;> rfl

@[simp] theorem redacted_finish {semantic : Bool} {r : Fields ν Bool} :
    redacted (finish semantic r).1 = redactedFields r.fields := by
  unfold finish
  dsimp only
  split
  · rw [redacted, redactedFields_put, redacted, redactedFields_jsonValue, Bool.true_and]
  · rfl

end Written

section Kept

variable {u}

theorem replaceAll_eq_or_mem (r : Regex) (s : String) :
    r.replaceAll redactedMarker s = s ∨ '[' ∈ (r.replaceAll redactedMarker s).toList := by
  unfold Regex.replaceAll
  rcases Regex.replaceFrom_eq_or_mem r redactedMarker.toList s.toList none rfl with hsame | hmem
  · exact .inl (by rw [hsame, String.ofList_toList])
  · refine .inr ?_
    rw [String.toList_ofList]
    exact hmem '[' (by decide)

theorem foldl_replaceAll_eq_or_mem (l : List Regex) {s t : String} (h : t = s ∨ '[' ∈ t.toList) :
    l.foldl (fun s pattern => pattern.replaceAll redactedMarker s) t = s ∨
      '[' ∈ (l.foldl (fun s pattern => pattern.replaceAll redactedMarker s) t).toList := by
  induction l generalizing t with
  | nil => exact h
  | cons r l ih =>
    rw [foldl_cons]
    refine ih ?_
    rcases replaceAll_eq_or_mem r t with hsame | hmem
    · rw [hsame]
      exact h
    · exact .inr hmem

theorem mem_dropWhile {p : Char → Bool} {c : Char} {l : List Char} (h : c ∈ l) (hp : p c = false) :
    c ∈ l.dropWhile p := by
  induction l with
  | nil => cases h
  | cons a l ih =>
    rw [dropWhile_cons]
    split
    · rename_i ha
      rcases mem_cons.mp h with rfl | hl
      · rw [hp] at ha
        cases ha
      · exact ih hl
    · exact h

theorem trimSpace_ne_empty {s : String} {c : Char} (h : c ∈ s.toList) (hc : isSpace c = false) :
    trimSpace s ≠ "" := by
  intro hempty
  have hmem : c ∈ (trimSpace s).toList := by
    rw [trimSpace, String.toList_ofList, mem_reverse]
    exact mem_dropWhile (mem_reverse.mpr (mem_dropWhile h hc)) hc
  rw [hempty] at hmem
  cases hmem

theorem trimSpace_redactText {s : String} (h : trimSpace s ≠ "") : trimSpace (redactText s) ≠ "" := by
  unfold redactText
  rcases foldl_replaceAll_eq_or_mem sensitiveTextPatterns (.inl rfl) with hsame | hmem
  · rw [hsame]
    exact h
  · exact trimSpace_ne_empty hmem (by decide)

variable {τ : Type} [DecidableEq ν] [Inhabited τ] {fields : List (String × Payload ν τ)}
  {semantic hiddenInput forced redact : Bool} {evidence : Evidence}

theorem lookup_sanitizeFields {key : String}
    (hkind : fieldKind u semantic hiddenInput forced key = .value redact) :
    (sanitizeFields u semantic hiddenInput forced evidence fields).fields.lookup key =
      (fields.lookup key).map fun v => (sanitizeValue u redact v).1 := by
  induction fields generalizing evidence with
  | nil => rfl
  | cons f fields ih =>
    obtain ⟨k, item⟩ := f
    rw [sanitizeFields, lookup_cons]
    cases hk : key == k with
    | true =>
      obtain rfl := eq_of_beq hk
      rw [hkind]
      simp [Fields.cons]
    | false =>
      split
      · exact ih
      · exact ih
      all_goals
        rw [Fields.cons, lookup_cons, hk]
        exact ih

omit [DecidableEq ν] [Inhabited τ] in
theorem lookup_put {key k : String} {v : Payload ν τ} (hne : key ≠ k) :
    (put k v fields).lookup key = fields.lookup key := by
  have hk : (key == k) = false := by simpa using hne
  induction fields with
  | nil => rw [put, lookup_cons, hk]
  | cons f fields ih =>
    rw [put]
    split
    · rw [lookup_cons, hk]
    · rw [lookup_cons, lookup_cons, ih]

omit [DecidableEq ν] in
theorem lookup_finish (semantic : Bool) (r : Fields ν τ) : ∃ clean,
    nodeOf (finish semantic r).1 = some clean ∧
    ∀ key, key ≠ "sanitization" → clean.lookup key = r.fields.lookup key := by
  unfold finish
  dsimp only
  split
  · exact ⟨_, rfl, fun key hne => lookup_put hne⟩
  · exact ⟨_, rfl, fun key _ => rfl⟩

theorem toLower_of_ascii {s : String} (h : s.toList.all (·.toNat < 128)) :
    toLower u s = String.ofList (s.toList.map Char.toLower) := by
  have hmap : s.toList.map (lower u) = s.toList.map Char.toLower :=
    map_congr_left fun c hc => if_pos (of_decide_eq_true (List.all_eq_true.mp h c hc))
  rw [toLower, hmap]

theorem fieldKind_plain {key : String} (h : key.toList.all (·.toNat < 128))
    (htrim : trimSpace key = key)
    (hplain : ∀ semantic hiddenInput, fieldKind ⟨id⟩ semantic hiddenInput false key = .value false) :
    fieldKind u semantic hiddenInput false key = .value false := by
  have hlower : toLower u key = toLower ⟨id⟩ key := by
    rw [toLower_of_ascii h, toLower_of_ascii h]
  have hkey : normalizeKey u key = normalizeKey ⟨id⟩ key := by rw [normalizeKey, normalizeKey, hlower]
  have hunsafe : isUnsafeSemanticField u key = isUnsafeSemanticField ⟨id⟩ key := by
    rw [isUnsafeSemanticField, isUnsafeSemanticField, hkey, htrim, hlower]
  refine Eq.trans ?_ (hplain semantic hiddenInput)
  rw [fieldKind, fieldKind, isSensitiveKey, isSensitiveKey, isValueField, isValueField, hkey, hunsafe]

theorem fieldKind_type : fieldKind u semantic hiddenInput false "type" = .value false :=
  fieldKind_plain (by decide) (by decide) (by decide +kernel)

theorem fieldKind_tagName : fieldKind u semantic hiddenInput false "tagName" = .value false :=
  fieldKind_plain (by decide) (by decide) (by decide +kernel)

theorem textOf_map_sanitizeValue (o : Option (Payload ν τ)) :
    textOf (o.map fun v => (sanitizeValue u false v).1) = redactText (textOf o) := by
  have hempty : redactText "" = "" := by decide
  cases o with
  | none => exact hempty.symm
  | some v =>
    cases v with
    | str s tag => rfl
    | _ => exact hempty.symm

theorem semanticChildConvertible_sanitizeValue (h : semanticChildConvertible fields) :
    (nodeOf (sanitizeValue u false (.obj fields)).1).any semanticChildConvertible := by
  obtain ⟨clean, hclean, hlookup⟩ := lookup_finish (semanticNode fields)
    (sanitizeFields u (semanticNode fields) (isHiddenInput u fields) false
      (if semanticNode fields then Evidence.initial u fields else .none) fields)
  have htype := hlookup "type" (by decide)
  have htag := hlookup "tagName" (by decide)
  rw [lookup_sanitizeFields fieldKind_type] at htype
  rw [lookup_sanitizeFields fieldKind_tagName] at htag
  rw [sanitizeValue, hclean, any_some]
  unfold semanticChildConvertible at h ⊢
  rw [htype, htag, textOf_map_sanitizeValue, textOf_map_sanitizeValue]
  simp only [Bool.or_eq_true, Bool.and_eq_true, beq_iff_eq, bne_iff_ne] at h ⊢
  rcases h with htext | ⟨helement, hname⟩
  · left
    rw [htext]
    decide
  · right
    rw [helement]
    exact ⟨by decide, trimSpace_redactText hname⟩

end Kept

section Decides

variable {u} [DecidableEq ν]

theorem attributeText_redacted {name text : String} {sensitiveElement : Bool} :
    ((sanitizeAttributeText u name sensitiveElement text).1 == redactedMarker) =
      attributeTextRedacted u name sensitiveElement text := by
  unfold sanitizeAttributeText attributeTextRedacted
  dsimp only
  split
  · by_cases htext : text = ""
    · subst htext
      rfl
    · simp [htext]
  · split
    · dsimp only
    · dsimp only [sanitizeText]

mutual

/-- What the pass has redacted of a marked value is what the flag reaches. -/
theorem redacted_sanitizeValue (forced beneath : Bool) : ∀ v : Payload ν Unit,
      redacted (sanitizeValue u forced (mark u beneath v)).1 = reached u forced beneath v
  | .null => rfl
  | .bool b => by cases forced <;> rfl
  | .num n _ => by cases forced <;> simp [mark, sanitizeValue, reached, redacted]
  | .str s _ => by cases forced <;> simp [mark, sanitizeValue, reached, redacted, sanitizeText]
  | .arr items => by
    rw [mark, sanitizeValue, redacted, reached, redacted_sanitizeItems forced beneath items]
  | .obj fields => by
    rw [mark, sanitizeValue, redacted_finish, reached, semanticNode_markFields,
      isHiddenInput_markFields, redacted_sanitizeFields _ _ forced beneath _ fields]

theorem redacted_sanitizeItems (forced beneath : Bool) : ∀ items : List (Payload ν Unit),
      redactedItems (sanitizeItems u forced (markItems u beneath items)).1 =
        reachedItems u forced beneath items
  | [] => by rw [markItems, sanitizeItems, reachedItems, redactedItems]
  | item :: items => by
    rw [markItems, sanitizeItems, reachedItems, nodeOf_mark, any_isUnsafeSemanticNode_map]
    dsimp only
    split
    · rename_i h
      rw [h, redacted_sanitizeItems forced beneath items, Bool.true_or, Bool.true_and]
    · rename_i h
      rw [redactedItems, redacted_sanitizeValue forced beneath item,
        redacted_sanitizeItems forced beneath items, Bool.eq_false_iff.mpr h, Bool.false_or]

theorem redacted_sanitizeFields (semantic hiddenInput forced beneath : Bool)
    (evidence : Evidence) : ∀ fields : List (String × Payload ν Unit),
      redactedFields (sanitizeFields u semantic hiddenInput forced evidence
        (markFields u beneath fields)).fields = reachedFields u semantic hiddenInput forced beneath fields
  | [] => by rw [markFields, sanitizeFields, reachedFields, redactedFields]
  | (key, item) :: fields => by
    rw [markFields, sanitizeFields, reachedFields]
    cases fieldKind u semantic hiddenInput forced key with
    | provenance =>
      dsimp only
      rw [redacted_sanitizeFields _ _ _ _ _ fields, Bool.true_and]
    | unsafeField =>
      dsimp only [Fields.drop]
      rw [redacted_sanitizeFields _ _ _ _ _ fields, Bool.true_and]
    | attributes =>
      dsimp only
      rw [Fields.cons, redactedFields, redacted_sanitizeFields _ _ _ _ _ fields,
        ← redacted_attributesOf hiddenInput _ item, ← redacted_sanitizeValue false _ item]
      cases attributesOf u hiddenInput (mark u (beneath || isSensitiveKey u key) item) with
      | none => rw [semanticAttributes, map_none, getD_none]
      | some out => rw [semanticAttributes, map_some, getD_some, redacted]
    | children =>
      dsimp only
      rw [Fields.cons, redactedFields, redacted_sanitizeFields _ _ _ _ _ fields,
        ← redacted_childrenOf _ item, ← redacted_sanitizeValue false _ item]
      cases childrenOf u (mark u (beneath || isSensitiveKey u key) item) with
      | none => rw [semanticChildren, map_none, getD_none]
      | some out => rw [semanticChildren, map_some, getD_some, redacted]
    | value redact =>
      dsimp only
      rw [Fields.cons, redactedFields, redacted_sanitizeFields _ _ _ _ _ fields,
        redacted_sanitizeValue redact _ item]

theorem redacted_attributesOf (sensitiveElement beneath : Bool) : ∀ v : Payload ν Unit,
    (attributesOf u sensitiveElement (mark u beneath v)).map (redactedItems ·.items) =
      attributesReached u sensitiveElement beneath v
  | .arr attributes => by
    rw [mark, attributesOf, attributesReached, map_some,
      redacted_sanitizeAttributes sensitiveElement beneath attributes]
  | .null | .bool _ | .num _ _ | .str _ _ | .obj _ => rfl

theorem redacted_sanitizeAttributes (sensitiveElement beneath : Bool) : ∀ items : List (Payload ν Unit),
      redactedItems (sanitizeAttributes u sensitiveElement (markItems u beneath items)).items =
        reachedAttributes u sensitiveElement beneath items
  | [] => by rw [markItems, sanitizeAttributes, reachedAttributes, redactedItems]
  | item :: items => by
    rw [markItems, sanitizeAttributes, reachedAttributes,
      ← redacted_attributeOf sensitiveElement beneath item]
    cases attributeOf u sensitiveElement (mark u beneath item) with
    | none =>
      rw [map_none]
      dsimp only
      rw [redactedItems, redacted_sanitizeAttributes _ _ items, redacted_sanitizeValue false _ item]
    | some kept =>
      rw [map_some]
      dsimp only
      cases kept with
      | none =>
        rw [map_none, getD_none, Bool.true_and]
        exact redacted_sanitizeAttributes _ _ items
      | some clean =>
        dsimp only
        rw [map_some, getD_some, redactedItems, redacted, redacted_sanitizeAttributes _ _ items]

theorem redacted_attributeOf (sensitiveElement beneath : Bool) : ∀ v : Payload ν Unit,
    (attributeOf u sensitiveElement (mark u beneath v)).map
        (Option.map (redactedFields ·.fields)) =
      attributeReached u sensitiveElement beneath v
  | .obj a => by
    rw [mark, attributeOf, attributeReached, textOf_lookup_markFields]
    split
    · rfl
    · rw [map_some, map_some, redacted_sanitizeAttribute _ _ _ a]
  | .null | .bool _ | .num _ _ | .str _ _ | .arr _ => rfl

theorem redacted_sanitizeAttribute (name : String) (sensitiveElement beneath : Bool) :
    ∀ fields : List (String × Payload ν Unit),
      redactedFields (sanitizeAttribute u name sensitiveElement (markFields u beneath fields)).fields =
          reachedAttribute u name sensitiveElement beneath fields
  | [] => by rw [markFields, sanitizeAttribute, reachedAttribute, redactedFields]
  | (key, raw) :: fields => by
    rw [markFields, sanitizeAttribute, reachedAttribute]
    dsimp only
    split
    · rw [AttributeFields.cons, redactedFields, redacted_sanitizeAttribute _ _ _ fields,
        redacted_sanitizeValue false _ raw]
    · rw [stringOf_mark]
      cases stringOf raw with
      | some r =>
        rw [map_some]
        dsimp only
        rw [AttributeFields.cons, redactedFields, redacted_sanitizeAttribute _ _ _ fields, redacted,
          attributeText_redacted]
      | none =>
        rw [map_none]
        dsimp only
        rw [AttributeFields.cons, redactedFields, redacted_sanitizeAttribute _ _ _ fields,
          redacted_sanitizeValue _ _ raw]

theorem redacted_childrenOf (beneath : Bool) : ∀ v : Payload ν Unit,
    (childrenOf u (mark u beneath v)).map (redactedItems ·.items) = childrenReached u beneath v
  | .arr children => by
    rw [mark, childrenOf, childrenReached, map_some, redacted_sanitizeChildren beneath children]
  | .null | .bool _ | .num _ _ | .str _ _ | .obj _ => rfl

theorem redacted_sanitizeChildren (beneath : Bool) : ∀ items : List (Payload ν Unit),
    redactedItems (sanitizeChildren u (markItems u beneath items)).items = reachedChildren u beneath items
  | [] => by rw [markItems, sanitizeChildren, reachedChildren, redactedItems]
  | item :: items => by
    rw [markItems, sanitizeChildren, reachedChildren, nodeOf_mark]
    cases hnode : nodeOf item with
    | none =>
      rw [map_none]
      dsimp only [Children.drop]
      rw [redacted_sanitizeChildren beneath items, Bool.true_and]
    | some node =>
      rw [map_some]
      dsimp only
      rw [semanticChildConvertible_markFields, isUnsafeSemanticNode_markFields]
      split
      · rename_i h
        rw [h, Bool.true_or, Bool.true_and]
        exact redacted_sanitizeChildren beneath items
      · rename_i h
        simp only [Bool.or_eq_true, Bool.not_eq_true', not_or, Bool.not_eq_false, Bool.not_eq_true] at h
        have hobj : item = .obj node := by
          cases item <;> simp_all [nodeOf]
        have hkept : (nodeOf (sanitizeValue u false (mark u beneath item)).1).any
            semanticChildConvertible := by
          rw [hobj]
          exact semanticChildConvertible_sanitizeValue
            (by rw [semanticChildConvertible_markFields]; exact h.1)
        rw [if_pos hkept, h.1, h.2, redactedItems, redacted_sanitizeValue false beneath item,
          redacted_sanitizeChildren beneath items, Bool.not_true, Bool.false_or, Bool.false_or]

end

end Decides

/-- Each string and number beneath a sensitive key of the payload is the marker where the pass
leaves it at all. -/
def SecretsRedacted [DecidableEq ν] (payload : List (String × Payload ν Unit)) : Prop :=
  redactedFields (sanitize u (markFields u false payload)).1 = true

/-- The flag reaches every sensitive key of the payload. -/
def SecretsReached (payload : List (String × Payload ν Unit)) : Prop :=
  reached u false false (.obj payload) = true

instance [DecidableEq ν] (payload : List (String × Payload ν Unit)) :
    Decidable (SecretsRedacted u payload) := inferInstanceAs (Decidable (_ = true))

/-- What lies beneath a sensitive key is redacted exactly when the flag reaches it. The tags tell
what lies beneath, and the pass does with them what it does without. -/
theorem secrets_redacted_iff [DecidableEq ν] (payload : List (String × Payload ν Unit)) :
    ((eraseFields (sanitize u (markFields u false payload)).1,
        (sanitize u (markFields u false payload)).2) = sanitize u payload) ∧
      (SecretsRedacted u payload ↔ SecretsReached u payload) := by
  constructor
  · rw [← sanitize_erase, eraseFields_markFields]
  · have hvalue := redacted_sanitizeValue (u := u) false false (.obj payload)
    rw [mark] at hvalue
    unfold SecretsRedacted SecretsReached
    rw [← hvalue, sanitize]
    cases hclean : (sanitizeValue u false (.obj (markFields u false payload))).1 with
    | obj fields => rw [nodeOf, getD_some, redacted]
    | _ =>
      rw [sanitizeValue] at hclean
      cases hclean

/-- The flag is lost in `attributes`, and the password is left. -/
theorem attributes_unredacted : ¬ SecretsRedacted (ν := Int) ⟨id⟩
    [("password", .obj [("attributes", .str "hunter2" ())])] := by
  decide

end Sanitize

end Aegis
