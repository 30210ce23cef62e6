import Mathlib.Data.List.Dedup
import Aegis.Recording.Redaction

/-!
# Recording.Provenance

What the pass records of what it does to a node.

* `Evidence.Within` — evidence that is not weakened.
* `Recorded` — what becomes of one field of a node is in its `sanitization`.
-/

namespace Aegis

open List

namespace Sanitize

variable {ν τ : Type} (u : Unicode)

/-- `e'` has all the evidence of `e`. -/
structure Evidence.Within (e e' : Evidence) : Prop where
  markup : e.markupAltered = true → e'.markupAltered = true
  content : e.contentOmitted = true → e'.contentOmitted = true
  all : e.allAttrsAltered = true → e'.allAttrsAltered = true
  names : ∀ name ∈ e.alteredAttrs, e'.allAttrsAltered = true ∨ name ∈ e'.alteredAttrs

section Evidence

variable {u} {e e' e'' : Evidence} {b : Bool} {names : List String} {name : String}

theorem Evidence.Within.refl : e.Within e := ⟨id, id, id, fun _ h => .inr h⟩

theorem Evidence.Within.trans (h : e.Within e') (h' : e'.Within e'') : e.Within e'' :=
  ⟨h'.markup ∘ h.markup, h'.content ∘ h.content, h'.all ∘ h.all, fun name hname =>
    (h.names name hname).elim (fun hall => .inl (h'.all hall)) (h'.names name)⟩

theorem within_alterMarkup : e.Within (e.alterMarkup b) :=
  ⟨fun h => by simp [Evidence.alterMarkup, h], id, id, fun _ h => .inr h⟩

theorem within_omitContent : e.Within (e.omitContent b) :=
  ⟨id, fun h => by simp [Evidence.omitContent, h], id, fun _ h => .inr h⟩

theorem addAlteredAttribute_spec : e.Within (e.addAlteredAttribute u name) ∧
    ((e.addAlteredAttribute u name).allAttrsAltered ∨
      ∃ n ∈ normalizeSanitizationAttributeName u name,
        n ∈ (e.addAlteredAttribute u name).alteredAttrs) := by
  unfold Evidence.addAlteredAttribute
  by_cases hall : e.allAttrsAltered
  · rw [if_pos hall]
    exact ⟨.refl, .inl hall⟩
  · rw [if_neg hall]
    have hstar : e.Within { e with allAttrsAltered := true, alteredAttrs := [] } :=
      ⟨id, id, fun _ => rfl, fun _ _ => .inl rfl⟩
    split
    · rename_i n hn
      split
      · exact ⟨hstar, .inl rfl⟩
      · dsimp only
        split
        · exact ⟨hstar, .inl rfl⟩
        · exact ⟨⟨id, id, id, fun _ h => .inr (mem_insert_of_mem h)⟩,
            .inr ⟨n, hn, mem_insert_self⟩⟩
    · exact ⟨hstar, .inl rfl⟩

theorem within_foldl : e.Within (names.foldl (Evidence.addAlteredAttribute u) e) := by
  induction names generalizing e with
  | nil => exact .refl
  | cons name names ih => exact addAlteredAttribute_spec.1.trans ih

theorem named_foldl (h : name ∈ names) :
    (names.foldl (Evidence.addAlteredAttribute u) e).allAttrsAltered ∨
      ∃ n ∈ normalizeSanitizationAttributeName u name,
        n ∈ (names.foldl (Evidence.addAlteredAttribute u) e).alteredAttrs := by
  induction names generalizing e with
  | nil => cases h
  | cons name' names ih =>
    rcases mem_cons.mp h with rfl | h
    · have hlater := @within_foldl u (e.addAlteredAttribute u name) names
      rcases addAlteredAttribute_spec.2 with hall | ⟨n, hn, hmem⟩
      · exact .inl (hlater.all hall)
      · exact (hlater.names n hmem).imp_right fun hmem => ⟨n, hn, hmem⟩
    · exact ih h

end Evidence

/-! ## What is recorded -/

/-- The node has this marker in its `sanitization`. -/
def Marked (out : List (String × Payload ν τ)) (marker : String) : Prop :=
  ∃ provenance, ("sanitization", .obj provenance) ∈ out ∧ (marker, .bool true) ∈ provenance

/-- The attribute is named in the `sanitization` of the node, or all attributes are. -/
def Named [Inhabited τ] (out : List (String × Payload ν τ)) (name : Option String) : Prop :=
  ∃ provenance names, ("sanitization", .obj provenance) ∈ out ∧
    ("alteredAttributes", .arr names) ∈ provenance ∧
      (names = [.str "*" default] ∨ ∃ n ∈ name, .str n default ∈ names)

variable [DecidableEq ν]

/-- What has become of the value of a field is the value. Of a list of children or attributes it is
enough that none is dropped; what is changed in a child is recorded there, and for attributes there
is `Changes`. -/
def kept (key : String) : Payload ν τ → Payload ν τ → Bool
  | .arr items, .arr out =>
    if normalizeKey u key == "children" || normalizeKey u key == "attributes" then
      items.length == out.length
    else same (.arr out) (.arr items)
  | item, out => same out item

/-- `P` holds if a field of an attribute is changed, and `Q` if that is its value. -/
def Changes (P Q : Prop) : Payload ν τ → Payload ν τ → Prop
  | .obj a, .obj b => ∀ key value, (key, value) ∈ a → (∀ w, (key, w) ∈ b → same w value = false) →
      P ∧ (normalizeKey u key = "value" → Q)
  | item, clean => same clean item = false → P

def nameOf : Payload ν τ → String
  | .obj a => textOf (a.lookup "name")
  | _ => ""

def retained : Payload ν τ → Bool
  | .obj a => !isUnsafeSemanticAttribute u (textOf (a.lookup "name"))
  | _ => true

/-- What becomes of the field `key` of a node is recorded. -/
structure Recorded [Inhabited τ] (key : String) (value : Payload ν τ)
    (out : List (String × Payload ν τ)) : Prop where
  markup : (∀ w, (key, w) ∈ out → kept u key value w = false) → Marked out "markupAltered"
  content : normalizeKey u key = "text" ∨ normalizeKey u key = "children" ∨
      unsafeSemanticFieldOmitsContent u key = true →
    (∀ w, (key, w) ∈ out → kept u key value w = false) → Marked out "contentOmitted"
  attributes : normalizeKey u key = "attributes" → ∀ items, value = .arr items →
    ∃ attributes, (key, .arr attributes) ∈ out ∧ Forall₂ (fun item clean =>
      Changes u (Marked out "markupAltered")
        (Named out (normalizeSanitizationAttributeName u (nameOf item))) item clean)
      (items.filter (retained u)) attributes

/-- The evidence of a node that was sanitized before, or the fail-closed evidence where it is
malformed, is not weakened. -/
structure Unweakened [Inhabited τ] (e : Evidence) (out : List (String × Payload ν τ)) : Prop where
  markup : e.markupAltered = true → Marked out "markupAltered"
  content : e.contentOmitted = true → Marked out "contentOmitted"
  all : e.allAttrsAltered = true → Named out none
  names : ∀ name ∈ e.alteredAttrs, Named out (some name)

section Lists

variable [Inhabited τ] {u} {hidden : Bool} {P P' Q Q' : Prop}

omit [Inhabited τ] in
theorem Changes.imp (himp : P → P' ∧ (Q → Q')) {item clean : Payload ν τ}
    (h : Changes u P Q item clean) : Changes u P' Q' item clean := by
  unfold Changes at h ⊢
  split at h
  · intro key value hmem hw
    obtain ⟨hP, hQ⟩ := h key value hmem hw
    exact ⟨(himp hP).1, fun hkey => (himp hP).2 (hQ hkey)⟩
  · exact fun hw => (himp (h hw)).1

theorem sanitizeAttributeText_eq {name text : String}
    (h : (sanitizeAttributeText u name hidden text).2.2 = false) :
    (sanitizeAttributeText u name hidden text).1 = text := by
  unfold sanitizeAttributeText at h ⊢
  generalize sanitizeSemanticURL u text = url at h ⊢
  generalize sanitizeText text = clean at h ⊢
  dsimp only at h ⊢
  split_ifs at h ⊢
  · rfl
  all_goals simpa using h

def Noted (u : Unicode) (name key : String) (value : Payload ν τ) (out : AttributeFields ν τ) : Prop :=
  ∃ w, (key, w) ∈ out.fields ∧ (same w value = true ∨
    out.changed = true ∧ (normalizeKey u key = "value" → name ∈ out.altered))

section Noted

variable {name key key' : String} {value clean : Payload ν τ} {rest : AttributeFields ν τ}
  {changed : Bool} {altered : List String} {report : SanitizationReport}

omit [Inhabited τ] in
theorem Noted.cons (h : Noted u name key value rest) :
    Noted u name key value (rest.cons key' clean changed altered report) := by
  obtain ⟨w, hw, hsame⟩ := h
  refine ⟨w, mem_cons_of_mem _ hw, hsame.imp_right fun hchanged => ?_⟩
  exact ⟨Bool.or_eq_true_iff.mpr (.inr hchanged.1), fun hkey =>
    mem_append_right _ (hchanged.2 hkey)⟩

omit [Inhabited τ] in
theorem noted_head (hsame : changed = false → same clean value = true)
    (hname : normalizeKey u key = "value" → name ∈ altered) :
    Noted u name key value (rest.cons key clean changed altered report) := by
  refine ⟨clean, mem_cons_self, ?_⟩
  cases changed with
  | false => exact .inl (hsame rfl)
  | true => exact .inr ⟨rfl, fun hkey => mem_append_left _ (hname hkey)⟩

end Noted

theorem noted_sanitizeAttribute {name key : String} {value : Payload ν τ}
    {a : List (String × Payload ν τ)} (h : (key, value) ∈ a) :
    Noted u name key value (sanitizeAttribute u name hidden a) := by
  induction a with
  | nil => cases h
  | cons f a ih =>
    obtain ⟨key', raw⟩ := f
    rw [sanitizeAttribute]
    dsimp only
    rcases mem_cons.mp h with heq | h
    · cases heq
      split
      · rename_i hkey
        refine noted_head (by simp) fun hvalue => ?_
        simp [hvalue] at hkey
      · split
        · rename_i text tag hraw
          refine noted_head (fun hflag => ?_) fun _ => mem_singleton_self _
          cases value with
          | str s t =>
            cases hraw
            rw [sanitizeAttributeText_eq hflag, same]
            exact beq_self_eq_true _
          | _ => cases hraw
        · exact noted_head (by simp) fun _ => mem_singleton_self _
    · split
      · exact (ih h).cons
      · split <;> exact (ih h).cons

theorem sanitizeAttributes_spec (items : List (Payload ν τ)) :
    Forall₂ (fun item clean => Changes u ((sanitizeAttributes u hidden items).changed)
        (nameOf item ∈ (sanitizeAttributes u hidden items).altered) item clean)
      (items.filter (retained u)) (sanitizeAttributes u hidden items).items ∧
    ((sanitizeAttributes u hidden items).changed = false →
      items.length = (sanitizeAttributes u hidden items).items.length) := by
  induction items with
  | nil => exact ⟨.nil, fun _ => rfl⟩
  | cons item items ih =>
    obtain ⟨hall, hlength⟩ := ih
    cases item with
    | obj a =>
      by_cases hunsafe : isUnsafeSemanticAttribute u (textOf (a.lookup "name")) = true
      · have hof : attributeOf u hidden (.obj a) = some none := by
          rw [attributeOf]
          exact if_pos hunsafe
        rw [sanitizeAttributes, hof, filter_cons_of_neg (by simp [retained, hunsafe])]
        exact ⟨hall.imp fun _ _ => Changes.imp fun _ => ⟨rfl, id⟩, fun h => by cases h⟩
      · have hof : attributeOf u hidden (.obj a) =
            some (some (sanitizeAttribute u (textOf (a.lookup "name")) hidden a)) := by
          rw [attributeOf]
          exact if_neg hunsafe
        rw [sanitizeAttributes, hof, filter_cons_of_pos (by simp [retained, hunsafe])]
        refine ⟨.cons (fun key value hmem hw => ?_) (hall.imp fun _ _ => Changes.imp
          fun h => ⟨Bool.or_eq_true_iff.mpr (.inr h), fun h => mem_append_right _ h⟩), fun h => ?_⟩
        · obtain ⟨w, hmem', hsame | ⟨hchanged, hname⟩⟩ := noted_sanitizeAttribute hmem
          · rw [hw w hmem'] at hsame
            cases hsame
          · exact ⟨Bool.or_eq_true_iff.mpr (.inl hchanged), fun hkey =>
              mem_append_left _ (hname hkey)⟩
        · rw [length_cons, length_cons, hlength (Bool.or_eq_false_iff.mp h).2]
    | null | bool _ | num _ _ | str _ _ | arr _ =>
      rw [sanitizeAttributes, attributeOf]
      · exact ⟨.cons (fun _ => rfl) (hall.imp fun _ _ => Changes.imp fun _ =>
          ⟨rfl, fun h => mem_cons_of_mem _ h⟩), fun h => by cases h⟩
      · exact fun _ heq => by cases heq

theorem sanitizeChildren_length (items : List (Payload ν τ))
    (h : (sanitizeChildren u items).omitted = false) :
    items.length = (sanitizeChildren u items).items.length := by
  induction items with
  | nil => rfl
  | cons item items ih =>
    rw [sanitizeChildren] at h ⊢
    cases hnode : nodeOf item with
    | none =>
      rw [hnode] at h
      cases h
    | some node =>
      rw [hnode] at h
      dsimp only at h ⊢
      split_ifs at h ⊢
      · cases h
      · exact congrArg (· + 1) (ih h)
      · cases h

end Lists

section Fields

variable [Inhabited τ] {u} {hidden force : Bool} {e : Evidence} {key : String} {item : Payload ν τ}
  {fields : List (String × Payload ν τ)}

/-- What becomes of a field of a node, if it stays, and of the evidence. -/
def turn (u : Unicode) (hidden force : Bool) (e : Evidence) (key : String) (item : Payload ν τ) :
    Option (Payload ν τ) × Evidence :=
  match fieldKind u true hidden force key with
  | .provenance => (none, e)
  | .unsafeField => (none, e.remove u true key)
  | .attributes =>
    let out := semanticAttributes (sanitizeValue u false item) (attributesOf u hidden item)
    (some out.1, e.alterAttributes u true out.2.1 out.2.2.1)
  | .children =>
    let out := semanticChildren (sanitizeValue u false item) (childrenOf u item)
    (some out.1, (e.alterMarkup out.2.1).omitContent out.2.1)
  | .value redact =>
    let clean := (sanitizeValue u redact item).1
    (some clean, (e.alterMarkup (!same clean item)).omitContent
      (!same clean item && normalizeKey u key == "text"))

theorem sanitizeFields_cons : (sanitizeFields u true hidden force e ((key, item) :: fields)).evidence =
      (sanitizeFields u true hidden force (turn u hidden force e key item).2 fields).evidence ∧
    (sanitizeFields u true hidden force e ((key, item) :: fields)).fields =
      (turn u hidden force e key item).1.toList.map (key, ·) ++
        (sanitizeFields u true hidden force (turn u hidden force e key item).2 fields).fields := by
  rw [sanitizeFields, turn]
  cases fieldKind u true hidden force key <;> exact ⟨rfl, rfl⟩

theorem within_turn : e.Within (turn u hidden force e key item).2 := by
  unfold turn
  split
  · exact .refl
  · exact within_alterMarkup.trans within_omitContent
  · dsimp only
    unfold Evidence.alterAttributes
    split
    · exact within_alterMarkup.trans within_foldl
    · exact .refl
  all_goals exact within_alterMarkup.trans within_omitContent

theorem within_sanitizeFields : e.Within (sanitizeFields u true hidden force e fields).evidence := by
  induction fields generalizing e with
  | nil => exact .refl
  | cons f fields ih =>
    rw [sanitizeFields_cons.1]
    exact within_turn.trans ih

theorem exists_turn (h : (key, item) ∈ fields) : ∃ e', (turn u hidden force e' key item).2.Within
      (sanitizeFields u true hidden force e fields).evidence ∧
    ∀ w ∈ (turn u hidden force e' key item).1,
      (key, w) ∈ (sanitizeFields u true hidden force e fields).fields := by
  induction fields generalizing e with
  | nil => cases h
  | cons f fields ih =>
    obtain ⟨key', item'⟩ := f
    rw [sanitizeFields_cons.1, sanitizeFields_cons.2]
    rcases mem_cons.mp h with heq | h
    · cases heq
      exact ⟨e, within_sanitizeFields, fun w hw =>
        mem_append_left _ (mem_map.mpr ⟨w, Option.mem_toList.mpr hw, rfl⟩)⟩
    · obtain ⟨e', hwithin, hmem⟩ := ih h
      exact ⟨e', hwithin, fun w hw => mem_append_right _ (hmem w hw)⟩

theorem safe_of_mem (h : normalizeKey u key ∈ ["text", "children", "attributes"]) :
    isUnsafeSemanticField u key = false := by
  have hplain : (["outerhtml", "innerhtml", "rawhtml", "srcdoc", "style", "stylesheet"].contains
      (normalizeKey u key)) = false := by
    revert h
    generalize normalizeKey u key = k
    revert k
    decide
  have hno : 'o' ∉ (normalizeKey u key).toList := by
    revert h
    generalize normalizeKey u key = k
    revert k
    decide
  rw [isUnsafeSemanticField, hplain, Bool.false_or]
  dsimp only
  rw [Bool.and_eq_false_iff]
  refine .inl (Bool.eq_false_iff.mpr fun hprefix => hno ?_)
  have ho : 'o' ∈ (toLower u (trimSpace key)).toList :=
    have hprefix := isPrefixOf_iff_prefix.mp hprefix
    hprefix.subset (by decide)
  rw [toLower, String.toList_ofList] at ho
  obtain ⟨c, hc, hlower⟩ := mem_map.mp ho
  rw [trimSpace, String.toList_ofList, mem_reverse] at hc
  have hc := (dropWhile_suffix _).subset (mem_reverse.mp ((dropWhile_suffix _).subset hc))
  rw [normalizeKey, String.toList_ofList, toLower, String.toList_ofList, mem_filter]
  exact ⟨mem_map.mpr ⟨c, hc, hlower⟩, by decide⟩

theorem turn_recorded (hkey : normalizeKey u key ≠ "sanitization")
    (hkept : ∀ w ∈ (turn u hidden force e key item).1, kept u key item w = false) :
    (turn u hidden force e key item).2.markupAltered ∧
      (normalizeKey u key = "text" ∨ normalizeKey u key = "children" ∨
        unsafeSemanticFieldOmitsContent u key →
          (turn u hidden force e key item).2.contentOmitted) := by
  by_cases hunsafe : isUnsafeSemanticField u key
  · have hkind : fieldKind u true hidden force key = .unsafeField := by
      simp [fieldKind, hkey, hunsafe]
    simp only [turn, hkind, Evidence.remove, Evidence.alterMarkup, Evidence.omitContent]
    refine ⟨by simp, ?_⟩
    have hother : normalizeKey u key ∉ ["text", "children", "attributes"] := fun h =>
      Bool.false_ne_true ((safe_of_mem h).symm.trans hunsafe)
    rintro (h | h | h)
    · exact absurd (by simp [h]) hother
    · exact absurd (by simp [h]) hother
    · simp [h]
  have homits : unsafeSemanticFieldOmitsContent u key = false := by
    refine Bool.eq_false_iff.mpr fun homits => hunsafe ?_
    rw [isUnsafeSemanticField, Bool.or_eq_true]
    rw [unsafeSemanticFieldOmitsContent, contains_iff_mem] at homits
    exact .inl (contains_iff_mem.mpr (mem_append_left ["style", "stylesheet"] homits))
  by_cases hattributes : normalizeKey u key = "attributes"
  · have hkind : fieldKind u true hidden force key = .attributes := by
      simp [fieldKind, hunsafe, hattributes]
    simp only [turn, hkind] at hkept ⊢
    refine ⟨?_, by simp [hattributes, homits]⟩
    have hchanged : (semanticAttributes (sanitizeValue u false item)
        (attributesOf u hidden item)).2.1 := by
      cases item with
      | arr items =>
        by_contra hchanged
        have hlength := (sanitizeAttributes_spec items).2 (Bool.eq_false_iff.mpr hchanged)
        have hfalse := hkept _ rfl
        simp [kept, attributesOf, semanticAttributes, hattributes, ← hlength] at hfalse
      | _ => rfl
    rw [Evidence.alterAttributes, hchanged]
    exact within_foldl.markup (by simp [Evidence.alterMarkup])
  by_cases hchildren : normalizeKey u key = "children"
  · have hkind : fieldKind u true hidden force key = .children := by
      simp [fieldKind, hunsafe, hchildren]
    simp only [turn, hkind] at hkept ⊢
    have homitted : (semanticChildren (sanitizeValue u false item) (childrenOf u item)).2.1 := by
      cases item with
      | arr items =>
        by_contra homitted
        have hlength := sanitizeChildren_length items (Bool.eq_false_iff.mpr homitted)
        have hfalse := hkept _ rfl
        simp [kept, childrenOf, semanticChildren, hchildren, ← hlength] at hfalse
      | _ => rfl
    simp [Evidence.alterMarkup, Evidence.omitContent, homitted]
  · have hkind : fieldKind u true hidden force key =
        .value (force || isSensitiveKey u key || (hidden && isValueField u key)) := by
      simp [fieldKind, hkey, hunsafe, hattributes, hchildren]
    simp only [turn, hkind] at hkept ⊢
    have hchanged := hkept _ rfl
    have hsame : ∀ w, kept u key item w = same w item := by
      intro w
      unfold kept
      split
      · simp [hattributes, hchildren]
      · rfl
    rw [hsame] at hchanged
    rw [hchanged]
    refine ⟨by simp [Evidence.alterMarkup, Evidence.omitContent], ?_⟩
    rintro (h | h | h)
    · simp [Evidence.omitContent, h]
    · exact absurd h hchildren
    · simp [homits] at h

theorem turn_attributes (hkey : normalizeKey u key = "attributes") (items : List (Payload ν τ)) :
    ∃ attributes, .arr attributes ∈ (turn u hidden force e key (.arr items)).1 ∧
      Forall₂ (fun item clean => Changes u
        ((turn u hidden force e key (.arr items)).2.markupAltered)
        ((turn u hidden force e key (.arr items)).2.allAttrsAltered ∨
          ∃ n ∈ normalizeSanitizationAttributeName u (nameOf item),
            n ∈ (turn u hidden force e key (.arr items)).2.alteredAttrs) item clean)
        (items.filter (retained u)) attributes := by
  have hkind : fieldKind u true hidden force key = .attributes := by
    simp [fieldKind, hkey, safe_of_mem (show normalizeKey u key ∈ _ by simp [hkey])]
  simp only [turn, hkind, attributesOf, semanticAttributes]
  refine ⟨_, rfl, (sanitizeAttributes_spec items).1.imp fun item clean hchanges => ?_⟩
  generalize sanitizeAttributes u hidden items = out at hchanges ⊢
  refine Changes.imp (fun hchanged => ⟨?_, fun h => ?_⟩) hchanges
  · rw [Evidence.alterAttributes, hchanged]
    exact within_foldl.markup (by simp [Evidence.alterMarkup])
  · rw [Evidence.alterAttributes, hchanged]
    exact named_foldl (mem_mergeSort.mpr (mem_dedup.mpr h))

end Fields

section Node

variable [Inhabited τ] {u} {force : Bool} {key : String} {value : Payload ν τ}
  {fields : List (String × Payload ν τ)}

def sanitizedNode (u : Unicode) (force : Bool) (fields : List (String × Payload ν τ)) :
    List (String × Payload ν τ) :=
  (nodeOf (sanitizeValue u force (.obj fields)).1).getD []

omit [DecidableEq ν] [Inhabited τ] in
theorem mem_put {l : List (String × Payload ν τ)} {f : String × Payload ν τ} :
    f ∈ put key value l ↔ f = (key, value) ∨ f ∈ l := by
  induction l with
  | nil => simp [put]
  | cons g l ih =>
    rw [put]
    split
    · simp
    · simp [ih, or_left_comm]

theorem shows (h : semanticNode fields) : ∃ out : Fields ν τ,
    out = sanitizeFields u true (isHiddenInput u fields) force (Evidence.initial u fields) fields ∧
    (∀ f ∈ out.fields, f ∈ sanitizedNode u force fields) ∧
    (out.evidence.markupAltered → Marked (sanitizedNode u force fields) "markupAltered") ∧
    (out.evidence.contentOmitted → Marked (sanitizedNode u force fields) "contentOmitted") ∧
    ∀ name : Option String, (out.evidence.allAttrsAltered ∨
      ∃ n ∈ name, n ∈ out.evidence.alteredAttrs) → Named (sanitizedNode u force fields) name := by
  refine ⟨_, rfl, ?_⟩
  have hnode : sanitizedNode u force fields = (nodeOf (finish true (sanitizeFields u true
      (isHiddenInput u fields) force (Evidence.initial u fields) fields)).1).getD [] := by
    rw [sanitizedNode, sanitizeValue, h]
    rfl
  rw [hnode]
  generalize sanitizeFields u true (isHiddenInput u fields) force (Evidence.initial u fields)
    fields = out
  have hshown : ∀ f ∈ (out.evidence.jsonValue : List (String × Payload ν τ)),
      ("sanitization", .obj out.evidence.jsonValue) ∈ (nodeOf (finish true out).1).getD [] := by
    intro f hf
    have hnonempty : (out.evidence.jsonValue : List (String × Payload ν τ)).isEmpty = false :=
      isEmpty_eq_false_iff_exists_mem.mpr ⟨f, hf⟩
    simp [finish, nodeOf, hnonempty, mem_put]
  have hmarked : ∀ {marker}, (marker, .bool true) ∈
      (out.evidence.jsonValue : List (String × Payload ν τ)) → Marked _ marker :=
    fun hmem => ⟨_, hshown _ hmem, hmem⟩
  refine ⟨fun f hf => ?_, fun hmarkup => ?_, fun hcontent => ?_, fun name hname => ?_⟩
  · unfold finish
    dsimp only
    split
    · exact mem_put.mpr (.inr hf)
    · exact hf
  · exact hmarked (by simp [Evidence.jsonValue, hmarkup])
  · exact hmarked (by simp [Evidence.jsonValue, hcontent])
  · have hmem : ∃ names, ("alteredAttributes", Payload.arr names) ∈
        (out.evidence.jsonValue : List (String × Payload ν τ)) ∧
          (names = [.str "*" default] ∨ ∃ n ∈ name, .str n default ∈ names) := by
      cases hall : out.evidence.allAttrsAltered with
      | true => exact ⟨_, by simp [Evidence.jsonValue, hall], .inl rfl⟩
      | false =>
        obtain ⟨n, hn, hmem⟩ := hname.resolve_left (by simp [hall])
        have hnonempty : out.evidence.alteredAttrs.isEmpty = false :=
          isEmpty_eq_false_iff_exists_mem.mpr ⟨n, hmem⟩
        exact ⟨(out.evidence.alteredAttrs.mergeSort (· ≤ ·)).map fun name => .str name default,
          by simp [Evidence.jsonValue, hall, hnonempty],
          .inr ⟨n, hn, mem_map.mpr ⟨n, mem_mergeSort.mpr hmem, rfl⟩⟩⟩
    obtain ⟨names, hmem, hnames⟩ := hmem
    exact ⟨_, names, hshown _ hmem, hmem, hnames⟩

/-- The evidence of a node is not weakened, and a field that does not fold to the mark is recorded. -/
theorem node_recorded (h : semanticNode fields) :
    Unweakened (Evidence.initial u fields) (sanitizedNode u force fields) ∧
      ((key, value) ∈ fields → normalizeKey u key ≠ "sanitization" →
        Recorded u key value (sanitizedNode u force fields)) := by
  obtain ⟨out, rfl, hfields, hmarkup, hcontent, hnamed⟩ := @shows _ _ u _ _ force fields h
  constructor
  · have hwithin := @within_sanitizeFields _ _ u _ _ (isHiddenInput u fields) force
      (Evidence.initial u fields) fields
    exact ⟨fun h => hmarkup (hwithin.markup h), fun h => hcontent (hwithin.content h),
      fun h => hnamed _ (.inl (hwithin.all h)), fun name h =>
        hnamed _ ((hwithin.names name h).imp_right fun h => ⟨name, rfl, h⟩)⟩
  · intro hmem hkey
    obtain ⟨e, hwithin, hstays⟩ := @exists_turn _ _ u _ _ (isHiddenInput u fields) force
      (Evidence.initial u fields) key value fields hmem
    have hrecorded := fun hkept : ∀ w, (key, w) ∈ sanitizedNode u force fields →
        kept u key value w = false =>
      @turn_recorded _ _ u _ _ (isHiddenInput u fields) force e key value hkey fun w hw =>
        hkept w (hfields _ (hstays w hw))
    refine ⟨fun hkept => hmarkup (hwithin.markup (hrecorded hkept).1),
      fun hkind hkept => hcontent (hwithin.content ((hrecorded hkept).2 hkind)), ?_⟩
    rintro hattributes items rfl
    obtain ⟨attributes, hstay, hall⟩ := @turn_attributes _ _ u _ _ (isHiddenInput u fields) force e
      key hattributes items
    refine ⟨attributes, hfields _ (hstays _ hstay), hall.imp fun item clean => Changes.imp
      fun h => ⟨hmarkup (hwithin.markup h), fun hname => hnamed _ ?_⟩⟩
    rcases hname with hname | ⟨n, hn, hname⟩
    · exact .inl (hwithin.all hname)
    · exact (hwithin.names n hname).imp_right fun h => ⟨n, hn, h⟩

end Node

/-- In every node that the pass comes to, the evidence of before is not weakened, and what becomes
of a field with this key is recorded. -/
def Evident (ν τ : Type) [DecidableEq ν] [Inhabited τ] (u : Unicode) (key : String) : Prop :=
  ∀ (force : Bool) (fields : List (String × Payload ν τ)), semanticNode fields = true →
    Unweakened (Evidence.initial u fields) (sanitizedNode u force fields) ∧
      ∀ value, (key, value) ∈ fields → key ≠ "sanitization" →
        Recorded u key value (sanitizedNode u force fields)

/-- The key of a field that is taken for evidence, and not read as such. -/
def Disguised (u : Unicode) (key : String) : Prop :=
  normalizeKey u key = "sanitization" ∧ key ≠ "sanitization"

theorem normalizeKey_type : toLower u "type" = "type" ∧ normalizeKey u "type" = "type" := by
  have htype : "type".toList = ['t', 'y', 'p', 'e'] := by decide
  have hlower : toLower u "type" = "type" := by
    rw [toLower, htype]
    rfl
  rw [normalizeKey, hlower]
  exact ⟨rfl, by decide⟩

/-- A key that folds to the mark's own is left without a record. -/
theorem sanitizedNode_disguised [Inhabited τ] {key : String} (h : Disguised u key) :
    sanitizedNode u false [("type", .str "element" default), (key, (.null : Payload ν τ))] =
      [("type", .str "element" default)] := by
  have hprovenance : ∀ hidden, fieldKind u true hidden false key = .provenance := by
    simp [fieldKind, h.1]
  have htext : redactText "element" = "element" := by decide +kernel
  have hnode : semanticNode [("type", .str "element" default), (key, (.null : Payload ν τ))] = true := rfl
  have hinitial : Evidence.initial u [("type", .str "element" default),
      (key, (.null : Payload ν τ))] = .none := by
    simp [Evidence.initial, lookup_cons, beq_eq_false_iff_ne.mpr h.2.symm, textOf]
  rw [sanitizedNode, sanitizeValue, hnode, if_pos rfl, hinitial, finish, sanitizeFields_cons.1,
    sanitizeFields_cons.2, sanitizeFields_cons.1, sanitizeFields_cons.2]
  simp [turn, fieldKind_type, hprovenance, sanitizeValue, sanitizeText, htext, same,
    sanitizeFields, Evidence.alterMarkup, Evidence.omitContent, Evidence.none, Evidence.jsonValue,
    nodeOf]

/-- At every node what becomes of a field is recorded exactly if its key is not taken for the mark
without being it. -/
theorem evident_iff (ν τ : Type) [DecidableEq ν] [Inhabited τ] (u : Unicode) (key : String) :
    Evident ν τ u key ↔ ¬ Disguised u key := by
  constructor
  · intro h hdisguised
    have hout := @sanitizedNode_disguised ν τ u _ _ key hdisguised
    have hrecorded := (h false [("type", .str "element" default), (key, .null)] rfl).2 .null
      (mem_cons_of_mem _ (mem_singleton_self _)) hdisguised.2
    rw [hout] at hrecorded
    have hmarked := hrecorded.markup fun w hw => by
      cases mem_singleton.mp hw
      rw [Disguised, (normalizeKey_type u).2] at hdisguised
      exact absurd hdisguised.1 (by decide)
    obtain ⟨p, hp, -⟩ := hmarked
    simp at hp
  · intro hplain force fields hnode
    refine ⟨(@node_recorded ν τ u _ _ force key .null fields hnode).1, fun value hmem hkey => ?_⟩
    exact (node_recorded hnode).2 hmem fun hnorm => hplain ⟨hnorm, hkey⟩

/-- An element with a field `Sanitization`. -/
def disguised : List (String × Payload Int Unit) :=
  [("Sanitization", .null), ("type", .str "element" ())]

theorem disguised_unrecorded : ¬ Recorded ⟨id⟩ "Sanitization" .null (sanitize ⟨id⟩ disguised).1 := by
  have hout : (sanitize ⟨id⟩ disguised).1 = [("type", .str "element" ())] := by
    rfl
  rw [hout]
  intro h
  obtain ⟨p, hp, -⟩ := h.markup (by simp)
  simp at hp

end Sanitize

end Aegis
