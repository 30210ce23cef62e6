import Aegis.Requirements.Spec

/-!
# Requirements.Agreement

The two sides of a requirement agree up to what only one of them checks.

* `substitute` — a text that is written in another way still holds the terms that it held.
* `Portable`   — what only the extension checks: the types of the defaults, the forms of the values
  of the constraints, and texts that are more than its own white space.
* `Legible`    — what only the server checks: texts that are more than its own white space, and no
  sensitive term once the text is written for HTML and lowered rune by rune.
* `agreement`  — each side accepts what the other accepts exactly when these hold.
-/

namespace Aegis

open List

namespace Requirements

variable {ν : Type}

section Substitute

variable {α β : Type} {f h : α → List β} {term : List β}

/-- Where the first way differs, it ends in a character that is not in the term, and what it writes
before it the second way writes too. -/
def Written (f h : α → List β) (term : List β) : Prop :=
  ∀ c, f c = h c ∨ ∃ before b, f c = before ++ [b] ∧ b ∉ term ∧ before <+: h c

theorem prefix_before {before rest part : List β} {b : β} (hb : b ∉ part)
    (h : part <+: (before ++ [b]) ++ rest) : part <+: before := by
  rw [append_assoc, singleton_append] at h
  obtain ⟨tail, htail⟩ := h
  rcases append_eq_append_iff.mp htail with ⟨as, hbefore, -⟩ | ⟨bs, hpart, hrest⟩
  · exact ⟨as, hbefore.symm⟩
  · cases bs with
    | nil => exact ⟨[], by simpa using hpart⟩
    | cons d bs =>
      rw [cons_append] at hrest
      cases hrest
      exact absurd (hpart ▸ by simp) hb

theorem Written.isPrefix (hw : Written f h term) {text : List α} {part : List β}
    (hsub : ∀ b ∈ part, b ∈ term) (hpart : part <+: text.flatMap f) : part <+: text.flatMap h := by
  induction text generalizing part with
  | nil => exact hpart
  | cons c text ih =>
    rw [flatMap_cons] at hpart ⊢
    rcases hw c with heq | ⟨before, b, hfc, hb, hbefore⟩
    · rw [heq] at hpart
      obtain ⟨tail, htail⟩ := hpart
      rcases append_eq_append_iff.mp htail with ⟨as, hhc, -⟩ | ⟨bs, hp, hrest⟩
      · exact ⟨as ++ text.flatMap h, by rw [hhc, append_assoc]⟩
      · have hbs : bs <+: text.flatMap h := by
          refine ih ?_ ⟨tail, hrest.symm⟩
          intro d hd
          exact hsub d (hp ▸ mem_append_right _ hd)
        rw [hp]
        exact (prefix_append_right_inj _).mpr hbs
    · rw [hfc] at hpart
      have hstart := prefix_before (fun hmem => hb (hsub b hmem)) hpart
      exact (hstart.trans hbefore).trans (prefix_append _ _)

theorem substitute (hw : Written f h term) {text : List α} (hterm : term <:+: text.flatMap f) :
    term <:+: text.flatMap h := by
  induction text with
  | nil => exact hterm
  | cons c text ih =>
    rw [flatMap_cons] at hterm ⊢
    rcases infix_append_iff.mp hterm with hc | htext | ⟨left, right, hsplit, hleft, hright⟩
    · rcases hw c with heq | ⟨before, b, hfc, hb, hbefore⟩
      · exact infix_append_of_infix_left (heq ▸ hc)
      · rw [hfc] at hc
        have hheld : term <:+: before := by
          rcases infix_concat_iff.mp hc with hsuffix | hin
          · rcases suffix_concat_iff.mp hsuffix with rfl | ⟨t, rfl, -⟩
            · exact nil_infix
            · exact absurd (by simp) hb
          · exact hin
        exact infix_append_of_infix_left (hheld.trans hbefore.isInfix)
    · exact infix_append_of_infix_right (ih htext)
    · have hright' : right <+: text.flatMap h := by
        refine hw.isPrefix ?_ hright
        intro d hd
        exact hsplit ▸ mem_append_right _ hd
      rcases hw c with heq | ⟨before, b, hfc, hb, -⟩
      · rw [hsplit]
        exact infix_append_iff.mpr (.inr (.inr ⟨left, right, rfl, heq ▸ hleft, hright'⟩))
      · rw [hfc] at hleft
        rcases suffix_concat_iff.mp hleft with rfl | ⟨t, rfl, -⟩
        · rw [hsplit, nil_append]
          exact infix_append_of_infix_right hright'.isInfix
        · exact absurd (hsplit ▸ by simp) hb

end Substitute

section Unsafe

variable (number : ν → List Char) {term : String}

theorem not_mem_terms {b : Char} (hb : b ∈ ['<', '>', '&', '\u2028', '\u2029', '\u0307']) :
    ∀ term ∈ unsafeTerms, b ∉ term.toList := by
  simp only [mem_cons, not_mem_nil, or_false] at hb
  rcases hb with rfl | rfl | rfl | rfl | rfl | rfl <;> decide +kernel

theorem written_terms (h : term ∈ unsafeTerms) :
    Written toLowerCase (fun c => (htmlEscape c).map toLower) term.toList := by
  intro c
  by_cases hdot : c = '\u0130'
  · subst hdot
    refine .inr ⟨['i'], '\u0307', rfl, not_mem_terms (by decide) term h, ?_⟩
    exact ⟨[], by decide⟩
  · by_cases hhtml : c ∈ ['<', '>', '&', '\u2028', '\u2029']
    · have hself : toLowerCase c = [c] := by
        simp only [mem_cons, not_mem_nil, or_false] at hhtml
        rcases hhtml with rfl | rfl | rfl | rfl | rfl <;> decide +kernel
      refine .inr ⟨[], c, hself, not_mem_terms ?_ term h, List.nil_prefix⟩
      exact mem_append_left ['\u0307'] hhtml
    · have hplain : htmlEscape c = [c] := by
        simp only [mem_cons, not_mem_nil, or_false, not_or] at hhtml
        simp [htmlEscape, hhtml]
      left
      simp only [hplain]
      simp [toLowerCase, toLower, hdot]

theorem containsUnsafe_of_extension {v : Json ν} (h : containsUnsafeRequirement number v) :
    containsUnsafe (mustJSON number v) := by
  obtain ⟨term, hmem, hterm⟩ := List.any_eq_true.mp h
  refine List.any_eq_true.mpr ⟨term, hmem, ?_⟩
  have hheld := substitute (written_terms hmem) (of_decide_eq_true hterm)
  rw [mustJSON, map_flatMap]
  exact decide_eq_true hheld

end Unsafe

section Server

@[simp] theorem require_eq_ok {b : Bool} {e : SpecError} {u : Unit} :
    require b e = .ok u ↔ b = true := by
  cases b <;> simp [require]

theorem bind_eq_ok {x : Except SpecError Unit} {k : Unit → Except SpecError Unit} :
    (x >>= k) = .ok () ↔ x = .ok () ∧ k () = .ok () := by
  cases x with
  | error e | ok u => simp [bind, Except.bind]

def distinct : List (List Char) → List String → Bool
  | _, [] => true
  | names, name :: rest => !names.contains (nameKey name) && distinct (nameKey name :: names) rest

def sampled (sample : Fields ν) : List (List Char) → List (String × String) → Bool
  | _, [] => true
  | names, field :: rest =>
    !names.contains (nameKey field.1) && ((sample.lookup field.1).any (matchesType · field.2)) &&
      sampled sample (nameKey field.1 :: names) rest

variable [LinearOrder ν] (p : Platform ν) {names : List (List Char)}

theorem validateInputs_eq_ok {inputs : List (RequirementInput ν)} : validateInputs p names inputs = .ok () ↔
      (∀ i ∈ inputs, validateInput p i = .ok ()) ∧
        distinct names (inputs.map RequirementInput.name) := by
  induction inputs generalizing names with
  | nil => simp [validateInputs, distinct]
  | cons i inputs ih =>
    rw [validateInputs, bind_eq_ok, bind_eq_ok, require_eq_ok, ih]
    simp [distinct]
    tauto

omit [LinearOrder ν] in
theorem validateOutputFields_eq_ok {sample : Fields ν} {fields : List RequirementOutputField} :
    validateOutputFields sample names fields = .ok () ↔
      (∀ f ∈ fields, validateField f.name f.type f.description = .ok ()) ∧
        sampled sample names (fields.map fun f => (f.name, f.type)) = true := by
  induction fields generalizing names with
  | nil => simp [validateOutputFields, sampled]
  | cons f fields ih =>
    rw [validateOutputFields, bind_eq_ok, bind_eq_ok, bind_eq_ok, require_eq_ok, require_eq_ok, ih]
    simp [sampled]
    tauto

theorem validateField_eq_ok {name type description : String} :
    validateField name type description = .ok () ↔
      isIdentifier name ∧ isBlank description = false ∧ validType type = true := by
  rw [validateField, require_eq_ok]
  simp [and_assoc]

theorem validateInput_eq_ok {i : RequirementInput ν} : validateInput p i = .ok () ↔
      (isIdentifier i.name ∧ isBlank i.description = false ∧ validType i.type = true) ∧
        (∀ c ∈ i.constraints, constraintNames.contains c.1) ∧
        (i.constraints.isEmpty ∨
          ∀ v ∈ i.default, valueSatisfiesConstraints p v i.constraints) := by
  rw [validateInput, bind_eq_ok, bind_eq_ok, validateField_eq_ok, require_eq_ok, require_eq_ok]
  cases i.default <;> simp

/-- What `ValidateSpec` asks for. -/
structure Accepted (s : CollectionRequirementSpec ν) : Prop where
  texts : isBlank s.title = false ∧ isBlank s.description = false
  outputs : s.outputFields.isEmpty = false
  lists : s.requiredInputs.isSome = true ∧ s.optionalInputs.isSome = true ∧ s.sampleOutput.isSome = true
  terms : containsUnsafe (mustJSON p.number s.toJson) = false
  inputs : ∀ i ∈ s.inputs, validateInput p i = .ok ()
  names : distinct [] (s.inputs.map RequirementInput.name) = true
  fields : ∀ f ∈ s.outputFields, validateField f.name f.type f.description = .ok ()
  samples : sampled (s.sampleOutput.getD []) []
    (s.outputFields.map fun f => (f.name, f.type)) = true

theorem validateSpec_eq_ok {s : CollectionRequirementSpec ν} :
    validateSpec p s = .ok () ↔ Accepted p s := by
  rw [validateSpec, bind_eq_ok, bind_eq_ok, bind_eq_ok, bind_eq_ok, bind_eq_ok,
    validateInputs_eq_ok, validateOutputFields_eq_ok]
  simp only [require_eq_ok]
  constructor
  · rintro ⟨htexts, houtputs, hlists, hterms, ⟨hinputs, hnames⟩, hfields, hsamples⟩
    exact ⟨by simpa using htexts, by simpa using houtputs, by simpa [and_assoc] using hlists,
      by simpa using hterms, hinputs, hnames, hfields, hsamples⟩
  · intro h
    exact ⟨by simpa using h.texts, by simpa using h.outputs, by simpa [and_assoc] using h.lists,
      by simpa using h.terms, ⟨h.inputs, h.names⟩, h.fields, h.samples⟩

end Server

section Extension

variable {names : List (List Char)}

theorem inputsDistinct_eq {inputs : List (Json ν)} :
    inputsDistinct names inputs = distinct names (inputs.map nameOf) := by
  induction inputs generalizing names with
  | nil => rfl
  | cons i inputs ih => rw [inputsDistinct, map_cons, distinct, ih]

theorem outputsSampled_eq {sample : Fields ν} {outputs : List (Json ν)} :
    outputsSampled sample names outputs =
      sampled sample names (outputs.map fun o => (nameOf o, typeOf o)) := by
  induction outputs generalizing names with
  | nil => rfl
  | cons o outputs ih => rw [outputsSampled, map_cons, sampled, ih]

def descriptionOf : Json ν → String
  | .obj fields => (textMember fields "description").getD ""
  | _ => ""

theorem validRequirementField_iff {v : Json ν} :
    validRequirementField v ↔ (∃ fields name type description, v = .obj fields ∧
      textMember fields "name" = some name ∧ textMember fields "type" = some type ∧
      textMember fields "description" = some description) ∧
      isIdentifier (nameOf v) ∧ isTrimmedEmpty (descriptionOf v) = false ∧
      validType (typeOf v) := by
  cases v with
  | obj fields =>
    rw [validRequirementField, nameOf, typeOf, descriptionOf]
    cases hname : textMember fields "name" <;> cases htype : textMember fields "type" <;>
      cases hdescription : textMember fields "description" <;>
      simp [hname, htype, hdescription, and_assoc]
  | _ => simp [validRequirementField]

variable [LinearOrder ν] (p : Platform ν)

theorem validRequirementInput_obj {fields : Fields ν} :
    validRequirementInput p (.obj fields) ↔ validRequirementField (.obj fields) = true ∧
      (∀ v ∈ fields.lookup "secret", matchesType v "boolean" = true) ∧
      (∀ v ∈ fields.lookup "default", matchesType v (typeOf (.obj fields)) = true) ∧
      validConstraints p (typeOf (.obj fields)) (fields.lookup "default")
        (fields.lookup "constraints") = true := by
  rw [validRequirementInput, typeOf]
  simp only [Bool.and_eq_true, Option.all_eq_true, and_assoc, Option.mem_def]

/-- What `isCollectionRequirementSpec` asks for, of an object with these members. -/
structure Admitted (fields : Fields ν) (title description : String)
    (required optional outputs : List (Json ν)) (sample : Fields ν) : Prop where
  texts : isTrimmedEmpty title = false ∧ isTrimmedEmpty description = false
  outputFields : outputs.isEmpty = false
  terms : containsUnsafeRequirement p.number (.obj fields) = false
  inputs : ∀ i ∈ required ++ optional, validRequirementInput p i = true
  fields : ∀ o ∈ outputs, validRequirementField o = true
  names : distinct [] ((required ++ optional).map nameOf) = true
  samples : sampled sample [] (outputs.map fun o => (nameOf o, typeOf o)) = true

structure Members (fields : Fields ν) (title description : String)
    (required optional outputs : List (Json ν)) (sample : Fields ν) : Prop where
  title : fields.lookup "title" = some (.str title)
  description : fields.lookup "description" = some (.str description)
  required : fields.lookup "requiredInputs" = some (.arr required)
  optional : fields.lookup "optionalInputs" = some (.arr optional)
  outputs : fields.lookup "outputFields" = some (.arr outputs)
  sample : fields.lookup "sampleOutput" = some (.obj sample)

variable {p} {fields sample : Fields ν} {title description : String}
  {required optional outputs : List (Json ν)}

omit [LinearOrder ν] in
theorem textMember_eq_some {name text : String} :
    textMember fields name = some text ↔ fields.lookup name = some (.str text) := by
  rw [textMember]
  split
  · rename_i s hs
    simp [hs]
  · rename_i hs
    constructor
    · intro h
      cases h
    · intro h
      exact absurd h (hs text)

theorem Members.isCollectionRequirementSpec_iff
    (h : Members fields title description required optional outputs sample) :
    isCollectionRequirementSpec p (.obj fields) ↔
      Admitted p fields title description required optional outputs sample := by
  have htitle := textMember_eq_some.mpr h.title
  have hdescription := textMember_eq_some.mpr h.description
  rw [isCollectionRequirementSpec]
  simp only [h.required, h.optional, h.outputs, h.sample, htitle, hdescription, inputsDistinct_eq,
    outputsSampled_eq, Option.any_some, Bool.and_eq_true, Bool.not_eq_true', all_eq_true]
  constructor
  · rintro ⟨⟨⟨⟨⟨⟨⟨h₁, h₂⟩, h₃⟩, h₄⟩, h₅⟩, h₆⟩, h₇⟩, h₈⟩
    exact ⟨⟨h₁, h₂⟩, h₃, h₄, h₅, h₆, h₇, h₈⟩
  · rintro ⟨⟨h₁, h₂⟩, h₃, h₄, h₅, h₆, h₇, h₈⟩
    exact ⟨⟨⟨⟨⟨⟨⟨h₁, h₂⟩, h₃⟩, h₄⟩, h₅⟩, h₆⟩, h₇⟩, h₈⟩

theorem members_of_isCollectionRequirementSpec {v : Json ν} (h : isCollectionRequirementSpec p v) :
    ∃ fields title description required optional outputs sample, v = .obj fields ∧
      Members fields title description required optional outputs sample := by
  cases v with
  | obj fields =>
    rw [isCollectionRequirementSpec] at h
    split at h
    · rename_i required optional outputs sample hrequired hoptional houtputs hsample
      simp only [Bool.and_eq_true] at h
      obtain ⟨⟨⟨⟨⟨⟨⟨htitle, hdescription⟩, -⟩, -⟩, -⟩, -⟩, -⟩, -⟩ := h
      obtain ⟨title, htitle, -⟩ := (Option.any_eq_true _ _).mp htitle
      obtain ⟨description, hdescription, -⟩ := (Option.any_eq_true _ _).mp hdescription
      exact ⟨fields, title, description, required, optional, outputs, sample, rfl,
        textMember_eq_some.mp htitle, textMember_eq_some.mp hdescription, hrequired, hoptional,
        houtputs, hsample⟩
    · cases h
  | _ => cases h

end Extension

section Portable

variable [LinearOrder ν] (p : Platform ν)

/-- Every default has the type of its input, every value of a constraint has the form that its
name asks for, and no text is white space to the extension. -/
structure Portable (s : CollectionRequirementSpec ν) : Prop where
  texts : ∀ text ∈ s.texts, isTrimmedEmpty text = false
  defaults : ∀ i ∈ s.inputs, ∀ v ∈ i.default, matchesType v i.type = true
  constraints : ∀ i ∈ s.inputs, ∀ c ∈ i.constraints, validConstraint p i.type c = true

variable {p} {s : CollectionRequirementSpec ν} {i : RequirementInput ν} {f : RequirementOutputField}

structure FieldMembers (v : Json ν) (fields : Fields ν) (name type description : String) : Prop where
  obj : v = .obj fields
  name : fields.lookup "name" = some (.str name)
  type : fields.lookup "type" = some (.str type)
  description : fields.lookup "description" = some (.str description)

section FieldMembers

variable {v : Json ν} {fields : Fields ν} {name type description : String}

omit [LinearOrder ν] in
theorem FieldMembers.read (h : FieldMembers v fields name type description) :
    nameOf v = name ∧ typeOf v = type ∧ descriptionOf v = description := by
  obtain ⟨rfl, hname, htype, hdescription⟩ := h
  rw [nameOf, typeOf, descriptionOf, textMember_eq_some.mpr hname, textMember_eq_some.mpr htype,
    textMember_eq_some.mpr hdescription]
  exact ⟨rfl, rfl, rfl⟩

omit [LinearOrder ν] in
theorem FieldMembers.valid_iff (h : FieldMembers v fields name type description) :
    validRequirementField v ↔ isIdentifier name = true ∧
      isTrimmedEmpty description = false ∧ validType type = true := by
  obtain ⟨hn, ht, hd⟩ := h.read
  rw [validRequirementField_iff, hn, ht, hd]
  refine and_iff_right ⟨fields, name, type, description, h.obj, ?_⟩
  exact ⟨textMember_eq_some.mpr h.name, textMember_eq_some.mpr h.type, textMember_eq_some.mpr h.description⟩

omit [LinearOrder ν] in
theorem fieldMembers_of_valid (h : validRequirementField v) :
    ∃ fields, FieldMembers v fields (nameOf v) (typeOf v) (descriptionOf v) := by
  obtain ⟨⟨fields, name, type, description, rfl, hname, htype, hdescription⟩, -⟩ :=
    validRequirementField_iff.mp h
  have hmembers : FieldMembers (.obj fields) fields name type description :=
    ⟨rfl, textMember_eq_some.mp hname, textMember_eq_some.mp htype, textMember_eq_some.mp hdescription⟩
  obtain ⟨hn, ht, hd⟩ := hmembers.read
  exact ⟨fields, hn ▸ ht ▸ hd ▸ hmembers⟩

end FieldMembers

omit [LinearOrder ν] in
theorem input_members : ∃ fields, FieldMembers i.toJson fields i.name i.type i.description ∧
    fields.lookup "secret" = (if i.secret then some (.bool true) else none) ∧
    fields.lookup "default" = i.default ∧
    fields.lookup "constraints" = if i.constraints.isEmpty then none else some (.obj i.constraints) := by
  refine ⟨_, ⟨rfl, ?_, ?_, ?_⟩, ?_, ?_, ?_⟩ <;>
    cases hd : i.default <;> by_cases hc : i.constraints.isEmpty <;>
    cases hs : i.secret <;> simp [lookup_cons, lookup_nil, hc]

omit [LinearOrder ν] in
theorem nameOf_input : nameOf i.toJson = i.name := by
  obtain ⟨_, hmembers, -⟩ := input_members (i := i)
  exact hmembers.read.1

omit [LinearOrder ν] in
theorem output_members : ∃ fields, FieldMembers (f.toJson : Json ν) fields f.name f.type f.description :=
  ⟨_, rfl, rfl, rfl, rfl⟩

theorem validRequirementInput_toJson : validRequirementInput p i.toJson ↔
    (isIdentifier i.name ∧ isTrimmedEmpty i.description = false ∧
      validType i.type) ∧ (∀ v ∈ i.default, matchesType v i.type) ∧
      (i.constraints.isEmpty ∨ (∀ c ∈ i.constraints, validConstraint p i.type c) ∧
        ∀ v ∈ i.default, valueSatisfiesConstraints p v i.constraints) := by
  obtain ⟨fields, hmembers, hsecret, hdefault, hconstraints⟩ := input_members (i := i)
  have htype : typeOf (.obj fields) = i.type := by
    rw [← hmembers.obj]
    exact hmembers.read.2.1
  have hfield := hmembers.valid_iff
  rw [hmembers.obj] at hfield ⊢
  rw [validRequirementInput_obj, hfield, htype, hsecret, hdefault, hconstraints]
  refine and_congr_right fun _ => ?_
  have hflag : ∀ v ∈ (if i.secret then some (.bool true : Json ν) else none),
      matchesType v "boolean" = true := by
    intro v hv
    split at hv
    · cases hv
      rfl
    · cases hv
  rw [and_iff_right hflag]
  refine and_congr_right fun _ => ?_
  by_cases hempty : i.constraints.isEmpty
  · simp [validConstraints, hempty]
  · rw [if_neg hempty, validConstraints, or_iff_right hempty]
    simp only [Bool.and_eq_true, all_eq_true, Option.all_eq_true, Option.mem_def]

/-- What the server accepts, the extension accepts exactly when it is portable. -/
theorem portable_iff (h : Accepted p s) : isCollectionRequirementSpec p s.toJson ↔ Portable p s := by
  obtain ⟨hrequired, hoptional, hsample⟩ := h.lists
  obtain ⟨required, hrequired⟩ := Option.isSome_iff_exists.mp hrequired
  obtain ⟨optional, hoptional⟩ := Option.isSome_iff_exists.mp hoptional
  obtain ⟨sample, hsample⟩ := Option.isSome_iff_exists.mp hsample
  have hinputs : s.inputs = required ++ optional := by
    rw [CollectionRequirementSpec.inputs, hrequired, hoptional]
    rfl
  obtain ⟨fields, hjson, hmembers⟩ : ∃ fields, s.toJson = .obj fields ∧
      Members fields s.title s.description (required.map RequirementInput.toJson)
        (optional.map RequirementInput.toJson)
        (s.outputFields.map RequirementOutputField.toJson) sample := by
    refine ⟨_, rfl, rfl, rfl, ?_, ?_, rfl, ?_⟩
    · exact congrArg (fun l => some (listJson RequirementInput.toJson l)) hrequired
    · exact congrArg (fun l => some (listJson RequirementInput.toJson l)) hoptional
    · exact congrArg (fun o => some ((Option.map Json.obj o).getD .null)) hsample
  have hterms : containsUnsafeRequirement p.number (.obj fields) = false := by
    rw [← hjson]
    by_contra hunsafe
    have := containsUnsafe_of_extension p.number (by simpa using hunsafe)
    rw [h.terms] at this
    cases this
  have hnames : (required.map RequirementInput.toJson ++ optional.map RequirementInput.toJson).map
      nameOf = s.inputs.map RequirementInput.name := by
    rw [← map_append, ← hinputs, map_map]
    exact map_congr_left fun i _ => nameOf_input
  have hsamples : (s.outputFields.map fun f => (f.toJson : Json ν)).map
      (fun o => (nameOf o, typeOf o)) = s.outputFields.map fun f => (f.name, f.type) := by
    rw [map_map]
    exact map_congr_left fun f _ => rfl
  rw [hjson, hmembers.isCollectionRequirementSpec_iff]
  constructor
  · intro hadmitted
    have hvalid : ∀ i ∈ s.inputs, validRequirementInput p i.toJson := by
      intro i hi
      refine hadmitted.inputs _ ?_
      rw [← map_append, ← hinputs]
      exact mem_map_of_mem hi
    refine ⟨?_, ?_, ?_⟩
    · intro text htext
      rw [CollectionRequirementSpec.texts] at htext
      simp only [cons_append, mem_cons, mem_append, mem_map] at htext
      rcases htext with rfl | rfl | ⟨i, hi, rfl⟩ | ⟨f, hf, rfl⟩
      · exact hadmitted.texts.1
      · exact hadmitted.texts.2
      · exact (validRequirementInput_toJson.mp (hvalid i hi)).1.2.1
      · obtain ⟨_, hfield⟩ := output_members (ν := ν) (f := f)
        exact (hfield.valid_iff.mp (hadmitted.fields _ (mem_map_of_mem hf))).2.1
    · intro i hi
      exact (validRequirementInput_toJson.mp (hvalid i hi)).2.1
    · intro i hi c hc
      rcases (validRequirementInput_toJson.mp (hvalid i hi)).2.2 with hempty | hall
      · rw [List.isEmpty_iff.mp hempty] at hc
        exact absurd hc not_mem_nil
      · exact hall.1 c hc
  · intro hportable
    have htexts := hportable.texts
    rw [CollectionRequirementSpec.texts] at htexts
    simp only [cons_append, mem_cons, mem_append, mem_map] at htexts
    refine ⟨⟨htexts _ (.inl rfl), htexts _ (.inr (.inl rfl))⟩, ?_, hterms, ?_, ?_, ?_, ?_⟩
    · simpa using h.outputs
    · intro v hv
      rw [← map_append, ← hinputs] at hv
      obtain ⟨i, hi, rfl⟩ := mem_map.mp hv
      obtain ⟨⟨hname, -, htype⟩, -, hdefault⟩ := (validateInput_eq_ok p).mp (h.inputs i hi)
      refine validRequirementInput_toJson.mpr ⟨⟨hname, ?_, htype⟩, hportable.defaults i hi, ?_⟩
      · exact htexts _ (.inr (.inr (.inl ⟨i, hi, rfl⟩)))
      · exact hdefault.imp_right fun hsatisfies => ⟨hportable.constraints i hi, hsatisfies⟩
    · intro v hv
      obtain ⟨f, hf, rfl⟩ := mem_map.mp hv
      obtain ⟨hname, -, htype⟩ := validateField_eq_ok.mp (h.fields f hf)
      obtain ⟨_, hfield⟩ := output_members (ν := ν) (f := f)
      refine hfield.valid_iff.mpr ⟨hname, ?_, htype⟩
      exact htexts _ (.inr (.inr (.inr ⟨f, hf, rfl⟩)))
    · rw [hnames]
      exact h.names
    · rw [hsamples]
      have hsampled := h.samples
      rwa [hsample] at hsampled

end Portable

section Read

def ExactMembers (members : List String) (fields : Fields ν) : Prop :=
  ∀ f ∈ fields, ∀ name ∈ members, Rules.Rule.foldName f.1 = Rules.Rule.foldName name → f.1 = name

instance (members : List String) (fields : Fields ν) : Decidable (ExactMembers members fields) :=
  inferInstanceAs (Decidable (∀ f ∈ fields, ∀ name ∈ members,
    Rules.Rule.foldName f.1 = Rules.Rule.foldName name → f.1 = name))

def fieldsOf : Json ν → Fields ν
  | .obj fields => fields
  | _ => []

def itemsOf (v : Json ν) (name : String) : List (Json ν) :=
  match (fieldsOf v).lookup name with
  | some (.arr items) => items
  | _ => []

/-- The requirement, its inputs and its output fields have exact members. -/
structure Exact (v : Json ν) : Prop where
  spec : ExactMembers specMembers (fieldsOf v)
  inputs : ∀ i ∈ itemsOf v "requiredInputs" ++ itemsOf v "optionalInputs",
    ExactMembers inputMembers (fieldsOf i)
  outputs : ∀ o ∈ itemsOf v "outputFields", ExactMembers outputMembers (fieldsOf o)

/-- The requirement, an input or an output field has a member that the strict decoder refuses. -/
def hasUnknown (strict : Bool) (v : Json ν) : Bool :=
  unknown strict specMembers (fieldsOf v) ||
    (itemsOf v "requiredInputs").any (fun i => unknown strict inputMembers (fieldsOf i)) ||
    (itemsOf v "optionalInputs").any (fun i => unknown strict inputMembers (fieldsOf i)) ||
    (itemsOf v "outputFields").any fun o => unknown strict outputMembers (fieldsOf o)

variable {fields : Fields ν} {members : List String} {name : String}

theorem member_of_exact (hexact : ExactMembers members fields) (hkeys : (fields.map Prod.fst).Nodup)
    (hname : name ∈ members) : member fields name = fields.lookup name := by
  induction fields with
  | nil => rfl
  | cons f fields ih =>
    obtain ⟨hf, hfields⟩ := forall_mem_cons.mp hexact
    rw [map_cons, nodup_cons] at hkeys
    have ih' := ih hfields hkeys.2
    rw [member] at ih' ⊢
    by_cases hfold : Rules.Rule.foldName f.1 = Rules.Rule.foldName name
    · have hfname : f.1 = name := hf name hname hfold
      have hrest : fields.filter
          (fun g => Rules.Rule.foldName g.1 = Rules.Rule.foldName name) = [] := by
        refine filter_eq_nil_iff.mpr ?_
        intro g hg hfoldg
        have hgname := hfields g hg name hname (of_decide_eq_true hfoldg)
        refine hkeys.1 ?_
        rw [hfname, ← hgname]
        exact mem_map_of_mem hg
      rw [filter_cons_of_pos (by simpa using hfold), hrest, ← hfname, Assoc.lookup_cons_self]
      rfl
    · have hne : name ≠ f.1 := by
        rintro rfl
        exact hfold rfl
      rw [filter_cons_of_neg (by simpa using hfold), ih', Assoc.lookup_cons_ne hne]

theorem mapM_of_guard {α β : Type} {f : α → Option β} {g : α → β} {bad : α → Bool} {items : List α}
    (h : ∀ x ∈ items, f x = if bad x then none else some (g x)) :
    items.mapM f = if items.any bad then none else some (items.map g) := by
  induction items with
  | nil => rfl
  | cons x items ih =>
    obtain ⟨hx, hitems⟩ := forall_mem_cons.mp h
    rw [mapM_cons, hx, ih hitems]
    by_cases hbad : bad x
    · simp [hbad]
    · by_cases hany : items.any bad
      all_goals simp [hbad, hany]

def constraintsOf (v : Json ν) : Fields ν :=
  match (fieldsOf v).lookup "constraints" with
  | some (.obj constraints) => constraints
  | _ => []

def secretOf (v : Json ν) : Bool :=
  match (fieldsOf v).lookup "secret" with
  | some (.bool b) => b
  | _ => false

def readInput (v : Json ν) : RequirementInput ν :=
  ⟨nameOf v, typeOf v, descriptionOf v, (fieldsOf v).lookup "default", constraintsOf v, secretOf v⟩

def readOutput (v : Json ν) : RequirementOutputField := ⟨nameOf v, typeOf v, descriptionOf v⟩

variable [LinearOrder ν] {p : Platform ν} {strict : Bool} {v : Json ν}

omit [LinearOrder ν] in
theorem decodeOutputField_eq (hvalid : validRequirementField v) (hwf : v.wf)
    (hexact : ExactMembers outputMembers (fieldsOf v)) :
    decodeOutputField strict v =
      if unknown strict outputMembers (fieldsOf v) then none else some (readOutput v) := by
  obtain ⟨fields, hmembers⟩ := fieldMembers_of_valid hvalid
  obtain ⟨hobj, hname, htype, hdescription⟩ := hmembers
  rw [readOutput]
  generalize nameOf v = name at *
  generalize typeOf v = type at *
  generalize descriptionOf v = description at *
  subst hobj
  have hkeys := (Json.wf_obj.mp hwf).1.nodup_keys
  have hread (key : String) (hkey : key ∈ outputMembers) := member_of_exact hexact hkeys hkey
  rw [fieldsOf] at *
  rw [decodeOutputField, hread "name" (by decide), hread "type" (by decide),
    hread "description" (by decide), hname, htype, hdescription]
  by_cases hunknown : unknown strict outputMembers fields
  · simp [hunknown]
  · simp [hunknown, decodeText]

omit [LinearOrder ν] in
theorem decodeFlag_of_boolean (h : ∀ w ∈ fields.lookup "secret", matchesType w "boolean" = true) :
    decodeFlag (fields.lookup "secret") = some (secretOf (.obj fields)) := by
  rw [secretOf, fieldsOf]
  generalize fields.lookup "secret" = o at h ⊢
  cases o with
  | none => rfl
  | some w =>
    have hw := h w rfl
    cases w with
    | bool b => rfl
    | _ => simp [matchesType] at hw

omit [LinearOrder ν] in
theorem decodeAny_of_matches {o : Option (Json ν)} {type : String}
    (h : ∀ w ∈ o, matchesType w type) : decodeAny o = o := by
  cases o with
  | none => rfl
  | some w =>
    have hw := h w rfl
    cases w with
    | null => cases hw
    | _ => rfl

theorem decodeMap_of_valid {default : Option (Json ν)} {type : String}
    (h : validConstraints p type default (fields.lookup "constraints") = true) :
    ∃ constraints, decodeMap (fields.lookup "constraints") = some constraints ∧
      constraints.getD [] = constraintsOf (.obj fields) := by
  rw [constraintsOf, fieldsOf]
  generalize fields.lookup "constraints" = o at h ⊢
  cases o with
  | none => exact ⟨none, rfl, rfl⟩
  | some w =>
    cases w with
    | obj constraints => exact ⟨some constraints, rfl, rfl⟩
    | _ => cases h

theorem decodeInput_eq (hvalid : validRequirementInput p v) (hwf : v.wf)
    (hexact : ExactMembers inputMembers (fieldsOf v)) :
    decodeInput strict v =
      if unknown strict inputMembers (fieldsOf v) then none else some (readInput v) := by
  cases v with
  | obj fields =>
    obtain ⟨hfield, hsecret, hdefault, hconstraints⟩ := (validRequirementInput_obj p).mp hvalid
    obtain ⟨fields', hobj, hname, htype, hdescription⟩ := fieldMembers_of_valid hfield
    cases hobj
    have hkeys := (Json.wf_obj.mp hwf).1.nodup_keys
    have hread (key : String) (hkey : key ∈ inputMembers) := member_of_exact hexact hkeys hkey
    obtain ⟨constraints, hmap, hgetD⟩ := decodeMap_of_valid hconstraints
    have hflag := decodeFlag_of_boolean hsecret
    have hany := decodeAny_of_matches hdefault
    rw [fieldsOf] at *
    rw [decodeInput, hread "name" (by decide), hread "type" (by decide),
      hread "description" (by decide), hread "default" (by decide), hread "constraints" (by decide),
      hread "secret" (by decide), hname, htype, hdescription, hmap, hflag, hany]
    by_cases hunknown : unknown strict inputMembers fields
    · simp [hunknown]
    · simp [hunknown, decodeText, readInput, fieldsOf, hgetD]
  | _ => cases hvalid

def readSpec (title description : String) (required optional outputs : List (Json ν))
    (sample : Fields ν) : CollectionRequirementSpec ν :=
  ⟨title, description, some (required.map readInput), some (optional.map readInput),
    outputs.map readOutput, some sample⟩

variable {sample : Fields ν} {title description : String} {required optional outputs : List (Json ν)}

theorem decodeInputs_eq (strict : Bool) {inputs : List (Json ν)}
    (hvalid : ∀ i ∈ inputs, validRequirementInput p i) (hwf : ∀ i ∈ inputs, i.wf)
    (hexact : ∀ i ∈ inputs, ExactMembers inputMembers (fieldsOf i)) :
    inputs.mapM (decodeInput strict) =
      if inputs.any (fun i => unknown strict inputMembers (fieldsOf i)) then none
      else some (inputs.map readInput) :=
  mapM_of_guard fun i hi => decodeInput_eq (hvalid i hi) (hwf i hi) (hexact i hi)

/-- The server reads an object that the extension admits as the requirement that it shows. -/
theorem decode_eq (strict : Bool) (hm : Members fields title description required optional outputs sample)
    (ha : Admitted p fields title description required optional outputs sample)
    (hwf : (Json.obj fields).wf) (hexact : Exact (.obj fields)) :
    decode strict (.obj fields) = if hasUnknown strict (.obj fields) then none
      else some (readSpec title description required optional outputs sample) := by
  obtain ⟨hspec, hinputs, houtputs⟩ := hexact
  have hrequired : itemsOf (.obj fields) "requiredInputs" = required := by
    simp [itemsOf, fieldsOf, hm.required]
  have hoptional : itemsOf (.obj fields) "optionalInputs" = optional := by
    simp [itemsOf, fieldsOf, hm.optional]
  have houtput : itemsOf (.obj fields) "outputFields" = outputs := by
    simp [itemsOf, fieldsOf, hm.outputs]
  rw [hrequired, hoptional] at hinputs
  rw [houtput] at houtputs
  obtain ⟨hsorted, hparts⟩ := Json.wf_obj.mp hwf
  have hitems {key : String} {items : List (Json ν)} (h : fields.lookup key = some (.arr items)) :
      ∀ v ∈ items, v.wf := by
    have harr := Json.wf_of_lookup hparts h
    rw [Json.wf] at harr
    exact Json.wfItems_iff.mp harr
  have hread (key : String) (hkey : key ∈ specMembers) :=
    member_of_exact hspec hsorted.nodup_keys hkey
  have hleft := decodeInputs_eq strict
    (fun i hi => ha.inputs i (mem_append_left _ hi)) (hitems hm.required)
    (fun i hi => hinputs i (mem_append_left _ hi))
  have hright := decodeInputs_eq strict
    (fun i hi => ha.inputs i (mem_append_right _ hi)) (hitems hm.optional)
    (fun i hi => hinputs i (mem_append_right _ hi))
  have hfields := mapM_of_guard (f := decodeOutputField strict) fun o ho =>
    decodeOutputField_eq (ha.fields o ho) (hitems hm.outputs o ho) (houtputs o ho)
  rw [fieldsOf] at *
  rw [decode, hread "title" (by decide), hread "description" (by decide),
    hread "requiredInputs" (by decide), hread "optionalInputs" (by decide),
    hread "outputFields" (by decide), hread "sampleOutput" (by decide), hm.title, hm.description,
    hm.required, hm.optional, hm.outputs, hm.sample, hasUnknown, hrequired, hoptional, houtput,
    fieldsOf, decodeList, decodeList, decodeList, hleft, hright, hfields]
  by_cases hu : unknown strict specMembers fields
  · simp [hu]
  · by_cases hl : required.any (fun i => unknown strict inputMembers (fieldsOf i)) = true
    · simp [hu, hl, decodeText]
    · by_cases hr : optional.any (fun i => unknown strict inputMembers (fieldsOf i)) = true
      · simp [hu, hl, hr, decodeText]
      · by_cases ho : outputs.any (fun o => unknown strict outputMembers (fieldsOf o)) = true
        · simp [hu, hl, hr, ho, decodeText]
        · simp [hu, hl, hr, ho, decodeText, decodeMap, readSpec]

/-- Every text is more than white space to the server, and the text of the requirement as the server
writes it has no sensitive term. -/
structure Legible (p : Platform ν) (s : CollectionRequirementSpec ν) : Prop where
  texts : ∀ text ∈ s.texts, isBlank text = false
  terms : containsUnsafe (mustJSON p.number s.toJson) = false

theorem validateInput_readInput (hvalid : validRequirementInput p v) :
    validateInput p (readInput v) = .ok () ↔ isBlank (descriptionOf v) = false := by
  cases v with
  | obj fields =>
    obtain ⟨hfield, -, -, hconstraints⟩ := (validRequirementInput_obj p).mp hvalid
    obtain ⟨-, hname, -, htype⟩ := validRequirementField_iff.mp hfield
    rw [validateInput_eq_ok]
    constructor
    · intro h
      exact h.1.2.1
    · intro hblank
      refine ⟨⟨hname, hblank, htype⟩, ?_⟩
      rw [readInput, constraintsOf, fieldsOf]
      generalize fields.lookup "constraints" = o at hconstraints ⊢
      cases o with
      | none => exact ⟨fun c hc => absurd hc not_mem_nil, .inl rfl⟩
      | some w =>
        cases w with
        | obj constraints =>
          rw [validConstraints, Bool.and_eq_true, all_eq_true, Option.all_eq_true] at hconstraints
          refine ⟨fun c hc => ?_, .inr fun v hv => hconstraints.2 v hv⟩
          have hc' := hconstraints.1 c hc
          rw [validConstraint, Bool.and_eq_true] at hc'
          exact hc'.1
        | _ => cases hconstraints
  | _ => cases hvalid

/-- What the extension admits, the server accepts exactly when it is legible. -/
theorem legible_iff (ha : Admitted p fields title description required optional outputs sample) :
    validateSpec p (readSpec title description required optional outputs sample) = .ok () ↔
      Legible p (readSpec title description required optional outputs sample) := by
  rw [validateSpec_eq_ok]
  constructor
  · intro h
    refine ⟨?_, h.terms⟩
    intro text htext
    rw [CollectionRequirementSpec.texts] at htext
    simp only [cons_append, mem_cons, mem_append, mem_map] at htext
    rcases htext with rfl | rfl | ⟨i, hi, rfl⟩ | ⟨f, hf, rfl⟩
    · exact h.texts.1
    · exact h.texts.2
    · exact ((validateInput_eq_ok p).mp (h.inputs i hi)).1.2.1
    · exact (validateField_eq_ok.mp (h.fields f hf)).2.1
  · intro h
    have htexts := h.texts
    rw [CollectionRequirementSpec.texts] at htexts
    simp only [cons_append, mem_cons, mem_append, mem_map] at htexts
    have hinputs : (readSpec title description required optional outputs sample).inputs =
        (required ++ optional).map readInput := map_append.symm
    refine ⟨⟨htexts _ (.inl rfl), htexts _ (.inr (.inl rfl))⟩, ?_, ⟨rfl, rfl, rfl⟩, h.terms, ?_, ?_, ?_, ?_⟩
    · simpa [readSpec] using ha.outputFields
    · intro i hi
      have hblank := htexts _ (.inr (.inr (.inl ⟨i, hi, rfl⟩)))
      rw [hinputs] at hi
      obtain ⟨v, hv, rfl⟩ := mem_map.mp hi
      exact (validateInput_readInput (ha.inputs v hv)).mpr hblank
    · rw [hinputs, map_map]
      exact ha.names
    · intro f hf
      have hblank := htexts _ (.inr (.inr (.inr ⟨f, hf, rfl⟩)))
      obtain ⟨v, hv, rfl⟩ := mem_map.mp hf
      obtain ⟨-, hname, -, htype⟩ := validRequirementField_iff.mp (ha.fields v hv)
      exact validateField_eq_ok.mpr ⟨hname, hblank, htype⟩
    · simpa [readSpec, readOutput, Function.comp_def] using ha.samples

/-- Each side accepts what the other accepts exactly when the requirement is `Portable`, or `Legible`
without a member that the strict decoder refuses. -/
theorem agreement (p : Platform ν) : (∀ s, validateSpec p s = .ok () →
      (isCollectionRequirementSpec p s.toJson = true ↔ Portable p s)) ∧
    ∀ strict v, v.wf = true → Exact v → isCollectionRequirementSpec p v = true →
      ((∃ s, decode strict v = some s ∧ validateSpec p s = .ok ()) ↔
        hasUnknown strict v = false ∧ ∀ s, decode strict v = some s → Legible p s) := by
  refine ⟨fun s hs => portable_iff ((validateSpec_eq_ok p).mp hs), ?_⟩
  intro strict v hwf hexact haccepted
  obtain ⟨fields, title, description, required, optional, outputs, sample, rfl, hmembers⟩ :=
    members_of_isCollectionRequirementSpec haccepted
  have hadmitted := hmembers.isCollectionRequirementSpec_iff.mp haccepted
  have hdecode := decode_eq strict hmembers hadmitted hwf hexact
  by_cases hunknown : hasUnknown strict (.obj fields) = true
  · rw [if_pos hunknown] at hdecode
    constructor
    · rintro ⟨s, hs, -⟩
      rw [hdecode] at hs
      cases hs
    · rintro ⟨hknown, -⟩
      rw [hknown] at hunknown
      cases hunknown
  · rw [if_neg hunknown] at hdecode
    have hiff := legible_iff hadmitted
    constructor
    · rintro ⟨s, hs, hvalid⟩
      rw [hdecode] at hs
      cases hs
      refine ⟨by simpa using hunknown, ?_⟩
      intro s' hs'
      rw [hdecode] at hs'
      cases hs'
      exact hiff.mp hvalid
    · rintro ⟨-, hlegible⟩
      exact ⟨_, hdecode, hiff.mpr (hlegible _ hdecode)⟩

end Read

section Prices

def wholeNumbers : Platform Int := ⟨Int.ofNat, fun n => (toString n).toList, fun _ => none⟩

/-- Up to `limit` prices of a page, ten where nothing is said. -/
def prices (default : Json Int) : CollectionRequirementSpec Int where
  title := "Prices"
  description := "The prices of a page"
  requiredInputs := some []
  optionalInputs := some [⟨"limit", "number", "How many", some default, [("minimum", .num 1)], false⟩]
  outputFields := [⟨"price", "string", "The price"⟩]
  sampleOutput := some [("price", .str "9.99")]

theorem prices_agreed : isCollectionRequirementSpec wholeNumbers (prices (.num 10)).toJson = true ∧
      ∃ s, decode true (prices (.num 10)).toJson = some s ∧ validateSpec wholeNumbers s = .ok () := by
  have haccepted : isCollectionRequirementSpec wholeNumbers (prices (.num 10)).toJson = true := by
    refine ((agreement wholeNumbers).1 (prices (.num 10)) (by decide +kernel)).mpr ?_
    exact ⟨by decide +kernel, by decide +kernel, by decide +kernel⟩
  refine ⟨haccepted, ((agreement wholeNumbers).2 true _ (by decide +kernel) ?_ haccepted).mpr ?_⟩
  · exact ⟨by decide +kernel, by decide +kernel, by decide +kernel⟩
  · refine ⟨by decide +kernel, ?_⟩
    rintro s ⟨⟩
    exact ⟨by decide +kernel, by decide +kernel⟩

/-- A number that defaults to a text passes the server, and not the extension. -/
theorem mistypedDefault_refused : ¬ ((∀ s, validateSpec wholeNumbers s = .ok () →
        isCollectionRequirementSpec wholeNumbers s.toJson = true) ∧
      ∀ v, v.wf = true → isCollectionRequirementSpec wholeNumbers v = true →
        ∃ s, decode false v = some s ∧ validateSpec wholeNumbers s = .ok ()) := by
  rintro ⟨h, -⟩
  have haccepted : isCollectionRequirementSpec wholeNumbers (prices (.str "ten")).toJson = true :=
    h _ (by decide +kernel)
  have hrefused : isCollectionRequirementSpec wholeNumbers (prices (.str "ten")).toJson = false := by
    decide +kernel
  rw [hrefused] at haccepted
  cases haccepted

end Prices

end Requirements

end Aegis
