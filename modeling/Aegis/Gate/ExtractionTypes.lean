import Aegis.Engine.Extraction

/-!
# Gate.ExtractionTypes

The types of extractions that the gate takes for known, of `rule/dsl_workflow.go`, and that they are
those of every producer that it has seen.
-/

namespace Aegis

open List

namespace Extraction

/-- `types` and `ambiguous`. -/
structure Index where
  types : String → Option ValueType
  ambiguous : String → Bool

def Index.empty : Index := ⟨fun _ => none, fun _ => false⟩

def setKnownExtractionType (idx : Index) (path : String) (type : ValueType) : Index :=
  if idx.ambiguous path then idx
  else
    let delete : Index :=
      ⟨fun p => if p = path then none else idx.types p, fun p => p == path || idx.ambiguous p⟩
    let set : Index := ⟨fun p => if p = path then some type else idx.types p, idx.ambiguous⟩
    match idx.types path with
    | some existing => if existing ≠ type then delete else set
    | none => set

def knownExtractFieldType (type : String) : Option ValueType :=
  if ["text", "html", "attr", "css", "regex"].contains type then some .string
  else if ["number", "count"].contains type then some .number
  else if ["boolean", "exists"].contains type then some .boolean
  else none

def collectLeaf (path : String) (idx : Index) (f : FieldSpec) : Index :=
  match knownExtractFieldType f.type with
  | some type => setKnownExtractionType idx path type
  | none => idx

mutual

/-- An iteration of `collectKnownExtractFieldTypes`. -/
def collectField (path : String) (idx : Index) : ExtractField → Index
  | .mk f fields => match fields with
    | some (field :: rest) =>
      collectFields path (setKnownExtractionType idx path .object) (field :: rest)
    | some [] => collectLeaf path idx f
    | none => collectLeaf path idx f

/-- `collectKnownExtractFieldTypes`. -/
def collectFields (parent : String) (idx : Index) : List (String × ExtractField) → Index
  | [] => idx
  | field :: rest => collectFields parent (collectNamed parent idx field) rest

def collectNamed (parent : String) (idx : Index) : String × ExtractField → Index
  | (name, field) => collectField (parent ++ "." ++ name) idx field

end

/-- An iteration of the loop of `knownTransformResultType`. -/
def knownOp (known : Option ValueType) (op : Op) : Option ValueType :=
  let targetsField := trimSpace op.field != ""
  match opKind op.type with
  | .number => if targetsField then known else some .number
  | .filter => some .array
  | .date => if targetsField then known else some .string
  | .jsonParse => if targetsField then known else none
  | .map | .regex | .replace | .trim | .other => known

def knownOps (known : Option ValueType) (ops : List Op) : Option ValueType := ops.foldl knownOp known

def trimPrefix (s text : String) : String :=
  if text.toList.isPrefixOf s.toList then String.ofList (s.toList.drop text.length) else s

def knownTransformResultType (idx : Index) (a : Action) : Option ValueType :=
  let source := trimSpace (trimPrefix (trimSpace a.source) "extracted.")
  knownOps (if idx.ambiguous source then none else idx.types source) a.operations

/-- The cases of the switch of `collectKnownExtractionTypes`. -/
inductive Producer where
  | string | array | object | extract | transform | other

def producer : String → Producer
  | "extractText" | "extractAttribute" | "extractHtml" => .string
  | "extractTable" | "filter" | "deduplicate" => .array
  | "extractPageInfo" => .object
  | "extract" => .extract
  | "transform" => .transform
  | _ => .other

/-- What `collectKnownExtractionTypes` records of an action. -/
def collectAction (idx : Index) (a : Action) : Index :=
  let name := trimSpace a.name
  if name = "" then idx
  else match producer a.action with
    | .string => setKnownExtractionType idx name .string
    | .array => setKnownExtractionType idx name .array
    | .object => setKnownExtractionType idx name .object
    | .extract =>
      if a.multiple then setKnownExtractionType idx name .array
      else collectFields name (setKnownExtractionType idx name .object) (a.fields.getD [])
    | .transform => match knownTransformResultType idx a with
      | some type => setKnownExtractionType idx name type
      | none => idx
    | .other => idx

mutual

/-- An iteration of `collectKnownExtractionTypes`. -/
def collectStep (idx : Index) : Step → Index
  | .mk a thenSteps elseSteps steps default _ cases =>
    collectCases (collectSteps (collectSteps (collectSteps (collectSteps (collectAction idx a)
      thenSteps) elseSteps) steps) default) cases

def collectSteps (idx : Index) : List Step → Index
  | [] => idx
  | step :: rest => collectSteps (collectStep idx step) rest

def collectCases (idx : Index) : List (List Step) → Index
  | [] => idx
  | steps :: cases => collectCases (collectSteps idx steps) cases

end

def collectKnownExtractionTypes (steps : List Step) : Index := collectSteps .empty steps

variable {idx idx' idx'' : Index} {path : String} {type : ValueType} {s s' : Step} {l : List Step}

def Index.Saw (idx : Index) (path : String) (type : ValueType) : Prop :=
  idx.types path = some type ∨ idx.ambiguous path = true

def Index.Ok (idx : Index) : Prop := ∀ path, idx.ambiguous path = true → idx.types path = none

/-- The index knows what it knew, and is sound if it was. -/
structure Index.Extends (idx idx' : Index) : Prop where
  saw : ∀ path type, idx.Saw path type → idx'.Saw path type
  ok : idx.Ok → idx'.Ok

theorem Index.Extends.refl (idx : Index) : idx.Extends idx := ⟨fun _ _ h => h, id⟩

theorem Index.Extends.trans (h : idx.Extends idx') (h' : idx'.Extends idx'') : idx.Extends idx'' :=
  ⟨fun path type hsaw => h'.saw path type (h.saw path type hsaw), fun hok => h'.ok (h.ok hok)⟩

variable (idx path type) in
theorem setKnown_extends :
    idx.Extends (setKnownExtractionType idx path type) := by
  rw [setKnownExtractionType]
  split
  · exact .refl idx
  · rename_i hambiguous
    dsimp only
    split
    · rename_i existing hexisting
      split
      · refine ⟨fun p t hsaw => ?_, fun hok p hp => ?_⟩
        · by_cases hp : p = path
          · exact .inr (by simp [hp])
          · exact hsaw.imp (by simp [hp]) (by simp +contextual)
        · by_cases hpath : p = path
          · simp [hpath]
          · simp only [if_neg hpath]
            exact hok p (by simpa [hpath] using hp)
      · rename_i hsame
        rw [not_not] at hsame
        refine ⟨fun p t hsaw => ?_, fun hok p hp => ?_⟩
        · by_cases hpath : p = path
          · refine .inl ?_
            rcases hsaw with hsaw | hsaw
            · rw [hpath, hexisting] at hsaw
              simpa [hpath, ← hsame] using hsaw
            · exact absurd (hpath ▸ hsaw) hambiguous
          · exact hsaw.imp (by simp [hpath]) id
        · have hpath : p ≠ path := fun h => hambiguous (h ▸ hp)
          simp only [if_neg hpath]
          exact hok p hp
    · rename_i hnone
      refine ⟨fun p t hsaw => ?_, fun hok p hp => ?_⟩
      · have hpath : p ≠ path := by
          rintro rfl
          rcases hsaw with hsaw | hsaw
          · rw [hnone] at hsaw
            cases hsaw
          · exact hambiguous hsaw
        exact hsaw.imp (by simp [hpath]) id
      · have hpath : p ≠ path := fun h => hambiguous (h ▸ hp)
        simp only [if_neg hpath]
        exact hok p hp

variable (idx path type) in
theorem setKnown_saw :
    (setKnownExtractionType idx path type).Saw path type := by
  rw [setKnownExtractionType]
  split
  · rename_i hambiguous
    exact .inr hambiguous
  · dsimp only
    split
    · split
      · exact .inr (by simp)
      · exact .inl (by simp)
    · exact .inl (by simp)

theorem Index.Ok.known (h : idx.Ok) (hsaw : idx.Saw path type) :
    idx.types path = none ∨ idx.types path = some type :=
  hsaw.elim .inr fun hambiguous => .inl (h path hambiguous)

theorem collectFields_extends (parent : String) (idx : Index) (fields : List (String × ExtractField))
    (h : ∀ name field, (name, field) ∈ fields → ∀ path idx,
      Index.Extends idx (collectField path idx field)) :
    idx.Extends (collectFields parent idx fields) := by
  induction fields generalizing idx with
  | nil => exact .refl idx
  | cons field rest ih =>
    obtain ⟨name, field⟩ := field
    rw [collectFields, collectNamed]
    exact (h name field mem_cons_self _ idx).trans
      (ih _ fun name field hf => h name field (mem_cons_of_mem _ hf))

theorem collectField_extends (field : ExtractField) :
    ∀ path idx, Index.Extends idx (collectField path idx field) := by
  have hknown : ∀ (f : FieldSpec) path idx, Index.Extends idx (collectLeaf path idx f) := by
    intro f path idx
    rw [collectLeaf]
    split
    · exact setKnown_extends idx path _
    · exact .refl idx
  induction field using ExtractField.ind with
  | leaf f =>
    intro path idx
    rw [collectField]
    exact hknown f path idx
  | nested f fields ih =>
    intro path idx
    cases fields with
    | nil =>
      rw [collectField]
      exact hknown f path idx
    | cons field rest =>
      rw [collectField]
      exact (setKnown_extends idx path .object).trans (collectFields_extends path _ _ ih)

theorem collectAction_extends (idx : Index) (a : Action) : idx.Extends (collectAction idx a) := by
  rw [collectAction.eq_def]
  dsimp only
  split
  · exact .refl idx
  · split
    · exact setKnown_extends idx _ _
    · exact setKnown_extends idx _ _
    · exact setKnown_extends idx _ _
    · split
      · exact setKnown_extends idx _ _
      · exact (setKnown_extends idx _ _).trans (collectFields_extends _ _ _ fun _ field _ =>
          collectField_extends field)
    · split
      · exact setKnown_extends idx _ _
      · exact .refl idx
    · exact .refl idx

variable (idx l) in
theorem collectSteps_extends
    (h : ∀ s ∈ l, ∀ idx, Index.Extends idx (collectStep idx s)) :
    idx.Extends (collectSteps idx l) := by
  induction l generalizing idx with
  | nil => exact .refl idx
  | cons s l ih =>
    obtain ⟨hs, hl⟩ := forall_mem_cons.mp h
    rw [collectSteps]
    exact (hs idx).trans (ih _ hl)

theorem collectCases_extends (idx : Index) (cases : List (List Step))
    (h : ∀ l ∈ cases, ∀ s ∈ l, ∀ idx, Index.Extends idx (collectStep idx s)) :
    idx.Extends (collectCases idx cases) := by
  induction cases generalizing idx with
  | nil => exact .refl idx
  | cons l cases ih =>
    obtain ⟨hl, hcases⟩ := forall_mem_cons.mp h
    rw [collectCases]
    exact (collectSteps_extends idx l hl).trans (ih _ hcases)

theorem collectStep_extends (s : Step) : ∀ idx, Index.Extends idx (collectStep idx s) := by
  induction s using Step.ind with
  | mk a t e st d op cs iht ihe ihs ihd _ ihc =>
    intro idx
    rw [collectStep]
    exact (((((collectAction_extends idx a).trans (collectSteps_extends _ t iht)).trans
      (collectSteps_extends _ e ihe)).trans (collectSteps_extends _ st ihs)).trans
      (collectSteps_extends _ d ihd)).trans (collectCases_extends _ cs ihc)

/-! ## Every producer has been seen -/

theorem collectSteps_mem (idx : Index) (hs : s ∈ l) :
    ∃ idx', (collectStep idx' s).Extends (collectSteps idx l) := by
  induction l generalizing idx with
  | nil => cases hs
  | cons x l ih =>
    rw [collectSteps]
    rcases mem_cons.mp hs with rfl | hs
    · exact ⟨idx, collectSteps_extends _ l fun s _ => collectStep_extends s⟩
    · exact ih _ hs

theorem collectCases_mem (idx : Index) {cases : List (List Step)} (hs : s ∈ cases.flatten) :
    ∃ idx', (collectStep idx' s).Extends (collectCases idx cases) := by
  induction cases generalizing idx with
  | nil => cases hs
  | cons l cases ih =>
    rw [collectCases]
    rcases mem_append.mp hs with hs | hs
    · obtain ⟨idx', h⟩ := collectSteps_mem idx hs
      exact ⟨idx', h.trans (collectCases_extends _ cases fun _ _ s _ => collectStep_extends s)⟩
    · exact ih _ hs

theorem collectStep_inner {a : Action} {t e st d op : List Step} {cs : List (List Step)} (idx : Index)
    (hs : s ∈ t ++ e ++ st ++ d ++ cs.flatten) :
    ∃ idx', (collectStep idx' s).Extends (collectStep idx (.mk a t e st d op cs)) := by
  have hsteps : ∀ (l : List Step) (idx : Index), idx.Extends (collectSteps idx l) := fun l idx =>
    collectSteps_extends idx l fun s _ => collectStep_extends s
  have hcases : ∀ idx : Index, idx.Extends (collectCases idx cs) := fun idx =>
    collectCases_extends idx cs fun _ _ s _ => collectStep_extends s
  rw [collectStep]
  simp only [mem_append] at hs
  rcases hs with (((hs | hs) | hs) | hs) | hs
  · obtain ⟨idx', h⟩ := collectSteps_mem (collectAction idx a) hs
    exact ⟨idx', (((h.trans (hsteps e _)).trans (hsteps st _)).trans (hsteps d _)).trans (hcases _)⟩
  · obtain ⟨idx', h⟩ := collectSteps_mem _ hs
    exact ⟨idx', ((h.trans (hsteps st _)).trans (hsteps d _)).trans (hcases _)⟩
  · obtain ⟨idx', h⟩ := collectSteps_mem _ hs
    exact ⟨idx', (h.trans (hsteps d _)).trans (hcases _)⟩
  · obtain ⟨idx', h⟩ := collectSteps_mem _ hs
    exact ⟨idx', h.trans (hcases _)⟩
  · exact collectCases_mem _ hs

/-- The collector comes to a step: it is in no `onOpen`. -/
inductive Collected (steps : List Step) : Step → Prop where
  | here {s : Step} (h : s ∈ steps) : Collected steps s
  | inner {a thenSteps elseSteps inside default onOpen cases} {s : Step}
      (h : Collected steps (.mk a thenSteps elseSteps inside default onOpen cases))
      (hs : s ∈ thenSteps ++ elseSteps ++ inside ++ default ++ cases.flatten) : Collected steps s

theorem Collected.extends {steps : List Step} (h : Collected steps s) :
    ∃ idx, (collectStep idx s).Extends (collectKnownExtractionTypes steps) := by
  induction h with
  | here hs => exact collectSteps_mem _ hs
  | inner _ hs ih =>
    obtain ⟨idx, h⟩ := ih
    obtain ⟨idx', h'⟩ := collectStep_inner idx hs
    exact ⟨idx', h'.trans h⟩

section Seen

variable (P : String → ValueType → Prop)

def LeafSeen (path : String) (f : FieldSpec) : Prop :=
  ∀ type, knownExtractFieldType f.type = some type → P path type

mutual

def FieldSeen (path : String) : ExtractField → Prop
  | .mk f fields => match fields with
    | some (field :: rest) => P path .object ∧ FieldsSeen path (field :: rest)
    | some [] => LeafSeen P path f
    | none => LeafSeen P path f

def FieldsSeen (parent : String) : List (String × ExtractField) → Prop
  | [] => True
  | field :: rest => NamedSeen parent field ∧ FieldsSeen parent rest

def NamedSeen (parent : String) : String × ExtractField → Prop
  | (name, field) => FieldSeen (parent ++ "." ++ name) field

end

/-- Of what is recorded for an action, other than `transform`. -/
def ActionSeen (a : Action) : Prop :=
  let name := trimSpace a.name
  name ≠ "" → match producer a.action with
    | .string => P name .string
    | .array => P name .array
    | .object => P name .object
    | .extract =>
      if a.multiple then P name .array
      else P name .object ∧ FieldsSeen P name (a.fields.getD [])
    | .transform | .other => True

end Seen

variable {P Q : String → ValueType → Prop} {fields : List (String × ExtractField)}

theorem FieldsSeen.mem {parent name : String} {field : ExtractField} (h : FieldsSeen P parent fields)
    (hf : (name, field) ∈ fields) : FieldSeen P (parent ++ "." ++ name) field := by
  induction fields with
  | nil => cases hf
  | cons x fields ih =>
    rw [FieldsSeen] at h
    rcases mem_cons.mp hf with rfl | hf
    · rw [NamedSeen] at h
      exact h.1
    · exact ih h.2 hf

theorem FieldsSeen.of_mem {parent : String}
    (h : ∀ name field, (name, field) ∈ fields → FieldSeen P (parent ++ "." ++ name) field) :
    FieldsSeen P parent fields := by
  induction fields with
  | nil => trivial
  | cons x fields ih =>
    obtain ⟨name, field⟩ := x
    rw [FieldsSeen, NamedSeen]
    exact ⟨h name field mem_cons_self, ih fun name field hf => h name field
      (mem_cons_of_mem _ hf)⟩

theorem FieldSeen.mono (field : ExtractField) (himp : ∀ path type, P path type → Q path type) :
    ∀ path, FieldSeen P path field → FieldSeen Q path field := by
  induction field using ExtractField.ind with
  | leaf f =>
    intro path h
    rw [FieldSeen] at h ⊢
    exact fun type htype => himp path type (h type htype)
  | nested f fields ih =>
    intro path h
    cases fields with
    | nil =>
      rw [FieldSeen] at h ⊢
      exact fun type htype => himp path type (h type htype)
    | cons field rest =>
      rw [FieldSeen] at h ⊢
      exact ⟨himp path _ h.1, .of_mem fun name field hf => ih name field hf _ (h.2.mem hf)⟩

theorem ActionSeen.mono {a : Action} (himp : ∀ path type, P path type → Q path type)
    (h : ActionSeen P a) : ActionSeen Q a := by
  intro hname
  have h := h hname
  cases hproducer : producer a.action with
  | string | array | object => exact himp _ _ (by simpa only [hproducer] using h)
  | extract =>
    simp only [hproducer] at h ⊢
    split at h
    · rename_i hmultiple
      rw [if_pos hmultiple]
      exact himp _ _ h
    · rename_i hmultiple
      rw [if_neg hmultiple]
      exact ⟨himp _ _ h.1, .of_mem fun name field hf => FieldSeen.mono field himp _ (h.2.mem hf)⟩
  | transform => trivial
  | other => trivial

theorem collectFields_seen (parent : String) (idx : Index) (fields : List (String × ExtractField))
    (h : ∀ name field, (name, field) ∈ fields → ∀ path idx,
      FieldSeen (collectField path idx field).Saw path field) :
    FieldsSeen (collectFields parent idx fields).Saw parent fields := by
  induction fields generalizing idx with
  | nil => trivial
  | cons x rest ih =>
    obtain ⟨name, field⟩ := x
    have hrest : ∀ name field, (name, field) ∈ rest → ∀ path idx,
        FieldSeen (collectField path idx field).Saw path field :=
      fun name field hf => h name field (mem_cons_of_mem _ hf)
    rw [FieldsSeen, NamedSeen, collectFields, collectNamed]
    refine ⟨?_, ih _ hrest⟩
    exact FieldSeen.mono field (collectFields_extends parent _ rest fun _ field _ =>
      collectField_extends field).saw _ (h name field mem_cons_self _ idx)

theorem collectLeaf_seen (path : String) (idx : Index) (f : FieldSpec) :
    LeafSeen (collectLeaf path idx f).Saw path f := by
  intro type htype
  rw [collectLeaf, htype]
  exact setKnown_saw idx path type

theorem collectField_seen (field : ExtractField) :
    ∀ path idx, FieldSeen (collectField path idx field).Saw path field := by
  induction field using ExtractField.ind with
  | leaf f =>
    intro path idx
    rw [FieldSeen, collectField]
    exact collectLeaf_seen path idx f
  | nested f fields ih =>
    intro path idx
    cases fields with
    | nil =>
      rw [FieldSeen, collectField]
      exact collectLeaf_seen path idx f
    | cons field rest =>
      rw [FieldSeen, collectField]
      refine ⟨?_, collectFields_seen path _ _ ih⟩
      exact (collectFields_extends path _ _ fun _ field _ => collectField_extends field).saw _ _
        (setKnown_saw idx path .object)

theorem collectAction_seen (idx : Index) (a : Action) : ActionSeen (collectAction idx a).Saw a := by
  intro hname
  rw [collectAction.eq_def]
  dsimp only
  rw [if_neg hname]
  cases producer a.action with
  | string | array | object => exact setKnown_saw idx _ _
  | extract =>
    dsimp only
    by_cases hmultiple : a.multiple
    · rw [if_pos hmultiple, if_pos hmultiple]
      exact setKnown_saw idx _ _
    · rw [if_neg hmultiple, if_neg hmultiple]
      refine ⟨?_, collectFields_seen _ _ _ fun _ field _ => collectField_seen field⟩
      exact (collectFields_extends _ _ _ fun _ field _ => collectField_extends field).saw _ _
        (setKnown_saw idx _ _)
  | transform => trivial
  | other => trivial

/-- The types are those of every producer: where there is one it is what each has recorded. -/
def Agrees (types : String → Option ValueType) (path : String) (type : ValueType) : Prop :=
  types path = none ∨ types path = some type

theorem Collected.agrees {steps : List Step} (h : Collected steps s) :
    ActionSeen (Agrees (collectKnownExtractionTypes steps).types) (actionOf s) := by
  have hok : (collectKnownExtractionTypes steps).Ok := by
    have hempty : Index.Ok .empty := nofun
    exact (collectSteps_extends .empty steps fun s _ => collectStep_extends s).ok hempty
  obtain ⟨idx, hextends⟩ := h.extends
  obtain ⟨a, t, e, st, d, op, cs⟩ := s
  have hstep : (collectAction idx a).Extends (collectStep idx (.mk a t e st d op cs)) := by
    have hsteps : ∀ (l : List Step) (idx : Index), idx.Extends (collectSteps idx l) := fun l idx =>
      collectSteps_extends idx l fun s _ => collectStep_extends s
    rw [collectStep]
    exact ((((hsteps t _).trans (hsteps e _)).trans (hsteps st _)).trans (hsteps d _)).trans
      (collectCases_extends _ cs fun _ _ s _ => collectStep_extends s)
  exact (collectAction_seen idx a).mono fun path type hsaw =>
    hok.known ((hstep.trans hextends).saw path type hsaw)

end Extraction

end Aegis
