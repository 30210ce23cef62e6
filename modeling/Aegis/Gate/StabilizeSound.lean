import Aegis.Gate.Stabilize

/-!
# Gate.StabilizeSound

What the stabilization of extraction selectors keeps: everything but selectors and the targets of
readiness waits, and the selectors where the preferred candidates agree with them in all that was
recorded.
-/

namespace Aegis

open List Option

namespace Stabilize

variable {ν N T : Type}

def caseList : Json ν → Option (List (Json ν))
  | .obj case =>
    match case.lookup "steps" with
    | some (.arr items) => some items
    | _ => none
  | _ => none

def listUnder (key : String) (case : Nat) : Json ν → Option (List (Json ν))
  | .arr items =>
    if nestedActionListKeys.contains key then some items
    else if key = "cases" then items[case]?.bind caseList
    else none
  | .obj step => if key = "trigger" then some [.obj step] else none
  | _ => none

def listBelow : List (Nat × String × Nat) → List (Json ν) → Option (List (Json ν))
  | [], items => some items
  | (i, key, case) :: place, items =>
    match items[i]? with
    | some (.obj step) =>
      ((step.lookup key).bind (listUnder key case)).bind fun inner => listBelow place inner
    | _ => none

def ruleList (rule : Rule ν) : Option String → Option (List (Json ν))
  | none =>
    match rule.steps with
    | .arr items => some items
    | _ => none
  | some name =>
    match rule.hooks with
    | some (.obj hooks) =>
      match hooks.lookup name with
      | some (.arr items) => if selectorEvidenceHookNames.contains name then some items else none
      | _ => none
    | _ => none

def listAt (rule : Rule ν) (hook : Option String) (place : List (Nat × String × Nat)) :
    Option (List (Json ν)) :=
  (ruleList rule hook).bind (listBelow place)

def fieldsBelow : List String → Fields ν → Option (List String × Fields ν)
  | [], fields => some ([], fields)
  | name :: names, fields =>
    match fields.lookup name with
    | some (.obj field) =>
      match field.lookup "fields" with
      | some (.obj nested) =>
        (fieldsBelow names nested).map fun below => (selectorOf field :: below.1, below.2)
      | _ => none
    | _ => none

def relativeNodes (engine : Engine N T) (selector : String) (row : N) : List N :=
  if selector = "" then [row] else engine.queryAll selector row

def rowsBelow (engine : Engine N T) (selectors : List String) (rows : List N) : List N :=
  selectors.foldl (fun rows selector => rows.flatMap (relativeNodes engine selector)) rows

/-! ## What is to be kept -/

def CaseKept : Json ν → Json ν → Prop
  | .obj case, v' => ∃ case', v' = .obj case' ∧
      (∀ key, key ≠ "steps" → case'.lookup key = case.lookup key) ∧
      (caseList (.obj case) = none → case'.lookup "steps" = case.lookup "steps")
  | v, v' => v' = v

def UnderKept (key : String) : Json ν → Json ν → Prop
  | .arr items, v' =>
    if nestedActionListKeys.contains key then ∃ items', v' = .arr items'
    else if key = "cases" then ∃ items', v' = .arr items' ∧ List.Forall₂ CaseKept items items'
    else v' = .arr items
  | .obj step, v' => if key = "trigger" then ∃ step', v' = .obj step' else v' = .obj step
  | v, v' => v' = v

def Held (R : Json ν → Json ν → Prop) (v v' : Option (Json ν)) : Prop :=
  (v = none ∧ v' = none) ∨ ∃ w w', v = some w ∧ v' = some w' ∧ R w w'

def FieldKept : Json ν → Json ν → Prop
  | .obj field, v' => ∃ field', v' = .obj field' ∧
      (∀ key, key ≠ "selector" → key ≠ "fields" → field'.lookup key = field.lookup key) ∧
      Held (fun v v' => (∃ nested nested', v = .obj nested ∧ v' = .obj nested') ∨ v' = v)
        (field.lookup "fields") (field'.lookup "fields")
  | v, v' => v' = v

def FieldsKept (fields fields' : Fields ν) : Prop :=
  ∀ names selectors below, fieldsBelow names fields = some (selectors, below) →
    ∃ selectors' below', fieldsBelow names fields' = some (selectors', below') ∧
      ∀ name, Held FieldKept (below.lookup name) (below'.lookup name)

def extractionTarget (step : Fields ν) : Option (Fields ν) :=
  if isExtraction (stringValue step "action") then
    match step.lookup "target" with
    | some (.obj inline) => some inline
    | _ => none
  else none

/-- Only the selectors of the extraction differ. -/
structure ExtractionKept (step step' inline : Fields ν) : Prop where
  target : ∃ inline', step'.lookup "target" = some (.obj inline') ∧
    Assoc.erase "selector" inline' = Assoc.erase "selector" inline
  fields : Held (fun v v' => (∃ fields fields', v = .obj fields ∧ v' = .obj fields' ∧
    FieldsKept fields fields') ∨ v' = v) (step.lookup "fields") (step'.lookup "fields")

/-- A step and what is written for it: the steps in it, the selectors of an extraction, and the
target of any other step apart. -/
structure StepKept (step step' : Fields ν) : Prop where
  others : ∀ key, key ≠ "target" → key ≠ "fields" → isInner key = false → step'.lookup key = step.lookup key
  inner : ∀ key, isInner key = true → Held (UnderKept key) (step.lookup key) (step'.lookup key)
  extraction : ∀ inline, extractionTarget step = some inline → ExtractionKept step step' inline
  fields : extractionTarget step = none → step'.lookup "fields" = step.lookup "fields"

/-- The wait at `i` is for the target of the repeated extraction at `j`, and nothing but fixed waits
is between them. -/
structure Readies (checks : Checks ν N T) (items : List (Json ν)) (i j : Nat)
    (wait step : Fields ν) : Prop where
  lt : i < j
  waitAt : items[i]? = some (.obj wait)
  stepAt : items[j]? = some (.obj step)
  extract : stringValue step "action" = "extract"
  multiple : isMultiple step = true
  target : ∃ target, step.lookup "target" = some (.obj target) ∧
    equivalentVisibleReadiness checks wait target = true
  between : ∀ k, i < k → k < j → ∃ v, items[k]? = some v ∧ unconditionalFixedWait v = true

structure ListKept (checks : Checks ν N T) (items items' : List (Json ν)) : Prop where
  length : items'.length = items.length
  others : ∀ (i : Nat) (v : Json ν), items[i]? = some v → (∀ step, v ≠ .obj step) → items'[i]? = some v
  steps : ∀ (i : Nat) (step : Fields ν), items[i]? = some (.obj step) →
    ∃ step', items'[i]? = some (.obj step') ∧ StepKept step step'
  targets : ∀ (i : Nat) (step step' : Fields ν), items[i]? = some (.obj step) →
    items'[i]? = some (.obj step') → extractionTarget step = none →
    (∀ j next, ¬ Readies checks items i j step next) →
    step'.lookup "target" = step.lookup "target"
  readiness : ∀ i j wait step, Readies checks items i j wait step → ∃ wait' step' : Fields ν,
    items'[i]? = some (.obj wait') ∧ items'[j]? = some (.obj step') ∧
      wait'.lookup "target" = step'.lookup "target"

section Selectors

variable [DecidableEq N] (u : Unicode) (engine : Engine N T) (checks : Checks ν N T)
  (catalog : Catalog T)

def recordedRows (selector : String) : List N :=
  catalog.snapshots.flatMap fun s => engine.matchAll selector s.root

def SelectsOne (selector : String) (rows : List N) : Prop :=
  ∀ row ∈ rows, ∃ n, engine.queryAll selector row = [n]

def FieldSelectorKept (rows : List N) (selector selector' : String) : Prop :=
  selector ≠ "" → SelectsOne engine selector rows →
    ∀ row ∈ rows, engine.queryAll selector' row = engine.queryAll selector row

/-- The selectors select what they did in every recorded snapshot. -/
structure SelectorsKept (aliases step step' inline : Fields ν) : Prop where
  target : ∀ resolved inline' resolved', resolveTarget aliases inline = some resolved →
    step'.lookup "target" = some (.obj inline') →
    resolveTarget aliases inline' = some resolved' →
    ∀ s ∈ catalog.snapshots, sameNodeSet (engine.matchAll (resolvedSelector resolved) s.root)
      (engine.matchAll (resolvedSelector resolved') s.root) = true
  fields : ∀ resolved fields fields' names name selectors selectors' below below' field field',
    resolveTarget aliases inline = some resolved →
    step.lookup "fields" = some (.obj fields) → step'.lookup "fields" = some (.obj fields') →
    fieldsBelow names fields = some (selectors, below) →
    fieldsBelow names fields' = some (selectors', below') →
    below.lookup name = some (.obj field) → below'.lookup name = some (.obj field') →
    FieldSelectorKept engine
      (rowsBelow engine selectors (recordedRows engine catalog (resolvedSelector resolved)))
      (selectorOf field) (selectorOf field')

/-- The candidate takes the place of the selector. -/
def Replaces (multiple : Bool) (selector : String) (c : Candidate) : Prop :=
  preferred u engine checks catalog multiple selector = some c ∧ c.selector ≠ "" ∧
    (multiple = false → selector ≠ "main")

/-- The candidate that is preferred to the selector of a target matches what that does in the
snapshots of other page states too. -/
def TargetAgrees (multiple : Bool) (selector : String) : Prop :=
  ∀ c, Replaces u engine checks catalog multiple selector c → ∀ s ∈ catalog.snapshots,
    s.state ≠ c.state →
      sameNodeSet (engine.matchAll selector s.root) (engine.matchAll c.selector s.root) = true

/-- The candidate that is preferred to the selector of a field selects what that does in the rows
that are no evidence too. -/
def FieldAgrees (rows : List N) (nodeSets : List (List N)) (selector : String) : Prop :=
  selector ≠ "" → SelectsOne engine selector rows →
    exactStableRelativeReplacement u engine checks nodeSets selector ≠ "" →
    ∀ row ∈ rows, row ∉ nodeSets.flatten →
      engine.queryAll (exactStableRelativeReplacement u engine checks nodeSets selector) row =
        engine.queryAll selector row

structure StepAgrees (aliases step inline : Fields ν) : Prop where
  target : ∀ resolved, resolveTarget aliases inline = some resolved →
    TargetAgrees u engine checks catalog (isMultiple step) (resolvedSelector resolved)
  fields : ∀ resolved replacement nodeSets fields names name selectors below field,
    resolveTarget aliases inline = some resolved →
    targetSelection u engine checks catalog (isMultiple step) resolved = some (replacement, nodeSets) →
    step.lookup "fields" = some (.obj fields) →
    fieldsBelow names fields = some (selectors, below) → below.lookup name = some (.obj field) →
    FieldAgrees u engine checks
      (rowsBelow engine selectors (recordedRows engine catalog (resolvedSelector resolved)))
      (nodeSets.map (rowsBelow engine selectors)) (selectorOf field)

/-- Nothing of a rule changes but selectors and the targets of readiness waits. -/
structure RuleKept (rule rule' : Rule ν) : Prop where
  selectors : rule'.selectors = rule.selectors
  steps : ruleList rule none = none → rule'.steps = rule.steps
  noHooks : (∀ hooks, rule.hooks ≠ some (.obj hooks)) → rule'.hooks = rule.hooks
  hooks : ∀ hooks, rule.hooks = some (.obj hooks) → ∃ hooks', rule'.hooks = some (.obj hooks') ∧
    ∀ name, ruleList rule (some name) = none → hooks'.lookup name = hooks.lookup name
  lists : ∀ hook place items, listAt rule hook place = some items →
    ∃ items', listAt rule' hook place = some items' ∧ ListKept checks items items'

/-- The rule is kept, and its selectors select what they did. -/
structure Stabilized (rule rule' : Rule ν) : Prop extends RuleKept checks rule rule' where
  kept : ∀ hook place items items' (i : Nat) (step step' inline : Fields ν),
    listAt rule hook place = some items → listAt rule' hook place = some items' →
    items[i]? = some (.obj step) → items'[i]? = some (.obj step') →
    extractionTarget step = some inline →
    SelectorsKept engine catalog ((aliasesOf rule).getD []) step step' inline

/-- The candidates that are preferred agree with the selectors of a rule in all that was
recorded. -/
def Agrees (rule : Rule ν) : Prop :=
  ∀ hook place items (i : Nat) (step inline : Fields ν), listAt rule hook place = some items →
    items[i]? = some (.obj step) → extractionTarget step = some inline →
    StepAgrees u engine checks catalog ((aliasesOf rule).getD []) step inline

end Selectors

section Lookups

variable {fields fields' own inner : Fields ν} {key k : String} {v : Json ν}

def Each (f : String → Json ν → Option (Json ν)) (fields fields' : Fields ν) : Prop :=
  ∀ key, (fields.lookup key = none ∧ fields'.lookup key = none) ∨
    ∃ v v', fields.lookup key = some v ∧ f key v = some v' ∧ fields'.lookup key = some v'

variable {f : String → Json ν → Option (Json ν)}

theorem each_nil : Each f [] [] :=
  fun _ => .inl ⟨rfl, rfl⟩

variable {v' : Json ν}

theorem each_cons (hv : f k v = some v')
    (h : Each f fields fields') : Each f ((k, v) :: fields) ((k, v') :: fields') := by
  intro key
  by_cases hk : key = k
  · subst hk
    exact .inr ⟨v, v', Assoc.lookup_cons_self (f := (key, v)), hv, Assoc.lookup_cons_self (f := (key, v'))⟩
  · rw [Assoc.lookup_cons_ne (f := (k, v)) hk, Assoc.lookup_cons_ne (f := (k, v')) hk]
    exact h key

theorem each_of_walk {f : String → Json ν → Option (Json ν)} {walk : Fields ν → Option (Fields ν)}
    (hnil : walk [] = some [])
    (hcons : ∀ key v rest, walk ((key, v) :: rest) = do
      let v ← f key v
      let rest ← walk rest
      pure ((key, v) :: rest)) : ∀ {fields fields' : Fields ν}, walk fields = some fields' →
    Each f fields fields'
  | [], fields', h => by
    obtain rfl : [] = fields' := by simpa [hnil] using h
    exact each_nil
  | (key, v) :: rest, fields', h => by
    simp only [hcons, bind_eq_bind, bind_eq_some_iff, Option.pure_def, some.injEq] at h
    obtain ⟨v', hv, rest', hrest, rfl⟩ := h
    exact each_cons hv (each_of_walk hnil hcons hrest)

theorem Each.holds (h : Each f fields fields')
    (hv : fields.lookup key = some v) : ∃ v', f key v = some v' ∧ fields'.lookup key = some v' := by
  rcases h key with ⟨hnone, -⟩ | ⟨w, v', hw, hf, hv'⟩
  · rw [hnone] at hv
    cases hv
  · obtain rfl := mem_unique hw hv
    exact ⟨v', hf, hv'⟩

theorem Each.unchanged (h : Each f fields fields')
    (hf : ∀ v v', f key v = some v' → v' = v) : fields'.lookup key = fields.lookup key := by
  rcases h key with ⟨h1, h2⟩ | ⟨v, v', hv, hfv, hv'⟩
  · rw [h1, h2]
  · rw [hv, hv', hf v v' hfv]

theorem lookup_map_key (g : String → Json ν → Json ν) (fields : Fields ν) (key : String) :
    (fields.map fun f => (f.1, g f.1 f.2)).lookup key = (fields.lookup key).map (g key) := by
  induction fields with
  | nil => rfl
  | cons f fields ih =>
    obtain ⟨k, v⟩ := f
    rw [map_cons]
    by_cases hk : key = k
    · subst hk
      rw [Assoc.lookup_cons_self (f := (key, v)), Assoc.lookup_cons_self (f := (key, g key v))]
      rfl
    · rw [Assoc.lookup_cons_ne (f := (k, v)) hk, Assoc.lookup_cons_ne (f := (k, g k v)) hk, ih]

theorem lookup_put_ne (h : key ≠ k) : (put k v fields).lookup key = fields.lookup key := by
  refine (lookup_map_key (fun j w => if j = k then v else w) fields key).trans ?_
  simp [h]

theorem lookup_put_self {w : Json ν} (h : fields.lookup k = some w) :
    (put k v fields).lookup k = some v := by
  refine (lookup_map_key (fun j w => if j = k then v else w) fields k).trans ?_
  simp [h]

theorem lookup_graft (h : isInner key = false) : (graft own inner).lookup key = own.lookup key := by
  refine (lookup_map_key (fun j w => if isInner j then (inner.lookup j).getD w else w) own
    key).trans ?_
  simp [h]

theorem lookup_graft_inner (h : isInner key) (hv : own.lookup key = some v)
    (hv' : inner.lookup key = some v') : (graft own inner).lookup key = some v' := by
  refine (lookup_map_key (fun j w => if isInner j then (inner.lookup j).getD w else w) own
    key).trans ?_
  simp [h, hv, hv']

theorem lookup_graft_none (hv : own.lookup key = none) : (graft own inner).lookup key = none := by
  refine (lookup_map_key (fun j w => if isInner j then (inner.lookup j).getD w else w) own
    key).trans ?_
  simp [hv]

theorem stringValue_congr (h : fields'.lookup key = fields.lookup key) :
    stringValue fields' key = stringValue fields key := by
  rw [stringValue, stringValue, h]

end Lookups

section Visit

variable [DecidableEq N] {u : Unicode} {engine : Engine N T} {checks : Checks ν N T}
  {catalog : Catalog T} {aliases step own inline : Fields ν} {key : String}

theorem extractionTarget_eq_some : extractionTarget step = some inline ↔
    isExtraction (stringValue step "action") = true ∧ step.lookup "target" = some (.obj inline) := by
  rw [extractionTarget]
  constructor
  · intro h
    split at h
    · rename_i haction
      split at h
      · rename_i target htarget
        exact ⟨haction, htarget.trans (congrArg _ (congrArg _ (some.inj h)))⟩
      · cases h
    · cases h
  · rintro ⟨haction, htarget⟩
    rw [if_pos haction, htarget]

theorem visit_eq : visit u engine checks catalog aliases step = match extractionTarget step with
    | some inline => validateOneExtractionSelector u engine checks catalog aliases step inline
    | none => some step := by
  rw [visit, extractionTarget]
  split
  · cases step.lookup "target" with
    | none => rfl
    | some v => cases v <;> rfl
  · rfl

theorem validate_cases
    (h : validateOneExtractionSelector u engine checks catalog aliases step inline = some own) :
    ∃ resolved replacement nodeSets, resolveTarget aliases inline = some resolved ∧
      groundable u engine checks resolved ∧
      targetSelection u engine checks catalog (isMultiple step) resolved = some (replacement, nodeSets) ∧
      ((∃ fields fields', step.lookup "fields" = some (.obj fields) ∧
          stabilizeFields u engine checks nodeSets fields = some fields' ∧
          own = put "fields" (.obj fields')
            (put "target" (.obj (replaceTarget replacement inline)) step)) ∨
        ((∀ fields, step.lookup "fields" ≠ some (.obj fields)) ∧
          own = put "target" (.obj (replaceTarget replacement inline)) step)) := by
  simp only [validateOneExtractionSelector, bind_eq_some_iff] at h
  obtain ⟨resolved, hresolved, h⟩ := h
  split at h
  · cases h
  · rename_i hground
    obtain ⟨⟨replacement, nodeSets⟩, hselection, h⟩ := bind_eq_some_iff.mp h
    refine ⟨resolved, replacement, nodeSets, hresolved, by simpa using hground, hselection, ?_⟩
    simp only at h
    split at h
    · cases h
    · split at h
      · rename_i fields hfields
        obtain ⟨fields', hfields', rfl⟩ := map_eq_some_iff.mp h
        exact .inl ⟨fields, fields', hfields, hfields', rfl⟩
      · rename_i hfields
        exact .inr ⟨hfields, (some.inj h).symm⟩

theorem visit_lookup (h : visit u engine checks catalog aliases step = some own)
    (htarget : key ≠ "target") (hfields : key ≠ "fields") : own.lookup key = step.lookup key := by
  rw [visit_eq] at h
  split at h
  · obtain ⟨-, -, -, -, -, -, ⟨-, -, -, -, rfl⟩ | ⟨-, rfl⟩⟩ := validate_cases h
    · rw [lookup_put_ne hfields, lookup_put_ne htarget]
    · rw [lookup_put_ne htarget]
  · rw [some.inj h]

theorem visit_idle (h : visit u engine checks catalog aliases step = some own)
    (hidle : extractionTarget step = none) : own = step := by
  rw [visit_eq, hidle] at h
  exact (some.inj h).symm

end Visit

section Readiness

variable {checks : Checks ν N T} {step step' own original stabilized : Fields ν} {v v' : Json ν}
  {before : List (Json ν)}

def settledBy (checks : Checks ν N T) (z : Json ν × Json ν) (before : List (Json ν)) : List (Json ν) :=
  match z with
  | (.obj step, .obj step') => settle checks step step' before
  | _ => before

def advance (checks : Checks ν N T) (before : List (Json ν)) (z : Json ν × Json ν) : List (Json ν) :=
  z.2 :: settledBy checks z before

def Repeated (z : Json ν × Json ν) (original stabilized : Fields ν) : Prop :=
  ∃ step step', z = (.obj step, .obj step') ∧ stringValue step "action" = "extract" ∧
    isMultiple step = true ∧ step.lookup "target" = some (.obj original) ∧
    step'.lookup "target" = some (.obj stabilized)

theorem settledBy_cases (checks : Checks ν N T) (z : Json ν × Json ν) :
    (∃ original stabilized, Repeated z original stabilized ∧
      ∀ before, settledBy checks z before = synchronize checks original stabilized before) ∨
    ((∀ original stabilized, ¬ Repeated z original stabilized) ∧
      ∀ before, settledBy checks z before = before) := by
  by_cases h : ∃ original stabilized, Repeated z original stabilized
  · obtain ⟨original, stabilized, step, step', rfl, haction, hmultiple, htarget, htarget'⟩ := h
    refine .inl ⟨original, stabilized,
      ⟨step, step', rfl, haction, hmultiple, htarget, htarget'⟩, fun before => ?_⟩
    simp only [settledBy, settle, htarget, htarget', haction, hmultiple]
    rfl
  · refine .inr ⟨fun original stabilized hz => h ⟨original, stabilized, hz⟩, fun before => ?_⟩
    obtain ⟨v, w⟩ := z
    cases v with
    | obj step =>
      cases w with
      | obj step' =>
        rw [settledBy, settle]
        split
        · rename_i original stabilized htarget htarget'
          rw [if_neg]
          intro hrepeated
          obtain ⟨haction, hmultiple⟩ : stringValue step "action" = "extract" ∧
            isMultiple step := by simpa using hrepeated
          exact h ⟨original, stabilized, step, step', rfl, haction, hmultiple, htarget, htarget'⟩
        · rfl
      | _ => rfl
    | _ => rfl

def readied (checks : Checks ν N T) (original stabilized : Fields ν) : Json ν → Json ν
  | .obj wait =>
    if equivalentVisibleReadiness checks wait original then
      .obj (put "target" (.obj stabilized) wait)
    else .obj wait
  | v => v

theorem synchronize_fixed (h : unconditionalFixedWait v) :
    synchronize checks original stabilized (v :: before) =
      v :: synchronize checks original stabilized before := by
  simp only [synchronize, if_pos h]

theorem synchronize_readied (h : unconditionalFixedWait v = false) :
    synchronize checks original stabilized (v :: before) =
      readied checks original stabilized v :: before := by
  have hfixed : ¬ unconditionalFixedWait v := by simp [h]
  cases v with
  | obj wait =>
    simp only [synchronize, if_neg hfixed, readied]
    split <;> rfl
  | _ => simp only [synchronize, if_neg hfixed, readied]

theorem isStep_unique {a b : String} (ha : isStep a step) (hb : isStep b step) : a = b := by
  rw [isStep] at ha hb
  split at ha
  · rename_i c hc
    rw [hc] at hb
    simp only [decide_eq_true_eq] at ha hb
    exact ha.symm.trans hb
  · cases ha

theorem stringValue_of_isStep {a : String} (h : isStep a step) : stringValue step "action" = a := by
  rw [isStep] at h
  rw [stringValue]
  split at h
  · simpa using h
  · cases h

theorem isStep_of_fixed (h : unconditionalFixedWait (.obj step)) :
    isStep "waitForTimeout" step = true := by
  rw [unconditionalFixedWait] at h
  exact (Bool.and_eq_true_iff.mp h).1

theorem isStep_of_readiness (h : equivalentVisibleReadiness checks step original) :
    isStep "waitForElementVisible" step = true := by
  rw [equivalentVisibleReadiness] at h
  simp only [Bool.and_eq_true] at h
  exact h.1.1.1

variable {z : Json ν × Json ν} {zs : List (Json ν × Json ν)}

theorem not_repeated_of_fixed (h : unconditionalFixedWait z.1) :
    ¬ Repeated z original stabilized := by
  rintro ⟨step, step', rfl, haction, -⟩
  rw [stringValue_of_isStep (isStep_of_fixed h)] at haction
  exact absurd haction (by decide)

def followed (zs : List (Json ν × Json ν)) : Option (Json ν × Json ν) :=
  zs.find? fun z => !unconditionalFixedWait z.2

def settledAll (checks : Checks ν N T) (zs : List (Json ν × Json ν)) (before : List (Json ν)) :
    List (Json ν) :=
  match followed zs with
  | some z => settledBy checks z before
  | none => before

def readiedBy (checks : Checks ν N T) (zs : List (Json ν × Json ν)) (v : Json ν) : Json ν :=
  if unconditionalFixedWait v then v else (settledAll checks zs [v]).headD v

def readyAll (checks : Checks ν N T) : List (Json ν × Json ν) → List (Json ν)
  | [] => []
  | z :: zs => readiedBy checks zs z.2 :: readyAll checks zs

theorem settledBy_fixed (h : unconditionalFixedWait v) :
    settledBy checks z (v :: before) = v :: settledBy checks z before := by
  rcases settledBy_cases checks z with ⟨original, stabilized, -, hz⟩ | ⟨-, hz⟩
  · rw [hz, hz, synchronize_fixed h]
  · rw [hz, hz]

theorem settledBy_append (h : unconditionalFixedWait v = false) :
    settledBy checks z (v :: before) = (settledBy checks z [v]).headD v :: before := by
  rcases settledBy_cases checks z with ⟨original, stabilized, -, hz⟩ | ⟨-, hz⟩
  · rw [hz, hz, synchronize_readied h, synchronize_readied h]
    rfl
  · rw [hz, hz]
    rfl

theorem settledAll_fixed (h : unconditionalFixedWait v) :
    settledAll checks zs (v :: before) = v :: settledAll checks zs before := by
  rw [settledAll, settledAll]
  split
  · exact settledBy_fixed h
  · rfl

theorem settledAll_append (h : unconditionalFixedWait v = false) :
    settledAll checks zs (v :: before) = readiedBy checks zs v :: before := by
  rw [readiedBy, if_neg (by simp [h]), settledAll, settledAll]
  split
  · exact settledBy_append h
  · rfl

theorem settledAll_nil : settledAll checks zs [] = [] := by
  rw [settledAll]
  split
  · rename_i z _
    rcases settledBy_cases checks z with ⟨original, stabilized, -, hz⟩ | ⟨-, hz⟩
    all_goals exact hz []
  · rfl

theorem foldl_advance
    (h : ∀ z ∈ zs, unconditionalFixedWait z.2 = unconditionalFixedWait z.1) :
    (zs.foldl (advance checks) before).reverse =
      (settledAll checks zs before).reverse ++ readyAll checks zs := by
  induction zs generalizing before with
  | nil => simp [settledAll, followed, readyAll]
  | cons z zs ih =>
    obtain ⟨hz, hzs⟩ := forall_mem_cons.mp h
    rw [foldl_cons, ih hzs, advance, readyAll]
    cases hfixed : unconditionalFixedWait z.2 with
    | true =>
      have hsame : settledBy checks z before = before := by
        rcases settledBy_cases checks z with ⟨_, _, hrepeated, -⟩ | ⟨-, heq⟩
        · exact absurd hrepeated (not_repeated_of_fixed (hz ▸ hfixed))
        · exact heq before
      have hskip : settledAll checks (z :: zs) before = settledAll checks zs before := by
        simp only [settledAll, followed, find?_cons, hfixed, Bool.not_true]
      rw [hsame, settledAll_fixed hfixed, hskip, readiedBy, if_pos hfixed, reverse_cons, append_assoc]
      rfl
    | false =>
      have hfirst : settledAll checks (z :: zs) before = settledBy checks z before := by
        simp only [settledAll, followed, find?_cons, hfixed, Bool.not_false]
      rw [settledAll_append hfixed, hfirst, reverse_cons, append_assoc]
      rfl

theorem getElem?_readyAll {i : Nat} : (readyAll checks zs)[i]? =
      zs[i]?.map fun z => readiedBy checks (zs.drop (i + 1)) z.2 := by
  induction zs generalizing i with
  | nil => rfl
  | cons z zs ih =>
    cases i with
    | zero => rfl
    | succ i => simpa [readyAll] using ih

theorem followed_eq_some {i : Nat} :
    followed (zs.drop (i + 1)) = some z ↔ unconditionalFixedWait z.2 = false ∧
      ∃ j, i < j ∧ zs[j]? = some z ∧
        ∀ k, i < k → k < j → ∃ w, zs[k]? = some w ∧ unconditionalFixedWait w.2 = true := by
  rw [followed, find?_eq_some_iff_getElem]
  constructor
  · rintro ⟨hz, j, hj, rfl, hbefore⟩
    refine ⟨by simpa using hz, i + 1 + j, by omega, ?_, fun k hik hkj => ?_⟩
    · rw [← getElem?_drop, getElem?_eq_getElem hj]
    · have hk := hbefore (k - (i + 1)) (by omega)
      have hlt : k < zs.length := by
        rw [length_drop] at hj
        omega
      refine ⟨zs[k], getElem?_eq_getElem hlt, ?_⟩
      rw [getElem_drop] at hk
      simpa [show i + 1 + (k - (i + 1)) = k by omega] using hk
  · rintro ⟨hz, j, hij, hj, hbefore⟩
    obtain ⟨hlt, rfl⟩ := List.getElem?_eq_some_iff.mp hj
    have hdrop : j - (i + 1) < (zs.drop (i + 1)).length := by
      rw [length_drop]
      omega
    refine ⟨by simpa using hz, j - (i + 1), hdrop, ?_, fun k hk => ?_⟩
    · rw [getElem_drop]
      simp only [show i + 1 + (j - (i + 1)) = j by omega]
    · obtain ⟨w, hw, hfixed⟩ := hbefore (i + 1 + k) (by omega) (by omega)
      obtain ⟨hlt', rfl⟩ := List.getElem?_eq_some_iff.mp hw
      rw [getElem_drop]
      simpa using hfixed

theorem readiedBy_cases (checks : Checks ν N T) (zs : List (Json ν × Json ν)) (v : Json ν) :
    (readiedBy checks zs v = v ∧ ∀ z original stabilized wait, followed zs = some z →
      Repeated z original stabilized → v = .obj wait →
      equivalentVisibleReadiness checks wait original = false) ∨
    ∃ z original stabilized wait, followed zs = some z ∧ Repeated z original stabilized ∧
      v = .obj wait ∧ equivalentVisibleReadiness checks wait original = true ∧
      readiedBy checks zs v = .obj (put "target" (.obj stabilized) wait) := by
  cases hfixed : unconditionalFixedWait v with
  | true =>
    refine .inl ⟨if_pos hfixed, fun z original stabilized wait _ _ hv => ?_⟩
    subst hv
    by_contra hready
    exact absurd (isStep_unique (isStep_of_fixed hfixed)
      (isStep_of_readiness (Bool.eq_true_of_not_eq_false hready))) (by decide)
  | false =>
    rw [readiedBy, if_neg (by simp [hfixed]), settledAll]
    cases hnext : followed zs with
    | none =>
      refine .inl ⟨rfl, ?_⟩
      intro z original stabilized wait hz
      cases hz
    | some z =>
      simp only
      rcases settledBy_cases checks z with ⟨original, stabilized, hz, heq⟩ | ⟨hz, heq⟩
      · rw [heq, synchronize_readied hfixed]
        have hunique : ∀ original' stabilized', Repeated z original' stabilized' →
            original' = original := by
          rintro original' stabilized' ⟨step, step', rfl, -, -, htarget, -⟩
          obtain ⟨_, _, heq, -, -, htarget', -⟩ := hz
          obtain ⟨rfl, -⟩ : step = _ ∧ step' = _ := by simpa using heq
          simpa using htarget.symm.trans htarget'
        cases v with
        | obj wait =>
          cases hready : equivalentVisibleReadiness checks wait original with
          | true =>
            refine .inr ⟨z, original, stabilized, wait, rfl, hz, rfl, hready, ?_⟩
            simp [readied, hready]
          | false =>
            refine .inl ⟨by simp [readied, hready],
              fun z' original' stabilized' wait' hz' hrep hw => ?_⟩
            cases hz'
            obtain rfl := hunique original' stabilized' hrep
            cases hw
            exact hready
        | _ =>
          refine .inl ⟨rfl, ?_⟩
          intro z original stabilized wait hz hrep hv
          cases hv
      · rw [heq]
        refine .inl ⟨rfl, fun z' original stabilized wait hz' hrep _ => ?_⟩
        cases hz'
        exact absurd hrep (hz original stabilized)

end Readiness

variable {v : Json ν}

theorem forall₂_getElem? {R : Json ν → Json ν → Prop} {l l' : List (Json ν)} {i : Nat}
    (h : List.Forall₂ R l l') (hv : l[i]? = some v) : ∃ v', l'[i]? = some v' ∧ R v v' := by
  induction h generalizing i with
  | nil => cases hv
  | cons hhead _ ih =>
    cases i with
    | zero =>
      cases hv
      exact ⟨_, rfl, hhead⟩
    | succ i => exact ih hv

theorem isInner_of_listUnder {key : String} {case : Nat} {items : List (Json ν)}
    (h : listUnder key case v = some items) : isInner key = true := by
  rw [isInner]
  cases v with
  | arr list =>
    rw [listUnder] at h
    split at h
    · rename_i hkey
      rw [hkey]
      rfl
    · split at h
      · rename_i hkey
        simp [hkey]
      · cases h
  | obj step =>
    rw [listUnder] at h
    split at h
    · rename_i hkey
      simp [hkey]
    · cases h
  | _ => cases h

section Walk

variable [DecidableEq N] {u : Unicode} {engine : Engine N T} {checks : Checks ν N T}
  {catalog : Catalog T} {aliases step own inner : Fields ν} {key : String} {v v' : Json ν}
  {items items' before before' out : List (Json ν)}

inductive Walked (u : Unicode) (engine : Engine N T) (checks : Checks ν N T) (catalog : Catalog T)
    (aliases : Fields ν) : Json ν × Json ν → Prop where
  | step {step own inner : Fields ν} (hown : visit u engine checks catalog aliases step = some own)
      (hinner : walkInner u engine checks catalog aliases step = some inner) :
      Walked u engine checks catalog aliases (.obj step, .obj (graft own inner))
  | other {v : Json ν} (h : ∀ step, v ≠ .obj step) : Walked u engine checks catalog aliases (v, v)

variable {fields inner : Fields ν}

theorem walkInner_each (h : walkInner u engine checks catalog aliases fields = some inner) :
    Each (walkUnder u engine checks catalog aliases) fields inner :=
  each_of_walk (by rw [walkInner]) (fun _ _ _ => by rw [walkInner]) h

theorem walkCaseSteps_each (h : walkCaseSteps u engine checks catalog aliases fields = some inner) :
    Each (walkCaseList u engine checks catalog aliases) fields inner :=
  each_of_walk (by rw [walkCaseSteps]) (fun _ _ _ => by rw [walkCaseSteps]) h

theorem walkHooks_each {hooks hooks' : Fields ν}
    (h : walkHooks u engine checks catalog aliases hooks = some hooks') :
    Each (walkHook u engine checks catalog aliases) hooks hooks' :=
  each_of_walk (by rw [walkHooks]) (fun _ _ _ => by rw [walkHooks]) h

theorem walkCases_forall : ∀ {items items' : List (Json ν)},
    walkCases u engine checks catalog aliases items = some items' →
    List.Forall₂ (fun v v' => walkCase u engine checks catalog aliases v = some v') items items'
  | [], items', h => by
    obtain rfl : [] = items' := by simpa [walkCases] using h
    exact .nil
  | v :: rest, items', h => by
    simp only [walkCases, bind_eq_bind, bind_eq_some_iff, Option.pure_def, some.injEq] at h
    obtain ⟨v', hv, rest', hrest, rfl⟩ := h
    exact .cons hv (walkCases_forall hrest)

omit [DecidableEq N] in
theorem settle_graft : settle checks step (graft own inner) before = settle checks step own before := by
  rw [settle, settle, lookup_graft (by decide)]

theorem walkAction_cases (h : walkAction u engine checks catalog aliases before v = some (v', before')) :
    Walked u engine checks catalog aliases (v, v') ∧ before' = settledBy checks (v, v') before := by
  cases v with
  | obj step =>
    simp only [walkAction, bind_eq_bind, bind_eq_some_iff, Option.pure_def, some.injEq, Prod.mk.injEq] at h
    obtain ⟨own, hown, inner, hinner, rfl, rfl⟩ := h
    exact ⟨.step hown hinner, settle_graft.symm⟩
  | _ =>
    obtain ⟨rfl, rfl⟩ := h
    refine ⟨.other ?_, rfl⟩
    intro step hstep
    cases hstep

theorem walkActions_foldl : ∀ {items before out : List (Json ν)},
    walkActions u engine checks catalog aliases before items = some out →
    ∃ zs : List (Json ν × Json ν), zs.map Prod.fst = items ∧
      (∀ z ∈ zs, Walked u engine checks catalog aliases z) ∧
      out = (zs.foldl (advance checks) before).reverse
  | [], before, out, h => by
    rw [walkActions] at h
    exact ⟨[], rfl, nofun, (some.inj h).symm⟩
  | v :: rest, before, out, h => by
    simp only [walkActions, bind_eq_bind, bind_eq_some_iff] at h
    obtain ⟨⟨v', before'⟩, hv, hrest⟩ := h
    obtain ⟨hwalked, rfl⟩ := walkAction_cases hv
    obtain ⟨zs, rfl, hzs, rfl⟩ := walkActions_foldl hrest
    exact ⟨(v, v') :: zs, rfl, forall_mem_cons.mpr ⟨hwalked, hzs⟩, rfl⟩

variable {step step' : Fields ν}

theorem isStep_congr {action : String} (h : step'.lookup "action" = step.lookup "action") :
    isStep action step' = isStep action step := by
  rw [isStep, isStep, h]

theorem isNil_congr (h : step'.lookup key = step.lookup key) : isNil step' key = isNil step key := by
  rw [isNil, isNil, h]

variable {z : Json ν × Json ν}

theorem Walked.fixed (h : Walked u engine checks catalog aliases z) :
    unconditionalFixedWait z.2 = unconditionalFixedWait z.1 := by
  cases h with
  | @step step own inner hown hinner =>
    have hlookup : ∀ key, key ≠ "target" → key ≠ "fields" → isInner key = false →
        (graft own inner).lookup key = step.lookup key := fun key htarget hfields hinner =>
      (lookup_graft hinner).trans (visit_lookup hown htarget hfields)
    rw [unconditionalFixedWait, unconditionalFixedWait,
      isStep_congr (hlookup "action" (by decide) (by decide) (by decide)),
      isNil_congr (hlookup "condition" (by decide) (by decide) (by decide))]
  | other h => rfl

theorem walkActions_cases (h : walkActions u engine checks catalog aliases [] items = some items') :
    ∃ zs : List (Json ν × Json ν), zs.map Prod.fst = items ∧
      (∀ z ∈ zs, Walked u engine checks catalog aliases z) ∧ items' = readyAll checks zs := by
  obtain ⟨zs, hitems, hzs, rfl⟩ := walkActions_foldl h
  refine ⟨zs, hitems, hzs, ?_⟩
  rw [foldl_advance fun z hz => (hzs z hz).fixed, settledAll_nil, reverse_nil,
    nil_append]

theorem visit_target {inline : Fields ν} (hown : visit u engine checks catalog aliases step = some own)
    (h : extractionTarget step = some inline) :
    ∃ replacement, own.lookup "target" = some (.obj (replaceTarget replacement inline)) := by
  have htarget := (extractionTarget_eq_some.mp h).2
  rw [visit_eq, h] at hown
  obtain ⟨-, replacement, -, -, -, -, ⟨-, -, -, -, rfl⟩ | ⟨-, rfl⟩⟩ := validate_cases hown
  · exact ⟨replacement, (lookup_put_ne (by decide)).trans (lookup_put_self htarget)⟩
  · exact ⟨replacement, lookup_put_self htarget⟩

variable {original : Fields ν}

omit [DecidableEq N] in
theorem target_of_readiness (h : equivalentVisibleReadiness checks step original) :
    ∃ w, step.lookup "target" = some w := by
  cases hlookup : step.lookup "target" with
  | some w => exact ⟨w, rfl⟩
  | none =>
    rw [equivalentVisibleReadiness, hlookup] at h
    simp at h

omit [DecidableEq N] in
theorem extractionTarget_of_readiness (h : equivalentVisibleReadiness checks step original) :
    extractionTarget step = none := by
  rw [extractionTarget, stringValue_of_isStep (isStep_of_readiness h), if_neg (by decide)]

omit [DecidableEq N] in
theorem equivalentVisibleReadiness_congr {step step' original : Fields ν}
    (h : ∀ key, key = "action" ∨ key = "condition" ∨ key = "onError" ∨ key = "target" →
      step'.lookup key = step.lookup key) :
    equivalentVisibleReadiness checks step' original = equivalentVisibleReadiness checks step original := by
  rw [equivalentVisibleReadiness, equivalentVisibleReadiness, isStep_congr (h _ (by simp)),
    isNil_congr (h "condition" (by simp)), isNil_congr (h "onError" (by simp)),
    stringValue_congr (h "onError" (by simp)), h "target" (by simp)]

theorem readiness_graft (hown : visit u engine checks catalog aliases step = some own) :
    equivalentVisibleReadiness checks (graft own inner) original =
      equivalentVisibleReadiness checks step original := by
  cases htarget : extractionTarget step with
  | none =>
    obtain rfl := visit_idle hown htarget
    refine equivalentVisibleReadiness_congr fun key hkey => lookup_graft ?_
    rcases hkey with rfl | rfl | rfl | rfl <;> decide
  | some inline =>
    have haction : (graft own inner).lookup "action" = step.lookup "action" :=
      (lookup_graft (by decide)).trans (visit_lookup hown (by decide) (by decide))
    have hextraction := (extractionTarget_eq_some.mp htarget).1
    rw [Bool.eq_iff_iff]
    constructor
    · intro h
      have hwait := isStep_congr haction ▸ isStep_of_readiness h
      rw [stringValue_of_isStep hwait] at hextraction
      exact absurd hextraction (by decide)
    · intro h
      rw [extractionTarget_of_readiness h] at htarget
      cases htarget

theorem Repeated.idle {original stabilized : Fields ν}
    (h : Repeated z original stabilized) (hz : Walked u engine checks catalog aliases z)
    (zs : List (Json ν × Json ν)) : readiedBy checks zs z.2 = z.2 := by
  obtain ⟨step, step', rfl, haction, -, htarget, -⟩ := h
  rcases readiedBy_cases checks zs (.obj step') with
    ⟨heq, -⟩ | ⟨-, original', -, wait, -, -, hwait, hready, -⟩
  · exact heq
  · cases hz with
    | step hown hinner =>
      cases hwait
      rw [readiness_graft hown] at hready
      have hnone := extractionTarget_of_readiness hready
      rw [extractionTarget_eq_some.mpr ⟨haction ▸ by decide, htarget⟩] at hnone
      cases hnone
    | other h => exact absurd rfl (h step)

theorem walkActions_step (h : walkActions u engine checks catalog aliases [] items = some items')
    {i : Nat} (hi : items[i]? = some (.obj step)) :
    ∃ own inner step', visit u engine checks catalog aliases step = some own ∧
      walkInner u engine checks catalog aliases step = some inner ∧
      items'[i]? = some (.obj step') ∧
      ((step' = graft own inner ∧ ∀ j next, ¬ Readies checks items i j step next) ∨
        ∃ j next next' stabilized, Readies checks items i j step next ∧
          items'[j]? = some (.obj next') ∧ next'.lookup "target" = some (.obj stabilized) ∧
          step' = put "target" (.obj stabilized) (graft own inner)) := by
  obtain ⟨zs, rfl, hzs, rfl⟩ := walkActions_cases h
  have hwalked : ∀ (k : Nat) z, zs[k]? = some z → Walked u engine checks catalog aliases z :=
    fun k z hz => hzs z (mem_of_getElem? hz)
  have hfixed : ∀ (k : Nat) v, (zs.map Prod.fst)[k]? = some v →
      ∃ z : Json ν × Json ν, zs[k]? = some z ∧ z.1 = v ∧
        unconditionalFixedWait z.2 = unconditionalFixedWait v := by
    intro k v hv
    rw [getElem?_map, map_eq_some_iff] at hv
    obtain ⟨z, hz, rfl⟩ := hv
    exact ⟨z, hz, rfl, (hwalked k z hz).fixed⟩
  obtain ⟨⟨_, w⟩, hz, rfl, -⟩ := hfixed i _ hi
  rcases hwalked i _ hz with ⟨hown, hinner⟩ | hother
  swap
  · exact absurd rfl (hother step)
  rename_i own inner
  rcases readiedBy_cases checks (zs.drop (i + 1)) (.obj (graft own inner)) with
    ⟨heq, hnone⟩ | ⟨z', original, stabilized, wait, hnext, hrepeated, hwait, hready, heq⟩
  · refine ⟨own, inner, graft own inner, hown, hinner, ?_, .inl ⟨rfl, ?_⟩⟩
    · rw [getElem?_readyAll, hz, map_some, heq]
    · rintro j next hreadies
      obtain ⟨target, htarget, hready⟩ := hreadies.target
      obtain ⟨⟨_, w⟩, hw, rfl, hwfixed⟩ := hfixed j _ hreadies.stepAt
      rcases hwalked j _ hw with ⟨hown', hinner'⟩ | hother
      swap
      · exact absurd rfl (hother next)
      rename_i own' inner'
      obtain ⟨replacement, htarget'⟩ := visit_target hown' (extractionTarget_eq_some.mpr
        ⟨hreadies.extract ▸ by decide, htarget⟩)
      have hrepeated : Repeated (.obj next, .obj (graft own' inner')) target
          (replaceTarget replacement target) :=
        ⟨next, _, rfl, hreadies.extract, hreadies.multiple, htarget,
          (lookup_graft (by decide)).trans htarget'⟩
      have hnotFixed : unconditionalFixedWait (.obj next) = false := by
        by_contra hfix
        exact not_repeated_of_fixed (Bool.eq_true_of_not_eq_false hfix) hrepeated
      have hfollowed : followed (zs.drop (i + 1)) = some (.obj next, .obj (graft own' inner')) := by
        refine followed_eq_some.mpr
          ⟨hwfixed.trans hnotFixed, j, hreadies.lt, hw, fun k hik hkj => ?_⟩
        obtain ⟨v, hv, hvfixed⟩ := hreadies.between k hik hkj
        obtain ⟨z, hz, rfl, hzfixed⟩ := hfixed k v hv
        exact ⟨z, hz, hzfixed.trans hvfixed⟩
      have hfalse := hnone _ _ _ _ hfollowed hrepeated rfl
      rw [readiness_graft hown, hready] at hfalse
      cases hfalse
  · cases hwait
    obtain ⟨-, j, hij, hj, hbetween⟩ := followed_eq_some.mp hnext
    have hidle := hrepeated.idle (hwalked j _ hj) (zs.drop (j + 1))
    obtain ⟨next, next', rfl, haction, hmultiple, htarget, htarget'⟩ := hrepeated
    refine ⟨own, inner, _, hown, hinner, ?_, .inr ⟨j, next, next', stabilized, ?_, ?_, htarget', rfl⟩⟩
    · rw [getElem?_readyAll, hz, map_some, heq]
    · refine ⟨hij, hi, by rw [getElem?_map, hj]; rfl, haction, hmultiple,
        ⟨original, htarget, (readiness_graft hown).symm.trans hready⟩, fun k hik hkj => ?_⟩
      obtain ⟨w, hw, hwfixed⟩ := hbetween k hik hkj
      exact ⟨w.1, by rw [getElem?_map, hw]; rfl, (hwalked k w hw).fixed.symm.trans hwfixed⟩
    · rw [getElem?_readyAll, hj, map_some, hidle]

omit [DecidableEq N] in
theorem Readies.unique {i j k : Nat} {wait next next' : Fields ν}
    (hj : Readies checks items i j wait next) (hk : Readies checks items i k wait next') :
    j = k := by
  have hnotFixed : ∀ {j wait next}, Readies checks items i j wait next →
      ∀ v, items[j]? = some v → unconditionalFixedWait v = true → False := by
    intro j wait next h v hv hfixed
    obtain rfl := mem_unique h.stepAt hv
    have haction := stringValue_of_isStep (isStep_of_fixed hfixed)
    rw [h.extract] at haction
    exact absurd haction (by decide)
  rcases Nat.lt_trichotomy j k with hlt | heq | hlt
  · obtain ⟨v, hv, hfixed⟩ := hk.between j hj.lt hlt
    exact (hnotFixed hj v hv hfixed).elim
  · exact heq
  · obtain ⟨v, hv, hfixed⟩ := hj.between k hk.lt hlt
    exact (hnotFixed hk v hv hfixed).elim

/-! ## The steps in a step -/

theorem ne_of_isInner (h : isInner key) : key ≠ "target" ∧ key ≠ "fields" := by
  constructor
  all_goals
    rintro rfl
    exact absurd h (by decide)

theorem inner_cases (hown : visit u engine checks catalog aliases step = some own)
    (hinner : walkInner u engine checks catalog aliases step = some inner)
    (hkey : isInner key) :
    (step.lookup key = none ∧ (graft own inner).lookup key = none) ∨
    ∃ v v', step.lookup key = some v ∧ (graft own inner).lookup key = some v' ∧
      walkUnder u engine checks catalog aliases key v = some v' := by
  have hsame := visit_lookup hown (ne_of_isInner hkey).1 (ne_of_isInner hkey).2
  rcases walkInner_each hinner key with ⟨hnone, -⟩ | ⟨v, v', hv, hwalk, hv'⟩
  · exact .inl ⟨hnone, lookup_graft_none (hsame.trans hnone)⟩
  · exact .inr ⟨v, v', hv, lookup_graft_inner hkey (hsame.trans hv) hv', hwalk⟩

theorem walkCaseList_same (h : walkCaseList u engine checks catalog aliases key v = some v')
    (hv : key ≠ "steps" ∨ ∀ items, v ≠ .arr items) : v' = v := by
  cases v with
  | arr items =>
    simp only [walkCaseList] at h
    rw [if_neg (hv.resolve_right fun h => h items rfl)] at h
    exact (some.inj h).symm
  | _ =>
    rw [walkCaseList] at h
    exact (some.inj h).symm

theorem walkCase_kept (h : walkCase u engine checks catalog aliases v = some v') : CaseKept v v' := by
  cases v with
  | obj case =>
    simp only [walkCase, bind_eq_bind, bind_eq_some_iff, Option.pure_def, some.injEq] at h
    obtain ⟨case', hcase, rfl⟩ := h
    have hsame : ∀ key, (key ≠ "steps" ∨ ∀ items, case.lookup key ≠ some (.arr items)) →
        case'.lookup key = case.lookup key := by
      intro key hkey
      rcases walkCaseSteps_each hcase key with ⟨hnone, hnone'⟩ | ⟨v, v', hv, hwalk, hv'⟩
      · rw [hnone, hnone']
      · rw [hv, hv', walkCaseList_same hwalk
          (hkey.imp_right fun h items heq => h items (hv.trans (congrArg _ heq)))]
    refine ⟨case', rfl, fun key hkey => hsame key (.inl hkey), fun hnone => ?_⟩
    refine hsame "steps" (.inr fun items hitems => ?_)
    rw [caseList, hitems] at hnone
    cases hnone
  | _ =>
    rw [walkCase] at h
    exact (some.inj h).symm

theorem walkCase_list (h : walkCase u engine checks catalog aliases v = some v')
    (hitems : caseList v = some items) : ∃ items', caseList v' = some items' ∧
      walkActions u engine checks catalog aliases [] items = some items' := by
  cases v with
  | obj case =>
    simp only [walkCase, bind_eq_bind, bind_eq_some_iff, Option.pure_def, some.injEq] at h
    obtain ⟨case', hcase, rfl⟩ := h
    rw [caseList] at hitems
    split at hitems
    · rename_i steps hsteps
      cases hitems
      obtain ⟨w, hw, hlookup⟩ := (walkCaseSteps_each hcase).holds hsteps
      simp only [walkCaseList, if_pos, bind_eq_bind, bind_eq_some_iff, Option.pure_def, some.injEq] at hw
      obtain ⟨items', hwalk, rfl⟩ := hw
      exact ⟨items', by rw [caseList, hlookup], hwalk⟩
    · cases hitems
  | _ => cases hitems

theorem walkUnder_kept (h : walkUnder u engine checks catalog aliases key v = some v') :
    UnderKept key v v' := by
  cases v with
  | arr items =>
    simp only [walkUnder] at h
    rw [UnderKept]
    split at h
    · rename_i hkey
      rw [if_pos hkey]
      obtain ⟨items', -, heq⟩ := bind_eq_some_iff.mp h
      exact ⟨items', (some.inj heq).symm⟩
    · rename_i hkey
      rw [if_neg hkey]
      split at h
      · rename_i hcases
        rw [if_pos hcases]
        obtain ⟨items', hwalk, heq⟩ := bind_eq_some_iff.mp h
        exact ⟨items', (some.inj heq).symm, (walkCases_forall hwalk).imp fun _ _ => walkCase_kept⟩
      · rename_i hcases
        rw [if_neg hcases]
        exact (some.inj h).symm
  | obj step =>
    simp only [walkUnder] at h
    rw [UnderKept]
    split at h
    · rename_i hkey
      rw [if_pos hkey]
      obtain ⟨own, -, h⟩ := bind_eq_some_iff.mp h
      obtain ⟨inner, -, heq⟩ := bind_eq_some_iff.mp h
      exact ⟨_, (some.inj heq).symm⟩
    · rename_i hkey
      rw [if_neg hkey]
      exact (some.inj h).symm
  | _ =>
    rw [walkUnder] at h
    exact (some.inj h).symm

omit [DecidableEq N] in
theorem settle_nil : settle checks step own [] = [] := by
  rw [settle]
  split
  · split <;> rfl
  · rfl

theorem walkUnder_list {case : Nat} (h : walkUnder u engine checks catalog aliases key v = some v')
    (hitems : listUnder key case v = some items) : ∃ items', listUnder key case v' = some items' ∧
      walkActions u engine checks catalog aliases [] items = some items' := by
  cases v with
  | arr list =>
    simp only [walkUnder] at h
    rw [listUnder] at hitems
    split at h
    · rename_i hkey
      rw [if_pos hkey] at hitems
      obtain ⟨items', hwalk, heq⟩ := bind_eq_some_iff.mp h
      cases hitems
      cases heq
      exact ⟨items', if_pos hkey, hwalk⟩
    · rename_i hkey
      rw [if_neg hkey] at hitems
      split at h
      · rename_i hcases
        rw [if_pos hcases] at hitems
        obtain ⟨list', hwalk, heq⟩ := bind_eq_some_iff.mp h
        cases heq
        obtain ⟨w, hw, hlist⟩ := bind_eq_some_iff.mp hitems
        obtain ⟨w', hw', hcase⟩ := forall₂_getElem? (walkCases_forall hwalk) hw
        obtain ⟨items', hitems', hdone⟩ := walkCase_list hcase hlist
        refine ⟨items', ?_, hdone⟩
        rw [listUnder, if_neg hkey, if_pos hcases, hw', bind_some, hitems']
      · rename_i hcases
        rw [if_neg hcases] at hitems
        cases hitems
  | obj fields =>
    simp only [walkUnder] at h
    rw [listUnder] at hitems
    split at h
    · rename_i hkey
      rw [if_pos hkey] at hitems
      cases hitems
      obtain ⟨own, hown, h⟩ := bind_eq_some_iff.mp h
      obtain ⟨inner, hinner, heq⟩ := bind_eq_some_iff.mp h
      cases heq
      refine ⟨[.obj (graft own inner)], by rw [listUnder, if_pos hkey], ?_⟩
      simp only [walkActions, walkAction, hown, hinner, settle_nil, bind_eq_bind,
        bind_some, Option.pure_def, reverse_cons, reverse_nil, nil_append]
    · rename_i hkey
      rw [if_neg hkey] at hitems
      cases hitems
  | _ => cases hitems

/-- A step that is walked has its own edits, those of its inner lists, and the fields that it had.
-/
theorem walkActions_step_lookup
    (h : walkActions u engine checks catalog aliases [] items = some items') {i : Nat}
    (hi : items[i]? = some (.obj step)) :
    ∃ own inner step', visit u engine checks catalog aliases step = some own ∧
      walkInner u engine checks catalog aliases step = some inner ∧
      items'[i]? = some (.obj step') ∧
      (∀ key, key ≠ "target" → step'.lookup key = (graft own inner).lookup key) ∧
      (extractionTarget step ≠ none → step' = graft own inner) := by
  obtain ⟨own, inner, step', hown, hinner, hstep', hcases⟩ := walkActions_step h hi
  refine ⟨own, inner, step', hown, hinner, hstep', ?_⟩
  rcases hcases with ⟨rfl, -⟩ | ⟨j, next, next', stabilized, hreadies, -, -, rfl⟩
  · exact ⟨fun _ _ => rfl, fun _ => rfl⟩
  · obtain ⟨target, -, hready⟩ := hreadies.target
    exact ⟨fun key hkey => lookup_put_ne hkey,
      fun h => absurd (extractionTarget_of_readiness hready) h⟩

theorem listBelow_walk {place : List (Nat × String × Nat)} {list : List (Json ν)}
    (h : walkActions u engine checks catalog aliases [] items = some items')
    (hlist : listBelow place items = some list) :
    ∃ list', listBelow place items' = some list' ∧
      walkActions u engine checks catalog aliases [] list = some list' := by
  induction place generalizing items items' with
  | nil =>
    cases hlist
    exact ⟨items', rfl, h⟩
  | cons at_ place ih =>
    obtain ⟨i, key, case⟩ := at_
    rw [listBelow] at hlist
    split at hlist
    · rename_i step hstep
      obtain ⟨inner, hunder, hbelow⟩ := bind_eq_some_iff.mp hlist
      obtain ⟨v, hv, hitems⟩ := bind_eq_some_iff.mp hunder
      have hkey : isInner key := isInner_of_listUnder hitems
      obtain ⟨own, walked, step', hown, hinner, hstep', hsame, -⟩ := walkActions_step_lookup h hstep
      obtain ⟨v', hv', hwalk⟩ : ∃ v', step'.lookup key = some v' ∧
          walkUnder u engine checks catalog aliases key v = some v' := by
        rcases inner_cases hown hinner hkey with ⟨hnone, -⟩ | ⟨w, v', hw, hv', hwalk⟩
        · rw [hv] at hnone
          cases hnone
        · obtain rfl := mem_unique hv hw
          exact ⟨v', (hsame key (ne_of_isInner hkey).1).trans hv', hwalk⟩
      obtain ⟨items'', hunder', hinner'⟩ := walkUnder_list hwalk hitems
      obtain ⟨list', hlist', hdone⟩ := ih hinner' hbelow
      refine ⟨list', ?_, hdone⟩
      rw [listBelow, hstep']
      simp only [hv', bind_some, hunder', hlist']
    · cases hlist

end Walk

section FieldSelectors

variable [DecidableEq N] {u : Unicode} {engine : Engine N T} {checks : Checks ν N T}
  {nodeSets nodes : List (List N)} {rows rows' : List N} {name key selector : String}
  {replacement : Option String} {fields fields' field : Fields ν} {v v' : Json ν}

omit [DecidableEq N] in
theorem onlyNode_eq_some {nodes : List N} {n : N} : onlyNode nodes = some n ↔ nodes = [n] := by
  match nodes with
  | [] | [m] | _ :: _ :: _ => simp [onlyNode]

omit [DecidableEq N] in
theorem mapM_one : (rows.mapM fun row => onlyNode (engine.queryAll selector row)) = some rows' ↔
    SelectsOne engine selector rows ∧ rows' = rows.flatMap (engine.queryAll selector) := by
  induction rows generalizing rows' with
  | nil => simp [SelectsOne, eq_comm]
  | cons row rows ih =>
    rw [mapM_cons]
    simp only [bind_eq_bind, bind_eq_some_iff, ih, Option.pure_def,
      some.injEq, SelectsOne, forall_mem_cons, flatMap_cons, onlyNode_eq_some]
    constructor
    · rintro ⟨n, hn, _, ⟨hrows, rfl⟩, rfl⟩
      exact ⟨⟨⟨n, hn⟩, hrows⟩, by rw [hn]; rfl⟩
    · rintro ⟨⟨⟨n, hn⟩, hrows⟩, rfl⟩
      exact ⟨n, hn, _, ⟨hrows, rfl⟩, by rw [hn]; rfl⟩

omit [DecidableEq N] in
theorem relativeSelectorNodeSets_eq_some : relativeSelectorNodeSets engine selector nodeSets = some nodes ↔
      SelectsOne engine selector nodeSets.flatten ∧
        nodes = nodeSets.map fun rows => rows.flatMap (engine.queryAll selector) := by
  rw [relativeSelectorNodeSets]
  induction nodeSets generalizing nodes with
  | nil => simp [SelectsOne, eq_comm]
  | cons rows nodeSets ih =>
    rw [mapM_cons]
    simp only [bind_eq_bind, bind_eq_some_iff, mapM_one, ih, Option.pure_def,
      some.injEq, SelectsOne, flatten_cons, forall_mem_append, map_cons]
    constructor
    · rintro ⟨_, ⟨hrows, rfl⟩, _, ⟨hrest, rfl⟩, rfl⟩
      exact ⟨⟨hrows, hrest⟩, rfl⟩
    · rintro ⟨⟨hrows, hrest⟩, rfl⟩
      exact ⟨_, ⟨hrows, rfl⟩, _, ⟨hrest, rfl⟩, rfl⟩

theorem foldl_better_mem (candidates : List String) (best : String) :
    candidates.foldl better best = best ∨ candidates.foldl better best ∈ candidates := by
  induction candidates generalizing best with
  | nil => exact .inl rfl
  | cons c candidates ih =>
    rw [foldl_cons]
    rcases ih (better best c) with heq | hmem
    · rw [heq, better]
      split
      · exact .inr (mem_cons_self ..)
      · exact .inl rfl
    · exact .inr (mem_cons_of_mem _ hmem)

theorem replacement_exact (h : exactStableRelativeReplacement u engine checks nodeSets selector ≠ "") :
    (∀ row ∈ nodeSets.flatten, sameNodeSet
      (engine.queryAll (exactStableRelativeReplacement u engine checks nodeSets selector) row)
      (engine.queryAll selector row)) ∧
    trimSpace (exactStableRelativeReplacement u engine checks nodeSets selector) =
      exactStableRelativeReplacement u engine checks nodeSets selector := by
  have hmem := (foldl_better_mem _ "").resolve_left h
  obtain ⟨hcandidate, hexact⟩ := mem_filter.mp hmem
  simp only [exactRelative, Bool.and_eq_true, List.all_eq_true] at hexact
  refine ⟨fun row hrow => ?_, checks.trimmed nodeSets _ hcandidate⟩
  obtain ⟨rows, hrows, hrow⟩ := mem_flatten.mp hrow
  exact hexact.2 rows hrows row hrow

theorem sameNodeSet_singleton {left : List N} {n : N} (h : sameNodeSet left [n]) : left = [n] :=
  perm_singleton.mp (isPerm_iff.mp h)

theorem replacement_query (h : exactStableRelativeReplacement u engine checks nodeSets selector ≠ "")
    (hone : SelectsOne engine selector nodeSets.flatten) :
    ∀ row ∈ nodeSets.flatten,
      engine.queryAll (exactStableRelativeReplacement u engine checks nodeSets selector) row =
        engine.queryAll selector row := by
  intro row hrow
  obtain ⟨n, hn⟩ := hone row hrow
  have hsame := (replacement_exact h).1 row hrow
  rw [hn] at hsame ⊢
  exact sameNodeSet_singleton hsame

omit [DecidableEq N] in
theorem rowsBelow_cons (selectors : List String) : rowsBelow engine (selector :: selectors) rows =
    rowsBelow engine selectors (rows.flatMap (relativeNodes engine selector)) := rfl

omit [DecidableEq N] in
theorem rowsBelow_subset (selectors : List String) (h : rows ⊆ rows') :
    rowsBelow engine selectors rows ⊆ rowsBelow engine selectors rows' := by
  induction selectors generalizing rows rows' with
  | nil => exact h
  | cons selector selectors ih =>
    refine ih fun n hn => ?_
    obtain ⟨row, hrow, hmem⟩ := mem_flatMap.mp hn
    exact mem_flatMap.mpr ⟨row, h hrow, hmem⟩

omit [DecidableEq N] in
theorem flatten_rowsBelow_subset (selectors : List String) (h : nodeSets.flatten ⊆ rows) :
    (nodeSets.map (rowsBelow engine selectors)).flatten ⊆ rowsBelow engine selectors rows := by
  intro n hn
  obtain ⟨_, hmap, hmem⟩ := mem_flatten.mp hn
  obtain ⟨set, hset, rfl⟩ := List.mem_map.mp hmap
  exact rowsBelow_subset selectors
    (fun row hrow => h (mem_flatten.mpr ⟨set, hset, hrow⟩)) hmem

omit [DecidableEq N] in
theorem flatMap_relativeNodes_empty : rows.flatMap (relativeNodes engine "") = rows := by
  induction rows with
  | nil => rfl
  | cons row rows ih =>
    rw [flatMap_cons, ih]
    rfl

omit [DecidableEq N] in
theorem relativeNodes_eq (h : selector ≠ "") :
    relativeNodes engine selector = engine.queryAll selector := by
  funext row
  rw [relativeNodes, if_neg h]

/-- The selector of a field and the nodes it selects: the evidence itself, one node of each row, or
a field that has no fields in it. -/
theorem fieldSelection_cases
    (h : fieldSelection u engine checks name nodeSets field = some (replacement, nodes)) :
    (nodes = nodeSets.map (rowsBelow engine [selectorOf field]) ∧
      (selectorOf field ≠ "" → SelectsOne engine (selectorOf field) nodeSets.flatten) ∧
      replacement = if selectorOf field ≠ "" ∧
          exactStableRelativeReplacement u engine checks nodeSets (selectorOf field) ≠ "" ∧
          exactStableRelativeReplacement u engine checks nodeSets (selectorOf field) ≠ selectorOf field
        then some (exactStableRelativeReplacement u engine checks nodeSets (selectorOf field))
        else none) ∨
    (selectorOf field ≠ "" ∧ ¬ SelectsOne engine (selectorOf field) nodeSets.flatten ∧
      field.lookup "fields" = none) := by
  simp only [fieldSelection] at h
  split at h
  · rename_i hempty
    cases h
    refine .inl ⟨?_, fun hne => absurd hempty hne, (if_neg fun hne => hne.1 hempty).symm⟩
    rw [hempty]
    exact (map_id'' (fun rows => flatMap_relativeNodes_empty) nodeSets).symm
  · rename_i hne
    split at h
    · cases h
    · split at h
      · rename_i hnone
        split at h
        · cases h
        · rename_i hfields
          refine .inr ⟨hne, fun hone => ?_, ?_⟩
          · rw [relativeSelectorNodeSets_eq_some.mpr ⟨hone, rfl⟩] at hnone
            cases hnone
          · rw [Bool.or_eq_true, not_or] at hfields
            exact not_isSome_iff_eq_none.mp hfields.1
      · rename_i covered hcovered
        obtain ⟨hone, hnodes⟩ := relativeSelectorNodeSets_eq_some.mp hcovered
        have hbelow : nodeSets.map (rowsBelow engine [selectorOf field]) =
            nodeSets.map fun rows => rows.flatMap (engine.queryAll (selectorOf field)) := by
          refine map_congr_left fun rows _ => ?_
          rw [rowsBelow_cons, relativeNodes_eq hne]
          rfl
        refine .inl ?_
        rw [hbelow]
        split at h
        · rename_i hreplace
          obtain ⟨hr, hdiff⟩ :
            exactStableRelativeReplacement u engine checks nodeSets (selectorOf field) ≠ "" ∧
              exactStableRelativeReplacement u engine checks nodeSets (selectorOf field) ≠
                selectorOf field := by simpa using hreplace
          cases h
          have hquery := replacement_query hr hone
          have hsets : relativeSelectorNodeSets engine
              (exactStableRelativeReplacement u engine checks nodeSets (selectorOf field))
              nodeSets = some covered := by
            refine relativeSelectorNodeSets_eq_some.mpr ⟨fun row hrow => ?_, ?_⟩
            · rw [hquery row hrow]
              exact hone row hrow
            · rw [hnodes]
              refine map_congr_left fun rows hrows => ?_
              refine flatMap_congr fun row hrow => ?_
              exact (hquery row (mem_flatten.mpr ⟨rows, hrows, hrow⟩)).symm
          exact ⟨by rw [hsets]; exact hnodes, fun _ => hone, (if_pos ⟨hne, hr, hdiff⟩).symm⟩
        · rename_i hkeep
          split at h
          · cases h
          · cases h
            refine ⟨hnodes, fun _ => hone, (if_neg fun hall => hkeep ?_).symm⟩
            simpa using hall.2

variable {fields fields' : Fields ν}

theorem stabilizeFields_each (h : stabilizeFields u engine checks nodeSets fields = some fields') :
    Each (fun name v => stabilizeField u engine checks name nodeSets v) fields fields' :=
  each_of_walk (by rw [stabilizeFields]) (fun _ _ _ => by rw [stabilizeFields]) h

theorem stabilizeNested_each (h : stabilizeNested u engine checks nodeSets fields = some fields') :
    Each (fun key v => stabilizeUnder u engine checks key nodeSets v) fields fields' :=
  each_of_walk (by rw [stabilizeNested]) (fun _ _ _ => by rw [stabilizeNested]) h

theorem stabilizeUnder_same (h : stabilizeUnder u engine checks key nodeSets v = some v')
    (hkey : key ≠ "fields") : v' = v := by
  cases v with
  | obj nested =>
    simp only [stabilizeUnder, if_neg hkey] at h
    exact (some.inj h).symm
  | _ =>
    rw [stabilizeUnder, if_neg hkey] at h
    exact (some.inj h).symm

theorem stabilizeUnder_fields (h : stabilizeUnder u engine checks "fields" nodeSets v = some v') :
    ∃ nested nested', v = .obj nested ∧ v' = .obj nested' ∧
      stabilizeFields u engine checks nodeSets nested = some nested' := by
  cases v with
  | obj nested =>
    simp only [stabilizeUnder, if_pos] at h
    split at h
    · cases h
    · obtain ⟨nested', hnested, heq⟩ := bind_eq_some_iff.mp h
      exact ⟨nested, nested', rfl, (some.inj heq).symm, hnested⟩
  | _ =>
    rw [stabilizeUnder, if_pos rfl] at h
    cases h

theorem stabilizeField_cases (h : stabilizeField u engine checks name nodeSets v = some v') :
    ∃ field inner replacement nodes, v = .obj field ∧ v' = .obj (replaceSelector replacement inner) ∧
      fieldSelection u engine checks name nodeSets field = some (replacement, nodes) ∧
      stabilizeNested u engine checks nodes field = some inner := by
  cases v with
  | obj field =>
    simp only [stabilizeField, bind_eq_bind, bind_eq_some_iff] at h
    obtain ⟨⟨replacement, nodes⟩, hselection, h⟩ := h
    split at h
    · obtain ⟨inner, hinner, heq⟩ := bind_eq_some_iff.mp h
      exact ⟨field, inner, replacement, nodes, rfl, (some.inj heq).symm, hselection, hinner⟩
    · cases h
  | _ =>
    rw [stabilizeField] at h
    cases h

theorem replaceSelector_lookup (h : key ≠ "selector") :
    (replaceSelector replacement field).lookup key = field.lookup key := by
  cases replacement with
  | none => rfl
  | some selector => exact lookup_put_ne h

theorem nested_held (replacement : Option String) {inner : Fields ν}
    (hinner : stabilizeNested u engine checks nodes field = some inner) :
    Held (fun v v' => ∃ nested nested', v = .obj nested ∧ v' = .obj nested' ∧
        stabilizeFields u engine checks nodes nested = some nested')
      (field.lookup "fields") ((replaceSelector replacement inner).lookup "fields") := by
  rw [replaceSelector_lookup (by decide)]
  rcases stabilizeNested_each hinner "fields" with ⟨hnone, hnone'⟩ | ⟨v, v', hv, hunder, hv'⟩
  · exact .inl ⟨hnone, hnone'⟩
  · exact .inr ⟨v, v', hv, hv', stabilizeUnder_fields hunder⟩

theorem stabilizeField_kept (h : stabilizeField u engine checks name nodeSets v = some v') :
    FieldKept v v' := by
  obtain ⟨field, inner, replacement, nodes, rfl, rfl, -, hinner⟩ := stabilizeField_cases h
  refine ⟨_, rfl, fun key hselector hfields => ?_, ?_⟩
  · rw [replaceSelector_lookup hselector]
    exact (stabilizeNested_each hinner).unchanged fun v v' hv => stabilizeUnder_same hv hfields
  · rcases nested_held replacement hinner with
      hnone | ⟨v, v', hv, hv', nested, nested', rfl, rfl, -⟩
    · exact .inl hnone
    · exact .inr ⟨_, _, hv, hv', .inl ⟨nested, nested', rfl, rfl⟩⟩

theorem fieldsBelow_stabilize {names selectors : List String} {below : Fields ν}
    (h : stabilizeFields u engine checks nodeSets fields = some fields')
    (hbelow : fieldsBelow names fields = some (selectors, below)) :
    ∃ selectors' below', fieldsBelow names fields' = some (selectors', below') ∧
      stabilizeFields u engine checks (nodeSets.map (rowsBelow engine selectors)) below = some below' := by
  induction names generalizing nodeSets fields fields' selectors with
  | nil =>
    cases hbelow
    exact ⟨[], fields', rfl, by rw [show rowsBelow engine [] = id from rfl, List.map_id]; exact h⟩
  | cons name names ih =>
    rw [fieldsBelow] at hbelow
    split at hbelow
    · rename_i field hfield
      split at hbelow
      · rename_i nested hnested
        obtain ⟨⟨selectors, deep⟩, hdeep, heq⟩ := map_eq_some_iff.mp hbelow
        cases heq
        obtain ⟨v', hv', hlookup⟩ := (stabilizeFields_each h).holds hfield
        obtain ⟨_, inner, replacement, nodes, hobj, rfl, hselection, hinner⟩ :=
          stabilizeField_cases hv'
        cases hobj
        rcases nested_held replacement hinner with
          ⟨hnone, -⟩ | ⟨v, v', hv, hv', nested₁, nested', rfl, rfl, hstable⟩
        · rw [hnested] at hnone
          cases hnone
        · cases mem_unique hnested hv
          rcases fieldSelection_cases hselection with ⟨rfl, -, -⟩ | ⟨-, -, hnone⟩
          · obtain ⟨selectors', below', hbelow', hdone⟩ := ih hstable hdeep
            refine ⟨selectorOf (replaceSelector replacement inner) :: selectors', below', ?_, ?_⟩
            · rw [fieldsBelow, hlookup]
              simp only [hv', hbelow', map_some]
            · rw [List.map_map] at hdone
              exact hdone
          · rw [hnested] at hnone
            cases hnone
      · cases hbelow
    · cases hbelow

theorem stabilizeFields_kept (h : stabilizeFields u engine checks nodeSets fields = some fields') :
    FieldsKept fields fields' := by
  intro names selectors below hbelow
  obtain ⟨selectors', below', hbelow', hstable⟩ := fieldsBelow_stabilize h hbelow
  refine ⟨selectors', below', hbelow', fun name => ?_⟩
  rcases stabilizeFields_each hstable name with hnone | ⟨v, v', hv, hfield, hv'⟩
  · exact .inl hnone
  · exact .inr ⟨v, v', hv, hv', stabilizeField_kept hfield⟩

theorem stringValue_of_selectorOf (h : selectorOf field ≠ "") : ∃ w, field.lookup "selector" = some w := by
  cases hlookup : field.lookup "selector" with
  | some w => exact ⟨w, rfl⟩
  | none =>
    rw [selectorOf, stringValue, hlookup] at h
    exact absurd rfl h

theorem fieldSelectorKept_iff {field' : Fields ν} (hrows : nodeSets.flatten ⊆ rows)
    (h : stabilizeField u engine checks name nodeSets (.obj field) = some (.obj field')) :
    FieldSelectorKept engine rows (selectorOf field) (selectorOf field') ↔
      FieldAgrees u engine checks rows nodeSets (selectorOf field) := by
  obtain ⟨_, inner, replacement, nodes, hobj, hobj', hselection, hinner⟩ := stabilizeField_cases h
  cases hobj
  cases hobj'
  refine forall_congr' fun hne => forall_congr' fun hone => ?_
  have hevidence : SelectsOne engine (selectorOf field) nodeSets.flatten :=
    fun row hrow => hone row (hrows hrow)
  obtain ⟨-, -, rfl⟩ := (fieldSelection_cases hselection).resolve_right
    fun hnot => hnot.2.1 hevidence
  have hsame : inner.lookup "selector" = field.lookup "selector" :=
    (stabilizeNested_each hinner).unchanged fun v v' hv => stabilizeUnder_same hv (by decide)
  generalize hr : exactStableRelativeReplacement u engine checks nodeSets (selectorOf field) = r
  by_cases hreplace : r ≠ "" ∧ r ≠ selectorOf field
  · have hexact := hr ▸ replacement_exact (hr.symm ▸ hreplace.1)
    have hquery := replacement_query (hr.symm ▸ hreplace.1) hevidence
    rw [hr] at hquery
    have hselector : selectorOf (replaceSelector (some r) inner) = r := by
      obtain ⟨w, hw⟩ := stringValue_of_selectorOf hne
      rw [selectorOf, stringValue, replaceSelector, lookup_put_self (hsame.trans hw)]
      exact hexact.2
    rw [if_pos ⟨hne, hreplace⟩, hselector]
    constructor
    · exact fun hkept _ row hrow _ => hkept row hrow
    · intro hagrees row hrow
      by_cases hmem : row ∈ nodeSets.flatten
      · exact hquery row hmem
      · exact hagrees hreplace.1 row hrow hmem
  · have hselector : selectorOf (replaceSelector none inner) = selectorOf field := by
      rw [replaceSelector, selectorOf, selectorOf, stringValue_congr hsame]
    rw [if_neg fun hall => hreplace hall.2, hselector]
    constructor
    · intro _ hr' row _ _
      have heq : r = selectorOf field := by
        by_contra hdiff
        exact hreplace ⟨hr', hdiff⟩
      rw [heq]
    · exact fun _ row _ => rfl

end FieldSelectors

section Targets

variable [DecidableEq N] {u : Unicode} {engine : Engine N T} {checks : Checks ν N T}
  {catalog : Catalog T} {snapshots : List (Snapshot T)} {candidates : List Candidate}
  {aliases inline step own : Fields ν} {selector : String} {minimum : Nat} {multiple : Bool}
  {nodeSets : List (List N)} {replacement : Option String} {c : Candidate}
  {resolved : String → Option (Json ν)}

theorem exactStableTargetEvidence_exact
    (h : exactStableTargetEvidence u engine checks candidates snapshots selector minimum = some c) :
    c ∈ candidates ∧ exactCandidate u engine checks snapshots selector minimum c := by
  -- what the fold has kept so far is a candidate of its list
  refine List.foldlRecOn (motive := fun best => ∀ c, best = some c → c ∈ candidates ∧
    exactCandidate u engine checks snapshots selector minimum c) candidates _
    (by intro c hnone; cases hnone) ?_ c h
  intro best hbest d hd c hc
  split at hc
  · rename_i hexact
    have hchosen : some d = some c → c ∈ candidates ∧
        exactCandidate u engine checks snapshots selector minimum c := by
      intro hsome
      cases hsome
      exact ⟨hd, hexact⟩
    split at hc
    · exact hchosen hc
    · split at hc
      · exact hchosen hc
      · exact hbest c hc
  · exact hbest c hc

theorem preferred_exact (h : preferred u engine checks catalog multiple selector = some c) :
    trimSpace c.selector = c.selector ∧ ∀ s ∈ catalog.snapshots, s.state = c.state →
      sameNodeSet (engine.matchAll selector s.root) (engine.matchAll c.selector s.root) := by
  obtain ⟨hmem, hexact⟩ := exactStableTargetEvidence_exact h
  constructor
  · refine catalog.trimmed c (mem_append.mpr ?_)
    rw [Catalog.validation] at hmem
    split at hmem
    · exact .inl hmem
    · exact .inr hmem
  · intro s hs hstate
    simp only [exactCandidate, Bool.and_eq_true, List.all_eq_true, mem_filter, decide_eq_true_eq] at hexact
    exact hexact.1.2 s ⟨hs, hstate⟩

theorem candidateEvidence_subset (h : preferred u engine checks catalog multiple selector = some c) :
    ((candidateEvidence engine catalog.snapshots c).map Prod.snd).flatten ⊆
      recordedRows engine catalog selector := by
  intro n hn
  obtain ⟨_, hmap, hmem⟩ := mem_flatten.mp hn
  obtain ⟨e, he, rfl⟩ := List.mem_map.mp hmap
  obtain ⟨s, hs, rfl⟩ := List.mem_map.mp he
  obtain ⟨hs, hstate⟩ := mem_filter.mp hs
  have hsame := (preferred_exact h).2 s hs (by simpa using (Bool.and_eq_true_iff.mp hstate).1)
  exact mem_flatMap.mpr ⟨s, hs, (isPerm_iff.mp hsame).mem_iff.mpr hmem⟩

omit [DecidableEq N] in
theorem consistentSelectorWindow_subset {evidence window : List (Snapshot T × List N)}
    (h : consistentSelectorWindow evidence = some window) : window ⊆ evidence := by
  rw [consistentSelectorWindow] at h
  split at h
  · cases h
  · split at h
    · cases h
      intro e he
      have hlast := (dropWhile_sublist _).subset (mem_reverse.mp he)
      exact (dropWhile_sublist _).subset (mem_reverse.mp hlast)
    · cases h

variable {evidence : List (Snapshot T × List N)}

omit [DecidableEq N] in
theorem strongestSelectorEvidence_matches
    (h : strongestSelectorEvidence engine snapshots selector = some evidence) :
    ∀ e ∈ evidence, e.1 ∈ snapshots ∧ e.2 = engine.matchAll selector e.1.root := by
  refine List.foldlRecOn (motive := fun best => ∀ b : List (Snapshot T × List N), best = some b →
    ∀ e ∈ b, e.1 ∈ snapshots ∧ e.2 = engine.matchAll selector e.1.root) (states snapshots) _
    (by intro b hnone; cases hnone) ?_ evidence h
  intro best hbest state _ b hb
  simp only at hb
  split at hb
  · exact hbest b hb
  · rename_i window hwindow
    have hmatches : ∀ e ∈ window,
        e.1 ∈ snapshots ∧ e.2 = engine.matchAll selector e.1.root := by
      intro e he
      obtain ⟨s, hs, rfl⟩ := List.mem_map.mp (consistentSelectorWindow_subset hwindow he)
      exact ⟨(mem_filter.mp hs).1, rfl⟩
    split at hb
    · cases hb
      exact hmatches
    · split at hb
      · cases hb
        exact hmatches
      · exact hbest b hb

omit [DecidableEq N] in
theorem strongestSelectorEvidence_subset
    (h : strongestSelectorEvidence engine catalog.snapshots selector = some evidence) :
    (evidence.map Prod.snd).flatten ⊆ recordedRows engine catalog selector := by
  intro n hn
  obtain ⟨_, hmap, hmem⟩ := mem_flatten.mp hn
  obtain ⟨e, he, rfl⟩ := List.mem_map.mp hmap
  obtain ⟨hs, heq⟩ := strongestSelectorEvidence_matches h e he
  exact mem_flatMap.mpr ⟨e.1, hs, heq ▸ hmem⟩

theorem targetSelection_cases (h : targetSelection u engine checks catalog multiple resolved =
    some (replacement, nodeSets)) :
    ((∃ c, Replaces u engine checks catalog multiple (resolvedSelector resolved) c ∧
        replacement = some c.selector) ∨
      (replacement = none ∧ ∀ c, Replaces u engine checks catalog multiple
        (resolvedSelector resolved) c → c.selector = resolvedSelector resolved)) ∧
    nodeSets.flatten ⊆ recordedRows engine catalog (resolvedSelector resolved) := by
  cases multiple with
  | true =>
    simp only [targetSelection, if_true] at h
    split at h
    · cases h
    · rename_i c hc
      split at h
      · cases h
      · rename_i hne
        split at h
        · cases h
          refine ⟨?_, candidateEvidence_subset hc⟩
          split
          · exact .inl ⟨c, ⟨hc, hne, nofun⟩, rfl⟩
          · rename_i heq
            refine .inr ⟨rfl, fun d hd => ?_⟩
            obtain rfl := mem_unique hc hd.1
            exact (not_not.mp heq).symm
        · cases h
  | false =>
    simp only [targetSelection, Bool.false_eq_true, if_false] at h
    split at h
    · cases h
    · rename_i evidence hevidence
      have hsubset := strongestSelectorEvidence_subset hevidence
      split at h
      · cases h
      · split at h
        · rename_i c hc
          split at h
          · rename_i hne
            split at h
            · rename_i hreplace
              cases h
              obtain ⟨-, hmain⟩ : c.selector ≠ resolvedSelector resolved ∧
                resolvedSelector resolved ≠ "main" := by simpa using hreplace
              exact ⟨.inl ⟨c, ⟨hc, hne, fun _ => hmain⟩, rfl⟩, candidateEvidence_subset hc⟩
            · rename_i hkeep
              cases h
              refine ⟨.inr ⟨rfl, fun d hd => ?_⟩, hsubset⟩
              obtain rfl := mem_unique hc hd.1
              by_contra hdiff
              exact hkeep (by simp [hdiff, hd.2.2 rfl])
          · rename_i hempty
            split at h
            · cases h
            · cases h
              refine ⟨.inr ⟨rfl, fun d hd => ?_⟩, hsubset⟩
              obtain rfl := mem_unique hc hd.1
              exact absurd hd.2.1 hempty
        · rename_i hnone
          split at h
          · cases h
          · cases h
            refine ⟨.inr ⟨rfl, fun d hd => ?_⟩, hsubset⟩
            have hfalse := hnone.symm.trans hd.1
            cases hfalse

omit [DecidableEq N] in
theorem resolveTarget_set {r : String} (h : resolveTarget aliases inline = some resolved) :
    ∃ resolved', resolveTarget aliases (Assoc.set "selector" (.str r) inline) = some resolved' ∧
      resolvedSelector resolved' = trimSpace r := by
  have href : stringValue (Assoc.set "selector" (.str r) inline) "$ref" = stringValue inline "$ref" :=
    stringValue_congr (by rw [Assoc.lookup_set, if_neg (by decide)])
  have hselector : (Assoc.set "selector" (.str r) inline).lookup "selector" =
      some (Json.str r : Json ν) := by
    rw [Assoc.lookup_set, if_pos rfl]
  simp only [resolveTarget] at h ⊢
  rw [href]
  split at h
  · rename_i hempty
    rw [if_pos hempty]
    exact ⟨_, rfl, by rw [resolvedSelector, stringAt, hselector]⟩
  · rename_i hne
    rw [if_neg hne]
    split at h
    · exact ⟨_, rfl, by rw [resolvedSelector, stringAt, hselector, some_or]⟩
    · cases h

theorem sameNodeSet_refl (nodes : List N) : sameNodeSet nodes nodes :=
  isPerm_iff.mpr (List.Perm.refl _)

end Targets

section Steps

variable [DecidableEq N] {u : Unicode} {engine : Engine N T} {checks : Checks ν N T}
  {catalog : Catalog T} {aliases inline step own inner step' : Fields ν}
  {items items' : List (Json ν)}

theorem visit_fields {fields : Fields ν} {resolved : String → Option (Json ν)}
    {replacement : Option String} {nodeSets : List (List N)}
    (hown : visit u engine checks catalog aliases step = some own)
    (hinline : extractionTarget step = some inline)
    (hresolved : resolveTarget aliases inline = some resolved)
    (hselection : targetSelection u engine checks catalog (isMultiple step) resolved =
      some (replacement, nodeSets)) (hfields : step.lookup "fields" = some (.obj fields)) :
    ∃ fields', own.lookup "fields" = some (.obj fields') ∧
      stabilizeFields u engine checks nodeSets fields = some fields' := by
  rw [visit_eq, hinline] at hown
  obtain ⟨_, _, _, hresolved', -, hselection', hcases⟩ := validate_cases hown
  obtain rfl := mem_unique hresolved hresolved'
  cases mem_unique hselection hselection'
  rcases hcases with ⟨fields₁, fields', hfields₁, hstable, rfl⟩ | ⟨hnone, -⟩
  · cases mem_unique hfields hfields₁
    exact ⟨fields', lookup_put_self ((lookup_put_ne (by decide)).trans hfields), hstable⟩
  · exact absurd hfields (hnone fields)

theorem visit_selection (hown : visit u engine checks catalog aliases step = some own)
    (hinline : extractionTarget step = some inline) :
    ∃ resolved replacement nodeSets, resolveTarget aliases inline = some resolved ∧
      targetSelection u engine checks catalog (isMultiple step) resolved = some (replacement, nodeSets) ∧
      own.lookup "target" = some (.obj (replaceTarget replacement inline)) := by
  have htarget := (extractionTarget_eq_some.mp hinline).2
  rw [visit_eq, hinline] at hown
  obtain ⟨resolved, replacement, nodeSets, hresolved, -, hselection, hcases⟩ := validate_cases hown
  refine ⟨resolved, replacement, nodeSets, hresolved, hselection, ?_⟩
  rcases hcases with ⟨-, -, -, -, rfl⟩ | ⟨-, rfl⟩
  · exact (lookup_put_ne (by decide)).trans (lookup_put_self htarget)
  · exact lookup_put_self htarget

theorem targetKept_iff (hown : visit u engine checks catalog aliases step = some own)
    (hinline : extractionTarget step = some inline)
    (htarget : step'.lookup "target" = own.lookup "target") :
    (∀ resolved inline' resolved', resolveTarget aliases inline = some resolved →
      step'.lookup "target" = some (.obj inline') →
      resolveTarget aliases inline' = some resolved' →
      ∀ s ∈ catalog.snapshots, sameNodeSet (engine.matchAll (resolvedSelector resolved) s.root)
        (engine.matchAll (resolvedSelector resolved') s.root)) ↔
    ∀ resolved, resolveTarget aliases inline = some resolved →
      TargetAgrees u engine checks catalog (isMultiple step) (resolvedSelector resolved) := by
  obtain ⟨resolved, replacement, nodeSets, hresolved, hselection, hwritten⟩ :=
    visit_selection hown hinline
  rw [← htarget] at hwritten
  rcases (targetSelection_cases hselection).1 with ⟨c, hc, rfl⟩ | ⟨rfl, hsame⟩
  · obtain ⟨resolved', hresolved', hselector⟩ := resolveTarget_set (r := c.selector) hresolved
    obtain ⟨htrim, hexact⟩ := preferred_exact hc.1
    rw [htrim] at hselector
    constructor
    · intro hkept resolved₁ hresolved₁ d hd s hs _
      obtain rfl := mem_unique hresolved hresolved₁
      obtain rfl := mem_unique hc.1 hd.1
      exact hselector ▸ hkept _ _ _ hresolved hwritten hresolved' s hs
    · intro hagrees resolved₁ inline₁ resolved₂ hresolved₁ hinline₁ hresolved₂ s hs
      obtain rfl := mem_unique hresolved hresolved₁
      cases mem_unique hwritten hinline₁
      obtain rfl := mem_unique hresolved' hresolved₂
      rw [hselector]
      by_cases hstate : s.state = c.state
      · exact hexact s hs hstate
      · exact hagrees _ hresolved c hc s hs hstate
  · constructor
    · intro _ resolved₁ hresolved₁ d hd s _ _
      obtain rfl := mem_unique hresolved hresolved₁
      rw [hsame d hd]
      exact sameNodeSet_refl _
    · intro _ resolved₁ inline₁ resolved₂ hresolved₁ hinline₁ hresolved₂ s _
      obtain rfl := mem_unique hresolved hresolved₁
      cases mem_unique hwritten hinline₁
      obtain rfl := mem_unique hresolved hresolved₂
      exact sameNodeSet_refl _

/-- The selectors of one step select what they did exactly when the step agrees. -/
theorem selectorsKept_iff (hown : visit u engine checks catalog aliases step = some own)
    (hinline : extractionTarget step = some inline)
    (htarget : step'.lookup "target" = own.lookup "target")
    (hfields : step'.lookup "fields" = own.lookup "fields") :
    SelectorsKept engine catalog aliases step step' inline ↔
      StepAgrees u engine checks catalog aliases step inline := by
  obtain ⟨resolved, replacement, nodeSets, hresolved, hselection, -⟩ :=
    visit_selection hown hinline
  have hsubset := (targetSelection_cases hselection).2
  constructor
  · rintro ⟨hkept, hfieldsKept⟩
    refine ⟨(targetKept_iff hown hinline htarget).mp hkept, ?_⟩
    intro resolved₁ replacement₁ nodeSets₁ fields names name selectors below field hresolved₁
      hselection₁ hstep hbelow hfield
    obtain rfl := mem_unique hresolved hresolved₁
    cases mem_unique hselection hselection₁
    obtain ⟨fields', hfields', hstable⟩ := visit_fields hown hinline hresolved hselection hstep
    obtain ⟨selectors', below', hbelow', hstable'⟩ := fieldsBelow_stabilize hstable hbelow
    obtain ⟨v', hv', hlookup⟩ := (stabilizeFields_each hstable').holds hfield
    obtain ⟨_, inner, r, _, _, rfl, -, -⟩ := stabilizeField_cases hv'
    exact (fieldSelectorKept_iff (flatten_rowsBelow_subset selectors hsubset) hv').mp
      (hfieldsKept _ _ _ names name _ _ _ _ _ _ hresolved hstep (hfields.trans hfields') hbelow
        hbelow' hfield hlookup)
  · rintro ⟨hagrees, hfieldsAgree⟩
    refine ⟨(targetKept_iff hown hinline htarget).mpr hagrees, ?_⟩
    intro resolved₁ fields fields₁ names name selectors selectors₁ below below₁ field field₁
      hresolved₁ hstep hstep' hbelow hbelow₁ hfield hfield₁
    obtain rfl := mem_unique hresolved hresolved₁
    obtain ⟨fields', hfields', hstable⟩ := visit_fields hown hinline hresolved hselection hstep
    cases (hfields.trans hfields').symm.trans hstep'
    obtain ⟨selectors', below', hbelow', hstable'⟩ := fieldsBelow_stabilize hstable hbelow
    cases mem_unique hbelow' hbelow₁
    obtain ⟨v', hv', hlookup⟩ := (stabilizeFields_each hstable').holds hfield
    obtain rfl := mem_unique hlookup hfield₁
    exact (fieldSelectorKept_iff (flatten_rowsBelow_subset selectors hsubset) hv').mpr
      (hfieldsAgree _ _ _ _ names name _ _ _ hresolved hselection hstep hbelow hfield)

omit [DecidableEq N] in
theorem erase_set (key : String) (v : Json ν) (fields : Fields ν) :
    Assoc.erase key (Assoc.set key v fields) = Assoc.erase key fields := by
  induction fields with
  | nil => simp [Assoc.set, Assoc.erase]
  | cons f fields ih =>
    rw [Assoc.set]
    split
    · simp [Assoc.erase]
    · split
      · rename_i hkey
        simp [Assoc.erase, hkey]
      · simp only [Assoc.erase, filter_cons] at ih ⊢
        rw [ih]

theorem visit_kept (hown : visit u engine checks catalog aliases step = some own)
    (hinline : extractionTarget step = some inline)
    (htarget : step'.lookup "target" = own.lookup "target")
    (hfields : step'.lookup "fields" = own.lookup "fields") :
    ExtractionKept step step' inline := by
  obtain ⟨resolved, replacement, nodeSets, hresolved, hselection, hwritten⟩ :=
    visit_selection hown hinline
  refine ⟨⟨_, htarget.trans hwritten, ?_⟩, ?_⟩
  · cases replacement with
    | none => rfl
    | some r => exact erase_set "selector" (.str r) inline
  · rw [hfields]
    rw [visit_eq, hinline] at hown
    obtain ⟨_, _, _, -, -, -, hcases⟩ := validate_cases hown
    rcases hcases with ⟨fields, fields', hstep, hstable, rfl⟩ | ⟨-, rfl⟩
    · exact .inr ⟨_, _, hstep, lookup_put_self ((lookup_put_ne (by decide)).trans hstep),
        .inl ⟨fields, fields', rfl, rfl, stabilizeFields_kept hstable⟩⟩
    · rw [lookup_put_ne (by decide)]
      cases hlookup : step.lookup "fields" with
      | none => exact .inl ⟨rfl, rfl⟩
      | some v => exact .inr ⟨v, v, rfl, rfl, .inr rfl⟩

theorem stepKept_of_walk (hown : visit u engine checks catalog aliases step = some own)
    (hinner : walkInner u engine checks catalog aliases step = some inner)
    (hsame : ∀ key, key ≠ "target" → step'.lookup key = (graft own inner).lookup key)
    (hextraction : extractionTarget step ≠ none → step' = graft own inner) :
    StepKept step step' := by
  refine ⟨fun key htarget hfields hkey => ?_, fun key hkey => ?_, fun inline hinline => ?_,
    fun hidle => ?_⟩
  · rw [hsame key htarget, lookup_graft hkey, visit_lookup hown htarget hfields]
  · rw [hsame key (ne_of_isInner hkey).1]
    rcases inner_cases hown hinner hkey with hnone | ⟨v, v', hv, hv', hwalk⟩
    · exact .inl hnone
    · exact .inr ⟨v, v', hv, hv', walkUnder_kept hwalk⟩
  · obtain rfl := hextraction (by rw [hinline]; nofun)
    exact visit_kept hown hinline (lookup_graft (by decide)) (lookup_graft (by decide))
  · rw [hsame "fields" (by decide), lookup_graft (by decide), visit_idle hown hidle]

omit [DecidableEq N] in
theorem length_readyAll (zs : List (Json ν × Json ν)) : (readyAll checks zs).length = zs.length := by
  induction zs with
  | nil => rfl
  | cons z zs ih => rw [readyAll, length_cons, length_cons, ih]

theorem listKept_of_walk (h : walkActions u engine checks catalog aliases [] items = some items') :
    ListKept checks items items' where
  length := by
    obtain ⟨zs, rfl, -, rfl⟩ := walkActions_cases h
    rw [length_readyAll, length_map]
  others := by
    intro i v hi hother
    obtain ⟨zs, rfl, hzs, rfl⟩ := walkActions_cases h
    rw [getElem?_map, map_eq_some_iff] at hi
    obtain ⟨z, hz, rfl⟩ := hi
    have hwalked := hzs z (mem_of_getElem? hz)
    rw [getElem?_readyAll, hz, map_some]
    cases hwalked with
    | step hown hinner => exact absurd rfl (hother _)
    | @other v _ =>
      rcases readiedBy_cases checks (zs.drop (i + 1)) v with
        ⟨heq, -⟩ | ⟨-, -, -, wait, -, -, rfl, -⟩
      · rw [heq]
      · exact absurd rfl (hother wait)
  steps := by
    intro i step hi
    obtain ⟨own, inner, step', hown, hinner, hstep', hsame, hextraction⟩ :=
      walkActions_step_lookup h hi
    exact ⟨step', hstep', stepKept_of_walk hown hinner hsame hextraction⟩
  targets := by
    intro i step step' hi hi' hidle hnone
    obtain ⟨own, inner, written, hown, hinner, hwritten, hcases⟩ := walkActions_step h hi
    cases mem_unique hwritten hi'
    rcases hcases with ⟨rfl, -⟩ | ⟨j, next, -, -, hreadies, -⟩
    · rw [lookup_graft (by decide), visit_idle hown hidle]
    · exact absurd hreadies (hnone j next)
  readiness := by
    intro i j wait step hreadies
    obtain ⟨own, inner, wait', hown, hinner, hwait', hcases⟩ := walkActions_step h hreadies.waitAt
    rcases hcases with ⟨-, hnone⟩ | ⟨k, next, next', target, hk, hnext', htarget, rfl⟩
    · exact absurd hreadies (hnone j step)
    · obtain rfl := hreadies.unique hk
      refine ⟨_, next', hwait', hnext', ?_⟩
      obtain ⟨original, -, hready⟩ := hreadies.target
      have hidle := extractionTarget_of_readiness hready
      obtain ⟨w, hw⟩ := target_of_readiness hready
      have hlookup : (graft own inner).lookup "target" = some w := by
        rw [lookup_graft (by decide), visit_idle hown hidle, hw]
      rw [lookup_put_self hlookup, htarget]

end Steps

section Rules

variable [DecidableEq N] {u : Unicode} {engine : Engine N T} {checks : Checks ν N T}
  {catalog : Catalog T} {aliases : Fields ν} {rule rule' : Rule ν} {hook : Option String}
  {items : List (Json ν)}

theorem stabilized_cases (h : stabilized u engine checks catalog rule = some rule') :
    ∃ aliases steps hooks, aliasesOf rule = some aliases ∧
      walkSteps u engine checks catalog aliases rule.steps = some steps ∧
      walkRuleHooks u engine checks catalog aliases rule.hooks = some hooks ∧
      rule' = { rule with steps := steps, hooks := hooks } := by
  rw [stabilized] at h
  simp only [bind_eq_bind, Option.pure_def] at h
  split at h
  · cases h
  · simp only [bind_eq_some_iff, some.injEq] at h
    obtain ⟨aliases, haliases, steps, hsteps, hooks, hhooks, rfl⟩ := h
    exact ⟨aliases, steps, hooks, haliases, hsteps, hhooks, rfl⟩

variable {name : String}

theorem walkHook_list {v' : Json ν} (h : walkHook u engine checks catalog aliases
      name (.arr items) = some v') (hname : selectorEvidenceHookNames.contains name) :
    ∃ items', v' = .arr items' ∧ walkActions u engine checks catalog aliases [] items = some items' := by
  rw [walkHook, if_pos hname] at h
  obtain ⟨items', hwalk, rfl⟩ := map_eq_some_iff.mp h
  exact ⟨items', rfl, hwalk⟩

theorem walkHook_same {v v' : Json ν} (h : walkHook u engine checks catalog aliases name v = some v')
    (hv : ∀ items, v = .arr items → selectorEvidenceHookNames.contains name = false) : v' = v := by
  cases v with
  | arr items =>
    rw [walkHook, if_neg (by rw [hv items rfl]; exact Bool.false_ne_true)] at h
    exact (some.inj h).symm
  | _ =>
    rw [walkHook] at h
    · exact (some.inj h).symm
    · intro items hitems
      cases hitems

theorem walkRuleHooks_cases {hooks hooks' : Option (Json ν)}
    (h : walkRuleHooks u engine checks catalog aliases hooks = some hooks') :
    (∃ fields fields', hooks = some (.obj fields) ∧ hooks' = some (.obj fields') ∧
      walkHooks u engine checks catalog aliases fields = some fields') ∨
    ((∀ fields, hooks ≠ some (.obj fields)) ∧ hooks' = hooks) := by
  match hooks with
  | none | some .null => exact .inr ⟨nofun, (some.inj h).symm⟩
  | some (.obj fields) =>
    obtain ⟨fields', hwalk, rfl⟩ := map_eq_some_iff.mp h
    exact .inl ⟨fields, fields', rfl, rfl, hwalk⟩
  | some (.bool _) | some (.num _) | some (.str _) | some (.arr _) => cases h

theorem ruleList_walk {steps : Json ν} {hooks : Option (Json ν)}
    (hsteps : walkSteps u engine checks catalog aliases rule.steps = some steps)
    (hhooks : walkRuleHooks u engine checks catalog aliases rule.hooks = some hooks)
    (hlist : ruleList rule hook = some items) :
    ∃ items', ruleList { rule with steps := steps, hooks := hooks } hook = some items' ∧
      walkActions u engine checks catalog aliases [] items = some items' := by
  cases hook with
  | none =>
    rw [ruleList] at hlist
    split at hlist
    · rename_i list heq
      cases hlist
      rw [heq] at hsteps
      obtain ⟨items', hwalk, rfl⟩ := map_eq_some_iff.mp hsteps
      exact ⟨items', rfl, hwalk⟩
    · cases hlist
  | some name =>
    rw [ruleList] at hlist
    split at hlist
    · rename_i fields heq
      split at hlist
      · rename_i list hlookup
        split at hlist
        · rename_i hname
          cases hlist
          rcases walkRuleHooks_cases hhooks with
            ⟨fields₁, fields', hfields, rfl, hwalk⟩ | ⟨hnone, -⟩
          · cases mem_unique heq hfields
            obtain ⟨v', hv', hlookup'⟩ := (walkHooks_each hwalk).holds hlookup
            obtain ⟨items', rfl, hdone⟩ := walkHook_list hv' hname
            refine ⟨items', ?_, hdone⟩
            simp only [ruleList, hlookup', if_pos hname]
          · exact absurd heq (hnone fields)
        · cases hlist
      · cases hlist
    · cases hlist

/-- At every place the list is walked by itself. -/
theorem listAt_walk {place : List (Nat × String × Nat)}
    (h : stabilized u engine checks catalog rule = some rule')
    (hlist : listAt rule hook place = some items) :
    ∃ items', listAt rule' hook place = some items' ∧
      walkActions u engine checks catalog ((aliasesOf rule).getD []) [] items = some items' := by
  obtain ⟨aliases, steps, hooks, haliases, hsteps, hhooks, rfl⟩ := stabilized_cases h
  obtain ⟨top, htop, hbelow⟩ := bind_eq_some_iff.mp hlist
  obtain ⟨top', htop', hwalk⟩ := ruleList_walk hsteps hhooks htop
  obtain ⟨items', hitems', hdone⟩ := listBelow_walk hwalk hbelow
  refine ⟨items', ?_, by rw [haliases]; exact hdone⟩
  rw [listAt, htop', bind_some, hitems']

/-- A rule that is stabilized keeps its other fields. -/
theorem stabilized_ruleKept (h : stabilized u engine checks catalog rule = some rule') :
    RuleKept checks rule rule' where
  selectors := by
    obtain ⟨-, -, -, -, -, -, rfl⟩ := stabilized_cases h
    rfl
  steps := by
    obtain ⟨aliases, steps, hooks, -, hsteps, -, rfl⟩ := stabilized_cases h
    intro hnone
    rw [ruleList] at hnone
    cases heq : rule.steps with
    | arr items =>
      rw [heq] at hnone
      cases hnone
    | null =>
      rw [heq] at hsteps
      exact (some.inj hsteps).symm
    | _ =>
      rw [heq] at hsteps
      cases hsteps
  noHooks := by
    obtain ⟨aliases, steps, hooks, -, -, hhooks, rfl⟩ := stabilized_cases h
    intro hnone
    rcases walkRuleHooks_cases hhooks with ⟨fields, -, heq, -⟩ | ⟨-, heq⟩
    · exact absurd heq (hnone fields)
    · exact heq
  hooks := by
    obtain ⟨aliases, steps, hooks, -, -, hhooks, rfl⟩ := stabilized_cases h
    intro fields hfields
    rcases walkRuleHooks_cases hhooks with ⟨fields₁, fields', heq, rfl, hwalk⟩ | ⟨hnone, -⟩
    · cases mem_unique hfields heq
      refine ⟨fields', rfl, fun name hnone => ?_⟩
      rcases walkHooks_each hwalk name with ⟨h1, h2⟩ | ⟨v, v', hv, hhook, hv'⟩
      · rw [h1, h2]
      · rw [hv, hv', walkHook_same hhook fun items hitems => ?_]
        rw [ruleList, hfields] at hnone
        simp only [hv, hitems] at hnone
        split at hnone
        · cases hnone
        · rename_i hname
          exact Bool.eq_false_iff.mpr hname
    · exact absurd hfields (hnone fields)
  lists := by
    intro hook place items hlist
    obtain ⟨items', hitems', hwalk⟩ := listAt_walk h hlist
    exact ⟨items', hitems', listKept_of_walk hwalk⟩

/-- A rule that fails is left as it is; one that does not keeps all but its selectors, and those
select what they did exactly if the candidates that are preferred agree with them in all that was
recorded. -/
theorem validateAndStabilize_iff (u : Unicode) (engine : Engine N T) (checks : Checks ν N T)
    (catalog : Catalog T) (rule : Rule ν) :
    ((validateAndStabilize u engine checks catalog rule).2 = false →
      (validateAndStabilize u engine checks catalog rule).1 = rule) ∧
    ((validateAndStabilize u engine checks catalog rule).2 = true →
      RuleKept checks rule (validateAndStabilize u engine checks catalog rule).1 ∧
      (Stabilized engine checks catalog rule (validateAndStabilize u engine checks catalog rule).1 ↔
        Agrees u engine checks catalog rule)) := by
  cases h : stabilized u engine checks catalog rule with
  | none =>
    rw [validateAndStabilize, h]
    exact ⟨fun _ => rfl, nofun⟩
  | some rule' =>
    rw [validateAndStabilize, h]
    refine ⟨nofun, fun _ => ⟨stabilized_ruleKept h, ?_⟩⟩
    -- the selectors of an extraction are kept exactly if its candidates agree
    have hstep : ∀ {items items' : List (Json ν)} {i : Nat} {step : Fields ν} {inline},
        walkActions u engine checks catalog ((aliasesOf rule).getD []) [] items = some items' →
        items[i]? = some (.obj step) → extractionTarget step = some inline →
        ∃ step', items'[i]? = some (.obj step') ∧
          (SelectorsKept engine catalog ((aliasesOf rule).getD []) step step' inline ↔
            StepAgrees u engine checks catalog ((aliasesOf rule).getD []) step inline) := by
      intro items items' i step inline hwalk hi hinline
      obtain ⟨own, inner, step', hown, -, hstep', -, hextraction⟩ :=
        walkActions_step_lookup hwalk hi
      obtain rfl := hextraction (by rw [hinline]; nofun)
      exact ⟨_, hstep', selectorsKept_iff hown hinline (lookup_graft (by decide))
        (lookup_graft (by decide))⟩
    constructor
    · intro hkept hook place items i step inline hlist hi hinline
      obtain ⟨items', hitems', hwalk⟩ := listAt_walk h hlist
      obtain ⟨step', hi', hiff⟩ := hstep hwalk hi hinline
      exact hiff.mp (hkept.kept hook place items items' i step step' inline hlist hitems' hi hi' hinline)
    · intro hagrees
      refine ⟨stabilized_ruleKept h, ?_⟩
      intro hook place items items₁ i step step₁ inline hlist hlist₁ hi hi₁ hinline
      obtain ⟨items', hitems', hwalk⟩ := listAt_walk h hlist
      obtain rfl := mem_unique hitems' hlist₁
      obtain ⟨step', hi', hiff⟩ := hstep hwalk hi hinline
      cases mem_unique hi' hi₁
      exact hiff.mpr (hagrees hook place items i step inline hlist hi hinline)

end Rules

/-- A search page with two products, and the page of one of them, where another article stands. -/
def shopEngine : Engine Nat Bool where
  compiles := fun _ => true
  matchAll := fun selector search =>
    match search with
    | true => [1, 2]
    | false => if selector = "main article" then [3] else []
  queryAll := fun _ _ => []

def shopCatalog : Catalog Bool where
  snapshots := [⟨"search", 1, true⟩, ⟨"detail", 2, false⟩]
  candidates := [⟨".product", "search", [1], [2]⟩]
  validationCandidates := []
  trimmed := by decide

def shopChecks : Checks Nat Nat Bool where
  browser := fun _ => true
  volatileTokens := fun _ => false
  selectorUsesNonUniqueID := fun _ _ => false
  validateTargetDisambiguators := fun _ _ => true
  validateFreeFormExtractionCapability := fun _ _ _ => true
  validateTypedFieldCapability := fun _ _ => true
  stableRelativeCandidates := fun _ => []
  trimmed := nofun
  unambiguousSemanticFieldReplacement := fun _ _ => none
  marshal := fun _ => ""

def shopRule (selector : String) : Rule Nat where
  selectors := none
  steps := .arr [.obj [("action", .str "extract"), ("multiple", .bool true),
    ("target", .obj [("selector", .str selector)])]]
  hooks := none

/-- The article of the other page is no longer matched. -/
theorem mainArticle_narrowed :
    (validateAndStabilize ⟨id⟩ shopEngine shopChecks shopCatalog (shopRule "main article")).2 = true ∧
    ¬ Stabilized shopEngine shopChecks shopCatalog (shopRule "main article")
      (validateAndStabilize ⟨id⟩ shopEngine shopChecks shopCatalog (shopRule "main article")).1 := by
  have hrun : validateAndStabilize ⟨id⟩ shopEngine shopChecks shopCatalog
      (shopRule "main article") = (shopRule ".product", true) := rfl
  rw [hrun]
  refine ⟨rfl, fun h => ?_⟩
  have hkept := h.kept none [] _ _ 0 _ _ _ rfl rfl rfl rfl rfl
  exact absurd (hkept.target _ _ _ rfl rfl rfl ⟨"detail", 2, false⟩ (.tail _ (.head _)))
    (by decide)

end Stabilize

end Aegis
