import Aegis.Gate.Candidates

/-!
# Gate.CandidatesSound

What stands in a rule once its candidates are resolved: a selector of the catalog in every
extraction step, and wherever else a target is read the wire object that stood there, lowered.
-/

namespace Aegis

open List Option

namespace Candidates

open Extraction (Value)

/-- A step in what a field of a step holds, and where in it: the step of a list, or the step of a
case of a list of cases. -/
def ChildOf (key : String) (v : Value) (i j : Nat) (c : Fields) : Prop :=
  (nestedActionListKeys.contains key = true ∧ ∃ items, v = .arr items ∧ items[i]? = some (.obj c)) ∨
    (key = "trigger" ∧ v = .obj c) ∨
    (key = "cases" ∧ ∃ cases case items, v = .arr cases ∧ cases[i]? = some (.obj case) ∧
      ("steps", .arr items) ∈ case ∧ items[j]? = some (.obj c))

inductive Under : Fields → List (String × Nat × Nat) → Fields → Prop where
  | self {s : Fields} : Under s [] s
  | child {s c t : Fields} {key : String} {v : Value} {i j : Nat}
      {path : List (String × Nat × Nat)} (hv : (key, v) ∈ s) (hc : ChildOf key v i j c)
      (h : Under c path t) : Under s ((key, i, j) :: path) t

structure Place where
  hook : Option String
  index : Nat
  path : List (String × Nat × Nat)

def StepsOf (rule : Rule) : Option String → List Value → Prop
  | none, items => rule.steps = .arr items
  | some name, items => selectorCandidateHookNames.contains name = true ∧
      ∃ hooks, rule.hooks = some (.obj hooks) ∧ (name, .arr items) ∈ hooks

/-- The step stands at the place, in the main steps or in a hook. -/
def StepAt (rule : Rule) (place : Place) (t : Fields) : Prop :=
  ∃ items s, StepsOf rule place.hook items ∧ items[place.index]? = some (.obj s) ∧ Under s place.path t

theorem ChildOf.isInner {key : String} {v : Value} {i j : Nat} {c : Fields}
    (h : ChildOf key v i j c) : isInner key := by
  rw [Candidates.isInner]
  rcases h with ⟨hkey, -⟩ | ⟨rfl, -⟩ | ⟨rfl, -⟩
  · rw [hkey]
    rfl
  · rfl
  · rfl

/-! ## What a walk leaves -/

section

variable {own inner fields : Fields} {key : String} {v : Value}

theorem lookup_graft (h : isInner key = false) : (graft own inner).lookup key = own.lookup key := by
  induction own with
  | nil => rfl
  | cons f own ih =>
    obtain ⟨k, v⟩ := f
    simp only [graft, map_cons] at ih ⊢
    by_cases hk : key = k
    · subst hk
      rw [h, lookup_cons, lookup_cons]
      simp
    · rw [Assoc.lookup_cons_ne hk, Assoc.lookup_cons_ne hk, ih]

theorem mem_graft (h : (key, v) ∈ graft own inner) : ∃ w, (key, w) ∈ own ∧
    v = if isInner key then (inner.lookup key).getD w else w := by
  obtain ⟨⟨k, w⟩, hw, heq⟩ := List.mem_map.mp h
  cases heq
  exact ⟨w, hw, rfl⟩

end

section

variable {visit : Fields → Except CandidateError Fields} {R : Fields → Fields → Prop}

theorem isSome_walkInner {fields inner : Fields} (h : walkInner visit fields = .ok inner)
    (key : String) : (inner.lookup key).isSome = (fields.lookup key).isSome := by
  induction fields generalizing inner with
  | nil =>
    cases h
    rfl
  | cons f fields ih =>
    obtain ⟨k, v⟩ := f
    simp only [walkInner, bind_eq_ok, pure_eq_ok] at h
    obtain ⟨v', -, rest, hrest, rfl⟩ := h
    by_cases hk : key = k
    · subst hk
      rw [Assoc.lookup_cons_self (f := (key, v')), Assoc.lookup_cons_self (f := (key, v))]
      rfl
    · rw [Assoc.lookup_cons_ne (f := (k, v')) hk, Assoc.lookup_cons_ne (f := (k, v)) hk, ih hrest]

/-- What a visit makes of a step: no step is added, and the step is `R` to what it was whatever
becomes of the steps in it. -/
def Visits (visit : Fields → Except CandidateError Fields) (R : Fields → Fields → Prop) : Prop :=
  ∀ s own, visit s = .ok own →
    (∀ key, isInner key = true → own.lookup key = s.lookup key) ∧ ∀ inner, R s (graft own inner)

/-- Every step in `s'` is `R` to the step at its place in `s`. -/
def Follows (R : Fields → Fields → Prop) (s s' : Fields) : Prop :=
  ∀ path t', Under s' path t' → ∃ t, Under s path t ∧ R t t'

def ListFollows (R : Fields → Fields → Prop) (items items' : List Value) : Prop :=
  ∀ (i : Nat) (c' : Fields), items'[i]? = some (.obj c') →
    ∃ c : Fields, items[i]? = some (.obj c) ∧ Follows R c c'

def CaseFollows (R : Fields → Fields → Prop) (case case' : Fields) : Prop :=
  ∀ items', ("steps", .arr items') ∈ case' →
    ∃ items, ("steps", .arr items) ∈ case ∧ ListFollows R items items'

def FieldFollows (R : Fields → Fields → Prop) (key : String) (v v' : Value) : Prop :=
  ∀ i j c', ChildOf key v' i j c' → ∃ c, ChildOf key v i j c ∧ Follows R c c'

theorem listFollows_cons {v v' : Value} {items items' : List Value}
    (hhead : ∀ c', v' = .obj c' → ∃ c, v = .obj c ∧ Follows R c c')
    (htail : ListFollows R items items') : ListFollows R (v :: items) (v' :: items') := by
  intro i c' hi
  cases i with
  | zero =>
    obtain ⟨c, rfl, hc⟩ := hhead c' (some.inj hi)
    exact ⟨c, rfl, hc⟩
  | succ i => exact htail i c' hi

theorem graft_follows (hvisit : Visits visit R) {s own inner : Fields} (hown : visit s = .ok own)
    (hinner : walkInner visit s = .ok inner)
    (hall : ∀ key v', inner.lookup key = some v' → ∃ v, (key, v) ∈ s ∧ FieldFollows R key v v') :
    Follows R s (graft own inner) := by
  obtain ⟨hkeys, hr⟩ := hvisit s own hown
  intro path t' ht
  cases ht with
  | self => exact ⟨s, .self, hr inner⟩
  | @child _ c' _ key v' i j path hv hc h =>
    obtain ⟨w, hw, hvalue⟩ := mem_graft hv
    rw [hc.isInner, if_pos rfl] at hvalue
    have hsome : (own.lookup key).isSome :=
      Assoc.mem_keys_iff.mp (List.mem_map.mpr ⟨(key, w), hw, rfl⟩)
    rw [hkeys key hc.isInner, ← isSome_walkInner hinner key] at hsome
    obtain ⟨v₁, hv₁⟩ := isSome_iff_exists.mp hsome
    rw [hv₁, getD_some] at hvalue
    obtain rfl := hvalue
    obtain ⟨v, hmem, hfield⟩ := hall key v' hv₁
    obtain ⟨c, hchild, hfollows⟩ := hfield i j c' hc
    obtain ⟨t, hunder, hrt⟩ := hfollows path t' h
    exact ⟨t, .child hmem hchild hunder, hrt⟩

mutual

theorem actions_follow (hvisit : Visits visit R) : ∀ {items items' : List Value},
    walkSelectorCandidateActions visit items = .ok items' → ListFollows R items items'
  | [], items', h => by
    cases h
    intro i c' hi
    cases hi
  | v :: rest, items', h => by
    simp only [walkSelectorCandidateActions, bind_eq_ok, pure_eq_ok] at h
    obtain ⟨v', hv, rest', hrest, rfl⟩ := h
    exact listFollows_cons (action_follows hvisit hv) (actions_follow hvisit hrest)
termination_by structural x => x

theorem action_follows (hvisit : Visits visit R) : ∀ {v v' : Value},
    walkAction visit v = .ok v' → ∀ c', v' = .obj c' → ∃ c, v = .obj c ∧ Follows R c c'
  | .obj step, v', h, c', hc => by
    simp only [walkAction, bind_eq_ok, pure_eq_ok] at h
    obtain ⟨own, hown, inner, hinner, rfl⟩ := h
    cases hc
    exact ⟨step, rfl, graft_follows hvisit hown hinner (inner_follows hvisit hinner)⟩
  | .arr _, v', h, c', hc | .str _, v', h, c', hc | .null, v', h, c', hc
  | .bool _, v', h, c', hc | .num _, v', h, c', hc | .native, v', h, c', hc => by
    cases h
    cases hc
termination_by structural x => x

theorem inner_follows (hvisit : Visits visit R) : ∀ {fields inner : Fields},
    walkInner visit fields = .ok inner → ∀ key v', inner.lookup key = some v' →
      ∃ v, (key, v) ∈ fields ∧ FieldFollows R key v v'
  | [], inner, h, key, v', hv => by
    cases h
    cases hv
  | (k, w) :: rest, inner, h, key, v', hv => by
    simp only [walkInner, bind_eq_ok, pure_eq_ok] at h
    obtain ⟨w', hw, rest', hrest, rfl⟩ := h
    by_cases hk : key = k
    · subst hk
      rw [Assoc.lookup_cons_self (f := (key, w'))] at hv
      cases hv
      exact ⟨w, mem_cons_self, under_follows hvisit hw⟩
    · rw [Assoc.lookup_cons_ne (f := (k, w')) hk] at hv
      obtain ⟨v, hmem, hfield⟩ := inner_follows hvisit hrest key v' hv
      exact ⟨v, mem_cons_of_mem _ hmem, hfield⟩
termination_by structural x => x

theorem under_follows (hvisit : Visits visit R) {key : String} : ∀ {v v' : Value},
    walkUnder visit key v = .ok v' → FieldFollows R key v v'
  | .arr items, v', h => by
    rw [walkUnder] at h
    split at h
    · rename_i hkey
      simp only [bind_eq_ok, pure_eq_ok] at h
      obtain ⟨items', hitems, rfl⟩ := h
      rintro i j c' (⟨-, items'', heq, hi⟩ | ⟨-, heq⟩ | ⟨rfl, -⟩)
      · rw [← Value.arr.inj heq] at hi
        obtain ⟨c, hmem, hc⟩ := actions_follow hvisit hitems i c' hi
        exact ⟨c, .inl ⟨hkey, items, rfl, hmem⟩, hc⟩
      · cases heq
      · cases hkey
    · rename_i hkey
      split at h
      · rename_i hcases
        simp only [bind_eq_ok, pure_eq_ok] at h
        obtain ⟨items', hitems, rfl⟩ := h
        rintro i j c' (⟨hno, -⟩ | ⟨-, heq⟩ | ⟨-, cases', case', own', heq, hi, hsteps, hj⟩)
        · exact absurd hno hkey
        · cases heq
        · rw [← Value.arr.inj heq] at hi
          obtain ⟨case, hcase, hfollows⟩ := cases_follow hvisit hitems i case' hi
          obtain ⟨own, hown, hlist⟩ := hfollows own' hsteps
          obtain ⟨c, hmem, hc⟩ := hlist j c' hj
          exact ⟨c, .inr (.inr ⟨hcases, items, case, own, rfl, hcase, hown, hmem⟩), hc⟩
      · rename_i hcases
        cases h
        rintro i j c' (⟨hno, -⟩ | ⟨-, heq⟩ | ⟨hno, -⟩)
        · exact absurd hno hkey
        · cases heq
        · exact absurd hno hcases
  | .obj step, v', h => by
    rw [walkUnder] at h
    split at h
    · rename_i hkey
      simp only [bind_eq_ok, pure_eq_ok] at h
      obtain ⟨own, hown, inner, hinner, rfl⟩ := h
      rintro i j c' (⟨-, items, heq, -⟩ | ⟨-, heq⟩ | ⟨-, cases', case, items, heq, -⟩)
      · cases heq
      · cases heq
        exact ⟨step, .inr (.inl ⟨hkey, rfl⟩),
          graft_follows hvisit hown hinner (inner_follows hvisit hinner)⟩
      · cases heq
    · rename_i hkey
      cases h
      rintro i j c' (⟨-, items, heq, -⟩ | ⟨hno, -⟩ | ⟨-, cases', case, items, heq, -⟩)
      · cases heq
      · exact absurd hno hkey
      · cases heq
  | .str _, v', h | .null, v', h | .bool _, v', h | .num _, v', h | .native, v', h => by
    cases h
    rintro i j c' (⟨-, items, heq, -⟩ | ⟨-, heq⟩ | ⟨-, cases', case, items, heq, -⟩)
    all_goals cases heq
termination_by structural x => x

theorem cases_follow (hvisit : Visits visit R) : ∀ {cases cases' : List Value},
    walkCases visit cases = .ok cases' → ∀ (i : Nat) (case' : Fields),
      cases'[i]? = some (.obj case') → ∃ case, cases[i]? = some (.obj case) ∧ CaseFollows R case case'
  | [], cases', h, i, case', hi => by
    cases h
    cases hi
  | v :: rest, cases', h, i, case', hi => by
    simp only [walkCases, bind_eq_ok, pure_eq_ok] at h
    obtain ⟨v', hv, rest', hrest, rfl⟩ := h
    cases i with
    | zero =>
      obtain ⟨case, rfl, hcase⟩ := case_follows hvisit hv case' (some.inj hi)
      exact ⟨case, rfl, hcase⟩
    | succ i => exact cases_follow hvisit hrest i case' hi
termination_by structural x => x

theorem case_follows (hvisit : Visits visit R) : ∀ {v v' : Value},
    walkCase visit v = .ok v' → ∀ case', v' = .obj case' → ∃ case, v = .obj case ∧ CaseFollows R case case'
  | .obj fields, v', h, case', hcase => by
    simp only [walkCase, bind_eq_ok, pure_eq_ok] at h
    obtain ⟨fields', hfields, rfl⟩ := h
    cases hcase
    exact ⟨fields, rfl, caseSteps_follow hvisit hfields⟩
  | .arr _, v', h, case', hcase | .str _, v', h, case', hcase | .null, v', h, case', hcase
  | .bool _, v', h, case', hcase | .num _, v', h, case', hcase | .native, v', h, case', hcase => by
    cases h
    cases hcase
termination_by structural x => x

theorem caseSteps_follow (hvisit : Visits visit R) : ∀ {fields fields' : Fields},
    walkCaseSteps visit fields = .ok fields' → CaseFollows R fields fields'
  | [], fields', h => by
    cases h
    intro items hitems
    cases hitems
  | (key, v) :: rest, fields', h => by
    simp only [walkCaseSteps, bind_eq_ok, pure_eq_ok] at h
    obtain ⟨v', hv, rest', hrest, rfl⟩ := h
    intro items' hitems
    rcases mem_cons.mp hitems with heq | hitems
    · cases heq
      obtain ⟨items, rfl, hlist⟩ := caseList_follows hvisit hv items' rfl
      exact ⟨items, mem_cons_self, hlist⟩
    · obtain ⟨items, hmem, hlist⟩ := caseSteps_follow hvisit hrest items' hitems
      exact ⟨items, mem_cons_of_mem _ hmem, hlist⟩
termination_by structural x => x

theorem caseList_follows (hvisit : Visits visit R) : ∀ {v v' : Value},
    walkCaseList visit "steps" v = .ok v' → ∀ items', v' = .arr items' →
      ∃ items, v = .arr items ∧ ListFollows R items items'
  | .arr items, v', h, items', heq => by
    simp only [walkCaseList, bind_eq_ok, pure_eq_ok, if_true] at h
    obtain ⟨items'', hitems, rfl⟩ := h
    cases heq
    exact ⟨items, rfl, actions_follow hvisit hitems⟩
  | .obj _, v', h, items, heq | .str _, v', h, items, heq | .null, v', h, items, heq
  | .bool _, v', h, items, heq | .num _, v', h, items, heq | .native, v', h, items, heq => by
    cases h
    cases heq
termination_by structural x => x

end

theorem hooks_follow (hvisit : Visits visit R) {hooks hooks' : Fields}
    (h : walkHooks visit hooks = .ok hooks') {name : String} {items' : List Value}
    (hmem : (name, .arr items') ∈ hooks') (hname : selectorCandidateHookNames.contains name) :
    ∃ items, (name, .arr items) ∈ hooks ∧ ListFollows R items items' := by
  induction hooks generalizing hooks' with
  | nil =>
    cases h
    cases hmem
  | cons f hooks ih =>
    obtain ⟨k, v⟩ := f
    simp only [walkHooks, bind_eq_ok, pure_eq_ok] at h
    obtain ⟨v', hv, rest, hrest, rfl⟩ := h
    rcases mem_cons.mp hmem with heq | hmem
    · cases heq
      cases v with
      | arr items =>
        rw [walkHook, if_pos hname] at hv
        simp only [bind_eq_ok, pure_eq_ok] at hv
        obtain ⟨items', hitems, heq⟩ := hv
        cases heq
        exact ⟨items, mem_cons_self, actions_follow hvisit hitems⟩
      | obj _ | str _ | null | bool _ | num _ | native => cases hv
    · obtain ⟨items, hitems, hlist⟩ := ih hrest hmem
      exact ⟨items, mem_cons_of_mem _ hitems, hlist⟩

theorem walkSteps_ok {v : Value} {items : List Value} (h : walkSteps visit v = .ok (.arr items)) :
    ∃ items₀, v = .arr items₀ ∧ walkSelectorCandidateActions visit items₀ = .ok items := by
  cases v with
  | arr items₀ =>
    simp only [walkSteps, bind_eq_ok, pure_eq_ok] at h
    obtain ⟨items', hitems, heq⟩ := h
    cases heq
    exact ⟨items₀, rfl, hitems⟩
  | obj _ | str _ | null | bool _ | num _ | native => cases h

theorem walkRuleHooks_ok {v : Option Value} {hooks : Fields}
    (h : walkRuleHooks visit v = .ok (some (.obj hooks))) :
    ∃ hooks₀, v = some (.obj hooks₀) ∧ walkHooks visit hooks₀ = .ok hooks := by
  cases v with
  | none => cases h
  | some v =>
    cases v with
    | obj hooks₀ =>
      simp only [walkRuleHooks, bind_eq_ok, pure_eq_ok] at h
      obtain ⟨hooks', hhooks, heq⟩ := h
      cases heq
      exact ⟨hooks₀, rfl, hhooks⟩
    | arr _ | str _ | null | bool _ | num _ | native => cases h

theorem stepsOf_follow (hvisit : Visits visit R) {rule rule' : Rule}
    (h : walkRule visit rule = .ok rule') {hook : Option String} {items' : List Value}
    (hitems : StepsOf rule' hook items') :
    ∃ items, StepsOf rule hook items ∧ ListFollows R items items' := by
  simp only [walkRule, bind_eq_ok, pure_eq_ok] at h
  obtain ⟨steps, hsteps, hooks, hhooks, rfl⟩ := h
  cases hook with
  | none =>
    obtain rfl : steps = .arr items' := hitems
    obtain ⟨items, hrule, hwalk⟩ := walkSteps_ok hsteps
    exact ⟨items, hrule, actions_follow hvisit hwalk⟩
  | some name =>
    obtain ⟨hname, hooks', heq, hmem⟩ := hitems
    obtain rfl : hooks = some (.obj hooks') := heq
    obtain ⟨hooks₀, hrule, hwalk⟩ := walkRuleHooks_ok hhooks
    obtain ⟨items, hitems, hlist⟩ := hooks_follow hvisit hwalk hmem hname
    exact ⟨items, ⟨hname, hooks₀, hrule, hitems⟩, hlist⟩

theorem walkRule_follows (hvisit : Visits visit R) {rule rule' : Rule}
    (h : walkRule visit rule = .ok rule') {place : Place} {t' : Fields}
    (ht : StepAt rule' place t') : ∃ t, StepAt rule place t ∧ R t t' := by
  obtain ⟨items', s', hitems', hs', hunder'⟩ := ht
  obtain ⟨items, hitems, hlist⟩ := stepsOf_follow hvisit h hitems'
  obtain ⟨s, hs, hfollows⟩ := hlist place.index s' hs'
  obtain ⟨t, hunder, hr⟩ := hfollows place.path t' hunder'
  exact ⟨t, ⟨items, s, hitems, hs, hunder⟩, hr⟩

end

/-! ## Ordinary targets -/

def providerKeys : List String :=
  ["rowCandidateId", "targetCandidateId", "fieldCandidateId", "family", "value", "name"]

/-- No key of the provider's wire form is left. -/
def Clean (target : Fields) : Prop := ∀ key ∈ providerKeys, target.lookup key = none

/-- The target is the lowered form of the wire object that stood there. -/
def Lowered (aliases owner : Fields) (v : Value) : Prop :=
  ∃ wire canonical, owner.lookup "target" = some (.obj wire) ∧
    lowerProviderTargetWire aliases wire = .ok canonical ∧ v = .obj canonical ∧ Clean canonical

/-- The targets that are read from a step and from its condition are lowered. -/
structure Ordinary (aliases s t : Fields) : Prop where
  action : actionOf t = actionOf s
  target : isExtraction (actionOf t) = false → ∀ v, t.lookup "target" = some v → Lowered aliases s v
  condition : ∀ condition, t.lookup "condition" = some (.obj condition) →
    ∀ v, condition.lookup "target" = some v →
      ∃ own, s.lookup "condition" = some (.obj own) ∧ Lowered aliases own v

section

variable {aliases wire canonical : Fields}

def canonicalKeys : List (List String) :=
  [["role", "roleName"], ["$ref"], ["selector"], ["selector", "visible"], ["text"],
    ["text", "visible"], ["ariaLabel"]]

theorem lowerSlots_keys {family value name : String}
    (h : lowerSlots aliases family value name = .ok canonical) :
    canonical.map Prod.fst ∈ canonicalKeys := by
  rw [lowerSlots] at h
  split at h
  · cases h
  split at h
  · split at h
    · cases h
      simp [canonicalKeys]
    · cases h
  split at h
  · cases h
  split at h
  · cases h
  split at h
  · split at h
    · cases h
      simp [canonicalKeys]
    · cases h
  split at h
  · cases h
    simp [canonicalKeys]
  split at h
  · cases h
    simp [canonicalKeys]
  split at h
  · cases h
    simp [canonicalKeys]
  split at h
  · cases h
    simp [canonicalKeys]
  split at h
  all_goals
    cases h
    simp [canonicalKeys]

theorem canonicalKeys_clean : ∀ keys ∈ canonicalKeys, ∀ key ∈ providerKeys, key ∉ keys := by
  decide

theorem lowerProviderTargetWire_clean (h : lowerProviderTargetWire aliases wire = .ok canonical) :
    Clean canonical := by
  have hkeys : canonical.map Prod.fst ∈ canonicalKeys := by
    rw [lowerProviderTargetWire] at h
    split at h
    · cases h
    · split at h
      · exact lowerSlots_keys h
      · cases h
  intro key hkey
  have hno := canonicalKeys_clean _ hkeys key hkey
  rwa [Assoc.mem_keys_iff, Bool.not_eq_true, isSome_eq_false_iff, isNone_iff_eq_none]
    at hno

variable {owner own : Fields}

theorem lowerProviderActionTarget_ok (h : lowerProviderActionTarget aliases true owner = .ok own) :
    (owner.lookup "target" = none ∧ own = owner) ∨
      ∃ wire canonical, owner.lookup "target" = some (.obj wire) ∧
        lowerProviderTargetWire aliases wire = .ok canonical ∧
        own = Assoc.set "target" (.obj canonical) owner := by
  rw [lowerProviderActionTarget] at h
  split at h
  · rename_i hnone
    exact .inl ⟨hnone, (Except.ok.inj h).symm⟩
  · rename_i wire hwire
    split at h
    · cases h
    · obtain ⟨canonical, hlower, heq⟩ := bind_eq_ok.mp h
      exact .inr ⟨wire, canonical, hwire, hlower, (pure_eq_ok.mp heq).symm⟩
  · cases h

variable {key : String}

theorem lowerProviderActionTarget_lookup
    (h : lowerProviderActionTarget aliases true owner = .ok own) (hkey : key ≠ "target") :
    own.lookup key = owner.lookup key := by
  rcases lowerProviderActionTarget_ok h with ⟨-, rfl⟩ | ⟨wire, canonical, -, -, rfl⟩
  · rfl
  · rw [Assoc.lookup_set, if_neg hkey]

theorem lowerProviderActionTarget_target {v : Value}
    (h : lowerProviderActionTarget aliases true owner = .ok own)
    (hv : own.lookup "target" = some v) : ∃ wire canonical,
      owner.lookup "target" = some (.obj wire) ∧
        lowerProviderTargetWire aliases wire = .ok canonical ∧ v = .obj canonical := by
  rcases lowerProviderActionTarget_ok h with ⟨hnone, rfl⟩ | ⟨wire, canonical, hwire, hlower, rfl⟩
  · rw [hnone] at hv
    cases hv
  · rw [Assoc.lookup_set, if_pos rfl] at hv
    exact ⟨wire, canonical, hwire, hlower, (some.inj hv).symm⟩

theorem lowerTarget_lookup {s own : Fields}
    (h : lowerTarget aliases true s = .ok own) (hkey : key ≠ "target") :
    own.lookup key = s.lookup key := by
  rw [lowerTarget] at h
  split at h
  · rw [Except.ok.inj h]
  · exact lowerProviderActionTarget_lookup h hkey

theorem lowerCondition_ok {s own : Fields} (h : lowerCondition aliases true s = .ok own) :
    (∃ condition condition', s.lookup "condition" = some (.obj condition) ∧
        lowerProviderActionTarget aliases true condition = .ok condition' ∧
        own = Assoc.set "condition" (.obj condition') s) ∨
      ((∀ condition, s.lookup "condition" ≠ some (.obj condition)) ∧ own = s) := by
  rw [lowerCondition] at h
  split at h
  · rename_i condition hcondition
    obtain ⟨condition', hlower, heq⟩ := bind_eq_ok.mp h
    exact .inl ⟨condition, condition', hcondition, hlower, (pure_eq_ok.mp heq).symm⟩
  · rename_i hno
    exact .inr ⟨hno, (Except.ok.inj h).symm⟩

theorem lowerCondition_lookup {s own : Fields}
    (h : lowerCondition aliases true s = .ok own) (hkey : key ≠ "condition") :
    own.lookup key = s.lookup key := by
  rcases lowerCondition_ok h with ⟨condition, condition', -, -, rfl⟩ | ⟨-, rfl⟩
  · rw [Assoc.lookup_set, if_neg hkey]
  · rfl

theorem actionOf_congr {s s' : Fields} (h : s'.lookup "action" = s.lookup "action") :
    actionOf s' = actionOf s := by
  rw [actionOf, actionOf, stringValue, stringValue, h]

theorem isInner_ne (h : isInner key) :
    ∀ k ∈ ["action", "target", "condition", "multiple", "fields"], key ≠ k := by
  rintro k hk rfl
  revert h
  simp only [mem_cons, not_mem_nil, or_false] at hk
  rcases hk with rfl | rfl | rfl | rfl | rfl <;> decide

end

section

variable {aliases s t own inner : Fields}

theorem Ordinary.graft (h : Ordinary aliases s own) : Ordinary aliases s (graft own inner) := by
  have hkey : ∀ key, isInner key = false →
      (Candidates.graft own inner).lookup key = own.lookup key := fun key hkey => lookup_graft hkey
  have haction : actionOf (Candidates.graft own inner) = actionOf own :=
    actionOf_congr (hkey "action" (by decide))
  refine ⟨haction.trans h.action, fun hno v hv => h.target ?_ v ?_,
    fun condition hcondition => h.condition condition ?_⟩
  · rwa [haction] at hno
  · rwa [hkey "target" (by decide)] at hv
  · rwa [hkey "condition" (by decide)] at hcondition

theorem lowered_of_lowerProviderActionTarget {owner : Fields} {v : Value}
    (h : lowerProviderActionTarget aliases true owner = .ok own)
    (hv : own.lookup "target" = some v) : Lowered aliases owner v := by
  obtain ⟨wire, canonical, hwire, hlower, rfl⟩ := lowerProviderActionTarget_target h hv
  exact ⟨wire, canonical, hwire, hlower, rfl, lowerProviderTargetWire_clean hlower⟩

theorem lowerStep_ordinary (h : lowerStep aliases true s = .ok own) : Ordinary aliases s own := by
  rw [lowerStep] at h
  obtain ⟨mid, hmid, h⟩ := bind_eq_ok.mp h
  have haction : actionOf own = actionOf s :=
    (actionOf_congr (lowerCondition_lookup h (by decide))).trans
      (actionOf_congr (lowerTarget_lookup hmid (by decide)))
  refine ⟨haction, fun hno v hv => ?_, fun condition hcondition v hv => ?_⟩
  · rw [lowerCondition_lookup h (by decide)] at hv
    rw [haction] at hno
    rw [lowerTarget, if_neg (by rw [hno]; exact Bool.false_ne_true)] at hmid
    exact lowered_of_lowerProviderActionTarget hmid hv
  · rcases lowerCondition_ok h with ⟨condition₀, condition', hmem, hlower, rfl⟩ | ⟨hno, rfl⟩
    · rw [Assoc.lookup_set, if_pos rfl] at hcondition
      cases hcondition
      rw [lowerTarget_lookup hmid (by decide)] at hmem
      exact ⟨condition₀, hmem, lowered_of_lowerProviderActionTarget hlower hv⟩
    · exact absurd hcondition (hno condition)

theorem visits_lowerStep : Visits (lowerStep aliases true) (Ordinary aliases) := by
  intro s own h
  refine ⟨fun key hkey => ?_, fun inner => (lowerStep_ordinary h).graft⟩
  rw [lowerStep] at h
  obtain ⟨mid, hmid, h⟩ := bind_eq_ok.mp h
  rw [lowerCondition_lookup h (isInner_ne hkey _ (by decide)),
    lowerTarget_lookup hmid (isInner_ne hkey _ (by decide))]

end

section

variable {ν : Type}

/-- A field that reads with the selector of its evidence, which is of the target and of the field
around it, and so do the fields in it. -/
inductive FieldOf (c : Catalog ν) (targetID : String) : String → Value → Prop where
  | mk {parentID id : String} {field : Fields} {evidence : FieldEvidence ν}
      (known : c.fields.lookup id = some evidence) (target : evidence.targetID = targetID)
      (parent : evidence.parentFieldCandidateID = parentID)
      (selector : field.lookup "selector" =
        if evidence.selector = "" then none else some (.str evidence.selector))
      (clean : field.lookup "fieldCandidateId" = none)
      (nested : ∀ fields, field.lookup "fields" = some (.obj fields) →
        ∀ name v, (name, v) ∈ fields → FieldOf c targetID id v) :
      FieldOf c targetID parentID (.obj field)

variable {toLower : String → String} {caps : Capabilities ν} {c : Catalog ν} {targetID : String}

theorem checkField_ok {parentID : String} {field : Fields} {found : String × FieldEvidence ν}
    (h : checkField toLower caps c targetID parentID field = .ok found) :
    c.fields.lookup found.1 = some found.2 ∧ found.2.targetID = targetID ∧
      found.2.parentFieldCandidateID = parentID := by
  rw [checkField] at h
  obtain ⟨-, -, h⟩ := bind_eq_ok.mp h
  dsimp only at h
  split at h
  · cases h
  split at h
  · cases h
  rename_i evidence hevidence
  split at h
  · cases h
  rename_i htarget
  split at h
  · cases h
  rename_i hparent
  obtain ⟨-, -, h⟩ := bind_eq_ok.mp h
  split at h
  · obtain rfl := pure_eq_ok.mp h
    exact ⟨hevidence, not_ne_iff.mp htarget, not_ne_iff.mp hparent⟩
  · cases h

section

variable {evidence : FieldEvidence ν} {field : Fields}

theorem bindField_selector : (bindField evidence field).lookup "selector" =
    if evidence.selector = "" then none else some (.str evidence.selector) := by
  rw [bindField, Assoc.lookup_set, if_neg (by decide)]
  split
  · rw [Assoc.lookup_erase, if_pos rfl]
  · rw [Assoc.lookup_set, if_pos rfl]

theorem bindField_lookup {key : String} (hselector : key ≠ "selector") (hvisible : key ≠ "visible") :
    (bindField evidence field).lookup key =
      if key = "fieldCandidateId" then none else field.lookup key := by
  rw [bindField, Assoc.lookup_set, if_neg hvisible]
  split
  · rw [Assoc.lookup_erase, if_neg hselector, Assoc.lookup_erase]
  · rw [Assoc.lookup_set, if_neg hselector, Assoc.lookup_erase]

theorem lookup_hints {key : String} (h : key ∉ ["selector", "stableSelector", "observedSelector",
    "observedRelativeSelector"]) :
    (deleteProviderFieldLocatorHints field).lookup key = field.lookup key := by
  simp only [mem_cons, not_mem_nil, or_false, not_or] at h
  obtain ⟨h₁, h₂, h₃, h₄⟩ := h
  simp only [deleteProviderFieldLocatorHints, foldl_cons, foldl_nil]
  rw [Assoc.lookup_erase, if_neg h₄, Assoc.lookup_erase, if_neg h₃, Assoc.lookup_erase, if_neg h₂,
    Assoc.lookup_erase, if_neg h₁]

end

mutual

theorem resolveProviderFields_fieldOf {parentID : String} : ∀ {fields fields' : Fields},
    resolveProviderFields toLower caps c targetID parentID fields = .ok fields' →
      ∀ name v, (name, v) ∈ fields' → FieldOf c targetID parentID v
  | [], fields', h, name, v, hv => by
    cases h
    cases hv
  | (k, w) :: rest, fields', h, name, v, hv => by
    simp only [resolveProviderFields, bind_eq_ok, pure_eq_ok] at h
    obtain ⟨w', hw, rest', hrest, rfl⟩ := h
    rcases mem_cons.mp hv with heq | hv
    · cases heq
      exact resolveProviderField_fieldOf hw
    · exact resolveProviderFields_fieldOf hrest name v hv
termination_by structural x => x

theorem resolveProviderField_fieldOf {parentID : String} : ∀ {v v' : Value},
    resolveProviderField toLower caps c targetID parentID v = .ok v' → FieldOf c targetID parentID v'
  | .obj field, v', h => by
    simp only [resolveProviderField, bind_eq_ok, pure_eq_ok] at h
    obtain ⟨⟨id, evidence⟩, hcheck, field', hnested, rfl⟩ := h
    obtain ⟨hknown, htarget, hparent⟩ := checkField_ok hcheck
    refine .mk hknown htarget hparent bindField_selector
      ((bindField_lookup (by decide) (by decide)).trans (if_pos rfl)) fun fields hfields => ?_
    rw [bindField_lookup (by decide) (by decide), if_neg (by decide),
      lookup_hints (by decide)] at hfields
    exact resolveNested_fieldOf hnested fields hfields
  | .arr _, v', h | .str _, v', h | .null, v', h | .bool _, v', h | .num _, v', h
  | .native, v', h => by
    cases h
termination_by structural x => x

theorem resolveNested_fieldOf {id : String} : ∀ {field field' : Fields},
    resolveNested toLower caps c targetID id field = .ok field' →
      ∀ fields, field'.lookup "fields" = some (.obj fields) →
        ∀ name v, (name, v) ∈ fields → FieldOf c targetID id v
  | [], field', h, fields, hfields => by
    cases h
    cases hfields
  | (key, v) :: rest, field', h, fields, hfields => by
    simp only [resolveNested, bind_eq_ok, pure_eq_ok] at h
    obtain ⟨v', hv, rest', hrest, rfl⟩ := h
    by_cases hkey : "fields" = key
    · subst hkey
      rw [Assoc.lookup_cons_self (f := ("fields", v'))] at hfields
      exact resolveBelow_fieldOf hv fields (some.inj hfields)
    · rw [Assoc.lookup_cons_ne (f := (key, v')) hkey] at hfields
      exact resolveNested_fieldOf hrest fields hfields
termination_by structural x => x

theorem resolveBelow_fieldOf {id : String} : ∀ {v v' : Value},
    resolveBelow toLower caps c targetID id "fields" v = .ok v' →
      ∀ fields, v' = .obj fields → ∀ name v, (name, v) ∈ fields → FieldOf c targetID id v
  | .obj nested, v', h, fields, heq => by
    simp only [resolveBelow, bind_eq_ok, pure_eq_ok, if_true] at h
    obtain ⟨nested', hnested, rfl⟩ := h
    cases heq
    exact resolveProviderFields_fieldOf hnested
  | .arr _, v', h, fields, heq | .str _, v', h, fields, heq | .null, v', h, fields, heq
  | .bool _, v', h, fields, heq | .num _, v', h, fields, heq | .native, v', h, fields, heq => by
    cases h
    cases heq
termination_by structural x => x

end

end

/-! ## Extraction steps -/

section

variable {ν : Type}

/-- The step reads from the target of the catalog that it names. -/
structure ReadsFrom (c : Catalog ν) (s target : Fields) (id : String)
    (evidence : TargetEvidence ν) : Prop where
  known : c.targets.lookup id = some evidence
  selector : target.lookup "selector" = some (.str evidence.selector)
  keys : ∀ f ∈ target, f.1 ∈ ["selector", "timeout", "visible"]
  multiple : s.lookup "multiple" = some (.bool true) ↔ evidence.rowCandidateID ≠ ""
  fields : actionOf s = "extract" → ∃ fields, s.lookup "fields" = some (.obj fields) ∧
    ∀ name v, (name, v) ∈ fields → FieldOf c id "" v

/-- An extraction step reads from a target of the catalog, or has no target at all. -/
def Extracts (c : Catalog ν) (s : Fields) : Prop :=
  isExtraction (actionOf s) = true → if actionOf s = "extractPageInfo" then s.lookup "target" = none
    else ∃ target id evidence, s.lookup "target" = some (.obj target) ∧ ReadsFrom c s target id evidence

def Kept (s s' : Fields) : Prop :=
  ∀ key ∉ ["multiple", "fields", "target"], s'.lookup key = s.lookup key

theorem Kept.refl {s : Fields} : Kept s s := fun _ _ => rfl

theorem Kept.trans {s s' s'' : Fields} (h : Kept s s') (h' : Kept s' s'') : Kept s s'' :=
  fun key hkey => (h' key hkey).trans (h key hkey)

theorem Kept.set {s : Fields} {key : String} {v : Value}
    (h : key ∈ ["multiple", "fields", "target"]) : Kept s (Assoc.set key v s) := by
  intro k hk
  rw [Assoc.lookup_set, if_neg fun heq : k = key => hk (heq ▸ h)]

theorem Kept.action {s s' : Fields} (h : Kept s s') : actionOf s' = actionOf s :=
  actionOf_congr (h "action" (by decide))

theorem Kept.inner {s s' : Fields} (h : Kept s s') {key : String} (hkey : isInner key) :
    s'.lookup key = s.lookup key := by
  refine h key fun hmem => ?_
  simp only [mem_cons, not_mem_nil, or_false] at hmem
  rcases hmem with heq | heq | heq
  all_goals exact isInner_ne hkey _ (by decide) heq

def Choice.Marked (choice : Choice) : Prop :=
  choice.step.lookup "multiple" = some (.bool true) ↔ choice.multiple = true

variable {c : Catalog ν} {step target : Fields} {choice choice' : Choice}
  {evidence : TargetEvidence ν} {multiple : Bool}

theorem marked_set {s : Fields} {id : String} :
    (⟨Assoc.set "multiple" (.bool true) s, target, true, id⟩ : Choice).Marked := by
  rw [Choice.Marked, Assoc.lookup_set, if_pos rfl]
  exact ⟨fun _ => rfl, fun _ => rfl⟩

theorem extractionActionUsesRepeatedTarget_ok {action : String}
    (h : extractionActionUsesRepeatedTarget step action = .ok multiple) :
    step.lookup "multiple" = some (.bool true) ↔ multiple = true := by
  rw [extractionActionUsesRepeatedTarget] at h
  split at h
  · cases h
  rename_i hguard
  cases h
  by_cases haction : action = "extract"
  · rw [decide_eq_true haction, Bool.true_and]
    split
    · rename_i b hb
      rw [hb]
      exact ⟨fun h => Value.bool.inj (some.inj h), fun h => h ▸ rfl⟩
    · rename_i hno
      exact ⟨fun h => absurd h (hno true), fun h => Bool.noConfusion h⟩
  · rw [decide_eq_false haction, Bool.false_and]
    refine ⟨fun h => ?_, fun h => Bool.noConfusion h⟩
    rw [h] at hguard
    exact absurd (by simp [haction]) hguard

theorem chooseSlot_ok (h : chooseSlot step target multiple = .ok choice) :
    choice.step = step ∧ choice.multiple = multiple := by
  rw [chooseSlot] at h
  repeat' split at h
  all_goals first
    | (cases h; done)
    | obtain rfl := Except.ok.inj h
      exact ⟨rfl, rfl⟩

theorem bindRowField_ok {field : FieldEvidence ν} {s s' : Fields}
    (h : bindRowField field s = .ok s') : ∃ v, s' = Assoc.set "fields" v s := by
  rw [bindRowField] at h
  split at h
  · exact ⟨_, (Except.ok.inj h).symm⟩
  split at h
  · cases h
  · exact ⟨_, (Except.ok.inj h).symm⟩

theorem chooseEvidence_ok (h : chooseEvidence c choice = .ok (choice', evidence))
    (hmarked : choice.Marked) :
    Kept choice.step choice'.step ∧ choice'.Marked ∧ c.targets.lookup choice'.id = some evidence := by
  rw [chooseEvidence] at h
  split at h
  · rename_i evidence' hevidence
    cases h
    exact ⟨.refl, hmarked, hevidence⟩
  split at h
  · cases h
  rename_i field hfield
  split at h
  · cases h
  split at h
  · cases h
  rename_i parent hparent
  split at h
  · split at h
    · cases h
      exact ⟨.refl, hmarked, hparent⟩
    · cases h
  split at h
  · cases h
    exact ⟨.refl, hmarked, hparent⟩
  split at h
  · obtain ⟨s, hbind, heq⟩ := bind_eq_ok.mp h
    cases pure_eq_ok.mp heq
    obtain ⟨v, rfl⟩ := bindRowField_ok hbind
    refine ⟨(Kept.set (by decide)).trans (Kept.set (by decide)), ?_, hparent⟩
    rw [Choice.Marked, Assoc.lookup_set, if_neg (by decide), Assoc.lookup_set, if_pos rfl]
    exact ⟨fun _ => rfl, fun _ => rfl⟩
  · cases h

variable (evidence) in
theorem flipCardinality_ok (hmarked : choice.Marked) :
    Kept choice.step (flipCardinality evidence choice).step ∧ (flipCardinality evidence choice).Marked ∧
      (flipCardinality evidence choice).id = choice.id := by
  rw [flipCardinality]
  split
  · exact ⟨Kept.set (by decide), marked_set, rfl⟩
  · exact ⟨.refl, hmarked, rfl⟩

theorem checkKind_ok (hknown : c.targets.lookup choice.id = some evidence)
    (h : checkKind evidence choice = .ok ()) :
    choice.multiple ↔ evidence.rowCandidateID ≠ "" := by
  obtain ⟨hid, hkind⟩ := c.prepared choice.id evidence hknown
  rw [checkKind] at h
  split at h
  · cases h
  rename_i hrow
  split at h
  · cases h
  rename_i hsingle
  cases hmultiple : choice.multiple with
  | true =>
    rw [hmultiple] at hrow
    have hrow : evidence.rowCandidateID = choice.id := by simpa using hrow
    exact ⟨fun _ => hrow ▸ hid, fun _ => rfl⟩
  | false =>
    rw [hmultiple] at hsingle
    have hsingle : evidence.targetCandidateID = choice.id := by simpa using hsingle
    rcases hkind with ⟨-, htarget⟩ | ⟨hrow, -⟩
    · exact absurd (hsingle.symm.trans htarget) hid
    · exact ⟨fun h => Bool.noConfusion h, fun h => absurd hrow h⟩

theorem bindTarget_ok {written : Fields} (h : bindTarget evidence target = .ok written) :
    written.lookup "selector" = some (.str evidence.selector) ∧
      ∀ f ∈ written, f.1 ∈ ["selector", "timeout", "visible"] := by
  rw [bindTarget] at h
  split at h
  · cases h
  rename_i hall
  cases h
  refine ⟨by rw [Assoc.lookup_set, if_pos rfl], fun f hf => ?_⟩
  rw [Bool.not_eq_true, Bool.not_eq_false', List.all_eq_true] at hall
  rcases Assoc.Sorted.mem_set hf with rfl | hf
  · exact mem_cons_self
  · obtain ⟨hf, hsingle⟩ := mem_filter.mp hf
    obtain ⟨hf, hrow⟩ := mem_filter.mp hf
    have hkey := hall f hf
    simp only [contains_eq_mem, mem_cons, not_mem_nil, or_false, decide_eq_true_eq] at hkey hsingle hrow ⊢
    rcases hkey with hkey | hkey | hkey | hkey
    · exact absurd hkey hrow
    · exact absurd hkey hsingle
    · exact .inr (.inl hkey)
    · exact .inr (.inr hkey)

variable {toLower : String → String} {caps : Capabilities ν} {action : String} {own : Fields}

theorem bindStep_ok (haction : actionOf choice.step = action) (hmarked : choice.Marked)
    (hknown : c.targets.lookup choice.id = some evidence)
    (hkind : checkKind evidence choice = .ok ())
    (h : bindStep toLower caps c action choice evidence = .ok own) :
    Kept choice.step own ∧ ∃ target, own.lookup "target" = some (.obj target) ∧
      ReadsFrom c own target choice.id evidence := by
  rw [bindStep] at h
  obtain ⟨target, htarget, h⟩ := bind_eq_ok.mp h
  obtain ⟨hselector, hkeys⟩ := bindTarget_ok htarget
  have hmultiple := hmarked.trans (checkKind_ok hknown hkind)
  split at h
  · cases h
  split at h
  · obtain ⟨fields, hfields, h⟩ := bind_eq_ok.mp h
    obtain ⟨fields', hresolve, heq⟩ := bind_eq_ok.mp h
    obtain rfl := pure_eq_ok.mp heq
    refine ⟨(Kept.set (by decide)).trans (Kept.set (by decide)), target, ?_, hknown, hselector,
      hkeys, ?_, fun _ => ⟨fields', ?_, resolveProviderFields_fieldOf hresolve⟩⟩
    · rw [Assoc.lookup_set, if_neg (by decide), Assoc.lookup_set, if_pos rfl]
    · rwa [Assoc.lookup_set, if_neg (by decide), Assoc.lookup_set, if_neg (by decide)]
    · rw [Assoc.lookup_set, if_pos rfl]
  · rename_i hno
    obtain rfl := pure_eq_ok.mp h
    have hkept : Kept choice.step (Assoc.set "target" (.obj target) choice.step) :=
      Kept.set (by decide)
    refine ⟨hkept, target, ?_, hknown, hselector, hkeys, ?_, fun hextract => ?_⟩
    · rw [Assoc.lookup_set, if_pos rfl]
    · rwa [Assoc.lookup_set, if_neg (by decide)]
    · rw [hkept.action, haction] at hextract
      exact absurd hextract hno

theorem resolveTarget_ok (hmultiple : step.lookup "multiple" = some (.bool true) ↔ multiple = true)
    (h : resolveTarget toLower caps c (actionOf step) step multiple = .ok own) :
    Kept step own ∧ ∃ target id evidence, own.lookup "target" = some (.obj target) ∧
      ReadsFrom c own target id evidence := by
  rw [resolveTarget] at h
  obtain ⟨target, -, htarget⟩ := bind_eq_ok.mp h
  obtain ⟨choice, hslot, hslots⟩ := bind_eq_ok.mp htarget
  obtain ⟨⟨choice', evidence⟩, hchoose, hchosen⟩ := bind_eq_ok.mp hslots
  obtain ⟨⟨⟩, hkind, hbind⟩ := bind_eq_ok.mp hchosen
  obtain ⟨rfl, rfl⟩ := chooseSlot_ok hslot
  obtain ⟨hkept, hmarked, hknown⟩ := chooseEvidence_ok hchoose hmultiple
  obtain ⟨hkept', hmarked', hid⟩ := flipCardinality_ok evidence hmarked
  have hall := hkept.trans hkept'
  obtain ⟨hbound, target', htarget, hreads⟩ :=
    bindStep_ok hall.action hmarked' (hid ▸ hknown) hkind hbind
  exact ⟨hall.trans hbound, target', _, evidence, htarget, hreads⟩

theorem resolveStep_ok (h : resolveStep toLower caps c step = .ok own) :
    Kept step own ∧ Extracts c own ∧ (isExtraction (actionOf step) = false → own = step) := by
  rw [resolveStep] at h
  split at h
  · rename_i hno
    rw [Bool.not_eq_true'] at hno
    split at h
    · cases h
    cases h
    exact ⟨.refl, fun haction => (Bool.false_ne_true (hno.symm.trans haction)).elim, fun _ => rfl⟩
  rename_i haction
  rw [Bool.not_eq_true', Bool.not_eq_false] at haction
  obtain ⟨-, -, h⟩ := bind_eq_ok.mp h
  obtain ⟨multiple, hmultiple, h⟩ := bind_eq_ok.mp h
  have hother : isExtraction (actionOf step) = false → own = step := fun hno =>
    (Bool.false_ne_true (hno.symm.trans haction)).elim
  split at h
  · rename_i hpage
    split at h
    · cases h
    rename_i hnone
    cases h
    refine ⟨.refl, fun _ => ?_, hother⟩
    rw [if_pos hpage]
    rwa [Bool.not_eq_true, isSome_eq_false_iff, isNone_iff_eq_none] at hnone
  · rename_i hpage
    obtain ⟨hkept, htarget⟩ :=
      resolveTarget_ok (extractionActionUsesRepeatedTarget_ok hmultiple) h
    refine ⟨hkept, fun _ => ?_, hother⟩
    rwa [if_neg (hkept.action ▸ hpage)]

theorem Extracts.graft {inner : Fields} (h : Extracts c own) : Extracts c (graft own inner) := by
  have hkey : ∀ key, isInner key = false →
      (Candidates.graft own inner).lookup key = own.lookup key := fun key hkey => lookup_graft hkey
  have haction : actionOf (Candidates.graft own inner) = actionOf own :=
    actionOf_congr (hkey "action" (by decide))
  intro hextraction
  rw [haction] at hextraction
  have hown := h hextraction
  rw [haction, hkey "target" (by decide)]
  split
  · rename_i hpage
    rwa [if_pos hpage] at hown
  · rename_i hpage
    rw [if_neg hpage] at hown
    obtain ⟨target, id, evidence, htarget, hreads⟩ := hown
    refine ⟨target, id, evidence, htarget, hreads.known, hreads.selector, hreads.keys, ?_, ?_⟩
    · rw [hkey "multiple" (by decide)]
      exact hreads.multiple
    · rw [haction, hkey "fields" (by decide)]
      exact hreads.fields

/-- What the second pass does to a step: an extraction reads from the catalog, and what the first
pass lowered is left as it is. -/
structure Bound (c : Catalog ν) (s t : Fields) : Prop where
  action : actionOf t = actionOf s
  condition : t.lookup "condition" = s.lookup "condition"
  target : isExtraction (actionOf s) = false → t.lookup "target" = s.lookup "target"
  extracts : Extracts c t

theorem visits_resolveStep : Visits (resolveStep toLower caps c) (Bound c) := by
  intro s own h
  obtain ⟨hkept, hextracts, hother⟩ := resolveStep_ok h
  refine ⟨fun key hkey => hkept.inner hkey, fun inner => ⟨?_, ?_, fun hno => ?_, hextracts.graft⟩⟩
  · exact (actionOf_congr (lookup_graft (by decide))).trans hkept.action
  · exact (lookup_graft (by decide)).trans (hkept "condition" (by decide))
  · rw [lookup_graft (by decide), hother hno]

theorem Ordinary.bound {aliases s t u : Fields} (h : Ordinary aliases s t) (hb : Bound c t u) :
    Ordinary aliases s u := by
  refine ⟨hb.action.trans h.action, fun hno v hv => ?_, fun condition hcondition => ?_⟩
  · rw [hb.action] at hno
    rw [hb.target hno] at hv
    exact h.target hno v hv
  · rw [hb.condition] at hcondition
    exact h.condition condition hcondition

theorem resolveProviderExtractionCandidates_ok {catalog : Option (Catalog ν)} {hash : String}
    {rule rule' : Rule}
    (h : resolveProviderExtractionCandidates toLower caps catalog hash rule = .ok rule') :
    ∃ c, catalog = some c ∧ c.hash ≠ "" ∧ hash = c.hash ∧
      walkRule (resolveStep toLower caps c) rule = .ok rule' := by
  cases catalog with
  | none => cases h
  | some c =>
    rw [resolveProviderExtractionCandidates] at h
    split at h
    · cases h
    rename_i hprepared
    split at h
    · cases h
    rename_i hfresh
    rw [Bool.or_eq_true, not_or, decide_eq_true_eq, decide_eq_true_eq, not_ne_iff] at hfresh
    exact ⟨c, rfl, hprepared, hfresh.2, h⟩

/-- The two passes one after the other: what stands at a place of the result was an extraction that
is resolved, or an ordinary step that is lowered. -/
theorem passes_follow {rule mid rule' : Rule} {aliases : Fields}
    (hfirst : walkRule (lowerStep aliases true) rule = .ok mid)
    (hsecond : walkRule (resolveStep toLower caps c) mid = .ok rule') {place : Place} {u : Fields}
    (hu : StepAt rule' place u) :
    Extracts c u ∧ ∃ s, StepAt rule place s ∧ Ordinary aliases s u := by
  obtain ⟨t, ht, hbound⟩ := walkRule_follows visits_resolveStep hsecond hu
  obtain ⟨s, hs, hordinary⟩ := walkRule_follows visits_lowerStep hfirst ht
  exact ⟨hbound.extracts, s, hs, hordinary.bound hbound⟩

/-- A rule is resolved against the catalog whose hash it names: every extraction reads from a target
of it or has none to read from, and every other target is the wire object that stood in its place,
lowered. A rule that is refused is left as it was. -/
theorem resolveProviderCandidates_authentic (toLower : String → String) (caps : Capabilities ν)
    (catalog : Option (Catalog ν)) (rule : Rule) (hash : String) :
    match resolveProviderCandidates toLower caps catalog rule hash with
    | (rule', none) => ∃ c aliases, catalog = some c ∧ c.hash ≠ "" ∧ hash = c.hash ∧
        aliasesOf rule = .ok aliases ∧ ∀ place t, StepAt rule' place t →
          Extracts c t ∧ ∃ s, StepAt rule place s ∧ Ordinary aliases s t
    | (rule', some _) => rule' = rule := by
  rw [resolveProviderCandidates]
  split
  · rename_i rule' heq
    split at heq
    · rename_i resolved hresolved
      cases heq
      obtain ⟨mid, hordinary, hextraction⟩ := bind_eq_ok.mp hresolved
      rw [resolveProviderOrdinaryTargets] at hordinary
      obtain ⟨aliases, haliases, hfirst⟩ := bind_eq_ok.mp hordinary
      obtain ⟨c, rfl, hprepared, hhash, hsecond⟩ :=
        resolveProviderExtractionCandidates_ok hextraction
      exact ⟨c, aliases, rfl, hprepared, hhash, haliases, fun place t ht => passes_follow hfirst hsecond ht⟩
    · cases heq
  · rename_i rule' e heq
    split at heq
    · cases heq
    · exact (Prod.mk.inj heq).1.symm

end

def rowCatalog : Catalog Unit where
  hash := "sha256:0"
  targets := [("t_row", ⟨"t_row", "", ".row", ()⟩)]
  fields := [("f_title", ⟨"f_title", "", ["attr", "text"], ".title", "t_row", ()⟩)]
  prepared := by
    intro id evidence h
    simp only [lookup_cons, lookup_nil] at h
    split at h
    · rename_i hid
      obtain rfl := eq_of_beq hid
      cases h
      exact ⟨by decide, .inl ⟨rfl, rfl⟩⟩
    · cases h

def anyCapability : Capabilities Unit := ⟨fun _ _ _ => true, fun _ _ => true⟩

def titleRule : Rule where
  selectors := none
  hooks := none
  steps := .arr [.obj [("action", .str "extract"), ("name", .str "title"),
    ("target", .obj [("selector", .str "#raw"), ("targetCandidateId", .str "f_title")])]]

-- The row is read instead, with the selectors of the catalog only.
example : resolveProviderCandidates id anyCapability (some rowCatalog) titleRule "sha256:0" =
    ({ titleRule with steps := .arr [.obj [("action", .str "extract"),
      ("fields", .obj [("title", .obj [("selector", .str ".title"), ("type", .str "text"),
        ("visible", .bool true)])]),
      ("multiple", .bool true), ("name", .str "title"),
      ("target", .obj [("selector", .str ".row")])]] }, none) := by rfl

def pageInfoStep : Fields := [("action", .str "extractPageInfo"), ("output", .str "page")]

def pageInfoRule : Rule where
  selectors := none
  hooks := none
  steps := .arr [.obj pageInfoStep]

/-- An extraction of the page has no target. -/
theorem resolveProviderCandidates_pageInfo :
    resolveProviderCandidates id anyCapability (some rowCatalog) pageInfoRule "sha256:0" =
        (pageInfoRule, none) ∧
      StepAt pageInfoRule ⟨none, 0, []⟩ pageInfoStep ∧ isExtraction (actionOf pageInfoStep) = true ∧
      pageInfoStep.lookup "target" = none :=
  ⟨by rfl, ⟨_, pageInfoStep, rfl, rfl, .self⟩, by decide, by decide⟩

end Candidates

end Aegis
