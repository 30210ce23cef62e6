import Aegis.Lib.Outcome
import Aegis.Mcp.Reads

/-!
# Mcp.Secrecy

What the read tools reveal. Two stores are the same but for secrets when they hide the same; the
tools tell no two such stores apart exactly when every row that they show is covered.
-/

namespace Aegis

open List

namespace Mcp

variable {ν : Type} (u : Unicode)

section Hide

def hideRule (schema rule : Fields ν) : Fields ν :=
  rule.map fun p => if p.1 = "variables" then (p.1, hide u schema p.2) else p

def Store.schemaOf (s : Store ν) (v : RuleVersion ν) : Fields ν :=
  match s.getRuleVersionContract v.workspaceID v.ruleID v.version with
  | .ok contract => contract.inputSchema
  | .error _ => []

def RuleVersion.hide (schema : Fields ν) (v : RuleVersion ν) : RuleVersion ν :=
  { v with rule := hideRule u schema v.rule }

def Task.hide (t : Task ν) : Task ν := { t with vars := hideMap u t.inputSchema t.vars }

def Schedule.hide (x : Schedule ν) : Schedule ν :=
  { x with vars := hideMap u x.inputSchema x.vars }

def Store.hide (s : Store ν) : Store ν :=
  { s with
    versions := s.versions.map fun v => v.hide u (s.schemaOf v)
    tasks := s.tasks.map (Task.hide u)
    schedules := s.schedules.map (Schedule.hide u) }

/-- The stores differ in secrets alone. -/
def SameButSecrets (s s' : Store ν) : Prop := s.hide u = s'.hide u

def coveredRule (schema rule : Fields ν) : Bool :=
  rule.all fun p => p.1 != "variables" || covered u schema p.2

/-- Every row that is shown has its secrets beneath keys that are masked. -/
structure Store.Covered (s : Store ν) (workspace : WorkspaceID) : Prop where
  tasks : ∀ id task contract, id ≠ "" → s.getTaskByID workspace id = .ok task →
    taskContract s workspace task = .ok contract → coveredBelow u task.inputSchema task.vars = true
  schedules : ∀ x ∈ s.schedules, x.workspaceID = workspace → coveredBelow u x.inputSchema x.vars = true
  versions : ∀ ruleID requested version contract, trimSpace ruleID ≠ "" →
    approvedRuleVersion s workspace ruleID requested = .ok version →
      s.getRuleVersionContract workspace ruleID version.version = .ok contract →
        coveredRule u contract.inputSchema version.rule = true

end Hide

section Rows

variable {u} {schema inputs : Fields ν}

variable (u schema) in
def maskField (p : String × Json ν) : String × Json ν :=
  if isSecretSchema (propertyOf schema p.1) then (p.1, redacted) else sanitizeField u p

theorem maskSecretInputs_eq : maskSecretInputs u inputs schema = inputs.map (maskField u schema) := by
  rw [maskSecretInputs, sanitizeMap_eq, map_map]
  refine map_congr_left fun p _ => ?_
  rw [Function.comp_apply, maskField, sanitizeField]

theorem maskSecretInputs_hideMap (h : coveredBelow u schema inputs) :
    maskSecretInputs u (hideMap u schema inputs) schema = maskSecretInputs u inputs schema := by
  rw [coveredBelow, all_eq_true] at h
  rw [maskSecretInputs_eq, maskSecretInputs_eq, hideMap_eq, map_map]
  refine map_congr_left fun p hp => ?_
  rw [Function.comp_apply]
  by_cases hsecret : isSecretSchema (propertyOf schema p.1)
  · simp [maskField, hideField, hsecret]
  · by_cases hkey : credentialKey u p.1
    · simp [maskField, hideField, sanitizeField, hsecret, hkey]
    · have hdeclared : isDeclared u schema p.1 = false := by simp [isDeclared, hkey, hsecret]
      have hcovered : covered u (propertyOf schema p.1) p.2 := by
        simpa [hdeclared] using h p hp
      simp [maskField, hideField, sanitizeField, hsecret, hdeclared, sanitizeValue_hide hcovered]

theorem coveredBelow_hideMap :
    coveredBelow u schema (hideMap u schema inputs) = coveredBelow u schema inputs := by
  rw [coveredBelow, coveredBelow, hideMap_eq, all_map, Bool.eq_iff_iff, all_eq_true, all_eq_true]
  refine forall₂_congr fun p _ => ?_
  rw [Function.comp_apply, hideField]
  by_cases hdeclared : isDeclared u schema p.1
  · simp [hdeclared]
  · simp [hdeclared, covered_hide]

theorem exists_unmasked (h : ¬coveredBelow u schema inputs) :
    ∃ inputs', hideMap u schema inputs' = hideMap u schema inputs ∧
      maskSecretInputs u inputs' schema ≠ maskSecretInputs u inputs schema := by
  rw [coveredBelow, all_eq_true] at h
  push Not at h
  obtain ⟨p, hp, hp'⟩ := h
  rw [ne_eq, Bool.or_eq_true, not_or, isDeclared, Bool.or_eq_true, not_or] at hp'
  obtain ⟨⟨hkey, hsecret⟩, hcovered⟩ := hp'
  obtain ⟨w, hhide, hne⟩ := exists_leak hcovered
  have hfield : hideField u schema (p.1, w) = hideField u schema p := by
    rw [hideField, hideField, hhide]
  have hmask : maskField u schema (p.1, w) ≠ maskField u schema p := by
    simpa [maskField, sanitizeField, hsecret, hkey] using hne
  obtain ⟨inputs', hinputs, hne'⟩ := exists_replaced hp hfield hmask
  refine ⟨inputs', ?_, ?_⟩
  · rw [hideMap_eq, hideMap_eq, hinputs]
  · rw [maskSecretInputs_eq, maskSecretInputs_eq]
    exact hne'

theorem credentialKey_variables : credentialKey u "variables" = false := by
  rfl

theorem sanitizeMap_hideRule (h : coveredRule u schema inputs) :
    sanitizeMap u (hideRule u schema inputs) = sanitizeMap u inputs := by
  rw [coveredRule, all_eq_true] at h
  rw [sanitizeMap_eq, sanitizeMap_eq, hideRule, map_map]
  refine map_congr_left fun p hp => ?_
  rw [Function.comp_apply]
  by_cases hvars : p.1 = "variables"
  · have hcovered : covered u schema p.2 := by simpa [hvars] using h p hp
    rw [if_pos hvars, sanitizeField, sanitizeField, sanitizeValue_hide hcovered]
  · rw [if_neg hvars]

theorem coveredRule_hideRule :
    coveredRule u schema (hideRule u schema inputs) = coveredRule u schema inputs := by
  rw [coveredRule, coveredRule, hideRule, all_map, Bool.eq_iff_iff, all_eq_true, all_eq_true]
  refine forall₂_congr fun p _ => ?_
  rw [Function.comp_apply]
  by_cases hvars : p.1 = "variables"
  · rw [if_pos hvars, covered_hide]
  · rw [if_neg hvars]

theorem exists_undefined (h : ¬coveredRule u schema inputs) :
    ∃ inputs', hideRule u schema inputs' = hideRule u schema inputs ∧
      sanitizeMap u inputs' ≠ sanitizeMap u inputs := by
  rw [coveredRule, all_eq_true] at h
  push Not at h
  obtain ⟨p, hp, hp'⟩ := h
  rw [ne_eq, Bool.or_eq_true, not_or, bne_iff_ne, not_not] at hp'
  obtain ⟨hvars, hcovered⟩ := hp'
  obtain ⟨w, hhide, hne⟩ := exists_leak hcovered
  have hsanitize : sanitizeField u (p.1, w) ≠ sanitizeField u p := by
    have hkey : credentialKey u p.1 = false := by rw [hvars, credentialKey_variables]
    simpa [sanitizeField, hkey] using hne
  have hfield : (if (p.1, w).1 = "variables" then ((p.1, w).1, hide u schema (p.1, w).2)
      else (p.1, w)) = if p.1 = "variables" then (p.1, hide u schema p.2) else p := by
    rw [if_pos hvars, if_pos hvars, hhide]
  obtain ⟨inputs', hinputs, hne'⟩ := exists_replaced
    (f := fun p => if p.1 = "variables" then (p.1, hide u schema p.2) else p) hp hfield hsanitize
  refine ⟨inputs', hinputs, ?_⟩
  rw [sanitizeMap_eq, sanitizeMap_eq]
  exact hne'

end Rows

section Queries

variable {u} {s : Store ν} {workspace : WorkspaceID}

theorem mergeSort_map {α : Type} {f : α → α} {r : α → α → Bool} (h : ∀ a b, r (f a) (f b) = r a b)
    (l : List α) : (l.map f).mergeSort r = (l.mergeSort r).map f :=
  (map_mergeSort fun a _ b _ => (h a b).symm).symm

def KeepsTasks (f : Task ν → Task ν) : Prop :=
  ∀ t, (f t).id = t.id ∧ (f t).workspaceID = t.workspaceID

def KeepsVersions (f : RuleVersion ν → RuleVersion ν) : Prop :=
  ∀ v, (f v).workspaceID = v.workspaceID ∧ (f v).ruleID = v.ruleID ∧ (f v).version = v.version ∧
    (f v).status = v.status

def KeepsSchedules (f : Schedule ν → Schedule ν) : Prop :=
  ∀ x, (f x).workspaceID = x.workspaceID ∧ (f x).ruleID = x.ruleID ∧ (f x).type = x.type ∧
    (f x).enabled = x.enabled ∧ (f x).createdAt = x.createdAt

section Changed

variable {f : RuleVersion ν → RuleVersion ν} {g : Schedule ν → Schedule ν} {s' : Store ν}

theorem getTaskByID_map {f : Task ν → Task ν} (hf : KeepsTasks f)
    (hs' : s'.tasks = s.tasks.map f) (id : TaskID) :
    s'.getTaskByID workspace id = (s.getTaskByID workspace id).map f := by
  have hkey : ((fun t : Task ν => t.id == id && t.workspaceID == workspace) ∘ f) =
      fun t => t.id == id && t.workspaceID == workspace := by
    funext t
    rw [Function.comp_apply, (hf t).1, (hf t).2]
  rw [Store.getTaskByID, Store.getTaskByID, hs', find?_map, hkey]
  cases s.tasks.find? fun t => t.id == id && t.workspaceID == workspace <;> rfl

theorem KeepsVersions.rule (hf : KeepsVersions f) (ruleID : String) :
    ((fun v : RuleVersion ν => v.workspaceID == workspace && v.ruleID == ruleID) ∘ f) =
      fun v => v.workspaceID == workspace && v.ruleID == ruleID := by
  funext v
  rw [Function.comp_apply, (hf v).1, (hf v).2.1]

theorem getRuleVersion_map (hf : KeepsVersions f) (hs' : s'.versions = s.versions.map f)
    (ruleID : String) (version : Int) : s'.getRuleVersion workspace ruleID version =
      (s.getRuleVersion workspace ruleID version).map f := by
  have hkey : ((fun v : RuleVersion ν => v.workspaceID == workspace && v.ruleID == ruleID &&
      v.version == version) ∘ f) = fun v =>
        v.workspaceID == workspace && v.ruleID == ruleID && v.version == version := by
    funext v
    obtain ⟨hworkspace, hrule, hversion, -⟩ := hf v
    rw [Function.comp_apply, hworkspace, hrule, hversion]
  rw [Store.getRuleVersion, Store.getRuleVersion, hs', find?_map, hkey]

theorem listRuleVersions_map (hf : KeepsVersions f) (hs' : s'.versions = s.versions.map f)
    (ruleID : String) :
    s'.listRuleVersions workspace ruleID = (s.listRuleVersions workspace ruleID).map f := by
  rw [Store.listRuleVersions, Store.listRuleVersions, hs', filter_map, hf.rule]
  refine mergeSort_map (fun v w => ?_) _
  rw [(hf v).2.2.1, (hf w).2.2.1]

theorem approvedRuleVersion_map (hf : KeepsVersions f) (hs' : s'.versions = s.versions.map f)
    (ruleID : String) (requested : Int) : approvedRuleVersion s' workspace ruleID requested =
      (approvedRuleVersion s workspace ruleID requested).map f := by
  have hstatus : ((fun v : RuleVersion ν => v.status == .approved) ∘ f) =
      fun v => v.status == .approved := by
    funext v
    rw [Function.comp_apply, (hf v).2.2.2]
  rw [approvedRuleVersion, approvedRuleVersion, getRuleVersion_map hf hs',
    listRuleVersions_map hf hs', find?_map, hstatus]
  by_cases hrequested : 0 < requested
  · rw [if_pos hrequested, if_pos hrequested]
    cases s.getRuleVersion workspace ruleID requested with
    | none => rfl
    | some v =>
      rw [Option.map_some, Option.filter_some, Option.filter_some, (hf v).2.2.2]
      by_cases happroved : (v.status == .approved)
      · rw [if_pos happroved, if_pos happroved]
        rfl
      · rw [if_neg happroved, if_neg happroved]
        rfl
  · rw [if_neg hrequested, if_neg hrequested]
    cases (s.listRuleVersions workspace ruleID).find? fun v => v.status == .approved <;> rfl

theorem resolve_map (hf : KeepsVersions f) (hs' : s'.versions = s.versions.map f)
    (hcontracts : s'.contracts = s.contracts) (ruleID : String) (version : Int) :
    s'.resolveTaskRuleVersionContract workspace ruleID version =
      s.resolveTaskRuleVersionContract workspace ruleID version := by
  rw [Store.resolveTaskRuleVersionContract, Store.resolveTaskRuleVersionContract,
    getRuleVersion_map hf hs', Option.isSome_map, Store.getRuleVersionContract,
    Store.getRuleVersionContract, hcontracts, hs', any_map, hf.rule]

theorem listSchedules_map (hg : KeepsSchedules g) (hs' : s'.schedules = s.schedules.map g)
    (ruleID : String) (type : Option ScheduleType) (enabled : Option Bool) (limit offset : Nat) :
    s'.listSchedules workspace ruleID type enabled limit offset =
      (((s.listSchedules workspace ruleID type enabled limit offset).1.map g),
        (s.listSchedules workspace ruleID type enabled limit offset).2) := by
  have hkey : ((fun x : Schedule ν => x.workspaceID == workspace &&
      (ruleID == "" || x.ruleID == ruleID) && type.all (x.type == ·) &&
        enabled.all (x.enabled == ·)) ∘ g) = fun x => x.workspaceID == workspace &&
      (ruleID == "" || x.ruleID == ruleID) && type.all (x.type == ·) && enabled.all (x.enabled == ·) := by
    funext x
    obtain ⟨hworkspace, hrule, htype, henabled, -⟩ := hg x
    rw [Function.comp_apply, hworkspace, hrule, htype, henabled]
  rw [Store.listSchedules, Store.listSchedules]
  dsimp only
  rw [hs', filter_map, hkey, length_map, Store.page, Store.page, map_take,
    map_drop, mergeSort_map (f := g) fun x y => by rw [(hg x).2.2.2.2, (hg y).2.2.2.2]]

end Changed

theorem getTaskByID_hide (id : TaskID) :
    (s.hide u).getTaskByID workspace id = (s.getTaskByID workspace id).map (Task.hide u) :=
  getTaskByID_map (f := Task.hide u) (fun _ => ⟨rfl, rfl⟩) rfl id

theorem keepsVersions_hide : KeepsVersions fun v : RuleVersion ν => v.hide u (s.schemaOf v) :=
  fun _ => ⟨rfl, rfl, rfl, rfl⟩

theorem keepsSchedules_hide : KeepsSchedules fun x : Schedule ν => x.hide u :=
  fun _ => ⟨rfl, rfl, rfl, rfl, rfl⟩

end Queries

section Tools

variable {u} {s : Store ν} {workspace : WorkspaceID}

theorem toTaskOutput_hide {task : Task ν} {contract : Option (RuleVersionContract ν)}
    (h : coveredBelow u task.inputSchema task.vars) :
    toTaskOutput u (task.hide u) contract = toTaskOutput u task contract := by
  have hinputs := maskSecretInputs_hideMap h
  rw [toTaskOutput, toTaskOutput]
  simp only [Task.hide, hinputs]
  rfl

theorem toScheduleOutput_hide {x : Schedule ν} (h : coveredBelow u x.inputSchema x.vars) :
    toScheduleOutput u (x.hide u) = toScheduleOutput u x := by
  have hinputs := maskSecretInputs_hideMap h
  rw [toScheduleOutput, toScheduleOutput]
  simp only [Schedule.hide, hinputs]

variable {version : RuleVersion ν} {contract : RuleVersionContract ν}

theorem ruleVersionOutput_hide (h : coveredRule u contract.inputSchema version.rule) :
    ruleVersionOutput u (version.hide u contract.inputSchema) contract =
      ruleVersionOutput u version contract := by
  have hdefinition := sanitizeMap_hideRule h
  rw [ruleVersionOutput, ruleVersionOutput]
  simp only [RuleVersion.hide, hdefinition]

theorem listRules_hide (limit offset : Int) :
    listRules (s.hide u) workspace limit offset = listRules s workspace limit offset := by
  have hitem : ruleItem (s.hide u) workspace = ruleItem s workspace := by
    funext rule
    have happroved : ((fun v : RuleVersion ν => v.status == .approved) ∘ fun v : RuleVersion ν =>
        v.hide u (s.schemaOf v)) = fun v => v.status == .approved := rfl
    rw [ruleItem, ruleItem, listRuleVersions_map keepsVersions_hide rfl, filter_map, happroved, map_map]
    rfl
  rw [listRules, listRules, hitem]
  rfl

variable {ruleID : String} {requested : Int}

theorem approvedRuleVersion_key (h : approvedRuleVersion s workspace ruleID requested = .ok version) :
    version.workspaceID = workspace ∧ version.ruleID = ruleID := by
  rw [approvedRuleVersion] at h
  split at h
  · rename_i found hfound
    cases h
    by_cases hrequested : 0 < requested
    · rw [if_pos hrequested] at hfound
      have hfind := Option.eq_some_of_filter_eq_some hfound
      have hkey := find?_some hfind
      simp only [Bool.and_eq_true, beq_iff_eq] at hkey
      exact hkey.1
    · rw [if_neg hrequested] at hfound
      have hmem := mem_of_find?_eq_some hfound
      rw [Store.listRuleVersions, mem_mergeSort] at hmem
      have hkey := (mem_filter.mp hmem).2
      simpa only [Bool.and_eq_true, beq_iff_eq] using hkey
  · cases h

theorem schemaOf_eq (h : approvedRuleVersion s workspace ruleID requested = .ok version)
    (hcontract : s.getRuleVersionContract workspace ruleID version.version = .ok contract) :
    s.schemaOf version = contract.inputSchema := by
  obtain ⟨hworkspace, hrule⟩ := approvedRuleVersion_key h
  rw [Store.schemaOf, hworkspace, hrule, hcontract]

theorem getRule_hide (h : s.Covered u workspace) (ruleID : String) (requested : Int) :
    getRule u (s.hide u) workspace ruleID requested = getRule u s workspace ruleID requested := by
  rw [getRule, getRule]
  by_cases hid : trimSpace ruleID = ""
  · rw [if_pos hid, if_pos hid]
  · rw [if_neg hid, if_neg hid, approvedRuleVersion_map keepsVersions_hide rfl]
    cases hversion : approvedRuleVersion s workspace ruleID requested with
    | error message => rfl
    | ok version =>
      show (s.getRuleVersionContract workspace ruleID version.version >>= fun contract =>
        pure (ruleVersionOutput u (version.hide u (s.schemaOf version)) contract)) =
          s.getRuleVersionContract workspace ruleID version.version >>= fun contract =>
            pure (ruleVersionOutput u version contract)
      cases hcontract : s.getRuleVersionContract workspace ruleID version.version with
      | error message => rfl
      | ok contract =>
        have hcovered := h.versions ruleID requested version contract hid hversion hcontract
        rw [schemaOf_eq hversion hcontract]
        exact congrArg Except.ok (ruleVersionOutput_hide hcovered)

theorem taskContract_hide (task : Task ν) :
    taskContract (s.hide u) workspace (task.hide u) = taskContract s workspace task := by
  have hversions : (s.hide u).versions = s.versions.map fun v => v.hide u (s.schemaOf v) := rfl
  rw [taskContract, taskContract, resolve_map keepsVersions_hide hversions rfl]
  rfl

theorem getTask_hide (h : s.Covered u workspace) (id : TaskID) :
    getTask u (s.hide u) workspace id = getTask u s workspace id := by
  rw [getTask, getTask]
  by_cases hid : id = ""
  · rw [if_pos hid, if_pos hid]
  · rw [if_neg hid, if_neg hid, getTaskByID_hide]
    cases htask : s.getTaskByID workspace id with
    | error message => rfl
    | ok task =>
      show (taskContract (s.hide u) workspace (task.hide u) >>= fun contract =>
        pure (toTaskOutput u (task.hide u) contract)) = taskContract s workspace task >>=
          fun contract => pure (toTaskOutput u task contract)
      rw [taskContract_hide]
      cases hcontract : taskContract s workspace task with
      | error message => rfl
      | ok contract =>
        exact congrArg Except.ok (toTaskOutput_hide (h.tasks id task contract hid htask hcontract))

theorem getTaskResults_hide (id : TaskID) (limit offset : Int) (includeInvalid : Bool) :
    getTaskResults u (s.hide u) workspace id limit offset includeInvalid =
      getTaskResults u s workspace id limit offset includeInvalid := by
  rw [getTaskResults, getTaskResults]
  by_cases hid : id = ""
  · rw [if_pos hid, if_pos hid]
  · rw [if_neg hid, if_neg hid, getTaskByID_hide]
    cases normalizePage limit offset with
    | error message => rfl
    | ok range =>
      cases htask : s.getTaskByID workspace id with
      | error message => rfl
      | ok task =>
        have hcontract : taskContract (s.hide u) workspace (task.hide u) =
            taskContract s workspace task := taskContract_hide task
        show (taskContract (s.hide u) workspace (task.hide u) >>= _) = _
        rw [hcontract]
        rfl

theorem listSchedules_hide (h : s.Covered u workspace) (ruleID type : String)
    (enabled : Option Bool) (limit offset : Int) :
    listSchedules u (s.hide u) workspace ruleID type enabled limit offset =
      listSchedules u s workspace ruleID type enabled limit offset := by
  rw [listSchedules, listSchedules]
  cases normalizePage limit offset with
  | error message => rfl
  | ok range =>
    cases scheduleTypeOf type with
    | error message => rfl
    | ok type =>
      have hschedules : ((s.hide u).listSchedules workspace ruleID type enabled range.1
          range.2).1.map (toScheduleOutput u) = (s.listSchedules workspace ruleID type enabled
            range.1 range.2).1.map (toScheduleOutput u) := by
        rw [listSchedules_map keepsSchedules_hide rfl, map_map]
        refine map_congr_left fun x hx => toScheduleOutput_hide ?_
        have hmem := mem_mergeSort.mp (drop_subset _ _ (take_subset _ _ hx))
        obtain ⟨hmem, hkey⟩ := mem_filter.mp hmem
        simp only [Bool.and_eq_true, beq_iff_eq] at hkey
        exact h.schedules x hmem hkey.1.1.1
      have htotal : ((s.hide u).listSchedules workspace ruleID type enabled range.1 range.2).2 =
          (s.listSchedules workspace ruleID type enabled range.1 range.2).2 := by
        rw [listSchedules_map keepsSchedules_hide rfl]
      show Except.ok (ListSchedulesOutput.mk (((s.hide u).listSchedules workspace ruleID type
        enabled range.1 range.2).1.map (toScheduleOutput u)) ((s.hide u).listSchedules workspace
          ruleID type enabled range.1 range.2).2 range.1 range.2) = _
      rw [hschedules, htotal]
      rfl

variable {p : Principal}

theorem read_hide (h : s.Covered u p.workspace) (call : ReadCall) :
    read u p (s.hide u) call = read u p s call := by
  cases call with
  | listRules limit offset => rw [read, read, listRules_hide]
  | getRule ruleID version => rw [read, read, getRule_hide h]
  | getTask id => rw [read, read, getTask_hide h]
  | getTaskResults id limit offset includeInvalid => rw [read, read, getTaskResults_hide]
  | listSchedules ruleID type enabled limit offset => rw [read, read, listSchedules_hide h]

theorem covered_hide_iff : (s.hide u).Covered u workspace ↔ s.Covered u workspace := by
  constructor
  · intro h
    refine ⟨fun id task contract hid htask hcontract => ?_, fun x hx hworkspace => ?_,
      fun ruleID requested version contract hid hversion hcontract => ?_⟩
    · have hfound : (s.hide u).getTaskByID workspace id = .ok (task.hide u) := by
        rw [getTaskByID_hide, htask]
        rfl
      have hcovered := h.tasks id (task.hide u) contract hid hfound
        ((taskContract_hide task).trans hcontract)
      rwa [Task.hide, coveredBelow_hideMap] at hcovered
    · have hcovered := h.schedules (x.hide u) (mem_map_of_mem hx) hworkspace
      rwa [Schedule.hide, coveredBelow_hideMap] at hcovered
    · have hfound : approvedRuleVersion (s.hide u) workspace ruleID requested =
          .ok (version.hide u (s.schemaOf version)) := by
        rw [approvedRuleVersion_map keepsVersions_hide rfl, hversion]
        rfl
      have hcovered := h.versions ruleID requested _ contract hid hfound hcontract
      rwa [schemaOf_eq hversion hcontract, RuleVersion.hide, coveredRule_hideRule] at hcovered
  · intro h
    refine ⟨fun id task contract hid htask hcontract => ?_, fun x hx hworkspace => ?_,
      fun ruleID requested version contract hid hversion hcontract => ?_⟩
    · rw [getTaskByID_hide] at htask
      obtain ⟨task', hfound, rfl⟩ := map_eq_ok.mp htask
      rw [Task.hide, coveredBelow_hideMap]
      exact h.tasks id task' contract hid hfound ((taskContract_hide task').symm.trans hcontract)
    · obtain ⟨y, hy, rfl⟩ := mem_map.mp hx
      rw [Schedule.hide, coveredBelow_hideMap]
      exact h.schedules y hy hworkspace
    · rw [approvedRuleVersion_map keepsVersions_hide rfl] at hversion
      obtain ⟨version', hfound, rfl⟩ := map_eq_ok.mp hversion
      have hcontract' : s.getRuleVersionContract workspace ruleID version'.version =
        .ok contract := hcontract
      show coveredRule u contract.inputSchema (hideRule u (s.schemaOf version') version'.rule) = true
      rw [schemaOf_eq hfound hcontract', coveredRule_hideRule]
      exact h.versions ruleID requested version' contract hid hfound hcontract'

theorem SameButSecrets.read_eq {s' : Store ν} (h : SameButSecrets u s s')
    (hcovered : s.Covered u p.workspace) (call : ReadCall) :
    read u p s call = read u p s' call := by
  have hcovered' : s'.Covered u p.workspace := by
    rw [← covered_hide_iff, ← show s.hide u = s'.hide u from h, covered_hide_iff]
    exact hcovered
  rw [← read_hide hcovered, show s.hide u = s'.hide u from h, read_hide hcovered']

end Tools

section Leaks

variable {u} {s : Store ν} {p : Principal}

open Classical in
noncomputable def swap {α : Type} (x x' y : α) : α := if y = x then x' else y

variable {α : Type}

theorem swap_self (x x' : α) : swap x x' x = x' := if_pos rfl

variable {α β : Type}

theorem apply_swap {f : α → β} {x x' : α} (h : f x' = f x) (y : α) : f (swap x x' y) = f y := by
  rw [swap]
  split
  · rename_i hy
    rw [h, hy]
  · rfl

theorem map_swap {f : α → β} {x x' : α} (h : f x' = f x) (l : List α) :
    (l.map (swap x x')).map f = l.map f := by
  rw [map_map]
  exact map_congr_left fun y _ => apply_swap h y

theorem tool_of_permission (h : p.isMCP ∧ p.hasPermission "read" = true)
    (value : α) : tool p "read" (.ok value) = .ok value := by
  rw [tool, h.1, h.2]
  rfl

theorem leak_task (hp : p.isMCP ∧ p.hasPermission "read" = true) {id : TaskID}
    {task : Task ν} {contract : Option (RuleVersionContract ν)} (hid : id ≠ "")
    (htask : s.getTaskByID p.workspace id = .ok task)
    (hcontract : taskContract s p.workspace task = .ok contract)
    (h : ¬coveredBelow u task.inputSchema task.vars) :
    ∃ s', SameButSecrets u s s' ∧ read u p s (.getTask id) ≠ read u p s' (.getTask id) := by
  obtain ⟨inputs', hhide, hne⟩ := exists_unmasked h
  let task' : Task ν := { task with vars := inputs' }
  have hsame : task'.hide u = task.hide u := by
    rw [Task.hide, Task.hide]
    simp only [task', hhide]
  let s' : Store ν := { s with tasks := s.tasks.map (swap task task') }
  refine ⟨s', ?_, ?_⟩
  · show s.hide u = s'.hide u
    rw [Store.hide, Store.hide]
    simp only [s', map_swap hsame]
    rfl
  · have hkeeps : KeepsTasks (swap task task') := by
      intro y
      refine ⟨apply_swap ?_ y, apply_swap ?_ y⟩ <;> rfl
    have htask' : s'.getTaskByID p.workspace id = .ok task' := by
      rw [getTaskByID_map hkeeps rfl, htask]
      exact congrArg Except.ok (swap_self task task')
    have hcontract' : taskContract s' p.workspace task' = .ok contract := hcontract
    have hread (t : Store ν) {x : Task ν} (hx : t.getTaskByID p.workspace id = .ok x)
        (hc : taskContract t p.workspace x = .ok contract) :
        getTask u t p.workspace id = .ok (toTaskOutput u x contract) := by
      rw [getTask, if_neg hid, hx]
      show (taskContract t p.workspace x >>= fun contract =>
        pure (toTaskOutput u x contract)) = _
      rw [hc]
      rfl
    rw [read, read, hread s htask hcontract, hread s' htask' hcontract']
    show tool p "read" (.ok (Output.task _)) ≠ tool p "read" (.ok (Output.task _))
    rw [tool_of_permission hp, tool_of_permission hp]
    intro heq
    exact hne (congrArg TaskOutput.inputs (Output.task.inj (Except.ok.inj heq))).symm

theorem getElem?_page {l : List α} {n : Nat} {x : α} (h : l[n]? = some x) : Store.page 1 n l = [x] := by
  obtain ⟨hn, rfl⟩ := List.getElem?_eq_some_iff.mp h
  rw [Store.page, drop_eq_getElem_cons hn, take_succ_cons, take_zero]

theorem leak_schedule (hp : p.isMCP ∧ p.hasPermission "read" = true) {x : Schedule ν}
    (hx : x ∈ s.schedules) (hworkspace : x.workspaceID = p.workspace)
    (h : ¬coveredBelow u x.inputSchema x.vars) :
    ∃ s' call, SameButSecrets u s s' ∧ read u p s call ≠ read u p s' call := by
  obtain ⟨inputs', hhide, hne⟩ := exists_unmasked h
  let x' : Schedule ν := { x with vars := inputs' }
  have hsame : x'.hide u = x.hide u := by
    rw [Schedule.hide, Schedule.hide]
    simp only [x', hhide]
  let s' : Store ν := { s with schedules := s.schedules.map (swap x x') }
  have hkeeps : KeepsSchedules (swap x x') := by
    intro y
    refine ⟨apply_swap ?_ y, apply_swap ?_ y, apply_swap ?_ y, apply_swap ?_ y, apply_swap ?_ y⟩ <;> rfl
  have hmem : x ∈ (s.schedules.filter fun x => x.workspaceID == p.workspace &&
      ("" == "" || x.ruleID == "") && Option.all (x.type == ·) none &&
        Option.all (x.enabled == ·) none).mergeSort fun x y =>
          decide (y.createdAt ≤ x.createdAt) := by
    rw [mem_mergeSort, mem_filter]
    exact ⟨hx, by simp [hworkspace]⟩
  obtain ⟨n, hn⟩ := getElem?_of_mem hmem
  have hlisted : (s.listSchedules p.workspace "" none none 1 n).1 = [x] := getElem?_page hn
  have hlisted' : (s'.listSchedules p.workspace "" none none 1 n).1 = [x'] := by
    rw [listSchedules_map hkeeps rfl, hlisted, map_singleton, swap_self]
  refine ⟨s', .listSchedules "" "" none 1 n, ?_, ?_⟩
  · show s.hide u = s'.hide u
    rw [Store.hide, Store.hide]
    simp only [s', map_swap hsame]
    rfl
  · have hrange : normalizePage 1 (n : Int) = .ok (1, n) := by
      have hbounds : ¬((1 : Int) < 1 ∨ (100 : Int) < 1 ∨ (n : Int) < 0) := by omega
      have hlimit : (if (1 : Int) = 0 then (100 : Int) else 1) = 1 := rfl
      rw [normalizePage, hlimit, if_neg hbounds]
      rfl
    have hread (t : Store ν) : read u p t (.listSchedules "" "" none 1 n) =
        tool p "read" (.ok (.schedules ⟨(t.listSchedules p.workspace "" none none 1 n).1.map
          (toScheduleOutput u), (t.listSchedules p.workspace "" none none 1 n).2, 1, n⟩)) := by
      rw [read, listSchedules, hrange]
      rfl
    rw [hread, hread, hlisted, hlisted', tool_of_permission hp, tool_of_permission hp]
    intro heq
    have hfirst := congrArg ListSchedulesOutput.schedules
      (Output.schedules.inj (Except.ok.inj heq))
    exact hne (congrArg ScheduleOutput.inputs (List.cons.inj hfirst).1).symm

theorem leak_version (hp : p.isMCP ∧ p.hasPermission "read" = true) {ruleID : String}
    {requested : Int} {version : RuleVersion ν} {contract : RuleVersionContract ν}
    (hid : trimSpace ruleID ≠ "")
    (hversion : approvedRuleVersion s p.workspace ruleID requested = .ok version)
    (hcontract : s.getRuleVersionContract p.workspace ruleID version.version = .ok contract)
    (h : ¬coveredRule u contract.inputSchema version.rule) :
    ∃ s', SameButSecrets u s s' ∧
      read u p s (.getRule ruleID requested) ≠ read u p s' (.getRule ruleID requested) := by
  obtain ⟨rule', hhide, hne⟩ := exists_undefined h
  have hschema := schemaOf_eq hversion hcontract
  let version' : RuleVersion ν := { version with rule := rule' }
  let s' : Store ν := { s with versions := s.versions.map (swap version version') }
  have hsame : version'.hide u (s.schemaOf version') = version.hide u (s.schemaOf version) := by
    have hschema' : s.schemaOf version' = s.schemaOf version := rfl
    rw [hschema', hschema, RuleVersion.hide, RuleVersion.hide]
    simp only [version', hhide]
  have hkeeps : KeepsVersions (swap version version') := by
    intro v
    refine ⟨apply_swap ?_ v, apply_swap ?_ v, apply_swap ?_ v, apply_swap ?_ v⟩ <;> rfl
  have hversion' : approvedRuleVersion s' p.workspace ruleID requested = .ok version' := by
    rw [approvedRuleVersion_map hkeeps rfl, hversion]
    exact congrArg Except.ok (swap_self version version')
  refine ⟨s', ?_, ?_⟩
  · show s.hide u = s'.hide u
    have hversions : (s.versions.map (swap version version')).map
        (fun v => v.hide u (s.schemaOf v)) = s.versions.map fun v => v.hide u (s.schemaOf v) :=
      map_swap (f := fun v : RuleVersion ν => v.hide u (s.schemaOf v)) hsame _
    have hschemas : s'.schemaOf = s.schemaOf := rfl
    rw [Store.hide, Store.hide, hschemas]
    simp only [s', hversions]
  · have hread (t : Store ν) {v : RuleVersion ν}
        (hv : approvedRuleVersion t p.workspace ruleID requested = .ok v)
        (hc : t.getRuleVersionContract p.workspace ruleID v.version = .ok contract) :
        read u p t (.getRule ruleID requested) =
          tool p "read" (.ok (.rule (ruleVersionOutput u v contract))) := by
      rw [read, getRule, if_neg hid, hv]
      show tool p "read" (Except.map Output.rule
        (t.getRuleVersionContract p.workspace ruleID v.version >>= fun contract =>
          pure (ruleVersionOutput u v contract))) = _
      rw [hc]
      rfl
    rw [hread s hversion hcontract, hread s' hversion' hcontract, tool_of_permission hp,
      tool_of_permission hp]
    intro heq
    exact hne (congrArg RuleVersionOutput.definition (Output.rule.inj (Except.ok.inj heq))).symm

end Leaks

variable {u}

/-- No call of a client tells a store from one that is the same but for secrets. -/
def Secret (u : Unicode) (p : Principal) (s : Store ν) : Prop :=
  ∀ s', SameButSecrets u s s' → ∀ calls : List ReadCall,
    calls.map (read u p s) = calls.map (read u p s')

/-- **What reads reveal.** The read tools keep the secrets of a store from a client that may call
them exactly when every row that they show is covered. -/
theorem secret_iff_covered (u : Unicode) (p : Principal) (s : Store ν) : Secret u p s ↔
      (p.isMCP ∧ p.hasPermission "read" = true → s.Covered u p.workspace) := by
  constructor
  · intro h hp
    have hread (s' : Store ν) (hs' : SameButSecrets u s s') (call : ReadCall) :
        read u p s call = read u p s' call := by
      have hcalls := h s' hs' [call]
      exact (List.cons.inj hcalls).1
    refine ⟨fun id task contract hid htask hcontract => ?_, fun x hx hworkspace => ?_,
      fun ruleID requested version contract hid hversion hcontract => ?_⟩
    · by_contra hnot
      obtain ⟨s', hs', hne⟩ := leak_task hp hid htask hcontract hnot
      exact hne (hread s' hs' _)
    · by_contra hnot
      obtain ⟨s', call, hs', hne⟩ := leak_schedule hp hx hworkspace hnot
      exact hne (hread s' hs' call)
    · by_contra hnot
      obtain ⟨s', hs', hne⟩ := leak_version hp hid hversion hcontract hnot
      exact hne (hread s' hs' _)
  · intro h s' hs' calls
    refine map_congr_left fun call _ => ?_
    by_cases hp : p.isMCP ∧ p.hasPermission "read" = true
    · exact hs'.read_eq (h hp) call
    · have hdenied : ¬(p.isMCP && p.hasPermission "read") = true := by
        rwa [Bool.and_eq_true]
      rw [read.eq_def, read.eq_def, tool, tool, if_neg hdenied, if_neg hdenied]

end Mcp

end Aegis
