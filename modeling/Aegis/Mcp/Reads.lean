import Aegis.Mcp.Masking
import Mathlib.Data.Prod.Lex

/-!
# Mcp.Reads

The read tools of `mcpapi/service.go` over the rows that they read: `list_rules`, `get_rule`,
`get_task`, `get_task_results` and `list_schedules`. A JSON column is the value that it decodes to,
and the rule of a version is the object that it is marshalled to; `vars` is the column `variables`.
-/

namespace Aegis

namespace Mcp

variable {ν : Type}

structure Principal where
  workspace : WorkspaceID
  isMCP : Bool
  isAdmin : Bool
  permissions : List String

structure Rule where
  id : String
  workspaceID : WorkspaceID
  name : String
  approvalStatus : RuleApprovalStatus
  source : String
  createdAt : Time
  updatedAt : Time

structure RuleVersion (ν : Type) where
  workspaceID : WorkspaceID
  ruleID : String
  version : Int
  versionLabel : String
  rule : Fields ν
  contentHash : String
  status : RuleApprovalStatus
  approvedAt : Option Time
  approvedBy : String

structure Source where
  sourceKind : String
  sourceAuthority : String
  sourceArtifactHash : String
  sourceExportHash : String
  sourceWorkflowID : String

def Source.none : Source := ⟨"", "", "", "", ""⟩

structure RuleVersionContract (ν : Type) where
  workspaceID : WorkspaceID
  ruleID : String
  version : Int
  inputSchema : Fields ν
  outputSchema : Fields ν
  browserProfileID : String
  source : Source

structure Task (ν : Type) where
  id : TaskID
  workspaceID : WorkspaceID
  ruleID : String
  ruleVersion : String
  ruleVersionNumber : Int
  status : TaskStatus
  priority : Priority
  vars : Fields ν
  inputSchema : Fields ν
  outputSchema : Fields ν
  browserProfileID : String
  currentAttemptID : Option AttemptID
  retryCount : Int
  maxRetries : Int
  cancelRequested : Bool
  createdAt : Time
  updatedAt : Time
  scheduledAt : Option Time
  completedAt : Option Time
  errorType : Option String
  errorMessage : Option String

structure Schedule (ν : Type) where
  id : String
  workspaceID : WorkspaceID
  ruleID : String
  ruleVersion : String
  ruleVersionNumber : Int
  name : String
  type : ScheduleType
  expression : String
  enabled : Bool
  nextRunAt : Option Time
  lastRunAt : Option Time
  vars : Fields ν
  inputSchema : Fields ν
  browserProfileID : String
  timezone : String
  priority : Priority
  maxRetries : Int
  catchup : CatchupMode
  createdAt : Time
  updatedAt : Time

structure Result (ν : Type) where
  id : String
  workspaceID : WorkspaceID
  taskID : TaskID
  attemptID : AttemptID
  attemptNumber : Int
  sequence : Int
  kind : ResultKind
  payload : Json ν
  valid : Bool
  validationError : String
  createdAt : Time

structure Store (ν : Type) where
  rules : List Rule
  versions : List (RuleVersion ν)
  contracts : List (RuleVersionContract ν)
  tasks : List (Task ν)
  schedules : List (Schedule ν)
  results : List (Result ν)

namespace Store

variable (s : Store ν) (workspace : WorkspaceID)

/-- `LIMIT ? OFFSET ?`. -/
def page {α : Type} (limit offset : Nat) (rows : List α) : List α := (rows.drop offset).take limit

def listRules (limit offset : Nat) : List Rule × Nat :=
  let rows := s.rules.filter fun r => r.workspaceID == workspace && r.approvalStatus == .approved
  (page limit offset (rows.mergeSort fun r q => decide (q.createdAt ≤ r.createdAt)), rows.length)

def listRuleVersions (ruleID : String) : List (RuleVersion ν) :=
  (s.versions.filter fun v => v.workspaceID == workspace && v.ruleID == ruleID).mergeSort
    fun v w => decide (w.version ≤ v.version)

def getRuleVersion (ruleID : String) (version : Int) : Option (RuleVersion ν) :=
  s.versions.find? fun v =>
    v.workspaceID == workspace && v.ruleID == ruleID && v.version == version

def getRuleVersionContract (ruleID : String) (version : Int) : Except String (RuleVersionContract ν) :=
  match s.contracts.find? fun c =>
    c.workspaceID == workspace && c.ruleID == ruleID && c.version == version with
  | none => .error "rule version not found"
  | some contract => .ok contract

def getTaskByID (id : TaskID) : Except String (Task ν) :=
  match s.tasks.find? fun t => t.id == id && t.workspaceID == workspace with
  | none => .error "task not found"
  | some task => .ok task

def resolveTaskRuleVersionContract (ruleID : String) (version : Int) :
    Except String (Option (RuleVersionContract ν)) :=
  if ruleID = "" then .ok none
  else if 0 < version ∧ (s.getRuleVersion workspace ruleID version).isSome = true then
    (s.getRuleVersionContract workspace ruleID version).map some
  else if s.versions.any fun v => v.workspaceID == workspace && v.ruleID == ruleID then
    .error "rule version not found"
  else .ok none

def listSchedules (ruleID : String) (type : Option ScheduleType) (enabled : Option Bool)
    (limit offset : Nat) : List (Schedule ν) × Nat :=
  let rows := s.schedules.filter fun x => x.workspaceID == workspace &&
    (ruleID == "" || x.ruleID == ruleID) && type.all (x.type == ·) && enabled.all (x.enabled == ·)
  (page limit offset (rows.mergeSort fun x y => decide (y.createdAt ≤ x.createdAt)), rows.length)

structure ResultPage (ν : Type) where
  batches : List (Result ν)
  invalidBatches : List (Result ν)
  summary : Option (Result ν)
  total : Nat

def listResultPage (taskID : TaskID) (limit offset : Nat) (includeInvalid : Bool) : ResultPage ν :=
  let rows := s.results.filter fun r => r.workspaceID == workspace && r.taskID == taskID
  let valid := rows.filter fun r => r.kind == .batch && r.valid
  let invalid := rows.filter fun r => r.kind == .batch && !r.valid
  let summaries := rows.filter fun r => r.kind == .summary
  { batches := page limit offset (valid.mergeSort fun r q =>
      decide (toLex (r.attemptNumber, toLex (r.sequence, r.createdAt)) ≤
        toLex (q.attemptNumber, toLex (q.sequence, q.createdAt))))
    invalidBatches :=
      if includeInvalid then
        page limit offset (invalid.mergeSort fun r q => decide (r.createdAt ≤ q.createdAt))
      else []
    summary := (summaries.mergeSort fun r q => decide (q.createdAt ≤ r.createdAt)).head?
    total := valid.length }

end Store

structure RuleListItem where
  id : String
  name : String
  source : String
  latestApprovedVersion : Int
  approvedVersionNumbers : List Int
  updatedAt : Time

structure ListRulesOutput where
  rules : List RuleListItem
  total : Nat
  limit : Nat
  offset : Nat

structure RuleVersionOutput (ν : Type) where
  ruleID : String
  version : Int
  versionLabel : String
  contentHash : String
  definition : Fields ν
  inputSchema : Fields ν
  outputSchema : Fields ν
  browserProfileID : String
  source : Source
  approvedAt : Option Time
  approvedBy : String

structure TaskOutput (ν : Type) where
  id : TaskID
  ruleID : String
  ruleVersion : Int
  ruleVersionLabel : String
  status : TaskStatus
  priority : Priority
  inputs : Fields ν
  inputSchema : Fields ν
  outputSchema : Fields ν
  browserProfileID : String
  source : Source
  currentAttemptID : AttemptID
  retryCount : Int
  maxRetries : Int
  cancelRequested : Bool
  createdAt : Time
  updatedAt : Time
  scheduledAt : Option Time
  completedAt : Option Time
  errorType : String
  errorMessage : String

structure ResultOutput (ν : Type) where
  id : String
  attemptID : AttemptID
  sequence : Int
  kind : ResultKind
  payload : Json ν
  valid : Bool
  validationError : String
  createdAt : Time

structure TaskResultsOutput (ν : Type) where
  taskID : TaskID
  ruleID : String
  ruleVersion : Int
  outputSchema : Fields ν
  source : Source
  batches : List (ResultOutput ν)
  invalid : List (ResultOutput ν)
  summary : Option (ResultOutput ν)
  total : Nat
  limit : Nat
  offset : Nat

structure ScheduleOutput (ν : Type) where
  id : String
  ruleID : String
  ruleVersion : Int
  ruleVersionLabel : String
  name : String
  type : ScheduleType
  expression : String
  enabled : Bool
  nextRunAt : Option Time
  lastRunAt : Option Time
  inputs : Fields ν
  inputSchema : Fields ν
  browserProfileID : String
  timezone : String
  priority : Priority
  maxRetries : Int
  missedRunPolicy : CatchupMode
  createdAt : Time
  updatedAt : Time

structure ListSchedulesOutput (ν : Type) where
  schedules : List (ScheduleOutput ν)
  total : Nat
  limit : Nat
  offset : Nat

section Outputs

variable (u : Unicode)

def toTaskOutput (task : Task ν) (contract : Option (RuleVersionContract ν)) : TaskOutput ν where
  id := task.id
  ruleID := task.ruleID
  ruleVersion := task.ruleVersionNumber
  ruleVersionLabel := task.ruleVersion
  status := task.status
  priority := task.priority
  inputs := maskSecretInputs u task.vars task.inputSchema
  inputSchema := sanitizeSchema u task.inputSchema
  outputSchema := sanitizeSchema u task.outputSchema
  browserProfileID := task.browserProfileID
  source := (contract.map RuleVersionContract.source).getD Source.none
  currentAttemptID := task.currentAttemptID.getD ""
  retryCount := task.retryCount
  maxRetries := task.maxRetries
  cancelRequested := task.cancelRequested
  createdAt := task.createdAt
  updatedAt := task.updatedAt
  scheduledAt := task.scheduledAt
  completedAt := task.completedAt
  errorType := task.errorType.getD ""
  errorMessage :=
    if task.errorMessage.getD "" = "" then ""
    else "task execution failed; detailed diagnostics are available in the Admin UI"

def toResultOutput (result : Result ν) : ResultOutput ν where
  id := result.id
  attemptID := result.attemptID
  sequence := result.sequence
  kind := result.kind
  payload := sanitizeValue u result.payload
  valid := result.valid
  validationError :=
    if result.validationError = "" then "" else "payload failed output schema validation"
  createdAt := result.createdAt

def toScheduleOutput (schedule : Schedule ν) : ScheduleOutput ν where
  id := schedule.id
  ruleID := schedule.ruleID
  ruleVersion := schedule.ruleVersionNumber
  ruleVersionLabel := schedule.ruleVersion
  name := schedule.name
  type := schedule.type
  expression := schedule.expression
  enabled := schedule.enabled
  nextRunAt := schedule.nextRunAt
  lastRunAt := schedule.lastRunAt
  inputs := maskSecretInputs u schedule.vars schedule.inputSchema
  inputSchema := sanitizeSchema u schedule.inputSchema
  browserProfileID := schedule.browserProfileID
  timezone := schedule.timezone
  priority := schedule.priority
  maxRetries := schedule.maxRetries
  missedRunPolicy := schedule.catchup
  createdAt := schedule.createdAt
  updatedAt := schedule.updatedAt

end Outputs

def normalizePage (limit offset : Int) : Except String (Nat × Nat) :=
  let limit := if limit = 0 then 100 else limit
  if limit < 1 ∨ 100 < limit ∨ offset < 0 then
    .error "limit must be between 1 and 100 and offset cannot be negative"
  else .ok (limit.toNat, offset.toNat)

def publicFragments : List String :=
  ["is required", "not found", "cannot be", "must be", "must contain",
    "invalid rule version or inputs", "invalid cron expression", "secret-declared input",
    "permission denied"]

def publicMCPError (message : String) : String :=
  if publicFragments.any (Sanitize.contains message) then message else "MCP tool failed"

def Principal.hasPermission (p : Principal) (permission : String) : Bool :=
  p.isAdmin || p.permissions.contains permission

/-- What `addTool` wraps around a handler. -/
def tool {α : Type} (p : Principal) (permission : String) (handler : Except String α) : Except String α :=
  if p.isMCP && p.hasPermission permission then handler.mapError publicMCPError
  else .error "permission denied"

section Handlers

variable (u : Unicode) (s : Store ν) (workspace : WorkspaceID)

def ruleItem (rule : Rule) : RuleListItem :=
  let approved := ((s.listRuleVersions workspace rule.id).filter fun v =>
    v.status == .approved).map RuleVersion.version
  ⟨rule.id, rule.name, rule.source, approved.foldl max 0, approved, rule.updatedAt⟩

def listRules (limit offset : Int) : Except String ListRulesOutput := do
  let (limit, offset) ← normalizePage limit offset
  let (rules, total) := s.listRules workspace limit offset
  return ⟨(rules.map (ruleItem s workspace)).filter fun item => decide
    (0 < item.latestApprovedVersion), total, limit, offset⟩

def approvedRuleVersion (ruleID : String) (requested : Int) : Except String (RuleVersion ν) :=
  let found :=
    if 0 < requested then
      (s.getRuleVersion workspace ruleID requested).filter fun v => v.status == .approved
    else (s.listRuleVersions workspace ruleID).find? fun v => v.status == .approved
  match found with
  | some version => .ok version
  | none => .error "approved rule version not found"

def ruleVersionOutput (version : RuleVersion ν) (contract : RuleVersionContract ν) :
    RuleVersionOutput ν where
  ruleID := version.ruleID
  version := version.version
  versionLabel := version.versionLabel
  contentHash := version.contentHash
  definition := sanitizeMap u version.rule
  inputSchema := sanitizeSchema u contract.inputSchema
  outputSchema := sanitizeSchema u contract.outputSchema
  browserProfileID := contract.browserProfileID
  source := contract.source
  approvedAt := version.approvedAt
  approvedBy := version.approvedBy

def getRule (ruleID : String) (requested : Int) : Except String (RuleVersionOutput ν) :=
  if trimSpace ruleID = "" then .error "ruleId is required"
  else do
    let version ← approvedRuleVersion s workspace ruleID requested
    let contract ← s.getRuleVersionContract workspace ruleID version.version
    return ruleVersionOutput u version contract

def taskContract (task : Task ν) : Except String (Option (RuleVersionContract ν)) :=
  (s.resolveTaskRuleVersionContract workspace task.ruleID task.ruleVersionNumber).mapError
    fun _ => "task execution contract unavailable"

def getTask (taskID : TaskID) : Except String (TaskOutput ν) :=
  if taskID = "" then .error "taskId is required"
  else do
    let task ← s.getTaskByID workspace taskID
    let contract ← taskContract s workspace task
    return toTaskOutput u task contract

def getTaskResults (taskID : TaskID) (limit offset : Int) (includeInvalid : Bool) :
    Except String (TaskResultsOutput ν) :=
  if taskID = "" then .error "taskId is required"
  else do
    let (limit, offset) ← normalizePage limit offset
    let task ← s.getTaskByID workspace taskID
    let page := s.listResultPage workspace taskID limit offset includeInvalid
    let contract ← taskContract s workspace task
    return {
      taskID := task.id
      ruleID := task.ruleID
      ruleVersion := task.ruleVersionNumber
      outputSchema := sanitizeSchema u task.outputSchema
      source := (contract.map RuleVersionContract.source).getD Source.none
      batches := page.batches.map (toResultOutput u)
      invalid := page.invalidBatches.map (toResultOutput u)
      summary := page.summary.map (toResultOutput u)
      total := page.total
      limit := limit
      offset := offset }

def scheduleTypeOf (type : String) : Except String (Option ScheduleType) :=
  if type = "" then .ok none
  else if type = "once" then .ok (some .once)
  else if type = "cron" then .ok (some .cron)
  else .error "type must be once or cron"

def listSchedules (ruleID type : String) (enabled : Option Bool) (limit offset : Int) :
    Except String (ListSchedulesOutput ν) := do
  let (limit, offset) ← normalizePage limit offset
  let type ← scheduleTypeOf type
  let (schedules, total) := s.listSchedules workspace ruleID type enabled limit offset
  return ⟨schedules.map (toScheduleOutput u), total, limit, offset⟩

end Handlers

inductive ReadCall where
  | listRules (limit offset : Int)
  | getRule (ruleID : String) (version : Int)
  | getTask (taskID : TaskID)
  | getTaskResults (taskID : TaskID) (limit offset : Int) (includeInvalid : Bool)
  | listSchedules (ruleID type : String) (enabled : Option Bool) (limit offset : Int)

inductive Output (ν : Type) where
  | rules (output : ListRulesOutput)
  | rule (output : RuleVersionOutput ν)
  | task (output : TaskOutput ν)
  | results (output : TaskResultsOutput ν)
  | schedules (output : ListSchedulesOutput ν)

def read (u : Unicode) (p : Principal) (s : Store ν) (call : ReadCall) : Except String (Output ν) :=
  tool p "read" (match call with
    | .listRules limit offset => (listRules s p.workspace limit offset).map .rules
    | .getRule ruleID version => (getRule u s p.workspace ruleID version).map .rule
    | .getTask taskID => (getTask u s p.workspace taskID).map .task
    | .getTaskResults taskID limit offset includeInvalid =>
      (getTaskResults u s p.workspace taskID limit offset includeInvalid).map .results
    | .listSchedules ruleID type enabled limit offset =>
      (listSchedules u s p.workspace ruleID type enabled limit offset).map .schedules)

end Mcp

end Aegis
