import Aegis.Mcp.Inputs
import Aegis.Mcp.Reads
import Aegis.Scheduler.Clock

/-!
# Mcp.Writes

The tools of `mcpapi/service.go` that store inputs: `create_task`, `create_schedule` and
`update_schedule`. Each gives the row that it stores.
-/

namespace Aegis

namespace Mcp

variable {ν : Type}

structure Config (ν : Type) where
  maxRetries : Int
  zones : Zones
  quote : String → String
  checks : Checks ν

structure Moment where
  now : Time
  newID : String

structure CreateTaskInput (ν : Type) where
  ruleID : String
  ruleVersion : Int
  inputs : Fields ν
  priority : String
  maxRetries : Option Int
  scheduledAt : String
  browserProfileID : String

structure CreateScheduleInput (ν : Type) where
  ruleID : String
  ruleVersion : Int
  name : String
  type : String
  expression : String
  enabled : Option Bool
  inputs : Fields ν
  priority : String
  maxRetries : Option Int
  missedRunPolicy : String
  browserProfileID : String
  timezone : String

structure UpdateScheduleInput (ν : Type) where
  scheduleID : String
  ruleVersion : Option Int
  name : Option String
  expression : Option String
  enabled : Option Bool
  inputs : Option (Fields ν)
  priority : Option String
  maxRetries : Option Int
  missedRunPolicy : Option String
  browserProfileID : Option String
  timezone : Option String

def normalizePriority (value : String) : Except String Priority :=
  if value = "" ∨ value = "normal" then .ok .normal
  else if value = "low" then .ok .low
  else if value = "high" then .ok .high
  else .error "priority must be low, normal, or high"

def normalizeCatchup (value : String) : Except String CatchupMode :=
  if value = "" ∨ value = "skip" then .ok .skip
  else if value = "run_once" then .ok .runOnce
  else .error "missedRunPolicy must be skip or run_once"

def normalizeRetries (value : Option Int) (default : Int) : Except String Int :=
  match value with
  | none => .ok default
  | some n => if n < 0 then .error "maxRetries cannot be negative" else .ok n

def executionInputError (message : String) : String :=
  "invalid rule version or inputs: " ++ message

section Bind

variable [DecidableEq ν]

structure Binding (ν : Type) where
  ruleVersion : String
  vars : Fields ν
  inputSchema : Fields ν
  outputSchema : Fields ν
  browserProfileID : String

/-- `BindTaskToRuleVersion`, for a version that is named. -/
def bindTaskToRuleVersion (cfg : Config ν) (s : Store ν) (workspace : WorkspaceID)
    (ruleID : String) (version : Int) (vars : Fields ν) (browserProfileID : String) :
    Except String (Binding ν) :=
  if ruleID = "" then .error "rule not found"
  else match s.getRuleVersion workspace ruleID version with
    | none => .error "approved rule version not found"
    | some v => do
      ensure (v.status == .approved) "approved rule version not found"
      let contract ← s.getRuleVersionContract workspace ruleID version
      let normalized ← applyAndValidateTaskInputs cfg.checks contract.inputSchema vars
      return {
        ruleVersion := v.versionLabel
        vars := normalized
        inputSchema := contract.inputSchema
        outputSchema := contract.outputSchema
        browserProfileID :=
          if browserProfileID = "" then contract.browserProfileID else browserProfileID }

def ruleExists (s : Store ν) (workspace : WorkspaceID) (ruleID : String) : Bool :=
  s.rules.any fun r => r.id == ruleID && r.workspaceID == workspace

end Bind

section Tools

variable [DecidableEq ν] (u : Unicode) (cfg : Config ν) (m : Moment) (s : Store ν)
  (workspace : WorkspaceID)

def scheduleNextRun (type : ScheduleType) (expression timezone : String) :
    Except String (String × Option Time) :=
  let timezone := if timezone = "" then "UTC" else timezone
  if (cfg.zones timezone).isNone then .error "timezone must be a valid IANA timezone"
  else match type with
    | .once =>
      match Time.parseRFC3339 expression with
      | none => .error "expression must be RFC3339 for a once schedule"
      | some time => .ok (timezone, some time)
    | .cron =>
      match parseCron expression with
      | .error e => .error ("invalid cron expression: " ++ e.text cfg.quote)
      | .ok _ =>
        match computeNextRunInLocation cfg.zones expression m.now timezone with
        | .error e => .error (e.text cfg.quote)
        | .ok next => .ok (timezone, some next)

def scheduledTime (text : String) : Except String (Option Time) :=
  if text = "" then .ok none
  else match Time.parseRFC3339 text with
    | none => .error "scheduledAt must be RFC3339"
    | some time => .ok (if m.now < time then some time else none)

/-- `create_task`: the row is bound again when it is inserted. -/
def createTask (input : CreateTaskInput ν) : Except String (Task ν) := do
  ensure (input.ruleID != "" && 0 < input.ruleVersion)
    "ruleId and a positive ruleVersion are required"
  let priority ← normalizePriority input.priority
  let maxRetries ← normalizeRetries input.maxRetries cfg.maxRetries
  let contract ← (s.getRuleVersionContract workspace input.ruleID input.ruleVersion).mapError
    executionInputError
  rejectMCPSecretValues u input.inputs contract.inputSchema
  let scheduledAt ← scheduledTime m input.scheduledAt
  let bound ← (bindTaskToRuleVersion cfg s workspace input.ruleID input.ruleVersion input.inputs
    input.browserProfileID).mapError executionInputError
  let bound ← bindTaskToRuleVersion cfg s workspace input.ruleID input.ruleVersion bound.vars
    bound.browserProfileID
  ensure (ruleExists s workspace input.ruleID) "rule not found"
  return {
    id := m.newID
    workspaceID := workspace
    ruleID := input.ruleID
    ruleVersion := bound.ruleVersion
    ruleVersionNumber := input.ruleVersion
    status := .pending
    priority := priority
    vars := bound.vars
    inputSchema := bound.inputSchema
    outputSchema := bound.outputSchema
    browserProfileID := bound.browserProfileID
    currentAttemptID := none
    retryCount := 0
    maxRetries := maxRetries
    cancelRequested := false
    createdAt := m.now
    updatedAt := m.now
    scheduledAt := scheduledAt
    completedAt := none
    errorType := none
    errorMessage := none }

def scheduleType (type : String) : Except String ScheduleType :=
  if type = "once" then .ok .once
  else if type = "cron" then .ok .cron
  else .error "type must be once or cron"

def createSchedule (input : CreateScheduleInput ν) : Except String (Schedule ν) := do
  ensure (input.ruleID != "" && 0 < input.ruleVersion && trimSpace input.name != "" &&
    input.expression != "") "ruleId, positive ruleVersion, name, and expression are required"
  let type ← scheduleType input.type
  let priority ← normalizePriority input.priority
  let maxRetries ← normalizeRetries input.maxRetries cfg.maxRetries
  let catchup ← normalizeCatchup input.missedRunPolicy
  let next ← scheduleNextRun cfg m type input.expression input.timezone
  let contract ← (s.getRuleVersionContract workspace input.ruleID input.ruleVersion).mapError
    executionInputError
  rejectMCPSecretValues u input.inputs contract.inputSchema
  let bound ← (bindTaskToRuleVersion cfg s workspace input.ruleID input.ruleVersion input.inputs
    input.browserProfileID).mapError executionInputError
  let bound ← bindTaskToRuleVersion cfg s workspace input.ruleID input.ruleVersion bound.vars
    bound.browserProfileID
  ensure (ruleExists s workspace input.ruleID) "rule not found"
  return {
    id := m.newID
    workspaceID := workspace
    ruleID := input.ruleID
    ruleVersion := bound.ruleVersion
    ruleVersionNumber := input.ruleVersion
    name := trimSpace input.name
    type := type
    expression := input.expression
    enabled := input.enabled.getD true
    nextRunAt := next.2
    lastRunAt := none
    vars := bound.vars
    inputSchema := bound.inputSchema
    browserProfileID := bound.browserProfileID
    timezone := next.1
    priority := priority
    maxRetries := maxRetries
    catchup := catchup
    createdAt := m.now
    updatedAt := m.now }

def applyUpdate (input : UpdateScheduleInput ν) (x : Schedule ν) : Except String (Schedule ν) := do
  ensure (input.name.all fun name => trimSpace name != "") "name cannot be empty"
  let priority ← (input.priority.map normalizePriority).getD (.ok x.priority)
  let maxRetries ← normalizeRetries input.maxRetries x.maxRetries
  let catchup ← (input.missedRunPolicy.map normalizeCatchup).getD (.ok x.catchup)
  let expression := input.expression.getD x.expression
  let (timezone, nextRunAt) ←
    if input.expression.isSome || input.timezone.isSome then
      scheduleNextRun cfg m x.type expression (input.timezone.getD x.timezone)
    else .ok (x.timezone, x.nextRunAt)
  ensure (input.ruleVersion.all (0 < ·)) "ruleVersion must be positive"
  return { x with
    name := (input.name.map trimSpace).getD x.name
    enabled := input.enabled.getD x.enabled
    priority := priority
    maxRetries := maxRetries
    catchup := catchup
    expression := expression
    timezone := timezone
    nextRunAt := nextRunAt
    ruleVersionNumber := input.ruleVersion.getD x.ruleVersionNumber }

def applyInputs (input : UpdateScheduleInput ν) (x : Schedule ν) : Except String (Schedule ν) :=
  match input.inputs with
  | none => .ok x
  | some inputs => do
    let contract ← (s.getRuleVersionContract workspace x.ruleID x.ruleVersionNumber).mapError
      executionInputError
    rejectMCPSecretValues u inputs contract.inputSchema
    return { x with vars := inputs }

def rebind (input : UpdateScheduleInput ν) (x : Schedule ν) : Except String (Schedule ν) :=
  let browserProfileID := input.browserProfileID.getD x.browserProfileID
  if input.ruleVersion.isSome || input.inputs.isSome || input.browserProfileID.isSome then do
    let bound ← (bindTaskToRuleVersion cfg s workspace x.ruleID x.ruleVersionNumber x.vars
      browserProfileID).mapError executionInputError
    return { x with
      ruleVersion := bound.ruleVersion
      vars := bound.vars
      inputSchema := bound.inputSchema
      browserProfileID := bound.browserProfileID }
  else .ok x

def getScheduleByID (id : String) : Except String (Schedule ν) :=
  match s.schedules.find? fun x => x.id == id && x.workspaceID == workspace with
  | none => .error "schedule not found"
  | some x => .ok x

def updateSchedule (input : UpdateScheduleInput ν) : Except String (Schedule ν) := do
  ensure (input.scheduleID != "") "scheduleId is required"
  let found ← getScheduleByID s workspace input.scheduleID
  let x ← applyUpdate cfg m input found
  let x ← applyInputs u s workspace input x
  let x ← rebind cfg s workspace input x
  ensure (ruleExists s workspace x.ruleID) "schedule not found"
  return { x with updatedAt := m.now }

end Tools

inductive WriteCall (ν : Type) where
  | createTask (input : CreateTaskInput ν)
  | createSchedule (input : CreateScheduleInput ν)
  | updateSchedule (input : UpdateScheduleInput ν)

def WriteCall.inputs : WriteCall ν → Fields ν
  | .createTask input => input.inputs
  | .createSchedule input => input.inputs
  | .updateSchedule input => input.inputs.getD []

structure Stored (ν : Type) where
  vars : Fields ν
  inputSchema : Fields ν

def write [DecidableEq ν] (u : Unicode) (cfg : Config ν) (m : Moment) (p : Principal)
    (s : Store ν) (call : WriteCall ν) : Except String (Stored ν) :=
  tool p "write" (match call with
    | .createTask input =>
      (createTask u cfg m s p.workspace input).map fun t => ⟨t.vars, t.inputSchema⟩
    | .createSchedule input =>
      (createSchedule u cfg m s p.workspace input).map fun x => ⟨x.vars, x.inputSchema⟩
    | .updateSchedule input =>
      (updateSchedule u cfg m s p.workspace input).map fun x => ⟨x.vars, x.inputSchema⟩)

end Mcp

end Aegis
