/-!
# Models

The rows of the task domain (`internal/models`), one structure a table, with the columns the
modelled statements read or write.

Instants are nanoseconds since the Unix epoch and durations are nanoseconds; a nullable column is
an `Option`. `JSON` is the raw text of a JSON column, and `vars` is the column `variables`.
-/

namespace Aegis

abbrev WorkspaceID := String
abbrev TaskID := String
abbrev WorkerID := String
abbrev AttemptID := String
abbrev Time := Int
abbrev Duration := Int
abbrev JSON := String

/-- `JSON.Value`: an empty document is written as the empty object. -/
def JSON.value (j : JSON) : JSON := if j.isEmpty then "\x7b\x7d" else j

/-- The zero `time.Time`: the first of January of year 1. -/
def Time.zero : Time := -62135596800000000000

/-- What a store call takes from its context and the clock: `workspaceID(ctx)` and
`time.Now().UTC()`. -/
structure Ctx where
  workspace : WorkspaceID
  now : Time

/-! ## Tasks -/

inductive TaskStatus where
  | pending | leased | running | done | failed | cancelled | waitingHuman | deadLetter
deriving DecidableEq

/-- `status IN ('leased','running')`. -/
def TaskStatus.isActive : TaskStatus → Bool
  | .leased | .running => true
  | _ => false

/-- `status IN ('leased','running','waiting_for_human')`. -/
def TaskStatus.isHeld : TaskStatus → Bool
  | .leased | .running | .waitingHuman => true
  | _ => false

/-- The statuses `SubmitStatus` admits. -/
def TaskStatus.isReportable : TaskStatus → Bool
  | .running | .done | .failed | .cancelled | .deadLetter => true
  | _ => false

def TaskStatus.isTerminal : TaskStatus → Bool
  | .done | .failed | .cancelled | .deadLetter => true
  | _ => false

def TaskStatus.mayCloseHumanWait : TaskStatus → Bool
  | .failed | .cancelled | .deadLetter => true
  | _ => false

/-- The statuses `CancelTask` cancels at once. -/
def TaskStatus.isCancellable : TaskStatus → Bool
  | .pending | .leased | .waitingHuman => true
  | _ => false

/-- The statuses `RetryTask` accepts. -/
def TaskStatus.isRetryable : TaskStatus → Bool
  | .failed | .deadLetter | .cancelled => true
  | _ => false

inductive Priority where
  | high | normal | low
  | other (name : String)
deriving DecidableEq

/-- `CASE t.priority WHEN 'high' THEN 0 WHEN 'normal' THEN 1 ELSE 2 END`. -/
def Priority.rank : Priority → Nat
  | .high => 0
  | .normal => 1
  | _ => 2

structure Task where
  id : TaskID
  workspaceID : WorkspaceID
  ruleID : String
  ruleVersion : String
  ruleVersionNumber : Int
  status : TaskStatus
  priority : Priority
  vars : JSON
  inputSchema : JSON
  workerID : Option WorkerID
  leaseUntil : Option Time
  retryCount : Int
  maxRetries : Int
  outputSchema : JSON
  sendPolicy : JSON
  createdAt : Time
  updatedAt : Time
  scheduledAt : Option Time
  completedAt : Option Time
  errorType : Option String
  errorMessage : Option String
  scheduleID : Option String
  currentAttemptID : Option AttemptID
  browserProfileID : String
  cancelRequested : Bool
deriving DecidableEq

/-- The columns no statement on an existing task may change: its key, and what
`trg_versioned_task_contract_immutable` protects. -/
def Task.contract (t : Task) : TaskID × WorkspaceID × String × String × Int × JSON × JSON × JSON × String :=
  (t.id, t.workspaceID, t.ruleID, t.ruleVersion, t.ruleVersionNumber, t.vars, t.inputSchema,
    t.outputSchema, t.browserProfileID)

theorem Task.id_of_contract {t u : Task} (h : t.contract = u.contract) : t.id = u.id :=
  congrArg Prod.fst h

theorem Task.workspaceID_of_contract {t u : Task} (h : t.contract = u.contract) :
    t.workspaceID = u.workspaceID :=
  congrArg (fun c => c.2.1) h

inductive ExecutionAttemptStatus where
  | leased | running | waitingHuman | succeeded | failed | cancelled | leaseExpired | deadLetter
deriving DecidableEq

/-- `status IN ('leased','running')`. -/
def ExecutionAttemptStatus.isActive : ExecutionAttemptStatus → Bool
  | .leased | .running => true
  | _ => false

/-- `status IN ('leased','running','waiting_for_human')`: the non-terminal statuses. -/
def ExecutionAttemptStatus.isOpen : ExecutionAttemptStatus → Bool
  | .leased | .running | .waitingHuman => true
  | _ => false

structure ExecutionAttempt where
  id : AttemptID
  workspaceID : WorkspaceID
  taskID : TaskID
  number : Nat
  workerID : WorkerID
  status : ExecutionAttemptStatus
  leaseUntil : Option Time
  startedAt : Time
  completedAt : Option Time
  errorType : String
  errorMessage : String

/-- The columns `trg_execution_attempts_identity_immutable` protects. -/
def ExecutionAttempt.identity (a : ExecutionAttempt) :
    AttemptID × WorkspaceID × TaskID × Nat × WorkerID × Time :=
  (a.id, a.workspaceID, a.taskID, a.number, a.workerID, a.startedAt)

theorem ExecutionAttempt.id_of_identity {a b : ExecutionAttempt} (h : a.identity = b.identity) :
    a.id = b.id :=
  congrArg Prod.fst h

theorem ExecutionAttempt.taskID_of_identity {a b : ExecutionAttempt}
    (h : a.identity = b.identity) : a.taskID = b.taskID :=
  congrArg (fun i => i.2.2.1) h

/-- The outcome columns, which `trg_execution_attempts_terminal_immutable` freezes once the status
is terminal. -/
def ExecutionAttempt.outcome (a : ExecutionAttempt) :
    ExecutionAttemptStatus × Option Time × String × String × Option Time :=
  (a.status, a.completedAt, a.errorType, a.errorMessage, a.leaseUntil)

/-- The attempt status an update of the task status carries over (`attemptStatus` of
`UpdateTaskStatus`). -/
def TaskStatus.attemptStatus : TaskStatus → ExecutionAttemptStatus
  | .waitingHuman => .waitingHuman
  | .done => .succeeded
  | .failed => .failed
  | .cancelled => .cancelled
  | .deadLetter => .deadLetter
  | _ => .running

inductive HumanInterventionStatus where
  | pending | approved | rejected | expired | cancelled
deriving DecidableEq

/-- `request_type`, with the values its `CHECK` admits. -/
inductive HumanInterventionType where
  | captcha | twoFactor | confirmation | generic

def HumanInterventionType.text : HumanInterventionType → String
  | .captcha => "captcha"
  | .twoFactor => "2fa"
  | .confirmation => "confirmation"
  | .generic => "generic"

structure HumanIntervention where
  id : String
  workspaceID : WorkspaceID
  taskID : TaskID
  attemptID : AttemptID
  workerID : WorkerID
  checkpointID : String
  checkpoint : JSON
  type : HumanInterventionType
  prompt : String
  requestedAction : String
  targetOrigin : String
  status : HumanInterventionStatus
  expiresAt : Time
  createdAt : Time
  decidedAt : Option Time
  decidedBy : String
  decisionNote : String

structure Checkpoint where
  id : String
  workspaceID : WorkspaceID
  taskID : TaskID
  workerID : WorkerID
  name : String
  payload : JSON
  createdAt : Time

structure TaskStatusUpdate where
  workspaceID : WorkspaceID
  taskID : TaskID
  workerID : WorkerID
  status : TaskStatus
  message : String
  createdAt : Time

inductive ResultKind where
  | batch | summary
  | other (text : String)
deriving DecidableEq

structure Result where
  id : String
  workspaceID : WorkspaceID
  taskID : TaskID
  workerID : WorkerID
  attemptID : AttemptID
  idempotencyKey : String
  sequence : Int
  kind : ResultKind
  payload : JSON
  payloadHash : String
  valid : Bool
  validationError : String
  immediate : Bool
  createdAt : Time

inductive RuleApprovalStatus where
  | pending | approved | rejected
deriving DecidableEq

structure Rule where
  id : String
  workspaceID : WorkspaceID
  enabled : Bool
  priority : Priority
  approvalStatus : RuleApprovalStatus
deriving DecidableEq

structure RuleVersion where
  workspaceID : WorkspaceID
  ruleID : String
  version : Int
  versionLabel : String
  status : RuleApprovalStatus

def RuleVersion.key (v : RuleVersion) : WorkspaceID × String × Int :=
  (v.workspaceID, v.ruleID, v.version)

structure RuleVersionContract where
  workspaceID : WorkspaceID
  ruleID : String
  version : Int
  inputSchema : JSON
  outputSchema : JSON
  browserProfileID : String

def RuleVersionContract.key (c : RuleVersionContract) : WorkspaceID × String × Int :=
  (c.workspaceID, c.ruleID, c.version)

inductive ScheduleType where
  | once | cron
deriving DecidableEq

inductive CatchupMode where
  | skip | runOnce
deriving DecidableEq

structure Schedule where
  id : String
  workspaceID : WorkspaceID
  ruleID : String
  ruleVersion : String
  ruleVersionNumber : Int
  name : String
  type : ScheduleType
  expression : String
  enabled : Bool
  nextRunAt : Option Time
  lastRunAt : Option Time
  vars : JSON
  inputSchema : JSON
  browserProfileID : String
  timezone : String
  priority : Priority
  maxRetries : Int
  catchup : CatchupMode
  createdAt : Time
  updatedAt : Time
deriving DecidableEq

structure SchedulerLock where
  workspaceID : WorkspaceID
  name : String
  owner : String
  expiresAt : Time
  acquiredAt : Time

def SchedulerLock.key (l : SchedulerLock) : WorkspaceID × String := (l.workspaceID, l.name)

end Aegis
