import Aegis.Lib.Outcome
import Aegis.Lib.Table
import Aegis.Models

/-!
# Store.Db

The database of the task domain and the statements the store sends to it.

A store call that runs in a transaction is a function to `Except StoreError`: an error is a
rollback, so the caller keeps the state it had. Constraints and triggers of the schema are part of
the statements: `updateTasks` and `updateAttempts` only take `SET` clauses that leave the protected
columns alone, and `updateAttempts` raises `trg_execution_attempts_terminal_immutable`.
-/

namespace Aegis

/-- The errors of a store call; `constraint` is any violated constraint or trigger. -/
inductive StoreError where
  | taskNotFound | ruleNotFound | leaseConflict | noTaskAvailable
  | taskNotCancellable | taskNotRetryable
  | ruleVersionNotApproved | ruleVersionNotFound
  | executionAttemptConflict | resultConflict
  | incompleteAttemptResults (valid summary invalid : Nat)
  | humanInterventionNotFound | humanInterventionConflict | humanCheckpointConflict
  | humanInterventionExpired
  | invalidTaskInput (message : String)
  | constraint (message : String)
deriving DecidableEq

/-- The text of the error (`errors.New`, and the `fmt.Errorf` around it). -/
def StoreError.text : StoreError → String
  | .taskNotFound => "task not found"
  | .ruleNotFound => "rule not found"
  | .leaseConflict => "task already leased by another worker"
  | .noTaskAvailable => "no task available"
  | .taskNotCancellable => "task cannot be cancelled in its current state"
  | .taskNotRetryable => "task cannot be retried in its current state"
  | .ruleVersionNotApproved => "approved rule version not found"
  | .ruleVersionNotFound => "rule version not found"
  | .executionAttemptConflict => "execution attempt is not active for this worker"
  | .resultConflict => "result idempotency or sequence conflict"
  | .incompleteAttemptResults valid summary invalid =>
    "execution attempt results are incomplete: require at least one valid batch, " ++
      "exactly one summary, and zero invalid batches (valid=" ++ toString valid ++
      " summary=" ++ toString summary ++ " invalid=" ++ toString invalid ++ ")"
  | .humanInterventionNotFound => "human intervention not found"
  | .humanInterventionConflict => "human intervention is not active for this attempt"
  | .humanCheckpointConflict => "human intervention checkpoint does not match"
  | .humanInterventionExpired => "human intervention has expired"
  | .invalidTaskInput message => message
  | .constraint message => message

/-- Stop the call with `e` unless `b`. -/
def require (b : Bool) (e : StoreError) : Except StoreError Unit := if b then .ok () else .error e

@[simp] theorem require_eq_ok {b : Bool} {e : StoreError} {u : Unit} :
    require b e = .ok u ↔ b = true := by
  cases b <;> simp [require]

/-- The `SET` clauses the triggers let through: `trg_versioned_task_contract_immutable` and
`trg_execution_attempts_identity_immutable` never fire. -/
abbrev TaskUpdate := SetClause Task.contract
abbrev AttemptUpdate := SetClause ExecutionAttempt.identity

def TaskUpdate.onID (f : TaskUpdate) : SetClause Task.id :=
  ⟨f.set, fun t => Task.id_of_contract (f.keeps t)⟩

def AttemptUpdate.onID (f : AttemptUpdate) : SetClause ExecutionAttempt.id :=
  ⟨f.set, fun a => ExecutionAttempt.id_of_identity (f.keeps a)⟩

@[simp] theorem TaskUpdate.onID_set (f : TaskUpdate) : f.onID.set = f.set := rfl

@[simp] theorem AttemptUpdate.onID_set (f : AttemptUpdate) : f.onID.set = f.set := rfl

structure Store where
  rules : Table Rule.id
  ruleVersions : Table RuleVersion.key
  ruleVersionContracts : Table RuleVersionContract.key
  schedules : Table Schedule.id
  schedulerLocks : Table SchedulerLock.key
  tasks : Table Task.id
  executionAttempts : Table ExecutionAttempt.id
  humanInterventions : Table HumanIntervention.id
  checkpoints : Table Checkpoint.id
  taskStatusUpdates : List TaskStatusUpdate
  results : Table Result.id

namespace Store

/-- `UPDATE tasks SET f WHERE p`. -/
def updateTasks (s : Store) (p : Task → Bool) (f : TaskUpdate) : Store :=
  { s with tasks := s.tasks.update p f.onID }

/-- `UPDATE execution_attempts SET f WHERE p`: refused when it would change the outcome of a
terminal attempt. -/
def updateAttempts (s : Store) (p : ExecutionAttempt → Bool)
    (f : AttemptUpdate) : Except StoreError Store :=
  if s.executionAttempts.any fun a => p a && !a.status.isOpen && (f.set a).outcome != a.outcome then
    .error (.constraint "terminal execution attempt is immutable")
  else .ok { s with executionAttempts := s.executionAttempts.update p f.onID }

/-- `SET status, decided_at, decided_by, decision_note`. -/
def decision (status : HumanInterventionStatus) (now : Time) (decidedBy note : String) :
    SetClause HumanIntervention.id where
  set h := { h with
    status := status, decidedAt := some now, decidedBy := decidedBy, decisionNote := note }
  keeps _ := rfl

/-- `UPDATE human_interventions SET ... WHERE p`. -/
def decideInterventions (s : Store) (p : HumanIntervention → Bool)
    (status : HumanInterventionStatus) (now : Time) (decidedBy note : String) : Store :=
  { s with
    humanInterventions := s.humanInterventions.update p (decision status now decidedBy note) }

/-- `INSERT INTO tasks`: the key, and the schedule it refers to. -/
def insertTask (s : Store) (t : Task) : Except StoreError Store := do
  require (t.scheduleID.all fun id => s.schedules.any fun sch => sch.id == id)
    (.constraint "FOREIGN KEY constraint failed")
  match s.tasks.insert? t with
  | none => .error (.constraint "UNIQUE constraint failed: tasks.id")
  | some tasks => pure { s with tasks }

/-- `INSERT INTO execution_attempts`, with `UNIQUE (workspace_id, task_id, attempt_number)` and
`trg_execution_attempts_task_insert`. -/
def insertAttempt (s : Store) (a : ExecutionAttempt) : Except StoreError Store := do
  require (s.tasks.any fun t => t.workspaceID == a.workspaceID && t.id == a.taskID)
    (.constraint "task not found in workspace")
  require (!s.executionAttempts.any fun b =>
      b.workspaceID == a.workspaceID && b.taskID == a.taskID && b.number == a.number)
    (.constraint "UNIQUE constraint failed: execution_attempts")
  match s.executionAttempts.insert? a with
  | none => .error (.constraint "UNIQUE constraint failed: execution_attempts.id")
  | some executionAttempts => pure { s with executionAttempts }

/-- `INSERT INTO checkpoints`. -/
def insertCheckpoint (s : Store) (c : Checkpoint) : Except StoreError Store :=
  match s.checkpoints.insert? c with
  | none => .error (.constraint "UNIQUE constraint failed: checkpoints.id")
  | some checkpoints => .ok { s with checkpoints }

/-- `INSERT INTO human_interventions`: the key, and `idx_human_interventions_active` with one
pending row a task. A violation of either is reported as a conflict. -/
def insertIntervention (s : Store) (h : HumanIntervention) : Except StoreError Store := do
  require (!s.humanInterventions.any fun g =>
      g.workspaceID == h.workspaceID && g.taskID == h.taskID && g.status == .pending)
    .humanInterventionConflict
  match s.humanInterventions.insert? h with
  | none => .error .humanInterventionConflict
  | some humanInterventions => pure { s with humanInterventions }

/-- `INSERT INTO task_status_updates`; the fresh key is not kept. -/
def insertStatusUpdate (s : Store) (u : TaskStatusUpdate) : Store :=
  { s with taskStatusUpdates := s.taskStatusUpdates ++ [u] }

/-- `SELECT current_attempt_id FROM tasks WHERE id = ? AND workspace_id = ?`. -/
def currentAttemptID (s : Store) (c : Ctx) (taskID : TaskID) : Option AttemptID :=
  ((s.tasks.find? taskID).filter fun t => t.workspaceID == c.workspace).bind
    Task.currentAttemptID

def getTaskByID (s : Store) (c : Ctx) (id : TaskID) : Except StoreError Task :=
  match (s.tasks.find? id).filter fun t => t.workspaceID == c.workspace with
  | none => .error .taskNotFound
  | some t => .ok t

end Store

end Aegis
