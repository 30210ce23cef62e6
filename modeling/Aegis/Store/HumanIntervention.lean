import Aegis.Store.Execution

/-!
# Store.HumanIntervention

`human_intervention.go`: a worker that needs an operator suspends its attempt, and a decision, the
expiry of the request or the end of the attempt closes the wait.
-/

namespace Aegis

structure HumanInterventionInput where
  id : String
  taskID : TaskID
  attemptID : AttemptID
  workerID : WorkerID
  checkpointID : String
  checkpointName : String
  checkpoint : JSON
  type : HumanInterventionType
  prompt : String
  requestedAction : String
  targetOrigin : String
  expiresAt : Time
  createdAt : Time

namespace HumanInterventionInput

/-- `CreatedAt`, or the time of the call. -/
def createdAtOrNow (c : Ctx) (input : HumanInterventionInput) : Time :=
  if input.createdAt == Time.zero then c.now else input.createdAt

def checkpointRow (c : Ctx) (input : HumanInterventionInput) : Checkpoint where
  id := input.checkpointID
  workspaceID := c.workspace
  taskID := input.taskID
  workerID := input.workerID
  name := input.checkpointName
  payload := input.checkpoint.value
  createdAt := input.createdAtOrNow c

def row (c : Ctx) (input : HumanInterventionInput) : HumanIntervention where
  id := input.id
  workspaceID := c.workspace
  taskID := input.taskID
  attemptID := input.attemptID
  workerID := input.workerID
  checkpointID := input.checkpointID
  checkpoint := input.checkpoint.value
  type := input.type
  prompt := input.prompt
  requestedAction := input.requestedAction
  targetOrigin := input.targetOrigin
  status := .pending
  expiresAt := input.expiresAt
  createdAt := input.createdAtOrNow c
  decidedAt := none
  decidedBy := ""
  decisionNote := ""

end HumanInterventionInput

def Task.suspend (createdAt : Time) : TaskUpdate where
  set t := { t with status := .waitingHuman, leaseUntil := none, updatedAt := createdAt }
  keeps _ := rfl

def ExecutionAttempt.suspend : AttemptUpdate where
  set a := { a with status := .waitingHuman, leaseUntil := none }
  keeps _ := rfl

def Task.failWaiting (now : Time) (errorType message : String) : TaskUpdate where
  set t := { t with
    status := .failed, completedAt := some now, updatedAt := now, leaseUntil := none,
    errorType := some errorType, errorMessage := some message }
  keeps _ := rfl

def ExecutionAttempt.failWaiting (now : Time) (errorType message : String) : AttemptUpdate where
  set a := { a with
    status := .failed, completedAt := some now, leaseUntil := none, errorType := errorType,
    errorMessage := message }
  keeps _ := rfl

def Task.resume (now leaseUntil : Time) : TaskUpdate where
  set t := { t with status := .running, leaseUntil := some leaseUntil, updatedAt := now }
  keeps _ := rfl

def ExecutionAttempt.resume (leaseUntil : Time) : AttemptUpdate where
  set a := { a with status := .running, leaseUntil := some leaseUntil }
  keeps _ := rfl

namespace Store

/-- The transaction of `CreateHumanIntervention`. -/
def createHumanIntervention (c : Ctx) (input : HumanInterventionInput) (s : Store) :
    Except StoreError Store := do
  require (!input.id.isEmpty && !input.checkpointID.isEmpty && !input.taskID.isEmpty &&
    !input.attemptID.isEmpty && !input.workerID.isEmpty) .humanInterventionConflict
  require (input.createdAtOrNow c < input.expiresAt) .humanInterventionExpired
  let holds (t : Task) : Bool :=
    t.workspaceID == c.workspace && t.id == input.taskID &&
      t.currentAttemptID == some input.attemptID && t.workerID == some input.workerID &&
      t.status.isActive
  let active (a : ExecutionAttempt) : Bool :=
    a.workspaceID == c.workspace && a.id == input.attemptID && a.taskID == input.taskID &&
      a.workerID == input.workerID && a.status.isActive
  require (s.tasks.any holds && s.executionAttempts.any active) .humanInterventionConflict
  let s ← s.insertCheckpoint (input.checkpointRow c)
  let s ← s.insertIntervention (input.row c)
  require (s.tasks.any holds) .humanInterventionConflict
  let s := s.updateTasks holds (Task.suspend (input.createdAtOrNow c))
  require (s.executionAttempts.any active) .humanInterventionConflict
  let s ← s.updateAttempts active ExecutionAttempt.suspend
  pure (s.insertStatusUpdate {
    workspaceID := c.workspace
    taskID := input.taskID
    workerID := input.workerID
    status := .waitingHuman
    message := "operator decision required: " ++ input.type.text
    createdAt := input.createdAtOrNow c })

def waitsFor (workspace : WorkspaceID) (h : HumanIntervention) (t : Task) : Bool :=
  t.workspaceID == workspace && t.id == h.taskID && t.currentAttemptID == some h.attemptID &&
    t.workerID == some h.workerID && t.status == .waitingHuman

def suspendedBy (workspace : WorkspaceID) (h : HumanIntervention) (a : ExecutionAttempt) : Bool :=
  a.workspaceID == workspace && a.id == h.attemptID && a.taskID == h.taskID &&
    a.workerID == h.workerID && a.status == .waitingHuman

/-- `failWaitingHumanAttempt`, for the task, attempt and worker of `h`. -/
def failWaitingHumanAttempt (c : Ctx) (h : HumanIntervention) (errorType message : String)
    (s : Store) : Except StoreError Store := do
  require (s.tasks.any (waitsFor c.workspace h)) .humanInterventionConflict
  let s := s.updateTasks (waitsFor c.workspace h) (Task.failWaiting c.now errorType message)
  require (s.executionAttempts.any (suspendedBy c.workspace h)) .humanInterventionConflict
  let s ← s.updateAttempts (suspendedBy c.workspace h)
    (ExecutionAttempt.failWaiting c.now errorType message)
  pure (s.insertStatusUpdate {
    workspaceID := c.workspace
    taskID := h.taskID
    workerID := h.workerID
    status := .failed
    message := message
    createdAt := c.now })

/-- `UPDATE human_interventions SET ...
WHERE workspace_id = ? AND id = ? AND status = 'pending'`. -/
def decidePending (c : Ctx) (id : String) (status : HumanInterventionStatus)
    (decidedBy note : String) (s : Store) : Store :=
  s.decideInterventions (fun g =>
    g.workspaceID == c.workspace && g.id == id && g.status == .pending) status c.now decidedBy note

def expireHumanIntervention (c : Ctx) (s : Store) (h : HumanIntervention) : Except StoreError Store :=
  (s.decidePending c h.id .expired "system:expiry" "operator decision expired")
    |>.failWaitingHumanAttempt c h "HumanTimeout" "operator decision expired"

/-- The overdue interventions `expireHumanInterventions` reads; an empty `id` or `taskID` is no
filter. -/
def overdue (c : Ctx) (id : String) (taskID : TaskID) (s : Store) : List HumanIntervention :=
  s.humanInterventions.rows.filter fun h =>
    h.workspaceID == c.workspace && h.status == .pending && h.expiresAt ≤ c.now &&
      (id.isEmpty || h.id == id) && (taskID.isEmpty || h.taskID == taskID)

def expireHumanInterventions (c : Ctx) (id : String) (taskID : TaskID) (s : Store) :
    Except StoreError Store :=
  (s.overdue c id taskID).foldlM (expireHumanIntervention c) s

def resumeWaitingHumanAttempt (c : Ctx) (h : HumanIntervention) (leaseDuration : Duration)
    (s : Store) : Except StoreError Store := do
  let leaseUntil := c.now + leaseDuration
  require (s.tasks.any (waitsFor c.workspace h)) .humanInterventionConflict
  let s := s.updateTasks (waitsFor c.workspace h) (Task.resume c.now leaseUntil)
  require (s.executionAttempts.any (suspendedBy c.workspace h)) .humanInterventionConflict
  s.updateAttempts (suspendedBy c.workspace h) (ExecutionAttempt.resume leaseUntil)

/-- `DecideHumanIntervention`: the store it commits, and the error of a call that commits the
expiry of the request instead of the decision. -/
def decideHumanIntervention (c : Ctx) (id checkpointID : String)
    (decision : HumanInterventionStatus) (note actor : String) (leaseDuration : Duration)
    (s : Store) : Except StoreError (Store × Option StoreError) := do
  require (decision == .approved || decision == .rejected) .humanInterventionConflict
  match (s.humanInterventions.find? id).filter fun h => h.workspaceID == c.workspace with
  | none => .error .humanInterventionNotFound
  | some h =>
    require (h.status == .pending) .humanInterventionConflict
    if h.expiresAt ≤ c.now then
      let s ← s.expireHumanIntervention c h
      pure (s, some .humanInterventionExpired)
    else
      require (!checkpointID.isEmpty && checkpointID == h.checkpointID) .humanCheckpointConflict
      if decision == .approved then
        let s ← s.resumeWaitingHumanAttempt c h leaseDuration
        let s := s.decidePending c id decision actor note
        pure (s.insertStatusUpdate {
          workspaceID := c.workspace
          taskID := h.taskID
          workerID := h.workerID
          status := .running
          message := "operator approved checkpoint resume"
          createdAt := c.now }, none)
      else
        let s ← s.failWaitingHumanAttempt c h "HumanRejected"
          "operator rejected human intervention"
        pure (s.decidePending c id decision actor note, none)

end Store

end Aegis
