import Mathlib.Data.List.MinMax
import Mathlib.Data.Prod.Lex
import Mathlib.Data.String.Basic
import Aegis.Store.RuleVersion

/-!
# Store.Task

The task operations of `store.go`, one definition a function under its name. A function that
changes the store returns the store it commits; an error is a rollback.
-/

namespace Aegis

/-- The arguments of a claim. `attemptID` is the fresh `NewID()`, and rows that `ORDER BY` does not
tell apart are met by `tie` and then by key, which is any order as `tie` varies. -/
structure ClaimRequest where
  workerID : WorkerID
  browserProfileID : Option String
  leaseDuration : Duration
  attemptID : AttemptID
  tie : TaskID → Nat

structure TaskClaim where
  task : Task
  ruleVersion : Option (RuleVersion × RuleVersionContract)

/-! ## Assignments

The `SET` clauses of the statements below, on the rows they rewrite. -/

section Assignments

variable (now : Time)

def Task.leaseTo (worker : WorkerID) (leaseUntil : Time) (attempt : AttemptID) : TaskUpdate where
  set t := { t with
    status := .leased, workerID := some worker, leaseUntil := some leaseUntil,
    currentAttemptID := some attempt, updatedAt := now }
  keeps _ := rfl

def Task.renew (leaseUntil : Time) : TaskUpdate where
  set t := { t with leaseUntil := some leaseUntil, updatedAt := now }
  keeps _ := rfl

def ExecutionAttempt.renew (leaseUntil : Time) : AttemptUpdate where
  set a := { a with leaseUntil := some leaseUntil }
  keeps _ := rfl

def Task.requeue : TaskUpdate where
  set t := { t with
    status := .pending, workerID := none, leaseUntil := none, updatedAt := now,
    retryCount := t.retryCount + 1 }
  keeps _ := rfl

def ExecutionAttempt.expireLease : AttemptUpdate where
  set a := { a with
    status := .leaseExpired, completedAt := some now, errorType := "LeaseExpired",
    errorMessage := "task lease expired", leaseUntil := none }
  keeps _ := rfl

def Task.cancel : TaskUpdate where
  set t := { t with status := .cancelled, updatedAt := now, completedAt := some now }
  keeps _ := rfl

def Task.requestCancel : TaskUpdate where
  set t := { t with cancelRequested := true, updatedAt := now }
  keeps _ := rfl

def ExecutionAttempt.cancel : AttemptUpdate where
  set a := { a with status := .cancelled, completedAt := some now, leaseUntil := none }
  keeps _ := rfl

def Task.retry : TaskUpdate where
  set t := { t with
    status := .pending, retryCount := 0, workerID := none, leaseUntil := none,
    completedAt := none, errorType := none, errorMessage := none, updatedAt := now }
  keeps _ := rfl

/-- The error column after a report: failure evidence is kept unless a non-empty text replaces it,
and a success clears it. -/
def reportedError (status : TaskStatus) (text : String) (old : Option String) : Option String :=
  if status.isTerminal && status != .done then (if text.isEmpty then old else some text)
  else if status.isTerminal && status == .done then none
  else old

def Task.report (status : TaskStatus) (message errorType : String) : TaskUpdate where
  set t := { t with
    status := status
    updatedAt := now
    completedAt := if status.isTerminal then some now else t.completedAt
    errorType := reportedError status errorType t.errorType
    errorMessage := reportedError status message t.errorMessage
    leaseUntil := if status.isTerminal || status == .waitingHuman then none else t.leaseUntil }
  keeps _ := rfl

def ExecutionAttempt.report (status : TaskStatus) (message errorType : String) : AttemptUpdate where
  set a := { a with
    status := status.attemptStatus
    completedAt := if status.isTerminal then some now else a.completedAt
    errorType := if status.isTerminal then errorType else a.errorType
    errorMessage := if status.isTerminal then message else a.errorMessage
    leaseUntil := if status.isTerminal || status == .waitingHuman then none else a.leaseUntil }
  keeps _ := rfl

end Assignments

namespace Store

def versionNewTask (env : Env) (c : Ctx) (t : Task) (s : Store) : Except StoreError Task :=
  if t.ruleVersionNumber > 0 then bindTaskToRuleVersion env c t t.ruleVersionNumber s
  else .ok { t with ruleVersionNumber := 1, inputSchema := t.inputSchema.value }

/-- The row `CreateTask` inserts; the columns its `INSERT` does not name are null. -/
def newTask (c : Ctx) (t : Task) : Task :=
  { t with
    workspaceID := c.workspace
    vars := t.vars.value
    inputSchema := t.inputSchema.value
    outputSchema := t.outputSchema.value
    sendPolicy := t.sendPolicy.value
    completedAt := none
    errorType := none
    errorMessage := none }

def createTask (env : Env) (c : Ctx) (t : Task) (s : Store) : Except StoreError Store := do
  let t ← s.versionNewTask env c t
  require (s.rules.any fun r => r.id == t.ruleID && r.workspaceID == c.workspace) .ruleNotFound
  s.insertTask (newTask c t)

/-! ## Claiming -/

def activeCount (s : Store) (workspace : WorkspaceID) (worker : WorkerID) : Nat :=
  s.tasks.rows.countP fun t =>
    t.workspaceID == workspace && t.workerID == some worker && t.status.isActive

/-- `profileFilter`. -/
def profileMatches (profile : Option String) (t : Task) : Bool :=
  match profile with
  | none => true
  | some p => t.browserProfileID == "" || t.browserProfileID == p

/-- `profileOrder`. -/
def profileRank (profile : Option String) (t : Task) : Nat :=
  match profile with
  | none => 0
  | some p => if p.isEmpty || t.browserProfileID == p then 0 else 1

/-- The `WHERE` clause of the candidate query. -/
def isCandidate (s : Store) (c : Ctx) (profile : Option String) (t : Task) : Bool :=
  t.workspaceID == c.workspace && s.rules.any (fun r =>
      r.id == t.ruleID && r.workspaceID == t.workspaceID && r.approvalStatus == .approved) &&
    t.status == .pending && t.scheduledAt.all (· ≤ c.now) && t.leaseUntil.all (· ≤ c.now) &&
    profileMatches profile t

def candidates (s : Store) (c : Ctx) (profile : Option String) : List Task :=
  s.tasks.rows.filter (s.isCandidate c profile)

-- named, since an instance found by search would depend on what a module imports
instance : LinearOrder Time := Int.instLinearOrder
instance : Preorder Time := Int.instLinearOrder.toPreorder

/-- The `ORDER BY` clause of the candidate query, and the order in which the database meets rows
that it does not tell apart. -/
def queueKey (r : ClaimRequest) (t : Task) : Nat ×ₗ Nat ×ₗ Time ×ₗ Nat ×ₗ TaskID :=
  toLex (t.priority.rank, toLex (profileRank r.browserProfileID t,
      toLex (t.createdAt, toLex (r.tie t.id, t.id))))

/-- `SELECT COALESCE(MAX(attempt_number), 0) + 1`. -/
def nextAttemptNumber (s : Store) (c : Ctx) (taskID : TaskID) : Nat :=
  ((s.executionAttempts.rows.filter fun a =>
    a.workspaceID == c.workspace && a.taskID == taskID).map ExecutionAttempt.number).max?.getD 0 + 1

/-- The attempt a claim of `row` inserts. -/
def claimedAttempt (s : Store) (c : Ctx) (r : ClaimRequest) (row : Task) : ExecutionAttempt where
  id := r.attemptID
  workspaceID := c.workspace
  taskID := row.id
  number := s.nextAttemptNumber c row.id
  workerID := r.workerID
  status := .leased
  leaseUntil := some (c.now + r.leaseDuration)
  startedAt := c.now
  completedAt := none
  errorType := ""
  errorMessage := ""

/-- `id = ? AND workspace_id = ? AND status = 'pending'`. -/
def isPending (c : Ctx) (id : TaskID) (t : Task) : Bool :=
  t.id == id && t.workspaceID == c.workspace && t.status == .pending

def claimTask (maxWorkerTasks : Int) (c : Ctx) (r : ClaimRequest) (s : Store) :
    Except StoreError (Store × TaskClaim) := do
  require ((s.activeCount c.workspace r.workerID : Int) < maxWorkerTasks) .noTaskAvailable
  match (s.candidates c r.browserProfileID).argmin (queueKey r) with
  | none => .error .noTaskAvailable
  | some row =>
    let s ← s.insertAttempt (s.claimedAttempt c r row)
    require (s.tasks.any (isPending c row.id)) .noTaskAvailable
    let s := s.updateTasks (isPending c row.id)
      (Task.leaseTo c.now r.workerID (c.now + r.leaseDuration) r.attemptID)
    let task ← s.getTaskByID c row.id
    let version ← s.resolveTaskRuleVersionContract c task
    require (version.all fun v => v.1.status == .approved) .ruleVersionNotApproved
    pure (s, { task, ruleVersion := version })

def renewLease (c : Ctx) (taskID : TaskID) (workerID : WorkerID) (leaseDuration : Duration)
    (s : Store) : Except StoreError Store := do
  let leaseUntil := c.now + leaseDuration
  let held (t : Task) : Bool :=
    t.id == taskID && t.workspaceID == c.workspace && t.workerID == some workerID && t.status.isHeld
  require (s.tasks.any held) .leaseConflict
  let s := s.updateTasks held (Task.renew c.now leaseUntil)
  s.updateAttempts (fun a =>
      some a.id == s.currentAttemptID c taskID && a.workspaceID == c.workspace &&
        a.workerID == workerID && a.status.isOpen)
    (ExecutionAttempt.renew leaseUntil)

def releaseTask (c : Ctx) (taskID : TaskID) (s : Store) : Except StoreError Store := do
  let s ← s.updateAttempts (fun a =>
      some a.id == s.currentAttemptID c taskID && a.workspaceID == c.workspace && a.status.isActive)
    (ExecutionAttempt.expireLease c.now)
  let active (t : Task) : Bool :=
    t.id == taskID && t.workspaceID == c.workspace && t.status.isActive
  require (s.tasks.any active) .leaseConflict
  pure (s.updateTasks active (Task.requeue c.now))

def listExpiredLeases (c : Ctx) (before : Time) (s : Store) : List TaskID :=
  (s.tasks.rows.filter fun t =>
    t.workspaceID == c.workspace && t.status.isActive && t.leaseUntil.any (· ≤ before)).map Task.id

def updateTaskStatus (c : Ctx) (taskID : TaskID) (workerID : WorkerID) (status : TaskStatus)
    (message errorType : String) (s : Store) : Except StoreError Store := do
  let reportable (t : Task) : Bool :=
    t.id == taskID && t.workspaceID == c.workspace && t.workerID == some workerID &&
      (t.status.isActive || (t.status == .waitingHuman && status.mayCloseHumanWait))
  require (s.tasks.any reportable) .leaseConflict
  let s := s.updateTasks reportable (Task.report c.now status message errorType)
  let s :=
    if status.mayCloseHumanWait then
      s.decideInterventions (fun h =>
          h.workspaceID == c.workspace && h.taskID == taskID &&
            some h.attemptID == s.currentAttemptID c taskID && h.status == .pending)
        .cancelled c.now "system:worker_terminal"
        "worker ended the attempt while waiting for operator"
    else s
  s.updateAttempts (fun a =>
      some a.id == s.currentAttemptID c taskID && a.workspaceID == c.workspace && a.workerID == workerID)
    (ExecutionAttempt.report c.now status message errorType)

def cancelTask (c : Ctx) (id : TaskID) (s : Store) : Except StoreError Store :=
  let here (t : Task) : Bool := t.id == id && t.workspaceID == c.workspace
  let cancellable (t : Task) : Bool := here t && t.status.isCancellable
  let running (t : Task) : Bool := here t && t.status == .running
  if s.tasks.any cancellable then do
    let s := s.updateTasks cancellable (Task.cancel c.now)
    let s ← s.updateAttempts (fun a =>
        some a.id == s.currentAttemptID c id && a.workspaceID == c.workspace &&
          (a.status == .leased || a.status == .waitingHuman))
      (ExecutionAttempt.cancel c.now)
    pure (s.decideInterventions (fun h =>
        h.workspaceID == c.workspace && h.taskID == id && h.status == .pending)
      .cancelled c.now "system:task_cancelled" "task cancelled while waiting for operator")
  else if s.tasks.any running then
    .ok (s.updateTasks running (Task.requestCancel c.now))
  else if s.tasks.any here then .error .taskNotCancellable
  else .error .taskNotFound

def retryTask (c : Ctx) (id : TaskID) (s : Store) : Except StoreError Store :=
  let here (t : Task) : Bool := t.id == id && t.workspaceID == c.workspace
  let retryable (t : Task) : Bool := here t && t.status.isRetryable
  if s.tasks.any retryable then
    .ok (s.updateTasks retryable (Task.retry c.now))
  else if s.tasks.any here then .error .taskNotRetryable
  else .error .taskNotFound

section Cases

variable {env : Env} {s s' : Store} {c : Ctx} {maxWorkerTasks : Int} {r : ClaimRequest}
  {claim : TaskClaim}

theorem versionNewTask_keeps {t t' : Task} (h : s.versionNewTask env c t = .ok t') :
    t'.id = t.id ∧ t'.status = t.status ∧ t'.currentAttemptID = t.currentAttemptID ∧
      t'.cancelRequested = t.cancelRequested ∧ t'.workerID = t.workerID ∧
      t'.scheduleID = t.scheduleID ∧ t'.scheduledAt = t.scheduledAt ∧ t'.ruleID = t.ruleID := by
  unfold versionNewTask at h
  split at h
  · simp only [bindTaskToRuleVersion, bind_eq_ok, require_eq_ok] at h
    obtain ⟨-, -, w, -, h⟩ := h
    split at h
    · cases h
    · simp only [bind_eq_ok, require_eq_ok, pure_eq_ok] at h
      obtain ⟨-, -, k, -, n, -, rfl⟩ := h
      exact ⟨rfl, rfl, rfl, rfl, rfl, rfl, rfl, rfl⟩
  · cases h
    exact ⟨rfl, rfl, rfl, rfl, rfl, rfl, rfl, rfl⟩

theorem createTask_cases {t : Task} (h : s.createTask env c t = .ok s') :
    ∃ u, u.id = t.id ∧ u.workspaceID = c.workspace ∧ u.status = t.status ∧
      u.currentAttemptID = t.currentAttemptID ∧ u.cancelRequested = t.cancelRequested ∧
      u.workerID = t.workerID ∧ u.scheduleID = t.scheduleID ∧ u.scheduledAt = t.scheduledAt ∧
      s.insertTask u = .ok s' := by
  simp only [createTask, bind_eq_ok, require_eq_ok] at h
  obtain ⟨t₁, ht₁, -, -, h⟩ := h
  obtain ⟨h₁, h₂, h₃, h₄, h₅, h₆, h₇, -⟩ := versionNewTask_keeps ht₁
  exact ⟨newTask c t₁, h₁, rfl, h₂, h₃, h₄, h₅, h₆, h₇, h⟩

theorem createTask_rule {t : Task} (h : s.createTask env c t = .ok s') :
    s.rules.any (fun r => r.id == t.ruleID && r.workspaceID == c.workspace) = true := by
  simp only [createTask, bind_eq_ok, require_eq_ok] at h
  obtain ⟨t₁, ht₁, -, hrule, -⟩ := h
  obtain ⟨-, -, -, -, -, -, -, hid⟩ := versionNewTask_keeps ht₁
  rwa [hid] at hrule

theorem mem_candidates {profile : Option String} {t : Task} :
    t ∈ s.candidates c profile ↔ t ∈ s.tasks.rows ∧ s.isCandidate c profile t := by
  simp [candidates]

/-- What a claim that succeeds has done, statement by statement. -/
theorem claimTask_cases (h : s.claimTask maxWorkerTasks c r = .ok (s', claim)) :
    (s.activeCount c.workspace r.workerID : Int) < maxWorkerTasks ∧
      ∃ row s₁, (s.candidates c r.browserProfileID).argmin (queueKey r) = some row ∧
        s.insertAttempt (s.claimedAttempt c r row) = .ok s₁ ∧
        s₁.updateTasks (isPending c row.id)
          (Task.leaseTo c.now r.workerID (c.now + r.leaseDuration) r.attemptID) = s' ∧
        s'.getTaskByID c row.id = .ok claim.task ∧
        s'.resolveTaskRuleVersionContract c claim.task = .ok claim.ruleVersion ∧
        claim.ruleVersion.all (fun v => v.1.status == .approved) = true := by
  simp only [claimTask, bind_eq_ok, require_eq_ok, decide_eq_true_eq] at h
  obtain ⟨-, hcount, h⟩ := h
  refine ⟨hcount, ?_⟩
  split at h
  · cases h
  · rename_i row hrow
    simp only [bind_eq_ok, require_eq_ok, pure_eq_ok] at h
    obtain ⟨s₁, h₁, -, hany, task, htask, version, hversion, -, happroved, h⟩ := h
    cases h
    exact ⟨row, s₁, hrow, h₁, rfl, htask, hversion, happroved⟩

end Cases

end Store

end Aegis
