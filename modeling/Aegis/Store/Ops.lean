import Aegis.Lib.Run
import Aegis.Store.HumanIntervention

/-!
# Store.Ops

The store calls on tasks as the steps of one system. A call carries its arguments, its context and
the fresh names it draws, so a list of calls is a run, and every list is one: any tasks, workers
and attempts, in any order, at any times.
-/

namespace Aegis

inductive Op where
  | createTask (c : Ctx) (t : Task)
  | claimTask (c : Ctx) (r : ClaimRequest)
  | renewLease (c : Ctx) (taskID : TaskID) (workerID : WorkerID) (leaseDuration : Duration)
  | updateTaskStatus (c : Ctx) (taskID : TaskID) (workerID : WorkerID) (status : TaskStatus)
      (message errorType : String)
  | updateTaskStatusForAttempt (c : Ctx) (taskID : TaskID) (workerID : WorkerID)
      (attemptID : AttemptID) (status : TaskStatus) (message errorType : String)
  | createHumanIntervention (c : Ctx) (input : HumanInterventionInput)
  | decideHumanIntervention (c : Ctx) (id checkpointID : String)
      (decision : HumanInterventionStatus) (note actor : String) (leaseDuration : Duration)
  | expireHumanInterventions (c : Ctx) (id : String) (taskID : TaskID)
  | cancelTask (c : Ctx) (id : TaskID)
  | retryTask (c : Ctx) (id : TaskID)
  | releaseTask (c : Ctx) (taskID : TaskID)

/-- The parameters of a server: the packages it uses and its `maxWorkerTasks`. -/
structure Config where
  env : Env
  maxWorkerTasks : Int

namespace Op

def exec (cfg : Config) (s : Store) : Op → Except StoreError Store
  | createTask c t => s.createTask cfg.env c t
  | claimTask c r => Prod.fst <$> s.claimTask cfg.maxWorkerTasks c r
  | renewLease c taskID workerID leaseDuration => s.renewLease c taskID workerID leaseDuration
  | updateTaskStatus c taskID workerID status message errorType =>
    s.updateTaskStatus c taskID workerID status message errorType
  | updateTaskStatusForAttempt c taskID workerID attemptID status message errorType =>
    Prod.fst <$> s.updateTaskStatusForAttempt c taskID workerID attemptID status message errorType
  | createHumanIntervention c input => s.createHumanIntervention c input
  | decideHumanIntervention c id checkpointID decision note actor leaseDuration =>
    Prod.fst <$> s.decideHumanIntervention c id checkpointID decision note actor leaseDuration
  | expireHumanInterventions c id taskID => s.expireHumanInterventions c id taskID
  | cancelTask c id => s.cancelTask c id
  | retryTask c id => s.retryTask c id
  | releaseTask c taskID => s.releaseTask c taskID

/-- A call that fails is rolled back. -/
def apply (cfg : Config) (s : Store) (op : Op) : Store := (op.exec cfg s).toOption.getD s

/-- The calls the server makes: a task is created pending and without an attempt, and a status
report carries a status the `/status` handler admits. -/
def isAdmitted : Op → Bool
  | createTask _ t => t.status == .pending && t.currentAttemptID == none
  | updateTaskStatus _ _ _ status _ _ => status.isReportable
  | _ => true

theorem apply_of_ok {cfg : Config} {s s' : Store} {op : Op} (h : op.exec cfg s = .ok s') :
    op.apply cfg s = s' := by
  rw [apply, h]
  rfl

theorem apply_of_error {cfg : Config} {s : Store} {op : Op} {e : StoreError}
    (h : op.exec cfg s = .error e) : op.apply cfg s = s := by
  rw [apply, h]
  rfl

theorem apply_eq (cfg : Config) (s : Store) (op : Op) :
    op.apply cfg s = s ∨ op.exec cfg s = .ok (op.apply cfg s) := by
  cases h : op.exec cfg s with
  | error e => exact .inl (apply_of_error h)
  | ok s' => exact .inr (congrArg Except.ok (apply_of_ok h).symm)

end Op

namespace Store

variable {cfg : Config} {s s' : Store} {P : Store → Prop}

/-- The store no task call has touched yet: any rules, versions and schedules, and no task. -/
structure Initial (s : Store) : Prop where
  tasks : s.tasks = .empty
  executionAttempts : s.executionAttempts = .empty
  humanInterventions : s.humanInterventions = .empty
  checkpoints : s.checkpoints = .empty
  results : s.results = .empty

/-- The stores admitted calls lead to from an empty one. -/
def Reachable (cfg : Config) (s : Store) : Prop :=
  ∃ s₀ ops, Initial s₀ ∧ (∀ op ∈ ops, op.isAdmitted = true) ∧ run (Op.apply cfg) s₀ ops = s

theorem Reachable.induction (hr : Reachable cfg s) (h₀ : ∀ s, Initial s → P s)
    (hstep : ∀ s s' (op : Op), P s → op.isAdmitted → op.exec cfg s = .ok s' → P s') :
    P s := by
  obtain ⟨s₀, ops, hi, ha, rfl⟩ := hr
  have hP := h₀ s₀ hi
  clear hi
  induction ops generalizing s₀ with
  | nil => exact hP
  | cons op ops ih =>
    have ha' := List.forall_mem_cons.mp ha
    refine ih (op.apply cfg s₀) ha'.2 ?_
    rcases Op.apply_eq cfg s₀ op with h | h
    · rwa [h]
    · exact hstep s₀ _ op hP ha'.1 h

theorem Initial.reachable (hi : Initial s) {ops : List Op}
    (ha : ∀ op ∈ ops, op.isAdmitted) : Reachable cfg (run (Op.apply cfg) s ops) :=
  ⟨s, ops, hi, ha, rfl⟩

end Store

/-! ## A small server

One approved rule without a version, one task: the setting of the concrete runs in the modules
that follow. -/

namespace Sample

def workspace : WorkspaceID := "default"

def at' (now : Time) : Ctx := ⟨workspace, now⟩

def sha256 (payload : JSON) : String :=
  if payload == "\x7b\x7d" then
    "44136fa355b3678a1146ad16f7e8649e94fb4fc21fe77e8310c060f61caaff8a"
  else if payload == "[1]" then
    "080a9ed428559ef602668b4c00f114f1a11c3f6b02a435f0bdc154578e4d7f22"
  else payload

def config : Config where
  env := { applyAndValidateTaskInputs := fun _ vars => .ok vars, sha256 }
  maxWorkerTasks := 1

def rule : Rule where
  id := "rule"
  workspaceID := workspace
  enabled := true
  priority := .normal
  approvalStatus := .approved

def store : Store where
  rules := ⟨[rule], List.nodup_singleton _⟩
  ruleVersions := .empty
  ruleVersionContracts := .empty
  schedules := .empty
  schedulerLocks := .empty
  tasks := .empty
  executionAttempts := .empty
  humanInterventions := .empty
  checkpoints := .empty
  taskStatusUpdates := []
  results := .empty

def task (id : TaskID) : Task where
  id := id
  workspaceID := workspace
  ruleID := "rule"
  ruleVersion := ""
  ruleVersionNumber := 0
  status := .pending
  priority := .normal
  vars := ""
  inputSchema := ""
  workerID := none
  leaseUntil := none
  retryCount := 0
  maxRetries := 3
  outputSchema := ""
  sendPolicy := ""
  createdAt := 0
  updatedAt := 0
  scheduledAt := none
  completedAt := none
  errorType := none
  errorMessage := none
  scheduleID := none
  currentAttemptID := none
  browserProfileID := ""
  cancelRequested := false

def create (id : TaskID) (now : Time) : Op :=
  .createTask (at' now) { task id with createdAt := now, updatedAt := now }

def claim (worker : WorkerID) (attempt : AttemptID) (now : Time) : Op :=
  .claimTask (at' now) {
    workerID := worker
    browserProfileID := some ""
    leaseDuration := 100
    attemptID := attempt
    tie := fun _ => 0 }

def suspend (id : String) (taskID : TaskID) (attempt : AttemptID) (worker : WorkerID) (now : Time) : Op :=
  .createHumanIntervention (at' now) {
    id := id
    taskID := taskID
    attemptID := attempt
    workerID := worker
    checkpointID := "checkpoint of " ++ id
    checkpointName := "captcha"
    checkpoint := ""
    type := .captcha
    prompt := ""
    requestedAction := ""
    targetOrigin := ""
    expiresAt := now + 1000
    createdAt := Time.zero }

theorem store_initial : Store.Initial store := ⟨rfl, rfl, rfl, rfl, rfl⟩

end Sample

end Aegis
