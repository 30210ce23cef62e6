import Aegis.Dsl.Db
import Aegis.Scheduler.Clock
import Mathlib.Data.List.MinMax
import Mathlib.Data.Prod.Lex

/-!
# Dsl.Ops

The rule workflow of `store/dsl_workflow.go`: its creation, the jobs that generate and repair the
rule, the replays that try it, and the reapers that a claim runs first.

Fresh names (`NewID`), the clock and the order in which the database meets rows it does not tell
apart are arguments. What a call reads before its transaction it reads of the database `earlier`,
which need not be the one its transaction meets.
-/

namespace Aegis

/-- `COALESCE(?, '')` of a column and `NULLIF(?, '')` of an argument. -/
def nullIf (s : String) : Option String := if s.isEmpty then none else some s

structure DSLWorkflowOptions where
  jobMaxAttempts : Int
  maxRepairs : Int
  budgetUSDNanos : Int

def defaultDSLWorkflowBudgetNanos : Int := 5000000

def createDSLWorkflowBudget (options : Option DSLWorkflowOptions) : Int :=
  match options with
  | some o => if 0 < o.budgetUSDNanos then o.budgetUSDNanos else defaultDSLWorkflowBudgetNanos
  | none => defaultDSLWorkflowBudgetNanos

structure NewDSLWorkflow where
  id : String
  requirementID : String
  recordingID : String
  browserProfileID : String
  owner : String
  createdAt : Option Time
  sourceArtifactHash : String
  sourceExportHash : String

/-- A job as the `INSERT` leaves it. -/
def newJob (id : String) (workspace : WorkspaceID) (workflowID : String) (kind : DSLJobKind)
    (maxAttempts : Nat) (source : Option String) (flags : List String) (now : Time) : DSLJob where
  id := id
  workspaceID := workspace
  workflowID := workflowID
  kind := kind
  status := .pending
  attemptCount := 0
  maxAttempts := maxAttempts
  availableAt := now
  leaseUntil := none
  providerDispatched := false
  sourceAttemptReportID := source
  errorCode := none
  errorMessage := none
  safetyFlags := flags
  createdAt := now
  updatedAt := now
  startedAt := none
  completedAt := none

def jobMaxAttempts (options : Option DSLWorkflowOptions) : Nat :=
  match options with
  | some o => if 1 ≤ o.jobMaxAttempts && o.jobMaxAttempts ≤ 3 then o.jobMaxAttempts.toNat else 3
  | none => 3

def maxRepairs (options : Option DSLWorkflowOptions) : Nat :=
  match options with
  | some o => if 0 ≤ o.maxRepairs && o.maxRepairs ≤ 5 then o.maxRepairs.toNat else 3
  | none => 3

namespace DslDb

/-- The workflow `CreateDSLWorkflow` inserts. -/
def generatingWorkflow (c : DSLCtx) (w : NewDSLWorkflow) (options : Option DSLWorkflowOptions)
    (id jobID : String) : DSLWorkflow where
  id := id
  workspaceID := c.workspace
  requirementID := w.requirementID
  recordingID := w.recordingID
  status := .generating
  browserProfileID := w.browserProfileID
  currentJobID := some jobID
  repairCount := 0
  maxRepairs := maxRepairs options
  provisionalArtifact := none
  provisionalHash := none
  lastReplaySequence := 0
  errorCode := none
  errorMessage := none
  owner := if w.owner.isEmpty then c.subject else w.owner
  sourceKind := ""
  sourceAuthority := ""
  sourceArtifactHash := ""
  sourceExportHash := ""
  safetyFlags := []
  budgetUSDNanos := createDSLWorkflowBudget options
  spentUSDNanos := 0
  createdAt := w.createdAt.getD c.now
  updatedAt := c.now
  approvedAt := none

def createDSLWorkflow (c : DSLCtx) (w : NewDSLWorkflow) (options : Option DSLWorkflowOptions)
    (confirmed : Bool) (newID jobID : String) (db : DslDb) : Except DSLError (DslDb × DSLJob) := do
  ensure (!w.requirementID.isEmpty && !w.recordingID.isEmpty) .requirementNotFound
  ensure (!w.browserProfileID.isEmpty) (.other "browser profile id is required")
  let id := if w.id.isEmpty then newID else w.id
  let job := newJob jobID c.workspace id .generate (jobMaxAttempts options) none [] c.now
  let db ← db.insertWorkflow (generatingWorkflow c w options id jobID) confirmed
  let db ← db.insertJob job
  pure (db, job)

/-- The workflow `CreateAdminReviewedDSLWorkflow` inserts. -/
def reviewedWorkflow (c : DSLCtx) (w : NewDSLWorkflow) (artifact : ProvisionalDSLArtifact)
    (hash id : String) : DSLWorkflow where
  id := id
  workspaceID := c.workspace
  requirementID := w.requirementID
  recordingID := w.recordingID
  status := .awaitingReplay
  browserProfileID := w.browserProfileID
  currentJobID := none
  repairCount := 0
  maxRepairs := 0
  provisionalArtifact := some artifact
  provisionalHash := some hash
  lastReplaySequence := 0
  errorCode := none
  errorMessage := none
  owner := if w.owner.isEmpty then c.subject else w.owner
  sourceKind := dslWorkflowSourceAdminReviewedAttemptExport
  sourceAuthority := dslWorkflowSourceAuthorityNonAuthoritative
  sourceArtifactHash := w.sourceArtifactHash
  sourceExportHash := w.sourceExportHash
  safetyFlags := []
  budgetUSDNanos := defaultDSLWorkflowBudgetNanos
  spentUSDNanos := 0
  createdAt := c.now
  updatedAt := c.now
  approvedAt := none

/-- `INSERT INTO audit_logs`. -/
def audit (db : DslDb) (c : DSLCtx) (actor action workflowID : String) : DslDb :=
  { db with auditLogs := db.auditLogs ++ [
      { workspaceID := c.workspace, actor := actor, action := action,
        resourceType := "dsl_workflow", resourceID := workflowID, createdAt := c.now }] }

/-- `CreateAdminReviewedDSLWorkflow`: the identifier of the new workflow, or of the one that has
adopted the same export already. -/
def createAdminReviewedDSLWorkflow (artifactHash : ProvisionalDSLArtifact → String) (c : DSLCtx)
    (w : NewDSLWorkflow) (artifact : ProvisionalDSLArtifact) (confirmed : Bool) (newID : String)
    (db : DslDb) : Except DSLError (DslDb × String) := do
  ensure (!w.requirementID.isEmpty && !w.recordingID.isEmpty) .requirementNotFound
  ensure (trimSpace w.browserProfileID != "") (.other "browser profile id is required")
  ensure (w.sourceArtifactHash.utf8ByteSize == 64 && w.sourceExportHash.utf8ByteSize == 64)
    (.other "reviewed attempt artifact and export hashes are required")
  let id := if w.id.isEmpty then newID else w.id
  let row := reviewedWorkflow c w artifact (artifactHash artifact) id
  match db.reviewedSource? row with
  | some v => do
    -- ON CONFLICT ... DO NOTHING, after the trigger of the insert
    ensure confirmed .requirementState
    pure (db, v.id)
  | none => do
    let db ← db.insertWorkflow row confirmed
    pure (db.audit c c.subject "dsl_workflow_adopted_from_attempt_export" id, id)

end DslDb

/-- `SET status, lease_until, error_code, error_message, completed_at, updated_at` of a reaper. -/
def expireJob (now : Time) (code message : String) : JobUpdate where
  set j := { j with
    status := .failed, leaseUntil := none, errorCode := some code, errorMessage := some message,
    completedAt := some now, updatedAt := now }
  keeps _ := rfl

/-- `SET status, error_code, error_message, updated_at` of a workflow that fails. -/
def failWorkflow (now : Time) (code message : String) : WorkflowUpdate where
  set w := { w with
    status := .failed, errorCode := some code, errorMessage := some message, updatedAt := now }
  keeps _ := rfl

/-- A lease that has run out: `lease_until IS NOT NULL AND lease_until <= now`. -/
def DSLJob.leaseExpired (now : Time) (j : DSLJob) : Bool := j.leaseUntil.any (· ≤ now)

/-- `current_job_id = ? AND status IN ('generating','repairing')`. -/
def DSLWorkflow.worksOn (jobID : String) (w : DSLWorkflow) : Bool :=
  w.currentJobID == some jobID && (w.status == .generating || w.status == .repairing)

def inScanOrder {ρ : Type} (tie : String → Nat) (id : ρ → String) (l : List ρ) : List ρ :=
  l.insertionSort fun a b => tie (id a) ≤ tie (id b)

namespace DslDb

/-- What `failExpiredDispatchedSelectorRepairs` selects. -/
def dispatchAmbiguous (now : Time) (j : DSLJob) : Bool :=
  j.kind == .selectorRepair && j.status == .running && j.providerDispatched && j.leaseExpired now

/-- One turn of the loop of `failExpiredDispatchedSelectorRepairs`. -/
def failExpiredDispatchedSelectorRepair (now : Time) (db : DslDb) (job : DSLJob) :
    Except DSLError DslDb := do
  let db ← db.updateJob job.id
    (fun j => j.workspaceID == job.workspaceID && j.status == .running &&
      j.kind == .selectorRepair && j.providerDispatched)
    (expireJob now "SELECTOR_REPAIR_DISPATCH_AMBIGUOUS"
      "selector repair dispatch outcome is ambiguous; automatic redispatch is disabled") .jobState
  db.updateWorkflow job.workflowID
    (fun w => w.workspaceID == job.workspaceID && w.currentJobID == some job.id && w.status == .repairing)
    (failWorkflow now "SELECTOR_REPAIR_DISPATCH_AMBIGUOUS"
      "selector repair dispatch outcome is ambiguous; use the authorized correction workflow")
    .workflowState

def failExpiredDispatchedSelectorRepairs (now : Time) (tie : String → Nat) (db : DslDb) :
    Except DSLError DslDb :=
  (inScanOrder tie DSLJob.id (db.jobs.rows.filter (dispatchAmbiguous now))).foldlM
    (failExpiredDispatchedSelectorRepair now) db

/-- What `failExpiredExhaustedDSLJobs` selects. -/
def exhausted (now : Time) (j : DSLJob) : Bool :=
  j.kind != .selectorRepair && j.status == .running && j.leaseExpired now && j.maxAttempts ≤ j.attemptCount

/-- One turn of the loop of `failExpiredExhaustedDSLJobs`. -/
def failExpiredExhaustedDSLJob (now : Time) (db : DslDb) (job : DSLJob) : Except DSLError DslDb := do
  let db ← db.updateJob job.id (fun j => j.workspaceID == job.workspaceID && exhausted now j)
    (expireJob now "JOB_LEASE_EXPIRED" "dsl worker lease expired on the final allowed attempt")
    .jobState
  db.updateWorkflow job.workflowID
    (fun w => w.workspaceID == job.workspaceID && w.worksOn job.id)
    (failWorkflow now "JOB_LEASE_EXPIRED" "dsl worker lease expired on the final allowed attempt")
    .workflowState

def failExpiredExhaustedDSLJobs (now : Time) (tie : String → Nat) (db : DslDb) : Except DSLError DslDb :=
  (inScanOrder tie DSLJob.id (db.jobs.rows.filter (exhausted now))).foldlM
    (failExpiredExhaustedDSLJob now) db

end DslDb

/-- `SET status, last_replay_sequence, updated_at` of a workflow whose replay starts. -/
def beginReplay (now : Time) (sequence : Nat) : WorkflowUpdate where
  set w := { w with status := .replaying, lastReplaySequence := sequence, updatedAt := now }
  keeps _ := rfl

/-- `SET status, current_job_id, repair_count, error_code, error_message, updated_at` of a workflow
whose replay ends. -/
def endReplay (now : Time) (status : DSLWorkflowStatus) (currentJobID : Option String)
    (repairCount : Nat) (code message : Option String) : WorkflowUpdate where
  set w := { w with
    status := status, currentJobID := currentJobID, repairCount := repairCount,
    errorCode := code, errorMessage := message, updatedAt := now }
  keeps _ := rfl

structure ReplayOutcome where
  succeeded : Bool
  outputValid : Bool
  code : String
  message : String

namespace ReplayOutcome

/-- `succeeded && outputValid`. -/
def proven (o : ReplayOutcome) : Bool := o.succeeded && o.outputValid

def errorCode (o : ReplayOutcome) : Option String := if o.proven then none else nullIf o.code

def errorMessage (o : ReplayOutcome) : Option String := if o.proven then none else nullIf o.message

/-- `SET status, output_valid, error_code, error_message, completed_at` of the attempt. -/
def endAttempt (o : ReplayOutcome) (now : Time) : ReplayUpdate where
  set a := { a with
    status := if o.proven then .succeeded else .failed, outputValid := o.outputValid,
    errorCode := o.errorCode, errorMessage := o.errorMessage, completedAt := some now }
  keeps _ := rfl

end ReplayOutcome

namespace DslDb

/-- `StartDSLReplay`; `timeout` overrides the expiry of 35 minutes. -/
def startDSLReplay (c : DSLCtx) (workflowID : String) (timeout : Option Duration)
    (attemptID : String) (db : DslDb) : Except DSLError (DslDb × ReplayAttempt) := do
  let expiresAt := match timeout with
    | some d => if 0 < d then c.now + d else c.now + 35 * Duration.minute
    | none => c.now + 35 * Duration.minute
  match (db.workflows.find? workflowID).filter fun w => w.workspaceID == c.workspace with
  | none => .error .workflowNotFound
  | some w => do
    ensure (w.status == .awaitingReplay || w.status == .awaitingConfirmation) .workflowState
    let attempt : ReplayAttempt :=
      { id := attemptID, workspaceID := c.workspace, workflowID := workflowID,
        sequence := w.lastReplaySequence + 1, status := .running,
        ruleHash := w.provisionalHash.getD "", browserProfileID := w.browserProfileID,
        outputValid := false, errorCode := none, errorMessage := none, startedAt := c.now,
        completedAt := none, expiresAt := some expiresAt }
    let db ← db.updateWorkflow workflowID
      (fun v => v.workspaceID == c.workspace && v.status == w.status)
      (beginReplay c.now attempt.sequence) .workflowState
    let db ← db.insertReplay attempt
    pure (db, attempt)

def replayRepair (o : ReplayOutcome) (repairJobID : Option String) (jobMaxAttempts : Nat)
    (now : Time) (attempt : ReplayAttempt) (w : DSLWorkflow) : Option DSLJob :=
  if !o.proven && w.repairCount < w.maxRepairs then
    repairJobID.map fun id =>
      newJob id attempt.workspaceID attempt.workflowID .repair jobMaxAttempts none [] now
  else none

/-- `workflowStatus`: without a repair, a failed replay parks while repairs are left. -/
def statusAfterReplay (o : ReplayOutcome) (w : DSLWorkflow) (repairJob : Option DSLJob) :
    DSLWorkflowStatus :=
  if o.proven then .awaitingConfirmation
  else if repairJob.isSome then .repairing
  else if w.repairCount < w.maxRepairs then .awaitingReplay
  else .failed

def insertRepair (db : DslDb) : Option DSLJob → Except DSLError DslDb
  | none => .ok db
  | some job => db.insertJob job

/-- `completeDSLReplayInTx`: the repair job, if any, and the attempt as it was. `repairJobID` names
the repair job when the caller requests one. -/
def completeDSLReplayInTx (workspace : WorkspaceID) (attemptID : String) (o : ReplayOutcome)
    (repairJobID : Option String) (jobMaxAttempts : Nat) (now : Time) (db : DslDb) :
    Except DSLError (DslDb × Option DSLJob × ReplayAttempt) :=
  match (db.replays.find? attemptID).filter fun a => a.workspaceID == workspace with
  | none => .error .replayNotFound
  | some attempt => do
    ensure (attempt.status == .running) .replayState
    match (db.workflows.find? attempt.workflowID).filter fun w =>
        w.workspaceID == workspace && w.status == .replaying with
    | none => .error .workflowState
    | some w => do
      let repairJob := replayRepair o repairJobID jobMaxAttempts now attempt w
      let db ← db.insertRepair repairJob
      let db ← db.updateReplay attemptID
        (fun a => a.workspaceID == workspace && a.status == .running) (o.endAttempt now)
        .replayState
      let db ← db.updateWorkflow attempt.workflowID
        (fun v => v.workspaceID == workspace && v.status == .replaying)
        (endReplay now (statusAfterReplay o w repairJob) (repairJob.map DSLJob.id)
          (if repairJob.isSome then w.repairCount + 1 else w.repairCount) o.errorCode
          o.errorMessage)
        .workflowState
      pure (db, repairJob, attempt)

/-- `CompleteDSLReplay`, of the attempt with identifier `attemptID` that the caller holds as one of
`attemptWorkspace`: the repair job, if any, and the attempt as the caller then holds it. -/
def completeDSLReplay (c : DSLCtx) (attemptID : String) (attemptWorkspace : WorkspaceID)
    (o : ReplayOutcome) (repairJobID : Option String) (repairMaxAttempts : Option Int)
    (db : DslDb) : Except DSLError (DslDb × Option DSLJob × ReplayAttempt) := do
  ensure (attemptWorkspace.isEmpty || attemptWorkspace == c.workspace) .replayNotFound
  let jobMaxAttempts := match repairMaxAttempts with
    | some n => if 1 ≤ n && n ≤ 3 then n.toNat else 3
    | none => 3
  let (db, repairJob, attempt) ←
    db.completeDSLReplayInTx c.workspace attemptID o repairJobID jobMaxAttempts c.now
  pure (db, repairJob, (o.endAttempt c.now).set attempt)

/-- What `failExpiredReplayAttempts` selects. -/
def replayExpired (now : Time) (a : ReplayAttempt) : Bool :=
  a.status == .running && a.expiresAt.any (· ≤ now)

/-- One turn of the loop of `failExpiredReplayAttempts`. -/
def failExpiredReplayAttempt (now : Time) (db : DslDb) (a : ReplayAttempt) : Except DSLError DslDb :=
  Prod.fst <$> db.completeDSLReplayInTx a.workspaceID a.id
    { succeeded := false, outputValid := false, code := "REPLAY_ATTEMPT_EXPIRED",
      message := "replay attempt timed out waiting for browser completion" } none 3 now

def failExpiredReplayAttempts (now : Time) (tie : String → Nat) (db : DslDb) : Except DSLError DslDb :=
  (inScanOrder tie ReplayAttempt.id (db.replays.rows.filter (replayExpired now))).foldlM
    (failExpiredReplayAttempt now) db

end DslDb

/-- `SET lease_until, updated_at, error_code, error_message` of a reclaim that keeps the attempt. -/
def renewLease (now leaseUntil : Time) : JobUpdate where
  set j := { j with
    leaseUntil := some leaseUntil, updatedAt := now, errorCode := none, errorMessage := none }
  keeps _ := rfl

/-- `SET status, attempt_count, started_at, lease_until, updated_at, error_code, error_message`. -/
def leaseJob (now leaseUntil : Time) : JobUpdate where
  set j := { j with
    status := .running, attemptCount := j.attemptCount + 1,
    startedAt := some (j.startedAt.getD now), leaseUntil := some leaseUntil, updatedAt := now,
    errorCode := none, errorMessage := none }
  keeps _ := rfl

namespace DslDb

def claimable (now : Time) (j : DSLJob) : Bool :=
  (j.status == .pending && j.availableAt ≤ now && j.attemptCount < j.maxAttempts) ||
    (j.status == .running && j.leaseExpired now && ((j.kind == .selectorRepair && !j.providerDispatched) ||
        (j.kind != .selectorRepair && j.attemptCount < j.maxAttempts)))

-- named, since an instance found by search would depend on what a module imports
local instance : LinearOrder Time := Int.instLinearOrder
local instance : Preorder Time := Int.instLinearOrder.toPreorder

/-- `ORDER BY available_at, created_at`. -/
def claimKey (tie : String → Nat) (j : DSLJob) : Time ×ₗ Time ×ₗ Nat :=
  toLex (j.availableAt, toLex (j.createdAt, tie j.id))

/-- `reuseSelectorAttempt`. -/
def reusesAttempt (j : DSLJob) : Bool :=
  j.status == .running && j.kind == .selectorRepair && !j.providerDispatched

def leaseSelected (now leaseUntil : Time) (job : DSLJob) (db : DslDb) : Except DSLError (DslDb × DSLJob) :=
  if reusesAttempt job then do
    let db ← db.updateJob job.id
      (fun j => j.workspaceID == job.workspaceID && j.kind == .selectorRepair &&
        j.status == .running && j.attemptCount == job.attemptCount && !j.providerDispatched &&
        j.leaseExpired now)
      (renewLease now leaseUntil) .noTaskAvailable
    pure (db, { job with
      status := .running, startedAt := some (job.startedAt.getD now),
      leaseUntil := some leaseUntil })
  else do
    let db ← db.updateJob job.id
      (fun j => j.workspaceID == job.workspaceID && j.attemptCount < j.maxAttempts &&
        ((j.status == .pending && j.availableAt ≤ now) || (j.status == .running && j.leaseExpired now)))
      (leaseJob now leaseUntil) .noTaskAvailable
    pure (db, { job with
      status := .running, attemptCount := job.attemptCount + 1,
      startedAt := some (job.startedAt.getD now), leaseUntil := some leaseUntil })

/-- `ClaimPendingDSLJob`: the three reapers, then a lease on the next job across all workspaces.
`none` is `ErrNoTaskAvailable`, after the reapers are committed. -/
def claimPendingDSLJob (now : Time) (lease : Duration) (tie : String → Nat) (db : DslDb) :
    Except DSLError (DslDb × Option DSLJob) := do
  let lease := if lease ≤ 0 then 10 * Duration.minute else lease
  let db ← db.failExpiredDispatchedSelectorRepairs now tie
  let db ← db.failExpiredExhaustedDSLJobs now tie
  let db ← db.failExpiredReplayAttempts now tie
  match (db.jobs.rows.filter (claimable now)).argmin (claimKey tie) with
  | none => pure (db, none)
  | some job => do
    let (db, job) ← db.leaseSelected now (now + lease) job
    pure (db, some job)

end DslDb

/-- `SET provider_dispatched, updated_at`. -/
def markDispatched (now : Time) : JobUpdate where
  set j := { j with providerDispatched := true, updatedAt := now }
  keeps _ := rfl

/-- The row of a running job that the copy `job` of a worker still describes. -/
def DSLJob.describes (job j : DSLJob) : Bool :=
  j.workspaceID == job.workspaceID && j.workflowID == job.workflowID && j.status == .running &&
    j.attemptCount == job.attemptCount

theorem DSLJob.describes_iff {job j : DSLJob} : job.describes j ↔
    j.workspaceID = job.workspaceID ∧ j.workflowID = job.workflowID ∧ j.status = .running ∧
      j.attemptCount = job.attemptCount := by
  simp [describes, and_assoc]

/-- `SET` of a job that ends, with the flags its worker recorded. -/
def endJob (now : Time) (status : DSLJobStatus) (flags : List String)
    (code message : Option String) : JobUpdate where
  set j := { j with
    status := status, leaseUntil := none, safetyFlags := flags, errorCode := code,
    errorMessage := message, completedAt := some now, updatedAt := now }
  keeps _ := rfl

/-- `SET` of a job whose attempt failed: it is to be tried again, or has failed. -/
def failAttempt (now availableAt : Time) (status : DSLJobStatus) (flags : List String)
    (code message : String) (completedAt : Option Time) : JobUpdate where
  set j := { j with
    status := status, availableAt := availableAt, leaseUntil := none, safetyFlags := flags,
    errorCode := some code, errorMessage := some message, completedAt := completedAt,
    updatedAt := now }
  keeps _ := rfl

/-- `SET status, current_job_id, error_code, error_message, updated_at` of a workflow whose job is
handed over to the selector repair `jobID`. -/
def handOver (now : Time) (jobID : String) : WorkflowUpdate where
  set w := { w with
    status := .repairing, currentJobID := some jobID, errorCode := none, errorMessage := none,
    updatedAt := now }
  keeps _ := rfl

def publish (now : Time) (artifact : ProvisionalDSLArtifact) (hash : String)
    (flags : List String) : WorkflowUpdate where
  set w := { w with
    status := .awaitingReplay, provisionalArtifact := some artifact, provisionalHash := some hash,
    safetyFlags := flags, errorCode := none, errorMessage := none, updatedAt := now }
  keeps _ := rfl

/-- `SET` of a workflow whose provisional rule is corrected. -/
def replaceRule (now : Time) (artifact : ProvisionalDSLArtifact) (hash : String) : WorkflowUpdate where
  set w := { w with
    status := .awaitingReplay, provisionalArtifact := some artifact, provisionalHash := some hash,
    currentJobID := none, errorCode := none, errorMessage := none, updatedAt := now }
  keeps _ := rfl

/-- The status a workflow has while a job of this kind works on it (`expectedWorkflowStatus`). -/
def DSLJobKind.workflowStatus : DSLJobKind → DSLWorkflowStatus
  | .generate => .generating
  | .repair | .selectorRepair => .repairing

/-- What the checks of a report say that read columns and tables left out here: the recording and
the other columns of the report, and its provider calls. -/
structure ReportChecks where
  newID : String
  accepted : Bool
  callsAgree : Bool

namespace DslDb

def markDSLSelectorRepairDispatched (now : Time) (job : DSLJob) (db : DslDb) : Except DSLError DslDb := do
  ensure (job.kind == .selectorRepair && 0 < job.attemptCount) .jobState
  db.updateJob job.id
    (fun j => job.describes j && j.kind == .selectorRepair && !j.providerDispatched)
    (markDispatched now) .jobState

def validateCurrentDSLJobAttempt (job : DSLJob) (db : DslDb) : Except DSLError Unit :=
  ensure ((db.jobs.find? job.id).any job.describes) .jobState

/-- `prepareLLMAttemptReport`, for a report of a rule job. -/
def prepareLLMAttemptReport (c : DSLCtx) (report : LLMAttemptReport) (checks : ReportChecks)
    (db : DslDb) : Except DSLError LLMAttemptReport := do
  ensure (!report.jobID.isEmpty && checks.accepted) .artifactInvalid
  match (db.jobs.find? report.jobID).filter fun j => j.workspaceID == c.workspace with
  | none => .error .artifactJobNotFound
  | some j =>
    match (db.workflows.find? j.workflowID).filter fun w => w.workspaceID == j.workspaceID with
    | none => .error .artifactJobNotFound
    | some w => do
      ensure (0 < report.attemptNumber && report.attemptNumber ≤ j.attemptCount)
        .artifactAttemptNotFound
      pure { report with
        workspaceID := c.workspace, recordingID := w.recordingID,
        id := if report.id.isEmpty then checks.newID else report.id }

/-- The report names the attempt `job` describes, with this outcome. -/
def reportFits (job : DSLJob) (outcome : LLMAttemptOutcome) (report : LLMAttemptReport) : Bool :=
  report.jobType == .dsl && report.jobID == job.id && report.attemptNumber == job.attemptCount &&
    report.outcome == outcome

def prepareOptional (earlier : DslDb) (c : DSLCtx) (job : DSLJob) (outcome : LLMAttemptOutcome) :
    Option (LLMAttemptReport × ReportChecks) → Except DSLError (Option (LLMAttemptReport × ReportChecks))
  | none => .ok none
  | some (report, checks) => do
    ensure (reportFits job outcome report) .artifactInvalid
    earlier.validateCurrentDSLJobAttempt job
    let report ← earlier.prepareLLMAttemptReport c report checks
    pure (some (report, checks))

def insertOptional (db : DslDb) : Option (LLMAttemptReport × ReportChecks) → Except DSLError DslDb
  | none => .ok db
  | some (report, checks) => db.insertReport report checks.callsAgree

/-- The selector repair `ScheduleDSLSelectorRepairWithAttemptReport` installs. -/
def selectorRepairJob (now : Time) (source : DSLJob) (reportID id : String) : DSLJob :=
  newJob id source.workspaceID source.workflowID .selectorRepair 1 (some reportID)
    ["selector-repair:bounded", "selector-repair:one-shot"] now

def scheduleDSLSelectorRepairWithAttemptReport (c : DSLCtx) (source : DSLJob)
    (report : LLMAttemptReport) (checks : ReportChecks) (childID : String) (db earlier : DslDb) :
    Except DSLError (DslDb × DSLJob) := do
  ensure (source.kind != .selectorRepair && reportFits source .failed report && report.replayable)
    .artifactInvalid
  earlier.validateCurrentDSLJobAttempt source
  let prepared ← earlier.prepareLLMAttemptReport c report checks
  let child := selectorRepairJob c.now source prepared.id childID
  let db ← db.insertReport prepared checks.callsAgree
  let db ← db.updateJob source.id source.describes
    (endJob c.now .failed source.safetyFlags (some report.errorCode) (some report.errorMessage))
    .jobState
  let db ← db.insertJob child
  let db ← db.updateWorkflow source.workflowID
    (fun w => w.workspaceID == source.workspaceID && w.worksOn source.id) (handOver c.now childID)
    .workflowState
  pure (db, child)

/-- `CompleteDSLJob` and `CompleteDSLJobWithAttemptReport`. -/
def completeDSLJob (artifactHash : ProvisionalDSLArtifact → String) (c : DSLCtx) (job : DSLJob)
    (artifact : ProvisionalDSLArtifact) (report : Option (LLMAttemptReport × ReportChecks))
    (db earlier : DslDb) : Except DSLError DslDb := do
  let prepared ← earlier.prepareOptional c job .succeeded report
  let db ← db.insertOptional prepared
  let db ← db.updateJob job.id job.describes (endJob c.now .completed job.safetyFlags none none)
    .jobState
  db.updateWorkflow job.workflowID
    (fun w => w.workspaceID == job.workspaceID && w.currentJobID == some job.id &&
      w.status == job.kind.workflowStatus)
    (publish c.now artifact (artifactHash artifact) job.safetyFlags) .workflowState

def correctDSLWorkflow (artifactHash : ProvisionalDSLArtifact → String) (c : DSLCtx)
    (workflowID : String) (artifact : ProvisionalDSLArtifact) (db : DslDb) :
    Except DSLError DslDb :=
  db.updateWorkflow workflowID
    (fun w => w.workspaceID == c.workspace && (w.status == .failed || w.status == .awaitingReplay))
    (replaceRule c.now artifact (artifactHash artifact)) .workflowState

/-- `FailDSLJob` and `FailDSLJobWithAttemptReport`. -/
def failDSLJob (c : DSLCtx) (job : DSLJob) (code message : String) (retryDelay : Duration)
    (report : Option (LLMAttemptReport × ReportChecks)) (db earlier : DslDb) :
    Except DSLError DslDb := do
  let prepared ← earlier.prepareOptional c job .failed report
  let db ← db.insertOptional prepared
  let retries := job.attemptCount < job.maxAttempts
  let db ← db.updateJob job.id job.describes
    (if retries then
      failAttempt c.now (c.now + max retryDelay 0) .pending job.safetyFlags code message none
    else failAttempt c.now c.now .failed job.safetyFlags code message (some c.now)) .jobState
  if retries then pure db
  else
    db.updateWorkflow job.workflowID
      (fun w => w.workspaceID == job.workspaceID && w.worksOn job.id)
      (failWorkflow c.now code message) .workflowState

end DslDb

end Aegis
