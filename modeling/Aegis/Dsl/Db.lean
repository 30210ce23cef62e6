import Aegis.Dsl.Models
import Aegis.Lib.Outcome
import Aegis.Lib.Table

/-!
# Dsl.Db

The database of the rule workflow domain and the statements the store sends to it.

The `CHECK` constraints, the unique indexes and the triggers of the schema, as the last migration
leaves them, are part of the statements: an `UPDATE` only takes `SET` clauses that keep the
identity columns, and it is refused where a trigger raises. A store call is a function to
`Except DSLError`: an error is a rollback.
-/

namespace Aegis

/-- The errors of a store call; `constraint` is any violated constraint or trigger. -/
inductive DSLError where
  | workflowNotFound | workflowState | jobNotFound | jobState | replayNotFound | replayState
  | safetyBlockingFlag (flags : List String)
  | overrideRequiresActor
  | noTaskAvailable | requirementNotFound | requirementState | recordingNotFound
  | artifactInvalid | artifactJobNotFound | artifactAttemptNotFound
  | ruleNotFound | ruleVersionNotFound | ruleVersionState
  | constraint (message : String)
  | other (text : String)

/-- What a store call takes from its context and the clock: `workspaceID(ctx)`,
`time.Now().UTC()` and `authz.Subject(ctx, "system")`. -/
structure DSLCtx extends Ctx where
  subject : String

structure DslDb where
  workflows : Table DSLWorkflow.id
  jobs : Table DSLJob.id
  replays : Table ReplayAttempt.id
  reports : Table LLMAttemptReport.id
  approvals : Table DSLApproval.workflowID
  rules : Table RuleDocument.id
  ruleVersions : Table SealedRuleVersion.key
  contracts : Table SealedContract.key
  auditLogs : List AuditLog

def DslDb.empty : DslDb :=
  ⟨.empty, .empty, .empty, .empty, .empty, .empty, .empty, .empty, []⟩

/-- The columns no statement but `AddWorkflowSpend` sets: the identity and the envelope. -/
def DSLWorkflow.fixed (w : DSLWorkflow) :=
  (w.identity, w.budgetUSDNanos, w.spentUSDNanos)

abbrev WorkflowUpdate := SetClause DSLWorkflow.fixed

theorem DSLWorkflow.id_of_identity {v w : DSLWorkflow} (h : v.identity = w.identity) : v.id = w.id :=
  congrArg Prod.fst h

def WorkflowUpdate.onIdentity (f : WorkflowUpdate) : SetClause DSLWorkflow.identity :=
  ⟨f.set, fun w => congrArg Prod.fst (f.keeps w)⟩

/-- A `SET` clause of the workflow table, as one of its key. -/
def workflowOnID (f : SetClause DSLWorkflow.identity) : SetClause DSLWorkflow.id :=
  ⟨f.set, fun w => DSLWorkflow.id_of_identity (f.keeps w)⟩

/-- `trg_dsl_workflows_state_transition`: what a status may be changed to. -/
def DSLWorkflowStatus.next : DSLWorkflowStatus → List DSLWorkflowStatus
  | .generating => [.repairing, .awaitingReplay, .failed]
  | .awaitingReplay => [.replaying, .failed]
  | .replaying => [.awaitingConfirmation, .repairing, .awaitingReplay, .failed]
  | .repairing => [.awaitingReplay, .failed]
  | .awaitingConfirmation => [.replaying, .approved, .failed]
  | .failed => [.awaitingReplay]
  | .approved => []

/-- `trg_dsl_workflows_terminal_immutable` lets the update of `w` to `w'` through: a terminal
workflow is immutable, but for the correction of a failed one. -/
def DSLWorkflow.mutableTo (w w' : DSLWorkflow) : Bool :=
  match w.status with
  | .approved => false
  | .failed =>
    w'.status == .awaitingReplay && w'.provisionalArtifact.isSome && w'.provisionalHash.isSome &&
      (w.provisionalHash.isNone || w'.provisionalHash != w.provisionalHash) &&
      w'.currentJobID.isNone && w'.errorCode.isNone && w'.errorMessage.isNone &&
      w'.repairCount == w.repairCount && w'.lastReplaySequence == w.lastReplaySequence &&
      w'.approvedAt == w.approvedAt
  | _ => true

/-- The rows of `idx_dsl_workflows_admin_reviewed_source`. -/
def DSLWorkflow.isReviewedSource (w : DSLWorkflow) : Bool :=
  w.sourceKind == dslWorkflowSourceAdminReviewedAttemptExport && !w.sourceExportHash.isEmpty &&
    w.status != .failed

def DSLWorkflow.sourceKey (w : DSLWorkflow) : WorkspaceID × String × String × String :=
  (w.workspaceID, w.requirementID, w.browserProfileID, w.sourceExportHash)

namespace DslDb

/-- The workflow `w` conflicts with in `idx_dsl_workflows_admin_reviewed_source`. -/
def reviewedSource? (db : DslDb) (w : DSLWorkflow) : Option DSLWorkflow :=
  if w.isReviewedSource then
    db.workflows.rows.find? fun v =>
      v.id != w.id && v.isReviewedSource && v.sourceKey == w.sourceKey
  else none

/-- `UPDATE dsl_workflows SET f`, on the row `w`. -/
def writeWorkflow (db : DslDb) (w : DSLWorkflow) (f : SetClause DSLWorkflow.identity) :
    Except DSLError DslDb := do
  let w' := f.set w
  ensure (w'.status == w.status || w.status.next.contains w'.status)
    (.constraint "invalid dsl workflow state transition")
  ensure (w.mutableTo w') (.constraint "terminal dsl workflow is immutable")
  ensure (db.reviewedSource? w').isNone
    (.constraint "UNIQUE constraint failed: idx_dsl_workflows_admin_reviewed_source")
  pure { db with workflows := db.workflows.updateRow w.id (workflowOnID f) }

/-- `UPDATE dsl_workflows SET f WHERE id = ? AND p`, with `e` when no row is affected. -/
def updateWorkflow (db : DslDb) (id : String) (p : DSLWorkflow → Bool) (f : WorkflowUpdate)
    (e : DSLError) : Except DSLError DslDb :=
  match db.workflows.find? id with
  | none => .error e
  | some w => do
    ensure (p w) e
    db.writeWorkflow w f.onIdentity

/-- `INSERT INTO dsl_workflows`; `confirmed` tells whether the requirement is a confirmed one of
the same recording (`trg_dsl_workflows_requirement_insert`). -/
def insertWorkflow (db : DslDb) (w : DSLWorkflow) (confirmed : Bool) : Except DSLError DslDb := do
  ensure confirmed .requirementState
  ensure (w.maxRepairs ≤ 3) (.constraint "CHECK constraint failed: max_repairs BETWEEN 0 AND 3")
  ensure (db.reviewedSource? w).isNone
    (.constraint "UNIQUE constraint failed: idx_dsl_workflows_admin_reviewed_source")
  match db.workflows.insert? w with
  | none => .error (.constraint "UNIQUE constraint failed: dsl_workflows.id")
  | some workflows => pure { db with workflows }

end DslDb

abbrev JobUpdate := SetClause DSLJob.identity

theorem DSLJob.id_of_identity {i j : DSLJob} (h : i.identity = j.identity) : i.id = j.id :=
  congrArg Prod.fst h

def JobUpdate.onID (f : JobUpdate) : SetClause DSLJob.id :=
  ⟨f.set, fun j => DSLJob.id_of_identity (f.keeps j)⟩

/-- `trg_dsl_jobs_state_transition`; the trigger is not consulted by a statement that leaves the
status alone. -/
def DSLJobStatus.next : DSLJobStatus → List DSLJobStatus
  | .pending => [.running]
  | .running => [.running, .pending, .completed, .failed]
  | _ => []

namespace DslDb

/-- `UPDATE dsl_jobs SET f WHERE id = ? AND p`, with `e` when no row is affected. -/
def updateJob (db : DslDb) (id : String) (p : DSLJob → Bool) (f : JobUpdate) (e : DSLError) :
    Except DSLError DslDb :=
  match db.jobs.find? id with
  | none => .error e
  | some j => do
    let j' := f.set j
    ensure (p j) e
    ensure (j'.status == j.status || j.status.next.contains j'.status)
      (.constraint "invalid dsl job state transition")
    ensure j.status.isLive (.constraint "terminal dsl job is immutable")
    ensure (!j.providerDispatched || j'.providerDispatched)
      (.constraint "dsl provider dispatch marker is monotonic")
    ensure (!j'.providerDispatched || j'.kind == .selectorRepair)
      (.constraint "CHECK constraint failed: provider_dispatched")
    pure { db with jobs := db.jobs.updateRow id f.onID }

/-- `trg_dsl_selector_repair_source_insert`: the source report is that of a failed, replayable
attempt of a job of the same workflow. -/
def selectorRepairSource (db : DslDb) (j : DSLJob) : Bool :=
  db.reports.any fun r =>
    j.sourceAttemptReportID == some r.id && r.workspaceID == j.workspaceID && r.jobType == .dsl &&
      r.outcome == .failed && r.replayable &&
      (db.jobs.find? r.jobID).any fun source =>
        source.workspaceID == r.workspaceID && source.workflowID == j.workflowID &&
          source.kind != .selectorRepair && source.status == .failed &&
          source.attemptCount == r.attemptNumber &&
          (db.workflows.find? source.workflowID).any fun w =>
            w.workspaceID == source.workspaceID && w.recordingID == r.recordingID

/-- `INSERT INTO dsl_jobs`. -/
def insertJob (db : DslDb) (j : DSLJob) : Except DSLError DslDb := do
  ensure ((db.workflows.find? j.workflowID).any fun w => w.workspaceID == j.workspaceID)
    (.constraint "dsl workflow not found in workspace")
  ensure (j.kind != .selectorRepair || db.selectorRepairSource j)
    (.constraint "replayable failed selector repair source report not found in workspace")
  ensure (0 < j.maxAttempts) (.constraint "CHECK constraint failed: max_attempts > 0")
  ensure (!j.providerDispatched || j.kind == .selectorRepair)
    (.constraint "CHECK constraint failed: provider_dispatched")
  ensure ((j.kind == .selectorRepair) == j.sourceAttemptReportID.isSome)
    (.constraint "CHECK constraint failed: source_attempt_report_id")
  ensure (j.sourceAttemptReportID.isNone || !db.jobs.any fun i =>
      i.workspaceID == j.workspaceID && i.sourceAttemptReportID == j.sourceAttemptReportID)
    (.constraint "UNIQUE constraint failed: idx_dsl_jobs_selector_repair_source")
  match db.jobs.insert? j with
  | none => .error (.constraint "UNIQUE constraint failed: dsl_jobs.id")
  | some jobs => pure { db with jobs }

/-- `INSERT INTO llm_attempt_reports`, for a report of a rule job; `callsAgree` tells whether the
report counts the provider calls of its attempt and is replayable only if they are. -/
def insertReport (db : DslDb) (r : LLMAttemptReport) (callsAgree : Bool) : Except DSLError DslDb := do
  ensure ((db.jobs.find? r.jobID).any fun j =>
      j.workspaceID == r.workspaceID && j.status == .running && j.attemptCount == r.attemptNumber &&
        (db.workflows.find? j.workflowID).any fun w =>
          w.workspaceID == j.workspaceID && w.recordingID == r.recordingID)
    (.constraint "current dsl job attempt not found in workspace")
  ensure callsAgree (.constraint "llm attempt provider call count mismatch")
  ensure (0 < r.attemptNumber) (.constraint "CHECK constraint failed: attempt_number > 0")
  ensure (!db.reports.any fun q => q.workspaceID == r.workspaceID && q.jobType == r.jobType &&
      q.jobID == r.jobID && q.attemptNumber == r.attemptNumber)
    (.constraint "UNIQUE constraint failed: llm_attempt_reports")
  match db.reports.insert? r with
  | none => .error (.constraint "UNIQUE constraint failed: llm_attempt_reports.id")
  | some reports => pure { db with reports }

end DslDb

abbrev ReplayUpdate := SetClause ReplayAttempt.identity

theorem ReplayAttempt.id_of_identity {a b : ReplayAttempt} (h : a.identity = b.identity) : a.id = b.id :=
  congrArg Prod.fst h

def ReplayUpdate.onID (f : ReplayUpdate) : SetClause ReplayAttempt.id :=
  ⟨f.set, fun a => ReplayAttempt.id_of_identity (f.keeps a)⟩

namespace DslDb

/-- `UPDATE dsl_replay_attempts SET f WHERE id = ? AND p`, with `e` when no row is affected. -/
def updateReplay (db : DslDb) (id : String) (p : ReplayAttempt → Bool) (f : ReplayUpdate)
    (e : DSLError) : Except DSLError DslDb :=
  match db.replays.find? id with
  | none => .error e
  | some a => do
    ensure (p a) e
    ensure (a.status == .running && (f.set a).status != .running)
      (.constraint "invalid dsl replay state transition")
    pure { db with replays := db.replays.updateRow id f.onID }

/-- `INSERT INTO dsl_replay_attempts`. -/
def insertReplay (db : DslDb) (a : ReplayAttempt) : Except DSLError DslDb := do
  ensure ((db.workflows.find? a.workflowID).any fun w =>
      w.workspaceID == a.workspaceID && w.browserProfileID == a.browserProfileID &&
        w.provisionalHash == some a.ruleHash)
    (.constraint "dsl replay workflow mismatch")
  ensure (0 < a.sequence) (.constraint "CHECK constraint failed: sequence > 0")
  ensure (!db.replays.any fun b => b.workspaceID == a.workspaceID &&
      b.workflowID == a.workflowID && b.sequence == a.sequence)
    (.constraint "UNIQUE constraint failed: dsl_replay_attempts")
  match db.replays.insert? a with
  | none => .error (.constraint "UNIQUE constraint failed: dsl_replay_attempts.id")
  | some replays => pure { db with replays }

end DslDb

end Aegis
