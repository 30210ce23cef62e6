import Aegis.Requirements.Models

/-!
# Requirements.Db

The database below a recording and the statements the store sends to it.

The triggers, the unique indexes and the foreign keys of the schema, as the last migration leaves
them, are part of the statements: an `INSERT` is refused where a trigger raises, and a `DELETE`
where a row that stays refers to a row that goes. The reports of requirement jobs and those of rule
jobs are rows of one table, which is kept here in two parts.
-/

namespace Aegis.Requirements

/-- The errors of a store call; `constraint` is any violated constraint or trigger. -/
inductive RequirementError where
  | recordingNotFound | jobNotFound | jobState | requirementNotFound | requirementState
  | noTaskAvailable | artifactInvalid | artifactJobNotFound | artifactAttemptNotFound
  | constraint (message : String)
  | other (text : String)
  | dsl (error : DSLError)

structure RecordingDb where
  recordings : Table Recording.id
  jobs : Table RequirementJob.id
  requirements : Table CollectionRequirement.id
  calls : Table LLMProviderCall.id
  reports : Table RequirementReport.id
  dsl : DslServer

def RecordingDb.empty : RecordingDb := ⟨.empty, .empty, .empty, .empty, .empty, .init⟩

/-- `SET status = 'deleted', encrypted_payload = NULL, updated_at, deleted_at`. -/
def eraseRecording (now : Time) : SetClause Recording.identity where
  set r := { r with
    status := .deleted, encryptedPayload := none, updatedAt := now, deletedAt := some now }
  keeps _ := rfl

/-- A `SET` clause of the recordings, as one of their key. -/
def recordingOnID (f : SetClause Recording.identity) : SetClause Recording.id :=
  ⟨f.set, fun r => congrArg Prod.fst (f.keeps r)⟩

namespace RecordingDb

/-- `EXISTS(SELECT 1 FROM recordings WHERE id = ? AND workspace_id = ? AND status != 'deleted')`. -/
def recordingLive (db : RecordingDb) (workspace : WorkspaceID) (id : String) : Bool :=
  db.recordings.any fun r => r.workspaceID == workspace && r.id == id && r.status != .deleted

/-- `INSERT INTO recordings`. -/
def insertRecording (db : RecordingDb) (r : Recording) : Except RequirementError RecordingDb :=
  match db.recordings.insert? r with
  | none => .error (.constraint "UNIQUE constraint failed: recordings.id")
  | some recordings => .ok { db with recordings }

end RecordingDb

abbrev RequirementJobUpdate := SetClause RequirementJob.identity

def RequirementJobUpdate.onID (f : RequirementJobUpdate) : SetClause RequirementJob.id :=
  ⟨f.set, fun j => congrArg Prod.fst (f.keeps j)⟩

namespace RecordingDb

/-- `INSERT INTO requirement_jobs`. -/
def insertJob (db : RecordingDb) (j : RequirementJob) : Except RequirementError RecordingDb := do
  ensure (db.recordingLive j.workspaceID j.recordingID)
    (.constraint "recording not found in workspace")
  ensure (0 < j.maxAttempts) (.constraint "CHECK constraint failed: max_attempts > 0")
  ensure (1 ≤ j.attemptBudget && j.attemptBudget ≤ 3)
    (.constraint "CHECK constraint failed: attempt_budget BETWEEN 1 AND 3")
  match db.jobs.insert? j with
  | none => .error (.constraint "UNIQUE constraint failed: requirement_jobs.id")
  | some jobs => pure { db with jobs }

/-- `UPDATE requirement_jobs SET f WHERE id = ? AND p`, with `e` when no row is affected. -/
def updateJob (db : RecordingDb) (id : String) (p : RequirementJob → Bool)
    (f : RequirementJobUpdate) (e : RequirementError) : Except RequirementError RecordingDb :=
  match db.jobs.find? id with
  | none => .error e
  | some j => do
    ensure (p j) e
    pure { db with jobs := db.jobs.updateRow id f.onID }

/-- The parent `trg_collection_requirements_job_insert` looks for. -/
def hasJob (db : RecordingDb) (workspace : WorkspaceID) (recordingID jobID : String) : Bool :=
  db.jobs.any fun j => j.workspaceID == workspace && j.id == jobID && j.recordingID == recordingID

/-- `INSERT INTO collection_requirements`. -/
def insertRequirement (db : RecordingDb) (q : CollectionRequirement) :
    Except RequirementError RecordingDb := do
  ensure (db.recordingLive q.workspaceID q.recordingID)
    (.constraint "recording not found in workspace")
  ensure (q.sourceJobID.all (db.hasJob q.workspaceID q.recordingID))
    (.constraint "requirement job not found in workspace")
  ensure (q.sourceJobID.isNone || !db.requirements.any fun p => p.sourceJobID == q.sourceJobID)
    (.constraint "UNIQUE constraint failed: idx_collection_requirements_source_job")
  match db.requirements.insert? q with
  | none => .error (.constraint "UNIQUE constraint failed: collection_requirements.id")
  | some requirements => pure { db with requirements }

/-- The row `trg_dsl_workflows_requirement_insert` looks for. -/
def requirementConfirmed (db : RecordingDb) (workspace : WorkspaceID)
    (requirementID recordingID : String) : Bool :=
  db.requirements.any fun q => q.workspaceID == workspace && q.id == requirementID &&
    q.recordingID == recordingID && q.status == .confirmed

def attemptCalls (db : RecordingDb) (workspace : WorkspaceID) (jobType : LLMJobType)
    (jobID : String) (attemptNumber : Nat) : List LLMProviderCall :=
  db.calls.rows.filter fun c => c.workspaceID == workspace && c.jobType == jobType &&
    c.jobID == jobID && c.attemptNumber == attemptNumber

def attemptReported (db : RecordingDb) (workspace : WorkspaceID) (jobType : LLMJobType)
    (jobID : String) (attemptNumber : Nat) : Bool :=
  match jobType with
  | .requirement => db.reports.any fun r => r.workspaceID == workspace && r.jobID == jobID &&
      r.attemptNumber == attemptNumber
  | .dsl => db.dsl.db.reports.any fun r => r.workspaceID == workspace && r.jobType == .dsl &&
      r.jobID == jobID && r.attemptNumber == attemptNumber

/-- The parent `trg_llm_provider_calls_requirement_parent` and
`trg_llm_attempt_reports_requirement_parent` look for. -/
def requirementAttempt (db : RecordingDb) (workspace : WorkspaceID) (recordingID jobID : String)
    (attemptNumber : Nat) : Bool :=
  db.jobs.any fun j => j.workspaceID == workspace && j.id == jobID &&
    j.recordingID == recordingID && attemptNumber ≤ j.attemptCount

/-- The parent `trg_llm_provider_calls_dsl_parent` looks for. -/
def dslAttempt (db : RecordingDb) (workspace : WorkspaceID) (recordingID jobID : String)
    (attemptNumber : Nat) : Bool :=
  db.dsl.db.jobs.any fun j => j.workspaceID == workspace && j.id == jobID &&
    j.status == .running && j.attemptCount == attemptNumber &&
    db.dsl.db.workflows.any fun w => w.workspaceID == j.workspaceID && w.id == j.workflowID &&
      w.recordingID == recordingID

/-- `INSERT INTO llm_provider_calls`. -/
def insertCall (db : RecordingDb) (c : LLMProviderCall) : Except RequirementError RecordingDb := do
  ensure (match c.jobType with
    | .requirement => db.requirementAttempt c.workspaceID c.recordingID c.jobID c.attemptNumber
    | .dsl => db.dslAttempt c.workspaceID c.recordingID c.jobID c.attemptNumber)
    (.constraint "job attempt not found in workspace")
  let calls := db.attemptCalls c.workspaceID c.jobType c.jobID c.attemptNumber
  ensure (c.callIndex == (calls.map LLMProviderCall.callIndex).foldl max 0 + 1)
    (.constraint "llm provider call index is not contiguous")
  ensure (!db.attemptReported c.workspaceID c.jobType c.jobID c.attemptNumber)
    (.constraint "llm attempt report already recorded")
  ensure (0 < c.attemptNumber) (.constraint "CHECK constraint failed: attempt_number > 0")
  match db.calls.insert? c with
  | none => .error (.constraint "UNIQUE constraint failed: llm_provider_calls.id")
  | some calls => pure { db with calls }

/-- `INSERT INTO llm_attempt_reports`, for a report of a requirement job. -/
def insertReport (db : RecordingDb) (r : RequirementReport) : Except RequirementError RecordingDb := do
  let calls := db.attemptCalls r.workspaceID .requirement r.jobID r.attemptNumber
  ensure (db.requirementAttempt r.workspaceID r.recordingID r.jobID r.attemptNumber)
    (.constraint "requirement job attempt not found in workspace")
  ensure (r.callCount == calls.length) (.constraint "llm attempt provider call count mismatch")
  ensure (!r.replayable || (r.callCount != 0 && calls.all LLMProviderCall.replayable))
    (.constraint "llm attempt has non-replayable provider calls")
  ensure (0 < r.attemptNumber) (.constraint "CHECK constraint failed: attempt_number > 0")
  ensure (!db.attemptReported r.workspaceID .requirement r.jobID r.attemptNumber)
    (.constraint "UNIQUE constraint failed: llm_attempt_reports")
  ensure (db.dsl.db.reports.find? r.id).isNone
    (.constraint "UNIQUE constraint failed: llm_attempt_reports.id")
  match db.reports.insert? r with
  | none => .error (.constraint "UNIQUE constraint failed: llm_attempt_reports.id")
  | some reports => pure { db with reports }

def refersTo {ρ κ : Type} {key : ρ → κ} (t : Table key) (ref : ρ → Option String)
    (gone : String → Bool) : Bool :=
  t.any fun r => (ref r).any gone

def foreignKey : RequirementError := .constraint "FOREIGN KEY constraint failed"

/-- `DELETE FROM dsl_replay_attempts WHERE p`. -/
def deleteReplays (db : RecordingDb) (p : ReplayAttempt → Bool) : RecordingDb :=
  { db with dsl.db.replays := db.dsl.db.replays.delete p }

/-- `DELETE FROM dsl_jobs WHERE p`. -/
def deleteDSLJobs (db : RecordingDb) (p : DSLJob → Bool) : RecordingDb :=
  { db with dsl.db.jobs := db.dsl.db.jobs.delete p }

/-- `DELETE FROM dsl_workflows WHERE p`. -/
def deleteWorkflows (db : RecordingDb) (p : DSLWorkflow → Bool) : Except RequirementError RecordingDb := do
  let gone id := db.dsl.db.workflows.any fun w => p w && w.id == id
  ensure (!refersTo db.dsl.db.jobs (fun j => some j.workflowID) gone) foreignKey
  ensure (!refersTo db.dsl.db.replays (fun a => some a.workflowID) gone) foreignKey
  pure { db with dsl.db.workflows := db.dsl.db.workflows.delete p }

/-- `DELETE FROM llm_attempt_reports WHERE workspace_id = ? AND recording_id` is gone. -/
def deleteReports (db : RecordingDb) (gone : WorkspaceID → String → Bool) :
    Except RequirementError RecordingDb := do
  let goneReport id := db.dsl.db.reports.any fun r => gone r.workspaceID r.recordingID && r.id == id
  let goneRequirementReport id :=
    db.reports.any fun r => gone r.workspaceID r.recordingID && r.id == id
  ensure (!refersTo db.dsl.db.jobs DSLJob.sourceAttemptReportID fun id =>
    goneReport id || goneRequirementReport id) foreignKey
  pure { db with
    reports := db.reports.delete fun r => gone r.workspaceID r.recordingID,
    dsl.db.reports := db.dsl.db.reports.delete fun r => gone r.workspaceID r.recordingID }

/-- `DELETE FROM llm_provider_calls WHERE p`. -/
def deleteCalls (db : RecordingDb) (p : LLMProviderCall → Bool) : RecordingDb :=
  { db with calls := db.calls.delete p }

/-- `DELETE FROM collection_requirements WHERE p`. -/
def deleteRequirements (db : RecordingDb) (p : CollectionRequirement → Bool) :
    Except RequirementError RecordingDb := do
  let gone id := db.requirements.any fun q => p q && q.id == id
  ensure (!refersTo db.dsl.db.workflows (fun w => some w.requirementID) gone) foreignKey
  pure { db with requirements := db.requirements.delete p }

/-- `DELETE FROM requirement_jobs WHERE p`. -/
def deleteJobs (db : RecordingDb) (p : RequirementJob → Bool) : Except RequirementError RecordingDb := do
  let gone id := db.jobs.any fun j => p j && j.id == id
  ensure (!refersTo db.requirements CollectionRequirement.sourceJobID gone) foreignKey
  pure { db with jobs := db.jobs.delete p }

end RecordingDb

end Aegis.Requirements
