import Aegis.Requirements.Db

/-!
# Requirements.Ops

Recordings, requirement jobs and requirements as the store serves them (`store/recording.go`,
`store/requirement.go`, `store/llm_attempt_artifact.go`).

Fresh names (`NewID`), the clock and the order in which the database meets rows it does not tell
apart are arguments. What a call reads outside its transaction it reads of databases that need not
be the one its statements meet: `earlier` for the parent of an artifact, `counted` for the calls of
an attempt.
-/

namespace Aegis.Requirements

/-- What `CreateRecording` inserts: the service always sets the status `captured`. -/
def newRecording (c : Ctx) (id owner contentHash payload : String) (expiresAt : Time) : Recording where
  id := id
  workspaceID := c.workspace
  owner := owner
  status := .captured
  contentHash := contentHash
  encryptedPayload := some payload
  createdAt := c.now
  updatedAt := c.now
  expiresAt := expiresAt
  deletedAt := none

namespace RecordingDb

/-- The seven deletions of `deleteRecordingDerivedArtifacts` and of `DeleteExpiredRecordings`, which
differ in the recordings they select. -/
def deleteDerived (workspace : WorkspaceID) (gone : String → Bool) (db : RecordingDb) :
    Except RequirementError RecordingDb := do
  let goneWorkflow id := db.dsl.db.workflows.any fun w =>
    w.id == id && w.workspaceID == workspace && gone w.recordingID
  let db := db.deleteReplays fun a => a.workspaceID == workspace && goneWorkflow a.workflowID
  let db := db.deleteDSLJobs fun j => j.workspaceID == workspace && goneWorkflow j.workflowID
  let db ← db.deleteWorkflows fun w => w.workspaceID == workspace && gone w.recordingID
  let db ← db.deleteReports fun ws recordingID => ws == workspace && gone recordingID
  let db := db.deleteCalls fun c => c.workspaceID == workspace && gone c.recordingID
  let db ← db.deleteRequirements fun q => q.workspaceID == workspace && gone q.recordingID
  db.deleteJobs fun j => j.workspaceID == workspace && gone j.recordingID

def deleteRecordingDerivedArtifacts (workspace : WorkspaceID) (recordingID : String) :
    RecordingDb → Except RequirementError RecordingDb :=
  deleteDerived workspace fun id => id == recordingID

/-- `id = ? AND workspace_id = ? AND status != 'deleted'`. -/
def erasable (c : Ctx) (id : String) (r : Recording) : Bool :=
  r.id == id && r.workspaceID == c.workspace && r.status != .deleted

def deleteRecording (c : Ctx) (id : String) (db : RecordingDb) : Except RequirementError RecordingDb := do
  let count := db.recordings.rows.countP (erasable c id)
  let db := { db with
    recordings := db.recordings.update (erasable c id) (recordingOnID (eraseRecording c.now)) }
  ensure (count != 0 || db.recordings.any fun r => r.id == id && r.workspaceID == c.workspace)
    .recordingNotFound
  db.deleteRecordingDerivedArtifacts c.workspace id

/-- The rows `DeleteExpiredRecordings` selects: `ORDER BY expires_at LIMIT ?`. -/
def expiredRecordings (c : Ctx) (before : Time) (batch : Nat) (tie : String → Nat)
    (db : RecordingDb) : List Recording :=
  ((db.recordings.rows.filter fun r => r.workspaceID == c.workspace && r.status != .deleted &&
      r.expiresAt ≤ before).insertionSort fun a b =>
    a.expiresAt < b.expiresAt ∨ (a.expiresAt = b.expiresAt ∧ tie a.id ≤ tie b.id)).take batch

/-- `workspace_id = ? AND status = 'deleted' AND deleted_at = ?`. -/
def erasedNow (db : RecordingDb) (c : Ctx) (id : String) : Bool :=
  db.recordings.any fun r => r.id == id && r.workspaceID == c.workspace && r.status == .deleted &&
    r.deletedAt == some c.now

/-- `DeleteExpiredRecordings`: the number of recordings deleted. -/
def deleteExpiredRecordings (c : Ctx) (before : Time) (batch : Int) (tie : String → Nat)
    (db : RecordingDb) : Except RequirementError (RecordingDb × Nat) := do
  let batch := if batch ≤ 0 then 1000 else batch.toNat
  let selected := (db.expiredRecordings c before batch tie).map Recording.id
  let deleted := db.recordings.rows.countP fun r => selected.contains r.id
  let db := { db with
    recordings := db.recordings.update (fun r => selected.contains r.id)
      (recordingOnID (eraseRecording c.now)) }
  let db ← db.deleteDerived c.workspace (db.erasedNow c)
  pure (db, deleted)

end RecordingDb

def maxRequirementAttemptBudget : Nat := 3

/-- What the callers of `CreateRequirementJob` set of a new job. -/
structure NewRequirementJob where
  id : String
  recordingID : String
  kind : RequirementJobKind
  source : RequirementSource
  maxAttempts : Int
  attemptBudget : Int
  createdAt : Option Time
  availableAt : Option Time

def NewRequirementJob.attempts (n : NewRequirementJob) : Nat :=
  if n.maxAttempts ≤ 0 || maxRequirementAttemptBudget < n.maxAttempts then
    maxRequirementAttemptBudget
  else n.maxAttempts.toNat

def NewRequirementJob.budget (n : NewRequirementJob) : Nat :=
  if n.attemptBudget ≤ 0 then n.attempts
  else if maxRequirementAttemptBudget < n.attemptBudget then maxRequirementAttemptBudget
  else n.attemptBudget.toNat

/-- The job `CreateRequirementJob` inserts. -/
def NewRequirementJob.toJob (n : NewRequirementJob) (c : Ctx) (request : JSON) (newID : String) :
    RequirementJob where
  id := if n.id.isEmpty then newID else n.id
  workspaceID := c.workspace
  recordingID := n.recordingID
  kind := n.kind
  status := .pending
  source := n.source
  request := request
  result := none
  chunkCount := 0
  completedChunks := 0
  attemptCount := 0
  maxAttempts := n.attempts
  attemptBudget := n.budget
  availableAt := n.availableAt.getD c.now
  leaseUntil := none
  errorCode := none
  errorMessage := none
  requirementID := none
  createdAt := n.createdAt.getD c.now
  updatedAt := c.now
  startedAt := none
  completedAt := none

def RecordingDb.createRequirementJob (c : Ctx) (n : NewRequirementJob) (request : JSON)
    (newID : String) (db earlier : RecordingDb) : Except RequirementError RecordingDb := do
  ensure (!n.recordingID.isEmpty) .recordingNotFound
  ensure (earlier.recordingLive c.workspace n.recordingID) .recordingNotFound
  db.insertJob (n.toJob c request newID)

/-- `SET` of a job whose last attempt was interrupted. -/
def interruptJob (now : Time) : RequirementJobUpdate where
  set j := { j with
    status := .failed, leaseUntil := none, errorCode := some "ATTEMPT_INTERRUPTED",
    errorMessage := some "the worker lease expired after the final permitted attempt",
    completedAt := some now, updatedAt := now }
  keeps _ := rfl

/-- `SET` of a job an attempt of which begins. -/
def leaseJob (now leaseUntil : Time) : RequirementJobUpdate where
  set j := { j with
    status := .running, attemptCount := j.attemptCount + 1,
    startedAt := some (j.startedAt.getD now), leaseUntil := some leaseUntil, updatedAt := now,
    errorCode := none, errorMessage := none }
  keeps _ := rfl

/-- `SET` of a job that is completed. -/
def completeJob (now : Time) (result : JSON) (chunkCount completedChunks : Int)
    (requirementID : Option String) : RequirementJobUpdate where
  set j := { j with
    status := .completed, result := some result, chunkCount := chunkCount,
    completedChunks := completedChunks, requirementID := requirementID, errorCode := none,
    errorMessage := none, leaseUntil := none, completedAt := some now, updatedAt := now }
  keeps _ := rfl

/-- `SET` of a job whose attempt failed: it is to be tried again, or has failed. -/
def failJob (now availableAt : Time) (status : RequirementJobStatus) (code message : String)
    (completedAt : Option Time) : RequirementJobUpdate where
  set j := { j with
    status := status, availableAt := availableAt, leaseUntil := none, errorCode := some code,
    errorMessage := some message, completedAt := completedAt, updatedAt := now }
  keeps _ := rfl

/-- `SET chunk_count, completed_chunks, updated_at`. -/
def progressJob (now : Time) (total completed : Int) : RequirementJobUpdate where
  set j := { j with chunkCount := total, completedChunks := completed, updatedAt := now }
  keeps _ := rfl

/-- `SET` of a failed job that is made runnable again. -/
def retryJob (now : Time) : RequirementJobUpdate where
  set j := { j with
    status := .pending, maxAttempts := j.attemptCount + j.attemptBudget, availableAt := now,
    leaseUntil := none, errorCode := none, errorMessage := none, completedAt := none,
    updatedAt := now }
  keeps _ := rfl

/-- The row of a running job that the copy `job` of a worker still describes. -/
def RequirementJob.describes (job j : RequirementJob) : Bool :=
  j.workspaceID == job.workspaceID && j.status == .running && j.attemptCount == job.attemptCount

/-- A lease that has run out: `lease_until IS NOT NULL AND lease_until <= now`. -/
def RequirementJob.leaseExpired (now : Time) (j : RequirementJob) : Bool :=
  j.leaseUntil.any (· ≤ now)

def RequirementJob.runnable (now : Time) (j : RequirementJob) : Bool :=
  (j.status == .pending && j.availableAt ≤ now && j.attemptCount < j.maxAttempts) ||
    (j.status == .running && j.leaseExpired now)

def interruptedReport (now : Time) (id : String) (job : RequirementJob) (callCount : Nat) :
    RequirementReport where
  id := id
  workspaceID := job.workspaceID
  recordingID := job.recordingID
  jobID := job.id
  attemptNumber := job.attemptCount
  outcome := .failed
  callCount := callCount
  errorCode := "ATTEMPT_INTERRUPTED"
  errorMessage := "the worker lease expired before the attempt could be finalized"
  replayable := false
  createdAt := now

namespace RecordingDb

-- named, since an instance found by search would depend on what a module imports
local instance : LinearOrder Time := Int.instLinearOrder
local instance : Preorder Time := Int.instLinearOrder.toPreorder

/-- `ORDER BY available_at, created_at`. -/
def claimKey (tie : String → Nat) (j : RequirementJob) : Time ×ₗ Time ×ₗ Nat :=
  toLex (j.availableAt, toLex (j.createdAt, tie j.id))

def nextRunnable (db : RecordingDb) (now : Time) (tie : String → Nat) : Option RequirementJob :=
  (db.jobs.rows.filter (RequirementJob.runnable now)).argmin (claimKey tie)

def finalizeInterruptedRequirementAttempt (now : Time) (reportID : String) (job : RequirementJob)
    (db : RecordingDb) : Except RequirementError RecordingDb :=
  if job.attemptCount = 0 then .ok db
  else if db.attemptReported job.workspaceID .requirement job.id job.attemptCount then .ok db
  else do
    let calls := db.attemptCalls job.workspaceID .requirement job.id job.attemptCount
    ensure (db.recordingLive job.workspaceID job.recordingID)
      (.other "sql: no rows in result set")
    db.insertReport (interruptedReport now reportID job calls.length)

def recoverAttempt (now : Time) (reportID : String) (job : RequirementJob) (db : RecordingDb) :
    Except RequirementError RecordingDb :=
  if job.status == .running then db.finalizeInterruptedRequirementAttempt now reportID job
  else .ok db

def takeUp (now leaseUntil : Time) (job : RequirementJob) (db : RecordingDb) :
    Except RequirementError (RecordingDb × Option RequirementJob) :=
  if job.status == .running && job.maxAttempts ≤ job.attemptCount then do
    let db ← db.updateJob job.id job.describes (interruptJob now) .noTaskAvailable
    pure (db, none)
  else do
    let db ← db.updateJob job.id
      (fun j => j.workspaceID == job.workspaceID && j.attemptCount < j.maxAttempts &&
        ((j.status == .pending && j.availableAt ≤ now) || (j.status == .running && j.leaseExpired now)))
      (leaseJob now leaseUntil) .noTaskAvailable
    pure (db, some { job with
      status := .running, attemptCount := job.attemptCount + 1,
      startedAt := some (job.startedAt.getD now), leaseUntil := some leaseUntil })

/-- `claimPendingRequirementJob`, one turn of the loop of `ClaimPendingRequirementJob`, with the
transaction it commits. `none` tells the loop to go on: the job had no attempt left. -/
def claimPendingRequirementJob (now : Time) (lease : Duration) (tie : String → Nat)
    (reportID : String) (db : RecordingDb) :
    Except RequirementError (RecordingDb × Option RequirementJob) :=
  match db.nextRunnable now tie with
  | none => .error .noTaskAvailable
  | some job => do
    let db ← db.recoverAttempt now reportID job
    db.takeUp now (now + if lease ≤ 0 then 10 * Duration.minute else lease) job

/-- `llmArtifactJobRecording`: the recording of a job, and its attempts so far. -/
def llmArtifactJobRecording (c : Ctx) (jobType : LLMJobType) (jobID : String) (db : RecordingDb) :
    Except RequirementError (String × Nat) := do
  let parent := match jobType with
    | .requirement => (db.jobs.find? jobID).bind fun j =>
        if j.workspaceID == c.workspace then some (j.recordingID, j.attemptCount) else none
    | .dsl => (db.dsl.db.jobs.find? jobID).bind fun j =>
        if j.workspaceID == c.workspace then
          (db.dsl.db.workflows.find? j.workflowID).bind fun w =>
            if w.workspaceID == c.workspace then some (w.recordingID, j.attemptCount) else none
        else none
  match parent with
  | none => .error .artifactJobNotFound
  | some (recordingID, attemptCount) => do
    ensure (db.recordingLive c.workspace recordingID) .artifactJobNotFound
    pure (recordingID, attemptCount)

def validateLLMArtifactAttempt (attemptNumber attemptCount : Nat) : Except RequirementError Unit :=
  ensure (0 < attemptNumber && attemptNumber ≤ attemptCount) .artifactAttemptNotFound

/-- `CreateLLMProviderCall`. `accepted` is what the checks of the other columns say, and `joined`
what the triggers say that join the call to its budget reservation. -/
def createLLMProviderCall (c : Ctx) (call : LLMProviderCall) (accepted joined : Bool)
    (newID : String) (db earlier : RecordingDb) : Except RequirementError RecordingDb := do
  ensure (accepted && !call.jobID.isEmpty && 0 < call.callIndex) .artifactInvalid
  let (recordingID, attemptCount) ← earlier.llmArtifactJobRecording c call.jobType call.jobID
  validateLLMArtifactAttempt call.attemptNumber attemptCount
  ensure joined (.constraint "llm provider call does not match its budget reservation")
  db.insertCall { call with
    workspaceID := c.workspace, recordingID := recordingID,
    id := if call.id.isEmpty then newID else call.id }

end RecordingDb

structure ReportReads where
  earlier : RecordingDb
  counted : RecordingDb
  accepted : Bool
  newID : String

namespace RecordingDb

/-- `prepareLLMAttemptReport`, for a report of a requirement job. -/
def prepareLLMAttemptReport (c : Ctx) (report : RequirementReport) (reads : ReportReads) :
    Except RequirementError RequirementReport := do
  ensure (reads.accepted && !report.jobID.isEmpty) .artifactInvalid
  let (recordingID, attemptCount) ←
    reads.earlier.llmArtifactJobRecording c .requirement report.jobID
  validateLLMArtifactAttempt report.attemptNumber attemptCount
  let calls := reads.counted.attemptCalls c.workspace .requirement report.jobID report.attemptNumber
  ensure (!report.replayable ||
      (calls.length != 0 && calls.all LLMProviderCall.replayable)) .artifactInvalid
  pure { report with
    workspaceID := c.workspace, recordingID := recordingID, callCount := calls.length,
    id := if report.id.isEmpty then reads.newID else report.id }

/-- The report names the attempt `job` describes, with this outcome. -/
def reportFits (job : RequirementJob) (outcome : LLMAttemptOutcome) (report : RequirementReport) : Bool :=
  report.jobID == job.id && report.attemptNumber == job.attemptCount && report.outcome == outcome

def prepareOptional (c : Ctx) : Option (RequirementReport × ReportReads) →
      Except RequirementError (Option RequirementReport)
  | none => .ok none
  | some (report, reads) => some <$> prepareLLMAttemptReport c report reads

def insertOptional (db : RecordingDb) : Option RequirementReport → Except RequirementError RecordingDb
  | none => .ok db
  | some report => db.insertReport report

end RecordingDb

structure Completion where
  result : JSON
  chunkCount : Int
  completedChunks : Int
  requirementID : Option String

namespace RecordingDb

/-- `completeRequirementJob`. -/
def completeRow (now : Time) (job : RequirementJob) (o : Completion) (db : RecordingDb) :
    Except RequirementError RecordingDb :=
  db.updateJob job.id job.describes
    (completeJob now o.result o.chunkCount o.completedChunks o.requirementID) .jobState

/-- `CompleteRequirementJob` and `CompleteRequirementJobWithAttemptReport`. -/
def completeRequirementJob (c : Ctx) (job : RequirementJob) (o : Completion)
    (report : Option (RequirementReport × ReportReads)) (db : RecordingDb) :
    Except RequirementError RecordingDb := do
  ensure (report.all fun r => reportFits job .succeeded r.1) .artifactInvalid
  ensure (!job.id.isEmpty && !job.workspaceID.isEmpty) .jobState
  let prepared ← prepareOptional c report
  let db ← db.insertOptional prepared
  db.completeRow c.now job o

end RecordingDb

/-- What the callers of `prepareCollectionRequirement` set of a new requirement. -/
structure NewCollectionRequirement where
  id : String
  recordingID : String
  sourceJobID : Option String
  source : RequirementSource
  content : JSON
  owner : String
  createdAt : Option Time

/-- `prepareCollectionRequirement`: the draft it inserts. -/
def NewCollectionRequirement.toRequirement (n : NewCollectionRequirement) (c : Ctx)
    (subject newID : String) : CollectionRequirement where
  id := if n.id.isEmpty then newID else n.id
  workspaceID := c.workspace
  recordingID := n.recordingID
  sourceJobID := n.sourceJobID
  source := n.source
  status := .draft
  content := n.content
  owner := if n.owner.isEmpty then subject else n.owner
  createdAt := n.createdAt.getD c.now
  updatedAt := c.now
  confirmedAt := none
  confirmedBy := none

namespace RecordingDb

def createCollectionRequirement (c : Ctx) (n : NewCollectionRequirement) (subject newID : String)
    (db : RecordingDb) : Except RequirementError RecordingDb := do
  ensure (!n.recordingID.isEmpty) .recordingNotFound
  db.insertRequirement (n.toRequirement c subject newID)

/-- `completeRequirementJobWithDraftAndOptionalReport`. -/
def completeRequirementJobWithDraft (c : Ctx) (job : RequirementJob) (o : Completion)
    (n : NewCollectionRequirement) (subject : String)
    (report : Option (RequirementReport × ReportReads)) (db : RecordingDb) :
    Except RequirementError RecordingDb := do
  ensure (n.sourceJobID == some job.id && n.recordingID == job.recordingID && !n.id.isEmpty &&
    o.requirementID == some n.id) .requirementState
  ensure (report.all fun r => reportFits job .succeeded r.1) .artifactInvalid
  ensure (!job.id.isEmpty && !job.workspaceID.isEmpty) .jobState
  ensure (!n.recordingID.isEmpty) .recordingNotFound
  let prepared ← prepareOptional c report
  let db ← db.insertRequirement (n.toRequirement c subject "")
  let db ← db.insertOptional prepared
  db.completeRow c.now job o

/-- `FailRequirementJob` and `FailRequirementJobWithAttemptReport`, with the copy's own bound of
attempts, which the worker sets to make a failure terminal. -/
def failRequirementJob (c : Ctx) (job : RequirementJob) (code message : String)
    (retryDelay : Duration) (report : Option (RequirementReport × ReportReads))
    (db : RecordingDb) : Except RequirementError RecordingDb := do
  ensure (report.all fun r => reportFits job .failed r.1) .artifactInvalid
  ensure (!job.id.isEmpty && !job.workspaceID.isEmpty) .jobState
  let prepared ← prepareOptional c report
  let db ← db.insertOptional prepared
  db.updateJob job.id job.describes
    (if job.attemptCount < job.maxAttempts then
      failJob c.now (c.now + max retryDelay 0) .pending code message none
    else failJob c.now c.now .failed code message (some c.now)) .jobState

def updateRequirementJobProgress (c : Ctx) (id : String) (attemptNumber : Nat)
    (total completed : Int) (db : RecordingDb) : Except RequirementError RecordingDb :=
  db.updateJob id
    (fun j => j.workspaceID == c.workspace && j.status == .running && j.attemptCount == attemptNumber)
    (progressJob c.now total completed) .jobState

def retryRequirementJob (c : Ctx) (id : String) (db : RecordingDb) :
    Except RequirementError RecordingDb := do
  ensure (db.jobs.any fun j => j.id == id && j.workspaceID == c.workspace) .jobNotFound
  db.updateJob id (fun j => j.workspaceID == c.workspace && j.status == .failed)
    (retryJob c.now) .jobState

end RecordingDb

/-- `SET status = 'confirmed', confirmed_at, confirmed_by, updated_at`. -/
def confirmRequirement (now : Time) (actor : String) : SetClause CollectionRequirement.identity where
  set q := { q with
    status := .confirmed, confirmedAt := some now, confirmedBy := some actor, updatedAt := now }
  keeps _ := rfl

def requirementOnID (f : SetClause CollectionRequirement.identity) : SetClause CollectionRequirement.id :=
  ⟨f.set, fun q => congrArg Prod.fst (f.keeps q)⟩

/-- `ConfirmCollectionRequirement`: a requirement that is confirmed already is left alone. -/
def RecordingDb.confirmCollectionRequirement (c : Ctx) (id actor : String) (db : RecordingDb) :
    Except RequirementError RecordingDb :=
  match db.requirements.find? id with
  | none => .error .requirementNotFound
  | some q => do
    ensure (q.workspaceID == c.workspace) .requirementNotFound
    if q.status == .draft then
      pure { db with
        requirements := db.requirements.updateRow id
          (requirementOnID (confirmRequirement c.now actor)) }
    else pure db

end Aegis.Requirements
