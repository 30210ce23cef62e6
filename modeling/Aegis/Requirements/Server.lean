import Aegis.Requirements.Ops

/-!
# Requirements.Server

The store under any number of clients and workers.

An event is one call, or one committed turn of a call that commits in turns, with its context,
every name and order it draws and every database it reads outside its transaction. Workers call
with the copies of jobs that claims handed out, which they may keep beyond their leases.
-/

namespace Aegis.Requirements

/-- The database, and the copies of jobs that claims handed out, oldest first. -/
structure RecordingServer where
  db : RecordingDb
  claims : List RequirementJob

def RecordingServer.init : RecordingServer := ⟨.empty, []⟩

inductive RecordingEvent where
  | createRecording (c : Ctx) (id owner contentHash payload : String) (expiresAt : Time)
  | deleteRecording (c : Ctx) (id : String)
  | deleteExpiredRecordings (c : Ctx) (before : Time) (batch : Int) (tie : String → Nat)
  | createRequirementJob (earlier : RecordingDb) (c : Ctx) (n : NewRequirementJob) (request : JSON)
      (newID : String)
  | claimPendingRequirementJob (now : Time) (lease : Duration) (tie : String → Nat)
      (reportID : String)
  | createLLMProviderCall (earlier : RecordingDb) (c : Ctx) (call : LLMProviderCall)
      (accepted joined : Bool) (newID : String)
  | updateRequirementJobProgress (c : Ctx) (id : String) (attemptNumber : Nat)
      (total completed : Int)
  | completeRequirementJob (c : Ctx) (held : Nat) (o : Completion)
      (report : Option (RequirementReport × ReportReads))
  | completeRequirementJobWithDraft (c : Ctx) (held : Nat) (o : Completion)
      (n : NewCollectionRequirement) (subject : String)
      (report : Option (RequirementReport × ReportReads))
  /-- `terminal` tells whether the worker sets the bound of its copy to the attempts made. -/
  | failRequirementJob (c : Ctx) (held : Nat) (terminal : Bool) (code message : String)
      (retryDelay : Duration) (report : Option (RequirementReport × ReportReads))
  | retryRequirementJob (c : Ctx) (id : String)
  | createCollectionRequirement (c : Ctx) (n : NewCollectionRequirement) (subject newID : String)
  | confirmCollectionRequirement (c : Ctx) (id actor : String)
  | dsl (e : DslEvent)

def RequirementJob.bounded (job : RequirementJob) (terminal : Bool) : RequirementJob :=
  if terminal then { job with maxAttempts := job.attemptCount } else job

namespace RecordingDb

/-- The trigger of `dsl_workflows` reads the requirements. -/
def atRequirements (db : RecordingDb) : DslEvent → DslEvent
  | .createDSLWorkflow c w options _ newID jobID =>
    .createDSLWorkflow c w options
      (db.requirementConfirmed c.workspace w.requirementID w.recordingID) newID jobID
  | .createAdminReviewedDSLWorkflow c w artifact _ newID =>
    .createAdminReviewedDSLWorkflow c w artifact
      (db.requirementConfirmed c.workspace w.requirementID w.recordingID) newID
  | e => e

def serveDsl (d : Digests) (db : RecordingDb) (e : DslEvent) : Except RequirementError RecordingDb :=
  match db.dsl.serve d (db.atRequirements e) with
  | .error error => .error (.dsl error)
  | .ok (dslDb, replies) => do
    ensure (!dslDb.reports.any fun r => (db.reports.find? r.id).isSome)
      (.constraint "UNIQUE constraint failed: llm_attempt_reports.id")
    pure { db with dsl := ⟨dslDb, db.dsl.log ++ replies⟩ }

end RecordingDb

namespace RecordingServer

def withDb (s : RecordingServer) (db : RecordingDb) : RecordingServer := { s with db }

/-- A call with the copy that the claim number `k` handed out. -/
def withCopy (s : RecordingServer) (k : Nat) (f : RequirementJob → Except RequirementError RecordingDb) :
    Except RequirementError RecordingServer :=
  match s.claims[k]? with
  | none => .error .jobState
  | some job => s.withDb <$> f job

def serve (d : Digests) (s : RecordingServer) : RecordingEvent → Except RequirementError RecordingServer
  | .createRecording c id owner contentHash payload expiresAt =>
    s.withDb <$> s.db.insertRecording (newRecording c id owner contentHash payload expiresAt)
  | .deleteRecording c id => s.withDb <$> s.db.deleteRecording c id
  | .deleteExpiredRecordings c before batch tie =>
    (fun r => s.withDb r.1) <$> s.db.deleteExpiredRecordings c before batch tie
  | .createRequirementJob earlier c n request newID =>
    s.withDb <$> s.db.createRequirementJob c n request newID earlier
  | .claimPendingRequirementJob now lease tie reportID =>
    (fun r => ⟨r.1, s.claims ++ r.2.toList⟩) <$> s.db.claimPendingRequirementJob now lease tie reportID
  | .createLLMProviderCall earlier c call accepted joined newID =>
    s.withDb <$> s.db.createLLMProviderCall c call accepted joined newID earlier
  | .updateRequirementJobProgress c id attemptNumber total completed =>
    s.withDb <$> s.db.updateRequirementJobProgress c id attemptNumber total completed
  | .completeRequirementJob c k o report =>
    s.withCopy k fun job => s.db.completeRequirementJob c job o report
  | .completeRequirementJobWithDraft c k o n subject report =>
    s.withCopy k fun job => s.db.completeRequirementJobWithDraft c job o n subject report
  | .failRequirementJob c k terminal code message retryDelay report =>
    s.withCopy k fun job =>
      s.db.failRequirementJob c (job.bounded terminal) code message retryDelay report
  | .retryRequirementJob c id => s.withDb <$> s.db.retryRequirementJob c id
  | .createCollectionRequirement c n subject newID =>
    s.withDb <$> s.db.createCollectionRequirement c n subject newID
  | .confirmCollectionRequirement c id actor =>
    s.withDb <$> s.db.confirmCollectionRequirement c id actor
  | .dsl e => s.withDb <$> s.db.serveDsl d e

/-- One event: an error changes nothing. -/
def step (d : Digests) (s : RecordingServer) (e : RecordingEvent) : RecordingServer :=
  match s.serve d e with
  | .error _ => s
  | .ok s' => s'

end RecordingServer

end Aegis.Requirements
