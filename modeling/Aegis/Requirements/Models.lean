import Aegis.Dsl.Server

/-!
# Requirements.Models

The rows a recording gives rise to before its rule workflows: the recording itself, the jobs that
read requirements out of it, the requirements, and the provider calls and reports of the jobs
(`internal/models/recording.go`, `requirement.go`, `llm_attempt_artifact.go`).

An encrypted artifact is kept as the value that was sealed in it.
-/

namespace Aegis.Requirements

inductive RecordingStatus where
  | captured | deleted
deriving DecidableEq

structure Recording where
  id : String
  workspaceID : WorkspaceID
  owner : String
  status : RecordingStatus
  contentHash : String
  encryptedPayload : Option String
  createdAt : Time
  updatedAt : Time
  expiresAt : Time
  deletedAt : Option Time

def Recording.identity (r : Recording) : String × WorkspaceID × String × String × Time × Time :=
  (r.id, r.workspaceID, r.owner, r.contentHash, r.createdAt, r.expiresAt)

inductive RequirementJobKind where
  | candidates | normalize
deriving DecidableEq

inductive RequirementJobStatus where
  | pending | running | completed | failed
deriving DecidableEq

inductive RequirementSource where
  | llm | manual

structure RequirementJob where
  id : String
  workspaceID : WorkspaceID
  recordingID : String
  kind : RequirementJobKind
  status : RequirementJobStatus
  source : RequirementSource
  request : JSON
  result : Option JSON
  chunkCount : Int
  completedChunks : Int
  attemptCount : Nat
  maxAttempts : Nat
  attemptBudget : Nat
  availableAt : Time
  leaseUntil : Option Time
  errorCode : Option String
  errorMessage : Option String
  requirementID : Option String
  createdAt : Time
  updatedAt : Time
  startedAt : Option Time
  completedAt : Option Time

def RequirementJob.identity (j : RequirementJob) :
    String × WorkspaceID × String × RequirementJobKind × RequirementSource × JSON × Nat × Time :=
  (j.id, j.workspaceID, j.recordingID, j.kind, j.source, j.request, j.attemptBudget, j.createdAt)

inductive CollectionRequirementStatus where
  | draft | confirmed
deriving DecidableEq

structure CollectionRequirement where
  id : String
  workspaceID : WorkspaceID
  recordingID : String
  sourceJobID : Option String
  source : RequirementSource
  status : CollectionRequirementStatus
  content : JSON
  owner : String
  createdAt : Time
  updatedAt : Time
  confirmedAt : Option Time
  confirmedBy : Option String

/-- The key, and the columns `trg_collection_requirements_immutable_content` protects. -/
def CollectionRequirement.identity (q : CollectionRequirement) :
    String × WorkspaceID × String × Option String × RequirementSource × JSON × String × Time :=
  (q.id, q.workspaceID, q.recordingID, q.sourceJobID, q.source, q.content, q.owner, q.createdAt)

structure LLMProviderCall where
  id : String
  workspaceID : WorkspaceID
  recordingID : String
  jobType : LLMJobType
  jobID : String
  attemptNumber : Nat
  callIndex : Nat
  replayable : Bool
  createdAt : Time

/-- A row of `llm_attempt_reports` whose job is a requirement job. -/
structure RequirementReport where
  id : String
  workspaceID : WorkspaceID
  recordingID : String
  jobID : String
  attemptNumber : Nat
  outcome : LLMAttemptOutcome
  callCount : Nat
  errorCode : String
  errorMessage : String
  replayable : Bool
  createdAt : Time

end Aegis.Requirements
