import Aegis.Models

/-!
# Dsl.Models

The rows of the rule workflow domain (`internal/models/dsl_workflow.go` and what it refers to), one
structure a table, with the columns the modelled statements read or write.

An encrypted artifact is kept as the value that was sealed in it.
-/

namespace Aegis

/-- `models.Rule` as it is marshalled; `body` holds the fields that nothing here reads. -/
structure RuleDocument where
  id : String
  workspaceID : WorkspaceID
  version : String
  enabled : Bool
  vars : JSON
  output : JSON
  body : JSON
  owner : String
  approvalStatus : String
  source : String
  createdAt : Time
  updatedAt : Time
deriving DecidableEq

structure ProvisionalDSLArtifact where
  rule : RuleDocument
  yaml : String
deriving DecidableEq

def blockingSealingFlags : List String :=
  ["external-resource-load", "script-tag-in-selector", "iframe-embed", "event-handler-attribute"]

def blockingFlags (flags : List String) : List String :=
  flags.filter fun f => blockingSealingFlags.contains f

inductive DSLWorkflowStatus where
  | generating | awaitingReplay | replaying | repairing | awaitingConfirmation | failed | approved
deriving DecidableEq

/-- The `source_kind` and `source_authority` of an imported rule. -/
def dslWorkflowSourceAdminReviewedAttemptExport : String := "admin_reviewed_attempt_export"
def dslWorkflowSourceAuthorityNonAuthoritative : String := "non-authoritative"

structure DSLWorkflow where
  id : String
  workspaceID : WorkspaceID
  requirementID : String
  recordingID : String
  status : DSLWorkflowStatus
  browserProfileID : String
  currentJobID : Option String
  repairCount : Nat
  maxRepairs : Nat
  provisionalArtifact : Option ProvisionalDSLArtifact
  provisionalHash : Option String
  lastReplaySequence : Nat
  errorCode : Option String
  errorMessage : Option String
  owner : String
  sourceKind : String
  sourceAuthority : String
  sourceArtifactHash : String
  sourceExportHash : String
  safetyFlags : List String
  budgetUSDNanos : Int
  spentUSDNanos : Int
  createdAt : Time
  updatedAt : Time
  approvedAt : Option Time

/-- The key, and the columns `trg_dsl_workflows_immutable_identity` protects. -/
def DSLWorkflow.identity (w : DSLWorkflow) :
    String × WorkspaceID × String × String × String × Nat × String × String × String × String ×
      String × Time :=
  (w.id, w.workspaceID, w.requirementID, w.recordingID, w.browserProfileID, w.maxRepairs, w.owner,
    w.sourceKind, w.sourceAuthority, w.sourceArtifactHash, w.sourceExportHash, w.createdAt)

inductive DSLJobKind where
  | generate | repair | selectorRepair
deriving DecidableEq

inductive DSLJobStatus where
  | pending | running | completed | failed
deriving DecidableEq

def DSLJobStatus.isLive : DSLJobStatus → Bool
  | .pending | .running => true
  | _ => false

structure DSLJob where
  id : String
  workspaceID : WorkspaceID
  workflowID : String
  kind : DSLJobKind
  status : DSLJobStatus
  attemptCount : Nat
  maxAttempts : Nat
  availableAt : Time
  leaseUntil : Option Time
  providerDispatched : Bool
  sourceAttemptReportID : Option String
  errorCode : Option String
  errorMessage : Option String
  safetyFlags : List String
  createdAt : Time
  updatedAt : Time
  startedAt : Option Time
  completedAt : Option Time
deriving DecidableEq

/-- The key, and the columns `trg_dsl_jobs_immutable_identity` protects. -/
def DSLJob.identity (j : DSLJob) :
    String × WorkspaceID × String × DSLJobKind × Nat × Option String × Time :=
  (j.id, j.workspaceID, j.workflowID, j.kind, j.maxAttempts, j.sourceAttemptReportID, j.createdAt)

inductive ReplayAttemptStatus where
  | running | succeeded | failed
deriving DecidableEq

structure ReplayAttempt where
  id : String
  workspaceID : WorkspaceID
  workflowID : String
  sequence : Nat
  status : ReplayAttemptStatus
  ruleHash : String
  browserProfileID : String
  outputValid : Bool
  errorCode : Option String
  errorMessage : Option String
  startedAt : Time
  completedAt : Option Time
  expiresAt : Option Time
deriving DecidableEq

/-- The key, and the columns `trg_dsl_replay_attempts_immutable_identity` protects. -/
def ReplayAttempt.identity (a : ReplayAttempt) :
    String × WorkspaceID × String × Nat × String × String × Time :=
  (a.id, a.workspaceID, a.workflowID, a.sequence, a.ruleHash, a.browserProfileID, a.startedAt)

inductive LLMJobType where
  | requirement | dsl
deriving DecidableEq

inductive LLMAttemptOutcome where
  | succeeded | failed
deriving DecidableEq

structure LLMAttemptReport where
  id : String
  workspaceID : WorkspaceID
  recordingID : String
  jobType : LLMJobType
  jobID : String
  attemptNumber : Nat
  outcome : LLMAttemptOutcome
  errorCode : String
  errorMessage : String
  replayable : Bool

structure DSLApproval where
  workspaceID : WorkspaceID
  workflowID : String
  requirementID : String
  recordingID : String
  ruleID : String
  versionNumber : Nat
  createdAt : Time

/-- A row of `rule_versions`, with the columns the approval of a workflow writes. -/
structure SealedRuleVersion where
  workspaceID : WorkspaceID
  ruleID : String
  version : Nat
  versionLabel : String
  rule : RuleDocument
  contentHash : String
  status : RuleApprovalStatus
  owner : String
  source : String
  recordingID : String
  safetyFlags : List String
  dslWorkflowID : String
  dslJobID : String
  createdAt : Time
  approvedAt : Option Time
  approvedBy : String
  rejectedAt : Option Time
  rejectedBy : String
deriving DecidableEq

def SealedRuleVersion.key (v : SealedRuleVersion) : WorkspaceID × String × Nat :=
  (v.workspaceID, v.ruleID, v.version)

/-- A row of `rule_version_contracts`. -/
structure SealedContract where
  workspaceID : WorkspaceID
  ruleID : String
  version : Nat
  inputSchema : JSON
  outputSchema : JSON
  browserProfileID : String
  sourceKind : String
  sourceAuthority : String
  sourceArtifactHash : String
  sourceExportHash : String
  sourceWorkflowID : String
  createdAt : Time

def SealedContract.key (c : SealedContract) : WorkspaceID × String × Nat :=
  (c.workspaceID, c.ruleID, c.version)

structure AuditLog where
  workspaceID : WorkspaceID
  actor : String
  action : String
  resourceType : String
  resourceID : String
  createdAt : Time

end Aegis
