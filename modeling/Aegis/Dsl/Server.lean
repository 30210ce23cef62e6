import Aegis.Dsl.Sealing
import Aegis.Lib.Run

/-!
# Dsl.Server

The rule workflow under any number of clients and workers.

An event is one call, with its context and every name and order it draws. The log
lists what the successful calls did, oldest first. Workers call with the copies of jobs that claims
handed out, which they may keep beyond their leases; all they change of a copy is the flags they
record.
-/

namespace Aegis

inductive DslReply where
  | adopted (workflowID : String) (artifact : ProvisionalDSLArtifact)
  | claimed (job : DSLJob)
  | dispatched (jobID : String)
  | completed (job : DSLJob) (artifact : ProvisionalDSLArtifact)
  | corrected (workflowID : String) (artifact : ProvisionalDSLArtifact)
  | replayStarted (attempt : ReplayAttempt)
  | replayCompleted (attempt : ReplayAttempt)
  | approved (workflowID : String) (opts : ApproveDSLWorkflowOptions) (version : SealedRuleVersion)
deriving DecidableEq

structure DslServer where
  db : DslDb
  log : List DslReply

def DslServer.init : DslServer := ⟨.empty, []⟩

def DslReply.job? : DslReply → Option DSLJob
  | .claimed job => some job
  | _ => none

inductive DslEvent where
  | createDSLWorkflow (c : DSLCtx) (w : NewDSLWorkflow) (options : Option DSLWorkflowOptions)
      (confirmed : Bool) (newID jobID : String)
  | createAdminReviewedDSLWorkflow (c : DSLCtx) (w : NewDSLWorkflow)
      (artifact : ProvisionalDSLArtifact) (confirmed : Bool) (newID : String)
  | claimPendingDSLJob (now : Time) (lease : Duration) (tie : String → Nat)
  | markDSLSelectorRepairDispatched (now : Time) (held : Nat)
  | scheduleDSLSelectorRepair (earlier : DslDb) (c : DSLCtx) (held : Nat) (flags : List String)
      (report : LLMAttemptReport) (checks : ReportChecks) (childID : String)
  | completeDSLJob (earlier : DslDb) (c : DSLCtx) (held : Nat) (flags : List String)
      (artifact : ProvisionalDSLArtifact) (report : Option (LLMAttemptReport × ReportChecks))
  | failDSLJob (earlier : DslDb) (c : DSLCtx) (held : Nat) (flags : List String)
      (code message : String) (retryDelay : Duration)
      (report : Option (LLMAttemptReport × ReportChecks))
  | correctDSLWorkflow (c : DSLCtx) (workflowID : String) (artifact : ProvisionalDSLArtifact)
  | startDSLReplay (c : DSLCtx) (workflowID : String) (timeout : Option Duration)
      (attemptID : String)
  | completeDSLReplay (c : DSLCtx) (attemptID : String) (attemptWorkspace : WorkspaceID)
      (o : ReplayOutcome) (repairJobID : Option String) (repairMaxAttempts : Option Int)
  | approveDSLWorkflow (c : DSLCtx) (workflowID : String) (opts : ApproveDSLWorkflowOptions)
      (reads : RequirementReads)
  /-- `CreateRuleVersion`: a version made of a rule alone has no browser profile. -/
  | createRuleVersion (c : DSLCtx) (input : RuleDocument) (recordingID : String)
      (inputSchema outputSchema : JSON) (recordingLive : Bool)
  | approveRuleVersion (c : DSLCtx) (ruleID : String) (version : Nat)
  | rejectRuleVersion (c : DSLCtx) (ruleID : String) (version : Nat)
  | changeRules (rules : Table RuleDocument.id)

namespace DslServer

def held (s : DslServer) : List DSLJob := s.log.filterMap DslReply.job?

def copy (s : DslServer) (k : Nat) (flags : List String) : Option DSLJob :=
  s.held[k]?.map fun job => { job with safetyFlags := flags }

def serve (d : Digests) (s : DslServer) : DslEvent → Except DSLError (DslDb × List DslReply)
  | .createDSLWorkflow c w options confirmed newID jobID =>
    (fun r => (r.1, [])) <$> s.db.createDSLWorkflow c w options confirmed newID jobID
  | .createAdminReviewedDSLWorkflow c w artifact confirmed newID =>
    (fun r => (r.1, if (s.db.workflows.find? r.2).isSome then [] else [.adopted r.2 artifact])) <$>
      s.db.createAdminReviewedDSLWorkflow d.artifactHash c w artifact confirmed newID
  | .claimPendingDSLJob now lease tie =>
    (fun r => (r.1, r.2.toList.map .claimed)) <$> s.db.claimPendingDSLJob now lease tie
  | .markDSLSelectorRepairDispatched now k =>
    match s.held[k]? with
    | none => .error .jobState
    | some job => (fun db => (db, [.dispatched job.id])) <$> s.db.markDSLSelectorRepairDispatched now job
  | .scheduleDSLSelectorRepair earlier c k flags report checks childID =>
    match s.copy k flags with
    | none => .error .artifactInvalid
    | some job => (fun r => (r.1, [])) <$>
        s.db.scheduleDSLSelectorRepairWithAttemptReport c job report checks childID earlier
  | .completeDSLJob earlier c k flags artifact report =>
    match s.copy k flags with
    | none => .error .jobState
    | some job => (fun db => (db, [.completed job artifact])) <$>
        s.db.completeDSLJob d.artifactHash c job artifact report earlier
  | .failDSLJob earlier c k flags code message retryDelay report =>
    match s.copy k flags with
    | none => .error .jobState
    | some job => (fun db => (db, [])) <$> s.db.failDSLJob c job code message retryDelay report earlier
  | .correctDSLWorkflow c workflowID artifact =>
    (fun db => (db, [.corrected workflowID artifact])) <$>
      s.db.correctDSLWorkflow d.artifactHash c workflowID artifact
  | .startDSLReplay c workflowID timeout attemptID =>
    (fun r => (r.1, [.replayStarted r.2])) <$> s.db.startDSLReplay c workflowID timeout attemptID
  | .completeDSLReplay c attemptID attemptWorkspace o repairJobID repairMaxAttempts =>
    (fun r => (r.1, [.replayCompleted r.2.2])) <$>
      s.db.completeDSLReplay c attemptID attemptWorkspace o repairJobID repairMaxAttempts
  | .approveDSLWorkflow c workflowID opts reads =>
    (fun r => (r.1, [.approved workflowID opts r.2.1])) <$>
      s.db.approveDSLWorkflow d c workflowID opts reads
  | .createRuleVersion c input recordingID inputSchema outputSchema recordingLive =>
    (fun r => (r.1, [])) <$> s.db.createRuleVersion d.contentHash c input ⟨inputSchema, outputSchema, ""⟩
        ⟨"", "", "", "", "", recordingID, [], "", ""⟩ recordingLive
  | .approveRuleVersion c ruleID version => do
    let v ← s.db.getRuleVersion c ruleID version
    let r ← s.db.approveRuleVersion c v
    pure (r.1, [])
  | .rejectRuleVersion c ruleID version =>
    (fun db => (db, [])) <$> s.db.rejectRuleVersion c ruleID version
  | .changeRules rules => .ok ({ s.db with rules }, [])

/-- One event: an error changes nothing. -/
def step (d : Digests) (s : DslServer) (e : DslEvent) : DslServer :=
  match s.serve d e with
  | .error _ => s
  | .ok (db, replies) => ⟨db, s.log ++ replies⟩

end DslServer

end Aegis
