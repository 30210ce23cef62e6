import Aegis.Dsl.Ops

/-!
# Dsl.Sealing

How a rule becomes an immutable version: `store/rule_version.go`, and `ApproveDSLWorkflow`, which
seals the provisional rule of a workflow.

A rule is copied through its JSON document, so a copy is the rule itself.
-/

namespace Aegis

open Table

structure RuleVersionContent where
  rule : RuleDocument
  inputSchema : JSON
  outputSchema : JSON
  browserProfileID : String
  sourceKind : String
  sourceAuthority : String
  sourceArtifactHash : String
  sourceExportHash : String
  sourceWorkflowID : String

/-- The digests (SHA-256) of a sealed artifact and of the content of a rule version. -/
structure Digests where
  artifactHash : ProvisionalDSLArtifact → String
  contentHash : RuleVersionContent → String

structure Lineage where
  sourceKind : String
  sourceAuthority : String
  sourceArtifactHash : String
  sourceExportHash : String
  sourceWorkflowID : String
  recordingID : String
  safetyFlags : List String
  dslWorkflowID : String
  dslJobID : String

structure ExecutionContract where
  inputSchema : JSON
  outputSchema : JSON
  browserProfileID : String

/-! ## Rule versions -/

def versionRule (c : DSLCtx) (lineage : Lineage) (input : RuleDocument) : RuleDocument :=
  { input with
    workspaceID := c.workspace
    owner := c.subject
    approvalStatus := "approved"
    enabled := true
    source := if input.source.isEmpty && lineage.sourceKind.isEmpty then "pageagent"
      else input.source
    createdAt := if input.createdAt == Time.zero then c.now else input.createdAt
    updatedAt := c.now
    version := if input.version.isEmpty then "1" else input.version }

def catalogRule (c : DSLCtx) (lineage : Lineage) (input : RuleDocument) : RuleDocument :=
  { input with
    workspaceID := c.workspace
    owner := c.subject
    approvalStatus := "pending"
    enabled := false
    source := if !lineage.sourceKind.isEmpty then lineage.sourceKind
      else if input.source.isEmpty then "pageagent" else input.source
    createdAt := if input.createdAt == Time.zero then c.now else input.createdAt
    updatedAt := c.now }

def RuleDocument.content (r : RuleDocument) : RuleDocument :=
  { r with createdAt := Time.zero, updatedAt := Time.zero }

def versionContent (rule : RuleDocument) (k : ExecutionContract) (lineage : Lineage) :
    RuleVersionContent where
  rule := rule.content
  inputSchema := k.inputSchema
  outputSchema := k.outputSchema
  browserProfileID := k.browserProfileID
  sourceKind := lineage.sourceKind
  sourceAuthority := lineage.sourceAuthority
  sourceArtifactHash := lineage.sourceArtifactHash
  sourceExportHash := lineage.sourceExportHash
  sourceWorkflowID := lineage.sourceWorkflowID

/-- The columns of a version `trg_rule_versions_immutable_content` protects. -/
def SealedRuleVersion.content (v : SealedRuleVersion) :
    (WorkspaceID × String × Nat) × String × RuleDocument × String × String × String × String ×
      Time :=
  (v.key, v.versionLabel, v.rule, v.contentHash, v.owner, v.source, v.recordingID, v.createdAt)

theorem SealedRuleVersion.key_of_content {u v : SealedRuleVersion} (h : u.content = v.content) :
    u.key = v.key :=
  congrArg Prod.fst h

/-- `SET approval_status, approved_at, approved_by`. -/
def approveVersion (now : Time) (actor : String) : SetClause SealedRuleVersion.content where
  set v := { v with status := .approved, approvedAt := some now, approvedBy := actor }
  keeps _ := rfl

/-- `SET approval_status, rejected_at, rejected_by`. -/
def rejectVersion (now : Time) (actor : String) : SetClause SealedRuleVersion.content where
  set v := { v with status := .rejected, rejectedAt := some now, rejectedBy := actor }
  keeps _ := rfl

def versionOnKey (f : SetClause SealedRuleVersion.content) : SetClause SealedRuleVersion.key :=
  ⟨f.set, fun v => SealedRuleVersion.key_of_content (f.keeps v)⟩

/-- `ON CONFLICT(id) DO UPDATE SET`: every column but the key, the workspace and the creation. -/
def overwriteRule (r : RuleDocument) : SetClause RuleDocument.id where
  set q := { r with id := q.id, workspaceID := q.workspaceID, createdAt := q.createdAt }
  keeps _ := rfl

namespace DslDb

/-- `createRuleWithExec`: insert the rule, or replace the one of the same workspace. -/
def createRule (c : DSLCtx) (input : RuleDocument) (db : DslDb) : Except DSLError DslDb :=
  let r := { input with
    workspaceID := c.workspace
    approvalStatus := if input.approvalStatus.isEmpty then "approved" else input.approvalStatus
    source := if input.source.isEmpty then "pageagent" else input.source }
  match db.rules.find? r.id with
  | some q =>
    if q.workspaceID == c.workspace then
      .ok { db with rules := db.rules.updateRow r.id (overwriteRule r) }
    else .error .ruleNotFound
  | none =>
    match db.rules.insert? r with
    | none => .error (.constraint "UNIQUE constraint failed: rules.id")
    | some rules => .ok { db with rules }

/-- `SELECT EXISTS(SELECT 1 FROM rules WHERE id = ? AND workspace_id = ?)`. -/
def ruleExists (db : DslDb) (c : DSLCtx) (ruleID : String) : Bool :=
  (db.rules.find? ruleID).any fun r => r.workspaceID == c.workspace

def ensureRule (c : DSLCtx) (lineage : Lineage) (input : RuleDocument) (db : DslDb) :
    Except DSLError DslDb :=
  if db.ruleExists c input.id then .ok db else db.createRule c (catalogRule c lineage input)

def getRuleVersion (c : DSLCtx) (ruleID : String) (version : Nat) (db : DslDb) :
    Except DSLError SealedRuleVersion :=
  match db.ruleVersions.find? (c.workspace, ruleID, version) with
  | none => .error .ruleVersionNotFound
  | some v => .ok v

/-- `getRuleVersionContractWithExec`. -/
def getRuleVersionContract (c : DSLCtx) (ruleID : String) (version : Nat) (db : DslDb) :
    Except DSLError SealedContract :=
  match db.contracts.find? (c.workspace, ruleID, version) with
  | none => .error .ruleVersionNotFound
  | some k => .ok k

def getRuleVersionByHash (c : DSLCtx) (ruleID hash : String) (db : DslDb) : Option SealedRuleVersion :=
  db.ruleVersions.rows.find? fun v =>
    v.workspaceID == c.workspace && v.ruleID == ruleID && v.contentHash == hash

/-- `SELECT COALESCE(MAX(version_number), 0) + 1`. -/
def nextVersion (db : DslDb) (c : DSLCtx) (ruleID : String) : Nat :=
  ((db.ruleVersions.rows.filter fun v => v.workspaceID == c.workspace && v.ruleID == ruleID).map
    SealedRuleVersion.version).max?.getD 0 + 1

/-- `INSERT INTO rule_versions`. -/
def insertRuleVersion (v : SealedRuleVersion) (db : DslDb) : Except DSLError DslDb := do
  ensure ((db.rules.find? v.ruleID).any fun r => r.workspaceID == v.workspaceID)
    (.constraint "rule not found in workspace")
  ensure (!db.ruleVersions.any fun u => u.workspaceID == v.workspaceID && u.ruleID == v.ruleID &&
      u.contentHash == v.contentHash)
    (.constraint "UNIQUE constraint failed: rule_versions.content_hash")
  match db.ruleVersions.insert? v with
  | none => .error (.constraint "UNIQUE constraint failed: rule_versions")
  | some ruleVersions => pure { db with ruleVersions }

def emptyInputSchema : JSON :=
  "\x7b\"type\":\"object\",\"properties\":\x7b\x7d,\"required\":[]," ++ "\"additionalProperties\":false\x7d"
def openOutputSchema : JSON :=
  "\x7b\"type\":\"object\",\"properties\":\x7b\x7d,\"additionalProperties\":true\x7d"

/-- `insertRuleVersionContractWithExec`, after its defaults. -/
def insertContract (k : SealedContract) (db : DslDb) : Except DSLError DslDb := do
  ensure (db.ruleVersions.find? k.key).isSome (.constraint "rule version not found in workspace")
  match db.contracts.insert? k with
  | none => .error (.constraint "UNIQUE constraint failed: rule_version_contracts")
  | some contracts => pure { db with contracts }

/-- The version `createRuleVersionWithContractAndLineageExec` inserts. -/
def newVersion (c : DSLCtx) (lineage : Lineage) (rule : RuleDocument) (hash : String)
    (version : Nat) : SealedRuleVersion where
  workspaceID := c.workspace
  ruleID := rule.id
  version := version
  versionLabel := rule.version
  rule := rule
  contentHash := hash
  status := .pending
  owner := rule.owner
  source := if lineage.sourceKind.isEmpty then rule.source else lineage.sourceKind
  recordingID := lineage.recordingID
  safetyFlags := lineage.safetyFlags
  dslWorkflowID := lineage.dslWorkflowID
  dslJobID := lineage.dslJobID
  createdAt := c.now
  approvedAt := none
  approvedBy := ""
  rejectedAt := none
  rejectedBy := ""

def newContract (c : DSLCtx) (k : ExecutionContract) (lineage : Lineage) (ruleID : String)
    (version : Nat) : SealedContract where
  workspaceID := c.workspace
  ruleID := ruleID
  version := version
  inputSchema := if k.inputSchema.isEmpty then emptyInputSchema else k.inputSchema
  outputSchema := if k.outputSchema.isEmpty then openOutputSchema else k.outputSchema
  browserProfileID := k.browserProfileID
  sourceKind := lineage.sourceKind
  sourceAuthority := lineage.sourceAuthority
  sourceArtifactHash := lineage.sourceArtifactHash
  sourceExportHash := lineage.sourceExportHash
  sourceWorkflowID := lineage.sourceWorkflowID
  createdAt := c.now

/-- `createRuleVersionWithContractAndLineageExec`; `recordingLive` tells whether the recording is
there and not deleted. A version with the same content is returned as it stands. -/
def createRuleVersion (contentHash : RuleVersionContent → String) (c : DSLCtx)
    (input : RuleDocument) (k : ExecutionContract) (lineage : Lineage) (recordingLive : Bool)
    (db : DslDb) : Except DSLError (DslDb × SealedRuleVersion) := do
  ensure (!input.id.isEmpty) .ruleNotFound
  let db ← db.ensureRule c lineage input
  ensure (lineage.recordingID.isEmpty || recordingLive) .recordingNotFound
  let rule := versionRule c lineage input
  let hash := contentHash (versionContent rule k lineage)
  match db.getRuleVersionByHash c rule.id hash with
  | some existing => pure (db, existing)
  | none => do
    let v := newVersion c lineage rule hash (db.nextVersion c rule.id)
    let db ← db.insertRuleVersion v
    let db ← db.insertContract (newContract c k lineage rule.id v.version)
    pure (db, v)

/-- `UPDATE rule_versions SET f`, on a pending row with this key. -/
def decideVersion (key : WorkspaceID × String × Nat) (f : SetClause SealedRuleVersion.content)
    (db : DslDb) : Except DSLError DslDb :=
  match db.ruleVersions.find? key with
  | none => .error .ruleVersionState
  | some v => do
    ensure (v.status == .pending) .ruleVersionState
    pure { db with ruleVersions := db.ruleVersions.updateRow key (versionOnKey f) }

/-- `approveRuleVersionWithExec`: the version as it is returned, and the catalog entry made from
it. -/
def approveRuleVersion (c : DSLCtx) (current : SealedRuleVersion) (db : DslDb) :
    Except DSLError (DslDb × SealedRuleVersion) := do
  ensure (current.status == .pending) .ruleVersionState
  let db ← db.decideVersion current.key (approveVersion c.now c.subject)
  let rule := { current.rule with
    version := current.versionLabel, approvalStatus := "approved", enabled := true,
    updatedAt := c.now }
  let db ← db.createRule c rule
  pure (db, { current with
    rule := { rule with workspaceID := c.workspace }
    status := .approved, approvedAt := some c.now, approvedBy := c.subject })

def rejectRuleVersion (c : DSLCtx) (ruleID : String) (version : Nat) (db : DslDb) :
    Except DSLError DslDb := do
  let v ← db.getRuleVersion c ruleID version
  ensure (v.status == .pending) .ruleVersionState
  db.decideVersion v.key (rejectVersion c.now c.subject)

section Specs

variable {db db' : DslDb} {c : DSLCtx} {v : SealedRuleVersion}

theorem createRule_eq_ok {r : RuleDocument} (h : db.createRule c r = .ok db') :
    ∃ rules, db' = { db with rules } := by
  simp only [createRule] at h
  split at h
  · split at h
    · exact ⟨_, (Except.ok.inj h).symm⟩
    · cases h
  · split at h
    · cases h
    · exact ⟨_, (Except.ok.inj h).symm⟩

theorem insertRuleVersion_eq_ok (h : db.insertRuleVersion v = .ok db') :
    ∃ t, db.ruleVersions.Wrote t v ∧ db.ruleVersions.find? v.key = none ∧
      db' = { db with ruleVersions := t } := by
  simp only [insertRuleVersion, ensure_bind_eq_ok] at h
  obtain ⟨-, -, h⟩ := h
  cases ht : db.ruleVersions.insert? v with
  | none => simp [ht] at h
  | some t =>
    simp only [ht, pure_eq_ok] at h
    exact ⟨t, wrote_insert? ht, (insert?_eq_some.mp ht).1, h.symm⟩

theorem insertContract_eq_ok {k : SealedContract} (h : db.insertContract k = .ok db') :
    ∃ t, db.contracts.Wrote t k ∧ db' = { db with contracts := t } := by
  simp only [insertContract, ensure_bind_eq_ok] at h
  obtain ⟨-, h⟩ := h
  cases ht : db.contracts.insert? k with
  | none => simp [ht] at h
  | some t =>
    simp only [ht, pure_eq_ok] at h
    exact ⟨t, wrote_insert? ht, h.symm⟩

theorem createRuleVersion_eq_ok {contentHash : RuleVersionContent → String} {input : RuleDocument}
    {k : ExecutionContract} {lineage : Lineage} {recordingLive : Bool}
    (h : db.createRuleVersion contentHash c input k lineage recordingLive = .ok (db', v)) :
    ∃ rules hash, hash = contentHash (versionContent (versionRule c lineage input) k lineage) ∧
      ((db.getRuleVersionByHash c input.id hash = some v ∧ db' = { db with rules }) ∨
        ∃ ruleVersions contracts version,
          v = newVersion c lineage (versionRule c lineage input) hash version ∧
          db.ruleVersions.find? v.key = none ∧ db.ruleVersions.Wrote ruleVersions v ∧
          db.contracts.Wrote contracts (newContract c k lineage input.id version) ∧
          db' = { db with rules, ruleVersions, contracts }) := by
  simp only [createRuleVersion, bind_eq_ok, ensure_eq_ok, exists_const] at h
  obtain ⟨-, db₁, h₁, -, h⟩ := h
  have hrules : ∃ rules, db₁ = { db with rules } := by
    unfold ensureRule at h₁
    split at h₁
    · exact ⟨db.rules, (Except.ok.inj h₁).symm⟩
    · exact createRule_eq_ok h₁
  obtain ⟨rules, rfl⟩ := hrules
  refine ⟨rules, _, rfl, ?_⟩
  split at h
  · rename_i existing hexisting
    cases pure_eq_ok.mp h
    exact .inl ⟨hexisting, rfl⟩
  · simp only [bind_eq_ok, pure_eq_ok, Prod.mk.injEq] at h
    obtain ⟨db₂, h₂, db₃, h₃, rfl, rfl⟩ := h
    obtain ⟨ruleVersions, hwrote, hfresh, rfl⟩ := insertRuleVersion_eq_ok h₂
    obtain ⟨contracts, hcontract, rfl⟩ := insertContract_eq_ok h₃
    exact .inr ⟨ruleVersions, contracts, _, rfl, hfresh, hwrote, hcontract, rfl⟩

theorem decideVersion_eq_ok {key : WorkspaceID × String × Nat}
    {f : SetClause SealedRuleVersion.content} (h : db.decideVersion key f = .ok db') :
    ∃ u t, db.ruleVersions.find? u.key = some u ∧ u.key = key ∧ u.status = .pending ∧
      db.ruleVersions.Wrote t (f.set u) ∧ db' = { db with ruleVersions := t } := by
  unfold decideVersion at h
  cases hu : db.ruleVersions.find? key with
  | none => simp [hu] at h
  | some u =>
    obtain rfl := key_of_find? hu
    simp only [hu, ensure_bind_eq_ok, pure_eq_ok, beq_iff_eq] at h
    obtain ⟨hpending, rfl⟩ := h
    exact ⟨u, _, hu, rfl, hpending, wrote_updateRow (versionOnKey f) hu, rfl⟩

theorem approveRuleVersion_eq_ok {current : SealedRuleVersion}
    (h : db.approveRuleVersion c current = .ok (db', v)) :
    ∃ u rules ruleVersions, db.ruleVersions.find? u.key = some u ∧ u.key = current.key ∧
      u.status = .pending ∧ db.ruleVersions.Wrote ruleVersions
        ((approveVersion c.now c.subject).set u) ∧
      db' = { db with rules, ruleVersions } ∧ v.key = current.key ∧ v.status = .approved := by
  simp only [approveRuleVersion, bind_eq_ok, ensure_eq_ok, exists_const, pure_eq_ok, Prod.mk.injEq] at h
  obtain ⟨-, db₁, h₁, db₂, h₂, rfl, rfl⟩ := h
  obtain ⟨u, ruleVersions, hu, hkey, hpending, hwrote, rfl⟩ := decideVersion_eq_ok h₁
  obtain ⟨rules, rfl⟩ := createRule_eq_ok h₂
  exact ⟨u, rules, ruleVersions, hu, hkey, hpending, hwrote, rfl, rfl, rfl⟩

end Specs

end DslDb

structure ApproveDSLWorkflowOptions where
  overrideSafety : Bool
  overrideActor : String
deriving DecidableEq

/-- What an approval reads of tables left out here: whether the requirement and the recording of
the workflow are there, the schemas built from the requirement, and whether the recording is not
deleted. -/
structure RequirementReads where
  joined : Bool
  schemas : Except DSLError (JSON × JSON)
  recordingLive : Bool

def DSLWorkflow.sourceValid (w : DSLWorkflow) : Bool :=
  if w.sourceKind == dslWorkflowSourceAdminReviewedAttemptExport then
    w.sourceAuthority == dslWorkflowSourceAuthorityNonAuthoritative &&
      w.sourceArtifactHash.utf8ByteSize == 64 && w.sourceExportHash.utf8ByteSize == 64
  else
    w.sourceKind.isEmpty && w.sourceAuthority.isEmpty && w.sourceArtifactHash.isEmpty &&
      w.sourceExportHash.isEmpty

/-- `sourceWorkflowID`: the workflow itself when its rule was imported. -/
def DSLWorkflow.sourceWorkflowID (w : DSLWorkflow) : String :=
  if w.sourceKind == dslWorkflowSourceAdminReviewedAttemptExport then w.id else ""

/-- `SET status, approved_at, updated_at`. -/
def approveWorkflow (now : Time) : WorkflowUpdate where
  set w := { w with status := .approved, approvedAt := some now, updatedAt := now }
  keeps _ := rfl

namespace DslDb

def replaySucceeded (db : DslDb) (c : DSLCtx) (w : DSLWorkflow) : Bool :=
  db.replays.any fun a =>
    a.workspaceID == c.workspace && a.workflowID == w.id && a.sequence == w.lastReplaySequence &&
      a.status == .succeeded && a.outputValid && a.ruleHash == w.provisionalHash.getD ""

-- named, since an instance found by search would depend on what a module imports
local instance : LinearOrder Time := Int.instLinearOrder
local instance : Preorder Time := Int.instLinearOrder.toPreorder

def sourceJobID (db : DslDb) (c : DSLCtx) (workflowID : String) : String :=
  (((db.jobs.rows.filter fun j => j.workspaceID == c.workspace && j.workflowID == workflowID &&
    j.status == .completed && j.kind == .generate).argmax fun j =>
      j.completedAt.getD Time.zero).map DSLJob.id).getD ""

/-- `INSERT INTO dsl_approvals`. -/
def insertApproval (a : DSLApproval) (db : DslDb) : Except DSLError DslDb := do
  ensure ((db.workflows.find? a.workflowID).any fun w =>
      w.workspaceID == a.workspaceID && w.status == .approved &&
        w.requirementID == a.requirementID && w.recordingID == a.recordingID)
    (.constraint "approved dsl workflow not found in workspace")
  ensure (db.ruleVersions.find? (a.workspaceID, a.ruleID, a.versionNumber)).isSome
    (.constraint "FOREIGN KEY constraint failed")
  match db.approvals.insert? a with
  | none => .error (.constraint "UNIQUE constraint failed: dsl_approvals.workflow_id")
  | some approvals => pure { db with approvals }

def approveIfPending (c : DSLCtx) (version : SealedRuleVersion) (db : DslDb) :
    Except DSLError (DslDb × SealedRuleVersion) :=
  if version.status == .pending then db.approveRuleVersion c version else .ok (db, version)

/-- `ApproveDSLWorkflow` of a workflow that is approved: the version of its approval. -/
def approvedVersion (c : DSLCtx) (w : DSLWorkflow) (db : DslDb) :
    Except DSLError (SealedRuleVersion × SealedContract) :=
  match (db.approvals.find? w.id).filter fun a => a.workspaceID == c.workspace with
  | none => .error .workflowState
  | some a =>
    match db.getRuleVersion c a.ruleID a.versionNumber with
    | .error _ => .error .workflowState
    | .ok version => do
      ensure (version.status == .approved) .workflowState
      let contract ← db.getRuleVersionContract c a.ruleID a.versionNumber
      ensure (contract.sourceKind == w.sourceKind && contract.sourceAuthority == w.sourceAuthority &&
          contract.sourceArtifactHash == w.sourceArtifactHash &&
          contract.sourceExportHash == w.sourceExportHash &&
          contract.sourceWorkflowID == w.sourceWorkflowID)
        .workflowState
      pure (version, contract)

/-- What `ApproveDSLWorkflow` checks of a workflow it is to approve: its state, its safety flags,
its latest replay, and its source labels. The result is the sealed rule. -/
def approvableRule (artifactHash : ProvisionalDSLArtifact → String) (c : DSLCtx) (w : DSLWorkflow)
    (opts : ApproveDSLWorkflowOptions) (db : DslDb) : Except DSLError RuleDocument := do
  ensure (w.status == .awaitingConfirmation) .workflowState
  match w.provisionalArtifact with
  | none => .error .workflowState
  | some provisional => do
    let blocking := blockingFlags w.safetyFlags
    ensure (blocking.isEmpty || opts.overrideSafety) (.safetyBlockingFlag blocking)
    ensure (blocking.isEmpty || !opts.overrideActor.isEmpty) .overrideRequiresActor
    ensure (db.replaySucceeded c w) .workflowState
    -- openRequirementArtifact
    ensure (w.provisionalHash.all fun hash => hash.isEmpty || artifactHash provisional == hash)
      (.other "provisional artifact hash mismatch")
    ensure w.sourceValid .workflowState
    pure provisional.rule

def auditApproval (db : DslDb) (c : DSLCtx) (w : DSLWorkflow) (opts : ApproveDSLWorkflowOptions) : DslDb :=
  let db := db.audit c c.subject "dsl_workflow_approved" w.id
  if opts.overrideSafety && !(blockingFlags w.safetyFlags).isEmpty then
    db.audit c opts.overrideActor "dsl_workflow_safety_override" w.id
  else db

def approveDSLWorkflow (d : Digests) (c : DSLCtx) (workflowID : String)
    (opts : ApproveDSLWorkflowOptions) (reads : RequirementReads) (db : DslDb) :
    Except DSLError (DslDb × SealedRuleVersion × SealedContract) :=
  match (db.workflows.find? workflowID).filter fun w => w.workspaceID == c.workspace with
  | none => .error .workflowNotFound
  | some w => do
    ensure reads.joined .workflowNotFound
    if w.status == .approved then
      let result ← db.approvedVersion c w
      pure (db, result)
    else
      let rule ← db.approvableRule d.artifactHash c w opts
      let (inputSchema, outputSchema) ← reads.schemas
      let lineage : Lineage :=
        { sourceKind := w.sourceKind, sourceAuthority := w.sourceAuthority,
          sourceArtifactHash := w.sourceArtifactHash, sourceExportHash := w.sourceExportHash,
          sourceWorkflowID := w.sourceWorkflowID, recordingID := w.recordingID,
          safetyFlags := w.safetyFlags, dslWorkflowID := w.id,
          dslJobID := db.sourceJobID c w.id }
      let (db, version) ← db.createRuleVersion d.contentHash c rule
        { inputSchema, outputSchema, browserProfileID := w.browserProfileID } lineage
        reads.recordingLive
      let (db, version) ← db.approveIfPending c version
      let contract ← db.getRuleVersionContract c version.ruleID version.version
      let db ← db.updateWorkflow w.id
        (fun v => v.workspaceID == c.workspace && v.status == .awaitingConfirmation)
        (approveWorkflow c.now) .workflowState
      let db ← db.insertApproval
        { workspaceID := c.workspace, workflowID := w.id, requirementID := w.requirementID,
          recordingID := w.recordingID, ruleID := version.ruleID, versionNumber := version.version,
          createdAt := c.now }
      pure (db.auditApproval c w opts, version, contract)

end DslDb

end Aegis
