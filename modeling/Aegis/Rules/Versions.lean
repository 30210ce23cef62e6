import Aegis.Rules.Frame

/-!
# Rules.Versions

The immutable versions of a rule: `CreateRuleVersion`, `ApproveRuleVersion`, `RejectRuleVersion`,
the approval of a DSL workflow, and the legacy endpoints with their guard.

`approvals` and `creates` are what has happened: the keys of the versions in the order of their
approval, and the answers of the calls that create a version, the last one first.
-/

namespace Aegis

namespace Rules

variable {ν : Type}

structure Lineage where
  sourceKind : String
  sourceAuthority : String
  sourceArtifactHash : String
  sourceExportHash : String
  sourceWorkflowID : String

def Lineage.none : Lineage := ⟨"", "", "", "", ""⟩

structure Content (ν : Type) where
  rule : Rule ν
  inputSchema : Json ν
  outputSchema : Json ν
  browserProfileID : String
  lineage : Lineage

abbrev VersionKey : Type := WorkspaceID × String × Nat

structure RuleVersion (ν : Type) where
  key : VersionKey
  versionLabel : String
  rule : Rule ν
  contentHash : String
  status : RuleApprovalStatus
  owner : String
  source : String
  recordingID : String
  createdAt : Time
  decidedAt : Option Time
  decidedBy : String

structure RuleVersionContract (ν : Type) where
  key : VersionKey
  inputSchema : Json ν
  outputSchema : Json ν
  browserProfileID : String
  lineage : Lineage
  createdAt : Time

structure Created (ν : Type) where
  workspace : WorkspaceID
  ruleID : String
  content : Content ν
  version : Nat

structure Catalog (ν : Type) where
  server : Server ν
  versions : Table (RuleVersion.key (ν := ν))
  contracts : Table (RuleVersionContract.key (ν := ν))
  approvals : List VersionKey
  creates : List (Created ν)

/-- The configuration, and the hexadecimal SHA-256 digest of a contract's content. -/
structure VersionConfig (ν : Type) extends Config where
  workflowV2Enabled : Bool
  sha256 : Content ν → String

structure Caller where
  workspace : WorkspaceID
  subject : String
  now : Time

/-! ## `createRuleVersionWithContractAndLineageExec` -/

/-- `json.Unmarshal(json.Marshal(r))`. -/
def Rule.copied (r : Rule ν) : Rule ν := { r with docs := r.writtenDocs }

def Rule.sourceOr (r : Rule ν) (source : String) : String :=
  if r.source = "" then source else r.source

def catalogRule (c : Caller) (l : Lineage) (input : Rule ν) : Rule ν :=
  { input.copied with
    workspaceID := c.workspace
    owner := c.subject
    approvalStatus := approvalPending
    enabled := false
    source := if l.sourceKind ≠ "" then l.sourceKind else input.sourceOr "pageagent"
    createdAt := if input.createdAt = Time.zero then c.now else input.createdAt
    updatedAt := c.now }

def versionRule (c : Caller) (l : Lineage) (input : Rule ν) : Rule ν :=
  { input.copied with
    workspaceID := c.workspace
    owner := c.subject
    approvalStatus := approvalApproved
    enabled := true
    source := if l.sourceKind = "" then input.sourceOr "pageagent" else input.source
    createdAt := if input.createdAt = Time.zero then c.now else input.createdAt
    updatedAt := c.now
    version := if input.version = "" then "1" else input.version }

/-- The arguments of a call that creates a version. `recordingID` is that of a recording, which is
there or not. -/
structure VersionInput (ν : Type) where
  rule : Rule ν
  recordingID : String
  recordingExists : Bool
  inputSchema : Json ν
  outputSchema : Json ν
  browserProfileID : String
  lineage : Lineage

/-- `contractContent`. -/
def VersionInput.content (i : VersionInput ν) (c : Caller) : Content ν where
  rule := (versionRule c i.lineage i.rule).content
  inputSchema := i.inputSchema
  outputSchema := i.outputSchema
  browserProfileID := i.browserProfileID
  lineage := i.lineage

def RuleVersion.isOf (workspace : WorkspaceID) (ruleID : String) (v : RuleVersion ν) : Bool :=
  v.key.1 = workspace && v.key.2.1 = ruleID

namespace Catalog

/-- `getRuleVersionByHash`. -/
def versionByHash (s : Catalog ν) (workspace : WorkspaceID) (ruleID hash : String) :
    Option (RuleVersion ν) :=
  s.versions.rows.find? fun v => v.isOf workspace ruleID && v.contentHash = hash

/-- `SELECT COALESCE(MAX(version_number), 0) + 1`. -/
def nextVersion (s : Catalog ν) (workspace : WorkspaceID) (ruleID : String) : Nat :=
  (((s.versions.rows.filter (RuleVersion.isOf workspace ruleID)).map fun v => v.key.2.2).max?.getD 0)
    + 1

def fileRule (s : Catalog ν) (c : Caller) (l : Lineage) (input : Rule ν) : Except StoreError (Catalog ν) :=
  match s.server.store.getRuleByID c.workspace input.id with
  | .ok _ => .ok s
  | .error _ =>
    match s.server.store.createRule c.workspace (catalogRule c l input) with
    | .ok store => .ok { s with server := { s.server with store } }
    | .error .workspaceConflict => .error .ruleNotFound
    | .error e => .error e

def addVersion (cfg : VersionConfig ν) (s : Catalog ν) (c : Caller) (i : VersionInput ν) :
    Except StoreError (Catalog ν × RuleVersion ν) :=
  let rule := versionRule c i.lineage i.rule
  let hash := cfg.sha256 (i.content c)
  match s.versionByHash c.workspace rule.id hash with
  | some v => .ok (s, v)
  | none =>
    let v : RuleVersion ν :=
      { key := (c.workspace, rule.id, s.nextVersion c.workspace rule.id)
        versionLabel := rule.version
        rule := rule
        contentHash := hash
        status := .pending
        owner := rule.owner
        source := if i.lineage.sourceKind ≠ "" then i.lineage.sourceKind else rule.source
        recordingID := i.recordingID
        createdAt := c.now
        decidedAt := none
        decidedBy := "" }
    match s.versions.insert? v, s.contracts.insert?
        ⟨v.key, i.inputSchema, i.outputSchema, i.browserProfileID, i.lineage, c.now⟩ with
    | some versions, some contracts => .ok ({ s with versions, contracts }, v)
    | _, _ => .error (.constraint "UNIQUE constraint failed: rule_versions")

def createVersionExec (cfg : VersionConfig ν) (s : Catalog ν) (c : Caller) (i : VersionInput ν) :
    Except StoreError (Catalog ν × RuleVersion ν) := do
  ensure (i.rule.id ≠ "") .ruleNotFound
  let s ← s.fileRule c i.lineage i.rule
  ensure (i.recordingID = "" || i.recordingExists) .recordingNotFound
  let (s, v) ← s.addVersion cfg c i
  pure ({ s with creates := ⟨c.workspace, i.rule.id, i.content c, v.key.2.2⟩ :: s.creates }, v)

end Catalog

def legacyJSONType : Json ν → String
  | .bool _ => "boolean"
  | .num _ => "number"
  | .arr _ => "array"
  | .obj _ => "object"
  | _ => "string"

def inferLegacyInputSchema (vars : Option (Json ν)) : Json ν :=
  let values : Fields ν := match vars with
    | some (.obj members) => members.foldl (fun m f => Assoc.set f.1 f.2 m) []
    | _ => []
  .obj [ ("$schema", .str "https://json-schema.org/draft/2020-12/schema"),
    ("additionalProperties", .bool false),
    ("properties", .obj (values.map fun f =>
      (f.1, .obj [("default", f.2), ("type", .str (legacyJSONType f.2))]))),
    ("required", .arr []),
    ("type", .str "object")]

def openOutputSchema : Json ν :=
  .obj [("type", .str "object"), ("properties", .obj []), ("additionalProperties", .bool true)]

/-- The arguments of `CreateRuleVersion`. -/
def VersionInput.ofRule (rule : Rule ν) (recordingID : String) (recordingExists : Bool) :
    VersionInput ν where
  rule := rule
  recordingID := recordingID
  recordingExists := recordingExists
  inputSchema := inferLegacyInputSchema (rule.docs .variables)
  outputSchema := (rule.docs .output).getD openOutputSchema
  browserProfileID := ""
  lineage := .none

/-- `SET approval_status, approved_at, approved_by`, and the same of a rejection. -/
def decideVersion (c : Caller) (status : RuleApprovalStatus) : SetClause (RuleVersion.key (ν := ν)) where
  set v := { v with status := status, decidedAt := some c.now, decidedBy := c.subject }
  keeps _ := rfl

def RuleVersion.published (v : RuleVersion ν) (now : Time) : Rule ν :=
  { v.rule with
    version := v.versionLabel
    approvalStatus := approvalApproved
    enabled := true
    updatedAt := now }

namespace Catalog

/-- `approveRuleVersionWithExec`. -/
def approveExec (s : Catalog ν) (c : Caller) (v : RuleVersion ν) : Except StoreError (Catalog ν) :=
  if v.status ≠ .pending then .error .ruleVersionState
  else do
    let store ← s.server.store.createRule c.workspace (v.published c.now)
    pure { s with
      server := { s.server with store }
      versions := s.versions.updateRow v.key (decideVersion c .approved)
      approvals := v.key :: s.approvals }

/-- `ApproveRuleVersion`. -/
def approveVersion (s : Catalog ν) (c : Caller) (ruleID : String) (version : Nat) :
    Except StoreError (Catalog ν) :=
  match s.versions.find? (c.workspace, ruleID, version) with
  | none => .error .ruleVersionNotFound
  | some v => s.approveExec c v

/-- `RejectRuleVersion`: a version that is not pending when it is read is not pending when it is
updated either. -/
def rejectVersion (s : Catalog ν) (c : Caller) (ruleID : String) (version : Nat) :
    Except StoreError (Catalog ν) :=
  match s.versions.find? (c.workspace, ruleID, version) with
  | none => .error .ruleVersionNotFound
  | some v =>
    if v.status ≠ .pending then .error .ruleVersionState
    else .ok { s with versions := s.versions.updateRow v.key (decideVersion c .rejected) }

def approvePending (s : Catalog ν) (c : Caller) (v : RuleVersion ν) : Except StoreError (Catalog ν) :=
  if v.status = .pending then s.approveExec c v else .ok s

/-- `ApproveDSLWorkflow`, from the version on; `finishes` tells whether the rest of the transaction
goes through. -/
def approveDSL (cfg : VersionConfig ν) (s : Catalog ν) (c : Caller) (i : VersionInput ν)
    (finishes : Bool) : Except StoreError (Catalog ν) := do
  let (s, v) ← s.createVersionExec cfg c i
  let s ← s.approvePending c v
  ensure finishes (.constraint "dsl workflow")
  pure s

end Catalog

structure UpdateRuleRequest (ν : Type) where
  version : Option String
  name : Option String
  docs : Doc → Option (Json ν)
  enabled : Option Bool
  priority : Option String
  entry : Option String
  approvalStatus : Option String
  source : Option String

def UpdateRuleRequest.apply (q : UpdateRuleRequest ν) (now : Time) (r : Rule ν) : Rule ν :=
  { r with
    version := q.version.getD r.version
    name := q.name.getD r.name
    docs := fun d => (q.docs d).or (r.docs d)
    enabled := q.enabled.getD r.enabled
    priority := q.priority.getD r.priority
    entry := q.entry.getD r.entry
    approvalStatus := q.approvalStatus.getD r.approvalStatus
    source := q.source.getD r.source
    updatedAt := now }

/-- `SET approval_status = ?, updated_at = ?`. -/
def setApproval (status : String) (now : Time) : SetClause (Rule.id (ν := ν)) where
  set r := { r with approvalStatus := status, updatedAt := now }
  keeps _ := rfl

inductive Legacy (ν : Type) where
  | createRule (r : Rule ν)
  | updateRule (id : String) (q : UpdateRuleRequest ν)
  | approveRule (id : String)
  | rejectRule (id : String)
  | deleteRule (id : String)

def Store.updateRuleApprovalStatus (s : Store ν) (c : Caller) (id status : String) : Store ν :=
  { s with
    rules := s.rules.update (fun r => r.id = id && r.workspaceID = c.workspace)
      (setApproval status c.now) }

/-- `CreateRule`, `UpdateRule`, `ApproveRule`, `RejectRule`, `DeleteRule`, behind their guard. -/
def Store.legacy (s : Store ν) (c : Caller) : Legacy ν → Store ν
  | .createRule r =>
    let createdAt := if r.createdAt = Time.zero then c.now else r.createdAt
    let owner := if c.subject = "" then "admin" else c.subject
    if r.id ≠ "" && (s.getRuleByID c.workspace r.id).isOk then s
    else orElse (s.createRule c.workspace { r with createdAt, owner, updatedAt := c.now }) s
  | .updateRule id q =>
    match s.getRuleByID c.workspace id with
    | .ok r => orElse (s.createRule c.workspace (q.apply c.now r)) s
    | .error _ => s
  | .approveRule id => s.updateRuleApprovalStatus c id approvalApproved
  | .rejectRule id => s.updateRuleApprovalStatus c id approvalRejected
  | .deleteRule id => orElse (s.deleteRule c.workspace id) s

namespace Catalog

inductive Event (ν : Type) where
  | enhancement (e : Server.Event ν)
  | legacy (c : Caller) (m : Legacy ν)
  | createVersion (c : Caller) (rule : Rule ν) (recordingID : String) (recordingExists : Bool)
  | approveVersion (c : Caller) (ruleID : String) (version : Nat)
  | rejectVersion (c : Caller) (ruleID : String) (version : Nat)
  | approveDSL (c : Caller) (i : VersionInput ν) (finishes : Bool)

/-- The state after a call: a failed transaction leaves nothing. -/
def after (x : Except StoreError (Catalog ν)) (s : Catalog ν) : Catalog ν :=
  match x with
  | .ok s => s
  | .error _ => s

def step (cfg : VersionConfig ν) (s : Catalog ν) : Event ν → Catalog ν
  | .enhancement e => { s with server := s.server.step cfg.toConfig e }
  | .legacy c m =>
    -- `rejectLegacyRuleMutationWhenVersioned`
    if cfg.workflowV2Enabled then s
    else { s with server := { s.server with store := s.server.store.legacy c m } }
  | .createVersion c rule recordingID recordingExists =>
    -- `workflowFeatureAvailable`
    if cfg.workflowV2Enabled then
      after ((s.createVersionExec cfg c (.ofRule rule recordingID recordingExists)).map Prod.fst) s
    else s
  | .approveVersion c ruleID version =>
    if cfg.workflowV2Enabled then after (s.approveVersion c ruleID version) s else s
  | .rejectVersion c ruleID version =>
    if cfg.workflowV2Enabled then after (s.rejectVersion c ruleID version) s else s
  | .approveDSL c i finishes => after (s.approveDSL cfg c i finishes) s

def empty : Catalog ν :=
  ⟨⟨⟨.empty, .empty, [], [], .empty, .empty⟩, [], []⟩, .empty, .empty, [], []⟩

end Catalog

end Rules

end Aegis
