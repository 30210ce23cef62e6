import Aegis.Dsl.Server

/-!
# Dsl.Moves

What a call can do to the rows of the workflow domain.

Every successful call is a sequence of moves: one row of a job, of a replay and of a workflow each
at most, under the conditions the statements and the triggers check. An invariant of the server is
proved one move at a time. The statements come first, each with the one lemma its callers use.
-/

namespace Aegis

open List Table DslDb

namespace DslDb

variable {db db' : DslDb} {id : String} {e : DSLError}

variable {w : DSLWorkflow}

theorem writeWorkflow_eq_ok {f : SetClause DSLWorkflow.identity}
    (hw : db.workflows.find? w.id = some w) (h : db.writeWorkflow w f = .ok db') :
    ∃ t, ((f.set w).status = w.status ∨ (f.set w).status ∈ w.status.next) ∧
      w.mutableTo (f.set w) ∧ db.reviewedSource? (f.set w) = none ∧
      Wrote db.workflows t (f.set w) ∧ db' = { db with workflows := t } := by
  simp only [writeWorkflow, ensure_bind_eq_ok, pure_eq_ok, Bool.or_eq_true, beq_iff_eq,
    contains_iff_mem, Option.isNone_iff_eq_none] at h
  obtain ⟨hstatus, hmutable, hunique, rfl⟩ := h
  exact ⟨_, hstatus, hmutable, hunique, wrote_updateRow (workflowOnID f) hw, rfl⟩

theorem updateWorkflow_eq_ok {p : DSLWorkflow → Bool} {f : WorkflowUpdate}
    (h : db.updateWorkflow id p f e = .ok db') :
    ∃ w t, db.workflows.find? w.id = some w ∧ w.id = id ∧ p w = true ∧
      ((f.set w).status = w.status ∨ (f.set w).status ∈ w.status.next) ∧
      w.mutableTo (f.set w) ∧ db.reviewedSource? (f.set w) = none ∧
      Wrote db.workflows t (f.set w) ∧ db' = { db with workflows := t } := by
  unfold updateWorkflow at h
  cases hw : db.workflows.find? id with
  | none => simp [hw] at h
  | some w =>
    obtain rfl := key_of_find? hw
    simp only [hw, ensure_bind_eq_ok] at h
    obtain ⟨t, hwrite⟩ := writeWorkflow_eq_ok hw h.2
    exact ⟨w, t, hw, rfl, h.1, hwrite⟩

theorem mem_of_reviewedSource? {v w : DSLWorkflow} (h : db.reviewedSource? w = some v) :
    v ∈ db.workflows.rows := by
  unfold reviewedSource? at h
  split at h
  · exact mem_of_find?_eq_some h
  · cases h

theorem insertWorkflow_eq_ok {confirmed : Bool} (h : db.insertWorkflow w confirmed = .ok db') :
    ∃ t, db.workflows.find? w.id = none ∧ db.reviewedSource? w = none ∧
      Wrote db.workflows t w ∧ db' = { db with workflows := t } := by
  simp only [insertWorkflow, ensure_bind_eq_ok, Option.isNone_iff_eq_none] at h
  obtain ⟨-, -, hunique, h⟩ := h
  cases ht : db.workflows.insert? w with
  | none => simp [ht] at h
  | some t =>
    simp only [ht, pure_eq_ok] at h
    exact ⟨t, (insert?_eq_some.mp ht).1, hunique, wrote_insert? ht, h.symm⟩

theorem updateJob_eq_ok {p : DSLJob → Bool} {f : JobUpdate} (h : db.updateJob id p f e = .ok db') :
    ∃ j t, db.jobs.find? j.id = some j ∧ j.id = id ∧ p j = true ∧ j.status.isLive = true ∧
      (j.providerDispatched → (f.set j).providerDispatched = true) ∧
      Wrote db.jobs t (f.set j) ∧ db' = { db with jobs := t } := by
  unfold updateJob at h
  cases hj : db.jobs.find? id with
  | none => simp [hj] at h
  | some j =>
    obtain rfl := key_of_find? hj
    simp only [hj, ensure_bind_eq_ok, pure_eq_ok] at h
    obtain ⟨hp, -, hlive, hmono, -, rfl⟩ := h
    refine ⟨j, _, hj, rfl, hp, hlive, ?_, wrote_updateRow f.onID hj, rfl⟩
    intro hd
    simpa [hd] using hmono

theorem insertJob_eq_ok {j : DSLJob} (h : db.insertJob j = .ok db') : ∃ t, db.jobs.find? j.id = none ∧
      (∃ w, db.workflows.find? j.workflowID = some w ∧ w.workspaceID = j.workspaceID) ∧
      (j.kind = .selectorRepair → db.selectorRepairSource j = true) ∧
      (j.sourceAttemptReportID.isSome → ∀ i, db.jobs.find? i.id = some i →
        i.workspaceID = j.workspaceID → i.sourceAttemptReportID ≠ j.sourceAttemptReportID) ∧
      Wrote db.jobs t j ∧ db' = { db with jobs := t } := by
  simp only [insertJob, ensure_bind_eq_ok] at h
  obtain ⟨hparent, hsource, -, -, -, hunique, h⟩ := h
  cases ht : db.jobs.insert? j with
  | none => simp [ht] at h
  | some t =>
    simp only [ht, pure_eq_ok] at h
    refine ⟨t, (insert?_eq_some.mp ht).1, ?_, ?_, ?_, wrote_insert? ht, h.symm⟩
    · simpa [Option.any_eq_true] using hparent
    · intro hk
      simpa [hk] using hsource
    · intro hsome i hi hws heq
      simp only [Bool.or_eq_true, Option.isNone_iff_eq_none, Bool.not_eq_true',
        Table.any_eq_false] at hunique
      rcases hunique with hnone | hall
      · simp [hnone] at hsome
      · simpa [hws, heq] using hall i (mem_of_find? hi)

theorem insertReport_eq_ok {r : LLMAttemptReport} {callsAgree : Bool}
    (h : db.insertReport r callsAgree = .ok db') :
    ∃ t, db.reports.find? r.id = none ∧ Wrote db.reports t r ∧ db' = { db with reports := t } := by
  simp only [insertReport, ensure_bind_eq_ok] at h
  obtain ⟨-, -, -, -, h⟩ := h
  cases ht : db.reports.insert? r with
  | none => simp [ht] at h
  | some t =>
    simp only [ht, pure_eq_ok] at h
    exact ⟨t, (insert?_eq_some.mp ht).1, wrote_insert? ht, h.symm⟩

theorem updateReplay_eq_ok {p : ReplayAttempt → Bool} {f : ReplayUpdate}
    (h : db.updateReplay id p f e = .ok db') :
    ∃ a t, db.replays.find? a.id = some a ∧ a.id = id ∧ p a = true ∧ a.status = .running ∧
      Wrote db.replays t (f.set a) ∧ db' = { db with replays := t } := by
  unfold updateReplay at h
  cases ha : db.replays.find? id with
  | none => simp [ha] at h
  | some a =>
    obtain rfl := key_of_find? ha
    simp only [ha, ensure_bind_eq_ok, pure_eq_ok, Bool.and_eq_true, beq_iff_eq] at h
    obtain ⟨hp, ⟨hrunning, -⟩, rfl⟩ := h
    exact ⟨a, _, ha, rfl, hp, hrunning, wrote_updateRow f.onID ha, rfl⟩

theorem insertReplay_eq_ok {a : ReplayAttempt} (h : db.insertReplay a = .ok db') :
    ∃ t, db.replays.find? a.id = none ∧
      (∃ w, db.workflows.find? a.workflowID = some w ∧ w.provisionalHash = some a.ruleHash) ∧
      Wrote db.replays t a ∧ db' = { db with replays := t } := by
  simp only [insertReplay, ensure_bind_eq_ok] at h
  obtain ⟨hparent, -, -, h⟩ := h
  cases ht : db.replays.insert? a with
  | none => simp [ht] at h
  | some t =>
    simp only [ht, pure_eq_ok] at h
    refine ⟨t, (insert?_eq_some.mp ht).1, ?_, wrote_insert? ht, h.symm⟩
    simp only [Option.any_eq_true, Bool.and_eq_true, beq_iff_eq] at hparent
    obtain ⟨w, hw, -, hhash⟩ := hparent
    exact ⟨w, hw, hhash⟩

end DslDb

structure DslDb.SameLife (db db' : DslDb) : Prop where
  workflows : db'.workflows = db.workflows
  jobs : db'.jobs = db.jobs
  replays : db'.replays = db.replays
  reports : db'.reports = db.reports
  approvals : db'.approvals = db.approvals

namespace DslDb

variable {db db₁ db₂ db' : DslDb} {c : DSLCtx} {v : SealedRuleVersion}

theorem SameLife.trans (h₁ : SameLife db db₁) (h₂ : SameLife db₁ db₂) : SameLife db db₂ where
  workflows := h₂.workflows.trans h₁.workflows
  jobs := h₂.jobs.trans h₁.jobs
  replays := h₂.replays.trans h₁.replays
  reports := h₂.reports.trans h₁.reports
  approvals := h₂.approvals.trans h₁.approvals

theorem createRuleVersion_same {contentHash : RuleVersionContent → String} {input : RuleDocument}
    {k : ExecutionContract} {lineage : Lineage} {recordingLive : Bool}
    (h : db.createRuleVersion contentHash c input k lineage recordingLive = .ok (db', v)) :
    SameLife db db' := by
  obtain ⟨rules, hash, -, ⟨-, rfl⟩ | ⟨ruleVersions, contracts, version, -, -, -, -, rfl⟩⟩ :=
    createRuleVersion_eq_ok h
  all_goals exact ⟨rfl, rfl, rfl, rfl, rfl⟩

variable {current : SealedRuleVersion}

theorem approveRuleVersion_same (h : db.approveRuleVersion c current = .ok (db', v)) : SameLife db db' := by
  obtain ⟨u, rules, ruleVersions, -, -, -, -, rfl, -⟩ := approveRuleVersion_eq_ok h
  exact ⟨rfl, rfl, rfl, rfl, rfl⟩

theorem approveIfPending_same (h : db.approveIfPending c current = .ok (db', v)) : SameLife db db' := by
  unfold approveIfPending at h
  split at h
  · exact approveRuleVersion_same h
  · cases h
    exact ⟨rfl, rfl, rfl, rfl, rfl⟩

theorem rejectRuleVersion_same {ruleID : String} {version : Nat}
    (h : db.rejectRuleVersion c ruleID version = .ok db') : SameLife db db' := by
  simp only [rejectRuleVersion, bind_eq_ok] at h
  obtain ⟨u, -, -, -, h⟩ := h
  obtain ⟨v, ruleVersions, -, -, -, -, rfl⟩ := decideVersion_eq_ok h
  exact ⟨rfl, rfl, rfl, rfl, rfl⟩

def approvalOf (c : DSLCtx) (w : DSLWorkflow) (v : SealedRuleVersion) : DSLApproval where
  workspaceID := c.workspace
  workflowID := w.id
  requirementID := w.requirementID
  recordingID := w.recordingID
  ruleID := v.ruleID
  versionNumber := v.version
  createdAt := c.now

def lineageOf (db : DslDb) (c : DSLCtx) (w : DSLWorkflow) : Lineage where
  sourceKind := w.sourceKind
  sourceAuthority := w.sourceAuthority
  sourceArtifactHash := w.sourceArtifactHash
  sourceExportHash := w.sourceExportHash
  sourceWorkflowID := w.sourceWorkflowID
  recordingID := w.recordingID
  safetyFlags := w.safetyFlags
  dslWorkflowID := w.id
  dslJobID := db.sourceJobID c w.id

theorem insertApproval_eq_ok {a : DSLApproval} (h : db.insertApproval a = .ok db') :
    ∃ t, db.approvals.find? a.workflowID = none ∧ Wrote db.approvals t a ∧
      db' = { db with approvals := t } := by
  simp only [insertApproval, ensure_bind_eq_ok] at h
  obtain ⟨-, -, h⟩ := h
  cases ht : db.approvals.insert? a with
  | none => simp [ht] at h
  | some t =>
    simp only [ht, pure_eq_ok] at h
    exact ⟨t, (insert?_eq_some.mp ht).1, wrote_insert? ht, h.symm⟩

variable {w : DSLWorkflow} {opts : ApproveDSLWorkflowOptions}

theorem auditApproval_eq : ∃ auditLogs, db.auditApproval c w opts = { db with auditLogs } := by
  unfold auditApproval
  split <;> exact ⟨_, rfl⟩

theorem approveDSLWorkflow_eq_ok {d : Digests} {id : String} {reads : RequirementReads} {k : SealedContract}
    (h : db.approveDSLWorkflow d c id opts reads = .ok (db', v, k))
    (hw : db.workflows.find? id = some w) (hstatus : w.status ≠ .approved) :
    ∃ rule inputSchema outputSchema v₁ db₁ db₂ workflows approvals auditLogs,
      db.approvableRule d.artifactHash c w opts = .ok rule ∧
      db.createRuleVersion d.contentHash c rule ⟨inputSchema, outputSchema, w.browserProfileID⟩
        (db.lineageOf c w) reads.recordingLive = .ok (db₁, v₁) ∧
      db₁.approveIfPending c v₁ = .ok (db₂, v) ∧
      db₂.getRuleVersionContract c v.ruleID v.version = .ok k ∧
      Wrote db.workflows workflows ((approveWorkflow c.now).set w) ∧
      Wrote db.approvals approvals (approvalOf c w v) ∧ db.approvals.find? w.id = none ∧
      db' = { db₂ with workflows, approvals, auditLogs } := by
  unfold approveDSLWorkflow at h
  rw [hw] at h
  split at h
  · cases h
  rename_i w' hfilter
  obtain ⟨hsome, hws⟩ := Option.filter_eq_some_iff.mp hfilter
  cases hsome
  have hne : (w.status == .approved) = false := by simpa using hstatus
  simp only [hne, Bool.false_eq_true, if_false, bind_eq_ok, ensure_eq_ok, exists_const,
    pure_eq_ok, Prod.mk.injEq] at h
  obtain ⟨-, rule, hrule, ⟨inputSchema, outputSchema⟩, -, ⟨db₁, v₁⟩, h₁, ⟨db₂, v₂⟩, h₂, k₁, hk, db₃,
    h₃, db₄, h₄, rfl, rfl, rfl⟩ := h
  have hsame := (createRuleVersion_same h₁).trans (approveIfPending_same h₂)
  obtain ⟨w₁, workflows, hw₁, hid, -, -, -, -, hworkflows, rfl⟩ := updateWorkflow_eq_ok h₃
  obtain ⟨approvals, hfresh, happrovals, rfl⟩ := insertApproval_eq_ok h₄
  rw [hsame.workflows] at hw₁ hworkflows
  rw [hsame.approvals] at hfresh happrovals
  have hkey := key_of_find? hw
  obtain rfl := eq_of_find? hw hw₁ (hid.trans hkey)
  obtain ⟨auditLogs, haudit⟩ := auditApproval_eq
  exact ⟨rule, inputSchema, outputSchema, v₁, db₁, db₂, workflows, approvals, auditLogs, hrule, h₁,
    h₂, hk, hworkflows, happrovals, hfresh, haudit⟩

end DslDb

/-! ## Moves -/

/-- The server has claimed the job in the attempt that it is in. -/
def DslServer.Holds (s : DslServer) (job : DSLJob) : Prop :=
  ∃ leased, .claimed leased ∈ s.log ∧ job.identity = leased.identity ∧
    job.attemptCount = leased.attemptCount

def DslEvent.isVersionCall : DslEvent → Bool
  | .createRuleVersion .. | .approveRuleVersion .. | .rejectRuleVersion .. | .changeRules .. => true
  | _ => false

inductive DslMove (d : Digests) (s : DslServer) : DslServer → Prop
  /-- A workflow is created with its generation job. -/
  | created {c w options id jobID workflows jobs} :
      s.db.workflows.find? id = none → s.db.jobs.find? jobID = none →
      w.browserProfileID.isEmpty = false →
      Wrote s.db.workflows workflows (DslDb.generatingWorkflow c w options id jobID) →
      Wrote s.db.jobs jobs
        (newJob jobID c.workspace id .generate (jobMaxAttempts options) none [] c.now) →
      DslMove d s ⟨{ s.db with workflows, jobs }, s.log⟩
  /-- An imported rule gets a workflow. -/
  | adopted {c w artifact id workflows auditLogs} :
      s.db.workflows.find? id = none → trimSpace w.browserProfileID ≠ "" →
      s.db.reviewedSource? (DslDb.reviewedWorkflow c w artifact (d.artifactHash artifact) id) = none →
      Wrote s.db.workflows workflows
        (DslDb.reviewedWorkflow c w artifact (d.artifactHash artifact) id) →
      DslMove d s ⟨{ s.db with workflows, auditLogs }, s.log ++ [.adopted id artifact]⟩
  /-- A claim begins an attempt of a job. -/
  | leased {now leaseUntil copy j jobs} :
      s.db.jobs.find? j.id = some j → DslDb.claimable now j = true →
      DslDb.reusesAttempt j = false → copy.identity = j.identity →
      copy.attemptCount = j.attemptCount + 1 →
      Wrote s.db.jobs jobs ((leaseJob now leaseUntil).set j) →
      DslMove d s ⟨{ s.db with jobs }, s.log ++ [.claimed copy]⟩
  /-- A claim takes over the attempt of a selector repair whose lease ran out. -/
  | renewed {now leaseUntil copy j jobs} :
      s.db.jobs.find? j.id = some j → DslDb.reusesAttempt j = true → copy.identity = j.identity →
      copy.attemptCount = j.attemptCount →
      Wrote s.db.jobs jobs ((renewLease now leaseUntil).set j) →
      DslMove d s ⟨{ s.db with jobs }, s.log ++ [.claimed copy]⟩
  /-- A selector repair is marked as dispatched. -/
  | marked {now job j jobs} :
      s.Holds job → s.db.jobs.find? job.id = some j → job.describes j = true →
      j.kind = .selectorRepair → j.providerDispatched = false →
      Wrote s.db.jobs jobs ((markDispatched now).set j) →
      DslMove d s ⟨{ s.db with jobs }, s.log ++ [.dispatched job.id]⟩
  /-- A job is to be tried again. -/
  | retried {now availableAt flags code message job j jobs} :
      s.Holds job → s.db.jobs.find? job.id = some j → job.describes j = true →
      job.attemptCount < job.maxAttempts →
      Wrote s.db.jobs jobs ((failAttempt now availableAt .pending flags code message none).set j) →
      DslMove d s ⟨{ s.db with jobs }, s.log⟩
  /-- A job fails, and its workflow with it. -/
  | jobFailed {now code message j j' w workflows jobs} :
      s.db.jobs.find? j.id = some j → j.status = .running → Wrote s.db.jobs jobs j' →
      j'.identity = j.identity → j'.status = .failed → j'.attemptCount = j.attemptCount →
      j'.providerDispatched = j.providerDispatched →
      s.db.workflows.find? w.id = some w → w.workspaceID = j.workspaceID →
      w.worksOn j.id = true →
      Wrote s.db.workflows workflows ((failWorkflow now code message).set w) →
      DslMove d s ⟨{ s.db with workflows, jobs }, s.log⟩
  /-- A job is completed, and its rule is published. -/
  | completed {now artifact job j w workflows jobs} :
      s.Holds job → s.db.jobs.find? job.id = some j → job.describes j = true →
      s.db.workflows.find? job.workflowID = some w → w.workspaceID = job.workspaceID →
      w.currentJobID = some job.id → w.status = job.kind.workflowStatus →
      Wrote s.db.jobs jobs ((endJob now .completed job.safetyFlags none none).set j) →
      Wrote s.db.workflows workflows
        ((publish now artifact (d.artifactHash artifact) job.safetyFlags).set w) →
      DslMove d s ⟨{ s.db with workflows, jobs }, s.log ++ [.completed job artifact]⟩
  /-- A report is recorded. -/
  | reported {r reports} :
      s.db.reports.find? r.id = none → Wrote s.db.reports reports r →
      DslMove d s ⟨{ s.db with reports }, s.log⟩
  /-- A job fails, and a selector repair is installed in its place. -/
  | handedOver {now code message reportID childID job j w ended jobs workflows} :
      s.Holds job → job.kind ≠ .selectorRepair → s.db.jobs.find? job.id = some j →
      job.describes j = true → s.db.workflows.find? job.workflowID = some w →
      w.workspaceID = job.workspaceID → w.worksOn job.id = true →
      s.db.jobs.find? childID = none →
      (∃ r, s.db.reports.find? reportID = some r ∧ r.workspaceID = job.workspaceID) →
      (∀ i, s.db.jobs.find? i.id = some i → i.workspaceID = job.workspaceID →
        i.sourceAttemptReportID ≠ some reportID) →
      Wrote s.db.jobs ended
        ((endJob now .failed job.safetyFlags (some code) (some message)).set j) →
      Wrote ended jobs (DslDb.selectorRepairJob now job reportID childID) →
      Wrote s.db.workflows workflows ((handOver now childID).set w) →
      DslMove d s ⟨{ s.db with workflows, jobs }, s.log⟩
  /-- The provisional rule is corrected. -/
  | corrected {now artifact w workflows} :
      s.db.workflows.find? w.id = some w → w.status = .failed ∨ w.status = .awaitingReplay →
      s.db.reviewedSource? ((replaceRule now artifact (d.artifactHash artifact)).set w) = none →
      Wrote s.db.workflows workflows ((replaceRule now artifact (d.artifactHash artifact)).set w) →
      DslMove d s ⟨{ s.db with workflows }, s.log ++ [.corrected w.id artifact]⟩
  /-- A replay starts. -/
  | replayStarted {now w a workflows replays} :
      s.db.workflows.find? w.id = some w →
      w.status = .awaitingReplay ∨ w.status = .awaitingConfirmation →
      s.db.replays.find? a.id = none → a.workflowID = w.id → a.workspaceID = w.workspaceID →
      a.sequence = w.lastReplaySequence + 1 → a.status = .running →
      w.provisionalHash = some a.ruleHash →
      Wrote s.db.workflows workflows ((beginReplay now a.sequence).set w) →
      Wrote s.db.replays replays a →
      DslMove d s ⟨{ s.db with workflows, replays }, s.log ++ [.replayStarted a]⟩
  /-- A replay ends without a repair. -/
  | replayEnded {now a w l workflows replays} {o : ReplayOutcome} {status : DSLWorkflowStatus} :
      s.db.replays.find? a.id = some a → a.status = .running →
      s.db.workflows.find? a.workflowID = some w → w.workspaceID = a.workspaceID →
      w.status = .replaying →
      (if o.proven then status = .awaitingConfirmation
        else status = .awaitingReplay ∨ status = .failed) →
      l = [.replayCompleted ((o.endAttempt now).set a)] ∨ (l = [] ∧ o.proven = false) →
      Wrote s.db.replays replays ((o.endAttempt now).set a) →
      Wrote s.db.workflows workflows
        ((endReplay now status none w.repairCount o.errorCode o.errorMessage).set w) →
      DslMove d s ⟨{ s.db with workflows, replays }, s.log ++ l⟩
  /-- A replay fails, and a repair is scheduled. -/
  | replayRepaired {now maxAttempts jobID a w workflows jobs replays} {o : ReplayOutcome} :
      s.db.replays.find? a.id = some a → a.status = .running →
      s.db.workflows.find? a.workflowID = some w → w.workspaceID = a.workspaceID →
      w.status = .replaying → o.proven = false → w.repairCount < w.maxRepairs →
      s.db.jobs.find? jobID = none →
      Wrote s.db.jobs jobs
        (newJob jobID a.workspaceID a.workflowID .repair maxAttempts none [] now) →
      Wrote s.db.replays replays ((o.endAttempt now).set a) →
      Wrote s.db.workflows workflows
        ((endReplay now .repairing (some jobID) (w.repairCount + 1) o.errorCode o.errorMessage).set w) →
      DslMove d s
        ⟨{ s.db with workflows, jobs, replays }, s.log ++ [.replayCompleted ((o.endAttempt now).set a)]⟩
  /-- A workflow is approved. -/
  | approved {c id opts reads db' v k w} :
      s.db.approveDSLWorkflow d c id opts reads = .ok (db', v, k) →
      s.db.workflows.find? id = some w → w.workspaceID = c.workspace → w.status ≠ .approved →
      DslMove d s ⟨db', s.log ++ [.approved id opts v]⟩
  /-- The approval of a workflow is repeated. -/
  | reapproved {c id opts v k w} :
      s.db.workflows.find? id = some w → w.workspaceID = c.workspace → w.status = .approved →
      s.db.approvedVersion c w = .ok (v, k) →
      DslMove d s ⟨s.db, s.log ++ [.approved id opts v]⟩
  /-- A version is made or decided without a workflow. -/
  | sealed {e : DslEvent} {db'} :
      e.isVersionCall = true → s.serve d e = .ok (db', []) → DslMove d s ⟨db', s.log⟩

abbrev DslMoves (d : Digests) : DslServer → DslServer → Prop := Relation.ReflTransGen (DslMove d)

section Calls

variable {d : Digests} {s : DslServer} {db db' : DslDb} {l : List DslReply} {c : DSLCtx}
  {now : Time} {job : DSLJob} {report : Option (LLMAttemptReport × ReportChecks)}

namespace DslDb

variable {w : NewDSLWorkflow} {confirmed : Bool}

theorem createDSLWorkflow_moves {options : Option DSLWorkflowOptions} {newID jobID : String}
    (h : s.db.createDSLWorkflow c w options confirmed newID jobID = .ok (db', job)) :
    DslMove d s ⟨db', s.log⟩ := by
  simp only [createDSLWorkflow, bind_eq_ok, ensure_eq_ok, exists_const, pure_eq_ok,
    Prod.mk.injEq, Bool.not_eq_true'] at h
  obtain ⟨-, hprofile, db₁, h₁, db₂, h₂, rfl, -⟩ := h
  obtain ⟨workflows, hw, -, hwrote, rfl⟩ := insertWorkflow_eq_ok h₁
  obtain ⟨jobs, hj, -, -, -, hjobs, rfl⟩ := insertJob_eq_ok h₂
  exact .created hw hj hprofile hwrote hjobs

variable {artifact : ProvisionalDSLArtifact}

theorem createAdminReviewedDSLWorkflow_moves {newID id : String}
    (h : s.db.createAdminReviewedDSLWorkflow d.artifactHash c w artifact confirmed newID = .ok (db', id)) :
    DslMoves d s ⟨db',
      s.log ++ if (s.db.workflows.find? id).isSome then [] else [.adopted id artifact]⟩ := by
  simp only [createAdminReviewedDSLWorkflow, ensure_bind_eq_ok, bne_iff_ne] at h
  obtain ⟨-, hprofile, -, h⟩ := h
  split at h
  · rename_i v hv
    simp only [ensure_bind_eq_ok, pure_eq_ok, Prod.mk.injEq] at h
    obtain ⟨-, rfl, rfl⟩ := h
    rw [find?_key (mem_of_reviewedSource? hv)]
    simp only [Option.isSome_some, if_true, append_nil]
    exact .refl
  · simp only [bind_eq_ok, pure_eq_ok, Prod.mk.injEq] at h
    obtain ⟨db₁, h₁, rfl, rfl⟩ := h
    obtain ⟨workflows, hw, hunique, hwrote, rfl⟩ := insertWorkflow_eq_ok h₁
    have hnone : s.db.workflows.find? (if w.id.isEmpty then newID else w.id) = none := hw
    rw [hnone]
    exact .single (.adopted hw hprofile hunique hwrote)

theorem failExpiredDispatchedSelectorRepair_moves
    (h : db.failExpiredDispatchedSelectorRepair now job = .ok db') :
    DslMove d ⟨db, l⟩ ⟨db', l⟩ := by
  obtain ⟨db₁, h₁, h₂⟩ := bind_eq_ok.mp h
  obtain ⟨j, jobs, hj, hid, hp, -, -, hjobs, rfl⟩ := updateJob_eq_ok h₁
  obtain ⟨w, workflows, hw, -, hq, -, -, -, hwrote, rfl⟩ := updateWorkflow_eq_ok h₂
  simp only [Bool.and_eq_true, beq_iff_eq] at hp hq
  obtain ⟨⟨⟨hws, hrunning⟩, -⟩, -⟩ := hp
  obtain ⟨⟨hworkspace, hcurrent⟩, hstatus⟩ := hq
  refine .jobFailed hj hrunning hjobs rfl rfl rfl rfl hw (hworkspace.trans hws.symm) ?_ hwrote
  simp [DSLWorkflow.worksOn, hcurrent, hstatus, hid]

theorem failExpiredExhaustedDSLJob_moves (h : db.failExpiredExhaustedDSLJob now job = .ok db') :
    DslMove d ⟨db, l⟩ ⟨db', l⟩ := by
  obtain ⟨db₁, h₁, h₂⟩ := bind_eq_ok.mp h
  obtain ⟨j, jobs, hj, hid, hp, -, -, hjobs, rfl⟩ := updateJob_eq_ok h₁
  obtain ⟨w, workflows, hw, -, hq, -, -, -, hwrote, rfl⟩ := updateWorkflow_eq_ok h₂
  simp only [exhausted, Bool.and_eq_true, beq_iff_eq] at hp hq
  obtain ⟨hws, ⟨⟨-, hrunning⟩, -⟩, -⟩ := hp
  obtain ⟨hworkspace, hworks⟩ := hq
  refine .jobFailed hj hrunning hjobs rfl rfl rfl rfl hw (hworkspace.trans hws.symm) ?_ hwrote
  rw [hid]
  exact hworks

variable {o : ReplayOutcome} {repairJobID : Option String} {a : ReplayAttempt}

variable {jobMaxAttempts : Nat}

theorem replayRepair_eq_some {w : DSLWorkflow} {repair : DSLJob}
    (h : replayRepair o repairJobID jobMaxAttempts now a w = some repair) :
    o.proven = false ∧ w.repairCount < w.maxRepairs ∧ ∃ id, repairJobID = some id ∧
      repair = newJob id a.workspaceID a.workflowID .repair jobMaxAttempts none [] now := by
  unfold replayRepair at h
  split at h
  · rename_i hif
    simp only [Bool.and_eq_true, Bool.not_eq_true', decide_eq_true_eq] at hif
    obtain ⟨id, hid, rfl⟩ := Option.map_eq_some_iff.mp h
    exact ⟨hif.1, hif.2, id, hid, rfl⟩
  · cases h

variable {attemptID : String}

variable {repairJob : Option DSLJob}

theorem completeDSLReplayInTx_moves {workspace : WorkspaceID} {r : List DslReply}
    (h : db.completeDSLReplayInTx workspace attemptID o repairJobID jobMaxAttempts now =
      .ok (db', repairJob, a))
    (hr : r = [.replayCompleted ((o.endAttempt now).set a)] ∨
      (r = [] ∧ o.proven = false ∧ repairJobID = none)) :
    DslMove d ⟨db, l⟩ ⟨db', l ++ r⟩ := by
  unfold completeDSLReplayInTx at h
  split at h
  · cases h
  rename_i attempt hattempt
  obtain ⟨hfound, hws⟩ := Option.filter_eq_some_iff.mp hattempt
  obtain ⟨-, h⟩ := ensure_bind_eq_ok.mp h
  split at h
  · cases h
  rename_i w hfilter
  obtain ⟨hw, hq⟩ := Option.filter_eq_some_iff.mp hfilter
  simp only [bind_eq_ok, pure_eq_ok, Prod.mk.injEq] at h
  obtain ⟨db₁, h₁, db₂, h₂, db₃, h₃, rfl, -, rfl⟩ := h
  simp only [Bool.and_eq_true, beq_iff_eq] at hws hq
  cases hrepair : replayRepair o repairJobID jobMaxAttempts now attempt w with
  | none =>
    rw [hrepair] at h₁ h₃
    cases h₁
    obtain ⟨b, replays, hb, hid, -, hrunning, hwrote, rfl⟩ := updateReplay_eq_ok h₂
    obtain ⟨v, workflows, hv, hvid, -, -, -, -, hworkflows, rfl⟩ := updateWorkflow_eq_ok h₃
    obtain rfl := eq_of_find? hfound hb hid
    obtain rfl := eq_of_find? hw hv hvid
    refine .replayEnded hb hrunning hw (hq.1.trans hws.symm) hq.2 ?_ ?_ hwrote hworkflows
    · by_cases hproven : o.proven
      · simp [statusAfterReplay, hproven]
      · by_cases hleft : v.repairCount < v.maxRepairs
        all_goals simp [statusAfterReplay, hproven, hleft]
    · rcases hr with hr | ⟨hr, hproven, -⟩
      · exact .inl hr
      · exact .inr ⟨hr, hproven⟩
  | some repair =>
    obtain ⟨hproven, hleft, id, hrequest, rfl⟩ := replayRepair_eq_some hrepair
    rw [hrepair] at h₁ h₃
    obtain ⟨jobs, hfresh, -, -, -, hjobs, rfl⟩ := insertJob_eq_ok h₁
    obtain ⟨b, replays, hb, hid, -, hrunning, hwrote, rfl⟩ := updateReplay_eq_ok h₂
    obtain ⟨v, workflows, hv, hvid, -, -, -, -, hworkflows, rfl⟩ := updateWorkflow_eq_ok h₃
    obtain rfl := eq_of_find? hfound hb hid
    obtain rfl := eq_of_find? hw hv hvid
    rcases hr with rfl | ⟨-, -, hnone⟩
    · simp only [statusAfterReplay, hproven, Bool.false_eq_true, if_false, Option.isSome_some,
        if_true] at hworkflows
      exact .replayRepaired hb hrunning hw (hq.1.trans hws.symm) hq.2 hproven hleft hfresh hjobs
        hwrote hworkflows
    · rw [hnone] at hrequest
      cases hrequest

theorem failExpiredReplayAttempt_moves
    (h : db.failExpiredReplayAttempt now a = .ok db') : DslMove d ⟨db, l⟩ ⟨db', l⟩ := by
  obtain ⟨⟨db₁, job, attempt⟩, h₁, rfl⟩ := map_eq_ok.mp h
  have hmove := completeDSLReplayInTx_moves (d := d) (l := l) (r := []) h₁
    (.inr ⟨rfl, rfl, rfl⟩)
  rwa [append_nil] at hmove

theorem foldlM_moves {α : Type} {f : DslDb → α → Except DSLError DslDb} {xs : List α}
    (hf : ∀ db a db', f db a = .ok db' → DslMove d ⟨db, l⟩ ⟨db', l⟩)
    (h : xs.foldlM f db = .ok db') : DslMoves d ⟨db, l⟩ ⟨db', l⟩ := by
  have hrel := foldlM_eq_ok (R := fun db db' => DslMove d ⟨db, l⟩ ⟨db', l⟩)
    (fun db a db' hok => .single (hf db a db' hok)) h
  exact hrel.lift (fun db => (⟨db, l⟩ : DslServer)) fun _ _ hmove => hmove

def reap (now : Time) (tie : String → Nat) (db : DslDb) : Except DSLError DslDb := do
  let db ← db.failExpiredDispatchedSelectorRepairs now tie
  let db ← db.failExpiredExhaustedDSLJobs now tie
  db.failExpiredReplayAttempts now tie

variable {tie : String → Nat}

theorem reap_moves (h : db.reap now tie = .ok db') : DslMoves d ⟨db, l⟩ ⟨db', l⟩ := by
  simp only [reap, bind_eq_ok] at h
  obtain ⟨db₁, h₁, db₂, h₂, h₃⟩ := h
  have m₁ := foldlM_moves (d := d) (l := l)
    (fun _ _ _ => failExpiredDispatchedSelectorRepair_moves) h₁
  have m₂ := foldlM_moves (d := d) (l := l)
    (fun _ _ _ => failExpiredExhaustedDSLJob_moves) h₂
  have m₃ := foldlM_moves (d := d) (l := l) (fun _ _ _ => failExpiredReplayAttempt_moves) h₃
  exact (m₁.trans m₂).trans m₃

-- named, since an instance found by search would depend on what a module imports
local instance : LinearOrder Time := Int.instLinearOrder
local instance : Preorder Time := Int.instLinearOrder.toPreorder

variable {lease : Duration}

theorem claimPendingDSLJob_eq : db.claimPendingDSLJob now lease tie = (do
      let db ← db.reap now tie
      match (db.jobs.rows.filter (claimable now)).argmin (claimKey tie) with
      | none => pure (db, none)
      | some job => do
        let r ← db.leaseSelected now
          (now + if lease ≤ 0 then 10 * Duration.minute else lease) job
        pure (r.1, some r.2)) := by
  rw [reap, bind_assoc]
  simp only [bind_assoc]
  rfl

theorem leaseSelected_moves {leaseUntil : Time} {copy : DSLJob} (hmem : job ∈ db.jobs.rows)
    (hclaim : claimable now job)
    (h : db.leaseSelected now leaseUntil job = .ok (db', copy)) :
    DslMove d ⟨db, l⟩ ⟨db', l ++ [.claimed copy]⟩ := by
  have hfind := find?_key hmem
  unfold leaseSelected at h
  split at h
  · rename_i hreuse
    simp only [bind_eq_ok, pure_eq_ok, Prod.mk.injEq] at h
    obtain ⟨db₁, h₁, rfl, rfl⟩ := h
    obtain ⟨j, jobs, hj, hid, -, -, -, hjobs, rfl⟩ := updateJob_eq_ok h₁
    obtain rfl := eq_of_find? hfind hj hid
    exact .renewed hj hreuse rfl rfl hjobs
  · rename_i hreuse
    simp only [bind_eq_ok, pure_eq_ok, Prod.mk.injEq] at h
    obtain ⟨db₁, h₁, rfl, rfl⟩ := h
    obtain ⟨j, jobs, hj, hid, -, -, -, hjobs, rfl⟩ := updateJob_eq_ok h₁
    obtain rfl := eq_of_find? hfind hj hid
    exact .leased hj hclaim (by simpa using hreuse) rfl rfl hjobs

theorem claimPendingDSLJob_moves {job : Option DSLJob}
    (h : db.claimPendingDSLJob now lease tie = .ok (db', job)) :
    DslMoves d ⟨db, l⟩ ⟨db', l ++ job.toList.map .claimed⟩ := by
  rw [claimPendingDSLJob_eq] at h
  obtain ⟨db₁, hreap, h⟩ := bind_eq_ok.mp h
  refine (reap_moves hreap).trans ?_
  split at h
  · obtain ⟨rfl, rfl⟩ := h
    rw [Option.toList_none, map_nil, append_nil]
  · rename_i selected hargmin
    obtain ⟨hmem, hclaim⟩ := mem_filter.mp (argmin_mem hargmin)
    simp only [bind_eq_ok, pure_eq_ok, Prod.mk.injEq] at h
    obtain ⟨⟨db₂, copy⟩, hlease, rfl, rfl⟩ := h
    exact .single (leaseSelected_moves hmem hclaim hlease)

theorem markDSLSelectorRepairDispatched_moves (hjob : s.Holds job)
    (h : s.db.markDSLSelectorRepairDispatched now job = .ok db') :
    DslMove d s ⟨db', s.log ++ [.dispatched job.id]⟩ := by
  obtain ⟨-, h⟩ := ensure_bind_eq_ok.mp h
  obtain ⟨j, jobs, hj, hid, hp, -, -, hjobs, rfl⟩ := updateJob_eq_ok h
  simp only [Bool.and_eq_true, beq_iff_eq, Bool.not_eq_true'] at hp
  rw [hid] at hj
  exact .marked hjob hj hp.1.1 hp.1.2 hp.2 hjobs

theorem insertOptional_moves {prepared : Option (LLMAttemptReport × ReportChecks)}
    (h : db.insertOptional prepared = .ok db') :
    ∃ reports, db' = { db with reports } ∧ DslMoves d ⟨db, l⟩ ⟨db', l⟩ := by
  cases prepared with
  | none =>
    cases h
    exact ⟨db.reports, rfl, .refl⟩
  | some p =>
    obtain ⟨reports, hfresh, hwrote, rfl⟩ := insertReport_eq_ok h
    exact ⟨reports, rfl, .single (.reported hfresh hwrote)⟩

variable {earlier : DslDb}

theorem completeDSLJob_moves (hjob : s.Holds job)
    (h : s.db.completeDSLJob d.artifactHash c job artifact report earlier = .ok db') :
    DslMoves d s ⟨db', s.log ++ [.completed job artifact]⟩ := by
  simp only [completeDSLJob, bind_eq_ok] at h
  obtain ⟨prepared, -, db₁, h₁, db₂, h₂, h₃⟩ := h
  obtain ⟨reports, rfl, hreport⟩ := insertOptional_moves (d := d) (l := s.log) h₁
  obtain ⟨j, jobs, hj, hid, hp, -, -, hjobs, rfl⟩ := updateJob_eq_ok h₂
  obtain ⟨w, workflows, hw, hwid, hq, -, -, -, hworkflows, rfl⟩ := updateWorkflow_eq_ok h₃
  simp only [Bool.and_eq_true, beq_iff_eq] at hq
  rw [hid] at hj
  rw [hwid] at hw
  exact hreport.tail
    (.completed hjob hj hp hw hq.1.1 hq.1.2 hq.2 hjobs hworkflows)

theorem failDSLJob_moves {code message : String} {retryDelay : Duration} (hjob : s.Holds job)
    (h : s.db.failDSLJob c job code message retryDelay report earlier = .ok db') :
    DslMoves d s ⟨db', s.log⟩ := by
  simp only [failDSLJob, bind_eq_ok] at h
  obtain ⟨prepared, -, db₁, h₁, db₂, h₂, h₃⟩ := h
  obtain ⟨reports, rfl, hreport⟩ := insertOptional_moves (d := d) (l := s.log) h₁
  obtain ⟨j, jobs, hj, hid, hp, -, -, hjobs, rfl⟩ := updateJob_eq_ok h₂
  refine hreport.tail ?_
  by_cases hretries : job.attemptCount < job.maxAttempts
  · simp only [hretries, if_true, pure_eq_ok] at h₃ hjobs
    rw [hid] at hj
    subst h₃
    exact .retried hjob hj hp hretries hjobs
  · simp only [hretries, if_false] at h₃ hjobs
    obtain ⟨w, workflows, hw, hwid, hq, -, -, -, hworkflows, rfl⟩ := updateWorkflow_eq_ok h₃
    simp only [Bool.and_eq_true, beq_iff_eq] at hq
    simp only [DSLJob.describes, Bool.and_eq_true, beq_iff_eq] at hp
    rw [← hid] at hq
    exact .jobFailed hj hp.1.2 hjobs rfl rfl rfl rfl hw (hq.1.trans hp.1.1.1.symm) hq.2 hworkflows

theorem scheduleDSLSelectorRepairWithAttemptReport_moves {r : LLMAttemptReport}
    {checks : ReportChecks} {childID : String} {child : DSLJob} (hjob : s.Holds job)
    (h : s.db.scheduleDSLSelectorRepairWithAttemptReport c job r checks childID earlier =
      .ok (db', child)) :
    DslMoves d s ⟨db', s.log⟩ := by
  simp only [scheduleDSLSelectorRepairWithAttemptReport, bind_eq_ok, ensure_eq_ok, exists_const,
    pure_eq_ok, Prod.mk.injEq, Bool.and_eq_true, bne_iff_ne] at h
  obtain ⟨⟨⟨hkind, -⟩, -⟩, -, -, prepared, -, db₁, h₁, db₂, h₂, db₃, h₃, db₄, h₄, rfl, -⟩ := h
  obtain ⟨reports, hfresh, hreports, rfl⟩ := insertReport_eq_ok h₁
  obtain ⟨j, ended, hj, hid, hp, -, -, hended, rfl⟩ := updateJob_eq_ok h₂
  obtain ⟨jobs, hchild, -, hsource, hunique, hjobs, rfl⟩ := insertJob_eq_ok h₃
  obtain ⟨w, workflows, hw, hwid, hq, -, -, -, hworkflows, rfl⟩ := updateWorkflow_eq_ok h₄
  simp only [Bool.and_eq_true, beq_iff_eq] at hq
  rw [hwid] at hw
  have hreport : DslMove d s ⟨{ s.db with reports }, s.log⟩ := .reported hfresh hreports
  refine (Relation.ReflTransGen.single hreport).tail
    (.handedOver hjob hkind (hid ▸ hj) hp hw hq.1 hq.2 ?_ ?_ ?_ hended hjobs hworkflows)
  · -- the name is free after the source has ended, so it was free before
    have hname := hended childID
    rw [show ended.find? childID = none from hchild] at hname
    split at hname
    · cases hname
    · exact hname.symm
  · refine ⟨prepared, hreports.self, ?_⟩
    obtain ⟨q, hq, hcond⟩ := Table.any_eq_true.mp (hsource rfl)
    simp only [Bool.and_eq_true, beq_iff_eq] at hcond
    obtain ⟨⟨⟨⟨⟨hsame, hws⟩, -⟩, -⟩, -⟩, -⟩ := hcond
    have hqid : q.id = prepared.id := (Option.some.inj hsame).symm
    obtain rfl := eq_of_find? hreports.self (find?_key hq) hqid
    exact hws
  · intro i hi hws
    by_cases hij : i.id = j.id
    · obtain rfl := eq_of_find? hj hi hij
      exact hunique rfl (SetClause.set _ i) hended.self hws
    · exact hunique rfl i ((hended.of_ne (Ne.symm hij)).trans hi) hws

variable {workflowID : String}

theorem correctDSLWorkflow_moves
    (h : s.db.correctDSLWorkflow d.artifactHash c workflowID artifact = .ok db') :
    DslMove d s ⟨db', s.log ++ [.corrected workflowID artifact]⟩ := by
  obtain ⟨w, workflows, hw, rfl, hp, -, -, hunique, hwrote, rfl⟩ := updateWorkflow_eq_ok h
  simp only [Bool.and_eq_true, Bool.or_eq_true, beq_iff_eq] at hp
  exact .corrected hw hp.2 hunique hwrote

theorem startDSLReplay_moves {timeout : Option Duration}
        (h : s.db.startDSLReplay c workflowID timeout attemptID = .ok (db', a)) :
    DslMove d s ⟨db', s.log ++ [.replayStarted a]⟩ := by
  unfold startDSLReplay at h
  dsimp only at h
  split at h
  · cases h
  rename_i w hfilter
  obtain ⟨hfound, hws⟩ := Option.filter_eq_some_iff.mp hfilter
  simp only [bind_eq_ok, ensure_eq_ok, exists_const, pure_eq_ok, Prod.mk.injEq, Bool.or_eq_true,
    beq_iff_eq] at h hws
  obtain ⟨hstatus, db₁, h₁, db₂, h₂, rfl, rfl⟩ := h
  obtain ⟨v, workflows, hv, hid, -, -, -, -, hworkflows, rfl⟩ := updateWorkflow_eq_ok h₁
  obtain rfl := eq_of_find? hfound hv hid
  obtain ⟨replays, hfresh, ⟨q, hq, hhash⟩, hreplays, rfl⟩ := insertReplay_eq_ok h₂
  refine .replayStarted hv hstatus hfresh hid.symm hws.symm rfl rfl ?_ hworkflows hreplays
  -- the trigger reads the row after the update, which has left the rule alone
  rw [← hid, show workflows.find? v.id = some _ from hworkflows.self] at hq
  cases hq
  exact hhash

theorem completeDSLReplay_moves {attemptWorkspace : WorkspaceID} {repairMaxAttempts : Option Int}
    (h : s.db.completeDSLReplay c attemptID attemptWorkspace o repairJobID repairMaxAttempts =
      .ok (db', repairJob, a)) :
    DslMove d s ⟨db', s.log ++ [.replayCompleted a]⟩ := by
  simp only [completeDSLReplay, bind_eq_ok, ensure_eq_ok, exists_const, pure_eq_ok, Prod.mk.injEq] at h
  obtain ⟨-, ⟨db₁, job, attempt⟩, h₁, rfl, rfl, rfl⟩ := h
  exact completeDSLReplayInTx_moves h₁ (.inl rfl)

theorem approveDSLWorkflow_moves {opts : ApproveDSLWorkflowOptions}
    {reads : RequirementReads} {v : SealedRuleVersion} {k : SealedContract}
    (h : s.db.approveDSLWorkflow d c workflowID opts reads = .ok (db', v, k)) :
    DslMove d s ⟨db', s.log ++ [.approved workflowID opts v]⟩ := by
  have hcall := h
  unfold approveDSLWorkflow at h
  split at h
  · cases h
  rename_i w hfilter
  obtain ⟨hw, hws⟩ := Option.filter_eq_some_iff.mp hfilter
  obtain ⟨-, h⟩ := ensure_bind_eq_ok.mp h
  split at h
  · rename_i hstatus
    simp only [bind_eq_ok, pure_eq_ok, Prod.mk.injEq] at h
    obtain ⟨⟨v', k'⟩, happroved, rfl, hvk⟩ := h
    cases hvk
    exact .reapproved hw (by simpa using hws) (by simpa using hstatus) happroved
  · rename_i hstatus
    exact .approved hcall hw (by simpa using hws) (by simpa using hstatus)

end DslDb

namespace DslServer

variable {flags : List String}

theorem holds_of_mem {leased : DSLJob} (h : leased ∈ s.held) :
    s.Holds { leased with safetyFlags := flags } := by
  obtain ⟨r, hr, hjob⟩ := mem_filterMap.mp h
  cases r with
  | claimed job =>
    obtain rfl := Option.some.inj hjob
    exact ⟨job, hr, rfl, rfl⟩
  | _ => cases hjob

theorem holds_of_copy {k : Nat} (h : s.copy k flags = some job) : s.Holds job := by
  obtain ⟨leased, hleased, rfl⟩ := Option.map_eq_some_iff.mp h
  exact holds_of_mem (mem_of_getElem? hleased)

variable {e : DslEvent} {replies : List DslReply}

theorem serve_moves (h : s.serve d e = .ok (db', replies)) : DslMoves d s ⟨db', s.log ++ replies⟩ := by
  cases e with
  | createDSLWorkflow c w options confirmed newID jobID =>
    obtain ⟨⟨db₁, job⟩, hok, ⟨⟩⟩ := map_eq_ok.mp h
    rw [append_nil]
    exact .single (createDSLWorkflow_moves hok)
  | createAdminReviewedDSLWorkflow c w artifact confirmed newID =>
    obtain ⟨⟨db₁, id⟩, hok, ⟨⟩⟩ := map_eq_ok.mp h
    exact createAdminReviewedDSLWorkflow_moves hok
  | claimPendingDSLJob now lease tie =>
    obtain ⟨⟨db₁, job⟩, hok, ⟨⟩⟩ := map_eq_ok.mp h
    exact claimPendingDSLJob_moves hok
  | markDSLSelectorRepairDispatched now k =>
    simp only [serve] at h
    split at h
    · cases h
    rename_i job hk
    obtain ⟨db₁, hok, ⟨⟩⟩ := map_eq_ok.mp h
    exact .single (markDSLSelectorRepairDispatched_moves (holds_of_mem (mem_of_getElem? hk)) hok)
  | scheduleDSLSelectorRepair earlier c k flags report checks childID =>
    simp only [serve] at h
    split at h
    · cases h
    rename_i job hk
    obtain ⟨⟨db₁, child⟩, hok, ⟨⟩⟩ := map_eq_ok.mp h
    rw [append_nil]
    exact scheduleDSLSelectorRepairWithAttemptReport_moves (holds_of_copy hk) hok
  | completeDSLJob earlier c k flags artifact report =>
    simp only [serve] at h
    split at h
    · cases h
    rename_i job hk
    obtain ⟨db₁, hok, ⟨⟩⟩ := map_eq_ok.mp h
    exact completeDSLJob_moves (holds_of_copy hk) hok
  | failDSLJob earlier c k flags code message retryDelay report =>
    simp only [serve] at h
    split at h
    · cases h
    rename_i job hk
    obtain ⟨db₁, hok, ⟨⟩⟩ := map_eq_ok.mp h
    rw [append_nil]
    exact failDSLJob_moves (holds_of_copy hk) hok
  | correctDSLWorkflow c workflowID artifact =>
    obtain ⟨db₁, hok, ⟨⟩⟩ := map_eq_ok.mp h
    exact .single (correctDSLWorkflow_moves hok)
  | startDSLReplay c workflowID timeout attemptID =>
    obtain ⟨⟨db₁, a⟩, hok, ⟨⟩⟩ := map_eq_ok.mp h
    exact .single (startDSLReplay_moves hok)
  | completeDSLReplay c attemptID attemptWorkspace o repairJobID repairMaxAttempts =>
    obtain ⟨⟨db₁, job, a⟩, hok, ⟨⟩⟩ := map_eq_ok.mp h
    exact .single (completeDSLReplay_moves hok)
  | approveDSLWorkflow c workflowID opts reads =>
    obtain ⟨⟨db₁, v, k⟩, hok, ⟨⟩⟩ := map_eq_ok.mp h
    exact .single (approveDSLWorkflow_moves hok)
  | createRuleVersion c input recordingID inputSchema outputSchema recordingLive =>
    obtain ⟨⟨db₁, v⟩, hok, ⟨⟩⟩ := map_eq_ok.mp h
    rw [append_nil]
    exact .single (.sealed rfl h)
  | approveRuleVersion c ruleID version =>
    have hcall := h
    simp only [serve, bind_eq_ok, pure_eq_ok, Prod.mk.injEq] at h
    obtain ⟨v, -, ⟨db₁, v'⟩, -, rfl, rfl⟩ := h
    rw [append_nil]
    exact .single (.sealed rfl hcall)
  | rejectRuleVersion c ruleID version =>
    obtain ⟨db₁, hok, ⟨⟩⟩ := map_eq_ok.mp h
    rw [append_nil]
    exact .single (.sealed rfl h)
  | changeRules rules =>
    have hcall := h
    obtain ⟨⟩ := Except.ok.inj h
    rw [append_nil]
    exact .single (.sealed rfl hcall)

theorem versionCall_same (he : e.isVersionCall)
    (h : s.serve d e = .ok (db', replies)) : SameLife s.db db' := by
  cases e with
  | createRuleVersion c input recordingID inputSchema outputSchema recordingLive =>
    obtain ⟨⟨db₁, v⟩, hok, ⟨⟩⟩ := map_eq_ok.mp h
    exact createRuleVersion_same hok
  | approveRuleVersion c ruleID version =>
    simp only [serve, bind_eq_ok, pure_eq_ok, Prod.mk.injEq] at h
    obtain ⟨v, -, ⟨db₁, v'⟩, hok, rfl, -⟩ := h
    exact approveRuleVersion_same hok
  | rejectRuleVersion c ruleID version =>
    obtain ⟨db₁, hok, ⟨⟩⟩ := map_eq_ok.mp h
    exact rejectRuleVersion_same hok
  | changeRules rules =>
    obtain ⟨⟩ := Except.ok.inj h
    exact ⟨rfl, rfl, rfl, rfl, rfl⟩
  | _ => cases he

theorem step_moves (e : DslEvent) : DslMoves d s (s.step d e) := by
  unfold step
  split
  · exact .refl
  · rename_i db' replies h
    exact serve_moves h

end DslServer

end Calls

end Aegis
