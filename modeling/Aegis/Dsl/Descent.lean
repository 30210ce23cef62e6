import Aegis.Dsl.Moves

/-!
# Dsl.Descent

What the rows of the workflow domain descend from.

A workflow has a parent outside the domain, a job and a replay have a workflow, a selector repair
has the report of the attempt it repairs, and a report is of the recording of a workflow. Whatever a
call does is a sequence of statements that add rows of this kind or leave these columns alone.
-/

namespace Aegis

open Table (Wrote Agree)
open Relation (ReflTransGen)

/-! ## Columns -/

theorem DSLWorkflow.roots_of_identity {v w : DSLWorkflow} (h : v.identity = w.identity) :
    v.id = w.id ∧ v.workspaceID = w.workspaceID ∧ v.requirementID = w.requirementID ∧
      v.recordingID = w.recordingID :=
  ⟨congrArg Prod.fst h, congrArg (·.2.1) h, congrArg (·.2.2.1) h, congrArg (·.2.2.2.1) h⟩

theorem DSLJob.roots_of_identity {i j : DSLJob} (h : i.identity = j.identity) :
    i.id = j.id ∧ i.workspaceID = j.workspaceID ∧ i.workflowID = j.workflowID ∧
      i.sourceAttemptReportID = j.sourceAttemptReportID :=
  ⟨congrArg Prod.fst h, congrArg (·.2.1) h, congrArg (·.2.2.1) h, congrArg (·.2.2.2.2.2.1) h⟩

theorem ReplayAttempt.roots_of_identity {a b : ReplayAttempt} (h : a.identity = b.identity) :
    a.id = b.id ∧ a.workspaceID = b.workspaceID ∧ a.workflowID = b.workflowID :=
  ⟨congrArg Prod.fst h, congrArg (·.2.1) h, congrArg (·.2.2.1) h⟩

namespace DslDb

section Statements

-- `parent` tells the workspaces, requirements and recordings a workflow may be made of
variable (parent : WorkspaceID → String → String → Prop)

/-- The job belongs to a workflow of its workspace, and its report to the recording of that. -/
def JobDescends (db : DslDb) (j : DSLJob) : Prop :=
  ∃ w, db.workflows.find? j.workflowID = some w ∧ w.workspaceID = j.workspaceID ∧
    ∀ id, j.sourceAttemptReportID = some id → ∃ r, db.reports.find? id = some r ∧
      r.workspaceID = w.workspaceID ∧ r.recordingID = w.recordingID

inductive Statement (db : DslDb) : DslDb → Prop
  | kept {db'} : Agree DSLWorkflow.identity db.workflows db'.workflows →
      Agree DSLJob.identity db.jobs db'.jobs →
      Agree ReplayAttempt.identity db.replays db'.replays → db'.reports = db.reports →
      Statement db db'
  | workflowInserted {w workflows} : db.workflows.find? w.id = none →
      parent w.workspaceID w.requirementID w.recordingID → Wrote db.workflows workflows w →
      Statement db { db with workflows }
  | jobInserted {j jobs} : db.jobs.find? j.id = none → db.JobDescends j → Wrote db.jobs jobs j →
      Statement db { db with jobs }
  | reportInserted {r w reports} : db.reports.find? r.id = none →
      db.workflows.find? w.id = some w → r.workspaceID = w.workspaceID →
      r.recordingID = w.recordingID → Wrote db.reports reports r →
      Statement db { db with reports }
  | replayInserted {a w replays} : db.replays.find? a.id = none →
      db.workflows.find? a.workflowID = some w → w.workspaceID = a.workspaceID →
      Wrote db.replays replays a → Statement db { db with replays }

abbrev Statements : DslDb → DslDb → Prop := ReflTransGen (Statement parent)

variable {parent} {db db' : DslDb} {id : String} {e : DSLError}

theorem SameLife.statement (h : SameLife db db') : Statement parent db db' :=
  .kept (.of_eq h.workflows) (.of_eq h.jobs) (.of_eq h.replays) h.reports

theorem updateWorkflow_statement {p : DSLWorkflow → Bool} {f : WorkflowUpdate}
    (h : db.updateWorkflow id p f e = .ok db') : Statement parent db db' := by
  obtain ⟨w, workflows, hw, -, -, -, -, -, hwrote, rfl⟩ := updateWorkflow_eq_ok h
  have hid := f.onIdentity.keeps w
  have hkey := DSLWorkflow.id_of_identity hid
  exact .kept (.of_wrote hwrote (hkey.symm ▸ hw) hid) .refl .refl rfl

theorem updateJob_statement {p : DSLJob → Bool} {f : JobUpdate}
    (h : db.updateJob id p f e = .ok db') : Statement parent db db' := by
  obtain ⟨j, jobs, hj, -, -, -, -, hwrote, rfl⟩ := updateJob_eq_ok h
  have hid := f.keeps j
  have hkey := DSLJob.id_of_identity hid
  exact .kept .refl (.of_wrote hwrote (hkey.symm ▸ hj) hid) .refl rfl

theorem updateReplay_statement {p : ReplayAttempt → Bool} {f : ReplayUpdate}
    (h : db.updateReplay id p f e = .ok db') : Statement parent db db' := by
  obtain ⟨a, replays, ha, -, -, -, hwrote, rfl⟩ := updateReplay_eq_ok h
  have hid := f.keeps a
  have hkey := ReplayAttempt.id_of_identity hid
  exact .kept .refl .refl (.of_wrote hwrote (hkey.symm ▸ ha) hid) rfl

variable {w : DSLWorkflow}

theorem insertWorkflow_statement {confirmed : Bool}
    (hparent : confirmed → parent w.workspaceID w.requirementID w.recordingID)
    (h : db.insertWorkflow w confirmed = .ok db') : Statement parent db db' := by
  have hconfirmed : confirmed := by
    simp only [insertWorkflow, ensure_bind_eq_ok] at h
    exact h.1
  obtain ⟨workflows, hfresh, -, hwrote, rfl⟩ := insertWorkflow_eq_ok h
  exact .workflowInserted hfresh (hparent hconfirmed) hwrote

theorem report_of_selectorRepairSource {j : DSLJob}
    (h : db.selectorRepairSource j) (hw : db.workflows.find? j.workflowID = some w)
    (hid : j.sourceAttemptReportID = some id) : ∃ r, db.reports.find? id = some r ∧
      r.workspaceID = j.workspaceID ∧ r.recordingID = w.recordingID := by
  obtain ⟨r, hr, hcond⟩ := Table.any_eq_true.mp h
  simp only [Bool.and_eq_true, beq_iff_eq, Option.any_eq_true] at hcond
  obtain ⟨⟨⟨⟨⟨hsame, hws⟩, -⟩, -⟩, -⟩, source, -, ⟨⟨⟨⟨-, hworkflow⟩, -⟩, -⟩, -⟩, v, hv, -, hrec⟩ := hcond
  rw [hid] at hsame
  rw [hworkflow, hw] at hv
  cases hsame
  cases hv
  exact ⟨r, Table.find?_key hr, hws, hrec.symm⟩

theorem insertJob_statement {j : DSLJob} (h : db.insertJob j = .ok db') : Statement parent db db' := by
  have hkind : (j.kind == .selectorRepair) = j.sourceAttemptReportID.isSome := by
    simp only [insertJob, ensure_bind_eq_ok, beq_iff_eq] at h
    exact h.2.2.2.2.1
  obtain ⟨jobs, hfresh, ⟨w, hw, hws⟩, hsource, -, hwrote, rfl⟩ := insertJob_eq_ok h
  refine .jobInserted hfresh ⟨w, hw, hws, ?_⟩ hwrote
  intro id hid
  have hrepair : j.kind = .selectorRepair := by
    rw [hid] at hkind
    simpa using hkind
  obtain ⟨r, hr, hworkspace, hrec⟩ := report_of_selectorRepairSource (hsource hrepair) hw hid
  exact ⟨r, hr, hworkspace.trans hws.symm, hrec⟩

theorem insertReport_statement {r : LLMAttemptReport} {callsAgree : Bool}
    (h : db.insertReport r callsAgree = .ok db') : Statement parent db db' := by
  have hattempt : ∃ w, db.workflows.find? w.id = some w ∧ r.workspaceID = w.workspaceID ∧
      r.recordingID = w.recordingID := by
    simp only [insertReport, ensure_bind_eq_ok, Option.any_eq_true, Bool.and_eq_true, beq_iff_eq] at h
    obtain ⟨⟨j, -, ⟨⟨hws, -⟩, -⟩, w, hw, hworkspace, hrec⟩, -⟩ := h
    exact ⟨w, Table.find?_self hw, hws.symm.trans hworkspace.symm, hrec.symm⟩
  obtain ⟨w, hw, hws, hrec⟩ := hattempt
  obtain ⟨reports, hfresh, hwrote, rfl⟩ := insertReport_eq_ok h
  exact .reportInserted hfresh hw hws hrec hwrote

theorem insertReplay_statement {a : ReplayAttempt} (h : db.insertReplay a = .ok db') :
    Statement parent db db' := by
  have hparent : ∃ w, db.workflows.find? a.workflowID = some w ∧ w.workspaceID = a.workspaceID := by
    simp only [insertReplay, ensure_bind_eq_ok, Option.any_eq_true, Bool.and_eq_true, beq_iff_eq] at h
    obtain ⟨⟨w, hw, ⟨hws, -⟩, -⟩, -⟩ := h
    exact ⟨w, hw, hws⟩
  obtain ⟨w, hw, hws⟩ := hparent
  obtain ⟨replays, hfresh, -, hwrote, rfl⟩ := insertReplay_eq_ok h
  exact .replayInserted hfresh hw hws hwrote

/-- Every row has what it descends from; `live` tells the recordings a report may be of. -/
structure Descends (parent : WorkspaceID → String → String → Prop)
    (live : WorkspaceID → String → Prop) (db : DslDb) : Prop where
  workflow : ∀ w, db.workflows.find? w.id = some w → parent w.workspaceID w.requirementID w.recordingID
  job : ∀ j, db.jobs.find? j.id = some j → db.JobDescends j
  replay : ∀ a, db.replays.find? a.id = some a →
    ∃ w, db.workflows.find? a.workflowID = some w ∧ w.workspaceID = a.workspaceID
  report : ∀ r, db.reports.find? r.id = some r → live r.workspaceID r.recordingID

namespace Descends

variable {live live' : WorkspaceID → String → Prop}
  {parent' : WorkspaceID → String → String → Prop}

theorem empty : Descends parent live .empty where
  workflow _ h := by cases h
  job _ h := by cases h
  replay _ h := by cases h
  report _ h := by cases h

theorem mono (h : Descends parent live db)
    (hparent : ∀ ws requirementID recordingID, parent ws requirementID recordingID →
      parent' ws requirementID recordingID)
    (hlive : ∀ ws recordingID, live ws recordingID → live' ws recordingID) :
    Descends parent' live' db where
  workflow w hw := hparent _ _ _ (h.workflow w hw)
  job := h.job
  replay := h.replay
  report r hr := hlive _ _ (h.report r hr)

theorem kept (h : Descends parent live db) (hw : Agree DSLWorkflow.identity db.workflows db'.workflows)
    (hj : Agree DSLJob.identity db.jobs db'.jobs)
    (ha : Agree ReplayAttempt.identity db.replays db'.replays) (hr : db'.reports = db.reports) :
    Descends parent live db' where
  workflow w hfind := by
    obtain ⟨v, hv, hid⟩ := hw.symm.row hfind
    obtain ⟨hkey, hws, hreq, hrec⟩ := DSLWorkflow.roots_of_identity hid
    have hparent := h.workflow v (hkey.symm ▸ hv)
    rwa [hws, hreq, hrec] at hparent
  job j hfind := by
    obtain ⟨i, hi, hid⟩ := hj.symm.row hfind
    obtain ⟨hkey, hjob, hworkflow, hsource⟩ := DSLJob.roots_of_identity hid
    obtain ⟨w, hfound, hws, hreport⟩ := h.job i (hkey.symm ▸ hi)
    obtain ⟨v, hv, hvid⟩ := hw.row hfound
    obtain ⟨-, hvws, -, hvrec⟩ := DSLWorkflow.roots_of_identity hvid
    refine ⟨v, hworkflow ▸ hv, hvws.trans (hws.trans hjob), ?_⟩
    intro id hsome
    rw [hr, hvws, hvrec]
    exact hreport id (hsource.trans hsome)
  replay a hfind := by
    obtain ⟨b, hb, hid⟩ := ha.symm.row hfind
    obtain ⟨hkey, hbws, hworkflow⟩ := ReplayAttempt.roots_of_identity hid
    obtain ⟨w, hfound, hws⟩ := h.replay b (hkey.symm ▸ hb)
    obtain ⟨v, hv, hvid⟩ := hw.row hfound
    obtain ⟨-, hvws, -, -⟩ := DSLWorkflow.roots_of_identity hvid
    exact ⟨v, hworkflow ▸ hv, hvws.trans (hws.trans hbws)⟩
  report r hfind := h.report r (hr ▸ hfind)

theorem statement (h : Descends parent live db)
    (hroot : ∀ ws requirementID recordingID, parent ws requirementID recordingID → live ws recordingID)
    (hs : Statement parent db db') : Descends parent live db' := by
  cases hs with
  | kept hw hj ha hr => exact h.kept hw hj ha hr
  | workflowInserted hfresh hparent hwrote =>
    rename_i w workflows
    have hstays : ∀ k v, db.workflows.find? k = some v → workflows.find? k = some v := by
      intro k v hv
      rw [hwrote.of_ne, hv]
      rintro rfl
      rw [hfresh] at hv
      cases hv
    refine ⟨?_, ?_, ?_, h.report⟩
    · intro v hv
      rcases hwrote.cases hv with ⟨-, rfl⟩ | ⟨-, hold⟩
      · exact hparent
      · exact h.workflow v hold
    · intro j hj
      obtain ⟨v, hv, hrest⟩ := h.job j hj
      exact ⟨v, hstays _ v hv, hrest⟩
    · intro a ha
      obtain ⟨v, hv, hrest⟩ := h.replay a ha
      exact ⟨v, hstays _ v hv, hrest⟩
  | jobInserted hfresh hdescends hwrote =>
    refine ⟨h.workflow, ?_, h.replay, h.report⟩
    intro i hi
    rcases hwrote.cases hi with ⟨-, rfl⟩ | ⟨-, hold⟩
    · exact hdescends
    · exact h.job i hold
  | reportInserted hfresh hw hws hrec hwrote =>
    rename_i r w reports
    refine ⟨h.workflow, ?_, h.replay, ?_⟩
    · intro j hj
      obtain ⟨v, hv, hsame, hsource⟩ := h.job j hj
      refine ⟨v, hv, hsame, ?_⟩
      intro id hid
      obtain ⟨q, hq, hrest⟩ := hsource id hid
      refine ⟨q, ?_, hrest⟩
      rw [hwrote.of_ne, hq]
      rintro rfl
      rw [hfresh] at hq
      cases hq
    · intro q hq
      rcases hwrote.cases hq with ⟨-, rfl⟩ | ⟨-, hold⟩
      · rw [hws, hrec]
        exact hroot _ _ _ (h.workflow w hw)
      · exact h.report q hold
  | replayInserted hfresh hw hws hwrote =>
    refine ⟨h.workflow, h.job, ?_, h.report⟩
    intro b hb
    rcases hwrote.cases hb with ⟨-, rfl⟩ | ⟨-, hold⟩
    · exact ⟨_, hw, hws⟩
    · exact h.replay b hold

theorem statements (h : Descends parent live db)
    (hroot : ∀ ws requirementID recordingID, parent ws requirementID recordingID → live ws recordingID)
    (hs : Statements parent db db') : Descends parent live db' := by
  induction hs with
  | refl => exact h
  | tail _ hlast ih => exact ih.statement hroot hlast

end Descends

end Statements

section Calls

variable {parent : WorkspaceID → String → String → Prop} {db db' : DslDb} {c : DSLCtx}
  {now : Time} {job : DSLJob} {report : Option (LLMAttemptReport × ReportChecks)}

variable {w : NewDSLWorkflow} {confirmed : Bool}

theorem createDSLWorkflow_statements {options : Option DSLWorkflowOptions} {newID jobID : String}
    (hparent : confirmed → parent c.workspace w.requirementID w.recordingID)
    (h : db.createDSLWorkflow c w options confirmed newID jobID = .ok (db', job)) :
    Statements parent db db' := by
  simp only [createDSLWorkflow, bind_eq_ok, ensure_eq_ok, exists_const, pure_eq_ok, Prod.mk.injEq] at h
  obtain ⟨-, -, db₁, h₁, db₂, h₂, rfl, -⟩ := h
  exact (ReflTransGen.single (insertWorkflow_statement hparent h₁)).tail (insertJob_statement h₂)

variable {d : Digests} {artifact : ProvisionalDSLArtifact}

theorem createAdminReviewedDSLWorkflow_statements {newID id : String}
    (hparent : confirmed → parent c.workspace w.requirementID w.recordingID)
    (h : db.createAdminReviewedDSLWorkflow d.artifactHash c w artifact confirmed newID =
      .ok (db', id)) : Statements parent db db' := by
  simp only [createAdminReviewedDSLWorkflow, ensure_bind_eq_ok] at h
  obtain ⟨-, -, -, h⟩ := h
  split at h
  · simp only [ensure_bind_eq_ok, pure_eq_ok, Prod.mk.injEq] at h
    obtain ⟨-, rfl, -⟩ := h
    exact .refl
  · simp only [bind_eq_ok, pure_eq_ok, Prod.mk.injEq] at h
    obtain ⟨db₁, h₁, rfl, -⟩ := h
    exact (ReflTransGen.single (insertWorkflow_statement hparent h₁)).tail (.kept .refl .refl .refl rfl)

theorem foldlM_statements {α : Type} {f : DslDb → α → Except DSLError DslDb} {xs : List α}
    (hf : ∀ db a db', f db a = .ok db' → Statements parent db db')
    (h : xs.foldlM f db = .ok db') : Statements parent db db' :=
  foldlM_eq_ok hf h

theorem failExpiredDispatchedSelectorRepair_statements
    (h : db.failExpiredDispatchedSelectorRepair now job = .ok db') : Statements parent db db' := by
  obtain ⟨db₁, h₁, h₂⟩ := bind_eq_ok.mp h
  exact (ReflTransGen.single (updateJob_statement h₁)).tail (updateWorkflow_statement h₂)

theorem failExpiredExhaustedDSLJob_statements
    (h : db.failExpiredExhaustedDSLJob now job = .ok db') : Statements parent db db' := by
  obtain ⟨db₁, h₁, h₂⟩ := bind_eq_ok.mp h
  exact (ReflTransGen.single (updateJob_statement h₁)).tail (updateWorkflow_statement h₂)

variable {attemptID : String} {a : ReplayAttempt}

theorem completeDSLReplayInTx_statements {workspace : WorkspaceID}
    {o : ReplayOutcome} {repairJobID : Option String} {jobMaxAttempts : Nat}
    {repairJob : Option DSLJob}
    (h : db.completeDSLReplayInTx workspace attemptID o repairJobID jobMaxAttempts now =
      .ok (db', repairJob, a)) : Statements parent db db' := by
  unfold completeDSLReplayInTx at h
  split at h
  · cases h
  rename_i attempt hattempt
  obtain ⟨-, h⟩ := ensure_bind_eq_ok.mp h
  split at h
  · cases h
  rename_i w hfilter
  simp only [bind_eq_ok, pure_eq_ok, Prod.mk.injEq] at h
  obtain ⟨db₁, h₁, db₂, h₂, db₃, h₃, rfl, -, -⟩ := h
  have hrepair : Statements parent db db₁ := by
    cases hr : replayRepair o repairJobID jobMaxAttempts now attempt w with
    | none =>
      rw [hr] at h₁
      cases h₁
      exact .refl
    | some repair =>
      rw [hr] at h₁
      exact .single (insertJob_statement h₁)
  exact (hrepair.tail (updateReplay_statement h₂)).tail (updateWorkflow_statement h₃)

theorem failExpiredReplayAttempt_statements
    (h : db.failExpiredReplayAttempt now a = .ok db') : Statements parent db db' := by
  obtain ⟨⟨db₁, repair, attempt⟩, h₁, rfl⟩ := map_eq_ok.mp h
  exact completeDSLReplayInTx_statements h₁

variable {tie : String → Nat}

theorem reap_statements (h : db.reap now tie = .ok db') : Statements parent db db' := by
  simp only [reap, bind_eq_ok] at h
  obtain ⟨db₁, h₁, db₂, h₂, h₃⟩ := h
  have s₁ : Statements parent db db₁ :=
    foldlM_statements (fun _ _ _ => failExpiredDispatchedSelectorRepair_statements) h₁
  have s₂ : Statements parent db₁ db₂ :=
    foldlM_statements (fun _ _ _ => failExpiredExhaustedDSLJob_statements) h₂
  have s₃ : Statements parent db₂ db' :=
    foldlM_statements (fun _ _ _ => failExpiredReplayAttempt_statements) h₃
  exact (s₁.trans s₂).trans s₃

theorem leaseSelected_statements {leaseUntil : Time} {copy : DSLJob}
    (h : db.leaseSelected now leaseUntil job = .ok (db', copy)) : Statements parent db db' := by
  unfold leaseSelected at h
  split at h
  all_goals
    simp only [bind_eq_ok, pure_eq_ok, Prod.mk.injEq] at h
    obtain ⟨db₁, h₁, rfl, -⟩ := h
    exact .single (updateJob_statement h₁)

theorem claimPendingDSLJob_statements {lease : Duration}
    {copy : Option DSLJob} (h : db.claimPendingDSLJob now lease tie = .ok (db', copy)) :
    Statements parent db db' := by
  rw [claimPendingDSLJob_eq] at h
  obtain ⟨db₁, hreap, h⟩ := bind_eq_ok.mp h
  refine (reap_statements hreap).trans ?_
  split at h
  · obtain ⟨rfl, -⟩ := h
    exact .refl
  · simp only [bind_eq_ok, pure_eq_ok, Prod.mk.injEq] at h
    obtain ⟨⟨db₂, leased⟩, hlease, rfl, -⟩ := h
    exact leaseSelected_statements hlease

theorem insertOptional_statements {prepared : Option (LLMAttemptReport × ReportChecks)}
    (h : db.insertOptional prepared = .ok db') : Statements parent db db' := by
  cases prepared with
  | none =>
    cases h
    exact .refl
  | some p => exact .single (insertReport_statement h)

variable {earlier : DslDb}

theorem completeDSLJob_statements
    (h : db.completeDSLJob d.artifactHash c job artifact report earlier = .ok db') :
    Statements parent db db' := by
  simp only [completeDSLJob, bind_eq_ok] at h
  obtain ⟨prepared, -, db₁, h₁, db₂, h₂, h₃⟩ := h
  exact ((insertOptional_statements h₁).tail (updateJob_statement h₂)).tail
    (updateWorkflow_statement h₃)

theorem failDSLJob_statements {code message : String} {retryDelay : Duration}
    (h : db.failDSLJob c job code message retryDelay report earlier = .ok db') :
    Statements parent db db' := by
  simp only [failDSLJob, bind_eq_ok] at h
  obtain ⟨prepared, -, db₁, h₁, db₂, h₂, h₃⟩ := h
  have hjob : Statements parent db db₂ :=
    (insertOptional_statements h₁).tail (updateJob_statement h₂)
  split at h₃
  · obtain rfl := pure_eq_ok.mp h₃
    exact hjob
  · exact hjob.tail (updateWorkflow_statement h₃)

theorem scheduleDSLSelectorRepairWithAttemptReport_statements {r : LLMAttemptReport}
    {checks : ReportChecks} {childID : String} {child : DSLJob}
    (h : db.scheduleDSLSelectorRepairWithAttemptReport c job r checks childID earlier =
      .ok (db', child)) : Statements parent db db' := by
  simp only [scheduleDSLSelectorRepairWithAttemptReport, bind_eq_ok, ensure_eq_ok, exists_const,
    pure_eq_ok, Prod.mk.injEq] at h
  obtain ⟨-, -, -, prepared, -, db₁, h₁, db₂, h₂, db₃, h₃, db₄, h₄, rfl, -⟩ := h
  have hended : Statements parent db db₂ :=
    (ReflTransGen.single (insertReport_statement h₁)).tail (updateJob_statement h₂)
  exact (hended.tail (insertJob_statement h₃)).tail (updateWorkflow_statement h₄)

variable {workflowID : String}

theorem startDSLReplay_statements {timeout : Option Duration}
        (h : db.startDSLReplay c workflowID timeout attemptID = .ok (db', a)) :
    Statements parent db db' := by
  unfold startDSLReplay at h
  dsimp only at h
  split at h
  · cases h
  simp only [bind_eq_ok, ensure_eq_ok, exists_const, pure_eq_ok, Prod.mk.injEq] at h
  obtain ⟨-, db₁, h₁, db₂, h₂, rfl, -⟩ := h
  exact (ReflTransGen.single (updateWorkflow_statement h₁)).tail (insertReplay_statement h₂)

theorem approveDSLWorkflow_statements
    {opts : ApproveDSLWorkflowOptions} {reads : RequirementReads} {v : SealedRuleVersion}
    {k : SealedContract} (h : db.approveDSLWorkflow d c workflowID opts reads = .ok (db', v, k)) :
    Statements parent db db' := by
  unfold approveDSLWorkflow at h
  split at h
  · cases h
  obtain ⟨-, h⟩ := ensure_bind_eq_ok.mp h
  split at h
  · simp only [bind_eq_ok, pure_eq_ok, Prod.mk.injEq] at h
    obtain ⟨-, -, rfl, -⟩ := h
    exact .refl
  · simp only [bind_eq_ok, pure_eq_ok, Prod.mk.injEq] at h
    obtain ⟨rule, -, ⟨inputSchema, outputSchema⟩, -, ⟨db₁, v₁⟩, h₁, ⟨db₂, v₂⟩, h₂, contract, -, db₃, h₃,
      db₄, h₄, rfl, -, -⟩ := h
    have hsame := (createRuleVersion_same h₁).trans (approveIfPending_same h₂)
    obtain ⟨approvals, -, -, rfl⟩ := insertApproval_eq_ok h₄
    obtain ⟨auditLogs, haudit⟩ := auditApproval_eq
    rw [haudit]
    exact ((ReflTransGen.single hsame.statement).tail (updateWorkflow_statement h₃)).tail
      (.kept .refl .refl .refl rfl)

def Founded (parent : WorkspaceID → String → String → Prop) : DslEvent → Prop
  | .createDSLWorkflow c w _ confirmed _ _ =>
    confirmed = true → parent c.workspace w.requirementID w.recordingID
  | .createAdminReviewedDSLWorkflow c w _ confirmed _ =>
    confirmed = true → parent c.workspace w.requirementID w.recordingID
  | _ => True

end Calls

end DslDb

theorem DslServer.serve_statements {d : Digests} {s : DslServer} {e : DslEvent} {db' : DslDb}
    {replies : List DslReply} {parent : WorkspaceID → String → String → Prop}
    (he : DslDb.Founded parent e) (h : s.serve d e = .ok (db', replies)) :
    DslDb.Statements parent s.db db' := by
  cases e with
  | createDSLWorkflow c w options confirmed newID jobID =>
    obtain ⟨⟨db₁, job⟩, hok, ⟨⟩⟩ := map_eq_ok.mp h
    exact DslDb.createDSLWorkflow_statements he hok
  | createAdminReviewedDSLWorkflow c w artifact confirmed newID =>
    obtain ⟨⟨db₁, id⟩, hok, ⟨⟩⟩ := map_eq_ok.mp h
    exact DslDb.createAdminReviewedDSLWorkflow_statements he hok
  | claimPendingDSLJob now lease tie =>
    obtain ⟨⟨db₁, job⟩, hok, ⟨⟩⟩ := map_eq_ok.mp h
    exact DslDb.claimPendingDSLJob_statements hok
  | markDSLSelectorRepairDispatched now k =>
    simp only [serve] at h
    split at h
    · cases h
    obtain ⟨db₁, hok, ⟨⟩⟩ := map_eq_ok.mp h
    obtain ⟨-, hok⟩ := ensure_bind_eq_ok.mp hok
    exact .single (DslDb.updateJob_statement hok)
  | scheduleDSLSelectorRepair earlier c k flags report checks childID =>
    simp only [serve] at h
    split at h
    · cases h
    obtain ⟨⟨db₁, child⟩, hok, ⟨⟩⟩ := map_eq_ok.mp h
    exact DslDb.scheduleDSLSelectorRepairWithAttemptReport_statements hok
  | completeDSLJob earlier c k flags artifact report =>
    simp only [serve] at h
    split at h
    · cases h
    obtain ⟨db₁, hok, ⟨⟩⟩ := map_eq_ok.mp h
    exact DslDb.completeDSLJob_statements hok
  | failDSLJob earlier c k flags code message retryDelay report =>
    simp only [serve] at h
    split at h
    · cases h
    obtain ⟨db₁, hok, ⟨⟩⟩ := map_eq_ok.mp h
    exact DslDb.failDSLJob_statements hok
  | correctDSLWorkflow c workflowID artifact =>
    obtain ⟨db₁, hok, ⟨⟩⟩ := map_eq_ok.mp h
    exact .single (DslDb.updateWorkflow_statement hok)
  | startDSLReplay c workflowID timeout attemptID =>
    obtain ⟨⟨db₁, a⟩, hok, ⟨⟩⟩ := map_eq_ok.mp h
    exact DslDb.startDSLReplay_statements hok
  | completeDSLReplay c attemptID attemptWorkspace o repairJobID repairMaxAttempts =>
    obtain ⟨⟨db₁, job, a⟩, hok, ⟨⟩⟩ := map_eq_ok.mp h
    simp only [DslDb.completeDSLReplay, bind_eq_ok, ensure_eq_ok, exists_const, pure_eq_ok,
      Prod.mk.injEq] at hok
    obtain ⟨-, ⟨db₁, job, attempt⟩, h₁, rfl, -, -⟩ := hok
    exact DslDb.completeDSLReplayInTx_statements h₁
  | approveDSLWorkflow c workflowID opts reads =>
    obtain ⟨⟨db₁, v, k⟩, hok, ⟨⟩⟩ := map_eq_ok.mp h
    exact DslDb.approveDSLWorkflow_statements hok
  | createRuleVersion c input recordingID inputSchema outputSchema recordingLive =>
    exact .single (versionCall_same rfl h).statement
  | approveRuleVersion c ruleID version | rejectRuleVersion c ruleID version | changeRules rules =>
    exact .single (versionCall_same rfl h).statement

end Aegis
