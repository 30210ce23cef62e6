import Aegis.Dsl.Moves

/-!
# Dsl.Consistency

The rows of a workflow fit together, in every reachable state.

`Situation` says it of one workflow: which of its jobs is live and which of its replays is running,
at most one of either, and what the workflow row says of it. A move changes the rows of one
workflow, so the others keep their situation (`Situation.frame`), and each move takes the situation
of its workflow to another. `Consistent` follows for every run, and from it that the reapers of a
claim meet no row they do not expect (`claim_ok`).
-/

namespace Aegis

open Table DSLWorkflow

open Option
open Table (Wrote)

def DSLWorkflowStatus.isWorking : DSLWorkflowStatus → Bool
  | .generating | .repairing => true
  | _ => false

theorem DSLJobKind.isWorking (k : DSLJobKind) : k.workflowStatus.isWorking := by
  cases k <;> rfl

theorem DSLWorkflow.isWorking_of_worksOn {w : DSLWorkflow} {jobID : String}
    (h : w.worksOn jobID) : w.currentJobID = some jobID ∧ w.status.isWorking = true := by
  simp only [worksOn, Bool.and_eq_true, Bool.or_eq_true, beq_iff_eq] at h
  obtain ⟨hcurrent, hstatus | hstatus⟩ := h
  all_goals exact ⟨hcurrent, by rw [hstatus]; rfl⟩

namespace DslDb

variable {db db' : DslDb} {w w' : DSLWorkflow} {live running : Option String}

/-! ## The situation of one workflow -/

/-- The rows of the workflow `w`: `live` is its job that has not ended, and `running` its replay that
has not. -/
structure Situation (db : DslDb) (w : DSLWorkflow) (live running : Option String) : Prop where
  jobs : ∀ j, db.jobs.find? j.id = some j → j.workflowID = w.id →
    j.workspaceID = w.workspaceID ∧ (j.status.isLive = true ↔ live = some j.id)
  replays : ∀ a, db.replays.find? a.id = some a → a.workflowID = w.id →
    a.workspaceID = w.workspaceID ∧ a.sequence ≤ w.lastReplaySequence ∧
      (a.status = .running ↔ running = some a.id)
  current : ∀ id, w.currentJobID = some id → ∃ j, db.jobs.find? id = some j ∧ j.workflowID = w.id
  job : ∀ id, live = some id → ∃ j, db.jobs.find? id = some j ∧ j.workflowID = w.id ∧
    w.currentJobID = some id ∧ w.status = j.kind.workflowStatus
  attempt : ∀ id, running = some id → ∃ a, db.replays.find? id = some a ∧ a.workflowID = w.id ∧
    w.status = .replaying ∧ a.sequence = w.lastReplaySequence ∧ w.provisionalHash = some a.ruleHash
  working : w.status.isWorking = true → live ≠ none
  replaying : w.status = .replaying → running ≠ none
  repairs : w.repairCount ≤ w.maxRepairs

namespace Situation

theorem live_eq_none (h : Situation db w live running) (hs : w.status.isWorking = false) : live = none := by
  cases hlive : live with
  | none => rfl
  | some id =>
    obtain ⟨j, -, -, -, hstatus⟩ := h.job id hlive
    rw [hstatus, j.kind.isWorking] at hs
    cases hs

theorem running_eq_none (h : Situation db w live running) (hs : w.status ≠ .replaying) :
    running = none := by
  cases hrunning : running with
  | none => rfl
  | some id =>
    obtain ⟨a, -, -, hstatus, -⟩ := h.attempt id hrunning
    exact absurd hstatus hs

theorem live_eq_current (h : Situation db w live running) (hs : w.status.isWorking)
    {id : String} (hid : w.currentJobID = some id) : live = some id := by
  cases hlive : live with
  | none => exact absurd hlive (h.working hs)
  | some id' =>
    obtain ⟨j, -, -, hcurrent, -⟩ := h.job id' hlive
    rw [← hcurrent, hid]

theorem frame (h : Situation db w live running) (hjobs : ∀ j : DSLJob, j.workflowID = w.id →
      (db'.jobs.find? j.id = some j ↔ db.jobs.find? j.id = some j))
    (hreplays : ∀ a : ReplayAttempt, a.workflowID = w.id →
      (db'.replays.find? a.id = some a ↔ db.replays.find? a.id = some a)) :
    Situation db' w live running where
  jobs j hj hk := h.jobs j ((hjobs j hk).mp hj) hk
  replays a ha hk := h.replays a ((hreplays a hk).mp ha) hk
  current id hid := by
    obtain ⟨j, hj, hk⟩ := h.current id hid
    obtain rfl := key_of_find? hj
    exact ⟨j, (hjobs j hk).mpr hj, hk⟩
  job id hid := by
    obtain ⟨j, hj, hk, hrest⟩ := h.job id hid
    obtain rfl := key_of_find? hj
    exact ⟨j, (hjobs j hk).mpr hj, hk, hrest⟩
  attempt id hid := by
    obtain ⟨a, ha, hk, hrest⟩ := h.attempt id hid
    obtain rfl := key_of_find? ha
    exact ⟨a, (hreplays a hk).mpr ha, hk, hrest⟩
  working := h.working
  replaying := h.replaying
  repairs := h.repairs

/-- The columns of the workflow row that a situation is told from stay but for the status, the
current job and the repairs. -/
structure SameReplays (w w' : DSLWorkflow) : Prop where
  id : w'.id = w.id
  workspace : w'.workspaceID = w.workspaceID
  sequence : w'.lastReplaySequence = w.lastReplaySequence

/-- The workflow has come to rest, and is otherwise as it was. -/
structure Rests (w w' : DSLWorkflow) : Prop where
  identity : w'.identity = w.identity
  sequence : w'.lastReplaySequence = w.lastReplaySequence
  current : ∀ id, w'.currentJobID = some id → w.currentJobID = some id
  working : w'.status.isWorking = false
  replaying : w'.status ≠ .replaying
  repairs : w'.repairCount = w.repairCount

theorem Rests.same (h : Rests w w') : SameReplays w w' := by
  have hid := h.identity
  simp only [DSLWorkflow.identity, Prod.mk.injEq] at hid
  exact ⟨hid.1, hid.2.1, h.sequence⟩

theorem Rests.repairs_le (h : Rests w w') (hle : w.repairCount ≤ w.maxRepairs) :
    w'.repairCount ≤ w'.maxRepairs := by
  have hid := h.identity
  simp only [DSLWorkflow.identity, Prod.mk.injEq] at hid
  rw [h.repairs, hid.2.2.2.2.2.1]
  exact hle

section Steps

variable {j j' : DSLJob} {a a' : ReplayAttempt} {jobs : Table DSLJob.id}
  {replays : Table ReplayAttempt.id}

theorem rest (h : Situation db w none none) (hw : Rests w w') : Situation db w' none none where
  jobs i hi hk := by
    rw [hw.same.workspace]
    exact h.jobs i hi (hk.trans hw.same.id)
  replays b hb hk := by
    rw [hw.same.workspace, hw.sequence]
    exact h.replays b hb (hk.trans hw.same.id)
  current id hid := by
    rw [hw.same.id]
    exact h.current id (hw.current id hid)
  job id hid := by cases hid
  attempt id hid := by cases hid
  working hs := by rw [hw.working] at hs; cases hs
  replaying hs := absurd hs hw.replaying
  repairs := hw.repairs_le h.repairs

theorem stay (h : Situation db w live running) (hj : db.jobs.find? j.id = some j)
    (hk : j.workflowID = w.id) (hwrote : Wrote db.jobs jobs j') (hid : j'.identity = j.identity)
    (hlive : j'.status.isLive = j.status.isLive) :
    Situation { db with jobs } w live running where
  jobs i hi hik := by
    simp only [DSLJob.identity, Prod.mk.injEq] at hid
    obtain ⟨-, rfl⟩ | ⟨-, hold⟩ := hwrote.cases hi
    · rw [hid.1, hid.2.1, hlive]
      exact h.jobs j hj hk
    · exact h.jobs i hold hik
  replays := h.replays
  current id hcurrent := by
    simp only [DSLJob.identity, Prod.mk.injEq] at hid
    obtain ⟨i, hi, hik⟩ := h.current id hcurrent
    by_cases hij : j'.id = id
    · subst hij
      exact ⟨j', hwrote.self, hid.2.2.1.trans hk⟩
    · exact ⟨i, (hwrote.of_ne hij).trans hi, hik⟩
  job id hl := by
    simp only [DSLJob.identity, Prod.mk.injEq] at hid
    obtain ⟨i, hi, hik, hcurrent, hstatus⟩ := h.job id hl
    by_cases hij : j'.id = id
    · subst hij
      rw [hid.1, hj] at hi
      cases hi
      exact ⟨j', hwrote.self, hid.2.2.1.trans hk, hcurrent, hid.2.2.2.1 ▸ hstatus⟩
    · exact ⟨i, (hwrote.of_ne hij).trans hi, hik, hcurrent, hstatus⟩
  attempt := h.attempt
  working := h.working
  replaying := h.replaying
  repairs := h.repairs

theorem finish (h : Situation db w (some j.id) none) (hj : db.jobs.find? j.id = some j)
    (hk : j.workflowID = w.id) (hwrote : Wrote db.jobs jobs j') (hid : j'.identity = j.identity)
    (hended : j'.status.isLive = false) (hw : Rests w w') :
    Situation { db with jobs } w' none none where
  jobs i hi hik := by
    simp only [DSLJob.identity, Prod.mk.injEq] at hid
    rw [hw.same.workspace]
    obtain ⟨-, rfl⟩ | ⟨hne, hold⟩ := hwrote.cases hi
    · rw [hid.2.1, hended]
      exact ⟨(h.jobs j hj hk).1, by simp⟩
    · obtain ⟨hws, hlive⟩ := h.jobs i hold (hik.trans hw.same.id)
      refine ⟨hws, fun hl => ?_, nofun⟩
      rw [hid.1] at hne
      exact absurd (some.inj (hlive.mp hl)) hne
  replays b hb hbk := by
    rw [hw.same.workspace, hw.sequence]
    exact h.replays b hb (hbk.trans hw.same.id)
  current id hc := by
    simp only [DSLJob.identity, Prod.mk.injEq] at hid
    obtain ⟨i, hi, hik⟩ := h.current id (hw.current id hc)
    rw [hw.same.id]
    by_cases hij : j'.id = id
    · subst hij
      exact ⟨j', hwrote.self, hid.2.2.1.trans hk⟩
    · exact ⟨i, (hwrote.of_ne hij).trans hi, hik⟩
  job id hl := by cases hl
  attempt id hr := by cases hr
  working hs := by rw [hw.working] at hs; cases hs
  replaying hs := absurd hs hw.replaying
  repairs := hw.repairs_le h.repairs

theorem install (h : Situation db w none none) (hfresh : db.jobs.find? j.id = none)
    (hk : j.workflowID = w.id) (hws : j.workspaceID = w.workspaceID)
    (hlive : j.status.isLive) (hwrote : Wrote db.jobs jobs j) (hw : SameReplays w w')
    (hcurrent : w'.currentJobID = some j.id) (hstatus : w'.status = j.kind.workflowStatus)
    (hrepairs : w'.repairCount ≤ w'.maxRepairs) :
    Situation { db with jobs } w' (some j.id) none where
  jobs i hi hik := by
    rw [hw.workspace]
    obtain ⟨-, rfl⟩ | ⟨hne, hold⟩ := hwrote.cases hi
    · exact ⟨hws, by simp [hlive]⟩
    · obtain ⟨hiws, hilive⟩ := h.jobs i hold (hik.trans hw.id)
      refine ⟨hiws, fun hl => ?_, fun hl => absurd (some.inj hl) hne⟩
      cases hilive.mp hl
  replays b hb hbk := by
    rw [hw.workspace, hw.sequence]
    exact h.replays b hb (hbk.trans hw.id)
  current id hc := by
    obtain rfl := mem_unique hcurrent hc
    exact ⟨j, hwrote.self, hk.trans hw.id.symm⟩
  job id hl := by
    cases hl
    exact ⟨j, hwrote.self, hk.trans hw.id.symm, hcurrent, hstatus⟩
  attempt id hr := by cases hr
  working _ := by simp
  replaying hs := by
    have hne := j.kind.isWorking
    rw [← hstatus, hs] at hne
    cases hne
  repairs := hrepairs

theorem start (h : Situation db w none none) (hfresh : db.replays.find? a.id = none)
    (hk : a.workflowID = w.id) (hws : a.workspaceID = w.workspaceID)
    (hsequence : w.lastReplaySequence ≤ a.sequence) (hrunning : a.status = .running)
    (hwrote : Wrote db.replays replays a) (hid : w'.id = w.id)
    (hwsid : w'.workspaceID = w.workspaceID) (hcurrent : w'.currentJobID = w.currentJobID)
    (hlast : w'.lastReplaySequence = a.sequence) (hstatus : w'.status = .replaying)
    (hhash : w'.provisionalHash = some a.ruleHash) (hrepairs : w'.repairCount ≤ w'.maxRepairs) :
    Situation { db with replays } w' none (some a.id) where
  jobs i hi hik := by
    rw [hwsid]
    exact h.jobs i hi (hik.trans hid)
  replays b hb hbk := by
    rw [hwsid, hlast]
    obtain ⟨-, rfl⟩ | ⟨hne, hold⟩ := hwrote.cases hb
    · exact ⟨hws, le_refl _, by simp [hrunning]⟩
    · obtain ⟨hbws, hle, hbrunning⟩ := h.replays b hold (hbk.trans hid)
      refine ⟨hbws, hle.trans hsequence, fun hr => ?_, fun hr => absurd (some.inj hr) hne⟩
      cases hbrunning.mp hr
  current id hc := by
    rw [hid]
    exact h.current id (hcurrent ▸ hc)
  job id hl := by cases hl
  attempt id hr := by
    cases hr
    exact ⟨a, hwrote.self, hk.trans hid.symm, hstatus, hlast.symm, hhash⟩
  working hs := by rw [hstatus] at hs; cases hs
  replaying _ := by simp
  repairs := hrepairs

theorem stop (h : Situation db w none (some a.id)) (ha : db.replays.find? a.id = some a)
    (hk : a.workflowID = w.id) (hwrote : Wrote db.replays replays a')
    (hid : a'.identity = a.identity) (hended : a'.status ≠ .running) (hw : Rests w w') :
    Situation { db with replays } w' none none where
  jobs i hi hik := by
    rw [hw.same.workspace]
    exact h.jobs i hi (hik.trans hw.same.id)
  replays b hb hbk := by
    simp only [ReplayAttempt.identity, Prod.mk.injEq] at hid
    rw [hw.same.workspace, hw.sequence]
    obtain ⟨-, rfl⟩ | ⟨hne, hold⟩ := hwrote.cases hb
    · obtain ⟨haws, hle, -⟩ := h.replays a ha hk
      exact ⟨hid.2.1.trans haws, hid.2.2.2.1 ▸ hle, by simp [hended]⟩
    · obtain ⟨hbws, hle, hbrunning⟩ := h.replays b hold (hbk.trans hw.same.id)
      refine ⟨hbws, hle, fun hr => ?_, nofun⟩
      rw [hid.1] at hne
      exact absurd (some.inj (hbrunning.mp hr)) hne
  current id hc := by
    rw [hw.same.id]
    exact h.current id (hw.current id hc)
  job id hl := by cases hl
  attempt id hr := by cases hr
  working hs := by rw [hw.working] at hs; cases hs
  replaying hs := absurd hs hw.replaying
  repairs := hw.repairs_le h.repairs

end Steps

end Situation

/-! ## All workflows -/

def JobSound (j : DSLJob) : Prop :=
  j.attemptCount ≤ j.maxAttempts ∧ (j.providerDispatched = true → j.kind = .selectorRepair)

theorem JobSound.of_same {j j' : DSLJob} (h : JobSound j) (hid : j'.identity = j.identity)
    (hattempt : j'.attemptCount = j.attemptCount)
    (hdispatched : j'.providerDispatched = j.providerDispatched) : JobSound j' := by
  simp only [DSLJob.identity, Prod.mk.injEq] at hid
  obtain ⟨-, -, -, hkind, hmax, -⟩ := hid
  exact ⟨by rw [hattempt, hmax]; exact h.1, by rw [hdispatched, hkind]; exact h.2⟩

/-- No other workflow stands under the key of `w` in `idx_dsl_workflows_admin_reviewed_source`. -/
def Unshared (db : DslDb) (w : DSLWorkflow) : Prop :=
  ∀ v, db.workflows.find? v.id = some v → v.isReviewedSource = true → w.isReviewedSource = true →
    v.sourceKey = w.sourceKey → v.id = w.id

theorem unshared_of_unique (h : db.reviewedSource? w = none) : Unshared db w := by
  intro v hv hvr hwr hkey
  unfold reviewedSource? at h
  rw [if_pos hwr, List.find?_eq_none] at h
  have hnot := h v (mem_of_find? hv)
  by_contra hne
  simp [hne, hvr, hkey] at hnot

theorem Unshared.update (h : Unshared db w) (hid : w'.identity = w.identity)
    (hstatus : w.status ≠ .failed) : Unshared db w' := by
  intro v hv hvr hwr hkey
  simp only [identity, Prod.mk.injEq] at hid
  obtain ⟨hid, hws, hreq, -, hprofile, -, -, hkind, -, -, hexport, -⟩ := hid
  simp only [isReviewedSource, hkind, hexport, Bool.and_eq_true] at hwr
  rw [hid]
  refine h v hv hvr ?_ ?_
  · simp only [isReviewedSource, Bool.and_eq_true, bne_iff_ne]
    exact ⟨hwr.1, hstatus⟩
  · rw [hkey, sourceKey, sourceKey, hws, hreq, hprofile, hexport]

/-- The invariant: every workflow is in a situation of its rows, and every row has its parent. -/
structure Consistent (db : DslDb) : Prop where
  situation : ∀ w, db.workflows.find? w.id = some w → ∃ live running, Situation db w live running
  jobParent : ∀ j, db.jobs.find? j.id = some j → ∃ w, db.workflows.find? j.workflowID = some w
  replayParent : ∀ a, db.replays.find? a.id = some a → ∃ w, db.workflows.find? a.workflowID = some w
  sound : ∀ j, db.jobs.find? j.id = some j → JobSound j
  sources : ∀ w, db.workflows.find? w.id = some w → Unshared db w

namespace Consistent

theorem change (h : Consistent db) (hw : Wrote db.workflows db'.workflows w')
    (hjobs : ∀ j : DSLJob, j.workflowID ≠ w'.id →
      (db'.jobs.find? j.id = some j ↔ db.jobs.find? j.id = some j))
    (hreplays : ∀ a : ReplayAttempt, a.workflowID ≠ w'.id →
      (db'.replays.find? a.id = some a ↔ db.replays.find? a.id = some a))
    (hsound : ∀ j, db'.jobs.find? j.id = some j → JobSound j)
    (hsource : Unshared db w') {live' running' : Option String}
    (hs : Situation { db with jobs := db'.jobs, replays := db'.replays } w' live' running') :
    Consistent db' where
  situation w hfind := by
    obtain ⟨-, rfl⟩ | ⟨hne, hold⟩ := hw.cases hfind
    · exact ⟨live', running', hs.frame (fun _ _ => Iff.rfl) (fun _ _ => Iff.rfl)⟩
    · obtain ⟨live, running, hs⟩ := h.situation w hold
      refine ⟨live, running, hs.frame (fun j hj => ?_) (fun a ha => ?_)⟩
      · exact hjobs j (by rw [hj]; exact Ne.symm hne)
      · exact hreplays a (by rw [ha]; exact Ne.symm hne)
  jobParent j hj := by
    by_cases hk : j.workflowID = w'.id
    · exact ⟨w', by rw [hk]; exact hw.self⟩
    · obtain ⟨w, hfind⟩ := h.jobParent j ((hjobs j hk).mp hj)
      exact ⟨w, by rw [hw.of_ne (Ne.symm hk)]; exact hfind⟩
  replayParent a ha := by
    by_cases hk : a.workflowID = w'.id
    · exact ⟨w', by rw [hk]; exact hw.self⟩
    · obtain ⟨w, hfind⟩ := h.replayParent a ((hreplays a hk).mp ha)
      exact ⟨w, by rw [hw.of_ne (Ne.symm hk)]; exact hfind⟩
  sound := hsound
  sources w hfind v hv hvr hwr hkey := by
    obtain ⟨-, rfl⟩ | ⟨hne, hold⟩ := hw.cases hfind
    · obtain ⟨hvid, -⟩ | ⟨-, hvold⟩ := hw.cases hv
      · exact hvid
      · exact hsource v hvold hvr hwr hkey
    · obtain ⟨-, rfl⟩ | ⟨-, hvold⟩ := hw.cases hv
      · exact (hsource w hold hwr hvr hkey.symm).symm
      · exact h.sources w hold v hvold hvr hwr hkey

theorem same (h : Consistent db) (hw : db'.workflows = db.workflows) (hj : db'.jobs = db.jobs)
    (hr : db'.replays = db.replays) : Consistent db' where
  situation w hfind := by
    obtain ⟨live, running, hs⟩ := h.situation w (hw ▸ hfind)
    exact ⟨live, running, hs.frame (fun _ _ => by rw [hj]) (fun _ _ => by rw [hr])⟩
  jobParent j hfind := by
    rw [hw]
    exact h.jobParent j (hj ▸ hfind)
  replayParent a hfind := by
    rw [hw]
    exact h.replayParent a (hr ▸ hfind)
  sound j hfind := h.sound j (hj ▸ hfind)
  sources w hfind v hv := h.sources w (hw ▸ hfind) v (hw ▸ hv)

theorem fresh (h : Consistent db) (hw : db.workflows.find? w.id = none)
    (hcurrent : w.currentJobID = none) (hworking : w.status.isWorking = false)
    (hreplaying : w.status ≠ .replaying) (hrepairs : w.repairCount ≤ w.maxRepairs) :
    Situation db w none none where
  jobs j hj hk := by
    obtain ⟨v, hv⟩ := h.jobParent j hj
    rw [hk, hw] at hv
    cases hv
  replays a ha hk := by
    obtain ⟨v, hv⟩ := h.replayParent a ha
    rw [hk, hw] at hv
    cases hv
  current id hid := by rw [hcurrent] at hid; cases hid
  job id hl := by cases hl
  attempt id hr := by cases hr
  working hs := by rw [hworking] at hs; cases hs
  replaying hs := absurd hs hreplaying
  repairs := hrepairs

theorem empty : Consistent DslDb.empty where
  situation w hw := by cases hw
  jobParent j hj := by cases hj
  replayParent a ha := by cases ha
  sound j hj := by cases hj
  sources w hw := by cases hw

section Moves

variable {d : Digests} {s s' : DslServer} {j j' : DSLJob} {a a' : ReplayAttempt}
  {workflows : Table DSLWorkflow.id} {jobs : Table DSLJob.id} {replays : Table ReplayAttempt.id}

theorem jobs_of_other (hwrote : Wrote db.jobs jobs j') (hk : j'.workflowID = w.id)
    (hold : ∀ o, db.jobs.find? j'.id = some o → o.workflowID = w.id) (i : DSLJob)
    (hi : i.workflowID ≠ w.id) : jobs.find? i.id = some i ↔ db.jobs.find? i.id = some i :=
  hwrote.iff_of_not (P := fun i => i.workflowID ≠ w.id) (not_not.mpr hk)
    (fun o ho => not_not.mpr (hold o ho)) hi

theorem replays_of_other (hwrote : Wrote db.replays replays a') (hk : a'.workflowID = w.id)
    (hold : ∀ o, db.replays.find? a'.id = some o → o.workflowID = w.id) (b : ReplayAttempt)
    (hb : b.workflowID ≠ w.id) : replays.find? b.id = some b ↔ db.replays.find? b.id = some b :=
  hwrote.iff_of_not (P := fun b => b.workflowID ≠ w.id) (not_not.mpr hk)
    (fun o ho => not_not.mpr (hold o ho)) hb

theorem sound_of_wrote (h : Consistent db) (hwrote : Wrote db.jobs jobs j') (hj : JobSound j')
    (i : DSLJob) (hi : jobs.find? i.id = some i) : JobSound i := by
  obtain ⟨-, rfl⟩ | ⟨-, hold⟩ := hwrote.cases hi
  · exact hj
  · exact h.sound i hold

theorem stay (h : Consistent db) (hj : db.jobs.find? j.id = some j)
    (hwrote : Wrote db.jobs jobs j') (hid : j'.identity = j.identity)
    (hlive : j'.status.isLive = j.status.isLive) (hsound : JobSound j') :
    Consistent { db with jobs } := by
  obtain ⟨w, hw⟩ := h.jobParent j hj
  have hk : w.id = j.workflowID := key_of_find? hw
  rw [← hk] at hw
  obtain ⟨live, running, hs⟩ := h.situation w hw
  have hids := hid
  simp only [DSLJob.identity, Prod.mk.injEq] at hids
  refine h.change (Wrote.refl hw) ?_ (fun _ _ => Iff.rfl)
    (h.sound_of_wrote hwrote hsound) (h.sources w hw)
    (hs.stay hj hk.symm hwrote hid hlive)
  refine jobs_of_other hwrote (hids.2.2.1.trans hk.symm) fun o ho => ?_
  rw [hids.1, hj] at ho
  cases ho
  exact hk.symm

theorem rest (h : Consistent db) (hworkflows : Wrote db.workflows workflows w')
    (hrests : Situation db w none none) (hrest : Situation.Rests w w') (hsource : Unshared db w') :
    Consistent { db with workflows } :=
  h.change hworkflows (fun _ _ => Iff.rfl) (fun _ _ => Iff.rfl) h.sound hsource (hrests.rest hrest)

theorem finish (h : Consistent db) (hworkflows : Wrote db.workflows workflows w')
    (hj : db.jobs.find? j.id = some j) (hw : db.workflows.find? w.id = some w)
    (hjob : w.currentJobID = some j.id)
    (hworks : w.status.isWorking) (hwrote : Wrote db.jobs jobs j')
    (hid : j'.identity = j.identity) (hended : j'.status.isLive = false)
    (hrest : Situation.Rests w w') (hsound : JobSound j') :
    Consistent { db with workflows, jobs } := by
  obtain ⟨live, running, hs⟩ := h.situation w hw
  obtain rfl := hs.live_eq_current hworks hjob
  obtain rfl := hs.running_eq_none fun heq => by rw [heq] at hworks; cases hworks
  obtain ⟨i, hi, hk⟩ := hs.current j.id hjob
  obtain rfl := mem_unique hj hi
  have hsource := (h.sources w hw).update hrest.identity fun heq => by
    rw [heq] at hworks
    cases hworks
  have hids := hid
  simp only [DSLJob.identity, Prod.mk.injEq] at hids
  have hk' := hk.trans hrest.same.id.symm
  refine h.change hworkflows ?_ (fun _ _ => Iff.rfl) (h.sound_of_wrote hwrote hsound)
    hsource (hs.finish hj hk hwrote hid hended hrest)
  refine jobs_of_other hwrote (hids.2.2.1.trans hk') fun o ho => ?_
  rw [hids.1, hj] at ho
  cases ho
  exact hk'

theorem install (h : Consistent db) (hworkflows : Wrote db.workflows workflows w')
    (hwrote : Wrote db.jobs jobs j) (hrests : Situation db w none none)
    (hfresh : db.jobs.find? j.id = none) (hk : j.workflowID = w.id)
    (hws : j.workspaceID = w.workspaceID) (hlive : j.status.isLive) (hsound : JobSound j)
    (hw : Situation.SameReplays w w')
    (hcurrent : w'.currentJobID = some j.id) (hstatus : w'.status = j.kind.workflowStatus)
    (hrepairs : w'.repairCount ≤ w'.maxRepairs) (hsource : Unshared db w') :
    Consistent { db with workflows, jobs } := by
  refine h.change hworkflows ?_ (fun _ _ => Iff.rfl) (h.sound_of_wrote hwrote hsound)
    hsource (hrests.install hfresh hk hws hlive hwrote hw hcurrent hstatus hrepairs)
  refine jobs_of_other hwrote (hk.trans hw.id.symm) fun o ho => ?_
  rw [hfresh] at ho
  cases ho

theorem start (h : Consistent db) (hrests : Situation db w none none)
    (hw : db.workflows.find? w.id = some w) (hnot : w.status ≠ .failed)
    (hfresh : db.replays.find? a.id = none) (hk : a.workflowID = w.id)
    (hws : a.workspaceID = w.workspaceID) (hsequence : a.sequence = w.lastReplaySequence + 1)
    (hrunning : a.status = .running) (hwrote : Wrote db.replays replays a)
    (hhash : w.provisionalHash = some a.ruleHash) {now : Time}
    (hworkflows : Wrote db.workflows workflows ((beginReplay now a.sequence).set w)) :
    Consistent { db with workflows, replays } := by
  refine h.change hworkflows (fun _ _ => Iff.rfl) ?_
    h.sound ((h.sources w hw).update rfl hnot)
    (hrests.start hfresh hk hws (by omega) hrunning hwrote rfl rfl rfl rfl rfl hhash hrests.repairs)
  refine replays_of_other hwrote hk fun o ho => ?_
  rw [hfresh] at ho
  cases ho

theorem stop (h : Consistent db) (hworkflows : Wrote db.workflows workflows w')
    (ha : db.replays.find? a.id = some a) (hrunning : a.status = .running)
    (hw : db.workflows.find? w.id = some w) (hk : a.workflowID = w.id)
    (hwrote : Wrote db.replays replays a') (hid : a'.identity = a.identity)
    (hended : a'.status ≠ .running) (hrest : Situation.Rests w w') :
    Consistent { db with workflows, replays } := by
  obtain ⟨live, running, hs⟩ := h.situation w hw
  obtain rfl := (hs.replays a ha hk).2.2.mp hrunning
  obtain ⟨-, -, -, hstatus, -⟩ := hs.attempt a.id rfl
  obtain rfl := hs.live_eq_none (by rw [hstatus]; rfl)
  have hsource := (h.sources w hw).update hrest.identity (by rw [hstatus]; simp)
  have hids := hid
  simp only [ReplayAttempt.identity, Prod.mk.injEq] at hids
  have hk' := hk.trans hrest.same.id.symm
  refine h.change hworkflows (fun _ _ => Iff.rfl) ?_ h.sound hsource
    (hs.stop ha hk hwrote hid hended hrest)
  refine replays_of_other hwrote (hids.2.2.1.trans hk') fun o ho => ?_
  rw [hids.1, ha] at ho
  cases ho
  exact hk'

theorem rests (h : Consistent db) (hw : db.workflows.find? w.id = some w)
    (hworking : w.status.isWorking = false) (hreplaying : w.status ≠ .replaying) :
    Situation db w none none := by
  obtain ⟨live, running, hs⟩ := h.situation w hw
  obtain rfl := hs.live_eq_none hworking
  obtain rfl := hs.running_eq_none hreplaying
  exact hs

theorem claimable_live {now : Time} (h : claimable now j) (hreuse : reusesAttempt j = false) :
    j.status.isLive ∧ j.attemptCount < j.maxAttempts := by
  simp only [claimable, reusesAttempt, Bool.or_eq_true, Bool.and_eq_true, beq_iff_eq,
    decide_eq_true_eq, Bool.not_eq_true', bne_iff_ne, Bool.and_eq_false_iff, beq_eq_false_iff_ne]
    at h hreuse
  rcases h with ⟨⟨hpending, -⟩, hleft⟩ | ⟨⟨hrunning, -⟩, ⟨hkind, hfirst⟩ | ⟨-, hleft⟩⟩
  · exact ⟨by rw [hpending]; rfl, hleft⟩
  · rcases hreuse with (hr | hr) | hr
    · exact absurd hrunning hr
    · exact absurd hkind hr
    · rw [hfirst] at hr
      cases hr
  · exact ⟨by rw [hrunning]; rfl, hleft⟩

theorem approvableRule_status {artifactHash : ProvisionalDSLArtifact → String} {c : DSLCtx}
    {opts : ApproveDSLWorkflowOptions} {rule : RuleDocument}
    (h : db.approvableRule artifactHash c w opts = .ok rule) : w.status = .awaitingConfirmation := by
  simp only [approvableRule, ensure_bind_eq_ok, beq_iff_eq] at h
  exact h.1

/-- `SET status` of a workflow between two of its jobs. -/
def park : SetClause DSLWorkflow.id where
  set w := { w with status := .awaitingReplay }
  keeps _ := rfl

theorem move (h : Consistent s.db) (hm : DslMove d s s') : Consistent s'.db := by
  cases hm with
  | created hw hj hprofile hworkflows hjobs =>
    rename_i c w options id jobID workflows jobs
    have hrests : Situation s.db { generatingWorkflow c w options id jobID with
        status := .failed, currentJobID := none } none none :=
      h.fresh hw rfl rfl (by simp) (Nat.zero_le _)
    refine h.install hworkflows hjobs hrests hj rfl rfl rfl ⟨Nat.zero_le _, by simp [newJob]⟩
      ⟨rfl, rfl, rfl⟩ rfl rfl (Nat.zero_le _) fun v hv hvr hwr => ?_
    simp [isReviewedSource, generatingWorkflow,
      dslWorkflowSourceAdminReviewedAttemptExport] at hwr
  | adopted hw hprofile hunique hworkflows =>
    exact h.change hworkflows (fun _ _ => Iff.rfl) (fun _ _ => Iff.rfl) h.sound
      (unshared_of_unique hunique)
      (h.fresh hw rfl rfl (by simp [reviewedWorkflow]) (Nat.zero_le _))
  | leased hj hclaim hreuse hid hattempt hjobs =>
    rename_i now leaseUntil copy j jobs
    have hsound := h.sound j hj
    obtain ⟨hlive, hleft⟩ := claimable_live hclaim hreuse
    exact h.stay hj hjobs rfl hlive.symm ⟨hleft, hsound.2⟩
  | renewed hj hreuse hid hattempt hjobs =>
    exact h.stay hj hjobs rfl rfl ((h.sound _ hj).of_same rfl rfl rfl)
  | marked hheld hj hdescribes hkind hfirst hjobs =>
    have hfind := find?_self hj
    exact h.stay hfind hjobs rfl rfl ⟨(h.sound _ hfind).1, fun _ => hkind⟩
  | retried hheld hj hdescribes hretries hjobs =>
    have hfind := find?_self hj
    obtain ⟨-, -, hrunning, -⟩ := DSLJob.describes_iff.mp hdescribes
    exact h.stay hfind hjobs rfl (by rw [hrunning]; rfl) ((h.sound _ hfind).of_same rfl rfl rfl)
  | jobFailed hj hrunning hjobs hid hfailed hattempt hdispatched hw hws hworks hworkflows =>
    obtain ⟨hcurrent, hworking⟩ := isWorking_of_worksOn hworks
    exact h.finish hworkflows hj hw hcurrent hworking hjobs hid (by rw [hfailed]; rfl)
      ⟨rfl, rfl, fun _ hc => hc, rfl, by simp [failWorkflow], rfl⟩
      ((h.sound _ hj).of_same hid hattempt hdispatched)
  | completed hheld hj hdescribes hw hws hcurrent hstatus hjobs hworkflows =>
    have hfind := find?_self hj
    rw [← key_of_find? hj] at hcurrent
    exact h.finish hworkflows hfind (find?_self hw) hcurrent
      (by rw [hstatus]; exact DSLJobKind.isWorking _) hjobs rfl rfl
      ⟨rfl, rfl, fun _ hc => hc, rfl, by simp [publish], rfl⟩
      ((h.sound _ hfind).of_same rfl rfl rfl)
  | reported hfresh hreports => exact h.same rfl rfl rfl
  | handedOver hheld hkind hj hdescribes hw hws hworks hfresh hreport hunique hended hjobs
      hworkflows =>
    rename_i now code message reportID childID job j w ended jobs workflows
    have hfind := find?_self hj
    have hw' := find?_self hw
    obtain ⟨hcurrent, hworking⟩ := isWorking_of_worksOn hworks
    have hpark := wrote_updateRow park hw'
    rw [← key_of_find? hj] at hcurrent
    have h₁ := h.finish hpark hfind hw' hcurrent hworking hended rfl rfl
      ⟨rfl, rfl, fun _ hc => hc, rfl, by simp [park], rfl⟩ ((h.sound _ hfind).of_same rfl rfl rfl)
    have hrests := h₁.rests hpark.self rfl (by simp [park])
    have hchild : ended.find? childID = none := by
      rw [hended.of_ne, hfresh]
      intro heq
      rw [← show j.id = childID from heq, hfind] at hfresh
      cases hfresh
    exact h₁.install (hworkflows.again hpark rfl) hjobs hrests hchild (key_of_find? hw).symm
      hws.symm rfl ⟨Nat.zero_le _, fun _ => rfl⟩ ⟨rfl, rfl, rfl⟩ rfl rfl
      hrests.repairs ((h₁.sources _ hpark.self).update rfl (by simp [park]))
  | corrected hw hstatus hunique hworkflows =>
    refine h.rest hworkflows (h.rests hw ?_ ?_)
      ⟨rfl, rfl, by simp [replaceRule], rfl, by simp [replaceRule], rfl⟩
      (unshared_of_unique hunique)
    · rcases hstatus with hs | hs <;> rw [hs] <;> rfl
    · rcases hstatus with hs | hs <;> rw [hs] <;> simp
  | replayStarted hw hstatus hfresh hk hws hsequence hrunning hhash hworkflows hreplays =>
    refine h.start (h.rests hw ?_ ?_) hw ?_ hfresh hk hws hsequence hrunning hreplays hhash
      hworkflows
    · rcases hstatus with hs | hs <;> rw [hs] <;> rfl
    all_goals rcases hstatus with hs | hs <;> rw [hs] <;> simp
  | replayEnded ha hrunning hw hws hstatus hto hlog hreplays hworkflows =>
    rename_i now a w l workflows replays o status
    have hended : (if o.proven then ReplayAttemptStatus.succeeded else .failed) ≠ .running := by
      split <;> simp
    have hrest : status.isWorking = false ∧ status ≠ .replaying := by
      split at hto
      · simp [hto, DSLWorkflowStatus.isWorking]
      · rcases hto with hs | hs <;> simp [hs, DSLWorkflowStatus.isWorking]
    exact h.stop hworkflows ha hrunning (find?_self hw) (key_of_find? hw).symm hreplays
      rfl hended ⟨rfl, rfl, by simp [endReplay], hrest.1, hrest.2, rfl⟩
  | replayRepaired ha hrunning hw hws hstatus hproven hleft hfresh hjobs hreplays hworkflows =>
    rename_i now maxAttempts jobID a w workflows jobs replays o
    have hw' := find?_self hw
    have hk := key_of_find? hw
    have hpark := wrote_updateRow park hw'
    have h₁ := h.stop hpark ha hrunning hw' hk.symm hreplays rfl
      (by simp [ReplayOutcome.endAttempt, hproven])
      ⟨rfl, rfl, fun _ hc => hc, rfl, by simp [park], rfl⟩
    have hrests := h₁.rests hpark.self rfl (by simp [park])
    exact h₁.install (hworkflows.again hpark rfl) hjobs hrests hfresh hk.symm hws.symm rfl
      ⟨Nat.zero_le _, by simp [newJob]⟩ ⟨rfl, rfl, rfl⟩ rfl rfl hleft
      ((h₁.sources _ hpark.self).update rfl (by simp [park]))
  | approved hcall hw hws hstatus =>
    rename_i c id opts reads db' v k w
    obtain ⟨rule, inputSchema, outputSchema, v₁, db₁, db₂, workflows, approvals, auditLogs, hrule,
      h₁, h₂, -, hworkflows, -, -, rfl⟩ := approveDSLWorkflow_eq_ok hcall hw hstatus
    have hsame := (createRuleVersion_same h₁).trans (approveIfPending_same h₂)
    have hawaiting := approvableRule_status hrule
    have hw' := find?_self hw
    exact (h.rest hworkflows (h.rests hw' (by rw [hawaiting]; rfl) (by rw [hawaiting]; simp))
      ⟨rfl, rfl, fun _ hc => hc, rfl, by simp [approveWorkflow], rfl⟩ ((h.sources _ hw').update rfl
        (by rw [hawaiting]; simp))).same rfl hsame.jobs hsame.replays
  | reapproved hw hws hstatus hcall => exact h
  | sealed he hcall =>
    have hsame := DslServer.versionCall_same he hcall
    exact h.same hsame.workflows hsame.jobs hsame.replays

theorem moves (h : Consistent s.db) (hm : DslMoves d s s') : Consistent s'.db := by
  induction hm with
  | refl => exact h
  | tail _ hm ih => exact ih.move hm

theorem step (h : Consistent s.db) (d : Digests) (e : DslEvent) : Consistent (s.step d e).db :=
  h.moves (DslServer.step_moves e)

end Moves

end Consistent

end DslDb

end Aegis
