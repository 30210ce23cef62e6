import Aegis.Dsl.Consistency

/-!
# Dsl.Reapers

A claim never fails.

The reapers of a claim run over the rows of every workspace, and stop at the first they do not
expect. A consistent database has none (`claimPendingDSLJob_ok`): each turn of a loop succeeds, and
leaves the rows the loop has still to come to as they were selected.
-/

namespace Aegis

open List Option Table DSLJobKind

namespace DslDb

variable {db db' : DslDb} {w : DSLWorkflow} {j : DSLJob} {a : ReplayAttempt} {now : Time}
  {e : DSLError} {p : DSLJob → Bool} {l : List DSLJob}

theorem updateJob_ok {f : JobUpdate} (hj : db.jobs.find? j.id = some j)
    (hp : p j)
    (hstatus : (f.set j).status = j.status ∨ (f.set j).status ∈ j.status.next)
    (hlive : j.status.isLive) (hsame : (f.set j).providerDispatched = j.providerDispatched)
    (hsound : JobSound j) :
    db.updateJob j.id p f e = .ok { db with jobs := db.jobs.updateRow j.id f.onID } := by
  have hkind : (f.set j).kind = j.kind := congrArg (fun i => i.2.2.2.1) (f.keeps j)
  have hdispatch : (!(f.set j).providerDispatched || (f.set j).kind == .selectorRepair) := by
    rw [hsame, hkind]
    cases hd : j.providerDispatched with
    | false => rfl
    | true => simp [hsound.2 hd]
  have hmono : (!j.providerDispatched || (f.set j).providerDispatched) := by
    rw [hsame]
    cases j.providerDispatched <;> rfl
  have hto : ((f.set j).status == j.status || j.status.next.contains (f.set j).status) := by
    simpa using hstatus
  simp only [updateJob, hj, hp, hto, hlive, hmono, hdispatch, ensure, if_true]
  rfl

theorem updateReplay_ok {p : ReplayAttempt → Bool} {f : ReplayUpdate}
    (ha : db.replays.find? a.id = some a) (hp : p a) (hrunning : a.status = .running)
    (hended : (f.set a).status ≠ .running) :
    db.updateReplay a.id p f e = .ok { db with replays := db.replays.updateRow a.id f.onID } := by
  have hto : (a.status == .running && (f.set a).status != .running) := by
    simp [hrunning, hended]
  simp only [updateReplay, ha, hp, hto, ensure, if_true]
  rfl

theorem reviewedSource?_eq_none (h : Unshared db w) : db.reviewedSource? w = none := by
  unfold reviewedSource?
  split
  · rename_i hreviewed
    refine List.find?_eq_none.mpr fun v hv hcond => ?_
    simp only [Bool.and_eq_true, bne_iff_ne, beq_iff_eq] at hcond
    exact hcond.1.1 (h v (find?_key hv) hcond.1.2 hreviewed hcond.2)
  · rfl

theorem updateWorkflow_ok {p : DSLWorkflow → Bool} {f : WorkflowUpdate}
    (hw : db.workflows.find? w.id = some w) (hp : p w)
    (hstatus : (f.set w).status ∈ w.status.next) (hnot : w.status ≠ .failed)
    (hsource : Unshared db w) :
    db.updateWorkflow w.id p f e =
      .ok { db with workflows := db.workflows.updateRow w.id (workflowOnID f.onIdentity) } := by
  have hid : (f.set w).identity = w.identity := congrArg Prod.fst (f.keeps w)
  have hto : ((f.set w).status == w.status || w.status.next.contains (f.set w).status) := by
    simp [hstatus]
  have hmutable : w.mutableTo (f.set w) := by
    unfold DSLWorkflow.mutableTo
    cases hs : w.status with
    | failed => exact absurd hs hnot
    | approved =>
      rw [hs] at hstatus
      cases hstatus
    | _ => rfl
  have hunique : (db.reviewedSource? (f.set w)).isNone := by
    rw [reviewedSource?_eq_none (hsource.update hid hnot)]
    rfl
  simp only [updateWorkflow, writeWorkflow, hw, hp, WorkflowUpdate.onIdentity, hto, hmutable,
    hunique, ensure, if_true]
  rfl

/-- What a loop over the jobs that meet `p` has still to come to. -/
structure PendingJobs (p : DSLJob → Bool) (l : List DSLJob) (db : DslDb) : Prop where
  consistent : Consistent db
  nodup : (l.map DSLJob.id).Nodup
  rows : ∀ j ∈ l, db.jobs.find? j.id = some j ∧ p j = true

/-- The replays that a reaper has listed are there, and expired. -/
structure PendingReplays (l : List ReplayAttempt) (now : Time) (db : DslDb) : Prop where
  consistent : Consistent db
  nodup : (l.map ReplayAttempt.id).Nodup
  rows : ∀ a ∈ l, db.replays.find? a.id = some a ∧ replayExpired now a = true

theorem mem_inScanOrder {ρ : Type} {tie : String → Nat} {id : ρ → String} {l : List ρ} {r : ρ} :
    r ∈ inScanOrder tie id l ↔ r ∈ l :=
  mem_insertionSort _

theorem nodup_inScanOrder {ρ : Type} {tie : String → Nat} {id : ρ → String} {t : Table id}
    (p : ρ → Bool) : ((inScanOrder tie id (t.rows.filter p)).map id).Nodup :=
  ((perm_insertionSort _ _).map id).nodup_iff.mpr
    (t.nodup.sublist (filter_sublist.map id))

theorem pendingJobs (h : Consistent db) (tie : String → Nat) (p : DSLJob → Bool) :
    PendingJobs p (inScanOrder tie DSLJob.id (db.jobs.rows.filter p)) db where
  consistent := h
  nodup := nodup_inScanOrder p
  rows j hj := by
    obtain ⟨hmem, hp⟩ := mem_filter.mp (mem_inScanOrder.mp hj)
    exact ⟨find?_key hmem, hp⟩

theorem pendingReplays (h : Consistent db) (tie : String → Nat) (now : Time) :
    PendingReplays (inScanOrder tie ReplayAttempt.id (db.replays.rows.filter (replayExpired now)))
      now db where
  consistent := h
  nodup := nodup_inScanOrder _
  rows a ha := by
    obtain ⟨hmem, hp⟩ := mem_filter.mp (mem_inScanOrder.mp ha)
    exact ⟨find?_key hmem, hp⟩

theorem Consistent.workflow_of_live (h : Consistent db) (hj : db.jobs.find? j.id = some j)
    (hlive : j.status.isLive) :
    ∃ w, db.workflows.find? w.id = some w ∧ w.id = j.workflowID ∧ w.workspaceID = j.workspaceID ∧
      w.currentJobID = some j.id ∧ w.status = j.kind.workflowStatus := by
  obtain ⟨w, hw⟩ := h.jobParent j hj
  have hk := key_of_find? hw
  obtain ⟨live, running, hs⟩ := h.situation w (find?_self hw)
  obtain ⟨hws, hiff⟩ := hs.jobs j hj hk.symm
  obtain rfl := hiff.mp hlive
  obtain ⟨i, hi, -, hcurrent, hstatus⟩ := hs.job j.id rfl
  obtain rfl := mem_unique hj hi
  exact ⟨w, find?_self hw, hk, hws.symm, hcurrent, hstatus⟩

theorem Consistent.workflow_of_running (h : Consistent db) (ha : db.replays.find? a.id = some a)
    (hrunning : a.status = .running) :
    ∃ w, db.workflows.find? w.id = some w ∧ w.id = a.workflowID ∧ w.workspaceID = a.workspaceID ∧
      w.status = .replaying ∧ a.sequence = w.lastReplaySequence ∧ w.provisionalHash = some a.ruleHash := by
  obtain ⟨w, hw⟩ := h.replayParent a ha
  have hk := key_of_find? hw
  obtain ⟨live, running, hs⟩ := h.situation w (find?_self hw)
  obtain ⟨hws, -, hiff⟩ := hs.replays a ha hk.symm
  obtain rfl := hiff.mp hrunning
  obtain ⟨b, hb, -, hstatus, hsequence, hhash⟩ := hs.attempt a.id rfl
  obtain rfl := mem_unique ha hb
  exact ⟨w, find?_self hw, hk, hws.symm, hstatus, hsequence, hhash⟩

theorem DSLJobKind.failed_mem_next (k : DSLJobKind) : .failed ∈ k.workflowStatus.next := by
  cases k <;> simp [workflowStatus, DSLWorkflowStatus.next]

theorem endJobAndWorkflow_ok (h : Consistent db) (hj : db.jobs.find? j.id = some j)
    (hrunning : j.status = .running) {q : DSLWorkflow → Bool}
    {code message message' : String} {e' : DSLError} (hp : p j)
    (hq : ∀ w : DSLWorkflow, w.workspaceID = j.workspaceID → w.currentJobID = some j.id →
      w.status = j.kind.workflowStatus → q w = true) :
    ∃ workflows, ∃ f : JobUpdate, (do
        let db ← db.updateJob j.id p (expireJob now code message) e
        db.updateWorkflow j.workflowID q (failWorkflow now code message') e') =
      .ok { db with workflows, jobs := db.jobs.updateRow j.id f.onID } := by
  have hlive : j.status.isLive := by rw [hrunning]; rfl
  obtain ⟨w, hw, hk, hws, hcurrent, hstatus⟩ := h.workflow_of_live hj hlive
  have hnext : ((expireJob now code message).set j).status ∈ j.status.next := by
    simp [expireJob, hrunning, DSLJobStatus.next]
  have hfailed : .failed ∈ w.status.next := by rw [hstatus]; exact DSLJobKind.failed_mem_next _
  have hnot : w.status ≠ .failed := by
    rw [hstatus]
    cases j.kind <;> simp [DSLJobKind.workflowStatus]
  rw [updateJob_ok hj hp (.inr hnext) hlive rfl (h.sound j hj), ← hk]
  have hsource : Unshared { db with
      jobs := db.jobs.updateRow j.id (expireJob now code message).onID } w := h.sources w hw
  exact ⟨_, _, updateWorkflow_ok hw (hq w hws hcurrent hstatus) hfailed hnot hsource⟩

theorem PendingJobs.next {f : JobUpdate}
    {workflows : Table DSLWorkflow.id} (h : PendingJobs p (j :: l) db)
    (hc : Consistent { db with workflows, jobs := db.jobs.updateRow j.id f.onID }) :
    PendingJobs p l { db with workflows, jobs := db.jobs.updateRow j.id f.onID } where
  consistent := hc
  nodup := (nodup_cons.mp h.nodup).2
  rows i hi := by
    obtain ⟨hfind, hp⟩ := h.rows i (mem_cons_of_mem j hi)
    refine ⟨?_, hp⟩
    have hne : i.id ≠ j.id := by
      intro heq
      refine (nodup_cons.mp h.nodup).1 ?_
      rw [← heq]
      exact List.mem_map_of_mem hi
    rw [find?_updateRow, if_neg hne]
    exact hfind

theorem Consistent.of_move {d : Digests} {l l' : List DslReply} (h : Consistent db)
    (hm : DslMove d ⟨db, l⟩ ⟨db', l'⟩) : Consistent db' :=
  Consistent.move (s := ⟨db, l⟩) h hm

theorem failExpiredDispatchedSelectorRepair_ok
    (h : PendingJobs (dispatchAmbiguous now) (j :: l) db) :
    ∃ db', db.failExpiredDispatchedSelectorRepair now j = .ok db' ∧
      PendingJobs (dispatchAmbiguous now) l db' := by
  obtain ⟨hj, hp⟩ := h.rows j mem_cons_self
  simp only [dispatchAmbiguous, Bool.and_eq_true, beq_iff_eq] at hp
  obtain ⟨⟨⟨hkind, hrunning⟩, hdispatched⟩, -⟩ := hp
  obtain ⟨workflows, f, hok⟩ : ∃ workflows, ∃ f : JobUpdate,
      db.failExpiredDispatchedSelectorRepair now j =
        .ok { db with workflows, jobs := db.jobs.updateRow j.id f.onID } := by
    refine endJobAndWorkflow_ok h.consistent hj hrunning ?_ fun w hws hcurrent hstatus => ?_
    · simp [hrunning, hkind, hdispatched]
    · simp [hws, hcurrent, hstatus, hkind, workflowStatus]
  have hm := failExpiredDispatchedSelectorRepair_moves (d := ⟨fun _ => "", fun _ => ""⟩) (l := [])
    hok
  exact ⟨_, hok, h.next (h.consistent.of_move hm)⟩

theorem failExpiredExhaustedDSLJob_ok (h : PendingJobs (exhausted now) (j :: l) db) :
    ∃ db', db.failExpiredExhaustedDSLJob now j = .ok db' ∧ PendingJobs (exhausted now) l db' := by
  obtain ⟨hj, hp⟩ := h.rows j mem_cons_self
  have hrunning : j.status = .running := by
    simp only [exhausted, Bool.and_eq_true, beq_iff_eq] at hp
    exact hp.1.1.2
  obtain ⟨workflows, f, hok⟩ : ∃ workflows, ∃ f : JobUpdate,
      db.failExpiredExhaustedDSLJob now j =
        .ok { db with workflows, jobs := db.jobs.updateRow j.id f.onID } := by
    refine endJobAndWorkflow_ok h.consistent hj hrunning ?_ fun w hws hcurrent hstatus => ?_
    · simp [hp]
    · cases hk : j.kind <;>
        simp [DSLWorkflow.worksOn, hws, hcurrent, hstatus, hk, workflowStatus]
  have hm := failExpiredExhaustedDSLJob_moves (d := ⟨fun _ => "", fun _ => ""⟩) (l := []) hok
  exact ⟨_, hok, h.next (h.consistent.of_move hm)⟩

theorem replayRepair_none {o : ReplayOutcome} {jobMaxAttempts : Nat} :
    replayRepair o none jobMaxAttempts now a w = none := by
  unfold replayRepair
  split
  · rfl
  · rfl

theorem completeDSLReplayInTx_ok (h : Consistent db) (ha : db.replays.find? a.id = some a)
    (hrunning : a.status = .running) (o : ReplayOutcome) (jobMaxAttempts : Nat) (now : Time) :
    ∃ db', db.completeDSLReplayInTx a.workspaceID a.id o none jobMaxAttempts now = .ok (db', none, a) ∧
      db'.replays = db.replays.updateRow a.id (o.endAttempt now).onID := by
  obtain ⟨w, hw, hk, hws, hstatus, -, -⟩ := h.workflow_of_running ha hrunning
  have hself : (some a).filter (fun b => b.workspaceID == a.workspaceID) = some a := by simp
  have hparent : (db.workflows.find? a.workflowID).filter
      (fun w => w.workspaceID == a.workspaceID && w.status == .replaying) = some w := by
    rw [← hk, hw]
    simp [hws, hstatus]
  have hended : ((o.endAttempt now).set a).status ≠ .running := by
    cases hproven : o.proven <;> simp [ReplayOutcome.endAttempt, hproven]
  have hnext : statusAfterReplay o w none ∈ w.status.next := by
    rw [hstatus]
    unfold statusAfterReplay
    split
    · simp [DSLWorkflowStatus.next]
    · simp only [isSome_none, Bool.false_eq_true, if_false]
      split <;> simp [DSLWorkflowStatus.next]
  have hattempt := updateReplay_ok (e := .replayState)
    (p := fun b => b.workspaceID == a.workspaceID && b.status == .running) ha (by simp [hrunning])
    hrunning hended
  have hsource : Unshared { db with
      replays := db.replays.updateRow a.id (o.endAttempt now).onID } w := h.sources w hw
  have hworkflow : DslDb.updateWorkflow { db with
        replays := db.replays.updateRow a.id (o.endAttempt now).onID } w.id
      (fun v => v.workspaceID == a.workspaceID && v.status == .replaying)
      (endReplay now (statusAfterReplay o w none) none w.repairCount o.errorCode o.errorMessage)
      .workflowState = .ok _ :=
    updateWorkflow_ok hw (by simp [hws, hstatus]) hnext (by rw [hstatus]; simp) hsource
  rw [hk] at hworkflow
  simp only [completeDSLReplayInTx, ha, hself, hparent, replayRepair_none]
  exact ⟨_, ensure_bind_eq_ok.mpr ⟨by simp [hrunning], bind_eq_ok.mpr ⟨db, rfl, bind_eq_ok.mpr
    ⟨_, hattempt, bind_eq_ok.mpr ⟨_, hworkflow, rfl⟩⟩⟩⟩, rfl⟩

theorem failExpiredReplayAttempt_ok {l : List ReplayAttempt} (h : PendingReplays (a :: l) now db) :
    ∃ db', db.failExpiredReplayAttempt now a = .ok db' ∧ PendingReplays l now db' := by
  obtain ⟨ha, hp⟩ := h.rows a mem_cons_self
  have hrunning : a.status = .running := by
    simp only [replayExpired, Bool.and_eq_true, beq_iff_eq] at hp
    exact hp.1
  obtain ⟨db', hended, hreplays⟩ := completeDSLReplayInTx_ok h.consistent ha hrunning
    { succeeded := false, outputValid := false, code := "REPLAY_ATTEMPT_EXPIRED",
      message := "replay attempt timed out waiting for browser completion" } 3 now
  have hok : db.failExpiredReplayAttempt now a = .ok _ := map_eq_ok.mpr ⟨_, hended, rfl⟩
  have hm := failExpiredReplayAttempt_moves (d := ⟨fun _ => "", fun _ => ""⟩) (l := []) hok
  refine ⟨_, hok, h.consistent.of_move hm, (nodup_cons.mp h.nodup).2, fun b hb => ?_⟩
  obtain ⟨hfind, hpb⟩ := h.rows b (mem_cons_of_mem a hb)
  have hne : b.id ≠ a.id := by
    intro heq
    refine (nodup_cons.mp h.nodup).1 ?_
    rw [← heq]
    exact List.mem_map_of_mem hb
  rw [hreplays, find?_updateRow, if_neg hne]
  exact ⟨hfind, hpb⟩

theorem reap_ok (h : Consistent db) (now : Time) (tie : String → Nat) :
    ∃ db', db.reap now tie = .ok db' ∧ Consistent db' := by
  obtain ⟨db₁, h₁, hc₁⟩ := foldlM_ok (I := PendingJobs (dispatchAmbiguous now))
    (fun _ _ _ => failExpiredDispatchedSelectorRepair_ok) (pendingJobs h tie _)
  obtain ⟨db₂, h₂, hc₂⟩ := foldlM_ok (I := PendingJobs (exhausted now))
    (fun _ _ _ => failExpiredExhaustedDSLJob_ok) (pendingJobs hc₁.consistent tie _)
  obtain ⟨db₃, h₃, hc₃⟩ := foldlM_ok (I := (PendingReplays · now ·))
    (fun _ _ _ => failExpiredReplayAttempt_ok) (pendingReplays hc₂.consistent tie now)
  exact ⟨db₃, bind_eq_ok.mpr ⟨db₁, h₁, bind_eq_ok.mpr ⟨db₂, h₂, h₃⟩⟩, hc₃.consistent⟩

theorem leaseSelected_ok (h : Consistent db) {leaseUntil : Time} (hmem : j ∈ db.jobs.rows)
    (hclaim : claimable now j) : ∃ r, db.leaseSelected now leaseUntil j = .ok r := by
  have hj := find?_key hmem
  have hsound := h.sound j hj
  unfold leaseSelected
  split
  · rename_i hreuse
    simp only [reusesAttempt, Bool.and_eq_true, beq_iff_eq, Bool.not_eq_true'] at hreuse
    obtain ⟨⟨hrunning, hkind⟩, hfirst⟩ := hreuse
    have hexpired : j.leaseExpired now := by
      simp only [claimable, hrunning, Bool.or_eq_true, Bool.and_eq_true] at hclaim
      rcases hclaim with ⟨⟨hpending, -⟩, -⟩ | ⟨⟨-, hexpired⟩, -⟩
      · cases hpending
      · exact hexpired
    exact ⟨_, bind_eq_ok.mpr ⟨_, updateJob_ok hj (by simp [hrunning, hkind, hfirst, hexpired])
      (.inl rfl) (by rw [hrunning]; rfl) rfl hsound, rfl⟩⟩
  · rename_i hreuse
    obtain ⟨hlive, hleft⟩ := Consistent.claimable_live hclaim (by simpa using hreuse)
    have hdue : (j.status == .pending && j.availableAt ≤ now ||
        j.status == .running && j.leaseExpired now) := by
      simp only [claimable, Bool.or_eq_true, Bool.and_eq_true] at hclaim ⊢
      rcases hclaim with ⟨hpending, -⟩ | ⟨hexpired, -⟩
      · exact .inl hpending
      · exact .inr hexpired
    have hnext : ((leaseJob now leaseUntil).set j).status ∈ j.status.next := by
      show DSLJobStatus.running ∈ j.status.next
      cases hs : j.status with
      | pending | running => simp [DSLJobStatus.next]
      | _ =>
        rw [hs] at hlive
        cases hlive
    exact ⟨_, bind_eq_ok.mpr ⟨_, updateJob_ok hj (by simp [hleft, hdue]) (.inr hnext) hlive rfl
      hsound, rfl⟩⟩

/-- Over consistent rows a claim never fails. -/
theorem Consistent.claimPendingDSLJob_ok (h : Consistent db) (now : Time) (lease : Duration)
    (tie : String → Nat) : ∃ r, db.claimPendingDSLJob now lease tie = .ok r := by
  obtain ⟨db₁, hreap, hc⟩ := reap_ok h now tie
  simp only [claimPendingDSLJob_eq, bind_eq_ok, hreap]
  refine exists_comm.mp ⟨db₁, ?_⟩
  simp only [true_and]
  split
  · exact ⟨_, rfl⟩
  · rename_i job hargmin
    obtain ⟨hmem, hclaim⟩ := mem_filter.mp (argmin_mem hargmin)
    obtain ⟨r, hr⟩ := leaseSelected_ok hc hmem hclaim
    exact ⟨_, bind_eq_ok.mpr ⟨r, hr, rfl⟩⟩

/-- The current job of `w` has not ended, and is of one of these kinds. -/
def CurrentJobLive (db : DslDb) (w : DSLWorkflow) (kinds : List DSLJobKind) : Prop :=
  ∃ j ∈ db.jobs.rows, w.currentJobID = some j.id ∧ j.kind ∈ kinds ∧ j.status.isLive = true

/-- The status of a workflow tells which of its jobs and replays have not ended. -/
structure Coherent (db : DslDb) (w : DSLWorkflow) : Prop where
  generating : w.status = .generating ↔ db.CurrentJobLive w [.generate]
  repairing : w.status = .repairing ↔ db.CurrentJobLive w [.repair, .selectorRepair]
  alone : w.status = .generating ∨ w.status = .repairing →
    ∀ j ∈ db.jobs.rows, j.workflowID = w.id → j.status.isLive = true → w.currentJobID = some j.id
  replaying : w.status = .replaying ↔ ∃ a ∈ db.replays.rows, a.workflowID = w.id ∧ a.status = .running ∧
      a.sequence = w.lastReplaySequence ∧ w.provisionalHash = some a.ruleHash ∧
      ∀ b ∈ db.replays.rows, b.workflowID = w.id → b.status = .running → b = a
  noJob : w.status ≠ .generating → w.status ≠ .repairing →
    ∀ j ∈ db.jobs.rows, j.workflowID = w.id → j.status.isLive = false
  noReplay : w.status ≠ .replaying → ∀ a ∈ db.replays.rows, a.workflowID = w.id → a.status ≠ .running
  repairs : w.repairCount ≤ w.maxRepairs

variable {live running : Option String}

theorem Situation.currentJobLive (h : Situation db w live running) {kinds : List DSLJobKind}
    (hlive : live ≠ none) (hkind : ∀ k : DSLJobKind, k.workflowStatus = w.status → k ∈ kinds) :
    db.CurrentJobLive w kinds := by
  cases live with
  | none => exact absurd rfl hlive
  | some id =>
    obtain ⟨j, hj, hk, hcurrent, hstatus⟩ := h.job id rfl
    obtain rfl := key_of_find? hj
    exact ⟨j, mem_of_find? hj, hcurrent, hkind j.kind hstatus.symm, (h.jobs j hj hk).2.mpr rfl⟩

theorem Situation.status_of_currentJobLive (h : Situation db w live running)
    {kinds : List DSLJobKind} (hjob : db.CurrentJobLive w kinds) :
    ∃ k ∈ kinds, w.status = k.workflowStatus := by
  obtain ⟨j, hmem, hcurrent, hkind, hlive⟩ := hjob
  obtain ⟨i, hi, hk⟩ := h.current j.id hcurrent
  cases (find?_key hmem).symm.trans hi
  obtain rfl := (h.jobs j hi hk).2.mp hlive
  obtain ⟨i, hi', -, -, hstatus⟩ := h.job j.id rfl
  obtain rfl := mem_unique hi hi'
  exact ⟨j.kind, hkind, hstatus⟩

/-- The situation of a run gives what holds of its rows together. -/
theorem Situation.coherent (h : Situation db w live running) : Coherent db w where
  generating := by
    constructor
    · intro hs
      refine h.currentJobLive (h.working (by rw [hs]; rfl)) fun k hk => ?_
      rw [hs] at hk
      cases k <;> simp_all [workflowStatus]
    · intro hjob
      obtain ⟨k, hk, hstatus⟩ := h.status_of_currentJobLive hjob
      obtain rfl := mem_singleton.mp hk
      exact hstatus
  repairing := by
    constructor
    · intro hs
      refine h.currentJobLive (h.working (by rw [hs]; rfl)) fun k hk => ?_
      rw [hs] at hk
      cases k <;> simp_all [workflowStatus]
    · intro hjob
      obtain ⟨k, hk, hstatus⟩ := h.status_of_currentJobLive hjob
      rcases mem_pair.mp hk with rfl | rfl
      all_goals exact hstatus
  alone _ j hmem hk hlive := by
    obtain rfl := (h.jobs j (find?_key hmem) hk).2.mp hlive
    obtain ⟨i, -, -, hcurrent, -⟩ := h.job j.id rfl
    exact hcurrent
  replaying := by
    constructor
    · intro hs
      cases running with
      | none => exact absurd rfl (h.replaying hs)
      | some id =>
        obtain ⟨a, ha, hk, -, hsequence, hhash⟩ := h.attempt id rfl
        obtain rfl := key_of_find? ha
        refine ⟨a, mem_of_find? ha, hk, (h.replays a ha hk).2.2.mpr rfl, hsequence, hhash,
          fun b hb hbk hrunning => ?_⟩
        have hid := (h.replays b (find?_key hb) hbk).2.2.mp hrunning
        exact eq_of_key hb (mem_of_find? ha) (some.inj hid).symm
    · rintro ⟨a, hmem, hk, hrunning, -⟩
      obtain rfl := (h.replays a (find?_key hmem) hk).2.2.mp hrunning
      obtain ⟨b, -, -, hstatus, -⟩ := h.attempt a.id rfl
      exact hstatus
  noJob hgenerating hrepairing j hmem hk := by
    obtain rfl := h.live_eq_none (by cases hs : w.status <;> simp_all [DSLWorkflowStatus.isWorking])
    by_contra hlive
    have := (h.jobs j (find?_key hmem) hk).2.mp (by simpa using hlive)
    cases this
  noReplay hs a hmem hk hrunning := by
    obtain rfl := h.running_eq_none hs
    have := (h.replays a (find?_key hmem) hk).2.2.mp hrunning
    cases this
  repairs := h.repairs

end DslDb

/-- In every state of every run the rows of the workflows fit together, and a claim succeeds. -/
theorem DslServer.workflows_coherent (d : Digests) (es : List DslEvent) :
    Always (DslServer.step d) (fun s => (∀ w ∈ s.db.workflows.rows, s.db.Coherent w) ∧
      (∀ j ∈ s.db.jobs.rows, j.attemptCount ≤ j.maxAttempts) ∧
      ∀ now lease tie, ∃ r, s.db.claimPendingDSLJob now lease tie = .ok r) .init es := by
  have hrun : Always (DslServer.step d) (fun s => s.db.Consistent) .init es :=
    (meets_of_forall (A := fun _ => True) fun _ _ => trivial).always DslDb.Consistent.empty
      fun s e hc _ => hc.step d e
  refine hrun.mono fun s hc => ⟨fun w hmem => ?_, fun j hmem => (hc.sound j (find?_key hmem)).1,
    hc.claimPendingDSLJob_ok⟩
  obtain ⟨live, running, hs⟩ := hc.situation w (find?_key hmem)
  exact hs.coherent

end Aegis
