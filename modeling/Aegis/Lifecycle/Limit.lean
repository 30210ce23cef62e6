import Aegis.Lifecycle.Lockstep
import Aegis.Lifecycle.Writes

/-!
# Lifecycle.Limit

The leased and running tasks of one worker. A claim counts them before it adds one; an approval
adds one too, and counts nothing. So the limit holds in the runs whose approvals find room for the
task they resume, and in no others.
-/

namespace Aegis

open List Option

namespace Store

variable {cfg : Config} {s s' : Store} {op : Op} {now : Time} {id : TaskID} {w : TaskWrite}
  {workspace : WorkspaceID} {worker : WorkerID}

/-- No worker has more active tasks than the limit. -/
def WithinLimit (cfg : Config) (s : Store) : Prop :=
  ∀ workspace worker, (s.activeCount workspace worker : Int) ≤ cfg.maxWorkerTasks

/-- An approval of a pending request, in time and with its checkpoint, finds the worker of the
waiting task below the limit. -/
def ApprovalFits (cfg : Config) (s : Store) : Op → Prop
  | .decideHumanIntervention c id checkpointID .approved _ _ _ =>
    ∀ h ∈ s.humanInterventions.find? id, h.workspaceID = c.workspace → h.status = .pending →
      c.now < h.expiresAt → checkpointID.isEmpty = false → checkpointID = h.checkpointID →
      (s.activeCount c.workspace h.workerID : Int) < cfg.maxWorkerTasks
  | _ => True

instance : Decidable (ApprovalFits cfg s op) := by
  unfold ApprovalFits
  split <;> infer_instance

/-- `workspace_id = ? AND worker_id = ? AND status IN ('leased','running')`. -/
def countsFor (workspace : WorkspaceID) (worker : WorkerID) (t : Task) : Bool :=
  t.workspaceID == workspace && t.workerID == some worker && t.status.isActive

theorem activeCount_eq : s.activeCount workspace worker =
    s.tasks.rows.countP (countsFor workspace worker) := rfl

theorem Writes.activeCount (h : Writes s s' now id w) (workspace : WorkspaceID)
    (worker : WorkerID) : ∃ t, s.tasks.find? id = some t ∧ w.guard t.status = true ∧
      s'.activeCount workspace worker + (if countsFor workspace worker t then 1 else 0) =
        s.activeCount workspace worker +
          if countsFor workspace worker ((w.clause now).set t) then 1 else 0 := by
  obtain ⟨t, ht, hg, htasks⟩ := h
  refine ⟨t, ht, hg, ?_⟩
  rw [activeCount_eq, activeCount_eq, htasks]
  exact Table.countP_updateRow (w.clause now).onID _ ht

theorem countsFor_of_clause {t : Task} (hg : w.guard t.status)
    (hlease : ∀ k u a, w ≠ .lease k u a) (hresume : ∀ u, w ≠ .resume u)
    (h : countsFor workspace worker ((w.clause now).set t)) :
    countsFor workspace worker t := by
  simp only [countsFor, Bool.and_eq_true, beq_iff_eq] at h ⊢
  obtain ⟨⟨hws, hworker⟩, hactive⟩ := h
  cases w with
  | lease k u a => exact absurd rfl (hlease k u a)
  | resume u => exact absurd rfl (hresume u)
  | renew u | requestCancel => exact ⟨⟨hws, hworker⟩, hactive⟩
  | requeue => cases hworker
  | retry => cases hworker
  | cancel | suspend createdAt | fail errorType message => cases hactive
  | report new message errorType =>
    refine ⟨⟨hws, hworker⟩, ?_⟩
    simp only [TaskWrite.guard, Bool.or_eq_true, Bool.and_eq_true] at hg
    rcases hg with hg | ⟨-, hclose⟩
    · exact hg
    · -- a status that may close a wait is terminal
      have hnew : new.isActive := hactive
      cases new <;> simp_all [TaskStatus.mayCloseHumanWait, TaskStatus.isActive]

theorem Writes.activeCount_le (h : Writes s s' now id w) (hlease : ∀ k u a, w ≠ .lease k u a)
    (hresume : ∀ u, w ≠ .resume u) (workspace : WorkspaceID) (worker : WorkerID) :
    s'.activeCount workspace worker ≤ s.activeCount workspace worker := by
  obtain ⟨t, -, hg, hcount⟩ := h.activeCount workspace worker
  by_cases hnew : countsFor workspace worker ((w.clause now).set t)
  · rw [if_pos hnew, if_pos (countsFor_of_clause hg hlease hresume hnew)] at hcount
    omega
  · rw [if_neg hnew] at hcount
    omega

theorem Writes.activeCount_add {c : Ctx} {t : Task} (h : Writes s s' now id w)
    (ht : s.tasks.find? id = some t) (hold : t.status.isActive = false)
    (hws : ((w.clause now).set t).workspaceID = c.workspace)
    (hworker : ((w.clause now).set t).workerID = some worker)
    (hactive : ((w.clause now).set t).status.isActive) (workspace' : WorkspaceID)
    (worker' : WorkerID) :
    s'.activeCount workspace' worker' = s.activeCount workspace' worker' +
      if workspace' = c.workspace ∧ worker' = worker then 1 else 0 := by
  obtain ⟨u, hu, -, hcount⟩ := h.activeCount workspace' worker'
  obtain rfl := mem_unique ht hu
  have hnot : countsFor workspace' worker' t = false := by simp [countsFor, hold]
  have hnew : countsFor workspace' worker' ((w.clause now).set t) ↔
      workspace' = c.workspace ∧ worker' = worker := by
    simp only [countsFor, hws, hworker, hactive, Bool.and_true, Bool.and_eq_true, beq_iff_eq, some.injEq]
    constructor
    all_goals
      rintro ⟨rfl, rfl⟩
      exact ⟨rfl, rfl⟩
  rw [hnot] at hcount
  simp only [hnew] at hcount
  simpa using hcount

theorem sends_within (hp : WithinLimit cfg s) (hfits : ApprovalFits cfg s op)
    (hs : Sends cfg s op now id w) (hw : Writes s s' now id w) : WithinLimit cfg s' := by
  intro workspace worker
  have hle := hp workspace worker
  cases hs with
  | @claim c r t hlimit hhead hws ht =>
    have hpend : t.status = .pending := by
      obtain ⟨u, hu, hg, -⟩ := hw
      obtain rfl := mem_unique ht hu
      simpa [TaskWrite.guard] using hg
    rw [hw.activeCount_add ht (by rw [hpend]; rfl) hws rfl rfl]
    split
    · rename_i h
      obtain ⟨rfl, rfl⟩ := h
      push_cast
      omega
    · simpa using hle
  | @resume c iid checkpointID note actor d h t hfind hws hpend hnow hne hcheckpoint ht hwaits =>
    simp only [waitsFor, Bool.and_eq_true, beq_iff_eq] at hwaits
    obtain ⟨⟨⟨⟨htw, -⟩, -⟩, hworker⟩, hstatus⟩ := hwaits
    have hroom := hfits h hfind hws hpend hnow hne hcheckpoint
    rw [hw.activeCount_add ht (by rw [hstatus]; rfl) htw hworker rfl]
    split
    · rename_i h
      obtain ⟨rfl, rfl⟩ := h
      push_cast
      omega
    · simpa using hle
  | _ =>
    have hle' := hw.activeCount_le (fun _ _ _ h => TaskWrite.noConfusion h)
      (fun _ h => TaskWrite.noConfusion h) workspace worker
    omega

theorem exec_within (ha : op.isAdmitted) (hp : WithinLimit cfg s)
    (hfits : ApprovalFits cfg s op) (h : op.exec cfg s = .ok s') : WithinLimit cfg s' := by
  refine exec_rule (P := fun tasks => ∀ workspace worker,
    (tasks.rows.countP (countsFor workspace worker) : Int) ≤ cfg.maxWorkerTasks) h hp ?_ ?_ ?_
  · rintro c t u rfl - hstatus - hins workspace worker
    simp only [Op.isAdmitted, Bool.and_eq_true, beq_iff_eq] at ha
    have hnot : countsFor workspace worker u = false := by
      simp [countsFor, hstatus, ha.1, TaskStatus.isActive]
    rw [(Table.insert?_eq_some.mp hins).2, countP_append, countP_singleton, hnot]
    exact hp workspace worker
  · intro now id w hs hw
    exact sends_within hp hfits hs hw
  · intro s₁ s₂ now id hp₁ hw workspace worker
    have hle := hw.activeCount_le (fun _ _ _ h => TaskWrite.noConfusion h)
      (fun _ h => TaskWrite.noConfusion h) workspace worker
    have hle₁ := hp₁ workspace worker
    rw [activeCount_eq, activeCount_eq] at hle
    omega

/-- One call stays within the limit exactly when its approval fits. -/
theorem step_within (hg : s.Good) (ha : op.isAdmitted) (hp : WithinLimit cfg s) :
    WithinLimit cfg (op.apply cfg s) ↔ ApprovalFits cfg s op := by
  constructor
  · intro hwithin
    unfold ApprovalFits
    split
    · rename_i c id checkpointID note actor d
      intro h hfind hws hpend hnow hne hcheckpoint
      obtain ⟨s', hok⟩ := approve_ok note actor d hg hfind hws hpend hnow hne hcheckpoint
      have hexec :
          (Op.decideHumanIntervention c id checkpointID .approved note actor d).exec cfg s = .ok s' :=
        map_eq_ok.mpr ⟨_, hok, rfl⟩
      rw [Op.apply_of_ok hexec] at hwithin
      -- the resumed task is one more
      obtain ⟨g, hfind', -, -, ⟨hover, -⟩ | ⟨-, -, -, ⟨-, ⟨t, ht, hwaits⟩, hw⟩ | ⟨hne', -⟩⟩⟩ :=
        decideHumanIntervention_writes hok
      · obtain rfl := mem_unique hfind hfind'
        exact absurd hover (not_le.mpr hnow)
      · obtain rfl := mem_unique hfind hfind'
        simp only [waitsFor, Bool.and_eq_true, beq_iff_eq] at hwaits
        obtain ⟨⟨⟨⟨htw, -⟩, -⟩, hworker⟩, hstatus⟩ := hwaits
        have hadd := hw.activeCount_add ht (by rw [hstatus]; rfl) htw hworker rfl c.workspace
          h.workerID
        rw [if_pos ⟨rfl, rfl⟩] at hadd
        have hle := hwithin c.workspace h.workerID
        omega
      · exact absurd rfl hne'
    · trivial
  · intro hfits
    rcases Op.apply_eq cfg s op with h | h
    · rw [h]
      exact hp
    · exact exec_within ha hp hfits h

/-- **The worker limit.** A run keeps within the limit exactly when the limit is not negative and
every approval fits. -/
theorem worker_limit (hi : Initial s) {ops : List Op} (ha : ∀ op ∈ ops, op.isAdmitted = true) :
    Always (Op.apply cfg) (WithinLimit cfg) s ops ↔
      0 ≤ cfg.maxWorkerTasks ∧ Meets (Op.apply cfg) (ApprovalFits cfg) s ops := by
  have hzero : ∀ workspace worker, s.activeCount workspace worker = 0 := fun workspace worker => by
    simp [activeCount_eq, hi.tasks]
  have hiff : 0 ≤ cfg.maxWorkerTasks → (Always (Op.apply cfg) (WithinLimit cfg) s ops ↔
      Meets (Op.apply cfg) (ApprovalFits cfg) s ops) := by
    intro hlimit
    refine always_iff_meets_within (I := Good) (A := fun _ op => op.isAdmitted = true)
      (meets_of_forall ha) hi.good (fun s op hg ha => ?_) (fun workspace worker => ?_)
      fun s op hg ha hp => step_within hg ha hp
    · rcases Op.apply_eq cfg s op with h | h
      · rw [h]
        exact hg
      · exact (Op.simulates hg ha h).good hg
    · rw [hzero]
      exact hlimit
  constructor
  · intro h
    have hlimit : 0 ≤ cfg.maxWorkerTasks := by
      have := h.head "" ""
      rwa [hzero] at this
    exact ⟨hlimit, (hiff hlimit).mp h⟩
  · rintro ⟨hlimit, h⟩
    exact (hiff hlimit).mpr h

/-- One worker, with a limit of one, suspends its task and claims another. -/
def busyRun : List Op :=
  [Sample.create "task" 0, Sample.create "other task" 1, Sample.claim "worker" "first" 2,
    Sample.suspend "wait" "task" "first" "worker" 3, Sample.claim "worker" "second" 4]

def approve (now : Time) : Op :=
  .decideHumanIntervention (Sample.at' now) "wait" "checkpoint of wait" .approved "" "operator" 100

/-- The other task is done before the approval. -/
theorem worker_limit_busyRun : Always (Op.apply Sample.config) (WithinLimit Sample.config)
    Sample.store (busyRun ++
      [.updateTaskStatus (Sample.at' 5) "other task" "worker" .done "" "", approve 6]) :=
  (worker_limit Sample.store_initial (by decide)).mpr (by decide)

/-- It is not done, and the approval makes two running tasks of one. -/
theorem worker_limit_approved : ¬ ∀ (cfg : Config) (s : Store) (ops : List Op), Initial s →
    0 ≤ cfg.maxWorkerTasks → (∀ op ∈ ops, op.isAdmitted = true) →
    ∀ workspace worker, ((run (Op.apply cfg) s ops).activeCount workspace worker : Int) ≤
      cfg.maxWorkerTasks := by
  intro h
  have hbusy := h Sample.config Sample.store (busyRun ++ [approve 5]) Sample.store_initial
    (by decide) (by decide) Sample.workspace "worker"
  revert hbusy
  decide

end Store

end Aegis
