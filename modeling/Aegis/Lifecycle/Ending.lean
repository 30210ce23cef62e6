import Aegis.Lifecycle.Writes

/-!
# Lifecycle.Ending

The store calls that take a task from the attempt that holds it: a terminal report, a requeue, the
cancellation of a task that does not run yet, and an operator wait that is rejected or expires.
Every other call leaves the attempt where it is.
-/

namespace Aegis

open List Option Table

/-- The calls that end the attempt holding the task `id`, if they succeed. -/
def Op.ends (s : Store) (id : TaskID) : Op → Bool
  | updateTaskStatus _ taskID _ status _ _ => taskID == id && status.isTerminal
  | updateTaskStatusForAttempt _ taskID _ _ status _ _ => taskID == id && status.isTerminal
  | decideHumanIntervention c intervention _ decision _ _ _ =>
    (s.humanInterventions.find? intervention).any fun h =>
      h.taskID == id && (h.expiresAt ≤ c.now || decision != .approved)
  | expireHumanInterventions c intervention taskID =>
    (s.overdue c intervention taskID).any fun h => h.taskID == id
  | cancelTask _ taskID =>
    taskID == id && (s.tasks.find? id).any fun t => t.status.isCancellable
  | releaseTask _ taskID => taskID == id
  | _ => false

/-- The same of a `SET` clause. -/
def TaskWrite.ends : TaskWrite → Bool
  | requeue | cancel | fail _ _ => true
  | report status _ _ => status.isTerminal
  | _ => false

/-- A report carries `running` or a terminal status. -/
def TaskWrite.Reportable (w : TaskWrite) : Prop :=
  ∀ status message errorType, w = .report status message errorType → status.isReportable = true

namespace Store

variable {cfg : Config} {s s' : Store} {id : TaskID} {attempt : AttemptID}

/-- The task `id` is held, under `attempt`. -/
def HeldUnder (s : Store) (id : TaskID) (attempt : AttemptID) : Prop :=
  ∃ t, s.tasks.find? id = some t ∧ t.status.isHeld = true ∧ t.currentAttemptID = some attempt

theorem heldUnder_congr (h : s'.tasks.find? id = s.tasks.find? id) :
    s'.HeldUnder id attempt ↔ s.HeldUnder id attempt := by
  simp only [HeldUnder, h]

variable {now : Time} {written : TaskID} {w : TaskWrite}

theorem clause_holds {t : Task} (hheld : t.status.isHeld) (hcur : t.currentAttemptID = some attempt)
    (hguard : w.guard t.status) (hrep : TaskWrite.Reportable w) :
    (((w.clause now).set t).status.isHeld = true ∧
      ((w.clause now).set t).currentAttemptID = some attempt) ↔ w.ends = false := by
  cases w with
  | lease | retry => cases hs : t.status <;> simp_all [TaskWrite.guard, TaskStatus.isHeld, TaskStatus.isRetryable]
  | renew | requestCancel => exact iff_of_true ⟨hheld, hcur⟩ rfl
  | suspend | resume => exact iff_of_true ⟨rfl, hcur⟩ rfl
  | requeue | cancel | fail =>
    exact iff_of_false (fun h => Bool.noConfusion h.1) fun h => Bool.noConfusion h
  | report status message errorType =>
    rcases TaskStatus.isReportable_cases (hrep status message errorType rfl) with rfl | hterm
    · exact iff_of_true ⟨rfl, hcur⟩ rfl
    · have hrest := (TaskStatus.isHeld_of_isTerminal hterm).1
      refine iff_of_false (fun h => ?_) (by simp [TaskWrite.ends, hterm])
      exact Bool.false_ne_true (hrest.symm.trans h.1)

theorem heldUnder_writes (hw : Writes s s' now written w) (hrep : TaskWrite.Reportable w)
    (h : s.HeldUnder id attempt) :
    s'.HeldUnder id attempt ↔ ¬ (written = id ∧ w.ends = true) := by
  obtain ⟨t, ht, hguard, htasks⟩ := hw
  obtain ⟨u, hu, hheld, hcur⟩ := h
  have hfind := find?_updateRow s.tasks written (w.clause now).onID id
  rw [← htasks] at hfind
  by_cases hid : id = written
  · subst hid
    obtain rfl := mem_unique ht hu
    rw [if_pos rfl, ht, map_some, TaskUpdate.onID_set] at hfind
    have hset := @clause_holds attempt now w _ hheld hcur hguard hrep
    simp only [HeldUnder, hfind, Option.some.injEq, exists_eq_left', true_and, Bool.not_eq_true]
    exact hset
  · rw [if_neg hid] at hfind
    rw [heldUnder_congr hfind]
    exact iff_of_true ⟨u, hu, hheld, hcur⟩ fun h => hid h.1.symm

section Calls

variable {c : Ctx} {taskID : TaskID} {workerID : WorkerID} {status : TaskStatus}
  {message errorType : String}

theorem heldUnder_report (hstatus : status.isReportable)
    (h : s.updateTaskStatus c taskID workerID status message errorType = .ok s')
    (hheld : s.HeldUnder id attempt) :
    s'.HeldUnder id attempt ↔ ¬ (taskID = id ∧ status.isTerminal = true) :=
  heldUnder_writes (updateTaskStatus_writes h) (fun _ _ _ he => by cases he; exact hstatus) hheld

theorem heldUnder_reportForAttempt {attemptID : AttemptID} {repeated : Bool}
    (h : s.updateTaskStatusForAttempt c taskID workerID attemptID status message errorType =
      .ok (s', repeated)) (hheld : s.HeldUnder id attempt) :
    s'.HeldUnder id attempt ↔ ¬ (taskID = id ∧ status.isTerminal = true) := by
  rcases updateTaskStatusForAttempt_writes h with ⟨rfl, t, ht, hsame⟩ | hw
  · -- A report that repeats the status of a held task is not terminal.
    refine iff_of_true hheld ?_
    rintro ⟨rfl, hterm⟩
    obtain ⟨u, hu, hu', -⟩ := hheld
    obtain rfl := mem_unique ht hu
    rw [hsame, (TaskStatus.isHeld_of_isTerminal hterm).1] at hu'
    cases hu'
  · obtain ⟨-, -, -, -, -, -, hrep, -⟩ := updateTaskStatusForAttempt_cases h
    exact heldUnder_writes hw (fun _ _ _ he => by cases he; exact hrep) hheld

theorem heldUnder_cancel (h : s.cancelTask c taskID = .ok s') (hheld : s.HeldUnder id attempt) :
    s'.HeldUnder id attempt ↔ ¬ (taskID = id ∧
      (s.tasks.find? id).any (fun t => t.status.isCancellable) = true) := by
  rcases cancelTask_writes h with hw | hw
  all_goals
    rw [heldUnder_writes hw (by rintro _ _ _ ⟨⟩) hheld]
    obtain ⟨t, ht, hguard, -⟩ := hw
    refine not_congr (and_congr_right fun hid => ?_)
    subst hid
    rw [ht]
  · exact iff_of_true rfl hguard
  · have hrun : t.status = .running := by simpa [TaskWrite.guard] using hguard
    simp [hrun, TaskWrite.ends, TaskStatus.isCancellable]

theorem heldUnder_decide {intervention checkpointID note actor : String} {d : Duration}
    {decision : HumanInterventionStatus} {e : Option StoreError}
    (h : s.decideHumanIntervention c intervention checkpointID decision note actor d = .ok (s', e))
    (hheld : s.HeldUnder id attempt) :
    s'.HeldUnder id attempt ↔ ¬ ((s.humanInterventions.find? intervention).any fun h =>
      h.taskID == id && (h.expiresAt ≤ c.now || decision != .approved)) = true := by
  obtain ⟨g, hg, -, -, hcases⟩ := decideHumanIntervention_writes h
  rw [hg]
  rcases hcases with ⟨hover, hw⟩ | ⟨hnow, -, -, ⟨rfl, -, hw⟩ | ⟨hne, hw⟩⟩
  · rw [heldUnder_writes hw (by rintro _ _ _ ⟨⟩) hheld]
    simp [TaskWrite.ends, hover]
  · rw [heldUnder_writes hw (by rintro _ _ _ ⟨⟩) hheld]
    simp [TaskWrite.ends, not_le.mpr hnow]
  · rw [heldUnder_writes hw (by rintro _ _ _ ⟨⟩) hheld]
    simp [TaskWrite.ends, hne]

theorem heldUnder_expire (hg : s.Good) {intervention : String}
    (h : s.expireHumanInterventions c intervention taskID = .ok s')
    (hheld : s.HeldUnder id attempt) :
    s'.HeldUnder id attempt ↔
      ¬ ((s.overdue c intervention taskID).any fun h => h.taskID == id) = true := by
  obtain ⟨s₁, h₁, -, -, hframe, hfailed⟩ := expire_all _ hg (overdue_waits s c intervention taskID)
    (overdue_nodup s c intervention taskID)
  cases h₁.symm.trans h
  rw [Bool.not_eq_true, List.any_eq_false]
  constructor
  · rintro ⟨t, ht, ht', -⟩ g hg hid
    obtain rfl := eq_of_beq hid
    obtain ⟨u, hu, hfail⟩ := hfailed g hg
    obtain rfl := mem_unique ht hu
    rw [hfail] at ht'
    cases ht'
  · intro hnone
    refine (heldUnder_congr ?_).mpr hheld
    exact congrArg TaskView.task (hframe id fun g hg hid => hnone g hg (beq_iff_eq.mpr hid))

theorem heldUnder_create {env : Env} {t : Task} (h : s.createTask env c t = .ok s')
    (hheld : s.HeldUnder id attempt) : s'.HeldUnder id attempt := by
  obtain ⟨u, -, -, -, -, -, -, -, -, hins⟩ := createTask_cases h
  obtain ⟨q, hq, hrest⟩ := hheld
  exact ⟨q, Table.find?_insert?_of_some (insertTask_tasks hins).1 hq, hrest⟩

end Calls

/-- **What ends an attempt**: a call takes the task from the attempt that holds it exactly when it
succeeds and is one of those that end the attempt. -/
theorem heldUnder_apply {op : Op} (hg : s.Good) (ha : op.isAdmitted) (h : s.HeldUnder id attempt) :
    (op.apply cfg s).HeldUnder id attempt ↔
      ¬ ((op.exec cfg s).isOk = true ∧ op.ends s id = true) := by
  cases hexec : op.exec cfg s with
  | error e =>
    rw [Op.apply_of_error hexec]
    exact iff_of_true h fun hok => Bool.noConfusion hok.1
  | ok s' =>
    rw [Op.apply_of_ok hexec]
    have hok : (Except.ok s' : Except StoreError Store).isOk := rfl
    rw [and_iff_right hok]
    cases op with
    | createTask c t => exact iff_of_true (heldUnder_create hexec h) fun hends => Bool.noConfusion hends
    | claimTask c r =>
      obtain ⟨⟨s₁, claim⟩, h₁, rfl⟩ := map_eq_ok.mp hexec
      obtain ⟨-, t, -, -, -, hw⟩ := claimTask_writes h₁
      rw [heldUnder_writes hw (by rintro _ _ _ ⟨⟩) h]
      simp [Op.ends, TaskWrite.ends]
    | renewLease c taskID workerID d =>
      rw [heldUnder_writes (renewLease_writes hexec).2 (by rintro _ _ _ ⟨⟩) h]
      simp [Op.ends, TaskWrite.ends]
    | updateTaskStatus c taskID workerID status message errorType =>
      rw [heldUnder_report ha hexec h]
      simp [Op.ends]
    | updateTaskStatusForAttempt c taskID workerID attemptID status message errorType =>
      obtain ⟨⟨s₁, repeated⟩, h₁, rfl⟩ := map_eq_ok.mp hexec
      rw [heldUnder_reportForAttempt h₁ h]
      simp [Op.ends]
    | createHumanIntervention c input =>
      rw [heldUnder_writes (createHumanIntervention_writes hexec) (by rintro _ _ _ ⟨⟩) h]
      simp [Op.ends, TaskWrite.ends]
    | decideHumanIntervention c intervention checkpointID decision note actor d =>
      obtain ⟨⟨s₁, e⟩, h₁, rfl⟩ := map_eq_ok.mp hexec
      exact heldUnder_decide h₁ h
    | expireHumanInterventions c intervention taskID => exact heldUnder_expire hg hexec h
    | cancelTask c taskID =>
      rw [heldUnder_cancel hexec h]
      simp [Op.ends]
    | retryTask c taskID =>
      rw [heldUnder_writes (retryTask_writes hexec) (by rintro _ _ _ ⟨⟩) h]
      simp [Op.ends, TaskWrite.ends]
    | releaseTask c taskID =>
      rw [heldUnder_writes (releaseTask_writes hexec) (by rintro _ _ _ ⟨⟩) h]
      simp [Op.ends, TaskWrite.ends]

end Store

end Aegis
