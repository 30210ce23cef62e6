import Aegis.Lifecycle.Describes

/-!
# Lifecycle.Simulation

Every store call is a step of the lifecycle of the task it names and leaves the other tasks alone.
-/

namespace Aegis

open List Option TaskStatus

theorem TaskStatus.isHeld_of_isActive {σ : TaskStatus} (h : σ.isActive) : σ.isHeld = true := by
  cases σ <;> simp_all [isActive, isHeld]

theorem Phase.waits_of_ne {phase : Phase} {a : ExecutionAttempt} {waits : List HumanIntervention}
    (h : phase.Waits a waits) (hp : phase ≠ .waiting) : waits = [] := by
  cases phase with
  | waiting => exact absurd rfl hp
  | leased | running => exact h

namespace Store

variable {s s' : Store} {id : TaskID} {c : Ctx}

/-! ## Creation and claims -/

theorem createTask_moves {env : Env} {t : Task} (hstatus : t.status = .pending)
    (hcur : t.currentAttemptID = none) (h : s.createTask env c t = .ok s') :
    Moves s s' t.id := by
  obtain ⟨u, hid, -, hust, hucur, -, -, -, -, hins⟩ := createTask_cases h
  obtain ⟨hnone, hview⟩ := insertTask_eq_ok hins
  rw [hid] at hnone
  constructor
  · intro id' hne
    rw [hview id', if_neg (by rw [hid]; exact hne.symm)]
  · intro l hd
    cases hd with
    | absent hv =>
      have hrow : Describes (s'.view t.id) (.atRest u.status 0) := by
        have hv' : s'.view t.id = ⟨some u, [], []⟩ := by rw [hview t.id, if_pos hid, hv]
        exact .atRest hv' (Ended.nil u) (by rw [hust, hstatus]; rfl) (by rw [hucur, hcur]; rfl)
      rw [hust, hstatus] at hrow
      exact ⟨_, .create, hrow⟩
    | atRest hv | held hv => simp [hv] at hnone

theorem nextAttemptNumber_eq {t : Task} {past : List ExecutionAttempt}
    (hv : s.view id = ⟨some t, past, []⟩) (hended : Ended t past)
    (hws : t.workspaceID = c.workspace) : s.nextAttemptNumber c id = past.length + 1 := by
  have hpast : (s.executionAttempts.rows.filter fun a =>
      a.workspaceID == c.workspace && a.taskID == id) = past := by
    have hat : (s.executionAttempts.rows.filter fun a => a.taskID == id) = past :=
      congrArg TaskView.attempts hv
    rw [← List.filter_filter, hat]
    exact filter_eq_self.mpr fun a ha => by simp [hended.workspace a ha, hws]
  rw [nextAttemptNumber, hpast, hended.numbers]
  cases past with
  | nil => rfl
  | cons a past =>
    have hmax : (List.range' 1 (past.length + 1)).max? = some (past.length + 1) := by
      rw [max?_eq_some_iff]
      constructor
      · rw [List.mem_range'_1]
        omega
      · intro n hn
        rw [List.mem_range'_1] at hn
        omega
    rw [length_cons, hmax]
    rfl

theorem claimTask_moves {m : Int} {r : ClaimRequest} {claim : TaskClaim}
    (h : s.claimTask m c r = .ok (s', claim)) : ∃ id, Moves s s' id := by
  obtain ⟨-, row, s₁, hrow, h₁, h₂, -⟩ := claimTask_cases h
  obtain ⟨hmem, hcand⟩ := mem_candidates.mp (argmin_mem hrow)
  have hws : row.workspaceID = c.workspace := by simp_all [isCandidate]
  have hpend : row.status = .pending := by simp_all [isCandidate]
  have ht : (s.view row.id).task = some row := Table.find?_key hmem
  obtain ⟨-, -, -, hview, -⟩ := insertAttempt_eq_ok h₁
  refine ⟨row.id, ?_, ?_⟩
  · intro id' hne
    rw [← h₂, updateTasks_view_ne _ _ (by simp +contextual [isPending]) hne, hview id',
      if_neg (by simpa [claimedAttempt] using hne.symm), append_nil]
  · intro l hd
    obtain ⟨past, rfl, hv, hended, -⟩ := hd.atRest_inv ht (by rw [hpend]; rfl)
    have hnum : (s.claimedAttempt c r row).number = past.length + 1 :=
      nextAttemptNumber_eq hv hended hws
    have hset := setIf_pos (f := (Task.leaseTo c.now r.workerID (c.now + r.leaseDuration)
      r.attemptID).set) (show isPending c row.id row = true by simp [isPending, hws, hpend])
    have hv' : s'.view row.id = ⟨some ((Task.leaseTo c.now r.workerID (c.now + r.leaseDuration)
        r.attemptID).set row), past ++ [s.claimedAttempt c r row], []⟩ := by
      simp [← h₂, hview, hv, hset, claimedAttempt]
    rw [hpend]
    have hd : Describes (s'.view row.id) (.held .leased _ _ _) := .held hv'
      (hended.of_workspace rfl) ⟨rfl, rfl, hws.symm, hnum, rfl, rfl, rfl⟩
    exact ⟨_, .claim _ _ _, hd⟩

theorem releaseTask_moves (hg : s.Good) (h : s.releaseTask c id = .ok s') : Moves s s' id := by
  simp only [releaseTask, bind_eq_ok, require_eq_ok, pure_eq_ok] at h
  obtain ⟨s₁, h₁, -, hany, h₂⟩ := h
  obtain ⟨t, ht, hpt⟩ := task_of_any id hany (by simp +contextual)
  have hacts := acts_of_attempts_tasks h₁ h₂
  rw [updateAttempts_view h₁] at ht
  have hactive : t.workspaceID = c.workspace ∧ t.status.isActive = true := by
    simp_all
  refine hacts.moves hg ht hpt (by simp +contextual) ?_ (fun _ _ => rfl)
    (isHeld_of_isActive hactive.2) ?_
  · intro b hb
    simp only [currentAttemptID_eq ht hactive.1, Bool.and_eq_true, beq_iff_eq] at hb
    exact hb.1.1.symm
  · intro phase past a hh ha hended hv
    have hphase : phase ≠ .waiting := Phase.task_isActive.mp (hh.task ▸ hactive.2)
    have hcur : s.currentAttemptID c id = some a.id :=
      (currentAttemptID_eq ht hactive.1).trans hh.current
    rw [setIf_pos (by simp [hcur, hh.workspace, hactive.1, hh.attempt,
      Phase.attempt_isActive.mpr hphase]), Phase.waits_of_ne hh.waits hphase] at hv
    exact ⟨_, .requeue phase _ _ _ hphase, .end hv hended hh.workspace hh.number rfl rfl hh.current⟩

theorem renewLease_moves {worker : WorkerID} {d : Duration} (hg : s.Good)
    (h : s.renewLease c id worker d = .ok s') : Moves s s' id := by
  simp only [renewLease, bind_eq_ok, require_eq_ok] at h
  obtain ⟨-, hany, h⟩ := h
  obtain ⟨t, ht, hpt⟩ := task_of_any id hany (by simp +contextual)
  have hheld : t.workspaceID = c.workspace ∧ t.workerID = some worker ∧
      t.status.isHeld := by simp_all
  have hcur := currentAttemptID_eq ht hheld.1
  have hacts := acts_of_tasks_attempts h
  simp only [currentAttemptID_updateTasks (Task.renew c.now (c.now + d)) fun _ => rfl, hcur]
    at hacts
  refine hacts.moves hg ht hpt (by simp +contextual) ?_ (fun _ _ => rfl)
    hheld.2.2 ?_
  · intro b hb
    simp only [Bool.and_eq_true, beq_iff_eq] at hb
    exact hb.1.1.1.symm
  · intro phase past a hh ha hended hv
    have hw := hh.worker.symm.trans hheld.2.1
    rw [setIf_pos (by simp [hh.current, hh.workspace, hheld.1, hh.attempt,
      some.inj hw])] at hv
    have hd := Describes.held hv hended ⟨hh.task, hh.attempt, hh.workspace, hh.number, hh.worker,
      hh.current, hh.waits⟩
    exact ⟨_, .stay _, hd⟩

section Report

variable {t : Task} {phase : Phase} {past : List ExecutionAttempt} {a : ExecutionAttempt}
  {status : TaskStatus} {message errorType : String}

theorem TaskStatus.isReportable_cases (h : status.isReportable) :
    status = .running ∨ status.isTerminal = true := by
  cases status <;> simp_all [isReportable, isTerminal]

theorem TaskStatus.isHeld_of_isTerminal (h : status.isTerminal) :
    status.isHeld = false ∧ status.attemptStatus.isOpen = false := by
  cases status <;> simp_all [isTerminal, isHeld, attemptStatus,
    ExecutionAttemptStatus.isOpen]

theorem report_step {waits : List HumanIntervention} (hh : Holds phase t past.length a waits)
    (hended : Ended ((Task.report c.now status message errorType).set t) past)
    (hstatus : status.isReportable)
    (hphase : phase ≠ .waiting ∨ status.mayCloseHumanWait = true)
    (hv : s'.view id = ⟨some ((Task.report c.now status message errorType).set t),
      past ++ [(ExecutionAttempt.report c.now status message errorType).set a], []⟩) :
    ∃ l', Life.Step (.held phase a.id a.workerID past.length) l' ∧ Describes (s'.view id) l' := by
  rcases TaskStatus.isReportable_cases hstatus with rfl | hterm
  · have hp : phase ≠ .waiting := by
      rcases hphase with h | h
      · exact h
      · cases h
    have hd : Describes (s'.view id) (.held .running _ _ _) := .held hv hended
      ⟨rfl, rfl, hh.workspace, hh.number, hh.worker, hh.current, rfl⟩
    exact ⟨_, .start phase _ _ _ hp, hd⟩
  · obtain ⟨hrest, hclosed⟩ := TaskStatus.isHeld_of_isTerminal hterm
    exact ⟨_, .finish phase _ _ _ status hterm,
      .end hv hended hh.workspace hh.number hclosed hrest hh.current⟩

theorem waits_closed {waits : List HumanIntervention} {m : Bool} {r : HumanIntervention → Bool}
    (hw : phase.Waits a waits) (hm : phase ≠ .waiting ∨ m = true)
    (hr : ∀ h ∈ waits, h.workspaceID = a.workspaceID → h.attemptID = a.id → r h = true) :
    (waits.filter fun h => !(m && r h)) = [] := by
  by_cases hp : phase = .waiting
  · subst hp
    obtain ⟨h, rfl, hws, ha, -⟩ := hw
    have := hr h (mem_singleton_self h) hws ha
    simp_all
  · rw [Phase.waits_of_ne hw hp, filter_nil]

theorem phase_of_reportable (hh : t.status = phase.task)
    (h : (t.status.isActive || (t.status == .waitingHuman && status.mayCloseHumanWait))) :
    phase ≠ .waiting ∨ status.mayCloseHumanWait = true := by
  rw [hh] at h
  cases phase <;> simp_all [Phase.task, isActive]

theorem isHeld_of_reportable
    (h : (t.status.isActive || (t.status == .waitingHuman && status.mayCloseHumanWait))) :
    t.status.isHeld := by
  cases hs : t.status <;> simp_all [isActive, isHeld]

theorem updateTaskStatus_moves {worker : WorkerID} (hg : s.Good) (hstatus : status.isReportable)
    (h : s.updateTaskStatus c id worker status message errorType = .ok s') : Moves s s' id := by
  simp only [updateTaskStatus, bind_eq_ok, require_eq_ok] at h
  obtain ⟨-, hany, h⟩ := h
  obtain ⟨t, ht, hpt⟩ := task_of_any id hany (by simp +contextual)
  have hws : t.workspaceID = c.workspace := by simp_all
  have hworker : t.workerID = some worker := by simp_all
  have hactive : (t.status.isActive || (t.status == .waitingHuman && status.mayCloseHumanWait)) =
      true := by simp_all
  have hacts := acts_of_report (by decide) h
  simp only [currentAttemptID_decide, currentAttemptID_eq ht hws,
    currentAttemptID_updateTasks (Task.report c.now status message errorType) fun _ => rfl] at hacts
  refine hacts.moves hg ht hpt (by simp +contextual) ?_ ?_ (isHeld_of_reportable hactive) ?_
  · intro b hb
    simp only [Bool.and_eq_true, beq_iff_eq] at hb
    exact hb.1.1.symm
  · intro id' hne
    refine filter_eq_self.mpr fun h hh => ?_
    have := (mem_waits.mp hh).2.1
    simp [this, hne]
  · intro phase past a hh ha hended hv
    have hphase := phase_of_reportable hh.task hactive
    have hw := hh.worker.symm.trans hworker
    rw [setIf_pos (by simp [hh.current, hh.workspace, hws, some.inj hw]),
      waits_closed hh.waits hphase] at hv
    · exact report_step hh hended hstatus hphase hv
    · intro h hm hhw hha
      obtain ⟨-, hid, hp⟩ := mem_waits.mp hm
      simp [hhw, hha, hid, hp, hh.workspace, hws, hh.current]

theorem updateTaskStatusForAttempt_moves {worker : WorkerID} {attempt : AttemptID}
    {repeated : Bool} (hg : s.Good)
    (h : s.updateTaskStatusForAttempt c id worker attempt status message errorType =
      .ok (s', repeated)) : Moves s s' id := by
  obtain ⟨t, b, htb, hworker, hbw, hcur, hstatus, ⟨-, rfl, -⟩ | ⟨-, hactive, -, -, h⟩⟩ :=
    updateTaskStatusForAttempt_cases h
  · exact .refl s' id
  obtain ⟨ht, hws, -⟩ := attemptOfTask_eq_some.mp htb
  simp only [reportForAttempt, bind_eq_ok, require_eq_ok] at h
  obtain ⟨-, -, -, -, h⟩ := h
  have hacts := acts_of_report (by decide) h
  refine hacts.moves hg ht ?_ (by simp +contextual) ?_ ?_ (isHeld_of_reportable hactive) ?_
  · simp [hws, view_task_id ht, hworker, hcur]
  · intro b hb
    simp only [Bool.and_eq_true, beq_iff_eq] at hb
    rw [hcur, hb.1.1.2]
  · intro id' hne
    refine filter_eq_self.mpr fun h hh => ?_
    have := (mem_waits.mp hh).2.1
    simp [this, hne]
  · intro phase past a hh ha hended hv
    have hphase := phase_of_reportable hh.task hactive
    have hw := hh.worker.symm.trans hworker
    have hac := hh.current.symm.trans hcur
    rw [setIf_pos (by simp [hh.workspace, hws, some.inj hw, some.inj hac, ha]),
      waits_closed hh.waits hphase] at hv
    · exact report_step hh hended hstatus hphase hv
    · intro h hm hhw hha
      obtain ⟨-, hid, hp⟩ := mem_waits.mp hm
      simp [hhw, hha, hid, hp, hh.workspace, hws, some.inj hac]

end Report

theorem waits_filter_ne (r : HumanIntervention → Bool) (hr : ∀ h, r h → h.taskID = id)
    (id' : TaskID) (hne : id' ≠ id) :
    ((s.view id').waits.filter fun h => !r h) = (s.view id').waits := by
  refine filter_eq_self.mpr fun h hh => ?_
  rw [Bool.not_eq_true']
  by_contra hrh
  exact hne ((mem_waits.mp hh).2.1.symm.trans (hr h (by simpa using hrh)))

theorem cancel_cancellable {t : Task} (hg : s.Good) (ht : (s.view id).task = some t)
    (hws : t.workspaceID = c.workspace) (hstatus : t.status.isCancellable)
    (hacts : Acts s s' (fun t => t.id == id && t.workspaceID == c.workspace && t.status.isCancellable)
      (Task.cancel c.now)
      (fun a => some a.id == t.currentAttemptID && a.workspaceID == c.workspace &&
        (a.status == .leased || a.status == .waitingHuman))
      (ExecutionAttempt.cancel c.now)
      fun id' => (s.view id').waits.filter fun h =>
        !(h.workspaceID == c.workspace && h.taskID == id && h.status == .pending)) :
    Moves s s' id := by
  have hpt : (t.id == id && t.workspaceID == c.workspace && t.status.isCancellable) := by
    simp [view_task_id ht, hws, hstatus]
  have hq : ∀ b : ExecutionAttempt, (some b.id == t.currentAttemptID &&
      b.workspaceID == c.workspace && (b.status == .leased || b.status == .waitingHuman)) →
      t.currentAttemptID = some b.id := by
    intro b hb
    simp only [Bool.and_eq_true, beq_iff_eq] at hb
    exact hb.1.1.symm
  have hw := waits_filter_ne (s := s) (fun h =>
    h.workspaceID == c.workspace && h.taskID == id && h.status == .pending)
    fun h hr => (by simp_all : h.taskID = id)
  by_cases hpend : t.status = .pending
  · constructor
    · intro id' hne
      exact hacts.frame hg ht (by simp +contextual) hq hw hne
    · intro l hd
      have hopen : ∀ b : ExecutionAttempt, (some b.id == t.currentAttemptID &&
          b.workspaceID == c.workspace && (b.status == .leased || b.status == .waitingHuman)) =
          true → b.status.isOpen := by
        intro b hb
        simp only [Bool.and_eq_true, Bool.or_eq_true, beq_iff_eq] at hb
        rcases hb.2 with h | h <;> rw [h] <;> rfl
      obtain ⟨past, rfl, hv₀, hv, hended, hcur⟩ := hacts.atRest ht hpt hopen (by rw [hpend]; rfl) hd
      rw [hv₀, filter_nil] at hv
      rw [hpend]
      exact ⟨_, .drop past.length, .atRest hv hended rfl hcur⟩
  · have hheld : t.status.isHeld := by
      revert hstatus hpend
      cases t.status <;> simp [isCancellable, isHeld]
    refine hacts.moves hg ht hpt (by simp +contextual) hq hw hheld ?_
    intro phase past a hh ha hended hv
    have hopen : a.status = .leased ∨ a.status = .waitingHuman := by
      rw [hh.attempt]
      rw [hh.task] at hstatus
      cases phase <;> simp_all [Phase.task, Phase.attempt, isCancellable]
    have hclosed := waits_closed (m := true) (r := fun h =>
      h.workspaceID == c.workspace && h.taskID == id && h.status == .pending) hh.waits (.inr rfl)
      fun h hm hhw _ => by
        obtain ⟨-, hid, hp⟩ := mem_waits.mp hm
        simp [hhw, hid, hp, hh.workspace, hws]
    simp only [Bool.true_and] at hclosed
    rw [setIf_pos (by simp [hh.current, hh.workspace, hws, hopen]), hclosed] at hv
    exact ⟨_, .finish phase _ _ _ .cancelled rfl, .end hv hended hh.workspace hh.number rfl rfl hh.current⟩

theorem cancelTask_moves (hg : s.Good) (h : s.cancelTask c id = .ok s') : Moves s s' id := by
  simp only [cancelTask] at h
  split at h
  · rename_i hany
    obtain ⟨t, ht, hpt⟩ := task_of_any id hany (by simp +contextual)
    have hws : t.workspaceID = c.workspace := by simp_all
    have hstatus : t.status.isCancellable := by simp_all
    simp only [bind_eq_ok, pure_eq_ok] at h
    obtain ⟨s₁, h₁, h₂⟩ := h
    have hacts := (acts_of_tasks_attempts h₁).decide (by decide) h₂
    simp only [currentAttemptID_eq ht hws,
      currentAttemptID_updateTasks (Task.cancel c.now) fun _ => rfl] at hacts
    exact cancel_cancellable hg ht hws hstatus hacts
  · split at h
    · rename_i hany
      obtain ⟨t, ht, hpt⟩ := task_of_any id hany (by simp +contextual)
      have hstatus : t.status = .running := by simp_all
      refine (acts_of_tasks (ExecutionAttempt.cancel c.now) (Except.ok.inj h)).moves hg ht hpt
        (by simp +contextual) (by simp) (fun _ _ => rfl) (by rw [hstatus]; rfl) ?_
      intro phase past a hh ha hended hv
      rw [setIf_neg rfl] at hv
      have hd := Describes.held hv hended ⟨hh.task, hh.attempt, hh.workspace, hh.number,
        hh.worker, hh.current, hh.waits⟩
      exact ⟨_, .stay _, hd⟩
    · split at h <;> cases h

theorem retryTask_moves (hg : s.Good) (h : s.retryTask c id = .ok s') : Moves s s' id := by
  simp only [retryTask] at h
  split at h
  · rename_i hany
    obtain ⟨t, ht, hpt⟩ := task_of_any id hany (by simp +contextual)
    have hstatus : t.status.isRetryable := by simp_all
    have hrest : t.status.isHeld = false := by
      revert hstatus
      cases t.status <;> simp [isRetryable, isHeld]
    have hacts := acts_of_tasks (ExecutionAttempt.cancel c.now) (Except.ok.inj h)
    constructor
    · intro id' hne
      exact hacts.frame hg ht (by simp +contextual) (by simp) (fun _ _ => rfl) hne
    · intro l hd
      obtain ⟨past, rfl, hv₀, hv, hended, hcur⟩ := hacts.atRest ht hpt (by simp) hrest hd
      rw [hv₀] at hv
      exact ⟨_, .retry t.status past.length hstatus, .atRest hv hended rfl hcur⟩
  · split at h <;> cases h

end Store

end Aegis
