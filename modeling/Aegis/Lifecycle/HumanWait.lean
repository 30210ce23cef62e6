import Aegis.Lifecycle.Simulation

/-!
# Lifecycle.HumanWait

The operations on human interventions as steps of the lifecycle. A pending intervention is the
whole evidence for a wait: its task, attempt and worker are those that hold the task.
-/

namespace Aegis

open List Option ExecutionAttempt

namespace Store

variable {s s' : Store} {c : Ctx} {h : HumanIntervention}

theorem createHumanIntervention_moves {input : HumanInterventionInput} (hg : s.Good)
    (h : s.createHumanIntervention c input = .ok s') : Moves s s' input.taskID := by
  simp only [createHumanIntervention, bind_eq_ok, require_eq_ok, Bool.and_eq_true] at h
  obtain ⟨-, -, -, -, -, ⟨hany, -⟩, s₁, h₁, s₂, h₂, -, -, -, -, s₃, h₃, h₄⟩ := h
  obtain ⟨t, ht, hpt⟩ := task_of_any input.taskID hany (by simp +contextual)
  obtain ⟨-, -, -, hwaits⟩ := insertIntervention_eq_ok (h := input.row c) rfl h₂
  have hview : ∀ id, s₂.view id = ⟨(s.view id).task, (s.view id).attempts,
      (s.view id).waits ++ if input.taskID = id then [input.row c] else []⟩ := by
    intro id
    rw [hwaits id, insertCheckpoint_view h₁]
    rfl
  have hs' : ∀ id, s'.view id = s₃.view id := fun id => by
    rw [← pure_eq_ok.mp h₄, insertStatusUpdate_view]
  have hacts := Acts.between (s := s) (acts_of_tasks_attempts h₃)
    (fun id => by rw [hview id]; exact ⟨rfl, rfl⟩) hs'
  simp only [hview] at hacts
  have hws : t.workspaceID = c.workspace := by simp_all
  have hcur : t.currentAttemptID = some input.attemptID := by simp_all
  have hworker : t.workerID = some input.workerID := by simp_all
  have hactive : t.status.isActive := by simp_all
  refine hacts.moves hg ht hpt (by simp +contextual) ?_ ?_
    (TaskStatus.isHeld_of_isActive hactive) ?_
  · intro b hb
    simp only [Bool.and_eq_true, beq_iff_eq] at hb
    rw [hcur, hb.1.1.1.2]
  · intro id' hne
    rw [if_neg hne.symm, append_nil]
  · intro phase past a hh ha hended hv
    have hphase : phase ≠ .waiting := Phase.task_isActive.mp (hh.task ▸ hactive)
    have hac := mem_unique hh.current hcur
    have haw := mem_unique hh.worker hworker
    rw [setIf_pos (by simp [hh.workspace, hws, hac, ha, haw, hh.attempt,
      Phase.attempt_isActive.mpr hphase]), Phase.waits_of_ne hh.waits hphase, if_pos rfl] at hv
    have hd : Describes (s'.view input.taskID) (.held .waiting _ _ _) := .held hv hended
      ⟨rfl, rfl, hh.workspace, hh.number, hh.worker, hh.current,
        input.row c, rfl, (hh.workspace.trans hws).symm, hac.symm, haw.symm⟩
    exact ⟨_, .suspend phase _ _ _ hphase, hd⟩

section Settle

variable {errorType message : String} {g : TaskUpdate} {f : AttemptUpdate}

theorem failWaitingHumanAttempt_cases (hf : s.failWaitingHumanAttempt c h errorType message = .ok s') :
    s.tasks.any (waitsFor c.workspace h) ∧
      Acts s s' (waitsFor c.workspace h) (Task.failWaiting c.now errorType message)
        (suspendedBy c.workspace h) (failWaiting c.now errorType message)
        fun id => (s.view id).waits := by
  simp only [failWaitingHumanAttempt, bind_eq_ok, require_eq_ok] at hf
  obtain ⟨-, hany, -, -, s₁, h₁, h₂⟩ := hf
  refine ⟨hany, fun id => ?_⟩
  rw [← pure_eq_ok.mp h₂, insertStatusUpdate_view]
  exact acts_of_tasks_attempts h₁ id

theorem resumeWaitingHumanAttempt_cases {d : Duration} (hf : s.resumeWaitingHumanAttempt c h d = .ok s') :
    s.tasks.any (waitsFor c.workspace h) ∧
      Acts s s' (waitsFor c.workspace h) (Task.resume c.now (c.now + d))
        (suspendedBy c.workspace h) (resume (c.now + d))
        fun id => (s.view id).waits := by
  simp only [resumeWaitingHumanAttempt, bind_eq_ok, require_eq_ok] at hf
  obtain ⟨-, hany, -, -, h₁⟩ := hf
  exact ⟨hany, acts_of_tasks_attempts h₁⟩

/-- `WHERE workspace_id = ? AND id = ? AND status = 'pending'`, for the row `h`. -/
def isRow (workspace : WorkspaceID) (id : String) (k : HumanIntervention) : Bool :=
  k.workspaceID == workspace && k.id == id && k.status == .pending

theorem settle_moves (hg : s.Good) (hh : h ∈ (s.view h.taskID).waits)
    (hany : s.tasks.any (waitsFor c.workspace h))
    (hacts : Acts s s' (waitsFor c.workspace h) g (suspendedBy c.workspace h) f fun id =>
      (s.view id).waits.filter fun k => !isRow c.workspace h.id k)
    (hstep : ∀ t past a, Holds .waiting t past.length a [h] → Ended (g.set t) past →
      s'.view h.taskID = ⟨some (g.set t), past ++ [f.set a], []⟩ →
      ∃ l', Life.Step (.held .waiting a.id a.workerID past.length) l' ∧
        Describes (s'.view h.taskID) l') : Moves s s' h.taskID := by
  obtain ⟨t, ht, hpt⟩ := task_of_any h.taskID hany (by simp +contextual [waitsFor])
  have hws : t.workspaceID = c.workspace := by simp_all [waitsFor]
  have hstatus : t.status = .waitingHuman := by simp_all [waitsFor]
  have hcur : t.currentAttemptID = some h.attemptID := by simp_all [waitsFor]
  have hworker : t.workerID = some h.workerID := by simp_all [waitsFor]
  obtain ⟨hrow, -, hp⟩ := mem_waits.mp hh
  refine hacts.moves hg ht hpt (by simp +contextual [waitsFor]) ?_ ?_ (by rw [hstatus]; rfl) ?_
  · intro b hb
    simp only [suspendedBy, Bool.and_eq_true, beq_iff_eq] at hb
    rw [hcur, hb.1.1.1.2]
  · refine fun id' hne => filter_eq_self.mpr fun k hk => ?_
    obtain ⟨hkr, hkid, -⟩ := mem_waits.mp hk
    have hkh : k.id ≠ h.id := fun he => hne (by
      rw [← hkid, Table.eq_of_key hkr hrow he])
    simp [isRow, hkh]
  · intro phase past a hho ha hended hv
    obtain rfl : phase = .waiting := Phase.task_eq_waiting.mp (hho.task.symm.trans hstatus)
    obtain ⟨k, hk, hkw, -⟩ := hho.waits
    have hac := mem_unique hho.current hcur
    have haw := mem_unique hho.worker hworker
    rw [hk] at hh hho hv
    obtain rfl := mem_singleton.mp hh
    have hsusp : suspendedBy c.workspace h a := by
      simp [suspendedBy, hho.workspace, hws, hac, ha, haw, hho.attempt, Phase.attempt]
    have hclosed : isRow c.workspace h.id h := by
      simp [isRow, hp, hkw, hho.workspace, hws]
    rw [setIf_pos hsusp] at hv
    exact hstep t past a hho hended (by simpa [hclosed] using hv)

theorem failWaiting_moves (hg : s.Good) (hh : h ∈ (s.view h.taskID).waits)
    (hany : s.tasks.any (waitsFor c.workspace h))
    (hacts : Acts s s' (waitsFor c.workspace h) (Task.failWaiting c.now errorType message)
      (suspendedBy c.workspace h) (failWaiting c.now errorType message) fun id =>
      (s.view id).waits.filter fun k => !isRow c.workspace h.id k) : Moves s s' h.taskID := by
  refine settle_moves hg hh hany hacts ?_
  intro t past a hho hended hv
  exact ⟨_, .finish .waiting _ _ _ .failed rfl, .end hv hended hho.workspace hho.number rfl rfl hho.current⟩

theorem expireHumanIntervention_moves (hg : s.Good) (hh : h ∈ (s.view h.taskID).waits)
    (hf : s.expireHumanIntervention c h = .ok s') : Moves s s' h.taskID := by
  obtain ⟨hany, hacts⟩ := failWaitingHumanAttempt_cases hf
  exact failWaiting_moves hg hh hany (hacts.of_decide (by decide))

theorem expireHumanIntervention_failed (hf : s.expireHumanIntervention c h = .ok s') :
    ∃ t, (s'.view h.taskID).task = some t ∧ t.status = .failed := by
  obtain ⟨hany, hacts⟩ := failWaitingHumanAttempt_cases hf
  obtain ⟨t, ht, hpt⟩ := task_of_any h.taskID hany (by simp +contextual [waitsFor])
  have hv := hacts h.taskID
  have ht' : ((s.decidePending c h.id .expired "system:expiry" "operator decision expired").view
      h.taskID).task = some t := ht
  rw [ht', map_some, setIf_pos hpt] at hv
  exact ⟨_, congrArg TaskView.task hv, rfl⟩

theorem Good.waiting_any (hg : s.Good) (hh : h ∈ (s.view h.taskID).waits)
    (hws : h.workspaceID = c.workspace) :
    s.tasks.any (waitsFor c.workspace h) ∧
      s.executionAttempts.any (suspendedBy c.workspace h) := by
  obtain ⟨t, past, a, hv, hho, hhw, hha, hhk⟩ := hg.wait hh
  have ht : (s.view h.taskID).task = some t := by rw [hv]
  have ha : a ∈ (s.view h.taskID).attempts := by rw [hv]; simp
  obtain ⟨har, hat⟩ := mem_attempts.mp ha
  have hwaits : waitsFor c.workspace h t := by
    simp [waitsFor, view_task_id ht, ← hho.workspace, ← hhw, hws, hho.current, hha, hho.worker, hhk,
      hho.task, Phase.task]
  have hsusp : suspendedBy c.workspace h a := by
    simp [suspendedBy, ← hhw, hws, hha, hat, hhk, hho.attempt, Phase.attempt]
  exact ⟨any_of_task ht hwaits, Table.any_eq_true.mpr ⟨a, har, hsusp⟩⟩

theorem suspendedBy_open {workspace : WorkspaceID} {a : ExecutionAttempt}
    (ha : suspendedBy workspace h a) : a.status.isOpen = true := by
  have hstatus : a.status = .waitingHuman := by simp_all [suspendedBy]
  rw [hstatus]
  rfl

theorem expireHumanIntervention_ok (hg : s.Good) (hh : h ∈ (s.view h.taskID).waits)
    (hws : h.workspaceID = c.workspace) : ∃ s', s.expireHumanIntervention c h = .ok s' := by
  obtain ⟨hany, hsany⟩ := hg.waiting_any hh hws
  obtain ⟨s₁, h₁⟩ := updateAttempts_of_open
    (s := ((s.decidePending c h.id .expired "system:expiry" "operator decision expired").updateTasks
      (waitsFor c.workspace h) (Task.failWaiting c.now "HumanTimeout" "operator decision expired")))
    (failWaiting c.now "HumanTimeout" "operator decision expired")
    fun _ _ hb => suspendedBy_open hb
  simp only [expireHumanIntervention, failWaitingHumanAttempt, bind_eq_ok, require_eq_ok, pure_eq_ok]
  exact ⟨_, (), hany, (), hsany, s₁, h₁, rfl⟩

theorem approve_ok {id checkpointID : String} (note actor : String) (d : Duration) (hg : s.Good)
    (hfind : s.humanInterventions.find? id = some h) (hws : h.workspaceID = c.workspace)
    (hp : h.status = .pending) (hnow : c.now < h.expiresAt) (hne : checkpointID.isEmpty = false)
    (hcheckpoint : checkpointID = h.checkpointID) :
    ∃ s', s.decideHumanIntervention c id checkpointID .approved note actor d = .ok (s', none) := by
  have hh : h ∈ (s.view h.taskID).waits := mem_waits.mpr ⟨Table.mem_of_find? hfind, rfl, hp⟩
  obtain ⟨hany, hsany⟩ := hg.waiting_any hh hws
  obtain ⟨s₁, h₁⟩ := updateAttempts_of_open
    (s := s.updateTasks (waitsFor c.workspace h) (Task.resume c.now (c.now + d)))
    (resume (c.now + d)) fun _ _ hb => suspendedBy_open hb
  have hresume : s.resumeWaitingHumanAttempt c h d = .ok s₁ := by
    simp only [resumeWaitingHumanAttempt, bind_eq_ok, require_eq_ok]
    exact ⟨(), hany, (), hsany, h₁⟩
  have hrow : ((s.humanInterventions.find? id).filter fun h => h.workspaceID == c.workspace) = some h := by
    rw [hfind, filter_some_pos]
    simpa using hws
  subst hcheckpoint
  unfold decideHumanIntervention
  rw [hrow]
  simp [require, hp, hne, not_le.mpr hnow, hresume, bind, Except.bind, pure, Except.pure]

/-- Expiry closes every overdue intervention it reads, whatever the order: it never fails, it
moves only tasks that wait, and it fails each of these. -/
theorem expire_all (hs : List HumanIntervention) (hg : s.Good)
    (hwaits : ∀ h ∈ hs, h ∈ (s.view h.taskID).waits ∧ h.workspaceID = c.workspace)
    (hnd : hs.Nodup) :
    ∃ s', hs.foldlM (expireHumanIntervention c) s = .ok s' ∧ s'.Good ∧ Simulates s s' ∧
      (∀ id, (∀ h ∈ hs, h.taskID ≠ id) → s'.view id = s.view id) ∧
      ∀ h ∈ hs, ∃ t, (s'.view h.taskID).task = some t ∧ t.status = .failed := by
  induction hs generalizing s with
  | nil => exact ⟨s, foldlM_nil, hg, .refl s, fun _ _ => rfl, by simp⟩
  | cons h hs ih =>
    obtain ⟨hnot, hnd⟩ := nodup_cons.mp hnd
    obtain ⟨⟨hh, hws⟩, hrest⟩ := forall_mem_cons.mp hwaits
    obtain ⟨s₁, h₁⟩ := expireHumanIntervention_ok hg hh hws
    have hm := expireHumanIntervention_moves hg hh h₁
    -- Another pending intervention belongs to another task, which this expiry leaves alone.
    have hother : ∀ k ∈ hs, k.taskID ≠ h.taskID := by
      intro k hk he
      have hkw := (hrest k hk).1
      rw [he] at hkw
      exact hnot (hg.wait_unique hh hkw ▸ hk)
    obtain ⟨s₂, h₂, hg₂, hsim, hframe, hfailed⟩ := ih (hm.simulates.good hg) (fun k hk => by
      rw [hm.frame _ (hother k hk)]
      exact hrest k hk) hnd
    refine ⟨s₂, ?_, hg₂, hm.simulates.trans hsim, ?_, ?_⟩
    · rw [foldlM_cons, h₁]
      exact h₂
    · intro id hid
      obtain ⟨hne, hid⟩ := forall_mem_cons.mp hid
      rw [hframe id hid, hm.frame id hne.symm]
    · intro k hk
      rcases mem_cons.mp hk with rfl | hk
      · obtain ⟨t, ht, hst⟩ := expireHumanIntervention_failed h₁
        rw [hframe _ hother]
        exact ⟨t, ht, hst⟩
      · exact hfailed k hk

theorem overdue_waits (s : Store) (c : Ctx) (id : String) (taskID : TaskID) :
    ∀ h ∈ s.overdue c id taskID, h ∈ (s.view h.taskID).waits ∧ h.workspaceID = c.workspace := by
  intro h hh
  obtain ⟨hr, hc⟩ := mem_filter.mp hh
  simp only [Bool.and_eq_true, beq_iff_eq] at hc
  exact ⟨mem_waits.mpr ⟨hr, rfl, hc.1.1.1.2⟩, hc.1.1.1.1⟩

theorem overdue_nodup (s : Store) (c : Ctx) (id : String) (taskID : TaskID) :
    (s.overdue c id taskID).Nodup :=
  (s.humanInterventions.nodup.of_map _).filter _

theorem expireHumanInterventions_ok (hg : s.Good) (c : Ctx) (id : String) (taskID : TaskID) :
    ∃ s', s.expireHumanInterventions c id taskID = .ok s' ∧ s'.Good ∧ Simulates s s' ∧
      ∀ h ∈ s.overdue c id taskID, ∃ t, (s'.view h.taskID).task = some t ∧ t.status = .failed := by
  obtain ⟨s', h', hg', hsim, -, hfailed⟩ := expire_all _ hg (overdue_waits s c id taskID)
    (overdue_nodup s c id taskID)
  exact ⟨s', h', hg', hsim, hfailed⟩

theorem decideHumanIntervention_moves {id checkpointID note actor : String}
    {decision : HumanInterventionStatus} {d : Duration} {e : Option StoreError} (hg : s.Good)
    (hf : s.decideHumanIntervention c id checkpointID decision note actor d = .ok (s', e)) :
    ∃ id', Moves s s' id' := by
  simp only [decideHumanIntervention, bind_eq_ok, require_eq_ok] at hf
  obtain ⟨-, hdec, hf⟩ := hf
  split at hf
  · cases hf
  · rename_i h hfind
    obtain ⟨hfind, hws⟩ := filter_eq_some_iff.mp hfind
    obtain ⟨hmem, rfl⟩ := Table.find?_eq_some.mp hfind
    simp only [bind_eq_ok, require_eq_ok, beq_iff_eq] at hf
    obtain ⟨-, hp, hf⟩ := hf
    have hh : h ∈ (s.view h.taskID).waits := mem_waits.mpr ⟨hmem, rfl, hp⟩
    refine ⟨h.taskID, ?_⟩
    split at hf
    · simp only [bind_eq_ok, pure_eq_ok, Prod.mk.injEq] at hf
      obtain ⟨s₁, h₁, rfl, -⟩ := hf
      exact expireHumanIntervention_moves hg hh h₁
    · simp only [bind_eq_ok, require_eq_ok] at hf
      obtain ⟨-, -, hf⟩ := hf
      split at hf
      · rename_i happ
        simp only [bind_eq_ok, pure_eq_ok, Prod.mk.injEq] at hf
        obtain ⟨s₁, h₁, rfl, -⟩ := hf
        obtain ⟨hany, hacts⟩ := resumeWaitingHumanAttempt_cases h₁
        have hne : decision ≠ .pending := by
          rintro rfl
          simp at hdec
        have hm : Moves s (s₁.decidePending c h.id decision actor note) h.taskID := by
          refine settle_moves hg hh hany (hacts.decide hne rfl) ?_
          intro t past a hho hended hv
          have hd : Describes _ (.held .running _ _ _) := .held hv hended
            ⟨rfl, rfl, hho.workspace, hho.number, hho.worker, hho.current, rfl⟩
          exact ⟨_, .resume _ _ _, hd⟩
        exact ⟨hm.frame, hm.step⟩
      · rename_i hrej
        simp only [bind_eq_ok, pure_eq_ok, Prod.mk.injEq] at hf
        obtain ⟨s₁, h₁, rfl, -⟩ := hf
        obtain ⟨hany, hacts⟩ := failWaitingHumanAttempt_cases h₁
        have hne : decision ≠ .pending := by
          rintro rfl
          simp at hdec
        exact failWaiting_moves hg hh hany (hacts.decide hne rfl)

end Settle

end Store

end Aegis
