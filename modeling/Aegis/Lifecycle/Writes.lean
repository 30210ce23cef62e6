import Aegis.Lifecycle.HumanWait

/-!
# Lifecycle.Writes

What a store call writes to the `tasks` table: it adds a task, or it sends one `SET` clause to the
row of one task, in a status that the clause is guarded by. Expiry does the latter for each request
it closes.
-/

namespace Aegis

/-- The `SET` clauses on tasks, with their arguments. -/
inductive TaskWrite where
  | lease (worker : WorkerID) (leaseUntil : Time) (attempt : AttemptID)
  | renew (leaseUntil : Time)
  | requeue | cancel | requestCancel | retry
  | report (status : TaskStatus) (message errorType : String)
  | suspend (createdAt : Time)
  | fail (errorType message : String)
  | resume (leaseUntil : Time)

namespace TaskWrite

def clause (now : Time) : TaskWrite → TaskUpdate
  | lease worker leaseUntil attempt => Task.leaseTo now worker leaseUntil attempt
  | renew leaseUntil => Task.renew now leaseUntil
  | requeue => Task.requeue now
  | cancel => Task.cancel now
  | requestCancel => Task.requestCancel now
  | retry => Task.retry now
  | report status message errorType => Task.report now status message errorType
  | suspend createdAt => Task.suspend createdAt
  | fail errorType message => Task.failWaiting now errorType message
  | resume leaseUntil => Task.resume now leaseUntil

def guard : TaskWrite → TaskStatus → Bool
  | lease _ _ _, status => status == .pending
  | renew _, status => status.isHeld
  | requeue, status => status.isActive
  | cancel, status => status.isCancellable
  | requestCancel, status => status == .running
  | retry, status => status.isRetryable
  | report new _ _, status => status.isActive || (status == .waitingHuman && new.mayCloseHumanWait)
  | suspend _, status => status.isActive
  | fail _ _, status => status == .waitingHuman
  | resume _, status => status == .waitingHuman

end TaskWrite

namespace Store

variable {s s' : Store} {c : Ctx} {id : TaskID} {now : Time}

/-- `s'` has the tasks of `s`, with one clause written to the row of `id`. -/
def Writes (s s' : Store) (now : Time) (id : TaskID) (w : TaskWrite) : Prop :=
  ∃ t, s.tasks.find? id = some t ∧ w.guard t.status = true ∧
    s'.tasks = s.tasks.updateRow id (w.clause now).onID

variable {p : Task → Bool} {w : TaskWrite}

theorem writes_of_update {t : Task}
    (ht : s.tasks.find? id = some t) (hpt : p t) (hp : ∀ t, p t → t.id = id)
    (hg : w.guard t.status) (htasks : s'.tasks = s.tasks.update p (w.clause now).onID) :
    Writes s s' now id w :=
  ⟨t, ht, hg, htasks.trans (Table.update_eq_updateRow _ hp ht hpt)⟩

theorem writes_of_any (hany : s.tasks.any p)
    (hp : ∀ t, p t → t.id = id ∧ w.guard t.status = true)
    (htasks : s'.tasks = s.tasks.update p (w.clause now).onID) : Writes s s' now id w := by
  obtain ⟨t, ht, hpt⟩ := task_of_any id hany fun t h => (hp t h).1
  exact writes_of_update ht hpt (fun t h => (hp t h).1) (hp t hpt).2 htasks

theorem claimTask_writes {m : Int} {r : ClaimRequest} {claim : TaskClaim}
    (h : s.claimTask m c r = .ok (s', claim)) :
    (s.activeCount c.workspace r.workerID : Int) < m ∧
      ∃ t, (s.candidates c r.browserProfileID).argmin (queueKey r) = some t ∧
        t.workspaceID = c.workspace ∧ s.tasks.find? t.id = some t ∧
        Writes s s' c.now t.id (.lease r.workerID (c.now + r.leaseDuration) r.attemptID) := by
  obtain ⟨hlimit, row, s₁, hhead, h₁, rfl, -⟩ := claimTask_cases h
  obtain ⟨hmem, hcand⟩ := mem_candidates.mp (List.argmin_mem hhead)
  have hws : row.workspaceID = c.workspace := by simp_all [isCandidate]
  have hpend : row.status = .pending := by simp_all [isCandidate]
  have hrow := Table.find?_key hmem
  refine ⟨hlimit, row, hhead, hws, hrow, writes_of_update hrow (p := isPending c row.id) ?_ ?_ ?_ ?_⟩
  · simp [isPending, hws, hpend]
  · simp +contextual [isPending]
  · simp [TaskWrite.guard, hpend]
  · rw [updateTasks, (insertAttempt_eq_ok h₁).2.2.1]
    rfl

/-- `id = ? AND workspace_id = ? AND worker_id = ?`, in a status that holds the task. -/
def heldBy (c : Ctx) (id : TaskID) (worker : WorkerID) (t : Task) : Bool :=
  t.id == id && t.workspaceID == c.workspace && t.workerID == some worker && t.status.isHeld

variable {worker : WorkerID}

variable {d : Duration}

theorem renewLease_writes (h : s.renewLease c id worker d = .ok s') :
    s.tasks.any (heldBy c id worker) ∧ Writes s s' c.now id (.renew (c.now + d)) := by
  simp only [renewLease, bind_eq_ok, require_eq_ok] at h
  obtain ⟨-, hany, h⟩ := h
  refine ⟨hany, writes_of_any hany ?_ (updateAttempts_tasks h)⟩
  simp +contextual [TaskWrite.guard]

theorem releaseTask_writes (h : s.releaseTask c id = .ok s') : Writes s s' c.now id .requeue := by
  simp only [releaseTask, bind_eq_ok, require_eq_ok, pure_eq_ok] at h
  obtain ⟨s₁, h₁, -, hany, rfl⟩ := h
  rw [updateAttempts_tasks h₁] at hany
  refine writes_of_any hany ?_ ?_
  · simp +contextual [TaskWrite.guard]
  · rw [updateTasks, updateAttempts_tasks h₁]
    rfl

theorem tasks_decide_if {b : Bool} {p : HumanIntervention → Bool} {status : HumanInterventionStatus}
    {decidedBy note : String} :
    (if b then s.decideInterventions p status now decidedBy note else s).tasks = s.tasks := by
  split <;> rfl

variable {status : TaskStatus} {message errorType : String}

theorem updateTaskStatus_writes (h : s.updateTaskStatus c id worker status message errorType = .ok s') :
    Writes s s' c.now id (.report status message errorType) := by
  simp only [updateTaskStatus, bind_eq_ok, require_eq_ok] at h
  obtain ⟨-, hany, h⟩ := h
  refine writes_of_any hany ?_ ((updateAttempts_tasks h).trans tasks_decide_if)
  intro t ht
  simp only [Bool.and_eq_true, beq_iff_eq] at ht
  exact ⟨ht.1.1.1, ht.2⟩

theorem updateTaskStatusForAttempt_writes {attempt : AttemptID} {repeated : Bool}
    (h : s.updateTaskStatusForAttempt c id worker attempt status message errorType = .ok (s', repeated)) :
    (s' = s ∧ ∃ t, s.tasks.find? id = some t ∧ t.status = status) ∨
      Writes s s' c.now id (.report status message errorType) := by
  obtain ⟨t, b, htb, hworker, -, hcur, -, ⟨-, rfl, hsame, -⟩ | ⟨-, hactive, -, -, h⟩⟩ :=
    updateTaskStatusForAttempt_cases h
  · exact .inl ⟨rfl, t, (attemptOfTask_eq_some.mp htb).1, hsame⟩
  right
  obtain ⟨ht, hws, -⟩ := attemptOfTask_eq_some.mp htb
  simp only [reportForAttempt, bind_eq_ok, require_eq_ok] at h
  obtain ⟨-, -, -, -, h⟩ := h
  refine writes_of_update ht ?_ ?_ hactive ((updateAttempts_tasks h).trans tasks_decide_if)
  · simp [hws, view_task_id ht, hworker, hcur]
  · simp +contextual

theorem createHumanIntervention_writes {input : HumanInterventionInput}
    (h : s.createHumanIntervention c input = .ok s') :
    Writes s s' c.now input.taskID (.suspend (input.createdAtOrNow c)) := by
  simp only [createHumanIntervention, bind_eq_ok, require_eq_ok] at h
  obtain ⟨-, -, -, -, -, -, s₁, h₁, s₂, h₂, -, hany, -, -, s₃, h₃, h₄⟩ := h
  have htasks : s₂.tasks = s.tasks := by
    rw [(insertIntervention_eq_ok (h := input.row c) rfl h₂).2.1]
    unfold insertCheckpoint at h₁
    split at h₁
    · cases h₁
    · cases h₁
      rfl
  rw [htasks] at hany
  refine writes_of_any hany ?_ ?_
  · simp +contextual [TaskWrite.guard]
  · rw [← pure_eq_ok.mp h₄, ← htasks]
    exact updateAttempts_tasks h₃

variable {h : HumanIntervention}

theorem failWaitingHumanAttempt_writes {errorType message : String}
    (hf : s.failWaitingHumanAttempt c h errorType message = .ok s') :
    Writes s s' c.now h.taskID (.fail errorType message) := by
  simp only [failWaitingHumanAttempt, bind_eq_ok, require_eq_ok] at hf
  obtain ⟨-, hany, -, -, s₁, h₁, h₂⟩ := hf
  refine writes_of_any hany ?_ ?_
  · simp +contextual [TaskWrite.guard, waitsFor]
  · rw [← pure_eq_ok.mp h₂]
    exact updateAttempts_tasks h₁

theorem resumeWaitingHumanAttempt_writes (hf : s.resumeWaitingHumanAttempt c h d = .ok s') :
    (∃ t, s.tasks.find? h.taskID = some t ∧ waitsFor c.workspace h t = true) ∧
      Writes s s' c.now h.taskID (.resume (c.now + d)) := by
  simp only [resumeWaitingHumanAttempt, bind_eq_ok, require_eq_ok] at hf
  obtain ⟨-, hany, -, -, h₁⟩ := hf
  refine ⟨task_of_any h.taskID hany (by simp +contextual [waitsFor]), ?_⟩
  refine writes_of_any hany ?_ (updateAttempts_tasks h₁)
  simp +contextual [TaskWrite.guard, waitsFor]

theorem cancelTask_writes (h : s.cancelTask c id = .ok s') :
    Writes s s' c.now id .cancel ∨ Writes s s' c.now id .requestCancel := by
  simp only [cancelTask] at h
  split at h
  · rename_i hany
    simp only [bind_eq_ok, pure_eq_ok] at h
    obtain ⟨s₁, h₁, rfl⟩ := h
    left
    refine writes_of_any hany ?_ (updateAttempts_tasks h₁)
    simp +contextual [TaskWrite.guard]
  · split at h
    · rename_i hany
      right
      cases h
      refine writes_of_any hany ?_ rfl
      simp +contextual [TaskWrite.guard]
    · split at h <;> cases h

theorem retryTask_writes (h : s.retryTask c id = .ok s') : Writes s s' c.now id .retry := by
  simp only [retryTask] at h
  split at h
  · rename_i hany
    cases h
    refine writes_of_any hany ?_ rfl
    simp +contextual [TaskWrite.guard]
  · split at h <;> cases h

theorem expireHumanIntervention_writes (hf : s.expireHumanIntervention c h = .ok s') :
    Writes s s' c.now h.taskID (.fail "HumanTimeout" "operator decision expired") := by
  unfold expireHumanIntervention at hf
  have hw := failWaitingHumanAttempt_writes hf
  exact hw

theorem decideHumanIntervention_writes {id checkpointID note actor : String}
    {decision : HumanInterventionStatus} {e : Option StoreError}
    (hf : s.decideHumanIntervention c id checkpointID decision note actor d = .ok (s', e)) :
    ∃ h, s.humanInterventions.find? id = some h ∧ h.workspaceID = c.workspace ∧ h.status = .pending ∧
      ((h.expiresAt ≤ c.now ∧
          Writes s s' c.now h.taskID (.fail "HumanTimeout" "operator decision expired")) ∨
        (c.now < h.expiresAt ∧ checkpointID.isEmpty = false ∧ checkpointID = h.checkpointID ∧
          ((decision = .approved ∧
              (∃ t, s.tasks.find? h.taskID = some t ∧ waitsFor c.workspace h t = true) ∧
              Writes s s' c.now h.taskID (.resume (c.now + d))) ∨
            (decision ≠ .approved ∧ Writes s s' c.now h.taskID
              (.fail "HumanRejected" "operator rejected human intervention"))))) := by
  simp only [decideHumanIntervention, bind_eq_ok, require_eq_ok] at hf
  obtain ⟨-, -, hf⟩ := hf
  split at hf
  · cases hf
  · rename_i h hfind
    obtain ⟨hfind, hws⟩ := Option.filter_eq_some_iff.mp hfind
    simp only [bind_eq_ok, require_eq_ok, beq_iff_eq] at hf hws
    obtain ⟨-, hp, hf⟩ := hf
    refine ⟨h, hfind, hws, hp, ?_⟩
    split at hf
    · rename_i hover
      simp only [bind_eq_ok, pure_eq_ok, Prod.mk.injEq] at hf
      obtain ⟨s₁, h₁, rfl, -⟩ := hf
      exact .inl ⟨hover, expireHumanIntervention_writes h₁⟩
    · rename_i hover
      simp only [bind_eq_ok, require_eq_ok, Bool.and_eq_true, Bool.not_eq_true', beq_iff_eq] at hf
      obtain ⟨-, ⟨hne, hcheckpoint⟩, hf⟩ := hf
      refine .inr ⟨not_le.mp hover, hne, hcheckpoint, ?_⟩
      split at hf
      · rename_i happroved
        simp only [bind_eq_ok, pure_eq_ok, Prod.mk.injEq] at hf
        obtain ⟨s₁, h₁, rfl, -⟩ := hf
        obtain ⟨hwaits, hwrites⟩ := resumeWaitingHumanAttempt_writes h₁
        exact .inl ⟨happroved, hwaits, hwrites⟩
      · rename_i hrejected
        simp only [bind_eq_ok, pure_eq_ok, Prod.mk.injEq] at hf
        obtain ⟨s₁, h₁, rfl, -⟩ := hf
        have hw := failWaitingHumanAttempt_writes h₁
        exact .inr ⟨hrejected, hw⟩

/-- The clause that a call other than an expiry may write in `s`, with the task and the time. -/
inductive Sends (cfg : Config) (s : Store) : Op → Time → TaskID → TaskWrite → Prop where
  | claim {c : Ctx} {r : ClaimRequest} {t : Task} :
      (s.activeCount c.workspace r.workerID : Int) < cfg.maxWorkerTasks →
      (s.candidates c r.browserProfileID).argmin (queueKey r) = some t →
      t.workspaceID = c.workspace → s.tasks.find? t.id = some t →
      Sends cfg s (.claimTask c r) c.now t.id
        (.lease r.workerID (c.now + r.leaseDuration) r.attemptID)
  | renew {c : Ctx} {id worker d} : s.tasks.any (heldBy c id worker) = true →
      Sends cfg s (.renewLease c id worker d) c.now id (.renew (c.now + d))
  | report {c : Ctx} {id worker status message errorType} :
      Sends cfg s (.updateTaskStatus c id worker status message errorType) c.now id
        (.report status message errorType)
  | reportForAttempt {c : Ctx} {id worker attempt status message errorType} :
      Sends cfg s (.updateTaskStatusForAttempt c id worker attempt status message errorType) c.now
        id (.report status message errorType)
  | suspend {c : Ctx} {input : HumanInterventionInput} :
      Sends cfg s (.createHumanIntervention c input) c.now input.taskID
        (.suspend (input.createdAtOrNow c))
  | resume {c : Ctx} {id checkpointID note actor d} {h : HumanIntervention} {t : Task} :
      s.humanInterventions.find? id = some h → h.workspaceID = c.workspace → h.status = .pending →
      c.now < h.expiresAt → checkpointID.isEmpty = false → checkpointID = h.checkpointID →
      s.tasks.find? h.taskID = some t → waitsFor c.workspace h t = true →
      Sends cfg s (.decideHumanIntervention c id checkpointID .approved note actor d) c.now
        h.taskID (.resume (c.now + d))
  | fail {c : Ctx} {id checkpointID decision note actor d} (task : TaskID)
      (errorType message : String) :
      Sends cfg s (.decideHumanIntervention c id checkpointID decision note actor d) c.now task
        (.fail errorType message)
  | cancel {c : Ctx} {id} : Sends cfg s (.cancelTask c id) c.now id .cancel
  | requestCancel {c : Ctx} {id} : Sends cfg s (.cancelTask c id) c.now id .requestCancel
  | retry {c : Ctx} {id} : Sends cfg s (.retryTask c id) c.now id .retry
  | release {c : Ctx} {id} : Sends cfg s (.releaseTask c id) c.now id .requeue

/-- What a property of the tasks needs to hold after a call: that creations keep it, that writes of
the task that is called for keep it, and that expiries do. -/
theorem exec_rule {cfg : Config} {op : Op} {P : Table Task.id → Prop} (h : op.exec cfg s = .ok s')
    (hP : P s.tasks)
    (hcreate : ∀ c t u, op = .createTask c t → u.id = t.id → u.status = t.status →
      u.cancelRequested = t.cancelRequested → s.tasks.insert? u = some s'.tasks → P s'.tasks)
    (hwrite : ∀ now id w, Sends cfg s op now id w → Writes s s' now id w → P s'.tasks)
    (hexpire : ∀ s₁ s₂ now id, P s₁.tasks →
      Writes s₁ s₂ now id (.fail "HumanTimeout" "operator decision expired") → P s₂.tasks) :
    P s'.tasks := by
  cases op with
  | createTask c t =>
    obtain ⟨u, hid, -, hstatus, -, hcancel, -, -, -, hins⟩ := createTask_cases h
    exact hcreate c t u rfl hid hstatus hcancel (insertTask_tasks hins).1
  | claimTask c r =>
    obtain ⟨⟨s₁, claim⟩, h₁, rfl⟩ := map_eq_ok.mp h
    obtain ⟨hlimit, t, hhead, hws, ht, hw⟩ := claimTask_writes h₁
    exact hwrite _ _ _ (.claim hlimit hhead hws ht) hw
  | renewLease c taskID workerID d =>
    obtain ⟨hheld, hw⟩ := renewLease_writes h
    exact hwrite _ _ _ (.renew hheld) hw
  | updateTaskStatus c taskID workerID status message errorType =>
    exact hwrite _ _ _ .report (updateTaskStatus_writes h)
  | updateTaskStatusForAttempt c taskID workerID attemptID status message errorType =>
    obtain ⟨⟨s₁, repeated⟩, h₁, rfl⟩ := map_eq_ok.mp h
    rcases updateTaskStatusForAttempt_writes h₁ with ⟨rfl, -⟩ | hw
    · exact hP
    · exact hwrite _ _ _ .reportForAttempt hw
  | createHumanIntervention c input =>
    exact hwrite _ _ _ .suspend (createHumanIntervention_writes h)
  | decideHumanIntervention c id checkpointID decision note actor d =>
    obtain ⟨⟨s₁, e⟩, h₁, rfl⟩ := map_eq_ok.mp h
    obtain ⟨g, hfind, hws, hp, ⟨-, hw⟩ | ⟨hnow, hne, hcheckpoint, ⟨rfl, ⟨t, ht, hwaits⟩, hw⟩ | ⟨-, hw⟩⟩⟩ :=
      decideHumanIntervention_writes h₁
    · exact hwrite _ _ _ (.fail _ _ _) hw
    · exact hwrite _ _ _ (.resume hfind hws hp hnow hne hcheckpoint ht hwaits) hw
    · exact hwrite _ _ _ (.fail _ _ _) hw
  | expireHumanInterventions c id taskID =>
    have hall : ∀ (hs : List HumanIntervention) (s₁ : Store), P s₁.tasks →
        hs.foldlM (expireHumanIntervention c) s₁ = .ok s' → P s'.tasks := by
      intro hs
      induction hs with
      | nil =>
        intro s₁ h₁ heq
        obtain rfl := pure_eq_ok.mp heq
        exact h₁
      | cons g hs ih =>
        intro s₁ h₁ heq
        rw [List.foldlM_cons] at heq
        obtain ⟨s₂, h₂, heq⟩ := bind_eq_ok.mp heq
        exact ih s₂ (hexpire s₁ s₂ _ _ h₁ (expireHumanIntervention_writes h₂)) heq
    exact hall _ s hP h
  | cancelTask c id =>
    rcases cancelTask_writes h with hw | hw
    · exact hwrite _ _ _ .cancel hw
    · exact hwrite _ _ _ .requestCancel hw
  | retryTask c id => exact hwrite _ _ _ .retry (retryTask_writes h)
  | releaseTask c taskID => exact hwrite _ _ _ .release (releaseTask_writes h)

end Store

end Aegis
