import Aegis.Lifecycle.HumanWait

/-!
# Lifecycle.Lockstep

What every reachable store satisfies.

* `Op.simulates`       — a store call is a run of the lifecycle on every task.
* `good_of_reachable`  — so every task of a reachable store is somewhere in its lifecycle.
* `lockstep`           — a task and its attempts agree.
* `human_waits`        — a pending intervention is there exactly while its task waits for it.
-/

namespace Aegis

open Table

variable {cfg : Config} {s s' : Store}

/-- Every call that succeeds is a step of the life of its task. -/
theorem Op.simulates {op : Op} (hg : s.Good) (ha : op.isAdmitted)
    (h : op.exec cfg s = .ok s') : Store.Simulates s s' := by
  cases op with
  | createTask c t =>
    simp only [isAdmitted, Bool.and_eq_true, beq_iff_eq] at ha
    exact (Store.createTask_moves ha.1 ha.2 h).simulates
  | claimTask c r =>
    obtain ⟨⟨s₁, claim⟩, h₁, rfl⟩ := map_eq_ok.mp h
    obtain ⟨id, hm⟩ := Store.claimTask_moves h₁
    exact hm.simulates
  | renewLease c taskID workerID d => exact (Store.renewLease_moves hg h).simulates
  | updateTaskStatus c taskID workerID status message errorType =>
    exact (Store.updateTaskStatus_moves hg ha h).simulates
  | updateTaskStatusForAttempt c taskID workerID attemptID status message errorType =>
    obtain ⟨⟨s₁, repeated⟩, h₁, rfl⟩ := map_eq_ok.mp h
    exact (Store.updateTaskStatusForAttempt_moves hg h₁).simulates
  | createHumanIntervention c input =>
    exact (Store.createHumanIntervention_moves hg h).simulates
  | decideHumanIntervention c id checkpointID decision note actor d =>
    obtain ⟨⟨s₁, e⟩, h₁, rfl⟩ := map_eq_ok.mp h
    obtain ⟨id', hm⟩ := Store.decideHumanIntervention_moves hg h₁
    exact hm.simulates
  | expireHumanInterventions c id taskID =>
    obtain ⟨s₁, h₁, -, hsim, -⟩ := Store.expireHumanInterventions_ok hg c id taskID
    cases h₁.symm.trans h
    exact hsim
  | cancelTask c id => exact (Store.cancelTask_moves hg h).simulates
  | retryTask c id => exact (Store.retryTask_moves hg h).simulates
  | releaseTask c taskID => exact (Store.releaseTask_moves hg h).simulates

namespace Store

theorem Initial.good (h : Initial s) : s.Good := fun id =>
  ⟨.absent, .absent (by simp [view, h.tasks, h.executionAttempts, h.humanInterventions])⟩

theorem good_of_reachable (hr : Reachable cfg s) : s.Good :=
  hr.induction (fun _ hi => hi.good) fun _ _ _ hg ha h => (Op.simulates hg ha h).good hg

/-- The task `t` and its attempts agree. -/
structure Lockstep (s : Store) (t : Task) : Prop where
  one_open : ∀ a ∈ (s.view t.id).attempts, ∀ b ∈ (s.view t.id).attempts,
    a.status.isOpen = true → b.status.isOpen = true → a = b
  /-- It is the current attempt and carries the worker of the task. -/
  open_current : ∀ a ∈ (s.view t.id).attempts, a.status.isOpen = true →
    t.currentAttemptID = some a.id ∧ t.workerID = some a.workerID
  /-- The task is leased, running or waiting exactly when its current attempt is. -/
  same_status : ∀ p : Phase, t.status = p.task ↔
    ∃ a ∈ (s.view t.id).attempts, t.currentAttemptID = some a.id ∧ a.status = p.attempt
  rest_closed : t.status.isHeld = false → ∀ a ∈ (s.view t.id).attempts, a.status.isOpen = false
  numbers : (s.view t.id).attempts.map ExecutionAttempt.number = List.range' 1 (s.view t.id).attempts.length

/-- A task that a life describes is in lockstep with its attempts. -/
theorem lockstep_of_describes {t : Task} {l : Life} (ht : (s.view t.id).task = some t)
    (hd : Describes (s.view t.id) l) : Lockstep s t := by
  cases hs : t.status.isHeld with
  | false =>
    obtain ⟨past, -, hv, hended, -⟩ := hd.atRest_inv ht hs
    have hclosed : ∀ a ∈ (s.view t.id).attempts, a.status.isOpen = false := by
      rw [hv]
      exact hended.closed
    have hnot : ∀ a ∈ (s.view t.id).attempts, a.status.isOpen ≠ true := fun a ha => by
      rw [hclosed a ha]
      decide
    refine ⟨fun a ha _ _ ho _ => absurd ho (hnot a ha), fun a ha ho => absurd ho (hnot a ha), ?_,
      fun _ => hclosed, by rw [hv]; exact hended.numbers⟩
    intro p
    constructor
    · intro h
      rw [h, Phase.task_isHeld] at hs
      cases hs
    · rintro ⟨a, ha, -, hp⟩
      exact absurd (by rw [hp, Phase.attempt_isOpen]) (hnot a ha)
  | true =>
    obtain ⟨phase, past, a, waits, -, hv, hended, hh⟩ := hd.held_inv ht hs
    -- Only the last attempt is open.
    have hlast : ∀ b ∈ (s.view t.id).attempts, b.status.isOpen → b = a := by
      rw [hv]
      intro b hb ho
      rcases List.mem_append.mp hb with hb | hb
      · rw [hended.closed b hb] at ho
        cases ho
      · exact List.mem_singleton.mp hb
    have hmem : a ∈ (s.view t.id).attempts := by simp [hv]
    constructor
    · intro b hb d hd hbo hdo
      rw [hlast b hb hbo, hlast d hd hdo]
    · intro b hb hbo
      rw [hlast b hb hbo]
      exact ⟨hh.current, hh.worker⟩
    · intro p
      rw [hh.task]
      constructor
      · intro h
        refine ⟨a, hmem, hh.current, ?_⟩
        rw [hh.attempt]
        cases p <;> cases phase <;> simp_all [Phase.task, Phase.attempt]
      · rintro ⟨b, hb, -, hp⟩
        have hba := hlast b hb (by rw [hp, Phase.attempt_isOpen])
        rw [hba, hh.attempt] at hp
        cases p <;> cases phase <;> simp_all [Phase.task, Phase.attempt]
    · intro h
      rw [hs] at h
      cases h
    · rw [hv]
      simp [hended.numbers, hh.number, List.range'_concat, Nat.add_comm]

/-- **Task and attempts move in lockstep**: in every reachable store, for every task. -/
theorem lockstep (hr : Reachable cfg s) (id : TaskID) {t : Task}
    (ht : s.tasks.find? id = some t) : Lockstep s t := by
  obtain ⟨l, hd⟩ := good_of_reachable hr t.id
  exact lockstep_of_describes (key_of_find? ht ▸ ht) hd

def waitingStore : Store := run (Op.apply Sample.config) Sample.store
  [Sample.create "task" 0, Sample.claim "worker" "first" 1,
    .releaseTask (Sample.at' 200) "task", Sample.claim "worker" "second" 201,
    Sample.suspend "wait" "task" "second" "worker" 202]

theorem waitingStore_reachable : Reachable Sample.config waitingStore :=
  Sample.store_initial.reachable (by decide)

theorem lockstep_waitingStore : ∃ t, waitingStore.tasks.find? "task" = some t ∧
    t.status = .waitingHuman ∧ Lockstep waitingStore t :=
  ⟨_, rfl, rfl, lockstep waitingStore_reachable "task" rfl⟩

/-- What the pending interventions of a store say about its tasks. -/
structure WaitsNotOrphaned (s : Store) : Prop where
  waiting_iff : ∀ t ∈ s.tasks.rows, t.status = .waitingHuman ↔
    ∃ h ∈ s.humanInterventions.rows, h.taskID = t.id ∧ h.status = .pending
  /-- A pending intervention names the attempt and worker that hold its task. -/
  names : ∀ h ∈ s.humanInterventions.rows, h.status = .pending →
    ∃ t ∈ s.tasks.rows, t.id = h.taskID ∧ t.workspaceID = h.workspaceID ∧
      t.status = .waitingHuman ∧ t.currentAttemptID = some h.attemptID ∧
      t.workerID = some h.workerID
  unique : ∀ h ∈ s.humanInterventions.rows, ∀ k ∈ s.humanInterventions.rows,
    h.status = .pending → k.status = .pending → k.taskID = h.taskID → k = h
  /-- No call of `expireHumanInterventions` fails, so none reaches the conflict of
  `failWaitingHumanAttempt`. -/
  expiry_ok : ∀ c id taskID, ∃ s', s.expireHumanInterventions c id taskID = .ok s'
  /-- Every waiting task has an expiry, and the sweep at that time ends its wait. -/
  expires : ∀ t ∈ s.tasks.rows, t.status = .waitingHuman → ∃ deadline : Time, ∀ c s',
    c.workspace = t.workspaceID → deadline ≤ c.now →
    s.expireHumanInterventions c "" "" = .ok s' →
    ∃ t', s'.tasks.find? t.id = some t' ∧ t'.status = .failed

theorem Good.waitsNotOrphaned (hg : s.Good) : WaitsNotOrphaned s := by
  have hwait : ∀ t ∈ s.tasks.rows, t.status = .waitingHuman → ∃ h ∈ (s.view t.id).waits,
      h.workspaceID = t.workspaceID := by
    intro t ht hst
    have hview : (s.view t.id).task = some t := find?_key ht
    obtain ⟨l, hd⟩ := hg t.id
    obtain ⟨phase, past, a, waits, -, hv, -, hh⟩ := hd.held_inv hview (by rw [hst]; rfl)
    obtain rfl : phase = .waiting := Phase.task_eq_waiting.mp (hh.task.symm.trans hst)
    obtain ⟨h, rfl, hws, -⟩ := hh.waits
    exact ⟨h, by simp [hv], hws.trans hh.workspace⟩
  have hnames : ∀ h ∈ s.humanInterventions.rows, h.status = .pending →
      ∃ t ∈ s.tasks.rows, t.id = h.taskID ∧ t.workspaceID = h.workspaceID ∧
        t.status = .waitingHuman ∧ t.currentAttemptID = some h.attemptID ∧
        t.workerID = some h.workerID := by
    intro h hh hp
    obtain ⟨t, past, a, hv, hho, hws, ha, hk⟩ := hg.wait (mem_waits.mpr ⟨hh, rfl, hp⟩)
    have hview : (s.view h.taskID).task = some t := by rw [hv]
    exact ⟨t, mem_of_find? hview, view_task_id hview, (hws.trans hho.workspace).symm,
      hho.task, by rw [hho.current, ha], by rw [hho.worker, hk]⟩
  constructor
  · intro t ht
    constructor
    · intro hst
      obtain ⟨h, hh, -⟩ := hwait t ht hst
      obtain ⟨hr, hid, hp⟩ := mem_waits.mp hh
      exact ⟨h, hr, hid, hp⟩
    · rintro ⟨h, hr, hid, hp⟩
      obtain ⟨u, hu, huid, -, hst, -⟩ := hnames h hr hp
      rwa [eq_of_key ht hu (hid.symm.trans huid.symm)]
  · exact hnames
  · intro h hh k hk hp hkp hid
    exact hg.wait_unique (mem_waits.mpr ⟨hh, rfl, hp⟩) (mem_waits.mpr ⟨hk, hid, hkp⟩)
  · intro c id taskID
    obtain ⟨s', h, -⟩ := expireHumanInterventions_ok hg c id taskID
    exact ⟨s', h⟩
  · intro t ht hst
    obtain ⟨h, hh, hws⟩ := hwait t ht hst
    obtain ⟨hr, hid, hp⟩ := mem_waits.mp hh
    refine ⟨h.expiresAt, fun c s' hc hnow hs' => ?_⟩
    obtain ⟨s₁, h₁, -, -, hfailed⟩ := expireHumanInterventions_ok hg c "" ""
    cases h₁.symm.trans hs'
    have hover : h ∈ s.overdue c "" "" := by
      refine List.mem_filter.mpr ⟨hr, ?_⟩
      simp [hws, hc, hp, hnow]
    rw [← hid]
    exact hfailed h hover

/-- **Human waits are never orphaned** in a reachable store. -/
theorem human_waits (hr : Reachable cfg s) : WaitsNotOrphaned s :=
  (good_of_reachable hr).waitsNotOrphaned

theorem human_waits_waitingStore : waitingStore.humanInterventions.rows.length = 1 ∧
    WaitsNotOrphaned waitingStore :=
  ⟨by decide, human_waits waitingStore_reachable⟩

end Store

end Aegis
