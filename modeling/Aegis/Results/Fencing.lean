import Aegis.Results.Server

/-!
# Results.Fencing

An attempt that has lost its task is fenced off: nothing a worker sends under it changes the
store, and its own row never changes again.
-/

namespace Aegis

open List Option Table
open Store

variable {cfg : Config} {s s' : Store} {v : Server}

/-- Not the call of the worker that holds the task: `attemptID` is not the current attempt of the
task, or the worker is not that of the task or not that of the attempt. -/
def Store.Foreign (s : Store) (c : Ctx) (taskID : TaskID) (workerID : WorkerID)
    (attemptID : AttemptID) : Prop :=
  ∀ t a, s.tasks.find? taskID = some t → t.workspaceID = c.workspace →
    s.executionAttempts.find? attemptID = some a →
    t.currentAttemptID ≠ some attemptID ∨ t.workerID ≠ some workerID ∨ a.workerID ≠ workerID

/-- A worker without the attempt changes nothing, and an attempt that has ended stays as it is. -/
structure Fenced (cfg : Config) (v : Server) : Prop where
  report_refused : ∀ c taskID workerID attemptID status message errorType,
    v.store.Foreign c taskID workerID attemptID →
    ∃ e, v.store.updateTaskStatusForAttempt c taskID workerID attemptID status message errorType = .error e
  submission_refused : ∀ c newID r, v.store.Foreign c r.taskID r.workerID r.attemptID →
    (v.store.insertResultIdempotent cfg.env c newID r).1 = v.store
  requeued : ∀ c id s', v.store.releaseTask c id = .ok s' ∨ v.store.retryTask c id = .ok s' →
    ∀ a ∈ s'.executionAttempts.rows, a.taskID = id → a.status.isOpen = false
  ended_row : ∀ a ∈ v.store.executionAttempts.rows, a.status.isOpen = false → ∀ es,
    (run (Server.step cfg) v es).store.executionAttempts.find? a.id = some a
  ended_report : ∀ a ∈ v.store.executionAttempts.rows, a.status.isOpen = false → ∀ es,
    ∀ c taskID workerID status message errorType s' repeated,
    (run (Server.step cfg) v es).store.updateTaskStatusForAttempt c taskID workerID a.id status
      message errorType = .ok (s', repeated) → s' = (run (Server.step cfg) v es).store
  /-- No later submission under an ended attempt stores a row, whatever runs between its
  statements: the rows of the attempt are those it has and those of the calls that had already
  passed their check. -/
  ended_results : ∀ a ∈ v.store.executionAttempts.rows, a.status.isOpen = false → ∀ es,
    ∀ row ∈ (run (Server.step cfg) v es).store.results.rows, row.attemptID = a.id →
    row ∈ v.store.results.rows ∨ ∃ sub ∈ v.submissions, sub.stage = .insert ∧ sub.row = row

variable {c : Ctx} {taskID : TaskID} {workerID : WorkerID} {attemptID : AttemptID}
  {status : TaskStatus} {message errorType : String}

/-- A report by a worker that does not hold the attempt is refused. -/
theorem report_foreign (hf : s.Foreign c taskID workerID attemptID) :
    ∃ e, s.updateTaskStatusForAttempt c taskID workerID attemptID status message errorType = .error e := by
  cases h : s.updateTaskStatusForAttempt c taskID workerID attemptID status message errorType with
  | error e => exact ⟨e, rfl⟩
  | ok res =>
    obtain ⟨t, a, hta, hw, haw, hcur, -⟩ := updateTaskStatusForAttempt_cases h
    obtain ⟨ht, hws, ha, -⟩ := attemptOfTask_eq_some.mp hta
    rcases hf t a ht hws ha with h | h | h
    · exact absurd hcur h
    · exact absurd hw h
    · exact absurd haw h

variable {a : ExecutionAttempt}

theorem report_ended {repeated : Bool}
    (ha : s.executionAttempts.find? attemptID = some a) (ho : a.status.isOpen = false)
    (h : s.updateTaskStatusForAttempt c taskID workerID attemptID status message errorType =
      .ok (s', repeated)) : s' = s := by
  obtain ⟨t, b, htb, -, -, -, -, ⟨-, rfl, -⟩ | ⟨-, -, hactive, -⟩⟩ :=
    updateTaskStatusForAttempt_cases h
  · rfl
  · obtain ⟨-, -, hb, -⟩ := attemptOfTask_eq_some.mp htb
    obtain rfl := mem_unique ha hb
    cases hs : a.status <;>
      simp_all [ExecutionAttemptStatus.isOpen, ExecutionAttemptStatus.isActive]

theorem not_foreign_of_check (hg : s.Good) {r : Result}
    (hws : r.workspaceID = c.workspace) (h : s.checkResult r = .insert) :
    ¬ s.Foreign c r.taskID r.workerID r.attemptID := by
  intro hf
  obtain ⟨a, ha, hact⟩ := checkResult_eq_insert.mp h
  simp only [isActiveFor, Bool.and_eq_true, beq_iff_eq, Table.any_eq_true] at hact
  obtain ⟨⟨⟨⟨⟨haw, haid⟩, hat⟩, hak⟩, ho⟩, t, ht, ⟨htw, htid⟩, hcur⟩ := hact
  have hview : (s.view t.id).task = some t := find?_key ht
  have hlock : Lockstep s t := by
    obtain ⟨l, hd⟩ := hg t.id
    exact lockstep_of_describes hview hd
  have hmem : a ∈ (s.view t.id).attempts :=
    mem_attempts.mpr ⟨mem_of_find? ha, htid.symm⟩
  obtain ⟨hcur', hworker⟩ := hlock.open_current a hmem ho
  have htask : s.tasks.find? r.taskID = some t := by
    rw [← hat, ← htid]
    exact hview
  rcases hf t a htask (by rw [htw, haw, hws]) ha with h | h | h
  · exact h (by rw [hcur', haid])
  · exact h (by rw [hworker, hak])
  · exact h hak

variable {id : TaskID}

theorem pending_of_update {p : Task → Bool} {g : TaskUpdate}
    (hany : s.tasks.any p) (hp : ∀ t, p t → t.id = id)
    (hset : ∀ t, (g.set t).status = .pending) :
    ∃ t, (s.updateTasks p g).tasks.find? id = some t ∧ t.status = .pending := by
  obtain ⟨t, ht, hpt⟩ := task_of_any id hany hp
  refine ⟨g.set t, ?_, hset t⟩
  have hv : ((s.updateTasks p g).view id).task = _ := congrArg TaskView.task (updateTasks_view p g)
  rw [ht, map_some, setIf_pos hpt] at hv
  exact hv

/-- A release or a retry leaves no attempt of the task open. -/
theorem requeue_ends (hg : s.Good) (h : s.releaseTask c id = .ok s' ∨ s.retryTask c id = .ok s') :
    ∀ a ∈ s'.executionAttempts.rows, a.taskID = id → a.status.isOpen = false := by
  have hs' : s'.Good ∧ ∃ t, s'.tasks.find? id = some t ∧ t.status = .pending := by
    rcases h with h | h
    · refine ⟨(releaseTask_moves hg h).simulates.good hg, ?_⟩
      simp only [releaseTask, bind_eq_ok, require_eq_ok, pure_eq_ok] at h
      obtain ⟨s₁, -, -, hany, rfl⟩ := h
      exact pending_of_update hany (by simp +contextual) fun _ => rfl
    · refine ⟨(retryTask_moves hg h).simulates.good hg, ?_⟩
      simp only [retryTask] at h
      split at h
      · rename_i hany
        cases h
        exact pending_of_update hany (by simp +contextual) fun _ => rfl
      · split at h <;> cases h
  obtain ⟨hg', t, ht, hp⟩ := hs'
  intro a ha hid
  obtain ⟨l, hd⟩ := hg' t.id
  obtain rfl := key_of_find? ht
  exact (lockstep_of_describes ht hd).rest_closed (by rw [hp]; rfl) a (mem_attempts.mpr ⟨ha, hid⟩)

/-- What stays true of the attempt `a`, ended in `v`, in the servers that follow `v`. -/
structure Behind (v : Server) (a : ExecutionAttempt) (w : Server) : Prop where
  row : w.store.executionAttempts.find? a.id = some a
  results : ∀ row ∈ w.store.results.rows, row.attemptID = a.id →
    row ∈ v.store.results.rows ∨ ∃ sub ∈ v.submissions, sub.stage = .insert ∧ sub.row = row
  pending : ∀ sub ∈ w.submissions, sub.stage = .insert → sub.row.attemptID = a.id →
    ∃ sub' ∈ v.submissions, sub'.stage = .insert ∧ sub'.row = sub.row

theorem check_ended {r : Result} (ho : a.status.isOpen = false)
    (ha : s.executionAttempts.find? a.id = some a) (hr : r.attemptID = a.id) :
    s.checkResult r ≠ .insert := by
  intro h
  obtain ⟨b, hb, hact⟩ := checkResult_eq_insert.mp h
  rw [hr, ha] at hb
  cases hb
  simp [isActiveFor, ho] at hact

theorem Behind.advance {w : Server} (ho : a.status.isOpen = false)
    (h : Behind v a w) (i : Nat) : Behind v a (w.advance i) := by
  rcases Server.advance_cases w i with ⟨-, hw⟩ | ⟨sub, hi, hcases⟩
  · rwa [hw]
  have pending_set : ∀ stage, (stage = .insert → sub.row.attemptID ≠ a.id) →
      ∀ q ∈ w.submissions.set i { sub with stage := stage }, q.stage = .insert →
        q.row.attemptID = a.id → ∃ q' ∈ v.submissions, q'.stage = .insert ∧ q'.row = q.row := by
    intro stage hstage
    refine Server.forall_set h.pending fun hqs hid => ?_
    exact absurd hid (hstage hqs)
  rcases hcases with ⟨hs, stage, hstep, hw⟩ | ⟨-, -, hw⟩ | ⟨hs, s', hok, hw⟩
  · rw [hw]
    refine ⟨h.row, h.results, pending_set stage fun hstage hid => ?_⟩
    subst hstage
    exact check_ended ho h.row hid (check_of_submitStep hs hstep)
  · rw [hw]
    exact ⟨h.row, h.results, pending_set _ nofun⟩
  · rw [hw]
    obtain ⟨-, -, hrows, heq⟩ := insertResult_eq_ok hok
    refine ⟨by rw [heq]; exact h.row, ?_, pending_set _ nofun⟩
    intro row hrow hid
    rw [hrows] at hrow
    rcases mem_append.mp hrow with hrow | hrow
    · exact h.results row hrow hid
    · obtain rfl := mem_singleton.mp hrow
      exact .inr (h.pending sub (mem_of_getElem? hi) hs hid)

theorem Behind.step {w : Server} (ho : a.status.isOpen = false)
    (h : Behind v a w) (e : Event) : Behind v a (w.step cfg e) := by
  cases e with
  | call op ha =>
    have hk := keeps_apply cfg w.store op
    refine ⟨?_, fun row hrow => h.results row (hk.results ▸ hrow), h.pending⟩
    obtain ⟨a', ha', -, heq⟩ := hk.attempts h.row
    rw [heq ho] at ha'
    exact ha'
  | submit c newID r =>
    refine ⟨h.row, h.results, fun sub hsub hs => ?_⟩
    rcases mem_append.mp hsub with hsub | hsub
    · exact h.pending sub hsub hs
    · obtain rfl := mem_singleton.mp hsub
      exact absurd hs (submitStart_ne_insert _)
  | advance i => exact h.advance ho i

theorem behind_run (ha : a ∈ v.store.executionAttempts.rows)
    (ho : a.status.isOpen = false) (es : List Event) :
    Behind v a (run (Server.step cfg) v es) :=
  run_invariant (fun _ e h => h.step ho e)
    ⟨find?_key ha, fun _ h _ => .inl h, fun sub hsub hs _ => ⟨sub, hsub, hs, rfl⟩⟩

/-- **Attempt fencing.** In every reachable state the calls for an attempt that the worker does not
hold change nothing, and an attempt that has ended keeps its row and its results. -/
theorem attempt_fencing (hr : Server.Reachable cfg v) : Fenced cfg v where
  report_refused _ _ _ _ _ _ _ hf := report_foreign hf
  submission_refused _ _ _ hf :=
    insertResultIdempotent_store fun h => not_foreign_of_check hr.sound.good rfl h hf
  requeued _ _ _ h := requeue_ends hr.sound.good h
  ended_row _ ha ho es := (behind_run ha ho es).row
  ended_report _ ha ho es _ _ _ _ _ _ _ _ h := report_ended (behind_run ha ho es).row ho h
  ended_results _ ha ho es := (behind_run ha ho es).results

def requeuedServer : Server := run (Server.step Sample.config) Sample.server
  (Sample.claimed ++ [.call (.releaseTask (Sample.at' 200) "task") rfl,
    .call (Sample.claim "worker" "second" 201) rfl])

theorem attempt_fencing_requeued :
    (requeuedServer.store.executionAttempts.rows.map fun a => (a.id, a.status)) =
        [("first", .leaseExpired), ("second", .leased)] ∧
      Fenced Sample.config requeuedServer :=
  ⟨by decide, attempt_fencing ⟨_, _, Sample.server_initial, rfl⟩⟩

end Aegis
