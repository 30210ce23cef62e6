import Aegis.Lifecycle.Writes

/-!
# Lifecycle.Cancellation

Heartbeats and the cancel signal they carry back to a worker.

`CancelTask` sets `cancel_requested` on a running task, `CreateTask` writes what it is given, and
no other statement touches the column. A heartbeat renews the lease and reads the column in
separate statements, with other calls in between.
-/

namespace Aegis

open List Option Table

inductive HeartbeatStage where
  | renewed
  | returned (cancelRequested : Bool)
deriving DecidableEq

/-- A call of `SubmitHeartbeat` whose lease renewal has succeeded. -/
structure HeartbeatCall where
  ctx : Ctx
  taskID : TaskID
  stage : HeartbeatStage

/-- `cancelled` and `stale` record what the properties below are about and decide no step: the
tasks on which a `CancelTask` has succeeded since their creation and their last successful
`RetryTask`, and those for which a heartbeat has reported a cancel request outside of that. -/
structure Monitor where
  store : Store
  heartbeats : List HeartbeatCall
  cancelled : List TaskID
  stale : List TaskID

inductive HeartbeatEvent where
  | call (op : Op)
  | heartbeat (c : Ctx) (taskID : TaskID) (workerID : WorkerID) (leaseDuration : Duration)
  | respond (i : Nat)

namespace Monitor

variable (cfg : Config)

def cancelledAfter (v : Monitor) (op : Op) : List TaskID :=
  match op.exec cfg v.store with
  | .error _ => v.cancelled
  | .ok _ =>
    match op with
    | .cancelTask _ id => id :: v.cancelled
    | .retryTask _ id => v.cancelled.filter (· != id)
    | .createTask _ t => v.cancelled.filter (· != t.id)
    | _ => v.cancelled

def heartbeat (v : Monitor) (c : Ctx) (taskID : TaskID) (workerID : WorkerID)
    (leaseDuration : Duration) : Monitor :=
  if taskID.isEmpty || workerID.isEmpty then v
  else
    match v.store.renewLease c taskID workerID leaseDuration with
    | .error _ => v
    | .ok store =>
      { v with store := store, heartbeats := v.heartbeats ++ [⟨c, taskID, .renewed⟩] }

/-- The answer of a heartbeat: `GetTaskByID`, and no signal when that fails. -/
def cancelSignal (s : Store) (c : Ctx) (taskID : TaskID) : Bool :=
  match s.getTaskByID c taskID with
  | .ok t => t.cancelRequested
  | .error _ => false

def respond (v : Monitor) (i : Nat) : Monitor :=
  match v.heartbeats[i]? with
  | some ⟨c, taskID, .renewed⟩ =>
    let signal := cancelSignal v.store c taskID
    { v with
      heartbeats := v.heartbeats.set i ⟨c, taskID, .returned signal⟩
      stale := if signal && !v.cancelled.contains taskID then v.stale ++ [taskID] else v.stale }
  | _ => v

def step (v : Monitor) : HeartbeatEvent → Monitor
  | .call op => { v with store := op.apply cfg v.store, cancelled := v.cancelledAfter cfg op }
  | .heartbeat c taskID workerID leaseDuration => v.heartbeat c taskID workerID leaseDuration
  | .respond i => v.respond i

/-- No heartbeat has reported a cancel request that a retry has made obsolete. -/
def NoStaleSignal (v : Monitor) : Prop := v.stale = []

/-- Every stored cancel request is from a `CancelTask` since the last retry. -/
def RequestsCurrent (v : Monitor) : Prop :=
  ∀ t ∈ v.store.tasks.rows, t.cancelRequested = true → t.id ∈ v.cancelled

/-- A task that is retried has no cancel request, and none is created with one. -/
def NoRequestCarried (v : Monitor) : HeartbeatEvent → Prop
  | .call (.retryTask c id) => ∀ t ∈ v.store.tasks.find? id, t.workspaceID = c.workspace →
      t.status.isRetryable = true → t.cancelRequested = false
  | .call (.createTask c t) =>
      (v.store.createTask cfg.env c t).toOption.isSome = true → t.cancelRequested = false
  | _ => True

instance (v : Monitor) (e : HeartbeatEvent) : Decidable (NoRequestCarried cfg v e) := by
  unfold NoRequestCarried
  split <;> infer_instance

structure Initial (v : Monitor) : Prop where
  store : v.store.Initial
  heartbeats : v.heartbeats = []
  cancelled : v.cancelled = []
  stale : v.stale = []

variable {cfg} {v : Monitor} {s s' : Store} {op : Op} {c : Ctx} {id : TaskID}

variable {cancelled : List TaskID}

theorem writes_current {now : Time} {w : TaskWrite}
    (hw : Store.Writes s s' now id w)
    (hp : ∀ t ∈ s.tasks.rows, t.cancelRequested → t.id ∈ cancelled)
    (hrequest : w = .requestCancel → id ∈ cancelled) :
    ∀ t ∈ s'.tasks.rows, t.cancelRequested → t.id ∈ cancelled := by
  obtain ⟨t, ht, -, htasks⟩ := hw
  rw [htasks]
  intro u hu hcancel
  rcases mem_updateRow.mp hu with ⟨hmem, -⟩ | ⟨q, hq, rfl⟩
  · exact hp u hmem hcancel
  · have hqid : ((w.clause now).onID.set q).id = id :=
      ((w.clause now).onID.keeps q).trans (key_of_find? hq)
    by_cases hw : w = .requestCancel
    · rw [hqid]
      exact hrequest hw
    · have hq' : q.cancelRequested := by
        cases w with
        | requestCancel => exact absurd rfl hw
        | _ => exact hcancel
      rw [hqid, ← key_of_find? hq]
      exact hp q (mem_of_find? hq) hq'

theorem retryTask_ok_iff : (∃ s', s.retryTask c id = .ok s') ↔
    ∃ t, s.tasks.find? id = some t ∧ t.workspaceID = c.workspace ∧ t.status.isRetryable = true := by
  simp only [Store.retryTask]
  constructor
  · rintro ⟨s', h⟩
    split at h
    · rename_i hany
      obtain ⟨t, ht, hpt⟩ := Store.task_of_any id hany (by simp +contextual)
      simp only [Bool.and_eq_true, beq_iff_eq] at hpt
      exact ⟨t, ht, hpt.1.2, hpt.2⟩
    · split at h <;> cases h
  · rintro ⟨t, ht, hws, hstatus⟩
    have hid := key_of_find? ht
    rw [if_pos (Store.any_of_task ht (by simp [hid, hws, hstatus]))]
    exact ⟨_, rfl⟩

theorem retry_current (h : s.retryTask c id = .ok s')
    (hp : ∀ t ∈ s.tasks.rows, t.cancelRequested → t.id ∈ cancelled) :
    (∀ t ∈ s'.tasks.rows, t.cancelRequested → t.id ∈ cancelled.filter (· != id)) ↔
      ∀ t ∈ s.tasks.find? id, t.workspaceID = c.workspace → t.status.isRetryable = true →
        t.cancelRequested = false := by
  obtain ⟨t, ht, -, htasks⟩ := Store.retryTask_writes h
  obtain ⟨u, hu, hws, hstatus⟩ := retryTask_ok_iff.mp ⟨s', h⟩
  obtain rfl := mem_unique ht hu
  have hid := key_of_find? ht
  rw [htasks]
  constructor
  · rintro hafter q hq - -
    obtain rfl := mem_unique ht hq
    cases hcancel : t.cancelRequested with
    | false => rfl
    | true =>
      have hmem := hafter _ (mem_updateRow.mpr (.inr ⟨t, ht, rfl⟩)) hcancel
      simp [TaskWrite.clause, Task.retry, hid] at hmem
  · intro hclear q hq hcancel
    rcases mem_updateRow.mp hq with ⟨hmem, hne⟩ | ⟨p, hpf, rfl⟩
    · exact mem_filter.mpr ⟨hp q hmem hcancel, by simpa using hne⟩
    · obtain rfl := mem_unique ht hpf
      have hfalse := hclear t ht hws hstatus
      have htrue : t.cancelRequested := hcancel
      rw [hfalse] at htrue
      cases htrue

theorem create_current {env : Env} {t : Task} (h : s.createTask env c t = .ok s')
    (hp : ∀ t ∈ s.tasks.rows, t.cancelRequested → t.id ∈ cancelled) :
    (∀ u ∈ s'.tasks.rows, u.cancelRequested → u.id ∈ cancelled.filter (· != t.id)) ↔
      t.cancelRequested = false := by
  obtain ⟨u, hid, -, -, -, hcancel, -, -, -, hins⟩ := Store.createTask_cases h
  obtain ⟨hnone, hrows⟩ := insert?_eq_some.mp (Store.insertTask_tasks hins).1
  rw [hrows]
  constructor
  · intro hafter
    cases hreq : t.cancelRequested with
    | false => rfl
    | true =>
      have hmem := hafter u (by simp) (hcancel.trans hreq)
      simp [hid] at hmem
  · intro hclear q hq hreq
    rcases mem_append.mp hq with hq | hq
    · have hne : q.id ≠ t.id := by
        rw [← hid]
        exact Table.find?_eq_none.mp hnone q hq
      exact mem_filter.mpr ⟨hp q hq hreq, by simpa using hne⟩
    · obtain rfl := mem_singleton.mp hq
      rw [hcancel, hclear] at hreq
      cases hreq

theorem call_current (hp : RequestsCurrent v) (op : Op) :
    RequestsCurrent (v.step cfg (.call op)) ↔ NoRequestCarried cfg v (.call op) := by
  unfold RequestsCurrent
  simp only [step, cancelledAfter]
  cases hexec : op.exec cfg v.store with
  | error e =>
    rw [Op.apply_of_error hexec]
    refine iff_of_true hp ?_
    cases op with
    | retryTask c id =>
      intro t ht hws hstatus
      obtain ⟨s', h⟩ := retryTask_ok_iff.mpr ⟨t, ht, hws, hstatus⟩
      rw [show v.store.retryTask c id = _ from hexec] at h
      cases h
    | createTask c t =>
      intro h
      rw [show v.store.createTask cfg.env c t = _ from hexec] at h
      cases h
    | _ => trivial
  | ok s' =>
    rw [Op.apply_of_ok hexec]
    have hother : ∀ cancelled : List TaskID, (∀ id ∈ v.cancelled, id ∈ cancelled) →
        (∀ c t, op ≠ .createTask c t) → (∀ c id, op = .cancelTask c id → id ∈ cancelled) →
        ∀ t ∈ s'.tasks.rows, t.cancelRequested → t.id ∈ cancelled := by
      intro cancelled hsub hcreate hrequest
      refine Store.exec_rule (P := fun tasks => ∀ t ∈ tasks.rows, t.cancelRequested = true →
        t.id ∈ cancelled) hexec (fun t ht h => hsub _ (hp t ht h)) ?_ ?_ ?_
      · exact fun c t u he => absurd he (hcreate c t)
      · intro now id w hs hw
        refine writes_current hw (fun t ht h => hsub _ (hp t ht h)) ?_
        rintro rfl
        cases hs
        exact hrequest _ _ rfl
      · exact fun s₁ s₂ now id hp₁ hw => writes_current hw hp₁ nofun
    cases op with
    | retryTask c id => exact retry_current hexec hp
    | createTask c t =>
      rw [create_current hexec hp]
      simp only [NoRequestCarried]
      rw [show v.store.createTask cfg.env c t = _ from hexec]
      exact ⟨fun h _ => h, fun h => h rfl⟩
    | cancelTask c id =>
      refine iff_of_true (hother _ (fun _ h => mem_cons_of_mem _ h)
        (fun _ _ h => Op.noConfusion h) fun _ _ h => ?_) trivial
      obtain rfl := (Op.cancelTask.inj h).2
      exact mem_cons_self
    | _ =>
      exact iff_of_true (hother _ (fun _ h => h) (fun _ _ h => Op.noConfusion h)
        fun _ _ h => Op.noConfusion h) trivial

theorem heartbeat_current (hp : RequestsCurrent v) (c : Ctx) (taskID : TaskID) (workerID : WorkerID)
    (d : Duration) : RequestsCurrent (v.heartbeat c taskID workerID d) := by
  unfold heartbeat
  split
  · exact hp
  · split
    · exact hp
    · rename_i s' h
      exact writes_current (Store.renewLease_writes h).2 hp nofun

theorem respond_cases (v : Monitor) (i : Nat) :
    v.respond i = v ∨ ∃ c taskID signal, signal = cancelSignal v.store c taskID ∧
      v.respond i = { v with
        heartbeats := v.heartbeats.set i ⟨c, taskID, .returned signal⟩
        stale := if signal && !v.cancelled.contains taskID then v.stale ++ [taskID]
          else v.stale } := by
  unfold respond
  split
  · rename_i c taskID _
    exact .inr ⟨c, taskID, _, rfl, rfl⟩
  · exact .inl rfl

/-- One event keeps the requests current exactly when it carries none over. -/
theorem step_current (hp : RequestsCurrent v) (e : HeartbeatEvent) :
    RequestsCurrent (v.step cfg e) ↔ NoRequestCarried cfg v e := by
  cases e with
  | call op => exact call_current hp op
  | heartbeat c taskID workerID d =>
    exact iff_of_true (heartbeat_current hp c taskID workerID d) trivial
  | respond i =>
    refine iff_of_true ?_ trivial
    rcases respond_cases v i with h | ⟨c, taskID, signal, -, h⟩
    all_goals
      simp only [step, h]
      exact hp

theorem step_noStale (hp : RequestsCurrent v) (hn : NoStaleSignal v) (e : HeartbeatEvent) :
    NoStaleSignal (v.step cfg e) := by
  cases e with
  | call op => exact hn
  | heartbeat c taskID workerID d =>
    simp only [step, heartbeat]
    split
    · exact hn
    · split <;> exact hn
  | respond i =>
    simp only [step]
    rcases respond_cases v i with h | ⟨c, taskID, signal, hsignal, h⟩
    · rwa [h]
    · rw [h]
      cases signal with
      | false => exact hn
      | true =>
        have hmem : taskID ∈ v.cancelled := by
          unfold cancelSignal at hsignal
          split at hsignal
          · rename_i t hget
            unfold Store.getTaskByID at hget
            split at hget
            · cases hget
            · rename_i u hu
              cases hget
              obtain ⟨hfind, -⟩ := filter_eq_some_iff.mp hu
              rw [← key_of_find? hfind]
              exact hp t (mem_of_find? hfind) hsignal.symm
          · cases hsignal
        simpa [NoStaleSignal, hmem] using hn

theorem Initial.current (hi : Initial v) : RequestsCurrent v := by
  intro t ht
  rw [hi.store.tasks] at ht
  cases ht

end Monitor

/-- **Cancellation and retry.** The stored cancel requests are current throughout exactly in the
runs where no retry and no creation carries one over, and in these no heartbeat reports a stale
one. -/
theorem cancellation {cfg : Config} {v : Monitor} (hi : Monitor.Initial v) (es : List HeartbeatEvent) :
    (Always (Monitor.step cfg) Monitor.RequestsCurrent v es ↔
      Meets (Monitor.step cfg) (Monitor.NoRequestCarried cfg) v es) ∧
    (Meets (Monitor.step cfg) (Monitor.NoRequestCarried cfg) v es →
      Always (Monitor.step cfg) Monitor.NoStaleSignal v es) := by
  have hiff : Always (Monitor.step cfg) Monitor.RequestsCurrent v es ↔
      Meets (Monitor.step cfg) (Monitor.NoRequestCarried cfg) v es :=
    always_iff_meets (I := fun _ => True) trivial (fun _ _ _ => trivial) hi.current
      fun _ e _ hp => Monitor.step_current hp e
  refine ⟨hiff, fun h => ?_⟩
  exact (hiff.mpr h).follow hi.stale fun _ e hp hn => Monitor.step_noStale hp hn e

def Sample.monitor : Monitor := ⟨store, [], [], []⟩

theorem Sample.monitor_initial : Monitor.Initial monitor := ⟨store_initial, rfl, rfl, rfl⟩

def startedTask : List HeartbeatEvent :=
  [.call (Sample.create "task" 0), .call (Sample.claim "worker" "first" 1),
    .call (.updateTaskStatus (Sample.at' 2) "task" "worker" .running "" "")]

def beat (now : Time) (i : Nat) : List HeartbeatEvent :=
  [.heartbeat (Sample.at' now) "task" "worker" 100, .respond i]

/-- The running task is cancelled, and the next heartbeat says so. -/
theorem cancellation_reported : ((run (Monitor.step Sample.config) Sample.monitor
        (startedTask ++ [.call (.cancelTask (Sample.at' 3) "task")] ++ beat 4 0)).heartbeats.map
      (·.stage)) = [.returned true] ∧
    Always (Monitor.step Sample.config) Monitor.NoStaleSignal Sample.monitor
      (startedTask ++ [.call (.cancelTask (Sample.at' 3) "task")] ++ beat 4 0) :=
  ⟨by decide, (cancellation Sample.monitor_initial _).2 (by decide)⟩

/-- It ends, is retried and claimed again, and the first heartbeat of the new attempt reports the
old request. -/
theorem cancellation_outlives_retry :
    ¬ ∀ cfg v es, Monitor.Initial v → (run (Monitor.step cfg) v es).stale = [] := by
  intro h
  have hstale := h Sample.config Sample.monitor
    (startedTask ++ [.call (.cancelTask (Sample.at' 3) "task"),
      .call (.updateTaskStatus (Sample.at' 4) "task" "worker" .cancelled "" ""),
      .call (.retryTask (Sample.at' 5) "task"), .call (Sample.claim "worker" "second" 6)] ++
      beat 7 0) Sample.monitor_initial
  revert hstale
  decide

end Aegis
