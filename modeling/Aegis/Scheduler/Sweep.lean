import Aegis.Lifecycle.Lockstep
import Aegis.Lifecycle.Writes

/-!
# Scheduler.Sweep

`Scheduler.sweep`, the passes that requeue or dead-letter the tasks whose lease has run out.

A pass lists the expired leases once, and then reads and writes the listed tasks one by one. Its
writes look at the status of the task and no longer at the lease, so a pass keeps to the leases as
long as no call gives a listed task a new one before the pass has written it.
-/

namespace Aegis

open List

inductive SweepStage where
  | expire | list
  | read (ids : List TaskID)
  | write (id : TaskID) (task : Task) (ids : List TaskID)
  | done

/-- A pass of `sweep`; `now` is the time it has read at its start. -/
structure Sweep where
  workspace : WorkspaceID
  now : Time
  stage : SweepStage

/-- `early` records what the property below is about and decides no step: the tasks that a pass
has requeued or dead-lettered before the end of their stored lease. -/
structure Sweeper where
  store : Store
  now : Time
  sweeps : List Sweep
  early : List TaskID

/-- `advance i failed` is the next store call of a pass; a call that has `failed` for reasons of
the database does nothing. -/
inductive SweepEvent where
  | call (op : Op)
  | tick (d : Nat)
  | sweep (workspace : WorkspaceID)
  | advance (i : Nat) (failed : Bool)

namespace SweepStage

def pending : SweepStage → List TaskID
  | read ids => ids
  | write id _ ids => id :: ids
  | _ => []

def next : List TaskID → SweepStage
  | [] => done
  | ids => read ids

end SweepStage

def Store.sweepTask (c : Ctx) (id : TaskID) (task : Task) (s : Store) : Except StoreError Store :=
  if task.maxRetries ≤ task.retryCount then
    s.updateTaskStatus c id (task.workerID.getD "") .deadLetter "max retries exceeded" "MaxRetries"
  else s.releaseTask c id

def Store.leaseRuns (s : Store) (id : TaskID) (now : Time) : Bool :=
  (s.tasks.find? id).any fun t => t.leaseUntil.any (now < ·)

namespace Sweeper

variable (cfg : Config)

def ctx (v : Sweeper) (p : Sweep) : Ctx := ⟨p.workspace, v.now⟩

def sweepStep (v : Sweeper) (p : Sweep) (failed : Bool) : Store × SweepStage × List TaskID :=
  match p.stage with
  | .expire =>
    match v.store.expireHumanInterventions (v.ctx p) "" "", failed with
    | .ok store, false => (store, .list, [])
    | _, _ => (v.store, .done, [])
  | .list =>
    if failed then (v.store, .done, [])
    else (v.store, .next (v.store.listExpiredLeases (v.ctx p) p.now), [])
  | .read [] => (v.store, .done, [])
  | .read (id :: ids) =>
    match v.store.getTaskByID (v.ctx p) id, failed with
    | .ok task, false => (v.store, .write id task ids, [])
    | _, _ => (v.store, .next ids, [])
  | .write id task ids =>
    match v.store.sweepTask (v.ctx p) id task, failed with
    | .ok store, false => (store, .next ids, if v.store.leaseRuns id v.now then [id] else [])
    | _, _ => (v.store, .next ids, [])
  | .done => (v.store, .done, [])

def step (v : Sweeper) : SweepEvent → Sweeper
  | .call op => { v with store := op.apply cfg v.store }
  | .tick d => { v with now := v.now + d }
  | .sweep workspace => { v with sweeps := v.sweeps ++ [⟨workspace, v.now, .expire⟩] }
  | .advance i failed =>
    match v.sweeps[i]? with
    | none => v
    | some p =>
      let (store, stage, early) := v.sweepStep p failed
      { v with
        store := store
        sweeps := v.sweeps.set i { p with stage := stage }
        early := v.early ++ early }

/-- No pass has taken a task from its worker before the end of the lease. -/
def LeasesKept (v : Sweeper) : Prop := v.early = []

end Sweeper

/-- The call would give the task a new lease: a claim with the task at the head of its queue, a
renewal by the worker that holds it, or an approval of a request it waits for. -/
def Op.grantsLease (s : Store) (id : TaskID) : Op → Bool
  | claimTask c r =>
    ((s.candidates c r.browserProfileID).argmin (Store.queueKey r)).any (·.id == id)
  | renewLease c taskID workerID _ => taskID == id && s.tasks.any (Store.heldBy c id workerID)
  | decideHumanIntervention c iid checkpointID .approved _ _ _ =>
    (s.humanInterventions.find? iid).any fun h =>
      h.taskID == id && h.workspaceID == c.workspace && h.status == .pending &&
        c.now < h.expiresAt && checkpointID == h.checkpointID
  | _ => false

namespace Sweeper

/-- No call gives a new lease to a task that a pass has listed and not written yet. -/
def NoGrantWhileListed (v : Sweeper) : SweepEvent → Prop
  | .call op => ∀ p ∈ v.sweeps, ∀ id ∈ p.stage.pending, op.grantsLease v.store id = false
  | _ => True

instance (v : Sweeper) : ∀ e, Decidable (NoGrantWhileListed v e)
  | .call op => inferInstanceAs
      (Decidable (∀ p ∈ v.sweeps, ∀ id ∈ p.stage.pending, op.grantsLease v.store id = false))
  | .tick _ | .sweep _ | .advance _ _ => .isTrue trivial

structure Initial (v : Sweeper) : Prop where
  store : v.store.Initial
  sweeps : v.sweeps = []
  early : v.early = []

end Sweeper

/-! ## Leases under a call -/

def TaskWrite.isGrant : TaskWrite → Bool
  | lease _ _ _ | renew _ | resume _ => true
  | _ => false

namespace Store

variable {cfg : Config} {s s' : Store} {op : Op} {id : TaskID} {now : Time}

/-- The task exists, and its stored lease has run out at `now` or is none. -/
def LapsedBy (s : Store) (now : Time) (id : TaskID) : Prop :=
  ∃ t, s.tasks.find? id = some t ∧ ∀ u ∈ t.leaseUntil, u ≤ now

theorem LapsedBy.mono {now' : Time} (h : LapsedBy s now id) (hle : now ≤ now') : LapsedBy s now' id := by
  obtain ⟨t, ht, hlapsed⟩ := h
  exact ⟨t, ht, fun u hu => (hlapsed u hu).trans hle⟩

theorem LapsedBy.leaseRuns (h : LapsedBy s now id) : s.leaseRuns id now = false := by
  obtain ⟨t, ht, hlapsed⟩ := h
  rw [Store.leaseRuns, ht]
  cases hu : t.leaseUntil with
  | none => simp [hu]
  | some u => simpa [hu] using hlapsed u hu

theorem leaseUntil_clause {w : TaskWrite} (hw : w.isGrant = false) (now : Time) (t : Task) :
    ((w.clause now).set t).leaseUntil = none ∨ ((w.clause now).set t).leaseUntil = t.leaseUntil := by
  cases w with
  | lease worker u attempt | renew u | resume u => cases hw
  | report status message errorType =>
    simp only [TaskWrite.clause, Task.report]
    split
    · exact .inl rfl
    · exact .inr rfl
  | cancel => exact .inr rfl
  | requestCancel => exact .inr rfl
  | _ => exact .inl rfl

theorem Writes.lapsedBy {at' : Time} {id' : TaskID} {w : TaskWrite}
    (hw : Writes s s' at' id' w) (hgrant : id' = id → w.isGrant = false) (h : LapsedBy s now id) :
    LapsedBy s' now id := by
  obtain ⟨-, -, -, htasks⟩ := hw
  obtain ⟨t, ht, hlapsed⟩ := h
  unfold LapsedBy
  rw [htasks, Table.find?_updateRow]
  by_cases hid : id = id'
  · rw [if_pos hid, ht]
    refine ⟨(w.clause at').onID.set t, rfl, fun u hu => ?_⟩
    rcases leaseUntil_clause (hgrant hid.symm) at' t with hnone | hsame
    · rw [TaskUpdate.onID_set, hnone] at hu
      cases hu
    · rw [TaskUpdate.onID_set, hsame] at hu
      exact hlapsed u hu
  · rw [if_neg hid]
    exact ⟨t, ht, hlapsed⟩

theorem exec_lapsedBy (h : op.exec cfg s = .ok s') (hgrant : op.grantsLease s id = false)
    (hl : LapsedBy s now id) : LapsedBy s' now id := by
  refine exec_rule (P := fun tasks => ∃ t, tasks.find? id = some t ∧ ∀ u ∈ t.leaseUntil, u ≤ now)
    h hl ?_ ?_ ?_
  · intro c t u _ _ _ _ hins
    obtain ⟨r, hr, hlapsed⟩ := hl
    exact ⟨r, Table.find?_insert?_of_some hins hr, hlapsed⟩
  · intro at' id' w hs hw
    refine hw.lapsedBy ?_ hl
    rintro rfl
    cases hs with
    | claim _ hhead => simp [Op.grantsLease, hhead] at hgrant
    | renew hheld => simp [Op.grantsLease, hheld] at hgrant
    | resume hfind hws hp hnow hne hcheckpoint =>
      simp [Op.grantsLease, hfind, hws, hp, hnow, hcheckpoint] at hgrant
    | _ => rfl
  · intro s₁ s₂ at' id' hl₁ hw
    exact hw.lapsedBy (fun _ => rfl) hl₁

end Store

namespace Sweeper

open Store

variable {cfg : Config} {v : Sweeper} {p : Sweep} {failed : Bool}

theorem sweepTask_exec {s s' : Store} {c : Ctx} {id : TaskID} {task : Task}
    (h : s.sweepTask c id task = .ok s') :
    ∃ op : Op, op.exec cfg s = .ok s' ∧ ∀ id, op.grantsLease s id = false := by
  unfold Store.sweepTask at h
  split at h
  · exact ⟨.updateTaskStatus c id (task.workerID.getD "") .deadLetter "max retries exceeded"
      "MaxRetries", h, fun _ => rfl⟩
  · exact ⟨.releaseTask c id, h, fun _ => rfl⟩

variable (cfg v p failed) in
theorem sweepStep_store :
    (v.sweepStep p failed).1 = v.store ∨ ∃ op : Op, op.exec cfg v.store = .ok (v.sweepStep p failed).1 ∧
        ∀ id, op.grantsLease v.store id = false := by
  unfold sweepStep
  cases p.stage with
  | expire =>
    dsimp only
    split
    · rename_i store h
      exact .inr ⟨.expireHumanInterventions (v.ctx p) "" "", h, fun _ => rfl⟩
    · exact .inl rfl
  | list =>
    left
    dsimp only
    split <;> rfl
  | read ids =>
    left
    cases ids with
    | nil => rfl
    | cons first ids =>
      dsimp only
      split <;> rfl
  | write id task ids =>
    dsimp only
    cases h : v.store.sweepTask (v.ctx p) id task with
    | error e => exact .inl rfl
    | ok store =>
      cases failed with
      | true => exact .inl rfl
      | false => exact .inr (sweepTask_exec h)
  | done => exact .inl rfl

theorem next_pending (ids : List TaskID) : (SweepStage.next ids).pending = ids := by
  cases ids <;> rfl

theorem listExpiredLeases_lapsedBy {s : Store} {c : Ctx} {before now : Time} {id : TaskID}
    (hle : before ≤ now) (h : id ∈ s.listExpiredLeases c before) : s.LapsedBy now id := by
  obtain ⟨t, ht, rfl⟩ := mem_map.mp h
  obtain ⟨hmem, hcond⟩ := mem_filter.mp ht
  simp only [Bool.and_eq_true, Option.any_eq_true, decide_eq_true_eq] at hcond
  obtain ⟨-, u, hu, hlapsed⟩ := hcond
  refine ⟨t, Table.find?_key hmem, fun w hw => ?_⟩
  obtain rfl := Option.mem_unique hu hw
  exact hlapsed.trans hle

theorem sweepStep_pending (hle : p.now ≤ v.now) {id : TaskID}
    (h : id ∈ (v.sweepStep p failed).2.1.pending) :
    id ∈ p.stage.pending ∨ (v.sweepStep p failed).1 = v.store ∧ v.store.LapsedBy v.now id := by
  unfold sweepStep at h ⊢
  cases hstage : p.stage with
  | expire =>
    rw [hstage] at h
    dsimp only at h
    split at h <;> cases h
  | list =>
    rw [hstage] at h
    dsimp only at h ⊢
    split at h
    · cases h
    · rename_i hf
      rw [next_pending] at h
      refine .inr ⟨by rw [if_neg hf], listExpiredLeases_lapsedBy hle h⟩
  | read ids =>
    rw [hstage] at h
    cases ids with
    | nil => cases h
    | cons first ids =>
      left
      dsimp only at h
      split at h
      · exact h
      · rw [next_pending] at h
        exact mem_cons_of_mem _ h
  | write first task ids =>
    rw [hstage] at h
    left
    dsimp only at h
    split at h <;> rw [next_pending] at h <;> exact mem_cons_of_mem _ h
  | done =>
    rw [hstage] at h
    cases h

theorem sweepStep_early (h : ∀ id ∈ p.stage.pending, v.store.LapsedBy v.now id) :
    (v.sweepStep p failed).2.2 = [] := by
  unfold sweepStep
  cases hstage : p.stage with
  | write id task ids =>
    have hlapsed := (h id (by rw [hstage]; exact mem_cons_self)).leaseRuns
    dsimp only
    split
    · simp [hlapsed]
    · rfl
  | expire | list => dsimp only; split <;> rfl
  | read ids =>
    cases ids with
    | nil => rfl
    | cons first ids => dsimp only; split <;> rfl
  | done => rfl

/-- The invariant: what is listed is still lapsed. -/
structure Lapsed (v : Sweeper) : Prop where
  started : ∀ p ∈ v.sweeps, p.now ≤ v.now
  pending : ∀ p ∈ v.sweeps, ∀ id ∈ p.stage.pending, v.store.LapsedBy v.now id
  early : v.early = []

/-- A listed task stays lapsed until a call grants it a new lease. -/
theorem Lapsed.step (h : Lapsed v) {e : SweepEvent} (hgrant : NoGrantWhileListed v e) :
    Lapsed (v.step cfg e) := by
  cases e with
  | call op =>
    refine ⟨h.started, fun p hp id hid => ?_, h.early⟩
    rcases Op.apply_eq cfg v.store op with hsame | hok
    · simp only [Sweeper.step, hsame]
      exact h.pending p hp id hid
    · exact exec_lapsedBy hok (hgrant p hp id hid) (h.pending p hp id hid)
  | tick d =>
    have hle : v.now ≤ v.now + d := Int.le_add_of_nonneg_right (Int.natCast_nonneg d)
    exact ⟨fun p hp => (h.started p hp).trans hle,
      fun p hp id hid => (h.pending p hp id hid).mono hle, h.early⟩
  | sweep workspace =>
    refine ⟨fun p hp => ?_, fun p hp => ?_, h.early⟩
    · rcases mem_append.mp hp with hp | hp
      · exact h.started p hp
      · rw [mem_singleton.mp hp]
        exact le_refl v.now
    · rcases mem_append.mp hp with hp | hp
      · exact h.pending p hp
      · rw [mem_singleton.mp hp]
        exact nofun
  | advance i failed =>
    cases hi : v.sweeps[i]? with
    | none =>
      simp only [Sweeper.step, hi]
      exact h
    | some p =>
      have hp := mem_of_getElem? hi
      -- what has lapsed before the call has lapsed after it
      have hkeep : ∀ id, v.store.LapsedBy v.now id → (v.sweepStep p failed).1.LapsedBy v.now id := by
        intro id hl
        rcases sweepStep_store cfg v p failed with hsame | ⟨op, hok, hno⟩
        · rw [hsame]
          exact hl
        · exact exec_lapsedBy hok (hno id) hl
      simp only [Sweeper.step, hi]
      refine ⟨fun q hq => ?_, fun q hq id hid => ?_, ?_⟩
      · rcases mem_or_eq_of_mem_set hq with hq | rfl
        · exact h.started q hq
        · exact h.started p hp
      · rcases mem_or_eq_of_mem_set hq with hq | rfl
        · exact hkeep id (h.pending q hq id hid)
        · rcases sweepStep_pending (h.started p hp) hid with hold | ⟨hsame, hl⟩
          · exact hkeep id (h.pending p hp id hold)
          · rw [hsame]
            exact hl
      · rw [h.early, sweepStep_early (h.pending p hp), nil_append]

end Sweeper

/-- **Lease safety.** In a run where no call gives a listed task a new lease before its pass has
written it, no pass takes a task early. -/
theorem sweep_lease_safety {cfg : Config} {v : Sweeper} (hi : Sweeper.Initial v)
    {es : List SweepEvent} (h : Meets (Sweeper.step cfg) Sweeper.NoGrantWhileListed v es) :
    Always (Sweeper.step cfg) Sweeper.LeasesKept v es := by
  have hlapsed : Sweeper.Lapsed v := by
    refine ⟨fun p hp => ?_, fun p hp => ?_, hi.early⟩ <;>
      · rw [hi.sweeps] at hp
        cases hp
  exact (h.always hlapsed fun _ _ hl hg => hl.step hg).mono fun _ hl => hl.early

def Sample.sweeper : Sweeper := ⟨store, 0, [], []⟩

theorem Sample.sweeper_initial : Sweeper.Initial sweeper := ⟨store_initial, rfl, rfl⟩

/-- A task is claimed until 101, and a pass lists it and reads it at 200. -/
def listedRun : List SweepEvent :=
  [.call (Sample.create "task" 0), .call (Sample.claim "worker" "first" 1), .tick 200,
    .sweep Sample.workspace, .advance 0 false, .advance 0 false, .advance 0 false]

/-- The pass requeues the task. -/
theorem sweep_lease_safety_listedRun : ((run (Sweeper.step Sample.config) Sample.sweeper
        (listedRun ++ [.advance 0 false])).store.tasks.rows.map (·.status)) = [.pending] ∧
      Always (Sweeper.step Sample.config) Sweeper.LeasesKept Sample.sweeper
        (listedRun ++ [.advance 0 false]) :=
  ⟨by decide, sweep_lease_safety Sample.sweeper_initial (by decide)⟩

/-- A heartbeat of the worker comes first, is acknowledged until 300, and the pass requeues the
task all the same. -/
theorem sweep_takes_renewed :
    ¬ ∀ cfg v es, Sweeper.Initial v → (run (Sweeper.step cfg) v es).early = [] := by
  intro h
  have hearly := h Sample.config Sample.sweeper (listedRun ++
    [.call (.renewLease (Sample.at' 200) "task" "worker" 100), .advance 0 false])
    Sample.sweeper_initial
  revert hearly
  decide

end Aegis
