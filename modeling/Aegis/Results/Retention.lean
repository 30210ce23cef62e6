import Aegis.Lifecycle.Writes
import Aegis.Results.Server
import Aegis.Store.Purge

/-!
# Results.Retention

The retention passes of `PurgeOldData` beside a running server.

A pass reads a batch of ended tasks and then deletes their rows, one table a statement, without
looking at the tasks again. Between two statements of a pass the server goes on: a task of the
batch that is retried meanwhile is live when its rows are deleted.

* `Retention.step` — the server, the reports of the workers and the passes, interleaved.
* `lost` — the rows of live tasks that the passes have deleted.
-/

namespace Aegis

open List Table

def TaskStatus.isLive (status : TaskStatus) : Bool := !status.isTerminal

/-- The next statement of a pass. `delete ids tables` is the phase of the completed tasks, with the
child tables that are left; when none is, the tasks themselves are next. -/
inductive PurgeStage where
  | purge (tables : List ChildTable)
  | select
  | delete (ids : List TaskID) (tables : List ChildTable)
  | finished

/-- A call of `PurgeOldData`; `now` is the time at which it has started. -/
structure PurgePass where
  workspace : WorkspaceID
  now : Time
  stage : PurgeStage

/-- What a statement of a pass takes from the database: whether it fails, and the rows that its
`ORDER BY` and `LIMIT` leave. -/
structure PurgeTurn where
  failed : Bool
  picked : ChildRow → Bool
  tie : TaskID → Nat

namespace PurgePass

variable (cfg : PurgeConfig) (turn : PurgeTurn) (db : Tables) (p : PurgePass)

def batch : List TaskID :=
  match p.stage with
  | .delete ids _ => ids
  | _ => []

/-- The statement of the completed-task phase; `none` is the one on the tasks. -/
def deleteFrom (ids : List TaskID) : Option ChildTable → Except StoreError Tables
  | some table => db.deleteChildren p.workspace ids table
  | none => db.deleteTasks p.workspace ids

/-- The next statement; an error ends the pass. -/
def step : Tables × PurgeStage :=
  if turn.failed then (db, .finished)
  else
    match p.stage with
    | .purge [] => (db, .select)
    | .purge (table :: rest) =>
      match db.purgeTable p.workspace (p.now - cfg.retention table) turn.picked table with
      | some db' => (db', p.stage)
      | none => (db, .purge rest)
    | .select =>
      match db.completedTasks p.workspace (p.now - cfg.completedTaskRetention) turn.tie
          cfg.batchSize with
      | [] => (db, .finished)
      | id :: ids => (db, .delete (id :: ids) PurgeConfig.childTablesForTask)
    | .delete ids tables =>
      match p.deleteFrom db ids tables.head? with
      | .error _ => (db, .finished)
      | .ok db' => (db', if tables.isEmpty then .select else .delete ids tables.tail)
    | .finished => (db, .finished)

end PurgePass

namespace Tables

def isLive (db : Tables) (id : TaskID) : Bool :=
  db.store.tasks.any fun t => t.id == id && t.status.isLive

/-- The table has a row of the task; `none` is the table of the tasks. -/
def hasRow (db : Tables) (workspace : WorkspaceID) (id : TaskID) : Option ChildTable → Bool
  | some table => (db.rows table).any fun r => r.workspaceID == workspace && r.taskID == id
  | none => db.store.tasks.any fun t => t.workspaceID == workspace && t.id == id

end Tables

def PurgePass.liveRows (db : Tables) (p : PurgePass) : List TaskID :=
  match p.stage with
  | .delete ids tables =>
    ids.filter fun id => db.isLive id && db.hasRow p.workspace id tables.head?
  | _ => []

def PurgePass.commits (turn : PurgeTurn) (db : Tables) (p : PurgePass) : Bool :=
  match p.stage with
  | .delete ids tables => !turn.failed && (p.deleteFrom db ids tables.head?).toOption.isSome
  | _ => false

/-- The server with the logs, snapshots and heartbeats of its workers and the retention passes.
`lost` names the task of every row of a live task that a pass has deleted, and decides no step. -/
structure Retention where
  server : Server
  logs : List ChildRow
  snapshots : List ChildRow
  heartbeats : List ChildRow
  passes : List PurgePass
  lost : List TaskID

inductive RetentionEvent where
  | server (e : Event)
  | log (r : ChildRow)
  | snapshot (r : ChildRow)
  | heartbeat (r : ChildRow)
  | start (workspace : WorkspaceID) (now : Time)
  | purge (i : Nat) (turn : PurgeTurn)

/-- The task of the row of a submission whose next statement is the `INSERT` is gone. -/
def Server.orphan (v : Server) (i : Nat) : Bool :=
  v.submissions[i]?.any fun sub =>
    sub.stage == .insert && !v.store.tasks.any fun t => t.id == sub.row.taskID

/-- The `INSERT` of submission `i` fails on the foreign key of its row. -/
def Server.refuse (v : Server) (i : Nat) : Server :=
  match v.submissions[i]? with
  | none => v
  | some sub =>
    { v with submissions :=
        v.submissions.set i { sub with stage := .returned (.error Tables.foreignKeyFailed) } }

namespace Retention

variable (cfg : Config) (pcfg : PurgeConfig) (v : Retention)

def tables : Tables := ⟨v.server.store, v.logs, v.snapshots, v.heartbeats⟩

/-- The `INSERT` of a log, a snapshot or a heartbeat, which needs the task. -/
def admits (r : ChildRow) : Bool := v.server.store.tasks.any fun t => t.id == r.taskID

/-- Pass `i` makes its next statement. -/
def onPass (i : Nat) (turn : PurgeTurn) : Retention :=
  match v.passes[i]? with
  | none => v
  | some p =>
    let (db, stage) := p.step pcfg turn v.tables
    { server := { v.server with store := db.store }
      logs := db.logs
      snapshots := db.snapshots
      heartbeats := db.heartbeats
      passes := v.passes.set i { p with stage := stage }
      lost := v.lost ++ if p.commits turn v.tables then p.liveRows v.tables else [] }

def step (v : Retention) : RetentionEvent → Retention
  | .server (.advance i) =>
    { v with server := if v.server.orphan i then v.server.refuse i else v.server.advance i }
  | .server e => { v with server := v.server.step cfg e }
  | .log r => if v.admits r then { v with logs := v.logs ++ [r] } else v
  | .snapshot r => if v.admits r then { v with snapshots := v.snapshots ++ [r] } else v
  | .heartbeat r => if v.admits r then { v with heartbeats := v.heartbeats ++ [r] } else v
  | .start workspace now =>
    { v with passes := v.passes ++ [⟨workspace, now, .purge PurgeConfig.childTables⟩] }
  | .purge i turn => v.onPass pcfg i turn

/-- No statement of the completed-task phase has deleted a row of a live task. -/
def NothingLost (v : Retention) : Prop := v.lost = []

instance : Decidable v.NothingLost := inferInstanceAs (Decidable (v.lost = []))

end Retention

def Op.revives (id : TaskID) : Op → Bool
  | .retryTask _ taskID => taskID == id
  | .createTask _ t => t.id == id
  | _ => false

namespace Retention

variable (v : Retention)

/-- A statement that goes through finds no row of a live task of its batch. -/
def Harmless : RetentionEvent → Prop
  | .purge i turn =>
    ∀ p ∈ v.passes[i]?, p.commits turn v.tables = true → p.liveRows v.tables = []
  | _ => True

/-- No task of a batch that a pass is deleting is retried, or created again. -/
def Apart : RetentionEvent → Prop
  | .server (.call op _) => ∀ p ∈ v.passes, ∀ id ∈ p.batch, op.revives id = false
  | _ => True

instance : ∀ e, Decidable (v.Apart e)
  | .server (.call op _) =>
    inferInstanceAs (Decidable (∀ p ∈ v.passes, ∀ id ∈ p.batch, op.revives id = false))
  | .server (.submit _ _ _) | .server (.advance _) | .log _ | .snapshot _ | .heartbeat _
  | .start _ _ | .purge _ _ => .isTrue trivial

structure Initial : Prop where
  server : v.server.Initial
  passes : v.passes = []
  lost : v.lost = []

end Retention

section Steps

variable {cfg : Config} {pcfg : PurgeConfig} {v : Retention} {s s' : Store} {id : TaskID}
  {turn : PurgeTurn} {db : Tables} {p : PurgePass} {i : Nat}

def Store.Ended (s : Store) (id : TaskID) : Prop :=
  ∀ t ∈ s.tasks.rows, t.id = id → t.status.isTerminal = true

theorem eq_retry_of_guard {w : TaskWrite} {status : TaskStatus} (hg : w.guard status)
    (ht : status.isTerminal) : w = .retry := by
  have hactive : status.isActive = false := by cases status <;> first | rfl | cases ht
  have hheld : status.isHeld = false := by cases status <;> first | rfl | cases ht
  have hcancel : status.isCancellable = false := by cases status <;> first | rfl | cases ht
  have hpending : status ≠ .pending := by rintro rfl; cases ht
  have hrunning : status ≠ .running := by rintro rfl; cases ht
  have hwaiting : status ≠ .waitingHuman := by rintro rfl; cases ht
  cases w <;> simp_all [TaskWrite.guard]

theorem ended_of_writes {now : Time} {task : TaskID} {w : TaskWrite}
    (h : ∀ t ∈ s.tasks.rows, t.id = id → t.status.isTerminal = true)
    (hw : Store.Writes s s' now task w) (hretry : task = id → w ≠ .retry) :
    ∀ t ∈ s'.tasks.rows, t.id = id → t.status.isTerminal = true := by
  obtain ⟨t, ht, hguard, htasks⟩ := hw
  intro u hu hid
  rw [htasks] at hu
  rcases mem_updateRow.mp hu with ⟨hold, -⟩ | ⟨q, hq, rfl⟩
  · exact h u hold hid
  · have hq' : q.id = task := key_of_find? hq
    have htask : task = id := by
      rw [← hq', ← hid]
      exact ((w.clause now).onID.keeps q).symm
    have hterminal := h t (mem_of_find? ht) ((key_of_find? ht).trans htask)
    exact absurd (eq_retry_of_guard hguard hterminal) (hretry htask)

theorem ended_exec {op : Op} (hop : op.exec cfg s = .ok s') (hrev : op.revives id = false)
    (h : s.Ended id) : s'.Ended id := by
  refine Store.exec_rule
    (P := fun tasks => ∀ t ∈ tasks.rows, t.id = id → t.status.isTerminal = true) hop h ?_ ?_ ?_
  · rintro c t u rfl hid - - hins r hr hrid
    rw [(insert?_eq_some.mp hins).2] at hr
    rcases mem_append.mp hr with hr | hr
    · exact h r hr hrid
    · rw [mem_singleton.mp hr, hid] at hrid
      simp [Op.revives, hrid] at hrev
  · intro now task w hsends hw
    refine ended_of_writes h hw ?_
    rintro rfl rfl
    cases hsends
    simp [Op.revives] at hrev
  · intro s₁ s₂ now task h₁ hw
    exact ended_of_writes h₁ hw nofun

theorem ended_apply {op : Op} (hrev : op.revives id = false) (h : s.Ended id) :
    (op.apply cfg s).Ended id := by
  rcases Op.apply_eq cfg s op with he | hok
  · rwa [he]
  · exact ended_exec hok hrev h

/-- `t` has a row with its contract, and its own if it has ended and is not retried. -/
def Task.KeptIn (t : Task) (retried : Prop) (tasks : Table Task.id) : Prop :=
  ∃ u, tasks.find? t.id = some u ∧ u.contract = t.contract ∧
    (t.status.isTerminal → (t.status.isRetryable → ¬retried) → u = t)

theorem kept_of_writes {now : Time} {task : TaskID} {w : TaskWrite} {t : Task} {retried : Prop}
    (h : t.KeptIn retried s.tasks) (hw : Store.Writes s s' now task w)
    (hretry : task = t.id → w = .retry → retried) : t.KeptIn retried s'.tasks := by
  obtain ⟨u, hu, hcontract, hkept⟩ := h
  obtain ⟨q, hq, hguard, htasks⟩ := hw
  rw [Task.KeptIn, htasks, Table.find?_updateRow, hu]
  split
  · rename_i hid
    obtain rfl : u = q := Option.mem_unique hu (hid ▸ hq)
    refine ⟨_, rfl, ((w.clause now).keeps u).trans hcontract, fun hend hno => ?_⟩
    -- Only a retry writes to a task that has ended.
    obtain rfl := hkept hend hno
    obtain rfl := eq_retry_of_guard hguard hend
    exact absurd (hretry hid.symm rfl) (hno hguard)
  · exact ⟨u, rfl, hcontract, hkept⟩

/-- Every task keeps a row and its contract, and the whole row from its end until it is retried. -/
def Store.KeepsRows (s : Store) (ops : List Op) (s' : Store) : Prop :=
  ∀ t ∈ s.tasks.rows, t.KeptIn (∃ c, .retryTask c t.id ∈ ops) s'.tasks

/-- No task is lost, and what is done stays as it is. -/
theorem Store.run_keepsRows (cfg : Config) (s : Store) (ops : List Op) :
    s.KeepsRows ops (run (Op.apply cfg) s ops) := by
  intro t ht
  refine (meets_of_forall fun _ hop => hop).invariant (C := fun _ op => op ∈ ops)
    (I := fun s : Store => t.KeptIn _ s.tasks) ⟨t, Table.find?_key ht, rfl, fun _ _ => rfl⟩ ?_
  intro s op h hop
  rcases Op.apply_eq cfg s op with heq | hexec
  · rwa [heq]
  refine Store.exec_rule hexec h ?_ ?_ ?_
  · intro c v u _ _ _ _ hins
    obtain ⟨u', hu', hkept⟩ := h
    exact ⟨u', Table.find?_insert?_of_some hins hu', hkept⟩
  · intro now task w hsends hw
    refine kept_of_writes h hw ?_
    rintro hid rfl
    cases hsends
    exact ⟨_, hid ▸ hop⟩
  · intro s₁ s₂ now task h₁ hw
    exact kept_of_writes h₁ hw nofun

theorem Store.Ended.of_subset (h : s.Ended id) (hsub : ∀ t ∈ s'.tasks.rows, t ∈ s.tasks.rows) :
    s'.Ended id :=
  fun t ht hid => h t (hsub t ht) hid

theorem purge_tasks {t : Task} (ht : t ∈ (p.step pcfg turn db).1.store.tasks.rows) :
    t ∈ db.store.tasks.rows := by
  unfold PurgePass.step at ht
  split at ht
  · exact ht
  · split at ht
    · exact ht
    · split at ht
      · rename_i hpurge
        rwa [Tables.purgeTable_tasks hpurge] at ht
      · exact ht
    · split at ht <;> exact ht
    · split at ht
      · exact ht
      · rename_i ids tables _ _ db' hdelete
        cases htable : tables.head? with
        | none =>
          rw [htable] at hdelete
          exact Tables.deleteTasks_tasks hdelete ht
        | some table =>
          rw [htable] at hdelete
          rwa [Tables.deleteChildren_tasks hdelete] at ht
    · exact ht

theorem purge_batch (hid : id ∈ PurgePass.batch { p with stage := (p.step pcfg turn db).2 }) :
    id ∈ p.batch ∨ db.store.Ended id := by
  unfold PurgePass.batch at hid
  dsimp only at hid
  split at hid
  · rename_i ids tables hstage
    unfold PurgePass.step at hstage
    split at hstage
    · cases hstage
    · split at hstage
      · cases hstage
      · rename_i hpurge
        split at hstage
        · dsimp only at hstage
          rw [hpurge] at hstage
          cases hstage
        · cases hstage
      · split at hstage
        · cases hstage
        · rename_i hselect
          right
          cases hstage
          intro t ht htid
          exact Tables.completedTasks_terminal (hselect ▸ hid) ht htid
      · rename_i ids' tables' hdelete
        split at hstage
        · cases hstage
        · left
          dsimp only at hstage
          split at hstage
          · cases hstage
          · cases hstage
            unfold PurgePass.batch
            rw [hdelete]
            exact hid
      · cases hstage
  · cases hid

namespace Retention

/-- Nothing is lost, and every task of a batch in hand has ended. -/
structure Settled (v : Retention) : Prop where
  nothing : v.NothingLost
  ended : ∀ p ∈ v.passes, ∀ id ∈ p.batch, v.server.store.Ended id

theorem advance_tasks (w : Server) (i : Nat) : (w.advance i).store.tasks = w.store.tasks := by
  rcases Server.advance_cases w i with ⟨-, hv⟩ | ⟨sub, -, ⟨-, stage, -, hv⟩ | ⟨-, -, hv⟩ | ⟨-, s', hok, hv⟩⟩
  · rw [hv]
  · rw [hv]
  · rw [hv]
  · rw [hv, (Store.insertResult_eq_ok hok).2.2.2]

theorem refuse_store (w : Server) (i : Nat) : (w.refuse i).store = w.store := by
  unfold Server.refuse
  split <;> rfl

/-- One step loses nothing exactly when it is harmless. -/
theorem nothingLost_step (h : v.NothingLost) (e : RetentionEvent) :
    (v.step cfg pcfg e).NothingLost ↔ v.Harmless e := by
  cases e with
  | purge i turn =>
    unfold step onPass
    dsimp only
    cases hi : v.passes[i]? with
    | none =>
      refine ⟨fun _ p hp => ?_, fun _ => h⟩
      rw [hi] at hp
      cases hp
    | some p =>
      have hlost : (v.lost ++ if p.commits turn v.tables then p.liveRows v.tables else []) = [] ↔
          (p.commits turn v.tables → p.liveRows v.tables = []) := by
        rw [show v.lost = [] from h, nil_append]
        split
        · rename_i hc
          exact ⟨fun hl _ => hl, fun hl => hl hc⟩
        · rename_i hc
          exact ⟨fun _ hc' => absurd hc' hc, fun _ => rfl⟩
      refine hlost.trans ⟨fun hl q hq => ?_, fun hall => hall p hi⟩
      rw [hi] at hq
      rwa [← Option.some.inj hq]
  | server e => cases e <;> exact ⟨fun _ => trivial, fun _ => h⟩
  | log r | snapshot r | heartbeat r =>
    refine ⟨fun _ => trivial, fun _ => ?_⟩
    unfold step
    dsimp only
    split <;> exact h
  | start workspace now => exact ⟨fun _ => trivial, fun _ => h⟩

theorem liveRows_nil (hended : ∀ id ∈ p.batch, db.store.Ended id) : p.liveRows db = [] := by
  unfold PurgePass.liveRows
  split
  · rename_i ids tables hstage
    refine filter_eq_nil_iff.mpr fun id hid hlive => ?_
    simp only [Tables.isLive, Bool.and_eq_true] at hlive
    obtain ⟨t, ht, hcond⟩ := Table.any_eq_true.mp hlive.1
    simp only [TaskStatus.isLive, Bool.and_eq_true, beq_iff_eq, Bool.not_eq_true'] at hcond
    have hbatch : id ∈ p.batch := by
      unfold PurgePass.batch
      rw [hstage]
      exact hid
    rw [hended id hbatch t ht hcond.1] at hcond
    cases hcond.2
  · rfl

theorem Settled.harmless (h : v.Settled) (e : RetentionEvent) : v.Harmless e := by
  unfold Harmless
  split
  · intro p hp _
    exact liveRows_nil (h.ended p (mem_of_getElem? hp))
  · trivial

theorem Settled.ended_of {w : Retention} (h : v.Settled) (hp : w.passes = v.passes)
    (hs : ∀ p ∈ v.passes, ∀ id ∈ p.batch, v.server.store.Ended id → w.server.store.Ended id) :
    ∀ p ∈ w.passes, ∀ id ∈ p.batch, w.server.store.Ended id := by
  intro p hmem id hid
  rw [hp] at hmem
  exact hs p hmem id hid (h.ended p hmem id hid)

theorem Settled.ended_purge (h : v.Settled) (i : Nat) (turn : PurgeTurn) :
    ∀ p ∈ (v.onPass pcfg i turn).passes, ∀ id ∈ p.batch,
      (v.onPass pcfg i turn).server.store.Ended id := by
  unfold onPass
  split
  · exact h.ended
  · rename_i p hi
    intro q hq id hid
    have hsub : ∀ t ∈ (p.step pcfg turn v.tables).1.store.tasks.rows,
        t ∈ v.server.store.tasks.rows := fun t ht => purge_tasks ht
    rcases mem_or_eq_of_mem_set hq with hq | rfl
    · exact (h.ended q hq id hid).of_subset hsub
    · rcases purge_batch hid with hold | hnew
      · exact (h.ended p (mem_of_getElem? hi) id hold).of_subset hsub
      · exact Store.Ended.of_subset (s := v.server.store) hnew hsub

/-- Apart from the retries, a batch that has ended stays so. -/
theorem Settled.step (h : v.Settled) {e : RetentionEvent} (hapart : v.Apart e) :
    (v.step cfg pcfg e).Settled := by
  refine ⟨(nothingLost_step h.nothing e).mpr (h.harmless e), ?_⟩
  cases e with
  | server e =>
    cases e with
    | call op ha =>
      exact h.ended_of rfl fun p hp id hid hended => ended_apply (hapart p hp id hid) hended
    | submit c newID r => exact h.ended
    | advance i =>
      refine h.ended_of rfl fun p hp id hid hended => hended.of_subset fun t ht => ?_
      unfold Retention.step at ht
      dsimp only at ht
      split at ht
      · rwa [refuse_store] at ht
      · rwa [advance_tasks] at ht
  | log r | snapshot r | heartbeat r =>
    unfold Retention.step
    dsimp only
    split <;> exact h.ended
  | start workspace now =>
    intro p hp id hid
    rcases mem_append.mp hp with hp | hp
    · exact h.ended p hp id hid
    · rw [mem_singleton.mp hp] at hid
      cases hid
  | purge i turn => exact h.ended_purge i turn

end Retention

end Steps

/-- **Retention deletes no live work.** In every run in which no task of a batch that a pass is
deleting is retried or created again, no statement of the completed-task phase deletes a row of a
live task. In any run that is so exactly when every such statement that goes through finds none in
its batch. -/
theorem retention_keeps_live {cfg : Config} {pcfg : PurgeConfig} {v : Retention} (hi : v.Initial)
    (es : List RetentionEvent) :
    (Meets (Retention.step cfg pcfg) Retention.Apart v es →
        Always (Retention.step cfg pcfg) Retention.NothingLost v es) ∧
      (Always (Retention.step cfg pcfg) Retention.NothingLost v es ↔
        Meets (Retention.step cfg pcfg) Retention.Harmless v es) := by
  have hsettled : v.Settled := by
    refine ⟨hi.lost, fun p hp => ?_⟩
    rw [hi.passes] at hp
    cases hp
  constructor
  · exact fun hapart => (hapart.always hsettled fun _ _ h ha => h.step ha).mono fun _ h => h.nothing
  · exact always_iff_meets (I := fun _ => True) trivial (fun _ _ _ => trivial) hi.lost
      fun _ e _ hv => Retention.nothingLost_step hv e

namespace Sample

def purgeConfig : PurgeConfig := ⟨fun _ => 1000, 10, 0⟩

def retention : Retention := ⟨server, [], [], [], [], []⟩

/-- A task has failed at 2, and at 100 a pass has come to its batch. -/
def selected : List RetentionEvent :=
  (claimed ++ [Event.call (.updateTaskStatus (at' 2) "task" "worker" .failed "" "") rfl]).map
    RetentionEvent.server ++ .start workspace 100 ::
  List.replicate 8 (.purge 0 ⟨false, fun _ => true, fun _ => 0⟩)

def deletions : List RetentionEvent :=
  List.replicate 9 (.purge 0 ⟨false, fun _ => true, fun _ => 0⟩)

end Sample

theorem retention_keeps_live_undisturbed :
    Always (Retention.step Sample.config Sample.purgeConfig) Retention.NothingLost
        Sample.retention (Sample.selected ++ Sample.deletions) ∧
      (run (Retention.step Sample.config Sample.purgeConfig) Sample.retention
        (Sample.selected ++ Sample.deletions)).server.store.tasks.rows = [] :=
  ⟨(retention_keeps_live ⟨Sample.server_initial, rfl, rfl⟩ _).1 (by decide), by decide⟩

/-- The task is retried after the pass has selected it. -/
theorem retried_task_purged : ¬ ∀ cfg pcfg (v : Retention) es, v.Initial →
      (run (Retention.step cfg pcfg) v es).NothingLost := by
  intro h
  have hnothing := h Sample.config Sample.purgeConfig Sample.retention
    (Sample.selected ++ .server (.call (.retryTask (Sample.at' 101) "task") rfl) :: Sample.deletions)
    ⟨Sample.server_initial, rfl, rfl⟩
  revert hnothing
  decide

/-- What is lost: its attempt, and the task itself. -/
example : (run (Retention.step Sample.config Sample.purgeConfig) Sample.retention
    (Sample.selected ++ .server (.call (.retryTask (Sample.at' 101) "task") rfl) ::
      Sample.deletions)).lost =
      ["task", "task"] := by
  decide

end Aegis
