import Mathlib.Data.List.Sort
import Aegis.Store.Db

/-!
# Store.Purge

The `DELETE` statements of `PurgeOldData`.

* `purgeTable` — the rows of a child table that are past their retention, in batches.
* `completedTasks` — a batch of tasks that ended long ago.
* `deleteChildren`, `deleteTasks` — the rows of the batch, table by table, and then the tasks.

The database runs with `foreign_keys(1)`: a statement that would leave a row without the task or
the attempt it refers to fails as a whole.
-/

namespace Aegis

open List

/-- The tables that refer to `tasks`. -/
inductive ChildTable where
  | results | logs | snapshots | heartbeats | statusUpdates | humanInterventions | checkpoints
  | executionAttempts
deriving DecidableEq

structure ChildRow where
  id : String
  workspaceID : WorkspaceID
  taskID : TaskID
  createdAt : Time

/-- The durations and the batch size of the configuration; `retention` is that of the child
tables that are purged by age. -/
structure PurgeConfig where
  retention : ChildTable → Duration
  completedTaskRetention : Duration
  retentionBatchSize : Int

namespace PurgeConfig

def childTables : List ChildTable :=
  [.results, .logs, .snapshots, .heartbeats, .statusUpdates, .checkpoints]

def childTablesForTask : List ChildTable :=
  [.results, .logs, .snapshots, .heartbeats, .statusUpdates, .humanInterventions, .checkpoints,
    .executionAttempts]

def batchSize (cfg : PurgeConfig) : Nat :=
  if cfg.retentionBatchSize ≤ 0 then 1000 else cfg.retentionBatchSize.toNat

end PurgeConfig

def Result.child (r : Result) : ChildRow := ⟨r.id, r.workspaceID, r.taskID, r.createdAt⟩

def Checkpoint.child (k : Checkpoint) : ChildRow := ⟨k.id, k.workspaceID, k.taskID, k.createdAt⟩

def HumanIntervention.child (h : HumanIntervention) : ChildRow :=
  ⟨h.id, h.workspaceID, h.taskID, h.createdAt⟩

def ExecutionAttempt.child (a : ExecutionAttempt) : ChildRow :=
  ⟨a.id, a.workspaceID, a.taskID, a.startedAt⟩

def TaskStatusUpdate.child (u : TaskStatusUpdate) : ChildRow :=
  ⟨"", u.workspaceID, u.taskID, u.createdAt⟩

structure Tables where
  store : Store
  logs : List ChildRow
  snapshots : List ChildRow
  heartbeats : List ChildRow

namespace Tables

variable (db : Tables) (workspace : WorkspaceID)

def rows : ChildTable → List ChildRow
  | .results => db.store.results.rows.map Result.child
  | .logs => db.logs
  | .snapshots => db.snapshots
  | .heartbeats => db.heartbeats
  | .statusUpdates => db.store.taskStatusUpdates.map TaskStatusUpdate.child
  | .humanInterventions => db.store.humanInterventions.rows.map HumanIntervention.child
  | .checkpoints => db.store.checkpoints.rows.map Checkpoint.child
  | .executionAttempts => db.store.executionAttempts.rows.map ExecutionAttempt.child

/-- `DELETE FROM table WHERE p`, before its foreign keys are looked at. -/
def delete (p : ChildRow → Bool) : ChildTable → Tables
  | .results =>
    { db with store := { db.store with results := db.store.results.delete fun r => p r.child } }
  | .logs => { db with logs := db.logs.filter fun r => !p r }
  | .snapshots => { db with snapshots := db.snapshots.filter fun r => !p r }
  | .heartbeats => { db with heartbeats := db.heartbeats.filter fun r => !p r }
  | .statusUpdates =>
    { db with store := { db.store with
      taskStatusUpdates := db.store.taskStatusUpdates.filter fun u => !p u.child } }
  | .humanInterventions =>
    { db with store := { db.store with
      humanInterventions := db.store.humanInterventions.delete fun h => p h.child } }
  | .checkpoints =>
    { db with store := { db.store with
      checkpoints := db.store.checkpoints.delete fun k => p k.child } }
  | .executionAttempts =>
    { db with store := { db.store with
      executionAttempts := db.store.executionAttempts.delete fun a => p a.child } }

/-- The `WHERE` clause of `purgeTable`; `picked` are the rows that its `ORDER BY` and `LIMIT`
leave. -/
def isExpired (cutoff : Time) (picked : ChildRow → Bool) (r : ChildRow) : Bool :=
  r.workspaceID == workspace && r.createdAt < cutoff && picked r

/-- One round of the loop of `purgeTable`; `none` when no row was left. -/
def purgeTable (cutoff : Time) (picked : ChildRow → Bool) (table : ChildTable) : Option Tables :=
  if (db.rows table).any (isExpired workspace cutoff picked) then
    some (db.delete (isExpired workspace cutoff picked) table)
  else none

/-- The `WHERE` clause of `completedTaskQuery`. -/
def isCompleted (cutoff : Time) (t : Task) : Bool :=
  t.workspaceID == workspace && t.status.isTerminal && t.completedAt.any (· < cutoff)

/-- `ORDER BY completed_at`, with rows of one time in the order in which the database meets
them. -/
def completedBefore (tie : TaskID → Nat) (a b : Task) : Bool :=
  a.completedAt.getD 0 < b.completedAt.getD 0 ||
    (a.completedAt.getD 0 == b.completedAt.getD 0 && tie a.id ≤ tie b.id)

/-- `completedTaskQuery`. -/
def completedTasks (cutoff : Time) (tie : TaskID → Nat) (batch : Nat) : List TaskID :=
  (((db.store.tasks.rows.filter (isCompleted workspace cutoff)).insertionSort
    fun a b => completedBefore tie a b).take batch).map Task.id

/-- `workspace_id = ? AND task_id IN (...)`. -/
def ofBatch (ids : List TaskID) (r : ChildRow) : Bool :=
  r.workspaceID == workspace && ids.contains r.taskID

/-- `workspace_id = ? AND id IN (...)`. -/
def inBatch (ids : List TaskID) (t : Task) : Bool :=
  t.workspaceID == workspace && ids.contains t.id

def foreignKeyFailed : StoreError := .constraint "FOREIGN KEY constraint failed"

/-- `DELETE FROM table WHERE workspace_id = ? AND task_id IN (...)`; the requests that people are
asked refer to attempts. -/
def deleteChildren (ids : List TaskID) (table : ChildTable) : Except StoreError Tables := do
  require (table != .executionAttempts || !db.store.humanInterventions.any fun h =>
      db.store.executionAttempts.any fun a => a.id == h.attemptID && ofBatch workspace ids a.child)
    foreignKeyFailed
  pure (db.delete (ofBatch workspace ids) table)

def hasChildren (ids : List TaskID) : Bool :=
  PurgeConfig.childTablesForTask.any fun table =>
    (db.rows table).any fun r =>
      db.store.tasks.any fun t => t.id == r.taskID && inBatch workspace ids t

/-- `DELETE FROM tasks WHERE workspace_id = ? AND id IN (...)`. -/
def deleteTasks (ids : List TaskID) : Except StoreError Tables := do
  require (!db.hasChildren workspace ids) foreignKeyFailed
  pure { db with store := { db.store with tasks := db.store.tasks.delete (inBatch workspace ids) } }

variable {db} {workspace} {db' : Tables} {ids : List TaskID} {table : ChildTable}
  {p : ChildRow → Bool} {t : Task}

theorem delete_tasks : (db.delete p table).store.tasks = db.store.tasks := by
  cases table <;> rfl

theorem purgeTable_tasks {cutoff : Time} {picked : ChildRow → Bool}
    (h : db.purgeTable workspace cutoff picked table = some db') :
    db'.store.tasks = db.store.tasks := by
  unfold purgeTable at h
  split at h
  · rw [← Option.some.inj h, delete_tasks]
  · cases h

theorem deleteChildren_tasks (h : db.deleteChildren workspace ids table = .ok db') :
    db'.store.tasks = db.store.tasks := by
  simp only [deleteChildren, bind_eq_ok, pure_eq_ok] at h
  obtain ⟨-, -, rfl⟩ := h
  exact delete_tasks

theorem deleteTasks_tasks (h : db.deleteTasks workspace ids = .ok db')
    (ht : t ∈ db'.store.tasks.rows) : t ∈ db.store.tasks.rows := by
  simp only [deleteTasks, bind_eq_ok, pure_eq_ok] at h
  obtain ⟨-, -, rfl⟩ := h
  exact (mem_filter.mp ht).1

theorem completedTasks_terminal {cutoff : Time} {tie : TaskID → Nat} {batch : Nat} {id : TaskID}
    (h : id ∈ db.completedTasks workspace cutoff tie batch) (ht : t ∈ db.store.tasks.rows)
    (hid : t.id = id) : t.status.isTerminal = true := by
  obtain ⟨u, hu, rfl⟩ := mem_map.mp h
  obtain ⟨hmem, hcompleted⟩ :=
    mem_filter.mp ((mem_insertionSort _).mp (mem_of_mem_take hu))
  obtain rfl := Table.eq_of_key ht hmem hid
  simp only [isCompleted, Bool.and_eq_true] at hcompleted
  exact hcompleted.1.2

end Tables

end Aegis
