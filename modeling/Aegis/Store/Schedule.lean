import Mathlib.Data.List.Sort
import Aegis.Store.Task

/-!
# Store.Schedule

The schedules and the scheduler lock of `store.go`, as the schedule runner calls them.
-/

namespace Aegis

/-- The `SET` clause of `UpdateSchedule`: every column but the key, the workspace and the time of
creation. -/
def Schedule.overwrite (sch : Schedule) : SetClause Schedule.id where
  set r := { sch with
    id := r.id
    workspaceID := r.workspaceID
    createdAt := r.createdAt }
  keeps _ := rfl

namespace Store

def getRuleByID (s : Store) (c : Ctx) (id : String) : Except StoreError Rule :=
  match (s.rules.find? id).filter fun r => r.workspaceID == c.workspace with
  | none => .error .ruleNotFound
  | some r => .ok r

/-- `SELECT EXISTS(SELECT 1 FROM rules WHERE id = ? AND workspace_id = ?)`. -/
def ruleExists (s : Store) (workspace : WorkspaceID) (id : String) : Bool :=
  s.rules.any fun r => r.id == id && r.workspaceID == workspace

/-- The `WHERE` clause of `ListDueSchedules`. -/
def isDue (workspace : WorkspaceID) (before : Time) (sch : Schedule) : Bool :=
  sch.workspaceID == workspace && sch.enabled && sch.nextRunAt.any (· ≤ before)

/-- `ORDER BY next_run_at ASC`, with rows of one time in the order in which the database meets
them. -/
def dueBefore (tie : String → Nat) (a b : Schedule) : Bool :=
  a.nextRunAt.getD 0 < b.nextRunAt.getD 0 ||
    (a.nextRunAt.getD 0 == b.nextRunAt.getD 0 && tie a.id ≤ tie b.id)

def listDueSchedules (s : Store) (c : Ctx) (before : Time) (tie : String → Nat) : List Schedule :=
  (s.schedules.rows.filter (isDue c.workspace before)).insertionSort fun a b => dueBefore tie a b

/-- The row a statement `WHERE id = ? AND workspace_id = ?` meets. -/
def isSchedule (workspace : WorkspaceID) (id : String) (sch : Schedule) : Bool :=
  sch.id == id && sch.workspaceID == workspace

def updateSchedule (c : Ctx) (sch : Schedule) (s : Store) : Except StoreError Store := do
  require (s.ruleExists c.workspace sch.ruleID) .ruleNotFound
  require (s.schedules.any (isSchedule c.workspace sch.id)) .ruleNotFound
  pure { s with
    schedules := s.schedules.update (isSchedule c.workspace sch.id) sch.overwrite }

/-- The row of the lock `name`. -/
def isLock (c : Ctx) (name : String) (l : SchedulerLock) : Bool :=
  l.workspaceID == c.workspace && l.name == name

/-- `SET owner, expires_at, acquired_at`. -/
def takeLock (owner : String) (expiresAt now : Time) : SetClause SchedulerLock.key where
  set l := { l with
    owner := owner
    expiresAt := expiresAt
    acquiredAt := now }
  keeps _ := rfl

/-- `SET expires_at, acquired_at`. -/
def extendLock (expiresAt now : Time) : SetClause SchedulerLock.key where
  set l := { l with
    expiresAt := expiresAt
    acquiredAt := now }
  keeps _ := rfl

/-- The lock may be taken by `owner`: it is its own, or it has expired. -/
def isFree (c : Ctx) (name owner : String) (l : SchedulerLock) : Bool :=
  isLock c name l && (l.owner == owner || l.expiresAt ≤ c.now)

/-- `AcquireSchedulerLock`: the insertion, and the update of a row that is there. -/
def acquireSchedulerLock (s : Store) (c : Ctx) (name owner : String) (lease : Duration) : Store × Bool :=
  match s.schedulerLocks.insert? ⟨c.workspace, name, owner, c.now + lease, c.now⟩ with
  | some locks => ({ s with schedulerLocks := locks }, true)
  | none =>
    ({ s with
        schedulerLocks := s.schedulerLocks.update (isFree c name owner)
          (takeLock owner (c.now + lease) c.now) },
      s.schedulerLocks.any (isFree c name owner))

def renewSchedulerLock (s : Store) (c : Ctx) (name owner : String) (lease : Duration) : Store × Bool :=
  ({ s with
      schedulerLocks := s.schedulerLocks.update (fun l => isLock c name l && l.owner == owner)
        (extendLock (c.now + lease) c.now) },
    s.schedulerLocks.any fun l => isLock c name l && l.owner == owner)

def releaseSchedulerLock (s : Store) (c : Ctx) (name owner : String) : Store :=
  { s with schedulerLocks := s.schedulerLocks.delete fun l => isLock c name l && l.owner == owner }

variable {s s' : Store} {c : Ctx} {sch r : Schedule}

theorem updateSchedule_cases (h : s.updateSchedule c sch = .ok s') :
    s.ruleExists c.workspace sch.ruleID ∧
      { s with schedules := s.schedules.update (isSchedule c.workspace sch.id) sch.overwrite } = s' := by
  simp only [updateSchedule, bind_eq_ok, require_eq_ok, pure_eq_ok] at h
  obtain ⟨-, hrule, -, -, hs⟩ := h
  exact ⟨hrule, hs⟩

theorem updateSchedule_any (h : s.updateSchedule c sch = .ok s') :
    s.schedules.any (isSchedule c.workspace sch.id) := by
  simp only [updateSchedule, bind_eq_ok, require_eq_ok] at h
  obtain ⟨-, -, -, hany, -⟩ := h
  exact hany

theorem updateSchedule_of_stored (hrule : s.ruleExists c.workspace sch.ruleID)
    (hr : r ∈ s.schedules.rows) (hid : r.id = sch.id) (hws : r.workspaceID = c.workspace) :
    ∃ s', s.updateSchedule c sch = .ok s' := by
  have hany : s.schedules.any (isSchedule c.workspace sch.id) :=
    Table.any_eq_true.mpr ⟨r, hr, by simp [isSchedule, hid, hws]⟩
  refine ⟨{ s with
    schedules := s.schedules.update (isSchedule c.workspace sch.id) sch.overwrite }, ?_⟩
  simp only [updateSchedule, bind_eq_ok, require_eq_ok, pure_eq_ok]
  exact ⟨(), hrule, (), hany, trivial⟩

theorem mem_updateSchedule (h : s.updateSchedule c sch = .ok s') (hr : r ∈ s'.schedules.rows) :
    ∃ q ∈ s.schedules.rows, q.id = r.id ∧ q.workspaceID = r.workspaceID ∧
      (isSchedule c.workspace sch.id q = false ∧ r = q ∨
        isSchedule c.workspace sch.id q ∧ r.enabled = sch.enabled ∧
          r.nextRunAt = sch.nextRunAt) := by
  obtain ⟨-, rfl⟩ := updateSchedule_cases h
  obtain ⟨q, hq, rfl⟩ := List.mem_map.mp hr
  cases hp : isSchedule c.workspace sch.id q with
  | false =>
    rw [setIf_neg hp]
    exact ⟨q, hq, rfl, rfl, .inl ⟨hp, rfl⟩⟩
  | true =>
    rw [setIf_pos hp]
    exact ⟨q, hq, rfl, rfl, .inr ⟨hp, rfl, rfl⟩⟩

theorem acquireSchedulerLock_eq {name owner : String} {lease : Duration} {acquired : Bool}
    (h : s.acquireSchedulerLock c name owner lease = (s', acquired)) :
    s' = { s with schedulerLocks := s'.schedulerLocks } := by
  unfold acquireSchedulerLock at h
  split at h <;> cases h <;> rfl

end Store

end Aegis
