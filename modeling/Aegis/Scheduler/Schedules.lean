import Aegis.Lib.Run
import Aegis.Scheduler.Cron
import Aegis.Store.Schedule

/-!
# Scheduler.Schedules

`ScheduleRunner`, the loop that turns due schedules into tasks, for any number of instances that
share a store.

* `processStep` — the store calls of `processSchedule` for one schedule.
* `Runner.step` — the store calls of a tick: the lock, the list of due schedules, and the schedules
  of the list one by one.
* `Runners.step` — instances start, make their next store call, shut down, or just stop.

A store call is one step. Between two steps of an instance any time may pass and the other
instances may make theirs.
-/

namespace Aegis

/-- The packages the runner uses, the workspace of the context that `Start` is given, and
`SchedulerLockLease`. -/
structure RunnerConfig where
  env : Env
  zones : Zones
  workspace : WorkspaceID
  schedulerLockLease : Duration

def RunnerConfig.lockLease (cfg : RunnerConfig) : Duration :=
  if cfg.schedulerLockLease ≤ 0 then 2 * Duration.minute else cfg.schedulerLockLease

/-- What a step takes from outside: the clock, whether the store call fails for reasons of the
database, the fresh `NewID()`, and the order of rows that `ORDER BY` does not tell apart. -/
structure Turn where
  now : Time
  failed : Bool
  taskID : TaskID
  tie : String → Nat

/-- A schedule and the `scheduled_at` of a task. -/
abbrev Occurrence := String × Time

/-- The next store call of `processSchedule`. -/
inductive Processing where
  | rule | disable
  | create (rule : Rule)
  | catchUp (rule : Rule) (next : Time)
  | update
deriving DecidableEq

/-- The task `createTaskFromSchedule` makes. -/
def taskFromSchedule (t : Turn) (sch : Schedule) (rule : Rule) (scheduledAt : Time) : Task where
  id := t.taskID
  workspaceID := ""
  ruleID := sch.ruleID
  ruleVersion := sch.ruleVersion
  -- schedules older than the rule versions are marked by an empty input schema
  ruleVersionNumber :=
    if trimSpace sch.inputSchema == "" || trimSpace sch.inputSchema == "\x7b\x7d" then 0
    else sch.ruleVersionNumber
  status := .pending
  priority :=
    if sch.priority == .other "" then
      if rule.priority == .other "" then .normal else rule.priority
    else sch.priority
  vars := sch.vars
  inputSchema := sch.inputSchema
  workerID := none
  leaseUntil := none
  retryCount := 0
  maxRetries := sch.maxRetries
  outputSchema := ""
  sendPolicy := ""
  createdAt := t.now
  updatedAt := t.now
  scheduledAt := some scheduledAt
  completedAt := none
  errorType := none
  errorMessage := none
  scheduleID := some sch.id
  currentAttemptID := none
  browserProfileID := sch.browserProfileID
  cancelRequested := false

def maxCatchUpIterations : Nat := 1000

section Bookkeeping

variable (zones : Zones) (now : Time) (sch : Schedule)

/-- The loop that advances `next` past `now`, with `n` iterations left. -/
def skipAhead (sch : Schedule) : Nat → Time → Schedule
  | 0, next => { sch with nextRunAt := some (if now < next then next else now) }
  | n + 1, next =>
    if now < next then { sch with nextRunAt := some next }
    else
      match computeNextRunInLocation zones sch.expression next sch.timezone with
      | .error _ => { sch with enabled := false, nextRunAt := some Time.zero }
      | .ok next => skipAhead sch n next

/-- The bookkeeping after the catch-up task at `next`; an error leaves the zero time in `next`. -/
def afterCatchUp (next : Time) : Schedule :=
  match computeNextRunInLocation zones sch.expression next sch.timezone with
  | .error _ => skipAhead zones now { sch with enabled := false } maxCatchUpIterations Time.zero
  | .ok next => skipAhead zones now sch maxCatchUpIterations next

def afterCreate (rule : Rule) : Schedule × Processing :=
  match sch.type with
  | .once => ({ sch with lastRunAt := some now, nextRunAt := none, enabled := false }, .update)
  | .cron =>
    match computeNextRunInLocation zones sch.expression (sch.nextRunAt.getD Time.zero)
        sch.timezone with
    | .error _ => ({ sch with lastRunAt := some now, enabled := false }, .update)
    | .ok next =>
      if now < next then ({ sch with lastRunAt := some now, nextRunAt := some next }, .update)
      else
        match sch.catchup with
        | .runOnce => ({ sch with lastRunAt := some now }, .catchUp rule next)
        | .skip =>
          (skipAhead zones now { sch with lastRunAt := some now } maxCatchUpIterations next, .update)

end Bookkeeping

def Schedule.scheduledAt (sch : Schedule) (now : Time) : Time := sch.nextRunAt.getD now

namespace Turn

variable (cfg : RunnerConfig) (t : Turn) (s : Store) (sch : Schedule)

def ctx : Ctx := ⟨cfg.workspace, t.now⟩

/-- A store call; one that fails changes nothing. -/
def attempt {α : Type} (call : Except StoreError α) : Option α :=
  if t.failed then none else call.toOption

def createTaskFromSchedule (rule : Rule) (scheduledAt : Time) : Option Store :=
  t.attempt (s.createTask cfg.env (t.ctx cfg) (taskFromSchedule t sch rule scheduledAt))

/-- `UpdateSchedule`, whose error the runner ignores. -/
def updateSchedule : Store := (t.attempt (s.updateSchedule (t.ctx cfg) sch)).getD s

end Turn

/-- The next store call of `processSchedule`, for a tick at `now`: the store, the schedule and the
call that follows, and the occurrences of the tasks created. -/
def processStep (cfg : RunnerConfig) (t : Turn) (now : Time) (s : Store) (sch : Schedule) :
    Processing → Store × Option (Schedule × Processing) × List Occurrence
  | .rule =>
    match t.attempt (s.getRuleByID (t.ctx cfg) sch.ruleID) with
    | none => (s, some (sch, .disable), [])
    | some rule =>
      if rule.enabled && rule.approvalStatus == .approved then (s, some (sch, .create rule), [])
      else (s, some (sch, .disable), [])
  | .disable =>
    (t.updateSchedule cfg s { sch with enabled := false, updatedAt := t.now }, none, [])
  | .create rule =>
    match t.createTaskFromSchedule cfg s sch rule (sch.scheduledAt now) with
    | none => (s, none, [])
    | some s' => (s', some (afterCreate cfg.zones now sch rule), [(sch.id, sch.scheduledAt now)])
  | .catchUp rule next =>
    match t.createTaskFromSchedule cfg s sch rule next with
    | none => (s, some (afterCatchUp cfg.zones now sch next, .update), [])
    | some s' => (s', some (afterCatchUp cfg.zones now sch next, .update), [(sch.id, next)])
  | .update => (t.updateSchedule cfg s { sch with updatedAt := now }, none, [])

inductive RunnerStage where
  | idle | list
  | process (now : Time) (sch : Schedule) (call : Processing) (rest : List Schedule)
  | renew | stopped

/-- The rest of the list of a tick at `now`. -/
def RunnerStage.next (now : Time) : List Schedule → RunnerStage
  | [] => renew
  | sch :: rest => process now sch .rule rest

structure Runner where
  instanceID : String
  acquired : Bool
  stage : RunnerStage

def lockName : String := "schedule_runner"

/-- The next store call of an instance; between ticks this is the one of the next tick. -/
def Runner.step (cfg : RunnerConfig) (t : Turn) (s : Store) (r : Runner) :
    Store × Runner × List Occurrence :=
  match r.stage with
  | .idle =>
    if t.failed then (s, r, [])
    else
      match s.acquireSchedulerLock (t.ctx cfg) lockName r.instanceID cfg.lockLease with
      | (s', false) => (s', { r with acquired := false }, [])
      | (s', true) => (s', { r with acquired := true, stage := .list }, [])
  | .list =>
    if t.failed then (s, { r with stage := .renew }, [])
    else
      (s, { r with stage := .next t.now (s.listDueSchedules (t.ctx cfg) t.now t.tie) }, [])
  | .process now sch call rest =>
    match processStep cfg t now s sch call with
    | (s', some (sch', call'), created) =>
      (s', { r with stage := .process now sch' call' rest }, created)
    | (s', none, created) => (s', { r with stage := .next now rest }, created)
  | .renew =>
    (if t.failed then s
      else (s.renewSchedulerLock (t.ctx cfg) lockName r.instanceID cfg.lockLease).1,
      { r with stage := .idle }, [])
  | .stopped => (s, r, [])

def Runner.shutdown (cfg : RunnerConfig) (t : Turn) (s : Store) (r : Runner) :
    Store × Runner × List Occurrence :=
  match r.stage with
  | .idle =>
    (if r.acquired && !t.failed then
        s.releaseSchedulerLock (t.ctx cfg) lockName r.instanceID
      else s,
      { r with stage := .stopped }, [])
  | _ => (s, r, [])

/-- The instances and their store. `created` lists the occurrences of the tasks they have created,
in order, and decides no step. -/
structure Runners where
  store : Store
  runners : List Runner
  created : List Occurrence

inductive RunnerEvent where
  | start (instanceID : String)
  | advance (i : Nat) (t : Turn)
  | shutdown (i : Nat) (t : Turn)
  | stop (i : Nat)

namespace Runners

/-- A step of instance `i`, if there is one. -/
def on (v : Runners) (i : Nat) (f : Runner → Store × Runner × List Occurrence) : Runners :=
  match v.runners[i]? with
  | none => v
  | some r => ⟨(f r).1, v.runners.set i (f r).2.1, v.created ++ (f r).2.2⟩

def step (cfg : RunnerConfig) (v : Runners) : RunnerEvent → Runners
  | .start instanceID => { v with runners := v.runners ++ [⟨instanceID, false, .idle⟩] }
  | .advance i t => v.on i (Runner.step cfg t v.store)
  | .shutdown i t => v.on i (Runner.shutdown cfg t v.store)
  | .stop i => v.on i fun r => (v.store, { r with stage := .stopped }, [])

theorem on_rule {P : Runners → Prop} {v : Runners} {i : Nat}
    {f : Runner → Store × Runner × List Occurrence} (h : P v)
    (hstep : ∀ r, v.runners[i]? = some r →
      P ⟨(f r).1, v.runners.set i (f r).2.1, v.created ++ (f r).2.2⟩) : P (v.on i f) := by
  unfold on
  split
  · exact h
  · rename_i r hi
    exact hstep r hi

end Runners

end Aegis
