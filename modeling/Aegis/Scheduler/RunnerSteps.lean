import Aegis.Lifecycle.View
import Aegis.Scheduler.Schedules

/-!
# Scheduler.RunnerSteps

What one step of a runner does: to the schedules, to the schedule the instance holds, and to the
tasks.

`RunnerStep` lists the steps once, and the invariants of the runners are case analyses over it.
-/

namespace Aegis

open List

def RunnerStage.holds : RunnerStage → Option String
  | process _ sch (.catchUp _ _) _ => some sch.id
  | process _ sch .update _ => some sch.id
  | _ => none

section Steps

variable {cfg : RunnerConfig} {t : Turn} {s s' : Store} {sch : Schedule}

theorem attempt_eq_some {α : Type} {call : Except StoreError α} {a : α}
    (h : t.attempt call = some a) : t.failed = false ∧ call = .ok a := by
  unfold Turn.attempt at h
  split at h
  · cases h
  · rename_i hf
    cases call with
    | error e => cases h
    | ok b => exact ⟨by simpa using hf, congrArg Except.ok (Option.some.inj h)⟩

theorem createTaskFromSchedule_cases {rule : Rule} {at' : Time}
    (h : t.createTaskFromSchedule cfg s sch rule at' = some s') :
    t.failed = false ∧ s.ruleExists cfg.workspace sch.ruleID = true ∧
      ∃ u : Task, u.scheduleID = some sch.id ∧ u.scheduledAt = some at' ∧
        s.tasks.insert? u = some s'.tasks ∧ s' = { s with tasks := s'.tasks } := by
  obtain ⟨hf, hok⟩ := attempt_eq_some h
  obtain ⟨u, -, -, -, -, -, -, hsch, hat, hins⟩ := Store.createTask_cases hok
  exact ⟨hf, Store.createTask_rule hok, u, hsch, hat, Store.insertTask_tasks hins⟩

/-- The steps of an instance, by what they do to schedules and to the schedule it holds: the
schedules and rules stay, and the instance holds none; a schedule is disabled; the task of an
occurrence is created; the catch-up task is tried; the bookkeeping is written. -/
inductive RunnerStep (cfg : RunnerConfig) (t : Turn) (s : Store) :
    RunnerStage → Store → RunnerStage → List Occurrence → Prop
  | quiet {stage stage' : RunnerStage} {s' : Store}
      (hs : s' = { s with schedulerLocks := s'.schedulerLocks }) (hold : stage.holds = none)
      (hnew : stage'.holds = none) : RunnerStep cfg t s stage s' stage' []
  | disable {now : Time} {sch : Schedule} {rest : List Schedule} {stage' : RunnerStage}
      (hnew : stage'.holds = none) :
      RunnerStep cfg t s (.process now sch .disable rest)
        (t.updateSchedule cfg s { sch with enabled := false, updatedAt := t.now }) stage' []
  | create {now : Time} {sch : Schedule} {rule : Rule} {rest : List Schedule} {s' : Store}
      (h : t.createTaskFromSchedule cfg s sch rule (sch.scheduledAt now) = some s') :
      RunnerStep cfg t s (.process now sch (.create rule) rest) s'
        (.process now (afterCreate cfg.zones now sch rule).1
          (afterCreate cfg.zones now sch rule).2 rest) [(sch.id, sch.scheduledAt now)]
  | catchUp {now next : Time} {sch : Schedule} {rule : Rule} {rest : List Schedule} {s' : Store}
      {created : List Occurrence}
      (h : s' = s ∧ created = [] ∨
        t.createTaskFromSchedule cfg s sch rule next = some s' ∧ created = [(sch.id, next)]) :
      RunnerStep cfg t s (.process now sch (.catchUp rule next) rest) s'
        (.process now (afterCatchUp cfg.zones now sch next) .update rest) created
  | update {now : Time} {sch : Schedule} {rest : List Schedule} {stage' : RunnerStage}
      (hnew : stage'.holds = none) :
      RunnerStep cfg t s (.process now sch .update rest)
        (t.updateSchedule cfg s { sch with updatedAt := now }) stage' []

theorem next_holds (now : Time) (rest : List Schedule) : (RunnerStage.next now rest).holds = none := by
  cases rest <;> rfl

variable (cfg t s) in
theorem runnerStep (r : Runner) :
    RunnerStep cfg t s r.stage (r.step cfg t s).1 (r.step cfg t s).2.1.stage
      (r.step cfg t s).2.2 := by
  unfold Runner.step
  cases hstage : r.stage with
  | idle =>
    dsimp only
    split
    · rw [hstage]
      exact .quiet rfl rfl rfl
    · split <;> rename_i hacq <;> exact .quiet (Store.acquireSchedulerLock_eq hacq) rfl rfl
  | list =>
    dsimp only
    split
    · exact .quiet rfl rfl rfl
    · exact .quiet rfl rfl (next_holds _ _)
  | process now sch call rest =>
    dsimp only
    cases call with
    | rule =>
      unfold processStep
      dsimp only
      cases t.attempt (s.getRuleByID (t.ctx cfg) sch.ruleID) with
      | none => exact .quiet rfl rfl rfl
      | some rule =>
        dsimp only
        split <;> rename_i hactive
        · split at hactive <;> cases hactive <;> exact .quiet rfl rfl rfl
        · split at hactive <;> cases hactive
    | disable => exact .disable (next_holds now rest)
    | create rule =>
      unfold processStep
      dsimp only
      cases h : t.createTaskFromSchedule cfg s sch rule (sch.scheduledAt now) with
      | none => exact .quiet rfl rfl (next_holds now rest)
      | some s' => exact .create h
    | catchUp rule next =>
      unfold processStep
      dsimp only
      cases h : t.createTaskFromSchedule cfg s sch rule next with
      | none => exact .catchUp (.inl ⟨rfl, rfl⟩)
      | some s' => exact .catchUp (.inr ⟨h, rfl⟩)
    | update => exact .update (next_holds now rest)
  | renew =>
    dsimp only
    split <;> exact .quiet rfl rfl rfl
  | stopped =>
    rw [hstage]
    exact .quiet rfl rfl rfl

structure Kept (s s' : Store) : Prop where
  rules : s'.rules = s.rules
  rows : ∀ r ∈ s.schedules.rows,
    ∃ q ∈ s'.schedules.rows, q.id = r.id ∧ q.workspaceID = r.workspaceID

theorem Kept.of_eq (hs : s'.schedules = s.schedules) (hr : s'.rules = s.rules) : Kept s s' :=
  ⟨hr, fun r hmem => ⟨r, hs ▸ hmem, rfl, rfl⟩⟩

variable (cfg t s sch) in
theorem updateSchedule_eq :
    t.updateSchedule cfg s sch = s ∨
      s.updateSchedule (t.ctx cfg) sch = .ok (t.updateSchedule cfg s sch) := by
  unfold Turn.updateSchedule
  cases h : t.attempt (s.updateSchedule (t.ctx cfg) sch) with
  | none => exact .inl rfl
  | some s' => exact .inr (attempt_eq_some h).2

variable (cfg t s sch) in
theorem kept_updateSchedule :
    Kept s (t.updateSchedule cfg s sch) := by
  rcases updateSchedule_eq cfg t s sch with h | h
  · rw [h]
    exact .of_eq rfl rfl
  · obtain ⟨-, hs⟩ := Store.updateSchedule_cases h
    rw [← hs]
    refine ⟨rfl, fun r hr => ⟨_, mem_map_of_mem hr, sch.overwrite.keeps_setIf _ r, ?_⟩⟩
    unfold setIf
    split <;> rfl

theorem kept_createTask {rule : Rule} {at' : Time}
    (h : t.createTaskFromSchedule cfg s sch rule at' = some s') : Kept s s' := by
  obtain ⟨-, -, u, -, -, -, hs⟩ := createTaskFromSchedule_cases h
  rw [hs]
  exact .of_eq rfl rfl

theorem RunnerStep.kept {stage stage' : RunnerStage} {created : List Occurrence}
    (h : RunnerStep cfg t s stage s' stage' created) : Kept s s' := by
  cases h with
  | quiet hs _ _ =>
    rw [hs]
    exact .of_eq rfl rfl
  | disable _ | update _ => exact kept_updateSchedule cfg t s _
  | create h => exact kept_createTask h
  | catchUp h =>
    rcases h with ⟨rfl, -⟩ | ⟨h, -⟩
    · exact .of_eq rfl rfl
    · exact kept_createTask h

end Steps
def Task.occurrence (t : Task) : Option Occurrence :=
  t.scheduleID.bind fun id => t.scheduledAt.map fun a => (id, a)

section Record

variable {cfg : RunnerConfig} {t : Turn} {s s' : Store} {sch : Schedule} {rule : Rule} {at' : Time}

def Store.occurrences (s : Store) : List Occurrence := s.tasks.rows.filterMap Task.occurrence

theorem occurrences_createTask (h : t.createTaskFromSchedule cfg s sch rule at' = some s') :
    s'.occurrences = s.occurrences ++ [(sch.id, at')] := by
  obtain ⟨-, -, u, hid, hat, hins, -⟩ := createTaskFromSchedule_cases h
  have hu : u.occurrence = some (sch.id, at') := by simp [Task.occurrence, hid, hat]
  rw [Store.occurrences, (Table.insert?_eq_some.mp hins).2, filterMap_append]
  simp [Store.occurrences, hu]

variable (cfg t s sch) in
theorem occurrences_updateSchedule :
    (t.updateSchedule cfg s sch).occurrences = s.occurrences := by
  rcases updateSchedule_eq cfg t s sch with h | h
  · rw [h]
  · obtain ⟨-, hs⟩ := Store.updateSchedule_cases h
    rw [← hs]
    rfl

theorem RunnerStep.occurrences {stage stage' : RunnerStage} {created : List Occurrence}
    (h : RunnerStep cfg t s stage s' stage' created) :
    s'.occurrences = s.occurrences ++ created := by
  cases h with
  | quiet hs _ _ =>
    rw [hs, append_nil]
    rfl
  | disable _ | update _ => rw [occurrences_updateSchedule, append_nil]
  | create h => exact occurrences_createTask h
  | catchUp h =>
    rcases h with ⟨rfl, rfl⟩ | ⟨h, rfl⟩
    · rw [append_nil]
    · exact occurrences_createTask h

variable (cfg t s) in
theorem shutdown_occurrences (r : Runner) :
    (r.shutdown cfg t s).1.occurrences = s.occurrences ++ (r.shutdown cfg t s).2.2 := by
  unfold Runner.shutdown
  split
  · rw [append_nil]
    dsimp only
    split <;> rfl
  · rw [append_nil]

/-- The record has grown from `v` to `w` by the occurrences of the tasks that are new in `w`. -/
def Runners.Records (v w : Runners) : Prop :=
  ∃ new, w.created = v.created ++ new ∧ w.store.occurrences = v.store.occurrences ++ new

theorem Runners.Records.more {v w : Runners} {runners : List Runner} {more : List Occurrence}
    (h : v.Records w) (hs : s'.occurrences = w.store.occurrences ++ more) :
    v.Records ⟨s', runners, w.created ++ more⟩ := by
  obtain ⟨new, hcreated, hstore⟩ := h
  refine ⟨new ++ more, ?_, ?_⟩
  · rw [hcreated, append_assoc]
  · rw [hs, hstore, append_assoc]

/-- In every run the list `created` grows by the occurrences of the task rows that the store gains. -/
theorem run_records (cfg : RunnerConfig) (v : Runners) (es : List RunnerEvent) :
    v.Records (run (Runners.step cfg) v es) := by
  refine run_invariant (I := v.Records) (fun w e h => ?_)
    ⟨[], (append_nil _).symm, (append_nil _).symm⟩
  cases e with
  | start instanceID => exact h
  | advance i t =>
    exact Runners.on_rule h fun r _ => h.more (runnerStep cfg t w.store r).occurrences
  | shutdown i t => exact Runners.on_rule h fun r _ => h.more (shutdown_occurrences cfg t w.store r)
  | stop i => exact Runners.on_rule h fun r _ => h.more (append_nil _).symm

end Record
end Aegis
