import Aegis.Store.Ops
import Aegis.Lifecycle.Life

/-!
# Lifecycle.View

The part of the store that concerns one task: its row, its attempts in order, and its pending
interventions. Each statement of the store acts on a view through its condition and its
assignment, whatever else the tables hold.
-/

namespace Aegis

open List Table

structure TaskView where
  task : Option Task
  attempts : List ExecutionAttempt
  waits : List HumanIntervention

namespace Store

variable {s s' : Store} {id id' : TaskID}

def view (s : Store) (id : TaskID) : TaskView where
  task := s.tasks.find? id
  attempts := s.executionAttempts.rows.filter fun a => a.taskID == id
  waits := s.humanInterventions.rows.filter fun h => h.taskID == id && h.status == .pending

theorem mem_attempts {a : ExecutionAttempt} :
    a ∈ (s.view id).attempts ↔ a ∈ s.executionAttempts.rows ∧ a.taskID = id := by
  simp [view, mem_filter]

theorem mem_waits {h : HumanIntervention} : h ∈ (s.view id).waits ↔
      h ∈ s.humanInterventions.rows ∧ h.taskID = id ∧ h.status = .pending := by
  simp [view, mem_filter]

theorem view_task_id {t : Task} (h : (s.view id).task = some t) : t.id = id :=
  key_of_find? h

theorem attempts_nodup (s : Store) (id : TaskID) : ((s.view id).attempts.map ExecutionAttempt.id).Nodup :=
  s.executionAttempts.nodup.sublist (filter_sublist.map _)

section UpdateTasks

variable (p : Task → Bool) (f : TaskUpdate)

@[simp] theorem updateTasks_view :
    (s.updateTasks p f).view id =
      ⟨(s.view id).task.map (setIf p f.set), (s.view id).attempts, (s.view id).waits⟩ := by
  simp only [view, updateTasks, find?_update, TaskUpdate.onID_set]

theorem updateTasks_view_ne (hp : ∀ t, p t → t.id = id) (hne : id' ≠ id) :
    (s.updateTasks p f).view id' = s.view id' := by
  have : (s.view id').task.map (setIf p f.set) = (s.view id').task := by
    cases h : (s.view id').task with
    | none => rfl
    | some t =>
      have hpt : p t = false := by
        by_contra hpt
        exact hne ((view_task_id h).symm.trans (hp t (by simpa using hpt)))
      rw [Option.map_some, setIf_neg hpt]
  rw [updateTasks_view, this]

end UpdateTasks

theorem task_of_any (id : TaskID) {p : Task → Bool} (h : s.tasks.any p)
    (hp : ∀ t, p t → t.id = id) : ∃ t, (s.view id).task = some t ∧ p t = true := by
  obtain ⟨t, ht, hpt⟩ := Table.any_eq_true.mp h
  exact ⟨t, hp t hpt ▸ find?_key ht, hpt⟩

theorem any_of_task {p : Task → Bool} {t : Task} (ht : (s.view id).task = some t)
    (hp : p t) : s.tasks.any p = true :=
  Table.any_eq_true.mpr ⟨t, mem_of_find? ht, hp⟩

section UpdateAttempts

variable {p : ExecutionAttempt → Bool} {f : AttemptUpdate}

theorem updateAttempts_eq_ok : s.updateAttempts p f = .ok s' ↔
      (∀ a ∈ s.executionAttempts.rows, p a → a.status.isOpen = false →
        (f.set a).outcome = a.outcome) ∧
      s' = { s with executionAttempts := s.executionAttempts.update p f.onID } := by
  unfold updateAttempts
  split
  · rename_i h
    obtain ⟨a, ha, hpa⟩ := Table.any_eq_true.mp h
    simp only [Bool.and_eq_true, bne_iff_ne, Bool.not_eq_true'] at hpa
    simp only [reduceCtorEq, false_iff, not_and]
    intro hall
    exact absurd (hall a ha hpa.1.1 hpa.1.2) hpa.2
  · rename_i h
    simp only [Bool.not_eq_true, Table.any_eq_false, Bool.and_eq_false_iff] at h
    simp only [Except.ok.injEq]
    constructor
    · intro hs
      refine ⟨?_, hs.symm⟩
      intro a ha hp ho
      have := h a ha
      simpa [hp, ho] using this
    · intro hs
      exact hs.2.symm

theorem updateAttempts_of_open (f : AttemptUpdate)
    (h : ∀ a ∈ s.executionAttempts.rows, p a → a.status.isOpen = true) :
    ∃ s', s.updateAttempts p f = .ok s' := by
  refine ⟨_, updateAttempts_eq_ok.mpr ⟨?_, rfl⟩⟩
  intro a ha hp ho
  rw [h a ha hp] at ho
  cases ho

theorem updateAttempts_view (h : s.updateAttempts p f = .ok s') (id : TaskID) : s'.view id =
      ⟨(s.view id).task, (s.view id).attempts.map (setIf p f.set), (s.view id).waits⟩ := by
  rw [(updateAttempts_eq_ok.mp h).2]
  have hq : ∀ a, ((f.onID.set a).taskID == id) = (a.taskID == id) := fun a => by
    rw [AttemptUpdate.onID_set, ExecutionAttempt.taskID_of_identity (f.keeps a)]
  simp only [view, Table.filter_update _ p (fun a => a.taskID == id) f.onID hq,
    AttemptUpdate.onID_set]

theorem updateAttempts_tasks (h : s.updateAttempts p f = .ok s') : s'.tasks = s.tasks := by
  rw [(updateAttempts_eq_ok.mp h).2]

end UpdateAttempts

theorem insertAttempt_eq_ok {a : ExecutionAttempt} (h : s.insertAttempt a = .ok s') :
    (∃ t ∈ s.tasks.rows, t.workspaceID = a.workspaceID ∧ t.id = a.taskID) ∧
      s.executionAttempts.find? a.id = none ∧ s'.tasks = s.tasks ∧
      (∀ id, s'.view id = ⟨(s.view id).task,
        (s.view id).attempts ++ if a.taskID = id then [a] else [], (s.view id).waits⟩) ∧
      s'.rules = s.rules ∧ s'.ruleVersions = s.ruleVersions ∧
      s'.ruleVersionContracts = s.ruleVersionContracts := by
  simp only [insertAttempt, bind_eq_ok, require_eq_ok] at h
  obtain ⟨-, hany, -, -, h⟩ := h
  obtain ⟨t, ht, htt⟩ := Table.any_eq_true.mp hany
  split at h
  · cases h
  · rename_i rows hins
    obtain rfl := pure_eq_ok.mp h
    obtain ⟨hn, hr⟩ := insert?_eq_some.mp hins
    refine ⟨⟨t, ht, by simpa using htt⟩, hn, rfl, ?_, rfl, rfl, rfl⟩
    intro id
    simp only [view, hr, filter_append]
    by_cases hid : a.taskID = id <;> simp [hid]

section Interventions

variable {p : HumanIntervention → Bool} {status : HumanInterventionStatus} {now : Time}
  {decidedBy decisionNote : String}

theorem decideInterventions_view (hs : status ≠ .pending) :
    (s.decideInterventions p status now decidedBy decisionNote).view id =
      ⟨(s.view id).task, (s.view id).attempts, (s.view id).waits.filter fun h => !p h⟩ := by
  have hq : ∀ h : HumanIntervention,
      (((decision status now decidedBy decisionNote).set h).taskID == id &&
        ((decision status now decidedBy decisionNote).set h).status == .pending) = false :=
    fun h => by simp [decision, hs]
  simp only [view, decideInterventions]
  rw [Table.filter_update_out _ p _ _ hq]

theorem insertIntervention_eq_ok {h : HumanIntervention} (hp : h.status = .pending)
    (hi : s.insertIntervention h = .ok s') :
    (∀ g ∈ s.humanInterventions.rows, g.workspaceID = h.workspaceID → g.taskID = h.taskID →
      g.status ≠ .pending) ∧
    s'.tasks = s.tasks ∧ s'.executionAttempts = s.executionAttempts ∧
    ∀ id, s'.view id = ⟨(s.view id).task, (s.view id).attempts,
      (s.view id).waits ++ if h.taskID = id then [h] else []⟩ := by
  simp only [insertIntervention, bind_eq_ok, require_eq_ok, Bool.not_eq_true', Table.any_eq_false] at hi
  obtain ⟨-, hno, hi⟩ := hi
  split at hi
  · cases hi
  · rename_i rows hins
    obtain rfl := pure_eq_ok.mp hi
    obtain ⟨hn, hr⟩ := insert?_eq_some.mp hins
    refine ⟨?_, rfl, rfl, ?_⟩
    · intro g hg hw ht hgp
      have := hno g hg
      simp [hw, ht, hgp] at this
    · intro id
      simp only [view, hr, filter_append]
      by_cases hid : h.taskID = id <;> simp [hid, hp]

end Interventions

theorem insertCheckpoint_view {k : Checkpoint} (h : s.insertCheckpoint k = .ok s') :
    ∀ id, s'.view id = s.view id := by
  unfold insertCheckpoint at h
  split at h
  · cases h
  · cases h
    exact fun _ => rfl

@[simp] theorem insertStatusUpdate_view (u : TaskStatusUpdate) :
    (s.insertStatusUpdate u).view id = s.view id := rfl

theorem insertTask_tasks {t : Task} (h : s.insertTask t = .ok s') :
    s.tasks.insert? t = some s'.tasks ∧ s' = { s with tasks := s'.tasks } := by
  simp only [insertTask, bind_eq_ok, require_eq_ok] at h
  obtain ⟨-, -, h⟩ := h
  split at h
  · cases h
  · rename_i rows hins
    obtain rfl := pure_eq_ok.mp h
    exact ⟨hins, rfl⟩

theorem insertTask_eq_ok {t : Task} (h : s.insertTask t = .ok s') : (s.view t.id).task = none ∧
      ∀ id, s'.view id = ⟨if t.id = id then some t else (s.view id).task,
        (s.view id).attempts, (s.view id).waits⟩ := by
  obtain ⟨hins, hs'⟩ := insertTask_tasks h
  refine ⟨(insert?_eq_some.mp hins).1, ?_⟩
  intro id
  rw [hs']
  simp only [view, find?_of_insert? hins]

end Store

end Aegis
