import Mathlib.Data.List.Range
import Aegis.Lifecycle.View

/-!
# Lifecycle.Describes

When a view of the store is a task of the lifecycle.

* `Describes v l` — the view `v` is that of a task in the state `l`: the attempts are numbered
                    from one, all but the one that holds the task have ended, and a pending
                    intervention is there exactly while the task waits.
* `Good s`        — every view of the store is described by some state.
* `Moves s s' id` — the call that leads from `s` to `s'` is a step of the task `id`, and no other
                    task moves.
-/

namespace Aegis

open List Option

/-- Attempts of `t` that have ended, in order. -/
structure Ended (t : Task) (past : List ExecutionAttempt) : Prop where
  workspace : ∀ a ∈ past, a.workspaceID = t.workspaceID
  closed : ∀ a ∈ past, a.status.isOpen = false
  numbers : past.map ExecutionAttempt.number = List.range' 1 past.length

/-- The pending interventions of a task held under `a`. -/
def Phase.Waits (phase : Phase) (a : ExecutionAttempt) (waits : List HumanIntervention) : Prop :=
  match phase with
  | .waiting => ∃ h, waits = [h] ∧ h.workspaceID = a.workspaceID ∧ h.attemptID = a.id ∧
      h.workerID = a.workerID
  | _ => waits = []

/-- `a` holds `t` after `n` ended attempts. -/
structure Holds (phase : Phase) (t : Task) (n : Nat) (a : ExecutionAttempt)
    (waits : List HumanIntervention) : Prop where
  task : t.status = phase.task
  attempt : a.status = phase.attempt
  workspace : a.workspaceID = t.workspaceID
  number : a.number = n + 1
  worker : t.workerID = some a.workerID
  current : t.currentAttemptID = some a.id
  waits : phase.Waits a waits

inductive Describes (v : TaskView) : Life → Prop where
  | absent (hv : v = ⟨none, [], []⟩) : Describes v .absent
  | atRest {t : Task} {past : List ExecutionAttempt} (hv : v = ⟨some t, past, []⟩)
      (ended : Ended t past) (rest : t.status.isHeld = false)
      (current : t.currentAttemptID = past.getLast?.map ExecutionAttempt.id) :
      Describes v (.atRest t.status past.length)
  | held {phase : Phase} {t : Task} {past : List ExecutionAttempt} {a : ExecutionAttempt}
      {waits : List HumanIntervention} (hv : v = ⟨some t, past ++ [a], waits⟩)
      (ended : Ended t past) (holds : Holds phase t past.length a waits) :
      Describes v (.held phase a.id a.workerID past.length)

@[simp] theorem Phase.task_isHeld (p : Phase) : p.task.isHeld := by cases p <;> rfl

@[simp] theorem Phase.attempt_isOpen (p : Phase) : p.attempt.isOpen := by cases p <;> rfl

variable {p : Phase}

theorem Phase.task_isActive : p.task.isActive ↔ p ≠ .waiting := by
  cases p <;> decide

theorem Phase.attempt_isActive : p.attempt.isActive ↔ p ≠ .waiting := by
  cases p <;> decide

theorem Phase.task_eq_waiting : p.task = .waitingHuman ↔ p = .waiting := by
  cases p <;> decide

section Ended

variable {t u : Task} {past : List ExecutionAttempt} {a : ExecutionAttempt}

theorem Ended.nil (t : Task) : Ended t [] :=
  ⟨fun _ h => absurd h not_mem_nil, fun _ h => absurd h not_mem_nil, rfl⟩

theorem Ended.of_workspace (h : Ended t past) (hu : u.workspaceID = t.workspaceID) : Ended u past :=
  ⟨fun a ha => (h.workspace a ha).trans hu.symm, h.closed, h.numbers⟩

theorem Ended.concat (h : Ended t past) (hw : a.workspaceID = t.workspaceID)
    (hc : a.status.isOpen = false) (hn : a.number = past.length + 1) : Ended t (past ++ [a]) := by
  constructor
  · intro b hb
    rcases mem_append.mp hb with hb | hb
    · exact h.workspace b hb
    · rw [mem_singleton.mp hb]; exact hw
  · intro b hb
    rcases mem_append.mp hb with hb | hb
    · exact h.closed b hb
    · rw [mem_singleton.mp hb]; exact hc
  · simp [h.numbers, hn, range'_concat, Nat.add_comm]

end Ended

section Inversion

variable {v : TaskView} {l : Life} {t : Task} {past : List ExecutionAttempt}
  {a : ExecutionAttempt}

theorem Describes.held_inv (hd : Describes v l) (ht : v.task = some t) (hs : t.status.isHeld) :
    ∃ phase past a waits, l = .held phase a.id a.workerID past.length ∧
      v = ⟨some t, past ++ [a], waits⟩ ∧ Ended t past ∧ Holds phase t past.length a waits := by
  cases hd with
  | absent hv => simp [hv] at ht
  | atRest hv _ hrest _ =>
    obtain rfl := by simpa [hv] using ht
    rw [hs] at hrest
    cases hrest
  | held hv hended hh =>
    obtain rfl := by simpa [hv] using ht
    exact ⟨_, _, _, _, rfl, hv, hended, hh⟩

theorem Describes.atRest_inv (hd : Describes v l) (ht : v.task = some t) (hs : t.status.isHeld = false) :
    ∃ past, l = .atRest t.status past.length ∧ v = ⟨some t, past, []⟩ ∧ Ended t past ∧
      t.currentAttemptID = past.getLast?.map ExecutionAttempt.id := by
  cases hd with
  | absent hv => simp [hv] at ht
  | atRest hv hended _ hcur =>
    obtain rfl := by simpa [hv] using ht
    exact ⟨_, rfl, hv, hended, hcur⟩
  | held hv _ hh =>
    obtain rfl := by simpa [hv] using ht
    rw [hh.task, Phase.task_isHeld] at hs
    cases hs

theorem Describes.end (hv : v = ⟨some t, past ++ [a], []⟩) (hended : Ended t past)
    (hw : a.workspaceID = t.workspaceID) (hn : a.number = past.length + 1)
    (hc : a.status.isOpen = false) (hrest : t.status.isHeld = false)
    (hcur : t.currentAttemptID = some a.id) :
    Describes v (.atRest t.status (past.length + 1)) := by
  have := Describes.atRest hv (hended.concat hw hc hn) hrest (by simpa using hcur)
  simpa using this

end Inversion

namespace Store

variable {s s' : Store} {id id' : TaskID} {l : Life} {t : Task} {a : ExecutionAttempt}
  {past : List ExecutionAttempt}

/-- The invariant: every task has a life that describes its rows. -/
def Good (s : Store) : Prop := ∀ id, ∃ l, Describes (s.view id) l

/-- The call from `s` to `s'` is a step of the task `id` alone. -/
structure Moves (s s' : Store) (id : TaskID) : Prop where
  frame : ∀ id', id' ≠ id → s'.view id' = s.view id'
  step : ∀ l, Describes (s.view id) l → ∃ l', Life.Step l l' ∧ Describes (s'.view id) l'

theorem Moves.refl (s : Store) (id : TaskID) : Moves s s id :=
  ⟨fun _ _ => rfl, fun l hd => ⟨l, .stay l, hd⟩⟩

/-- Every task of `s` has gone on in its lifecycle in `s'`. -/
def Simulates (s s' : Store) : Prop :=
  ∀ id l, Describes (s.view id) l → ∃ l', Life.Reaches l l' ∧ Describes (s'.view id) l'

theorem Simulates.refl (s : Store) : Simulates s s := fun _ l hd => ⟨l, .refl, hd⟩

theorem Simulates.trans {s₁ : Store} (h : Simulates s s₁) (h' : Simulates s₁ s') : Simulates s s' := by
  intro id l hd
  obtain ⟨l₁, hr, hd₁⟩ := h id l hd
  obtain ⟨l', hr', hd'⟩ := h' id l₁ hd₁
  exact ⟨l', hr.trans hr', hd'⟩

theorem Moves.simulates (h : Moves s s' id) : Simulates s s' := by
  intro id' l hd
  by_cases hid : id' = id
  · subst hid
    obtain ⟨l', hs, hd'⟩ := h.step l hd
    exact ⟨l', .single hs, hd'⟩
  · exact ⟨l, .refl, (h.frame id' hid).symm ▸ hd⟩

theorem Simulates.good (hg : s.Good) (h : Simulates s s') : s'.Good := by
  intro id
  obtain ⟨l, hd⟩ := hg id
  obtain ⟨l', -, hd'⟩ := h id l hd
  exact ⟨l', hd'⟩

variable {c : Ctx}

theorem currentAttemptID_eq (ht : (s.view id).task = some t)
    (hw : t.workspaceID = c.workspace) : s.currentAttemptID c id = t.currentAttemptID := by
  have hf : s.tasks.find? id = some t := ht
  simp [currentAttemptID, hf, Option.filter, hw]

theorem currentAttemptID_updateTasks {p : Task → Bool} (g : TaskUpdate)
    (hc : ∀ t, (g.set t).currentAttemptID = t.currentAttemptID) :
    (s.updateTasks p g).currentAttemptID c id = s.currentAttemptID c id := by
  have hw : ∀ t, (g.set t).workspaceID = t.workspaceID := fun t =>
    Task.workspaceID_of_contract (g.keeps t)
  simp only [currentAttemptID, updateTasks, Table.find?_update, TaskUpdate.onID_set]
  cases s.tasks.find? id with
  | none => rfl
  | some t =>
    by_cases hp : p t
    · by_cases ht : t.workspaceID = c.workspace <;> simp [setIf_pos hp, Option.filter, hw, ht, hc]
    · rw [map_some, setIf_neg (by simpa using hp)]

variable {r : HumanIntervention → Bool} {status : HumanInterventionStatus} {decidedBy note : String}

theorem currentAttemptID_decide {m : Bool} {now : Time} :
    (if m then s.decideInterventions r status now decidedBy note else s).currentAttemptID c id =
      s.currentAttemptID c id := by
  cases m <;> rfl

theorem attempts_decide {m : Bool} {now : Time} :
    (if m then s.decideInterventions r status now decidedBy note else s).executionAttempts =
      s.executionAttempts := by
  cases m <;> rfl

theorem Good.taskID_of_current (hg : s.Good) (ht : (s.view id).task = some t)
    {b : ExecutionAttempt} (hb : b ∈ s.executionAttempts.rows)
    (hc : t.currentAttemptID = some b.id) : b.taskID = id := by
  obtain ⟨l, hd⟩ := hg id
  have key : ∃ a ∈ (s.view id).attempts, a.id = b.id := by
    cases hd with
    | absent hv => simp [hv] at ht
    | @atRest u past hv _ _ hcur =>
      obtain rfl : u = t := by simpa [hv] using ht
      rw [hcur, map_eq_some_iff] at hc
      obtain ⟨a, ha, hab⟩ := hc
      exact ⟨a, by rw [hv]; exact mem_of_getLast? ha, hab⟩
    | @held _ u past a _ hv _ hh =>
      obtain rfl : u = t := by simpa [hv] using ht
      rw [hh.current] at hc
      exact ⟨a, by rw [hv]; simp, some.inj hc⟩
  obtain ⟨a, ha, hab⟩ := key
  obtain ⟨ha, hid⟩ := mem_attempts.mp ha
  rw [← Table.eq_of_key ha hb hab]
  exact hid

theorem Good.workspace (hg : s.Good) (ht : (s.view id).task = some t)
    (ha : a ∈ (s.view id).attempts) : a.workspaceID = t.workspaceID := by
  obtain ⟨l, hd⟩ := hg id
  cases hd with
  | absent hv => simp [hv] at ht
  | atRest hv hended =>
    rw [hv] at ht ha
    cases ht
    exact hended.workspace a ha
  | held hv hended hh =>
    rw [hv] at ht ha
    cases ht
    rcases mem_append.mp ha with ha | ha
    · exact hended.workspace a ha
    · rw [mem_singleton.mp ha]
      exact hh.workspace

theorem Good.wait (hg : s.Good) {h : HumanIntervention} (hh : h ∈ (s.view id).waits) :
    ∃ t past a, s.view id = ⟨some t, past ++ [a], [h]⟩ ∧
      Holds .waiting t past.length a [h] ∧ h.workspaceID = a.workspaceID ∧
      h.attemptID = a.id ∧ h.workerID = a.workerID := by
  obtain ⟨l, hd⟩ := hg id
  cases hd with
  | absent hv | atRest hv => simp [hv] at hh
  | @held phase t past a waits hv _ hho =>
    rw [hv] at hh
    by_cases hp : phase = .waiting
    · subst hp
      obtain ⟨k, rfl, hk⟩ := hho.waits
      obtain rfl := mem_singleton.mp hh
      exact ⟨t, past, a, hv, hho, hk⟩
    · have hnil : waits = [] := by
        have := hho.waits
        cases phase <;> simp_all [Phase.Waits]
      rw [hnil] at hh
      cases hh

theorem Good.wait_unique (hg : s.Good) {h k : HumanIntervention} (hh : h ∈ (s.view id).waits)
    (hk : k ∈ (s.view id).waits) : k = h := by
  obtain ⟨t, past, a, hv, -⟩ := hg.wait hh
  rw [hv] at hk
  exact mem_singleton.mp hk

/-! ## Statements on one task

The store calls on an existing task send one statement on its row, one on its current attempt and
at most one on its pending interventions. -/

variable {p : Task → Bool} {g : TaskUpdate} {q : ExecutionAttempt → Bool} {f : AttemptUpdate}
  {w : TaskID → List HumanIntervention}

/-- The effect of the statements on every view; `w` is what they leave of the pending
interventions. -/
def Acts (s s' : Store) (p : Task → Bool) (g : TaskUpdate) (q : ExecutionAttempt → Bool)
    (f : AttemptUpdate) (w : TaskID → List HumanIntervention) : Prop :=
  ∀ id, s'.view id = ⟨(s.view id).task.map (setIf p g.set), (s.view id).attempts.map (setIf q f.set), w id⟩

theorem Acts.frame (hg : s.Good) (h : Acts s s' p g q f w) (ht : (s.view id).task = some t)
    (hp : ∀ t, p t → t.id = id) (hq : ∀ b, q b → t.currentAttemptID = some b.id)
    (hw : ∀ id', id' ≠ id → w id' = (s.view id').waits) (hne : id' ≠ id) :
    s'.view id' = s.view id' := by
  have htask : (s.view id').task.map (setIf p g.set) = (s.view id').task := by
    cases hu : (s.view id').task with
    | none => rfl
    | some u =>
      have hpu : p u = false := by
        by_contra hpu
        exact hne ((view_task_id hu).symm.trans (hp u (by simpa using hpu)))
      rw [map_some, setIf_neg hpu]
  have hattempts : (s.view id').attempts.map (setIf q f.set) = (s.view id').attempts := by
    apply Table.map_setIf_of_none
    intro b hb
    obtain ⟨hb, hid⟩ := mem_attempts.mp hb
    by_contra hqb
    exact hne (hid.symm.trans (hg.taskID_of_current ht hb (hq b (by simpa using hqb))))
  rw [h id', htask, hattempts, hw id' hne]

theorem map_last (hv : (s.view id).attempts = past ++ [a]) (hq : ∀ b, q b → b.id = a.id) :
    (past ++ [a]).map (setIf q f.set) = past ++ [setIf q f.set a] := by
  have hnd := s.attempts_nodup id
  rw [hv, map_append, map_singleton, nodup_append] at hnd
  rw [map_append, map_singleton]
  congr 1
  apply Table.map_setIf_of_none
  intro b hb
  by_contra h
  exact hnd.2.2 b.id (List.mem_map.mpr ⟨b, hb, rfl⟩) a.id (by simp) (hq b (by simpa using h))

theorem Acts.held (h : Acts s s' p g q f w) (ht : (s.view id).task = some t) (hpt : p t)
    (hq : ∀ b, q b → t.currentAttemptID = some b.id) (hs : t.status.isHeld)
    (hd : Describes (s.view id) l) :
    ∃ phase past a, l = .held phase a.id a.workerID past.length ∧ (s.view id).attempts = past ++ [a] ∧
      s'.view id = ⟨some (g.set t), past ++ [setIf q f.set a], w id⟩ ∧
      Ended (g.set t) past ∧ Holds phase t past.length a (s.view id).waits := by
  obtain ⟨phase, past, a, waits, hl, hv, hended, hh⟩ := hd.held_inv ht hs
  have hw : (g.set t).workspaceID = t.workspaceID := Task.workspaceID_of_contract (g.keeps t)
  have hlast : (s.view id).attempts = past ++ [a] := by rw [hv]
  refine ⟨phase, past, a, hl, hlast, ?_, hended.of_workspace hw, by rw [hv]; exact hh⟩
  rw [h id, ht, map_some, setIf_pos hpt, hlast, map_last hlast]
  intro b hb
  have := hq b hb
  rw [hh.current] at this
  exact (some.inj this).symm

theorem Acts.moves (hg : s.Good) (h : Acts s s' p g q f w) (ht : (s.view id).task = some t)
    (hpt : p t) (hp : ∀ t, p t → t.id = id)
    (hq : ∀ b, q b → t.currentAttemptID = some b.id)
    (hw : ∀ id', id' ≠ id → w id' = (s.view id').waits) (hs : t.status.isHeld)
    (hstep : ∀ phase past a, Holds phase t past.length a (s.view id).waits → a.taskID = id →
      Ended (g.set t) past →
      s'.view id = ⟨some (g.set t), past ++ [setIf q f.set a], w id⟩ →
      ∃ l', Life.Step (.held phase a.id a.workerID past.length) l' ∧
        Describes (s'.view id) l') : Moves s s' id := by
  constructor
  · intro id' hne
    exact h.frame hg ht hp hq hw hne
  · intro l hd
    obtain ⟨phase, past, a, rfl, hlast, hv, hended, hh⟩ := h.held ht hpt hq hs hd
    have ha : a ∈ (s.view id).attempts := by simp [hlast]
    exact hstep phase past a hh (mem_attempts.mp ha).2 hended hv

theorem Acts.atRest (h : Acts s s' p g q f w) (ht : (s.view id).task = some t) (hpt : p t)
    (hq : ∀ b, q b → b.status.isOpen = true) (hs : t.status.isHeld = false)
    (hd : Describes (s.view id) l) :
    ∃ past, l = .atRest t.status past.length ∧ s.view id = ⟨some t, past, []⟩ ∧
      s'.view id = ⟨some (g.set t), past, w id⟩ ∧ Ended (g.set t) past ∧
      t.currentAttemptID = past.getLast?.map ExecutionAttempt.id := by
  obtain ⟨past, hl, hv, hended, hcur⟩ := hd.atRest_inv ht hs
  have hw : (g.set t).workspaceID = t.workspaceID := Task.workspaceID_of_contract (g.keeps t)
  refine ⟨past, hl, hv, ?_, hended.of_workspace hw, hcur⟩
  rw [h id, ht, map_some, setIf_pos hpt, hv, Table.map_setIf_of_none]
  intro b hb
  by_contra hqb
  have := hq b (by simpa using hqb)
  rw [hended.closed b hb] at this
  cases this

/-! The orders in which the calls send their statements. -/

variable {s₁ : Store}

theorem acts_of_attempts_tasks (h₁ : s.updateAttempts q f = .ok s₁)
    (h₂ : s₁.updateTasks p g = s') : Acts s s' p g q f fun id => (s.view id).waits := by
  intro id
  rw [← h₂, updateTasks_view, updateAttempts_view h₁]

theorem acts_of_tasks (f : AttemptUpdate) (h : s.updateTasks p g = s') :
    Acts s s' p g (fun _ => false) f fun id => (s.view id).waits := by
  intro id
  rw [← h, updateTasks_view, Table.map_setIf_of_none fun _ _ => rfl]

theorem acts_of_tasks_attempts (h : (s.updateTasks p g).updateAttempts q f = .ok s') :
    Acts s s' p g q f fun id => (s.view id).waits := by
  intro id
  rw [updateAttempts_view h, updateTasks_view]

theorem Acts.between {s₂ : Store} (h : Acts s₁ s₂ p g q f w)
    (h₁ : ∀ id, (s₁.view id).task = (s.view id).task ∧ (s₁.view id).attempts = (s.view id).attempts)
    (h₂ : ∀ id, s'.view id = s₂.view id) : Acts s s' p g q f w := by
  intro id
  rw [h₂ id, h id, (h₁ id).1, (h₁ id).2]

section Decide

variable {r : HumanIntervention → Bool} {status : HumanInterventionStatus} {now : Time}
  {decidedBy note : String}

theorem Acts.of_decide (hs : status ≠ .pending)
    (h : Acts (s.decideInterventions r status now decidedBy note) s' p g q f fun id =>
      ((s.decideInterventions r status now decidedBy note).view id).waits) :
    Acts s s' p g q f fun id => (s.view id).waits.filter fun h => !r h := by
  intro id
  simp only [h id, decideInterventions_view hs]

theorem acts_of_report {m : Bool} (hs : status ≠ .pending)
    (h : (if m then (s.updateTasks p g).decideInterventions r status now decidedBy note
      else s.updateTasks p g).updateAttempts q f = .ok s') :
    Acts s s' p g q f fun id => (s.view id).waits.filter fun h => !(m && r h) := by
  intro id
  cases m with
  | true => simp only [updateAttempts_view h, if_true, decideInterventions_view hs,
      updateTasks_view, Bool.true_and]
  | false => simp [updateAttempts_view h]

theorem Acts.decide (hs : status ≠ .pending) (h : Acts s s₁ p g q f fun id => (s.view id).waits)
    (h₂ : s₁.decideInterventions r status now decidedBy note = s') :
    Acts s s' p g q f fun id => (s.view id).waits.filter fun h => !r h := by
  intro id
  simp only [← h₂, decideInterventions_view hs, h id]

end Decide

end Store

end Aegis
