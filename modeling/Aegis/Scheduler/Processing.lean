import Aegis.Scheduler.Edits

/-!
# Scheduler.Processing

`processSchedule` from its first store call to its last.

* `processSchedule`  — the store and the occurrences of the tasks it creates.
* `failures`         — the store calls that fail on the way.
* `occurrence_kept`  — when a single call fails, whether the schedule stays due.
-/

namespace Aegis

open List Option Table

section

variable (cfg : RunnerConfig) (turn : Processing → Turn) (now : Time)

/-- At most `n` store calls of `processSchedule`, from one on; each call has its turn. -/
def processCalls : Nat → Store → Schedule → Processing → Store × List Occurrence
  | 0, s, _, _ => (s, [])
  | n + 1, s, sch, call =>
    match processStep cfg (turn call) now s sch call with
    | (s', none, created) => (s', created)
    | (s', some (sch', call'), created) =>
      ((processCalls n s' sch' call').1, created ++ (processCalls n s' sch' call').2)

/-- `processSchedule`: the rule, the task, the catch-up task and the bookkeeping. -/
def processSchedule (s : Store) (sch : Schedule) : Store × List Occurrence :=
  processCalls cfg turn now 4 s sch .rule

def callFails (t : Turn) (s : Store) (sch : Schedule) : Processing → Bool
  | .rule => (t.attempt (s.getRuleByID (t.ctx cfg) sch.ruleID)).isNone
  | .disable =>
    (t.attempt (s.updateSchedule (t.ctx cfg) { sch with enabled := false, updatedAt := t.now })).isNone
  | .create rule => (t.createTaskFromSchedule cfg s sch rule (sch.scheduledAt now)).isNone
  | .catchUp rule next => (t.createTaskFromSchedule cfg s sch rule next).isNone
  | .update => (t.attempt (s.updateSchedule (t.ctx cfg) { sch with updatedAt := now })).isNone

/-- The store calls that fail, of at most `n` calls. -/
def failuresFrom : Nat → Store → Schedule → Processing → List Processing
  | 0, _, _, _ => []
  | n + 1, s, sch, call =>
    (if callFails cfg now (turn call) s sch call then [call] else []) ++
      match processStep cfg (turn call) now s sch call with
      | (_, none, _) => []
      | (s', some (sch', call'), _) => failuresFrom n s' sch' call'

/-- The store calls of `processSchedule` that fail. -/
def failures (s : Store) (sch : Schedule) : List Processing :=
  failuresFrom cfg turn now 4 s sch .rule

end

def Processing.retried : Processing → Bool
  | .disable | .create _ | .update => true
  | .rule | .catchUp _ _ => false

section Calls

variable {cfg : RunnerConfig} {turn : Processing → Turn} {now next : Time} {s s' : Store}
  {sch sch' : Schedule} {rule : Rule} {call call' : Processing} {created : List Occurrence}
  {n : Nat} {t : Turn}

theorem processCalls_last (h : processStep cfg (turn call) now s sch call = (s', none, created)) :
    processCalls cfg turn now (n + 1) s sch call = (s', created) := by
  simp [processCalls, h]

theorem processCalls_next
    (h : processStep cfg (turn call) now s sch call = (s', some (sch', call'), created)) :
    processCalls cfg turn now (n + 1) s sch call = ((processCalls cfg turn now n s' sch' call').1,
        created ++ (processCalls cfg turn now n s' sch' call').2) := by
  simp [processCalls, h]

theorem failuresFrom_last (h : processStep cfg (turn call) now s sch call = (s', none, created)) :
    failuresFrom cfg turn now (n + 1) s sch call =
      if callFails cfg now (turn call) s sch call then [call] else [] := by
  simp [failuresFrom, h]

theorem failuresFrom_next
    (h : processStep cfg (turn call) now s sch call = (s', some (sch', call'), created)) :
    failuresFrom cfg turn now (n + 1) s sch call =
      (if callFails cfg now (turn call) s sch call then [call] else []) ++
        failuresFrom cfg turn now n s' sch' call' := by
  simp [failuresFrom, h]

theorem step_ruleFails (h : callFails cfg now t s sch .rule) :
    processStep cfg t now s sch .rule = (s, some (sch, .disable), []) := by
  rw [callFails, isNone_iff_eq_none] at h
  simp [processStep, h]

theorem step_rule (h : callFails cfg now t s sch .rule = false) :
    ∃ rule, s.getRuleByID (t.ctx cfg) sch.ruleID = .ok rule ∧ processStep cfg t now s sch .rule =
        (s, some (sch, if rule.enabled && rule.approvalStatus == .approved then .create rule
          else .disable), []) := by
  cases hrule : t.attempt (s.getRuleByID (t.ctx cfg) sch.ruleID) with
  | none => simp [callFails, hrule] at h
  | some rule =>
    refine ⟨rule, (attempt_eq_some hrule).2, ?_⟩
    simp only [processStep, hrule]
    split <;> rfl

theorem step_createFails (h : callFails cfg now t s sch (.create rule)) :
    processStep cfg t now s sch (.create rule) = (s, none, []) := by
  rw [callFails, isNone_iff_eq_none] at h
  simp [processStep, h]

theorem step_create (h : callFails cfg now t s sch (.create rule) = false) :
    ∃ s', s'.schedules = s.schedules ∧ s'.rules = s.rules ∧ processStep cfg t now s sch (.create rule) =
        (s', some ((afterCreate cfg.zones now sch rule).1, (afterCreate cfg.zones now sch rule).2),
          [(sch.id, sch.scheduledAt now)]) := by
  cases hcreate : t.createTaskFromSchedule cfg s sch rule (sch.scheduledAt now) with
  | none => simp [callFails, hcreate] at h
  | some s' =>
    obtain ⟨-, -, -, -, -, -, hs⟩ := createTaskFromSchedule_cases hcreate
    refine ⟨s', ?_, ?_, by simp [processStep, hcreate]⟩ <;> rw [hs]

theorem step_catchUpFails (h : callFails cfg now t s sch (.catchUp rule next)) :
    processStep cfg t now s sch (.catchUp rule next) =
      (s, some (afterCatchUp cfg.zones now sch next, .update), []) := by
  rw [callFails, isNone_iff_eq_none] at h
  simp [processStep, h]

theorem step_catchUp (h : callFails cfg now t s sch (.catchUp rule next) = false) :
    ∃ s', s'.schedules = s.schedules ∧ s'.rules = s.rules ∧
      processStep cfg t now s sch (.catchUp rule next) =
        (s', some (afterCatchUp cfg.zones now sch next, .update), [(sch.id, next)]) := by
  cases hcreate : t.createTaskFromSchedule cfg s sch rule next with
  | none => simp [callFails, hcreate] at h
  | some s' =>
    obtain ⟨-, -, -, -, -, -, hs⟩ := createTaskFromSchedule_cases hcreate
    refine ⟨s', ?_, ?_, by simp [processStep, hcreate]⟩ <;> rw [hs]

theorem step_disable : processStep cfg t now s sch .disable =
    (t.updateSchedule cfg s { sch with enabled := false, updatedAt := t.now }, none, []) := rfl

theorem step_update : processStep cfg t now s sch .update =
    (t.updateSchedule cfg s { sch with updatedAt := now }, none, []) := rfl

theorem updateSchedule_fails (h : (t.attempt (s.updateSchedule (t.ctx cfg) sch)).isNone) :
    t.updateSchedule cfg s sch = s := by
  rw [isNone_iff_eq_none] at h
  simp [Turn.updateSchedule, h]

theorem updateSchedule_row (h : (t.attempt (s.updateSchedule (t.ctx cfg) sch)).isNone = false)
    (hrow : ∃ r, s.schedules.find? sch.id = some r ∧ r.workspaceID = cfg.workspace) :
    ∃ q ∈ s.schedules.rows, q.id = sch.id ∧
      (t.updateSchedule cfg s sch).schedules.find? sch.id = some (sch.overwrite.set q) := by
  obtain ⟨r, hr, hws⟩ := hrow
  have hid := key_of_find? hr
  refine ⟨r, mem_of_find? hr, hid, ?_⟩
  cases hattempt : t.attempt (s.updateSchedule (t.ctx cfg) sch) with
  | none => simp [hattempt] at h
  | some s' =>
    obtain ⟨-, rfl⟩ := Store.updateSchedule_cases (attempt_eq_some hattempt).2
    have hmeets : Store.isSchedule (t.ctx cfg).workspace sch.id r := by
      simp [Store.isSchedule, hid, hws, Turn.ctx]
    simp only [Turn.updateSchedule, hattempt, getD_some]
    rw [find?_update, hr, map_some, setIf_pos hmeets]

/-- The schedule `id` is stored as `r`. -/
def Stored (cfg : RunnerConfig) (s : Store) (id : String) (r : Schedule) : Prop :=
  s.schedules.find? id = some r ∧ r.workspaceID = cfg.workspace

theorem Stored.of_eq {id : String} {r : Schedule} (h : Stored cfg s id r)
    (hs : s'.schedules = s.schedules) : Stored cfg s' id r := ⟨hs ▸ h.1, h.2⟩

variable (turn now n) in
theorem calls_update {r : Schedule} (hr : Stored cfg s sch.id r) :
    (callFails cfg now (turn .update) s sch .update ∧
        (processCalls cfg turn now (n + 1) s sch .update).1 = s ∨
      callFails cfg now (turn .update) s sch .update = false ∧
        (processCalls cfg turn now (n + 1) s sch .update).1.rules = s.rules ∧
        Stored cfg (processCalls cfg turn now (n + 1) s sch .update).1 sch.id
          (Schedule.overwrite { sch with updatedAt := now } |>.set r)) ∧
      (processCalls cfg turn now (n + 1) s sch .update).2 = [] := by
  rw [processCalls_last step_update]
  refine ⟨?_, rfl⟩
  cases hfails : callFails cfg now (turn .update) s sch .update with
  | true => exact .inl ⟨rfl, updateSchedule_fails hfails⟩
  | false =>
    refine .inr ⟨rfl, (kept_updateSchedule cfg _ s _).rules, ?_⟩
    obtain ⟨q, hq, hid, hrow⟩ := updateSchedule_row hfails ⟨r, hr⟩
    obtain rfl : q = r := eq_of_find? hr.1 (find?_key hq) hid
    exact ⟨hrow, hr.2⟩

variable (turn now n) in
theorem calls_disable {r : Schedule} (hr : Stored cfg s sch.id r) :
    (callFails cfg now (turn .disable) s sch .disable ∧
        (processCalls cfg turn now (n + 1) s sch .disable).1 = s ∨
      callFails cfg now (turn .disable) s sch .disable = false ∧
        ∃ q, (q.enabled = false ∧ q.settings = sch.settings) ∧
          Stored cfg (processCalls cfg turn now (n + 1) s sch .disable).1 sch.id q) ∧
      (processCalls cfg turn now (n + 1) s sch .disable).2 = [] := by
  rw [processCalls_last step_disable]
  refine ⟨?_, rfl⟩
  cases hfails : callFails cfg now (turn .disable) s sch .disable with
  | true => exact .inl ⟨rfl, updateSchedule_fails hfails⟩
  | false =>
    obtain ⟨q, hq, hid, hrow⟩ := updateSchedule_row hfails ⟨r, hr⟩
    obtain rfl : q = r := eq_of_find? hr.1 (find?_key hq) hid
    refine .inr ⟨rfl, _, ?_, hrow, hr.2⟩
    exact ⟨rfl, rfl⟩

theorem failures_last (hlast : call = .update ∨ call = .disable) :
    failuresFrom cfg turn now (n + 1) s sch call =
      if callFails cfg now (turn call) s sch call then [call] else [] := by
  rcases hlast with rfl | rfl
  · exact failuresFrom_last step_update
  · exact failuresFrom_last step_disable

variable (cfg now sch rule) in
theorem afterCreate_last : (afterCreate cfg.zones now sch rule).2 = .update ∨
    ∃ next, (afterCreate cfg.zones now sch rule).2 = .catchUp rule next ∧
      sch.scheduledAt Time.zero < next := by
  unfold afterCreate
  split
  · exact .inl rfl
  · split
    · exact .inl rfl
    · rename_i next hcompute
      split
      · exact .inl rfl
      · split
        · exact .inr ⟨next, rfl, lt_computeNextRun hcompute⟩
        · exact .inl rfl

variable (cfg now sch) in
theorem afterCatchUp_leaves {a : Time} (hnext : a < next) :
    ¬((afterCatchUp cfg.zones now sch next).enabled ∧
      (afterCatchUp cfg.zones now sch next).nextRunAt = some a) := by
  rintro ⟨henabled, hrow⟩
  have hpast : (afterCatchUp cfg.zones now sch next).Past [(sch.id, a)] := by
    refine afterCatchUp_past fun u hu => ?_
    cases mem_singleton.mp hu
    exact hnext.le
  have hid : (afterCatchUp cfg.zones now sch next).id = sch.id := Editing.afterCatchUp_settings.1
  exact lt_irrefl a (hpast henabled a hrow a (by rw [hid]; exact mem_singleton_self _))

end Calls

def Store.Retains (s : Store) (sch : Schedule) : Prop := s.schedules.find? sch.id = some sch

section

variable {cfg : RunnerConfig} {turn : Processing → Turn} {now : Time} {s : Store} {sch : Schedule}
  {rule : Rule} {call : Processing}

theorem kept_disable {n : Nat} (hstored : Stored cfg s sch.id sch)
    (hone : failuresFrom cfg turn now (n + 1) s sch .disable = [call]) :
    (processCalls cfg turn now (n + 1) s sch .disable).1.Retains sch ↔ call.retried := by
  rw [failures_last (.inr rfl)] at hone
  rcases (calls_disable turn now n hstored).1 with ⟨hf, hs⟩ | ⟨hf, -⟩
  · rw [hf] at hone
    obtain rfl : Processing.disable = call := (List.cons.inj hone).1
    rw [hs]
    exact iff_of_true hstored.1 rfl
  · simp [hf] at hone

/-- After the creation a failing call leaves the schedule as it was exactly if it is made again. -/
theorem kept_afterCreate (hstored : Stored cfg s sch.id sch) (henabled : sch.enabled)
    (hnext : ∃ a, sch.nextRunAt = some a)
    (hone : failuresFrom cfg turn now 2 s (afterCreate cfg.zones now sch rule).1
      (afterCreate cfg.zones now sch rule).2 = [call]) :
    (processCalls cfg turn now 2 s (afterCreate cfg.zones now sch rule).1
      (afterCreate cfg.zones now sch rule).2).1.Retains sch ↔ call.retried := by
  obtain ⟨a, hnext⟩ := hnext
  have hid : (afterCreate cfg.zones now sch rule).1.id = sch.id := Editing.afterCreate_settings.1
  have hstored₁ : Stored cfg s (afterCreate cfg.zones now sch rule).1.id sch := hid ▸ hstored
  rcases afterCreate_last cfg now sch rule with
    hlast | ⟨next, hlast, hlt⟩
  · rw [hlast] at hone ⊢
    rw [failures_last (.inl rfl)] at hone
    rcases (calls_update turn now 1 hstored₁).1 with ⟨hf, hs⟩ | ⟨hf, -⟩
    · rw [hf] at hone
      obtain rfl : Processing.update = call := (List.cons.inj hone).1
      rw [hs]
      exact iff_of_true hstored.1 rfl
    · simp [hf] at hone
  · rw [hlast] at hone ⊢
    generalize (afterCreate cfg.zones now sch rule).1 = sch₁ at hid hstored₁ hone ⊢
    have hid₂ : (afterCatchUp cfg.zones now sch₁ next).id = sch.id :=
      Editing.afterCatchUp_settings.1.trans hid
    cases hcatch : callFails cfg now (turn (.catchUp rule next)) s sch₁ (.catchUp rule next) with
    | true =>
      -- the bookkeeping leaves the occurrence of the catch-up task behind
      have hstep := step_catchUpFails hcatch
      rw [processCalls_next hstep]
      rw [failuresFrom_next hstep, hcatch, failures_last (.inl rfl)] at hone
      obtain rfl : Processing.catchUp rule next = call := (List.cons.inj hone).1
      have hstored₂ : Stored cfg s (afterCatchUp cfg.zones now sch₁ next).id sch := hid₂ ▸ hstored
      rcases (calls_update turn now 0 hstored₂).1 with
        ⟨hf, -⟩ | ⟨-, -, hrow⟩
      · simp [hf] at hone
      · refine iff_of_false (fun hkept => ?_) (by simp [Processing.retried])
        rw [hid₂] at hrow
        have heq := mem_unique hrow.1 hkept
        have hlt : a < next := by simpa [Schedule.scheduledAt, hnext] using hlt
        refine afterCatchUp_leaves cfg now sch₁ hlt ⟨?_, ?_⟩
        · exact (congrArg Schedule.enabled heq).trans henabled
        · exact (congrArg Schedule.nextRunAt heq).trans hnext
    | false =>
      obtain ⟨s₂, hs₂, -, hstep⟩ := step_catchUp hcatch
      rw [processCalls_next hstep]
      rw [failuresFrom_next hstep, hcatch, failures_last (.inl rfl)] at hone
      have hstored₂ : Stored cfg s₂ (afterCatchUp cfg.zones now sch₁ next).id sch :=
        (hid₂ ▸ hstored).of_eq hs₂
      rcases (calls_update turn now 0 hstored₂).1 with
        ⟨hf, hs⟩ | ⟨hf, -⟩
      · rw [hf] at hone
        obtain rfl : Processing.update = call := (List.cons.inj hone).1
        rw [hs]
        exact iff_of_true (hstored.of_eq hs₂).1 rfl
      · simp [hf] at hone

end

/-- **A failing call and the schedule.** When one store call of `processSchedule` fails, and
`GetRuleByID` not for a rule that is missing, a schedule that was due is left as it was exactly
when the call is one that the next tick makes again. -/
theorem occurrence_kept {cfg : RunnerConfig} {turn : Processing → Turn} {now : Time} {s : Store}
    {sch : Schedule} {call : Processing} (hrow : sch ∈ s.schedules.rows)
    (hdue : Store.isDue cfg.workspace now sch = true)
    (hone : failures cfg turn now s sch = [call])
    (hfound : call = .rule → (turn .rule).failed = true) :
    (processSchedule cfg turn now s sch).1.Retains sch ↔ call.retried = true := by
  simp only [Store.isDue, Bool.and_eq_true, beq_iff_eq, Option.any_eq_true] at hdue
  obtain ⟨⟨hws, henabled⟩, a, hnext, -⟩ := hdue
  have hstored : Stored cfg s sch.id sch := ⟨find?_key hrow, hws⟩
  unfold failures at hone
  unfold processSchedule Store.Retains
  cases hrule : callFails cfg now (turn .rule) s sch .rule with
  | true =>
    have hstep := step_ruleFails hrule
    rw [processCalls_next hstep]
    rw [failuresFrom_next hstep, hrule, failures_last (.inr rfl)] at hone
    obtain rfl : Processing.rule = call := (List.cons.inj hone).1
    -- the schedule is disabled
    rcases (calls_disable turn now 2 hstored).1 with
      ⟨hf, -⟩ | ⟨-, q, hq, hs⟩
    · simp [hf] at hone
    · refine iff_of_false (fun hkept => ?_) (by simp [Processing.retried])
      obtain rfl := mem_unique hkept hs.1
      exact absurd (henabled.symm.trans hq.1) (by simp)
  | false =>
    obtain ⟨rule, -, hstep⟩ := step_rule hrule
    rw [processCalls_next hstep]
    rw [failuresFrom_next hstep, hrule] at hone
    cases hactive : rule.enabled && rule.approvalStatus == .approved with
    | false =>
      simp only [hactive, Bool.false_eq_true, if_false, nil_append] at hone ⊢
      exact kept_disable hstored hone
    | true =>
      simp only [hactive, if_true, Bool.false_eq_true, if_false, nil_append] at hone ⊢
      cases hcreate : callFails cfg now (turn (.create rule)) s sch (.create rule) with
      | true =>
        have hlast := step_createFails hcreate
        rw [failuresFrom_last hlast, hcreate] at hone
        obtain rfl : Processing.create rule = call := (List.cons.inj hone).1
        rw [processCalls_last hlast]
        exact iff_of_true hstored.1 rfl
      | false =>
        obtain ⟨s₁, hs₁, -, hstep₁⟩ := step_create hcreate
        rw [processCalls_next hstep₁]
        rw [failuresFrom_next hstep₁, hcreate] at hone
        exact kept_afterCreate (hstored.of_eq hs₁) henabled ⟨a, hnext⟩ (by simpa using hone)

namespace Sample

/-- The turns of a tick at 10, in which the calls that `fails` picks out fail. -/
def failing (fails : Processing → Bool) (call : Processing) : Turn :=
  ⟨10, fails call, "first", fun _ => 0⟩

end Sample

/-- The bookkeeping fails, and the schedule stays due. -/
theorem occurrence_kept_update :
    (processSchedule Sample.runnerConfig (Sample.failing (· == .update)) 10 Sample.scheduled.store
        Sample.schedule).2 = [("schedule", 5)] ∧
      (processSchedule Sample.runnerConfig (Sample.failing (· == .update)) 10
        Sample.scheduled.store Sample.schedule).1.Retains Sample.schedule :=
  ⟨by decide, (occurrence_kept (by decide) (by decide) (by decide : _ = [.update])
    (by decide)).mpr rfl⟩

/-- The rule cannot be read for once, and the schedule is disabled for good. -/
theorem occurrence_lost_rule : ¬ ∀ cfg turn now (s : Store) sch call, sch ∈ s.schedules.rows →
      Store.isDue cfg.workspace now sch = true → failures cfg turn now s sch = [call] →
      (call = .rule → (turn .rule).failed = true) →
      (processSchedule cfg turn now s sch).1.Retains sch := by
  intro h
  have hkept := h Sample.runnerConfig (Sample.failing (· == .rule)) 10 Sample.scheduled.store
    Sample.schedule .rule (by decide) (by decide) (by decide) (by decide)
  revert hkept
  unfold Store.Retains
  decide

end Aegis
