import Aegis.Scheduler.RunnerSteps

/-!
# Scheduler.Occurrences

How often the schedule runner creates a task for one occurrence of a schedule.

The task and the bookkeeping that takes the schedule past its occurrence are two writes. Between
them an instance holds the schedule: if the second one is lost, or another instance works from a
list it has read before, the occurrence gets a second task. `Careful` rules these two out, and
then every stored schedule that nobody holds is past all occurrences that have had their task.
-/

namespace Aegis

open List Option

def Store.stillDue (s : Store) (workspace : WorkspaceID) (now : Time) (sch : Schedule) : Bool :=
  s.schedules.any fun r =>
    r.id == sch.id && isDue workspace now r && r.nextRunAt == sch.nextRunAt

namespace Runners

variable (cfg : RunnerConfig)

/-- No task of the runners has the schedule and the time of another one. -/
def OneTaskPerOccurrence (v : Runners) : Prop := v.created.Nodup

instance (v : Runners) : Decidable v.OneTaskPerOccurrence :=
  inferInstanceAs (Decidable v.created.Nodup)

/-- The next store call of an instance at `stage`: it creates the task of a schedule only if the
schedule is still due and no instance holds it, and the bookkeeping does not fail. -/
def CarefulTurn (v : Runners) (t : Turn) : RunnerStage → Prop
  | .process now sch (.create _) _ =>
    t.failed = false → v.store.stillDue cfg.workspace now sch = true ∧
      ∀ q ∈ v.runners, q.stage.holds ≠ some sch.id
  | .process _ _ .update _ => t.failed = false
  | _ => True

/-- The condition on a step; an instance that holds a schedule does not stop. -/
def Careful (v : Runners) : RunnerEvent → Prop
  | .advance i t => ∀ r ∈ v.runners[i]?, CarefulTurn cfg v t r.stage
  | .stop i => ∀ r ∈ v.runners[i]?, r.stage.holds = none
  | _ => True

instance (v : Runners) (t : Turn) : ∀ stage, Decidable (CarefulTurn cfg v t stage)
  | .process now sch (.create _) _ => inferInstanceAs (Decidable
      (t.failed = false → v.store.stillDue cfg.workspace now sch = true ∧
        ∀ q ∈ v.runners, q.stage.holds ≠ some sch.id))
  | .process _ _ .update _ => inferInstanceAs (Decidable (t.failed = false))
  | .process _ _ .rule _ | .process _ _ .disable _ | .process _ _ (.catchUp _ _) _
  | .idle | .list | .renew | .stopped => .isTrue trivial

instance (v : Runners) : ∀ e, Decidable (Careful cfg v e)
  | .advance i t => inferInstanceAs (Decidable (∀ r ∈ v.runners[i]?, CarefulTurn cfg v t r.stage))
  | .stop i => inferInstanceAs (Decidable (∀ r ∈ v.runners[i]?, r.stage.holds = none))
  | .start _ | .shutdown _ _ => .isTrue trivial

structure Initial (v : Runners) : Prop where
  runners : v.runners = []
  created : v.created = []

end Runners

/-- The schedule, if enabled, runs next after every occurrence of it in `created`. -/
def Schedule.Past (created : List Occurrence) (sch : Schedule) : Prop :=
  sch.enabled = true → ∀ next ∈ sch.nextRunAt, ∀ a, (sch.id, a) ∈ created → a < next

section Bookkeeping

variable {zones : Zones} {now next a : Time} {sch : Schedule} {created : List Occurrence} {n : Nat}

theorem past_of_disabled (h : sch.enabled = false) : sch.Past created := by
  intro he
  rw [h] at he
  cases he

theorem skipAhead_eq (zones : Zones) (now : Time) (sch : Schedule) (n : Nat) (next : Time) :
    ∃ enabled nextRunAt, skipAhead zones now sch n next =
      { sch with enabled := enabled, nextRunAt := nextRunAt } := by
  induction n generalizing next with
  | zero => exact ⟨sch.enabled, _, rfl⟩
  | succ n ih =>
    unfold skipAhead
    split
    · exact ⟨sch.enabled, _, rfl⟩
    · split
      · exact ⟨false, _, rfl⟩
      · exact ih _

theorem skipAhead_enabled (h : sch.enabled = false) : (skipAhead zones now sch n next).enabled = false := by
  induction n generalizing next with
  | zero => exact h
  | succ n ih =>
    unfold skipAhead
    split
    · exact h
    · split
      · rfl
      · exact ih

theorem skipAhead_past (h : ∀ a, (sch.id, a) ∈ created → a < next) :
    (skipAhead zones now sch n next).Past created := by
  induction n generalizing next with
  | zero =>
    intro _ u hu a ha
    cases hu
    split
    · exact h a ha
    · rename_i hle
      exact (h a ha).trans_le (not_lt.mp hle)
  | succ n ih =>
    unfold skipAhead
    split
    · intro _ u hu a ha
      cases hu
      exact h a ha
    · split
      · exact past_of_disabled rfl
      · rename_i hnext
        exact ih fun a ha => (h a ha).trans (lt_computeNextRun hnext)

theorem afterCatchUp_eq (zones : Zones) (now : Time) (sch : Schedule) (next : Time) :
    ∃ enabled nextRunAt, afterCatchUp zones now sch next =
      { sch with enabled := enabled, nextRunAt := nextRunAt } := by
  unfold afterCatchUp
  split
  · exact skipAhead_eq zones now { sch with enabled := false } maxCatchUpIterations Time.zero
  · exact skipAhead_eq zones now sch maxCatchUpIterations _

theorem afterCatchUp_past (h : ∀ a, (sch.id, a) ∈ created → a ≤ next) :
    (afterCatchUp zones now sch next).Past created := by
  unfold afterCatchUp
  split
  · exact past_of_disabled (skipAhead_enabled rfl)
  · rename_i hnext
    exact skipAhead_past fun a ha => (h a ha).trans_lt (lt_computeNextRun hnext)

end Bookkeeping

/-! ## The invariant -/

structure Store.Has (s : Store) (workspace : WorkspaceID) (sch : Schedule) : Prop where
  rule : s.ruleExists workspace sch.ruleID = true
  row : ∃ r ∈ s.schedules.rows, r.id = sch.id ∧ r.workspaceID = workspace

/-- What an instance that holds a schedule still has to do takes it past its occurrences. -/
def RunnerStage.Sound (workspace : WorkspaceID) (s : Store) (created : List Occurrence) : RunnerStage → Prop
  | process _ sch (.catchUp _ next) _ =>
    s.Has workspace sch ∧ ∀ a, (sch.id, a) ∈ created → a < next
  | process _ sch .update _ => s.Has workspace sch ∧ sch.Past created
  | _ => True

/-- No occurrence has two tasks, a stored schedule that no instance holds is past all of its own,
and at most one instance holds a schedule. -/
structure Runners.Settled (workspace : WorkspaceID) (v : Runners) : Prop where
  nodup : v.created.Nodup
  rows : ∀ q ∈ v.store.schedules.rows,
    (∀ r ∈ v.runners, r.stage.holds ≠ some q.id) → q.Past v.created
  one : ∀ (i j : Nat) (r q : Runner) (id : String), v.runners[i]? = some r →
    v.runners[j]? = some q → r.stage.holds = some id → q.stage.holds = some id → i = j
  sound : ∀ r ∈ v.runners, r.stage.Sound workspace v.store v.created

section Invariant

variable {cfg : RunnerConfig} {t : Turn} {s s' : Store} {sch : Schedule} {workspace : WorkspaceID}
  {stage stage' : RunnerStage} {created new : List Occurrence} {v : Runners} {i : Nat}
  {r r' : Runner}

theorem Store.Has.kept (h : s.Has workspace sch) (hk : Kept s s') : s'.Has workspace sch := by
  obtain ⟨hrule, r, hr, hid, hws⟩ := h
  obtain ⟨q, hq, hqid, hqws⟩ := hk.rows r hr
  refine ⟨?_, q, hq, hqid.trans hid, hqws.trans hws⟩
  unfold Store.ruleExists at hrule ⊢
  rwa [hk.rules]

theorem Schedule.Past.append (h : sch.Past created) (hnew : ∀ o ∈ new, o.1 ≠ sch.id) :
    sch.Past (created ++ new) := by
  intro he next hnext a ha
  rcases mem_append.mp ha with ha | ha
  · exact h he next hnext a ha
  · exact absurd rfl (hnew _ ha)

theorem RunnerStage.Sound.kept (h : stage.Sound workspace s created) (hk : Kept s s')
    (hnew : ∀ o ∈ new, stage.holds ≠ some o.1) :
    stage.Sound workspace s' (created ++ new) := by
  unfold RunnerStage.Sound at h ⊢
  split at h
  · refine ⟨h.1.kept hk, fun a ha => ?_⟩
    rcases mem_append.mp ha with ha | ha
    · exact h.2 a ha
    · exact absurd rfl (hnew _ ha)
  · exact ⟨h.1.kept hk, h.2.append fun o ho he => hnew o ho (congrArg some he.symm)⟩
  · trivial

theorem Store.Has.skipAhead {zones : Zones} {now next : Time} {n : Nat}
    (h : s.Has workspace sch) : s.Has workspace (skipAhead zones now sch n next) := by
  obtain ⟨_, _, he⟩ := skipAhead_eq zones now sch n next
  rw [he]
  exact ⟨h.rule, h.row⟩

theorem afterCreate_holds {zones : Zones} {now : Time} {rule : Rule} {rest : List Schedule} :
    (RunnerStage.process now (afterCreate zones now sch rule).1 (afterCreate zones now sch rule).2
      rest).holds = some sch.id := by
  unfold afterCreate
  split
  · rfl
  · split
    · rfl
    · split
      · rfl
      · split
        · rfl
        · obtain ⟨_, _, he⟩ := skipAhead_eq zones now { sch with lastRunAt := some now }
            maxCatchUpIterations _
          rw [he]
          rfl

theorem afterCreate_sound {zones : Zones} {now at' : Time} {rule : Rule} {rest : List Schedule}
    (hhas : s.Has workspace sch) (hnext : sch.nextRunAt = some at')
    (hle : ∀ a, (sch.id, a) ∈ created → a ≤ at') :
    (RunnerStage.process now (afterCreate zones now sch rule).1 (afterCreate zones now sch rule).2
      rest).Sound workspace s created := by
  unfold afterCreate
  split
  · exact ⟨⟨hhas.rule, hhas.row⟩, past_of_disabled rfl⟩
  · rw [hnext, getD_some]
    split
    · exact ⟨⟨hhas.rule, hhas.row⟩, past_of_disabled rfl⟩
    · rename_i next hcompute
      have hlt : ∀ a, (sch.id, a) ∈ created → a < next :=
        fun a ha => (hle a ha).trans_lt (lt_computeNextRun hcompute)
      split
      · refine ⟨⟨hhas.rule, hhas.row⟩, fun _ u hu a ha => ?_⟩
        cases hu
        exact hlt a ha
      · split
        · exact ⟨⟨hhas.rule, hhas.row⟩, hlt⟩
        · exact ⟨Store.Has.skipAhead ⟨hhas.rule, hhas.row⟩, skipAhead_past hlt⟩

theorem getElem?_set_cases {l : List Runner} {j : Nat} {q : Runner}
    (h : (l.set i r')[j]? = some q) : j = i ∧ q = r' ∨ j ≠ i ∧ l[j]? = some q := by
  rw [getElem?_set] at h
  by_cases hij : i = j
  · rw [if_pos hij] at h
    split at h
    · exact .inl ⟨hij.symm, (some.inj h).symm⟩
    · cases h
  · rw [if_neg hij] at h
    exact .inr ⟨fun he => hij he.symm, h⟩

theorem holds_of_set {id : String} (hi : v.runners[i]? = some r) (hr : r.stage.holds ≠ some id)
    (h : ∀ q ∈ v.runners.set i r', q.stage.holds ≠ some id) :
    ∀ q ∈ v.runners, q.stage.holds ≠ some id := by
  intro q hq
  obtain ⟨j, hj⟩ := mem_iff_getElem?.mp hq
  by_cases hij : i = j
  · subst hij
    rw [hi] at hj
    cases hj
    exact hr
  · refine h q (mem_of_getElem? (i := j) ?_)
    rw [getElem?_set, if_neg hij]
    exact hj

theorem Runners.Settled.one_set (h : v.Settled workspace) (hi : v.runners[i]? = some r)
    (hnew : ∀ id, r'.stage.holds = some id → r.stage.holds = some id ∨
      ∀ q ∈ v.runners, q.stage.holds ≠ some id) (j k : Nat) (p q : Runner) (id : String)
    (hj : (v.runners.set i r')[j]? = some p) (hk : (v.runners.set i r')[k]? = some q)
    (hp : p.stage.holds = some id) (hq : q.stage.holds = some id) : j = k := by
  -- an instance other than the one that steps does not hold a schedule of its
  have hother : ∀ (m : Nat) (u : Runner), v.runners[m]? = some u → u.stage.holds = some id →
      r'.stage.holds = some id → i = m := by
    intro m u hm hu hr'
    rcases hnew id hr' with hr | hnone
    · exact h.one i m r u id hi hm hr hu
    · exact absurd hu (hnone u (mem_of_getElem? hm))
  rcases getElem?_set_cases hj with ⟨rfl, rfl⟩ | ⟨-, hj'⟩
  · rcases getElem?_set_cases hk with ⟨rfl, rfl⟩ | ⟨-, hk'⟩
    · rfl
    · exact hother k q hk' hq hp
  · rcases getElem?_set_cases hk with ⟨rfl, rfl⟩ | ⟨-, hk'⟩
    · exact (hother j p hj' hp hq).symm
    · exact h.one j k p q id hj' hk' hp hq

theorem Runners.Settled.sound_set (h : v.Settled workspace) (hk : Kept v.store s')
    (hr' : r'.stage.Sound workspace s' (v.created ++ new))
    (hnew : ∀ (j : Nat) (q : Runner), j ≠ i → v.runners[j]? = some q →
      ∀ o ∈ new, q.stage.holds ≠ some o.1) :
    ∀ q ∈ v.runners.set i r', q.stage.Sound workspace s' (v.created ++ new) := by
  intro q hq
  obtain ⟨j, hj⟩ := mem_iff_getElem?.mp hq
  rcases getElem?_set_cases hj with ⟨-, rfl⟩ | ⟨hne, hj⟩
  · exact hr'
  · exact (h.sound q (mem_of_getElem? hj)).kept hk (hnew j q hne hj)

theorem sound_of_holds_none (h : stage.holds = none) : stage.Sound workspace s created := by
  unfold RunnerStage.Sound
  split
  · cases h
  · cases h
  · trivial

theorem updateSchedule_ok (hhas : s.Has cfg.workspace sch) (hf : t.failed = false) :
    s.updateSchedule (t.ctx cfg) sch = .ok (t.updateSchedule cfg s sch) := by
  obtain ⟨hrule, r, hr, hid, hws⟩ := hhas
  obtain ⟨s', hs'⟩ := Store.updateSchedule_of_stored (c := t.ctx cfg) hrule hr hid hws
  unfold Turn.updateSchedule Turn.attempt
  rw [hf, hs']
  rfl

theorem Runners.Settled.fresh_of_stillDue {now : Time} (h : v.Settled workspace)
    (hdue : v.store.stillDue workspace now sch)
    (hfree : ∀ q ∈ v.runners, q.stage.holds ≠ some sch.id) :
    (∃ r ∈ v.store.schedules.rows, r.id = sch.id ∧ r.workspaceID = workspace) ∧
      ∃ at', sch.nextRunAt = some at' ∧ ∀ a, (sch.id, a) ∈ v.created → a < at' := by
  obtain ⟨q, hq, hcond⟩ := Table.any_eq_true.mp hdue
  simp only [Store.isDue, Bool.and_eq_true, beq_iff_eq, Option.any_eq_true] at hcond
  obtain ⟨⟨hid, ⟨hws, hen⟩, at', hat, -⟩, hnext⟩ := hcond
  refine ⟨⟨q, hq, hid, hws⟩, at', hnext ▸ hat, fun a ha => ?_⟩
  rw [← hid] at hfree ha
  exact h.rows q hq hfree hen at' hat a ha

theorem Runners.Settled.release (h : v.Settled workspace) (hk : Kept v.store s')
    (hi : v.runners[i]? = some r) (hr' : r'.stage.holds = none)
    (hrows : ∀ q ∈ s'.schedules.rows,
      (∀ p ∈ v.runners.set i r', p.stage.holds ≠ some q.id) → q.Past v.created) :
    Runners.Settled workspace ⟨s', v.runners.set i r', v.created ++ []⟩ := by
  refine ⟨?_, fun q hq hfree => ?_, h.one_set hi fun id hid => ?_, h.sound_set hk ?_ ?_⟩
  · rw [append_nil]
    exact h.nodup
  · rw [append_nil]
    exact hrows q hq hfree
  · rw [hr'] at hid
    cases hid
  · exact sound_of_holds_none hr'
  · intro _ _ _ _ _ ho
    cases ho

theorem Runners.Settled.take {id : String} (h : v.Settled workspace)
    (hs : s'.schedules = v.store.schedules) (hk : Kept v.store s') (hi : v.runners[i]? = some r)
    (hr' : r'.stage.holds = some id)
    (hr : r.stage.holds = some id ∨ r.stage.holds = none ∧ ∀ q ∈ v.runners, q.stage.holds ≠ some id)
    (hnew : ∀ o ∈ new, o.1 = id) (hnodup : (v.created ++ new).Nodup)
    (hsound : r'.stage.Sound workspace s' (v.created ++ new)) :
    Runners.Settled workspace ⟨s', v.runners.set i r', v.created ++ new⟩ := by
  refine ⟨hnodup, fun q hq hfree => ?_, h.one_set hi fun id' hid => ?_, h.sound_set hk hsound ?_⟩
  · have hne : id ≠ q.id := by
      rintro rfl
      refine hfree r' (mem_of_getElem? (i := i) ?_) hr'
      rw [getElem?_set_self (List.getElem?_eq_some_iff.mp hi).1]
    have hrq : r.stage.holds ≠ some q.id := by
      rcases hr with hr | ⟨hr, -⟩
      · rw [hr]
        exact fun he => hne (some.inj he)
      · rw [hr]
        exact nofun
    rw [hs] at hq
    exact (h.rows q hq (holds_of_set hi hrq hfree)).append fun o ho => by
      rw [hnew o ho]
      exact hne
  · obtain rfl := mem_unique hr' hid
    rcases hr with hr | ⟨-, hnone⟩
    · exact .inl hr
    · exact .inr hnone
  · intro j q hj hq o ho hholds
    rw [hnew o ho] at hholds
    rcases hr with hr | ⟨-, hnone⟩
    · exact hj (h.one i j r q id hi hq hr hholds).symm
    · exact hnone q (mem_of_getElem? hq) hholds

section Calls

variable {now next : Time} {rule : Rule} {rest : List Schedule}

theorem Runners.Settled.quiet (h : v.Settled workspace) (hi : v.runners[i]? = some r)
    (hr : r.stage.holds = none) (hr' : r'.stage.holds = none)
    (hs : s' = { v.store with schedulerLocks := s'.schedulerLocks }) :
    Runners.Settled workspace ⟨s', v.runners.set i r', v.created ++ []⟩ := by
  rw [hs]
  exact h.release (.of_eq rfl rfl) hi hr' fun q hq hfree =>
    h.rows q hq (holds_of_set hi (by rw [hr]; exact nofun) hfree)

theorem Runners.Settled.create (h : v.Settled cfg.workspace) (hi : v.runners[i]? = some r)
    (hr : r.stage = .process now sch (.create rule) rest)
    (hc : Runners.CarefulTurn cfg v t r.stage)
    (hcreate : t.createTaskFromSchedule cfg v.store sch rule (sch.scheduledAt now) = some s')
    (hk : Kept v.store s')
    (hr' : r'.stage = .process now (afterCreate cfg.zones now sch rule).1
      (afterCreate cfg.zones now sch rule).2 rest) :
    Runners.Settled cfg.workspace
      ⟨s', v.runners.set i r', v.created ++ [(sch.id, sch.scheduledAt now)]⟩ := by
  obtain ⟨hf, hrule, u, -, -, -, hs⟩ := createTaskFromSchedule_cases hcreate
  rw [hr] at hc
  obtain ⟨hdue, hfree⟩ := hc hf
  obtain ⟨hrow, at', hat, hlt⟩ := h.fresh_of_stillDue hdue hfree
  have hscheduled : sch.scheduledAt now = at' := by
    rw [Schedule.scheduledAt, hat, getD_some]
  rw [hscheduled]
  refine h.take (by rw [hs]) hk hi (by rw [hr']; exact afterCreate_holds)
    (.inr ⟨by rw [hr]; rfl, hfree⟩) ?_ ?_ ?_
  · intro o ho
    rw [mem_singleton.mp ho]
  · refine nodup_append.mpr ⟨h.nodup, nodup_singleton _, ?_⟩
    rintro o ho _ ho' rfl
    rw [mem_singleton.mp ho'] at ho
    exact lt_irrefl at' (hlt at' ho)
  · rw [hr']
    refine afterCreate_sound (Store.Has.kept ⟨hrule, hrow⟩ hk) hat fun a ha => ?_
    rcases mem_append.mp ha with ha | ha
    · exact (hlt a ha).le
    · exact (congrArg Prod.snd (mem_singleton.mp ha)).le

theorem Runners.Settled.catchUp (h : v.Settled workspace) (hi : v.runners[i]? = some r)
    (hr : r.stage = .process now sch (.catchUp rule next) rest)
    (hcreate : s' = v.store ∧ new = [] ∨
      t.createTaskFromSchedule cfg v.store sch rule next = some s' ∧ new = [(sch.id, next)])
    (hk : Kept v.store s')
    (hr' : r'.stage = .process now (afterCatchUp cfg.zones now sch next) .update rest) :
    Runners.Settled workspace ⟨s', v.runners.set i r', v.created ++ new⟩ := by
  have hsound := h.sound r (mem_of_getElem? hi)
  rw [hr] at hsound
  obtain ⟨hhas, hlt⟩ := hsound
  have hhas' := hhas.kept hk
  obtain ⟨_, _, he⟩ := afterCatchUp_eq cfg.zones now sch next
  have hs : s'.schedules = v.store.schedules := by
    rcases hcreate with ⟨rfl, -⟩ | ⟨hcreate, -⟩
    · rfl
    · obtain ⟨-, -, u, -, -, -, hs⟩ := createTaskFromSchedule_cases hcreate
      rw [hs]
  have hnew : new = [] ∨ new = [(sch.id, next)] := hcreate.imp And.right And.right
  have hids : ∀ o ∈ new, o = (sch.id, next) := by
    rcases hnew with rfl | rfl
    · exact nofun
    · exact fun o ho => mem_singleton.mp ho
  refine h.take hs hk hi (by rw [hr', he]; rfl)
    (.inl (by rw [hr]; rfl)) (fun o ho => by rw [hids o ho]) ?_ ?_
  · refine nodup_append.mpr ⟨h.nodup, ?_, ?_⟩
    · rcases hnew with rfl | rfl
      · exact nodup_nil
      · exact nodup_singleton _
    · rintro o ho _ ho' rfl
      rw [hids o ho'] at ho
      exact lt_irrefl next (hlt next ho)
  · rw [hr']
    refine ⟨?_, afterCatchUp_past fun a ha => ?_⟩
    · rw [he]
      exact ⟨hhas'.rule, hhas'.row⟩
    · rcases mem_append.mp ha with ha | ha
      · exact (hlt a ha).le
      · exact (congrArg Prod.snd (hids _ ha)).le

theorem Runners.Settled.disable {t : Turn} (h : v.Settled workspace)
    (hi : v.runners[i]? = some r) (hr : r.stage.holds = none) (hr' : r'.stage.holds = none)
    (hen : sch.enabled = false) :
    Runners.Settled workspace ⟨t.updateSchedule cfg v.store sch, v.runners.set i r', v.created ++ []⟩ := by
  refine h.release (kept_updateSchedule cfg t v.store sch) hi hr' fun q hq hfree => ?_
  have hfree' := holds_of_set hi (by rw [hr]; exact nofun) hfree
  rcases updateSchedule_eq cfg t v.store sch with hsame | hok
  · rw [hsame] at hq
    exact h.rows q hq hfree'
  · obtain ⟨q₀, hq₀, -, -, hcase⟩ := Store.mem_updateSchedule hok hq
    rcases hcase with ⟨-, rfl⟩ | ⟨-, hen', -⟩
    · exact h.rows q hq₀ hfree'
    · exact past_of_disabled (hen'.trans hen)

theorem Runners.Settled.update (h : v.Settled cfg.workspace) (hi : v.runners[i]? = some r)
    (hr : r.stage = .process now sch .update rest) (hf : t.failed = false)
    (hr' : r'.stage.holds = none) :
    Runners.Settled cfg.workspace ⟨t.updateSchedule cfg v.store { sch with updatedAt := now },
      v.runners.set i r', v.created ++ []⟩ := by
  have hsound := h.sound r (mem_of_getElem? hi)
  rw [hr] at hsound
  obtain ⟨hhas, hpast⟩ := hsound
  have hok : v.store.updateSchedule (t.ctx cfg) { sch with updatedAt := now } = .ok _ :=
    updateSchedule_ok ⟨hhas.rule, hhas.row⟩ hf
  refine h.release (kept_updateSchedule cfg t v.store _) hi hr' fun q hq hfree => ?_
  obtain ⟨q₀, hq₀, hid, -, hcase⟩ := Store.mem_updateSchedule hok hq
  rcases hcase with ⟨hother, rfl⟩ | ⟨hthis, hen, hnext⟩
  · -- the row of the schedule is the one that is written
    have hne : q.id ≠ sch.id := by
      intro he
      obtain ⟨q', hq', hid', hws'⟩ := hhas.row
      obtain rfl := Table.eq_of_key hq₀ hq' (he.trans hid'.symm)
      simp [Store.isSchedule, he, hws', Turn.ctx] at hother
    refine h.rows q hq₀ (holds_of_set hi ?_ hfree)
    rw [hr]
    exact fun he => hne (some.inj he).symm
  · simp only [Store.isSchedule, Bool.and_eq_true, beq_iff_eq] at hthis
    intro hqe u hu a ha
    rw [← hid, hthis.1] at ha
    exact hpast (hen ▸ hqe) u (hnext ▸ hu) a ha

end Calls

theorem Runners.Settled.advance (h : v.Settled cfg.workspace) (hi : v.runners[i]? = some r)
    (hc : Runners.CarefulTurn cfg v t r.stage)
    (hstep : RunnerStep cfg t v.store r.stage s' r'.stage new) :
    Runners.Settled cfg.workspace ⟨s', v.runners.set i r', v.created ++ new⟩ := by
  have hkept := hstep.kept
  generalize hr : r.stage = stage at hstep
  generalize hr' : r'.stage = stage' at hstep
  cases hstep with
  | quiet hs hold hnew =>
    subst hr hr'
    exact h.quiet hi hold hnew hs
  | disable hnew => exact h.disable hi (by rw [hr]; rfl) (by rw [hr', hnew]) rfl
  | create hcreate => exact h.create hi hr hc hcreate hkept hr'
  | catchUp hcreate => exact h.catchUp hi hr hcreate hkept hr'
  | update hnew =>
    rw [hr] at hc
    exact h.update hi hr hc (by rw [hr', hnew])

theorem Runners.Settled.start (h : v.Settled workspace) (hr : r.stage = .idle) :
    Runners.Settled workspace ⟨v.store, v.runners ++ [r], v.created⟩ := by
  have hold : ∀ (j : Nat) (q : Runner) (id : String), (v.runners ++ [r])[j]? = some q →
      q.stage.holds = some id → v.runners[j]? = some q := by
    intro j q id hj hq
    rw [getElem?_append] at hj
    split at hj
    · exact hj
    · rw [mem_singleton.mp (mem_of_getElem? hj), hr] at hq
      cases hq
  refine ⟨h.nodup, fun q hq hfree => ?_, fun j k p q id hj hk hp hq => ?_, fun q hq => ?_⟩
  · exact h.rows q hq fun p hp => hfree p (mem_append_left _ hp)
  · exact h.one j k p q id (hold j p id hj hp) (hold k q id hk hq) hp hq
  · rcases mem_append.mp hq with hq | hq
    · exact h.sound q hq
    · rw [mem_singleton.mp hq, hr]
      trivial

theorem Runners.Settled.shutdown (h : v.Settled workspace) (hi : v.runners[i]? = some r)
    (cfg : RunnerConfig) (t : Turn) :
    Runners.Settled workspace ⟨(r.shutdown cfg t v.store).1, v.runners.set i (r.shutdown cfg t v.store).2.1,
      v.created ++ (r.shutdown cfg t v.store).2.2⟩ := by
  unfold Runner.shutdown
  split
  · rename_i hstage
    refine h.quiet hi (by rw [hstage]; rfl) rfl ?_
    dsimp only
    split <;> rfl
  · obtain ⟨-, rfl⟩ := List.getElem?_eq_some_iff.mp hi
    rw [set_getElem_self, append_nil]
    exact h

/-- A careful event keeps the occurrences settled. -/
theorem Runners.Settled.step (h : v.Settled cfg.workspace) {e : RunnerEvent}
    (hc : Runners.Careful cfg v e) : (v.step cfg e).Settled cfg.workspace := by
  cases e with
  | start instanceID => exact h.start rfl
  | advance i t =>
    exact Runners.on_rule h fun r hi => h.advance hi (hc r hi) (runnerStep cfg t v.store r)
  | shutdown i t => exact Runners.on_rule h fun r hi => h.shutdown hi cfg t
  | stop i => exact Runners.on_rule h fun r hi => h.quiet hi (hc r hi) rfl rfl

end Invariant

/-- **One task per occurrence.** In a run in which a task is created only for a schedule that is
still due and that no other instance holds, and in which the bookkeeping after it is written, no
two tasks of the runners are for one occurrence. -/
theorem one_task_per_occurrence {cfg : RunnerConfig} {v : Runners} (hi : v.Initial)
    {es : List RunnerEvent} (h : Meets (Runners.step cfg) (Runners.Careful cfg) v es) :
    Always (Runners.step cfg) Runners.OneTaskPerOccurrence v es := by
  have hsettled : v.Settled cfg.workspace := by
    obtain ⟨hr, hc⟩ := hi
    refine ⟨?_, fun q _ _ _ next _ a ha => ?_, fun j k p q id hj => ?_, fun r hmem => ?_⟩
    · rw [hc]
      exact nodup_nil
    · rw [hc] at ha
      cases ha
    · rw [hr] at hj
      cases hj
    · rw [hr] at hmem
      cases hmem
  exact (h.always hsettled fun _ _ hs hc => hs.step hc).mono fun _ hs => hs.nodup

namespace Sample

def runnerConfig : RunnerConfig where
  env := config.env
  zones := fun name => if name == "UTC" then some fun _ => 0 else none
  workspace := workspace
  schedulerLockLease := 0

def schedule : Schedule where
  id := "schedule"
  workspaceID := workspace
  ruleID := "rule"
  ruleVersion := ""
  ruleVersionNumber := 0
  name := "schedule"
  type := .once
  expression := ""
  enabled := true
  nextRunAt := some 5
  lastRunAt := none
  vars := ""
  inputSchema := ""
  browserProfileID := ""
  timezone := ""
  priority := .normal
  maxRetries := 3
  catchup := .skip
  createdAt := 0
  updatedAt := 0

def scheduled : Runners where
  store := { store with schedules := ⟨[schedule], nodup_singleton _⟩ }
  runners := []
  created := []

/-- The next store call of instance `i`. -/
def turn (i : Nat) (now : Time) (failed : Bool) (taskID : TaskID) : RunnerEvent :=
  .advance i ⟨now, failed, taskID, fun _ => 0⟩

/-- A tick up to the bookkeeping: the lock, the list, the rule and the task. -/
def tick (i : Nat) (now : Time) (taskID : TaskID) : List RunnerEvent :=
  [turn i now false "", turn i now false "", turn i now false "", turn i now false taskID]

/-- A tick, the bookkeeping and the renewal of the lock, and the next tick. -/
def twoTicks (bookkeepingFails : Bool) : List RunnerEvent :=
  .start "runner" :: tick 0 10 "first" ++ [turn 0 10 bookkeepingFails "", turn 0 10 false ""] ++
    tick 0 20 "second"

/-- An instance reads its list and stalls; when the lease of its lock is over another one runs the
schedule, and then the first one goes on. -/
def staleList : List RunnerEvent :=
  [.start "runner", .start "other"] ++ (tick 0 10 "").take 3 ++ tick 1 (10 + 2 * Duration.minute) "first" ++
    [turn 1 (10 + 2 * Duration.minute) false "", turn 0 (11 + 2 * Duration.minute) false "second"]

end Sample

theorem one_task_per_occurrence_twoTicks :
    (run (Runners.step Sample.runnerConfig) Sample.scheduled (Sample.twoTicks false)).created =
        [("schedule", 5)] ∧
      Always (Runners.step Sample.runnerConfig) Runners.OneTaskPerOccurrence Sample.scheduled
        (Sample.twoTicks false) :=
  ⟨by decide, one_task_per_occurrence ⟨rfl, rfl⟩ (by decide)⟩

/-- The instance that has stalled runs the schedule a second time. -/
theorem tasks_of_one_occurrence :
    ¬ ∀ cfg (v : Runners) es, v.Initial → (run (Runners.step cfg) v es).created.Nodup := by
  intro h
  have hnodup := h Sample.runnerConfig Sample.scheduled Sample.staleList ⟨rfl, rfl⟩
  revert hnodup
  decide

/-- When the bookkeeping after a task is lost, the next tick creates another one. -/
example : (run (Runners.step Sample.runnerConfig) Sample.scheduled (Sample.twoTicks true)).created =
    [("schedule", 5), ("schedule", 5)] := by
  decide

end Aegis
