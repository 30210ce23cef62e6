import Aegis.Api.Schedules
import Aegis.Scheduler.Occurrences

/-!
# Scheduler.Edits

Edits of schedules by the admin while the schedule runner works on them.

Both sides read a whole row, change their copy and write the whole copy back. What an edit has set
stays as long as every copy the runner writes back has been read after it: `Current` says that of
the row about to be written, and `Apart` keeps edits away from rows that an instance has in hand.

* `Editing.step` — the runners and the calls of `Handler.UpdateSchedule`, interleaved.
* `EditsKept` — every stored schedule has the fields of its last edit.
-/

namespace Aegis

open List Option

structure Edit where
  request : UpdateScheduleRequest
  row : Schedule

/-- The runners, the calls of the handler, and the edits that have succeeded, the last one first;
`edits` decides no step. -/
structure Editing where
  runners : Runners
  calls : List UpdateCall
  edits : List Edit

inductive EditingEvent where
  | runner (e : RunnerEvent)
  | request (workspace : WorkspaceID) (id : String) (req : UpdateScheduleRequest)
  | call (i : Nat) (now : Time) (failed : Bool)

def UpdateCall.written (call : UpdateCall) : UpdateStage → Option Edit
  | .returned (.ok _) => call.stage.row.map fun sch => ⟨call.request, sch⟩
  | _ => none

namespace Editing

variable (cfg : RunnerConfig) (hcfg : HandlerConfig)

def store (v : Editing) : Store := v.runners.store

/-- Call `i` makes its next store call. -/
def onCall (v : Editing) (i : Nat) (now : Time) (failed : Bool) : Editing :=
  match v.calls[i]? with
  | none => v
  | some call =>
    let (store, stage) := call.step hcfg now failed v.store
    ⟨{ v.runners with store := store }, v.calls.set i { call with stage := stage },
      (call.written stage).toList ++ v.edits⟩

def step (v : Editing) : EditingEvent → Editing
  | .runner e => { v with runners := v.runners.step cfg e }
  | .request workspace id req => { v with calls := v.calls ++ [⟨workspace, req, .get id⟩] }
  | .call i now failed => v.onCall hcfg i now failed

def lastEdit (v : Editing) (id : String) : Option Edit := v.edits.find? fun e => e.row.id == id

/-- Every stored schedule has the fields that the last edit of it has set. -/
def EditsKept (v : Editing) : Prop :=
  ∀ r ∈ v.store.schedules.rows, ∀ e ∈ v.lastEdit r.id, e.request.Holds e.row r

def writesBack (t : Turn) : RunnerStage → Option Schedule
  | .process now sch .update _ => some { sch with updatedAt := now }
  | .process _ sch .disable _ => some { sch with enabled := false, updatedAt := t.now }
  | _ => none

def copies : RunnerStage → List Schedule
  | .process _ sch _ rest => sch :: rest
  | _ => []

/-- A row that an instance writes back has the fields of the last edit of its schedule. -/
def Current (v : Editing) : EditingEvent → Prop
  | .runner (.advance i t) =>
    ∀ r ∈ v.runners.runners[i]?, ∀ sch ∈ writesBack t r.stage,
      (t.attempt (v.store.updateSchedule (t.ctx cfg) sch)).isSome = true →
        ∀ e ∈ v.lastEdit sch.id, e.request.Holds e.row sch
  | _ => True

/-- An edit is written only while no instance has its schedule in hand, and an instance that
disables a schedule does it to one that the last edit has not enabled. -/
def Apart (v : Editing) : EditingEvent → Prop
  | .runner (.advance i t) =>
    ∀ r ∈ v.runners.runners[i]?, ∀ sch ∈ writesBack t r.stage, t.failed = false →
      sch.enabled = false → ∀ e ∈ v.lastEdit sch.id, e.request.enabled ≠ some true
  | .call i _ failed =>
    ∀ call ∈ v.calls[i]?, failed = false → ∀ r ∈ v.runners.runners, ∀ copy ∈ copies r.stage,
      ∀ sch ∈ call.stage.row, copy.id ≠ sch.id
  | _ => True

instance (v : Editing) : Decidable v.EditsKept :=
  inferInstanceAs (Decidable (∀ r ∈ v.store.schedules.rows, ∀ e ∈ v.lastEdit r.id, e.request.Holds e.row r))

instance (v : Editing) : ∀ e, Decidable (v.Apart e)
  | .runner (.advance i t) => inferInstanceAs (Decidable (∀ r ∈ v.runners.runners[i]?,
      ∀ sch ∈ writesBack t r.stage, t.failed = false → sch.enabled = false →
        ∀ e ∈ v.lastEdit sch.id, e.request.enabled ≠ some true))
  | .call i _ failed => inferInstanceAs (Decidable (∀ call ∈ v.calls[i]?, failed = false →
      ∀ r ∈ v.runners.runners, ∀ copy ∈ copies r.stage, ∀ sch ∈ call.stage.row, copy.id ≠ sch.id))
  | .runner (.start _) | .runner (.shutdown _ _) | .runner (.stop _) | .request _ _ _ =>
    .isTrue trivial

structure Initial (v : Editing) : Prop where
  runners : v.runners.runners = []
  calls : v.calls = []
  edits : v.edits = []

end Editing

section Steps

variable {cfg : RunnerConfig} {hcfg : HandlerConfig} {t : Turn} {s s' : Store} {c : Ctx}
  {sch copy r : Schedule} {v : Editing} {zones : Zones} {now : Time} {rule : Rule}

theorem step_writesBack {q : Runner} (h : Editing.writesBack t q.stage = some sch) :
    (q.step cfg t s).1 = t.updateSchedule cfg s sch := by
  unfold Editing.writesBack at h
  split at h
  · rename_i hstage
    cases h
    unfold Runner.step
    rw [hstage]
    rfl
  · rename_i hstage
    cases h
    unfold Runner.step
    rw [hstage]
    rfl
  · cases h

theorem createTask_schedules {at' : Time}
    (h : t.createTaskFromSchedule cfg s sch rule at' = some s') : s'.schedules = s.schedules := by
  obtain ⟨-, -, -, -, -, -, hs⟩ := createTaskFromSchedule_cases h
  rw [hs]

theorem step_schedules {q : Runner} (h : Editing.writesBack t q.stage = none) :
    (q.step cfg t s).1.schedules = s.schedules := by
  have hstep := runnerStep cfg t s q
  generalize q.stage = stage at h hstep
  generalize (q.step cfg t s).2.1.stage = stage' at hstep
  generalize (q.step cfg t s).2.2 = created at hstep
  generalize (q.step cfg t s).1 = s' at hstep
  cases hstep with
  | quiet hs _ _ => rw [hs]
  | disable _ | update _ => cases h
  | create hcreate => exact createTask_schedules hcreate
  | catchUp hcreate =>
    rcases hcreate with ⟨hs, -⟩ | ⟨hcreate, -⟩
    · rw [hs]
    · exact createTask_schedules hcreate

variable (cfg t s) in
theorem shutdown_schedules (q : Runner) :
    (q.shutdown cfg t s).1.schedules = s.schedules := by
  unfold Runner.shutdown
  split
  · dsimp only
    split <;> rfl
  · rfl

theorem mem_written (h : s.updateSchedule c sch = .ok s') (hr : r ∈ s'.schedules.rows) :
    r.id = sch.id ∧ r.settings = sch.settings ∧ r.enabled = sch.enabled ∨
      r.id ≠ sch.id ∧ r ∈ s.schedules.rows := by
  obtain ⟨q, hq, hthis⟩ := Table.any_eq_true.mp (Store.updateSchedule_any h)
  have hid : q.id = sch.id := by
    simp only [Store.isSchedule, Bool.and_eq_true, beq_iff_eq] at hthis
    exact hthis.1
  obtain ⟨-, rfl⟩ := Store.updateSchedule_cases h
  obtain ⟨p, hp, rfl⟩ := List.mem_map.mp hr
  by_cases he : p.id = sch.id
  · obtain rfl := Table.eq_of_key hp hq (he.trans hid.symm)
    rw [setIf_pos hthis]
    exact .inl ⟨he, rfl, rfl⟩
  · have hother : Store.isSchedule c.workspace sch.id p = false := by
      simp [Store.isSchedule, he]
    rw [setIf_neg hother]
    exact .inr ⟨he, hp⟩

theorem exists_written (h : s.updateSchedule c sch = .ok s') : ∃ r ∈ s'.schedules.rows, r.id = sch.id := by
  obtain ⟨q, hq, hthis⟩ := Table.any_eq_true.mp (Store.updateSchedule_any h)
  simp only [Store.isSchedule, Bool.and_eq_true, beq_iff_eq] at hthis
  obtain ⟨-, rfl⟩ := Store.updateSchedule_cases h
  refine ⟨_, List.mem_map_of_mem hq, ?_⟩
  exact (sch.overwrite.keeps_setIf _ q).trans hthis.1

/-- The calls have in hand only rows that hold what their requests set. -/
def Editing.Sound (v : Editing) : Prop :=
  ∀ call ∈ v.calls, UpdateCall.Sound call.request call.stage

namespace Editing

theorem sound_step (h : v.Sound) (e : EditingEvent) : (v.step cfg hcfg e).Sound := by
  cases e with
  | runner e => exact h
  | request workspace id req =>
    intro call hcall
    rcases mem_append.mp hcall with hcall | hcall
    · exact h call hcall
    · rw [mem_singleton.mp hcall]
      trivial
  | call i now failed =>
    unfold step onCall
    dsimp only
    split
    · exact h
    · rename_i call hi
      intro other hother
      rcases mem_or_eq_of_mem_set hother with hother | rfl
      · exact h other hother
      · exact UpdateCall.step_sound (h call (mem_of_getElem? hi))

variable {w : Editing}

theorem EditsKept.of_eq (h : v.EditsKept)
    (hs : w.store.schedules = v.store.schedules) (he : w.edits = v.edits) : w.EditsKept := by
  intro r hr e hlast
  rw [hs] at hr
  rw [lastEdit, he] at hlast
  exact h r hr e hlast

theorem lastEdit_of_eq (he : w.edits = v.edits) (id : String) :
    w.lastEdit id = v.lastEdit id := by
  rw [lastEdit, he, lastEdit]

theorem editsKept_written (h : v.EditsKept)
    (hs : v.store.updateSchedule c sch = .ok w.store) (he : w.edits = v.edits) :
    w.EditsKept ↔ ∀ e ∈ v.lastEdit sch.id, e.request.Holds e.row sch := by
  constructor
  · intro hw e hlast
    obtain ⟨r, hr, hid⟩ := exists_written hs
    rcases mem_written hs hr with ⟨-, hset, hen⟩ | ⟨hne, -⟩
    · rw [← hid, ← lastEdit_of_eq he] at hlast
      exact (hw r hr e hlast).of_eq hset.symm hen.symm
    · exact absurd hid hne
  · intro hcur r hr e hlast
    rw [lastEdit_of_eq he] at hlast
    rcases mem_written hs hr with ⟨hid, hset, hen⟩ | ⟨-, hold⟩
    · rw [hid] at hlast
      exact (hcur e hlast).of_eq hset hen
    · exact h r hold e hlast

theorem editsKept_advance (h : v.EditsKept) (i : Nat) :
    (v.step cfg hcfg (.runner (.advance i t))).EditsKept ↔ v.Current cfg (.runner (.advance i t)) := by
  cases hi : v.runners.runners[i]? with
  | none =>
    have hsame : v.step cfg hcfg (.runner (.advance i t)) = v := by
      simp only [step, Runners.step, Runners.on, hi]
    rw [hsame]
    refine ⟨fun _ q hq => ?_, fun _ => h⟩
    rw [hi] at hq
    cases hq
  | some q =>
    have hstep : (v.step cfg hcfg (.runner (.advance i t))).store = (q.step cfg t v.store).1 := by
      simp only [step, Runners.step, Runners.on, hi]
      rfl
    have hcurrent : v.Current cfg (.runner (.advance i t)) ↔ ∀ sch ∈ writesBack t q.stage,
        (t.attempt (v.store.updateSchedule (t.ctx cfg) sch)).isSome →
          ∀ e ∈ v.lastEdit sch.id, e.request.Holds e.row sch :=
      ⟨fun h => h q hi, fun h p hp => by rw [hi] at hp; rwa [← some.inj hp]⟩
    rw [hcurrent]
    cases hwrite : writesBack t q.stage with
    | none =>
      refine ⟨fun _ sch hsch => (by cases hsch), fun _ => h.of_eq ?_ rfl⟩
      rw [hstep, step_schedules hwrite]
    | some sch =>
      have hstore : (q.step cfg t v.store).1 = t.updateSchedule cfg v.store sch :=
        step_writesBack hwrite
      cases hattempt : t.attempt (v.store.updateSchedule (t.ctx cfg) sch) with
      | none =>
        have hsame : t.updateSchedule cfg v.store sch = v.store := by
          rw [Turn.updateSchedule, hattempt, getD_none]
        refine ⟨fun _ sch' hsch' hsome => ?_, fun _ => h.of_eq ?_ rfl⟩
        · rw [← some.inj hsch', hattempt] at hsome
          cases hsome
        · rw [hstep, hstore, hsame]
      | some s' =>
        have hok : v.store.updateSchedule (t.ctx cfg) sch =
            .ok (v.step cfg hcfg (.runner (.advance i t))).store := by
          rw [hstep, hstore, Turn.updateSchedule, hattempt, getD_some]
          exact (attempt_eq_some hattempt).2
        rw [editsKept_written h hok rfl]
        refine ⟨fun hcur sch' hsch' _ => ?_, fun hcur => ?_⟩
        · rw [← some.inj hsch']
          exact hcur
        · exact hcur sch rfl (by rw [hattempt]; rfl)

variable (hcfg v) in
theorem onCall_cases (i : Nat) (now : Time) (failed : Bool) :
    (v.onCall hcfg i now failed).store.schedules = v.store.schedules ∧
        (v.onCall hcfg i now failed).edits = v.edits ∨
      failed = false ∧ ∃ call sch, v.calls[i]? = some call ∧ call.stage = .write sch ∧
        v.store.updateSchedule (call.ctx now) sch = .ok (v.onCall hcfg i now failed).store ∧
        (v.onCall hcfg i now failed).edits = ⟨call.request, sch⟩ :: v.edits := by
  unfold onCall
  split
  · exact .inl ⟨rfl, rfl⟩
  · rename_i call hi
    rcases UpdateCall.step_cases hcfg now failed v.store call with
      ⟨hstore, hreturned⟩ | ⟨hf, sch, s', hstage, hok, hstep⟩
    · have hnone : call.written (call.step hcfg now failed v.store).2 = none := by
        unfold UpdateCall.written
        split
        · rename_i sch hstage
          rw [hreturned sch hstage]
          rfl
        · rfl
      refine .inl ⟨congrArg Store.schedules hstore, ?_⟩
      dsimp only
      rw [hnone]
      rfl
    · have hwritten : call.written (.returned (.ok sch)) = some ⟨call.request, sch⟩ := by
        unfold UpdateCall.written
        rw [hstage]
        rfl
      refine .inr ⟨hf, call, sch, hi, hstage, ?_, ?_⟩
      · rw [hstep]
        exact hok
      · rw [hstep]
        dsimp only
        rw [hwritten]
        rfl

theorem lastEdit_cons {e : Edit} (he : w.edits = e :: v.edits) (id : String) :
    w.lastEdit id = if e.row.id = id then some e else v.lastEdit id := by
  rw [lastEdit, he, find?_cons]
  by_cases hid : e.row.id = id
  · simp [hid]
  · rw [if_neg hid, beq_false_of_ne hid]
    rfl

theorem editsKept_onCall (h : v.EditsKept) (hsound : v.Sound) (i : Nat) (now : Time)
    (failed : Bool) : (v.onCall hcfg i now failed).EditsKept := by
  rcases onCall_cases hcfg v i now failed with ⟨hs, he⟩ | ⟨-, call, sch, hi, hstage, hok, he⟩
  · exact h.of_eq hs he
  · have hholds := hsound call (mem_of_getElem? hi)
    rw [hstage] at hholds
    intro r hr e hlast
    rw [lastEdit_cons he] at hlast
    rcases mem_written hok hr with ⟨hid, hset, hen⟩ | ⟨hne, hold⟩
    · rw [if_pos hid.symm] at hlast
      rw [← some.inj hlast]
      exact hholds.of_eq hset hen
    · rw [if_neg (Ne.symm hne)] at hlast
      exact h r hold e hlast

/-- One event keeps the edits exactly when what it writes back is current. -/
theorem editsKept_step (hsound : v.Sound) (h : v.EditsKept) (e : EditingEvent) :
    (v.step cfg hcfg e).EditsKept ↔ v.Current cfg e := by
  cases e with
  | runner e =>
    cases e with
    | start instanceID => exact ⟨fun _ => trivial, fun _ => h⟩
    | advance i t => exact editsKept_advance h i
    | shutdown i t =>
      refine ⟨fun _ => trivial, fun _ => ?_⟩
      unfold step Runners.step Runners.on
      dsimp only
      split
      · exact h
      · exact h.of_eq (shutdown_schedules cfg t v.store _) rfl
    | stop i =>
      refine ⟨fun _ => trivial, fun _ => ?_⟩
      unfold step Runners.step Runners.on
      dsimp only
      split <;> exact h
  | request workspace id req => exact ⟨fun _ => trivial, fun _ => h⟩
  | call i now failed => exact ⟨fun _ => trivial, fun _ => editsKept_onCall h hsound i now failed⟩

theorem copies_next {now : Time} {rest : List Schedule} (h : copy ∈ copies (.next now rest)) :
    copy ∈ rest := by
  cases rest with
  | nil => cases h
  | cons sch rest => exact h

theorem afterCreate_settings : (afterCreate zones now sch rule).1.id = sch.id ∧
      (afterCreate zones now sch rule).1.settings = sch.settings := by
  unfold afterCreate
  split
  · exact ⟨rfl, rfl⟩
  · split
    · exact ⟨rfl, rfl⟩
    · split
      · exact ⟨rfl, rfl⟩
      · split
        · exact ⟨rfl, rfl⟩
        · obtain ⟨_, _, he⟩ := skipAhead_eq zones now { sch with lastRunAt := some now }
            maxCatchUpIterations _
          rw [he]
          exact ⟨rfl, rfl⟩

theorem afterCatchUp_settings {next : Time} : (afterCatchUp zones now sch next).id = sch.id ∧
      (afterCatchUp zones now sch next).settings = sch.settings := by
  obtain ⟨_, _, he⟩ := afterCatchUp_eq zones now sch next
  rw [he]
  exact ⟨rfl, rfl⟩

theorem processStep_settings {call call' : Processing} {sch' : Schedule}
    (h : (processStep cfg t now s sch call).2.1 = some (sch', call')) :
    sch'.id = sch.id ∧ sch'.settings = sch.settings := by
  cases call with
  | rule =>
    unfold processStep at h
    dsimp only at h
    split at h
    · cases h
      exact ⟨rfl, rfl⟩
    · split at h <;> cases h <;> exact ⟨rfl, rfl⟩
  | disable | update => cases h
  | create rule =>
    unfold processStep at h
    dsimp only at h
    split at h
    · cases h
    · have he : (afterCreate cfg.zones now sch rule).1 = sch' :=
        congrArg Prod.fst (some.inj h)
      rw [← he]
      exact afterCreate_settings
  | catchUp rule next =>
    unfold processStep at h
    dsimp only at h
    split at h
    all_goals
      cases h
      exact afterCatchUp_settings

theorem mem_listDueSchedules {before : Time} {tie : String → Nat}
    (h : sch ∈ s.listDueSchedules c before tie) : sch ∈ s.schedules.rows ∧ sch.enabled := by
  rw [Store.listDueSchedules, mem_insertionSort, mem_filter] at h
  obtain ⟨hmem, hdue⟩ := h
  simp only [Store.isDue, Bool.and_eq_true] at hdue
  exact ⟨hmem, hdue.1.2⟩

theorem copies_step {q : Runner} (h : copy ∈ copies (q.step cfg t s).2.1.stage) :
    (∃ p ∈ copies q.stage, copy.id = p.id ∧ copy.settings = p.settings) ∨
      copy ∈ s.schedules.rows ∧ copy.enabled := by
  unfold Runner.step at h
  cases hstage : q.stage with
  | idle =>
    rw [hstage] at h
    dsimp only at h
    split at h
    · rw [hstage] at h
      cases h
    · split at h <;> cases h
  | list =>
    rw [hstage] at h
    dsimp only at h
    split at h
    · cases h
    · exact .inr (mem_listDueSchedules (copies_next h))
  | process now sch call rest =>
    rw [hstage] at h
    dsimp only at h
    split at h
    · rename_i s' sch' call' created hproc
      rcases mem_cons.mp h with rfl | h
      · exact .inl ⟨sch, mem_cons_self, processStep_settings (by rw [hproc])⟩
      · exact .inl ⟨copy, mem_cons_of_mem _ h, rfl, rfl⟩
    · exact .inl ⟨copy, mem_cons_of_mem _ (copies_next h), rfl, rfl⟩
  | renew =>
    rw [hstage] at h
    cases h
  | stopped =>
    rw [hstage] at h
    dsimp only at h
    rw [hstage] at h
    cases h

theorem mem_writesBack {stage : RunnerStage} (h : sch ∈ writesBack t stage) :
    ∃ copy ∈ copies stage, sch.id = copy.id ∧ sch.settings = copy.settings := by
  unfold writesBack at h
  split at h
  · cases h
    exact ⟨_, mem_cons_self, rfl, rfl⟩
  · cases h
    exact ⟨_, mem_cons_self, rfl, rfl⟩
  · cases h

/-- The edits are kept, and every row in hand is one that its last edit has not changed. -/
structure Fresh (v : Editing) : Prop where
  kept : v.EditsKept
  sound : v.Sound
  rows : ∀ q ∈ v.runners.runners, ∀ copy ∈ copies q.stage, ∀ e ∈ v.lastEdit copy.id,
    e.request.Holds e.row { copy with enabled := true }

theorem Fresh.current (h : v.Fresh) {e : EditingEvent} (hapart : v.Apart e) : v.Current cfg e := by
  unfold Current
  split
  · rename_i i t
    intro q hi sch hsch hsome e hlast
    obtain ⟨copy, hcopy, hid, hset⟩ := mem_writesBack hsch
    rw [hid] at hlast
    have hholds := h.rows q (mem_of_getElem? hi) copy hcopy e hlast
    refine hholds.of_settings hset fun b hb => ?_
    -- the copy was enabled when it was read, so the edit has not disabled it
    have htrue : true = b := hholds.enabled b hb
    rw [← htrue] at hb ⊢
    by_contra hne
    obtain ⟨s', hs'⟩ := isSome_iff_exists.mp hsome
    exact hapart q hi sch hsch (attempt_eq_some hs').1 (by simpa using hne) e (hid ▸ hlast) hb
  · trivial

theorem Fresh.rows_advance (h : v.Fresh) (i : Nat) :
    ∀ q ∈ (v.step cfg hcfg (.runner (.advance i t))).runners.runners, ∀ copy ∈ copies q.stage,
      ∀ e ∈ v.lastEdit copy.id, e.request.Holds e.row { copy with enabled := true } := by
  intro q hq copy hcopy e hlast
  simp only [step, Runners.step, Runners.on] at hq
  split at hq
  · exact h.rows q hq copy hcopy e hlast
  · rename_i p hi
    rcases mem_or_eq_of_mem_set hq with hq | rfl
    · exact h.rows q hq copy hcopy e hlast
    · rcases copies_step hcopy with ⟨old, hold, hid, hset⟩ | ⟨hrow, hen⟩
      · rw [hid] at hlast
        exact (h.rows p (mem_of_getElem? hi) old hold e hlast).of_eq hset rfl
      · exact (h.kept copy hrow e hlast).of_eq rfl hen.symm

theorem Fresh.rows_onCall (h : v.Fresh) {i : Nat} {now : Time} {failed : Bool}
    (hapart : v.Apart (.call i now failed)) :
    ∀ q ∈ v.runners.runners, ∀ copy ∈ copies q.stage,
      ∀ e ∈ (v.onCall hcfg i now failed).lastEdit copy.id,
        e.request.Holds e.row { copy with enabled := true } := by
  intro q hq copy hcopy e hlast
  rcases onCall_cases hcfg v i now failed with ⟨-, he⟩ | ⟨hf, call, sch, hi, hstage, -, he⟩
  · rw [lastEdit_of_eq he] at hlast
    exact h.rows q hq copy hcopy e hlast
  · have hne : copy.id ≠ sch.id :=
      hapart call hi hf q hq copy hcopy sch (by rw [hstage]; rfl)
    rw [lastEdit_cons he, if_neg (Ne.symm hne)] at hlast
    exact h.rows q hq copy hcopy e hlast

theorem Fresh.rows_on (h : v.Fresh) {i : Nat} {f : Runner → Store × Runner × List Occurrence}
    (hf : ∀ q, copies (f q).2.1.stage ⊆ copies q.stage) :
    ∀ q ∈ (v.runners.on i f).runners, ∀ copy ∈ copies q.stage,
      ∀ e ∈ v.lastEdit copy.id, e.request.Holds e.row { copy with enabled := true } := by
  intro q hq copy hcopy
  unfold Runners.on at hq
  split at hq
  · exact h.rows q hq copy hcopy
  · rename_i p hi
    rcases mem_or_eq_of_mem_set hq with hq | rfl
    · exact h.rows q hq copy hcopy
    · exact h.rows p (mem_of_getElem? hi) copy (hf p hcopy)

/-- Apart from the edits, what an instance has in hand stays fresh. -/
theorem Fresh.step (h : v.Fresh) {e : EditingEvent} (hapart : v.Apart e) : (v.step cfg hcfg e).Fresh := by
  refine ⟨(editsKept_step h.sound h.kept e).mpr (h.current hapart), sound_step h.sound e, ?_⟩
  cases e with
  | runner e =>
    cases e with
    | start instanceID =>
      intro q hq
      rcases mem_append.mp hq with hq | hq
      · exact h.rows q hq
      · rw [mem_singleton.mp hq]
        intro copy hcopy
        cases hcopy
    | advance i t => exact h.rows_advance i
    | shutdown i t =>
      refine h.rows_on fun q => ?_
      unfold Runner.shutdown
      split
      · exact nil_subset _
      · exact List.Subset.refl _
    | stop i => exact h.rows_on fun q => nil_subset _
  | request workspace id req => exact h.rows
  | call i now failed =>
    intro q hq
    have hrunners : (v.onCall hcfg i now failed).runners.runners = v.runners.runners := by
      unfold onCall
      split <;> rfl
    rw [Editing.step, hrunners] at hq
    exact h.rows_onCall hapart q hq

end Editing

end Steps

/-- **No lost edit.** In every run of the runners and the admin in which no edit is written while an
instance has its schedule in hand, and no instance disables a schedule that its last edit has
enabled, the stored schedules have the fields of their last edits throughout. In any run they have
them exactly when every row that an instance writes back has the fields of the last edit of its
schedule. -/
theorem schedule_edits {cfg : RunnerConfig} {hcfg : HandlerConfig} {v : Editing} (hi : v.Initial)
    (es : List EditingEvent) :
    (Meets (Editing.step cfg hcfg) Editing.Apart v es →
        Always (Editing.step cfg hcfg) Editing.EditsKept v es) ∧
      (Always (Editing.step cfg hcfg) Editing.EditsKept v es ↔
        Meets (Editing.step cfg hcfg) (Editing.Current cfg) v es) := by
  obtain ⟨hrunners, hcalls, hedits⟩ := hi
  have hkept : v.EditsKept := by
    intro r hr e hlast
    rw [Editing.lastEdit, hedits] at hlast
    cases hlast
  have hsound : v.Sound := by
    intro call hcall
    rw [hcalls] at hcall
    cases hcall
  have hfresh : v.Fresh := by
    refine ⟨hkept, hsound, fun q hq => ?_⟩
    rw [hrunners] at hq
    cases hq
  constructor
  · exact fun hapart => (hapart.always hfresh fun _ _ h ha => h.step ha).mono fun _ h => h.kept
  · exact always_iff_meets hsound (fun _ e h => Editing.sound_step h e) hkept
      fun _ e h hk => Editing.editsKept_step h hk e

namespace Sample

def everyMinute : Schedule :=
  { schedule with
    type := .cron
    expression := "* * * * *" }

def handlerConfig : HandlerConfig := ⟨runnerConfig.env, runnerConfig.zones, fun s => s⟩

def editing : Editing :=
  ⟨⟨{ store with schedules := ⟨[everyMinute], nodup_singleton _⟩ }, [], []⟩, [], []⟩

def disableRequest : UpdateScheduleRequest :=
  ⟨none, none, none, none, some false, none, none, none, none, none, none⟩

def disableCall : List EditingEvent :=
  [.request workspace "schedule" disableRequest, .call 0 10 false, .call 0 10 false]

def runSchedule : List EditingEvent :=
  .runner (.start "runner") :: (tick 0 10 "first").map EditingEvent.runner

def bookkeeping : EditingEvent := .runner (turn 0 10 false "")

end Sample

theorem schedule_edits_afterTick :
    Always (Editing.step Sample.runnerConfig Sample.handlerConfig) Editing.EditsKept Sample.editing
        (Sample.runSchedule ++ Sample.bookkeeping :: Sample.disableCall) ∧
      (run (Editing.step Sample.runnerConfig Sample.handlerConfig) Sample.editing
        (Sample.runSchedule ++ Sample.bookkeeping :: Sample.disableCall)).store.schedules.rows.map
          (fun r => (r.enabled, r.nextRunAt)) = [(false, some 60000000000)] :=
  ⟨(schedule_edits ⟨rfl, rfl, rfl⟩ _).1 (by decide), by decide⟩

/-- The bookkeeping puts back the row as it was before the admin has disabled it. -/
theorem reenabled_by_bookkeeping :
    ¬ ∀ cfg hcfg (v : Editing) es, v.Initial → (run (Editing.step cfg hcfg) v es).EditsKept := by
  intro h
  have hkept := h Sample.runnerConfig Sample.handlerConfig Sample.editing
    (Sample.runSchedule ++ Sample.disableCall ++ [Sample.bookkeeping]) ⟨rfl, rfl, rfl⟩
  revert hkept
  decide

end Aegis
