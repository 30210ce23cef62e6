import Mathlib.Data.Finset.Max
import Mathlib.Data.Int.Interval
import Aegis.Scheduler.Processing

/-!
# Scheduler.CatchUp

Where the bookkeeping of `processSchedule` takes a cron schedule.

* `nextRun_eq_ok`      — the next run is the first run of the expression after an instant.
* `skipAhead_good`     — the catch-up loop ends at a run exactly when it is not cut off.
* `scheduled_instants` — over any sequence of ticks.
-/

namespace Aegis

open List Option Duration Time

namespace CronSchedule

variable (cs : CronSchedule) (loc : Location)

def isRun (t : Int) : Bool := t % Duration.minute == 0 && cs.matchesAt loc t

def horizon : Int := 4 * 366 * 24 * Duration.hour

/-- The runs after `a`, up to `now`. -/
def missed (a now : Int) : Finset Int := (Finset.Ioc a now).filter fun t => cs.isRun loc t = true

/-- There is a run after `t`, within the horizon. -/
def Runs (t : Int) : Prop := ∃ u : Int, cs.isRun loc u = true ∧ t < u ∧ u < t + horizon

/-- There is a next run after `a`, and after every run that has been missed. -/
def Covered (a now : Int) : Prop := ∀ t : Int, t = a ∨ t ∈ cs.missed loc a now → cs.Runs loc t

variable {cs loc} {a t u now next limit : Int} {n : Nat}

theorem not_isRun_of_between (ht : t % Duration.minute = 0) (h₁ : t < u)
    (h₂ : u < t + Duration.minute) : cs.isRun loc u = false := by
  have hne : ¬u % Duration.minute = 0 := by
    simp only [Duration.minute, Duration.second] at ht h₂ ⊢
    omega
  simp [isRun, hne]

theorem search_eq_some (ht : t % Duration.minute = 0) : cs.search loc limit n t = some u ↔
      cs.isRun loc u ∧ t ≤ u ∧ u < limit ∧ u < t + n * Duration.minute ∧
        ∀ v : Int, t ≤ v → v < u → cs.isRun loc v = false := by
  induction n generalizing t with
  | zero =>
    simp only [search, Nat.cast_zero, Int.zero_mul, Int.add_zero]
    constructor
    · intro h
      cases h
    · rintro ⟨-, h₁, -, h₂, -⟩
      omega
  | succ n ih =>
    have hpos : (0 : Int) < Duration.minute := by decide
    have hstep : (t + Duration.minute) % Duration.minute = 0 := by
      rw [Int.add_emod_right]
      exact ht
    have hcast : t + ((n + 1 : Nat) : Int) * Duration.minute =
        t + Duration.minute + n * Duration.minute := by
      rw [Int.natCast_succ, Int.add_mul, Int.one_mul]
      omega
    rw [hcast]
    unfold search
    by_cases hlimit : t < limit
    · rw [if_pos hlimit]
      by_cases hmatch : cs.matchesAt loc t
      · have hrun : cs.isRun loc t := by simp [isRun, ht, hmatch]
        have hn : (0 : Int) ≤ n * Duration.minute := Int.mul_nonneg (Int.natCast_nonneg n) hpos.le
        rw [if_pos hmatch]
        constructor
        · intro h
          cases h
          exact ⟨hrun, le_refl _, hlimit, by omega, fun v h₁ h₂ => absurd h₂ (not_lt.mpr h₁)⟩
        · rintro ⟨-, hle, -, -, hfirst⟩
          rcases hle.lt_or_eq with hlt | heq
          · have hnot := hfirst t (le_refl _) hlt
            rw [hrun] at hnot
            cases hnot
          · rw [heq]
      · have hnot : cs.isRun loc t = false := by simp [isRun, hmatch]
        rw [if_neg hmatch, ih hstep]
        constructor
        · rintro ⟨hrun, hle, hlt, hbound, hfirst⟩
          refine ⟨hrun, by omega, hlt, hbound, fun v h₁ h₂ => ?_⟩
          rcases h₁.lt_or_eq with h₁ | rfl
          · by_cases hv : t + Duration.minute ≤ v
            · exact hfirst v hv h₂
            · exact not_isRun_of_between ht h₁ (not_le.mp hv)
          · exact hnot
        · rintro ⟨hrun, hle, hlt, hbound, hfirst⟩
          refine ⟨hrun, ?_, hlt, hbound, fun v h₁ h₂ => hfirst v (by omega) h₂⟩
          by_contra hshort
          rcases hle.lt_or_eq with h₁ | rfl
          · rw [not_isRun_of_between ht h₁ (not_le.mp hshort)] at hrun
            cases hrun
          · rw [hnot] at hrun
            cases hrun
    · rw [if_neg hlimit]
      constructor
      · intro h
        cases h
      · rintro ⟨-, h₁, h₂, -⟩
        omega

theorem nextRun_search : cs.nextRun loc a = .ok u ↔ cs.search loc (a + horizon) searchMinutes
      (truncate (a + Duration.minute) Duration.minute) = some u := by
  have hsearch : cs.search loc (a + 4 * 366 * 24 * Duration.hour) searchMinutes
      (truncate (a + Duration.minute) Duration.minute) = cs.search loc (a + horizon) searchMinutes
          (truncate (a + Duration.minute) Duration.minute) := rfl
  rw [nextRun, hsearch]
  cases cs.search loc (a + horizon) searchMinutes
      (truncate (a + Duration.minute) Duration.minute) with
  | some t | none => simp

theorem lt_iff_truncate_le (hu : cs.isRun loc u) :
    a < u ↔ truncate (a + Duration.minute) Duration.minute ≤ u := by
  simp only [isRun, Bool.and_eq_true, beq_iff_eq] at hu
  have hmod : u % 60000000000 = 0 := hu.1
  show a < u ↔ a + 60000000000 - (a + 60000000000) % 60000000000 ≤ u
  omega

theorem nextRun_eq_ok : cs.nextRun loc a = .ok u ↔ cs.isRun loc u = true ∧ a < u ∧ u < a + horizon ∧
      ∀ v : Int, a < v → v < u → cs.isRun loc v = false := by
  have hgrid : truncate (a + Duration.minute) Duration.minute % Duration.minute = 0 := by
    show (a + 60000000000 - (a + 60000000000) % 60000000000) % 60000000000 = 0
    omega
  have hlt : a < truncate (a + Duration.minute) Duration.minute := after_lt_truncate a
  have hfuel : (searchMinutes : Int) * Duration.minute = horizon := by decide
  rw [nextRun_search, search_eq_some hgrid, hfuel]
  constructor
  · rintro ⟨hrun, hle, hbound, -, hfirst⟩
    refine ⟨hrun, (lt_iff_truncate_le hrun).mpr hle, hbound, fun v h₁ h₂ => ?_⟩
    by_contra hv
    rw [Bool.not_eq_false] at hv
    have hnot := hfirst v ((lt_iff_truncate_le hv).mp h₁) h₂
    rw [hv] at hnot
    cases hnot
  · rintro ⟨hrun, hlt', hbound, hfirst⟩
    refine ⟨hrun, (lt_iff_truncate_le hrun).mp hlt', hbound, ?_, fun v h₁ h₂ => ?_⟩
    · exact hbound.trans (Int.add_lt_add_right hlt _)
    · exact hfirst v (hlt.trans_le h₁) h₂

theorem nextRun_ok_iff : (∃ u, cs.nextRun loc a = .ok u) ↔ cs.Runs loc a := by
  constructor
  · rintro ⟨u, hu⟩
    obtain ⟨hrun, hlt, hbound, -⟩ := nextRun_eq_ok.mp hu
    exact ⟨u, hrun, hlt, hbound⟩
  · rintro ⟨u, hrun, hlt, hbound⟩
    -- the least of the runs up to `u`
    have hmem : u ∈ cs.missed loc a u := by simp [missed, hrun, hlt]
    obtain ⟨v, hv, hmin⟩ := (cs.missed loc a u).exists_min_image id ⟨u, hmem⟩
    simp only [missed, Finset.mem_filter, Finset.mem_Ioc] at hv
    refine ⟨v, nextRun_eq_ok.mpr ⟨hv.2, hv.1.1, by omega, fun w h₁ h₂ => ?_⟩⟩
    by_contra hw
    rw [Bool.not_eq_false] at hw
    have hle := hmin w (by simp [missed, hw, h₁, (h₂.le.trans hv.1.2)])
    simp only [id] at hle
    omega

theorem missed_of_next (h : cs.nextRun loc a = .ok u) (hlt : now < u) : cs.missed loc a now = ∅ := by
  obtain ⟨-, -, -, hfirst⟩ := nextRun_eq_ok.mp h
  refine Finset.filter_eq_empty_iff.mpr fun v hv => ?_
  obtain ⟨h₁, h₂⟩ := Finset.mem_Ioc.mp hv
  simp [hfirst v h₁ (h₂.trans_lt hlt)]

theorem mem_missed_of_next (h : cs.nextRun loc a = .ok u) (hle : u ≤ now) :
    t ∈ cs.missed loc a now ↔ t = u ∨ t ∈ cs.missed loc u now := by
  obtain ⟨hrun, hlt, -, hfirst⟩ := nextRun_eq_ok.mp h
  simp only [missed, Finset.mem_filter, Finset.mem_Ioc]
  constructor
  · rintro ⟨⟨h₁, h₂⟩, hrun'⟩
    by_cases heq : t = u
    · exact .inl heq
    · refine .inr ⟨⟨?_, h₂⟩, hrun'⟩
      by_contra hnot
      have hfalse := hfirst t h₁ (by omega)
      rw [hrun'] at hfalse
      cases hfalse
  · rintro (rfl | ⟨⟨h₁, h₂⟩, hrun'⟩)
    · exact ⟨⟨hlt, hle⟩, hrun⟩
    · exact ⟨⟨hlt.trans h₁, h₂⟩, hrun'⟩

theorem card_missed_of_next (h : cs.nextRun loc a = .ok u) (hle : u ≤ now) :
    (cs.missed loc a now).card = (cs.missed loc u now).card + 1 := by
  have hnot : u ∉ cs.missed loc u now := by simp [missed]
  rw [← Finset.card_insert_of_notMem hnot]
  congr 1
  ext t
  rw [mem_missed_of_next h hle, Finset.mem_insert]

theorem covered_of_next (h : cs.nextRun loc a = .ok u) (hle : u ≤ now) :
    cs.Covered loc a now ↔ cs.Covered loc u now := by
  have ha : cs.Runs loc a := nextRun_ok_iff.mp ⟨u, h⟩
  constructor
  · intro hcov t ht
    exact hcov t (.inr ((mem_missed_of_next h hle).mpr ht))
  · rintro hcov t (rfl | ht)
    · exact ha
    · exact hcov t ((mem_missed_of_next h hle).mp ht)

theorem covered_of_lt (h : cs.nextRun loc a = .ok u) (hlt : now < u) : cs.Covered loc a now := by
  rintro t (rfl | ht)
  · exact nextRun_ok_iff.mp ⟨u, h⟩
  · rw [missed_of_next h hlt] at ht
    cases ht

theorem not_covered_of_error {e : CronError} (h : cs.nextRun loc a = .error e) : ¬cs.Covered loc a now := by
  intro hcov
  obtain ⟨u, hu⟩ := nextRun_ok_iff.mpr (hcov a (.inl rfl))
  rw [h] at hu
  cases hu

end CronSchedule

/-- The schedule has the expression `cs` in the location. -/
structure Schedule.Reads (zones : Zones) (cs : CronSchedule) (loc : Location) (sch : Schedule) : Prop where
  cron : sch.type = .cron
  expression : parseCron sch.expression = .ok cs
  timezone : zones (if sch.timezone.isEmpty then "UTC" else sch.timezone) = some loc

/-- The schedule is enabled, and runs next after `now`, at an instant of the expression. -/
def Schedule.Good (cs : CronSchedule) (loc : Location) (now : Int) (sch : Schedule) : Prop :=
  sch.enabled = true ∧ ∃ u : Int, sch.nextRunAt = some u ∧ now < u ∧ cs.matchesAt loc u = true

/-- The runs that may have been missed without the catch-up loop being cut off. -/
def CatchupMode.limit : CatchupMode → Nat
  | .skip => maxCatchUpIterations
  | .runOnce => maxCatchUpIterations + 1

section Bookkeeping

variable {zones : Zones} {cs : CronSchedule} {loc : Location} {now next a : Int} {sch : Schedule}
  {rule : Rule} {n : Nat}

theorem Schedule.Reads.compute (h : sch.Reads zones cs loc) (a : Int) :
    computeNextRunInLocation zones sch.expression a sch.timezone = cs.nextRun loc a := by
  unfold computeNextRunInLocation
  rw [h.expression]
  simp only [bind, Except.bind, h.timezone]

theorem matchesAt_of_isRun (h : cs.isRun loc a) : cs.matchesAt loc a = true := by
  simp only [CronSchedule.isRun, Bool.and_eq_true] at h
  exact h.2

theorem not_good_of_disabled (h : sch.enabled = false) : ¬sch.Good cs loc now := by
  rintro ⟨henabled, -⟩
  rw [h] at henabled
  cases henabled

theorem good_of_next (henabled : sch.enabled) (hmatch : cs.matchesAt loc next) :
    Schedule.Good cs loc now { sch with nextRunAt := some next } ↔ now < next := by
  constructor
  · rintro ⟨-, u, hu, hlt, -⟩
    cases hu
    exact hlt
  · exact fun hlt => ⟨henabled, next, rfl, hlt, hmatch⟩

theorem skipAhead_good (hreads : sch.Reads zones cs loc) (henabled : sch.enabled)
    (hmatch : cs.matchesAt loc next) :
    (skipAhead zones now sch n next).Good cs loc now ↔
      now < next ∨ (cs.missed loc next now).card + 1 ≤ n ∧ cs.Covered loc next now := by
  induction n generalizing next with
  | zero =>
    have hcap : ¬(cs.missed loc next now).card + 1 ≤ 0 := by omega
    unfold skipAhead
    by_cases hlt : now < next
    · rw [if_pos hlt, good_of_next henabled hmatch]
      simp [hlt]
    · rw [if_neg hlt]
      refine iff_of_false ?_ (by simp [hlt])
      rintro ⟨-, u, hu, hnow, -⟩
      cases hu
      exact lt_irrefl _ hnow
  | succ n ih =>
    unfold skipAhead
    by_cases hlt : now < next
    · rw [if_pos hlt, good_of_next henabled hmatch]
      simp [hlt]
    · rw [if_neg hlt, hreads.compute]
      cases hnext : cs.nextRun loc next with
      | error e =>
        refine iff_of_false (not_good_of_disabled rfl) ?_
        simp [hlt, CronSchedule.not_covered_of_error hnext]
      | ok u =>
        have hrun := (CronSchedule.nextRun_eq_ok.mp hnext).1
        show (skipAhead zones now sch n u).Good cs loc now ↔ _
        rw [ih (matchesAt_of_isRun hrun)]
        by_cases hu : now < u
        · have hcovered := CronSchedule.covered_of_lt hnext hu
          simp [hu, hcovered, CronSchedule.missed_of_next hnext hu]
        · have hle := not_lt.mp hu
          rw [CronSchedule.card_missed_of_next hnext hle, CronSchedule.covered_of_next hnext hle]
          simp [hlt, hu]

theorem afterCatchUp_good (hreads : sch.Reads zones cs loc) (henabled : sch.enabled) :
    (afterCatchUp zones now sch next).Good cs loc now ↔
      (cs.missed loc next now).card ≤ maxCatchUpIterations ∧ cs.Covered loc next now := by
  unfold afterCatchUp
  rw [hreads.compute]
  cases hnext : cs.nextRun loc next with
  | error e =>
    refine iff_of_false (not_good_of_disabled (skipAhead_enabled rfl)) ?_
    simp [CronSchedule.not_covered_of_error hnext]
  | ok u =>
    have hrun := (CronSchedule.nextRun_eq_ok.mp hnext).1
    rw [skipAhead_good hreads henabled (matchesAt_of_isRun hrun)]
    by_cases hu : now < u
    · have hcovered := CronSchedule.covered_of_lt hnext hu
      simp [hu, hcovered, CronSchedule.missed_of_next hnext hu]
    · have hle := not_lt.mp hu
      rw [CronSchedule.card_missed_of_next hnext hle, CronSchedule.covered_of_next hnext hle]
      simp [hu]

variable (now rule) in
/-- The bookkeeping after the task of an occurrence: it is over and takes the schedule to its next
run, or a catch-up task is tried at the next run and takes it there. -/
theorem afterCreate_good (hreads : sch.Reads zones cs loc) (henabled : sch.enabled)
    (hnext : sch.nextRunAt = some a) :
    ((afterCreate zones now sch rule).2 = .update ∧ ((afterCreate zones now sch rule).1.Good cs loc now ↔
          (cs.missed loc a now).card ≤ sch.catchup.limit ∧ cs.Covered loc a now)) ∨
      sch.catchup = .runOnce ∧ ∃ next : Int,
        (afterCreate zones now sch rule).2 = .catchUp rule next ∧
        cs.matchesAt loc next ∧
        ((afterCatchUp zones now (afterCreate zones now sch rule).1 next).Good cs loc now ↔
          (cs.missed loc a now).card ≤ sch.catchup.limit ∧ cs.Covered loc a now) := by
  have hlast : Schedule.Reads zones cs loc { sch with lastRunAt := some now } :=
    ⟨hreads.cron, hreads.expression, hreads.timezone⟩
  have hcompute := hreads.compute a
  obtain ⟨hcron, -, -⟩ := hreads
  cases sch
  dsimp only at hcron henabled hnext hcompute hlast
  subst hcron hnext
  unfold afterCreate
  rw [getD_some, hcompute]
  cases hrun : cs.nextRun loc a with
  | error e =>
    refine .inl ⟨rfl, iff_of_false (not_good_of_disabled rfl) ?_⟩
    simp [CronSchedule.not_covered_of_error hrun]
  | ok next =>
    have hmatch := matchesAt_of_isRun (CronSchedule.nextRun_eq_ok.mp hrun).1
    dsimp only
    by_cases hlt : now < next
    · rw [if_pos hlt]
      refine .inl ⟨rfl, iff_of_true ⟨henabled, next, rfl, hlt, hmatch⟩ ?_⟩
      rw [CronSchedule.missed_of_next hrun hlt]
      exact ⟨by simp, CronSchedule.covered_of_lt hrun hlt⟩
    · have hle := not_lt.mp hlt
      rw [if_neg hlt, CronSchedule.card_missed_of_next hrun hle, CronSchedule.covered_of_next hrun hle]
      rename_i catchup _ _
      cases catchup with
      | skip =>
        refine .inl ⟨rfl, ?_⟩
        rw [skipAhead_good hlast henabled hmatch]
        simp [hlt, CatchupMode.limit]
      | runOnce =>
        refine .inr ⟨rfl, next, rfl, hmatch, ?_⟩
        rw [afterCatchUp_good hlast henabled]
        simp [CatchupMode.limit]

end Bookkeeping

def Rule.isActive (rule : Rule) : Bool := rule.enabled && rule.approvalStatus == .approved

def CatchupMode.Allows : CatchupMode → List Occurrence → Prop
  | .skip, created => created.length = 1
  | .runOnce, created => created.length ≤ 2

section Tick

variable {cfg : RunnerConfig} {turn : Processing → Turn} {cs : CronSchedule} {loc : Location}
  {now a : Int} {s : Store} {sch r : Schedule} {rule : Rule}

theorem Schedule.Reads.of_settings {zones : Zones} (h : sch.Reads zones cs loc)
    (he : r.settings = sch.settings) : r.Reads zones cs loc := by
  have column {α : Type} (f : Schedule → α) : f r.settings = f sch.settings := congrArg f he
  have htype : r.type = sch.type := column Schedule.type
  have hexpression : r.expression = sch.expression := column Schedule.expression
  have htimezone : r.timezone = sch.timezone := column Schedule.timezone
  exact ⟨htype.trans h.cron, hexpression ▸ h.expression, htimezone ▸ h.timezone⟩

/-- What a pass leaves of a schedule, and the tasks that it makes. -/
structure Processed (cfg : RunnerConfig) (cs : CronSchedule) (loc : Location) (now a : Int)
    (sch : Schedule) (active : Bool) (result : Store × List Occurrence) : Prop where
  row : ∃ r, Stored cfg result.1 sch.id r ∧ r.settings = sch.settings ∧ (r.Good cs loc now ↔ active = true ∧
      (cs.missed loc a now).card ≤ sch.catchup.limit ∧ cs.Covered loc a now) ∧
    (active = false → r.enabled = false)
  tasks : ∀ o ∈ result.2, o.1 = sch.id ∧ cs.matchesAt loc o.2 = true
  count : active = true → sch.catchup.Allows result.2

theorem processed_update {sch' : Schedule} {created : List Occurrence} {n : Nat}
    (hstored : Stored cfg s sch.id sch) (hid : sch'.id = sch.id)
    (hsettings : sch'.settings = sch.settings)
    (hclean : failuresFrom cfg turn now (n + 1) s sch' .update = [])
    (hgood : sch'.Good cs loc now ↔ (cs.missed loc a now).card ≤ sch.catchup.limit ∧ cs.Covered loc a now)
    (htasks : ∀ o ∈ created, o.1 = sch.id ∧ cs.matchesAt loc o.2 = true)
    (hcount : sch.catchup.Allows created) :
    Processed cfg cs loc now a sch true
      ((processCalls cfg turn now (n + 1) s sch' .update).1,
        created ++ (processCalls cfg turn now (n + 1) s sch' .update).2) := by
  have hstored' : Stored cfg s sch'.id sch := hid ▸ hstored
  obtain ⟨hwritten, hnone⟩ := calls_update turn now n hstored'
  rw [failures_last (.inl rfl)] at hclean
  rcases hwritten with ⟨hf, -⟩ | ⟨-, -, hrow⟩
  · simp [hf] at hclean
  · rw [hid] at hrow
    rw [hnone, append_nil]
    refine ⟨⟨_, hrow, hsettings, ?_, by simp⟩, htasks, fun _ => hcount⟩
    rw [← hgood]
    simp only [true_and]
    exact Iff.rfl

theorem processSchedule_clean (hstored : Stored cfg s sch.id sch)
    (hreads : sch.Reads cfg.zones cs loc) (henabled : sch.enabled)
    (hnext : sch.nextRunAt = some a) (hmatch : cs.matchesAt loc a)
    (hclean : failures cfg turn now s sch = []) :
    ∃ rule, s.getRuleByID ((turn .rule).ctx cfg) sch.ruleID = .ok rule ∧
      Processed cfg cs loc now a sch rule.isActive (processSchedule cfg turn now s sch) := by
  unfold failures at hclean
  unfold processSchedule
  cases hrule : callFails cfg now (turn .rule) s sch .rule with
  | true =>
    rw [failuresFrom_next (step_ruleFails hrule), hrule] at hclean
    simp at hclean
  | false =>
    obtain ⟨rule, hget, hstep⟩ := step_rule hrule
    refine ⟨rule, hget, ?_⟩
    rw [processCalls_next hstep]
    rw [failuresFrom_next hstep, hrule] at hclean
    cases hactive : rule.enabled && rule.approvalStatus == .approved with
    | false =>
      simp only [hactive, Bool.false_eq_true, if_false, nil_append] at hclean ⊢
      rw [failures_last (.inr rfl)] at hclean
      obtain ⟨hwritten, hnone⟩ := calls_disable turn now 2 hstored
      rcases hwritten with ⟨hf, -⟩ | ⟨-, q, hq, hs⟩
      · simp [hf] at hclean
      · have hnot : rule.isActive = false := hactive
        rw [hnot]
        refine ⟨⟨q, hs, hq.2, iff_of_false (not_good_of_disabled hq.1) (by simp), fun _ => hq.1⟩,
          ?_, by simp⟩
        intro o ho
        rw [hnone] at ho
        cases ho
    | true =>
      simp only [hactive, if_true, Bool.false_eq_true, if_false, nil_append] at hclean ⊢
      cases hcreate : callFails cfg now (turn (.create rule)) s sch (.create rule) with
      | true =>
        rw [failuresFrom_last (step_createFails hcreate), hcreate] at hclean
        simp at hclean
      | false =>
        obtain ⟨s₁, hs₁, -, hstep₁⟩ := step_create hcreate
        rw [processCalls_next hstep₁]
        rw [failuresFrom_next hstep₁, hcreate] at hclean
        simp only [Bool.false_eq_true, if_false, nil_append] at hclean
        have hisActive : rule.isActive := hactive
        rw [hisActive]
        have hset : (afterCreate cfg.zones now sch rule).1.id = sch.id ∧
            (afterCreate cfg.zones now sch rule).1.settings = sch.settings :=
          Editing.afterCreate_settings
        have hat : sch.scheduledAt now = a := by simp [Schedule.scheduledAt, hnext]
        rcases afterCreate_good now rule hreads henabled hnext with
          ⟨hlast, hgood⟩ | ⟨hmode, next, hlast, hmatch', hgood⟩
        · rw [hlast] at hclean ⊢
          refine processed_update (hstored.of_eq hs₁) hset.1 hset.2 hclean hgood ?_ ?_
          · intro o ho
            obtain rfl := mem_singleton.mp ho
            exact ⟨rfl, hat ▸ hmatch⟩
          · cases sch.catchup with
            | skip => rfl
            | runOnce => exact Nat.le_succ 1
        · rw [hlast] at hclean ⊢
          generalize (afterCreate cfg.zones now sch rule).1 = sch₁ at hset hclean hgood ⊢
          cases hcatch : callFails cfg now (turn (.catchUp rule next)) s₁ sch₁
              (.catchUp rule next) with
          | true =>
            rw [failuresFrom_next (step_catchUpFails hcatch), hcatch] at hclean
            simp at hclean
          | false =>
            obtain ⟨s₂, hs₂, -, hstep₂⟩ := step_catchUp hcatch
            rw [processCalls_next hstep₂, ← append_assoc]
            rw [failuresFrom_next hstep₂, hcatch] at hclean
            simp only [Bool.false_eq_true, if_false, nil_append] at hclean
            have hset₂ : (afterCatchUp cfg.zones now sch₁ next).id = sch₁.id ∧
                (afterCatchUp cfg.zones now sch₁ next).settings = sch₁.settings :=
              Editing.afterCatchUp_settings
            refine processed_update ((hstored.of_eq hs₁).of_eq hs₂) (hset₂.1.trans hset.1)
              (hset₂.2.trans hset.2) hclean hgood ?_ ?_
            · intro o ho
              simp only [nil_append, cons_append, mem_cons, not_mem_nil, or_false] at ho
              rcases ho with rfl | rfl
              · exact ⟨rfl, hat ▸ hmatch⟩
              · exact ⟨hset.1, hmatch'⟩
            · rw [hmode]
              exact Nat.le_refl 2

end Tick

/-! ## Any sequence of ticks -/

structure Tick where
  now : Int
  turn : Processing → Turn

/-- The store, and the ticks that have processed the schedule, with the tasks they created. -/
structure Ticks where
  store : Store
  ticks : List (Int × List Occurrence)

namespace Ticks

variable (cfg : RunnerConfig) (id : String) (v : Ticks)

def due (now : Int) : Option Schedule :=
  (v.store.schedules.find? id).filter (Store.isDue cfg.workspace now)

/-- A tick for the schedule `id`. -/
def step (e : Tick) : Ticks :=
  match v.due cfg id e.now with
  | none => v
  | some sch =>
    ⟨(processSchedule cfg e.turn e.now v.store sch).1,
      v.ticks ++ [(e.now, (processSchedule cfg e.turn e.now v.store sch).2)]⟩

/-- No store call of the tick fails. -/
def Succeeds (e : Tick) : Prop :=
  ∀ sch ∈ v.due cfg id e.now, failures cfg e.turn e.now v.store sch = []

/-- The rule is active, and the schedule has not fallen behind by more runs than the catch-up loop
counts, nor by so much that the expression has no next run. -/
def Punctual (cs : CronSchedule) (loc : Location) (e : Tick) : Prop :=
  ∀ sch ∈ v.due cfg id e.now, ∀ a ∈ sch.nextRunAt,
    (∃ rule, v.store.getRuleByID ((e.turn .rule).ctx cfg) sch.ruleID = .ok rule ∧ rule.isActive = true) ∧
    (cs.missed loc a e.now).card ≤ sch.catchup.limit ∧ cs.Covered loc a e.now

/-- The schedule is enabled and runs next at an instant of its expression, after every tick so far;
and so were the tasks of these ticks, one of a tick or, to catch up, two. -/
structure Lawful (cs : CronSchedule) (loc : Location) : Prop where
  row : ∃ sch, Stored cfg v.store id sch ∧ sch.Reads cfg.zones cs loc ∧ sch.enabled = true ∧
    (∃ a : Int, sch.nextRunAt = some a ∧ cs.matchesAt loc a = true ∧ ∀ tick ∈ v.ticks, tick.1 < a) ∧
    ∀ tick ∈ v.ticks, sch.catchup.Allows tick.2
  tasks : ∀ tick ∈ v.ticks, ∀ o ∈ tick.2, o.1 = id ∧ cs.matchesAt loc o.2 = true

variable {cfg id v} {cs : CronSchedule} {loc : Location} {e : Tick}

theorem succeeds_of_due {sch : Schedule} (hdue : v.due cfg id e.now = some sch)
    (h : failures cfg e.turn e.now v.store sch = []) : v.Succeeds cfg id e := by
  intro sch' hmem
  obtain rfl := mem_unique hdue hmem
  exact h

/-- One tick keeps the schedule lawful exactly when it is punctual. -/
theorem Lawful.tick (h : v.Lawful cfg id cs loc) (hclean : v.Succeeds cfg id e) :
    (v.step cfg id e).Lawful cfg id cs loc ↔ v.Punctual cfg id cs loc e := by
  obtain ⟨⟨sch, hstored, hreads, henabled, ⟨a, hnext, hmatch, hpast⟩, hcounts⟩, htasks⟩ := h
  have hid : sch.id = id := Table.key_of_find? hstored.1
  unfold step Punctual
  unfold Succeeds at hclean
  cases hdue : v.due cfg id e.now with
  | none =>
    refine iff_of_true ⟨⟨sch, hstored, hreads, henabled, ⟨a, hnext, hmatch, hpast⟩, hcounts⟩, htasks⟩ ?_
    intro _ hmem
    cases hmem
  | some sch' =>
    rw [hdue] at hclean
    have hsame : sch' = sch ∧ Store.isDue cfg.workspace e.now sch = true := by
      simp only [due, hstored.1, filter_some] at hdue
      split at hdue
      · rename_i hcond
        exact ⟨(some.inj hdue).symm, hcond⟩
      · cases hdue
    obtain ⟨rfl, hcond⟩ := hsame
    have hle : a ≤ e.now := by
      simp only [Store.isDue, Bool.and_eq_true, hnext, any_some, decide_eq_true_eq] at hcond
      exact hcond.2
    have hstored' : Stored cfg v.store sch'.id sch' := hid.symm ▸ hstored
    obtain ⟨rule, hget, hdone⟩ := processSchedule_clean hstored' hreads henabled hnext hmatch
      (hclean sch' rfl)
    obtain ⟨r, hrow, hsettings, hgood, hoff⟩ := hdone.row
    rw [hid] at hrow
    have hmode : r.catchup = sch'.catchup := by
      show r.settings.catchup = sch'.settings.catchup
      rw [hsettings]
    constructor
    · rintro ⟨⟨q, hq, -, hon, ⟨u, hu, hmatch', hpast'⟩, -⟩, -⟩
      obtain rfl := mem_unique hrow.1 hq.1
      have hlt : e.now < u := hpast' _ (mem_append_right _ (mem_singleton_self _))
      obtain ⟨hactive, hbehind⟩ := hgood.mp ⟨hon, u, hu, hlt, hmatch'⟩
      rintro _ ⟨⟩ _ hb
      obtain rfl := mem_unique hnext hb
      exact ⟨⟨rule, hget, hactive⟩, hbehind⟩
    · intro hpunctual
      obtain ⟨⟨rule', hget', hactive⟩, hbehind⟩ := hpunctual sch' rfl a hnext
      obtain rfl : rule = rule' := by
        rw [hget] at hget'
        exact Except.ok.inj hget'
      obtain ⟨hon, u, hu, hlt, hmatch'⟩ := hgood.mpr ⟨hactive, hbehind⟩
      refine ⟨⟨r, hrow, hreads.of_settings hsettings, hon, ⟨u, hu, hmatch', ?_⟩, ?_⟩, ?_⟩
      · intro tick htick
        rcases mem_append.mp htick with hold | hnew
        · exact (hpast tick hold).trans (hle.trans_lt hlt)
        · obtain rfl := mem_singleton.mp hnew
          exact hlt
      · intro tick htick
        rw [hmode]
        rcases mem_append.mp htick with hold | hnew
        · exact hcounts tick hold
        · obtain rfl := mem_singleton.mp hnew
          exact hdone.count hactive
      · intro tick htick
        rcases mem_append.mp htick with hold | hnew
        · exact htasks tick hold
        · obtain rfl := mem_singleton.mp hnew
          exact hid ▸ hdone.tasks

end Ticks

/-- **Scheduled instants.** From a lawful schedule on, over any sequence of ticks whose store calls
succeed, the schedule stays lawful exactly when every tick that finds it due is punctual. -/
theorem scheduled_instants {cfg : RunnerConfig} {id : String} {v : Ticks} {cs : CronSchedule}
    {loc : Location} {es : List Tick} (h : v.Lawful cfg id cs loc)
    (hclean : Meets (Ticks.step cfg id) (Ticks.Succeeds cfg id) v es) :
    Always (Ticks.step cfg id) (Ticks.Lawful cfg id · cs loc) v es ↔
      Meets (Ticks.step cfg id) (Ticks.Punctual cfg id · cs loc) v es :=
  always_iff_meets_within (I := fun _ => True) hclean trivial (fun _ _ _ _ => trivial) h
    fun _ _ _ hA hP => hP.tick hA

namespace Sample

def everyMinuteCron : CronSchedule :=
  ⟨⟨0, 59, upTo 0 59, true⟩, ⟨0, 23, upTo 0 23, true⟩, ⟨1, 31, upTo 1 31, true⟩,
    ⟨1, 12, upTo 1 12, true⟩, ⟨0, 6, upTo 0 6, true⟩, "* * * * *"⟩

def utc : Location := fun _ => 0

theorem everyMinute_nodup : ([everyMinute].map Schedule.id).Nodup := nodup_singleton _

def minutely : Ticks :=
  ⟨{ store with schedules := ⟨[everyMinute], everyMinute_nodup⟩ }, []⟩

def tickAt (now : Int) (task : TaskID) : Tick := ⟨now, fun _ => ⟨now, false, task, fun _ => 0⟩⟩

def late : Int := 1002 * Duration.minute + 30 * Duration.second

theorem mem_upTo {a b x : Int} : x ∈ upTo a b ↔ a ≤ x ∧ x ≤ b := by
  simp only [upTo, List.pure_def, bind_eq_flatMap, List.mem_map, mem_flatMap, mem_range,
    Int.lt_toNat, mem_cons, not_mem_nil, or_false, ↓existsAndEq, and_true]
  constructor
  · rintro ⟨i, hi, rfl⟩
    omega
  · rintro ⟨h₁, h₂⟩
    exact ⟨(x - a).toNat, by omega, by omega⟩

theorem isRun_minute {k : Int} (h₀ : 0 ≤ k) (h₁ : k ≤ 1002) :
    everyMinuteCron.isRun utc (k * minute) := by
  have hwall : wall (k * minute) utc = 60 * k := by
    simp only [wall, utc, minute, second]
    omega
  have hday : dayNumber (k * minute) utc = 0 := by
    simp only [dayNumber, hwall]
    omega
  have hmonth : month (k * minute) utc = 1 := by
    simp only [month, monthFromMarch, dayOfYear, yearOfEra, dayOfEra, hday]
    decide
  have hminute : 0 ≤ minuteOf (k * minute) utc ∧
      minuteOf (k * minute) utc ≤ 59 := by
    simp only [minuteOf]
    omega
  have hhour : 0 ≤ hourOf (k * minute) utc ∧ hourOf (k * minute) utc ≤ 23 := by
    simp only [hourOf]
    omega
  simp [CronSchedule.isRun, CronSchedule.matchesAt, CronSchedule.matchesDay, everyMinuteCron,
    mem_upTo, hmonth, hminute, hhour]

/-- A tick at `late` finds more than a thousand runs missed. -/
theorem late_missed : 1002 ≤ (everyMinuteCron.missed utc 5 late).card := by
  have hinj := Finset.card_le_card_of_injOn (s := Finset.range 1002)
    (t := everyMinuteCron.missed utc 5 late) fun i => ((i : Int) + 1) * minute
  rw [Finset.card_range] at hinj
  refine hinj ?_ ?_
  · intro i hi
    have hlt : i < 1002 := by simpa using hi
    refine Finset.mem_coe.mpr (Finset.mem_filter.mpr ⟨Finset.mem_Ioc.mpr ?_, ?_⟩)
    · simp only [late, minute, second]
      omega
    · exact isRun_minute (by omega) (by omega)
  · intro i _ j _ hij
    simp only [minute, second] at hij
    omega

/-- The store after the task of a tick at `late`. -/
def lateStore : Store :=
  (((tickAt late "first").turn .update).createTaskFromSchedule runnerConfig minutely.store
    everyMinute rule (everyMinute.scheduledAt late)).getD minutely.store

theorem late_afterCreate : ∃ on next, afterCreate runnerConfig.zones late everyMinute rule =
    ({ everyMinute with lastRunAt := some late, enabled := on, nextRunAt := next }, .update) := by
  have hnext : computeNextRunInLocation runnerConfig.zones everyMinute.expression
      (everyMinute.nextRunAt.getD zero) everyMinute.timezone = .ok minute := by
    decide +kernel
  obtain ⟨on, next, hskip⟩ := skipAhead_eq runnerConfig.zones late
    { everyMinute with lastRunAt := some late } maxCatchUpIterations minute
  refine ⟨on, next, ?_⟩
  have hafter : afterCreate runnerConfig.zones late everyMinute rule =
      (skipAhead runnerConfig.zones late { everyMinute with lastRunAt := some late }
        maxCatchUpIterations minute, .update) := by
    unfold afterCreate
    rw [hnext]
    rfl
  rw [hafter, hskip]

theorem late_failures :
    failures runnerConfig (tickAt late "first").turn late minutely.store everyMinute = [] := by
  obtain ⟨on, next, hafter⟩ := late_afterCreate
  have hcreated : ((tickAt late "first").turn (.create rule)).createTaskFromSchedule runnerConfig
      minutely.store everyMinute rule (everyMinute.scheduledAt late) = some lateStore := rfl
  have hrule : processStep runnerConfig ((tickAt late "first").turn .rule) late minutely.store
      everyMinute .rule = (minutely.store, some (everyMinute, .create rule), []) := rfl
  have hcreate : processStep runnerConfig ((tickAt late "first").turn (.create rule)) late
      minutely.store everyMinute (.create rule) = (lateStore,
        some ({ everyMinute with lastRunAt := some late, enabled := on, nextRunAt := next },
          .update), [("schedule", everyMinute.scheduledAt late)]) := by
    simp only [processStep, hcreated, hafter]
    rfl
  unfold failures
  rw [failuresFrom_next hrule, failuresFrom_next hcreate, failuresFrom_last rfl]
  rfl

theorem minutely_lawful : minutely.Lawful runnerConfig "schedule" everyMinuteCron utc where
  row := by
    refine ⟨everyMinute, ⟨by decide, rfl⟩, ⟨rfl, by decide +kernel, rfl⟩, rfl, ⟨5, rfl, ?_, ?_⟩, ?_⟩
    · decide +kernel
    all_goals exact fun _ htick => absurd htick not_mem_nil
  tasks _ htick := absurd htick not_mem_nil

theorem minutely_due : minutely.due runnerConfig "schedule" (30 * second) = some everyMinute := by
  decide +kernel

end Sample

/-- Half a minute later the next run is that of the next minute. -/
theorem scheduled_instants_minutely : Always (Ticks.step Sample.runnerConfig "schedule")
      (Ticks.Lawful Sample.runnerConfig "schedule" · Sample.everyMinuteCron Sample.utc)
      Sample.minutely [Sample.tickAt (30 * Duration.second) "first"] := by
  have hnext : Sample.everyMinuteCron.nextRun Sample.utc (5 : Int) = .ok Duration.minute := by
    decide +kernel
  have hclean : Meets (Ticks.step Sample.runnerConfig "schedule")
      (Ticks.Succeeds Sample.runnerConfig "schedule") Sample.minutely
      [Sample.tickAt (30 * Duration.second) "first"] :=
    ⟨Ticks.succeeds_of_due Sample.minutely_due (by decide +kernel), trivial⟩
  refine (scheduled_instants Sample.minutely_lawful hclean).mpr ⟨?_, trivial⟩
  intro sch hsch a ha
  obtain rfl := mem_unique Sample.minutely_due hsch
  cases ha
  refine ⟨⟨Sample.rule, by decide, rfl⟩, ?_, ?_⟩
  · rw [CronSchedule.missed_of_next hnext (by decide)]
    exact Nat.zero_le _
  · exact CronSchedule.covered_of_lt hnext (by decide)

/-- A schedule that is too far behind is due next at the time of the tick, which is no instant of
its expression. -/
theorem unscheduled_instant : ¬ ∀ cfg id v cs loc es, Ticks.Lawful cfg id v cs loc →
      Meets (Ticks.step cfg id) (Ticks.Succeeds cfg id) v es →
      Always (Ticks.step cfg id) (Ticks.Lawful cfg id · cs loc) v es := by
  intro h
  have hdue : Sample.minutely.due Sample.runnerConfig "schedule" Sample.late = some Sample.everyMinute := by
    decide +kernel
  have hclean : Sample.minutely.Succeeds Sample.runnerConfig "schedule"
      (Sample.tickAt Sample.late "first") :=
    Ticks.succeeds_of_due hdue Sample.late_failures
  have hlawful := h Sample.runnerConfig "schedule" Sample.minutely Sample.everyMinuteCron
    Sample.utc [Sample.tickAt Sample.late "first"] Sample.minutely_lawful ⟨hclean, trivial⟩
  obtain ⟨-, hmissed, -⟩ := (Sample.minutely_lawful.tick hclean).mp hlawful.run _ hdue _ rfl
  have hmany := hmissed.trans (by decide : Sample.everyMinute.catchup.limit ≤ 1001)
  exact absurd (Sample.late_missed.trans hmany) (by decide)

end Aegis
