import Aegis.Scheduler.CatchUp

/-!
# Scheduler.NextRun

What `nextRun` is for: the least whole minute after an instant that the fields admit, and by
iteration all of them.
-/

namespace Aegis

open List

namespace CronSchedule

variable (cs : CronSchedule) (loc : Location)

/-- The day of `t` is admitted: by the restricted day field, or by either when both are. -/
def AdmitsDay (t : Int) : Prop :=
  (cs.dom.star = true ∧ cs.dow.star = true) ∨ (cs.dom.star = false ∧ Time.day t loc ∈ cs.dom.valid) ∨
    (cs.dow.star = false ∧ Time.weekday t loc ∈ cs.dow.valid)

/-- A whole minute whose civil time in the zone satisfies the fields. -/
structure Admits (t : Int) : Prop where
  whole : t % Duration.minute = 0
  minute : Time.minuteOf t loc ∈ cs.minute.valid
  hour : Time.hourOf t loc ∈ cs.hour.valid
  month : Time.month t loc ∈ cs.month.valid
  day : cs.AdmitsDay loc t

/-- The results of at most `n` calls of `nextRun`, each from the result before it, up to the first
error. -/
def iterate (a : Int) : Nat → List Int
  | 0 => []
  | n + 1 =>
    match cs.nextRun loc a with
    | .ok u => u :: iterate u n
    | .error _ => []

variable {cs loc} {a t u w : Int} {n : Nat}

theorem matchesDay_iff : cs.matchesDay loc t ↔ cs.AdmitsDay loc t := by
  unfold matchesDay AdmitsDay
  cases cs.dom.star <;> cases cs.dow.star <;> simp

theorem isRun_iff : cs.isRun loc t ↔ cs.Admits loc t := by
  simp only [isRun, matchesAt, Bool.and_eq_true, beq_iff_eq, contains_iff_mem, matchesDay_iff]
  constructor
  · rintro ⟨hwhole, ⟨⟨hminute, hhour⟩, hmonth⟩, hday⟩
    exact ⟨hwhole, hminute, hhour, hmonth, hday⟩
  · intro h
    exact ⟨h.whole, ⟨⟨h.minute, h.hour⟩, h.month⟩, h.day⟩

theorem nextRun_isLeast (h : cs.nextRun loc a = .ok u) : IsLeast { t | cs.Admits loc t ∧ a < t } u := by
  obtain ⟨hrun, hlt, -, hfirst⟩ := nextRun_eq_ok.mp h
  refine ⟨⟨isRun_iff.mp hrun, hlt⟩, ?_⟩
  rintro v ⟨hadmits, hv⟩
  by_contra hnot
  have hfalse := hfirst v hv (not_le.mp hnot)
  rw [isRun_iff.mpr hadmits] at hfalse
  cases hfalse

/-- The next run is the least admitted minute up to the horizon. -/
theorem nextRun_ok_iff_isLeast : cs.nextRun loc a = .ok u ↔
    IsLeast { t | cs.Admits loc t ∧ a < t ∧ t < a + horizon } u := by
  constructor
  · intro h
    obtain ⟨-, -, hbound, -⟩ := nextRun_eq_ok.mp h
    have hleast := nextRun_isLeast h
    exact ⟨⟨hleast.1.1, hleast.1.2, hbound⟩, fun v hv => hleast.2 ⟨hv.1, hv.2.1⟩⟩
  · rintro ⟨⟨hadmits, hlt, hbound⟩, hleast⟩
    refine nextRun_eq_ok.mpr ⟨isRun_iff.mpr hadmits, hlt, hbound, fun v h₁ h₂ => ?_⟩
    by_contra hnot
    rw [Bool.not_eq_false] at hnot
    have hle := hleast ⟨isRun_iff.mp hnot, h₁, h₂.trans hbound⟩
    exact absurd hle (not_le.mpr h₂)

theorem nextRun_error_iff : (∃ e, cs.nextRun loc a = .error e) ↔
    ¬∃ t, cs.Admits loc t ∧ a < t ∧ t < a + horizon := by
  have hruns : (∃ t, cs.Admits loc t ∧ a < t ∧ t < a + horizon) ↔ cs.Runs loc a := by
    simp only [Runs, isRun_iff]
  rw [hruns, ← nextRun_ok_iff]
  cases cs.nextRun loc a with
  | ok u | error e => simp

theorem iterate_ok (h : cs.nextRun loc a = .ok u) : cs.iterate loc a (n + 1) = u :: cs.iterate loc u n := by
  rw [iterate, h]

theorem iterate_error {e : CronError} (h : cs.nextRun loc a = .error e) :
    cs.iterate loc a (n + 1) = [] := by
  rw [iterate, h]

theorem admits_of_mem_iterate (ht : t ∈ cs.iterate loc a n) : cs.Admits loc t ∧ a < t := by
  induction n generalizing a with
  | zero => cases ht
  | succ n ih =>
    cases h : cs.nextRun loc a with
    | error e =>
      rw [iterate_error h] at ht
      cases ht
    | ok u =>
      rw [iterate_ok h] at ht
      have hnext := (nextRun_isLeast h).1
      rcases mem_cons.mp ht with rfl | ht
      · exact hnext
      · obtain ⟨hadmits, hlt⟩ := ih ht
        exact ⟨hadmits, hnext.2.trans hlt⟩

theorem iterate_sorted : (cs.iterate loc a n).Pairwise (· < ·) := by
  induction n generalizing a with
  | zero => exact .nil
  | succ n ih =>
    cases h : cs.nextRun loc a with
    | error e =>
      rw [iterate_error h]
      exact .nil
    | ok u =>
      rw [iterate_ok h]
      exact .cons (fun t ht => (admits_of_mem_iterate ht).2) ih

theorem mem_iterate_of_le (hw : cs.Admits loc w) (ha : a < w) (ht : t ∈ cs.iterate loc a n)
    (hle : w ≤ t) : w ∈ cs.iterate loc a n := by
  induction n generalizing a with
  | zero => cases ht
  | succ n ih =>
    cases h : cs.nextRun loc a with
    | error e =>
      rw [iterate_error h] at ht
      cases ht
    | ok u =>
      rw [iterate_ok h] at ht ⊢
      have huw : u ≤ w := (nextRun_isLeast h).2 ⟨hw, ha⟩
      rcases huw.eq_or_lt with rfl | hlt
      · exact mem_cons_self
      · rcases mem_cons.mp ht with rfl | ht
        · exact absurd hle (not_le.mpr hlt)
        · exact mem_cons_of_mem _ (ih hlt ht)

/-- Iteration comes to every admitted minute, or stops at a gap before it. -/
theorem reaches (hw : cs.Admits loc w) (ha : a < w) : ∃ n, w ∈ cs.iterate loc a n ∨
      ∃ v, (v = a ∨ v ∈ cs.iterate loc a n) ∧ v < w ∧ ∃ e, cs.nextRun loc v = .error e := by
  -- the iteration comes closer to `w` with every result
  induction hk : (w - a).toNat using Nat.strong_induction_on generalizing a with
  | _ k ih =>
    cases h : cs.nextRun loc a with
    | error e => exact ⟨0, .inr ⟨a, .inl rfl, ha, e, h⟩⟩
    | ok u =>
      obtain ⟨⟨-, hau⟩, hleast⟩ := nextRun_isLeast h
      have huw : u ≤ w := hleast ⟨hw, ha⟩
      rcases huw.eq_or_lt with rfl | hlt
      · refine ⟨1, .inl ?_⟩
        rw [iterate_ok h]
        exact mem_cons_self
      · obtain ⟨n, hn⟩ := ih (w - u).toNat (by omega) hlt rfl
        refine ⟨n + 1, ?_⟩
        rw [iterate_ok h]
        rcases hn with hn | ⟨v, hv, hvw, herror⟩
        · exact .inl (mem_cons_of_mem _ hn)
        · refine .inr ⟨v, .inr ?_, hvw, herror⟩
          rcases hv with rfl | hv
          · exact mem_cons_self
          · exact mem_cons_of_mem _ hv

end CronSchedule

/-- **The next run.** `nextRun` returns the least admitted minute within four leap years of an
instant, and fails when there is none; iterated, it lists the admitted minutes in order, without
omission or repetition, up to the first gap of four leap years. -/
theorem nextRun_enumerates (cs : CronSchedule) (loc : Location) (a : Int) : (∀ u, cs.nextRun loc a = .ok u ↔
      IsLeast { t | cs.Admits loc t ∧ a < t ∧ t < a + CronSchedule.horizon } u) ∧
    ((∃ e, cs.nextRun loc a = .error e) ↔ ¬∃ t, cs.Admits loc t ∧ a < t ∧ t < a + CronSchedule.horizon) ∧
    (∀ n, (cs.iterate loc a n).Pairwise (· < ·) ∧ (∀ t ∈ cs.iterate loc a n, cs.Admits loc t ∧ a < t) ∧
      ∀ w, cs.Admits loc w → a < w → ∀ t ∈ cs.iterate loc a n, w ≤ t → w ∈ cs.iterate loc a n) ∧
    ∀ w, cs.Admits loc w → a < w → ∃ n, w ∈ cs.iterate loc a n ∨
      ∃ v, (v = a ∨ v ∈ cs.iterate loc a n) ∧ v < w ∧
        ¬∃ t, cs.Admits loc t ∧ v < t ∧ t < v + CronSchedule.horizon := by
  refine ⟨fun u => CronSchedule.nextRun_ok_iff_isLeast, CronSchedule.nextRun_error_iff,
    fun n => ⟨CronSchedule.iterate_sorted, fun t ht => CronSchedule.admits_of_mem_iterate ht,
      fun w hw ha t ht hle => CronSchedule.mem_iterate_of_le hw ha ht hle⟩, fun w hw ha => ?_⟩
  obtain ⟨n, hn⟩ := CronSchedule.reaches hw ha
  refine ⟨n, hn.imp_right ?_⟩
  rintro ⟨v, hv, hvw, herror⟩
  exact ⟨v, hv, hvw, CronSchedule.nextRun_error_iff.mp herror⟩

end Aegis
