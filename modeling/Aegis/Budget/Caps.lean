import Aegis.Budget.Moves
import Aegis.Lib.Run
import Aegis.Lib.Totals

/-!
# Budget.Caps

The hard daily caps, over runs of any number of callers: the calls of a run come in any order, each
with its own reading of the clock.

`WithinCaps` is what holds in every state. An opened entry adds what the caps still allow, in the
day its transaction read; a moved entry adds nothing, in any day.
-/

namespace Aegis

open List Table
open BudgetEntry

namespace LedgerDb

variable (db : LedgerDb)

def dayTotal (day : String) : Int :=
  db.reservations.total (fun e => e.budgetDay == day) countedAmount

def workspaceTotal (day : String) (workspaceID : WorkspaceID) : Int :=
  db.reservations.total (fun e => e.budgetDay == day && e.identity.workspaceID == workspaceID)
    countedAmount

def sums : List (BudgetEntry → Int) := [countedCase, settledCase, activeCase, uncertainCase]

/-- The caps. A row counts for the amount of its state in SQL (`countedCase`) as in Go. -/
structure WithinCaps (limits : Limits) : Prop where
  global : ∀ day, db.dayTotal day ≤ limits.globalDailyBudgetUSD
  workspace : ∀ day workspaceID w, limits.workspaces workspaceID = some w →
    db.workspaceTotal day workspaceID ≤ w.dailyBudgetUSD
  counted : ∀ e ∈ db.reservations.rows, countedCase e = e.countedAmount
  request : ∀ e ∈ db.reservations.rows, 0 ≤ e.countedAmount ∧ e.countedAmount ≤ e.reserved ∧
    e.reserved ≤ limits.globalMaxRequestUSD ∧
    ∃ w, limits.workspaces e.identity.workspaceID = some w ∧ e.reserved ≤ w.maxRequestUSD
  fits : ∀ day workspaceID, ∀ f ∈ sums, ∀ l : List BudgetEntry,
    l.Subperm (db.entries day workspaceID) → 0 ≤ (l.map f).sum ∧ (l.map f).sum ≤ maxUSDNanos

/-- The entries of `db` are still there, and none counts for more. -/
def Shrinks (db db' : LedgerDb) : Prop :=
  ∀ e ∈ db.reservations.rows, ∃ e' ∈ db'.reservations.rows,
    e'.snapshot = e.snapshot ∧ e'.countedAmount ≤ e.countedAmount

variable {db} {db' : LedgerDb} {limits : Limits} {e : BudgetEntry} {f : EntryUpdate}
  {day : String} {workspaceID : WorkspaceID}

theorem countedCase_eq (h : e.checks) : countedCase e = e.countedAmount := by
  unfold countedCase countedAmount
  cases hs : e.state with
  | usageUncertain => exact settled_of_usageUncertain h hs
  | reserved | released | possiblyDispatched | settled => rfl

theorem countedForDay_global (hdb : db.Checked) : db.countedForDay day "" = db.dayTotal day := by
  have hcase : db.countedForDay day "" = db.reservations.total (inScope day "") countedAmount :=
    Table.total_congr fun e he _ => countedCase_eq (hdb e he)
  rw [hcase]
  exact Table.total_congr_where fun e _ => by simp [inScope]

theorem countedForDay_workspace (hdb : db.Checked) (hw : workspaceID ≠ "") :
    db.countedForDay day workspaceID = db.workspaceTotal day workspaceID := by
  have hcase : db.countedForDay day workspaceID =
      db.reservations.total (inScope day workspaceID) countedAmount :=
    Table.total_congr fun e he _ => countedCase_eq (hdb e he)
  rw [hcase]
  have hne : (workspaceID == "") = false := beq_eq_false_iff_ne.mpr hw
  exact Table.total_congr_where fun e _ => by simp [inScope, hne]

theorem checkDailyCap_eq_ok {scope : BudgetScope} {reserved counted cap : Int}
    (hpos : 0 < reserved) (h : checkDailyCap scope reserved counted cap = .ok ()) :
    counted + reserved ≤ cap := by
  by_contra hover
  have hroom : (if cap - counted < 0 then 0 else cap - counted) < reserved := by
    split <;> omega
  simp only [checkDailyCap, hroom, if_true] at h
  cases h

theorem checkRequestCaps_eq_ok {reserved : Int} {w : WorkspaceBudget}
    (h : limits.checkRequestCaps workspaceID reserved = .ok w) :
    limits.workspaces workspaceID = some w ∧ reserved ≤ limits.globalMaxRequestUSD ∧
      reserved ≤ w.maxRequestUSD := by
  unfold Limits.checkRequestCaps at h
  split at h
  · cases h
  · rename_i workspace hworkspace
    split at h
    · cases h
    · split at h
      · cases h
      · cases h
        exact ⟨hworkspace, by omega, by omega⟩

theorem workspaceID_ne {identity : DispatchIdentity} (h : identity.validate = .ok ()) :
    identity.workspaceID ≠ "" := by
  obtain ⟨_, hblank, -⟩ := bind_eq_ok.mp h
  intro hempty
  rw [hempty] at hblank
  simp [expect, show isBlank "" = true by decide] at hblank

theorem Opened.total_eq (h : Opened limits db db' e) (p : BudgetEntry → Bool) :
    db'.reservations.total p countedAmount =
      db.reservations.total p countedAmount + if p e then e.reserved else 0 := by
  rw [Table.total_of_rows_append h.rows, counted_of_reserved h.state]

theorem Moved.total_le (h : Moved db db' e f) {p : BudgetEntry → Bool} (hp : ∀ r, p (f.set r) = p r) :
    db'.reservations.total p countedAmount ≤ db.reservations.total p countedAmount := by
  rw [h.rows]
  refine Table.total_update_le f.onID hp fun r hr hid => ?_
  have hre : r = e := eq_of_key hr h.mem (by simpa using hid)
  exact hre ▸ h.counted

theorem Opened.dayTotal_le (h : Opened limits db db' e) (hdb : db.Checked)
    (hcap : db.dayTotal day ≤ limits.globalDailyBudgetUSD) :
    db'.dayTotal day ≤ limits.globalDailyBudgetUSD := by
  have hroom := checkDailyCap_eq_ok (reserved_pos h.checks) h.dailyCap
  rw [countedForDay_global hdb] at hroom
  unfold dayTotal at hroom hcap ⊢
  rw [h.total_eq]
  split
  · rename_i hday
    rw [← beq_iff_eq.mp hday]
    exact hroom
  · omega

theorem Opened.workspaceTotal_le {w : WorkspaceBudget} (h : Opened limits db db' e)
    (hdb : db.Checked) (hw : limits.workspaces workspaceID = some w)
    (hcap : db.workspaceTotal day workspaceID ≤ w.dailyBudgetUSD) :
    db'.workspaceTotal day workspaceID ≤ w.dailyBudgetUSD := by
  obtain ⟨v, hrequest, hdaily⟩ := h.requestCaps
  have hroom := checkDailyCap_eq_ok (reserved_pos h.checks) hdaily
  rw [countedForDay_workspace hdb (workspaceID_ne h.valid)] at hroom
  unfold workspaceTotal at hroom hcap ⊢
  rw [h.total_eq]
  split
  · rename_i hscope
    rw [Bool.and_eq_true, beq_iff_eq, beq_iff_eq] at hscope
    obtain ⟨rfl, rfl⟩ := hscope
    have hvw : v = w := Option.some.inj ((checkRequestCaps_eq_ok hrequest).1.symm.trans hw)
    exact hvw ▸ hroom
  · omega

/-- The invariant: what counts is within each of the caps. -/
structure Admitted (limits : Limits) (db : LedgerDb) : Prop where
  checked : db.Checked
  global : ∀ day, db.dayTotal day ≤ limits.globalDailyBudgetUSD
  workspace : ∀ day workspaceID w, limits.workspaces workspaceID = some w →
    db.workspaceTotal day workspaceID ≤ w.dailyBudgetUSD
  request : ∀ e ∈ db.reservations.rows, e.reserved ≤ limits.globalMaxRequestUSD ∧
    ∃ w, limits.workspaces e.identity.workspaceID = some w ∧ e.reserved ≤ w.maxRequestUSD

/-- One write of the ledger keeps what the caps have admitted. -/
theorem Admitted.change (hdb : Admitted limits db) (h : Change limits db db') : Admitted limits db' := by
  refine ⟨hdb.checked.change h, ?_, ?_, ?_⟩
  · intro day
    cases h with
    | opened e h => exact h.dayTotal_le hdb.checked (hdb.global day)
    | moved e f h =>
      have hle : db'.dayTotal day ≤ db.dayTotal day :=
        h.total_le fun r => by rw [f.keeps_budgetDay r]
      exact hle.trans (hdb.global day)
  · intro day workspaceID w hw
    cases h with
    | opened e h => exact h.workspaceTotal_le hdb.checked hw (hdb.workspace day workspaceID w hw)
    | moved e f h =>
      have hle : db'.workspaceTotal day workspaceID ≤ db.workspaceTotal day workspaceID :=
        h.total_le fun r => by rw [f.keeps_budgetDay r, f.keeps_identity r]
      exact hle.trans (hdb.workspace day workspaceID w hw)
  · intro q hq
    cases h with
    | opened e h =>
      rw [h.rows, mem_append, mem_singleton] at hq
      obtain hq | rfl := hq
      · exact hdb.request q hq
      · obtain ⟨w, hrequest, -⟩ := h.requestCaps
        obtain ⟨hw, hglobal, hworkspace⟩ := checkRequestCaps_eq_ok hrequest
        exact ⟨hglobal, w, hw, hworkspace⟩
    | moved e f h =>
      rw [h.rows] at hq
      obtain ⟨hq, -⟩ | ⟨r, hr, rfl⟩ := mem_updateRow.mp hq
      · exact hdb.request q hq
      · show (f.set r).reserved ≤ _ ∧ ∃ w, limits.workspaces (f.set r).identity.workspaceID = _ ∧
          (f.set r).reserved ≤ _
        rw [f.keeps_reserved, f.keeps_identity]
        exact hdb.request r (mem_of_find? hr)

theorem Admitted.empty (h : limits.configured) : Admitted limits .empty := by
  simp only [Limits.configured, Bool.and_eq_true, decide_eq_true_eq] at h
  refine ⟨?_, ?_, ?_, ?_⟩
  · intro e he
    cases he
  · intro day
    exact h.2.le
  · intro day workspaceID w _
    exact w.daily_pos.le
  · intro e he
    cases he

theorem Moved.shrinks (h : Moved db db' e f) : Shrinks db db' := by
  intro q hq
  rw [h.rows]
  by_cases hid : q.id = e.id
  · have hqe : q = e := eq_of_key hq h.mem hid
    subst hqe
    exact ⟨f.set q, mem_updateRow.mpr (.inr ⟨q, find?_key hq, rfl⟩), f.keeps q, h.counted⟩
  · exact ⟨q, mem_updateRow.mpr (.inl ⟨hq, hid⟩), rfl, le_rfl⟩

theorem Change.shrinks (h : Change limits db db') : Shrinks db db' := by
  cases h with
  | opened e h => exact fun q hq => ⟨q, by simp [h.rows, hq], rfl, le_rfl⟩
  | moved e f h => exact h.shrinks

theorem Changes.shrinks (h : Changes limits db db') : Shrinks db db' := by
  induction h with
  | refl => exact fun q hq => ⟨q, hq, rfl, le_rfl⟩
  | tail _ hlast ih =>
    intro q hq
    obtain ⟨q₁, hq₁, hsnapshot₁, hle₁⟩ := ih q hq
    obtain ⟨q₂, hq₂, hsnapshot₂, hle₂⟩ := hlast.shrinks q₁ hq₁
    exact ⟨q₂, hq₂, hsnapshot₂.trans hsnapshot₁, hle₂.trans hle₁⟩

theorem sums_bounds {g : BudgetEntry → Int} (h : e.checks) (hg : g ∈ sums) :
    0 ≤ g e ∧ g e ≤ e.countedAmount := by
  have hpos := reserved_pos h
  have hsettled := settled_nonneg h
  have huncertain := settled_of_usageUncertain h
  simp only [sums, mem_cons, not_mem_nil, or_false] at hg
  obtain rfl | rfl | rfl | rfl := hg
  · rw [countedCase_eq h]
    exact ⟨countedAmount_nonneg h, le_rfl⟩
  · unfold settledCase countedAmount
    cases hs : e.state with
    | usageUncertain =>
      have := huncertain hs
      simp only [beq_self_eq_true, Bool.or_true, if_true]
      omega
    | reserved | released | possiblyDispatched | settled => simp <;> omega
  · unfold activeCase countedAmount
    cases e.state <;> simp <;> omega
  · unfold uncertainCase countedAmount
    cases e.state <;> simp <;> omega

theorem Admitted.fits (hdb : Admitted limits db) {g : BudgetEntry → Int} (hg : g ∈ sums)
    {l : List BudgetEntry} (hl : l.Subperm (db.entries day workspaceID)) :
    0 ≤ (l.map g).sum ∧ (l.map g).sum ≤ maxUSDNanos := by
  have hbounds := fun e he => sums_bounds (hdb.checked e he) hg
  obtain ⟨hnonneg, hle⟩ :=
    Table.sum_le_total (t := db.reservations) (fun e he => (hbounds e he).1) hl
  refine ⟨hnonneg, ?_⟩
  -- the rows of one workspace are among the rows of the day
  have hday : db.reservations.total (inScope day workspaceID) countedAmount ≤ db.dayTotal day := by
    have hsub : (db.entries day workspaceID).Subperm
        (db.reservations.rows.filter fun e => e.budgetDay == day) := by
      refine (monotone_filter_right _ fun e he => ?_).subperm
      simp only [inScope, Bool.and_eq_true] at he
      exact he.1
    exact (Table.sum_le_total (fun e he => countedAmount_nonneg (hdb.checked e he)) hsub).2
  calc (l.map g).sum
      ≤ db.reservations.total (inScope day workspaceID) g := hle
    _ ≤ db.reservations.total (inScope day workspaceID) countedAmount :=
        Table.total_le fun e he => (hbounds e he).2
    _ ≤ db.dayTotal day := hday
    _ ≤ limits.globalDailyBudgetUSD := hdb.global day
    _ ≤ maxUSDNanos := limits.daily_le

theorem Admitted.withinCaps (hdb : Admitted limits db) : WithinCaps db limits where
  global := hdb.global
  workspace := hdb.workspace
  counted e he := countedCase_eq (hdb.checked e he)
  request e he :=
    have hchecks := hdb.checked e he
    ⟨countedAmount_nonneg hchecks, countedAmount_le hchecks, hdb.request e he⟩
  fits _ _ _ hg _ hl := hdb.fits hg hl

end LedgerDb

/-- In every state of every run the caps hold, and the next call lets no entry count for more. -/
theorem daily_caps (limits : Limits) (hconfigured : limits.configured = true) (calls : List LedgerCall) :
    Always (LedgerDb.step limits)
      (fun db => db.WithinCaps limits ∧ ∀ call, db.Shrinks (db.step limits call)) .empty calls := by
  have hrun : Always (LedgerDb.step limits) (LedgerDb.Admitted limits) .empty calls := by
    refine Meets.always (meets_of_forall (A := fun _ => True) fun _ _ => trivial)
      (LedgerDb.Admitted.empty hconfigured) fun db call hdb _ => ?_
    exact LedgerDb.step_invariant (fun _ _ h hc => h.change hc) db call hdb
  refine hrun.mono fun db hdb => ⟨hdb.withinCaps, fun call => ?_⟩
  exact (LedgerDb.step_changes limits db call).shrinks

theorem daily_caps_settledCall : Always (LedgerDb.step Sample.limits)
      (fun db => db.WithinCaps Sample.limits ∧ ∀ call, db.Shrinks (db.step Sample.limits call))
      .empty Sample.settledCall ∧
      (run (LedgerDb.step Sample.limits) .empty Sample.settledCall).dayTotal "1970-01-01" = 1050000 :=
  ⟨daily_caps Sample.limits (by decide) Sample.settledCall, by decide +kernel⟩

end Aegis
