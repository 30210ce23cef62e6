import Aegis.Budget.Caps

/-!
# Budget.Journal

The append-only journal against the rows: the transitions of a reservation are the path it has
taken through its machine, up to the state and the counted amount its row has now.

* `IsHistory` — a journal of one reservation.
* `Agrees`    — the two SQL sums and the Go switch give one counted amount, in every scope.
-/

namespace Aegis

open List
open BudgetEntry

namespace BudgetTransition

/-- `b` may come right after `a`. -/
def Follows (a b : BudgetTransition) : Prop :=
  b.event ≠ .reserve ∧ b.fromState = some a.toState ∧ a.toState.next b.toState = true

end BudgetTransition

/-- The transitions `ts` lead from the admission of a reservation to its row `e`. -/
structure IsHistory (e : BudgetEntry) (ts : List BudgetTransition) : Prop where
  starts : ∃ t, ts.head? = some t ∧ t.event = .reserve ∧ t.fromState = none ∧
    t.toState = .reserved ∧ t.amount = e.reserved
  path : ts.IsChain BudgetTransition.Follows
  once : (ts.map (·.toState)).Nodup
  ends : ∃ t, ts.getLast? = some t ∧ t.toState = e.state ∧ t.amount = e.countedAmount

def LedgerState.rank : LedgerState → Nat
  | reserved => 0
  | released => 1
  | possiblyDispatched => 1
  | settled => 2
  | usageUncertain => 2

theorem LedgerState.rank_lt {a b : LedgerState} (h : a.next b) : a.rank < b.rank := by
  cases a <;> cases b <;> first | decide | cases h

variable {ts : List BudgetTransition}

theorem nodup_of_path (h : ts.IsChain BudgetTransition.Follows) : (ts.map (·.toState)).Nodup := by
  have hranks : ts.IsChain fun a b => a.toState.rank < b.toState.rank :=
    h.imp fun a b hab => LedgerState.rank_lt hab.2.2
  have hlt : (ts.map fun t => t.toState.rank).Pairwise (· < ·) :=
    isChain_iff_pairwise.mp ((isChain_map _).mpr hranks)
  have hnodup : ((ts.map (·.toState)).map LedgerState.rank).Nodup := by
    rw [map_map]
    exact hlt.imp fun hab => hab.ne
  exact hnodup.of_map

theorem IsHistory.extend {e e' : BudgetEntry} {t : BudgetTransition}
    (h : IsHistory e ts) (hreserved : e'.reserved = e.reserved) (hevent : t.event ≠ .reserve)
    (hfrom : t.fromState = some e.state) (hnext : e.state.next t.toState)
    (hstate : t.toState = e'.state) (hamount : t.amount = e'.countedAmount) :
    IsHistory e' (ts ++ [t]) := by
  obtain ⟨first, hhead, hfirst⟩ := h.starts
  obtain ⟨last, hlast, hend, -⟩ := h.ends
  have hpath : (ts ++ [t]).IsChain BudgetTransition.Follows := by
    refine h.path.append (isChain_singleton t) fun a ha b hb => ?_
    rw [hlast] at ha
    cases ha
    cases hb
    exact ⟨hevent, hend.symm ▸ hfrom, hend.symm ▸ hnext⟩
  refine ⟨⟨first, ?_, hreserved ▸ hfirst⟩, hpath, nodup_of_path hpath, t, ?_, hstate, hamount⟩
  · rw [head?_append, hhead]
    rfl
  · simp

/-- The states that a dispatch leads to. -/
def LedgerState.Dispatched (s : LedgerState) : Prop :=
  s = possiblyDispatched ∨ s = settled ∨ s = usageUncertain

theorem LedgerState.Dispatched.next {a b : LedgerState} (h : a.Dispatched)
    (hnext : a.next b) : b.Dispatched := by
  obtain rfl | rfl | rfl := h
  · cases b <;> first | cases hnext; done | simp [Dispatched]
  all_goals cases b <;> cases hnext

/-- The transitions of a reservation that went out and was not released. -/
structure WasDispatched (ts : List BudgetTransition) : Prop where
  marked : ∃ t ∈ ts, t.toState = .possiblyDispatched
  unreleased : ∀ t ∈ ts, t.toState ≠ .released

theorem released_last {t last : BudgetTransition}
    (h : ts.IsChain BudgetTransition.Follows) (ht : t ∈ ts) (hreleased : t.toState = .released)
    (hlast : ts.getLast? = some last) : last.toState = .released := by
  induction ts with
  | nil => cases ht
  | cons a ts ih =>
    cases ts with
    | nil =>
      rw [mem_singleton] at ht
      cases hlast
      exact ht ▸ hreleased
    | cons b ts =>
      rw [isChain_cons_cons] at h
      rw [getLast?_cons_cons] at hlast
      obtain rfl | ht := mem_cons.mp ht
      · have hnext := h.1.2.2
        rw [hreleased] at hnext
        cases hnext
      · exact ih h.2 ht hlast

theorem IsHistory.wasDispatched {e : BudgetEntry}
    (h : IsHistory e ts) (hstate : e.state.Dispatched) : WasDispatched ts := by
  obtain ⟨first, hfirst, -, -, hreserved, -⟩ := h.starts
  obtain ⟨last, hlast, hend, -⟩ := h.ends
  have hunreleased : ∀ t ∈ ts, t.toState ≠ .released := by
    intro t ht hreleased
    have hlast := released_last h.path ht hreleased hlast
    rw [← hend, hlast] at hstate
    simp [LedgerState.Dispatched] at hstate
  refine ⟨?_, hunreleased⟩
  match ts with
  | [] => cases hfirst
  | [t] =>
    cases hfirst
    cases hlast
    rw [← hend, getLast_singleton, hreserved] at hstate
    simp [LedgerState.Dispatched] at hstate
  | t :: u :: rest =>
    cases hfirst
    have hnext := (isChain_cons_cons.mp h.path).1.2.2
    rw [hreserved] at hnext
    have hu : u ∈ first :: u :: rest := by simp
    refine ⟨u, hu, ?_⟩
    cases hstep : u.toState with
    | possiblyDispatched => rfl
    | released => exact absurd hstep (hunreleased u hu)
    | reserved | settled | usageUncertain =>
      rw [hstep] at hnext
      cases hnext

def Limits.dailyCap (limits : Limits) (workspaceID : WorkspaceID) : Int :=
  ((limits.workspaces workspaceID).map (·.dailyBudgetUSD)).getD 0

namespace LedgerDb

variable {limits : Limits} {db db' : LedgerDb} {e q : BudgetEntry} {f : EntryUpdate}
  {day : String} {workspaceID : WorkspaceID}

def journal (db : LedgerDb) (id : String) : List BudgetTransition :=
  db.transitions.filter fun t => t.reservationID == id

theorem journal_append {t : BudgetTransition} (h : db'.transitions = db.transitions ++ [t]) (id : String) :
    db'.journal id = db.journal id ++ if t.reservationID = id then [t] else [] := by
  unfold journal
  rw [h, filter_append]
  congr 1
  by_cases hid : t.reservationID = id <;> simp [hid]

/-- Each reservation has its history in the journal, and nothing else is there. -/
structure Journalled (db : LedgerDb) : Prop where
  history : ∀ e ∈ db.reservations.rows, IsHistory e (db.journal e.id)
  subject : ∀ t ∈ db.transitions, ∃ e ∈ db.reservations.rows, e.id = t.reservationID

theorem Journalled.journal_eq_nil (h : db.Journalled) {id : String}
    (hfresh : db.reservations.find? id = none) : db.journal id = [] := by
  refine filter_eq_nil_iff.mpr fun t ht hid => ?_
  obtain ⟨e, he, heid⟩ := h.subject t ht
  exact Table.find?_eq_none.mp hfresh e he (heid.trans (by simpa using hid))

theorem Journalled.opened (hdb : db.Journalled) (h : Opened limits db db' e) : db'.Journalled := by
  obtain ⟨at_, hjournal⟩ := h.journal
  constructor
  · intro q hq
    rw [journal_append hjournal]
    rw [h.rows, mem_append, mem_singleton] at hq
    obtain hq | rfl := hq
    · have hne : e.id ≠ q.id := fun hid => Table.find?_eq_none.mp h.fresh q hq hid.symm
      rw [if_neg hne, append_nil]
      exact hdb.history q hq
    · rw [hdb.journal_eq_nil h.fresh, if_pos rfl]
      exact ⟨⟨_, rfl, rfl, rfl, rfl, rfl⟩, isChain_singleton _, nodup_singleton _, _, rfl,
        h.state.symm, (counted_of_reserved h.state).symm⟩
  · intro t ht
    rw [hjournal, mem_append, mem_singleton] at ht
    rw [h.rows]
    obtain ht | rfl := ht
    · obtain ⟨q, hq, hid⟩ := hdb.subject t ht
      exact ⟨q, mem_append_left _ hq, hid⟩
    · exact ⟨e, by simp, rfl⟩

theorem Journalled.moved (hdb : db.Journalled) (h : Moved db db' e f) : db'.Journalled := by
  obtain ⟨event, reason, at_, hevent, hjournal⟩ := h.journal
  constructor
  · intro q hq
    rw [journal_append hjournal]
    rw [h.rows] at hq
    obtain ⟨hq, hne⟩ | ⟨r, hr, rfl⟩ := Table.mem_updateRow.mp hq
    · rw [if_neg (Ne.symm hne), append_nil]
      exact hdb.history q hq
    · rw [Table.find?_key h.mem] at hr
      cases hr
      have hid : (f.onID.set e).id = e.id := f.onID.keeps e
      rw [hid, if_pos rfl]
      exact (hdb.history e h.mem).extend (f.keeps_reserved e) hevent rfl h.next rfl rfl
  · intro t ht
    rw [hjournal, mem_append, mem_singleton] at ht
    have hkept : ∀ q ∈ db.reservations.rows, ∃ q' ∈ db'.reservations.rows, q'.id = q.id := by
      intro q hq
      obtain ⟨q', hq', hsnapshot, -⟩ := h.shrinks q hq
      exact ⟨q', hq', congrArg Prod.fst hsnapshot⟩
    obtain ht | rfl := ht
    · obtain ⟨q, hq, hid⟩ := hdb.subject t ht
      obtain ⟨q', hq', hid'⟩ := hkept q hq
      exact ⟨q', hq', hid'.trans hid⟩
    · exact hkept e h.mem

theorem Journalled.change (hdb : db.Journalled) (h : Change limits db db') : db'.Journalled := by
  cases h with
  | opened e h => exact hdb.opened h
  | moved e f h => exact hdb.moved h

/-- `u` reports what is counted in a scope against its cap. -/
def Reports (u : ScopeUsage) (counted cap : Int) : Prop :=
  u.settled + u.activeReserved = counted ∧ u.remaining = max 0 (cap - counted)

/-- The sums the ledger forms of a scope, and the snapshots it gives out. -/
structure Agrees (limits : Limits) (db : LedgerDb) : Prop where
  counted : ∀ day workspaceID,
    db.countedForDay day workspaceID = ((db.entries day workspaceID).map countedAmount).sum
  usage : ∀ day workspaceID maxRequest cap,
    Reports (db.scopeUsage day workspaceID maxRequest cap) (db.countedForDay day workspaceID) cap
  snapshot : ∀ day workspaceID s, db.snapshot limits workspaceID day = .ok s →
    Reports s.globalScope (db.countedForDay day "") limits.globalDailyBudgetUSD ∧
      ∀ u, s.workspaceScope = some u →
        Reports u (db.countedForDay day workspaceID) (limits.dailyCap workspaceID)

theorem cases_add (h : e.checks) : settledCase e + activeCase e = e.countedAmount := by
  have huncertain := settled_of_usageUncertain h
  unfold settledCase activeCase countedAmount
  cases hs : e.state with
  | usageUncertain => simp [huncertain hs]
  | reserved | released | possiblyDispatched | settled => simp

theorem countedForDay_eq (hdb : db.Checked) :
    db.countedForDay day workspaceID = ((db.entries day workspaceID).map countedAmount).sum :=
  Table.total_congr fun e he _ => countedCase_eq (hdb e he)

theorem scopeUsage_reports (hdb : db.Checked) (maxRequest cap : Int) :
    Reports (db.scopeUsage day workspaceID maxRequest cap) (db.countedForDay day workspaceID)
      cap := by
  have hsum : ((db.entries day workspaceID).map settledCase).sum +
      ((db.entries day workspaceID).map activeCase).sum = db.countedForDay day workspaceID := by
    rw [countedForDay_eq hdb, ← sum_map_add]
    exact Table.total_congr fun e he _ => cases_add (hdb e he)
  refine ⟨hsum, ?_⟩
  simp only [scopeUsage]
  split <;> omega

theorem snapshot_reports (hdb : db.Checked) {s : Snapshot}
    (h : db.snapshot limits workspaceID day = .ok s) :
    Reports s.globalScope (db.countedForDay day "") limits.globalDailyBudgetUSD ∧
      ∀ u, s.workspaceScope = some u →
        Reports u (db.countedForDay day workspaceID) (limits.dailyCap workspaceID) := by
  unfold snapshot at h
  obtain ⟨_, -, h⟩ := bind_eq_ok.mp h
  split at h
  · rw [pure_eq_ok] at h
    subst h
    refine ⟨scopeUsage_reports hdb _ _, ?_⟩
    intro u hu
    cases hu
  · unfold Limits.dailyCap
    split at h
    · rename_i w hw
      rw [pure_eq_ok] at h
      subst h
      rw [hw]
      refine ⟨scopeUsage_reports hdb _ _, ?_⟩
      rintro u ⟨⟩
      exact scopeUsage_reports hdb _ _
    · rename_i hw
      rw [pure_eq_ok] at h
      subst h
      rw [hw]
      refine ⟨scopeUsage_reports hdb _ _, ?_⟩
      rintro u ⟨⟩
      exact scopeUsage_reports hdb _ _

theorem Checked.agrees (hdb : db.Checked) (limits : Limits) : db.Agrees limits where
  counted _ _ := countedForDay_eq hdb
  usage _ _ maxRequest cap := scopeUsage_reports hdb maxRequest cap
  snapshot _ _ _ h := snapshot_reports hdb h

end LedgerDb

/-- In every state of every run each reservation has its history in the journal, and the counted
amounts agree. -/
theorem journal_is_history (limits : Limits) (calls : List LedgerCall) : Always (LedgerDb.step limits)
      (fun db => (∀ e ∈ db.reservations.rows, IsHistory e (db.journal e.id)) ∧
        LedgerDb.Agrees limits db) .empty calls := by
  have hrun : Always (LedgerDb.step limits) (fun db => db.Journalled ∧ db.Checked) .empty calls := by
    refine Meets.always (meets_of_forall (A := fun _ => True) fun _ _ => trivial)
      ⟨⟨?_, ?_⟩, ?_⟩ fun db call hdb _ => ?_
    · intro e he
      cases he
    · intro t ht
      cases ht
    · intro e he
      cases he
    · refine LedgerDb.step_invariant (I := fun db => db.Journalled ∧ db.Checked) ?_ db call hdb
      rintro db db' ⟨hjournalled, hchecked⟩ hchange
      exact ⟨hjournalled.change hchange, hchecked.change hchange⟩
  exact hrun.mono fun db hdb => ⟨hdb.1.history, hdb.2.agrees limits⟩

end Aegis
