import Aegis.Budget.Ledger

/-!
# Budget.Moves

What a committed call does to the ledger, said once: it opens one entry, or it moves entries along
the machine of a reservation, one at a time, with a journal row for each.

* `LedgerState.next`   — the machine.
* `Opened`, `Moved`    — one entry opened, one entry moved.
* `Change`             — either of them.
* `exec_changes`       — a call that commits is a sequence of changes; most are one, a repeated
  call is none, and `Recover` has one for each entry it finds.

`step_invariant` is the rule the results over runs use: what every change keeps, every call keeps.
-/

namespace Aegis

open List Table

def LedgerState.next : LedgerState → LedgerState → Bool
  | reserved, released => true
  | reserved, possiblyDispatched => true
  | possiblyDispatched, settled => true
  | possiblyDispatched, usageUncertain => true
  | _, _ => false

theorem EntryUpdate.keeps_identity (f : EntryUpdate) (e : BudgetEntry) :
    (f.set e).identity = e.identity := congrArg (·.2.1) (f.keeps e)

theorem EntryUpdate.keeps_budgetDay (f : EntryUpdate) (e : BudgetEntry) :
    (f.set e).budgetDay = e.budgetDay := congrArg (·.2.2.1) (f.keeps e)

theorem EntryUpdate.keeps_reserved (f : EntryUpdate) (e : BudgetEntry) :
    (f.set e).reserved = e.reserved := congrArg (·.2.2.2.2.2.2.2.2.2.2.2.2.1) (f.keeps e)

theorem EntryUpdate.keeps_rates (f : EntryUpdate) (e : BudgetEntry) :
    (f.set e).rates = e.rates := congrArg (·.2.2.2.2.2.2.2.2.2.2.1) (f.keeps e)

namespace BudgetEntry

variable {e : BudgetEntry}

theorem reserved_pos (h : e.checks) : 0 < e.reserved := by
  simp only [checks, checksSnapshot, Bool.and_eq_true, decide_eq_true_eq] at h
  exact h.1.1.1.2

theorem settled_nonneg (h : e.checks) : 0 ≤ e.settled := by
  simp only [checks, checksSettled, Bool.and_eq_true, decide_eq_true_eq] at h
  exact h.1.1.2.1

theorem settled_le (h : e.checks) : e.settled ≤ e.reserved := by
  have hpos := reserved_pos h
  simp only [checks, checksSettled, Bool.and_eq_true] at h
  have hstate := h.1.1.2.2
  split at hstate
  all_goals
    simp only [beq_iff_eq, decide_eq_true_eq] at hstate
    omega

theorem settled_of_usageUncertain (h : e.checks) (hs : e.state = .usageUncertain) :
    e.settled = e.reserved := by
  simp only [checks, checksSettled, hs, Bool.and_eq_true, beq_iff_eq] at h
  exact h.1.1.2.2

theorem countedAmount_nonneg (h : e.checks) : 0 ≤ e.countedAmount := by
  unfold countedAmount
  split
  · exact le_rfl
  · exact settled_nonneg h
  · exact (reserved_pos h).le

theorem countedAmount_le (h : e.checks) : e.countedAmount ≤ e.reserved := by
  unfold countedAmount
  split
  · exact (reserved_pos h).le
  · exact settled_le h
  · exact le_rfl

theorem counted_of_reserved (h : e.state = .reserved) : e.countedAmount = e.reserved := by
  simp [countedAmount, h]

theorem counted_of_possiblyDispatched (h : e.state = .possiblyDispatched) :
    e.countedAmount = e.reserved := by
  simp [countedAmount, h]

end BudgetEntry

namespace LedgerDb

/-- `Reserve` admits the entry `e`. -/
structure Opened (limits : Limits) (db db' : LedgerDb) (e : BudgetEntry) : Prop where
  fresh : db.reservations.find? e.id = none
  unused : db.lookup e.identity = none
  checks : e.checks = true
  state : e.state = .reserved
  configured : limits.configured = true
  priced : reservation e.rates e.caps = .ok e.reserved
  valid : e.identity.validate = .ok ()
  requestCaps : ∃ w, limits.checkRequestCaps e.identity.workspaceID e.reserved = .ok w ∧
    checkDailyCap .workspace e.reserved (db.countedForDay e.budgetDay e.identity.workspaceID)
      w.dailyBudgetUSD = .ok ()
  dailyCap : checkDailyCap .global e.reserved (db.countedForDay e.budgetDay "")
    limits.globalDailyBudgetUSD = .ok ()
  rows : db'.reservations.rows = db.reservations.rows ++ [e]
  journal : ∃ at_, db'.transitions = db.transitions ++
    [⟨e.id, e.identity.workspaceID, .reserve, none, .reserved, e.reserved, "", e.policyFingerprint, at_⟩]

/-- An update of the entry `e`, with its transition. -/
structure Moved (db db' : LedgerDb) (e : BudgetEntry) (f : EntryUpdate) : Prop where
  mem : e ∈ db.reservations.rows
  next : e.state.next (f.set e).state = true
  checks : (f.set e).checks = true
  counted : (f.set e).countedAmount ≤ e.countedAmount
  priced : (f.set e).state = .settled → settledCost e.rates (f.set e).usage = .ok (f.set e).settled
  rows : db'.reservations = db.reservations.updateRow e.id f.onID
  journal : ∃ event reason at_, event ≠ .reserve ∧ db'.transitions = db.transitions ++
    [⟨e.id, e.identity.workspaceID, event, some e.state, (f.set e).state,
      (f.set e).countedAmount, reason, e.policyFingerprint, at_⟩]

/-- One write of the ledger: a reservation is opened, or one is moved on. -/
inductive Change (limits : Limits) (db db' : LedgerDb) : Prop where
  | opened (e : BudgetEntry) (h : Opened limits db db' e)
  | moved (e : BudgetEntry) (f : EntryUpdate) (h : Moved db db' e f)

abbrev Changes (limits : Limits) : LedgerDb → LedgerDb → Prop :=
  Relation.ReflTransGen (Change limits)

/-- One entry moved by `Recover`, which settles nothing at a usage. -/
def Swept (db db' : LedgerDb) : Prop := ∃ e f, Moved db db' e f ∧ (f.set e).state ≠ .settled

variable {limits : Limits} {db db' : LedgerDb} {e : BudgetEntry} {f : EntryUpdate}
  {operation reason : String} {event : LedgerEvent} {to_ : LedgerState} {amount : Int} {now : Time}
  {identity : DispatchIdentity}

theorem lookup_eq_some (h : db.lookup identity = some e) :
    e ∈ db.reservations.rows ∧ e.identity = identity := by
  refine ⟨mem_of_find?_eq_some h, ?_⟩
  simpa using find?_some h

theorem entry_eq_ok (h : db.entry identity = .ok e) : db.lookup identity = some e := by
  unfold entry at h
  split at h
  · cases h
  · rename_i found hfound
    rw [hfound, Except.ok.inj h]

theorem moved_of_move (hmem : e ∈ db.reservations.rows) (hnext : e.state.next to_)
    (hstate : (f.set e).state = to_) (hamount : (f.set e).countedAmount = amount)
    (hpriced : to_ = .settled → settledCost e.rates (f.set e).usage = .ok (f.set e).settled)
    (hcounted : (f.set e).checks → amount ≤ e.countedAmount) (hevent : event ≠ .reserve)
    (h : db.move operation e f event to_ reason amount now = .ok db') : Moved db db' e f := by
  subst hstate hamount
  obtain ⟨_, hchecks, h⟩ := bind_eq_ok.mp h
  rw [expect_eq_ok] at hchecks
  rw [pure_eq_ok] at h
  subst h
  exact ⟨hmem, hnext, hchecks, hcounted hchecks, hpriced, rfl, event, reason, now, hevent, rfl⟩

section Operations

variable {r : ReserveRequest} {draw : ReserveDraw} {usage : Usage} {cost : Int}
  {errorClass : String} {tie : String → Nat} {report : RecoveryReport}

theorem deny_eq_ok {α : Type} {x : Except DeniedError α} {a : α} (h : deny x = .ok a) : x = .ok a := by
  unfold deny at h
  split at h
  · cases h
  · exact congrArg Except.ok (Except.ok.inj h)

theorem pricing_eq_ok {α : Type} {x : Except PricingError α} {a : α} (h : pricing x = .ok a) :
    x = .ok a := by
  unfold pricing at h
  split at h
  · cases h
  · exact congrArg Except.ok (Except.ok.inj h)

theorem validate_eq_ok (h : r.validate = .ok ()) :
    r.identity.validate = .ok () ∧ reservation r.rates r.caps = .ok r.reserved := by
  simp only [ReserveRequest.validate, bind_eq_ok] at h
  obtain ⟨_, hidentity, _, -, _, -, _, -, _, -, _, -, _, -, _, -, _, -, _, -, _, -, _, -, expected,
    hexpected, h⟩ := h
  refine ⟨hidentity, ?_⟩
  rw [expect_eq_ok, beq_iff_eq] at h
  rw [pricing_eq_ok hexpected, h]

theorem insertEntry_eq_ok (h : db.insertEntry e = .ok db') :
    e.checks ∧ db.lookup e.identity = none ∧ db.reservations.find? e.id = none ∧
      db'.reservations.rows = db.reservations.rows ++ [e] ∧ db'.transitions = db.transitions := by
  obtain ⟨_, hchecks, h⟩ := bind_eq_ok.mp h
  obtain ⟨_, hunused, h⟩ := bind_eq_ok.mp h
  rw [expect_eq_ok] at hchecks hunused
  split at h
  · cases h
  · rename_i reservations hinsert
    rw [pure_eq_ok] at h
    subst h
    obtain ⟨hfresh, hrows⟩ := insert?_eq_some.mp hinsert
    exact ⟨hchecks, by simpa using hunused, hfresh, hrows, rfl⟩

theorem reserve_opens (h : db.reserve limits draw r = .ok (db', e)) :
    e = r.created draw ∧ Opened limits db db' e := by
  obtain ⟨_, hvalid, h⟩ := bind_eq_ok.mp h
  obtain ⟨_, hconfigured, h⟩ := bind_eq_ok.mp h
  obtain ⟨w, hcaps, h⟩ := bind_eq_ok.mp h
  unfold reserveTx at h
  split at h
  · cases h
  · rename_i hunused
    obtain ⟨_, hglobal, h⟩ := bind_eq_ok.mp h
    obtain ⟨_, hworkspace, h⟩ := bind_eq_ok.mp h
    obtain ⟨inserted, hinsert, h⟩ := bind_eq_ok.mp h
    rw [pure_eq_ok] at h
    cases h
    obtain ⟨hchecks, -, hfresh, hrows, hjournal⟩ := insertEntry_eq_ok hinsert
    obtain ⟨hidentity, hpriced⟩ := validate_eq_ok hvalid
    exact ⟨rfl, {
      fresh := hfresh
      unused := hunused
      checks := hchecks
      state := rfl
      configured := by simpa using hconfigured
      priced := hpriced
      valid := hidentity
      requestCaps := ⟨w, deny_eq_ok hcaps, deny_eq_ok hworkspace⟩
      dailyCap := deny_eq_ok hglobal
      rows := hrows
      journal := ⟨draw.now, congrArg (· ++ _) hjournal⟩ }⟩

theorem markPossiblyDispatched_changes (h : db.markPossiblyDispatched now identity = .ok db') :
    ∃ e, db.lookup identity = some e ∧ (e.state = .possiblyDispatched ∧ db' = db ∨
        e.state = .reserved ∧ Moved db db' e (BudgetEntry.dispatch now)) := by
  obtain ⟨_, -, h⟩ := bind_eq_ok.mp h
  obtain ⟨e, hentry, h⟩ := bind_eq_ok.mp h
  have hlookup := entry_eq_ok hentry
  refine ⟨e, hlookup, ?_⟩
  split at h
  · rename_i hstate
    exact .inl ⟨hstate, (pure_eq_ok.mp h).symm⟩
  · rename_i hstate
    refine .inr ⟨hstate, moved_of_move (lookup_eq_some hlookup).1 (by rw [hstate]; rfl) rfl rfl
      (by simp [BudgetEntry.dispatch]) ?_ (by decide) h⟩
    intro _
    exact (BudgetEntry.counted_of_reserved hstate).ge
  · cases h

theorem settleTrusted_changes (h : db.settleTrusted now identity usage cost errorClass = .ok db') :
    ∃ e, db.lookup identity = some e ∧ e.state = .possiblyDispatched ∧
      settledCost e.rates usage = .ok cost ∧ validateUsage usage e.caps [] = .ok () ∧
      Moved db db' e (BudgetEntry.settle now usage cost errorClass) := by
  obtain ⟨_, -, h⟩ := bind_eq_ok.mp h
  obtain ⟨_, -, h⟩ := bind_eq_ok.mp h
  obtain ⟨e, hentry, h⟩ := bind_eq_ok.mp h
  obtain ⟨_, hstate, h⟩ := bind_eq_ok.mp h
  obtain ⟨_, hcost, h⟩ := bind_eq_ok.mp h
  rw [expect_eq_ok, beq_iff_eq] at hstate
  rw [expect_eq_ok, decide_eq_true_eq] at hcost
  have hlookup := entry_eq_ok hentry
  split at h
  · cases h
  · rename_i hvalid
    split at h
    · cases h
    · rename_i expected hexpected
      obtain ⟨_, heq, h⟩ := bind_eq_ok.mp h
      rw [expect_eq_ok, beq_iff_eq] at heq
      have hpriced : settledCost e.rates usage = .ok cost := heq ▸ hexpected
      refine ⟨e, hlookup, hstate, hpriced, hvalid, moved_of_move (lookup_eq_some hlookup).1
        (by rw [hstate]; rfl) rfl rfl (fun _ => hpriced) ?_ (by decide) h⟩
      intro _
      rw [BudgetEntry.counted_of_possiblyDispatched hstate]
      exact hcost

theorem settleUncertain_changes (h : db.settleUncertain now identity reason = .ok db') :
    ∃ e, db.lookup identity = some e ∧ (e.state = .usageUncertain ∧ db' = db ∨
        e.state = .possiblyDispatched ∧ Moved db db' e (BudgetEntry.settleFull now reason)) := by
  obtain ⟨_, -, h⟩ := bind_eq_ok.mp h
  obtain ⟨e, hentry, h⟩ := bind_eq_ok.mp h
  have hlookup := entry_eq_ok hentry
  refine ⟨e, hlookup, ?_⟩
  split at h
  · rename_i hstate
    exact .inl ⟨hstate, (pure_eq_ok.mp h).symm⟩
  · rename_i hstate
    refine .inr ⟨hstate, moved_of_move (lookup_eq_some hlookup).1 (by rw [hstate]; rfl) rfl rfl
      (by simp [BudgetEntry.settleFull]) ?_ (by decide) h⟩
    intro _
    exact (BudgetEntry.counted_of_possiblyDispatched hstate).ge
  · cases h

theorem release_changes (h : db.release now identity reason = .ok db') : ∃ e, db.lookup identity = some e ∧
      (e.state = .released ∧ db' = db ∨
        e.state = .reserved ∧ Moved db db' e (BudgetEntry.giveBack now reason)) := by
  obtain ⟨_, -, h⟩ := bind_eq_ok.mp h
  obtain ⟨e, hentry, h⟩ := bind_eq_ok.mp h
  have hlookup := entry_eq_ok hentry
  refine ⟨e, hlookup, ?_⟩
  split at h
  · rename_i hstate
    exact .inl ⟨hstate, (pure_eq_ok.mp h).symm⟩
  · rename_i hstate
    refine .inr ⟨hstate, moved_of_move (lookup_eq_some hlookup).1 (by rw [hstate]; rfl) rfl rfl
      (by simp [BudgetEntry.giveBack]) ?_ (by decide) h⟩
    intro hchecks
    rw [BudgetEntry.counted_of_reserved hstate]
    exact (BudgetEntry.reserved_pos hchecks).le
  · cases h

theorem recoverEntry_changes (hmem : e ∈ db.reservations.rows) (h : recoverEntry now db e = .ok db') :
    db' = db ∨ ∃ f, Moved db db' e f ∧ (f.set e).state ≠ .settled := by
  unfold recoverEntry at h
  split at h
  · rename_i hstate
    refine .inr ⟨_, moved_of_move hmem (by rw [hstate]; rfl) rfl rfl
      (by simp [BudgetEntry.giveBack]) ?_ (by decide) h,
      by simp [BudgetEntry.giveBack]⟩
    intro hchecks
    rw [BudgetEntry.counted_of_reserved hstate]
    exact (BudgetEntry.reserved_pos hchecks).le
  · rename_i hstate
    refine .inr ⟨_, moved_of_move hmem (by rw [hstate]; rfl) rfl rfl
      (by simp [BudgetEntry.settleFull]) ?_ (by decide) h,
      by simp [BudgetEntry.settleFull]⟩
    intro _
    exact (BudgetEntry.counted_of_possiblyDispatched hstate).ge
  · exact .inl (Except.ok.inj h).symm

theorem recover_loop {es : List BudgetEntry} (hids : (es.map BudgetEntry.id).Nodup)
    (hmem : ∀ e ∈ es, e ∈ db.reservations.rows) (h : es.foldlM (recoverEntry now) db = .ok db') :
    Relation.ReflTransGen Swept db db' := by
  induction es generalizing db with
  | nil =>
    rw [foldlM_nil, pure_eq_ok] at h
    exact h ▸ .refl
  | cons e es ih =>
    rw [foldlM_cons] at h
    obtain ⟨mid, hhead, htail⟩ := bind_eq_ok.mp h
    obtain ⟨hnew, hids⟩ := nodup_cons.mp hids
    obtain ⟨hhere, hmem⟩ := forall_mem_cons.mp hmem
    obtain rfl | ⟨f, hmoved, hunsettled⟩ := recoverEntry_changes hhere hhead
    · exact ih hids hmem htail
    · refine .head ⟨e, f, hmoved, hunsettled⟩ (ih hids ?_ htail)
      intro q hq
      rw [hmoved.rows]
      refine mem_updateRow.mpr (.inl ⟨hmem q hq, ?_⟩)
      intro hid
      exact hnew (hid ▸ mem_map_of_mem hq)

theorem recover_sweeps (h : db.recover now tie = .ok (db', report)) :
    Relation.ReflTransGen Swept db db' := by
  obtain ⟨mid, hloop, h⟩ := bind_eq_ok.mp h
  rw [pure_eq_ok] at h
  cases h
  have hperm : (db.pending tie).Perm (db.reservations.rows.filter isPending) :=
    perm_insertionSort _ _
  refine recover_loop ?_ ?_ hloop
  · rw [(hperm.map BudgetEntry.id).nodup_iff]
    exact db.reservations.nodup.sublist (filter_sublist.map _)
  · intro e he
    exact mem_of_mem_filter (hperm.mem_iff.mp he)

theorem recover_changes (h : db.recover now tie = .ok (db', report)) : Changes limits db db' :=
  (recover_sweeps h).lift id fun _ _ ⟨e, f, hmoved, _⟩ => .moved e f hmoved

end Operations

theorem exec_changes {op : LedgerOp} (h : op.exec limits db = .ok db') : Changes limits db db' := by
  cases op with
  | reserve draw r =>
    obtain ⟨⟨_, e⟩, hreserve, rfl⟩ := map_eq_ok.mp h
    exact .single (.opened e (reserve_opens hreserve).2)
  | markPossiblyDispatched now identity =>
    obtain ⟨e, -, ⟨-, rfl⟩ | ⟨-, hmoved⟩⟩ := markPossiblyDispatched_changes h
    · exact .refl
    · exact .single (.moved e _ hmoved)
  | settleTrusted now identity usage cost errorClass =>
    obtain ⟨e, -, -, -, -, hmoved⟩ := settleTrusted_changes h
    exact .single (.moved e _ hmoved)
  | settleUncertain now identity reason =>
    obtain ⟨e, -, ⟨-, rfl⟩ | ⟨-, hmoved⟩⟩ := settleUncertain_changes h
    · exact .refl
    · exact .single (.moved e _ hmoved)
  | release now identity reason =>
    obtain ⟨e, -, ⟨-, rfl⟩ | ⟨-, hmoved⟩⟩ := release_changes h
    · exact .refl
    · exact .single (.moved e _ hmoved)
  | recover now tie =>
    obtain ⟨⟨_, report⟩, hrecover, rfl⟩ := map_eq_ok.mp h
    exact recover_changes hrecover

variable (limits db) in
/-- What one call does to the tables is a sequence of the writes of `Change`. -/
theorem step_changes (call : LedgerCall) :
    Changes limits db (db.step limits call) := by
  unfold step
  split
  · exact .refl
  · cases h : call.op.exec limits db with
    | error err => exact .refl
    | ok db' => exact exec_changes h

def Checked (db : LedgerDb) : Prop := ∀ e ∈ db.reservations.rows, e.checks = true

theorem Checked.moved (hdb : db.Checked) (h : Moved db db' e f) : db'.Checked := by
  intro q hq
  rw [h.rows] at hq
  obtain ⟨hq, -⟩ | ⟨r, hr, rfl⟩ := mem_updateRow.mp hq
  · exact hdb q hq
  · rw [find?_key h.mem] at hr
    cases hr
    exact h.checks

theorem Checked.change (hdb : db.Checked) (h : Change limits db db') : db'.Checked := by
  cases h with
  | opened e h =>
    intro q hq
    rw [h.rows, mem_append, mem_singleton] at hq
    obtain hq | rfl := hq
    · exact hdb q hq
    · exact h.checks
  | moved e f h => exact hdb.moved h

theorem changes_invariant {I : LedgerDb → Prop} (hI : ∀ db db', I db → Change limits db db' → I db')
    (h : Changes limits db db') (hdb : I db) : I db' := by
  induction h with
  | refl => exact hdb
  | tail _ hlast ih => exact hI _ _ ih hlast

theorem step_invariant {I : LedgerDb → Prop} (hI : ∀ db db', I db → Change limits db db' → I db')
    (db : LedgerDb) (call : LedgerCall) (hdb : I db) : I (db.step limits call) :=
  changes_invariant hI (step_changes limits db call) hdb

end LedgerDb

end Aegis
