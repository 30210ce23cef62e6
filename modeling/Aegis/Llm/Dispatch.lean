import Aegis.Budget.Journal
import Aegis.Lib.Pool
import Aegis.Llm.Specs

/-!
# Llm.Dispatch

Any number of `dispatchAdmitted` calls over one ledger, from any number of processes, with `Recover`
passes between any two of their operations. A ledger transaction may fail before or after its
commit, and a caller may crash between any two operations.

* `ledgerWorld`   — the system.
* `Stage`         — how far a call is with its identity: idle, holding a reservation, marked.
* `stages`        — the protocol of a call.
* `exec_accounts` — what the protocol allows keeps the invariant `Accounts`, which ties the stages
  to the rows of the ledger.
-/

namespace Aegis

open List Option LedgerDb

/-! ## The system -/

inductive Fault where
  | none
  | busy (committed : Bool)
  | down (committed : Bool)

namespace Fault

variable {α : Type}

/-- One attempt at the transaction that gives `tx`. -/
def attempt (fault : Fault) (db : LedgerDb) (tx : Except LedgerError (LedgerDb × α)) :
    LedgerDb × Attempt α :=
  let after := match tx with
    | .ok (db', _) => db'
    | .error _ => db
  match fault with
  | none => (after, .done (tx.map Prod.snd))
  | busy committed => (if committed then after else db, .busy)
  | down committed => (if committed then after else db, .down)

variable {fault : Fault} {db : LedgerDb} {tx : Except LedgerError (LedgerDb × α)}

variable (fault db tx) in
theorem attempt_fst :
    (fault.attempt db tx).1 = db ∨ ∃ a, tx = .ok ((fault.attempt db tx).1, a) := by
  unfold attempt
  cases tx with
  | error e => cases fault <;> simp
  | ok p =>
    cases fault with
    | none => exact .inr ⟨p.2, rfl⟩
    | busy committed | down committed =>
      cases committed
      · exact .inl rfl
      · exact .inr ⟨p.2, rfl⟩

theorem attempt_done {a : α} (h : (fault.attempt db tx).2 = .done (.ok a)) :
    tx = .ok ((fault.attempt db tx).1, a) := by
  cases fault with
  | none =>
    cases tx with
    | error e => cases h
    | ok p =>
      cases h
      rfl
  | busy committed | down committed => cases h

end Fault

namespace LedgerTx

def exec (now : Time) (db : LedgerDb) : LedgerTx → Except LedgerError LedgerDb
  | markPossiblyDispatched identity => db.markPossiblyDispatched now identity
  | settleTrusted identity usage cost errorClass =>
    db.settleTrusted now identity usage cost errorClass
  | settleUncertain identity reason => db.settleUncertain now identity reason
  | release identity reason => db.release now identity reason

end LedgerTx

/-- What the world chooses when a process performs an operation: the caps of its ledger, what
`Reserve` draws (its clock is the one of every transaction), the fate of a transaction, and the
answer to an operation that is not one. -/
structure LedgerTurn where
  limits : Limits
  draw : ReserveDraw
  fault : Fault
  answer : (o : LLMOp) → o.Answer

/-- A `Recover` pass, and whether it is committed. -/
structure RecoverPass where
  now : Time
  tie : String → Nat
  committed : Bool

/-- The arguments of a `dispatchAdmitted` call, with the process it runs in. -/
structure AdmittedCall where
  codec : Codec
  cfg : LLMConfig
  ctx : CallContext
  prepared : PreparedCall
  ordinal : Int

namespace Llm

open Prog

def execOp (turn : LedgerTurn) : (o : LLMOp) → LedgerDb → LedgerDb × o.Answer
  | .reserve r, db => turn.fault.attempt db (db.reserve turn.limits turn.draw r)
  | .ledger tx, db =>
    turn.fault.attempt db ((tx.exec turn.draw.now db).map fun db => (db, ()))
  | o, db => (db, turn.answer o)

def recoverPass (pass : RecoverPass) (db : LedgerDb) : LedgerDb :=
  if pass.committed then
    match db.recover pass.now pass.tie with
    | .ok (db, _) => db
    | .error _ => db
  else db

def ledgerWorld : Aegis.World LedgerDb LLMOp LLMOp.Answer (Except LLMError CompletionResponse) LedgerTurn
    RecoverPass AdmittedCall where
  exec := execOp
  env := recoverPass
  body call := dispatchAdmitted call.codec call.cfg call.ctx call.prepared call.ordinal

abbrev DispatchPool : Type :=
  Pool LedgerDb LLMOp LLMOp.Answer (Except LLMError CompletionResponse)

abbrev DispatchEvent : Type := PoolEvent LedgerTurn RecoverPass AdmittedCall

inductive Stage where
  | idle
  | holding (identity : DispatchIdentity)
  | marked (identity : DispatchIdentity) (answers : List ProviderOutcome)

namespace Stage

def identity : Stage → Option DispatchIdentity
  | idle => none
  | holding identity => some identity
  | marked identity _ => some identity

def heard (r : ProviderOutcome) : Stage → Stage
  | marked identity answers => marked identity (answers ++ [r])
  | stage => stage

def next (stage : Stage) : (o : LLMOp) → o.Answer → Stage
  | .reserve r, .done (.ok _) => .holding r.identity
  | .ledger (.markPossiblyDispatched identity), .done (.ok _) => .marked identity []
  | .complete _ _ _, r => stage.heard r
  | _, _ => stage

end Stage

def Reported (resp : CompletionResponse) (usage : Usage) : Prop :=
  (usageFromResponse (some resp)).trustworthy = true ∧ (usageFromResponse (some resp)).usage = usage

/-- One reservation for a call; a marker only for the reservation it holds; the provider only under
the marked identity; and a trusted settlement only at a usage the provider has reported. -/
def Stage.Allowed (stage : Stage) : LLMOp → Prop
  | .reserve _ => stage = .idle
  | .ledger (.markPossiblyDispatched identity) => stage = .holding identity
  | .ledger (.settleTrusted identity usage _ _) => ∃ answers, stage = .marked identity answers ∧
      ∃ resp, .response resp ∈ answers ∧ Reported resp usage
  | .complete _ dispatch _ => ∃ identity answers, stage = .marked identity answers ∧
      dispatch = some identity
  | _ => True

def stages : Protocol LLMOp.Answer Stage where
  allowed := Stage.Allowed
  answers _ _ _ := True
  next := Stage.next

end Llm

namespace LedgerDb

variable {limits : Limits} {db db' db'' : LedgerDb} {e q : BudgetEntry} {f : EntryUpdate}
  {identity i : DispatchIdentity}

theorem lookup_opened (h : Opened limits db db' e) (hq : db.lookup i = some q) : db'.lookup i = some q := by
  unfold lookup at hq ⊢
  rw [h.rows, find?_append, hq]
  rfl

theorem lookup_opened_self (h : Opened limits db db' e) : db'.lookup e.identity = some e := by
  have hunused := h.unused
  unfold lookup at hunused ⊢
  rw [h.rows, find?_append, hunused]
  simp

theorem lookup_moved (h : Moved db db' e f) :
    db'.lookup i = (db.lookup i).map fun q => if q.id = e.id then f.set q else q := by
  have hset : ∀ q, setIf (fun q => decide (q.id = e.id)) f.onID.set q =
      if q.id = e.id then f.set q else q := by
    intro q
    by_cases hid : q.id = e.id <;> simp [setIf, hid, EntryUpdate.onID]
  have hkeeps : ∀ q, (setIf (fun q => decide (q.id = e.id)) f.onID.set q).identity = q.identity := by
    intro q
    rw [hset]
    split
    · exact f.keeps_identity q
    · rfl
  unfold lookup
  rw [h.rows, Table.updateRow, Table.update_rows, find?_map]
  have hsame : ((fun q : BudgetEntry => q.identity == i) ∘
      setIf (fun q => decide (q.id = e.id)) f.onID.set) = fun q => q.identity == i := by
    funext q
    simp only [Function.comp_apply, hkeeps]
  rw [hsame]
  congr 1
  funext q
  exact hset q

def Carries (db db' : LedgerDb) (i : DispatchIdentity) : Prop :=
  ∀ q, db.lookup i = some q → ∃ q', db'.lookup i = some q' ∧
    (q.state.Dispatched → q'.state.Dispatched) ∧ (q'.state = .settled → q' = q)

variable (db i) in
theorem Carries.refl : db.Carries db i :=
  fun q hq => ⟨q, hq, id, fun _ => rfl⟩

theorem Carries.trans (h : db.Carries db' i) (h' : db'.Carries db'' i) : db.Carries db'' i := by
  intro q hq
  obtain ⟨q₁, hq₁, hstate₁, hsettled₁⟩ := h q hq
  obtain ⟨q₂, hq₂, hstate₂, hsettled₂⟩ := h' q₁ hq₁
  refine ⟨q₂, hq₂, hstate₂ ∘ hstate₁, fun hsettled => ?_⟩
  have hsame := hsettled₂ hsettled
  rw [hsame] at hsettled ⊢
  exact hsettled₁ hsettled

theorem Moved.carries (h : Moved db db' e f)
    (hother : (f.set e).state ≠ .settled ∨ e.identity ≠ i) : db.Carries db' i := by
  intro q hq
  rw [lookup_moved h, hq]
  by_cases hid : q.id = e.id
  · have hqe : q = e := Table.eq_of_key (lookup_eq_some hq).1 h.mem hid
    subst hqe
    refine ⟨f.set q, by simp, fun hstate => hstate.next h.next, fun hsettled => ?_⟩
    exact absurd (lookup_eq_some hq).2 (hother.resolve_left fun hne => hne hsettled)
  · exact ⟨q, by simp [hid], id, fun _ => rfl⟩

theorem Swept.carries (h : Relation.ReflTransGen Swept db db') (i : DispatchIdentity) :
    db.Carries db' i := by
  induction h with
  | refl => exact .refl db i
  | tail _ hlast ih =>
    obtain ⟨e, f, hmoved, hunsettled⟩ := hlast
    exact ih.trans (hmoved.carries (.inl hunsettled))

theorem Opened.carries (h : Opened limits db db' e) (i : DispatchIdentity) : db.Carries db' i :=
  fun q hq => ⟨q, lookup_opened h hq, id, fun _ => rfl⟩

theorem Moved.lookup (h : Moved db db' e f) (he : db.lookup i = some e) :
    db'.lookup i = some (f.set e) := by
  rw [lookup_moved h, he]
  simp

end LedgerDb

namespace LedgerTx

variable {tx : LedgerTx} {limits : Limits} {db db' : LedgerDb} {now : Time}
  {identity i : DispatchIdentity} {usage : Usage} {cost : Int} {errorClass : String}

theorem exec_changes (h : tx.exec now db = .ok db') (limits : Limits) : Changes limits db db' := by
  cases tx with
  | markPossiblyDispatched identity =>
    exact exec_changes
      (show (LedgerOp.markPossiblyDispatched now identity).exec limits db = .ok db' from h)
  | settleTrusted identity usage cost errorClass =>
    exact exec_changes
      (show (LedgerOp.settleTrusted now identity usage cost errorClass).exec limits db = .ok db' from h)
  | settleUncertain identity reason =>
    exact exec_changes
      (show (LedgerOp.settleUncertain now identity reason).exec limits db = .ok db' from h)
  | release identity reason =>
    exact exec_changes
      (show (LedgerOp.release now identity reason).exec limits db = .ok db' from h)

theorem exec_carries (h : tx.exec now db = .ok db')
    (hother : ∀ usage cost errorClass, tx ≠ .settleTrusted i usage cost errorClass) :
    db.Carries db' i := by
  cases tx with
  | markPossiblyDispatched identity =>
    obtain ⟨e, -, ⟨-, rfl⟩ | ⟨-, hmoved⟩⟩ := markPossiblyDispatched_changes h
    · exact .refl _ i
    · exact hmoved.carries (.inl (by simp [BudgetEntry.dispatch]))
  | settleTrusted identity usage cost errorClass =>
    obtain ⟨e, he, -, -, -, hmoved⟩ := settleTrusted_changes h
    refine hmoved.carries (.inr ?_)
    rw [(lookup_eq_some he).2]
    rintro rfl
    exact hother usage cost errorClass rfl
  | settleUncertain identity reason =>
    obtain ⟨e, -, ⟨-, rfl⟩ | ⟨-, hmoved⟩⟩ := settleUncertain_changes h
    · exact .refl _ i
    · exact hmoved.carries (.inl (by simp [BudgetEntry.settleFull]))
  | release identity reason =>
    obtain ⟨e, -, ⟨-, rfl⟩ | ⟨-, hmoved⟩⟩ := release_changes h
    · exact .refl _ i
    · exact hmoved.carries (.inl (by simp [BudgetEntry.giveBack]))

theorem exec_mark (h : exec now db (.markPossiblyDispatched identity) = .ok db') :
    ∃ e, db'.lookup identity = some e ∧ e.state = .possiblyDispatched := by
  obtain ⟨e, he, ⟨hstate, rfl⟩ | ⟨-, hmoved⟩⟩ := markPossiblyDispatched_changes h
  · exact ⟨e, he, hstate⟩
  · exact ⟨_, hmoved.lookup he, rfl⟩

theorem exec_settle (h : exec now db (.settleTrusted identity usage cost errorClass) = .ok db') :
    ∃ e, db'.lookup identity = some e ∧ e.state = .settled ∧ e.usage = usage := by
  obtain ⟨e, he, -, -, -, hmoved⟩ := settleTrusted_changes h
  exact ⟨_, hmoved.lookup he, rfl, rfl⟩

end LedgerTx

namespace Llm

/-- Of an identity that is marked: its entry is dispatched, and where it is settled, at a usage the
provider has reported. -/
def MarkedIn (db : LedgerDb) (i : DispatchIdentity) (answers : List ProviderOutcome) : Prop :=
  ∃ e, db.lookup i = some e ∧ e.state.Dispatched ∧
    (e.state = .settled → ∃ resp, .response resp ∈ answers ∧ Reported resp e.usage)

/-- Each dispatch under way has its own reservation, marked once it has been answered. -/
structure Staged (db : LedgerDb) (stage : Nat → Stage) : Prop where
  held : ∀ n i, (stage n).identity = some i → (db.lookup i).isSome
  marked : ∀ n i answers, stage n = .marked i answers → MarkedIn db i answers
  apart : ∀ m n i, (stage m).identity = some i → (stage n).identity = some i → m = n

/-- The entries of the ledger are checked, journalled and priced. -/
structure Sane (db : LedgerDb) : Prop where
  checked : db.Checked
  journalled : db.Journalled
  priced : ∀ e ∈ db.reservations.rows, e.state = .settled → settledCost e.rates e.usage = .ok e.settled

def Accounts (db : LedgerDb) (stage : Nat → Stage) : Prop := Sane db ∧ Staged db stage

variable {limits : Limits} {db db' : LedgerDb} {stage : Nat → Stage} {n : Nat}
  {i : DispatchIdentity} {answers : List ProviderOutcome}

theorem Sane.opened {e : BudgetEntry} (h : Sane db) (hopened : Opened limits db db' e) :
    Sane db' := by
  refine ⟨h.checked.change (.opened e hopened), h.journalled.opened hopened, fun q hq hsettled => ?_⟩
  rw [hopened.rows, mem_append, mem_singleton] at hq
  obtain hq | rfl := hq
  · exact h.priced q hq hsettled
  · rw [hopened.state] at hsettled
    cases hsettled

theorem Sane.moved {e : BudgetEntry} {f : EntryUpdate} (h : Sane db)
    (hmoved : Moved db db' e f) : Sane db' := by
  refine ⟨h.checked.moved hmoved, h.journalled.moved hmoved, fun q hq hsettled => ?_⟩
  rw [hmoved.rows] at hq
  obtain ⟨hq, -⟩ | ⟨r, hr, rfl⟩ := Table.mem_updateRow.mp hq
  · exact h.priced q hq hsettled
  · rw [Table.find?_key hmoved.mem] at hr
    cases hr
    have hrates : (f.set e).rates = e.rates := f.keeps_rates e
    show settledCost (f.set e).rates _ = _
    rw [hrates]
    exact hmoved.priced hsettled

theorem Sane.change (h : Sane db) (hchange : Change limits db db') : Sane db' := by
  cases hchange with
  | opened e hopened => exact h.opened hopened
  | moved e f hmoved => exact h.moved hmoved

theorem Sane.changes (h : Sane db) (hchanges : Changes limits db db') : Sane db' :=
  changes_invariant (fun _ _ h hchange => h.change hchange) hchanges h

theorem MarkedIn.carries (h : MarkedIn db i answers) (hcarries : db.Carries db' i) :
    MarkedIn db' i answers := by
  obtain ⟨e, he, hstate, hsettled⟩ := h
  obtain ⟨e', he', hdispatched, hsame⟩ := hcarries e he
  refine ⟨e', he', hdispatched hstate, fun hs => ?_⟩
  have := hsame hs
  subst this
  exact hsettled hs

theorem isSome_carries (h : (db.lookup i).isSome) (hcarries : db.Carries db' i) :
    (db'.lookup i).isSome := by
  obtain ⟨e, he⟩ := isSome_iff_exists.mp h
  obtain ⟨e', he', -⟩ := hcarries e he
  exact isSome_iff_exists.mpr ⟨e', he'⟩

theorem Staged.carries (h : Staged db stage) (hcarries : ∀ i, db.Carries db' i) : Staged db' stage where
  held n i hi := isSome_carries (h.held n i hi) (hcarries i)
  marked n i answers hn := (h.marked n i answers hn).carries (hcarries i)
  apart := h.apart

theorem Staged.update (h : Staged db stage) {new : Stage} (hown : ∀ i, new.identity = some i →
      (stage n).identity = some i ∨ ∀ m, (stage m).identity ≠ some i)
    (hheld : ∀ i, new.identity = some i → (db.lookup i).isSome)
    (hmarked : ∀ i answers, new = .marked i answers → MarkedIn db i answers) :
    Staged db (Function.update stage n new) := by
  have hcases : ∀ m i, (Function.update stage n new m).identity = some i →
      m = n ∧ new.identity = some i ∨ m ≠ n ∧ (stage m).identity = some i := by
    intro m i hm
    by_cases hmn : m = n
    · subst hmn
      rw [Function.update_self] at hm
      exact .inl ⟨rfl, hm⟩
    · rw [Function.update_of_ne hmn] at hm
      exact .inr ⟨hmn, hm⟩
  have hother : ∀ m i, m ≠ n → (stage m).identity = some i → new.identity ≠ some i := by
    intro m i hmn hm hnew
    obtain hsame | hfree := hown i hnew
    · exact hmn (h.apart m n i hm hsame)
    · exact hfree m hm
  constructor
  · intro m i hm
    obtain ⟨-, hnew⟩ | ⟨-, hm⟩ := hcases m i hm
    · exact hheld i hnew
    · exact h.held m i hm
  · intro m i answers hm
    by_cases hmn : m = n
    · subst hmn
      rw [Function.update_self] at hm
      exact hmarked i answers hm
    · rw [Function.update_of_ne hmn] at hm
      exact h.marked m i answers hm
  · intro m k i hm hk
    obtain ⟨hmn, hnew⟩ | ⟨hmn, hm⟩ := hcases m i hm
    · obtain ⟨hkn, -⟩ | ⟨hkn, hk⟩ := hcases k i hk
      · rw [hmn, hkn]
      · exact absurd hnew (hother k i hkn hk)
    · obtain ⟨hkn, hnew⟩ | ⟨hkn, hk⟩ := hcases k i hk
      · exact absurd hnew (hother m i hmn hm)
      · exact h.apart m k i hm hk

theorem Staged.settled (h : Staged db stage) (hn : stage n = .marked i answers)
    (hcarries : ∀ j, j ≠ i → db.Carries db' j) (hmarked : MarkedIn db' i answers) :
    Staged db' stage where
  held m j hm := by
    by_cases hj : j = i
    · subst hj
      obtain ⟨e, he, -⟩ := hmarked
      exact isSome_iff_exists.mpr ⟨e, he⟩
    · exact isSome_carries (h.held m j hm) (hcarries j hj)
  marked m j answers' hm := by
    by_cases hj : j = i
    · subst hj
      have hmn : m = n := h.apart m n j (by rw [hm]; rfl) (by rw [hn]; rfl)
      rw [hmn, hn] at hm
      cases hm
      exact hmarked
    · exact (h.marked m j answers' hm).carries (hcarries j hj)
  apart := h.apart

variable {turn : LedgerTurn} {r : ReserveRequest} {tx : LedgerTx}

theorem reserve_keeps (h : Accounts db stage) : Accounts (execOp turn (.reserve r) db).1 stage := by
  show Accounts (turn.fault.attempt db (db.reserve turn.limits turn.draw r)).1 stage
  obtain hsame | ⟨e, hreserve⟩ := Fault.attempt_fst turn.fault db
    (db.reserve turn.limits turn.draw r)
  · rw [hsame]
    exact h
  · have hopened := (reserve_opens hreserve).2
    exact ⟨h.1.change (.opened e hopened), h.2.carries hopened.carries⟩

theorem exec_of_map {p : LedgerDb × Unit}
    (h : (tx.exec turn.draw.now db).map (fun db => (db, ())) = .ok p) :
    tx.exec turn.draw.now db = .ok p.1 := by
  cases hexec : tx.exec turn.draw.now db with
  | error e =>
    rw [hexec] at h
    cases h
  | ok db' =>
    rw [hexec] at h
    cases h
    rfl

theorem execOp_ledger (turn : LedgerTurn) (tx : LedgerTx) (db : LedgerDb) :
    (execOp turn (.ledger tx) db).1 = db ∨
      tx.exec turn.draw.now db = .ok (execOp turn (.ledger tx) db).1 := by
  obtain hsame | ⟨e, hexec⟩ := Fault.attempt_fst turn.fault db
    ((tx.exec turn.draw.now db).map fun db => (db, ()))
  · exact .inl hsame
  · exact .inr (exec_of_map hexec)

theorem execOp_ledger_done (h : (execOp turn (.ledger tx) db).2 = .done (.ok ())) :
    tx.exec turn.draw.now db = .ok (execOp turn (.ledger tx) db).1 :=
  exec_of_map (Fault.attempt_done h)

theorem tx_keeps (h : Accounts db stage)
    (hother : ∀ i usage cost errorClass, tx ≠ .settleTrusted i usage cost errorClass) :
    Accounts (execOp turn (.ledger tx) db).1 stage := by
  obtain hsame | hexec := execOp_ledger turn tx db
  · rw [hsame]
    exact h
  · exact ⟨h.1.changes (tx.exec_changes hexec turn.limits),
      h.2.carries fun i => tx.exec_carries hexec (hother i)⟩

theorem reserve_accounts (h : Accounts db stage) (n : Nat) :
    Accounts (execOp turn (.reserve r) db).1 (Function.update stage n
      ((stage n).next (.reserve r) (execOp turn (.reserve r) db).2)) := by
  have hkeeps : Accounts (execOp turn (.reserve r) db).1 stage := reserve_keeps h
  cases hanswer : (execOp turn (.reserve r) db).2 with
  | done result =>
    cases result with
    | error e => simpa [Stage.next] using hkeeps
    | ok e =>
      have hreserve : db.reserve turn.limits turn.draw r = .ok (_, e) := Fault.attempt_done hanswer
      obtain ⟨rfl, hopened⟩ := reserve_opens hreserve
      refine ⟨hkeeps.1, hkeeps.2.update (n := n) ?_ ?_ ?_⟩
      · rintro _ ⟨⟩
        refine .inr fun m hm => ?_
        have hheld := h.2.held m _ hm
        have hunused := hopened.unused
        simp only [ReserveRequest.created] at hunused
        rw [hunused] at hheld
        cases hheld
      · rintro _ ⟨⟩
        have hrow := lookup_opened_self hopened
        exact isSome_iff_exists.mpr ⟨_, hrow⟩
      · rintro i answers ⟨⟩
  | busy | down => simpa [Stage.next] using hkeeps

theorem mark_accounts (h : Accounts db stage) (hn : stage n = .holding i) :
    Accounts (execOp turn (.ledger (.markPossiblyDispatched i)) db).1 (Function.update stage n
      ((stage n).next _ (execOp turn (.ledger (.markPossiblyDispatched i)) db).2)) := by
  have hkeeps : Accounts (execOp turn (.ledger (.markPossiblyDispatched i)) db).1 stage :=
    tx_keeps h nofun
  cases hanswer : (execOp turn (.ledger (.markPossiblyDispatched i)) db).2 with
  | done result =>
    cases result with
    | error e => simpa [Stage.next] using hkeeps
    | ok _ =>
      obtain ⟨e, he, hstate⟩ := LedgerTx.exec_mark (execOp_ledger_done hanswer)
      refine ⟨hkeeps.1, hkeeps.2.update (n := n) ?_ ?_ ?_⟩
      · rintro _ ⟨⟩
        exact .inl (by rw [hn]; rfl)
      · rintro _ ⟨⟩
        exact isSome_iff_exists.mpr ⟨e, he⟩
      · rintro _ _ ⟨⟩
        refine ⟨e, he, .inl hstate, fun hsettled => ?_⟩
        rw [hstate] at hsettled
        cases hsettled
  | busy | down => simpa [Stage.next] using hkeeps

theorem settle_accounts {usage : Usage} {cost : Int} {errorClass : String} (h : Accounts db stage)
    (hallowed : (stage n).Allowed (.ledger (.settleTrusted i usage cost errorClass))) :
    Accounts (execOp turn (.ledger (.settleTrusted i usage cost errorClass)) db).1 stage := by
  obtain ⟨answers, hn, resp, hresp, hreported⟩ := hallowed
  obtain hsame | hexec := execOp_ledger turn (.settleTrusted i usage cost errorClass) db
  · rw [hsame]
    exact h
  · refine ⟨h.1.changes (LedgerTx.exec_changes hexec turn.limits), h.2.settled hn ?_ ?_⟩
    · intro j hj
      refine LedgerTx.exec_carries hexec fun _ _ _ htx => ?_
      cases htx
      exact hj rfl
    · obtain ⟨e, he, hstate, husage⟩ := LedgerTx.exec_settle hexec
      exact ⟨e, he, .inr (.inl hstate), fun _ => ⟨resp, hresp, husage ▸ hreported⟩⟩

theorem heard_accounts (h : Accounts db stage) (hn : stage n = .marked i answers)
    (r : ProviderOutcome) : Accounts db (Function.update stage n ((stage n).heard r)) := by
  rw [hn]
  refine ⟨h.1, h.2.update (n := n) ?_ ?_ ?_⟩
  · rintro _ ⟨⟩
    exact .inl (by rw [hn]; rfl)
  · rintro _ ⟨⟩
    exact h.2.held n i (by rw [hn]; rfl)
  · rintro _ _ ⟨⟩
    obtain ⟨e, he, hstate, hsettled⟩ := h.2.marked n i answers hn
    refine ⟨e, he, hstate, fun hs => ?_⟩
    obtain ⟨resp, hresp, hreported⟩ := hsettled hs
    exact ⟨resp, mem_append_left _ hresp, hreported⟩

theorem Swept.sane (h : Relation.ReflTransGen Swept db db') (hdb : Sane db) : Sane db' := by
  induction h with
  | refl => exact hdb
  | tail _ hlast ih =>
    obtain ⟨e, f, hmoved, -⟩ := hlast
    exact ih.moved hmoved

theorem recover_accounts (h : Accounts db stage) (pass : RecoverPass) :
    Accounts (recoverPass pass db) stage := by
  unfold recoverPass
  split
  · split
    · rename_i hrecover
      have hswept := recover_sweeps hrecover
      exact ⟨Swept.sane hswept h.1, h.2.carries (Swept.carries hswept)⟩
    · exact h
  · exact h

theorem exec_accounts (h : Accounts db stage) {o : LLMOp} (hallowed : (stage n).Allowed o) :
    Accounts (execOp turn o db).1
      (Function.update stage n ((stage n).next o (execOp turn o db).2)) := by
  cases o with
  | reserve r => exact reserve_accounts h n
  | ledger tx =>
    cases tx with
    | markPossiblyDispatched identity => exact mark_accounts h hallowed
    | settleTrusted identity usage cost errorClass =>
      simpa [Stage.next] using settle_accounts h hallowed
    | settleUncertain identity reason =>
      have hkeeps : Accounts (execOp turn (.ledger (.settleUncertain identity reason)) db).1 stage :=
        tx_keeps h nofun
      simpa [Stage.next] using hkeeps
    | release identity reason =>
      have hkeeps : Accounts (execOp turn (.ledger (.release identity reason)) db).1 stage :=
        tx_keeps h nofun
      simpa [Stage.next] using hkeeps
  | complete route dispatch request =>
    obtain ⟨identity, answers, hn, -⟩ := hallowed
    exact heard_accounts h hn _
  | _ => simpa [Stage.next, execOp] using h

end Llm

end Aegis
