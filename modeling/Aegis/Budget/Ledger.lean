import Aegis.Budget.Pricing
import Aegis.Lib.Table
import Aegis.Scheduler.Clock

/-!
# Budget.Ledger

The budget ledger of `store/llm_budget.go`: the reservations of physical LLM calls, their journal,
and the caps they are admitted against.

Every operation is one immediate transaction, so it is a function from the database to
`Except LedgerError`: an error is a rollback. The `CHECK` constraints of the two tables are
`BudgetEntry.checks`, and the columns that `trg_llm_budget_reservations_immutable_identity`
protects are `BudgetEntry.snapshot`, which no clause touches.
-/

namespace Aegis

/-- `WorkspaceBudget`; `loadWorkspaceBudgets` admits positive amounts only. -/
structure WorkspaceBudget where
  maxRequestUSD : Int
  dailyBudgetUSD : Int
  request_pos : 0 < maxRequestUSD
  daily_pos : 0 < dailyBudgetUSD

/-- `Limits`; an amount is a 64-bit integer. -/
structure Limits where
  globalMaxRequestUSD : Int
  globalDailyBudgetUSD : Int
  workspaces : WorkspaceID → Option WorkspaceBudget
  daily_le : globalDailyBudgetUSD ≤ maxUSDNanos

inductive BudgetScope where
  | global | workspace | workflow

inductive LimitKind where
  | request | daily | envelope

structure DeniedError where
  scope : BudgetScope
  limit : LimitKind
  requested : Int
  remaining : Int
  reason : String
  code : String

namespace Limits

def configured (l : Limits) : Bool := 0 < l.globalMaxRequestUSD && 0 < l.globalDailyBudgetUSD

def checkRequestCaps (l : Limits) (workspaceID : WorkspaceID) (reserved : Int) :
    Except DeniedError WorkspaceBudget :=
  match l.workspaces workspaceID with
  | none => .error ⟨.workspace, .request, reserved, 0, "workspace has no configured LLM budget", ""⟩
  | some workspace =>
    if l.globalMaxRequestUSD < reserved then
      .error ⟨.global, .request, reserved, l.globalMaxRequestUSD, "", ""⟩
    else if workspace.maxRequestUSD < reserved then
      .error ⟨.workspace, .request, reserved, workspace.maxRequestUSD, "", ""⟩
    else .ok workspace

end Limits

def checkDailyCap (scope : BudgetScope) (reserved counted cap : Int) : Except DeniedError Unit :=
  let remaining := if cap - counted < 0 then 0 else cap - counted
  if remaining < reserved then .error ⟨scope, .daily, reserved, remaining, "", ""⟩ else .ok ()

/-! ## Rows -/

inductive LedgerState where
  | reserved | released | possiblyDispatched | settled | usageUncertain
deriving DecidableEq

def LedgerState.text : LedgerState → String
  | reserved => "reserved"
  | released => "released"
  | possiblyDispatched => "possibly_dispatched"
  | settled => "settled"
  | usageUncertain => "usage_uncertain"

/-- `RouteSlot`; another text fails its check. -/
inductive RouteSlot where
  | primary | fallback
  | other (text : String)
deriving DecidableEq

structure DispatchIdentity where
  workspaceID : WorkspaceID
  operationKind : String
  operationID : String
  logicalAttempt : Int
  physicalOrdinal : Int
deriving DecidableEq

def ordinalPrimary : Int := 0
def ordinalFallback : Int := 1

structure ReserveRequest where
  identity : DispatchIdentity
  budgetDay : String
  routeSlot : RouteSlot
  provider : String
  model : String
  endpoint : String
  policyFingerprint : String
  priceRevision : String
  requestHash : String
  rates : Rates
  caps : Caps
  reserved : Int

/-- A row of `llm_budget_reservations`. -/
structure BudgetEntry where
  id : String
  identity : DispatchIdentity
  budgetDay : String
  routeSlot : RouteSlot
  provider : String
  model : String
  endpoint : String
  policyFingerprint : String
  priceRevision : String
  requestHash : String
  rates : Rates
  caps : Caps
  reserved : Int
  settled : Int
  usage : Usage
  state : LedgerState
  errorClass : String
  createdAt : Time
  updatedAt : Time
  dispatchedAt : Option Time
  terminalAt : Option Time

inductive LedgerEvent where
  | reserve | dispatch | settle | release | recover
deriving DecidableEq

/-- A row of `llm_budget_transitions`; the fresh key is not kept. -/
structure BudgetTransition where
  reservationID : String
  workspaceID : WorkspaceID
  event : LedgerEvent
  fromState : Option LedgerState
  toState : LedgerState
  amount : Int
  reason : String
  policyFingerprint : String
  createdAt : Time

namespace BudgetEntry

def snapshot (e : BudgetEntry) :
    String × DispatchIdentity × String × RouteSlot × String × String × String × String × String ×
      String × Rates × Caps × Int × Time :=
  (e.id, e.identity, e.budgetDay, e.routeSlot, e.provider, e.model, e.endpoint,
    e.policyFingerprint, e.priceRevision, e.requestHash, e.rates, e.caps, e.reserved, e.createdAt)

def countedAmount (e : BudgetEntry) : Int :=
  match e.state with
  | .released => 0
  | .settled => e.settled
  | _ => e.reserved

/-- `budget_day GLOB '[0-9][0-9][0-9][0-9]-[0-9][0-9]-[0-9][0-9]'`. -/
def isDayKey (s : String) : Bool :=
  match s.toList with
  | [y₁, y₂, y₃, y₄, '-', m₁, m₂, '-', d₁, d₂] => [y₁, y₂, y₃, y₄, m₁, m₂, d₁, d₂].all Char.isDigit
  | _ => false

/-- The `CHECK` constraints on the columns of the snapshot. -/
def checksSnapshot (e : BudgetEntry) : Bool :=
  e.identity.operationKind != "" && e.identity.operationID != "" &&
    1 ≤ e.identity.logicalAttempt && isDayKey e.budgetDay &&
    (e.routeSlot == .primary && e.identity.physicalOrdinal == 0 ||
      e.routeSlot == .fallback && e.identity.physicalOrdinal == 1) &&
    [e.provider, e.model, e.endpoint, e.policyFingerprint, e.priceRevision, e.requestHash].all (· != "") &&
    0 ≤ e.rates.inputUSDPerMillion && 0 ≤ e.rates.cachedInputUSDPerMillion &&
    0 ≤ e.rates.outputUSDPerMillion && 0 < e.caps.maxInputTokens && 0 < e.caps.maxOutputTokens &&
    0 < e.reserved

/-- The `CHECK` constraints on the settled amount. -/
def checksSettled (e : BudgetEntry) : Bool :=
  0 ≤ e.settled && match e.state with
    | .reserved | .possiblyDispatched | .released => e.settled == 0
    | .settled => e.settled ≤ e.reserved
    | .usageUncertain => e.settled == e.reserved

/-- The `CHECK` constraints on the token counts. -/
def checksUsage (e : BudgetEntry) : Bool :=
  0 ≤ e.usage.uncachedInputTokens && 0 ≤ e.usage.cachedInputTokens && 0 ≤ e.usage.outputTokens &&
    (e.state == .settled || e.usage == ⟨0, 0, 0, false⟩) &&
    e.usage.uncachedInputTokens + e.usage.cachedInputTokens ≤ e.caps.maxInputTokens &&
    e.usage.outputTokens ≤ e.caps.maxOutputTokens &&
    (e.usage.cachedInputTokens == 0 || e.usage.cachedInputReported)

/-- The `CHECK` constraints on the times of the dispatch and of the end. -/
def checksTimes (e : BudgetEntry) : Bool :=
  match e.state with
  | .reserved => e.dispatchedAt.isNone && e.terminalAt.isNone
  | .released => e.dispatchedAt.isNone && e.terminalAt.isSome
  | .possiblyDispatched => e.dispatchedAt.isSome && e.terminalAt.isNone
  | .settled | .usageUncertain => e.dispatchedAt.isSome && e.terminalAt.isSome

def checks (e : BudgetEntry) : Bool :=
  e.checksSnapshot && e.checksSettled && e.checksUsage && e.checksTimes

end BudgetEntry

structure LedgerDb where
  reservations : Table BudgetEntry.id
  transitions : List BudgetTransition

/-- The errors of the ledger. `invalid` is a refused argument, and a violated constraint is an
outage. -/
inductive LedgerError where
  | invalid (message : String)
  | denied (e : DeniedError)
  | duplicateDispatch (existing : BudgetEntry)
  | notFound
  | conflict (message : String)
  | unavailable (operation : String)

/-- Stop with `e` unless `b`. -/
def expect (b : Bool) (e : LedgerError) : Except LedgerError Unit := if b then .ok () else .error e

@[simp] theorem expect_eq_ok {b : Bool} {e : LedgerError} {u : Unit} :
    expect b e = .ok u ↔ b = true := by
  cases b <;> simp [expect]

/-- `strings.TrimSpace(s) == ""`. -/
def isBlank (s : String) : Bool := trimSpace s == ""

def DispatchIdentity.validate (d : DispatchIdentity) : Except LedgerError Unit := do
  expect (!isBlank d.workspaceID)
    (.invalid "dispatch identity requires an authenticated workspace")
  expect (!isBlank d.operationKind) (.invalid "dispatch identity requires an operation kind")
  expect (!isBlank d.operationID) (.invalid "dispatch identity requires an operation id")
  expect (1 ≤ d.logicalAttempt)
    (.invalid "dispatch identity requires a positive logical attempt")
  expect (d.physicalOrdinal == ordinalPrimary || d.physicalOrdinal == ordinalFallback)
    (.invalid "dispatch identity physical ordinal must be 0 or 1")

def validateBudgetDay (day : String) : Except LedgerError Unit :=
  expect (Time.parseDay day.toList).isSome (.invalid "budget day must be a UTC calendar day")

def pricing {α : Type} (x : Except PricingError α) : Except LedgerError α :=
  match x with
  | .error e => .error (.invalid e.text)
  | .ok a => .ok a

/-- `ReserveRequest.Validate`; of several blank names the source reports any one. -/
def ReserveRequest.validate (r : ReserveRequest) : Except LedgerError Unit := do
  r.identity.validate
  validateBudgetDay r.budgetDay
  expect (r.routeSlot == .primary || r.routeSlot == .fallback)
    (.invalid "route slot must be primary or fallback")
  expect ((r.routeSlot == .primary) == (r.identity.physicalOrdinal == ordinalPrimary))
    (.invalid "route slot does not match physical ordinal")
  expect (!isBlank r.provider) (.invalid "reservation requires a provider")
  expect (!isBlank r.model) (.invalid "reservation requires a model")
  expect (!isBlank r.endpoint) (.invalid "reservation requires a endpoint")
  expect (!isBlank r.policyFingerprint) (.invalid "reservation requires a policy fingerprint")
  expect (!isBlank r.priceRevision) (.invalid "reservation requires a price revision")
  expect (!isBlank r.requestHash) (.invalid "reservation requires a request hash")
  expect (0 < r.caps.maxInputTokens && 0 < r.caps.maxOutputTokens)
    (.invalid "reservation requires positive token caps")
  expect (0 < r.reserved) (.invalid "reservation amount must be positive")
  let expected ← pricing (reservation r.rates r.caps)
  expect (expected == r.reserved)
    (.invalid "reservation amount does not match the rate and cap snapshot")

namespace LedgerDb

variable (db : LedgerDb)

/-- `lookupBudgetEntry`. -/
def lookup (identity : DispatchIdentity) : Option BudgetEntry :=
  db.reservations.rows.find? fun e => e.identity == identity

/-- `WHERE budget_day = ?`, and `AND workspace_id = ?` unless the workspace is empty. -/
def inScope (day : String) (workspaceID : WorkspaceID) (e : BudgetEntry) : Bool :=
  e.budgetDay == day && (workspaceID == "" || e.identity.workspaceID == workspaceID)

def entries (day : String) (workspaceID : WorkspaceID) : List BudgetEntry :=
  db.reservations.rows.filter (inScope day workspaceID)

/-- The `CASE` of `countedForDayExpression`. -/
def countedCase (e : BudgetEntry) : Int :=
  match e.state with
  | .released => 0
  | .reserved | .possiblyDispatched => e.reserved
  | _ => e.settled

def countedForDay (day : String) (workspaceID : WorkspaceID) : Int :=
  ((db.entries day workspaceID).map countedCase).sum

end LedgerDb

structure ScopeUsage where
  maxRequestUSD : Int
  dailyBudgetUSD : Int
  settled : Int
  activeReserved : Int
  remaining : Int
  uncertainCalls : Int

namespace LedgerDb

/-- The three `CASE`s of `scopeUsage`. -/
def settledCase (e : BudgetEntry) : Int :=
  if e.state == .settled || e.state == .usageUncertain then e.settled else 0

def activeCase (e : BudgetEntry) : Int :=
  if e.state == .reserved || e.state == .possiblyDispatched then e.reserved else 0

def uncertainCase (e : BudgetEntry) : Int := if e.state == .usageUncertain then 1 else 0

def scopeUsage (db : LedgerDb) (day : String) (workspaceID : WorkspaceID)
    (maxRequest dailyBudget : Int) : ScopeUsage :=
  let entries := db.entries day workspaceID
  let settled := (entries.map settledCase).sum
  let active := (entries.map activeCase).sum
  let remaining := dailyBudget - settled - active
  ⟨maxRequest, dailyBudget, settled, active, if remaining < 0 then 0 else remaining,
    (entries.map uncertainCase).sum⟩

end LedgerDb

structure Snapshot where
  budgetDay : String
  globalScope : ScopeUsage
  workspaceScope : Option ScopeUsage

/-- `Snapshot`: both scopes in one read transaction. A workspace without a budget has zero caps. -/
def LedgerDb.snapshot (limits : Limits) (workspaceID : WorkspaceID) (day : String) (db : LedgerDb) :
    Except LedgerError Snapshot := do
  validateBudgetDay day
  let globalScope :=
    db.scopeUsage day "" limits.globalMaxRequestUSD limits.globalDailyBudgetUSD
  if workspaceID == "" then pure ⟨day, globalScope, none⟩
  else
    match limits.workspaces workspaceID with
    | some w =>
      pure ⟨day, globalScope, some (db.scopeUsage day workspaceID w.maxRequestUSD w.dailyBudgetUSD)⟩
    | none => pure ⟨day, globalScope, some (db.scopeUsage day workspaceID 0 0)⟩

/-! ## Writing -/

/-- The `SET` clauses the triggers let through. -/
abbrev EntryUpdate := SetClause BudgetEntry.snapshot

def EntryUpdate.onID (f : EntryUpdate) : SetClause BudgetEntry.id :=
  ⟨f.set, fun e => congrArg Prod.fst (f.keeps e)⟩

namespace BudgetEntry

def dispatch (now : Time) : EntryUpdate where
  set e := { e with
    state := .possiblyDispatched
    dispatchedAt := some now
    updatedAt := now }
  keeps _ := rfl

def settle (now : Time) (usage : Usage) (cost : Int) (errorClass : String) : EntryUpdate where
  set e := { e with
    state := .settled
    settled := cost
    usage := usage
    errorClass := errorClass
    updatedAt := now
    terminalAt := some now }
  keeps _ := rfl

def settleFull (now : Time) (reason : String) : EntryUpdate where
  set e := { e with
    state := .usageUncertain
    settled := e.reserved
    errorClass := reason
    updatedAt := now
    terminalAt := some now }
  keeps _ := rfl

def giveBack (now : Time) (reason : String) : EntryUpdate where
  set e := { e with
    state := .released
    errorClass := reason
    updatedAt := now
    terminalAt := some now }
  keeps _ := rfl

end BudgetEntry

namespace LedgerDb

variable (db : LedgerDb)

/-- `INSERT INTO llm_budget_reservations`: the constraints, the key and the unique index on the
identity. -/
def insertEntry (e : BudgetEntry) : Except LedgerError LedgerDb := do
  expect e.checks (.unavailable "reserve")
  expect (db.lookup e.identity).isNone (.unavailable "reserve")
  match db.reservations.insert? e with
  | none => .error (.unavailable "reserve")
  | some reservations => pure { db with reservations }

def appendTransition (entry : BudgetEntry) (event : LedgerEvent) (fromState : Option LedgerState)
    (toState : LedgerState) (reason : String) (amount : Int) (now : Time) : LedgerDb :=
  { db with transitions := db.transitions ++
      [⟨entry.id, entry.identity.workspaceID, event, fromState, toState, amount, reason,
        entry.policyFingerprint, now⟩] }

def move (operation : String) (entry : BudgetEntry) (f : EntryUpdate) (event : LedgerEvent)
    (toState : LedgerState) (reason : String) (amount : Int) (now : Time) :
    Except LedgerError LedgerDb := do
  expect (f.set entry).checks (.unavailable operation)
  pure ({ db with reservations := db.reservations.updateRow entry.id f.onID }.appendTransition
    entry event (some entry.state) toState reason amount now)

/-- `lookupBudgetEntry`, where an entry must be there. -/
def entry (identity : DispatchIdentity) : Except LedgerError BudgetEntry :=
  match db.lookup identity with
  | none => .error .notFound
  | some e => .ok e

end LedgerDb

/-- What `Reserve` draws: the fresh `NewID()`, and the two readings of the clock. -/
structure ReserveDraw where
  newID : String
  dayAt : Time
  now : Time

/-- The entry `Reserve` inserts. -/
def ReserveRequest.created (r : ReserveRequest) (draw : ReserveDraw) : BudgetEntry where
  id := draw.newID
  identity := r.identity
  budgetDay := draw.dayAt.formatDay
  routeSlot := r.routeSlot
  provider := r.provider
  model := r.model
  endpoint := r.endpoint
  policyFingerprint := r.policyFingerprint
  priceRevision := r.priceRevision
  requestHash := r.requestHash
  rates := r.rates
  caps := r.caps
  reserved := r.reserved
  settled := 0
  usage := ⟨0, 0, 0, false⟩
  state := .reserved
  errorClass := ""
  createdAt := draw.now
  updatedAt := draw.now
  dispatchedAt := none
  terminalAt := none

def deny {α : Type} (x : Except DeniedError α) : Except LedgerError α :=
  match x with
  | .error e => .error (.denied e)
  | .ok a => .ok a

structure RecoveryReport where
  released : Nat
  markedUncertain : Nat
  inspected : Nat

namespace LedgerDb

/-- The transaction of `Reserve`, with the caps of the workspace. -/
def reserveTx (limits : Limits) (workspace : WorkspaceBudget) (draw : ReserveDraw)
    (r : ReserveRequest) (db : LedgerDb) : Except LedgerError (LedgerDb × BudgetEntry) :=
  match db.lookup r.identity with
  | some existing => .error (.duplicateDispatch existing)
  | none => do
    let day := draw.dayAt.formatDay
    deny (checkDailyCap .global r.reserved (db.countedForDay day "") limits.globalDailyBudgetUSD)
    deny (checkDailyCap .workspace r.reserved (db.countedForDay day r.identity.workspaceID)
      workspace.dailyBudgetUSD)
    let created := r.created draw
    let db ← db.insertEntry created
    pure (db.appendTransition created .reserve none .reserved "" created.reserved draw.now, created)

def reserve (limits : Limits) (draw : ReserveDraw) (r : ReserveRequest) (db : LedgerDb) :
    Except LedgerError (LedgerDb × BudgetEntry) := do
  r.validate
  expect limits.configured (.invalid "budget ledger requires configured global caps")
  let workspace ← deny (limits.checkRequestCaps r.identity.workspaceID r.reserved)
  db.reserveTx limits workspace draw r

def markPossiblyDispatched (now : Time) (identity : DispatchIdentity) (db : LedgerDb) :
    Except LedgerError LedgerDb := do
  identity.validate
  let e ← db.entry identity
  match e.state with
  | .possiblyDispatched => pure db
  | .reserved =>
    db.move "mark_dispatched" e (BudgetEntry.dispatch now) .dispatch .possiblyDispatched ""
      e.reserved now
  | state => .error (.conflict ("cannot mark " ++ state.text ++ " entry as possibly dispatched"))

def settleTrusted (now : Time) (identity : DispatchIdentity) (usage : Usage) (cost : Int)
    (errorClass : String) (db : LedgerDb) : Except LedgerError LedgerDb := do
  identity.validate
  expect (0 ≤ cost) (.invalid "settled cost must not be negative")
  let e ← db.entry identity
  expect (e.state == .possiblyDispatched)
    (.conflict ("cannot settle a " ++ e.state.text ++ " entry"))
  expect (cost ≤ e.reserved) (.conflict "settled cost exceeds reservation")
  match validateUsage usage e.caps [] with
  | .error err => .error (.conflict err.text)
  | .ok () =>
    match settledCost e.rates usage with
    | .error err => .error (.conflict ("recompute settled cost: " ++ err.text))
    | .ok expected =>
      expect (cost == expected)
        (.conflict "settled cost does not match persisted rate snapshot cost")
      db.move "settle_trusted" e (BudgetEntry.settle now usage cost errorClass) .settle .settled
        errorClass cost now

def settleUncertain (now : Time) (identity : DispatchIdentity) (reason : String) (db : LedgerDb) :
    Except LedgerError LedgerDb := do
  identity.validate
  let e ← db.entry identity
  match e.state with
  | .usageUncertain => pure db
  | .possiblyDispatched =>
    db.move "settle_uncertain" e (BudgetEntry.settleFull now reason) .settle .usageUncertain
      reason e.reserved now
  | state => .error (.conflict ("cannot mark a " ++ state.text ++ " entry uncertain"))

def release (now : Time) (identity : DispatchIdentity) (reason : String) (db : LedgerDb) :
    Except LedgerError LedgerDb := do
  identity.validate
  let e ← db.entry identity
  match e.state with
  | .released => pure db
  | .reserved =>
    db.move "release" e (BudgetEntry.giveBack now reason) .release .released reason 0 now
  | state => .error (.conflict ("cannot release a " ++ state.text ++ " entry"))

/-- `WHERE state IN (?, ?)`. -/
def isPending (e : BudgetEntry) : Bool := e.state == .reserved || e.state == .possiblyDispatched

/-- `ORDER BY created_at`, with rows of one time in the order in which the database meets them. -/
def createdBefore (tie : String → Nat) (a b : BudgetEntry) : Bool :=
  a.createdAt < b.createdAt || (a.createdAt == b.createdAt && tie a.id ≤ tie b.id)

def pending (db : LedgerDb) (tie : String → Nat) : List BudgetEntry :=
  (db.reservations.rows.filter isPending).insertionSort fun a b => createdBefore tie a b

/-- What `Recover` does to one of the entries it has read. -/
def recoverEntry (now : Time) (db : LedgerDb) (e : BudgetEntry) : Except LedgerError LedgerDb :=
  match e.state with
  | .reserved =>
    db.move "recover" e (BudgetEntry.giveBack now "startup_reconciliation") .recover .released
      "released undispatched reservation at startup" 0 now
  | .possiblyDispatched =>
    db.move "recover" e (BudgetEntry.settleFull now "startup_reconciliation") .recover
      .usageUncertain "settled possibly dispatched call at full reservation" e.reserved now
  | _ => .ok db

def recover (now : Time) (tie : String → Nat) (db : LedgerDb) :
    Except LedgerError (LedgerDb × RecoveryReport) := do
  let pending := db.pending tie
  let db ← pending.foldlM (recoverEntry now) db
  pure (db, ⟨pending.countP (·.state == .reserved),
    pending.countP (·.state == .possiblyDispatched), pending.length⟩)

end LedgerDb

inductive LedgerOp where
  | reserve (draw : ReserveDraw) (r : ReserveRequest)
  | markPossiblyDispatched (now : Time) (identity : DispatchIdentity)
  | settleTrusted (now : Time) (identity : DispatchIdentity) (usage : Usage) (cost : Int)
      (errorClass : String)
  | settleUncertain (now : Time) (identity : DispatchIdentity) (reason : String)
  | release (now : Time) (identity : DispatchIdentity) (reason : String)
  | recover (now : Time) (tie : String → Nat)

namespace LedgerOp

def exec (limits : Limits) (db : LedgerDb) : LedgerOp → Except LedgerError LedgerDb
  | reserve draw r => Prod.fst <$> db.reserve limits draw r
  | markPossiblyDispatched now identity => db.markPossiblyDispatched now identity
  | settleTrusted now identity usage cost errorClass =>
    db.settleTrusted now identity usage cost errorClass
  | settleUncertain now identity reason => db.settleUncertain now identity reason
  | release now identity reason => db.release now identity reason
  | recover now tie => Prod.fst <$> db.recover now tie

end LedgerOp

/-- The transaction of a call; one that fails, for its own reasons or for reasons of the database,
is rolled back. -/
structure LedgerCall where
  op : LedgerOp
  failed : Bool

namespace LedgerDb

def step (limits : Limits) (db : LedgerDb) (call : LedgerCall) : LedgerDb :=
  if call.failed then db else (call.op.exec limits db).toOption.getD db

def empty : LedgerDb := ⟨.empty, []⟩

end LedgerDb

namespace Sample

def limits : Limits where
  globalMaxRequestUSD := 20000000
  globalDailyBudgetUSD := 30000000
  workspaces id := if id = "default" then some ⟨20000000, 25000000, by omega, by omega⟩ else none
  daily_le := by simp [maxUSDNanos]

def identity : DispatchIdentity := ⟨"default", "dsl_generate", "operation", 1, 0⟩

def reserveRequest : ReserveRequest where
  identity := identity
  budgetDay := "1970-01-01"
  routeSlot := .primary
  provider := "provider"
  model := "model"
  endpoint := "endpoint"
  policyFingerprint := "fingerprint"
  priceRevision := "revision"
  requestHash := "hash"
  rates := ⟨3000000000, 300000000, 15000000000⟩
  caps := ⟨1000, 500⟩
  reserved := 10500001

def settledCall : List LedgerCall :=
  [⟨.reserve ⟨"entry", 0, 0⟩ reserveRequest, false⟩, ⟨.markPossiblyDispatched 1 identity, false⟩,
    ⟨.settleTrusted 2 identity ⟨100, 0, 50, true⟩ 1050000 "", false⟩]

end Sample

end Aegis
