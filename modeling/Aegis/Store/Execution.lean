import Aegis.Store.Task

/-!
# Store.Execution

The attempt-bound operations of `execution.go`: `UpdateTaskStatusForAttempt`, one transaction, and
`InsertResultIdempotent`, three statements of which other calls may run in between.
-/

namespace Aegis

open Table

namespace Store

def attemptOfTask (s : Store) (c : Ctx) (taskID : TaskID) (attemptID : AttemptID) :
    Option (Task × ExecutionAttempt) := do
  let t ← (s.tasks.find? taskID).filter fun t => t.workspaceID == c.workspace
  let a ← (s.executionAttempts.find? attemptID).filter fun a =>
    a.workspaceID == t.workspaceID && a.taskID == t.id
  pure (t, a)

/-- `COUNT(*) FROM results` of one attempt, of the rows that satisfy `p`. -/
def countResults (s : Store) (workspace : WorkspaceID) (taskID : TaskID) (attemptID : AttemptID)
    (p : Result → Bool) : Nat :=
  s.results.rows.countP fun r =>
    r.workspaceID == workspace && r.taskID == taskID && r.attemptID == attemptID && p r

def validBatches (s : Store) (workspace : WorkspaceID) (taskID : TaskID) (attemptID : AttemptID) : Nat :=
  s.countResults workspace taskID attemptID fun r => r.kind == .batch && r.valid

def invalidBatches (s : Store) (workspace : WorkspaceID) (taskID : TaskID) (attemptID : AttemptID) : Nat :=
  s.countResults workspace taskID attemptID fun r => r.kind == .batch && !r.valid

def summaries (s : Store) (workspace : WorkspaceID) (taskID : TaskID) (attemptID : AttemptID) : Nat :=
  s.countResults workspace taskID attemptID fun r => r.kind == .summary

def reportForAttempt (c : Ctx) (taskID : TaskID) (workerID : WorkerID) (attemptID : AttemptID)
    (status : TaskStatus) (message errorType : String) (s : Store) : Except StoreError Store := do
  let mine (t : Task) : Bool :=
    t.id == taskID && t.workspaceID == c.workspace && t.workerID == some workerID &&
      t.currentAttemptID == some attemptID
  require (s.tasks.any mine) .executionAttemptConflict
  let s := s.updateTasks mine (Task.report c.now status message errorType)
  let s :=
    if status.mayCloseHumanWait then
      s.decideInterventions (fun h =>
          h.workspaceID == c.workspace && h.taskID == taskID && h.attemptID == attemptID &&
            h.status == .pending)
        .cancelled c.now "system:worker_terminal"
        "worker ended the attempt while waiting for operator"
    else s
  let named (a : ExecutionAttempt) : Bool :=
    a.workspaceID == c.workspace && a.id == attemptID && a.taskID == taskID && a.workerID == workerID
  require (s.executionAttempts.any named) .executionAttemptConflict
  s.updateAttempts named (ExecutionAttempt.report c.now status message errorType)

/-- `UpdateTaskStatusForAttempt`: the store it commits, and whether the report repeats a state
that is already committed. -/
def updateTaskStatusForAttempt (c : Ctx) (taskID : TaskID) (workerID : WorkerID)
    (attemptID : AttemptID) (status : TaskStatus) (message errorType : String) (s : Store) :
    Except StoreError (Store × Bool) := do
  require (!taskID.isEmpty && !workerID.isEmpty && !attemptID.isEmpty) .executionAttemptConflict
  match s.attemptOfTask c taskID attemptID with
  | none => .error .executionAttemptConflict
  | some (t, a) =>
    require (t.workerID.getD "" == workerID && a.workerID == workerID &&
      t.currentAttemptID.getD "" == attemptID) .executionAttemptConflict
    require status.isReportable .executionAttemptConflict
    if t.status == status && a.status == status.attemptStatus then pure (s, true)
    else
      let activeTask := t.status.isActive || (t.status == .waitingHuman && status.mayCloseHumanWait)
      let activeAttempt :=
        a.status.isActive || (a.status == .waitingHuman && status.mayCloseHumanWait)
      require (activeTask && activeAttempt) .executionAttemptConflict
      let valid := s.validBatches c.workspace taskID attemptID
      let invalid := s.invalidBatches c.workspace taskID attemptID
      let summary := s.summaries c.workspace taskID attemptID
      require (status != .done || (1 ≤ valid && invalid == 0 && summary == 1))
        (.incompleteAttemptResults valid summary invalid)
      let s ← s.reportForAttempt c taskID workerID attemptID status message errorType
      pure (s, false)

section ForAttempt

variable {s s' : Store} {c : Ctx} {taskID : TaskID} {workerID : WorkerID} {attemptID : AttemptID}
  {status : TaskStatus} {message errorType : String} {repeated : Bool}

theorem attemptOfTask_eq_some {t : Task} {a : ExecutionAttempt} :
    s.attemptOfTask c taskID attemptID = some (t, a) ↔
      s.tasks.find? taskID = some t ∧ t.workspaceID = c.workspace ∧
        s.executionAttempts.find? attemptID = some a ∧ a.workspaceID = t.workspaceID ∧
        a.taskID = t.id := by
  simp only [attemptOfTask, bind, Option.bind_eq_some_iff, Option.filter_eq_some_iff, beq_iff_eq,
    Bool.and_eq_true, Option.some.injEq, pure, Prod.mk.injEq]
  constructor
  · rintro ⟨t', ⟨ht, hw⟩, a', ⟨ha, hb⟩, rfl, rfl⟩
    exact ⟨ht, hw, ha, hb⟩
  · rintro ⟨ht, hw, ha, hb⟩
    exact ⟨t, ⟨ht, hw⟩, a, ⟨ha, hb⟩, rfl, rfl⟩

/-- What a successful report of an attempt has checked: it names the current attempt of the task
and its worker, and either repeats a committed state or commits the report. -/
theorem updateTaskStatusForAttempt_cases
    (h : s.updateTaskStatusForAttempt c taskID workerID attemptID status message errorType =
      .ok (s', repeated)) :
    ∃ t a, s.attemptOfTask c taskID attemptID = some (t, a) ∧ t.workerID = some workerID ∧
      a.workerID = workerID ∧ t.currentAttemptID = some attemptID ∧ status.isReportable = true ∧
      ((repeated ∧ s' = s ∧ t.status = status ∧ a.status = status.attemptStatus) ∨
        (repeated = false ∧
          (t.status.isActive || (t.status == .waitingHuman && status.mayCloseHumanWait)) ∧
          (a.status.isActive || (a.status == .waitingHuman && status.mayCloseHumanWait)) ∧
          (status = .done → 1 ≤ s.validBatches c.workspace taskID attemptID ∧
            s.invalidBatches c.workspace taskID attemptID = 0 ∧
            s.summaries c.workspace taskID attemptID = 1) ∧
          s.reportForAttempt c taskID workerID attemptID status message errorType = .ok s')) := by
  simp only [updateTaskStatusForAttempt, bind_eq_ok, require_eq_ok] at h
  obtain ⟨-, hne, h⟩ := h
  split at h
  · cases h
  · rename_i t a hta
    simp only [bind_eq_ok, require_eq_ok, Bool.and_eq_true, beq_iff_eq] at h
    obtain ⟨-, ⟨⟨hw, haw⟩, hcur⟩, -, hrep, h⟩ := h
    have hworker : t.workerID = some workerID := by
      cases hx : t.workerID with
      | none | some w => simp_all
    have hcurrent : t.currentAttemptID = some attemptID := by
      cases hx : t.currentAttemptID with
      | none | some w => simp_all
    refine ⟨t, a, hta, hworker, haw, hcurrent, hrep, ?_⟩
    split at h
    · rename_i hsame
      cases pure_eq_ok.mp h
      exact .inl ⟨rfl, rfl, hsame⟩
    · simp only [bind_eq_ok, require_eq_ok, Bool.and_eq_true, pure_eq_ok, Prod.mk.injEq] at h
      obtain ⟨-, hactive, -, hcomplete, s₁, hs₁, rfl, rfl⟩ := h
      refine .inr ⟨rfl, hactive.1, hactive.2, ?_, hs₁⟩
      intro hdone
      simpa [hdone, and_assoc] using hcomplete

end ForAttempt

end Store

/-- The submissions `InsertResultIdempotent` looks at. -/
def Result.isWellFormed (r : Result) : Bool :=
  !r.taskID.isEmpty && !r.workerID.isEmpty && !r.attemptID.isEmpty && !r.idempotencyKey.isEmpty &&
    0 < r.sequence && (r.kind == .batch || r.kind == .summary)

/-- The row `InsertResultIdempotent` builds before its first statement; `newID` is the fresh
identifier. -/
def Result.prepare (env : Env) (c : Ctx) (newID : String) (r : Result) : Result :=
  { r with
    workspaceID := c.workspace
    payloadHash := env.sha256 r.payload
    id := if r.id.isEmpty then newID else r.id
    createdAt := if r.createdAt == Time.zero then c.now else r.createdAt }

def Result.sameKey (r q : Result) : Bool :=
  r.workspaceID == q.workspaceID && r.taskID == q.taskID && r.attemptID == q.attemptID &&
    r.idempotencyKey == q.idempotencyKey

def Result.sameContent (r q : Result) : Bool :=
  r.payloadHash == q.payloadHash && r.sequence == q.sequence && r.kind == q.kind

/-- Where a call of `InsertResultIdempotent` stands: before one of its statements, or returned. -/
inductive SubmitStage where
  | lookup | check | insert
  | returned (answer : Except StoreError Bool)
deriving DecidableEq

namespace Store

def lookupResult (s : Store) (r : Result) : SubmitStage :=
  match s.results.rows.find? (r.sameKey ·) with
  | some q => .returned (if q.sameContent r then .ok true else .error .resultConflict)
  | none => .check

def isActiveFor (s : Store) (r : Result) (a : ExecutionAttempt) : Bool :=
  a.workspaceID == r.workspaceID && a.id == r.attemptID && a.taskID == r.taskID &&
    a.workerID == r.workerID && a.status.isOpen &&
    s.tasks.any fun t =>
      t.workspaceID == a.workspaceID && t.id == a.taskID && t.currentAttemptID == some a.id

def checkResult (s : Store) (r : Result) : SubmitStage :=
  if s.executionAttempts.rows.countP (s.isActiveFor r) == 1 then .insert
  else .returned (.error .executionAttemptConflict)

/-- The rows a new row `r` may not join: `idx_results_idempotency`,
`idx_results_valid_batch_sequence` and `idx_results_one_summary`. -/
def resultClash (r q : Result) : Bool :=
  r.workspaceID == q.workspaceID && r.taskID == q.taskID && r.attemptID == q.attemptID &&
    ((!r.idempotencyKey.isEmpty && r.idempotencyKey == q.idempotencyKey) ||
      (r.kind == .batch && q.kind == .batch && r.valid && q.valid && r.sequence == q.sequence) ||
      (r.kind == .summary && q.kind == .summary))

/-- The `INSERT`: the primary key and the unique indexes. -/
def insertResult (s : Store) (r : Result) : Except StoreError Store := do
  require (!s.results.any (resultClash r)) .resultConflict
  match s.results.insert? r with
  | none => .error .resultConflict
  | some results => pure { s with results }

/-- One statement of a call of `InsertResultIdempotent` whose row is `r`. -/
def submitStep (s : Store) (r : Result) : SubmitStage → Store × SubmitStage
  | .lookup => (s, s.lookupResult r)
  | .check => (s, s.checkResult r)
  | .insert =>
    match s.insertResult r with
    | .ok s' => (s', .returned (.ok false))
    | .error e => (s, .returned (.error e))
  | .returned answer => (s, .returned answer)

section Submit

variable {s s' : Store} {r q : Result}

theorem checkResult_eq_insert : s.checkResult r = .insert ↔
    ∃ a, s.executionAttempts.find? r.attemptID = some a ∧ s.isActiveFor r a = true := by
  have hp : ∀ a, s.isActiveFor r a → a.id = r.attemptID := by
    intro a ha
    simp only [isActiveFor, Bool.and_eq_true, beq_iff_eq] at ha
    exact ha.1.1.1.1.2
  unfold checkResult
  split
  · rename_i h
    simpa using (countP_eq_one hp).mp (by simpa using h)
  · rename_i h
    simp only [reduceCtorEq, false_iff]
    intro hex
    exact h (by simpa using (countP_eq_one hp).mpr hex)

theorem insertResult_eq_ok (h : s.insertResult r = .ok s') :
    (∀ q ∈ s.results.rows, resultClash r q = false) ∧ s.results.find? r.id = none ∧
      s'.results.rows = s.results.rows ++ [r] ∧ s' = { s with results := s'.results } := by
  simp only [insertResult, bind_eq_ok, require_eq_ok, Bool.not_eq_true', Table.any_eq_false] at h
  obtain ⟨-, hclash, h⟩ := h
  split at h
  · cases h
  · rename_i rows hins
    obtain rfl := pure_eq_ok.mp h
    obtain ⟨hnone, hrows⟩ := insert?_eq_some.mp hins
    exact ⟨hclash, hnone, hrows, rfl⟩

theorem insertResult_of_free (hclash : s.results.any (resultClash r) = false)
    (hfree : s.results.find? r.id = none) : ∃ s', s.insertResult r = .ok s' := by
  obtain ⟨rows, hrows⟩ := exists_insert? hfree
  refine ⟨{ s with results := rows }, ?_⟩
  simp only [insertResult, hclash, hrows]
  rfl

theorem insertResult_eq_error {e : StoreError} (h : s.insertResult r = .error e) : e = .resultConflict := by
  unfold insertResult require at h
  split at h
  · split at h
    · exact (Except.error.inj h).symm
    · cases h
  · exact (Except.error.inj h).symm

end Submit

theorem submitStep_of_ne {s : Store} {r : Result} {stage : SubmitStage} (h : stage ≠ .insert) :
    ∃ stage', s.submitStep r stage = (s, stage') ∧ (stage' = .insert → s.checkResult r = .insert) := by
  cases stage with
  | insert => exact absurd rfl h
  | check => exact ⟨_, rfl, id⟩
  | returned answer => exact ⟨_, rfl, nofun⟩
  | lookup =>
    refine ⟨_, rfl, fun he => ?_⟩
    unfold lookupResult at he
    split at he <;> cases he

theorem check_of_submitStep {s s' : Store} {r : Result} {stage : SubmitStage} (h : stage ≠ .insert)
    (hstep : s.submitStep r stage = (s', .insert)) : s.checkResult r = .insert := by
  obtain ⟨stage', hstep', hcheck⟩ := submitStep_of_ne (s := s) (r := r) h
  rw [hstep'] at hstep
  exact hcheck (Prod.mk.inj hstep).2

theorem stage_of_submitStep {s s' : Store} {r : Result} {stage : SubmitStage} (h : stage ≠ .insert)
    (hstep : s.submitStep r stage = (s', .insert)) : stage = .check := by
  cases stage with
  | check => rfl
  | insert => exact absurd rfl h
  | returned answer => cases (Prod.mk.inj hstep).2
  | lookup =>
    have hlookup : s.lookupResult r = .insert := (Prod.mk.inj hstep).2
    unfold lookupResult at hlookup
    split at hlookup <;> cases hlookup

/-- The stage a call of `InsertResultIdempotent` starts in. -/
def submitStart (r : Result) : SubmitStage :=
  if r.isWellFormed then .lookup else .returned (.error .resultConflict)

/-- `InsertResultIdempotent` with no other call in between. -/
def insertResultIdempotent (env : Env) (c : Ctx) (newID : String) (r : Result) (s : Store) :
    Store × SubmitStage :=
  let r := r.prepare env c newID
  let (s, stage) := s.submitStep r (submitStart r)
  let (s, stage) := s.submitStep r stage
  s.submitStep r stage

theorem submitStart_ne_insert (r : Result) : submitStart r ≠ .insert := by
  unfold submitStart
  split <;> exact nofun

theorem insertResultIdempotent_store {env : Env} {c : Ctx} {newID : String} {r : Result}
    {s : Store} (h : s.checkResult (r.prepare env c newID) ≠ .insert) :
    (s.insertResultIdempotent env c newID r).1 = s := by
  obtain ⟨stage₁, h₁, hc₁⟩ := submitStep_of_ne (s := s)
    (submitStart_ne_insert (r.prepare env c newID))
  obtain ⟨stage₂, h₂, hc₂⟩ := submitStep_of_ne (s := s) (r := r.prepare env c newID)
    (fun he => h (hc₁ he))
  obtain ⟨stage₃, h₃, -⟩ := submitStep_of_ne (s := s) (r := r.prepare env c newID)
    (fun he => h (hc₂ he))
  simp only [insertResultIdempotent, h₁, h₂, h₃]

end Store

end Aegis
