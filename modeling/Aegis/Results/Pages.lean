import Aegis.Lib.Sorting
import Aegis.Results.Server
import Aegis.Store.Claim
import Mathlib.Data.Prod.Lex

/-!
# Results.Pages

`InsertResult`, the way of a result into the store without a submission, and `ListResultPage`, which
joins results with their attempts.

The pages are the valid batches in order wherever every row names an attempt of its task. The
`JOIN` hides the others, and `InsertResult` stores whatever attempt the caller names.
-/

namespace Aegis

open List Option Table
open Store

namespace Store

/-- The attempt `InsertResult` makes for a submission that predates a lease. -/
def legacyAttempt (s : Store) (c : Ctx) (r : Result) : ExecutionAttempt where
  id := "legacy-direct-" ++ r.taskID
  workspaceID := c.workspace
  taskID := r.taskID
  number := s.nextAttemptNumber c r.taskID
  workerID := r.workerID
  status := .leaseExpired
  leaseUntil := none
  startedAt := if r.createdAt == Time.zero then c.now else r.createdAt
  completedAt := some (if r.createdAt == Time.zero then c.now else r.createdAt)
  errorType := ""
  errorMessage := ""

/-- The attempt the caller names, or else the task. -/
def givenAttempt (s : Store) (c : Ctx) (r : Result) : Option AttemptID :=
  if r.attemptID ≠ "" then some r.attemptID
  else (s.currentAttemptID c r.taskID).filter (· ≠ "")

/-- The attempt of the row. `INSERT OR IGNORE` finds the identifier taken or inserts: the number is
always new. -/
def directAttempt (s : Store) (c : Ctx) (r : Result) : Store × AttemptID :=
  match s.givenAttempt c r with
  | some id => (s, id)
  | none =>
    match s.executionAttempts.insert? (s.legacyAttempt c r) with
    | some executionAttempts => ({ s with executionAttempts }, (s.legacyAttempt c r).id)
    | none => (s, (s.legacyAttempt c r).id)

/-- `SELECT COUNT(*) + 1`. -/
def nextSequence (s : Store) (r : Result) : Int :=
  s.results.rows.countP (fun q => q.workspaceID == r.workspaceID && q.taskID == r.taskID &&
    q.attemptID == r.attemptID && q.kind == .batch) + 1

def directRow (env : Env) (c : Ctx) (r : Result) (s : Store) (attemptID : AttemptID) : Result :=
  let r := { r with workspaceID := c.workspace, attemptID }
  { r with
    idempotencyKey := if r.idempotencyKey == "" then "legacy-" ++ r.id else r.idempotencyKey
    sequence := if r.sequence ≤ 0 then s.nextSequence r else r.sequence
    kind := if r.kind = .other "" then .batch else r.kind
    valid := true
    payloadHash := env.sha256 r.payload }

/-- `InsertResult`; its statements are no transaction. -/
def insertResultDirect (env : Env) (c : Ctx) (r : Result) (s : Store) : Store × Except StoreError Unit :=
  match s.getTaskByID c r.taskID with
  | .error e => (s, .error e)
  | .ok _ =>
    let (s, attemptID) := s.directAttempt c r
    match s.insertResult (directRow env c r s attemptID) with
    | .ok s' => (s', .ok ())
    | .error _ => (s, .error (.constraint "UNIQUE constraint failed: results"))

structure ResultPage where
  batches : List Result
  invalidBatches : List Result
  summary : Option Result
  total : Nat
  limit : Int
  offset : Int

/-- `JOIN execution_attempts` finds an attempt of the row. -/
def joins (s : Store) (r : Result) : Bool :=
  (s.executionAttempts.find? r.attemptID).any fun a => a.workspaceID == r.workspaceID

def attemptNumber (s : Store) (r : Result) : Nat :=
  (s.executionAttempts.find? r.attemptID).elim 0 ExecutionAttempt.number

/-- The columns of the `ORDER BY` clause. -/
def pageKey (s : Store) (r : Result) : Nat ×ₗ Int ×ₗ Time :=
  toLex (s.attemptNumber r, toLex (r.sequence, r.createdAt))

/-- A sort by a column, and by `tie` where the query does not say. -/
def orderBy {α κ : Type} [LinearOrder κ] (key : α → κ) (tie : α → Nat) (rows : List α) : List α :=
  Sorting.sortOn (fun a => (toLex (key a, tie a) : κ ×ₗ Nat)) rows

/-- `LIMIT ? OFFSET ?`. -/
def page {α : Type} (limit offset : Int) (rows : List α) : List α :=
  (rows.drop offset.toNat).take limit.toNat

def batchesOf (s : Store) (c : Ctx) (taskID : TaskID) (valid : Bool) : List Result :=
  s.results.rows.filter fun r =>
    r.workspaceID == c.workspace && r.taskID == taskID && r.kind == .batch && r.valid == valid

def listResultPage (c : Ctx) (taskID : TaskID) (limit offset : Int) (includeInvalid : Bool)
    (tie : Result → Nat) (s : Store) : Except StoreError ResultPage := do
  let limit := if limit ≤ 0 || 500 < limit then 100 else limit
  let offset := if offset < 0 then 0 else offset
  let _ ← s.getTaskByID c taskID
  pure {
    batches := page limit offset (orderBy s.pageKey tie ((s.batchesOf c taskID true).filter s.joins))
    invalidBatches := if includeInvalid then
      page limit offset (orderBy Result.createdAt tie (s.batchesOf c taskID false)) else []
    summary := (orderBy (OrderDual.toDual ·.createdAt) tie (s.results.rows.filter fun r =>
      r.workspaceID == c.workspace && r.taskID == taskID && r.kind == .summary)).head?
    total := (s.batchesOf c taskID true).length
    limit, offset }

end Store

/-! ## Lineage -/

namespace ResultPages

/-- `id` is an attempt of the task in the workspace. -/
def Names (s : Store) (w : WorkspaceID) (taskID : TaskID) (id : AttemptID) : Prop :=
  ∃ a, s.executionAttempts.find? id = some a ∧ a.workspaceID = w ∧ a.taskID = taskID

def numberKey (a : ExecutionAttempt) : WorkspaceID × TaskID × Nat := (a.workspaceID, a.taskID, a.number)

def sequenceKey (r : Result) : WorkspaceID × TaskID × AttemptID × Int :=
  (r.workspaceID, r.taskID, r.attemptID, r.sequence)

/-- The invariant: batches name attempts of their tasks, and no two have one place. -/
structure Lineage (s : Store) : Prop where
  numbered : (s.executionAttempts.rows.map numberKey).Nodup
  named : ∀ r ∈ s.results.rows, r.kind = .batch → Names s r.workspaceID r.taskID r.attemptID
  sequenced : ((s.results.rows.filter fun r => r.kind == .batch && r.valid).map sequenceKey).Nodup

variable {s s' : Store} {c : Ctx} {r : Result} {env : Env} {stage : SubmitStage} {w : WorkspaceID}
  {taskID : TaskID} {id : AttemptID}

theorem Names.of_identity (h : Names s w taskID id)
    (hkeep : ∀ a ∈ s.executionAttempts.rows, ∃ b ∈ s'.executionAttempts.rows, b.identity = a.identity) :
    Names s' w taskID id := by
  obtain ⟨a, ha, rfl, rfl⟩ := h
  obtain ⟨b, hb, hid⟩ := hkeep a (mem_of_find? ha)
  simp only [ExecutionAttempt.identity, Prod.mk.injEq] at hid
  exact ⟨b, find?_eq_some.mpr ⟨hb, hid.1.trans (key_of_find? ha)⟩, hid.2.1, hid.2.2.1⟩

theorem Lineage.of_identity (h : Lineage s) (hr : s'.results = s.results)
    (hn : (s'.executionAttempts.rows.map numberKey).Nodup)
    (hkeep : ∀ a ∈ s.executionAttempts.rows, ∃ b ∈ s'.executionAttempts.rows, b.identity = a.identity) :
    Lineage s' := by
  refine ⟨hn, fun r hmem hb => ?_, hr ▸ h.sequenced⟩
  rw [hr] at hmem
  exact (h.named r hmem hb).of_identity hkeep

theorem Lineage.insertResult (h : Lineage s) (hok : s.insertResult r = .ok s')
    (hn : r.kind = .batch → Names s r.workspaceID r.taskID r.attemptID) : Lineage s' := by
  obtain ⟨hclash, -, hrows, hs⟩ := insertResult_eq_ok hok
  have ha : s'.executionAttempts = s.executionAttempts := by rw [hs]
  refine ⟨ha ▸ h.numbered, ?_, ?_⟩
  · intro q hq
    rw [hrows, mem_append, mem_singleton] at hq
    rw [Names, ha]
    rcases hq with hq | rfl
    · exact h.named q hq
    · exact hn
  · rw [hrows, filter_append, map_append]
    refine h.sequenced.append (((nodup_singleton r).filter _).map_on (by simp +contextual)) ?_
    intro k hk hk'
    obtain ⟨q, hq, rfl⟩ := mem_map.mp hk
    obtain ⟨r', hr, hkey⟩ := mem_map.mp hk'
    simp only [mem_filter, mem_singleton, Bool.and_eq_true, beq_iff_eq] at hq hr
    obtain ⟨rfl, hkind, hvalid⟩ := hr
    simp only [sequenceKey, Prod.mk.injEq] at hkey
    have := hclash q hq.1
    simp [resultClash, hkey, hkind, hvalid, hq.2] at this

/-- The lineage where a submission stands: before its `INSERT` it has passed its check. -/
theorem Lineage.submitStep (h : Lineage s)
    (hn : stage = .insert → Names s r.workspaceID r.taskID r.attemptID) :
    Lineage (s.submitStep r stage).1 ∧ ((s.submitStep r stage).2 = .insert →
      Names (s.submitStep r stage).1 r.workspaceID r.taskID r.attemptID) := by
  by_cases hs : stage = .insert
  · subst hs
    cases hok : s.insertResult r with
    | ok s' =>
      simp only [Store.submitStep, hok]
      exact ⟨h.insertResult hok fun _ => hn rfl, fun he => by cases he⟩
    | error e =>
      simp only [Store.submitStep, hok]
      exact ⟨h, fun he => by cases he⟩
  · obtain ⟨stage', hstep, hcheck⟩ := submitStep_of_ne (s := s) (r := r) hs
    rw [hstep]
    refine ⟨h, fun he => ?_⟩
    obtain ⟨a, ha, hw, ht, -⟩ := Server.names_of_check (hcheck he)
    exact ⟨a, ha, hw, ht⟩

/-! ## Runs -/

/-- A call of either insert, or the tables of tasks and attempts another call leaves. -/
inductive Event where
  | direct (c : Ctx) (r : Result)
  | idempotent (c : Ctx) (newID : String) (r : Result)
  | write (tasks : Table Task.id) (attempts : Table ExecutionAttempt.id)

/-- `UNIQUE (workspace_id, task_id, attempt_number)`, and the trigger that keeps the identity of
attempts. -/
def Accepted (s : Store) (attempts : Table ExecutionAttempt.id) : Prop :=
  (attempts.rows.map numberKey).Nodup ∧
    ∀ a ∈ s.executionAttempts.rows, ∃ b ∈ attempts.rows, b.identity = a.identity

instance (attempts : Table ExecutionAttempt.id) : Decidable (Accepted s attempts) :=
  inferInstanceAs (Decidable (_ ∧ _))

def step (env : Env) (s : Store) : Event → Store
  | .direct c r => (s.insertResultDirect env c r).1
  | .idempotent c newID r => (s.insertResultIdempotent env c newID r).1
  | .write tasks attempts =>
    if Accepted s attempts then { s with tasks, executionAttempts := attempts } else s

/-- A batch given to `InsertResult` names an attempt of its task, or its task does; and where
neither names one, the legacy attempt is no attempt of another task. -/
def Traced (s : Store) : Event → Prop
  | .direct c r => r.kind = .batch ∨ r.kind = .other "" →
    match s.givenAttempt c r with
    | some id => Names s c.workspace r.taskID id
    | none => s.executionAttempts.find? ("legacy-direct-" ++ r.taskID) = none ∨
      Names s c.workspace r.taskID ("legacy-direct-" ++ r.taskID)
  | _ => True

theorem Lineage.directAttempt (h : Lineage s) : Lineage (s.directAttempt c r).1 ∧
    (Traced s (.direct c r) → r.kind = .batch ∨ r.kind = .other "" →
      Names (s.directAttempt c r).1 c.workspace r.taskID (s.directAttempt c r).2) := by
  simp only [Traced, Store.directAttempt]
  split
  · exact ⟨h, fun hn => hn⟩
  · split
    · rename_i attempts hins
      have hrows := (insert?_eq_some.mp hins).2
      refine ⟨h.of_identity rfl ?_ fun b hb => ⟨b, hrows ▸ mem_append_left _ hb, rfl⟩,
        fun _ _ => ⟨_, (wrote_insert? hins).self, rfl, rfl⟩⟩
      rw [hrows, map_append, map_singleton]
      refine h.numbered.append (nodup_singleton _) fun k hk hk' => ?_
      obtain ⟨b, hb, rfl⟩ := mem_map.mp hk
      simp only [mem_singleton, numberKey, Prod.mk.injEq] at hk'
      exact (lt_nextAttemptNumber hb hk'.1 hk'.2.1).ne hk'.2.2
    · rename_i hins
      refine ⟨h, fun hn hkind => (hn hkind).resolve_left fun hfree => ?_⟩
      obtain ⟨attempts, hsome⟩ := exists_insert? (r := s.legacyAttempt c r) hfree
      cases hins.symm.trans hsome

/-- A traced event keeps every row of a result with its attempt. -/
theorem Lineage.step {e : Event} (h : Lineage s) (ht : Traced s e) : Lineage (step env s e) := by
  cases e with
  | direct c r =>
    simp only [ResultPages.step, insertResultDirect]
    cases htask : s.getTaskByID c r.taskID with
    | error e => exact h
    | ok t =>
      obtain ⟨h', hn⟩ := h.directAttempt (c := c) (r := r)
      dsimp only
      split
      · rename_i s' hok
        refine h'.insertResult hok fun hb => hn ht ?_
        by_cases hk : r.kind = .other ""
        · exact .inr hk
        · exact .inl (by simpa [directRow, hk] using hb)
      · exact h'
  | idempotent c newID r =>
    obtain ⟨h₁, hn₁⟩ := h.submitStep (r := r.prepare env c newID) fun he =>
      absurd he (submitStart_ne_insert _)
    obtain ⟨h₂, hn₂⟩ := h₁.submitStep hn₁
    exact (h₂.submitStep hn₂).1
  | write tasks attempts =>
    simp only [ResultPages.step]
    split
    · rename_i haccepted
      exact h.of_identity rfl haccepted.1 haccepted.2
    · exact h

/-! ## Pages -/

/-- `p` is of an earlier attempt, or comes no later in its attempt. -/
def Before (s : Store) (p q : Result) : Prop :=
  s.attemptNumber p < s.attemptNumber q ∨ s.attemptNumber p = s.attemptNumber q ∧ p.sequence ≤ q.sequence

/-- The pages of a task, each with an order of its own where the query does not say, are its valid
batches in order. -/
def Partitioned (s : Store) : Prop :=
  ∀ c taskID (limit : Nat) includeInvalid (tie : Nat → Result → Nat) t, s.getTaskByID c taskID = .ok t →
    1 ≤ limit → limit ≤ 500 → ∃ pages : Nat → ResultPage,
      (∀ i, s.listResultPage c taskID limit (i * limit : Nat) includeInvalid (tie i) = .ok (pages i)) ∧
      (∀ i, (pages i).total = (s.batchesOf c taskID true).length) ∧
      ∀ n, (s.batchesOf c taskID true).length ≤ n * limit →
        ((range n).flatMap fun i => (pages i).batches).Perm (s.batchesOf c taskID true) ∧
        ((range n).flatMap fun i => (pages i).batches).Pairwise (Before s)

theorem flatMap_pages {α : Type} (l : List α) (k n : Nat) :
    ((range n).flatMap fun i => (l.drop (i * k)).take k) = l.take (n * k) := by
  induction n with
  | zero => simp
  | succ n ih => rw [range_succ, flatMap_append, ih, Nat.succ_mul, take_add, flatMap_singleton]

theorem pairwise_orderBy {α κ : Type} [LinearOrder κ] {key : α → κ} {l : List α} (tie : α → Nat) :
    (orderBy key tie l).Pairwise fun a b => key a ≤ key b :=
  (Sorting.pairwise_sortOn _ l).imp fun {_ _} hab => by exact Prod.Lex.monotone_fst_ofLex hab

/-- Keys that tell the rows apart leave nothing to the tie. -/
theorem orderBy_eq {α κ : Type} [LinearOrder κ] {key : α → κ} {l : List α} (tie tie' : α → Nat)
    (hinj : ∀ a ∈ l, ∀ b ∈ l, key a = key b → a = b) : orderBy key tie l = orderBy key tie' l := by
  refine Perm.eq_of_pairwise (fun a b ha hb hab hba => ?_) (pairwise_orderBy tie) (pairwise_orderBy tie')
    ((Sorting.perm_sortOn _ l).trans (Sorting.perm_sortOn _ l).symm)
  exact hinj a (Sorting.mem_sortOn.mp ha) b (Sorting.mem_sortOn.mp hb) (hab.antisymm hba)

theorem mem_batchesOf : r ∈ s.batchesOf c taskID true ↔ r ∈ s.results.rows ∧
    ((r.workspaceID = c.workspace ∧ r.taskID = taskID) ∧ r.kind = .batch) ∧ r.valid = true := by
  simp [batchesOf]

theorem Lineage.attempt (h : Lineage s) (hr : r ∈ s.batchesOf c taskID true) :
    ∃ a, s.executionAttempts.find? r.attemptID = some a ∧ a.workspaceID = c.workspace ∧
      a.taskID = taskID ∧ s.joins r = true ∧ s.attemptNumber r = a.number := by
  obtain ⟨hmem, ⟨⟨hw, ht⟩, hkind⟩, -⟩ := mem_batchesOf.mp hr
  obtain ⟨a, ha, hwa, hta⟩ := h.named r hmem hkind
  exact ⟨a, ha, hwa.trans hw, hta.trans ht, by simp [joins, ha, hwa], by simp [attemptNumber, ha]⟩

theorem Lineage.pageKey_inj (h : Lineage s) : ∀ p ∈ s.batchesOf c taskID true,
    ∀ q ∈ s.batchesOf c taskID true, s.pageKey p = s.pageKey q → p = q := by
  intro p hp q hq hkey
  obtain ⟨a, ha, hwa, hta, -, hna⟩ := h.attempt hp
  obtain ⟨b, hb, hwb, htb, -, hnb⟩ := h.attempt hq
  simp only [pageKey, toLex_inj, Prod.mk.injEq, hna, hnb] at hkey
  have hab : a = b := inj_on_of_nodup_map h.numbered (mem_of_find? ha) (mem_of_find? hb)
    (by simp only [numberKey, hwa, hwb, hta, htb, hkey.1])
  obtain ⟨hprow, ⟨⟨hpw, hpt⟩, hpk⟩, hpv⟩ := mem_batchesOf.mp hp
  obtain ⟨hqrow, ⟨⟨hqw, hqt⟩, hqk⟩, hqv⟩ := mem_batchesOf.mp hq
  refine inj_on_of_nodup_map h.sequenced (mem_filter.mpr ⟨hprow, by simp [hpk, hpv]⟩)
    (mem_filter.mpr ⟨hqrow, by simp [hqk, hqv]⟩) ?_
  simp only [sequenceKey, hpw, hqw, hpt, hqt, ← key_of_find? ha, ← key_of_find? hb, hab, hkey.2.1]

/-- Where rows have their attempts, the pages list each row once. -/
theorem Lineage.partitioned (h : Lineage s) : Partitioned s := by
  intro c taskID limit includeInvalid tie t ht hlo hhi
  let rows := orderBy s.pageKey (fun _ => 0) (s.batchesOf c taskID true)
  have hperm : rows.Perm (s.batchesOf c taskID true) := Sorting.perm_sortOn _ _
  have hpage : ∀ i : Nat, ∃ p, s.listResultPage c taskID limit (i * limit : Nat) includeInvalid (tie i) = .ok p ∧
      p.total = (s.batchesOf c taskID true).length ∧ p.batches = (rows.drop (i * limit)).take limit := by
    intro i
    have hlimit : ¬ ((limit : Int) ≤ 0 || 500 < (limit : Int)) := by
      simp
      omega
    have hoffset : ¬ ((i * limit : Nat) : Int) < 0 := by omega
    have hjoins : (s.batchesOf c taskID true).filter s.joins = s.batchesOf c taskID true :=
      filter_eq_self.mpr fun r hr => (h.attempt hr).choose_spec.2.2.2.1
    simp only [listResultPage, ht, if_neg hlimit, if_neg hoffset, hjoins]
    exact ⟨_, rfl, rfl, by rw [orderBy_eq _ (fun _ => 0) h.pageKey_inj]; rfl⟩
  choose pages hok htotal hbatches using hpage
  refine ⟨pages, hok, htotal, fun n hn => ?_⟩
  have hall : ((range n).flatMap fun i => (pages i).batches) = rows := by
    simp only [hbatches]
    rw [flatMap_pages, take_of_length_le (hperm.length_eq.trans_le hn)]
  rw [hall]
  refine ⟨hperm, (pairwise_orderBy _).imp fun {p q} hkey => ?_⟩
  rcases Prod.Lex.toLex_le_toLex.mp hkey with hlt | ⟨heq, hle⟩
  · exact .inl hlt
  · exact .inr ⟨heq, Prod.Lex.monotone_fst_ofLex hle⟩

/-- **Result pages.** In every run whose batches name attempts of their tasks, the pages of a task,
one after the other, are its valid batches in order. -/
theorem pages_partition (env : Env) {es : List Event} (hi : s.Initial)
    (h : Meets (step env) Traced s es) : Always (step env) Partitioned s es := by
  refine (h.always (I := Lineage) ?_ fun s e hs he => hs.step he).mono fun s hs => hs.partitioned
  constructor <;> simp [hi.executionAttempts, hi.results]

/-- A task with no attempt, and a result of it that names `attemptID`. -/
def directRun (attemptID : AttemptID) : List Event :=
  [.write (Op.apply Sample.config Sample.store (Sample.create "task" 0)).tasks .empty,
    .direct (Sample.at' 1) { Sample.result "key" 1 .batch "[1]" true with attemptID }]

/-- A task with no attempt, and two results of it. -/
def legacyRun : List Event :=
  directRun "" ++
    [.direct (Sample.at' 2) { Sample.result "second" 2 .batch "[2]" true with attemptID := "" }]

theorem pages_partition_legacy :
    Always (step Sample.config.env) Partitioned Sample.store legacyRun :=
  pages_partition _ Sample.store_initial ⟨trivial, fun _ => .inl rfl,
    fun _ => .inr ⟨_, rfl, rfl, rfl⟩, trivial⟩

/-- The row of an attempt that does not exist counts in the total and is on no page. -/
theorem pages_hide_row : ¬ ∀ (env : Env) (s : Store) (es : List Event), s.Initial →
    Always (step env) Partitioned s es := by
  intro h
  have hpages := (h Sample.config.env Sample.store (directRun "first") Sample.store_initial).run
  obtain ⟨pages, hok, -, hall⟩ := hpages (Sample.at' 1) "task" 1 false (fun _ _ => 0) _ rfl (by decide) (by decide)
  have hlength := (hall 1 (by decide)).1.length_eq
  have hnone : (pages 0).batches = [] :=
    congrArg ResultPage.batches (Except.ok.inj ((hok 0).symm.trans rfl))
  rw [show range 1 = [0] from rfl, flatMap_singleton, hnone] at hlength
  exact absurd hlength (by decide)

end ResultPages

end Aegis
