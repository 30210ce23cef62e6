import Aegis.Lifecycle.Keeps
import Aegis.Lifecycle.Lockstep

/-!
# Results.Server

The store with the result submissions in flight.

A call of `InsertResultIdempotent` is three statements; between any two of them other calls run,
other submissions included. An event starts a submission, lets one take its next statement, or is
a store call, so a list of events is an interleaving and every interleaving is one.
-/

namespace Aegis

/-- A call of `InsertResultIdempotent` and where it stands. -/
structure Submission where
  row : Result
  stage : SubmitStage

/-- `completed` and `late` record what the properties below are about and decide no step: the
attempts that a report has completed, and the rows inserted for an attempt that did not hold its
task any more. -/
structure Server where
  store : Store
  submissions : List Submission
  completed : List AttemptID
  late : List Result

inductive Event where
  | call (op : Op) (admitted : op.isAdmitted = true)
  | submit (c : Ctx) (newID : String) (r : Result)
  | advance (i : Nat)

/-- The attempt that a store call completes through `UpdateTaskStatusForAttempt`. -/
def Op.completes (s : Store) (op : Op) : Option AttemptID :=
  match op with
  | updateTaskStatusForAttempt c taskID workerID attemptID .done message errorType =>
    match s.updateTaskStatusForAttempt c taskID workerID attemptID .done message errorType with
    | .ok (_, false) => some attemptID
    | _ => none
  | _ => none

def Store.accepts (s : Store) (r : Result) : Bool :=
  s.executionAttempts.any fun a => a.id == r.attemptID && a.taskID == r.taskID &&
    a.status.isOpen && s.tasks.any fun t => t.id == a.taskID && t.currentAttemptID == some a.id

namespace Server

variable (cfg : Config)

def advance (v : Server) (i : Nat) : Server :=
  match v.submissions[i]? with
  | none => v
  | some sub =>
    let (store, stage) := v.store.submitStep sub.row sub.stage
    { v with
      store := store
      submissions := v.submissions.set i { sub with stage := stage }
      late :=
        if sub.stage = .insert ∧ stage = .returned (.ok false) ∧ v.store.accepts sub.row = false then
          v.late ++ [sub.row]
        else v.late }

def step (v : Server) : Event → Server
  | .call op _ =>
    { v with
      store := op.apply cfg v.store
      completed := v.completed ++ (op.completes v.store).toList }
  | .submit c newID r =>
    let row := r.prepare cfg.env c newID
    { v with submissions := v.submissions ++ [⟨row, Store.submitStart row⟩] }
  | .advance i => v.advance i

variable {cfg} {v v' : Server} {sub : Submission} {i : Nat}

theorem advance_of_none (hi : v.submissions[i]? = none) : v.advance i = v := by
  simp [advance, hi]

theorem advance_of_ne {stage : SubmitStage} (hi : v.submissions[i]? = some sub) (hs : sub.stage ≠ .insert)
    (hstep : v.store.submitStep sub.row sub.stage = (v.store, stage)) :
    v.advance i = { v with submissions := v.submissions.set i { sub with stage := stage } } := by
  simp [advance, hi, hstep, hs]

theorem advance_of_error {e : StoreError} (hi : v.submissions[i]? = some sub)
    (hs : sub.stage = .insert) (he : v.store.insertResult sub.row = .error e) :
    v.advance i =
      { v with
        submissions :=
          v.submissions.set i { sub with stage := .returned (.error .resultConflict) } } := by
  have := Store.insertResult_eq_error he
  simp [advance, hi, hs, Store.submitStep, he, this]

theorem advance_of_ok {s' : Store} (hi : v.submissions[i]? = some sub)
    (hs : sub.stage = .insert) (hok : v.store.insertResult sub.row = .ok s') :
    v.advance i =
      { v with
        store := s'
        submissions := v.submissions.set i { sub with stage := .returned (.ok false) }
        late := if v.store.accepts sub.row then v.late else v.late ++ [sub.row] } := by
  cases ha : v.store.accepts sub.row <;> simp [advance, hi, hs, Store.submitStep, hok, ha]

theorem advance_cases (v : Server) (i : Nat) : (v.submissions[i]? = none ∧ v.advance i = v) ∨
      ∃ sub, v.submissions[i]? = some sub ∧ ((sub.stage ≠ .insert ∧
            ∃ stage, v.store.submitStep sub.row sub.stage = (v.store, stage) ∧ v.advance i =
                { v with submissions := v.submissions.set i { sub with stage := stage } }) ∨
          (sub.stage = .insert ∧ (∃ e, v.store.insertResult sub.row = .error e) ∧ v.advance i =
              { v with
                submissions :=
                  v.submissions.set i { sub with stage := .returned (.error .resultConflict) } }) ∨
          (sub.stage = .insert ∧ ∃ s', v.store.insertResult sub.row = .ok s' ∧ v.advance i =
              { v with
                store := s'
                submissions := v.submissions.set i { sub with stage := .returned (.ok false) }
                late :=
                  if v.store.accepts sub.row then v.late else v.late ++ [sub.row] })) := by
  cases hi : v.submissions[i]? with
  | none => exact .inl ⟨rfl, advance_of_none hi⟩
  | some sub =>
    refine .inr ⟨sub, rfl, ?_⟩
    by_cases hs : sub.stage = .insert
    · right
      cases hok : v.store.insertResult sub.row with
      | error e => exact .inl ⟨hs, ⟨e, rfl⟩, advance_of_error hi hs hok⟩
      | ok s' => exact .inr ⟨hs, s', rfl, advance_of_ok hi hs hok⟩
    · left
      obtain ⟨stage, hstep, -⟩ := Store.submitStep_of_ne (s := v.store) (r := sub.row) hs
      exact ⟨hs, stage, hstep, advance_of_ne hi hs hstep⟩

/-- The row names an attempt that exists, with its task and worker. -/
def Names (s : Store) (r : Result) : Prop :=
  ∃ a, s.executionAttempts.find? r.attemptID = some a ∧ a.workspaceID = r.workspaceID ∧
    a.taskID = r.taskID ∧ a.workerID = r.workerID

theorem Names.keeps {s s' : Store} {r : Result} (h : Names s r) (hk : Store.Keeps s s') : Names s' r := by
  obtain ⟨a, ha, hw, ht, hk'⟩ := h
  obtain ⟨a', ha', hid, -⟩ := hk.attempts ha
  simp only [ExecutionAttempt.identity, Prod.mk.injEq] at hid
  exact ⟨a', ha', hid.2.1.trans hw, hid.2.2.1.trans ht, hid.2.2.2.2.1.trans hk'⟩

/-- A submission that may run its `INSERT` has passed its activity check. -/
structure Sound (v : Server) : Prop where
  good : v.store.Good
  checked : ∀ sub ∈ v.submissions, sub.stage = .insert → Names v.store sub.row

theorem names_of_check {s : Store} {r : Result} (h : s.checkResult r = .insert) : Names s r := by
  obtain ⟨a, ha, hact⟩ := Store.checkResult_eq_insert.mp h
  simp only [Store.isActiveFor, Bool.and_eq_true, beq_iff_eq] at hact
  exact ⟨a, ha, hact.1.1.1.1.1, hact.1.1.1.2, hact.1.1.2⟩

theorem good_of_insertResult {s s' : Store} {r : Result} (hg : s.Good)
    (h : s.insertResult r = .ok s') : s'.Good := by
  rw [(Store.insertResult_eq_ok h).2.2.2]
  exact hg

theorem forall_set {P : Submission → Prop} {new : Submission} (hold : ∀ q ∈ v.submissions, P q)
    (hnew : P new) : ∀ q ∈ v.submissions.set i new, P q := by
  intro q hq
  rcases List.mem_or_eq_of_mem_set hq with hq | rfl
  · exact hold q hq
  · exact hnew

theorem Sound.advance (h : Sound v) (i : Nat) : Sound (v.advance i) := by
  rcases advance_cases v i with ⟨-, hv⟩ | ⟨sub, hi, hcases⟩
  · rwa [hv]
  · rcases hcases with ⟨hs, stage, hstep, hv⟩ | ⟨-, -, hv⟩ | ⟨-, s', hok, hv⟩
    · rw [hv]
      refine ⟨h.good, forall_set h.checked fun hstage => ?_⟩
      obtain rfl : stage = .insert := hstage
      exact names_of_check (Store.check_of_submitStep hs hstep)
    · rw [hv]
      exact ⟨h.good, forall_set h.checked nofun⟩
    · rw [hv]
      have hnames : ∀ r, Names s' r ↔ Names v.store r := by
        rw [(Store.insertResult_eq_ok hok).2.2.2]
        exact fun r => Iff.rfl
      refine ⟨good_of_insertResult h.good hok, forall_set ?_ nofun⟩
      exact fun q hq hqs => (hnames q.row).mpr (h.checked q hq hqs)

theorem Sound.step (h : Sound v) (e : Event) : Sound (v.step cfg e) := by
  cases e with
  | call op ha =>
    refine ⟨?_, fun sub hsub hs => (h.checked sub hsub hs).keeps (Store.keeps_apply cfg _ op)⟩
    rcases Op.apply_eq cfg v.store op with ho | ho
    · exact (congrArg Store.Good ho).mpr h.good
    · exact (Op.simulates h.good ha ho).good h.good
  | submit c newID r =>
    refine ⟨h.good, fun sub hsub hs => ?_⟩
    rcases List.mem_append.mp hsub with hsub | hsub
    · exact h.checked sub hsub hs
    · obtain rfl := List.mem_singleton.mp hsub
      exact absurd hs (Store.submitStart_ne_insert _)
  | advance i => exact h.advance i

structure Initial (v : Server) : Prop where
  store : v.store.Initial
  submissions : v.submissions = []
  completed : v.completed = []
  late : v.late = []

def Reachable (cfg : Config) (v : Server) : Prop :=
  ∃ v₀ es, Initial v₀ ∧ run (Server.step cfg) v₀ es = v

theorem Initial.sound (h : Initial v) : Sound v :=
  ⟨h.store.good, fun sub hsub => by rw [h.submissions] at hsub; cases hsub⟩

theorem Reachable.sound (h : Reachable cfg v) : Sound v := by
  obtain ⟨v₀, es, hi, rfl⟩ := h
  exact run_invariant (fun _ e hs => hs.step e) hi.sound

end Server

namespace Sample

def server : Server := ⟨store, [], [], []⟩

theorem server_initial : Server.Initial server := ⟨store_initial, rfl, rfl, rfl⟩

def result (key : String) (sequence : Int) (kind : ResultKind) (payload : JSON) (valid : Bool) :
    Result where
  id := ""
  workspaceID := ""
  taskID := "task"
  workerID := "worker"
  attemptID := "first"
  idempotencyKey := key
  sequence := sequence
  kind := kind
  payload := payload
  payloadHash := ""
  valid := valid
  validationError := ""
  immediate := false
  createdAt := Time.zero

def submit (newID : String) (r : Result) : Event := .submit (at' 10) newID r

def claimed : List Event :=
  [.call (create "task" 0) rfl, .call (claim "worker" "first" 1) rfl]

end Sample

end Aegis
