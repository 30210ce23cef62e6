import Aegis.Worker.HttpTransport

/-!
# Worker.Reports

What is reported of an attempt when its run is over: `runTask`, of `worker/Worker.ts`, and `boot`, of
`scriptcat-engine/userscript-entry.ts` with its `scriptcat-engine/transport.ts`.

A run is given by the statuses that its steps and the engine report, by what it leaves of the
submission state and by how it ends. Messages of errors are parameters.
-/

namespace Aegis

open List Option

namespace Worker

inductive RunStatus where
  | success | failure | cancelled
deriving DecidableEq

inductive RunEnd where
  | returned (status : RunStatus) (message summary : String)
  | threw (e : Thrown)

structure Run where
  statuses : List (String × String × Replies)
  state : ResultSubmissionState
  ended : RunEnd

structure Surroundings where
  /-- `none` is a rule that is not there. -/
  rule : Except Thrown (Option Run)
  started : Replies
  summary : Replies
  terminal : Replies
  log : Replies
  failed : Replies
  message : Thrown → String

def taskStatus : RunStatus → String
  | .success => "done"
  | .failure => "failed"
  | .cancelled => "cancelled"

def reportAll : List (String × String × Replies) → Sends Unit
  | [] => pure ()
  | (status, message, replies) :: rest =>
    -- a step that a status throws in goes on as the run does
    (sendStatus status message replies).handle (fun _ => pure ()) >>= fun _ => reportAll rest

def execute (s : Surroundings) : Sends Run :=
  match s.rule with
  | .error e => .throw e
  | .ok none => .throw .error
  | .ok (some run) => do
    reportAll run.statuses
    pure run

def reportEnd (s : Surroundings) (run : Run) : Sends Unit :=
  match run.ended with
  | .threw e => .throw e
  | .returned status message summary => do
    sendFinalSummary run.state summary (unsignalled s.summary)
    sendStatus (taskStatus status) message (unsignalled s.terminal)

def reportError (s : Surroundings) (e : Thrown) : Sends Unit :=
  if e = .abort then
    sendStatus "cancelled" "Task cancelled by operator" (unsignalled s.failed)
  else do
    sendLog "error" (s.message e) (unsignalled s.log)
    sendStatus "failed" (s.message e) (unsignalled s.failed)

def runTask (s : Surroundings) : Sends Unit :=
  ((do
    sendStatus "running" "started" s.started
    let run ← execute s
    reportEnd s run) : Sends Unit).handle (reportError s)

namespace Userscript

/-- `sendVersionedResult`, of a transport that has its own count. -/
def sendVersionedResult (nextSequence : Nat) (kind : Kind) (payload : String) (immediate : Bool)
    (replies : Replies) : Sends Unit :=
  ⟨[.results ⟨nextSequence + 1, kind, immediate, payload⟩],
    attempts (fun reply => match postResult reply with
      | .ok ack => if ack.success && ack.valid then .ok () else .error (.http 422)
      | .error e => .error e) replies maxAttempts 0⟩

/-- `sendStatus`, of a transport with an attempt: one attempt, and no error is passed on. -/
def sendStatus (status message : String) : Sends Unit :=
  if isEngineStatus status then pure () else ⟨[.status status message], .ok ()⟩

def reportAll : List (String × String × Replies) → Sends Unit
  | [] => pure ()
  | (status, message, _) :: rest => do
    sendStatus status message
    reportAll rest

inductive SessionStatus where
  | running | done | failed
deriving DecidableEq

def reportEnd (s : Surroundings) (run : Run) (status : RunStatus) (message summary : String) : Sends Unit :=
  ((do
    sendVersionedResult run.state.nextSequence .summary summary true s.summary
    sendStatus (taskStatus status) message) : Sends Unit).handle fun e =>
      sendStatus "failed" (s.message e)

/-- `boot`, of a task with an attempt. -/
def boot (session : Option SessionStatus) (matched : Bool) (s : Surroundings) : Sends Unit :=
  if session = some .done ∨ session = some .failed then pure ()
  else match s.rule with
    -- `fetchRule` passes no error on
    | .error _ | .ok none => sendStatus "failed" "Rule not found"
    | .ok (some run) =>
      if !matched then sendStatus "failed" "Domain mismatch"
      else do
        reportAll run.statuses
        match run.ended with
        | .threw e => .throw e
        | .returned status message summary => reportEnd s run status message summary

end Userscript

/-! ## What is reported -/

def RunEnd.isCancelled : RunEnd → Bool
  | .returned status _ _ => status == .cancelled
  | .threw e => e == .abort

def Run.reported (run : Run) : List String :=
  (run.statuses.map Prod.fst).filter fun status => isTerminal status && !isEngineStatus status

section

variable {s : Surroundings} {run : Run} {statuses : List (String × String × Replies)}
  {status message : String} {replies : Replies}

theorem handle_sendStatus : ((sendStatus status message replies).handle fun _ => pure ()) =
    ⟨(sendStatus status message replies).requests, .ok ()⟩ := by
  rw [Sends.handle]
  split
  · rfl
  · simp

theorem reportAll_result : (reportAll statuses).result = .ok () := by
  induction statuses with
  | nil => rfl
  | cons report rest ih =>
    obtain ⟨status, message, replies⟩ := report
    rw [reportAll, handle_sendStatus, Sends.bind_of_ok rfl]
    exact ih

theorem terminals_reportAll : terminals (reportAll statuses).requests =
    (statuses.map Prod.fst).filter fun status => isTerminal status && !isEngineStatus status := by
  induction statuses with
  | nil => rfl
  | cons report rest ih =>
    obtain ⟨status, message, replies⟩ := report
    rw [reportAll, handle_sendStatus, Sends.bind_of_ok rfl, terminals_append,
      terminals_sendStatus, ih, map_cons, filter_cons]
    split <;> rfl

theorem cancelled_not_reported : run.reported ≠ ["cancelled"] := by
  intro h
  have hmem : "cancelled" ∈ run.reported := h ▸ mem_singleton_self _
  have hreported := (mem_filter.mp hmem).2
  revert hreported
  decide

end

namespace Surroundings

variable (s : Surroundings)

def Acknowledged (run : Run) (summary : String) : Prop :=
  (sendFinalSummary run.state summary (unsignalled s.summary)).result = .ok ()

instance (run : Run) (summary : String) : Decidable (s.Acknowledged run summary) :=
  inferInstanceAs (Decidable (_ = _))

def due (acknowledged : Prop) [Decidable acknowledged] (ended : RunEnd) : String :=
  match ended with
  | .returned .cancelled _ _ | .threw .abort => "cancelled"
  | .returned .success _ _ => if acknowledged then "done" else "failed"
  | _ => "failed"

def expected : String :=
  match s.rule with
  | .error .abort => "cancelled"
  | .ok (some run) => match run.ended with
    | .returned status message summary =>
      due (s.Acknowledged run summary) (.returned status message summary)
    | .threw e => due False (.threw e)
  | _ => "failed"

/-- The run is not cancelled, leaves the end of the task to the worker, and the status that follows
an acknowledged summary gets through. -/
def GetsThrough (run : Run) : Prop :=
  run.reported = [] ∧ run.ended.isCancelled = false ∧
    ∀ status message summary, run.ended = .returned status message summary →
      s.Acknowledged run summary → attempts post (unsignalled s.terminal) maxAttempts 0 = .ok ()

/-- No cancellation is met before the run, and the run gets through. -/
def Reportable : Prop :=
  s.rule ≠ .error .abort ∧ ∀ run, s.rule = .ok (some run) → s.GetsThrough run

end Surroundings

section

variable {s : Surroundings} {run : Run} {status : RunStatus} {message summary : String}

theorem taskStatus_reported (h : status ≠ .cancelled) :
    isTerminal (taskStatus status) ∧ isEngineStatus (taskStatus status) = false := by
  cases status with
  | success | failure => decide
  | cancelled => exact absurd rfl h

variable {replies : Replies}

theorem sendStatus_cancelled : sendStatus "cancelled" message replies = pure () :=
  if_pos rfl

theorem terminals_failed :
    terminals (sendStatus "failed" message replies).requests = ["failed"] := by
  rw [terminals_sendStatus]
  rfl

theorem sendStatus_taskStatus (h : status ≠ .cancelled) :
    terminals (sendStatus (taskStatus status) message replies).requests = [taskStatus status] ∧
      (sendStatus (taskStatus status) message replies).result = attempts post replies maxAttempts 0 := by
  obtain ⟨hterminal, hengine⟩ := taskStatus_reported h
  refine ⟨?_, ?_⟩
  · rw [terminals_sendStatus, hterminal, hengine]
    rfl
  · rw [sendStatus, if_neg (by rw [hengine]; exact Bool.false_ne_true), if_pos hterminal]
    rfl

theorem terminals_reportError (e : Thrown) : terminals (reportError s e).requests =
    if e = .abort then [] else ["failed"] := by
  rw [reportError]
  split
  · rw [sendStatus_cancelled]
    rfl
  · rw [Sends.bind_of_ok sendLog_result, terminals_append, terminals_sendLog, terminals_failed]
    rfl

def endReports (s : Surroundings) (run : Run) : List String :=
  terminals ((reportEnd s run).handle (reportError s)).requests

theorem endReports_threw {e : Thrown} (h : run.ended = .threw e) :
    endReports s run = if e = .abort then [] else ["failed"] := by
  rw [endReports, reportEnd, h, Sends.handle_of_error Sends.throw_result, terminals_append,
    terminals_reportError]
  rfl

theorem endReports_refused (h : run.ended = .returned status message summary)
    (hno : ¬s.Acknowledged run summary) : endReports s run = ["failed"] := by
  rw [endReports, reportEnd, h]
  dsimp only
  cases hsummary : (sendFinalSummary run.state summary (unsignalled s.summary)).result with
  | ok a => exact absurd hsummary hno
  | error e =>
    have he : e ≠ .abort := fun he => sendVersionedResult_ne_abort (he ▸ hsummary)
    rw [Sends.bind_of_error hsummary, Sends.handle_of_error rfl, terminals_append,
      terminals_reportError, if_neg he, sendFinalSummary, terminals_sendVersionedResult]
    rfl

theorem endReports_acknowledged (h : run.ended = .returned status message summary)
    (hack : s.Acknowledged run summary) : endReports s run = if status = .cancelled then []
      else if attempts post (unsignalled s.terminal) maxAttempts 0 = .ok () then [taskStatus status]
      else [taskStatus status, "failed"] := by
  rw [endReports, reportEnd, h]
  dsimp only
  rw [Sends.bind_of_ok hack]
  split
  · rename_i hstatus
    rw [hstatus, taskStatus, sendStatus_cancelled, Sends.handle_of_ok rfl]
    simp [sendFinalSummary]
  · rename_i hstatus
    obtain ⟨hrequests, hresult⟩ :=
      @sendStatus_taskStatus status message (unsignalled s.terminal) hstatus
    rw [hresult]
    cases hterminal : attempts post (unsignalled s.terminal) maxAttempts 0 with
    | ok a =>
      rw [Sends.handle_of_ok rfl, if_pos rfl]
      simp [sendFinalSummary, hrequests]
    | error e =>
      have he : e ≠ .abort := fun he =>
        attempts_ne_abort (fun n => post_unsignalled) (he ▸ hterminal)
      rw [Sends.handle_of_error rfl, if_neg nofun,
        terminals_append, terminals_append, hrequests, terminals_reportError, if_neg he,
        sendFinalSummary, terminals_sendVersionedResult]
      rfl

theorem runTask_of_run (h : s.rule = .ok (some run)) : terminals (runTask s).requests =
    run.reported ++ endReports s run := by
  rw [Run.reported, ← terminals_reportAll]
  have hrunning : (sendStatus "running" "started" s.started).result = .ok () :=
    postWithRetry_result
  have hexecute : execute s = ⟨(reportAll run.statuses).requests, .ok run⟩ := by
    rw [execute, h]
    dsimp only
    rw [Sends.bind_of_ok reportAll_result]
    simp
  have hquiet : terminals (sendStatus "running" "started" s.started).requests = [] := by
    rw [terminals_sendStatus]
    rfl
  rw [runTask, Sends.bind_of_ok hrunning, hexecute, Sends.bind_of_ok rfl, endReports, Sends.handle,
    Sends.handle]
  dsimp only
  split <;> simp [hquiet]

theorem runTask_without_run (e : Thrown) (h : (execute s) = .throw e) :
    terminals (runTask s).requests = if e = .abort then [] else ["failed"] := by
  have hrunning : (sendStatus "running" "started" s.started).result = .ok () :=
    postWithRetry_result
  have hquiet : terminals (sendStatus "running" "started" s.started).requests = [] := by
    rw [terminals_sendStatus]
    rfl
  rw [runTask, Sends.bind_of_ok hrunning, h, Sends.bind_of_error Sends.throw_result,
    Sends.handle_of_error rfl, terminals_append, terminals_append, terminals_reportError, hquiet]
  rfl

theorem append_singleton_iff {reports : List String} {x y : String} :
    reports ++ [x] = [y] ↔ reports = [] ∧ x = y := by
  cases reports with
  | nil | cons a reports => simp

theorem due_returned {acknowledged : Prop} [Decidable acknowledged] (h : status ≠ .cancelled)
    (hack : acknowledged) :
    Surroundings.due acknowledged (.returned status message summary) = taskStatus status := by
  cases status with
  | success => exact if_pos hack
  | failure => rfl
  | cancelled => exact absurd rfl h

theorem due_refused {acknowledged : Prop} [Decidable acknowledged] (hack : ¬acknowledged) :
    Surroundings.due acknowledged (.returned status message summary) =
      if status = .cancelled then "cancelled" else "failed" := by
  cases status with
  | success => exact if_neg hack
  | failure | cancelled => rfl

theorem reports_iff (h : s.rule = .ok (some run)) :
    terminals (runTask s).requests = [s.expected] ↔ s.GetsThrough run := by
  rw [runTask_of_run h, Surroundings.GetsThrough, Surroundings.expected, h]
  dsimp only
  cases hended : run.ended with
  | threw e =>
    rw [endReports_threw hended]
    cases e with
    | abort => simp [RunEnd.isCancelled, Surroundings.due, cancelled_not_reported]
    | http status | error => simp [RunEnd.isCancelled, Surroundings.due]
  | returned status message summary =>
    dsimp only
    by_cases hstatus : status = .cancelled
    · subst hstatus
      by_cases hack : s.Acknowledged run summary
      · rw [endReports_acknowledged hended hack]
        simp [RunEnd.isCancelled, Surroundings.due, cancelled_not_reported]
      · rw [endReports_refused hended hack]
        simp [RunEnd.isCancelled, Surroundings.due, append_singleton_iff]
    · have hlive : (RunEnd.returned status message summary).isCancelled = false := by
        rw [RunEnd.isCancelled, beq_eq_false_iff_ne]
        exact hstatus
      by_cases hack : s.Acknowledged run summary
      · rw [endReports_acknowledged hended hack, if_neg hstatus, due_returned hstatus hack]
        by_cases hsent : attempts post (unsignalled s.terminal) maxAttempts 0 = .ok ()
        · rw [if_pos hsent, append_singleton_iff]
          exact ⟨fun hsilent => ⟨hsilent.1, hlive, fun _ _ _ _ _ => hsent⟩,
            fun hgets => ⟨hgets.1, rfl⟩⟩
        · rw [if_neg hsent]
          refine ⟨fun heq => ?_, fun hgets => absurd (hgets.2.2 _ _ _ rfl hack) hsent⟩
          have hlength := congrArg List.length heq
          simp at hlength
      · rw [endReports_refused hended hack, append_singleton_iff]
        have hdue : Surroundings.due (s.Acknowledged run summary)
            (.returned status message summary) = "failed" := by
          rw [due_refused hack, if_neg hstatus]
        refine ⟨fun hsilent => ⟨hsilent.1, hlive, fun _ _ _ heq hack' => ?_⟩,
          fun hgets => ⟨hgets.1, hdue.symm⟩⟩
        obtain ⟨rfl, rfl, rfl⟩ := RunEnd.returned.inj heq
        exact absurd hack' hack

/-- A worker reports the status that is due, once, exactly when the task is reportable. -/
theorem runTask_iff : terminals (runTask s).requests = [s.expected] ↔ s.Reportable := by
  rw [Surroundings.Reportable]
  cases hrule : s.rule with
  | error e =>
    have hexecute : execute s = .throw e := by
      rw [execute, hrule]
    rw [runTask_without_run e hexecute, Surroundings.expected, hrule]
    cases e with
    | abort | http status | error => simp
  | ok found =>
    cases found with
    | none =>
      have hexecute : execute s = .throw .error := by
        rw [execute, hrule]
      rw [runTask_without_run .error hexecute, Surroundings.expected, hrule]
      simp
    | some run =>
      rw [reports_iff hrule]
      refine ⟨fun hgets => ⟨fun h => (by cases h), fun run' h => ?_⟩, fun h => h.2 run rfl⟩
      cases h
      exact hgets

end

namespace Userscript

variable {s : Surroundings} {run : Run} {status : RunStatus} {message summary : String}
  {session : Option SessionStatus} {matched : Bool} {statuses : List (String × String × Replies)}

def Acknowledged (s : Surroundings) (run : Run) (summary : String) : Prop :=
  (sendVersionedResult run.state.nextSequence .summary summary true s.summary).result = .ok ()

instance (s : Surroundings) (run : Run) (summary : String) :
    Decidable (Acknowledged s run summary) :=
  inferInstanceAs (Decidable (_ = _))

def expected (matched : Bool) (s : Surroundings) : String :=
  match s.rule with
  | .ok (some run) =>
    if !matched then "failed"
    else match run.ended with
      | .returned status message summary =>
        Surroundings.due (Acknowledged s run summary) (.returned status message summary)
      | .threw e => Surroundings.due False (.threw e)
  | _ => "failed"

/-- The run returns, is not cancelled, and leaves the end of the task to `boot`; or it throws, after
it has reported the task as failed itself. -/
def GetsThrough (run : Run) : Prop :=
  match run.ended with
  | .returned status _ _ => run.reported = [] ∧ status ≠ .cancelled
  | .threw e => run.reported = ["failed"] ∧ e ≠ .abort

/-- The task is not finished in the session, and its run, when it comes to one, gets through. -/
def Reportable (session : Option SessionStatus) (matched : Bool) (s : Surroundings) : Prop :=
  (session ≠ some .done ∧ session ≠ some .failed) ∧
    ∀ run, s.rule = .ok (some run) → matched = true → GetsThrough run

theorem terminals_sendStatus {status : String} : terminals (sendStatus status message).requests =
    if isTerminal status && !isEngineStatus status then [status] else [] := by
  rw [sendStatus]
  split
  · rename_i h
    rw [h, Bool.not_true, Bool.and_false]
    rfl
  · rename_i h
    rw [Bool.not_eq_true] at h
    rw [h, Bool.not_false, Bool.and_true]
    by_cases hterminal : isTerminal status
    all_goals simp [terminals, hterminal]

theorem sendStatus_result {status : String} : (sendStatus status message).result = .ok () := by
  rw [sendStatus]
  split
  · rfl
  · rfl

theorem reportAll_result : (reportAll statuses).result = .ok () := by
  induction statuses with
  | nil => rfl
  | cons report rest ih =>
    rw [reportAll, Sends.bind_of_ok sendStatus_result]
    exact ih

theorem terminals_reportAll : terminals (reportAll run.statuses).requests = run.reported := by
  rw [Run.reported]
  induction run.statuses with
  | nil => rfl
  | cons report rest ih =>
    obtain ⟨status, message, replies⟩ := report
    rw [reportAll, Sends.bind_of_ok sendStatus_result, terminals_append, terminals_sendStatus, ih,
      map_cons, filter_cons]
    split <;> rfl

theorem terminals_reportEnd : terminals (reportEnd s run status message summary).requests =
    if Acknowledged s run summary then
      if status = .cancelled then [] else [taskStatus status]
    else ["failed"] := by
  have hquiet : terminals
      (sendVersionedResult run.state.nextSequence .summary summary true s.summary).requests = [] :=
    rfl
  rw [reportEnd]
  by_cases hack : Acknowledged s run summary
  · rw [if_pos hack, Sends.bind_of_ok hack, sendStatus_result, Sends.handle_of_ok rfl,
      terminals_append, hquiet, nil_append, terminals_sendStatus]
    cases status with
    | success | failure | cancelled => rfl
  · cases hsummary :
      (sendVersionedResult run.state.nextSequence .summary summary true s.summary).result with
    | ok a => exact absurd hsummary hack
    | error e =>
      rw [if_neg hack, Sends.bind_of_error hsummary, Sends.handle_of_error rfl, terminals_append,
        hquiet, nil_append, terminals_sendStatus]
      rfl

theorem boot_of_run (hsession : ¬(session = some .done ∨ session = some .failed))
    (h : s.rule = .ok (some run)) : terminals (boot session true s).requests =
      run.reported ++ match run.ended with
        | .threw _ => []
        | .returned status message summary =>
          terminals (reportEnd s run status message summary).requests := by
  rw [boot, if_neg hsession, h]
  dsimp only
  rw [if_neg (by decide), Sends.bind_of_ok reportAll_result, terminals_append,
    terminals_reportAll]
  cases run.ended with
  | threw e | returned status message summary => rfl

theorem reports_iff (hsession : ¬(session = some .done ∨ session = some .failed))
    (h : s.rule = .ok (some run)) :
    terminals (boot session true s).requests = [expected true s] ↔ GetsThrough run := by
  rw [boot_of_run hsession h, expected, h]
  dsimp only
  rw [if_neg (by decide), GetsThrough]
  cases run.ended with
  | threw e =>
    cases e with
    | abort => simp [Surroundings.due, cancelled_not_reported]
    | http status | error => simp [Surroundings.due]
  | returned status message summary =>
    dsimp only
    rw [terminals_reportEnd]
    by_cases hack : Acknowledged s run summary
    · rw [if_pos hack]
      by_cases hstatus : status = .cancelled
      · subst hstatus
        simp [Surroundings.due, cancelled_not_reported]
      · rw [if_neg hstatus, due_returned hstatus hack, append_singleton_iff]
        exact ⟨fun hsilent => ⟨hsilent.1, hstatus⟩, fun hgets => ⟨hgets.1, rfl⟩⟩
    · rw [if_neg hack, append_singleton_iff, due_refused hack]
      by_cases hstatus : status = .cancelled
      · rw [if_pos hstatus]
        exact ⟨fun h => absurd h.2 (by decide), fun h => absurd hstatus h.2⟩
      · rw [if_neg hstatus]
        exact ⟨fun hsilent => ⟨hsilent.1, hstatus⟩, fun hgets => ⟨hgets.1, rfl⟩⟩

/-- So does a userscript. -/
theorem boot_iff : terminals (boot session matched s).requests = [expected matched s] ↔
    Reportable session matched s := by
  rw [Reportable]
  by_cases hsession : session = some .done ∨ session = some .failed
  · rw [boot, if_pos hsession]
    refine ⟨fun h => (by cases h), fun h => ?_⟩
    rcases hsession with hdone | hfailed
    · exact absurd hdone h.1.1
    · exact absurd hfailed h.1.2
  have hrunning := not_or.mp hsession
  cases hrule : s.rule with
  | error e =>
    rw [boot, if_neg hsession, expected, hrule]
    exact ⟨fun _ => ⟨hrunning, nofun⟩, fun _ => terminals_sendStatus⟩
  | ok found =>
    cases found with
    | none =>
      rw [boot, if_neg hsession, expected, hrule]
      exact ⟨fun _ => ⟨hrunning, nofun⟩, fun _ => terminals_sendStatus⟩
    | some run =>
      cases matched with
      | false =>
        rw [boot, if_neg hsession, expected, hrule]
        dsimp only
        rw [Bool.not_false, if_pos rfl, if_pos rfl]
        exact ⟨fun _ => ⟨hrunning, nofun⟩, fun _ => terminals_sendStatus⟩
      | true =>
        rw [reports_iff hsession hrule]
        refine ⟨fun hgets => ⟨hrunning, fun run' heq _ => ?_⟩, fun h => h.2 run rfl rfl⟩
        cases heq
        exact hgets

end Userscript

/-- Exactly one terminal status is reported, the one that is due, exactly when the task is
reportable: by a worker, and by a userscript. -/
theorem terminal_report_iff (s : Surroundings) (session : Option Userscript.SessionStatus)
    (matched : Bool) :
    (terminals (runTask s).requests = [s.expected] ↔ s.Reportable) ∧
      (terminals (Userscript.boot session matched s).requests = [Userscript.expected matched s] ↔
        Userscript.Reportable session matched s) :=
  ⟨runTask_iff, Userscript.boot_iff⟩

def answered : Replies := fun _ => .ok (some ⟨true, true⟩)

def cancelledRun : Run where
  statuses := [("running", "Started rule", answered), ("cancelled", "cancelled", answered)]
  state := ⟨0, none⟩
  ended := .returned .cancelled "cancelled" "null"

def cancelledTask : Surroundings where
  rule := .ok (some cancelledRun)
  started := answered
  summary := answered
  terminal := answered
  log := answered
  failed := answered
  message := fun _ => "error"

/-- The end of a cancelled run is not reported, though every request is answered. -/
theorem cancelledTask_unreported :
    cancelledTask.expected = "cancelled" ∧ terminals (runTask cancelledTask).requests = [] ∧
      Userscript.expected true cancelledTask = "cancelled" ∧
      terminals (Userscript.boot none true cancelledTask).requests = [] := by
  decide

end Worker

end Aegis
