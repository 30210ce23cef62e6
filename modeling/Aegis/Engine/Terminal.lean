import Aegis.Models
import Mathlib.Tactic.ByContra

/-!
# Engine.Terminal

What `runRule` of `scriptcat-engine/executor.ts` reports at the end of a run: its variables `status`,
`message` and `fatalError`, as the phases update them, the statuses that it sends and its result.

How the steps of a phase end is any outcome of `runSteps`. A run in which the transport rejects a
call that no handler guards returns nothing and is left out.

* `runRule`  — the code.
* `Run.asks` — what the phases ask for, in order.
* `Settles`  — when the end of the run agrees with what was asked.
-/

namespace Aegis

open List

namespace Terminal

structure ExecutionError where
  type : String
  message : String
  recoverable : Bool

inductive Status where
  | success | failure | cancelled

def Status.text : Status → String
  | .success => "success"
  | .failure => "failure"
  | .cancelled => "cancelled"

/-- What `runSteps` throws; `other` is what `classifyError` makes of anything else. -/
inductive Thrown where
  | exitSignal (status : Status) (message : String)
  | abortError (message : String)
  | other (error : ExecutionError)

/-- A call of `runSteps`: the statuses that its `updateStatus` steps send, and how it ends. -/
structure StepsRun where
  statuses : List String
  result : Except Thrown (Option ExecutionError)

/-- How `validateOutput` ends. -/
inductive OutputCheck where
  | ok
  | invalid (errors : String)
  | threw (message : String)

/-- What happens in a run, as far as its phases are reached. There is no `beforeAll` when the rule
has none, on a resume, and when it has completed before; the other hooks likewise. `drain` is for a
rule that buffers, with the message when it throws. -/
structure Run where
  beforeAll : Option StepsRun
  main : StepsRun
  afterAll : Option StepsRun
  onError : Option StepsRun
  cleanup : Option StepsRun
  output : Option OutputCheck
  drain : Option (Option String)
  signalAborted : Bool

/-- The variables of `runRule`, and the statuses sent so far. -/
structure Progress where
  status : Status
  message : String
  fatalError : Option ExecutionError
  statuses : List String

structure ExecutionResult where
  status : Status
  message : String
  error : Option ExecutionError

structure Report where
  result : ExecutionResult
  statuses : List String

namespace Progress

variable (p : Progress)

def sends (statuses : List String) : Progress := { p with statuses := p.statuses ++ statuses }

def markFatalError (err : ExecutionError) : Progress :=
  { p with status := .failure, message := err.message, fatalError := some err }

def applyExit (status : Status) (message : String) : Progress :=
  match status with
  | .failure =>
    p.markFatalError (if message ≠ "" then ⟨"ExitFailure", message, false⟩
      else p.fatalError.getD ⟨"ExitFailure", p.message, false⟩)
  | .cancelled => { p with status := .cancelled, message := message }
  | .success =>
    -- an existing fatal error is kept
    if p.fatalError.isSome then p else { p with status := .success, message := message }

def applyAbort (message : String) : Progress :=
  { p with status := .cancelled, message := if message ≠ "" then message else "cancelled" }

/-- The handler of a phase; `otherwise` is for what is neither an exit nor an abort. -/
def caught (otherwise : ExecutionError → Progress) : Thrown → Progress
  | .exitSignal status message => p.applyExit status message
  | .abortError message => p.applyAbort message
  | .other error => otherwise error

def runMain (r : StepsRun) : Progress :=
  let p := p.sends r.statuses
  match r.result with
  | .ok none => p
  | .ok (some error) => p.markFatalError error
  | .error thrown => p.caught p.markFatalError thrown

def runHook (r : StepsRun) : Progress :=
  let p := p.sends r.statuses
  match r.result with
  | .ok _ => p
  | .error thrown => p.caught (fun _ => p) thrown

def lateHook : Option StepsRun → Progress
  | none => p
  | some r => p.runHook r

def checkOutput : Option OutputCheck → Progress
  | some (.invalid errors) => p.markFatalError ⟨"ValidationError", s!"output: {errors}", false⟩
  | some (.threw message) =>
    p.markFatalError ⟨"ConfigError", s!"output schema compile failed: {message}", false⟩
  | _ => p

def drained : Option (Option String) → Progress
  | some (some message) =>
    p.markFatalError ⟨"TransportError", s!"sendPolicy drain failed: {message}", false⟩
  | _ => p

def report : Report :=
  ⟨⟨p.status, p.message, p.fatalError⟩, p.statuses ++ [p.status.text]⟩

/-- From the hook `afterAll` on. -/
def complete (r : Run) : Report :=
  let p := p.lateHook r.afterAll
  let p := if p.fatalError.isSome then p.lateHook r.onError else p
  (((p.lateHook r.cleanup).checkOutput r.output).drained r.drain).report

/-- The end of a run whose `beforeAll` fails. -/
def finalize (error : ExecutionError) : Report :=
  ⟨⟨.failure, error.message, some error⟩, p.statuses ++ ["failed"]⟩

end Progress

def runRule (r : Run) : Report :=
  let p : Progress := ⟨.success, "", none, ["running"]⟩
  match r.beforeAll with
  | none => (p.runMain r.main).complete r
  | some before =>
    let p := p.sends before.statuses
    match before.result with
    | .ok none => (p.runMain r.main).complete r
    | .ok (some error) | .error (.other error) => p.finalize error
    -- the main steps are skipped
    | .error thrown => (p.caught (fun _ => p) thrown).complete r

inductive Ask where
  | success | cancelled | aborted | fatal
deriving DecidableEq

def Ask.status : Ask → Status
  | .success => .success
  | .cancelled | .aborted => .cancelled
  | .fatal => .failure

def Status.ask : Status → Ask
  | .success => .success
  | .failure => .fatal
  | .cancelled => .cancelled

namespace StepsRun

/-- What steps ask for by their end; `fatal` tells whether their errors are fatal. -/
def asks (fatal : Bool) (r : StepsRun) : List Ask :=
  match r.result with
  | .error (.exitSignal status _) => [status.ask]
  | .error (.abortError _) => [.aborted]
  | .ok (some _) | .error (.other _) => if fatal then [.fatal] else []
  | .ok none => []

def fails (r : StepsRun) : Bool :=
  match r.result with
  | .ok (some _) | .error (.other _) => true
  | _ => false

def ends (r : StepsRun) : Bool :=
  match r.result with
  | .ok none => true
  | _ => false

end StepsRun

namespace Run

variable (r : Run)

def early : List StepsRun :=
  match r.beforeAll with
  | none => [r.main]
  | some before => if before.ends then [before, r.main] else [before]

def earlyAsks : List Ask := r.early.flatMap (StepsRun.asks true)

def afterAsks : List Ask := r.earlyAsks ++ r.afterAll.toList.flatMap (StepsRun.asks false)

/-- `onError` is for a run with a fatal error. -/
def errorHook : Option StepsRun := if .fatal ∈ r.afterAsks then r.onError else none

/-- When `beforeAll` fails there are no later phases, and `Agree` is false whatever they ask. -/
def asks : List Ask :=
  r.afterAsks ++ (r.errorHook.toList ++ r.cleanup.toList).flatMap (StepsRun.asks false) ++
    (match r.output with | some (.invalid _) | some (.threw _) => [.fatal] | _ => []) ++
    (match r.drain with | some (some _) => [.fatal] | _ => [])

/-- The statuses that `updateStatus` steps send. -/
def updates : List String :=
  (r.early ++ r.afterAll.toList ++ r.errorHook.toList ++ r.cleanup.toList).flatMap (·.statuses)

end Run

def isTerminal (status : String) : Bool :=
  status ∈ ["success", "failure", "cancelled", "done", "failed"]

/-- The returned status, the error and the report of a run agree with what was asked in it. -/
structure Agree (r : Run) (o : Report) : Prop where
  success : o.result.status = .success ↔ .fatal ∉ r.asks ∧ .cancelled ∉ r.asks ∧ .aborted ∉ r.asks
  error : o.result.error.isSome ↔ o.result.status = .failure
  cancelled : r.signalAborted ∨ .cancelled ∈ r.asks → o.result.status = .cancelled
  fatal : .fatal ∈ r.asks → o.result.status ≠ .success ∧ o.result.status ≠ .cancelled
  reported : o.statuses.filter isTerminal = [o.result.status.text]

def deciding (l : List Ask) : Option Ask :=
  if .fatal ∈ l then (l.filter (· ≠ .success)).getLast? else l.getLast?

def showing (l : List Ask) : Status := ((deciding l).map Ask.status).getD .success

/-- `beforeAll` does not fail, no update is terminal, and the asks agree on the end. -/
structure Settles (r : Run) : Prop where
  started : ∀ before, r.beforeAll = some before → before.fails = false
  quiet : ∀ status ∈ r.updates, isTerminal status = false
  fatal : .fatal ∈ r.asks → deciding r.asks = some .fatal ∧ .cancelled ∉ r.asks ∧ r.signalAborted = false
  cancelled : .fatal ∉ r.asks → .cancelled ∈ r.asks ∨ .aborted ∈ r.asks → r.asks.getLast? ≠ some .success
  aborted : r.signalAborted → .cancelled ∈ r.asks ∨ .aborted ∈ r.asks

/-! ## The phases -/

/-- What a progress shows of what was asked for and sent. -/
structure Progress.Shows (p : Progress) (asks : List Ask) (updates : List String) : Prop where
  fatal : p.fatalError.isSome ↔ .fatal ∈ asks
  status : p.status = showing asks
  sent : p.statuses = "running" :: updates

namespace Progress

variable {p : Progress} {l : List Ask} {u : List String}

theorem shows_sends (h : p.Shows l u) (statuses : List String) :
    (p.sends statuses).Shows l (u ++ statuses) :=
  ⟨h.fatal, h.status, by simp [sends, h.sent]⟩

theorem shows_markFatalError (h : p.Shows l u) (err : ExecutionError) :
    (p.markFatalError err).Shows (l ++ [.fatal]) u :=
  ⟨by simp [markFatalError], by simp [markFatalError, showing, deciding, Ask.status], h.sent⟩

theorem shows_cancelled (h : p.Shows l u) {a : Ask} (ha : a.status = .cancelled)
    (message : String) : { p with status := .cancelled, message := message }.Shows (l ++ [a]) u := by
  have hne : a ≠ .success ∧ a ≠ .fatal := by constructor <;> rintro rfl <;> cases ha
  refine ⟨by simp [h.fatal, hne.2.symm], ?_, h.sent⟩
  simp [showing, deciding, hne.1, hne.2.symm, ha]

theorem shows_applyExit (h : p.Shows l u) (status : Status) (message : String) :
    (p.applyExit status message).Shows (l ++ [status.ask]) u := by
  cases status with
  | failure => exact shows_markFatalError h _
  | cancelled => exact shows_cancelled h rfl message
  | success =>
    by_cases hfatal : p.fatalError.isSome
    · have hl := h.fatal.mp hfatal
      simp only [applyExit, hfatal, if_true]
      exact ⟨by simp [hfatal, hl], by simp [h.status, showing, deciding, hl, Status.ask], h.sent⟩
    · have hl := mt h.fatal.mpr hfatal
      simp only [applyExit, hfatal]
      exact ⟨by simpa [Status.ask, hl] using hfatal,
        by simp [showing, deciding, hl, Status.ask, Ask.status], h.sent⟩

theorem shows_caught (h : p.Shows l u) {fatal : Bool} {otherwise : ExecutionError → Progress}
    (hother : ∀ error, (otherwise error).Shows (l ++ if fatal then [.fatal] else []) u)
    (statuses : List String) (thrown : Thrown) :
    (p.caught otherwise thrown).Shows (l ++ StepsRun.asks fatal ⟨statuses, .error thrown⟩) u := by
  cases thrown with
  | exitSignal status message => exact shows_applyExit h status message
  | abortError message => exact shows_cancelled h (a := .aborted) rfl _
  | other error => exact hother error

theorem shows_runMain (h : p.Shows l u) (r : StepsRun) :
    (p.runMain r).Shows (l ++ r.asks true) (u ++ r.statuses) := by
  have hs := shows_sends h r.statuses
  obtain ⟨statuses, result⟩ := r
  cases result with
  | error thrown => exact shows_caught hs (fun error => shows_markFatalError hs error) _ thrown
  | ok error =>
    cases error with
    | none => simpa [runMain, StepsRun.asks] using hs
    | some error => exact shows_markFatalError hs error

theorem shows_runHook (h : p.Shows l u) (r : StepsRun) :
    (p.runHook r).Shows (l ++ r.asks false) (u ++ r.statuses) := by
  have hs := shows_sends h r.statuses
  obtain ⟨statuses, result⟩ := r
  cases result with
  | error thrown => exact shows_caught hs (fun _ => by simpa using hs) _ thrown
  | ok error => cases error <;> simpa [runHook, StepsRun.asks] using hs

theorem shows_lateHook (h : p.Shows l u) (hook : Option StepsRun) :
    (p.lateHook hook).Shows (l ++ hook.toList.flatMap (StepsRun.asks false))
      (u ++ hook.toList.flatMap (·.statuses)) := by
  cases hook with
  | none => simpa [lateHook] using h
  | some r => simpa [lateHook] using shows_runHook h r

theorem complete_shows {r : Run} (h : p.Shows r.earlyAsks (r.early.flatMap (·.statuses))) :
    ∃ q : Progress, q.Shows r.asks r.updates ∧ p.complete r = q.report := by
  have hafter := shows_lateHook h r.afterAll
  have herror : (if (p.lateHook r.afterAll).fatalError.isSome then
      (p.lateHook r.afterAll).lateHook r.onError else p.lateHook r.afterAll) =
      (p.lateHook r.afterAll).lateHook r.errorHook := by
    simp only [hafter.fatal, Run.errorHook]
    change (if Ask.fatal ∈ r.afterAsks then _ else _) = _
    split <;> rfl
  have hcleanup := shows_lateHook (shows_lateHook hafter r.errorHook) r.cleanup
  refine ⟨_, ?_, by simp only [complete, herror]; rfl⟩
  have houtput : (((p.lateHook r.afterAll).lateHook r.errorHook).lateHook r.cleanup).checkOutput
      r.output |>.Shows (r.afterAsks ++ (r.errorHook.toList ++ r.cleanup.toList).flatMap
        (StepsRun.asks false) ++
        (match r.output with | some (.invalid _) | some (.threw _) => [.fatal] | _ => []))
      r.updates := by
    have hall : (((p.lateHook r.afterAll).lateHook r.errorHook).lateHook r.cleanup).Shows
        (r.afterAsks ++ (r.errorHook.toList ++ r.cleanup.toList).flatMap (StepsRun.asks false))
        r.updates := by
      simpa [Run.afterAsks, Run.updates, flatMap_append] using hcleanup
    rcases r.output with _ | _ | _ | _
    · simpa [checkOutput] using hall
    · simpa [checkOutput] using hall
    all_goals exact shows_markFatalError hall _
  rcases hdrain : r.drain with _ | _ | _
  · simpa [drained, Run.asks, hdrain] using houtput
  · simpa [drained, Run.asks, hdrain] using houtput
  · simpa [drained, Run.asks, hdrain] using shows_markFatalError houtput _

end Progress

/-- A run that gets past `beforeAll` reports the progress that its phases have shown. -/
theorem runRule_shows {r : Run} (h : ∀ before, r.beforeAll = some before → before.fails = false) :
    ∃ q : Progress, q.Shows r.asks r.updates ∧ runRule r = q.report := by
  have hinit : (⟨.success, "", none, ["running"]⟩ : Progress).Shows [] [] :=
    ⟨by simp, rfl, rfl⟩
  cases hbefore : r.beforeAll with
  | none =>
    simp only [runRule, hbefore]
    refine Progress.complete_shows ?_
    simpa [Run.earlyAsks, Run.early, hbefore] using Progress.shows_runMain hinit r.main
  | some before =>
    have hfails := h before hbefore
    obtain ⟨statuses, result⟩ := before
    have hs := Progress.shows_sends hinit statuses
    simp only [runRule, hbefore]
    rcases result with (⟨status, message⟩ | message | error) | (_ | error)
    · refine Progress.complete_shows ?_
      simpa [Run.earlyAsks, Run.early, hbefore, StepsRun.ends, StepsRun.asks,
        Progress.caught] using Progress.shows_applyExit hs status message
    · refine Progress.complete_shows ?_
      simpa [Run.earlyAsks, Run.early, hbefore, StepsRun.ends, StepsRun.asks, Progress.caught,
        Progress.applyAbort] using Progress.shows_cancelled hs (a := .aborted) rfl _
    · cases hfails
    · refine Progress.complete_shows ?_
      simpa [Run.earlyAsks, Run.early, hbefore, StepsRun.ends, StepsRun.asks] using
        Progress.shows_runMain hs r.main
    · cases hfails

theorem not_agree_of_fails {r : Run} {before : StepsRun} (hbefore : r.beforeAll = some before)
    (h : before.fails) : ¬ Agree r (runRule r) := by
  have hfin : ∃ (p : Progress) (error : ExecutionError), runRule r = p.finalize error := by
    obtain ⟨statuses, result⟩ := before
    simp only [runRule, hbefore]
    rcases result with (⟨status, message⟩ | message | error) | (_ | error)
    · cases h
    · cases h
    · exact ⟨_, error, rfl⟩
    · cases h
    · exact ⟨_, error, rfl⟩
  obtain ⟨p, error, hrun⟩ := hfin
  intro hagree
  have hsent : "failed" ∈ (runRule r).statuses.filter isTerminal := by
    simp [hrun, Progress.finalize, isTerminal]
  rw [hagree.reported, hrun] at hsent
  simp [Progress.finalize, Status.text] at hsent

section

variable {l : List Ask}

theorem mem_of_deciding {a : Ask} (h : deciding l = some a) : a ∈ l := by
  unfold deciding at h
  split at h
  · exact (mem_filter.mp (mem_of_getLast? h)).1
  · exact mem_of_getLast? h

theorem showing_eq_failure : showing l = .failure ↔ deciding l = some .fatal := by
  cases h : deciding l with
  | none => simp [showing, h]
  | some a => cases a <;> simp [showing, h, Ask.status]

theorem showing_of_cancelled (hfatal : .fatal ∉ l) (h : .cancelled ∈ l ∨ .aborted ∈ l) :
    showing l = if l.getLast? = some .success then .success else .cancelled := by
  cases hlast : l.getLast? with
  | none =>
    have hnil : l = [] := getLast?_eq_none_iff.mp hlast
    simp [hnil] at h
  | some a =>
    have ha : a ≠ .fatal := fun heq => hfatal (heq ▸ mem_of_getLast? hlast)
    cases a with
    | fatal => exact absurd rfl ha
    | success | cancelled | aborted => simp [showing, deciding, hfatal, hlast, Ask.status]

theorem showing_of_quiet (hfatal : .fatal ∉ l) (hcancelled : .cancelled ∉ l)
    (haborted : .aborted ∉ l) : showing l = .success := by
  cases h : deciding l with
  | none => simp [showing, h]
  | some a =>
    have ha := mem_of_deciding h
    cases a with
    | success => simp [showing, h, Ask.status]
    | cancelled => exact absurd ha hcancelled
    | aborted => exact absurd ha haborted
    | fatal => exact absurd ha hfatal

end

theorem isTerminal_text (status : Status) : isTerminal status.text := by
  cases status <;> rfl

theorem Progress.reported_iff {q : Progress} {l : List Ask} {u : List String} (h : q.Shows l u) :
    q.report.statuses.filter isTerminal = [q.report.result.status.text] ↔
      ∀ status ∈ u, isTerminal status = false := by
  have hrunning : isTerminal "running" = false := rfl
  simp [report, h.sent, hrunning, isTerminal_text, filter_append]

/-- The three accounts of a run that settles agree. -/
theorem agree_of_settles {r : Run} {q : Progress} (hq : q.Shows r.asks r.updates)
    (h : Settles r) : Agree r q.report where
  success := by
    constructor
    · intro hsuccess
      have hshown : showing r.asks = .success := hq.status.symm.trans hsuccess
      have hfatal : .fatal ∉ r.asks := fun hfatal => by
        rw [showing_eq_failure.mpr (h.fatal hfatal).1] at hshown
        cases hshown
      have hnone : ¬ (.cancelled ∈ r.asks ∨ .aborted ∈ r.asks) := fun hcancelled => by
        rw [showing_of_cancelled hfatal hcancelled, if_neg (h.cancelled hfatal hcancelled)]
          at hshown
        cases hshown
      exact ⟨hfatal, fun hc => hnone (.inl hc), fun ha => hnone (.inr ha)⟩
    · rintro ⟨hfatal, hcancelled, haborted⟩
      exact hq.status.trans (showing_of_quiet hfatal hcancelled haborted)
  error := by
    constructor
    · intro herror
      exact hq.status.trans (showing_eq_failure.mpr (h.fatal (hq.fatal.mp herror)).1)
    · intro hfailure
      exact hq.fatal.mpr (mem_of_deciding (showing_eq_failure.mp (hq.status.symm.trans hfailure)))
  cancelled := by
    intro hasked
    have hfatal : .fatal ∉ r.asks := fun hfatal => by
      obtain ⟨-, hnone, hsignal⟩ := h.fatal hfatal
      rcases hasked with haborted | hcancelled
      · simp [hsignal] at haborted
      · exact hnone hcancelled
    have hcancelled := hasked.elim h.aborted .inl
    refine hq.status.trans ?_
    rw [showing_of_cancelled hfatal hcancelled, if_neg (h.cancelled hfatal hcancelled)]
  fatal := by
    intro hfatal
    have hfailure : q.report.result.status = .failure :=
      hq.status.trans (showing_eq_failure.mpr (h.fatal hfatal).1)
    simp [hfailure]
  reported := (Progress.reported_iff hq).mpr h.quiet

/-- Where they agree, the run settles. -/
theorem settles_of_agree {r : Run} {q : Progress} (hq : q.Shows r.asks r.updates)
    (hstarted : ∀ before, r.beforeAll = some before → before.fails = false)
    (h : Agree r q.report) : Settles r where
  started := hstarted
  quiet := (Progress.reported_iff hq).mp h.reported
  fatal := by
    intro hfatal
    obtain ⟨hsuccess, hcancelled⟩ := h.fatal hfatal
    have hfailure : showing r.asks = .failure := by
      have hshown := hq.status
      cases hstatus : q.status with
      | success => exact absurd hstatus hsuccess
      | cancelled => exact absurd hstatus hcancelled
      | failure => rw [← hshown, hstatus]
    refine ⟨showing_eq_failure.mp hfailure, fun hc => hcancelled (h.cancelled (.inr hc)), ?_⟩
    exact Bool.eq_false_iff.mpr fun hsignal => hcancelled (h.cancelled (.inl hsignal))
  cancelled := by
    intro hfatal hcancelled hlast
    have hshown : q.report.result.status = .success := by
      refine hq.status.trans ?_
      rw [showing_of_cancelled hfatal hcancelled, if_pos hlast]
    obtain ⟨-, hc, ha⟩ := h.success.mp hshown
    exact hcancelled.elim hc ha
  aborted := by
    intro hsignal
    by_contra hnone
    have hfatal : .fatal ∉ r.asks := fun hfatal =>
      (h.fatal hfatal).2 (h.cancelled (.inl hsignal))
    have hshown := h.success.mpr ⟨hfatal, fun hc => hnone (.inl hc), fun ha => hnone (.inr ha)⟩
    rw [h.cancelled (.inl hsignal)] at hshown
    cases hshown

/-- The status, the error and the report of a run agree exactly when it settles. -/
theorem runRule_agrees_iff (r : Run) : Agree r (runRule r) ↔ Settles r := by
  by_cases hstarted : ∀ before, r.beforeAll = some before → before.fails = false
  · obtain ⟨q, hq, hrun⟩ := runRule_shows hstarted
    rw [hrun]
    exact ⟨settles_of_agree hq hstarted, agree_of_settles hq⟩
  · refine ⟨fun hagree => ?_, fun h => absurd h.started hstarted⟩
    push Not at hstarted
    obtain ⟨before, hbefore, hfails⟩ := hstarted
    exact absurd hagree (not_agree_of_fails hbefore (by simpa using hfails))

/-- A step fails, and `cleanup` exits as cancelled: the result is cancelled, with an error. -/
theorem cancelled_with_error : ¬ ∀ r : Run, Agree r (runRule r) := by
  intro h
  let r : Run := ⟨none, ⟨[], .ok (some ⟨"ElementNotFound", "no element", false⟩)⟩, none, none,
    some ⟨[], .error (.exitSignal .cancelled "")⟩, none, none, false⟩
  exact ((h r).fatal (by decide)).2 rfl

end Terminal

end Aegis
