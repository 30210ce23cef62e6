import Aegis.Engine.Executor

/-!
# Engine.StepErrors

The common fields of a step, and what becomes of its errors: `runStep`, `runSteps` and the handlers
of flow control with the texts of errors, of `scriptcat-engine/executor-utils.ts`.

The world holds the runtime context. What actions and conditions do is a parameter. An executor
returns which leaf actions it ran, and which leaf steps returned an error.
-/

namespace Aegis

open List Option

namespace StepErrors

open Engine (LoopType isSkipped isResumeTarget dispatchResume resumeBranch resumeIter resumeCase)

section Errors

def startsWith (s text : String) : Bool := text.toList.isPrefixOf s.toList

def includes (s text : String) : Bool := s.toList.tails.any (text.toList.isPrefixOf ·)

/-- The type of an error with the message `msg`. -/
def classifyError (msg : String) : String :=
  if includes msg "ScriptError" then "ScriptError"
  else if startsWith msg "ElementNotFound" then "ElementNotFound"
  else if startsWith msg "ElementDisabled" then "ElementDisabled"
  else if startsWith msg "ElementVerificationFailed" then "ElementVerificationFailed"
  else if startsWith msg "ConditionError" then "ConditionError"
  else if startsWith msg "ValidationError" then "ValidationError"
  else if includes msg "ConfigError" then "ConfigError"
  else if startsWith msg "TimeoutError" then "TimeoutError"
  else if includes msg "Navigation" then "NavigationError"
  else if includes msg "Network" then "NetworkError"
  else if includes msg "Authentication" || includes msg "login" then "AuthenticationError"
  else if includes msg "Captcha" then "CaptchaError"
  else if includes msg "Rate" then "RateLimited"
  else if includes msg "Blocked" then "Blocked"
  else if includes msg "Session" then "SessionExpired"
  else if startsWith msg "QuotaExceeded" then "QuotaExceeded"
  else if startsWith msg "HumanTimeout" then "HumanTimeout"
  else if includes msg "UnsupportedInEnvironment" then "UnsupportedInEnvironment"
  else "UnknownError"

def isRecoverable (errorType : String) : Bool :=
  ["ElementNotFound", "TimeoutError", "NetworkError", "RateLimited", "Blocked", "SessionExpired",
    "HumanTimeout"].contains errorType

end Errors

structure ExecutionError where
  type : String
  message : String
  stepId : Option String
deriving DecidableEq

inductive Signal where
  | breakSignal | continueSignal | exitSignal
deriving DecidableEq

inductive Thrown where
  | signal (s : Signal)
  /-- The `AbortError`. -/
  | aborted
  | error (message : String)
deriving DecidableEq

def Thrown.message : Thrown → String
  | .aborted => "Task was cancelled"
  | .error message => message
  | .signal _ => ""

inductive StepResult where
  | done
  | failed (error : ExecutionError)
  | threw (thrown : Thrown)
deriving DecidableEq

inductive OnError where
  | stop | goOn | skip | requestHuman | unsupported (text : String)

/-- Of `BaseAction`. `α` is what an action or a condition is. -/
structure BaseAction (α : Type) where
  id : Option String
  condition : Option α
  onError : OnError
  maxAttempts : Int

inductive Step (α : Type) where
  | leaf (base : BaseAction α) (action : α)
  | ifAction (base : BaseAction α) (thenSteps elseSteps : List (Step α))
  | loop (base : BaseAction α) (type : LoopType) (spec : α) (maxIterations : Nat)
      (steps : List (Step α))
  | switch (base : BaseAction α) (expression : α) (cases : List (List (Step α)))
      (default : List (Step α))
  | group (base : BaseAction α) (steps : List (Step α))

structure Env (α σ : Type) where
  aborted : σ → Bool
  /-- `executeWithTimeout`; `none` is an attempt that succeeds. -/
  execute : α → σ → Option Thrown × σ
  evaluate : α → σ → Except String Bool × σ
  /-- The log of a failure, and the result of a critical one; `some` if the transport rejects. -/
  report : σ → Option String × σ
  pause : σ → Option String × σ
  requestHuman : σ → Option String × σ
  bound : LoopType → α → σ → Except String Nat
  goesOn : LoopType → α → σ → Except String Bool × σ
  /-- `loopIndex` and `loopItem` are set. -/
  enter : LoopType → α → Nat → σ → σ
  caseIdx : α → σ → Nat → Except String (Option Nat)

inductive Event (α : Type) where
  | leaf (action : α)
  | leafError (stepId : Option String) (type : String)

structure Outcome (α σ : Type) where
  result : StepResult
  world : σ
  events : List (Event α)

variable {α σ : Type} (env : Env α σ)

inductive Attempted where
  | succeeded
  | signalled (s : Signal)
  | error (message : String)
  | escaped (message : String)

/-- The attempts that are left, after one that ended with `lastError`. -/
def attempts (action : α) : Nat → String → σ → Attempted × σ × List (Event α)
  | 0, lastError, world => (.error lastError, world, [])
  | left + 1, _, world =>
    match env.execute action world with
    | (none, world) => (.succeeded, world, [.leaf action])
    | (some (.signal s), world) => (.signalled s, world, [.leaf action])
    | (some thrown, world) =>
      if !isRecoverable (classifyError thrown.message) || left == 0 then
        (.error thrown.message, world, [.leaf action])
      else match env.pause world with
        | (some message, world) => (.escaped message, world, [.leaf action])
        | (none, world) =>
          let r := attempts action left thrown.message world
          (r.1, r.2.1, .leaf action :: r.2.2)

def allAttempts (base : BaseAction α) (action : α) (world : σ) : Attempted × σ × List (Event α) :=
  attempts env action (base.maxAttempts + 1).toNat "undefined" world

/-- The end of `runStep`, when all attempts have failed. -/
def giveUp (base : BaseAction α) (message : String) (world : σ) (events : List (Event α)) : Outcome α σ :=
  match env.report world with
  | (some rejected, world) => ⟨.threw (.error rejected), world, events⟩
  | (none, world) =>
    match base.onError with
    | .goOn | .skip => ⟨.done, world, events⟩
    | .requestHuman =>
      match env.requestHuman world with
      | (some message, world) => ⟨.threw (.error message), world, events⟩
      | (none, world) => ⟨.done, world, events⟩
    | .unsupported text =>
      ⟨.threw (.error ("ConfigError: unsupported onError strategy: " ++ text)), world, events⟩
    | .stop => ⟨.failed ⟨classifyError message, message, base.id⟩, world,
        events ++ [.leafError base.id (classifyError message)]⟩

/-- `runStep`, when the condition holds. -/
def runAttempts (base : BaseAction α) (action : α) (world : σ) : Outcome α σ :=
  match allAttempts env base action world with
  | (.succeeded, world, events) => ⟨.done, world, events⟩
  | (.signalled s, world, events) => ⟨.threw (.signal s), world, events⟩
  | (.escaped message, world, events) => ⟨.threw (.error message), world, events⟩
  | (.error message, world, events) => giveUp env base message world events

def runStep (base : BaseAction α) (action : α) (world : σ) : Outcome α σ :=
  match base.condition with
  | none => runAttempts env base action world
  | some condition =>
    match env.evaluate condition world with
    | (.error message, world) => ⟨.threw (.error message), world, []⟩
    | (.ok false, world) => ⟨.done, world, []⟩
    | (.ok true, world) => runAttempts env base action world

/-! ## Flow control -/

/-- `if (result.error) throw new Error(result.error.message)`. -/
def rethrow (r : Outcome α σ) : Outcome α σ :=
  match r.result with
  | .failed error => { r with result := .threw (.error error.message) }
  | _ => r

def catchError (r : Outcome α σ) : Outcome α σ :=
  match r.result with
  | .threw (.signal _) => r
  | .threw thrown => { r with result := .failed ⟨classifyError thrown.message, thrown.message, none⟩ }
  | _ => r

/-- The iterations of a loop from `i` on, `fuel` of them at most. -/
def runIterations (type : LoopType) (spec : α) (resume : Option Nat)
    (body : Nat → σ → Outcome α σ) : Nat → Nat → σ → Outcome α σ
  | 0, _, world => ⟨.done, world, []⟩
  | fuel + 1, i, world =>
    if env.aborted world then ⟨.threw .aborted, world, []⟩
    else
      match env.goesOn type spec world with
      | (.error message, world) => ⟨.threw (.error message), world, []⟩
      | (.ok false, world) => ⟨.done, world, []⟩
      | (.ok true, world) =>
        let world := env.enter type spec i world
        if resume.any (i < ·) then runIterations type spec resume body fuel (i + 1) world
        else
          let r := body i world
          match r.result with
          | .done | .threw (.signal .continueSignal) =>
            let q := runIterations type spec resume body fuel (i + 1) r.world
            { q with events := r.events ++ q.events }
          | .threw (.signal .breakSignal) => { r with result := .done }
          | _ => rethrow r

mutual

/-- `runSteps`, from step `i` of a list on. -/
def runSteps (resumePath pendingResume : Option StepPath) (i : Nat) (world : σ) :
    List (Step α) → Outcome α σ
  | [] => ⟨.done, world, []⟩
  | step :: rest =>
    if isSkipped pendingResume i then runSteps resumePath pendingResume (i + 1) world rest
    else if env.aborted world then ⟨.threw .aborted, world, []⟩
    else
      let r := dispatch (dispatchResume resumePath pendingResume i) world step
      match r.result with
      | .done =>
        let q := runSteps resumePath (if isResumeTarget pendingResume i then none else pendingResume)
          (i + 1) r.world rest
        { q with events := r.events ++ q.events }
      | _ => r

/-- `runStep` and `dispatchFlowControl`. -/
def dispatch (resume : Option StepPath) (world : σ) : Step α → Outcome α σ
  | .leaf base action => runStep env base action world
  | .ifAction base thenSteps elseSteps =>
    match resumeBranch resume with
    | some .thenSteps => rethrow (runSteps resume resume 0 world thenSteps)
    | some .elseSteps => rethrow (runSteps resume resume 0 world elseSteps)
    | none =>
      match base.condition with
      -- the condition of an `if` that has none is of no known type
      | none => ⟨.threw (.error "ConditionError: unsupported condition type: undefined"), world, []⟩
      | some condition =>
        match env.evaluate condition world with
        | (.error message, world) => ⟨.threw (.error message), world, []⟩
        | (.ok true, world) => rethrow (runSteps resume resume 0 world thenSteps)
        | (.ok false, world) => rethrow (runSteps resume resume 0 world elseSteps)
  | .loop _ type spec maxIterations steps =>
    match env.bound type spec world with
    | .error message => ⟨.threw (.error message), world, []⟩
    | .ok bound =>
      runIterations env type spec (resumeIter resume)
        (fun iter world =>
          let resume := if resumeIter resume = some iter then resume else none
          runSteps resume resume 0 world steps)
        (min bound maxIterations) 0 world
  | .switch _ expression cases default =>
    match resumeCase resume with
    | some caseIdx =>
      catchError (rethrow (if 0 ≤ caseIdx then
        runCase resume (runSteps resume resume 0 world default) world caseIdx.toNat cases
        else runSteps resume resume 0 world default))
    | none =>
      match env.caseIdx expression world cases.length with
      | .error message => ⟨.failed ⟨classifyError message, message, none⟩, world, []⟩
      | .ok none => catchError (rethrow (runSteps resume resume 0 world default))
      | .ok (some n) =>
        catchError (rethrow (runCase resume (runSteps resume resume 0 world default) world n cases))
  | .group _ steps => catchError (rethrow (runSteps resume resume 0 world steps))

/-- The steps of case `n`, or `otherwise` when there is no such case. -/
def runCase (resume : Option StepPath) (otherwise : Outcome α σ) (world : σ) :
    Nat → List (List (Step α)) → Outcome α σ
  | _, [] => otherwise
  | 0, steps :: _ => runSteps resume resume 0 world steps
  | n + 1, _ :: cases => runCase resume otherwise world n cases

end

namespace Step

def base : Step α → BaseAction α
  | .leaf base _ | .ifAction base _ _ | .loop base _ _ _ _ | .switch base _ _ _ | .group base _ => base

def ownsCondition : Step α → Bool
  | .ifAction _ _ _ => true
  | .loop _ type _ _ _ => type == .whileCondition
  | _ => false

def returnsErrors : Step α → Bool
  | .switch _ _ _ _ | .group _ _ => true
  | _ => false

def isLeaf : Step α → Bool
  | .leaf _ _ => true
  | _ => false

end Step

structure Failure where
  leaf : Option (Option String)
  type : String
deriving DecidableEq

def lastError (events : List (Event α)) : Option (Option String × String) :=
  match events.getLast? with
  | some (.leafError stepId type) => some (stepId, type)
  | _ => none

def StepResult.message : StepResult → Option String
  | .failed error => some error.message
  | .threw (.error message) => some message
  | _ => none

def failure (r : Outcome α σ) : Option Failure :=
  r.result.message.map fun message =>
    match lastError r.events with
    | some (stepId, type) => ⟨some stepId, type⟩
    | none => ⟨none, classifyError message⟩

def attemptsFailure (base : BaseAction α) (action : α) (world : σ) : Option Failure :=
  match (allAttempts env base action world).1 with
  | .error message | .escaped message => some ⟨some base.id, classifyError message⟩
  | _ => none

def leafFailure (base : BaseAction α) (action : α) (world : σ) : Option Failure :=
  match base.condition with
  | none => attemptsFailure env base action world
  | some condition =>
    match env.evaluate condition world with
    | (.error message, _) => some ⟨some base.id, classifyError message⟩
    | (.ok false, _) => none
    | (.ok true, world) => attemptsFailure env base action world

def stepFailure (resume : Option StepPath) (world : σ) : Step α → Option Failure
  | .leaf base action => leafFailure env base action world
  | s => failure (dispatch env resume world s)

def attemptsEscape (base : BaseAction α) (action : α) (world : σ) : Bool :=
  match allAttempts env base action world with
  | (.escaped _, _, _) => true
  | (.error _, world, _) => (env.report world).1.isSome
  | _ => false

def escapes (base : BaseAction α) (action : α) (world : σ) : Bool :=
  match base.condition with
  | none => attemptsEscape env base action world
  | some condition =>
    match env.evaluate condition world with
    | (.error _, _) => true
    | (.ok false, _) => false
    | (.ok true, world) => attemptsEscape env base action world

/-- `r`, after the events of a step. -/
def Outcome.after (r : Outcome α σ) (events : List (Event α)) : Outcome α σ :=
  { r with events := events ++ r.events }

def Quiet (events : List (Event α)) : Prop := ∀ action, Event.leaf action ∉ events

/-- What the common fields of a step mean, at position `i` of a list in `world`. -/
structure CommonFields (resumePath pendingResume : Option StepPath) (i : Nat) (world : σ)
    (s : Step α) : Prop where
  condition : ∀ c, s.base.condition = some c → s.ownsCondition = false →
    (env.evaluate c world).1 = .ok false → ∀ rest, ∃ world' events, Quiet events ∧
      runSteps env resumePath pendingResume i world (s :: rest) =
        (runSteps env resumePath (if isResumeTarget pendingResume i then none else pendingResume)
          (i + 1) world' rest).after events
  goesOn : ∀ f, stepFailure env (dispatchResume resumePath pendingResume i) world s = some f →
    s.base.onError = .goOn ∨ s.base.onError = .skip → ∀ rest, ∃ world' events,
      runSteps env resumePath pendingResume i world (s :: rest) =
        (runSteps env resumePath (if isResumeTarget pendingResume i then none else pendingResume)
          (i + 1) world' rest).after events
  stops : ∀ f, stepFailure env (dispatchResume resumePath pendingResume i) world s = some f →
    s.base.onError = .stop → ∀ rest, ∃ error,
      (runSteps env resumePath pendingResume i world (s :: rest)).result = .failed error ∧
        error.type = f.type ∧ ∀ stepId, f.leaf = some stepId → error.stepId = stepId

/-- When they do: for a leaf step nothing escapes; a flow-control step has no condition that is
false, or nothing runs in it, and it does not fail, unless its handler returns the error, of a leaf
step without an id. -/
def Meets (resume : Option StepPath) (world : σ) (s : Step α) : Prop :=
  match s with
  | .leaf base action => escapes env base action world →
    base.onError ≠ .goOn ∧ base.onError ≠ .skip ∧ base.onError ≠ .stop
  | s =>
    (∀ c, s.base.condition = some c → s.ownsCondition = false → (env.evaluate c world).1 = .ok false →
      (dispatch env resume world s).result = .done ∧ Quiet (dispatch env resume world s).events) ∧
    ∀ f, failure (dispatch env resume world s) = some f → s.base.onError ≠ .goOn ∧ s.base.onError ≠ .skip ∧
      (s.base.onError = .stop → s.returnsErrors = true ∧ (f.leaf = none ∨ f.leaf = some none))

/-! ## Types of errors -/

/-- The type of a failure is the one that its message has. -/
structure Classified (r : Outcome α σ) : Prop where
  typed : ∀ error, r.result = .failed error → error.type = classifyError error.message
  last : ∀ stepId type, lastError r.events = some (stepId, type) →
    ∃ message, r.result.message = some message ∧ classifyError message = type

variable {env} {r : Outcome α σ} {world : σ} {resume : Option StepPath}

theorem lastError_append {e f : List (Event α)} (he : lastError e = none) :
    lastError (e ++ f) = lastError f := by
  cases f with
  | nil => rw [append_nil]; exact he
  | cons x f => simp [lastError, getLast?_append, getLast?_cons]

theorem Classified.quiet (h : Classified r) (hresult : r.result.message = none) :
    lastError r.events = none := by
  cases hlast : lastError r.events with
  | none => rfl
  | some x =>
    obtain ⟨message, hmessage, -⟩ := h.last x.1 x.2 hlast
    rw [hresult] at hmessage
    cases hmessage

theorem Classified.after {q : Outcome α σ} (h : Classified r) (hresult : r.result.message = none)
    (hq : Classified q) : Classified (q.after r.events) where
  typed := hq.typed
  last stepId type hlast := by
    rw [Outcome.after, lastError_append (h.quiet hresult)] at hlast
    exact hq.last stepId type hlast

theorem classified_of_events {result : StepResult} {events : List (Event α)}
    (htyped : ∀ error, result = .failed error → error.type = classifyError error.message)
    (hevents : lastError events = none) : Classified (⟨result, world, events⟩ : Outcome α σ) where
  typed := htyped
  last stepId type hlast := by
    rw [hevents] at hlast
    cases hlast

theorem rethrow_message (r : Outcome α σ) : (rethrow r).result.message = r.result.message := by
  rw [rethrow]
  split
  · rename_i error h
    rw [h]
    rfl
  · rfl

theorem rethrow_events (r : Outcome α σ) : (rethrow r).events = r.events := by
  rw [rethrow]
  split <;> rfl

theorem rethrow_not_failed (r : Outcome α σ) (error : ExecutionError) :
    (rethrow r).result ≠ .failed error := by
  rw [rethrow]
  split
  · intro h
    cases h
  · rename_i h
    exact h error

theorem rethrow_classified (h : Classified r) : Classified (rethrow r) where
  typed error herror := absurd herror (rethrow_not_failed r error)
  last stepId type hlast := by
    rw [rethrow_events] at hlast
    rw [rethrow_message]
    exact h.last stepId type hlast

theorem catchError_classified (h : Classified r) : Classified (catchError r) := by
  rw [catchError]
  split
  · exact h
  · rename_i thrown hthrown hresult
    refine ⟨fun error herror => ?_, fun stepId type hlast => ?_⟩
    · obtain rfl := StepResult.failed.inj herror
      rfl
    · obtain ⟨message, hmessage, htype⟩ := h.last stepId type hlast
      rw [hresult] at hmessage
      cases thrown with
      | signal s | aborted => cases hmessage
      | error m =>
        cases hmessage
        exact ⟨_, rfl, htype⟩
  · exact h

theorem attempts_events (action : α) (n : Nat) (lastMessage : String) (world : σ) :
    ∀ e ∈ (attempts env action n lastMessage world).2.2, e = .leaf action := by
  induction n generalizing lastMessage world with
  | zero =>
    intro e he
    cases he
  | succ left ih =>
    intro e he
    rw [attempts.eq_def] at he
    dsimp only at he
    split at he
    · exact mem_singleton.mp he
    · exact mem_singleton.mp he
    · split at he
      · exact mem_singleton.mp he
      · split at he
        · exact mem_singleton.mp he
        · rcases mem_cons.mp he with rfl | he
          · rfl
          · exact ih _ _ e he

theorem lastError_attempts (base : BaseAction α) (action : α) (world : σ) :
    lastError (allAttempts env base action world).2.2 = none := by
  rw [lastError]
  split
  · rename_i stepId type hlast
    have hleaf := attempts_events action _ _ world _ (mem_of_getLast? hlast)
    cases hleaf
  · rfl

theorem giveUp_classified (base : BaseAction α) (message : String) (world : σ)
    {events : List (Event α)} (hevents : lastError events = none) :
    Classified (giveUp env base message world events) := by
  have hthrew : ∀ (thrown : Thrown) (world : σ), Classified ⟨.threw thrown, world, events⟩ :=
    fun _ _ => classified_of_events nofun hevents
  have hdone : ∀ world : σ, Classified ⟨.done, world, events⟩ :=
    fun _ => classified_of_events nofun hevents
  rw [giveUp]
  split
  · exact hthrew _ _
  · split
    · exact hdone _
    · exact hdone _
    · split
      · exact hthrew _ _
      · exact hdone _
    · exact hthrew _ _
    · refine ⟨fun error herror => ?_, fun stepId type hlast => ?_⟩
      · obtain rfl := StepResult.failed.inj herror
        rfl
      · have hlast' : some (base.id, classifyError message) = some (stepId, type) := by
          simpa [lastError] using hlast
        cases hlast'
        exact ⟨message, rfl, rfl⟩

theorem runAttempts_classified (base : BaseAction α) (action : α) (world : σ) :
    Classified (runAttempts env base action world) := by
  have hevents : lastError (allAttempts env base action world).2.2 = none :=
    lastError_attempts base action world
  rw [runAttempts]
  split
  · rename_i h
    rw [h] at hevents
    exact classified_of_events nofun hevents
  · rename_i h
    rw [h] at hevents
    exact classified_of_events nofun hevents
  · rename_i h
    rw [h] at hevents
    exact classified_of_events nofun hevents
  · rename_i h
    rw [h] at hevents
    exact giveUp_classified base _ _ hevents

theorem runStep_classified (base : BaseAction α) (action : α) (world : σ) :
    Classified (runStep env base action world) := by
  rw [runStep]
  split
  · exact runAttempts_classified base action world
  · split
    · exact classified_of_events nofun rfl
    · exact classified_of_events nofun rfl
    · exact runAttempts_classified base action _

variable {body : Nat → σ → Outcome α σ}

theorem runIterations_classified {type : LoopType} {spec : α} {resumed : Option Nat} (hbody : ∀ i world, Classified (body i world)) (fuel i : Nat)
    (world : σ) : Classified (runIterations env type spec resumed body fuel i world) := by
  induction fuel generalizing i world with
  | zero => exact classified_of_events nofun rfl
  | succ fuel ih =>
    rw [runIterations.eq_def]
    dsimp only
    split
    · exact classified_of_events nofun rfl
    · split
      · exact classified_of_events nofun rfl
      · exact classified_of_events nofun rfl
      · split
        · exact ih _ _
        · generalize hr : body i _ = r
          have hclassified : Classified r := hr ▸ hbody i _
          split
          · rename_i hresult
            exact hclassified.after (by rw [hresult]; rfl) (ih _ _)
          · rename_i hresult
            exact hclassified.after (by rw [hresult]; rfl) (ih _ _)
          · rename_i hresult
            exact classified_of_events nofun
              (hclassified.quiet (by rw [hresult]; rfl))
          · exact rethrow_classified hclassified

@[elab_as_elim]
theorem Step.ind {P : Step α → Prop} (leaf : ∀ base action, P (.leaf base action))
    (ifAction : ∀ base thenSteps elseSteps, (∀ s ∈ thenSteps, P s) → (∀ s ∈ elseSteps, P s) →
      P (.ifAction base thenSteps elseSteps))
    (loop : ∀ base type spec maxIterations steps, (∀ s ∈ steps, P s) →
      P (.loop base type spec maxIterations steps))
    (switch : ∀ base expression cases default, (∀ steps ∈ cases, ∀ s ∈ steps, P s) →
      (∀ s ∈ default, P s) → P (.switch base expression cases default))
    (group : ∀ base steps, (∀ s ∈ steps, P s) → P (.group base steps)) (step : Step α) : P step :=
  @Step.rec α P (fun steps => ∀ s ∈ steps, P s) (fun cases => ∀ steps ∈ cases, ∀ s ∈ steps, P s)
    leaf (fun b t e => ifAction b t e) (fun b t s m steps => loop b t s m steps)
    (fun b e cases default => switch b e cases default) (fun b steps => group b steps)
    (fun _ h => absurd h not_mem_nil) (fun _ _ hs hrest => forall_mem_cons.mpr
      ⟨hs, hrest⟩)
    (fun _ h => absurd h not_mem_nil) (fun _ _ hs hrest => forall_mem_cons.mpr
      ⟨hs, hrest⟩) step

theorem runSteps_classified {steps : List (Step α)}
    (hsteps : ∀ s ∈ steps, ∀ resume world, Classified (dispatch env resume world s))
    (resumePath pendingResume : Option StepPath) (i : Nat) (world : σ) :
    Classified (runSteps env resumePath pendingResume i world steps) := by
  induction steps generalizing pendingResume i world with
  | nil => exact classified_of_events nofun rfl
  | cons s rest ih =>
    have hrest := ih fun s hs => hsteps s (mem_cons_of_mem _ hs)
    rw [runSteps.eq_def]
    dsimp only
    split
    · exact hrest _ _ _
    · split
      · exact classified_of_events nofun rfl
      · have hs := hsteps s mem_cons_self (dispatchResume resumePath pendingResume i) world
        split
        · rename_i hresult
          exact hs.after (by rw [hresult]; rfl) (hrest _ _ _)
        · exact hs

theorem runCase_classified {otherwise : Outcome α σ} (hotherwise : Classified otherwise)
    {cases : List (List (Step α))}
    (hcases : ∀ steps ∈ cases, ∀ s ∈ steps, ∀ resume world, Classified (dispatch env resume world s))
    (resume : Option StepPath) (world : σ) (n : Nat) :
    Classified (runCase env resume otherwise world n cases) := by
  induction cases generalizing n with
  | nil => exact hotherwise
  | cons steps cases ih =>
    cases n with
    | zero => exact runSteps_classified (hcases steps mem_cons_self) _ _ _ _
    | succ n => exact ih (fun steps hs => hcases steps (mem_cons_of_mem _ hs)) n

theorem dispatch_classified (s : Step α) : ∀ resume world, Classified (dispatch env resume world s) := by
  induction s using Step.ind with
  | leaf base action => exact fun _ world => runStep_classified base action world
  | ifAction base thenSteps elseSteps hthen helse =>
    intro resume world
    rw [dispatch.eq_def]
    dsimp only
    split
    · exact rethrow_classified (runSteps_classified hthen _ _ _ _)
    · exact rethrow_classified (runSteps_classified helse _ _ _ _)
    · split
      · exact classified_of_events nofun rfl
      · split
        · exact classified_of_events nofun rfl
        · exact rethrow_classified (runSteps_classified hthen _ _ _ _)
        · exact rethrow_classified (runSteps_classified helse _ _ _ _)
  | loop base type spec maxIterations steps hsteps =>
    intro resume world
    rw [dispatch.eq_def]
    dsimp only
    split
    · exact classified_of_events nofun rfl
    · exact runIterations_classified (fun _ _ => runSteps_classified hsteps _ _ _ _) _ _ _
  | switch base expression cases default hcases hdefault =>
    intro resume world
    have hotherwise : ∀ resume world, Classified (runSteps env resume resume 0 world default) :=
      fun _ _ => runSteps_classified hdefault _ _ _ _
    rw [dispatch.eq_def]
    dsimp only
    split
    · refine catchError_classified (rethrow_classified ?_)
      split
      · exact runCase_classified (hotherwise _ _) hcases _ _ _
      · exact hotherwise _ _
    · split
      · refine classified_of_events (fun error h => ?_) rfl
        obtain rfl := StepResult.failed.inj h
        rfl
      · exact catchError_classified (rethrow_classified (hotherwise _ _))
      · exact catchError_classified
          (rethrow_classified (runCase_classified (hotherwise _ _) hcases _ _ _))
  | group base steps hsteps =>
    exact fun _ _ => catchError_classified (rethrow_classified (runSteps_classified hsteps _ _ _ _))

variable {base : BaseAction α} {action : α} {f : Failure} {error : ExecutionError}

def LeafEnds (base : BaseAction α) (f : Failure) (escaped : Bool) (result : StepResult) : Prop :=
  if escaped then ∃ message, result = .threw (.error message)
  else (base.onError = .goOn ∨ base.onError = .skip → result = .done) ∧
    (base.onError = .stop → ∃ message, result = .failed ⟨f.type, message, base.id⟩)

theorem giveUp_ends (message : String) (world : σ) (events : List (Event α)) :
    LeafEnds base ⟨some base.id, classifyError message⟩ (env.report world).1.isSome
      (giveUp env base message world events).result := by
  rw [giveUp]
  generalize env.report world = reported
  obtain ⟨rejected, world⟩ := reported
  cases rejected with
  | some rejected => exact ⟨rejected, rfl⟩
  | none =>
    refine ⟨fun honError => ?_, fun honError => ?_⟩
    · rcases honError with honError | honError
      all_goals rw [honError]
    · rw [honError]
      exact ⟨message, rfl⟩

theorem runAttempts_ends (h : attemptsFailure env base action world = some f) :
    f.leaf = some base.id ∧ LeafEnds base f (attemptsEscape env base action world)
      (runAttempts env base action world).result := by
  rw [attemptsFailure] at h
  rw [attemptsEscape, runAttempts]
  generalize allAttempts env base action world = attempted at h ⊢
  obtain ⟨attempted, world, events⟩ := attempted
  cases attempted with
  | succeeded | signalled s => cases h
  | error message =>
    cases h
    exact ⟨rfl, giveUp_ends message world events⟩
  | escaped message =>
    cases h
    exact ⟨rfl, message, rfl⟩

theorem runStep_ends (h : leafFailure env base action world = some f) :
    f.leaf = some base.id ∧ LeafEnds base f (escapes env base action world)
      (runStep env base action world).result := by
  rw [leafFailure] at h
  rw [escapes, runStep]
  split at h
  · exact runAttempts_ends h
  · generalize env.evaluate _ world = evaluated at h ⊢
    obtain ⟨evaluated, world⟩ := evaluated
    cases evaluated with
    | error message =>
      cases h
      exact ⟨rfl, message, rfl⟩
    | ok met =>
      cases met with
      | false => cases h
      | true => exact runAttempts_ends h

theorem attemptsFailure_of_escape (h : attemptsEscape env base action world) :
    ∃ f, attemptsFailure env base action world = some f := by
  rw [attemptsEscape] at h
  rw [attemptsFailure]
  generalize allAttempts env base action world = attempted at h ⊢
  obtain ⟨attempted, world, events⟩ := attempted
  cases attempted with
  | succeeded | signalled s => cases h
  | error message | escaped message => exact ⟨_, rfl⟩

theorem leafFailure_of_escape (h : escapes env base action world) :
    ∃ f, leafFailure env base action world = some f := by
  rw [escapes] at h
  rw [leafFailure]
  split at h
  · exact attemptsFailure_of_escape h
  · generalize env.evaluate _ world = evaluated at h ⊢
    obtain ⟨evaluated, world⟩ := evaluated
    cases evaluated with
    | error message => exact ⟨_, rfl⟩
    | ok met =>
      cases met with
      | false => cases h
      | true => exact attemptsFailure_of_escape h

theorem runStep_false {condition : α} (hcondition : base.condition = some condition)
    (hfalse : (env.evaluate condition world).1 = .ok false) :
    runStep env base action world = ⟨.done, (env.evaluate condition world).2, []⟩ := by
  rw [runStep, hcondition]
  dsimp only
  generalize env.evaluate condition world = evaluated at hfalse ⊢
  obtain ⟨evaluated, world⟩ := evaluated
  obtain rfl := hfalse
  rfl

section One

variable {resumePath pendingResume : Option StepPath} {i : Nat} {s : Step α}

theorem runSteps_cons (hskip : isSkipped pendingResume i = false) (habort : env.aborted world = false)
    (rest : List (Step α)) :
    runSteps env resumePath pendingResume i world (s :: rest) =
      match (dispatch env (dispatchResume resumePath pendingResume i) world s).result with
      | .done => (runSteps env resumePath
          (if isResumeTarget pendingResume i then none else pendingResume) (i + 1)
          (dispatch env (dispatchResume resumePath pendingResume i) world s).world rest).after
          (dispatch env (dispatchResume resumePath pendingResume i) world s).events
      | _ => dispatch env (dispatchResume resumePath pendingResume i) world s := by
  rw [runSteps, hskip, habort]
  rfl

variable (resumePath) in
theorem runSteps_done (hskip : isSkipped pendingResume i = false) (habort : env.aborted world = false)
    (hdone : (dispatch env (dispatchResume resumePath pendingResume i) world s).result = .done)
    (rest : List (Step α)) :
    ∃ world', runSteps env resumePath pendingResume i world (s :: rest) =
      (runSteps env resumePath (if isResumeTarget pendingResume i then none else pendingResume)
        (i + 1) world' rest).after
        (dispatch env (dispatchResume resumePath pendingResume i) world s).events :=
  ⟨_, by rw [runSteps_cons hskip habort, hdone]⟩

theorem runSteps_result (hskip : isSkipped pendingResume i = false)
    (habort : env.aborted world = false) (rest : List (Step α))
    (hnot : (dispatch env (dispatchResume resumePath pendingResume i) world s).result ≠ .done) :
    runSteps env resumePath pendingResume i world (s :: rest) =
      dispatch env (dispatchResume resumePath pendingResume i) world s := by
  rw [runSteps_cons hskip habort]
  split
  · rename_i h
    exact absurd h hnot
  · rfl

theorem done_of_after (hskip : isSkipped pendingResume i = false) (habort : env.aborted world = false)
    {p : Option StepPath} {j : Nat} {world' : σ} {events : List (Event α)}
    (h : runSteps env resumePath pendingResume i world [s] =
      (runSteps env resumePath p j world' []).after events) :
    (dispatch env (dispatchResume resumePath pendingResume i) world s).result = .done ∧
      (dispatch env (dispatchResume resumePath pendingResume i) world s).events = events := by
  have hnil : runSteps env resumePath p j world' [] = ⟨.done, world', []⟩ := rfl
  rw [hnil, Outcome.after] at h
  dsimp only at h
  rw [append_nil] at h
  by_cases hdone : (dispatch env (dispatchResume resumePath pendingResume i) world s).result = .done
  · obtain ⟨world'', hrun⟩ := runSteps_done resumePath hskip habort hdone []
    rw [hrun] at h
    have hevents := congrArg Outcome.events h
    refine ⟨hdone, ?_⟩
    simpa [Outcome.after, runSteps] using hevents
  · rw [runSteps_result hskip habort [] hdone] at h
    exact absurd (congrArg Outcome.result h) hdone

end One

/-! ## How containers end -/

theorem runIterations_not_failed {type : LoopType} {spec : α} {resumed : Option Nat} (fuel i : Nat) (world : σ) (error : ExecutionError) :
    (runIterations env type spec resumed body fuel i world).result ≠ .failed error := by
  induction fuel generalizing i world with
  | zero =>
    intro h
    cases h
  | succ fuel ih =>
    rw [runIterations.eq_def]
    dsimp only
    split
    · intro h
      cases h
    · split
      · intro h
        cases h
      · intro h
        cases h
      · split
        · exact ih _ _
        · split
          · exact ih _ _
          · exact ih _ _
          · intro h
            cases h
          · exact rethrow_not_failed _ error

theorem catchError_stepId
    (h : (catchError (rethrow r)).result = .failed error) : error.stepId = none := by
  rw [catchError] at h
  split at h
  · exact absurd h (rethrow_not_failed r error)
  · obtain rfl := StepResult.failed.inj h
    rfl
  · exact absurd h (rethrow_not_failed r error)

theorem catchError_failed {message : String} (h : (catchError r).result.message = some message) :
    ∃ error, (catchError r).result = .failed error := by
  rw [catchError] at h ⊢
  split
  · rename_i hresult
    rw [hresult] at h
    dsimp only at h
    rw [hresult] at h
    cases h
  · exact ⟨_, rfl⟩
  · rename_i hsignal hthrown
    split at h
    · rename_i hresult
      exact absurd hresult (hsignal _)
    · rename_i hresult
      exact absurd hresult (hthrown _)
    · generalize hresult : r.result = result at h
      cases result with
      | done => cases h
      | failed error => exact ⟨error, rfl⟩
      | threw thrown => exact absurd hresult (hthrown thrown)

variable {s : Step α}

theorem dispatch_failed (hleaf : s.isLeaf = false)
    (h : (dispatch env resume world s).result = .failed error) :
    s.returnsErrors ∧ error.stepId = none := by
  cases s with
  | leaf base action => cases hleaf
  | ifAction base thenSteps elseSteps =>
    rw [dispatch.eq_def] at h
    dsimp only at h
    split at h
    · exact absurd h (rethrow_not_failed _ error)
    · exact absurd h (rethrow_not_failed _ error)
    · split at h
      · cases h
      · split at h
        · cases h
        all_goals exact absurd h (rethrow_not_failed _ error)
  | loop base type spec maxIterations steps =>
    rw [dispatch.eq_def] at h
    dsimp only at h
    split at h
    · cases h
    · exact absurd h (runIterations_not_failed _ _ _ error)
  | switch base expression cases default =>
    refine ⟨rfl, ?_⟩
    rw [dispatch.eq_def] at h
    dsimp only at h
    split at h
    · exact catchError_stepId h
    · split at h
      · obtain rfl := StepResult.failed.inj h
        rfl
      all_goals exact catchError_stepId h
  | group base steps => exact ⟨rfl, catchError_stepId h⟩

theorem dispatch_returns (hreturns : s.returnsErrors) {message : String}
    (h : (dispatch env resume world s).result.message = some message) :
    ∃ error, (dispatch env resume world s).result = .failed error := by
  cases s with
  | leaf base action | ifAction base thenSteps elseSteps | loop base type spec maxIterations steps =>
    cases hreturns
  | switch base expression cases default =>
    rw [dispatch.eq_def] at h ⊢
    dsimp only at h ⊢
    split at h
    · exact catchError_failed h
    · split at h
      · exact ⟨_, rfl⟩
      all_goals exact catchError_failed h
  | group base steps => exact catchError_failed h

theorem failure_type (hr : Classified r)
    (hresult : r.result = .failed error) (h : failure r = some f) : error.type = f.type := by
  rw [failure, hresult] at h
  have hf := some.inj h
  rw [hr.typed error hresult]
  split at hf
  · rename_i stepId type hlast
    obtain ⟨message, hmessage, htype⟩ := hr.last stepId type hlast
    rw [hresult] at hmessage
    cases hmessage
    rw [← hf, htype]
  · rw [← hf]

theorem failure_message (h : failure r = some f) : ∃ message, r.result.message = some message := by
  rw [failure] at h
  obtain ⟨message, hmessage, -⟩ := map_eq_some_iff.mp h
  exact ⟨message, hmessage⟩

section Fields

variable {resumePath pendingResume : Option StepPath} {i : Nat}

/-- A leaf keeps its common fields exactly when its dispatch meets them. -/
theorem leaf_iff (hskip : isSkipped pendingResume i = false) (habort : env.aborted world = false) :
    CommonFields env resumePath pendingResume i world (.leaf base action) ↔
      Meets env (dispatchResume resumePath pendingResume i) world (.leaf base action) := by
  constructor
  · intro h hescapes
    obtain ⟨f, hf⟩ := leafFailure_of_escape hescapes
    have hends := (runStep_ends hf).2
    rw [LeafEnds, if_pos hescapes] at hends
    obtain ⟨message, hthrew⟩ := hends
    have hgoes : ¬ (base.onError = .goOn ∨ base.onError = .skip) := by
      intro honError
      obtain ⟨world', events, hrun⟩ := h.goesOn f hf honError []
      have hdone := (done_of_after hskip habort hrun).1
      rw [dispatch, hthrew] at hdone
      cases hdone
    refine ⟨fun ho => hgoes (.inl ho), fun ho => hgoes (.inr ho), fun ho => ?_⟩
    obtain ⟨error, herror, -⟩ := h.stops f hf ho []
    rw [runSteps_result hskip habort [] (by rw [dispatch, hthrew]; intro hd; cases hd), dispatch,
      hthrew] at herror
    cases herror
  · intro h
    refine ⟨fun c hc _ hfalse rest => ?_, fun f hf honError rest => ?_, fun f hf honError rest => ?_⟩
    · have hdone : dispatch env (dispatchResume resumePath pendingResume i) world
          (.leaf base action) = ⟨.done, (env.evaluate c world).2, []⟩ := runStep_false hc hfalse
      obtain ⟨world', hrun⟩ := runSteps_done resumePath hskip habort
        (by rw [hdone]) rest
      rw [hdone] at hrun
      exact ⟨world', [], fun _ ha => not_mem_nil ha, hrun⟩
    · have hescapes : escapes env base action world = false := by
        by_contra hne
        obtain ⟨hgo, hskipped, -⟩ := h ((Bool.not_eq_false _).mp hne)
        rcases honError with ho | ho
        · exact hgo ho
        · exact hskipped ho
      have hends := (runStep_ends hf).2
      rw [LeafEnds, if_neg (by rw [hescapes]; exact Bool.false_ne_true)] at hends
      have hdone : (dispatch env (dispatchResume resumePath pendingResume i) world
          (.leaf base action)).result = .done := hends.1 honError
      obtain ⟨world', hrun⟩ := runSteps_done resumePath hskip habort hdone rest
      exact ⟨world', _, hrun⟩
    · have hescapes : escapes env base action world = false := by
        by_contra hne
        exact (h ((Bool.not_eq_false _).mp hne)).2.2 honError
      obtain ⟨hleaf, hends⟩ := runStep_ends hf
      rw [LeafEnds, if_neg (by rw [hescapes]; exact Bool.false_ne_true)] at hends
      obtain ⟨message, hfailed⟩ := hends.2 honError
      rw [runSteps_result hskip habort rest (by rw [dispatch, hfailed]; intro hd; cases hd)]
      refine ⟨_, hfailed, rfl, fun stepId hid => ?_⟩
      rw [hleaf] at hid
      exact some.inj hid

/-- A container keeps its common fields exactly when its dispatch meets them. -/
theorem container_iff (hleaf : s.isLeaf = false) (hskip : isSkipped pendingResume i = false)
    (habort : env.aborted world = false) :
    CommonFields env resumePath pendingResume i world s ↔
      Meets env (dispatchResume resumePath pendingResume i) world s := by
  have hfailure : stepFailure env (dispatchResume resumePath pendingResume i) world s =
      failure (dispatch env (dispatchResume resumePath pendingResume i) world s) := by
    cases s with
    | leaf base action => cases hleaf
    | ifAction _ _ _ | loop _ _ _ _ _ | switch _ _ _ _ | group _ _ => rfl
  have hmeets : Meets env (dispatchResume resumePath pendingResume i) world s ↔
      (∀ c, s.base.condition = some c → s.ownsCondition = false → (env.evaluate c world).1 = .ok false →
        (dispatch env (dispatchResume resumePath pendingResume i) world s).result = .done ∧
          Quiet (dispatch env (dispatchResume resumePath pendingResume i) world s).events) ∧
      ∀ f, failure (dispatch env (dispatchResume resumePath pendingResume i) world s) = some f →
        s.base.onError ≠ .goOn ∧ s.base.onError ≠ .skip ∧
        (s.base.onError = .stop → s.returnsErrors = true ∧ (f.leaf = none ∨ f.leaf = some none)) := by
    cases s with
    | leaf base action => cases hleaf
    | ifAction _ _ _ | loop _ _ _ _ _ | switch _ _ _ _ | group _ _ => exact Iff.rfl
  have hclassified : Classified (dispatch env (dispatchResume resumePath pendingResume i) world s) :=
    dispatch_classified s _ world
  rw [hmeets]
  constructor
  · intro h
    refine ⟨fun c hc howns hfalse => ?_, fun f hf => ?_⟩
    · obtain ⟨world', events, hquiet, hrun⟩ := h.condition c hc howns hfalse []
      obtain ⟨hdone, hevents⟩ := done_of_after hskip habort hrun
      exact ⟨hdone, hevents ▸ hquiet⟩
    · obtain ⟨message, hmessage⟩ := failure_message hf
      have hnot : (dispatch env (dispatchResume resumePath pendingResume i) world s).result ≠ .done := by
        intro hdone
        rw [hdone] at hmessage
        cases hmessage
      have hgoes : ¬ (s.base.onError = .goOn ∨ s.base.onError = .skip) := by
        intro honError
        obtain ⟨world', events, hrun⟩ := h.goesOn f (hfailure.trans hf) honError []
        exact hnot (done_of_after hskip habort hrun).1
      refine ⟨fun ho => hgoes (.inl ho), fun ho => hgoes (.inr ho), fun ho => ?_⟩
      obtain ⟨error, herror, -, hstepId⟩ := h.stops f (hfailure.trans hf) ho []
      rw [runSteps_result hskip habort [] hnot] at herror
      obtain ⟨hreturns, hnone⟩ := dispatch_failed hleaf herror
      refine ⟨hreturns, ?_⟩
      cases hfl : f.leaf with
      | none => exact .inl rfl
      | some stepId =>
        have hid := hstepId stepId hfl
        rw [hnone] at hid
        exact .inr (by rw [← hid])
  · intro h
    refine ⟨fun c hc howns hfalse rest => ?_, fun f hf honError => ?_, fun f hf honError rest => ?_⟩
    · obtain ⟨hdone, hquiet⟩ := h.1 c hc howns hfalse
      obtain ⟨world', hrun⟩ := runSteps_done resumePath hskip habort hdone rest
      exact ⟨world', _, hquiet, hrun⟩
    · rw [hfailure] at hf
      obtain ⟨hgo, hskipped, -⟩ := h.2 f hf
      rcases honError with ho | ho
      · exact absurd ho hgo
      · exact absurd ho hskipped
    · rw [hfailure] at hf
      obtain ⟨hreturns, hid⟩ := (h.2 f hf).2.2 honError
      obtain ⟨message, hmessage⟩ := failure_message hf
      obtain ⟨error, herror⟩ := dispatch_returns hreturns hmessage
      rw [runSteps_result hskip habort rest (by rw [herror]; intro hd; cases hd)]
      refine ⟨error, herror, failure_type hclassified herror hf, fun stepId hstepId => ?_⟩
      rw [(dispatch_failed hleaf herror).2]
      rcases hid with hnone | hnone
      · rw [hnone] at hstepId
        cases hstepId
      · rw [hnone] at hstepId
        exact some.inj hstepId

/-- When the common fields mean for a step what they say. -/
theorem common_fields_iff (env : Env α σ) (resumePath pendingResume : Option StepPath) (i : Nat)
    (world : σ) (s : Step α) (hskip : isSkipped pendingResume i = false)
    (habort : env.aborted world = false) :
    CommonFields env resumePath pendingResume i world s ↔
      Meets env (dispatchResume resumePath pendingResume i) world s := by
  cases hleaf : s.isLeaf with
  | false => exact container_iff hleaf hskip habort
  | true =>
    cases s with
    | leaf base action => exact leaf_iff hskip habort
    | ifAction _ _ _ | loop _ _ _ _ _ | switch _ _ _ _ | group _ _ => cases hleaf

end Fields

section Examples

/-- An action says with which message it fails, a condition is met if it says nothing. -/
def saying : Env (Option String) Unit where
  aborted _ := false
  execute action world := (action.map Thrown.error, world)
  evaluate condition world := (.ok condition.isNone, world)
  report world := (none, world)
  pause world := (none, world)
  requestHuman world := (none, world)
  bound _ _ _ := .ok 1
  goesOn _ _ world := (.ok true, world)
  enter _ _ _ world := world
  caseIdx _ _ _ := .ok none

def plain (id : Option String) (onError : OnError) : BaseAction (Option String) :=
  ⟨id, none, onError, 0⟩

def click (message : Option String) : Step (Option String) := .leaf (plain (some "click") .stop) message

theorem common_fields_group :
    CommonFields saying none none 0 () (.group (plain (some "all") .goOn) [click none]) := by
  refine (common_fields_iff saying none none 0 () _ rfl rfl).mpr ⟨fun c hc => ?_, fun f hf => ?_⟩
  · cases hc
  · cases hf

/-- A group that should go on stops, one that should be skipped runs, and an `if` throws. -/
theorem group_and_if_differ : ¬ CommonFields saying none none 0 ()
        (.group (plain (some "all") .goOn) [click (some "ElementNotFound")]) ∧
      ¬ CommonFields saying none none 0 ()
        (.group ⟨some "all", some (some "no"), .stop, 0⟩ [click none]) ∧
      ¬ CommonFields saying none none 0 ()
        (.ifAction ⟨some "if", some none, .stop, 0⟩ [click (some "ElementNotFound")] []) := by
  refine ⟨fun h => ?_, fun h => ?_, fun h => ?_⟩
  · obtain ⟨world, events, hrun⟩ := h.goesOn ⟨some (some "click"), "ElementNotFound"⟩ (by decide)
      (.inl rfl) []
    have hdone := (done_of_after rfl rfl hrun).1
    exact absurd hdone (by decide)
  · obtain ⟨world, events, hquiet, hrun⟩ := h.condition (some "no") rfl rfl rfl []
    have hevents := (done_of_after rfl rfl hrun).2
    exact hquiet none (hevents ▸ mem_singleton.mpr rfl)
  · obtain ⟨error, herror, -⟩ := h.stops ⟨some (some "click"), "ElementNotFound"⟩ (by decide) rfl []
    exact absurd herror (by intro he; cases he)

end Examples

end StepErrors

end Aegis
