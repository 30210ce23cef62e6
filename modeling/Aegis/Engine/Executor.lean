import Aegis.Engine.StepPath

/-!
# Engine.Executor

The executor of rules: `runSteps` and the handlers of flow control, of
`scriptcat-engine/executor-utils.ts`, and `runRule`, of `scriptcat-engine/executor.ts`.

What actions and conditions do is a parameter (`Env`), over a world that they read and change. An
executor returns what happened: the checkpoints it gave out, the failures it reported and the leaf
actions it ran, in order. Timeouts, retries and error strategies of a leaf are part of what the leaf
does; texts of errors are left out.
-/

namespace Aegis

namespace Engine

inductive LoopType where
  | fixedCount | whileElementExists | whileElementNotExists | whileCondition | forEach
deriving DecidableEq

/-- A step. `α` is what an action has besides its children. -/
inductive Action (α : Type) where
  | leaf (action : α)
  | ifAction (condition : α) (thenSteps elseSteps : List (Action α))
  | loop (type : LoopType) (spec : α) (maxIterations : Nat) (steps : List (Action α))
  | switch (expression : α) (cases : List (List (Action α))) (default : List (Action α))
  | group (steps : List (Action α))

/-- `RuntimeContext`: `δ` is what the steps extract, evaluate and capture. -/
structure RuntimeContext (ι δ : Type) where
  contents : δ
  loopIndex : Option Nat
  loopItem : Option ι

inductive Thrown where
  | breakSignal
  | continueSignal
  | exitSignal (failure : Bool)
  | aborted
  | error
deriving DecidableEq

/-- How a step or a list of steps ends: `failed` is a result with an error. -/
inductive StepResult where
  | done
  | failed
  | threw (thrown : Thrown)
deriving DecidableEq

structure Env (α ι δ σ : Type) where
  actionMayNavigate : α → Bool
  aborted : σ → Bool
  runStep : α → RuntimeContext ι δ → σ → StepResult × δ × σ
  /-- The condition of an `if` or a `while` loop, or whether the element is there; `none` throws. -/
  evaluate : α → RuntimeContext ι δ → σ → Option Bool × σ
  configured : α → Bool
  /-- The count of a loop; `none` throws. -/
  count : α → RuntimeContext ι δ → Option Nat
  items : α → RuntimeContext ι δ → Option (List ι)
  /-- The case that a switch takes, of so many; the inner `none` is the default. -/
  caseIdx : α → RuntimeContext ι δ → Nat → Option (Option Nat)

inductive Event (α ι δ : Type) where
  | stepStart (path : StepPath)
  | stepComplete (path : StepPath) (ctx : RuntimeContext ι δ)
  | stepFailure (path : StepPath)
  | leaf (action : α) (ctx : RuntimeContext ι δ)
  | hook (path : StepPath)

structure Outcome (α ι δ σ : Type) where
  result : StepResult
  ctx : RuntimeContext ι δ
  world : σ
  events : List (Event α ι δ)

/-- `RunStepsOptions`; without options nothing is reported. -/
structure RunStepsOptions where
  reports : Bool
  resumePath : Option StepPath
  pathPrefix : StepPath
  frameFor : Nat → StepPathFrame

namespace RunStepsOptions

/-- The options of the children of a container at `path`. -/
def within (o : RunStepsOptions) (path : StepPath) (frameFor : Nat → StepPathFrame) : RunStepsOptions :=
  { o with pathPrefix := path, frameFor := frameFor }

end RunStepsOptions

def isSkipped (pendingResume : Option StepPath) (i : Nat) : Bool :=
  match pendingResume with
  | some (frame :: _) => decide ((i : Int) < frame.childIdx)
  | _ => false

def isResumeTarget (pendingResume : Option StepPath) (i : Nat) : Bool :=
  match pendingResume with
  | some (frame :: _) => frame.childIdx == (i : Int)
  | _ => false

def dispatchResume (resumePath pendingResume : Option StepPath) (i : Nat) : Option StepPath :=
  match pendingResume with
  | none => none
  | some resume =>
    if isResumeTarget pendingResume i && decide (1 < resume.length) then some resume.tail
    -- without deeper frames the options stay as they are
    else resumePath

def resumeBranch : Option StepPath → Option Branch
  | some (.inIf branch _ :: _) => some branch
  | _ => none

def resumeIter : Option StepPath → Option Nat
  | some (.inLoop iter _ :: _) => some iter
  | _ => none

def buildChildOptions (o : RunStepsOptions) (path : StepPath) (iter : Nat) : RunStepsOptions :=
  { o with
    resumePath := if resumeIter o.resumePath = some iter then o.resumePath else none
    pathPrefix := path
    frameFor := fun i => .inLoop iter i }

def resumeCase : Option StepPath → Option Int
  | some (.inSwitch caseIdx _ :: _) => some caseIdx
  | _ => none

variable {α ι δ σ : Type} (env : Env α ι δ σ)

/-- The items of a loop and its number of iterations, at most `maxIterations`; `none` throws. -/
def loopBounds (type : LoopType) (spec : α) (maxIterations : Nat) (ctx : RuntimeContext ι δ) :
    Option (List ι × Nat) :=
  match type with
  | .fixedCount => (env.count spec ctx).map fun count => ([], min count maxIterations)
  | .forEach => (env.items spec ctx).map fun items => (items, min items.length maxIterations)
  | _ => if env.configured spec then some ([], maxIterations) else none

def loopHolds (type : LoopType) (spec : α) (ctx : RuntimeContext ι δ) (world : σ) : Option Bool × σ :=
  match type with
  | .fixedCount | .forEach => (some true, world)
  | .whileElementNotExists =>
    let r := env.evaluate spec ctx world
    (r.1.map not, r.2)
  | _ => env.evaluate spec ctx world

def enterIteration (type : LoopType) (items : List ι) (i : Nat) (ctx : RuntimeContext ι δ) :
    RuntimeContext ι δ :=
  match type with
  | .forEach => { ctx with loopIndex := some i, loopItem := items[i]? }
  | _ => { ctx with loopIndex := some i }

/-- The iterations of a loop from `i` on, `fuel` of them at most. -/
def runIterations (type : LoopType) (spec : α) (items : List ι) (resume : Option Nat)
    (body : Nat → RuntimeContext ι δ → σ → Outcome α ι δ σ) :
    Nat → Nat → RuntimeContext ι δ → σ → Outcome α ι δ σ
  | 0, _, ctx, world => ⟨.done, ctx, world, []⟩
  | fuel + 1, i, ctx, world =>
    if env.aborted world then ⟨.threw .aborted, ctx, world, []⟩
    else
      match loopHolds env type spec ctx world with
      | (none, world) => ⟨.threw .error, ctx, world, []⟩
      | (some false, world) => ⟨.done, ctx, world, []⟩
      | (some true, world) =>
        let ctx := enterIteration type items i ctx
        -- iterations before the resume position are done
        if resume.any (i < ·) then runIterations type spec items resume body fuel (i + 1) ctx world
        else
          let r := body i ctx world
          match r.result with
          | .done | .threw .continueSignal =>
            let q := runIterations type spec items resume body fuel (i + 1) r.ctx r.world
            { q with events := r.events ++ q.events }
          | .threw .breakSignal => { r with result := .done }
          | .failed => { r with result := .threw .error }
          | .threw _ => r

/-- `if (result.error) throw new Error(..)`. -/
def rethrow (r : Outcome α ι δ σ) : Outcome α ι δ σ :=
  match r.result with
  | .failed => { r with result := .threw .error }
  | _ => r

def catchError (r : Outcome α ι δ σ) : Outcome α ι δ σ :=
  match r.result with
  | .threw .error | .threw .aborted => { r with result := .failed }
  | _ => r

def mayNavigate : Action α → Bool
  | .leaf action => env.actionMayNavigate action
  | _ => false

mutual

/-- `runSteps`, from step `i` of a list on. -/
def runSteps (o : RunStepsOptions) (pendingResume : Option StepPath) (i : Nat)
    (ctx : RuntimeContext ι δ) (world : σ) : List (Action α) → Outcome α ι δ σ
  | [] => ⟨.done, ctx, world, []⟩
  | step :: rest =>
    if isSkipped pendingResume i then runSteps o pendingResume (i + 1) ctx world rest
    else if env.aborted world then ⟨.threw .aborted, ctx, world, []⟩
    else
      let path := o.pathPrefix ++ [o.frameFor i]
      let reported := o.reports && mayNavigate env step
      let start := if reported then [.stepStart path] else []
      let r := dispatch { o with resumePath := dispatchResume o.resumePath pendingResume i } path
        ctx world step
      match r.result with
      | .done =>
        let q := runSteps o (if isResumeTarget pendingResume i then none else pendingResume)
          (i + 1) r.ctx r.world rest
        { q with events := start ++ r.events ++
            (if o.reports then [.stepComplete path r.ctx] else []) ++ q.events }
      | .failed =>
        { r with events := start ++ r.events ++ if reported then [.stepFailure path] else [] }
      | .threw _ => { r with events := start ++ r.events }

/-- `runStep` and `dispatchFlowControl`. -/
def dispatch (o : RunStepsOptions) (path : StepPath) (ctx : RuntimeContext ι δ) (world : σ) :
    Action α → Outcome α ι δ σ
  | .leaf action =>
    let r := env.runStep action ctx world
    ⟨r.1, { ctx with contents := r.2.1 }, r.2.2, [.leaf action ctx]⟩
  | .ifAction condition thenSteps elseSteps =>
    let thenRun := fun world => runSteps (o.within path fun i => .inIf .thenSteps i) o.resumePath 0
      ctx world thenSteps
    let elseRun := fun world => runSteps (o.within path fun i => .inIf .elseSteps i) o.resumePath 0
      ctx world elseSteps
    match resumeBranch o.resumePath with
    | some .thenSteps => rethrow (thenRun world)
    | some .elseSteps => rethrow (elseRun world)
    | none =>
      match env.evaluate condition ctx world with
      | (none, world) => ⟨.threw .error, ctx, world, []⟩
      | (some true, world) => rethrow (thenRun world)
      | (some false, world) => rethrow (elseRun world)
  | .loop type spec maxIterations steps =>
    match loopBounds env type spec maxIterations ctx with
    | none => ⟨.threw .error, ctx, world, []⟩
    | some (items, bound) =>
      runIterations env type spec items (resumeIter o.resumePath)
        (fun iter ctx world =>
          runSteps (buildChildOptions o path iter) (buildChildOptions o path iter).resumePath 0
            ctx world steps)
        bound 0 ctx world
  | .switch expression cases default =>
    let defaultRun := fun caseIdx => runSteps (o.within path fun i => .inSwitch caseIdx i)
      o.resumePath 0 ctx world default
    match resumeCase o.resumePath with
    | some caseIdx =>
      catchError (rethrow (if 0 ≤ caseIdx then
        runCase o path caseIdx (defaultRun caseIdx) ctx world caseIdx.toNat cases
        else defaultRun caseIdx))
    | none =>
      match env.caseIdx expression ctx cases.length with
      | none => ⟨.failed, ctx, world, []⟩
      | some none => catchError (rethrow (defaultRun (-1)))
      | some (some n) =>
        catchError (rethrow (runCase o path n (defaultRun n) ctx world n cases))
  | .group steps =>
    catchError (rethrow (runSteps (o.within path fun i => .inGroup i) o.resumePath 0 ctx world
      steps))

/-- The steps of case `n`, or `otherwise` when there is no such case. -/
def runCase (o : RunStepsOptions) (path : StepPath) (caseIdx : Int)
    (otherwise : Outcome α ι δ σ) (ctx : RuntimeContext ι δ) (world : σ) :
    Nat → List (List (Action α)) → Outcome α ι δ σ
  | _, [] => otherwise
  | 0, steps :: _ =>
    runSteps (o.within path fun i => .inSwitch caseIdx i) o.resumePath 0 ctx world steps
  | n + 1, _ :: cases => runCase o path caseIdx otherwise ctx world n cases

end

structure Hooks (α : Type) where
  beforeAll : Option (List (Action α))
  afterAll : Option (List (Action α))
  onError : Option (List (Action α))
  cleanup : Option (List (Action α))

structure Rule (α : Type) where
  hooks : Hooks α
  steps : List (Action α)

inductive HookPhase where
  | beforeAll | afterAll | onError | cleanup
deriving DecidableEq

structure Progress (α ι δ σ : Type) where
  fatal : Bool
  ctx : RuntimeContext ι δ
  world : σ
  events : List (Event α ι δ)

def noOptions : RunStepsOptions := ⟨false, none, [], fun i => .top i⟩

def mainOptions (resumeStepPath : Option StepPath) : RunStepsOptions :=
  ⟨true, resumeStepPath, [], fun i => .top i⟩

def runHook (resumeStepPath : Option StepPath) (steps : List (Action α))
    (p : Progress α ι δ σ) : StepResult × Progress α ι δ σ :=
  let r := runSteps env noOptions none 0 p.ctx p.world steps
  (r.result,
    { fatal := p.fatal || r.result == .threw (.exitSignal true)
      ctx := r.ctx
      world := r.world
      events := p.events ++ r.events ++ [.hook (resumeStepPath.getD [])] })

def runLateHook (resumeStepPath : Option StepPath) (hooksCompleted : List HookPhase)
    (phase : HookPhase) (hook : Option (List (Action α))) (p : Progress α ι δ σ) :
    Progress α ι δ σ :=
  match hook with
  | some steps =>
    if hooksCompleted.contains phase then p else (runHook env resumeStepPath steps p).2
  | none => p

def runMain (resumeStepPath : Option StepPath) (steps : List (Action α))
    (p : Progress α ι δ σ) : Progress α ι δ σ :=
  let r := runSteps env (mainOptions resumeStepPath) resumeStepPath 0 p.ctx p.world steps
  { fatal := p.fatal ||
      match r.result with
      | .done | .threw .aborted | .threw (.exitSignal false) => false
      | _ => true
    ctx := r.ctx
    world := r.world
    events := p.events ++ r.events }

def runLateHooks (rule : Rule α) (resumeStepPath : Option StepPath)
    (hooksCompleted : List HookPhase) (p : Progress α ι δ σ) : Progress α ι δ σ :=
  let p := runLateHook env resumeStepPath hooksCompleted .afterAll rule.hooks.afterAll p
  let p := if p.fatal then
      runLateHook env resumeStepPath hooksCompleted .onError rule.hooks.onError p
    else p
  runLateHook env resumeStepPath hooksCompleted .cleanup rule.hooks.cleanup p

/-- `runRule`, up to the checks of the output. -/
def runRule (rule : Rule α) (resumeStepPath : Option StepPath) (hooksCompleted : List HookPhase)
    (ctx : RuntimeContext ι δ) (world : σ) : Progress α ι δ σ :=
  let p : Progress α ι δ σ := ⟨false, ctx, world, []⟩
  match rule.hooks.beforeAll with
  | some steps =>
    if resumeStepPath.getD [] = [] ∧ ¬ hooksCompleted.contains .beforeAll then
      match runHook env resumeStepPath steps p with
      | (.done, p) =>
        runLateHooks env rule resumeStepPath hooksCompleted (runMain env resumeStepPath rule.steps p)
      | (.threw (.exitSignal _), p) | (.threw .aborted, p) =>
        runLateHooks env rule resumeStepPath hooksCompleted p
      | (_, p) => p
    else
      runLateHooks env rule resumeStepPath hooksCompleted (runMain env resumeStepPath rule.steps p)
  | none =>
    runLateHooks env rule resumeStepPath hooksCompleted (runMain env resumeStepPath rule.steps p)

@[elab_as_elim]
theorem Action.ind {P : Action α → Prop} (leaf : ∀ action, P (.leaf action))
    (ifAction : ∀ condition thenSteps elseSteps, (∀ s ∈ thenSteps, P s) →
      (∀ s ∈ elseSteps, P s) → P (.ifAction condition thenSteps elseSteps))
    (loop : ∀ type spec maxIterations steps, (∀ s ∈ steps, P s) → P (.loop type spec maxIterations steps))
    (switch : ∀ expression cases default, (∀ steps ∈ cases, ∀ s ∈ steps, P s) →
      (∀ s ∈ default, P s) → P (.switch expression cases default))
    (group : ∀ steps, (∀ s ∈ steps, P s) → P (.group steps)) (step : Action α) : P step :=
  @Action.rec α P (fun steps => ∀ s ∈ steps, P s) (fun cases => ∀ steps ∈ cases, ∀ s ∈ steps, P s)
    leaf (fun c t e => ifAction c t e) (fun t s m steps => loop t s m steps)
    (fun e cases default => switch e cases default) (fun steps => group steps)
    (fun _ h => absurd h List.not_mem_nil) (fun _ _ hs hrest => List.forall_mem_cons.mpr
      ⟨hs, hrest⟩)
    (fun _ h => absurd h List.not_mem_nil) (fun _ _ hs hrest => List.forall_mem_cons.mpr
      ⟨hs, hrest⟩) step

end Engine

end Aegis
