import Aegis.Engine.Executor
import Aegis.Engine.Preflight
import Aegis.Lib.Run

/-!
# Engine.Dispatch

Which steps a run of `runRule` comes to: a machine over rules with the lists of steps that actions
run on their own (`retry`, `requestHuman`, `circuitBreaker`, `recover`), of
`scriptcat-engine/actions/index.ts`.

A thread is what is being done and the calls that wait for it. What actions, conditions and the
environment do is chosen by the events; a hard timeout cuts off the body of an action, which goes on
as a thread of its own. The log tells which checkpoints have been given out, which conditions
evaluated and which leaf actions run.
-/

namespace Aegis

open List

namespace Dispatch

open Engine (StepResult)
open Preflight (Fields Step Rule Hooks actionMayNavigate)

inductive Phase where
  | beforeAll | main | afterAll | onError | cleanup
deriving DecidableEq

inductive Container where
  | ifAction | switch | group | retry | requestHuman | circuitBreaker | recover
  | loop (type : String)
  | hook (phase : Phase)
deriving DecidableEq

/-- The options of `runSteps` are handed on to the steps in it. -/
def Container.passesOptions : Container → Bool
  | .ifAction | .switch | .group | .loop _ => true
  | _ => false

def loopTypes : List String :=
  ["fixedCount", "whileElementExists", "whileElementNotExists", "whileCondition", "forEach"]

def isFlowControl (action : String) : Bool := ["if", "loop", "switch", "group"].contains action

def fields : Step → Fields
  | .mk f _ _ _ _ _ _ => f

def lists : Step → List (Container × List Step)
  | .mk f thenSteps elseSteps steps default onOpen cases =>
    if f.action = "if" then [(.ifAction, thenSteps), (.ifAction, elseSteps)]
    else if f.action = "loop" then
      -- a loop of another type does nothing
      (f.type.filter (loopTypes.contains ·)).toList.map fun type => (.loop type, steps)
    else if f.action = "switch" then
      cases.map (fun l => (.switch, l)) ++ [(.switch, default)]
    else if f.action = "group" then [(.group, steps)]
    else if f.action = "retry" then [(.retry, steps)]
    else if f.action = "requestHuman" then [(.requestHuman, thenSteps)]
    else if f.action = "circuitBreaker" then [(.circuitBreaker, onOpen)]
    -- `recover` hands its steps to `executeAction`, which runs no flow control
    else if f.action = "recover" then
      [(.recover, steps.filter fun s => !isFlowControl (fields s).action)]
    else []

def hookSteps (rule : Rule) : Phase → List Step
  | .beforeAll => rule.hooks.beforeAll
  | .main => rule.steps
  | .afterAll => rule.hooks.afterAll
  | .onError => rule.hooks.onError
  | .cleanup => rule.hooks.cleanup

def within : Phase → List Container
  | .main => []
  | phase => [.hook phase]

/-- The steps of a rule that may be run, and what each of them is in, from the outside. -/
inductive Occurs (rule : Rule) : List Container → Step → Prop where
  | phase {phase s} (h : s ∈ hookSteps rule phase) : Occurs rule (within phase) s
  | inner {w s c l s'} (h : Occurs rule w s) (hl : (c, l) ∈ lists s) (hs : s' ∈ l) :
      Occurs rule (w ++ [c]) s'

/-! ## The machine -/

/-- `RunStepsOptions`, and what the steps are in; `reports` if there are options at all. -/
structure Options where
  reports : Bool
  pathPrefix : StepPath
  frameFor : Nat → StepPathFrame
  within : List Container

inductive Frame where
  /-- `runSteps`, with the steps after the one under way. -/
  | steps (o : Options) (i : Nat) (rest : List Step)
  /-- `executeWithTimeout`: attempt `n` of a leaf action. -/
  | attempt (o : Options) (path : StepPath) (s : Step) (n : Nat)
  /-- `executeAction`, called by `recover`; the steps after it. -/
  | direct (within : List Container) (s : Step) (rest : List Step)
  /-- An attempt that its hard timeout has cut off. -/
  | late (within : List Container) (s : Step)
  /-- A body that runs nested steps. -/
  | nested
  | ifAction
  /-- A loop, with its number of iterations so far. -/
  | loop (o : Options) (path : StepPath) (s : Step) (iter : Nat)
  /-- `switch` and `group`. -/
  | container
  | rule (phase : Phase)

inductive Control where
  | returns (r : StepResult)
  | steps (o : Options) (i : Nat) (steps : List Step)
  | dispatch (o : Options) (path : StepPath) (s : Step)
  /-- `runStep`, before attempt `n`. -/
  | attempt (o : Options) (path : StepPath) (s : Step) (n : Nat)
  | body
  /-- `handleRecover`, before the next of its steps. -/
  | recover (within : List Container) (steps : List Step)
  | iterate (o : Options) (path : StepPath) (s : Step) (iter : Nat)
  | enter (phase : Phase)
  | ended

inductive Choice where
  | go
  /-- The condition is false, a loop ends, or the resume position lies behind. -/
  | skip
  | throws
  | abort
  /-- A branch, a case, or nested steps. -/
  | pick (n : Nat)
  /-- A branch or a case that the resume path names. -/
  | resume (n : Nat)
  | finish (r : StepResult)
deriving DecidableEq

inductive LogEvent where
  /-- `onStepStart`. -/
  | announced (path : StepPath)
  /-- The condition of a step is evaluated. -/
  | condition (within : List Container) (s : Step)
  /-- A leaf action runs; `path` if it was dispatched with options. -/
  | leaf (within : List Container) (s : Step) (path : Option StepPath)
  | entered (phase : Phase)
  /-- `runRule` returns, with the status `success` or another. -/
  | returned (success : Bool)

structure Thread where
  control : Control
  stack : List Frame

structure Machine where
  /-- The first is `runRule`, the others are what hard timeouts have cut off. -/
  threads : List Thread
  /-- There is a fatal error. -/
  fatal : Bool
  log : List LogEvent

inductive Event where
  | act (thread : Nat) (choice : Choice)
  /-- The hard timeout of the attempt that waits at `depth`. -/
  | timeout (thread depth : Nat)

abbrev Advance := Thread × List LogEvent

def goesOn (control : Control) (stack : List Frame) : Advance := (⟨control, stack⟩, [])

/-- The options of the steps in a container at `path`. -/
def Options.inside (o : Options) (c : Container) (path : StepPath)
    (frameFor : Nat → StepPathFrame) : Options :=
  { o with pathPrefix := path, frameFor := frameFor, within := o.within ++ [c] }

def bare (within : List Container) : Options := ⟨false, [], fun i => .top i, within⟩

def phaseOptions (phase : Phase) : Options := ⟨phase = .main, [], fun i => .top i, within phase⟩

def pathOf (o : Options) (path : StepPath) : Option StepPath := if o.reports then some path else none

def evaluated (o : Options) (s : Step) : List LogEvent :=
  if (fields s).condition.isSome then [.condition o.within s] else []

def listAt (s : Step) (n : Nat) : List Step := ((lists s).map Prod.snd).getD n []

/-- `runIfAction`. -/
def dispatchIf (choice : Choice) (stack : List Frame) (o : Options) (path : StepPath) (s : Step) :
    Advance :=
  match choice with
  | .throws => (⟨.returns (.threw .error), stack⟩, evaluated o s)
  | .resume n => goesOn (.steps (o.inside .ifAction path fun i =>
      .inIf (if n = 0 then .thenSteps else .elseSteps) i) 0 (listAt s n)) (.ifAction :: stack)
  | .pick n => (⟨.steps (o.inside .ifAction path fun i =>
      .inIf (if n = 0 then .thenSteps else .elseSteps) i) 0 (listAt s n), .ifAction :: stack⟩,
      evaluated o s)
  | _ => (⟨.steps (o.inside .ifAction path fun i => .inIf .thenSteps i) 0 (listAt s 0),
      .ifAction :: stack⟩, evaluated o s)

/-- `runLoopAction`. -/
def dispatchLoop (choice : Choice) (stack : List Frame) (o : Options) (path : StepPath) (s : Step) :
    Advance :=
  match choice with
  | .throws => goesOn (.returns (.threw .error)) stack
  | _ => goesOn (.iterate o path s 0) stack

/-- `handleSwitch`. -/
def dispatchSwitch (choice : Choice) (stack : List Frame) (o : Options) (path : StepPath)
    (s : Step) : Advance :=
  match choice with
  | .throws => goesOn (.returns .failed) stack
  | .pick n | .resume n => goesOn (.steps (o.inside .switch path fun i => .inSwitch n i) 0
      (listAt s n)) (.container :: stack)
  | _ => goesOn (.returns .done) stack

def dispatchFlowControl (choice : Choice) (stack : List Frame) (o : Options) (path : StepPath)
    (s : Step) : Advance :=
  if (fields s).action = "if" then dispatchIf choice stack o path s
  else if (fields s).action = "loop" then dispatchLoop choice stack o path s
  else if (fields s).action = "switch" then dispatchSwitch choice stack o path s
  else goesOn (.steps (o.inside .group path fun i => .inGroup i) 0 (listAt s 0)) (.container :: stack)

/-- `runStep` and `dispatchFlowControl`. -/
def dispatch (choice : Choice) (stack : List Frame) (o : Options) (path : StepPath) (s : Step) : Advance :=
  if isFlowControl (fields s).action then dispatchFlowControl choice stack o path s
  else match choice with
    | .throws => (⟨.returns (.threw .error), stack⟩, evaluated o s)
    | .skip => (⟨.returns .done, stack⟩, evaluated o s)
    | _ => (⟨.attempt o path s 0, stack⟩, evaluated o s)

def iterate (choice : Choice) (stack : List Frame) (o : Options) (path : StepPath) (s : Step)
    (iter : Nat) : Advance :=
  match (lists s).head? with
  | none => goesOn (.returns .done) stack
  | some (c, l) =>
    let log := if c = .loop "whileCondition" then evaluated o s else []
    match choice with
    | .skip => (⟨.returns .done, stack⟩, log)
    | .throws => (⟨.returns (.threw .error), stack⟩, log)
    | .abort => goesOn (.returns (.threw .aborted)) stack
    -- an iteration before the resume position
    | .resume _ => (⟨.iterate o path s (iter + 1), stack⟩, log)
    | _ => (⟨.steps (o.inside c path fun i => .inLoop iter i) 0 l, .loop o path s iter :: stack⟩, log)

def bodyStep (choice : Choice) (stack : List Frame) (w : List Container) (s : Step) : Advance :=
  match choice with
  | .pick _ =>
    match (lists s).head? with
    | some (c, l) =>
      if isFlowControl (fields s).action then goesOn .body stack
      else if c = .recover then goesOn (.recover (w ++ [c]) l) (.nested :: stack)
      else goesOn (.steps (bare (w ++ [c])) 0 l) (.nested :: stack)
    | none => goesOn .body stack
  | .finish .failed => goesOn (.returns (.threw .error)) stack
  | .finish r => goesOn (.returns r) stack
  | _ => goesOn .body stack

def marksFatal (r : StepResult) : Phase → Bool
  | .main => match r with
    | .done | .threw .aborted | .threw (.exitSignal false) => false
    | _ => true
  | _ => r == .threw (.exitSignal true)

/-- The phase after another one; `none` if `runRule` returns. -/
def nextPhase (fatal : Bool) (r : StepResult) : Phase → Option Phase
  | .beforeAll => match r with
    | .done => some .main
    | .threw (.exitSignal _) | .threw .aborted => some .afterAll
    | _ => none
  | .main => some .afterAll
  | .afterAll => if fatal then some .onError else some .cleanup
  | .onError => some .cleanup
  | .cleanup => none

/-- The result `r` comes to the call that waits for it. -/
def returnTo (fatal : Bool) (choice : Choice) (r : StepResult) : List Frame → Advance
  | [] => goesOn .ended []
  | .steps o i rest :: stack => match r with
    | .done => goesOn (.steps o (i + 1) rest) stack
    | _ => goesOn (.returns r) stack
  | .attempt o path s n :: stack => match r with
    | .done => goesOn (.returns .done) stack
    | .threw .error | .threw .aborted | .failed => match choice with
      -- another attempt
      | .go => goesOn (.attempt o path s (n + 1)) stack
      -- `onError` says to go on
      | .skip => goesOn (.returns .done) stack
      | .throws => goesOn (.returns (.threw .error)) stack
      | _ => goesOn (.returns .failed) stack
    | .threw _ => goesOn (.returns r) stack
  | .direct w _ rest :: stack => match r with
    | .done => goesOn (.recover w rest) stack
    | _ => goesOn (.returns r) stack
  -- nobody waits for what has been cut off
  | .late _ _ :: _ => goesOn .ended []
  | .nested :: stack => goesOn .body stack
  | .ifAction :: stack => match r with
    | .failed => goesOn (.returns (.threw .error)) stack
    | _ => goesOn (.returns r) stack
  | .loop o path s iter :: stack => match r with
    | .done | .threw .continueSignal => goesOn (.iterate o path s (iter + 1)) stack
    | .threw .breakSignal => goesOn (.returns .done) stack
    | .failed => goesOn (.returns (.threw .error)) stack
    | .threw _ => goesOn (.returns r) stack
  | .container :: stack => match r with
    | .threw .error | .threw .aborted => goesOn (.returns .failed) stack
    | _ => goesOn (.returns r) stack
  | .rule phase :: stack => match nextPhase fatal r phase with
    | some phase => goesOn (.enter phase) stack
    -- a run that is cancelled, or whose output is not valid, is no success either
    | none => (⟨.ended, []⟩, [.returned (!fatal && phase == .cleanup && choice != .throws)])

def advance (rule : Rule) (fatal : Bool) (choice : Choice) (stack : List Frame) : Control → Advance
  | .returns r => returnTo fatal choice r stack
  | .steps _ _ [] => goesOn (.returns .done) stack
  | .steps o i (s :: rest) => match choice with
    | .abort => goesOn (.returns (.threw .aborted)) stack
    -- a step before the resume position
    | .skip => goesOn (.steps o (i + 1) rest) stack
    | _ => (⟨.dispatch o (o.pathPrefix ++ [o.frameFor i]) s, .steps o i rest :: stack⟩,
        if o.reports && actionMayNavigate (fields s) then
          [.announced (o.pathPrefix ++ [o.frameFor i])] else [])
  | .dispatch o path s => dispatch choice stack o path s
  | .attempt o path s n =>
    (⟨.body, .attempt o path s n :: stack⟩, [.leaf o.within s (pathOf o path)])
  | .body => match stack with
    | .attempt o _ s _ :: _ => bodyStep choice stack o.within s
    | .direct w s _ :: _ | .late w s :: _ => bodyStep choice stack w s
    | _ => goesOn .body stack
  | .recover _ [] => goesOn (.returns .done) stack
  | .recover w (s :: rest) => (⟨.body, .direct w s rest :: stack⟩, [.leaf w s none])
  | .iterate o path s iter => iterate choice stack o path s iter
  | .enter phase => match choice, phase with
    -- a hook that has completed before
    | .skip, .beforeAll | .skip, .afterAll | .skip, .onError | .skip, .cleanup =>
      goesOn (.returns .done) (.rule phase :: stack)
    | _, _ => (⟨.steps (phaseOptions phase) 0 (hookSteps rule phase), .rule phase :: stack⟩,
        [.entered phase])
  | .ended => goesOn .ended stack

def fatalAfter (fatal : Bool) (thread : Thread) : Bool :=
  match thread.control, thread.stack with
  | .returns r, .rule phase :: _ => fatal || marksFatal r phase
  | _, _ => fatal

def bodyEnded (control : Control) (depth : Nat) : Bool :=
  match control, depth with
  | .returns _, 0 => true
  | _, _ => false

def step (rule : Rule) (m : Machine) : Event → Machine
  | .act j choice => match m.threads[j]? with
    | some thread =>
      let fatal := fatalAfter m.fatal thread
      let r := advance rule fatal choice thread.stack thread.control
      ⟨m.threads.set j r.1, fatal, m.log ++ r.2⟩
    | none => m
  | .timeout j depth => match m.threads[j]? with
    | some thread => match thread.stack[depth]? with
      | some (.attempt o _ s _) =>
        if bodyEnded thread.control depth then m
        else
          { m with
            threads := m.threads.set j ⟨.returns (.threw .error), thread.stack.drop depth⟩ ++
              [⟨thread.control, thread.stack.take depth ++ [.late o.within s]⟩] }
      | _ => m
    | none => m

def init : Machine := ⟨[⟨.enter .beforeAll, []⟩], false, []⟩

variable {rule : Rule} {m : Machine} {fatal : Bool} {choice : Choice} {stack : List Frame}
  {o : Options} {path : StepPath} {s : Step} {w : List Container} {log log' : List LogEvent}

/-- What is logged after `log`: steps of the rule, and a leaf action that may navigate after its
checkpoint, if the options come to it. -/
def EventOk (rule : Rule) (log : List LogEvent) : LogEvent → Prop
  | .condition w s => Occurs rule w s
  | .leaf w s path => Occurs rule w s ∧ (actionMayNavigate (fields s) → w.all Container.passesOptions →
      ∃ p, path = some p ∧ .announced p ∈ log)
  | _ => True

/-- Every event of the log is as the rule allows after those before it. -/
def LogOk (rule : Rule) (log : List LogEvent) : Prop :=
  ∀ before e after, log = before ++ e :: after → EventOk rule before e

theorem LogOk.append_singleton {e : LogEvent} (h : LogOk rule log) (he : EventOk rule log e) :
    LogOk rule (log ++ [e]) := by
  intro before e' after heq
  rcases eq_nil_or_concat after with rfl | ⟨rest, x, rfl⟩
  · obtain ⟨rfl, hsame⟩ := append_inj' heq rfl
    obtain rfl := (List.cons.inj hsame).1
    exact he
  · have hlast : log ++ [e] = (before ++ e' :: rest) ++ [x] := by simpa using heq
    exact h before e' rest (append_inj' hlast rfl).1

def OptionsOk (o : Options) : Prop := o.reports = o.within.all Container.passesOptions

structure StepsOk (rule : Rule) (o : Options) (l : List Step) : Prop where
  options : OptionsOk o
  occurs : ∀ s ∈ l, Occurs rule o.within s

structure Dispatched (rule : Rule) (log : List LogEvent) (o : Options) (path : StepPath) (s : Step) :
    Prop where
  options : OptionsOk o
  occurs : Occurs rule o.within s
  announced : o.reports → actionMayNavigate (fields s) → .announced path ∈ log

/-- Steps that `recover` runs. -/
structure Recovered (rule : Rule) (w : List Container) (l : List Step) : Prop where
  within : w.all Container.passesOptions = false
  occurs : ∀ s ∈ l, Occurs rule w s

def FrameOk (rule : Rule) (log : List LogEvent) : Frame → Prop
  | .steps o _ rest => StepsOk rule o rest
  | .attempt o path s _ => Dispatched rule log o path s
  | .loop o path s _ => Dispatched rule log o path s ∧ isFlowControl (fields s).action = true
  | .direct w s rest => Recovered rule w (s :: rest)
  | .late w s => Occurs rule w s
  | _ => True

def ControlOk (rule : Rule) (log : List LogEvent) : Control → Prop
  | .steps o _ l => StepsOk rule o l
  | .dispatch o path s | .attempt o path s _ => Dispatched rule log o path s
  | .iterate o path s _ => Dispatched rule log o path s ∧ isFlowControl (fields s).action = true
  | .recover w l => Recovered rule w l
  | _ => True

structure ThreadOk (rule : Rule) (log : List LogEvent) (thread : Thread) : Prop where
  control : ControlOk rule log thread.control
  stack : ∀ f ∈ thread.stack, FrameOk rule log f

/-- The invariant: threads and log are of the rule. -/
structure Inv (rule : Rule) (m : Machine) : Prop where
  threads : ∀ thread ∈ m.threads, ThreadOk rule m.log thread
  log : LogOk rule m.log

theorem Dispatched.mono (h : Dispatched rule log o path s) (hsub : log ⊆ log') :
    Dispatched rule log' o path s :=
  ⟨h.options, h.occurs, fun hreports hmay => hsub (h.announced hreports hmay)⟩

theorem FrameOk.mono {f : Frame} (h : FrameOk rule log f) (hsub : log ⊆ log') : FrameOk rule log' f := by
  cases f with
  | attempt o path s n => exact Dispatched.mono h hsub
  | loop o path s iter => exact ⟨h.1.mono hsub, h.2⟩
  | steps _ _ _ | direct _ _ _ | late _ _ => exact h
  | nested | ifAction | container | rule _ => trivial

theorem ControlOk.mono {control : Control} (h : ControlOk rule log control) (hsub : log ⊆ log') :
    ControlOk rule log' control := by
  cases control with
  | dispatch o path s | attempt o path s n => exact Dispatched.mono h hsub
  | iterate o path s iter => exact ⟨h.1.mono hsub, h.2⟩
  | steps _ _ _ => exact h
  | recover _ _ => exact h
  | returns _ | body | enter _ | ended => trivial

theorem ThreadOk.mono {thread : Thread} (h : ThreadOk rule log thread) (hsub : log ⊆ log') :
    ThreadOk rule log' thread :=
  ⟨h.control.mono hsub, fun f hf => (h.stack f hf).mono hsub⟩

variable {c : Container} {l : List Step}

theorem StepsOk.inside (ho : OptionsOk o)
    (hs : Occurs rule o.within s) (hl : (c, l) ∈ lists s) (hc : c.passesOptions)
    (frameFor : Nat → StepPathFrame) : StepsOk rule (o.inside c path frameFor) l where
  options := by
    rw [OptionsOk, Options.inside, all_append, ho]
    simp [hc]
  occurs s' hs' := .inner hs hl hs'

theorem listAt_mem {n : Nat} {s' : Step} (h : s' ∈ listAt s n) :
    ∃ c l, (c, l) ∈ lists s ∧ s' ∈ l ∧ listAt s n = l := by
  rw [listAt, getD_eq_getElem?_getD, getElem?_map] at h ⊢
  cases hn : (lists s)[n]? with
  | none =>
    rw [hn] at h
    cases h
  | some p =>
    rw [hn] at h
    exact ⟨p.1, p.2, mem_of_getElem? hn, h, rfl⟩

theorem lists_of_if (h : (fields s).action = "if") (hl : (c, l) ∈ lists s) : c = .ifAction := by
  obtain ⟨f, t, e, st, d, op, cs⟩ := s
  simp only [fields] at h
  simp only [lists, h, if_true, mem_cons, not_mem_nil, or_false] at hl
  rcases hl with hl | hl
  all_goals exact (Prod.mk.inj hl).1

theorem lists_of_switch (h : (fields s).action = "switch") (hl : (c, l) ∈ lists s) : c = .switch := by
  obtain ⟨f, t, e, st, d, op, cs⟩ := s
  simp only [fields] at h
  have hne : ("switch" = "if") = False := by decide
  have hne' : ("switch" = "loop") = False := by decide
  simp only [lists, h, hne, hne', if_false, if_true, mem_append, mem_map, mem_singleton] at hl
  rcases hl with ⟨_, _, hl⟩ | hl
  · exact (Prod.mk.inj hl).1.symm
  · exact (Prod.mk.inj hl).1

theorem lists_of_group (h : (fields s).action = "group") (hl : (c, l) ∈ lists s) : c = .group := by
  obtain ⟨f, t, e, st, d, op, cs⟩ := s
  simp only [fields] at h
  have hif : ("group" = "if") = False := by decide
  have hloop : ("group" = "loop") = False := by decide
  have hswitch : ("group" = "switch") = False := by decide
  simp only [lists, h, hif, hloop, hswitch, if_false, if_true, mem_singleton] at hl
  exact (Prod.mk.inj hl).1

theorem passes_of_singleton {c c' : Container} {l l' : List Step} {action : String}
    (ha : (fields s).action = action) (hpasses : c'.passesOptions = isFlowControl action)
    (hl : (c, l) ∈ [(c', l')]) : c.passesOptions = isFlowControl (fields s).action := by
  rw [(Prod.mk.inj (mem_singleton.mp hl)).1, hpasses, ha]

theorem lists_passes (hl : (c, l) ∈ lists s) : c.passesOptions = isFlowControl (fields s).action := by
  obtain ⟨f, t, e, st, d, op, cs⟩ := s
  rw [lists] at hl
  split at hl
  · rename_i h
    rw [show c = .ifAction from lists_of_if (s := .mk f t e st d op cs) h (by rwa [lists, if_pos h])]
    simp [fields, h, isFlowControl, Container.passesOptions]
  · split at hl
    · rename_i h
      obtain ⟨type, -, hc⟩ := mem_map.mp hl
      rw [← (Prod.mk.inj hc).1]
      simp [fields, h, isFlowControl, Container.passesOptions]
    · split at hl
      · rename_i h
        have hc : c = .switch := by
          rcases mem_append.mp hl with hl | hl
          · obtain ⟨_, -, hc⟩ := mem_map.mp hl
            exact (Prod.mk.inj hc).1.symm
          · exact (Prod.mk.inj (mem_singleton.mp hl)).1
        rw [hc]
        simp [fields, h, isFlowControl, Container.passesOptions]
      · split at hl
        · exact passes_of_singleton (by assumption) rfl hl
        · split at hl
          · exact passes_of_singleton (by assumption) rfl hl
          · split at hl
            · exact passes_of_singleton (by assumption) rfl hl
            · split at hl
              · exact passes_of_singleton (by assumption) rfl hl
              · split at hl
                · exact passes_of_singleton (by assumption) rfl hl
                · cases hl

theorem lists_head (h : (lists s).head? = some (c, l)) : (c, l) ∈ lists s := mem_of_mem_head? h

/-! ## What a thread does -/

structure AdvanceOk (rule : Rule) (log : List LogEvent) (r : Advance) : Prop where
  thread : ThreadOk rule (log ++ r.2) r.1
  log : LogOk rule (log ++ r.2)

section Threads

variable {control : Control} (hlog : LogOk rule log) (hstack : ∀ f ∈ stack, FrameOk rule log f)

include hlog in
theorem AdvanceOk.quiet (hcontrol : ControlOk rule log control)
    (hstack : ∀ f ∈ stack, FrameOk rule log f) : AdvanceOk rule log (goesOn control stack) := by
  refine ⟨?_, ?_⟩
  · rw [goesOn, append_nil]
    exact ⟨hcontrol, hstack⟩
  · rw [goesOn, append_nil]
    exact hlog

include hlog in
theorem AdvanceOk.single {e : LogEvent} (he : EventOk rule log e)
    (hcontrol : ControlOk rule (log ++ [e]) control)
    (hstack : ∀ f ∈ stack, FrameOk rule (log ++ [e]) f) :
    AdvanceOk rule log (⟨control, stack⟩, [e]) :=
  ⟨⟨hcontrol, hstack⟩, hlog.append_singleton he⟩

include hlog in
theorem AdvanceOk.evaluated (hs : Occurs rule o.within s) (hcontrol : ControlOk rule log control)
    (hstack : ∀ f ∈ stack, FrameOk rule log f) :
    AdvanceOk rule log (⟨control, stack⟩, Dispatch.evaluated o s) := by
  rw [Dispatch.evaluated]
  split
  · exact .single hlog hs (hcontrol.mono (subset_append_left _ _))
      fun x hx => (hstack x hx).mono (subset_append_left _ _)
  · exact .quiet hlog hcontrol hstack

include hlog hstack in
theorem dispatchFlowControl_ok (hs : Dispatched rule log o path s)
    (hflow : isFlowControl (fields s).action) :
    AdvanceOk rule log (dispatchFlowControl choice stack o path s) := by
  have hsteps : ∀ c n frameFor, (∀ c' l, (c', l) ∈ lists s → c' = c) → c.passesOptions = true →
      StepsOk rule (o.inside c path frameFor) (listAt s n) := by
    intro c n frameFor hc hpasses
    refine ⟨?_, fun s' hs' => ?_⟩
    · rw [OptionsOk, Options.inside, all_append, hs.options]
      simp [hpasses]
    · obtain ⟨c', l, hl, hmem, -⟩ := listAt_mem hs'
      obtain rfl := hc c' l hl
      exact .inner hs.occurs hl hmem
  have hcontainer : ∀ f ∈ Frame.container :: stack, FrameOk rule log f :=
    forall_mem_cons.mpr ⟨trivial, hstack⟩
  have hifFrame : ∀ f ∈ Frame.ifAction :: stack, FrameOk rule log f :=
    forall_mem_cons.mpr ⟨trivial, hstack⟩
  rw [dispatchFlowControl]
  split
  · rename_i hif
    have hbranch := fun n frameFor => hsteps .ifAction n frameFor (fun _ _ => lists_of_if hif) rfl
    rw [dispatchIf.eq_def]
    split
    · exact .evaluated hlog hs.occurs trivial hstack
    · exact .quiet hlog (hbranch _ _) hifFrame
    all_goals exact .evaluated hlog hs.occurs (hbranch _ _) hifFrame
  · rename_i hif
    split
    · rw [dispatchLoop.eq_def]
      split
      · exact .quiet hlog trivial hstack
      · exact .quiet hlog ⟨hs, hflow⟩ hstack
    · rename_i hloop
      split
      · rename_i hswitch
        have hcase := fun n frameFor => hsteps .switch n frameFor
          (fun _ _ => lists_of_switch hswitch) rfl
        rw [dispatchSwitch.eq_def]
        split
        · exact .quiet hlog trivial hstack
        · exact .quiet hlog (hcase _ _) hcontainer
        · exact .quiet hlog (hcase _ _) hcontainer
        · exact .quiet hlog trivial hstack
      · rename_i hswitch
        have hgroup : (fields s).action = "group" := by
          simpa [isFlowControl, hif, hloop, hswitch] using hflow
        exact .quiet hlog (hsteps .group 0 _ (fun _ _ => lists_of_group hgroup) rfl) hcontainer

include hlog hstack in
theorem dispatch_ok (hs : Dispatched rule log o path s) :
    AdvanceOk rule log (dispatch choice stack o path s) := by
  rw [dispatch.eq_def]
  split
  · rename_i hflow
    exact dispatchFlowControl_ok hlog hstack hs hflow
  · split
    · exact .evaluated hlog hs.occurs trivial hstack
    · exact .evaluated hlog hs.occurs trivial hstack
    · exact .evaluated hlog hs.occurs hs hstack

include hlog hstack in
theorem iterate_ok {iter : Nat} (hs : Dispatched rule log o path s)
    (hflow : isFlowControl (fields s).action) :
    AdvanceOk rule log (iterate choice stack o path s iter) := by
  rw [iterate.eq_def]
  split
  · exact .quiet hlog trivial hstack
  · rename_i c l hhead
    have hl := lists_head hhead
    have hbody : ∀ frameFor, StepsOk rule (o.inside c path frameFor) l := fun frameFor =>
      .inside hs.options hs.occurs hl ((lists_passes hl).trans hflow) frameFor
    have hpush : ∀ f ∈ Frame.loop o path s iter :: stack, FrameOk rule log f :=
      forall_mem_cons.mpr ⟨⟨hs, hflow⟩, hstack⟩
    dsimp only
    by_cases hwhile : c = .loop "whileCondition"
    · rw [if_pos hwhile]
      split
      · exact .evaluated hlog hs.occurs trivial hstack
      · exact .evaluated hlog hs.occurs trivial hstack
      · exact .quiet hlog trivial hstack
      · exact .evaluated hlog hs.occurs ⟨hs, hflow⟩ hstack
      · exact .evaluated hlog hs.occurs (hbody _) hpush
    · rw [if_neg hwhile]
      split
      · exact .quiet hlog trivial hstack
      · exact .quiet hlog trivial hstack
      · exact .quiet hlog trivial hstack
      · exact .quiet hlog ⟨hs, hflow⟩ hstack
      · exact .quiet hlog (hbody _) hpush

include hlog hstack in
theorem bodyStep_ok (hs : Occurs rule w s) : AdvanceOk rule log (bodyStep choice stack w s) := by
  have hpush : ∀ f ∈ Frame.nested :: stack, FrameOk rule log f :=
    forall_mem_cons.mpr ⟨trivial, hstack⟩
  rw [bodyStep.eq_def]
  split
  · split
    · rename_i c l hhead
      have hl := lists_head hhead
      split
      · exact .quiet hlog trivial hstack
      · rename_i hflow
        have hpasses : (w ++ [c]).all Container.passesOptions = false := by
          rw [all_append, all_cons, lists_passes hl]
          simp [hflow]
        split
        · exact .quiet hlog ⟨hpasses, fun _ hs' => .inner hs hl hs'⟩ hpush
        · exact .quiet hlog ⟨hpasses.symm, fun _ hs' => .inner hs hl hs'⟩ hpush
    · exact .quiet hlog trivial hstack
  all_goals exact .quiet hlog trivial hstack

include hlog hstack in
theorem returnTo_ok (r : StepResult) : AdvanceOk rule log (returnTo fatal choice r stack) := by
  cases stack with
  | nil => exact .quiet hlog trivial (fun _ hf => absurd hf not_mem_nil)
  | cons f stack =>
    obtain ⟨hf, hrest⟩ := forall_mem_cons.mp hstack
    cases f with
    | steps o i rest =>
      rw [returnTo.eq_def]
      dsimp only
      split
      · exact .quiet hlog hf hrest
      · exact .quiet hlog trivial hrest
    | attempt o path s n =>
      rw [returnTo.eq_def]
      dsimp only
      split
      · exact .quiet hlog trivial hrest
      · split
        · exact .quiet hlog hf hrest
        all_goals exact .quiet hlog trivial hrest
      · split
        · exact .quiet hlog hf hrest
        all_goals exact .quiet hlog trivial hrest
      · split
        · exact .quiet hlog hf hrest
        all_goals exact .quiet hlog trivial hrest
      · exact .quiet hlog trivial hrest
    | direct w s rest =>
      rw [returnTo.eq_def]
      dsimp only
      split
      · exact .quiet hlog ⟨hf.within, fun s' hs' => hf.occurs s' (mem_cons_of_mem _ hs')⟩ hrest
      · exact .quiet hlog trivial hrest
    | late w s => exact .quiet hlog trivial (fun _ hf => absurd hf not_mem_nil)
    | nested => exact .quiet hlog trivial hrest
    | ifAction | container =>
      rw [returnTo.eq_def]
      dsimp only
      split <;> exact .quiet hlog trivial hrest
    | loop o path s iter =>
      rw [returnTo.eq_def]
      dsimp only
      split
      · exact .quiet hlog hf hrest
      · exact .quiet hlog hf hrest
      all_goals exact .quiet hlog trivial hrest
    | rule phase =>
      rw [returnTo.eq_def]
      dsimp only
      split
      · exact .quiet hlog trivial hrest
      · exact .single hlog trivial trivial (fun _ hf => absurd hf not_mem_nil)

end Threads

theorem advance_ok {thread : Thread} (hlog : LogOk rule log) (h : ThreadOk rule log thread)
    (fatal : Bool) (choice : Choice) :
    AdvanceOk rule log (advance rule fatal choice thread.stack thread.control) := by
  obtain ⟨control, stack⟩ := thread
  obtain ⟨hcontrol, hstack⟩ := h
  dsimp only at hcontrol hstack ⊢
  cases control with
  | returns r => exact returnTo_ok hlog hstack r
  | steps o i l =>
    cases l with
    | nil => exact .quiet hlog trivial hstack
    | cons s rest =>
      have hrest : StepsOk rule o rest :=
        ⟨hcontrol.options, fun s' hs' => hcontrol.occurs s' (mem_cons_of_mem _ hs')⟩
      have hs := hcontrol.occurs s mem_cons_self
      rw [advance.eq_def]
      dsimp only
      split
      · exact .quiet hlog trivial hstack
      · exact .quiet hlog hrest hstack
      · split
        · exact .single hlog trivial
            ⟨hcontrol.options, hs, fun _ _ => mem_append_right _ mem_cons_self⟩
            (forall_mem_cons.mpr ⟨hrest, fun f hf => (hstack f hf).mono
              (subset_append_left _ _)⟩)
        · rename_i hannounced
          refine .quiet hlog ⟨hcontrol.options, hs, fun hreports hmay => ?_⟩
            (forall_mem_cons.mpr ⟨hrest, hstack⟩)
          exact absurd (by rw [hreports, hmay]; rfl) hannounced
  | dispatch o path s => exact dispatch_ok hlog hstack hcontrol
  | attempt o path s n =>
    refine .single hlog ⟨hcontrol.occurs, fun hmay hpasses => ?_⟩ trivial
      (forall_mem_cons.mpr ⟨hcontrol.mono (subset_append_left _ _), fun f hf =>
        (hstack f hf).mono (subset_append_left _ _)⟩)
    have hreports : o.reports := hcontrol.options.trans hpasses
    exact ⟨path, by rw [pathOf, if_pos hreports], hcontrol.announced hreports hmay⟩
  | body =>
    cases stack with
    | nil => exact .quiet hlog trivial hstack
    | cons f stack =>
      have hf := hstack f mem_cons_self
      cases f with
      | attempt o path s n => exact bodyStep_ok hlog hstack hf.occurs
      | direct w s rest => exact bodyStep_ok hlog hstack (hf.occurs s mem_cons_self)
      | late w s => exact bodyStep_ok hlog hstack hf
      | steps _ _ _ | nested | ifAction | loop _ _ _ _ | container | rule _ =>
        exact .quiet hlog trivial hstack
  | recover w l =>
    cases l with
    | nil => exact .quiet hlog trivial hstack
    | cons s rest =>
      refine .single hlog ⟨hcontrol.occurs s mem_cons_self, fun _ hpasses => ?_⟩ trivial
        (forall_mem_cons.mpr ⟨hcontrol, fun f hf =>
          (hstack f hf).mono (subset_append_left _ _)⟩)
      rw [hcontrol.within] at hpasses
      cases hpasses
  | iterate o path s iter => exact iterate_ok hlog hstack hcontrol.1 hcontrol.2
  | enter phase =>
    have hsteps : StepsOk rule (phaseOptions phase) (hookSteps rule phase) :=
      ⟨by cases phase <;> rfl, fun s hs => .phase hs⟩
    have hpush : ∀ f ∈ Frame.rule phase :: stack, FrameOk rule log f :=
      forall_mem_cons.mpr ⟨trivial, hstack⟩
    rw [advance.eq_def]
    dsimp only
    split
    · exact .quiet hlog trivial hpush
    · exact .quiet hlog trivial hpush
    · exact .quiet hlog trivial hpush
    · exact .quiet hlog trivial hpush
    · exact .single hlog trivial hsteps fun f hf => (hpush f hf).mono (subset_append_left _ _)
  | ended => exact .quiet hlog trivial hstack

theorem step_inv (h : Inv rule m) (e : Event) : Inv rule (step rule m e) := by
  cases e with
  | act j choice =>
    rw [step]
    split
    · rename_i thread hj
      have hadvance := advance_ok h.log (h.threads thread (mem_of_getElem? hj))
        (fatalAfter m.fatal thread) choice
      refine ⟨fun t ht => ?_, hadvance.log⟩
      rcases mem_or_eq_of_mem_set ht with ht | rfl
      · exact (h.threads t ht).mono (subset_append_left _ _)
      · exact hadvance.thread
    · exact h
  | timeout j depth =>
    rw [step]
    split
    · rename_i thread hj
      have hthread := h.threads thread (mem_of_getElem? hj)
      split
      · rename_i o path s n hdepth
        have hframe : Dispatched rule m.log o path s :=
          hthread.stack _ (mem_of_getElem? hdepth)
        split
        · exact h
        · refine ⟨fun t ht => ?_, h.log⟩
          rcases mem_append.mp ht with ht | ht
          · rcases mem_or_eq_of_mem_set ht with ht | rfl
            · exact h.threads t ht
            · exact ⟨trivial, fun f hf => hthread.stack f (mem_of_mem_drop hf)⟩
          · rw [mem_singleton.mp ht]
            refine ⟨hthread.control, fun f hf => ?_⟩
            rcases mem_append.mp hf with hf | hf
            · exact hthread.stack f (mem_of_mem_take hf)
            · rw [mem_singleton.mp hf]
              exact hframe.occurs
      · exact h
    · exact h

theorem init_inv : Inv rule init where
  threads thread h := by
    rw [mem_singleton.mp h]
    exact ⟨trivial, fun f hf => absurd hf not_mem_nil⟩
  log before e after h := by
    have hlength := congrArg List.length h
    simp [init] at hlength

theorem log_ok (rule : Rule) (es : List Event) : LogOk rule (run (step rule) init es).log :=
  (run_invariant (fun _ e h => step_inv h e) init_inv : Inv rule (run (step rule) init es)).log

end Dispatch

end Aegis
