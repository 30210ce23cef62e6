import Aegis.Engine.Executor
import Aegis.Lib.Run

/-!
# Engine.Overlap

`runRule` as a machine whose bodies of leaf actions go on step by step.

A thread is what is being done and the calls that wait for it. The body of a leaf action performs
environment operations, runs the lists of steps nested in the action (`retry`, `requestHuman`,
`circuitBreaker`) and ends, all as it chooses. The hard timeout of `executeWithTimeout` may fire at
any point before the body ends: the call goes on without it, and the body becomes a thread of its
own. What else a run depends on is chosen by the events.
-/

namespace Aegis

open List Option

namespace Overlap

open Engine (StepResult Thrown)

/-- The strategies of `onError`. -/
inductive OnError where
  | stop | goOn | requestHuman | unsupported

/-- What `runStep` reads of a leaf action. -/
structure Leaf where
  maxAttempts : Int
  onError : OnError

inductive Step where
  | leaf (spec : Leaf) (inner : List (List Step))
  | ifAction (thenSteps elseSteps : List Step)
  | loop (maxIterations : Nat) (steps : List Step)
  | switch (cases : List (List Step)) (default : List Step)
  | group (steps : List Step)

structure Rule where
  beforeAll : List Step
  steps : List Step
  afterAll : List Step
  onError : List Step
  cleanup : List Step

inductive Phase where
  | beforeAll | main | afterAll | onError | cleanup

inductive Frame where
  | steps (rest : List Step)
  | attempt (id : Nat) (spec : Leaf) (inner : List (List Step)) (n : Nat)
  | late (id : Nat) (inner : List (List Step))
  | nested
  | ifAction
  | loop (left : Nat) (steps : List Step)
  | container
  | rule (phase : Phase) (fatal : Bool)

inductive Control where
  | returns (r : StepResult)
  | steps (steps : List Step)
  | dispatch (step : Step)
  | attempt (spec : Leaf) (inner : List (List Step)) (n : Nat)
  | body
  | requestHuman
  | iterate (left : Nat) (steps : List Step)
  | enter (phase : Phase) (fatal : Bool)
  | ended

inductive Choice where
  | go
  | skip
  | throws
  | abort
  | pick (n : Nat)
  | operation
  | finish (r : StepResult)

inductive LogEvent where
  | start (id : Nat) (within : List Nat)
  | operation (id : Nat)
  /-- `runRule` has returned. -/
  | returned
deriving DecidableEq

structure Thread where
  control : Control
  stack : List Frame

structure Machine where
  threads : List Thread
  next : Nat
  log : List LogEvent

inductive Event where
  | act (thread : Nat) (choice : Choice)
  | timeout (thread depth : Nat)

def ids (stack : List Frame) : List Nat :=
  stack.filterMap fun f => match f with
    | .attempt id _ _ _ | .late id _ => some id
    | _ => none

abbrev Advance := Thread × List LogEvent

def goesOn (control : Control) (stack : List Frame) : Advance := (⟨control, stack⟩, [])

/-- The end of `runStep`, after its last attempt. -/
def giveUp (spec : Leaf) : Control :=
  match spec.onError with
  | .stop => .returns .failed
  | .goOn => .returns .done
  | .requestHuman => .requestHuman
  | .unsupported => .returns (.threw .error)

def hookSteps (rule : Rule) : Phase → List Step
  | .beforeAll => rule.beforeAll
  | .main => rule.steps
  | .afterAll => rule.afterAll
  | .onError => rule.onError
  | .cleanup => rule.cleanup

/-- What `runRule` does after a phase, and whether there is a fatal error. -/
def afterPhase (fatal : Bool) (r : StepResult) : Phase → Option (Phase × Bool)
  | .beforeAll => match r with
    | .done => some (.main, fatal)
    | .threw (.exitSignal failure) => some (.afterAll, failure)
    | .threw .aborted => some (.afterAll, fatal)
    | _ => none
  | .main => match r with
    | .done | .threw .aborted | .threw (.exitSignal false) => some (.afterAll, false)
    | _ => some (.afterAll, true)
  | .afterAll =>
    if fatal || r == .threw (.exitSignal true) then some (.onError, true) else some (.cleanup, false)
  | .onError => some (.cleanup, true)
  | .cleanup => none

/-- A step is dispatched: `runStep` and `dispatchFlowControl`. -/
def dispatch (choice : Choice) (stack : List Frame) : Step → Advance
  | .leaf spec inner => match choice with
    | .skip => goesOn (.returns .done) stack
    -- the condition throws
    | .throws => goesOn (.returns (.threw .error)) stack
    | _ => goesOn (.attempt spec inner 0) stack
  | .ifAction thenSteps elseSteps => match choice with
    | .skip => goesOn (.returns .done) stack
    | .throws => goesOn (.returns (.threw .error)) stack
    | .pick 0 => goesOn (.steps thenSteps) (.ifAction :: stack)
    | _ => goesOn (.steps elseSteps) (.ifAction :: stack)
  | .loop maxIterations steps => match choice with
    | .skip => goesOn (.returns .done) stack
    | .throws => goesOn (.returns (.threw .error)) stack
    | _ => goesOn (.iterate maxIterations steps) stack
  | .switch cases default => match choice with
    | .skip => goesOn (.returns .done) stack
    | .throws => goesOn (.returns .failed) stack
    | .pick n => goesOn (.steps (cases.getD n default)) (.container :: stack)
    | _ => goesOn (.steps default) (.container :: stack)
  | .group steps => match choice with
    | .skip => goesOn (.returns .done) stack
    | _ => goesOn (.steps steps) (.container :: stack)

/-- The result `r` comes to the call that waits for it. -/
def returnTo (choice : Choice) (r : StepResult) : List Frame → Advance
  | [] => goesOn .ended []
  | .steps rest :: stack => match r with
    | .done => goesOn (.steps rest) stack
    | _ => goesOn (.returns r) stack
  | .attempt _ spec inner n :: stack => match r with
    | .done => goesOn (.returns .done) stack
    | .threw .aborted => goesOn (giveUp spec) stack
    | .threw .error | .failed => match choice with
      -- a recoverable error
      | .go => if (n : Int) = spec.maxAttempts then goesOn (giveUp spec) stack
        else goesOn (.attempt spec inner (n + 1)) stack
      | _ => goesOn (giveUp spec) stack
    | .threw _ => goesOn (.returns r) stack
  -- nobody waits for what has been cut off
  | .late _ _ :: _ => goesOn .ended []
  | .nested :: stack => goesOn .body stack
  | .ifAction :: stack => match r with
    | .failed => goesOn (.returns (.threw .error)) stack
    | _ => goesOn (.returns r) stack
  | .loop left steps :: stack => match r with
    | .done | .threw .continueSignal => goesOn (.iterate left steps) stack
    | .threw .breakSignal => goesOn (.returns .done) stack
    | .failed => goesOn (.returns (.threw .error)) stack
    | .threw _ => goesOn (.returns r) stack
  | .container :: stack => match r with
    | .threw .error | .threw .aborted => goesOn (.returns .failed) stack
    | _ => goesOn (.returns r) stack
  | .rule phase fatal :: stack => match afterPhase fatal r phase with
    | some (phase, fatal) => goesOn (.enter phase fatal) stack
    | none => (⟨.ended, []⟩, [.returned])

def bodyStep (choice : Choice) (stack : List Frame) (id : Nat) (inner : List (List Step)) : Advance :=
  match choice with
  | .operation => (⟨.body, stack⟩, [.operation id])
  | .pick k => match inner[k]? with
    | some steps => goesOn (.steps steps) (.nested :: stack)
    | none => goesOn .body stack
  | .finish .failed => goesOn (.returns (.threw .error)) stack
  | .finish r => goesOn (.returns r) stack
  | _ => goesOn .body stack

def advance (rule : Rule) (next : Nat) (choice : Choice) (stack : List Frame) : Control → Advance
  | .returns r => returnTo choice r stack
  | .steps [] => goesOn (.returns .done) stack
  | .steps (step :: rest) => match choice with
    | .abort => goesOn (.returns (.threw .aborted)) stack
    | _ => goesOn (.dispatch step) (.steps rest :: stack)
  | .dispatch step => dispatch choice stack step
  | .attempt spec inner n =>
    if (n : Int) ≤ spec.maxAttempts then
      (⟨.body, .attempt next spec inner n :: stack⟩, [.start next (ids stack)])
    else goesOn (giveUp spec) stack
  | .body => match stack with
    | .attempt id _ inner _ :: _ | .late id inner :: _ => bodyStep choice stack id inner
    | _ => goesOn .body stack
  | .requestHuman => match choice with
    | .throws => goesOn (.returns (.threw .error)) stack
    | _ => goesOn (.returns .done) stack
  | .iterate 0 _ => goesOn (.returns .done) stack
  | .iterate (left + 1) steps => match choice with
    | .skip => goesOn (.returns .done) stack
    | .throws => goesOn (.returns (.threw .error)) stack
    | .abort => goesOn (.returns (.threw .aborted)) stack
    | _ => goesOn (.steps steps) (.loop left steps :: stack)
  | .enter phase fatal => match phase, choice with
    | .main, _ => goesOn (.steps rule.steps) (.rule .main fatal :: stack)
    -- a hook that has completed before
    | _, .skip => goesOn (.returns .done) (.rule phase fatal :: stack)
    | _, _ => goesOn (.steps (hookSteps rule phase)) (.rule phase fatal :: stack)
  | .ended => goesOn .ended stack

def nextId (next : Nat) : List LogEvent → Nat
  | [.start id _] => id + 1
  | _ => next

def bodyEnded (control : Control) (depth : Nat) : Bool :=
  match control, depth with
  | .returns _, 0 => true
  | _, _ => false

def step (rule : Rule) (m : Machine) : Event → Machine
  | .act j choice => match m.threads[j]? with
    | some thread =>
      let r := advance rule m.next choice thread.stack thread.control
      ⟨m.threads.set j r.1, nextId m.next r.2, m.log ++ r.2⟩
    | none => m
  | .timeout j depth => match m.threads[j]? with
    | some thread => match thread.stack[depth]? with
      | some (.attempt id _ inner _) =>
        if bodyEnded thread.control depth then m
        else
          { m with
            threads := m.threads.set j ⟨.returns (.threw .error), thread.stack.drop depth⟩ ++
              [⟨thread.control, thread.stack.take depth ++ [.late id inner]⟩] }
      | _ => m
    | none => m

def init : Machine := ⟨[⟨.enter .beforeAll false, []⟩], 0, []⟩

/-- Of what is logged `y` may come after `x`. -/
def Allowed : LogEvent → LogEvent → Prop
  | .start b within, .operation a => b ≤ a ∨ a ∈ within
  | .returned, .operation _ => False
  | _, _ => True

/-- No operation of an attempt comes after another attempt has started, unless within it, or after
the rule has returned. -/
def NoOverlap (m : Machine) : Prop := m.log.Pairwise Allowed

/-- The event is of the thread of the rule, which nothing has cut off. -/
def OnRule : Event → Prop
  | .act j _ | .timeout j _ => j = 0

variable {rule : Rule} {next : Nat} {choice : Choice} {stack stack' : List Frame} {m : Machine}
  {e : Event}

instance : DecidablePred OnRule
  | .act j _ | .timeout j _ => inferInstanceAs (Decidable (j = 0))

/-- What a thread with `stack` may do. -/
inductive Advanced (next : Nat) (stack : List Frame) : Advance → Prop where
  | quiet {control stack'} (h : ids stack' ⊆ ids stack) : Advanced next stack (⟨control, stack'⟩, [])
  | start {control stack'} (h : ids stack' = next :: ids stack) :
      Advanced next stack (⟨control, stack'⟩, [.start next (ids stack)])
  | operation {control a} (h : a ∈ ids stack) :
      Advanced next stack (⟨control, stack⟩, [.operation a])
  | returned : Advanced next stack (⟨.ended, []⟩, [.returned])

theorem ids_cons_subset (f : Frame) : ids stack ⊆ ids (f :: stack) := by
  intro a ha
  obtain ⟨g, hg, hga⟩ := mem_filterMap.mp ha
  exact mem_filterMap.mpr ⟨g, mem_cons_of_mem _ hg, hga⟩

theorem ids_sublist (h : stack'.Sublist stack) : ids stack' ⊆ ids stack :=
  (h.filterMap _).subset

variable {control : Control}

theorem goesOn_advanced (h : ids stack' ⊆ ids stack) :
    Advanced next stack (goesOn control stack') := .quiet h

theorem goesOn_same : Advanced next stack (goesOn control stack) :=
  .quiet fun _ ha => ha

theorem dispatch_advanced (s : Step) : Advanced next stack (dispatch choice stack s) := by
  cases s with
  | leaf spec inner | loop maxIterations steps =>
    rw [dispatch.eq_def]
    dsimp only
    split <;> exact goesOn_same
  | ifAction thenSteps elseSteps | switch cases default =>
    rw [dispatch.eq_def]
    dsimp only
    split
    · exact goesOn_same
    · exact goesOn_same
    all_goals exact goesOn_advanced fun a ha => ha
  | group steps =>
    rw [dispatch.eq_def]
    dsimp only
    split
    · exact goesOn_same
    · exact goesOn_advanced fun a ha => ha

theorem returnTo_advanced (r : StepResult) : Advanced next stack (returnTo choice r stack) := by
  cases stack with
  | nil => exact goesOn_same
  | cons f stack =>
    have hpop : ∀ control, Advanced next (f :: stack) (goesOn control stack) := fun _ =>
      goesOn_advanced (ids_cons_subset f)
    cases f with
    | steps rest | ifAction | loop left steps | container =>
      rw [returnTo.eq_def]
      dsimp only
      split <;> exact hpop _
    | attempt id spec inner n =>
      rw [returnTo.eq_def]
      dsimp only
      split
      · exact hpop _
      · exact hpop _
      · split
        · split <;> exact hpop _
        · exact hpop _
      · split
        · split <;> exact hpop _
        · exact hpop _
      · exact hpop _
    | late id inner => exact goesOn_advanced (nil_subset _)
    | nested => exact hpop _
    | rule phase fatal =>
      rw [returnTo.eq_def]
      dsimp only
      split
      · exact hpop _
      · exact .returned

theorem bodyStep_advanced {id : Nat} (inner : List (List Step)) (h : id ∈ ids stack) :
    Advanced next stack (bodyStep choice stack id inner) := by
  rw [bodyStep.eq_def]
  split
  · exact .operation h
  · split
    · exact goesOn_advanced fun a ha => ha
    · exact goesOn_same
  all_goals exact goesOn_same

theorem advance_advanced (rule : Rule) (control : Control) :
    Advanced next stack (advance rule next choice stack control) := by
  cases control with
  | returns r => exact returnTo_advanced r
  | steps l =>
    cases l with
    | nil => exact goesOn_same
    | cons s rest =>
      rw [advance.eq_def]
      dsimp only
      split
      · exact goesOn_same
      · exact goesOn_advanced fun a ha => ha
  | dispatch s => exact dispatch_advanced s
  | attempt spec inner n =>
    rw [advance.eq_def]
    dsimp only
    split
    · exact .start rfl
    · exact goesOn_same
  | body =>
    rw [advance.eq_def]
    dsimp only
    split
    · exact bodyStep_advanced _ mem_cons_self
    · exact bodyStep_advanced _ mem_cons_self
    · exact goesOn_same
  | requestHuman =>
    rw [advance.eq_def]
    dsimp only
    split <;> exact goesOn_same
  | iterate left steps =>
    cases left with
    | zero => exact goesOn_same
    | succ left =>
      rw [advance.eq_def]
      dsimp only
      split
      · exact goesOn_same
      · exact goesOn_same
      · exact goesOn_same
      · exact goesOn_advanced fun a ha => ha
  | enter phase fatal =>
    rw [advance.eq_def]
    dsimp only
    split <;> exact goesOn_advanced fun a ha => ha
  | ended => exact goesOn_same

/-- The attempts that wait for `runRule` are around all that has started after them. -/
structure Around (m : Machine) (thread : Thread) : Prop where
  bound : ∀ a ∈ ids thread.stack, a < m.next
  within : ∀ a ∈ ids thread.stack, ∀ b within, .start b within ∈ m.log → b ≤ a ∨ a ∈ within
  returned : .returned ∈ m.log → thread = ⟨.ended, []⟩

theorem Around.empty (h : .returned ∈ m.log → (⟨control, []⟩ : Thread) = ⟨.ended, []⟩) :
    Around m ⟨control, []⟩ where
  bound _ ha := absurd ha not_mem_nil
  within _ ha := absurd ha not_mem_nil
  returned := h

/-- The invariant: one thread runs, around what it has started, and nothing overlaps. -/
structure Inv (m : Machine) : Prop where
  around : ∀ thread, m.threads[0]? = some thread → Around m thread
  started : ∀ b within, .start b within ∈ m.log → b < m.next
  ordered : NoOverlap m

variable {thread : Thread}

theorem Around.advance (h : Around m thread) (hinv : Inv m) (choice : Choice) {rest : List Thread} :
    Inv ⟨(advance rule m.next choice thread.stack thread.control).1 :: rest,
      nextId m.next (advance rule m.next choice thread.stack thread.control).2,
      m.log ++ (advance rule m.next choice thread.stack thread.control).2⟩ := by
  by_cases hreturned : .returned ∈ m.log
  · rw [h.returned hreturned]
    refine ⟨fun t ht => ?_, fun b within hb => ?_, ?_⟩
    · cases ht
      exact .empty fun _ => rfl
    · simp only [Overlap.advance, goesOn, append_nil] at hb
      exact hinv.started b within hb
    · simpa [NoOverlap, Overlap.advance, goesOn] using hinv.ordered
  · generalize hr : Overlap.advance rule m.next choice thread.stack thread.control = r
    have hadvanced : Advanced m.next thread.stack r := hr ▸ advance_advanced rule thread.control
    cases hadvanced with
    | quiet hsub =>
      refine ⟨fun t ht => ?_, ?_, ?_⟩
      · cases ht
        exact ⟨fun a ha => h.bound a (hsub ha), by simpa using fun a ha => h.within a (hsub ha),
          fun hlog => absurd (by simpa using hlog) hreturned⟩
      · simpa [nextId] using hinv.started
      · simpa [NoOverlap] using hinv.ordered
    | start hids =>
      refine ⟨fun t ht => ?_, fun b within hb => ?_, ?_⟩
      · cases ht
        refine ⟨fun a ha => ?_, fun a ha b within hb => ?_, fun hlog => ?_⟩
        · rw [hids] at ha
          rcases mem_cons.mp ha with rfl | ha
          · exact Nat.lt_succ_self _
          · exact Nat.lt_succ_of_lt (h.bound a ha)
        · rw [hids] at ha
          rcases mem_append.mp hb with hb | hb
          · rcases mem_cons.mp ha with rfl | ha
            · exact .inl (Nat.le_of_lt (hinv.started b within hb))
            · exact h.within a ha b within hb
          · obtain ⟨rfl, rfl⟩ := LogEvent.start.inj (mem_singleton.mp hb)
            rcases mem_cons.mp ha with rfl | ha
            · exact .inl (Nat.le_refl _)
            · exact .inr ha
        · exact absurd (by simpa using hlog) hreturned
      · rcases mem_append.mp hb with hb | hb
        · exact Nat.lt_succ_of_lt (hinv.started b within hb)
        · obtain ⟨rfl, -⟩ := LogEvent.start.inj (mem_singleton.mp hb)
          exact Nat.lt_succ_self _
      · refine pairwise_append.mpr ⟨hinv.ordered, pairwise_singleton _ _, ?_⟩
        intro x _ y hy
        rw [mem_singleton.mp hy]
        cases x <;> trivial
    | operation hmem =>
      refine ⟨fun t ht => ?_, fun b within hb => ?_, ?_⟩
      · cases ht
        exact ⟨h.bound, by simpa using h.within, fun hlog => absurd (by simpa using hlog) hreturned⟩
      · exact hinv.started b within (by simpa using hb)
      · refine pairwise_append.mpr ⟨hinv.ordered, pairwise_singleton _ _, ?_⟩
        intro x hx y hy
        rw [mem_singleton.mp hy]
        cases x with
        | start b within => exact h.within _ hmem b within hx
        | operation b => trivial
        | returned => exact absurd hx hreturned
    | returned =>
      refine ⟨fun t ht => ?_, fun b within hb => ?_, ?_⟩
      · cases ht
        exact .empty fun _ => rfl
      · exact hinv.started b within (by simpa using hb)
      · refine pairwise_append.mpr ⟨hinv.ordered, pairwise_singleton _ _, ?_⟩
        intro x _ y hy
        rw [mem_singleton.mp hy]
        cases x <;> trivial

theorem Around.drop (h : Around m thread) {depth : Nat} {f : Frame} (hf : thread.stack[depth]? = some f) :
    Around m ⟨control, thread.stack.drop depth⟩ := by
  have hsub : ids (thread.stack.drop depth) ⊆ ids thread.stack :=
    ids_sublist (drop_sublist _ _)
  refine ⟨fun a ha => h.bound a (hsub ha), fun a ha => h.within a (hsub ha), fun hlog => ?_⟩
  rw [h.returned hlog] at hf
  cases hf

/-- An event of the thread of the rule keeps the invariant. -/
theorem step_inv (h : Inv m) (e : Event) (hon : OnRule e) : Inv (step rule m e) := by
  cases e with
  | act j choice =>
    obtain rfl : j = 0 := hon
    rw [step]
    cases hthreads : m.threads with
    | nil => exact h
    | cons thread rest =>
      have haround := h.around thread (by rw [hthreads]; rfl)
      exact haround.advance h choice
  | timeout j depth =>
    obtain rfl : j = 0 := hon
    rw [step]
    cases hthreads : m.threads with
    | nil => exact h
    | cons thread rest =>
      have haround := h.around thread (by rw [hthreads]; rfl)
      dsimp only [getElem?_cons_zero]
      split
      · rename_i hf
        split
        · exact h
        · refine ⟨fun t ht => ?_, h.started, h.ordered⟩
          cases ht
          have hdrop : Around m ⟨.returns (.threw .error), thread.stack.drop depth⟩ :=
            haround.drop hf
          obtain ⟨hbound, hwithin, hreturned⟩ := hdrop
          exact ⟨hbound, hwithin, hreturned⟩
      · exact h

theorem init_inv : Inv init where
  around thread h := by
    cases h
    exact .empty fun hlog => absurd hlog not_mem_nil
  started b within hb := by cases hb
  ordered := List.Pairwise.nil

/-- As long as nothing goes on that a hard timeout has cut off, steps never overlap. -/
theorem steps_never_overlap (rule : Rule) (es : List Event)
    (h : Meets (step rule) (fun _ e => OnRule e) init es) :
    Always (step rule) NoOverlap init es := by
  have hinv : Always (step rule) Inv init es :=
    h.always init_inv fun m e hm hon => step_inv hm e hon
  exact hinv.mono fun m hm => hm.ordered

def twoSteps : Rule := ⟨[], [.leaf ⟨0, .goOn⟩ [], .leaf ⟨0, .stop⟩ []], [], [], []⟩

def secondStarts : List Event :=
  List.replicate 7 (.act 0 .go) ++ [.act 0 .operation, .timeout 0 0] ++ List.replicate 5 (.act 0 .go)

theorem steps_never_overlap_quiet : Meets (step twoSteps) (fun _ e => OnRule e) init
      (secondStarts ++ [.act 0 .operation]) ∧
    Always (step twoSteps) NoOverlap init (secondStarts ++ [.act 0 .operation]) :=
  have h : Meets (step twoSteps) (fun _ e => OnRule e) init
      (secondStarts ++ [.act 0 .operation]) := by decide
  ⟨h, steps_never_overlap twoSteps _ h⟩

/-- The body that timed out goes on under the second step. -/
theorem late_body_overlaps : (run (step twoSteps) init (secondStarts ++ [.act 1 .operation])).log =
        [.start 0 [], .operation 0, .start 1 [], .operation 0] ∧
      ¬ NoOverlap (run (step twoSteps) init (secondStarts ++ [.act 1 .operation])) := by
  have hlog : (run (step twoSteps) init (secondStarts ++ [.act 1 .operation])).log =
      [.start 0 [], .operation 0, .start 1 [], .operation 0] := by decide
  refine ⟨hlog, fun h => ?_⟩
  rw [NoOverlap, hlog] at h
  have hallowed := rel_of_pairwise_cons (pairwise_cons.mp (pairwise_cons.mp h).2).2
    mem_cons_self
  rcases hallowed with hle | hmem
  · exact absurd hle (by decide)
  · cases hmem

end Overlap

end Aegis
