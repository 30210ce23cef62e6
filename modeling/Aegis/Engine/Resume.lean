import Aegis.Engine.Checkpoints

/-!
# Engine.Resume

When a resumed run does what the uninterrupted run had left to do.

A run is resumed at the position after a checkpoint, in the world of the checkpoint. The handlers
find their way back to the position: an `if` and a `switch` take the recorded branch, a loop counts
again up to the recorded iteration, testing its condition each time. `ListResumes` follows the
uninterrupted run and this way back together, and says where both come to the same point.
-/

namespace Aegis

open List

namespace Engine

variable {α ι δ σ : Type}

namespace Event

def leafAction : Event α ι δ → Option (α × RuntimeContext ι δ)
  | leaf action ctx => some (action, ctx)
  | _ => none

def world (env : Env α ι δ σ) (w : σ) : Event α ι δ → σ
  | leaf action ctx => (env.runStep action ctx w).2.2
  | _ => w

end Event

/-- The leaf actions of a run, in order. -/
def leaves (events : List (Event α ι δ)) : List (α × RuntimeContext ι δ) :=
  events.filterMap Event.leafAction

def worldAfter (env : Env α ι δ σ) (w : σ) (events : List (Event α ι δ)) : σ :=
  events.foldl (Event.world env) w

/-- Finding elements and testing conditions leave the world as it is. -/
def Observes (env : Env α ι δ σ) : Prop := ∀ spec ctx w, (env.evaluate spec ctx w).2 = w

section Definitions

variable (env : Env α ι δ σ)

def IgnoresStale (frame : StepPathFrame) : Action α → Prop
  | .leaf _ => True
  | .loop .. => ∀ iter i, frame ≠ .inLoop iter i
  | _ => False

/-- The way back through a loop: the condition holds up to the iteration to resume, in which the
steps resume. `ctx` and `world` are those of the uninterrupted run. -/
def IterationsResume (type : LoopType) (spec : α) (items : List ι) (iter : Nat)
    (body : Nat → RuntimeContext ι δ → σ → Outcome α ι δ σ)
    (resumes : RuntimeContext ι δ → σ → RuntimeContext ι δ → Prop) (w : σ) :
    Nat → Nat → RuntimeContext ι δ → σ → RuntimeContext ι δ → Prop
  | 0, _, _, _, _ => True
  | fuel + 1, i, ctx, world, ctx' =>
    (loopHolds env type spec ctx' w).1 = some true ∧ if i = iter then
        resumes (enterIteration type items i ctx) world (enterIteration type items i ctx')
      else
        let r := body i (enterIteration type items i ctx) world
        IterationsResume type spec items iter body resumes w fuel (i + 1) r.ctx r.world
          (enterIteration type items i ctx')

mutual

/-- A list of steps resumed with `ctx'` in the world `w` after the step at `rel`: `ctx` and `world`
are those of the uninterrupted run at step `i`. -/
def ListResumes (o : RunStepsOptions) (i : Nat) (ctx : RuntimeContext ι δ) (world : σ)
    (rel : StepPath) (ctx' : RuntimeContext ι δ) (w : σ) : List (Action α) → Prop
  | [] => True
  | step :: rest =>
    let path := o.pathPrefix ++ [o.frameFor i]
    let r := dispatch env { o with resumePath := none } path ctx world step
    if rel.head?.map StepPathFrame.childIdx = some (i : Int) then
      if rel.tail = [] then
        ctx' = r.ctx ∧ ∀ next, rest.head? = some next → IgnoresStale (o.frameFor i) next
      else StepResumes { o with resumePath := none } path ctx world rel.tail ctx' w step
    else ListResumes o (i + 1) r.ctx r.world rel ctx' w rest

def StepResumes (o : RunStepsOptions) (path : StepPath) (ctx : RuntimeContext ι δ) (world : σ)
    (rel : StepPath) (ctx' : RuntimeContext ι δ) (w : σ) : Action α → Prop
  | .leaf _ => True
  | .ifAction _ thenSteps elseSteps =>
    match resumeBranch (some rel) with
    | some .thenSteps =>
      ListResumes (o.within path fun i => .inIf .thenSteps i) 0 ctx world rel ctx' w thenSteps
    | some .elseSteps =>
      ListResumes (o.within path fun i => .inIf .elseSteps i) 0 ctx world rel ctx' w elseSteps
    | none => True
  | .loop type spec maxIterations steps =>
    match loopBounds env type spec maxIterations ctx, resumeIter (some rel) with
    | some (items, bound), some iter =>
      loopBounds env type spec maxIterations ctx' = some (items, bound) ∧
        IterationsResume env type spec items iter
          (fun i ctx world => runSteps env (buildChildOptions o path i) none 0 ctx world steps)
          (fun ctx world ctx' =>
            ListResumes (buildChildOptions o path iter) 0 ctx world rel ctx' w steps)
          w bound 0 ctx world ctx'
    | _, _ => True
  | .switch _ cases default =>
    match resumeCase (some rel) with
    | some caseIdx =>
      let defaultResumes :=
        ListResumes (o.within path fun i => .inSwitch caseIdx i) 0 ctx world rel ctx' w default
      if 0 ≤ caseIdx then
        CaseResumes o path caseIdx defaultResumes ctx world rel ctx' w caseIdx.toNat cases
      else defaultResumes
    | none => True
  | .group steps =>
    ListResumes (o.within path fun i => .inGroup i) 0 ctx world rel ctx' w steps

def CaseResumes (o : RunStepsOptions) (path : StepPath) (caseIdx : Int) (otherwise : Prop)
    (ctx : RuntimeContext ι δ) (world : σ) (rel : StepPath) (ctx' : RuntimeContext ι δ) (w : σ) :
    Nat → List (List (Action α)) → Prop
  | _, [] => otherwise
  | 0, steps :: _ =>
    ListResumes (o.within path fun i => .inSwitch caseIdx i) 0 ctx world rel ctx' w steps
  | n + 1, _ :: cases => CaseResumes o path caseIdx otherwise ctx world rel ctx' w n cases

end

end Definitions

section World

variable {env : Env α ι δ σ}

theorem worldAfter_append (w : σ) (events events' : List (Event α ι δ)) :
    worldAfter env w (events ++ events') = worldAfter env (worldAfter env w events) events' :=
  foldl_append

theorem worldAfter_of_leaves {events : List (Event α ι δ)} (h : leaves events = []) (w : σ) :
    worldAfter env w events = w := by
  induction events with
  | nil => rfl
  | cons e events ih =>
    cases e with
    | leaf action ctx => cases h
    | _ => exact ih h

theorem leaves_append (events events' : List (Event α ι δ)) :
    leaves (events ++ events') = leaves events ++ leaves events' := filterMap_append

theorem loopHolds_world (hobserves : Observes env) (type : LoopType) (spec : α)
    (ctx : RuntimeContext ι δ) (w : σ) : (loopHolds env type spec ctx w).2 = w := by
  cases type with
  | fixedCount | forEach => rfl
  | _ => exact hobserves spec ctx w

/-- The world of the outcome is the one that its events have led to. -/
def Tracks (env : Env α ι δ σ) (w : σ) (r : Outcome α ι δ σ) : Prop :=
  r.world = worldAfter env w r.events

theorem Tracks.rethrow {w : σ} {r : Outcome α ι δ σ} (h : Tracks env w r) : Tracks env w (rethrow r) := by
  unfold Engine.rethrow
  split <;> exact h

theorem Tracks.catchError {w : σ} {r : Outcome α ι δ σ} (h : Tracks env w r) :
    Tracks env w (catchError r) := by
  unfold Engine.catchError
  split <;> exact h

def TracksStep (env : Env α ι δ σ) (step : Action α) : Prop :=
  ∀ o path ctx w, Tracks env w (dispatch env o path ctx w step)

theorem runSteps_tracks {steps : List (Action α)} (hsteps : ∀ s ∈ steps, TracksStep env s)
    (o : RunStepsOptions) (pending : Option StepPath) (i : Nat) (ctx : RuntimeContext ι δ) (w : σ) :
    Tracks env w (runSteps env o pending i ctx w steps) := by
  induction steps generalizing pending i ctx w with
  | nil => rfl
  | cons step rest ih =>
    obtain ⟨hstep, hrest⟩ := forall_mem_cons.mp hsteps
    have hone := hstep { o with resumePath := dispatchResume o.resumePath pending i }
      (o.pathPrefix ++ [o.frameFor i]) ctx w
    have hquiet : ∀ (b : Bool) (e : Event α ι δ) (w : σ), e.leafAction = none →
        worldAfter env w (if b = true then [e] else []) = w := by
      intro b e w he
      refine worldAfter_of_leaves ?_ w
      cases b with
      | false => rfl
      | true => rw [if_pos rfl, leaves, filterMap_cons_none he, filterMap_nil]
    unfold Tracks at *
    rw [runSteps]
    split
    · exact ih hrest pending (i + 1) ctx w
    split
    · rfl
    dsimp only
    split
    · rw [ih hrest, hone, worldAfter_append, worldAfter_append, worldAfter_append,
        hquiet _ _ _ rfl, hquiet _ _ _ rfl]
    · rw [hone, worldAfter_append, worldAfter_append, hquiet _ _ _ rfl, hquiet _ _ _ rfl]
    · rw [hone, worldAfter_append, hquiet _ _ _ rfl]

theorem runIterations_tracks (hobserves : Observes env) {type : LoopType} {spec : α}
    {items : List ι} {resume : Option Nat}
    {body : Nat → RuntimeContext ι δ → σ → Outcome α ι δ σ}
    (hbody : ∀ i ctx w, Tracks env w (body i ctx w)) (fuel i : Nat) (ctx : RuntimeContext ι δ)
    (w : σ) : Tracks env w (runIterations env type spec items resume body fuel i ctx w) := by
  induction fuel generalizing i ctx w with
  | zero => rfl
  | succ fuel ih =>
    have hworld := loopHolds_world hobserves type spec ctx w
    unfold Tracks at *
    rw [runIterations]
    split
    · rfl
    generalize loopHolds env type spec ctx w = holds at hworld ⊢
    obtain ⟨holds, world⟩ := holds
    obtain rfl : world = w := hworld
    cases holds with
    | none => rfl
    | some holds =>
      cases holds with
      | false => rfl
      | true =>
        dsimp only
        have hone := hbody i (enterIteration type items i ctx) world
        split
        · exact ih (i + 1) _ world
        split
        · rw [ih, hone, worldAfter_append]
        · rw [ih, hone, worldAfter_append]
        all_goals exact hone

theorem runCase_tracks {cases : List (List (Action α))}
    (hcases : ∀ steps ∈ cases, ∀ s ∈ steps, TracksStep env s) (o : RunStepsOptions)
    (path : StepPath) (caseIdx : Int) {otherwise : Outcome α ι δ σ} (ctx : RuntimeContext ι δ)
    (w : σ) (hotherwise : Tracks env w otherwise) (n : Nat) :
    Tracks env w (runCase env o path caseIdx otherwise ctx w n cases) := by
  induction cases generalizing n with
  | nil => cases n <;> exact hotherwise
  | cons steps cases ih =>
    obtain ⟨hsteps, hcases⟩ := forall_mem_cons.mp hcases
    cases n with
    | zero =>
      rw [runCase]
      exact runSteps_tracks hsteps _ o.resumePath 0 ctx w
    | succ n =>
      rw [runCase]
      exact ih hcases n

theorem tracksStep (hobserves : Observes env) (step : Action α) : TracksStep env step := by
  induction step using Action.ind with
  | leaf action =>
    intro o path ctx w
    rw [dispatch]
    rfl
  | ifAction condition thenSteps elseSteps ihthen ihelse =>
    intro o path ctx w
    have hthen := @runSteps_tracks _ _ _ _ env _ ihthen (o.within path fun i => .inIf .thenSteps i)
      o.resumePath 0 ctx
    have helse := @runSteps_tracks _ _ _ _ env _ ihelse (o.within path fun i => .inIf .elseSteps i)
      o.resumePath 0 ctx
    have hworld := hobserves condition ctx w
    rw [dispatch]
    dsimp only
    split
    · exact (hthen w).rethrow
    · exact (helse w).rethrow
    · generalize env.evaluate condition ctx w = met at hworld ⊢
      obtain ⟨met, world⟩ := met
      obtain rfl : world = w := hworld
      cases met with
      | none => rfl
      | some met =>
        cases met with
        | true => exact (hthen world).rethrow
        | false => exact (helse world).rethrow
  | loop type spec maxIterations steps ih =>
    intro o path ctx w
    rw [dispatch]
    split
    · rfl
    · exact runIterations_tracks hobserves
        (fun i ctx w => runSteps_tracks ih (buildChildOptions o path i) _ 0 ctx w) _ 0 ctx w
  | switch expression cases default ihcases ihdefault =>
    intro o path ctx w
    have hdefault := fun caseIdx => @runSteps_tracks _ _ _ _ env _ ihdefault
      (o.within path fun i => .inSwitch caseIdx i) o.resumePath 0 ctx w
    rw [dispatch]
    dsimp only
    split
    · split
      · exact (runCase_tracks ihcases o path _ ctx w (hdefault _) _).rethrow.catchError
      · exact (hdefault _).rethrow.catchError
    · split
      · rfl
      · exact (hdefault _).rethrow.catchError
      · exact (runCase_tracks ihcases o path _ ctx w (hdefault _) _).rethrow.catchError
  | group steps ih =>
    intro o path ctx w
    rw [dispatch]
    exact (runSteps_tracks ih _ o.resumePath 0 ctx w).rethrow.catchError

end World

end Engine

end Aegis
