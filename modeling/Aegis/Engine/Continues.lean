import Aegis.Engine.Resume

/-!
# Engine.Continues

A resumed run does the rest of the uninterrupted one.

The checkpoint is inside a step of a list, is the one of the step itself, or is of a later step. In
the first case the step is resumed with what follows its own frame in the path, in the second the
steps after it run as they did, and in the third the step is passed over (`runSteps_continues`).
-/

namespace Aegis

open List Option

namespace Engine

variable {α ι δ σ : Type}

theorem append_cons_split {γ : Type} {l m pre post : List γ} {e : γ} (h : l ++ m = pre ++ e :: post) :
    (∃ post₁, l = pre ++ e :: post₁ ∧ post = post₁ ++ m) ∨
      ∃ pre₂, pre = l ++ pre₂ ∧ m = pre₂ ++ e :: post := by
  rcases append_eq_append_iff.mp h with ⟨k, hpre, hm⟩ | ⟨k, hl, hpost⟩
  · exact .inr ⟨k, hpre, hm⟩
  · cases k with
    | nil => exact .inr ⟨[], by rw [hl, append_nil, append_nil], hpost.symm⟩
    | cons a k =>
      rw [cons_append] at hpost
      obtain ⟨he, htail⟩ := List.cons.inj hpost
      exact .inl ⟨k, he ▸ hl, htail⟩

@[simp] theorem childIdx_withChildIdx (f : StepPathFrame) (i : Int) :
    (f.withChildIdx i).childIdx = i := by
  cases f <;> rfl

theorem nextPendingPath_ne_nil (p : StepPath) : nextPendingPath p ≠ [] := by
  cases p using List.reverseRecOn with
  | nil => exact cons_ne_nil _ _
  | append_singleton p last =>
    rw [nextPendingPath_append]
    exact append_ne_nil_of_right_ne_nil _ (cons_ne_nil _ _)

theorem nextPendingPath_cons (f : StepPathFrame) {p : StepPath} (h : p ≠ []) :
    nextPendingPath (f :: p) = f :: nextPendingPath p := by
  cases p using List.reverseRecOn with
  | nil => exact absurd rfl h
  | append_singleton p last =>
    rw [nextPendingPath_append, ← cons_append, nextPendingPath_append, cons_append]

theorem head_childIdx_nextPendingPath {f : StepPathFrame} {p : StepPath} : ∃ g q,
    nextPendingPath (f :: p) = g :: q ∧ f.childIdx ≤ g.childIdx := by
  by_cases h : p = []
  · subst h
    exact ⟨f.withChildIdx (f.childIdx + 1), [], rfl, by rw [childIdx_withChildIdx]; omega⟩
  · exact ⟨f, nextPendingPath p, nextPendingPath_cons f h, Int.le_refl _⟩

theorem cons_of_prefix {f : StepPathFrame} {path rel : StepPath}
    (h : path ++ [f] <+: path ++ rel) : ∃ rel', rel = f :: rel' := by
  obtain ⟨rel', hrel⟩ := (prefix_append_right_inj path).mp h
  exact ⟨rel', hrel.symm⟩

section Runs

variable {env : Env α ι δ σ}

variable {w : σ}

theorem runSteps_of_aborted (h : env.aborted w) (o : RunStepsOptions)
    (pending : Option StepPath) (steps : List (Action α)) (i : Nat) (ctx : RuntimeContext ι δ) :
    ∃ result, runSteps env o pending i ctx w steps = ⟨result, ctx, w, []⟩ := by
  induction steps generalizing i with
  | nil => exact ⟨.done, rfl⟩
  | cons step rest ih =>
    rw [runSteps]
    split
    · exact ih (i + 1)
    · exact ⟨_, rfl⟩

theorem runIterations_of_aborted {w : σ} (h : env.aborted w) {type : LoopType} {spec : α}
    {items : List ι} {resume : Option Nat}
    {body : Nat → RuntimeContext ι δ → σ → Outcome α ι δ σ} (fuel i : Nat)
    (ctx : RuntimeContext ι δ) : ∃ result,
      runIterations env type spec items resume body fuel i ctx w = ⟨result, ctx, w, []⟩ := by
  cases fuel with
  | zero => exact ⟨.done, rfl⟩
  | succ fuel =>
    rw [runIterations, if_pos h]
    exact ⟨_, rfl⟩

variable {o : RunStepsOptions} {path : StepPath} {iter : Nat}

theorem buildChildOptions_of_ne (h : resumeIter o.resumePath ≠ some iter) : buildChildOptions o path iter =
      { o with resumePath := none, pathPrefix := path, frameFor := fun i => .inLoop iter i } := by
  rw [buildChildOptions, if_neg h]

theorem buildChildOptions_self (h : resumeIter o.resumePath = some iter) :
    buildChildOptions o path iter = o.within path fun i => .inLoop iter i := by
  rw [buildChildOptions, if_pos h]
  rfl

theorem dispatch_stale {frame : StepPathFrame} {next : Action α} (h : IgnoresStale frame next)
    (k : Int) (o : RunStepsOptions) (path : StepPath) (ctx : RuntimeContext ι δ) (w : σ) :
    dispatch env { o with resumePath := some [frame.withChildIdx k] } path ctx w next =
      dispatch env { o with resumePath := none } path ctx w next := by
  cases next with
  | leaf action => rw [dispatch, dispatch]
  | loop type spec maxIterations steps =>
    have hiter : resumeIter (some [frame.withChildIdx k]) = none := by
      cases frame with
      | inLoop iter i => exact absurd rfl (h iter i)
      | _ => rfl
    have hoptions : ∀ iter, buildChildOptions
        { o with resumePath := some [frame.withChildIdx k] } path iter =
          buildChildOptions { o with resumePath := none } path iter := by
      intro iter
      rw [buildChildOptions_of_ne (fun h => by cases hiter.symm.trans h),
        buildChildOptions_of_ne (fun h => by cases h)]
    rw [dispatch, dispatch]
    simp only [hoptions, hiter]
    rfl
  | _ => exact absurd h id

def restOf (reports reported : Bool) (path : StepPath) (r : Outcome α ι δ σ)
    (next : RuntimeContext ι δ → σ → Outcome α ι δ σ) : Outcome α ι δ σ :=
  match r.result with
  | .done =>
    let q := next r.ctx r.world
    { q with events := (if reports then [.stepComplete path r.ctx] else []) ++ q.events }
  | .failed => { r with events := if reported then [.stepFailure path] else [] }
  | .threw _ => { r with events := [] }

def afterStep (reports reported : Bool) (path : StepPath) (r : Outcome α ι δ σ)
    (next : RuntimeContext ι δ → σ → Outcome α ι δ σ) : Outcome α ι δ σ :=
  { restOf reports reported path r next with
    events := (if reported then [.stepStart path] else []) ++ r.events ++
      (restOf reports reported path r next).events }

variable {i : Nat}

theorem runSteps_cons {pending : Option StepPath}
    (hskipped : isSkipped pending i = false) (haborted : env.aborted w = false)
    (ctx : RuntimeContext ι δ) (step : Action α) (rest : List (Action α)) :
    runSteps env o pending i ctx w (step :: rest) =
      afterStep o.reports (o.reports && mayNavigate env step) (o.pathPrefix ++ [o.frameFor i])
        (dispatch env { o with resumePath := dispatchResume o.resumePath pending i }
          (o.pathPrefix ++ [o.frameFor i]) ctx w step)
        (fun ctx w =>
          runSteps env o (if isResumeTarget pending i then none else pending) (i + 1) ctx w rest) := by
  rw [runSteps, hskipped, haborted, if_neg Bool.false_ne_true, if_neg Bool.false_ne_true]
  dsimp only
  unfold afterStep restOf
  generalize dispatch env { o with resumePath := dispatchResume o.resumePath pending i }
    (o.pathPrefix ++ [o.frameFor i]) ctx w step = r
  obtain ⟨result, ctx', world, events⟩ := r
  cases result with
  | done => simp only [append_assoc]
  | failed => rfl
  | threw thrown => simp only [append_nil]

variable (o i) in
theorem runSteps_cons_none
    (haborted : env.aborted w = false) (ctx : RuntimeContext ι δ) (step : Action α)
    (rest : List (Action α)) : runSteps env o none i ctx w (step :: rest) =
      afterStep o.reports (o.reports && mayNavigate env step) (o.pathPrefix ++ [o.frameFor i])
        (dispatch env { o with resumePath := none } (o.pathPrefix ++ [o.frameFor i]) ctx w step)
        (fun ctx w => runSteps env o none (i + 1) ctx w rest) :=
  runSteps_cons rfl haborted ctx step rest

theorem runSteps_resumePath (o : RunStepsOptions) (x : Option StepPath) (steps : List (Action α))
    (i : Nat) (ctx : RuntimeContext ι δ) (w : σ) :
    runSteps env { o with resumePath := x } none i ctx w steps = runSteps env o none i ctx w steps := by
  induction steps generalizing i ctx w with
  | nil => rfl
  | cons step rest ih =>
    cases haborted : env.aborted w with
    | true => simp [runSteps, isSkipped, haborted]
    | false =>
      have hnext : (fun ctx w => runSteps env { o with resumePath := x } none (i + 1) ctx w rest) =
          fun ctx w => runSteps env o none (i + 1) ctx w rest :=
        funext fun ctx => funext fun w => ih (i + 1) ctx w
      rw [runSteps_cons_none _ i haborted, runSteps_cons_none _ i haborted, hnext]

variable {c : RuntimeContext ι δ} {pre post : List (Event α ι δ)} {reports reported : Bool}

theorem afterStep_split {path p : StepPath} {r : Outcome α ι δ σ}
    {next : RuntimeContext ι δ → σ → Outcome α ι δ σ}
    (h : (afterStep reports reported path r next).events = pre ++ .stepComplete p c :: post) :
    (∃ pre₁ post₁, r.events = pre₁ ++ .stepComplete p c :: post₁ ∧
      pre = (if reported then [.stepStart path] else []) ++ pre₁ ∧
      post = post₁ ++ (restOf reports reported path r next).events) ∨
    (r.result = .done ∧ p = path ∧ pre = (if reported then [.stepStart path] else []) ++ r.events ∧
      post = (next r.ctx r.world).events) ∨
    (r.result = .done ∧ ∃ quiet pre₂, leaves quiet = [] ∧
      pre = (if reported then [.stepStart path] else []) ++ r.events ++ quiet ++ pre₂ ∧
      (next r.ctx r.world).events = pre₂ ++ .stepComplete p c :: post) := by
  rcases append_cons_split h with ⟨post₁, hfirst, hpost⟩ | ⟨pre₂, hpre, hrest⟩
  · rcases append_cons_split hfirst with ⟨post₂, hstart, -⟩ | ⟨pre₁, hpre, hr⟩
    · have hmem : Event.stepComplete p c ∈
          (if reported = true then [Event.stepStart path] else [] : List (Event α ι δ)) := by
        rw [hstart]
        exact mem_append_right _ mem_cons_self
      split at hmem
      · cases mem_singleton.mp hmem
      · cases hmem
    · exact .inl ⟨pre₁, post₁, hr, hpre, hpost⟩
  · unfold restOf at hrest
    split at hrest
    · rename_i hdone
      rcases append_cons_split hrest with ⟨post₁, hcomplete, hpost⟩ | ⟨pre₃, hpre₂, hnext⟩
      · split at hcomplete
        · cases pre₂ with
          | nil =>
            obtain ⟨he, hnil⟩ := List.cons.inj hcomplete
            obtain ⟨rfl, -⟩ := Event.stepComplete.inj he
            subst hnil
            exact .inr (.inl ⟨hdone, rfl, by rw [hpre, append_nil], hpost⟩)
          | cons e pre₂ =>
            have hlength := congrArg List.length hcomplete
            simp at hlength
        · cases pre₂ <;> cases hcomplete
      · refine .inr (.inr ⟨hdone, if reports = true then [.stepComplete path r.ctx] else [], pre₃,
          ?_, by rw [hpre, hpre₂]; simp only [append_assoc], hnext⟩)
        split <;> rfl
    · dsimp only at hrest
      have hmem : Event.stepComplete p c ∈
          (if reported = true then [Event.stepFailure path] else [] : List (Event α ι δ)) := by
        rw [hrest]
        exact mem_append_right _ mem_cons_self
      split at hmem
      · cases mem_singleton.mp hmem
      · cases hmem
    · cases pre₂ <;> cases hrest

theorem restOf_events (reports reported : Bool) (path : StepPath) (r : Outcome α ι δ σ)
    (next : RuntimeContext ι δ → σ → Outcome α ι δ σ) (events : List (Event α ι δ)) :
    restOf reports reported path { r with events := events } next =
      restOf reports reported path r next := by
  obtain ⟨result, ctx, world, _⟩ := r
  cases result <;> rfl

theorem afterStep_of_done {path : StepPath} {r : Outcome α ι δ σ}
    {next : RuntimeContext ι δ → σ → Outcome α ι δ σ} (h : r.result = .done)
    (post : List (Event α ι δ)) : { afterStep reports reported path r next with events := post } =
      { next r.ctx r.world with events := post } := by
  unfold afterStep restOf
  rw [h]

theorem restOf_of_stopped {path : StepPath} {r : Outcome α ι δ σ}
    {next : RuntimeContext ι δ → σ → Outcome α ι δ σ}
    (h : ∃ result, next r.ctx r.world = ⟨result, r.ctx, r.world, []⟩) :
    leaves (restOf reports reported path r next).events = [] ∧
      (restOf reports reported path r next).world = r.world := by
  obtain ⟨result, hnext⟩ := h
  unfold restOf
  split
  · rw [hnext]
    cases reports <;> exact ⟨rfl, rfl⟩
  · cases reported <;> exact ⟨rfl, rfl⟩
  · exact ⟨rfl, rfl⟩

/-! ## Resuming -/

theorem runSteps_skip {f : StepPathFrame} {q : StepPath}
    (h : (i : Int) < f.childIdx) (ctx : RuntimeContext ι δ) (w : σ) (step : Action α)
    (rest : List (Action α)) : runSteps env o (some (f :: q)) i ctx w (step :: rest) =
      runSteps env o (some (f :: q)) (i + 1) ctx w rest := by
  rw [runSteps, isSkipped, if_pos (decide_eq_true h)]

/-- After a checkpoint in the world `w`, with the events `post` of `r` to come: an aborted run has no
leaf action left, and else the resumed run does the rest if `resumes` holds. -/
structure Continues (env : Env α ι δ σ) (w : σ) (post : List (Event α ι δ)) (r : Outcome α ι δ σ)
    (resumes : Prop) (r' : Outcome α ι δ σ) : Prop where
  stopped : env.aborted w = true → leaves post = [] ∧ r.world = w
  resumed : env.aborted w = false → resumes → r' = { r with events := post }

variable {r r' : Outcome α ι δ σ} {resumes : Prop}

theorem Continues.rethrow {post : List (Event α ι δ)} (h : Continues env w post r resumes r') :
    Continues env w post (rethrow r) resumes (rethrow r') := by
  obtain ⟨result, ctx, world, events⟩ := r
  constructor
  · intro ha
    obtain ⟨hleaves, hworld⟩ := h.stopped ha
    cases result <;> exact ⟨hleaves, hworld⟩
  · intro ha hresumes
    rw [h.resumed ha hresumes]
    cases result <;> rfl

theorem Continues.catchError {post : List (Event α ι δ)} (h : Continues env w post r resumes r') :
    Continues env w post (catchError r) resumes (catchError r') := by
  obtain ⟨result, ctx, world, events⟩ := r
  constructor
  · intro ha
    obtain ⟨hleaves, hworld⟩ := h.stopped ha
    refine ⟨hleaves, ?_⟩
    unfold Engine.catchError
    split <;> exact hworld
  · intro ha hresumes
    rw [h.resumed ha hresumes]
    cases result with
    | threw thrown => cases thrown <;> rfl
    | _ => rfl

/-- Resumed after any checkpoint of a run of the step, the rest of that run follows. -/
def ResumesStep (env : Env α ι δ σ) (step : Action α) : Prop :=
  ∀ (o : RunStepsOptions) path ctx world rel ctx' w pre post c,
    (dispatch env { o with resumePath := none } path ctx world step).events =
      pre ++ .stepComplete (path ++ rel) c :: post →
    worldAfter env world pre = w →
    Continues env w post (dispatch env { o with resumePath := none } path ctx world step)
      (StepResumes env { o with resumePath := none } path ctx world rel ctx' w step)
      (dispatch env { o with resumePath := some (nextPendingPath rel) } path ctx' w step)

/-- The list of steps continues after a checkpoint in it, if each of its steps does: by the steps
that come before it, which are skipped, and the one that it is in or ends. -/
theorem runSteps_continues (hobserves : Observes env) {steps : List (Action α)}
    (hsteps : ∀ s ∈ steps, ResumesStep env s) {o : RunStepsOptions} (hrising : Rising o.frameFor)
    (hidx : ∀ i : Nat, (o.frameFor i).childIdx = i) {rel : StepPath} {ctx' : RuntimeContext ι δ}
    {w : σ} {post : List (Event α ι δ)} {c : RuntimeContext ι δ} (i : Nat)
    (ctx : RuntimeContext ι δ) (world : σ) (pre : List (Event α ι δ))
    (h : (runSteps env o none i ctx world steps).events =
      pre ++ .stepComplete (o.pathPrefix ++ rel) c :: post) (hw : worldAfter env world pre = w) :
    Continues env w post (runSteps env o none i ctx world steps)
      (ListResumes env o i ctx world rel ctx' w steps)
      (runSteps env { o with resumePath := some (nextPendingPath rel) }
        (some (nextPendingPath rel)) i ctx' w steps) := by
  induction steps generalizing i ctx world pre with
  | nil => cases pre <;> cases h
  | cons step rest ih =>
    obtain ⟨hstep, hrest⟩ := forall_mem_cons.mp hsteps
    cases haborted : env.aborted world with
    | true =>
      obtain ⟨result, hrun⟩ := runSteps_of_aborted haborted o none (step :: rest) i ctx
      rw [hrun] at h
      cases pre <;> cases h
    | false =>
      rw [runSteps_cons_none o i haborted] at h ⊢
      have htracks := tracksStep hobserves step { o with resumePath := none }
        (o.pathPrefix ++ [o.frameFor i]) ctx world
      have hgood := goodStep env step { o with resumePath := none }
        (o.pathPrefix ++ [o.frameFor i]) ctx world
      have hcontinues := hstep o (o.pathPrefix ++ [o.frameFor i]) ctx world
      rw [ListResumes]
      generalize hr : dispatch env { o with resumePath := none } (o.pathPrefix ++ [o.frameFor i]) ctx
        world step = r at h htracks hgood hcontinues ⊢
      have hstart : worldAfter env world (if (o.reports && mayNavigate env step) = true then
          [.stepStart (o.pathPrefix ++ [o.frameFor i])] else []) = world :=
        worldAfter_of_leaves (by split <;> rfl) world
      rcases afterStep_split h with ⟨pre₁, post₁, hevents, hpre, hpost⟩ | ⟨hdone, hp, hpre, hpost⟩ |
        ⟨hdone, quiet, pre₂, hquiet, hpre, hnext⟩
      · -- inside the step
        obtain ⟨-, hprefix, hne⟩ := hgood.below (.stepComplete (o.pathPrefix ++ rel) c)
          (by rw [hevents]; exact mem_append_right _ mem_cons_self) _ rfl
        obtain ⟨rel', rfl⟩ := cons_of_prefix hprefix
        have hrel' : rel' ≠ [] := fun hnil => hne (by rw [hnil])
        rw [hpre, worldAfter_append, hstart] at hw
        have hinner := hcontinues rel' ctx' w pre₁ post₁ c
          (by rw [hevents, append_assoc, singleton_append]) hw
        have hreported : (o.reports && mayNavigate env step) = false := by
          cases step with
          | leaf action =>
            rw [dispatch] at hr
            subst hr
            cases pre₁ with
            | nil => cases hevents
            | cons e pre₁ =>
              have hnil := (List.cons.inj hevents).2
              cases pre₁ <;> cases hnil
          | _ => exact Bool.and_false _
        constructor
        · intro ha
          obtain ⟨hleaves, hworld⟩ := hinner.stopped ha
          have hstopped := @restOf_of_stopped _ _ _ _ o.reports (o.reports && mayNavigate env step)
            (o.pathPrefix ++ [o.frameFor i]) r (fun ctx w => runSteps env o none (i + 1) ctx w rest)
            (runSteps_of_aborted (by rw [hworld]; exact ha) o none rest (i + 1) r.ctx)
          refine ⟨?_, hstopped.2.trans hworld⟩
          rw [hpost, leaves_append, hleaves, hstopped.1]
          rfl
        · intro ha hresumes
          have hhead : (o.frameFor i :: rel').head?.map StepPathFrame.childIdx = some (i : Int) :=
            congrArg some (hidx i)
          rw [if_pos hhead, tail_cons, if_neg hrel'] at hresumes
          have hnone : isSkipped (some (o.frameFor i :: nextPendingPath rel')) i = false := by
            rw [isSkipped, hidx]
            exact decide_eq_false (Int.lt_irrefl _)
          have htarget : isResumeTarget (some (o.frameFor i :: nextPendingPath rel')) i := by
            rw [isResumeTarget, hidx]
            exact beq_self_eq_true _
          have hdeeper : dispatchResume (some (o.frameFor i :: nextPendingPath rel'))
              (some (o.frameFor i :: nextPendingPath rel')) i = some (nextPendingPath rel') := by
            have hlength := length_pos_iff.mpr (nextPendingPath_ne_nil rel')
            rw [dispatchResume, htarget]
            exact if_pos (by
              rw [Bool.true_and, decide_eq_true_eq, length_cons]
              omega)
          rw [nextPendingPath_cons _ hrel', runSteps_cons hnone ha, htarget, if_pos rfl, hdeeper, hreported]
          rw [hreported] at hpost
          have hsame : (fun ctx w => runSteps env
              { o with resumePath := some (o.frameFor i :: nextPendingPath rel') } none (i + 1) ctx w
              rest) = fun ctx w => runSteps env o none (i + 1) ctx w rest :=
            funext fun ctx => funext fun w => runSteps_resumePath o _ rest (i + 1) ctx w
          rw [hsame, hinner.resumed ha hresumes]
          unfold afterStep
          rw [restOf_events, hpost]
          rfl
      · -- the step itself: the next one is the first to run
        obtain rfl : rel = [o.frameFor i] := append_cancel_left hp
        rw [hpre, worldAfter_append, hstart, ← htracks] at hw
        subst hw hpost
        constructor
        · intro ha
          obtain ⟨result, hrun⟩ := runSteps_of_aborted ha o none rest (i + 1) r.ctx
          have hafter := congrArg Outcome.world (@afterStep_of_done _ _ _ _ o.reports
            (o.reports && mayNavigate env step) (o.pathPrefix ++ [o.frameFor i]) r
            (fun ctx w => runSteps env o none (i + 1) ctx w rest) hdone [])
          dsimp only at hafter
          rw [hafter, hrun]
          exact ⟨rfl, rfl⟩
        · intro ha hresumes
          have hhead : [o.frameFor i].head?.map StepPathFrame.childIdx = some (i : Int) :=
            congrArg some (hidx i)
          rw [if_pos hhead, tail_cons, if_pos rfl] at hresumes
          obtain ⟨rfl, hfirst⟩ := hresumes
          have hnext : nextPendingPath [o.frameFor i] = [(o.frameFor i).withChildIdx (i + 1)] := by
            rw [← hidx i]
            rfl
          rw [hnext, afterStep_of_done hdone, runSteps_skip (by rw [childIdx_withChildIdx]; omega)]
          cases rest with
          | nil => rfl
          | cons first rest =>
            have hnone : isSkipped (some [(o.frameFor i).withChildIdx (i + 1)]) (i + 1) = false := by
              rw [isSkipped, childIdx_withChildIdx]
              exact decide_eq_false (by omega)
            have htarget : isResumeTarget (some [(o.frameFor i).withChildIdx (i + 1)]) (i + 1) := by
              rw [isResumeTarget, childIdx_withChildIdx]
              exact beq_self_eq_true _
            have hstale : dispatchResume (some [(o.frameFor i).withChildIdx (i + 1)])
                (some [(o.frameFor i).withChildIdx (i + 1)]) (i + 1) =
                  some [(o.frameFor i).withChildIdx (i + 1)] := by
              rw [dispatchResume, htarget]
              rfl
            have hsame : (fun ctx w => runSteps env
                { o with resumePath := some [(o.frameFor i).withChildIdx (i + 1)] } none (i + 1 + 1)
                ctx w rest) = fun ctx w => runSteps env o none (i + 1 + 1) ctx w rest :=
              funext fun ctx => funext fun w => runSteps_resumePath o _ rest (i + 1 + 1) ctx w
            rw [runSteps_cons hnone ha, htarget, if_pos rfl, hstale, hsame,
              runSteps_cons_none o (i + 1) ha, dispatch_stale (hfirst first rfl)]
      · -- a later step
        obtain ⟨hfrom, -⟩ := @runSteps_good _ _ _ _ env rest (fun s _ => goodStep env s) o hrising
          none (i + 1) r.ctx r.world
        obtain ⟨-, j, hj, hprefix⟩ := hfrom (.stepComplete (o.pathPrefix ++ rel) c)
          (by rw [hnext]; exact mem_append_right _ mem_cons_self) _ rfl
        obtain ⟨rel', rfl⟩ := cons_of_prefix hprefix
        rw [hpre, worldAfter_append, worldAfter_append, worldAfter_append, hstart, ← htracks,
          worldAfter_of_leaves hquiet] at hw
        have hlater := ih hrest (i + 1) r.ctx r.world pre₂ hnext hw
        constructor
        · intro ha
          obtain ⟨hleaves, hworld⟩ := hlater.stopped ha
          have hafter := congrArg Outcome.world (@afterStep_of_done _ _ _ _ o.reports
            (o.reports && mayNavigate env step) (o.pathPrefix ++ [o.frameFor i]) r
            (fun ctx w => runSteps env o none (i + 1) ctx w rest) hdone [])
          dsimp only at hafter
          exact ⟨hleaves, hafter.trans hworld⟩
        · intro ha hresumes
          have hhead : (o.frameFor j :: rel').head?.map StepPathFrame.childIdx ≠ some (i : Int) := by
            intro heq
            have hji := some.inj heq
            rw [hidx] at hji
            omega
          rw [if_neg hhead] at hresumes
          obtain ⟨g, q, hq, hle⟩ := @head_childIdx_nextPendingPath (o.frameFor j) rel'
          have hresumed := hlater.resumed ha hresumes
          rw [hidx] at hle
          rw [hq] at hresumed ⊢
          rw [afterStep_of_done hdone, runSteps_skip (by omega), hresumed]

/-! ## Loops -/

def iterationRest (r : Outcome α ι δ σ) (next : RuntimeContext ι δ → σ → Outcome α ι δ σ) :
    Outcome α ι δ σ :=
  match r.result with
  | .done | .threw .continueSignal => next r.ctx r.world
  | .threw .breakSignal => { r with result := .done, events := [] }
  | .failed => { r with result := .threw .error, events := [] }
  | .threw _ => { r with events := [] }

def afterIteration (r : Outcome α ι δ σ) (next : RuntimeContext ι δ → σ → Outcome α ι δ σ) :
    Outcome α ι δ σ :=
  { iterationRest r next with events := r.events ++ (iterationRest r next).events }

variable (r) in
theorem iterationRest_events
    (next : RuntimeContext ι δ → σ → Outcome α ι δ σ) (events : List (Event α ι δ)) :
    iterationRest { r with events := events } next = iterationRest r next := by
  obtain ⟨result, ctx, world, _⟩ := r
  cases result with
  | threw thrown => cases thrown <;> rfl
  | _ => rfl

variable (r) in
theorem iterationRest_cases (next : RuntimeContext ι δ → σ → Outcome α ι δ σ) :
    iterationRest r next = next r.ctx r.world ∨
      (iterationRest r next).events = [] ∧ (iterationRest r next).world = r.world := by
  unfold iterationRest
  split
  · exact .inl rfl
  · exact .inl rfl
  all_goals exact .inr ⟨rfl, rfl⟩

variable {type : LoopType} {spec : α} {items : List ι}
  {body : Nat → RuntimeContext ι δ → σ → Outcome α ι δ σ} {ctx : RuntimeContext ι δ}

theorem runIterations_step {resume : Option Nat} (haborted : env.aborted w = false)
    (hholds : loopHolds env type spec ctx w = (some true, w))
    (hresume : ¬ resume.any (i < ·)) (fuel : Nat) :
    runIterations env type spec items resume body (fuel + 1) i ctx w =
      afterIteration (body i (enterIteration type items i ctx) w)
        (fun ctx w => runIterations env type spec items resume body fuel (i + 1) ctx w) := by
  rw [runIterations, if_neg (by rw [haborted]; exact Bool.false_ne_true), hholds]
  dsimp only
  rw [if_neg hresume]
  generalize body i (enterIteration type items i ctx) w = r
  obtain ⟨result, ctx', world, events⟩ := r
  unfold afterIteration iterationRest
  cases result with
  | done => rfl
  | failed => simp only [append_nil]
  | threw thrown => cases thrown <;> simp only [append_nil]

theorem runIterations_skip (haborted : env.aborted w = false)
    (hholds : loopHolds env type spec ctx w = (some true, w)) (hi : i < iter) (fuel : Nat) :
    runIterations env type spec items (some iter) body (fuel + 1) i ctx w =
      runIterations env type spec items (some iter) body fuel (i + 1)
        (enterIteration type items i ctx) w := by
  rw [runIterations, if_neg (by rw [haborted]; exact Bool.false_ne_true), hholds]
  dsimp only
  rw [if_pos (by rw [any_some, decide_eq_true_eq]; exact hi)]

theorem entered_of_events (hobserves : Observes env) {type : LoopType} {spec : α} {items : List ι}
    {resume : Option Nat} {body : Nat → RuntimeContext ι δ → σ → Outcome α ι δ σ} {i fuel : Nat}
    {ctx : RuntimeContext ι δ} {w : σ}
    (h : (runIterations env type spec items resume body (fuel + 1) i ctx w).events ≠ []) :
    env.aborted w = false ∧ loopHolds env type spec ctx w = (some true, w) := by
  have hworld := loopHolds_world hobserves type spec ctx w
  rw [runIterations] at h
  split at h
  · exact absurd rfl h
  rename_i haborted
  refine ⟨Bool.eq_false_iff.mpr haborted, ?_⟩
  generalize loopHolds env type spec ctx w = holds at hworld h
  obtain ⟨holds, w'⟩ := holds
  obtain rfl : w' = w := hworld
  cases holds with
  | none => exact absurd rfl h
  | some holds =>
    cases holds with
    | false => exact absurd rfl h
    | true => rfl

theorem runIterations_after {body body' : Nat → RuntimeContext ι δ → σ → Outcome α ι δ σ}
    (hlater : ∀ i, iter < i → body' i = body i) (fuel i : Nat) (hi : iter < i)
    (ctx : RuntimeContext ι δ) (w : σ) :
    runIterations env type spec items (some iter) body' fuel i ctx w =
      runIterations env type spec items none body fuel i ctx w := by
  induction fuel generalizing i ctx w with
  | zero => rfl
  | succ fuel ih =>
    have hskip : ¬ (some iter).any (i < ·) := by
      rw [any_some, decide_eq_true_eq]
      omega
    have hih := ih (i + 1) (by omega)
    rw [runIterations, runIterations]
    simp only [hlater i hi, hih, if_neg hskip]
    rfl

theorem runIterations_continues (hobserves : Observes env) {type : LoopType} {spec : α}
    {items : List ι} {iter : Nat} {reports : Bool} {path rel : StepPath}
    {body body' : Nat → RuntimeContext ι δ → σ → Outcome α ι δ σ}
    {resumes : RuntimeContext ι δ → σ → RuntimeContext ι δ → Prop} {w : σ}
    {post : List (Event α ι δ)} {c : RuntimeContext ι δ} {childIdx : Int} {rel' : StepPath}
    (hrel : rel = .inLoop iter childIdx :: rel')
    (hgood : ∀ i ctx world, From reports path (fun c => .inLoop i c) 0 (body i ctx world).events ∧
      (body i ctx world).events.Pairwise Follows)
    (htracks : ∀ i ctx world, Tracks env world (body i ctx world))
    (hlater : ∀ i, iter < i → body' i = body i)
    (hbody : ∀ ctx world ctx' pre post, (body iter ctx world).events =
        pre ++ .stepComplete (path ++ rel) c :: post → worldAfter env world pre = w →
      Continues env w post (body iter ctx world) (resumes ctx world ctx') (body' iter ctx' w))
    (fuel i : Nat) (ctx : RuntimeContext ι δ) (world : σ) (ctx' : RuntimeContext ι δ)
    (pre : List (Event α ι δ))
    (h : (runIterations env type spec items none body fuel i ctx world).events =
      pre ++ .stepComplete (path ++ rel) c :: post) (hw : worldAfter env world pre = w) :
    Continues env w post (runIterations env type spec items none body fuel i ctx world)
      (IterationsResume env type spec items iter body resumes w fuel i ctx world ctx')
      (runIterations env type spec items (some iter) body' fuel i ctx' w) := by
  induction fuel generalizing i ctx world ctx' pre with
  | zero => cases pre <;> cases h
  | succ fuel ih =>
    have hfrom := @runIterations_good _ _ _ _ env path type spec items none reports body hgood fuel
      (i + 1)
    have hmem : ∀ {events pre₁ post₁ : List (Event α ι δ)},
        events = pre₁ ++ .stepComplete (path ++ rel) c :: post₁ →
        .stepComplete (path ++ rel) c ∈ events := by
      rintro events pre₁ post₁ rfl
      exact mem_append_right _ mem_cons_self
    obtain ⟨haborted, hholds⟩ := @entered_of_events _ _ _ _ env hobserves type spec items none body
      i fuel ctx world (ne_nil_of_mem (hmem h))
    have hnone : ¬ (none : Option Nat).any (i < ·) := Bool.false_ne_true
    rw [runIterations_step haborted hholds hnone] at h ⊢
    rw [IterationsResume]
    have hhere := htracks i (enterIteration type items i ctx) world
    have hback : (loopHolds env type spec ctx' w).1 = some true →
        loopHolds env type spec ctx' w = (some true, w) :=
      fun htrue => Prod.ext htrue (loopHolds_world hobserves type spec ctx' w)
    rcases append_cons_split h with ⟨post₁, hevents, hpost⟩ | ⟨pre₂, hpre, hrest⟩
    · -- this is the iteration to resume
      obtain ⟨-, k, -, hprefix⟩ := (hgood i (enterIteration type items i ctx) world).1 _
        (hmem hevents) _ rfl
      obtain ⟨q, hq⟩ := cons_of_prefix hprefix
      rw [hrel] at hq
      obtain rfl : iter = i := (StepPathFrame.inLoop.inj (List.cons.inj hq).1).1
      have hinner := hbody (enterIteration type items iter ctx) world
        (enterIteration type items iter ctx') pre post₁ hevents hw
      constructor
      · intro ha
        obtain ⟨hleaves, hworld⟩ := hinner.stopped ha
        obtain ⟨result, hstop⟩ := @runIterations_of_aborted _ _ _ _ env _ ha type spec items none
          body fuel (iter + 1) (body iter (enterIteration type items iter ctx) world).ctx
        rw [hpost, leaves_append, hleaves, nil_append]
        rcases iterationRest_cases (body iter (enterIteration type items iter ctx) world)
          (fun ctx w => runIterations env type spec items none body fuel (iter + 1) ctx w)
          with hgoes | ⟨hnone, hsame⟩
        · unfold afterIteration
          dsimp only at hgoes ⊢
          rw [hgoes, hworld, hstop]
          exact ⟨rfl, rfl⟩
        · rw [hnone]
          exact ⟨rfl, hsame.trans hworld⟩
      · rintro ha ⟨htrue, hresumes⟩
        rw [if_pos rfl] at hresumes
        have hsame : (fun ctx w =>
            runIterations env type spec items (some iter) body' fuel (iter + 1) ctx w) =
            fun ctx w => runIterations env type spec items none body fuel (iter + 1) ctx w :=
          funext fun ctx => funext fun w =>
            runIterations_after hlater fuel (iter + 1) (by omega) ctx w
        rw [runIterations_step ha (hback htrue)
          (by rw [any_some, decide_eq_true_eq]; exact Nat.lt_irrefl iter), hsame,
          hinner.resumed ha hresumes]
        unfold afterIteration
        rw [iterationRest_events, hpost]
    · -- a later one
      have hgoes : iterationRest (body i (enterIteration type items i ctx) world)
          (fun ctx w => runIterations env type spec items none body fuel (i + 1) ctx w) =
          runIterations env type spec items none body fuel (i + 1)
            (body i (enterIteration type items i ctx) world).ctx
            (body i (enterIteration type items i ctx) world).world := by
        rcases iterationRest_cases (body i (enterIteration type items i ctx) world)
          (fun ctx w => runIterations env type spec items none body fuel (i + 1) ctx w)
          with hgoes | ⟨hnone, -⟩
        · exact hgoes
        · exact absurd hnone (ne_nil_of_mem (hmem hrest))
      rw [hgoes] at hrest
      obtain ⟨-, k, hk, childIdx', hprefix⟩ := (hfrom _ _).1 _ (hmem hrest) _ rfl
      obtain ⟨q, hq⟩ := cons_of_prefix hprefix
      rw [hrel] at hq
      obtain rfl : iter = k := (StepPathFrame.inLoop.inj (List.cons.inj hq).1).1
      rw [hpre, worldAfter_append, ← hhere] at hw
      have hlast := ih (i + 1) _ _ (enterIteration type items i ctx') pre₂ hrest hw
      constructor
      · intro ha
        obtain ⟨hleaves, hworld⟩ := hlast.stopped ha
        refine ⟨hleaves, ?_⟩
        unfold afterIteration
        rw [hgoes]
        exact hworld
      · rintro ha ⟨htrue, hresumes⟩
        rw [if_neg (by omega)] at hresumes
        rw [runIterations_skip ha (hback htrue) (by omega), hlast.resumed ha hresumes]
        unfold afterIteration
        rw [hgoes]

/-! ## Containers -/

theorem nextPendingPath_frame (f : StepPathFrame) (p : StepPath) : ∃ k q,
    nextPendingPath (f :: p) = f.withChildIdx k :: q := by
  by_cases h : p = []
  · subst h
    exact ⟨f.childIdx + 1, [], rfl⟩
  · refine ⟨f.childIdx, nextPendingPath p, ?_⟩
    rw [nextPendingPath_cons f h]
    cases f <;> rfl

theorem resumeBranch_nextPendingPath (branch : Branch) (i : Int) (p : StepPath) :
    resumeBranch (some (nextPendingPath (.inIf branch i :: p))) = some branch := by
  obtain ⟨k, q, h⟩ := nextPendingPath_frame (.inIf branch i) p
  rw [h]
  rfl

theorem resumeIter_nextPendingPath (iter : Nat) (i : Int) (p : StepPath) :
    resumeIter (some (nextPendingPath (.inLoop iter i :: p))) = some iter := by
  obtain ⟨k, q, h⟩ := nextPendingPath_frame (.inLoop iter i) p
  rw [h]
  rfl

theorem resumeCase_nextPendingPath (caseIdx i : Int) (p : StepPath) :
    resumeCase (some (nextPendingPath (.inSwitch caseIdx i :: p))) = some caseIdx := by
  obtain ⟨k, q, h⟩ := nextPendingPath_frame (.inSwitch caseIdx i) p
  rw [h]
  rfl

variable {path rel : StepPath}

theorem within_continues (hobserves : Observes env) {steps : List (Action α)}
    (hsteps : ∀ s ∈ steps, ResumesStep env s) {frameFor : Nat → StepPathFrame}
    (hrising : Rising frameFor) (hidx : ∀ i : Nat, (frameFor i).childIdx = i) (o : RunStepsOptions)
    {world : σ} (ctx' : RuntimeContext ι δ)
    (h : (runSteps env ({ o with resumePath := none }.within path frameFor) none 0 ctx world
      steps).events = pre ++ .stepComplete (path ++ rel) c :: post)
    (hw : worldAfter env world pre = w) :
    (∃ j rel', rel = frameFor j :: rel') ∧ Continues env w post
        (runSteps env ({ o with resumePath := none }.within path frameFor) none 0 ctx world steps)
        (ListResumes env ({ o with resumePath := none }.within path frameFor) 0 ctx world rel ctx' w
          steps)
        (runSteps env ({ o with resumePath := some (nextPendingPath rel) }.within path frameFor)
          (some (nextPendingPath rel)) 0 ctx' w steps) := by
  constructor
  · obtain ⟨hfrom, -⟩ := @runSteps_good _ _ _ _ env steps (fun s _ => goodStep env s)
      ({ o with resumePath := none }.within path frameFor) hrising none 0 ctx world
    obtain ⟨-, j, -, hprefix⟩ := hfrom (.stepComplete (path ++ rel) c)
      (by rw [h]; exact mem_append_right _ mem_cons_self) _ rfl
    exact ⟨j, cons_of_prefix hprefix⟩
  · exact @runSteps_continues _ _ _ _ env hobserves steps hsteps
      ({ o with resumePath := none }.within path frameFor) hrising hidx rel ctx' w post c 0 ctx world
      pre h hw

theorem runCase_continues (hobserves : Observes env) {cases : List (List (Action α))}
    (hcases : ∀ steps ∈ cases, ∀ s ∈ steps, ResumesStep env s) (o : RunStepsOptions)
    {world : σ} (ctx' : RuntimeContext ι δ) {caseIdx : Int}
    {otherwise otherwise' : Outcome α ι δ σ}
    (hotherwise : otherwise.events = pre ++ .stepComplete (path ++ rel) c :: post →
      (∃ (j : Nat) (rel' : StepPath), rel = .inSwitch caseIdx j :: rel') ∧
        Continues env w post otherwise resumes otherwise') (n : Nat)
    (h : (runCase env { o with resumePath := none } path caseIdx otherwise ctx world n cases).events =
      pre ++ .stepComplete (path ++ rel) c :: post) (hw : worldAfter env world pre = w) :
    (∃ (j : Nat) (rel' : StepPath), rel = .inSwitch caseIdx j :: rel') ∧ Continues env w post
        (runCase env { o with resumePath := none } path caseIdx otherwise ctx world n cases)
        (CaseResumes env { o with resumePath := none } path caseIdx resumes ctx world rel ctx' w n
          cases)
        (runCase env { o with resumePath := some (nextPendingPath rel) } path caseIdx otherwise' ctx'
          w n cases) := by
  induction cases generalizing n with
  | nil =>
    cases n <;>
    · rw [runCase] at h ⊢
      rw [CaseResumes, runCase]
      exact hotherwise h
  | cons steps cases ih =>
    obtain ⟨hsteps, hcases⟩ := forall_mem_cons.mp hcases
    cases n with
    | zero =>
      rw [runCase] at h ⊢
      rw [CaseResumes, runCase]
      exact within_continues hobserves hsteps (rising_inSwitch caseIdx) (fun _ => rfl) o ctx' h hw
    | succ n =>
      rw [runCase] at h ⊢
      rw [CaseResumes, runCase]
      exact ih hcases n h

theorem dispatch_if_fresh (condition : α) (thenSteps elseSteps : List (Action α))
    (o : RunStepsOptions) (path : StepPath) (ctx : RuntimeContext ι δ) (world : σ) :
    dispatch env { o with resumePath := none } path ctx world
        (.ifAction condition thenSteps elseSteps) =
      match env.evaluate condition ctx world with
      | (none, world) => ⟨.threw .error, ctx, world, []⟩
      | (some true, world) => rethrow (runSteps env ({ o with resumePath := none }.within path
          fun i => .inIf .thenSteps i) none 0 ctx world thenSteps)
      | (some false, world) => rethrow (runSteps env ({ o with resumePath := none }.within path
          fun i => .inIf .elseSteps i) none 0 ctx world elseSteps) := by
  rw [dispatch]
  rfl

theorem dispatch_switch_fresh (expression : α) (cases : List (List (Action α)))
    (default : List (Action α)) (o : RunStepsOptions) (path : StepPath) (ctx : RuntimeContext ι δ)
    (world : σ) :
    dispatch env { o with resumePath := none } path ctx world
        (.switch expression cases default) =
      match env.caseIdx expression ctx cases.length with
      | none => ⟨.failed, ctx, world, []⟩
      | some none => catchError (rethrow (runSteps env ({ o with resumePath := none }.within path
          fun i => .inSwitch (-1) i) none 0 ctx world default))
      | some (some n) => catchError (rethrow (runCase env { o with resumePath := none } path n
          (runSteps env ({ o with resumePath := none }.within path fun i => .inSwitch n i) none 0
            ctx world default) ctx world n cases)) := by
  rw [dispatch]
  rfl

theorem dispatch_loop_fresh (type : LoopType) (spec : α) (maxIterations : Nat)
    (steps : List (Action α)) (o : RunStepsOptions) (path : StepPath) (ctx : RuntimeContext ι δ)
    (world : σ) :
    dispatch env { o with resumePath := none } path ctx world
        (.loop type spec maxIterations steps) =
      match loopBounds env type spec maxIterations ctx with
      | none => ⟨.threw .error, ctx, world, []⟩
      | some (items, bound) => runIterations env type spec items none
          (fun i ctx world => runSteps env ({ o with resumePath := none }.within path
            fun c => .inLoop i c) none 0 ctx world steps) bound 0 ctx world := by
  have hplain : ∀ i, buildChildOptions { o with resumePath := none } path i =
      { o with resumePath := none }.within path fun c => .inLoop i c :=
    fun i => buildChildOptions_of_ne nofun
  rw [dispatch]
  simp only [hplain]
  rfl

/-- Every action continues after a checkpoint in it, by its containers. -/
theorem resumesStep (hobserves : Observes env) (step : Action α) : ResumesStep env step := by
  induction step using Action.ind with
  | leaf action =>
    intro o path ctx world rel ctx' w pre post c h hw
    rw [dispatch] at h
    cases pre with
    | nil => cases h
    | cons e pre =>
      have hnil := (List.cons.inj h).2
      cases pre <;> cases hnil
  | ifAction condition thenSteps elseSteps ihthen ihelse =>
    intro o path ctx world rel ctx' w pre post c h hw
    have hworld := hobserves condition ctx world
    rw [dispatch_if_fresh] at h ⊢
    generalize env.evaluate condition ctx world = met at hworld h ⊢
    obtain ⟨met, world'⟩ := met
    obtain rfl : world' = world := hworld
    cases met with
    | none => cases pre <;> cases h
    | some met =>
      cases met with
      | true =>
        dsimp only at h ⊢
        rw [events_rethrow] at h
        obtain ⟨⟨j, rel', rfl⟩, hcontinues⟩ := within_continues hobserves ihthen
          (rising_inIf .thenSteps) (fun _ => rfl) o ctx' h hw
        rw [StepResumes, dispatch, resumeBranch_nextPendingPath]
        exact hcontinues.rethrow
      | false =>
        dsimp only at h ⊢
        rw [events_rethrow] at h
        obtain ⟨⟨j, rel', rfl⟩, hcontinues⟩ := within_continues hobserves ihelse
          (rising_inIf .elseSteps) (fun _ => rfl) o ctx' h hw
        rw [StepResumes, dispatch, resumeBranch_nextPendingPath]
        exact hcontinues.rethrow
  | loop type spec maxIterations steps ih =>
    intro o path ctx world rel ctx' w pre post c h hw
    have hplain : ∀ i, buildChildOptions { o with resumePath := none } path i =
        { o with resumePath := none }.within path fun c => .inLoop i c :=
      fun i => buildChildOptions_of_ne (fun h => by cases h)
    rw [dispatch_loop_fresh] at h ⊢
    rw [StepResumes]
    cases hbounds : loopBounds env type spec maxIterations ctx with
    | none =>
      rw [hbounds] at h
      cases pre <;> cases h
    | some bounds =>
      obtain ⟨items, bound⟩ := bounds
      rw [hbounds] at h
      dsimp only at h ⊢
      have hgood : ∀ i ctx world, From o.reports path (fun c => .inLoop i c) 0
            (runSteps env ({ o with resumePath := none }.within path fun c => .inLoop i c) none 0 ctx
              world steps).events ∧
          (runSteps env ({ o with resumePath := none }.within path fun c => .inLoop i c) none 0 ctx
              world steps).events.Pairwise Follows :=
        fun i ctx world => @runSteps_good _ _ _ _ env steps (fun s _ => goodStep env s)
          ({ o with resumePath := none }.within path fun c => .inLoop i c) (rising_inLoop i) none 0
          ctx world
      -- the iteration of the checkpoint
      obtain ⟨-, iter, -, childIdx, hprefix⟩ := (@runIterations_good _ _ _ _ env path type spec items
        none o.reports _ hgood bound 0 ctx world).1 (.stepComplete (path ++ rel) c)
        (by rw [h]; exact mem_append_right _ mem_cons_self) _ rfl
      obtain ⟨rel', rfl⟩ := cons_of_prefix hprefix
      have hiter := resumeIter_nextPendingPath iter childIdx rel'
      have hcontinues := @runIterations_continues _ _ _ _ env hobserves type spec items iter o.reports
        path (.inLoop iter childIdx :: rel') _
        (fun i ctx world => runSteps env
          (buildChildOptions { o with
            resumePath := some (nextPendingPath (.inLoop iter childIdx :: rel')) } path i)
          (buildChildOptions { o with
            resumePath := some (nextPendingPath (.inLoop iter childIdx :: rel')) } path i).resumePath
          0 ctx world steps)
        (fun ctx world ctx' => ListResumes env
          ({ o with resumePath := none }.within path fun c => .inLoop iter c) 0 ctx world
          (.inLoop iter childIdx :: rel') ctx' w steps)
        w post c childIdx rel' rfl hgood
        (fun i ctx world => runSteps_tracks (fun s _ => tracksStep hobserves s) _ none 0 ctx world)
        (fun i hi => by
          funext ctx world
          rw [buildChildOptions_of_ne (fun heq => by
            have hsame := mem_unique hiter heq
            omega)]
          rfl)
        (fun ctx world ctx' pre post h hw => by
          rw [buildChildOptions_self hiter]
          exact (within_continues hobserves ih (rising_inLoop iter) (fun _ => rfl) o ctx' h hw).2)
        bound 0 ctx world ctx' pre h hw
      refine ⟨hcontinues.stopped, fun ha hresumes => ?_⟩
      obtain ⟨hsame, hway⟩ := hresumes
      simp only [hplain] at hway
      rw [dispatch]
      simp only [hsame, hiter]
      exact hcontinues.resumed ha hway
  | switch expression cases default ihcases ihdefault =>
    intro o path ctx world rel ctx' w pre post c h hw
    have hdefault : ∀ caseIdx, (runSteps env ({ o with resumePath := none }.within path
          fun i => .inSwitch caseIdx i) none 0 ctx world default).events =
        pre ++ .stepComplete (path ++ rel) c :: post → _ :=
      fun caseIdx h => within_continues hobserves ihdefault (rising_inSwitch caseIdx) (fun _ => rfl) o
        ctx' h hw
    rw [dispatch_switch_fresh] at h ⊢
    cases hcase : env.caseIdx expression ctx cases.length with
    | none =>
      rw [hcase] at h
      cases pre <;> cases h
    | some caseIdx =>
      cases caseIdx with
      | none =>
        rw [hcase] at h
        dsimp only at h ⊢
        rw [events_catchError, events_rethrow] at h
        obtain ⟨⟨j, rel', rfl⟩, hcontinues⟩ := hdefault (-1) h
        rw [StepResumes, dispatch, resumeCase_nextPendingPath]
        exact hcontinues.rethrow.catchError
      | some n =>
        rw [hcase] at h
        dsimp only at h ⊢
        rw [events_catchError, events_rethrow] at h
        obtain ⟨⟨j, rel', rfl⟩, hcontinues⟩ := runCase_continues hobserves ihcases o ctx'
          (hdefault n) n h hw
        have hn : (0 : Int) ≤ n := Int.natCast_nonneg n
        rw [StepResumes, dispatch, resumeCase_nextPendingPath]
        simp only [resumeCase, if_pos hn, Int.toNat_natCast]
        exact hcontinues.rethrow.catchError
  | group steps ih =>
    intro o path ctx world rel ctx' w pre post c h hw
    rw [dispatch, events_catchError, events_rethrow] at h
    obtain ⟨-, hcontinues⟩ := within_continues hobserves ih rising_inGroup (fun _ => rfl) o ctx' h hw
    rw [dispatch, StepResumes, dispatch]
    exact hcontinues.rethrow.catchError

theorem leaves_of_aborted (h : env.aborted w) (o : RunStepsOptions)
    (pending : Option StepPath) (steps : List (Action α)) (ctx : RuntimeContext ι δ) :
    leaves (runSteps env o pending 0 ctx w steps).events = [] := by
  obtain ⟨result, hrun⟩ := runSteps_of_aborted h o pending steps 0 ctx
  rw [hrun]
  rfl

end Runs

/-- The main steps resumed after a checkpoint, in the world of the checkpoint, run the leaf actions
that the uninterrupted run had left, in the same contexts, if the way back leads to the checkpoint. -/
theorem resume_continues (env : Env α ι δ σ) (hobserves : Observes env) (steps : List (Action α))
    (ctx : RuntimeContext ι δ) (world : σ) (pre post : List (Event α ι δ)) (p : StepPath)
    (c ctx' : RuntimeContext ι δ)
    (h : (runSteps env (mainOptions none) none 0 ctx world steps).events = pre ++ .stepComplete p c :: post)
    (hresumes : env.aborted (worldAfter env world pre) = true ∨
      ListResumes env (mainOptions none) 0 ctx world p ctx' (worldAfter env world pre) steps) :
    leaves (runSteps env (mainOptions (some (nextPendingPath p))) (some (nextPendingPath p)) 0 ctx'
      (worldAfter env world pre) steps).events = leaves post := by
  have hcontinues := @runSteps_continues _ _ _ _ env hobserves steps
    (fun s _ => resumesStep hobserves s) (mainOptions none) rising_top (fun _ => rfl) p ctx'
    (worldAfter env world pre) post c 0 ctx world pre h rfl
  cases haborted : env.aborted (worldAfter env world pre) with
  | true => rw [leaves_of_aborted haborted, (hcontinues.stopped haborted).1]
  | false =>
    have hway := hresumes.resolve_left (by rw [haborted]; exact Bool.false_ne_true)
    exact congrArg (fun r => leaves (Outcome.events r)) (hcontinues.resumed haborted hway)

/-- A loop of two leaves, resumed after the first without the index of the loop. -/
theorem resume_continues_loop :
    leaves (runSteps doneEnv (mainOptions (some (nextPendingPath [.top 0, .inLoop 0 0])))
      (some (nextPendingPath [.top 0, .inLoop 0 0])) 0 emptyCtx
      (worldAfter doneEnv () [.leaf () { emptyCtx with loopIndex := some 0 }])
      [.loop .fixedCount () 100 [.leaf (), .leaf ()]]).events =
    leaves [.leaf () { emptyCtx with loopIndex := some 0 },
      .stepComplete [.top 0, .inLoop 0 1] { emptyCtx with loopIndex := some 0 },
      .stepComplete [.top 0] { emptyCtx with loopIndex := some 0 }] := by
  refine resume_continues doneEnv (fun _ _ _ => rfl) [.loop .fixedCount () 100 [.leaf (), .leaf ()]]
    emptyCtx () [.leaf () { emptyCtx with loopIndex := some 0 }] _ _
    { emptyCtx with loopIndex := some 0 } emptyCtx rfl (.inr ?_)
  simp [ListResumes, StepResumes, IterationsResume, mainOptions, loopBounds, loopHolds, doneEnv,
    resumeIter, StepPathFrame.childIdx, buildChildOptions, enterIteration, IgnoresStale, dispatch]

/-- A group to resume at loses its first step. -/
theorem group_loses_step : ¬ ∀ pre post p c, (runSteps doneEnv (mainOptions none) none 0 emptyCtx ()
          [.leaf (), .group [.leaf (), .leaf ()]]).events = pre ++ .stepComplete p c :: post →
        leaves (runSteps doneEnv (mainOptions (some (nextPendingPath p)))
          (some (nextPendingPath p)) 0 c (worldAfter doneEnv () pre)
          [.leaf (), .group [.leaf (), .leaf ()]]).events = leaves post := by
  intro h
  have hleaves := congrArg List.length (h [.leaf () emptyCtx] _ [.top 0] emptyCtx rfl)
  cases hleaves

end Engine

end Aegis
