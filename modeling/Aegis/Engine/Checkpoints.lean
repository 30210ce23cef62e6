import Aegis.Engine.Executor

/-!
# Engine.Checkpoints

The order of the checkpoints of a run.

The steps of a list are passed in order, and a container after its children: of two checkpoints the
later one is at the same path, further on, or the completion of a container around the earlier one
(`Follows`). So where no container is completed after a checkpoint inside it, and no hook gives a
checkpoint after the main steps, the checkpoints never move backwards (`checkpoints_advance`).
-/

namespace Aegis

open List Option

namespace Engine

variable {α ι δ σ : Type}

namespace Event

def checkpoint : Event α ι δ → Option StepPath
  | stepStart path | stepComplete path _ | hook path => some path
  | stepFailure _ | leaf _ _ => none

def isStep : Event α ι δ → Bool
  | stepStart _ | stepComplete _ _ => true
  | _ => false

def isComplete : Event α ι δ → Bool
  | stepComplete _ _ => true
  | _ => false

def isHook : Event α ι δ → Bool
  | hook _ => true
  | _ => false

theorem isStep_of_isComplete {e : Event α ι δ} (h : e.isComplete) : e.isStep = true := by
  cases e <;> first | rfl | cases h

theorem isHook_of_isStep {e : Event α ι δ} (h : e.isStep) : e.isHook = false := by
  cases e <;> first | rfl | cases h

end Event

/-! ## Orders -/

/-- `q` is inside the container at `p`. -/
def Inside (p q : StepPath) : Prop := p <+: q ∧ p ≠ q

/-- `q` comes after `p`, and not inside it. -/
def Advances (p q : StepPath) : Prop := comparePath p q = .lt ∧ ¬ p <+: q

/-- A checkpoint that advances, repeats, or completes a container around the last one. -/
def Follows (a b : Event α ι δ) : Prop :=
  ∀ p q, a.checkpoint = some p → b.checkpoint = some q →
    Advances p q ∨ p = q ∨ (b.isComplete = true ∧ Inside q p)

def Reported (reports : Bool) (e : Event α ι δ) : Prop := reports = true ∧ e.isStep = true

/-- Every checkpoint is at a step below `path`. -/
def Below (reports : Bool) (path : StepPath) (events : List (Event α ι δ)) : Prop :=
  ∀ e ∈ events, ∀ p, e.checkpoint = some p → Reported reports e ∧ Inside path p

/-- Every checkpoint is at or below one of the frames from `i` on. -/
def From (reports : Bool) (path : StepPath) (frameFor : Nat → StepPathFrame) (i : Nat)
    (events : List (Event α ι δ)) : Prop :=
  ∀ e ∈ events, ∀ p, e.checkpoint = some p → Reported reports e ∧ ∃ j, i ≤ j ∧ path ++ [frameFor j] <+: p

/-- Later children have later frames. -/
def Rising (frameFor : Nat → StepPathFrame) : Prop :=
  ∀ i j, i < j → compareFrame (frameFor i) (frameFor j) = .lt

theorem rising_of {frameFor : Nat → StepPathFrame}
    (hframe : ∀ i j : Nat, frameFor j = (frameFor i).withChildIdx j)
    (hidx : ∀ i : Nat, (frameFor i).childIdx = i) : Rising frameFor := by
  intro i j h
  rw [hframe i j]
  exact compareFrame_withChildIdx (frameFor i) (by rw [hidx]; omega)

theorem rising_top : Rising fun i => .top i := rising_of (fun _ _ => rfl) fun _ => rfl

theorem rising_inIf (branch : Branch) : Rising fun i => .inIf branch i :=
  rising_of (fun _ _ => rfl) fun _ => rfl

theorem rising_inLoop (iter : Nat) : Rising fun i => .inLoop iter i :=
  rising_of (fun _ _ => rfl) fun _ => rfl

theorem rising_inSwitch (caseIdx : Int) : Rising fun i => .inSwitch caseIdx i :=
  rising_of (fun _ _ => rfl) fun _ => rfl

theorem rising_inGroup : Rising fun i => .inGroup i := rising_of (fun _ _ => rfl) fun _ => rfl

section Orders

variable {p q r path : StepPath} {reports : Bool} {f g : StepPathFrame}
  {frameFor : Nat → StepPathFrame} {i : Nat} {events : List (Event α ι δ)}

theorem advances_of_frames (h : compareFrame f g = .lt) (hp : path ++ [f] <+: p)
    (hq : path ++ [g] <+: q) : Advances p q := by
  obtain ⟨s, rfl⟩ := hp
  obtain ⟨t, rfl⟩ := hq
  rw [append_assoc, append_assoc, singleton_append, singleton_append]
  refine ⟨comparePath_of_frame path h, fun hprefix => ?_⟩
  have hcons := (prefix_append_right_inj path).mp hprefix
  obtain rfl := (cons_prefix_cons.mp hcons).1
  rw [compareFrame_self] at h
  cases h

theorem From.mono {j : Nat} (hij : j ≤ i) (h : From reports path frameFor i events) :
    From reports path frameFor j events := by
  intro e he p hp
  obtain ⟨hreports, k, hk, hprefix⟩ := h e he p hp
  exact ⟨hreports, k, Nat.le_trans hij hk, hprefix⟩

theorem From.below (h : From reports path frameFor i events) : Below reports path events := by
  intro e he p hp
  obtain ⟨hreports, j, -, s, rfl⟩ := h e he p hp
  refine ⟨hreports, ⟨⟨[frameFor j] ++ s, by rw [append_assoc]⟩, fun heq => ?_⟩⟩
  have hlength := congrArg List.length heq
  simp at hlength

theorem from_nil : From reports path frameFor i ([] : List (Event α ι δ)) :=
  fun _ h => absurd h not_mem_nil

theorem From.append {events' : List (Event α ι δ)} (h : From reports path frameFor i events)
    (h' : From reports path frameFor i events') :
    From reports path frameFor i (events ++ events') := by
  intro e he
  rcases mem_append.mp he with he | he
  · exact h e he
  · exact h' e he

theorem pairwise_append_from (hrising : Rising frameFor) {events' : List (Event α ι δ)}
    (hat : ∀ e ∈ events, ∀ p, e.checkpoint = some p → path ++ [frameFor i] <+: p)
    (h : events.Pairwise Follows) (hfrom : From reports path frameFor (i + 1) events')
    (h' : events'.Pairwise Follows) : (events ++ events').Pairwise Follows := by
  refine pairwise_append.mpr ⟨h, h', fun a ha b hb p q hp hq => .inl ?_⟩
  obtain ⟨-, j, hij, hprefix⟩ := hfrom b hb q hq
  exact advances_of_frames (hrising i j (by omega)) (hat a ha p hp) hprefix

end Orders

section Runs

variable {env : Env α ι δ σ} {path : StepPath}

/-- The events are below `path` and follow one another. -/
structure Good (reports : Bool) (path : StepPath) (events : List (Event α ι δ)) : Prop where
  below : Below reports path events
  follows : events.Pairwise Follows

theorem good_nil {reports : Bool} : Good reports path ([] : List (Event α ι δ)) :=
  ⟨fun _ h => absurd h not_mem_nil, List.Pairwise.nil⟩

def GoodStep (env : Env α ι δ σ) (step : Action α) : Prop :=
  ∀ (o : RunStepsOptions) path ctx world,
    Good o.reports path (dispatch env o path ctx world step).events

theorem step_follows {reports : Bool} {start inner tail : List (Event α ι δ)} (hstart : start = [] ∨
      (start = [.stepStart path] ∧ reports = true ∧ ∀ e ∈ inner, e.checkpoint = none))
    (hinner : Good reports path inner) (hshort : tail.length ≤ 1)
    (htail : ∀ e ∈ tail, ∀ p, e.checkpoint = some p → reports = true ∧ p = path ∧ e.isComplete = true) :
    (∀ e ∈ start ++ inner ++ tail, ∀ p, e.checkpoint = some p → Reported reports e ∧ path <+: p) ∧
      (start ++ inner ++ tail).Pairwise Follows := by
  have htailFollows : tail.Pairwise Follows := by
    match tail, hshort with
    | [], _ => exact List.Pairwise.nil
    | [e], _ => exact pairwise_singleton _ _
  have hend : ∀ a ∈ inner, ∀ b ∈ tail, Follows a b := by
    intro a ha b hb p q hp hq
    obtain ⟨-, rfl, hcomplete⟩ := htail b hb q hq
    exact .inr (.inr ⟨hcomplete, (hinner.below a ha p hp).2⟩)
  have hrest : (inner ++ tail).Pairwise Follows :=
    pairwise_append.mpr ⟨hinner.follows, htailFollows, hend⟩
  have hat : ∀ e ∈ inner ++ tail, ∀ p, e.checkpoint = some p → Reported reports e ∧ path <+: p := by
    intro e he p hp
    rcases mem_append.mp he with he | he
    · obtain ⟨hreports, hprefix, -⟩ := hinner.below e he p hp
      exact ⟨hreports, hprefix⟩
    · obtain ⟨hreports, rfl, hcomplete⟩ := htail e he p hp
      exact ⟨⟨hreports, Event.isStep_of_isComplete hcomplete⟩, prefix_refl p⟩
  rw [append_assoc]
  rcases hstart with rfl | ⟨rfl, hreports, hnone⟩
  · exact ⟨hat, hrest⟩
  · rw [singleton_append]
    constructor
    · intro e he p hp
      rcases mem_cons.mp he with rfl | he
      · exact ⟨⟨hreports, rfl⟩, some.inj hp ▸ prefix_refl _⟩
      · exact hat e he p hp
    · refine pairwise_cons.mpr ⟨fun b hb p q hp hq => ?_, hrest⟩
      cases hp
      rcases mem_append.mp hb with hb | hb
      · rw [hnone b hb] at hq
        cases hq
      · obtain ⟨-, rfl, -⟩ := htail b hb q hq
        exact .inr (.inl rfl)

theorem runSteps_good {steps : List (Action α)} (hsteps : ∀ s ∈ steps, GoodStep env s)
    {o : RunStepsOptions} (hrising : Rising o.frameFor) (pending : Option StepPath) (i : Nat)
    (ctx : RuntimeContext ι δ) (world : σ) :
    From o.reports o.pathPrefix o.frameFor i (runSteps env o pending i ctx world steps).events ∧
      (runSteps env o pending i ctx world steps).events.Pairwise Follows := by
  induction steps generalizing pending i ctx world with
  | nil => exact ⟨from_nil, List.Pairwise.nil⟩
  | cons step rest ih =>
    obtain ⟨hstep, hrest⟩ := forall_mem_cons.mp hsteps
    rw [runSteps]
    split
    · obtain ⟨hfrom, hfollows⟩ := ih hrest pending (i + 1) ctx world
      exact ⟨hfrom.mono (by omega), hfollows⟩
    split
    · exact ⟨from_nil, List.Pairwise.nil⟩
    dsimp only
    have hgood := hstep { o with resumePath := dispatchResume o.resumePath pending i }
      (o.pathPrefix ++ [o.frameFor i]) ctx world
    generalize hr : dispatch env { o with resumePath := dispatchResume o.resumePath pending i }
      (o.pathPrefix ++ [o.frameFor i]) ctx world step = r at hgood ⊢
    have hstart : ∀ start : List (Event α ι δ), start = (if (o.reports && mayNavigate env step) = true then
          [.stepStart (o.pathPrefix ++ [o.frameFor i])] else []) →
        start = [] ∨ (start = [.stepStart (o.pathPrefix ++ [o.frameFor i])] ∧ o.reports = true ∧
          ∀ e ∈ r.events, e.checkpoint = none) := by
      rintro start rfl
      by_cases hreported : (o.reports && mayNavigate env step)
      · rw [if_pos hreported]
        rw [Bool.and_eq_true] at hreported
        refine .inr ⟨rfl, hreported.1, ?_⟩
        cases step with
        | leaf action =>
          subst hr
          rw [dispatch]
          intro e he
          rw [mem_singleton.mp he]
          rfl
        | _ => cases hreported.2
      · rw [if_neg hreported]
        exact .inl rfl
    have hfrom : ∀ events : List (Event α ι δ),
        (∀ e ∈ events, ∀ p, e.checkpoint = some p →
          Reported o.reports e ∧ o.pathPrefix ++ [o.frameFor i] <+: p) →
        From o.reports o.pathPrefix o.frameFor i events :=
      fun events h e he p hp => ⟨(h e he p hp).1, i, Nat.le_refl i, (h e he p hp).2⟩
    split
    · -- the step is done, and the others follow
      obtain ⟨hat, hblock⟩ := @step_follows _ _ _ _ o.reports _ r.events
        (if o.reports then [.stepComplete (o.pathPrefix ++ [o.frameFor i]) r.ctx] else [])
        (hstart _ rfl) hgood (by split <;> simp) (by
          intro e he p hp
          split at he
          · rename_i hreports
            rw [mem_singleton.mp he] at hp ⊢
            exact ⟨hreports, (some.inj hp).symm, rfl⟩
          · cases he)
      obtain ⟨hrestFrom, hrestFollows⟩ := ih hrest
        (if isResumeTarget pending i then none else pending) (i + 1) r.ctx r.world
      exact ⟨(hfrom _ hat).append (hrestFrom.mono (by omega)),
        pairwise_append_from hrising (fun e he p hp => (hat e he p hp).2) hblock hrestFrom
          hrestFollows⟩
    · obtain ⟨hat, hblock⟩ := @step_follows _ _ _ _ o.reports _ r.events
        (if (o.reports && mayNavigate env step) = true then
          [.stepFailure (o.pathPrefix ++ [o.frameFor i])] else [])
        (hstart _ rfl) hgood (by split <;> simp) (by
          intro e he p hp
          split at he
          · rw [mem_singleton.mp he] at hp
            cases hp
          · cases he)
      exact ⟨hfrom _ hat, hblock⟩
    · obtain ⟨hat, hblock⟩ := @step_follows _ _ _ _ o.reports _ r.events [] (hstart _ rfl) hgood
        (by simp) (fun e he => absurd he not_mem_nil)
      rw [append_nil] at hat hblock
      exact ⟨hfrom _ hat, hblock⟩

@[simp] theorem events_rethrow (r : Outcome α ι δ σ) : (rethrow r).events = r.events := by
  unfold rethrow
  split <;> rfl

@[simp] theorem events_catchError (r : Outcome α ι δ σ) : (catchError r).events = r.events := by
  unfold catchError
  split <;> rfl

theorem runSteps_within {steps : List (Action α)} (hsteps : ∀ s ∈ steps, GoodStep env s)
    {frameFor : Nat → StepPathFrame} (hrising : Rising frameFor) (o : RunStepsOptions)
    (pending : Option StepPath) (ctx : RuntimeContext ι δ) (world : σ) :
    Good o.reports path (runSteps env (o.within path frameFor) pending 0 ctx world steps).events := by
  obtain ⟨hfrom, hfollows⟩ :=
    @runSteps_good _ _ _ _ env steps hsteps (o.within path frameFor) hrising pending 0 ctx world
  exact ⟨hfrom.below, hfollows⟩

theorem runCase_good {cases : List (List (Action α))}
    (hcases : ∀ steps ∈ cases, ∀ s ∈ steps, GoodStep env s) (o : RunStepsOptions) (caseIdx : Int)
    {otherwise : Outcome α ι δ σ} (hotherwise : Good o.reports path otherwise.events)
    (ctx : RuntimeContext ι δ) (world : σ) (n : Nat) :
    Good o.reports path (runCase env o path caseIdx otherwise ctx world n cases).events := by
  induction cases generalizing n with
  | nil => cases n <;> exact hotherwise
  | cons steps cases ih =>
    obtain ⟨hsteps, hcases⟩ := forall_mem_cons.mp hcases
    cases n with
    | zero =>
      rw [runCase]
      exact runSteps_within hsteps (rising_inSwitch caseIdx) o o.resumePath ctx world
    | succ n =>
      rw [runCase]
      exact ih hcases n

/-- Every checkpoint is in one of the iterations from `i` on. -/
def FromIteration (reports : Bool) (path : StepPath) (i : Nat) (events : List (Event α ι δ)) : Prop :=
  ∀ e ∈ events, ∀ p, e.checkpoint = some p → Reported reports e ∧
    ∃ k, i ≤ k ∧ ∃ c, path ++ [.inLoop k c] <+: p

theorem FromIteration.below {reports : Bool} {i : Nat} {events : List (Event α ι δ)}
    (h : FromIteration reports path i events) : Below reports path events := by
  intro e he p hp
  obtain ⟨hreports, k, -, c, s, rfl⟩ := h e he p hp
  refine ⟨hreports, ⟨⟨[.inLoop k c] ++ s, by rw [append_assoc]⟩, fun heq => ?_⟩⟩
  have hlength := congrArg List.length heq
  simp at hlength

theorem runIterations_good {type : LoopType} {spec : α} {items : List ι} {resume : Option Nat}
    {reports : Bool} {body : Nat → RuntimeContext ι δ → σ → Outcome α ι δ σ}
    (hbody : ∀ i ctx world, From reports path (fun c => .inLoop i c) 0 (body i ctx world).events ∧
      (body i ctx world).events.Pairwise Follows) (fuel i : Nat) (ctx : RuntimeContext ι δ)
    (world : σ) :
    FromIteration reports path i
        (runIterations env type spec items resume body fuel i ctx world).events ∧
      (runIterations env type spec items resume body fuel i ctx world).events.Pairwise Follows := by
  induction fuel generalizing i ctx world with
  | zero => exact ⟨fun _ h => absurd h not_mem_nil, List.Pairwise.nil⟩
  | succ fuel ih =>
    have hnil : FromIteration reports path i ([] : List (Event α ι δ)) ∧
        ([] : List (Event α ι δ)).Pairwise Follows :=
      ⟨fun _ h => absurd h not_mem_nil, List.Pairwise.nil⟩
    have hlater : ∀ {events : List (Event α ι δ)}, FromIteration reports path (i + 1) events →
        FromIteration reports path i events := by
      intro events h e he p hp
      obtain ⟨hreports, k, hk, c, hprefix⟩ := h e he p hp
      exact ⟨hreports, k, by omega, c, hprefix⟩
    rw [runIterations]
    split
    · exact hnil
    split
    · exact hnil
    · exact hnil
    dsimp only
    split
    · obtain ⟨hfrom, hfollows⟩ := ih (i + 1) (enterIteration type items i ctx) _
      exact ⟨hlater hfrom, hfollows⟩
    rename_i world' _ _
    obtain ⟨hfrom, hfollows⟩ := hbody i (enterIteration type items i ctx) world'
    have hhere : FromIteration reports path i
        (body i (enterIteration type items i ctx) world').events := by
      intro e he p hp
      obtain ⟨hreports, c, -, hprefix⟩ := hfrom e he p hp
      exact ⟨hreports, i, Nat.le_refl i, c, hprefix⟩
    -- the iterations that follow come later
    have happend : ∀ (ctx' : RuntimeContext ι δ) (world : σ),
        FromIteration reports path i ((body i (enterIteration type items i ctx) world').events ++
          (runIterations env type spec items resume body fuel (i + 1) ctx' world).events) ∧
        ((body i (enterIteration type items i ctx) world').events ++
          (runIterations env type spec items resume body fuel (i + 1) ctx' world).events).Pairwise
            Follows := by
      intro ctx' world
      obtain ⟨hfrom', hfollows'⟩ := ih (i + 1) ctx' world
      constructor
      · intro e he
        rcases mem_append.mp he with he | he
        · exact hhere e he
        · exact hlater hfrom' e he
      · refine pairwise_append.mpr ⟨hfollows, hfollows', fun a ha b hb p q hp hq => .inl ?_⟩
        obtain ⟨-, c, -, hpre⟩ := hfrom a ha p hp
        obtain ⟨-, k, hk, c', hpre'⟩ := hfrom' b hb q hq
        refine advances_of_frames ?_ hpre hpre'
        have hlt : compareNumbers i k = .lt := compareNumbers_eq_lt.mpr (by omega)
        simp [compareFrame, StepPathFrame.tuple, compareLists, compareNumbers_self, hlt]
    split
    · exact happend _ _
    · exact happend _ _
    all_goals exact ⟨hhere, hfollows⟩

theorem goodStep (env : Env α ι δ σ) (step : Action α) : GoodStep env step := by
  induction step using Action.ind with
  | leaf action =>
    intro o path ctx world
    rw [dispatch]
    refine ⟨fun e he p hp => ?_, pairwise_singleton _ _⟩
    rw [mem_singleton.mp he] at hp
    cases hp
  | ifAction condition thenSteps elseSteps ihthen ihelse =>
    intro o path ctx world
    have hthen := fun world : σ => @runSteps_within _ _ _ _ env path _ ihthen _
      (rising_inIf .thenSteps) o o.resumePath ctx world
    have helse := fun world : σ => @runSteps_within _ _ _ _ env path _ ihelse _
      (rising_inIf .elseSteps) o o.resumePath ctx world
    rw [dispatch]
    dsimp only
    split
    · rw [events_rethrow]
      exact hthen world
    · rw [events_rethrow]
      exact helse world
    · split
      · exact good_nil
      · rw [events_rethrow]
        exact hthen _
      · rw [events_rethrow]
        exact helse _
  | loop type spec maxIterations steps ih =>
    intro o path ctx world
    rw [dispatch]
    split
    · exact good_nil
    · -- the steps of an iteration, with the resume path where it is the one to resume
      have hbody : ∀ (i : Nat) (ctx : RuntimeContext ι δ) (world : σ),
          From o.reports path (fun c => .inLoop i c) 0
            (runSteps env (buildChildOptions o path i) (buildChildOptions o path i).resumePath 0
              ctx world steps).events ∧
          (runSteps env (buildChildOptions o path i) (buildChildOptions o path i).resumePath 0
              ctx world steps).events.Pairwise Follows :=
        fun i ctx world => runSteps_good ih (rising_inLoop i) _ 0 ctx world
      obtain ⟨hfrom, hfollows⟩ := @runIterations_good _ _ _ _ env path type spec _
        (resumeIter o.resumePath) o.reports _ hbody _ 0 ctx world
      exact ⟨hfrom.below, hfollows⟩
  | switch expression cases default ihcases ihdefault =>
    intro o path ctx world
    have hdefault := fun caseIdx => @runSteps_within _ _ _ _ env path _ ihdefault _
      (rising_inSwitch caseIdx) o o.resumePath ctx world
    rw [dispatch]
    dsimp only
    split
    · rw [events_catchError, events_rethrow]
      split
      · exact runCase_good ihcases o _ (hdefault _) ctx world _
      · exact hdefault _
    · split
      · exact good_nil
      · rw [events_catchError, events_rethrow]
        exact hdefault _
      · rw [events_catchError, events_rethrow]
        exact runCase_good ihcases o _ (hdefault _) ctx world _
  | group steps ih =>
    intro o path ctx world
    rw [dispatch, events_catchError, events_rethrow]
    exact runSteps_within ih rising_inGroup o o.resumePath ctx world

end Runs

/-! ## Rules -/

/-- The checkpoints never move backwards: a later one at another path is further on, and the resume
position never returns to a step that an earlier one recorded. -/
def NeverBack (events : List (Event α ι δ)) : Prop :=
  events.Pairwise fun a b => ∀ p q, a.checkpoint = some p → b.checkpoint = some q →
    (p ≠ q → comparePath p q = .lt) ∧ (p ≠ [] → Advances p (nextPendingPath q))

/-- After the checkpoint of a step no container around it is completed, and hooks are recorded at
its path. -/
def Climbs (events : List (Event α ι δ)) : Prop :=
  events.Pairwise fun a b => ∀ p q, a.isStep = true → a.checkpoint = some p →
    b.checkpoint = some q → (b.isComplete = true → ¬ Inside q p) ∧ (b.isHook = true → q = p)

/-- Every checkpoint is one of a hook, at `path`. -/
def AtHook (path : StepPath) (events : List (Event α ι δ)) : Prop :=
  ∀ e ∈ events, ∀ p, e.checkpoint = some p → e.isHook = true ∧ p = path

/-- The checkpoints of the hooks before the main steps, of these, and of the hooks after them. -/
structure Staged (path : StepPath) (early main late : List (Event α ι δ)) : Prop where
  first : AtHook [] early
  steps : From true [] (fun i => .top i) 0 main
  follows : main.Pairwise Follows
  last : AtHook path late

section Paths

variable {p q : StepPath}

theorem comparePath_irrefl (h : comparePath p p = .lt) : False := by
  rw [comparePath_self] at h
  cases h

theorem comparePath_of_inside (h : Inside p q) : comparePath p q = .lt := by
  obtain ⟨⟨s, rfl⟩, hne⟩ := h
  refine comparePath_append p fun hs => hne ?_
  rw [hs, append_nil]

theorem inside_of_prefix_nextPendingPath (hp : p ≠ []) (h : p <+: nextPendingPath q) :
    p = nextPendingPath q ∨ Inside p q := by
  cases q using List.reverseRecOn with
  | nil =>
    rcases prefix_concat_iff.mp (show p <+: [] ++ [.top 0] from h) with h | h
    · exact .inl h
    · exact absurd (prefix_nil.mp h) hp
  | append_singleton q last =>
    rw [nextPendingPath_append] at h ⊢
    rcases prefix_concat_iff.mp h with h | h
    · exact .inl h
    · refine .inr ⟨h.trans (prefix_append q [last]), fun heq => ?_⟩
      have hlength := h.length_le
      rw [heq, length_append, length_singleton] at hlength
      omega

theorem advances_nextPendingPath (hp : p ≠ []) (h : p = q ∨ Advances p q) :
    Advances p (nextPendingPath q) := by
  have hlt : comparePath p (nextPendingPath q) = .lt := by
    rcases h with rfl | h
    · exact comparePath_nextPendingPath p
    · exact comparePath_trans h.1 (comparePath_nextPendingPath q)
  refine ⟨hlt, fun hprefix => ?_⟩
  rcases inside_of_prefix_nextPendingPath hp hprefix with heq | hinside
  · exact comparePath_irrefl (heq ▸ hlt)
  · rcases h with rfl | h
    · exact hinside.2 rfl
    · exact h.2 hinside.1

end Paths

section Hooks

variable {env : Env α ι δ σ} {path : StepPath}

theorem atHook_nil : AtHook path ([] : List (Event α ι δ)) :=
  fun _ h => absurd h not_mem_nil

theorem AtHook.append {events events' : List (Event α ι δ)} (h : AtHook path events)
    (h' : AtHook path events') : AtHook path (events ++ events') := by
  intro e he
  rcases mem_append.mp he with he | he
  · exact h e he
  · exact h' e he

theorem runHook_events (resumeStepPath : Option StepPath) (steps : List (Action α))
    (p : Progress α ι δ σ) : ∃ events,
      (runHook env resumeStepPath steps p).2.events = p.events ++ events ∧
        AtHook (resumeStepPath.getD []) events := by
  refine ⟨(runSteps env noOptions none 0 p.ctx p.world steps).events ++
    [.hook (resumeStepPath.getD [])], ?_, ?_⟩
  · rw [runHook]
    exact append_assoc _ _ _
  obtain ⟨hfrom, -⟩ := @runSteps_good _ _ _ _ env steps (fun s _ => goodStep env s) noOptions
    rising_top none 0 p.ctx p.world
  intro e he q hq
  rcases mem_append.mp he with he | he
  · cases (hfrom e he q hq).1.1
  · rw [mem_singleton.mp he] at hq ⊢
    exact ⟨rfl, (some.inj hq).symm⟩

theorem runLateHook_events (resumeStepPath : Option StepPath) (hooksCompleted : List HookPhase)
    (phase : HookPhase) (hook : Option (List (Action α))) (p : Progress α ι δ σ) : ∃ events,
      (runLateHook env resumeStepPath hooksCompleted phase hook p).events = p.events ++ events ∧
        AtHook (resumeStepPath.getD []) events := by
  have hnone : ∃ events, p.events = p.events ++ events ∧
      AtHook (resumeStepPath.getD []) events := ⟨[], (append_nil _).symm, atHook_nil⟩
  unfold runLateHook
  cases hook with
  | none => exact hnone
  | some steps =>
    dsimp only
    split
    · exact hnone
    · exact runHook_events resumeStepPath steps p

theorem runLateHooks_events (rule : Rule α) (resumeStepPath : Option StepPath)
    (hooksCompleted : List HookPhase) (p : Progress α ι δ σ) : ∃ events,
      (runLateHooks env rule resumeStepPath hooksCompleted p).events = p.events ++ events ∧
        AtHook (resumeStepPath.getD []) events := by
  unfold runLateHooks
  dsimp only
  obtain ⟨after, hafter, hatAfter⟩ := @runLateHook_events _ _ _ _ env resumeStepPath hooksCompleted
    .afterAll rule.hooks.afterAll p
  generalize runLateHook env resumeStepPath hooksCompleted .afterAll rule.hooks.afterAll p = p₁
    at hafter ⊢
  have herror : ∃ events, (if p₁.fatal = true then
      runLateHook env resumeStepPath hooksCompleted .onError rule.hooks.onError p₁
      else p₁).events = p₁.events ++ events ∧ AtHook (resumeStepPath.getD []) events := by
    split
    · exact runLateHook_events resumeStepPath hooksCompleted _ _ p₁
    · exact ⟨[], (append_nil _).symm, atHook_nil⟩
  obtain ⟨error, herror, hatError⟩ := herror
  obtain ⟨cleanup, hcleanup, hatCleanup⟩ := @runLateHook_events _ _ _ _ env resumeStepPath
    hooksCompleted .cleanup rule.hooks.cleanup (if p₁.fatal = true then
      runLateHook env resumeStepPath hooksCompleted .onError rule.hooks.onError p₁ else p₁)
  refine ⟨after ++ error ++ cleanup, ?_, (hatAfter.append hatError).append hatCleanup⟩
  rw [hcleanup, herror, hafter]
  simp only [append_assoc]

theorem runMain_staged (rule : Rule α) (resumeStepPath : Option StepPath)
    (hooksCompleted : List HookPhase) {p : Progress α ι δ σ} (hearly : AtHook [] p.events) :
    ∃ main late, (runLateHooks env rule resumeStepPath hooksCompleted
        (runMain env resumeStepPath rule.steps p)).events = p.events ++ main ++ late ∧
      Staged (resumeStepPath.getD []) p.events main late := by
  obtain ⟨late, hlate, hat⟩ := @runLateHooks_events _ _ _ _ env rule resumeStepPath hooksCompleted
    (runMain env resumeStepPath rule.steps p)
  obtain ⟨hfrom, hfollows⟩ := @runSteps_good _ _ _ _ env rule.steps (fun s _ => goodStep env s)
    (mainOptions resumeStepPath) rising_top resumeStepPath 0 p.ctx p.world
  exact ⟨_, late, hlate, hearly, hfrom, hfollows, hat⟩

/-- The checkpoints of a run come in three stages: the early hooks, the main steps, the late hooks.
-/
theorem runRule_staged (rule : Rule α) (resumeStepPath : Option StepPath)
    (hooksCompleted : List HookPhase) (ctx : RuntimeContext ι δ) (world : σ) :
    ∃ early main late,
      (runRule env rule resumeStepPath hooksCompleted ctx world).events = early ++ main ++ late ∧
        Staged (resumeStepPath.getD []) early main late := by
  have hmain : ∃ early main late, (runLateHooks env rule resumeStepPath hooksCompleted
      (runMain env resumeStepPath rule.steps ⟨false, ctx, world, []⟩)).events =
        early ++ main ++ late ∧ Staged (resumeStepPath.getD []) early main late :=
    ⟨[], runMain_staged rule resumeStepPath hooksCompleted atHook_nil⟩
  unfold runRule
  dsimp only
  cases rule.hooks.beforeAll with
  | none => exact hmain
  | some steps =>
    dsimp only
    split
    · rename_i hfirst
      obtain ⟨early, hevents, hat⟩ := @runHook_events _ _ _ _ env resumeStepPath steps
        (⟨false, ctx, world, []⟩ : Progress α ι δ σ)
      generalize hhook : runHook env resumeStepPath steps
        (⟨false, ctx, world, []⟩ : Progress α ι δ σ) = r at hevents ⊢
      rw [nil_append] at hevents
      rw [hfirst.1] at hat
      subst hevents
      have hskipped : ∃ early main late,
          (runLateHooks env rule resumeStepPath hooksCompleted r.2).events = early ++ main ++ late ∧
            Staged (resumeStepPath.getD []) early main late := by
        obtain ⟨late, hlate, hatLate⟩ := @runLateHooks_events _ _ _ _ env rule resumeStepPath
          hooksCompleted r.2
        exact ⟨r.2.events, [], late, by rw [hlate, append_nil], hat, from_nil,
          List.Pairwise.nil, hatLate⟩
      obtain ⟨result, p⟩ := r
      have hstopped : ∃ early main late, p.events = early ++ main ++ late ∧
          Staged (resumeStepPath.getD []) early main late :=
        ⟨p.events, [], [], by simp, hat, from_nil, List.Pairwise.nil, atHook_nil⟩
      cases result with
      | done => exact ⟨p.events, runMain_staged rule resumeStepPath hooksCompleted hat⟩
      | failed => exact hstopped
      | threw thrown =>
        cases thrown with
        | exitSignal _ | aborted => exact hskipped
        | _ => exact hstopped
    · exact hmain

end Hooks

section Order

variable {path : StepPath} {early main late : List (Event α ι δ)}

/-- Staged checkpoints that climb never go back. -/
theorem Staged.neverBack (h : Staged path early main late)
    (hclimbs : Climbs (early ++ main ++ late)) : NeverBack (early ++ main ++ late) := by
  have hsame : ∀ p : StepPath, (p ≠ p → comparePath p p = .lt) ∧
      (p ≠ [] → Advances p (nextPendingPath p)) :=
    fun p => ⟨fun hne => absurd rfl hne, fun hp => advances_nextPendingPath hp (.inl rfl)⟩
  -- before the main steps only the root is recorded
  have hroot : ∀ q : StepPath, (([] : StepPath) ≠ q → comparePath [] q = .lt) ∧
      (([] : StepPath) ≠ [] → Advances [] (nextPendingPath q)) := by
    refine fun q => ⟨fun hne => ?_, fun hne => absurd rfl hne⟩
    exact comparePath_append [] (Ne.symm hne)
  obtain ⟨hcearly, hclate, hcross⟩ := pairwise_append.mp hclimbs
  obtain ⟨-, hcmain, -⟩ := pairwise_append.mp hcearly
  refine pairwise_append.mpr ⟨pairwise_append.mpr ⟨?_, ?_, ?_⟩, ?_, ?_⟩
  · refine pairwise_of_forall_mem_list fun a ha b hb p q hp hq => ?_
    rw [(h.first a ha p hp).2]
    exact hroot q
  · -- the later checkpoint is further on or at the same step
    refine (h.follows.and hcmain).imp_of_mem fun {a b} ha hb hab p q hp hq => ?_
    rcases hab.1 p q hp hq with hadvances | rfl | ⟨hcomplete, hinside⟩
    · exact ⟨fun _ => hadvances.1, fun hne => advances_nextPendingPath hne (.inr hadvances)⟩
    · exact hsame p
    · obtain ⟨⟨-, hstep⟩, -⟩ := h.steps a ha p hp
      exact absurd hinside ((hab.2 p q hstep hp hq).1 hcomplete)
  · intro a ha b hb p q hp hq
    rw [(h.first a ha p hp).2]
    exact hroot q
  · refine pairwise_of_forall_mem_list fun a ha b hb p q hp hq => ?_
    rw [(h.last a ha p hp).2, (h.last b hb q hq).2]
    exact hsame path
  · intro a ha b hb p q hp hq
    rcases mem_append.mp ha with ha' | ha'
    · rw [(h.first a ha' p hp).2]
      exact hroot q
    · obtain ⟨⟨-, hstep⟩, -⟩ := h.steps a ha' p hp
      rw [(hcross a ha b hb p q hstep hp hq).2 (h.last b hb q hq).1]
      exact hsame p

/-- In a fresh run they go back nowhere else. -/
theorem Staged.climbs (h : Staged [] early main late)
    (hback : NeverBack (early ++ main ++ late)) : Climbs (early ++ main ++ late) := by
  refine hback.imp_of_mem fun {a b} ha hb hab p q hstep hp hq => ?_
  obtain ⟨hlt, -⟩ := hab p q hp hq
  constructor
  · intro hcomplete hinside
    exact comparePath_irrefl (comparePath_trans (hlt (Ne.symm hinside.2)) (comparePath_of_inside hinside))
  · intro hhook
    have hq : q = [] := by
      rcases mem_append.mp hb with hb | hb
      · rcases mem_append.mp hb with hb | hb
        · exact (h.first b hb q hq).2
        · obtain ⟨⟨-, hstep⟩, -⟩ := h.steps b hb q hq
          rw [Event.isHook_of_isStep hstep] at hhook
          cases hhook
      · exact (h.last b hb q hq).2
    subst hq
    by_contra hne
    have hlt := hlt (Ne.symm hne)
    cases p with
    | nil => exact hne rfl
    | cons f p => cases hlt

end Order

/-- The checkpoints of a run of a rule, fresh or resumed, never move backwards where no container is
completed after a checkpoint inside it and no hook is recorded elsewhere than the main steps before
it; in a fresh run they do so only there. -/
theorem checkpoints_advance (env : Env α ι δ σ) (rule : Rule α) (resumeStepPath : Option StepPath)
    (hooksCompleted : List HookPhase) (ctx : RuntimeContext ι δ) (world : σ) :
    (Climbs (runRule env rule resumeStepPath hooksCompleted ctx world).events →
      NeverBack (runRule env rule resumeStepPath hooksCompleted ctx world).events) ∧
    (resumeStepPath = none → NeverBack (runRule env rule resumeStepPath hooksCompleted ctx world).events →
      Climbs (runRule env rule resumeStepPath hooksCompleted ctx world).events) := by
  obtain ⟨early, main, late, hevents, hstaged⟩ :=
    @runRule_staged _ _ _ _ env rule resumeStepPath hooksCompleted ctx world
  rw [hevents]
  refine ⟨hstaged.neverBack, ?_⟩
  rintro rfl
  exact hstaged.climbs

def doneEnv : Env Unit Unit Unit Unit where
  actionMayNavigate _ := false
  aborted _ := false
  runStep _ _ _ := (.done, (), ())
  evaluate _ _ _ := (some true, ())
  configured _ := true
  count _ _ := some 1
  items _ _ := some []
  caseIdx _ _ _ := some none

def emptyCtx : RuntimeContext Unit Unit := ⟨(), none, none⟩

def noHooks : Hooks Unit := ⟨none, none, none, none⟩

/-- Two leaves, one after the other. -/
theorem checkpoints_advance_leaves :
    NeverBack (runRule doneEnv ⟨noHooks, [.leaf (), .leaf ()]⟩ none [] emptyCtx ()).events := by
  refine (checkpoints_advance doneEnv ⟨noHooks, [.leaf (), .leaf ()]⟩ none [] emptyCtx ()).1 ?_
  have hevents : (runRule doneEnv ⟨noHooks, [.leaf (), .leaf ()]⟩ none [] emptyCtx ()).events =
      [.leaf () emptyCtx, .stepComplete [.top 0] emptyCtx, .leaf () emptyCtx,
        .stepComplete [.top 1] emptyCtx] := rfl
  rw [hevents]
  simp [Climbs, Event.isStep, Event.checkpoint, Event.isComplete, Event.isHook, Inside]

/-- A group is completed after the leaf in it, at a path before the leaf's. -/
theorem group_moves_back :
    ¬ NeverBack (runRule doneEnv ⟨noHooks, [.group [.leaf ()]]⟩ none [] emptyCtx ()).events := by
  have hevents : (runRule doneEnv ⟨noHooks, [.group [.leaf ()]]⟩ none [] emptyCtx ()).events =
      [.leaf () emptyCtx, .stepComplete [.top 0, .inGroup 0] emptyCtx,
        .stepComplete [.top 0] emptyCtx] := rfl
  rw [hevents]
  intro h
  have hpair := (pairwise_cons.mp (pairwise_cons.mp h).2).1 _
    (mem_singleton.mpr rfl) [.top 0, .inGroup 0] [.top 0] rfl rfl
  cases hpair.1 (by decide)

end Engine

end Aegis
