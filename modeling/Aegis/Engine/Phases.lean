import Aegis.Engine.Dispatch

/-!
# Engine.Phases

Which phases of a rule a run enters: one that returns with success has not entered `onError`, and
has not come to any of its steps.
-/

namespace Aegis

open List Dispatch

namespace Dispatch

open Engine (StepResult)
open Preflight (Fields Step Rule Hooks)

def Frame.isRule : Frame → Bool
  | .rule _ => true
  | _ => false

def Control.isEnter : Control → Bool
  | .enter _ => true
  | _ => false

def LogEvent.isPhase : LogEvent → Bool
  | .entered _ | .returned _ => true
  | _ => false

/-- What a thread does below `runRule`: it goes on, calls or comes back. -/
structure Inside (stack : List Frame) (r : Advance) : Prop where
  control : r.1.control.isEnter = false
  stack : r.1.stack = stack ∨ (∃ f, f.isRule = false ∧ r.1.stack = f :: stack) ∨
    r.1.stack = stack.tail ∨ r.1.stack = []
  log : ∀ e ∈ r.2, e.isPhase = false

/-- What a thread does, and what of it is `runRule`. -/
inductive Moves (fatal : Bool) : Control → List Frame → Advance → Prop where
  | inside {control stack r} (h : Inside stack r) : Moves fatal control stack r
  | next {result phase phase' stack} (h : nextPhase fatal result phase = some phase') :
      Moves fatal (.returns result) (.rule phase :: stack) (goesOn (.enter phase') stack)
  | returned {result phase stack b} (h : b = true → fatal = false) :
      Moves fatal (.returns result) (.rule phase :: stack) (⟨.ended, []⟩, [.returned b])
  | enter {phase stack control log} (hc : control.isEnter = false)
      (hlog : ∀ e ∈ log, e = .entered phase) :
      Moves fatal (.enter phase) stack (⟨control, .rule phase :: stack⟩, log)

variable {rule : Rule} {m : Machine} {fatal : Bool} {choice : Choice} {stack : List Frame}
  {o : Options} {path : StepPath} {s : Step} {w : List Container} {control : Control} {r : Advance}

theorem Inside.keep (h : control.isEnter = false) : Inside stack (goesOn control stack) :=
  ⟨h, .inl rfl, fun _ he => absurd he not_mem_nil⟩

theorem Inside.push {f : Frame} (h : control.isEnter = false) (hf : f.isRule = false) :
    Inside stack (goesOn control (f :: stack)) :=
  ⟨h, .inr (.inl ⟨f, hf, rfl⟩), fun _ he => absurd he not_mem_nil⟩

theorem Inside.pop {f : Frame} (h : control.isEnter = false) : Inside (f :: stack) (goesOn control stack) :=
  ⟨h, .inr (.inr (.inl rfl)), fun _ he => absurd he not_mem_nil⟩

variable {log : List LogEvent} {thread : Thread}

theorem Inside.logs (h : Inside stack (thread, []))
    (hlog : ∀ e ∈ log, e.isPhase = false) : Inside stack (thread, log) :=
  ⟨h.control, h.stack, hlog⟩

theorem evaluated_inside : ∀ e ∈ evaluated o s, e.isPhase = false := by
  intro e he
  rw [evaluated] at he
  split at he
  · rw [mem_singleton.mp he]
    rfl
  · cases he

theorem dispatch_inside (choice : Choice) : Inside stack (dispatch choice stack o path s) := by
  rw [dispatch.eq_def]
  split
  · rw [dispatchFlowControl]
    split
    · cases choice with
      | throws => exact (Inside.keep rfl).logs evaluated_inside
      | resume n => exact .push rfl rfl
      | pick n | go | skip | abort | finish r => exact (Inside.push rfl rfl).logs evaluated_inside
    · split
      · cases choice <;> exact .keep rfl
      · split
        · cases choice with
          | throws | go | skip | abort | finish r => exact .keep rfl
          | resume n => exact .push rfl rfl
          | pick n => exact .push rfl rfl
        · exact .push rfl rfl
  · cases choice <;> exact (Inside.keep rfl).logs evaluated_inside

theorem iterate_inside (choice : Choice) {iter : Nat} :
    Inside stack (iterate choice stack o path s iter) := by
  rw [iterate]
  split
  · exact .keep rfl
  · rename_i c l _
    have hlog : ∀ e ∈ (if c = .loop "whileCondition" then evaluated o s else []),
        e.isPhase = false := by
      split
      · exact evaluated_inside
      · exact fun e he => absurd he not_mem_nil
    cases choice with
    | skip | throws | resume n => exact (Inside.keep rfl).logs hlog
    | abort => exact .keep rfl
    | pick n | go | finish r => exact (Inside.push rfl rfl).logs hlog

theorem bodyStep_inside (choice : Choice) : Inside stack (bodyStep choice stack w s) := by
  cases choice with
  | pick n =>
    rw [bodyStep]
    split
    · split
      · exact .keep rfl
      · split <;> exact .push rfl rfl
    · exact .keep rfl
  | finish r => cases r <;> exact .keep rfl
  | go | skip | throws | abort | resume n => exact .keep rfl

theorem again_inside {o : Options} {path : StepPath} {s : Step} {n : Nat} (choice : Choice) :
    Inside (.attempt o path s n :: stack) (match choice with
      | .go => goesOn (.attempt o path s (n + 1)) stack
      | .skip => goesOn (.returns .done) stack
      | .throws => goesOn (.returns (.threw .error)) stack
      | _ => goesOn (.returns .failed) stack) := by
  cases choice <;> exact .pop rfl

theorem returnTo_moves (fatal : Bool) (choice : Choice) (result : StepResult) :
    Moves fatal (.returns result) stack (returnTo fatal choice result stack) := by
  cases stack with
  | nil => exact .inside (.keep rfl)
  | cons f stack =>
    cases f with
    | rule phase =>
      rw [returnTo.eq_def]
      dsimp only
      split
      · rename_i hnext
        exact .next hnext
      · refine .returned fun hb => ?_
        simp only [Bool.and_eq_true, Bool.not_eq_true'] at hb
        exact hb.1.1
    | late w s => exact .inside ⟨rfl, .inr (.inr (.inr rfl)), fun _ he => absurd he not_mem_nil⟩
    | nested => exact .inside (.pop rfl)
    | steps o i rest | direct w s rest =>
      cases result <;> exact .inside (.pop rfl)
    | ifAction => cases result <;> exact .inside (.pop rfl)
    | container | loop o path s iter =>
      rw [returnTo.eq_def]
      dsimp only
      split <;> exact .inside (.pop rfl)
    | attempt o path s n =>
      rw [returnTo.eq_def]
      dsimp only
      split
      · exact .inside (.pop rfl)
      · exact .inside (again_inside choice)
      · exact .inside (again_inside choice)
      · exact .inside (again_inside choice)
      · exact .inside (.pop rfl)

variable (rule fatal choice stack) in
theorem advance_moves
    (control : Control) : Moves fatal control stack (advance rule fatal choice stack control) := by
  cases control with
  | returns result => exact returnTo_moves fatal choice result
  | steps o i l =>
    cases l with
    | nil => exact .inside (.keep rfl)
    | cons s rest =>
      have hlog : ∀ e ∈ (if o.reports && Preflight.actionMayNavigate (fields s) then
          [LogEvent.announced (o.pathPrefix ++ [o.frameFor i])] else []), e.isPhase = false := by
        split
        · exact fun e he => by rw [mem_singleton.mp he]; rfl
        · exact fun e he => absurd he not_mem_nil
      cases choice with
      | abort | skip => exact .inside (.keep rfl)
      | go | throws | pick n | resume n | finish r => exact .inside ((Inside.push rfl rfl).logs hlog)
  | dispatch o path s => exact .inside (dispatch_inside choice)
  | attempt o path s n =>
    exact .inside ((Inside.push rfl rfl).logs fun e he => by rw [mem_singleton.mp he]; rfl)
  | body =>
    cases stack with
    | nil => exact .inside (.keep rfl)
    | cons f stack =>
      cases f with
      | attempt o path s n | direct w s rest | late w s => exact .inside (bodyStep_inside choice)
      | steps _ _ _ | nested | ifAction | loop _ _ _ _ | container | rule _ => exact .inside (.keep rfl)
  | recover w l =>
    cases l with
    | nil => exact .inside (.keep rfl)
    | cons s rest =>
      exact .inside ((Inside.push rfl rfl).logs fun e he => by rw [mem_singleton.mp he]; rfl)
  | iterate o path s iter => exact .inside (iterate_inside choice)
  | enter phase =>
    rw [advance.eq_def]
    dsimp only
    split
    · exact .enter rfl fun e he => absurd he not_mem_nil
    · exact .enter rfl fun e he => absurd he not_mem_nil
    · exact .enter rfl fun e he => absurd he not_mem_nil
    · exact .enter rfl fun e he => absurd he not_mem_nil
    · exact .enter rfl fun e he => mem_singleton.mp he
  | ended => exact .inside (.keep rfl)

/-! ## The invariant -/

/-- A thread that `runRule` is not part of. -/
structure Detached (thread : Thread) : Prop where
  control : thread.control.isEnter = false
  stack : ∀ f ∈ thread.stack, f.isRule = false

/-- `runRule` is at the bottom of a thread only. -/
structure Rooted (thread : Thread) : Prop where
  control : thread.control.isEnter = true → thread.stack = []
  stack : ∀ f ∈ thread.stack.dropLast, f.isRule = false

/-- What `fatal` has to say of what there is. -/
structure PhasesOk (fatal : Bool) (log : List LogEvent) (first : Thread) : Prop where
  rooted : Rooted first
  entering : first.control = .enter .onError → fatal = true
  entered : .entered .onError ∈ log → fatal = true
  returned : .returned true ∈ log → fatal = false ∧ Detached first

structure PhasesInv (m : Machine) : Prop where
  first : ∃ first rest, m.threads = first :: rest ∧ PhasesOk m.fatal m.log first ∧
    ∀ thread ∈ rest, Detached thread

theorem Inside.detached (h : Inside stack r) (hstack : ∀ f ∈ stack, f.isRule = false) : Detached r.1 := by
  refine ⟨h.control, fun f hf => ?_⟩
  rcases h.stack with hst | ⟨f', hf', hst⟩ | hst | hst
  · exact hstack f (hst ▸ hf)
  · rw [hst] at hf
    rcases mem_cons.mp hf with rfl | hf
    · exact hf'
    · exact hstack f hf
  · exact hstack f (mem_of_mem_tail (hst ▸ hf))
  · rw [hst] at hf
    cases hf

theorem Inside.rooted (h : Inside stack r) (hstack : ∀ f ∈ stack.dropLast, f.isRule = false) :
    Rooted r.1 := by
  refine ⟨fun henter => absurd (h.control.symm.trans henter) Bool.false_ne_true, fun f hf => ?_⟩
  rcases h.stack with hst | ⟨f', hf', hst⟩ | hst | hst
  · exact hstack f (hst ▸ hf)
  · rw [hst] at hf
    cases stack with
    | nil => cases hf
    | cons x stack =>
      rw [dropLast_cons_cons] at hf
      rcases mem_cons.mp hf with rfl | hf
      · exact hf'
      · exact hstack f hf
  · rw [hst] at hf
    cases stack with
    | nil => cases hf
    | cons x stack =>
      cases stack with
      | nil => cases hf
      | cons y stack => exact hstack f (mem_cons_of_mem _ hf)
  · rw [hst] at hf
    cases hf

theorem Detached.advance (h : Detached thread) (rule : Rule) (fatal : Bool) (choice : Choice) :
    Detached (advance rule fatal choice thread.stack thread.control).1 ∧
      ∀ e ∈ (advance rule fatal choice thread.stack thread.control).2,
        e.isPhase = false := by
  obtain ⟨control, stack⟩ := thread
  obtain ⟨hcontrol, hstack⟩ := h
  dsimp only at hcontrol hstack ⊢
  have hmoves := advance_moves rule fatal choice stack control
  generalize advance rule fatal choice stack control = r at hmoves
  cases hmoves with
  | inside h => exact ⟨h.detached hstack, h.log⟩
  | next _ | returned _ => cases hstack _ mem_cons_self
  | enter _ _ => cases hcontrol

theorem Detached.fatalAfter (h : Detached thread) (fatal : Bool) :
    fatalAfter fatal thread = fatal := by
  obtain ⟨control, stack⟩ := thread
  rw [fatalAfter.eq_def]
  dsimp only
  split
  · cases h.stack _ mem_cons_self
  · rfl

theorem fatalAfter_mono (h : fatal) : fatalAfter fatal thread = true := by
  rw [fatalAfter.eq_def]
  split
  · rw [h, Bool.true_or]
  · exact h

theorem nextPhase_onError {result : StepResult} {phase : Phase}
    (h : nextPhase fatal result phase = some .onError) : fatal = true := by
  cases phase with
  | beforeAll =>
    rw [nextPhase.eq_def] at h
    dsimp only at h
    split at h <;> cases h
  | main | onError | cleanup => cases h
  | afterAll =>
    cases fatal with
    | true => rfl
    | false => cases h

theorem Rooted.tail {phase : Phase} (h : Rooted ⟨control, .rule phase :: stack⟩) : stack = [] := by
  cases stack with
  | nil => rfl
  | cons x stack => cases h.stack (.rule phase) mem_cons_self

theorem PhasesOk.advance {first : Thread} (h : PhasesOk fatal log first) (rule : Rule) (choice : Choice) :
    PhasesOk (fatalAfter fatal first)
      (log ++ (Dispatch.advance rule (fatalAfter fatal first) choice first.stack first.control).2)
      (Dispatch.advance rule (fatalAfter fatal first) choice first.stack first.control).1 := by
  have hmono : fatal → fatalAfter fatal first = true := fatalAfter_mono
  have hsame : .returned true ∈ log → fatalAfter fatal first = false := fun hret => by
    obtain ⟨hfatal, hdetached⟩ := h.returned hret
    rw [hdetached.fatalAfter, hfatal]
  have hmoves := advance_moves rule (fatalAfter fatal first) choice first.stack first.control
  generalize Dispatch.advance rule (fatalAfter fatal first) choice first.stack first.control = r
    at hmoves
  generalize fatalAfter fatal first = fatal' at hmono hsame hmoves
  obtain ⟨control, stack⟩ := first
  dsimp only at hmoves
  have hentered : ∀ {e : LogEvent} {l : List LogEvent}, (∀ e ∈ l, e.isPhase = false) →
      e.isPhase → e ∈ log ++ l → e ∈ log := fun hl he hmem =>
    (mem_append.mp hmem).elim id fun hmem =>
      absurd ((hl _ hmem).symm.trans he) Bool.false_ne_true
  cases hmoves with
  | inside hin =>
    refine ⟨hin.rooted h.rooted.stack, fun henter => ?_, fun hmem => ?_, fun hmem => ?_⟩
    · have hcontrol := hin.control
      rw [henter] at hcontrol
      cases hcontrol
    · exact hmono (h.entered (hentered hin.log rfl hmem))
    · have hret := hentered hin.log rfl hmem
      exact ⟨hsame hret, hin.detached (h.returned hret).2.stack⟩
  | next hnext =>
    have hnot : .returned true ∉ log := fun hret => by
      cases (h.returned hret).2.stack _ mem_cons_self
    obtain rfl := h.rooted.tail
    rw [goesOn, append_nil]
    refine ⟨⟨fun _ => rfl, fun f hf => absurd hf not_mem_nil⟩, fun henter => ?_,
      fun hmem => hmono (h.entered hmem), fun hret => absurd hret hnot⟩
    obtain rfl := Control.enter.inj henter
    exact nextPhase_onError hnext
  | returned hb =>
    have hnot : .returned true ∉ log := fun hret => by
      cases (h.returned hret).2.stack _ mem_cons_self
    refine ⟨⟨fun henter => (by cases henter), fun f hf => absurd hf not_mem_nil⟩,
      fun henter => (by cases henter), fun hmem => ?_, fun hmem => ?_⟩
    · rcases mem_append.mp hmem with hmem | hmem
      · exact hmono (h.entered hmem)
      · cases mem_singleton.mp hmem
    · rcases mem_append.mp hmem with hmem | hmem
      · exact absurd hmem hnot
      · exact ⟨hb (LogEvent.returned.inj (mem_singleton.mp hmem)).symm, rfl,
          fun f hf => absurd hf not_mem_nil⟩
  | @enter phase _ control _ hc hlog =>
    have hnot : .returned true ∉ log := fun hret => by cases (h.returned hret).2.control
    obtain rfl : stack = [] := h.rooted.control rfl
    refine ⟨⟨fun henter => absurd (hc.symm.trans henter) Bool.false_ne_true,
      fun f hf => absurd hf not_mem_nil⟩, fun henter => ?_, fun hmem => ?_, fun hmem => ?_⟩
    · subst henter
      cases hc
    · rcases mem_append.mp hmem with hmem | hmem
      · exact hmono (h.entered hmem)
      · obtain rfl := LogEvent.entered.inj (hlog _ hmem)
        exact hmono (h.entering rfl)
    · rcases mem_append.mp hmem with hmem | hmem
      · exact absurd hmem hnot
      · cases hlog _ hmem

theorem PhasesOk.timeout {first : Thread} {depth : Nat} {f : Frame}
    (h : PhasesOk fatal log first) (hf : first.stack[depth]? = some f) :
    PhasesOk fatal log ⟨.returns (.threw .error), first.stack.drop depth⟩ ∧
      Detached ⟨first.control, first.stack.take depth ++ [.late w s]⟩ := by
  obtain ⟨hlt, -⟩ := List.getElem?_eq_some_iff.mp hf
  refine ⟨⟨⟨fun henter => (by cases henter), fun g hg => ?_⟩, fun henter => (by cases henter),
    h.entered, fun hret => ?_⟩, ⟨?_, fun g hg => ?_⟩⟩
  · rw [dropLast_eq_take, length_drop, take_drop] at hg
    refine h.rooted.stack g ?_
    rw [dropLast_eq_take]
    exact take_subset_take_left _ (by omega) (mem_of_mem_drop hg)
  · obtain ⟨hfatal, hdetached⟩ := h.returned hret
    exact ⟨hfatal, rfl, fun g hg => hdetached.stack g (mem_of_mem_drop hg)⟩
  · by_contra henter
    rw [Bool.not_eq_false] at henter
    rw [h.rooted.control henter] at hlt
    exact absurd hlt (Nat.not_lt_zero _)
  · rcases mem_append.mp hg with hg | hg
    · refine h.rooted.stack g ?_
      rw [dropLast_eq_take]
      exact take_subset_take_left _ (by omega) hg
    · rw [mem_singleton.mp hg]
      rfl

theorem Detached.timeout {depth : Nat} (h : Detached thread) :
    Detached ⟨.returns (.threw .error), thread.stack.drop depth⟩ ∧
      Detached ⟨thread.control, thread.stack.take depth ++ [.late w s]⟩ := by
  refine ⟨⟨rfl, fun g hg => h.stack g (mem_of_mem_drop hg)⟩, ⟨h.control, fun g hg => ?_⟩⟩
  rcases mem_append.mp hg with hg | hg
  · exact h.stack g (mem_of_mem_take hg)
  · rw [mem_singleton.mp hg]
    rfl

theorem step_phases (rule : Rule) (e : Event) (h : PhasesInv m) : PhasesInv (step rule m e) := by
  obtain ⟨first, rest, hthreads, hfirst, hrest⟩ := h.first
  cases e with
  | act j choice =>
    rw [step, hthreads]
    cases j with
    | zero => exact ⟨_, rest, rfl, hfirst.advance rule choice, hrest⟩
    | succ j =>
      rw [getElem?_cons_succ]
      split
      · rename_i thread hj
        have hthread := hrest thread (mem_of_getElem? hj)
        obtain ⟨hdetached, hlog⟩ := hthread.advance rule (fatalAfter m.fatal thread) choice
        refine ⟨first, _, rfl, ?_, fun t ht => ?_⟩
        · rw [hthread.fatalAfter] at hlog ⊢
          have hmem : ∀ {e : LogEvent}, e.isPhase → e ∈ m.log ++ _ → e ∈ m.log :=
            fun he hmem => (mem_append.mp hmem).elim id fun hmem =>
              absurd ((hlog _ hmem).symm.trans he) Bool.false_ne_true
          exact ⟨hfirst.rooted, hfirst.entering, fun he => hfirst.entered (hmem rfl he),
            fun he => hfirst.returned (hmem rfl he)⟩
        · rcases mem_or_eq_of_mem_set ht with ht | rfl
          · exact hrest t ht
          · exact hdetached
      · exact h
  | timeout j depth =>
    rw [step, hthreads]
    cases j with
    | zero =>
      rw [getElem?_cons_zero]
      dsimp only
      split
      · rename_i hdepth
        split
        · exact h
        · obtain ⟨hdrop, htake⟩ := hfirst.timeout hdepth
          refine ⟨_, _, rfl, hdrop, fun t ht => ?_⟩
          rcases mem_append.mp ht with ht | ht
          · exact hrest t ht
          · rw [mem_singleton.mp ht]
            exact htake
      · exact h
    | succ j =>
      rw [getElem?_cons_succ]
      split
      · rename_i thread hj
        have hthread := hrest thread (mem_of_getElem? hj)
        split
        · split
          · exact h
          · obtain ⟨hdrop, htake⟩ := hthread.timeout
            refine ⟨first, _, rfl, hfirst, fun t ht => ?_⟩
            rcases mem_append.mp ht with ht | ht
            · rcases mem_or_eq_of_mem_set ht with ht | rfl
              · exact hrest t ht
              · exact hdrop
            · rw [mem_singleton.mp ht]
              exact htake
        · exact h
      · exact h

theorem not_entered_onError (es : List Event) (h : .returned true ∈ (run (step rule) init es).log) :
    .entered .onError ∉ (run (step rule) init es).log := by
  have hinv : PhasesInv (run (step rule) init es) := by
    refine run_invariant (fun _ e h => step_phases rule e h) ⟨_, [], rfl, ?_, ?_⟩
    · exact ⟨⟨fun _ => rfl, fun f hf => absurd hf not_mem_nil⟩, fun henter => (by cases henter),
        fun he => absurd he not_mem_nil, fun he => absurd he not_mem_nil⟩
    · exact fun t ht => absurd ht not_mem_nil
  obtain ⟨first, rest, -, hfirst, -⟩ := hinv.first
  intro hentered
  exact absurd ((hfirst.entered hentered).symm.trans (hfirst.returned h).1) Bool.false_ne_true.symm

def withoutOnError (rule : Rule) : Rule := { rule with hooks := { rule.hooks with onError := [] } }

theorem advance_withoutOnError (h : .entered .onError ∉ (advance rule fatal choice stack control).2) :
    advance rule fatal choice stack control = advance (withoutOnError rule) fatal choice stack control := by
  cases control with
  | enter phase =>
    cases phase with
    | onError =>
      cases choice with
      | skip => rfl
      | go | throws | abort | pick n | resume n | finish r => exact absurd mem_cons_self h
    | beforeAll | main | afterAll | cleanup => rfl
  | returns result | dispatch o path s | attempt o path s n | body | iterate o path s iter | ended =>
    rfl
  | steps o i l => cases l <;> rfl
  | recover w l => cases l <;> rfl

theorem step_log (rule : Rule) (m : Machine) (e : Event) : m.log ⊆ (step rule m e).log := by
  cases e with
  | act j choice =>
    rw [step]
    split
    · exact subset_append_left _ _
    · exact fun _ he => he
  | timeout j depth =>
    rw [step]
    split
    · split
      · split <;> exact fun _ he => he
      · exact fun _ he => he
    · exact fun _ he => he

theorem run_log (rule : Rule) (m : Machine) (es : List Event) : m.log ⊆ (run (step rule) m es).log := by
  induction es generalizing m with
  | nil => exact fun _ he => he
  | cons e es ih => exact fun _ he => ih _ (step_log rule m e he)

theorem step_withoutOnError (e : Event) (h : .entered .onError ∉ (step rule m e).log) :
    step rule m e = step (withoutOnError rule) m e := by
  cases e with
  | act j choice =>
    rw [step] at h ⊢
    rw [step]
    cases hj : m.threads[j]? with
    | none => rfl
    | some thread =>
      rw [hj] at h
      dsimp only at h ⊢
      rw [mem_append, not_or] at h
      rw [advance_withoutOnError h.2]
  | timeout j depth => rfl

theorem run_withoutOnError (es : List Event) (h : .entered .onError ∉ (run (step rule) m es).log) :
    run (step rule) m es = run (step (withoutOnError rule)) m es := by
  induction es generalizing m with
  | nil => rfl
  | cons e es ih =>
    have hstep := step_withoutOnError e fun he => h (run_log rule _ es he)
    rw [run_cons, run_cons, ← hstep]
    exact ih h

theorem lists_no_hook {phase : Phase} {l : List Step} : (.hook phase, l) ∉ lists s := by
  intro hl
  obtain ⟨f, t, e, st, d, op, cs⟩ := s
  rw [lists] at hl
  split_ifs at hl <;> simp at hl

theorem occurs_withoutOnError (h : Occurs (withoutOnError rule) w s) :
    Occurs rule w s ∧ .hook .onError ∉ w := by
  induction h with
  | @phase phase s hs =>
    cases phase with
    | onError => cases hs
    | beforeAll | main | afterAll | cleanup => exact ⟨.phase hs, by decide⟩
  | @inner w s c l s' _ hl hs' ih =>
    refine ⟨.inner ih.1 hl hs', fun hmem => ?_⟩
    rcases mem_append.mp hmem with hmem | hmem
    · exact ih.2 hmem
    · rw [← mem_singleton.mp hmem] at hl
      exact lists_no_hook hl

theorem leaf_of_success {es : List Event} {p : Option StepPath}
    (hret : .returned true ∈ (run (step rule) init es).log)
    (h : .leaf w s p ∈ (run (step rule) init es).log) : Occurs rule w s ∧ .hook .onError ∉ w := by
  rw [run_withoutOnError es (not_entered_onError es hret)] at h
  obtain ⟨before, after, heq⟩ := append_of_mem h
  exact occurs_withoutOnError (log_ok _ es before _ after heq).1

end Dispatch

end Aegis
