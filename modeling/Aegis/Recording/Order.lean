import Aegis.Lib.Run
import Aegis.Recording.Handling

/-!
# Recording.Order

The events of a recording stand in the order in which the user made them, each with its own
snapshot, as long as no event is recorded at once while a task still waits to push an earlier one.
-/

namespace Aegis

open List

namespace ContentRecorder

open Recorder (SnapshotPhase)

section Handlers

variable {ε : Type} [DecidableEq ε] {clock : Nat → Nat} {page : Page ε} {s : State ε}
  {event : PageAgentEvent}

def recordsAtOnce (clock : Nat → Nat) (s : State ε) : Op ε → Bool
  | .click page path ancestors _ =>
    match resolveInteractableClickTarget page path ancestors with
    | none => false
    | some el => !(noteSubmitter clock page el s).1 &&
      (flushesInput page s || elementWillNavigate (page.view el))
  | .keydown page el key _ => key == "Enter" && isEnterSubmissionElement (page.view el)
  | .submit _ form submitter => !(isEnterSubmit clock form s).1 &&
      !(isClickSubmit clock submitter (isEnterSubmit clock form s).2).1
  | .beforeUnload page => flushesInput page s || flushesScroll page s
  | .stopAsync page => s.stopping == .no && (flushesInput page s || flushesScroll page s)
  | _ => false

def flushedByEnter (clock : Nat → Nat) (page : Page ε) (el : ε) (s : State ε) : State ε :=
  let (_, x) := getElementIndex clock page el s.toIndexes
  let (_, x) := dateNow clock x
  flushInputTimeouts clock page (noteEnter clock page el { s with toIndexes := x })

def Awaited (s : State ε) (sequence : Nat) : Prop :=
  ∃ task ∈ s.eventQueue, task.event.isSome = true ∧ task.timedOut = false ∧ task.sequence = sequence

/-- What keeps the events of a recording in order.

* No event is recorded at once while a task waits to push an earlier one.
* The clock does not go on between an Enter and the inputs that it flushes.
* No capture for an event ends after its task has given it up.
* No task waits to push an event where the recording ends. -/
def Sound (clock : Nat → Nat) (s : State ε) (op : Op ε) : Prop :=
  (recordsAtOnce clock s op = true → s.waiting = []) ∧ match op with
    | .keydown page el key _ => key = "Enter" → isEnterSubmissionElement (page.view el) = true →
        ∀ e ∈ (flushedByEnter clock page el s).taken, e.timestamp ≤ clock (s.readings + 1)
    | .settle sequence => ∀ x ∈ s.captures, x.sequence = sequence → x.phase = .beforeAction →
        Awaited s sequence
    | .beforeUnload _ | .finalizeStop => s.waiting = []
    | _ => True

variable {destinationUrl : Option String}

theorem Holds.handleClick (hclock : Monotone clock) (h : Holds clock s) {path ancestors : List ε}
    (hsound : Sound clock s (.click page path ancestors destinationUrl)) :
    Holds clock (handleClick clock page path ancestors destinationUrl s) := by
  have hwaiting := hsound.1
  rw [ContentRecorder.handleClick]
  simp only [recordsAtOnce] at hwaiting
  cases hresolve : resolveInteractableClickTarget page path ancestors with
  | none => exact h
  | some el =>
    have hquiet := noteSubmitter_quiet clock page s el
    have hnoted := h.quiet hclock hquiet
    rw [hresolve] at hwaiting
    dsimp only at hwaiting ⊢
    by_cases hsynthetic : (noteSubmitter clock page el s).1
    · rw [if_pos hsynthetic]
      exact hnoted
    · rw [if_neg hsynthetic]
      refine hnoted.recordClick hclock fun hrecords => hquiet.waiting.trans (hwaiting ?_)
      rw [hquiet.flushesInput] at hrecords
      rw [Bool.eq_false_iff.mpr hsynthetic, hrecords]
      rfl

variable {el : ε}

theorem Holds.handleChange (hclock : Monotone clock) (h : Holds clock s)
    {optionText : String} : Holds clock (handleChange clock page el optionText s) := by
  rw [ContentRecorder.handleChange]
  split
  · exact h
  · obtain ⟨hindexed, htimes⟩ := h.stamped hclock page el
    exact hindexed.enqueueEvent hclock htimes (hclock (Nat.le_succ _))

theorem Holds.handleKeydown (hclock : Monotone clock) (h : Holds clock s) {key : String}
    (hsound : Sound clock s (.keydown page el key destinationUrl)) :
    Holds clock (handleKeydown clock page el key destinationUrl s) := by
  obtain ⟨hwaiting, hflushed⟩ := hsound
  rw [ContentRecorder.handleKeydown]
  split
  · exact h
  · rename_i hkey
    have hkey : key = "Enter" := not_not.mp hkey
    have hr := getElementIndex_readings clock page el s.toIndexes
    obtain ⟨hindexed, hbefore⟩ := h.stamped hclock page el
    dsimp only
    split
    · rename_i henter
      have hempty : s.waiting = [] := hwaiting (by
        rw [recordsAtOnce, henter, hkey]
        rfl)
      have hquiet := noteEnter_quiet clock page { s with
        toIndexes := (dateNow clock (getElementIndex clock page el s.toIndexes).2).2 } el
      have hnoted := hindexed.quiet hclock hquiet
      have htimes := hflushed hkey henter
      rw [← hr] at htimes
      refine Holds.recordSync hclock (hnoted.flushInputTimeouts hclock fun _ => ?_) ?_ htimes ?_
      · exact hquiet.waiting.trans hempty
      · exact flushInputTimeouts_waiting.trans (hquiet.waiting.trans hempty)
      · refine hclock (Nat.le_trans ?_ (Nat.le_trans hquiet.readings flushInputTimeouts_readings))
        exact Nat.le_succ _
    · exact hindexed.enqueueEvent hclock hbefore (hclock (Nat.le_succ _))

theorem Holds.handleSubmit (hclock : Monotone clock) (h : Holds clock s) {form : ε}
    {submitter : Option ε} (hsound : Sound clock s (.submit page form submitter)) :
    Holds clock (handleSubmit clock page form submitter s) := by
  have hwaiting := hsound.1
  have hquiet := isEnterSubmit_quiet clock s form
  rw [ContentRecorder.handleSubmit]
  dsimp only
  simp only [recordsAtOnce] at hwaiting
  generalize (isEnterSubmit clock form s).1 = entered at hwaiting ⊢
  generalize (isEnterSubmit clock form s).2 = t at hquiet hwaiting ⊢
  cases entered with
  | true => exact h.quiet hclock hquiet
  | false =>
    have hquiet' := isClickSubmit_quiet clock t submitter
    generalize (isClickSubmit clock submitter t).1 = clicked at hwaiting ⊢
    generalize (isClickSubmit clock submitter t).2 = u at hquiet' ⊢
    have hnoted := h.quiet hclock (hquiet.trans hquiet')
    cases clicked with
    | true => exact hnoted
    | false =>
      exact hnoted.recordSubmit hclock ((hquiet.trans hquiet').waiting.trans (hwaiting rfl))

theorem Holds.handleNavigate (hclock : Monotone clock) (h : Holds clock s) {tabTransition : Bool} :
    Holds clock (handleNavigate clock page tabTransition s) := by
  rw [ContentRecorder.handleNavigate]
  split
  · exact h
  · have hindexed : Holds clock { s with
        toIndexes := (dateNow clock s.toIndexes).2
        lastRecordedUrl := some page.url } :=
      h.index hclock (x := (dateNow clock s.toIndexes).2) (Nat.le_succ _)
    exact hindexed.enqueueEvent hclock (h.times hclock (Nat.le_refl _)) (hclock (Nat.le_succ _))

/-! ## Runs -/

theorem flushesScroll_flushInputTimeouts :
    flushesScroll page (flushInputTimeouts clock page s) = flushesScroll page s := by
  have hkept : (flushInputTimeouts clock page s).scrollTimeouts = s.scrollTimeouts ∧
      (flushInputTimeouts clock page s).scrollState = s.scrollState :=
    flush_keeps (P := fun t => t.scrollTimeouts = s.scrollTimeouts ∧ t.scrollState = s.scrollState)
      (fun _ _ _ _ ht => ht) (fun _ _ ht => ht) ⟨rfl, rfl⟩
  have hscrolled : ∀ el, hasScrolled page el (flushInputTimeouts clock page s) = hasScrolled page el s := by
    intro el
    rw [hasScrolled, hasScrolled, scrolledBy, scrolledBy, hkept.2]
  rw [flushesScroll, flushesScroll, hkept.1]
  simp only [hscrolled]

theorem Holds.flushes (hclock : Monotone clock) (h : Holds clock s)
    (hwaiting : (flushesInput page s || flushesScroll page s) → s.waiting = []) :
    Holds clock (ContentRecorder.flushScrollTimeouts clock page
      (ContentRecorder.flushInputTimeouts clock page s)) := by
  refine (h.flushInputTimeouts hclock fun hflushes => ?_).flushScrollTimeouts hclock
    fun hflushes => ?_
  · exact hwaiting (by rw [hflushes]; rfl)
  · rw [flushesScroll_flushInputTimeouts] at hflushes
    exact flushInputTimeouts_waiting.trans (hwaiting (by rw [hflushes, Bool.or_true]))

variable {s' : State ε}

omit [DecidableEq ε] in
theorem Holds.settle (h : Holds clock s) {sequence : Nat}
    (hstep : settle sequence s = some s') (hsound : ∀ x ∈ s.captures, x.sequence = sequence →
      x.phase = .beforeAction → Awaited s sequence) : Holds clock s' := by
  obtain ⟨x, hfind, rfl⟩ := Option.map_eq_some_iff.mp hstep
  have hsequence : x.sequence = sequence := by simpa using find?_some hfind
  exact Inv.settle h hfind (hsound x (mem_of_find?_eq_some hfind) hsequence)

omit [DecidableEq ε] in
theorem Holds.timeOut (h : Holds clock s) {sequence : Nat}
    (hstep : timeOut sequence s = some s') : Holds clock s' := by
  rw [ContentRecorder.timeOut] at hstep
  split at hstep
  · rename_i hcapture
    cases hstep
    obtain ⟨x, hx, hsequence⟩ := List.any_eq_true.mp (Bool.and_eq_true_iff.mp hcapture).2
    exact Inv.timeOut h ⟨x, hx, by simpa using hsequence⟩
  · cases hstep

omit [DecidableEq ε] in
theorem Holds.runTask (h : Holds clock s) (hstep : runTask s = some s') : Holds clock s' := by
  rw [ContentRecorder.runTask] at hstep
  cases hqueue : s.eventQueue with
  | nil =>
    rw [hqueue] at hstep
    cases hstep
  | cons task rest =>
    rw [hqueue] at hstep
    dsimp only at hstep
    split at hstep
    · cases hstep
    · cases hstep
      rw [pushEvent]
      cases hevent : task.event with
      | none => exact Inv.skipTask h hqueue hevent
      | some event =>
        have hrun := Inv.runTask h hqueue hevent
        dsimp only
        cases htimed : task.timedOut with
        | true | false =>
          rw [htimed] at hrun
          exact hrun

theorem Holds.captureFinal (hclock : Monotone clock) (h : Holds clock s)
    (hstep : captureFinal clock page s = some s') : Holds clock s' := by
  rw [ContentRecorder.captureFinal] at hstep
  split at hstep
  · cases hstep
    have hremoved : Holds clock { s with
        toIndexes := (dateNow clock s.toIndexes).2
        snapshots := s.snapshots.filter fun x => x.phase ≠ SnapshotPhase.final
        stopping := .final s.snapshotSequence } :=
      Inv.mono (Inv.removeFinals h) (hclock (Nat.le_succ _))
    exact hremoved.captureSnapshot hclock (by decide)
  · cases hstep

omit [DecidableEq ε] in
theorem Holds.finalizeStop (h : Holds clock s) (hstep : finalizeStop s = some s') : Holds clock s' := by
  rw [ContentRecorder.finalizeStop.eq_def] at hstep
  split at hstep
  · split at hstep
    · cases hstep
    · cases hstep
      exact Inv.sort h
  · cases hstep

theorem Holds.step (hclock : Monotone clock) (h : Holds clock s) {op : Op ε}
    (hstep : step clock s op = some s') (hsound : Sound clock s op) : Holds clock s' := by
  rw [ContentRecorder.step.eq_def] at hstep
  split at hstep
  · cases hstep
  cases op with
  | click page path ancestors destinationUrl =>
    cases hstep
    exact h.handleClick hclock hsound
  | input page el =>
    cases hstep
    rw [handleInput]
    split
    · exact h
    · split <;> exact h
  | change page el optionText =>
    cases hstep
    exact h.handleChange hclock
  | scroll el =>
    cases hstep
    rw [handleScroll]
    split <;> exact h
  | keydown page el key destinationUrl =>
    cases hstep
    exact h.handleKeydown hclock hsound
  | submit page form submitter =>
    cases hstep
    exact h.handleSubmit hclock hsound
  | navigate page tabTransition =>
    cases hstep
    exact h.handleNavigate hclock
  | inputTimeout page el =>
    dsimp only at hstep
    split at hstep
    · cases hstep
      have hrecorded : Holds clock (ContentRecorder.recordTextInput clock page el false s) :=
        h.recordTextInput hclock fun hsync => absurd hsync Bool.false_ne_true
      exact hrecorded
    · cases hstep
  | scrollTimeout page el =>
    dsimp only at hstep
    split at hstep
    · cases hstep
      have hrecorded : Holds clock (ContentRecorder.recordScroll clock page el false s) :=
        h.recordScroll hclock fun hsync => absurd hsync Bool.false_ne_true
      exact hrecorded
    · cases hstep
  | settle sequence => exact h.settle hstep hsound.2
  | timeOut sequence => exact h.timeOut hstep
  | runTask => exact h.runTask hstep
  | beforeUnload page =>
    cases hstep
    exact h.flushes hclock hsound.1
  | stopAsync page =>
    cases hstep
    have hwaiting := hsound.1
    rw [recordsAtOnce] at hwaiting
    rw [ContentRecorder.stopAsync.eq_def]
    split
    · rename_i hno
      exact h.flushes hclock fun hflushes => hwaiting (by rw [hno, hflushes]; rfl)
    · exact h
  | captureFinal page => exact h.captureFinal hclock hstep
  | finalizeStop => exact h.finalizeStop hstep

theorem captureSnapshot_stopping {timestamp : Nat} {phase : SnapshotPhase} {action : Option Nat} :
    (captureSnapshot clock page timestamp phase action s).stopping = s.stopping := by
  rw [captureSnapshot]
  dsimp only
  split <;> rfl

theorem enqueueEvent_stopping {bounded : Bool} :
    (enqueueEvent clock page event bounded s).stopping = s.stopping :=
  captureSnapshot_stopping

theorem recordTextInput_stopping {sync : Bool} :
    (recordTextInput clock page el sync s).stopping = s.stopping := by
  cases sync with
  | true => rfl
  | false => exact enqueueEvent_stopping

theorem recordScroll_stopping {sync : Bool} :
    (recordScroll clock page el sync s).stopping = s.stopping := by
  rw [recordScroll]
  split
  · cases sync with
    | true => rfl
    | false => exact enqueueEvent_stopping
  · rfl

theorem handleClick_stopping {path ancestors : List ε} :
    (handleClick clock page path ancestors destinationUrl s).stopping = s.stopping := by
  rw [handleClick]
  split
  · rfl
  · rename_i el _
    have hquiet := noteSubmitter_quiet clock page s el
    dsimp only
    split
    · exact hquiet.stopping
    · rw [recordClick]
      dsimp only
      split
      · exact flushInputTimeouts_stopping.trans hquiet.stopping
      · exact enqueueEvent_stopping.trans (flushInputTimeouts_stopping.trans hquiet.stopping)

theorem handleKeydown_stopping {key : String} :
    (handleKeydown clock page el key destinationUrl s).stopping = s.stopping := by
  rw [handleKeydown]
  split
  · rfl
  · dsimp only
    split
    · exact flushInputTimeouts_stopping.trans (noteEnter_quiet clock page _ el).stopping
    · exact enqueueEvent_stopping

theorem handleSubmit_stopping {form : ε} {submitter : Option ε} :
    (handleSubmit clock page form submitter s).stopping = s.stopping := by
  have hquiet := isEnterSubmit_quiet clock s form
  have hquiet' := hquiet.trans (isClickSubmit_quiet clock _ submitter)
  rw [handleSubmit]
  dsimp only
  split
  · exact hquiet.stopping
  · split
    · exact hquiet'.stopping
    · exact flushInputTimeouts_stopping.trans hquiet'.stopping

omit [DecidableEq ε] in
theorem runTask_running (hrunning : ¬s.ended) (hstep : runTask s = some s') : ¬s'.ended = true := by
  rw [runTask] at hstep
  split at hstep
  · cases hstep
  · split at hstep
    · cases hstep
    · cases hstep
      have hpush : ∀ (task : QueueTask) (t : State ε),
          (pushEvent task t).stopping = t.stopping := by
        intro task t
        rw [pushEvent]
        split
        · rfl
        · dsimp only
          split <;> rfl
      rw [State.ended, hpush]
      rw [State.ended] at hrunning
      dsimp only
      split
      · exact Bool.false_ne_true
      · exact hrunning

theorem waiting_of_ended {op : Op ε} (hstep : step clock s op = some s')
    (hsound : Sound clock s op) (hended : s'.ended) : s'.waiting = [] := by
  have hgoes {t : State ε} (hrunning : ¬s.ended) (ht : t.stopping = s.stopping) :
      ¬t.ended := by
    rw [State.ended, ht]
    exact hrunning
  rw [ContentRecorder.step.eq_def] at hstep
  split at hstep
  · cases hstep
  rename_i hrunning
  cases op with
  | click page path ancestors destinationUrl =>
    cases hstep
    exact absurd hended (hgoes hrunning handleClick_stopping)
  | input page el =>
    cases hstep
    refine absurd hended (hgoes hrunning ?_)
    rw [handleInput]
    split
    · rfl
    · split <;> rfl
  | change page el optionText =>
    cases hstep
    refine absurd hended (hgoes hrunning ?_)
    rw [handleChange]
    split
    · rfl
    · exact enqueueEvent_stopping
  | scroll el =>
    cases hstep
    refine absurd hended (hgoes hrunning ?_)
    rw [handleScroll]
    split <;> rfl
  | keydown page el key destinationUrl =>
    cases hstep
    exact absurd hended (hgoes hrunning handleKeydown_stopping)
  | submit page form submitter =>
    cases hstep
    exact absurd hended (hgoes hrunning handleSubmit_stopping)
  | navigate page tabTransition =>
    cases hstep
    refine absurd hended (hgoes hrunning ?_)
    rw [handleNavigate]
    split
    · rfl
    · exact enqueueEvent_stopping
  | inputTimeout page el =>
    dsimp only at hstep
    split at hstep
    · cases hstep
      have hstopping : (recordTextInput clock page el false s).stopping = s.stopping :=
        recordTextInput_stopping
      exact absurd hended (hgoes hrunning hstopping)
    · cases hstep
  | scrollTimeout page el =>
    dsimp only at hstep
    split at hstep
    · cases hstep
      have hstopping : (recordScroll clock page el false s).stopping = s.stopping :=
        recordScroll_stopping
      exact absurd hended (hgoes hrunning hstopping)
    · cases hstep
  | settle sequence =>
    obtain ⟨x, -, rfl⟩ := Option.map_eq_some_iff.mp hstep
    exact absurd hended (hgoes hrunning rfl)
  | timeOut sequence =>
    dsimp only at hstep
    rw [timeOut] at hstep
    split at hstep
    · cases hstep
      exact absurd hended (hgoes hrunning rfl)
    · cases hstep
  | runTask => exact absurd hended (runTask_running hrunning hstep)
  | beforeUnload page =>
    cases hstep
    exact flushScrollTimeouts_waiting.trans (flushInputTimeouts_waiting.trans hsound.2)
  | stopAsync page =>
    cases hstep
    refine absurd hended ?_
    rw [stopAsync.eq_def]
    split
    · exact Bool.false_ne_true
    · exact hrunning
  | captureFinal page =>
    dsimp only at hstep
    rw [captureFinal] at hstep
    split at hstep
    · cases hstep
      rw [State.ended, captureSnapshot_stopping] at hended
      exact absurd hended Bool.false_ne_true
    · cases hstep
  | finalizeStop =>
    dsimp only at hstep
    rw [finalizeStop.eq_def] at hstep
    split at hstep
    · split at hstep
      · cases hstep
      · cases hstep
        exact hsound.2
    · cases hstep

/-- The events are the actions in order, each before-action snapshot says which event it is for, and
no two are for one. -/
structure Recorded (s : State ε) : Prop where
  events : s.events = s.taken
  sorted : (s.events.map PageAgentEvent.timestamp).Pairwise (· ≤ ·)
  indexed : ∀ x ∈ s.snapshots, x.phase = .beforeAction →
    ∃ n < s.events.length, x.action = some n ∧ x.actionIndex = some n
  distinct : s.snapshots.Pairwise fun x y =>
    x.phase = .beforeAction → y.phase = .beforeAction → x.actionIndex ≠ y.actionIndex

omit [DecidableEq ε] in
/-- When nothing waits, all that was taken is recorded. -/
theorem Holds.recorded (h : Holds clock s) (hwaiting : s.waiting = []) : Recorded s := by
  have hevents : s.events = s.taken := by
    have horder : s.taken = s.events ++ s.waiting := Inv.order h
    rw [horder, hwaiting, append_nil]
  have hindexed : ∀ x ∈ s.snapshots, x.phase = .beforeAction →
      ∃ n < s.events.length, x.action = some n ∧ x.actionIndex = some n := by
    intro x hx hphase
    obtain ⟨n, haction, ⟨hindex, hn⟩ | ⟨-, task, htask, hsome, -⟩⟩ := Inv.tied h x hx hphase
    · exact ⟨n, hn, haction, hindex⟩
    · obtain ⟨event, hevent⟩ := Option.isSome_iff_exists.mp hsome
      have hmem : event ∈ s.waiting := mem_filterMap.mpr ⟨task, htask, hevent⟩
      rw [hwaiting] at hmem
      cases hmem
  refine ⟨hevents, hevents ▸ Inv.sorted h, hindexed, ?_⟩
  refine List.Pairwise.imp_of_mem ?_ (pairwise_append.mp (Inv.captured h).apart).1
  intro x y hx hy hapart hxphase hyphase heq
  obtain ⟨n, -, haction, hindex⟩ := hindexed x hx hxphase
  obtain ⟨m, -, haction', hindex'⟩ := hindexed y hy hyphase
  rw [hindex, hindex'] at heq
  exact hapart.2 hxphase hyphase (by rw [haction, haction', heq])

theorem holds_start (hclock : Monotone clock) : Holds clock (start clock page) := by
  have hblank : Holds clock { blank page with
      toIndexes := (dateNow clock (blank page).toIndexes).2 } := by
    refine ⟨⟨?_, .nil, ?_, ?_, ?_⟩, rfl, rfl, .nil, ?_, ?_, ?_⟩ <;>
      exact fun _ h => absurd h not_mem_nil
  have hinitial : Holds clock (captureSnapshot clock page (clock 0) .initial none
      { blank page with toIndexes := (dateNow clock (blank page).toIndexes).2 }) :=
    hblank.captureSnapshot hclock (by decide)
  have hqueue : (captureSnapshot clock page (clock 0) .initial none
      { blank page with
        toIndexes := (dateNow clock (blank page).toIndexes).2 }).eventQueue = [] := by
    rw [captureSnapshot]
    dsimp only
    split <;> rfl
  have hsequence : 0 < (captureSnapshot clock page (clock 0) .initial none
      { blank page with
        toIndexes := (dateNow clock (blank page).toIndexes).2 }).snapshotSequence := by
    rw [captureSnapshot]
    dsimp only
    split <;> exact Nat.zero_lt_one
  have hfirst : (⟨0, none, 0, false, false⟩ : QueueTask).event = none := rfl
  exact Inv.await hinitial hqueue hfirst hsequence

/-- The invariant of a run whose steps are sound. -/
structure Ordered (clock : Nat → Nat) (s : State ε) : Prop where
  holds : Holds clock s
  waiting : s.ended = true → s.waiting = []

theorem ordered_start (hclock : Monotone clock) : Ordered clock (start clock page) where
  holds := holds_start hclock
  waiting hended := by
    have hrunning : (start clock page).stopping = .no := captureSnapshot_stopping
    rw [State.ended, hrunning] at hended
    exact absurd hended Bool.false_ne_true

theorem Ordered.next (hclock : Monotone clock) (h : Ordered clock s) {op : Op ε}
    (hsound : Sound clock s op) : Ordered clock (next clock s op) := by
  rw [ContentRecorder.next]
  cases hstep : step clock s op with
  | none => exact h
  | some s' => exact ⟨h.holds.step hclock hstep hsound, waiting_of_ended hstep hsound⟩

/-- **The order of events.** A recording whose steps are all sound has, when it is stopped or its
document is left, every action that was taken once, in order, and each with its own snapshot. -/
theorem recorded_in_order (hclock : Monotone clock) {ops : List (Op ε)}
    (hsound : Meets (next clock) (Sound clock) (start clock page) ops)
    (hended : (run (next clock) (start clock page) ops).ended = true) :
    Recorded (run (next clock) (start clock page) ops) := by
  have hordered : Ordered clock (run (next clock) (start clock page) ops) :=
    hsound.invariant (I := Ordered clock) (ordered_start hclock) fun _ _ h => h.next hclock
  exact hordered.holds.recorded (hordered.waiting hended)

instance (clock : Nat → Nat) (s : State ε) (op : Op ε) : Decidable (Sound clock s op) :=
  match op with
  | .keydown page el key _ => inferInstanceAs (Decidable (_ ∧ (key = "Enter" →
      isEnterSubmissionElement (page.view el) = true → ∀ e ∈ (flushedByEnter clock page el s).taken,
        e.timestamp ≤ clock (s.readings + 1))))
  | .settle sequence => inferInstanceAs (Decidable (_ ∧ ∀ x ∈ s.captures, x.sequence = sequence →
      x.phase = .beforeAction → ∃ task ∈ s.eventQueue, task.event.isSome = true ∧
        task.timedOut = false ∧ task.sequence = sequence))
  | .beforeUnload _ | .finalizeStop => inferInstanceAs (Decidable (_ ∧ s.waiting = []))
  | .click .. | .input .. | .change .. | .scroll .. | .submit .. | .navigate .. | .inputTimeout ..
  | .scrollTimeout .. | .timeOut .. | .runTask | .stopAsync .. | .captureFinal .. =>
    inferInstanceAs (Decidable (_ ∧ True))

end Handlers

namespace Sample

def plain (tagName : String) : ElementView Nat where
  id := ""
  testId := none
  tagName := tagName
  classList := []
  parentTag := some "body"
  siblings := 1
  position := 1
  ariaLabel := none
  effectiveRole := none
  textContent := ""
  description := ⟨none, none, none, none, none, ⟨0, 0, 0, 0⟩⟩
  typeAttribute := none
  type := ""
  form := none
  href := none
  roleAttribute := none
  hasOnclick := false
  contentEditable := false
  scrollable := false

def page : Page Nat where
  url := "https://example.test/"
  escapeIdentifier := id
  view el := match el with
    | 1 => { plain "button" with typeAttribute := some "button" }
    | 2 => { plain "a" with href := some "/next" }
    | 3 => { plain "input" with type := "text", form := some 4 }
    | 4 => plain "form"
    | _ => plain "html"
  elements := [0, 1, 2, 3, 4]
  matched el := el == 1 || el == 2 || el == 3
  visible _ := true
  connected _ := true
  documentElement := 0
  body := none
  value _ := "text"
  scrollTop _ := 0
  scrollLeft _ := 0
  innerHeight := 600
  contains form el := form == 4 && el == 3
  defaultSubmitter _ := none
  hasTree := true

def stop (sequence : Nat) : List (Op Nat) :=
  [.stopAsync page, .captureFinal page, .settle sequence, .finalizeStop]

def steady : List (Op Nat) :=
  [.click page [1] [] none, .settle 0, .runTask, .settle 1, .runTask, .click page [2] [] none,
    .click page [1] [] none, .settle 3, .runTask] ++ stop 4

def clicks : List (Op Nat) :=
  [.click page [1] [] none, .click page [2] [] none, .settle 0, .runTask, .settle 1, .runTask] ++ stop 3

end Sample

/-- A click is handled before the next one. -/
theorem recorded_in_order_clicks : Recorded (run (next id) (start id Sample.page) Sample.steady) :=
  recorded_in_order monotone_id (by decide +kernel) (by decide +kernel)

/-- The click on the link is recorded at once, before the click on the button. -/
theorem swapped_clicks : ¬∀ clock : Nat → Nat, Monotone clock → ∀ (page : Page Nat) (ops : List (Op Nat)),
      (run (next clock) (start clock page) ops).ended = true →
        Recorded (run (next clock) (start clock page) ops) := by
  intro h
  have hrecorded := h id monotone_id Sample.page Sample.clicks (by decide +kernel)
  exact absurd hrecorded.events (by decide +kernel)

end ContentRecorder

end Aegis
