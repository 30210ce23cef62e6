import Aegis.Recording.EventQueue

/-!
# Recording.Handling

What the handlers of a recording keep: an event that is recorded at once finds no task waiting, and
an action takes a time that is not before those of the actions so far.
-/

namespace Aegis

namespace ContentRecorder

open Recorder (SnapshotPhase)

section Readings

variable {ε : Type} (clock : Nat → Nat) (page : Page ε)

theorem indexElement_readings (el : ε) (x : Indexes ε) :
    (indexElement clock page el x).2.readings = x.readings + 1 := by
  simp only [indexElement, dateNow]
  split <;> rfl

theorem getElementIndex_readings (el : ε) (x : Indexes ε) :
    (getElementIndex clock page el x).2.readings = x.readings + 1 :=
  indexElement_readings clock page el _

theorem enumerate_readings (els : List ε) (m : SelectorMap × Indexes ε) :
    m.2.readings ≤ (enumerate clock page els m).2.readings := by
  induction els generalizing m with
  | nil => exact Nat.le_refl _
  | cons el els ih =>
    refine Nat.le_trans ?_ (ih _)
    have := indexElement_readings clock page el m.2
    show m.2.readings ≤ (indexElement clock page el m.2).2.readings
    omega

theorem drain_readings (els : List ε) (m : SelectorMap × Indexes ε) :
    m.2.readings ≤ (drain clock page els m).2.readings := by
  induction els generalizing m with
  | nil => exact Nat.le_refl _
  | cons el els ih =>
    refine Nat.le_trans ?_ (ih _)
    have := indexElement_readings clock page el m.2
    show m.2.readings ≤ (indexElement clock page el m.2).2.readings
    omega

theorem buildSnapshotSelectorMap_readings [DecidableEq ε] (x : Indexes ε) :
    x.readings ≤ (buildSnapshotSelectorMap clock page x).2.readings := by
  refine Nat.le_trans
    (enumerate_readings clock page (findInteractableElements page) (fun _ => none, x)) ?_
  exact drain_readings clock page _ (_, { (enumerate clock page _ _).2 with
    pendingEventElements := [] })

end Readings

section Handlers

variable {ε : Type} {clock : Nat → Nat} {page : Page ε} {s : State ε} {event : PageAgentEvent}

/-- The invariant, at the time of the next reading of the clock. -/
def Holds (clock : Nat → Nat) (s : State ε) : Prop := Inv s.toProgress (clock s.readings)

theorem Holds.index (hclock : Monotone clock) (h : Holds clock s) {x : Indexes ε}
    (hx : s.readings ≤ x.readings) : Holds clock { s with toIndexes := x } :=
  Inv.mono h (hclock hx)

theorem Holds.times (hclock : Monotone clock) (h : Holds clock s) {r : Nat} (hr : s.readings ≤ r) :
    ∀ e ∈ s.taken, e.timestamp ≤ clock r :=
  fun e he => Nat.le_trans (Inv.past h e he) (hclock hr)

variable [DecidableEq ε]

theorem recordSync_readings : s.readings ≤ (recordSync clock page event s).readings :=
  buildSnapshotSelectorMap_readings clock page _

theorem Holds.recordSync (hclock : Monotone clock) (h : Holds clock s) (hwaiting : s.waiting = [])
    (htimes : ∀ e ∈ s.taken, e.timestamp ≤ event.timestamp)
    (hnow : event.timestamp ≤ clock s.readings) : Holds clock (recordSync clock page event s) :=
  Inv.mono (Inv.record h hwaiting htimes hnow rfl rfl rfl) (hclock recordSync_readings)

variable {timestamp : Nat} {phase : SnapshotPhase} {action : Option Nat}

theorem captureSnapshot_readings :
    s.readings ≤ (captureSnapshot clock page timestamp phase action s).readings := by
  have hle := buildSnapshotSelectorMap_readings clock page s.toIndexes
  simp only [captureSnapshot, beginSnapshot]
  split <;> exact hle

variable {bounded : Bool}

theorem enqueueEvent_readings : s.readings ≤ (enqueueEvent clock page event bounded s).readings :=
  captureSnapshot_readings

theorem captureSnapshot_begun :
    Begun s.toProgress (captureSnapshot clock page timestamp phase action s).toProgress
      (beginSnapshot clock page timestamp phase none action s).1 := by
  simp only [captureSnapshot]
  split
  · exact ⟨rfl, rfl, .inl ⟨rfl, rfl⟩⟩
  · exact ⟨rfl, rfl, .inr ⟨rfl, rfl⟩⟩

theorem captureSnapshot_keeps :
    (captureSnapshot clock page timestamp phase action s).eventQueue = s.eventQueue ∧
      (captureSnapshot clock page timestamp phase action s).taken = s.taken := by
  simp only [captureSnapshot]
  split <;> exact ⟨rfl, rfl⟩

theorem enqueueEvent_begun : Begun s.toProgress (enqueueEvent clock page event bounded s).toProgress
      (beginSnapshot clock page event.timestamp .beforeAction none (some s.taken.length) s).1 :=
  ⟨captureSnapshot_begun.next, captureSnapshot_begun.events, captureSnapshot_begun.placed⟩

theorem enqueueEvent_eventQueue : (enqueueEvent clock page event bounded s).eventQueue =
      s.eventQueue ++ [⟨s.snapshotSequence, some event, s.taken.length, bounded, false⟩] :=
  congrArg (· ++ _) captureSnapshot_keeps.1

theorem enqueueEvent_taken : (enqueueEvent clock page event bounded s).taken = s.taken ++ [event] :=
  congrArg (· ++ _) captureSnapshot_keeps.2

theorem Holds.enqueueEvent (hclock : Monotone clock) (h : Holds clock s)
    (htimes : ∀ e ∈ s.taken, e.timestamp ≤ event.timestamp)
    (hnow : event.timestamp ≤ clock s.readings) :
    Holds clock (enqueueEvent clock page event bounded s) := by
  refine Inv.mono ?_ (hclock enqueueEvent_readings)
  exact Inv.enqueue h enqueueEvent_begun _ htimes hnow rfl rfl rfl rfl ⟨rfl, rfl, rfl, rfl⟩
    enqueueEvent_eventQueue enqueueEvent_taken

theorem Holds.captureSnapshot (hclock : Monotone clock) (h : Holds clock s)
    (hphase : phase ≠ .beforeAction) :
    Holds clock (captureSnapshot clock page timestamp phase none s) := by
  refine Inv.mono ?_ (hclock captureSnapshot_readings)
  exact Inv.observe h captureSnapshot_begun rfl hphase rfl captureSnapshot_keeps.1
    captureSnapshot_keeps.2

omit [DecidableEq ε] in
theorem Holds.stamped (hclock : Monotone clock) (h : Holds clock s) (page : Page ε) (el : ε) :
    Holds clock { s with
        toIndexes := (dateNow clock (getElementIndex clock page el s.toIndexes).2).2 } ∧
      ∀ e ∈ s.taken, e.timestamp ≤ clock (getElementIndex clock page el s.toIndexes).2.readings := by
  have hr := getElementIndex_readings clock page el s.toIndexes
  refine ⟨h.index hclock ?_, h.times hclock (by omega)⟩
  show s.readings ≤ (getElementIndex clock page el s.toIndexes).2.readings + 1
  omega

theorem Holds.recordTextInput (hclock : Monotone clock) (h : Holds clock s) {el : ε} {sync : Bool}
    (hwaiting : sync → s.waiting = []) :
    Holds clock (recordTextInput clock page el sync s) := by
  obtain ⟨hindexed, htimes⟩ := h.stamped hclock page el
  cases sync with
  | true => exact hindexed.recordSync hclock (hwaiting rfl) htimes (hclock (Nat.le_succ _))
  | false => exact hindexed.enqueueEvent hclock htimes (hclock (Nat.le_succ _))

theorem Holds.recordScroll (hclock : Monotone clock) (h : Holds clock s) {el : ε} {sync : Bool}
    (hwaiting : sync → hasScrolled page el s = true → s.waiting = []) :
    Holds clock (recordScroll clock page el sync s) := by
  rw [ContentRecorder.recordScroll]
  split
  · obtain ⟨hstamped, htimes⟩ := h.stamped hclock page el
    have hindexed : Holds clock { s with
        toIndexes := (dateNow clock (getElementIndex clock page el s.toIndexes).2).2
        scrollState := (el, scrolledTo page el) :: s.scrollState.filter fun p => p.1 ≠ el } :=
      hstamped
    cases sync with
    | true =>
      exact hindexed.recordSync hclock (hwaiting rfl ‹_›) htimes (hclock (Nat.le_succ _))
    | false => exact hindexed.enqueueEvent hclock htimes (hclock (Nat.le_succ _))
  · exact h

omit [DecidableEq ε] in
theorem flush_keeps {record drop : ε → State ε → State ε} {P : State ε → Prop} {els : List ε}
    (hrecord : ∀ el ∈ els, page.connected el → ∀ s, P s → P (record el s))
    (hdrop : ∀ el s, P s → P (drop el s)) (h : P s) : P (flush page record drop els s) := by
  induction els generalizing s with
  | nil => exact h
  | cons el els ih =>
    refine ih (fun other hother => hrecord other (List.mem_cons_of_mem _ hother)) ?_
    refine hdrop el _ ?_
    split
    · exact hrecord el List.mem_cons_self ‹_› s h
    · exact h

def flushesInput (page : Page ε) (s : State ε) : Bool := s.inputTimeouts.any page.connected

def flushesScroll (page : Page ε) (s : State ε) : Bool :=
  s.scrollTimeouts.any fun el => page.connected el && hasScrolled page el s

theorem flushInputTimeouts_readings : s.readings ≤ (flushInputTimeouts clock page s).readings := by
  refine flush_keeps (P := fun t => s.readings ≤ t.readings) (fun el _ _ t ht => ?_)
    (fun _ _ ht => ht) (Nat.le_refl _)
  refine Nat.le_trans ht (Nat.le_trans ?_ recordSync_readings)
  have hr := getElementIndex_readings clock page el t.toIndexes
  show t.readings ≤ (getElementIndex clock page el t.toIndexes).2.readings + 1
  omega

theorem flushInputTimeouts_eventQueue : (flushInputTimeouts clock page s).eventQueue = s.eventQueue :=
  flush_keeps (P := fun t => t.eventQueue = s.eventQueue) (fun _ _ _ _ ht => ht)
    (fun _ _ ht => ht) rfl

theorem flushInputTimeouts_stopping : (flushInputTimeouts clock page s).stopping = s.stopping :=
  flush_keeps (P := fun t => t.stopping = s.stopping) (fun _ _ _ _ ht => ht)
    (fun _ _ ht => ht) rfl

theorem flushInputTimeouts_waiting : (flushInputTimeouts clock page s).waiting = s.waiting :=
  congrArg (List.filterMap QueueTask.event) flushInputTimeouts_eventQueue

theorem Holds.flushInputTimeouts (hclock : Monotone clock) (h : Holds clock s)
    (hwaiting : flushesInput page s → s.waiting = []) :
    Holds clock (flushInputTimeouts clock page s) := by
  have hkept : Holds clock (ContentRecorder.flushInputTimeouts clock page s) ∧
      (ContentRecorder.flushInputTimeouts clock page s).waiting = s.waiting := by
    refine flush_keeps (P := fun t => Holds clock t ∧ t.waiting = s.waiting) ?_
      (fun _ _ ht => ht) ⟨h, rfl⟩
    intro el hel hconnected t ht
    have hempty : s.waiting = [] := hwaiting (List.any_eq_true.mpr ⟨el, hel, hconnected⟩)
    exact ⟨ht.1.recordTextInput hclock fun _ => ht.2.trans hempty, ht.2⟩
  exact hkept.1

theorem recordScroll_eventQueue (el : ε) :
    (recordScroll clock page el true s).eventQueue = s.eventQueue := by
  rw [recordScroll]
  split <;> rfl

theorem flushScrollTimeouts_eventQueue : (flushScrollTimeouts clock page s).eventQueue = s.eventQueue :=
  flush_keeps (P := fun t => t.eventQueue = s.eventQueue)
    (fun el _ _ _ ht => (recordScroll_eventQueue el).trans ht) (fun _ _ ht => ht) rfl

theorem flushScrollTimeouts_waiting : (flushScrollTimeouts clock page s).waiting = s.waiting :=
  congrArg (List.filterMap QueueTask.event) flushScrollTimeouts_eventQueue

theorem Holds.flushScrollTimeouts (hclock : Monotone clock) (h : Holds clock s)
    (hwaiting : flushesScroll page s → s.waiting = []) :
    Holds clock (flushScrollTimeouts clock page s) := by
  by_cases hflushes : flushesScroll page s
  · have hkept : Holds clock (ContentRecorder.flushScrollTimeouts clock page s) ∧
        (ContentRecorder.flushScrollTimeouts clock page s).waiting = s.waiting := by
      refine flush_keeps (P := fun t => Holds clock t ∧ t.waiting = s.waiting) ?_
        (fun _ _ ht => ht) ⟨h, rfl⟩
      intro el _ _ t ht
      refine ⟨ht.1.recordScroll hclock fun _ _ => ht.2.trans (hwaiting hflushes), ?_⟩
      exact (congrArg (List.filterMap QueueTask.event) (recordScroll_eventQueue el)).trans ht.2
    exact hkept.1
  · have hkept : Holds clock (ContentRecorder.flushScrollTimeouts clock page s) ∧
        (ContentRecorder.flushScrollTimeouts clock page s).scrollState = s.scrollState := by
      refine flush_keeps (P := fun t => Holds clock t ∧ t.scrollState = s.scrollState) ?_
        (fun _ _ ht => ht) ⟨h, rfl⟩
      intro el hel hconnected t ht
      have hsame : hasScrolled page el t = hasScrolled page el s := by
        rw [hasScrolled, hasScrolled, scrolledBy, scrolledBy, ht.2]
      have hstill : ¬hasScrolled page el t := by
        rw [hsame]
        intro hscrolled
        refine hflushes (List.any_eq_true.mpr ⟨el, hel, ?_⟩)
        rw [hconnected, hscrolled]
        rfl
      rw [ContentRecorder.recordScroll, if_neg hstill]
      exact ht
    exact hkept.1

structure Quiet (s t : State ε) : Prop where
  progress : t.toProgress = s.toProgress
  readings : s.readings ≤ t.readings
  inputTimeouts : t.inputTimeouts = s.inputTimeouts
  stopping : t.stopping = s.stopping
  pins : t.pendingEventElements = s.pendingEventElements
  selectorToIndex : t.selectorToIndex = s.selectorToIndex

omit [DecidableEq ε] in
theorem Quiet.refl (s : State ε) : Quiet s s :=
  ⟨rfl, Nat.le_refl _, rfl, rfl, rfl, rfl⟩

omit [DecidableEq ε] in
theorem Holds.quiet (hclock : Monotone clock) (h : Holds clock s) {t : State ε}
    (hquiet : Quiet s t) : Holds clock t := by
  rw [Holds, hquiet.progress]
  exact Inv.mono h (hclock hquiet.readings)

omit [DecidableEq ε] in
theorem Quiet.trans {t u : State ε} (h : Quiet s t) (h' : Quiet t u) : Quiet s u :=
  ⟨h'.progress.trans h.progress, Nat.le_trans h.readings h'.readings,
    h'.inputTimeouts.trans h.inputTimeouts, h'.stopping.trans h.stopping, h'.pins.trans h.pins,
    h'.selectorToIndex.trans h.selectorToIndex⟩

theorem isSyntheticSubmitterClickFromEnter_quiet (el : ε) :
    Quiet s (isSyntheticSubmitterClickFromEnter clock page el s).2 := by
  unfold isSyntheticSubmitterClickFromEnter
  split
  · exact Quiet.refl s
  · exact ⟨rfl, Nat.le_succ _, rfl, rfl, rfl, rfl⟩

variable (clock page s) in
theorem noteSubmitter_quiet (el : ε) : Quiet s (noteSubmitter clock page el s).2 := by
  rw [noteSubmitter]
  split
  · refine Quiet.trans ?_ (isSyntheticSubmitterClickFromEnter_quiet el)
    exact ⟨rfl, Nat.le_succ _, rfl, rfl, rfl, rfl⟩
  · exact Quiet.refl s

omit [DecidableEq ε] in
variable (clock page s) in
theorem noteEnter_quiet (el : ε) : Quiet s (noteEnter clock page el s) := by
  rw [noteEnter]
  split
  · exact ⟨rfl, Nat.le_succ _, rfl, rfl, rfl, rfl⟩
  · exact Quiet.refl s

variable (clock s) in
theorem isEnterSubmit_quiet (form : ε) : Quiet s (isEnterSubmit clock form s).2 := by
  rw [isEnterSubmit]
  split
  · split
    · exact ⟨rfl, Nat.le_succ _, rfl, rfl, rfl, rfl⟩
    · exact Quiet.refl s
  · exact Quiet.refl s

variable (clock s) in
theorem isClickSubmit_quiet (submitter : Option ε) : Quiet s (isClickSubmit clock submitter s).2 := by
  unfold isClickSubmit
  split
  · split
    · exact ⟨rfl, Nat.le_succ _, rfl, rfl, rfl, rfl⟩
    · exact Quiet.refl s
  · exact Quiet.refl s

omit [DecidableEq ε] in
theorem Quiet.waiting {t : State ε} (h : Quiet s t) : t.waiting = s.waiting :=
  congrArg Progress.waiting h.progress

omit [DecidableEq ε] in
theorem Quiet.flushesInput {t : State ε} (h : Quiet s t) : flushesInput page t = flushesInput page s := by
  rw [ContentRecorder.flushesInput, ContentRecorder.flushesInput, h.inputTimeouts]

theorem Holds.recordClick (hclock : Monotone clock) (h : Holds clock s) {el : ε}
    {destinationUrl : Option String}
    (hwaiting : (flushesInput page s || elementWillNavigate (page.view el)) →
      s.waiting = []) : Holds clock (recordClick clock page el destinationUrl s) := by
  have hflushed : Holds clock (ContentRecorder.flushInputTimeouts clock page s) :=
    h.flushInputTimeouts hclock fun hflushes => hwaiting (by rw [hflushes]; rfl)
  have hempty : elementWillNavigate (page.view el) →
      (ContentRecorder.flushInputTimeouts clock page s).waiting = [] := fun hnavigates =>
    flushInputTimeouts_waiting.trans (hwaiting (by rw [hnavigates, Bool.or_true]))
  rw [ContentRecorder.recordClick]
  generalize ContentRecorder.flushInputTimeouts clock page s = t at hflushed hempty ⊢
  obtain ⟨hindexed, htimes⟩ := hflushed.stamped hclock page el
  dsimp only
  split
  · exact hindexed.recordSync hclock (hempty ‹_›) htimes (hclock (Nat.le_succ _))
  · exact hindexed.enqueueEvent hclock htimes (hclock (Nat.le_succ _))

theorem Holds.recordSubmit (hclock : Monotone clock) (h : Holds clock s) {form : ε}
    {submitter : Option ε} (hwaiting : s.waiting = []) :
    Holds clock (recordSubmit clock page form submitter s) := by
  have hflushed : Holds clock (ContentRecorder.flushInputTimeouts clock page s) :=
    h.flushInputTimeouts hclock fun _ => hwaiting
  have hempty : (ContentRecorder.flushInputTimeouts clock page s).waiting = [] :=
    flushInputTimeouts_waiting.trans hwaiting
  rw [ContentRecorder.recordSubmit]
  generalize ContentRecorder.flushInputTimeouts clock page s = t at hflushed hempty ⊢
  obtain ⟨hindexed, htimes⟩ := hflushed.stamped hclock page form
  cases submitter with
  | none => exact hindexed.recordSync hclock hempty htimes (hclock (Nat.le_succ _))
  | some el =>
    have hr := getElementIndex_readings clock page form t.toIndexes
    have hform : Holds clock { t with
        toIndexes := (getElementIndex clock page form t.toIndexes).2 } :=
      hflushed.index hclock (by rw [hr]; exact Nat.le_succ _)
    obtain ⟨hindexed, htimes⟩ := hform.stamped hclock page el
    exact hindexed.recordSync hclock hempty htimes (hclock (Nat.le_succ _))

end Handlers

end ContentRecorder

end Aegis
