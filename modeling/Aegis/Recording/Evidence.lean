import Aegis.Lib.Run
import Aegis.Recording.Handling
import Aegis.Recording.Indexing

/-!
# Recording.Evidence

Every event of a recording has the snapshot that was captured for it, with the time of the event and
an entry under each of its indices.
-/

namespace Aegis

open List Option

namespace ContentRecorder

open Recorder (SnapshotPhase)

def EventBody.indices : EventBody → List Nat
  | click index _ => [index]
  | inputText index _ => [index]
  | selectOption index _ => [index]
  | scroll _ _ _ index => [index]
  | submitForm index submitterIndex => index :: submitterIndex.toList
  | navigate _ _ => []

/-- The snapshot is that of an action with a number, and shows what the event of the action
names. -/
structure Shows (x : DomSnapshot) (n : Nat) (event : PageAgentEvent) : Prop where
  phase : x.phase = .beforeAction
  action : x.action = some n
  timestamp : x.timestamp = event.timestamp
  entries : ∀ index ∈ event.body.indices, (x.selectorMap index).isSome = true

/-- The invariant: each event has a snapshot that shows it. -/
structure Evidence (p : Progress) : Prop where
  captured : Captured p
  tasks : ∀ task ∈ p.eventQueue, ∀ event, task.event = some event → p.taken[task.action]? = some event ∧
      ∃ x ∈ p.all, x.sequence = task.sequence ∧ Shows x task.action event
  bounded : ∀ task ∈ p.eventQueue, task.bounded = true ∨ task.timedOut = true →
    ∀ event, task.event = some event → event.body.indices = []
  events : ∀ event ∈ p.events, event.body.indices ≠ [] →
    ∃ n, p.taken[n]? = some event ∧ ∃ x ∈ p.snapshots, Shows x n event

section Invariant

variable {p p' : Progress} {x : DomSnapshot} {event : PageAgentEvent}

theorem getElem?_append_of_some {l : List PageAgentEvent} {n : Nat} (h : l[n]? = some event)
    (l' : List PageAgentEvent) : (l ++ l')[n]? = some event := by
  obtain ⟨hn, -⟩ := List.getElem?_eq_some_iff.mp h
  rw [getElem?_append_left hn, h]

variable {rest : List PageAgentEvent}

theorem Evidence.tasks_mono (h : Evidence p) (hall : ∀ y ∈ p.all, y ∈ p'.all)
    (htaken : p'.taken = p.taken ++ rest) :
    ∀ task ∈ p.eventQueue, ∀ event, task.event = some event → p'.taken[task.action]? = some event ∧
        ∃ x ∈ p'.all, x.sequence = task.sequence ∧ Shows x task.action event := by
  intro task htask event hevent
  obtain ⟨hn, x, hx, hshows⟩ := h.tasks task htask event hevent
  refine ⟨?_, x, hall x hx, hshows⟩
  rw [htaken]
  exact getElem?_append_of_some hn rest

theorem Evidence.events_mono (h : Evidence p) (hsnapshots : ∀ y ∈ p.snapshots, y ∈ p'.snapshots)
    (htaken : p'.taken = p.taken ++ rest) :
    ∀ event ∈ p.events, event.body.indices ≠ [] →
      ∃ n, p'.taken[n]? = some event ∧ ∃ x ∈ p'.snapshots, Shows x n event := by
  intro event hevent hindices
  obtain ⟨n, hn, x, hx, hshows⟩ := h.events event hevent hindices
  refine ⟨n, ?_, x, hsnapshots x hx, hshows⟩
  rw [htaken]
  exact getElem?_append_of_some hn rest

theorem Evidence.record (h : Evidence p) (hsequence : x.sequence = p.snapshotSequence)
    (hshows : Shows x p.taken.length event) :
    Evidence { p with
      snapshotSequence := p.snapshotSequence + 1
      snapshots := p.snapshots ++ [x]
      events := p.events ++ [event]
      taken := p.taken ++ [event] } := by
  refine ⟨?_, h.tasks_mono ?_ rfl, h.bounded, ?_⟩
  · refine h.captured.add (x := x) ?_ hsequence rfl ?_ (by simp) fun task htask => .inl htask
    · exact perm_snapshots p x
    · intro _
      exact ⟨hshows.action, by simp⟩
  · intro y hy
    rcases mem_append.mp hy with hy | hy
    · exact mem_append_left _ (mem_append_left _ hy)
    · exact mem_append_right _ hy
  · intro other hother hindices
    rcases mem_append.mp hother with hother | hother
    · exact h.events_mono (fun y hy => mem_append_left _ hy) rfl other hother hindices
    · obtain rfl := mem_singleton.mp hother
      exact ⟨p.taken.length, by simp, x, by simp, hshows⟩

theorem Evidence.enqueue (h : Evidence p) (hb : Begun p p' x) (task : QueueTask)
    (hsequence : x.sequence = p.snapshotSequence) (hshows : Shows x p.taken.length event)
    (htask : task.sequence = p.snapshotSequence ∧ task.event = some event ∧
      task.action = p.taken.length ∧ task.timedOut = false)
    (hbounded : task.bounded → event.body.indices = [])
    (hqueue : p'.eventQueue = p.eventQueue ++ [task]) (htaken : p'.taken = p.taken ++ [event]) :
    Evidence p' := by
  obtain ⟨htask, hevent, hnumber, htimed⟩ := htask
  have hall : ∀ y ∈ p.all, y ∈ p'.all := fun y hy =>
    hb.perm.mem_iff.mpr (mem_cons_of_mem _ hy)
  refine ⟨h.captured.enqueue hb hsequence hshows.phase hshows.action htask hnumber hqueue htaken,
    ?_, ?_, ?_⟩
  · intro other hother
    rw [hqueue] at hother
    rcases mem_append.mp hother with hother | hother
    · exact h.tasks_mono hall htaken other hother
    · obtain rfl := mem_singleton.mp hother
      intro e he
      obtain rfl : event = e := mem_unique hevent he
      refine ⟨by simp [htaken, hnumber], x, hb.perm.mem_iff.mpr mem_cons_self, ?_, ?_⟩
      · rw [hsequence, htask]
      · rw [hnumber]
        exact hshows
  · intro other hother hor e he
    rw [hqueue] at hother
    rcases mem_append.mp hother with hother | hother
    · exact h.bounded other hother hor e he
    · obtain rfl := mem_singleton.mp hother
      obtain rfl : event = e := mem_unique hevent he
      rcases hor with hor | hor
      · exact hbounded hor
      · rw [htimed] at hor
        cases hor
  · rw [hb.events]
    exact h.events_mono hb.kept htaken

theorem Evidence.observe (h : Evidence p) (hb : Begun p p' x)
    (hsequence : x.sequence = p.snapshotSequence) (hphase : x.phase ≠ .beforeAction)
    (hqueue : p'.eventQueue = p.eventQueue) (htaken : p'.taken = p.taken) : Evidence p' := by
  have happend : p'.taken = p.taken ++ [] := by rw [htaken, append_nil]
  refine ⟨h.captured.observe hb hsequence hphase hqueue htaken, ?_, ?_, ?_⟩
  · rw [hqueue]
    exact h.tasks_mono (fun y hy => hb.perm.mem_iff.mpr (mem_cons_of_mem _ hy)) happend
  · rw [hqueue]
    exact h.bounded
  · rw [hb.events]
    exact h.events_mono hb.kept happend

theorem Evidence.settle (h : Evidence p) {sequence : Nat}
    (hfind : p.captures.find? (fun y => y.sequence = sequence) = some x) :
    Evidence { p with
      captures := p.captures.filter fun y => y.sequence ≠ sequence
      snapshots := p.snapshots ++ [x] } := by
  have hx : x ∈ p.captures := mem_of_find?_eq_some hfind
  have hsequence : x.sequence = sequence := by simpa using find?_some hfind
  have happend : p.taken = p.taken ++ [] := (append_nil _).symm
  refine ⟨h.captured.settle hfind, h.tasks_mono ?_ happend, h.bounded,
    h.events_mono (fun y hy => mem_append_left _ hy) happend⟩
  intro y hy
  rcases mem_append.mp hy with hy | hy
  · exact mem_append_left _ (mem_append_left _ hy)
  · by_cases hsame : y.sequence = sequence
    · -- the capture that has ended is the only one with its number
      have hyx : y = x := by
        by_contra hne
        have hright := (pairwise_append.mp h.captured.apart).2.1
        exact (hright.forall hy hx hne).1 (hsame.trans hsequence.symm)
      rw [hyx]
      exact mem_append_left _ (mem_append_right _ mem_cons_self)
    · refine mem_append_right _ (mem_filter.mpr ⟨hy, ?_⟩)
      exact decide_eq_true hsame

theorem Evidence.timeOut (h : Evidence p) (sequence : Nat) :
    Evidence { p with eventQueue := p.eventQueue.map (givenUp sequence) } := by
  refine ⟨h.captured.timeOut sequence, ?_, ?_, h.events⟩
  · intro task hmem event hevent
    obtain ⟨old, hold, rfl⟩ := List.mem_map.mp hmem
    rw [givenUp_event] at hevent
    rw [givenUp_action, givenUp_sequence]
    exact h.tasks old hold event hevent
  · intro task hmem hor event hevent
    obtain ⟨old, hold, rfl⟩ := List.mem_map.mp hmem
    rw [givenUp_event] at hevent
    refine h.bounded old hold ?_ event hevent
    by_cases hboth : old.sequence = sequence ∧ old.bounded = true
    · exact .inl hboth.2
    · rwa [givenUp, if_neg hboth] at hor

theorem Shows.link {n : Nat} (h : Shows x n event) (sequence index : Nat) :
    Shows (linked sequence index x) n event := by
  refine ⟨?_, ?_, ?_, ?_⟩
  · rw [linked_phase, h.phase]
  · rw [linked_action, h.action]
  · rw [← h.timestamp, linked]
    split <;> rfl
  · rw [linked]
    split <;> exact h.entries

variable {task : QueueTask} {rest : List QueueTask}

theorem Evidence.skipTask (h : Evidence p)
    (hqueue : p.eventQueue = task :: rest) : Evidence { p with eventQueue := rest } := by
  have hsub : ∀ other ∈ rest, other ∈ p.eventQueue := fun other hother => by
    rw [hqueue]
    exact mem_cons_of_mem _ hother
  exact ⟨h.captured.dropTask hqueue, fun other hother => h.tasks other (hsub other hother),
    fun other hother => h.bounded other (hsub other hother), h.events⟩

theorem Evidence.runTask (h : Evidence p)
    (hqueue : p.eventQueue = task :: rest) (hevent : task.event = some event)
    (hsettled : task.timedOut ∨ ∀ y ∈ p.captures, y.sequence ≠ task.sequence) :
    Evidence { p with
      eventQueue := rest
      snapshots := if task.timedOut then p.snapshots
        else p.snapshots.map (linked task.sequence p.events.length)
      events := p.events ++ [event] } := by
  have hmem : task ∈ p.eventQueue := by
    rw [hqueue]
    exact mem_cons_self
  have hsub : ∀ other ∈ rest, other ∈ p.eventQueue := fun other hother => by
    rw [hqueue]
    exact mem_cons_of_mem _ hother
  have hlink : ∀ n event, ∀ y ∈ p.snapshots, Shows y n event → ∃ z ∈ (if task.timedOut then p.snapshots
        else p.snapshots.map (linked task.sequence p.events.length)),
        z.sequence = y.sequence ∧ Shows z n event := by
    intro n event y hy hshows
    split
    · exact ⟨y, hy, rfl, hshows⟩
    · exact ⟨_, List.mem_map_of_mem hy, linked_sequence _ _, hshows.link _ _⟩
  refine ⟨?_, ?_, fun other hother => h.bounded other (hsub other hother), ?_⟩
  · have hdropped : Captured { p with
        snapshots := if task.timedOut then p.snapshots
          else p.snapshots.map (linked task.sequence p.events.length)
        eventQueue := rest } :=
      (h.captured.linkUnless task.timedOut _ _).dropTask hqueue
    exact ⟨hdropped.fresh, hdropped.apart, hdropped.known, hdropped.below, hdropped.paired⟩
  · intro other hother event hevent
    obtain ⟨hn, x, hx, hsequence, hshows⟩ := h.tasks other (hsub other hother) event hevent
    refine ⟨hn, ?_⟩
    rcases mem_append.mp hx with hx | hx
    · obtain ⟨z, hz, hsame, hshows'⟩ := hlink _ _ x hx hshows
      exact ⟨z, mem_append_left _ hz, hsame.trans hsequence, hshows'⟩
    · exact ⟨x, mem_append_right _ hx, hsequence, hshows⟩
  · intro other hother hindices
    rcases mem_append.mp hother with hother | hother
    · obtain ⟨n, hn, x, hx, hshows⟩ := h.events other hother hindices
      obtain ⟨z, hz, -, hshows'⟩ := hlink _ _ x hx hshows
      exact ⟨n, hn, z, hz, hshows'⟩
    · obtain rfl := mem_singleton.mp hother
      obtain ⟨hn, x, hx, hsequence, hshows⟩ := h.tasks task hmem other hevent
      rcases hsettled with htimed | hsettled
      · exact absurd (h.bounded task hmem (.inr htimed) other hevent) hindices
      · rcases mem_append.mp hx with hx | hx
        · obtain ⟨z, hz, -, hshows'⟩ := hlink _ _ x hx hshows
          exact ⟨_, hn, z, hz, hshows'⟩
        · exact absurd hsequence (hsettled x hx)

theorem Evidence.removeFinals (h : Evidence p) :
    Evidence { p with
      snapshots := p.snapshots.filter fun x => x.phase ≠ SnapshotPhase.final } := by
  have hkeep : ∀ n event, ∀ y ∈ p.snapshots, Shows y n event →
      y ∈ p.snapshots.filter fun x => x.phase ≠ SnapshotPhase.final := by
    intro n event y hy hshows
    refine mem_filter.mpr ⟨hy, ?_⟩
    rw [hshows.phase]
    rfl
  refine ⟨h.captured.removeFinals, ?_, h.bounded, ?_⟩
  · intro task htask event hevent
    obtain ⟨hn, x, hx, hsequence, hshows⟩ := h.tasks task htask event hevent
    refine ⟨hn, x, ?_, hsequence, hshows⟩
    rcases mem_append.mp hx with hx | hx
    · exact mem_append_left _ (hkeep _ _ x hx hshows)
    · exact mem_append_right _ hx
  · intro event hevent hindices
    obtain ⟨n, hn, x, hx, hshows⟩ := h.events event hevent hindices
    exact ⟨n, hn, x, hkeep _ _ x hx hshows, hshows⟩

theorem Evidence.sort (h : Evidence p) : Evidence { p with snapshots := bySequence p.snapshots } := by
  have hperm := bySequence_perm p.snapshots
  have happend : p.taken = p.taken ++ [] := (append_nil _).symm
  refine ⟨h.captured.sort, h.tasks_mono ?_ happend, h.bounded,
    h.events_mono (fun y hy => hperm.mem_iff.mpr hy) happend⟩
  intro y hy
  rcases mem_append.mp hy with hy | hy
  · exact mem_append_left _ (hperm.mem_iff.mpr hy)
  · exact mem_append_right _ hy

theorem Evidence.await (h : Evidence p) (hevent : task.event = none)
    (hsequence : task.sequence < p.snapshotSequence) :
    Evidence { p with eventQueue := [task] } := by
  have hnone : ∀ other ∈ [task], other.event = none := fun other hother => by
    rw [mem_singleton.mp hother, hevent]
  refine ⟨⟨h.captured.fresh, h.captured.apart, h.captured.known, ?_, ?_⟩, ?_, ?_, h.events⟩
  · intro other hother
    rw [mem_singleton.mp hother]
    exact hsequence
  · intro other hother hsome
    rw [hnone other hother] at hsome
    cases hsome
  · intro other hother event hsome
    rw [hnone other hother] at hsome
    cases hsome
  · intro other hother _ event hsome
    rw [hnone other hother] at hsome
    cases hsome

end Invariant

section Handlers

variable {ε : Type} {clock : Nat → Nat} {page : Page ε} {s : State ε} {event : PageAgentEvent}
  {x : Indexes ε} {el : ε}

theorem mem_pinEventElement : el ∈ (pinEventElement el x).pendingEventElements := by
  rw [pinEventElement]
  dsimp only
  split
  · rename_i hlong
    rw [length_append, length_singleton] at hlong
    rw [length_append, length_singleton, drop_append_of_le_length (by omega)]
    simp
  · simp

theorem mem_getElementIndex : el ∈ (getElementIndex clock page el x).2.pendingEventElements := by
  rw [getElementIndex, indexElement_pins]
  exact mem_pinEventElement

variable [DecidableEq ε]

def Evident (page : Page ε) (x : Indexes ε) (body : EventBody) : Prop :=
  ∀ index ∈ body.indices, ∃ el,
    (el ∈ x.pendingEventElements ∨ el ∈ findInteractableElements page) ∧
      x.indexOf (identityOf page el) = some index

theorem Evident.shows (h : Evident page s.toIndexes event.body) {actionIndex : Option Nat} :
    Shows (beginSnapshot clock page event.timestamp .beforeAction actionIndex
      (some s.taken.length) s).1 s.taken.length event := by
  refine ⟨rfl, rfl, rfl, fun index hindex => ?_⟩
  obtain ⟨el, hel, hlookup⟩ := h index hindex
  exact buildSnapshotSelectorMap_isSome hel hlookup

/-- Each event has its evidence, and no element is pinned. -/
structure Backed (s : State ε) : Prop where
  evidence : Evidence s.toProgress
  pins : s.pendingEventElements = []

theorem Evidence.recordSync (h : Evidence s.toProgress)
    (hevident : Evident page s.toIndexes event.body) : Backed (recordSync clock page event s) where
  evidence := Evidence.record h rfl hevident.shows
  pins := buildSnapshotSelectorMap_pins

variable {timestamp : Nat} {phase : SnapshotPhase}

theorem captureSnapshot_pins {action : Option Nat} :
    (captureSnapshot clock page timestamp phase action s).pendingEventElements = [] := by
  have hpins : (buildSnapshotSelectorMap clock page s.toIndexes).2.pendingEventElements = [] :=
    buildSnapshotSelectorMap_pins
  rw [captureSnapshot]
  dsimp only
  split <;> exact hpins

theorem Evidence.enqueueEvent (h : Evidence s.toProgress)
    (hevident : Evident page s.toIndexes event.body) {bounded : Bool}
    (hbounded : bounded → event.body.indices = []) :
    Backed (enqueueEvent clock page event bounded s) where
  evidence := Evidence.enqueue h enqueueEvent_begun _ rfl hevident.shows ⟨rfl, rfl, rfl, rfl⟩
    hbounded enqueueEvent_eventQueue enqueueEvent_taken
  pins := captureSnapshot_pins

theorem Evidence.captureSnapshot (h : Evidence s.toProgress) (hphase : phase ≠ .beforeAction) :
    Backed (captureSnapshot clock page timestamp phase none s) where
  evidence := Evidence.observe h captureSnapshot_begun rfl hphase captureSnapshot_keeps.1
    captureSnapshot_keeps.2
  pins := captureSnapshot_pins

variable {body : EventBody}

theorem evident_of_index (hbody : body.indices = [(getElementIndex clock page el x).1]) :
    Evident page (dateNow clock (getElementIndex clock page el x).2).2 body := by
  intro index hindex
  rw [hbody] at hindex
  obtain rfl := mem_singleton.mp hindex
  exact ⟨el, .inl mem_getElementIndex, getElementIndex_indexOf⟩

variable {t : State ε}

theorem Evidence.recordSync_stamped (h : Evidence s.toProgress) (hprogress : t.toProgress = s.toProgress)
    (hindexes : t.toIndexes = (dateNow clock (getElementIndex clock page el s.toIndexes).2).2)
    (hbody : body.indices = [(getElementIndex clock page el s.toIndexes).1]) :
    Backed (ContentRecorder.recordSync clock page ⟨body, timestamp⟩ t) := by
  refine Evidence.recordSync (hprogress ▸ h) ?_
  rw [hindexes]
  exact evident_of_index hbody

theorem Evidence.enqueueEvent_stamped (h : Evidence s.toProgress) (hprogress : t.toProgress = s.toProgress)
    (hindexes : t.toIndexes = (dateNow clock (getElementIndex clock page el s.toIndexes).2).2)
    (hbody : body.indices = [(getElementIndex clock page el s.toIndexes).1]) :
    Backed (ContentRecorder.enqueueEvent clock page ⟨body, timestamp⟩ false t) := by
  refine Evidence.enqueueEvent (hprogress ▸ h) ?_ fun hbounded =>
    absurd hbounded Bool.false_ne_true
  rw [hindexes]
  exact evident_of_index hbody

theorem Evidence.recordTextInput (h : Evidence s.toProgress) (sync : Bool) :
    Backed (recordTextInput clock page el sync s) := by
  cases sync with
  | true => exact h.recordSync_stamped rfl rfl rfl
  | false => exact h.enqueueEvent_stamped rfl rfl rfl

variable (page el) in
theorem scrollEvent_indices (index : Nat) (delta : ℚ × ℚ) :
    (scrollEvent page el index delta).indices = [index] := by
  rw [scrollEvent]
  dsimp only
  split
  · split <;> rfl
  · rfl

theorem Backed.recordScroll (h : Backed s) (sync : Bool) : Backed (recordScroll clock page el sync s) := by
  have hbody := scrollEvent_indices page el
    (getElementIndex clock page el s.toIndexes).1 (scrolledBy page el s)
  rw [ContentRecorder.recordScroll]
  split
  · cases sync with
    | true => exact h.evidence.recordSync_stamped rfl rfl hbody
    | false => exact h.evidence.enqueueEvent_stamped rfl rfl hbody
  · exact h

theorem Backed.flushInputTimeouts (h : Backed s) : Backed (flushInputTimeouts clock page s) :=
  flush_keeps (P := Backed) (fun _ _ _ _ ht => Evidence.recordTextInput ht.evidence true)
    (fun _ _ ht => ⟨ht.evidence, ht.pins⟩) h

theorem Backed.flushScrollTimeouts (h : Backed s) : Backed (flushScrollTimeouts clock page s) :=
  flush_keeps (P := Backed) (fun _ _ _ _ ht => ht.recordScroll true)
    (fun _ _ ht => ⟨ht.evidence, ht.pins⟩) h

omit [DecidableEq ε] in
theorem Backed.quiet (h : Backed s) (hquiet : Quiet s t) : Backed t :=
  ⟨hquiet.progress ▸ h.evidence, hquiet.pins.trans h.pins⟩

variable {destinationUrl : Option String}

theorem Backed.handleClick (h : Backed s) {path ancestors : List ε} :
    Backed (handleClick clock page path ancestors destinationUrl s) := by
  rw [ContentRecorder.handleClick]
  split
  · exact h
  · rename_i el _
    have hnoted := h.quiet (noteSubmitter_quiet clock page s el)
    dsimp only
    split
    · exact hnoted
    · have hflushed : Backed (ContentRecorder.flushInputTimeouts clock page
          (noteSubmitter clock page el s).2) := hnoted.flushInputTimeouts
      rw [recordClick]
      dsimp only
      split
      · exact hflushed.evidence.recordSync_stamped rfl rfl rfl
      · exact hflushed.evidence.enqueueEvent_stamped rfl rfl rfl

theorem Backed.handleChange (h : Backed s) {optionText : String} :
    Backed (handleChange clock page el optionText s) := by
  rw [ContentRecorder.handleChange]
  split
  · exact h
  · exact h.evidence.enqueueEvent_stamped rfl rfl rfl

theorem Backed.handleNavigate (h : Backed s) {tabTransition : Bool} :
    Backed (handleNavigate clock page tabTransition s) := by
  rw [ContentRecorder.handleNavigate]
  split
  · exact h
  · apply Evidence.enqueueEvent
    · exact h.evidence
    · exact fun _ hindex => absurd hindex not_mem_nil
    · exact fun _ => rfl

variable {submitter : Option ε}

theorem Backed.recordSubmit (h : Backed s) {form : ε} :
    Backed (recordSubmit clock page form submitter s) := by
  have hflushed : Backed (ContentRecorder.flushInputTimeouts clock page s) := h.flushInputTimeouts
  rw [ContentRecorder.recordSubmit]
  generalize ContentRecorder.flushInputTimeouts clock page s = t at hflushed ⊢
  cases submitter with
  | none => exact hflushed.evidence.recordSync_stamped rfl rfl rfl
  | some el =>
    apply Evidence.recordSync
    · exact hflushed.evidence
    · intro index hindex
      have hpinned : (getElementIndex clock page form t.toIndexes).2.pendingEventElements = [form] := by
        rw [getElementIndex, indexElement_pins, pinEventElement, hflushed.pins]
        rfl
      have hboth : (getElementIndex clock page el
          (getElementIndex clock page form t.toIndexes).2).2.pendingEventElements = [form, el] := by
        rw [getElementIndex, indexElement_pins, pinEventElement, hpinned]
        rfl
      have hpins : ∀ y, y = form ∨ y = el → y ∈ (getElementIndex clock page el
          (getElementIndex clock page form t.toIndexes).2).2.pendingEventElements := by
        intro y hy
        rw [hboth]
        rcases hy with rfl | rfl <;> simp
      rcases mem_cons.mp hindex with rfl | hindex
      · exact ⟨form, .inl (hpins form (.inl rfl)), getElementIndex_extends _ _ getElementIndex_indexOf⟩
      · have hindex := some.inj (mem_toList.mp hindex)
        subst hindex
        exact ⟨el, .inl (hpins el (.inr rfl)), getElementIndex_indexOf⟩

theorem Backed.handleSubmit (h : Backed s) {form : ε} :
    Backed (handleSubmit clock page form submitter s) := by
  have hentered := h.quiet (isEnterSubmit_quiet clock s form)
  have hclicked := hentered.quiet (isClickSubmit_quiet clock _ submitter)
  rw [ContentRecorder.handleSubmit]
  dsimp only
  split
  · exact hentered
  · split
    · exact hclicked
    · exact hclicked.recordSubmit

/-- An Enter finds its element among the enumerated, unless it flushes no input. -/
def EnterSeen (s : State ε) : Op ε → Prop
  | .keydown page el key _ => key = "Enter" → isEnterSubmissionElement (page.view el) = true →
      flushesInput page s = true → el ∈ findInteractableElements page
  | _ => True

theorem recordSync_extends : Extends s.toIndexes (recordSync clock page event s).toIndexes :=
  buildSnapshotSelectorMap_extends

theorem flushInputTimeouts_extends :
    Extends s.toIndexes (ContentRecorder.flushInputTimeouts clock page s).toIndexes := by
  refine flush_keeps (P := fun t => Extends s.toIndexes t.toIndexes) (fun el _ _ t ht => ?_)
    (fun _ _ ht => ht) (Extends.refl _)
  refine ht.trans (Extends.trans (y := (getElementIndex clock page el t.toIndexes).2)
    getElementIndex_extends ?_)
  exact recordSync_extends (s := { t with
    toIndexes := (dateNow clock (getElementIndex clock page el t.toIndexes).2).2 })

theorem flushInputTimeouts_pins (h : ¬flushesInput page s) :
    (ContentRecorder.flushInputTimeouts clock page s).pendingEventElements = s.pendingEventElements := by
  refine flush_keeps (P := fun t => t.pendingEventElements = s.pendingEventElements)
    (fun el hel hconnected _ _ => ?_) (fun _ _ ht => ht) rfl
  exact absurd (List.any_eq_true.mpr ⟨el, hel, hconnected⟩) h

theorem Backed.handleKeydown (h : Backed s) {key : String}
    (hseen : EnterSeen s (.keydown page el key destinationUrl)) :
    Backed (handleKeydown clock page el key destinationUrl s) := by
  rw [ContentRecorder.handleKeydown]
  split
  · exact h
  · rename_i hkey
    have hkey : key = "Enter" := not_not.mp hkey
    dsimp only
    split
    · rename_i henter
      let t : State ε := { s with
        toIndexes := (dateNow clock (getElementIndex clock page el s.toIndexes).2).2 }
      have hquiet : Quiet t (noteEnter clock page el t) := noteEnter_quiet clock page t el
      have hnoted : Evidence (noteEnter clock page el t).toProgress := by
        rw [hquiet.progress]
        exact h.evidence
      have hflushed : Evidence (ContentRecorder.flushInputTimeouts clock page
          (noteEnter clock page el t)).toProgress :=
        flush_keeps (P := fun u => Evidence u.toProgress)
          (fun _ _ _ _ hu => (Evidence.recordTextInput hu true).evidence) (fun _ _ hu => hu) hnoted
      refine Evidence.recordSync hflushed fun index hindex => ?_
      obtain rfl := mem_singleton.mp hindex
      refine ⟨el, ?_, ?_⟩
      · by_cases hflushes : flushesInput page s
        · exact .inr (hseen hkey henter hflushes)
        · left
          have hnone : ¬flushesInput page (noteEnter clock page el t) := by
            rw [hquiet.flushesInput]
            exact hflushes
          rw [flushInputTimeouts_pins hnone, hquiet.pins]
          exact mem_getElementIndex
      · refine flushInputTimeouts_extends _ _ ?_
        rw [Indexes.indexOf, hquiet.selectorToIndex]
        exact getElementIndex_indexOf
    · exact h.evidence.enqueueEvent_stamped rfl rfl rfl

variable {s' : State ε}

omit [DecidableEq ε] in
theorem Evidence.pushTask (h : Evidence s.toProgress)
    (hstep : ContentRecorder.runTask s = some s') : Evidence s'.toProgress := by
  rw [ContentRecorder.runTask] at hstep
  cases hqueue : s.eventQueue with
  | nil =>
    rw [hqueue] at hstep
    cases hstep
  | cons task rest =>
    rw [hqueue] at hstep
    dsimp only at hstep
    split at hstep
    · cases hstep
    · rename_i hnot
      cases hstep
      have hsettled : task.timedOut ∨ ∀ y ∈ s.captures, y.sequence ≠ task.sequence := by
        by_cases htimed : task.timedOut
        · exact .inl htimed
        · refine .inr fun y hy hsame => hnot ?_
          rw [Bool.eq_false_iff.mpr htimed]
          exact List.any_eq_true.mpr ⟨y, hy, decide_eq_true hsame⟩
      rw [pushEvent]
      cases hevent : task.event with
      | none => exact Evidence.skipTask h hqueue
      | some event =>
        have hrun := Evidence.runTask h hqueue hevent hsettled
        dsimp only
        cases htimed : task.timedOut with
        | true | false =>
          rw [htimed] at hrun
          exact hrun

omit [DecidableEq ε] in
theorem runTask_pins (hstep : ContentRecorder.runTask s = some s') :
    s'.pendingEventElements = s.pendingEventElements := by
  rw [ContentRecorder.runTask] at hstep
  split at hstep
  · cases hstep
  · split at hstep
    · cases hstep
    · cases hstep
      rw [pushEvent]
      split
      · rfl
      · dsimp only
        split <;> rfl

theorem backed_start : Backed (start clock page) := by
  have hblank : Evidence (State.toProgress { blank page with
      toIndexes := (dateNow clock (blank page).toIndexes).2 }) := by
    refine ⟨⟨?_, .nil, ?_, ?_, ?_⟩, ?_, ?_, ?_⟩ <;> exact fun _ h => absurd h not_mem_nil
  have hinitial : Backed (ContentRecorder.captureSnapshot clock page (clock 0) .initial none
      { blank page with toIndexes := (dateNow clock (blank page).toIndexes).2 }) :=
    Evidence.captureSnapshot hblank (by decide)
  have hsequence : 0 < (ContentRecorder.captureSnapshot clock page (clock 0) .initial none
      { blank page with
        toIndexes := (dateNow clock (blank page).toIndexes).2 }).snapshotSequence := by
    rw [ContentRecorder.captureSnapshot]
    dsimp only
    split <;> exact Nat.zero_lt_one
  have hfirst : (⟨0, none, 0, false, false⟩ : QueueTask).event = none := rfl
  exact ⟨Evidence.await hinitial.evidence hfirst hsequence, hinitial.pins⟩

theorem Backed.step (h : Backed s) {s' : State ε} {op : Op ε} (hstep : step clock s op = some s')
    (hseen : EnterSeen s op) : Backed s' := by
  rw [ContentRecorder.step.eq_def] at hstep
  split at hstep
  · cases hstep
  cases op with
  | click page path ancestors destinationUrl =>
    cases hstep
    exact h.handleClick
  | input page el =>
    cases hstep
    rw [handleInput]
    split
    · exact h
    · split <;> exact ⟨h.evidence, h.pins⟩
  | change page el optionText =>
    cases hstep
    exact h.handleChange
  | scroll el =>
    cases hstep
    rw [handleScroll]
    split <;> exact ⟨h.evidence, h.pins⟩
  | keydown page el key destinationUrl =>
    cases hstep
    exact h.handleKeydown hseen
  | submit page form submitter =>
    cases hstep
    exact h.handleSubmit
  | navigate page tabTransition =>
    cases hstep
    exact h.handleNavigate
  | inputTimeout page el =>
    dsimp only at hstep
    split at hstep
    · cases hstep
      have hrecorded : Backed (recordTextInput clock page el false s) :=
        Evidence.recordTextInput h.evidence false
      exact ⟨hrecorded.evidence, hrecorded.pins⟩
    · cases hstep
  | scrollTimeout page el =>
    dsimp only at hstep
    split at hstep
    · cases hstep
      have hrecorded : Backed (ContentRecorder.recordScroll clock page el false s) :=
        h.recordScroll false
      exact ⟨hrecorded.evidence, hrecorded.pins⟩
    · cases hstep
  | settle sequence =>
    obtain ⟨x, hfind, rfl⟩ := map_eq_some_iff.mp hstep
    exact ⟨Evidence.settle h.evidence hfind, h.pins⟩
  | timeOut sequence =>
    dsimp only at hstep
    rw [timeOut] at hstep
    split at hstep
    · cases hstep
      exact ⟨Evidence.timeOut h.evidence sequence, h.pins⟩
    · cases hstep
  | runTask => exact ⟨Evidence.pushTask h.evidence hstep, (runTask_pins hstep).trans h.pins⟩
  | beforeUnload page =>
    cases hstep
    have hflushed : Backed (ContentRecorder.flushScrollTimeouts clock page
        (ContentRecorder.flushInputTimeouts clock page s)) :=
      h.flushInputTimeouts.flushScrollTimeouts
    exact ⟨hflushed.evidence, hflushed.pins⟩
  | stopAsync page =>
    cases hstep
    rw [ContentRecorder.stopAsync.eq_def]
    split
    · have hflushed : Backed (ContentRecorder.flushScrollTimeouts clock page
          (ContentRecorder.flushInputTimeouts clock page s)) :=
        h.flushInputTimeouts.flushScrollTimeouts
      exact ⟨hflushed.evidence, hflushed.pins⟩
    · exact h
  | captureFinal page =>
    dsimp only at hstep
    rw [captureFinal] at hstep
    split at hstep
    · cases hstep
      have hremoved : Evidence (State.toProgress { s with
          toIndexes := (dateNow clock s.toIndexes).2
          snapshots := s.snapshots.filter fun x => x.phase ≠ SnapshotPhase.final
          stopping := .final s.snapshotSequence }) := Evidence.removeFinals h.evidence
      exact hremoved.captureSnapshot (by decide)
    · cases hstep
  | finalizeStop =>
    dsimp only at hstep
    rw [finalizeStop.eq_def] at hstep
    split at hstep
    · split at hstep
      · cases hstep
      · cases hstep
        exact ⟨Evidence.sort h.evidence, h.pins⟩
    · cases hstep

/-- Every run of the recorder whose Enters are seen leaves a recording that is backed. -/
theorem backed_run {ops : List (Op ε)} (hseen : Meets (next clock) EnterSeen (start clock page) ops) :
    Backed (run (next clock) (start clock page) ops) := by
  refine hseen.invariant (I := Backed) backed_start fun s op h hop => ?_
  rw [ContentRecorder.next]
  cases hstep : step clock s op with
  | none => exact h
  | some s' => exact h.step hstep hop

end Handlers

end ContentRecorder

end Aegis
