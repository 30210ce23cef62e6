import Aegis.Recording.Handlers
import Mathlib.Data.List.Pairwise

/-!
# Recording.EventQueue

The events of a recording, the tasks that wait to push more, and the snapshots and captures for
them: what each change of the progress of a recording keeps.
-/

namespace Aegis

open List

namespace ContentRecorder

open Recorder (SnapshotPhase)

/-! ## The invariant -/

def Progress.all (p : Progress) : List DomSnapshot := p.snapshots ++ p.captures

/-- Two snapshots of different numbers, before different actions. -/
def Apart (x y : DomSnapshot) : Prop :=
  x.sequence ≠ y.sequence ∧ (x.phase = .beforeAction → y.phase = .beforeAction → x.action ≠ y.action)

instance : Std.Symm Apart where
  symm _ _ h := ⟨h.1.symm, fun hy hx => (h.2 hx hy).symm⟩

def Tied (p : Progress) (x : DomSnapshot) : Prop :=
  ∃ n, x.action = some n ∧ (x.actionIndex = some n ∧ n < p.events.length ∨
      x.actionIndex = none ∧ ∃ task ∈ p.eventQueue, task.event.isSome = true ∧
        task.timedOut = false ∧ task.sequence = x.sequence)

/-- Snapshots are apart, and of actions that were taken. -/
structure Captured (p : Progress) : Prop where
  fresh : ∀ x ∈ p.all, x.sequence < p.snapshotSequence
  apart : p.all.Pairwise Apart
  known : ∀ x ∈ p.all, x.phase = .beforeAction → ∃ n < p.taken.length, x.action = some n
  below : ∀ task ∈ p.eventQueue, task.sequence < p.snapshotSequence
  paired : ∀ task ∈ p.eventQueue, task.event.isSome = true → ∀ x ∈ p.all,
    x.sequence = task.sequence → x.phase = .beforeAction ∧ x.action = some task.action

def Progress.numbers (p : Progress) : List Nat :=
  (p.eventQueue.filter fun task => task.event.isSome).map QueueTask.action

/-- The invariant: what was taken is recorded, or waits in order. -/
structure Inv (p : Progress) (now : Nat) : Prop where
  captured : Captured p
  order : p.taken = p.events ++ p.waiting
  numbered : p.numbers = List.range' p.events.length p.waiting.length
  sorted : (p.taken.map PageAgentEvent.timestamp).Pairwise (· ≤ ·)
  past : ∀ event ∈ p.taken, event.timestamp ≤ now
  unlinked : ∀ x ∈ p.captures, x.actionIndex = none
  tied : ∀ x ∈ p.snapshots, x.phase = .beforeAction → Tied p x

section Invariant

variable {p p' : Progress} {now now' : Nat} {x : DomSnapshot} {event : PageAgentEvent}

theorem Inv.mono (h : Inv p now) (hle : now ≤ now') : Inv p now' :=
  { h with past := fun event hevent => Nat.le_trans (h.past event hevent) hle }

theorem Captured.add (h : Captured p) (hall : p'.all.Perm (x :: p.all))
    (hsequence : x.sequence = p.snapshotSequence)
    (hnext : p'.snapshotSequence = p.snapshotSequence + 1)
    (haction : x.phase = .beforeAction → x.action = some p.taken.length ∧ p.taken.length < p'.taken.length)
    (htaken : p.taken.length ≤ p'.taken.length)
    (hqueue : ∀ task ∈ p'.eventQueue, task ∈ p.eventQueue ∨ task.sequence = x.sequence ∧
      (task.event.isSome → x.phase = .beforeAction ∧ x.action = some task.action)) :
    Captured p' := by
  have hmem : ∀ y, y ∈ p'.all ↔ y = x ∨ y ∈ p.all := fun y => by
    rw [hall.mem_iff, mem_cons]
  refine ⟨?_, ?_, ?_, ?_, ?_⟩
  · intro y hy
    rcases (hmem y).mp hy with rfl | hy
    · omega
    · have := h.fresh y hy
      omega
  · rw [hall.pairwise_iff fun hxy => Std.Symm.symm _ _ hxy, pairwise_cons]
    refine ⟨fun y hy => ⟨?_, fun hx hphase => ?_⟩, h.apart⟩
    · have := h.fresh y hy
      omega
    · obtain ⟨n, hn, hy'⟩ := h.known y hy hphase
      rw [hy', (haction hx).1]
      intro heq
      cases heq
      omega
  · intro y hy hphase
    rcases (hmem y).mp hy with rfl | hy
    · exact ⟨_, (haction hphase).2, (haction hphase).1⟩
    · obtain ⟨n, hn, hy'⟩ := h.known y hy hphase
      exact ⟨n, by omega, hy'⟩
  · intro task htask
    rcases hqueue task htask with hold | ⟨hnew, -⟩
    · have := h.below task hold
      omega
    · omega
  · intro task htask hevent y hy hsame
    rcases hqueue task htask with hold | ⟨hnew, hpaired⟩
    · rcases (hmem y).mp hy with rfl | hy
      · have := h.below task hold
        omega
      · exact h.paired task hold hevent y hy hsame
    · rcases (hmem y).mp hy with rfl | hy
      · exact hpaired hevent
      · have := h.fresh y hy
        omega

structure Begun (p p' : Progress) (x : DomSnapshot) : Prop where
  next : p'.snapshotSequence = p.snapshotSequence + 1
  events : p'.events = p.events
  placed : p'.snapshots = p.snapshots ∧ p'.captures = p.captures ++ [x] ∨
    p'.snapshots = p.snapshots ++ [x] ∧ p'.captures = p.captures

variable (p x) in
theorem perm_snapshots :
    ((p.snapshots ++ [x]) ++ p.captures).Perm (x :: p.all) := by
  rw [append_assoc]
  exact perm_middle

theorem Begun.perm (hb : Begun p p' x) : p'.all.Perm (x :: p.all) := by
  unfold Progress.all
  rcases hb.placed with ⟨hsnapshots, hcaptures⟩ | ⟨hsnapshots, hcaptures⟩
  · rw [hsnapshots, hcaptures, ← append_assoc]
    exact perm_append_singleton _ _
  · rw [hsnapshots, hcaptures]
    exact perm_snapshots p x

theorem Begun.kept (hb : Begun p p' x) : ∀ y ∈ p.snapshots, y ∈ p'.snapshots := by
  rcases hb.placed with ⟨hsnapshots, -⟩ | ⟨hsnapshots, -⟩
  · rw [hsnapshots]
    exact fun y hy => hy
  · rw [hsnapshots]
    exact fun y hy => mem_append_left _ hy

theorem Begun.snapshots (hb : Begun p p' x) {y : DomSnapshot} (hy : y ∈ p'.snapshots) :
    y ∈ p.snapshots ∨ y = x := by
  rcases hb.placed with ⟨hsnapshots, -⟩ | ⟨hsnapshots, -⟩
  · exact .inl (hsnapshots ▸ hy)
  · simpa [hsnapshots] using hy

theorem Begun.captures (hb : Begun p p' x) {y : DomSnapshot} (hy : y ∈ p'.captures) :
    y ∈ p.captures ∨ y = x := by
  rcases hb.placed with ⟨-, hcaptures⟩ | ⟨-, hcaptures⟩
  · simpa [hcaptures] using hy
  · exact .inl (hcaptures ▸ hy)

variable {task : QueueTask}

theorem Captured.enqueue (h : Captured p) (hb : Begun p p' x)
    (hsequence : x.sequence = p.snapshotSequence) (hphase : x.phase = .beforeAction)
    (haction : x.action = some p.taken.length) (htask : task.sequence = p.snapshotSequence)
    (hnumber : task.action = p.taken.length)
    (hqueue : p'.eventQueue = p.eventQueue ++ [task]) (htaken : p'.taken = p.taken ++ [event]) :
    Captured p' := by
  refine h.add hb.perm hsequence hb.next ?_ (by simp [htaken]) ?_
  · intro _
    exact ⟨haction, by simp [htaken]⟩
  · intro other hother
    rw [hqueue] at hother
    rcases mem_append.mp hother with hother | hother
    · exact .inl hother
    · obtain rfl := mem_singleton.mp hother
      refine .inr ⟨htask.trans hsequence.symm, fun _ => ⟨hphase, ?_⟩⟩
      rw [haction, hnumber]

theorem Captured.observe (h : Captured p) (hb : Begun p p' x)
    (hsequence : x.sequence = p.snapshotSequence) (hphase : x.phase ≠ .beforeAction)
    (hqueue : p'.eventQueue = p.eventQueue) (htaken : p'.taken = p.taken) : Captured p' := by
  refine h.add hb.perm hsequence hb.next (fun hbefore => absurd hbefore hphase)
    (by rw [htaken]) ?_
  rw [hqueue]
  exact fun task htask => .inl htask

theorem sorted_append {taken : List PageAgentEvent}
    (h : (taken.map PageAgentEvent.timestamp).Pairwise (· ≤ ·))
    (hle : ∀ e ∈ taken, e.timestamp ≤ event.timestamp) :
    ((taken ++ [event]).map PageAgentEvent.timestamp).Pairwise (· ≤ ·) := by
  rw [map_append, pairwise_append]
  refine ⟨h, pairwise_singleton _ _, ?_⟩
  intro a ha b hb
  obtain ⟨e, he, rfl⟩ := mem_map.mp ha
  obtain rfl := mem_singleton.mp hb
  exact hle e he

theorem past_append (h : Inv p now) (hnow : event.timestamp ≤ now) :
    ∀ e ∈ p.taken ++ [event], e.timestamp ≤ now := by
  intro e he
  rcases mem_append.mp he with he | he
  · exact h.past e he
  · obtain rfl := mem_singleton.mp he
    exact hnow

theorem Tied.mono (h : Tied p x) (hevents : p.events.length ≤ p'.events.length)
    (hqueue : ∀ task ∈ p.eventQueue, task ∈ p'.eventQueue) : Tied p' x := by
  obtain ⟨n, haction, ⟨hindex, hn⟩ | ⟨hindex, task, htask, hrest⟩⟩ := h
  · exact ⟨n, haction, .inl ⟨hindex, Nat.lt_of_lt_of_le hn hevents⟩⟩
  · exact ⟨n, haction, .inr ⟨hindex, task, hqueue task htask, hrest⟩⟩

theorem Inv.record (h : Inv p now) (hwaiting : p.waiting = [])
    (htimes : ∀ e ∈ p.taken, e.timestamp ≤ event.timestamp) (hnow : event.timestamp ≤ now)
    (hsequence : x.sequence = p.snapshotSequence) (hindex : x.actionIndex = some p.events.length)
    (haction : x.action = some p.taken.length) :
    Inv { p with
      snapshotSequence := p.snapshotSequence + 1
      snapshots := p.snapshots ++ [x]
      events := p.events ++ [event]
      taken := p.taken ++ [event] } now := by
  have hlength : p.taken.length = p.events.length := by rw [h.order, hwaiting, append_nil]
  refine ⟨?_, ?_, ?_, sorted_append h.sorted htimes, past_append h hnow, h.unlinked, ?_⟩
  · refine h.captured.add (x := x) ?_ hsequence rfl ?_ (by simp) fun task htask => .inl htask
    · exact perm_snapshots p x
    · intro _
      exact ⟨haction, by simp⟩
  · show p.taken ++ [event] = (p.events ++ [event]) ++ p.waiting
    rw [h.order, hwaiting, append_nil, append_nil]
  · show p.numbers = List.range' (p.events ++ [event]).length p.waiting.length
    rw [h.numbered, hwaiting]
    rfl
  · intro y hy hphase
    rcases mem_append.mp hy with hy | hy
    · exact (h.tied y hy hphase).mono (by simp) fun _ htask => htask
    · obtain rfl := mem_singleton.mp hy
      refine ⟨_, haction, .inl ⟨?_, by simp [hlength]⟩⟩
      rw [hindex, hlength]

theorem waiting_append (queue : List QueueTask) (task : QueueTask) :
    (queue ++ [task]).filterMap QueueTask.event = queue.filterMap QueueTask.event ++ task.event.toList := by
  rw [filterMap_append]
  cases h : task.event <;> simp [h]

theorem Inv.enqueue (h : Inv p now) (hb : Begun p p' x) (task : QueueTask)
    (htimes : ∀ e ∈ p.taken, e.timestamp ≤ event.timestamp) (hnow : event.timestamp ≤ now)
    (hsequence : x.sequence = p.snapshotSequence) (hphase : x.phase = .beforeAction)
    (hindex : x.actionIndex = none) (haction : x.action = some p.taken.length)
    (htask : task.sequence = p.snapshotSequence ∧ task.event = some event ∧
      task.action = p.taken.length ∧ task.timedOut = false)
    (hqueue : p'.eventQueue = p.eventQueue ++ [task]) (htaken : p'.taken = p.taken ++ [event]) :
    Inv p' now := by
  obtain ⟨htask, hevent, hnumber, htimed⟩ := htask
  have hevents := hb.events
  have hwaiting : p'.waiting = p.waiting ++ [event] := by
    rw [Progress.waiting, hqueue, waiting_append, hevent]
    rfl
  refine ⟨h.captured.enqueue hb hsequence hphase haction htask hnumber hqueue htaken, ?_, ?_, ?_,
    ?_, ?_, ?_⟩
  · rw [htaken, hevents, hwaiting, h.order, append_assoc]
  · have hlength : p.taken.length = p.events.length + p.waiting.length := by
      rw [h.order, length_append]
    have hnumbers : p'.numbers = p.numbers ++ [task.action] := by
      simp [Progress.numbers, hqueue, hevent]
    rw [hnumbers, hevents, hwaiting, h.numbered, hnumber, hlength, length_append]
    simp [range'_concat]
  · rw [htaken]
    exact sorted_append h.sorted htimes
  · rw [htaken]
    exact past_append h hnow
  · intro y hy
    rcases hb.captures hy with hy | rfl
    · exact h.unlinked y hy
    · exact hindex
  · intro y hy hyphase
    rcases hb.snapshots hy with hy | rfl
    · refine (h.tied y hy hyphase).mono (by rw [hevents]) fun other hother => ?_
      rw [hqueue]
      exact mem_append_left _ hother
    · refine ⟨_, haction, .inr ⟨hindex, task, by simp [hqueue], by simp [hevent], htimed, ?_⟩⟩
      rw [htask, hsequence]

theorem Inv.observe (h : Inv p now) (hb : Begun p p' x)
    (hsequence : x.sequence = p.snapshotSequence) (hphase : x.phase ≠ .beforeAction)
    (hindex : x.actionIndex = none) (hqueue : p'.eventQueue = p.eventQueue)
    (htaken : p'.taken = p.taken) : Inv p' now := by
  have hevents := hb.events
  refine ⟨h.captured.observe hb hsequence hphase hqueue htaken, ?_, ?_, ?_, ?_, ?_, ?_⟩
  · rw [htaken, hevents, Progress.waiting, hqueue]
    exact h.order
  · rw [Progress.numbers, Progress.waiting, hqueue, hevents]
    exact h.numbered
  · rw [htaken]
    exact h.sorted
  · rw [htaken]
    exact h.past
  · intro y hy
    rcases hb.captures hy with hy | rfl
    · exact h.unlinked y hy
    · exact hindex
  · intro y hy hbefore
    rcases hb.snapshots hy with hy | rfl
    · refine (h.tied y hy hbefore).mono (by rw [hevents]) fun other hother => ?_
      rw [hqueue]
      exact hother
    · exact absurd hbefore hphase

theorem Captured.sub (h : Captured p) (hall : ∀ x ∈ p'.all, x ∈ p.all)
    (hapart : p'.all.Pairwise Apart) (hnext : p'.snapshotSequence = p.snapshotSequence)
    (htaken : p'.taken = p.taken) (hqueue : ∀ task ∈ p'.eventQueue, ∃ old ∈ p.eventQueue,
      task.sequence = old.sequence ∧ task.event = old.event ∧ task.action = old.action) :
    Captured p' := by
  refine ⟨?_, hapart, ?_, ?_, ?_⟩
  · intro x hx
    rw [hnext]
    exact h.fresh x (hall x hx)
  · intro x hx hphase
    rw [htaken]
    exact h.known x (hall x hx) hphase
  · intro task htask
    obtain ⟨old, hold, hsequence, -, -⟩ := hqueue task htask
    rw [hnext, hsequence]
    exact h.below old hold
  · intro task htask hevent x hx hsame
    obtain ⟨old, hold, hsequence, hevent', haction⟩ := hqueue task htask
    rw [haction]
    exact h.paired old hold (hevent' ▸ hevent) x (hall x hx) (hsame.trans hsequence)

theorem same_task (queue : List QueueTask) : ∀ task ∈ queue, ∃ old ∈ queue,
      task.sequence = old.sequence ∧ task.event = old.event ∧ task.action = old.action :=
  fun task htask => ⟨task, htask, rfl, rfl, rfl⟩

theorem Captured.settle (h : Captured p) {sequence : Nat}
    (hfind : p.captures.find? (fun y => y.sequence = sequence) = some x) :
    Captured { p with
      captures := p.captures.filter fun y => y.sequence ≠ sequence
      snapshots := p.snapshots ++ [x] } := by
  have hx : x ∈ p.captures := mem_of_find?_eq_some hfind
  have hsequence : x.sequence = sequence := by simpa using find?_some hfind
  have hcaptures : ∀ y ∈ p.captures.filter fun y => y.sequence ≠ sequence,
      y ∈ p.captures ∧ y.sequence ≠ sequence := fun y hy => by
    simpa using mem_filter.mp hy
  obtain ⟨hleft, hright, hcross⟩ := pairwise_append.mp h.apart
  refine h.sub ?_ ?_ rfl rfl (same_task _)
  · intro y hy
    rcases mem_append.mp hy with hy | hy
    · rcases mem_append.mp hy with hy | hy
      · exact mem_append_left _ hy
      · obtain rfl := mem_singleton.mp hy
        exact mem_append_right _ hx
    · exact mem_append_right _ (hcaptures y hy).1
  · refine pairwise_append.mpr ⟨?_, hright.sublist filter_sublist, ?_⟩
    · refine pairwise_append.mpr ⟨hleft, pairwise_singleton _ _, ?_⟩
      intro y hy z hz
      obtain rfl := mem_singleton.mp hz
      exact hcross y hy _ hx
    · intro y hy z hz
      obtain ⟨hz', hne⟩ := hcaptures z hz
      rcases mem_append.mp hy with hy | hy
      · exact hcross y hy z hz'
      · obtain rfl := mem_singleton.mp hy
        have hne' : y ≠ z := fun heq => hne (heq ▸ hsequence)
        exact hright.forall hx hz' hne'

theorem Inv.settle (h : Inv p now) {sequence : Nat}
    (hfind : p.captures.find? (fun y => y.sequence = sequence) = some x)
    (htask : x.phase = .beforeAction → ∃ task ∈ p.eventQueue, task.event.isSome = true ∧
      task.timedOut = false ∧ task.sequence = sequence) :
    Inv { p with
      captures := p.captures.filter fun y => y.sequence ≠ sequence
      snapshots := p.snapshots ++ [x] } now := by
  have hx : x ∈ p.captures := mem_of_find?_eq_some hfind
  have hsequence : x.sequence = sequence := by simpa using find?_some hfind
  refine ⟨h.captured.settle hfind, h.order, h.numbered, h.sorted, h.past, ?_, ?_⟩
  · intro y hy
    exact h.unlinked y (mem_of_mem_filter hy)
  · intro y hy hphase
    rcases mem_append.mp hy with hy | hy
    · exact (h.tied y hy hphase).mono (Nat.le_refl _) fun _ htask => htask
    · obtain rfl := mem_singleton.mp hy
      obtain ⟨task, hmem, hevent, htimed, hsame⟩ := htask hphase
      obtain ⟨n, -, haction⟩ := h.captured.known y (mem_append_right _ hx) hphase
      exact ⟨n, haction, .inr ⟨h.unlinked y hx, task, hmem, hevent, htimed, hsame.trans hsequence.symm⟩⟩

@[simp] theorem givenUp_event (sequence : Nat) (task : QueueTask) :
    (givenUp sequence task).event = task.event := by
  unfold givenUp
  split <;> rfl

@[simp] theorem givenUp_action (sequence : Nat) (task : QueueTask) :
    (givenUp sequence task).action = task.action := by
  unfold givenUp
  split <;> rfl

@[simp] theorem givenUp_sequence (sequence : Nat) (task : QueueTask) :
    (givenUp sequence task).sequence = task.sequence := by
  unfold givenUp
  split <;> rfl

theorem Captured.timeOut (h : Captured p) (sequence : Nat) :
    Captured { p with eventQueue := p.eventQueue.map (givenUp sequence) } := by
  refine h.sub (fun _ hy => hy) h.apart rfl rfl ?_
  intro task htask
  obtain ⟨old, hold, rfl⟩ := mem_map.mp htask
  exact ⟨old, hold, givenUp_sequence _ _, givenUp_event _ _, givenUp_action _ _⟩

theorem Inv.timeOut (h : Inv p now) {sequence : Nat} (hcapture : ∃ x ∈ p.captures, x.sequence = sequence) :
    Inv { p with eventQueue := p.eventQueue.map (givenUp sequence) } now := by
  obtain ⟨x, hx, hsequence⟩ := hcapture
  have hwaiting : (p.eventQueue.map (givenUp sequence)).filterMap QueueTask.event = p.waiting := by
    rw [filterMap_map]
    exact filterMap_congr fun task _ => givenUp_event sequence task
  refine ⟨h.captured.timeOut sequence, ?_, ?_, h.sorted, h.past, h.unlinked, ?_⟩
  · exact h.order.trans (congrArg (p.events ++ ·) hwaiting.symm)
  · refine Eq.trans ?_ (h.numbered.trans (congrArg (fun w => List.range' _ (List.length w))
      hwaiting.symm))
    show ((p.eventQueue.map (givenUp sequence)).filter _).map QueueTask.action = p.numbers
    rw [filter_map, map_map]
    refine Eq.trans (map_congr_left fun task _ => givenUp_action sequence task) ?_
    refine congrArg (List.map QueueTask.action) (filter_congr fun task _ => ?_)
    exact congrArg Option.isSome (givenUp_event sequence task)
  · intro y hy hphase
    obtain ⟨n, hn, ⟨hindex, hlt⟩ | ⟨hindex, task, htask, hsome, htimed, hsame⟩⟩ :=
      h.tied y hy hphase
    · exact ⟨n, hn, .inl ⟨hindex, hlt⟩⟩
    · have hne : task.sequence ≠ sequence := by
        rw [hsame, ← hsequence]
        exact ((pairwise_append.mp h.captured.apart).2.2 y hy x hx).1
      refine ⟨n, hn, .inr ⟨hindex, task, ?_, hsome, htimed, hsame⟩⟩
      have hmap := mem_map_of_mem (f := givenUp sequence) htask
      rwa [givenUp, if_neg fun hboth => hne hboth.1] at hmap

@[simp] theorem linked_sequence (sequence index : Nat) :
    (linked sequence index x).sequence = x.sequence := by
  unfold linked
  split <;> rfl

@[simp] theorem linked_phase (sequence index : Nat) :
    (linked sequence index x).phase = x.phase := by
  unfold linked
  split <;> rfl

@[simp] theorem linked_action (sequence index : Nat) :
    (linked sequence index x).action = x.action := by
  unfold linked
  split <;> rfl

theorem Captured.link (h : Captured p) (sequence index : Nat) :
    Captured { p with snapshots := p.snapshots.map (linked sequence index) } := by
  have hall : ∀ y ∈ p.snapshots.map (linked sequence index) ++ p.captures, ∃ x ∈ p.all,
      y.sequence = x.sequence ∧ y.phase = x.phase ∧ y.action = x.action := by
    intro y hy
    rcases mem_append.mp hy with hy | hy
    · obtain ⟨x, hx, rfl⟩ := mem_map.mp hy
      exact ⟨x, mem_append_left _ hx, by simp⟩
    · exact ⟨y, mem_append_right _ hy, rfl, rfl, rfl⟩
  obtain ⟨hleft, hright, hcross⟩ := pairwise_append.mp h.apart
  refine ⟨?_, ?_, ?_, h.below, ?_⟩
  · intro y hy
    obtain ⟨x, hx, hsequence, -, -⟩ := hall y hy
    rw [hsequence]
    exact h.fresh x hx
  · refine pairwise_append.mpr ⟨pairwise_map.mpr (hleft.imp ?_), hright, ?_⟩
    · intro a b hab
      simpa [Apart] using hab
    · intro a ha b hb
      obtain ⟨x, hx, rfl⟩ := mem_map.mp ha
      simpa [Apart] using hcross x hx b hb
  · intro y hy hphase
    obtain ⟨x, hx, -, hsame, haction⟩ := hall y hy
    rw [haction]
    exact h.known x hx (hsame ▸ hphase)
  · intro task htask hevent y hy hsequence
    obtain ⟨x, hx, hsequence', hphase, haction⟩ := hall y hy
    rw [hphase, haction]
    exact h.paired task htask hevent x hx (hsequence' ▸ hsequence)

theorem Captured.linkUnless (h : Captured p) (timedOut : Bool) (sequence index : Nat) :
    Captured { p with snapshots := if timedOut then p.snapshots
      else p.snapshots.map (linked sequence index) } := by
  cases timedOut with
  | true => exact h
  | false => exact h.link sequence index

theorem Inv.await (h : Inv p now) (hqueue : p.eventQueue = [])
    (hevent : task.event = none) (hsequence : task.sequence < p.snapshotSequence) :
    Inv { p with eventQueue := [task] } now := by
  have hwaiting : ([task] : List QueueTask).filterMap QueueTask.event = p.waiting := by
    rw [Progress.waiting, hqueue, filterMap_cons_none hevent]
  refine ⟨?_, ?_, ?_, h.sorted, h.past, h.unlinked, ?_⟩
  · refine ⟨h.captured.fresh, h.captured.apart, h.captured.known, ?_, ?_⟩
    · intro other hother
      obtain rfl := mem_singleton.mp hother
      exact hsequence
    · intro other hother hsome
      obtain rfl := mem_singleton.mp hother
      rw [hevent] at hsome
      cases hsome
  · exact h.order.trans (congrArg (p.events ++ ·) hwaiting.symm)
  · have hnumbers : p.numbers = ([task].filter fun other => other.event.isSome).map
        QueueTask.action := by
      simp [Progress.numbers, hqueue, hevent]
    exact hnumbers.symm.trans (h.numbered.trans
      (congrArg (fun w => List.range' _ (List.length w)) hwaiting.symm))
  · intro y hy hphase
    refine (h.tied y hy hphase).mono (Nat.le_refl _) fun other hother => ?_
    rw [hqueue] at hother
    cases hother

variable {rest : List QueueTask}

theorem Captured.dropTask (h : Captured p)
    (hqueue : p.eventQueue = task :: rest) : Captured { p with eventQueue := rest } := by
  refine h.sub (fun _ hy => hy) h.apart rfl rfl fun other hother => ⟨other, ?_, rfl, rfl, rfl⟩
  rw [hqueue]
  exact mem_cons_of_mem _ hother

theorem Inv.skipTask (h : Inv p now) (hqueue : p.eventQueue = task :: rest) (hevent : task.event = none) :
    Inv { p with eventQueue := rest } now := by
  have hwaiting : rest.filterMap QueueTask.event = p.waiting := by
    rw [Progress.waiting, hqueue, filterMap_cons_none hevent]
  refine ⟨h.captured.dropTask hqueue, ?_, ?_, h.sorted, h.past, h.unlinked, ?_⟩
  · exact h.order.trans (congrArg (p.events ++ ·) hwaiting.symm)
  · have hnumbers : p.numbers = (rest.filter fun other => other.event.isSome).map
        QueueTask.action := by
      simp [Progress.numbers, hqueue, hevent]
    exact hnumbers.symm.trans (h.numbered.trans
      (congrArg (fun w => List.range' _ (List.length w)) hwaiting.symm))
  · intro y hy hphase
    obtain ⟨n, hn, hfirst | ⟨hindex, other, hother, hsome, hrest⟩⟩ := h.tied y hy hphase
    · exact ⟨n, hn, .inl hfirst⟩
    · rw [hqueue] at hother
      rcases mem_cons.mp hother with rfl | hother
      · rw [hevent] at hsome
        cases hsome
      · exact ⟨n, hn, .inr ⟨hindex, other, hother, hsome, hrest⟩⟩

theorem Inv.runTask (h : Inv p now)
    (hqueue : p.eventQueue = task :: rest) (hevent : task.event = some event) :
    Inv { p with
      eventQueue := rest
      snapshots := if task.timedOut then p.snapshots
        else p.snapshots.map (linked task.sequence p.events.length)
      events := p.events ++ [event] } now := by
  have hwaiting : p.waiting = event :: rest.filterMap QueueTask.event := by
    rw [Progress.waiting, hqueue, filterMap_cons_some hevent]
  have hnumbers : p.numbers = task.action ::
      (rest.filter fun other => other.event.isSome).map QueueTask.action := by
    simp [Progress.numbers, hqueue, hevent]
  have hrange := h.numbered
  rw [hnumbers, hwaiting, length_cons, range'_succ, List.cons.injEq] at hrange
  obtain ⟨hnumber, hrange⟩ := hrange
  have hmem : task ∈ p.eventQueue := by rw [hqueue]; exact mem_cons_self
  have hlength : (p.events ++ [event]).length = p.events.length + 1 := by simp
  refine ⟨?_, ?_, ?_, h.sorted, h.past, h.unlinked, ?_⟩
  · have hdropped : Captured { p with
        snapshots := if task.timedOut then p.snapshots
          else p.snapshots.map (linked task.sequence p.events.length)
        eventQueue := rest } :=
      (h.captured.linkUnless task.timedOut _ _).dropTask hqueue
    exact ⟨hdropped.fresh, hdropped.apart, hdropped.known, hdropped.below, hdropped.paired⟩
  · rw [h.order, hwaiting, append_assoc]
    rfl
  · show (rest.filter fun other => other.event.isSome).map QueueTask.action =
      List.range' (p.events ++ [event]).length (rest.filterMap QueueTask.event).length
    rw [hrange, hlength]
  · intro y hy hphase
    -- what is tied by another task, or by none, stays so
    have hkeep : ∀ x, Tied p x → (x.sequence = task.sequence → task.timedOut = true) →
        Tied { p with
          eventQueue := rest
          snapshots := if task.timedOut then p.snapshots
            else p.snapshots.map (linked task.sequence p.events.length)
          events := p.events ++ [event] } x := by
      rintro x ⟨n, hn, ⟨hindex, hlt⟩ | ⟨hindex, other, hother, hsome, htimed, hsame⟩⟩ hother'
      · exact ⟨n, hn, .inl ⟨hindex, by rw [hlength]; omega⟩⟩
      · rw [hqueue] at hother
        rcases mem_cons.mp hother with rfl | hother
        · rw [hother' hsame.symm] at htimed
          cases htimed
        · exact ⟨n, hn, .inr ⟨hindex, other, hother, hsome, htimed, hsame⟩⟩
    by_cases htimed : task.timedOut
    · simp only [htimed, if_true] at hy
      exact hkeep y (h.tied y hy hphase) fun _ => htimed
    · simp only [htimed, if_false, Bool.false_eq_true] at hy
      obtain ⟨x, hx, rfl⟩ := mem_map.mp hy
      rw [linked_phase] at hphase
      by_cases hsame : x.sequence = task.sequence
      · have haction := (h.captured.paired task hmem (by simp [hevent]) x
          (mem_append_left _ hx) hsame).2
        rw [hnumber] at haction
        refine ⟨p.events.length, by rw [linked_action, haction], .inl ⟨?_, by simp⟩⟩
        rw [linked, if_pos ⟨hsame, hphase⟩]
      · have hlinked : linked task.sequence p.events.length x = x := by
          rw [linked, if_neg fun hboth => hsame hboth.1]
        rw [hlinked]
        exact hkeep x (h.tied x hx hphase) fun heq => absurd heq hsame

theorem Captured.removeFinals (h : Captured p) :
    Captured { p with snapshots := p.snapshots.filter fun x => x.phase ≠ SnapshotPhase.final } := by
  refine h.sub ?_ ?_ rfl rfl (same_task _)
  · intro y hy
    rcases mem_append.mp hy with hy | hy
    · exact mem_append_left _ (mem_of_mem_filter hy)
    · exact mem_append_right _ hy
  · exact h.apart.sublist (List.Sublist.append_right filter_sublist _)

theorem Inv.removeFinals (h : Inv p now) :
    Inv { p with snapshots := p.snapshots.filter fun x => x.phase ≠ SnapshotPhase.final } now := by
  refine ⟨h.captured.removeFinals, h.order, h.numbered, h.sorted, h.past, h.unlinked, ?_⟩
  intro y hy hphase
  exact (h.tied y (mem_of_mem_filter hy) hphase).mono (Nat.le_refl _) fun _ htask => htask

theorem bySequence_perm (l : List DomSnapshot) : (bySequence l).Perm l := mergeSort_perm _ _

theorem Captured.sort (h : Captured p) : Captured { p with snapshots := bySequence p.snapshots } := by
  have hall : (bySequence p.snapshots ++ p.captures).Perm p.all :=
    (bySequence_perm p.snapshots).append_right _
  exact h.sub (fun y hy => hall.mem_iff.mp hy)
    ((hall.pairwise_iff fun hxy => Std.Symm.symm _ _ hxy).mpr h.apart) rfl rfl (same_task _)

theorem Inv.sort (h : Inv p now) : Inv { p with snapshots := bySequence p.snapshots } now := by
  refine ⟨h.captured.sort, h.order, h.numbered, h.sorted, h.past, h.unlinked, ?_⟩
  intro y hy hphase
  exact (h.tied y ((bySequence_perm _).mem_iff.mp hy) hphase).mono (Nat.le_refl _)
    fun _ htask => htask

end Invariant

end ContentRecorder

end Aegis
