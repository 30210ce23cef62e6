import Aegis.Recording.Elements
import Aegis.Recording.Recorder

/-!
# Recording.Handlers

The handlers of `ContentRecorder`, of `extension/src/content.ts`, over one recording of version 2
that takes a snapshot before each event.

A handler hands its event over at once, after a snapshot of the document alone, or puts a task into
the event queue, which waits for a snapshot that the frames of the page are asked for. Snapshots are
kept as they are captured; how they are stored is the matter of `Recording.Recorder`.
-/

namespace Aegis

namespace ContentRecorder

open Recorder (SnapshotPhase)

inductive EventBody where
  | click (index : Nat) (destinationUrl : Option String)
  | inputText (index : Nat) (text : String)
  | selectOption (index : Nat) (optionText : String)
  | scroll (direction : ScrollDirection) (amount : ℚ) (unit : ScrollUnit) (index : Nat)
  | submitForm (index : Nat) (submitterIndex : Option Nat)
  | navigate (url : String) (tabTransition : Bool)
deriving DecidableEq

structure PageAgentEvent where
  body : EventBody
  timestamp : Nat
deriving DecidableEq

abbrev SelectorMap := Nat → Option DomElementInfo

structure DomSnapshot where
  timestamp : Nat
  url : String
  phase : SnapshotPhase
  sequence : Nat
  actionIndex : Option Nat
  selectorMap : SelectorMap
  /-- The action that it was captured for, by its number among all that were taken. Not recorded. -/
  action : Option Nat

/-- A task of the event queue: the event that it pushes, and the capture that it waits for. The
first task only waits. -/
structure QueueTask where
  sequence : Nat
  event : Option PageAgentEvent
  action : Nat
  bounded : Bool
  timedOut : Bool

structure Page (ε : Type) where
  url : String
  escapeIdentifier : String → String
  view : ε → ElementView ε
  elements : List ε
  /-- The selector of `findInteractableElements` matches. -/
  matched : ε → Bool
  visible : ε → Bool
  connected : ε → Bool
  documentElement : ε
  body : Option ε
  value : ε → String
  scrollTop : ε → ℚ
  scrollLeft : ε → ℚ
  innerHeight : ℚ
  contains : ε → ε → Bool
  defaultSubmitter : ε → Option ε
  hasTree : Bool

structure IndexEntry where
  index : Nat
  lastUsedAt : Nat

structure Indexes (ε : Type) where
  readings : Nat
  selectorToIndex : List (String × IndexEntry)
  nextIndex : Nat
  pendingEventElements : List ε

inductive Stopping where
  | no
  | queue (left : Nat)
  | final (sequence : Nat)
  | stopped
  | unloaded
deriving DecidableEq

/-- The recording, its event queue and the captures under way. -/
structure Progress where
  snapshotSequence : Nat
  events : List PageAgentEvent
  snapshots : List DomSnapshot
  captures : List DomSnapshot
  eventQueue : List QueueTask
  /-- The actions that handlers took a timestamp for, in the order in which they were handed over:
  an input that a handler flushes comes before the action of the handler. Not recorded. -/
  taken : List PageAgentEvent

def Progress.waiting (p : Progress) : List PageAgentEvent := p.eventQueue.filterMap QueueTask.event

structure State (ε : Type) extends Indexes ε, Progress where
  inputTimeouts : List ε
  scrollTimeouts : List ε
  scrollState : List (ε × ℚ × ℚ)
  lastEnterSubmit : Option (ε × Nat)
  lastClickedSubmitter : Option (ε × Nat)
  lastRecordedUrl : Option String
  stopping : Stopping

variable {ε : Type} [DecidableEq ε]

section Elements

variable (clock : Nat → Nat) (page : Page ε)

/-- `Date.now()`: the reading of the clock with a number. -/
def dateNow (x : Indexes ε) : Nat × Indexes ε :=
  (clock x.readings, { x with readings := x.readings + 1 })

def selectorOf (el : ε) : String := inferSelector page.escapeIdentifier (page.view el)

def identityOf (el : ε) : String := elementIdentityKey (page.view el) (selectorOf page el)

def pinEventElement (el : ε) (x : Indexes ε) : Indexes ε :=
  let pins := x.pendingEventElements ++ [el]
  { x with
    pendingEventElements := if 128 < pins.length then pins.drop (pins.length - 128) else pins }

def indexElement (el : ε) (x : Indexes ε) : Nat × Indexes ε :=
  let (now, x) := dateNow clock x
  let identity := identityOf page el
  match x.selectorToIndex.lookup identity with
  | some entry =>
    (entry.index, { x with
      selectorToIndex := x.selectorToIndex.map fun p =>
        if p.1 = identity then (p.1, { p.2 with lastUsedAt := now }) else p })
  | none =>
    (x.nextIndex, { x with
      selectorToIndex := x.selectorToIndex ++ [(identity, ⟨x.nextIndex, now⟩)]
      nextIndex := x.nextIndex + 1 })

/-- `getElementIndex`, in a handler. -/
def getElementIndex (el : ε) (x : Indexes ε) : Nat × Indexes ε :=
  indexElement clock page el (pinEventElement el x)

def findInteractableElements : List ε :=
  let roots := page.documentElement :: page.body.toList
  ((page.elements.filter fun el => page.matched el && page.visible el) ++
    (page.elements.filter fun el => (page.view el).scrollable && page.visible el) ++
    roots.filter page.visible).eraseDups

def entryOf (el : ε) (index : Nat) : DomElementInfo :=
  buildDomElementInfo (page.view el) index (selectorOf page el)

def enumerate : List ε → SelectorMap × Indexes ε → SelectorMap × Indexes ε
  | [], x => x
  | el :: rest, (entries, x) =>
    let (index, x) := indexElement clock page el x
    enumerate rest (Function.update entries index (some (entryOf page el index)), x)

def drain : List ε → SelectorMap × Indexes ε → SelectorMap × Indexes ε
  | [], x => x
  | el :: rest, (entries, x) =>
    let (index, x) := indexElement clock page el x
    drain rest
      (if (entries index).isNone then Function.update entries index (some (entryOf page el index))
        else entries, x)

def buildSnapshotSelectorMap (x : Indexes ε) : SelectorMap × Indexes ε :=
  let (entries, x) := enumerate clock page (findInteractableElements page) (fun _ => none, x)
  drain clock page x.pendingEventElements (entries, { x with pendingEventElements := [] })

end Elements

section Handlers

variable (clock : Nat → Nat) (page : Page ε)

def beginSnapshot (timestamp : Nat) (phase : SnapshotPhase) (actionIndex action : Option Nat)
    (s : State ε) : DomSnapshot × State ε :=
  let (selectorMap, x) := buildSnapshotSelectorMap clock page s.toIndexes
  (⟨timestamp, page.url, phase, s.snapshotSequence, actionIndex, selectorMap, action⟩,
    { s with toIndexes := x, snapshotSequence := s.snapshotSequence + 1 })

/-- An event that is recorded at once, after a local snapshot: `captureLocalSnapshot` and
`recordEventSync`. -/
def recordSync (event : PageAgentEvent) (s : State ε) : State ε :=
  let (snapshot, s) := beginSnapshot clock page event.timestamp .beforeAction
    (some s.events.length) (some s.taken.length) s
  { s with
    snapshots := s.snapshots ++ [snapshot]
    events := s.events ++ [event]
    taken := s.taken ++ [event] }

/-- `captureSnapshot`, up to its first await. -/
def captureSnapshot (timestamp : Nat) (phase : SnapshotPhase) (action : Option Nat) (s : State ε) :
    State ε :=
  let (snapshot, s) := beginSnapshot clock page timestamp phase none action s
  if page.hasTree then { s with captures := s.captures ++ [snapshot] }
  else { s with snapshots := s.snapshots ++ [snapshot] }

/-- An event that is left to the queue: `captureSnapshot` and `enqueueEvent`. -/
def enqueueEvent (event : PageAgentEvent) (bounded : Bool) (s : State ε) : State ε :=
  let task : QueueTask := ⟨s.snapshotSequence, some event, s.taken.length, bounded, false⟩
  let s := captureSnapshot clock page event.timestamp .beforeAction (some s.taken.length) s
  { s with
    eventQueue := s.eventQueue ++ [task]
    taken := s.taken ++ [event] }

def recordTextInput (el : ε) (sync : Bool) (s : State ε) : State ε :=
  let (index, x) := getElementIndex clock page el s.toIndexes
  let (timestamp, x) := dateNow clock x
  let event : PageAgentEvent := ⟨.inputText index (page.value el), timestamp⟩
  let s := { s with toIndexes := x }
  if sync then recordSync clock page event s else enqueueEvent clock page event false s

def scrolledTo (el : ε) : ℚ × ℚ := (page.scrollTop el, page.scrollLeft el)

def scrolledBy (el : ε) (s : State ε) : ℚ × ℚ :=
  let last := (s.scrollState.lookup el).getD (0, 0)
  ((scrolledTo page el).1 - last.1, (scrolledTo page el).2 - last.2)

def hasScrolled (el : ε) (s : State ε) : Bool :=
  let (deltaY, deltaX) := scrolledBy page el s
  !(|deltaY| < 1 && |deltaX| < 1)

def scrollEvent (el : ε) (index : Nat) (delta : ℚ × ℚ) : EventBody :=
  let (deltaY, deltaX) := delta
  if |deltaX| ≤ |deltaY| then
    let direction := if 0 < deltaY then ScrollDirection.down else .up
    if el = page.documentElement then
      let viewportHeight := if page.innerHeight = 0 then 1 else page.innerHeight
      .scroll direction (max 1 (⌊|deltaY| / viewportHeight + 1 / 2⌋ : ℤ)) .pages index
    else .scroll direction |deltaY| .pixels index
  else .scroll (if 0 < deltaX then .right else .left) |deltaX| .pixels index

def recordScroll (el : ε) (sync : Bool) (s : State ε) : State ε :=
  if hasScrolled page el s then
    let delta := scrolledBy page el s
    let (index, x) := getElementIndex clock page el s.toIndexes
    let (timestamp, x) := dateNow clock x
    let event : PageAgentEvent := ⟨scrollEvent page el index delta, timestamp⟩
    let s := { s with
      toIndexes := x
      scrollState := (el, scrolledTo page el) :: s.scrollState.filter fun p => p.1 ≠ el }
    if sync then recordSync clock page event s else enqueueEvent clock page event false s
  else s

def flush (record drop : ε → State ε → State ε) : List ε → State ε → State ε
  | [], s => s
  | el :: rest, s => flush record drop rest (drop el (if page.connected el then record el s else s))

def flushInputTimeouts (s : State ε) : State ε :=
  flush page (fun el => recordTextInput clock page el true)
    (fun el s => { s with inputTimeouts := s.inputTimeouts.erase el }) s.inputTimeouts s

def flushScrollTimeouts (s : State ε) : State ε :=
  flush page (fun el => recordScroll clock page el true)
    (fun el s => { s with scrollTimeouts := s.scrollTimeouts.erase el }) s.scrollTimeouts s

/-- `resolveInteractableClickTarget`: along the path of the event, or up from its target. -/
def resolveInteractableClickTarget (path ancestors : List ε) : Option ε :=
  (path ++ ancestors).find? fun el => isInteractable (page.view el)

def isSyntheticSubmitterClickFromEnter (el : ε) (s : State ε) : Bool × State ε :=
  match s.lastEnterSubmit with
  | none => (false, s)
  | some (form, time) =>
    let (now, x) := dateNow clock s.toIndexes
    (!decide (100 < now - time) && page.contains form el && page.defaultSubmitter form == some el,
      { s with toIndexes := x })

def recordClick (el : ε) (destinationUrl : Option String) (s : State ε) : State ε :=
  let s := flushInputTimeouts clock page s
  let (index, x) := getElementIndex clock page el s.toIndexes
  let (timestamp, x) := dateNow clock x
  let s := { s with toIndexes := x }
  let event : PageAgentEvent := ⟨.click index destinationUrl, timestamp⟩
  if elementWillNavigate (page.view el) then recordSync clock page event s
  else enqueueEvent clock page event false s

/-- `lastClickedSubmitter` is set, and whether the click is that of an Enter. -/
def noteSubmitter (el : ε) (s : State ε) : Bool × State ε :=
  if isFormSubmitter (page.view el) then
    let (now, x) := dateNow clock s.toIndexes
    isSyntheticSubmitterClickFromEnter clock page el
      { s with toIndexes := x, lastClickedSubmitter := some (el, now) }
  else (false, s)

/-- `destinationUrl` is what `createClickEvent` makes of the anchor around the element. -/
def handleClick (path ancestors : List ε) (destinationUrl : Option String) (s : State ε) : State ε :=
  match resolveInteractableClickTarget page path ancestors with
  | none => s
  | some el =>
    let (synthetic, s) := noteSubmitter clock page el s
    if synthetic then s else recordClick clock page el destinationUrl s

def handleInput (el : ε) (s : State ε) : State ε :=
  if (page.view el).tagName = "select" then s
  else if el ∈ s.inputTimeouts then s
  else { s with inputTimeouts := s.inputTimeouts ++ [el] }

def handleChange (el : ε) (optionText : String) (s : State ε) : State ε :=
  if (page.view el).tagName ≠ "select" then s
  else
    let (index, x) := getElementIndex clock page el s.toIndexes
    let (timestamp, x) := dateNow clock x
    enqueueEvent clock page ⟨.selectOption index optionText, timestamp⟩ false
      { s with toIndexes := x }

def handleScroll (el : ε) (s : State ε) : State ε :=
  if el ∈ s.scrollTimeouts then s else { s with scrollTimeouts := s.scrollTimeouts ++ [el] }

def noteEnter (el : ε) (s : State ε) : State ε :=
  match (page.view el).form with
  | some form =>
    let (now, x) := dateNow clock s.toIndexes
    { s with toIndexes := x, lastEnterSubmit := some (form, now) }
  | none => s

def handleKeydown (el : ε) (key : String) (destinationUrl : Option String) (s : State ε) : State ε :=
  if key ≠ "Enter" then s
  else
    let (index, x) := getElementIndex clock page el s.toIndexes
    let (timestamp, x) := dateNow clock x
    let s := { s with toIndexes := x }
    if isEnterSubmissionElement (page.view el) then
      let s := flushInputTimeouts clock page (noteEnter clock page el s)
      recordSync clock page ⟨.submitForm index none, timestamp⟩ s
    else enqueueEvent clock page ⟨.click index destinationUrl, timestamp⟩ false s

def isEnterSubmit (form : ε) (s : State ε) : Bool × State ε :=
  match s.lastEnterSubmit with
  | some (enterForm, time) =>
    if enterForm = form then
      let (now, x) := dateNow clock s.toIndexes
      (now - time < 50, { s with toIndexes := x })
    else (false, s)
  | none => (false, s)

def isClickSubmit (submitter : Option ε) (s : State ε) : Bool × State ε :=
  match submitter, s.lastClickedSubmitter with
  | some el, some (clicked, time) =>
    if clicked = el then
      let (now, x) := dateNow clock s.toIndexes
      (now - time < 50, { s with toIndexes := x })
    else (false, s)
  | _, _ => (false, s)

def recordSubmit (form : ε) (submitter : Option ε) (s : State ε) : State ε :=
  let s := flushInputTimeouts clock page s
  let (index, x) := getElementIndex clock page form s.toIndexes
  let (submitterIndex, x) := match submitter with
    | some el =>
      let (index, x) := getElementIndex clock page el x
      (some index, x)
    | none => (none, x)
  let (timestamp, x) := dateNow clock x
  recordSync clock page ⟨.submitForm index submitterIndex, timestamp⟩ { s with toIndexes := x }

def handleSubmit (form : ε) (submitter : Option ε) (s : State ε) : State ε :=
  let (entered, s) := isEnterSubmit clock form s
  if entered then s
  else
    let (clicked, s) := isClickSubmit clock submitter s
    if clicked then s else recordSubmit clock page form submitter s

def handleNavigate (tabTransition : Bool) (s : State ε) : State ε :=
  if s.lastRecordedUrl = some page.url then s
  else
    let (timestamp, x) := dateNow clock s.toIndexes
    enqueueEvent clock page ⟨.navigate page.url tabTransition, timestamp⟩ true
      { s with toIndexes := x, lastRecordedUrl := some page.url }

def handleBeforeUnload (s : State ε) : State ε :=
  { flushScrollTimeouts clock page (flushInputTimeouts clock page s) with stopping := .unloaded }

end Handlers

/-- What `linkSnapshotToNextEvent` makes of a stored snapshot. -/
def linked (sequence index : Nat) (x : DomSnapshot) : DomSnapshot :=
  if x.sequence = sequence ∧ x.phase = .beforeAction then { x with actionIndex := some index }
  else x

def linkSnapshotToNextEvent (sequence : Nat) (s : State ε) : State ε :=
  { s with snapshots := s.snapshots.map (linked sequence s.events.length) }

def settle (sequence : Nat) (s : State ε) : Option (State ε) :=
  (s.captures.find? fun x => x.sequence = sequence).map fun snapshot => { s with
    captures := s.captures.filter fun x => x.sequence ≠ sequence
    snapshots := s.snapshots ++ [snapshot] }

def givenUp (sequence : Nat) (task : QueueTask) : QueueTask :=
  if task.sequence = sequence ∧ task.bounded = true then { task with timedOut := true } else task

def timeOut (sequence : Nat) (s : State ε) : Option (State ε) :=
  if (s.eventQueue.any fun task => task.sequence = sequence && task.bounded) &&
      s.captures.any fun x => x.sequence = sequence then
    some { s with eventQueue := s.eventQueue.map (givenUp sequence) }
  else none

def pushEvent (task : QueueTask) (s : State ε) : State ε :=
  match task.event with
  | none => s
  | some event =>
    let s := if task.timedOut then s else linkSnapshotToNextEvent task.sequence s
    { s with events := s.events ++ [event] }

def runTask (s : State ε) : Option (State ε) :=
  match s.eventQueue with
  | [] => none
  | task :: rest =>
    if !task.timedOut && s.captures.any fun x => x.sequence = task.sequence then none
    else
      let s := { s with
        eventQueue := rest
        stopping := match s.stopping with
          | .queue left => .queue (left - 1)
          | stopping => stopping }
      some (pushEvent task s)

section Stop

variable (clock : Nat → Nat) (page : Page ε)

/-- `stopAsync`, up to the event queue. Another call waits for the same stop. -/
def stopAsync (s : State ε) : State ε :=
  match s.stopping with
  | .no =>
    let s := flushScrollTimeouts clock page (flushInputTimeouts clock page s)
    { s with stopping := .queue s.eventQueue.length }
  | _ => s

/-- `removeFinalSnapshotsInPlace`, and the final snapshot. -/
def captureFinal (s : State ε) : Option (State ε) :=
  if s.stopping = .queue 0 then
    let s := { s with
      snapshots := s.snapshots.filter fun x => x.phase ≠ SnapshotPhase.final
      stopping := .final s.snapshotSequence }
    let (timestamp, x) := dateNow clock s.toIndexes
    some (captureSnapshot clock page timestamp .final none { s with toIndexes := x })
  else none

def bySequence (l : List DomSnapshot) : List DomSnapshot :=
  l.mergeSort fun x y => decide (x.sequence ≤ y.sequence)

def finalizeStop (s : State ε) : Option (State ε) :=
  match s.stopping with
  | .final sequence =>
    if s.captures.any fun x => x.sequence = sequence then none
    else some { s with
      snapshots := bySequence s.snapshots
      inputTimeouts := []
      scrollTimeouts := []
      stopping := .stopped }
  | _ => none

end Stop

inductive Op (ε : Type) where
  | click (page : Page ε) (path ancestors : List ε) (destinationUrl : Option String)
  | input (page : Page ε) (el : ε)
  | change (page : Page ε) (el : ε) (optionText : String)
  | scroll (el : ε)
  | keydown (page : Page ε) (el : ε) (key : String) (destinationUrl : Option String)
  | submit (page : Page ε) (form : ε) (submitter : Option ε)
  | navigate (page : Page ε) (tabTransition : Bool)
  | inputTimeout (page : Page ε) (el : ε)
  | scrollTimeout (page : Page ε) (el : ε)
  | settle (sequence : Nat)
  | timeOut (sequence : Nat)
  | runTask
  | beforeUnload (page : Page ε)
  | stopAsync (page : Page ε)
  | captureFinal (page : Page ε)
  | finalizeStop

variable (clock : Nat → Nat)

def State.ended (s : State ε) : Bool := s.stopping == .stopped || s.stopping == .unloaded

def step (s : State ε) (op : Op ε) : Option (State ε) :=
  if s.ended then none
  else match op with
  | .click page path ancestors destinationUrl =>
    some (handleClick clock page path ancestors destinationUrl s)
  | .input page el => some (handleInput page el s)
  | .change page el optionText => some (handleChange clock page el optionText s)
  | .scroll el => some (handleScroll el s)
  | .keydown page el key destinationUrl =>
    some (handleKeydown clock page el key destinationUrl s)
  | .submit page form submitter => some (handleSubmit clock page form submitter s)
  | .navigate page tabTransition => some (handleNavigate clock page tabTransition s)
  | .inputTimeout page el =>
    if el ∈ s.inputTimeouts then
      let s := recordTextInput clock page el false s
      some { s with inputTimeouts := s.inputTimeouts.erase el }
    else none
  | .scrollTimeout page el =>
    if el ∈ s.scrollTimeouts then
      let s := recordScroll clock page el false s
      some { s with scrollTimeouts := s.scrollTimeouts.erase el }
    else none
  | .settle sequence => settle sequence s
  | .timeOut sequence => timeOut sequence s
  | .runTask => runTask s
  | .beforeUnload page => some (handleBeforeUnload clock page s)
  | .stopAsync page => some (stopAsync clock page s)
  | .captureFinal page => captureFinal clock page s
  | .finalizeStop => finalizeStop s

def next (s : State ε) (op : Op ε) : State ε := (step clock s op).getD s

def blank (page : Page ε) : State ε where
  readings := 0
  selectorToIndex := []
  nextIndex := 1
  pendingEventElements := []
  snapshotSequence := 0
  events := []
  snapshots := []
  captures := []
  eventQueue := []
  taken := []
  inputTimeouts := []
  scrollTimeouts := []
  scrollState := []
  lastEnterSubmit := none
  lastClickedSubmitter := none
  lastRecordedUrl := some page.url
  stopping := .no

/-- `start`, and the capture that the first task of the queue makes. -/
def start (page : Page ε) : State ε :=
  let s := blank page
  let (timestamp, x) := dateNow clock s.toIndexes
  let s := captureSnapshot clock page timestamp .initial none { s with toIndexes := x }
  { s with eventQueue := [⟨0, none, 0, false, false⟩] }

end ContentRecorder

end Aegis
