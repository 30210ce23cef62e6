import Aegis.Recording.Handlers

/-!
# Recording.Resolver

`src/rule-generator/converter`: how the converter finds the element of an event again, in the
snapshots of an expanded recording, and the actions that it makes of the events.
-/

namespace Aegis

namespace Converter

open ContentRecorder
open Recorder (SnapshotPhase)

/-- What `resolveTarget` throws. -/
inductive ResolveError where
  | ambiguous (index timestamp : Nat)
  | noSnapshot (timestamp : Nat)
  | notFound (index timestamp : Nat)

/-- The binary search of `findSnapshot`, between `low` and `high`, the latter not included: every
turn shortens the range. -/
def search (snapshots : List DomSnapshot) (timestamp : Nat) :
    Nat → Nat → Nat → Option DomSnapshot → Option DomSnapshot
  | 0, _, _, best => best
  | turns + 1, low, high, best =>
    if low < high then
      let mid := (low + (high - 1)) / 2
      match snapshots[mid]? with
      | none => best
      | some snapshot =>
        if snapshot.timestamp ≤ timestamp then
          search snapshots timestamp turns (mid + 1) high (some snapshot)
        else search snapshots timestamp turns low mid best
    else best

def findSnapshot (snapshots : List DomSnapshot) (timestamp : Nat) : Option DomSnapshot :=
  search snapshots timestamp snapshots.length 0 snapshots.length none

def isExact (index timestamp : Nat) (x : DomSnapshot) : Bool :=
  x.timestamp == timestamp && x.phase == .beforeAction && (x.selectorMap index).isSome

def findEventSnapshot (snapshots : List DomSnapshot) (index timestamp : Nat) :
    Except ResolveError (Option DomSnapshot) :=
  match snapshots.filter (isExact index timestamp) with
  | [] => .ok (findSnapshot snapshots timestamp)
  | [exact] => .ok (some exact)
  | _ => .error (.ambiguous index timestamp)

/-- The snapshot and the entry that `resolveTarget` uses. -/
def resolveInfo (snapshots : List DomSnapshot) (index timestamp : Nat) :
    Except ResolveError (DomSnapshot × DomElementInfo) := do
  match ← findEventSnapshot snapshots index timestamp with
  | none => throw (.noSnapshot timestamp)
  | some snapshot =>
    match snapshot.selectorMap index with
    | none => throw (.notFound index timestamp)
    | some info => return (snapshot, info)

/-- `SelectorAliasRegistry`, with the optimizer of selectors: what they make of an entry and its
snapshot, which is no error. -/
structure Registry (ρ : Type) where
  getAlias : DomSnapshot → DomElementInfo → ρ → String × ρ

/-- An event after its merges: `submit` is set where a submit was merged into an input. -/
structure MergedEvent extends PageAgentEvent where
  submit : Bool

/-- `coalesceIncrementalInputTextEvents`: the event after a result that ends in another. -/
def growsInput (previous event : MergedEvent) : Bool :=
  match event.body, previous.body with
  | .inputText index text, .inputText index' text' =>
    index' == index && text'.length < text.length && text.startsWith text' && !previous.submit
  | _, _ => false

def replaceOrPush (replace : MergedEvent → MergedEvent → Option MergedEvent)
    (result : List MergedEvent) (event : MergedEvent) : List MergedEvent :=
  match result.getLast? with
  | none => result ++ [event]
  | some previous =>
    match replace previous event with
    | some merged => result.dropLast ++ [merged]
    | none => result ++ [event]

def coalesceIncrementalInputTextEvents (events : List MergedEvent) : List MergedEvent :=
  events.foldl
    (replaceOrPush fun previous event => if growsInput previous event then some event else none) []

def mergedSubmit (previous event : MergedEvent) : Option MergedEvent :=
  match event.body, previous.body with
  | .submitForm index _, .inputText index' _ =>
    if index' = index then some { previous with submit := true } else none
  | _, _ => none

def mergeSubmitFormEvents (events : List MergedEvent) : List MergedEvent :=
  events.foldl (replaceOrPush mergedSubmit) []

def isOpened (event next : MergedEvent) : Bool :=
  match event.body, next.body with
  | .click _ (some destinationUrl), .navigate url tabTransition =>
    destinationUrl ≠ "" && url == destinationUrl && tabTransition
  | _, _ => false

/-- `collapseOpenedTabTransition`, with whether the event is skipped. -/
def collapseFrom : Bool → List MergedEvent → List MergedEvent
  | _, [] => []
  | true, _ :: rest => collapseFrom false rest
  | false, event :: rest =>
    event :: collapseFrom ((rest.head?.map (isOpened event)).getD false) rest

def collapseOpenedTabTransition (events : List MergedEvent) : List MergedEvent :=
  collapseFrom false events

inductive Action where
  | navigate (url : String)
  | click (target : String)
  | type (target : String) (value : String) (submit : Bool)
  | select (target : String) (value : String)
  | pressKey (keys : List String)
  | scrollBy (direction : ScrollDirection) (distance : ℚ) (unit : Option ScrollUnit)
      (target : Option String)

section Convert

variable {ρ : Type} (registry : Registry ρ) (snapshots : List DomSnapshot)

def resolveTarget (index timestamp : Nat) : StateT ρ (Except ResolveError) String := do
  let (snapshot, info) ← liftM (resolveInfo snapshots index timestamp)
  modifyGet (registry.getAlias snapshot info)

def mapEvent (event : MergedEvent) : StateT ρ (Except ResolveError) (List Action) :=
  let resolve index := resolveTarget registry snapshots index event.timestamp
  match event.body with
  | .navigate url _ => return [.navigate url]
  | .click index destinationUrl =>
    match destinationUrl.filter (· ≠ "") with
    | some url => return [.navigate url]
    | none => return [.click (← resolve index)]
  | .inputText index text => return [.type (← resolve index) text event.submit]
  | .submitForm _ submitterIndex =>
    match submitterIndex with
    | some index => return [.click (← resolve index)]
    | none => return [.pressKey ["Enter"]]
  | .selectOption index optionText => return [.select (← resolve index) optionText]
  | .scroll direction amount unit index =>
    match unit with
    | .pages => return [.scrollBy direction amount (some .pages) none]
    | .pixels => return [.scrollBy direction amount none (some (← resolve index))]

def mapEvents : List MergedEvent → StateT ρ (Except ResolveError) (List Action)
  | [] => return []
  | event :: rest => return (← mapEvent registry snapshots event) ++ (← mapEvents rest)

/-- The steps that `convert` makes of a recording without annotations, before the guessed variables
are put in, which is no error. -/
def convert (events : List PageAgentEvent) : StateT ρ (Except ResolveError) (List Action) :=
  mapEvents registry snapshots (collapseOpenedTabTransition (mergeSubmitFormEvents
    (coalesceIncrementalInputTextEvents (events.map fun event => ⟨event, false⟩))))

end Convert

end Converter

end Aegis
