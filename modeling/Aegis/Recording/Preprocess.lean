import Aegis.Recording.Elements
import Mathlib.Data.List.Basic

/-!
# Recording.Preprocess

`preprocess`: the events without repeated clicks and with merged scrolls, and the snapshots cut to
the first entries of their selector maps.

What `pruneDomTree` leaves of a tree is a parameter, and so are the numbers.
-/

namespace Aegis

open List

namespace Preprocess

open ContentRecorder (ScrollDirection ScrollUnit)

inductive EventBody (ν ε : Type) where
  | click (index : Int)
  | scroll (direction : ScrollDirection) (amount : Option ν) (unit : ScrollUnit) (index : Option Int)
  | other (e : ε)

/-- `copied` is the members that are only copied. -/
structure PageAgentEvent (ν ε : Type) where
  timestamp : ν
  body : EventBody ν ε
  copied : ε

abbrev Events (ν ε : Type) := List (PageAgentEvent ν ε)

/-- The text in its code units. -/
structure DomElementInfo (ε : Type) where
  text : Option (List UInt16)
  copied : ε

/-- `selectorMap` in the order of `Object.entries`. -/
structure DomSnapshot (ν ε : Type) where
  timestamp : ν
  url : String
  selectorMap : List (Int × DomElementInfo ε)
  domTree : Option ε

structure PageAgentRecording (ν ε : Type) where
  copied : ε
  events : Events ν ε
  snapshots : List (DomSnapshot ν ε)

structure PreprocessOptions (ν : Type) where
  dedupeClickRadiusMs : Option ν
  maxSnapshotNodes : Option Int
  maxTextLength : Option Int
  maxDomTreeNodes : Option Int
  maxDomTreeDepth : Option Int
  maxDomTreeTextLength : Option Int

section

variable {ν ε : Type} [NatCast ν] [Add ν] [Sub ν] [LT ν] [DecidableLT ν] (radiusMs : ν)
  (last e : PageAgentEvent ν ε)

/-- A click on the index of the click before, less than `radiusMs` later. -/
def repeats : Bool :=
  match last.body, e.body with
  | .click i, .click j => j == i && e.timestamp - last.timestamp < radiusMs
  | _, _ => false

def sameDirection : Bool :=
  match last.body, e.body with
  | .scroll d .., .scroll d' .. => d' == d
  | _, _ => false

/-- `last` with the amount of `e` added; a click stays. -/
def merged : PageAgentEvent ν ε :=
  match last.body, e.body with
  | .scroll d amount unit index, .scroll _ amount' _ _ =>
    { last with body := .scroll d (some (amount.getD (0 : Nat) + amount'.getD (0 : Nat))) unit index }
  | _, _ => last

/-- One event in the loop of `dedupeEvents`, over `out` and `last`. -/
def dedupe (s : Events ν ε × Option (PageAgentEvent ν ε)) (e : PageAgentEvent ν ε) :
    Events ν ε × Option (PageAgentEvent ν ε) :=
  match s.2 with
  | some last =>
    if repeats radiusMs last e then s
    else if sameDirection last e then (s.1.dropLast ++ [merged last e], some (merged last e))
    else (s.1 ++ [e], some e)
  | none => (s.1 ++ [e], some e)

def dedupeEvents (events : Events ν ε) : Events ν ε :=
  (events.foldl (dedupe radiusMs) ([], none)).1

/-- `slice(0, stop)`. -/
def slice {α : Type} (l : List α) (stop : Int) : List α :=
  l.take (if 0 ≤ stop then stop.toNat else l.length - (-stop).toNat)

def DomElementInfo.cut (maxText : Int) (info : DomElementInfo ε) : DomElementInfo ε :=
  { info with text := info.text.map fun text => slice text maxText }

variable (pruneDomTree : (maxNodes maxDepth maxTextLength : Int) → ε → Option ε)
  (options : PreprocessOptions ν)

def dehydrateSnapshot (snapshot : DomSnapshot ν ε) : DomSnapshot ν ε :=
  { snapshot with
    selectorMap := (slice snapshot.selectorMap (options.maxSnapshotNodes.getD 500)).map fun entry =>
      (entry.1, entry.2.cut (options.maxTextLength.getD 200))
    domTree := snapshot.domTree.bind (pruneDomTree (options.maxDomTreeNodes.getD 1000)
      (options.maxDomTreeDepth.getD 20) (options.maxDomTreeTextLength.getD 100)) }

def preprocess (recording : PageAgentRecording ν ε) : PageAgentRecording ν ε :=
  { recording with
    events := dedupeEvents (options.dedupeClickRadiusMs.getD (500 : Nat)) recording.events
    snapshots := recording.snapshots.map (dehydrateSnapshot pruneDomTree options) }

/-! ## What is kept -/

/-- Such an event is not pushed. -/
def absorbs : Bool := repeats radiusMs last e || sameDirection last e

/-- The events after one that is pushed, and what is kept from it on: the event kept before takes in
an event that is not pushed. -/
inductive Deduped : PageAgentEvent ν ε → Events ν ε → Events ν ε → Prop
  | nil {last : PageAgentEvent ν ε} : Deduped last [] [last]
  | absorb {last e : PageAgentEvent ν ε} {events out : Events ν ε} (h : absorbs radiusMs last e)
      (hrest : Deduped (merged last e) events out) : Deduped last (e :: events) out
  | push {last e : PageAgentEvent ν ε} {events out : Events ν ε} (h : ¬absorbs radiusMs last e)
      (hrest : Deduped e events out) : Deduped last (e :: events) (last :: out)

/-- The first event is kept. -/
def DedupedAll : Events ν ε → Events ν ε → Prop
  | [], out => out = []
  | e :: events, out => Deduped radiusMs e events out

variable {radiusMs last e} {c : PageAgentEvent ν ε} {events out front : Events ν ε}

theorem absorbs_merged : absorbs radiusMs c (merged last e) = absorbs radiusMs c last := by
  obtain ⟨t, body, x⟩ := last
  obtain ⟨t', body', x'⟩ := e
  obtain ⟨t'', body'', x''⟩ := c
  cases body <;> cases body' <;> cases body'' <;> rfl

theorem dedupe_of_absorbs (h : absorbs radiusMs last e) :
    dedupe radiusMs (front ++ [last], some last) e = (front ++ [merged last e], some (merged last e)) := by
  unfold dedupe
  dsimp only
  split
  · rename_i hrepeats
    obtain ⟨t, body, x⟩ := last
    obtain ⟨t', body', x'⟩ := e
    cases body <;> cases body' <;> first | cases hrepeats | rfl
  · rename_i hrepeats
    rw [absorbs, eq_false_of_ne_true hrepeats, Bool.false_or] at h
    rw [if_pos h, dropLast_concat]

variable (front) in
theorem Deduped.foldl (h : Deduped radiusMs last events out) :
    (events.foldl (dedupe radiusMs) (front ++ [last], some last)).1 = front ++ out := by
  induction h generalizing front with
  | nil => rfl
  | absorb h hrest ih => rw [foldl_cons, dedupe_of_absorbs h, ih]
  | push h hrest ih =>
    rw [absorbs, Bool.or_eq_true, not_or] at h
    rw [foldl_cons, dedupe]
    dsimp only
    rw [if_neg h.1, if_neg h.2, ih, append_assoc, singleton_append]

variable (radiusMs) in
theorem exists_deduped (last : PageAgentEvent ν ε) (events : Events ν ε) :
    ∃ out, Deduped radiusMs last events out := by
  induction events generalizing last with
  | nil => exact ⟨_, .nil⟩
  | cons e events ih =>
    by_cases h : absorbs radiusMs last e
    · exact (ih (merged last e)).imp fun _ => .absorb h
    · obtain ⟨out, hout⟩ := ih e
      exact ⟨_, .push h hout⟩

theorem Deduped.again (h : Deduped radiusMs last events out) : ∃ first rest, out = first :: rest ∧
    (∀ c, absorbs radiusMs c first = absorbs radiusMs c last) ∧ Deduped radiusMs first rest out := by
  induction h with
  | @nil last => exact ⟨last, [], rfl, fun _ => rfl, .nil⟩
  | absorb h hrest ih =>
    obtain ⟨first, rest, rfl, habsorbs, hagain⟩ := ih
    exact ⟨first, rest, rfl, fun c => (habsorbs c).trans absorbs_merged, hagain⟩
  | @push last e events out h hrest ih =>
    obtain ⟨first, rest, rfl, habsorbs, hagain⟩ := ih
    exact ⟨last, _, rfl, fun _ => rfl, .push (by rwa [habsorbs]) hagain⟩

variable (radiusMs events) in
/-- Deduplication leaves out repeated clicks only, and nothing more the second time. -/
theorem dedupeEvents_deduped :
    DedupedAll radiusMs events (dedupeEvents radiusMs events) ∧
      dedupeEvents radiusMs (dedupeEvents radiusMs events) = dedupeEvents radiusMs events := by
  cases events with
  | nil => exact ⟨rfl, rfl⟩
  | cons e events =>
    obtain ⟨out, hout⟩ := exists_deduped radiusMs e events
    have heq : dedupeEvents radiusMs (e :: events) = out := hout.foldl []
    obtain ⟨first, rest, hfirst, -, hagain⟩ := hout.again
    refine ⟨heq ▸ hout, ?_⟩
    rw [heq, hfirst]
    exact (hagain.foldl []).trans hfirst

theorem lookup_map_cut {l : List (Int × DomElementInfo ε)} {maxText : Int} (i : Int) :
    (l.map fun entry => (entry.1, entry.2.cut maxText)).lookup i = (l.lookup i).map (.cut maxText) := by
  induction l with
  | nil => rfl
  | cons entry l ih =>
    rw [map_cons, lookup_cons, lookup_cons, ih]
    split <;> rfl

/-- A repeated click is left out and a scroll is added to the one kept before it; what is kept stays when
it is preprocessed again. A snapshot describes what its first entries did. -/
theorem meaning_kept (pruneDomTree : (maxNodes maxDepth maxTextLength : Int) → ε → Option ε)
    (options : PreprocessOptions ν) (recording : PageAgentRecording ν ε) :
    let result := preprocess pruneDomTree options recording
    DedupedAll (options.dedupeClickRadiusMs.getD (500 : Nat)) recording.events result.events ∧
    (preprocess pruneDomTree options { recording with events := result.events }).events = result.events ∧
    ∃ dehydrate : DomSnapshot ν ε → DomSnapshot ν ε, result.snapshots = recording.snapshots.map dehydrate ∧
      ∀ snapshot i, (dehydrate snapshot).selectorMap.lookup i =
        ((slice snapshot.selectorMap (options.maxSnapshotNodes.getD 500)).lookup i).map
          (.cut (options.maxTextLength.getD 200)) := by
  obtain ⟨hdeduped, hagain⟩ := dedupeEvents_deduped (options.dedupeClickRadiusMs.getD (500 : Nat)) recording.events
  exact ⟨hdeduped, hagain, _, rfl, fun _ i => lookup_map_cut i⟩

end

def scrolls : Events Int Unit :=
  [⟨100, .scroll .down (some 100) .pixels (some 1), ()⟩, ⟨200, .scroll .down (some 2) .pages none, ()⟩,
    ⟨300, .click 7, ()⟩]

def described : DomSnapshot Int Unit := ⟨0, "", [(1, ⟨none, ()⟩), (7, ⟨none, ()⟩)], none⟩

/-- Two pages of the window are added to the pixels of an element; and the element of the click is
beyond the entries that are kept. -/
theorem meaning_lost :
    let result := preprocess (fun _ _ _ t => some t) ⟨none, some 1, none, none, none, none⟩
      ⟨(), scrolls, [described]⟩
    result.events = [⟨100, .scroll .down (some 102) .pixels (some 1), ()⟩, ⟨300, .click 7, ()⟩] ∧
    (described.selectorMap.lookup 7).isSome ∧
      ∀ s ∈ result.snapshots, s.selectorMap.lookup 7 = none := by
  refine ⟨rfl, rfl, ?_⟩
  intro s hs
  cases mem_singleton.mp hs
  rfl

end Preprocess

end Aegis
