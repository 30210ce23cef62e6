import Mathlib.Data.List.Infix
import Aegis.Recording.Evidence
import Aegis.Recording.Order
import Aegis.Recording.Resolver

/-!
# Recording.Conversion

What the converter resolves of a recording. Every event has the snapshot that was captured for it,
and the converter finds it again exactly when no other action of the same millisecond has a snapshot
with an entry under an index of the event.
-/

namespace Aegis

open List Option

namespace Converter

open ContentRecorder
open Recorder (SnapshotPhase)

section Resolve

variable {snapshots : List DomSnapshot} {x y : DomSnapshot} {index timestamp : Nat}
  {info : DomElementInfo}

theorem isExact_iff : isExact index timestamp x ↔
    x.timestamp = timestamp ∧ x.phase = .beforeAction ∧ (x.selectorMap index).isSome = true := by
  simp [isExact, and_assoc]

theorem resolveInfo_of_exact (hfilter : snapshots.filter (isExact index timestamp) = [x])
    (hinfo : x.selectorMap index = some info) :
    resolveInfo snapshots index timestamp = .ok (x, info) := by
  have hfound : findEventSnapshot snapshots index timestamp = .ok (some x) := by
    rw [findEventSnapshot, hfilter]
  simp only [resolveInfo, hfound, bind, Except.bind, hinfo]
  rfl

theorem resolveInfo_of_ambiguous (h : 2 ≤ (snapshots.filter (isExact index timestamp)).length) :
    resolveInfo snapshots index timestamp = .error (.ambiguous index timestamp) := by
  rw [resolveInfo, findEventSnapshot]
  cases hfilter : snapshots.filter (isExact index timestamp) with
  | nil =>
    rw [hfilter] at h
    exact absurd h (by simp)
  | cons x rest =>
    cases rest with
    | nil =>
      rw [hfilter] at h
      exact absurd h (by simp)
    | cons y rest => rfl

end Resolve

section Convert

variable {ρ : Type} {registry : Registry ρ} {snapshots : List DomSnapshot}

/-- Every element that the event names is in a snapshot. -/
def Resolvable (snapshots : List DomSnapshot) (event : PageAgentEvent) : Prop :=
  ∀ index ∈ event.body.indices, ∃ found, resolveInfo snapshots index event.timestamp = .ok found

def Succeeds {α : Type} (m : StateT ρ (Except ResolveError) α) : Prop :=
  ∀ r, ∃ a r', m r = .ok (a, r')

theorem Succeeds.pure {α : Type} (a : α) : Succeeds (Pure.pure a : StateT ρ (Except ResolveError) α) :=
  fun r => ⟨a, r, rfl⟩

theorem Succeeds.bind {α β : Type} {m : StateT ρ (Except ResolveError) α}
    {f : α → StateT ρ (Except ResolveError) β} (hm : Succeeds m) (hf : ∀ a, Succeeds (f a)) :
    Succeeds (m >>= f) := by
  intro r
  obtain ⟨a, r', ha⟩ := hm r
  obtain ⟨b, r'', hb⟩ := hf a r'
  refine ⟨b, r'', ?_⟩
  show (m r >>= fun p => f p.1 p.2) = _
  rw [ha]
  exact hb

theorem resolveTarget_succeeds {index timestamp : Nat} {found : DomSnapshot × DomElementInfo}
    (h : resolveInfo snapshots index timestamp = .ok found) :
    Succeeds (resolveTarget registry snapshots index timestamp) := by
  intro r
  refine ⟨(registry.getAlias found.1 found.2 r).1, (registry.getAlias found.1 found.2 r).2, ?_⟩
  simp only [resolveTarget, h]
  rfl

variable {event : MergedEvent}

theorem mapEvent_succeeds (h : Resolvable snapshots event.toPageAgentEvent) :
    Succeeds (mapEvent registry snapshots event) := by
  have hresolve : ∀ index ∈ event.body.indices, ∀ k : String → List Action,
      Succeeds (resolveTarget registry snapshots index event.timestamp >>= fun target =>
        Pure.pure (k target)) := by
    intro index hindex k
    obtain ⟨found, hfound⟩ := h index hindex
    exact (resolveTarget_succeeds hfound).bind fun target => Succeeds.pure _
  rw [mapEvent.eq_def]
  dsimp only
  cases hbody : event.body with
  | navigate url tabTransition => exact Succeeds.pure _
  | click index destinationUrl =>
    rw [hbody] at hresolve
    dsimp only
    split
    · exact Succeeds.pure _
    · exact hresolve index (by simp [EventBody.indices]) _
  | inputText index text | selectOption index optionText =>
    rw [hbody] at hresolve
    exact hresolve index (by simp [EventBody.indices]) _
  | submitForm index submitterIndex =>
    rw [hbody] at hresolve
    cases submitterIndex with
    | some submitter => exact hresolve submitter (by simp [EventBody.indices]) _
    | none => exact Succeeds.pure _
  | scroll direction amount unit index =>
    rw [hbody] at hresolve
    cases unit with
    | pages => exact Succeeds.pure _
    | pixels => exact hresolve index (by simp [EventBody.indices]) _

variable {events : List MergedEvent}

theorem mapEvents_succeeds (h : ∀ event ∈ events, Resolvable snapshots event.toPageAgentEvent) :
    Succeeds (mapEvents registry snapshots events) := by
  induction events with
  | nil => exact Succeeds.pure _
  | cons event rest ih =>
    refine (mapEvent_succeeds (h event mem_cons_self)).bind fun first => ?_
    exact (ih fun other hother => h other (mem_cons_of_mem _ hother)).bind fun others =>
      Succeeds.pure _

theorem mem_replaceOrPush {replace : MergedEvent → MergedEvent → Option MergedEvent}
    {P : PageAgentEvent → Prop}
    (hreplace : ∀ previous event merged, replace previous event = some merged →
      merged.toPageAgentEvent = previous.toPageAgentEvent ∨
        merged.toPageAgentEvent = event.toPageAgentEvent)
    (h : ∀ event ∈ events, P event.toPageAgentEvent) :
    ∀ event ∈ events.foldl (replaceOrPush replace) [], P event.toPageAgentEvent := by
  have hfold : ∀ result : List MergedEvent, (∀ event ∈ result, P event.toPageAgentEvent) →
      ∀ event ∈ events.foldl (replaceOrPush replace) result, P event.toPageAgentEvent := by
    induction events with
    | nil => exact fun result hresult => hresult
    | cons event rest ih =>
      intro result hresult
      refine ih (fun other hother => h other (mem_cons_of_mem _ hother)) _ ?_
      have hevent := h event mem_cons_self
      have hpushed : ∀ other ∈ result ++ [event], P other.toPageAgentEvent := by
        intro other hother
        rcases mem_append.mp hother with hother | hother
        · exact hresult other hother
        · rw [mem_singleton.mp hother]
          exact hevent
      rw [replaceOrPush]
      split
      · exact hpushed
      · rename_i previous hlast
        split
        · rename_i merged hmerged
          intro other hother
          rcases mem_append.mp hother with hother | hother
          · exact hresult other (mem_of_mem_dropLast hother)
          · rw [mem_singleton.mp hother]
            rcases hreplace _ _ _ hmerged with hsame | hsame
            · rw [hsame]
              exact hresult previous (mem_of_getLast? hlast)
            · rw [hsame]
              exact hevent
        · exact hpushed
  exact hfold [] fun _ hevent => absurd hevent not_mem_nil

theorem mem_collapseFrom {skip : Bool} (h : event ∈ collapseFrom skip events) : event ∈ events := by
  induction events generalizing skip with
  | nil =>
    cases skip <;> cases h
  | cons first rest ih =>
    cases skip with
    | true => exact mem_cons_of_mem _ (ih h)
    | false =>
      rcases mem_cons.mp h with rfl | h
      · exact mem_cons_self
      · exact mem_cons_of_mem _ (ih h)

/-- Events that can be resolved convert. -/
theorem convert_succeeds {events : List PageAgentEvent} (h : ∀ event ∈ events, Resolvable snapshots event) :
    Succeeds (convert registry snapshots events) := by
  refine mapEvents_succeeds fun event hevent => ?_
  have hmarked : ∀ event ∈ events.map fun event => (⟨event, false⟩ : MergedEvent),
      Resolvable snapshots event.toPageAgentEvent := by
    intro event hevent
    obtain ⟨original, horiginal, rfl⟩ := List.mem_map.mp hevent
    exact h original horiginal
  refine mem_replaceOrPush (P := Resolvable snapshots) ?_
    (mem_replaceOrPush (P := Resolvable snapshots) ?_ hmarked) event (mem_collapseFrom hevent)
  · intro previous event merged hmerged
    rw [mergedSubmit.eq_def] at hmerged
    split at hmerged
    · split at hmerged
      · exact .inl (by rw [← some.inj hmerged])
      · cases hmerged
    · cases hmerged
  · intro previous event merged hmerged
    split at hmerged
    · exact .inr (by rw [← some.inj hmerged])
    · cases hmerged

end Convert

end Converter

namespace ContentRecorder

open Converter
open Recorder (SnapshotPhase)

section Handlers

variable {ε : Type} {clock : Nat → Nat} {page : Page ε} {s : State ε}

/-- What the converter uses for an event is in the snapshot that was captured for the event. -/
def Resolves (s : State ε) : Prop :=
  ∀ event ∈ s.events, ∀ index ∈ event.body.indices, ∃ n x info,
    s.taken[n]? = some event ∧ x ∈ s.snapshots ∧ x.phase = .beforeAction ∧ x.action = some n ∧
      x.selectorMap index = some info ∧ resolveInfo s.snapshots index event.timestamp = .ok (x, info)

/-- No two actions of the millisecond of an event have snapshots with an entry under an index of
the event. -/
def Separate (s : State ε) : Prop :=
  ∀ event ∈ s.events, ∀ index ∈ event.body.indices, ∀ x ∈ s.snapshots, ∀ y ∈ s.snapshots,
    isExact index event.timestamp x = true → isExact index event.timestamp y = true → x.action = y.action

theorem Shows.isExact {x : DomSnapshot} {n : Nat} {event : PageAgentEvent} (h : Shows x n event)
    {index : Nat} (hindex : index ∈ event.body.indices) :
    Converter.isExact index event.timestamp x :=
  isExact_iff.mpr ⟨h.timestamp, h.phase, h.entries index hindex⟩

/-- In a recording that is backed, events that are separate resolve to their own snapshots. -/
theorem Backed.resolves (h : Backed s) (hseparate : Separate s) : Resolves s := by
  intro event hevent index hindex
  obtain ⟨n, hn, x, hx, hshows⟩ := h.evidence.events event hevent (ne_nil_of_mem hindex)
  obtain ⟨info, hinfo⟩ := isSome_iff_exists.mp (hshows.entries index hindex)
  have hexact := hshows.isExact hindex
  have hapart : (s.snapshots.filter (Converter.isExact index event.timestamp)).Pairwise Apart :=
    ((pairwise_append.mp h.evidence.captured.apart).1).filter _
  have hsame : ∀ y ∈ s.snapshots.filter (Converter.isExact index event.timestamp), y = x := by
    intro y hy
    by_contra hne
    have hy' := mem_filter.mp hy
    refine (hapart.forall hy (mem_filter.mpr ⟨hx, hexact⟩) hne).2
      (isExact_iff.mp hy'.2).2.1 hshows.phase ?_
    exact hseparate event hevent index hindex y hy'.1 x hx hy'.2 hexact
  have hfilter : s.snapshots.filter (Converter.isExact index event.timestamp) = [x] := by
    have hmem : x ∈ s.snapshots.filter (Converter.isExact index event.timestamp) :=
      mem_filter.mpr ⟨hx, hexact⟩
    generalize s.snapshots.filter (Converter.isExact index event.timestamp) = exacts at *
    cases exacts with
    | nil => cases hmem
    | cons y rest =>
      obtain rfl := hsame y mem_cons_self
      cases rest with
      | nil => rfl
      | cons z rest =>
        obtain rfl := hsame z (mem_cons_of_mem _ mem_cons_self)
        exact absurd rfl ((pairwise_cons.mp hapart).1 z mem_cons_self).1
  exact ⟨n, x, info, hn, hx, hshows.phase, hshows.action, hinfo, resolveInfo_of_exact hfilter hinfo⟩

theorem Resolves.separate (h : Resolves s) : Separate s := by
  intro event hevent index hindex x hx y hy hxexact hyexact
  by_contra hne
  have hlength : 2 ≤ (s.snapshots.filter (Converter.isExact index event.timestamp)).length := by
    have hxmem := mem_filter.mpr ⟨hx, hxexact⟩
    have hymem := mem_filter.mpr ⟨hy, hyexact⟩
    generalize s.snapshots.filter (Converter.isExact index event.timestamp) = exacts at *
    cases exacts with
    | nil => cases hxmem
    | cons z rest =>
      cases rest with
      | nil =>
        rw [mem_singleton.mp hxmem, mem_singleton.mp hymem] at hne
        exact absurd rfl hne
      | cons z' rest => simp
  obtain ⟨n, z, info, -, -, -, -, -, hresolved⟩ := h event hevent index hindex
  rw [resolveInfo_of_ambiguous hlength] at hresolved
  cases hresolved

variable [DecidableEq ε]

theorem separate_finalizeStop : Separate (next clock s .finalizeStop) ↔ Separate s := by
  rw [next, step]
  split
  · rfl
  · rw [finalizeStop.eq_def]
    split
    · split
      · rfl
      · have hperm := bySequence_perm s.snapshots
        constructor
        · intro h event hevent index hindex x hx y hy
          exact h event hevent index hindex x (hperm.mem_iff.mpr hx) y (hperm.mem_iff.mpr hy)
        · intro h event hevent index hindex x hx y hy
          exact h event hevent index hindex x (hperm.mem_iff.mp hx) y (hperm.mem_iff.mp hy)
    · rfl

theorem separate_concat_finalizeStop {ops : List (Op ε)} :
    Separate (run (next clock) s (ops ++ [.finalizeStop])) ↔ Separate (run (next clock) s ops) := by
  have happend : run (next clock) s (ops ++ [.finalizeStop]) =
      next clock (run (next clock) s ops) .finalizeStop := by
    rw [run, foldl_append]
    rfl
  rw [happend]
  exact separate_finalizeStop

/-- **The events of a recording are found again.** Where each Enter finds its element, the converter
uses for every event the snapshot that was captured for it, and makes steps of the recording,
exactly when no two actions of one millisecond show what an event of it names. -/
theorem converts_iff_separate {ops : List (Op ε)}
    (hseen : Meets (next clock) EnterSeen (start clock page) ops) :
    (Resolves (run (next clock) (start clock page) ops) ∧
      ∀ (ρ : Type) (registry : Registry ρ), Succeeds (convert registry
        (run (next clock) (start clock page) ops).snapshots
        (run (next clock) (start clock page) ops).events)) ↔
      Separate (run (next clock) (start clock page) ops) := by
  refine ⟨fun h => h.1.separate, fun hseparate => ?_⟩
  have hresolves : Resolves (run (next clock) (start clock page) ops) :=
    (backed_run hseen).resolves hseparate
  refine ⟨hresolves, fun ρ registry => convert_succeeds fun event hevent index hindex => ?_⟩
  obtain ⟨n, x, info, -, -, -, -, -, hresolved⟩ := hresolves event hevent index hindex
  exact ⟨(x, info), hresolved⟩

instance (s : State ε) : Decidable (Separate s) :=
  inferInstanceAs (Decidable (∀ event ∈ s.events, ∀ index ∈ event.body.indices,
    ∀ x ∈ s.snapshots, ∀ y ∈ s.snapshots, isExact index event.timestamp x = true →
      isExact index event.timestamp y = true → x.action = y.action))

instance (s : State ε) (op : Op ε) : Decidable (EnterSeen s op) :=
  match op with
  | .keydown page el key _ => inferInstanceAs (Decidable (key = "Enter" →
      isEnterSubmissionElement (page.view el) = true → flushesInput page s = true →
        el ∈ findInteractableElements page))
  | .click .. | .input .. | .change .. | .scroll .. | .submit .. | .navigate .. | .inputTimeout ..
  | .scrollTimeout .. | .settle .. | .timeOut .. | .runTask | .beforeUnload .. | .stopAsync ..
  | .captureFinal .. | .finalizeStop => inferInstanceAs (Decidable True)

end Handlers

namespace Sample

/-- Text in the input, a click on the link before the text is recorded, and a stop that is not yet
final. -/
def typing : List (Op Nat) :=
  [.settle 0, .runTask, .input page 3, .click page [2] [] none, .settle 1, .settle 2,
    .stopAsync page, .captureFinal page, .settle 3]

end Sample

theorem converts_typing :
    Resolves (run (next id) (start id Sample.page) (Sample.typing ++ [.finalizeStop])) := by
  have hseen : Meets (next id) EnterSeen (start id Sample.page)
      (Sample.typing ++ [.finalizeStop]) := by decide +kernel
  have hseparate : Separate (run (next id) (start id Sample.page) Sample.typing) := by
    decide +kernel
  have hconverts := (converts_iff_separate hseen).mpr (separate_concat_finalizeStop.mpr hseparate)
  exact hconverts.1

/-- In one millisecond the text and the click cannot be told apart. -/
theorem ambiguous_typing : ¬∀ clock : Nat → Nat, Monotone clock → ∀ (page : Page Nat) (ops : List (Op Nat)),
      (run (next clock) (start clock page) ops).stopping = .stopped →
        Resolves (run (next clock) (start clock page) ops) := by
  intro h
  have hresolves := h (fun n => n / 100) (fun _ _ h => Nat.div_le_div_right h) Sample.page
    (Sample.typing ++ [.finalizeStop]) (by decide +kernel)
  exact absurd (separate_concat_finalizeStop.mp hresolves.separate) (by decide +kernel)

end ContentRecorder

end Aegis
