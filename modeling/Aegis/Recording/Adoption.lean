import Aegis.Lib.Sorting
import Aegis.Recording.Recorder

/-!
# Recording.Adoption

The recording of a session after a cross-origin round trip: `adoptNewerBackgroundCheckpoint`, of
`extension/src/content.ts`.

What the background recording has and the local one has not is added to it, by type and time, and
all is sorted by time; the numbers in the snapshots stay as they were. A snapshot is kept here with
the event that it was captured for.
-/

namespace Aegis

open List

namespace Adoption

open Expand (Fields)
open Recorder (Snapshot Linked ShowsFrom bySequence)
open Sorting (sortOn rank)

variable {δ : Type}

structure Event (δ : Type) where
  type : String
  timestamp : Int
  detail : δ

structure Shot (δ : Type) where
  snapshot : Snapshot
  timestamp : Int
  actionIndex : Option Nat
  event : Option (Event δ)

structure Recording (δ : Type) where
  events : List (Event δ)
  snapshots : List (Shot δ)
  terminated : Bool

def eventKey (e : Event δ) : String × Int := (e.type, e.timestamp)

def Recording.stored (r : Recording δ) : List Snapshot := r.snapshots.map Shot.snapshot

def missingEvents (here remote : Recording δ) : List (Event δ) :=
  remote.events.filter fun e => !(here.events.map eventKey).contains (eventKey e)

def missingSnapshots (here remote : Recording δ) : List (Shot δ) :=
  remote.snapshots.filter fun x => x.snapshot.candidate.phase != .final &&
    !(here.snapshots.map Shot.timestamp).contains x.timestamp

def adopts (here remote : Recording δ) : Bool :=
  !remote.terminated && !((missingEvents here remote).isEmpty && (missingSnapshots here remote).isEmpty)

/-- The recording that `adoptNewerBackgroundCheckpoint` leaves; `here` is the local one. -/
def adoptNewerBackgroundCheckpoint (here remote : Recording δ) : Recording δ :=
  if adopts here remote then
    { here with
      events := sortOn Event.timestamp (here.events ++ missingEvents here remote)
      snapshots := sortOn Shot.timestamp (here.snapshots ++ missingSnapshots here remote) }
  else here

/-! ## What a merge keeps -/

/-- A snapshot before an action goes with the event that it counts. -/
def Attached (events : List (Event δ)) (x : Shot δ) : Prop :=
  ∀ i, x.snapshot.candidate.phase = .beforeAction → x.actionIndex = some i →
    ∃ e, x.event = some e ∧ events[i]? = some e

/-- What the recorder keeps: linked snapshots, attached to their events. -/
structure Consistent (r : Recording δ) : Prop where
  linked : Linked r.stored
  attached : ∀ x ∈ r.snapshots, Attached r.events x

/-- The server expands the snapshots, each with the selectors of a snapshot in `sources`. -/
def Expands (machine : Expand.Int64Of) (sources : Snapshot → List Snapshot) (l : List Snapshot) : Prop :=
  ∃ expanded : List Fields,
    Expand.Server.expandAll machine [] ((bySequence l).map fun x => .obj x.json) =
      some (expanded.map .obj) ∧
    List.Forall₂ (fun fields x => ShowsFrom (sources x) fields x) expanded (bySequence l)

def ownSnapshots (here remote : Recording δ) (sequence : Nat) : List Snapshot :=
  if here.stored.any (fun y => y.sequence == sequence) then here.stored else remote.stored

/-- The merged recording has all that the two had. -/
structure Keeps (machine : Expand.Int64Of) (here remote merged : Recording δ) : Prop where
  events : ∀ e, e ∈ here.events ∨ e ∈ remote.events → e ∈ merged.events
  sequences : (merged.stored.map Snapshot.sequence).Nodup
  attached : ∀ x ∈ merged.snapshots, Attached merged.events x
  expands : Expands machine (fun x => ownSnapshots here remote x.sequence) merged.stored

def allEvents (here remote : Recording δ) : List (Event δ) :=
  here.events ++ missingEvents here remote

structure Mergeable (here remote : Recording δ) : Prop where
  /-- Events of one type and time are one event, and nothing is in a recording that has ended. -/
  events : ∀ e ∈ remote.events,
    remote.terminated = true ∨ eventKey e ∈ here.events.map eventKey → e ∈ here.events
  sequences : adopts here remote = true → ∀ x ∈ missingSnapshots here remote, ∀ y ∈ here.stored,
    x.snapshot.sequence ≠ y.sequence
  targets : adopts here remote = true → ∀ x ∈ missingSnapshots here remote, ∀ y ∈ remote.snapshots,
    x.snapshot.target = some y.snapshot.sequence →
      y ∈ missingSnapshots here remote ∨ y.snapshot ∈ here.stored
  positions : adopts here remote = true → ∀ x ∈ here.snapshots ++ missingSnapshots here remote, ∀ i e,
      x.snapshot.candidate.phase = .beforeAction → x.actionIndex = some i → x.event = some e →
      ∃ k, (allEvents here remote)[k]? = some e ∧ rank Event.timestamp (allEvents here remote) k e = i
  bound : ∀ x ∈ here.stored ++ remote.stored, x.sequence < 2 ^ 63

section Merge

variable {here remote : Recording δ}

theorem mem_missingEvents {e : Event δ} : e ∈ missingEvents here remote ↔
    e ∈ remote.events ∧ eventKey e ∉ here.events.map eventKey := by
  rw [missingEvents, mem_filter, Bool.not_eq_true', ← Bool.not_eq_true, contains_iff_mem]

theorem mem_of_mem_missingSnapshots {x : Shot δ} (h : x ∈ missingSnapshots here remote) :
    x ∈ remote.snapshots := mem_of_mem_filter h

theorem ownSnapshots_here {x : Snapshot} (h : x ∈ here.stored) :
    ownSnapshots here remote x.sequence = here.stored := by
  have hany : here.stored.any (fun y => y.sequence == x.sequence) = true :=
    List.any_eq_true.mpr ⟨x, h, beq_iff_eq.mpr rfl⟩
  rw [ownSnapshots, if_pos hany]

theorem ownSnapshots_remote {number : Nat} (h : ∀ y ∈ here.stored, number ≠ y.sequence) :
    ownSnapshots here remote number = remote.stored := by
  refine if_neg fun hany => ?_
  obtain ⟨y, hy, hseq⟩ := List.any_eq_true.mp hany
  exact h y hy (beq_iff_eq.mp hseq).symm

theorem events_of_not_adopts (h : Mergeable here remote) (hadopts : adopts here remote = false)
    {e : Event δ} (he : e ∈ remote.events) : e ∈ here.events := by
  refine h.events e he ?_
  cases hterminated : remote.terminated with
  | true => exact .inl rfl
  | false =>
    right
    by_contra hkey
    have hmem : e ∈ missingEvents here remote := mem_missingEvents.mpr ⟨he, hkey⟩
    rw [adopts, hterminated, isEmpty_eq_false_iff.mpr (ne_nil_of_mem hmem)] at hadopts
    cases hadopts

/-- The merged snapshots are linked as those of the two recordings were. -/
theorem linked_merged (hhere : Consistent here) (hremote : Consistent remote)
    (h : Mergeable here remote) (hadopts : adopts here remote) :
    Linked ((here.snapshots ++ missingSnapshots here remote).map Shot.snapshot) := by
  have hsub : ((missingSnapshots here remote).map Shot.snapshot).Sublist remote.stored :=
    filter_sublist.map _
  rw [map_append]
  constructor
  · refine pairwise_append.mpr ⟨hhere.linked.distinct, hremote.linked.distinct.sublist hsub, ?_⟩
    intro y hy z hz
    obtain ⟨x, hx, rfl⟩ := mem_map.mp hz
    exact (h.sequences hadopts x hx y hy).symm
  · intro z hz
    rcases mem_append.mp hz with hz | hz
    · exact (hhere.linked.resolves z hz).mono fun y hy _ => mem_append_left _ hy
    · refine (hremote.linked.resolves z (hsub.subset hz)).mono fun w hw htarget => ?_
      obtain ⟨x, hx, rfl⟩ := mem_map.mp hz
      obtain ⟨y, hy, rfl⟩ := mem_map.mp hw
      rcases h.targets hadopts x hx y hy htarget with hmem | hmem
      · exact mem_append_right _ (mem_map_of_mem hmem)
      · exact mem_append_left _ hmem

theorem source_own {l own : List Snapshot} {x y : Snapshot} (hl : Linked l)
    (hown : Linked own) (hx : x ∈ own) (hy : y ∈ l) (hsource : Recorder.Source x y)
    (hsub : ∀ z ∈ own, x.target = some z.sequence → z ∈ l) : y ∈ own := by
  have hresolves := hown.resolves x hx
  obtain ⟨c, body⟩ := x
  cases body with
  | whole =>
    obtain rfl : y = ⟨c, .whole⟩ := hsource
    exact hx
  | delta base patch =>
    obtain rfl : y = ⟨c, .delta base patch⟩ := hsource
    exact hx
  | reference ref =>
    obtain ⟨-, z, hz, -, hseq, -⟩ := hresolves
    have hyseq : y.sequence = ref := hsource
    obtain rfl : y = z := Recorder.eq_of_pairwise_ne hl.distinct hy (hsub z hz (by rw [hseq]; rfl))
      (hyseq.trans hseq.symm)
    exact hz

theorem expands_own (machine : Expand.Int64Of) {l : List Snapshot} (h : Linked l)
    (hbound : ∀ x ∈ l, x.sequence < 2 ^ 63) : Expands machine (fun _ => l) l := by
  obtain ⟨expanded, hall, hshows⟩ := Recorder.linked_expands machine h hbound
  refine ⟨expanded, hall, hshows.imp fun fields x hx => ⟨hx.shows, ?_⟩⟩
  obtain ⟨y, hy, hsource⟩ := hx.source
  exact ⟨y, (Recorder.perm_bySequence l).mem_iff.mp hy, hsource⟩

/-- They expand each to what its own recording had. -/
theorem expands_merged (machine : Expand.Int64Of) (hhere : Consistent here)
    (hremote : Consistent remote) (h : Mergeable here remote) (hadopts : adopts here remote)
    {l : List Snapshot}
    (hperm : l.Perm ((here.snapshots ++ missingSnapshots here remote).map Shot.snapshot)) :
    Expands machine (fun x => ownSnapshots here remote x.sequence) l := by
  have hlinked := (linked_merged hhere hremote h hadopts).perm hperm.symm
  have hmem : ∀ z ∈ l, z ∈ here.stored ∨ ∃ x ∈ missingSnapshots here remote, x.snapshot = z := by
    intro z hz
    have hz := hperm.mem_iff.mp hz
    rw [map_append, mem_append] at hz
    exact hz.imp id mem_map.mp
  have hbound : ∀ z ∈ l, z.sequence < 2 ^ 63 := by
    intro z hz
    refine h.bound z (mem_append.mpr ?_)
    rcases hmem z hz with hz | ⟨x, hx, rfl⟩
    · exact .inl hz
    · exact .inr (mem_map_of_mem (mem_of_mem_missingSnapshots hx))
  have hin : ∀ z, (z ∈ here.stored ∨ ∃ x ∈ missingSnapshots here remote, x.snapshot = z) → z ∈ l := by
    intro z hz
    rw [hperm.mem_iff, map_append, mem_append]
    exact hz.imp id mem_map.mpr
  obtain ⟨expanded, hall, hshows⟩ := Recorder.linked_expands machine hlinked hbound
  refine ⟨expanded, hall, forall₂_iff_get.mpr ?_⟩
  obtain ⟨hlength, hget⟩ := forall₂_iff_get.mp hshows
  refine ⟨hlength, fun i hi hi' => ⟨(hget i hi hi').shows, ?_⟩⟩
  obtain ⟨y, hy, hsource, hmap⟩ := (hget i hi hi').source
  have hx := (Recorder.perm_bySequence l).mem_iff.mp (get_mem (bySequence l) ⟨i, hi'⟩)
  generalize (bySequence l).get ⟨i, hi'⟩ = x at hx hsource ⊢
  have hy := (Recorder.perm_bySequence l).mem_iff.mp hy
  refine ⟨y, ?_, hsource, hmap⟩
  by_cases hhas : x ∈ here.stored
  · change y ∈ ownSnapshots here remote x.sequence
    rw [ownSnapshots_here hhas]
    exact source_own hlinked hhere.linked hhas hy hsource fun z hz _ => hin z (.inl hz)
  · obtain ⟨s, hs, rfl⟩ := (hmem _ hx).resolve_left hhas
    change y ∈ ownSnapshots here remote s.snapshot.sequence
    rw [ownSnapshots_remote (h.sequences hadopts s hs)]
    refine source_own hlinked hremote.linked
      (mem_map_of_mem (mem_of_mem_missingSnapshots hs)) hy hsource fun z hz htarget => ?_
    obtain ⟨w, hw, rfl⟩ := mem_map.mp hz
    rcases h.targets hadopts s hs w hw htarget with hmissing | hstored
    · exact hin _ (.inr ⟨w, hmissing, rfl⟩)
    · exact hin _ (.inl hstored)

/-- Two recordings that can be merged keep all that they have. -/
theorem adopt_keeps (machine : Expand.Int64Of) (here remote : Recording δ)
    (hhere : Consistent here) (hremote : Consistent remote) (h : Mergeable here remote) :
    Expands machine (fun _ => here.stored) here.stored ∧
      Expands machine (fun _ => remote.stored) remote.stored ∧
      Keeps machine here remote (adoptNewerBackgroundCheckpoint here remote) := by
  refine ⟨expands_own machine hhere.linked fun x hx => h.bound x (mem_append_left _ hx),
    expands_own machine hremote.linked fun x hx => h.bound x (mem_append_right _ hx), ?_⟩
  rw [adoptNewerBackgroundCheckpoint]
  cases hadopts : adopts here remote with
  | false =>
    rw [if_neg Bool.false_ne_true]
    refine ⟨fun e he => he.elim id (events_of_not_adopts h hadopts),
      pairwise_map.mpr hhere.linked.distinct, hhere.attached, ?_⟩
    obtain ⟨expanded, hall, hshows⟩ := expands_own machine hhere.linked fun x hx =>
      h.bound x (mem_append_left _ hx)
    refine ⟨expanded, hall, forall₂_iff_get.mpr ?_⟩
    obtain ⟨hlength, hget⟩ := forall₂_iff_get.mp hshows
    refine ⟨hlength, fun i hi hi' => ?_⟩
    have hx := (Recorder.perm_bySequence here.stored).mem_iff.mp
      (get_mem (bySequence here.stored) ⟨i, hi'⟩)
    change ShowsFrom (ownSnapshots here remote ((bySequence here.stored).get ⟨i, hi'⟩).sequence) _ _
    rw [ownSnapshots_here hx]
    exact hget i hi hi'
  | true =>
    rw [if_pos rfl]
    have hperm : ((sortOn Shot.timestamp (here.snapshots ++ missingSnapshots here remote)).map
        Shot.snapshot).Perm ((here.snapshots ++ missingSnapshots here remote).map Shot.snapshot) :=
      (Sorting.perm_sortOn _ _).map _
    refine ⟨fun e he => Sorting.mem_sortOn.mpr (mem_append.mpr ?_), ?_, fun x hx => ?_,
      expands_merged machine hhere hremote h hadopts hperm⟩
    · by_cases hkey : e ∈ here.events
      · exact .inl hkey
      · have hremote := he.resolve_left hkey
        refine .inr (mem_missingEvents.mpr ⟨hremote, fun hmem => hkey ?_⟩)
        exact h.events e hremote (.inr hmem)
    · exact (hperm.map Snapshot.sequence).nodup_iff.mpr
        (pairwise_map.mpr (linked_merged hhere hremote h hadopts).distinct)
    · intro i hphase hindex
      have hx := Sorting.mem_sortOn.mp hx
      obtain ⟨e, he⟩ : ∃ e, x.event = some e := by
        rcases mem_append.mp hx with hx | hx
        · obtain ⟨e, he, -⟩ := hhere.attached x hx i hphase hindex
          exact ⟨e, he⟩
        · obtain ⟨e, he, -⟩ := hremote.attached x (mem_of_mem_missingSnapshots hx) i hphase hindex
          exact ⟨e, he⟩
      obtain ⟨k, hk, hrank⟩ := h.positions hadopts x hx i e hphase hindex he
      exact ⟨e, he, hrank ▸ Sorting.getElem_sortOn hk⟩

end Merge

section Runs

def opened : Event Unit := ⟨"navigate", 1, ()⟩

def firstShot : Shot Unit :=
  ⟨⟨{ Recorder.bodyPage with sequence := 0, phase := .initial }, .whole⟩, 1, none, none⟩

def secondShot (e : Event Unit) (body : Recorder.Body) : Shot Unit :=
  ⟨⟨{ Recorder.bodyPage with sequence := 1, phase := .beforeAction }, body⟩, e.timestamp, some 1, some e⟩

def oneEvent : Recording Unit := ⟨[opened], [firstShot], false⟩

def twoEvents (e : Event Unit) (body : Recorder.Body) : Recording Unit :=
  ⟨[opened, e], [firstShot, secondShot e body], false⟩

theorem consistent_oneEvent : Consistent oneEvent := by
  constructor
  · exact ⟨pairwise_singleton _ _, fun x hx => by
      rw [mem_singleton.mp hx]
      trivial⟩
  · intro x hx i hphase _
    rw [mem_singleton.mp hx] at hphase
    cases hphase

theorem consistent_twoEvents (e : Event Unit) {body : Recorder.Body}
    (h : Recorder.Resolves (twoEvents e body).stored (secondShot e body).snapshot) :
    Consistent (twoEvents e body) := by
  constructor
  · constructor
    · refine pairwise_cons.mpr ⟨fun x hx => ?_, pairwise_singleton _ _⟩
      rw [mem_singleton.mp hx]
      exact Nat.zero_ne_one
    · intro x hx
      rcases mem_cons.mp hx with rfl | hx
      · trivial
      · rw [mem_singleton.mp hx]
        exact h
  · intro x hx i hphase hindex
    rcases mem_cons.mp hx with rfl | hx
    · cases hphase
    · rw [mem_singleton.mp hx] at hindex ⊢
      cases hindex
      exact ⟨e, rfl, rfl⟩

def clicked : Event Unit := ⟨"click", 2, ()⟩

/-- The background recording goes on where the local one ends. -/
theorem adopt_keeps_longer : Expands Recorder.flooring (fun _ => oneEvent.stored) oneEvent.stored ∧
      Expands Recorder.flooring (fun _ => (twoEvents clicked (.reference 0)).stored)
        (twoEvents clicked (.reference 0)).stored ∧
      Keeps Recorder.flooring oneEvent (twoEvents clicked (.reference 0))
        (adoptNewerBackgroundCheckpoint oneEvent (twoEvents clicked (.reference 0))) := by
  have hremote : Consistent (twoEvents clicked (.reference 0)) :=
    consistent_twoEvents clicked ⟨rfl, firstShot.snapshot, mem_cons_self, rfl, rfl, Nat.zero_lt_one,
      rfl, rfl, rfl⟩
  have hmissing : missingSnapshots oneEvent (twoEvents clicked (.reference 0)) =
      [secondShot clicked (.reference 0)] := rfl
  refine adopt_keeps Recorder.flooring oneEvent (twoEvents clicked (.reference 0))
    consistent_oneEvent hremote ⟨?_, ?_, ?_, ?_, ?_⟩
  · intro e he hkey
    rcases mem_cons.mp he with rfl | he
    · exact mem_singleton.mpr rfl
    · rw [mem_singleton.mp he] at hkey
      simp [twoEvents, oneEvent, eventKey, clicked, opened] at hkey
  · intro _ x hx y hy
    rw [hmissing] at hx
    rw [mem_singleton.mp hx, mem_singleton.mp hy]
    exact Nat.one_ne_zero
  · intro _ x hx y hy htarget
    rw [hmissing] at hx ⊢
    rcases mem_cons.mp hy with rfl | hy
    · exact .inr (mem_singleton.mpr rfl)
    · exact .inl hy
  · intro _ x hx i e hphase hindex hevent
    rw [hmissing] at hx
    rcases mem_cons.mp hx with rfl | hx
    · cases hphase
    · rw [mem_singleton.mp hx] at hindex hevent
      cases hindex
      cases hevent
      exact ⟨1, rfl, rfl⟩
  · intro x hx
    simp only [Recording.stored, oneEvent, twoEvents, map_cons, map_nil,
      cons_append, nil_append, mem_cons, not_mem_nil, or_false] at hx
    rcases hx with rfl | rfl | rfl
    · exact Nat.pow_pos Nat.two_pos
    · exact Nat.pow_pos Nat.two_pos
    · exact Nat.one_lt_two_pow (by decide)

def scrolled : Event Unit := ⟨"scroll", 10, ()⟩

/-- Both recordings go on after the first event, each with a snapshot of number 1. -/
theorem diverged_collide : Consistent (twoEvents clicked .whole) ∧ Consistent (twoEvents scrolled .whole) ∧
      ∀ machine, ¬ Keeps machine (twoEvents clicked .whole) (twoEvents scrolled .whole)
        (adoptNewerBackgroundCheckpoint (twoEvents clicked .whole) (twoEvents scrolled .whole)) := by
  refine ⟨consistent_twoEvents clicked trivial, consistent_twoEvents scrolled trivial, fun machine h => ?_⟩
  have hnodup := h.sequences
  have hsequences : ((adoptNewerBackgroundCheckpoint (twoEvents clicked .whole)
      (twoEvents scrolled .whole)).stored.map Snapshot.sequence) = [0, 1, 1] := rfl
  rw [hsequences] at hnodup
  exact absurd hnodup (by decide)

end Runs

end Adoption

end Aegis
