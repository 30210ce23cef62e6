import Aegis.Lib.Run
import Aegis.Recording.Json
import Mathlib.Data.List.TakeDrop

/-!
# Replay.Rows

The result rows of a replay on their way to the fallback completion: `replayResultRows`, its copy in
the session storage, and what `cleanupReplaySession` submits when no wizard is connected.

* `objectRows` — the rows that a list of payloads stands for.
* `Event`      — a result message, a storage write that completes, an eviction of the service worker,
  the end of the recovery, the `REPLAY_COMPLETE` of a success, and its cleanup.
* `unbroken`   — no row is reported to a worker that has lost earlier ones.
-/

namespace Aegis

open List

namespace ReplayRows

variable {ν : Type}

/-- `flatMap((row) => Array.isArray(row) ? row : [row])`, on one payload. -/
def flatten : Json ν → List (Json ν)
  | .arr items => items
  | row => [row]

/-- `row && typeof row === 'object' && !Array.isArray(row)`. -/
def isObjectRow : Json ν → Bool
  | .obj _ => true
  | _ => false

def objectRows (payloads : List (Json ν)) : List (Json ν) :=
  (payloads.flatMap flatten).filter isObjectRow

def rowLimit : Nat := 5000

/-- `rows.slice(-5000)`. -/
def bounded (rows : List (Json ν)) : List (Json ν) := rows.drop (rows.length - rowLimit)

inductive Phase where
  | running
  /-- `REPLAY_COMPLETE` was received, and its cleanup has not read the rows yet. -/
  | completing
  | finished
deriving DecidableEq

structure Session (ν : Type) where
  /-- `activeReplay` is the session. -/
  active : Bool
  /-- `replayResultRows.get(taskId) ?? []`. -/
  rows : List (Json ν)
  /-- The `storage.session.set` calls under way, the first one first. -/
  writes : List (List (Json ν))
  /-- `oc_replay_rows_` in the storage. -/
  stored : List (Json ν)
  phase : Phase
  submitted : Option (List (Json ν))
  reported : List (Json ν)

inductive Event (ν : Type) where
  | result (payload : Json ν)
  | written
  | evicted
  | recovered
  | complete
  | cleanup

namespace Session

/-- A `REPLAY_PROGRESS` message of type `result` from the tab: it is dropped while the session is
not active. -/
def result (s : Session ν) (payload : Json ν) : Session ν :=
  if s.phase ≠ .running then s
  else
    let reported := s.reported ++ [payload]
    if s.active then
      let rows := bounded (s.rows ++ [payload])
      { s with rows, writes := s.writes ++ [rows], reported }
    else { s with reported }

def written (s : Session ν) : Session ν :=
  match s.writes with
  | [] => s
  | rows :: writes => { s with stored := rows, writes }

def evicted (s : Session ν) : Session ν :=
  { s with
    active := false
    rows := []
    phase := if s.phase = .completing then .finished else s.phase }

def recovered (s : Session ν) : Session ν :=
  if s.phase = .running then { s with active := true } else s

/-- `REPLAY_COMPLETE` with a success. A worker that has not recovered yet retains the tab and
broadcasts, and submits nothing. -/
def complete (s : Session ν) : Session ν :=
  if s.phase ≠ .running then s
  else if s.active then { s with phase := .completing }
  else { s with phase := .finished }

/-- The rows that `cleanupReplaySession` finds. -/
def found (s : Session ν) : List (Json ν) := if s.rows.isEmpty then s.stored else s.rows

/-- `cleanupReplaySession`, up to the completion request. -/
def cleanup (s : Session ν) : Session ν :=
  if s.phase = .completing then
    { s with
      active := false
      rows := []
      phase := .finished
      submitted := some ((objectRows s.found).take rowLimit) }
  else s

def step (s : Session ν) : Event ν → Session ν
  | .result payload => s.result payload
  | .written => s.written
  | .evicted => s.evicted
  | .recovered => s.recovered
  | .complete => s.complete
  | .cleanup => s.cleanup

def start : Session ν := ⟨true, [], [], [], .running, none, []⟩

end Session

/-- The session has room for the payload: it reports at most 5000 rows. -/
def fits (s : Session ν) (payload : Json ν) : Bool :=
  let reported := s.reported ++ [payload]
  reported.length ≤ rowLimit && (reported.flatMap flatten).length ≤ rowLimit

/-- An object row comes to a worker that is active and has every row before it; no eviction falls into a
completion; a completion comes to a worker that is active and, when that has no row, after the last
write. -/
def unbroken (s : Session ν) : Event ν → Bool
  | .result payload =>
    s.phase ≠ .running || if s.active then !s.rows.isEmpty || (objectRows s.reported).isEmpty
      else (objectRows [payload]).isEmpty
  | .evicted => s.phase ≠ .completing
  | .complete => s.phase ≠ .running || s.active
  | .cleanup => s.phase ≠ .completing || !s.rows.isEmpty || s.writes.isEmpty
  | _ => true

def withinLimit (s : Session ν) : Event ν → Bool
  | .result payload => s.phase ≠ .running || fits s payload
  | _ => true

theorem objectRows_append (a b : List (Json ν)) : objectRows (a ++ b) = objectRows a ++ objectRows b := by
  simp [objectRows]

theorem objectRows_length_le (a : List (Json ν)) :
    (objectRows a).length ≤ (a.flatMap flatten).length := length_filter_le _ _

theorem bounded_of_le {rows : List (Json ν)} (h : rows.length ≤ rowLimit) : bounded rows = rows := by
  rw [bounded, Nat.sub_eq_zero_of_le h, drop_zero]

def Session.lastWrite (s : Session ν) : List (Json ν) := s.writes.getLast?.getD s.stored

/-- The completion has every object row that the tab has reported. -/
def Session.Exact (s : Session ν) : Prop :=
  s.phase = .finished → s.submitted = some (objectRows s.reported)

/-- The reported rows are in memory, or will be in the storage; `hfits` are the limits. -/
structure Session.Kept (s : Session ν) : Prop where
  exact : s.Exact
  rows : s.phase ≠ .finished → objectRows s.lastWrite = objectRows s.reported
  memory : s.phase ≠ .finished → s.rows ≠ [] → objectRows s.rows = objectRows s.reported
  few : s.rows.length ≤ s.reported.length
  limit : s.reported.length ≤ rowLimit ∧ (s.reported.flatMap flatten).length ≤ rowLimit

namespace Session

variable {s : Session ν} {payload : Json ν}

theorem Kept.found (h : s.Kept) (hphase : s.phase ≠ .finished)
    (hwrites : s.rows ≠ [] ∨ s.writes = []) : objectRows s.found = objectRows s.reported := by
  unfold Session.found
  by_cases hrows : s.rows = []
  · have hdone : s.writes = [] := hwrites.resolve_left (not_not.mpr hrows)
    have hstored := h.rows hphase
    rw [lastWrite, hdone] at hstored
    simpa [hrows] using hstored
  · rw [if_neg (by simpa using hrows)]
    exact h.memory hphase hrows

theorem result_kept (h : s.Kept) (hbroken : unbroken s (.result payload))
    (hlimit : withinLimit s (.result payload)) : (s.result payload).Kept := by
  unfold Session.result
  split
  · exact h
  · rename_i hphase
    have hrunning : s.phase = .running := not_not.mp hphase
    simp only [unbroken, hrunning, ne_eq, not_true_eq_false, decide_false, Bool.false_or] at hbroken
    simp only [withinLimit, fits, hrunning, ne_eq, not_true_eq_false, decide_false, Bool.false_or,
      Bool.and_eq_true, decide_eq_true_eq] at hlimit
    have hnot : s.phase ≠ .finished := by simp [hrunning]
    have hshort : (s.rows ++ [payload]).length ≤ rowLimit := by
      have hfew := h.few
      have hcount := hlimit.1
      simp only [length_append, length_singleton] at hcount ⊢
      omega
    cases hactive : s.active with
    | false =>
      -- the message is dropped, and has no object row
      have hnone : objectRows [payload] = [] := by simpa [hactive] using hbroken
      have hsame : objectRows (s.reported ++ [payload]) = objectRows s.reported := by
        rw [objectRows_append, hnone, append_nil]
      refine ⟨fun hfinished => absurd hfinished hnot, fun _ => (h.rows hnot).trans hsame.symm,
        fun _ hrows => (h.memory hnot hrows).trans hsame.symm, ?_, hlimit⟩
      exact h.few.trans (by simp)
    | true =>
      have hcomplete : s.rows ≠ [] ∨ objectRows s.reported = [] := by
        simpa [hactive] using hbroken
      -- what is in memory, or there is nothing before the row
      have hmemory : objectRows s.rows = objectRows s.reported := by
        by_cases hrows : s.rows = []
        · have hnone := hcomplete.resolve_left (not_not.mpr hrows)
          rw [hrows, hnone]
          rfl
        · exact h.memory hnot hrows
      simp only [if_true]
      rw [bounded_of_le hshort]
      have hrows : objectRows (s.rows ++ [payload]) = objectRows (s.reported ++ [payload]) := by
        rw [objectRows_append, objectRows_append, hmemory]
      refine ⟨fun hfinished => absurd hfinished hnot, fun _ => ?_, fun _ _ => hrows, ?_, hlimit⟩
      · simpa [lastWrite] using hrows
      · simpa using h.few

theorem written_kept (h : s.Kept) : s.written.Kept := by
  unfold Session.written
  split
  · exact h
  · rename_i rows writes hwrites
    have hlast : ({ s with stored := rows, writes } : Session ν).lastWrite = s.lastWrite := by
      rw [lastWrite, lastWrite, hwrites]
      cases writes with
      | nil => rfl
      | cons w ws => simp [getLast?_cons]
    exact ⟨h.exact, fun hphase => hlast ▸ h.rows hphase, h.memory, h.few, h.limit⟩

theorem evicted_kept (h : s.Kept) (hbroken : unbroken s .evicted) : s.evicted.Kept := by
  have hphase : s.phase ≠ .completing := by simpa [unbroken] using hbroken
  unfold Session.evicted
  rw [if_neg hphase]
  exact ⟨h.exact, h.rows, fun _ hrows => absurd rfl hrows, Nat.zero_le _, h.limit⟩

theorem complete_kept (h : s.Kept) (hbroken : unbroken s .complete) : s.complete.Kept := by
  unfold Session.complete
  split
  · exact h
  · rename_i hphase
    have hrunning : s.phase = .running := not_not.mp hphase
    have hactive : s.active := by simpa [unbroken, hrunning] using hbroken
    have hnot : s.phase ≠ .finished := by simp [hrunning]
    rw [if_pos hactive]
    exact ⟨fun hfinished => (by cases hfinished), fun _ => h.rows hnot, fun _ => h.memory hnot,
      h.few, h.limit⟩

theorem cleanup_kept (h : s.Kept) (hbroken : unbroken s .cleanup) : s.cleanup.Kept := by
  unfold Session.cleanup
  split
  · rename_i hphase
    have hnot : s.phase ≠ .finished := by simp [hphase]
    have hwrites : s.rows ≠ [] ∨ s.writes = [] := by simpa [unbroken, hphase] using hbroken
    have hfound := h.found hnot hwrites
    refine ⟨fun _ => ?_, fun hn => absurd rfl hn, fun hn => absurd rfl hn, Nat.zero_le _, h.limit⟩
    have hshort : (objectRows s.reported).length ≤ rowLimit :=
      (objectRows_length_le _).trans h.limit.2
    rw [hfound, take_of_length_le hshort]
  · exact h

/-- An unbroken event within the limit keeps the rows of the session. -/
theorem step_kept {e : Event ν} (h : s.Kept) (hbroken : unbroken s e)
    (hlimit : withinLimit s e) : (s.step e).Kept := by
  cases e with
  | result payload => exact result_kept h hbroken hlimit
  | written => exact written_kept h
  | evicted => exact evicted_kept h hbroken
  | recovered =>
    rw [step, recovered]
    split
    · exact ⟨h.exact, h.rows, h.memory, h.few, h.limit⟩
    · exact h
  | complete => exact complete_kept h hbroken
  | cleanup => exact cleanup_kept h hbroken

theorem start_kept : (start : Session ν).Kept :=
  ⟨fun h => (by cases h), fun _ => rfl, fun _ h => absurd rfl h, le_refl 0,
    ⟨Nat.zero_le _, Nat.zero_le _⟩⟩

end Session

/-- In an unbroken session of at most 5000 rows, the completion submits every object row that the
tab has reported, in order and once. -/
theorem rows_submitted {es : List (Event ν)}
    (hlimit : Meets Session.step (fun s e => withinLimit s e = true) .start es)
    (hbroken : Meets Session.step (fun s e => unbroken s e = true) .start es) :
    Always Session.step Session.Exact .start es :=
  ((hlimit.and hbroken).always Session.start_kept
    fun _ _ h hmeets => Session.step_kept h hmeets.2 hmeets.1).mono fun _ h => h.exact

namespace Sample

def first : Json Nat := .obj [("row", .num 1)]

def second : Json Nat := .obj [("row", .num 2)]

def lateEviction : List (Event Nat) :=
  [.result first, .result second, .written, .written, .evicted, .recovered, .complete, .cleanup]

def eviction : List (Event Nat) :=
  [.result first, .written, .evicted, .recovered, .result second, .written, .complete, .cleanup]

end Sample

theorem lateEviction_submitted : Always Session.step Session.Exact .start Sample.lateEviction :=
  rows_submitted ⟨rfl, rfl, rfl, rfl, rfl, rfl, rfl, rfl, trivial⟩
    ⟨rfl, rfl, rfl, rfl, rfl, rfl, rfl, rfl, trivial⟩

/-- The row before the eviction is lost. -/
theorem eviction_loses : ¬∀ es : List (Event Nat),
    Meets Session.step (fun s e => withinLimit s e = true) .start es →
      Always Session.step Session.Exact .start es := by
  intro h
  have hexact := (h Sample.eviction ⟨rfl, rfl, rfl, rfl, rfl, rfl, rfl, rfl, trivial⟩).run
  have hlost : (run Session.step .start Sample.eviction).submitted = some [Sample.second] := rfl
  have hall : objectRows (run Session.step .start Sample.eviction).reported =
      [Sample.first, Sample.second] := rfl
  have hsame := hexact rfl
  rw [hlost, hall] at hsame
  exact absurd (Option.some.inj hsame) (by simp)

end ReplayRows

end Aegis
