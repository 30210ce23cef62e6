import Aegis.Llm.CompletionTrace
import Mathlib.Data.List.Chain

/-!
# Qualification.Lineage

`scripts/qualification/history.ts`: `validateProviderCallLineage`, which an archive of an attempt
runs over its provider calls. The calls are grouped into logical calls, and the groups checked one
by one and together.
-/

namespace Aegis

open List

namespace Qualification

open Llm (BoundaryKind)

/-- `QualificationProviderCall`, as far as its lineage goes. -/
structure QualificationProviderCall where
  callKind : BoundaryKind
  providerAttempt : Nat
  phase : String
  chunkIndex : Option Int
  chunkCount : Nat
  responseId : Option String
deriving DecidableEq

inductive Outcome where
  | succeeded | failed
deriving DecidableEq

/-- What `validateProviderCall` has checked of it. -/
structure QualificationProviderCall.Valid (call : QualificationProviderCall) : Prop where
  phase : call.phase = "analysis" ∨ call.phase = "synthesis" ∨ call.phase = "final"
  chunkIndex : ∀ index ∈ call.chunkIndex, 0 ≤ index ∧ index < call.chunkCount
  providerAttempt : call.callKind = .cacheHit ↔ call.providerAttempt = 0
  responseId : call.callKind = .providerError ↔ call.responseId = none
  id : call.responseId ≠ some ""

/-- The parts of `providerCallLineageKey`: it joins them with colons, and no phase has one. -/
structure LineageKey where
  phase : String
  chunkIndex : Option Int
  chunkCount : Nat
deriving DecidableEq

def providerCallLineageKey (call : QualificationProviderCall) : LineageKey :=
  ⟨call.phase, call.chunkIndex, call.chunkCount⟩

/-- A logical call: `group[0]`, and what was pushed to it. -/
structure LogicalCall where
  first : QualificationProviderCall
  rest : List QualificationProviderCall
deriving DecidableEq

namespace LogicalCall

def calls (group : LogicalCall) : List QualificationProviderCall := group.first :: group.rest

def push (group : LogicalCall) (call : QualificationProviderCall) : LogicalCall :=
  { group with rest := group.rest ++ [call] }

@[simp] theorem calls_push (group : LogicalCall) (call : QualificationProviderCall) :
    (group.push call).calls = group.calls ++ [call] := rfl

end LogicalCall

def checkChunk (call : QualificationProviderCall) : Except String Unit :=
  if call.phase = "analysis" then
    if call.chunkIndex = none ∨ call.chunkCount < 2 then
      .error "qualification analysis calls require an indexed multi-chunk lineage"
    else .ok ()
  else if call.phase = "synthesis" then
    if call.chunkIndex ≠ none ∨ call.chunkCount < 2 then
      .error "qualification synthesis call requires an unindexed multi-chunk lineage"
    else .ok ()
  else if ¬(call.chunkCount = 0 ∧ call.chunkIndex = none ∨
      call.chunkCount = 1 ∧ call.chunkIndex = some 0) then
    .error "qualification final call has invalid single-pass chunk lineage"
  else .ok ()

/-- `seenLogicalCalls` and `logicalCalls`, the latter without its last element and that. -/
structure Grouping where
  seen : List LineageKey
  closed : List LogicalCall
  current : Option LogicalCall

namespace Grouping

def logicalCalls (g : Grouping) : List LogicalCall := g.closed ++ g.current.toList

def begin (g : Grouping) (call : QualificationProviderCall) : Except String Grouping :=
  if providerCallLineageKey call ∈ g.seen then
    .error "qualification logical provider calls must be unique and contiguous"
  else .ok ⟨g.seen ++ [providerCallLineageKey call], g.logicalCalls, some ⟨call, []⟩⟩

def add (g : Grouping) (call : QualificationProviderCall) : Except String Grouping := do
  checkChunk call
  match g.current with
  | none => g.begin call
  | some current =>
    if providerCallLineageKey current.first ≠ providerCallLineageKey call then g.begin call
    else pure { g with current := some (current.push call) }

end Grouping

def groupCalls (calls : List QualificationProviderCall) : Except String (List LogicalCall) :=
  (calls.foldlM Grouping.add ⟨[], [], none⟩).map Grouping.logicalCalls

/-- The attempts of a logical call, from the one at `index`. -/
def checkAttempts (index : Nat) : List QualificationProviderCall → Except String Unit
  | [] => .ok ()
  | call :: rest =>
    if call.callKind = .cacheHit ∨ call.providerAttempt ≠ index + 1 then
      .error "qualification physical provider attempts must be contiguous and ordered"
    else if rest ≠ [] ∧ call.callKind ≠ .providerError then
      .error "qualification provider retries must follow a provider error"
    else checkAttempts (index + 1) rest

def checkGroup (group : LogicalCall) : Except String Unit :=
  if group.first.callKind = .cacheHit then
    if group.rest ≠ [] then
      .error "qualification cache-hit lineage must contain exactly one call"
    else .ok ()
  else checkAttempts 0 group.calls

def LogicalCall.terminal (group : LogicalCall) : Bool :=
  group.first.phase = "final" || group.first.phase = "synthesis"

def coversChunks (chunkCount : Nat) (analyses : List LogicalCall) : Bool :=
  analyses.length = chunkCount && analyses.zipIdx.all fun (group, index) =>
    group.first.phase = "analysis" && group.first.chunkCount = chunkCount &&
      group.first.chunkIndex = some (index : Int)

/-- The phase that ends an attempt. No two logical calls are equal, and so one is the other exactly
when they are the same array. -/
def checkTerminal (logicalCalls : List LogicalCall) : Except String (Option LogicalCall) :=
  let terminalGroups := logicalCalls.filter LogicalCall.terminal
  if 1 < terminalGroups.length ∨
      terminalGroups.length = 1 ∧ logicalCalls.getLast? ≠ terminalGroups.head? then
    .error "qualification attempt must contain at most one final ordered terminal phase"
  else match terminalGroups.head? with
    | none => .ok none
    | some terminal =>
      if terminal.first.phase = "final" ∧ logicalCalls.length ≠ 1 then
        .error "qualification final phase cannot follow chunk-analysis calls"
      else if terminal.first.phase = "synthesis" ∧
          ¬coversChunks terminal.first.chunkCount logicalCalls.dropLast then
        .error "qualification chunk analyses must cover each index exactly once before synthesis"
      else .ok (some terminal)

def responseIds (calls : List QualificationProviderCall) : List (Option String) :=
  (calls.filter fun call => call.callKind = .providerResponse).map
    QualificationProviderCall.responseId

def validateProviderCallLineage (calls : List QualificationProviderCall) (outcome : Outcome) :
    Except String Unit := do
  let logicalCalls ← groupCalls calls
  logicalCalls.forM checkGroup
  let terminal ← checkTerminal logicalCalls
  if outcome = .succeeded ∧ (terminal = none ∨
      ∀ last ∈ calls.getLast?, last.callKind ≠ .providerResponse ∧ last.callKind ≠ .cacheHit) then
    .error "successful qualification attempt requires a completed terminal provider phase"
  else if ¬(responseIds calls).Nodup then
    .error "qualification physical provider response ids must be unique"
  else .ok ()

/-- The scripts accept the history as what the run was. -/
def Accepts (calls : List QualificationProviderCall) (outcome : Outcome) : Prop :=
  validateProviderCallLineage calls outcome = .ok ()

instance (calls : List QualificationProviderCall) (outcome : Outcome) :
    Decidable (Accepts calls outcome) :=
  inferInstanceAs (Decidable (_ = _))

/-! ## The groups -/

structure Grouped (calls : List QualificationProviderCall) (groups : List LogicalCall) : Prop where
  calls : groups.flatMap LogicalCall.calls = calls
  uniform : ∀ group ∈ groups, ∀ call ∈ group.calls,
    providerCallLineageKey call = providerCallLineageKey group.first
  distinct : (groups.map fun group => providerCallLineageKey group.first).Nodup
  chunks : ∀ group ∈ groups, checkChunk group.first = .ok ()

theorem checkChunk_congr {call call' : QualificationProviderCall}
    (h : providerCallLineageKey call = providerCallLineageKey call') :
    checkChunk call = checkChunk call' := by
  simp only [providerCallLineageKey, LineageKey.mk.injEq] at h
  simp only [checkChunk, h.1, h.2.1, h.2.2]

namespace Grouping

structure Keeps (g : Grouping) (calls : List QualificationProviderCall) : Prop where
  grouped : Grouped calls g.logicalCalls
  seen : g.seen = g.logicalCalls.map fun group => providerCallLineageKey group.first
  current : g.current = none → g.closed = []

variable {g g' : Grouping} {calls : List QualificationProviderCall}
  {call : QualificationProviderCall} {group : LogicalCall}

theorem keeps_start : Keeps ⟨[], [], none⟩ [] := by
  refine ⟨⟨rfl, ?_, nodup_nil, ?_⟩, rfl, fun _ => rfl⟩ <;> simp [logicalCalls]

theorem Keeps.begin (h : g.Keeps calls) (hchunk : checkChunk call = .ok ())
    (hbegin : g.begin call = .ok g') : g'.Keeps (calls ++ [call]) := by
  obtain ⟨⟨hcalls, huniform, hdistinct, hchunks⟩, hseen, -⟩ := h
  unfold Grouping.begin at hbegin
  split at hbegin
  · cases hbegin
  · rename_i hnew
    cases hbegin
    refine ⟨⟨?_, ?_, ?_, ?_⟩, ?_, nofun⟩
    · show (g.logicalCalls ++ [LogicalCall.mk call []]).flatMap LogicalCall.calls = _
      rw [flatMap_append, hcalls]
      rfl
    · intro group hgroup
      rcases mem_append.mp hgroup with hold | hlast
      · exact huniform group hold
      · obtain rfl := mem_singleton.mp hlast
        intro call' hcall'
        rw [mem_singleton.mp hcall']
    · show ((g.logicalCalls ++ [LogicalCall.mk call []]).map _).Nodup
      rw [map_append, map_singleton, nodup_append]
      refine ⟨hdistinct, nodup_singleton _, ?_⟩
      intro key hkey key' hkey' heq
      rw [mem_singleton.mp hkey'] at heq
      rw [← hseen, heq] at hkey
      exact hnew hkey
    · intro group hgroup
      rcases mem_append.mp hgroup with hold | hlast
      · exact hchunks group hold
      · obtain rfl := mem_singleton.mp hlast
        exact hchunk
    · show g.seen ++ [_] = (g.logicalCalls ++ [_]).map _
      rw [hseen, map_append]
      rfl

theorem Keeps.push (h : g.Keeps calls) (hcurrent : g.current = some group)
    (hkey : providerCallLineageKey group.first = providerCallLineageKey call) :
    Keeps { g with current := some (group.push call) } (calls ++ [call]) := by
  obtain ⟨⟨hcalls, huniform, hdistinct, hchunks⟩, hseen, -⟩ := h
  have hgroups : g.logicalCalls = g.closed ++ [group] := by simp [logicalCalls, hcurrent]
  rw [hgroups] at hcalls huniform hdistinct hchunks hseen
  have hold : ∀ other ∈ g.closed, other ∈ g.closed ++ [group] :=
    fun other hother => mem_append_left _ hother
  have hlast : group ∈ g.closed ++ [group] := mem_append_right _ (mem_singleton_self _)
  refine ⟨⟨?_, ?_, ?_, ?_⟩, ?_, nofun⟩
  · show (g.closed ++ [group.push call]).flatMap LogicalCall.calls = _
    rw [← hcalls]
    simp [flatMap_append]
  · intro other hother
    rcases mem_append.mp hother with hclosed | hlast'
    · exact huniform other (hold other hclosed)
    · obtain rfl := mem_singleton.mp hlast'
      intro call' hcall'
      rw [LogicalCall.calls_push, mem_append, mem_singleton] at hcall'
      rcases hcall' with hcall' | rfl
      · exact huniform group hlast call' hcall'
      · exact hkey.symm
  · show ((g.closed ++ [group.push call]).map _).Nodup
    rw [map_append] at hdistinct ⊢
    exact hdistinct
  · intro other hother
    rcases mem_append.mp hother with hclosed | hlast'
    · exact hchunks other (hold other hclosed)
    · obtain rfl := mem_singleton.mp hlast'
      exact hchunks group hlast
  · show g.seen = (g.closed ++ [group.push call]).map _
    rw [hseen, map_append, map_append]
    rfl

theorem Keeps.add (h : g.Keeps calls) (hadd : g.add call = .ok g') : g'.Keeps (calls ++ [call]) := by
  unfold Grouping.add at hadd
  cases hchunk : checkChunk call with
  | error e =>
    rw [hchunk] at hadd
    cases hadd
  | ok _ =>
    rw [hchunk] at hadd
    change (match g.current with | none => _ | some current => _) = _ at hadd
    cases hcurrent : g.current with
    | none =>
      rw [hcurrent] at hadd
      exact h.begin hchunk hadd
    | some current =>
      rw [hcurrent] at hadd
      dsimp only at hadd
      split at hadd
      · exact h.begin hchunk hadd
      · rename_i hkey
        cases hadd
        exact h.push hcurrent (not_not.mp hkey)

theorem Keeps.foldlM {calls' : List QualificationProviderCall} (h : g.Keeps calls)
    (hfold : calls'.foldlM Grouping.add g = .ok g') : g'.Keeps (calls ++ calls') := by
  induction calls' generalizing g calls with
  | nil =>
    cases hfold
    rwa [append_nil]
  | cons call calls' ih =>
    rw [foldlM_cons] at hfold
    cases hadd : g.add call with
    | error e =>
      rw [hadd] at hfold
      cases hfold
    | ok g₁ =>
      rw [hadd] at hfold
      have hrest := ih (h.add hadd) hfold
      rwa [append_assoc] at hrest

theorem foldlM_push (rest : List QualificationProviderCall) (hcurrent : g.current = some group)
    (hkeys : ∀ call ∈ rest, providerCallLineageKey call = providerCallLineageKey group.first)
    (hchunk : checkChunk group.first = .ok ()) :
    rest.foldlM Grouping.add g =
      .ok { g with current := some { group with rest := group.rest ++ rest } } := by
  induction rest generalizing g group with
  | nil =>
    rw [append_nil, ← hcurrent]
    rfl
  | cons call rest ih =>
    have hkey := hkeys call mem_cons_self
    have hadd : g.add call = .ok { g with current := some (group.push call) } := by
      unfold Grouping.add
      rw [checkChunk_congr hkey, hchunk, hcurrent]
      show (if _ then _ else _) = _
      rw [if_neg (not_not.mpr hkey.symm)]
      rfl
    rw [foldlM_cons, hadd]
    have hrest := ih (g := { g with current := some (group.push call) }) rfl
      (fun call' hcall' => hkeys call' (mem_cons_of_mem _ hcall')) hchunk
    refine Eq.trans hrest ?_
    simp [LogicalCall.push]

theorem foldlM_group (hseen : ∀ current ∈ g.current, providerCallLineageKey current.first ∈ g.seen)
    (hnew : providerCallLineageKey group.first ∉ g.seen)
    (hkeys : ∀ call ∈ group.calls, providerCallLineageKey call = providerCallLineageKey group.first)
    (hchunk : checkChunk group.first = .ok ()) :
    group.calls.foldlM Grouping.add g =
      .ok ⟨g.seen ++ [providerCallLineageKey group.first], g.logicalCalls, some group⟩ := by
  have hbegin : g.begin group.first = .ok ⟨g.seen ++ [providerCallLineageKey group.first], g.logicalCalls,
        some ⟨group.first, []⟩⟩ := if_neg hnew
  have hadd : g.add group.first = .ok ⟨g.seen ++ [providerCallLineageKey group.first], g.logicalCalls,
        some ⟨group.first, []⟩⟩ := by
    unfold Grouping.add
    rw [hchunk]
    cases hcurrent : g.current with
    | none => exact hbegin
    | some current =>
      show (if _ then _ else _) = _
      rw [if_pos, hbegin]
      intro heq
      exact hnew (heq ▸ hseen current hcurrent)
  have hpush : ∀ g' : Grouping, g'.current = some ⟨group.first, []⟩ →
      group.rest.foldlM Grouping.add g' = .ok { g' with current := some group } :=
    fun g' hcurrent => foldlM_push group.rest hcurrent
      (fun call hcall => hkeys call (mem_cons_of_mem _ hcall)) hchunk
  rw [LogicalCall.calls, foldlM_cons, hadd]
  exact hpush _ rfl

theorem foldlM_groups {groups : List LogicalCall}
    (hcurrent : ∀ current ∈ g.current, providerCallLineageKey current.first ∈ g.seen)
    (hnew : ∀ group ∈ groups, providerCallLineageKey group.first ∉ g.seen)
    (hgroups : Grouped (groups.flatMap LogicalCall.calls) groups) :
    ∃ g', (groups.flatMap LogicalCall.calls).foldlM Grouping.add g = .ok g' ∧
      g'.logicalCalls = g.logicalCalls ++ groups := by
  induction groups generalizing g with
  | nil => exact ⟨g, rfl, (append_nil _).symm⟩
  | cons group groups ih =>
    obtain ⟨-, huniform, hdistinct, hchunks⟩ := hgroups
    rw [map_cons, nodup_cons] at hdistinct
    have hone := foldlM_group hcurrent (hnew group mem_cons_self)
      (huniform group mem_cons_self) (hchunks group mem_cons_self)
    have hunseen : ∀ other ∈ groups, providerCallLineageKey other.first ∉
        g.seen ++ [providerCallLineageKey group.first] := by
      intro other hother hmem
      rcases mem_append.mp hmem with hold | hlast
      · exact hnew other (mem_cons_of_mem _ hother) hold
      · refine hdistinct.1 ?_
        rw [← mem_singleton.mp hlast]
        exact mem_map_of_mem hother
    have hlast : ∀ current ∈ some group, providerCallLineageKey current.first ∈
        g.seen ++ [providerCallLineageKey group.first] := by
      rintro _ ⟨⟩
      exact mem_append_right _ (mem_singleton_self _)
    obtain ⟨g', hfold, hlogical⟩ := ih
      (g := ⟨g.seen ++ [providerCallLineageKey group.first], g.logicalCalls, some group⟩) hlast
      hunseen ⟨rfl, fun other hother => huniform other (mem_cons_of_mem _ hother),
        hdistinct.2, fun other hother => hchunks other (mem_cons_of_mem _ hother)⟩
    refine ⟨g', ?_, ?_⟩
    · rw [flatMap_cons, foldlM_append, hone]
      exact hfold
    · rw [hlogical, Grouping.logicalCalls]
      simp

end Grouping

theorem groupCalls_eq_ok_iff {calls : List QualificationProviderCall} {groups : List LogicalCall} :
    groupCalls calls = .ok groups ↔ Grouped calls groups := by
  unfold groupCalls
  constructor
  · intro h
    cases hfold : calls.foldlM Grouping.add ⟨[], [], none⟩ with
    | error e =>
      rw [hfold] at h
      cases h
    | ok g =>
      rw [hfold] at h
      cases h
      exact (Grouping.keeps_start.foldlM hfold).grouped
  · intro h
    obtain rfl := h.calls
    obtain ⟨g', hfold, hlogical⟩ :=
      Grouping.foldlM_groups (g := ⟨[], [], none⟩) (by simp) (by simp) h
    rw [hfold]
    exact congrArg Except.ok hlogical

end Qualification

end Aegis
