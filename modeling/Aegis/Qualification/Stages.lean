import Aegis.Llm.WorkflowRuns

/-!
# Qualification.Stages

The rows of a stage of `Generate` and `Repair` as a logical call of the validator, and back; and the
analyses of the chunks as logical calls that are numbered.
-/

namespace Aegis

open List Option

namespace Qualification

open Llm

/-! ## Stages as logical calls -/

def keyOf (metadata : StageMetadata) : LineageKey :=
  ⟨metadata.phase, metadata.chunkIndex, metadata.chunkCount⟩

def errorsAfter (index : Nat) : Nat → List CapturedCall
  | 0 => []
  | n + 1 => ⟨.providerError, index + 1, ""⟩ :: errorsAfter (index + 1) n

theorem errorsAfter_succ (index n : Nat) :
    errorsAfter index (n + 1) = errorsAfter index n ++ [⟨.providerError, index + n + 1, ""⟩] := by
  induction n generalizing index with
  | zero => rfl
  | succ n ih =>
    rw [errorsAfter, ih, errorsAfter, cons_append]
    have hindex : index + 1 + n + 1 = index + (n + 1) + 1 := by omega
    rw [hindex]

theorem errorCalls_eq (n : Nat) : errorCalls n = errorsAfter 0 n := by
  induction n with
  | zero => rfl
  | succ n ih => rw [errorCalls_succ, errorsAfter_succ, ih, Nat.zero_add]

variable {metadata : StageMetadata} {answered : Bool} {calls : List QualificationProviderCall}
  {group : LogicalCall} {call : QualificationProviderCall}

theorem checkAttempts_errors (index n : Nat) (last : CapturedCall) (hkind : last.kind ≠ .cacheHit)
    (hattempt : last.providerAttempt = index + n + 1) :
    checkAttempts index (metadata.rows (errorsAfter index n ++ [last])) = .ok () := by
  induction n generalizing index with
  | zero =>
    show checkAttempts index [metadata.row last] = .ok ()
    simp [checkAttempts, StageMetadata.row, hkind, hattempt]
  | succ n ih =>
    have hrest : metadata.rows (errorsAfter (index + 1) n ++ [last]) ≠ [] := by
      simp [StageMetadata.rows]
    rw [errorsAfter, cons_append, StageMetadata.rows, map_cons, checkAttempts]
    rw [if_neg (by simp [StageMetadata.row]), if_neg (by simp [StageMetadata.row])]
    exact ih (index + 1) (by omega)

theorem stageRows_check (h : StageRows metadata answered group.calls) : checkGroup group = .ok () := by
  have hfirst : ∀ {cs : List CapturedCall} {c : CapturedCall} {rest : List CapturedCall},
      group.calls = metadata.rows cs → cs = c :: rest →
        group.first = metadata.row c ∧ group.rest = metadata.rows rest := by
    rintro _ c rest hcalls rfl
    exact List.cons.inj hcalls
  have herrors : ∀ (n : Nat) (last : CapturedCall), last.kind ≠ .cacheHit →
      last.providerAttempt = n + 1 → group.calls = metadata.rows (errorCalls n ++ [last]) →
        checkGroup group = .ok () := by
    intro n last hkind hattempt hcalls
    have hnotHit : group.first.callKind ≠ .cacheHit := by
      cases n with
      | zero =>
        rw [(hfirst hcalls rfl).1]
        exact hkind
      | succ n =>
        rw [errorCalls_eq, errorsAfter, cons_append] at hcalls
        rw [(hfirst hcalls rfl).1]
        simp [StageMetadata.row]
    rw [checkGroup, if_neg hnotHit, hcalls, errorCalls_eq]
    exact checkAttempts_errors 0 n last hkind (by omega)
  generalize hcalls : group.calls = calls at h
  cases h with
  | answered h =>
    cases h with
    | cacheHit id =>
      obtain ⟨hfirst, hrest⟩ := hfirst hcalls rfl
      have hempty : group.rest = [] := hrest
      rw [checkGroup, if_pos (by rw [hfirst]; rfl), if_neg (not_not.mpr hempty)]
    | response n id => exact herrors n _ (by simp) rfl hcalls
  | failed h =>
    cases h with
    | errors n =>
      cases n with
      | zero => cases hcalls
      | succ n =>
        rw [errorCalls_succ] at hcalls
        exact herrors n _ (by simp) rfl hcalls

theorem stageRows_key (h : StageRows metadata answered calls) (hcall : call ∈ calls) :
    providerCallLineageKey call = keyOf metadata := by
  cases h with
  | answered _ | failed _ =>
    obtain ⟨c, -, rfl⟩ := List.mem_map.mp hcall
    rfl

theorem stageRows_first (h : StageRows metadata answered group.calls) :
    providerCallLineageKey group.first = keyOf metadata := stageRows_key h mem_cons_self

theorem stageRows_nonempty (h : StageRows metadata true calls) : calls ≠ [] := by
  cases h with
  | answered h => cases h <;> simp [StageMetadata.rows]

theorem exists_group (h : calls ≠ []) : ∃ group : LogicalCall, group.calls = calls := by
  cases calls with
  | nil => exact absurd rfl h
  | cons call rest => exact ⟨⟨call, rest⟩, rfl⟩

theorem stageRows_last (h : StageRows metadata answered calls) (hlast : call ∈ calls.getLast?) :
    answered ↔ call.callKind ≠ .providerError := by
  cases h with
  | answered h =>
    refine iff_of_true rfl ?_
    cases h with
    | cacheHit id =>
      cases hlast
      simp [StageMetadata.row]
    | response n id =>
      rw [StageMetadata.rows, map_append, map_singleton, getLast?_concat] at hlast
      cases hlast
      simp [StageMetadata.row]
  | failed h =>
    refine iff_of_false (by simp) (not_not.mpr ?_)
    cases h with
    | errors n =>
      cases n with
      | zero => cases hlast
      | succ n =>
        rw [errorCalls_succ, StageMetadata.rows, map_append, map_singleton, getLast?_concat] at hlast
        cases hlast
        rfl

def stageOf (call : QualificationProviderCall) : StageMetadata :=
  ⟨⟨call.phase, call.chunkIndex⟩, call.chunkCount⟩

theorem row_of_valid (hvalid : call.Valid) {kind : BoundaryKind} (hkind : call.callKind = kind)
    {metadata : StageMetadata} (hkey : providerCallLineageKey call = keyOf metadata) :
    call = metadata.row ⟨kind, call.providerAttempt, call.responseId.getD ""⟩ ∧
      (kind = .providerError → call.responseId.getD "" = "") := by
  simp only [providerCallLineageKey, keyOf, LineageKey.mk.injEq] at hkey
  have hid : (if call.responseId.getD "" = "" then none else some (call.responseId.getD "")) =
      call.responseId := by
    cases hid : call.responseId with
    | none => rfl
    | some id =>
      have hne : id ≠ "" := fun heq => hvalid.id (by rw [hid, heq])
      simp [hne]
  refine ⟨?_, fun herror => ?_⟩
  · obtain ⟨callKind, providerAttempt, phase, chunkIndex, chunkCount, responseId⟩ := call
    simp only [StageMetadata.row, QualificationProviderCall.mk.injEq]
    exact ⟨hkind, trivial, hkey.1, hkey.2.1, hkey.2.2, hid.symm⟩
  · rw [hvalid.responseId.mp (hkind.trans herror)]
    rfl

theorem of_checkAttempts {index : Nat} (hne : calls ≠ []) (hvalid : ∀ call ∈ calls, call.Valid)
    (hkeys : ∀ call ∈ calls, providerCallLineageKey call = keyOf metadata)
    (h : checkAttempts index calls = .ok ()) :
    ∃ n, calls = metadata.rows (errorsAfter index n) ∨ ∃ id, calls =
        metadata.rows (errorsAfter index n ++ [⟨.providerResponse, index + n + 1, id⟩]) := by
  induction calls generalizing index with
  | nil => exact absurd rfl hne
  | cons call rest ih =>
    rw [checkAttempts] at h
    split at h
    · cases h
    · rename_i hordered
      split at h
      · cases h
      · rename_i hretried
        rw [not_or, not_not] at hordered
        obtain ⟨hhit, hattempt⟩ := hordered
        have hcall := hvalid call mem_cons_self
        have hkey := hkeys call mem_cons_self
        have herror : call.callKind = .providerError →
            call = metadata.row ⟨.providerError, index + 1, ""⟩ := by
          intro hkind
          obtain ⟨hrow, hid⟩ := row_of_valid hcall hkind hkey
          rw [hid rfl, hattempt] at hrow
          exact hrow
        cases hkind : call.callKind with
        | cacheHit => exact absurd hkind hhit
        | providerError =>
          cases rest with
          | nil =>
            refine ⟨1, .inl ?_⟩
            rw [herror hkind]
            rfl
          | cons next rest =>
            obtain ⟨n, hn⟩ := ih (cons_ne_nil _ _)
              (fun c hc => hvalid c (mem_cons_of_mem _ hc))
              (fun c hc => hkeys c (mem_cons_of_mem _ hc)) h
            refine ⟨n + 1, hn.imp (fun hn => ?_) ?_⟩
            · rw [hn, herror hkind]
              rfl
            · rintro ⟨id, hn⟩
              have hindex : index + (n + 1) + 1 = index + 1 + n + 1 := by omega
              refine ⟨id, ?_⟩
              rw [hn, herror hkind, hindex]
              rfl
        | providerResponse =>
          have hlast : rest = [] := by
            by_contra hmore
            exact hretried ⟨hmore, by rw [hkind]; simp⟩
          subst hlast
          obtain ⟨hrow, -⟩ := row_of_valid hcall hkind hkey
          rw [hattempt] at hrow
          exact ⟨0, .inr ⟨_, by rw [hrow]; rfl⟩⟩

theorem stageRows_of_check (hvalid : ∀ call ∈ group.calls, call.Valid)
    (hkeys : ∀ call ∈ group.calls, providerCallLineageKey call = keyOf metadata)
    (h : checkGroup group = .ok ()) : ∃ answered, StageRows metadata answered group.calls := by
  unfold checkGroup at h
  split at h
  · rename_i hhit
    split at h
    · cases h
    · rename_i hrest
      have hrest : group.rest = [] := not_not.mp hrest
      have hfirst := hvalid group.first mem_cons_self
      obtain ⟨hrow, -⟩ := row_of_valid hfirst hhit (hkeys group.first mem_cons_self)
      rw [hfirst.providerAttempt.mp hhit] at hrow
      refine ⟨true, ?_⟩
      rw [LogicalCall.calls, hrest, hrow]
      exact .answered (.cacheHit _)
  · have hne : group.calls ≠ [] := cons_ne_nil _ _
    obtain ⟨n, hn⟩ := of_checkAttempts hne hvalid hkeys h
    rcases hn with hn | ⟨id, hn⟩
    · refine ⟨false, ?_⟩
      rw [hn, ← errorCalls_eq]
      exact .failed (.errors n)
    · refine ⟨true, ?_⟩
      rw [hn, ← errorCalls_eq, Nat.zero_add]
      exact .answered (.response n id)

inductive Numbered (chunkCount : Nat) : Nat → Bool → List LogicalCall → Prop where
  | done {index : Nat} (hindex : index ≤ chunkCount) : Numbered chunkCount index true []
  | failed {index : Nat} {group : LogicalCall} (hindex : index < chunkCount)
      (h : StageRows (analysisStage chunkCount index) false group.calls) :
      Numbered chunkCount index false [group]
  | next {index : Nat} {answered : Bool} {group : LogicalCall} {groups : List LogicalCall}
      (hindex : index < chunkCount)
      (h : StageRows (analysisStage chunkCount index) true group.calls)
      (hrest : Numbered chunkCount (index + 1) answered groups) :
      Numbered chunkCount index answered (group :: groups)

variable {chunkCount index : Nat} {groups : List LogicalCall}

theorem numbered_of_analyses (h : Analyses StageRows chunkCount index answered calls) : ∃ groups last,
      groups.flatMap LogicalCall.calls = calls ∧ Numbered chunkCount index last groups ∧
      (answered → last = true ∧ index + groups.length = chunkCount) := by
  induction h with
  | done => exact ⟨[], true, rfl, .done (Nat.le_refl _), fun _ => ⟨rfl, rfl⟩⟩
  | @failed index calls hindex h =>
    by_cases hne : calls = []
    · exact ⟨[], true, hne.symm, .done hindex.le, nofun⟩
    · obtain ⟨group, rfl⟩ := exists_group hne
      exact ⟨[group], false, flatMap_singleton _ _, .failed hindex h, nofun⟩
  | @next index answered calls rest hindex h _ ih =>
    obtain ⟨groups, last, rfl, hnumbered, hall⟩ := ih
    obtain ⟨group, rfl⟩ := exists_group (stageRows_nonempty h)
    refine ⟨group :: groups, last, flatMap_cons, .next hindex h hnumbered, fun htrue => ?_⟩
    obtain ⟨hlast, hlength⟩ := hall htrue
    refine ⟨hlast, ?_⟩
    rw [length_cons]
    omega

theorem analyses_of_numbered (h : Numbered chunkCount index answered groups)
    (hstops : answered → index + groups.length < chunkCount) :
    Analyses StageRows chunkCount index false (groups.flatMap LogicalCall.calls) := by
  induction h with
  | done _ => exact .failed (hstops rfl) (.failed (.errors 0))
  | failed hindex h =>
    rw [flatMap_singleton]
    exact .failed hindex h
  | next hindex h _ ih =>
    rw [flatMap_cons]
    refine .next hindex h (ih fun htrue => ?_)
    have hlt := hstops htrue
    rw [length_cons] at hlt
    omega

theorem analyses_of_all (h : Numbered chunkCount index answered groups) (htrue : answered)
    (hall : index + groups.length = chunkCount) :
    Analyses StageRows chunkCount index true (groups.flatMap LogicalCall.calls) := by
  induction h with
  | done _ =>
    obtain rfl := hall
    exact .done
  | failed _ _ => cases htrue
  | next hindex h _ ih =>
    rw [flatMap_cons]
    rw [length_cons] at hall
    exact .next hindex h (ih htrue (by omega))

namespace Numbered

theorem stage (h : Numbered chunkCount index answered groups) (hgroup : group ∈ groups) :
    ∃ i last, index ≤ i ∧ i < chunkCount ∧ StageRows (analysisStage chunkCount i) last group.calls := by
  induction h with
  | done _ => cases hgroup
  | @failed index other hindex hstage =>
    obtain rfl := mem_singleton.mp hgroup
    exact ⟨index, false, Nat.le_refl _, hindex, hstage⟩
  | @next index answered other groups hindex hstage _ ih =>
    rcases mem_cons.mp hgroup with rfl | hrest
    · exact ⟨index, true, Nat.le_refl _, hindex, hstage⟩
    · obtain ⟨i, last, hle, hlt, hstage⟩ := ih hrest
      exact ⟨i, last, by omega, hlt, hstage⟩

theorem length_le (h : Numbered chunkCount index answered groups) : index + groups.length ≤ chunkCount := by
  induction h with
  | done hindex | failed hindex _ => exact hindex
  | next _ _ _ ih =>
    rw [length_cons]
    omega

theorem key_first (hstage : StageRows (analysisStage chunkCount index) answered group.calls) :
    providerCallLineageKey group.first = ⟨"analysis", some (index : Int), chunkCount⟩ :=
  stageRows_first hstage

theorem distinct (h : Numbered chunkCount index answered groups) :
    (groups.map fun group => providerCallLineageKey group.first).Nodup := by
  induction h with
  | done _ => exact nodup_nil
  | failed _ _ => exact nodup_singleton _
  | @next index answered group groups hindex hstage hrest ih =>
    rw [map_cons, nodup_cons]
    refine ⟨fun hmem => ?_, ih⟩
    obtain ⟨other, hother, heq⟩ := List.mem_map.mp hmem
    obtain ⟨i, last, hle, -, hstage'⟩ := hrest.stage hother
    rw [key_first hstage, key_first hstage', LineageKey.mk.injEq] at heq
    have hindex' := some.inj heq.2.1
    omega

theorem uniform (h : Numbered chunkCount index answered groups) (hgroup : group ∈ groups)
    (hcall : call ∈ group.calls) :
    providerCallLineageKey call = providerCallLineageKey group.first := by
  obtain ⟨i, last, -, -, hstage⟩ := h.stage hgroup
  rw [stageRows_key hstage hcall, stageRows_first hstage]

theorem first_eq (h : Numbered chunkCount index answered groups) (hgroup : group ∈ groups) :
    group.first.phase = "analysis" ∧ group.first.chunkCount = chunkCount ∧
      ∃ i : Nat, index ≤ i ∧ group.first.chunkIndex = some (i : Int) := by
  obtain ⟨i, last, hle, -, hstage⟩ := h.stage hgroup
  have hkey := key_first hstage
  rw [providerCallLineageKey, LineageKey.mk.injEq] at hkey
  exact ⟨hkey.1, hkey.2.2, i, hle, hkey.2.1⟩

theorem grouped (h : Numbered chunkCount index answered groups) (hmany : 2 ≤ chunkCount) :
    Grouped (groups.flatMap LogicalCall.calls) groups := by
  refine ⟨rfl, fun group hgroup call hcall => h.uniform hgroup hcall, h.distinct,
    fun group hgroup => ?_⟩
  obtain ⟨hphase, hcount, i, -, hindex⟩ := h.first_eq hgroup
  have hnot : ¬(group.first.chunkIndex = none ∨ group.first.chunkCount < 2) := by
    rw [hindex, hcount]
    simp only [reduceCtorEq, false_or, not_lt]
    exact hmany
  rw [checkChunk, if_pos hphase, if_neg hnot]

theorem check (h : Numbered chunkCount index answered groups) (hgroup : group ∈ groups) :
    checkGroup group = .ok () := by
  obtain ⟨i, last, -, -, hstage⟩ := h.stage hgroup
  exact stageRows_check hstage

theorem not_terminal (h : Numbered chunkCount index answered groups) :
    groups.filter LogicalCall.terminal = [] := by
  refine filter_eq_nil_iff.mpr fun group hgroup => ?_
  simp [LogicalCall.terminal, (h.first_eq hgroup).1]

theorem zipIdx (h : Numbered chunkCount index answered groups) :
    (groups.zipIdx index).all (fun (group, i) =>
      group.first.phase = "analysis" && group.first.chunkCount = chunkCount &&
        group.first.chunkIndex = some (i : Int)) = true := by
  induction h with
  | done _ => rfl
  | @failed index group _ hstage =>
    have hkey := key_first hstage
    rw [providerCallLineageKey, LineageKey.mk.injEq] at hkey
    simp [hkey.1, hkey.2.1, hkey.2.2]
  | @next index answered group groups _ hstage _ ih =>
    have hkey := key_first hstage
    rw [providerCallLineageKey, LineageKey.mk.injEq] at hkey
    rw [zipIdx_cons, all_cons, ih]
    simp [hkey.1, hkey.2.1, hkey.2.2]

theorem covers (h : Numbered chunkCount 0 answered groups) (hall : groups.length = chunkCount) :
    coversChunks chunkCount groups := by
  have hzip := h.zipIdx
  rw [coversChunks, Bool.and_eq_true]
  exact ⟨by simpa using hall, hzip⟩

end Numbered

end Qualification

end Aegis
