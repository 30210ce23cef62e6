import Aegis.Qualification.Stages

/-!
# Qualification.Acceptance

Which runs `validateProviderCallLineage` accepts. A generation of a single chunk is refused as soon
as a call of it is captured.
-/

namespace Aegis

open List Option

namespace Qualification

open Llm

variable {metadata : StageMetadata} {answered : Bool} {calls : List QualificationProviderCall}
  {group : LogicalCall} {call : QualificationProviderCall} {chunkCount index : Nat}
  {groups : List LogicalCall}

/-! ## What is accepted -/

variable {outcome : Outcome} {terminal : Option LogicalCall} {returned : Bool}

def Outcome.of (returned : Bool) : Outcome := if returned then .succeeded else .failed

theorem forM_checkGroup :
    groups.forM checkGroup = .ok () ↔ ∀ group ∈ groups, checkGroup group = .ok () := by
  induction groups with
  | nil => simp [pure, Except.pure]
  | cons group groups ih =>
    rw [forall_mem_cons, ← ih]
    change (checkGroup group >>= fun _ => groups.forM checkGroup) = _ ↔ _
    cases checkGroup group with
    | ok _ => exact (and_iff_right rfl).symm
    | error e =>
      refine iff_of_false ?_ (fun h => ?_)
      · intro h
        cases h
      · cases h.1

theorem accepts_iff : Accepts calls outcome ↔ ∃ groups terminal, Grouped calls groups ∧
    (∀ group ∈ groups, checkGroup group = .ok ()) ∧ checkTerminal groups = .ok terminal ∧
    (outcome = .succeeded → terminal ≠ none ∧ ∃ last ∈ calls.getLast?,
      last.callKind = .providerResponse ∨ last.callKind = .cacheHit) ∧
    (responseIds calls).Nodup := by
  unfold Accepts validateProviderCallLineage
  constructor
  · intro h
    cases hgroups : groupCalls calls with
    | error e =>
      rw [hgroups] at h
      cases h
    | ok groups =>
      rw [hgroups] at h
      change (groups.forM checkGroup >>= _) = _ at h
      cases hcheck : groups.forM checkGroup with
      | error e =>
        rw [hcheck] at h
        cases h
      | ok _ =>
        rw [hcheck] at h
        change (checkTerminal groups >>= _) = _ at h
        cases hterminal : checkTerminal groups with
        | error e =>
          rw [hterminal] at h
          cases h
        | ok terminal =>
          rw [hterminal] at h
          change (if _ then _ else _) = _ at h
          split at h
          · cases h
          · rename_i hdone
            split at h
            · cases h
            · rename_i hids
              refine ⟨groups, terminal, groupCalls_eq_ok_iff.mp hgroups, forM_checkGroup.mp hcheck,
                hterminal, fun hsucceeded => ?_, not_not.mp hids⟩
              rw [not_and, not_or] at hdone
              obtain ⟨hsome, hlast⟩ := hdone hsucceeded
              push Not at hlast
              obtain ⟨last, hmem, hlast⟩ := hlast
              refine ⟨hsome, last, hmem, ?_⟩
              by_cases hresponse : last.callKind = .providerResponse
              · exact .inl hresponse
              · exact .inr (hlast hresponse)
  · rintro ⟨groups, terminal, hgrouped, hcheck, hterminal, hdone, hids⟩
    rw [groupCalls_eq_ok_iff.mpr hgrouped]
    change (groups.forM checkGroup >>= _) = _
    rw [forM_checkGroup.mpr hcheck]
    change (checkTerminal groups >>= _) = _
    rw [hterminal]
    change (if _ then _ else _) = _
    rw [if_neg, if_neg (not_not.mpr hids)]
    rintro ⟨hsucceeded, hnot⟩
    obtain ⟨hsome, last, hmem, hlast⟩ := hdone hsucceeded
    rcases hnot with hnone | hnot
    · exact hsome hnone
    · rcases hlast with hlast | hlast
      · exact (hnot last hmem).1 hlast
      · exact (hnot last hmem).2 hlast

theorem completed_last (h : StageRows metadata true calls) :
    ∃ last ∈ calls.getLast?, last.callKind = .providerResponse ∨ last.callKind = .cacheHit := by
  have hne := stageRows_nonempty h
  refine ⟨calls.getLast hne, getLast?_eq_getLast_of_ne_nil hne, ?_⟩
  have hnot := (stageRows_last h (getLast?_eq_getLast_of_ne_nil hne)).mp rfl
  cases hkind : (calls.getLast hne).callKind with
  | providerResponse => exact .inl rfl
  | providerError => exact absurd hkind hnot
  | cacheHit => exact .inr rfl

theorem checkTerminal_none (h : groups.filter LogicalCall.terminal = []) :
    checkTerminal groups = .ok none := by
  simp [checkTerminal, h]

theorem accepts_nil : Accepts [] .failed := by decide

theorem accepts_final (h : StageRows (finalStage 0) answered calls)
    (hreturned : returned → answered = true) (hids : (responseIds calls).Nodup) :
    Accepts calls (Outcome.of returned) := by
  by_cases hne : calls = []
  · subst hne
    cases returned with
    | false => exact accepts_nil
    | true => exact absurd rfl (stageRows_nonempty (hreturned rfl ▸ h))
  · obtain ⟨group, rfl⟩ := exists_group hne
    have hkey := stageRows_first h
    rw [providerCallLineageKey, keyOf, LineageKey.mk.injEq] at hkey
    have hphase : group.first.phase = "final" := hkey.1
    have hindex : group.first.chunkIndex = none := hkey.2.1
    have hcount : group.first.chunkCount = 0 := hkey.2.2
    refine accepts_iff.mpr ⟨[group], some group, ⟨?_, ?_, ?_, ?_⟩, ?_, ?_, ?_, hids⟩
    · exact flatMap_singleton _ _
    · intro other hother call hcall
      obtain rfl := mem_singleton.mp hother
      rw [stageRows_key h hcall, stageRows_first h]
    · exact nodup_singleton _
    · intro other hother
      obtain rfl := mem_singleton.mp hother
      simp [checkChunk, hphase, hindex, hcount]
    · intro other hother
      obtain rfl := mem_singleton.mp hother
      exact stageRows_check h
    · simp [checkTerminal, LogicalCall.terminal, hphase]
    · intro hsucceeded
      have htrue : returned := by
        cases returned with
        | false => cases hsucceeded
        | true => rfl
      exact ⟨some_ne_none _, completed_last (hreturned htrue ▸ h)⟩

theorem accepts_numbered (h : Numbered chunkCount 0 answered groups) (hmany : 2 ≤ chunkCount)
    (hids : (responseIds (groups.flatMap LogicalCall.calls)).Nodup) :
    Accepts (groups.flatMap LogicalCall.calls) .failed :=
  accepts_iff.mpr ⟨groups, none, h.grouped hmany, fun _ => h.check,
    checkTerminal_none h.not_terminal, fun hsucceeded => absurd hsucceeded (by decide), hids⟩

theorem accepts_synthesis (h : Numbered chunkCount 0 true groups)
    (hall : groups.length = chunkCount) (hmany : 2 ≤ chunkCount)
    (hgroup : StageRows (synthesisStage chunkCount) answered group.calls)
    (hreturned : returned → answered = true)
    (hids : (responseIds (groups.flatMap LogicalCall.calls ++ group.calls)).Nodup) :
    Accepts (groups.flatMap LogicalCall.calls ++ group.calls) (Outcome.of returned) := by
  have hkey := stageRows_first hgroup
  rw [providerCallLineageKey, keyOf, LineageKey.mk.injEq] at hkey
  have hphase : group.first.phase = "synthesis" := hkey.1
  have hindex : group.first.chunkIndex = none := hkey.2.1
  have hcount : group.first.chunkCount = chunkCount := hkey.2.2
  obtain ⟨-, huniform, hdistinct, hchunks⟩ := h.grouped hmany
  refine accepts_iff.mpr ⟨groups ++ [group], some group, ⟨?_, ?_, ?_, ?_⟩, ?_, ?_, ?_, hids⟩
  · simp
  · intro other hother call hcall
    rcases mem_append.mp hother with hother | hother
    · exact huniform other hother call hcall
    · obtain rfl := mem_singleton.mp hother
      rw [stageRows_key hgroup hcall, stageRows_first hgroup]
  · rw [map_append, map_singleton, nodup_append]
    refine ⟨hdistinct, nodup_singleton _, ?_⟩
    intro key hkey key' hkey' heq
    obtain ⟨other, hother, rfl⟩ := List.mem_map.mp hkey
    rw [mem_singleton.mp hkey', providerCallLineageKey, providerCallLineageKey,
      LineageKey.mk.injEq, (h.first_eq hother).1, hphase] at heq
    exact absurd heq.1 (by decide)
  · intro other hother
    rcases mem_append.mp hother with hother | hother
    · exact hchunks other hother
    · obtain rfl := mem_singleton.mp hother
      have hmany' : ¬chunkCount < 2 := by omega
      simp [checkChunk, hphase, hindex, hcount, hmany']
  · intro other hother
    rcases mem_append.mp hother with hother | hother
    · exact h.check hother
    · obtain rfl := mem_singleton.mp hother
      exact stageRows_check hgroup
  · have hterminal : group.terminal := by simp [LogicalCall.terminal, hphase]
    have hfilter : (groups ++ [group]).filter LogicalCall.terminal = [group] := by
      rw [filter_append, h.not_terminal]
      simp [hterminal]
    have hcovers : coversChunks chunkCount groups := h.covers hall
    simp [checkTerminal, hfilter, hphase, hcount, hcovers]
  · intro hsucceeded
    have htrue : returned := by
      cases returned with
      | false => cases hsucceeded
      | true => rfl
    obtain ⟨last, hlast, hkind⟩ := completed_last (hreturned htrue ▸ hgroup)
    refine ⟨some_ne_none _, last, ?_, hkind⟩
    rw [getLast?_append, hlast]
    rfl

theorem checkChunk_of_accepts (h : Accepts calls outcome) (hcall : call ∈ calls) :
    checkChunk call = .ok () := by
  obtain ⟨groups, -, hgrouped, -⟩ := accepts_iff.mp h
  rw [← hgrouped.calls] at hcall
  obtain ⟨group, hgroup, hcall⟩ := mem_flatMap.mp hcall
  rw [checkChunk_congr (hgrouped.uniform group hgroup call hcall)]
  exact hgrouped.chunks group hgroup

def Chunked : Plan → Prop
  | .repair => True
  | .generate chunks => ∃ contents, chunks = some (contents, false) ∧ 2 ≤ contents.length

theorem refused_of_key (hcall : call ∈ calls) (hkey : providerCallLineageKey call = keyOf metadata)
    (hrefused : (metadata.phase = "final" ∧ metadata.chunkCount = 1 ∧ metadata.chunkIndex = none) ∨
      (metadata.phase = "analysis" ∨ metadata.phase = "synthesis") ∧ metadata.chunkCount < 2) :
    ¬Accepts calls outcome := by
  intro h
  have hcheck := checkChunk_of_accepts h hcall
  rw [providerCallLineageKey, keyOf, LineageKey.mk.injEq] at hkey
  obtain ⟨hphase, hindex, hcount⟩ := hkey
  rcases hrefused with ⟨hfinal, hone, hnone⟩ | ⟨hphase' | hphase', hfew⟩
  · simp [checkChunk, hphase, hindex, hcount, hfinal, hone, hnone] at hcheck
  all_goals simp [checkChunk, hphase, hcount, hphase', hfew] at hcheck

theorem refused_analyses (h : Analyses StageRows chunkCount index answered calls) (hcall : call ∈ calls) :
    ∃ i, providerCallLineageKey call = keyOf (analysisStage chunkCount i) := by
  induction h with
  | done => cases hcall
  | failed _ hstage => exact ⟨_, stageRows_key hstage hcall⟩
  | next _ hstage _ ih =>
    rcases mem_append.mp hcall with hcall | hcall
    · exact ⟨_, stageRows_key hstage hcall⟩
    · exact ih hcall

/-- The history of a run is accepted exactly when it is empty or the run goes by chunks. -/
theorem run_accepted {plan : Plan} (h : Runs StageRows plan returned calls)
    (hids : (responseIds calls).Nodup) :
    Accepts calls (Outcome.of returned) ↔ calls = [] ∨ Chunked plan := by
  cases h with
  | refused => exact iff_of_true accepts_nil (.inl rfl)
  | repair h isRule =>
    refine iff_of_true (accepts_final h (fun hreturned => ?_) hids) (.inr trivial)
    exact (Bool.and_eq_true_iff.mp hreturned).1
  | @whole contents answered _ h isRule =>
    have hnot : ¬Chunked (.generate (some (contents, true))) := by
      rintro ⟨_, heq, -⟩
      cases heq
    rw [or_iff_left hnot]
    constructor
    · intro haccepts
      by_contra hne
      obtain ⟨call, hcall⟩ := exists_mem_of_ne_nil _ hne
      exact refused_of_key hcall (stageRows_key h hcall) (.inl ⟨rfl, rfl, rfl⟩) haccepts
    · rintro rfl
      cases answered with
      | false => exact accepts_nil
      | true => exact absurd rfl (stageRows_nonempty h)
  | @analyses contents _ h =>
    by_cases hmany : 2 ≤ contents.length
    · refine iff_of_true ?_ (.inr ⟨_, rfl, hmany⟩)
      obtain ⟨groups, last, rfl, hnumbered, -⟩ := numbered_of_analyses h
      exact accepts_numbered hnumbered hmany hids
    · have hnot : ¬Chunked (.generate (some (contents, false))) := by
        rintro ⟨_, ⟨⟩, hmany'⟩
        exact hmany hmany'
      rw [or_iff_left hnot]
      constructor
      · intro haccepts
        by_contra hne
        obtain ⟨call, hcall⟩ := exists_mem_of_ne_nil _ hne
        obtain ⟨i, hkey⟩ := refused_analyses h hcall
        have hfew : contents.length < 2 := by omega
        exact refused_of_key hcall hkey (.inr ⟨.inl rfl, hfew⟩) haccepts
      · rintro rfl
        exact accepts_nil
  | @synthesis contents answered calls rest h hrest isRule =>
    by_cases hmany : 2 ≤ contents.length
    · refine iff_of_true ?_ (.inr ⟨_, rfl, hmany⟩)
      obtain ⟨groups, last, rfl, hnumbered, hall⟩ := numbered_of_analyses h
      obtain ⟨rfl, hlength⟩ := hall rfl
      rw [Nat.zero_add] at hlength
      by_cases hne : rest = []
      · subst hne
        rw [append_nil] at hids ⊢
        cases answered with
        | false => exact accepts_numbered hnumbered hmany hids
        | true => exact absurd rfl (stageRows_nonempty hrest)
      · obtain ⟨group, rfl⟩ := exists_group hne
        exact accepts_synthesis hnumbered hlength hmany hrest
          (fun hreturned => (Bool.and_eq_true_iff.mp hreturned).1) hids
    · have hnot : ¬Chunked (.generate (some (contents, false))) := by
        rintro ⟨_, ⟨⟩, hmany'⟩
        exact hmany hmany'
      rw [or_iff_left hnot]
      constructor
      · intro haccepts
        by_contra hne
        obtain ⟨call, hcall⟩ := exists_mem_of_ne_nil _ hne
        rcases mem_append.mp hcall with hcall' | hcall'
        · obtain ⟨i, hkey⟩ := refused_analyses h hcall'
          exact refused_of_key hcall hkey (.inr ⟨.inl rfl, by show contents.length < 2; omega⟩)
            haccepts
        · exact refused_of_key hcall (stageRows_key hrest hcall')
            (.inr ⟨.inr rfl, by show contents.length < 2; omega⟩) haccepts
      · intro hnil
        obtain ⟨rfl, rfl⟩ := append_eq_nil_iff.mp hnil
        cases answered with
        | false => exact accepts_nil
        | true => exact absurd rfl (stageRows_nonempty hrest)

end Qualification

end Aegis
