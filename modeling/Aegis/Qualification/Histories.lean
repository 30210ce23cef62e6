import Aegis.Qualification.Acceptance

/-!
# Qualification.Histories

The histories that `validateProviderCallLineage` accepts, against the runs of `Generate` and
`Repair` that leave them. Some lists are accepted that no run leaves.
-/

namespace Aegis

open List Admission

namespace Qualification

open Llm

variable {metadata : StageMetadata} {answered : Bool} {calls : List QualificationProviderCall}
  {group : LogicalCall} {call : QualificationProviderCall} {chunkCount index : Nat}
  {groups : List LogicalCall} {outcome : Outcome} {terminal : Option LogicalCall}

/-- Where another logical call begins, the one before has been answered; and after an analysis comes
that of the next chunk. -/
def Continues (call next : QualificationProviderCall) : Prop :=
  providerCallLineageKey call ≠ providerCallLineageKey next →
    call.callKind ≠ .providerError ∧ (next.phase = "analysis" →
      next.chunkCount = call.chunkCount ∧ next.chunkIndex = call.chunkIndex.map (· + 1))

/-- No final call is of a chunk, the analyses begin with the first chunk, and go on in order as long
as they are answered. -/
structure InOrder (calls : List QualificationProviderCall) : Prop where
  single : ∀ call ∈ calls, call.phase = "final" → call.chunkIndex = none
  begins : ∀ call ∈ calls.head?, call.phase = "analysis" → call.chunkIndex = some 0
  continues : calls.IsChain Continues

theorem isChain_of_key {key : LineageKey}
    (h : ∀ call ∈ calls, providerCallLineageKey call = key) : calls.IsChain Continues := by
  have hpairwise : calls.Pairwise Continues := by
    refine pairwise_of_forall_mem_list fun call hcall next hnext hne => ?_
    exact absurd ((h call hcall).trans (h next hnext).symm) hne
  exact hpairwise.isChain

theorem isChain_calls (huniform : ∀ group ∈ groups, ∀ call ∈ group.calls,
      providerCallLineageKey call = providerCallLineageKey group.first) :
    (groups.flatMap LogicalCall.calls).IsChain Continues ↔ groups.IsChain fun group next =>
      ∀ call ∈ group.calls.getLast?, Continues call next.first := by
  have hne : [] ∉ groups.map LogicalCall.calls := by
    intro hmem
    obtain ⟨group, -, hempty⟩ := mem_map.mp hmem
    exact cons_ne_nil _ _ hempty
  rw [flatMap_def, isChain_flatten hne, isChain_map]
  have hinside : ∀ l ∈ groups.map LogicalCall.calls, l.IsChain Continues := by
    intro l hl
    obtain ⟨group, hgroup, rfl⟩ := mem_map.mp hl
    exact isChain_of_key (huniform group hgroup)
  rw [and_iff_right hinside]
  refine Iff.of_eq (congrArg (fun R => groups.IsChain R) ?_)
  funext group next
  refine propext ⟨fun h call hcall => h call hcall next.first rfl, ?_⟩
  rintro h call hcall _ ⟨⟩
  exact h call hcall

namespace Numbered

theorem head (h : Numbered chunkCount index answered groups) (hgroup : group ∈ groups.head?) :
    ∃ last, StageRows (analysisStage chunkCount index) last group.calls := by
  cases h with
  | done _ => cases hgroup
  | failed _ hstage | next _ hstage _ =>
    cases hgroup
    exact ⟨_, hstage⟩

theorem continues_next (hstage : StageRows (analysisStage chunkCount index) true group.calls)
    {next : LogicalCall}
    (hnext : StageRows (analysisStage chunkCount (index + 1)) answered next.calls)
    (hcall : call ∈ group.calls.getLast?) : Continues call next.first := by
  have hkey := stageRows_key hstage (mem_of_getLast? hcall)
  have hkey' := stageRows_first hnext
  rw [providerCallLineageKey, keyOf, LineageKey.mk.injEq] at hkey hkey'
  refine fun _ => ⟨(stageRows_last hstage hcall).mp rfl, fun _ => ⟨?_, ?_⟩⟩
  · rw [hkey.2.2, hkey'.2.2]
    rfl
  · rw [hkey.2.1, hkey'.2.1]
    simp [analysisStage]

theorem isChain (h : Numbered chunkCount index answered groups) :
    groups.IsChain fun group next => ∀ call ∈ group.calls.getLast?, Continues call next.first := by
  induction h with
  | done _ => exact .nil
  | failed _ _ => exact .singleton _
  | @next index answered group groups _ hstage hrest ih =>
    rw [isChain_cons]
    refine ⟨fun next hnext call hcall => ?_, ih⟩
    obtain ⟨last, hstage'⟩ := hrest.head hnext
    exact continues_next hstage hstage' hcall

theorem answered_of_true (h : Numbered chunkCount index answered groups) (htrue : answered)
    (hgroup : group ∈ groups) : ∃ i, StageRows (analysisStage chunkCount i) true group.calls := by
  induction h with
  | done _ => cases hgroup
  | failed _ _ => cases htrue
  | next _ hstage _ ih =>
    rcases mem_cons.mp hgroup with rfl | hrest
    · exact ⟨_, hstage⟩
    · exact ih htrue hrest

theorem inOrder (h : Numbered chunkCount 0 answered groups) :
    InOrder (groups.flatMap LogicalCall.calls) := by
  refine ⟨fun call hcall hfinal => ?_, fun call hcall _ => ?_,
    (isChain_calls fun group hgroup call hcall => h.uniform hgroup hcall).mpr h.isChain⟩
  · obtain ⟨group, hgroup, hcall⟩ := mem_flatMap.mp hcall
    obtain ⟨i, last, -, -, hstage⟩ := h.stage hgroup
    have hkey := stageRows_key hstage hcall
    rw [providerCallLineageKey, keyOf, LineageKey.mk.injEq, hfinal] at hkey
    have hne : "final" ≠ "analysis" := by decide
    exact absurd hkey.1 hne
  · cases groups with
    | nil => cases hcall
    | cons group groups =>
      cases hcall
      obtain ⟨last, hstage⟩ := h.head rfl
      have hkey := stageRows_first hstage
      rw [providerCallLineageKey, keyOf, LineageKey.mk.injEq] at hkey
      exact hkey.2.1

end Numbered

theorem inOrder_synthesis (h : Numbered chunkCount 0 true groups)
    (hgroup : StageRows (synthesisStage chunkCount) answered group.calls) (hne : groups ≠ []) :
    InOrder (groups.flatMap LogicalCall.calls ++ group.calls) := by
  obtain ⟨hsingle, hbegins, hcontinues⟩ := h.inOrder
  have hphase : ∀ call ∈ group.calls, call.phase = "synthesis" := by
    intro call hcall
    have hkey := stageRows_key hgroup hcall
    rw [providerCallLineageKey, keyOf, LineageKey.mk.injEq] at hkey
    exact hkey.1
  refine ⟨fun call hcall hfinal => ?_, fun call hcall => ?_, ?_⟩
  · rcases mem_append.mp hcall with hcall | hcall
    · exact hsingle call hcall hfinal
    · rw [hphase call hcall] at hfinal
      exact absurd hfinal (by decide)
  · have hcalls : groups.flatMap LogicalCall.calls ≠ [] := by
      cases groups with
      | nil => exact absurd rfl hne
      | cons first rest => simp [LogicalCall.calls]
    rw [head?_append_of_ne_nil _ hcalls] at hcall
    exact hbegins call hcall
  · refine isChain_append.mpr ⟨hcontinues, isChain_of_key fun call => stageRows_key hgroup, ?_⟩
    intro call hcall next hnext _
    have hmem := mem_of_getLast? hcall
    refine ⟨?_, fun hanalysis => ?_⟩
    · -- the last analysis is answered, and its last call is the last of all
      have hlast : ∃ other ∈ groups, call ∈ other.calls.getLast? := by
        have hsplit : groups.dropLast ++ [groups.getLast hne] = groups :=
          dropLast_append_getLast hne
        have hcalls : (groups.getLast hne).calls ≠ [] := cons_ne_nil _ _
        refine ⟨groups.getLast hne, getLast_mem hne, ?_⟩
        rw [← hsplit, flatMap_append, flatMap_singleton, getLast?_append_of_ne_nil _ hcalls] at hcall
        exact hcall
      obtain ⟨other, hother, hcall⟩ := hlast
      obtain ⟨i, hstage⟩ := h.answered_of_true rfl hother
      exact (stageRows_last hstage hcall).mp rfl
    · rw [hphase next (mem_of_head? hnext)] at hanalysis
      exact absurd hanalysis (by decide)

theorem run_inOrder {plan : Plan} {returned : Bool} (h : Runs StageRows plan returned calls)
    (haccepts : calls = [] ∨ Chunked plan) : InOrder calls := by
  have hnil : InOrder [] := ⟨nofun, nofun, .nil⟩
  rcases haccepts with rfl | hchunked
  · exact hnil
  · cases h with
    | refused => exact hnil
    | repair h isRule =>
      have hkey : ∀ call ∈ calls, call.phase = "final" ∧ call.chunkIndex = none := by
        intro call hcall
        have hkey := stageRows_key h hcall
        rw [providerCallLineageKey, keyOf, LineageKey.mk.injEq] at hkey
        exact ⟨hkey.1, hkey.2.1⟩
      refine ⟨fun call hcall _ => (hkey call hcall).2, fun call hcall hphase => ?_,
        isChain_of_key fun call => stageRows_key h⟩
      rw [(hkey call (mem_of_head? hcall)).1] at hphase
      exact absurd hphase (by decide)
    | whole h isRule =>
      obtain ⟨_, heq, -⟩ := hchunked
      cases heq
    | analyses h =>
      obtain ⟨groups, last, rfl, hnumbered, -⟩ := numbered_of_analyses h
      exact hnumbered.inOrder
    | @synthesis contents answered calls rest h hrest isRule =>
      obtain ⟨_, ⟨⟩, hmany⟩ := hchunked
      obtain ⟨groups, last, rfl, hnumbered, hall⟩ := numbered_of_analyses h
      obtain ⟨rfl, hlength⟩ := hall rfl
      by_cases hempty : rest = []
      · subst hempty
        rw [append_nil]
        exact hnumbered.inOrder
      · obtain ⟨group, rfl⟩ := exists_group hempty
        refine inOrder_synthesis hnumbered hrest ?_
        rintro rfl
        simp at hlength
        omega

/-! ## Runs for what is accepted in order -/

theorem checkTerminal_cases (h : checkTerminal groups = .ok terminal) :
    (terminal = none ∧ ∀ group ∈ groups, group.terminal = false) ∨
      (∃ group, terminal = some group ∧ group.first.phase = "final" ∧ groups = [group]) ∨
      ∃ group analyses, terminal = some group ∧ group.first.phase = "synthesis" ∧
        groups = analyses ++ [group] ∧ coversChunks group.first.chunkCount analyses = true := by
  unfold checkTerminal at h
  dsimp only at h
  split at h
  · cases h
  · rename_i hfew
    rw [not_or, not_and, not_not] at hfew
    cases hfilter : groups.filter LogicalCall.terminal with
    | nil =>
      rw [hfilter] at h
      refine .inl ⟨(Except.ok.inj h).symm, fun group hgroup => ?_⟩
      simpa using filter_eq_nil_iff.mp hfilter group hgroup
    | cons group others =>
      have hothers : others = [] := by
        rw [hfilter, length_cons] at hfew
        exact eq_nil_of_length_eq_zero (by omega)
      subst hothers
      rw [hfilter] at h hfew
      have hlast : groups.getLast? = some group := hfew.2 rfl
      have hterminal : group.terminal := by
        have hmem : group ∈ groups.filter LogicalCall.terminal := by
          rw [hfilter]
          exact mem_singleton_self _
        exact (mem_filter.mp hmem).2
      have hsplit : groups.dropLast ++ [group] = groups :=
        dropLast_append_getLast? group hlast
      change (if _ then _ else if _ then _ else _) = _ at h
      split at h
      · cases h
      · rename_i hsole
        split at h
        · cases h
        · rename_i hcovers
          cases h
          by_cases hfinal : group.first.phase = "final"
          · refine .inr (.inl ⟨group, rfl, hfinal, ?_⟩)
            have hlength : groups.length = 1 := by
              by_contra hne
              exact hsole ⟨hfinal, hne⟩
            rw [← hsplit, length_append, length_singleton] at hlength
            have hempty : groups.dropLast = [] := eq_nil_of_length_eq_zero (by omega)
            rw [hempty, nil_append] at hsplit
            exact hsplit.symm
          · have hsynthesis : group.first.phase = "synthesis" := by
              simpa [LogicalCall.terminal, hfinal] using hterminal
            refine .inr (.inr ⟨group, groups.dropLast, rfl, hsynthesis, hsplit.symm, ?_⟩)
            by_contra hnot
            exact hcovers ⟨hsynthesis, hnot⟩

theorem stageOf_analysis (hphase : call.phase = "analysis") (hcount : call.chunkCount = chunkCount)
    (hindex : call.chunkIndex = some (index : Int)) :
    stageOf call = analysisStage chunkCount index := by
  simp [stageOf, analysisStage, hphase, hcount, hindex]

theorem numbered_of_chain
    (hstages : ∀ group ∈ groups, ∃ answered, StageRows (stageOf group.first) answered group.calls)
    (hanalysis : ∀ group ∈ groups, group.first.phase = "analysis")
    (hchunk : ∀ group ∈ groups, ∀ i ∈ group.first.chunkIndex, i < group.first.chunkCount)
    (hdistinct : (groups.map fun group => providerCallLineageKey group.first).Nodup)
    (hchain : groups.IsChain fun group next =>
      ∀ call ∈ group.calls.getLast?, Continues call next.first)
    (hindex : index ≤ chunkCount)
    (hfirst : ∀ group ∈ groups.head?, group.first.chunkCount = chunkCount ∧
      group.first.chunkIndex = some (index : Int)) :
    ∃ answered, Numbered chunkCount index answered groups := by
  induction groups generalizing index with
  | nil => exact ⟨true, .done hindex⟩
  | cons group groups ih =>
    obtain ⟨hcount, hat⟩ := hfirst group rfl
    obtain ⟨answered, hstage⟩ := hstages group mem_cons_self
    rw [stageOf_analysis (hanalysis group mem_cons_self) hcount hat] at hstage
    have hlt : index < chunkCount := by
      have hlt := hchunk group mem_cons_self _ hat
      rw [hcount] at hlt
      omega
    rw [isChain_cons] at hchain
    rw [map_cons, nodup_cons] at hdistinct
    cases groups with
    | nil =>
      cases answered with
      | false => exact ⟨false, .failed hlt hstage⟩
      | true => exact ⟨true, .next hlt hstage (.done hlt)⟩
    | cons next groups =>
      -- the next analysis says that this one is answered, and is of the next chunk
      have hne : group.calls ≠ [] := cons_ne_nil _ _
      have hlast := getLast?_eq_getLast_of_ne_nil hne
      have hkey := stageRows_key hstage (getLast_mem hne)
      have hcontinues := hchain.1 next rfl _ hlast ?_
      · obtain ⟨hanswered, hnext⟩ := hcontinues
        obtain rfl : answered := (stageRows_last hstage hlast).mpr hanswered
        obtain ⟨hcount', hat'⟩ := hnext (hanalysis next (mem_cons_of_mem _ mem_cons_self))
        rw [providerCallLineageKey, keyOf, LineageKey.mk.injEq] at hkey
        obtain ⟨last, hrest⟩ := ih
          (fun other hother => hstages other (mem_cons_of_mem _ hother))
          (fun other hother => hanalysis other (mem_cons_of_mem _ hother))
          (fun other hother => hchunk other (mem_cons_of_mem _ hother))
          hdistinct.2 hchain.2 hlt
          (by
            rintro _ ⟨⟩
            rw [hcount', hat', hkey.2.1, hkey.2.2]
            simp [analysisStage])
        exact ⟨last, .next hlt hstage hrest⟩
      · rw [hkey, ← stageRows_first hstage]
        intro heq
        exact hdistinct.1 (heq ▸ mem_map_of_mem mem_cons_self)

theorem answered_of_chain {analyses : List LogicalCall}
    (hstages : ∀ other ∈ analyses ++ [group], ∃ answered,
      StageRows (stageOf other.first) answered other.calls)
    (hdistinct : ((analyses ++ [group]).map fun group => providerCallLineageKey group.first).Nodup)
    (hchain : (analyses ++ [group]).IsChain fun group next =>
      ∀ call ∈ group.calls.getLast?, Continues call next.first) {other : LogicalCall}
    (hother : other ∈ analyses) : StageRows (stageOf other.first) true other.calls := by
  induction analyses with
  | nil => cases hother
  | cons analysis analyses ih =>
    rw [cons_append] at hstages hdistinct hchain
    rw [isChain_cons] at hchain
    rw [map_cons, nodup_cons] at hdistinct
    rcases mem_cons.mp hother with rfl | hother
    · obtain ⟨answered, hstage⟩ := hstages other mem_cons_self
      obtain ⟨next, hnext⟩ : ∃ next, next ∈ (analyses ++ [group]).head? := by
        cases analyses with
        | nil => exact ⟨group, rfl⟩
        | cons next _ => exact ⟨next, rfl⟩
      have hne : other.calls ≠ [] := cons_ne_nil _ _
      have hlast := getLast?_eq_getLast_of_ne_nil hne
      have hcontinues := hchain.1 next hnext _ hlast
      have hkeys : providerCallLineageKey (other.calls.getLast hne) ≠
          providerCallLineageKey next.first := by
        rw [stageRows_key hstage (getLast_mem hne), ← stageRows_first hstage]
        intro heq
        exact hdistinct.1 (heq ▸ mem_map_of_mem (mem_of_head? hnext))
      obtain rfl : answered := (stageRows_last hstage hlast).mpr (hcontinues hkeys).1
      exact hstage
    · exact ih (fun other hother => hstages other (mem_cons_of_mem _ hother)) hdistinct.2
        hchain.2 hother

theorem numbered_of_covers (hstages : ∀ group ∈ groups, StageRows (stageOf group.first) true group.calls)
    (hzip : (groups.zipIdx index).all (fun (group, i) =>
      group.first.phase = "analysis" && group.first.chunkCount = chunkCount &&
        group.first.chunkIndex = some (i : Int)) = true)
    (hlength : index + groups.length = chunkCount) : Numbered chunkCount index true groups := by
  induction groups generalizing index with
  | nil => exact .done (by simpa using hlength.le)
  | cons group groups ih =>
    rw [zipIdx_cons, all_cons] at hzip
    simp only [Bool.and_eq_true, decide_eq_true_eq] at hzip
    obtain ⟨⟨⟨hphase, hcount⟩, hat⟩, hrest⟩ := hzip
    rw [length_cons] at hlength
    have hstage := hstages group mem_cons_self
    rw [stageOf_analysis hphase hcount hat] at hstage
    refine .next (by omega) hstage (ih (fun other hother =>
      hstages other (mem_cons_of_mem _ hother)) ?_ (by omega))
    simpa only [Bool.and_eq_true, decide_eq_true_eq] using hrest

/-- The parts that `buildWorkflowChunks` can make of a recording. -/
def Reachable : Plan → Prop
  | .repair => True
  | .generate chunks => ∃ (ι : Type) (recording : Admission.Recording ι) (direct chunk : Int),
      chunks = Admission.buildWorkflowChunks recording direct chunk

/-- Some run of a stage leaves this history. -/
def Left (calls : List QualificationProviderCall) (outcome : Outcome) : Prop :=
  ∃ codec cfg reg plan returned, Registered codec cfg reg ∧ Reachable plan ∧
    outcome = Outcome.of returned ∧ Runs (StageCalls codec cfg reg) plan returned calls

def itemsRecording (n : Nat) : Admission.Recording Nat where
  fullJSON := "recording"
  baseJSON := ""
  items := List.range n
  itemJSON _ := ""
  payload group _ _ := if group.length ≤ 1 then "" else "items"
  trim _ _ := none

theorem groupItems_single {fits : List Nat → Bool} {fitItem : Nat → Nat} (item : Nat)
    (items : List Nat) (hfit : ∀ item, fitItem item = item) (hone : ∀ item, fits [item])
    (htwo : ∀ item item', fits [item, item'] = false) :
    groupItems fits fitItem [item] items = some ((item :: items).map fun item => [item]) := by
  induction items generalizing item with
  | nil => rfl
  | cons next items ih =>
    have htwo' : fits ([item] ++ [next]) = false := htwo item next
    rw [groupItems, hfit, htwo', hone, ih]
    rfl

theorem exists_chunks (n : Nat) : ∃ contents, contents.length = n + 1 ∧
    buildWorkflowChunks (itemsRecording (n + 1)) 0 0 = some (contents, false) := by
  have hitems : (itemsRecording (n + 1)).items = 0 :: (List.range n).map Nat.succ :=
    range_succ_eq_map
  have hfit : ∀ item, (itemsRecording (n + 1)).fitItem 0 item = item := fun item => rfl
  have hgroups : groupItems
      (fun group => decide (bytes ((itemsRecording (n + 1)).payload group
        (itemsRecording (n + 1)).items.length (itemsRecording (n + 1)).items.length) ≤ 0))
      ((itemsRecording (n + 1)).fitItem 0) [] (itemsRecording (n + 1)).items =
        some ((itemsRecording (n + 1)).items.map fun item => [item]) := by
    rw [hitems, groupItems, hfit]
    exact groupItems_single 0 _ hfit (fun _ => rfl) fun _ _ => rfl
  have hlong : ¬bytes "recording" ≤ 0 := by decide
  have hfull : ¬bytes (itemsRecording (n + 1)).fullJSON ≤ 0 := hlong
  have hsome : (itemsRecording (n + 1)).items.isEmpty = false := by
    rw [hitems]
    rfl
  let groups := (itemsRecording (n + 1)).items.map fun item => [item]
  let contents := groups.zipIdx.map fun p =>
    (itemsRecording (n + 1)).payload p.1 (p.2 + 1) groups.length
  have hlength : contents.length = n + 1 := by simp [contents, groups, itemsRecording]
  have hfits : ¬contents.any (fun content => decide (0 < bytes content)) = true := by
    rw [Bool.not_eq_true, List.any_eq_false]
    intro content hcontent
    obtain ⟨⟨group, i⟩, hgroup, rfl⟩ := mem_map.mp hcontent
    obtain ⟨item, -, rfl⟩ := mem_map.mp (fst_mem_of_mem_zipIdx hgroup)
    have hshort : ¬decide (0 < bytes "") = true := by decide
    exact hshort
  refine ⟨contents, hlength, ?_⟩
  rw [buildWorkflowChunks, if_neg hfull, hsome]
  simp only [Bool.false_eq_true, if_false]
  rw [hgroups, Option.bind_some]
  exact if_neg hfits

theorem left_of_inOrder (hvalid : ∀ call ∈ calls, call.Valid) (haccepts : Accepts calls outcome)
    (horder : InOrder calls) : Left calls outcome := by
  obtain ⟨groups, terminal, hgrouped, hcheck, hterminal, hdone, -⟩ := accepts_iff.mp haccepts
  obtain ⟨rfl, huniform, hdistinct, hchunks⟩ := hgrouped
  have hmem : ∀ group ∈ groups, ∀ call ∈ group.calls, call ∈ groups.flatMap LogicalCall.calls :=
    fun group hgroup call hcall => mem_flatMap.mpr ⟨group, hgroup, hcall⟩
  have hstages : ∀ group ∈ groups, ∃ answered,
      StageRows (stageOf group.first) answered group.calls := fun group hgroup =>
    stageRows_of_check (fun call hcall => hvalid call (hmem group hgroup call hcall))
      (huniform group hgroup) (hcheck group hgroup)
  have hchain := (isChain_calls huniform).mp horder.continues
  have hfirst : ∀ group ∈ groups, group.first ∈ groups.flatMap LogicalCall.calls :=
    fun group hgroup => hmem group hgroup _ mem_cons_self
  have hleft : ∀ plan returned, Reachable plan → outcome = Outcome.of returned →
      Runs StageRows plan returned (groups.flatMap LogicalCall.calls) →
        Left (groups.flatMap LogicalCall.calls) outcome :=
    fun plan returned hreachable houtcome hruns =>
      ⟨_, _, _, plan, returned, Plain.registered _, hreachable, houtcome, hruns.stages⟩
  have hfailed : ∀ {b : Bool}, ¬outcome = .succeeded → outcome = Outcome.of (b && false) := by
    intro b hnot
    rw [Bool.and_false]
    cases outcome with
    | succeeded => exact absurd rfl hnot
    | failed => rfl
  rcases checkTerminal_cases hterminal with ⟨hnone, hanalyses⟩ | ⟨group, -, hphase, rfl⟩ |
    ⟨group, analyses, -, hphase, rfl, hcovers⟩
  · have hnot : ¬outcome = .succeeded := fun hsucceeded => (hdone hsucceeded).1 hnone
    have houtcome : outcome = Outcome.of false := hfailed (b := false) hnot
    cases groups with
    | nil => exact hleft .repair false trivial houtcome (.refused _)
    | cons group groups =>
      have hanalysis : ∀ other ∈ group :: groups, other.first.phase = "analysis" := by
        intro other hother
        have hterminal := hanalyses other hother
        simp only [LogicalCall.terminal, Bool.or_eq_false_iff, decide_eq_false_iff_not] at hterminal
        rcases (hvalid _ (hfirst other hother)).phase with h | h | h
        · exact h
        · exact absurd h hterminal.2
        · exact absurd h hterminal.1
      have hchunk := hchunks group mem_cons_self
      have hphase := hanalysis group mem_cons_self
      have hmany : 2 ≤ group.first.chunkCount := by
        rw [checkChunk, if_pos hphase] at hchunk
        split at hchunk
        · cases hchunk
        · omega
      have hat : group.first.chunkIndex = some 0 := horder.begins group.first rfl hphase
      have hnumbered : ∃ last, Numbered group.first.chunkCount 0 last (group :: groups) :=
        numbered_of_chain hstages hanalysis
          (fun other hother i hi => ((hvalid _ (hfirst other hother)).chunkIndex i hi).2) hdistinct
          hchain (Nat.zero_le _) (by
            rintro _ ⟨⟩
            exact ⟨rfl, hat⟩)
      obtain ⟨last, hnumbered⟩ := hnumbered
      obtain ⟨contents, hlength, hcontents⟩ := exists_chunks (group.first.chunkCount - 1)
      have hlength : contents.length = group.first.chunkCount := by omega
      have hreachable : Reachable (.generate (some (contents, false))) :=
        ⟨_, _, _, _, hcontents.symm⟩
      rw [← hlength] at hnumbered
      by_cases hall : last ∧ (group :: groups).length = contents.length
      · have hruns : Runs StageRows (.generate (some (contents, false))) (false && false) _ :=
          .synthesis (analyses_of_all hnumbered hall.1 (by omega)) (.failed (.errors 0)) false
        rw [StageMetadata.rows] at hruns
        exact hleft _ _ hreachable houtcome (by simpa [errorCalls] using hruns)
      · refine hleft _ false hreachable houtcome (.analyses (analyses_of_numbered hnumbered ?_))
        intro htrue
        have hle := hnumbered.length_le
        rcases not_and_or.mp hall with hnot | hnot
        · exact absurd htrue hnot
        · omega
  · -- a final phase is that of a repair, since it is of no chunk
    have hchunk := hchunks group mem_cons_self
    have hindex := horder.single group.first (hfirst group mem_cons_self) hphase
    have hcount : group.first.chunkCount = 0 := by
      have hne : ("final" = "analysis") = False := by decide
      have hne' : ("final" = "synthesis") = False := by decide
      by_contra hnot
      simp [checkChunk, hphase, hindex, hnot, hne, hne'] at hchunk
    obtain ⟨answered, hstage⟩ := hstages group mem_cons_self
    have hstageOf : stageOf group.first = finalStage 0 := by
      simp [stageOf, finalStage, hphase, hindex, hcount]
    rw [hstageOf] at hstage
    rw [flatMap_singleton] at hleft hdone ⊢
    by_cases hsucceeded : outcome = .succeeded
    · obtain ⟨-, last, hlast, hkind⟩ := hdone hsucceeded
      have hanswered : answered := (stageRows_last hstage hlast).mpr (by
        rcases hkind with hkind | hkind <;> rw [hkind] <;> simp)
      subst hanswered
      exact hleft .repair true trivial hsucceeded (.repair hstage true)
    · exact hleft .repair _ trivial (hfailed hsucceeded) (.repair hstage false)
  · have hmemLast : group ∈ analyses ++ [group] :=
      mem_append_right _ (mem_singleton_self _)
    have hlength : analyses.length = group.first.chunkCount := by
      rw [coversChunks, Bool.and_eq_true] at hcovers
      simpa using hcovers.1
    have hzip : (analyses.zipIdx 0).all (fun (other, i) =>
        other.first.phase = "analysis" && other.first.chunkCount = group.first.chunkCount &&
          other.first.chunkIndex = some (i : Int)) = true := by
      rw [coversChunks, Bool.and_eq_true] at hcovers
      exact hcovers.2
    have hchunk := hchunks group hmemLast
    have hne : ("synthesis" = "analysis") = False := by decide
    have hmany : 2 ≤ group.first.chunkCount ∧ group.first.chunkIndex = none := by
      rw [checkChunk, hphase, if_neg (by rw [hne]; exact id), if_pos rfl] at hchunk
      split at hchunk
      · cases hchunk
      · rename_i hok
        rw [not_or, not_not] at hok
        exact ⟨by omega, hok.1⟩
    have hanswered : ∀ other ∈ analyses, StageRows (stageOf other.first) true other.calls :=
      fun other => answered_of_chain hstages hdistinct hchain
    have hnumbered := numbered_of_covers hanswered hzip (by omega)
    obtain ⟨answered, hstage⟩ := hstages group hmemLast
    have hstageOf : stageOf group.first = synthesisStage group.first.chunkCount := by
      simp [stageOf, synthesisStage, hphase, hmany.2]
    rw [hstageOf] at hstage
    obtain ⟨contents, hcontentsLength, hcontents⟩ := exists_chunks (group.first.chunkCount - 1)
    have hcontentsLength : contents.length = group.first.chunkCount := by omega
    have hreachable : Reachable (.generate (some (contents, false))) :=
      ⟨_, _, _, _, hcontents.symm⟩
    rw [← hcontentsLength] at hnumbered hstage
    have hanalyses := analyses_of_all hnumbered rfl (by omega)
    rw [flatMap_append, flatMap_singleton] at hleft hdone ⊢
    by_cases hsucceeded : outcome = .succeeded
    · obtain ⟨-, last, hlast, hkind⟩ := hdone hsucceeded
      have hcalls : group.calls ≠ [] := cons_ne_nil _ _
      rw [getLast?_append_of_ne_nil _ hcalls] at hlast
      have hanswered : answered := (stageRows_last hstage hlast).mpr (by
        rcases hkind with hkind | hkind <;> rw [hkind] <;> simp)
      subst hanswered
      exact hleft _ true hreachable hsucceeded (.synthesis hanalyses hstage true)
    · exact hleft _ _ hreachable (hfailed hsucceeded) (.synthesis hanalyses hstage false)

/-- A history is left by some run exactly when it is in order. -/
theorem left_iff_inOrder (hvalid : ∀ call ∈ calls, call.Valid) (haccepts : Accepts calls outcome) :
    Left calls outcome ↔ InOrder calls := by
  refine ⟨?_, left_of_inOrder hvalid haccepts⟩
  rintro ⟨codec, cfg, reg, plan, returned, hnames, -, rfl, hruns⟩
  have hrows := hruns.rows hnames
  have hids : (responseIds calls).Nodup := by
    obtain ⟨-, -, -, -, -, -, hids⟩ := accepts_iff.mp haccepts
    exact hids
  exact run_inOrder hrows ((run_accepted hrows hids).mp haccepts)

/-- **The archive and the workflow.** The history of a run of `Generate` or `Repair` is accepted as
what the run was, exactly when it is empty or the run is a repair or a generation of more than one
chunk. And an accepted history is left by some run exactly when it is in order. -/
theorem lineage_of_runs {codec : Codec} {cfg : LLMConfig} {reg : Registry}
    (hnames : Registered codec cfg reg) (calls : List QualificationProviderCall) :
    (∀ plan returned, Runs (StageCalls codec cfg reg) plan returned calls → (responseIds calls).Nodup →
        (Accepts calls (Outcome.of returned) ↔ calls = [] ∨ Chunked plan)) ∧
      ∀ outcome, (∀ call ∈ calls, call.Valid) → Accepts calls outcome →
        (Left calls outcome ↔ InOrder calls) :=
  ⟨fun _ _ hruns hids => run_accepted (hruns.rows hnames) hids,
    fun _ hvalid haccepts => left_iff_inOrder hvalid haccepts⟩

namespace Sample

/-- The call of a generation whose recording fits, or of a repair, answered at once. -/
def finalCall (chunkCount : Nat) : QualificationProviderCall :=
  ⟨.providerResponse, 1, "final", none, chunkCount, some "chatcmpl-1"⟩

theorem finalRows (chunkCount : Nat) : StageRows (Llm.finalStage chunkCount) true [finalCall chunkCount] :=
  .answered (.response 0 "chatcmpl-1")

/-- The calls of a stage: so many errors, then a response. -/
def answers (metadata : Llm.StageMetadata) (errors : Nat) (id : String) : List QualificationProviderCall :=
  metadata.rows (errorCalls errors ++ [⟨.providerResponse, errors + 1, id⟩])

theorem answers_rows (metadata : Llm.StageMetadata) (errors : Nat) (id : String) :
    StageRows metadata true (answers metadata errors id) := .answered (.response errors id)

/-- Two chunks, of which the first is answered after an error, and their synthesis. -/
def chunkCalls : List QualificationProviderCall :=
  answers (Llm.analysisStage 2 0) 1 "first" ++ (answers (Llm.analysisStage 2 1) 0 "second" ++ []) ++
    answers (Llm.synthesisStage 2) 0 "last"

theorem chunkCalls_valid : ∀ call ∈ chunkCalls, call.Valid := by
  have hall : ∀ call ∈ chunkCalls, (call.phase = "analysis" ∨ call.phase = "synthesis" ∨
      call.phase = "final") ∧ (∀ index ∈ call.chunkIndex, 0 ≤ index ∧ index < call.chunkCount) ∧
      (call.callKind = .cacheHit ↔ call.providerAttempt = 0) ∧
      (call.callKind = .providerError ↔ call.responseId = none) ∧ call.responseId ≠ some "" := by
    decide
  exact fun call hcall => have ⟨hphase, hindex, hattempt, hresponse, hid⟩ := hall call hcall
    ⟨hphase, hindex, hattempt, hresponse, hid⟩

theorem chunkRun : Runs (StageCalls Llm.Plain.codec (Llm.Plain.config 4) Llm.Plain.registry)
    (.generate (some (["", ""], false))) true chunkCalls := by
  have hanalyses : Llm.Analyses StageRows 2 0 true
      (answers (Llm.analysisStage 2 0) 1 "first" ++ (answers (Llm.analysisStage 2 1) 0 "second" ++ [])) :=
    .next (by decide) (answers_rows _ 1 "first") (.next (by decide) (answers_rows _ 0 "second") .done)
  have hruns : Runs StageRows (.generate (some (["", ""], false))) true chunkCalls :=
    .synthesis hanalyses (answers_rows _ 0 "last") true
  exact hruns.stages

theorem wholeChunks : buildWorkflowChunks (itemsRecording 1) 100 100 =
    some (["recording"], true) := by
  have hshort : bytes (itemsRecording 1).fullJSON ≤ 100 := by decide
  exact if_pos hshort

theorem wholeRun : Runs (StageCalls Llm.Plain.codec (Llm.Plain.config 1) Llm.Plain.registry)
    (.generate (some (["recording"], true))) true [finalCall 1] :=
  (Runs.whole (finalRows 1) true).stages

end Sample

/-- A generation of two chunks is accepted, and its history is that of a run. -/
theorem chunks_lineage : (Accepts Sample.chunkCalls .succeeded ↔
      Sample.chunkCalls = [] ∨ Chunked (.generate (some (["", ""], false)))) ∧
    (Left Sample.chunkCalls .succeeded ↔ InOrder Sample.chunkCalls) :=
  ⟨(lineage_of_runs (Llm.Plain.registered 4) _).1 _ _ Sample.chunkRun (by decide),
    (lineage_of_runs (Llm.Plain.registered 4) _).2 _ Sample.chunkCalls_valid (by decide)⟩

/-- A recording that fits into one prompt, and an answer that is a rule: its history is refused. -/
theorem wholeRecording_refused : ¬∀ (codec : Codec) (cfg : LLMConfig) (reg : Registry),
    Registered codec cfg reg → ∀ (ι : Type) (recording : Admission.Recording ι) (direct chunk : Int)
      (returned : Bool) (calls : List QualificationProviderCall),
    Runs (StageCalls codec cfg reg)
      (.generate (Admission.buildWorkflowChunks recording direct chunk)) returned calls →
    (responseIds calls).Nodup → Accepts calls (Outcome.of returned) := by
  intro h
  have hruns := Sample.wholeRun
  rw [← Sample.wholeChunks] at hruns
  have haccepts := h _ _ _ (Llm.Plain.registered 1) _ _ _ _ _ _ hruns (by decide)
  exact absurd haccepts (by decide)

end Qualification

end Aegis
