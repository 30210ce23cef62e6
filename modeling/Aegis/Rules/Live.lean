import Aegis.Rules.Decisions
import Aegis.Rules.Versions

/-!
# Rules.Live

The approved row of a rule is its version that was approved last.

* `Extends`   — versions and contracts stay, and a status changes once.
* `plain`     — a step that is not the transaction of an acceptance.
* `Versioned` — what holds in every state of a run of such steps.
-/

namespace Aegis

open List Option Table

namespace Rules

variable {ν : Type}

/-- Every row that is approved in `s'` is in `s`. -/
def AddsNone (s s' : Store ν) : Prop :=
  ∀ id q, s'.rules.find? id = some q → q.isApproved = true → s.rules.find? id = some q

def RuleVersion.fixed (v : RuleVersion ν) : RuleVersion ν :=
  { v with status := .pending, decidedAt := none, decidedBy := "" }

namespace Catalog

/-- Versions and contracts stay as they are; a pending version may be decided. -/
structure Extends (s s' : Catalog ν) : Prop where
  versions : ∀ k v, s.versions.find? k = some v → ∃ v', s'.versions.find? k = some v' ∧
    v'.fixed = v.fixed ∧ (v.status ≠ .pending → v' = v)
  contracts : ∀ k d, s.contracts.find? k = some d → s'.contracts.find? k = some d

namespace Extends

variable {s s' s'' : Catalog ν}

theorem refl : Extends s s := ⟨fun _ v h => ⟨v, h, rfl, fun _ => rfl⟩, fun _ _ h => h⟩

theorem trans (h : Extends s s') (h' : Extends s' s'') : Extends s s'' := by
  refine ⟨fun k v hv => ?_, fun k d hd => h'.contracts k d (h.contracts k d hd)⟩
  obtain ⟨v', hv', hfixed, hsame⟩ := h.versions k v hv
  obtain ⟨v'', hv'', hfixed', hsame'⟩ := h'.versions k v' hv'
  refine ⟨v'', hv'', hfixed'.trans hfixed, fun hdecided => ?_⟩
  obtain rfl := hsame hdecided
  exact hsame' hdecided

end Extends

def lastApproval (s : Catalog ν) (workspace : WorkspaceID) (ruleID : String) : Option VersionKey :=
  s.approvals.find? fun k => k.1 = workspace && k.2.1 = ruleID

/-- The rule is the version that was approved last. -/
def IsLive (s : Catalog ν) (id : String) (q : Rule ν) : Prop :=
  ∃ k v, s.lastApproval q.workspaceID id = some k ∧ s.versions.find? k = some v ∧
    v.status = .approved ∧ q.content = ((v.published Time.zero).row q.workspaceID).content

/-- The invariant: approved rules are live, and versions are numbered without gaps. -/
structure Sound (cfg : VersionConfig ν) (s : Catalog ν) : Prop where
  live : ∀ id q, s.server.store.rules.find? id = some q → q.isApproved = true → s.IsLive id q
  ids : ∀ v ∈ s.versions.rows, v.rule.id = v.key.2.1
  numbers : ∀ workspace ruleID, ∃ n, ∀ k,
    (s.versions.find? (workspace, ruleID, k)).isSome ↔ 1 ≤ k ∧ k ≤ n
  hashes : ∀ v ∈ s.versions.rows, ∀ v' ∈ s.versions.rows, v.key.1 = v'.key.1 →
    v.key.2.1 = v'.key.2.1 → v.contentHash = v'.contentHash → v = v'
  creates : ∀ x ∈ s.creates, ∃ v, s.versions.find? (x.workspace, x.ruleID, x.version) = some v ∧
    v.contentHash = cfg.sha256 x.content

def plain (s : Catalog ν) : Event ν → Bool
  | .enhancement (.decide _ call) =>
    match s.server.calls.find? fun c => c.id = call with
    | none => true
    | some c => c.decision = .reject
  | _ => true

end Catalog

theorem persistEnhancement_addsNone {s s' : Store ν} {workspace : WorkspaceID} {now : Time}
    {enhancementID : String} {baseline resultRule : Fields ν}
    (h : s.persistEnhancement workspace now enhancementID baseline resultRule = .ok s') :
    AddsNone s s' := by
  obtain ⟨r, -, -, -, hsame, ⟨q, hq, hnot⟩, -⟩ := persistEnhancement_ok h
  intro id q' hq' ha
  by_cases hid : id = r.id
  · subst hid
    rw [hq] at hq'
    cases hq'
    rw [hnot] at ha
    cases ha
  · rw [hsame id hid] at hq'
    exact hq'

theorem runJob_addsNone (cfg : Config) (s : Store ν) (workspace : WorkspaceID) (now : Time)
    (jobID : String) (response : Response ν) (enhancementID : String) :
    AddsNone s (s.runJob cfg workspace now jobID response enhancementID) := by
  unfold Store.runJob
  split
  next => exact fun _ _ h _ => h
  next j hj =>
    split
    next =>
      split
      next => exact fun _ _ h _ => h
      next => exact fun _ _ h _ => h
      next resultRule _ =>
        dsimp only
        cases hpersist : (s.updateJob workspace jobID .completed).persistEnhancement workspace
            now enhancementID j.baseline resultRule with
        | error e => exact fun _ _ h _ => h
        | ok s' =>
          have hadds : AddsNone (s.updateJob workspace jobID .completed) s' :=
            persistEnhancement_addsNone hpersist
          exact hadds
    next => exact fun _ _ h _ => h

theorem server_addsNone (cfg : Config) {s : Catalog ν} {e : Server.Event ν}
    (hplain : s.plain (.enhancement e)) :
    AddsNone s.server.store (s.server.step cfg e).store := by
  cases e with
  | enhanceRule workspace now jobID baseline =>
    simp only [Server.step, Store.enhanceRule]
    split
    · exact fun _ _ h _ => h
    · split <;> exact fun _ _ h _ => h
  | claimJob workspace jobID =>
    rw [Server.step, Store.claimJob]
    split
    · exact fun _ _ h _ => h
    · split <;> exact fun _ _ h _ => h
  | runJob workspace now jobID response enhancementID =>
    exact runJob_addsNone cfg s.server.store workspace now jobID response enhancementID
  | getEnhancement workspace call decision ruleID enhancementID =>
    rw [Server.step, Server.getEnhancement]
    split
    · exact fun _ _ h _ => h
    · split
      · exact fun _ _ h _ => h
      · split <;> exact fun _ _ h _ => h
  | getRule call =>
    rw [Server.step, Server.getRule]
    split
    · exact fun _ _ h _ => h
    · split <;> exact fun _ _ h _ => h
  | decide now call =>
    rw [Server.step, Server.commit]
    unfold Catalog.plain at hplain
    split
    next => exact fun _ _ h _ => h
    next c hc =>
      simp only [hc, decide_eq_true_eq] at hplain
      split
      next => exact fun _ _ h _ => h
      next =>
        unfold Server.decide
        split
        next => exact fun _ _ h _ => h
        next store hstore =>
          obtain ⟨s₁, f, rfl, hother, -, -, hrow⟩ := Server.decide_ok hstore
          intro id q hq _
          change s₁.rules.find? id = some q at hq
          rcases hrow with ⟨haccept, -⟩ | ⟨-, hgone⟩
          · rw [hplain] at haccept
            cases haccept
          · by_cases hid : id = c.ruleID
            · rw [hid, hgone] at hq
              cases hq
            · rw [hother id hid] at hq
              exact hq

namespace Catalog

variable {cfg : VersionConfig ν} {s s' : Catalog ν} {c : Caller} {i : VersionInput ν}

/-! ## Versions -/

theorem IsLive.keep {id : String} {q : Rule ν} (h : s.IsLive id q) (he : Extends s s')
    (ha : s'.approvals = s.approvals) : s'.IsLive id q := by
  obtain ⟨k, v, hk, hv, hstatus, hq⟩ := h
  obtain ⟨v', hv', -, hsame⟩ := he.versions k v hv
  obtain rfl := hsame (by simp [hstatus])
  exact ⟨k, _, by rw [lastApproval, ha]; exact hk, hv', hstatus, hq⟩

theorem Sound.store {server : Server ν} (h : s.Sound cfg)
    (hadds : AddsNone s.server.store server.store) : Sound cfg { s with server } :=
  ⟨fun id q hq ha => h.live id q (hadds id q hq ha) ha, h.ids, h.numbers, h.hashes, h.creates⟩

theorem fileRule_ok {l : Lineage} {input : Rule ν} (h : s.fileRule c l input = .ok s') :
    ∃ server, s' = { s with server } ∧ AddsNone s.server.store server.store := by
  unfold fileRule at h
  split at h
  next => exact ⟨_, (Except.ok.inj h).symm, fun _ _ h _ => h⟩
  next =>
    split at h
    next store hcreate =>
      refine ⟨_, (Except.ok.inj h).symm, fun id q hq ha => ?_⟩
      obtain ⟨⟨rules, rfl, hwrote⟩, -⟩ := Store.createRule_ok hcreate
      rcases hwrote.cases hq with ⟨-, rfl⟩ | ⟨-, hold⟩
      · cases ha
      · exact hold
    next => cases h
    next => cases h

variable {workspace : WorkspaceID}

theorem nextVersion_eq {ruleID : String} {n : Nat}
    (h : ∀ k, (s.versions.find? (workspace, ruleID, k)).isSome ↔ 1 ≤ k ∧ k ≤ n) :
    s.nextVersion workspace ruleID = n + 1 := by
  have hmem : ∀ k, k ∈ (s.versions.rows.filter (RuleVersion.isOf workspace ruleID)).map
      (fun v => v.key.2.2) ↔ 1 ≤ k ∧ k ≤ n := by
    intro k
    rw [← h k, isSome_iff_exists, List.mem_map]
    constructor
    · rintro ⟨v, hv, rfl⟩
      obtain ⟨hin, hof⟩ := mem_filter.mp hv
      simp only [RuleVersion.isOf, Bool.and_eq_true, decide_eq_true_eq] at hof
      refine ⟨v, Table.find?_eq_some.mpr ⟨hin, ?_⟩⟩
      rw [← hof.1, ← hof.2]
    · rintro ⟨v, hv⟩
      obtain ⟨hin, hkey⟩ := Table.find?_eq_some.mp hv
      refine ⟨v, mem_filter.mpr ⟨hin, ?_⟩, by rw [hkey]⟩
      simp [RuleVersion.isOf, hkey]
  unfold nextVersion
  cases hmax : ((s.versions.rows.filter (RuleVersion.isOf workspace ruleID)).map
      fun v => v.key.2.2).max? with
  | none =>
    rw [max?_eq_none_iff] at hmax
    have hn : ¬(1 ≤ n ∧ n ≤ n) := by
      rw [← hmem n, hmax]
      exact not_mem_nil
    simp only [getD_none]
    omega
  | some m =>
    obtain ⟨hm, hall⟩ := max?_eq_some_iff.mp hmax
    have hm' := (hmem m).mp hm
    have hn := hall n ((hmem n).mpr ⟨by omega, le_refl n⟩)
    simp only [getD_some]
    omega

variable {v : RuleVersion ν}

theorem addVersion_ok (h : s.addVersion cfg c i = .ok (s', v)) :
    (s' = s ∧ s.versionByHash c.workspace i.rule.id (cfg.sha256 (i.content c)) = some v) ∨
    (s.versionByHash c.workspace i.rule.id (cfg.sha256 (i.content c)) = none ∧
      v.key = (c.workspace, i.rule.id, s.nextVersion c.workspace i.rule.id) ∧
      v.contentHash = cfg.sha256 (i.content c) ∧ v.rule.id = i.rule.id ∧
      ∃ versions contracts d, s' = { s with versions, contracts } ∧
        s.versions.insert? v = some versions ∧ s.contracts.insert? d = some contracts) := by
  unfold addVersion at h
  dsimp only at h
  split at h
  next v' hv' =>
    cases h
    exact .inl ⟨rfl, hv'⟩
  next hnone =>
    split at h
    next versions contracts hversions hcontracts =>
      cases h
      exact .inr ⟨hnone, rfl, rfl, rfl, versions, contracts, _, rfl, hversions, hcontracts⟩
    next => cases h

theorem versionByHash_eq_some {ruleID hash : String} (h : s.versionByHash workspace ruleID hash = some v) :
    v ∈ s.versions.rows ∧ v.key.1 = workspace ∧ v.key.2.1 = ruleID ∧ v.contentHash = hash := by
  have hwhere := find?_some h
  simp only [RuleVersion.isOf, Bool.and_eq_true, decide_eq_true_eq] at hwhere
  exact ⟨mem_of_find?_eq_some h, hwhere.1.1, hwhere.1.2, hwhere.2⟩

theorem versionByHash_eq_none {ruleID hash : String} (h : s.versionByHash workspace ruleID hash = none) :
    ∀ v ∈ s.versions.rows, v.key.1 = workspace → v.key.2.1 = ruleID → v.contentHash ≠ hash := by
  intro v hv hws hrule hhash
  have hnot := List.find?_eq_none.mp h v hv
  simp [RuleVersion.isOf, hws, hrule, hhash] at hnot

theorem addVersion_extends (h : s.addVersion cfg c i = .ok (s', v)) : Extends s s' := by
  rcases addVersion_ok h with ⟨rfl, -⟩ | ⟨-, -, -, -, versions, contracts, d, rfl, hversions, hcontracts⟩
  · exact .refl
  · exact ⟨fun k v hv => ⟨v, find?_insert?_of_some hversions hv, rfl, fun _ => rfl⟩,
      fun k d hd => find?_insert?_of_some hcontracts hd⟩

theorem addVersion_sound (hs : s.Sound cfg) (h : s.addVersion cfg c i = .ok (s', v)) :
    s'.Sound cfg ∧ s'.approvals = s.approvals ∧ s'.creates = s.creates ∧
      s'.versions.find? v.key = some v ∧ v.key.1 = c.workspace ∧ v.key.2.1 = i.rule.id ∧
      v.contentHash = cfg.sha256 (i.content c) := by
  have hextends := addVersion_extends h
  rcases addVersion_ok h with ⟨rfl, hv⟩ | ⟨hnone, hkey, hhash, hid, versions, contracts, d, rfl,
    hversions, hcontracts⟩
  · obtain ⟨hin, hws, hrule, hhash⟩ := versionByHash_eq_some hv
    exact ⟨hs, rfl, rfl, find?_key hin, hws, hrule, hhash⟩
  · obtain ⟨-, hrows⟩ := insert?_eq_some.mp hversions
    have hfind := find?_of_insert? hversions
    have hmem : ∀ v', v' ∈ versions.rows ↔ v' ∈ s.versions.rows ∨ v' = v := by
      intro v'
      rw [hrows, mem_append, mem_singleton]
    have hself : versions.find? v.key = some v := by rw [hfind, if_pos rfl]
    have hfresh := versionByHash_eq_none hnone
    refine ⟨⟨fun id q hq ha => (hs.live id q hq ha).keep hextends rfl, fun v' hv' => ?_,
      fun workspace ruleID => ?_, fun v₁ h₁ v₂ h₂ hws hrule hsame => ?_, fun x hx => ?_⟩, rfl, rfl,
      hself, by rw [hkey], by rw [hkey], hhash⟩
    · rcases (hmem v').mp hv' with hv' | rfl
      · exact hs.ids v' hv'
      · rw [hkey, hid]
    · obtain ⟨n, hn⟩ := hs.numbers workspace ruleID
      by_cases hthis : workspace = c.workspace ∧ ruleID = i.rule.id
      · obtain ⟨rfl, rfl⟩ := hthis
        rw [nextVersion_eq hn] at hkey
        refine ⟨n + 1, fun k => ?_⟩
        change (versions.find? _).isSome ↔ _
        rw [hfind, hkey]
        by_cases hk : k = n + 1
        · subst hk
          simp
        · rw [if_neg (by simpa using Ne.symm hk), hn k]
          omega
      · refine ⟨n, fun k => ?_⟩
        change (versions.find? _).isSome ↔ _
        rw [hfind, hkey, if_neg, hn k]
        rintro ⟨⟩
        exact hthis ⟨rfl, rfl⟩
    · rcases (hmem v₁).mp h₁ with h₁ | rfl <;> rcases (hmem v₂).mp h₂ with h₂ | rfl
      · exact hs.hashes v₁ h₁ v₂ h₂ hws hrule hsame
      · rw [hkey] at hws hrule
        exact absurd (hsame.trans hhash) (hfresh v₁ h₁ hws hrule)
      · rw [hkey] at hws hrule
        exact absurd (hsame.symm.trans hhash) (hfresh v₂ h₂ hws.symm hrule.symm)
      · rfl
    · obtain ⟨v', hv', hhash'⟩ := hs.creates x hx
      obtain ⟨v'', hv'', hfixed, -⟩ := hextends.versions _ v' hv'
      exact ⟨v'', hv'', (congrArg RuleVersion.contentHash hfixed).trans hhash'⟩

theorem createVersionExec_ok (hs : s.Sound cfg) (h : s.createVersionExec cfg c i = .ok (s', v)) :
    s'.Sound cfg ∧ Extends s s' ∧ s'.versions.find? v.key = some v ∧ v.key.1 = c.workspace := by
  obtain ⟨-, h⟩ := ensure_bind_eq_ok.mp h
  obtain ⟨s₁, hfile, h⟩ := bind_eq_ok.mp h
  obtain ⟨-, h⟩ := ensure_bind_eq_ok.mp h
  obtain ⟨⟨s₂, v'⟩, hadd, h⟩ := bind_eq_ok.mp h
  obtain ⟨rfl, rfl⟩ := Prod.mk.inj (pure_eq_ok.mp h)
  obtain ⟨server, rfl, hadds⟩ := fileRule_ok hfile
  obtain ⟨hsound, -, hcreates, hself, hws, hrule, hhash⟩ := addVersion_sound (hs.store hadds) hadd
  have hextends := addVersion_extends hadd
  refine ⟨⟨hsound.live, hsound.ids, hsound.numbers, hsound.hashes, fun x hx => ?_⟩,
    ⟨hextends.versions, hextends.contracts⟩, hself, hws⟩
  rcases mem_cons.mp hx with rfl | hx
  · refine ⟨v', ?_, hhash⟩
    rw [← hself]
    congr 1
    rw [← hws, ← hrule]
  · exact hsound.creates x hx

theorem decideVersion_extends (status : RuleApprovalStatus)
    (hv : s.versions.find? v.key = some v) (hpending : v.status = .pending) :
    Extends s { s with versions := s.versions.updateRow v.key (decideVersion c status) } := by
  refine ⟨fun k v' hv' => ?_, fun _ _ h => h⟩
  change ∃ w, (s.versions.updateRow v.key _).find? k = some w ∧ _
  rw [find?_updateRow]
  by_cases hk : k = v.key
  · subst hk
    rw [hv] at hv'
    cases hv'
    rw [if_pos rfl, hv]
    exact ⟨_, rfl, rfl, fun hnot => absurd hpending hnot⟩
  · rw [if_neg hk]
    exact ⟨v', hv', rfl, fun _ => rfl⟩

theorem decideVersion_sound (status : RuleApprovalStatus) (hs : s.Sound cfg)
    (hv : s.versions.find? v.key = some v) (hpending : v.status = .pending) :
    Sound cfg { s with versions := s.versions.updateRow v.key (decideVersion c status) } := by
  have hextends := decideVersion_extends (c := c) status hv hpending
  have hback : ∀ w ∈ (s.versions.updateRow v.key (decideVersion c status)).rows,
      ∃ w₀ ∈ s.versions.rows, w₀.key = w.key ∧ w₀.rule = w.rule ∧
        w₀.contentHash = w.contentHash ∧ (w = w₀ ∨ w = (decideVersion c status).set v) := by
    intro w hw
    rcases mem_updateRow.mp hw with ⟨hin, -⟩ | ⟨w₀, hw₀, rfl⟩
    · exact ⟨w, hin, rfl, rfl, rfl, .inl rfl⟩
    · rw [hv] at hw₀
      cases hw₀
      exact ⟨v, mem_of_find? hv, rfl, rfl, rfl, .inr rfl⟩
  refine ⟨fun id q hq ha => (hs.live id q hq ha).keep hextends rfl, fun w hw => ?_,
    fun workspace ruleID => ?_, fun w₁ h₁ w₂ h₂ hws hrule hsame => ?_, fun x hx => ?_⟩
  · obtain ⟨w₀, hin, hkey, hrule, -⟩ := hback w hw
    rw [← hkey, ← hrule]
    exact hs.ids w₀ hin
  · obtain ⟨n, hn⟩ := hs.numbers workspace ruleID
    refine ⟨n, fun k => ?_⟩
    rw [← hn k]
    change ((s.versions.updateRow v.key _).find? _).isSome ↔ _
    rw [find?_updateRow]
    split
    · rw [isSome_map]
    · rfl
  · -- two versions with one content have one key
    obtain ⟨u₁, hu₁, hkey₁, -, hhash₁, -⟩ := hback w₁ h₁
    obtain ⟨u₂, hu₂, hkey₂, -, hhash₂, -⟩ := hback w₂ h₂
    have hu := hs.hashes u₁ hu₁ u₂ hu₂ (by rw [hkey₁, hkey₂, hws]) (by rw [hkey₁, hkey₂, hrule])
      (by rw [hhash₁, hhash₂, hsame])
    exact eq_of_key h₁ h₂ (by rw [← hkey₁, ← hkey₂, hu])
  · obtain ⟨w, hw, hhash⟩ := hs.creates x hx
    obtain ⟨w', hw', hfixed, -⟩ := hextends.versions _ w hw
    exact ⟨w', hw', (congrArg RuleVersion.contentHash hfixed).trans hhash⟩

theorem approveExec_ok (hs : s.Sound cfg)
    (hv : s.versions.find? v.key = some v) (hws : v.key.1 = c.workspace)
    (h : s.approveExec c v = .ok s') : s'.Sound cfg ∧ Extends s s' := by
  unfold approveExec at h
  split at h
  next => cases h
  next hstatus =>
    have hpending : v.status = .pending := not_not.mp hstatus
    obtain ⟨store, hcreate, h⟩ := bind_eq_ok.mp h
    obtain rfl := pure_eq_ok.mp h
    obtain ⟨⟨rules, rfl, hwrote⟩, -⟩ := Store.createRule_ok hcreate
    have hextends := decideVersion_extends (c := c) .approved hv hpending
    have hsound := decideVersion_sound (c := c) .approved hs hv hpending
    have hid : v.rule.id = v.key.2.1 := hs.ids v (mem_of_find? hv)
    refine ⟨⟨fun id q hq ha => ?_, hsound.ids, hsound.numbers, hsound.hashes, hsound.creates⟩,
      hextends.versions, hextends.contracts⟩
    change rules.find? id = some q at hq
    have hkey : Rule.id (Store.upserted (v.published c.now) c.workspace
        (s.server.store.rules.find? (v.published c.now).id)) = v.rule.id := rfl
    rcases hwrote.cases hq with ⟨hthis, rfl⟩ | ⟨hother, hold⟩
    · -- the row of the version
      refine ⟨v.key, (decideVersion c .approved).set v, ?_, ?_, rfl, rfl⟩
      · have hfirst : (fun k : VersionKey => decide (k.1 = c.workspace) && decide (k.2.1 = id))
            v.key := by
          simp [hws, hthis, hkey, hid]
        exact find?_cons_of_pos hfirst
      · change (s.versions.updateRow v.key _).find? v.key = _
        rw [find?_updateRow, if_pos rfl, hv]
        rfl
    · rw [hkey, hid] at hother
      obtain ⟨k, w, hk, hw⟩ := (hs.live id q hold ha).keep hextends rfl
      refine ⟨k, w, ?_, hw⟩
      rw [← hk]
      exact find?_cons_of_neg (by simp [hother])

theorem after_ok {x : Except StoreError (Catalog ν)} (hs : s.Sound cfg)
    (h : ∀ s', x = .ok s' → s'.Sound cfg ∧ Extends s s') :
    (after x s).Sound cfg ∧ Extends s (after x s) := by
  cases x with
  | error e => exact ⟨hs, .refl⟩
  | ok s' => exact h s' rfl

theorem step_sound {e : Event ν} (hv2 : cfg.workflowV2Enabled) (hs : s.Sound cfg)
    (hplain : s.plain e) : (s.step cfg e).Sound cfg ∧ Extends s (s.step cfg e) := by
  cases e with
  | enhancement e =>
    exact ⟨hs.store (server_addsNone cfg.toConfig hplain),
      fun _ v h => ⟨v, h, rfl, fun _ => rfl⟩, fun _ _ h => h⟩
  | legacy c m =>
    rw [step, if_pos hv2]
    exact ⟨hs, .refl⟩
  | createVersion c rule recordingID recordingExists =>
    rw [step, if_pos hv2]
    refine after_ok hs fun s' h => ?_
    cases hcreate : s.createVersionExec cfg c (.ofRule rule recordingID recordingExists) with
    | error e =>
      rw [hcreate] at h
      cases h
    | ok r =>
      rw [hcreate] at h
      cases h
      obtain ⟨hsound, hextends, -⟩ := createVersionExec_ok (v := r.2) hs hcreate
      exact ⟨hsound, hextends⟩
  | approveVersion c ruleID version =>
    rw [step, if_pos hv2]
    refine after_ok hs fun s' h => ?_
    unfold approveVersion at h
    split at h
    next => cases h
    next v hv =>
      have hkey : v.key = (c.workspace, ruleID, version) := key_of_find? hv
      exact approveExec_ok hs (hkey ▸ hv) (by rw [hkey]) h
  | rejectVersion c ruleID version =>
    rw [step, if_pos hv2]
    refine after_ok hs fun s' h => ?_
    unfold rejectVersion at h
    split at h
    next => cases h
    next v hv =>
      split at h
      next => cases h
      next hstatus =>
        have hpending : v.status = .pending := not_not.mp hstatus
        have hkey : v.key = (c.workspace, ruleID, version) := key_of_find? hv
        cases h
        exact ⟨decideVersion_sound _ hs (hkey ▸ hv) hpending, decideVersion_extends _ (hkey ▸ hv) hpending⟩
  | approveDSL c i finishes =>
    rw [step]
    refine after_ok hs fun s' h => ?_
    unfold approveDSL at h
    obtain ⟨⟨s₁, v⟩, hcreate, h⟩ := bind_eq_ok.mp h
    obtain ⟨s₂, happrove, h⟩ := bind_eq_ok.mp h
    obtain ⟨-, h⟩ := ensure_bind_eq_ok.mp h
    obtain rfl := pure_eq_ok.mp h
    obtain ⟨hsound, hextends, hv, hws⟩ := createVersionExec_ok hs hcreate
    unfold approvePending at happrove
    split at happrove
    · obtain ⟨hsound', hextends'⟩ := approveExec_ok hsound hv hws happrove
      exact ⟨hsound', hextends.trans hextends'⟩
    · cases happrove
      exact ⟨hsound, hextends⟩

theorem empty_sound : (empty : Catalog ν).Sound cfg :=
  ⟨fun _ _ h => (by cases h), fun _ h => (by cases h), fun _ _ => ⟨0, fun k => by
    constructor
    · intro h
      cases h
    · omega⟩, fun _ h => (by cases h), fun _ h => (by cases h)⟩

/-- What holds in every state: a rule that is approved and enabled is its version that was approved
last, the versions of a rule are numbered from 1 on, and two calls that create a version of a rule
are given the same number exactly when they have the same content. -/
structure Versioned (cfg : VersionConfig ν) (s : Catalog ν) : Prop where
  live : ∀ id q, s.server.store.rules.find? id = some q → q.isApproved = true →
    q.enabled = true → s.IsLive id q
  numbers : ∀ workspace ruleID, ∃ n, ∀ k,
    (s.versions.find? (workspace, ruleID, k)).isSome ↔ 1 ≤ k ∧ k ≤ n
  creates : Function.Injective cfg.sha256 → ∀ x ∈ s.creates, ∀ y ∈ s.creates,
    x.workspace = y.workspace → x.ruleID = y.ruleID → (x.version = y.version ↔ x.content = y.content)

theorem Sound.versioned (h : s.Sound cfg) : s.Versioned cfg := by
  refine ⟨fun id q hq ha _ => h.live id q hq ha, h.numbers, fun hinj x hx y hy hws hrule => ?_⟩
  obtain ⟨v, hv, hhash⟩ := h.creates x hx
  obtain ⟨w, hw, hhash'⟩ := h.creates y hy
  constructor
  · intro hversion
    rw [hws, hrule, hversion, hw] at hv
    cases hv
    exact hinj (hhash.symm.trans hhash')
  · intro hcontent
    have hkey : v.key = (x.workspace, x.ruleID, x.version) := key_of_find? hv
    have hkey' : w.key = (y.workspace, y.ruleID, y.version) := key_of_find? hw
    have hsame := h.hashes v (mem_of_find? hv) w (mem_of_find? hw)
      (by rw [hkey, hkey', hws]) (by rw [hkey, hkey', hrule]) (by rw [hhash, hhash', hcontent])
    rw [hsame, hkey'] at hkey
    exact (Prod.mk.inj (Prod.mk.inj hkey).2).2.symm

/-- A plain run keeps the live rules among the approved versions, and extends these. -/
theorem run_sound {es : List (Event ν)} (hv2 : cfg.workflowV2Enabled) (hs : s.Sound cfg)
    (h : Meets (step cfg) (fun s e => s.plain e = true) s es) :
    Always (step cfg) (Sound cfg) s es ∧ Extends s (run (step cfg) s es) := by
  induction es generalizing s with
  | nil => exact ⟨hs, .refl⟩
  | cons e es ih =>
    obtain ⟨hsound, hextends⟩ := step_sound hv2 hs h.1
    obtain ⟨halways, hrest⟩ := ih hsound h.2
    exact ⟨⟨hs, halways⟩, hextends.trans hrest⟩

end Catalog

open Catalog in
/-- In every run from the empty database in which no acceptance commits, the live rules are approved
versions, and from any point of the run on versions and contracts stay as they are. -/
theorem live_is_version {cfg : VersionConfig ν} {es : List (Catalog.Event ν)}
    (hv2 : cfg.workflowV2Enabled = true)
    (h : Meets (step cfg) (fun s e => s.plain e = true) empty es) :
    Always (step cfg) (Versioned cfg) empty es ∧ ∀ es₁ es₂, es = es₁ ++ es₂ →
        Extends (run (step cfg) empty es₁) (run (step cfg) empty es) := by
  refine ⟨(run_sound hv2 empty_sound h).1.mono fun _ hs => hs.versioned, fun es₁ es₂ he => ?_⟩
  subst he
  have hsplit : ∀ s, Meets (step cfg) (fun s e => s.plain e = true) s (es₁ ++ es₂) →
      Meets (step cfg) (fun s e => s.plain e = true) s es₁ ∧
        Meets (step cfg) (fun s e => s.plain e = true) (run (step cfg) s es₁) es₂ := by
    clear h
    induction es₁ with
    | nil => exact fun s h => ⟨trivial, h⟩
    | cons e es₁ ih => exact fun s h => ⟨⟨h.1, (ih _ h.2).1⟩, (ih _ h.2).2⟩
  obtain ⟨h₁, h₂⟩ := hsplit empty h
  have hs := (run_sound hv2 empty_sound h₁).1.run
  have happend : run (step cfg) empty (es₁ ++ es₂) = run (step cfg) (run (step cfg) empty es₁) es₂ :=
    foldl_append
  rw [happend]
  exact (run_sound hv2 hs h₂).2

namespace Sample

def versionConfig : VersionConfig Nat := { config with
  workflowV2Enabled := true
  sha256 := fun _ => "hash" }

def caller : Caller := ⟨"default", "admin", 1⟩

def publication : List (Catalog.Event Nat) :=
  [.createVersion caller { Rule.zero with id := "rule" } "" false, .approveVersion caller "rule" 1]

def steps : Json Nat := .arr [.null]

/-- What a baseline holds that `EnhanceRule` lets through. -/
def validMembers : Fields Nat :=
  [("entry", .str "http://"), ("id", .str "rule"), ("name", .str "name"), ("steps", steps)]

def bypass : List (Catalog.Event Nat) :=
  [.enhancement (.enhanceRule "default" 1 "job" validMembers), .enhancement (.claimJob "default" "job"),
    .enhancement (.runJob "default" 2 "job" .failed "enhancement"),
    .enhancement (.getEnhancement "default" 1 .accept "rule" "enhancement"),
    .enhancement (.getRule 1),
    .enhancement (.decide 3 1)]

end Sample

theorem publication_live : Always (Catalog.step Sample.versionConfig)
    (Catalog.Versioned Sample.versionConfig) .empty Sample.publication := by
  have hplain : Meets (Catalog.step Sample.versionConfig) (fun s e => s.plain e = true) .empty
      Sample.publication := ⟨rfl, rfl, trivial⟩
  exact (live_is_version rfl hplain).1

/-- The accepted rule is approved and enabled, and has no version. -/
theorem bypass_unversioned : ¬∀ es : List (Catalog.Event Nat),
    Always (Catalog.step Sample.versionConfig) (Catalog.Versioned Sample.versionConfig) .empty
      es := by
  intro h
  have hversioned := (h Sample.bypass).run
  have hrow : ((run (Catalog.step Sample.versionConfig) .empty
      Sample.bypass).server.store.rules.find? "rule").map (fun q => q.isApproved && q.enabled) =
        some true := by
    decide +kernel
  have hnone : (run (Catalog.step Sample.versionConfig) .empty Sample.bypass).approvals = [] := by
    decide +kernel
  obtain ⟨q, hq, hwhere⟩ := map_eq_some_iff.mp hrow
  rw [Bool.and_eq_true] at hwhere
  obtain ⟨k, v, hk, -⟩ := hversioned.live "rule" q hq hwhere.1 hwhere.2
  rw [Catalog.lastApproval, hnone] at hk
  cases hk

end Rules

end Aegis
