import Aegis.Rules.Frame

/-!
# Rules.Decisions

A decision on an enhancement takes effect once.

* `orderly` — the calls that decide on a rule come one after the other, no job is persisted for the
  rule meanwhile, and none is a rejection once an enhancement of the rule has been accepted.
* `Decided` — each enhancement has at most one decision, which found it pending; the row of the rule
  holds what was accepted last, and an approved row is never that of a rejected enhancement.
-/

namespace Aegis

open List Option

namespace Rules

variable {ν : Type}

/-- The row is the enhanced rule of `e`, as an acceptance writes it. -/
def Installs (e : RuleEnhancement ν) (q : Rule ν) : Prop :=
  q = (acceptedRule e q.id q.createdAt q.updatedAt).row q.workspaceID

def lastAccepted (log : List (Entry ν)) (ruleID : String) : Option (Entry ν) :=
  log.find? fun x => x.decision = .accept && x.ruleID = ruleID

/-- After every decision, the row of its rule holds the enhancement that was accepted last. -/
def Holds : List (Entry ν) → Prop
  | [] => True
  | x :: log =>
    (∀ y, lastAccepted (x :: log) x.ruleID = some y →
      ∃ e q, y.found = some e ∧ x.left = some q ∧ Installs e q) ∧ Holds log

/-- The effects of the decisions in `s`; `s₀` is the state before all of them. -/
structure Decided (s₀ : Store ν) (s : Server ν) : Prop where
  once : (s.log.map Entry.enhancementID).Nodup
  found : ∀ x ∈ s.log, ∃ e, x.found = some e ∧ e.id = x.enhancementID ∧
    e.ruleID = some x.ruleID ∧ e.status = .pending
  status : ∀ x ∈ s.log, ∃ e, s.store.enhancements.find? x.enhancementID = some e ∧
    e.status = x.decision.status
  holds : Holds s.log
  approved : ∀ id q, s.store.rules.find? id = some q → q.isApproved = true → s₀.rules.find? id = some q ∨
      ∃ x ∈ s.log, x.decision = .accept ∧ x.ruleID = id ∧ ∃ e, x.found = some e ∧ Installs e q

def orderly (cfg : Config) (s : Server ν) : Server.Event ν → Bool
  | .getEnhancement _ _ _ ruleID _ => s.calls.all fun c => c.ruleID ≠ ruleID
  | .runJob _ _ jobID response _ =>
    match s.store.jobs.find? jobID with
    | none => true
    | some j =>
      match enhance cfg.urlParses cfg.enforced j.baseline response with
      | .error _ => true
      | .ok resultRule =>
        match Rule.read resultRule with
        | none => true
        | some r => s.calls.all fun c => c.ruleID ≠ r.id
  | .decide _ call =>
    match s.calls.find? fun c => c.id = call with
    | none => true
    | some c => c.decision = .accept || (lastAccepted s.log c.ruleID).isNone
  | _ => true

/-- What a call has read is still so, and there is one call for a rule. -/
structure Server.Orderly (s : Server ν) : Prop where
  read : ∀ c ∈ s.calls, s.store.enhancements.find? c.e.id = some c.e ∧
    c.e.ruleID = some c.ruleID ∧ c.e.workspaceID = c.workspace ∧ c.e.status = .pending
  alone : (s.calls.map Call.ruleID).Nodup

namespace Server

variable {s₀ : Store ν} {s : Server ν} {cfg : Config}

theorem keep {store : Store ν} (ho : s.Orderly) (hd : Decided s₀ s)
    (hread : ∀ c ∈ s.calls, store.enhancements.find? c.e.id = some c.e)
    (hstatus : ∀ id e, s.store.enhancements.find? id = some e → e.status ≠ .pending →
      ∃ e', store.enhancements.find? id = some e' ∧ e'.status = e.status)
    (hrules : ∀ id q, store.rules.find? id = some q → q.isApproved = true →
      s.store.rules.find? id = some q) :
    Orderly { s with store } ∧ Decided s₀ { s with store } := by
  refine ⟨⟨fun c hc => ⟨hread c hc, (ho.read c hc).2⟩, ho.alone⟩, hd.once, hd.found,
    fun x hx => ?_, hd.holds, fun id q hq ha => hd.approved id q (hrules id q hq ha) ha⟩
  obtain ⟨e, he, hs⟩ := hd.status x hx
  have hdecided : e.status ≠ .pending := by
    rw [hs]
    cases x.decision <;> simp [Decision.status]
  obtain ⟨e', he', hs'⟩ := hstatus _ e he hdecided
  exact ⟨e', he', hs'.trans hs⟩

variable {workspace : WorkspaceID} {now : Time}

theorem persist_keep (store : Store ν) {store' : Store ν}
    {enhancementID : String} {baseline resultRule : Fields ν} (ho : s.Orderly) (hd : Decided s₀ s)
    (hrules : store.rules = s.store.rules) (henh : store.enhancements = s.store.enhancements)
    (h : store.persistEnhancement workspace now enhancementID baseline resultRule = .ok store')
    (hfree : ∀ r, Rule.read resultRule = some r → ∀ c ∈ s.calls, c.ruleID ≠ r.id) :
    Orderly { s with store := store' } ∧ Decided s₀ { s with store := store' } := by
  obtain ⟨r, hr, -, -, hsame, ⟨q, hq, hnot⟩, f, hf, hfind, hunused⟩ := persistEnhancement_ok h
  rw [henh] at hfind hunused
  have hstays : ∀ id e, s.store.enhancements.find? id = some e →
      replaced workspace r.id e = false → store'.enhancements.find? id = some (f e) := by
    intro id e he hnot
    have hne : id ≠ enhancementID := by
      rintro rfl
      rw [he, filter_some, hnot] at hunused
      cases hunused
    rw [hfind, if_neg hne, he, filter_some, hnot]
    rfl
  refine keep ho hd (fun c hc => ?_) (fun id e he hdecided => ?_) fun id q' hq' ha => ?_
  · obtain ⟨he, hrule, -⟩ := ho.read c hc
    have hne : c.e.ruleID ≠ some r.id := by
      rw [hrule]
      exact fun heq => hfree r hr c hc (some.inj heq)
    rw [hstays _ c.e he (by simp [replaced, hne])]
    rcases hf c.e with hself | ⟨hthis, -⟩
    · rw [hself]
    · exact absurd hthis hne
  · refine ⟨f e, hstays id e he (by simp [replaced, hdecided]), ?_⟩
    rcases hf e with hself | ⟨-, hgone⟩
    · rw [hself]
    · rw [hgone]
  · by_cases hid : id = r.id
    · subst hid
      rw [hq] at hq'
      cases hq'
      rw [hnot] at ha
      cases ha
    · rw [hsame id hid, hrules] at hq'
      exact hq'

theorem find?_setStatus (store : Store ν) (workspace : WorkspaceID) (id : String)
    (status : EnhancementStatus) (k : String) :
    (store.updateRuleEnhancementStatus workspace id status).enhancements.find? k =
      (store.enhancements.find? k).map
        (setIf (fun e => e.id = id && e.workspaceID = workspace) (Store.setStatus status).set) :=
  Table.find?_update _ _ _ k

/-- The two ways in which a decision changes the store, up to the status of its enhancement: the
row of the rule is written, or it goes. -/
theorem decide_ok {store store' : Store ν} {c : Call ν} (h : store.decide c now = .ok store') :
    ∃ (s₁ : Store ν) (f : RuleEnhancement ν → RuleEnhancement ν),
      store' = s₁.updateRuleEnhancementStatus c.workspace c.e.id c.decision.status ∧
      (∀ k, k ≠ c.ruleID → s₁.rules.find? k = store.rules.find? k) ∧
      Store.Orphans c.ruleID f ∧
      (∀ k, s₁.enhancements.find? k = (store.enhancements.find? k).map f) ∧
      ((c.decision = .accept ∧ ∃ q, s₁.rules.find? c.ruleID = some q ∧ Installs c.e q) ∨
        (c.decision = .reject ∧ s₁.rules.find? c.ruleID = none)) := by
  unfold Store.decide at h
  cases hdecision : c.decision with
  | accept =>
    rw [hdecision] at h
    obtain ⟨s₁, hcreate, h⟩ := bind_eq_ok.mp h
    obtain ⟨⟨rules, rfl, hwrote⟩, -⟩ := Store.createRule_ok hcreate
    refine ⟨_, id, (pure_eq_ok.mp h).symm, fun k hk => hwrote.of_ne (Ne.symm hk),
      fun _ => .inl rfl, fun k => by simp, .inl ⟨rfl, _, hwrote.self, rfl⟩⟩
  | reject =>
    rw [hdecision] at h
    obtain ⟨s₁, hdelete, h⟩ := bind_eq_ok.mp h
    obtain ⟨-, -, -, -, hrules, hgone, ⟨f, hf, hfind⟩, -⟩ := deleteRule_ok hdelete
    exact ⟨s₁, f, (pure_eq_ok.mp h).symm, hrules, hf, hfind, .inr ⟨rfl, hgone⟩⟩

theorem Orderly.drop (h : s.Orderly) (call : Nat) : (s.drop call).Orderly :=
  ⟨fun c hc => h.read c (mem_of_mem_filter hc), h.alone.sublist (filter_sublist.map _)⟩

variable {call : Nat}

theorem commit_keep (ho : s.Orderly) (hd : Decided s₀ s)
    (horderly : orderly cfg s (.decide now call) = true) :
    (s.commit now call).Orderly ∧ Decided s₀ (s.commit now call) := by
  unfold commit
  unfold orderly at horderly
  split
  next => exact ⟨ho, hd⟩
  next c hc =>
    simp only [hc] at horderly
    have hmem := mem_of_find?_eq_some hc
    split
    next => exact ⟨ho, hd⟩
    next =>
    unfold decide
    split
    next => exact ⟨ho.drop c.id, hd.once, hd.found, hd.status, hd.holds, hd.approved⟩
    next store hstore =>
      obtain ⟨s₁, f, rfl, hother, hf, hfind, hrow⟩ := decide_ok hstore
      obtain ⟨hread, hrule, hworkspace, hpending⟩ := ho.read c hmem
      have hfound : s.store.pendingOf c = some c.e := by
        rw [Store.pendingOf, hread, filter_some, if_pos]
        simpa using hworkspace
      -- the enhancement was not decided before
      have hnew : ∀ x ∈ s.log, x.enhancementID ≠ c.e.id := by
        intro x hx he
        obtain ⟨e, hfe, hs⟩ := hd.status x hx
        rw [he, hread] at hfe
        cases hfe
        rw [hpending] at hs
        cases hx' : x.decision <;> simp [hx', Decision.status] at hs
      have hkept : ∀ id e, id ≠ c.e.id → s.store.enhancements.find? id = some e →
          (s₁.updateRuleEnhancementStatus c.workspace c.e.id c.decision.status).enhancements.find? id
            = some (f e) := by
        intro id e hne he
        have hid : (f e).id = id := by
          rw [← show e.id = id from Table.key_of_find? he]
          rcases hf e with hself | ⟨-, hgone⟩
          · rw [hself]
          · rw [hgone]
        rw [find?_setStatus, hfind, he, map_some, map_some, setIf_neg]
        simp [hid, hne]
      refine ⟨⟨fun c' hc' => ?_, (ho.drop c.id).alone⟩, ?_, ?_, ?_, ⟨?_, hd.holds⟩, ?_⟩
      · -- another call is for another rule
        obtain ⟨hin, hid⟩ := mem_filter.mp hc'
        obtain ⟨hread', hrule', hrest⟩ := ho.read c' hin
        have hne : c'.ruleID ≠ c.ruleID := by
          intro he
          obtain rfl := inj_on_of_nodup_map ho.alone hin hmem he
          simp at hid
        have hids : c'.e.id ≠ c.e.id := by
          intro he
          rw [he, hread] at hread'
          have hsame := some.inj hread'
          rw [← hsame, hrule] at hrule'
          exact hne (some.inj hrule').symm
        refine ⟨?_, hrule', hrest⟩
        refine (hkept _ _ hids hread').trans ?_
        rcases hf c'.e with hself | ⟨hthis, -⟩
        · rw [hself]
        · rw [hrule'] at hthis
          exact absurd (some.inj hthis) hne
      · refine nodup_cons.mpr ⟨fun hx => ?_, hd.once⟩
        obtain ⟨x, hx, he⟩ := List.mem_map.mp hx
        exact hnew x hx he
      · intro x hx
        rcases mem_cons.mp hx with rfl | hx
        · exact ⟨c.e, hfound, rfl, hrule, hpending⟩
        · exact hd.found x hx
      · intro x hx
        rcases mem_cons.mp hx with rfl | hx
        · refine ⟨_, by rw [find?_setStatus, hfind, hread]; rfl, ?_⟩
          have hwhere : (f c.e).id = c.e.id ∧ (f c.e).workspaceID = c.workspace := by
            rcases hf c.e with hself | ⟨-, hgone⟩
            · rw [hself]
              exact ⟨rfl, hworkspace⟩
            · rw [hgone]
              exact ⟨rfl, hworkspace⟩
          rw [setIf_pos (by simp [hwhere])]
          rfl
        · obtain ⟨e, he, hs⟩ := hd.status x hx
          refine ⟨f e, hkept _ e (hnew x hx) he, ?_⟩
          rcases hf e with hself | ⟨-, hgone⟩
          · rw [hself, hs]
          · rw [hgone, ← hs]
      · intro y hy
        rcases hrow with ⟨haccept, q, hq, hinstalls⟩ | ⟨hreject, -⟩
        · rw [lastAccepted, find?_cons_of_pos (by simp [haccept])] at hy
          cases hy
          exact ⟨c.e, q, hfound, hq, hinstalls⟩
        · rw [lastAccepted, find?_cons_of_neg (by simp [hreject])] at hy
          have hnone : lastAccepted s.log c.ruleID = none := by
            simpa [hreject] using horderly
          rw [lastAccepted] at hnone
          rw [hnone] at hy
          cases hy
      · intro id q hq ha
        change s₁.rules.find? id = some q at hq
        by_cases hid : id = c.ruleID
        · subst hid
          rcases hrow with ⟨haccept, q', hq', hinstalls⟩ | ⟨-, hgone⟩
          · rw [hq'] at hq
            cases hq
            exact .inr ⟨_, mem_cons_self, haccept, rfl, c.e, hfound, hinstalls⟩
          · rw [hgone] at hq
            cases hq
        · rw [hother id hid] at hq
          rcases hd.approved id q hq ha with hstart | ⟨x, hx, hrest⟩
          · exact .inl hstart
          · exact .inr ⟨x, mem_cons_of_mem _ hx, hrest⟩

theorem getEnhancement_keep {decision : Decision}
    {ruleID enhancementID : String} (ho : s.Orderly) (hd : Decided s₀ s)
    (horderly : orderly cfg s (.getEnhancement workspace call decision ruleID enhancementID)) :
    (s.getEnhancement workspace call decision ruleID enhancementID).Orderly ∧
      Decided s₀ (s.getEnhancement workspace call decision ruleID enhancementID) := by
  unfold getEnhancement
  split
  · exact ⟨ho, hd⟩
  · split
    next => exact ⟨ho, hd⟩
    next e he =>
      split
      next hnewest =>
        simp only [Store.isNewest, Bool.and_eq_true, decide_eq_true_eq] at hnewest
        obtain ⟨⟨⟨hrule, hworkspace⟩, -⟩, hpending⟩ := hnewest
        refine ⟨⟨fun c hc => ?_, ?_⟩, hd.once, hd.found, hd.status, hd.holds, hd.approved⟩
        · rcases mem_append.mp hc with hc | hc
          · exact ho.read c hc
          · rw [mem_singleton.mp hc]
            have hid : e.id = enhancementID := Table.key_of_find? he
            exact ⟨hid ▸ he, hrule, hworkspace, hpending⟩
        · rw [map_append, map_singleton]
          refine ho.alone.append (nodup_singleton _) fun id hin hthis => ?_
          obtain ⟨c, hc, rfl⟩ := List.mem_map.mp hin
          have hne := List.all_eq_true.mp horderly c hc
          exact absurd (mem_singleton.mp hthis) (by simpa using hne)
      next => exact ⟨ho, hd⟩

theorem getRule_keep (ho : s.Orderly) (hd : Decided s₀ s) :
    (s.getRule call).Orderly ∧ Decided s₀ (s.getRule call) := by
  unfold getRule
  split
  · exact ⟨ho, hd⟩
  · split
    · exact ⟨ho.drop call, hd.once, hd.found, hd.status, hd.holds, hd.approved⟩
    next r _ =>
      have hsame : ∀ c : Call ν,
          (if c.id = call then { c with ruleCreatedAt := some r.createdAt } else c).e = c.e ∧
          (if c.id = call then { c with ruleCreatedAt := some r.createdAt } else c).ruleID = c.ruleID ∧
          (if c.id = call then { c with ruleCreatedAt := some r.createdAt } else c).workspace =
            c.workspace := by
        intro c
        split <;> exact ⟨rfl, rfl, rfl⟩
      refine ⟨⟨fun c hc => ?_, ?_⟩, hd.once, hd.found, hd.status, hd.holds, hd.approved⟩
      · obtain ⟨c₀, hc₀, rfl⟩ := List.mem_map.mp hc
        obtain ⟨he, hrule, hworkspace⟩ := hsame c₀
        rw [he, hrule, hworkspace]
        exact ho.read c₀ hc₀
      · rw [List.map_map]
        have hmap : (Call.ruleID ∘ fun c : Call ν =>
            if c.id = call then { c with ruleCreatedAt := some r.createdAt } else c) =
              Call.ruleID := funext fun c => (hsame c).2.1
        change (s.calls.map (Call.ruleID ∘ _)).Nodup
        rw [hmap]
        exact ho.alone

theorem runJob_keep {jobID enhancementID : String}
    {response : Response ν} (ho : s.Orderly) (hd : Decided s₀ s)
    (horderly : orderly cfg s (.runJob workspace now jobID response enhancementID)) :
    (s.step cfg (.runJob workspace now jobID response enhancementID)).Orderly ∧
      Decided s₀ (s.step cfg (.runJob workspace now jobID response enhancementID)) := by
  rw [step]
  unfold Store.runJob
  unfold orderly at horderly
  split
  next => exact ⟨ho, hd⟩
  next j hj =>
    simp only [hj] at horderly
    split
    next =>
      split
      next => exact ⟨ho, hd⟩
      next => exact ⟨⟨ho.read, ho.alone⟩, hd.once, hd.found, hd.status, hd.holds, hd.approved⟩
      next resultRule hresult =>
        simp only [hresult] at horderly
        dsimp only
        cases hpersist : (s.store.updateJob workspace jobID .completed).persistEnhancement workspace
            now enhancementID j.baseline resultRule with
        | error e =>
          exact ⟨⟨ho.read, ho.alone⟩, hd.once, hd.found, hd.status, hd.holds, hd.approved⟩
        | ok s' =>
          have hfree : ∀ r, Rule.read resultRule = some r → ∀ c ∈ s.calls, c.ruleID ≠ r.id := by
            intro r hr c hc
            simp only [hr] at horderly
            simpa using List.all_eq_true.mp horderly c hc
          exact persist_keep (s.store.updateJob workspace jobID .completed) ho hd rfl rfl
            hpersist hfree
    next => exact ⟨ho, hd⟩

/-- An orderly event keeps what has been decided. -/
theorem step_keep {e : Event ν} (ho : s.Orderly) (hd : Decided s₀ s) (horderly : orderly cfg s e) :
    (s.step cfg e).Orderly ∧ Decided s₀ (s.step cfg e) := by
  -- a step that writes jobs only
  have hjobs : ∀ jobs, Orderly { s with store := { s.store with jobs } } ∧
      Decided s₀ { s with store := { s.store with jobs } } := fun _ =>
    ⟨⟨ho.read, ho.alone⟩, hd.once, hd.found, hd.status, hd.holds, hd.approved⟩
  cases e with
  | enhanceRule workspace now jobID baseline =>
    simp only [step, Store.enhanceRule]
    split
    · exact ⟨ho, hd⟩
    · split
      · exact hjobs _
      · exact ⟨ho, hd⟩
  | claimJob workspace jobID =>
    rw [step, Store.claimJob]
    split
    · exact ⟨ho, hd⟩
    · split
      · exact hjobs _
      · exact ⟨ho, hd⟩
  | runJob workspace now jobID response enhancementID => exact runJob_keep ho hd horderly
  | getEnhancement workspace call decision ruleID enhancementID =>
    exact getEnhancement_keep ho hd horderly
  | getRule call => exact getRule_keep ho hd
  | decide now call => exact commit_keep ho hd horderly

def start (store : Store ν) : Server ν := ⟨store, [], []⟩

end Server

/-- In an orderly run every decision takes effect once, on an enhancement that was pending. -/
theorem decisions_once {cfg : Config} {store : Store ν} {es : List (Server.Event ν)}
    (h : Meets (Server.step cfg) (fun s e => orderly cfg s e = true) (.start store) es) :
    Always (Server.step cfg) (Decided store) (.start store) es := by
  have hstart : Server.Orderly (.start store) ∧ Decided store (.start store) :=
    ⟨⟨fun _ h => (by cases h), nodup_nil⟩, nodup_nil, fun _ h => (by cases h),
      fun _ h => (by cases h), trivial, fun _ _ hq _ => .inl hq⟩
  have halways : Always (Server.step cfg) (fun s => s.Orderly ∧ Decided store s) (.start store)
      es := h.always hstart fun s e hinv horderly => Server.step_keep hinv.1 hinv.2 horderly
  exact halways.mono fun _ hinv => hinv.2

namespace Sample

def pendingStore : Store Nat where
  rules := ⟨[{ approvedRule with enabled := false, approvalStatus := approvalPending }], nodup_singleton _⟩
  tasks := .empty
  children := []
  schedules := []
  enhancements := ⟨[⟨"enhancement", "default", some "rule", members "rule", members "rule",
    .pending, 1⟩], nodup_singleton _⟩
  jobs := .empty

def acceptance : List (Server.Event Nat) :=
  [.getEnhancement "default" 1 .accept "rule" "enhancement", .getRule 1, .decide 2 1]

def race : List (Server.Event Nat) :=
  .getEnhancement "default" 0 .reject "rule" "enhancement" :: acceptance ++ [.decide 3 0]

end Sample

theorem acceptance_once : Always (Server.step Sample.config) (Decided Sample.pendingStore)
    (.start Sample.pendingStore) Sample.acceptance :=
  decisions_once ⟨by decide +kernel, by decide +kernel, by decide +kernel, trivial⟩

/-- The enhancement is accepted and rejected. -/
theorem race_twice : ¬∀ (store : Store Nat) (es : List (Server.Event Nat)),
    Always (Server.step Sample.config) (Decided store) (.start store) es := by
  intro h
  have hdecided := (h Sample.pendingStore Sample.race).run
  have hlog : (run (Server.step Sample.config) (.start Sample.pendingStore)
      Sample.race).log.map Entry.enhancementID = ["enhancement", "enhancement"] := by
    decide +kernel
  have honce := hdecided.once
  rw [hlog] at honce
  simp at honce

end Rules

end Aegis
