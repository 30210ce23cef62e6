import Aegis.Gate.Workflow

/-!
# Gate.Replay

What the server approves and what the browser replays: on which of the rules that pass the gate the
preflight finds nothing.
-/

namespace Aegis

open List

namespace Gate

open Preflight (Fields Step ContainerKind actionMayNavigate runsScript hostAllowed startsWith includes
  walkStep traverse traverseCases preflightRule loopKind stepsKind gateNavigation
  checkStaticCrossOrigin)

def walked : Step → List (List ContainerKind × List Step)
  | .mk f thenSteps elseSteps steps default _ cases =>
    [([.ifAction], thenSteps), ([.ifAction], elseSteps)] ++ if f.action == "switch" then
        cases.map (fun l => ([.switch], l)) ++ [([.switch], default)]
      else [(stepsKind f, steps)]

inductive Walked (rule : Preflight.Rule) : List ContainerKind → Step → Prop where
  | main {s} (h : s ∈ rule.steps) : Walked rule [.top] s
  | hook {s} (h : s ∈ rule.hooks.beforeAll ++ rule.hooks.afterAll ++ rule.hooks.onError ++
      rule.hooks.cleanup) : Walked rule [.hook] s
  | inner {containers s kind l s'} (h : Walked rule containers s) (hl : (kind, l) ∈ walked s)
      (hs : s' ∈ l) : Walked rule (containers ++ kind) s'

/-- A literal URL of `navigate` and `reload` is in the domain, as the browser spells it. -/
def LiteralOk (hostname : String → Option String) (domain : List String) (f : Fields) : Prop :=
  f.action = "navigate" ∨ f.action = "reload" → ∀ raw host, f.url = some raw →
    includes raw "\x7b\x7b" = false → includes raw "\x7d\x7d" = false → hostname raw = some host →
      hostAllowed domain host

/-- The browser's preflight has nothing to say of the step. -/
structure Passes (hostname : String → Option String) (domain : List String)
    (containers : List ContainerKind) (f : Fields) : Prop where
  script : runsScript f → f.trusted
  condition : f.condition ≠ some "jsTruthy"
  history : f.action ≠ "goBack" ∧ f.action ≠ "goForward"
  containers : actionMayNavigate f →
    .hook ∉ containers ∧ .retry ∉ containers ∧ .whileElementExists ∉ containers
  literal : LiteralOk hostname domain f

def Placed (path : String) (containers : List ContainerKind) : Prop :=
  .hook ∈ containers ∨ path.toList.head? = some 's'

variable {u : Unicode} {parse : String → Option ParsedURL} {hostname : String → Option String}
  {domain : List String} {path : String} {containers : List ContainerKind} {s s' : Step}
  {l : List Step} {rule : Preflight.Rule} {f : Fields}

theorem Placed.append (h : Placed path containers) (text : String) : Placed (path ++ text) containers := by
  rcases h with h | h
  · exact .inl h
  · refine .inr ?_
    rw [String.toList_append, head?_append, h]
    rfl

theorem Placed.within (h : Placed path containers) (kind : List ContainerKind) :
    Placed path (containers ++ kind) :=
  h.imp (mem_append_left _) id

theorem Placed.hooks (h : Placed path containers) :
    (containers.contains .hook || startsWith path "hooks.") = true ↔ .hook ∈ containers := by
  rw [Bool.or_eq_true, contains_iff_mem]
  refine ⟨fun hor => hor.elim id fun hstarts => ?_, .inl⟩
  rcases h with h | h
  · exact h
  · obtain ⟨rest, hrest⟩ := isPrefixOf_iff_prefix.mp hstarts
    rw [← hrest] at h
    cases h

theorem checkStaticCrossOrigin_nil (path : String) :
    checkStaticCrossOrigin hostname domain f path = [] ↔ LiteralOk hostname domain f := by
  rw [checkStaticCrossOrigin, LiteralOk]
  constructor
  · intro h hact raw host hurl hopen hclose hhost
    rw [if_neg (by rcases hact with hact | hact <;> simp [hact]), hurl] at h
    dsimp only at h
    rw [hopen, hclose, if_neg (by decide), hhost] at h
    by_contra hallowed
    rw [Bool.not_eq_true] at hallowed
    dsimp only at h
    rw [hallowed] at h
    cases h
  · intro h
    split
    · rfl
    · rename_i hact
      have hact : f.action = "navigate" ∨ f.action = "reload" := by
        simpa [imp_iff_or_not, or_comm] using hact
      split
      · rfl
      · rename_i raw hurl
        split
        · rfl
        · rename_i hbraces
          rw [Bool.or_eq_true, not_or, Bool.not_eq_true, Bool.not_eq_true] at hbraces
          split
          · rfl
          · rename_i host hhost
            rw [if_pos (h hact raw host hurl hbraces.1 hbraces.2 hhost)]

theorem gateNavigation_nil (hplaced : Placed path containers) :
    gateNavigation hostname domain f path containers = [] ↔ (f.action ≠ "goBack" ∧ f.action ≠ "goForward") ∧
        (.hook ∉ containers ∧ .retry ∉ containers ∧ .whileElementExists ∉ containers) ∧
          LiteralOk hostname domain f := by
  rw [gateNavigation, ← checkStaticCrossOrigin_nil path]
  by_cases hhistory : f.action = "goBack" ∨ f.action = "goForward"
  · rw [if_pos (by simpa using hhistory)]
    refine ⟨fun h => (by cases h), fun h => ?_⟩
    exact absurd hhistory (not_or.mpr h.1)
  · rw [if_neg (by simpa using hhistory)]
    by_cases hhook : .hook ∈ containers
    · rw [if_pos (hplaced.hooks.mpr hhook)]
      exact ⟨fun h => (by cases h), fun h => absurd hhook h.2.1.1⟩
    · rw [if_neg (fun h => hhook (hplaced.hooks.mp h))]
      by_cases hretry : .retry ∈ containers
      · rw [if_pos (contains_iff_mem.mpr hretry)]
        exact ⟨fun h => (by cases h), fun h => absurd hretry h.2.1.2.1⟩
      · rw [if_neg (fun h => hretry (contains_iff_mem.mp h))]
        by_cases hwhile : .whileElementExists ∈ containers
        · rw [if_pos (contains_iff_mem.mpr hwhile)]
          exact ⟨fun h => (by cases h), fun h => absurd hwhile h.2.1.2.2⟩
        · rw [if_neg (fun h => hwhile (contains_iff_mem.mp h))]
          exact ⟨fun h => ⟨not_or.mp hhistory, ⟨hhook, hretry, hwhile⟩, h⟩, fun h => h.2.2⟩

theorem mayNavigate_of_action (h : f.action = "navigate" ∨ f.action = "reload" ∨
    f.action = "goBack" ∨ f.action = "goForward") : actionMayNavigate f = true := by
  rcases h with h | h | h | h <;> simp [actionMayNavigate, h]

theorem checkStep_nil (hplaced : Placed path containers) :
    Preflight.checkStep hostname domain f path containers = [] ↔ Passes hostname domain containers f := by
  simp only [Preflight.checkStep, append_eq_nil_iff]
  constructor
  · rintro ⟨⟨hscript, hcondition⟩, hgate⟩
    have hgate : actionMayNavigate f → _ := fun hmay =>
      (gateNavigation_nil hplaced).mp (by rwa [if_pos hmay] at hgate)
    refine ⟨fun hruns => ?_, fun hjs => ?_, ?_, fun hmay => (hgate hmay).2.1, fun hact => ?_⟩
    · by_contra htrusted
      rw [if_pos (by simp [hruns, htrusted])] at hscript
      cases hscript
    · rw [if_pos hjs] at hcondition
      cases hcondition
    · refine not_or.mp fun hhistory => ?_
      exact absurd hhistory
        (not_or.mpr (hgate (mayNavigate_of_action (.inr (.inr hhistory)))).1)
    · have hmay := mayNavigate_of_action (hact.elim .inl fun h => .inr (.inl h))
      exact (hgate hmay).2.2 hact
  · intro h
    refine ⟨⟨?_, if_neg h.condition⟩, ?_⟩
    · refine if_neg fun hruns => ?_
      rw [Bool.and_eq_true] at hruns
      rw [h.script hruns.1] at hruns
      exact absurd hruns.2 (by decide)
    · split
      · rename_i hmay
        exact (gateNavigation_nil hplaced).mpr ⟨h.history, h.containers hmay, h.literal⟩
      · rfl

theorem traverse_nil (hplaced : Placed path containers) {i : Nat}
    (h : ∀ s ∈ l, ∀ path, Placed path containers → walkStep hostname domain path containers s = []) :
    traverse hostname domain path containers i l = [] := by
  induction l generalizing i with
  | nil => rw [Preflight.traverse]
  | cons x l ih =>
    obtain ⟨hx, hl⟩ := forall_mem_cons.mp h
    rw [Preflight.traverse, hx _ (((hplaced.append _).append _).append _), ih hl, append_nil]

theorem traverseCases_nil (hplaced : Placed path containers) {ci : Nat} {cases : List (List Step)}
    (h : ∀ l ∈ cases, ∀ s ∈ l, ∀ path, Placed path containers →
      walkStep hostname domain path containers s = []) :
    traverseCases hostname domain path containers ci cases = [] := by
  induction cases generalizing ci with
  | nil => rw [traverseCases]
  | cons x cases ih =>
    obtain ⟨hx, hcases⟩ := forall_mem_cons.mp h
    rw [traverseCases, traverse_nil (((hplaced.append _).append _).append _) hx, ih hcases, append_nil]

theorem mem_of_traverse_nil (hplaced : Placed path containers) {i : Nat}
    (h : traverse hostname domain path containers i l = []) (hs : s ∈ l) :
    ∃ path, Placed path containers ∧ walkStep hostname domain path containers s = [] := by
  induction l generalizing i with
  | nil => cases hs
  | cons x l ih =>
    rw [Preflight.traverse] at h
    obtain ⟨hx, hl⟩ := append_eq_nil_iff.mp h
    rcases mem_cons.mp hs with rfl | hs
    · exact ⟨_, ((hplaced.append _).append _).append _, hx⟩
    · exact ih hl hs

theorem mem_of_traverseCases_nil (hplaced : Placed path containers) {ci : Nat}
    {cases : List (List Step)} (h : traverseCases hostname domain path containers ci cases = [])
    (hl : l ∈ cases) (hs : s ∈ l) :
    ∃ path, Placed path containers ∧ walkStep hostname domain path containers s = [] := by
  induction cases generalizing ci with
  | nil => cases hl
  | cons x cases ih =>
    rw [traverseCases] at h
    obtain ⟨hx, hcases⟩ := append_eq_nil_iff.mp h
    rcases mem_cons.mp hl with rfl | hl
    · exact mem_of_traverse_nil (((hplaced.append _).append _).append _) hx hs
    · exact ih hcases hl

theorem walkStep_nil (hplaced : Placed path containers)
    (hself : Passes hostname domain containers (Dispatch.fields s))
    (hinner : ∀ kind l, (kind, l) ∈ walked s → ∀ s' ∈ l, ∀ path, Placed path (containers ++ kind) →
      walkStep hostname domain path (containers ++ kind) s' = []) :
    walkStep hostname domain path containers s = [] := by
  obtain ⟨f, t, e, st, d, op, cs⟩ := s
  have hlist : ∀ kind l, (kind, l) ∈ walked (.mk f t e st d op cs) → ∀ text,
      traverse hostname domain (path ++ text) (containers ++ kind) 0 l = [] :=
    fun kind l hl text => traverse_nil ((hplaced.append text).within kind) (hinner kind l hl)
  have hcheck : Preflight.checkStep hostname domain f path containers = [] :=
    (checkStep_nil hplaced).mpr hself
  rw [walkStep, hcheck]
  rw [walked] at hlist hinner
  rw [hlist [.ifAction] t (by simp), hlist [.ifAction] e (by simp)]
  by_cases hswitch : (f.action == "switch") = true
  · simp only [if_pos hswitch] at hlist hinner ⊢
    rw [hlist [.switch] d (by simp), traverseCases_nil (hplaced.within _) fun l hl =>
      hinner [.switch] l (by simp [hl])]
    rfl
  · simp only [if_neg hswitch] at hlist ⊢
    rw [hlist (stepsKind f) st (by simp)]
    rfl

theorem walkStep_self (hplaced : Placed path containers)
    (h : walkStep hostname domain path containers s = []) :
    Passes hostname domain containers (Dispatch.fields s) := by
  obtain ⟨f, t, e, st, d, op, cs⟩ := s
  rw [walkStep] at h
  simp only [append_eq_nil_iff] at h
  exact (checkStep_nil hplaced).mp h.1.1.1

theorem walkStep_inner (hplaced : Placed path containers)
    (h : walkStep hostname domain path containers s = []) {kind : List ContainerKind}
    (hl : (kind, l) ∈ walked s) (hs : s' ∈ l) :
    ∃ path, Placed path (containers ++ kind) ∧
      walkStep hostname domain path (containers ++ kind) s' = [] := by
  obtain ⟨f, t, e, st, d, op, cs⟩ := s
  rw [walkStep] at h
  simp only [append_eq_nil_iff] at h
  obtain ⟨⟨⟨-, hthen⟩, helse⟩, hrest⟩ := h
  have hlist : ∀ text, traverse hostname domain (path ++ text) (containers ++ kind) 0 l = [] →
      ∃ path, Placed path (containers ++ kind) ∧
        walkStep hostname domain path (containers ++ kind) s' = [] :=
    fun text h => mem_of_traverse_nil ((hplaced.append text).within kind) h hs
  rw [walked, mem_append] at hl
  rcases hl with hl | hl
  · simp only [mem_cons, not_mem_nil, or_false, Prod.mk.injEq] at hl
    rcases hl with ⟨rfl, rfl⟩ | ⟨rfl, rfl⟩
    · exact hlist _ hthen
    · exact hlist _ helse
  · by_cases hswitch : (f.action == "switch") = true
    · rw [if_pos hswitch] at hl hrest
      obtain ⟨hcases, hdefault⟩ := append_eq_nil_iff.mp hrest
      rcases mem_append.mp hl with hl | hl
      · obtain ⟨l', hl', hpair⟩ := mem_map.mp hl
        cases hpair
        exact mem_of_traverseCases_nil (hplaced.within _) hcases hl' hs
      · cases mem_singleton.mp hl
        exact hlist _ hdefault
    · rw [if_neg hswitch] at hl hrest
      cases mem_singleton.mp hl
      exact hlist _ hrest

theorem walked_nil (hpre : preflightRule hostname rule = []) (h : Walked rule containers s) :
    ∃ path, Placed path containers ∧ walkStep hostname rule.domain path containers s = [] := by
  induction h with
  | main hs =>
    simp only [preflightRule, append_eq_nil_iff] at hpre
    exact mem_of_traverse_nil (.inr rfl) hpre.1.1.1.1 hs
  | hook hs =>
    simp only [preflightRule, append_eq_nil_iff] at hpre
    obtain ⟨⟨⟨⟨-, hbefore⟩, hafter⟩, herror⟩, hcleanup⟩ := hpre
    have hplaced : ∀ path, Placed path [.hook] := fun _ => .inl mem_cons_self
    simp only [mem_append] at hs
    rcases hs with ((hs | hs) | hs) | hs
    · exact mem_of_traverse_nil (hplaced _) hbefore hs
    · exact mem_of_traverse_nil (hplaced _) hafter hs
    · exact mem_of_traverse_nil (hplaced _) herror hs
    · exact mem_of_traverse_nil (hplaced _) hcleanup hs
  | inner _ hl hs ih =>
    obtain ⟨path, hplaced, hwalk⟩ := ih
    exact walkStep_inner hplaced hwalk hl hs

theorem walkStep_of_passes (hpass : ∀ containers s, Walked rule containers s →
      Passes hostname rule.domain containers (Dispatch.fields s)) (s : Step) :
    ∀ containers path, Walked rule containers s → Placed path containers →
      walkStep hostname rule.domain path containers s = [] := by
  induction s using Step.ind with
  | mk f t e st d op cs iht ihe ihs ihd ihop ihc =>
    intro containers path hwalked hplaced
    refine walkStep_nil hplaced (hpass containers _ hwalked) fun kind l hl s' hs path hplaced => ?_
    have hnext := Walked.inner hwalked hl hs
    rw [walked, mem_append] at hl
    rcases hl with hl | hl
    · simp only [mem_cons, not_mem_nil, or_false, Prod.mk.injEq] at hl
      rcases hl with ⟨rfl, rfl⟩ | ⟨rfl, rfl⟩
      · exact iht s' hs _ path hnext hplaced
      · exact ihe s' hs _ path hnext hplaced
    · split at hl
      · rcases mem_append.mp hl with hl | hl
        · obtain ⟨l', hl', hpair⟩ := mem_map.mp hl
          obtain ⟨rfl, rfl⟩ := Prod.mk.inj hpair
          exact ihc l' hl' s' hs _ path hnext hplaced
        · cases mem_singleton.mp hl
          exact ihd s' hs _ path hnext hplaced
      · cases mem_singleton.mp hl
        exact ihs s' hs _ path hnext hplaced

/-- The browser has nothing to say of a rule exactly when every step that it walks passes. -/
theorem preflightRule_nil : preflightRule hostname rule = [] ↔ ∀ containers s, Walked rule containers s →
      Passes hostname rule.domain containers (Dispatch.fields s) := by
  constructor
  · intro hpre containers s h
    obtain ⟨path, hplaced, hwalk⟩ := walked_nil hpre h
    exact walkStep_self hplaced hwalk
  · intro hpass
    have hhook : ∀ path l, (∀ s ∈ l, s ∈ rule.hooks.beforeAll ++ rule.hooks.afterAll ++
        rule.hooks.onError ++ rule.hooks.cleanup) →
        traverse hostname rule.domain path [.hook] 0 l = [] := fun path l hl =>
      traverse_nil (.inl mem_cons_self) fun s hs path hplaced =>
        walkStep_of_passes hpass s _ path (.hook (hl s hs)) hplaced
    simp only [preflightRule, append_eq_nil_iff]
    refine ⟨⟨⟨⟨?_, hhook _ _ ?_⟩, hhook _ _ ?_⟩, hhook _ _ ?_⟩, hhook _ _ ?_⟩
    · exact traverse_nil (.inr rfl) fun s hs path hplaced =>
        walkStep_of_passes hpass s _ path (.main hs) hplaced
    all_goals exact fun s hs => by simp [hs]

/-! ## What the server has looked at -/

theorem walked_branches {kind : List ContainerKind} (hl : (kind, l) ∈ walked s) :
    ∃ b, (b, l) ∈ branches s ∧ .hook ∉ kind ∧ (.whileElementExists ∈ kind ↔ b) := by
  obtain ⟨f, t, e, st, d, op, cs⟩ := s
  rw [walked, mem_append] at hl
  rcases hl with hl | hl
  · simp only [mem_cons, not_mem_nil, or_false, Prod.mk.injEq] at hl
    rcases hl with ⟨rfl, rfl⟩ | ⟨rfl, rfl⟩
    all_goals exact ⟨false, by simp [branches], by decide, by decide⟩
  · split at hl
    · rcases mem_append.mp hl with hl | hl
      · obtain ⟨l', hl', hpair⟩ := mem_map.mp hl
        cases hpair
        exact ⟨false, by simp [branches, hl'], by decide, by decide⟩
      · cases mem_singleton.mp hl
        exact ⟨false, by simp [branches], by decide, by decide⟩
    · cases mem_singleton.mp hl
      refine ⟨f.action == "loop" && f.type == some "whileElementExists", by simp [branches], ?_, ?_⟩
      · rw [stepsKind, loopKind]
        split_ifs <;> decide
      · rw [stepsKind, loopKind]
        by_cases hloop : f.action = "loop"
        · by_cases hwhile : f.type = some "whileElementExists"
          · simp [hloop, hwhile]
          · by_cases hforEach : f.type = some "forEach" <;> simp [hloop, hwhile, hforEach]
        · by_cases hgroup : f.action = "group"
          · simp [hgroup]
          · by_cases hretry : f.action = "retry" <;> simp [hloop, hgroup, hretry]

/-- The server has looked at every step that the preflight comes to, and knew that it was in a hook
or in a `loop.whileElementExists`. -/
theorem walked_validated (hok : validateRuleSteps u parse rule = .ok ())
    (h : Walked rule containers s) : ∃ domains path inHook inWhile,
      validateWorkflowStep u parse domains path inHook inWhile s = .ok () ∧
        (.hook ∈ containers ↔ inHook) ∧ (.whileElementExists ∈ containers ↔ inWhile) := by
  induction h with
  | main hs =>
    obtain ⟨domains, -, hsteps, -⟩ := validateRuleSteps_ok hok
    obtain ⟨path, hstep⟩ := validateWorkflowSteps_mem hsteps hs
    exact ⟨domains, path, false, false, hstep, by decide, by decide⟩
  | @hook s hs =>
    obtain ⟨domains, -, -, hbefore, hafter, herror, hcleanup⟩ := validateRuleSteps_ok hok
    have hstep : ∃ path, validateWorkflowStep u parse domains path true false s = .ok () := by
      simp only [mem_append] at hs
      rcases hs with ((hs | hs) | hs) | hs
      · exact validateWorkflowSteps_mem hbefore hs
      · exact validateWorkflowSteps_mem hafter hs
      · exact validateWorkflowSteps_mem herror hs
      · exact validateWorkflowSteps_mem hcleanup hs
    obtain ⟨path, hstep⟩ := hstep
    exact ⟨domains, path, true, false, hstep, by decide, by decide⟩
  | inner _ hl hs ih =>
    obtain ⟨domains, path, inHook, inWhile, hstep, hhook, hwhile⟩ := ih
    obtain ⟨b, hbranch, hnot, hb⟩ := walked_branches hl
    obtain ⟨path, hstep⟩ := validateWorkflowStep_inner hstep hbranch hs
    refine ⟨domains, path, inHook, inWhile || b, hstep, ?_, ?_⟩
    · rw [mem_append, or_iff_left hnot, hhook]
    · rw [mem_append, hwhile, hb, Bool.or_eq_true]

theorem mayNavigate_server (h : actionMayNavigate f) (hallowed : f.action ∈ allowedWorkflowActions) :
    actionMayNavigateMap f ∨ f.action = "requestHuman" ∨ f.action = "type" ∧ f.submit := by
  have hsubmit : f.action ≠ "submit" := by
    intro hsubmit
    rw [hsubmit] at hallowed
    exact absurd hallowed (by decide)
  simp only [actionMayNavigate, actionMayNavigateMap, Bool.or_eq_true, contains_iff_mem,
    mem_cons, not_mem_nil, or_false, Bool.and_eq_true, beq_iff_eq] at h ⊢
  grind

/-- What the server leaves to the browser: navigation in a `retry`; a human and a submitting `type`
in a hook or a `loop.whileElementExists`; and the literal URLs, against the domains as they are
spelled. -/
structure Replayable (hostname : String → Option String) (rule : Preflight.Rule) : Prop where
  retry : ∀ containers s, Walked rule containers s → actionMayNavigate (Dispatch.fields s) →
    .retry ∉ containers
  unseen : ∀ containers s, Walked rule containers s → (Dispatch.fields s).action = "requestHuman" ∨
      (Dispatch.fields s).action = "type" ∧ (Dispatch.fields s).submit = true →
      .hook ∉ containers ∧ .whileElementExists ∉ containers
  literal : ∀ containers s, Walked rule containers s → LiteralOk hostname rule.domain (Dispatch.fields s)

/-- What the server has validated passes in the browser, if the rule is replayable. -/
theorem passes_of_validated (hok : validateRuleSteps u parse rule = .ok ())
    (h : Walked rule containers s) (hreplay : Replayable hostname rule) :
    Passes hostname rule.domain containers (Dispatch.fields s) := by
  obtain ⟨domains, path, inHook, inWhile, hstep, hhook, hwhile⟩ := walked_validated hok h
  have hcheck := validateWorkflowStep_self hstep
  obtain ⟨hallowed, hforbidden, hunsupported⟩ := checkStep_allowed hcheck
  refine ⟨fun hscript => ?_, checkStep_condition hcheck, ⟨fun hback => ?_, fun hforward => ?_⟩,
    fun hmay => ?_, hreplay.literal _ s h⟩
  · simp only [runsScript, Bool.or_eq_true, beq_iff_eq] at hscript
    rcases hscript with hscript | hscript
    all_goals
      rw [hscript] at hforbidden
      cases hforbidden
  · rw [hback] at hunsupported
    cases hunsupported
  · rw [hforward] at hunsupported
    cases hunsupported
  · have hplace : .hook ∉ containers ∧ .whileElementExists ∉ containers := by
      rcases mayNavigate_server hmay hallowed with hserver | hbrowser
      · obtain ⟨hinHook, hinWhile⟩ := checkStep_navigation hcheck hserver
        rw [hhook, hwhile, hinHook, hinWhile]
        exact ⟨Bool.false_ne_true, Bool.false_ne_true⟩
      · exact hreplay.unseen _ s h hbrowser
    exact ⟨hplace.1, hreplay.retry _ s h hmay, hplace.2⟩

/-- Of the rules that the server approves, the browser replays those that it leaves nothing of. -/
theorem approved_replays (u : Unicode) (parse : String → Option ParsedURL)
    (hostname : String → Option String) (expected : List String) (rule : Preflight.Rule)
    (hok : validateProvisionalRule u parse expected rule = .ok ()) :
    preflightRule hostname rule = [] ↔ Replayable hostname rule := by
  rw [validateProvisionalRule, andThen_ok] at hok
  rw [preflightRule_nil]
  constructor
  · intro hpass
    refine ⟨fun containers s h hmay => ((hpass containers s h).containers hmay).2.1,
      fun containers s h hact => ?_, fun containers s h => (hpass containers s h).literal⟩
    have hmay : actionMayNavigate (Dispatch.fields s) = true := by
      rcases hact with hact | ⟨hact, hsubmit⟩
      · simp [actionMayNavigate, hact]
      · simp [actionMayNavigate, hact, hsubmit]
    obtain ⟨hhook, -, hwhile⟩ := (hpass containers s h).containers hmay
    exact ⟨hhook, hwhile⟩
  · exact fun hreplay containers s h => passes_of_validated hok.1 h hreplay

section Examples

def plain (action : String) : Fields :=
  { action := action, trusted := false, script := none, condition := none, submit := false,
    url := none, type := none, payload := none }

def stepOf (f : Fields) : Step := .mk f [] [] [] [] [] []

def extraction : Step := stepOf (plain "extractText")

def submission : Step := stepOf { plain "sendResult" with payload := some ["title"] }

/-- A rule for a requirement with the one output field `title`. -/
def ruleOf (domain : String) (steps beforeAll : List Step) : Preflight.Rule :=
  ⟨[domain], steps ++ [extraction, submission], ⟨beforeAll, [], [], []⟩⟩

def hostOf (raw : String) : Option String :=
  if raw = "https://example.com/list" then some "example.com" else none

def parseOf (raw : String) : Option ParsedURL := (hostOf raw).map fun host => ⟨true, "https", host⟩

def listing : Step := stepOf { plain "navigate" with url := some "https://example.com/list" }

def retriedClick : Step := .mk (plain "retry") [] [] [stepOf (plain "click")] [] [] []

def confirmation : Step := stepOf { plain "requestHuman" with type := some "confirmation" }

theorem walked_listing (h : Walked (ruleOf "example.com" [listing] []) containers s) :
    containers = [.top] ∧ (s = listing ∨ s = extraction ∨ s = submission) := by
  induction h with
  | main hs =>
    simp only [ruleOf, cons_append, nil_append, mem_cons, not_mem_nil, or_false] at hs
    exact ⟨rfl, hs⟩
  | hook hs => cases hs
  | inner _ hl hs ih =>
    obtain ⟨-, rfl | rfl | rfl⟩ := ih
    · simp [walked, listing, stepOf, plain] at hl
      rcases hl with ⟨-, rfl⟩ | ⟨-, rfl⟩ <;> cases hs
    · simp [walked, extraction, stepOf, plain] at hl
      rcases hl with ⟨-, rfl⟩ | ⟨-, rfl⟩ <;> cases hs
    · simp [walked, submission, stepOf, plain] at hl
      rcases hl with ⟨-, rfl⟩ | ⟨-, rfl⟩ <;> cases hs

theorem approved_replays_listing : preflightRule hostOf (ruleOf "example.com" [listing] []) = [] := by
  refine (approved_replays ⟨Char.toLower⟩ parseOf hostOf ["title"] _ (by decide)).mpr
    ⟨fun ks s h _ => ?_, fun ks s h hact => ?_, fun ks s h hact raw host hurl _ _ hhost => ?_⟩
  · rw [(walked_listing h).1]
    decide
  · rw [(walked_listing h).1]
    exact ⟨by decide, by decide⟩
  · rcases (walked_listing h).2 with rfl | rfl | rfl
    · cases hurl
      cases hhost
      decide
    · cases hurl
    · cases hurl

/-- The server approves of a click in a `retry`, of a human in a hook and of a domain in capitals,
and the browser refuses them. -/
theorem approved_not_replayed :
    (validateProvisionalRule ⟨Char.toLower⟩ parseOf ["title"] (ruleOf "example.com" [retriedClick] []) =
          .ok () ∧
        preflightRule hostOf (ruleOf "example.com" [retriedClick] []) ≠ []) ∧
      (validateProvisionalRule ⟨Char.toLower⟩ parseOf ["title"]
          (ruleOf "example.com" [] [confirmation]) = .ok () ∧
        preflightRule hostOf (ruleOf "example.com" [] [confirmation]) ≠ []) ∧
      (validateProvisionalRule ⟨Char.toLower⟩ parseOf ["title"] (ruleOf "Example.com" [listing] []) =
          .ok () ∧
        preflightRule hostOf (ruleOf "Example.com" [listing] []) ≠ []) := by
  refine ⟨⟨rfl, cons_ne_nil _ _⟩, ⟨rfl, cons_ne_nil _ _⟩, ⟨by decide +kernel, ?_⟩⟩
  decide +kernel

end Examples

end Gate

end Aegis
