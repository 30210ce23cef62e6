import Aegis.Engine.Dispatch

/-!
# Engine.PreflightSound

What the preflight promises of a run, and of which rules it keeps the promise.
-/

namespace Aegis

open List Option

namespace Dispatch

open Preflight (Fields Step Rule Hooks ContainerKind actionMayNavigate runsScript walkStep traverse
  traverseCases preflightRule loopKind checkStep gateNavigation)

def Container.reenters : Container → Bool
  | .ifAction | .switch | .group => true
  | .loop type => type == "fixedCount" || type == "forEach"
  | _ => false

structure Sound (log : List LogEvent) : Prop where
  announced : ∀ before w s path after, log = before ++ .leaf w s path :: after →
    actionMayNavigate (fields s) →
    (∃ p, path = some p ∧ .announced p ∈ before) ∧ ∀ c ∈ w, c.reenters
  scripts : ∀ w s path, .leaf w s path ∈ log → runsScript (fields s) → (fields s).trusted
  conditions : ∀ w s, .condition w s ∈ log → (fields s).condition ≠ some "jsTruthy"

def Container.overlooked : Container → Bool
  | .recover | .requestHuman | .circuitBreaker => true
  | .loop type => type == "whileElementNotExists" || type == "whileCondition"
  | _ => false

/-- Nothing navigates where the preflight overlooks it, and `onOpen`, where it does not look at all,
runs no script. -/
structure Clean (rule : Rule) : Prop where
  navigation : ∀ w s, Occurs rule w s → actionMayNavigate (fields s) → ∀ c ∈ w, ¬ c.overlooked
  scripts : ∀ w s, Occurs rule w s → .circuitBreaker ∈ w →
    (runsScript (fields s) → (fields s).trusted) ∧ (fields s).condition ≠ some "jsTruthy"

variable {rule : Rule} {hostname : String → Option String} {domain : List String}
  {containers : List ContainerKind} {path : String} {s s' : Step} {w : List Container}
  {c : Container} {l : List Step}

def kindOf : Container → List ContainerKind
  | .ifAction | .requestHuman => [.ifAction]
  | .switch => [.switch]
  | .group => [.group]
  | .retry => [.retry]
  | .loop type => [loopKind (some type)]
  | .hook _ => [.hook]
  | .circuitBreaker | .recover => []

theorem traverse_nil {i : Nat} (h : traverse hostname domain path containers i l = [])
    (hs : s ∈ l) : ∃ path, walkStep hostname domain path containers s = [] := by
  induction l generalizing i with
  | nil => cases hs
  | cons x l ih =>
    rw [Preflight.traverse] at h
    obtain ⟨hx, hl⟩ := append_eq_nil_iff.mp h
    rcases mem_cons.mp hs with rfl | hs
    · exact ⟨_, hx⟩
    · exact ih hl hs

theorem traverseCases_nil {i : Nat} {cases : List (List Step)}
    (h : traverseCases hostname domain path containers i cases = []) (hl : l ∈ cases) (hs : s ∈ l) :
    ∃ path, walkStep hostname domain path containers s = [] := by
  induction cases generalizing i with
  | nil => cases hl
  | cons x cases ih =>
    rw [traverseCases] at h
    obtain ⟨hx, hcases⟩ := append_eq_nil_iff.mp h
    rcases mem_cons.mp hl with rfl | hl
    · exact traverse_nil hx hs
    · exact ih hcases hl

theorem walkStep_nil (h : walkStep hostname domain path containers s = []) :
    checkStep hostname domain (fields s) path containers = [] := by
  obtain ⟨f, t, e, st, d, op, cs⟩ := s
  rw [walkStep] at h
  simp only [append_eq_nil_iff] at h
  exact h.1.1.1

theorem walkStep_inner (h : walkStep hostname domain path containers s = [])
    (hl : (c, l) ∈ lists s) (hc : c ≠ .circuitBreaker) (hs : s' ∈ l) :
    ∃ path, walkStep hostname domain path (containers ++ kindOf c) s' = [] := by
  obtain ⟨f, t, e, st, d, op, cs⟩ := s
  rw [walkStep] at h
  simp only [append_eq_nil_iff] at h
  obtain ⟨⟨⟨-, hthen⟩, helse⟩, hrest⟩ := h
  rw [lists] at hl
  split at hl
  · simp only [mem_cons, not_mem_nil, or_false, Prod.mk.injEq] at hl
    rcases hl with ⟨rfl, rfl⟩ | ⟨rfl, rfl⟩
    · exact traverse_nil hthen hs
    · exact traverse_nil helse hs
  · split at hl
    · rename_i hloop
      obtain ⟨type, htype, hpair⟩ := List.mem_map.mp hl
      cases hpair
      have hsome : f.type = some type := (filter_eq_some_iff.mp (mem_toList.mp htype)).1
      rw [if_neg (by simp [hloop])] at hrest
      have hkind : Preflight.stepsKind f = [loopKind (some type)] := by
        simp [Preflight.stepsKind, hloop, hsome]
      rw [hkind] at hrest
      exact traverse_nil hrest hs
    · split at hl
      · rename_i hswitch
        rw [if_pos (by simp [hswitch])] at hrest
        obtain ⟨hcases, hdefault⟩ := append_eq_nil_iff.mp hrest
        rcases mem_append.mp hl with hl | hl
        · obtain ⟨l', hl', hpair⟩ := List.mem_map.mp hl
          cases hpair
          exact traverseCases_nil hcases hl' hs
        · cases mem_singleton.mp hl
          exact traverse_nil hdefault hs
      · split at hl
        · rename_i hgroup
          cases mem_singleton.mp hl
          rw [if_neg (by simp [hgroup])] at hrest
          have hkind : Preflight.stepsKind f = [.group] := by simp [Preflight.stepsKind, hgroup]
          rw [hkind] at hrest
          exact traverse_nil hrest hs
        · split at hl
          · rename_i hretry
            cases mem_singleton.mp hl
            rw [if_neg (by simp [hretry])] at hrest
            have hkind : Preflight.stepsKind f = [.retry] := by simp [Preflight.stepsKind, hretry]
            rw [hkind] at hrest
            exact traverse_nil hrest hs
          · split at hl
            · cases mem_singleton.mp hl
              exact traverse_nil hthen hs
            · split at hl
              · exact absurd (Prod.mk.inj (mem_singleton.mp hl)).1 hc
              · split at hl
                · rename_i hrecover
                  cases mem_singleton.mp hl
                  rw [if_neg (by simp [hrecover])] at hrest
                  have hkind : Preflight.stepsKind f = [] := by
                    simp [Preflight.stepsKind, hrecover]
                  rw [hkind] at hrest
                  exact traverse_nil hrest (mem_of_mem_filter hs)
                · cases hl

theorem occurs_walked (hpre : preflightRule hostname rule = []) (h : Occurs rule w s)
    (hw : .circuitBreaker ∉ w) : ∃ path containers,
      walkStep hostname rule.domain path containers s = [] ∧
        ∀ c ∈ w, ∀ kind ∈ kindOf c, kind ∈ containers := by
  induction h with
  | @phase phase s hs =>
    simp only [preflightRule, append_eq_nil_iff] at hpre
    obtain ⟨⟨⟨⟨hmain, hbefore⟩, hafter⟩, herror⟩, hcleanup⟩ := hpre
    have hhook : ∀ p, ∀ c ∈ [Container.hook p], ∀ kind ∈ kindOf c, kind ∈ [ContainerKind.hook] := by
      intro p c hc kind hkind
      rw [mem_singleton.mp hc] at hkind
      exact hkind
    cases phase with
    | main =>
      obtain ⟨path, hwalk⟩ := traverse_nil hmain hs
      exact ⟨path, _, hwalk, fun c hc => absurd hc not_mem_nil⟩
    | beforeAll =>
      obtain ⟨path, hwalk⟩ := traverse_nil hbefore hs
      exact ⟨path, _, hwalk, hhook _⟩
    | afterAll =>
      obtain ⟨path, hwalk⟩ := traverse_nil hafter hs
      exact ⟨path, _, hwalk, hhook _⟩
    | onError =>
      obtain ⟨path, hwalk⟩ := traverse_nil herror hs
      exact ⟨path, _, hwalk, hhook _⟩
    | cleanup =>
      obtain ⟨path, hwalk⟩ := traverse_nil hcleanup hs
      exact ⟨path, _, hwalk, hhook _⟩
  | @inner w s c l s' _ hl hs' ih =>
    rw [mem_append, mem_singleton, not_or] at hw
    obtain ⟨path, containers, hwalk, hkinds⟩ := ih hw.1
    obtain ⟨path', hwalk'⟩ := walkStep_inner hwalk hl (Ne.symm hw.2) hs'
    refine ⟨path', _, hwalk', fun c' hc' kind hkind => ?_⟩
    rcases mem_append.mp hc' with hc' | hc'
    · exact mem_append_left _ (hkinds c' hc' kind hkind)
    · rw [mem_singleton.mp hc'] at hkind
      exact mem_append_right _ hkind

theorem occurs_loop (h : Occurs rule w s) {type : String} (hw : .loop type ∈ w) : type ∈ loopTypes := by
  induction h with
  | @phase phase s _ =>
    cases phase with
    | main => cases hw
    | beforeAll | afterAll | onError | cleanup => cases mem_singleton.mp hw
  | @inner w s c l s' _ hl _ ih =>
    rcases mem_append.mp hw with hw | hw
    · exact ih hw
    · have hc := mem_singleton.mp hw
      subst hc
      obtain ⟨f, t, e, st, d, op, cs⟩ := s
      rw [lists] at hl
      split at hl
      · simp at hl
      · split at hl
        · obtain ⟨type', htype, hpair⟩ := List.mem_map.mp hl
          obtain ⟨hc, -⟩ := Prod.mk.inj hpair
          obtain rfl := Container.loop.inj hc
          have hfilter := (filter_eq_some_iff.mp (mem_toList.mp htype)).2
          exact contains_iff_mem.mp hfilter
        · split at hl
          · simp at hl
          · split at hl
            · simp at hl
            · split at hl
              · simp at hl
              · split at hl
                · simp at hl
                · split at hl
                  · simp at hl
                  · split at hl
                    · simp at hl
                    · cases hl

theorem checkStep_script {f : Fields} (h : checkStep hostname domain f path containers = []) :
    (runsScript f → f.trusted) ∧ f.condition ≠ some "jsTruthy" := by
  simp only [checkStep, append_eq_nil_iff] at h
  obtain ⟨⟨hscript, hcondition⟩, -⟩ := h
  refine ⟨fun hruns => ?_, fun hjs => ?_⟩
  · by_contra htrusted
    rw [if_pos (by simp [hruns, htrusted])] at hscript
    cases hscript
  · rw [if_pos hjs] at hcondition
    cases hcondition

theorem checkStep_containers {f : Fields} (h : checkStep hostname domain f path containers = [])
    (hmay : actionMayNavigate f) :
    .hook ∉ containers ∧ .retry ∉ containers ∧ .whileElementExists ∉ containers := by
  simp only [checkStep, append_eq_nil_iff] at h
  have hgate := h.2
  rw [if_pos hmay, gateNavigation] at hgate
  split at hgate
  · cases hgate
  · split at hgate
    · cases hgate
    · rename_i hhook
      split at hgate
      · cases hgate
      · rename_i hretry
        split at hgate
        · cases hgate
        · rename_i hwhile
          simp only [Bool.or_eq_true, not_or, contains_iff_mem] at hhook hretry hwhile
          exact ⟨hhook.1, hretry, hwhile⟩

/-- In a rule that passes, what may navigate stands in containers that are entered again. -/
theorem occurs_reenters (hpre : preflightRule hostname rule = []) (hclean : Clean rule)
    (h : Occurs rule w s) (hmay : actionMayNavigate (fields s)) : ∀ c ∈ w, c.reenters := by
  have hseen := hclean.navigation w s h hmay
  obtain ⟨path, containers, hwalk, hkinds⟩ := occurs_walked hpre h fun hw => hseen _ hw rfl
  obtain ⟨hhook, hretry, hwhile⟩ := checkStep_containers (walkStep_nil hwalk) hmay
  intro c hc
  have hnot := hseen c hc
  cases c with
  | ifAction | switch | group => rfl
  | retry => exact absurd (hkinds _ hc _ mem_cons_self) hretry
  | hook phase => exact absurd (hkinds _ hc _ mem_cons_self) hhook
  | requestHuman | circuitBreaker | recover => exact absurd rfl hnot
  | loop type =>
    have htype := occurs_loop h hc
    simp only [loopTypes, mem_cons, not_mem_nil, or_false] at htype
    rcases htype with rfl | rfl | rfl | rfl | rfl
    · rfl
    · exact absurd (hkinds _ hc _ mem_cons_self) hwhile
    · exact absurd rfl hnot
    · exact absurd rfl hnot
    · rfl

/-- In a rule that passes, scripts are trusted and no condition is one. -/
theorem occurs_scripts (hpre : preflightRule hostname rule = []) (hclean : Clean rule)
    (h : Occurs rule w s) :
    (runsScript (fields s) → (fields s).trusted) ∧ (fields s).condition ≠ some "jsTruthy" := by
  by_cases hw : .circuitBreaker ∈ w
  · exact hclean.scripts w s h hw
  · obtain ⟨path, containers, hwalk, -⟩ := occurs_walked hpre h hw
    exact checkStep_script (walkStep_nil hwalk)

theorem passes_of_reenters (h : ∀ c ∈ w, c.reenters) : w.all Container.passesOptions := by
  rw [List.all_eq_true]
  intro c hc
  have hc := h c hc
  cases c with
  | ifAction | switch | group | loop type => rfl
  | retry | requestHuman | circuitBreaker | recover | hook phase => cases hc

/-- The preflight is sound for rules in which it overlooks nothing. -/
theorem preflight_sound (hostname : String → Option String) (rule : Rule)
    (hpre : preflightRule hostname rule = []) (hclean : Clean rule) (es : List Event) :
    Sound (run (step rule) init es).log := by
  have hlog := log_ok rule es
  have hmem : ∀ e ∈ (run (step rule) init es).log, ∃ before, EventOk rule before e := by
    intro e he
    obtain ⟨before, after, heq⟩ := append_of_mem he
    exact ⟨before, hlog before e after heq⟩
  refine ⟨fun before w s path after heq hmay => ?_, fun w s path he hscript => ?_, fun w s he => ?_⟩
  · obtain ⟨hoccurs, hannounced⟩ := hlog before _ after heq
    have hreenters := occurs_reenters hpre hclean hoccurs hmay
    exact ⟨hannounced hmay (passes_of_reenters hreenters), hreenters⟩
  · obtain ⟨before, hoccurs, -⟩ := hmem _ he
    exact (occurs_scripts hpre hclean hoccurs).1 hscript
  · obtain ⟨before, hoccurs⟩ := hmem _ he
    exact (occurs_scripts hpre hclean hoccurs).2

section Overlooked

def plain (action : String) : Fields :=
  { action := action, trusted := false, script := none, condition := none, submit := false,
    url := none, type := none, payload := none }

def leafStep (action : String) : Step := .mk (plain action) [] [] [] [] [] []

def ruleOf (steps : List Step) : Rule := ⟨["example.com"], steps, ⟨[], [], [], []⟩⟩

/-- A click in an `if` in the main steps. -/
def checkedClick : Rule :=
  ruleOf [.mk { plain "if" with condition := some "elementExists" } [leafStep "click"] [] [] [] [] []]

def recoverClick : Rule := ruleOf [.mk (plain "recover") [] [] [leafStep "click"] [] [] []]

def whileClick : Rule :=
  ruleOf [.mk { plain "loop" with type := some "whileCondition", condition := some "urlContains" }
    [] [] [leafStep "click"] [] [] []]

def breakerScript : Rule :=
  ruleOf [.mk (plain "circuitBreaker") [] [] [] [] [leafStep "evaluate"] []]

def toMain : List Event := List.replicate 6 (.act 0 .go)

theorem occurs_checkedClick (h : Occurs checkedClick w s) :
    (w = [] ∧ (fields s).action = "if" ∧ lists s = [(.ifAction, [leafStep "click"]), (.ifAction, [])]) ∨
      w = [.ifAction] ∧ s = leafStep "click" := by
  induction h with
  | @phase phase s hs =>
    cases phase with
    | main =>
      refine .inl ⟨rfl, ?_⟩
      rw [mem_singleton.mp hs]
      exact ⟨rfl, by simp [lists, plain]⟩
    | beforeAll | afterAll | onError | cleanup => cases hs
  | @inner w s c l s' _ hl hs' ih =>
    rcases ih with ⟨rfl, -, hlists⟩ | ⟨rfl, rfl⟩
    · rw [hlists] at hl
      simp only [mem_cons, not_mem_nil, or_false, Prod.mk.injEq] at hl
      rcases hl with ⟨rfl, rfl⟩ | ⟨rfl, rfl⟩
      · exact .inr ⟨rfl, mem_singleton.mp hs'⟩
      · cases hs'
    · simp [lists, leafStep, plain] at hl

theorem preflight_sound_checkedClick :
    Sound (run (step checkedClick) init (toMain ++ List.replicate 6 (.act 0 (.pick 0)))).log := by
  refine preflight_sound (fun _ => none) checkedClick ?_ ⟨fun w s h hmay c hc => ?_,
    fun w s h hw => ?_⟩ _
  · rfl
  · rcases occurs_checkedClick h with ⟨rfl, -, -⟩ | ⟨rfl, rfl⟩
    · cases hc
    · rw [mem_singleton.mp hc]
      exact Bool.false_ne_true
  · rcases occurs_checkedClick h with ⟨rfl, -, -⟩ | ⟨rfl, rfl⟩
    · cases hw
    · cases mem_singleton.mp hw

/-- `recover` clicks without a checkpoint, a `while` loop clicks, and `onOpen` runs a script. -/
theorem preflight_overlooks : (preflightRule (fun _ => none) recoverClick = [] ∧
        ¬ Sound (run (step recoverClick) init (toMain ++ [.act 0 .go, .act 0 (.pick 0), .act 0 .go])).log) ∧
      (preflightRule (fun _ => none) whileClick = [] ∧
        ¬ Sound (run (step whileClick) init (toMain ++ List.replicate 4 (.act 0 .go))).log) ∧
      (preflightRule (fun _ => none) breakerScript = [] ∧
        ¬ Sound (run (step breakerScript) init (toMain ++ [.act 0 .go, .act 0 (.pick 0),
          .act 0 .go, .act 0 .go, .act 0 .go])).log) := by
  refine ⟨⟨rfl, fun h => ?_⟩, ⟨rfl, fun h => ?_⟩, ⟨rfl, fun h => ?_⟩⟩
  · have hannounced := h.announced _ [.recover] (leafStep "click") none [] rfl rfl
    obtain ⟨p, hp, -⟩ := hannounced.1
    cases hp
  · have hannounced := h.announced _ [.loop "whileCondition"] (leafStep "click") _ [] rfl rfl
    exact absurd (hannounced.2 _ mem_cons_self) (by decide)
  · have hscript := h.scripts [.circuitBreaker] (leafStep "evaluate") none ?_ rfl
    · cases hscript
    · exact mem_of_getLast? rfl

end Overlooked

end Dispatch

end Aegis
