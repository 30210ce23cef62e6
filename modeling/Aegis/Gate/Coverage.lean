import Aegis.Engine.Phases
import Aegis.Gate.Workflow

/-!
# Gate.Coverage

Which steps of a rule the gate covers: what a run of a rule that has passed it comes to.
-/

namespace Aegis

open List

namespace Gate

open Dispatch (Container Occurs lists hookSteps within LogEvent Event step init)
open Preflight (Fields Step)

/-- What a run has dispatched is as the gate asks. -/
structure Covered (expected : List String) (log : List LogEvent) : Prop where
  actions : ∀ w s path, .leaf w s path ∈ log → Allowed (Dispatch.fields s).action
  results : .returned true ∈ log → ∀ w s path, .leaf w s path ∈ log →
    (Dispatch.fields s).action = "sendResult" → ExactPayload expected (Dispatch.fields s)
  conditions : ∀ w s, .condition w s ∈ log → (Dispatch.fields s).condition ≠ some "jsTruthy"

/-- The steps in `onOpen`, which no walk of the gate comes to, are as the others. -/
structure OnOpenOk (expected : List String) (rule : Preflight.Rule) : Prop where
  actions : ∀ w s, Occurs rule w s → .circuitBreaker ∈ w → Allowed (Dispatch.fields s).action
  results : ∀ w s, Occurs rule w s → .circuitBreaker ∈ w → .hook .onError ∉ w →
    (Dispatch.fields s).action = "sendResult" → ExactPayload expected (Dispatch.fields s)
  conditions : ∀ w s, Occurs rule w s → .circuitBreaker ∈ w →
    (Dispatch.fields s).condition ≠ some "jsTruthy"

variable {u : Unicode} {parse : String → Option ParsedURL} {expected : List String}
  {rule : Preflight.Rule} {w : List Container} {s s' : Step} {c : Container} {l : List Step}

theorem lists_branches (hl : (c, l) ∈ lists s) (hc : c ≠ .circuitBreaker) (hs : s' ∈ l) :
    ∃ b l', (b, l') ∈ branches s ∧ s' ∈ l' := by
  obtain ⟨f, t, e, st, d, op, cs⟩ := s
  obtain ⟨b, hsteps⟩ : ∃ b, (b, st) ∈ branches (.mk f t e st d op cs) :=
    ⟨f.action == "loop" && f.type == some "whileElementExists", by simp [branches]⟩
  rw [lists] at hl
  split at hl
  · simp only [mem_cons, not_mem_nil, or_false, Prod.mk.injEq] at hl
    rcases hl with ⟨-, rfl⟩ | ⟨-, rfl⟩
    all_goals exact ⟨false, l, by simp [branches], hs⟩
  · split at hl
    · obtain ⟨type, -, hpair⟩ := mem_map.mp hl
      obtain ⟨-, rfl⟩ := Prod.mk.inj hpair
      exact ⟨b, st, hsteps, hs⟩
    · split at hl
      · rcases mem_append.mp hl with hl | hl
        · obtain ⟨l', hl', hpair⟩ := mem_map.mp hl
          obtain ⟨-, rfl⟩ := Prod.mk.inj hpair
          exact ⟨false, l', by simp [branches, hl'], hs⟩
        · cases mem_singleton.mp hl
          exact ⟨false, l, by simp [branches], hs⟩
      · split at hl
        · cases mem_singleton.mp hl
          exact ⟨b, l, hsteps, hs⟩
        · split at hl
          · cases mem_singleton.mp hl
            exact ⟨b, l, hsteps, hs⟩
          · split at hl
            · cases mem_singleton.mp hl
              exact ⟨false, l, by simp [branches], hs⟩
            · split at hl
              · exact absurd (Prod.mk.inj (mem_singleton.mp hl)).1 hc
              · split at hl
                · cases mem_singleton.mp hl
                  exact ⟨b, st, hsteps, mem_of_mem_filter hs⟩
                · cases hl

/-- What a run dispatches outside `onOpen` has been validated. -/
theorem occurs_validated (hok : validateRuleSteps u parse rule = .ok ()) (h : Occurs rule w s)
    (hw : .circuitBreaker ∉ w) : ∃ domains path inHook inWhile,
      validateWorkflowStep u parse domains path inHook inWhile s = .ok () := by
  induction h with
  | @phase phase s hs =>
    obtain ⟨domains, -, hmain, hbefore, hafter, herror, hcleanup⟩ := validateRuleSteps_ok hok
    cases phase with
    | main => exact ⟨domains, (validateWorkflowSteps_mem hmain hs).imp fun _ h => ⟨_, _, h⟩⟩
    | beforeAll => exact ⟨domains, (validateWorkflowSteps_mem hbefore hs).imp fun _ h => ⟨_, _, h⟩⟩
    | afterAll => exact ⟨domains, (validateWorkflowSteps_mem hafter hs).imp fun _ h => ⟨_, _, h⟩⟩
    | onError => exact ⟨domains, (validateWorkflowSteps_mem herror hs).imp fun _ h => ⟨_, _, h⟩⟩
    | cleanup => exact ⟨domains, (validateWorkflowSteps_mem hcleanup hs).imp fun _ h => ⟨_, _, h⟩⟩
  | @inner w s c l s' _ hl hs' ih =>
    rw [mem_append, mem_singleton, not_or] at hw
    obtain ⟨domains, path, inHook, inWhile, hstep⟩ := ih hw.1
    obtain ⟨b, l', hbranch, hmem⟩ := lists_branches hl (Ne.symm hw.2) hs'
    obtain ⟨path, hstep⟩ := validateWorkflowStep_inner hstep hbranch hmem
    exact ⟨domains, path, _, _, hstep⟩

/-- A result is submitted as the contract asks, outside `onOpen` and `onError`. -/
theorem occurs_result (hok : validateResultContract expected rule = .ok ()) (h : Occurs rule w s)
    (hw : .circuitBreaker ∉ w) (hhook : .hook .onError ∉ w) :
    ∃ path, validateResultStep expected path s = .ok () := by
  induction h with
  | @phase phase s hs =>
    simp only [validateResultContract, andThen_ok] at hok
    obtain ⟨hmain, hbefore, hafter, hcleanup, -⟩ := hok
    cases phase with
    | main => exact validateResultSteps_mem hmain hs
    | beforeAll => exact validateResultSteps_mem hbefore hs
    | afterAll => exact validateResultSteps_mem hafter hs
    | onError => exact absurd mem_cons_self hhook
    | cleanup => exact validateResultSteps_mem hcleanup hs
  | @inner w s c l s' _ hl hs' ih =>
    rw [mem_append, mem_singleton, not_or] at hw
    rw [mem_append, not_or] at hhook
    obtain ⟨path, hstep⟩ := ih hw.1 hhook.1
    obtain ⟨b, l', hbranch, hmem⟩ := lists_branches hl (Ne.symm hw.2) hs'
    exact validateResultStep_inner hstep hbranch hmem

/-- Whatever a run of a rule that the gate lets pass comes to is as the gate asks, if that is so of
what stands in `onOpen`. -/
theorem gate_covers (u : Unicode) (parse : String → Option ParsedURL) (expected : List String)
    (rule : Preflight.Rule) (hok : validateProvisionalRule u parse expected rule = .ok ())
    (honOpen : OnOpenOk expected rule) (es : List Event) :
    Covered expected (run (step rule) init es).log := by
  rw [validateProvisionalRule, andThen_ok] at hok
  have hlog := Dispatch.log_ok rule es
  refine ⟨fun w s path he => ?_, fun hret w s path he hact => ?_, fun w s he => ?_⟩
  · obtain ⟨before, after, heq⟩ := append_of_mem he
    have hoccurs := (hlog before _ after heq).1
    by_cases hw : .circuitBreaker ∈ w
    · exact honOpen.actions w s hoccurs hw
    · obtain ⟨_, _, _, _, hstep⟩ := occurs_validated hok.1 hoccurs hw
      exact checkStep_allowed (validateWorkflowStep_self hstep)
  · obtain ⟨hoccurs, hhook⟩ := Dispatch.leaf_of_success hret he
    by_cases hw : .circuitBreaker ∈ w
    · exact honOpen.results w s hoccurs hw hhook hact
    · obtain ⟨path, hstep⟩ := occurs_result hok.2 hoccurs hw hhook
      exact checkPayload_exact (validateResultStep_self hstep) hact
  · obtain ⟨before, after, heq⟩ := append_of_mem he
    have hoccurs : Occurs rule w s := hlog before _ after heq
    by_cases hw : .circuitBreaker ∈ w
    · exact honOpen.conditions w s hoccurs hw
    · obtain ⟨_, _, _, _, hstep⟩ := occurs_validated hok.1 hoccurs hw
      exact checkStep_condition (validateWorkflowStep_self hstep)

section Examples

def act (action : String) : Step :=
  .mk { action := action, trusted := false, script := none, condition := none, submit := false,
        url := none, type := none, payload := none } [] [] [] [] [] []

def sendTitle : Step :=
  .mk { action := "sendResult", trusted := false, script := none, condition := none,
        submit := false, url := none, type := none, payload := some ["title"] } [] [] [] [] [] []

def breaker (onOpen : List Step) : Step :=
  .mk { action := "circuitBreaker", trusted := false, script := none, condition := none,
        submit := false, url := none, type := none, payload := none } [] [] [] [] onOpen []

def breakerRule (onOpen : List Step) : Preflight.Rule :=
  ⟨["example.com"], [breaker onOpen, sendTitle], ⟨[], [], [], []⟩⟩

theorem occurs_breaker (h : Occurs (breakerRule [act "sendLog"]) w s) :
    w = [] ∧ (s = breaker [act "sendLog"] ∨ s = sendTitle) ∨ w = [.circuitBreaker] ∧ s = act "sendLog" := by
  induction h with
  | @phase phase s hs =>
    cases phase with
    | main =>
      simp only [hookSteps, breakerRule, mem_cons, not_mem_nil, or_false] at hs
      exact .inl ⟨rfl, hs⟩
    | beforeAll | afterAll | onError | cleanup => cases hs
  | @inner w s c l s' _ hl hs' ih =>
    rcases ih with ⟨rfl, rfl | rfl⟩ | ⟨rfl, rfl⟩
    · simp only [lists, breaker] at hl
      cases mem_singleton.mp hl
      exact .inr ⟨rfl, mem_singleton.mp hs'⟩
    · simp [lists, sendTitle] at hl
    · simp [lists, act] at hl

theorem gate_covers_breaker : Covered ["title"]
      (run (step (breakerRule [act "sendLog"])) init (List.replicate 12 (.act 0 .go))).log := by
  have hinside : ∀ w s, Occurs (breakerRule [act "sendLog"]) w s → .circuitBreaker ∈ w →
      s = act "sendLog" := by
    intro w s h hw
    rcases occurs_breaker h with ⟨rfl, -⟩ | ⟨-, rfl⟩
    · cases hw
    · rfl
  refine gate_covers ⟨Char.toLower⟩ (fun _ => none) ["title"] _ rfl ⟨fun w s h hw => ?_,
    fun w s h hw _ hact => ?_, fun w s h hw => ?_⟩ _
  · rw [hinside w s h hw]
    exact ⟨by decide, rfl, rfl⟩
  · rw [hinside w s h hw] at hact
    exact absurd hact (by decide)
  · rw [hinside w s h hw]
    exact nofun

/-- The gate lets a rule pass that sets a cookie when the breaker opens. -/
theorem gate_overlooks : validateProvisionalRule ⟨Char.toLower⟩ (fun _ => none) ["title"]
        (breakerRule [act "setCookie"]) = .ok () ∧
      ¬ Covered ["title"] (run (step (breakerRule [act "setCookie"])) init
        (List.replicate 7 (.act 0 .go) ++ [.act 0 (.pick 0)] ++ List.replicate 3 (.act 0 .go))).log := by
  refine ⟨rfl, fun h => ?_⟩
  have hallowed := h.actions [.circuitBreaker] (act "setCookie") none (mem_of_getLast? rfl)
  exact absurd hallowed.2.1 (by decide)

end Examples

end Gate

end Aegis
