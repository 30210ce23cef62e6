import Aegis.Engine.Dispatch
import Aegis.Recording.Sanitize

/-!
# Gate.Workflow

The gate of the server for rules that a provider wrote: the walks of `rule/dsl_workflow.go` over
their steps.

A list that is absent is empty here; values that are no list or no step where one must stand are
refused before anything else, and left out. What `url.Parse` makes of a URL is a parameter, and so
is `strings.ToLower` beyond ASCII. Left out are the checks that do not look at which steps there
are: those of the embedded JSON schema, of selectors and of references.
-/

namespace Aegis

open List

namespace Gate

open Preflight (Fields Step startsWith endsWith includes)

/-- `ErrUnsafeProvisionalRule` or `ErrInvalidProvisionalRule`, with a text. -/
structure RuleError where
  isUnsafe : Bool
  text : String
deriving DecidableEq

abbrev Check := Except RuleError Unit

def andThen (a b : Check) : Check :=
  match a with
  | .ok _ => b
  | .error e => .error e

def invalid (text : String) : Check := .error ⟨false, text⟩
def unsafeRule (text : String) : Check := .error ⟨true, text⟩

def allowedWorkflowActions : List String :=
  ["abort", "blockRequest", "blur", "break", "captureRequest", "check", "checkQuota", "checkpoint",
    "circuitBreaker", "cleanup", "clear", "click", "closeTab", "deduplicate", "doubleClick",
    "dragAndDrop", "dragBy", "emitEvent", "exit", "extract", "extractAttribute", "extractHtml",
    "extractJson", "extractPageInfo", "extractTable", "extractText", "filter", "flushResults",
    "focus", "goBack", "goForward", "group", "handleDialog", "handleDownload", "heartbeat", "hover",
    "hoverClick", "if", "keyCombination", "logMetric", "loop", "merge", "middleClick", "moveMouse",
    "navigate", "openTab", "pageDown", "parallel", "paste", "pressAndHold", "pressKey", "readPause",
    "recover", "reload", "removeElement", "requestHuman", "retry", "rightClick", "saveSnapshot",
    "screenshot", "scrollBy", "scrollIntoView", "scrollTo", "scrollToBottom", "scrollToTop",
    "select", "selectRadio", "sendHtml", "sendLog", "sendResult", "sendScreenshot", "setAttribute",
    "setLanguage", "setStyle", "setTag", "setUserAgent", "setViewport", "sleep", "slide", "switch",
    "switchTab", "tabToNext", "transform", "type", "typeAndSelect", "updateStatus", "validateData",
    "waitFor", "waitForElementHidden", "waitForElementVisible", "waitForNetworkIdle", "waitForText",
    "waitForTimeout", "waitForUrl"]

def forbiddenWorkflowActions : List (String × String) :=
  [("evaluate", "arbitrary JavaScript is disabled"),
    ("waitForFunction", "arbitrary JavaScript is disabled"),
    ("solveCaptcha", "CAPTCHA bypass is prohibited"),
    ("setCookie", "browser credentials must remain in the named profile"),
    ("setLocalStorage", "browser credentials must remain in the named profile"),
    ("setExtraHeaders", "authorization material must not be embedded in a rule"),
    ("refreshSession", "session credentials must remain in the named profile"),
    ("uploadFile", "file upload requires explicit policy approval")]

def historyReason : String :=
  "browser replay cannot validate the history destination before navigation; use an observed " ++
    "same-origin navigate or interaction instead"

def replayUnsupportedWorkflowActions : List (String × String) :=
  [("goBack", historyReason), ("goForward", historyReason),
    ("setTag", "setTag is legacy log-only metadata; v2 browser replay cannot validate tag scope " ++
      "or checkpoint/navigation resume semantics, so remove setTag from production workflows"),
    ("waitForNetworkIdle", "browser resource observation cannot prove that already-started " ++
      "requests have finished; use waitForElementVisible, waitForElementHidden, waitForText, or " ++
      "waitForTimeout")]

def actionMayNavigateMap (f : Fields) : Bool :=
  ["navigate", "reload", "goBack", "goForward", "openTab", "click", "doubleClick", "middleClick",
    "rightClick", "hoverClick", "pressKey", "keyCombination", "typeAndSelect"].contains f.action

/-- What `url.Parse` finds. -/
structure ParsedURL where
  isAbs : Bool
  scheme : String
  hostname : String

section Walk

variable (u : Unicode) (parse : String → Option ParsedURL) (allowedDomains : List String)

def domainAllowed (host : String) : Bool :=
  let host := Sanitize.toLower u (trimSpace host)
  allowedDomains.any fun domain => host == domain || endsWith host ("." ++ domain)

def validateStaticNavigation (f : Fields) (path : String) : Check :=
  if f.action != "navigate" && f.action != "openTab" then .ok ()
  else
    let raw := f.url.getD ""
    if raw == "" || includes raw "\x7b\x7b" || includes raw "\x7d\x7d" then .ok ()
    else match parse raw with
      | none => invalid (path ++ " contains an invalid navigation URL")
      | some parsed =>
        if !parsed.isAbs then .ok ()
        else if parsed.scheme != "http" && parsed.scheme != "https" then
          unsafeRule (path ++ " navigation must use HTTP(S)")
        else if !domainAllowed u allowedDomains parsed.hostname then
          unsafeRule (path ++ " navigates outside approved domains")
        else .ok ()

def checkAction (action path : String) : Check :=
  if action == "" then invalid (path ++ ".action is required")
  else match forbiddenWorkflowActions.lookup action with
    | some reason => unsafeRule (path ++ " action \"" ++ action ++ "\": " ++ reason)
    | none =>
      match replayUnsupportedWorkflowActions.lookup action with
      | some reason => invalid (path ++ " action \"" ++ action ++ "\": " ++ reason)
      | none =>
        if !allowedWorkflowActions.contains action then
          invalid (path ++ " has unknown action \"" ++ action ++ "\"")
        else .ok ()

def checkNavigation (f : Fields) (path : String) (inHook inWhileElementExists : Bool) : Check :=
  if !actionMayNavigateMap f then .ok ()
  else if inHook then invalid ("navigation inside " ++ path ++ " cannot be checkpointed")
  else if inWhileElementExists then
    invalid ("navigation inside loop.whileElementExists cannot be replayed because historical DOM " ++
      "cannot be re-entered at " ++ path)
  else validateStaticNavigation u parse allowedDomains f path

def checkStep (f : Fields) (path : String) (inHook inWhileElementExists : Bool) : Check :=
  andThen (checkAction f.action path)
    (andThen (if f.condition = some "jsTruthy" then
        unsafeRule (path ++ ".condition uses disabled JavaScript") else .ok ())
      (checkNavigation u parse allowedDomains f path inHook inWhileElementExists))

mutual

def validateWorkflowStep (path : String) (inHook inWhileElementExists : Bool) : Step → Check
  | .mk f thenSteps elseSteps steps default _ cases =>
    andThen (checkStep u parse allowedDomains f path inHook inWhileElementExists)
      (andThen (validateWorkflowSteps (path ++ ".then") inHook inWhileElementExists 0 thenSteps)
        (andThen (validateWorkflowSteps (path ++ ".else") inHook inWhileElementExists 0 elseSteps)
          (andThen (validateWorkflowSteps (path ++ ".steps") inHook
              (inWhileElementExists || (f.action == "loop" && f.type == some "whileElementExists"))
              0 steps)
            (andThen (validateWorkflowSteps (path ++ ".default") inHook inWhileElementExists 0 default)
              (validateWorkflowCases path inHook inWhileElementExists 0 cases)))))

def validateWorkflowSteps (path : String) (inHook inWhileElementExists : Bool) (i : Nat) : List Step → Check
  | [] => .ok ()
  | step :: rest =>
    andThen (validateWorkflowStep (path ++ "[" ++ toString i ++ "]") inHook inWhileElementExists step)
      (validateWorkflowSteps path inHook inWhileElementExists (i + 1) rest)

def validateWorkflowCases (path : String) (inHook inWhileElementExists : Bool) (ci : Nat) :
    List (List Step) → Check
  | [] => .ok ()
  | steps :: cases =>
    andThen (validateWorkflowSteps (path ++ ".cases[" ++ toString ci ++ "].steps") inHook
        inWhileElementExists 0 steps)
      (validateWorkflowCases path inHook inWhileElementExists (ci + 1) cases)

end

end Walk

def ruleDomains (u : Unicode) (domain : List String) : Option (List String) :=
  let domains := domain.map fun d => Sanitize.toLower u (trimSpace d)
  if domains.isEmpty || domains.contains "" then none else some domains

/-- The walks of `validateWorkflowRule` over the steps and the hooks. -/
def validateRuleSteps (u : Unicode) (parse : String → Option ParsedURL) (rule : Preflight.Rule) : Check :=
  match ruleDomains u rule.domain with
  | none => invalid "rule domain must be a string or non-empty string array"
  | some domains =>
    if rule.steps.isEmpty then invalid "steps must not be empty"
    else
      andThen (validateWorkflowSteps u parse domains "steps" false false 0 rule.steps)
        (andThen (validateWorkflowSteps u parse domains "hooks.beforeAll" true false 0 rule.hooks.beforeAll)
          (andThen (validateWorkflowSteps u parse domains "hooks.afterAll" true false 0 rule.hooks.afterAll)
            (andThen (validateWorkflowSteps u parse domains "hooks.onError" true false 0 rule.hooks.onError)
              (validateWorkflowSteps u parse domains "hooks.cleanup" true false 0 rule.hooks.cleanup))))

/-- Of `validateCollectionResultContract`, the names in the payload of a step. -/
def checkPayload (expected : List String) (f : Fields) (path : String) : Check :=
  if f.action != "sendResult" then .ok ()
  else match f.payload with
    | none => invalid (path ++ ".payload must be an object")
    | some names =>
      match names.find? fun name => !expected.contains name with
      | some name => invalid (path ++ ".payload has undeclared output field \"" ++ name ++ "\"")
      | none =>
        match expected.find? fun name => !names.contains name with
        | some name =>
          invalid (path ++ ".payload is missing confirmed output field \"" ++ name ++ "\"")
        | none => .ok ()

section Result

variable (expected : List String)

mutual

def validateResultStep (path : String) : Step → Check
  | .mk f thenSteps elseSteps steps default _ cases =>
    andThen (checkPayload expected f path)
      (andThen (validateResultSteps (path ++ ".then") 0 thenSteps)
        (andThen (validateResultSteps (path ++ ".else") 0 elseSteps)
          (andThen (validateResultSteps (path ++ ".steps") 0 steps)
            (andThen (validateResultSteps (path ++ ".default") 0 default)
              (validateResultCases path 0 cases)))))

def validateResultSteps (path : String) (i : Nat) : List Step → Check
  | [] => .ok ()
  | step :: rest =>
    andThen (validateResultStep (path ++ "[" ++ toString i ++ "]") step)
      (validateResultSteps path (i + 1) rest)

def validateResultCases (path : String) (ci : Nat) : List (List Step) → Check
  | [] => .ok ()
  | steps :: cases =>
    andThen (validateResultSteps (path ++ ".cases[" ++ toString ci ++ "].steps") 0 steps)
      (validateResultCases path (ci + 1) cases)

end

end Result

mutual

def foundInStep : Step → Nat
  | .mk f thenSteps elseSteps steps default _ cases =>
    (if f.action == "sendResult" then 1 else 0) + foundInSteps thenSteps + foundInSteps elseSteps +
      foundInSteps steps + foundInSteps default + foundInCases cases

def foundInSteps : List Step → Nat
  | [] => 0
  | step :: rest => foundInStep step + foundInSteps rest

def foundInCases : List (List Step) → Nat
  | [] => 0
  | steps :: cases => foundInSteps steps + foundInCases cases

end

/-- The walk of `validateCollectionResultContract`; `onError` is no part of a success. -/
def validateResultContract (expected : List String) (rule : Preflight.Rule) : Check :=
  andThen (validateResultSteps expected "steps" 0 rule.steps)
    (andThen (validateResultSteps expected "hooks.beforeAll" 0 rule.hooks.beforeAll)
      (andThen (validateResultSteps expected "hooks.afterAll" 0 rule.hooks.afterAll)
        (andThen (validateResultSteps expected "hooks.cleanup" 0 rule.hooks.cleanup)
          (if foundInSteps rule.steps + foundInSteps rule.hooks.beforeAll +
              foundInSteps rule.hooks.afterAll + foundInSteps rule.hooks.cleanup = 0 then
            invalid ("successful execution must submit the confirmed output fields with " ++ "sendResult")
          else .ok ()))))

/-- Of `ValidateProvisionalRule`, what it asks of which steps there are; `expected` are the names of
the output fields of the requirement. -/
def validateProvisionalRule (u : Unicode) (parse : String → Option ParsedURL)
    (expected : List String) (rule : Preflight.Rule) : Check :=
  andThen (validateRuleSteps u parse rule) (validateResultContract expected rule)

/-! ## What passes -/

variable {u : Unicode} {parse : String → Option ParsedURL} {allowedDomains expected : List String}
  {path : String} {inHook inWhile : Bool} {s s' : Step} {l : List Step} {rule : Preflight.Rule}

@[simp] theorem andThen_ok {a b : Check} : andThen a b = .ok () ↔ a = .ok () ∧ b = .ok () := by
  cases a with
  | ok x | error e => simp [andThen]

/-- The lists of steps in a step that the server walks, and whether each is what a
`loop.whileElementExists` runs. -/
def branches : Step → List (Bool × List Step)
  | .mk f thenSteps elseSteps steps default _ cases =>
    (false, thenSteps) :: (false, elseSteps) ::
      (f.action == "loop" && f.type == some "whileElementExists", steps) :: (false, default) ::
      cases.map fun l => (false, l)

theorem validateWorkflowSteps_mem {i : Nat}
    (h : validateWorkflowSteps u parse allowedDomains path inHook inWhile i l = .ok ())
    (hs : s ∈ l) :
    ∃ path, validateWorkflowStep u parse allowedDomains path inHook inWhile s = .ok () := by
  induction l generalizing i with
  | nil => cases hs
  | cons x l ih =>
    rw [validateWorkflowSteps, andThen_ok] at h
    rcases mem_cons.mp hs with rfl | hs
    · exact ⟨_, h.1⟩
    · exact ih h.2 hs

theorem validateWorkflowCases_mem {ci : Nat} {cases : List (List Step)}
    (h : validateWorkflowCases u parse allowedDomains path inHook inWhile ci cases = .ok ())
    (hl : l ∈ cases) (hs : s ∈ l) :
    ∃ path, validateWorkflowStep u parse allowedDomains path inHook inWhile s = .ok () := by
  induction cases generalizing ci with
  | nil => cases hl
  | cons x cases ih =>
    rw [validateWorkflowCases, andThen_ok] at h
    rcases mem_cons.mp hl with rfl | hl
    · exact validateWorkflowSteps_mem h.1 hs
    · exact ih h.2 hl

theorem validateWorkflowStep_self
    (h : validateWorkflowStep u parse allowedDomains path inHook inWhile s = .ok ()) :
    checkStep u parse allowedDomains (Dispatch.fields s) path inHook inWhile = .ok () := by
  obtain ⟨f, t, e, st, d, op, cs⟩ := s
  rw [validateWorkflowStep, andThen_ok] at h
  exact h.1

theorem validateWorkflowStep_inner {b : Bool}
    (h : validateWorkflowStep u parse allowedDomains path inHook inWhile s = .ok ())
    (hl : (b, l) ∈ branches s) (hs : s' ∈ l) :
    ∃ path, validateWorkflowStep u parse allowedDomains path inHook (inWhile || b) s' = .ok () := by
  obtain ⟨f, t, e, st, d, op, cs⟩ := s
  rw [validateWorkflowStep] at h
  simp only [andThen_ok] at h
  obtain ⟨-, hthen, helse, hsteps, hdefault, hcases⟩ := h
  simp only [branches, mem_cons, mem_map, Prod.mk.injEq] at hl
  rcases hl with ⟨rfl, rfl⟩ | ⟨rfl, rfl⟩ | ⟨rfl, rfl⟩ | ⟨rfl, rfl⟩ | ⟨l', hl', rfl, rfl⟩
  · rw [Bool.or_false]
    exact validateWorkflowSteps_mem hthen hs
  · rw [Bool.or_false]
    exact validateWorkflowSteps_mem helse hs
  · exact validateWorkflowSteps_mem hsteps hs
  · rw [Bool.or_false]
    exact validateWorkflowSteps_mem hdefault hs
  · rw [Bool.or_false]
    exact validateWorkflowCases_mem hcases hl' hs

theorem validateRuleSteps_ok (h : validateRuleSteps u parse rule = .ok ()) :
    ∃ domains, ruleDomains u rule.domain = some domains ∧
      validateWorkflowSteps u parse domains "steps" false false 0 rule.steps = .ok () ∧
      validateWorkflowSteps u parse domains "hooks.beforeAll" true false 0 rule.hooks.beforeAll = .ok () ∧
      validateWorkflowSteps u parse domains "hooks.afterAll" true false 0 rule.hooks.afterAll = .ok () ∧
      validateWorkflowSteps u parse domains "hooks.onError" true false 0 rule.hooks.onError = .ok () ∧
      validateWorkflowSteps u parse domains "hooks.cleanup" true false 0 rule.hooks.cleanup = .ok () := by
  rw [validateRuleSteps] at h
  split at h
  · cases h
  · rename_i domains hdomains
    split at h
    · cases h
    · simp only [andThen_ok] at h
      exact ⟨domains, hdomains, h⟩

/-! What the checks of a step say. -/

/-- The action is known, not forbidden, and replayed. -/
def Allowed (action : String) : Prop :=
  action ∈ allowedWorkflowActions ∧ forbiddenWorkflowActions.lookup action = none ∧
    replayUnsupportedWorkflowActions.lookup action = none

theorem checkAction_allowed {action : String} (h : checkAction action path = .ok ()) : Allowed action := by
  rw [checkAction] at h
  split at h
  · cases h
  · split at h
    · cases h
    · rename_i hforbidden
      split at h
      · cases h
      · rename_i hunsupported
        split at h
        · cases h
        · rename_i hallowed
          exact ⟨by simpa using hallowed, hforbidden, hunsupported⟩

variable {f : Fields}

theorem checkStep_allowed
    (h : checkStep u parse allowedDomains f path inHook inWhile = .ok ()) :
    Allowed f.action := by
  rw [checkStep, andThen_ok] at h
  exact checkAction_allowed h.1

theorem checkStep_condition
    (h : checkStep u parse allowedDomains f path inHook inWhile = .ok ()) :
    f.condition ≠ some "jsTruthy" := by
  intro hjs
  simp only [checkStep, andThen_ok, if_pos hjs] at h
  cases h.2.1

theorem checkStep_navigation
    (h : checkStep u parse allowedDomains f path inHook inWhile = .ok ())
    (hmay : actionMayNavigateMap f) : inHook = false ∧ inWhile = false := by
  simp only [checkStep, andThen_ok, checkNavigation, hmay] at h
  obtain ⟨-, -, h⟩ := h
  cases inHook with
  | true => cases h
  | false =>
    cases inWhile with
    | true => cases h
    | false => exact ⟨rfl, rfl⟩

theorem validateResultSteps_mem {i : Nat}
    (h : validateResultSteps expected path i l = .ok ()) (hs : s ∈ l) :
    ∃ path, validateResultStep expected path s = .ok () := by
  induction l generalizing i with
  | nil => cases hs
  | cons x l ih =>
    rw [validateResultSteps, andThen_ok] at h
    rcases mem_cons.mp hs with rfl | hs
    · exact ⟨_, h.1⟩
    · exact ih h.2 hs

theorem validateResultCases_mem {ci : Nat} {cases : List (List Step)}
    (h : validateResultCases expected path ci cases = .ok ()) (hl : l ∈ cases) (hs : s ∈ l) :
    ∃ path, validateResultStep expected path s = .ok () := by
  induction cases generalizing ci with
  | nil => cases hl
  | cons x cases ih =>
    rw [validateResultCases, andThen_ok] at h
    rcases mem_cons.mp hl with rfl | hl
    · exact validateResultSteps_mem h.1 hs
    · exact ih h.2 hl

theorem validateResultStep_self (h : validateResultStep expected path s = .ok ()) :
    checkPayload expected (Dispatch.fields s) path = .ok () := by
  obtain ⟨f, t, e, st, d, op, cs⟩ := s
  rw [validateResultStep, andThen_ok] at h
  exact h.1

theorem validateResultStep_inner {b : Bool} (h : validateResultStep expected path s = .ok ())
    (hl : (b, l) ∈ branches s) (hs : s' ∈ l) :
    ∃ path, validateResultStep expected path s' = .ok () := by
  obtain ⟨f, t, e, st, d, op, cs⟩ := s
  rw [validateResultStep] at h
  simp only [andThen_ok] at h
  obtain ⟨-, hthen, helse, hsteps, hdefault, hcases⟩ := h
  simp only [branches, mem_cons, mem_map, Prod.mk.injEq] at hl
  rcases hl with ⟨-, rfl⟩ | ⟨-, rfl⟩ | ⟨-, rfl⟩ | ⟨-, rfl⟩ | ⟨l', hl', -, rfl⟩
  · exact validateResultSteps_mem hthen hs
  · exact validateResultSteps_mem helse hs
  · exact validateResultSteps_mem hsteps hs
  · exact validateResultSteps_mem hdefault hs
  · exact validateResultCases_mem hcases hl' hs

/-- The payload has the expected names and no others. -/
def ExactPayload (expected : List String) (f : Fields) : Prop :=
  ∃ names, f.payload = some names ∧ ∀ name, name ∈ names ↔ name ∈ expected

/-- A payload that the contract accepts has exactly the expected fields. -/
theorem checkPayload_exact (h : checkPayload expected f path = .ok ())
    (hact : f.action = "sendResult") : ExactPayload expected f := by
  rw [checkPayload, if_neg (by simp [hact])] at h
  split at h
  · cases h
  · rename_i names hpayload
    split at h
    · cases h
    · rename_i hundeclared
      split at h
      · cases h
      · rename_i hmissing
        refine ⟨names, hpayload, fun name => ⟨fun hname => ?_, fun hname => ?_⟩⟩
        · simpa using List.find?_eq_none.mp hundeclared name hname
        · simpa using List.find?_eq_none.mp hmissing name hname

end Gate

end Aegis
