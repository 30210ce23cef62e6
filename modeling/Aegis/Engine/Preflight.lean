import Mathlib.Data.List.Basic

/-!
# Engine.Preflight

The rules that browser replay accepts, of `scriptcat-engine/rule-preflight.ts`.

A step has the fields that the preflight, the executor and the server read, and the lists of steps
in it; a list that is absent is empty here. What a browser makes of a literal URL is a parameter:
the host name of `new URL(raw)`, if it does not throw.
-/

namespace Aegis

namespace Preflight

structure Fields where
  action : String
  /-- `trusted === true`. -/
  trusted : Bool
  script : Option String
  condition : Option String
  /-- `submit === true`. -/
  submit : Bool
  url : Option String
  type : Option String
  payload : Option (List String)

inductive Step where
  | mk (fields : Fields) (thenSteps elseSteps steps default onOpen : List Step)
    (cases : List (List Step))

structure Hooks where
  beforeAll : List Step
  afterAll : List Step
  onError : List Step
  cleanup : List Step

structure Rule where
  domain : List String
  steps : List Step
  hooks : Hooks

inductive ContainerKind where
  | top | ifAction | switch | group | retry | hook | fixedCount | forEach | whileElementExists
deriving DecidableEq

inductive PreflightErrorCode where
  | whileElementExistsNavigationUnsupported
  | retryNavigationUnsupported
  | hookNavigation
  | evaluateDisabled
  | evaluateRecordedUntrusted
  | historyNavigationUnsupported
  | staticCrossOriginNavigate

structure PreflightError where
  code : PreflightErrorCode
  message : String
  path : String
  scriptPreview : Option String

def startsWith (s text : String) : Bool := text.toList.isPrefixOf s.toList
def endsWith (s text : String) : Bool := text.toList.isSuffixOf s.toList
def includes (s text : String) : Bool := s.toList.tails.any (text.toList.isPrefixOf ·)

/-- Of `scriptcat-engine/executor-utils.ts`. -/
def actionMayNavigate (f : Fields) : Bool :=
  ["navigate", "reload", "goBack", "goForward", "click", "doubleClick", "hoverClick", "pressKey",
      "keyCombination"].contains f.action ||
    (f.action == "type" && f.submit) || f.action == "submit" || f.action == "requestHuman"

def runsScript (f : Fields) : Bool := f.action == "evaluate" || f.action == "waitForFunction"

def hostAllowed (domains : List String) (host : String) : Bool :=
  domains.any fun d => host == d || endsWith host ("." ++ d)

section Walk

variable (hostname : String → Option String) (domain : List String)

def checkStaticCrossOrigin (f : Fields) (path : String) : List PreflightError :=
  if f.action != "navigate" && f.action != "reload" then []
  else match f.url with
    | none => []
    | some raw =>
      -- what is interpolated is checked when it is known
      if includes raw "\x7b\x7b" || includes raw "\x7d\x7d" then []
      else match hostname raw with
        | none => []
        | some host =>
          if hostAllowed domain host then []
          else [⟨.staticCrossOriginNavigate,
            "replay v1 only supports same-origin navigation; literal target '" ++ raw ++
              "' is cross-origin to rule.domain [" ++ ", ".intercalate domain ++ "]", path, none⟩]

def gateNavigation (f : Fields) (path : String) (containers : List ContainerKind) : List PreflightError :=
  if f.action == "goBack" || f.action == "goForward" then
    [⟨.historyNavigationUnsupported, f.action ++ " is not supported by replay: the history " ++
      "destination cannot be validated before navigation", path, none⟩]
  else if containers.contains .hook || startsWith path "hooks." then
    [⟨.hookNavigation, "navigation inside hook is not checkpointed by replay v1; move to " ++
      "top-level or post-hook steps", path, none⟩]
  else if containers.contains .retry then
    [⟨.retryNavigationUnsupported, "navigation inside retry is not supported: attempt-count " ++
      "semantics are ambiguous across page navigation", path, none⟩]
  else if containers.contains .whileElementExists then
    [⟨.whileElementExistsNavigationUnsupported, "navigation inside loop.whileElementExists is " ++
      "not supported: past iterations cannot be re-entered without replaying historical DOM",
      path, none⟩]
  else checkStaticCrossOrigin hostname domain f path

def checkStep (f : Fields) (path : String) (containers : List ContainerKind) : List PreflightError :=
  (if runsScript f && !f.trusted then
    [⟨.evaluateRecordedUntrusted, "evaluate action from recording is untrusted. To enable " ++
      "replay, set \x60trusted: true\x60 on this step after reviewing the script.", path,
      f.script.map fun s => String.ofList (s.toList.take 200)⟩] else []) ++
  (if f.condition = some "jsTruthy" then
    [⟨.evaluateDisabled, "replay v1 disabled the script sandbox; condition 'jsTruthy' is not " ++
      "supported", path ++ ".condition", none⟩] else []) ++
  if actionMayNavigate f then gateNavigation hostname domain f path containers else []

def loopKind (type : Option String) : ContainerKind :=
  if type = some "forEach" then .forEach
  else if type = some "whileElementExists" then .whileElementExists
  else .fixedCount

/-- The kind of container that the `steps` of an action are in; an unknown one is none. -/
def stepsKind (f : Fields) : List ContainerKind :=
  if f.action == "loop" then [loopKind f.type]
  else if f.action == "group" then [.group]
  else if f.action == "retry" then [.retry]
  else []

mutual

def walkStep (path : String) (containers : List ContainerKind) : Step → List PreflightError
  | .mk f thenSteps elseSteps steps default _ cases =>
    checkStep hostname domain f path containers ++
    traverse (path ++ ".then") (containers ++ [.ifAction]) 0 thenSteps ++
    traverse (path ++ ".else") (containers ++ [.ifAction]) 0 elseSteps ++
    if f.action == "switch" then
      traverseCases path (containers ++ [.switch]) 0 cases ++
      traverse (path ++ ".default") (containers ++ [.switch]) 0 default
    else traverse (path ++ ".steps") (containers ++ stepsKind f) 0 steps

def traverse (basePath : String) (containers : List ContainerKind) (i : Nat) :
    List Step → List PreflightError
  | [] => []
  | step :: rest =>
    walkStep (basePath ++ "[" ++ toString i ++ "]") containers step ++
      traverse basePath containers (i + 1) rest

def traverseCases (path : String) (containers : List ContainerKind) (ci : Nat) :
    List (List Step) → List PreflightError
  | [] => []
  | steps :: cases =>
    traverse (path ++ ".cases[" ++ toString ci ++ "].steps") containers 0 steps ++
      traverseCases path containers (ci + 1) cases

end

end Walk

def preflightRule (hostname : String → Option String) (rule : Rule) : List PreflightError :=
  traverse hostname rule.domain "steps" [.top] 0 rule.steps ++
  traverse hostname rule.domain "hooks.beforeAll" [.hook] 0 rule.hooks.beforeAll ++
  traverse hostname rule.domain "hooks.afterAll" [.hook] 0 rule.hooks.afterAll ++
  traverse hostname rule.domain "hooks.onError" [.hook] 0 rule.hooks.onError ++
  traverse hostname rule.domain "hooks.cleanup" [.hook] 0 rule.hooks.cleanup

@[elab_as_elim]
theorem Step.ind {P : Step → Prop} (mk : ∀ f thenSteps elseSteps steps default onOpen cases,
    (∀ s ∈ thenSteps, P s) → (∀ s ∈ elseSteps, P s) → (∀ s ∈ steps, P s) → (∀ s ∈ default, P s) →
      (∀ s ∈ onOpen, P s) → (∀ l ∈ cases, ∀ s ∈ l, P s) →
      P (.mk f thenSteps elseSteps steps default onOpen cases)) (step : Step) : P step :=
  @Step.rec P (fun l => ∀ s ∈ l, P s) (fun cases => ∀ l ∈ cases, ∀ s ∈ l, P s)
    mk (fun _ h => absurd h List.not_mem_nil)
    (fun _ _ hs hrest => List.forall_mem_cons.mpr ⟨hs, hrest⟩)
    (fun _ h => absurd h List.not_mem_nil)
    (fun _ _ hs hrest => List.forall_mem_cons.mpr ⟨hs, hrest⟩) step

end Preflight

end Aegis
