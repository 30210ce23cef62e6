import Aegis.Engine.Extraction
import Aegis.Engine.Phases
import Aegis.Lib.Regex
import Aegis.Recording.Pointer
import Mathlib.Data.String.Basic

/-!
# Gate.Safety

The safety scans of `llm/safety.go`, and which of the steps that a run comes to they look at.

A step has what the executor and the scans read. A target that is coordinates is no target.
-/

namespace Aegis

open List Option

namespace Safety

open Dispatch (Container isFlowControl loopTypes within)
open Regex (inOrder oneOf literal isBlank isWord)

inductive TargetSlot where
  | target | hoverTarget | clickTarget | source | to
deriving DecidableEq

inductive TargetField where
  | selector | text | ariaLabel | roleName
deriving DecidableEq

def TargetField.name : TargetField → String
  | .selector => "selector"
  | .text => "text"
  | .ariaLabel => "ariaLabel"
  | .roleName => "roleName"

def targetFields : List TargetField := [.selector, .text, .ariaLabel, .roleName]

structure Target where
  ref : Option String
  field : TargetField → Option (Option String)

/-- `v, _ := target[field].(string)`. -/
def Target.text (t : Target) (field : TargetField) : String := ((t.field field).join).getD ""

/-- The fields of a step: those the executor reads, and its targets. -/
structure Fields where
  engine : Preflight.Fields
  slot : TargetSlot → Option Target

inductive Step where
  | mk (fields : Fields) (thenSteps elseSteps steps default onOpen : List Step)
    (cases : List (List Step))

structure Hooks where
  beforeAll : List Step
  afterAll : List Step
  onError : List Step
  cleanup : List Step

structure Rule where
  domain : List String
  entry : String
  /-- `selectors`, when there are any. -/
  selectors : Option (List (String × Target))
  steps : List Step
  hooks : Hooks

def Step.fields : Step → Fields
  | .mk f _ _ _ _ _ _ => f

def Step.action (s : Step) : String := s.fields.engine.action

inductive ListName where
  | thenSteps | elseSteps | steps | default | onOpen
  | case (n : Nat)
deriving DecidableEq

def Step.list : Step → ListName → List Step
  | .mk _ t _ _ _ _ _, .thenSteps => t
  | .mk _ _ e _ _ _ _, .elseSteps => e
  | .mk _ _ _ s _ _ _, .steps => s
  | .mk _ _ _ _ d _ _, .default => d
  | .mk _ _ _ _ _ o _, .onOpen => o
  | .mk _ _ _ _ _ _ cs, .case n => cs.getD n []

/-- What `url.Parse` makes of a URL. -/
structure NavigationURL where
  scheme : String
  hostname : String
  port : String
  user : Bool

/-- What the standard libraries make of texts: `html.UnescapeString`, `url.QueryUnescape`,
`url.Parse`, `strings.EqualFold`; and whether a URL that a browser at `entry` is sent to is of
another origin. -/
structure Texts where
  unescapeString : String → String
  queryUnescape : String → Option String
  parse : String → Option NavigationURL
  equalFold : String → String → Bool
  offOrigin : String → String → Bool

/-- `.*` -/
def anything : Regex := .many (· != '\n') 0 none

def word (s : String) : Regex := literal s.toList

def riskyPattern : Regex :=
  oneOf (word "purchase") [word "buy", word "pay", word "checkout", word "delete", word "remove",
    word "transfer", word "publish", inOrder (word "confirm") [anything, word "order"],
    inOrder (word "place") [anything, word "order"],
    inOrder (word "account") [anything, oneOf (word "delete") [word "remove"]]]

def scriptTagPattern : Regex := inOrder (word "<script") [.boundary]

def embeddedIframePattern : Regex := inOrder (word "<iframe") [.boundary]

def isQuote (c : Char) : Bool := c == '"' || c == '\''

def eventHandlerPattern : Regex :=
  inOrder .boundary [word "on", .many (fun c => isWord (Regex.foldCase c)) 1 none,
    .many isBlank 0 none, .one (· == '='), .many isBlank 0 none, .many isQuote 0 (some 1),
    .many (fun c => !(isQuote c || c == '>' || isBlank c)) 1 none]

def externalURLPattern : Regex :=
  inOrder (word "http") [.many (fun c => Regex.foldCase c == 's') 0 (some 1), word "://",
    .many (fun c => !(isQuote c || isBlank c || c == '<' || c == '>')) 1 none]

variable (texts : Texts)

def riskyKeywordHit (s : String) : Bool :=
  riskyPattern.matchString s ||
    (texts.unescapeString s != s && riskyPattern.matchString (texts.unescapeString s)) ||
    match texts.queryUnescape s with
    | some unescaped => unescaped != s && riskyPattern.matchString unescaped
    | none => false

def sameNavigationOrigin (candidateRaw entryRaw : String) : Bool :=
  match texts.parse candidateRaw, texts.parse entryRaw with
  | some candidate, some entry =>
    if candidate.user || entry.user then false
    else if candidate.scheme = "" || candidate.hostname = "" || entry.scheme = "" ||
        entry.hostname = "" then false
    else texts.equalFold candidate.scheme entry.scheme &&
      texts.equalFold candidate.hostname entry.hostname && candidate.port == entry.port
  | _, _ => false

structure SafetyFlag where
  stepIndex : String
  action : String
  reason : String

def riskyActionTypes : List String := ["submit"]

def ownFlags (path : String) (s : Step) : List SafetyFlag :=
  (if riskyActionTypes.contains s.action then [⟨path, s.action, "高风险动作类型"⟩] else []) ++
    match s.fields.slot .target with
    | some target =>
      (targetFields.filter fun field => riskyKeywordHit texts (target.text field)).map fun field =>
        ⟨path, s.action, "目标元素 " ++ field.name ++ " 包含高风险关键词"⟩
    | none => []

section Walk

variable {α : Type} (own : String → Step → List α)

mutual

def walkStep (path : String) : Step → List α
  | .mk f thenSteps elseSteps steps default onOpen cases =>
    own path (.mk f thenSteps elseSteps steps default onOpen cases) ++
      walkSteps (path ++ ".then.") 0 thenSteps ++ walkSteps (path ++ ".else.") 0 elseSteps ++
      walkSteps (path ++ ".steps.") 0 steps

/-- The steps of a list, from index `i` on. -/
def walkSteps (path : String) (i : Nat) : List Step → List α
  | [] => []
  | s :: steps => walkStep (path ++ toString i) s ++ walkSteps path (i + 1) steps

end

end Walk

def scanSteps (steps : List Step) (path : String) : List SafetyFlag :=
  walkSteps (ownFlags texts) path 0 steps

def scanSafety (rule : Rule) : List SafetyFlag := scanSteps texts rule.steps ""

inductive SealingKey where
  | externalResourceLoad | scriptTagInSelector | iframeEmbed | eventHandlerAttribute
deriving DecidableEq

def SealingKey.text : SealingKey → String
  | .externalResourceLoad => "external-resource-load"
  | .scriptTagInSelector => "script-tag-in-selector"
  | .iframeEmbed => "iframe-embed"
  | .eventHandlerAttribute => "event-handler-attribute"

def classifyForSealing (s : String) : List SealingKey :=
  if s = "" then []
  else
    (if scriptTagPattern.matchString s then [.scriptTagInSelector] else []) ++
    (if embeddedIframePattern.matchString s then [.iframeEmbed] else []) ++
    (if eventHandlerPattern.matchString s then [.eventHandlerAttribute] else []) ++
    (if externalURLPattern.matchString s then [.externalResourceLoad] else [])

def ownKeys (entry : String) (s : Step) : List SealingKey :=
  (match s.fields.slot .target with
    | some target => targetFields.flatMap fun field => classifyForSealing (target.text field)
    | none => []) ++
  match s.fields.engine.url with
  | some url =>
    if url ≠ "" && externalURLPattern.matchString url && !sameNavigationOrigin texts url entry then
      [.externalResourceLoad]
    else []
  | none => []

def scanStepsForSealing (steps : List Step) (path entry : String) : List SealingKey :=
  walkSteps (fun _ => ownKeys texts entry) path 0 steps

def scanSealingFlags (rule : Rule) : List String :=
  ([.externalResourceLoad, .scriptTagInSelector, .iframeEmbed, .eventHandlerAttribute].filter
    fun key => (scanStepsForSealing texts rule.steps "" rule.entry).contains key).map SealingKey.text

/-! ## What a run comes to -/

/-- `resolveSelectorAlias`; `none` when it throws. -/
def resolveSelectorAlias (selectors : Option (List (String × Target))) (t : Target) : Option Target :=
  match t.ref, selectors with
  | some name, some selectors =>
    if Extraction.trim name = "" then some t
    else (selectors.lookup name).map fun named =>
      ⟨none, fun field => (t.field field).or (named.field field)⟩
  | _, _ => some t

/-- The actions whose handler looks for `target`, and no other. -/
def targetActions : List String :=
  ["extract", "extractText", "extractAttribute", "extractHtml", "extractJson", "extractTable",
    "click", "doubleClick", "rightClick", "middleClick", "hover", "pressAndHold", "slide", "type",
    "paste", "clear", "select", "check", "selectRadio", "typeAndSelect", "uploadFile", "focus",
    "blur", "waitFor", "waitForText", "waitForElementHidden", "waitForElementVisible", "scrollBy",
    "scrollTo", "setStyle", "removeElement", "scrollIntoView", "sendScreenshot", "sendHtml"]

def slotsOf (action : String) : List TargetSlot :=
  if action = "hoverClick" then [.hoverTarget, .clickTarget]
  else if action = "moveMouse" then [.to]
  else if action = "dragAndDrop" then [.source, .target]
  else if action = "dragBy" then [.source]
  else if targetActions.contains action then [.target]
  else []

def runs (s : Step) : ListName → Option Container
  | .thenSteps =>
    if s.action = "if" then some .ifAction
    else if s.action = "requestHuman" then some .requestHuman
    else none
  | .elseSteps => if s.action = "if" then some .ifAction else none
  | .steps =>
    if s.action = "loop" then
      (s.fields.engine.type.filter (loopTypes.contains ·)).map fun type => .loop type
    else if s.action = "group" then some .group
    else if s.action = "retry" then some .retry
    else if s.action = "recover" then some .recover
    else none
  | .default | .case _ => if s.action = "switch" then some .switch else none
  | .onOpen => if s.action = "circuitBreaker" then some .circuitBreaker else none

def hookSteps (rule : Rule) : Dispatch.Phase → List Step
  | .beforeAll => rule.hooks.beforeAll
  | .main => rule.steps
  | .afterAll => rule.hooks.afterAll
  | .onError => rule.hooks.onError
  | .cleanup => rule.hooks.cleanup

structure Path where
  phase : Dispatch.Phase
  index : Nat
  below : List (ListName × Nat)

def Path.push (p : Path) (name : ListName) (i : Nat) : Path :=
  { p with below := p.below ++ [(name, i)] }

def ListName.words : ListName → List String
  | .thenSteps => ["then"]
  | .elseSteps => ["else"]
  | .steps => ["steps"]
  | .default => ["default"]
  | .onOpen => ["onOpen"]
  | .case n => ["cases", toString n, "steps"]

def phaseWords : Dispatch.Phase → List String
  | .main => []
  | .beforeAll => ["hooks", "beforeAll"]
  | .afterAll => ["hooks", "afterAll"]
  | .onError => ["hooks", "onError"]
  | .cleanup => ["hooks", "cleanup"]

def belowWords (below : List (ListName × Nat)) : List String :=
  below.flatMap fun (name, i) => name.words ++ [toString i]

def Path.text (p : Path) : String :=
  ".".intercalate (phaseWords p.phase ++ toString p.index :: belowWords p.below)

/-- The steps of a rule that may be run, and what each of them is in, from the outside. -/
inductive Occurs (rule : Rule) : List Container → Path → Step → Prop where
  | phase {phase i s} (h : (hookSteps rule phase)[i]? = some s) :
      Occurs rule (within phase) ⟨phase, i, []⟩ s
  | inner {w p s c name i s'} (h : Occurs rule w p s) (hc : runs s name = some c)
      (hs : (s.list name)[i]? = some s')
      -- `recover` hands its steps to `executeAction`, which runs no flow control
      (hleaf : c = .recover → isFlowControl s'.action = false) :
      Occurs rule (w ++ [c]) (p.push name i) s'

/-- A run of the rule may dispatch the step at the path. -/
def Dispatched (rule : Rule) (p : Path) (s : Step) : Prop :=
  (∃ w, Occurs rule w p s) ∧ isFlowControl s.action = false

/-- The step has a risky type, or a target with a risky word. -/
def Risky (rule : Rule) (s : Step) : Prop :=
  riskyActionTypes.contains s.action = true ∨ ∃ slot ∈ slotsOf s.action, ∃ t t',
    s.fields.slot slot = some t ∧ resolveSelectorAlias rule.selectors t = some t' ∧
      ∃ field ∈ targetFields, riskyKeywordHit texts (t'.text field) = true

/-- What is of concern when a rule is sealed: code in a target that is used, or where a navigation
goes. -/
def Concerns (rule : Rule) (s : Step) (key : SealingKey) : Prop :=
  (key ≠ .externalResourceLoad ∧ ∃ slot ∈ slotsOf s.action, ∃ t t',
    s.fields.slot slot = some t ∧ resolveSelectorAlias rule.selectors t = some t' ∧
      ∃ field ∈ targetFields, key ∈ classifyForSealing (t'.text field)) ∨
  (key = .externalResourceLoad ∧ s.action = "navigate" ∧ ∃ url, s.fields.engine.url = some url ∧
    texts.offOrigin rule.entry url = true)

/-- Whatever is risky is flagged, and whatever concerns a sealing key names it. -/
structure Reports (rule : Rule) : Prop where
  risky : ∀ p s, Dispatched rule p s → Risky texts rule s →
    ∃ flag ∈ scanSafety texts rule, flag.stepIndex = p.text
  sealing : ∀ p s key, Dispatched rule p s → Concerns texts rule s key →
    key.text ∈ scanSealingFlags texts rule

def isWalked (name : ListName) : Bool := [ListName.thenSteps, .elseSteps, .steps].contains name

def Path.walked (p : Path) : Bool := p.phase == .main && p.below.all fun b => isWalked b.1

def stepBelow : List (ListName × Nat) → Step → Option Step
  | [], s => some s
  | (name, i) :: below, s => ((s.list name)[i]?).bind (stepBelow below)

def stepAt (rule : Rule) (p : Path) : Option Step :=
  ((hookSteps rule p.phase)[p.index]?).bind (stepBelow p.below)

/-- The action is risky, or the `target` as it is written. -/
def PlainlyRisky (s : Step) : Prop :=
  riskyActionTypes.contains s.action = true ∨ ∃ t, s.fields.slot .target = some t ∧
    ∃ field ∈ targetFields, riskyKeywordHit texts (t.text field) = true

/-- Only `then`, `else` and `steps`, from the steps of the rule on, lead to what is risky, and that is
written where it is used; what is of concern is written in such a place too, there or elsewhere. -/
structure Plain (rule : Rule) : Prop where
  risky : ∀ p s, Dispatched rule p s → Risky texts rule s → p.walked = true ∧ PlainlyRisky texts s
  sealing : ∀ p s key, Dispatched rule p s → Concerns texts rule s key →
    ∃ q t, q.walked = true ∧ stepAt rule q = some t ∧ key ∈ ownKeys texts rule.entry t

section Paths

def dotted : List String → String
  | [] => ""
  | w :: words => "." ++ w ++ dotted words

theorem dotted_append (l l' : List String) : dotted (l ++ l') = dotted l ++ dotted l' := by
  induction l with
  | nil => rw [nil_append, dotted, String.empty_append]
  | cons w l ih => rw [cons_append, dotted, dotted, ih, ← String.append_assoc]

def Path.words (p : Path) : List String :=
  phaseWords p.phase ++ toString p.index :: belowWords p.below

end Paths

section Walk

variable {α : Type} {own : String → Step → List α} {a : α} {path : String} {i : Nat} {s t : Step}
  {l : List Step} {name : ListName} {below : List (ListName × Nat)}

/-- What is found at a step below another, which is at `path`. -/
def Found (own : String → Step → List α) (a : α) (path : String) (s : Step) : Prop :=
  ∃ below t, (below.all fun b => isWalked b.1) = true ∧ stepBelow below s = some t ∧
    a ∈ own (path ++ dotted (belowWords below)) t

/-- What is found below the steps of a list, from index `i` on. -/
def FoundIn (own : String → Step → List α) (a : α) (path : String) (i : Nat) (l : List Step) : Prop :=
  ∃ j s, l[j]? = some s ∧ Found own a (path ++ toString (i + j)) s

theorem foundIn_cons : FoundIn own a path i (s :: l) ↔
    Found own a (path ++ toString i) s ∨ FoundIn own a path (i + 1) l := by
  constructor
  · rintro ⟨j, t, hj, hfound⟩
    cases j with
    | zero =>
      cases hj
      exact .inl hfound
    | succ j =>
      rw [show i + (j + 1) = i + 1 + j by omega] at hfound
      exact .inr ⟨j, t, hj, hfound⟩
  · rintro (hfound | ⟨j, t, hj, hfound⟩)
    · exact ⟨0, s, rfl, hfound⟩
    · rw [show i + 1 + j = i + (j + 1) by omega] at hfound
      exact ⟨j + 1, t, hj, hfound⟩

theorem dotted_below (name : ListName) (i : Nat) (below : List (ListName × Nat)) :
    dotted (belowWords ((name, i) :: below)) =
      dotted name.words ++ "." ++ toString i ++ dotted (belowWords below) := by
  rw [belowWords, flatMap_cons, dotted_append, dotted_append, dotted, dotted,
    String.append_empty, ← String.append_assoc]
  rfl

theorem found_iff : Found own a path s ↔ a ∈ own path s ∨ ∃ name, isWalked name ∧
      FoundIn own a (path ++ dotted name.words ++ ".") 0 (s.list name) := by
  constructor
  · rintro ⟨below, t, hwalked, hstep, ha⟩
    cases below with
    | nil =>
      cases hstep
      rw [belowWords, flatMap_nil, dotted, String.append_empty] at ha
      exact .inl ha
    | cons b below =>
      obtain ⟨name, i⟩ := b
      rw [all_cons, Bool.and_eq_true] at hwalked
      rw [stepBelow] at hstep
      obtain ⟨s', hs', hstep⟩ := bind_eq_some_iff.mp hstep
      rw [dotted_below] at ha
      refine .inr ⟨name, hwalked.1, i, s', hs', below, t, hwalked.2, hstep, ?_⟩
      simpa only [Nat.zero_add, String.append_assoc] using ha
  · rintro (ha | ⟨name, hname, i, s', hs', below, t, hwalked, hstep, ha⟩)
    · refine ⟨[], s, rfl, rfl, ?_⟩
      rw [belowWords, flatMap_nil, dotted, String.append_empty]
      exact ha
    · refine ⟨(name, i) :: below, t, ?_, ?_, ?_⟩
      · rw [all_cons, hname, hwalked]
        rfl
      · rw [stepBelow, hs']
        exact hstep
      · rw [dotted_below]
        simpa only [Nat.zero_add, String.append_assoc] using ha

mutual

theorem mem_walkStep (s : Step) (path : String) : a ∈ walkStep own path s ↔ Found own a path s := by
  obtain ⟨f, thenSteps, elseSteps, steps, default, onOpen, cases⟩ := s
  rw [walkStep, mem_append, mem_append, mem_append, mem_walkSteps thenSteps,
    mem_walkSteps elseSteps, mem_walkSteps steps, found_iff]
  constructor
  · rintro (((ha | hthen) | helse) | hsteps)
    · exact .inl ha
    · exact .inr ⟨.thenSteps, rfl, by rw [String.append_assoc]; exact hthen⟩
    · exact .inr ⟨.elseSteps, rfl, by rw [String.append_assoc]; exact helse⟩
    · exact .inr ⟨.steps, rfl, by rw [String.append_assoc]; exact hsteps⟩
  · rintro (ha | ⟨name, hname, hfound⟩)
    · exact .inl (.inl (.inl ha))
    · rw [String.append_assoc] at hfound
      cases name with
      | thenSteps => exact .inl (.inl (.inr hfound))
      | elseSteps => exact .inl (.inr hfound)
      | steps => exact .inr hfound
      | default | onOpen => exact absurd hname (by decide)
      | case n => exact absurd hname (by simp [isWalked])

theorem mem_walkSteps (l : List Step) (path : String) (i : Nat) :
    a ∈ walkSteps own path i l ↔ FoundIn own a path i l := by
  cases l with
  | nil =>
    rw [walkSteps]
    refine iff_of_false not_mem_nil ?_
    rintro ⟨j, s, hj, -⟩
    cases hj
  | cons s l =>
    rw [walkSteps, mem_append, mem_walkStep s, mem_walkSteps l, foundIn_cons]

end

end Walk

section Scans

variable {texts} {rule : Rule} {p q : Path} {s t : Step} {w : List Container}

theorem stepBelow_append (below below' : List (ListName × Nat)) (s : Step) :
    stepBelow (below ++ below') s = (stepBelow below s).bind (stepBelow below') := by
  induction below generalizing s with
  | nil => rfl
  | cons b below ih =>
    obtain ⟨name, i⟩ := b
    rw [cons_append, stepBelow, stepBelow, Option.bind_assoc]
    exact Option.bind_congr fun s' _ => ih s'

theorem Occurs.stepAt (h : Occurs rule w p s) : stepAt rule p = some s := by
  induction h with
  | phase h =>
    rw [Safety.stepAt, h]
    rfl
  | @inner w p s c name i s' _ _ hs _ ih =>
    rw [Safety.stepAt] at ih ⊢
    show Option.bind _ (stepBelow (p.below ++ [(name, i)])) = _
    obtain ⟨top, htop, hbelow⟩ := bind_eq_some_iff.mp ih
    show Option.bind ((hookSteps rule p.phase)[p.index]?) _ = _
    rw [htop, bind_some, stepBelow_append, hbelow, bind_some, stepBelow, hs]
    rfl

end Scans

/-! ## What runs come to -/

mutual

def Step.erase : Step → Preflight.Step
  | .mk f thenSteps elseSteps steps default onOpen cases =>
    .mk f.engine (eraseSteps thenSteps) (eraseSteps elseSteps) (eraseSteps steps)
      (eraseSteps default) (eraseSteps onOpen) (eraseCases cases)

def eraseSteps : List Step → List Preflight.Step
  | [] => []
  | s :: steps => s.erase :: eraseSteps steps

def eraseCases : List (List Step) → List (List Preflight.Step)
  | [] => []
  | l :: cases => eraseSteps l :: eraseCases cases

end

def Rule.erase (rule : Rule) : Preflight.Rule :=
  ⟨rule.domain, eraseSteps rule.steps, ⟨eraseSteps rule.hooks.beforeAll, eraseSteps rule.hooks.afterAll,
      eraseSteps rule.hooks.onError, eraseSteps rule.hooks.cleanup⟩⟩

section Erased

variable {rule : Rule} {s : Step} {w : List Container} {c : Container}

theorem eraseSteps_eq (l : List Step) : eraseSteps l = l.map Step.erase := by
  induction l with
  | nil => rfl
  | cons s l ih => rw [eraseSteps, ih, map_cons]

theorem eraseCases_eq (cases : List (List Step)) : eraseCases cases = cases.map eraseSteps := by
  induction cases with
  | nil => rfl
  | cons l cases ih => rw [eraseCases, ih, map_cons]

variable {t : Preflight.Step}

theorem exists_of_mem_eraseSteps {l : List Step} (h : t ∈ eraseSteps l) :
    ∃ (i : Nat) (s : Step), l[i]? = some s ∧ s.erase = t := by
  rw [eraseSteps_eq] at h
  obtain ⟨s, hs, rfl⟩ := List.mem_map.mp h
  obtain ⟨i, hi⟩ := mem_iff_getElem?.mp hs
  exact ⟨i, s, hi, rfl⟩

theorem action_erase (s : Step) : (Dispatch.fields s.erase).action = s.action := by
  obtain ⟨f, t, e, st, d, o, cs⟩ := s
  rfl

theorem erase_hookSteps (rule : Rule) (phase : Dispatch.Phase) :
    Dispatch.hookSteps rule.erase phase = eraseSteps (hookSteps rule phase) := by
  cases phase <;> rfl

theorem exists_of_list (name : ListName) (hruns : runs s name = some c)
    (hc : c ≠ .recover) (ht : t ∈ eraseSteps (s.list name)) :
    ∃ (name : ListName) (i : Nat) (s' : Step), runs s name = some c ∧
      (s.list name)[i]? = some s' ∧ s'.erase = t ∧ (c = .recover → isFlowControl s'.action = false) := by
  obtain ⟨i, s', hi, hs'⟩ := exists_of_mem_eraseSteps ht
  exact ⟨name, i, s', hruns, hi, hs', fun h => absurd h hc⟩

theorem exists_list {l : List Preflight.Step} (hl : (c, l) ∈ Dispatch.lists s.erase) (ht : t ∈ l) :
    ∃ (name : ListName) (i : Nat) (s' : Step), runs s name = some c ∧
      (s.list name)[i]? = some s' ∧ s'.erase = t ∧ (c = .recover → isFlowControl s'.action = false) := by
  obtain ⟨f, thenSteps, elseSteps, steps, default, onOpen, cases⟩ := s
  have haction : Step.action (.mk f thenSteps elseSteps steps default onOpen cases) = f.engine.action := rfl
  rw [Step.erase, Dispatch.lists] at hl
  split at hl
  · rename_i ha
    simp only [mem_cons, not_mem_nil, or_false, Prod.mk.injEq] at hl
    rcases hl with ⟨rfl, rfl⟩ | ⟨rfl, rfl⟩
    · exact exists_of_list .thenSteps (by rw [runs, haction, if_pos ha]) (by decide) ht
    · exact exists_of_list .elseSteps (by rw [runs, haction, if_pos ha]) (by decide) ht
  rename_i hif
  split at hl
  · rename_i ha
    obtain ⟨type, htype, hpair⟩ := List.mem_map.mp hl
    cases hpair
    refine exists_of_list .steps ?_ (fun h => by cases h) ht
    rw [runs, haction, if_pos ha]
    show (f.engine.type.filter _).map _ = _
    rw [mem_toList.mp htype]
    rfl
  rename_i hloop
  split at hl
  · rename_i ha
    rcases mem_append.mp hl with hl | hl
    · obtain ⟨l', hl', hpair⟩ := List.mem_map.mp hl
      cases hpair
      rw [eraseCases_eq] at hl'
      obtain ⟨l'', hl'', rfl⟩ := List.mem_map.mp hl'
      obtain ⟨n, hn⟩ := mem_iff_getElem?.mp hl''
      refine exists_of_list (.case n) (by rw [runs, haction, if_pos ha]) (by decide) ?_
      rw [Step.list, getD_eq_getElem?_getD, hn]
      exact ht
    · cases mem_singleton.mp hl
      exact exists_of_list .default (by rw [runs, haction, if_pos ha]) (by decide) ht
  split at hl
  · rename_i hno ha
    cases mem_singleton.mp hl
    refine exists_of_list .steps ?_ (by decide) ht
    rw [runs, haction, if_neg hloop, if_pos ha]
  rename_i hgroup
  split at hl
  · rename_i ha
    cases mem_singleton.mp hl
    refine exists_of_list .steps ?_ (by decide) ht
    rw [runs, haction, if_neg hloop, if_neg hgroup, if_pos ha]
  rename_i hretry
  split at hl
  · rename_i ha
    cases mem_singleton.mp hl
    refine exists_of_list .thenSteps ?_ (by decide) ht
    rw [runs, haction, if_neg hif, if_pos ha]
  split at hl
  · rename_i ha
    cases mem_singleton.mp hl
    exact exists_of_list .onOpen (by rw [runs, haction, if_pos ha]) (by decide) ht
  split at hl
  · rename_i ha
    cases mem_singleton.mp hl
    obtain ⟨i, s', hi, hs'⟩ := exists_of_mem_eraseSteps (mem_of_mem_filter ht)
    refine ⟨.steps, i, s', ?_, hi, hs', fun _ => ?_⟩
    · rw [runs, haction, if_neg hloop, if_neg hgroup, if_neg hretry, if_pos ha]
    · rw [← action_erase, hs']
      simpa using (mem_filter.mp ht).2
  · cases hl

theorem occurs_of_erased (h : Dispatch.Occurs rule.erase w t) :
    ∃ p s, Occurs rule w p s ∧ s.erase = t := by
  induction h with
  | @phase phase t ht =>
    rw [erase_hookSteps] at ht
    obtain ⟨i, s, hs, rfl⟩ := exists_of_mem_eraseSteps ht
    exact ⟨_, s, .phase hs, rfl⟩
  | @inner w t c l t' _ hl ht ih =>
    obtain ⟨p, s, hs, rfl⟩ := ih
    obtain ⟨name, i, s', hruns, hs', rfl, hleaf⟩ := exists_list hl ht
    exact ⟨_, s', .inner hs hruns hs' hleaf, rfl⟩

/-- Every leaf that a run of the interpreter dispatches stands at a path of a phase of the rule. -/
theorem leaf_occurs {es : List Dispatch.Event} {path : Option StepPath}
    (h : .leaf w t path ∈ (run (Dispatch.step rule.erase) Dispatch.init es).log) :
    ∃ p s, Occurs rule w p s ∧ s.erase = t := by
  obtain ⟨before, after, heq⟩ := append_of_mem h
  exact occurs_of_erased (Dispatch.log_ok rule.erase es before _ after heq).1

end Erased

def switchRule (text : String) : Rule :=
  ⟨["example.com"], "https://example.com/", none,
    [.mk ⟨⟨"switch", false, none, none, false, none, none, none⟩, fun _ => none⟩ [] [] []
      [.mk ⟨⟨"click", false, none, none, false, none, none, none⟩, fun slot =>
        if slot = .target then
          some ⟨none, fun field => if field = .text then some (some text) else none⟩
        else none⟩ [] [] [] [] [] []] [] []],
    ⟨[], [], [], []⟩⟩

theorem leaf_occurs_switch : ∃ p s, Occurs (switchRule "delete") [.switch] p s ∧
    s.erase = .mk ⟨"click", false, none, none, false, none, none, none⟩ [] [] [] [] [] [] :=
  @leaf_occurs _ _ _ (replicate 5 (.act 0 .go) ++ .act 0 (.pick 0) :: replicate 4 (.act 0 .go)) _
    (mem_of_getElem? (i := 3) rfl)

end Safety

end Aegis
