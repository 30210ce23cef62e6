import Aegis.Budget.Ledger
import Aegis.Lib.Prog

/-!
# Llm.Orchestrator

`llm/orchestrator.go`: one completion, from the cache through admission, the provider and its
settlement.

A call is a program over `LLMOp`: the operations it performs on what it shares with others (the
cache, the routes, the ledger, the trace sink, the providers). Nothing is assumed of the answers
here; `Llm.Dispatch` gives the ledger operations their meaning.

Logs, metrics and the pauses between retries are left out. Hashes, redaction and sanitizing are
the parameter `Codec`.
-/

namespace Aegis

/-- What `errors.Is` and `errors.As` can tell of an error. -/
structure GoError where
  capture : Bool
  canceled : Bool
  deadlineExceeded : Bool
  timeout : Bool
  httpStatus : Option Int
  code : Option String
  message : String

namespace GoError

def new (message : String) : GoError := ⟨false, false, false, false, none, none, message⟩

/-- An error that wraps `ErrCompletionCapture`. -/
def captureFailed (message : String) : GoError := { new message with capture := true }

/-- `IsAvailabilityError`. -/
def isAvailability (e : GoError) : Bool :=
  if e.canceled || e.capture then false
  else
    let status := e.httpStatus.getD 0
    let later := e.deadlineExceeded || e.timeout || match e.code with
      | some "transport_error" => true
      | some "response_read_error" => status == 0 || 200 ≤ status && status ≤ 299
      | _ => false
    match e.httpStatus with
    | none => later
    | some status =>
      if status == 408 || status == 429 || 500 ≤ status && status ≤ 599 then true
      else if 400 ≤ status && status ≤ 499 then false
      else later

end GoError

/-- The errors of `CheckAndReserveWorkflowBudget`. -/
inductive WorkflowError where
  | invalid (message : String)
  | notFound
  | denied (e : DeniedError)
  | failed (e : GoError)

/-- The errors of a completion. All but `call` are raised before the provider is reached. -/
inductive LLMError where
  | policyRequired
  | unknownRoute (route : String)
  | fallbackNotConfigured
  | noOperation
  | noWorkspace
  | ledgerUnbound
  | ledger (e : LedgerError)
  | workflow (e : WorkflowError)
  | routeUnavailable (route reason : String)
  | inputBoundUnsupported (route : String)
  | inputBoundFailed (route message : String)
  | inputTokenLimit (route : String) (upperBound maximum : Int)
  | pricing (e : PricingError)
  | unknownProvider (name : String)
  | panicked
  | call (e : GoError)

namespace LLMError

/-- `IsAvailabilityError`, through the wrappers that keep the chain. -/
def isAvailability : LLMError → Bool
  | call e => e.isAvailability
  | workflow (.failed e) => e.isAvailability
  | _ => false

/-- `errors.Is(err, ErrCompletionCapture)`. -/
def isCapture : LLMError → Bool
  | call e => e.capture
  | workflow (.failed e) => e.capture
  | _ => false

end LLMError

structure RoutePolicy where
  provider : String
  model : String
  baseURL : String
  priceRevision : String
  temperature : Rat
  maxInputTokens : Int
  maxOutputTokens : Int
  inputUSDPerMillion : Int
  cachedInputUSDPerMillion : Int
  outputUSDPerMillion : Int

structure LLMPolicy where
  fingerprint : String
  primary : RoutePolicy
  fallback : Option RoutePolicy

/-- The settings the orchestrator reads; `policy` is `EnforcedLLMPolicy()`, and `none` is legacy
mode. -/
structure LLMConfig where
  policy : Option LLMPolicy
  llmProvider : String
  llmFallbackProvider : String
  llmModel : String
  llmCallMaxRetries : Int
  llmCacheTTL : Int
  /-- `getBoundedInt("LLM_CALL_MAX_RETRIES", _, 0, 10)`; only legacy mode has a default out of these
  bounds, the value of `LLM_MAX_RETRIES`. -/
  retries_bounded : policy.isSome → 0 ≤ llmCallMaxRetries ∧ llmCallMaxRetries ≤ 10

inductive ExecutionPolicy where
  | default | atMostOnce

structure StructuredOutput where
  name : String
  description : String
  schema : String

structure CompletionRequest where
  model : String
  system : String
  user : String
  temperature : Rat
  jsonMode : Bool
  maxOutputTokens : Int
  structuredOutput : Option StructuredOutput
  executionPolicy : ExecutionPolicy

structure PreparedCall where
  route : String
  provider : String
  model : String
  endpoint : String
  policyFingerprint : String
  priceRevision : String
  requestHash : String
  request : CompletionRequest
  maxInputTokens : Int
  maxOutputTokens : Int
  inputUSDPerMillion : Int
  cachedInputUSDPerMillion : Int
  outputUSDPerMillion : Int

structure UsageMetadata where
  inputTokensPresent : Bool
  outputTokensPresent : Bool
  cachedInputTokensPresent : Bool
  contradictory : Bool
  unknownCategories : List String

structure CompletionResponse where
  content : String
  inputTokens : Int
  cachedInputTokens : Int
  outputTokens : Int
  usageMetadata : UsageMetadata
  responseID : String
  finishReason : String

structure CompletionResult where
  response : CompletionResponse
  cacheHit : Bool
  provider : String
  model : String

/-- `cache.Entry`. -/
structure CacheEntry where
  content : String
  inputTokens : Int
  outputTokens : Int
  responseID : String
  finishReason : String
  provider : String
  model : String

structure DispatchOperation where
  kind : String
  id : String
  logicalAttempt : Int
  workspaceID : WorkspaceID
  workflowID : String

def operationDSL : String := "dsl"

/-- The values a context carries: the operation, and the workspace of the principal. -/
structure CallContext where
  operation : Option DispatchOperation
  principal : Option WorkspaceID

/-- The hashing, redaction and sanitizing functions of the package. -/
structure Codec where
  requestHash : CompletionRequest → String
  sha256 : String → String
  sanitize : String → String
  sanitizeError : String → String
  redact : String → String

/-- What comes of one attempt at a transaction: a decision, a lock that was busy, or another
failure. An attempt that fails may have been committed. -/
inductive Attempt (α : Type) where
  | done (r : Except LedgerError α)
  | busy
  | down

inductive CacheAnswer where
  | failed | miss
  | hit (entry : CacheEntry)

structure ProviderInfo where
  name : String
  /-- It is an `InputTokenUpperBounder`. -/
  bounder : Bool

/-- What `Provider.Complete` returns; `empty` is no response and no error. -/
inductive ProviderOutcome where
  | response (r : CompletionResponse)
  | empty
  | failed (e : GoError)

/-- The trace after a physical call: the adapter has captured it, the orchestrator has, or the
capture has failed. -/
inductive Boundary where
  | adapter | captured
  | failed (message : String)

inductive LedgerTx where
  | markPossiblyDispatched (identity : DispatchIdentity)
  | settleTrusted (identity : DispatchIdentity) (usage : Usage) (cost : Int) (errorClass : String)
  | settleUncertain (identity : DispatchIdentity) (reason : String)
  | release (identity : DispatchIdentity) (reason : String)

inductive LLMOp where
  | providers (route : String)
  | closedRoute (route : String)
  | closeRoute (route reason : String)
  | cacheGet (key : String)
  | cacheSet (key : String) (entry : CacheEntry)
  | traceCacheHit (request : CompletionRequest) (result : CompletionResult)
  | budgetLedger
  | workflowBudgetLedger
  | inputTokenUpperBound (route : String) (request : CompletionRequest)
  | budgetDay
  | ctxDone
  | reserve (r : ReserveRequest)
  | ledger (tx : LedgerTx)
  | checkAndReserveWorkflowBudget (workflowID : String) (estimate : Int)
  | addWorkflowSpend (workflowID : String) (cost : Int)
  /-- `Provider.Complete`, under the identity it was admitted for in enforced mode. -/
  | complete (route : String) (dispatch : Option DispatchIdentity) (request : CompletionRequest)
  | traceBoundary (request : CompletionRequest) (error : Option GoError)

@[reducible] def LLMOp.Answer : LLMOp → Type
  | providers _ => Option ProviderInfo
  | closedRoute _ => String
  | closeRoute _ _ => Unit
  | cacheGet _ => CacheAnswer
  | cacheSet _ _ => Unit
  | traceCacheHit _ _ => Option String
  | budgetLedger => Bool
  | workflowBudgetLedger => Bool
  | inputTokenUpperBound _ _ => Except String Int
  | budgetDay => String
  | ctxDone => Bool
  | reserve _ => Attempt BudgetEntry
  | ledger _ => Attempt Unit
  | checkAndReserveWorkflowBudget _ _ => Except WorkflowError Unit
  | addWorkflowSpend _ _ => Bool
  | complete _ _ _ => ProviderOutcome
  | traceBoundary _ _ => Boundary

abbrev LLMProg : Type → Type := Prog LLMOp LLMOp.Answer

namespace Llm

abbrev perform (o : LLMOp) : LLMProg o.Answer := Prog.perform o

/-- `len(ledgerRetryDelays)`. -/
def ledgerRetries : Nat := 2

/-- `withImmediateTx`, with `retries` retries left. -/
def withImmediateTx {α : Type} (operation : String) (attempt : LLMProg (Attempt α))
    (retries : Nat) : LLMProg (Except LedgerError α) := do
  match ← attempt with
  | .done r => pure r
  | .down => pure (.error (.unavailable operation))
  | .busy =>
    match retries with
    | 0 => pure (.error (.unavailable operation))
    | retries + 1 =>
      if ← perform .ctxDone then pure (.error (.unavailable operation))
      else withImmediateTx operation attempt retries

def LedgerTx.operation : LedgerTx → String
  | .markPossiblyDispatched _ => "mark_dispatched"
  | .settleTrusted _ _ _ _ => "settle_trusted"
  | .settleUncertain _ _ => "settle_uncertain"
  | .release _ _ => "release"

/-- The methods of `BudgetLedger`. -/
def ledgerReserve (r : ReserveRequest) : LLMProg (Except LedgerError BudgetEntry) :=
  withImmediateTx "reserve" (perform (.reserve r)) ledgerRetries

def ledgerTx (tx : LedgerTx) : LLMProg (Except LedgerError Unit) :=
  withImmediateTx (LedgerTx.operation tx) (perform (.ledger tx)) ledgerRetries

variable (codec : Codec) (cfg : LLMConfig)

def prepareCall (route : String) (req : CompletionRequest) : Except LLMError PreparedCall := do
  let policy ← match cfg.policy with
    | none => .error .policyRequired
    | some policy => .ok policy
  let routePolicy ← match route with
    | "primary" => .ok policy.primary
    | "fallback" =>
      match policy.fallback with
      | none => .error .fallbackNotConfigured
      | some fallback => .ok fallback
    | _ => .error (.unknownRoute route)
  let preparedRequest : CompletionRequest :=
    { req with
      model := routePolicy.model
      temperature := routePolicy.temperature
      maxOutputTokens := routePolicy.maxOutputTokens
      executionPolicy := .atMostOnce }
  pure {
    route := route
    provider := routePolicy.provider
    model := routePolicy.model
    endpoint := routePolicy.baseURL
    policyFingerprint := policy.fingerprint
    priceRevision := routePolicy.priceRevision
    requestHash := codec.requestHash preparedRequest
    request := preparedRequest
    maxInputTokens := routePolicy.maxInputTokens
    maxOutputTokens := routePolicy.maxOutputTokens
    inputUSDPerMillion := routePolicy.inputUSDPerMillion
    cachedInputUSDPerMillion := routePolicy.cachedInputUSDPerMillion
    outputUSDPerMillion := routePolicy.outputUSDPerMillion }

def preparedCacheKey (call : PreparedCall) : String :=
  codec.sha256 (call.policyFingerprint ++ "\x00" ++ call.route ++ "\x00" ++ call.provider ++
    "\x00" ++ call.model ++ "\x00" ++ call.endpoint ++ "\x00" ++ call.priceRevision ++ "\x00" ++
    call.requestHash)

def preparedRates (call : PreparedCall) : Rates :=
  ⟨call.inputUSDPerMillion, call.cachedInputUSDPerMillion, call.outputUSDPerMillion⟩

def preparedCaps (call : PreparedCall) : Caps := ⟨call.maxInputTokens, call.maxOutputTokens⟩

def resolveDispatchWorkspace (ctx : CallContext) (operation : DispatchOperation) :
    Except LLMError WorkspaceID :=
  if !isBlank operation.workspaceID then .ok (trimSpace operation.workspaceID)
  else
    match ctx.principal with
    | some workspaceID => if isBlank workspaceID then .error .noWorkspace else .ok workspaceID
    | none => .error .noWorkspace

def dispatchIdentity (ctx : CallContext) (ordinal : Int) : Except LLMError DispatchIdentity :=
  match ctx.operation with
  | none => .error .noOperation
  | some operation =>
    match resolveDispatchWorkspace ctx operation with
    | .error e => .error e
    | .ok workspaceID =>
      let identity : DispatchIdentity :=
        ⟨workspaceID, operation.kind, operation.id, operation.logicalAttempt, ordinal⟩
      match identity.validate with
      | .error e => .error (.ledger e)
      | .ok () => .ok identity

/-- What `RouteReady` checks of a registered provider against an enforced policy. -/
def contractMismatch (route : String) (provider : ProviderInfo) : Option String :=
  match cfg.policy with
  | none => none
  | some policy =>
    let expected := match route with
      | "primary" => policy.primary.provider
      | "fallback" => (policy.fallback.map (·.provider)).getD ""
      | _ => ""
    if expected == "" || codec.sanitize provider.name != expected then
      some "provider_contract_mismatch"
    else if !provider.bounder then some "input_bound_unavailable"
    else none

/-- `RouteReady`, with the reason why it is not. -/
def routeReady (route : String) : LLMProg (Option String) := do
  match ← perform (.providers route) with
  | none => pure (some "not_constructed")
  | some provider =>
    match contractMismatch codec cfg route provider with
    | some reason => pure (some reason)
    | none =>
      let reason ← perform (.closedRoute route)
      pure (if reason == "" then none else some reason)

def preparedProvider (prepared : PreparedCall) : LLMProg (Except LLMError ProviderInfo) := do
  match ← perform (.providers prepared.route) with
  | none => pure (.error (.routeUnavailable prepared.route "not_constructed"))
  | some provider =>
    if codec.sanitize provider.name != prepared.provider then
      pure (.error (.routeUnavailable prepared.route "provider_contract_mismatch"))
    else pure (.ok provider)

def normalizeCompletionUsage (r : CompletionResponse) : CompletionResponse :=
  { r with
    inputTokens := max 0 r.inputTokens
    cachedInputTokens := max 0 r.cachedInputTokens
    outputTokens := max 0 r.outputTokens
    usageMetadata := { r.usageMetadata with
      contradictory := r.usageMetadata.contradictory || r.inputTokens < 0 ||
        r.cachedInputTokens < 0 || r.outputTokens < 0 } }

def wrapCompletionError (text : String) (e : GoError) : GoError :=
  { e with message := text ++ ": " ++ codec.sanitizeError e.message }

/-- One attempt of `completeProviderWithRetry`: its error, or the result that ends the call. -/
def attemptProvider (req : CompletionRequest) (providerName : String) (dispatch : Option DispatchIdentity) :
    LLMProg (Except (Except GoError CompletionResponse) GoError) := do
  match ← perform (.complete providerName dispatch req) with
  | .response r =>
    match ← perform (.traceBoundary req none) with
    | .adapter => pure (.error (.ok r))
    | .captured => pure (.error (.ok (normalizeCompletionUsage r)))
    | .failed message => pure (.error (.error (.captureFailed message)))
  | .empty =>
    let err := GoError.new "provider returned an empty response"
    match ← perform (.traceBoundary req (some err)) with
    | .failed message => pure (.error (.error (.captureFailed message)))
    | _ => pure (.ok err)
  | .failed err =>
    if err.capture then pure (.error (.error err))
    else
      match ← perform (.traceBoundary req (some err)) with
      | .failed message => pure (.error (.error (.captureFailed message)))
      | _ => pure (.ok err)

/-- The loop of `completeProviderWithRetry`, with `left` retries left of `maxRetries`. -/
def retryLoop (req : CompletionRequest) (providerName : String)
    (dispatch : Option DispatchIdentity) (maxRetries left : Nat) :
    LLMProg (Except GoError CompletionResponse) := do
  match ← attemptProvider req providerName dispatch with
  | .error result => pure result
  | .ok err =>
    match left with
    | 0 =>
      pure (.error (wrapCompletionError codec ("provider " ++ providerName ++ " failed after " ++
        toString maxRetries ++ " retries") err))
    | left + 1 => retryLoop req providerName dispatch maxRetries left

def completeProviderWithRetry (req : CompletionRequest) (providerName : String)
    (dispatch : Option DispatchIdentity) (maxRetries : Nat) :
    LLMProg (Except GoError CompletionResponse) :=
  retryLoop codec req providerName dispatch maxRetries maxRetries

structure UsageAssessment where
  usage : Usage
  trustworthy : Bool
  contractViolation : Bool
  reason : String
  unknownCategories : List String

namespace UsageAssessment

def untrusted (reason : String) : UsageAssessment := ⟨⟨0, 0, 0, false⟩, false, false, reason, []⟩

def violation (reason : String) (unknownCategories : List String) : UsageAssessment :=
  ⟨⟨0, 0, 0, false⟩, false, true, reason, unknownCategories⟩

end UsageAssessment

def usageFromResponse : Option CompletionResponse → UsageAssessment
  | none => .untrusted "missing_usage"
  | some resp =>
    let metadata := resp.usageMetadata
    if metadata.contradictory then .violation "contradictory_usage" []
    else if !metadata.unknownCategories.isEmpty then
      .violation "unknown_usage_category" metadata.unknownCategories
    else if !metadata.inputTokensPresent || !metadata.outputTokensPresent then
      .untrusted "missing_usage"
    else if resp.inputTokens < 0 || resp.cachedInputTokens < 0 || resp.outputTokens < 0 then
      .violation "contradictory_usage" []
    else if 0 < resp.cachedInputTokens && !metadata.cachedInputTokensPresent then
      .violation "contradictory_usage" []
    else if resp.inputTokens < resp.cachedInputTokens then .violation "contradictory_usage" []
    else
      ⟨⟨resp.inputTokens - resp.cachedInputTokens, resp.cachedInputTokens, resp.outputTokens,
        metadata.cachedInputTokensPresent⟩, true, false, "", []⟩

def addWorkflowSpend (ctx : CallContext) (amount : Int) : LLMProg Unit := do
  if amount ≤ 0 then pure ()
  else if !(← perform .workflowBudgetLedger) then pure ()
  else
    match ctx.operation with
    | none => pure ()
    | some operation =>
      if operation.kind != operationDSL || operation.workflowID == "" then pure ()
      else
        let _ ← perform (.addWorkflowSpend operation.workflowID amount)
        pure ()

/-- `settleUncertain`: a failure is logged. -/
def settleUncertain (identity : DispatchIdentity) (reason : String) : LLMProg Unit := do
  let _ ← ledgerTx (.settleUncertain identity reason)
  pure ()

def settleAdmitted (ctx : CallContext) (identity : DispatchIdentity) (prepared : PreparedCall)
    (reserved : Int) (result : Except GoError CompletionResponse) : LLMProg Unit := do
  let assessment := usageFromResponse result.toOption
  if assessment.contractViolation then
    settleUncertain identity assessment.reason
    perform (.closeRoute prepared.route "usage_contract_violation")
    addWorkflowSpend ctx reserved
  else
    match assessment.trustworthy, result with
    | true, .ok _ =>
      match validateUsage assessment.usage (preparedCaps prepared) assessment.unknownCategories with
      | .error _ =>
        settleUncertain identity "usage_out_of_bounds"
        perform (.closeRoute prepared.route "usage_contract_violation")
        addWorkflowSpend ctx reserved
      | .ok () =>
        match settledCost (preparedRates prepared) assessment.usage with
        | .error _ =>
          settleUncertain identity "unpriceable_usage"
          perform (.closeRoute prepared.route "usage_contract_violation")
          addWorkflowSpend ctx reserved
        | .ok cost =>
          -- a settlement that fails is logged
          let _ ← ledgerTx (.settleTrusted identity assessment.usage cost "")
          addWorkflowSpend ctx cost
    | _, _ =>
      let reason := match result with
        | .error callErr => if callErr.isAvailability then "availability_failure" else "failed_call"
        | .ok _ => if assessment.reason == "" then "missing_usage" else assessment.reason
      settleUncertain identity reason
      addWorkflowSpend ctx reserved

def dispatchMarked (ctx : CallContext) (prepared : PreparedCall) (identity : DispatchIdentity)
    (reserved : Int) : LLMProg (Except LLMError CompletionResponse) := do
  let result ← completeProviderWithRetry codec prepared.request prepared.route (some identity)
    cfg.llmCallMaxRetries.toNat
  settleAdmitted ctx identity prepared reserved result
  match result with
  | .error e => pure (.error (.call e))
  | .ok resp => pure (.ok resp)

def checkWorkflowBudget (ctx : CallContext) (reserved : Int) : LLMProg (Except WorkflowError Unit) := do
  let bound ← perform .workflowBudgetLedger
  match ctx.operation with
  | none => pure (.ok ())
  | some operation =>
    if operation.kind == operationDSL && operation.workflowID != "" && bound then
      perform (.checkAndReserveWorkflowBudget operation.workflowID reserved)
    else pure (.ok ())

def dispatchReserved (ctx : CallContext) (prepared : PreparedCall) (identity : DispatchIdentity)
    (reserved : Int) : LLMProg (Except LLMError CompletionResponse) := do
  match ← checkWorkflowBudget ctx reserved with
  | .error e =>
    let _ ← ledgerTx (.release identity "workflow_budget_denied")
    pure (.error (.workflow e))
  | .ok () =>
    match ← ledgerTx (.markPossiblyDispatched identity) with
    | .error e =>
      let _ ← ledgerTx (.release identity "dispatch_marker_failed")
      pure (.error (.ledger e))
    | .ok () => dispatchMarked codec cfg ctx prepared identity reserved

def admissible (ctx : CallContext) (prepared : PreparedCall) (ordinal : Int) :
    LLMProg (Except LLMError (DispatchIdentity × Int)) := do
  match ← routeReady codec cfg prepared.route with
  | some reason => pure (.error (.routeUnavailable prepared.route reason))
  | none =>
    if !(← perform .budgetLedger) then pure (.error .ledgerUnbound)
    else
      match dispatchIdentity ctx ordinal with
      | .error e => pure (.error e)
      | .ok identity =>
        match ← preparedProvider codec prepared with
        | .error e => pure (.error e)
        | .ok provider =>
          if !provider.bounder then pure (.error (.inputBoundUnsupported prepared.route))
          else
            match ← perform (.inputTokenUpperBound prepared.route prepared.request) with
            | .error message => pure (.error (.inputBoundFailed prepared.route message))
            | .ok upperBound =>
              if upperBound < 0 || prepared.maxInputTokens < upperBound then
                pure (.error (.inputTokenLimit prepared.route upperBound prepared.maxInputTokens))
              else
                match reservation (preparedRates prepared) (preparedCaps prepared) with
                | .error e => pure (.error (.pricing e))
                | .ok reserved => pure (.ok (identity, reserved))

def reserveRequest (prepared : PreparedCall) (identity : DispatchIdentity) (reserved : Int)
    (budgetDay : String) : ReserveRequest where
  identity := identity
  budgetDay := budgetDay
  routeSlot := match prepared.route with
    | "primary" => .primary
    | "fallback" => .fallback
    | route => .other route
  provider := prepared.provider
  model := prepared.model
  endpoint := prepared.endpoint
  policyFingerprint := prepared.policyFingerprint
  priceRevision := prepared.priceRevision
  requestHash := prepared.requestHash
  rates := preparedRates prepared
  caps := preparedCaps prepared
  reserved := reserved

def dispatchAdmitted (ctx : CallContext) (prepared : PreparedCall) (ordinal : Int) :
    LLMProg (Except LLMError CompletionResponse) := do
  match ← admissible codec cfg ctx prepared ordinal with
  | .error e => pure (.error e)
  | .ok (identity, reserved) =>
    let budgetDay ← perform .budgetDay
    match ← ledgerReserve (reserveRequest prepared identity reserved budgetDay) with
    | .error e => pure (.error (.ledger e))
    | .ok _ => dispatchReserved codec cfg ctx prepared identity reserved

def cachedResult (entry : CacheEntry) (provider model : String) : CompletionResult where
  response := ⟨entry.content, entry.inputTokens, 0, entry.outputTokens,
    ⟨false, false, false, false, []⟩, entry.responseID, entry.finishReason⟩
  cacheHit := true
  provider := if entry.provider == "" then provider else entry.provider
  model := if entry.model == "" then model else entry.model

def cacheEntry (resp : CompletionResponse) (provider model : String) : CacheEntry where
  content := codec.redact resp.content
  inputTokens := resp.inputTokens
  outputTokens := resp.outputTokens
  responseID := codec.sanitize resp.responseID
  finishReason := codec.sanitize resp.finishReason
  provider := codec.sanitize provider
  model := codec.sanitize model

/-- `cacheSafeCompletionContent`. -/
def cacheSafe (content : String) : Bool := codec.redact content == content

def cacheHit (req : CompletionRequest) (result : CompletionResult) :
    LLMProg (Except LLMError CompletionResult) := do
  match ← perform (.traceCacheHit req result) with
  | some message => pure (.error (.call (.captureFailed message)))
  | none => pure (.ok result)

def dispatchRoutes (ctx : CallContext) (req : CompletionRequest) (primary : PreparedCall)
    (allowFallback : Bool) : LLMProg (Except LLMError (CompletionResponse × PreparedCall)) := do
  match ← dispatchAdmitted codec cfg ctx primary ordinalPrimary with
  | .ok resp => pure (.ok (resp, primary))
  | .error err =>
    if allowFallback && err.isAvailability then
      match prepareCall codec cfg "fallback" req with
      | .error _ => pure (.error err)
      | .ok fallback =>
        match ← dispatchAdmitted codec cfg ctx fallback ordinalFallback with
        | .ok resp => pure (.ok (resp, fallback))
        | .error fallbackErr => pure (.error fallbackErr)
    else pure (.error err)

/-- What `completeEnforced` does on a cache miss. -/
def completeAdmitted (ctx : CallContext) (req : CompletionRequest) (primary : PreparedCall)
    (allowFallback : Bool) : LLMProg (Except LLMError CompletionResult) := do
  match ← dispatchRoutes codec cfg ctx req primary allowFallback with
  | .error e => pure (.error e)
  | .ok (resp, used) =>
    if 0 < cfg.llmCacheTTL && used.route == primary.route && cacheSafe codec resp.content then
      perform (.cacheSet (preparedCacheKey codec primary) (cacheEntry codec resp used.provider used.model))
    pure (.ok ⟨resp, false, used.provider, used.model⟩)

def completeEnforced (ctx : CallContext) (req : CompletionRequest) (allowFallback : Bool) :
    LLMProg (Except LLMError CompletionResult) := do
  match prepareCall codec cfg "primary" req with
  | .error e => pure (.error e)
  | .ok primary =>
    match dispatchIdentity ctx ordinalPrimary with
    | .error e => pure (.error e)
    | .ok _ =>
      match ← routeReady codec cfg primary.route with
      | some reason => pure (.error (.routeUnavailable primary.route reason))
      | none =>
        match ← perform (.cacheGet (preparedCacheKey codec primary)) with
        | .hit entry => cacheHit primary.request (cachedResult entry primary.provider primary.model)
        | .failed => completeAdmitted codec cfg ctx req primary allowFallback
        | .miss => completeAdmitted codec cfg ctx req primary allowFallback

/-- `completeWithRetry`. A negative bound leaves the loop without an attempt. -/
def completeWithRetry (req : CompletionRequest) (providerName : String) (maxRetries : Int) :
    LLMProg (Except LLMError CompletionResponse) := do
  match ← perform (.providers providerName) with
  | none => pure (.error (.unknownProvider providerName))
  | some _ =>
    if maxRetries < 0 then pure (.error .panicked)
    else
      match ← completeProviderWithRetry codec req providerName none maxRetries.toNat with
      | .error e => pure (.error (.call e))
      | .ok resp => pure (.ok resp)

def modelFromRequest (req : CompletionRequest) : String :=
  if req.model != "" then req.model else cfg.llmModel

def callProviders (req : CompletionRequest) (allowRetryAndFallback : Bool) :
    LLMProg (Except LLMError (CompletionResponse × String)) := do
  let provider := cfg.llmProvider
  let maxRetries := if allowRetryAndFallback then cfg.llmCallMaxRetries else 0
  match ← completeWithRetry codec req provider maxRetries with
  | .ok resp => pure (.ok (resp, provider))
  | .error .panicked => pure (.error .panicked)
  | .error err =>
    if allowRetryAndFallback && !err.isCapture && cfg.llmFallbackProvider != "" then
      match ← completeWithRetry codec req cfg.llmFallbackProvider 1 with
      | .ok resp => pure (.ok (resp, cfg.llmFallbackProvider))
      | .error err => pure (.error err)
    else pure (.error err)

/-- What `complete` does on a cache miss. -/
def completeUncached (req : CompletionRequest) (allowRetryAndFallback : Bool) :
    LLMProg (Except LLMError CompletionResult) := do
  let model := modelFromRequest cfg req
  match ← callProviders codec cfg req allowRetryAndFallback with
  | .error e => pure (.error e)
  | .ok (resp, usedProvider) =>
    if usedProvider == cfg.llmProvider && 0 < cfg.llmCacheTTL && cacheSafe codec resp.content then
      perform (.cacheSet (codec.requestHash req) (cacheEntry codec resp usedProvider model))
    pure (.ok ⟨resp, false, usedProvider, model⟩)

/-- `complete`: the legacy mode. -/
def complete (req : CompletionRequest) (allowRetryAndFallback : Bool) :
    LLMProg (Except LLMError CompletionResult) := do
  match ← perform (.cacheGet (codec.requestHash req)) with
  | .hit entry => cacheHit req (cachedResult entry cfg.llmProvider (modelFromRequest cfg req))
  | .failed => completeUncached codec cfg req allowRetryAndFallback
  | .miss => completeUncached codec cfg req allowRetryAndFallback

def Complete (ctx : CallContext) (req : CompletionRequest) : LLMProg (Except LLMError CompletionResult) :=
  if cfg.policy.isSome then completeEnforced codec cfg ctx req true
  else complete codec cfg req true

def CompleteOnce (ctx : CallContext) (req : CompletionRequest) :
    LLMProg (Except LLMError CompletionResult) :=
  if cfg.policy.isSome then completeEnforced codec cfg ctx req false
  else complete codec cfg { req with executionPolicy := .atMostOnce } false

end Llm

end Aegis
