import Aegis.Llm.Specs

/-!
# Llm.CompletionTrace

`llm/completion_trace.go`: how the calls of a completion become rows of `llm_provider_calls`, which
the sink inserts under the constraints of `store/store.go`.

`capturing` gives the operations of a completion their meaning for the trace: a provider answers as
it likes, and a row is there afterwards when the constraints admit it. Hashes stand for what is
hashed. Of a row the columns are kept that the constraints read, or that number it.
-/

namespace Aegis

namespace Llm

open Prog

/-! ## Rows -/

inductive BoundaryKind where
  | providerResponse | providerError | cacheHit
deriving DecidableEq

/-- `CompletionDispatchLineage`. -/
structure Lineage where
  identity : DispatchIdentity
  routeSlot : RouteSlot
  policyFingerprint : String
  priceRevision : String

structure AttemptKey where
  jobType : String
  jobID : String
  attemptNumber : Nat
deriving DecidableEq

/-- A row of `llm_provider_calls`. -/
structure ProviderCall where
  job : AttemptKey
  callIndex : Nat
  kind : BoundaryKind
  providerAttempt : Nat
  provider : String
  model : String
  requestHash : String
  dispatch : Option Lineage

/-- `completionBoundaryRecord`. -/
structure BoundaryRecord where
  kind : BoundaryKind
  response : Option CompletionResponse
  provider : String
  error : String

/-- What `completeProviderWithRetry` holds of the call that has just returned. -/
structure Pending where
  provider : String
  dispatch : Option DispatchIdentity
  eventsBefore : Nat
  outcome : ProviderOutcome

/-- The table and the ledger, the recorder, the state of the trace, and what has been asked so
far. -/
structure World where
  rows : List ProviderCall
  reserved : List ReserveRequest
  marked : List DispatchIdentity
  job : AttemptKey
  isOpen : Bool
  /-- `len(r.calls)`. -/
  written : Nat
  providerAttempts : Nat
  events : Nat
  last : Option BoundaryRecord
  pending : Option Pending
  invocations : List ProviderOutcome
  hits : Nat

structure Registry where
  registered : String → Bool
  name : String → String
  model : String → String
  traces : String → Bool

/-- `MAX(call_index)` of an attempt. -/
def lastIndex (job : AttemptKey) (rows : List ProviderCall) : Nat :=
  ((rows.filter fun row => row.job = job).map ProviderCall.callIndex).foldr max 0

namespace World

/-- `trg_llm_provider_calls_budget_join`. -/
def Joins (w : World) (row : ProviderCall) (l : Lineage) : Prop :=
  ∃ r ∈ w.reserved, r.identity = l.identity ∧ l.identity ∈ w.marked ∧ r.routeSlot = l.routeSlot ∧
    r.provider = row.provider ∧ r.model = row.model ∧ r.policyFingerprint = l.policyFingerprint ∧
    r.priceRevision = l.priceRevision ∧ r.requestHash = row.requestHash

/-- `idx_llm_provider_calls_dispatch` has no such tuple. -/
def Unused (w : World) (identity : DispatchIdentity) : Prop :=
  ∀ row ∈ w.rows, ∀ l, row.dispatch = some l → l.identity ≠ identity

/-- The trace takes the row: it is open, and number and dispatch are new. -/
def Admits (w : World) (row : ProviderCall) : Prop :=
  w.isOpen = true ∧ row.callIndex = lastIndex row.job w.rows + 1 ∧
    ∀ l, row.dispatch = some l → w.Unused l.identity ∧ (row.kind ≠ .cacheHit → w.Joins row l)

def insert (w : World) (row : ProviderCall) (record : BoundaryRecord) : World :=
  { w with
    rows := w.rows ++ [row]
    written := w.written + 1
    events := w.events + 1
    last := some record }

def attempted (w : World) : World := { w with providerAttempts := w.providerAttempts + 1 }

end World

variable (codec : Codec) (cfg : LLMConfig) (reg : Registry)

def lineage (route : String) (identity : DispatchIdentity) : Lineage where
  identity := identity
  routeSlot := match route with
    | "primary" => .primary
    | "fallback" => .fallback
    | route => .other route
  policyFingerprint := (cfg.policy.map LLMPolicy.fingerprint).getD ""
  priceRevision := ((cfg.policy.bind fun policy =>
    if route = "fallback" then policy.fallback else some policy.primary).map
      RoutePolicy.priceRevision).getD ""

def named (s : String) : String := if s = "" then "unknown" else s

def rowOf (w : World) (kind : BoundaryKind) (providerAttempt : Nat) (provider model : String)
    (request : CompletionRequest) (dispatch : Option Lineage) : ProviderCall where
  job := w.job
  callIndex := w.written + 1
  kind := kind
  providerAttempt := providerAttempt
  provider := named (codec.sanitize provider)
  model := named (codec.sanitize model)
  requestHash := codec.requestHash request
  dispatch := dispatch

/-- The row of a physical call, of `TraceProviderResponse` and `TraceProviderError`. -/
def physicalRow (w : World) (kind : BoundaryKind) (provider model : String)
    (request : CompletionRequest) (dispatch : Option Lineage) : ProviderCall :=
  rowOf codec w kind (w.providerAttempts + 1) (codec.sanitize provider) (codec.sanitize model)
    request dispatch

def recordOf (provider : String) : ProviderOutcome → BoundaryRecord
  | .response r => ⟨.providerResponse, some r, codec.sanitize (codec.sanitize provider), ""⟩
  | .empty => ⟨.providerError, none, codec.sanitize (codec.sanitize provider),
      "provider returned an empty response"⟩
  | .failed e => ⟨.providerError, none, codec.sanitize (codec.sanitize provider), e.message⟩

def kindOf : ProviderOutcome → BoundaryKind
  | .response _ => .providerResponse
  | .empty => .providerError
  | .failed _ => .providerError

def normalized : ProviderOutcome → ProviderOutcome
  | .response r => .response (normalizeCompletionUsage r)
  | outcome => outcome

/-- The name under which `completeProviderWithRetry` traces. -/
def traceProviderName (route : String) : String :=
  if codec.sanitize (reg.name route) = "" then codec.sanitize route
  else codec.sanitize (reg.name route)

def adapterModel (route : String) (request : CompletionRequest) : String :=
  if request.model = "" then reg.model route else request.model

namespace World

variable (w : World)

def adapterRow (route : String) (dispatch : Option DispatchIdentity) (request : CompletionRequest)
    (outcome : ProviderOutcome) : ProviderCall :=
  physicalRow codec w (kindOf outcome) (reg.name route) (adapterModel reg route request) request
    (dispatch.map (lineage cfg route))

def orchestratorRow (p : Pending) (request : CompletionRequest) : ProviderCall :=
  physicalRow codec w (kindOf p.outcome) (traceProviderName codec reg p.provider)
    (modelFromRequest cfg request) request (p.dispatch.map (lineage cfg p.provider))

/-- `terminalResponseCapturedSince` and `terminalErrorCapturedSince`, of the call that has
returned. -/
def CapturedSince (p : Pending) : Prop :=
  p.eventsBefore < w.events ∧ ∃ record, w.last = some record ∧ record.kind = kindOf p.outcome ∧
    match p.outcome with
    | .response r => record.provider = codec.sanitize (traceProviderName codec reg p.provider) ∧
        record.response = some r
    | .empty => record.error = "provider returned an empty response"
    | .failed e => record.error = e.message

/-- The adapter captures the outcome that it answers with. Where its row does not get in, it answers
with the error of the capture. -/
def adapterCapture (route : String) (dispatch : Option DispatchIdentity)
    (request : CompletionRequest) : ProviderOutcome → World
  | .empty => w
  | .failed e =>
    if e.capture then w.attempted
    else w.attempted.insert (w.adapterRow codec cfg reg route dispatch request (.failed e))
      (recordOf codec (reg.name route) (.failed e))
  | .response r =>
    w.attempted.insert (w.adapterRow codec cfg reg route dispatch request (.response r))
      (recordOf codec (reg.name route) (.response r))

/-- The adapter fails with a capture error exactly when its row is not taken. -/
def AdapterAnswers (route : String) (dispatch : Option DispatchIdentity)
    (request : CompletionRequest) (outcome : ProviderOutcome) : Prop :=
  match outcome with
  | .empty => True
  | .failed e => e.capture = false ↔ w.Admits (w.adapterRow codec cfg reg route dispatch request outcome)
  | .response r => normalizeCompletionUsage r = r ∧
      w.Admits (w.adapterRow codec cfg reg route dispatch request outcome)

def returned (p : Pending) : World :=
  { w with invocations := w.invocations ++ [p.outcome], pending := some p }

end World

def cacheLineage (ctx : CallContext) : Option Lineage :=
  match cfg.policy, dispatchIdentity ctx ordinalPrimary with
  | some _, .ok identity => some (lineage cfg "primary" identity)
  | _, _ => none

/-- The row of `TraceCacheHit`. -/
def World.cacheRow (w : World) (request : CompletionRequest) (result : CompletionResult)
    (dispatch : Option Lineage) : ProviderCall :=
  rowOf codec w .cacheHit 0 result.provider result.model request dispatch

def cacheRecord (result : CompletionResult) : BoundaryRecord :=
  ⟨.cacheHit, some result.response, codec.sanitize result.provider, ""⟩

def World.next (ctx : CallContext) (w : World) : Answered LLMOp.Answer → World
  | ⟨.reserve r, .done (.ok _)⟩ => { w with reserved := w.reserved ++ [r] }
  | ⟨.ledger (.markPossiblyDispatched identity), .done (.ok _)⟩ =>
    { w with marked := w.marked ++ [identity] }
  | ⟨.cacheGet _, .hit _⟩ => { w with hits := w.hits + 1 }
  | ⟨.traceCacheHit request result, none⟩ =>
    w.insert (w.cacheRow codec request result (cacheLineage cfg ctx)) (cacheRecord codec result)
  | ⟨.complete route dispatch request, outcome⟩ =>
    let traced := if reg.traces route then w.adapterCapture codec cfg reg route dispatch request outcome
      else w
    traced.returned ⟨route, dispatch, w.events, outcome⟩
  | ⟨.traceBoundary request _, .captured⟩ =>
    match w.pending with
    | some p => w.attempted.insert (w.orchestratorRow codec cfg reg p request)
        (recordOf codec (traceProviderName codec reg p.provider) (normalized p.outcome))
    | none => w
  | ⟨.traceBoundary _ _, .failed _⟩ => w.attempted
  | _ => w

/-- What may be answered: rows are kept out by the constraints only. -/
def World.Answers (ctx : CallContext) (w : World) : Answered LLMOp.Answer → Prop
  | ⟨.providers route, info⟩ => info.isSome = reg.registered route ∧
      ∀ p, info = some p → p.name = reg.name route
  | ⟨.traceCacheHit request result, failure⟩ =>
    failure = none ↔ w.Admits (w.cacheRow codec request result (cacheLineage cfg ctx))
  | ⟨.complete route dispatch request, outcome⟩ =>
    if reg.traces route then w.AdapterAnswers codec cfg reg route dispatch request outcome
    else ∀ e, outcome = .failed e → e.capture = false
  | ⟨.traceBoundary request _, boundary⟩ =>
    ∀ p, w.pending = some p → match boundary with
      | .adapter => w.CapturedSince codec reg p
      | .captured => ¬w.CapturedSince codec reg p ∧ w.Admits (w.orchestratorRow codec cfg reg p request)
      | .failed _ => ¬w.CapturedSince codec reg p ∧ ¬w.Admits (w.orchestratorRow codec cfg reg p request)
  | _ => True

/-- The providers answer with outcomes of `ok`. -/
def capturing (ctx : CallContext) (ok : ProviderOutcome → Prop) : Protocol LLMOp.Answer World where
  allowed _ _ := True
  answers w o r := w.Answers codec cfg reg ctx ⟨o, r⟩ ∧ match o, r with
    | .complete _ _ _, outcome => ok outcome
    | _, _ => True
  next w o r := w.next codec cfg reg ctx ⟨o, r⟩

structure CompletionTraceMetadata where
  phase : String
  chunkIndex : Option Int

def completionOperationSuffix (metadata : CompletionTraceMetadata) : String :=
  if metadata.phase = "analysis" then
    match metadata.chunkIndex with
    | none => ""
    | some index => if index < 0 then "" else ":analysis:" ++ toString index
  else if metadata.phase = "synthesis" then ":synthesis"
  else if metadata.phase = "final" then ":final"
  else if metadata.phase = "selector-repair" then ":selector-repair"
  else ""

def completionDispatchContext (ctx : CallContext) (metadata : CompletionTraceMetadata) : CallContext :=
  let suffix := completionOperationSuffix metadata
  { ctx with operation := ctx.operation.map fun operation =>
      if suffix = "" || suffix.toList.isSuffixOf operation.id.toList then operation
      else { operation with id := operation.id ++ suffix } }

/-- `providerDispatchNotStarted`. -/
def notStarted : LLMError → Bool
  | .call _ => false
  | .unknownProvider _ => false
  | .panicked => false
  | _ => true

def TerminalCaptured (w : World) (result : Except LLMError CompletionResult) : Prop :=
  0 < w.events ∧ ∃ record, w.last = some record ∧ match result with
    | .ok r => record.kind = (if r.cacheHit then .cacheHit else .providerResponse) ∧
        record.provider = codec.sanitize r.provider ∧ record.response = some r.response
    | .error (.call e) => record.kind = .providerError ∧ (record.error = e.message ∨
        ∃ text cause, e = wrapCompletionError codec text cause ∧ record.error = cause.message)
    | .error (.unknownProvider name) => record.kind = .providerError ∧
        record.error = "unknown provider \"" ++ name ++ "\""
    | .error _ => False

def World.lateRow (w : World) (request : CompletionRequest) :
    Except LLMError CompletionResult → ProviderCall
  | .ok r =>
    if r.cacheHit then w.cacheRow codec request r none
    else rowOf codec w .providerResponse (w.providerAttempts + 1) r.provider r.model request none
  | .error _ => physicalRow codec w .providerError "unknown" request.model request none

def World.counted (w : World) : Except LLMError CompletionResult → World
  | .ok r => if r.cacheHit then w else w.attempted
  | .error _ => w.attempted

/-- What `CompleteWithTrace` makes of the result. What is captured late is not looked at again. -/
inductive Finishes (request : CompletionRequest) (w : World) :
    Except LLMError CompletionResult → Except LLMError CompletionResult → World → Prop where
  | withheld {e : LLMError} (h : e.isCapture = true ∨ notStarted e = true ∨ e = .panicked) :
      Finishes request w (.error e) (.error e) w
  | traced {result : Except LLMError CompletionResult}
      (hcapture : ∀ e, result = .error e → e.isCapture = false ∧ notStarted e = false ∧ e ≠ .panicked)
      (h : TerminalCaptured codec w result) : Finishes request w result result w
  | late {result : Except LLMError CompletionResult} {record : BoundaryRecord}
      (hcapture : ∀ e, result = .error e → e.isCapture = false ∧ notStarted e = false ∧ e ≠ .panicked)
      (h : ¬TerminalCaptured codec w result) (hrow : w.Admits (w.lateRow codec request result)) :
      Finishes request w result result
        ((w.counted result).insert (w.lateRow codec request result) record)
  | lost {result : Except LLMError CompletionResult} {message : String}
      (hcapture : ∀ e, result = .error e → e.isCapture = false ∧ notStarted e = false ∧ e ≠ .panicked)
      (h : ¬TerminalCaptured codec w result) (hrow : ¬w.Admits (w.lateRow codec request result)) :
      Finishes request w result (.error (.call (.captureFailed message)))
        (w.counted result)

/-- A run of `CompleteWithTrace`. -/
def CompletesWithTrace (ctx : CallContext) (metadata : CompletionTraceMetadata)
    (request : CompletionRequest) (w : World) (result : Except LLMError CompletionResult)
    (w' : World) : Prop :=
  ∃ t completed, (Complete codec cfg (completionDispatchContext ctx metadata) request).Leads t
      completed ∧
    (capturing codec cfg reg (completionDispatchContext ctx metadata) fun _ => True).Trusts w t ∧
    Finishes codec request
      ((capturing codec cfg reg (completionDispatchContext ctx metadata) fun _ => True).after w t)
      completed result w'

end Llm

end Aegis
