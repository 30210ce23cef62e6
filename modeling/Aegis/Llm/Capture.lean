import Aegis.Llm.TraceRows

/-!
# Llm.Capture

The calls that the recorder of an attempt takes of one completion, when its sink may refuse any of
them: failed calls, numbered from one, and then at most a response; or a cache hit alone.
-/

namespace Aegis

namespace Llm

open Prog

structure CapturedCall where
  kind : BoundaryKind
  providerAttempt : Nat
  responseID : String

/-- `completionTraceState`, with the calls that the sink has taken since. -/
structure Capture where
  calls : List CapturedCall
  providerAttempts : Nat
  last : Option BoundaryRecord
  pending : Option Pending

variable (codec : Codec) (cfg : LLMConfig) (reg : Registry)

def responseID : ProviderOutcome → String
  | .response r => codec.sanitize r.responseID
  | _ => ""

namespace Capture

def start : Capture := ⟨[], 0, none, none⟩

variable (c : Capture)

def attempted : Capture := { c with providerAttempts := c.providerAttempts + 1 }

def insert (call : CapturedCall) (record : BoundaryRecord) : Capture :=
  { c with calls := c.calls ++ [call], last := some record }

def physical (provider : String) (outcome : ProviderOutcome) : Capture :=
  c.attempted.insert ⟨kindOf outcome, c.providerAttempts + 1, responseID codec outcome⟩
    (recordOf codec provider outcome)

/-- `terminalResponseCapturedSince` and `terminalErrorCapturedSince`, of the call that has
returned. -/
def CapturedSince (p : Pending) : Prop :=
  p.eventsBefore < c.calls.length ∧ ∃ record, c.last = some record ∧ record.kind = kindOf p.outcome ∧
    match p.outcome with
    | .response r => record.provider = codec.sanitize (traceProviderName codec reg p.provider) ∧
        record.response = some r
    | .empty => record.error = "provider returned an empty response"
    | .failed e => record.error = e.message

def adapter (route : String) : ProviderOutcome → Capture
  | .empty => c
  | .failed e => if e.capture then c.attempted else c.physical codec (reg.name route) (.failed e)
  | .response r => c.physical codec (reg.name route) (.response r)

def next : Answered LLMOp.Answer → Capture
  | ⟨.traceCacheHit _ result, none⟩ =>
    c.insert ⟨.cacheHit, 0, codec.sanitize result.response.responseID⟩ (cacheRecord codec result)
  | ⟨.complete route dispatch _, outcome⟩ =>
    let traced := if reg.traces route then c.adapter codec reg route outcome else c
    { traced with pending := some ⟨route, dispatch, c.calls.length, outcome⟩ }
  | ⟨.traceBoundary _ _, .captured⟩ =>
    match c.pending with
    | some p => c.physical codec (traceProviderName codec reg p.provider) (normalized p.outcome)
    | none => c
  | ⟨.traceBoundary _ _, .failed _⟩ => c.attempted
  | _ => c

def Answers : Answered LLMOp.Answer → Prop
  | ⟨.providers route, info⟩ => info.isSome = reg.registered route ∧
      ∀ p, info = some p → p.name = reg.name route
  | ⟨.complete route _ _, outcome⟩ =>
    if reg.traces route then ∀ r, outcome = .response r → normalizeCompletionUsage r = r
    else ∀ e, outcome = .failed e → e.capture = false
  | ⟨.traceBoundary _ _, boundary⟩ =>
    ∀ p, c.pending = some p → (boundary = .adapter ↔ c.CapturedSince codec reg p)
  | _ => True

def Terminal : Except LLMError CompletionResult → Prop
  | .ok r => c.calls ≠ [] ∧ ∃ record, c.last = some record ∧
      record.kind = (if r.cacheHit then .cacheHit else .providerResponse) ∧
      record.provider = codec.sanitize r.provider ∧ record.response = some r.response
  | .error (.call e) => c.calls ≠ [] ∧ ∃ record, c.last = some record ∧
      record.kind = .providerError ∧ (record.error = e.message ∨
        ∃ text cause, e = wrapCompletionError codec text cause ∧ record.error = cause.message)
  | .error (.unknownProvider name) => c.calls ≠ [] ∧ ∃ record, c.last = some record ∧
      record.kind = .providerError ∧ record.error = "unknown provider \"" ++ name ++ "\""
  | .error _ => False

/-- The call of a result that no boundary has captured, taken or not. -/
def late (record : BoundaryRecord) : Except LLMError CompletionResult → Capture
  | .ok r =>
    if r.cacheHit then c.insert ⟨.cacheHit, 0, codec.sanitize r.response.responseID⟩ record
    else c.attempted.insert
      ⟨.providerResponse, c.providerAttempts + 1, codec.sanitize r.response.responseID⟩ record
  | .error _ => c.attempted.insert ⟨.providerError, c.providerAttempts + 1, ""⟩ record

def Started (result : Except LLMError CompletionResult) : Prop :=
  ∀ e, result = .error e → e.isCapture = false ∧ notStarted e = false ∧ e ≠ .panicked

/-- What `CompleteWithTrace` makes of the result. -/
inductive Finishes : Except LLMError CompletionResult → Except LLMError CompletionResult →
    Capture → Prop where
  | withheld {e : LLMError} (h : e.isCapture = true ∨ notStarted e = true ∨ e = .panicked) :
      Finishes (.error e) (.error e) c
  | traced {result : Except LLMError CompletionResult} (hstarted : Started result)
      (h : c.Terminal codec result) : Finishes result result c
  | late {result : Except LLMError CompletionResult} {record : BoundaryRecord}
      (hstarted : Started result) (h : ¬c.Terminal codec result) :
      Finishes result result (c.late codec record result)
  | lost {result : Except LLMError CompletionResult} {message : String}
      (hstarted : Started result) (h : ¬c.Terminal codec result) :
      Finishes result (.error (.call (.captureFailed message))) c

end Capture

def tracing : Protocol LLMOp.Answer Capture where
  allowed _ _ := True
  answers c o r := c.Answers codec reg ⟨o, r⟩
  next c o r := c.next codec reg ⟨o, r⟩

/-- A run of `CompleteWithTrace`, with the calls that the recorder has of it. -/
def Captures (ctx : CallContext) (metadata : CompletionTraceMetadata)
    (request : CompletionRequest) (result : Except LLMError CompletionResult)
    (calls : List CapturedCall) : Prop :=
  ∃ t completed c, (Complete codec cfg (completionDispatchContext ctx metadata) request).Leads t
      completed ∧
    (tracing codec reg).Trusts Capture.start t ∧
    ((tracing codec reg).after Capture.start t).Finishes codec completed result c ∧ c.calls = calls

/-- The names of the providers: sanitizing leaves them alone, and a legacy provider is registered
under its own. -/
structure Registered (codec : Codec) (cfg : LLMConfig) (reg : Registry) : Prop where
  plain : ∀ route, Plain codec (reg.name route)
  legacy : cfg.policy = none → ∀ name, reg.registered name = true → reg.name name = name

def errorCalls (n : Nat) : List CapturedCall :=
  (List.range n).map fun i => ⟨.providerError, i + 1, ""⟩

theorem errorCalls_succ (n : Nat) : errorCalls (n + 1) = errorCalls n ++ [⟨.providerError, n + 1, ""⟩] := by
  simp [errorCalls, List.range_succ]

@[simp] theorem errorCalls_length (n : Nat) : (errorCalls n).length = n := by
  simp [errorCalls]

inductive Completes : List CapturedCall → Prop where
  | cacheHit (id : String) : Completes [⟨.cacheHit, 0, id⟩]
  | response (n : Nat) (id : String) : Completes (errorCalls n ++ [⟨.providerResponse, n + 1, id⟩])

inductive Fails : List CapturedCall → Prop where
  | errors (n : Nat) : Fails (errorCalls n)

namespace Capture

def Failing (c : Capture) : Prop := c.calls = errorCalls c.providerAttempts

def Halted (c : Capture) (refused : Bool) : Prop :=
  Fails c.calls ∧ (refused = false → c.Failing)

def Replied (codec : Codec) (reg : Registry) (c : Capture) (route : String)
    (resp : CompletionResponse) : Prop :=
  (∃ n, c.calls = errorCalls n ++ [⟨.providerResponse, n + 1, codec.sanitize resp.responseID⟩]) ∧
    ∃ record, c.last = some record ∧ record.kind = .providerResponse ∧
      record.provider = reg.name route ∧ record.response = some resp

variable {c : Capture}

theorem Failing.halted (h : c.Failing) (refused : Bool) : c.Halted refused := by
  refine ⟨?_, fun _ => h⟩
  rw [h]
  exact .errors _

theorem Failing.failed (h : c.Failing) (provider : String) {outcome : ProviderOutcome}
    (hno : ∀ r, outcome ≠ .response r) : (c.physical codec provider outcome).Failing := by
  show c.calls ++ [_] = errorCalls (c.providerAttempts + 1)
  rw [h, errorCalls_succ]
  cases outcome with
  | response r => exact absurd rfl (hno r)
  | empty | failed e => rfl

theorem Failing.replied (hnames : Registered codec cfg reg) (h : c.Failing) (route : String)
    {r resp : CompletionResponse} (hid : r.responseID = resp.responseID) {provider : String}
    (hprovider : provider = reg.name route) :
    let c' := c.physical codec provider (.response r)
    (∃ n, c'.calls = errorCalls n ++ [⟨.providerResponse, n + 1, codec.sanitize resp.responseID⟩]) ∧
      ∃ record, c'.last = some record ∧ record.kind = .providerResponse ∧
        record.provider = reg.name route ∧ record.response = some r := by
  refine ⟨⟨c.providerAttempts, ?_⟩, _, rfl, rfl, ?_, rfl⟩
  · show c.calls ++ [_] = _
    rw [h, ← hid]
    rfl
  · show codec.sanitize (codec.sanitize provider) = reg.name route
    obtain ⟨-, hplain⟩ := hnames.plain route
    rw [hprovider, hplain, hplain]

end Capture

variable {codec cfg reg} {c : Capture} {ctx : CallContext} {req : CompletionRequest}
  {route : String} {d : Option DispatchIdentity}

theorem traceProviderName_plain (hnames : Registered codec cfg reg) (route : String) :
    traceProviderName codec reg route = reg.name route := by
  obtain ⟨hne, hsame⟩ := hnames.plain route
  rw [traceProviderName, hsame, if_neg hne]

def AttemptTraced (codec : Codec) (reg : Registry) (route : String)
    (a : Except (Except GoError CompletionResponse) GoError) (c : Capture) : Prop :=
  match a with
  | .error (.ok resp) => c.Replied codec reg route resp
  | .error (.error e) => e.capture = true ∧ Fails c.calls
  | .ok _ => c.Failing

theorem normalizeCompletionUsage_id (r : CompletionResponse) :
    (normalizeCompletionUsage r).responseID = r.responseID := rfl

theorem afterCall_uncaptured (hnames : Registered codec cfg reg) {outcome : ProviderOutcome}
    (h : c.Failing) (hpending : c.pending = some ⟨route, d, c.calls.length, outcome⟩)
    (hcapture : ∀ e, outcome = .failed e → e.capture = false) :
    Obeys (tracing codec reg) (afterCall req outcome) c (AttemptTraced codec reg route) := by
  have hno : ¬c.CapturedSince codec reg ⟨route, d, c.calls.length, outcome⟩ :=
    fun hsince => absurd hsince.1 (Nat.lt_irrefl _)
  have hadapter : ∀ {e : Option GoError},
      ¬c.Answers codec reg ⟨.traceBoundary req e, .adapter⟩ :=
    fun hanswer => hno ((hanswer _ hpending).mp rfl)
  have hrefused : Fails c.attempted.calls := by
    show Fails c.calls
    rw [h]
    exact .errors _
  cases outcome with
  | response r =>
    refine obeys_perform_bind.mpr ⟨trivial, fun boundary hanswer => ?_⟩
    cases boundary with
    | adapter => exact absurd hanswer hadapter
    | captured =>
      show Capture.Replied _ _ (Capture.next codec reg c _) _ _
      simp only [Capture.next, hpending]
      exact h.replied codec cfg reg hnames route (normalizeCompletionUsage_id r)
        (traceProviderName_plain hnames route)
    | failed message => exact ⟨rfl, hrefused⟩
  | empty =>
    refine obeys_perform_bind.mpr ⟨trivial, fun boundary hanswer => ?_⟩
    cases boundary with
    | adapter => exact absurd hanswer hadapter
    | captured =>
      show Capture.Failing (Capture.next codec reg c _)
      simp only [Capture.next, hpending]
      exact h.failed codec _ (by intro r; simp [normalized])
    | failed message => exact ⟨rfl, hrefused⟩
  | failed e =>
    rw [afterCall, if_neg (by rw [hcapture e rfl]; exact Bool.false_ne_true)]
    refine obeys_perform_bind.mpr ⟨trivial, fun boundary hanswer => ?_⟩
    cases boundary with
    | adapter => exact absurd hanswer hadapter
    | captured =>
      show Capture.Failing (Capture.next codec reg c _)
      simp only [Capture.next, hpending]
      exact h.failed codec _ (by intro r; simp [normalized])
    | failed message => exact ⟨rfl, hrefused⟩

theorem capturedSince_adapter (hnames : Registered codec cfg reg) (outcome : ProviderOutcome) :
    Capture.CapturedSince codec reg
      { c.physical codec (reg.name route) outcome with
        pending := some ⟨route, d, c.calls.length, outcome⟩ }
      ⟨route, d, c.calls.length, outcome⟩ := by
  obtain ⟨-, hplain⟩ := hnames.plain route
  have hlength : c.calls.length < (c.physical codec (reg.name route) outcome).calls.length := by
    simp [Capture.physical, Capture.insert, Capture.attempted]
  refine ⟨hlength, _, rfl, ?_⟩
  cases outcome with
  | response r =>
    refine ⟨rfl, ?_, rfl⟩
    show codec.sanitize (codec.sanitize (reg.name route)) =
      codec.sanitize (traceProviderName codec reg route)
    rw [traceProviderName_plain hnames, hplain, hplain]
  | empty | failed e => exact ⟨rfl, rfl⟩

theorem attemptProvider_calls (hnames : Registered codec cfg reg) (h : c.Failing) :
    Obeys (tracing codec reg) (attemptProvider req route d) c (AttemptTraced codec reg route) := by
  have hprogram : attemptProvider req route d = perform (.complete route d req) >>= afterCall req := by
    refine congrArg (Prog.op _) (funext fun outcome => ?_)
    cases outcome <;> rfl
  rw [hprogram]
  refine obeys_perform_bind.mpr ⟨trivial, fun outcome hanswer => ?_⟩
  have hnext : (tracing codec reg).next c (.complete route d req) outcome =
      { (if reg.traces route then c.adapter codec reg route outcome else c) with
        pending := some ⟨route, d, c.calls.length, outcome⟩ } := rfl
  have hanswer : if reg.traces route then
      ∀ r, outcome = .response r → normalizeCompletionUsage r = r
    else ∀ e, outcome = .failed e → e.capture = false := hanswer
  rw [hnext]
  cases htraces : reg.traces route with
  | false =>
    simp only [htraces, Bool.false_eq_true, if_false] at hanswer ⊢
    exact afterCall_uncaptured hnames h rfl hanswer
  | true =>
    simp only [if_true]
    -- the adapter has captured its outcome, and so the orchestrator does not
    have hcaptured := @capturedSince_adapter codec cfg reg c route d hnames outcome
    cases outcome with
    | response r =>
      refine obeys_perform_bind.mpr ⟨trivial, fun boundary hboundary => ?_⟩
      obtain rfl : boundary = .adapter := (hboundary _ rfl).mpr hcaptured
      exact h.replied codec cfg reg hnames route rfl rfl
    | empty => exact afterCall_uncaptured hnames h rfl nofun
    | failed e =>
      cases hcapture : e.capture with
      | true =>
        rw [afterCall, if_pos hcapture]
        refine ⟨hcapture, ?_⟩
        simp only [Capture.adapter, hcapture, if_true]
        exact (h.halted true).1
      | false =>
        simp only [Capture.adapter, hcapture, Bool.false_eq_true, if_false]
        rw [afterCall, if_neg (by rw [hcapture]; exact Bool.false_ne_true)]
        refine obeys_perform_bind.mpr ⟨trivial, fun boundary hboundary => ?_⟩
        obtain rfl : boundary = .adapter := (hboundary _ rfl).mpr hcaptured
        exact h.failed codec (reg.name route) (by intro r; simp)

def LoopEnds (codec : Codec) (reg : Registry) (route : String)
    (a : Except GoError CompletionResponse) (c : Capture) : Prop :=
  match a with
  | .ok resp => c.Replied codec reg route resp
  | .error e => c.Halted e.capture

theorem retryLoop_calls (hnames : Registered codec cfg reg) (maxRetries left : Nat) (h : c.Failing) :
    Obeys (tracing codec reg) (retryLoop codec req route d maxRetries left) c
      (LoopEnds codec reg route) := by
  induction left generalizing c with
  | zero =>
    unfold retryLoop
    refine (attemptProvider_calls hnames h).bind ?_
    rintro a c' ha
    rcases a with result | err
    · rcases result with e | resp
      · exact ⟨ha.2, fun hno => absurd (ha.1.symm.trans hno) (by simp)⟩
      · exact ha
    · exact Capture.Failing.halted ha _
  | succ left ih =>
    unfold retryLoop
    refine (attemptProvider_calls hnames h).bind ?_
    rintro a c' ha
    rcases a with result | err
    · rcases result with e | resp
      · exact ⟨ha.2, fun hno => absurd (ha.1.symm.trans hno) (by simp)⟩
      · exact ha
    · exact ih ha

def Untraced : LLMOp → Prop
  | .complete _ _ _ | .traceCacheHit _ _ | .traceBoundary _ _ => False
  | _ => True

theorem untraced_of_quiet {o : LLMOp} (h : o.Quiet) : Untraced o := by
  cases o <;> first | exact trivial | cases h

theorem untraced_of_ends {o : LLMOp} {identity : DispatchIdentity} (h : o.Ends identity) : Untraced o := by
  cases o <;> first | exact trivial | cases h

theorem untraced_calls {α : Type} {p : LLMProg α} {Q : α → Prop} (h : Only Untraced p Q) :
    Obeys (tracing codec reg) p c fun a c' => c' = c ∧ Q a := by
  refine h.obeys fun c o ho => ⟨trivial, ?_⟩
  cases o <;> first | exact fun _ => rfl | cases ho

theorem ledgerTx_untraced (tx : LedgerTx) : Only Untraced (ledgerTx tx) fun _ => True :=
  ledgerTx_only trivial trivial

theorem ledgerReserve_untraced (r : ReserveRequest) : Only Untraced (ledgerReserve r) fun _ => True := by
  have hattempt : Only Untraced (perform (.reserve r)) fun _ => True := ⟨trivial, fun _ => trivial⟩
  exact withImmediateTx_only hattempt trivial ledgerRetries

theorem routeReady_untraced (route : String) : Only Untraced (routeReady codec cfg route) fun _ => True :=
  (routeReady_quiet route).weaken fun _ => untraced_of_quiet

variable {prepared : PreparedCall} {identity : DispatchIdentity} {reserved ordinal : Int}

theorem admissible_calls :
    Obeys (tracing codec reg) (admissible codec cfg ctx prepared ordinal) c fun a c' => c' = c ∧
      ∀ admitted, a = .ok admitted → prepared.provider = codec.sanitize (reg.name prepared.route) := by
  refine (untraced_calls (routeReady_untraced _)).bind ?_
  rintro reason c' ⟨rfl, -⟩
  cases reason with
  | some reason => exact ⟨rfl, nofun⟩
  | none =>
    refine obeys_perform_bind.mpr ⟨trivial, fun bound _ => ?_⟩
    split
    · exact ⟨rfl, nofun⟩
    · cases dispatchIdentity ctx ordinal with
      | error e => exact ⟨rfl, nofun⟩
      | ok identity =>
        refine Obeys.bind (R := fun a c'' => c'' = c' ∧
          ∀ p, a = .ok p → prepared.provider = codec.sanitize (reg.name prepared.route)) ?_ ?_
        · refine obeys_perform_bind.mpr ⟨trivial, fun provider hanswer => ?_⟩
          cases provider with
          | none => exact ⟨rfl, nofun⟩
          | some provider =>
            have hname : provider.name = reg.name prepared.route := hanswer.2 provider rfl
            dsimp only
            split
            · exact ⟨rfl, nofun⟩
            · rename_i hsame
              refine ⟨rfl, fun _ _ => ?_⟩
              rw [← hname]
              simpa using Eq.symm (by simpa using hsame)
        · rintro provider c'' ⟨rfl, hprovider⟩
          cases provider with
          | error e => exact ⟨rfl, nofun⟩
          | ok provider =>
            dsimp only
            split
            · exact ⟨rfl, nofun⟩
            · refine obeys_perform_bind.mpr ⟨trivial, fun upperBound _ => ?_⟩
              cases upperBound with
              | error message => exact ⟨rfl, nofun⟩
              | ok upperBound =>
                dsimp only
                split
                · exact ⟨rfl, nofun⟩
                · cases reservation (preparedRates prepared) (preparedCaps prepared) with
                  | error e => exact ⟨rfl, nofun⟩
                  | ok reserved => exact ⟨rfl, fun _ _ => hprovider provider rfl⟩

def DispatchEnds (codec : Codec) (reg : Registry) (prepared : PreparedCall)
    (a : Except LLMError CompletionResponse) (c : Capture) : Prop :=
  match a with
  | .ok resp =>
    c.Replied codec reg prepared.route resp ∧ prepared.provider = reg.name prepared.route
  | .error e => c.Halted e.isCapture

theorem dispatchMarked_calls (hnames : Registered codec cfg reg) (h : c.Failing)
    (hprovider : prepared.provider = reg.name prepared.route) :
    Obeys (tracing codec reg) (dispatchMarked codec cfg ctx prepared identity reserved) c
      (DispatchEnds codec reg prepared) := by
  refine (retryLoop_calls hnames _ _ h).bind ?_
  rintro result c' hresult
  have hsettles : Only Untraced (settleAdmitted ctx identity prepared reserved result)
      fun _ => True :=
    (settleAdmitted_ends prepared reserved result).weaken fun _ => untraced_of_ends
  refine (untraced_calls hsettles).bind ?_
  rintro - c'' ⟨rfl, -⟩
  cases result with
  | ok resp => exact ⟨hresult, hprovider⟩
  | error e => exact hresult

theorem dispatchReserved_calls (hnames : Registered codec cfg reg) (h : c.Failing)
    (hprovider : prepared.provider = reg.name prepared.route) :
    Obeys (tracing codec reg) (dispatchReserved codec cfg ctx prepared identity reserved) c
      (DispatchEnds codec reg prepared) := by
  have hcheck : Only Untraced (checkWorkflowBudget ctx reserved) fun _ => True :=
    (checkWorkflowBudget_quiet reserved).weaken fun _ => untraced_of_quiet
  refine (untraced_calls hcheck).bind ?_
  rintro check c' ⟨rfl, -⟩
  cases check with
  | error e =>
    refine (untraced_calls (ledgerTx_untraced _)).bind ?_
    rintro - c'' ⟨rfl, -⟩
    exact h.halted _
  | ok _ =>
    refine (untraced_calls (ledgerTx_untraced _)).bind ?_
    rintro result c'' ⟨rfl, -⟩
    cases result with
    | error e =>
      refine (untraced_calls (ledgerTx_untraced _)).bind ?_
      rintro - c'' ⟨rfl, -⟩
      exact h.halted _
    | ok _ => exact dispatchMarked_calls hnames h hprovider

theorem dispatchAdmitted_calls (hnames : Registered codec cfg reg) (h : c.Failing) :
    Obeys (tracing codec reg) (dispatchAdmitted codec cfg ctx prepared ordinal) c
      (DispatchEnds codec reg prepared) := by
  refine admissible_calls.bind ?_
  rintro admitted c' ⟨rfl, hcontract⟩
  cases admitted with
  | error e => exact h.halted _
  | ok admitted =>
    have hprovider : prepared.provider = reg.name prepared.route :=
      (hcontract _ rfl).trans (hnames.plain _).2
    refine obeys_perform_bind.mpr ⟨trivial, fun day _ => ?_⟩
    refine (untraced_calls (ledgerReserve_untraced _)).bind ?_
    rintro result c'' ⟨rfl, -⟩
    cases result with
    | error e => exact h.halted _
    | ok entry => exact dispatchReserved_calls hnames h hprovider

/-! ## A completion -/

def CompletionEnds (codec : Codec) (a : Except LLMError CompletionResult) (c : Capture) : Prop :=
  match a with
  | .ok res => Completes c.calls ∧ c.Terminal codec (.ok res)
  | .error e => c.Halted e.isCapture

theorem not_capture_of_availability {e : LLMError} (h : e.isAvailability) : e.isCapture = false := by
  have hcall : ∀ e : GoError, e.isAvailability → e.capture = false := by
    intro e h
    cases hcapture : e.capture with
    | false => rfl
    | true => simp [GoError.isAvailability, hcapture] at h
  cases e with
  | call e => exact hcall e h
  | workflow e =>
    cases e with
    | failed e => exact hcall e h
    | _ => rfl
  | _ => rfl

theorem Capture.Replied.completed (hnames : Registered codec cfg reg) {resp : CompletionResponse}
    (h : c.Replied codec reg route resp) {provider : String} (hprovider : provider = reg.name route)
    (model : String) : CompletionEnds codec (.ok ⟨resp, false, provider, model⟩) c := by
  obtain ⟨⟨n, hcalls⟩, record, hlast, hkind, hname, hresponse⟩ := h
  refine ⟨?_, ?_, record, hlast, hkind, ?_, hresponse⟩
  · rw [hcalls]
    exact .response n _
  · rw [hcalls]
    simp
  · rw [hname, hprovider, (hnames.plain route).2]

variable {primary : PreparedCall} {allowFallback : Bool}

theorem dispatchRoutes_calls (hnames : Registered codec cfg reg) (h : c.Failing) :
    Obeys (tracing codec reg) (dispatchRoutes codec cfg ctx req primary allowFallback) c
      fun a c' =>
        match a with
        | .ok (resp, used) => c'.Replied codec reg used.route resp ∧ used.provider = reg.name used.route
        | .error e => c'.Halted e.isCapture := by
  refine (dispatchAdmitted_calls hnames h).bind ?_
  rintro result c' hresult
  cases result with
  | ok resp => exact hresult
  | error err =>
    dsimp only
    split
    · rename_i hallowed
      simp only [Bool.and_eq_true] at hallowed
      cases hfallback : prepareCall codec cfg "fallback" req with
      | error _ => exact hresult
      | ok fallback =>
        have hfailing := hresult.2 (not_capture_of_availability hallowed.2)
        refine (dispatchAdmitted_calls hnames hfailing).bind ?_
        rintro result c'' hresult
        cases result with
        | ok resp | error e => exact hresult
    · exact hresult

theorem cacheHit_calls (hstart : c.calls = []) (result : CompletionResult) (hhit : result.cacheHit) :
    Obeys (tracing codec reg) (cacheHit req result) c (CompletionEnds codec) := by
  refine obeys_perform_bind.mpr ⟨trivial, fun failure _ => ?_⟩
  cases failure with
  | some message =>
    refine ⟨?_, nofun⟩
    show Fails c.calls
    rw [hstart]
    exact .errors 0
  | none =>
    refine ⟨?_, ?_, _, rfl, ?_, rfl, rfl⟩
    · show Completes (c.calls ++ [_])
      rw [hstart]
      exact .cacheHit _
    · simp [tracing, Capture.next, Capture.insert]
    · rw [hhit]
      rfl

theorem completeAdmitted_calls (hnames : Registered codec cfg reg) (h : c.Failing) :
    Obeys (tracing codec reg) (completeAdmitted codec cfg ctx req primary allowFallback) c
      (CompletionEnds codec) := by
  refine (dispatchRoutes_calls hnames h).bind ?_
  rintro result c' hresult
  rcases result with e | ⟨resp, used⟩
  · exact hresult
  · have hdone := hresult.1.completed hnames hresult.2 used.model
    dsimp only
    split
    · exact obeys_perform_bind.mpr ⟨trivial, fun _ _ => hdone⟩
    · exact hdone

theorem completeEnforced_calls (hnames : Registered codec cfg reg) (h : c.Failing) (hstart : c.calls = []) :
    Obeys (tracing codec reg) (completeEnforced codec cfg ctx req allowFallback) c
      (CompletionEnds codec) := by
  unfold completeEnforced
  split
  · exact h.halted _
  · split
    · exact h.halted _
    · refine (untraced_calls (routeReady_untraced _)).bind ?_
      rintro reason c' ⟨rfl, -⟩
      cases reason with
      | some reason => exact h.halted _
      | none =>
        refine obeys_perform_bind.mpr ⟨trivial, fun cached _ => ?_⟩
        cases cached with
        | hit entry => exact cacheHit_calls hstart _ rfl
        | failed | miss => exact completeAdmitted_calls hnames h

theorem completeWithRetry_calls {name : String} {maxRetries : Int}
    (hnames : Registered codec cfg reg) (hlegacy : cfg.policy = none) (h : c.Failing) :
    Obeys (tracing codec reg) (completeWithRetry codec req name maxRetries) c fun a c' =>
      match a with
      | .ok resp => c'.Replied codec reg name resp ∧ name = reg.name name
      | .error e => c'.Halted e.isCapture := by
  refine obeys_perform_bind.mpr ⟨trivial, fun provider hanswer => ?_⟩
  cases provider with
  | none => exact h.halted _
  | some provider =>
    have hname : reg.name name = name := hnames.legacy hlegacy name hanswer.1.symm
    dsimp only
    split
    · exact h.halted _
    · refine (retryLoop_calls hnames _ _ h).bind ?_
      rintro result c' hresult
      cases result with
      | ok resp => exact ⟨hresult, hname.symm⟩
      | error e => exact hresult

variable {allowRetryAndFallback : Bool}

theorem callProviders_calls (hnames : Registered codec cfg reg)
    (hlegacy : cfg.policy = none) (h : c.Failing) :
    Obeys (tracing codec reg) (callProviders codec cfg req allowRetryAndFallback) c fun a c' =>
      match a with
      | .ok (resp, used) => c'.Replied codec reg used resp ∧ used = reg.name used
      | .error e => c'.Halted e.isCapture := by
  refine (completeWithRetry_calls hnames hlegacy h).bind ?_
  rintro result c' hresult
  rcases result with e | resp
  · have hagain : Obeys (tracing codec reg) (show
        LLMProg (Except LLMError (CompletionResponse × String)) from do
        if allowRetryAndFallback && !e.isCapture && cfg.llmFallbackProvider != "" then
          match ← completeWithRetry codec req cfg.llmFallbackProvider 1 with
          | .ok resp => pure (.ok (resp, cfg.llmFallbackProvider))
          | .error err => pure (.error err)
        else pure (.error e)) c' fun a c'' =>
          match a with
          | .ok (resp, used) => c''.Replied codec reg used resp ∧ used = reg.name used
          | .error e => c''.Halted e.isCapture := by
      split
      · rename_i hallowed
        simp only [Bool.and_eq_true, Bool.not_eq_true'] at hallowed
        refine (completeWithRetry_calls hnames hlegacy (hresult.2 hallowed.1.2)).bind ?_
        rintro result c'' hresult
        rcases result with e | resp
        all_goals exact hresult
      · exact hresult
    cases e with
    | panicked => exact hresult
    | _ => exact hagain
  · exact hresult

theorem complete_calls (hnames : Registered codec cfg reg)
    (hlegacy : cfg.policy = none) (h : c.Failing) (hstart : c.calls = []) :
    Obeys (tracing codec reg) (complete codec cfg req allowRetryAndFallback) c
      (CompletionEnds codec) := by
  have hmiss : Obeys (tracing codec reg) (completeUncached codec cfg req allowRetryAndFallback) c
      (CompletionEnds codec) := by
    refine (callProviders_calls hnames hlegacy h).bind ?_
    rintro result c' hresult
    rcases result with e | ⟨resp, used⟩
    · exact hresult
    · have hdone := hresult.1.completed hnames hresult.2 (modelFromRequest cfg req)
      dsimp only
      split
      · exact obeys_perform_bind.mpr ⟨trivial, fun _ _ => hdone⟩
      · exact hdone
  refine obeys_perform_bind.mpr ⟨trivial, fun cached _ => ?_⟩
  cases cached with
  | hit entry => exact cacheHit_calls hstart _ rfl
  | failed | miss => exact hmiss

theorem Complete_calls (hnames : Registered codec cfg reg) :
    Obeys (tracing codec reg) (Complete codec cfg ctx req) Capture.start
      (CompletionEnds codec) := by
  unfold Complete
  split
  · exact completeEnforced_calls hnames rfl rfl
  · rename_i hlegacy
    exact complete_calls hnames (by simpa using hlegacy) rfl rfl

def CallsOf : Except LLMError CompletionResult → List CapturedCall → Prop
  | .ok _ => Completes
  | .error _ => Fails

theorem Captures.shape (hnames : Registered codec cfg reg) {metadata : CompletionTraceMetadata}
    {result : Except LLMError CompletionResult} {calls : List CapturedCall}
    (h : Captures codec cfg reg ctx metadata req result calls) : CallsOf result calls := by
  obtain ⟨t, completed, c, hleads, htrusts, hfinishes, rfl⟩ := h
  have hcompleted := (Complete_calls hnames).leads hleads htrusts
  generalize (tracing codec reg).after Capture.start t = c' at hcompleted hfinishes
  cases hfinishes with
  | withheld _ => exact hcompleted.1
  | traced _ _ =>
    cases result with
    | ok res | error e => exact hcompleted.1
  | late hstarted hno =>
    cases result with
    | ok res => exact absurd hcompleted.2 hno
    | error e =>
      have hfailing : c'.calls = errorCalls c'.providerAttempts :=
        hcompleted.2 (hstarted e rfl).1
      show Fails (c'.calls ++ [_])
      rw [hfailing, ← errorCalls_succ]
      exact .errors _
  | lost hstarted hno =>
    cases completed with
    | ok res => exact absurd hcompleted.2 hno
    | error e => exact hcompleted.1

end Llm

end Aegis
