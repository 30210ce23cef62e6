import Aegis.Llm.Capture

/-!
# Llm.CaptureRuns

Completions with every list of calls that a completion can have: in legacy mode, with retries enough
and one provider whose calls fail so often, and then answers or fails without being captured.
-/

namespace Aegis

namespace Llm.Plain

open Prog

def codec : Codec where
  requestHash _ := ""
  sha256 s := s
  sanitize s := s
  sanitizeError s := s
  redact s := s

/-- One provider, whose adapter leaves its boundary to the orchestrator. -/
def registry : Registry where
  registered name := name = "provider"
  name _ := "provider"
  model _ := "model"
  traces _ := false

def config (retries : Nat) : LLMConfig where
  policy := none
  llmProvider := "provider"
  llmFallbackProvider := ""
  llmModel := "model"
  llmCallMaxRetries := retries
  llmCacheTTL := 0
  retries_bounded h := by cases h

theorem registered (retries : Nat) : Registered codec (config retries) registry where
  plain _ := by
    have hne : "provider" ≠ "" := by decide
    exact ⟨hne, rfl⟩
  legacy _ name h := by
    have hname : name = "provider" := by simpa [registry] using h
    rw [hname]
    rfl

def failure : GoError := .new "unavailable"

def reply (id : String) : CompletionResponse :=
  ⟨"", 0, 0, 0, ⟨true, true, true, false, []⟩, id, "stop"⟩

variable {ctx : CallContext} {metadata : CompletionTraceMetadata} {req : CompletionRequest}

def failed (req : CompletionRequest) : LLMTrace :=
  [⟨.complete "provider" none req, .failed failure⟩, ⟨.traceBoundary req (some failure), .captured⟩]

def failures (req : CompletionRequest) : Nat → LLMTrace
  | 0 => []
  | n + 1 => failed req ++ failures req n

def answered (req : CompletionRequest) (id : String) : LLMTrace :=
  [⟨.complete "provider" none req, .response (reply id)⟩, ⟨.traceBoundary req none, .captured⟩]

def refused (req : CompletionRequest) : LLMTrace :=
  [⟨.complete "provider" none req, .failed failure⟩,
    ⟨.traceBoundary req (some failure), .failed "disk full"⟩]

variable {last : LLMTrace} {result : Except GoError CompletionResponse}

theorem retryLoop_leads {maxRetries left n : Nat} (hn : n ≤ left)
    (hlast : (attemptProvider req "provider" none).Leads last (.error result)) :
    (retryLoop codec req "provider" none maxRetries left).Leads (failures req n ++ last)
      result := by
  induction n generalizing left with
  | zero =>
    cases left with
    | zero | succ left =>
      unfold retryLoop
      exact hlast.bind_ret rfl
  | succ n ih =>
    cases left with
    | zero => omega
    | succ left =>
      have hfirst : (attemptProvider req "provider" none).Leads (failed req) (.ok failure) :=
        .step _ _ _ _ _ (.step _ _ _ _ _ (.ret _))
      rw [failures, List.append_assoc]
      unfold retryLoop
      exact hfirst.bind (ih (by omega))

theorem uncaptured (boundary : Boundary) (hboundary : boundary ≠ .adapter) (c : Capture)
    (outcome : ProviderOutcome) (e : Option GoError) :
    (tracing codec registry).answers
      { c with pending := some ⟨"provider", none, c.calls.length, outcome⟩ }
      (.traceBoundary req e) boundary := by
  rintro p ⟨⟩
  refine iff_of_false hboundary ?_
  rintro ⟨hlt, -⟩
  exact absurd hlt (Nat.lt_irrefl _)

def afterFailed (c : Capture) : Capture :=
  let returned : Capture :=
    { c with pending := some ⟨"provider", none, c.calls.length, .failed failure⟩ }
  returned.physical codec "provider" (.failed failure)

theorem afterFailed_failing {c : Capture} (h : c.Failing) : (afterFailed c).Failing := by
  have hreturned : Capture.Failing
      { c with pending := some ⟨"provider", none, c.calls.length, .failed failure⟩ } := h
  refine hreturned.failed codec "provider" ?_
  intro r
  simp

theorem failed_trusts (c : Capture) (t : LLMTrace)
    (ht : (tracing codec registry).Trusts (afterFailed c) t) :
    (tracing codec registry).Trusts c (failed req ++ t) := by
  have hcaptured : Boundary.captured ≠ .adapter := by simp
  refine ⟨?_, uncaptured _ hcaptured c _ _, ht⟩
  rintro _ ⟨⟩
  rfl

variable (req) in
theorem failures_trusts (n : Nat) (c : Capture) (h : c.Failing) :
    ∃ c' : Capture, c'.Failing ∧ c'.providerAttempts = c.providerAttempts + n ∧ ∀ t,
      ((tracing codec registry).Trusts c' t → (tracing codec registry).Trusts c (failures req n ++ t)) ∧
      (tracing codec registry).after c (failures req n ++ t) = (tracing codec registry).after c' t := by
  induction n generalizing c with
  | zero => exact ⟨c, h, rfl, fun t => ⟨id, rfl⟩⟩
  | succ n ih =>
    obtain ⟨c', h', hattempts, hrest⟩ := ih _ (afterFailed_failing h)
    have hone : (afterFailed c).providerAttempts = c.providerAttempts + 1 := rfl
    refine ⟨c', h', by omega, fun t => ?_⟩
    rw [failures, List.append_assoc]
    exact ⟨fun ht => failed_trusts c _ ((hrest t).1 ht), (hrest t).2⟩

def opening : LLMTrace := [⟨.cacheGet "", .miss⟩, ⟨.providers "provider", some ⟨"provider", true⟩⟩]

theorem opening_trusts (c : Capture) (t : LLMTrace) (ht : (tracing codec registry).Trusts c t) :
    (tracing codec registry).Trusts c (opening ++ t) := by
  refine ⟨trivial, ⟨?_, ?_⟩, ht⟩
  · simp [registry]
  · rintro p ⟨⟩
    rfl

variable {retries n : Nat}

theorem completeWithRetry_leads (hn : n ≤ retries)
    (hlast : (attemptProvider req "provider" none).Leads last (.error result)) :
    (completeWithRetry codec req "provider" retries).Leads
      (⟨.providers "provider", some ⟨"provider", true⟩⟩ :: (failures req n ++ last))
      (result.mapError .call) := by
  have hloop : (completeProviderWithRetry codec req "provider" none (retries : Int).toNat).Leads
      (failures req n ++ last) result :=
    retryLoop_leads (by omega) hlast
  have hnot : ¬(retries : Int) < 0 := by omega
  refine .step _ _ _ _ _ ?_
  rw [if_neg hnot]
  cases result with
  | ok resp | error e => exact hloop.bind_ret rfl

theorem captures_of_last {result : Except LLMError CompletionResult}
    (hleads : (Complete codec (config retries) (completionDispatchContext ctx metadata) req).Leads
      (opening ++ (failures req n ++ last)) result)
    (hlast : ∀ c : Capture, c.calls = errorCalls n → c.providerAttempts = n →
      (tracing codec registry).Trusts c last ∧
        ((tracing codec registry).after c last).Finishes codec result result
          ((tracing codec registry).after c last)) :
    ∃ c : Capture, c.calls = errorCalls n ∧ c.providerAttempts = n ∧
      Captures codec (config retries) registry ctx metadata req result
        ((tracing codec registry).after c last).calls := by
  obtain ⟨c, hfailing, hattempts, hrest⟩ := failures_trusts req n Capture.start rfl
  have hattempts : c.providerAttempts = n := by
    rw [hattempts]
    exact Nat.zero_add n
  have hcalls : c.calls = errorCalls n := by rw [hfailing, hattempts]
  obtain ⟨htrusts, hfinishes⟩ := hlast c hcalls hattempts
  refine ⟨c, hcalls, hattempts, _, _, _, hleads, opening_trusts _ _ ((hrest _).1 htrusts), ?_, rfl⟩
  have hafter : (tracing codec registry).after Capture.start (opening ++ (failures req n ++ last)) =
      (tracing codec registry).after c last := (hrest last).2
  rw [hafter]
  exact hfinishes

theorem response_captured (hn : n ≤ retries) (id : String) :
    ∃ result, Captures codec (config retries) registry ctx metadata req (.ok result)
      (errorCalls n ++ [⟨.providerResponse, n + 1, id⟩]) := by
  have hlast : (attemptProvider req "provider" none).Leads (answered req id)
      (.error (.ok (reply id))) :=
    .step _ _ _ _ _ (.step _ _ _ _ _ (.ret _))
  have hprimary := completeWithRetry_leads hn hlast
  have hproviders : (callProviders codec (config retries) req true).Leads
      (⟨.providers "provider", some ⟨"provider", true⟩⟩ :: (failures req n ++ answered req id))
      (.ok (reply id, "provider")) := by
    unfold callProviders
    exact hprimary.bind_ret rfl
  have hcomplete : (Complete codec (config retries) (completionDispatchContext ctx metadata)
      req).Leads (opening ++ (failures req n ++ answered req id))
      (.ok ⟨reply id, false, "provider", modelFromRequest (config retries) req⟩) :=
    .step _ _ _ _ _ (hproviders.bind_ret rfl)
  have hcaptured : Boundary.captured ≠ .adapter := by simp
  obtain ⟨c, hcalls, hattempts, hcaptures⟩ := captures_of_last hcomplete fun c _ _ => by
    refine ⟨⟨?_, uncaptured _ hcaptured c _ _, trivial⟩, .traced ?_ ⟨?_, _, rfl, rfl, rfl, rfl⟩⟩
    · rintro _ ⟨⟩
    · intro e he
      cases he
    · simp [answered, Protocol.after, tracing, Capture.next, Capture.physical, Capture.insert]
  have hafter : ((tracing codec registry).after c (answered req id)).calls =
      errorCalls n ++ [⟨.providerResponse, n + 1, id⟩] := by
    show c.calls ++ [⟨_, c.providerAttempts + 1, _⟩] = _
    rw [hcalls, hattempts]
    rfl
  rw [hafter] at hcaptures
  exact ⟨_, hcaptures⟩

theorem errors_captured (hn : n ≤ retries) :
    ∃ e, Captures codec (config retries) registry ctx metadata req (.error e) (errorCalls n) := by
  have hlast : (attemptProvider req "provider" none).Leads (refused req)
      (.error (.error (.captureFailed "disk full"))) :=
    .step _ _ _ _ _ (.step _ _ _ _ _ (.ret _))
  have hprimary := completeWithRetry_leads hn hlast
  have hproviders : (callProviders codec (config retries) req true).Leads
      (⟨.providers "provider", some ⟨"provider", true⟩⟩ :: (failures req n ++ refused req))
      (.error (.call (.captureFailed "disk full"))) := by
    unfold callProviders
    exact hprimary.bind_ret rfl
  have hcomplete : (Complete codec (config retries) (completionDispatchContext ctx metadata)
      req).Leads (opening ++ (failures req n ++ refused req))
      (.error (.call (.captureFailed "disk full"))) :=
    .step _ _ _ _ _ (hproviders.bind_ret rfl)
  have hrefused : Boundary.failed "disk full" ≠ .adapter := by simp
  obtain ⟨c, hcalls, -, hcaptures⟩ := captures_of_last hcomplete fun c _ _ => by
    refine ⟨⟨?_, uncaptured _ hrefused c _ _, trivial⟩, .withheld (.inl rfl)⟩
    rintro _ ⟨⟩
    rfl
  have hafter : ((tracing codec registry).after c (refused req)).calls = errorCalls n := hcalls
  rw [hafter] at hcaptures
  exact ⟨_, hcaptures⟩

theorem cacheHit_captured (retries : Nat) (id : String) :
    ∃ result, Captures codec (config retries) registry ctx metadata req (.ok result)
      [⟨.cacheHit, 0, id⟩] := by
  refine ⟨cachedResult ⟨"", 0, 0, id, "stop", "provider", "model"⟩ "provider"
    (modelFromRequest (config retries) req), [⟨.cacheGet "", .hit _⟩, ⟨.traceCacheHit req _, none⟩],
    _, _, .step _ _ _ _ _ (.step _ _ _ _ _ (.ret _)), ⟨trivial, trivial, trivial⟩,
    .traced ?_ ⟨?_, _, rfl, rfl, rfl, rfl⟩, rfl⟩
  · intro e he
    cases he
  · simp [Protocol.after, tracing, Capture.next, Capture.insert]

variable {retries : Nat} {calls : List CapturedCall}

variable (ctx metadata req) in
theorem completes_captured (h : Completes calls) (hlength : calls.length ≤ retries) : ∃ result,
      Captures codec (config retries) registry ctx metadata req (.ok result) calls := by
  cases h with
  | cacheHit id => exact cacheHit_captured retries id
  | response n id =>
    have hn : n ≤ retries := by
      simp only [List.length_append, errorCalls_length, List.length_singleton] at hlength
      omega
    exact response_captured hn id

variable (ctx metadata req) in
theorem fails_captured (h : Fails calls) (hlength : calls.length ≤ retries) : ∃ e,
      Captures codec (config retries) registry ctx metadata req (.error e) calls := by
  cases h with
  | errors n => exact errors_captured (by simpa using hlength)

end Llm.Plain

end Aegis
