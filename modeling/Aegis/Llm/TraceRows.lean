import Aegis.Llm.CompletionTrace
import Aegis.Llm.AtMostOnce

/-!
# Llm.TraceRows

The rows of a traced completion against the calls of its providers. A row is kept out where a route
is called again under the tuple of its first call, which is what the retries of an enforced policy
do; elsewhere the rows and the calls are one to one.
-/

namespace Aegis

open List Option

namespace Llm

open Prog

variable {codec : Codec} {cfg : LLMConfig} {reg : Registry} {ctx : CallContext}
  {ok : ProviderOutcome → Prop} {w₀ w : World}

def numbered (outcomes : List ProviderOutcome) : List (BoundaryKind × Nat) :=
  outcomes.zipIdx.map fun (outcome, i) => (kindOf outcome, i + 1)

def physicalRows (rows : List ProviderCall) : List (BoundaryKind × Nat) :=
  (rows.filter fun row => row.kind ≠ .cacheHit).map fun row => (row.kind, row.providerAttempt)

def cacheRows (rows : List ProviderCall) : List ProviderCall :=
  rows.filter fun row => row.kind = .cacheHit

/-- There is one physical row for each call, one cache row for each hit. -/
def RowsMatch (w₀ w : World) : Prop :=
  ∃ added, w.rows = w₀.rows ++ added ∧ physicalRows added = numbered w.invocations ∧
    (cacheRows added).length = w.hits

/-- The rows match, and a response that came is returned. -/
structure OneRowEach (w₀ w : World) (result : Except LLMError CompletionResult) : Prop where
  rows : RowsMatch w₀ w
  returned : ∀ r, .response r ∈ w.invocations → ∃ res, result = .ok res ∧
    (res.response = r ∨ res.response = normalizeCompletionUsage r)

/-- Where a traced completion begins: the recorder has written the rows of the open attempt, and no
row has the tuple of this stage. -/
structure Begins (ctx : CallContext) (w : World) : Prop where
  isOpen : w.isOpen = true
  written : w.written = lastIndex w.job w.rows
  unused : ∀ ordinal identity, dispatchIdentity ctx ordinal = .ok identity → w.Unused identity
  providerAttempts : w.providerAttempts = 0
  events : w.events = 0
  invocations : w.invocations = []
  hits : w.hits = 0

def Plain (codec : Codec) (name : String) : Prop := name ≠ "" ∧ codec.sanitize name = name

/-- The names of a configuration: those of its providers, and those of the models of its policy. -/
structure NamesKept (codec : Codec) (cfg : LLMConfig) (reg : Registry) : Prop where
  providers : ∀ route, Plain codec (reg.name route)
  models : ∀ policy, cfg.policy = some policy → ∀ route ∈ policy.primary :: policy.fallback.toList,
    Plain codec route.model
  legacy : cfg.policy = none → (reg.registered cfg.llmProvider = true ∧
      reg.name cfg.llmProvider = cfg.llmProvider) ∧
    (cfg.llmFallbackProvider ≠ "" → reg.registered cfg.llmFallbackProvider = true ∧
      reg.name cfg.llmFallbackProvider = cfg.llmFallbackProvider)

/-- An enforced policy does not call the route again after the outcome. -/
def NoRetry (cfg : LLMConfig) (outcome : ProviderOutcome) : Prop :=
  cfg.policy.isSome = true → cfg.llmCallMaxRetries = 0 ∨ ∃ r, outcome = .response r

structure Kept (w₀ w : World) : Prop where
  rows : RowsMatch w₀ w
  attempts : w.providerAttempts = w.invocations.length
  written : w.written = lastIndex w.job w.rows
  isOpen : w.isOpen = true

theorem Begins.kept (h : Begins ctx w) : Kept w w where
  rows := ⟨[], (append_nil _).symm, by rw [h.invocations]; rfl, by rw [h.hits]; rfl⟩
  attempts := by rw [h.providerAttempts, h.invocations]; rfl
  written := h.written
  isOpen := h.isOpen

variable {row : ProviderCall}

theorem lastIndex_append {job : AttemptKey} {rows : List ProviderCall}
    (hjob : row.job = job) (hindex : row.callIndex = lastIndex job rows + 1) :
    lastIndex job (rows ++ [row]) = lastIndex job rows + 1 := by
  have hfold : ∀ (l : List Nat) (n : Nat), (l ++ [n]).foldr max 0 = max (l.foldr max 0) n := by
    intro l n
    induction l with
    | nil => simp
    | cons m l ih => rw [cons_append, foldr_cons, foldr_cons, ih, max_assoc]
  have hfilter : (rows ++ [row]).filter (fun row => row.job = job) =
      rows.filter (fun row => row.job = job) ++ [row] := by
    rw [filter_append]
    simp [hjob]
  rw [lastIndex, hfilter, map_append, map_singleton, hfold]
  change max (lastIndex job rows) row.callIndex = _
  omega

theorem numbered_append (outcomes : List ProviderOutcome) (outcome : ProviderOutcome) :
    numbered (outcomes ++ [outcome]) = numbered outcomes ++ [(kindOf outcome, outcomes.length + 1)] := by
  simp [numbered, zipIdx_append]

theorem kindOf_ne_cacheHit (outcome : ProviderOutcome) : kindOf outcome ≠ .cacheHit := by
  cases outcome <;> rintro ⟨⟩

theorem Kept.physical {w' : World} {outcome : ProviderOutcome}
    (h : Kept w₀ w) (hkind : row.kind = kindOf outcome)
    (hattempt : row.providerAttempt = w.providerAttempts + 1) (hjob : row.job = w.job)
    (hindex : row.callIndex = w.written + 1) (hrows : w'.rows = w.rows ++ [row])
    (hwritten : w'.written = w.written + 1)
    (hattempts : w'.providerAttempts = w.providerAttempts + 1)
    (hinvocations : w'.invocations = w.invocations ++ [outcome]) (hhits : w'.hits = w.hits)
    (hsame : w'.job = w.job) (hopen : w'.isOpen = w.isOpen) : Kept w₀ w' := by
  obtain ⟨added, hadded, hphysical, hcache⟩ := h.rows
  have hne : row.kind ≠ .cacheHit := hkind ▸ kindOf_ne_cacheHit outcome
  refine ⟨⟨added ++ [row], ?_, ?_, ?_⟩, ?_, ?_, ?_⟩
  · rw [hrows, hadded, append_assoc]
  · rw [hinvocations, numbered_append, ← hphysical, ← h.attempts, ← hattempt, ← hkind]
    simp [physicalRows, filter_append, hne]
  · rw [hhits, ← hcache]
    simp [cacheRows, filter_append, hne]
  · rw [hattempts, hinvocations, h.attempts, length_append]
    rfl
  · rw [hwritten, hrows, hsame, lastIndex_append hjob (by rw [hindex, h.written]), h.written]
  · rw [hopen]
    exact h.isOpen

/-! ## One call of a provider -/

def NoResponse (w : World) : Prop := ∀ r, .response r ∉ w.invocations

def Returns (w : World) (resp : CompletionResponse) : Prop :=
  ∀ r, .response r ∈ w.invocations → resp = r ∨ resp = normalizeCompletionUsage r

def Recorded (reg : Registry) (w : World) (route : String) (resp : CompletionResponse) : Prop :=
  0 < w.events ∧ ∃ record, w.last = some record ∧ record.kind = .providerResponse ∧
    record.provider = reg.name route ∧ record.response = some resp

def Told (w : World) (message : String) : Prop :=
  0 < w.events ∧ ∃ record, w.last = some record ∧ record.kind = .providerError ∧ record.error = message

structure Sent (w : World) (d : Option DispatchIdentity) (w' : World) : Prop where
  reserved : w'.reserved = w.reserved
  marked : w'.marked = w.marked
  unused : ∀ i, w.Unused i → d ≠ some i → w'.Unused i

variable {d : Option DispatchIdentity}

theorem Sent.trans {w' w'' : World} (h : Sent w d w') (h' : Sent w' d w'') : Sent w d w'' :=
  ⟨h'.reserved.trans h.reserved, h'.marked.trans h.marked, fun i hi hd => h'.unused i (h.unused i hi hd) hd⟩

/-- The trace takes any row of the route that is still to come. -/
def Welcome (codec : Codec) (cfg : LLMConfig) (reg : Registry) (w : World) (route : String)
    (d : Option DispatchIdentity) (req : CompletionRequest) : Prop :=
  ∀ kind provider model, kind ≠ .cacheHit →
    (provider = reg.name route ∨ provider = traceProviderName codec reg route) →
    (model = adapterModel reg route req ∨ model = modelFromRequest cfg req) →
    w.Admits (physicalRow codec w kind provider model req (d.map (lineage cfg route)))

theorem unused_append {route : String} {w' : World} (hrows : w'.rows = w.rows ++ [row])
    (hdispatch : row.dispatch = d.map (lineage cfg route)) (i : DispatchIdentity)
    (h : w.Unused i) (hd : d ≠ some i) : w'.Unused i := by
  intro row' hrow' l hl
  rw [hrows, mem_append, mem_singleton] at hrow'
  rcases hrow' with hrow' | rfl
  · exact h row' hrow' l hl
  · rw [hdispatch] at hl
    obtain ⟨j, rfl, rfl⟩ := map_eq_some_iff.mp hl
    rintro rfl
    exact hd rfl

theorem Kept.welcome (h : Kept w₀ w) (route : String) (req : CompletionRequest) :
    Welcome codec cfg reg w route none req := by
  intro kind provider model _ _ _
  refine ⟨h.isOpen, ?_, ?_⟩
  · exact congrArg (· + 1) h.written
  · rintro l ⟨⟩

theorem traceProviderName_eq (hnames : NamesKept codec cfg reg) (route : String) :
    traceProviderName codec reg route = reg.name route := by
  obtain ⟨hne, hsame⟩ := hnames.providers route
  rw [traceProviderName, hsame, if_neg hne]

def Attempted (reg : Registry) (ok : ProviderOutcome → Prop) (w₀ w : World) (route : String)
    (d : Option DispatchIdentity)
    (a : Except (Except GoError CompletionResponse) GoError) (w' : World) : Prop :=
  ∃ outcome, ok outcome ∧ Kept w₀ w' ∧ Sent w d w' ∧ w'.invocations = w.invocations ++ [outcome] ∧
    match a with
    | .error (.ok resp) => (∃ r, outcome = .response r ∧
        (resp = r ∨ resp = normalizeCompletionUsage r)) ∧ Recorded reg w' route resp
    | .ok err => (∀ r, outcome ≠ .response r) ∧ Told w' err.message
    | .error (.error _) => False

section Attempt

variable {route : String} {d : Option DispatchIdentity} {req : CompletionRequest}

theorem attempted_captured (hnames : NamesKept codec cfg reg) (hkept : Kept w₀ w)
    (outcome : ProviderOutcome) :
    let p : Pending := ⟨route, d, w.events, outcome⟩
    let w' := ((w.returned p).attempted.insert ((w.returned p).orchestratorRow codec cfg reg p req)
      (recordOf codec (traceProviderName codec reg route) (normalized outcome)))
    Kept w₀ w' ∧ Sent w d w' ∧ w'.invocations = w.invocations ++ [outcome] ∧ match outcome with
      | .response r => Recorded reg w' route (normalizeCompletionUsage r)
      | .empty => Told w' "provider returned an empty response"
      | .failed e => Told w' e.message := by
  obtain ⟨-, hplain⟩ := hnames.providers route
  refine ⟨hkept.physical rfl rfl rfl rfl rfl rfl rfl rfl rfl rfl rfl,
    ⟨rfl, rfl, unused_append rfl rfl⟩, rfl, ?_⟩
  cases outcome with
  | response r =>
    refine ⟨Nat.succ_pos _, _, rfl, rfl, ?_, rfl⟩
    change codec.sanitize (codec.sanitize (traceProviderName codec reg route)) = _
    rw [traceProviderName_eq hnames, hplain, hplain]
  | empty | failed e => exact ⟨Nat.succ_pos _, _, rfl, rfl, rfl⟩

theorem attempted_adapter (hnames : NamesKept codec cfg reg) (hkept : Kept w₀ w)
    (outcome : ProviderOutcome) :
    let p : Pending := ⟨route, d, w.events, outcome⟩
    let w' := (w.attempted.insert (w.adapterRow codec cfg reg route d req outcome)
      (recordOf codec (reg.name route) outcome)).returned p
    Kept w₀ w' ∧ Sent w d w' ∧ w'.invocations = w.invocations ++ [outcome] ∧ w'.CapturedSince codec reg p ∧
      match outcome with
      | .response r => Recorded reg w' route r
      | .empty => Told w' "provider returned an empty response"
      | .failed e => Told w' e.message := by
  obtain ⟨-, hplain⟩ := hnames.providers route
  refine ⟨hkept.physical rfl rfl rfl rfl rfl rfl rfl rfl rfl rfl rfl,
    ⟨rfl, rfl, unused_append rfl rfl⟩, rfl, ?_⟩
  cases outcome with
  | response r =>
    refine ⟨⟨Nat.lt_succ_self _, _, rfl, rfl, ?_, rfl⟩, Nat.succ_pos _, _, rfl, rfl, ?_, rfl⟩
    · change codec.sanitize (codec.sanitize (reg.name route)) =
        codec.sanitize (traceProviderName codec reg route)
      rw [traceProviderName_eq hnames, hplain, hplain]
    · change codec.sanitize (codec.sanitize (reg.name route)) = _
      rw [hplain, hplain]
  | empty | failed e =>
    exact ⟨⟨Nat.lt_succ_self _, _, rfl, rfl, rfl⟩, Nat.succ_pos _, _, rfl, rfl, rfl⟩

theorem not_capturedSince (outcome : ProviderOutcome) :
    ¬(w.returned ⟨route, d, w.events, outcome⟩).CapturedSince codec reg
      ⟨route, d, w.events, outcome⟩ :=
  fun h => absurd h.1 (Nat.lt_irrefl _)

variable {p : Pending} {e : Option GoError} {boundary : Boundary}

theorem boundary_adapter (hpending : w.pending = some p) (hcaptured : w.CapturedSince codec reg p)
    (h : w.Answers codec cfg reg ctx ⟨.traceBoundary req e, boundary⟩) : boundary = .adapter := by
  have h := h p hpending
  cases boundary with
  | adapter => rfl
  | captured | failed message => exact absurd hcaptured h.1

theorem boundary_captured (hpending : w.pending = some p) (hcaptured : ¬w.CapturedSince codec reg p)
    (hrow : w.Admits (w.orchestratorRow codec cfg reg p req))
    (h : w.Answers codec cfg reg ctx ⟨.traceBoundary req e, boundary⟩) : boundary = .captured := by
  have h := h p hpending
  cases boundary with
  | adapter => exact absurd h hcaptured
  | captured => rfl
  | failed message => exact absurd hrow h.2

def afterCall (req : CompletionRequest) : ProviderOutcome →
    LLMProg (Except (Except GoError CompletionResponse) GoError)
  | .response r => do
    match ← perform (.traceBoundary req none) with
    | .adapter => pure (.error (.ok r))
    | .captured => pure (.error (.ok (normalizeCompletionUsage r)))
    | .failed message => pure (.error (.error (.captureFailed message)))
  | .empty => do
    let err := GoError.new "provider returned an empty response"
    match ← perform (.traceBoundary req (some err)) with
    | .failed message => pure (.error (.error (.captureFailed message)))
    | _ => pure (.ok err)
  | .failed err => do
    if err.capture then pure (.error (.error err))
    else
      match ← perform (.traceBoundary req (some err)) with
      | .failed message => pure (.error (.error (.captureFailed message)))
      | _ => pure (.ok err)

variable {outcome : ProviderOutcome}

theorem afterCall_silent (hnames : NamesKept codec cfg reg) (hkept : Kept w₀ w)
    (hwelcome : Welcome codec cfg reg w route d req) (hok : ok outcome)
    (hcapture : ∀ e, outcome = .failed e → e.capture = false) :
    Obeys (capturing codec cfg reg ctx ok) (afterCall req outcome)
      (w.returned ⟨route, d, w.events, outcome⟩) (Attempted reg ok w₀ w route d) := by
  have hrow : (w.returned ⟨route, d, w.events, outcome⟩).Admits
      ((w.returned ⟨route, d, w.events, outcome⟩).orchestratorRow codec cfg reg
        ⟨route, d, w.events, outcome⟩ req) :=
    hwelcome _ _ _ (kindOf_ne_cacheHit outcome) (.inr rfl) (.inr rfl)
  obtain ⟨hkept', hsent, hinvocations, hlast⟩ :=
    @attempted_captured _ _ _ _ _ route d req hnames hkept outcome
  cases outcome with
  | response r =>
    refine obeys_perform_bind.mpr ⟨trivial, fun boundary h => ?_⟩
    obtain rfl := boundary_captured rfl (not_capturedSince _) hrow h.1
    exact ⟨.response r, hok, hkept', hsent, hinvocations, ⟨r, rfl, .inr rfl⟩, hlast⟩
  | empty =>
    refine obeys_perform_bind.mpr ⟨trivial, fun boundary h => ?_⟩
    obtain rfl := boundary_captured rfl (not_capturedSince _) hrow h.1
    exact ⟨.empty, hok, hkept', hsent, hinvocations, by simp, hlast⟩
  | failed e =>
    rw [afterCall, if_neg (by rw [hcapture e rfl]; exact Bool.false_ne_true)]
    refine obeys_perform_bind.mpr ⟨trivial, fun boundary h => ?_⟩
    obtain rfl := boundary_captured rfl (not_capturedSince _) hrow h.1
    exact ⟨.failed e, hok, hkept', hsent, hinvocations, by simp, hlast⟩

theorem afterCall_traced (hnames : NamesKept codec cfg reg) (hkept : Kept w₀ w)
    (hok : ok outcome) (hempty : outcome ≠ .empty)
    (hcapture : ∀ e, outcome = .failed e → e.capture = false) :
    Obeys (capturing codec cfg reg ctx ok) (afterCall req outcome)
      ((w.attempted.insert (w.adapterRow codec cfg reg route d req outcome)
        (recordOf codec (reg.name route) outcome)).returned ⟨route, d, w.events, outcome⟩)
      (Attempted reg ok w₀ w route d) := by
  obtain ⟨hkept', hsent, hinvocations, hcaptured, hlast⟩ :=
    @attempted_adapter _ _ _ _ _ route d req hnames hkept outcome
  cases outcome with
  | response r =>
    refine obeys_perform_bind.mpr ⟨trivial, fun boundary h => ?_⟩
    obtain rfl := boundary_adapter rfl hcaptured h.1
    exact ⟨.response r, hok, hkept', hsent, hinvocations, ⟨r, rfl, .inl rfl⟩, hlast⟩
  | empty => exact absurd rfl hempty
  | failed e =>
    rw [afterCall, if_neg (by rw [hcapture e rfl]; exact Bool.false_ne_true)]
    refine obeys_perform_bind.mpr ⟨trivial, fun boundary h => ?_⟩
    obtain rfl := boundary_adapter rfl hcaptured h.1
    exact ⟨.failed e, hok, hkept', hsent, hinvocations, by simp, hlast⟩

theorem attemptProvider_traced (hnames : NamesKept codec cfg reg) (hkept : Kept w₀ w)
    (hwelcome : Welcome codec cfg reg w route d req) :
    Obeys (capturing codec cfg reg ctx ok) (attemptProvider req route d) w
      (Attempted reg ok w₀ w route d) := by
  have hprogram : attemptProvider req route d = perform (.complete route d req) >>= afterCall req := by
    refine congrArg (Prog.op _) (funext fun outcome => ?_)
    cases outcome <;> rfl
  rw [hprogram]
  refine obeys_perform_bind.mpr ⟨trivial, fun outcome h => ?_⟩
  have hanswer : if reg.traces route then w.AdapterAnswers codec cfg reg route d req outcome
    else ∀ e, outcome = .failed e → e.capture = false := h.1
  have hok : ok outcome := h.2
  have hadmits : w.Admits (w.adapterRow codec cfg reg route d req outcome) :=
    hwelcome _ _ _ (kindOf_ne_cacheHit outcome) (.inl rfl) (.inl rfl)
  have hnext : (capturing codec cfg reg ctx ok).next w (.complete route d req) outcome =
      (if reg.traces route then w.adapterCapture codec cfg reg route d req outcome
        else w).returned ⟨route, d, w.events, outcome⟩ := rfl
  rw [hnext]
  split at hanswer
  · rename_i htraces
    rw [if_pos htraces]
    cases outcome with
    | response r => exact afterCall_traced hnames hkept hok (by simp) (by simp)
    | empty => exact afterCall_silent hnames hkept hwelcome hok (by simp)
    | failed e =>
      have hcapture : e.capture = false := hanswer.mpr hadmits
      have hcaptured : w.adapterCapture codec cfg reg route d req (.failed e) =
          w.attempted.insert (w.adapterRow codec cfg reg route d req (.failed e))
            (recordOf codec (reg.name route) (.failed e)) := by
        rw [World.adapterCapture, if_neg (by rw [hcapture]; exact Bool.false_ne_true)]
      rw [hcaptured]
      refine afterCall_traced hnames hkept hok (by simp) ?_
      rintro _ ⟨⟩
      exact hcapture
  · rename_i htraces
    rw [if_neg htraces]
    exact afterCall_silent hnames hkept hwelcome hok hanswer

def Ended (codec : Codec) (reg : Registry) (w₀ w : World) (route : String)
    (d : Option DispatchIdentity) (a : Except GoError CompletionResponse) (w' : World) : Prop :=
  Kept w₀ w' ∧ Sent w d w' ∧ match a with
    | .ok resp => Returns w' resp ∧ Recorded reg w' route resp
    | .error e => NoResponse w' ∧
        ∃ text cause, e = wrapCompletionError codec text cause ∧ Told w' cause.message

theorem NoResponse.append {w' : World} (h : NoResponse w)
    (hinvocations : w'.invocations = w.invocations ++ [outcome])
    (hno : ∀ r, outcome ≠ .response r) : NoResponse w' := by
  intro r hr
  rw [hinvocations, mem_append, mem_singleton] at hr
  rcases hr with hr | hr
  · exact h r hr
  · exact hno r hr.symm

theorem NoResponse.returns {w' : World} {r resp : CompletionResponse} (h : NoResponse w)
    (hinvocations : w'.invocations = w.invocations ++ [.response r])
    (hresp : resp = r ∨ resp = normalizeCompletionUsage r) : Returns w' resp := by
  intro r' hr
  rw [hinvocations, mem_append, mem_singleton] at hr
  rcases hr with hr | hr
  · exact absurd hr (h r')
  · obtain rfl := ProviderOutcome.response.inj hr
    exact hresp

theorem retryLoop_traced (hnames : NamesKept codec cfg reg) (maxRetries left : Nat)
    (hkept : Kept w₀ w) (hwelcome : Welcome codec cfg reg w route d req) (hnone : NoResponse w)
    (hlast : d = none ∨ left = 0 ∨ ∀ outcome, ok outcome → ∃ r, outcome = .response r) :
    Obeys (capturing codec cfg reg ctx ok) (retryLoop codec req route d maxRetries left) w
      (Ended codec reg w₀ w route d) := by
  induction left generalizing w with
  | zero =>
    unfold retryLoop
    refine (attemptProvider_traced hnames hkept hwelcome).bind ?_
    rintro a w' ⟨outcome, -, hkept', hsent, hinvocations, ha⟩
    rcases a with result | err
    · rcases result with e | resp
      · exact ha.elim
      · obtain ⟨⟨r, rfl, hresp⟩, hrecorded⟩ := ha
        exact ⟨hkept', hsent, hnone.returns hinvocations hresp, hrecorded⟩
    · obtain ⟨hno, htold⟩ := ha
      exact ⟨hkept', hsent, hnone.append hinvocations hno, _, err, rfl, htold⟩
  | succ left ih =>
    unfold retryLoop
    refine (attemptProvider_traced hnames hkept hwelcome).bind ?_
    rintro a w' ⟨outcome, hok, hkept', hsent, hinvocations, ha⟩
    rcases a with result | err
    · rcases result with e | resp
      · exact ha.elim
      · obtain ⟨⟨r, rfl, hresp⟩, hrecorded⟩ := ha
        exact ⟨hkept', hsent, hnone.returns hinvocations hresp, hrecorded⟩
    · obtain ⟨hno, htold⟩ := ha
      rcases hlast with rfl | hzero | hall
      · refine (ih hkept' (hkept'.welcome route req) (hnone.append hinvocations hno) (.inl rfl)).mono ?_
        rintro a w'' ⟨hkept'', hsent', ha⟩
        exact ⟨hkept'', hsent.trans hsent', ha⟩
      · cases hzero
      · obtain ⟨r, rfl⟩ := hall outcome hok
        exact absurd rfl (hno r)

end Attempt

/-! ## A dispatch -/

theorem obeys_of_quiet {α : Type} {p : LLMProg α} {Q : α → Prop} (h : Only LLMOp.Quiet p Q) :
    Obeys (capturing codec cfg reg ctx ok) p w fun a w' => w' = w ∧ Q a := by
  refine h.obeys fun w o ho => ⟨trivial, ?_⟩
  cases o <;> first | exact fun _ => rfl | cases ho

theorem obeys_of_ends {α : Type} {p : LLMProg α} {identity : DispatchIdentity} {Q : α → Prop}
    (h : Only (LLMOp.Ends identity) p Q) :
    Obeys (capturing codec cfg reg ctx ok) p w fun a w' => w' = w ∧ Q a := by
  refine h.obeys fun w o ho => ⟨trivial, ?_⟩
  cases o with
  | ledger tx => cases tx <;> first | exact fun _ => rfl | cases ho
  | reserve _ | complete _ _ _ | cacheGet _ | traceCacheHit _ _ | traceBoundary _ _ => cases ho
  | _ => exact fun _ => rfl

structure FromPolicy (codec : Codec) (cfg : LLMConfig) (prepared : PreparedCall) : Prop where
  requestHash : prepared.requestHash = codec.requestHash prepared.request
  request : prepared.request.model = prepared.model
  model : Plain codec prepared.model
  fingerprint : ∀ i, (lineage cfg prepared.route i).policyFingerprint = prepared.policyFingerprint
  revision : ∀ i, (lineage cfg prepared.route i).priceRevision = prepared.priceRevision

variable {req : CompletionRequest} {prepared : PreparedCall}

theorem primary_fromPolicy (hnames : NamesKept codec cfg reg)
    (h : prepareCall codec cfg "primary" req = .ok prepared) :
    prepared.route = "primary" ∧ FromPolicy codec cfg prepared := by
  unfold prepareCall at h
  cases hpolicy : cfg.policy with
  | none =>
    rw [hpolicy] at h
    cases h
  | some policy =>
    rw [hpolicy] at h
    cases h
    refine ⟨rfl, rfl, rfl, hnames.models policy hpolicy _ mem_cons_self, fun i => ?_,
      fun i => ?_⟩
    all_goals simp [lineage, hpolicy]

theorem fallback_fromPolicy (hnames : NamesKept codec cfg reg)
    (h : prepareCall codec cfg "fallback" req = .ok prepared) :
    prepared.route = "fallback" ∧ FromPolicy codec cfg prepared := by
  unfold prepareCall at h
  cases hpolicy : cfg.policy with
  | none =>
    rw [hpolicy] at h
    cases h
  | some policy =>
    rw [hpolicy] at h
    cases hfallback : policy.fallback with
    | none =>
      simp only [Bind.bind, Except.bind, hfallback] at h
      cases h
    | some fallback =>
      simp only [Bind.bind, Except.bind, hfallback] at h
      cases h
      refine ⟨rfl, rfl, rfl, hnames.models policy hpolicy _ ?_, fun i => ?_, fun i => ?_⟩
      · rw [hfallback]
        exact mem_cons_of_mem _ mem_cons_self
      · simp [lineage, hpolicy]
      · simp [lineage, hpolicy, hfallback]

theorem named_plain {name : String} (h : Plain codec name) :
    named (codec.sanitize (codec.sanitize name)) = name := by
  rw [h.2, h.2, named, if_neg h.1]

section Dispatch

variable {prepared : PreparedCall} {identity : DispatchIdentity} {reserved : Int} {ordinal : Int}
  {day : String}

theorem welcome_of_reserved (hnames : NamesKept codec cfg reg) (hprepared : FromPolicy codec cfg prepared)
    (hprovider : prepared.provider = reg.name prepared.route) (hkept : Kept w₀ w)
    (hunused : w.Unused identity)
    (hreserved : reserveRequest prepared identity reserved day ∈ w.reserved)
    (hmarked : identity ∈ w.marked) :
    Welcome codec cfg reg w prepared.route (some identity) prepared.request := by
  intro kind provider model _ hname hmodel
  refine ⟨hkept.isOpen, congrArg (· + 1) hkept.written, ?_⟩
  rintro l hl
  cases hl
  refine ⟨hunused, fun _ => ⟨_, hreserved, rfl, hmarked, rfl, ?_, ?_, ?_, ?_, ?_⟩⟩
  · have hname : provider = reg.name prepared.route := by
      rcases hname with rfl | rfl
      · rfl
      · exact traceProviderName_eq hnames _
    rw [hname]
    exact hprovider.trans (named_plain (hnames.providers _)).symm
  · have hmodel : model = prepared.model := by
      have hne : prepared.request.model ≠ "" := hprepared.request ▸ hprepared.model.1
      rcases hmodel with rfl | rfl
      · rw [adapterModel, if_neg hne, hprepared.request]
      · rw [modelFromRequest, if_pos (by simpa using hne), hprepared.request]
    rw [hmodel]
    exact (named_plain hprepared.model).symm
  · exact (hprepared.fingerprint identity).symm
  · exact (hprepared.revision identity).symm
  · exact hprepared.requestHash

def DispatchTraced (codec : Codec) (reg : Registry) (w₀ w : World) (ctx : CallContext)
    (prepared : PreparedCall) (ordinal : Int) (a : Except LLMError CompletionResponse)
    (w' : World) : Prop :=
  Kept w₀ w' ∧ (∀ i, w.Unused i → dispatchIdentity ctx ordinal ≠ .ok i → w'.Unused i) ∧ match a with
    | .ok resp => Returns w' resp ∧ prepared.provider = reg.name prepared.route ∧
        Recorded reg w' prepared.route resp
    | .error e => NoResponse w' ∧ (notStarted e = true ∨ ∃ text cause,
        e = .call (wrapCompletionError codec text cause) ∧ Told w' cause.message)

structure Startable (codec : Codec) (cfg : LLMConfig) (reg : Registry)
    (ok : ProviderOutcome → Prop) (w₀ w : World) (prepared : PreparedCall)
    (identity : DispatchIdentity) : Prop where
  names : NamesKept codec cfg reg
  prepared : FromPolicy codec cfg prepared
  kept : Kept w₀ w
  unused : w.Unused identity
  none : NoResponse w
  noRetry : cfg.llmCallMaxRetries = 0 ∨ ∀ outcome, ok outcome → ∃ r, outcome = .response r

theorem dispatchMarked_traced (h : Startable codec cfg reg ok w₀ w prepared identity)
    (hidentity : dispatchIdentity ctx ordinal = .ok identity)
    (hprovider : prepared.provider = reg.name prepared.route)
    (hreserved : reserveRequest prepared identity reserved day ∈ w.reserved)
    (hmarked : identity ∈ w.marked) :
    Obeys (capturing codec cfg reg ctx ok)
      (dispatchMarked codec cfg ctx prepared identity reserved) w
      (DispatchTraced codec reg w₀ w ctx prepared ordinal) := by
  have hwelcome := welcome_of_reserved h.names h.prepared hprovider h.kept h.unused hreserved
    hmarked
  have hlast : some identity = none ∨ cfg.llmCallMaxRetries.toNat = 0 ∨
      ∀ outcome, ok outcome → ∃ r, outcome = .response r :=
    .inr (h.noRetry.imp (fun hzero => by rw [hzero]; rfl) id)
  refine (retryLoop_traced h.names _ _ h.kept hwelcome h.none hlast).bind ?_
  rintro result w' ⟨hkept, hsent, hresult⟩
  refine (obeys_of_ends (settleAdmitted_ends prepared reserved result)).bind ?_
  rintro - w'' ⟨rfl, -⟩
  have hunused : ∀ i, w.Unused i → dispatchIdentity ctx ordinal ≠ .ok i → w''.Unused i := by
    intro i hi hne
    refine hsent.unused i hi ?_
    rintro ⟨⟩
    exact hne hidentity
  cases result with
  | ok resp => exact ⟨hkept, hunused, hresult.1, hprovider, hresult.2⟩
  | error e =>
    obtain ⟨hnone, text, cause, rfl, htold⟩ := hresult
    exact ⟨hkept, hunused, hnone, .inr ⟨text, cause, rfl, htold⟩⟩

theorem ledgerTx_traced (tx : LedgerTx) : Obeys (capturing codec cfg reg ctx ok) (ledgerTx tx) w fun a w' =>
      (∃ marked, w' = { w with marked := marked }) ∧
        ∀ identity, tx = .markPossiblyDispatched identity → a = .ok () → identity ∈ w'.marked := by
  refine withImmediateTx_obeys ?_ trivial (fun _ => rfl) ledgerRetries
  refine ⟨trivial, fun attempt _ => ?_⟩
  have hsame : ∃ marked, w = { w with marked := marked } := ⟨w.marked, rfl⟩
  cases tx with
  | markPossiblyDispatched identity =>
    cases attempt with
    | done r =>
      cases r with
      | ok _ =>
        refine ⟨⟨_, rfl⟩, ?_⟩
        rintro _ ⟨⟩ -
        exact mem_append_right _ (mem_singleton_self _)
      | error e => exact ⟨hsame, nofun⟩
    | down => exact ⟨hsame, nofun⟩
    | busy => exact ⟨rfl, hsame, nofun⟩
  | _ =>
    cases attempt with
    | done r | down => exact ⟨hsame, nofun⟩
    | busy => exact ⟨rfl, hsame, nofun⟩

theorem ledgerReserve_traced (r : ReserveRequest) :
    Obeys (capturing codec cfg reg ctx ok) (ledgerReserve r) w fun a w' =>
      (∃ reserved, w' = { w with reserved := reserved }) ∧ ∀ e, a = .ok e → r ∈ w'.reserved := by
  refine withImmediateTx_obeys ?_ trivial (fun _ => rfl) ledgerRetries
  refine ⟨trivial, fun attempt _ => ?_⟩
  have hno : ∀ (e : LedgerError) (b : BudgetEntry),
      (Except.error e : Except LedgerError BudgetEntry) ≠ .ok b := fun _ _ => nofun
  have hsame : ∃ reserved, w = { w with reserved := reserved } := ⟨w.reserved, rfl⟩
  cases attempt with
  | done result =>
    cases result with
    | ok entry =>
      exact ⟨⟨_, rfl⟩, fun _ _ => mem_append_right _ (mem_singleton_self _)⟩
    | error e => exact ⟨hsame, fun _ h => (hno _ _ h).elim⟩
  | down => exact ⟨hsame, fun _ h => (hno _ _ h).elim⟩
  | busy => exact ⟨rfl, hsame, fun _ h => (hno _ _ h).elim⟩

theorem Startable.ledger (h : Startable codec cfg reg ok w₀ w prepared identity)
    (reservations : List ReserveRequest) (marked : List DispatchIdentity) :
    Startable codec cfg reg ok w₀ { w with reserved := reservations, marked := marked } prepared
      identity :=
  ⟨h.names, h.prepared, ⟨h.kept.rows, h.kept.attempts, h.kept.written, h.kept.isOpen⟩, h.unused,
    h.none, h.noRetry⟩

variable {e : LLMError}

theorem Startable.refused (h : Startable codec cfg reg ok w₀ w prepared identity)
    (he : notStarted e) :
    DispatchTraced codec reg w₀ w ctx prepared ordinal (.error e) w :=
  ⟨h.kept, fun _ hi _ => hi, h.none, .inl he⟩

theorem dispatchReserved_traced (h : Startable codec cfg reg ok w₀ w prepared identity)
    (hidentity : dispatchIdentity ctx ordinal = .ok identity)
    (hprovider : prepared.provider = reg.name prepared.route)
    (hreserved : reserveRequest prepared identity reserved day ∈ w.reserved) :
    Obeys (capturing codec cfg reg ctx ok)
      (dispatchReserved codec cfg ctx prepared identity reserved) w
      (DispatchTraced codec reg w₀ w ctx prepared ordinal) := by
  refine (obeys_of_quiet (checkWorkflowBudget_quiet reserved)).bind ?_
  rintro check w' ⟨rfl, -⟩
  cases check with
  | error e =>
    refine (ledgerTx_traced _).bind ?_
    rintro - w'' ⟨⟨marked, rfl⟩, -⟩
    exact (h.ledger w'.reserved marked).refused rfl
  | ok _ =>
    refine (ledgerTx_traced _).bind ?_
    rintro result w'' ⟨⟨marked, rfl⟩, hmarked⟩
    have h' := h.ledger w'.reserved marked
    cases result with
    | error e =>
      refine (ledgerTx_traced _).bind ?_
      rintro - w'' ⟨⟨marked', rfl⟩, -⟩
      exact (h.ledger w'.reserved marked').refused rfl
    | ok _ =>
      exact dispatchMarked_traced h' hidentity hprovider hreserved (hmarked identity rfl rfl)

theorem prepareCall_notStarted {req : CompletionRequest} {route : String}
    (h : prepareCall codec cfg route req = .error e) : notStarted e = true := by
  unfold prepareCall at h
  cases hpolicy : cfg.policy with
  | none =>
    rw [hpolicy] at h
    cases h
    rfl
  | some policy =>
    simp only [hpolicy, Bind.bind, Except.bind] at h
    split at h
    · cases h
    · split at h
      · cases h
        rfl
      · cases h
    · cases h
      rfl

theorem dispatchIdentity_notStarted
    (h : dispatchIdentity ctx ordinal = .error e) : notStarted e = true := by
  unfold dispatchIdentity at h
  split at h
  · cases h
    rfl
  · split at h
    · rename_i hworkspace
      cases h
      rw [resolveDispatchWorkspace_error hworkspace]
      rfl
    · dsimp only at h
      split at h
      · cases h
        rfl
      · cases h

theorem routeReady_quiet (route : String) :
    Only LLMOp.Quiet (routeReady codec cfg route) fun _ => True := by
  simp only [routeReady, perform_bind, only_op]
  refine ⟨trivial, fun provider => ?_⟩
  cases provider with
  | none => trivial
  | some provider =>
    dsimp only
    split
    · trivial
    · exact ⟨trivial, fun _ => trivial⟩

theorem admissible_traced (ordinal : Int) :
    Obeys (capturing codec cfg reg ctx ok) (admissible codec cfg ctx prepared ordinal) w
      fun a w' => w' = w ∧ match a with
        | .error e => notStarted e = true
        | .ok (identity, _) => dispatchIdentity ctx ordinal = .ok identity ∧
            codec.sanitize (reg.name prepared.route) = prepared.provider := by
  refine (obeys_of_quiet (routeReady_quiet _)).bind ?_
  rintro reason w' ⟨rfl, -⟩
  cases reason with
  | some reason => exact ⟨rfl, rfl⟩
  | none =>
    refine obeys_perform_bind.mpr ⟨trivial, fun bound _ => ?_⟩
    split
    · exact ⟨rfl, rfl⟩
    · cases hidentity : dispatchIdentity ctx ordinal with
      | error e => exact ⟨rfl, dispatchIdentity_notStarted hidentity⟩
      | ok identity =>
        refine Obeys.bind (R := fun a w'' => w'' = w' ∧ (∀ e, a = .error e → notStarted e = true) ∧
          ∀ p, a = .ok p → codec.sanitize (reg.name prepared.route) = prepared.provider) ?_ ?_
        · refine obeys_perform_bind.mpr ⟨trivial, fun provider h => ?_⟩
          cases provider with
          | none =>
            refine ⟨rfl, ?_, nofun⟩
            rintro _ ⟨⟩
            rfl
          | some provider =>
            have hname : provider.name = reg.name prepared.route := h.1.2 provider rfl
            dsimp only
            split
            · refine ⟨rfl, ?_, nofun⟩
              rintro _ ⟨⟩
              rfl
            · rename_i hsame
              refine ⟨rfl, (fun _ herror => by cases herror), fun _ _ => ?_⟩
              rw [← hname]
              simpa using hsame
        · rintro provider w'' ⟨rfl, hrefused, hprovider⟩
          cases provider with
          | error e => exact ⟨rfl, hrefused e rfl⟩
          | ok provider =>
            dsimp only
            split
            · exact ⟨rfl, rfl⟩
            · refine obeys_perform_bind.mpr ⟨trivial, fun upperBound _ => ?_⟩
              cases upperBound with
              | error message => exact ⟨rfl, rfl⟩
              | ok upperBound =>
                dsimp only
                split
                · exact ⟨rfl, rfl⟩
                · cases reservation (preparedRates prepared) (preparedCaps prepared) with
                  | error e => exact ⟨rfl, rfl⟩
                  | ok reserved => exact ⟨rfl, rfl, hprovider provider rfl⟩

theorem dispatchAdmitted_traced (h : ∀ identity, dispatchIdentity ctx ordinal = .ok identity →
      Startable codec cfg reg ok w₀ w prepared identity)
    (hkept : Kept w₀ w) (hnone : NoResponse w) (hnames : NamesKept codec cfg reg) :
    Obeys (capturing codec cfg reg ctx ok) (dispatchAdmitted codec cfg ctx prepared ordinal) w
      (DispatchTraced codec reg w₀ w ctx prepared ordinal) := by
  refine (admissible_traced ordinal).bind ?_
  rintro admitted w' ⟨rfl, hadmitted⟩
  cases admitted with
  | error e => exact ⟨hkept, fun _ hi _ => hi, hnone, .inl hadmitted⟩
  | ok admitted =>
    obtain ⟨identity, reserved⟩ := admitted
    obtain ⟨hidentity, hcontract⟩ := hadmitted
    have hstart := h identity hidentity
    have hprovider : prepared.provider = reg.name prepared.route :=
      hcontract.symm.trans (hnames.providers _).2
    refine obeys_perform_bind.mpr ⟨trivial, fun day _ => ?_⟩
    refine (ledgerReserve_traced _).bind ?_
    rintro result w'' ⟨⟨reservations, rfl⟩, hreserved⟩
    have hstart' := hstart.ledger reservations w'.marked
    cases result with
    | error e => exact hstart'.refused rfl
    | ok entry => exact dispatchReserved_traced hstart' hidentity hprovider (hreserved entry rfl)

end Dispatch

/-! ## A completion -/

def Completed (codec : Codec) (w₀ : World) (a : Except LLMError CompletionResult) (w' : World) : Prop :=
  Kept w₀ w' ∧ match a with
    | .ok res => Returns w' res.response ∧ TerminalCaptured codec w' (.ok res)
    | .error e => NoResponse w' ∧
        (notStarted e = true ∨ e = .panicked ∨ TerminalCaptured codec w' (.error e))

theorem terminalCaptured_of_told {text : String} {cause : GoError} (h : Told w cause.message) :
    TerminalCaptured codec w (.error (.call (wrapCompletionError codec text cause))) := by
  obtain ⟨hevents, record, hlast, hkind, herror⟩ := h
  exact ⟨hevents, record, hlast, hkind, .inr ⟨text, cause, rfl, herror⟩⟩

theorem terminalCaptured_of_recorded (model : String) (hnames : NamesKept codec cfg reg)
    {route provider : String} {resp : CompletionResponse} (hprovider : provider = reg.name route)
    (h : Recorded reg w route resp) :
    TerminalCaptured codec w (.ok ⟨resp, false, provider, model⟩) := by
  obtain ⟨hevents, record, hlast, hkind, hname, hresponse⟩ := h
  refine ⟨hevents, record, hlast, hkind, ?_, hresponse⟩
  rw [hprovider, (hnames.providers route).2]
  exact hname

structure Fresh (codec : Codec) (cfg : LLMConfig) (reg : Registry) (ctx : CallContext)
    (ok : ProviderOutcome → Prop) (w₀ w : World) : Prop where
  names : NamesKept codec cfg reg
  kept : Kept w₀ w
  none : NoResponse w
  unused : ∀ ordinal identity, dispatchIdentity ctx ordinal = .ok identity → w.Unused identity
  noRetry : ∀ outcome, ok outcome → NoRetry cfg outcome

theorem Fresh.startable (h : Fresh codec cfg reg ctx ok w₀ w) (henforced : cfg.policy.isSome)
    {prepared : PreparedCall} (hprepared : FromPolicy codec cfg prepared) {ordinal : Int}
    {identity : DispatchIdentity} (hidentity : dispatchIdentity ctx ordinal = .ok identity) :
    Startable codec cfg reg ok w₀ w prepared identity := by
  refine ⟨h.names, hprepared, h.kept, h.unused ordinal identity hidentity, h.none, ?_⟩
  by_cases hzero : cfg.llmCallMaxRetries = 0
  · exact .inl hzero
  · exact .inr fun outcome hok => (h.noRetry outcome hok henforced).resolve_left hzero

variable {req : CompletionRequest} {allowFallback : Bool}

variable {primary : PreparedCall}

theorem dispatchRoutes_traced (h : Fresh codec cfg reg ctx ok w₀ w)
    (henforced : cfg.policy.isSome) (hprimary : FromPolicy codec cfg primary) :
    Obeys (capturing codec cfg reg ctx ok)
      (dispatchRoutes codec cfg ctx req primary allowFallback) w fun a w' => Kept w₀ w' ∧ match a with
        | .ok (resp, used) => Returns w' resp ∧
            TerminalCaptured codec w' (.ok ⟨resp, false, used.provider, used.model⟩)
        | .error e => NoResponse w' ∧ (notStarted e ∨ TerminalCaptured codec w' (.error e)) := by
  refine (dispatchAdmitted_traced (fun _ => h.startable henforced hprimary) h.kept h.none
    h.names).bind ?_
  rintro result w' ⟨hkept, hunused, hresult⟩
  cases result with
  | ok resp =>
    obtain ⟨hreturns, hprovider, hrecorded⟩ := hresult
    exact ⟨hkept, hreturns, terminalCaptured_of_recorded _ h.names hprovider hrecorded⟩
  | error err =>
    obtain ⟨hnone, herr⟩ := hresult
    have hend : notStarted err ∨ TerminalCaptured codec w' (.error err) := by
      rcases herr with herr | ⟨text, cause, rfl, htold⟩
      · exact .inl herr
      · exact .inr (terminalCaptured_of_told htold)
    dsimp only
    split
    · split
      · exact ⟨hkept, hnone, hend⟩
      · rename_i fallback hfallback
        have hprepared := (fallback_fromPolicy h.names hfallback).2
        have hfresh : ∀ identity, dispatchIdentity ctx ordinalFallback = .ok identity →
            Startable codec cfg reg ok w₀ w' fallback identity := by
          intro identity hidentity
          refine ⟨h.names, hprepared, hkept, ?_, hnone, (h.startable henforced hprepared hidentity).noRetry⟩
          refine hunused identity (h.unused _ _ hidentity) fun hprimary => ?_
          have hordinal := dispatchIdentity_ordinal hprimary
          rw [dispatchIdentity_ordinal hidentity] at hordinal
          cases hordinal
        refine (dispatchAdmitted_traced hfresh hkept hnone h.names).bind ?_
        rintro result w'' ⟨hkept', -, hresult⟩
        cases result with
        | ok resp =>
          obtain ⟨hreturns, hprovider, hrecorded⟩ := hresult
          exact ⟨hkept', hreturns, terminalCaptured_of_recorded _ h.names hprovider hrecorded⟩
        | error e =>
          obtain ⟨hnone', he⟩ := hresult
          refine ⟨hkept', hnone', ?_⟩
          rcases he with he | ⟨text, cause, rfl, htold⟩
          · exact .inl he
          · exact .inr (terminalCaptured_of_told htold)
    · exact ⟨hkept, hnone, hend⟩

theorem cacheHit_traced (h : Fresh codec cfg reg ctx ok w₀ w) (req : CompletionRequest)
    (result : CompletionResult) (hhit : result.cacheHit) :
    Obeys (capturing codec cfg reg ctx ok) (cacheHit req result) { w with hits := w.hits + 1 }
      (Completed codec w₀) := by
  have hadmits : World.Admits { w with hits := w.hits + 1 }
      (World.cacheRow codec { w with hits := w.hits + 1 } req result (cacheLineage cfg ctx)) := by
    refine ⟨h.kept.isOpen, congrArg (· + 1) h.kept.written, fun l hl => ⟨?_, fun hne => ?_⟩⟩
    · have hl : cacheLineage cfg ctx = some l := hl
      rw [cacheLineage] at hl
      split at hl
      · rename_i hidentity
        cases hl
        exact h.unused _ _ hidentity
      · cases hl
    · exact absurd rfl hne
  refine obeys_perform_bind.mpr ⟨trivial, fun failure hanswer => ?_⟩
  obtain rfl := hanswer.1.mpr hadmits
  obtain ⟨added, hadded, hphysical, hcache⟩ := h.kept.rows
  refine ⟨⟨⟨added ++ [World.cacheRow codec w req result (cacheLineage cfg ctx)], ?_, ?_, ?_⟩,
    h.kept.attempts, ?_, h.kept.isOpen⟩, ?_, ?_⟩
  · change w.rows ++ [_] = _
    rw [hadded, append_assoc]
    rfl
  · refine Eq.trans ?_ hphysical
    simp [physicalRows, filter_append, World.cacheRow, rowOf]
  · change _ = w.hits + 1
    rw [← hcache]
    simp [cacheRows, filter_append, World.cacheRow, rowOf]
  · have hindex : lastIndex w.job
        (w.rows ++ [World.cacheRow codec w req result (cacheLineage cfg ctx)]) =
          lastIndex w.job w.rows + 1 :=
      lastIndex_append rfl (congrArg (· + 1) h.kept.written)
    exact (congrArg (· + 1) h.kept.written).trans hindex.symm
  · intro r hr
    exact absurd hr (h.none r)
  · refine ⟨Nat.succ_pos _, _, rfl, ?_, rfl, rfl⟩
    rw [hhit]
    rfl

theorem completeAdmitted_traced (h : Fresh codec cfg reg ctx ok w₀ w)
    (henforced : cfg.policy.isSome) (hprimary : FromPolicy codec cfg primary) :
    Obeys (capturing codec cfg reg ctx ok)
      (completeAdmitted codec cfg ctx req primary allowFallback) w (Completed codec w₀) := by
  refine (dispatchRoutes_traced h henforced hprimary).bind ?_
  rintro result w' ⟨hkept, hresult⟩
  rcases result with e | ⟨resp, used⟩
  · exact ⟨hkept, hresult.1, hresult.2.imp id .inr⟩
  · dsimp only
    split
    · exact obeys_perform_bind.mpr ⟨trivial, fun _ _ => ⟨hkept, hresult⟩⟩
    · exact ⟨hkept, hresult⟩

theorem completeEnforced_traced
    (h : Fresh codec cfg reg ctx ok w₀ w) (henforced : cfg.policy.isSome) :
    Obeys (capturing codec cfg reg ctx ok) (completeEnforced codec cfg ctx req allowFallback) w
      (Completed codec w₀) := by
  have hrefused : ∀ {e : LLMError}, notStarted e → Completed codec w₀ (.error e) w :=
    fun he => ⟨h.kept, h.none, .inl he⟩
  unfold completeEnforced
  split
  · rename_i e he
    exact hrefused (prepareCall_notStarted he)
  · rename_i primary hprimary
    have hprepared := (primary_fromPolicy h.names hprimary).2
    split
    · rename_i e he
      exact hrefused (dispatchIdentity_notStarted he)
    · refine (obeys_of_quiet (routeReady_quiet _)).bind ?_
      rintro reason w' ⟨rfl, -⟩
      cases reason with
      | some reason => exact hrefused rfl
      | none =>
        refine obeys_perform_bind.mpr ⟨trivial, fun cached _ => ?_⟩
        cases cached with
        | hit entry => exact cacheHit_traced h _ _ rfl
        | failed | miss => exact completeAdmitted_traced h henforced hprepared

theorem completeWithRetry_traced {name : String} {maxRetries : Int}
    (hnames : NamesKept codec cfg reg) (hkept : Kept w₀ w) (hnone : NoResponse w)
    (hregistered : reg.registered name) :
    Obeys (capturing codec cfg reg ctx ok) (completeWithRetry codec req name maxRetries) w
      fun a w' => Kept w₀ w' ∧ match a with
        | .ok resp => Returns w' resp ∧ Recorded reg w' name resp
        | .error e => NoResponse w' ∧ (e = .panicked ∨ TerminalCaptured codec w' (.error e)) := by
  refine obeys_perform_bind.mpr ⟨trivial, fun provider h => ?_⟩
  cases provider with
  | none =>
    have hsome : (none : Option ProviderInfo).isSome = reg.registered name := h.1.1
    rw [hregistered] at hsome
    cases hsome
  | some provider =>
    dsimp only
    split
    · exact ⟨hkept, hnone, .inl rfl⟩
    · refine (retryLoop_traced hnames _ _ hkept (hkept.welcome name req) hnone (.inl rfl)).bind ?_
      rintro result w' ⟨hkept', -, hresult⟩
      cases result with
      | ok resp => exact ⟨hkept', hresult⟩
      | error e =>
        obtain ⟨hnone', text, cause, rfl, htold⟩ := hresult
        exact ⟨hkept', hnone', .inr (terminalCaptured_of_told htold)⟩

variable {allowRetryAndFallback : Bool}

theorem callProviders_traced (h : Fresh codec cfg reg ctx ok w₀ w) (hlegacy : cfg.policy = none) :
    Obeys (capturing codec cfg reg ctx ok) (callProviders codec cfg req allowRetryAndFallback) w
      fun a w' => Kept w₀ w' ∧ match a with
        | .ok (resp, used) => Returns w' resp ∧ Recorded reg w' used resp ∧ reg.name used = used
        | .error e => NoResponse w' ∧ (e = .panicked ∨ TerminalCaptured codec w' (.error e)) := by
  obtain ⟨⟨hprimary, hprimaryName⟩, hfallback⟩ := h.names.legacy hlegacy
  refine (completeWithRetry_traced h.names h.kept h.none hprimary).bind ?_
  rintro result w' ⟨hkept, hresult⟩
  rcases result with e | resp
  · obtain ⟨hnone, he⟩ := hresult
    have hagain : Obeys (capturing codec cfg reg ctx ok) (show
        LLMProg (Except LLMError (CompletionResponse × String)) from do
        if allowRetryAndFallback && !e.isCapture && cfg.llmFallbackProvider != "" then
          match ← completeWithRetry codec req cfg.llmFallbackProvider 1 with
          | .ok resp => pure (.ok (resp, cfg.llmFallbackProvider))
          | .error err => pure (.error err)
        else pure (.error e)) w' fun a w'' => Kept w₀ w'' ∧ match a with
          | .ok (resp, used) => Returns w'' resp ∧ Recorded reg w'' used resp ∧ reg.name used = used
          | .error e => NoResponse w'' ∧ (e = .panicked ∨ TerminalCaptured codec w'' (.error e)) := by
      split
      · rename_i hallowed
        simp only [Bool.and_eq_true, bne_iff_ne] at hallowed
        obtain ⟨hregistered, hname⟩ := hfallback hallowed.2
        refine (completeWithRetry_traced h.names hkept hnone hregistered).bind ?_
        rintro result w'' ⟨hkept', hresult⟩
        rcases result with e | resp
        · exact ⟨hkept', hresult⟩
        · exact ⟨hkept', hresult.1, hresult.2, hname⟩
      · exact ⟨hkept, hnone, he⟩
    cases e with
    | panicked => exact ⟨hkept, hnone, .inl rfl⟩
    | _ => exact hagain
  · exact ⟨hkept, hresult.1, hresult.2, hprimaryName⟩

theorem complete_traced (h : Fresh codec cfg reg ctx ok w₀ w) (hlegacy : cfg.policy = none) :
    Obeys (capturing codec cfg reg ctx ok) (complete codec cfg req allowRetryAndFallback) w
      (Completed codec w₀) := by
  have hmiss : Obeys (capturing codec cfg reg ctx ok)
      (completeUncached codec cfg req allowRetryAndFallback) w (Completed codec w₀) := by
    refine (callProviders_traced h hlegacy).bind ?_
    rintro result w' ⟨hkept, hresult⟩
    rcases result with e | ⟨resp, usedProvider⟩
    · exact ⟨hkept, hresult.1, .inr hresult.2⟩
    · obtain ⟨hreturns, hrecorded, hname⟩ := hresult
      have hcaptured := terminalCaptured_of_recorded (modelFromRequest cfg req) h.names
        hname.symm hrecorded
      dsimp only
      split
      · exact obeys_perform_bind.mpr ⟨trivial, fun _ _ => ⟨hkept, hreturns, hcaptured⟩⟩
      · exact ⟨hkept, hreturns, hcaptured⟩
  refine obeys_perform_bind.mpr ⟨trivial, fun cached _ => ?_⟩
  cases cached with
  | hit entry => exact cacheHit_traced h _ _ rfl
  | failed | miss => exact hmiss

/-! ## Runs -/

/-- A completion leaves a row for each of its calls. -/
theorem Complete_traced (h : Fresh codec cfg reg ctx ok w₀ w) :
    Obeys (capturing codec cfg reg ctx ok) (Complete codec cfg ctx req) w
      (Completed codec w₀) := by
  unfold Complete
  split
  · rename_i henforced
    exact completeEnforced_traced h henforced
  · rename_i hlegacy
    exact complete_traced h (by simpa using hlegacy)

theorem invocations_adapterCapture (route : String) (d : Option DispatchIdentity)
    (req : CompletionRequest) (answer : ProviderOutcome) :
    (w.adapterCapture codec cfg reg route d req answer).invocations = w.invocations := by
  cases answer with
  | response r | empty => rfl
  | failed e =>
    rw [World.adapterCapture]
    split <;> rfl

theorem invocations_next (o : LLMOp) (r : o.Answer) : (w.next codec cfg reg ctx ⟨o, r⟩).invocations =
      w.invocations ++ (outcome ⟨o, r⟩).toList := by
  have hsame : w.invocations = w.invocations ++ [] := (append_nil _).symm
  cases o with
  | complete route d req =>
    change (World.returned (if reg.traces route then _ else w) _).invocations = _
    split
    · exact congrArg (· ++ [r]) (invocations_adapterCapture route d req r)
    · rfl
  | reserve q => rcases r with (e | e) | _ | _ <;> exact hsame
  | ledger tx => cases tx <;> rcases r with (e | e) | _ | _ <;> exact hsame
  | cacheGet key | traceCacheHit req result => cases r <;> exact hsame
  | traceBoundary req e =>
    cases r with
    | captured =>
      simp only [World.next]
      split <;> exact hsame
    | _ => exact hsame
  | _ => exact hsame

theorem after_capturing (t : LLMTrace) : (capturing codec cfg reg ctx ok).after w t =
      (capturing codec cfg reg ctx fun _ => True).after w t := by
  induction t generalizing w with
  | nil => rfl
  | cons e t ih => exact ih

theorem invocations_after (t : LLMTrace) :
    ((capturing codec cfg reg ctx ok).after w t).invocations = w.invocations ++ outcomes t := by
  induction t generalizing w with
  | nil => exact (append_nil _).symm
  | cons e t ih =>
    refine ih.trans ?_
    change (w.next codec cfg reg ctx ⟨e.1, e.2⟩).invocations ++ _ = _
    rw [invocations_next, append_assoc]
    congr 1
    cases he : outcome e <;> simp [outcomes, he]

theorem trusts_capturing {t : LLMTrace} (h : (capturing codec cfg reg ctx fun _ => True).Trusts w t)
    (hok : ∀ answer ∈ outcomes t, ok answer) : (capturing codec cfg reg ctx ok).Trusts w t := by
  induction t generalizing w with
  | nil => trivial
  | cons e t ih =>
    obtain ⟨⟨hanswer, -⟩, htail⟩ := h
    have hhead : ∀ answer, outcome e = some answer → ok answer := by
      intro answer he
      refine hok answer ?_
      simp [outcomes, he]
    refine ⟨⟨hanswer, ?_⟩, ih htail fun answer hanswer => hok answer ?_⟩
    · obtain ⟨o, r⟩ := e
      cases o with
      | complete route d req => exact hhead r rfl
      | _ => trivial
    · obtain ⟨e', he', hsome⟩ := mem_filterMap.mp hanswer
      exact mem_filterMap.mpr ⟨e', mem_cons_of_mem _ he', hsome⟩

theorem invocations_counted (completed : Except LLMError CompletionResult) :
    (w.counted completed).invocations = w.invocations := by
  cases completed with
  | ok r =>
    rw [World.counted]
    split <;> rfl
  | error e => rfl

/-- With the last row of the trace there is one row for each. -/
theorem Completed.finishes {request : CompletionRequest} {w' : World}
    {completed result : Except LLMError CompletionResult} (h : Completed codec w₀ completed w)
    (hfinishes : Finishes codec request w completed result w') : OneRowEach w₀ w' result := by
  obtain ⟨hkept, hresult⟩ := h
  have hcaptured : (∀ e, completed = .error e →
      e.isCapture = false ∧ notStarted e = false ∧ e ≠ .panicked) → TerminalCaptured codec w completed := by
    intro hstarted
    cases completed with
    | ok res => exact hresult.2
    | error e =>
      obtain ⟨-, hno, hpanicked⟩ := hstarted e rfl
      rcases hresult.2 with hnot | hnot | hcaptured
      · rw [hno] at hnot
        cases hnot
      · exact absurd hnot hpanicked
      · exact hcaptured
  cases hfinishes with
  | withheld _ => exact ⟨hkept.rows, fun r hr => absurd hr (hresult.1 r)⟩
  | traced _ _ =>
    refine ⟨hkept.rows, fun r hr => ?_⟩
    cases completed with
    | ok res => exact ⟨res, rfl, hresult.1 r hr⟩
    | error e => exact absurd hr (hresult.1 r)
  | late hstarted hno _ | lost hstarted hno _ => exact absurd (hcaptured hstarted) hno

/-- In every run of a traced completion in which no route of an enforced policy is called again,
there is one row for each call, one for each cache read, and a response is returned. -/
theorem rows_one_to_one (codec : Codec) (cfg : LLMConfig) (reg : Registry) (ctx : CallContext)
    (metadata : CompletionTraceMetadata) (request : CompletionRequest) (w w' : World)
    (result : Except LLMError CompletionResult) (hnames : NamesKept codec cfg reg)
    (hbegins : Begins (completionDispatchContext ctx metadata) w)
    (h : CompletesWithTrace codec cfg reg ctx metadata request w result w')
    (hretry : ∀ answer ∈ w'.invocations, NoRetry cfg answer) : OneRowEach w w' result := by
  obtain ⟨t, completed, hleads, htrusts, hfinishes⟩ := h
  have hnone : NoResponse w := by
    intro r hr
    rw [hbegins.invocations] at hr
    cases hr
  have hinvocations : w'.invocations = outcomes t := by
    have hafter := @invocations_after codec cfg reg (completionDispatchContext ctx metadata)
      (fun _ => True) w t
    rw [hbegins.invocations, nil_append] at hafter
    refine Eq.trans ?_ hafter
    cases hfinishes with
    | withheld _ | traced _ _ => rfl
    | late _ _ _ | lost _ _ _ => exact invocations_counted _
  have hfresh : Fresh codec cfg reg (completionDispatchContext ctx metadata) (NoRetry cfg) w w :=
    ⟨hnames, hbegins.kept, hnone, hbegins.unused, fun _ h => h⟩
  have hcompleted := (Complete_traced hfresh).leads hleads
    (trusts_capturing htrusts fun answer hanswer => hretry answer (hinvocations ▸ hanswer))
  rw [after_capturing] at hcompleted
  exact hcompleted.finishes hfinishes

end Llm

open Llm Prog

namespace Sample

/-- A provider whose adapter leaves its boundary to the orchestrator. -/
def registry : Registry where
  registered _ := true
  name _ := "provider"
  model _ := "model"
  traces _ := false

def finalStage : CompletionTraceMetadata := ⟨"final", none⟩

def stageContext : CallContext :=
  ⟨some ⟨"dsl", "operation:final", 1, "default", "workflow"⟩, none⟩

theorem stageContext_eq : completionDispatchContext callContext finalStage = stageContext := rfl

def firstAttempt : Llm.World where
  rows := []
  reserved := []
  marked := []
  job := ⟨"dsl", "operation", 1⟩
  isOpen := true
  written := 0
  providerAttempts := 0
  events := 0
  last := none
  pending := none
  invocations := []
  hits := 0

theorem firstAttempt_begins (ctx : CallContext) : Begins ctx firstAttempt :=
  ⟨rfl, rfl, fun _ _ _ _ h => absurd h not_mem_nil, rfl, rfl, rfl, rfl⟩

theorem namesKept : NamesKept codec enforcedConfig registry where
  providers route := by
    have hne : "provider" ≠ "" := by decide
    exact ⟨hne, rfl⟩
  models policy hpolicy route hroute := by
    cases hpolicy
    obtain rfl := mem_singleton.mp hroute
    exact ⟨by decide, rfl⟩
  legacy h := by cases h

def stageIdentity : DispatchIdentity := ⟨"default", "dsl", "operation:final", 1, 0⟩

def stageRequest : CompletionRequest := ⟨"model", "", "repair", 0, true, 500, none, .atMostOnce⟩

def stageCall : PreparedCall where
  route := "primary"
  provider := "provider"
  model := "model"
  endpoint := "endpoint"
  policyFingerprint := "fingerprint"
  priceRevision := "revision"
  requestHash := "repair"
  request := stageRequest
  maxInputTokens := 1000
  maxOutputTokens := 500
  inputUSDPerMillion := 3000000000
  cachedInputUSDPerMillion := 300000000
  outputUSDPerMillion := 15000000000

def stageReserve : ReserveRequest := Llm.reserveRequest stageCall stageIdentity 10500001 ""

def tooMany : GoError := { GoError.new "too many requests" with httpStatus := some 429 }

def repaired : CompletionResponse :=
  ⟨"repaired", 100, 0, 50, ⟨true, true, true, false, []⟩, "", "stop"⟩

def refusal : GoError := .captureFailed "UNIQUE constraint failed"

/-- The provider is overloaded and then answers, and the row of its answer is kept out. -/
def calls : LLMTrace :=
  [⟨.complete "primary" (some stageIdentity) stageRequest, .failed tooMany⟩,
    ⟨.traceBoundary stageRequest (some tooMany), .captured⟩,
    ⟨.complete "primary" (some stageIdentity) stageRequest, .response repaired⟩,
    ⟨.traceBoundary stageRequest none, .failed "UNIQUE constraint failed"⟩]

theorem calls_leads :
    (completeProviderWithRetry codec stageRequest "primary" (some stageIdentity) 2).Leads calls
      (.error refusal) := by
  unfold completeProviderWithRetry retryLoop
  repeat refine .step _ _ _ _ _ ?_
  unfold retryLoop
  repeat refine .step _ _ _ _ _ ?_
  exact .ret _

def admission : LLMTrace :=
  [⟨.providers "primary", some ⟨"provider", true⟩⟩, ⟨.closedRoute "primary", ""⟩,
    ⟨.budgetLedger, true⟩, ⟨.providers "primary", some ⟨"provider", true⟩⟩,
    ⟨.inputTokenUpperBound "primary" stageRequest, .ok 0⟩]

theorem admission_leads :
    (admissible codec enforcedConfig stageContext stageCall ordinalPrimary).Leads admission
      (.ok (stageIdentity, 10500001)) := by
  repeat refine .step _ _ _ _ _ ?_
  exact .ret _

def marking : LLMTrace :=
  [⟨.workflowBudgetLedger, false⟩, ⟨.ledger (.markPossiblyDispatched stageIdentity), .done (.ok ())⟩]

def settlement : LLMTrace :=
  [⟨.ledger (.settleUncertain stageIdentity "failed_call"), .done (.ok ())⟩, ⟨.workflowBudgetLedger, false⟩]

theorem ledgerTx_leads (tx : LedgerTx) : (ledgerTx tx).Leads [⟨.ledger tx, .done (.ok ())⟩] (.ok ()) := by
  unfold ledgerTx withImmediateTx
  exact .step _ _ _ _ _ (.ret _)

theorem dispatchReserved_leads :
    (dispatchReserved codec enforcedConfig stageContext stageCall stageIdentity 10500001).Leads
      (marking ++ (calls ++ settlement)) (.error (.call refusal)) := by
  have hsettled : (settleAdmitted stageContext stageIdentity stageCall 10500001
      (.error refusal)).Leads settlement () := by
    have hsettle : (do let _ ← ledgerTx (.settleUncertain stageIdentity "failed_call")).Leads
        [⟨.ledger (.settleUncertain stageIdentity "failed_call"), .done (.ok ())⟩] () :=
      (ledgerTx_leads _).bind_ret rfl
    exact hsettle.bind (.step _ _ _ _ _ (.ret _))
  have hmarked : (dispatchMarked codec enforcedConfig stageContext stageCall stageIdentity
      10500001).Leads (calls ++ settlement) (.error (.call refusal)) := by
    exact calls_leads.bind (hsettled.bind_ret rfl)
  refine .step _ _ _ _ _ ?_
  exact (ledgerTx_leads _).bind hmarked

def dispatched : LLMTrace :=
  admission ++ (⟨.budgetDay, ""⟩ ::
    (⟨.reserve stageReserve, .done (.ok (stageReserve.created ⟨"", 0, 0⟩))⟩ ::
      (marking ++ (calls ++ settlement))))

def retried : LLMTrace :=
  ⟨.providers "primary", some ⟨"provider", true⟩⟩ :: ⟨.closedRoute "primary", ""⟩ ::
    ⟨.cacheGet (preparedCacheKey codec stageCall), .miss⟩ :: dispatched

theorem retried_leads : (Complete codec enforcedConfig stageContext completionRequest).Leads retried
      (.error (.call refusal)) := by
  have hreserve : (ledgerReserve stageReserve).Leads
      [⟨.reserve stageReserve, .done (.ok (stageReserve.created ⟨"", 0, 0⟩))⟩]
      (.ok (stageReserve.created ⟨"", 0, 0⟩)) := by
    unfold ledgerReserve withImmediateTx
    exact .step _ _ _ _ _ (.ret _)
  have hadmitted : (dispatchAdmitted codec enforcedConfig stageContext stageCall
      ordinalPrimary).Leads dispatched (.error (.call refusal)) := by
    exact admission_leads.bind (.step _ _ _ _ _ (hreserve.bind dispatchReserved_leads))
  have hroutes : (dispatchRoutes codec enforcedConfig stageContext completionRequest stageCall
      true).Leads dispatched (.error (.call refusal)) := by
    unfold dispatchRoutes
    exact hadmitted.bind_ret rfl
  have hmiss : (completeAdmitted codec enforcedConfig stageContext completionRequest stageCall
      true).Leads dispatched (.error (.call refusal)) := by
    unfold completeAdmitted
    exact hroutes.bind_ret rfl
  exact .step _ _ _ _ _ (.step _ _ _ _ _ (.step _ _ _ _ _ hmiss))

theorem retried_trusts :
    (capturing codec enforcedConfig registry stageContext fun _ => True).Trusts firstAttempt
      retried := by
  have hregistered : ∀ w : Llm.World, w.Answers codec enforcedConfig registry stageContext
      ⟨.providers "primary", some ⟨"provider", true⟩⟩ := by
    intro w
    refine ⟨rfl, ?_⟩
    rintro p ⟨⟩
    rfl
  refine ⟨⟨hregistered _, trivial⟩, ⟨trivial, trivial⟩, ⟨trivial, trivial⟩,
    ⟨hregistered _, trivial⟩, ⟨trivial, trivial⟩, ⟨trivial, trivial⟩, ⟨hregistered _, trivial⟩,
    ⟨trivial, trivial⟩, ⟨trivial, trivial⟩, ⟨trivial, trivial⟩, ⟨trivial, trivial⟩,
    ⟨trivial, trivial⟩, ⟨?_, trivial⟩, ⟨?_, trivial⟩, ⟨?_, trivial⟩, ⟨?_, trivial⟩,
    ⟨trivial, trivial⟩, ⟨trivial, trivial⟩, trivial⟩
  · rintro _ ⟨⟩
    rfl
  · rintro _ ⟨⟩
    refine ⟨fun h => absurd h.1 (Nat.lt_irrefl _), rfl, rfl, ?_⟩
    rintro l ⟨⟩
    exact ⟨fun _ h => absurd h not_mem_nil, fun _ => ⟨stageReserve, mem_singleton_self _,
      rfl, mem_singleton_self _, rfl, rfl, rfl, rfl, rfl, rfl⟩⟩
  · rintro _ ⟨⟩
  · rintro _ ⟨⟩
    refine ⟨fun h => absurd h.1 (Nat.lt_irrefl _), ?_⟩
    rintro ⟨-, -, h⟩
    exact (h _ rfl).1 _ (mem_singleton_self _) _ rfl rfl

end Sample

/-- A provider is overloaded once and then answers: the row of the answer is kept out, and the
answer withheld. -/
theorem retriedAnswer_withheld : ¬∀ (w w' : Llm.World) (result : Except LLMError CompletionResult),
    NamesKept Sample.codec Sample.enforcedConfig Sample.registry →
    Begins (completionDispatchContext Sample.callContext Sample.finalStage) w →
    CompletesWithTrace Sample.codec Sample.enforcedConfig Sample.registry Sample.callContext
      Sample.finalStage Sample.completionRequest w result w' → OneRowEach w w' result := by
  intro h
  have hrun : CompletesWithTrace Sample.codec Sample.enforcedConfig Sample.registry
      Sample.callContext Sample.finalStage Sample.completionRequest Sample.firstAttempt
      (.error (.call Sample.refusal)) _ :=
    ⟨Sample.retried, _, Sample.retried_leads, Sample.retried_trusts, .withheld (.inl rfl)⟩
  have hone := h _ _ _ Sample.namesKept (Sample.firstAttempt_begins _) hrun
  have hanswered : .response Sample.repaired ∈ outcomes Sample.retried :=
    mem_cons_of_mem _ mem_cons_self
  have hinvocations := @invocations_after Sample.codec Sample.enforcedConfig Sample.registry
    (completionDispatchContext Sample.callContext Sample.finalStage) (fun _ => True)
    Sample.firstAttempt Sample.retried
  obtain ⟨res, hres, -⟩ := hone.returned Sample.repaired (by rw [hinvocations]; exact hanswered)
  cases hres

namespace Sample

def legacyConfig : LLMConfig where
  policy := none
  llmProvider := "provider"
  llmFallbackProvider := ""
  llmModel := "model"
  llmCallMaxRetries := 1
  llmCacheTTL := 0
  retries_bounded h := by cases h

theorem legacyNamesKept : NamesKept codec legacyConfig registry where
  providers := namesKept.providers
  models policy hpolicy := by cases hpolicy
  legacy _ := ⟨⟨rfl, rfl⟩, fun h => absurd rfl h⟩

def legacyRetried : LLMTrace :=
  [⟨.cacheGet "repair", .miss⟩, ⟨.providers "provider", some ⟨"provider", true⟩⟩,
    ⟨.complete "provider" none completionRequest, .failed tooMany⟩,
    ⟨.traceBoundary completionRequest (some tooMany), .captured⟩,
    ⟨.complete "provider" none completionRequest, .response repaired⟩,
    ⟨.traceBoundary completionRequest none, .captured⟩]

theorem legacyRetried_leads :
    (Complete codec legacyConfig stageContext completionRequest).Leads legacyRetried
      (.ok ⟨repaired, false, "provider", "model"⟩) := by
  have hloop : (completeProviderWithRetry codec completionRequest "provider" none 1).Leads
      (legacyRetried.drop 2) (.ok repaired) := by
    unfold completeProviderWithRetry retryLoop
    repeat refine .step _ _ _ _ _ ?_
    unfold retryLoop
    repeat refine .step _ _ _ _ _ ?_
    exact .ret _
  have hprimary : (completeWithRetry codec completionRequest "provider" 1).Leads
      (legacyRetried.drop 1) (.ok repaired) :=
    .step _ _ _ _ _ (hloop.bind_ret rfl)
  have hproviders : (callProviders codec legacyConfig completionRequest true).Leads
      (legacyRetried.drop 1) (.ok (repaired, "provider")) := by
    unfold callProviders
    exact hprimary.bind_ret rfl
  refine .step _ _ _ _ _ ?_
  exact hproviders.bind_ret rfl

theorem legacyRetried_trusts :
    (capturing codec legacyConfig registry stageContext fun _ => True).Trusts firstAttempt
      legacyRetried := by
  refine ⟨⟨trivial, trivial⟩, ⟨⟨rfl, ?_⟩, trivial⟩, ⟨?_, trivial⟩, ⟨?_, trivial⟩, ⟨?_, trivial⟩,
    ⟨?_, trivial⟩, trivial⟩
  · rintro p ⟨⟩
    rfl
  · rintro _ ⟨⟩
    rfl
  · rintro _ ⟨⟩
    exact ⟨fun h => absurd h.1 (Nat.lt_irrefl _), rfl, rfl, nofun⟩
  · rintro _ ⟨⟩
  · rintro _ ⟨⟩
    exact ⟨fun h => absurd h.1 (Nat.lt_irrefl _), rfl, rfl, nofun⟩

def legacyEnd : Llm.World :=
  (capturing codec legacyConfig registry stageContext fun _ => True).after firstAttempt legacyRetried

theorem legacyEnd_captured :
    TerminalCaptured codec legacyEnd (.ok ⟨repaired, false, "provider", "model"⟩) := by
  have hlast : legacyEnd.last = some ⟨.providerResponse, some repaired, "provider", ""⟩ := rfl
  have hevents : legacyEnd.events = 2 := rfl
  exact ⟨by rw [hevents]; decide, _, hlast, rfl, rfl, rfl⟩

theorem legacyRetried_completes :
    CompletesWithTrace codec legacyConfig registry callContext finalStage completionRequest
      firstAttempt (.ok ⟨repaired, false, "provider", "model"⟩) legacyEnd := by
  unfold CompletesWithTrace
  rw [stageContext_eq]
  refine ⟨legacyRetried, _, legacyRetried_leads, legacyRetried_trusts, ?_⟩
  refine .traced ?_ legacyEnd_captured
  intro e he
  cases he

end Sample

/-- A retry in legacy mode leaves two rows. -/
theorem legacyRetry_one_to_one : Sample.legacyEnd.rows.length = 2 ∧
    OneRowEach Sample.firstAttempt Sample.legacyEnd
      (.ok ⟨Sample.repaired, false, "provider", "model"⟩) := by
  refine ⟨rfl, rows_one_to_one Sample.codec Sample.legacyConfig Sample.registry Sample.callContext
    Sample.finalStage Sample.completionRequest _ _ _ Sample.legacyNamesKept
    (Sample.firstAttempt_begins _) Sample.legacyRetried_completes fun _ _ h => ?_⟩
  cases h

end Aegis
