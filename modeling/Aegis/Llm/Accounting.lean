import Aegis.Llm.AtMostOnce
import Aegis.Llm.Dispatch

/-!
# Llm.Accounting

No dispatch is unaccounted for: the calls keep the protocol of `Llm.Dispatch`, so in every run a
provider is reached only under a reservation that was marked, by one call for each identity, and
what was dispatched stays counted.

The trusted cost may be zero: a provider may report that it has used no token.
-/

namespace Aegis

open List

namespace Llm

open Prog

variable {codec : Codec} {cfg : LLMConfig} {ctx : CallContext} {s : Stage} {tx : LedgerTx}
  {prepared : PreparedCall} {reserved ordinal : Int} {i : DispatchIdentity}
  {answers : List ProviderOutcome}

theorem obeys_of_bystander {α : Type} {p : LLMProg α} {Q : α → Prop} (h : Only LLMOp.Local p Q) :
    Obeys stages p s fun a t => t = s ∧ Q a := by
  refine h.obeys fun s o ho => ?_
  cases o <;> first | exact ⟨trivial, fun _ => rfl⟩ | cases ho

theorem tx_obeys (hallowed : s.Allowed (.ledger tx)) (hmark : ∀ i, tx ≠ .markPossiblyDispatched i) :
    Obeys stages (ledgerTx tx) s fun _ t => t = s := by
  refine withImmediateTx_obeys ?_ trivial (fun _ => rfl) ledgerRetries
  refine ⟨hallowed, fun answer _ => ?_⟩
  have hnext : stages.next s (.ledger tx) answer = s := by
    cases tx with
    | markPossiblyDispatched i => exact absurd rfl (hmark i)
    | _ => cases answer <;> rfl
  rw [hnext]
  cases answer <;> simp

theorem ledgerReserve_holds (r : ReserveRequest) : Obeys stages (ledgerReserve r) .idle
      fun a t => ∀ e, a = .ok e → t = .holding r.identity := by
  refine withImmediateTx_obeys ?_ trivial (fun _ => rfl) ledgerRetries
  refine ⟨rfl, fun answer _ => ?_⟩
  cases answer with
  | done result =>
    rintro e rfl
    rfl
  | down => simp
  | busy => exact ⟨rfl, by simp⟩

theorem mark_marks (i : DispatchIdentity) : Obeys stages (ledgerTx (.markPossiblyDispatched i)) (.holding i)
      fun a t => ∀ u, a = .ok u → t = .marked i [] := by
  refine withImmediateTx_obeys ?_ trivial (fun _ => rfl) ledgerRetries
  refine ⟨rfl, fun answer _ => ?_⟩
  cases answer with
  | done result =>
    rintro u rfl
    rfl
  | down => simp
  | busy => exact ⟨rfl, by simp⟩

/-- The response that is returned is one that the provider gave. -/
def AnsweredBy (answers : List ProviderOutcome) (result : Except GoError CompletionResponse) : Prop :=
  ∀ resp, result = .ok resp → ∃ r, .response r ∈ answers ∧ (resp = r ∨ resp = normalizeCompletionUsage r)

/-- The stage of `i`, with what its provider has answered. -/
def Heard (i : DispatchIdentity) (result : Except GoError CompletionResponse) (s : Stage) : Prop :=
  ∃ answers, s = .marked i answers ∧ AnsweredBy answers result

theorem answered_error {answers : List ProviderOutcome} (e : GoError) : AnsweredBy answers (.error e) := by
  rintro resp ⟨⟩

theorem attemptProvider_heard (req : CompletionRequest) (name : String) :
    Obeys stages (attemptProvider req name (some i)) (.marked i answers) fun a t =>
      ∃ answers, t = .marked i answers ∧ ∀ result, a = .error result → AnsweredBy answers result := by
  refine obeys_perform_bind.mpr ⟨⟨i, answers, rfl, rfl⟩, fun r _ => ?_⟩
  cases r with
  | response resp =>
    refine obeys_perform_bind.mpr ⟨trivial, fun boundary _ => ?_⟩
    have hmem : ProviderOutcome.response resp ∈ answers ++ [.response resp] := by simp
    refine boundary.casesOn ?_ ?_ ?_
    · refine ⟨_, rfl, ?_⟩
      rintro _ ⟨⟩ _ ⟨⟩
      exact ⟨resp, hmem, .inl rfl⟩
    · refine ⟨_, rfl, ?_⟩
      rintro _ ⟨⟩ _ ⟨⟩
      exact ⟨resp, hmem, .inr rfl⟩
    · intro message
      refine ⟨_, rfl, ?_⟩
      rintro _ ⟨⟩
      exact answered_error _
  | empty =>
    refine obeys_perform_bind.mpr ⟨trivial, fun boundary _ => ?_⟩
    cases boundary with
    | adapter | captured => exact ⟨_, rfl, by simp⟩
    | failed message =>
      refine ⟨_, rfl, ?_⟩
      rintro _ ⟨⟩
      exact answered_error _
  | failed e =>
    dsimp only
    split
    · refine ⟨_, rfl, ?_⟩
      rintro _ ⟨⟩
      exact answered_error _
    · refine obeys_perform_bind.mpr ⟨trivial, fun boundary _ => ?_⟩
      cases boundary with
      | adapter | captured => exact ⟨_, rfl, by simp⟩
      | failed message =>
        refine ⟨_, rfl, ?_⟩
        rintro _ ⟨⟩
        exact answered_error _

theorem retryLoop_heard (req : CompletionRequest) (name : String) (maxRetries left : Nat) :
    Obeys stages (retryLoop codec req name (some i) maxRetries left) (.marked i answers)
      fun a t => Heard i a t := by
  induction left generalizing answers with
  | zero =>
    unfold retryLoop
    refine (attemptProvider_heard req name).bind ?_
    rintro a t ⟨answers', rfl, ha⟩
    cases a with
    | error result => exact ⟨answers', rfl, ha result rfl⟩
    | ok e => exact ⟨answers', rfl, answered_error _⟩
  | succ left ih =>
    unfold retryLoop
    refine (attemptProvider_heard req name).bind ?_
    rintro a t ⟨answers', rfl, ha⟩
    cases a with
    | error result => exact ⟨answers', rfl, ha result rfl⟩
    | ok e => exact ih

theorem normalize_eq_self {r : CompletionResponse}
    (h : (usageFromResponse (some (normalizeCompletionUsage r))).trustworthy) :
    normalizeCompletionUsage r = r := by
  simp only [usageFromResponse] at h
  split at h
  · cases h
  · rename_i hcontradictory
    simp only [normalizeCompletionUsage, Bool.or_eq_true, decide_eq_true_eq, not_or, not_lt]
      at hcontradictory
    obtain ⟨⟨⟨hflag, hin⟩, hcached⟩, hout⟩ := hcontradictory
    have hflag' : r.usageMetadata.contradictory = false := by simpa using hflag
    have hkept : (r.usageMetadata.contradictory || decide (r.inputTokens < 0) ||
        decide (r.cachedInputTokens < 0) || decide (r.outputTokens < 0)) =
        r.usageMetadata.contradictory := by
      rw [hflag', decide_eq_false hin.not_gt, decide_eq_false hcached.not_gt, decide_eq_false hout.not_gt]
      rfl
    unfold normalizeCompletionUsage
    rw [max_eq_right hin, max_eq_right hcached, max_eq_right hout, hkept]

theorem reported_of_answered {resp : CompletionResponse} (h : AnsweredBy answers (.ok resp))
    (htrusted : (usageFromResponse (some resp)).trustworthy) :
    ∃ r, .response r ∈ answers ∧ Reported r (usageFromResponse (some resp)).usage := by
  obtain ⟨r, hr, rfl | rfl⟩ := h resp rfl
  · exact ⟨resp, hr, htrusted, rfl⟩
  · have hsame := normalize_eq_self htrusted
    rw [hsame] at htrusted ⊢
    exact ⟨r, hr, htrusted, rfl⟩

theorem settleUncertain_obeys (reason : String) :
    Obeys stages (settleUncertain i reason) s fun _ t => t = s := by
  have hallowed : s.Allowed (.ledger (.settleUncertain i reason)) := trivial
  refine (tx_obeys hallowed nofun).bind ?_
  rintro _ t rfl
  rfl

theorem addWorkflowSpend_obeys (amount : Int) :
    Obeys stages (addWorkflowSpend ctx amount) s fun _ _ => True :=
  (obeys_of_bystander (addWorkflowSpend_only amount)).mono fun _ _ _ => trivial

theorem settleAdmitted_obeys {result : Except GoError CompletionResponse} (h : AnsweredBy answers result) :
    Obeys stages (settleAdmitted ctx i prepared reserved result) (.marked i answers)
      fun _ _ => True := by
  have huncertain : ∀ reason, Obeys stages (do
      settleUncertain i reason
      perform (.closeRoute prepared.route "usage_contract_violation")
      addWorkflowSpend ctx reserved) (.marked i answers) fun _ _ => True := by
    intro reason
    refine (settleUncertain_obeys reason).bind ?_
    rintro _ t rfl
    exact obeys_perform_bind.mpr ⟨trivial, fun _ _ => addWorkflowSpend_obeys reserved⟩
  unfold settleAdmitted
  dsimp only
  split
  · exact huncertain _
  · split
    · rename_i resp _ htrusted
      split
      · exact huncertain _
      · split
        · exact huncertain _
        · rename_i cost _
          obtain ⟨r, hr, hreported⟩ := reported_of_answered h htrusted
          have hallowed : (Stage.marked i answers).Allowed (.ledger (.settleTrusted i
              (usageFromResponse (some resp)).usage cost "")) := ⟨answers, rfl, r, hr, hreported⟩
          refine (tx_obeys hallowed nofun).bind ?_
          rintro _ t rfl
          exact addWorkflowSpend_obeys _
    · refine (settleUncertain_obeys _).bind ?_
      rintro _ t rfl
      exact addWorkflowSpend_obeys reserved

theorem dispatchMarked_obeys_stages :
    Obeys stages (dispatchMarked codec cfg ctx prepared i reserved) (.marked i [])
      fun _ _ => True := by
  refine (retryLoop_heard _ _ _ _).bind ?_
  rintro result t ⟨answers, rfl, hanswered⟩
  refine (settleAdmitted_obeys hanswered).bind ?_
  intro _ t _
  cases result <;> trivial

theorem release_obeys (reason : String) (e : LLMError) : Obeys stages (do
      let _ ← ledgerTx (.release i reason)
      pure (.error e) : LLMProg (Except LLMError CompletionResponse)) s fun _ _ => True := by
  have hallowed : s.Allowed (.ledger (.release i reason)) := trivial
  refine (tx_obeys hallowed nofun).bind ?_
  rintro _ t rfl
  trivial

theorem dispatchReserved_obeys_stages :
    Obeys stages (dispatchReserved codec cfg ctx prepared i reserved) (.holding i)
      fun _ _ => True := by
  refine (obeys_of_bystander (checkWorkflowBudget_only reserved)).bind ?_
  rintro check t ⟨rfl, -⟩
  cases check with
  | error e => exact release_obeys _ _
  | ok _ =>
    refine (mark_marks i).bind ?_
    intro marked t ht
    cases marked with
    | error e => exact release_obeys _ _
    | ok u =>
      rw [ht u rfl]
      exact dispatchMarked_obeys_stages

theorem dispatchAdmitted_obeys_stages :
    Obeys stages (dispatchAdmitted codec cfg ctx prepared ordinal) .idle fun _ _ => True := by
  refine (obeys_of_bystander (admissible_only prepared ordinal)).bind ?_
  rintro admitted t ⟨rfl, -⟩
  cases admitted with
  | error e => trivial
  | ok admitted =>
    obtain ⟨identity, reserved⟩ := admitted
    refine obeys_perform_bind.mpr ⟨trivial, fun day _ => ?_⟩
    refine (ledgerReserve_holds (reserveRequest prepared identity reserved day)).bind ?_
    intro result t ht
    cases result with
    | error e => trivial
    | ok entry =>
      rw [ht entry rfl]
      exact dispatchReserved_obeys_stages

theorem ledgerWorld_rely : Rely ledgerWorld stages .idle Accounts where
  body _ := dispatchAdmitted_obeys_stages
  exec _ _ _ _ _ h hallowed := ⟨trivial, exec_accounts h hallowed⟩
  env _ _ pass h := recover_accounts h pass

/-! ## What the histories show -/

variable {t : LLMTrace}

variable (answers) in
theorem marked_stays (h : stages.Allows (.marked i answers) t) :
    ∃ later, stages.after (.marked i answers) t = .marked i later ∧ ∀ r ∈ answers, r ∈ later := by
  refine h.invariant (I := fun s => ∃ later, s = .marked i later ∧ ∀ r ∈ answers, r ∈ later)
    ⟨answers, rfl, fun _ h => h⟩ ?_
  rintro _ o r ⟨later, rfl, hsub⟩ hallowed
  cases o with
  | reserve _ => cases hallowed
  | ledger tx =>
    cases tx with
    | markPossiblyDispatched _ => cases hallowed
    | _ => exact ⟨later, by cases r <;> rfl, hsub⟩
  | complete _ _ _ =>
    refine ⟨later ++ [r], rfl, fun a ha => ?_⟩
    exact mem_append_left _ (hsub a ha)
  | _ => exact ⟨later, rfl, hsub⟩

theorem invoked_marked {dispatch : Option DispatchIdentity} (h : stages.Allows s t)
    (ht : dispatch ∈ invocations t) :
    ∃ i answers, dispatch = some i ∧ stages.after s t = .marked i answers := by
  induction t generalizing s with
  | nil => cases ht
  | cons a t ih =>
    obtain ⟨o, r⟩ := a
    cases o with
    | complete route d request =>
      rw [show invocations (⟨.complete route d request, r⟩ :: t) = d :: invocations t from rfl] at ht
      obtain rfl | ht := mem_cons.mp ht
      · obtain ⟨i, answers, rfl, rfl⟩ := h.1
        obtain ⟨later, hlater, -⟩ := marked_stays (answers ++ [r]) h.2
        exact ⟨i, later, rfl, hlater⟩
      · exact ih h.2 ht
    | _ => exact ih h.2 ht

/-- The provider has given this answer to the call of `i`. -/
def answerFor (i : DispatchIdentity) (r : ProviderOutcome) : Answered LLMOp.Answer → Prop
  | ⟨.complete _ dispatch _, r'⟩ => dispatch = some i ∧ r' = r
  | _ => False

theorem heard_mem {r : ProviderOutcome} (h : stages.Allows s t)
    (hafter : stages.after s t = .marked i answers) (hr : r ∈ answers) :
    (∃ before, s = .marked i before ∧ r ∈ before) ∨ ∃ a ∈ t, answerFor i r a := by
  induction t generalizing s with
  | nil => exact .inl ⟨answers, hafter, hr⟩
  | cons a t ih =>
    obtain ⟨o, x⟩ := a
    obtain ⟨before, hbefore, hr⟩ | ⟨a, ha, hanswer⟩ := ih h.2 hafter
    · cases o with
      | reserve q =>
        cases x with
        | done result => cases result <;> first | cases hbefore; done | exact .inl ⟨before, hbefore, hr⟩
        | _ => exact .inl ⟨before, hbefore, hr⟩
      | ledger tx =>
        cases tx with
        | markPossiblyDispatched j =>
          cases x with
          | done result =>
            cases result with
            | ok u =>
              cases hbefore
              cases hr
            | error e => exact .inl ⟨before, hbefore, hr⟩
          | _ => exact .inl ⟨before, hbefore, hr⟩
        | _ => exact .inl ⟨before, by cases x <;> exact hbefore, hr⟩
      | complete route d request =>
        obtain ⟨j, given, rfl, rfl⟩ := h.1
        cases hbefore
        obtain hr | hr := mem_append.mp hr
        · exact .inl ⟨given, rfl, hr⟩
        · rw [mem_singleton] at hr
          exact .inr ⟨_, mem_cons_self, rfl, hr.symm⟩
      | _ => exact .inl ⟨before, hbefore, hr⟩
    · exact .inr ⟨a, mem_cons_of_mem _ ha, hanswer⟩

/-- The process `n` has called a provider under this identity. -/
def Invoked (pool : DispatchPool) (n : Nat) (dispatch : Option DispatchIdentity) : Prop :=
  dispatch ∈ invocations (pool.history n)

/-- What an invoked identity counts for: its reservation, or the trusted cost, which is the price
of a usage that the provider has reported for it. -/
structure CountedAs (pool : DispatchPool) (i : DispatchIdentity) (e : BudgetEntry) : Prop where
  entry : pool.shared.lookup i = some e
  positive : 0 < e.reserved
  amount : e.countedAmount = e.reserved ∨ ∃ a ∈ pool.log, ∃ resp usage,
    answerFor i (.response resp) a.2 ∧ Reported resp usage ∧ settledCost e.rates usage = .ok e.countedAmount

/-- What is accounted for: a call that is about to be dispatched has a reservation that was marked
and never released, no other call is dispatched under its identity, and the identity of every
dispatch is counted. -/
structure Accounted (pool : DispatchPool) : Prop where
  marked : ∀ n route dispatch request, pool.Next n (.complete route dispatch request) →
    ∃ i e, dispatch = some i ∧ pool.shared.lookup i = some e ∧ WasDispatched (pool.shared.journal e.id)
  once : ∀ m n dispatch, Invoked pool m dispatch → Invoked pool n dispatch → m = n
  counted : ∀ n dispatch, Invoked pool n dispatch → ∃ i e, dispatch = some i ∧ CountedAs pool i e

variable {pool : DispatchPool}

theorem Accounts.countedAs (h : pool.Sound stages .idle Accounts) {n : Nat}
    (hn : pool.ghost stages .idle n = .marked i answers) : ∃ e, CountedAs pool i e := by
  obtain ⟨hsane, hstaged⟩ := h.holds
  obtain ⟨e, he, hstate, hsettled⟩ := hstaged.marked n i answers hn
  have hmem := (LedgerDb.lookup_eq_some he).1
  have hchecks := hsane.checked e hmem
  refine ⟨e, he, BudgetEntry.reserved_pos hchecks, ?_⟩
  obtain hs | hs | hs := hstate
  · exact .inl (BudgetEntry.counted_of_possiblyDispatched hs)
  · obtain ⟨resp, hresp, hreported⟩ := hsettled hs
    obtain ⟨before, hbefore, -⟩ | ⟨a, ha, hanswer⟩ := heard_mem (h.allows n) hn hresp
    · cases hbefore
    · refine .inr ⟨(n, a), Pool.mem_history.mp ha, resp, e.usage, hanswer, hreported, ?_⟩
      rw [hsane.priced e hmem hs]
      simp [BudgetEntry.countedAmount, hs]
  · exact .inl (by simp [BudgetEntry.countedAmount, hs])

/-- Sound stages account for every dispatch. -/
theorem accounted_of_sound (h : pool.Sound stages .idle Accounts) : Accounted pool := by
  obtain ⟨hsane, hstaged⟩ := h.holds
  have hinvoked : ∀ n dispatch, Invoked pool n dispatch →
      ∃ i answers, dispatch = some i ∧ pool.ghost stages .idle n = .marked i answers :=
    fun n dispatch hn => invoked_marked (h.allows n) hn
  constructor
  · intro n route dispatch request hnext
    obtain ⟨i, answers, hn, rfl⟩ := h.next hnext
    obtain ⟨e, he, hstate, -⟩ := hstaged.marked n i answers hn
    have hmem := (LedgerDb.lookup_eq_some he).1
    exact ⟨i, e, rfl, he, (hsane.journalled.history e hmem).wasDispatched hstate⟩
  · intro m n dispatch hm hn
    obtain ⟨i, _, rfl, hstage⟩ := hinvoked m dispatch hm
    obtain ⟨j, _, hij, hstage'⟩ := hinvoked n _ hn
    cases hij
    exact hstaged.apart m n i (by rw [hstage]; rfl) (by rw [hstage']; rfl)
  · intro n dispatch hn
    obtain ⟨i, answers, rfl, hstage⟩ := hinvoked n dispatch hn
    obtain ⟨e, he⟩ := Accounts.countedAs h hstage
    exact ⟨i, e, rfl, he⟩

theorem accounts_empty : Accounts .empty fun _ => .idle := by
  refine ⟨⟨?_, ⟨?_, ?_⟩, ?_⟩, ⟨?_, ?_, ?_⟩⟩
  · intro e he
    cases he
  · intro e he
    cases he
  · intro t ht
    cases ht
  · intro e he
    cases he
  · intro _ _ h
    cases h
  all_goals
    intro _ _ _ h
    cases h

end Llm

/-- In every state of every run of calls, crashes, failures and `Recover` passes every dispatch is
accounted for. -/
theorem dispatch_accounting (events : List Llm.DispatchEvent) :
    Always (Pool.step Llm.ledgerWorld) Llm.Accounted (.start .empty) events :=
  (pool_runs Llm.ledgerWorld_rely Llm.accounts_empty events).mono fun _ => Llm.accounted_of_sound

namespace Sample

/-- A world in which the provider reports that it has used no token. -/
def zeroUsage : (o : LLMOp) → o.Answer
  | .providers _ => some ⟨"provider", true⟩
  | .closedRoute _ => ""
  | .closeRoute _ _ => ()
  | .cacheGet _ => .miss
  | .cacheSet _ _ => ()
  | .traceCacheHit _ _ => none
  | .budgetLedger => true
  | .workflowBudgetLedger => true
  | .inputTokenUpperBound _ _ => .ok 100
  | .budgetDay => "1970-01-01"
  | .ctxDone => false
  | .reserve _ => .down
  | .ledger _ => .down
  | .checkAndReserveWorkflowBudget _ _ => .ok ()
  | .addWorkflowSpend _ _ => true
  | .complete _ _ _ => .response ⟨"", 0, 0, 0, ⟨true, true, true, false, []⟩, "", "stop"⟩
  | .traceBoundary _ _ => .captured

def preparedCall : PreparedCall where
  route := "primary"
  provider := "provider"
  model := "model"
  endpoint := "endpoint"
  policyFingerprint := "fingerprint"
  priceRevision := "revision"
  requestHash := "repair"
  request := completionRequest
  maxInputTokens := 1000
  maxOutputTokens := 500
  inputUSDPerMillion := 3000000000
  cachedInputUSDPerMillion := 300000000
  outputUSDPerMillion := 15000000000

def zeroCall : List Llm.DispatchEvent :=
  .begin ⟨codec, enforcedConfig, callContext, preparedCall, 0⟩ ::
    List.replicate 20 (.act 0 ⟨limits, ⟨"entry", 0, 0⟩, .none, zeroUsage⟩)

def zeroIdentity : DispatchIdentity := ⟨"default", "dsl", "operation", 1, 0⟩

end Sample

/-- A provider was called, and the identity counts for nothing. -/
theorem dispatch_counted_at_zero :
    let pool := run (Pool.step Llm.ledgerWorld) (.start .empty) Sample.zeroCall
    Llm.Invoked pool 0 (some Sample.zeroIdentity) ∧
      (pool.shared.lookup Sample.zeroIdentity).map BudgetEntry.countedAmount = some 0 := by
  unfold Llm.Invoked
  decide +kernel

end Aegis
