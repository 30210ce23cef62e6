import Aegis.Llm.Specs

/-!
# Llm.AtMostOnce

How often one completion calls a provider. `watch` is the protocol of a call that keeps the bound:
no second provider call, and none under an identity without a reservation of its own.

`calls_at_most_once` is the exact condition. Enforced mode hands the retry budget of the
configuration to the admitted dispatch, so a first outcome that is retried breaks the bound.
-/

namespace Aegis

open List Option LLMOp

namespace Llm

open Prog

inductive Entry where
  | complete | completeOnce

def Entry.call (codec : Codec) (cfg : LLMConfig) (ctx : CallContext) (req : CompletionRequest) :
    Entry → LLMProg (Except LLMError CompletionResult)
  | .complete => Complete codec cfg ctx req
  | .completeOnce => CompleteOnce codec cfg ctx req

abbrev LLMTrace := List (Answered LLMOp.Answer)

def invocation : Answered LLMOp.Answer → Option (Option DispatchIdentity)
  | ⟨.complete _ dispatch _, _⟩ => some dispatch
  | _ => none

/-- The invocations of `Provider.Complete`, each with the identity it was admitted for. -/
def invocations (t : LLMTrace) : List (Option DispatchIdentity) := t.filterMap invocation

def outcome : Answered LLMOp.Answer → Option ProviderOutcome
  | ⟨.complete _ _ _, r⟩ => some r
  | _ => none

def outcomes (t : LLMTrace) : List ProviderOutcome := t.filterMap outcome

def admission : Answered LLMOp.Answer → Option DispatchIdentity
  | ⟨.reserve r, .done (.ok _)⟩ => some r.identity
  | _ => none

def reservations (t : LLMTrace) : List DispatchIdentity := t.filterMap admission

/-- A call of `CompleteOnce` makes one invocation, and in enforced mode each invocation has a
reservation of its own. -/
def AtMostOnce (entry : Entry) (cfg : LLMConfig) (t : LLMTrace) : Prop :=
  (entry = .completeOnce → (invocations t).length ≤ 1) ∧ (cfg.policy.isSome → (invocations t).Nodup ∧
      ∀ d ∈ invocations t, ∃ i ∈ reservations t, d = some i)

/-- The providers answer with `answers`, in order. -/
def Answers (answers : Nat → ProviderOutcome) (t : LLMTrace) : Prop :=
  ∀ n a, (outcomes t)[n]? = some a → a = answers n

/-- `completeProviderWithRetry` goes on after this outcome. -/
def Retried : ProviderOutcome → Bool
  | .response _ => false
  | .empty => true
  | .failed e => !e.capture

def rates (policy : RoutePolicy) : Rates :=
  ⟨policy.inputUSDPerMillion, policy.cachedInputUSDPerMillion, policy.outputUSDPerMillion⟩

def caps (policy : RoutePolicy) : Caps := ⟨policy.maxInputTokens, policy.maxOutputTokens⟩

/-- The policy has a route, the call an identity, and its reservation succeeds. -/
def Dispatchable (codec : Codec) (ctx : CallContext) (policy : LLMPolicy) : Prop :=
  Routable codec policy ∧ (∃ identity, dispatchIdentity ctx ordinalPrimary = .ok identity) ∧
    ∃ reserved, reservation (rates policy.primary) (caps policy.primary) = .ok reserved

/-- Enforced mode dispatches again after the first answer. -/
def Redispatches (codec : Codec) (cfg : LLMConfig) (ctx : CallContext) (first : ProviderOutcome) : Prop :=
  ∃ policy, cfg.policy = some policy ∧ 0 < cfg.llmCallMaxRetries ∧ Retried first = true ∧
    Dispatchable codec ctx policy

structure Tally where
  calls : List (Option DispatchIdentity)
  reserved : List DispatchIdentity

namespace Tally

def next (s : Tally) (o : LLMOp) (r : o.Answer) : Tally where
  calls := s.calls ++ (invocation ⟨o, r⟩).toList
  reserved := s.reserved ++ (admission ⟨o, r⟩).toList

/-- The state after an invocation for `d`. -/
def call (s : Tally) (d : Option DispatchIdentity) : Tally := { s with calls := s.calls ++ [d] }

end Tally

/-- `once`: no second call. `enforced`: no second call for an identity, and none without a
reservation. -/
def Tally.Permits (once enforced : Bool) (s : Tally) : LLMOp → Prop
  | .complete _ d _ => (once = true → s.calls = []) ∧
      (enforced = true → d ∉ s.calls ∧ ∃ i ∈ s.reserved, d = some i)
  | _ => True

def watch (once enforced : Bool) (answers : Nat → ProviderOutcome) : Protocol LLMOp.Answer Tally where
  allowed := Tally.Permits once enforced
  answers s o r := ∀ a, outcome ⟨o, r⟩ = some a → a = answers s.calls.length
  next := Tally.next

variable {codec : Codec} {cfg : LLMConfig} {ctx : CallContext} {once enforced : Bool}
  {answers : Nat → ProviderOutcome} {s : Tally} {d : Option DispatchIdentity}

variable {o : LLMOp}

theorem next_eq {r : o.Answer} (hcall : invocation ⟨o, r⟩ = none)
    (hadmission : admission ⟨o, r⟩ = none) : s.next o r = s := by
  simp [Tally.next, hcall, hadmission]

variable {identity : DispatchIdentity}

theorem next_of_settles (h : o.Settles identity) (s : Tally) (r : o.Answer) : s.next o r = s := by
  cases o <;> first | exact next_eq rfl rfl | cases h

theorem permits_of_settles (h : o.Settles identity) (s : Tally) : s.Permits once enforced o := by
  cases o <;> first | cases h; done | trivial

theorem obeys_of_settles {α : Type} {p : LLMProg α} {Q : α → Prop} (h : Only (Settles identity) p Q) :
    Obeys (watch once enforced answers) p s fun a t => t = s ∧ Q a :=
  h.obeys fun s _ ho => ⟨permits_of_settles ho s, next_of_settles ho s⟩

theorem obeys_of_local {α : Type} {p : LLMProg α} {Q : α → Prop} (h : Only Local p Q) :
    Obeys (watch once enforced answers) p s fun a t => t = s ∧ Q a :=
  obeys_of_settles (h.weaken fun _ ho => ho.settles ⟨"", "", "", 0, 0⟩)

theorem attemptProvider_obeys (req : CompletionRequest) (name : String)
    (hpermits : s.Permits once enforced (.complete name d req)) :
    Obeys (watch once enforced answers) (attemptProvider req name d) s fun a t =>
      t = s.call d ∧ match a with
        | .ok _ => Retried (answers s.calls.length) = true
        | .error result => ∀ e, result = .error e → e.isAvailability = false := by
  refine obeys_perform_bind.mpr ⟨hpermits, fun r hr => ?_⟩
  have hanswer : r = answers s.calls.length := hr r rfl
  have hnext : (watch once enforced answers).next s (.complete name d req) r = s.call d := by
    simp [watch, Tally.next, Tally.call, invocation, admission]
  rw [hnext, ← hanswer]
  cases r with
  | response resp =>
    refine obeys_perform_bind.mpr ⟨trivial, fun boundary _ => ?_⟩
    have hsame : (watch once enforced answers).next (s.call d) (.traceBoundary req none) boundary =
        s.call d := next_eq rfl rfl
    rw [hsame]
    cases boundary <;> refine ⟨rfl, ?_⟩ <;> rintro _ ⟨⟩
    rfl
  | empty =>
    refine obeys_perform_bind.mpr ⟨trivial, fun boundary _ => ?_⟩
    rw [show (watch once enforced answers).next (s.call d) (.traceBoundary req _) boundary =
      s.call d from next_eq rfl rfl]
    cases boundary with
    | adapter | captured => exact ⟨rfl, rfl⟩
    | failed message =>
      refine ⟨rfl, ?_⟩
      rintro _ ⟨⟩
      rfl
  | failed e =>
    dsimp only
    split
    · rename_i hcapture
      refine ⟨rfl, ?_⟩
      rintro _ ⟨⟩
      simp [GoError.isAvailability, hcapture]
    · rename_i hcapture
      refine obeys_perform_bind.mpr ⟨trivial, fun boundary _ => ?_⟩
      rw [show (watch once enforced answers).next (s.call d) (.traceBoundary req _) boundary =
        s.call d from next_eq rfl rfl]
      cases boundary with
      | adapter | captured => exact ⟨rfl, by simpa [Retried] using hcapture⟩
      | failed message =>
        refine ⟨rfl, ?_⟩
        rintro _ ⟨⟩
        rfl

theorem retryLoop_obeys (req : CompletionRequest) (name : String) (maxRetries left : Nat)
    (hpermits : s.Permits once enforced (.complete name d req))
    (hfinal : left = 0 ∨ Retried (answers s.calls.length) = false) :
    Obeys (watch once enforced answers) (retryLoop codec req name d maxRetries left) s fun a t =>
      t = s.call d ∧ ∀ e, a = .error e → e.isAvailability = true → left = 0 := by
  unfold retryLoop
  refine (attemptProvider_obeys req name hpermits).bind ?_
  rintro a t ⟨rfl, ha⟩
  cases a with
  | error result =>
    refine ⟨rfl, ?_⟩
    intro e he havailable
    rw [ha e he] at havailable
    cases havailable
  | ok e =>
    obtain rfl | hfinal := hfinal
    · exact ⟨rfl, fun _ _ _ => rfl⟩
    · rw [hfinal] at ha
      cases ha

/-- What a dispatch has done by its end: no invocation, or one after which no fallback is permitted
unless the call had no retries. -/
def Dispatched (cfg : LLMConfig) (identity : DispatchIdentity) (s : Tally)
    (a : Except LLMError CompletionResponse) (t : Tally) : Prop :=
  t.calls = s.calls ∨ t.calls = s.calls ++ [some identity] ∧
      ∀ e, a = .error e → e.isAvailability = true → cfg.llmCallMaxRetries ≤ 0

structure Ready (cfg : LLMConfig) (once : Bool) (answers : Nat → ProviderOutcome)
    (identity : DispatchIdentity) (s : Tally) : Prop where
  first : once = true → s.calls = []
  unused : some identity ∉ s.calls
  final : cfg.llmCallMaxRetries ≤ 0 ∨ Retried (answers s.calls.length) = false

variable {prepared : PreparedCall} {identity : DispatchIdentity} {reserved : Int} {ordinal : Int}

theorem dispatchMarked_obeys (hready : Ready cfg once answers identity s)
    (hreserved : identity ∈ s.reserved) :
    Obeys (watch once enforced answers)
      (dispatchMarked codec cfg ctx prepared identity reserved) s
      (Dispatched cfg identity s) := by
  have hpermits : s.Permits once enforced
      (.complete prepared.route (some identity) prepared.request) :=
    ⟨hready.first, fun _ => ⟨hready.unused, identity, hreserved, rfl⟩⟩
  have hfinal : cfg.llmCallMaxRetries.toNat = 0 ∨ Retried (answers s.calls.length) = false :=
    hready.final.imp (fun h => by omega) id
  refine (retryLoop_obeys _ _ _ _ hpermits hfinal).bind ?_
  rintro result t ⟨rfl, hresult⟩
  refine (obeys_of_settles (settleAdmitted_only prepared reserved result)).bind ?_
  rintro - t ⟨rfl, -⟩
  cases result with
  | ok resp =>
    refine .inr ⟨rfl, ?_⟩
    rintro _ ⟨⟩
  | error e =>
    refine .inr ⟨rfl, ?_⟩
    rintro _ ⟨⟩ havailable
    have hzero := hresult e rfl havailable
    omega

theorem ledgerTx_obeys (tx : LedgerTx) :
    Obeys (watch once enforced answers) (ledgerTx tx) s fun _ t => t = s := by
  have honly : Only (fun o => o.Local ∨ o = .ledger tx) (ledgerTx tx) fun _ => True :=
    ledgerTx_only (.inr rfl) (.inl trivial)
  refine (honly.obeys ?_).mono fun _ _ h => h.1
  rintro s o (ho | rfl)
  · have hsettles := ho.settles ⟨"", "", "", 0, 0⟩
    exact ⟨permits_of_settles hsettles s, next_of_settles hsettles s⟩
  · exact ⟨trivial, fun _ => next_eq rfl rfl⟩

theorem dispatchReserved_obeys (hready : Ready cfg once answers identity s)
    (hreserved : identity ∈ s.reserved) :
    Obeys (watch once enforced answers)
      (dispatchReserved codec cfg ctx prepared identity reserved) s
      (Dispatched cfg identity s) := by
  refine (obeys_of_local (checkWorkflowBudget_only reserved)).bind ?_
  rintro check t ⟨rfl, -⟩
  cases check with
  | error e =>
    refine (ledgerTx_obeys _).bind ?_
    rintro _ t rfl
    exact .inl rfl
  | ok _ =>
    refine (ledgerTx_obeys _).bind ?_
    rintro marked t rfl
    cases marked with
    | error e =>
      refine (ledgerTx_obeys _).bind ?_
      rintro _ t rfl
      exact .inl rfl
    | ok _ => exact dispatchMarked_obeys hready hreserved

theorem reserve_obeys (r : ReserveRequest) (retries : Nat) : Obeys (watch once enforced answers)
      (withImmediateTx "reserve" (perform (.reserve r)) retries) s fun a t =>
        t.calls = s.calls ∧ ∀ e, a = .ok e → r.identity ∈ t.reserved := by
  induction retries generalizing s with
  | zero =>
    unfold withImmediateTx
    refine obeys_perform_bind.mpr ⟨trivial, fun attempt _ => ?_⟩
    cases attempt with
    | done result =>
      refine ⟨by simp [watch, Tally.next, invocation], ?_⟩
      rintro e rfl
      simp [watch, Tally.next, admission]
    | down | busy => exact ⟨by simp [watch, Tally.next, invocation], fun _ h => by cases h⟩
  | succ retries ih =>
    unfold withImmediateTx
    refine obeys_perform_bind.mpr ⟨trivial, fun attempt _ => ?_⟩
    cases attempt with
    | done result =>
      refine ⟨by simp [watch, Tally.next, invocation], ?_⟩
      rintro e rfl
      simp [watch, Tally.next, admission]
    | down => exact ⟨by simp [watch, Tally.next, invocation], fun _ h => by cases h⟩
    | busy =>
      rw [show (watch once enforced answers).next s (.reserve r) .busy = s from next_eq rfl rfl]
      refine obeys_perform_bind.mpr ⟨trivial, fun done _ => ?_⟩
      rw [show (watch once enforced answers).next s .ctxDone done = s from next_eq rfl rfl]
      split
      · exact ⟨rfl, fun _ h => by cases h⟩
      · exact ih

/-- `Dispatched`, whichever identity the context has. -/
def DispatchedAs (cfg : LLMConfig) (ctx : CallContext) (ordinal : Int) (s : Tally)
    (a : Except LLMError CompletionResponse) (t : Tally) : Prop :=
  t.calls = s.calls ∨ ∃ identity, dispatchIdentity ctx ordinal = .ok identity ∧
    Dispatched cfg identity s a t

theorem dispatchAdmitted_obeys (hready : ∀ identity, dispatchIdentity ctx ordinal = .ok identity →
      Ready cfg once answers identity s) :
    Obeys (watch once enforced answers) (dispatchAdmitted codec cfg ctx prepared ordinal) s
      (DispatchedAs cfg ctx ordinal s) := by
  refine (obeys_of_local (admissible_only prepared ordinal)).bind ?_
  rintro admitted t ⟨rfl, hadmits⟩
  cases admitted with
  | error e => exact .inl rfl
  | ok admitted =>
    obtain ⟨identity, reserved⟩ := admitted
    have hready := hready identity hadmits.1
    refine obeys_perform_bind.mpr ⟨trivial, fun day _ => ?_⟩
    rw [show (watch once enforced answers).next t .budgetDay day = t from next_eq rfl rfl]
    refine (reserve_obeys (reserveRequest prepared identity reserved day) ledgerRetries).bind ?_
    rintro result u ⟨hcalls, hreserved⟩
    cases result with
    | error e => exact .inl hcalls
    | ok entry =>
      have hready' : Ready cfg once answers identity u :=
        ⟨hcalls ▸ hready.first, hcalls ▸ hready.unused, hcalls ▸ hready.final⟩
      refine (dispatchReserved_obeys hready' (hreserved entry rfl)).mono fun a v hv => ?_
      refine .inr ⟨identity, hadmits.1, ?_⟩
      unfold Dispatched at hv ⊢
      rwa [hcalls] at hv

theorem dispatchIdentity_ordinal (h : dispatchIdentity ctx ordinal = .ok identity) :
    identity.physicalOrdinal = ordinal := by
  unfold dispatchIdentity at h
  split at h
  · cases h
  · split at h
    · cases h
    · dsimp only at h
      split at h
      · cases h
      · cases h
        rfl

variable {req : CompletionRequest} {allowFallback : Bool}

variable {primary : PreparedCall}

theorem dispatchRoutes_obeys (hempty : s.calls = [])
    (hfinal : cfg.llmCallMaxRetries ≤ 0 ∨ Retried (answers 0) = false)
    (hfallback : allowFallback → once = false) :
    Obeys (watch once enforced answers)
      (dispatchRoutes codec cfg ctx req primary allowFallback) s fun _ _ => True := by
  have hready : ∀ identity, dispatchIdentity ctx ordinalPrimary = .ok identity →
      Ready cfg once answers identity s := by
    intro identity _
    refine ⟨fun _ => hempty, ?_, ?_⟩
    · simp [hempty]
    · rwa [hempty]
  refine (dispatchAdmitted_obeys hready).bind ?_
  rintro result t hdispatched
  cases result with
  | ok resp => trivial
  | error err =>
    dsimp only
    split
    · rename_i hallowed
      rw [Bool.and_eq_true] at hallowed
      split
      · trivial
      · rename_i fallback _
        refine Obeys.bind (R := fun _ _ => True) ?_ ?_
        · refine (dispatchAdmitted_obeys ?_).mono fun _ _ _ => trivial
          intro identity hidentity
          have honce := hfallback hallowed.1
          rcases hdispatched with hsame | ⟨first, hfirst, hsame | ⟨hcalls, hnone⟩⟩
          · refine ⟨by simp [honce], ?_, ?_⟩
            · simp [hsame, hempty]
            · rwa [hsame, hempty]
          · refine ⟨by simp [honce], ?_, ?_⟩
            · simp [hsame, hempty]
            · rwa [hsame, hempty]
          · refine ⟨by simp [honce], ?_, .inl (hnone err rfl hallowed.2)⟩
            rw [hcalls, hempty, nil_append, mem_singleton]
            rintro ⟨⟩
            have hordinal := dispatchIdentity_ordinal hfirst
            rw [dispatchIdentity_ordinal hidentity] at hordinal
            cases hordinal
        · rintro (_ | _) _ _ <;> trivial
    · trivial

variable (req) in
theorem cacheHit_only (result : CompletionResult) :
    Only Local (cacheHit req result) fun _ => True := by
  refine only_perform_bind.mpr ⟨trivial, fun r => ?_⟩
  cases r <;> trivial

theorem completeAdmitted_obeys (hempty : s.calls = [])
    (hfinal : cfg.llmCallMaxRetries ≤ 0 ∨ Retried (answers 0) = false)
    (hfallback : allowFallback → once = false) :
    Obeys (watch once enforced answers)
      (completeAdmitted codec cfg ctx req primary allowFallback) s fun _ _ => True := by
  refine (dispatchRoutes_obeys hempty hfinal hfallback).bind ?_
  rintro (e | ⟨resp, used⟩) t -
  · trivial
  · dsimp only
    split
    · exact ⟨trivial, fun _ _ => trivial⟩
    · trivial

/-- An enforced completion dispatches at most once where it does not retry its first answer. -/
theorem completeEnforced_obeys (hempty : s.calls = [])
    (hfinal : cfg.llmCallMaxRetries ≤ 0 ∨ Retried (answers 0) = false)
    (hfallback : allowFallback → once = false) :
    Obeys (watch once enforced answers) (completeEnforced codec cfg ctx req allowFallback) s
      fun _ _ => True := by
  unfold completeEnforced
  split
  · trivial
  · split
    · trivial
    · refine (obeys_of_local (routeReady_only _)).bind ?_
      rintro reason t ⟨rfl, -⟩
      cases reason with
      | some reason => trivial
      | none =>
        refine obeys_perform_bind.mpr ⟨trivial, fun cached _ => ?_⟩
        rw [show (watch once enforced answers).next t _ cached = t from next_eq rfl rfl]
        cases cached with
        | hit entry => exact (obeys_of_local (cacheHit_only _ _)).mono fun _ _ _ => trivial
        | failed | miss => exact completeAdmitted_obeys hempty hfinal hfallback

theorem completeUncached_obeys (hempty : s.calls = []) :
    Obeys (watch once false answers) (completeUncached codec cfg req false) s
      fun _ _ => True := by
  have hpermits : s.Permits once false (.complete cfg.llmProvider none req) :=
    ⟨fun _ => hempty, nofun⟩
  have hcall : Obeys (watch once false answers) (completeWithRetry codec req cfg.llmProvider 0) s
      fun _ _ => True := by
    refine obeys_perform_bind.mpr ⟨trivial, fun provider _ => ?_⟩
    rw [show (watch once false answers).next s _ provider = s from next_eq rfl rfl]
    cases provider with
    | none => trivial
    | some provider =>
      refine (retryLoop_obeys req cfg.llmProvider 0 0 hpermits (.inl rfl)).bind ?_
      rintro (e | resp) t - <;> trivial
  refine Obeys.bind (R := fun _ _ => True) ?_ ?_
  · refine hcall.bind ?_
    rintro (e | resp) t -
    · split <;> trivial
    · trivial
  · rintro (e | ⟨resp, used⟩) t -
    · trivial
    · dsimp only
      split
      · exact ⟨trivial, fun _ _ => trivial⟩
      · trivial

theorem complete_obeys (hempty : s.calls = []) :
    Obeys (watch once false answers) (complete codec cfg req false) s fun _ _ => True := by
  refine obeys_perform_bind.mpr ⟨trivial, fun cached _ => ?_⟩
  rw [show (watch once false answers).next s _ cached = s from next_eq rfl rfl]
  cases cached with
  | hit entry => exact (obeys_of_local (cacheHit_only _ _)).mono fun _ _ _ => trivial
  | failed | miss => exact completeUncached_obeys hempty

variable {policy : LLMPolicy}

variable (codec req) in
theorem prepareCall_primary
    (h : cfg.policy = some policy) : ∃ primary, prepareCall codec cfg "primary" req = .ok primary ∧
      primary.route = "primary" ∧ primary.provider = policy.primary.provider ∧
      preparedRates primary = rates policy.primary ∧ preparedCaps primary = caps policy.primary := by
  simp only [prepareCall, h]
  exact ⟨_, rfl, rfl, rfl, rfl, rfl⟩

theorem dispatchAdmitted_unpriced
    (h : ∀ reserved, reservation (preparedRates prepared) (preparedCaps prepared) ≠ .ok reserved) :
    Only Local (dispatchAdmitted codec cfg ctx prepared ordinal) fun a =>
      ∃ e, a = .error e ∧ e.isAvailability = false := by
  refine (admissible_only prepared ordinal).bind fun admitted hadmits => ?_
  cases admitted with
  | error e => exact ⟨e, rfl, hadmits⟩
  | ok admitted => exact absurd hadmits.2 (h admitted.2)

/-- Without a policy that may dispatch, nothing leaves the server. -/
theorem completeEnforced_local (hpolicy : cfg.policy = some policy) (h : ¬ Dispatchable codec ctx policy) :
    Only Local (completeEnforced codec cfg ctx req allowFallback) fun _ => True := by
  obtain ⟨primary, hprepare, hroute, -, hrates, hcaps⟩ :=
    prepareCall_primary codec req hpolicy
  unfold completeEnforced
  rw [hprepare]
  dsimp only
  split
  · trivial
  · rename_i identity hidentity
    refine (routeReady_only primary.route).bind fun reason hready => ?_
    cases reason with
    | some reason => trivial
    | none =>
      have hroutable := hready rfl hroute policy hpolicy
      have hunpriced : ∀ reserved,
          reservation (preparedRates primary) (preparedCaps primary) ≠ .ok reserved := by
        intro reserved hprice
        rw [hrates, hcaps] at hprice
        exact h ⟨hroutable, ⟨identity, hidentity⟩, reserved, hprice⟩
      have hadmitted : Only Local
          (completeAdmitted codec cfg ctx req primary allowFallback) fun _ => True := by
        refine Only.bind (R := fun a => ∃ e, a = .error e) ?_ ?_
        · refine (dispatchAdmitted_unpriced hunpriced).bind ?_
          rintro _ ⟨e, rfl, he⟩
          simp [he]
        · rintro _ ⟨e, rfl⟩
          trivial
      refine only_perform_bind.mpr ⟨trivial, fun cached => ?_⟩
      cases cached with
      | hit entry => exact cacheHit_only _ _
      | failed | miss => exact hadmitted

section Redispatch

variable {policy : LLMPolicy} {name : String}

variable {t : LLMTrace}

theorem leads_perform {α : Type} (o : LLMOp) (r : o.Answer) {f : o.Answer → LLMProg α}
    {a : α} (h : (f r).Leads t a) : (perform o >>= f).Leads (⟨o, r⟩ :: t) a :=
  .step o f r t a h

theorem trace_perform {α : Type} (o : LLMOp) (r : o.Answer) {f : o.Answer → LLMProg α}
    (h : (f r).Trace t) : (perform o >>= f).Trace (⟨o, r⟩ :: t) :=
  .step o f r t h

theorem routeReady_leads (hpolicy : cfg.policy = some policy) (hne : policy.primary.provider ≠ "")
    (hname : codec.sanitize name = policy.primary.provider) :
    (routeReady codec cfg "primary").Leads
      [⟨.providers "primary", some ⟨name, true⟩⟩, ⟨.closedRoute "primary", ""⟩] none := by
  have hmatch : contractMismatch codec cfg "primary" ⟨name, true⟩ = none := by
    simp [contractMismatch, hpolicy, hne, hname]
  refine leads_perform (providers "primary") (some ⟨name, true⟩) ?_
  simp only [hmatch]
  exact leads_perform (closedRoute "primary") "" (.ret _)

theorem admissible_leads (hpolicy : cfg.policy = some policy)
    (hne : policy.primary.provider ≠ "") (hname : codec.sanitize name = policy.primary.provider)
    (hroute : prepared.route = "primary") (hprovider : prepared.provider = policy.primary.provider)
    (hidentity : dispatchIdentity ctx ordinalPrimary = .ok identity)
    (hprice : reservation (preparedRates prepared) (preparedCaps prepared) = .ok reserved) :
    ∃ t, (admissible codec cfg ctx prepared ordinalPrimary).Leads t (.ok (identity, reserved)) ∧
      invocations t = [] ∧ outcomes t = [] := by
  have hready := routeReady_leads hpolicy hne hname
  have hcaps : 0 ≤ prepared.maxInputTokens := (reservation_eq hprice).1.le
  rw [← hroute] at hready
  refine ⟨_, hready.bind (u := [⟨.budgetLedger, true⟩, ⟨.providers prepared.route, some ⟨name, true⟩⟩,
    ⟨.inputTokenUpperBound prepared.route prepared.request, .ok 0⟩]) ?_, rfl, rfl⟩
  refine leads_perform budgetLedger true ?_
  rw [hidentity]
  have hbuilt : (preparedProvider codec prepared).Leads
      [⟨.providers prepared.route, some ⟨name, true⟩⟩] (.ok ⟨name, true⟩) := by
    refine leads_perform (providers prepared.route) (some ⟨name, true⟩) ?_
    simp only [hname, hprovider, bne_self_eq_false]
    exact .ret _
  refine hbuilt.bind (leads_perform (inputTokenUpperBound prepared.route prepared.request) (.ok 0) ?_)
  have hbound : (decide ((0 : Int) < 0) || decide (prepared.maxInputTokens < 0)) = false := by
    simp [hcaps]
  simp only [hprice, hbound]
  exact .ret _

theorem attemptProvider_leads {a : ProviderOutcome} (req : CompletionRequest) (provider : String)
    (d : Option DispatchIdentity) (h : Retried a) :
    ∃ t e, (attemptProvider req provider d).Leads t (.ok e) ∧ invocations t = [d] ∧ outcomes t = [a] := by
  cases a with
  | response r => cases h
  | empty =>
    exact ⟨_, _, leads_perform (LLMOp.complete provider d req) ProviderOutcome.empty
      (leads_perform (LLMOp.traceBoundary req (some _)) Boundary.adapter (.ret _)), rfl, rfl⟩
  | failed e =>
    have hcapture : e.capture = false := by simpa [Retried] using h
    have hfailed : (attemptProvider req provider d).Leads
        [⟨.complete provider d req, .failed e⟩, ⟨.traceBoundary req (some e), .adapter⟩] (.ok e) := by
      refine leads_perform (LLMOp.complete provider d req) (ProviderOutcome.failed e) ?_
      simp only [hcapture]
      exact leads_perform (LLMOp.traceBoundary req (some e)) Boundary.adapter (.ret _)
    exact ⟨_, e, hfailed, rfl, rfl⟩

variable (codec req) in
theorem retryLoop_trace (provider : String)
    (d : Option DispatchIdentity) (maxRetries left : Nat) (h : Retried (answers 0)) :
    ∃ t, (retryLoop codec req provider d maxRetries (left + 1)).Trace t ∧
      invocations t = [d, d] ∧ outcomes t = [answers 0, answers 1] := by
  obtain ⟨t, e, hleads, hcalls, hanswers⟩ := attemptProvider_leads req provider d h
  have hagain : (retryLoop codec req provider d maxRetries left).Trace
      [⟨.complete provider d req, answers 1⟩] := by
    unfold retryLoop
    exact trace_perform (LLMOp.complete provider d req) (answers 1) (.stop _)
  refine ⟨t ++ [⟨.complete provider d req, answers 1⟩], ?_, ?_, ?_⟩
  · unfold retryLoop
    exact hleads.trace hagain
  · unfold invocations at hcalls ⊢
    rw [filterMap_append, hcalls]
    rfl
  · unfold outcomes at hanswers ⊢
    rw [filterMap_append, hanswers]
    rfl

theorem invocations_append (t u : LLMTrace) :
    invocations (t ++ u) = invocations t ++ invocations u := filterMap_append

theorem outcomes_append (t u : LLMTrace) : outcomes (t ++ u) = outcomes t ++ outcomes u :=
  filterMap_append

theorem answers_of_two (h : outcomes t = [answers 0, answers 1]) : Answers answers t := by
  intro n a ha
  rw [h] at ha
  match n, ha with
  | 0, ha | 1, ha => exact (some.inj ha).symm
  | n + 2, ha => cases ha

variable (codec ctx prepared) in
theorem dispatchReserved_trace
    (identity : DispatchIdentity) (reserved : Int) (hretries : 0 < cfg.llmCallMaxRetries)
    (hretried : Retried (answers 0)) :
    ∃ t, (dispatchReserved codec cfg ctx prepared identity reserved).Trace t ∧
      invocations t = [some identity, some identity] ∧ outcomes t = [answers 0, answers 1] := by
  obtain ⟨left, hleft⟩ : ∃ left, cfg.llmCallMaxRetries.toNat = left + 1 :=
    ⟨cfg.llmCallMaxRetries.toNat - 1, by omega⟩
  obtain ⟨t, ht, hcalls, hanswers⟩ := retryLoop_trace codec prepared.request prepared.route
    (some identity) (left + 1) left hretried
  have hcheck : (checkWorkflowBudget ctx reserved).Leads [⟨.workflowBudgetLedger, false⟩]
      (.ok ()) := by
    refine leads_perform workflowBudgetLedger false ?_
    split
    · exact .ret _
    · simp only [Bool.and_false]
      exact .ret _
  have hmark : (ledgerTx (.markPossiblyDispatched identity)).Leads
      [⟨.ledger (.markPossiblyDispatched identity), .done (.ok ())⟩] (.ok ()) := by
    unfold ledgerTx withImmediateTx
    exact leads_perform (ledger (.markPossiblyDispatched identity)) (.done (.ok ())) (.ret _)
  have hmarked : (dispatchMarked codec cfg ctx prepared identity reserved).Trace t := by
    unfold dispatchMarked completeProviderWithRetry
    rw [hleft]
    exact ht.bind
  exact ⟨_, hcheck.trace (hmark.trace hmarked), hcalls, hanswers⟩

theorem dispatchAdmitted_trace (hpolicy : cfg.policy = some policy)
    (hne : policy.primary.provider ≠ "") (hname : codec.sanitize name = policy.primary.provider)
    (hroute : prepared.route = "primary") (hprovider : prepared.provider = policy.primary.provider)
    (hidentity : dispatchIdentity ctx ordinalPrimary = .ok identity)
    (hprice : reservation (preparedRates prepared) (preparedCaps prepared) = .ok reserved)
    (hretries : 0 < cfg.llmCallMaxRetries) (hretried : Retried (answers 0)) :
    ∃ t, (dispatchAdmitted codec cfg ctx prepared ordinalPrimary).Trace t ∧
      invocations t = [some identity, some identity] ∧ outcomes t = [answers 0, answers 1] := by
  obtain ⟨t, hadmissible, hcalls, hanswers⟩ :=
    admissible_leads hpolicy hne hname hroute hprovider hidentity hprice
  obtain ⟨u, hu, hcalls', hanswers'⟩ := dispatchReserved_trace codec ctx prepared identity
    reserved hretries hretried
  let r := reserveRequest prepared identity reserved ""
  let entry := r.created ⟨"", 0, 0⟩
  have hreserve : (ledgerReserve r).Leads [⟨.reserve r, .done (.ok entry)⟩] (.ok entry) := by
    unfold ledgerReserve withImmediateTx
    exact leads_perform (reserve r) (.done (.ok entry)) (.ret _)
  refine ⟨t ++ (⟨.budgetDay, ""⟩ :: ([⟨.reserve r, .done (.ok entry)⟩] ++ u)), ?_, ?_, ?_⟩
  · exact hadmissible.trace (trace_perform budgetDay "" (hreserve.trace hu))
  · rw [invocations_append, hcalls]
    exact hcalls'
  · rw [outcomes_append, hanswers]
    exact hanswers'

variable (req allowFallback) in
theorem completeEnforced_trace
    (h : Redispatches codec cfg ctx (answers 0)) :
    ∃ t identity, (completeEnforced codec cfg ctx req allowFallback).Trace t ∧
      invocations t = [some identity, some identity] ∧ outcomes t = [answers 0, answers 1] := by
  obtain ⟨policy, hpolicy, hretries, hretried, ⟨hne, name, hname⟩, ⟨identity, hidentity⟩,
    reserved, hprice⟩ := h
  obtain ⟨primary, hprepare, hroute, hprovider, hrates, hcaps⟩ :=
    prepareCall_primary codec req hpolicy
  rw [← hrates, ← hcaps] at hprice
  obtain ⟨u, hu, hcalls, hanswers⟩ := dispatchAdmitted_trace hpolicy hne hname hroute hprovider
    hidentity hprice hretries hretried
  have hready := routeReady_leads hpolicy hne hname
  rw [← hroute] at hready
  have hadmitted : (completeAdmitted codec cfg ctx req primary allowFallback).Trace u := by
    exact hu.bind.bind
  refine ⟨[⟨.providers primary.route, some ⟨name, true⟩⟩, ⟨.closedRoute primary.route, ""⟩] ++
    ⟨.cacheGet (preparedCacheKey codec primary), .miss⟩ :: u, identity, ?_, hcalls, hanswers⟩
  unfold completeEnforced
  rw [hprepare]
  dsimp only
  rw [hidentity]
  exact hready.trace (trace_perform (cacheGet (preparedCacheKey codec primary)) .miss hadmitted)

end Redispatch

theorem after_eq (t : LLMTrace) (s : Tally) : (watch once enforced answers).after s t =
      ⟨s.calls ++ invocations t, s.reserved ++ reservations t⟩ := by
  induction t generalizing s with
  | nil => simp [Protocol.after, invocations, reservations]
  | cons e t ih =>
    show (watch once enforced answers).after (s.next e.1 e.2) t = _
    rw [ih]
    unfold invocations reservations Tally.next
    cases hcall : invocation e <;> cases hadmission : admission e <;>
      simp [hcall, hadmission]

variable {t : LLMTrace}

theorem trusts_of_answers (s : Tally)
    (h : ∀ n a, (outcomes t)[n]? = some a → a = answers (s.calls.length + n)) :
    (watch once enforced answers).Trusts s t := by
  induction t generalizing s with
  | nil => trivial
  | cons e t ih =>
    cases ha : outcome e with
    | none =>
      have hcall : invocation e = none := by
        obtain ⟨o, r⟩ := e
        cases o <;> first | rfl | cases ha
      refine ⟨fun a h' => ?_, ih _ fun n a hn => ?_⟩
      · rw [ha] at h'
        cases h'
      · have hcalls : (s.next e.1 e.2).calls = s.calls := by simp [Tally.next, hcall]
        show a = answers ((s.next e.1 e.2).calls.length + n)
        rw [hcalls]
        refine h n a ?_
        rwa [outcomes, filterMap_cons_none ha]
    | some a =>
      have hcall : (invocation e).toList.length = 1 := by
        obtain ⟨o, r⟩ := e
        cases o <;> first | rfl | cases ha
      have houtcomes : outcomes (e :: t) = a :: outcomes t := filterMap_cons_some ha
      refine ⟨fun b hb => ?_, ih _ fun n b hn => ?_⟩
      · rw [ha] at hb
        cases hb
        exact h 0 a (by rw [houtcomes]; rfl)
      · show b = answers ((s.next e.1 e.2).calls.length + n)
        have hlength : (s.next e.1 e.2).calls.length = s.calls.length + 1 := by
          show (s.calls ++ (invocation e).toList).length = s.calls.length + 1
          rw [length_append, hcall]
        rw [hlength, show s.calls.length + 1 + n = s.calls.length + (n + 1) by omega]
        refine h (n + 1) b ?_
        rw [houtcomes]
        exact hn

/-- At most one call if `once`, and in enforced mode one for each reservation. -/
def Tally.Bounded (once enforced : Bool) (s : Tally) : Prop :=
  (once = true → s.calls.length ≤ 1) ∧
    (enforced = true → s.calls.Nodup ∧ ∀ d ∈ s.calls, ∃ i ∈ s.reserved, d = some i)

theorem bounded_next {o : LLMOp} (r : o.Answer) (h : s.Bounded once enforced)
    (hpermits : s.Permits once enforced o) : (s.next o r).Bounded once enforced := by
  cases hcall : invocation ⟨o, r⟩ with
  | none =>
    refine ⟨fun honce => ?_, fun henforced => ?_⟩
    · simpa [Tally.next, hcall] using h.1 honce
    · obtain ⟨hnodup, hreserved⟩ := h.2 henforced
      refine ⟨by simpa [Tally.next, hcall] using hnodup, fun d hd => ?_⟩
      obtain ⟨i, hi, hdi⟩ := hreserved d (by simpa [Tally.next, hcall] using hd)
      exact ⟨i, mem_append_left _ hi, hdi⟩
  | some d =>
    cases o with
    | complete route dispatch req =>
      cases hcall
      obtain ⟨hfirst, hunused⟩ := hpermits
      refine ⟨fun honce => ?_, fun henforced => ?_⟩
      · simp [Tally.next, invocation, hfirst honce]
      · obtain ⟨hnew, i, hi, hdi⟩ := hunused henforced
        obtain ⟨hnodup, hreserved⟩ := h.2 henforced
        refine ⟨?_, fun d hd => ?_⟩
        · simp only [Tally.next, invocation, toList_some]
          exact nodup_append.mpr ⟨hnodup, nodup_singleton _, by
            rintro a ha b hb rfl
            rw [mem_singleton] at hb
            exact hnew (hb ▸ ha)⟩
        · simp only [Tally.next, invocation, toList_some, mem_append, mem_singleton] at hd
          obtain hd | rfl := hd
          · obtain ⟨j, hj, hdj⟩ := hreserved d hd
            exact ⟨j, mem_append_left _ hj, hdj⟩
          · exact ⟨i, mem_append_left _ hi, hdi⟩
    | _ => cases hcall

/-- What is obeyed along a trace bounds its calls and reservations. -/
theorem bounded_of_obeys {α : Type} {p : LLMProg α} {Q : α → Tally → Prop}
    (h : Obeys (watch once enforced answers) p ⟨[], []⟩ Q) (ht : p.Trace t)
    (hanswers : Answers answers t) :
    (once → (invocations t).length ≤ 1) ∧ (enforced → (invocations t).Nodup ∧
        ∀ d ∈ invocations t, ∃ i ∈ reservations t, d = some i) := by
  have htrusts : (watch once enforced answers).Trusts ⟨[], []⟩ t := by
    refine trusts_of_answers _ fun n a ha => ?_
    simpa using hanswers n a ha
  have hbounded := (h.trace ht htrusts).invariant (I := Tally.Bounded once enforced)
    ⟨fun _ => by simp, fun _ => by simp⟩ fun s o r hs ho => bounded_next r hs ho
  rw [after_eq] at hbounded
  simpa [Tally.Bounded] using hbounded

end Llm

open Llm Prog

/-- The bound holds of every run of a completion, whatever the cache, the routes, the ledger and
the trace sink answer, exactly when enforced mode does not retry the first dispatch. -/
theorem calls_at_most_once (codec : Codec) (cfg : LLMConfig) (ctx : CallContext)
    (req : CompletionRequest) (answers : Nat → ProviderOutcome) :
    (∀ entry t, (entry.call codec cfg ctx req).Trace t → Answers answers t →
      AtMostOnce entry cfg t) ↔ ¬ Redispatches codec cfg ctx (answers 0) := by
  constructor
  · intro hbound hredispatches
    obtain ⟨t, identity, ht, hcalls, hanswers⟩ :=
      completeEnforced_trace req false hredispatches
    obtain ⟨policy, hpolicy, -⟩ := hredispatches
    have hcall : (Entry.completeOnce.call codec cfg ctx req).Trace t := by
      simpa [Entry.call, CompleteOnce, hpolicy] using ht
    have hin := answers_of_two hanswers
    have hnodup := (((hbound .completeOnce t hcall hin).2 (by simp [hpolicy])).1)
    rw [hcalls] at hnodup
    simp at hnodup
  · intro hnot entry t ht hanswers
    cases hpolicy : cfg.policy with
    | none =>
      refine ⟨?_, by simp [hpolicy]⟩
      rintro rfl
      have hcall : (complete codec cfg { req with executionPolicy := .atMostOnce } false).Trace t := by
        simpa [Entry.call, CompleteOnce, hpolicy] using ht
      exact (bounded_of_obeys (complete_obeys rfl) hcall hanswers).1 rfl
    | some policy =>
      -- either entry point is `completeEnforced`, which only `Complete` lets fall back
      obtain ⟨allowFallback, hcall, honce⟩ : ∃ allowFallback,
          (completeEnforced codec cfg ctx req allowFallback).Trace t ∧
            (entry = .completeOnce → allowFallback = false) := by
        cases entry with
        | complete =>
          exact ⟨true, by simpa [Entry.call, Complete, hpolicy] using ht, nofun⟩
        | completeOnce =>
          exact ⟨false, by simpa [Entry.call, CompleteOnce, hpolicy] using ht, fun _ => rfl⟩
      have hobeys : Obeys (watch (!allowFallback) true answers)
          (completeEnforced codec cfg ctx req allowFallback) ⟨[], []⟩ fun _ _ => True := by
        by_cases hdispatchable : Dispatchable codec ctx policy
        · refine completeEnforced_obeys rfl ?_ (by simp)
          by_contra hcontra
          rw [not_or, not_le, Bool.not_eq_false] at hcontra
          exact hnot ⟨policy, hpolicy, hcontra.1, hcontra.2, hdispatchable⟩
        · exact (obeys_of_local (completeEnforced_local hpolicy hdispatchable)).mono
            fun _ _ _ => trivial
      have hbounded := bounded_of_obeys hobeys hcall hanswers
      refine ⟨fun hentry => hbounded.1 (by simp [honce hentry]), fun _ => hbounded.2 rfl⟩

namespace Sample

def codec : Codec where
  requestHash r := r.user
  sha256 s := s
  sanitize s := s
  sanitizeError s := s
  redact s := s

/-- An enforced policy with one route and the default of two retries. -/
def enforcedConfig : LLMConfig where
  policy := some ⟨"fingerprint", ⟨"provider", "model", "endpoint", "revision", 0, 1000, 500,
    3000000000, 300000000, 15000000000⟩, none⟩
  llmProvider := ""
  llmFallbackProvider := ""
  llmModel := ""
  llmCallMaxRetries := 2
  llmCacheTTL := 0
  retries_bounded _ := by omega

def callContext : CallContext := ⟨some ⟨"dsl", "operation", 1, "default", "workflow"⟩, none⟩

def completionRequest : CompletionRequest := ⟨"", "", "repair", 0, true, 0, none, .default⟩

def overloaded : Nat → ProviderOutcome
  | 0 => .failed { GoError.new "too many requests" with httpStatus := some 429 }
  | _ => .response ⟨"repaired", 100, 0, 50, ⟨true, true, true, false, []⟩, "", "stop"⟩

theorem overloaded_redispatches : Redispatches codec enforcedConfig callContext (overloaded 0) :=
  ⟨_, rfl, by decide, rfl, ⟨by decide, "provider", rfl⟩, ⟨_, rfl⟩, 10500001, rfl⟩

end Sample

/-- `CompleteOnce` calls an overloaded provider twice. -/
theorem completeOnce_calls_twice : ∃ t, (CompleteOnce Sample.codec Sample.enforcedConfig Sample.callContext
        Sample.completionRequest).Trace t ∧
      Answers Sample.overloaded t ∧ (invocations t).length = 2 := by
  obtain ⟨t, identity, ht, hcalls, hanswers⟩ :=
    completeEnforced_trace Sample.completionRequest false Sample.overloaded_redispatches
  exact ⟨t, ht, answers_of_two hanswers, by rw [hcalls]; rfl⟩

end Aegis
