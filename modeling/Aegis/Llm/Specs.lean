import Aegis.Llm.Orchestrator

/-!
# Llm.Specs

What each part of a completion can perform and return, whatever it is answered. Local operations
touch neither the ledger nor a provider; the parts around a dispatch perform nothing else.
-/

namespace Aegis

def LLMOp.Local : LLMOp → Prop
  | reserve _ | ledger _ | complete _ _ _ => False
  | _ => True

/-- A transaction of the ledger that ends the dispatch of `identity`, or a local operation. -/
def LLMOp.Settles (identity : DispatchIdentity) : LLMOp → Prop
  | ledger (.settleTrusted i _ _ _) => i = identity
  | ledger (.settleUncertain i _) => i = identity
  | reserve _ | ledger _ | complete _ _ _ => False
  | _ => True

def LLMOp.Quiet : LLMOp → Prop
  | reserve _ | ledger _ | complete _ _ _ => False
  | cacheGet _ | cacheSet _ _ | traceCacheHit _ _ | traceBoundary _ _ => False
  | _ => True

/-- A transaction of the ledger that ends the dispatch of `identity`, or a quiet operation. -/
def LLMOp.Ends (identity : DispatchIdentity) : LLMOp → Prop
  | ledger (.settleTrusted i _ _ _) => i = identity
  | ledger (.settleUncertain i _) => i = identity
  | reserve _ | ledger _ | complete _ _ _ => False
  | cacheGet _ | cacheSet _ _ | traceCacheHit _ _ | traceBoundary _ _ => False
  | _ => True

variable {o : LLMOp}

theorem LLMOp.Quiet.ends (h : o.Quiet) (identity : DispatchIdentity) : o.Ends identity := by
  cases o <;> first | exact trivial | cases h

theorem LLMOp.Quiet.local (h : o.Quiet) : o.Local := by
  cases o <;> first | exact trivial | cases h

theorem LLMOp.Ends.settles {identity : DispatchIdentity} (h : o.Ends identity) : o.Settles identity := by
  cases o with
  | ledger tx => cases tx <;> exact h
  | reserve _ | complete _ _ _ => exact h
  | _ => trivial

theorem LLMOp.Local.settles (h : o.Local) (identity : DispatchIdentity) : o.Settles identity := by
  cases o <;> first | exact trivial | cases h

namespace Llm

open Prog

variable {codec : Codec} {cfg : LLMConfig} {ctx : CallContext} {identity : DispatchIdentity}

def Routable (codec : Codec) (policy : LLMPolicy) : Prop :=
  policy.primary.provider ≠ "" ∧ ∃ name, codec.sanitize name = policy.primary.provider

theorem routable_of_contract {policy : LLMPolicy} {provider : ProviderInfo}
    (hpolicy : cfg.policy = some policy)
    (h : contractMismatch codec cfg "primary" provider = none) : Routable codec policy := by
  simp only [contractMismatch, hpolicy] at h
  split at h
  · cases h
  · rename_i hname
    simp only [Bool.or_eq_true, beq_iff_eq, bne_iff_ne, not_or, not_not] at hname
    exact ⟨hname.1, provider.name, hname.2⟩

theorem routeReady_only (route : String) :
    Only LLMOp.Local (routeReady codec cfg route) fun r => r = none → route = "primary" →
      ∀ policy, cfg.policy = some policy → Routable codec policy := by
  simp only [routeReady, perform_bind, only_op]
  refine ⟨trivial, fun provider => ?_⟩
  cases provider with
  | none => simp
  | some provider =>
    cases hmatch : contractMismatch codec cfg route provider with
    | some reason => simp [hmatch]
    | none =>
      simp only [hmatch, only_op]
      refine ⟨trivial, fun reason => ?_⟩
      rw [only_pure]
      rintro - rfl policy hpolicy
      exact routable_of_contract hpolicy hmatch

theorem preparedProvider_only (prepared : PreparedCall) :
    Only LLMOp.Local (preparedProvider codec prepared) fun r =>
      ∀ e, r = .error e → e.isAvailability = false := by
  simp only [preparedProvider, perform_bind, only_op]
  refine ⟨trivial, fun provider => ?_⟩
  cases provider with
  | none =>
    rintro _ ⟨⟩
    rfl
  | some provider =>
    dsimp only
    split
    · rintro _ ⟨⟩
      rfl
    · rintro _ ⟨⟩

variable {e : LLMError}

theorem resolveDispatchWorkspace_error {operation : DispatchOperation}
    (h : resolveDispatchWorkspace ctx operation = .error e) : e = .noWorkspace := by
  unfold resolveDispatchWorkspace at h
  split at h
  · cases h
  · split at h
    · split at h
      · cases h
        rfl
      · cases h
    · cases h
      rfl

theorem dispatchIdentity_error {ordinal : Int}
    (h : dispatchIdentity ctx ordinal = .error e) : e.isAvailability = false := by
  unfold dispatchIdentity at h
  split at h
  · cases h
    rfl
  · split at h
    · rename_i hworkspace
      cases h
      rw [resolveDispatchWorkspace_error hworkspace]
      rfl
    · dsimp only at h
      split at h
      · cases h
        rfl
      · cases h

def Admits (ctx : CallContext) (prepared : PreparedCall) (ordinal : Int) :
    Except LLMError (DispatchIdentity × Int) → Prop
  | .error e => e.isAvailability = false
  | .ok (identity, reserved) => dispatchIdentity ctx ordinal = .ok identity ∧
      reservation (preparedRates prepared) (preparedCaps prepared) = .ok reserved

theorem admissible_only (prepared : PreparedCall) (ordinal : Int) :
    Only LLMOp.Local (admissible codec cfg ctx prepared ordinal) (Admits ctx prepared ordinal) := by
  refine (routeReady_only prepared.route).bind fun reason _ => ?_
  cases reason with
  | some reason => rfl
  | none =>
    refine only_perform_bind.mpr ⟨trivial, fun bound => ?_⟩
    split
    · rfl
    · cases hidentity : dispatchIdentity ctx ordinal with
      | error e => exact dispatchIdentity_error hidentity
      | ok identity =>
        refine (preparedProvider_only prepared).bind fun provider hprovider => ?_
        cases provider with
        | error e => exact hprovider e rfl
        | ok provider =>
          dsimp only
          split
          · rfl
          · refine only_perform_bind.mpr ⟨trivial, fun upperBound => ?_⟩
            cases upperBound with
            | error message => rfl
            | ok upperBound =>
              dsimp only
              split
              · rfl
              · cases hprice : reservation (preparedRates prepared) (preparedCaps prepared) with
                | error e => rfl
                | ok reserved => exact ⟨hidentity, hprice⟩

theorem checkWorkflowBudget_quiet (reserved : Int) :
    Only LLMOp.Quiet (checkWorkflowBudget ctx reserved) fun _ => True := by
  simp only [checkWorkflowBudget, perform_bind, only_op]
  refine ⟨trivial, fun bound => ?_⟩
  split
  · trivial
  · split
    · exact ⟨trivial, fun _ => trivial⟩
    · trivial

theorem checkWorkflowBudget_only (reserved : Int) :
    Only LLMOp.Local (checkWorkflowBudget ctx reserved) fun _ => True :=
  (checkWorkflowBudget_quiet reserved).weaken fun _ h => h.local

theorem addWorkflowSpend_quiet (amount : Int) :
    Only LLMOp.Quiet (addWorkflowSpend ctx amount) fun _ => True := by
  unfold addWorkflowSpend
  split
  · trivial
  · simp only [perform_bind, only_op]
    refine ⟨trivial, fun bound => ?_⟩
    split
    · trivial
    · split
      · trivial
      · split
        · trivial
        · exact ⟨trivial, fun _ => trivial⟩

theorem addWorkflowSpend_only (amount : Int) :
    Only LLMOp.Local (addWorkflowSpend ctx amount) fun _ => True :=
  (addWorkflowSpend_quiet amount).weaken fun _ h => h.local

variable {P : LLMOp → Prop} {operation : String}

theorem withImmediateTx_only {α : Type}
    {attempt : LLMProg (Attempt α)} (hattempt : Only P attempt fun _ => True)
    (hctx : P .ctxDone) (retries : Nat) :
    Only P (withImmediateTx operation attempt retries) fun _ => True := by
  induction retries with
  | zero =>
    unfold withImmediateTx
    refine hattempt.bind fun r _ => ?_
    cases r <;> trivial
  | succ retries ih =>
    unfold withImmediateTx
    refine hattempt.bind fun r _ => ?_
    cases r with
    | done r | down => trivial
    | busy =>
      simp only [perform_bind, only_op]
      refine ⟨hctx, fun done => ?_⟩
      split
      · trivial
      · exact ih

/-- The rule of a transaction that is tried again when it is busy: a busy attempt leaves the state
of the protocol, and so does a look at the context. -/
theorem withImmediateTx_obeys {α σ : Type} {P : Protocol LLMOp.Answer σ}
    {attempt : LLMProg (Attempt α)} {s : σ} {Q : Except LedgerError α → σ → Prop}
    (hattempt : Obeys P attempt s fun a t =>
      match a with
      | .done r => Q r t
      | .down => Q (.error (.unavailable operation)) t
      | .busy => t = s ∧ Q (.error (.unavailable operation)) s)
    (hctx : P.allowed s .ctxDone) (hnext : ∀ done, P.next s .ctxDone done = s) (retries : Nat) :
    Obeys P (withImmediateTx operation attempt retries) s Q := by
  induction retries with
  | zero =>
    unfold withImmediateTx
    refine hattempt.bind fun a t ha => ?_
    cases a with
    | done r | down => exact ha
    | busy =>
      obtain ⟨rfl, ha⟩ := ha
      exact ha
  | succ retries ih =>
    unfold withImmediateTx
    refine hattempt.bind fun a t ha => ?_
    cases a with
    | done r | down => exact ha
    | busy =>
      obtain ⟨rfl, ha⟩ := ha
      refine obeys_perform_bind.mpr ⟨hctx, fun done _ => ?_⟩
      rw [hnext]
      split
      · exact ha
      · exact ih

theorem ledgerTx_only {tx : LedgerTx} (htx : P (.ledger tx))
    (hctx : P .ctxDone) : Only P (ledgerTx tx) fun _ => True := by
  refine withImmediateTx_only ?_ hctx ledgerRetries
  exact ⟨htx, fun _ => trivial⟩

theorem settleUncertain_ends (reason : String) :
    Only (LLMOp.Ends identity) (settleUncertain identity reason) fun _ => True := by
  exact Only.bind (ledgerTx_only rfl trivial) fun _ _ => trivial

theorem addWorkflowSpend_ends (amount : Int) :
    Only (LLMOp.Ends identity) (addWorkflowSpend ctx amount) fun _ => True :=
  (addWorkflowSpend_quiet amount).weaken fun _ h => h.ends identity

theorem settleAdmitted_ends (prepared : PreparedCall) (reserved : Int)
    (result : Except GoError CompletionResponse) :
    Only (LLMOp.Ends identity) (settleAdmitted ctx identity prepared reserved result)
      fun _ => True := by
  have huncertain : ∀ reason, Only (LLMOp.Ends identity) (do
      settleUncertain identity reason
      perform (.closeRoute prepared.route "usage_contract_violation")
      addWorkflowSpend ctx reserved) fun _ => True := by
    intro reason
    refine (settleUncertain_ends reason).bind fun _ _ => ?_
    exact ⟨trivial, fun _ => addWorkflowSpend_ends reserved⟩
  unfold settleAdmitted
  dsimp only
  split
  · exact huncertain _
  · split
    · split
      · exact huncertain _
      · split
        · exact huncertain _
        · exact Only.bind (ledgerTx_only rfl trivial) fun _ _ => addWorkflowSpend_ends _
    · exact (settleUncertain_ends _).bind fun _ _ => addWorkflowSpend_ends reserved

theorem settleAdmitted_only (prepared : PreparedCall) (reserved : Int)
    (result : Except GoError CompletionResponse) :
    Only (LLMOp.Settles identity) (settleAdmitted ctx identity prepared reserved result)
      fun _ => True :=
  (settleAdmitted_ends prepared reserved result).weaken fun _ h => h.settles

end Llm

end Aegis
