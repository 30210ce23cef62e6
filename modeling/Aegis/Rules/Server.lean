import Aegis.Lib.Run
import Aegis.Rules.Store

/-!
# Rules.Server

The enhancement jobs and the decisions on what they make: `EnhanceRule`, `ProcessOnce` with
`runJob` and `persistEnhancement`, `AcceptEnhancement` and `RejectEnhancement`.

A step is one read or one transaction, so a run is any interleaving of the calls. A decision reads
the newest enhancement, an acceptance reads the rule as well, and the transaction comes later; what
it has read waits in `calls`. A decision that is answered with success is noted in `log`.
-/

namespace Aegis

namespace Rules

variable {ν : Type}

inductive Decision where
  | accept | reject
deriving DecidableEq

def Decision.status : Decision → EnhancementStatus
  | .accept => .approved
  | .reject => .rejected

/-- A decision under way: the enhancement that it has read and, for an acceptance, the creation
time of the rule. -/
structure Call (ν : Type) where
  id : Nat
  workspace : WorkspaceID
  decision : Decision
  ruleID : String
  e : RuleEnhancement ν
  ruleCreatedAt : Option Time

/-- A decision that was answered with success, with the enhancement as the transaction found it and
the row of the rule that it left. -/
structure Entry (ν : Type) where
  decision : Decision
  ruleID : String
  enhancementID : String
  found : Option (RuleEnhancement ν)
  left : Option (Rule ν)

structure Server (ν : Type) where
  store : Store ν
  calls : List (Call ν)
  log : List (Entry ν)

/-- `url.Parse`, and whether the LLM policy is enforced. -/
structure Config where
  urlParses : String → Bool
  enforced : Bool

/-- `Submit`, for a baseline that `EnhanceRule` lets through. -/
def Store.enhanceRule (cfg : Config) (s : Store ν) (workspace : WorkspaceID) (now : Time)
    (jobID : String) (baseline : Fields ν) : Store ν :=
  let ruleID := getString baseline "id"
  if ruleID = "" || !validate cfg.urlParses baseline then s
  else
    match s.jobs.insert? ⟨jobID, workspace, ruleID, baseline, .pending, now⟩ with
    | some jobs => { s with jobs }
    | none => s

/-- `ClaimPendingLLMJob`: a pending job of the workspace, of those that were made first. -/
def Store.claimJob (s : Store ν) (workspace : WorkspaceID) (jobID : String) : Store ν :=
  match s.jobs.find? jobID with
  | none => s
  | some j =>
    if j.workspaceID = workspace && j.status = .pending && s.jobs.rows.all fun j' =>
          !(j'.workspaceID = workspace && j'.status = .pending) || j.createdAt ≤ j'.createdAt then
      s.updateJob workspace jobID .running
    else s

/-- The rule that `persistEnhancement` writes. -/
def pendingRule (now : Time) (r : Rule ν) : Rule ν :=
  { r with
    createdAt := now
    updatedAt := now
    approvalStatus := approvalPending
    enabled := false }

/-- `DELETE FROM rules WHERE workspace_id = ? AND id = ? AND approval_status = ?`. -/
def isPendingIn (workspace : WorkspaceID) (r : Rule ν) : Bool :=
  r.workspaceID = workspace && r.approvalStatus = approvalPending

def newEnhancement (enhancementID : String) (workspace : WorkspaceID) (now : Time)
    (baseline resultRule : Fields ν) (ruleID : String) : RuleEnhancement ν where
  id := enhancementID
  workspaceID := workspace
  ruleID := some ruleID
  baseline := baseline
  enhanced := resultRule
  status := .pending
  createdAt := now

def Store.persistEnhancement (s : Store ν) (workspace : WorkspaceID) (now : Time)
    (enhancementID : String) (baseline resultRule : Fields ν) :
    Except StoreError (Store ν) :=
  match Rule.read resultRule with
  | none => .error .marshal
  | some r => do
    let s₁ := s.deletePendingEnhancements workspace r.id
    let s₂ ← s₁.deleteRow r.id (isPendingIn workspace)
    let s₃ ← s₂.createRule workspace (pendingRule now r)
    s₃.createRuleEnhancement (newEnhancement enhancementID workspace now baseline resultRule r.id)

def orElse (x : Except StoreError (Store ν)) (s : Store ν) : Store ν :=
  match x with
  | .ok s => s
  | .error _ => s

/-- `runJob`, for a claimed job. -/
def Store.runJob (cfg : Config) (s : Store ν) (workspace : WorkspaceID) (now : Time)
    (jobID : String) (response : Response ν) (enhancementID : String) : Store ν :=
  match s.jobs.find? jobID with
  | none => s
  | some j =>
    if j.workspaceID = workspace && j.status = .running then
      match enhance cfg.urlParses cfg.enforced j.baseline response with
      | .error .crash => s
      | .error .closed => s.updateJob workspace jobID .failed
      | .ok resultRule =>
        let s₁ := s.updateJob workspace jobID .completed
        orElse (s₁.persistEnhancement workspace now enhancementID j.baseline resultRule) s₁
    else s

/-- `rawToMap(e.Enhanced)` as a rule: `ruleFromMap`, with what `AcceptEnhancement` sets. A member
that is missing is marshalled as `null`, and there is no `source`. -/
def acceptedRule (e : RuleEnhancement ν) (id : String) (createdAt now : Time) : Rule ν where
  id := id
  workspaceID := ""
  version := getString e.enhanced "version"
  name := getString e.enhanced "name"
  docs d := some ((e.enhanced.lookup d.name).getD .null)
  enabled := true
  priority := getString e.enhanced "priority"
  entry := getString e.enhanced "entry"
  owner := getString e.enhanced "owner"
  approvalStatus := approvalApproved
  source := ""
  createdAt := createdAt
  updatedAt := now

def Store.decide (s : Store ν) (c : Call ν) (now : Time) : Except StoreError (Store ν) := do
  let s₁ ← match c.decision with
    | .accept =>
      s.createRule c.workspace (acceptedRule c.e c.ruleID (c.ruleCreatedAt.getD Time.zero) now)
    | .reject => s.deleteRule c.workspace c.ruleID
  pure (s₁.updateRuleEnhancementStatus c.workspace c.e.id c.decision.status)

def Store.pendingOf (s : Store ν) (c : Call ν) : Option (RuleEnhancement ν) :=
  (s.enhancements.find? c.e.id).filter fun e => e.workspaceID = c.workspace

namespace Server

def drop (s : Server ν) (call : Nat) : Server ν :=
  { s with calls := s.calls.filter fun c => c.id ≠ call }

def decide (s : Server ν) (c : Call ν) (now : Time) : Server ν :=
  match s.store.decide c now with
  | .error _ => s.drop c.id
  | .ok store =>
    { s.drop c.id with
      store := store
      log := ⟨c.decision, c.ruleID, c.e.id, s.store.pendingOf c, store.rules.find? c.ruleID⟩ ::
        s.log }

inductive Event (ν : Type) where
  | enhanceRule (workspace : WorkspaceID) (now : Time) (jobID : String) (baseline : Fields ν)
  | claimJob (workspace : WorkspaceID) (jobID : String)
  | runJob (workspace : WorkspaceID) (now : Time) (jobID : String) (response : Response ν)
      (enhancementID : String)
  /-- The call reads the newest enhancement, `enhancementID`. -/
  | getEnhancement (workspace : WorkspaceID) (call : Nat) (decision : Decision) (ruleID : String)
      (enhancementID : String)
  | getRule (call : Nat)
  | decide (now : Time) (call : Nat)

def getEnhancement (s : Server ν) (workspace : WorkspaceID) (call : Nat) (decision : Decision)
    (ruleID enhancementID : String) : Server ν :=
  if s.calls.any fun c => c.id = call then s
  else
    match s.store.enhancements.find? enhancementID with
    | none => s
    | some e =>
      if s.store.isNewest workspace ruleID e && e.status = .pending then
        { s with calls := s.calls ++ [⟨call, workspace, decision, ruleID, e, none⟩] }
      else s

def getRule (s : Server ν) (call : Nat) : Server ν :=
  match s.calls.find? fun c => c.id = call with
  | none => s
  | some c =>
    match s.store.getRuleByID c.workspace c.ruleID with
    | .error _ => s.drop call
    | .ok r =>
      { s with calls := s.calls.map fun c =>
          if c.id = call then { c with ruleCreatedAt := some r.createdAt } else c }

def commit (s : Server ν) (now : Time) (call : Nat) : Server ν :=
  match s.calls.find? fun c => c.id = call with
  | none => s
  | some c =>
    if c.decision = .accept && c.ruleCreatedAt.isNone then s else s.decide c now

def step (cfg : Config) (s : Server ν) : Event ν → Server ν
  | .enhanceRule workspace now jobID baseline =>
    { s with store := s.store.enhanceRule cfg workspace now jobID baseline }
  | .claimJob workspace jobID => { s with store := s.store.claimJob workspace jobID }
  | .runJob workspace now jobID response enhancementID =>
    { s with store := s.store.runJob cfg workspace now jobID response enhancementID }
  | .getEnhancement workspace call decision ruleID enhancementID =>
    s.getEnhancement workspace call decision ruleID enhancementID
  | .getRule call => s.getRule call
  | .decide now call => s.commit now call

end Server

end Rules

end Aegis
