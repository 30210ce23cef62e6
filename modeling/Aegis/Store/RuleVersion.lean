import Aegis.Store.Db

/-!
# Store.RuleVersion

Rule versions and contracts as tasks are bound to them: `BindTaskToRuleVersion` when a task is
created, `resolveTaskRuleVersionContract` when it is claimed.
-/

namespace Aegis

/-- What the store takes from other packages: the input validation of a contract
(`rulecontract.ApplyAndValidateTaskInputs`) and the hexadecimal SHA-256 digest of a payload. -/
structure Env where
  applyAndValidateTaskInputs : JSON → JSON → Except StoreError JSON
  sha256 : JSON → String

namespace Store

def getRuleVersion (s : Store) (c : Ctx) (ruleID : String) (version : Int) :
    Except StoreError RuleVersion :=
  match s.ruleVersions.find? (c.workspace, ruleID, version) with
  | none => .error .ruleVersionNotFound
  | some v => .ok v

def getRuleVersionContract (s : Store) (c : Ctx) (ruleID : String) (version : Int) :
    Except StoreError RuleVersionContract :=
  match s.ruleVersionContracts.find? (c.workspace, ruleID, version) with
  | none => .error .ruleVersionNotFound
  | some k => .ok k

/-- `SELECT EXISTS(SELECT 1 FROM rule_versions WHERE workspace_id = ? AND rule_id = ?)`. -/
def ruleVersionExists (s : Store) (c : Ctx) (ruleID : String) : Bool :=
  s.ruleVersions.any fun v => v.workspaceID == c.workspace && v.ruleID == ruleID

/-- `resolveTaskRuleVersionContract`: a task is legacy only when its rule has no version at all;
once one exists, the bound version and its contract are required. -/
def resolveTaskRuleVersionContract (s : Store) (c : Ctx) (t : Task) :
    Except StoreError (Option (RuleVersion × RuleVersionContract)) :=
  if t.ruleID.isEmpty then .ok none
  else
    match if t.ruleVersionNumber > 0 then s.getRuleVersion c t.ruleID t.ruleVersionNumber
          else .error .ruleVersionNotFound with
    | .ok v => do
      let k ← s.getRuleVersionContract c t.ruleID t.ruleVersionNumber
      pure (some (v, k))
    | .error _ =>
      if s.ruleVersionExists c t.ruleID then .error .ruleVersionNotFound else .ok none

def latestApprovedVersion (s : Store) (c : Ctx) (t : Task) : Option Int :=
  ((s.ruleVersions.rows.filter fun v =>
    v.workspaceID == c.workspace && v.ruleID == t.ruleID && v.status == .approved &&
      (t.ruleVersion.isEmpty || v.versionLabel == t.ruleVersion)).map RuleVersion.version).max?

def requestedOrLatest (s : Store) (c : Ctx) (t : Task) (requestedVersion : Int) : Except StoreError Int :=
  if requestedVersion ≤ 0 then
    match s.latestApprovedVersion c t with
    | none => .error .ruleVersionNotApproved
    | some v => .ok v
  else .ok requestedVersion

def bindTaskToRuleVersion (env : Env) (c : Ctx) (t : Task) (requestedVersion : Int) (s : Store) :
    Except StoreError Task := do
  require (!t.ruleID.isEmpty) .ruleNotFound
  let version ← s.requestedOrLatest c t requestedVersion
  match s.getRuleVersion c t.ruleID version with
  | .error _ => .error .ruleVersionNotApproved
  | .ok v =>
    require (v.status == .approved) .ruleVersionNotApproved
    let k ← s.getRuleVersionContract c t.ruleID version
    let normalized ← env.applyAndValidateTaskInputs k.inputSchema t.vars
    pure { t with
      workspaceID := c.workspace
      ruleVersion := v.versionLabel
      ruleVersionNumber := version
      vars := normalized
      inputSchema := k.inputSchema
      outputSchema := k.outputSchema
      browserProfileID :=
        if t.browserProfileID.isEmpty then k.browserProfileID else t.browserProfileID }

end Store

end Aegis
