import Aegis.Lib.Outcome
import Aegis.Rules.Patch

/-!
# Rules.Store

The statements of the store on the rule catalog: the upsert of a rule, its deletion with what
belongs to it, and the enhancements.

A call that runs in a transaction is a function to `Except`: an error is a rollback. The database
runs with `foreign_keys(1)`: `tasks.rule_id` and `schedules.rule_id` hold a rule in place, an
enhancement loses its rule with the row.
-/

namespace Aegis

open Table

namespace Rules

variable {ν : Type}

inductive StoreError where
  | workspaceConflict | ruleNotFound | recordingNotFound | ruleVersionNotFound | ruleVersionState
  | marshal
  | constraint (message : String)

theorem find?_delete {ρ κ : Type} {key : ρ → κ} [DecidableEq κ] (t : Table key) (p : ρ → Bool)
    (k : κ) : (t.delete p).find? k = (t.find? k).filter fun r => !p r := by
  refine Option.ext fun r => ?_
  rw [Option.filter_eq_some_iff, Table.find?_eq_some, Table.find?_eq_some]
  simp only [Table.delete, List.mem_filter]
  tauto

structure Store (ν : Type) where
  rules : Table (Rule.id (ν := ν))
  tasks : Table TaskRow.id
  children : List ChildRow
  schedules : List ScheduleRow
  enhancements : Table (RuleEnhancement.id (ν := ν))
  jobs : Table (LLMJob.id (ν := ν))

def foreignKeyFailed : StoreError := .constraint "FOREIGN KEY constraint failed"

namespace Rule

def row (r : Rule ν) (workspace : WorkspaceID) : Rule ν :=
  { r with
    workspaceID := workspace
    docs := r.writtenDocs
    approvalStatus := if r.approvalStatus = "" then approvalApproved else r.approvalStatus
    source := if r.source = "" then "pageagent" else r.source }

/-- `DO UPDATE SET`: every column but the key, the workspace and `created_at`. -/
def excluded (r : Rule ν) : SetClause (Rule.id (ν := ν)) where
  set old := { r with id := old.id, workspaceID := old.workspaceID, createdAt := old.createdAt }
  keeps _ := rfl

end Rule

namespace Store

/-- `createRuleWithExec`. -/
def createRule (s : Store ν) (workspace : WorkspaceID) (r : Rule ν) : Except StoreError (Store ν) :=
  match s.rules.find? r.id with
  | none =>
    match s.rules.insert? (r.row workspace) with
    | some rules => .ok { s with rules }
    | none => .error (.constraint "UNIQUE constraint failed: rules.id")
  | some old =>
    if old.workspaceID = workspace then
      .ok { s with rules := s.rules.updateRow r.id (r.row workspace).excluded }
    else .error .workspaceConflict

def getRuleByID (s : Store ν) (workspace : WorkspaceID) (id : String) : Except StoreError (Rule ν) :=
  match (s.rules.find? id).filter fun r => r.workspaceID = workspace with
  | some r => .ok r
  | none => .error .ruleNotFound

def refersTo (s : Store ν) (id : String) : Bool :=
  s.tasks.any (fun t => t.ruleID = id) || s.schedules.any fun sch => sch.ruleID = id

/-- `ON DELETE SET NULL`. -/
def orphan : SetClause (RuleEnhancement.id (ν := ν)) where
  set e := { e with ruleID := none }
  keeps _ := rfl

/-- `DELETE FROM rules WHERE p`, on the rule `id`. -/
def deleteRow (s : Store ν) (id : String) (p : Rule ν → Bool) : Except StoreError (Store ν) :=
  if s.rules.any fun r => r.id = id && p r then
    if s.refersTo id then .error foreignKeyFailed
    else .ok { s with
      rules := s.rules.delete fun r => r.id = id && p r
      enhancements := s.enhancements.update (fun e => e.ruleID = some id) orphan }
  else .ok s

/-- `SELECT id FROM tasks WHERE rule_id = ? AND workspace_id = ?`. -/
def ofRule (workspace : WorkspaceID) (id : String) (t : TaskRow) : Bool :=
  t.ruleID = id && t.workspaceID = workspace

/-- The rows of `childTables` and of `execution_attempts` that go with the tasks of the rule. -/
def isChild (s : Store ν) (workspace : WorkspaceID) (id : String) (k : ChildRow) : Bool :=
  k.workspaceID = workspace && s.tasks.any fun t => ofRule workspace id t && t.id = k.taskID

/-- `deleteRuleWithExec`. -/
def deleteRule (s : Store ν) (workspace : WorkspaceID) (id : String) : Except StoreError (Store ν) := do
  let children := s.children.filter fun k => !s.isChild workspace id k
  ensure (!children.any fun k => s.tasks.any fun t => ofRule workspace id t && t.id = k.taskID)
    foreignKeyFailed
  let s₁ : Store ν :=
    { s with children, tasks := s.tasks.delete (ofRule workspace id) }
  ensure (s₁.rules.any fun r => r.id = id && r.workspaceID = workspace) .ruleNotFound
  s₁.deleteRow id fun r => r.workspaceID = workspace

/-- `createRuleEnhancementWithExec`. -/
def createRuleEnhancement (s : Store ν) (e : RuleEnhancement ν) : Except StoreError (Store ν) :=
  match s.enhancements.insert? e with
  | some enhancements => .ok { s with enhancements }
  | none => .error (.constraint "UNIQUE constraint failed: rule_enhancements.id")

/-- The rows `GetRuleEnhancementByRuleID` picks from: no other of the rule is newer. -/
def isNewest (s : Store ν) (workspace : WorkspaceID) (ruleID : String) (e : RuleEnhancement ν) : Bool :=
  e.ruleID = some ruleID && e.workspaceID = workspace && s.enhancements.rows.all fun e' =>
      !(e'.ruleID = some ruleID && e'.workspaceID = workspace) || e'.createdAt ≤ e.createdAt

def setStatus (status : EnhancementStatus) : SetClause (RuleEnhancement.id (ν := ν)) where
  set e := { e with status := status }
  keeps _ := rfl

/-- `updateRuleEnhancementStatusWithExec`: no row is needed for it to succeed. -/
def updateRuleEnhancementStatus (s : Store ν) (workspace : WorkspaceID) (id : String)
    (status : EnhancementStatus) : Store ν :=
  { s with
    enhancements := s.enhancements.update (fun e => e.id = id && e.workspaceID = workspace)
      (setStatus status) }

/-- `DELETE FROM rule_enhancements WHERE workspace_id = ? AND rule_id = ? AND status = ?`. -/
def deletePendingEnhancements (s : Store ν) (workspace : WorkspaceID) (ruleID : String) : Store ν :=
  { s with enhancements := s.enhancements.delete fun e =>
      e.workspaceID = workspace && e.ruleID = some ruleID && e.status = .pending }

def setJob (status : LLMJobStatus) : SetClause (LLMJob.id (ν := ν)) where
  set j := { j with status := status }
  keeps _ := rfl

/-- `UpdateLLMJobStatus`, and the update of a claim. -/
def updateJob (s : Store ν) (workspace : WorkspaceID) (id : String) (status : LLMJobStatus) : Store ν :=
  { s with
    jobs := s.jobs.update (fun j => j.id = id && j.workspaceID = workspace) (setJob status) }

variable {s s' : Store ν} {workspace : WorkspaceID} {id : String} {r : Rule ν}

def upserted (r : Rule ν) (workspace : WorkspaceID) (old : Option (Rule ν)) : Rule ν :=
  { r.row workspace with createdAt := (old.map Rule.createdAt).getD r.createdAt }

theorem createRule_ok (h : s.createRule workspace r = .ok s') : (∃ rules, s' = { s with rules } ∧
      s.rules.Wrote rules (upserted r workspace (s.rules.find? r.id))) ∧
    ∀ old, s.rules.find? r.id = some old → old.workspaceID = workspace := by
  unfold createRule at h
  split at h
  next hnone =>
    split at h
    next rules hrules =>
      cases h
      refine ⟨⟨rules, rfl, ?_⟩, fun old hold => ?_⟩
      · rw [hnone]
        exact wrote_insert? hrules
      · rw [hnone] at hold
        cases hold
    next => cases h
  next old hold =>
    split at h
    next hws =>
      cases h
      refine ⟨⟨_, rfl, ?_⟩, fun old' hold' => ?_⟩
      · have hid : Rule.id old = r.id := key_of_find? hold
        have hself : s.rules.find? (Rule.id old) = some old := hid ▸ hold
        have hwrote := wrote_updateRow (r.row workspace).excluded hself
        rw [hold]
        rw [hid] at hwrote
        convert hwrote using 1
        simp [upserted, Rule.excluded, Rule.row, hid, hws]
      · rw [hold] at hold'
        exact Option.some.inj hold' ▸ hws
    next => cases h

/-- An enhancement after its rule `id` is gone. -/
def Orphans (id : String) (f : RuleEnhancement ν → RuleEnhancement ν) : Prop :=
  ∀ e, f e = e ∨ (e.ruleID = some id ∧ f e = { e with ruleID := none })

theorem deleteRow_ok {p : Rule ν → Bool} (h : s.deleteRow id p = .ok s') :
    s' = { s with rules := s'.rules, enhancements := s'.enhancements } ∧
    (∀ k, s'.rules.find? k = (s.rules.find? k).filter fun r => !(decide (r.id = id) && p r)) ∧
    (∃ f, Orphans id f ∧ ∀ k, s'.enhancements.find? k = (s.enhancements.find? k).map f) ∧
    ∀ r, s.rules.find? id = some r → p r = true → s.refersTo id = false := by
  unfold deleteRow at h
  split at h
  next hany =>
    split at h
    next => cases h
    next hrefers =>
      cases h
      refine ⟨rfl, fun k => find?_delete _ _ k,
        ⟨setIf (fun e => decide (e.ruleID = some id)) orphan.set, fun e => ?_,
          fun k => find?_update _ _ _ k⟩, fun _ _ _ => by simpa using hrefers⟩
      by_cases he : e.ruleID = some id
      · exact .inr ⟨he, setIf_pos (by simpa using he)⟩
      · exact .inl (setIf_neg (by simpa using he))
  next hany =>
    cases h
    have hnone : ∀ q ∈ s.rules.rows, (decide (q.id = id) && p q) = false := by
      simpa [Table.any] using hany
    refine ⟨rfl, fun k => ?_, ⟨fun e => e, fun e => .inl rfl, fun k => ?_⟩, fun q hq hp => ?_⟩
    · cases hq : s.rules.find? k with
      | none => rfl
      | some q =>
        rw [Option.filter_some, hnone q (mem_of_find? hq)]
        rfl
    · simp
    · have hfalse := hnone q (mem_of_find? hq)
      rw [hp, show Rule.id q = id from key_of_find? hq] at hfalse
      simp at hfalse

end Store

end Rules

end Aegis
