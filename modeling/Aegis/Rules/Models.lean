import Aegis.Lib.Table
import Aegis.Recording.Json
import Aegis.Scheduler.Clock

/-!
# Rules.Models

The rows of the rule catalog, and `models.Rule` as `encoding/json` reads it.

A JSON column is the value of its text; `none` is the empty text, which `JSON.Value` and
`JSON.MarshalJSON` write as the empty object.
-/

namespace Aegis

namespace Rules

abbrev Fields (ν : Type) := List (String × Json ν)

/-- The JSON columns of `rules`. -/
inductive Doc where
  | domain | urlPattern | variables | selectors | humanize | steps | output | sendPolicy | hooks
  | tags
deriving DecidableEq

def Doc.all : List Doc :=
  [.domain, .urlPattern, .variables, .selectors, .humanize, .steps, .output, .sendPolicy, .hooks, .tags]

def Doc.name : Doc → String
  | .domain => "domain"
  | .urlPattern => "urlPattern"
  | .variables => "variables"
  | .selectors => "selectors"
  | .humanize => "humanize"
  | .steps => "steps"
  | .output => "output"
  | .sendPolicy => "sendPolicy"
  | .hooks => "hooks"
  | .tags => "tags"

structure Rule (ν : Type) where
  id : String
  workspaceID : WorkspaceID
  version : String
  name : String
  docs : Doc → Option (Json ν)
  enabled : Bool
  priority : String
  entry : String
  owner : String
  approvalStatus : String
  source : String
  createdAt : Time
  updatedAt : Time

/-- `RuleApprovalPending`, `RuleApprovalApproved`, `RuleApprovalRejected`. -/
def approvalPending : String := "pending"
def approvalApproved : String := "approved"
def approvalRejected : String := "rejected"

namespace Rule

variable {ν : Type}

/-- `models.Rule{}`. -/
def zero : Rule ν where
  id := ""
  workspaceID := ""
  version := ""
  name := ""
  docs _ := none
  enabled := false
  priority := ""
  entry := ""
  owner := ""
  approvalStatus := ""
  source := ""
  createdAt := Time.zero
  updatedAt := Time.zero

def writtenDocs (r : Rule ν) : Doc → Option (Json ν) := fun d => some ((r.docs d).getD (.obj []))

def isApproved (r : Rule ν) : Bool := r.approvalStatus == approvalApproved

def content (r : Rule ν) : Rule ν := { r with createdAt := Time.zero, updatedAt := Time.zero }

/-- `foldRune`, for the runes that fold to an ASCII letter. -/
def foldChar (c : Char) : Char :=
  if c = '\u017f' then 's' else if c = '\u212a' then 'k' else c.toLower

def foldName (name : String) : List Char := name.toList.map foldChar

/-- A member that holds text; `null` leaves the field alone. -/
def readText (set : String → Rule ν) (r : Rule ν) : Json ν → Option (Rule ν)
  | .str s => some (set s)
  | .null => some r
  | _ => none

/-- `Time.UnmarshalJSON`. -/
def readTime (set : Time → Rule ν) (r : Rule ν) : Json ν → Option (Rule ν)
  | .str s => (Time.parseRFC3339 s).map set
  | .null => some r
  | _ => none

def readEnabled (r : Rule ν) : Json ν → Option (Rule ν)
  | .bool b => some { r with enabled := b }
  | .null => some r
  | _ => none

/-- One member of the object: its name is looked up as it is, and then folded. A member without a
field is skipped. -/
def readMember (r : Rule ν) (key : String) (v : Json ν) : Option (Rule ν) :=
  let k := foldName key
  if k = foldName "id" then readText (fun s => { r with id := s }) r v
  else if k = foldName "workspaceId" then readText (fun s => { r with workspaceID := s }) r v
  else if k = foldName "version" then readText (fun s => { r with version := s }) r v
  else if k = foldName "name" then readText (fun s => { r with name := s }) r v
  else if k = foldName "enabled" then readEnabled r v
  else if k = foldName "priority" then readText (fun s => { r with priority := s }) r v
  else if k = foldName "entry" then readText (fun s => { r with entry := s }) r v
  else if k = foldName "owner" then readText (fun s => { r with owner := s }) r v
  else if k = foldName "approvalStatus" then
    readText (fun s => { r with approvalStatus := s }) r v
  else if k = foldName "source" then readText (fun s => { r with source := s }) r v
  else if k = foldName "createdAt" then readTime (fun t => { r with createdAt := t }) r v
  else if k = foldName "updatedAt" then readTime (fun t => { r with updatedAt := t }) r v
  else match Doc.all.find? fun d => decide (k = foldName d.name) with
    | some d => some { r with docs := fun d' => if d' = d then some v else r.docs d' }
    | none => some r

/-- `json.Unmarshal` into a rule: the members of the text in their order. -/
def read (members : Fields ν) : Option (Rule ν) :=
  members.foldlM (fun r f => r.readMember f.1 f.2) zero

end Rule

inductive EnhancementStatus where
  | pending | approved | rejected
deriving DecidableEq

inductive LLMJobStatus where
  | pending | running | completed | failed
deriving DecidableEq

/-- The columns of `rule_enhancements` that a decision looks at; `rule_id` is
`ON DELETE SET NULL`. -/
structure RuleEnhancement (ν : Type) where
  id : String
  workspaceID : WorkspaceID
  ruleID : Option String
  baseline : Fields ν
  enhanced : Fields ν
  status : EnhancementStatus
  createdAt : Time

structure LLMJob (ν : Type) where
  id : String
  workspaceID : WorkspaceID
  ruleID : String
  baseline : Fields ν
  status : LLMJobStatus
  createdAt : Time

structure TaskRow where
  id : TaskID
  workspaceID : WorkspaceID
  ruleID : String

/-- A row of a table that refers to `tasks`. -/
structure ChildRow where
  table : String
  id : String
  workspaceID : WorkspaceID
  taskID : TaskID

structure ScheduleRow where
  id : String
  workspaceID : WorkspaceID
  ruleID : String

end Rules

end Aegis
