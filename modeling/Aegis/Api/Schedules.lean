import Aegis.Scheduler.Clock
import Aegis.Store.Schedule

/-!
# Api.Schedules

`Handler.UpdateSchedule`, the admin's `PATCH` of a schedule.

The handler reads the row, changes the fields of the request in its copy, binds the copy to a rule
version when the request touches the binding, and writes the whole copy back. Each of the three
store calls is one step of an `UpdateCall`.
-/

namespace Aegis

open Option

/-- `UpdateScheduleRequest`; a field that is absent is `none`. -/
structure UpdateScheduleRequest where
  ruleVersion : Option String
  ruleVersionNumber : Option Int
  name : Option String
  expression : Option String
  enabled : Option Bool
  vars : Option JSON
  priority : Option String
  maxRetries : Option Int
  catchup : Option String
  browserProfileID : Option String
  timezone : Option String

/-- `models.Priority(s)`. -/
def Priority.ofString : String → Priority
  | "high" => .high
  | "normal" => .normal
  | "low" => .low
  | name => .other name

/-- `models.CatchupMode(s)`, where it is one of the two modes. -/
def CatchupMode.ofString? : String → Option CatchupMode
  | "skip" => some .skip
  | "run_once" => some .runOnce
  | _ => none

/-- What `writeError` sends. -/
structure ErrorResponse where
  status : Nat
  code : String
  message : String

def ErrorResponse.badRequest (message : String) : ErrorResponse := ⟨400, "BAD_REQUEST", message⟩

def ErrorResponse.updateFailed : ErrorResponse :=
  ⟨500, "INTERNAL_ERROR", "failed to update schedule"⟩

/-- The packages the handler uses, and the verb `%q` of its error texts. -/
structure HandlerConfig where
  env : Env
  zones : Zones
  quote : String → String

namespace UpdateScheduleRequest

variable (cfg : HandlerConfig) (now : Time) (req : UpdateScheduleRequest) (sch : Schedule)

/-- `time.LoadLocation` must know the timezone. -/
def applyTimezone : Except ErrorResponse Schedule :=
  match req.timezone with
  | none => .ok sch
  | some tz =>
    if (cfg.zones tz).isNone then .error (.badRequest "timezone must be a valid IANA timezone")
    else .ok { sch with timezone := tz }

def applyExpression : Except ErrorResponse Schedule :=
  match req.expression with
  | none => .ok sch
  | some expr =>
    match sch.type with
    | .once =>
      match Time.parseRFC3339 expr with
      | none =>
        .error (.badRequest "expression must be a valid RFC3339 timestamp for type once")
      | some t => .ok { sch with expression := expr, nextRunAt := some t }
    | .cron =>
      match parseCron expr with
      | .error e => .error (.badRequest ("invalid cron expression: " ++ e.text cfg.quote))
      | .ok _ =>
        match computeNextRunInLocation cfg.zones expr now sch.timezone with
        | .error e => .error (.badRequest ("failed to compute next run: " ++ e.text cfg.quote))
        | .ok next => .ok { sch with expression := expr, nextRunAt := some next }

def applyCatchup : Except ErrorResponse Schedule :=
  match req.catchup with
  | none => .ok sch
  | some mode =>
    match CatchupMode.ofString? mode with
    | none => .error (.badRequest "catchup must be skip or run_once")
    | some mode => .ok { sch with catchup := mode }

/-- The fields of the request in the copy of the row. -/
def apply : Except ErrorResponse Schedule := do
  let sch := { sch with
    ruleVersion := req.ruleVersion.getD sch.ruleVersion
    ruleVersionNumber := req.ruleVersionNumber.getD sch.ruleVersionNumber }
  let sch ← req.applyTimezone cfg sch
  let sch := { sch with
    browserProfileID := req.browserProfileID.getD sch.browserProfileID
    name := req.name.getD sch.name }
  let sch ← req.applyExpression cfg now sch
  let sch := { sch with
    enabled := req.enabled.getD sch.enabled
    vars := req.vars.getD sch.vars
    priority := (req.priority.map Priority.ofString).getD sch.priority
    maxRetries := req.maxRetries.getD sch.maxRetries }
  req.applyCatchup sch

def rebinds : Bool :=
  req.ruleVersion.isSome || req.ruleVersionNumber.isSome || req.vars.isSome || req.browserProfileID.isSome

/-- A request that names a version does not fall back to an unbound schedule; `inputSchema` is the
one of the row. -/
def strictVersion (inputSchema : JSON) : Bool :=
  req.ruleVersionNumber.isSome || (req.ruleVersion.isSome && inputSchema != "\x7b\x7d")

end UpdateScheduleRequest

def Schedule.binding (sch : Schedule) : Task where
  id := ""
  workspaceID := ""
  ruleID := sch.ruleID
  ruleVersion := sch.ruleVersion
  ruleVersionNumber := sch.ruleVersionNumber
  status := .pending
  priority := .other ""
  vars := sch.vars
  inputSchema := ""
  workerID := none
  leaseUntil := none
  retryCount := 0
  maxRetries := 0
  outputSchema := ""
  sendPolicy := ""
  createdAt := Time.zero
  updatedAt := Time.zero
  scheduledAt := none
  completedAt := none
  errorType := none
  errorMessage := none
  scheduleID := none
  currentAttemptID := none
  browserProfileID := sch.browserProfileID
  cancelRequested := false

def Schedule.bindTo (sch : Schedule) (t : Task) : Schedule :=
  { sch with
    ruleVersion := t.ruleVersion
    ruleVersionNumber := t.ruleVersionNumber
    vars := t.vars
    inputSchema := t.inputSchema
    browserProfileID := t.browserProfileID }

/-- What the handler makes of an error of `BindTaskToRuleVersion`. -/
def bindError (e : StoreError) : ErrorResponse :=
  match e with
  | .ruleVersionNotApproved | .ruleVersionNotFound | .invalidTaskInput _ => .badRequest e.text
  | _ => .updateFailed

inductive UpdateStage where
  | get (id : String)
  | bind (sch : Schedule)
  | write (sch : Schedule)
  | returned (response : Except ErrorResponse Schedule)

def UpdateStage.row : UpdateStage → Option Schedule
  | .write sch => some sch
  | _ => none

structure UpdateCall where
  workspace : WorkspaceID
  request : UpdateScheduleRequest
  stage : UpdateStage

namespace Store

def getScheduleByID (s : Store) (c : Ctx) (id : String) : Except StoreError Schedule :=
  match (s.schedules.find? id).filter fun r => r.workspaceID == c.workspace with
  | none => .error .ruleNotFound
  | some r => .ok r

end Store

namespace UpdateCall

variable (cfg : HandlerConfig) (now : Time) (failed : Bool) (s : Store) (call : UpdateCall)

def ctx : Ctx := ⟨call.workspace, now⟩

def afterGet (sch : Schedule) : UpdateStage :=
  match call.request.apply cfg now sch with
  | .error e => .returned (.error e)
  | .ok sch => if call.request.rebinds then .bind sch else .write { sch with updatedAt := now }

def afterBind (sch : Schedule) : Except StoreError Task → UpdateStage
  | .ok t => .write { sch.bindTo t with updatedAt := now }
  | .error e =>
    if call.request.strictVersion sch.inputSchema || e != .ruleVersionNotApproved then
      .returned (.error (bindError e))
    else .write { sch with updatedAt := now }

/-- The next store call of the handler; one that fails for reasons of the database changes
nothing. -/
def step : Store × UpdateStage :=
  match call.stage with
  | .get id =>
    if failed then (s, .returned (.error .updateFailed))
    else
      match s.getScheduleByID (call.ctx now) id with
      | .error _ => (s, .returned (.error ⟨404, "NOT_FOUND", "schedule not found"⟩))
      | .ok sch => (s, call.afterGet cfg now sch)
  | .bind sch =>
    if failed then (s, .returned (.error .updateFailed))
    else
      (s, call.afterBind now sch
        (s.bindTaskToRuleVersion cfg.env (call.ctx now) sch.binding sch.ruleVersionNumber))
  | .write sch =>
    if failed then (s, .returned (.error .updateFailed))
    else
      match s.updateSchedule (call.ctx now) sch with
      | .error _ => (s, .returned (.error .updateFailed))
      | .ok s' => (s', .returned (.ok sch))
  | .returned response => (s, .returned response)

end UpdateCall

/-! ## What a request sets -/

/-- The fields that the request sets have in `sch` the values of the request; the columns of the
binding have those of `bound`. -/
structure UpdateScheduleRequest.Holds (req : UpdateScheduleRequest) (bound sch : Schedule) : Prop where
  name : ∀ v ∈ req.name, sch.name = v
  timezone : ∀ v ∈ req.timezone, sch.timezone = v
  expression : ∀ v ∈ req.expression, sch.expression = v
  enabled : ∀ v ∈ req.enabled, sch.enabled = v
  priority : ∀ v ∈ req.priority, sch.priority = .ofString v
  maxRetries : ∀ v ∈ req.maxRetries, sch.maxRetries = v
  catchup : ∀ v ∈ req.catchup, CatchupMode.ofString? v = some sch.catchup
  ruleVersionNumber : ∀ v ∈ req.ruleVersionNumber, 0 < v → sch.ruleVersionNumber = v
  binding : req.rebinds = true → sch.binding = bound.binding ∧ sch.inputSchema = bound.inputSchema

/-- The columns that an edit can set, but for `enabled`. -/
def Schedule.settings (sch : Schedule) : Schedule :=
  { sch with
    id := ""
    workspaceID := ""
    enabled := true
    nextRunAt := none
    lastRunAt := none
    createdAt := 0
    updatedAt := 0 }

namespace UpdateScheduleRequest

variable {cfg : HandlerConfig} {now : Time} {req : UpdateScheduleRequest}
  {bound sch sch' r : Schedule}

instance : Decidable (req.Holds bound sch) :=
  decidable_of_iff
    ((∀ v ∈ req.name, sch.name = v) ∧ (∀ v ∈ req.timezone, sch.timezone = v) ∧
      (∀ v ∈ req.expression, sch.expression = v) ∧ (∀ v ∈ req.enabled, sch.enabled = v) ∧
      (∀ v ∈ req.priority, sch.priority = .ofString v) ∧
      (∀ v ∈ req.maxRetries, sch.maxRetries = v) ∧
      (∀ v ∈ req.catchup, CatchupMode.ofString? v = some sch.catchup) ∧
      (∀ v ∈ req.ruleVersionNumber, 0 < v → sch.ruleVersionNumber = v) ∧
      (req.rebinds = true → sch.binding = bound.binding ∧ sch.inputSchema = bound.inputSchema))
    ⟨fun ⟨h₁, h₂, h₃, h₄, h₅, h₆, h₇, h₈, h₉⟩ => ⟨h₁, h₂, h₃, h₄, h₅, h₆, h₇, h₈, h₉⟩,
      fun ⟨h₁, h₂, h₃, h₄, h₅, h₆, h₇, h₈, h₉⟩ => ⟨h₁, h₂, h₃, h₄, h₅, h₆, h₇, h₈, h₉⟩⟩

theorem Holds.of_settings (h : req.Holds bound sch) (he : r.settings = sch.settings)
    (hen : ∀ v ∈ req.enabled, r.enabled = v) : req.Holds bound r := by
  have column {α : Type} (f : Schedule → α) : f r.settings = f sch.settings := congrArg f he
  have hname : r.name = sch.name := column Schedule.name
  have htimezone : r.timezone = sch.timezone := column Schedule.timezone
  have hexpr : r.expression = sch.expression := column Schedule.expression
  have hpriority : r.priority = sch.priority := column Schedule.priority
  have hretries : r.maxRetries = sch.maxRetries := column Schedule.maxRetries
  have hcatchup : r.catchup = sch.catchup := column Schedule.catchup
  have hnumber : r.ruleVersionNumber = sch.ruleVersionNumber :=
    column Schedule.ruleVersionNumber
  have hbinding : r.binding = sch.binding := column Schedule.binding
  have hschema : r.inputSchema = sch.inputSchema := column Schedule.inputSchema
  constructor
  · rw [hname]
    exact h.name
  · rw [htimezone]
    exact h.timezone
  · rw [hexpr]
    exact h.expression
  · exact hen
  · rw [hpriority]
    exact h.priority
  · rw [hretries]
    exact h.maxRetries
  · rw [hcatchup]
    exact h.catchup
  · rw [hnumber]
    exact h.ruleVersionNumber
  · rw [hbinding, hschema]
    exact h.binding

theorem Holds.of_eq (h : req.Holds bound sch) (he : r.settings = sch.settings)
    (hen : r.enabled = sch.enabled) : req.Holds bound r :=
  h.of_settings he (by rw [hen]; exact h.enabled)

theorem Holds.rebase {t : Time} (h : req.Holds sch sch) :
    req.Holds { sch with updatedAt := t } { sch with updatedAt := t } :=
  ⟨h.name, h.timezone, h.expression, h.enabled, h.priority, h.maxRetries, h.catchup,
    h.ruleVersionNumber, fun _ => ⟨rfl, rfl⟩⟩

theorem getD_eq_of_mem {α : Type} {o : Option α} {v a : α} (h : v ∈ o) : o.getD a = v := by
  rw [mem_def.mp h, getD_some]

theorem applyTimezone_eq (h : req.applyTimezone cfg sch = .ok sch') :
    ∃ tz, sch' = { sch with timezone := tz } ∧ ∀ v ∈ req.timezone, tz = v := by
  unfold applyTimezone at h
  split at h
  · rename_i hnone
    cases h
    exact ⟨sch.timezone, rfl, by rw [hnone]; exact nofun⟩
  · rename_i tz hsome
    split at h
    · cases h
    · cases h
      exact ⟨tz, rfl, by rw [hsome]; exact fun v hv => some.inj hv⟩

theorem applyExpression_eq (h : req.applyExpression cfg now sch = .ok sch') :
    ∃ expr next, sch' = { sch with expression := expr, nextRunAt := next } ∧
      ∀ v ∈ req.expression, expr = v := by
  unfold applyExpression at h
  split at h
  · rename_i hnone
    cases h
    exact ⟨sch.expression, sch.nextRunAt, rfl, by rw [hnone]; exact nofun⟩
  · rename_i expr hsome
    have hexpr : ∀ v ∈ req.expression, expr = v := by
      rw [hsome]
      exact fun v hv => some.inj hv
    split at h
    · split at h
      · cases h
      · cases h
        exact ⟨expr, _, rfl, hexpr⟩
    · split at h
      · cases h
      · split at h
        · cases h
        · cases h
          exact ⟨expr, _, rfl, hexpr⟩

theorem applyCatchup_eq (h : req.applyCatchup sch = .ok sch') :
    ∃ mode, sch' = { sch with catchup := mode } ∧
      ∀ v ∈ req.catchup, CatchupMode.ofString? v = some mode := by
  unfold applyCatchup at h
  split at h
  · rename_i hnone
    cases h
    exact ⟨sch.catchup, rfl, by rw [hnone]; exact nofun⟩
  · rename_i text hsome
    split at h
    · cases h
    · rename_i mode hmode
      cases h
      refine ⟨mode, rfl, ?_⟩
      rw [hsome]
      exact fun v hv => by rw [← some.inj hv, hmode]

theorem apply_holds (h : req.apply cfg now sch = .ok sch') : req.Holds sch' sch' ∧ sch'.id = sch.id := by
  unfold apply at h
  simp only [bind, Except.bind] at h
  split at h
  · cases h
  · rename_i sch₁ h₁
    split at h
    · cases h
    · rename_i sch₂ h₂
      obtain ⟨tz, rfl, htz⟩ := applyTimezone_eq h₁
      obtain ⟨expr, next, rfl, hexpr⟩ := applyExpression_eq h₂
      obtain ⟨mode, rfl, hmode⟩ := applyCatchup_eq h
      refine ⟨⟨fun v hv => ?_, htz, hexpr, fun v hv => ?_, fun v hv => ?_, fun v hv => ?_, hmode,
        fun v hv _ => ?_, fun _ => ⟨rfl, rfl⟩⟩, rfl⟩
      · exact getD_eq_of_mem hv
      · exact getD_eq_of_mem hv
      · exact getD_eq_of_mem (Option.mem_map_of_mem _ hv)
      all_goals exact getD_eq_of_mem hv

end UpdateScheduleRequest

namespace UpdateCall

variable {cfg : HandlerConfig} {now : Time} {failed : Bool} {s s' : Store} {call : UpdateCall}
  {sch : Schedule}

/-- The row that the handler has in hand holds what the request sets. -/
def Sound (req : UpdateScheduleRequest) : UpdateStage → Prop
  | .bind sch | .write sch => req.Holds sch sch
  | _ => True

theorem bindTask_number {t u : Task} {env : Env} {c : Ctx} {n : Int}
    (h : s.bindTaskToRuleVersion env c t n = .ok u) (hn : 0 < n) : u.ruleVersionNumber = n := by
  have hrequested : s.requestedOrLatest c t n = .ok n := by
    unfold Store.requestedOrLatest
    rw [if_neg (by omega)]
  simp only [Store.bindTaskToRuleVersion, bind_eq_ok, require_eq_ok, hrequested] at h
  obtain ⟨-, -, version, hversion, h⟩ := h
  cases hversion
  split at h
  · cases h
  · simp only [bind_eq_ok, pure_eq_ok] at h
    obtain ⟨-, -, -, -, -, -, rfl⟩ := h
    rfl

theorem afterGet_sound : Sound call.request (call.afterGet cfg now sch) := by
  unfold afterGet
  split
  · trivial
  · rename_i sch' happly
    obtain ⟨hholds, -⟩ := UpdateScheduleRequest.apply_holds happly
    split
    · exact hholds
    · exact hholds.rebase

theorem afterBind_sound {c : Ctx} (h : call.request.Holds sch sch) :
    Sound call.request (call.afterBind now sch
      (s.bindTaskToRuleVersion cfg.env c sch.binding sch.ruleVersionNumber)) := by
  cases hbind : s.bindTaskToRuleVersion cfg.env c sch.binding sch.ruleVersionNumber with
  | ok t =>
    refine ⟨h.name, h.timezone, h.expression, h.enabled, h.priority, h.maxRetries, h.catchup,
      fun v hv hpos => ?_, fun _ => ⟨rfl, rfl⟩⟩
    have hnumber := h.ruleVersionNumber v hv hpos
    exact (bindTask_number hbind (by omega)).trans hnumber
  | error e =>
    unfold afterBind
    dsimp only
    split
    · trivial
    · exact h.rebase

theorem step_sound (h : Sound call.request call.stage) :
    Sound call.request (call.step cfg now failed s).2 := by
  unfold step
  split
  · split
    · trivial
    · split
      · trivial
      · exact afterGet_sound
  · split
    · trivial
    · rename_i sch hstage _
      rw [hstage] at h
      exact afterBind_sound h
  · split
    · trivial
    · split <;> trivial
  · trivial

variable (cfg now failed s call) in
theorem step_cases :
    (call.step cfg now failed s).1 = s ∧
        (∀ sch, (call.step cfg now failed s).2 = .returned (.ok sch) → call.stage.row = none) ∨
      failed = false ∧ ∃ sch s', call.stage = .write sch ∧ s.updateSchedule (call.ctx now) sch = .ok s' ∧
        call.step cfg now failed s = (s', .returned (.ok sch)) := by
  unfold step
  split <;> rename_i hstage
  · refine .inl ?_
    split
    · exact ⟨rfl, fun sch h => by cases h⟩
    · split
      · exact ⟨rfl, fun sch h => by cases h⟩
      · refine ⟨rfl, fun sch h => ?_⟩
        unfold afterGet at h
        split at h
        · cases h
        · split at h <;> cases h
  · refine .inl ?_
    split
    · exact ⟨rfl, fun sch h => by cases h⟩
    · refine ⟨rfl, fun sch h => ?_⟩
      unfold afterBind at h
      split at h
      · cases h
      · split at h <;> cases h
  · split
    · exact .inl ⟨rfl, fun sch h => by cases h⟩
    · rename_i sch hfailed
      cases hupdate : s.updateSchedule (call.ctx now) sch with
      | error e => exact .inl ⟨rfl, fun sch h => by cases h⟩
      | ok s' => exact .inr ⟨by simpa using hfailed, sch, s', hstage, hupdate, rfl⟩
  · exact .inl ⟨rfl, fun sch _ => by rw [hstage]; rfl⟩

end UpdateCall

end Aegis
