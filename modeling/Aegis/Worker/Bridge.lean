import Aegis.Engine.StepPath
import Aegis.Lib.Run
import Aegis.Requirements.Spec
import Mathlib.Algebra.GroupWithZero.Nat
import Mathlib.Algebra.Order.Ring.Rat

/-!
# Worker.Bridge

The channel from the page to the worker: `worker-host/bridge-protocol.ts`, `bridgeHandler` of
`worker-host/page-driver.ts`, and `comparePath` on what the page sends.
-/

namespace Aegis

open List

namespace Bridge

abbrev Value := Json ℚ

abbrev Fields := List (String × Value)

def maxBridgePayloadBytes : Nat := 1024 * 1024

def maxBridgeString : Nat := 64 * 1024

/-- `length`. -/
def utf16Length (text : List Char) : Nat :=
  (text.map fun c => if c.toNat < 0x10000 then 1 else 2).sum

def utf8Length (text : List Char) : Nat := (text.map Char.utf8Size).sum

inductive BridgeError where
  | unknownMethod (method : Value)
  /-- A `BridgeValidationError` with this text. -/
  | invalid (message : String)
  /-- A `TypeError` of `comparePath`. -/
  | thrown

abbrev Checked := Except BridgeError

def fail {α : Type} (field problem : String) : Checked α :=
  .error (.invalid (field ++ " " ++ problem))

def requireString (value : Option Value) (field : String) (nonEmpty : Bool) : Checked String :=
  match value with
  | some (.str s) =>
    if nonEmpty && s == "" then fail field "must be a non-empty string"
    else if maxBridgeString < utf16Length s.toList then fail field "exceeds the string budget"
    else .ok s
  | _ => fail field "must be a string"

/-- `undefined` for what is not there or `null`. -/
def optional {α : Type} (check : Option Value → Checked α) : Option Value → Checked (Option α)
  | none | some .null => .ok none
  | value => some <$> check value

def optionalString (value : Option Value) (field : String) : Checked (Option String) :=
  optional (requireString · field false) value

def requireRecord (value : Option Value) (field : String) : Checked Fields :=
  match value with
  | some (.obj fields) => .ok fields
  | _ => fail field "must be an object"

def isNumber : Option Value → Bool
  | some (.num _) => true
  | _ => false

def field (v : Value) (key : String) : Option Value :=
  match v with
  | .obj fields => fields.lookup key
  | _ => none

def textField (f : Value) (key : String) : Option String :=
  match field f key with
  | some (.str s) => some s
  | _ => none

def requireStepPath (value : Option Value) (name : String) : Checked (List Value) :=
  match value with
  | some (.arr frames) =>
    if frames.all fun f => (textField f "kind").isSome && isNumber (field f "childIdx") then
      .ok frames
    else fail name "contains a malformed frame"
  | _ => fail name "must be an array"

structure CheckpointContext where
  taskId : String
  lastCompletedStepPath : List Value
  extracted : Fields
  evaluated : Fields
  captured : Fields

inductive Call where
  | sendResult (payload : Option Value) (immediate : Bool)
  | sendLog (level message : String) (extra : Option Fields)
  | sendStatus (status : String) (message : Option String)
  | sendSnapshot (name type data : String)
  | sendHeartbeat (payload : Option Fields)
  | requestHuman (type prompt : String) (timeoutMs : ℚ) (stepId url : String)
  | checkpointContext (context : CheckpointContext)
  | complete (status : String) (message : Option String)
      (error : Option (Option String × Option String)) (partialData : Option Value)

def validateSendResult (raw : Option Value) : Checked Call := do
  let p ← requireRecord raw "sendResult payload"
  pure (.sendResult (p.lookup "payload") (match p.lookup "immediate" with
    | some (.bool b) => b
    | _ => false))

def validateSendLog (raw : Option Value) : Checked Call := do
  let p ← requireRecord raw "sendLog payload"
  let level ← requireString (p.lookup "level") "sendLog.level" true
  let message ← requireString (p.lookup "message") "sendLog.message" false
  let extra ← optional (requireRecord · "sendLog.extra") (p.lookup "extra")
  pure (.sendLog level message extra)

def validateSendStatus (raw : Option Value) : Checked Call := do
  let p ← requireRecord raw "sendStatus payload"
  let status ← requireString (p.lookup "status") "sendStatus.status" true
  let message ← optionalString (p.lookup "message") "sendStatus.message"
  pure (.sendStatus status message)

/-- The text, when it is one of `allowed`. -/
def requireOneOf (value : Option Value) (allowed : List String) (name problem : String) : Checked String :=
  match value with
  | some (.str s) => if allowed.contains s then .ok s else fail name problem
  | _ => fail name problem

def validateSendSnapshot (raw : Option Value) : Checked Call := do
  let p ← requireRecord raw "sendSnapshot payload"
  let name ← requireString (p.lookup "name") "sendSnapshot.name" true
  let type ← requireOneOf (p.lookup "type") ["html", "dom", "screenshot"] "sendSnapshot.type"
    "must be html, dom, or screenshot"
  let data ← requireString (p.lookup "data") "sendSnapshot.data" false
  pure (.sendSnapshot name type data)

def validateSendHeartbeat (raw : Option Value) : Checked Call := do
  let p ← optional (requireRecord · "sendHeartbeat payload") raw
  let inner ← optional (requireRecord · "sendHeartbeat.payload") ((p.getD []).lookup "payload")
  pure (.sendHeartbeat inner)

def requirePositive (value : Option Value) (name : String) : Checked ℚ :=
  match value with
  | some (.num n) => if 0 < n then .ok n else fail name "must be a positive number"
  | _ => fail name "must be a positive number"

def validateRequestHuman (raw : Option Value) : Checked Call := do
  let p ← requireRecord raw "requestHuman payload"
  let type ← requireOneOf (p.lookup "type") ["captcha", "2fa", "confirmation", "generic"]
    "requestHuman.type" "is not a supported intervention type"
  let prompt ← requireString (p.lookup "prompt") "requestHuman.prompt" true
  let timeoutMs ← requirePositive (p.lookup "timeoutMs") "requestHuman.timeoutMs"
  let checkpoint ← requireRecord (p.lookup "checkpoint") "requestHuman.checkpoint"
  let stepId ← requireString (checkpoint.lookup "stepId") "requestHuman.checkpoint.stepId" true
  let url ← requireString (checkpoint.lookup "url") "requestHuman.checkpoint.url" true
  pure (.requestHuman type prompt timeoutMs stepId url)

def validateCheckpointContext (raw : Option Value) : Checked Call := do
  let p ← requireRecord raw "checkpointContext payload"
  let taskId ← requireString (p.lookup "taskId") "checkpointContext.taskId" true
  let path ← requireStepPath (p.lookup "lastCompletedStepPath")
    "checkpointContext.lastCompletedStepPath"
  let context := fun name => (·.getD []) <$>
    optional (requireRecord · ("checkpointContext." ++ name)) (p.lookup name)
  let extracted ← context "extracted"
  let evaluated ← context "evaluated"
  let captured ← context "captured"
  pure (.checkpointContext ⟨taskId, path, extracted, evaluated, captured⟩)

def validateComplete (raw : Option Value) : Checked Call := do
  let p ← requireRecord raw "complete payload"
  let status ← requireOneOf (p.lookup "status") ["success", "failure", "cancelled"]
    "complete.status" "must be success, failure, or cancelled"
  let error ← optional (fun value => do
    let e ← requireRecord value "complete.error"
    let type ← optionalString (e.lookup "type") "complete.error.type"
    let message ← optionalString (e.lookup "message") "complete.error.message"
    pure (type, message)) (p.lookup "error")
  let message ← optionalString (p.lookup "message") "complete.message"
  pure (.complete status message error (p.lookup "partialData"))

def validator : String → Option (Option Value → Checked Call)
  | "sendResult" => some validateSendResult
  | "sendLog" => some validateSendLog
  | "sendStatus" => some validateSendStatus
  | "sendSnapshot" => some validateSendSnapshot
  | "sendHeartbeat" => some validateSendHeartbeat
  | "requestHuman" => some validateRequestHuman
  | "checkpointContext" => some validateCheckpointContext
  | "complete" => some validateComplete
  | _ => none

/-- What the page hands over; `none` is `undefined`. -/
structure BridgeCall where
  method : Value
  rawPayload : Option Value

structure Driver where
  taskId : String
  /-- `transport.requestHuman` is a function. -/
  requestsHuman : Bool
  /-- The text of a number. -/
  number : ℚ → List Char
  /-- `a < b` of values that are not both numbers; `none` if it throws. -/
  less : Option Value → Option Value → Option Bool

variable (d : Driver)

/-- `JSON.stringify(rawPayload)`. -/
def text (c : BridgeCall) : List Char :=
  match c.rawPayload with
  | some v => Requirements.stringify d.number v
  | none => []

def validateBridgeCall (c : BridgeCall) : Checked Call :=
  match c.method with
  | .str method => match validator method with
    | some validate =>
      if maxBridgePayloadBytes < utf16Length (text d c) then
        fail "bridge payload" "exceeds the 1048576-byte budget"
      else validate c.rawPayload
    | none => .error (.unknownMethod c.method)
  | _ => .error (.unknownMethod c.method)

/-- `undefined` for a frame of another kind. -/
def frameTuple (f : Value) : Option (List (Option Value)) :=
  let number := fun n : ℚ => some (Json.num n)
  match textField f "kind" with
  | some "top" => some [number 0, field f "childIdx"]
  | some "if" =>
    some [number 1, number (if textField f "branch" = some "then" then 0 else 1),
      field f "childIdx"]
  | some "loop" => some [number 2, field f "iter", field f "childIdx"]
  | some "switch" => some [number 3, field f "caseIdx", field f "childIdx"]
  | some "group" => some [number 4, field f "childIdx"]
  | _ => none

def less (a b : Option Value) : Option Bool :=
  match a, b with
  | some (.num a), some (.num b) => some (decide (a < b))
  | a, b => d.less a b

/-- Up to the first difference; `none` if a comparison throws. -/
def compareAll {α : Type} (cmp : α → α → Option Ordering) : List α → List α → Option Ordering
  | [], [] => some .eq
  | [], _ :: _ => some .lt
  | _ :: _, [] => some .gt
  | a :: l, b :: m => (cmp a b).bind fun o => if o = .eq then compareAll cmp l m else some o

def compareValues (a b : Option Value) : Option Ordering := do
  if ← less d a b then return .lt
  if ← less d b a then return .gt
  return .eq

def compareFrame (a b : Value) : Option Ordering := do
  compareAll (compareValues d) (← frameTuple a) (← frameTuple b)

def comparePath (a b : List Value) : Option Ordering := compareAll (compareFrame d) a b

def increment (key : String) : Value → Value
  | .num n => if key = "childIdx" then .num (n + 1) else .num n
  | v => v

/-- `{ ...last, childIdx: last.childIdx + 1 }`, of an index that is a number. -/
def advance : Value → Value
  | .obj fields => .obj (fields.map fun (key, v) => (key, increment key v))
  | v => v

def nextPendingPath (prev : List Value) : List Value :=
  match prev.getLast? with
  | none => [.obj [("kind", .str "top"), ("childIdx", .num 0)]]
  | some last => prev.dropLast ++ [advance last]

structure State where
  settled : Bool
  checkpoint : Option CheckpointContext

/-- `bridgeHandler`, up to what the transport answers. -/
def bridgeHandler (s : State) (c : BridgeCall) : Checked Call × State :=
  match validateBridgeCall d c with
  | .error e => (.error e, s)
  | .ok (.complete status message error partialData) =>
    (.ok (.complete status message error partialData), { s with settled := true })
  | .ok call =>
    if s.settled then (.error (.invalid "run already finished"), s)
    else match call with
      | .requestHuman .. =>
        if d.requestsHuman then (.ok call, s)
        else (.error (.invalid "human interventions are unavailable for this task"), s)
      | .checkpointContext p =>
        if p.taskId ≠ d.taskId then (.error (.invalid "checkpoint task mismatch"), s)
        else match s.checkpoint with
          | none => (.ok call, { s with checkpoint := some p })
          | some stored =>
            match comparePath d p.lastCompletedStepPath stored.lastCompletedStepPath with
            | none => (.error .thrown, s)
            | some .lt => (.ok call, s)
            | some _ => (.ok call, { s with checkpoint := some p })
      | _ => (.ok call, s)

def step (s : State) (c : BridgeCall) : State := (bridgeHandler d s c).2

/-- A frame of the type `StepPathFrame`: its kind is known, and it has the fields of its kind. -/
def isFrame (f : Value) : Bool :=
  (frameTuple f).any (·.all isNumber) &&
    (textField f "kind" != some "if" || textField f "branch" == some "then" ||
      textField f "branch" == some "else")

def isStepPath (path : List Value) : Bool := path.all isFrame

def fits (c : BridgeCall) : Bool := utf8Length (text d c) ≤ maxBridgePayloadBytes

def wellFormed (c : BridgeCall) : Bool :=
  match validateBridgeCall d c with
  | .error _ => false
  | .ok (.checkpointContext p) => fits d c && isStepPath p.lastCompletedStepPath
  | .ok _ => fits d c

/-- The stored checkpoint is one that the engine can go on from and compare with. -/
def Ready (s : State) : Prop :=
  ∀ p, s.checkpoint = some p → isStepPath p.lastCompletedStepPath ∧
    isStepPath (nextPendingPath p.lastCompletedStepPath) ∧
    ∀ path, isStepPath path → (comparePath d path p.lastCompletedStepPath).isSome ∧
      (comparePath d p.lastCompletedStepPath path).isSome

/-- `p` is not ordered before the stored checkpoint. -/
def NotBefore (s : State) (p : CheckpointContext) : Prop :=
  ∀ stored, s.checkpoint = some stored → ∃ o, o ≠ .lt ∧
    comparePath d p.lastCompletedStepPath stored.lastCompletedStepPath = some o

/-- Frames fit, the driver stays ready, and no checkpoint goes back. -/
structure Unwedged (s : State) (calls : List BridgeCall) : Prop where
  bytes : ∀ c ∈ calls, ∀ call, validateBridgeCall d c = .ok call → fits d c
  ready : Always (step d) (Ready d) s calls
  newest : Meets (step d) (fun s c => (step d s c).checkpoint = s.checkpoint ∨
    ∃ p, (step d s c).checkpoint = some p ∧ NotBefore d s p) s calls
  spared : ∀ before after, calls = before ++ after →
    run (step d) s before = run (step d) s (before.filter (wellFormed d))

/-- No checkpoint is taken with a frame of another kind or without a field of its kind, and what is
accepted has at most so many bytes. -/
def Shielded (s : State) (c : BridgeCall) : Prop :=
  (∀ p, validateBridgeCall d c = .ok (.checkpointContext p) → s.settled = false →
      p.taskId = d.taskId → NotBefore d s p → isStepPath p.lastCompletedStepPath) ∧
    ∀ call, validateBridgeCall d c = .ok call → fits d c

variable {d} {s : State} {c : BridgeCall} {calls : List BridgeCall}

theorem isNumber_iff {v : Option Value} : isNumber v ↔ ∃ n, v = some (.num n) := by
  rcases v with _ | v
  · simp [isNumber]
  · cases v <;> simp [isNumber]

theorem compareAll_isSome {α : Type} {cmp : α → α → Option Ordering} {l m : List α}
    (h : ∀ a ∈ l, ∀ b ∈ m, (cmp a b).isSome) : (compareAll cmp l m).isSome := by
  induction l generalizing m with
  | nil => cases m <;> rfl
  | cons a l ih =>
    cases m with
    | nil => rfl
    | cons b m =>
      obtain ⟨o, ho⟩ := Option.isSome_iff_exists.mp (h a mem_cons_self b mem_cons_self)
      rw [compareAll, ho, Option.bind_some]
      split
      · exact ih fun x hx y hy => h x (mem_cons_of_mem _ hx) y (mem_cons_of_mem _ hy)
      · rfl

theorem compareFrame_isSome {a b : Value} (ha : isFrame a) (hb : isFrame b) :
    (compareFrame d a b).isSome := by
  simp only [isFrame, Bool.and_eq_true, Option.any_eq_true] at ha hb
  obtain ⟨⟨ta, hta, hna⟩, -⟩ := ha
  obtain ⟨⟨tb, htb, hnb⟩, -⟩ := hb
  simp only [compareFrame, hta, htb, bind, Option.bind_some]
  refine compareAll_isSome fun v hv w hw => ?_
  obtain ⟨n, rfl⟩ := isNumber_iff.mp (all_eq_true.mp hna v hv)
  obtain ⟨m, rfl⟩ := isNumber_iff.mp (all_eq_true.mp hnb w hw)
  simp only [compareValues, less, bind, Option.bind_some]
  split
  · rfl
  · split <;> rfl

theorem comparePath_isSome {p q : List Value} (hp : isStepPath p)
    (hq : isStepPath q) : (comparePath d p q).isSome :=
  compareAll_isSome fun a ha b hb =>
    compareFrame_isSome (all_eq_true.mp hp a ha) (all_eq_true.mp hq b hb)

theorem field_advance (f : Value) (key : String) :
    field (advance f) key = (field f key).map (increment key) := by
  cases f with
  | obj fields =>
    simp only [field, advance]
    induction fields with
    | nil => rfl
    | cons x rest ih =>
      rw [map_cons, lookup_cons, lookup_cons, ih]
      cases hx : key == x.1 with
      | true => rw [eq_of_beq hx]; rfl
      | false => rfl
  | _ => rfl

theorem isNumber_advance (f : Value) (key : String) :
    isNumber (field (advance f) key) = isNumber (field f key) := by
  rw [field_advance]
  rcases field f key with _ | v
  · rfl
  · cases v with
    | num n => rw [Option.map_some, increment]; split <;> rfl
    | _ => rfl

theorem textField_advance (f : Value) (key : String) : textField (advance f) key = textField f key := by
  rw [textField, textField, field_advance]
  rcases field f key with _ | v
  · rfl
  · cases v with
    | num n => by_cases hkey : key = "childIdx" <;> simp [increment, hkey]
    | _ => rfl

/-- A frame as the engine sends it. -/
def frameValue : StepPathFrame → Value
  | .top i => .obj [("kind", .str "top"), ("childIdx", .num i)]
  | .inIf branch i => .obj [("kind", .str "if"),
      ("branch", .str (if branch = .thenSteps then "then" else "else")), ("childIdx", .num i)]
  | .inLoop iter i => .obj [("kind", .str "loop"), ("iter", .num iter), ("childIdx", .num i)]
  | .inSwitch caseIdx i =>
    .obj [("kind", .str "switch"), ("caseIdx", .num caseIdx), ("childIdx", .num i)]
  | .inGroup i => .obj [("kind", .str "group"), ("childIdx", .num i)]

theorem frameTuple_frameValue (f : StepPathFrame) :
    frameTuple (frameValue f) = some (f.tuple.map fun n => some (.num n)) := by
  cases f with
  | inIf branch i => cases branch <;> rfl
  | _ => rfl

theorem isStepPath_frameValue (p : StepPath) : isStepPath (p.map frameValue) := by
  refine all_eq_true.mpr fun v hv => ?_
  obtain ⟨f, -, rfl⟩ := List.mem_map.mp hv
  cases f with
  | inIf branch i => cases branch <;> rfl
  | _ => rfl

theorem compareAll_map {α β : Type} {cmp : α → α → Option Ordering} {order : β → β → Ordering}
    {f : β → α} (h : ∀ a b, cmp (f a) (f b) = some (order a b)) (l m : List β) :
    compareAll cmp (l.map f) (m.map f) = some (compareLists order l m) := by
  induction l generalizing m with
  | nil => cases m <;> rfl
  | cons a l ih =>
    cases m with
    | nil => rfl
    | cons b m =>
      rw [map_cons, map_cons, compareAll, h, Option.bind_some, compareLists, ih]
      cases order a b <;> rfl

/-- What the engine sends is compared as the engine compares it. -/
theorem comparePath_frameValue (p q : StepPath) :
    comparePath d (p.map frameValue) (q.map frameValue) = some (Aegis.comparePath p q) := by
  have hnumber : ∀ a b : Int, compareValues d (some (.num a)) (some (.num b)) =
      some (compareNumbers a b) := fun a b => by
    simp only [compareValues, less, Rat.intCast_lt_intCast, compareNumbers]
    by_cases hab : a < b
    · simp [hab]
    · by_cases hba : b < a <;> simp [hab, hba]
  refine compareAll_map (fun a b => ?_) p q
  rw [compareFrame, frameTuple_frameValue, frameTuple_frameValue]
  exact compareAll_map hnumber a.tuple b.tuple

theorem nextPendingPath_frameValue (p : StepPath) :
    nextPendingPath (p.map frameValue) = (Aegis.nextPendingPath p).map frameValue := by
  have hframe : ∀ f : StepPathFrame,
      advance (frameValue f) = frameValue (f.withChildIdx (f.childIdx + 1)) := fun f => by
    cases f <;> simp [advance, frameValue, increment, StepPathFrame.withChildIdx,
      StepPathFrame.childIdx]
  rw [nextPendingPath, Aegis.nextPendingPath, getLast?_map]
  cases hlast : p.getLast? with
  | none => simp [frameValue]
  | some last => simp [hframe, map_dropLast]

theorem isFrame_advance (f : Value) : isFrame (advance f) = isFrame f := by
  simp only [isFrame, frameTuple, textField_advance]
  split <;> simp [isNumber_advance]

theorem isStepPath_nextPendingPath {p : List Value} (h : isStepPath p) :
    isStepPath (nextPendingPath p) := by
  rw [nextPendingPath]
  cases hlast : p.getLast? with
  | none =>
    exact (by decide : isStepPath [.obj [("kind", .str "top"), ("childIdx", .num 0)]] = true)
  | some last =>
    have hmem := fun f hf => all_eq_true.mp h f hf
    simp only [isStepPath, all_append, all_cons, all_nil, Bool.and_true, Bool.and_eq_true]
    exact ⟨all_eq_true.mpr fun f hf => hmem f (mem_of_mem_dropLast hf),
      (isFrame_advance last).trans (hmem last (mem_of_getLast? hlast))⟩

theorem ready_iff : Ready d s ↔ ∀ p, s.checkpoint = some p → isStepPath p.lastCompletedStepPath = true := by
  refine ⟨fun h p hp => (h p hp).1, fun h p hp => ?_⟩
  have hpath := h p hp
  exact ⟨hpath, isStepPath_nextPendingPath hpath, fun path hother =>
    ⟨comparePath_isSome hother hpath, comparePath_isSome hpath hother⟩⟩

/-- What a call changes: it ends the run, or its checkpoint is taken. -/
theorem step_cases (d : Driver) (s : State) (c : BridgeCall) : step d s c = s ∨
    (∃ status message error partialData, validateBridgeCall d c =
      .ok (.complete status message error partialData) ∧ step d s c = { s with settled := true }) ∨
    ∃ p, validateBridgeCall d c = .ok (.checkpointContext p) ∧ s.settled = false ∧
      p.taskId = d.taskId ∧ NotBefore d s p ∧ step d s c = { s with checkpoint := some p } := by
  rw [step, bridgeHandler]
  split
  · exact .inl rfl
  · rename_i hcall
    exact .inr (.inl ⟨_, _, _, _, hcall, rfl⟩)
  · rename_i call hcomplete hcall
    split
    · exact .inl rfl
    · rename_i hsettled
      split
      · split <;> exact .inl rfl
      · rename_i p
        split
        · exact .inl rfl
        · rename_i htask
          have htaken := fun h : NotBefore d s p => (⟨p, hcall, by simpa using hsettled,
            not_not.mp htask, h, rfl⟩ : ∃ p', validateBridgeCall d c = .ok (.checkpointContext p') ∧
              s.settled = false ∧ p'.taskId = d.taskId ∧ NotBefore d s p' ∧
              { s with checkpoint := some p } = { s with checkpoint := some p' })
          split
          · rename_i hnone
            exact .inr (.inr (htaken fun stored h => by rw [hnone] at h; cases h))
          · rename_i stored hstored
            split
            · exact .inl rfl
            · exact .inl rfl
            · rename_i o hlt ho
              refine .inr (.inr (htaken fun other h => ?_))
              rw [hstored] at h
              cases h
              exact ⟨o, hlt, ho⟩
      · exact .inl rfl

theorem step_of_malformed (h : Shielded d s c) (hc : wellFormed d c = false) : step d s c = s := by
  rcases step_cases d s c with hs | ⟨_, _, _, _, hcall, -⟩ | ⟨p, hcall, hsettled, htask, hnot, -⟩
  · exact hs
  · simp [wellFormed, hcall, h.2 _ hcall] at hc
  · simp [wellFormed, hcall, h.2 _ hcall, h.1 p hcall hsettled htask hnot] at hc

/-- Under the condition only the well-formed calls count. -/
theorem run_filter (h : Meets (step d) (Shielded d) s calls) :
    run (step d) s calls = run (step d) s (calls.filter (wellFormed d)) := by
  induction calls generalizing s with
  | nil => rfl
  | cons c calls ih =>
    rw [run_cons, ih h.2]
    cases hc : wellFormed d c with
    | true => rw [filter_cons_of_pos hc, run_cons]
    | false => rw [filter_cons_of_neg (by simp [hc]), step_of_malformed h.1 hc]

/-- A shielded call leaves the driver ready. -/
theorem ready_step (hready : Ready d s) (h : Shielded d s c) : Ready d (step d s c) := by
  rw [ready_iff] at hready ⊢
  rcases step_cases d s c with hs | ⟨_, _, _, _, -, hs⟩ | ⟨p, hcall, hsettled, htask, hnot, hs⟩ <;>
    rw [hs]
  · exact hready
  · exact hready
  · rintro _ ⟨⟩
    exact h.1 p hcall hsettled htask hnot

theorem step_of_notBefore {p : CheckpointContext}
    (hcall : validateBridgeCall d c = .ok (.checkpointContext p)) (hsettled : s.settled = false)
    (htask : p.taskId = d.taskId) (hnot : NotBefore d s p) :
    step d s c = { s with checkpoint := some p } := by
  simp only [step, bridgeHandler, hcall, hsettled, htask, Bool.false_eq_true, if_false, ne_eq, not_true]
  cases hstored : s.checkpoint with
  | none => rfl
  | some stored =>
    obtain ⟨o, ho, heq⟩ := hnot stored hstored
    cases o with
    | lt => exact absurd rfl ho
    | eq | gt => simp only [heq]

theorem fits_of_meets (h : Meets (step d) (Shielded d) s calls) :
    ∀ c ∈ calls, ∀ call, validateBridgeCall d c = .ok call → fits d c := by
  induction calls generalizing s with
  | nil => exact fun c hc => absurd hc not_mem_nil
  | cons c calls ih => exact forall_mem_cons.mpr ⟨h.1.2, ih h.2⟩

theorem meets_of_append {before after : List BridgeCall}
    (h : Meets (step d) (Shielded d) s (before ++ after)) :
    Meets (step d) (Shielded d) s before := by
  induction before generalizing s with
  | nil => trivial
  | cons c before ih => exact ⟨h.1, ih h.2⟩

/-- The page cannot wedge the driver in exactly the runs that are shielded throughout. -/
theorem unwedged_iff (d : Driver) (settled : Bool) (calls : List BridgeCall) :
    Unwedged d ⟨settled, none⟩ calls ↔ Meets (step d) (Shielded d) ⟨settled, none⟩ calls := by
  constructor
  · intro h
    refine (h.ready.meets fun s c hs p hcall hsettled htask hnot => ?_).and (meets_of_forall h.bytes)
    rw [step_of_notBefore hcall hsettled htask hnot] at hs
    exact (hs p rfl).1
  · intro h
    refine ⟨fits_of_meets h, h.always nofun fun s c => ready_step, ?_,
      fun before after heq => run_filter (meets_of_append (heq ▸ h))⟩
    refine h.within (I := fun _ => True) trivial (fun _ _ _ _ => trivial) fun s c _ _ => ?_
    rcases step_cases d s c with hs | ⟨_, _, _, _, -, hs⟩ | ⟨p, -, -, -, hnot, hs⟩ <;> rw [hs]
    · exact .inl rfl
    · exact .inl rfl
    · exact .inr ⟨p, rfl, hnot⟩

/-- The frame of an unknown kind is stored, and nothing compares with it. -/
theorem stored_malformed : ¬ Unwedged ⟨"t", false, fun _ => ['0'], fun _ _ => some false⟩
    ⟨false, none⟩ [⟨.str "checkpointContext", some (.obj [("lastCompletedStepPath",
      .arr [.obj [("childIdx", .num 0), ("kind", .str "x")]]), ("taskId", .str "t")])⟩] := by
  rw [unwedged_iff]
  intro h
  have hpath := h.1.1 _ rfl rfl rfl nofun
  exact absurd hpath (by decide)

end Bridge

end Aegis
