import Mathlib.Data.List.Basic

/-!
# Worker.HttpTransport

The requests of a versioned attempt, of `worker/HttpTransport.ts`, one call after another.

A computation is the requests it makes and how it ends. A request is made with its repetitions: what
answers them is given, one reply for each. A payload is its JSON text.
-/

namespace Aegis

namespace Worker

inductive Kind where
  | batch | summary
deriving DecidableEq

/-- What is submitted to `/results`. -/
structure Envelope where
  sequence : Nat
  kind : Kind
  immediate : Bool
  payload : String
deriving DecidableEq

inductive Request where
  | results (envelope : Envelope)
  | status (status message : String)
  | logs (level message : String)

structure ResultSubmissionAck where
  success : Bool
  valid : Bool

/-- How an attempt at a request ends. The acknowledgement is there when the text of the response is
one. -/
inductive Reply where
  | ok (ack : Option ResultSubmissionAck)
  | status (code : Nat)
  | network
  | aborted

inductive Thrown where
  | abort
  | http (status : Nat)
  | error
deriving DecidableEq

def Thrown.retryable : Thrown → Bool
  | .abort => false
  | .http status => decide (500 ≤ status)
  | .error => true

abbrev Replies := Nat → Reply

def Reply.unsignalled : Reply → Reply
  | .aborted => .network
  | reply => reply

def unsignalled (replies : Replies) : Replies := fun n => (replies n).unsignalled

def maxAttempts : Nat := 3

/-- At most so many attempts more, from attempt `n` on. -/
def attempts {α : Type} (post : Reply → Except Thrown α) (replies : Replies) : Nat → Nat → Except Thrown α
  | 0, _ => .error .error
  | left + 1, n =>
    match post (replies n) with
    | .ok a => .ok a
    | .error e => if e.retryable && left ≠ 0 then attempts post replies left (n + 1) else .error e

structure Sends (α : Type) where
  requests : List Request
  result : Except Thrown α

namespace Sends

variable {α β : Type}

def bind (x : Sends α) (f : α → Sends β) : Sends β :=
  match x.result with
  | .ok a => ⟨x.requests ++ (f a).requests, (f a).result⟩
  | .error e => ⟨x.requests, .error e⟩

instance : Monad Sends where
  pure a := ⟨[], .ok a⟩
  bind := bind

def throw (e : Thrown) : Sends α := ⟨[], .error e⟩

/-- `x`, and `f` when it throws. -/
def handle (x : Sends α) (f : Thrown → Sends α) : Sends α :=
  match x.result with
  | .ok a => ⟨x.requests, .ok a⟩
  | .error e => ⟨x.requests ++ (f e).requests, (f e).result⟩

variable {x : Sends α} {f : α → Sends β} {g : Thrown → Sends α} {a : α} {e : Thrown}

@[simp] theorem pure_requests : (pure a : Sends α).requests = [] := rfl

@[simp] theorem pure_result : (pure a : Sends α).result = .ok a := rfl

@[simp] theorem throw_requests : (throw e : Sends α).requests = [] := rfl

@[simp] theorem throw_result : (throw e : Sends α).result = .error e := rfl

theorem bind_of_ok (h : x.result = .ok a) : x >>= f = ⟨x.requests ++ (f a).requests, (f a).result⟩ := by
  show Sends.bind x f = _
  simp only [Sends.bind, h]

theorem bind_of_error (h : x.result = .error e) : x >>= f = ⟨x.requests, .error e⟩ := by
  show Sends.bind x f = _
  simp only [Sends.bind, h]

theorem handle_of_ok (h : x.result = .ok a) : x.handle g = ⟨x.requests, .ok a⟩ := by
  simp only [handle, h]

theorem handle_of_error (h : x.result = .error e) :
    x.handle g = ⟨x.requests ++ (g e).requests, (g e).result⟩ := by
  simp only [handle, h]

end Sends

def post : Reply → Except Thrown Unit
  | .ok _ => .ok ()
  | .status code => .error (.http code)
  | .network => .error .error
  | .aborted => .error .abort

/-- The body of the loop of `postResultWithRetry`. -/
def postResult : Reply → Except Thrown ResultSubmissionAck
  | .ok (some ack) => .ok ack
  | .ok none => .error .error
  | .status code => .error (.http code)
  | .network => .error .error
  | .aborted => .error .abort

def sendWithRetry (request : Request) (replies : Replies) : Sends Unit :=
  ⟨[request], attempts post replies maxAttempts 0⟩

def postResultWithRetry (envelope : Envelope) (replies : Replies) : Sends ResultSubmissionAck :=
  ⟨[.results envelope], attempts postResult replies maxAttempts 0⟩

/-- `postWithRetry`: no error is passed on. What it puts in the buffer and sends again later is left
out: no terminal status of an attempt is among it. -/
def postWithRetry (request : Request) (replies : Replies) : Sends Unit :=
  (sendWithRetry request replies).handle fun _ => pure ()

structure ResultSubmissionState where
  nextSequence : Nat
  pending : Option Envelope

def ResultSubmissionState.envelopeFor (state : ResultSubmissionState) (kind : Kind)
    (payload : String) (immediate : Bool) : Option Envelope :=
  match state.pending with
  | some pending =>
    if pending.kind = kind && pending.payload = payload && pending.immediate = immediate then
      some pending
    else none
  | none => some ⟨state.nextSequence + 1, kind, immediate, payload⟩

/-- `sendVersionedResult`, of the last submission of an attempt: what becomes of the state is left
out. -/
def sendVersionedResult (state : ResultSubmissionState) (kind : Kind) (payload : String)
    (immediate : Bool) (replies : Replies) : Sends Unit :=
  match state.envelopeFor kind payload immediate with
  | none => .throw .error
  | some envelope => do
    let ack ← postResultWithRetry envelope replies
    if ack.success && ack.valid then pure () else .throw (.http 422)

def sendFinalSummary (state : ResultSubmissionState) (payload : String) (replies : Replies) : Sends Unit :=
  sendVersionedResult state .summary payload true replies

def isEngineStatus (status : String) : Bool := ["success", "failure", "cancelled"].contains status

def isTerminal (status : String) : Bool :=
  ["done", "failed", "cancelled", "dead_letter"].contains status

/-- `sendStatus`, of a transport with an attempt. -/
def sendStatus (status message : String) (replies : Replies) : Sends Unit :=
  if isEngineStatus status then pure ()
  else if isTerminal status then sendWithRetry (.status status message) replies
  else postWithRetry (.status status message) replies

def sendLog (level message : String) (replies : Replies) : Sends Unit :=
  postWithRetry (.logs level message) replies

def terminals (requests : List Request) : List String :=
  requests.filterMap fun
    | .status status _ => if isTerminal status then some status else none
    | _ => none

section

variable {status message level payload : String} {replies : Replies} {state : ResultSubmissionState}
  {kind : Kind} {immediate : Bool} {left right : List Request}

@[simp] theorem terminals_append : terminals (left ++ right) = terminals left ++ terminals right :=
  List.filterMap_append

@[simp] theorem terminals_nil : terminals [] = [] := rfl

theorem attempts_ne_abort {α : Type} {f : Reply → Except Thrown α} {left n : Nat}
    (hf : ∀ n, f (replies n) ≠ .error .abort) : attempts f replies left n ≠ .error .abort := by
  induction left generalizing n with
  | zero => exact fun h => Thrown.noConfusion (Except.error.inj h)
  | succ left ih =>
    rw [attempts]
    split
    · exact nofun
    · rename_i e he
      split
      · exact ih
      · exact he ▸ hf n

theorem post_unsignalled {n : Nat} : post (unsignalled replies n) ≠ .error .abort := by
  rw [unsignalled]
  cases replies n with
  | ok ack | status code | network | aborted => exact nofun

theorem postResult_unsignalled {n : Nat} : postResult (unsignalled replies n) ≠ .error .abort := by
  rw [unsignalled]
  cases replies n with
  | ok ack =>
    cases ack with
    | none | some ack => exact nofun
  | status code | network | aborted => exact nofun

theorem postWithRetry_result {request : Request} : (postWithRetry request replies).result = .ok () := by
  rw [postWithRetry, Sends.handle]
  split
  · rfl
  · rfl

theorem postWithRetry_requests {request : Request} :
    (postWithRetry request replies).requests = [request] := by
  rw [postWithRetry, Sends.handle]
  split
  · rfl
  · rfl

@[simp] theorem sendLog_result : (sendLog level message replies).result = .ok () :=
  postWithRetry_result

@[simp] theorem terminals_sendLog : terminals (sendLog level message replies).requests = [] := by
  rw [sendLog, postWithRetry_requests]
  rfl

@[simp] theorem terminals_sendVersionedResult :
    terminals (sendVersionedResult state kind payload immediate replies).requests = [] := by
  rw [sendVersionedResult]
  split
  · rfl
  · rename_i envelope _
    cases hack : (postResultWithRetry envelope replies).result with
    | error e =>
      rw [Sends.bind_of_error hack]
      rfl
    | ok ack =>
      rw [Sends.bind_of_ok hack]
      split <;> rfl

theorem sendVersionedResult_ne_abort :
    (sendVersionedResult state kind payload immediate (unsignalled replies)).result ≠ .error .abort := by
  rw [sendVersionedResult]
  split
  · exact nofun
  · rename_i envelope _
    cases hack : (postResultWithRetry envelope (unsignalled replies)).result with
    | error e =>
      rw [Sends.bind_of_error hack]
      rintro heq
      cases heq
      exact attempts_ne_abort (fun n => postResult_unsignalled) hack
    | ok ack =>
      rw [Sends.bind_of_ok hack]
      split <;> exact nofun

theorem terminals_sendStatus : terminals (sendStatus status message replies).requests =
    if isTerminal status && !isEngineStatus status then [status] else [] := by
  rw [sendStatus]
  split
  · rename_i h
    rw [h, Bool.not_true, Bool.and_false]
    rfl
  · rename_i h
    rw [Bool.not_eq_true] at h
    rw [h, Bool.not_false, Bool.and_true]
    split
    · rename_i hterminal
      simp [sendWithRetry, terminals, hterminal]
    · rename_i hterminal
      simp [postWithRetry_requests, terminals, hterminal]

end

end Worker

end Aegis
