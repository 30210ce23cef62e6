import Aegis.Lib.Run
import Aegis.Lib.Table
import Aegis.Models

/-!
# Api.Idempotency

`IdempotencyMiddleware` of `api/idempotency_middleware.go` over the table of
`store/idempotency.go`, under any number of requests in one process.

A request takes the mutex of its (workspace, key, digest), looks its key up, runs its handler on a
miss, and caches the response of a handler that succeeds. The steps of different requests
interleave. A request without a key goes straight to its handler.

* `OneMutation` — what the key promises.
* `Undisputed`  — a request misses only while every handler started under its key had its body, and
  hits only what its own route has answered.
-/

namespace Aegis

open List Option Table

/-- `DefaultIdempotencyTTL`: 24 hours, in nanoseconds. -/
def defaultIdempotencyTTL : Duration := 24 * 60 * 60 * 1000000000

/-- A row of `idempotency_keys`. -/
structure IdempotencyEntry where
  workspaceID : WorkspaceID
  key : String
  requestHash : String
  responseStatus : Nat
  responseBody : List UInt8
  expiresAt : Time

def IdempotencyEntry.pk (e : IdempotencyEntry) : WorkspaceID × String := (e.workspaceID, e.key)

inductive IdempotencyLookup where
  | entry (e : IdempotencyEntry)
  | conflict
  | miss

abbrev IdempotencyKeys := Table IdempotencyEntry.pk

namespace IdempotencyKeys

/-- `GetIdempotency`: an expired entry is a miss. -/
def getIdempotency (t : IdempotencyKeys) (now : Time) (workspaceID : WorkspaceID)
    (key requestHash : String) : IdempotencyLookup :=
  match t.find? (workspaceID, key) with
  | none => .miss
  | some e =>
    if e.expiresAt ≤ now then .miss
    else if e.requestHash != requestHash then .conflict
    else .entry e

/-- `PutIdempotency`: `INSERT ... ON CONFLICT(workspace_id, key) DO UPDATE`. -/
def putIdempotency (t : IdempotencyKeys) (e : IdempotencyEntry) : IdempotencyKeys :=
  match t.insert? e with
  | some u => u
  | none => t.updateRow e.pk ⟨fun q => { e with workspaceID := q.workspaceID, key := q.key },
      fun _ => rfl⟩

theorem wrote_putIdempotency (t : IdempotencyKeys) (e : IdempotencyEntry) :
    Wrote t (t.putIdempotency e) e := by
  unfold putIdempotency
  cases h : t.insert? e with
  | some u => exact wrote_insert? h
  | none =>
    cases hfind : t.find? e.pk with
    | none =>
      obtain ⟨u, hu⟩ := exists_insert? hfind
      rw [hu] at h
      cases h
    | some q =>
      have hkey : q.workspaceID = e.workspaceID ∧ q.key = e.key := by
        simpa [IdempotencyEntry.pk] using key_of_find? hfind
      intro k
      rw [find?_updateRow]
      by_cases hk : k = e.pk
      · subst hk
        rw [if_pos rfl, if_pos rfl, hfind]
        simp [hkey]
      · rw [if_neg hk, if_neg (Ne.symm hk)]

end IdempotencyKeys

structure IdempotentRequest where
  route : String
  workspaceID : WorkspaceID
  key : String
  body : List UInt8
deriving DecidableEq

inductive IdempotentAnswer where
  | ran (code : Nat) (body : List UInt8)
  | replayed (code : Nat) (body : List UInt8)
  | conflict
deriving DecidableEq

/-- Where a request stands. From `locked` to `handled` it holds its mutex. -/
inductive RequestPhase where
  | arrived
  | locked
  | running
  | handled (code : Nat) (body : List UInt8)
  | answered (a : IdempotentAnswer)
deriving DecidableEq

namespace RequestPhase

def holdsMutex : RequestPhase → Bool
  | .locked | .running | .handled .. => true
  | _ => false

def started : RequestPhase → Bool
  | .running | .handled .. | .answered (.ran ..) => true
  | _ => false

end RequestPhase

/-- `rec.Code >= 200 && rec.Code < 300`. -/
def succeeds (code : Nat) : Bool := 200 ≤ code && code < 300

def RequestPhase.succeeded : RequestPhase → Bool
  | .handled code _ | .answered (.ran code _) => succeeds code
  | _ => false

structure IdempotentCall where
  request : IdempotentRequest
  phase : RequestPhase
deriving DecidableEq

/-- The process: its requests, in the order of their arrival, and the cache. -/
structure IdempotentServer where
  calls : List IdempotentCall
  rows : IdempotencyKeys

inductive IdempotentEvent where
  | arrive (r : IdempotentRequest)
  | lock (n : Nat)
  | lookup (n : Nat) (now : Time)
  | handle (n : Nat) (code : Nat) (body : List UInt8)
  | put (n : Nat) (now : Time)

namespace IdempotentServer

def init : IdempotentServer := ⟨[], .empty⟩

section Steps

variable (sha256Hex : List UInt8 → String) (ttl : Duration) (s : IdempotentServer)

/-- `workspaceID + "\x00" + key + "\x00" + requestHash`. -/
def mutexKey (r : IdempotentRequest) : String :=
  r.workspaceID ++ "\x00" ++ r.key ++ "\x00" ++ sha256Hex r.body

/-- The row that caches the response of the request `r`. -/
def entryOf (now : Time) (r : IdempotentRequest) (code : Nat) (body : List UInt8) : IdempotencyEntry where
  workspaceID := r.workspaceID
  key := r.key
  requestHash := sha256Hex r.body
  responseStatus := code
  responseBody := body
  expiresAt := now + ttl

def setPhase (n : Nat) (c : IdempotentCall) (phase : RequestPhase) : IdempotentServer :=
  { s with calls := s.calls.set n { c with phase } }

/-- The request `n` takes its mutex, if no other holds it. -/
def lock (n : Nat) (c : IdempotentCall) : IdempotentServer :=
  if c.phase = .arrived ∧ c.request.key ≠ "" ∧ ∀ d ∈ s.calls, d.phase.holdsMutex = true →
        mutexKey sha256Hex d.request ≠ mutexKey sha256Hex c.request then
    s.setPhase n c .locked
  else s

/-- The request `n` looks its key up. -/
def lookup (n : Nat) (now : Time) (c : IdempotentCall) : IdempotentServer :=
  if c.phase = .locked then
    match s.rows.getIdempotency now c.request.workspaceID c.request.key
        (sha256Hex c.request.body) with
    | .conflict => s.setPhase n c (.answered .conflict)
    | .entry e => s.setPhase n c (.answered (.replayed e.responseStatus e.responseBody))
    | .miss => s.setPhase n c .running
  else s

/-- The handler of the request `n` returns. -/
def handle (n code : Nat) (body : List UInt8) (c : IdempotentCall) : IdempotentServer :=
  if c.phase = .running then s.setPhase n c (.handled code body)
  else if c.phase = .arrived ∧ c.request.key = "" then s.setPhase n c (.answered (.ran code body))
  else s

/-- The request `n` caches the response of its handler, if it is a success, and releases its
mutex. -/
def put (n : Nat) (now : Time) (c : IdempotentCall) : IdempotentServer :=
  match c.phase with
  | .handled code body =>
    let s' := s.setPhase n c (.answered (.ran code body))
    if succeeds code then
      { s' with rows := s.rows.putIdempotency (entryOf sha256Hex ttl now c.request code body) }
    else s'
  | _ => s

def step : IdempotentEvent → IdempotentServer
  | .arrive r => { s with calls := s.calls ++ [⟨r, .arrived⟩] }
  | .lock n => (s.calls[n]?).elim s (s.lock sha256Hex n)
  | .lookup n now => (s.calls[n]?).elim s (s.lookup sha256Hex n now)
  | .handle n code body => (s.calls[n]?).elim s (s.handle n code body)
  | .put n now => (s.calls[n]?).elim s (s.put sha256Hex ttl n now)

end Steps

/-- Both calls name one key of one workspace. -/
def SameKey (c d : IdempotentCall) : Prop :=
  c.request.key ≠ "" ∧ d.request.workspaceID = c.request.workspaceID ∧ d.request.key = c.request.key

/-- At most one handler under a key succeeds, a request with another body is answered 409, and a
cached response goes to the route that gave it. -/
structure OneMutation (s : IdempotentServer) : Prop where
  once : ∀ (m n : Nat) c d, s.calls[m]? = some c → s.calls[n]? = some d → SameKey c d →
    c.phase.succeeded = true → d.phase.succeeded = true → m = n
  refused : ∀ c ∈ s.calls, ∀ d ∈ s.calls, ∀ a, SameKey c d → d.phase.succeeded = true →
    c.request.body ≠ d.request.body → c.phase = .answered a → a = .conflict
  sameRoute : ∀ c ∈ s.calls, ∀ code body, c.phase = .answered (.replayed code body) →
    ∃ d ∈ s.calls, SameKey c d ∧ d.request.route = c.request.route ∧ d.phase = .answered (.ran code body)

section Runs

variable (sha256Hex : List UInt8 → String)

def Unexpired (s : IdempotentServer) : IdempotentEvent → Prop
  | .lookup n now => ∀ c ∈ s.calls[n]?,
      ∀ e ∈ s.rows.find? (c.request.workspaceID, c.request.key), now < e.expiresAt
  | _ => True

/-- The handlers started under the key of `c` had its body. -/
def AloneOnMiss (s : IdempotentServer) (c : IdempotentCall) : Prop :=
  ∀ d ∈ s.calls, SameKey c d ∧ d.phase.started = true → d.request.body = c.request.body

/-- The handler that succeeded under the key of `c`, with its digest, had its body and route. -/
def AloneOnHit (s : IdempotentServer) (c : IdempotentCall) : Prop :=
  ∀ d ∈ s.calls, SameKey c d ∧ d.phase.succeeded = true ∧
      sha256Hex d.request.body = sha256Hex c.request.body →
    d.request.body = c.request.body ∧ d.request.route = c.request.route

/-- A lookup that misses meets no handler of another body under its key, and one that hits meets
only the success of a handler of its body and route. -/
def Undisputed (s : IdempotentServer) : IdempotentEvent → Prop
  | .lookup n _ => ∀ c ∈ s.calls[n]?, c.phase = .locked →
      if (s.rows.find? (c.request.workspaceID, c.request.key)).isNone then AloneOnMiss s c
      else AloneOnHit sha256Hex s c
  | _ => True

instance (c d : IdempotentCall) : Decidable (SameKey c d) :=
  inferInstanceAs (Decidable (_ ∧ _ ∧ _))

instance (s : IdempotentServer) : ∀ e, Decidable (Unexpired s e)
  | .lookup n now => inferInstanceAs (Decidable (∀ c ∈ s.calls[n]?,
      ∀ e ∈ s.rows.find? (c.request.workspaceID, c.request.key), now < e.expiresAt))
  | .arrive _ | .lock _ | .handle .. | .put .. => .isTrue trivial

instance (s : IdempotentServer) (c : IdempotentCall) : Decidable (AloneOnMiss s c) :=
  List.decidableBAll ..

instance (s : IdempotentServer) (c : IdempotentCall) : Decidable (AloneOnHit sha256Hex s c) :=
  List.decidableBAll ..

instance (s : IdempotentServer) : ∀ e, Decidable (Undisputed sha256Hex s e)
  | .lookup n _ => inferInstanceAs (Decidable (∀ c ∈ s.calls[n]?, c.phase = .locked →
      if (s.rows.find? (c.request.workspaceID, c.request.key)).isNone then AloneOnMiss s c
      else AloneOnHit sha256Hex s c))
  | .arrive _ | .lock _ | .handle .. | .put .. => .isTrue trivial

/-! ## The invariant -/

/-- What two calls of a key may have done side by side. -/
structure Compatible (c d : IdempotentCall) : Prop where
  mutex : c.phase.holdsMutex = true → d.phase.holdsMutex = true →
    mutexKey sha256Hex c.request ≠ mutexKey sha256Hex d.request
  bodies : SameKey c d → c.phase.started = true → d.phase.started = true → c.request.body = d.request.body
  once : SameKey c d → c.phase.succeeded = true → d.phase.succeeded = false

/-- How a call stands to the stored rows. -/
structure Placed (rows : IdempotencyKeys) (c : IdempotentCall) : Prop where
  cached : c.request.key ≠ "" → ∀ code body, c.phase = .answered (.ran code body) →
    succeeds code = true → (rows.find? (c.request.workspaceID, c.request.key)).isSome = true
  idle : c.request.key ≠ "" → c.phase.started = true → c.phase.holdsMutex = true →
    rows.find? (c.request.workspaceID, c.request.key) = none
  keyed : c.phase.holdsMutex = true → c.request.key ≠ ""

/-- The call `c` has left the row `e`. -/
structure Left (e : IdempotencyEntry) (c : IdempotentCall) : Prop where
  key : c.request.key ≠ "" ∧ c.request.workspaceID = e.workspaceID ∧ c.request.key = e.key
  hash : e.requestHash = sha256Hex c.request.body
  phase : c.phase = .answered (.ran e.responseStatus e.responseBody)
  success : succeeds e.responseStatus = true

/-- The call `c` has got the response of `d`. -/
structure Repeats (code : Nat) (body : List UInt8) (c d : IdempotentCall) : Prop where
  key : SameKey c d
  same : d.request.body = c.request.body ∧ d.request.route = c.request.route
  phase : d.phase = .answered (.ran code body)
  success : succeeds code = true

/-- The invariant: any two calls are compatible, and each row was left by a call. -/
structure Sound (s : IdempotentServer) : Prop where
  pairs : ∀ (m n : Nat) c d, s.calls[m]? = some c → s.calls[n]? = some d → m ≠ n → Compatible sha256Hex c d
  placed : ∀ c ∈ s.calls, Placed s.rows c
  left : ∀ e, s.rows.find? e.pk = some e → ∃ c ∈ s.calls, Left sha256Hex e c
  repeats : ∀ c ∈ s.calls, ∀ code body, c.phase = .answered (.replayed code body) →
    ∃ d ∈ s.calls, Repeats code body c d

variable {sha256Hex} {s : IdempotentServer} {c d : IdempotentCall} {n : Nat}

theorem SameKey.symm (h : SameKey c d) : SameKey d c :=
  ⟨h.2.2 ▸ h.1, h.2.1.symm, h.2.2.symm⟩

theorem Compatible.symm (h : Compatible sha256Hex c d) : Compatible sha256Hex d c where
  mutex hd hc := Ne.symm (h.mutex hc hd)
  bodies hk hd hc := (h.bodies hk.symm hc hd).symm
  once hk hd := by
    by_contra hc
    have := h.once hk.symm (by simpa using hc)
    rw [this] at hd
    cases hd

theorem mem_set_of_ne {l : List IdempotentCall} {d' : IdempotentCall} (hc : l[n]? = some c)
    (hd : d ∈ l) (hne : d ≠ c) : d ∈ l.set n d' := by
  obtain ⟨m, hm⟩ := mem_iff_getElem?.mp hd
  refine mem_iff_getElem?.mpr ⟨m, ?_⟩
  have hmn : n ≠ m := by
    rintro rfl
    exact hne (mem_unique hm hc)
  rw [getElem?_set_ne hmn, hm]

namespace Sound

theorem init : Sound sha256Hex init where
  pairs m n c d hc := by cases hc
  placed c hc := by cases hc
  left e he := by cases he
  repeats c hc := by cases hc

theorem mem (hc : s.calls[n]? = some c) : c ∈ s.calls := mem_iff_getElem?.mpr ⟨n, hc⟩

variable {c' : IdempotentCall} {rows : IdempotencyKeys}

theorem advance (h : Sound sha256Hex s) (hc : s.calls[n]? = some c) (hopen : ∀ a, c.phase ≠ .answered a)
    (hpairs : ∀ m d, m ≠ n → s.calls[m]? = some d → Compatible sha256Hex d c')
    (hplaced : Placed rows c') (hothers : ∀ m d, m ≠ n → s.calls[m]? = some d → Placed rows d)
    (hleft : ∀ e, rows.find? e.pk = some e → s.rows.find? e.pk = some e ∨ Left sha256Hex e c')
    (hrepeats : ∀ code body, c'.phase = .answered (.replayed code body) →
      ∃ d ∈ s.calls, Repeats code body c' d) :
    Sound sha256Hex ⟨s.calls.set n c', rows⟩ := by
  have hlen : n < s.calls.length := (List.getElem?_eq_some_iff.mp hc).1
  have hself : (s.calls.set n c')[n]? = some c' := by
    rw [getElem?_set_self hlen]
  have hkept : ∀ d ∈ s.calls, ∀ code body, d.phase = .answered (.ran code body) → d ∈ s.calls.set n c' := by
    intro d hd code body hphase
    refine mem_set_of_ne hc hd ?_
    rintro rfl
    exact hopen _ hphase
  have hat : ∀ (m : Nat) d, (s.calls.set n c')[m]? = some d →
      (m = n ∧ d = c') ∨ (m ≠ n ∧ s.calls[m]? = some d) := by
    intro m d hd
    by_cases hm : m = n
    · subst hm
      exact .inl ⟨rfl, (mem_unique hself hd).symm⟩
    · rw [getElem?_set_ne (Ne.symm hm)] at hd
      exact .inr ⟨hm, hd⟩
  refine ⟨fun m k a b ha hb hne => ?_, fun d hd => ?_, fun e he => ?_, fun a ha code body hphase => ?_⟩
  · obtain ⟨hm, rfl⟩ | ⟨hm, haold⟩ := hat m a ha
    · obtain ⟨hk, -⟩ | ⟨hk, hbold⟩ := hat k b hb
      · exact absurd (hm.trans hk.symm) hne
      · exact (hpairs k b hk hbold).symm
    · obtain ⟨-, rfl⟩ | ⟨hk, hbold⟩ := hat k b hb
      · exact hpairs m a hm haold
      · exact h.pairs m k a b haold hbold hne
  · obtain ⟨m, hm⟩ := mem_iff_getElem?.mp hd
    obtain ⟨-, rfl⟩ | ⟨hmn, hm⟩ := hat m d hm
    · exact hplaced
    · exact hothers m d hmn hm
  · rcases hleft e he with hold | hnew
    · obtain ⟨d, hd, hl⟩ := h.left e hold
      exact ⟨d, hkept d hd _ _ hl.phase, hl⟩
    · exact ⟨c', mem hself, hnew⟩
  · obtain ⟨m, hm⟩ := mem_iff_getElem?.mp ha
    obtain ⟨d, hd, hr⟩ : ∃ d ∈ s.calls, Repeats code body a d := by
      obtain ⟨-, rfl⟩ | ⟨-, hm⟩ := hat m a hm
      · exact hrepeats code body hphase
      · exact h.repeats a (mem hm) code body hphase
    exact ⟨d, hkept d hd _ _ hr.phase, hr⟩

theorem compatible_of_idle (hholds : c'.phase.holdsMutex = false)
    (hstarted : c'.phase.started = false) (hsucceeded : c'.phase.succeeded = false) :
    Compatible sha256Hex d c' where
  mutex _ hh := by rw [hholds] at hh; cases hh
  bodies _ _ hs := by rw [hstarted] at hs; cases hs
  once _ _ := hsucceeded

theorem placed_of_idle (hholds : c'.phase.holdsMutex = false) (hstarted : c'.phase.started = false) :
    Placed rows c' where
  cached _ code body hp := by rw [hp] at hstarted; cases hstarted
  idle _ hs := by rw [hstarted] at hs; cases hs
  keyed hh := by rw [hholds] at hh; cases hh

theorem arrive (h : Sound sha256Hex s) (r : IdempotentRequest) :
    Sound sha256Hex ⟨s.calls ++ [⟨r, .arrived⟩], s.rows⟩ := by
  have hat : ∀ (m : Nat) d, (s.calls ++ [(⟨r, .arrived⟩ : IdempotentCall)])[m]? = some d →
      d = ⟨r, .arrived⟩ ∨ s.calls[m]? = some d := by
    intro m d hd
    rcases mem_append.mp (mem_iff_getElem?.mpr ⟨m, hd⟩) with hmem | hnew
    · by_cases hm : m < s.calls.length
      · rw [getElem?_append_left hm] at hd
        exact .inr hd
      · rw [getElem?_append_right (by omega)] at hd
        exact .inl (mem_singleton.mp (mem_iff_getElem?.mpr ⟨_, hd⟩))
    · exact .inl (mem_singleton.mp hnew)
  have hfresh : ∀ d, Compatible sha256Hex d ⟨r, .arrived⟩ := fun d =>
    compatible_of_idle rfl rfl rfl
  refine ⟨fun m k a b ha hb hne => ?_, fun d hd => ?_, fun e he => ?_, fun a ha code body hphase => ?_⟩
  · rcases hat m a ha with rfl | ha'
    · exact (hfresh b).symm
    · rcases hat k b hb with rfl | hb'
      · exact hfresh a
      · exact h.pairs m k a b ha' hb' hne
  · rcases mem_append.mp hd with hold | hnew
    · exact h.placed d hold
    · obtain rfl := mem_singleton.mp hnew
      exact placed_of_idle rfl rfl
  · obtain ⟨c, hc, hl⟩ := h.left e he
    exact ⟨c, mem_append_left _ hc, hl⟩
  · rcases mem_append.mp ha with hold | hnew
    · obtain ⟨d, hd, hr⟩ := h.repeats a hold code body hphase
      exact ⟨d, mem_append_left _ hd, hr⟩
    · obtain rfl := mem_singleton.mp hnew
      cases hphase

theorem lock (h : Sound sha256Hex s) (hc : s.calls[n]? = some c) :
    Sound sha256Hex (s.lock sha256Hex n c) := by
  unfold IdempotentServer.lock
  split
  · rename_i hcond
    obtain ⟨harrived, hkey, hfree⟩ := hcond
    refine h.advance hc (by simp [harrived]) (fun m d hm hd => ?_) ?_
      (fun m d _ hd => h.placed d (mem hd)) (fun e he => .inl he) nofun
    · exact ⟨fun hholds _ => hfree d (mem hd) hholds, fun _ _ hs => absurd hs (by simp
        [RequestPhase.started]), fun _ _ => rfl⟩
    · exact ⟨fun _ _ _ hp => absurd hp (by simp), fun _ hs => absurd hs (by simp
        [RequestPhase.started]), fun _ => hkey⟩
  · exact h

theorem lookup (h : Sound sha256Hex s) (hc : s.calls[n]? = some c) {now : Time}
    (hexpiry : Unexpired s (.lookup n now)) (hcond : Undisputed sha256Hex s (.lookup n now)) :
    Sound sha256Hex (s.lookup sha256Hex n now c) := by
  unfold IdempotentServer.lookup
  split
  · rename_i hlocked
    have hopen : ∀ a, c.phase ≠ .answered a := by simp [hlocked]
    have hholds : c.phase.holdsMutex := by rw [hlocked]; rfl
    have hkey := (h.placed c (mem hc)).keyed hholds
    have hrows := fun (m : Nat) d (_ : m ≠ n) (hd : s.calls[m]? = some d) => h.placed d (mem hd)
    have hdisputed := hcond c hc hlocked
    unfold IdempotencyKeys.getIdempotency
    cases hrow : s.rows.find? (c.request.workspaceID, c.request.key) with
    | none =>
      rw [hrow, isNone_none, if_pos rfl] at hdisputed
      refine h.advance hc hopen (fun m d hm hd => ?_) ?_ hrows (fun e he => .inl he)
        nofun
      · refine ⟨fun hd' _ => (h.pairs m n d c hd hc hm).mutex hd' hholds, fun hk hs _ => ?_,
          fun _ _ => rfl⟩
        exact hdisputed d (mem hd) ⟨hk.symm, hs⟩
      · exact ⟨fun _ _ _ hp => absurd hp (by simp), fun _ _ _ => hrow, fun _ => hkey⟩
    | some e =>
      rw [hrow, isNone_some, if_neg (by simp)] at hdisputed
      have hlive : ¬ e.expiresAt ≤ now := by
        have hlt : now < e.expiresAt := hexpiry c hc e hrow
        exact Int.not_le.mpr hlt
      have hpk := key_of_find? hrow
      simp only [IdempotencyEntry.pk, Prod.mk.injEq] at hpk
      by_cases hhash : e.requestHash = sha256Hex c.request.body
      · simp only [hlive, if_false, hhash, bne_self_eq_false, Bool.false_eq_true]
        refine h.advance hc hopen (fun m d hm hd => compatible_of_idle rfl rfl rfl)
          (placed_of_idle rfl rfl) hrows
          (fun e he => .inl he) (fun code body hp => ?_)
        obtain ⟨rfl, rfl⟩ : e.responseStatus = code ∧ e.responseBody = body := by
          simpa using hp
        obtain ⟨d, hd, hl⟩ := h.left e (find?_self hrow)
        have hsame : SameKey c d := ⟨hkey, hl.key.2.1.trans hpk.1, hl.key.2.2.trans hpk.2⟩
        have hsucceeded : d.phase.succeeded := by rw [hl.phase]; exact hl.success
        exact ⟨d, hd, hsame, hdisputed d hd ⟨hsame, hsucceeded,
          hl.hash.symm.trans hhash⟩, hl.phase, hl.success⟩
      · simp only [hlive, if_false, bne_iff_ne, ne_eq, hhash, not_false_eq_true, if_true]
        exact h.advance hc hopen (fun m d hm hd => compatible_of_idle rfl rfl rfl)
          (placed_of_idle rfl rfl) hrows
          (fun e he => .inl he) nofun
  · exact h

theorem mutexKey_eq (hk : SameKey c d) (hbody : c.request.body = d.request.body) :
    mutexKey sha256Hex c.request = mutexKey sha256Hex d.request := by
  rw [mutexKey, mutexKey, hk.2.1, hk.2.2, hbody]

theorem not_succeeded (h : Sound sha256Hex s) (hc : s.calls[n]? = some c)
    (hstarted : c.phase.started) (hholds : c.phase.holdsMutex) {m : Nat}
    (hm : m ≠ n) (hd : s.calls[m]? = some d) (hk : SameKey d c) : d.phase.succeeded = false := by
  have hpair := h.pairs m n d c hd hc hm
  have hrow := (h.placed c (mem hc)).idle hk.symm.1 hstarted hholds
  cases hphase : d.phase with
  | handled code body =>
    have hbody := hpair.bodies hk (by rw [hphase]; rfl) hstarted
    exact absurd (mutexKey_eq hk hbody) (hpair.mutex (by rw [hphase]; rfl) hholds)
  | answered a =>
    cases a with
    | ran code body =>
      cases hcode : succeeds code with
      | false => exact hcode
      | true =>
        have hcached := (h.placed d (mem hd)).cached hk.1 code body hphase hcode
        rw [← hk.2.1, ← hk.2.2, hrow] at hcached
        cases hcached
    | _ => rfl
  | _ => rfl

theorem handle (h : Sound sha256Hex s) (hc : s.calls[n]? = some c) (code : Nat)
    (body : List UInt8) : Sound sha256Hex (s.handle n code body c) := by
  have hrows := fun (m : Nat) d (_ : m ≠ n) (hd : s.calls[m]? = some d) => h.placed d (mem hd)
  unfold IdempotentServer.handle
  split
  · rename_i hrunning
    have hholds : c.phase.holdsMutex := by rw [hrunning]; rfl
    have hstarted : c.phase.started := by rw [hrunning]; rfl
    refine h.advance hc (by simp [hrunning]) (fun m d hm hd => ?_) ?_ hrows (fun e he => .inl he)
      nofun
    · have hpair := h.pairs m n d c hd hc hm
      refine ⟨fun hd' _ => hpair.mutex hd' hholds, fun hk hs _ => hpair.bodies hk hs hstarted,
        fun hk hs => ?_⟩
      rw [h.not_succeeded hc hstarted hholds hm hd hk] at hs
      cases hs
    · have hplaced := h.placed c (mem hc)
      exact ⟨fun _ _ _ hp => absurd hp (by simp), fun hk _ _ => hplaced.idle hk hstarted hholds,
        fun _ => hplaced.keyed hholds⟩
  · split
    · rename_i hcond
      obtain ⟨harrived, hkey⟩ := hcond
      refine h.advance hc (by simp [harrived]) (fun m d hm hd => ?_) ?_ hrows (fun e he => .inl he)
        nofun
      · exact ⟨fun _ hh => absurd hh (by simp [RequestPhase.holdsMutex]),
          fun hk => absurd hkey hk.symm.1, fun hk => absurd hkey hk.symm.1⟩
      · exact ⟨fun hk => absurd hkey hk, fun hk => absurd hkey hk,
          fun hh => absurd hh (by simp [RequestPhase.holdsMutex])⟩
    · exact h

theorem put (h : Sound sha256Hex s) (hc : s.calls[n]? = some c) (ttl : Duration) (now : Time) :
    Sound sha256Hex (s.put sha256Hex ttl n now c) := by
  unfold IdempotentServer.put
  split
  · rename_i code body hhandled
    have hholds : c.phase.holdsMutex := by rw [hhandled]; rfl
    have hstarted : c.phase.started := by rw [hhandled]; rfl
    have hkey := (h.placed c (mem hc)).keyed hholds
    have hopen : ∀ a, c.phase ≠ .answered a := by simp [hhandled]
    have hpairs : ∀ (m : Nat) d, m ≠ n → s.calls[m]? = some d →
        Compatible sha256Hex d ⟨c.request, .answered (.ran code body)⟩ := by
      intro m d hm hd
      have hpair := h.pairs m n d c hd hc hm
      refine ⟨fun _ hh => absurd hh (by simp [RequestPhase.holdsMutex]),
        fun hk hs _ => hpair.bodies hk hs hstarted, fun hk hs => ?_⟩
      rw [h.not_succeeded hc hstarted hholds hm hd hk] at hs
      cases hs
    dsimp only
    split
    · rename_i hcode
      have hwrote := IdempotencyKeys.wrote_putIdempotency s.rows
        (entryOf sha256Hex ttl now c.request code body)
      refine h.advance hc hopen hpairs ?_ (fun m d hm hd => ?_) (fun e he => ?_)
        nofun
      · refine ⟨fun _ _ _ _ _ => ?_, fun _ _ hh => absurd hh (by simp [RequestPhase.holdsMutex]),
          fun hh => absurd hh (by simp [RequestPhase.holdsMutex])⟩
        exact isSome_iff_exists.mpr ⟨_, hwrote.self⟩
      · have hplaced := h.placed d (mem hd)
        refine ⟨fun hk code' body' hp hcode' => ?_, fun hk hs hh => ?_, hplaced.keyed⟩
        · have hold := hplaced.cached hk code' body' hp hcode'
          rw [hwrote]
          split
          · rfl
          · exact hold
        · rw [hwrote.of_ne]
          · exact hplaced.idle hk hs hh
          · -- another call under the key with its handler running would hold the same mutex
            intro heq
            simp only [IdempotencyEntry.pk, entryOf, Prod.mk.injEq] at heq
            have hsame : SameKey d c := ⟨hk, heq.1, heq.2⟩
            have hpair := h.pairs m n d c hd hc hm
            exact hpair.mutex hh hholds (mutexKey_eq hsame (hpair.bodies hsame hs hstarted))
      · obtain ⟨-, rfl⟩ | ⟨-, hold⟩ := hwrote.cases he
        · exact .inr ⟨⟨hkey, rfl, rfl⟩, rfl, rfl, hcode⟩
        · exact .inl hold
    · rename_i hcode
      refine h.advance hc hopen hpairs ?_ (fun m d _ hd => h.placed d (mem hd))
        (fun e he => .inl he) nofun
      refine ⟨fun _ code' body' hp hcode' => ?_, fun _ _ hh => absurd hh (by
        simp [RequestPhase.holdsMutex]), fun hh => absurd hh (by simp [RequestPhase.holdsMutex])⟩
      simp only [RequestPhase.answered.injEq, IdempotentAnswer.ran.injEq] at hp
      rw [hp.1] at hcode
      exact absurd hcode' hcode
  · exact h

theorem step (h : Sound sha256Hex s) (ttl : Duration) (e : IdempotentEvent)
    (hexpiry : Unexpired s e) (hcond : Undisputed sha256Hex s e) :
    Sound sha256Hex (s.step sha256Hex ttl e) := by
  cases e with
  | arrive r => exact h.arrive r
  | lock n =>
    simp only [IdempotentServer.step]
    cases hc : s.calls[n]? with
    | none => exact h
    | some c => exact h.lock hc
  | lookup n now =>
    simp only [IdempotentServer.step]
    cases hc : s.calls[n]? with
    | none => exact h
    | some c => exact h.lookup hc hexpiry hcond
  | handle n code body =>
    simp only [IdempotentServer.step]
    cases hc : s.calls[n]? with
    | none => exact h
    | some c => exact h.handle hc code body
  | put n now =>
    simp only [IdempotentServer.step]
    cases hc : s.calls[n]? with
    | none => exact h
    | some c => exact h.put hc ttl now

theorem succeeded_started {p : RequestPhase} (h : p.succeeded) : p.started = true := by
  cases p with
  | handled code body => rfl
  | answered a =>
    cases a with
    | ran code body => rfl
    | _ => cases h
  | _ => cases h

/-- In a sound state no key has run two mutations. -/
theorem oneMutation (h : Sound sha256Hex s) : OneMutation s where
  once m k c d hc hd hk hcs hds := by
    by_contra hne
    rw [(h.pairs m k c d hc hd hne).once hk hcs] at hds
    cases hds
  refused c hc d hd a hk hds hbody hphase := by
    obtain ⟨m, hm⟩ := mem_iff_getElem?.mp hc
    obtain ⟨k, hk'⟩ := mem_iff_getElem?.mp hd
    cases a with
    | conflict => rfl
    | ran code body =>
      by_cases hmk : m = k
      · subst hmk
        exact absurd (congrArg (fun c => c.request.body) (mem_unique hm hk')) hbody
      · exact absurd ((h.pairs m k c d hm hk' hmk).bodies hk (by rw [hphase]; rfl)
          (succeeded_started hds)) hbody
    | replayed code body =>
      -- the call whose response was repeated is the one that has succeeded
      obtain ⟨w, hw, hr⟩ := h.repeats c hc code body hphase
      obtain ⟨i, hi⟩ := mem_iff_getElem?.mp hw
      have hsame : SameKey w d := ⟨hr.key.symm.1, hk.2.1.trans hr.key.2.1.symm,
        hk.2.2.trans hr.key.2.2.symm⟩
      by_cases hik : i = k
      · subst hik
        obtain rfl := mem_unique hi hk'
        exact absurd hr.same.1.symm hbody
      · rw [(h.pairs i k w d hi hk' hik).once hsame (by rw [hr.phase]; exact hr.success)] at hds
        cases hds
  sameRoute c hc code body hphase := by
    obtain ⟨d, hd, hr⟩ := h.repeats c hc code body hphase
    exact ⟨d, hd, hr.key, hr.same.2, hr.phase⟩

end Sound

end Runs

end IdempotentServer

/-- In a run whose lookups are undisputed, a key runs at most one mutation. -/
theorem IdempotentServer.one_mutation (sha256Hex : List UInt8 → String) (ttl : Duration)
    (events : List IdempotentEvent)
    (hlive : Meets (IdempotentServer.step sha256Hex ttl) Unexpired .init events)
    (hundisputed : Meets (IdempotentServer.step sha256Hex ttl) (Undisputed sha256Hex) .init events) :
    Always (IdempotentServer.step sha256Hex ttl) OneMutation .init events :=
  ((hlive.and hundisputed).always Sound.init fun _ e h hc => h.step ttl e hc.1 hc.2).mono
    fun _ h => h.oneMutation

namespace Sample

def sha256Hex (body : List UInt8) : String :=
  if body = [] then "e3b0c44298fc1c149afbf4c8996fb92427ae41e4649b934ca495991b7852b855"
  else "44136fa355b3678a1146ad16f7e8649e94fb4fc21fe77e8310c060f61caaff8a"

def replayRequest : IdempotentRequest where
  route := "POST /api/v1/dsl-workflows/w1/replays"
  workspaceID := "default"
  key := "k1"
  body := []

def retriedRequests : List IdempotentEvent :=
  [.arrive replayRequest, .arrive replayRequest, .lock 0, .lock 1, .lookup 0 0, .handle 0 201 [49],
    .put 0 0, .lock 1, .lookup 1 1, .arrive { replayRequest with body := [123, 125] }, .lock 2,
    .lookup 2 2]

def twoRoutes : List IdempotentEvent :=
  [.arrive replayRequest, .lock 0, .lookup 0 0, .handle 0 201 [49], .put 0 0,
    .arrive { replayRequest with route := "POST /api/v1/dsl-workflows/w2/replays" }, .lock 1,
    .lookup 1 1]

end Sample

theorem IdempotentServer.one_mutation_retried :
    Always (IdempotentServer.step Sample.sha256Hex defaultIdempotencyTTL) OneMutation .init
      Sample.retriedRequests :=
  one_mutation _ _ _ (by decide) (by decide)

/-- The second request gets the response of another route, and its replay is never started. -/
theorem IdempotentServer.two_routes :
    ¬∀ (sha256Hex : List UInt8 → String) (ttl : Duration) (events : List IdempotentEvent),
      Meets (IdempotentServer.step sha256Hex ttl) Unexpired .init events →
      Always (IdempotentServer.step sha256Hex ttl) OneMutation .init events := by
  intro h
  have hrun := (h Sample.sha256Hex defaultIdempotencyTTL Sample.twoRoutes (by decide)).run
  obtain ⟨d, hd, -, hroute, hran⟩ := hrun.sameRoute ⟨{ Sample.replayRequest with
    route := "POST /api/v1/dsl-workflows/w2/replays" }, .answered (.replayed 201 [49])⟩
    (by decide) 201 [49] rfl
  revert d
  decide

end Aegis
