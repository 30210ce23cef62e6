import Aegis.Lib.Run
import Aegis.Models

/-!
# Api.CircuitBreaker

The circuit breaker of an endpoint, `circuitbreaker.go`, and the requests that it admits.

* `CircuitEndpoint.allow`, `CircuitEndpoint.record` — the two methods.
* `Circuit`      — an endpoint with its requests in flight. A request is one call of `allow`, and
                   one of `record` if it is admitted, at any time later.
* `OnlyTheProbe` — what a half-open period is for.
-/

namespace Aegis

open List

namespace CircuitBreaker

inductive CircuitBreakerState where
  | stateClosed | stateOpen | stateHalfOpen
deriving DecidableEq

structure Settings where
  threshold : Int
  window : Duration
  openDuration : Duration

structure CircuitEndpoint where
  state : CircuitBreakerState
  failures : List Time
  openedAt : Time
  halfOpenAllowed : Bool

namespace CircuitEndpoint

variable (cfg : Settings) (now : Time) (ep : CircuitEndpoint)

def pruneFailures : CircuitEndpoint :=
  { ep with failures := ep.failures.dropWhile fun t => t < now - cfg.window }

/-- `open`. -/
def opened : CircuitEndpoint :=
  { ep with state := .stateOpen, openedAt := now, halfOpenAllowed := false }

/-- The case of `allow` for a half-open circuit. -/
def allowHalfOpen : Bool × CircuitEndpoint :=
  if ep.halfOpenAllowed then (true, { ep with halfOpenAllowed := false }) else (false, ep)

def allow : Bool × CircuitEndpoint :=
  match ep.state with
  | .stateClosed =>
    let ep := ep.pruneFailures cfg now
    if cfg.threshold ≤ ep.failures.length then (false, ep.opened now) else (true, ep)
  | .stateOpen =>
    if cfg.openDuration ≤ now - ep.openedAt then
      { ep with state := .stateHalfOpen, halfOpenAllowed := true }.allowHalfOpen
    else (false, ep)
  | .stateHalfOpen => ep.allowHalfOpen

def record (statusCode : Int) : CircuitEndpoint :=
  match ep.state with
  | .stateClosed =>
    if 500 ≤ statusCode then
      let ep := { ep with failures := ep.failures ++ [now] }.pruneFailures cfg now
      if cfg.threshold ≤ ep.failures.length then ep.opened now else ep
    else ep
  | .stateHalfOpen =>
    if 500 ≤ statusCode then ep.opened now
    else { ep with state := .stateClosed, failures := [] }
  | .stateOpen => ep

end CircuitEndpoint

/-- An admitted request; `probe` is the number of the half-open period that it was admitted in. -/
structure Request where
  id : Nat
  probe : Option Nat
deriving DecidableEq

/-- `requests` counts the calls of `allow`, and `periods` the half-open periods so far. `decided`
lists the periods that have ended, each with the request that ended it. -/
structure Circuit where
  endpoint : CircuitEndpoint
  inFlight : List Request
  requests : Nat
  periods : Nat
  decided : List (Nat × Request)

inductive Event where
  | allow (now : Time)
  | record (id : Nat) (statusCode : Int) (now : Time)

namespace Circuit

variable (cfg : Settings) (s : Circuit)

def find (id : Nat) : Option Request := s.inFlight.find? fun r => r.id == id

def allow (now : Time) : Circuit :=
  let (admitted, endpoint) := s.endpoint.allow cfg now
  let entered := s.endpoint.state == .stateOpen && endpoint.state == .stateHalfOpen
  let periods := if entered then s.periods + 1 else s.periods
  let probe := if endpoint.state == .stateHalfOpen then some periods else none
  { s with
    endpoint := endpoint
    inFlight := if admitted then s.inFlight ++ [⟨s.requests, probe⟩] else s.inFlight
    requests := s.requests + 1
    periods := periods }

def record (id : Nat) (statusCode : Int) (now : Time) : Circuit :=
  match s.find id with
  | none => s
  | some r =>
    { s with
      endpoint := s.endpoint.record cfg now statusCode
      inFlight := s.inFlight.filter fun other => other.id != id
      decided := if s.endpoint.state == .stateHalfOpen then s.decided ++ [(s.periods, r)]
        else s.decided }

def step : Event → Circuit
  | .allow now => s.allow cfg now
  | .record id statusCode now => s.record cfg id statusCode now

def init : Circuit := ⟨⟨.stateClosed, [], 0, false⟩, [], 0, 0, []⟩

def probes : List Request := s.inFlight.filter fun r => r.probe.isSome

/-- From its opening to its closing the circuit has at most one probe in flight, and a half-open
period is ended by the probe that was admitted in it. -/
structure OnlyTheProbe : Prop where
  one : s.endpoint.state ≠ .stateClosed → s.probes.length ≤ 1
  decides : ∀ d ∈ s.decided, d.2.probe = some d.1

/-- A request that reports to a half-open circuit was admitted in this period. -/
def InPeriod : Event → Prop
  | .allow _ => True
  | .record id _ _ => s.endpoint.state = .stateHalfOpen → ∀ r, s.find id = some r → r.probe = some s.periods

/-- The probe of the current period is in flight while the circuit is half-open, and no other
probe ever is. -/
structure Inv : Prop where
  spent : s.endpoint.state = .stateHalfOpen → s.endpoint.halfOpenAllowed = false
  probing : s.endpoint.state = .stateHalfOpen → ∃ id, s.probes = [⟨id, some s.periods⟩]
  idle : s.endpoint.state ≠ .stateHalfOpen → s.probes = []
  ids : s.inFlight.Pairwise fun r r' => r.id ≠ r'.id
  fresh : ∀ r ∈ s.inFlight, r.id < s.requests
  decides : ∀ d ∈ s.decided, d.2.probe = some d.1

variable {cfg s}

theorem allow_cases (h : s.Inv) (now : Time) :
    (∃ ep, ep.state = .stateClosed ∧ s.endpoint.state = .stateClosed ∧ s.allow cfg now =
      { s with endpoint := ep, inFlight := s.inFlight ++ [⟨s.requests, none⟩],
               requests := s.requests + 1 }) ∨
    (∃ ep, (ep = s.endpoint ∨ ep.state = .stateOpen ∧ s.endpoint.state = .stateClosed) ∧
      s.allow cfg now = { s with endpoint := ep, requests := s.requests + 1 }) ∨
    ∃ ep, ep.state = .stateHalfOpen ∧ ep.halfOpenAllowed = false ∧
      s.endpoint.state = .stateOpen ∧ s.allow cfg now =
        { s with endpoint := ep,
                 inFlight := s.inFlight ++ [⟨s.requests, some (s.periods + 1)⟩],
                 requests := s.requests + 1, periods := s.periods + 1 } := by
  cases hstate : s.endpoint.state with
  | stateClosed =>
    by_cases hfull : cfg.threshold ≤ (s.endpoint.pruneFailures cfg now).failures.length
    · refine .inr (.inl ⟨(s.endpoint.pruneFailures cfg now).opened now, .inr ⟨rfl, rfl⟩, ?_⟩)
      simp [allow, CircuitEndpoint.allow, hstate, hfull, CircuitEndpoint.opened]
    · refine .inl ⟨s.endpoint.pruneFailures cfg now, hstate, rfl, ?_⟩
      have hpruned : (s.endpoint.pruneFailures cfg now).state = .stateClosed := hstate
      simp [allow, CircuitEndpoint.allow, hstate, hfull, hpruned]
  | stateOpen =>
    by_cases hover : cfg.openDuration ≤ now - s.endpoint.openedAt
    · refine .inr (.inr ⟨{ s.endpoint with state := .stateHalfOpen, halfOpenAllowed := false },
        rfl, rfl, rfl, ?_⟩)
      simp [allow, CircuitEndpoint.allow, hstate, hover, CircuitEndpoint.allowHalfOpen]
    · refine .inr (.inl ⟨s.endpoint, .inl rfl, ?_⟩)
      simp [allow, CircuitEndpoint.allow, hstate, hover]
  | stateHalfOpen =>
    refine .inr (.inl ⟨s.endpoint, .inl rfl, ?_⟩)
    simp [allow, CircuitEndpoint.allow, hstate, CircuitEndpoint.allowHalfOpen, h.spent hstate]

theorem record_state (ep : CircuitEndpoint) (now : Time) (statusCode : Int) :
    (ep.record cfg now statusCode).state ≠ .stateHalfOpen := by
  unfold CircuitEndpoint.record
  cases hstate : ep.state with
  | stateClosed =>
    dsimp only
    split
    · split
      · exact nofun
      · show CircuitBreakerState.stateClosed ≠ .stateHalfOpen
        decide
    · exact fun h => by cases hstate.symm.trans h
  | stateOpen => exact fun h => by cases hstate.symm.trans h
  | stateHalfOpen =>
    dsimp only
    split <;> exact nofun

/-- The invariant leaves the decision of a half-open period to its probe. -/
theorem Inv.onlyTheProbe (h : s.Inv) : s.OnlyTheProbe where
  one _ := by
    by_cases hstate : s.endpoint.state = .stateHalfOpen
    · obtain ⟨id, hprobes⟩ := h.probing hstate
      rw [hprobes]
      exact Nat.le_refl 1
    · rw [h.idle hstate]
      exact Nat.zero_le 1
  decides := h.decides

theorem Inv.admitted (h : s.Inv) (probe : Option Nat) :
    (s.inFlight ++ [(⟨s.requests, probe⟩ : Request)]).Pairwise (fun r r' => r.id ≠ r'.id) ∧
      ∀ r ∈ s.inFlight ++ [(⟨s.requests, probe⟩ : Request)], r.id < s.requests + 1 := by
  constructor
  · rw [pairwise_append]
    refine ⟨h.ids, pairwise_singleton _ _, fun r hr r' hr' => ?_⟩
    rw [mem_singleton.mp hr']
    exact Nat.ne_of_lt (h.fresh r hr)
  · intro r hr
    rcases mem_append.mp hr with hr | hr
    · exact Nat.lt_succ_of_lt (h.fresh r hr)
    · rw [mem_singleton.mp hr]
      exact Nat.lt_succ_self _

theorem Inv.allow (h : s.Inv) (now : Time) : (s.allow cfg now).Inv := by
  obtain ⟨ep, hep, hstate, heq⟩ | ⟨ep, hep, heq⟩ | ⟨ep, hep, hspent, hstate, heq⟩ :=
    @allow_cases cfg s h now
  · rw [heq]
    have hidle := h.idle (by rw [hstate]; exact nofun)
    obtain ⟨hids, hfresh⟩ := h.admitted none
    refine ⟨fun hhalf => ?_, fun hhalf => ?_, fun _ => ?_, hids, hfresh, h.decides⟩
    · cases hep.symm.trans hhalf
    · cases hep.symm.trans hhalf
    · rw [probes, filter_append]
      exact append_eq_nil_iff.mpr ⟨hidle, rfl⟩
  · rw [heq]
    have hfresh : ∀ r ∈ s.inFlight, r.id < s.requests + 1 :=
      fun r hr => Nat.lt_succ_of_lt (h.fresh r hr)
    rcases hep with rfl | ⟨hopen, hclosed⟩
    · exact ⟨h.spent, h.probing, h.idle, h.ids, hfresh, h.decides⟩
    · refine ⟨fun hhalf => ?_, fun hhalf => ?_, fun _ => ?_, h.ids, hfresh, h.decides⟩
      · cases hopen.symm.trans hhalf
      · cases hopen.symm.trans hhalf
      · exact h.idle (by rw [hclosed]; exact nofun)
  · rw [heq]
    have hidle := h.idle (by rw [hstate]; exact nofun)
    obtain ⟨hids, hfresh⟩ := h.admitted (some (s.periods + 1))
    refine ⟨fun _ => hspent, fun _ => ⟨s.requests, ?_⟩, fun hnot => absurd hep hnot, hids, hfresh,
      h.decides⟩
    rw [probes, filter_append, show s.inFlight.filter _ = [] from hidle]
    rfl

theorem Inv.record (h : s.Inv) {id : Nat} {statusCode : Int} {now : Time}
    (hin : s.InPeriod (.record id statusCode now)) : (s.record cfg id statusCode now).Inv := by
  unfold Circuit.record
  split
  · exact h
  · rename_i r hfind
    have hid : r.id = id := by simpa using find?_some hfind
    have hmem : r ∈ s.inFlight := mem_of_find?_eq_some hfind
    have hnot := @record_state cfg s.endpoint now statusCode
    refine ⟨fun hhalf => absurd hhalf hnot, fun hhalf => absurd hhalf hnot, fun _ => ?_,
      h.ids.filter _, fun other hother => h.fresh other (mem_of_mem_filter hother), ?_⟩
    · -- the one probe that can be in flight is the request that reports
      refine filter_eq_nil_iff.mpr fun other hother hprobe => ?_
      obtain ⟨hother, hne⟩ := mem_filter.mp hother
      have hin' : other ∈ s.probes := mem_filter.mpr ⟨hother, hprobe⟩
      by_cases hstate : s.endpoint.state = .stateHalfOpen
      · obtain ⟨id', hprobes⟩ := h.probing hstate
        have hr : r ∈ s.probes := mem_filter.mpr ⟨hmem, by
          rw [hin hstate r hfind]
          rfl⟩
        rw [hprobes, mem_singleton] at hr hin'
        rw [bne_iff_ne] at hne
        exact hne (by rw [hin', ← hid, hr])
      · rw [h.idle hstate] at hin'
        cases hin'
    · intro d hd
      dsimp only at hd
      split at hd
      · rename_i hstate
        rcases mem_append.mp hd with hd | hd
        · exact h.decides d hd
        · rw [mem_singleton.mp hd]
          exact hin (beq_iff_eq.mp hstate) r hfind
      · exact h.decides d hd

theorem Inv.step (h : s.Inv) {e : Event} (hin : s.InPeriod e) : (s.step cfg e).Inv := by
  cases e with
  | allow now => exact h.allow now
  | record id statusCode now => exact h.record hin

/-- A report that is let in keeps to the period of its own admission. -/
theorem inPeriod_of_onlyTheProbe {e : Event} (h : (s.step cfg e).OnlyTheProbe) : s.InPeriod e := by
  cases e with
  | allow now => trivial
  | record id statusCode now =>
    intro hstate r hfind
    refine h.decides (s.periods, r) ?_
    simp [step, Circuit.record, hfind, hstate]

theorem init_inv : init.Inv where
  spent h := by cases h
  probing h := by cases h
  idle _ := rfl
  ids := .nil
  fresh r hr := by cases hr
  decides d hd := by cases hd

end Circuit

/-- **Probes.** In a run of an endpoint only the probe of each half-open period decides it, and no
two probes are in flight, exactly when no request reports in a half-open period that it was not
admitted in. -/
theorem onlyTheProbe_iff (cfg : Settings) (es : List Event) :
    Always (Circuit.step cfg) Circuit.OnlyTheProbe Circuit.init es ↔
      Meets (Circuit.step cfg) Circuit.InPeriod Circuit.init es := by
  constructor
  · intro h
    exact h.meets fun s e h => Circuit.inPeriod_of_onlyTheProbe h
  · intro h
    exact (h.always Circuit.init_inv fun s e hs he => hs.step he).mono fun s hs => hs.onlyTheProbe

/-- A request from before the circuit opened closes it while the probe is in flight. -/
theorem lateReport_decides : ¬∀ (cfg : Settings) (es : List Event),
    Always (Circuit.step cfg) Circuit.OnlyTheProbe Circuit.init es := by
  intro h
  have hrun := (h ⟨1, 60, 10⟩
    [.allow 0, .allow 0, .record 0 500 1, .allow 11, .record 1 200 12]).run
  exact absurd (hrun.decides (1, ⟨1, none⟩) (by decide)) (by decide)

end CircuitBreaker

end Aegis
