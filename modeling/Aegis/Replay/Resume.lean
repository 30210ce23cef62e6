import Aegis.Lib.Run
import Aegis.Engine.StepPath

/-!
# Replay.Resume

The two stores that carry a browser replay over a navigation: the `sessionStorage` of each origin,
and the context that the background keeps; `__ocReplayAutoResume` and `runWithPayload` of
`replay-runner.ts`.

* `resume`  — what a re-injected runner does on the page that it finds.
* `Resumed` — the runner goes on from the last checkpoint of the run.
* `Fresh`   — a navigation stays on its origin, or goes to one that the run has not been on.

What a checkpoint holds besides its control state (the extracted, evaluated and captured values and
the completed hooks) is of any type.
-/

namespace Aegis

open Option

namespace ReplayResume

structure Url where
  protocol : String
  host : String
  pathname : String

def Url.origin (u : Url) : String × String := (u.protocol, u.host)

inductive UrlPolicy where
  | expectedPath | sameOrigin
deriving DecidableEq

inductive Status where
  | running | done | failed
deriving DecidableEq

structure ReplayState where
  taskId : String
  ruleId : String
  lastCompletedStepPath : StepPath
  expectedUrl : Url
  expectedUrlPolicy : UrlPolicy
  status : Status

/-- `ReplayContext`, as it is stored by the background. -/
structure ReplayContext (κ : Type) where
  lastCompletedStepPath : StepPath
  data : κ
  control : ReplayState

inductive Refusal where
  | mismatch | stale | preflight | domain

/-- What becomes of a re-injected runner: nothing, a failure, or a run that begins at a step. -/
inductive Outcome (κ : Type) where
  | ignored
  | refused (why : Refusal)
  | continues (resumeStepPath : StepPath) (prior : ReplayState) (initialContext : Option κ)

/-- The payload: the ids of the task and of the rule, and what the runner finds of the rule. -/
structure Payload where
  taskId : String
  ruleId : String
  preflight : Bool
  approved : String → Bool

def pathnameMatches (actual expected : String) : Bool :=
  actual = expected ||
    let below := if expected.toList.getLast? = some '/' then expected else expected ++ "/"
    below.toList.isPrefixOf actual.toList

section Runner

variable {κ : Type} (p : Payload)

def persistedPrior (ctx : Option (ReplayContext κ)) : Option ReplayState :=
  (ctx.map ReplayContext.control).filter fun c =>
    c.taskId = p.taskId && c.ruleId = p.ruleId && c.status = .running

/-- `runWithPayload` of a resumed run, up to `runRule`. -/
def runWithPayload (page : Url) (stored : Option ReplayState) (ctx : Option (ReplayContext κ)) :
    Outcome κ :=
  match (stored.filter fun s => s.taskId = p.taskId).or (persistedPrior p ctx) with
  | none => .ignored
  | some prior =>
    if prior.status ≠ .running then .ignored
    else if !(prior.expectedUrl.host = page.host && prior.expectedUrl.protocol = page.protocol &&
        (prior.expectedUrlPolicy = .sameOrigin ||
          pathnameMatches page.pathname prior.expectedUrl.pathname)) then .refused .mismatch
    else if ctx.any fun c =>
        comparePath c.lastCompletedStepPath prior.lastCompletedStepPath = .lt then .refused .stale
    else if !p.preflight then .refused .preflight
    else if !p.approved page.host then .refused .domain
    else .continues (nextPendingPath prior.lastCompletedStepPath) prior
      (ctx.map ReplayContext.data)

/-- `__ocReplayAutoResume`: `stored` is what the origin of the page holds. -/
def resume (page : Url) (stored : Option ReplayState) (ctx : Option (ReplayContext κ)) : Outcome κ :=
  match stored.or (ctx.map ReplayContext.control) with
  | none => .ignored
  | some prior =>
    if prior.status ≠ .running || p.taskId ≠ prior.taskId then .ignored
    else runWithPayload p page stored ctx

def seeded (page : Url) (stored : Option ReplayState) (ctx : Option (ReplayContext κ)) :
    Option ReplayState :=
  match resume p page stored ctx with
  | .ignored => stored
  | _ => (stored.filter fun s => s.taskId = p.taskId).or (persistedPrior p ctx)

end Runner

/-! ## A run over pages -/

structure Checkpoint (κ : Type) where
  lastCompletedStepPath : StepPath
  data : κ
  expectedUrl : Url
  expectedUrlPolicy : UrlPolicy

structure Tab (κ : Type) where
  page : Url
  /-- `sessionStorage`, origin by origin. -/
  stored : String × String → Option ReplayState
  context : Option (ReplayContext κ)
  last : Option (Checkpoint κ)
  /-- What the last re-injection came to, and the last checkpoint before it. -/
  outcome : Option (Option (Checkpoint κ) × Outcome κ)

inductive Event (κ : Type) where
  | checkpoint (cp : Checkpoint κ)
  | navigate (cp : Checkpoint κ) (landing : Url)

namespace Tab

variable {κ : Type} (p : Payload)

/-- `nextState` of `onCheckpoint`. -/
def control (cp : Checkpoint κ) : ReplayState :=
  ⟨p.taskId, p.ruleId, cp.lastCompletedStepPath, cp.expectedUrl, cp.expectedUrlPolicy, .running⟩

def isRunning (t : Tab κ) : Bool :=
  match t.outcome with
  | none => true
  | some (_, .continues ..) => true
  | some _ => false

/-- `onCheckpoint`; the message reaches the background. -/
def checkpoint (t : Tab κ) (cp : Checkpoint κ) : Tab κ :=
  { t with
    stored := Function.update t.stored t.page.origin (some (control p cp))
    context := some ⟨cp.lastCompletedStepPath, cp.data, control p cp⟩
    last := some cp }

def land (t : Tab κ) (landing : Url) : Tab κ :=
  { t with
    page := landing
    stored := Function.update t.stored landing.origin
      (seeded p landing (t.stored landing.origin) t.context)
    outcome := some (t.last, resume p landing (t.stored landing.origin) t.context) }

def step (t : Tab κ) : Event κ → Tab κ
  | .checkpoint cp => if t.isRunning then t.checkpoint p cp else t
  | .navigate cp landing => if t.isRunning then (t.checkpoint p cp).land p landing else t

/-- `__ocReplayBoot` on the entry page. -/
def boot (entry : Url) : Tab κ where
  page := entry
  stored := Function.update (fun _ => none) entry.origin
    (some ⟨p.taskId, p.ruleId, [], entry, .expectedPath, .running⟩)
  context := none
  last := none
  outcome := none

end Tab

section Condition

variable {κ : Type} (p : Payload)

/-- An explicit navigation lands on the approved page that it names, another one on its origin. -/
def Explicit (t : Tab κ) : Event κ → Prop
  | .checkpoint _ => True
  | .navigate cp landing => p.approved landing.host = true ∧ match cp.expectedUrlPolicy with
    | .expectedPath => landing = cp.expectedUrl
    | .sameOrigin => cp.expectedUrl.origin = t.page.origin ∧ landing.origin = t.page.origin

/-- The navigation stays on its origin, or goes to one whose storage has no state of the run. -/
def Fresh (t : Tab κ) : Event κ → Prop
  | .checkpoint _ => True
  | .navigate _ landing => t.isRunning = true → landing.origin = t.page.origin ∨
    t.stored landing.origin = none

/-- The re-injection goes on after the last checkpoint, with its data. -/
def Resumed (t : Tab κ) : Prop :=
  ∀ r ∈ t.outcome, ∃ cp, r = (some cp,
    .continues (nextPendingPath cp.lastCompletedStepPath) (Tab.control p cp) (some cp.data))

end Condition

section Found

variable {κ : Type} {p : Payload} {cp : Checkpoint κ} {page landing : Url} {st : ReplayState}

def Checkpoint.context (p : Payload) (cp : Checkpoint κ) : ReplayContext κ :=
  ⟨cp.lastCompletedStepPath, cp.data, Tab.control p cp⟩

/-- The landing is on the origin that the checkpoint expects, and on its path unless that is enough. -/
def Expected (cp : Checkpoint κ) (landing : Url) : Prop :=
  cp.expectedUrl.origin = landing.origin ∧ (cp.expectedUrlPolicy = .sameOrigin ∨
      pathnameMatches landing.pathname cp.expectedUrl.pathname = true)

theorem pathnameMatches_self (path : String) : pathnameMatches path path := by
  simp [pathnameMatches]

theorem filter_task (h : st.taskId = p.taskId) :
    ((some st).filter fun s => s.taskId = p.taskId) = some st := by
  simp [Option.filter, h]

theorem persistedPrior_context : persistedPrior p (some (cp.context p)) = some (Tab.control p cp) := by
  simp [persistedPrior, Checkpoint.context, Tab.control]

theorem Explicit.expected {t : Tab κ} (h : Explicit p t (.navigate cp landing)) : Expected cp landing := by
  obtain ⟨-, h⟩ := h
  cases hpolicy : cp.expectedUrlPolicy with
  | expectedPath =>
    rw [hpolicy] at h
    subst h
    exact ⟨rfl, .inr (pathnameMatches_self _)⟩
  | sameOrigin =>
    rw [hpolicy] at h
    exact ⟨h.1.trans h.2.symm, .inl hpolicy⟩

theorem Explicit.leaves {t : Tab κ} (h : Explicit p t (.navigate cp landing))
    (hleave : landing.origin ≠ t.page.origin) : cp.expectedUrl = landing := by
  obtain ⟨-, h⟩ := h
  cases hpolicy : cp.expectedUrlPolicy with
  | expectedPath =>
    rw [hpolicy] at h
    exact h.symm
  | sameOrigin =>
    rw [hpolicy] at h
    exact absurd h.2 hleave

theorem resume_of_last (hpre : p.preflight) (happroved : p.approved landing.host)
    (hexpected : Expected cp landing) (hst : st = Tab.control p cp) {stored : Option ReplayState}
    (hstored : stored = some st ∨ stored = none) :
    resume p landing stored (some (cp.context p)) =
      .continues (nextPendingPath cp.lastCompletedStepPath) (Tab.control p cp) (some cp.data) := by
  subst hst
  obtain ⟨horigin, hpath⟩ := hexpected
  obtain ⟨hprotocol, hhost⟩ := Prod.mk.inj horigin
  have hlocal : (stored.filter fun s => s.taskId = p.taskId).or
      (persistedPrior p (some (cp.context p))) = some (Tab.control p cp) := by
    rw [persistedPrior_context]
    obtain rfl | rfl := hstored
    · rw [filter_task rfl, some_or]
    · rfl
  have hprior : stored.or ((some (cp.context p)).map ReplayContext.control) = some (Tab.control p cp) := by
    obtain rfl | rfl := hstored <;> rfl
  have hrun : runWithPayload p landing stored (some (cp.context p)) =
      .continues (nextPendingPath cp.lastCompletedStepPath) (Tab.control p cp) (some cp.data) := by
    have hmatch : decide (cp.expectedUrlPolicy = .sameOrigin) = false →
        pathnameMatches landing.pathname cp.expectedUrl.pathname := by
      intro hpolicy
      exact hpath.resolve_left (by simpa using hpolicy)
    rw [runWithPayload, hlocal]
    simp only [Tab.control, Checkpoint.context, hhost, hprotocol, any_some, comparePath_self]
    simp [hpre, happroved]
    exact hmatch
  rw [resume, hprior]
  simpa [Tab.control] using hrun

theorem resume_of_stale {ctx : Option (ReplayContext κ)} (htask : st.taskId = p.taskId)
    (hstatus : st.status = .running) (horigin : st.expectedUrl.origin ≠ landing.origin) :
    resume p landing (some st) ctx = .refused .mismatch := by
  have hrun : runWithPayload p landing (some st) ctx = .refused .mismatch := by
    have hurl : st.expectedUrl.host = landing.host → ¬ st.expectedUrl.protocol = landing.protocol := by
      intro hhost hprotocol
      exact horigin (Prod.ext hprotocol hhost)
    have hmatch : (decide (st.expectedUrl.host = landing.host) &&
        decide (st.expectedUrl.protocol = landing.protocol)) = false := by
      simpa using hurl
    rw [runWithPayload, filter_task htask, some_or]
    simp [hstatus, hmatch]
  rw [resume]
  simpa [htask, hstatus] using hrun

end Found

section Invariant

variable {κ : Type} {p : Payload} {t : Tab κ} {cp : Checkpoint κ} {landing : Url}

/-- While the runner is at work the stores agree about the last checkpoint; an origin that the run
has left holds a state that expects another one. -/
structure Tidy (p : Payload) (t : Tab κ) : Prop where
  left : ∀ o st, o ≠ t.page.origin → t.stored o = some st →
    st.taskId = p.taskId ∧ st.status = .running ∧ st.expectedUrl.origin ≠ o

/-- `Tidy`, right after a checkpoint. -/
structure Agreed (p : Payload) (t : Tab κ) (cp : Checkpoint κ) : Prop extends Tidy p t where
  here : t.stored t.page.origin = some (Tab.control p cp)
  context : t.context = some (cp.context p)
  last : t.last = some cp

variable {o : String × String}

theorem checkpoint_stored (hleft : o ≠ t.page.origin) :
    (t.checkpoint p cp).stored o = t.stored o := Function.update_of_ne hleft ..

theorem land_stored (hleft : o ≠ landing.origin) :
    (t.land p landing).stored o = t.stored o := Function.update_of_ne hleft ..

theorem boot_stored {entry : Url} (hleft : o ≠ entry.origin) :
    (Tab.boot p entry : Tab κ).stored o = none := by
  simp [Tab.boot, Function.update_of_ne hleft]

theorem Tidy.checkpoint (h : Tidy p t) : Agreed p (t.checkpoint p cp) cp where
  left := by
    intro o st hleft hst
    have hleft' : o ≠ t.page.origin := hleft
    rw [checkpoint_stored hleft'] at hst
    exact h.left o st hleft' hst
  here := Function.update_self ..
  context := rfl
  last := rfl

theorem Tidy.boot (entry : Url) : Tidy p (Tab.boot p entry : Tab κ) where
  left := by
    intro o st hleft hst
    rw [boot_stored (show o ≠ entry.origin from hleft)] at hst
    cases hst

theorem isRunning_of_resumed (h : Resumed p t) : t.isRunning := by
  rw [Tab.isRunning]
  cases houtcome : t.outcome with
  | none => rfl
  | some r =>
    obtain ⟨cp, rfl⟩ := h r houtcome
    rfl

theorem Agreed.continues (h : Agreed p t cp) (hpre : p.preflight)
    (happroved : p.approved landing.host) (hexpected : Expected cp landing)
    (hfresh : landing.origin = t.page.origin ∨ t.stored landing.origin = none) :
    resume p landing (t.stored landing.origin) t.context =
      .continues (nextPendingPath cp.lastCompletedStepPath) (Tab.control p cp) (some cp.data) := by
  have hstored : t.stored landing.origin = some (Tab.control p cp) ∨ t.stored landing.origin = none := by
    refine hfresh.imp_left ?_
    intro hsame
    rw [hsame, h.here]
  rw [h.context]
  exact resume_of_last hpre happroved hexpected rfl hstored

theorem Tidy.refused (h : Tidy p t) (hleave : landing.origin ≠ t.page.origin)
    (hvisited : t.stored landing.origin ≠ none) :
    resume p landing (t.stored landing.origin) t.context = .refused .mismatch := by
  obtain ⟨st, hst⟩ := ne_none_iff_exists'.mp hvisited
  obtain ⟨htask, hstatus, horigin⟩ := h.left _ st hleave hst
  rw [hst]
  exact resume_of_stale htask hstatus horigin

theorem Agreed.land (h : Agreed p t cp) (hexplicit : Explicit p t (.navigate cp landing)) :
    Tidy p (t.land p landing) where
  left := by
    intro o st hleft hst
    have hleft' : o ≠ landing.origin := hleft
    rw [land_stored hleft'] at hst
    by_cases hhere : o = t.page.origin
    · have hcontrol : st = Tab.control p cp := by
        rw [hhere, h.here] at hst
        exact (some.inj hst).symm
      have hleave : landing.origin ≠ t.page.origin := by
        intro hsame
        exact hleft' (hhere.trans hsame.symm)
      have hurl : (Tab.control p cp).expectedUrl = landing := hexplicit.leaves hleave
      rw [hcontrol]
      refine ⟨rfl, rfl, ?_⟩
      rw [hurl]
      exact fun hsame => hleft' hsame.symm
    · exact h.left o st hhere hst

theorem Tidy.step (h : Tidy p t) (e : Event κ) (hexplicit : Explicit p t e) : Tidy p (t.step p e) := by
  cases e with
  | checkpoint cp =>
    rw [Tab.step]
    split
    · exact h.checkpoint.toTidy
    · exact h
  | navigate cp landing =>
    rw [Tab.step]
    split
    · exact h.checkpoint.land hexplicit
    · exact h

/-- One navigation keeps every re-injection exact exactly when its origin is fresh. -/
theorem resumed_step (hpre : p.preflight) (h : Tidy p t) (e : Event κ)
    (hexplicit : Explicit p t e) (hresumed : Resumed p t) :
    Resumed p (t.step p e) ↔ Fresh t e := by
  have hrunning := isRunning_of_resumed hresumed
  cases e with
  | checkpoint cp =>
    rw [Tab.step, if_pos hrunning]
    exact iff_of_true hresumed trivial
  | navigate cp landing =>
    have hagreed : Agreed p (t.checkpoint p cp) cp := h.checkpoint
    rw [Tab.step, if_pos hrunning]
    constructor
    · intro hnext _
      by_contra hstale
      obtain ⟨hleave, hvisited⟩ := not_or.mp hstale
      have hrefused := hagreed.refused hleave (by rwa [checkpoint_stored hleave])
      obtain ⟨cp', hcp'⟩ := hnext _ rfl
      have houtcome := (Prod.mk.inj hcp').2
      rw [hrefused] at houtcome
      cases houtcome
    · intro hfresh r hr
      have hfresh' : landing.origin = t.page.origin ∨ (t.checkpoint p cp).stored landing.origin = none := by
        by_cases hsame : landing.origin = t.page.origin
        · exact .inl hsame
        · rw [checkpoint_stored hsame]
          exact hfresh hrunning
      have hcontinues := hagreed.continues hpre hexplicit.1 hexplicit.expected hfresh'
      cases hr
      refine ⟨cp, ?_⟩
      rw [hagreed.last, hcontinues]

/-- Every re-injection of a run goes on from its last checkpoint exactly when every navigation
stays on its origin or goes to one that the run has not been on. -/
theorem resumes_last (hpre : p.preflight = true) (entry : Url) (es : List (Event κ))
    (hexplicit : Meets (Tab.step p) (Explicit p) (Tab.boot p entry) es) :
    Always (Tab.step p) (Resumed p) (Tab.boot p entry) es ↔
      Meets (Tab.step p) Fresh (Tab.boot p entry) es := by
  refine always_iff_meets_within hexplicit (Tidy.boot entry) ?_ ?_ ?_
  · intro t e h hexp
    exact h.step e hexp
  · intro r hr
    cases hr
  · intro t e h hexp hresumed
    exact resumed_step hpre h e hexp hresumed

end Invariant

section Shop

def shopPayload : Payload := ⟨"task-1", "rule-1", true, fun host => host ∈ ["shop.test", "list.test"]⟩

def shop : Url := ⟨"https:", "shop.test", "/"⟩

def prices : Url := ⟨"https:", "list.test", "/prices"⟩

def visit (step : Nat) (page : Url) : Event Unit :=
  .navigate ⟨[.top step], (), page, .expectedPath⟩ page

theorem there_resumes : Always (Tab.step shopPayload) (Resumed shopPayload) (Tab.boot shopPayload shop)
      [visit 0 prices, visit 1 prices] := by
  refine (resumes_last rfl shop _ ?_).mpr ?_
  · exact ⟨⟨by decide, rfl⟩, ⟨by decide, rfl⟩, trivial⟩
  · exact ⟨fun _ => .inr rfl, fun _ => .inl rfl, trivial⟩

/-- There and back again: the storage of the first origin still expects the second. -/
theorem thereAndBack_refused : ¬ ∀ es : List (Event Unit),
      Meets (Tab.step shopPayload) (Explicit shopPayload) (Tab.boot shopPayload shop) es →
      Always (Tab.step shopPayload) (Resumed shopPayload) (Tab.boot shopPayload shop) es := by
  intro h
  have hmeets : Meets (Tab.step shopPayload) (Explicit shopPayload) (Tab.boot shopPayload shop)
      [visit 0 prices, visit 1 shop] :=
    ⟨⟨by decide, rfl⟩, ⟨by decide, rfl⟩, trivial⟩
  have hback := (h _ hmeets).run
  obtain ⟨cp, hcp⟩ := hback (some ⟨[.top 1], (), shop, .expectedPath⟩, .refused .mismatch) rfl
  cases hcp

end Shop

end ReplayResume

end Aegis
