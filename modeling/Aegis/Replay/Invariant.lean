import Aegis.Replay.Outcome

/-!
# Replay.Invariant

What a run of sole segments keeps of every session, and of every handler that awaits something.

* `Inv`        — what holds of the jobs and of the sessions.
* `Same`       — nothing changes of a session.
* `Inv.change` — a step that changes one session.
-/

namespace Aegis

open List Option

namespace ReplaySessions

def Job.claim : Job → Option TaskID
  | .cleanup n .. | .completing n .. | .created n => some n
  | _ => none

def Job.needed : Job → Option TaskID
  | .cleanup n .. | .completing n .. | .created n | .retaining n => some n
  | .release read _ => read
  | _ => none

def Job.session : Job → Option TaskID
  | .cleanup n .. | .completing n .. | .created n | .retaining n | .removed n => some n
  | .forget read _ | .release read _ => read
  | _ => none

theorem Job.needed_of_claim {job : Job} {n : TaskID} (h : job.claim = some n) : job.needed = some n := by
  cases job <;> first | exact h | cases h

namespace Background

variable {b b' : Background} {n m : TaskID} {status : Status} {job : Job}

@[simp] theorem modify_self (f : Session → Session) :
    (b.modify n f).sessions n = f (b.sessions n) := by
  simp [modify]

@[simp] theorem modify_of_ne (f : Session → Session) (h : m ≠ n) :
    (b.modify n f).sessions m = b.sessions m := by
  simp [modify, h]

@[simp] theorem modify_active (f : Session → Session) : (b.modify n f).active = b.active := rfl
@[simp] theorem modify_storedKey (f : Session → Session) :
    (b.modify n f).storedKey = b.storedKey := rfl
@[simp] theorem modify_retainedKey (f : Session → Session) :
    (b.modify n f).retainedKey = b.retainedKey := rfl
@[simp] theorem modify_next (f : Session → Session) : (b.modify n f).next = b.next := rfl
@[simp] theorem modify_jobs (f : Session → Session) : (b.modify n f).jobs = b.jobs := rfl

@[simp] theorem spawn_sessions : (b.spawn job).sessions = b.sessions := rfl
@[simp] theorem spawn_active : (b.spawn job).active = b.active := rfl
@[simp] theorem spawn_storedKey : (b.spawn job).storedKey = b.storedKey := rfl
@[simp] theorem spawn_retainedKey : (b.spawn job).retainedKey = b.retainedKey := rfl
@[simp] theorem spawn_next : (b.spawn job).next = b.next := rfl
@[simp] theorem spawn_jobs : (b.spawn job).jobs = job :: b.jobs := rfl

/-- A cleanup has come to the point `next`. -/
structure Cleaned (b : Background) (n : TaskID) (next : Point) : Prop where
  listening : (b.sessions n).listening = false
  total : (b.sessions n).total = false
  memory : b.active ≠ some n
  untold : (b.sessions n).broadcasts = [] ∧ (b.sessions n).completions = []
  idle : next ≠ .idleAlarm → (b.sessions n).idle = false
  keys : next = .tab ∨ next = .broadcast →
    (b.sessions n).payload = false ∧ (b.sessions n).context = false ∧ b.storedKey ≠ some n

/-- Nothing of the session is left but a tab that is retained. -/
structure Cleared (b : Background) (n : TaskID) (status : Status) : Prop where
  alarms : (b.sessions n).total = false ∧ (b.sessions n).idle = false
  listeners : (b.sessions n).listening = false
  keys : (b.sessions n).payload = false ∧ (b.sessions n).context = false ∧ b.storedKey ≠ some n
  memory : b.active ≠ some n
  tab : (b.sessions n).tab = true → status = .success

def JobOK (b : Background) : Job → Prop
  | .created n => n < b.next ∧ (b.sessions n).begun = false
  | .cleanup n status closeTab next _ => (b.sessions n).begun = true ∧
    (b.sessions n).outcomes.head? = some status ∧ b.Cleaned n next ∧
    (closeTab = false ∨ next = .broadcast → (b.sessions n).tab = true → status = .success)
  | .completing n status read _ => (b.sessions n).begun = true ∧
    (b.sessions n).outcomes.head? = some status ∧ b.Cleared n status ∧
    (b.sessions n).broadcasts = [(status, false)] ∧ (b.sessions n).completions = [] ∧
    (read = some n ∨ read = none ∧ (b.sessions n).dsl = false)
  | .retaining n => (b.sessions n).outcomes.head? = some .success
  | .forget (some n) _ | .release (some n) _ => (b.sessions n).outcomes.head? = some .success
  | .removed n => n < b.next ∧ (b.sessions n).tab = false
  | .finished .. | .reported .. => False
  | _ => True

/-- At most one outcome has been told. -/
structure Told (s : Session) (status : Status) : Prop where
  broadcast : s.broadcasts = [] ∨ ∃ wizard, s.broadcasts = [(status, wizard)]
  once : s.completions.length ≤ 1
  first : ∀ st ∈ s.completions, st = status
  dsl : s.dsl = true → ∃ wizard, s.broadcasts = [(status, wizard)] ∧
    (wizard = false → s.completions = [status])

theorem Told.congr {s s' : Session} (h : Told s status) (hb : s'.broadcasts = s.broadcasts)
    (hc : s'.completions = s.completions) (hd : s'.dsl = s.dsl) : Told s' status where
  broadcast := hb ▸ h.broadcast
  once := hc ▸ h.once
  first := hc ▸ h.first
  dsl := by
    rw [hb, hc, hd]
    exact h.dsl

/-- What holds of a session at every time. -/
structure SessionOK (b : Background) (n : TaskID) : Prop where
  fresh : b.next ≤ n → (b.sessions n).begun = false ∧ (b.sessions n).tab = false
  unbegun : (b.sessions n).begun = false → b.active ≠ some n ∧ b.storedKey ≠ some n ∧
    (b.sessions n).outcomes = [] ∧ (b.sessions n).total = false ∧ (b.sessions n).idle = false ∧
    (b.sessions n).context = false
  untold : (b.sessions n).outcomes = [] → (b.sessions n).broadcasts = [] ∧ (b.sessions n).completions = []
  stored : b.live n = true → b.storedKey = some n ∧ (b.sessions n).payload = true
  listening : (b.sessions n).listening = true → b.active = some n
  active : b.active = some n → (b.sessions n).broadcasts = [] ∧ (b.sessions n).completions = [] ∧
    ((b.sessions n).outcomes ≠ [] → .retaining n ∈ b.jobs ∧ (b.sessions n).outcomes.head? = some .success)
  ended : ∀ status, (b.sessions n).outcomes.head? = some status →
    b.active = some n ∨ (∃ job ∈ b.jobs, job.claim = some n) ∨
      b.Cleared n status ∧ Told (b.sessions n) status
  held : (b.sessions n).outcomes.head? = some .success → (b.sessions n).tab = true →
    b.retainedKey = some n ∨ b.Releasing n
  retained : b.retainedKey = some n → (b.sessions n).outcomes.head? = some .success

/-- The invariant: jobs claim different sessions, and each session is as it should be. -/
structure Inv (b : Background) : Prop where
  job : ∀ job ∈ b.jobs, b.JobOK job
  apart : (b.jobs.filterMap Job.claim).Nodup
  session : ∀ n, b.SessionOK n

/-! ## Change of one session -/

/-- The session is as it was. -/
structure Same (b b' : Background) (m : TaskID) : Prop where
  session : b'.sessions m = b.sessions m
  active : b'.active = some m ↔ b.active = some m
  stored : b'.storedKey = some m → b.storedKey = some m
  kept : b.live m = true → b.storedKey = some m → b'.storedKey = some m
  retained : b'.retainedKey = some m → b.retainedKey = some m
  held : b.retainedKey = some m → (b.sessions m).tab = true → b'.retainedKey = some m ∨ b'.Releasing m

theorem Same.live (h : Same b b' m) : b'.live m = b.live m := by
  simp [Background.live, h.session]

theorem Same.cleaned {next : Point} (h : Same b b' m) (hc : b.Cleaned m next) : b'.Cleaned m next where
  listening := h.session ▸ hc.listening
  total := h.session ▸ hc.total
  memory := fun ha => hc.memory (h.active.mp ha)
  untold := h.session ▸ hc.untold
  idle := h.session ▸ hc.idle
  keys hp := by
    have hkeys := hc.keys hp
    rw [h.session]
    exact ⟨hkeys.1, hkeys.2.1, fun hs => hkeys.2.2 (h.stored hs)⟩

theorem Same.cleared (h : Same b b' m) (hc : b.Cleared m status) : b'.Cleared m status where
  alarms := h.session ▸ hc.alarms
  listeners := h.session ▸ hc.listeners
  keys := by
    rw [h.session]
    exact ⟨hc.keys.1, hc.keys.2.1, fun hs => hc.keys.2.2 (h.stored hs)⟩
  memory := fun ha => hc.memory (h.active.mp ha)
  tab := h.session ▸ hc.tab

theorem Same.jobOK (h : Same b b' m) (hnext : b.next ≤ b'.next) (hm : job.session = some m)
    (hjob : b.JobOK job) : b'.JobOK job := by
  cases job with
  | created n | removed n =>
    cases hm
    refine ⟨Nat.lt_of_lt_of_le hjob.1 hnext, ?_⟩
    rw [h.session]
    exact hjob.2
  | cleanup n status closeTab next after =>
    cases hm
    obtain ⟨hbegun, hhead, hcleaned, htab⟩ := hjob
    refine ⟨?_, ?_, h.cleaned hcleaned, ?_⟩ <;> rw [h.session]
    · exact hbegun
    · exact hhead
    · exact htab
  | completing n status read after =>
    cases hm
    obtain ⟨hbegun, hhead, hcleared, hrest⟩ := hjob
    refine ⟨?_, ?_, h.cleared hcleared, ?_⟩ <;> rw [h.session]
    · exact hbegun
    · exact hhead
    · exact hrest
  | retaining n =>
    obtain rfl := some.inj hm
    show (b'.sessions n).outcomes.head? = some .success
    rw [h.session]
    exact hjob
  | forget read closing | release read closing =>
    obtain rfl : read = some m := hm
    show (b'.sessions m).outcomes.head? = some .success
    rw [h.session]
    exact hjob
  | _ => cases hm

theorem JobOK.congr (hjob : b.JobOK job) (hnext : b.next ≤ b'.next)
    (h : ∀ m, job.session = some m → Same b b' m) : b'.JobOK job := by
  cases hs : job.session with
  | some m => exact (h m hs).jobOK hnext hs hjob
  | none =>
    cases job with
    | forget read closing | release read closing =>
      obtain rfl : read = none := hs
      trivial
    | finished n status => exact hjob
    | reported n status => exact hjob
    | created n => cases hs
    | cleanup n status closeTab next after => cases hs
    | completing n status read after => cases hs
    | retaining n => cases hs
    | removed n => cases hs
    | _ => trivial

theorem Same.sessionOK (h : Same b b' m) (hnext : b.next ≤ b'.next)
    (hretaining : .retaining m ∈ b.jobs → .retaining m ∈ b'.jobs)
    (hclaimed : (∃ job ∈ b.jobs, job.claim = some m) → ∃ job ∈ b'.jobs, job.claim = some m)
    (hreleasing : b.Releasing m → b'.Releasing m) (hs : b.SessionOK m) : b'.SessionOK m where
  fresh hle := by
    rw [h.session]
    exact hs.fresh (Nat.le_trans hnext hle)
  unbegun hbegun := by
    rw [h.session] at hbegun ⊢
    obtain ⟨hactive, hstored, hrest⟩ := hs.unbegun hbegun
    exact ⟨fun ha => hactive (h.active.mp ha), fun hk => hstored (h.stored hk), hrest⟩
  untold ho := by
    rw [h.session] at ho ⊢
    exact hs.untold ho
  stored hlive := by
    rw [h.live] at hlive
    obtain ⟨hkey, hpayload⟩ := hs.stored hlive
    rw [h.session]
    exact ⟨h.kept hlive hkey, hpayload⟩
  listening hl := by
    rw [h.session] at hl
    exact h.active.mpr (hs.listening hl)
  active ha := by
    obtain ⟨hb, hc, hout⟩ := hs.active (h.active.mp ha)
    rw [h.session]
    exact ⟨hb, hc, fun ho => ⟨hretaining (hout ho).1, (hout ho).2⟩⟩
  ended status hhead := by
    rw [h.session] at hhead ⊢
    rcases hs.ended status hhead with ha | hjob | ⟨hcleared, htold⟩
    · exact .inl (h.active.mpr ha)
    · exact .inr (.inl (hclaimed hjob))
    · exact .inr (.inr ⟨h.cleared hcleared, htold⟩)
  held hhead htab := by
    rw [h.session] at hhead htab
    rcases hs.held hhead htab with hkey | hrelease
    · exact h.held hkey htab
    · exact .inr (hreleasing hrelease)
  retained hkey := by
    rw [h.session]
    exact hs.retained (h.retained hkey)

theorem Same.sessionOK_of_needed (h : Same b b' m) (hnext : b.next ≤ b'.next)
    (hjobs : ∀ job ∈ b.jobs, job.needed = some m → job ∈ b'.jobs) (hs : b.SessionOK m) :
    b'.SessionOK m := by
  refine h.sessionOK hnext (fun hjob => hjobs _ hjob rfl) ?_ ?_ hs
  · rintro ⟨job, hjob, hclaim⟩
    exact ⟨job, hjobs job hjob (Job.needed_of_claim hclaim), hclaim⟩
  · rintro ⟨closing, hjob⟩
    exact ⟨closing, hjobs _ hjob rfl⟩

theorem Inv.change (n : TaskID) (h : Inv b) (hsame : ∀ m, m ≠ n → Same b b' m)
    (hnext : b.next ≤ b'.next) (hsession : b'.SessionOK n)
    (hkept : ∀ job ∈ b.jobs, job.needed ≠ some n → job.needed ≠ none → job ∈ b'.jobs)
    (hjobs : ∀ job ∈ b'.jobs, job ∈ b.jobs ∧ job.session ≠ some n ∨ b'.JobOK job)
    (hapart : (b'.jobs.filterMap Job.claim).Nodup) : Inv b' where
  job job hjob := by
    rcases hjobs job hjob with ⟨hold, hne⟩ | hok
    · refine (h.job job hold).congr hnext fun m hm => hsame m ?_
      rintro rfl
      exact hne hm
    · exact hok
  apart := hapart
  session m := by
    by_cases hm : m = n
    · exact hm ▸ hsession
    · refine (hsame m hm).sessionOK_of_needed hnext (fun job hjob hs => ?_) (h.session m)
      exact hkept job hjob (by rw [hs]; simpa using hm) (by simp [hs])

theorem Inv.rejob (h : Inv b) (hsame : ∀ m, Same b b' m) (hnext : b.next ≤ b'.next)
    (hkept : ∀ job ∈ b.jobs, job.needed ≠ none → job ∈ b'.jobs)
    (hjobs : ∀ job ∈ b'.jobs, job ∈ b.jobs ∨ b'.JobOK job)
    (hapart : (b'.jobs.filterMap Job.claim).Nodup) : Inv b' where
  job job hjob := by
    rcases hjobs job hjob with hold | hok
    · exact (h.job job hold).congr hnext fun m _ => hsame m
    · exact hok
  apart := hapart
  session m := (hsame m).sessionOK_of_needed hnext
    (fun job hjob hs => hkept job hjob (by simp [hs])) (h.session m)

theorem Same.of_eq (hsessions : b'.sessions = b.sessions) (hactive : b'.active = b.active)
    (hstored : b'.storedKey = b.storedKey) (hretained : b'.retainedKey = b.retainedKey) :
    Same b b' m where
  session := congrFun hsessions m
  active := by rw [hactive]
  stored := by rw [hstored]; exact id
  kept _ := by rw [hstored]; exact id
  retained := by rw [hretained]; exact id
  held hr _ := .inl (hretained.trans hr)

theorem Inv.globals {c : Background} (h : Inv b) (hsessions : c.sessions = b.sessions)
    (hactive : c.active = b.active) (hstored : c.storedKey = b.storedKey)
    (hretained : c.retainedKey = b.retainedKey) (hnext : c.next = b.next)
    (hjobs : c.jobs = b.jobs) : Inv c := by
  have hsame : ∀ m, Same b c m := fun _ => .of_eq hsessions hactive hstored hretained
  refine h.rejob hsame (Nat.le_of_eq hnext.symm) ?_ ?_ ?_
  · rw [hjobs]
    exact fun _ hjob _ => hjob
  · rw [hjobs]
    exact fun _ hjob => .inl hjob
  · rw [hjobs]
    exact h.apart

theorem Inv.perm {l : List Job} (h : Inv b) (hl : b.jobs.Perm l) : Inv { b with jobs := l } := by
  refine h.rejob (fun _ => .of_eq rfl rfl rfl rfl) (Nat.le_refl _) ?_ ?_ ?_
  · exact fun job hjob _ => hl.mem_iff.mp hjob
  · exact fun job hjob => .inl (hl.mem_iff.mpr hjob)
  · exact (hl.filterMap Job.claim).nodup_iff.mp h.apart

theorem Inv.spawn (h : Inv b) (hok : b.JobOK job)
    (hclaim : ∀ n, job.claim = some n → ∀ other ∈ b.jobs, other.claim ≠ some n) :
    Inv (b.spawn job) := by
  have hsame : ∀ m, Same b (b.spawn job) m := fun _ => .of_eq rfl rfl rfl rfl
  refine h.rejob hsame (Nat.le_refl _) ?_ ?_ ?_
  · exact fun other hother _ => mem_cons_of_mem _ hother
  · intro other hother
    rcases mem_cons.mp hother with rfl | hold
    · exact .inr (hok.congr (Nat.le_refl _) fun m _ => hsame m)
    · exact .inl hold
  · cases hc : job.claim with
    | none => simpa [hc] using h.apart
    | some n =>
      simp only [spawn_jobs, filterMap_cons, hc, nodup_cons]
      refine ⟨?_, h.apart⟩
      intro hmem
      obtain ⟨other, hother, hsome⟩ := mem_filterMap.mp hmem
      exact hclaim n hc other hother hsome

theorem Inv.drop (h : Inv (b.spawn job)) (hneeded : job.needed = none) : Inv b := by
  refine h.rejob (fun _ => .of_eq rfl rfl rfl rfl) (Nat.le_refl _) ?_ ?_ ?_
  · intro other hother hne
    rcases mem_cons.mp hother with rfl | hold
    · exact absurd hneeded hne
    · exact hold
  · exact fun other hother => .inl (mem_cons_of_mem _ hother)
  · exact h.apart.sublist ((sublist_cons_self _ _).filterMap _)

/-! ## Start and terminal events -/

theorem same_modify (f : Session → Session) (hm : m ≠ n) : Same b (b.modify n f) m where
  session := modify_of_ne f hm
  active := .rfl
  stored := id
  kept _ := id
  retained := id
  held hr _ := .inl hr

theorem no_success (ho : (b.sessions n).outcomes = []) : (b.sessions n).outcomes.head? ≠ some .success := by
  simp [ho]

theorem lt_of_session (h : Inv b) (hjob : job ∈ b.jobs) (hs : job.session = some n) : n < b.next := by
  by_contra hnot
  have hfresh := ((h.session n).fresh (Nat.le_of_not_lt hnot)).1
  have ho := ((h.session n).unbegun hfresh).2.2.1
  have hok := h.job job hjob
  cases job with
  | created m | removed m =>
    cases hs
    exact hnot hok.1
  | cleanup m status closeTab next after | completing m status read after =>
    cases hs
    simp [hok.1] at hfresh
  | retaining m =>
    cases hs
    exact absurd hok (no_success ho)
  | forget read closing | release read closing =>
    obtain rfl : read = some n := hs
    exact absurd hok (no_success ho)
  | _ => cases hs

theorem Job.session_of_claim (h : job.claim = some n) : job.session = some n := by
  cases job <;> first | exact h | cases h

theorem not_claimed_of_active (h : Inv b) (ha : b.active = some n) :
    ∀ other ∈ b.jobs, other.claim ≠ some n := by
  intro other hother hclaim
  have hok := h.job other hother
  have hbegun : (b.sessions n).begun := by
    by_contra hnot
    exact ((h.session n).unbegun (by simpa using hnot)).1 ha
  cases other with
  | created m =>
    cases hclaim
    simp [hok.2] at hbegun
  | cleanup m status closeTab next after | completing m status read after =>
    cases hclaim
    exact hok.2.2.1.memory ha
  | _ => cases hclaim

theorem not_claimed_of_live (h : Inv b) (hlive : b.live n) :
    ∀ other ∈ b.jobs, other.claim ≠ some n := by
  intro other hother hclaim
  have hok := h.job other hother
  simp only [live, Bool.and_eq_true, List.isEmpty_iff] at hlive
  cases other with
  | created m =>
    cases hclaim
    simp [hok.2] at hlive
  | cleanup m status closeTab next after | completing m status read after =>
    cases hclaim
    have hhead := hok.2.1
    simp [hlive.2] at hhead
  | _ => cases hclaim

theorem Inv.createTab (h : Inv b) (dsl : Bool) : Inv (b.createTab dsl) := by
  have hs := h.session b.next
  obtain ⟨hbegun, htab⟩ := hs.fresh (Nat.le_refl _)
  obtain ⟨hactive, hstored, ho, htotal, hidle, hcontext⟩ := hs.unbegun hbegun
  have htold := hs.untold ho
  have hcreated : Inv ({ b with next := b.next + 1 }.modify b.next fun s =>
      { s with tab := true, dsl := dsl }) := by
    refine h.change b.next (fun m hm => ?_) (Nat.le_succ _) ?_ ?_ ?_ h.apart
    · have hsame := same_modify (b := { b with next := b.next + 1 })
        (fun s => { s with tab := true, dsl := dsl }) hm
      exact ⟨hsame.session, .rfl, id, fun _ => id, id, fun hr _ => .inl hr⟩
    · constructor
      case fresh => exact fun hle => absurd hle (Nat.not_succ_le_self _)
      case unbegun => simp [hactive, hstored, ho, htotal, hidle, hcontext]
      case untold => simp [htold]
      case stored => simp [live, hbegun]
      case listening => simpa using hs.listening
      case active => simp [hactive]
      case ended => simp [ho]
      case held => simp [ho]
      case retained => simpa using hs.retained
    · exact fun job hjob _ _ => hjob
    · intro job hjob
      refine .inl ⟨hjob, fun hsession => ?_⟩
      exact absurd (lt_of_session h hjob hsession) (Nat.lt_irrefl _)
  refine hcreated.spawn ⟨Nat.lt_succ_self _, by simp [hbegun]⟩ ?_
  rintro _ ⟨⟩ other hother hclaim
  exact absurd (lt_of_session h hother (Job.session_of_claim hclaim)) (Nat.lt_irrefl _)

theorem Inv.proceed (h : Inv b) (after : After) : Inv (b.proceed after) := by
  cases after with
  | nothing => exact h
  | start dsl => exact h.createTab dsl
  | abort => exact h.globals rfl rfl rfl rfl rfl rfl

theorem SessionOK.of_live (hs : b.SessionOK n) (hlive : b.live n) :
    (b.sessions n).begun ∧ (b.sessions n).outcomes = [] ∧
      (b.sessions n).broadcasts = [] ∧ (b.sessions n).completions = [] := by
  simp only [live, Bool.and_eq_true, List.isEmpty_iff] at hlive
  exact ⟨hlive.1, hlive.2, hs.untold hlive.2⟩

theorem removed_of_live (h : Inv b) (hlive : b.live n) (hjob : job ∈ b.jobs)
    (hs : job.session = some n) : job = .removed n ∧ (b.sessions n).tab = false := by
  have hok := h.job job hjob
  have hnone : ∀ other ∈ b.jobs, other.claim ≠ some n := not_claimed_of_live h hlive
  obtain ⟨-, ho, -⟩ := (h.session n).of_live hlive
  cases job with
  | removed m =>
    cases hs
    exact ⟨rfl, hok.2⟩
  | retaining m =>
    cases hs
    exact absurd hok (no_success ho)
  | forget read closing | release read closing =>
    obtain rfl : read = some n := hs
    exact absurd hok (no_success ho)
  | created m | cleanup m status closeTab next after | completing m status read after =>
    exact absurd hs (hnone _ hjob)
  | _ => cases hs

theorem Inv.terminal {closeTab : Bool} {after : After} (h : Inv b) (hlive : b.live n)
    (hstatus : status ≠ .success)
    (hclose : closeTab = false → (b.sessions n).tab = false)
    (hactive : b'.active ≠ some n) (hothers : ∀ m, m ≠ n → (b'.active = some m ↔ b.active = some m))
    (hself : b'.sessions n = { b.sessions n with
      listening := false, total := false, outcomes := [status] })
    (hrest : ∀ m, m ≠ n → b'.sessions m = b.sessions m)
    (hstored : b'.storedKey = b.storedKey) (hretained : b'.retainedKey = b.retainedKey)
    (hnext : b'.next = b.next)
    (hjobs : b'.jobs = .cleanup n status closeTab .idleAlarm after :: b.jobs) : Inv b' := by
  have hs := h.session n
  obtain ⟨hbegun, ho, hb, hc⟩ := hs.of_live hlive
  refine h.change n (fun m hm => ?_) (Nat.le_of_eq hnext.symm) ?_ ?_ ?_ ?_
  · refine ⟨hrest m hm, hothers m hm, ?_, ?_, ?_, ?_⟩
    · rw [hstored]; exact id
    · rw [hstored]; exact fun _ => id
    · rw [hretained]; exact id
    · rw [hretained]; exact fun hr _ => .inl hr
  · constructor
    case fresh =>
      intro hle
      rw [hnext] at hle
      simpa [hself] using hs.fresh hle
    case unbegun => simp [hself, hbegun]
    case untold => simp [hself]
    case stored => simp [live, hself]
    case listening => simp [hself]
    case active => exact fun ha => absurd ha hactive
    case ended =>
      intro st _
      exact .inr (.inl ⟨_, hjobs ▸ mem_cons_self, rfl⟩)
    case held => simp [hself, hstatus]
    case retained =>
      intro hr
      rw [hretained] at hr
      have hhead := hs.retained hr
      simp [ho] at hhead
  · exact fun job hjob _ _ => hjobs ▸ mem_cons_of_mem _ hjob
  · intro job hjob
    rw [hjobs] at hjob
    rcases mem_cons.mp hjob with rfl | hold
    · refine .inr ⟨by simp [hself, hbegun], by simp [hself], ?_, ?_⟩
      · constructor
        case listening => simp [hself]
        case total => simp [hself]
        case memory => exact hactive
        case untold => simp [hself, hb, hc]
        case idle => exact fun hne => absurd rfl hne
        case keys => rintro (hp | hp) <;> cases hp
      · rintro (hfalse | hp) htab
        · simp [hself, hclose hfalse] at htab
        · cases hp
    · by_cases hj : job.session = some n
      · obtain ⟨rfl, htab⟩ := removed_of_live h hlive hold hj
        have hlt : n < b.next := (h.job _ hold).1
        exact .inr ⟨hnext ▸ hlt, by simpa [hself] using htab⟩
      · exact .inl ⟨hold, hj⟩
  · rw [hjobs]
    simp only [filterMap_cons, Job.claim, nodup_cons]
    refine ⟨?_, h.apart⟩
    intro hmem
    obtain ⟨other, hother, hsome⟩ := mem_filterMap.mp hmem
    exact not_claimed_of_live h hlive other hother hsome

theorem Inv.endActive {closeTab : Bool} (after : After) (h : Inv b) (hopen : b.unended)
    (hstatus : status ≠ .success)
    (hclose : ∀ n, b.active = some n → closeTab = false → (b.sessions n).tab = false) :
    Inv (b.endActive status closeTab after) := by
  unfold Background.endActive
  cases ha : b.active with
  | none => exact h.proceed after
  | some n =>
    have hlive : b.live n := by simpa [unended, ha] using hopen
    have ho := ((h.session n).of_live hlive).2.1
    have hnote : (b.note n status).active = some n := ha
    simp only [cleanupActive, hnote]
    refine h.terminal (n := n) hlive hstatus (hclose n ha) ?_ ?_ ?_ ?_ rfl rfl rfl rfl
    · simp
    · intro m hm
      simp [ha, Ne.symm hm]
    · simp [note, ho]
    · intro m hm
      simp [note, hm]

theorem Inv.cleanupStored (h : Inv b) (hlive : b.live n) (hactive : b.active ≠ some n) :
    Inv ((b.note n .failure).cleanupStored n .failure) := by
  have hs := h.session n
  have ho := (hs.of_live hlive).2.1
  have hquiet : (b.sessions n).listening = false := by
    by_contra hnot
    exact hactive (hs.listening (by simpa using hnot))
  refine h.terminal (n := n) hlive (by simp) (by simp) hactive (fun m _ => .rfl) ?_ ?_ rfl rfl
    rfl rfl
  · simp [Background.cleanupStored, note, ho, hquiet]
  · intro m hm
    simp [Background.cleanupStored, note, hm]

theorem Inv.lower (h : Inv b) (f : Session → Session)
    (hbegun : (f (b.sessions n)).begun = (b.sessions n).begun)
    (ho : (f (b.sessions n)).outcomes = (b.sessions n).outcomes)
    (hb : (f (b.sessions n)).broadcasts = (b.sessions n).broadcasts)
    (hc : (f (b.sessions n)).completions = (b.sessions n).completions)
    (hd : (f (b.sessions n)).dsl = (b.sessions n).dsl)
    (hl : (f (b.sessions n)).listening = (b.sessions n).listening)
    (htotal : (f (b.sessions n)).total → (b.sessions n).total = true)
    (hidle : (f (b.sessions n)).idle → (b.sessions n).idle = true)
    (hcontext : (f (b.sessions n)).context → (b.sessions n).context = true)
    (htab : (f (b.sessions n)).tab → (b.sessions n).tab = true)
    (hpayload : (f (b.sessions n)).payload → (b.sessions n).payload = true)
    (hkept : b.live n → (b.sessions n).payload = true → (f (b.sessions n)).payload = true) :
    Inv (b.modify n f) := by
  have hs := h.session n
  have hlower : ∀ {x y : Bool}, (x → y = true) → y = false → x = false := by
    intro x y hxy hy
    cases x with
    | false => rfl
    | true => simp [hxy rfl] at hy
  have hcleared : ∀ st, b.Cleared n st → (b.modify n f).Cleared n st := by
    intro st hst
    constructor
    case alarms => simpa using ⟨hlower htotal hst.alarms.1, hlower hidle hst.alarms.2⟩
    case listeners => simpa [hl] using hst.listeners
    case keys =>
      simpa using ⟨hlower hpayload hst.keys.1, hlower hcontext hst.keys.2.1, hst.keys.2.2⟩
    case memory => exact hst.memory
    case tab => exact fun ht => hst.tab (htab (by simpa using ht))
  refine h.change n (fun m hm => same_modify f hm) (Nat.le_refl _) ?_ (fun job hjob _ _ => hjob) ?_
    h.apart
  · constructor
    case fresh =>
      intro hle
      obtain ⟨hfresh, hclosed⟩ := hs.fresh hle
      simpa [hbegun] using ⟨hfresh, hlower htab hclosed⟩
    case unbegun =>
      simp only [modify_self, hbegun, ho, modify_active, modify_storedKey]
      intro hnot
      obtain ⟨ha, hk, hout, ht, hi, hx⟩ := hs.unbegun hnot
      exact ⟨ha, hk, hout, hlower htotal ht, hlower hidle hi, hlower hcontext hx⟩
    case untold => simpa [ho, hb, hc] using hs.untold
    case stored =>
      intro hlive
      have hwas : b.live n := by simpa [live, hbegun, ho] using hlive
      obtain ⟨hkey, hpay⟩ := hs.stored hwas
      exact ⟨hkey, by simpa using hkept hwas hpay⟩
    case listening => simpa [hl] using hs.listening
    case active => simpa [ho, hb, hc] using hs.active
    case ended =>
      intro st hhead
      rw [modify_self, ho] at hhead
      rcases hs.ended st hhead with ha | hjob | ⟨hst, htold⟩
      · exact .inl ha
      · exact .inr (.inl hjob)
      · exact .inr (.inr ⟨hcleared st hst, htold.congr (by simpa) (by simpa) (by simpa)⟩)
    case held =>
      intro hhead ht
      rw [modify_self] at hhead ht
      exact hs.held (ho ▸ hhead) (htab ht)
    case retained => simpa [ho] using hs.retained
  · intro job hjob
    by_cases hj : job.session = some n
    · refine .inr ?_
      have hok := h.job job hjob
      cases job with
      | created m =>
        cases hj
        exact ⟨hok.1, by simpa [hbegun] using hok.2⟩
      | removed m =>
        cases hj
        exact ⟨hok.1, by simpa using hlower htab hok.2⟩
      | cleanup m status closeTab next after =>
        cases hj
        obtain ⟨hbeg, hhead, hcl, ht⟩ := hok
        refine ⟨by simpa [hbegun] using hbeg, by simpa [ho] using hhead, ?_, ?_⟩
        · constructor
          case listening => simpa [hl] using hcl.listening
          case total => simpa using hlower htotal hcl.total
          case memory => exact hcl.memory
          case untold => simpa [hb, hc] using hcl.untold
          case idle => exact fun hne => by simpa using hlower hidle (hcl.idle hne)
          case keys =>
            intro hp
            obtain ⟨hpay, hcon, hkey⟩ := hcl.keys hp
            simpa using ⟨hlower hpayload hpay, hlower hcontext hcon, hkey⟩
        · exact fun hcase hopen => ht hcase (htab (by simpa using hopen))
      | completing m status read after =>
        cases hj
        obtain ⟨hbeg, hhead, hcl, hrest⟩ := hok
        exact ⟨by simpa [hbegun] using hbeg, by simpa [ho] using hhead, hcleared _ hcl,
          by simpa [hb, hc, hd] using hrest⟩
      | retaining m =>
        obtain rfl := some.inj hj
        show ((b.modify m f).sessions m).outcomes.head? = some .success
        rw [modify_self, ho]
        exact hok
      | forget read closing | release read closing =>
        obtain rfl : read = some n := hj
        show ((b.modify n f).sessions n).outcomes.head? = some .success
        rw [modify_self, ho]
        exact hok
      | _ => cases hj
    · exact .inl ⟨hjob, hj⟩

theorem Inv.closeTab (h : Inv b) (n : TaskID) : Inv (b.closeTab n) := by
  unfold Background.closeTab
  split
  · rename_i htab
    have hclosed : Inv (b.modify n fun s => { s with tab := false }) :=
      h.lower _ rfl rfl rfl rfl rfl rfl id id id (by simp) id fun _ => id
    refine hclosed.spawn ⟨?_, by simp⟩ (by simp [Job.claim])
    by_contra hnot
    have hfresh := ((h.session n).fresh (Nat.le_of_not_lt hnot)).2
    simp [hfresh] at htab
  · exact h

theorem Inv.closeTab_spawn (h : Inv (b.spawn job)) (n : TaskID) : Inv ((b.closeTab n).spawn job) := by
  have hclosed := h.closeTab n
  unfold Background.closeTab at hclosed ⊢
  cases htab : (b.sessions n).tab with
  | true =>
    simp only [spawn_sessions, htab, if_true] at hclosed
    simp only [if_true]
    exact hclosed.perm (List.Perm.swap _ _ _)
  | false => simpa [htab] using hclosed

theorem closeTab_closed : ((b.closeTab n).sessions n).tab = false := by
  unfold Background.closeTab
  split
  · simp
  · rename_i htab
    simpa using htab

theorem not_live_of_mayStore (h : Inv b) (hmay : b.mayStore n) (hnot : b.live n = false)
    (m : TaskID) : b.live m = false := by
  by_contra hlive
  rw [Bool.not_eq_false] at hlive
  obtain ⟨hkey, -⟩ := (h.session m).stored hlive
  simp only [mayStore, hkey, all_some, Bool.or_eq_true, beq_iff_eq, hlive, Bool.not_true,
    Bool.false_eq_true, or_false] at hmay
  rw [hmay, hnot] at hlive
  cases hlive

theorem Inv.clearStorage (h : Inv b) (hmay : b.mayStore n) (hnot : b.live n = false) :
    Inv (b.clearStorage n) := by
  have hunstored : Inv { b with storedKey := none } := by
    refine h.rejob (fun m => ?_) (Nat.le_refl _) (fun _ hjob _ => hjob) (fun _ hjob => .inl hjob)
      h.apart
    refine ⟨rfl, .rfl, fun hk => (by cases hk), fun hlive => ?_, id, fun hr _ => .inl hr⟩
    rw [not_live_of_mayStore h hmay hnot m] at hlive
    cases hlive
  refine hunstored.lower _ rfl rfl rfl rfl rfl rfl id id (by simp) id (by simp) fun hlive => ?_
  have hlive : b.live n := hlive
  rw [hnot] at hlive
  cases hlive

end Background

end ReplaySessions

end Aegis
