import Aegis.Requirements.Holders

/-!
# Requirements.Claims

A claim that finds a job to take up takes one up: no row that an interrupted attempt left behind
makes it fail. `ClaimPendingRequirementJob` commits one turn after the other, and a turn without a
copy has failed a job that had no attempts left, so it meets every such job at most once.
-/

namespace Aegis.Requirements

open List Table RequirementJob
open RecordingDb (Sound Accounted)

structure ClaimTurn where
  now : Time
  tie : String → Nat
  reportID : String

def RequirementJob.claimable (now : Time) (j : RequirementJob) : Bool :=
  j.runnable now && j.attemptCount < j.maxAttempts

def RequirementJob.exhausted (j : RequirementJob) : Bool :=
  j.status == .running && j.maxAttempts ≤ j.attemptCount

namespace RecordingDb

/-- `ClaimPendingRequirementJob`, over the turns it takes: `none` when they are not enough. -/
def claimUntilLeased (lease : Duration) :
    List ClaimTurn → RecordingDb → RecordingDb × Except RequirementError (Option RequirementJob)
  | [], db => (db, .ok none)
  | t :: ts, db =>
    match db.claimPendingRequirementJob t.now lease t.tie t.reportID with
    | .error e => (db, .error e)
    | .ok (db', none) => claimUntilLeased lease ts db'
    | .ok (db', some job) => (db', .ok (some job))

def reportIDFree (db : RecordingDb) (id : String) : Prop :=
  db.reports.find? id = none ∧ db.dsl.db.reports.find? id = none

variable {db db' : RecordingDb} {dead : WorkspaceID → String → Prop} {job : RequirementJob} {now : Time} {reportID : String}

theorem insertReport_ok {r : RequirementReport}
    (hparent : db.requirementAttempt r.workspaceID r.recordingID r.jobID r.attemptNumber)
    (hcount : r.callCount = (db.attemptCalls r.workspaceID .requirement r.jobID r.attemptNumber).length)
    (hreplayable : r.replayable = false) (hpos : 0 < r.attemptNumber)
    (hreported : db.attemptReported r.workspaceID .requirement r.jobID r.attemptNumber = false)
    (hfree : db.reportIDFree r.id) :
    ∃ reports, db.reports.insert? r = some reports ∧ db.insertReport r = .ok { db with reports } := by
  obtain ⟨reports, hinsert⟩ := exists_insert? hfree.1
  refine ⟨reports, hinsert, ?_⟩
  simp only [RecordingDb.insertReport, ensure_bind_eq_ok]
  refine ⟨hparent, ?_, ?_, ?_, ?_, ?_, ?_⟩
  · simpa using hcount
  · simp [hreplayable]
  · simpa using hpos
  · simp [hreported]
  · simp [hfree.2]
  · rw [hinsert]
    rfl

theorem recoverAttempt_ok (now : Time) (h : Sound dead db) (hjob : db.jobs.find? job.id = some job)
    (hfree : db.reportIDFree reportID) :
    ∃ db', db.recoverAttempt now reportID job = .ok db' ∧ db'.jobs = db.jobs ∧
      ∀ id, id ≠ reportID → db.reportIDFree id → db'.reportIDFree id := by
  unfold recoverAttempt finalizeInterruptedRequirementAttempt
  by_cases hrunning : (job.status == .running)
  · rw [if_pos hrunning]
    by_cases hzero : job.attemptCount = 0
    · rw [if_pos hzero]
      exact ⟨db, rfl, rfl, fun _ _ hid => hid⟩
    · rw [if_neg hzero]
      cases hreported : db.attemptReported job.workspaceID .requirement job.id job.attemptCount with
      | true => exact ⟨db, rfl, rfl, fun _ _ hid => hid⟩
      | false =>
        have hparent : db.requirementAttempt job.workspaceID job.recordingID job.id
            job.attemptCount :=
          Table.any_eq_true.mpr ⟨job, mem_of_find? hjob, by simp⟩
        obtain ⟨reports, hinsert, hok⟩ := insertReport_ok
          (r := interruptedReport now reportID job (db.jobCalls job job.attemptCount).length)
          hparent rfl rfl (Nat.pos_of_ne_zero hzero) hreported hfree
        have hlive := recordingLive_iff.mpr (h.lineage.job job hjob)
        refine ⟨_, ensure_bind_eq_ok.mpr ⟨hlive, hok⟩, rfl, ?_⟩
        intro id hne hid
        refine ⟨?_, hid.2⟩
        rw [wrote_insert? hinsert id, if_neg (fun he => hne he.symm)]
        exact hid.1
  · rw [if_neg hrunning]
    exact ⟨db, rfl, rfl, fun _ _ hid => hid⟩

theorem takeUp_ok (leaseUntil : Time) (hjob : db.jobs.find? job.id = some job)
    (hrunnable : job.runnable now) :
    (job.exhausted ∧ db.takeUp now leaseUntil job =
      .ok ({ db with jobs := db.jobs.updateRow job.id (interruptJob now).onID }, none)) ∨
    ∃ a, db.takeUp now leaseUntil job =
        .ok ({ db with jobs := db.jobs.updateRow job.id (leaseJob now leaseUntil).onID }, some a) ∧
      a.id = job.id ∧ a.workspaceID = job.workspaceID ∧ a.attemptCount = job.attemptCount + 1 := by
  simp only [runnable, Bool.or_eq_true, Bool.and_eq_true, beq_iff_eq,
    decide_eq_true_eq] at hrunnable
  unfold takeUp
  split
  · rename_i hexhausted
    simp only [Bool.and_eq_true, beq_iff_eq] at hexhausted
    have hdescribes : job.describes job := by
      simp [describes, hexhausted.1]
    refine .inl ⟨by simp [exhausted, hexhausted], ?_⟩
    rw [updateJob_ok hjob hdescribes]
    rfl
  · rename_i hleft
    simp only [Bool.and_eq_true, beq_iff_eq, decide_eq_true_eq, not_and, not_le] at hleft
    refine .inr ⟨{ job with
      status := .running, attemptCount := job.attemptCount + 1,
      startedAt := some (job.startedAt.getD now), leaseUntil := some leaseUntil }, ?_, rfl, rfl, rfl⟩
    rw [updateJob_ok hjob]
    · rfl
    · -- a pending job has attempts left, and a running one was not exhausted
      rcases hrunnable with ⟨⟨hpending, havailable⟩, hcount⟩ | ⟨hrunning, hexpired⟩
      · simp [hpending, havailable, hcount]
      · simp [hrunning, hexpired, hleft hrunning]

structure TurnDone (db db' : RecordingDb) (now : Time) (reportID : String)
    (copy : Option RequirementJob) : Prop where
  free : ∀ id, id ≠ reportID → db.reportIDFree id → db'.reportIDFree id
  retired : copy = none → ∃ job, db.jobs.find? job.id = some job ∧ job.exhausted = true ∧
    db'.jobs = db.jobs.updateRow job.id (interruptJob now).onID
  leased : ∀ a, copy = some a → db'.holds a = true

theorem claimPendingRequirementJob_ok (lease : Duration) (tie : String → Nat) (h : Sound dead db)
    (hfree : db.reportIDFree reportID) (hsome : ∃ j ∈ db.jobs.rows, j.runnable now) :
    ∃ db' copy, db.claimPendingRequirementJob now lease tie reportID = .ok (db', copy) ∧
      TurnDone db db' now reportID copy := by
  unfold claimPendingRequirementJob
  cases hnext : db.nextRunnable now tie with
  | none =>
    obtain ⟨j, hj, hrunnable⟩ := hsome
    have hempty := argmin_eq_none.mp hnext
    exact absurd hrunnable (filter_eq_nil_iff.mp hempty j hj)
  | some job =>
    obtain ⟨hmem, hrunnable⟩ := mem_filter.mp (argmin_mem hnext)
    have hjob := find?_key hmem
    obtain ⟨db₁, hrecover, hjobs, hkept⟩ := recoverAttempt_ok now h hjob hfree
    have hjob₁ : db₁.jobs.find? job.id = some job := hjobs ▸ hjob
    rcases takeUp_ok (now + if lease ≤ 0 then 10 * Duration.minute else lease)
      hjob₁ hrunnable with ⟨hexhausted, hok⟩ | ⟨a, hok, hid, hws, hcount⟩
    · refine ⟨_, none, bind_eq_ok.mpr ⟨db₁, hrecover, hok⟩, hkept, ?_, ?_⟩
      · intro _
        exact ⟨job, hjob, hexhausted,
          congrArg (fun t : Table RequirementJob.id => t.updateRow job.id _) hjobs⟩
      · intro a ha
        cases ha
    · refine ⟨_, some a, bind_eq_ok.mpr ⟨db₁, hrecover, hok⟩, hkept, ?_, ?_⟩
      · intro ha
        cases ha
      · rintro _ ⟨⟩
        have hrow := (wrote_updateRow
          (leaseJob now (now + if lease ≤ 0 then 10 * Duration.minute else lease)).onID hjob₁).self
        refine holds_eq rfl hrow hid.symm ?_
        simp only [RequirementJob.describes, hws, hcount]
        simp [RequirementJobUpdate.onID, leaseJob]

/-! ## All turns -/

theorem runnable_mono {start : Time} {j : RequirementJob} (hle : start ≤ now)
    (h : j.runnable start) : j.runnable now = true := by
  simp only [runnable, leaseExpired, Bool.or_eq_true,
    Bool.and_eq_true, beq_iff_eq, decide_eq_true_eq, Option.any_eq_true] at h ⊢
  rcases h with ⟨⟨hpending, havailable⟩, hcount⟩ | ⟨hrunning, lease, hlease, hexpired⟩
  · exact .inl ⟨⟨hpending, havailable.trans hle⟩, hcount⟩
  · exact .inr ⟨hrunning, lease, hlease, hexpired.trans hle⟩

theorem countP_exhausted_retire (now : Time) (hjob : db.jobs.find? job.id = some job)
    (hexhausted : job.exhausted) :
    (db.jobs.updateRow job.id (interruptJob now).onID).rows.countP exhausted + 1 =
      db.jobs.rows.countP exhausted := by
  have hcount := Table.countP_updateRow (interruptJob now).onID exhausted hjob
  have hretired : exhausted ((interruptJob now).onID.set job) = false := rfl
  simpa [hexhausted, hretired] using hcount

theorem claimUntilLeased_ok {start : Time} {lease : Duration} {turns : List ClaimTurn}
    (h : Sound dead db) (hnow : ∀ t ∈ turns, start ≤ t.now)
    (hnodup : (turns.map ClaimTurn.reportID).Nodup)
    (hfree : ∀ t ∈ turns, db.reportIDFree t.reportID)
    (henough : db.jobs.rows.countP exhausted < turns.length) :
    (∃ a, (db.claimUntilLeased lease turns).2 = .ok (some a) ∧
      (db.claimUntilLeased lease turns).1.holds a) ∨
    ((db.claimUntilLeased lease turns).2 = .error .noTaskAvailable ∧
      ∀ j ∈ db.jobs.rows, j.claimable start = false) := by
  induction turns generalizing db with
  | nil => simp at henough
  | cons t ts ih =>
    obtain ⟨hhead, hnodup⟩ := nodup_cons.mp hnodup
    unfold claimUntilLeased
    by_cases hsome : ∃ j ∈ db.jobs.rows, j.runnable t.now
    · obtain ⟨db', copy, hok, hdone⟩ := claimPendingRequirementJob_ok lease t.tie h
        (hfree t mem_cons_self) hsome
      rw [hok]
      cases copy with
      | some a => exact .inl ⟨a, rfl, hdone.leased a rfl⟩
      | none =>
        obtain ⟨job, hjob, hexhausted, hjobs⟩ := hdone.retired rfl
        have hcount := countP_exhausted_retire t.now hjob hexhausted
        have hrest := ih (h.claimPendingRequirementJob hok)
          (fun u hu => hnow u (mem_cons_of_mem _ hu)) hnodup
          (fun u hu => hdone.free _ (fun he => hhead (he ▸ mem_map_of_mem hu))
            (hfree u (mem_cons_of_mem _ hu)))
          (by rw [hjobs, length_cons] at *; omega)
        rcases hrest with hleased | ⟨hnone, hclaimable⟩
        · exact .inl hleased
        · refine .inr ⟨hnone, ?_⟩
          intro j hj
          by_cases hid : j.id = job.id
          · -- the job that was retired had no attempt left
            obtain rfl := eq_of_find? hjob (find?_key hj) hid
            simp only [exhausted, Bool.and_eq_true, decide_eq_true_eq] at hexhausted
            simp [claimable, Nat.not_lt.mpr hexhausted.2]
          · refine hclaimable j (mem_of_find? ?_ (k := j.id))
            rw [hjobs, (wrote_updateRow _ hjob).of_ne (fun he => hid he.symm)]
            exact find?_key hj
    · have hnext : db.nextRunnable t.now t.tie = none := by
        refine argmin_eq_none.mpr (filter_eq_nil_iff.mpr ?_)
        intro j hj hrunnable
        exact hsome ⟨j, hj, hrunnable⟩
      have hturn : db.claimPendingRequirementJob t.now lease t.tie t.reportID =
          .error .noTaskAvailable := by
        unfold claimPendingRequirementJob
        rw [hnext]
      rw [hturn]
      refine .inr ⟨rfl, ?_⟩
      intro j hj
      have hnot : ¬j.runnable start := fun hrunnable =>
        hsome ⟨j, hj, runnable_mono (hnow t mem_cons_self) hrunnable⟩
      simp [claimable, hnot]

end RecordingDb

namespace RecordingServer

/-- What the calls of a worker come to whose attempt is not the current one. -/
structure Harmless (s : RecordingServer) (k : Nat) (job : RequirementJob) : Prop where
  complete : ∀ d c o report, s.step d (.completeRequirementJob c k o report) = s
  draft : ∀ d c o n subject report,
    s.step d (.completeRequirementJobWithDraft c k o n subject report) = s
  fail : ∀ d c terminal code message retryDelay report,
    s.step d (.failRequirementJob c k terminal code message retryDelay report) = s
  progress : ∀ d c total completed,
    s.step d (.updateRequirementJobProgress c job.id job.attemptCount total completed) = s
  call : ∀ d earlier c call accepted joined newID, ∃ calls,
    s.step d (.createLLMProviderCall earlier c call accepted joined newID) = s.withDb { s.db with calls }

/-- The report of the attempt number `n` of the job. -/
def ReportOf (j : RequirementJob) (n : Nat) (r : RequirementReport) : Prop :=
  r.workspaceID = j.workspaceID ∧ r.jobID = j.id ∧ r.attemptNumber = n

/-- One holder for each attempt, one report for each attempt, and no row that stops the claims. -/
structure AttemptsHold (s : RecordingServer) : Prop where
  numbered : s.claims.Pairwise fun a b => a.id = b.id → a.attemptCount < b.attemptCount
  leased : ∀ j ∈ s.db.jobs.rows, j.status = .running →
    j.leaseUntil.isSome = true ∧ j.attemptCount ≤ j.maxAttempts
  stale : ∀ k job, s.claims[k]? = some job → s.db.holds job = false → s.Harmless k job
  reported : ∀ j ∈ s.db.jobs.rows, ∀ n, j.over n → s.db.jobCalls j n ≠ [] →
    ∃ r ∈ s.db.reports.rows, ReportOf j n r ∧ r.callCount = (s.db.jobCalls j n).length ∧
      ∀ q ∈ s.db.reports.rows, ReportOf j n q → q = r
  closed : ∀ j ∈ s.db.jobs.rows, ∀ n, j.over n → s.db.jobCalls j n ≠ [] →
    ∀ d earlier c call accepted joined newID, call.jobType = .requirement → call.jobID = j.id →
      call.attemptNumber = n → s.step d (.createLLMProviderCall earlier c call accepted joined newID) = s
  named : ∀ j ∈ s.db.jobs.rows, j.status = .completed → j.kind = .normalize →
    ∃ q ∈ s.db.requirements.rows, j.requirementID = some q.id ∧ q.sourceJobID = some j.id ∧
      ∀ p ∈ s.db.requirements.rows, p.sourceJobID = some j.id → p = q
  turn : ∀ now lease tie reportID, s.db.reportIDFree reportID →
    (∃ j ∈ s.db.jobs.rows, j.runnable now = true) →
      ∃ r, s.db.claimPendingRequirementJob now lease tie reportID = .ok r
  claim : ∀ start lease turns, (∀ t ∈ turns, start ≤ ClaimTurn.now t) →
    (turns.map ClaimTurn.reportID).Nodup → (∀ t ∈ turns, s.db.reportIDFree t.reportID) →
    s.db.jobs.rows.countP RequirementJob.exhausted < turns.length →
    (∃ j ∈ s.db.jobs.rows, j.claimable start = true) →
      ∃ a, (s.db.claimUntilLeased lease turns).2 = .ok (some a) ∧
        (s.db.claimUntilLeased lease turns).1.holds a = true

variable {d : Digests} {s : RecordingServer}

theorem step_of_refused {e : RecordingEvent} (h : ∀ s', s.serve d e ≠ .ok s') : s.step d e = s := by
  unfold step
  split
  · rfl
  · rename_i s' hok
    exact absurd hok (h s')

theorem withCopy_refused {k : Nat} {job : RequirementJob}
    {f : RequirementJob → Except RequirementError RecordingDb} (hk : s.claims[k]? = some job)
    (hf : ∀ db', f job ≠ .ok db') (s' : RecordingServer) : s.withCopy k f ≠ .ok s' := by
  intro hok
  simp only [withCopy, hk] at hok
  obtain ⟨db', hcall, -⟩ := map_eq_ok.mp hok
  exact hf db' hcall

theorem createLLMProviderCall_eq_ok {c : Ctx} {call : LLMProviderCall} {accepted joined : Bool}
    {newID : String} {db db' earlier : RecordingDb}
    (hok : db.createLLMProviderCall c call accepted joined newID earlier = .ok db') :
    ∃ recordingID calls, db' = { db with calls } ∧
      db.attemptReported c.workspace call.jobType call.jobID call.attemptNumber = false ∧
      (call.jobType = .requirement → db.IsJob c.workspace recordingID call.jobID) := by
  simp only [RecordingDb.createLLMProviderCall, bind_eq_ok] at hok
  obtain ⟨-, -, ⟨recordingID, attemptCount⟩, -, -, -, -, -, hinsert⟩ := hok
  obtain ⟨calls, -, hdb, hparent, hunreported⟩ := RecordingDb.insertCall_eq_ok hinsert
  refine ⟨recordingID, calls, hdb, hunreported, ?_⟩
  intro htype
  have hattempt : db.requirementAttempt c.workspace recordingID call.jobID call.attemptNumber := by
    simpa [htype] using hparent
  obtain ⟨j, hj, hws, hrec, -⟩ := RecordingDb.of_requirementAttempt hattempt
  exact ⟨j, hj, hws, hrec⟩

namespace Orderly

theorem harmless {k : Nat} {job : RequirementJob} (h : Orderly s) (hk : s.claims[k]? = some job)
    (hstale : s.db.holds job = false) : s.Harmless k job where
  complete d c o report := by
    refine step_of_refused (withCopy_refused hk fun db' hok => ?_)
    have hholds := (h.accounted.completeRequirementJob (by simp [hstale]) (by simp [hstale]) hok).1
    simp [hstale] at hholds
  draft d c o n subject report := by
    refine step_of_refused (withCopy_refused hk fun db' hok => ?_)
    have hholds := (h.accounted.completeRequirementJobWithDraft (by simp [hstale]) hok).1
    simp [hstale] at hholds
  fail d c terminal code message retryDelay report := by
    refine step_of_refused (withCopy_refused hk fun db' hok => ?_)
    have hholds := (h.accounted.failRequirementJob (by simp [hstale]) hok).1
    simp [hstale] at hholds
  progress d c total completed := by
    refine step_of_refused fun s' hok => ?_
    obtain ⟨db', hcall, -⟩ := map_eq_ok.mp hok
    obtain ⟨j, hj, hid, hp, -⟩ := RecordingDb.updateJob_eq_ok hcall
    simp only [Bool.and_eq_true, beq_iff_eq] at hp
    -- the row is in the workspace of its copies
    have hidentity := (h.copy job (mem_of_getElem? hk) j (hid ▸ hj)).1
    have hws := (roots_of_identity hidentity).2.1
    have hdescribes : job.describes j := by
      simp [describes, hws, hp.1.2, hp.2]
    have hholds := RecordingDb.holds_eq rfl hj hid hdescribes
    simp [hstale] at hholds
  call d earlier c call accepted joined newID := by
    unfold RecordingServer.step
    split
    · exact ⟨s.db.calls, rfl⟩
    · rename_i s' hok
      obtain ⟨db', hcall, rfl⟩ := map_eq_ok.mp hok
      obtain ⟨recordingID, calls, rfl, -⟩ := createLLMProviderCall_eq_ok hcall
      exact ⟨calls, rfl⟩

variable {j : RequirementJob}

theorem reported {n : Nat} (h : Orderly s) (hj : j ∈ s.db.jobs.rows)
    (hover : j.over n) (hcalls : s.db.jobCalls j n ≠ []) :
    ∃ r ∈ s.db.reports.rows, ReportOf j n r ∧ r.callCount = (s.db.jobCalls j n).length ∧
      ∀ q ∈ s.db.reports.rows, ReportOf j n q → q = r := by
  have hreported := h.accounted.ended j (find?_key hj) n hover hcalls
  obtain ⟨r, hr, hws, hid, hn⟩ := RecordingDb.jobReported_iff.mp hreported
  refine ⟨r, mem_of_find? hr, ⟨hws, hid, hn⟩, ?_, ?_⟩
  · rw [h.accounted.counted r hr, hws, hid, hn]
    rfl
  · rintro q hq ⟨hqws, hqid, hqn⟩
    exact h.accounted.single q r (find?_key hq) hr (hqws.trans hws.symm)
      (hqid.trans hid.symm) (hqn.trans hn.symm)

theorem closed {n : Nat} (h : Orderly s) (hj : j ∈ s.db.jobs.rows)
    (hover : j.over n) (hcalls : s.db.jobCalls j n ≠ []) (d : Digests) (earlier : RecordingDb)
    (c : Ctx) (call : LLMProviderCall) (accepted joined : Bool) (newID : String)
    (htype : call.jobType = .requirement) (hid : call.jobID = j.id) (hn : call.attemptNumber = n) :
    s.step d (.createLLMProviderCall earlier c call accepted joined newID) = s := by
  refine step_of_refused fun s' hok => ?_
  obtain ⟨db', hcall, -⟩ := map_eq_ok.mp hok
  obtain ⟨recordingID, calls, -, hunreported, hparent⟩ := createLLMProviderCall_eq_ok hcall
  have hws := (Accounted.eq_of_isJob (hid ▸ hparent htype) (find?_key hj)).1
  have hreported := h.accounted.ended j (find?_key hj) n hover hcalls
  rw [RecordingDb.jobReported, hws, ← hid, ← hn, ← htype, hunreported] at hreported
  cases hreported

theorem named (h : Orderly s) (hj : j ∈ s.db.jobs.rows)
    (hcompleted : j.status = .completed) (hnormalize : j.kind = .normalize) :
    ∃ q ∈ s.db.requirements.rows, j.requirementID = some q.id ∧ q.sourceJobID = some j.id ∧
      ∀ p ∈ s.db.requirements.rows, p.sourceJobID = some j.id → p = q := by
  obtain ⟨q, hq, hsource, hname⟩ :=
    h.accounted.named j (find?_key hj) hcompleted hnormalize
  refine ⟨q, mem_of_find? hq, hname, hsource, ?_⟩
  intro p hp hpsource
  exact h.accounted.sourced p q (find?_key hp) hq (by simp [hpsource])
    (hpsource.trans hsource.symm)

/-- In an orderly state the attempts hold. -/
theorem attemptsHold (h : Orderly s) : AttemptsHold s where
  numbered := h.claimed
  leased j hj hrunning :=
    ⟨(h.accounted.leased j (find?_key hj) hrunning).1, h.accounted.bounded j (find?_key hj)⟩
  stale _ _ hk hstale := h.harmless hk hstale
  reported _ hj _ hover hcalls := h.reported hj hover hcalls
  closed _ hj _ hover hcalls := h.closed hj hover hcalls
  named _ hj hcompleted hnormalize := h.named hj hcompleted hnormalize
  turn now lease tie reportID hfree hsome := by
    obtain ⟨db', copy, hok, -⟩ :=
      RecordingDb.claimPendingRequirementJob_ok lease tie h.sound hfree hsome
    exact ⟨_, hok⟩
  claim start lease turns hnow hnodup hfree henough hclaimable := by
    rcases RecordingDb.claimUntilLeased_ok h.sound hnow hnodup hfree henough with hleased | ⟨-, hnone⟩
    · exact hleased
    · obtain ⟨j, hj, htrue⟩ := hclaimable
      simp [hnone j hj] at htrue

end Orderly

end RecordingServer

/-- In every state of a disciplined run each attempt has one holder, each attempt that is over one
report of its calls, and a claim takes a job up whenever one can be. -/
theorem disciplined_attemptsHold {d : Digests} {es : List RecordingEvent}
    (hes : Meets (RecordingServer.step d) (fun s e => s.disciplined e = true) .init es) :
    Always (RecordingServer.step d) RecordingServer.AttemptsHold .init es :=
  (hes.always .init fun _ _ h he => RecordingServer.Orderly.step h he).mono fun _ h =>
    h.attemptsHold

namespace Sample

def digests : Digests := ⟨fun _ => "", fun _ => ""⟩

def ctx : Ctx := ⟨"workspace", 0⟩

def recorded (id : String) : RecordingEvent := .createRecording ctx id "owner" "hash" "payload" 100

def earlier (id : String) : RecordingDb :=
  (run (RecordingServer.step digests) .init [recorded id]).db

def job (recordingID : String) : NewRequirementJob :=
  ⟨"job", recordingID, .normalize, .llm, 3, 3, none, none⟩

def posted (recordingID : String) : RecordingEvent :=
  .createRequirementJob (earlier recordingID) ctx (job recordingID) "null" ""

def claimed : RecordingEvent := .claimPendingRequirementJob 1 10 (fun _ => 0) "interrupted"

def begun : List RecordingEvent := [recorded "recording", posted "recording", claimed]

def attempted : RecordingDb := (run (RecordingServer.step digests) .init begun).db

def called : RecordingEvent :=
  .createLLMProviderCall attempted ctx
    ⟨"call", "workspace", "recording", .requirement, "job", 1, 1, false, 0⟩ true true ""

def draft : NewCollectionRequirement :=
  ⟨"requirement", "recording", some "job", .llm, "null", "owner", none⟩

def succeeded : RequirementReport :=
  ⟨"report", "workspace", "recording", "job", 1, .succeeded, 0, "", "", false, 0⟩

/-- The worker completes its attempt with a draft and a report of its call. -/
def completed : List RecordingEvent :=
  begun ++ [called, .completeRequirementJobWithDraft ctx 0 ⟨"null", 1, 1, some "requirement"⟩ draft
    "owner" (some (succeeded, ⟨attempted,
      (run (RecordingServer.step digests) .init (begun ++ [called])).db, true, ""⟩))]

def failed : RecordingEvent := .failRequirementJob ctx 0 true "code" "message" 0 none

end Sample

theorem completed_attemptsHold :
    Always (RecordingServer.step Sample.digests) RecordingServer.AttemptsHold .init
      Sample.completed :=
  disciplined_attemptsHold (by decide +kernel)

namespace Sample

def lost : List RecordingEvent := begun ++ [called, failed]

/-- The provider call is recorded after the attempt has ended without a report. -/
def late : List RecordingEvent := begun ++ [failed, called]

def nameless : List RecordingEvent :=
  begun ++ [.completeRequirementJob ctx 0 ⟨"null", 1, 1, none⟩ none]

/-- A job of another recording gets the name of a job that is deleted. -/
def renamed : List RecordingEvent :=
  begun ++ [.deleteRecording ctx "recording", recorded "again", posted "again", claimed]

end Sample

theorem unreported_of_rows {s : RecordingServer} {j : RequirementJob} {n : Nat}
    (hj : j ∈ s.db.jobs.rows) (hover : j.over n) (hcalls : s.db.jobCalls j n ≠ [])
    (hrows : s.db.reports.rows = []) : ¬s.AttemptsHold := by
  intro h
  obtain ⟨r, hr, -⟩ := h.reported j hj n hover hcalls
  rw [hrows] at hr
  cases hr

/-- Without each of the conditions on the callers an attempt is lost, or met twice. -/
theorem undisciplined_loses : ¬(run (RecordingServer.step Sample.digests) .init Sample.lost).AttemptsHold ∧
    ¬(run (RecordingServer.step Sample.digests) .init Sample.late).AttemptsHold ∧
    ¬(run (RecordingServer.step Sample.digests) .init Sample.nameless).AttemptsHold ∧
    ¬(run (RecordingServer.step Sample.digests) .init Sample.renamed).AttemptsHold := by
  refine ⟨?_, ?_, ?_, ?_⟩
  · have hsome : ∃ j ∈ (run (RecordingServer.step Sample.digests) .init Sample.lost).db.jobs.rows,
        j.over 1 ∧ (run (RecordingServer.step Sample.digests) .init Sample.lost).db.jobCalls j 1 ≠ [] := by
      decide +kernel
    obtain ⟨j, hj, hover, hcalls⟩ := hsome
    exact unreported_of_rows hj hover hcalls (by decide +kernel)
  · have hsome : ∃ j ∈ (run (RecordingServer.step Sample.digests) .init Sample.late).db.jobs.rows,
        j.over 1 ∧ (run (RecordingServer.step Sample.digests) .init Sample.late).db.jobCalls j 1 ≠ [] := by
      decide +kernel
    obtain ⟨j, hj, hover, hcalls⟩ := hsome
    exact unreported_of_rows hj hover hcalls (by decide +kernel)
  · intro h
    have hsome : ∃ j ∈ (run (RecordingServer.step Sample.digests) .init
        Sample.nameless).db.jobs.rows, j.status = .completed ∧ j.kind = .normalize := by
      decide +kernel
    obtain ⟨j, hj, hcompleted, hnormalize⟩ := hsome
    obtain ⟨q, hq, -⟩ := h.named j hj hcompleted hnormalize
    rw [show (run (RecordingServer.step Sample.digests) .init
      Sample.nameless).db.requirements.rows = [] by decide +kernel] at hq
    cases hq
  · intro h
    have hclaims : (run (RecordingServer.step Sample.digests) .init Sample.renamed).claims.map
        (fun a => (a.id, a.attemptCount)) = [("job", 1), ("job", 1)] := by
      decide +kernel
    have hnumbered : ((run (RecordingServer.step Sample.digests) .init Sample.renamed).claims.map
        (fun a => (a.id, a.attemptCount))).Pairwise fun a b => a.1 = b.1 → a.2 < b.2 :=
      pairwise_map.mpr h.numbered
    rw [hclaims] at hnumbered
    simp at hnumbered

end Aegis.Requirements
