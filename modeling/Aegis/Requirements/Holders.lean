import Aegis.Requirements.Attempts

/-!
# Requirements.Holders

The holders of attempts, over any run.

`disciplined` says what the callers of the store see to, which the store does not check: names are
fresh, an attempt that made calls is not ended without its report nor called for afterwards, and a
normalization is not completed without its requirement. A run that meets it is `Orderly`: the claims
of a job hand out growing numbers, and the calls of every attempt that is over are counted by one
report.
-/

namespace Aegis.Requirements

open List Option Table RequirementJob
open RecordingDb (Sound Accounted)

namespace RecordingDb

/-- Jobs keep who they are, and their attempts only grow. -/
def Grown (db db' : RecordingDb) : Prop :=
  ∀ i, db'.jobs.find? i.id = some i → ∃ j, db.jobs.find? i.id = some j ∧
    i.identity = j.identity ∧ j.attemptCount ≤ i.attemptCount

variable {db db' : RecordingDb}

theorem Grown.of_eq (h : db'.jobs = db.jobs) : Grown db db' := by
  intro i hi
  exact ⟨i, h ▸ hi, rfl, le_rfl⟩

theorem Grown.trans {db db₁ db₂ : RecordingDb} (h : Grown db db₁) (h' : Grown db₁ db₂) : Grown db db₂ := by
  intro i hi
  obtain ⟨j, hj, hid, hcount⟩ := h' i hi
  have hkey := (roots_of_identity hid).1
  obtain ⟨k, hk, hkid, hkcount⟩ := h j (hkey ▸ hj)
  exact ⟨k, hkey.symm ▸ hk, hid.trans hkid, hkcount.trans hcount⟩

theorem Grown.updateRow {db : RecordingDb} {j : RequirementJob}
    (hj : db.jobs.find? j.id = some j) (f : RequirementJobUpdate)
    (hcount : j.attemptCount ≤ (f.set j).attemptCount) :
    Grown db { db with jobs := db.jobs.updateRow j.id f.onID } := by
  intro i hi
  have hkey := (roots_of_identity (f.keeps j)).1
  rcases (wrote_updateRow f.onID hj).cases hi with ⟨-, rfl⟩ | ⟨-, hold⟩
  · exact ⟨j, hkey.symm ▸ hj, f.keeps j, hcount⟩
  · exact ⟨i, hold, rfl, le_rfl⟩

def holds (db : RecordingDb) (job : RequirementJob) : Bool :=
  (db.jobs.find? job.id).any job.describes

theorem holds_eq {job j : RequirementJob} (hjobs : db'.jobs = db.jobs)
    (hj : db'.jobs.find? j.id = some j) (hid : j.id = job.id)
    (hdescribes : job.describes j) : db.holds job = true := by
  rw [holds, ← hjobs, ← hid, hj]
  exact hdescribes

@[simp] theorem holds_bounded (db : RecordingDb) (job : RequirementJob) (terminal : Bool) :
    db.holds (job.bounded terminal) = db.holds job := by
  unfold bounded
  split
  · rfl
  · rfl

namespace Accounted

variable {db db' : RecordingDb} {c : Ctx} {job : RequirementJob}

variable {j : RequirementJob}

theorem eq_of_open {n : Nat} (h : Accounted db)
    (hj : db.jobs.find? j.id = some j) (hopen : ¬j.over n) (hcalls : db.jobCalls j n ≠ []) :
    j.status = .running ∧ n = j.attemptCount := by
  simp only [RequirementJob.over, not_or, not_lt, not_not] at hopen
  refine ⟨hopen.2, ?_⟩
  obtain ⟨b, hb⟩ := exists_mem_of_ne_nil _ hcalls
  obtain ⟨hfind, -, htype, hid, hn⟩ := mem_attemptCalls.mp hb
  have hbegun := h.begun b hfind htype j hj hid.symm
  omega

theorem endAttempt (h : Accounted db) (hj : db.jobs.find? j.id = some j)
    (f : RequirementJobUpdate) (hstatus : (f.set j).status ≠ .running)
    (hcount : (f.set j).attemptCount = j.attemptCount)
    (hmax : (f.set j).maxAttempts = j.maxAttempts)
    (hreported : db.jobCalls j j.attemptCount ≠ [] → db.jobReported j j.attemptCount = true)
    (hnamed : (f.set j).status = .completed → j.kind = .normalize →
      db.NamesRequirement j.id (f.set j).requirementID) :
    Accounted { db with jobs := db.jobs.updateRow j.id f.onID } := by
  refine h.updateRow hj f hcount.ge ?_ (fun hrunning => absurd hrunning hstatus) ?_ hnamed
  · rw [hcount, hmax]
    exact h.bounded j hj
  · intro n _ hopen hcalls
    obtain ⟨-, rfl⟩ := h.eq_of_open hj hopen hcalls
    exact hreported hcalls

theorem insertOptional {report : Option RequirementReport} (h : Accounted db)
    (hok : db.insertOptional report = .ok db') : Accounted db' ∧ db'.jobs = db.jobs ∧
      db'.calls = db.calls ∧ db'.requirements = db.requirements ∧
      ∀ r, report = some r → db.IsJob r.workspaceID r.recordingID r.jobID ∧
        db'.attemptReported r.workspaceID .requirement r.jobID r.attemptNumber := by
  cases report with
  | none =>
    cases hok
    refine ⟨h, rfl, rfl, rfl, ?_⟩
    intro r hr
    cases hr
  | some r =>
    obtain ⟨haccounted, hjobs, hcalls, hrequirements, hjob, hreported⟩ := h.insertReport hok
    refine ⟨haccounted, hjobs, hcalls, hrequirements, ?_⟩
    rintro _ ⟨⟩
    exact ⟨hjob, hreported⟩

variable {prepared : Option RequirementReport} {report : Option (RequirementReport × ReportReads)}

theorem prepared_of
    {outcome : LLMAttemptOutcome} (hfits : (report.all fun r => reportFits job outcome r.1) = true)
    (hok : prepareOptional c report = .ok prepared) :
    (report = none ∧ prepared = none) ∨ ∃ r, prepared = some r ∧ r.jobID = job.id ∧
      r.attemptNumber = job.attemptCount := by
  cases report with
  | none => exact .inl ⟨rfl, (Except.ok.inj hok).symm⟩
  | some p =>
    obtain ⟨r, hprepare, rfl⟩ := map_eq_ok.mp hok
    simp only [all_some, reportFits, Bool.and_eq_true, beq_iff_eq] at hfits
    simp only [prepareLLMAttemptReport, bind_eq_ok, pure_eq_ok] at hprepare
    obtain ⟨-, -, ⟨recordingID, attemptCount⟩, -, -, -, -, -, rfl⟩ := hprepare
    exact .inr ⟨_, rfl, hfits.1.1, hfits.1.2⟩

theorem reported_of {db₁ : RecordingDb}
    (hprepared : (report = none ∧ prepared = none) ∨ ∃ r, prepared = some r ∧ r.jobID = job.id ∧
      r.attemptNumber = job.attemptCount)
    (hinserted : ∀ r, prepared = some r → db.IsJob r.workspaceID r.recordingID r.jobID ∧
      db₁.attemptReported r.workspaceID .requirement r.jobID r.attemptNumber)
    (hquiet : report = none → db.attemptCalls job.workspaceID .requirement job.id job.attemptCount = [])
    (hcalls : db₁.calls = db.calls) (hj : db.jobs.find? j.id = some j) (hid : j.id = job.id)
    (hdescribes : job.describes j) (hsome : db₁.jobCalls j j.attemptCount ≠ []) :
    db₁.jobReported j j.attemptCount := by
  simp only [describes, Bool.and_eq_true, beq_iff_eq] at hdescribes
  obtain ⟨⟨hws, -⟩, hcount⟩ := hdescribes
  rcases hprepared with ⟨hnone, -⟩ | ⟨r, hr, hrid, hrn⟩
  · refine absurd ?_ hsome
    rw [jobCalls, hws, hid, hcount, ← hquiet hnone, attemptCalls, attemptCalls, hcalls]
  · obtain ⟨hjob, hreported⟩ := hinserted r hr
    have hjid : j.id = r.jobID := hid.trans hrid.symm
    obtain ⟨hrws, -⟩ := eq_of_isJob (hjid ▸ hjob) hj
    rw [jobReported, hrws, hjid, hcount, ← hrn]
    exact hreported

variable {o : Completion}

theorem completeRequirementJob (h : Accounted db)
    (hquiet : db.holds job → report = none →
      db.attemptCalls job.workspaceID .requirement job.id job.attemptCount = [])
    (hnamed : db.holds job → ∀ j, db.jobs.find? job.id = some j → j.kind = .normalize →
      db.NamesRequirement job.id o.requirementID)
    (hok : db.completeRequirementJob c job o report = .ok db') :
    db.holds job ∧ Accounted db' ∧ Grown db db' := by
  simp only [RecordingDb.completeRequirementJob, bind_eq_ok, ensure_eq_ok, exists_const] at hok
  obtain ⟨hfits, -, prepared, hprepare, db₁, hinsert, hcomplete⟩ := hok
  have hprepared := prepared_of hfits hprepare
  obtain ⟨haccounted, hjobs, hcalls, hrequirements, hinserted⟩ := h.insertOptional hinsert
  obtain ⟨j, hj, hid, hdescribes, rfl⟩ := updateJob_eq_ok hcomplete
  have hold : db.jobs.find? j.id = some j := hjobs ▸ hj
  have hholds := holds_eq hjobs hj hid hdescribes
  refine ⟨hholds, haccounted.endAttempt hj _ (fun h => by cases h) rfl rfl ?_ ?_,
    (Grown.of_eq hjobs).trans (Grown.updateRow hj _ le_rfl)⟩
  · exact reported_of hprepared hinserted (hquiet hholds) hcalls hold hid hdescribes
  · intro _ hnormalize
    obtain ⟨q, hq, hsource, hname⟩ := hnamed hholds j (hid ▸ hold) hnormalize
    exact ⟨q, hrequirements ▸ hq, hid ▸ hsource, hname⟩

theorem completeRequirementJobWithDraft {n : NewCollectionRequirement}
    {subject : String} (h : Accounted db)
    (hquiet : db.holds job → report = none →
      db.attemptCalls job.workspaceID .requirement job.id job.attemptCount = [])
    (hok : db.completeRequirementJobWithDraft c job o n subject report = .ok db') :
    db.holds job ∧ Accounted db' ∧ Grown db db' := by
  simp only [RecordingDb.completeRequirementJobWithDraft, bind_eq_ok, ensure_eq_ok, exists_const,
    Bool.and_eq_true, beq_iff_eq, Bool.not_eq_true'] at hok
  obtain ⟨⟨⟨⟨hsource, -⟩, hnonempty⟩, hname⟩, hfits, -, -, prepared, hprepare, db₁, hdraft, db₂,
    hinsert, hcomplete⟩ := hok
  have hprepared := prepared_of hfits hprepare
  obtain ⟨hdrafted, hjobs₁, hcalls₁, -, hfound⟩ := h.insertRequirement hdraft
  obtain ⟨haccounted, hjobs₂, hcalls₂, hrequirements, hinserted⟩ := hdrafted.insertOptional hinsert
  obtain ⟨j, hj, hid, hdescribes, rfl⟩ := updateJob_eq_ok hcomplete
  have hold : db₁.jobs.find? j.id = some j := hjobs₂ ▸ hj
  have hholds := holds_eq (hjobs₂.trans hjobs₁) hj hid hdescribes
  refine ⟨hholds, haccounted.endAttempt hj _ (fun h => by cases h) rfl rfl ?_ ?_,
    ((Grown.of_eq hjobs₁).trans (Grown.of_eq hjobs₂)).trans (Grown.updateRow hj _ le_rfl)⟩
  · refine reported_of hprepared hinserted ?_ hcalls₂ hold hid hdescribes
    intro hnone
    rw [← hquiet hholds hnone, attemptCalls, attemptCalls, hcalls₁]
  · intro _ _
    refine ⟨_, hrequirements ▸ hfound, ?_, ?_⟩
    · exact hid ▸ hsource
    · show o.requirementID = some (if n.id.isEmpty then "" else n.id)
      rw [hnonempty]
      exact hname

theorem failRequirementJob {code message : String} {retryDelay : Duration} (h : Accounted db)
    (hquiet : db.holds job → report = none →
      db.attemptCalls job.workspaceID .requirement job.id job.attemptCount = [])
    (hok : db.failRequirementJob c job code message retryDelay report = .ok db') :
    db.holds job ∧ Accounted db' ∧ Grown db db' := by
  simp only [RecordingDb.failRequirementJob, bind_eq_ok, ensure_eq_ok, exists_const] at hok
  obtain ⟨hfits, -, prepared, hprepare, db₁, hinsert, hfail⟩ := hok
  have hprepared := prepared_of hfits hprepare
  obtain ⟨haccounted, hjobs, hcalls, -, hinserted⟩ := h.insertOptional hinsert
  obtain ⟨j, hj, hid, hdescribes, rfl⟩ := updateJob_eq_ok hfail
  have hold : db.jobs.find? j.id = some j := hjobs ▸ hj
  have hholds := holds_eq hjobs hj hid hdescribes
  have hreported := reported_of hprepared hinserted (hquiet hholds) hcalls hold hid hdescribes
  refine ⟨hholds, ?_⟩
  by_cases hretries : job.attemptCount < job.maxAttempts
  · simp only [hretries, if_true]
    exact ⟨haccounted.endAttempt hj _ (fun h => by cases h) rfl rfl hreported
      (fun h => by cases h), (Grown.of_eq hjobs).trans (Grown.updateRow hj _ le_rfl)⟩
  · simp only [hretries, if_false]
    exact ⟨haccounted.endAttempt hj _ (fun h => by cases h) rfl rfl hreported
      (fun h => by cases h), (Grown.of_eq hjobs).trans (Grown.updateRow hj _ le_rfl)⟩

variable {id : String}

theorem updateRequirementJobProgress {attemptNumber : Nat} {total completed : Int} (h : Accounted db)
    (hok : db.updateRequirementJobProgress c id attemptNumber total completed = .ok db') :
    Accounted db' ∧ Grown db db' := by
  obtain ⟨j, hj, -, hp, rfl⟩ := updateJob_eq_ok hok
  simp only [Bool.and_eq_true, beq_iff_eq] at hp
  refine ⟨h.updateRow hj _ le_rfl (h.bounded j hj) (h.leased j hj) ?_ ?_, Grown.updateRow hj _ le_rfl⟩
  · intro n hover hopen
    exact absurd hover hopen
  · intro hcompleted
    rw [show j.status = .completed from hcompleted] at hp
    cases hp.1.2

theorem retryRequirementJob (h : Accounted db)
    (hok : db.retryRequirementJob c id = .ok db') : Accounted db' ∧ Grown db db' := by
  obtain ⟨j, hj, -, hp, rfl⟩ := updateJob_eq_ok (ensure_bind_eq_ok.mp hok).2
  simp only [Bool.and_eq_true, beq_iff_eq] at hp
  refine ⟨h.updateRow hj _ le_rfl (Nat.le_add_right ..) nofun ?_
    nofun, Grown.updateRow hj _ le_rfl⟩
  intro n _ hopen
  refine absurd (.inr ?_) hopen
  rw [hp.2]
  intro hs
  cases hs

/-! ## Claims -/

theorem recoverAttempt {now : Time} {reportID : String} (h : Accounted db)
    (hjob : db.jobs.find? job.id = some job)
    (hok : db.recoverAttempt now reportID job = .ok db') : Accounted db' ∧ db'.jobs = db.jobs ∧
      (job.status = .running → db'.jobReported job job.attemptCount = true) := by
  unfold RecordingDb.recoverAttempt finalizeInterruptedRequirementAttempt at hok
  split at hok
  · rename_i hrunning
    split at hok
    · rename_i hzero
      have hleased := h.leased job hjob (by simpa using hrunning)
      omega
    · split at hok
      · rename_i hreported
        cases hok
        exact ⟨h, rfl, fun _ => hreported⟩
      · obtain ⟨-, hinsert⟩ := ensure_bind_eq_ok.mp hok
        obtain ⟨haccounted, hjobs, -, -, -, hreported⟩ := h.insertReport hinsert
        exact ⟨haccounted, hjobs, fun _ => hreported⟩
  · rename_i hrunning
    cases hok
    exact ⟨h, rfl, fun hs => absurd (by simp [hs]) hrunning⟩

theorem takeUp {now leaseUntil : Time} {copy : Option RequirementJob} (h : Accounted db)
    (hjob : db.jobs.find? job.id = some job)
    (hreported : job.status = .running → db.jobReported job job.attemptCount = true)
    (hok : db.takeUp now leaseUntil job = .ok (db', copy)) :
    Accounted db' ∧ Grown db db' ∧ ∀ a, copy = some a → a.identity = job.identity ∧
      a.attemptCount = job.attemptCount + 1 ∧ ∃ j, db'.jobs.find? a.id = some j ∧
        j.identity = job.identity ∧ j.attemptCount = job.attemptCount + 1 := by
  unfold RecordingDb.takeUp at hok
  split at hok
  · rename_i hexhausted
    simp only [bind_eq_ok, pure_eq_ok, Prod.mk.injEq] at hok
    obtain ⟨db₁, hupdate, rfl, rfl⟩ := hok
    obtain ⟨j, hj, hid, -, rfl⟩ := updateJob_eq_ok hupdate
    obtain rfl := eq_of_find? hjob hj hid
    simp only [Bool.and_eq_true, beq_iff_eq] at hexhausted
    refine ⟨h.endAttempt hj _ (fun h => by cases h) rfl rfl (fun _ => hreported hexhausted.1)
      (fun h => by cases h), Grown.updateRow hj _ le_rfl, ?_⟩
    intro a ha
    cases ha
  · simp only [bind_eq_ok, pure_eq_ok, Prod.mk.injEq] at hok
    obtain ⟨db₁, hupdate, rfl, rfl⟩ := hok
    obtain ⟨j, hj, hid, hp, rfl⟩ := updateJob_eq_ok hupdate
    obtain rfl := eq_of_find? hjob hj hid
    simp only [Bool.and_eq_true, decide_eq_true_eq] at hp
    refine ⟨h.updateRow hj _ (Nat.le_succ _) hp.1.2 (fun _ => ⟨rfl, Nat.succ_pos _⟩) ?_
      (fun h => by cases h), Grown.updateRow hj _ (Nat.le_succ _), ?_⟩
    · intro n _ hopen hcalls
      obtain ⟨hrunning, rfl⟩ := h.eq_of_open hj hopen hcalls
      exact hreported hrunning
    · rintro _ ⟨⟩
      exact ⟨rfl, rfl, _, (wrote_updateRow (leaseJob now leaseUntil).onID hj).self, rfl, rfl⟩

end Accounted

end RecordingDb

namespace RecordingServer

/-- The attempt number `n` is over, or not. -/
instance (j : RequirementJob) (n : Nat) : Decidable (j.over n) :=
  inferInstanceAs (Decidable (n < j.attemptCount ∨ j.status ≠ .running))

def quiet (s : RecordingServer) (job : RequirementJob) (reported : Bool) : Bool :=
  reported || (s.db.attemptCalls job.workspaceID .requirement job.id job.attemptCount).isEmpty

def disciplined (s : RecordingServer) : RecordingEvent → Bool
  | .createRequirementJob _ c n request newID =>
    s.claims.all fun a => a.id != (n.toJob c request newID).id
  | .createLLMProviderCall _ _ call _ _ _ =>
    call.jobType == .dsl || (s.db.jobs.find? call.jobID).all fun j =>
      !decide (j.over call.attemptNumber) || s.db.jobReported j call.attemptNumber
  | .completeRequirementJob _ k o report =>
    (s.claims[k]?).all fun job => !s.db.holds job || s.quiet job report.isSome &&
      (job.kind != .normalize || s.db.requirements.any fun q =>
        q.sourceJobID == some job.id && o.requirementID == some q.id)
  | .completeRequirementJobWithDraft _ k _ _ _ report =>
    (s.claims[k]?).all fun job => !s.db.holds job || s.quiet job report.isSome
  | .failRequirementJob _ k _ _ _ _ report =>
    (s.claims[k]?).all fun job => !s.db.holds job || s.quiet job report.isSome
  | _ => true

/-- The invariant: a claim of a job has a higher attempt than the claims before it. -/
structure Orderly (s : RecordingServer) : Prop where
  sound : Sound (fun _ _ => False) s.db
  accounted : s.db.Accounted
  claimed : s.claims.Pairwise fun a b => a.id = b.id → a.attemptCount < b.attemptCount
  copy : ∀ a ∈ s.claims, ∀ j, s.db.jobs.find? a.id = some j →
    a.identity = j.identity ∧ a.attemptCount ≤ j.attemptCount

namespace Orderly

variable {d : Digests} {s s' : RecordingServer} {db' : RecordingDb}

theorem init : Orderly .init where
  sound := .empty
  accounted := .empty
  claimed := .nil
  copy _ h := by cases h

theorem withDb (h : Orderly s) (hsound : Sound (fun _ _ => False) db') (haccounted : Accounted db')
    (hgrown : RecordingDb.Grown s.db db') : Orderly (s.withDb db') := by
  refine ⟨hsound, haccounted, h.claimed, ?_⟩
  intro a ha i hi
  have hkey : i.id = a.id := key_of_find? hi
  obtain ⟨j, hj, hid, hcount⟩ := hgrown i (find?_self hi)
  obtain ⟨hsame, hle⟩ := h.copy a ha j (hkey ▸ hj)
  exact ⟨hsame.trans hid.symm, hle.trans hcount⟩

theorem grown_withoutDerived {db : RecordingDb} {workspace : WorkspaceID}
    {gone : String → Bool} : RecordingDb.Grown db (db.withoutDerived workspace gone) := by
  intro i hi
  exact ⟨i, (Table.find?_delete_eq_some.mp hi).1, rfl, le_rfl⟩

theorem erase (h : Orderly s) (c : Ctx) (p : Recording → Bool) (gone : String → Bool)
    (hsound : Sound (fun _ _ => False) db')
    (hok : ({ s.db with recordings :=
      s.db.recordings.update p (recordingOnID (eraseRecording c.now)) } : RecordingDb).deleteDerived
        c.workspace gone = .ok db') : Orderly (s.withDb db') := by
  have hlineage := h.sound.lineage.recordings
    (t := s.db.recordings.update p (recordingOnID (eraseRecording c.now)))
  rw [RecordingDb.deleteDerived_eq hlineage] at hok
  cases hok
  have haccounted : Accounted { s.db with
      recordings := s.db.recordings.update p (recordingOnID (eraseRecording c.now)) } :=
    ⟨h.accounted.bounded, h.accounted.leased, h.accounted.call, h.accounted.begun,
      h.accounted.report, h.accounted.counted, h.accounted.single, h.accounted.ended,
      h.accounted.named, h.accounted.sourced⟩
  exact h.withDb hsound (haccounted.withoutDerived hlineage) grown_withoutDerived

theorem quiet_eq {job : RequirementJob} {report : Option (RequirementReport × ReportReads)}
    (h : s.quiet job report.isSome) (hnone : report = none) :
    s.db.attemptCalls job.workspaceID .requirement job.id job.attemptCount = [] := by
  subst hnone
  exact List.isEmpty_iff.mp (by simpa [quiet] using h)

theorem claim {now : Time} {lease : Duration} {tie : String → Nat} {reportID : String}
    {copy : Option RequirementJob} (h : Orderly s)
    (hok : s.db.claimPendingRequirementJob now lease tie reportID = .ok (db', copy)) :
    Orderly ⟨db', s.claims ++ copy.toList⟩ := by
  have hsound := h.sound.claimPendingRequirementJob hok
  unfold RecordingDb.claimPendingRequirementJob at hok
  split at hok
  · cases hok
  · rename_i job hnext
    obtain ⟨db₁, hrecover, htake⟩ := bind_eq_ok.mp hok
    have hjob : s.db.jobs.find? job.id = some job :=
      find?_key (mem_filter.mp (argmin_mem hnext)).1
    obtain ⟨haccounted₁, hjobs, hreported⟩ := h.accounted.recoverAttempt hjob hrecover
    have hjob₁ : db₁.jobs.find? job.id = some job := hjobs ▸ hjob
    obtain ⟨haccounted, hgrown, hcopy⟩ := haccounted₁.takeUp hjob₁ hreported htake
    have hkept := h.withDb hsound haccounted ((RecordingDb.Grown.of_eq hjobs).trans hgrown)
    refine ⟨hsound, haccounted, ?_, ?_⟩
    · refine pairwise_append.mpr ⟨h.claimed, ?_, ?_⟩
      · cases copy with
        | none => exact .nil
        | some a => exact pairwise_singleton _ _
      · intro a ha b hb hid
        obtain ⟨hidentity, hcount, -⟩ := hcopy b (mem_toList.mp hb)
        have hkey := (roots_of_identity hidentity).1
        have hle := (h.copy a ha job (by rw [hid, hkey]; exact hjob)).2
        omega
    · intro a ha i hi
      rcases mem_append.mp ha with hold | hnew
      · exact hkept.copy a hold i hi
      · obtain ⟨hidentity, hcount, j, hj, hjid, hjcount⟩ := hcopy a (mem_toList.mp hnew)
        obtain rfl := mem_unique hj hi
        exact ⟨hidentity.trans hjid.symm, (hcount.trans hjcount.symm).le⟩

theorem serve {e : RecordingEvent} (h : Orderly s) (he : s.disciplined e)
    (hok : s.serve d e = .ok s') : Orderly s' := by
  have hsound := serve_sound h.sound hok
  cases e with
  | createRecording c id owner contentHash payload expiresAt =>
    obtain ⟨db', hcall, rfl⟩ := map_eq_ok.mp hok
    unfold RecordingDb.insertRecording at hcall
    split at hcall
    · cases hcall
    · cases hcall
      have ha := h.accounted
      exact h.withDb hsound ⟨ha.bounded, ha.leased, ha.call, ha.begun, ha.report, ha.counted,
        ha.single, ha.ended, ha.named, ha.sourced⟩ (.of_eq rfl)
  | deleteRecording c id =>
    obtain ⟨db', hcall, rfl⟩ := map_eq_ok.mp hok
    exact h.erase c _ _ hsound (ensure_bind_eq_ok.mp hcall).2
  | deleteExpiredRecordings c before batch tie =>
    obtain ⟨⟨db', count⟩, hcall, rfl⟩ := map_eq_ok.mp hok
    obtain ⟨db₁, hdelete, hend⟩ := bind_eq_ok.mp hcall
    cases hend
    exact h.erase c _ _ hsound hdelete
  | createRequirementJob earlier c n request newID =>
    obtain ⟨db', hcall, rfl⟩ := map_eq_ok.mp hok
    simp only [RecordingDb.createRequirementJob, ensure_bind_eq_ok] at hcall
    obtain ⟨haccounted, hwrote⟩ := h.accounted.insertJob rfl rfl hcall.2.2
    refine ⟨hsound, haccounted, h.claimed, ?_⟩
    intro a ha i hi
    rcases hwrote.cases hi with ⟨hid, rfl⟩ | ⟨-, hold⟩
    · have hfresh := List.all_eq_true.mp he a ha
      simp [hid] at hfresh
    · exact h.copy a ha i hold
  | claimPendingRequirementJob now lease tie reportID =>
    obtain ⟨⟨db', copy⟩, hcall, rfl⟩ := map_eq_ok.mp hok
    exact h.claim hcall
  | createLLMProviderCall earlier c call accepted joined newID =>
    obtain ⟨db', hcall, rfl⟩ := map_eq_ok.mp hok
    simp only [RecordingDb.createLLMProviderCall, bind_eq_ok] at hcall
    obtain ⟨-, -, ⟨recordingID, attemptCount⟩, -, -, -, -, -, hinsert⟩ := hcall
    obtain ⟨haccounted, hjobs⟩ := h.accounted.insertCall (by
      intro htype j hj hover
      have hopen : (s.db.jobs.find? call.jobID).all (fun j =>
          !decide (j.over call.attemptNumber) || s.db.jobReported j call.attemptNumber) = true := by
        have htype : call.jobType = .requirement := htype
        simpa [disciplined, htype] using he
      have hj : s.db.jobs.find? call.jobID = some j := hj
      have hover : j.over call.attemptNumber := hover
      simpa [hj, hover] using hopen) hinsert
    exact h.withDb hsound haccounted (.of_eq hjobs)
  | updateRequirementJobProgress c id attemptNumber total completed =>
    obtain ⟨db', hcall, rfl⟩ := map_eq_ok.mp hok
    obtain ⟨haccounted, hgrown⟩ := h.accounted.updateRequirementJobProgress hcall
    exact h.withDb hsound haccounted hgrown
  | completeRequirementJob c k o report =>
    simp only [RecordingServer.serve, withCopy] at hok
    split at hok
    · cases hok
    · rename_i job hk
      obtain ⟨db', hcall, rfl⟩ := map_eq_ok.mp hok
      simp only [disciplined, hk, all_some, Bool.and_eq_true, Bool.or_eq_true, bne_iff_ne,
        ne_eq, Table.any_eq_true, beq_iff_eq, Bool.not_eq_true'] at he
      have hheld : s.db.holds job → _ := fun hholds => he.resolve_left (by simp [hholds])
      obtain ⟨-, haccounted, hgrown⟩ := h.accounted.completeRequirementJob
        (fun hholds => quiet_eq (hheld hholds).1) (by
        intro hholds j hj hnormalize
        obtain ⟨-, hkind⟩ := hheld hholds
        have hidentity := (h.copy job (mem_of_getElem? hk) j hj).1
        have hsame : job.kind = j.kind := congrArg (·.2.2.2.1) hidentity
        obtain ⟨q, hq, hsource, hname⟩ := hkind.resolve_left (by simp [hsame, hnormalize])
        exact ⟨q, find?_key hq, hsource, hname⟩) hcall
      exact h.withDb hsound haccounted hgrown
  | completeRequirementJobWithDraft c k o n subject report =>
    simp only [RecordingServer.serve, withCopy] at hok
    split at hok
    · cases hok
    · rename_i job hk
      obtain ⟨db', hcall, rfl⟩ := map_eq_ok.mp hok
      simp only [disciplined, hk, all_some, Bool.or_eq_true, Bool.not_eq_true'] at he
      obtain ⟨-, haccounted, hgrown⟩ := h.accounted.completeRequirementJobWithDraft
        (fun hholds => quiet_eq (he.resolve_left (by simp [hholds]))) hcall
      exact h.withDb hsound haccounted hgrown
  | failRequirementJob c k terminal code message retryDelay report =>
    simp only [RecordingServer.serve, withCopy] at hok
    split at hok
    · cases hok
    · rename_i job hk
      obtain ⟨db', hcall, rfl⟩ := map_eq_ok.mp hok
      simp only [disciplined, hk, all_some, Bool.or_eq_true, Bool.not_eq_true'] at he
      obtain ⟨-, haccounted, hgrown⟩ := h.accounted.failRequirementJob (by
        intro hholds hnone
        rw [RecordingDb.holds_bounded] at hholds
        have hcalls := quiet_eq (he.resolve_left (by simp [hholds])) hnone
        unfold bounded
        split
        · exact hcalls
        · exact hcalls) hcall
      exact h.withDb hsound haccounted hgrown
  | retryRequirementJob c id =>
    obtain ⟨db', hcall, rfl⟩ := map_eq_ok.mp hok
    obtain ⟨haccounted, hgrown⟩ := h.accounted.retryRequirementJob hcall
    exact h.withDb hsound haccounted hgrown
  | createCollectionRequirement c n subject newID =>
    obtain ⟨db', hcall, rfl⟩ := map_eq_ok.mp hok
    obtain ⟨haccounted, hjobs, -⟩ :=
      h.accounted.insertRequirement (ensure_bind_eq_ok.mp hcall).2
    exact h.withDb hsound haccounted (.of_eq hjobs)
  | confirmCollectionRequirement c id actor =>
    obtain ⟨db', hcall, rfl⟩ := map_eq_ok.mp hok
    obtain ⟨haccounted, hjobs⟩ := h.accounted.confirmRequirement hcall
    exact h.withDb hsound haccounted (.of_eq hjobs)
  | dsl e =>
    obtain ⟨db', hcall, rfl⟩ := map_eq_ok.mp hok
    unfold RecordingDb.serveDsl at hcall
    split at hcall
    · cases hcall
    · obtain ⟨-, hend⟩ := ensure_bind_eq_ok.mp hcall
      obtain rfl := pure_eq_ok.mp hend
      have ha := h.accounted
      exact h.withDb hsound ⟨ha.bounded, ha.leased, ha.call, ha.begun, ha.report, ha.counted,
        ha.single, ha.ended, ha.named, ha.sourced⟩ (.of_eq rfl)

/-- One event of a disciplined run keeps the jobs orderly. -/
theorem step {e : RecordingEvent} (h : Orderly s) (he : s.disciplined e) : Orderly (s.step d e) := by
  unfold RecordingServer.step
  split
  · exact h
  · rename_i s' hok
    exact h.serve he hok

end Orderly

end RecordingServer

end Aegis.Requirements
