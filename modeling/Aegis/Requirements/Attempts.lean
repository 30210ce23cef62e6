import Aegis.Requirements.Deletion

/-!
# Requirements.Attempts

The attempts of a requirement job: who holds them, and what stays of them.

`Accounted` says of the database that the provider calls of an attempt that is over are counted by
one report, that a completed normalization names its requirement, and that a running job has a
lease. It is kept statement by statement; the statements that end an attempt ask that its calls have
been reported.
-/

namespace Aegis.Requirements

open List Option Table CollectionRequirement

/-- The attempt number `n` is over: a later one has begun, or the job is not running. -/
def RequirementJob.over (j : RequirementJob) (n : Nat) : Prop :=
  n < j.attemptCount ∨ j.status ≠ .running

namespace RecordingDb

def jobCalls (db : RecordingDb) (j : RequirementJob) (n : Nat) : List LLMProviderCall :=
  db.attemptCalls j.workspaceID .requirement j.id n

def jobReported (db : RecordingDb) (j : RequirementJob) (n : Nat) : Bool :=
  db.attemptReported j.workspaceID .requirement j.id n

def NamesRequirement (db : RecordingDb) (jobID : String) (requirementID : Option String) : Prop :=
  ∃ q, db.requirements.find? q.id = some q ∧ q.sourceJobID = some jobID ∧ requirementID = some q.id

/-- Attempts are bounded, and each call and report is of a job. -/
structure Accounted (db : RecordingDb) : Prop where
  bounded : ∀ j, db.jobs.find? j.id = some j → j.attemptCount ≤ j.maxAttempts
  leased : ∀ j, db.jobs.find? j.id = some j → j.status = .running →
    j.leaseUntil.isSome = true ∧ 0 < j.attemptCount
  call : ∀ c, db.calls.find? c.id = some c → c.jobType = .requirement →
    db.IsJob c.workspaceID c.recordingID c.jobID
  begun : ∀ c, db.calls.find? c.id = some c → c.jobType = .requirement → ∀ j,
    db.jobs.find? j.id = some j → j.id = c.jobID → c.attemptNumber ≤ j.attemptCount
  report : ∀ r, db.reports.find? r.id = some r → db.IsJob r.workspaceID r.recordingID r.jobID
  counted : ∀ r, db.reports.find? r.id = some r → r.callCount =
    (db.attemptCalls r.workspaceID .requirement r.jobID r.attemptNumber).length
  single : ∀ q r, db.reports.find? q.id = some q → db.reports.find? r.id = some r →
    q.workspaceID = r.workspaceID → q.jobID = r.jobID → q.attemptNumber = r.attemptNumber → q = r
  ended : ∀ j, db.jobs.find? j.id = some j → ∀ n, j.over n → db.jobCalls j n ≠ [] →
    db.jobReported j n = true
  named : ∀ j, db.jobs.find? j.id = some j → j.status = .completed → j.kind = .normalize →
    db.NamesRequirement j.id j.requirementID
  sourced : ∀ p q, db.requirements.find? p.id = some p → db.requirements.find? q.id = some q →
    p.sourceJobID.isSome = true → p.sourceJobID = q.sourceJobID → p = q

theorem jobReported_iff {db : RecordingDb} {j : RequirementJob} {n : Nat} :
    db.jobReported j n ↔ ∃ r, db.reports.find? r.id = some r ∧
      r.workspaceID = j.workspaceID ∧ r.jobID = j.id ∧ r.attemptNumber = n := by
  simp only [jobReported, attemptReported, Table.any_eq_true, Bool.and_eq_true, beq_iff_eq]
  constructor
  · rintro ⟨r, hr, ⟨hws, hid⟩, hn⟩
    exact ⟨r, find?_key hr, hws, hid, hn⟩
  · rintro ⟨r, hr, hws, hid, hn⟩
    exact ⟨r, mem_of_find? hr, ⟨hws, hid⟩, hn⟩

theorem mem_attemptCalls {db : RecordingDb} {workspace : WorkspaceID} {jobType : LLMJobType}
    {jobID : String} {n : Nat} {c : LLMProviderCall} :
    c ∈ db.attemptCalls workspace jobType jobID n ↔ db.calls.find? c.id = some c ∧
      c.workspaceID = workspace ∧ c.jobType = jobType ∧ c.jobID = jobID ∧
      c.attemptNumber = n := by
  simp only [attemptCalls, mem_filter, Bool.and_eq_true, beq_iff_eq, and_assoc]
  constructor
  · rintro ⟨hc, hrest⟩
    exact ⟨find?_key hc, hrest⟩
  · rintro ⟨hc, hrest⟩
    exact ⟨mem_of_find? hc, hrest⟩

namespace Accounted

variable {db db' : RecordingDb} {j : RequirementJob}

theorem empty : Accounted .empty where
  bounded _ h := by cases h
  leased _ h := by cases h
  call _ h := by cases h
  begun _ h := by cases h
  report _ h := by cases h
  counted _ h := by cases h
  single _ _ h := by cases h
  ended _ h := by cases h
  named _ h := by cases h
  sourced _ _ h := by cases h

theorem eq_of_isJob {workspace : WorkspaceID} {recordingID : String}
    (h : db.IsJob workspace recordingID j.id) (hj : db.jobs.find? j.id = some j) :
    j.workspaceID = workspace ∧ j.recordingID = recordingID := by
  obtain ⟨i, hi, hrest⟩ := h
  rw [hj] at hi
  cases hi
  exact hrest

theorem updateRow (h : Accounted db) (hj : db.jobs.find? j.id = some j)
    (f : RequirementJobUpdate) (hcount : j.attemptCount ≤ (f.set j).attemptCount)
    (hbounded : (f.set j).attemptCount ≤ (f.set j).maxAttempts)
    (hleased : (f.set j).status = .running →
      (f.set j).leaseUntil.isSome ∧ 0 < (f.set j).attemptCount)
    (hended : ∀ n, (f.set j).over n → ¬j.over n → db.jobCalls j n ≠ [] → db.jobReported j n = true)
    (hnamed : (f.set j).status = .completed → j.kind = .normalize →
      db.NamesRequirement j.id (f.set j).requirementID) :
    Accounted { db with jobs := db.jobs.updateRow j.id f.onID } := by
  have hwrote : Wrote db.jobs (db.jobs.updateRow j.id f.onID) (f.set j) :=
    wrote_updateRow f.onID hj
  have hid := f.keeps j
  obtain ⟨hkey, hws, hrec⟩ := RequirementJob.roots_of_identity hid
  have hkind : (f.set j).kind = j.kind := congrArg (·.2.2.2.1) hid
  have hjob : ∀ ws recordingID jobID, db.IsJob ws recordingID jobID →
      ∃ i, (db.jobs.updateRow j.id f.onID).find? jobID = some i ∧ i.workspaceID = ws ∧
        i.recordingID = recordingID := by
    rintro ws recordingID jobID ⟨i, hi, hiws, hirec⟩
    by_cases hk : jobID = j.id
    · subst hk
      obtain rfl := mem_unique hi hj
      exact ⟨f.set i, hkey ▸ hwrote.self, hws.trans hiws, hrec.trans hirec⟩
    · refine ⟨i, ?_, hiws, hirec⟩
      rw [hwrote.of_ne (by rw [hkey]; exact fun he => hk he.symm), hi]
  refine ⟨?_, ?_, ?_, ?_, ?_, h.counted, h.single, ?_, ?_, h.sourced⟩
  · intro i hi
    rcases hwrote.cases hi with ⟨-, rfl⟩ | ⟨-, hold⟩
    · exact hbounded
    · exact h.bounded i hold
  · intro i hi
    rcases hwrote.cases hi with ⟨-, rfl⟩ | ⟨-, hold⟩
    · exact hleased
    · exact h.leased i hold
  · intro c hc htype
    exact hjob _ _ _ (h.call c hc htype)
  · intro c hc htype i hi hcid
    rcases hwrote.cases hi with ⟨-, rfl⟩ | ⟨-, hold⟩
    · exact (h.begun c hc htype j hj (hkey.symm.trans hcid)).trans hcount
    · exact h.begun c hc htype i hold hcid
  · intro r hr
    exact hjob _ _ _ (h.report r hr)
  · intro i hi n hover hcalls
    rcases hwrote.cases hi with ⟨-, rfl⟩ | ⟨-, hold⟩
    · simp only [jobCalls, jobReported, hws, hkey] at hcalls ⊢
      by_cases hwas : j.over n
      · exact h.ended j hj n hwas hcalls
      · exact hended n hover hwas hcalls
    · exact h.ended i hold n hover hcalls
  · intro i hi hcompleted hnormalize
    rcases hwrote.cases hi with ⟨-, rfl⟩ | ⟨-, hold⟩
    · rw [hkey]
      exact hnamed hcompleted (hkind ▸ hnormalize)
    · exact h.named i hold hcompleted hnormalize

theorem insertJob (h : Accounted db) (hstatus : j.status = .pending)
    (hcount : j.attemptCount = 0) (hok : db.insertJob j = .ok db') :
    Accounted db' ∧ Wrote db.jobs db'.jobs j := by
  obtain ⟨t, ht, rfl, -⟩ := insertJob_eq_ok hok
  have hwrote := wrote_insert? ht
  have hfresh := (insert?_eq_some.mp ht).1
  have hjob : ∀ ws recordingID jobID, db.IsJob ws recordingID jobID →
      ∃ i, t.find? jobID = some i ∧ i.workspaceID = ws ∧ i.recordingID = recordingID := by
    rintro ws recordingID jobID ⟨i, hi, hrest⟩
    exact ⟨i, find?_insert?_of_some ht hi, hrest⟩
  have hcalls : ∀ c, db.calls.find? c.id = some c → c.jobType = .requirement → c.jobID ≠ j.id := by
    -- a call of this name would have had a job
    intro c hc htype hid
    obtain ⟨k, hk, -⟩ := h.call c hc htype
    rw [hid, hfresh] at hk
    cases hk
  refine ⟨⟨?_, ?_, ?_, ?_, ?_, h.counted, h.single, ?_, ?_, h.sourced⟩, hwrote⟩
  · intro i hi
    rcases hwrote.cases hi with ⟨-, rfl⟩ | ⟨-, hold⟩
    · omega
    · exact h.bounded i hold
  · intro i hi hrunning
    rcases hwrote.cases hi with ⟨-, rfl⟩ | ⟨-, hold⟩
    · rw [hstatus] at hrunning
      cases hrunning
    · exact h.leased i hold hrunning
  · intro c hc htype
    exact hjob _ _ _ (h.call c hc htype)
  · intro c hc htype i hi hid
    rcases hwrote.cases hi with ⟨-, rfl⟩ | ⟨-, hold⟩
    · exact absurd hid.symm (hcalls c hc htype)
    · exact h.begun c hc htype i hold hid
  · intro r hr
    exact hjob _ _ _ (h.report r hr)
  · intro i hi n hover hsome
    rcases hwrote.cases hi with ⟨-, rfl⟩ | ⟨-, hold⟩
    · obtain ⟨c, hc⟩ := exists_mem_of_ne_nil _ hsome
      obtain ⟨hfind, -, htype, hid, -⟩ := mem_attemptCalls.mp hc
      exact absurd hid (hcalls c hfind htype)
    · exact h.ended i hold n hover hsome
  · intro i hi hcompleted hnormalize
    rcases hwrote.cases hi with ⟨-, rfl⟩ | ⟨-, hold⟩
    · rw [hstatus] at hcompleted
      cases hcompleted
    · exact h.named i hold hcompleted hnormalize

theorem insertRequirement {q : CollectionRequirement} (h : Accounted db)
    (hok : db.insertRequirement q = .ok db') : Accounted db' ∧ db'.jobs = db.jobs ∧
      db'.calls = db.calls ∧ db'.reports = db.reports ∧
      db'.requirements.find? q.id = some q := by
  obtain ⟨t, ht, rfl, -, -, hfree⟩ := insertRequirement_eq_ok hok
  have hwrote := wrote_insert? ht
  refine ⟨⟨h.bounded, h.leased, h.call, h.begun, h.report, h.counted, h.single, h.ended, ?_, ?_⟩,
    rfl, rfl, rfl, hwrote.self⟩
  · intro j hj hcompleted hnormalize
    obtain ⟨p, hp, hrest⟩ := h.named j hj hcompleted hnormalize
    exact ⟨p, find?_insert?_of_some ht hp, hrest⟩
  · intro p r hp hr hsome heq
    rcases hwrote.cases hp with ⟨-, rfl⟩ | ⟨-, hpold⟩
    · rcases hwrote.cases hr with ⟨-, rfl⟩ | ⟨-, hrold⟩
      · rfl
      · exact absurd heq.symm (hfree r hrold hsome)
    · rcases hwrote.cases hr with ⟨-, rfl⟩ | ⟨-, hrold⟩
      · exact absurd heq (hfree p hpold (heq ▸ hsome))
      · exact h.sourced p r hpold hrold hsome heq

theorem insertCall {c : LLMProviderCall} (h : Accounted db)
    (hopen : c.jobType = .requirement → ∀ j, db.jobs.find? c.jobID = some j →
      j.over c.attemptNumber → db.jobReported j c.attemptNumber)
    (hok : db.insertCall c = .ok db') : Accounted db' ∧ db'.jobs = db.jobs := by
  obtain ⟨t, ht, rfl, hparent, hunreported⟩ := insertCall_eq_ok hok
  have hwrote := wrote_insert? ht
  -- the calls of a reported attempt stay as they are
  have hsame : ∀ ws jobID n, db.attemptReported ws .requirement jobID n →
      ({ db with calls := t } : RecordingDb).attemptCalls ws .requirement jobID n =
        db.attemptCalls ws .requirement jobID n := by
    intro ws jobID n hreported
    unfold attemptCalls
    rw [(insert?_eq_some.mp ht).2, filter_append]
    refine append_right_eq_self.mpr (filter_eq_nil_iff.mpr ?_)
    intro b hb hmatch
    obtain rfl := mem_singleton.mp hb
    simp only [Bool.and_eq_true, beq_iff_eq] at hmatch
    obtain ⟨⟨⟨rfl, htype⟩, rfl⟩, rfl⟩ := hmatch
    rw [htype] at hunreported
    simp [hreported] at hunreported
  have hattempt : c.jobType = .requirement → ∃ j, db.jobs.find? c.jobID = some j ∧
      j.workspaceID = c.workspaceID ∧ j.recordingID = c.recordingID ∧
      c.attemptNumber ≤ j.attemptCount := by
    intro htype
    rw [htype] at hparent
    exact of_requirementAttempt hparent
  refine ⟨⟨h.bounded, h.leased, ?_, ?_, h.report, ?_, h.single, ?_, h.named, h.sourced⟩, rfl⟩
  · intro b hb htype
    rcases hwrote.cases hb with ⟨-, rfl⟩ | ⟨-, hold⟩
    · obtain ⟨j, hj, hws, hrec, -⟩ := hattempt htype
      exact ⟨j, hj, hws, hrec⟩
    · exact h.call b hold htype
  · intro b hb htype j hj hid
    rcases hwrote.cases hb with ⟨-, rfl⟩ | ⟨-, hold⟩
    · obtain ⟨i, hi, -, -, hn⟩ := hattempt htype
      rw [← hid, show db.jobs.find? j.id = some j from hj] at hi
      cases hi
      exact hn
    · exact h.begun b hold htype j hj hid
  · intro r hr
    have hreported : db.attemptReported r.workspaceID .requirement r.jobID r.attemptNumber := by
      refine Table.any_eq_true.mpr ⟨r, mem_of_find? hr, ?_⟩
      simp
    rw [h.counted r hr, hsame _ _ _ hreported]
  · intro j hj n hover hcalls
    show db.jobReported j n = true
    by_cases hold : db.jobCalls j n = []
    · -- the call added is one of this attempt
      obtain ⟨b, hb⟩ := exists_mem_of_ne_nil _ hcalls
      obtain ⟨hfind, hws, htype, hid, hn⟩ := mem_attemptCalls.mp hb
      rcases hwrote.cases hfind with ⟨-, rfl⟩ | ⟨-, hfound⟩
      · have hjob : db.jobs.find? b.jobID = some j := by
          rw [hid]
          exact hj
        rw [← hn]
        exact hopen htype j hjob (hn ▸ hover)
      · have hmem : b ∈ db.jobCalls j n := mem_attemptCalls.mpr ⟨hfound, hws, htype, hid, hn⟩
        rw [hold] at hmem
        cases hmem
    · exact h.ended j hj n hover hold

theorem insertReport {r : RequirementReport} (h : Accounted db)
    (hok : db.insertReport r = .ok db') : Accounted db' ∧ db'.jobs = db.jobs ∧
      db'.calls = db.calls ∧ db'.requirements = db.requirements ∧
      db.IsJob r.workspaceID r.recordingID r.jobID ∧
      db'.attemptReported r.workspaceID .requirement r.jobID r.attemptNumber := by
  obtain ⟨t, ht, rfl, hjob, hcount, hunreported, -⟩ := insertReport_eq_ok hok
  have hwrote := wrote_insert? ht
  have hfree : ∀ q, db.reports.find? q.id = some q → q.workspaceID = r.workspaceID →
      q.jobID = r.jobID → q.attemptNumber ≠ r.attemptNumber := by
    intro q hq hws hid hn
    simp only [attemptReported, Table.any_eq_false] at hunreported
    simpa [hws, hid, hn] using hunreported q (mem_of_find? hq)
  refine ⟨⟨h.bounded, h.leased, h.call, h.begun, ?_, ?_, ?_, ?_, h.named, h.sourced⟩, rfl, rfl, rfl,
    hjob, Table.any_eq_true.mpr ⟨r, mem_of_find? hwrote.self, by simp⟩⟩
  · intro q hq
    rcases hwrote.cases hq with ⟨-, rfl⟩ | ⟨-, hold⟩
    · exact hjob
    · exact h.report q hold
  · intro q hq
    rcases hwrote.cases hq with ⟨-, rfl⟩ | ⟨-, hold⟩
    · exact hcount
    · exact h.counted q hold
  · intro p q hp hq hws hid hn
    rcases hwrote.cases hp with ⟨-, rfl⟩ | ⟨-, hpold⟩
    · rcases hwrote.cases hq with ⟨-, rfl⟩ | ⟨-, hqold⟩
      · rfl
      · exact absurd hn.symm (hfree q hqold hws.symm hid.symm)
    · rcases hwrote.cases hq with ⟨-, rfl⟩ | ⟨-, hqold⟩
      · exact absurd hn (hfree p hpold hws hid)
      · exact h.single p q hpold hqold hws hid hn
  · intro j hj n hover hcalls
    obtain ⟨q, hq, hrest⟩ := jobReported_iff.mp (h.ended j hj n hover hcalls)
    exact jobReported_iff.mpr ⟨q, find?_insert?_of_some ht hq, hrest⟩

theorem confirmRequirement {c : Ctx} {id actor : String} (h : Accounted db)
    (hok : db.confirmCollectionRequirement c id actor = .ok db') :
    Accounted db' ∧ db'.jobs = db.jobs := by
  rcases confirmCollectionRequirement_eq_ok hok with rfl | rfl
  · exact ⟨h, rfl⟩
  · have hagree : Table.Agree identity db.requirements
        (db.requirements.updateRow id (requirementOnID (Requirements.confirmRequirement c.now actor))) :=
      .of_update _ _ _ (Requirements.confirmRequirement c.now actor).keeps
    refine ⟨⟨h.bounded, h.leased, h.call, h.begun, h.report, h.counted, h.single, h.ended, ?_, ?_⟩, rfl⟩
    · intro j hj hcompleted hnormalize
      obtain ⟨p, hp, hsource, hname⟩ := h.named j hj hcompleted hnormalize
      obtain ⟨o, ho, hid⟩ := hagree.row hp
      obtain ⟨hkey, -, -, hsrc⟩ := roots_of_identity hid
      exact ⟨o, hkey ▸ ho, hsrc.trans hsource, hkey ▸ hname⟩
    · intro p r hp hr hsome heq
      obtain ⟨p₀, hp₀, hpid⟩ := hagree.symm.row hp
      obtain ⟨r₀, hr₀, hrid⟩ := hagree.symm.row hr
      obtain ⟨hpkey, -, -, hpsrc⟩ := roots_of_identity hpid
      obtain ⟨hrkey, -, -, hrsrc⟩ := roots_of_identity hrid
      have hsame := h.sourced p₀ r₀ (hpkey.symm ▸ hp₀) (hrkey.symm ▸ hr₀) (hpsrc ▸ hsome)
        (hpsrc.trans (heq.trans hrsrc.symm))
      refine eq_of_find? hr hp ?_
      rw [← hpkey, ← hrkey, hsame]

variable {workspace : WorkspaceID} {gone : String → Bool} {live : WorkspaceID → String → Prop}

theorem attemptCalls_withoutDerived {ws : WorkspaceID} {recordingID jobID : String}
    (h : Accounted db) (hjob : db.IsJob ws recordingID jobID)
    (hnot : ¬Going workspace gone ws recordingID) (n : Nat) :
    (db.withoutDerived workspace gone).attemptCalls ws .requirement jobID n =
      db.attemptCalls ws .requirement jobID n := by
  show List.filter _ (List.filter _ db.calls.rows) = List.filter _ db.calls.rows
  rw [List.filter_filter]
  refine filter_congr fun c hc => ?_
  by_cases hmatch : (c.workspaceID == ws && c.jobType == .requirement && c.jobID == jobID &&
      c.attemptNumber == n)
  · have hkeep := hmatch
    simp only [Bool.and_eq_true, beq_iff_eq] at hmatch
    obtain ⟨⟨⟨rfl, htype⟩, rfl⟩, -⟩ := hmatch
    obtain ⟨i, hi, hiws, hirec⟩ := h.call c (find?_key hc) htype
    obtain ⟨j, hj, hjws, hjrec⟩ := hjob
    obtain rfl := mem_unique hi hj
    have hstays := not_going_iff.mpr hnot
    rw [← hjrec, hirec] at hstays
    simp only [hkeep, hstays, Bool.not_false, Bool.and_true]
  · rw [Bool.not_eq_true] at hmatch
    rw [hmatch]
    rfl

theorem withoutDerived (h : Accounted db) (hlineage : Lineage live db) :
    Accounted (db.withoutDerived workspace gone) := by
  have hjob : ∀ ws recordingID jobID, db.IsJob ws recordingID jobID → ¬Going workspace gone ws recordingID →
      (db.withoutDerived workspace gone).IsJob ws recordingID jobID := by
    rintro ws recordingID jobID ⟨j, hj, rfl, rfl⟩ hnot
    exact ⟨j, find?_delete_eq_some.mpr ⟨hj, not_going_iff.mpr hnot⟩, rfl, rfl⟩
  have hstay : ∀ j, (db.withoutDerived workspace gone).jobs.find? j.id = some j →
      db.jobs.find? j.id = some j ∧ ¬Going workspace gone j.workspaceID j.recordingID := by
    intro j hj
    obtain ⟨hj, hstays⟩ := find?_delete_eq_some.mp hj
    exact ⟨hj, not_going_iff.mp hstays⟩
  refine ⟨fun j hj => h.bounded j (hstay j hj).1, fun j hj => h.leased j (hstay j hj).1, ?_, ?_, ?_,
    ?_, ?_, ?_, ?_, ?_⟩
  · intro c hc htype
    obtain ⟨hc, hstays⟩ := find?_delete_eq_some.mp hc
    exact hjob _ _ _ (h.call c hc htype) (not_going_iff.mp hstays)
  · intro c hc htype j hj hid
    exact h.begun c (find?_delete_eq_some.mp hc).1 htype j (hstay j hj).1 hid
  · intro r hr
    obtain ⟨hr, hstays⟩ := find?_delete_eq_some.mp hr
    exact hjob _ _ _ (h.report r hr) (not_going_iff.mp hstays)
  · intro r hr
    obtain ⟨hr, hstays⟩ := find?_delete_eq_some.mp hr
    rw [h.attemptCalls_withoutDerived (h.report r hr) (not_going_iff.mp hstays)]
    exact h.counted r hr
  · intro q r hq hr
    exact h.single q r (find?_delete_eq_some.mp hq).1 (find?_delete_eq_some.mp hr).1
  · intro j hj n hover hcalls
    obtain ⟨hj, hnot⟩ := hstay j hj
    rw [jobCalls, h.attemptCalls_withoutDerived ⟨j, hj, rfl, rfl⟩ hnot] at hcalls
    obtain ⟨r, hr, hws, hid, hn⟩ := jobReported_iff.mp (h.ended j hj n hover hcalls)
    refine jobReported_iff.mpr ⟨r, find?_delete_eq_some.mpr ⟨hr, ?_⟩, hws, hid, hn⟩
    obtain ⟨hrws, hrrec⟩ := eq_of_isJob (hid ▸ h.report r hr) hj
    rw [← hrws, ← hrrec]
    exact not_going_iff.mpr hnot
  · intro j hj hcompleted hnormalize
    obtain ⟨hj, hnot⟩ := hstay j hj
    obtain ⟨q, hq, hsource, hname⟩ := h.named j hj hcompleted hnormalize
    obtain ⟨i, hi, hws, hrec⟩ := hlineage.source q hq j.id hsource
    obtain rfl := mem_unique hi hj
    refine ⟨q, find?_delete_eq_some.mpr ⟨hq, ?_⟩, hsource, hname⟩
    rw [← hws, ← hrec]
    exact not_going_iff.mpr hnot
  · intro p q hp hq
    exact h.sourced p q (find?_delete_eq_some.mp hp).1 (find?_delete_eq_some.mp hq).1

end Accounted

end RecordingDb

end Aegis.Requirements
