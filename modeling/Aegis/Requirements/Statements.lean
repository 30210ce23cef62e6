import Aegis.Requirements.Server

/-!
# Requirements.Statements

What a statement that is accepted does: one lemma for each, with what the schema has checked.
-/

namespace Aegis.Requirements

open Table

namespace RecordingDb

variable {db db' : RecordingDb}

/-- The recording is there and not deleted. -/
def Live (db : RecordingDb) (workspace : WorkspaceID) (recordingID : String) : Prop :=
  ∃ r, db.recordings.find? recordingID = some r ∧ r.workspaceID = workspace ∧ r.status ≠ .deleted

def IsJob (db : RecordingDb) (workspace : WorkspaceID) (recordingID jobID : String) : Prop :=
  ∃ j, db.jobs.find? jobID = some j ∧ j.workspaceID = workspace ∧ j.recordingID = recordingID

variable {workspace : WorkspaceID} {id : String}

theorem recordingLive_iff : db.recordingLive workspace id ↔ db.Live workspace id := by
  simp only [recordingLive, Live, Table.any_eq_true, Bool.and_eq_true, beq_iff_eq, bne_iff_ne]
  constructor
  · rintro ⟨r, hr, ⟨hws, rfl⟩, hstatus⟩
    exact ⟨r, find?_key hr, hws, hstatus⟩
  · rintro ⟨r, hr, hws, hstatus⟩
    exact ⟨r, mem_of_find? hr, ⟨hws, key_of_find? hr⟩, hstatus⟩

variable {recordingID jobID : String}

theorem isJob_of_hasJob
    (h : db.hasJob workspace recordingID jobID) : db.IsJob workspace recordingID jobID := by
  simp only [hasJob, Table.any_eq_true, Bool.and_eq_true, beq_iff_eq] at h
  obtain ⟨j, hj, ⟨hws, rfl⟩, hrec⟩ := h
  exact ⟨j, find?_key hj, hws, hrec⟩

theorem of_requirementAttempt {n : Nat} (h : db.requirementAttempt workspace recordingID jobID n) :
    ∃ j, db.jobs.find? jobID = some j ∧ j.workspaceID = workspace ∧
      j.recordingID = recordingID ∧ n ≤ j.attemptCount := by
  simp only [requirementAttempt, Table.any_eq_true, Bool.and_eq_true, beq_iff_eq, decide_eq_true_eq] at h
  obtain ⟨j, hj, ⟨⟨hws, rfl⟩, hrec⟩, hn⟩ := h
  exact ⟨j, find?_key hj, hws, hrec, hn⟩

variable {j : RequirementJob}

theorem insertJob_eq_ok (h : db.insertJob j = .ok db') :
    ∃ jobs, db.jobs.insert? j = some jobs ∧ db' = { db with jobs } ∧
      db.Live j.workspaceID j.recordingID := by
  simp only [insertJob, ensure_bind_eq_ok] at h
  obtain ⟨hlive, -, -, h⟩ := h
  split at h
  · cases h
  · rename_i jobs hjobs
    exact ⟨jobs, hjobs, (pure_eq_ok.mp h).symm, recordingLive_iff.mp hlive⟩

variable {p : RequirementJob → Bool} {f : RequirementJobUpdate} {e : RequirementError}

theorem updateJob_eq_ok (h : db.updateJob id p f e = .ok db') :
    ∃ j, db.jobs.find? j.id = some j ∧ j.id = id ∧ p j = true ∧
      db' = { db with jobs := db.jobs.updateRow j.id f.onID } := by
  unfold updateJob at h
  cases hj : db.jobs.find? id with
  | none => simp [hj] at h
  | some j =>
    obtain rfl := key_of_find? hj
    simp only [hj, ensure_bind_eq_ok, pure_eq_ok] at h
    exact ⟨j, hj, rfl, h.1, h.2.symm⟩

theorem updateJob_ok (hj : db.jobs.find? j.id = some j) (hp : p j) : db.updateJob j.id p f e =
      .ok { db with jobs := db.jobs.updateRow j.id f.onID } := by
  unfold updateJob
  rw [hj]
  exact ensure_bind_eq_ok.mpr ⟨hp, rfl⟩

theorem insertRequirement_eq_ok {q : CollectionRequirement} (h : db.insertRequirement q = .ok db') :
    ∃ requirements, db.requirements.insert? q = some requirements ∧
      db' = { db with requirements } ∧ db.Live q.workspaceID q.recordingID ∧
      (∀ id, q.sourceJobID = some id → db.IsJob q.workspaceID q.recordingID id) ∧
      ∀ p, db.requirements.find? p.id = some p → q.sourceJobID.isSome = true →
        p.sourceJobID ≠ q.sourceJobID := by
  simp only [insertRequirement, ensure_bind_eq_ok] at h
  obtain ⟨hlive, hsource, hunique, h⟩ := h
  split at h
  · cases h
  · rename_i requirements hinsert
    refine ⟨requirements, hinsert, (pure_eq_ok.mp h).symm, recordingLive_iff.mp hlive, ?_, ?_⟩
    · intro id hid
      rw [hid, Option.all_some] at hsource
      exact isJob_of_hasJob hsource
    · intro p hp hsome heq
      simp only [Bool.or_eq_true, Option.isNone_iff_eq_none, Bool.not_eq_true',
        Table.any_eq_false] at hunique
      rcases hunique with hnone | hall
      · simp [hnone] at hsome
      · simpa [heq] using hall p (mem_of_find? hp)

theorem confirmCollectionRequirement_eq_ok {c : Ctx} {id actor : String}
    (h : db.confirmCollectionRequirement c id actor = .ok db') : db' = db ∨ db' = { db with
      requirements :=
        db.requirements.updateRow id (requirementOnID (confirmRequirement c.now actor)) } := by
  unfold confirmCollectionRequirement at h
  cases hq : db.requirements.find? id with
  | none => simp [hq] at h
  | some q =>
    simp only [hq, ensure_bind_eq_ok] at h
    obtain ⟨-, h⟩ := h
    split at h
    · exact .inr (pure_eq_ok.mp h).symm
    · exact .inl (pure_eq_ok.mp h).symm

theorem insertCall_eq_ok {c : LLMProviderCall} (h : db.insertCall c = .ok db') :
    ∃ calls, db.calls.insert? c = some calls ∧ db' = { db with calls } ∧ (match c.jobType with
        | .requirement => db.requirementAttempt c.workspaceID c.recordingID c.jobID c.attemptNumber
        | .dsl => db.dslAttempt c.workspaceID c.recordingID c.jobID c.attemptNumber) = true ∧
      db.attemptReported c.workspaceID c.jobType c.jobID c.attemptNumber = false := by
  simp only [insertCall, ensure_bind_eq_ok] at h
  obtain ⟨hparent, -, hunreported, -, h⟩ := h
  split at h
  · cases h
  · rename_i calls hinsert
    exact ⟨calls, hinsert, (pure_eq_ok.mp h).symm, hparent, by simpa using hunreported⟩

theorem insertReport_eq_ok {r : RequirementReport} (h : db.insertReport r = .ok db') :
    ∃ reports, db.reports.insert? r = some reports ∧ db' = { db with reports } ∧
      db.IsJob r.workspaceID r.recordingID r.jobID ∧ r.callCount =
        (db.attemptCalls r.workspaceID .requirement r.jobID r.attemptNumber).length ∧
      db.attemptReported r.workspaceID .requirement r.jobID r.attemptNumber = false ∧
      db.dsl.db.reports.find? r.id = none := by
  simp only [insertReport, ensure_bind_eq_ok, Option.isNone_iff_eq_none, beq_iff_eq, Bool.not_eq_true'] at h
  obtain ⟨hparent, hcount, -, -, hunreported, hapart, h⟩ := h
  obtain ⟨j, hj, hws, hrec, -⟩ := of_requirementAttempt hparent
  split at h
  · cases h
  · rename_i reports hinsert
    exact ⟨reports, hinsert, (pure_eq_ok.mp h).symm, ⟨j, hj, hws, hrec⟩, hcount, hunreported, hapart⟩

end RecordingDb

end Aegis.Requirements
