import Aegis.Dsl.Descent
import Aegis.Requirements.Statements

/-!
# Requirements.Lineage

Every derived row is of a recording that is there and not deleted.

`Lineage` says so of the seven tables, for any notion `live` of the recordings that may have rows:
a deletion marks its recordings first and deletes their rows afterwards, so between the two the
rows are of recordings that were live before. The foreign keys of the schema never cross from one
recording to another, which is why the deletions go through.
-/

namespace Aegis.Requirements

open Table CollectionRequirement

theorem RequirementJob.roots_of_identity {i j : RequirementJob} (h : i.identity = j.identity) :
    i.id = j.id ∧ i.workspaceID = j.workspaceID ∧ i.recordingID = j.recordingID :=
  ⟨congrArg Prod.fst h, congrArg (·.2.1) h, congrArg (·.2.2.1) h⟩

theorem CollectionRequirement.roots_of_identity {p q : CollectionRequirement}
    (h : p.identity = q.identity) : p.id = q.id ∧ p.workspaceID = q.workspaceID ∧
      p.recordingID = q.recordingID ∧ p.sourceJobID = q.sourceJobID :=
  ⟨congrArg Prod.fst h, congrArg (·.2.1) h, congrArg (·.2.2.1) h, congrArg (·.2.2.2.1) h⟩

namespace RecordingDb

def HasRequirement (db : RecordingDb) (workspace : WorkspaceID)
    (requirementID recordingID : String) : Prop :=
  ∃ q, db.requirements.find? requirementID = some q ∧ q.workspaceID = workspace ∧
    q.recordingID = recordingID

def SourceDescends (db : RecordingDb) (q : CollectionRequirement) : Prop :=
  ∀ id, q.sourceJobID = some id → ∃ j, db.jobs.find? id = some j ∧
    j.workspaceID = q.workspaceID ∧ j.recordingID = q.recordingID

/-- Every row belongs to a live recording of its workspace. -/
structure Lineage (live : WorkspaceID → String → Prop) (db : RecordingDb) : Prop where
  job : ∀ j, db.jobs.find? j.id = some j → live j.workspaceID j.recordingID
  requirement : ∀ q, db.requirements.find? q.id = some q → live q.workspaceID q.recordingID
  source : ∀ q, db.requirements.find? q.id = some q → db.SourceDescends q
  call : ∀ c, db.calls.find? c.id = some c → live c.workspaceID c.recordingID
  report : ∀ r, db.reports.find? r.id = some r → live r.workspaceID r.recordingID
  apart : ∀ r, db.reports.find? r.id = some r → db.dsl.db.reports.find? r.id = none
  dsl : DslDb.Descends db.HasRequirement live db.dsl.db

theorem hasRequirement_of_confirmed {db : RecordingDb} {workspace : WorkspaceID}
    {requirementID recordingID : String}
    (h : db.requirementConfirmed workspace requirementID recordingID) :
    db.HasRequirement workspace requirementID recordingID := by
  simp only [requirementConfirmed, Table.any_eq_true, Bool.and_eq_true, beq_iff_eq] at h
  obtain ⟨q, hq, ⟨⟨hws, rfl⟩, hrec⟩, -⟩ := h
  exact ⟨q, find?_key hq, hws, hrec⟩

namespace Lineage

variable {db db' : RecordingDb} {live live' : WorkspaceID → String → Prop}

theorem empty : Lineage live .empty where
  job _ h := by cases h
  requirement _ h := by cases h
  source _ h := by cases h
  call _ h := by cases h
  report _ h := by cases h
  apart _ h := by cases h
  dsl := .empty

theorem mono (h : Lineage live db)
    (hlive : ∀ ws recordingID, live ws recordingID → live' ws recordingID) : Lineage live' db where
  job j hj := hlive _ _ (h.job j hj)
  requirement q hq := hlive _ _ (h.requirement q hq)
  source := h.source
  call c hc := hlive _ _ (h.call c hc)
  report r hr := hlive _ _ (h.report r hr)
  apart := h.apart
  dsl := h.dsl.mono (fun _ _ _ hq => hq) hlive

theorem recordings {t : Table Recording.id} (h : Lineage live db) :
    Lineage live { db with recordings := t } :=
  ⟨h.job, h.requirement, h.source, h.call, h.report, h.apart, h.dsl⟩

theorem live_of_hasRequirement (h : Lineage live db) (ws requirementID recordingID : String)
    (hq : db.HasRequirement ws requirementID recordingID) : live ws recordingID := by
  obtain ⟨q, hfind, rfl, rfl⟩ := hq
  exact h.requirement q (find?_self hfind)

theorem updateJob {id : String} {p : RequirementJob → Bool} {f : RequirementJobUpdate}
    {e : RequirementError} (h : Lineage live db) (hok : db.updateJob id p f e = .ok db') :
    Lineage live db' ∧ db'.recordings = db.recordings := by
  obtain ⟨j, -, -, -, rfl⟩ := updateJob_eq_ok hok
  have hagree : Agree RequirementJob.identity db.jobs (db.jobs.updateRow j.id f.onID) :=
    .of_update _ _ _ f.keeps
  refine ⟨⟨?_, h.requirement, ?_, h.call, h.report, h.apart, h.dsl⟩, rfl⟩
  · intro j' hj'
    obtain ⟨i, hi, hid⟩ := hagree.symm.row hj'
    obtain ⟨hkey, hws, hrec⟩ := RequirementJob.roots_of_identity hid
    have hlive := h.job i (hkey.symm ▸ hi)
    rwa [hws, hrec] at hlive
  · intro q hq source hsource
    obtain ⟨i, hi, hws, hrec⟩ := h.source q hq source hsource
    obtain ⟨j', hj', hid⟩ := hagree.row hi
    obtain ⟨-, hws', hrec'⟩ := RequirementJob.roots_of_identity hid
    exact ⟨j', hj', hws'.trans hws, hrec'.trans hrec⟩

theorem insertJob {j : RequirementJob} (h : Lineage db.Live db)
    (hok : db.insertJob j = .ok db') : Lineage db.Live db' ∧ db'.recordings = db.recordings := by
  obtain ⟨jobs, hinsert, rfl, hlive⟩ := insertJob_eq_ok hok
  refine ⟨⟨?_, h.requirement, ?_, h.call, h.report, h.apart, h.dsl⟩, rfl⟩
  · intro i hi
    rcases (wrote_insert? hinsert).cases hi with ⟨-, rfl⟩ | ⟨-, hold⟩
    · exact hlive
    · exact h.job i hold
  · intro q hq source hsource
    obtain ⟨i, hi, hrest⟩ := h.source q hq source hsource
    exact ⟨i, find?_insert?_of_some hinsert hi, hrest⟩

theorem insertRequirement {q : CollectionRequirement} (h : Lineage db.Live db)
    (hok : db.insertRequirement q = .ok db') :
    Lineage db.Live db' ∧ db'.recordings = db.recordings := by
  obtain ⟨requirements, hinsert, rfl, hlive, hsource, -⟩ := insertRequirement_eq_ok hok
  have hwrote := wrote_insert? hinsert
  refine ⟨⟨h.job, ?_, ?_, h.call, h.report, h.apart, h.dsl.mono ?_ fun _ _ hl => hl⟩, rfl⟩
  · intro p hp
    rcases hwrote.cases hp with ⟨-, rfl⟩ | ⟨-, hold⟩
    · exact hlive
    · exact h.requirement p hold
  · intro p hp
    rcases hwrote.cases hp with ⟨-, rfl⟩ | ⟨-, hold⟩
    · exact hsource
    · exact h.source p hold
  · rintro ws requirementID recordingID ⟨p, hp, hrest⟩
    exact ⟨p, find?_insert?_of_some hinsert hp, hrest⟩

theorem live_of_isJob {workspace : WorkspaceID} {recordingID jobID : String}
    (h : Lineage live db) (hjob : db.IsJob workspace recordingID jobID) :
    live workspace recordingID := by
  obtain ⟨j, hj, rfl, rfl⟩ := hjob
  exact h.job j (find?_self hj)

theorem live_of_dslAttempt {workspace : WorkspaceID} {recordingID jobID : String}
    {attemptNumber : Nat} (h : Lineage live db)
    (hattempt : db.dslAttempt workspace recordingID jobID attemptNumber) :
    live workspace recordingID := by
  simp only [dslAttempt, Table.any_eq_true, Bool.and_eq_true, beq_iff_eq] at hattempt
  obtain ⟨j, -, ⟨⟨⟨rfl, -⟩, -⟩, -⟩, w, hw, ⟨hws, -⟩, rfl⟩ := hattempt
  rw [← hws]
  exact h.live_of_hasRequirement _ _ _ (h.dsl.workflow w (find?_key hw))

theorem insertCall {c : LLMProviderCall} (h : Lineage live db)
    (hok : db.insertCall c = .ok db') : Lineage live db' ∧ db'.recordings = db.recordings := by
  obtain ⟨calls, hinsert, rfl, hparent, -⟩ := insertCall_eq_ok hok
  have hlive : live c.workspaceID c.recordingID := by
    cases htype : c.jobType with
    | requirement =>
      rw [htype] at hparent
      obtain ⟨j, hj, hws, hrec, -⟩ := of_requirementAttempt hparent
      exact h.live_of_isJob ⟨j, hj, hws, hrec⟩
    | dsl =>
      rw [htype] at hparent
      exact h.live_of_dslAttempt hparent
  refine ⟨⟨h.job, h.requirement, h.source, ?_, h.report, h.apart, h.dsl⟩, rfl⟩
  intro b hb
  rcases (wrote_insert? hinsert).cases hb with ⟨-, rfl⟩ | ⟨-, hold⟩
  · exact hlive
  · exact h.call b hold

theorem insertReport {r : RequirementReport} (h : Lineage live db)
    (hok : db.insertReport r = .ok db') : Lineage live db' ∧ db'.recordings = db.recordings := by
  obtain ⟨reports, hinsert, rfl, hjob, -, -, hapart⟩ := insertReport_eq_ok hok
  refine ⟨⟨h.job, h.requirement, h.source, h.call, ?_, ?_, h.dsl⟩, rfl⟩
  · intro q hq
    rcases (wrote_insert? hinsert).cases hq with ⟨-, rfl⟩ | ⟨-, hold⟩
    · exact h.live_of_isJob hjob
    · exact h.report q hold
  · intro q hq
    rcases (wrote_insert? hinsert).cases hq with ⟨-, rfl⟩ | ⟨-, hold⟩
    · exact hapart
    · exact h.apart q hold

theorem confirmRequirement {c : Ctx} {id actor : String} (h : Lineage live db)
    (hok : db.confirmCollectionRequirement c id actor = .ok db') :
    Lineage live db' ∧ db'.recordings = db.recordings := by
  rcases confirmCollectionRequirement_eq_ok hok with rfl | rfl
  · exact ⟨h, rfl⟩
  · have hagree : Agree identity db.requirements
        (db.requirements.updateRow id (requirementOnID (Requirements.confirmRequirement c.now actor))) :=
      .of_update _ _ _ (Requirements.confirmRequirement c.now actor).keeps
    refine ⟨⟨h.job, ?_, ?_, h.call, h.report, h.apart, h.dsl.mono ?_ fun _ _ hl => hl⟩, rfl⟩
    · intro p hp
      obtain ⟨o, ho, hid⟩ := hagree.symm.row hp
      obtain ⟨hkey, hws, hrec, -⟩ := roots_of_identity hid
      have hlive := h.requirement o (hkey.symm ▸ ho)
      rwa [hws, hrec] at hlive
    · intro p hp source hsource
      obtain ⟨o, ho, hid⟩ := hagree.symm.row hp
      obtain ⟨hkey, hws, hrec, hsrc⟩ := roots_of_identity hid
      obtain ⟨j, hj, hjws, hjrec⟩ := h.source o (hkey.symm ▸ ho) source (hsrc.trans hsource)
      exact ⟨j, hj, hjws.trans hws, hjrec.trans hrec⟩
    · rintro ws requirementID recordingID ⟨p, hp, hpws, hprec⟩
      obtain ⟨o, ho, hid⟩ := hagree.row hp
      obtain ⟨-, hws, hrec, -⟩ := roots_of_identity hid
      exact ⟨o, ho, hws.trans hpws, hrec.trans hprec⟩

theorem founded_atRequirements (e : DslEvent) : DslDb.Founded db.HasRequirement (db.atRequirements e) := by
  cases e with
  | createDSLWorkflow c w options confirmed newID jobID => exact hasRequirement_of_confirmed
  | createAdminReviewedDSLWorkflow c w artifact confirmed newID =>
    exact hasRequirement_of_confirmed
  | _ => exact trivial

theorem serveDsl {d : Digests} {e : DslEvent} (h : Lineage live db)
    (hok : db.serveDsl d e = .ok db') : Lineage live db' ∧ db'.recordings = db.recordings := by
  unfold RecordingDb.serveDsl at hok
  split at hok
  · cases hok
  · rename_i dslDb replies hserve
    simp only [ensure_bind_eq_ok, pure_eq_ok, Bool.not_eq_true', Table.any_eq_false] at hok
    obtain ⟨hapart, rfl⟩ := hok
    have hfounded : DslDb.Founded db.HasRequirement (db.atRequirements e) :=
      founded_atRequirements e
    have hstatements := DslServer.serve_statements hfounded hserve
    have hdsl := h.dsl.statements h.live_of_hasRequirement hstatements
    refine ⟨⟨h.job, h.requirement, h.source, h.call, h.report, ?_, hdsl⟩, rfl⟩
    intro r hr
    show dslDb.reports.find? r.id = none
    cases hfind : dslDb.reports.find? r.id with
    | none => rfl
    | some q =>
      have hfree := hapart q (mem_of_find? hfind)
      have hkey : q.id = r.id := key_of_find? hfind
      rw [hkey, show db.reports.find? r.id = some r from hr] at hfree
      cases hfree

end Lineage

end RecordingDb

end Aegis.Requirements
