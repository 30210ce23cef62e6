import Aegis.Requirements.Lineage

/-!
# Requirements.Deletion

A deleted recording leaves nothing derived behind.

Whatever the other calls do, and in whatever order, a deletion goes through: no row that stays
refers to one that goes (`deleteDerived_eq`). And in every state that calls lead to, no row of the
seven tables refers to a deleted recording, whose payload is gone (`deleted_leaves_nothing`).
-/

namespace Aegis.Requirements

open List Option Table

namespace RecordingDb

section Deletion

variable {db : RecordingDb} {live : WorkspaceID → String → Prop} {workspace : WorkspaceID}
  {gone : String → Bool}

variable {ρ κ : Type} {key : ρ → κ} {t : Table key} {p : ρ → Bool}

theorem of_any [DecidableEq κ] {k : κ}
    {r : ρ} (hr : t.find? k = some r) (hp : ∀ q, p q → key q = k) (h : t.any p) :
    p r := by
  obtain ⟨q, hq, hcond⟩ := Table.any_eq_true.mp h
  rwa [eq_of_find? hr (find?_key hq) (hp q hcond)] at hcond

theorem exists_of_any {id : ρ → String} {t : Table id} {k : String}
    (h : (t.any fun r => p r && id r == k) = true) :
    ∃ r, t.find? (id r) = some r ∧ p r = true ∧ id r = k := by
  obtain ⟨r, hr, hcond⟩ := Table.any_eq_true.mp h
  simp only [Bool.and_eq_true, beq_iff_eq] at hcond
  exact ⟨r, find?_key hr, hcond⟩

theorem refersTo_eq_false [DecidableEq κ] {ref : ρ → Option String} {going : String → Bool}
    (h : ∀ r, t.find? (key r) = some r → ∀ id, ref r = some id → ¬going id = true) :
    refersTo t ref going = false := by
  refine Table.any_eq_false.mpr fun r hr => ?_
  cases href : ref r with
  | none => rfl
  | some id => simpa using h r (find?_key hr) id href

def withoutDerived (workspace : WorkspaceID) (gone : String → Bool) (db : RecordingDb) : RecordingDb :=
  let goneWorkflow id := db.dsl.db.workflows.any fun w =>
    w.id == id && w.workspaceID == workspace && gone w.recordingID
  { db with
    jobs := db.jobs.delete fun j => j.workspaceID == workspace && gone j.recordingID,
    requirements := db.requirements.delete fun q => q.workspaceID == workspace && gone q.recordingID,
    calls := db.calls.delete fun c => c.workspaceID == workspace && gone c.recordingID,
    reports := db.reports.delete fun r => r.workspaceID == workspace && gone r.recordingID,
    dsl.db.workflows :=
      db.dsl.db.workflows.delete fun w => w.workspaceID == workspace && gone w.recordingID,
    dsl.db.jobs :=
      db.dsl.db.jobs.delete fun j => j.workspaceID == workspace && goneWorkflow j.workflowID,
    dsl.db.replays :=
      db.dsl.db.replays.delete fun a => a.workspaceID == workspace && goneWorkflow a.workflowID,
    dsl.db.reports :=
      db.dsl.db.reports.delete fun r => r.workspaceID == workspace && gone r.recordingID }

def Going (workspace : WorkspaceID) (gone : String → Bool) (ws : WorkspaceID)
    (recordingID : String) : Prop :=
  ws = workspace ∧ gone recordingID = true

variable {ws : WorkspaceID}

theorem not_going_iff {recordingID : String} :
    (ws == workspace && gone recordingID) = false ↔ ¬Going workspace gone ws recordingID := by
  rw [← Bool.not_eq_true, Bool.and_eq_true, beq_iff_eq, Going]

variable {id : String} {w : DSLWorkflow}

theorem goneWorkflow_iff (hw : db.dsl.db.workflows.find? id = some w) :
    (db.dsl.db.workflows.any fun w => w.id == id && w.workspaceID == workspace &&
      gone w.recordingID) ↔ Going workspace gone w.workspaceID w.recordingID := by
  constructor
  · intro h
    have hcond := of_any hw (by simp +contextual) h
    simp only [Bool.and_eq_true, beq_iff_eq] at hcond
    exact ⟨hcond.1.2, hcond.2⟩
  · rintro ⟨hws, hgone⟩
    refine Table.any_eq_true.mpr ⟨w, mem_of_find? hw, ?_⟩
    simp [key_of_find? hw, hws, hgone]

theorem stays_of_child (hw : db.dsl.db.workflows.find? id = some w) (hws : w.workspaceID = ws)
    (h : (ws == workspace && db.dsl.db.workflows.any fun w =>
      w.id == id && w.workspaceID == workspace && gone w.recordingID) = false) :
    ¬Going workspace gone w.workspaceID w.recordingID := by
  intro hgoing
  rw [(goneWorkflow_iff hw).mpr hgoing, ← hws, hgoing.1] at h
  simp at h

theorem deleteWorkflows_eq {p : DSLWorkflow → Bool} (hjobs : ∀ j, db.dsl.db.jobs.find? j.id = some j → ∀ w,
      db.dsl.db.workflows.find? j.workflowID = some w → p w = false)
    (hreplays : ∀ a, db.dsl.db.replays.find? a.id = some a → ∀ w,
      db.dsl.db.workflows.find? a.workflowID = some w → p w = false) :
    db.deleteWorkflows p = .ok { db with dsl.db.workflows := db.dsl.db.workflows.delete p } := by
  refine ensure_bind_eq_ok.mpr ⟨?_, ensure_bind_eq_ok.mpr ⟨?_, rfl⟩⟩
  · rw [refersTo_eq_false]
    · rfl
    rintro j hj _ ⟨⟩ hgoing
    obtain ⟨w, hw, hp, hid⟩ := exists_of_any hgoing
    rw [hjobs j hj w (hid ▸ hw)] at hp
    cases hp
  · rw [refersTo_eq_false]
    · rfl
    rintro a ha _ ⟨⟩ hgoing
    obtain ⟨w, hw, hp, hid⟩ := exists_of_any hgoing
    rw [hreplays a ha w (hid ▸ hw)] at hp
    cases hp

theorem deleteReports_eq {p : WorkspaceID → String → Bool}
    (hdsl : ∀ j, db.dsl.db.jobs.find? j.id = some j → ∀ id, j.sourceAttemptReportID = some id →
      ∀ r, db.dsl.db.reports.find? id = some r → p r.workspaceID r.recordingID = false)
    (hapart : ∀ j, db.dsl.db.jobs.find? j.id = some j → ∀ id, j.sourceAttemptReportID = some id →
      db.reports.find? id = none) :
    db.deleteReports p = .ok { db with
      reports := db.reports.delete fun r => p r.workspaceID r.recordingID,
      dsl.db.reports := db.dsl.db.reports.delete fun r => p r.workspaceID r.recordingID } := by
  refine ensure_bind_eq_ok.mpr ⟨?_, rfl⟩
  rw [refersTo_eq_false]
  · rfl
  intro j hj id hid hgoing
  rcases Bool.or_eq_true_iff.mp hgoing with hgoing | hgoing
  · obtain ⟨r, hr, hp, rfl⟩ := exists_of_any hgoing
    rw [hdsl j hj _ hid r hr] at hp
    cases hp
  · obtain ⟨r, hr, -, rfl⟩ := exists_of_any hgoing
    rw [hapart j hj _ hid] at hr
    cases hr

theorem deleteRequirements_eq {p : CollectionRequirement → Bool}
    (h : ∀ w, db.dsl.db.workflows.find? w.id = some w → ∀ q,
      db.requirements.find? w.requirementID = some q → p q = false) :
    db.deleteRequirements p = .ok { db with requirements := db.requirements.delete p } := by
  refine ensure_bind_eq_ok.mpr ⟨?_, rfl⟩
  rw [refersTo_eq_false]
  · rfl
  rintro w hw _ ⟨⟩ hgoing
  obtain ⟨q, hq, hp, hid⟩ := exists_of_any hgoing
  rw [h w hw q (hid ▸ hq)] at hp
  cases hp

theorem deleteJobs_eq {p : RequirementJob → Bool}
    (h : ∀ q, db.requirements.find? q.id = some q → ∀ id, q.sourceJobID = some id → ∀ j,
      db.jobs.find? id = some j → p j = false) :
    db.deleteJobs p = .ok { db with jobs := db.jobs.delete p } := by
  refine ensure_bind_eq_ok.mpr ⟨?_, rfl⟩
  rw [refersTo_eq_false]
  · rfl
  intro q hq id hid hgoing
  obtain ⟨j, hj, hp, rfl⟩ := exists_of_any hgoing
  rw [h q hq _ hid j hj] at hp
  cases hp

theorem deleteDerived_eq (h : Lineage live db) :
    db.deleteDerived workspace gone = .ok (db.withoutDerived workspace gone) := by
  refine bind_eq_ok.mpr ⟨_, deleteWorkflows_eq ?_ ?_, bind_eq_ok.mpr ⟨_, deleteReports_eq ?_ ?_,
    bind_eq_ok.mpr ⟨_, deleteRequirements_eq ?_, deleteJobs_eq ?_⟩⟩⟩
  · intro j hj w hw
    obtain ⟨hj, hstays⟩ := find?_delete_eq_some.mp hj
    obtain ⟨v, hv, hws, -⟩ := h.dsl.job j hj
    obtain rfl := mem_unique hv hw
    exact not_going_iff.mpr (stays_of_child hv hws hstays)
  · intro a ha w hw
    obtain ⟨ha, hstays⟩ := find?_delete_eq_some.mp ha
    obtain ⟨v, hv, hws⟩ := h.dsl.replay a ha
    obtain rfl := mem_unique hv hw
    exact not_going_iff.mpr (stays_of_child hv hws hstays)
  · intro j hj id hid r hr
    obtain ⟨hj, hstays⟩ := find?_delete_eq_some.mp hj
    obtain ⟨w, hw, hws, hsource⟩ := h.dsl.job j hj
    obtain ⟨q, hq, hqws, hqrec⟩ := hsource id hid
    obtain rfl := mem_unique hq hr
    rw [hqws, hqrec]
    exact not_going_iff.mpr (stays_of_child hw hws hstays)
  · -- a report of a requirement job has another name
    intro j hj id hid
    obtain ⟨hj, -⟩ := find?_delete_eq_some.mp hj
    obtain ⟨w, -, -, hsource⟩ := h.dsl.job j hj
    obtain ⟨r, hr, -⟩ := hsource id hid
    show db.reports.find? id = none
    cases hfind : db.reports.find? id with
    | none => rfl
    | some q =>
      have hapart := h.apart q (find?_self hfind)
      rw [key_of_find? hfind, hr] at hapart
      cases hapart
  · intro w hw q hq
    obtain ⟨hw, hstays⟩ := find?_delete_eq_some.mp hw
    obtain ⟨p, hp, hws, hrec⟩ := h.dsl.workflow w hw
    obtain rfl := mem_unique hp hq
    rw [hws, hrec]
    exact hstays
  · intro q hq id hid j hj
    obtain ⟨hq, hstays⟩ := find?_delete_eq_some.mp hq
    obtain ⟨i, hi, hws, hrec⟩ := h.source q hq id hid
    obtain rfl := mem_unique hi hj
    rw [hws, hrec]
    exact hstays

theorem Lineage.withoutDerived (h : Lineage live db) :
    Lineage (fun ws recordingID => live ws recordingID ∧ ¬Going workspace gone ws recordingID)
      (db.withoutDerived workspace gone) where
  job j hj := by
    obtain ⟨hj, hstays⟩ := find?_delete_eq_some.mp hj
    exact ⟨h.job j hj, not_going_iff.mp hstays⟩
  requirement q hq := by
    obtain ⟨hq, hstays⟩ := find?_delete_eq_some.mp hq
    exact ⟨h.requirement q hq, not_going_iff.mp hstays⟩
  source q hq id hid := by
    obtain ⟨hq, hstays⟩ := find?_delete_eq_some.mp hq
    obtain ⟨j, hj, hws, hrec⟩ := h.source q hq id hid
    refine ⟨j, find?_delete_eq_some.mpr ⟨hj, ?_⟩, hws, hrec⟩
    rw [hws, hrec]
    exact hstays
  call c hc := by
    obtain ⟨hc, hstays⟩ := find?_delete_eq_some.mp hc
    exact ⟨h.call c hc, not_going_iff.mp hstays⟩
  report r hr := by
    obtain ⟨hr, hstays⟩ := find?_delete_eq_some.mp hr
    exact ⟨h.report r hr, not_going_iff.mp hstays⟩
  apart r hr := by
    obtain ⟨hr, -⟩ := find?_delete_eq_some.mp hr
    show (Table.delete _ _).find? r.id = none
    rw [Table.find?_delete, h.apart r hr, filter_none]
  dsl := {
    workflow := by
      intro w hw
      obtain ⟨hw, hstays⟩ := find?_delete_eq_some.mp hw
      obtain ⟨q, hq, hws, hrec⟩ := h.dsl.workflow w hw
      refine ⟨q, find?_delete_eq_some.mpr ⟨hq, ?_⟩, hws, hrec⟩
      rw [hws, hrec]
      exact hstays
    job := by
      intro j hj
      obtain ⟨hj, hstays⟩ := find?_delete_eq_some.mp hj
      obtain ⟨w, hw, hws, hsource⟩ := h.dsl.job j hj
      have hnot := not_going_iff.mpr (stays_of_child hw hws hstays)
      refine ⟨w, find?_delete_eq_some.mpr ⟨hw, hnot⟩, hws, ?_⟩
      intro id hid
      obtain ⟨r, hr, hrws, hrec⟩ := hsource id hid
      refine ⟨r, find?_delete_eq_some.mpr ⟨hr, ?_⟩, hrws, hrec⟩
      rw [hrws, hrec]
      exact hnot
    replay := by
      intro a ha
      obtain ⟨ha, hstays⟩ := find?_delete_eq_some.mp ha
      obtain ⟨w, hw, hws⟩ := h.dsl.replay a ha
      exact ⟨w, find?_delete_eq_some.mpr ⟨hw, not_going_iff.mpr (stays_of_child hw hws hstays)⟩, hws⟩
    report := by
      intro r hr
      obtain ⟨hr, hstays⟩ := find?_delete_eq_some.mp hr
      exact ⟨h.dsl.report r hr, not_going_iff.mp hstays⟩ }

end Deletion

/-! ## Every call keeps the lineage -/

/-- Deleted recordings have no payload. -/
def Erased (db : RecordingDb) : Prop :=
  ∀ r, db.recordings.find? r.id = some r → r.status = .deleted → r.encryptedPayload = none

/-- The derived rows are of live recordings, and the payloads of the others are gone. The recordings
that `dead` names have been deleted. -/
structure Sound (dead : WorkspaceID → String → Prop) (db : RecordingDb) : Prop where
  lineage : db.Lineage db.Live
  erased : db.Erased
  dead : ∀ ws id, dead ws id → ∃ r, db.recordings.find? id = some r ∧ r.workspaceID = ws ∧
    r.status = .deleted

theorem live_congr {db db' : RecordingDb} (h : db'.recordings = db.recordings) : db'.Live = db.Live := by
  funext ws recordingID
  rw [Live, Live, h]

namespace Sound

variable {db db' : RecordingDb} {c : Ctx} {dead : WorkspaceID → String → Prop}

theorem empty : Sound (fun _ _ => False) .empty := ⟨.empty, nofun, nofun⟩

theorem of_lineage (h : Sound dead db) (hok : Lineage db.Live db' ∧ db'.recordings = db.recordings) :
    Sound dead db' := by
  refine ⟨live_congr hok.2 ▸ hok.1, ?_, ?_⟩
  · intro r hr
    rw [hok.2] at hr
    exact h.erased r hr
  · rw [hok.2]
    exact h.dead

theorem insertRecording {r : Recording} (h : Sound dead db) (hstatus : r.status = .captured)
    (hok : db.insertRecording r = .ok db') : Sound dead db' := by
  unfold RecordingDb.insertRecording at hok
  cases ht : db.recordings.insert? r with
  | none => simp [ht] at hok
  | some t =>
    simp only [ht, Except.ok.injEq] at hok
    subst hok
    refine ⟨h.lineage.recordings.mono ?_, ?_, fun ws id hdead => ?_⟩
    · rintro ws recordingID ⟨q, hq, hrest⟩
      exact ⟨q, find?_insert?_of_some ht hq, hrest⟩
    · intro q hq hdeleted
      rcases (wrote_insert? ht).cases hq with ⟨-, rfl⟩ | ⟨-, hold⟩
      · rw [hstatus] at hdeleted
        cases hdeleted
      · exact h.erased q hold hdeleted
    · obtain ⟨q, hq, hrest⟩ := h.dead ws id hdead
      exact ⟨q, find?_insert?_of_some ht hq, hrest⟩

/-- The recordings that `p` picks out are marked: they are dead from now on. -/
theorem erase (c : Ctx) (p : Recording → Bool) (gone : String → Bool) (h : Sound dead db)
    (hgone : ∀ r, db.recordings.find? r.id = some r → p r = true →
      Going c.workspace gone r.workspaceID r.id) :
    let marked := { db with
      recordings := db.recordings.update p (recordingOnID (eraseRecording c.now)) }
    marked.deleteDerived c.workspace gone = .ok (marked.withoutDerived c.workspace gone) ∧
      Sound (fun ws id => dead ws id ∨ ∃ r, db.recordings.find? id = some r ∧ r.workspaceID = ws ∧
        (p r = true ∨ r.status = .deleted)) (marked.withoutDerived c.workspace gone) := by
  intro marked
  have hmarked : Lineage db.Live marked := h.lineage.recordings
  refine ⟨deleteDerived_eq hmarked, hmarked.withoutDerived.mono ?_, ?_, ?_⟩
  · rintro ws recordingID ⟨⟨r, hr, rfl, hstatus⟩, hnot⟩
    have hkey := key_of_find? hr
    refine ⟨r, ?_, rfl, hstatus⟩
    show (db.recordings.update p _).find? recordingID = some r
    rw [find?_update, hr, map_some, setIf_neg]
    by_contra hp
    rw [← hkey] at hnot
    exact hnot (hgone r (find?_self hr) (by simpa using hp))
  · intro r hr hdeleted
    have hr : (db.recordings.update p (recordingOnID (eraseRecording c.now))).find? r.id = some r := hr
    rw [find?_update] at hr
    obtain ⟨q, hq, heq⟩ := map_eq_some_iff.mp hr
    by_cases hp : p q
    · rw [setIf_pos hp] at heq
      rw [← heq]
      rfl
    · rw [setIf_neg (by simpa using hp)] at heq
      subst heq
      exact h.erased q hq hdeleted
  · intro ws id hdead
    have hrow : ∃ r, db.recordings.find? id = some r ∧ r.workspaceID = ws ∧
        (p r = true ∨ r.status = .deleted) := by
      rcases hdead with hdead | hrow
      · obtain ⟨r, hr, hws, hstatus⟩ := h.dead ws id hdead
        exact ⟨r, hr, hws, .inr hstatus⟩
      · exact hrow
    obtain ⟨r, hr, hws, hor⟩ := hrow
    refine ⟨setIf p (eraseRecording c.now).set r, ?_, ?_, ?_⟩
    · show (db.recordings.update p _).find? id = _
      rw [find?_update, hr]
      rfl
    · unfold setIf
      split <;> exact hws
    · unfold setIf
      split
      · rfl
      · rename_i hp
        exact hor.resolve_left hp

theorem mono {dead' : WorkspaceID → String → Prop} (h : Sound dead db)
    (himp : ∀ ws id, dead' ws id → dead ws id) : Sound dead' db :=
  ⟨h.lineage, h.erased, fun ws id hdead => h.dead ws id (himp ws id hdead)⟩

/-- A deletion adds its recording to those that are deleted, or finds none. -/
theorem deleteRecording (h : Sound dead db) (c : Ctx) (id : String) :
    (∃ db', db.deleteRecording c id = .ok db' ∧
        Sound (fun ws i => dead ws i ∨ ws = c.workspace ∧ i = id) db') ∨
      (db.deleteRecording c id = .error .recordingNotFound ∧
        ∀ r ∈ db.recordings.rows, r.id = id → r.workspaceID ≠ c.workspace) := by
  obtain ⟨hok, hsound⟩ := h.erase c (erasable c id) (fun i => i == id) (by
    intro r hr hp
    simp only [erasable, Bool.and_eq_true, beq_iff_eq] at hp
    exact ⟨hp.1.2, by simpa using hp.1.1⟩)
  by_cases hfound : (db.recordings.rows.countP (erasable c id) != 0 ||
      (db.recordings.update (erasable c id) (recordingOnID (eraseRecording c.now))).any fun r =>
        r.id == id && r.workspaceID == c.workspace)
  · refine .inl ⟨_, ensure_bind_eq_ok.mpr ⟨hfound, hok⟩, hsound.mono ?_⟩
    rintro ws i (hdead | ⟨rfl, rfl⟩)
    · exact .inl hdead
    · have hrow : ∃ r ∈ db.recordings.rows, r.id = i ∧ r.workspaceID = c.workspace := by
        rcases Bool.or_eq_true_iff.mp hfound with hcount | hany
        · obtain ⟨r, hr, hp⟩ := countP_pos_iff.mp (Nat.pos_of_ne_zero (by simpa using hcount))
          simp only [erasable, Bool.and_eq_true, beq_iff_eq] at hp
          exact ⟨r, hr, hp.1⟩
        · obtain ⟨q, hq, hcond⟩ := Table.any_eq_true.mp hany
          obtain ⟨r, hr, rfl⟩ := List.mem_map.mp hq
          refine ⟨r, hr, ?_⟩
          unfold setIf at hcond
          split at hcond <;> simpa [recordingOnID, eraseRecording] using hcond
      obtain ⟨r, hr, rfl, hws⟩ := hrow
      refine .inr ⟨r, find?_key hr, hws, ?_⟩
      by_cases hstatus : r.status = .deleted
      · exact .inr hstatus
      · exact .inl (by simp [erasable, hws, hstatus])
  · refine .inr ⟨?_, ?_⟩
    · unfold RecordingDb.deleteRecording
      simp only [Bool.not_eq_true] at hfound
      simp only [hfound]
      rfl
    · rintro r hr rfl hws
      apply hfound
      simp only [Bool.or_eq_true, Table.any_eq_true, Table.update_rows]
      refine .inr ⟨_, List.mem_map_of_mem hr, ?_⟩
      unfold setIf
      split
      · simp [recordingOnID, eraseRecording, hws]
      · simp [hws]

/-- The deletion of a batch always goes through, and adds the batch to those that are deleted. -/
theorem deleteExpiredRecordings (h : Sound dead db) (c : Ctx) (before : Time) (batch : Int)
    (tie : String → Nat) :
    ∃ db' deleted, db.deleteExpiredRecordings c before batch tie = .ok (db', deleted) ∧
      Sound (fun ws id => dead ws id ∨ ws = c.workspace ∧ ∃ r ∈ db.expiredRecordings c before
        (if batch ≤ 0 then 1000 else batch.toNat) tie, r.id = id) db' := by
  let selected :=
    (db.expiredRecordings c before (if batch ≤ 0 then 1000 else batch.toNat) tie).map Recording.id
  let marked := { db with
    recordings := db.recordings.update (fun r => selected.contains r.id)
      (recordingOnID (eraseRecording c.now)) }
  obtain ⟨hok, hsound⟩ := h.erase c (fun r => selected.contains r.id)
    (marked.erasedNow c) (by
      intro r hr hp
      obtain ⟨q, hq, hid⟩ := List.mem_map.mp (contains_iff_mem.mp hp)
      have hq := (mem_insertionSort _).mp (mem_of_mem_take hq)
      simp only [mem_filter, Bool.and_eq_true, beq_iff_eq] at hq
      obtain rfl := eq_of_find? hr (find?_key hq.1) hid
      refine ⟨hq.2.1.1, Table.any_eq_true.mpr
        ⟨(eraseRecording c.now).set q, List.mem_map.mpr ⟨q, hq.1, setIf_pos hp⟩, ?_⟩⟩
      simp [eraseRecording, hq.2.1.1])
  refine ⟨_, _, bind_eq_ok.mpr ⟨_, hok, rfl⟩, hsound.mono ?_⟩
  rintro ws id (hdead | ⟨rfl, r, hr, rfl⟩)
  · exact .inl hdead
  · have hmem := (mem_insertionSort _).mp (mem_of_mem_take hr)
    simp only [mem_filter, Bool.and_eq_true, beq_iff_eq] at hmem
    exact .inr ⟨r, find?_key hmem.1, hmem.2.1.1,
      .inl (contains_iff_mem.mpr (List.mem_map_of_mem hr))⟩

theorem insertOptional {report : Option RequirementReport} (h : Sound dead db)
    (hok : db.insertOptional report = .ok db') : Sound dead db' := by
  cases report with
  | none =>
    cases hok
    exact h
  | some r => exact h.of_lineage (h.lineage.insertReport hok)

variable {newID : String} {earlier : RecordingDb}

theorem createRequirementJob {n : NewRequirementJob} {request : JSON} (h : Sound dead db)
    (hok : db.createRequirementJob c n request newID earlier = .ok db') : Sound dead db' := by
  simp only [RecordingDb.createRequirementJob, ensure_bind_eq_ok] at hok
  exact h.of_lineage (h.lineage.insertJob hok.2.2)

variable {now : Time} {reportID : String} {job : RequirementJob}

theorem finalizeInterrupted (h : Sound dead db)
    (hok : db.finalizeInterruptedRequirementAttempt now reportID job = .ok db') : Sound dead db' := by
  unfold finalizeInterruptedRequirementAttempt at hok
  split at hok
  · cases hok
    exact h
  · split at hok
    · cases hok
      exact h
    · exact h.of_lineage (h.lineage.insertReport (ensure_bind_eq_ok.mp hok).2)

variable {copy : Option RequirementJob}

theorem takeUp {leaseUntil : Time}
    (h : Sound dead db) (hok : db.takeUp now leaseUntil job = .ok (db', copy)) : Sound dead db' := by
  unfold RecordingDb.takeUp at hok
  split at hok
  all_goals
    simp only [bind_eq_ok, pure_eq_ok, Prod.mk.injEq] at hok
    obtain ⟨db₁, hupdate, rfl, -⟩ := hok
    exact h.of_lineage (h.lineage.updateJob hupdate)

theorem claimPendingRequirementJob {lease : Duration} {tie : String → Nat} (h : Sound dead db)
    (hok : db.claimPendingRequirementJob now lease tie reportID = .ok (db', copy)) :
    Sound dead db' := by
  unfold RecordingDb.claimPendingRequirementJob at hok
  split at hok
  · cases hok
  · obtain ⟨db₁, hrecover, hok⟩ := bind_eq_ok.mp hok
    unfold recoverAttempt at hrecover
    split at hrecover
    · exact (h.finalizeInterrupted hrecover).takeUp hok
    · cases hrecover
      exact h.takeUp hok

theorem createLLMProviderCall {call : LLMProviderCall} {accepted joined : Bool} (h : Sound dead db)
    (hok : db.createLLMProviderCall c call accepted joined newID earlier = .ok db') :
    Sound dead db' := by
  simp only [RecordingDb.createLLMProviderCall, bind_eq_ok] at hok
  obtain ⟨-, -, ⟨recordingID, attemptCount⟩, -, -, -, -, -, hinsert⟩ := hok
  exact h.of_lineage (h.lineage.insertCall hinsert)

variable {o : Completion} {report : Option (RequirementReport × ReportReads)}

theorem completeRequirementJob (h : Sound dead db)
    (hok : db.completeRequirementJob c job o report = .ok db') : Sound dead db' := by
  simp only [RecordingDb.completeRequirementJob, bind_eq_ok] at hok
  obtain ⟨-, -, -, -, prepared, -, db₁, hreport, hcomplete⟩ := hok
  have hsound := h.insertOptional hreport
  exact hsound.of_lineage (hsound.lineage.updateJob hcomplete)

variable {n : NewCollectionRequirement} {subject : String}

theorem completeRequirementJobWithDraft (h : Sound dead db)
    (hok : db.completeRequirementJobWithDraft c job o n subject report = .ok db') :
    Sound dead db' := by
  simp only [RecordingDb.completeRequirementJobWithDraft, bind_eq_ok] at hok
  obtain ⟨-, -, -, -, -, -, -, -, prepared, -, db₁, hdraft, db₂, hreport, hcomplete⟩ := hok
  have hdrafted := h.of_lineage (h.lineage.insertRequirement hdraft)
  have hreported := hdrafted.insertOptional hreport
  exact hreported.of_lineage (hreported.lineage.updateJob hcomplete)

theorem failRequirementJob {code message : String} {retryDelay : Duration} (h : Sound dead db)
    (hok : db.failRequirementJob c job code message retryDelay report = .ok db') : Sound dead db' := by
  simp only [RecordingDb.failRequirementJob, bind_eq_ok] at hok
  obtain ⟨-, -, -, -, prepared, -, db₁, hreport, hfail⟩ := hok
  have hsound := h.insertOptional hreport
  exact hsound.of_lineage (hsound.lineage.updateJob hfail)

theorem createCollectionRequirement
    (h : Sound dead db) (hok : db.createCollectionRequirement c n subject newID = .ok db') :
    Sound dead db' :=
  h.of_lineage (h.lineage.insertRequirement (ensure_bind_eq_ok.mp hok).2)

end Sound

end RecordingDb

namespace RecordingServer

open RecordingDb (Sound)

variable {d : Digests} {s s' : RecordingServer} {dead : WorkspaceID → String → Prop}

theorem serve_sound {e : RecordingEvent} (h : Sound dead s.db) (hok : s.serve d e = .ok s') : Sound dead s'.db := by
  cases e with
  | createRecording c id owner contentHash payload expiresAt =>
    obtain ⟨db', hcall, rfl⟩ := map_eq_ok.mp hok
    exact h.insertRecording rfl hcall
  | deleteRecording c id =>
    obtain ⟨db', hcall, rfl⟩ := map_eq_ok.mp hok
    rcases h.deleteRecording c id with ⟨db₁, hdelete, hsound⟩ | ⟨herror, -⟩
    · rw [hcall] at hdelete
      cases hdelete
      exact hsound.mono fun _ _ => .inl
    · rw [hcall] at herror
      cases herror
  | deleteExpiredRecordings c before batch tie =>
    obtain ⟨⟨db', count⟩, hcall, rfl⟩ := map_eq_ok.mp hok
    obtain ⟨db₁, deleted, hdelete, hsound⟩ := h.deleteExpiredRecordings c before batch tie
    rw [hcall] at hdelete
    cases hdelete
    exact hsound.mono fun _ _ => .inl
  | createRequirementJob earlier c n request newID =>
    obtain ⟨db', hcall, rfl⟩ := map_eq_ok.mp hok
    exact h.createRequirementJob hcall
  | claimPendingRequirementJob now lease tie reportID =>
    obtain ⟨⟨db', job⟩, hcall, rfl⟩ := map_eq_ok.mp hok
    exact h.claimPendingRequirementJob hcall
  | createLLMProviderCall earlier c call accepted joined newID =>
    obtain ⟨db', hcall, rfl⟩ := map_eq_ok.mp hok
    exact h.createLLMProviderCall hcall
  | updateRequirementJobProgress c id attemptNumber total completed =>
    obtain ⟨db', hcall, rfl⟩ := map_eq_ok.mp hok
    exact h.of_lineage (h.lineage.updateJob hcall)
  | completeRequirementJob c k o report =>
    simp only [serve, withCopy] at hok
    split at hok
    · cases hok
    · obtain ⟨db', hcall, rfl⟩ := map_eq_ok.mp hok
      exact h.completeRequirementJob hcall
  | completeRequirementJobWithDraft c k o n subject report =>
    simp only [serve, withCopy] at hok
    split at hok
    · cases hok
    · obtain ⟨db', hcall, rfl⟩ := map_eq_ok.mp hok
      exact h.completeRequirementJobWithDraft hcall
  | failRequirementJob c k terminal code message retryDelay report =>
    simp only [serve, withCopy] at hok
    split at hok
    · cases hok
    · obtain ⟨db', hcall, rfl⟩ := map_eq_ok.mp hok
      exact h.failRequirementJob hcall
  | retryRequirementJob c id =>
    obtain ⟨db', hcall, rfl⟩ := map_eq_ok.mp hok
    exact h.of_lineage (h.lineage.updateJob (ensure_bind_eq_ok.mp hcall).2)
  | createCollectionRequirement c n subject newID =>
    obtain ⟨db', hcall, rfl⟩ := map_eq_ok.mp hok
    exact h.createCollectionRequirement hcall
  | confirmCollectionRequirement c id actor =>
    obtain ⟨db', hcall, rfl⟩ := map_eq_ok.mp hok
    exact h.of_lineage (h.lineage.confirmRequirement hcall)
  | dsl e =>
    obtain ⟨db', hcall, rfl⟩ := map_eq_ok.mp hok
    exact h.of_lineage (h.lineage.serveDsl hcall)

theorem step_sound (e : RecordingEvent) (h : Sound dead s.db) : Sound dead (s.step d e).db := by
  unfold step
  split
  · exact h
  · rename_i s' hok
    exact serve_sound h hok

theorem run_sound (d : Digests) (es : List RecordingEvent) (h : Sound dead s.db) :
    Sound dead (run (step d) s es).db :=
  run_invariant (I := fun s : RecordingServer => Sound dead s.db) (fun _ e h => step_sound e h) h

end RecordingServer

/-- No row is derived from the recording. -/
structure RecordingDb.Underived (db : RecordingDb) (recordingID : String) : Prop where
  jobs : ∀ j ∈ db.jobs.rows, j.recordingID ≠ recordingID
  requirements : ∀ q ∈ db.requirements.rows, q.recordingID ≠ recordingID
  calls : ∀ c ∈ db.calls.rows, c.recordingID ≠ recordingID
  reports : ∀ r ∈ db.reports.rows, r.recordingID ≠ recordingID
  dslReports : ∀ r ∈ db.dsl.db.reports.rows, r.recordingID ≠ recordingID
  workflows : ∀ w ∈ db.dsl.db.workflows.rows, w.recordingID ≠ recordingID
  dslJobs : ∀ j ∈ db.dsl.db.jobs.rows,
    ∃ w ∈ db.dsl.db.workflows.rows, w.id = j.workflowID ∧ w.recordingID ≠ recordingID
  replays : ∀ a ∈ db.dsl.db.replays.rows,
    ∃ w ∈ db.dsl.db.workflows.rows, w.id = a.workflowID ∧ w.recordingID ≠ recordingID

variable {r : Recording}

theorem RecordingDb.Live.ne {db : RecordingDb} {workspace : WorkspaceID} {recordingID : String}
    (h : db.Live workspace recordingID) (hr : db.recordings.find? r.id = some r)
    (hdeleted : r.status = .deleted) : recordingID ≠ r.id := by
  rintro rfl
  obtain ⟨q, hq, -, hstatus⟩ := h
  rw [hr] at hq
  cases hq
  exact hstatus hdeleted

theorem RecordingDb.Sound.underived {db : RecordingDb} {dead : WorkspaceID → String → Prop}
    (h : Sound dead db)
    (hr : r ∈ db.recordings.rows) (hdeleted : r.status = .deleted) : db.Underived r.id := by
  have hrow := find?_key hr
  have hworkflow : ∀ w ∈ db.dsl.db.workflows.rows, w.recordingID ≠ r.id := fun w hw =>
    (h.lineage.live_of_hasRequirement _ _ _ (h.lineage.dsl.workflow w (find?_key hw))).ne hrow hdeleted
  refine ⟨fun j hj => (h.lineage.job j (find?_key hj)).ne hrow hdeleted,
    fun q hq => (h.lineage.requirement q (find?_key hq)).ne hrow hdeleted,
    fun c hc => (h.lineage.call c (find?_key hc)).ne hrow hdeleted,
    fun q hq => (h.lineage.report q (find?_key hq)).ne hrow hdeleted,
    fun q hq => (h.lineage.dsl.report q (find?_key hq)).ne hrow hdeleted, hworkflow, ?_, ?_⟩
  · intro j hj
    obtain ⟨w, hw, -⟩ := h.lineage.dsl.job j (find?_key hj)
    exact ⟨w, mem_of_find? hw, key_of_find? hw, hworkflow w (mem_of_find? hw)⟩
  · intro a ha
    obtain ⟨w, hw, -⟩ := h.lineage.dsl.replay a (find?_key ha)
    exact ⟨w, mem_of_find? hw, key_of_find? hw, hworkflow w (mem_of_find? hw)⟩

/-- The recording is deleted: its payload is gone, and so is all that was derived of it. -/
def RecordingDb.Deleted (db : RecordingDb) (workspace : WorkspaceID) (recordingID : String) : Prop :=
  ∃ r, db.recordings.find? recordingID = some r ∧ r.workspaceID = workspace ∧ r.status = .deleted ∧
    r.encryptedPayload = none ∧ db.Underived recordingID

theorem RecordingDb.Sound.deleted {db : RecordingDb} {dead : WorkspaceID → String → Prop}
    {workspace : WorkspaceID} {recordingID : String} (h : Sound dead db)
    (hdead : dead workspace recordingID) : db.Deleted workspace recordingID := by
  obtain ⟨r, hr, hws, hstatus⟩ := h.dead _ _ hdead
  obtain rfl := key_of_find? hr
  exact ⟨r, hr, hws, hstatus, h.erased r hr hstatus, h.underived (mem_of_find? hr) hstatus⟩

/-- As many expired recordings are taken as a batch may have, or all of them. -/
theorem RecordingDb.expiredRecordings_full (db : RecordingDb) (c : Ctx) (before : Time) (batch : Nat)
    (tie : String → Nat) : (db.expiredRecordings c before batch tie).length = batch ∨
      ∀ r ∈ db.recordings.rows, r.workspaceID = c.workspace → r.status ≠ .deleted →
        r.expiresAt ≤ before → r ∈ db.expiredRecordings c before batch tie := by
  rw [RecordingDb.expiredRecordings, length_take]
  rcases Nat.le_total batch (length _) with hle | hle
  · exact .inl (min_eq_left hle)
  · refine .inr fun r hr hws hstatus hexpired => ?_
    rw [take_of_length_le hle, mem_insertionSort, mem_filter]
    exact ⟨hr, by simp [hws, hstatus, hexpired]⟩

/-- After any calls in any order, a deletion goes through, or there is nothing to delete; what it
deletes is deleted from then on, whatever calls follow; and a deleted recording has no payload, and
no row that refers to it. -/
theorem deleted_leaves_nothing (d : Digests) (es : List RecordingEvent) :
    let s := run (RecordingServer.step d) .init es
    (∀ c id, (∃ db', s.db.deleteRecording c id = .ok db' ∧
        ∀ fs, (run (RecordingServer.step d) (s.withDb db') fs).db.Deleted c.workspace id) ∨
      (s.db.deleteRecording c id = .error .recordingNotFound ∧
        ∀ r ∈ s.db.recordings.rows, r.id = id → r.workspaceID ≠ c.workspace)) ∧
    (∀ c before (batch : Int) tie, ∃ db' deleted,
      let limit := if batch ≤ 0 then 1000 else batch.toNat
      let expired := s.db.expiredRecordings c before limit tie
      s.db.deleteExpiredRecordings c before batch tie = .ok (db', deleted) ∧
        (expired.length = limit ∨ ∀ r ∈ s.db.recordings.rows, r.workspaceID = c.workspace →
          r.status ≠ .deleted → r.expiresAt ≤ before → r ∈ expired) ∧
        ∀ r ∈ expired, ∀ fs,
          (run (RecordingServer.step d) (s.withDb db') fs).db.Deleted c.workspace r.id) ∧
    ∀ r ∈ s.db.recordings.rows, r.status = .deleted →
      r.encryptedPayload = none ∧ s.db.Underived r.id := by
  intro s
  have h : RecordingDb.Sound (fun _ _ => False) s.db := RecordingServer.run_sound d es .empty
  refine ⟨fun c id => ?_, fun c before batch tie => ?_, fun r hr hdeleted => ?_⟩
  · rcases h.deleteRecording c id with ⟨db', hok, hsound⟩ | herror
    · exact .inl ⟨db', hok, fun fs =>
        (RecordingServer.run_sound (s := s.withDb db') d fs hsound).deleted (.inr ⟨rfl, rfl⟩)⟩
    · exact .inr herror
  · obtain ⟨db', deleted, hok, hsound⟩ := h.deleteExpiredRecordings c before batch tie
    exact ⟨db', deleted, hok, s.db.expiredRecordings_full c before _ tie, fun r hr fs =>
      (RecordingServer.run_sound (s := s.withDb db') d fs hsound).deleted (.inr ⟨rfl, r, hr, rfl⟩)⟩
  · exact ⟨h.erased r (find?_key hr) hdeleted, h.underived hr hdeleted⟩

end Aegis.Requirements
