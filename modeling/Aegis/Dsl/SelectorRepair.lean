import Aegis.Dsl.Reapers

/-!
# Dsl.SelectorRepair

A selector repair is dispatched at most once.

A claim that takes over a selector repair keeps its attempt number, so a worker that holds it and
one that held it before pass the same checks. `Repairs` is what keeps them apart: the marker is set
once, and a marked job is neither claimed nor pending again. The jobs, the reports and the log are
all it speaks of.
-/

namespace Aegis

open List Option Table DslDb

/-- What the log promises of a later reply `b` after the reply `a`. -/
def DslReply.Precedes (a b : DslReply) : Prop :=
  ∀ id, a = .dispatched id → b ≠ .dispatched id ∧ ∀ job, b = .claimed job → job.id ≠ id

def DslReply.isInert : DslReply → Bool
  | .claimed _ | .dispatched _ => false
  | _ => true

structure RepairRow (reports : Table LLMAttemptReport.id) (j : DSLJob) : Prop where
  attempts : j.kind = .selectorRepair → j.maxAttempts = 1
  started : j.status = .running → 0 < j.attemptCount
  marked : j.providerDispatched = true → j.kind = .selectorRepair ∧ j.status ≠ .pending
  source : ∀ id, j.sourceAttemptReportID = some id →
    ∃ r, reports.find? id = some r ∧ r.workspaceID = j.workspaceID

variable {reports : Table LLMAttemptReport.id}

theorem RepairRow.of_same {j j' : DSLJob} (h : RepairRow reports j) (hid : j'.identity = j.identity)
    (hstarted : j'.status = .running → 0 < j'.attemptCount)
    (hmarked : j'.providerDispatched → j.providerDispatched = true ∧ j'.status ≠ .pending) :
    RepairRow reports j' := by
  simp only [DSLJob.identity, Prod.mk.injEq] at hid
  obtain ⟨-, hws, -, hkind, hmax, hsource, -⟩ := hid
  refine ⟨fun hk => ?_, hstarted, fun hs => ?_, fun id hs => ?_⟩
  · rw [hmax]
    exact h.attempts (hkind ▸ hk)
  · rw [hkind]
    exact ⟨(h.marked (hmarked hs).1).1, (hmarked hs).2⟩
  · rw [hws]
    exact h.source id (hsource ▸ hs)

variable {id workflowID : String} {workspace : WorkspaceID} {kind : DSLJobKind} {maxAttempts : Nat}
  {flags : List String} {now : Time}

theorem repairRow_newJob {source : Option String} (hkind : kind = .selectorRepair → maxAttempts = 1)
    (hsource : ∀ id, source = some id → ∃ r, reports.find? id = some r ∧ r.workspaceID = workspace) :
    RepairRow reports
      (newJob id workspace workflowID kind maxAttempts source flags now) where
  attempts := hkind
  started hs := by cases hs
  marked hs := by cases hs
  source := hsource

theorem repairRow_unsourced (hkind : kind ≠ .selectorRepair) :
    RepairRow reports (newJob id workspace workflowID kind maxAttempts none flags now) :=
  repairRow_newJob (fun hk => absurd hk hkind) nofun

theorem RepairRow.unmarked {j : DSLJob} (h : RepairRow reports j) (hclaim : claimable now j) :
    j.providerDispatched = false := by
  by_contra hmarked
  obtain ⟨hkind, hpending⟩ := h.marked (by simpa using hmarked)
  simp [claimable, hkind, hpending] at hclaim
  exact hmarked hclaim.2

/-- The invariant: the log shows what the rows of the jobs say, and no dispatch before a second
claim. -/
structure Repairs (jobs : Table DSLJob.id) (reports : Table LLMAttemptReport.id)
    (log : List DslReply) : Prop where
  rows : ∀ j, jobs.find? j.id = some j → RepairRow reports j
  held : ∀ job, .claimed job ∈ log → ∃ j, jobs.find? job.id = some j ∧ j.identity = job.identity
  marked : ∀ id, .dispatched id ∈ log ↔ ∃ j, jobs.find? id = some j ∧ j.providerDispatched = true
  once : log.Pairwise DslReply.Precedes
  single : ∀ i j, jobs.find? i.id = some i → jobs.find? j.id = some j →
    i.sourceAttemptReportID.isSome = true →
    i.sourceAttemptReportID = j.sourceAttemptReportID → i = j

namespace Repairs

variable {jobs t : Table DSLJob.id} {reports u : Table LLMAttemptReport.id} {l : List DslReply}
  {j j' : DSLJob} {r : DslReply}

theorem empty : Repairs .empty .empty [] where
  rows j hj := by cases hj
  held job hjob := by cases hjob
  marked id := by simp
  once := .nil
  single i j hi := by cases hi

theorem log (h : Repairs jobs reports l) (hr : r.isInert) : Repairs jobs reports (l ++ [r]) where
  rows := h.rows
  held job hjob := by
    rcases mem_append.mp hjob with hold | hnew
    · exact h.held job hold
    · rw [← mem_singleton.mp hnew] at hr
      cases hr
  marked id := by
    rw [mem_append, ← h.marked id]
    constructor
    · rintro (hold | hnew)
      · exact hold
      · rw [← mem_singleton.mp hnew] at hr
        cases hr
    · exact .inl
  once := by
    refine pairwise_append.mpr ⟨h.once, pairwise_singleton _ _, fun a _ b hb id _ => ?_⟩
    rw [mem_singleton] at hb
    subst hb
    constructor
    · rintro rfl
      cases hr
    · rintro job rfl
      cases hr
  single := h.single

theorem claimed (h : Repairs jobs reports l) {copy : DSLJob} (hj : jobs.find? j.id = some j)
    (hid : copy.identity = j.identity) (hfree : j.providerDispatched = false) :
    Repairs jobs reports (l ++ [.claimed copy]) where
  rows := h.rows
  held job hjob := by
    rcases mem_append.mp hjob with hold | hnew
    · exact h.held job hold
    · obtain rfl : job = copy := by simpa using hnew
      exact ⟨j, by rw [DSLJob.id_of_identity hid]; exact hj, hid.symm⟩
  marked id := by
    rw [← h.marked id]
    simp
  once := by
    refine pairwise_append.mpr ⟨h.once, pairwise_singleton _ _, fun a ha b hb id hid' => ?_⟩
    obtain rfl := mem_singleton.mp hb
    refine ⟨by simp, fun job hjob heq => ?_⟩
    obtain rfl : copy = job := by simpa using hjob
    -- a marked job of this name would be the one handed out
    obtain ⟨i, hi, hmarked⟩ := (h.marked id).mp (hid' ▸ ha)
    rw [← heq, DSLJob.id_of_identity hid, hj] at hi
    cases hi
    rw [hfree] at hmarked
    cases hmarked
  single := h.single

theorem write (h : Repairs jobs reports l) (hj : jobs.find? j.id = some j)
    (hwrote : Wrote jobs t j') (hid : j'.identity = j.identity)
    (hmarker : j'.providerDispatched = j.providerDispatched)
    (hrow : RepairRow reports j') : Repairs t reports l where
  rows i hi := by
    obtain ⟨-, rfl⟩ | ⟨-, hold⟩ := hwrote.cases hi
    · exact hrow
    · exact h.rows i hold
  held job hjob := by
    obtain ⟨i, hi, hident⟩ := h.held job hjob
    by_cases hk : j'.id = job.id
    · refine ⟨j', by rw [hwrote, if_pos hk], ?_⟩
      rw [← hk, DSLJob.id_of_identity hid, hj] at hi
      cases hi
      exact hid.trans hident
    · exact ⟨i, by rw [hwrote.of_ne hk]; exact hi, hident⟩
  marked id := by
    rw [h.marked id, hwrote]
    by_cases hk : j'.id = id
    · rw [if_pos hk, ← hk, DSLJob.id_of_identity hid, hj]
      simp [hmarker]
    · rw [if_neg hk]
  once := h.once
  single i k hi hk hsome heq := by
    have hcols := hid
    simp only [DSLJob.identity, Prod.mk.injEq] at hcols
    obtain ⟨hsameID, -, -, -, -, hsource, -⟩ := hcols
    obtain ⟨-, rfl⟩ | ⟨hi', hiold⟩ := hwrote.cases hi
    · obtain ⟨-, rfl⟩ | ⟨hk', hkold⟩ := hwrote.cases hk
      · rfl
      · rw [hsource] at hsome heq
        obtain rfl := h.single j k hj hkold hsome heq
        exact absurd hsameID hk'
    · obtain ⟨-, rfl⟩ | ⟨-, hkold⟩ := hwrote.cases hk
      · rw [hsource] at heq
        obtain rfl := h.single i j hiold hj hsome heq
        exact absurd hsameID hi'
      · exact h.single i k hiold hkold hsome heq

theorem mark (h : Repairs jobs reports l) (hj : jobs.find? j.id = some j)
    (hfirst : j.providerDispatched = false) (hwrote : Wrote jobs t j')
    (hid : j'.identity = j.identity) (hmarker : j'.providerDispatched)
    (hrow : RepairRow reports j') : Repairs t reports (l ++ [.dispatched j.id]) := by
  have hsame := DSLJob.id_of_identity hid
  have hnot : .dispatched j.id ∉ l := by
    intro hmem
    obtain ⟨i, hi, hmarked⟩ := (h.marked j.id).mp hmem
    obtain rfl := mem_unique hj hi
    rw [hfirst] at hmarked
    cases hmarked
  -- as if only the marker were left to set
  have hlift : ∀ i, t.find? i.id = some i → i = j' ∨ (i.id ≠ j.id ∧ jobs.find? i.id = some i) := by
    intro i hi
    obtain ⟨-, rfl⟩ | ⟨hne, hold⟩ := hwrote.cases hi
    · exact .inl rfl
    · exact .inr ⟨fun heq => hne (hsame.trans heq.symm), hold⟩
  have hcols := hid
  simp only [DSLJob.identity, Prod.mk.injEq] at hcols
  obtain ⟨-, -, -, -, -, hsource, -⟩ := hcols
  refine ⟨fun i hi => ?_, fun job hjob => ?_, fun id => ?_, ?_, fun i k hi hk hsome heq => ?_⟩
  · rcases hlift i hi with rfl | ⟨-, hold⟩
    · exact hrow
    · exact h.rows i hold
  · rcases mem_append.mp hjob with hold | hnew
    · obtain ⟨i, hi, hident⟩ := h.held job hold
      by_cases hk : j'.id = job.id
      · refine ⟨j', by rw [hwrote, if_pos hk], ?_⟩
        rw [← hk, hsame, hj] at hi
        cases hi
        exact hid.trans hident
      · exact ⟨i, by rw [hwrote.of_ne hk]; exact hi, hident⟩
    · simp at hnew
  · rw [mem_append, h.marked id, hwrote]
    by_cases hk : j'.id = id
    · rw [if_pos hk]
      simp [hmarker, ← hk, hsame]
    · rw [if_neg hk]
      have hne : id ≠ j.id := fun heq => hk (hsame.trans heq.symm)
      simp [hne]
  · refine pairwise_append.mpr ⟨h.once, pairwise_singleton _ _, fun a ha b hb id hid' => ?_⟩
    obtain rfl := mem_singleton.mp hb
    refine ⟨?_, by simp⟩
    intro heq
    obtain rfl : j.id = id := by simpa using heq
    exact hnot (hid' ▸ ha)
  · rcases hlift i hi with rfl | ⟨hi', hiold⟩
    · rcases hlift k hk with rfl | ⟨hk', hkold⟩
      · rfl
      · rw [hsource] at hsome heq
        obtain rfl := h.single j k hj hkold hsome heq
        exact absurd rfl hk'
    · rcases hlift k hk with rfl | ⟨-, hkold⟩
      · rw [hsource] at heq
        obtain rfl := h.single i j hiold hj hsome heq
        exact absurd rfl hi'
      · exact h.single i k hiold hkold hsome heq

theorem insert (h : Repairs jobs reports l) (hfresh : jobs.find? j.id = none)
    (hwrote : Wrote jobs t j) (hunmarked : j.providerDispatched = false)
    (hrow : RepairRow reports j)
    (hsingle : j.sourceAttemptReportID.isSome → ∀ i, jobs.find? i.id = some i →
      i.sourceAttemptReportID ≠ j.sourceAttemptReportID) : Repairs t reports l where
  rows i hi := by
    obtain ⟨-, rfl⟩ | ⟨-, hold⟩ := hwrote.cases hi
    · exact hrow
    · exact h.rows i hold
  held job hjob := by
    obtain ⟨i, hi, hident⟩ := h.held job hjob
    have hk : j.id ≠ job.id := by
      intro hk
      rw [← hk, hfresh] at hi
      cases hi
    exact ⟨i, by rw [hwrote.of_ne hk]; exact hi, hident⟩
  marked id := by
    rw [h.marked id, hwrote]
    by_cases hk : j.id = id
    · rw [if_pos hk, ← hk, hfresh]
      simp [hunmarked]
    · rw [if_neg hk]
  once := h.once
  single i k hi hk hsome heq := by
    obtain ⟨-, rfl⟩ | ⟨-, hiold⟩ := hwrote.cases hi
    · obtain ⟨-, rfl⟩ | ⟨-, hkold⟩ := hwrote.cases hk
      · rfl
      · exact absurd heq.symm (hsingle hsome k hkold)
    · obtain ⟨-, rfl⟩ | ⟨-, hkold⟩ := hwrote.cases hk
      · exact absurd heq (hsingle (heq ▸ hsome) i hiold)
      · exact h.single i k hiold hkold hsome heq

theorem report (h : Repairs jobs reports l) {q : LLMAttemptReport}
    (hfresh : reports.find? q.id = none) (hwrote : Wrote reports u q) : Repairs jobs u l where
  rows j hj := by
    have hrow := h.rows j hj
    refine ⟨hrow.attempts, hrow.started, hrow.marked, fun id hid => ?_⟩
    obtain ⟨r, hr, hws⟩ := hrow.source id hid
    refine ⟨r, ?_, hws⟩
    rw [hwrote.of_ne, hr]
    rintro rfl
    rw [hfresh] at hr
    cases hr
  held := h.held
  marked := h.marked
  once := h.once
  single := h.single

section Moves

variable {d : Digests} {s s' : DslServer}

theorem holds_eq (h : Repairs jobs reports s.log) {job : DSLJob} (hheld : s.Holds job)
    (hj : jobs.find? job.id = some j) :
    j.identity = job.identity := by
  obtain ⟨leased, hmem, hid, -⟩ := hheld
  obtain ⟨i, hi, hident⟩ := h.held leased hmem
  rw [← DSLJob.id_of_identity hid, hj] at hi
  cases hi
  exact hident.trans hid.symm

theorem move (h : Repairs s.db.jobs s.db.reports s.log) (hm : DslMove d s s') :
    Repairs s'.db.jobs s'.db.reports s'.log := by
  cases hm with
  | created hw hj hprofile hworkflows hjobs =>
    exact h.insert hj hjobs rfl (repairRow_unsourced (by simp)) (fun h => by cases h)
  | adopted hw hprofile hunique hworkflows => exact h.log rfl
  | leased hj hclaim hreuse hid hattempt hjobs =>
    rename_i now leaseUntil copy j jobs
    have hrow := h.rows j hj
    have hfree := hrow.unmarked hclaim
    refine Repairs.claimed (h.write hj hjobs rfl rfl ?_) hjobs.self ?_ hfree
    · exact hrow.of_same rfl (fun _ => Nat.succ_pos _) (fun hs => ⟨hs, by simp [leaseJob]⟩)
    · exact hid
  | renewed hj hreuse hid hattempt hjobs =>
    rename_i now leaseUntil copy j jobs
    have hrow := h.rows j hj
    simp only [reusesAttempt, Bool.and_eq_true, beq_iff_eq, Bool.not_eq_true'] at hreuse
    refine Repairs.claimed (h.write hj hjobs rfl rfl ?_) hjobs.self hid hreuse.2
    exact hrow.of_same rfl hrow.started (fun hs => ⟨hs, (hrow.marked hs).2⟩)
  | marked hheld hj hdescribes hkind hfirst hjobs =>
    rename_i now job j jobs
    have hfind := find?_self hj
    have hrow := h.rows j hfind
    obtain ⟨-, -, hrunning, -⟩ := DSLJob.describes_iff.mp hdescribes
    rw [← key_of_find? hj]
    refine h.mark hfind hfirst hjobs rfl rfl ⟨hrow.attempts, hrow.started, fun _ => ⟨hkind, ?_⟩,
      hrow.source⟩
    simp [markDispatched, hrunning]
  | retried hheld hj hdescribes hretries hjobs =>
    rename_i now availableAt flags code message job j jobs
    have hfind := find?_self hj
    have hrow := h.rows j hfind
    have hident := h.holds_eq hheld hj
    obtain ⟨-, -, hrunning, hattempt⟩ := DSLJob.describes_iff.mp hdescribes
    have hmax : j.maxAttempts = job.maxAttempts := congrArg (fun i => i.2.2.2.2.1) hident
    refine h.write hfind hjobs rfl rfl (hrow.of_same rfl (fun h => by cases h) fun hs => ?_)
    -- a marked job has had its only attempt
    have hone := hrow.attempts (hrow.marked hs).1
    have hpos := hrow.started hrunning
    omega
  | jobFailed hj hrunning hjobs hid hfailed hattempt hdispatched hw hws hworks hworkflows =>
    have hrow := h.rows _ hj
    exact h.write hj hjobs hid hdispatched (hrow.of_same hid (fun hs => by rw [hfailed] at hs; cases hs)
      (fun hs => ⟨hdispatched ▸ hs, by rw [hfailed]; simp⟩))
  | completed hheld hj hdescribes hw hws hcurrent hstatus hjobs hworkflows =>
    have hfind := find?_self hj
    have hrow := h.rows _ hfind
    exact (h.write hfind hjobs rfl rfl (hrow.of_same rfl (fun h => by cases h)
      (fun hs => ⟨hs, by simp [endJob]⟩))).log rfl
  | reported hfresh hreports => exact h.report hfresh hreports
  | handedOver hheld hkind hj hdescribes hw hws hworks hfresh hreport hunique hended hjobs
      hworkflows =>
    rename_i now code message reportID childID job j w ended jobs workflows
    have hfind := find?_self hj
    have hrow := h.rows j hfind
    obtain ⟨hws', -, -, -⟩ := DSLJob.describes_iff.mp hdescribes
    have hended' := h.write hfind hended rfl rfl
      (hrow.of_same rfl (fun h => by cases h) (fun hs => ⟨hs, by simp [endJob]⟩))
    have hkey := key_of_find? hj
    have hfresh' : ended.find? childID = none := by
      rw [hended.of_ne, hfresh]
      rintro rfl
      rw [show ((endJob now DSLJobStatus.failed job.safetyFlags (some code) (some message)).set
        j).id = job.id from hkey, hj] at hfresh
      cases hfresh
    refine hended'.insert hfresh' hjobs rfl (repairRow_newJob (fun _ => rfl) fun id hid => ?_) ?_
    · obtain rfl : reportID = id := by simpa using hid
      exact hreport
    · intro _ i hi heq
      -- a job with this source is of the report's workspace, and there is none of that
      obtain ⟨r, hr, hrws⟩ := hreport
      obtain ⟨r', hr', hrws'⟩ := (hended'.rows i hi).source reportID heq
      obtain rfl := mem_unique hr hr'
      have hiws : i.workspaceID = job.workspaceID := hrws'.symm.trans hrws
      obtain ⟨-, rfl⟩ | ⟨-, hold⟩ := hended.cases hi
      · exact hunique j hfind hiws heq
      · exact hunique i hold hiws heq
  | corrected hw hstatus hunique hworkflows => exact h.log rfl
  | replayStarted hw hstatus hfresh hk hws hsequence hrunning hhash hworkflows hreplays =>
    exact h.log rfl
  | replayEnded ha hrunning hw hws hstatus hto hlog hreplays hworkflows =>
    rcases hlog with rfl | ⟨rfl, -⟩
    · exact h.log rfl
    · rw [append_nil]
      exact h
  | replayRepaired ha hrunning hw hws hstatus hproven hleft hfresh hjobs hreplays hworkflows =>
    exact (h.insert hfresh hjobs rfl (repairRow_unsourced (by simp)) (fun h => by cases h)).log rfl
  | approved hcall hw hws hstatus =>
    obtain ⟨rule, inputSchema, outputSchema, v₁, db₁, db₂, workflows, approvals, auditLogs, hrule,
      h₁, h₂, -, hworkflows, -, -, rfl⟩ := approveDSLWorkflow_eq_ok hcall
        (find?_self hw ▸ hw) hstatus
    have hsame := (createRuleVersion_same h₁).trans (approveIfPending_same h₂)
    rw [← hsame.jobs, ← hsame.reports] at h
    exact h.log rfl
  | reapproved hw hws hstatus hcall => exact h.log rfl
  | sealed he hcall =>
    have hsame := DslServer.versionCall_same he hcall
    rw [hsame.jobs, hsame.reports]
    exact h

theorem moves (h : Repairs s.db.jobs s.db.reports s.log) (hm : DslMoves d s s') :
    Repairs s'.db.jobs s'.db.reports s'.log := by
  induction hm with
  | refl => exact h
  | tail _ hm ih => exact ih.move hm

theorem step (h : Repairs s.db.jobs s.db.reports s.log) (d : Digests) (e : DslEvent) :
    Repairs (s.step d e).db.jobs (s.step d e).db.reports (s.step d e).log :=
  h.moves (DslServer.step_moves e)

end Moves

end Repairs

section Endings

variable {d : Digests} {s s' : DslServer} {j : DSLJob}

theorem DslMove.ended (hm : DslMove d s s') (hj : s.db.jobs.find? j.id = some j)
    (hend : j.status.isLive = false) : s'.db.jobs.find? j.id = some j := by
  have hother : ∀ {i i' : DSLJob} {jobs : Table DSLJob.id}, s.db.jobs.find? i.id = some i →
      i.status.isLive → Wrote s.db.jobs jobs i' → i'.id = i.id →
      jobs.find? j.id = some j := by
    intro i i' jobs hi hlive hwrote hid
    rw [hwrote.of_ne, hj]
    intro heq
    rw [← heq, hid, hi] at hj
    cases hj
    rw [hend] at hlive
    cases hlive
  have hfresh : ∀ {t u : Table DSLJob.id} {i : DSLJob}, t.find? j.id = some j →
      s.db.jobs.find? i.id = none → Wrote t u i → u.find? j.id = some j := by
    intro t u i hold hnone hwrote
    rw [hwrote.of_ne, hold]
    intro heq
    rw [heq, hj] at hnone
    cases hnone
  have hrunning : ∀ {i : DSLJob}, i.status = .running → i.status.isLive = true := by
    intro i hs
    rw [hs]
    rfl
  cases hm with
  | created hw hnone hprofile hworkflows hjobs => exact hfresh hj hnone hjobs
  | leased hi hclaim hreuse hid hattempt hjobs =>
    exact hother hi (Consistent.claimable_live hclaim hreuse).1 hjobs rfl
  | renewed hi hreuse hid hattempt hjobs =>
    simp only [reusesAttempt, Bool.and_eq_true, beq_iff_eq] at hreuse
    exact hother hi (hrunning hreuse.1.1) hjobs rfl
  | marked hheld hi hdescribes hkind hfirst hjobs =>
    exact hother (find?_self hi) (hrunning (DSLJob.describes_iff.mp hdescribes).2.2.1) hjobs rfl
  | retried hheld hi hdescribes hretries hjobs =>
    exact hother (find?_self hi) (hrunning (DSLJob.describes_iff.mp hdescribes).2.2.1) hjobs rfl
  | jobFailed hi hs hjobs hid hfailed hattempt hdispatched hw hws hworks hworkflows =>
    exact hother hi (hrunning hs) hjobs (DSLJob.id_of_identity hid)
  | completed hheld hi hdescribes hw hws hcurrent hstatus hjobs hworkflows =>
    exact hother (find?_self hi) (hrunning (DSLJob.describes_iff.mp hdescribes).2.2.1) hjobs rfl
  | handedOver hheld hkind hi hdescribes hw hws hworks hnone hreport hunique hended hjobs
      hworkflows =>
    exact hfresh (hother (find?_self hi)
      (hrunning (DSLJob.describes_iff.mp hdescribes).2.2.1) hended rfl) hnone hjobs
  | replayRepaired ha hs hw hws hstatus hproven hleft hnone hjobs hreplays hworkflows =>
    exact hfresh hj hnone hjobs
  | approved hcall hw hws hstatus =>
    obtain ⟨rule, inputSchema, outputSchema, v₁, db₁, db₂, workflows, approvals, auditLogs, hrule,
      h₁, h₂, -, hworkflows, -, -, rfl⟩ := approveDSLWorkflow_eq_ok hcall
        (find?_self hw ▸ hw) hstatus
    have hsame := (createRuleVersion_same h₁).trans (approveIfPending_same h₂)
    rw [← hsame.jobs] at hj
    exact hj
  | sealed he hcall =>
    rw [(DslServer.versionCall_same he hcall).jobs]
    exact hj
  | _ => exact hj

theorem DslMoves.ended (hm : DslMoves d s s') (hj : s.db.jobs.find? j.id = some j)
    (hend : j.status.isLive = false) : s'.db.jobs.find? j.id = some j := by
  induction hm with
  | refl => exact hj
  | tail _ hm ih => exact hm.ended ih hend

namespace DslDb

variable {db db' : DslDb} {e : DSLError} {id : String} {i : DSLJob} {now : Time}
  {tie : String → Nat}

variable {p : DSLJob → Bool}

theorem updateJob_other {f : JobUpdate} (h : db.updateJob id p f e = .ok db')
    (hne : j.id ≠ id) : db'.jobs.find? j.id = db.jobs.find? j.id := by
  obtain ⟨i, jobs, -, rfl, -, -, -, hjobs, rfl⟩ := updateJob_eq_ok h
  exact hjobs.of_ne fun heq => hne (heq.symm.trans (congrArg Prod.fst (f.keeps i)))

theorem updateWorkflow_jobs {p : DSLWorkflow → Bool} {f : WorkflowUpdate}
    (h : db.updateWorkflow id p f e = .ok db') : db'.jobs = db.jobs := by
  obtain ⟨w, workflows, -, -, -, -, -, -, -, rfl⟩ := updateWorkflow_eq_ok h
  rfl

theorem failExpiredDispatchedSelectorRepair_other
    (h : db.failExpiredDispatchedSelectorRepair now i = .ok db') (hne : j.id ≠ i.id) :
    db'.jobs.find? j.id = db.jobs.find? j.id := by
  obtain ⟨db₁, h₁, h₂⟩ := bind_eq_ok.mp h
  rw [updateWorkflow_jobs h₂, updateJob_other h₁ hne]

theorem failExpiredExhaustedDSLJob_other (h : db.failExpiredExhaustedDSLJob now i = .ok db')
    (hne : j.id ≠ i.id) : db'.jobs.find? j.id = db.jobs.find? j.id := by
  obtain ⟨db₁, h₁, h₂⟩ := bind_eq_ok.mp h
  rw [updateWorkflow_jobs h₂, updateJob_other h₁ hne]

theorem failExpiredReplayAttempt_jobs {a : ReplayAttempt}
    (h : db.failExpiredReplayAttempt now a = .ok db') : db'.jobs = db.jobs := by
  obtain ⟨⟨db₁, job, attempt⟩, h₁, rfl⟩ := map_eq_ok.mp h
  unfold completeDSLReplayInTx at h₁
  split at h₁
  · cases h₁
  obtain ⟨-, h₁⟩ := ensure_bind_eq_ok.mp h₁
  split at h₁
  · cases h₁
  simp only [replayRepair_none, insertRepair, bind_eq_ok] at h₁
  obtain ⟨db₂, h₂, db₃, h₃, db₄, h₄, h₅⟩ := h₁
  cases pure_eq_ok.mp h₅
  obtain ⟨b, replays, -, -, -, -, -, rfl⟩ := updateReplay_eq_ok h₃
  rw [updateWorkflow_jobs h₄, Except.ok.inj h₂]

theorem failExpiredDispatchedSelectorRepair_failed
    (h : db.failExpiredDispatchedSelectorRepair now j = .ok db') :
    ∃ j', db'.jobs.find? j.id = some j' ∧ j'.status = .failed := by
  obtain ⟨db₁, h₁, h₂⟩ := bind_eq_ok.mp h
  obtain ⟨i, jobs, hi, hid, -, -, -, hjobs, rfl⟩ := updateJob_eq_ok h₁
  have hsame : db'.jobs = jobs := updateWorkflow_jobs h₂
  rw [hsame, ← hid]
  exact ⟨_, hjobs.self, rfl⟩

theorem failExpiredDispatchedSelectorRepairs_failed {l : List DSLJob} (hmem : j ∈ l)
    (h : l.foldlM (failExpiredDispatchedSelectorRepair now) db = .ok db') :
    ∃ j', db'.jobs.find? j.id = some j' ∧ j'.status = .failed := by
  induction l generalizing db with
  | nil => cases hmem
  | cons i l ih =>
    rw [foldlM_cons] at h
    obtain ⟨db₁, hturn, hrest⟩ := bind_eq_ok.mp h
    rcases mem_cons.mp hmem with rfl | hmem
    · obtain ⟨j', hj', hfailed⟩ := failExpiredDispatchedSelectorRepair_failed hturn
      have hend : j'.status.isLive = false := by rw [hfailed]; rfl
      have hrun := foldlM_moves (d := ⟨fun _ => "", fun _ => ""⟩) (l := [])
        (fun _ _ _ => failExpiredDispatchedSelectorRepair_moves) hrest
      have hkept := hrun.ended (find?_self hj') hend
      rw [key_of_find? hj'] at hkept
      exact ⟨j', hkept, hfailed⟩
    · exact ih hmem hrest

variable {job : Option DSLJob}

variable {lease : Duration}

theorem claimPendingDSLJob_reaped (h : db.claimPendingDSLJob now lease tie = .ok (db', job)) (d : Digests) :
    ∃ db₁, db.failExpiredDispatchedSelectorRepairs now tie = .ok db₁ ∧
      DslMoves d ⟨db₁, []⟩ ⟨db', job.toList.map .claimed⟩ := by
  rw [claimPendingDSLJob_eq] at h
  obtain ⟨db₃, hreap, h⟩ := bind_eq_ok.mp h
  simp only [reap, bind_eq_ok] at hreap
  obtain ⟨db₁, h₁, db₂, h₂, h₃⟩ := hreap
  have m₂ := foldlM_moves (d := d) (l := []) (fun _ _ _ => failExpiredExhaustedDSLJob_moves) h₂
  have m₃ := foldlM_moves (d := d) (l := []) (fun _ _ _ => failExpiredReplayAttempt_moves) h₃
  refine ⟨db₁, h₁, (m₂.trans m₃).trans ?_⟩
  split at h
  · simp only [pure_eq_ok, Prod.mk.injEq] at h
    obtain ⟨rfl, rfl⟩ := h
    exact .refl
  · rename_i selected hargmin
    obtain ⟨hmem, hclaim⟩ := mem_filter.mp (argmin_mem hargmin)
    simp only [bind_eq_ok, pure_eq_ok, Prod.mk.injEq] at h
    obtain ⟨⟨db₂, copy⟩, hlease, rfl, rfl⟩ := h
    exact .single (leaseSelected_moves hmem hclaim hlease)

theorem claimPendingDSLJob_failed
    (h : db.claimPendingDSLJob now lease tie = .ok (db', job)) (hmem : j ∈ db.jobs.rows)
    (hexpired : dispatchAmbiguous now j) :
    ∃ j', db'.jobs.find? j.id = some j' ∧ j'.status = .failed := by
  obtain ⟨db₁, h₁, hmoves⟩ := claimPendingDSLJob_reaped h ⟨fun _ => "", fun _ => ""⟩
  have hselected := (@mem_inScanOrder _ tie DSLJob.id _ j).mpr
    (mem_filter.mpr ⟨hmem, hexpired⟩)
  obtain ⟨j', hj', hfailed⟩ := failExpiredDispatchedSelectorRepairs_failed hselected h₁
  have hend : j'.status.isLive = false := by rw [hfailed]; rfl
  have hkept := hmoves.ended (find?_self hj') hend
  rw [key_of_find? hj'] at hkept
  exact ⟨j', hkept, hfailed⟩

theorem foldlM_other {α : Type} {f : DslDb → α → Except DSLError DslDb} {l : List α}
    (hf : ∀ a ∈ l, ∀ db db', f db a = .ok db' → db'.jobs.find? id = db.jobs.find? id)
    (h : l.foldlM f db = .ok db') : db'.jobs.find? id = db.jobs.find? id := by
  induction l generalizing db with
  | nil => rw [pure_eq_ok.mp h]
  | cons a l ih =>
    rw [foldlM_cons] at h
    obtain ⟨db₁, hturn, hrest⟩ := bind_eq_ok.mp h
    rw [ih (fun b hb => hf b (mem_cons_of_mem a hb)) hrest,
      hf a mem_cons_self db db₁ hturn]

theorem ne_of_selected (hj : db.jobs.find? j.id = some j) (hp : p j = false)
    (hi : i ∈ inScanOrder tie DSLJob.id (db.jobs.rows.filter p)) : j.id ≠ i.id := by
  intro heq
  obtain ⟨hmem, hpi⟩ := mem_filter.mp (mem_inScanOrder.mp hi)
  obtain rfl := eq_of_key (mem_of_find? hj) hmem heq
  rw [hp] at hpi
  cases hpi

theorem claimPendingDSLJob_kept (h : db.claimPendingDSLJob now lease tie = .ok (db', job))
    (hj : db.jobs.find? j.id = some j) (hkind : j.kind = .selectorRepair)
    (hmarked : j.providerDispatched) (hrunning : j.status = .running)
    (hlease : j.leaseExpired now = false) : db'.jobs.find? j.id = some j := by
  rw [claimPendingDSLJob_eq] at h
  obtain ⟨db₃, hreap, h⟩ := bind_eq_ok.mp h
  simp only [reap, bind_eq_ok] at hreap
  obtain ⟨db₁, h₁, db₂, h₂, h₃⟩ := hreap
  have hj₁ : db₁.jobs.find? j.id = some j := by
    rw [foldlM_other (fun i hi _ _ hturn => failExpiredDispatchedSelectorRepair_other hturn
      (ne_of_selected hj (by simp [dispatchAmbiguous, hlease]) hi)) h₁, hj]
  have hj₂ : db₂.jobs.find? j.id = some j := by
    rw [foldlM_other (fun i hi _ _ hturn => failExpiredExhaustedDSLJob_other hturn
      (ne_of_selected hj₁ (by simp [exhausted, hlease]) hi)) h₂, hj₁]
  have hj₃ : db₃.jobs.find? j.id = some j := by
    rw [foldlM_other (fun a _ _ _ hturn => by rw [failExpiredReplayAttempt_jobs hturn]) h₃, hj₂]
  split at h
  · simp only [pure_eq_ok, Prod.mk.injEq] at h
    rw [← h.1]
    exact hj₃
  · rename_i selected hargmin
    obtain ⟨hmem, hclaim⟩ := mem_filter.mp (argmin_mem hargmin)
    simp only [bind_eq_ok, pure_eq_ok, Prod.mk.injEq] at h
    obtain ⟨⟨db₄, copy⟩, hlease', rfl, rfl⟩ := h
    have hne : j.id ≠ selected.id := by
      intro heq
      obtain rfl := eq_of_key (mem_of_find? hj₃) hmem heq
      simp [claimable, hrunning, hkind, hmarked] at hclaim
    rw [← hj₃]
    unfold leaseSelected at hlease'
    split at hlease'
    all_goals
      simp only [bind_eq_ok, pure_eq_ok, Prod.mk.injEq] at hlease'
      obtain ⟨db₅, h₅, rfl, -⟩ := hlease'
      exact updateJob_other h₅ hne

theorem markDSLSelectorRepairDispatched_kept
    (h : db.markDSLSelectorRepairDispatched now i = .ok db') (hj : db.jobs.find? j.id = some j)
    (hmarked : j.providerDispatched) : db'.jobs.find? j.id = some j := by
  obtain ⟨-, h⟩ := ensure_bind_eq_ok.mp h
  by_cases hid : j.id = i.id
  · obtain ⟨i', jobs, hi, hk, hp, -⟩ := updateJob_eq_ok h
    obtain rfl := eq_of_find? hj hi (hk.trans hid.symm)
    simp [hmarked] at hp
  · rw [updateJob_other h hid, hj]

end DslDb

end Endings

def DslEvent.isClaimOrMark : DslEvent → Bool
  | .claimPendingDSLJob .. | .markDSLSelectorRepairDispatched .. => true
  | _ => false

/-- The event is a claim, at a time when the lease of `j` has run out. -/
def DslEvent.claimsPast (j : DSLJob) : DslEvent → Bool
  | .claimPendingDSLJob now _ _ => j.leaseExpired now
  | _ => false

/-- At most one dispatch for each repair, none before a later claim, none of a pending one. -/
structure DispatchedOnce (d : Digests) (s : DslServer) : Prop where
  once : ∀ id, s.log.count (.dispatched id) ≤ 1
  kept : ∀ (m n : Nat) (id : String) (job : DSLJob), m < n →
    s.log[m]? = some (.dispatched id) → s.log[n]? = some (.claimed job) → job.id ≠ id
  notPending : ∀ j ∈ s.db.jobs.rows, .dispatched j.id ∈ s.log →
    j.kind = .selectorRepair ∧ j.status ≠ .pending
  /-- Claims and marks leave a marked job running until a claim finds its lease expired, and it has
  failed from then on. -/
  failed : ∀ es : List DslEvent, (∀ e ∈ es, e.isClaimOrMark = true) →
    ∀ j ∈ s.db.jobs.rows, .dispatched j.id ∈ s.log → j.status = .running →
      ∃ j' ∈ (run (DslServer.step d) s es).db.jobs.rows, j'.id = j.id ∧
        if es.any (·.claimsPast j) then j'.status = .failed else j' = j
  /-- A job that has ended, by any call, is left as it is by every call. -/
  ended : ∀ e : DslEvent, ∀ j ∈ s.db.jobs.rows, j.status.isLive = false → j ∈ (s.step d e).db.jobs.rows
  single : ∀ i ∈ s.db.jobs.rows, ∀ j ∈ s.db.jobs.rows, ∀ reportID,
    i.sourceAttemptReportID = some reportID → j.sourceAttemptReportID = some reportID → i = j

namespace DslServer

variable {d : Digests} {s : DslServer} {j : DSLJob} {e : DslEvent}

theorem step_ended (hj : s.db.jobs.find? j.id = some j) (hend : j.status.isLive = false) :
    (s.step d e).db.jobs.find? j.id = some j :=
  (step_moves e).ended hj hend

theorem run_ended (es : List DslEvent) (hj : s.db.jobs.find? j.id = some j)
    (hend : j.status.isLive = false) :
    (run (step d) s es).db.jobs.find? j.id = some j :=
  run_invariant (I := fun s : DslServer => s.db.jobs.find? j.id = some j)
    (fun _ _ h => step_ended h hend) hj

theorem step_marked (hc : s.db.Consistent) (hj : s.db.jobs.find? j.id = some j)
    (hkind : j.kind = .selectorRepair) (hmarked : j.providerDispatched)
    (hrunning : j.status = .running) (he : e.isClaimOrMark) :
    ∃ j', (s.step d e).db.jobs.find? j.id = some j' ∧
      if e.claimsPast j then j'.status = .failed else j' = j := by
  cases e with
  | claimPendingDSLJob now lease tie =>
    obtain ⟨r, hr⟩ := hc.claimPendingDSLJob_ok now lease tie
    have hstep : s.step d (.claimPendingDSLJob now lease tie) =
        ⟨r.1, s.log ++ r.2.toList.map .claimed⟩ := by
      simp [step, serve, hr]
    rw [hstep]
    cases hlease : j.leaseExpired now with
    | true =>
      simp only [DslEvent.claimsPast, hlease, if_true]
      exact claimPendingDSLJob_failed hr (mem_of_find? hj)
        (by simp [dispatchAmbiguous, hkind, hrunning, hmarked, hlease])
    | false =>
      simp only [DslEvent.claimsPast, hlease, Bool.false_eq_true, if_false]
      exact ⟨j, claimPendingDSLJob_kept hr hj hkind hmarked hrunning hlease, rfl⟩
  | markDSLSelectorRepairDispatched now k =>
    refine ⟨j, ?_, rfl⟩
    unfold step
    split
    · exact hj
    · rename_i db' replies h
      simp only [serve] at h
      split at h
      · cases h
      obtain ⟨db₁, hok, ⟨⟩⟩ := map_eq_ok.mp h
      exact markDSLSelectorRepairDispatched_kept hok hj hmarked
  | _ => cases he

theorem run_marked {es : List DslEvent} (hc : s.db.Consistent)
    (hj : s.db.jobs.find? j.id = some j) (hkind : j.kind = .selectorRepair)
    (hmarked : j.providerDispatched) (hrunning : j.status = .running)
    (hes : ∀ e ∈ es, e.isClaimOrMark) :
    ∃ j', (run (step d) s es).db.jobs.find? j.id = some j' ∧
      if es.any (·.claimsPast j) then j'.status = .failed else j' = j := by
  induction es generalizing s with
  | nil => exact ⟨j, hj, rfl⟩
  | cons e es ih =>
    obtain ⟨he, hes⟩ := forall_mem_cons.mp hes
    obtain ⟨j', hj', hwhich⟩ := step_marked (d := d) hc hj hkind hmarked hrunning he
    rw [run_cons, any_cons]
    cases hpast : e.claimsPast j with
    | true =>
      simp only [hpast, if_true] at hwhich
      have hend : j'.status.isLive = false := by rw [hwhich]; rfl
      have hkept := run_ended (d := d) es (find?_self hj') hend
      rw [key_of_find? hj'] at hkept
      exact ⟨j', hkept, by simpa using hwhich⟩
    | false =>
      simp only [hpast, Bool.false_eq_true, if_false] at hwhich
      subst hwhich
      rw [Bool.false_or]
      exact ih (hc.step d e) hj' hes

end DslServer

/-- The log of the repairs shows each repair dispatched at most once. -/
theorem Repairs.dispatchedOnce {d : Digests} {s : DslServer} (hc : s.db.Consistent)
    (h : Repairs s.db.jobs s.db.reports s.log) : DispatchedOnce d s where
  once id := by
    by_contra htwice
    have hsub : (List.replicate 2 (DslReply.dispatched id)).Sublist s.log :=
      replicate_sublist_iff.mpr (by omega)
    have hpair := pairwise_cons.mp (h.once.sublist hsub)
    exact (hpair.1 (.dispatched id) (mem_singleton_self _) id rfl).1 rfl
  kept m n id job hmn hm hn := by
    obtain ⟨hmlt, hm⟩ := List.getElem?_eq_some_iff.mp hm
    obtain ⟨hnlt, hn⟩ := List.getElem?_eq_some_iff.mp hn
    have hprecedes := pairwise_iff_getElem.mp h.once m n hmlt hnlt hmn
    exact (hprecedes id hm).2 job hn
  notPending j hmem hlog := by
    obtain ⟨i, hi, hmarked⟩ := (h.marked j.id).mp hlog
    obtain rfl := mem_unique hi (find?_key hmem)
    exact (h.rows i (find?_key hmem)).marked hmarked
  failed es hes j hmem hlog hrunning := by
    have hj := find?_key hmem
    obtain ⟨i, hi, hmarked⟩ := (h.marked j.id).mp hlog
    obtain rfl := mem_unique hi hj
    have hkind := ((h.rows i hj).marked hmarked).1
    obtain ⟨j', hj', hwhich⟩ := DslServer.run_marked (d := d) hc hj hkind hmarked hrunning hes
    exact ⟨j', mem_of_find? hj', key_of_find? hj', hwhich⟩
  ended e j hmem hend := mem_of_find? (DslServer.step_ended (find?_key hmem) hend)
  single i hi j hj reportID hsi hsj :=
    h.single i j (find?_key hi) (find?_key hj) (by simp [hsi]) (hsi.trans hsj.symm)

/-- In every run each selector repair is dispatched at most once. -/
theorem DslServer.dispatched_once (d : Digests) (es : List DslEvent) :
    Always (DslServer.step d) (DispatchedOnce d) .init es := by
  have hrun : Always (DslServer.step d)
      (fun s => s.db.Consistent ∧ Repairs s.db.jobs s.db.reports s.log) .init es :=
    (meets_of_forall (A := fun _ => True) fun _ _ => trivial).always
      ⟨DslDb.Consistent.empty, .empty⟩ fun s e h _ => ⟨h.1.step d e, h.2.step d e⟩
  exact hrun.mono fun s h => h.2.dispatchedOnce h.1

end Aegis
