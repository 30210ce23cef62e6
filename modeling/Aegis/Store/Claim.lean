import Aegis.Store.Ops

/-!
# Store.Claim

What a claim delivers.

`claimTask` takes the head of the queue and looks at its rule version only then. A head that its
version holds back fails the claim, whatever waits behind it; so a claim delivers exactly when a
deliverable task stands before every task that is held back.
-/

namespace Aegis

open List Option Table

section Queue

variable {α β : Type} [LinearOrder β] {f : α → β} {l : List α} {p : α → Bool}

theorem argmin_of_lt {d : α} (hd : d ∈ l) : ∃ m, l.argmin f = some m := by
  cases h : l.argmin f with
  | none =>
    rw [argmin_eq_none.mp h] at hd
    cases hd
  | some m => exact ⟨m, rfl⟩

/-- The least element has `p` exactly when some element with `p` is less than all without. -/
theorem head_iff (hinj : ∀ a ∈ l, ∀ b ∈ l, f a = f b → a = b) : (∃ m, l.argmin f = some m ∧ p m = true) ↔
      ∃ d ∈ l, p d ∧ ∀ u ∈ l, p u = false → f d < f u := by
  constructor
  · rintro ⟨m, hm, hp⟩
    have hmem : m ∈ l := argmin_mem hm
    refine ⟨m, hmem, hp, fun u hu hup => ?_⟩
    refine lt_of_le_of_ne (le_of_mem_argmin hu hm) fun heq => ?_
    rw [hinj m hmem u hu heq, hup] at hp
    cases hp
  · rintro ⟨d, hd, -, hbefore⟩
    obtain ⟨m, hm⟩ := argmin_of_lt (f := f) hd
    refine ⟨m, hm, ?_⟩
    by_contra hp
    have hlt := hbefore m (argmin_mem hm) (by simpa using hp)
    exact absurd (le_of_mem_argmin hd hm) (not_le_of_gt hlt)

end Queue

namespace Store

variable {s s' : Store} {c : Ctx} {r : ClaimRequest} {maxWorkerTasks : Int} {t row : Task}

def versionDelivers (s : Store) (c : Ctx) (t : Task) : Bool :=
  !s.ruleVersionExists c t.ruleID || (0 < t.ruleVersionNumber &&
      (s.ruleVersions.find? (c.workspace, t.ruleID, t.ruleVersionNumber)).any
        (·.status == .approved) &&
      (s.ruleVersionContracts.find? (c.workspace, t.ruleID, t.ruleVersionNumber)).isSome)

def isDeliverable (s : Store) (c : Ctx) (profile : Option String) (t : Task) : Bool :=
  s.isCandidate c profile t && s.versionDelivers c t

/-- The claim goes through, with a task that can be delivered. -/
def Delivers (maxWorkerTasks : Int) (s : Store) (c : Ctx) (r : ClaimRequest) : Prop :=
  ∃ s' claim t, s.claimTask maxWorkerTasks c r = .ok (s', claim) ∧ t ∈ s.tasks.rows ∧
    s.isDeliverable c r.browserProfileID t = true ∧ claim.task.id = t.id

/-- Some deliverable task stands in the queue before every candidate that is not deliverable. -/
def DeliverableFirst (s : Store) (c : Ctx) (r : ClaimRequest) : Prop :=
  ∃ d ∈ s.candidates c r.browserProfileID, s.isDeliverable c r.browserProfileID d = true ∧
    ∀ u ∈ s.candidates c r.browserProfileID,
      s.isDeliverable c r.browserProfileID u = false → queueKey r d < queueKey r u

instance : Decidable (DeliverableFirst s c r) := by
  unfold DeliverableFirst
  infer_instance

theorem queueKey_inj (h : queueKey r t = queueKey r row) : t.id = row.id := by
  simp only [queueKey, toLex_inj, Prod.mk.injEq] at h
  exact h.2.2.2.2

theorem lt_nextAttemptNumber {id : TaskID} {a : ExecutionAttempt}
    (ha : a ∈ s.executionAttempts.rows) (hw : a.workspaceID = c.workspace) (ht : a.taskID = id) :
    a.number < s.nextAttemptNumber c id := by
  refine Nat.lt_succ_of_le (le_max?_getD_of_mem (List.mem_map_of_mem ?_))
  simp [ha, hw, ht]

theorem insertAttempt_claimed (hfresh : s.executionAttempts.find? r.attemptID = none)
    (hmem : row ∈ s.tasks.rows) (hw : row.workspaceID = c.workspace) :
    ∃ s₁, s.insertAttempt (s.claimedAttempt c r row) = .ok s₁ ∧
      s₁ = { s with executionAttempts := s₁.executionAttempts } := by
  obtain ⟨executionAttempts, hins⟩ :=
    exists_insert? (t := s.executionAttempts) (r := s.claimedAttempt c r row) hfresh
  have htask : (s.tasks.any fun t => t.workspaceID == (s.claimedAttempt c r row).workspaceID &&
      t.id == (s.claimedAttempt c r row).taskID) :=
    Table.any_eq_true.mpr ⟨row, hmem, by simp [claimedAttempt, hw]⟩
  have hnumber : (s.executionAttempts.any fun b =>
      b.workspaceID == (s.claimedAttempt c r row).workspaceID &&
        b.taskID == (s.claimedAttempt c r row).taskID &&
        b.number == (s.claimedAttempt c r row).number) = false := by
    refine Table.any_eq_false.mpr fun b hb => ?_
    by_contra h
    simp only [claimedAttempt, Bool.not_eq_false, Bool.and_eq_true, beq_iff_eq] at h
    have := lt_nextAttemptNumber hb h.1.1 h.1.2
    omega
  refine ⟨{ s with executionAttempts }, ?_, rfl⟩
  simp only [insertAttempt, htask, hnumber, hins]
  rfl

/-- The claim takes the head of the queue and looks at nothing behind it. -/
theorem claimTask_head (hlimit : (s.activeCount c.workspace r.workerID : Int) < maxWorkerTasks)
    (hfresh : s.executionAttempts.find? r.attemptID = none)
    (hhead : (s.candidates c r.browserProfileID).argmin (queueKey r) = some row) :
    ∃ s' task, task.id = row.id ∧ s.claimTask maxWorkerTasks c r = (do
      let version ← s.resolveTaskRuleVersionContract c row
      require (version.all fun v => v.1.status == .approved) .ruleVersionNotApproved
      pure (s', { task, ruleVersion := version })) := by
  obtain ⟨hmem, hcand⟩ := mem_candidates.mp (argmin_mem hhead)
  simp only [isCandidate, Bool.and_eq_true, beq_iff_eq] at hcand
  obtain ⟨⟨⟨⟨⟨hw, -⟩, hstatus⟩, -⟩, -⟩, -⟩ := hcand
  obtain ⟨s₁, hins, hs₁⟩ := insertAttempt_claimed hfresh hmem hw
  have htasks : s₁.tasks = s.tasks := by rw [hs₁]
  have hpending : isPending c row.id row := by simp [isPending, hw, hstatus]
  have hany : s₁.tasks.any (isPending c row.id) := by
    rw [htasks]
    exact Table.any_eq_true.mpr ⟨row, hmem, hpending⟩
  -- the task read back is the row with its lease
  let leased := Task.leaseTo c.now r.workerID (c.now + r.leaseDuration) r.attemptID
  have htask : (s₁.updateTasks (isPending c row.id) leased).getTaskByID c row.id =
      .ok (leased.set row) := by
    unfold getTaskByID updateTasks
    rw [htasks, find?_update, find?_key hmem, map_some, TaskUpdate.onID_set,
      setIf_pos hpending, filter_some_pos]
    simpa [leased, Task.leaseTo] using hw
  have hversion : (s₁.updateTasks (isPending c row.id) leased).resolveTaskRuleVersionContract c
      (leased.set row) = s.resolveTaskRuleVersionContract c row := by
    rw [hs₁]
    rfl
  refine ⟨s₁.updateTasks (isPending c row.id) leased, leased.set row, rfl, ?_⟩
  unfold leased at htask hversion ⊢
  simp only [claimTask, hhead, hlimit, hins, hany, htask, hversion, require, bind, Except.bind,
    decide_true, if_true]

theorem resolve_of_versionDelivers (h : s.versionDelivers c t) :
    ∃ version, s.resolveTaskRuleVersionContract c t = .ok version ∧
      (version.all fun v => v.1.status == .approved) = true := by
  unfold resolveTaskRuleVersionContract
  by_cases hrule : t.ruleID.isEmpty
  · exact ⟨none, by rw [if_pos hrule], rfl⟩
  rw [if_neg hrule]
  simp only [versionDelivers, Bool.or_eq_true, Bool.not_eq_true', Bool.and_eq_true,
    decide_eq_true_eq, Option.any_eq_true, isSome_iff_exists] at h
  rcases h with hlegacy | ⟨⟨hpos, v, hv, happroved⟩, k, hk⟩
  · have hnone : s.getRuleVersion c t.ruleID t.ruleVersionNumber = .error .ruleVersionNotFound := by
      unfold getRuleVersion
      cases hv : s.ruleVersions.find? (c.workspace, t.ruleID, t.ruleVersionNumber) with
      | none => rfl
      | some v =>
        have hkey := key_of_find? hv
        simp only [RuleVersion.key, Prod.mk.injEq] at hkey
        have hne := Table.any_eq_false.mp hlegacy v (mem_of_find? hv)
        simp [hkey.1, hkey.2.1] at hne
    refine ⟨none, ?_, rfl⟩
    rw [hnone, ite_self, hlegacy]
    rfl
  · refine ⟨some (v, k), ?_, happroved⟩
    rw [if_pos hpos]
    simp only [getRuleVersion, getRuleVersionContract, hv, hk]
    rfl

/-- **Claim progress.** A worker below its limit gets a task exactly when the queue holds one that can
be delivered before all that cannot. -/
theorem claim_progress (hlimit : (s.activeCount c.workspace r.workerID : Int) < maxWorkerTasks)
    (hfresh : s.executionAttempts.find? r.attemptID = none) :
    Delivers maxWorkerTasks s c r ↔ DeliverableFirst s c r := by
  have hinj : ∀ a ∈ s.candidates c r.browserProfileID, ∀ b ∈ s.candidates c r.browserProfileID,
      queueKey r a = queueKey r b → a = b := fun a ha b hb h =>
    eq_of_key (mem_candidates.mp ha).1 (mem_candidates.mp hb).1 (queueKey_inj h)
  rw [DeliverableFirst, ← head_iff hinj]
  constructor
  · rintro ⟨s', claim, t, hclaim, ht, hdeliverable, hid⟩
    obtain ⟨-, row, -, hhead, -⟩ := claimTask_cases hclaim
    obtain ⟨s₁, task, htask, heq⟩ := claimTask_head hlimit hfresh hhead
    rw [heq] at hclaim
    simp only [bind_eq_ok, pure_eq_ok, Prod.mk.injEq] at hclaim
    obtain ⟨version, -, -, -, -, rfl⟩ := hclaim
    have hrow := (mem_candidates.mp (argmin_mem hhead)).1
    obtain rfl : row = t := eq_of_key hrow ht (htask.symm.trans hid)
    exact ⟨row, hhead, hdeliverable⟩
  · rintro ⟨row, hhead, hdeliverable⟩
    obtain ⟨s₁, task, htask, heq⟩ := claimTask_head hlimit hfresh hhead
    obtain ⟨version, hversion, happroved⟩ :=
      resolve_of_versionDelivers (Bool.and_eq_true_iff.mp hdeliverable).2
    refine ⟨s₁, { task, ruleVersion := version }, row, ?_,
      (mem_candidates.mp (argmin_mem hhead)).1, hdeliverable, htask⟩
    rw [heq, hversion]
    simp only [bind, Except.bind, require, happroved, if_true]
    rfl

end Store

def draftStore : Store := { Sample.store with
  rules := ⟨[Sample.rule, { Sample.rule with id := "draft" }], by decide⟩
  ruleVersions := ⟨[{
    workspaceID := Sample.workspace
    ruleID := "draft"
    version := 1
    versionLabel := "1"
    status := .pending }], by decide⟩
  ruleVersionContracts := ⟨[{
    workspaceID := Sample.workspace
    ruleID := "draft"
    version := 1
    inputSchema := ""
    outputSchema := ""
    browserProfileID := "" }], by decide⟩ }

/-- A task of the rule without versions, and before or behind it one of the other rule. -/
def queuedStore (priority : Priority) : Store := run (Op.apply Sample.config) draftStore
  [.createTask (Sample.at' 0) { Sample.task "draft task" with ruleID := "draft", priority := priority },
    Sample.create "task" 1]

def workerClaim : ClaimRequest where
  workerID := "worker"
  browserProfileID := some ""
  leaseDuration := 100
  attemptID := "first"
  tie := fun _ => 0

theorem claim_progress_queuedStore : Store.Delivers 1 (queuedStore .low) (Sample.at' 2) workerClaim :=
  (Store.claim_progress (by decide) (by decide)).mpr (by decide)

/-- The task of the pending version has the higher priority, and no claim gets past it. -/
theorem claim_progress_held : ¬ ∀ (maxWorkerTasks : Int) (s : Store) (c : Ctx) (r : ClaimRequest),
    (s.activeCount c.workspace r.workerID : Int) < maxWorkerTasks →
    s.executionAttempts.find? r.attemptID = none →
    (∃ t ∈ s.tasks.rows, s.isDeliverable c r.browserProfileID t = true) →
    ∃ res, s.claimTask maxWorkerTasks c r = .ok res := by
  intro h
  obtain ⟨res, hres⟩ := h 1 (queuedStore .high) (Sample.at' 2) workerClaim (by decide) (by decide)
    (by decide)
  have herror : (queuedStore .high).claimTask 1 (Sample.at' 2) workerClaim =
      .error .ruleVersionNotApproved := by rfl
  rw [herror] at hres
  cases hres

end Aegis
