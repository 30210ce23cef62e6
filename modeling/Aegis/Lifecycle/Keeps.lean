import Aegis.Lifecycle.View

/-!
# Lifecycle.Keeps

What every store call leaves alone, in any store: the results, the identity of every attempt, and
every attempt that has ended, as a whole row.
-/

namespace Aegis

theorem ExecutionAttempt.ext_columns {a b : ExecutionAttempt} (hi : a.identity = b.identity)
    (ho : a.outcome = b.outcome) : a = b := by
  cases a
  cases b
  simp only [identity, Prod.mk.injEq] at hi
  simp only [outcome, Prod.mk.injEq] at ho
  obtain ⟨rfl, rfl, rfl, rfl, rfl, rfl⟩ := hi
  obtain ⟨rfl, rfl, rfl, rfl, rfl⟩ := ho
  rfl

namespace Store

variable {s s' s₁ : Store} {c : Ctx}

/-- The store `s'` has the results of `s` and its attempts, those that have ended unchanged. -/
structure Keeps (s s' : Store) : Prop where
  results : s'.results = s.results
  attempts : ∀ {id : AttemptID} {a : ExecutionAttempt}, s.executionAttempts.find? id = some a →
    ∃ a', s'.executionAttempts.find? id = some a' ∧ a'.identity = a.identity ∧
      (a.status.isOpen = false → a' = a)

theorem Keeps.of_eq (hr : s'.results = s.results)
    (ha : s'.executionAttempts = s.executionAttempts) : Keeps s s' :=
  ⟨hr, fun h => ⟨_, ha ▸ h, rfl, fun _ => rfl⟩⟩

theorem Keeps.refl (s : Store) : Keeps s s := .of_eq rfl rfl

theorem Keeps.trans (h : Keeps s s₁) (h' : Keeps s₁ s') : Keeps s s' := by
  refine ⟨h'.results.trans h.results, ?_⟩
  intro id a ha
  obtain ⟨a₁, ha₁, hi₁, hs₁⟩ := h.attempts ha
  obtain ⟨a₂, ha₂, hi₂, hs₂⟩ := h'.attempts ha₁
  refine ⟨a₂, ha₂, hi₂.trans hi₁, ?_⟩
  intro ho
  obtain rfl := hs₁ ho
  exact hs₂ ho

section Statements

variable {p : ExecutionAttempt → Bool} {f : AttemptUpdate}

theorem keeps_updateAttempts (h : s.updateAttempts p f = .ok s') : Keeps s s' := by
  obtain ⟨hout, rfl⟩ := updateAttempts_eq_ok.mp h
  refine ⟨rfl, ?_⟩
  intro id a ha
  refine ⟨setIf p f.set a, ?_, f.keeps_setIf p a, ?_⟩
  · simp [Table.find?_update, ha]
  · intro ho
    by_cases hp : p a
    · rw [setIf_pos hp]
      exact ExecutionAttempt.ext_columns (f.keeps a) (hout a (Table.mem_of_find? ha) hp ho)
    · exact setIf_neg (by simpa using hp)

theorem keeps_insertAttempt {a : ExecutionAttempt} (h : s.insertAttempt a = .ok s') : Keeps s s' := by
  simp only [insertAttempt, bind_eq_ok, require_eq_ok] at h
  obtain ⟨-, -, -, -, h⟩ := h
  split at h
  · cases h
  · rename_i rows hins
    obtain rfl := pure_eq_ok.mp h
    refine ⟨rfl, fun hb => ⟨_, ?_, rfl, fun _ => rfl⟩⟩
    exact Table.find?_insert?_of_some hins hb

theorem keeps_insertTask {t : Task} (h : s.insertTask t = .ok s') : Keeps s s' := by
  simp only [insertTask, bind_eq_ok, require_eq_ok] at h
  obtain ⟨-, -, h⟩ := h
  split at h
  · cases h
  · obtain rfl := pure_eq_ok.mp h
    exact .of_eq rfl rfl

theorem keeps_insertCheckpoint {k : Checkpoint} (h : s.insertCheckpoint k = .ok s') : Keeps s s' := by
  unfold insertCheckpoint at h
  split at h
  · cases h
  · cases h
    exact .of_eq rfl rfl

theorem keeps_insertIntervention {i : HumanIntervention} (h : s.insertIntervention i = .ok s') :
    Keeps s s' := by
  simp only [insertIntervention, bind_eq_ok, require_eq_ok] at h
  obtain ⟨-, -, h⟩ := h
  split at h
  · cases h
  · obtain rfl := pure_eq_ok.mp h
    exact .of_eq rfl rfl

theorem Keeps.update (h : s₁.updateAttempts p f = .ok s') (hr : s₁.results = s.results)
    (ha : s₁.executionAttempts = s.executionAttempts) : Keeps s s' :=
  (Keeps.of_eq hr ha).trans (keeps_updateAttempts h)

end Statements

theorem keeps_claimTask {m : Int} {r : ClaimRequest} {claim : TaskClaim}
    (h : s.claimTask m c r = .ok (s', claim)) : Keeps s s' := by
  obtain ⟨-, row, s₁, -, h₁, rfl, -⟩ := claimTask_cases h
  exact (keeps_insertAttempt h₁).trans (.of_eq rfl rfl)

variable {id : TaskID} {worker : WorkerID} {status : TaskStatus} {message errorType : String}

theorem keeps_updateTaskStatus
    (h : s.updateTaskStatus c id worker status message errorType = .ok s') : Keeps s s' := by
  simp only [updateTaskStatus, bind_eq_ok, require_eq_ok] at h
  obtain ⟨-, -, h⟩ := h
  refine .update h ?_ ?_ <;> split <;> rfl

theorem keeps_updateTaskStatusForAttempt {attempt : AttemptID} {repeated : Bool}
    (h : s.updateTaskStatusForAttempt c id worker attempt status message errorType =
      .ok (s', repeated)) : Keeps s s' := by
  obtain ⟨t, a, -, -, -, -, -, ⟨-, rfl, -⟩ | ⟨-, -, -, -, h⟩⟩ := updateTaskStatusForAttempt_cases h
  · exact .refl s'
  · simp only [reportForAttempt, bind_eq_ok, require_eq_ok] at h
    obtain ⟨-, -, -, -, h⟩ := h
    refine .update h ?_ ?_ <;> split <;> rfl

theorem keeps_createHumanIntervention {input : HumanInterventionInput}
    (h : s.createHumanIntervention c input = .ok s') : Keeps s s' := by
  simp only [createHumanIntervention, bind_eq_ok, require_eq_ok] at h
  obtain ⟨-, -, -, -, -, -, s₁, h₁, s₂, h₂, -, -, -, -, s₃, h₃, h₄⟩ := h
  obtain rfl := pure_eq_ok.mp h₄
  have hk : Keeps s₂ s₃ := .update h₃ rfl rfl
  exact (keeps_insertCheckpoint h₁).trans ((keeps_insertIntervention h₂).trans (hk.trans (.of_eq rfl rfl)))

variable {h : HumanIntervention}

theorem keeps_failWaitingHumanAttempt {errorType message : String}
    (hf : s.failWaitingHumanAttempt c h errorType message = .ok s') : Keeps s s' := by
  simp only [failWaitingHumanAttempt, bind_eq_ok, require_eq_ok] at hf
  obtain ⟨-, -, -, -, s₁, h₁, h₂⟩ := hf
  obtain rfl := pure_eq_ok.mp h₂
  exact Keeps.trans (.update h₁ rfl rfl) (.of_eq rfl rfl)

theorem keeps_expireHumanIntervention (hf : s.expireHumanIntervention c h = .ok s') : Keeps s s' := by
  have hk : Keeps s (s.decidePending c h.id .expired "system:expiry" "operator decision expired") :=
    .of_eq rfl rfl
  exact hk.trans (keeps_failWaitingHumanAttempt hf)

theorem keeps_expireHumanInterventions {hs : List HumanIntervention}
    (h : hs.foldlM (expireHumanIntervention c) s = .ok s') : Keeps s s' := by
  induction hs generalizing s with
  | nil =>
    obtain rfl := pure_eq_ok.mp h
    exact .refl s
  | cons i hs ih =>
    rw [List.foldlM_cons] at h
    obtain ⟨s₁, h₁, h⟩ := bind_eq_ok.mp h
    exact (keeps_expireHumanIntervention h₁).trans (ih h)

theorem keeps_decideHumanIntervention {id checkpointID note actor : String}
    {decision : HumanInterventionStatus} {d : Duration} {e : Option StoreError}
    (hf : s.decideHumanIntervention c id checkpointID decision note actor d = .ok (s', e)) :
    Keeps s s' := by
  simp only [decideHumanIntervention, bind_eq_ok, require_eq_ok] at hf
  obtain ⟨-, -, hf⟩ := hf
  split at hf
  · cases hf
  · simp only [bind_eq_ok, require_eq_ok] at hf
    obtain ⟨-, -, hf⟩ := hf
    split at hf
    · simp only [bind_eq_ok, pure_eq_ok, Prod.mk.injEq] at hf
      obtain ⟨s₁, h₁, rfl, -⟩ := hf
      exact keeps_expireHumanIntervention h₁
    · simp only [bind_eq_ok, require_eq_ok] at hf
      obtain ⟨-, -, hf⟩ := hf
      split at hf
      · simp only [bind_eq_ok, pure_eq_ok, Prod.mk.injEq] at hf
        obtain ⟨s₁, h₁, rfl, -⟩ := hf
        simp only [resumeWaitingHumanAttempt, bind_eq_ok, require_eq_ok] at h₁
        obtain ⟨-, -, -, -, h₁⟩ := h₁
        exact Keeps.trans (.update h₁ rfl rfl) (.of_eq rfl rfl)
      · simp only [bind_eq_ok, pure_eq_ok, Prod.mk.injEq] at hf
        obtain ⟨s₁, h₁, rfl, -⟩ := hf
        exact (keeps_failWaitingHumanAttempt h₁).trans (.of_eq rfl rfl)

theorem keeps_cancelTask (h : s.cancelTask c id = .ok s') : Keeps s s' := by
  simp only [cancelTask] at h
  split at h
  · simp only [bind_eq_ok, pure_eq_ok] at h
    obtain ⟨s₁, h₁, rfl⟩ := h
    exact Keeps.trans (.update h₁ rfl rfl) (.of_eq rfl rfl)
  · split at h
    · cases h
      exact .of_eq rfl rfl
    · split at h <;> cases h

/-- **No store call changes a result or an attempt that has ended.** -/
theorem keeps_exec {cfg : Config} {op : Op} (h : op.exec cfg s = .ok s') : Keeps s s' := by
  cases op with
  | createTask c t =>
    obtain ⟨u, -, -, -, -, -, -, -, -, hins⟩ := createTask_cases h
    exact keeps_insertTask hins
  | claimTask c r =>
    obtain ⟨⟨s₁, claim⟩, h₁, rfl⟩ := map_eq_ok.mp h
    exact keeps_claimTask h₁
  | renewLease c taskID workerID d =>
    simp only [Op.exec, renewLease, bind_eq_ok, require_eq_ok] at h
    obtain ⟨-, -, h⟩ := h
    exact Keeps.update h rfl rfl
  | updateTaskStatus c taskID workerID status message errorType => exact keeps_updateTaskStatus h
  | updateTaskStatusForAttempt c taskID workerID attemptID status message errorType =>
    obtain ⟨⟨s₁, repeated⟩, h₁, rfl⟩ := map_eq_ok.mp h
    exact keeps_updateTaskStatusForAttempt h₁
  | createHumanIntervention c input => exact keeps_createHumanIntervention h
  | decideHumanIntervention c id checkpointID decision note actor d =>
    obtain ⟨⟨s₁, e⟩, h₁, rfl⟩ := map_eq_ok.mp h
    exact keeps_decideHumanIntervention h₁
  | expireHumanInterventions c id taskID => exact keeps_expireHumanInterventions h
  | cancelTask c id => exact keeps_cancelTask h
  | retryTask c id =>
    simp only [Op.exec, retryTask] at h
    split at h
    · cases h
      exact .of_eq rfl rfl
    · split at h <;> cases h
  | releaseTask c taskID =>
    simp only [Op.exec, releaseTask, bind_eq_ok, require_eq_ok, pure_eq_ok] at h
    obtain ⟨s₁, h₁, -, -, rfl⟩ := h
    exact (keeps_updateAttempts h₁).trans (.of_eq rfl rfl)

theorem keeps_apply (cfg : Config) (s : Store) (op : Op) : Keeps s (op.apply cfg s) := by
  rcases Op.apply_eq cfg s op with h | h
  · rw [h]
    exact .refl s
  · exact keeps_exec h

end Store

end Aegis
