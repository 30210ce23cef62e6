import Aegis.Lifecycle.Ending
import Aegis.Results.Server

/-!
# Results.Completion

Completed attempts and the rows that reach them.

A completion counts the rows of the attempt in its own transaction, and a submission checks that
its attempt is active in a statement of its own, before its `INSERT`. The two fit together exactly
in the runs where the check still holds at the `INSERT`.
-/

namespace Aegis

open List Option Table
open Store

variable {cfg : Config} {s s' : Store} {v : Server}

/-- The attempt has succeeded with at least one valid batch, one summary and no invalid batch. -/
def Store.isComplete (s : Store) (id : AttemptID) : Bool :=
  (s.executionAttempts.find? id).any fun a =>
    a.status == .succeeded && 1 ≤ s.validBatches a.workspaceID a.taskID id &&
      s.summaries a.workspaceID a.taskID id == 1 && s.invalidBatches a.workspaceID a.taskID id == 0

/-- Every attempt completed by a report is complete, and no row has come to an attempt that did
not hold its task. -/
def ResultsComplete (v : Server) : Prop :=
  (∀ id ∈ v.completed, v.store.isComplete id = true) ∧ v.late = []

instance : Decidable (ResultsComplete v) := inferInstanceAs (Decidable (_ ∧ _))

/-- An `INSERT` that the keys and unique indexes admit runs while the activity check of its
submission would still pass. -/
def CheckStillHolds (v : Server) : Event → Prop
  | .advance i => ∀ sub ∈ v.submissions[i]?, sub.stage = .insert →
      v.store.results.any (resultClash sub.row) = false →
      v.store.results.find? sub.row.id = none → v.store.checkResult sub.row = .insert
  | _ => True

variable {id : AttemptID}

theorem isComplete_iff : s.isComplete id ↔
    ∃ a, s.executionAttempts.find? id = some a ∧ a.status = .succeeded ∧
      1 ≤ s.validBatches a.workspaceID a.taskID id ∧
      s.summaries a.workspaceID a.taskID id = 1 ∧
      s.invalidBatches a.workspaceID a.taskID id = 0 := by
  simp [isComplete, Option.any_eq_true, and_assoc]

theorem countResults_congr (h : s'.results = s.results) (w : WorkspaceID) (t : TaskID)
    (a : AttemptID) (p : Result → Bool) : s'.countResults w t a p = s.countResults w t a p := by
  simp [countResults, h]

theorem isComplete_keeps (hk : Keeps s s') (h : s.isComplete id) : s'.isComplete id = true := by
  obtain ⟨a, ha, hs, hv, hsum, hinv⟩ := isComplete_iff.mp h
  obtain ⟨a', ha', -, heq⟩ := hk.attempts ha
  obtain rfl := heq (by rw [hs]; rfl)
  have hc := countResults_congr hk.results a'.workspaceID a'.taskID id
  refine isComplete_iff.mpr ⟨a', ha', hs, ?_, ?_, ?_⟩
  · exact hv.trans_eq (hc _).symm
  · exact (hc _).trans hsum
  · exact (hc _).trans hinv

variable {r : Result}

theorem countResults_insert (hne : r.attemptID ≠ id)
    (hrows : s'.results.rows = s.results.rows ++ [r]) (w : WorkspaceID) (t : TaskID)
    (p : Result → Bool) : s'.countResults w t id p = s.countResults w t id p := by
  simp [countResults, hrows, hne]

theorem isComplete_insert (hacc : s.accepts r)
    (hins : s.insertResult r = .ok s') (h : s.isComplete id) : s'.isComplete id = true := by
  obtain ⟨a, ha, hs, hv, hsum, hinv⟩ := isComplete_iff.mp h
  obtain ⟨-, -, hrows, heq⟩ := insertResult_eq_ok hins
  have hne : r.attemptID ≠ id := by
    rintro rfl
    obtain ⟨b, hb, hbacc⟩ := Table.any_eq_true.mp hacc
    simp only [Bool.and_eq_true, beq_iff_eq] at hbacc
    have hba : b = a := eq_of_key hb (mem_of_find? ha)
      (hbacc.1.1.1.trans (key_of_find? ha).symm)
    rw [hba, hs] at hbacc
    cases hbacc.1.2
  have hc := countResults_insert hne hrows a.workspaceID a.taskID
  have ha' : s'.executionAttempts.find? id = some a := by rw [heq]; exact ha
  refine isComplete_iff.mpr ⟨a, ha', hs, ?_, ?_, ?_⟩
  · exact hv.trans_eq (hc _).symm
  · exact (hc _).trans hsum
  · exact (hc _).trans hinv

theorem reportForAttempt_find {c : Ctx} {taskID : TaskID} {workerID : WorkerID}
    {status : TaskStatus} {message errorType : String} {a : ExecutionAttempt}
    (ha : s.executionAttempts.find? a.id = some a) (hw : a.workspaceID = c.workspace)
    (ht : a.taskID = taskID) (hk : a.workerID = workerID)
    (h : s.reportForAttempt c taskID workerID a.id status message errorType = .ok s') :
    s'.executionAttempts.find? a.id =
      some ((ExecutionAttempt.report c.now status message errorType).set a) := by
  simp only [reportForAttempt, bind_eq_ok, require_eq_ok] at h
  obtain ⟨-, -, -, -, h⟩ := h
  rw [(updateAttempts_eq_ok.mp h).2]
  have hfind : (s.updateTasks (fun t => t.id == taskID && t.workspaceID == c.workspace &&
      t.workerID == some workerID && t.currentAttemptID == some a.id)
      (Task.report c.now status message errorType)).executionAttempts.find? a.id = some a := ha
  rw [find?_update, attempts_decide, hfind, map_some, AttemptUpdate.onID_set, setIf_pos]
  simp [hw, ht, hk]

theorem isComplete_completes {op : Op} (h : op.completes s = some id) :
    (op.apply cfg s).isComplete id := by
  unfold Op.completes at h
  split at h
  · rename_i c taskID workerID attemptID message errorType
    split at h
    · rename_i s' hok
      cases h
      rw [Op.apply_of_ok (map_eq_ok.mpr ⟨_, hok, rfl⟩)]
      obtain ⟨t, a, hta, -, hw, -, -, ⟨hrep, -⟩ | ⟨-, -, -, hcount, hs'⟩⟩ :=
        updateTaskStatusForAttempt_cases hok
      · cases hrep
      obtain ⟨ht, hws, ha, haw, hat⟩ := attemptOfTask_eq_some.mp hta
      obtain rfl := key_of_find? ht
      obtain rfl := key_of_find? ha
      obtain ⟨hv, hinv, hsum⟩ := hcount rfl
      rw [← hws, ← haw, ← hat] at hv hinv hsum
      have hc := countResults_congr (keeps_updateTaskStatusForAttempt hok).results a.workspaceID
        a.taskID a.id
      have hfind := reportForAttempt_find ha (haw.trans hws) hat hw hs'
      refine isComplete_iff.mpr ⟨_, hfind, rfl, ?_, ?_, ?_⟩
      · exact hv.trans_eq (hc _).symm
      · exact (hc _).trans hsum
      · exact (hc _).trans hinv
    · cases h
  · cases h

theorem check_iff_accepts (hg : s.Good) (hn : Server.Names s r) :
    s.checkResult r = .insert ↔ s.accepts r = true := by
  obtain ⟨a, ha, hw, ht, hk⟩ := hn
  obtain ⟨hmem, hid⟩ := Table.find?_eq_some.mp ha
  rw [checkResult_eq_insert, accepts, Table.any_eq_true]
  constructor
  · rintro ⟨b, hb, hact⟩
    obtain rfl := mem_unique ha hb
    simp only [isActiveFor, Bool.and_eq_true, beq_iff_eq, Table.any_eq_true] at hact
    obtain ⟨⟨-, ho⟩, t, htm, ⟨-, htid⟩, hcur⟩ := hact
    have hcurrent : s.tasks.any (fun t => t.id == a.taskID && t.currentAttemptID == some a.id) =
        true := Table.any_eq_true.mpr ⟨t, htm, by simp [htid, hcur]⟩
    exact ⟨a, hmem, by rw [hcurrent]; simp [hid, ht, ho]⟩
  · rintro ⟨b, hb, hacc⟩
    simp only [Bool.and_eq_true, beq_iff_eq, Table.any_eq_true] at hacc
    obtain ⟨⟨⟨hbid, hbt⟩, ho⟩, t, htm, htid, hcur⟩ := hacc
    obtain rfl : b = a := eq_of_key hb hmem (hbid.trans hid.symm)
    have htw : b.workspaceID = t.workspaceID :=
      hg.workspace (find?_key htm) (mem_attempts.mpr ⟨hmem, htid.symm⟩)
    have hcurrent : s.tasks.any (fun t => t.workspaceID == b.workspaceID && t.id == b.taskID &&
        t.currentAttemptID == some b.id) :=
      Table.any_eq_true.mpr ⟨t, htm, by simp [htw, htid, hcur]⟩
    refine ⟨b, ha, ?_⟩
    unfold isActiveFor
    rw [hcurrent]
    simp [hw, hid, ht, hk, ho]

theorem step_complete (hs : Server.Sound v) (hp : ResultsComplete v) (e : Event) :
    ResultsComplete (v.step cfg e) ↔ CheckStillHolds v e := by
  cases e with
  | call op ha =>
    simp only [CheckStillHolds, iff_true]
    refine ⟨fun id hid => ?_, hp.2⟩
    rcases mem_append.mp hid with hid | hid
    · exact isComplete_keeps (keeps_apply cfg v.store op) (hp.1 id hid)
    · exact isComplete_completes (by simpa using hid)
  | submit c newID r =>
    simp only [CheckStillHolds, iff_true]
    exact hp
  | advance i =>
    simp only [CheckStillHolds, Server.step]
    rcases Server.advance_cases v i with ⟨hi, hv⟩ | ⟨sub, hi, hcases⟩
    · rw [hv, hi]
      simp [hp]
    rw [hi]
    rcases hcases with ⟨hst, stage, -, hv⟩ | ⟨-, ⟨e, he⟩, hv⟩ | ⟨hst, s', hok, hv⟩
    · rw [hv]
      refine iff_of_true hp ?_
      rintro q hq hqs
      cases hq
      exact absurd hqs hst
    · rw [hv]
      refine iff_of_true hp ?_
      rintro q hq - hclash hfree
      cases hq
      obtain ⟨s', hs'⟩ := insertResult_of_free hclash hfree
      rw [he] at hs'
      cases hs'
    · rw [hv]
      obtain ⟨hclash, hfree, -, -⟩ := insertResult_eq_ok hok
      have hcheck := check_iff_accepts hs.good (hs.checked sub (mem_of_getElem? hi) hst)
      by_cases hacc : v.store.accepts sub.row
      · rw [if_pos hacc]
        refine iff_of_true ⟨fun id hid => isComplete_insert hacc hok (hp.1 id hid), hp.2⟩ ?_
        rintro q hq - - -
        cases hq
        exact hcheck.mpr hacc
      · rw [if_neg hacc]
        refine iff_of_false (fun h => ?_) fun h => ?_
        · exact append_ne_nil_of_right_ne_nil _ (cons_ne_nil _ _) h.2
        · have := h sub rfl hst (Table.any_eq_false.mpr hclash) hfree
          exact hacc (hcheck.mp this)

/-- By the checks: the results stay complete exactly when every `INSERT` would pass its check again.
-/
theorem always_complete_iff {v₀ : Server} (hi : Server.Initial v₀) (es : List Event) :
    Always (Server.step cfg) ResultsComplete v₀ es ↔ Meets (Server.step cfg) CheckStillHolds v₀ es := by
  have h₀ : ResultsComplete v₀ := by
    refine ⟨fun id hid => ?_, hi.late⟩
    rw [hi.completed] at hid
    cases hid
  exact always_iff_meets hi.sound (fun _ e hs => hs.step e) h₀
    fun _ e hs hp => step_complete hs hp e

/-! ## Between the check and the `INSERT` -/

/-- A call that ends the attempt holding the task `id`. -/
def Event.Ends (cfg : Config) (id : TaskID) (v : Server) : Event → Prop
  | .call op _ => (op.exec cfg v.store).isOk = true ∧ op.ends v.store id = true
  | _ => False

/-- The next statement of the submission `i` is its activity check, which it passes. -/
def Server.Checks (v : Server) (i : Nat) (sub : Submission) : Prop :=
  v.submissions[i]? = some sub ∧ sub.stage = .check ∧ v.store.checkResult sub.row = .insert

/-- Between the activity check of a submission and its `INSERT`, if the keys and unique indexes
admit that, no call ends the attempt it was checked for. -/
def Undisturbed (cfg : Config) (v₀ : Server) (es : List Event) : Prop :=
  ∀ before i sub between after,
    es = before ++ .advance i :: (between ++ .advance i :: after) → .advance i ∉ between →
    (run (Server.step cfg) v₀ before).Checks i sub →
    ((run (Server.step cfg) v₀ (before ++ .advance i :: between)).store.insertResult
      sub.row).isOk = true →
    Meets (Server.step cfg) (fun v e => ¬ e.Ends cfg sub.row.taskID v)
      (run (Server.step cfg) v₀ (before ++ [.advance i])) between

namespace Server

variable {i : Nat} {sub : Submission} {e : Event} {es : List Event}

theorem step_submissions (hi : v.submissions[i]? = some sub) (he : e ≠ .advance i) :
    (v.step cfg e).submissions[i]? = some sub := by
  cases e with
  | call op ha => exact hi
  | submit c newID r =>
    obtain ⟨hlt, -⟩ := List.getElem?_eq_some_iff.mp hi
    exact (getElem?_append_left hlt).trans hi
  | advance j =>
    have hne : j ≠ i := fun h => he (by rw [h])
    rcases advance_cases v j with ⟨-, hv⟩ | ⟨q, -, ⟨-, stage, -, hv⟩ | ⟨-, -, hv⟩ | ⟨-, s', -, hv⟩⟩
    · exact (congrArg (·.submissions[i]?) hv).trans hi
    all_goals exact (congrArg (·.submissions[i]?) hv).trans ((getElem?_set_ne hne).trans hi)

theorem run_submissions (hi : v.submissions[i]? = some sub) (hes : .advance i ∉ es) :
    (run (step cfg) v es).submissions[i]? = some sub := by
  induction es generalizing v with
  | nil => exact hi
  | cons e es ih =>
    obtain ⟨he, hes⟩ := not_or.mp (mt mem_cons.mpr hes)
    exact ih (step_submissions hi (Ne.symm he)) hes

/-- A submission comes to its `INSERT` by its activity check only. -/
theorem check_of_step (h : (v.step cfg e).submissions[i]? = some sub) (hs : sub.stage = .insert) :
    (v.submissions[i]? = some sub ∧ e ≠ .advance i) ∨
      (e = .advance i ∧ v.Checks i { sub with stage := .check }) := by
  cases e with
  | call op ha => exact .inl ⟨h, nofun⟩
  | submit c newID r =>
    refine .inl ⟨?_, nofun⟩
    rcases lt_or_ge i v.submissions.length with hlt | hge
    · exact (getElem?_append_left hlt).symm.trans h
    · have hnew := (getElem?_append_right hge).symm.trans h
      obtain rfl := mem_singleton.mp (mem_of_getElem? hnew)
      exact absurd hs (submitStart_ne_insert _)
  | advance j =>
    by_cases hj : j = i
    · subst hj
      refine .inr ⟨rfl, ?_⟩
      rcases advance_cases v j with ⟨hi, hv⟩ | ⟨q, hi, ⟨hst, stage, hstep, hv⟩ | ⟨-, -, hv⟩ | ⟨-, s', -, hv⟩⟩
      · cases hi.symm.trans ((congrArg (·.submissions[j]?) hv).symm.trans h)
      all_goals
        obtain ⟨hlt, -⟩ := List.getElem?_eq_some_iff.mp hi
        have hnew := (getElem?_set_self hlt).symm.trans
          ((congrArg (·.submissions[j]?) hv).symm.trans h)
        obtain rfl := Option.some.inj hnew
      · obtain rfl : stage = .insert := hs
        have hcheck := check_of_submitStep hst hstep
        have hstage : q.stage = .check := stage_of_submitStep hst hstep
        rw [← hstage]
        exact ⟨hi, hstage, hcheck⟩
      all_goals cases hs
    · refine .inl ⟨?_, fun h => hj (Event.advance.inj h)⟩
      rcases advance_cases v j with ⟨-, hv⟩ | ⟨q, -, ⟨-, stage, -, hv⟩ | ⟨-, -, hv⟩ | ⟨-, s', -, hv⟩⟩
      · exact (congrArg (·.submissions[i]?) hv).symm.trans h
      all_goals
        exact (getElem?_set_ne hj).symm.trans ((congrArg (·.submissions[i]?) hv).symm.trans h)

theorem checks_before {v₀ : Server} (hi : Initial v₀)
    (h : (run (step cfg) v₀ es).submissions[i]? = some sub) (hs : sub.stage = .insert) :
    ∃ before between, es = before ++ .advance i :: between ∧ .advance i ∉ between ∧
      (run (step cfg) v₀ before).Checks i { sub with stage := .check } := by
  induction es using reverseRecOn with
  | nil =>
    have hnone : v₀.submissions[i]? = none := by rw [hi.submissions]; rfl
    cases hnone.symm.trans h
  | append_singleton es e ih =>
    rw [run_append] at h
    rcases check_of_step h hs with ⟨hold, he⟩ | ⟨rfl, hcheck⟩
    · obtain ⟨before, between, rfl, hbetween, hcheck⟩ := ih hold
      refine ⟨before, between ++ [e], append_assoc .., ?_, hcheck⟩
      simpa [hbetween] using he.symm
    · exact ⟨es, [], rfl, not_mem_nil, hcheck⟩

theorem Checks.step (h : v.Checks i sub) : (v.step cfg (.advance i)).store = v.store ∧
      (v.step cfg (.advance i)).submissions[i]? = some { sub with stage := .insert } := by
  obtain ⟨hi, hs, hcheck⟩ := h
  obtain ⟨hlt, -⟩ := List.getElem?_eq_some_iff.mp hi
  have hstep : v.store.submitStep sub.row sub.stage = (v.store, .insert) := by
    rw [hs, ← hcheck]
    rfl
  have hne : sub.stage ≠ .insert := by simp [hs]
  have hv : v.step cfg (.advance i) = _ := advance_of_ne hi hne hstep
  exact ⟨congrArg (·.store) hv, (congrArg (·.submissions[i]?) hv).trans (getElem?_set_self hlt)⟩

end Server

section Accepts

theorem accepts_iff_heldUnder (hg : s.Good) (hn : Server.Names s r) :
    s.accepts r = true ↔ s.HeldUnder r.taskID r.attemptID := by
  obtain ⟨a, ha, -, ht, -⟩ := hn
  obtain ⟨hmem, hid⟩ := Table.find?_eq_some.mp ha
  rw [accepts, Table.any_eq_true]
  constructor
  · rintro ⟨b, hb, hacc⟩
    simp only [Bool.and_eq_true, beq_iff_eq, Table.any_eq_true] at hacc
    obtain ⟨⟨⟨hbid, hbt⟩, ho⟩, t, htm, htid, hcur⟩ := hacc
    have hview : (s.view t.id).task = some t := find?_key htm
    obtain ⟨l, hd⟩ := hg t.id
    refine ⟨t, ?_, ?_, ?_⟩
    · rw [← hbt, ← htid]
      exact hview
    · by_contra hrest
      have hclosed := (lockstep_of_describes hview hd).rest_closed (by simpa using hrest) b
        (mem_attempts.mpr ⟨hb, htid.symm⟩)
      rw [ho] at hclosed
      cases hclosed
    · rw [hcur, hbid]
  · rintro ⟨t, htf, hheld, hcur⟩
    obtain ⟨l, hd⟩ := hg r.taskID
    obtain ⟨phase, past, b, waits, -, hv, -, hh⟩ := hd.held_inv htf hheld
    have hb : b ∈ (s.view r.taskID).attempts := by simp [hv]
    obtain ⟨hbmem, hbt⟩ := mem_attempts.mp hb
    have hbid : b.id = r.attemptID := some.inj (hh.current.symm.trans hcur)
    have htask : s.tasks.any (fun t => t.id == b.taskID && t.currentAttemptID == some b.id) = true :=
      Table.any_eq_true.mpr ⟨t, mem_of_find? htf, by simp [key_of_find? htf, hbt, hcur, hbid]⟩
    refine ⟨b, hbmem, ?_⟩
    rw [htask]
    simp [hbid, hbt, hh.attempt]

/-- An attempt that is not the current one of its task does not become so again. -/
theorem accepts_of_keeps (hg : s.Good) (hk : Keeps s s') (hn : Server.Names s r)
    (h : s'.accepts r = true) : s.accepts r = true := by
  obtain ⟨a, ha, -, ht, -⟩ := id hn
  obtain ⟨hmem, hid⟩ := Table.find?_eq_some.mp ha
  obtain ⟨a', ha', -, hended⟩ := hk.attempts ha
  obtain ⟨b, hb, hacc⟩ := Table.any_eq_true.mp h
  simp only [Bool.and_eq_true, beq_iff_eq] at hacc
  obtain rfl : b = a' := eq_of_key hb (mem_of_find? ha') (hacc.1.1.1.trans (key_of_find? ha').symm)
  have hopen : a.status.isOpen = true := by
    by_contra hclosed
    obtain rfl := hended (by simpa using hclosed)
    exact hclosed hacc.1.2
  have hview : a ∈ (s.view r.taskID).attempts := mem_attempts.mpr ⟨hmem, ht⟩
  refine (accepts_iff_heldUnder hg hn).mpr ?_
  obtain ⟨l, hd⟩ := hg r.taskID
  cases hd with
  | absent hv =>
    rw [hv] at hview
    cases hview
  | atRest hv hpast =>
    rw [hv] at hview
    cases hopen.symm.trans (hpast.closed a hview)
  | @held phase t past q waits hv hpast hh =>
    have htask : s.tasks.find? r.taskID = some t := congrArg TaskView.task hv
    rw [hv] at hview
    rcases mem_append.mp hview with hold | hlast
    · cases hopen.symm.trans (hpast.closed a hold)
    · obtain rfl := mem_singleton.mp hlast
      refine ⟨t, htask, ?_, ?_⟩
      · rw [hh.task]
        exact phase.task_isHeld
      · rw [hh.current, hid]

theorem accepts_apply {op : Op} (hg : s.Good) (ha : op.isAdmitted) (hn : Server.Names s r) :
    (op.apply cfg s).accepts r = true ↔
      s.accepts r = true ∧ ¬ ((op.exec cfg s).isOk = true ∧ op.ends s r.taskID = true) := by
  have hk := keeps_apply cfg s op
  have hg' : (op.apply cfg s).Good := by
    rcases Op.apply_eq cfg s op with ho | ho
    · exact (congrArg Store.Good ho).mpr hg
    · exact (Op.simulates hg ha ho).good hg
  rw [accepts_iff_heldUnder hg' (hn.keeps hk), accepts_iff_heldUnder hg hn]
  constructor
  · intro h
    have hheld := (accepts_iff_heldUnder hg hn).mp
      (accepts_of_keeps hg hk hn ((accepts_iff_heldUnder hg' (hn.keeps hk)).mpr h))
    exact ⟨hheld, (heldUnder_apply hg ha hheld).mp h⟩
  · rintro ⟨hheld, hends⟩
    exact (heldUnder_apply hg ha hheld).mpr hends

end Accepts

namespace Server

theorem advance_keeps (v : Server) (j : Nat) :
    (v.advance j).store.executionAttempts = v.store.executionAttempts ∧
      (v.advance j).store.tasks = v.store.tasks := by
  rcases advance_cases v j with ⟨-, hv⟩ | ⟨q, -, ⟨-, stage, -, hv⟩ | ⟨-, -, hv⟩ | ⟨-, s', hok, hv⟩⟩
  · exact ⟨congrArg (·.store.executionAttempts) hv, congrArg (·.store.tasks) hv⟩
  · exact ⟨congrArg (·.store.executionAttempts) hv, congrArg (·.store.tasks) hv⟩
  · exact ⟨congrArg (·.store.executionAttempts) hv, congrArg (·.store.tasks) hv⟩
  · rw [hv, (insertResult_eq_ok hok).2.2.2]
    exact ⟨rfl, rfl⟩

theorem names_step (hn : Names v.store r) (e : Event) : Names (v.step cfg e).store r := by
  cases e with
  | call op ha => exact hn.keeps (keeps_apply cfg _ op)
  | submit c newID q => exact hn
  | advance j =>
    obtain ⟨a, ha, hrest⟩ := hn
    exact ⟨a, (congrArg (·.find? r.attemptID) (advance_keeps v j).1).trans ha, hrest⟩

theorem step_accepts (hs : Sound v) (hn : Names v.store r) (e : Event) :
    (v.step cfg e).store.accepts r = true ↔ v.store.accepts r = true ∧ ¬ e.Ends cfg r.taskID v := by
  cases e with
  | call op ha => exact accepts_apply hs.good ha hn
  | submit c newID q => exact (and_iff_left not_false).symm
  | advance j =>
    refine Iff.trans ?_ (and_iff_left not_false).symm
    obtain ⟨hattempts, htasks⟩ := advance_keeps v j
    have hsame : (v.step cfg (.advance j)).store.accepts r = v.store.accepts r := by
      simp only [accepts, step, hattempts, htasks]
    rw [hsame]

theorem run_names (hn : Names v.store r) : Names (run (step cfg) v es).store r :=
  run_invariant (I := fun v : Server => Names v.store r) (fun _ e h => names_step h e) hn

theorem run_accepts (hs : Sound v) (hn : Names v.store r) :
    (run (step cfg) v es).store.accepts r = true ↔
      v.store.accepts r = true ∧ Meets (step cfg) (fun v e => ¬ e.Ends cfg r.taskID v) v es := by
  induction es generalizing v with
  | nil => exact (and_iff_left trivial).symm
  | cons e es ih =>
    rw [run_cons, ih (hs.step e) (names_step hn e), step_accepts hs hn e, and_assoc]
    rfl

end Server

/-- What an activity check that passed before `between` says of the `INSERT` after it. The induction
is on the events between the two. -/
theorem check_at_insert {v₀ : Server} (hi : Server.Initial v₀) {before between : List Event}
    {i : Nat} {sub : Submission} (hcheck : (run (Server.step cfg) v₀ before).Checks i sub) :
    (run (Server.step cfg) v₀ (before ++ .advance i :: between)).store.checkResult sub.row =
        .insert ↔
      Meets (Server.step cfg) (fun v e => ¬ e.Ends cfg sub.row.taskID v)
        (run (Server.step cfg) v₀ (before ++ [.advance i])) between := by
  have hsound : ∀ es, Server.Sound (run (Server.step cfg) v₀ es) := fun es =>
    run_invariant (fun _ e hs => hs.step e) hi.sound
  have hstore : ((run (Server.step cfg) v₀ before).step cfg (.advance i)).store =
      (run (Server.step cfg) v₀ before).store := hcheck.step.1
  have hnames := Server.names_of_check hcheck.2.2
  have haccepts := (check_iff_accepts (hsound before).good hnames).mp hcheck.2.2
  have hmid : run (Server.step cfg) v₀ (before ++ [.advance i]) =
      (run (Server.step cfg) v₀ before).step cfg (.advance i) := run_append ..
  have hend : run (Server.step cfg) v₀ (before ++ .advance i :: between) =
      run (Server.step cfg) (run (Server.step cfg) v₀ (before ++ [.advance i])) between := by
    rw [← run_append, append_assoc]
    rfl
  have hnames' : Server.Names (run (Server.step cfg) v₀ (before ++ [.advance i])).store sub.row := by
    rw [hmid, hstore]
    exact hnames
  have hnames'' : Server.Names
      (run (Server.step cfg) v₀ (before ++ .advance i :: between)).store sub.row := by
    rw [hend]
    exact Server.run_names hnames'
  rw [check_iff_accepts (hsound _).good hnames'', hend,
    Server.run_accepts (hsound _) hnames', hmid, hstore]
  exact and_iff_right haccepts

/-- By the events: a check passes again at the `INSERT` exactly when no event since has ended its
attempt. -/
theorem checkStillHolds_iff_undisturbed {v₀ : Server} (hi : Server.Initial v₀) (es : List Event) :
    Meets (Server.step cfg) CheckStillHolds v₀ es ↔ Undisturbed cfg v₀ es := by
  rw [meets_iff_prefixes]
  constructor
  · intro h before i sub between after hes hbetween hcheck hok
    have hins := h (before ++ .advance i :: between) (.advance i) after
      (by rw [hes, append_assoc]; rfl)
    have hsub : (run (Server.step cfg) v₀ (before ++ .advance i :: between)).submissions[i]? =
        some { sub with stage := .insert } := by
      rw [run_append, run_cons]
      exact Server.run_submissions hcheck.step.2 hbetween
    obtain ⟨s', hs'⟩ := isOk_iff.mp hok
    obtain ⟨hclash, hfree, -⟩ := insertResult_eq_ok hs'
    exact (check_at_insert hi hcheck).mp
      (hins { sub with stage := .insert } hsub rfl (Table.any_eq_false.mpr hclash) hfree)
  · intro h pre e after hes
    cases e with
    | call op ha => trivial
    | submit c newID r => trivial
    | advance i =>
      intro sub hsub hst hclash hfree
      obtain ⟨before, between, rfl, hbetween, hcheck⟩ := Server.checks_before hi hsub hst
      obtain ⟨s', hs'⟩ := insertResult_of_free hclash hfree
      refine (check_at_insert hi hcheck).mpr
        (h before i _ between after (by rw [hes, append_assoc]; rfl) hbetween hcheck ?_)
      rw [hs']
      rfl

/-- **Completed attempts.** Along a run every completed attempt keeps its valid batches and its one
summary, and no row comes to an attempt that does not hold its task, exactly when no event between
the activity check of a submission and its `INSERT` ends the attempt. -/
theorem completed_attempts {v₀ : Server} (hi : Server.Initial v₀) (es : List Event) :
    Always (Server.step cfg) ResultsComplete v₀ es ↔ Undisturbed cfg v₀ es :=
  (always_complete_iff hi es).trans (checkStillHolds_iff_undisturbed hi es)

/-- A valid batch and a summary, each submitted in one go, and the completion of the attempt. -/
def completeRun : List Event :=
  Sample.claimed ++
  [Sample.submit "row of batch" (Sample.result "batch" 1 .batch "[1]" true),
    .advance 0, .advance 0, .advance 0,
    Sample.submit "row of summary" (Sample.result "summary" 2 .summary "\x7b\x7d" true),
    .advance 1, .advance 1, .advance 1,
    .call (.updateTaskStatusForAttempt (Sample.at' 20) "task" "worker" "first" .done "" "") rfl]

theorem completed_attempts_completeRun :
    (run (Server.step Sample.config) Sample.server completeRun).completed = ["first"] ∧
      Undisturbed Sample.config Sample.server completeRun :=
  ⟨by decide, (completed_attempts Sample.server_initial completeRun).mp (by decide)⟩

/-- An invalid batch that has passed its lookup and its check before the completion and runs its
`INSERT` after it. -/
def lateRun : List Event :=
  completeRun.take 10 ++
    [Sample.submit "row of late batch" (Sample.result "late batch" 3 .batch "[1]" false),
      .advance 2, .advance 2] ++
    completeRun.drop 10 ++ [.advance 2]

theorem completed_attempts_lateRun :
    (¬ ∀ cfg v₀ es, Server.Initial v₀ → ∀ id ∈ (run (Server.step cfg) v₀ es).completed,
        (run (Server.step cfg) v₀ es).store.isComplete id = true) ∧
      ¬ ∀ cfg v₀ es, Server.Initial v₀ → (run (Server.step cfg) v₀ es).late = [] := by
  refine ⟨fun h => ?_, fun h => ?_⟩
  all_goals
    have hlate := h Sample.config Sample.server lateRun Sample.server_initial
    revert hlate
    decide

end Aegis
