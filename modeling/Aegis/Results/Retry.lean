import Aegis.Results.Server

/-!
# Results.Retry

Submissions under one idempotency key: the same submission sent again, and the key used again for
something else.

A retry is recognised by its lookup only. It is acknowledged in the runs where what the lookup has
found still holds at the `INSERT`, and in those alone; otherwise the unique index refuses it.
-/

namespace Aegis

open List Result
open Store

variable {cfg : Config} {s s' : Store} {v w : Server} {r q : Result}

/-- `q` is the submission `r`, sent again. -/
def Result.isRetryOf (q r : Result) : Bool :=
  q.sameKey r && q.workerID == r.workerID && q.sequence == r.sequence && q.kind == r.kind &&
    q.payload == r.payload

/-- `q` uses the key of `r` for something else. -/
def Result.isReuseOf (q r : Result) : Bool :=
  q.sameKey r && q.workerID == r.workerID &&
    (q.sequence != r.sequence || q.kind != r.kind || q.payload != r.payload)

/-- The stored rows under the key of `r`. -/
def Store.resultsOfKey (s : Store) (r : Result) : List Result :=
  s.results.rows.filter (·.sameKey r)

/-- The attempt that `r` names is active and the current one of its task. -/
def Store.serves (s : Store) (r : Result) : Bool :=
  s.executionAttempts.any (s.isActiveFor r)

namespace Server

/-- The submissions of `r` that have been told they are the first. -/
def firsts (v : Server) (r : Result) : Nat :=
  v.submissions.countP fun sub => sub.row.isRetryOf r && sub.stage == .returned (.ok false)

/-- Every submission of `r` that has returned was acknowledged, by one stored row, and one of them
as the first. -/
structure Acknowledged (r : Result) (v : Server) : Prop where
  answered : ∀ sub ∈ v.submissions, sub.row.isRetryOf r = true → ∀ answer, sub.stage = .returned answer →
      (∃ duplicate, answer = .ok duplicate) ∧ (v.store.resultsOfKey r).length = 1
  first : v.firsts r = (v.store.resultsOfKey r).length

/-- The attempt of `r` is served in `v`, and the event starts no other submission under its key. -/
def Undisturbed (cfg : Config) (r : Result) (v : Server) (e : Event) : Prop :=
  v.store.serves r = true ∧ match e with
    | .submit c newID q =>
      (q.prepare cfg.env c newID).sameKey r = true → (q.prepare cfg.env c newID).isRetryOf r = true
    | _ => True

instance (r : Result) (v : Server) (e : Event) : Decidable (Undisturbed cfg r v e) := by
  unfold Undisturbed
  cases e <;> infer_instance

/-- A submission of `r` runs its `INSERT` only while its identifier is free and no stored row
clashes with it: none under its key, no valid batch under its sequence and no second summary. -/
def LookupStillHolds (r : Result) (v : Server) : Event → Prop
  | .advance i => ∀ sub ∈ v.submissions[i]?, sub.row.isRetryOf r = true → sub.stage = .insert →
      v.store.results.any (resultClash sub.row) = false ∧ v.store.results.find? sub.row.id = none
  | _ => True

instance (r : Result) (v : Server) : ∀ e, Decidable (LookupStillHolds r v e)
  | .advance i => inferInstanceAs (Decidable (∀ sub ∈ v.submissions[i]?, _))
  | .call _ _ | .submit _ _ _ => .isTrue trivial

/-- No submission under the key of `r` has been sent. -/
def Unsent (r : Result) (v : Server) : Prop :=
  (∀ sub ∈ v.submissions, sub.row.sameKey r = false) ∧ v.store.resultsOfKey r = []

instance (r : Result) (v : Server) : Decidable (Unsent r v) := inferInstanceAs (Decidable (_ ∧ _))

end Server

theorem Result.sameKey_iff : q.sameKey r ↔ q.workspaceID = r.workspaceID ∧
    q.taskID = r.taskID ∧ q.attemptID = r.attemptID ∧ q.idempotencyKey = r.idempotencyKey := by
  simp [sameKey, and_assoc]

theorem Result.sameKey_comm : q.sameKey r = r.sameKey q := by
  rw [Bool.eq_iff_iff, sameKey_iff, sameKey_iff]
  constructor
  all_goals
    rintro ⟨hw, ht, ha, hk⟩
    exact ⟨hw.symm, ht.symm, ha.symm, hk.symm⟩

theorem Result.sameKey_congr {p : Result} (h : q.sameKey r) : p.sameKey q = p.sameKey r := by
  obtain ⟨hw, ht, ha, hk⟩ := sameKey_iff.mp h
  simp [sameKey, hw, ht, ha, hk]

theorem Result.isRetryOf_iff : q.isRetryOf r ↔ q.sameKey r = true ∧
    q.workerID = r.workerID ∧ q.sequence = r.sequence ∧ q.kind = r.kind ∧
    q.payload = r.payload := by
  simp [isRetryOf, and_assoc]

theorem Result.isWellFormed_of_isRetryOf (h : q.isRetryOf r) : q.isWellFormed = r.isWellFormed := by
  obtain ⟨hkey, hworker, hseq, hkind, -⟩ := isRetryOf_iff.mp h
  obtain ⟨-, ht, ha, hk⟩ := sameKey_iff.mp hkey
  simp [isWellFormed, ht, ha, hk, hworker, hseq, hkind]

theorem Result.key_nonempty (h : r.isWellFormed) : r.idempotencyKey.isEmpty = false := by
  simp only [isWellFormed, Bool.and_eq_true, Bool.not_eq_true'] at h
  exact h.1.1.2

theorem clash_of_sameKey (hkey : r.idempotencyKey.isEmpty = false) (h : q.sameKey r) :
    resultClash r q := by
  obtain ⟨hw, ht, ha, hk⟩ := sameKey_iff.mp h
  simp [resultClash, hw, ht, ha, hk, hkey]

theorem Store.serves_congr (hkey : q.sameKey r) (hworker : q.workerID = r.workerID) :
    s.serves q = s.serves r := by
  obtain ⟨hw, ht, ha, -⟩ := sameKey_iff.mp hkey
  unfold serves
  congr 1
  funext a
  simp [isActiveFor, hw, ht, ha, hworker]

theorem Store.checkResult_of_serves (h : s.serves r) : s.checkResult r = .insert := by
  obtain ⟨a, ha, hact⟩ := Table.any_eq_true.mp h
  refine checkResult_eq_insert.mpr ⟨a, ?_, hact⟩
  simp only [isActiveFor, Bool.and_eq_true, beq_iff_eq] at hact
  rw [← hact.1.1.1.1.2]
  exact Table.find?_key ha

/-! ## What the submissions and their rows satisfy -/

/-- The submissions before their answer are well formed, the digests are those of the payloads,
and a key has one row. -/
structure Server.Filed (env : Env) (v : Server) : Prop where
  rows : ∀ row ∈ v.store.results.rows,
    row.isWellFormed = true ∧ row.payloadHash = env.sha256 row.payload
  submissions : ∀ sub ∈ v.submissions,
    (sub.row.isWellFormed = true ∨ ∃ answer, sub.stage = .returned answer) ∧
      sub.row.payloadHash = env.sha256 sub.row.payload
  unique : ∀ r, r.isWellFormed = true → (v.store.resultsOfKey r).length ≤ 1

section Rows

variable {env : Env}

theorem Server.Filed.wellFormed {sub : Submission} (h : v.Filed env) (hsub : sub ∈ v.submissions)
    (hs : sub.stage = .insert) : sub.row.isWellFormed = true := by
  rcases (h.submissions sub hsub).1 with hw | ⟨answer, hanswer⟩
  · exact hw
  · rw [hs] at hanswer
    cases hanswer

theorem resultsOfKey_apply (cfg : Config) (s : Store) (op : Op) :
    (op.apply cfg s).resultsOfKey q = s.resultsOfKey q := by
  unfold resultsOfKey
  rw [(keeps_apply cfg s op).results]

theorem resultsOfKey_insert (hok : s.insertResult r = .ok s') :
    s'.resultsOfKey q = s.resultsOfKey q ++ if r.sameKey q then [r] else [] := by
  unfold resultsOfKey
  rw [(insertResult_eq_ok hok).2.2.1, filter_append]
  by_cases h : r.sameKey q
  · simp [h]
  · simp [h]

theorem resultsOfKey_eq_nil (hr : r.isWellFormed) (hok : s.insertResult r = .ok s')
    (hkey : r.sameKey q) : s.resultsOfKey q = [] := by
  refine filter_eq_nil_iff.mpr fun p hp hpq => ?_
  have hclash := (insertResult_eq_ok hok).1 p hp
  have hpr : p.sameKey r := by rw [sameKey_congr hkey]; exact hpq
  rw [clash_of_sameKey (key_nonempty hr) hpr] at hclash
  cases hclash

theorem filed_of_submissions {subs : List Submission} (h : v.Filed env)
    (hsubs : ∀ sub ∈ subs, (sub.row.isWellFormed ∨ ∃ answer, sub.stage = .returned answer) ∧
      sub.row.payloadHash = env.sha256 sub.row.payload) :
    Server.Filed env { v with submissions := subs } :=
  ⟨h.rows, hsubs, h.unique⟩

theorem Server.Filed.step (h : v.Filed cfg.env) (e : Event) : (v.step cfg e).Filed cfg.env := by
  cases e with
  | call op ha =>
    refine ⟨fun row hrow => h.rows row ?_, h.submissions, fun r hr => ?_⟩
    · rw [← (keeps_apply cfg v.store op).results]
      exact hrow
    · exact (congrArg List.length (resultsOfKey_apply cfg v.store op)).trans_le (h.unique r hr)
  | submit c newID r =>
    refine filed_of_submissions h fun sub hsub => ?_
    rcases mem_append.mp hsub with hsub | hsub
    · exact h.submissions sub hsub
    · obtain rfl := mem_singleton.mp hsub
      refine ⟨?_, rfl⟩
      by_cases hw : (r.prepare cfg.env c newID).isWellFormed
      · exact .inl hw
      · exact .inr ⟨_, if_neg hw⟩
  | advance i =>
    simp only [Server.step]
    rcases advance_cases v i with ⟨-, hv⟩ | ⟨sub, hi, hcases⟩
    · rwa [hv]
    obtain ⟨hwf, hdigest⟩ := h.submissions sub (mem_of_getElem? hi)
    rcases hcases with ⟨hs, stage, hstep, hv⟩ | ⟨-, -, hv⟩ | ⟨hs, s', hok, hv⟩
    · rw [hv]
      refine filed_of_submissions h (forall_set h.submissions ⟨?_, hdigest⟩)
      rcases hwf with hwf | ⟨answer, hanswer⟩
      · exact .inl hwf
      · rw [hanswer] at hstep
        exact .inr ⟨answer, (Prod.mk.inj hstep).2.symm⟩
    · rw [hv]
      exact filed_of_submissions h (forall_set h.submissions ⟨.inr ⟨_, rfl⟩, hdigest⟩)
    · rw [hv]
      have hrow := h.wellFormed (mem_of_getElem? hi) hs
      refine ⟨fun row hmem => ?_, forall_set h.submissions ⟨.inl hrow, hdigest⟩, fun r hr => ?_⟩
      · rw [(insertResult_eq_ok hok).2.2.1] at hmem
        rcases mem_append.mp hmem with hmem | hmem
        · exact h.rows row hmem
        · obtain rfl := mem_singleton.mp hmem
          exact ⟨hrow, hdigest⟩
      · rw [resultsOfKey_insert hok]
        by_cases hkey : sub.row.sameKey r
        · simp [resultsOfKey_eq_nil hrow hok hkey, hkey]
        · simpa [hkey] using h.unique r hr

theorem Server.Reachable.filed (hr : Server.Reachable cfg v) : v.Filed cfg.env := by
  obtain ⟨v₀, es, hi, rfl⟩ := hr
  refine run_invariant (fun _ e h => h.step e) ⟨?_, ?_, ?_⟩
  · simp [hi.store.results]
  · simp [hi.submissions]
  · intro r _
    simp [resultsOfKey, hi.store.results]

end Rows

namespace Server

/-- Whatever has been sent under the key of `r` is a submission of `r`. -/
structure Sole (r : Result) (v : Server) : Prop where
  rows : ∀ row ∈ v.store.resultsOfKey r, row.isRetryOf r = true
  submissions : ∀ sub ∈ v.submissions, sub.row.sameKey r = true → sub.row.isRetryOf r = true

theorem Sole.step (h : Sole r v) {e : Event} (hund : Undisturbed cfg r v e) : Sole r (v.step cfg e) := by
  cases e with
  | call op ha =>
    refine ⟨fun row hrow => h.rows row ?_, h.submissions⟩
    rw [← resultsOfKey_apply cfg v.store op]
    exact hrow
  | submit c newID p =>
    refine ⟨h.rows, fun sub hsub => ?_⟩
    rcases mem_append.mp hsub with hsub | hsub
    · exact h.submissions sub hsub
    · obtain rfl := mem_singleton.mp hsub
      exact hund.2
  | advance i =>
    simp only [Server.step]
    rcases advance_cases v i with ⟨-, hv⟩ | ⟨sub, hi, hcases⟩
    · rwa [hv]
    have hsub := h.submissions sub (mem_of_getElem? hi)
    rcases hcases with ⟨-, stage, -, hv⟩ | ⟨-, -, hv⟩ | ⟨-, s', hok, hv⟩
    · rw [hv]
      exact ⟨h.rows, forall_set h.submissions hsub⟩
    · rw [hv]
      exact ⟨h.rows, forall_set h.submissions hsub⟩
    · rw [hv]
      refine ⟨fun row hrow => ?_, forall_set h.submissions hsub⟩
      rw [resultsOfKey_insert hok] at hrow
      rcases mem_append.mp hrow with hrow | hrow
      · exact h.rows row hrow
      · split at hrow
        · rename_i hkey
          rw [mem_singleton.mp hrow]
          exact hsub hkey
        · cases hrow

theorem sameContent_of_retries {env : Env} {p : Result} (hq : q.isRetryOf r)
    (hp : p.isRetryOf r) (hqd : q.payloadHash = env.sha256 q.payload)
    (hpd : p.payloadHash = env.sha256 p.payload) : q.sameContent p = true := by
  obtain ⟨-, -, hqs, hqk, hqp⟩ := isRetryOf_iff.mp hq
  obtain ⟨-, -, hps, hpk, hpp⟩ := isRetryOf_iff.mp hp
  simp [sameContent, hqs, hqk, hqp, hps, hpk, hpp, hqd, hpd]

variable {sub : Submission} {stage : SubmitStage}

theorem retry_step (hr : r.isWellFormed)
    (hf : v.Filed cfg.env) (hsole : Sole r v) (hserves : v.store.serves r)
    (hsub : sub ∈ v.submissions) (hretry : sub.row.isRetryOf r) (hs : sub.stage ≠ .insert)
    (hstep : v.store.submitStep sub.row sub.stage = (v.store, stage)) :
    stage = sub.stage ∨ ((∀ answer, sub.stage ≠ .returned answer) ∧ ((∀ answer, stage ≠ .returned answer) ∨
        stage = .returned (.ok true) ∧ (v.store.resultsOfKey r).length = 1)) := by
  obtain ⟨hkey, hworker, -⟩ := isRetryOf_iff.mp hretry
  cases hstage : sub.stage with
  | insert => exact absurd hstage hs
  | returned answer =>
    rw [hstage] at hstep
    exact .inl (Prod.mk.inj hstep).2.symm
  | check =>
    right
    refine ⟨nofun, .inl ?_⟩
    rw [hstage] at hstep
    obtain rfl : v.store.checkResult sub.row = stage := (Prod.mk.inj hstep).2
    rw [checkResult_of_serves ((serves_congr hkey hworker).trans hserves)]
    exact nofun
  | lookup =>
    right
    refine ⟨nofun, ?_⟩
    rw [hstage] at hstep
    obtain rfl : v.store.lookupResult sub.row = stage := (Prod.mk.inj hstep).2
    unfold lookupResult
    cases hfind : v.store.results.rows.find? (sub.row.sameKey ·) with
    | none => exact .inl nofun
    | some q =>
      right
      have hq : q ∈ v.store.resultsOfKey r := by
        refine mem_filter.mpr ⟨mem_of_find?_eq_some hfind, ?_⟩
        have := find?_some hfind
        rw [← sameKey_congr hkey, sameKey_comm]
        exact this
      have hrow := hf.rows q (mem_of_find?_eq_some hfind)
      have hcontent : q.sameContent sub.row :=
        sameContent_of_retries (hsole.rows q hq) hretry hrow.2 (hf.submissions sub hsub).2
      refine ⟨by simp [hcontent], ?_⟩
      have hpos : 0 < (v.store.resultsOfKey r).length := length_pos_of_mem hq
      have hle := hf.unique r hr
      omega

theorem countP_set {p : Submission → Bool} {l : List Submission} {i : Nat} {a b : Submission}
    (hi : l[i]? = some a) :
    (l.set i b).countP p + (if p a then 1 else 0) = l.countP p + if p b then 1 else 0 := by
  obtain ⟨hlt, rfl⟩ := List.getElem?_eq_some_iff.mp hi
  have hle : (if p l[i] then 1 else 0) ≤ l.countP p := boole_getElem_le_countP hlt
  rw [List.countP_set hlt]
  omega

theorem acknowledged_set {i : Nat} (hp : Acknowledged r v) (hi : v.submissions[i]? = some sub)
    (hnew : sub.row.isRetryOf r → ∀ answer, stage = .returned answer →
      (∃ duplicate, answer = .ok duplicate) ∧ (v.store.resultsOfKey r).length = 1)
    (hfirst : sub.row.isRetryOf r →
      (stage = .returned (.ok false) ↔ sub.stage = .returned (.ok false))) :
    Acknowledged r { v with submissions := v.submissions.set i { sub with stage := stage } } := by
  refine ⟨forall_set hp.answered hnew, ?_⟩
  rw [← hp.first]
  unfold firsts
  have hcount := countP_set (b := { sub with stage := stage })
    (p := fun sub => sub.row.isRetryOf r && sub.stage == .returned (.ok false)) hi
  by_cases hretry : sub.row.isRetryOf r
  · simp only [hretry, Bool.true_and, beq_iff_eq, hfirst hretry] at hcount
    simpa using hcount
  · simpa [hretry] using hcount

theorem advance_acknowledged {i : Nat} (hr : r.isWellFormed) (hf : v.Filed cfg.env)
    (hsole : Sole r v) (hserves : v.store.serves r) (hp : Acknowledged r v) :
    Acknowledged r (v.advance i) ↔ LookupStillHolds r v (.advance i) := by
  simp only [LookupStillHolds]
  rcases advance_cases v i with ⟨hi, hv⟩ | ⟨sub, hi, hcases⟩
  · rw [hv, hi]
    simp [hp]
  rw [hi]
  have hsub := mem_of_getElem? hi
  rcases hcases with ⟨hs, stage, hstep, hv⟩ | ⟨hs, ⟨e, he⟩, hv⟩ | ⟨hs, s', hok, hv⟩
  · rw [hv]
    refine iff_of_true ?_ ?_
    · refine acknowledged_set hp hi (fun hretry answer hanswer => ?_) fun hretry => ?_
      · rcases retry_step hr hf hsole hserves hsub hretry hs hstep with h | ⟨-, h | ⟨h, hone⟩⟩
        · exact hp.answered sub hsub hretry answer (h ▸ hanswer)
        · exact absurd hanswer (h answer)
        · rw [h] at hanswer
          cases hanswer
          exact ⟨⟨true, rfl⟩, hone⟩
      · rcases retry_step hr hf hsole hserves hsub hretry hs hstep with h | ⟨h₀, h | ⟨h, -⟩⟩
        · rw [h]
        · exact iff_of_false (h _) (h₀ _)
        · rw [h]
          exact iff_of_false (fun h => by cases h) (h₀ _)
    · rintro q hq - hqs
      cases hq
      exact absurd hqs hs
  · -- a refused `INSERT` of `r` is an answer that is no acknowledgement
    rw [hv]
    by_cases hretry : sub.row.isRetryOf r
    · refine iff_of_false (fun h => ?_) fun h => ?_
      · have hmem : { sub with stage := .returned (.error .resultConflict) } ∈
            v.submissions.set i { sub with stage := .returned (.error .resultConflict) } :=
          List.mem_set (List.getElem?_eq_some_iff.mp hi).1 _
        obtain ⟨⟨duplicate, hd⟩, -⟩ := h.answered _ hmem hretry _ rfl
        cases hd
      · obtain ⟨hclash, hfree⟩ := h sub rfl hretry hs
        obtain ⟨s', hs'⟩ := insertResult_of_free hclash hfree
        rw [he] at hs'
        cases hs'
    · refine iff_of_true ?_ ?_
      · exact acknowledged_set hp hi (fun h => absurd h hretry) fun h => absurd h hretry
      · rintro q hq hqr
        cases hq
        exact absurd hqr hretry
  · rw [hv]
    obtain ⟨hclash, hfree, -, -⟩ := insertResult_eq_ok hok
    refine iff_of_true ?_ ?_
    · have hrow := hf.wellFormed hsub hs
      have hrows := resultsOfKey_insert (q := r) hok
      have hcount := countP_set (b := { sub with stage := .returned (.ok false) })
        (p := fun sub => sub.row.isRetryOf r && sub.stage == .returned (.ok false)) hi
      by_cases hretry : sub.row.isRetryOf r
      · -- the first row of the key
        have hkey := (isRetryOf_iff.mp hretry).1
        have hnil := resultsOfKey_eq_nil hrow hok hkey
        rw [hnil, if_pos hkey] at hrows
        have hzero : v.firsts r = 0 := by rw [hp.first, hnil]; rfl
        refine ⟨forall_set (fun p hpm hpr answer hanswer => ?_) fun _ answer hanswer => ?_, ?_⟩
        · have hone := (hp.answered p hpm hpr answer hanswer).2
          rw [hnil] at hone
          cases hone
        · cases hanswer
          exact ⟨⟨false, rfl⟩, by rw [hrows]; rfl⟩
        · unfold firsts at hzero ⊢
          rw [hrows]
          simpa [hretry, hs, hzero] using hcount
      · have hkey : sub.row.sameKey r = false := by
          by_contra h
          exact hretry (hsole.submissions sub hsub (by simpa using h))
        rw [if_neg (by simp [hkey]), append_nil] at hrows
        refine ⟨forall_set ?_ fun h => absurd h hretry, ?_⟩
        · rw [hrows]
          exact hp.answered
        · rw [hrows, ← hp.first]
          unfold firsts
          simpa [hretry] using hcount
    · rintro q hq - -
      cases hq
      exact ⟨Table.any_eq_false.mpr hclash, hfree⟩

/-- One event leaves the row acknowledged exactly when the lookup of its retry still holds. -/
theorem step_acknowledged {e : Event} (hr : r.isWellFormed) (hf : v.Filed cfg.env)
    (hsole : Sole r v) (hund : Undisturbed cfg r v e) (hp : Acknowledged r v) :
    Acknowledged r (v.step cfg e) ↔ LookupStillHolds r v e := by
  cases e with
  | call op ha =>
    have hrows : (v.step cfg (.call op ha)).store.resultsOfKey r = v.store.resultsOfKey r :=
      resultsOfKey_apply cfg v.store op
    refine iff_of_true ⟨?_, ?_⟩ trivial
    · rw [hrows]
      exact hp.answered
    · rw [hrows]
      exact hp.first
  | submit c newID p =>
    refine iff_of_true ⟨fun sub hsub hretry answer hanswer => ?_, ?_⟩ trivial
    · rcases mem_append.mp hsub with hsub | hsub
      · exact hp.answered sub hsub hretry answer hanswer
      · obtain rfl := mem_singleton.mp hsub
        have hw := (isWellFormed_of_isRetryOf hretry).trans hr
        simp [submitStart, hw] at hanswer
    · rw [show (v.step cfg (.submit c newID p)).store = v.store from rfl, ← hp.first]
      have hstart : submitStart (p.prepare cfg.env c newID) ≠ .returned (.ok false) := by
        unfold submitStart
        split <;> exact nofun
      simp [firsts, step, hstart]
  | advance i => exact advance_acknowledged hr hf hsole hund.1 hp

/-- The submission of `sub.row` uses the key of `q` for something else, its payload not being told
from that of `q` by accident of the digest only. -/
def Reuses (env : Env) (q : Result) (sub : Submission) : Prop :=
  sub.row.isReuseOf q = true ∧
    (env.sha256 sub.row.payload = env.sha256 q.payload → sub.row.payload = q.payload)

/-- `q` is the only row of its key in `w`, and the submissions that use the key for something else,
those answered in `v` apart, have no answer or a conflict. -/
structure Refuses (env : Env) (q : Result) (v w : Server) : Prop where
  rows : w.store.resultsOfKey q = [q]
  refused : ∀ (i : Nat) (sub : Submission) (answer : Except StoreError Bool),
    w.submissions[i]? = some sub → Reuses env q sub →
    (∀ sub₀ ∈ v.submissions[i]?, ∀ answer, sub₀.stage ≠ .returned answer) →
    sub.stage = .returned answer → answer = .error .resultConflict

theorem not_sameContent {env : Env} (h : Reuses env q sub) (hq : q.payloadHash = env.sha256 q.payload)
    (hs : sub.row.payloadHash = env.sha256 sub.row.payload) : q.sameContent sub.row = false := by
  obtain ⟨hreuse, hdigest⟩ := h
  by_contra hsame
  simp only [sameContent, Bool.not_eq_false, Bool.and_eq_true, beq_iff_eq] at hsame
  obtain ⟨⟨hhash, hseq⟩, hkind⟩ := hsame
  have hpayload : sub.row.payload = q.payload := hdigest (by rw [← hs, ← hq, hhash])
  simp [isReuseOf, hseq, hkind, hpayload] at hreuse

theorem insertResult_occupied (hrows : s.resultsOfKey q = [q]) (hr : r.isWellFormed)
    (hkey : r.sameKey q) : s.insertResult r ≠ .ok s' := by
  intro hok
  rw [resultsOfKey_eq_nil hr hok hkey] at hrows
  cases hrows

theorem reuse_step (hf : w.Filed cfg.env)
    (hrows : w.store.resultsOfKey q = [q]) (hserves : w.store.serves q)
    (hsub : sub ∈ w.submissions) (hreuse : Reuses cfg.env q sub) (hs : sub.stage ≠ .insert)
    (hstep : w.store.submitStep sub.row sub.stage = (w.store, stage)) :
    stage = sub.stage ∨ ∀ answer, stage = .returned answer → answer = .error .resultConflict := by
  have hq : q ∈ w.store.results.rows := by
    have hmem : q ∈ w.store.resultsOfKey q := by rw [hrows]; exact mem_singleton_self q
    exact (mem_filter.mp hmem).1
  have hkey : sub.row.sameKey q ∧ sub.row.workerID = q.workerID := by
    have := hreuse.1
    simp only [isReuseOf, Bool.and_eq_true, beq_iff_eq] at this
    exact this.1
  cases hstage : sub.stage with
  | insert => exact absurd hstage hs
  | returned answer =>
    rw [hstage] at hstep
    exact .inl (Prod.mk.inj hstep).2.symm
  | check =>
    right
    rw [hstage] at hstep
    obtain rfl : w.store.checkResult sub.row = stage := (Prod.mk.inj hstep).2
    rw [checkResult_of_serves ((serves_congr hkey.1 hkey.2).trans hserves)]
    exact nofun
  | lookup =>
    right
    rw [hstage] at hstep
    obtain rfl : w.store.lookupResult sub.row = stage := (Prod.mk.inj hstep).2
    unfold lookupResult
    cases hfind : w.store.results.rows.find? (sub.row.sameKey ·) with
    | none =>
      have hnone := List.find?_eq_none.mp hfind q hq
      exact absurd hkey.1 hnone
    | some p =>
      have hp : p ∈ w.store.resultsOfKey q := by
        refine mem_filter.mpr ⟨mem_of_find?_eq_some hfind, ?_⟩
        have := find?_some hfind
        rw [← sameKey_congr hkey.1, sameKey_comm]
        exact this
      rw [hrows] at hp
      obtain rfl := mem_singleton.mp hp
      have hcontent := not_sameContent hreuse (hf.rows p hq).2 (hf.submissions sub hsub).2
      intro answer hanswer
      simp only [hcontent, Bool.false_eq_true, if_false] at hanswer
      cases hanswer
      rfl

/-- A key that is taken refuses other contents after every event. -/
theorem Refuses.step {e : Event} (hf : w.Filed cfg.env) (hserves : w.store.serves q)
    (h : Refuses cfg.env q v w) : Refuses cfg.env q v (w.step cfg e) := by
  cases e with
  | call op ha => exact ⟨(resultsOfKey_apply cfg w.store op).trans h.rows, h.refused⟩
  | submit c newID p =>
    refine ⟨h.rows, fun i sub answer hi hreuse hopen hanswer => ?_⟩
    have hi' := hi
    rw [show (w.step cfg (.submit c newID p)).submissions = w.submissions ++ [_] from rfl,
      getElem?_append] at hi'
    split at hi'
    · exact h.refused i sub answer hi' hreuse hopen hanswer
    · rw [getElem?_singleton] at hi'
      split at hi'
      · cases hi'
        unfold submitStart at hanswer
        split at hanswer
        · cases hanswer
        · cases hanswer
          rfl
      · cases hi'
  | advance i =>
    simp only [Server.step]
    rcases advance_cases w i with ⟨-, hw⟩ | ⟨sub, hi, hcases⟩
    · rwa [hw]
    have hsub := mem_of_getElem? hi
    have refused_set : ∀ stage, (Reuses cfg.env q sub → stage = sub.stage ∨
        ∀ answer, stage = .returned answer → answer = .error .resultConflict) →
        ∀ (j : Nat) (p : Submission) (answer : Except StoreError Bool),
          (w.submissions.set i { sub with stage := stage })[j]? = some p → Reuses cfg.env q p →
          (∀ sub₀ ∈ v.submissions[j]?, ∀ answer, sub₀.stage ≠ .returned answer) →
          p.stage = .returned answer → answer = .error .resultConflict := by
      intro stage hstage j p answer hj hreuse hopen hanswer
      rw [getElem?_set] at hj
      split at hj
      · rename_i hij
        subst hij
        split at hj
        · cases hj
          rcases hstage hreuse with hsame | hnew
          · exact h.refused i sub answer hi hreuse hopen (hsame ▸ hanswer)
          · exact hnew answer hanswer
        · cases hj
      · exact h.refused j p answer hj hreuse hopen hanswer
    rcases hcases with ⟨hs, stage, hstep, hw⟩ | ⟨-, -, hw⟩ | ⟨hs, s', hok, hw⟩
    · rw [hw]
      refine ⟨h.rows, refused_set stage fun hreuse => ?_⟩
      exact reuse_step hf h.rows hserves hsub hreuse hs hstep
    · rw [hw]
      refine ⟨h.rows, refused_set _ fun _ => .inr fun answer hanswer => ?_⟩
      cases hanswer
      rfl
    · have hrow := hf.wellFormed hsub hs
      have hkey : sub.row.sameKey q = false := by
        by_contra hkey
        exact insertResult_occupied h.rows hrow (by simpa using hkey) hok
      rw [hw]
      refine ⟨?_, refused_set _ fun hreuse => ?_⟩
      · exact (resultsOfKey_insert hok).trans (by simp [hkey, h.rows])
      · have := hreuse.1
        simp [isReuseOf, hkey] at this

/-- How a reachable server settles the submissions under one key. -/
structure SettlesRetries (cfg : Config) (v : Server) : Prop where
  /-- While their attempt is served and nothing else uses their key, the submissions of `r` are
  acknowledged exactly in the runs that meet the condition. -/
  retries : ∀ r es, r.isWellFormed = true → Unsent r v → Meets (Server.step cfg) (Undisturbed cfg r) v es →
    (Always (Server.step cfg) (Acknowledged r) v es ↔ Meets (Server.step cfg) (LookupStillHolds r) v es)
  /-- While its attempt is served, a stored row refuses every other use of its key. -/
  reuses : ∀ q ∈ v.store.results.rows, ∀ es,
    Meets (Server.step cfg) (fun w _ => w.store.serves q = true) v es →
    Refuses cfg.env q v (run (Server.step cfg) v es)

theorem Unsent.acknowledged (h : Unsent r v) : Acknowledged r v := by
  refine ⟨fun sub hsub hretry => ?_, ?_⟩
  · rw [isRetryOf_iff, h.1 sub hsub] at hretry
    cases hretry.1
  · rw [h.2]
    refine countP_eq_zero.mpr fun sub hsub => ?_
    simp [isRetryOf, h.1 sub hsub]

theorem Unsent.sole (h : Unsent r v) : Sole r v := by
  refine ⟨fun row hrow => ?_, fun sub hsub hkey => ?_⟩
  · rw [h.2] at hrow
    cases hrow
  · rw [h.1 sub hsub] at hkey
    cases hkey

theorem Filed.refuses (h : v.Filed cfg.env) (hq : q ∈ v.store.results.rows) : Refuses cfg.env q v v := by
  refine ⟨?_, fun i sub answer hi _ hopen hanswer => absurd hanswer (hopen sub hi answer)⟩
  have hmem : q ∈ v.store.resultsOfKey q :=
    mem_filter.mpr ⟨hq, sameKey_iff.mpr ⟨rfl, rfl, rfl, rfl⟩⟩
  have hle := h.unique q (h.rows q hq).1
  obtain ⟨p, hp⟩ := length_eq_one_iff.mp (Nat.le_antisymm hle (length_pos_of_mem hmem))
  rw [hp] at hmem ⊢
  rw [mem_singleton.mp hmem]

end Server

/-- **Retries of a result.** What is sent again under its key is acknowledged by one row exactly
while the lookup of a submission still holds at its `INSERT`, and a stored row refuses every other
use of its key. -/
theorem result_retries (hr : Server.Reachable cfg v) : Server.SettlesRetries cfg v where
  retries r es hw hunsent hund := by
    refine always_iff_meets_within (I := fun v => v.Filed cfg.env ∧ Server.Sole r v) hund
      ⟨hr.filed, hunsent.sole⟩ (fun _ e h hu => ⟨h.1.step e, h.2.step hu⟩) hunsent.acknowledged ?_
    exact fun _ e h hu hp => Server.step_acknowledged hw h.1 h.2 hu hp
  reuses q hq es hserves := by
    have := hserves.invariant (I := fun w => w.Filed cfg.env ∧ Server.Refuses cfg.env q v w)
      ⟨hr.filed, hr.filed.refuses hq⟩ fun _ e h hs => ⟨h.1.step e, h.2.step h.1 hs⟩
    exact this.2

def claimedServer : Server := run (Server.step Sample.config) Sample.server Sample.claimed

def sampleBatch : Result :=
  (Sample.result "batch" 1 .batch "[1]" true).prepare Sample.config.env (Sample.at' 10) "row"

def retryRun : List Event :=
  [Sample.submit "row" (Sample.result "batch" 1 .batch "[1]" true), .advance 0, .advance 0, .advance 0,
    Sample.submit "other row" (Sample.result "batch" 1 .batch "[1]" true), .advance 1]

theorem result_retries_retryRun :
    ((run (Server.step Sample.config) claimedServer retryRun).submissions.map (·.stage)) =
        [.returned (.ok false), .returned (.ok true)] ∧
      Always (Server.step Sample.config) (Server.Acknowledged sampleBatch) claimedServer retryRun :=
  ⟨by decide, ((result_retries ⟨_, _, Sample.server_initial, rfl⟩).retries sampleBatch retryRun
    (by decide) (by decide) (by decide)).mpr (by decide)⟩

/-- The batch sent twice at once: both lookups and both checks run before the first `INSERT`. -/
def raceRun : List Event :=
  [Sample.submit "row" (Sample.result "batch" 1 .batch "[1]" true),
    Sample.submit "other row" (Sample.result "batch" 1 .batch "[1]" true),
    .advance 0, .advance 1, .advance 0, .advance 1, .advance 0, .advance 1]

theorem result_retries_raceRun :
    ¬ ∀ cfg v r es, Server.Reachable cfg v → r.isWellFormed = true → Server.Unsent r v →
      Meets (Server.step cfg) (Server.Undisturbed cfg r) v es →
      ∀ sub ∈ (run (Server.step cfg) v es).submissions, sub.row.isRetryOf r = true →
        sub.stage ≠ .returned (.error .resultConflict) := by
  intro h
  have hrace := h Sample.config claimedServer sampleBatch raceRun ⟨_, _, Sample.server_initial, rfl⟩
    (by decide) (by decide) (by decide)
  revert hrace
  decide

end Aegis
