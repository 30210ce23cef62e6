import Aegis.Replay.Ending
import Mathlib.Data.List.Perm.Basic

/-!
# Replay.Steps

Every sole segment keeps the invariant, and the invariant gives one outcome.
-/

namespace Aegis

open List Option

namespace ReplaySessions

namespace Background

variable {b b' : Background} {n m : TaskID} {status : Status} {job : Job} {verdict : Verdict}

/-! ## Steps -/

theorem unended_of_live (ha : b.active = some n) (hlive : b.live n) : b.unended = true := by
  simp [unended, ha, hlive]

theorem Inv.endFailure (h : Inv b) (hopen : b.unended) : Inv (b.endActive .failure true .nothing) :=
  h.endActive .nothing hopen (by simp) (by simp)

theorem Inv.proceedClosed {closing : Closing} (h : Inv b)
    (hopen : ∀ dsl, closing = .start dsl → b.unended = true) : Inv (b.proceedClosed closing) := by
  cases closing with
  | start dsl => exact h.endActive (.start dsl) (hopen dsl rfl) (by simp) (by simp)
  | abort => exact h.globals rfl rfl rfl rfl rfl rfl
  | recover => exact h.spawn trivial (by simp [Job.claim])

theorem Inv.recoverTab (h : Inv b) (hmay : b.mayResume verdict (.recoverTab n)) :
    Inv (b.resume verdict (.recoverTab n)) := by
  simp only [mayResume, resume] at hmay ⊢
  split
  · rename_i hcase
    rw [if_pos (by simpa using hcase)] at hmay
    simp only [Bool.and_eq_true, Bool.not_eq_true'] at hmay
    exact (h.clearStorage hmay.2 hmay.1).globals rfl rfl rfl rfl rfl rfl
  · rename_i hcase
    rw [if_neg (by simpa using hcase)] at hmay
    simp only [Bool.and_eq_true, isNone_iff_eq_none] at hmay
    exact (h.activate hmay.1 hmay.2).spawn trivial (by simp [Job.claim])

theorem Inv.cleanup {closeTab : Bool} {next : Point} {after : After}
    (h : Inv (b.spawn (.cleanup n status closeTab next after)))
    (hmay : b.mayResume verdict (.cleanup n status closeTab next after)) :
    Inv (b.resume verdict (.cleanup n status closeTab next after)) := by
  cases next with
  | idleAlarm =>
    have hlow : Inv ((b.modify n fun s => { s with idle := false }).spawn
        (.cleanup n status closeTab .idleAlarm after)) :=
      h.lower (n := n) (fun s => { s with idle := false }) rfl rfl rfl rfl rfl rfl id (by simp)
        id id id fun _ => id
    refine hlow.advance (fun hcl => ?_) (by simp)
    exact ⟨hcl.listening, hcl.total, hcl.memory, hcl.untold, fun _ => by simp,
      by rintro (hp | hp) <;> cases hp⟩
  | abortRunner =>
    refine h.advance (fun hcl => ?_) (by simp)
    exact ⟨hcl.listening, hcl.total, hcl.memory, hcl.untold, fun _ => hcl.idle (by simp),
      by rintro (hp | hp) <;> cases hp⟩
  | storage =>
    have hok := jobOK_of_spawn h
    have hnot : (b.spawn (.cleanup n status closeTab .storage after)).live n = false := by
      have hhead := hok.2.1
      by_contra hlive
      have ho := ((h.session n).of_live (by simpa using hlive)).2.1
      have ho : (b.sessions n).outcomes = [] := ho
      simp [ho] at hhead
    have hclear := h.clearStorage (n := n) hmay hnot
    refine Inv.advance (b := b.clearStorage n) hclear (fun hcl => ?_) (by simp)
    refine ⟨hcl.listening, hcl.total, hcl.memory, hcl.untold, fun _ => hcl.idle (by simp), ?_⟩
    intro _
    simp [Background.clearStorage]
  | tab =>
    cases closeTab with
    | false =>
      refine h.advance (fun hc => ?_) (by simp)
      exact ⟨hc.listening, hc.total, hc.memory, hc.untold, fun _ => hc.idle (by simp),
        fun _ => hc.keys (.inl rfl)⟩
    | true =>
      refine (h.closeTab_spawn n).advance (fun hc => ?_) fun _ => .inr (.inl closeTab_closed)
      exact ⟨hc.listening, hc.total, hc.memory, hc.untold, fun _ => hc.idle (by simp),
        fun _ => hc.keys (.inl rfl)⟩
  | broadcast => exact h.broadcast hmay

theorem Inv.armed {next : Background} (h : Inv b) (hmay : b.mayArm n)
    (hnext : next = b.modify n fun s => { s with idle := true }) : Inv next := by
  have hraised := h.raise true false hmay
  have heq : (fun s : Session => { s with idle := s.idle || true, context := s.context || false }) =
      fun s => { s with idle := true } := by
    funext s
    simp
  rw [hnext, ← heq]
  exact hraised

theorem perm_eraseIdx {k : Nat} (hjob : b.jobs[k]? = some job) :
    b.jobs.Perm (job :: b.jobs.eraseIdx k) := by
  obtain ⟨hlt, rfl⟩ := List.getElem?_eq_some_iff.mp hjob
  exact (getElem_cons_eraseIdx_perm hlt).symm

theorem Inv.resume (h : Inv (b.spawn job))
    (hmay : b.mayResume verdict job) : Inv (b.resume verdict job) := by
  cases job with
  | cleanup n status closeTab next after => exact h.cleanup hmay
  | completing n status read after => exact h.complete verdict
  | told after => exact (h.drop rfl).proceed after
  | retaining n => exact h.retained hmay
  | forget read closing =>
    refine h.forget fun n hr htab => ?_
    simpa [mayResume, hr, htab] using hmay
  | release read closing =>
    cases read with
    | none =>
      refine (h.drop rfl).proceedClosed ?_
      rintro dsl rfl
      exact hmay
    | some n => exact h.release
  | released closing =>
    refine (h.drop rfl).proceedClosed ?_
    rintro dsl rfl
    exact hmay
  | created n => exact h.store hmay
  | stored n =>
    simp only [mayResume, Bool.and_eq_true, isNone_iff_eq_none] at hmay
    exact ((h.drop rfl).activate hmay.1 hmay.2).spawn trivial (by simp [Job.claim])
  | armed n =>
    have hb : Inv { b with serial := false } := (h.drop rfl).globals rfl rfl rfl rfl rfl rfl
    exact (hb.armed (n := n) hmay rfl).spawn trivial (by simp [Job.claim])
  | booting n =>
    have hb := h.drop rfl
    simp only [Background.resume]
    split
    · rename_i hcase
      simp only [Bool.and_eq_true, decide_eq_true_eq, beq_iff_eq] at hcase
      have hlive : b.live n := by
        simpa [mayResume, hcase.1, hcase.2] using hmay
      exact hb.endFailure (unended_of_live hcase.2 hlive)
    · exact hb
  | visited n =>
    have hb := h.drop rfl
    cases verdict with
    | gone => exact hb
    | refused =>
      simp only [mayResume, Bool.and_eq_true] at hmay
      exact hb.endFailure hmay.2
    | passed =>
      exact (hb.persist hmay).spawn trivial (by simp [Job.claim])
  | hopped n => exact (h.drop rfl).spawn trivial (by simp [Job.claim])
  | resuming n payload =>
    have hb := h.drop rfl
    cases payload with
    | true => exact hb.spawn trivial (by simp [Job.claim])
    | false =>
      simp only [mayResume, Bool.false_or, Bool.and_eq_true] at hmay
      exact hb.endFailure hmay.2
  | injected n =>
    have hb := h.drop rfl
    simp only [Background.resume]
    split
    · rename_i hrefused
      simp only [mayResume, hrefused, bne_self_eq_false, Bool.false_or, Bool.and_eq_true] at hmay
      exact hb.endFailure hmay.2
    · exact hb
  | removed n =>
    have hb := h.drop rfl
    simp only [Background.resume]
    split
    · rename_i hlistening
      have hopen : b.unended := by simpa [mayResume, hlistening] using hmay
      refine hb.endActive .nothing hopen (by simp) fun m hm _ => ?_
      -- the listener is that of the session in memory
      have hactive := (hb.session n).listening hlistening
      obtain rfl := mem_unique hm hactive
      exact (jobOK_of_spawn h).2
    · exact hb
  | alarm n total read =>
    have hb := h.drop rfl
    simp only [Background.resume]
    split
    · rename_i hcase
      simp only [mayResume] at hmay
      have hpair : b.live n ∧ b.active ≠ some n := by
        simp only [Bool.and_eq_true, decide_eq_true_eq, Bool.or_eq_true] at hcase
        rcases hcase.2 with hcase' | hcase' <;> simpa [hcase.1, hcase'] using hmay
      exact hb.cleanupStored hpair.1 hpair.2
    · exact hb
  | finishing n status fits session retained =>
    have hb := h.drop rfl
    simp only [Background.resume]
    split
    · exact hb
    · rename_i hretained
      simp only [mayResume, beq_iff_eq, hretained, Bool.or_eq_true, false_or, Bool.and_eq_true,
        bne_iff_ne, Bool.not_eq_true'] at hmay
      rw [if_pos (by simpa using hmay.1)]
      exact hb.closeTab n
  | finished n status | reported n status => exact absurd (jobOK_of_spawn h) id
  | recovering retained =>
    have hb := h.drop rfl
    simp only [Background.resume]
    split
    · refine hb.spawn ?_ (by simp [Job.claim])
      cases hr : b.retainedKey with
      | none => trivial
      | some n => exact (hb.session n).retained hr
    · exact hb.spawn trivial (by simp [Job.claim])
  | recoverSession read =>
    have hb := h.drop rfl
    cases read with
    | none => exact hb.globals rfl rfl rfl rfl rfl rfl
    | some n =>
      simp only [Background.resume]
      split
      · rename_i hrefused
        simp only [mayResume, hrefused, bne_self_eq_false, Bool.false_or, Bool.and_eq_true,
          Bool.not_eq_true'] at hmay
        exact (hb.clearStorage hmay.2 hmay.1).globals rfl rfl rfl rfl rfl rfl
      · exact hb.spawn trivial (by simp [Job.claim])
  | recoverTab n => exact (h.drop rfl).recoverTab hmay
  | rearmed n =>
    have hb : Inv { b with recoveryInFlight := false } :=
      (h.drop rfl).globals rfl rfl rfl rfl rfl rfl
    have harmed := hb.armed (n := n) hmay rfl
    simp only [Background.resume]
    split
    · exact harmed.spawn trivial (by simp [Job.claim])
    · exact harmed

theorem mayResume_erase {k : Nat} (hjob : b.jobs[k]? = some job)
    (hmay : b.mayResume verdict job) :
    ({ b with jobs := b.jobs.eraseIdx k } : Background).mayResume verdict job := by
  have hahead : ∀ p n, (∀ m, job.claim ≠ some m) → b.ahead p n = true →
      ({ b with jobs := b.jobs.eraseIdx k } : Background).ahead p n := by
    intro p n hne hmay
    rcases ahead_iff.mp hmay with hlive | ha | ⟨other, hother, hcleaning⟩
    · exact ahead_iff.mpr (.inl hlive)
    · exact ahead_iff.mpr (.inr (.inl ha))
    · refine ahead_iff.mpr (.inr (.inr ⟨other, ?_, hcleaning⟩))
      rcases mem_cons.mp ((perm_eraseIdx hjob).mem_iff.mp hother) with rfl | hold
      · obtain ⟨status, closeTab, next, after, rfl, -⟩ := cleaning_iff.mp hcleaning
        exact absurd rfl (hne n)
      · exact hold
  cases job with
  | armed n | rearmed n => exact hahead _ n (by simp [Job.claim]) hmay
  | visited n =>
    cases verdict with
    | passed =>
      simp only [mayResume, mayPersist, Bool.and_eq_true] at hmay ⊢
      exact ⟨hahead _ n (by simp [Job.claim]) hmay.1, hmay.2⟩
    | _ => exact hmay
  | cleanup n status closeTab next after => cases next <;> exact hmay
  | release read closing => cases read <;> cases closing <;> exact hmay
  | released closing => cases closing <;> exact hmay
  | recoverSession read => cases read <;> exact hmay
  | _ => exact hmay

theorem Inv.init : Inv init where
  job job hjob := by cases hjob
  apart := nodup_nil
  session n := by
    constructor
    case fresh => exact fun _ => ⟨rfl, rfl⟩
    case unbegun =>
      exact fun _ => ⟨by simp [Background.init], by simp [Background.init], rfl, rfl, rfl, rfl⟩
    case untold => exact fun _ => ⟨rfl, rfl⟩
    case stored => exact nofun
    case listening => exact nofun
    case active => exact nofun
    case ended => exact nofun
    case held => exact nofun
    case retained => exact nofun

theorem Inv.forgetting (h : Inv b) (closing : Closing) : Inv (b.spawn (.forget b.retainedKey closing)) := by
  refine h.spawn ?_ (by simp [Job.claim])
  cases hr : b.retainedKey with
  | none => trivial
  | some n => exact (h.session n).retained hr

/-- A sole event keeps the invariant. -/
theorem Inv.step {e : Event} (h : Inv b) (hsole : b.sole e) : Inv (b.step e) := by
  cases e with
  | start dsl =>
    simp only [Background.step]
    split
    · exact h
    · cases dsl with
      | false =>
        exact (h.globals (c := { b with serial := true })
          rfl rfl rfl rfl rfl rfl).forgetting (.start false)
      | true =>
        exact (h.globals (c := { b.startDSLReplay with serial := true })
          rfl rfl rfl rfl rfl rfl).forgetting (.start true)
  | abort =>
    simp only [Background.step]
    split
    · exact h
    · rename_i hserial
      have hb : Inv { b with serial := true } := h.globals rfl rfl rfl rfl rfl rfl
      split
      · exact hb.forgetting .abort
      · have hopen : b.unended := by simpa [sole, hserial] using hsole
        exact hb.endActive .abort hopen (by simp) (by simp)
  | progress n =>
    simp only [Background.step]
    split
    · rename_i ha
      have hmay : b.mayStore n := by simpa [sole, ha] using hsole
      exact h.persist (by simp [mayPersist, ahead, ha, hmay])
    · exact h
  | context n =>
    simp only [Background.step]
    split
    · rename_i ha
      have hraised := h.raise false true (n := n) (by simp [mayArm, ahead, ha])
      simpa using hraised
    · exact h
  | complete n status fits =>
    simp only [Background.step]
    split
    · rename_i m ha
      simp only [sole, ha] at hsole
      split
      · exact h.closeTab n
      · rename_i hnm
        obtain rfl : n = m := not_not.mp hnm
        simp only [hnm, if_false] at hsole
        split
        · exact h
        · rename_i hfits
          simp only [hfits, Bool.false_or] at hsole
          split
          · rename_i hstatus
            subst hstatus
            simp only [if_true, Bool.and_eq_true, Bool.or_eq_true, beq_iff_eq] at hsole
            exact h.succeed ha hsole.1 hsole.2
          · rename_i hstatus
            simp only [hstatus, if_false] at hsole
            exact h.endActive .nothing (unended_of_live ha hsole) hstatus (by simp)
    · split
      · exact h.spawn trivial (by simp [Job.claim])
      · exact h
  | alarm n total =>
    simp only [Background.step]
    split
    · split
      · have hlow : Inv (b.modify n fun s => { s with total := false }) :=
          h.lower _ rfl rfl rfl rfl rfl rfl (by simp) id id id id fun _ => id
        exact hlow.spawn trivial (by simp [Job.claim])
      · exact h
    · split
      · exact h.spawn trivial (by simp [Job.claim])
      · exact h
  | tabUpdated n =>
    simp only [Background.step]
    split
    · exact h.spawn trivial (by simp [Job.claim])
    · exact h
  | tabClosed n => exact h.closeTab n
  | wizard connected => exact h.globals rfl rfl rfl rfl rfl rfl
  | restart => exact (h.restart (by simpa [sole] using hsole)).recover
  | startup => exact h.recover
  | resume k verdict =>
    simp only [Background.step]
    split
    · exact h
    · rename_i job hjob
      have hmay : b.mayResume verdict job := by simpa [sole, hjob] using hsole
      have hperm : Inv ({ b with jobs := b.jobs.eraseIdx k }.spawn job) := by
        exact h.perm (perm_eraseIdx hjob)
      exact hperm.resume (mayResume_erase hjob hmay)

theorem Inv.told (h : Inv b) (n : TaskID) :
    (b.sessions n).broadcasts = [] ∧ (b.sessions n).completions = [] ∨
      ∃ status, (b.sessions n).outcomes.head? = some status ∧ ((b.sessions n).broadcasts = [] ∨
          ∃ wizard, (b.sessions n).broadcasts = [(status, wizard)]) ∧
        (b.sessions n).completions.length ≤ 1 ∧
        ∀ st ∈ (b.sessions n).completions, st = status := by
  have hs := h.session n
  cases hhead : (b.sessions n).outcomes.head? with
  | none => exact .inl (hs.untold (by simpa using hhead))
  | some status =>
    rcases hs.ended status hhead with ha | ⟨job, hjob, hclaim⟩ | ⟨-, htold⟩
    · obtain ⟨hb, hc, -⟩ := hs.active ha
      exact .inl ⟨hb, hc⟩
    · have hok := h.job job hjob
      cases job with
      | created m =>
        cases hclaim
        exact .inl (hs.untold (hs.unbegun hok.2).2.2.1)
      | cleanup m st closeTab next after =>
        cases hclaim
        exact .inl hok.2.2.1.untold
      | completing m st read after =>
        cases hclaim
        obtain ⟨-, hst, -, hb, hc, -⟩ := hok
        exact .inr ⟨st, hhead.symm.trans hst, .inr ⟨false, hb⟩, by simp [hc], by simp [hc]⟩
      | _ => cases hclaim
    · exact .inr ⟨status, rfl, htold.broadcast, htold.once, htold.first⟩

theorem Inv.settled (h : Inv b) (hhead : (b.sessions n).outcomes.head? = some status)
    (hquiet : ∀ job ∈ b.jobs, job.ends n = false) : b.Settled n status := by
  have hs := h.session n
  have ho : (b.sessions n).outcomes ≠ [] := by
    intro ho
    simp [ho] at hhead
  rcases hs.ended status hhead with ha | ⟨job, hjob, hclaim⟩ | ⟨hcl, htold⟩
  · have hnot := hquiet _ ((hs.active ha).2.2 ho).1
    simp [Job.ends] at hnot
  · have hnot := hquiet job hjob
    have hok := h.job job hjob
    cases job with
    | created m =>
      cases hclaim
      exact absurd (hs.unbegun hok.2).2.2.1 ho
    | cleanup m st closeTab next after | completing m st read after =>
      cases hclaim
      simp [Job.ends] at hnot
    | _ => cases hclaim
  · refine ⟨hcl.alarms, hcl.listeners, hcl.keys, hcl.memory, fun htab => ?_, htold.dsl⟩
    obtain rfl := hcl.tab htab
    exact ⟨rfl, hs.held hhead htab⟩

/-- Under the invariant no session ends twice. -/
theorem Inv.oneOutcome (h : Inv b) : b.OneOutcome where
  once n := by
    rcases h.told n with ⟨hb, hc⟩ | ⟨status, -, hb | ⟨wizard, hb⟩, hone, -⟩
    · simp [hb, hc]
    all_goals simp [hb, hone]
  first n status hstatus := by
    rcases h.told n with ⟨hb, hc⟩ | ⟨st, hst, hb, -, hall⟩
    · simp [hb, hc] at hstatus
    · rcases hstatus with hmem | hmem
      · rcases hb with hb | ⟨wizard, hb⟩
        · simp [hb] at hmem
        · obtain rfl : status = st := by simpa [hb] using hmem
          exact hst
      · rw [hall status hmem]
        exact hst
  settled _ _ hhead hquiet := h.settled hhead hquiet

end Background

end ReplaySessions

end Aegis
