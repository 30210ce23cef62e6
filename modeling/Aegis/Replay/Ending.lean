import Aegis.Replay.Invariant

/-!
# Replay.Ending

What the operations on a session keep, from its beginning to its end.
-/

namespace Aegis

open List

namespace ReplaySessions

namespace Background

variable {b b' : Background} {n m : TaskID} {status : Status} {job : Job}

/-! ## Cleanup -/

theorem Inv.replace {job' : Job} (h : Inv (b.spawn job)) (hclaim : job.claim = some n)
    (hclaim' : job'.claim = some n) (hok : b.JobOK job') : Inv (b.spawn job') where
  job other hother := by
    rcases mem_cons.mp hother with rfl | hold
    · exact hok.congr (Nat.le_refl _) fun m _ => Same.of_eq rfl rfl rfl rfl
    · exact (h.job other (mem_cons_of_mem _ hold)).congr (Nat.le_refl _)
        fun m _ => Same.of_eq rfl rfl rfl rfl
  apart := by simpa [hclaim, hclaim'] using h.apart
  session m := by
    have hsame : Same (b.spawn job) (b.spawn job') m := .of_eq rfl rfl rfl rfl
    refine hsame.sessionOK (Nat.le_refl _) ?_ ?_ ?_ (h.session m)
    · intro hjob
      rcases mem_cons.mp hjob with heq | hold
      · rw [← heq] at hclaim
        cases hclaim
      · exact mem_cons_of_mem _ hold
    · rintro ⟨other, hother, hm⟩
      rcases mem_cons.mp hother with rfl | hold
      · exact ⟨job', mem_cons_self, hclaim'.trans (hclaim.symm.trans hm)⟩
      · exact ⟨other, mem_cons_of_mem _ hold, hm⟩
    · rintro ⟨closing, hjob⟩
      rcases mem_cons.mp hjob with heq | hold
      · rw [← heq] at hclaim
        cases hclaim
      · exact ⟨closing, mem_cons_of_mem _ hold⟩

theorem unclaimed_of_spawn (h : Inv (b.spawn job)) (hclaim : job.claim = some n) :
    ∀ other ∈ b.jobs, other.claim ≠ some n := by
  have hnodup := h.apart
  simp only [spawn_jobs, filterMap_cons, hclaim, nodup_cons] at hnodup
  intro other hother hsome
  exact hnodup.1 (mem_filterMap.mpr ⟨other, hother, hsome⟩)

theorem JobOK.unclaimed (hok : b.JobOK job) (hs : job.session = some n) (hclaim : job.claim ≠ some n)
    (hnext : b.next ≤ b'.next)
    (hhead : (b.sessions n).outcomes.head? = some .success → (b'.sessions n).outcomes.head? = some .success)
    (htab : (b.sessions n).tab = false → (b'.sessions n).tab = false) : b'.JobOK job := by
  cases job with
  | retaining m =>
    cases hs
    exact hhead hok
  | forget read closing | release read closing =>
    obtain rfl : read = some n := hs
    exact hhead hok
  | removed m =>
    cases hs
    exact ⟨Nat.lt_of_lt_of_le hok.1 hnext, htab hok.2⟩
  | created m | cleanup m status closeTab next after | completing m status read after =>
    exact absurd hs hclaim
  | _ => cases hs

variable {after : After} {closeTab : Bool}

theorem Inv.advance {next next' : Point}
    (h : Inv (b.spawn (.cleanup n status closeTab next after)))
    (hcleaned : b.Cleaned n next → b.Cleaned n next') (htab : next' = .broadcast →
      next = .broadcast ∨ (b.sessions n).tab = false ∨ closeTab = false) :
    Inv (b.spawn (.cleanup n status closeTab next' after)) := by
  obtain ⟨hbegun, hhead, hcl, hclosed⟩ := h.job _ mem_cons_self
  have hcl' : b.Cleaned n next :=
    ⟨hcl.listening, hcl.total, hcl.memory, hcl.untold, hcl.idle, hcl.keys⟩
  refine h.replace rfl rfl ⟨hbegun, hhead, hcleaned hcl', ?_⟩
  rintro (hfalse | hlast) hopen
  · exact hclosed (.inl hfalse) hopen
  · rcases htab hlast with hwas | hshut | hfalse
    · exact hclosed (.inr hwas) hopen
    · rw [hshut] at hopen
      cases hopen
    · exact hclosed (.inl hfalse) hopen

theorem Inv.tell (f : Session → Session) (jobs : List Job) (h : Inv (b.spawn job))
    (hclaim : job.claim = some n) (hneeded : job.needed = some n)
    (hhead : (b.sessions n).outcomes.head? = some status)
    (hbegun : (b.sessions n).begun) (hcleared : b.Cleared n status)
    (hf : ∀ s, f s = { s with broadcasts := (f s).broadcasts, completions := (f s).completions })
    (hjobs : jobs = [] ∧ Told (f (b.sessions n)) status ∨
      ∃ job', jobs = [job'] ∧ job'.claim = some n ∧ (b.modify n f).JobOK job') :
    Inv { b.modify n f with jobs := jobs ++ b.jobs } := by
  have hs : (b.spawn job).SessionOK n := h.session n
  have hunclaimed := unclaimed_of_spawn h hclaim
  have houtcomes : (f (b.sessions n)).outcomes = (b.sessions n).outcomes := by rw [hf]
  have hflags : (f (b.sessions n)).begun = (b.sessions n).begun ∧
      (f (b.sessions n)).tab = (b.sessions n).tab ∧
      (f (b.sessions n)).listening = (b.sessions n).listening ∧
      (f (b.sessions n)).total = (b.sessions n).total ∧
      (f (b.sessions n)).idle = (b.sessions n).idle ∧
      (f (b.sessions n)).payload = (b.sessions n).payload ∧
      (f (b.sessions n)).context = (b.sessions n).context := by
    rw [hf]
    exact ⟨rfl, rfl, rfl, rfl, rfl, rfl, rfl⟩
  obtain ⟨hfbegun, hftab, hfl, hft, hfi, hfp, hfc⟩ := hflags
  refine h.change n (fun m hm => ?_) (Nat.le_refl _) ?_ ?_ ?_ ?_
  · have hsame := same_modify (b := b) f hm
    exact ⟨hsame.session, .rfl, id, fun _ => id, id, fun hr _ => .inl hr⟩
  · constructor
    case fresh => exact fun hle => absurd (hs.fresh hle).1 (by simp [hbegun])
    case unbegun => simp [hfbegun, hbegun]
    case untold =>
      intro ho
      simp only [modify_self, houtcomes] at ho
      simp [ho] at hhead
    case stored =>
      intro hlive
      simp only [live, modify_self, houtcomes, Bool.and_eq_true, List.isEmpty_iff] at hlive
      simp [hlive.2] at hhead
    case listening => simp [hfl, hcleared.listeners]
    case active => exact fun ha => absurd ha hcleared.memory
    case ended =>
      intro st hst
      obtain rfl : status = st := by
        simp only [modify_self, houtcomes, hhead] at hst
        exact Option.some.inj hst
      rcases hjobs with ⟨-, htold⟩ | ⟨job', rfl, hclaim', -⟩
      · refine .inr (.inr ⟨?_, ?_⟩)
        case refine_2 =>
          rw [modify_self]
          exact htold
        constructor
        case alarms => simpa [hft, hfi] using hcleared.alarms
        case listeners => simpa [hfl] using hcleared.listeners
        case keys => simpa [hfp, hfc] using hcleared.keys
        case memory => exact hcleared.memory
        case tab => simpa [hftab] using hcleared.tab
      · exact .inr (.inl ⟨job', mem_append_left _ (mem_singleton.mpr rfl), hclaim'⟩)
    case held =>
      intro hst htab
      simp only [modify_self, houtcomes, hftab] at hst htab
      rcases hs.held hst htab with hkey | ⟨closing, hrelease⟩
      · exact .inl hkey
      · rcases mem_cons.mp hrelease with heq | hold
        · rw [← heq] at hclaim
          cases hclaim
        · exact .inr ⟨closing, mem_append_right _ hold⟩
    case retained => simpa [houtcomes] using hs.retained
  · intro other hother hne _
    rcases mem_cons.mp hother with rfl | hold
    · exact absurd hneeded hne
    · exact mem_append_right _ hold
  · intro other hother
    rcases mem_append.mp hother with hnew | hold
    · rcases hjobs with ⟨rfl, -⟩ | ⟨job', rfl, -, hok⟩
      · cases hnew
      · obtain rfl := mem_singleton.mp hnew
        exact .inr (hok.congr (Nat.le_refl _) fun m _ => .of_eq rfl rfl rfl rfl)
    · by_cases hj : other.session = some n
      · refine .inr ((h.job other (mem_cons_of_mem _ hold)).unclaimed hj
          (hunclaimed other hold) (Nat.le_refl _) ?_ ?_)
        · simp [houtcomes]
        · simp [hftab]
      · exact .inl ⟨mem_cons_of_mem _ hold, hj⟩
  · have hnodup := h.apart
    rcases hjobs with ⟨rfl, -⟩ | ⟨job', rfl, hclaim', -⟩
    · exact hnodup.sublist ((sublist_cons_self _ _).filterMap _)
    · simpa [hclaim, hclaim'] using hnodup

theorem Cleaned.cleared
    (hok : b.JobOK (.cleanup n status closeTab .broadcast after)) : b.Cleared n status := by
  obtain ⟨-, -, hcl, htab⟩ := hok
  have hkeys := hcl.keys (.inr rfl)
  exact ⟨⟨hcl.total, hcl.idle (by simp)⟩, hcl.listening, hkeys, hcl.memory, htab (.inr rfl)⟩

theorem jobOK_of_spawn (h : Inv (b.spawn job)) : b.JobOK job :=
  (h.job job mem_cons_self).congr (Nat.le_refl _) fun _ _ => .of_eq rfl rfl rfl rfl

theorem Inv.broadcast (h : Inv (b.spawn (.cleanup n status closeTab .broadcast after)))
    (hmay : b.mayComplete n) : Inv (b.broadcast n status after) := by
  have hok := jobOK_of_spawn h
  have hcleared := Cleaned.cleared hok
  obtain ⟨hbegun, hhead, hcl, -⟩ := hok
  obtain ⟨hb, hc⟩ := hcl.untold
  unfold Background.broadcast
  cases hw : b.wizard with
  | true =>
    refine Inv.proceed ?_ after
    exact h.tell (fun s => { s with broadcasts := s.broadcasts ++ [(status, true)] }) [] rfl rfl
      hhead hbegun hcleared (fun _ => rfl)
      (.inl ⟨rfl, .inr ⟨true, by simp [hb]⟩, by simp [hc], by simp [hc],
        fun _ => ⟨true, by simp [hb], by simp⟩⟩)
  | false =>
    refine h.tell (fun s => { s with broadcasts := s.broadcasts ++ [(status, false)] })
      [.completing n status b.dslKey after] rfl rfl hhead hbegun hcleared (fun _ => rfl)
      (.inr ⟨_, rfl, rfl, by simpa using hbegun, by simpa using hhead, ?_, by simp [hb],
        by simp [hc], ?_⟩)
    · exact ⟨by simpa using hcleared.alarms, by simpa using hcleared.listeners,
        by simpa using hcleared.keys, hcleared.memory, by simpa using hcleared.tab⟩
    · simpa [mayComplete, hw] using hmay

theorem Inv.complete {read : Option TaskID}
    (h : Inv (b.spawn (.completing n status read after))) (verdict : Verdict) :
    Inv (b.resume verdict (.completing n status read after)) := by
  obtain ⟨hbegun, hhead, hcleared, hb, hc, hread⟩ := jobOK_of_spawn h
  rcases hread with rfl | ⟨rfl, hdsl⟩
  · refine Inv.spawn ?_ trivial (by simp [Job.claim])
    exact h.tell (fun s => { s with completions := s.completions ++ [status] }) [] rfl rfl
      hhead hbegun hcleared (fun _ => rfl)
      (.inl ⟨rfl, .inr ⟨false, by simp [hb]⟩, by simp [hc], by simp [hc],
        fun _ => ⟨false, by simp [hb], by simp [hc]⟩⟩)
  · refine Inv.proceed ?_ after
    have htold := h.tell id [] rfl rfl hhead hbegun hcleared (fun _ => rfl)
      (.inl ⟨rfl, .inr ⟨false, by simp [hb]⟩, by simp [hc], by simp [hc], by simp [hdsl]⟩)
    exact htold.globals (by simp [modify]) rfl rfl rfl rfl rfl

theorem SessionOK.begun (hs : b.SessionOK n) (ha : b.active = some n) : (b.sessions n).begun = true := by
  by_contra hnot
  exact (hs.unbegun (by simpa using hnot)).1 ha

theorem Inv.succeed (h : Inv b) (ha : b.active = some n)
    (hended : b.live n ∨ (b.sessions n).outcomes.head? = some .success)
    (hmay : b.mayRetain n) :
    Inv ({ b.note n .success with retainedKey := some n }.spawn (.retaining n)) := by
  have hs := h.session n
  have hbegun := hs.begun ha
  obtain ⟨hb, hc, -⟩ := hs.active ha
  have hhead : ((b.sessions n).outcomes ++ [Status.success]).head? = some .success := by
    rcases hended with hlive | hhead
    · simp [(hs.of_live hlive).2.1]
    · simp [hhead]
  refine h.change n (fun m hm => ?_) (Nat.le_refl _) ?_ ?_ ?_ ?_
  · refine ⟨by simp [note, hm], .rfl, id, fun _ => id, ?_, ?_⟩
    · intro hr
      exact absurd (Option.some.inj hr).symm hm
    · intro hr htab
      simp [mayRetain, hr, hm, htab] at hmay
  · constructor
    case fresh => exact fun hle => absurd (hs.fresh hle).1 (by simp [hbegun])
    case unbegun => simp [note, hbegun]
    case untold => simp [note]
    case stored => simp [live, note]
    case listening => simpa [note] using hs.listening
    case active => exact fun _ => ⟨by simpa [note] using hb, by simpa [note] using hc,
      fun _ => ⟨mem_cons_self, by simpa [note] using hhead⟩⟩
    case ended => exact fun st _ => .inl ha
    case held => exact fun _ _ => .inl rfl
    case retained => exact fun _ => by simpa [note] using hhead
  · exact fun job hjob _ _ => mem_cons_of_mem _ hjob
  · intro job hjob
    rcases mem_cons.mp hjob with rfl | hold
    · exact .inr (by simpa [JobOK, note] using hhead)
    · by_cases hj : job.session = some n
      · refine .inr ((h.job job hold).unclaimed hj (not_claimed_of_active h ha job hold)
          (Nat.le_refl _) ?_ ?_)
        · exact fun _ => by simpa [note] using hhead
        · simp [note]
      · exact .inl ⟨hold, hj⟩
  · exact h.apart

theorem Inv.dropRetaining (h : Inv (b.spawn (.retaining n))) (ha : b.active ≠ some n) : Inv b := by
  have hs : (b.spawn (.retaining n)).SessionOK n := h.session n
  refine h.change n (fun m _ => .of_eq rfl rfl rfl rfl) (Nat.le_refl _) ?_ ?_ ?_ h.apart
  · refine ⟨hs.fresh, hs.unbegun, hs.untold, hs.stored, hs.listening, fun hact => absurd hact ha,
      ?_, ?_, hs.retained⟩
    · intro st hhead
      rcases hs.ended st hhead with hact | ⟨job, hjob, hclaim⟩ | ⟨hst, htold⟩
      · exact absurd hact ha
      · rcases mem_cons.mp hjob with rfl | hold
        · cases hclaim
        · exact .inr (.inl ⟨job, hold, hclaim⟩)
      · exact .inr (.inr ⟨⟨hst.alarms, hst.listeners, hst.keys, hst.memory, hst.tab⟩, htold⟩)
    · intro hhead htab
      rcases hs.held hhead htab with hkey | ⟨closing, hjob⟩
      · exact .inl hkey
      · rcases mem_cons.mp hjob with heq | hold
        · cases heq
        · exact .inr ⟨closing, hold⟩
  · intro job hjob hne _
    rcases mem_cons.mp hjob with rfl | hold
    · exact absurd rfl hne
    · exact hold
  · intro job hjob
    exact .inr ((h.job job (mem_cons_of_mem _ hjob)).congr (Nat.le_refl _)
      fun _ _ => .of_eq rfl rfl rfl rfl)

theorem Inv.retained (h : Inv (b.spawn (.retaining n))) (halone : b.alone n) :
    Inv (b.cleanupActive .success false .nothing) := by
  unfold cleanupActive
  cases ha : b.active with
  | none => exact (h.dropRetaining (by simp [ha])).proceed .nothing
  | some k =>
    obtain rfl : k = n := by simpa [alone, ha] using halone
    have hs : (b.spawn (.retaining k)).SessionOK k := h.session k
    have hact : (b.spawn (.retaining k)).active = some k := ha
    have hbegun : (b.sessions k).begun := hs.begun hact
    obtain ⟨hb, hc, -⟩ := hs.active hact
    have hhead : (b.sessions k).outcomes.head? = some .success := jobOK_of_spawn h
    refine h.change k (fun m hm => ?_) (Nat.le_refl _) ?_ ?_ ?_ ?_
    · refine ⟨by simp [hm], ?_, id, fun _ => id, id, fun hr _ => .inl hr⟩
      simp [ha, Ne.symm hm]
    · constructor
      case fresh => exact fun hle => absurd (hs.fresh hle).1 (by simp [hbegun])
      case unbegun => simp [hbegun]
      case untold =>
        intro ho
        simp only [spawn_sessions, modify_self] at ho
        simp [ho] at hhead
      case stored =>
        intro hlive
        simp only [live, spawn_sessions, modify_self, Bool.and_eq_true, List.isEmpty_iff] at hlive
        simp [hlive.2] at hhead
      case listening => simp
      case active => simp
      case ended => exact fun st _ => .inr (.inl ⟨_, mem_cons_self, rfl⟩)
      case held =>
        intro hst htab
        rcases hs.held (by simpa using hst) (by simpa using htab) with hkey | ⟨closing, hjob⟩
        · exact .inl hkey
        · rcases mem_cons.mp hjob with heq | hold
          · cases heq
          · exact .inr ⟨closing, mem_cons_of_mem _ hold⟩
      case retained => simpa using hs.retained
    · intro job hjob hne _
      rcases mem_cons.mp hjob with rfl | hold
      · exact absurd rfl hne
      · exact mem_cons_of_mem _ hold
    · intro job hjob
      rcases mem_cons.mp hjob with rfl | hold
      · refine .inr ⟨by simpa using hbegun, by simpa using hhead, ?_, fun _ _ => rfl⟩
        constructor
        case listening => simp
        case total => simp
        case memory => simp
        case untold => exact ⟨by simpa using hb, by simpa using hc⟩
        case idle => exact fun hne => absurd rfl hne
        case keys => rintro (hp | hp) <;> cases hp
      · by_cases hj : job.session = some k
        · refine .inr ((h.job job (mem_cons_of_mem _ hold)).unclaimed hj
            (not_claimed_of_active h hact job (mem_cons_of_mem _ hold)) (Nat.le_refl _) ?_ ?_)
          · simp
          · simp
        · exact .inl ⟨mem_cons_of_mem _ hold, hj⟩
    · simp only [spawn_jobs, filterMap_cons, Job.claim, nodup_cons]
      refine ⟨?_, h.apart⟩
      intro hmem
      obtain ⟨other, hother, hsome⟩ := mem_filterMap.mp hmem
      exact not_claimed_of_active h hact other (mem_cons_of_mem _ hother) hsome

/-! ## The beginning of a session -/

theorem Inv.store (h : Inv (b.spawn (.created n))) (hmay : b.mayStore n) :
    Inv (({ b with storedKey := some n }.modify n fun s =>
      { s with payload := true, begun := true }).spawn (.stored n)) := by
  have hs : (b.spawn (.created n)).SessionOK n := h.session n
  obtain ⟨hlt, hunbegun⟩ := jobOK_of_spawn h
  obtain ⟨hactive, -, ho, -⟩ := hs.unbegun hunbegun
  have hnone : (b.sessions n).outcomes = [] := ho
  refine h.change n (fun m hm => ?_) (Nat.le_refl _) ?_ ?_ ?_ ?_
  · refine ⟨by simp [hm], .rfl, ?_, ?_, id, fun hr _ => .inl hr⟩
    · intro hk
      exact absurd (Option.some.inj hk).symm hm
    · intro hlive hk
      have hlive : b.live m := hlive
      have hk : b.storedKey = some m := hk
      simp [mayStore, hk, hm, hlive] at hmay
  · constructor
    case fresh => exact fun hle => absurd hlt (Nat.not_lt.mpr hle)
    case unbegun => simp
    case untold =>
      intro _
      simpa using hs.untold ho
    case stored => simp
    case listening => simpa using hs.listening
    case active => exact fun ha => absurd ha hactive
    case ended => simp [hnone]
    case held => simp [hnone]
    case retained => simpa using hs.retained
  · intro job hjob hne _
    rcases mem_cons.mp hjob with rfl | hold
    · exact absurd rfl hne
    · exact mem_cons_of_mem _ hold
  · intro job hjob
    rcases mem_cons.mp hjob with rfl | hold
    · exact .inr trivial
    · by_cases hj : job.session = some n
      · refine .inr ((h.job job (mem_cons_of_mem _ hold)).unclaimed hj
          (unclaimed_of_spawn h rfl job hold) (Nat.le_refl _) ?_ ?_)
        · simp
        · simp
      · exact .inl ⟨mem_cons_of_mem _ hold, hj⟩
  · have hnodup := h.apart
    simp only [spawn_jobs, filterMap_cons, Job.claim, nodup_cons] at hnodup
    exact hnodup.2

theorem Inv.activate (h : Inv b) (hnone : b.active = none) (hlive : b.live n) :
    Inv ({ b with active := some n }.modify n fun s =>
      { s with listening := true, total := true }) := by
  have hs := h.session n
  obtain ⟨hbegun, ho, hb, hc⟩ := hs.of_live hlive
  refine h.change n (fun m hm => ?_) (Nat.le_refl _) ?_ (fun job hjob _ _ => hjob) ?_ h.apart
  · refine ⟨by simp [hm], ?_, id, fun _ => id, id, fun hr _ => .inl hr⟩
    simp [hnone, Ne.symm hm]
  · constructor
    case fresh => exact fun hle => absurd (hs.fresh hle).1 (by simp [hbegun])
    case unbegun => simp [hbegun]
    case untold => simp [hb, hc]
    case stored => simpa using fun _ => hs.stored hlive
    case listening => simp
    case active => simp [hb, hc, ho]
    case ended => simp [ho]
    case held => simp [ho]
    case retained => simpa using hs.retained
  · intro job hjob
    by_cases hj : job.session = some n
    · refine .inr ((h.job job hjob).unclaimed hj (not_claimed_of_live h hlive job hjob)
        (Nat.le_refl _) ?_ ?_)
      · simp
      · simp
    · exact .inl ⟨hjob, hj⟩

theorem eq_of_claim {l : List Job} {j k : Job} (h : (l.filterMap Job.claim).Nodup) (hj : j ∈ l)
    (hk : k ∈ l) (hjn : j.claim = some n) (hkn : k.claim = some n) : j = k := by
  induction l with
  | nil => cases hj
  | cons i l ih =>
    have hfree : i.claim = some n → ∀ o ∈ l, o.claim ≠ some n := by
      intro hi o ho hon
      simp only [filterMap_cons, hi, nodup_cons] at h
      exact h.1 (mem_filterMap.mpr ⟨o, ho, hon⟩)
    have hrest : (l.filterMap Job.claim).Nodup :=
      h.sublist ((sublist_cons_self _ _).filterMap _)
    rcases mem_cons.mp hj with hji | hjl
    · rcases mem_cons.mp hk with hki | hkl
      · exact hji.trans hki.symm
      · exact absurd hkn (hfree (hji ▸ hjn) k hkl)
    · rcases mem_cons.mp hk with hki | hkl
      · exact absurd hjn (hfree (hki ▸ hkn) j hjl)
      · exact ih hrest hjl hkl

variable {p : Point → Bool}

theorem ahead_iff : b.ahead p n ↔
    b.live n ∨ b.active = some n ∨ ∃ job ∈ b.jobs, job.cleaning p n = true := by
  simp [ahead, or_assoc]

theorem cleaning_iff : job.cleaning p n ↔
    ∃ status closeTab next after, job = .cleanup n status closeTab next after ∧ p next = true := by
  constructor
  · intro hcleaning
    cases job with
    | cleanup m status closeTab next after =>
      simp only [Job.cleaning, Bool.and_eq_true, beq_iff_eq] at hcleaning
      exact ⟨status, closeTab, next, after, by rw [hcleaning.1], hcleaning.2⟩
    | _ => cases hcleaning
  · rintro ⟨status, closeTab, next, after, rfl, hp⟩
    simp [Job.cleaning, hp]

theorem Inv.of_ahead (h : Inv b) (hmay : b.ahead p n) : (b.sessions n).begun = true ∧
      (∀ job ∈ b.jobs, job.claim = some n → job.cleaning p n = true) ∧
      ∀ st, (b.sessions n).outcomes.head? = some st →
        b.active = some n ∨ ∃ job ∈ b.jobs, job.claim = some n := by
  have hs := h.session n
  rcases ahead_iff.mp hmay with hlive | ha | ⟨other, hother, hcleaning⟩
  · obtain ⟨hbegun, ho, -⟩ := hs.of_live hlive
    refine ⟨hbegun, ?_, by simp [ho]⟩
    exact fun job hjob hsome => absurd hsome (not_claimed_of_live h hlive job hjob)
  · refine ⟨hs.begun ha, ?_, fun _ _ => .inl ha⟩
    exact fun job hjob hsome => absurd hsome (not_claimed_of_active h ha job hjob)
  · have hclaim : other.claim = some n := by
      obtain ⟨status, closeTab, next, after, rfl, -⟩ := cleaning_iff.mp hcleaning
      rfl
    refine ⟨?_, ?_, fun _ _ => .inr ⟨other, hother, hclaim⟩⟩
    · have hok := h.job other hother
      obtain ⟨status, closeTab, next, after, rfl, -⟩ := cleaning_iff.mp hcleaning
      exact hok.1
    · intro job hjob hsome
      rw [eq_of_claim h.apart hjob hother hsome hclaim]
      exact hcleaning

theorem Inv.raise (idle context : Bool) (h : Inv b) (hmay : b.mayArm n) : Inv (b.modify n fun s =>
      { s with idle := s.idle || idle, context := s.context || context }) := by
  have hs := h.session n
  obtain ⟨hbegun, hclaim, hgoing⟩ := h.of_ahead hmay
  refine h.change n (fun m hm => same_modify _ hm) (Nat.le_refl _) ?_ (fun job hjob _ _ => hjob) ?_
    h.apart
  · constructor
    case fresh => exact fun hle => absurd (hs.fresh hle).1 (by simp [hbegun])
    case unbegun => simp [hbegun]
    case untold => simpa using hs.untold
    case stored =>
      intro hlive
      have hwas : b.live n := by simpa [live] using hlive
      simpa using hs.stored hwas
    case listening => simpa using hs.listening
    case active => simpa using hs.active
    case ended =>
      intro st hst
      rcases hgoing st (by simpa using hst) with ha | hjob
      · exact .inl ha
      · exact .inr (.inl hjob)
    case held => simpa [Releasing] using hs.held
    case retained => simpa using hs.retained
  · intro job hjob
    by_cases hj : job.session = some n
    · refine .inr ?_
      by_cases hsome : job.claim = some n
      · obtain ⟨status, closeTab, next, after, rfl, hp⟩ := cleaning_iff.mp (hclaim job hjob hsome)
        obtain rfl : next = .idleAlarm := by simpa using hp
        obtain ⟨hbeg, hhead, hcl, htab⟩ := h.job _ hjob
        refine ⟨by simpa using hbeg, by simpa using hhead, ?_, by simpa using htab⟩
        constructor
        case listening => simpa using hcl.listening
        case total => simpa using hcl.total
        case memory => exact hcl.memory
        case untold => simpa using hcl.untold
        case idle => exact fun hne => absurd rfl hne
        case keys => rintro (hp | hp) <;> cases hp
      · refine (h.job job hjob).unclaimed hj hsome (Nat.le_refl _) ?_ ?_
        · simp
        · simp
    · exact .inl ⟨hjob, hj⟩

theorem Inv.persist (h : Inv b) (hmay : b.mayPersist n) : Inv { b with storedKey := some n } := by
  have hs := h.session n
  simp only [mayPersist, Bool.and_eq_true] at hmay
  obtain ⟨hbegun, hclaim, hgoing⟩ := h.of_ahead hmay.1
  refine h.change n (fun m hm => ?_) (Nat.le_refl _) ?_ (fun job hjob _ _ => hjob) ?_ h.apart
  · refine ⟨rfl, .rfl, ?_, ?_, id, fun hr _ => .inl hr⟩
    · intro hk
      exact absurd (Option.some.inj hk).symm hm
    · intro hlive hk
      simp [mayStore, hk, hm, hlive] at hmay
  · refine ⟨hs.fresh, ?_, hs.untold, fun hlive => ⟨rfl, (hs.stored hlive).2⟩, hs.listening,
      hs.active, fun st hst => ?_, hs.held, hs.retained⟩
    · intro hnot
      simp [hbegun] at hnot
    · rcases hgoing st hst with ha | hjob
      · exact .inl ha
      · exact .inr (.inl hjob)
  · intro job hjob
    by_cases hj : job.session = some n
    · refine .inr ?_
      by_cases hsome : job.claim = some n
      · obtain ⟨status, closeTab, next, after, rfl, hp⟩ := cleaning_iff.mp (hclaim job hjob hsome)
        obtain ⟨hbeg, hhead, hcl, htab⟩ := h.job _ hjob
        refine ⟨hbeg, hhead, ⟨hcl.listening, hcl.total, hcl.memory, hcl.untold, hcl.idle, ?_⟩, htab⟩
        rintro (rfl | rfl) <;> simp at hp
      · exact (h.job job hjob).unclaimed hj hsome (Nat.le_refl _) id id
    · exact .inl ⟨hjob, hj⟩

variable {closing : Closing}

theorem Inv.forget {read : Option TaskID} (h : Inv (b.spawn (.forget read closing)))
    (hmay : ∀ n, b.retainedKey = some n → (b.sessions n).tab = true → read = some n) :
    Inv ({ b with retainedKey := none }.spawn (.release read closing)) := by
  have hb := h.drop rfl
  have hok := jobOK_of_spawn h
  refine hb.rejob (fun m => ?_) (Nat.le_refl _) (fun _ hjob _ => mem_cons_of_mem _ hjob) ?_
    hb.apart
  · refine ⟨rfl, .rfl, id, fun _ => id, fun hr => (by cases hr),
      fun hr htab => .inr ⟨closing, ?_⟩⟩
    rw [hmay m hr htab]
    exact mem_cons_self
  · intro job hjob
    rcases mem_cons.mp hjob with rfl | hold
    · cases read with
      | none => exact .inr trivial
      | some n => exact .inr hok
    · exact .inl hold

theorem Inv.dropRelease (h : Inv (b.spawn (.release (some n) closing)))
    (htab : (b.sessions n).tab = false) : Inv b := by
  have hs : (b.spawn (.release (some n) closing)).SessionOK n := h.session n
  refine h.change n (fun m _ => .of_eq rfl rfl rfl rfl) (Nat.le_refl _) ?_ ?_ ?_ h.apart
  · refine ⟨hs.fresh, hs.unbegun, hs.untold, hs.stored, hs.listening, ?_, ?_, ?_, hs.retained⟩
    · intro ha
      obtain ⟨htold, hcompleted, hout⟩ := hs.active ha
      refine ⟨htold, hcompleted, fun ho => ⟨?_, (hout ho).2⟩⟩
      rcases mem_cons.mp (hout ho).1 with heq | hold
      · cases heq
      · exact hold
    · intro st hst
      rcases hs.ended st hst with ha | ⟨job, hjob, hclaim⟩ | ⟨hcl, htold⟩
      · exact .inl ha
      · rcases mem_cons.mp hjob with rfl | hold
        · cases hclaim
        · exact .inr (.inl ⟨job, hold, hclaim⟩)
      · exact .inr (.inr ⟨⟨hcl.alarms, hcl.listeners, hcl.keys, hcl.memory, hcl.tab⟩, htold⟩)
    · intro _ hopen
      rw [htab] at hopen
      cases hopen
  · intro job hjob hne _
    rcases mem_cons.mp hjob with rfl | hold
    · exact absurd rfl hne
    · exact hold
  · intro job hjob
    exact .inr ((h.job job (mem_cons_of_mem _ hjob)).congr (Nat.le_refl _)
      fun _ _ => .of_eq rfl rfl rfl rfl)

theorem Inv.release (h : Inv (b.spawn (.release (some n) closing))) :
    Inv ((b.closeTab n).spawn (.released closing)) := by
  have hclosed := h.closeTab_spawn n
  exact (hclosed.dropRelease closeTab_closed).spawn trivial (by simp [Job.claim])

theorem Inv.recover (h : Inv b) : Inv b.recover := by
  unfold Background.recover
  split
  · exact h
  · exact (h.globals (c := { b with recoveryInFlight := true }) rfl rfl rfl rfl rfl rfl).spawn
      trivial (by simp [Job.claim])

theorem Inv.restart (h : Inv b) (hmay : b.jobs.any b.losesEnd = false) :
    Inv { b with
      sessions := fun n => { b.sessions n with listening := false }
      active := none, wizard := false, serial := false, recoveryInFlight := false
      jobs := [] } where
  job job hjob := by cases hjob
  apart := nodup_nil
  session n := by
    have hs := h.session n
    have hlost : ∀ job ∈ b.jobs, b.losesEnd job = false :=
      fun job hjob => by simpa using List.any_eq_false.mp hmay job hjob
    constructor
    case fresh => exact hs.fresh
    case unbegun => exact fun hnot => ⟨by simp, (hs.unbegun hnot).2⟩
    case untold => exact hs.untold
    case stored => exact hs.stored
    case listening => exact nofun
    case active => exact nofun
    case retained => exact hs.retained
    case held =>
      intro hst htab
      rcases hs.held hst htab with hkey | ⟨closing, hjob⟩
      · exact .inl hkey
      · have hnot := hlost _ hjob
        simp only [losesEnd] at hnot
        exact absurd (hnot.symm.trans htab) (by simp)
    case ended =>
      intro st hst
      refine .inr (.inr ?_)
      rcases hs.ended st hst with ha | ⟨job, hjob, hclaim⟩ | ⟨hcl, htold⟩
      · have hout : (b.sessions n).outcomes ≠ [] := by
          intro ho
          have hst : (b.sessions n).outcomes.head? = some st := hst
          simp [ho] at hst
        have hnot := hlost _ ((hs.active ha).2.2 hout).1
        simp [losesEnd, ha] at hnot
      · have hnot := hlost job hjob
        have hok := h.job job hjob
        cases job with
        | created m =>
          obtain rfl := Option.some.inj hclaim
          have hst : (b.sessions m).outcomes.head? = some st := hst
          simp [(hs.unbegun hok.2).2.2.1] at hst
        | cleanup m status closeTab next after =>
          obtain rfl := Option.some.inj hclaim
          obtain ⟨-, hhead, hcl, -⟩ := hok
          obtain rfl : status = st := Option.mem_unique hhead hst
          simp only [losesEnd, Bool.or_eq_false_iff, beq_eq_false_iff_ne] at hnot
          obtain ⟨⟨⟨⟨⟨hidle, hpayload⟩, hcontext⟩, hkey⟩, htab⟩, hdsl⟩ := hnot
          obtain ⟨hb, hc⟩ := hcl.untold
          refine ⟨⟨⟨hcl.total, hidle⟩, rfl, ⟨hpayload, hcontext, hkey⟩, by simp, ?_⟩, ?_⟩
          · intro hopen
            have hopen : (b.sessions m).tab := hopen
            simpa [hopen] using htab
          · refine ⟨.inl hb, ?_, ?_, ?_⟩
            · simp [hc]
            · show ∀ st ∈ (b.sessions m).completions, st = status
              simp [hc]
            · intro hwas
              exact absurd (hdsl.symm.trans hwas) (by simp)
        | completing m status read after =>
          obtain rfl := Option.some.inj hclaim
          obtain ⟨-, hhead, hcl, hb, hc, hread⟩ := hok
          obtain rfl : status = st := Option.mem_unique hhead hst
          rcases hread with rfl | ⟨rfl, hdsl⟩
          · cases hnot
          · refine ⟨⟨hcl.alarms, rfl, hcl.keys, by simp, hcl.tab⟩, .inr ⟨false, hb⟩, ?_, ?_, ?_⟩
            · simp [hc]
            · show ∀ st ∈ (b.sessions m).completions, st = status
              simp [hc]
            · intro hwas
              exact absurd (hdsl.symm.trans hwas) (by simp)
        | _ => cases hclaim
      · exact ⟨⟨hcl.alarms, rfl, hcl.keys, by simp, hcl.tab⟩, htold.congr rfl rfl rfl⟩

end Background

end ReplaySessions

end Aegis
