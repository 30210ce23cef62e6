import Aegis.Replay.Steps

/-!
# Replay.Frame

A sole segment leaves the other sessions alone.

* `Carries`      — what an operation leaves of every session but its own.
* `sole_outcome` — every run of sole segments ends each session once.
-/

namespace Aegis

open Option

namespace ReplaySessions

namespace Background

variable {b b' : Background} {n m : TaskID} {status : Status} {e : Event} {mine : TaskID → Prop}

/-- What a job may change of the sessions that are not its own. -/
structure Carries (e : Event) (mine : TaskID → Prop) (b b' : Background) : Prop where
  begun : ∀ n, (b.sessions n).begun = true → (b'.sessions n).begun = true
  ended : ∀ n, (b'.sessions n).outcomes = [] → (b.sessions n).outcomes = []
  own : ∀ n, b.live n = true → b'.live n = false → mine n
  kept : ∀ n, b.live n = true → b'.live n = true → b.Kept e b' n
  left : ∀ n, e ≠ .tabClosed n → ¬mine n → (b.sessions n).tab = true → (b'.sessions n).tab = true

variable {c d : Background}

theorem Kept.trans (h : b.Kept e c n) (h' : c.Kept e d n) : b.Kept e d n where
  key hk := h'.key (h.key hk)
  memory he ha := h'.memory he (h.memory he ha)
  payload hp := h'.payload (h.payload hp)
  context hc := h'.context (h.context hc)
  idle hi := h'.idle (h.idle hi)
  total he ht := h'.total he (h.total he ht)
  tab he ht := h'.tab he (h.tab he ht)

theorem Carries.trans (h : Carries e mine b c) (h' : Carries e mine c d) : Carries e mine b d := by
  -- a session that is live at the end is live in the middle
  have hmiddle : ∀ n, b.live n → d.live n = true → c.live n = true := by
    intro n hlive hend
    simp only [live, Bool.and_eq_true, List.isEmpty_iff] at hlive hend ⊢
    exact ⟨h.begun n hlive.1, h'.ended n hend.2⟩
  constructor
  case begun => exact fun n hb => h'.begun n (h.begun n hb)
  case ended => exact fun n ho => h.ended n (h'.ended n ho)
  case own =>
    intro n hlive hend
    cases hmid : c.live n with
    | true => exact h'.own n hmid hend
    | false => exact h.own n hlive hmid
  case kept =>
    intro n hlive hend
    have hmid := hmiddle n hlive hend
    exact (h.kept n hlive hmid).trans (h'.kept n hmid hend)
  case left => exact fun n he hn ht => h'.left n he hn (h.left n he hn ht)

theorem Carries.of_sessions (hsessions : b'.sessions = b.sessions)
    (hkey : ∀ n, b.live n → b.storedKey = some n → b'.storedKey = some n)
    (hmemory : ∀ n, b.live n → e ≠ .restart → b.active = some n → b'.active = some n) :
    Carries e mine b b' := by
  constructor
  case begun => rw [hsessions]; exact fun _ => id
  case ended => rw [hsessions]; exact fun _ => id
  case own =>
    intro n hlive hend
    simp only [live, hsessions] at hlive hend
    rw [hlive] at hend
    cases hend
  case kept =>
    intro n hlive _
    refine ⟨hkey n hlive, hmemory n hlive, ?_, ?_, ?_, ?_, ?_⟩ <;> simp [hsessions]
  case left => rw [hsessions]; exact fun _ _ _ => id

theorem Carries.of_eq (hsessions : b'.sessions = b.sessions) (hactive : b'.active = b.active)
    (hstored : b'.storedKey = b.storedKey) : Carries e mine b b' :=
  .of_sessions hsessions (by rw [hstored]; exact fun _ _ => id)
    (by rw [hactive]; exact fun _ _ _ => id)

theorem Carries.refl : Carries e mine b b := .of_eq rfl rfl rfl

theorem Carries.spawn {job : Job} (h : Carries e mine b b') : Carries e mine b (b'.spawn job) :=
  h.trans (.of_eq rfl rfl rfl)

theorem Carries.modify (f : Session → Session)
    (hbegun : (b.sessions n).begun → (f (b.sessions n)).begun = true)
    (ho : (f (b.sessions n)).outcomes = [] → (b.sessions n).outcomes = [])
    (hown : b.live n → (f (b.sessions n)).outcomes ≠ [] → mine n)
    (hkept : b.live n → (f (b.sessions n)).outcomes = [] → b.Kept e (b.modify n f) n)
    (hleft : e ≠ .tabClosed n → ¬mine n → (b.sessions n).tab = true →
      (f (b.sessions n)).tab) : Carries e mine b (b.modify n f) := by
  have hothers : ∀ m, m ≠ n → (b.modify n f).live m = b.live m := fun m hm => by simp [live, hm]
  constructor
  case begun =>
    intro m hb
    by_cases hm : m = n
    · subst hm
      simpa using hbegun hb
    · simpa [hm] using hb
  case ended =>
    intro m hm'
    by_cases hm : m = n
    · subst hm
      exact ho (by simpa using hm')
    · simpa [hm] using hm'
  case own =>
    intro m hlive hend
    by_cases hm : m = n
    · subst hm
      refine hown hlive fun hout => ?_
      simp only [live, Bool.and_eq_true] at hlive
      simp [live, hbegun hlive.1, hout] at hend
    · rw [hothers m hm, hlive] at hend
      cases hend
  case kept =>
    intro m hlive hend
    by_cases hm : m = n
    · subst hm
      refine hkept hlive ?_
      simp only [live, modify_self, Bool.and_eq_true, List.isEmpty_iff] at hend
      exact hend.2
    · constructor <;> simp [hm]
  case left =>
    intro m he hn ht
    by_cases hm : m = n
    · subst hm
      simpa using hleft he hn ht
    · simpa [hm] using ht

theorem Carries.raise (f : Session → Session)
    (hbegun : (b.sessions n).begun → (f (b.sessions n)).begun = true)
    (ho : (f (b.sessions n)).outcomes = (b.sessions n).outcomes)
    (hpayload : (b.sessions n).payload → (f (b.sessions n)).payload = true)
    (hcontext : (b.sessions n).context → (f (b.sessions n)).context = true)
    (hidle : (b.sessions n).idle → (f (b.sessions n)).idle = true)
    (htotal : (b.sessions n).total → (f (b.sessions n)).total = true)
    (htab : (b.sessions n).tab → (f (b.sessions n)).tab = true) :
    Carries e mine b (b.modify n f) := by
  refine .modify f hbegun (by rw [ho]; exact id) ?_ ?_ (fun _ _ => htab)
  · intro hlive hout
    simp only [live, Bool.and_eq_true, List.isEmpty_iff] at hlive
    exact absurd (ho.trans hlive.2) hout
  · intro _ _
    exact ⟨id, fun _ => id, by simpa using hpayload, by simpa using hcontext, by simpa using hidle,
      fun _ => by simpa using htotal, fun _ => by simpa using htab⟩

theorem Carries.clear (f : Session → Session) (hnot : b.live n = false)
    (hbegun : (f (b.sessions n)).begun = (b.sessions n).begun)
    (ho : (f (b.sessions n)).outcomes = (b.sessions n).outcomes)
    (htab : (f (b.sessions n)).tab = (b.sessions n).tab) : Carries e mine b (b.modify n f) := by
  refine .modify f (by rw [hbegun]; exact id) (by rw [ho]; exact id) ?_ ?_ ?_
  · intro hlive
    simp [hnot] at hlive
  · intro hlive
    simp [hnot] at hlive
  · rw [htab]
    exact fun _ _ => id

theorem Carries.note (hmine : mine n) : Carries e mine b (b.note n status) := by
  refine .modify _ id (by simp) (fun _ _ => hmine) ?_ fun _ hn => absurd hmine hn
  intro _ hout
  simp at hout

theorem note_not_live : (b.note n status).live n = false := by
  simp [live, Background.note]

theorem Carries.closeTab (hmay : b.mayClose n ∨ e = .tabClosed n)
    (hmine : mine n ∨ e = .tabClosed n) : Carries e mine b (b.closeTab n) := by
  unfold Background.closeTab
  split
  · rename_i htab
    refine Carries.spawn (.modify _ id id ?_ ?_ ?_)
    · intro hlive hout
      simp only [live, Bool.and_eq_true, List.isEmpty_iff] at hlive
      exact absurd hlive.2 hout
    · intro hlive _
      rcases hmay with hmay | rfl
      · simp [mayClose, hlive, htab] at hmay
      · constructor <;> simp
    · intro he hn
      exact absurd (hmine.resolve_right he) hn
  · exact .refl

theorem Carries.createTab (dsl : Bool) : Carries e mine b (b.createTab dsl) :=
  Carries.spawn (Carries.trans (c := { b with next := b.next + 1 }) (.of_eq rfl rfl rfl)
    (.raise _ id rfl id id id id (by simp)))

theorem Carries.proceed (after : After) : Carries e mine b (b.proceed after) := by
  cases after with
  | nothing => exact .refl
  | start dsl => exact .createTab dsl
  | abort => exact .of_eq rfl rfl rfl

variable {closeTab : Bool} {after : After}

theorem Carries.cleanupActive (hended : ∀ n, b.active = some n → b.live n = false) :
    Carries e mine b (b.cleanupActive status closeTab after) := by
  unfold Background.cleanupActive
  cases ha : b.active with
  | none => exact .proceed after
  | some n =>
    have hforgotten : Carries e mine b { b with active := none } :=
      .of_sessions rfl (fun _ _ => id) fun m hlive _ hm => by
        rw [hended m hm] at hlive
        cases hlive
    have hnot : ({ b with active := none } : Background).live n = false := hended n ha
    exact (hforgotten.trans (.clear _ hnot rfl rfl rfl)).spawn

theorem Carries.endActive (hmine : ∀ n, b.active = some n → mine n) :
    Carries e mine b (b.endActive status closeTab after) := by
  unfold Background.endActive
  cases ha : b.active with
  | none => exact .proceed after
  | some n =>
    refine (Carries.note (hmine n ha)).trans (.cleanupActive fun m hm => ?_)
    have hm : b.active = some m := hm
    obtain rfl := mem_unique ha hm
    exact note_not_live

theorem Carries.clearStorage (hnone : ∀ m, b.live m = false) : Carries e mine b (b.clearStorage n) := by
  have hunstored : Carries e mine b { b with storedKey := none } :=
    .of_sessions rfl (fun m hlive => absurd hlive (by simp [hnone m])) fun _ _ _ => id
  exact hunstored.trans (.clear _ (hnone n) rfl rfl rfl)

theorem Carries.store (hmay : b.mayStore n) : Carries e mine b { b with storedKey := some n } := by
  refine .of_sessions rfl (fun m hlive hk => ?_) fun _ _ _ => id
  obtain rfl : m = n := by simpa [mayStore, hk, hlive] using hmay
  rfl

theorem Carries.activate (hnone : b.active = none) : Carries e mine b { b with active := some n } := by
  refine .of_sessions rfl (fun _ _ => id) fun m _ _ hm => ?_
  rw [hnone] at hm
  cases hm

/-! ## Steps -/

theorem Carries.proceedClosed {closing : Closing}
    (hmine : ∀ dsl, closing = .start dsl → ∀ n, b.active = some n → mine n) :
    Carries e mine b (b.proceedClosed closing) := by
  cases closing with
  | start dsl => exact .endActive (hmine dsl rfl)
  | abort => exact .of_eq rfl rfl rfl
  | recover => exact Carries.refl.spawn

theorem Carries.recover : Carries e mine b b.recover := by
  unfold Background.recover
  split
  · exact .refl
  · exact .of_eq rfl rfl rfl

theorem not_live_of_head (hhead : (b.sessions n).outcomes.head? = some status) : b.live n = false := by
  cases ho : (b.sessions n).outcomes with
  | nil => simp [ho] at hhead
  | cons st sts => simp [live, ho]

theorem mayClose_of_not_live (hnot : b.live n = false) : b.mayClose n = true := by
  simp [mayClose, hnot]

theorem eq_of_alone (halone : b.alone n) (ha : b.active = some m) : m = n := by
  simpa [alone, ha] using halone

theorem Carries.cleanup {next : Point} {verdict : Verdict}
    (h : Inv (b.spawn (.cleanup n status closeTab next after)))
    (hmay : b.mayResume verdict (.cleanup n status closeTab next after)) (hmine : mine n) :
    Carries e mine b (b.resume verdict (.cleanup n status closeTab next after)) := by
  have hnot : b.live n = false := not_live_of_head (jobOK_of_spawn h).2.1
  cases next with
  | idleAlarm => exact (Carries.clear _ hnot rfl rfl rfl).spawn
  | abortRunner => exact Carries.refl.spawn
  | storage =>
    refine (Carries.clearStorage fun m => ?_).spawn
    exact not_live_of_mayStore (h := h) hmay hnot m
  | tab =>
    cases closeTab with
    | false => exact Carries.refl.spawn
    | true => exact (Carries.closeTab (.inl (mayClose_of_not_live hnot)) (.inl hmine)).spawn
  | broadcast =>
    have htold : Carries e mine b (b.modify n fun s =>
        { s with broadcasts := s.broadcasts ++ [(status, b.wizard)] }) :=
      .raise _ id rfl id id id id id
    simp only [Background.resume, Background.broadcast]
    split
    · exact htold.trans (.proceed after)
    · exact htold.spawn

theorem Carries.resume {job : Job} {verdict : Verdict} (h : Inv (b.spawn job))
    (hmay : b.mayResume verdict job) (hmine : ∀ n, b.ofJob n job → mine n) :
    Carries e mine b (b.resume verdict job) := by
  -- a session that only `n` can be superseded by is `n`
  have hself : ∀ n, b.ofJob n job → b.alone n = true → ∀ m, b.active = some m → mine m :=
    fun n hn halone m ha => eq_of_alone halone ha ▸ hmine n hn
  cases job with
  | cleanup n status closeTab next after => exact .cleanup h hmay (hmine n (by simp [ofJob]))
  | completing n status read after =>
    cases read with
    | none => exact .proceed after
    | some m => exact (Carries.raise _ id rfl id id id id id).spawn
  | told after => exact .proceed after
  | retaining n =>
    refine .cleanupActive fun m ha => ?_
    obtain rfl := eq_of_alone hmay ha
    exact not_live_of_head (jobOK_of_spawn h)
  | forget read closing => exact .of_eq rfl rfl rfl
  | release read closing =>
    cases read with
    | none =>
      refine .proceedClosed ?_
      rintro dsl rfl n ha
      exact hmine n (by simp [ofJob, ha])
    | some n =>
      have hnot : b.live n = false := not_live_of_head (jobOK_of_spawn h)
      exact (Carries.closeTab (.inl (mayClose_of_not_live hnot)) (.inl (hmine n (by simp [ofJob])))).spawn
  | released closing =>
    refine .proceedClosed ?_
    rintro dsl rfl n ha
    exact hmine n (by simp [ofJob, ha])
  | created n =>
    refine Carries.spawn ((Carries.store hmay).trans ?_)
    exact .raise _ (by simp) rfl (by simp) id id id id
  | stored n =>
    simp only [mayResume, Bool.and_eq_true, isNone_iff_eq_none] at hmay
    refine Carries.spawn ((Carries.activate (n := n) hmay.1).trans ?_)
    exact .raise _ id rfl id id id (by simp) id
  | armed n =>
    refine Carries.spawn (Carries.trans (c := { b with serial := false }) (.of_eq rfl rfl rfl) ?_)
    exact .raise _ id rfl id id (by simp) id id
  | booting n =>
    simp only [Background.resume]
    split
    · rename_i hcase
      simp only [Bool.and_eq_true, decide_eq_true_eq, beq_iff_eq] at hcase
      refine .endActive fun m ha => ?_
      obtain rfl := mem_unique hcase.2 ha
      exact hmine n (by simp [ofJob])
    · exact .refl
  | visited n =>
    cases verdict with
    | gone => exact .refl
    | refused =>
      simp only [mayResume, Bool.and_eq_true] at hmay
      exact .endActive (hself n (by simp [ofJob]) hmay.1)
    | passed =>
      simp only [mayResume, mayPersist, Bool.and_eq_true] at hmay
      exact (Carries.store hmay.2).spawn
  | hopped n => exact Carries.refl.spawn
  | resuming n payload =>
    cases payload with
    | true => exact Carries.refl.spawn
    | false =>
      simp only [mayResume, Bool.false_or, Bool.and_eq_true] at hmay
      exact .endActive (hself n (by simp [ofJob]) hmay.1)
  | injected n =>
    simp only [Background.resume]
    split
    · rename_i hrefused
      simp only [mayResume, hrefused, bne_self_eq_false, Bool.false_or, Bool.and_eq_true] at hmay
      exact .endActive (hself n (by simp [ofJob]) hmay.1)
    · exact .refl
  | removed n =>
    simp only [Background.resume]
    split
    · rename_i hlistening
      refine .endActive fun m ha => ?_
      have hactive : b.active = some n := (h.session n).listening hlistening
      obtain rfl := mem_unique hactive ha
      exact hmine n (by simp [ofJob])
    · exact .refl
  | alarm n total read =>
    simp only [Background.resume]
    split
    · refine Carries.trans (c := b.note n .failure) (.note (hmine n (by simp [ofJob])))
        (Carries.spawn ?_)
      exact .clear _ note_not_live rfl rfl rfl
    · exact .refl
  | finishing n status fits session retained =>
    simp only [Background.resume]
    split
    · exact .refl
    · rename_i hretained
      simp only [mayResume, beq_iff_eq, hretained, Bool.or_eq_true, false_or, Bool.and_eq_true,
        bne_iff_ne, Bool.not_eq_true'] at hmay
      rw [if_pos (by simpa using hmay.1)]
      exact .closeTab (.inl hmay.2) (.inl (hmine n (by simp [ofJob])))
  | finished n status | reported n status => exact absurd (jobOK_of_spawn h) id
  | recovering retained =>
    simp only [Background.resume]
    split <;> exact Carries.refl.spawn
  | recoverSession read =>
    cases read with
    | none => exact .of_eq rfl rfl rfl
    | some n =>
      simp only [Background.resume]
      split
      · rename_i hrefused
        simp only [mayResume, hrefused, bne_self_eq_false, Bool.false_or, Bool.and_eq_true,
          Bool.not_eq_true'] at hmay
        refine Carries.trans (c := b.clearStorage n) (.clearStorage fun m => ?_)
          (.of_eq rfl rfl rfl)
        exact not_live_of_mayStore (h := h) hmay.2 hmay.1 m
      · exact Carries.refl.spawn
  | recoverTab n =>
    simp only [mayResume, Background.resume] at hmay ⊢
    split
    · rename_i hcase
      rw [if_pos (by simpa using hcase)] at hmay
      simp only [Bool.and_eq_true, Bool.not_eq_true'] at hmay
      refine Carries.trans (c := b.clearStorage n) (.clearStorage fun m => ?_) (.of_eq rfl rfl rfl)
      exact not_live_of_mayStore (h := h) hmay.2 hmay.1 m
    · rename_i hcase
      rw [if_neg (by simpa using hcase)] at hmay
      simp only [Bool.and_eq_true, isNone_iff_eq_none] at hmay
      refine Carries.spawn ((Carries.activate (n := n) hmay.1).trans ?_)
      exact .raise _ id rfl id id id (by simp) id
  | rearmed n =>
    have harmed : Carries e mine b ({ b with recoveryInFlight := false }.modify n
        fun s => { s with idle := true }) := by
      refine Carries.trans (c := { b with recoveryInFlight := false }) (.of_eq rfl rfl rfl) ?_
      exact .raise _ id rfl id id (by simp) id id
    simp only [Background.resume]
    split
    · exact harmed.spawn
    · exact harmed

theorem Carries.step (h : Inv b) (hsole : b.sole e) :
    Carries e (fun n => b.owns n e = true) b (b.step e) := by
  cases e with
  | start dsl =>
    simp only [Background.step]
    split
    · exact .refl
    · cases dsl <;> exact .of_eq rfl rfl rfl
  | abort =>
    simp only [Background.step]
    split
    · exact .refl
    · split
      · exact .of_eq rfl rfl rfl
      · refine Carries.trans (c := { b with serial := true }) (.of_eq rfl rfl rfl) ?_
        refine .endActive fun m ha => ?_
        have ha : b.active = some m := ha
        simp [owns, ha]
  | progress n =>
    simp only [Background.step]
    split
    · rename_i ha
      exact .store (by simpa [sole, ha] using hsole)
    · exact .refl
  | context n =>
    simp only [Background.step]
    split
    · exact .raise _ id rfl id (by simp) id id id
    · exact .refl
  | complete n status fits =>
    simp only [Background.step]
    split
    · rename_i m ha
      simp only [sole, ha] at hsole
      split
      · rename_i hnm
        rw [if_pos hnm] at hsole
        exact .closeTab (.inl hsole) (.inl (by simp [owns]))
      · rename_i hnm
        obtain rfl : n = m := not_not.mp hnm
        split
        · exact .refl
        · split
          · refine Carries.trans (c := b.note n .success) (.note ?_) (.of_eq rfl rfl rfl)
            simp [owns]
          · refine .endActive fun k hk => ?_
            obtain rfl := mem_unique ha hk
            simp [owns]
    · split
      · exact Carries.refl.spawn
      · exact .refl
  | alarm n total =>
    simp only [Background.step]
    split
    · rename_i htotal
      subst htotal
      split
      · refine Carries.spawn (.modify _ id id ?_ ?_ fun _ _ => id)
        · intro hlive hout
          simp only [live, Bool.and_eq_true, List.isEmpty_iff] at hlive
          exact absurd hlive.2 hout
        · intro _ _
          constructor <;> simp
      · exact .refl
    · split
      · exact Carries.refl.spawn
      · exact .refl
  | tabUpdated n =>
    simp only [Background.step]
    split
    · exact Carries.refl.spawn
    · exact .refl
  | tabClosed n => exact .closeTab (.inr rfl) (.inr rfl)
  | wizard connected => exact .of_eq rfl rfl rfl
  | restart =>
    refine Carries.trans (c := { b with
      sessions := fun n => { b.sessions n with listening := false }
      active := none, wizard := false, serial := false, recoveryInFlight := false
      jobs := [] }) ?_ .recover
    constructor
    case begun => exact fun _ => id
    case ended => exact fun _ => id
    case own =>
      intro m hlive hend
      have hend : b.live m = false := hend
      rw [hlive] at hend
      cases hend
    case kept =>
      intro m _ _
      exact ⟨id, fun he => absurd rfl he, id, id, id, fun _ => id, fun _ => id⟩
    case left => exact fun _ _ _ => id
  | startup => exact .recover
  | resume k verdict =>
    simp only [Background.step]
    split
    · exact .refl
    · rename_i job hjob
      have hmay : b.mayResume verdict job := by simpa [sole, hjob] using hsole
      have hperm : Inv ({ b with jobs := b.jobs.eraseIdx k }.spawn job) :=
        h.perm (perm_eraseIdx hjob)
      refine Carries.trans (c := { b with jobs := b.jobs.eraseIdx k }) (.of_eq rfl rfl rfl) ?_
      refine .resume hperm (mayResume_erase hjob hmay) fun n hn => ?_
      have hn : b.ofJob n job := by cases job <;> exact hn
      simpa [owns, hjob] using hn

theorem Inv.keeps (h : Inv b) (hsole : b.sole e) : b.Keeps e (b.step e) := by
  have hcarries := Carries.step h hsole
  refine ⟨hcarries.own, hcarries.kept, fun n he hn => ?_⟩
  exact hcarries.left n he (by simp [hn])

/-- Every run of sole segments ends each session once, and leaves the other sessions alone. -/
theorem sole_outcome (es : List Event) (h : Meets Background.step (fun b e => b.sole e = true) init es) :
    Always Background.step OneOutcome init es ∧
      Meets Background.step (fun b e => b.Keeps e (b.step e)) init es := by
  constructor
  · refine (h.always Inv.init fun b e hI hsole => hI.step hsole).mono fun b hI => hI.oneOutcome
  · exact h.within Inv.init (fun b e hI hsole => hI.step hsole) fun b e hI hsole => hI.keeps hsole

/-- A replay of a wizard that succeeds, and whose tab is closed when it is aborted. -/
def succeeded : List Event :=
  [.wizard true, .start true] ++ List.replicate 6 (.resume 0 .passed) ++
    [.tabUpdated 0] ++ List.replicate 4 (.resume 0 .passed) ++
    [.progress 0, .context 0, .wizard false, .complete 0 .success true] ++
    List.replicate 8 (.resume 0 .passed) ++ [.abort] ++ List.replicate 4 (.resume 0 .passed)

theorem succeeded_outcome : (Always Background.step OneOutcome init succeeded ∧
      Meets Background.step (fun b e => b.Keeps e (b.step e)) init succeeded) ∧
    (run Background.step init succeeded).jobs = [] ∧
    (run Background.step init succeeded).sessions 0 =
      ⟨false, false, false, false, false, false, true, true, [.success], [(.success, false)], [.success]⟩ :=
  ⟨sole_outcome succeeded (by decide +kernel), by decide +kernel, by decide +kernel⟩

/-- The total alarm of a DSL replay in memory rings: the replay is cleaned up, but stays in memory
with its listeners, so that the closing of its tab cleans it up once more. -/
def timedOut : List Event :=
  [.start true] ++ List.replicate 6 (.resume 0 .passed) ++ [.alarm 0 true] ++
    List.replicate 15 (.resume 0 .passed)

theorem timedOut_twice : ¬ ∀ es, Always Background.step OneOutcome init es ∧
      Meets Background.step (fun b e => b.Keeps e (b.step e)) init es := by
  intro hall
  have hone := ((hall timedOut).1.run.once 0).1
  have htwice : ((run Background.step init timedOut).sessions 0).broadcasts.length = 2 := by
    decide +kernel
  simp [htwice] at hone

end Background

end ReplaySessions

end Aegis
