import Aegis.Rules.Server

/-!
# Rules.Frame

What enhancement jobs and rejections leave alone.

* `Frame`  — the approved rules with what belongs to them, and every rule outside a set of names.
* `gentle` — a job whose result keeps the id of its baseline and meets no approved rule; a rejection
  that meets none either.
-/

namespace Aegis

open List Option Table

namespace Rules

variable {ν : Type} {P : String → Prop}

def Belongs (e : RuleEnhancement ν) : Prop :=
  e.ruleID = none ∨ e.ruleID = some (getString e.baseline "id")

/-- The rule `id` is approved. -/
def Store.Approved (s : Store ν) (id : String) : Prop :=
  ∃ r, s.rules.find? id = some r ∧ r.isApproved = true

/-- What is the same in `s'` as in `s`; `P` are the rules that may be written. -/
structure Frame (P : String → Prop) (s s' : Store ν) : Prop where
  rules : ∀ id r, s.rules.find? id = some r → r.isApproved = true → s'.rules.find? id = some r
  tasks : ∀ t ∈ s.tasks.rows, s.Approved t.ruleID → t ∈ s'.tasks.rows
  children : ∀ k ∈ s.children, ∀ t ∈ s.tasks.rows, t.id = k.taskID → s.Approved t.ruleID → k ∈ s'.children
  schedules : s'.schedules = s.schedules
  others : ∀ id, ¬P id → s'.rules.find? id = s.rules.find? id
  enhancements : ∀ e ∈ s'.enhancements.rows,
    Belongs e ∨ ∃ e₀ ∈ s.enhancements.rows, e₀.id = e.id ∧ (Belongs e₀ → Belongs e)

namespace Frame

variable {s s' s'' : Store ν}

theorem refl : Frame P s s where
  rules _ _ h _ := h
  tasks _ h _ := h
  children _ h _ _ _ _ := h
  schedules := rfl
  others _ _ := rfl
  enhancements e h := .inr ⟨e, h, rfl, id⟩

theorem approved (h : Frame P s s') {id : String} (ha : s.Approved id) : s'.Approved id := by
  obtain ⟨r, hr, happroved⟩ := ha
  exact ⟨r, h.rules id r hr happroved, happroved⟩

theorem trans (h : Frame P s s') (h' : Frame P s' s'') : Frame P s s'' where
  rules id r hr ha := h'.rules id r (h.rules id r hr ha) ha
  tasks t ht ha := h'.tasks t (h.tasks t ht ha) (h.approved ha)
  children k hk t ht htask ha :=
    h'.children k (h.children k hk t ht htask ha) t (h.tasks t ht ha) htask (h.approved ha)
  schedules := h'.schedules.trans h.schedules
  others id hid := (h'.others id hid).trans (h.others id hid)
  enhancements e he := by
    rcases h'.enhancements e he with hb | ⟨e₁, he₁, hid₁, hb₁⟩
    · exact .inl hb
    · rcases h.enhancements e₁ he₁ with hb | ⟨e₀, he₀, hid₀, hb₀⟩
      · exact .inl (hb₁ hb)
      · exact .inr ⟨e₀, he₀, hid₀.trans hid₁, fun hb => hb₁ (hb₀ hb)⟩

theorem jobs (jobs : Table (LLMJob.id (ν := ν))) : Frame P s { s with jobs } :=
  ⟨fun _ _ h _ => h, fun _ h _ => h, fun _ h _ _ _ _ => h, rfl, fun _ _ => rfl,
    fun e h => .inr ⟨e, h, rfl, fun hb => hb⟩⟩

end Frame

/-- The transaction that persists the rule `id` in the workspace is refused: the row is of another
workspace, or is pending and has tasks or schedules. -/
def Store.refuses (s : Store ν) (workspace : WorkspaceID) (id : String) : Bool :=
  match s.rules.find? id with
  | none => false
  | some r =>
    r.workspaceID ≠ workspace || (r.approvalStatus = approvalPending && s.refersTo id)

def Store.approved (s : Store ν) (id : String) : Bool :=
  match s.rules.find? id with
  | none => false
  | some r => r.isApproved

def Server.Event.accepts : Server.Event ν → Bool
  | .getEnhancement _ _ decision _ _ => decision = .accept
  | _ => false

/-- The rules that the run may write: those of its baselines, and of its decisions. -/
def Server.Event.Names (P : String → Prop) : Server.Event ν → Prop
  | .enhanceRule _ _ _ baseline => P (getString baseline "id")
  | .getEnhancement _ _ _ ruleID _ => P ruleID
  | _ => True

variable {s s' : Store ν} {workspace : WorkspaceID} {now : Time} {enhancementID : String}
  {baseline resultRule : Fields ν}

def replaced (workspace : WorkspaceID) (ruleID : String) (e : RuleEnhancement ν) : Bool :=
  e.workspaceID = workspace && e.ruleID = some ruleID && e.status = .pending

theorem persistEnhancement_ok
    (h : s.persistEnhancement workspace now enhancementID baseline resultRule = .ok s') :
    ∃ r, Rule.read resultRule = some r ∧ s.refuses workspace r.id = false ∧
      s' = { s with rules := s'.rules, enhancements := s'.enhancements } ∧
      (∀ k, k ≠ r.id → s'.rules.find? k = s.rules.find? k) ∧
      (∃ q, s'.rules.find? r.id = some q ∧ q.isApproved = false) ∧
      ∃ f, Store.Orphans r.id f ∧ (∀ k, s'.enhancements.find? k = if k = enhancementID then
          some (newEnhancement enhancementID workspace now baseline resultRule r.id)
        else ((s.enhancements.find? k).filter fun e => !replaced workspace r.id e).map f) ∧
        (s.enhancements.find? enhancementID).filter (fun e => !replaced workspace r.id e) = none := by
  unfold Store.persistEnhancement at h
  split at h
  next => cases h
  next r hread =>
    obtain ⟨s₂, h₂, h⟩ := bind_eq_ok.mp h
    obtain ⟨s₃, h₃, h₄⟩ := bind_eq_ok.mp h
    obtain ⟨heq₂, hrules₂, ⟨f, hf, henh₂⟩, hrefers⟩ := Store.deleteRow_ok h₂
    obtain ⟨⟨rules, rfl, hwrote⟩, hforeign⟩ := Store.createRule_ok h₃
    unfold Store.createRuleEnhancement at h₄
    split at h₄
    next enhancements hinsert =>
      cases h₄
      rw [heq₂] at hinsert
      have hid : (pendingRule now r).id = r.id := rfl
      have hkeyed : Rule.id (Store.upserted (pendingRule now r) workspace
          (s₂.rules.find? (pendingRule now r).id)) = r.id := rfl
      have hold : ∀ k, s₂.enhancements.find? k =
          ((s.enhancements.find? k).filter fun e => !replaced workspace r.id e).map f := by
        intro k
        rw [henh₂ k]
        change (Table.find? (Table.delete s.enhancements _) k).map f = _
        rw [find?_delete]
        rfl
      refine ⟨r, hread, ?_, by rw [heq₂]; rfl, fun k hk => ?_, ?_, f, hf, fun k => ?_, ?_⟩
      · -- a row that stays is of the workspace, and one that goes is referred to by nothing
        unfold Store.refuses
        split
        next => rfl
        next q hq =>
          by_cases hpending : isPendingIn workspace q
          · have hnone := hrefers q hq hpending
            simp only [isPendingIn, Bool.and_eq_true, decide_eq_true_eq] at hpending
            have hsame : s.refersTo r.id = false := hnone
            simp [hpending.1, hsame]
          · have hkept : s₂.rules.find? r.id = some q := by
              have hq₁ : (s.deletePendingEnhancements workspace r.id).rules.find? r.id = some q := hq
              rw [hrules₂ r.id, hq₁, filter_some]
              simp [hpending]
            have hws : q.workspaceID = workspace := hforeign q hkept
            have hstatus : ¬q.approvalStatus = approvalPending := by
              simpa [isPendingIn, hws] using hpending
            simp [hws, hstatus]
      · have hsame : s₂.rules.find? k = s.rules.find? k := by
          rw [hrules₂ k]
          change (s.rules.find? k).filter _ = s.rules.find? k
          cases hq : s.rules.find? k with
          | none => rfl
          | some q =>
            have hqk : q.id ≠ r.id := by
              intro he
              exact hk ((key_of_find? hq).symm.trans he)
            simp [hqk]
        exact (hwrote.of_ne (hkeyed ▸ Ne.symm hk)).trans hsame
      · exact ⟨_, hwrote.self, rfl⟩
      · change enhancements.find? k = _
        have hfind := find?_of_insert? hinsert k
        by_cases hk : k = enhancementID
        · rw [if_pos hk, hfind, if_pos]
          exact hk.symm
        · rw [if_neg hk, hfind, if_neg]
          · exact hold k
          · exact fun he => hk he.symm
      · have hfree : s₂.enhancements.find? enhancementID = none :=
          (insert?_eq_some.mp hinsert).1
        rw [hold enhancementID] at hfree
        exact map_eq_none_iff.mp hfree
    next => cases h₄

theorem deleteRule_ok {id : String} (h : s.deleteRule workspace id = .ok s') :
    (∀ t, t ∈ s'.tasks.rows ↔ t ∈ s.tasks.rows ∧ Store.ofRule workspace id t = false) ∧
    (∀ k, k ∈ s'.children ↔ k ∈ s.children ∧ s.isChild workspace id k = false) ∧
    s'.schedules = s.schedules ∧ s'.jobs = s.jobs ∧
    (∀ k, k ≠ id → s'.rules.find? k = s.rules.find? k) ∧ s'.rules.find? id = none ∧
    (∃ f, Store.Orphans id f ∧ ∀ k, s'.enhancements.find? k = (s.enhancements.find? k).map f) ∧
    ∀ sch ∈ s.schedules, sch.ruleID ≠ id := by
  obtain ⟨-, h⟩ := ensure_bind_eq_ok.mp h
  obtain ⟨hany, h⟩ := ensure_bind_eq_ok.mp h
  obtain ⟨q, hq, hwhere⟩ := Table.any_eq_true.mp hany
  simp only [Bool.and_eq_true, decide_eq_true_eq] at hwhere
  have hfound : s.rules.find? id = some q := Table.find?_eq_some.mpr ⟨hq, hwhere.1⟩
  obtain ⟨heq, hrules, hf, hrefers⟩ := Store.deleteRow_ok h
  have hfree := hrefers q hfound (by simpa using hwhere.2)
  refine ⟨fun t => ?_, fun k => ?_, by rw [heq], by rw [heq], fun k hk => ?_, ?_, hf,
    fun sch hsch he => ?_⟩
  · rw [heq]
    simp [Table.delete]
  · rw [heq]
    simp
  · rw [hrules k]
    change (s.rules.find? k).filter _ = s.rules.find? k
    cases hr : s.rules.find? k with
    | none => rfl
    | some r =>
      have hrk : r.id ≠ id := fun he => hk ((key_of_find? hr).symm.trans he)
      simp [hrk]
  · rw [hrules id]
    change (s.rules.find? id).filter _ = none
    rw [hfound, filter_some, if_neg]
    simp [hwhere.1, hwhere.2]
  · rw [Store.refersTo, Bool.or_eq_false_iff, List.any_eq_false] at hfree
    exact hfree.2 sch hsch (by simpa using he)

/-- Every job is for a rule of `P`, and so is every call; no call is an acceptance. -/
structure Server.Named (P : String → Prop) (s : Server ν) : Prop where
  jobs : ∀ j ∈ s.store.jobs.rows, P (getString j.baseline "id")
  calls : ∀ c ∈ s.calls, P c.ruleID ∧ c.decision = .reject

namespace Server

variable {cfg : Config} {s : Server ν} {P : String → Prop}

end Server

namespace Sample

def config : Config := ⟨fun _ => true, false⟩

def members (id : String) : Fields Nat := [("id", .str id)]

def approvedRule : Rule Nat := { Rule.zero with
  id := "rule"
  workspaceID := "default"
  enabled := true
  approvalStatus := approvalApproved }

/-- An approved rule, and a claimed job for the rule `id`. -/
def server (id : String) : Server Nat where
  store :=
    { rules := ⟨[approvedRule], nodup_singleton _⟩
      tasks := .empty
      children := []
      schedules := []
      enhancements := .empty
      jobs := ⟨[⟨"job", "default", id, members id, .running, 0⟩], nodup_singleton _⟩ }
  calls := []
  log := []

/-- The job ends without a suggestion, so its result is the baseline. -/
def finish : List (Server.Event Nat) := [.runJob "default" 1 "job" .failed "enhancement"]

theorem server_named (id : String) : (server id).Named (· = id) :=
  ⟨fun j hj => by rw [mem_singleton.mp hj]; rfl, fun _ h => (by cases h)⟩

end Sample

end Rules

end Aegis
