import Mathlib.Data.List.Induction

/-!
# Engine.StepPath

Positions of steps in the tree of a rule, of `scriptcat-engine/step-path.ts`.
-/

namespace Aegis

open List

inductive Branch where
  | thenSteps | elseSteps
deriving DecidableEq

inductive StepPathFrame where
  | top (childIdx : Int)
  | inIf (branch : Branch) (childIdx : Int)
  | inLoop (iter : Nat) (childIdx : Int)
  | inSwitch (caseIdx : Int) (childIdx : Int)
  | inGroup (childIdx : Int)
deriving DecidableEq

abbrev StepPath := List StepPathFrame

namespace StepPathFrame

def childIdx : StepPathFrame → Int
  | top i | inIf _ i | inLoop _ i | inSwitch _ i | inGroup i => i

/-- `{ ...frame, childIdx }`. -/
def withChildIdx (i : Int) : StepPathFrame → StepPathFrame
  | top _ => top i
  | inIf branch _ => inIf branch i
  | inLoop iter _ => inLoop iter i
  | inSwitch caseIdx _ => inSwitch caseIdx i
  | inGroup _ => inGroup i

/-- `frameTuple`. -/
def tuple : StepPathFrame → List Int
  | top i => [0, i]
  | inIf branch i => [1, if branch = .thenSteps then 0 else 1, i]
  | inLoop iter i => [2, iter, i]
  | inSwitch caseIdx i => [3, caseIdx, i]
  | inGroup i => [4, i]

end StepPathFrame

def compareLists {α : Type} (cmp : α → α → Ordering) : List α → List α → Ordering
  | [], [] => .eq
  | [], _ :: _ => .lt
  | _ :: _, [] => .gt
  | a :: l, b :: m => (cmp a b).then (compareLists cmp l m)

def compareNumbers (a b : Int) : Ordering := if a < b then .lt else if b < a then .gt else .eq

def compareFrame (a b : StepPathFrame) : Ordering := compareLists compareNumbers a.tuple b.tuple

def comparePath (a b : StepPath) : Ordering := compareLists compareFrame a b

def nextPendingPath (prev : StepPath) : StepPath :=
  match prev.getLast? with
  | none => [.top 0]
  | some last => prev.dropLast ++ [last.withChildIdx (last.childIdx + 1)]

-- The steps within a group come after the group.
example : comparePath [.top 1] [.top 1, .inGroup 0] = .lt := by
  simp [comparePath, compareFrame, compareLists, compareNumbers, StepPathFrame.tuple]

section Compare

variable {α : Type} {cmp : α → α → Ordering} {l m n : List α} {a b : α}

theorem compareLists_self (h : ∀ a, cmp a a = .eq) (l : List α) : compareLists cmp l l = .eq := by
  induction l with
  | nil => rfl
  | cons a l ih => rw [compareLists, h, ih]; rfl

theorem eq_of_compareLists (h : ∀ a b, cmp a b = .eq → a = b) (hlm : compareLists cmp l m = .eq) :
    l = m := by
  induction l generalizing m with
  | nil =>
    cases m with
    | nil => rfl
    | cons b m => cases hlm
  | cons a l ih =>
    cases m with
    | nil => cases hlm
    | cons b m =>
      rw [compareLists, Ordering.then_eq_eq] at hlm
      rw [h a b hlm.1, ih hlm.2]

theorem compareLists_trans (heq : ∀ a b, cmp a b = .eq → a = b)
    (h : ∀ a b c, cmp a b = .lt → cmp b c = .lt → cmp a c = .lt)
    (hlm : compareLists cmp l m = .lt) (hmn : compareLists cmp m n = .lt) :
    compareLists cmp l n = .lt := by
  induction l generalizing m n with
  | nil =>
    cases n with
    | nil => cases m <;> cases hmn
    | cons c n => rfl
  | cons a l ih =>
    cases m with
    | nil => cases hlm
    | cons b m =>
      cases n with
      | nil => cases hmn
      | cons c n =>
        rw [compareLists, Ordering.then_eq_lt] at hlm hmn ⊢
        rcases hlm with hab | ⟨hab, hlm⟩
        · rcases hmn with hbc | ⟨hbc, -⟩
          · exact .inl (h a b c hab hbc)
          · exact .inl (heq b c hbc ▸ hab)
        · obtain rfl := heq a b hab
          rcases hmn with hbc | ⟨hbc, hmn⟩
          · exact .inl hbc
          · exact .inr ⟨hbc, ih hlm hmn⟩

theorem compareLists_append (hself : ∀ a, cmp a a = .eq) (l : List α) (h : m ≠ []) :
    compareLists cmp l (l ++ m) = .lt := by
  induction l with
  | nil =>
    cases m with
    | nil => exact absurd rfl h
    | cons b m => rfl
  | cons a l ih =>
    rw [cons_append, compareLists, hself]
    exact ih

theorem compareLists_of_cons (hself : ∀ a, cmp a a = .eq) (l : List α) (hab : cmp a b = .lt) :
    compareLists cmp (l ++ a :: m) (l ++ b :: n) = .lt := by
  induction l with
  | nil =>
    rw [nil_append, nil_append, compareLists, hab]
    rfl
  | cons c l ih =>
    rw [cons_append, cons_append, compareLists, hself]
    exact ih

end Compare

theorem compareNumbers_self (i : Int) : compareNumbers i i = .eq := by simp [compareNumbers]

theorem eq_of_compareNumbers (i j : Int) (h : compareNumbers i j = .eq) : i = j := by
  unfold compareNumbers at h
  split_ifs at h
  omega

theorem compareNumbers_eq_lt {i j : Int} : compareNumbers i j = .lt ↔ i < j := by
  unfold compareNumbers
  split_ifs <;> simp_all

theorem compareFrame_self (a : StepPathFrame) : compareFrame a a = .eq :=
  compareLists_self compareNumbers_self _

variable {a b : StepPathFrame}

theorem tuple_injective (h : a.tuple = b.tuple) : a = b := by
  cases a with
  | inIf branch i =>
    cases b with
    | inIf branch' j => cases branch <;> cases branch' <;> simp_all [StepPathFrame.tuple]
    | _ => simp [StepPathFrame.tuple] at h
  | inLoop iter i =>
    cases b with
    | inLoop iter' j =>
      simp only [StepPathFrame.tuple, List.cons.injEq, true_and, and_true] at h
      obtain ⟨hiter, rfl⟩ := h
      rw [Int.ofNat_inj.mp hiter]
    | _ => simp [StepPathFrame.tuple] at h
  | _ => cases b <;> simp_all [StepPathFrame.tuple]

theorem eq_of_compareFrame (h : compareFrame a b = .eq) : a = b :=
  tuple_injective (eq_of_compareLists eq_of_compareNumbers h)

theorem compareFrame_trans {a b c : StepPathFrame} (hab : compareFrame a b = .lt)
    (hbc : compareFrame b c = .lt) : compareFrame a c = .lt := by
  refine compareLists_trans eq_of_compareNumbers (fun i j k hij hjk => ?_) hab hbc
  rw [compareNumbers_eq_lt] at *
  omega

theorem comparePath_self (p : StepPath) : comparePath p p = .eq :=
  compareLists_self compareFrame_self p

theorem comparePath_trans {p q r : StepPath} (hpq : comparePath p q = .lt)
    (hqr : comparePath q r = .lt) : comparePath p r = .lt :=
  compareLists_trans (fun _ _ => eq_of_compareFrame)
    (fun _ _ _ => compareFrame_trans) hpq hqr

theorem comparePath_append (p : StepPath) {q : StepPath} (h : q ≠ []) : comparePath p (p ++ q) = .lt :=
  compareLists_append compareFrame_self p h

theorem comparePath_of_frame (p : StepPath) {q r : StepPath}
    (h : compareFrame a b = .lt) : comparePath (p ++ a :: q) (p ++ b :: r) = .lt :=
  compareLists_of_cons compareFrame_self p h

theorem compareFrame_withChildIdx (f : StepPathFrame) {i : Int} (h : f.childIdx < i) :
    compareFrame f (f.withChildIdx i) = .lt := by
  have hlt : compareNumbers f.childIdx i = .lt := compareNumbers_eq_lt.mpr h
  cases f <;>
    simp_all [compareFrame, StepPathFrame.withChildIdx, StepPathFrame.childIdx,
      StepPathFrame.tuple, compareLists, compareNumbers_self]

theorem nextPendingPath_append (p : StepPath) (last : StepPathFrame) :
    nextPendingPath (p ++ [last]) = p ++ [last.withChildIdx (last.childIdx + 1)] := by
  rw [nextPendingPath, getLast?_concat]
  dsimp only
  rw [dropLast_concat]

theorem comparePath_nextPendingPath (p : StepPath) : comparePath p (nextPendingPath p) = .lt := by
  cases p using List.reverseRecOn with
  | nil => rfl
  | append_singleton p last =>
    rw [nextPendingPath_append]
    exact comparePath_of_frame p (compareFrame_withChildIdx last (by omega))

end Aegis
