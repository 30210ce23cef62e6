import Mathlib.Data.List.Sort

/-!
# Lib.Sorting

A stable sort by a key: where each item of a list comes to stand (`getElem_sortOn`).
-/

namespace Aegis

open List Option

namespace Sorting

variable {α κ : Type} [LinearOrder κ]

/-- The stable sort by the key `f`. -/
def sortOn (f : α → κ) (l : List α) : List α := l.insertionSort fun a b => f a ≤ f b

/-- How many items the sort puts before the item `a` at index `k`: those with a smaller key, and
those with the same key before it. -/
def rank (f : α → κ) (l : List α) (k : Nat) (a : α) : Nat :=
  (l.take k).countP (fun b => f b ≤ f a) + (l.drop (k + 1)).countP fun b => f b < f a

variable {f : α → κ} {l : List α} {a b : α} {i k : Nat}

variable (f l) in
theorem perm_sortOn : (sortOn f l).Perm l := perm_insertionSort _ l

theorem mem_sortOn : a ∈ sortOn f l ↔ a ∈ l := (perm_sortOn f l).mem_iff

variable (f l) in
theorem pairwise_sortOn : (sortOn f l).Pairwise fun a b => f a ≤ f b := by
  have htotal : Std.Total (fun a b : α => f a ≤ f b) := ⟨fun a b => le_total (f a) (f b)⟩
  have htrans : IsTrans α (fun a b : α => f a ≤ f b) := ⟨fun _ _ _ => le_trans⟩
  exact pairwise_insertionSort _ l

theorem getElem_orderedInsert_self (hl : l.Pairwise fun a b => f a ≤ f b) :
    (l.orderedInsert (fun a b => f a ≤ f b) a)[l.countP fun b => f b < f a]? = some a := by
  induction l with
  | nil => rfl
  | cons b l ih =>
    obtain ⟨hb, hl⟩ := pairwise_cons.mp hl
    rw [orderedInsert_cons]
    by_cases hab : f a ≤ f b
    · have hnone : (b :: l).countP (fun b => f b < f a) = 0 := by
        refine countP_eq_zero.mpr fun c hc => ?_
        rw [decide_eq_true_eq, not_lt]
        rcases mem_cons.mp hc with rfl | hc
        · exact hab
        · exact hab.trans (hb c hc)
      rw [if_pos hab, hnone]
      rfl
    · have hone : (b :: l).countP (fun b => f b < f a) = (l.countP fun b => f b < f a) + 1 :=
        countP_cons_of_pos (decide_eq_true (not_le.mp hab))
      rw [if_neg hab, hone, getElem?_cons_succ]
      exact ih hl

theorem getElem_orderedInsert (hl : l.Pairwise fun a b => f a ≤ f b) (hi : l[i]? = some b) :
    (l.orderedInsert (fun a b => f a ≤ f b) a)[i + if f a ≤ f b then 1 else 0]? = some b := by
  induction l generalizing i with
  | nil => cases hi
  | cons c l ih =>
    obtain ⟨hc, hl⟩ := pairwise_cons.mp hl
    rw [orderedInsert_cons]
    by_cases hac : f a ≤ f c
    · have hcb : f c ≤ f b := by
        rcases mem_cons.mp (mem_of_getElem? hi) with rfl | hb
        · exact le_refl _
        · exact hc b hb
      rw [if_pos hac, if_pos (hac.trans hcb), getElem?_cons_succ, hi]
    · rw [if_neg hac]
      cases i with
      | zero =>
        obtain rfl : c = b := some.inj hi
        rw [if_neg hac]
        rfl
      | succ i =>
        rw [Nat.succ_add, getElem?_cons_succ]
        exact ih hl hi

/-- An element of the sorted list stands at its rank. -/
theorem getElem_sortOn (h : l[k]? = some a) : (sortOn f l)[rank f l k a]? = some a := by
  induction l generalizing k with
  | nil => cases h
  | cons b l ih =>
    have hsorted := pairwise_sortOn f l
    cases k with
    | zero =>
      obtain rfl : b = a := some.inj h
      have hrank : rank f (b :: l) 0 b = (sortOn f l).countP fun c => f c < f b := by
        rw [rank, (perm_sortOn f l).countP_eq]
        simp
      rw [hrank]
      exact getElem_orderedInsert_self hsorted
    | succ k =>
      have hrank : rank f (b :: l) (k + 1) a = rank f l k a + if f b ≤ f a then 1 else 0 := by
        simp only [rank, take_succ_cons, drop_succ_cons, countP_cons, decide_eq_true_eq]
        omega
      rw [hrank]
      exact getElem_orderedInsert hsorted (ih h)

end Sorting

end Aegis
