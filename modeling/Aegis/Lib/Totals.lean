import Aegis.Lib.Table
import Mathlib.Algebra.Order.BigOperators.Group.List
import Mathlib.Algebra.BigOperators.Group.List.Lemmas

/-!
# Lib.Totals

`SELECT SUM(f) ... WHERE p` over a table, and how each statement changes it: an insertion adds the
new row's amount, and an update that leaves the condition alone moves the total the way it moves
the amounts of the rows it meets.
-/

namespace Aegis

open List

namespace Table

variable {ρ κ M : Type} {key : ρ → κ} [AddCommMonoid M]

/-- The sum of `f` over the rows that meet `p`. -/
def total (t : Table key) (p : ρ → Bool) (f : ρ → M) : M := ((t.rows.filter p).map f).sum

variable {t u : Table key} {p q : ρ → Bool} {f g : ρ → M} {r : ρ}

@[simp] theorem total_empty : (empty : Table key).total p f = 0 := rfl

theorem total_congr (h : ∀ r ∈ t.rows, p r → f r = g r) : t.total p f = t.total p g := by
  unfold total
  congr 1
  refine map_congr_left fun r hr => ?_
  obtain ⟨hmem, hp⟩ := mem_filter.mp hr
  exact h r hmem hp

theorem total_congr_where (h : ∀ r ∈ t.rows, p r = q r) : t.total p f = t.total q f := by
  unfold total
  rw [filter_congr h]

theorem total_of_rows_append (h : u.rows = t.rows ++ [r]) :
    u.total p f = t.total p f + if p r then f r else 0 := by
  unfold total
  rw [h, filter_append, map_append, sum_append]
  congr 1
  split
  all_goals
    rename_i hp
    simp [hp]

theorem total_update (c : SetClause key) (hp : ∀ r, p (c.set r) = p r) :
    (t.update q c).total p f = t.total p fun r => f (setIf q c.set r) := by
  unfold total
  rw [filter_update t q p c hp, map_map]
  rfl

section Order

variable [PartialOrder M] [IsOrderedAddMonoid M]

theorem total_le (h : ∀ r ∈ t.rows, f r ≤ g r) : t.total p f ≤ t.total p g := by
  refine sum_le_sum fun r hr => ?_
  exact h r (mem_of_mem_filter hr)

theorem sum_le_total {l : List ρ} (h : ∀ r ∈ t.rows, 0 ≤ f r) (hl : l.Subperm (t.rows.filter p)) :
    0 ≤ (l.map f).sum ∧ (l.map f).sum ≤ t.total p f := by
  obtain ⟨m, hperm, hsub⟩ := hl
  have hmem : ∀ a ∈ (t.rows.filter p).map f, 0 ≤ a := by
    intro a ha
    obtain ⟨r, hr, rfl⟩ := mem_map.mp ha
    exact h r (mem_of_mem_filter hr)
  have hsum : (l.map f).sum = (m.map f).sum := (hperm.map f).sum_eq.symm
  rw [hsum]
  constructor
  · exact sum_nonneg fun a ha => hmem a ((hsub.map f).subset ha)
  · exact (hsub.map f).sum_le_sum hmem

theorem total_update_le (c : SetClause key) (hp : ∀ r, p (c.set r) = p r)
    (hf : ∀ r ∈ t.rows, q r → f (c.set r) ≤ f r) : (t.update q c).total p f ≤ t.total p f := by
  rw [total_update c hp]
  refine total_le fun r hr => ?_
  unfold setIf
  split
  · rename_i hq
    exact hf r hr hq
  · exact le_rfl

end Order

end Table

end Aegis
