import Mathlib.Order.Lattice
import Mathlib.Data.List.Basic

/-!
# Lib.Assoc

Finite maps as lists of pairs in the order of their keys: two maps that look up the same are the
same list (`Sorted.ext`).
-/

namespace Aegis

open List

namespace Assoc

variable {κ α : Type} [LinearOrder κ]

def set (k : κ) (v : α) : List (κ × α) → List (κ × α)
  | [] => [(k, v)]
  | f :: l => if k < f.1 then (k, v) :: f :: l else if k = f.1 then (k, v) :: l else f :: set k v l

def erase (k : κ) (l : List (κ × α)) : List (κ × α) := l.filter fun f => f.1 ≠ k

/-- The keys are in order, and each is there once. -/
def Sorted (l : List (κ × α)) : Prop := l.Pairwise fun f g => f.1 < g.1

instance (l : List (κ × α)) : Decidable (Sorted l) :=
  inferInstanceAs (Decidable (l.Pairwise fun f g => f.1 < g.1))

variable {k j : κ} {v : α} {f : κ × α} {l m : List (κ × α)}

theorem sorted_iff_keys : Sorted l ↔ (l.map Prod.fst).Pairwise (· < ·) :=
  pairwise_map.symm

theorem set_eq_append (h : ∀ f ∈ l, f.1 < k) : set k v l = l ++ [(k, v)] := by
  induction l with
  | nil => rfl
  | cons f l ih =>
    obtain ⟨hf, hl⟩ := forall_mem_cons.mp h
    rw [set, if_neg hf.not_gt, if_neg hf.ne', ih hl, cons_append]

section Lookup

variable [BEq κ] [LawfulBEq κ]

omit [LinearOrder κ] in
theorem lookup_cons_ne (h : j ≠ f.1) : (f :: l).lookup j = l.lookup j := by
  rw [lookup_cons, beq_eq_false_iff_ne.mpr h]

omit [LinearOrder κ] in
theorem lookup_cons_self : (f :: l).lookup f.1 = some f.2 := by
  rw [lookup_cons, beq_self_eq_true]

variable (k j v l) in
/-- Writing a key, read back. -/
theorem lookup_set :
    (set k v l).lookup j = if j = k then some v else l.lookup j := by
  induction l with
  | nil =>
    by_cases hj : j = k
    · simp [set, hj]
    · rw [set, lookup_cons_ne hj, if_neg hj]
  | cons f l ih =>
    rw [set]
    split
    · by_cases hj : j = k
      · simp [hj]
      · rw [lookup_cons_ne hj, if_neg hj]
    · split
      · rename_i hk
        by_cases hj : j = k
        · simp [hj]
        · rw [lookup_cons_ne hj, lookup_cons_ne (hk ▸ hj), if_neg hj]
      · rename_i hk
        by_cases hj : j = f.1
        · rw [if_neg fun h => hk (h.symm.trans hj), hj, lookup_cons_self, lookup_cons_self]
        · rw [lookup_cons_ne hj, lookup_cons_ne hj, ih]

variable (k j l) in
theorem lookup_erase :
    (erase k l).lookup j = if j = k then none else l.lookup j := by
  induction l with
  | nil => simp [erase]
  | cons f l ih =>
    rw [erase, filter_cons]
    split
    · rename_i hf
      by_cases hj : j = f.1
      · have hk : j ≠ k := hj ▸ of_decide_eq_true hf
        rw [if_neg hk, hj, lookup_cons_self, lookup_cons_self]
      · rw [lookup_cons_ne hj, lookup_cons_ne hj]
        exact ih
    · rename_i hf
      have hk : f.1 = k := by simpa using hf
      by_cases hj : j = k
      · rw [if_pos hj]
        rw [erase, if_pos hj] at ih
        exact ih
      · rw [lookup_cons_ne (hk ▸ hj)]
        exact ih

omit [LinearOrder κ] in
theorem lookup_filter_key (p : κ → Bool) (j : κ) (l : List (κ × α)) :
    (l.filter fun f => p f.1).lookup j = if p j then l.lookup j else none := by
  induction l with
  | nil => simp
  | cons f l ih =>
    rw [filter_cons]
    by_cases hj : j = f.1
    · subst hj
      rw [lookup_cons_self]
      split
      · rw [lookup_cons_self]
      · rename_i hf
        rw [ih, if_neg hf]
    · rw [lookup_cons_ne hj, ← ih]
      split
      · rw [lookup_cons_ne hj]
      · rfl

omit [LinearOrder κ] in
theorem mem_keys_iff : k ∈ l.map Prod.fst ↔ (l.lookup k).isSome := by
  induction l with
  | nil => simp
  | cons f l ih =>
    rw [map_cons, mem_cons, ih]
    by_cases hk : k = f.1
    · subst hk
      simp [lookup_cons_self]
    · rw [lookup_cons_ne hk]
      simp [hk]

omit [LinearOrder κ] in
theorem mem_of_lookup (h : l.lookup k = some v) : (k, v) ∈ l := by
  induction l with
  | nil => cases h
  | cons f l ih =>
    by_cases hk : k = f.1
    · subst hk
      rw [lookup_cons_self, Option.some.injEq] at h
      rw [← h]
      exact mem_cons_self
    · rw [lookup_cons_ne hk] at h
      exact mem_cons_of_mem f (ih h)

end Lookup

namespace Sorted

theorem lookup_of_mem [BEq κ] [LawfulBEq κ] (h : Sorted l) (hm : (k, v) ∈ l) : l.lookup k = some v := by
  induction l with
  | nil => cases hm
  | cons f l ih =>
    obtain ⟨hlt, hrest⟩ := pairwise_cons.mp h
    rcases mem_cons.mp hm with rfl | hm
    · exact lookup_cons_self (f := (k, v))
    · rw [lookup_cons_ne (hlt _ hm).ne']
      exact ih hrest hm

theorem lookup_eq_some_iff [BEq κ] [LawfulBEq κ] (h : Sorted l) : l.lookup k = some v ↔ (k, v) ∈ l :=
  ⟨mem_of_lookup, h.lookup_of_mem⟩

theorem mem_set (hf : f ∈ Assoc.set k v l) : f = (k, v) ∨ f ∈ l := by
  induction l with
  | nil => exact .inl (mem_singleton.mp hf)
  | cons g l ih =>
    rw [Assoc.set] at hf
    split at hf
    · exact mem_cons.mp hf
    · split at hf
      · rcases mem_cons.mp hf with h | h
        · exact .inl h
        · exact .inr (mem_cons_of_mem g h)
      · rcases mem_cons.mp hf with rfl | h
        · exact .inr mem_cons_self
        · rcases ih h with h | h
          · exact .inl h
          · exact .inr (mem_cons_of_mem g h)

theorem set (h : Sorted l) (k : κ) (v : α) : Sorted (Assoc.set k v l) := by
  induction l with
  | nil => exact pairwise_singleton _ _
  | cons g l ih =>
    obtain ⟨hlt, hrest⟩ := pairwise_cons.mp h
    rw [Assoc.set]
    split
    · rename_i hk
      refine pairwise_cons.mpr ⟨fun f hf => ?_, h⟩
      rcases mem_cons.mp hf with rfl | hf
      · exact hk
      · exact hk.trans (hlt f hf)
    · split
      · rename_i hk
        exact pairwise_cons.mpr ⟨fun f hf => hk ▸ hlt f hf, hrest⟩
      · rename_i hle hne
        refine pairwise_cons.mpr ⟨fun f hf => ?_, ih hrest⟩
        rcases mem_set hf with rfl | hf
        · exact lt_of_le_of_ne (not_lt.mp hle) (Ne.symm hne)
        · exact hlt f hf

theorem filter (h : Sorted l) (p : κ × α → Bool) : Sorted (l.filter p) := List.Pairwise.filter p h

theorem erase (h : Sorted l) (k : κ) : Sorted (Assoc.erase k l) := h.filter _

theorem nodup_keys (h : Sorted l) : (l.map Prod.fst).Nodup :=
  pairwise_map.mpr (h.imp fun hlt => ne_of_lt hlt)

variable [BEq κ] [LawfulBEq κ]

/-- Sorted lists with the same values are the same. -/
theorem ext (hl : Sorted l) (hm : Sorted m) (h : ∀ k, l.lookup k = m.lookup k) : l = m := by
  have hmem : ∀ f, f ∈ l ↔ f ∈ m := by
    rintro ⟨k, v⟩
    rw [← hl.lookup_eq_some_iff, ← hm.lookup_eq_some_iff, h]
  have hperm : l.Perm m := by
    refine (perm_ext_iff_of_nodup ?_ ?_).mpr hmem
    · exact hl.imp fun {a b} hlt => fun heq : a = b => lt_irrefl b.1 (heq ▸ hlt)
    · exact hm.imp fun {a b} hlt => fun heq : a = b => lt_irrefl b.1 (heq ▸ hlt)
  exact hperm.eq_of_pairwise (fun a b _ _ hab hba => absurd hab hba.not_gt) hl hm

theorem set_self (h : Sorted l) (hv : l.lookup k = some v) : Assoc.set k v l = l := by
  refine (h.set k v).ext h fun j => ?_
  rw [lookup_set]
  split
  · rename_i hj
    rw [hj, hv]
  · rfl

theorem set_set (h : Sorted l) (k : κ) (v w : α) : Assoc.set k v (Assoc.set k w l) = Assoc.set k v l := by
  refine ((h.set k w).set k v).ext (h.set k v) fun j => ?_
  rw [lookup_set, lookup_set, lookup_set]
  split <;> rfl

end Sorted

end Assoc

end Aegis
