import Mathlib.Algebra.BigOperators.Group.List.Basic
import Mathlib.Algebra.Order.Ring.Int
import Mathlib.Data.List.Chain

/-!
# Lib.Packing

A list cut into groups of bounded weight, in order and each as long as the bound allows.

* `pack`   — the loop that fills one group after the other.
* `Packed` — what it makes: there is only one such way to cut a list.
-/

namespace Aegis

open List

variable {α : Type} (weight : α → Int) (budget : Int)

def weigh (l : List α) : Int := (l.map weight).sum

/-- The groups of `l` after `current`, whose weight is `n`. -/
def pack : List α → Int → List α → List (List α)
  | current, _, [] => if current.isEmpty then [] else [current]
  | current, n, a :: l =>
    if !current.isEmpty && budget < n + weight a then current :: pack [a] (weight a) l
    else pack (current ++ [a]) (n + weight a) l

/-- `groups` are `l` in order; none is empty, each is within the budget, and none has room for the
first element of the next. -/
structure Packed (l : List α) (groups : List (List α)) : Prop where
  flatten : groups.flatten = l
  nonempty : ∀ g ∈ groups, g ≠ []
  within : ∀ g ∈ groups, weigh weight g ≤ budget
  full : groups.IsChain fun g h => ∀ a ∈ h.head?, budget < weigh weight g + weight a

variable {weight budget} {l current : List α} {groups groups' : List (List α)} {a : α}

@[simp] theorem weigh_append (l l' : List α) :
    weigh weight (l ++ l') = weigh weight l + weigh weight l' := by
  simp [weigh]

@[simp] theorem weigh_singleton (a : α) : weigh weight [a] = weight a := by
  simp [weigh]

theorem weigh_nonneg (hw : ∀ a, 0 ≤ weight a) (l : List α) : 0 ≤ weigh weight l := by
  induction l with
  | nil => exact le_refl _
  | cons a l ih =>
    have := hw a
    simp only [weigh, map_cons, sum_cons] at ih ⊢
    omega

/-- The group under way is the beginning of the first group. -/
theorem pack_head (hc : current ≠ []) (n : Int) (l : List α) :
    ∃ more rest, pack weight budget current n l = (current ++ more) :: rest := by
  induction l generalizing current n with
  | nil => exact ⟨[], [], by simp [pack, hc]⟩
  | cons a l ih =>
    rw [pack]
    split
    · exact ⟨[], _, by rw [append_nil]⟩
    · obtain ⟨more, rest, h⟩ := @ih (current ++ [a]) (by simp) (n + weight a)
      exact ⟨a :: more, rest, by rw [h, append_assoc]; rfl⟩

theorem pack_packed (hc : current ≠ [] → weigh weight current ≤ budget)
    (hl : ∀ a ∈ l, weight a ≤ budget) :
    Packed weight budget (current ++ l) (pack weight budget current (weigh weight current) l) := by
  induction l generalizing current with
  | nil =>
    by_cases hnil : current = []
    · subst hnil
      exact ⟨rfl, nofun, nofun, .nil⟩
    · have hone : pack weight budget current (weigh weight current) [] = [current] := by
        simp [pack, hnil]
      rw [hone]
      exact ⟨by simp, by simpa using hnil, by simpa using hc hnil, .singleton _⟩
  | cons a l ih =>
    obtain ⟨ha, hl⟩ := forall_mem_cons.mp hl
    rw [pack]
    split
    · rename_i hover
      simp only [Bool.and_eq_true, Bool.not_eq_true', isEmpty_eq_false_iff, decide_eq_true_eq] at hover
      have h := @ih [a] (fun _ => by simpa using ha) hl
      rw [weigh_singleton] at h
      obtain ⟨more, rest, hhead⟩ := @pack_head α weight budget [a]
        (cons_ne_nil a []) (weight a) l
      refine ⟨by rw [flatten_cons, h.flatten]; rfl, ?_, ?_, ?_⟩
      · exact forall_mem_cons.mpr ⟨hover.1, h.nonempty⟩
      · exact forall_mem_cons.mpr ⟨hc hover.1, h.within⟩
      · have hchain := h.full
        rw [hhead] at hchain ⊢
        refine hchain.cons_cons ?_
        intro b hb
        obtain rfl : a = b := by simpa using hb
        exact hover.2
    · rename_i hroom
      have hweigh : weigh weight (current ++ [a]) = weigh weight current + weight a := by simp
      have h := @ih (current ++ [a]) (fun _ => ?_) hl
      · rwa [hweigh, append_assoc] at h
      · by_cases hnil : current = []
        · subst hnil
          simpa using ha
        · rw [hweigh]
          simpa [hnil] using hroom

theorem Packed.tail {g : List α} (h : Packed weight budget l (g :: groups)) :
    Packed weight budget groups.flatten groups :=
  ⟨rfl, fun x hx => h.nonempty x (mem_cons_of_mem _ hx), fun x hx => h.within x (mem_cons_of_mem _ hx),
    (isChain_cons.mp h.full).2⟩

/-- A group has no room for what comes after it. -/
theorem Packed.no_room {g more : List α} (hw : ∀ a, 0 ≤ weight a)
    (h : Packed weight budget l (g :: groups)) (hne : more ≠ []) {rest : List α}
    (hmore : groups.flatten = more ++ rest) : budget < weigh weight (g ++ more) := by
  obtain ⟨a, more, rfl⟩ := exists_cons_of_ne_nil hne
  cases groups with
  | nil => cases hmore
  | cons next groups =>
    obtain ⟨b, next, rfl⟩ := exists_cons_of_ne_nil
      (h.nonempty next (mem_cons_of_mem _ mem_cons_self))
    obtain rfl : b = a := (cons.inj hmore).1
    have hfull := (isChain_cons_cons.mp h.full).1 b rfl
    have hrest := weigh_nonneg hw more
    have hsplit : weigh weight (g ++ b :: more) = weigh weight g + weight b + weigh weight more := by
      rw [← singleton_append, weigh_append, weigh_append, weigh_singleton, Int.add_assoc]
    omega

theorem Packed.unique (hw : ∀ a, 0 ≤ weight a) (h : Packed weight budget l groups)
    (h' : Packed weight budget l groups') : groups = groups' := by
  induction groups generalizing l groups' with
  | nil =>
    cases groups' with
    | nil => rfl
    | cons g' groups' =>
      have hflat := h'.flatten.trans h.flatten.symm
      exact absurd (append_eq_nil_iff.mp hflat).1 (h'.nonempty g' mem_cons_self)
  | cons g groups ih =>
    cases groups' with
    | nil =>
      have hflat := h.flatten.trans h'.flatten.symm
      exact absurd (append_eq_nil_iff.mp hflat).1 (h.nonempty g mem_cons_self)
    | cons g' groups' =>
      have hflat : g ++ groups.flatten = g' ++ groups'.flatten := h.flatten.trans h'.flatten.symm
      have hg : g = g' ∧ groups.flatten = groups'.flatten := by
        rcases append_eq_append_iff.mp hflat with ⟨more, rfl, hmore⟩ | ⟨more, rfl, hmore⟩
        · by_cases hne : more = []
          · subst hne
            exact ⟨(append_nil g).symm, hmore⟩
          · have hover := h.no_room hw hne hmore
            exact absurd (h'.within _ mem_cons_self) (not_le.mpr hover)
        · by_cases hne : more = []
          · subst hne
            exact ⟨append_nil g', hmore.symm⟩
          · have hover := h'.no_room hw hne hmore
            exact absurd (h.within _ mem_cons_self) (not_le.mpr hover)
      obtain ⟨rfl, hrest⟩ := hg
      rw [ih h.tail (hrest ▸ h'.tail)]

/-- **Packing**: the loop makes the one way to cut the list. -/
theorem packed_iff (hw : ∀ a, 0 ≤ weight a) (hl : ∀ a ∈ l, weight a ≤ budget) :
    Packed weight budget l groups ↔ groups = pack weight budget [] 0 l := by
  have hpack : Packed weight budget l (pack weight budget [] 0 l) :=
    @pack_packed α weight budget l [] (fun h => absurd rfl h) hl
  constructor
  · exact fun h => h.unique hw hpack
  · rintro rfl
    exact hpack

end Aegis
