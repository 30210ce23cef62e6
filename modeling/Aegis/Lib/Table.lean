import Mathlib.Data.List.Nodup

/-!
# Lib.Table

A relational table with a primary key: rows in insertion order, no two rows with one key.

The operations are the statements a program sends to a database. `find?` reads by key, `insert?`
adds a row or refuses a key that is taken, `update` rewrites every row that meets a condition.
A `SET` clause carries the columns it leaves alone, so uniqueness is never re-proved by a caller.
-/

namespace Aegis

open List

/-- A `SET` clause that leaves the columns `cols` alone. -/
structure SetClause {ρ κ : Type} (cols : ρ → κ) where
  set : ρ → ρ
  keeps : ∀ r, cols (set r) = cols r

/-- `SET f WHERE p`, on one row. -/
def setIf {ρ : Type} (p : ρ → Bool) (f : ρ → ρ) (r : ρ) : ρ := if p r then f r else r

theorem setIf_pos {ρ : Type} {p : ρ → Bool} {f : ρ → ρ} {r : ρ} (h : p r) :
    setIf p f r = f r := if_pos h

theorem setIf_neg {ρ : Type} {p : ρ → Bool} {f : ρ → ρ} {r : ρ} (h : p r = false) : setIf p f r = r := by
  simp [setIf, h]

theorem SetClause.keeps_setIf {ρ κ : Type} {cols : ρ → κ} (f : SetClause cols) (p : ρ → Bool)
    (r : ρ) : cols (setIf p f.set r) = cols r := by
  unfold setIf
  split
  · exact f.keeps r
  · rfl

/-- Rows in insertion order, with distinct primary keys. -/
structure Table {ρ κ : Type} (key : ρ → κ) where
  rows : List ρ
  nodup : (rows.map key).Nodup

namespace Table

variable {ρ κ : Type} {key : ρ → κ}

def empty : Table key := ⟨[], nodup_nil⟩

def any (t : Table key) (p : ρ → Bool) : Bool := t.rows.any p

/-- `UPDATE ... SET f WHERE p`. -/
def update (t : Table key) (p : ρ → Bool) (f : SetClause key) : Table key where
  rows := t.rows.map (setIf p f.set)
  nodup := by
    have : key ∘ setIf p f.set = key := funext (f.keeps_setIf p)
    rw [map_map, this]
    exact t.nodup

/-- `DELETE ... WHERE p`. -/
def delete (t : Table key) (p : ρ → Bool) : Table key where
  rows := t.rows.filter fun r => !p r
  nodup := t.nodup.sublist (filter_sublist.map key)

@[simp] theorem empty_rows : (empty : Table key).rows = [] := rfl

@[simp] theorem update_rows (t : Table key) (p : ρ → Bool) (f : SetClause key) :
    (t.update p f).rows = t.rows.map (setIf p f.set) := rfl

theorem ext {t u : Table key} (h : t.rows = u.rows) : t = u := by
  cases t; cases u; cases h; rfl

variable {t : Table key} {p : ρ → Bool}

theorem any_eq_true : t.any p ↔ ∃ r ∈ t.rows, p r = true := List.any_eq_true

theorem any_eq_false : t.any p = false ↔ ∀ r ∈ t.rows, p r = false := by
  simp [any]

theorem map_setIf_of_none {l : List ρ} {f : ρ → ρ} (h : ∀ r ∈ l, p r = false) : l.map (setIf p f) = l := by
  conv_rhs => rw [← map_id l]
  exact map_congr_left fun r hr => setIf_neg (h r hr)

theorem eq_of_key {r q : ρ} (hr : r ∈ t.rows) (hq : q ∈ t.rows) (h : key r = key q) : r = q :=
  inj_on_of_nodup_map t.nodup hr hq h

section Keys

variable [DecidableEq κ]

/-- `SELECT ... WHERE key = k`. -/
def find? (t : Table key) (k : κ) : Option ρ := t.rows.find? fun r => decide (key r = k)

/-- `INSERT`: refused when the key is taken. -/
def insert? (t : Table key) (r : ρ) : Option (Table key) :=
  if h : key r ∈ t.rows.map key then none
  else some ⟨t.rows ++ [r], by
    rw [map_append, map_singleton]
    exact t.nodup.append (nodup_singleton _) (by simpa using h)⟩

@[simp] theorem find?_empty (k : κ) : (empty : Table key).find? k = none := rfl

variable {t : Table key} {k : κ} {r : ρ}

theorem find?_eq_some : t.find? k = some r ↔ r ∈ t.rows ∧ key r = k := by
  constructor
  · intro h
    exact ⟨mem_of_find?_eq_some h, by simpa using find?_some h⟩
  · rintro ⟨hr, rfl⟩
    cases h : t.find? (key r) with
    | none => exact absurd (List.find?_eq_none.mp h r hr) (by simp)
    | some q =>
      have hq : key q = key r := by simpa using find?_some h
      rw [eq_of_key (mem_of_find?_eq_some h) hr hq]

theorem find?_key (h : r ∈ t.rows) : t.find? (key r) = some r :=
  find?_eq_some.mpr ⟨h, rfl⟩

theorem mem_of_find? (h : t.find? k = some r) : r ∈ t.rows :=
  (find?_eq_some.mp h).1

theorem key_of_find? (h : t.find? k = some r) : key r = k :=
  (find?_eq_some.mp h).2

theorem find?_self (h : t.find? k = some r) : t.find? (key r) = some r :=
  (key_of_find? h).symm ▸ h

theorem eq_of_find? {r q : ρ} (hr : t.find? k = some r)
    (hq : t.find? (key q) = some q) (h : key q = k) : q = r := by
  rw [h] at hq
  exact Option.mem_unique hq hr

theorem find?_eq_none : t.find? k = none ↔ ∀ r ∈ t.rows, key r ≠ k := by
  simp [find?, List.find?_eq_none]

theorem find?_update (t : Table key) (p : ρ → Bool) (f : SetClause key) (k : κ) :
    (t.update p f).find? k = (t.find? k).map (setIf p f.set) := by
  cases h : t.find? k with
  | none =>
    refine find?_eq_none.mpr fun r hr => ?_
    obtain ⟨q, hq, rfl⟩ := mem_map.mp hr
    rw [f.keeps_setIf p q]
    exact find?_eq_none.mp h q hq
  | some r =>
    obtain ⟨hr, rfl⟩ := find?_eq_some.mp h
    exact find?_eq_some.mpr ⟨mem_map.mpr ⟨r, hr, rfl⟩, f.keeps_setIf p r⟩

variable {t u : Table key}

theorem insert?_eq_some : t.insert? r = some u ↔ t.find? (key r) = none ∧ u.rows = t.rows ++ [r] := by
  rw [insert?, find?_eq_none]
  split
  · rename_i h
    obtain ⟨q, hq, he⟩ := mem_map.mp h
    simpa using fun hn : ∀ q ∈ t.rows, key q ≠ key r => absurd he (hn q hq)
  · rename_i h
    have hn : ∀ q ∈ t.rows, key q ≠ key r := fun q hq he => h (mem_map.mpr ⟨q, hq, he⟩)
    constructor
    · rintro ⟨⟩; exact ⟨hn, rfl⟩
    · rintro ⟨_, hu⟩; exact congrArg some (ext hu.symm)

theorem exists_insert? (h : t.find? (key r) = none) : ∃ u, t.insert? r = some u := by
  cases hu : t.insert? r with
  | some u => exact ⟨u, rfl⟩
  | none =>
    unfold insert? at hu
    split at hu
    · rename_i hmem
      obtain ⟨q, hq, he⟩ := mem_map.mp hmem
      exact absurd he (find?_eq_none.mp h q hq)
    · cases hu

theorem find?_of_insert? (h : t.insert? r = some u) (k : κ) :
    u.find? k = if key r = k then some r else t.find? k := by
  obtain ⟨hn, hu⟩ := insert?_eq_some.mp h
  rw [find?, hu, find?_append]
  split
  · rename_i he
    subst he
    rw [show t.rows.find? _ = none from hn]
    simp
  · rename_i he
    simp [find?, he]

theorem find?_insert?_of_some {r q : ρ} (h : t.insert? r = some u)
    (hq : t.find? k = some q) : u.find? k = some q := by
  rw [find?_of_insert? h, if_neg, hq]
  rintro rfl
  rw [(insert?_eq_some.mp h).1] at hq
  cases hq

variable {p : ρ → Bool}

/-- `COUNT(*) = 1` of a condition that fixes the key. -/
theorem countP_eq_one (hp : ∀ r, p r → key r = k) :
    t.rows.countP p = 1 ↔ ∃ r, t.find? k = some r ∧ p r = true := by
  constructor
  · intro h
    obtain ⟨r, hr, hpr⟩ := countP_pos_iff.mp (by omega : 0 < t.rows.countP p)
    exact ⟨r, hp r hpr ▸ find?_key hr, hpr⟩
  · rintro ⟨r, hr, hpr⟩
    have hpos : 0 < t.rows.countP p := countP_pos_iff.mpr ⟨r, mem_of_find? hr, hpr⟩
    have hle : t.rows.countP p ≤ t.rows.countP fun r => key r == k :=
      countP_mono_left fun r _ h => by simpa using hp r h
    have hcount : (t.rows.countP fun r => key r == k) = (t.rows.map key).count k := by
      rw [List.count, countP_map]
      rfl
    have hone := nodup_iff_count_le_one.mp t.nodup k
    omega

/-- `UPDATE ... SET f WHERE key = k`. -/
def updateRow (t : Table key) (k : κ) (f : SetClause key) : Table key :=
  t.update (fun r => decide (key r = k)) f

theorem update_eq_updateRow (f : SetClause key)
    (hp : ∀ r, p r → key r = k) (hr : t.find? k = some r) (hpr : p r) :
    t.update p f = t.updateRow k f := by
  refine ext (map_congr_left fun q hq => ?_)
  by_cases hk : key q = k
  · have hqr : q = r := eq_of_key hq (mem_of_find? hr) (hk.trans (key_of_find? hr).symm)
    subst hqr
    rw [setIf_pos hpr, setIf_pos (by simpa using hk)]
  · have hpq : p q = false := by
      by_contra h
      exact hk (hp q (by simpa using h))
    rw [setIf_neg hpq, setIf_neg (by simpa using hk)]

theorem find?_updateRow (t : Table key) (k : κ) (f : SetClause key) (j : κ) :
    (t.updateRow k f).find? j = if j = k then (t.find? j).map f.set else t.find? j := by
  unfold updateRow
  rw [find?_update]
  cases h : t.find? j with
  | none => simp
  | some r =>
    have hkey := key_of_find? h
    subst hkey
    by_cases hk : key r = k
    all_goals simp [hk, setIf]

theorem mem_updateRow {f : SetClause key} : r ∈ (t.updateRow k f).rows ↔
      (r ∈ t.rows ∧ key r ≠ k) ∨ ∃ q, t.find? k = some q ∧ r = f.set q := by
  simp only [updateRow, update_rows, mem_map]
  constructor
  · rintro ⟨q, hq, rfl⟩
    by_cases hk : key q = k
    · rw [setIf_pos (by simpa using hk)]
      exact .inr ⟨q, find?_eq_some.mpr ⟨hq, hk⟩, rfl⟩
    · rw [setIf_neg (by simpa using hk)]
      exact .inl ⟨hq, hk⟩
  · rintro (⟨hr, hk⟩ | ⟨q, hq, rfl⟩)
    · exact ⟨r, hr, setIf_neg (by simpa using hk)⟩
    · exact ⟨q, mem_of_find? hq, setIf_pos (by simpa using key_of_find? hq)⟩

theorem countP_updateRow (f : SetClause key) (q : ρ → Bool) (hr : t.find? k = some r) :
    (t.updateRow k f).rows.countP q + (if q r then 1 else 0) =
      t.rows.countP q + if q (f.set r) then 1 else 0 := by
  obtain ⟨hmem, rfl⟩ := find?_eq_some.mp hr
  obtain ⟨l₁, l₂, hl⟩ := append_of_mem hmem
  have hnd := t.nodup
  rw [hl, map_append, map_cons, nodup_middle, nodup_cons] at hnd
  have hrest : ∀ l : List ρ, (∀ x ∈ l, x ∈ l₁ ++ l₂) →
      l.map (setIf (fun x => decide (key x = key r)) f.set) = l := by
    intro l hsub
    refine map_setIf_of_none fun x hx => ?_
    have hne : key x ≠ key r := by
      intro he
      refine hnd.1 ?_
      rw [← map_append, ← he]
      exact mem_map_of_mem (hsub x hx)
    simpa using hne
  simp only [updateRow, update_rows, hl, map_append, map_cons, countP_append, countP_cons]
  rw [hrest l₁ fun x hx => mem_append_left _ hx,
    hrest l₂ fun x hx => mem_append_right _ hx, setIf_pos (by simp)]
  omega

/-- `u` is `t` with the row `r` under its key, whether it was there before or not. -/
def Wrote (t u : Table key) (r : ρ) : Prop :=
  ∀ k, u.find? k = if key r = k then some r else t.find? k

theorem wrote_insert? (h : t.insert? r = some u) : t.Wrote u r :=
  find?_of_insert? h

theorem wrote_updateRow (f : SetClause key)
    (hr : t.find? (key r) = some r) : t.Wrote (t.updateRow (key r) f) (f.set r) := by
  intro k
  rw [find?_updateRow, f.keeps r]
  by_cases hk : k = key r
  · rw [if_pos hk, if_pos hk.symm, hk, hr]
    rfl
  · rw [if_neg hk, if_neg (Ne.symm hk)]

namespace Wrote

variable {t u : Table key} {r q : ρ} {k : κ}

theorem self (h : t.Wrote u r) : u.find? (key r) = some r := by
  rw [h, if_pos rfl]

theorem of_ne (h : t.Wrote u r) (hk : key r ≠ k) : u.find? k = t.find? k := by
  rw [h, if_neg hk]

theorem cases (h : t.Wrote u r) (hq : u.find? k = some q) :
    (k = key r ∧ q = r) ∨ (key r ≠ k ∧ t.find? k = some q) := by
  rw [h] at hq
  split at hq
  · rename_i hk
    exact .inl ⟨hk.symm, (Option.some.inj hq).symm⟩
  · rename_i hk
    exact .inr ⟨hk, hq⟩

theorem refl (h : t.find? (key r) = some r) : t.Wrote t r := by
  intro k
  by_cases hk : key r = k
  · rw [if_pos hk, ← hk, h]
  · rw [if_neg hk]

theorem again {v : Table key} (h : t.Wrote u r) (hv : t.Wrote v q) (hk : key q = key r) : v.Wrote u r := by
  intro k
  rw [h k]
  by_cases hr : key r = k
  · rw [if_pos hr, if_pos hr]
  · rw [if_neg hr, if_neg hr, hv.of_ne (hk ▸ hr)]

/-- A property that the row written and the row it replaces lack tells the same rows before and
after. -/
theorem iff_of_not {P : ρ → Prop} (h : t.Wrote u r) (hr : ¬P r)
    (hold : ∀ o, t.find? (key r) = some o → ¬P o) (hq : P q) :
    u.find? (key q) = some q ↔ t.find? (key q) = some q := by
  by_cases hk : key r = key q
  · constructor
    · intro hu
      rw [h, if_pos hk] at hu
      cases hu
      exact absurd hq hr
    · intro ht
      rw [← hk] at ht
      exact absurd hq (hold q ht)
  · rw [h.of_ne hk]

end Wrote

theorem find?_delete (t : Table key) (p : ρ → Bool) (k : κ) :
    (t.delete p).find? k = (t.find? k).filter fun r => !p r := by
  have hmem : ∀ r, r ∈ (t.delete p).rows ↔ r ∈ t.rows ∧ p r = false := fun r => by simp [delete]
  cases h : t.find? k with
  | none =>
    rw [Option.filter_none, find?_eq_none]
    intro r hr
    exact find?_eq_none.mp h r ((hmem r).mp hr).1
  | some r =>
    obtain ⟨hr, rfl⟩ := find?_eq_some.mp h
    cases hp : p r with
    | true =>
      rw [Option.filter_some_neg (by simp [hp]), find?_eq_none]
      intro q hq hk
      obtain ⟨hq, hpq⟩ := (hmem q).mp hq
      rw [eq_of_key hq hr hk, hp] at hpq
      cases hpq
    | false =>
      rw [Option.filter_some_pos (by simp [hp])]
      exact find?_key ((hmem r).mpr ⟨hr, hp⟩)

theorem find?_delete_eq_some {t : Table key} {p : ρ → Bool} {k : κ} {r : ρ} :
    (t.delete p).find? k = some r ↔ t.find? k = some r ∧ p r = false := by
  rw [find?_delete, Option.filter_eq_some_iff]
  simp

/-- The tables agree on the columns `cols`, row by row. -/
def Agree {γ : Type} (cols : ρ → γ) (t u : Table key) : Prop :=
  ∀ k, (u.find? k).map cols = (t.find? k).map cols

namespace Agree

variable {γ : Type} {cols : ρ → γ} {t u : Table key} {k : κ} {r : ρ}

theorem refl : Agree cols t t := fun _ => rfl

theorem of_eq (h : u = t) : Agree cols t u := h ▸ refl

theorem of_wrote {q : ρ} (h : t.Wrote u q) (hr : t.find? (key q) = some r)
    (hc : cols q = cols r) : Agree cols t u := by
  intro k
  by_cases hk : key q = k
  · rw [← hk, h.self, hr, Option.map_some, Option.map_some, hc]
  · rw [h.of_ne hk]

theorem of_update (t : Table key) (p : ρ → Bool) (f : SetClause key)
    (hf : ∀ r, cols (f.set r) = cols r) : Agree cols t (t.update p f) := by
  intro k
  rw [find?_update, Option.map_map]
  congr 1
  funext r
  simp only [Function.comp, setIf]
  split
  · exact hf r
  · rfl

theorem row (h : Agree cols t u) (hr : t.find? k = some r) : ∃ q, u.find? k = some q ∧ cols q = cols r := by
  have hk := h k
  rw [hr] at hk
  exact Option.map_eq_some_iff.mp hk

theorem symm (h : Agree cols t u) : Agree cols u t := fun k => (h k).symm

end Agree

end Keys

/-! ## Rows of one group

`filter` by a column that updates leave alone, as in a child table read by its parent. -/

theorem filter_update (t : Table key) (p q : ρ → Bool) (f : SetClause key) (hq : ∀ r, q (f.set r) = q r) :
    (t.update p f).rows.filter q = (t.rows.filter q).map (setIf p f.set) := by
  rw [update_rows, filter_map]
  congr 1
  apply filter_congr
  intro r _
  simp only [Function.comp, setIf]
  split
  · exact hq r
  · rfl

theorem filter_update_out (t : Table key) (p q : ρ → Bool) (f : SetClause key)
    (hq : ∀ r, q (f.set r) = false) :
    (t.update p f).rows.filter q = (t.rows.filter q).filter fun r => !p r := by
  rw [update_rows]
  induction t.rows with
  | nil => rfl
  | cons r l ih =>
    by_cases hp : p r
    · by_cases hr : q r <;> simp [setIf, hp, hr, hq, ih]
    · by_cases hr : q r <;> simp [setIf, hp, hr, ih]

end Table

end Aegis
