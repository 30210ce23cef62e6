import Aegis.Lib.Assoc
import Mathlib.Data.String.Basic

/-!
# Recording.Json

JSON values. An object is the list of its fields in the order of their keys, so that two values
that agree as JSON are the same (`Json.wf`); the numbers are of any kind.
-/

namespace Aegis

inductive Json (ν : Type) where
  | null
  | bool (b : Bool)
  | num (n : ν)
  | str (s : String)
  | arr (items : List (Json ν))
  | obj (fields : List (String × Json ν))

namespace Json

variable {ν : Type}

mutual

def wf : Json ν → Bool
  | .null | .bool _ | .num _ | .str _ => true
  | .arr items => wfItems items
  | .obj fields => decide (Assoc.Sorted fields) && wfFields fields

def wfItems : List (Json ν) → Bool
  | [] => true
  | v :: items => wf v && wfItems items

def wfFields : List (String × Json ν) → Bool
  | [] => true
  | (_, v) :: fields => wf v && wfFields fields

end

@[elab_as_elim]
theorem ind {P : Json ν → Prop} (null : P .null) (bool : ∀ b, P (.bool b)) (num : ∀ n, P (.num n))
    (str : ∀ s, P (.str s)) (arr : ∀ items, (∀ v ∈ items, P v) → P (.arr items))
    (obj : ∀ fields : List (String × Json ν), (∀ key v, (key, v) ∈ fields → P v) →
      P (.obj fields)) (v : Json ν) : P v :=
  @Json.rec ν P (fun items => ∀ v ∈ items, P v)
    (fun fields => ∀ key v, (key, v) ∈ fields → P v) (fun f => P f.2)
    null bool num str (fun items ih => arr items ih) (fun fields ih => obj fields ih)
    (fun _ h => absurd h List.not_mem_nil) (fun _ _ hv hitems => List.forall_mem_cons.mpr
      ⟨hv, hitems⟩)
    (fun _ _ h => absurd h List.not_mem_nil)
    (fun f _ hf hfields key v h => by
      rcases List.mem_cons.mp h with rfl | h
      · exact hf
      · exact hfields key v h)
    (fun _ _ hv => hv) v

variable {v : Json ν} {items : List (Json ν)} {fields : List (String × Json ν)} {key : String}

theorem wfItems_iff : wfItems items ↔ ∀ v ∈ items, wf v = true := by
  induction items with
  | nil => simp [wfItems]
  | cons v items ih => simp [wfItems, ih]

theorem wfFields_iff : wfFields fields ↔ ∀ f ∈ fields, wf f.2 = true := by
  induction fields with
  | nil => simp [wfFields]
  | cons f fields ih => simp [wfFields, ih]

theorem wf_obj : wf (.obj fields) ↔ Assoc.Sorted fields ∧ ∀ f ∈ fields, wf f.2 = true := by
  rw [wf, Bool.and_eq_true, decide_eq_true_eq, wfFields_iff]

theorem wf_of_lookup (h : ∀ f ∈ fields, wf f.2) (hv : fields.lookup key = some v) :
    wf v := h (key, v) (Assoc.mem_of_lookup hv)

end Json

end Aegis
