import Mathlib.Logic.Relation

/-!
# Lib.Outcome

Fallible steps in sequence. A sequence succeeds exactly when each of its steps does, and a loop
that stops at the first failure keeps what each of its steps keeps.
-/

namespace Aegis

section Steps

variable {ε α β : Type}

variable {x : Except ε α} {b : β}

theorem bind_eq_ok {f : α → Except ε β} : (x >>= f) = .ok b ↔ ∃ a, x = .ok a ∧ f a = .ok b := by
  cases x with
  | error e | ok a => simp [bind, Except.bind]

@[simp] theorem pure_eq_ok {a b : α} : (pure a : Except ε α) = .ok b ↔ a = b := by
  simp [pure, Except.pure]

theorem map_eq_ok {f : α → β} : f <$> x = .ok b ↔ ∃ a, x = .ok a ∧ f a = b := by
  cases x <;> simp [Functor.map, Except.map]

theorem isOk_iff : x.isOk = true ↔ ∃ a, x = .ok a := by
  cases x <;> simp [Except.isOk, Except.toBool]

/-- Stop with `e` unless `b`. -/
def ensure (b : Bool) (e : ε) : Except ε Unit := if b then .ok () else .error e

@[simp] theorem ensure_eq_ok {b : Bool} {e : ε} {u : Unit} : ensure b e = .ok u ↔ b = true := by
  cases b <;> simp [ensure]

theorem ensure_bind_eq_ok {p : Bool} {e : ε} {x : Except ε β} :
    (do ensure p e; x) = .ok b ↔ p = true ∧ x = .ok b := by
  cases p <;> simp [ensure, bind, Except.bind]

variable {f : β → α → Except ε β} {l : List α}

theorem foldlM_eq_ok {R : β → β → Prop} {b b' : β}
    (hf : ∀ b a b', f b a = .ok b' → Relation.ReflTransGen R b b')
    (h : l.foldlM f b = .ok b') : Relation.ReflTransGen R b b' := by
  induction l generalizing b with
  | nil =>
    obtain rfl := pure_eq_ok.mp h
    exact .refl
  | cons a l ih =>
    rw [List.foldlM_cons] at h
    obtain ⟨b₁, h₁, h⟩ := bind_eq_ok.mp h
    exact (hf b a b₁ h₁).trans (ih h)

theorem foldlM_ok {I : List α → β → Prop} (hf : ∀ a l b, I (a :: l) b → ∃ b', f b a = .ok b' ∧ I l b')
    (h : I l b) : ∃ b', l.foldlM f b = .ok b' ∧ I [] b' := by
  induction l generalizing b with
  | nil => exact ⟨b, rfl, h⟩
  | cons a l ih =>
    obtain ⟨b₁, h₁, hI⟩ := hf a l b h
    obtain ⟨b', hrest, hend⟩ := ih hI
    exact ⟨b', by rw [List.foldlM_cons, h₁]; exact hrest, hend⟩

end Steps

end Aegis
