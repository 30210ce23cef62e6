import Mathlib.Data.List.Basic

/-!
# Lib.Run

Runs of a system whose step is a function of the state and an event: the events carry every
choice the environment makes (who acts next, the clock, fresh names), so a run is a list of events
and every interleaving is one.

* `run`     — the state after a list of events.
* `Always`  — a property of every state of a run, the first and the last included.
* `Meets`   — a condition on every step of a run, stated of the state the step starts from.

`run_invariant` and `Meets.invariant` are the two invariant rules: preserved by every step, or by
every step that meets the condition. `always_iff_meets` is the rule for a condition that is also
necessary.
-/

namespace Aegis

variable {σ ε : Type} (step : σ → ε → σ)

/-- The state after the events `es`, in order. -/
def run (s : σ) (es : List ε) : σ := es.foldl step s

@[simp] theorem run_cons (s : σ) (e : ε) (es : List ε) :
    run step s (e :: es) = run step (step s e) es := rfl

theorem run_append (s : σ) (es fs : List ε) : run step s (es ++ fs) = run step (run step s es) fs :=
  List.foldl_append

/-- `P` holds in every state of the run of `es` from `s`. -/
def Always (P : σ → Prop) : σ → List ε → Prop
  | s, [] => P s
  | s, e :: es => P s ∧ Always P (step s e) es

/-- Every step of the run of `es` from `s` meets `C` in the state it starts from. -/
def Meets (C : σ → ε → Prop) : σ → List ε → Prop
  | _, [] => True
  | s, e :: es => C s e ∧ Meets C (step s e) es

instance Always.decidable (P : σ → Prop) [DecidablePred P] :
    ∀ s es, Decidable (Always step P s es)
  | s, [] => inferInstanceAs (Decidable (P s))
  | s, e :: es =>
    have := Always.decidable P (step s e) es
    inferInstanceAs (Decidable (P s ∧ Always step P (step s e) es))

instance Meets.decidable (C : σ → ε → Prop) [∀ s e, Decidable (C s e)] :
    ∀ s es, Decidable (Meets step C s es)
  | _, [] => .isTrue trivial
  | s, e :: es =>
    have := Meets.decidable C (step s e) es
    inferInstanceAs (Decidable (C s e ∧ Meets step C (step s e) es))

variable {step} {P I : σ → Prop} {A C : σ → ε → Prop} {s : σ} {es fs : List ε} {e : ε}

theorem run_invariant (hstep : ∀ s e, I s → I (step s e)) (h : I s) : I (run step s es) := by
  induction es generalizing s with
  | nil => exact h
  | cons e es ih => exact ih (hstep s e h)

theorem Always.head (h : Always step P s es) : P s := by
  cases es with
  | nil => exact h
  | cons e es => exact h.1

theorem Always.run (h : Always step P s es) : P (run step s es) := by
  induction es generalizing s with
  | nil => exact h
  | cons e es ih => exact ih h.2

theorem Always.follow {Q : σ → Prop} (h : Always step P s es) (hQ : Q s)
    (hstep : ∀ s e, P s → Q s → Q (step s e)) : Always step Q s es := by
  induction es generalizing s with
  | nil => exact hQ
  | cons e es ih => exact ⟨hQ, ih h.2 (hstep s e h.1 hQ)⟩

theorem Meets.invariant (h : Meets step C s es) (hI : I s)
    (hstep : ∀ s e, I s → C s e → I (step s e)) : I (run step s es) := by
  induction es generalizing s with
  | nil => exact hI
  | cons e es ih => exact ih h.2 (hstep s e hI h.1)

theorem Meets.and (hA : Meets step A s es) (hC : Meets step C s es) :
    Meets step (fun s e => A s e ∧ C s e) s es := by
  induction es generalizing s with
  | nil => trivial
  | cons e es ih => exact ⟨⟨hA.1, hC.1⟩, ih hA.2 hC.2⟩

theorem Meets.always (h : Meets step C s es) (hI : I s)
    (hstep : ∀ s e, I s → C s e → I (step s e)) : Always step I s es := by
  induction es generalizing s with
  | nil => exact hI
  | cons e es ih => exact ⟨hI, ih h.2 (hstep s e hI h.1)⟩

theorem Meets.within {D : σ → ε → Prop} (h : Meets step C s es) (hI : I s)
    (hstep : ∀ s e, I s → C s e → I (step s e)) (himp : ∀ s e, I s → C s e → D s e) :
    Meets step D s es := by
  induction es generalizing s with
  | nil => trivial
  | cons e es ih => exact ⟨himp s e hI h.1, ih h.2 (hstep s e hI h.1)⟩

/-- A condition on every step is a condition on the step after every prefix. -/
theorem meets_iff_prefixes : Meets step C s es ↔
    ∀ before e after, es = before ++ e :: after → C (run step s before) e := by
  induction es generalizing s with
  | nil => simp [Meets]
  | cons e es ih =>
    constructor
    · rintro ⟨he, hes⟩ (_ | ⟨b, before⟩) e' after heq
      · obtain ⟨rfl, rfl⟩ := List.cons.inj heq
        exact he
      · obtain ⟨rfl, rfl⟩ := List.cons.inj heq
        exact ih.mp hes before e' after rfl
    · intro h
      exact ⟨h [] e es rfl, ih.mpr fun before e' after heq => h (e :: before) e' after (by rw [heq]; rfl)⟩

theorem Always.mono {Q : σ → Prop} (h : Always step P s es) (himp : ∀ s, P s → Q s) :
    Always step Q s es := by
  induction es generalizing s with
  | nil => exact himp s h
  | cons e es ih => exact ⟨himp s h.1, ih h.2⟩

/-- A property that each step keeps exactly when it meets `C` holds throughout exactly when every
step meets `C`. `A` is what is promised of every step, and `I` what is then known of every
state. -/
theorem always_iff_meets_within (hA : Meets step A s es) (hI : I s)
    (hkeep : ∀ s e, I s → A s e → I (step s e)) (hP : P s)
    (hstep : ∀ s e, I s → A s e → P s → (P (step s e) ↔ C s e)) :
    Always step P s es ↔ Meets step C s es := by
  induction es generalizing s with
  | nil => simp [Always, Meets, hP]
  | cons e es ih =>
    have hI' := hkeep s e hI hA.1
    constructor
    · rintro ⟨_, h⟩
      have hC := (hstep s e hI hA.1 hP).mp h.head
      exact ⟨hC, (ih hA.2 hI' h.head).mp h⟩
    · rintro ⟨hC, h⟩
      have hP' := (hstep s e hI hA.1 hP).mpr hC
      exact ⟨hP, (ih hA.2 hI' hP').mpr h⟩

theorem Always.meets (h : Always step P s es) (hstep : ∀ s e, P (step s e) → C s e) :
    Meets step C s es := by
  induction es generalizing s with
  | nil => trivial
  | cons e es ih => exact ⟨hstep s e h.2.head, ih h.2⟩

theorem meets_of_forall {A : ε → Prop} (h : ∀ e ∈ es, A e) : Meets step (fun _ => A) s es := by
  induction es generalizing s with
  | nil => trivial
  | cons e es ih =>
    obtain ⟨he, hes⟩ := List.forall_mem_cons.mp h
    exact ⟨he, ih hes⟩

/-- The rule with nothing promised of the steps. -/
theorem always_iff_meets (hI : I s) (hkeep : ∀ s e, I s → I (step s e)) (hP : P s)
    (hstep : ∀ s e, I s → P s → (P (step s e) ↔ C s e)) :
    Always step P s es ↔ Meets step C s es :=
  always_iff_meets_within (A := fun _ _ => True) (meets_of_forall fun _ _ => trivial) hI
    (fun s e h _ => hkeep s e h) hP fun s e h _ => hstep s e h

end Aegis
