import Mathlib.Data.List.Basic

/-!
# Lib.Prog

Programs that perform operations and branch on the answers, with the world left open: a program is
a tree, so one definition has every semantics that answers its operations.

* `Prog`           — the trees, a monad.
* `Trace`          — the operations and answers of a run, up to any point.
* `Leads`          — the operations and answers of a run to its end, and what it returns.
* `Only`           — the operations a program can perform at all, and what it can return.
* `Protocol`       — an automaton over operations: what may be performed next, and which answers
  the world is trusted to give.
* `Prog.Obeys`     — the program keeps the protocol. `obeys_bind` and `Obeys.mono` are the rules of
  composition and of consequence.

`Obeys.trace` is soundness: what a protocol allows holds at every operation of every trace.
-/

namespace Aegis

/-- A program over the operations `Op`, where `o` is answered in `Ans o`. -/
inductive Prog (Op : Type) (Ans : Op → Type) (α : Type) : Type where
  | ret (a : α)
  | op (o : Op) (k : Ans o → Prog Op Ans α)

variable {Op : Type} {Ans : Op → Type} {α β σ : Type}

namespace Prog

def bind : Prog Op Ans α → (α → Prog Op Ans β) → Prog Op Ans β
  | ret a, f => f a
  | op o k, f => op o fun r => (k r).bind f

instance : Monad (Prog Op Ans) where
  pure := ret
  bind := bind

/-- Perform one operation. -/
def perform (o : Op) : Prog Op Ans (Ans o) := op o ret

@[simp] theorem pure_bind_eq (a : α) (f : α → Prog Op Ans β) :
    ((pure a : Prog Op Ans α) >>= f) = f a := rfl

@[simp] theorem ret_bind (a : α) (f : α → Prog Op Ans β) :
    ((ret a : Prog Op Ans α) >>= f) = f a := rfl

@[simp] theorem op_bind (o : Op) (k : Ans o → Prog Op Ans α) (f : α → Prog Op Ans β) :
    (op o k >>= f) = op o fun r => k r >>= f := rfl

@[simp] theorem perform_bind (o : Op) (f : Ans o → Prog Op Ans β) :
    ((perform o : Prog Op Ans (Ans o)) >>= f) = op o f := rfl

end Prog

/-- An operation and its answer. -/
abbrev Answered (Ans : Op → Type) : Type := Sigma Ans

/-- A run of a program, up to any point. -/
inductive Prog.Trace : Prog Op Ans α → List (Answered Ans) → Prop where
  | stop (p : Prog Op Ans α) : Trace p []
  | step (o : Op) (k : Ans o → Prog Op Ans α) (r : Ans o) (t : List (Answered Ans))
      (h : Trace (k r) t) : Trace (.op o k) (⟨o, r⟩ :: t)

/-- A run of a program to its end. -/
inductive Prog.Leads : Prog Op Ans α → List (Answered Ans) → α → Prop where
  | ret (a : α) : Leads (.ret a) [] a
  | step (o : Op) (k : Ans o → Prog Op Ans α) (r : Ans o) (t : List (Answered Ans)) (a : α)
      (h : Leads (k r) t a) : Leads (.op o k) (⟨o, r⟩ :: t) a

namespace Prog

variable {p : Prog Op Ans α} {f : α → Prog Op Ans β} {a : α} {b : β}
  {t u : List (Answered Ans)}

theorem Leads.bind (h : p.Leads t a) (hf : (f a).Leads u b) : (p >>= f).Leads (t ++ u) b := by
  induction h with
  | ret a => exact hf
  | step o k r t a _ ih => exact .step o _ r _ b (ih hf)

/-- A run of `p` to its end, of which only the result is looked at. -/
theorem Leads.bind_ret (h : p.Leads t a) (hf : f a = .ret b) : (p >>= f).Leads t b := by
  have hbind := h.bind (hf ▸ Leads.ret b : (f a).Leads [] b)
  rwa [List.append_nil] at hbind

theorem Trace.bind (h : p.Trace t) : (p >>= f).Trace t := by
  induction h with
  | stop p => exact .stop _
  | step o k r t _ ih => exact .step o _ r t ih

theorem Leads.trace (h : p.Leads t a) (hf : (f a).Trace u) : (p >>= f).Trace (t ++ u) := by
  induction h with
  | ret a => exact hf
  | step o k r t a _ ih => exact .step o _ r _ (ih hf)

/-- Whatever it is answered, the program performs operations of `P` and returns as `Q` says. -/
def Only (P : Op → Prop) : Prog Op Ans α → (α → Prop) → Prop
  | .ret a, Q => Q a
  | .op o k, Q => P o ∧ ∀ r, Only P (k r) Q

variable {P : Op → Prop} {Q R : α → Prop}

@[simp] theorem only_ret (a : α) : Only P (ret a : Prog Op Ans α) Q ↔ Q a := Iff.rfl

@[simp] theorem only_pure (a : α) : Only P (pure a : Prog Op Ans α) Q ↔ Q a := Iff.rfl

@[simp] theorem only_op (o : Op) (k : Ans o → Prog Op Ans α) :
    Only P (op o k) Q ↔ P o ∧ ∀ r, Only P (k r) Q := Iff.rfl

@[simp] theorem only_perform (o : Op) {Q : Ans o → Prop} :
    Only P (perform o : Prog Op Ans (Ans o)) Q ↔ P o ∧ ∀ r, Q r := Iff.rfl

theorem only_perform_bind {o : Op} {f : Ans o → Prog Op Ans β} {Q : β → Prop} :
    Only P (perform o >>= f) Q ↔ P o ∧ ∀ r, Only P (f r) Q := Iff.rfl

theorem Only.weaken {P' : Op → Prop} (h : Only P p Q) (hP : ∀ o, P o → P' o) : Only P' p Q := by
  induction p with
  | ret a => exact h
  | op o k ih => exact ⟨hP o h.1, fun r => ih r (h.2 r)⟩

theorem Only.bind {Q : β → Prop} (h : Only P p R) (hf : ∀ a, R a → Only P (f a) Q) :
    Only P (p >>= f) Q := by
  induction p with
  | ret a => exact hf a h
  | op o k ih => exact ⟨h.1, fun r => ih r (h.2 r)⟩

end Prog

/-- An automaton that watches a program: `allowed` is what the program owes, `answers` what the
world does. -/
structure Protocol (Ans : Op → Type) (σ : Type) where
  allowed : σ → Op → Prop
  answers : σ → (o : Op) → Ans o → Prop
  next : σ → (o : Op) → Ans o → σ

namespace Protocol

variable (P : Protocol Ans σ)

/-- The state after the operations of a trace. -/
def after : σ → List (Answered Ans) → σ
  | s, [] => s
  | s, ⟨o, r⟩ :: t => after (P.next s o r) t

/-- The world gives the answers it is trusted to give. -/
def Trusts : σ → List (Answered Ans) → Prop
  | _, [] => True
  | s, ⟨o, r⟩ :: t => P.answers s o r ∧ Trusts (P.next s o r) t

/-- Every operation of a trace is allowed. -/
def Allows : σ → List (Answered Ans) → Prop
  | _, [] => True
  | s, ⟨o, r⟩ :: t => P.allowed s o ∧ Allows (P.next s o r) t

variable {P} in
/-- The invariant rule of a protocol. -/
theorem Allows.invariant {I : σ → Prop} {s : σ} {t : List (Answered Ans)} (h : P.Allows s t)
    (hs : I s) (hstep : ∀ s o r, I s → P.allowed s o → I (P.next s o r)) : I (P.after s t) := by
  induction t generalizing s with
  | nil => exact hs
  | cons e t ih => exact ih h.2 (hstep s e.1 e.2 hs h.1)

end Protocol

namespace Prog

variable {P : Protocol Ans σ} {p : Prog Op Ans α} {f : α → Prog Op Ans β} {s : σ}
  {Q R : α → σ → Prop}

/-- From the state `s` of the protocol the program keeps to it, and returns as `Q` says. -/
def Obeys (P : Protocol Ans σ) : Prog Op Ans α → σ → (α → σ → Prop) → Prop
  | ret a, s, Q => Q a s
  | op o k, s, Q => P.allowed s o ∧ ∀ r, P.answers s o r → Obeys P (k r) (P.next s o r) Q

@[simp] theorem obeys_ret (a : α) : Obeys P (ret a) s Q ↔ Q a s := Iff.rfl

@[simp] theorem obeys_pure (a : α) : Obeys P (pure a) s Q ↔ Q a s := Iff.rfl

@[simp] theorem obeys_op (o : Op) (k : Ans o → Prog Op Ans α) :
    Obeys P (op o k) s Q ↔ P.allowed s o ∧ ∀ r, P.answers s o r → Obeys P (k r) (P.next s o r) Q := Iff.rfl

theorem obeys_perform_bind {o : Op} {f : Ans o → Prog Op Ans β} {Q : β → σ → Prop} :
    Obeys P (perform o >>= f) s Q ↔
      P.allowed s o ∧ ∀ r, P.answers s o r → Obeys P (f r) (P.next s o r) Q := Iff.rfl

theorem Obeys.mono (h : Obeys P p s Q) (hQ : ∀ a t, Q a t → R a t) : Obeys P p s R := by
  induction p generalizing s with
  | ret a => exact hQ a s h
  | op o k ih => exact ⟨h.1, fun r hr => ih r (h.2 r hr)⟩

theorem obeys_bind {Q : β → σ → Prop} :
    Obeys P (p >>= f) s Q ↔ Obeys P p s fun a t => Obeys P (f a) t Q := by
  induction p generalizing s with
  | ret a => exact Iff.rfl
  | op o k ih =>
    rw [op_bind, obeys_op, obeys_op]
    exact and_congr_right fun _ => forall_congr' fun r => forall_congr' fun _ => ih r

theorem Obeys.bind {Q : β → σ → Prop} (h : Obeys P p s R)
    (hf : ∀ a t, R a t → Obeys P (f a) t Q) : Obeys P (p >>= f) s Q :=
  obeys_bind.mpr (h.mono hf)

/-- A program that performs only operations the protocol neither forbids nor takes note of. -/
theorem Only.obeys {A : Op → Prop} {Q : α → Prop} (h : Only A p Q)
    (hA : ∀ s o, A o → P.allowed s o ∧ ∀ r, P.next s o r = s) :
    Obeys P p s fun a t => t = s ∧ Q a := by
  induction p with
  | ret a => exact ⟨rfl, h⟩
  | op o k ih =>
    obtain ⟨hallowed, hnext⟩ := hA s o h.1
    refine ⟨hallowed, fun r _ => ?_⟩
    rw [hnext r]
    exact ih r (h.2 r)

/-- What a protocol allows holds at every operation of every trace. -/
theorem Obeys.trace {t : List (Answered Ans)} (h : Obeys P p s Q) (ht : p.Trace t)
    (htrusts : P.Trusts s t) : P.Allows s t := by
  induction ht generalizing s with
  | stop p => trivial
  | step o k r t _ ih => exact ⟨h.1, ih (h.2 r htrusts.1) htrusts.2⟩

theorem Obeys.leads {a : α} {t : List (Answered Ans)} (h : Obeys P p s Q) (ht : p.Leads t a)
    (htrusts : P.Trusts s t) : Q a (P.after s t) := by
  induction ht generalizing s with
  | ret a => exact h
  | step o k r t a _ ih => exact ih (h.2 r htrusts.1) htrusts.2

end Prog

end Aegis
