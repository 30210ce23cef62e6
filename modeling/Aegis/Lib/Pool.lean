import Aegis.Lib.Prog
import Aegis.Lib.Run

/-!
# Lib.Pool

Any number of programs over one shared state, interleaved operation by operation. A program may
crash between two of its operations, and the environment may act on the shared state at any time.

* `World`     — what an operation does to the shared state and how it is answered.
* `Pool`      — the shared state, the programs, and all that has been performed, by whom.
* `Rely`      — an invariant of the shared state and of one ghost state for each program, kept by
  whatever a protocol allows.
* `pool_runs` — the rule: every program obeys the protocol, so the invariant holds in every state
  of every run and the history of each program is one the protocol allows.
-/

namespace Aegis

open List

/-- `S` is shared. `ω` is what the world chooses when an operation is performed, `ε` what the
environment does on its own, and `γ` names a program. -/
structure World (S Op : Type) (Ans : Op → Type) (α ω ε γ : Type) where
  exec : ω → (o : Op) → S → S × Ans o
  env : ε → S → S
  body : γ → Prog Op Ans α

/-- `none` is a program that has crashed. -/
structure Pool (S Op : Type) (Ans : Op → Type) (α : Type) where
  shared : S
  procs : List (Option (Prog Op Ans α))
  log : List (Nat × Answered Ans)

inductive PoolEvent (ω ε γ : Type) where
  | begin (call : γ)
  | act (n : Nat) (choice : ω)
  | crash (n : Nat)
  | env (e : ε)

variable {S Op : Type} {Ans : Op → Type} {α ω ε γ σ : Type}

namespace Pool

/-- Before the first program. -/
def start (s : S) : Pool S Op Ans α := ⟨s, [], []⟩

/-- What the program `n` has performed. -/
def history (pool : Pool S Op Ans α) (n : Nat) : List (Answered Ans) :=
  pool.log.filterMap fun a => if a.1 = n then some a.2 else none

/-- The operation that the program `n` performs next is `o`. -/
def Next (pool : Pool S Op Ans α) (n : Nat) (o : Op) : Prop :=
  ∃ k, pool.procs[n]? = some (some (.op o k))

variable (W : World S Op Ans α ω ε γ)

/-- The program `n` performs the operation `o`. -/
def perform (pool : Pool S Op Ans α) (n : Nat) (choice : ω) (o : Op)
    (k : Ans o → Prog Op Ans α) : Pool S Op Ans α where
  shared := (W.exec choice o pool.shared).1
  procs := pool.procs.set n (some (k (W.exec choice o pool.shared).2))
  log := pool.log ++ [(n, ⟨o, (W.exec choice o pool.shared).2⟩)]

def step (pool : Pool S Op Ans α) : PoolEvent ω ε γ → Pool S Op Ans α
  | .begin call => { pool with procs := pool.procs ++ [some (W.body call)] }
  | .act n choice =>
    match pool.procs[n]? with
    | some (some (.op o k)) => pool.perform W n choice o k
    | _ => pool
  | .crash n => { pool with procs := pool.procs.set n none }
  | .env e => { pool with shared := W.env e pool.shared }

variable {W} {pool : Pool S Op Ans α} {m n : Nat}

theorem history_append (a : Answered Ans) :
    ({ pool with log := pool.log ++ [(n, a)] } : Pool S Op Ans α).history m =
      pool.history m ++ if m = n then [a] else [] := by
  unfold history
  rw [filterMap_append]
  congr 1
  by_cases hmn : n = m
  · simp [hmn]
  · simp [hmn, Ne.symm hmn]

theorem mem_history {a : Answered Ans} : a ∈ pool.history n ↔ (n, a) ∈ pool.log := by
  unfold history
  rw [mem_filterMap]
  constructor
  · rintro ⟨⟨m, b⟩, hb, h⟩
    split at h
    · rename_i hm
      cases h
      exact hm ▸ hb
    · cases h
  · intro h
    exact ⟨_, h, if_pos rfl⟩

end Pool

/-- `G` is kept by every operation the protocol allows and by the environment, and then the
answers are the trusted ones. Each program has a ghost state, the one of the protocol. -/
structure Rely (W : World S Op Ans α ω ε γ) (P : Protocol Ans σ) (init : σ)
    (G : S → (Nat → σ) → Prop) : Prop where
  body : ∀ call, Prog.Obeys P (W.body call) init fun _ _ => True
  exec : ∀ s φ n choice o, G s φ → P.allowed (φ n) o → P.answers (φ n) o (W.exec choice o s).2 ∧
      G (W.exec choice o s).1 (Function.update φ n (P.next (φ n) o (W.exec choice o s).2))
  env : ∀ s φ e, G s φ → G (W.env e s) φ

namespace Protocol

variable {P : Protocol Ans σ} {s : σ} {t u : List (Answered Ans)}

theorem after_append : P.after s (t ++ u) = P.after (P.after s t) u := by
  induction t generalizing s with
  | nil => rfl
  | cons e t ih => exact ih

theorem Allows.append (h : P.Allows s t) (hu : P.Allows (P.after s t) u) : P.Allows s (t ++ u) := by
  induction t generalizing s with
  | nil => exact hu
  | cons e t ih => exact ⟨h.1, ih h.2 hu⟩

end Protocol

namespace Pool

variable (P : Protocol Ans σ) (init : σ) (G : S → (Nat → σ) → Prop)

/-- The ghost state of the program `n`. -/
def ghost (pool : Pool S Op Ans α) (n : Nat) : σ := P.after init (pool.history n)

/-- What `Rely` gives of a pool: the invariant, each history allowed, each program obedient. -/
structure Sound (pool : Pool S Op Ans α) : Prop where
  holds : G pool.shared (pool.ghost P init)
  allows : ∀ n, P.Allows init (pool.history n)
  obeys : ∀ n p, pool.procs[n]? = some (some p) → Prog.Obeys P p (pool.ghost P init n) fun _ _ => True
  known : ∀ a ∈ pool.log, a.1 < pool.procs.length

variable {P init G} {W : World S Op Ans α ω ε γ} {pool : Pool S Op Ans α} {n : Nat}

theorem Sound.next (h : pool.Sound P init G) {o : Op} (hnext : pool.Next n o) :
    P.allowed (pool.ghost P init n) o := by
  obtain ⟨k, hk⟩ := hnext
  exact (h.obeys n _ hk).1

theorem Sound.begin (h : pool.Sound P init G) (hW : Rely W P init G) (call : γ) :
    (pool.step W (.begin call)).Sound P init G where
  holds := h.holds
  allows := h.allows
  obeys n p hp := by
    simp only [step, getElem?_append] at hp
    split at hp
    · exact h.obeys n p hp
    · rename_i hn
      have hnew : pool.history n = [] := by
        refine filterMap_eq_nil_iff.mpr fun a ha => if_neg fun ha' => ?_
        have := h.known a ha
        omega
      have hp : some (W.body call) = some p := by
        have hzero : n - pool.procs.length = 0 := by
          by_contra hne
          rw [getElem?_eq_none (by simp; omega)] at hp
          cases hp
        rw [hzero] at hp
        exact Option.some.inj hp
      cases hp
      show Prog.Obeys P (W.body call) (P.after init (pool.history n)) _
      rw [hnew]
      exact hW.body call
  known a ha := by
    have := h.known a ha
    simp only [step, length_append]
    omega

theorem Sound.perform (h : pool.Sound P init G) (hW : Rely W P init G) (choice : ω) {o : Op}
    {k : Ans o → Prog Op Ans α} (hk : pool.procs[n]? = some (some (.op o k))) :
    (pool.perform W n choice o k).Sound P init G := by
  have hobeys := h.obeys n _ hk
  obtain ⟨hanswer, hholds⟩ := hW.exec _ _ n choice o h.holds hobeys.1
  have hhistory : ∀ m, (pool.perform W n choice o k).history m = pool.history m ++
      if m = n then [⟨o, (W.exec choice o pool.shared).2⟩] else [] := fun m => history_append _
  have hghost : (pool.perform W n choice o k).ghost P init = Function.update (pool.ghost P init) n
      (P.next (pool.ghost P init n) o (W.exec choice o pool.shared).2) := by
    funext m
    unfold ghost
    rw [hhistory, Protocol.after_append]
    by_cases hm : m = n
    · subst hm
      simp [Protocol.after]
    · simp [hm, Protocol.after]
  constructor
  · rw [hghost]
    exact hholds
  · intro m
    rw [hhistory]
    refine (h.allows m).append ?_
    split
    · rename_i hm
      exact ⟨hm ▸ hobeys.1, trivial⟩
    · trivial
  · intro m p hp
    rw [hghost]
    by_cases hm : m = n
    · subst hm
      rw [Function.update_self]
      rw [Pool.perform, getElem?_set_self (List.getElem?_eq_some_iff.mp hk).1] at hp
      cases hp
      exact hobeys.2 _ hanswer
    · rw [Function.update_of_ne hm]
      rw [Pool.perform, getElem?_set_ne (Ne.symm hm)] at hp
      exact h.obeys m p hp
  · intro a ha
    simp only [Pool.perform, length_set]
    obtain ha | ha := mem_append.mp ha
    · exact h.known a ha
    · rw [mem_singleton] at ha
      subst ha
      exact (List.getElem?_eq_some_iff.mp hk).1

theorem Sound.crash (h : pool.Sound P init G) (n : Nat) : (pool.step W (.crash n)).Sound P init G where
  holds := h.holds
  allows := h.allows
  obeys m p hp := by
    simp only [step, getElem?_set] at hp
    split at hp
    · split at hp <;> cases hp
    · exact h.obeys m p hp
  known a ha := by
    simpa only [step, length_set] using h.known a ha

theorem Sound.step (h : pool.Sound P init G) (hW : Rely W P init G) (event : PoolEvent ω ε γ) :
    (pool.step W event).Sound P init G := by
  cases event with
  | begin call => exact h.begin hW call
  | act n choice =>
    unfold Pool.step
    dsimp only
    split
    · rename_i o k hk
      exact h.perform hW choice hk
    · exact h
  | crash n => exact h.crash n
  | env e => exact ⟨hW.env _ _ e h.holds, h.allows, h.obeys, h.known⟩

theorem sound_start {s : S} (hG : G s fun _ => init) : (start s : Pool S Op Ans α).Sound P init G where
  holds := hG
  allows _ := trivial
  obeys n p hp := by simp [start] at hp
  known a ha := by simp [start] at ha

end Pool

/-- The rule: in every state of every run the invariant holds and the protocol is kept. -/
theorem pool_runs {W : World S Op Ans α ω ε γ} {P : Protocol Ans σ} {init : σ}
    {G : S → (Nat → σ) → Prop} (hW : Rely W P init G) {s : S} (hG : G s fun _ => init)
    (events : List (PoolEvent ω ε γ)) :
    Always (Pool.step W) (Pool.Sound P init G) (.start s) events := by
  refine Meets.always (meets_of_forall (A := fun _ => True) fun _ _ => trivial)
    (Pool.sound_start hG) fun pool event h _ => ?_
  exact h.step hW event

end Aegis
