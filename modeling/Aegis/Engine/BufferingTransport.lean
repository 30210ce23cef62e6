import Aegis.Lib.Run
import Mathlib.Tactic.NormNum

/-!
# Engine.BufferingTransport

The buffer of results, of `scriptcat-engine/buffering-transport.ts`.

A run is a list of events: calls, ticks of the timer, and what goes on between two calls (a flush
whose turn has come starts, the inner transport answers, a drain goes on). An event that cannot
happen changes nothing. A payload has the number of its acceptance, which the program does not look
at; `accepted`, `sent`, `evicted` and `discarded` only record what happened.
-/

namespace Aegis

open List

namespace Buffering

structure Policy where
  batchSize : ℚ
  flushInterval : Option ℚ
  sendOnFailure : Option Bool

abbrev Item (π : Type) := Nat × π

/-- A call of `flush`. -/
inductive Flush (π : Type) where
  | waiting
  | sending (items : List (Item π))
  | resolved
  | rejected

def Flush.settled {π : Type} : Flush π → Bool
  | .resolved | .rejected => true
  | _ => false

inductive Status where
  | success | failure
deriving DecidableEq

inductive Stage where
  | waiting (flushes : Nat)
  | flushing (k : Nat)
  | resolved
  | rejected

/-- A call of `drain`, made after so many payloads had been accepted. -/
structure Drain where
  status : Status
  accepted : Nat
  stage : Stage

structure BufferingTransport (π : Type) where
  buffer : List (Item π)
  retryBatch : Option (List (Item π))
  timer : Bool
  flushes : List (Flush π)
  drains : List Drain
  accepted : List π
  sent : List (List (Item π))
  evicted : List (Item π)
  discarded : List (Item π)

inductive Event (π : Type) where
  | sendResult (payload : π)
  | tick
  | flush
  | drain (status : Status)
  /-- The turn of flush `k` has come. -/
  | start (k : Nat)
  /-- The inner transport answers flush `k`. -/
  | answer (k : Nat) (ok : Bool)
  /-- Drain `d` goes on. -/
  | resume (d : Nat)

namespace BufferingTransport

variable {π : Type}

def init (policy : Policy) : BufferingTransport π :=
  ⟨[], none, policy.flushInterval.any (0 < ·), [], [], [], [], [], []⟩

/-- `flush`, up to its turn. -/
def flush (s : BufferingTransport π) : BufferingTransport π :=
  { s with flushes := s.flushes ++ [.waiting] }

/-- The first `n` flushes are settled. -/
def settledBefore (s : BufferingTransport π) (n : Nat) : Bool :=
  match n with
  | 0 => true
  | n + 1 => s.flushes[n]?.any Flush.settled

def maxBufferSize (policy : Policy) : ℚ := max (policy.batchSize * 10) 1000

def evict (policy : Policy) (s : BufferingTransport π) : BufferingTransport π :=
  if maxBufferSize policy ≤ s.buffer.length then
    { s with buffer := s.buffer.tail, evicted := s.evicted ++ s.buffer.head?.toList }
  else s

def push (payload : π) (s : BufferingTransport π) : BufferingTransport π :=
  { s with
    buffer := s.buffer ++ [(s.accepted.length, payload)]
    accepted := s.accepted ++ [payload] }

def sendResult (policy : Policy) (payload : π) (s : BufferingTransport π) : BufferingTransport π :=
  let s := push payload (evict policy s)
  if policy.batchSize ≤ s.buffer.length then s.flush else s

/-- The loop of `doFlush`, up to the next call of the inner transport. -/
def doFlush (k : Nat) (s : BufferingTransport π) : BufferingTransport π :=
  if (s.retryBatch.getD []).length ≠ 0 ∨ s.buffer.length ≠ 0 then
    { s with
      buffer := if s.retryBatch.isSome then s.buffer else []
      flushes := s.flushes.set k (.sending (s.retryBatch.getD s.buffer)) }
  else { s with flushes := s.flushes.set k .resolved }

def start (k : Nat) (s : BufferingTransport π) : BufferingTransport π :=
  match s.flushes[k]? with
  | some .waiting => if s.settledBefore k then s.doFlush k else s
  | _ => s

def answer (k : Nat) (ok : Bool) (s : BufferingTransport π) : BufferingTransport π :=
  match s.flushes[k]? with
  | some (.sending items) =>
    if ok then doFlush k { s with sent := s.sent ++ [items], retryBatch := none }
    else { s with retryBatch := some items, flushes := s.flushes.set k .rejected }
  | _ => s

def drain (status : Status) (s : BufferingTransport π) : BufferingTransport π :=
  { s with drains := s.drains ++ [⟨status, s.accepted.length, .waiting s.flushes.length⟩] }

def sends (policy : Policy) (status : Status) : Bool :=
  status == .success || policy.sendOnFailure != some false

/-- The drain `d` comes to `stage`. -/
def setStage (d : Nat) (drain : Drain) (stage : Stage) (s : BufferingTransport π) : BufferingTransport π :=
  { s with drains := s.drains.set d { drain with stage := stage } }

def dispose (s : BufferingTransport π) : BufferingTransport π := { s with timer := false }

def discard (s : BufferingTransport π) : BufferingTransport π :=
  { s with
    buffer := []
    retryBatch := none
    discarded := s.discarded ++ s.retryBatch.getD [] ++ s.buffer }

def resume (policy : Policy) (d : Nat) (s : BufferingTransport π) : BufferingTransport π :=
  match s.drains[d]? with
  | none => s
  | some drain =>
    match drain.stage with
    | .waiting n =>
      if s.settledBefore n then
        if sends policy drain.status then (s.setStage d drain (.flushing s.flushes.length)).flush
        else (s.discard.setStage d drain .resolved).dispose
      else s
    | .flushing k =>
      match s.flushes[k]? with
      | some .resolved => (s.setStage d drain .resolved).dispose
      | some .rejected => (s.setStage d drain .rejected).dispose
      | _ => s
    | _ => s

def step (policy : Policy) (s : BufferingTransport π) : Event π → BufferingTransport π
  | .sendResult payload => s.sendResult policy payload
  | .tick => if s.timer then s.flush else s
  | .flush => s.flush
  | .drain status => s.drain status
  | .start k => s.start k
  | .answer k ok => s.answer k ok
  | .resume d => s.resume policy d

/-- The payload accepted as number `i` has been sent, or the program has given it up. -/
def Covered (s : BufferingTransport π) (i : Nat) : Prop :=
  (∃ x ∈ s.sent.flatten, x.1 = i) ∨ (∃ x ∈ s.evicted, x.1 = i) ∨ ∃ x ∈ s.discarded, x.1 = i

/-- What has been sent, in the order of acceptance and once, and what a drain leaves behind. -/
structure Delivered (policy : Policy) (s : BufferingTransport π) : Prop where
  ordered : s.sent.flatten.Pairwise (·.1 < ·.1)
  accepted : ∀ x ∈ s.sent.flatten, s.accepted[x.1]? = some x.2
  alone : ∀ (j k : Nat) items items', s.flushes[j]? = some (Flush.sending items) →
    s.flushes[k]? = some (Flush.sending items') → j = k
  drained : ∀ d ∈ s.drains, d.stage = .resolved → sends policy d.status → ∀ i < d.accepted, s.Covered i
  evicted : s.evicted ≠ [] → maxBufferSize policy < s.accepted.length
  discarded : s.discarded ≠ [] → policy.sendOnFailure = some false

/-- What has been sent, then `carried`, then the buffer, are in the order of acceptance, and what is
in none of them has been given up. -/
structure Holds (s : BufferingTransport π) (carried : List (Item π)) : Prop where
  ordered : (s.sent.flatten ++ (carried ++ s.buffer)).Pairwise (·.1 < ·.1)
  accepted : ∀ x ∈ s.sent.flatten ++ (carried ++ s.buffer), s.accepted[x.1]? = some x.2
  covered : ∀ i < s.accepted.length, s.Covered i ∨ ∃ x ∈ carried ++ s.buffer, x.1 = i

/-- The flushes before `k` are settled, those after it wait. -/
structure Turn (flushes : List (Flush π)) (k : Nat) : Prop where
  before : ∀ j < k, ∃ f, flushes[j]? = some f ∧ f.settled
  after : ∀ j, k < j → ∀ f, flushes[j]? = some f → f = .waiting

/-- A drain waits for results that are there, and ends with all of them covered. -/
structure DrainInv (policy : Policy) (s : BufferingTransport π) (d : Drain) : Prop where
  bound : d.accepted ≤ s.accepted.length
  flushing : ∀ k, d.stage = .flushing k →
    k < s.flushes.length ∧ (s.flushes[k]? = some Flush.resolved → ∀ i < d.accepted, s.Covered i)
  resolved : d.stage = .resolved → sends policy d.status → ∀ i < d.accepted, s.Covered i

structure Inv (policy : Policy) (s : BufferingTransport π) : Prop where
  /-- A flush that no longer waits comes after flushes that are settled. -/
  turns : ∀ (j k : Nat) f, j < k → s.flushes[k]? = some f → f ≠ Flush.waiting →
    ∃ g, s.flushes[j]? = some g ∧ g.settled
  busy : ∀ (k : Nat) items, s.flushes[k]? = some (Flush.sending items) → s.Holds items ∧
    ∀ batch, s.retryBatch = some batch → batch = items
  idle : (∀ (k : Nat) items, s.flushes[k]? ≠ some (Flush.sending items)) → s.Holds (s.retryBatch.getD [])
  drains : ∀ d ∈ s.drains, s.DrainInv policy d

variable {policy : Policy} {s : BufferingTransport π} {k : Nat} {f : Flush π}

variable {flushes : List (Flush π)}

theorem Turn.sending_set (h : Turn flushes k) {j : Nat}
    {items : List (Item π)} (hj : (flushes.set k f)[j]? = some (.sending items)) :
    j = k ∧ f = .sending items := by
  rw [getElem?_set] at hj
  by_cases hjk : k = j
  · subst hjk
    rw [if_pos rfl] at hj
    split at hj
    · exact ⟨rfl, Option.some.inj hj⟩
    · cases hj
  · rw [if_neg hjk] at hj
    rcases Nat.lt_or_ge j k with hlt | hge
    · obtain ⟨g, hg, hsettled⟩ := h.before j hlt
      rw [hj] at hg
      cases hg
      cases hsettled
    · have hwaiting := h.after j (by omega) _ hj
      cases hwaiting

theorem Turn.turns_set (h : Turn flushes k) {i j : Nat} {g : Flush π}
    (hij : i < j) (hj : (flushes.set k f)[j]? = some g) (hg : g ≠ .waiting) :
    ∃ g', (flushes.set k f)[i]? = some g' ∧ g'.settled := by
  have hjk : j ≤ k := by
    by_contra hlt
    rw [getElem?_set_ne (by omega)] at hj
    exact hg (h.after j (by omega) g hj)
  rw [getElem?_set_ne (by omega)]
  exact h.before i (by omega)

theorem Inv.turn_of_sending (h : s.Inv policy) {items : List (Item π)}
    (hk : s.flushes[k]? = some (.sending items)) : Turn s.flushes k where
  before j hj := h.turns j k _ hj hk (by intro hw; cases hw)
  after j hj g hg := by
    by_contra hne
    obtain ⟨g', hg', hsettled⟩ := h.turns k j g hj hg hne
    rw [hk] at hg'
    cases hg'
    cases hsettled

theorem Inv.turn_of_waiting (h : s.Inv policy) (hk : s.flushes[k]? = some .waiting)
    (hbefore : s.settledBefore k) : Turn s.flushes k where
  before j hj := by
    cases k with
    | zero => omega
    | succ n =>
      cases hn : s.flushes[n]? with
      | none => simp [settledBefore, hn] at hbefore
      | some g =>
        have hsettled : g.settled := by simpa [settledBefore, hn] using hbefore
        rcases Nat.lt_or_ge j n with hlt | hge
        · exact h.turns j n g hlt hn (by rintro rfl; cases hsettled)
        · obtain rfl : j = n := by omega
          exact ⟨g, hn, hsettled⟩
  after j hj g hg := by
    by_contra hne
    obtain ⟨g', hg', hsettled⟩ := h.turns k j g hj hg hne
    rw [hk] at hg'
    cases hg'
    cases hsettled

theorem Turn.not_sending (h : Turn flushes k)
    (hk : flushes[k]? = some .waiting) (j : Nat) (items : List (Item π)) :
    flushes[j]? ≠ some (.sending items) := by
  intro hj
  have hlt : k < flushes.length := (List.getElem?_eq_some_iff.mp hk).1
  have hset : flushes.set k .waiting = flushes := by
    rw [← (List.getElem?_eq_some_iff.mp hk).2, set_getElem_self]
  obtain ⟨-, hf⟩ := h.sending_set (f := .waiting) (by rw [hset]; exact hj)
  cases hf

/-! ## Steps -/

variable {t : BufferingTransport π} {items : List (Item π)} {d : Drain} {i : Nat}

theorem Covered.mono (h : s.Covered i) (hsent : ∀ x ∈ s.sent.flatten, x ∈ t.sent.flatten)
    (hevicted : ∀ x ∈ s.evicted, x ∈ t.evicted) (hdiscarded : ∀ x ∈ s.discarded, x ∈ t.discarded) :
    t.Covered i := by
  rcases h with ⟨x, hx, hi⟩ | ⟨x, hx, hi⟩ | ⟨x, hx, hi⟩
  · exact .inl ⟨x, hsent x hx, hi⟩
  · exact .inr (.inl ⟨x, hevicted x hx, hi⟩)
  · exact .inr (.inr ⟨x, hdiscarded x hx, hi⟩)

theorem DrainInv.frame (h : s.DrainInv policy d) (haccepted : s.accepted.length ≤ t.accepted.length)
    (hflushes : s.flushes.length ≤ t.flushes.length)
    (hresolved : ∀ k < s.flushes.length, t.flushes[k]? = some .resolved →
      s.flushes[k]? = some .resolved ∨ ∀ i < s.accepted.length, t.Covered i)
    (hcovered : ∀ i, s.Covered i → t.Covered i) : t.DrainInv policy d where
  bound := h.bound.trans haccepted
  flushing k hk := by
    obtain ⟨hlt, hdone⟩ := h.flushing k hk
    refine ⟨hlt.trans_le hflushes, fun hresolve i hi => ?_⟩
    rcases hresolved k hlt hresolve with hold | hall
    · exact hcovered i (hdone hold i hi)
    · exact hall i (hi.trans_le h.bound)
  resolved hstage hsends i hi := hcovered i (h.resolved hstage hsends i hi)

theorem getElem?_set_resolved {j : Nat} (hf : f ≠ .resolved)
    (hj : (flushes.set k f)[j]? = some .resolved) : flushes[j]? = some .resolved := by
  by_cases hjk : k = j
  · rw [getElem?_set, if_pos hjk] at hj
    split at hj
    · exact absurd (Option.some.inj hj) hf
    · cases hj
  · rwa [getElem?_set_ne hjk] at hj

theorem carried_eq (batch : Option (List (Item π))) (buffer : List (Item π)) :
    batch.getD buffer ++ (if batch.isSome then buffer else []) = batch.getD [] ++ buffer := by
  cases batch with
  | none => simp
  | some items => rfl

theorem doFlush_inv (hturn : Turn s.flushes k) (hk : k < s.flushes.length)
    (hholds : s.Holds (s.retryBatch.getD [])) (hdrains : ∀ d ∈ s.drains, s.DrainInv policy d) :
    (s.doFlush k).Inv policy := by
  rw [doFlush]
  split
  · refine ⟨fun i j g hij hj hg => hturn.turns_set hij hj hg, fun j items hj => ?_, fun hnone => ?_,
      fun d hd => (hdrains d hd).frame le_rfl (by simp) (fun j _ hj => .inl ?_) fun i hi => hi⟩
    · obtain ⟨-, hf⟩ := hturn.sending_set hj
      obtain rfl := Flush.sending.inj hf
      refine ⟨⟨?_, ?_, ?_⟩, ?_⟩
      · dsimp only
        rw [carried_eq]
        exact hholds.ordered
      · dsimp only
        rw [carried_eq]
        exact hholds.accepted
      · dsimp only
        rw [carried_eq]
        exact hholds.covered
      · intro batch hbatch
        dsimp only at hbatch
        rw [hbatch]
        rfl
    · exact absurd (getElem?_set_self hk) (hnone k _)
    · exact getElem?_set_resolved (by intro h; cases h) hj
  · rename_i hempty
    have hretry : s.retryBatch.getD [] = [] := length_eq_zero_iff.mp (by omega)
    have hbuffer : s.buffer = [] := length_eq_zero_iff.mp (by omega)
    refine ⟨fun i j g hij hj hg => hturn.turns_set hij hj hg, fun j items hj => ?_,
      fun _ => ⟨hholds.ordered, hholds.accepted, hholds.covered⟩, fun d hd =>
        (hdrains d hd).frame le_rfl (by simp) (fun j _ hj => .inr fun i hi => ?_) fun i hi => hi⟩
    · obtain ⟨-, hf⟩ := hturn.sending_set hj
      cases hf
    · rcases hholds.covered i hi with hcovered | ⟨x, hx, -⟩
      · exact hcovered
      · rw [hretry, hbuffer] at hx
        cases hx

theorem start_inv (h : s.Inv policy) (k : Nat) : (s.start k).Inv policy := by
  rw [start]
  split
  · rename_i hk
    split
    · rename_i hbefore
      have hturn := h.turn_of_waiting hk hbefore
      exact doFlush_inv hturn (List.getElem?_eq_some_iff.mp hk).1 (h.idle (hturn.not_sending hk))
        h.drains
    · exact h
  · exact h

theorem answer_inv (h : s.Inv policy) (k : Nat) (ok : Bool) : (s.answer k ok).Inv policy := by
  rw [answer]
  split
  · rename_i items hk
    have hturn := h.turn_of_sending hk
    have hlt := (List.getElem?_eq_some_iff.mp hk).1
    obtain ⟨hholds, hbatch⟩ := h.busy k items hk
    cases ok with
    | true =>
      rw [if_pos rfl]
      have hmono : ∀ i, s.Covered i →
          Covered { s with sent := s.sent ++ [items], retryBatch := none } i := by
        intro i hi
        refine hi.mono (fun x hx => ?_) (fun x hx => hx) fun x hx => hx
        simp only [flatten_append, mem_append]
        exact .inl hx
      refine doFlush_inv hturn hlt ⟨?_, ?_, ?_⟩ fun d hd =>
        (h.drains d hd).frame le_rfl le_rfl (fun j _ hj => .inl hj) hmono
      · simpa using hholds.ordered
      · simpa [or_assoc] using hholds.accepted
      · intro i hi
        rcases hholds.covered i hi with hcovered | ⟨x, hx, hxi⟩
        · exact .inl (hmono i hcovered)
        · rcases mem_append.mp hx with hx | hx
          · exact .inl (.inl ⟨x, by simp [hx], hxi⟩)
          · exact .inr ⟨x, hx, hxi⟩
    | false =>
      simp only [Bool.false_eq_true, if_false]
      refine ⟨fun i j g hij hj hg => hturn.turns_set hij hj hg, fun j items' hj => ?_,
        fun _ => ⟨hholds.ordered, hholds.accepted, hholds.covered⟩,
        fun d hd => (h.drains d hd).frame le_rfl (by simp)
          (fun j _ hj => .inl (getElem?_set_resolved (by intro hf; cases hf) hj)) fun i hi => hi⟩
      obtain ⟨-, hf⟩ := hturn.sending_set hj
      cases hf
  · exact h

theorem Inv.of_holds (h : s.Inv policy) (hflushes : t.flushes = s.flushes)
    (hdrains : t.drains = s.drains) (haccepted : s.accepted.length ≤ t.accepted.length)
    (hretry : ∀ batch, t.retryBatch = some batch → s.retryBatch = some batch)
    (hholds : ∀ items, s.Holds items → t.Holds items)
    (hidle : s.Holds (s.retryBatch.getD []) → t.Holds (t.retryBatch.getD []))
    (hcovered : ∀ i, s.Covered i → t.Covered i) : t.Inv policy where
  turns := by
    rw [hflushes]
    exact h.turns
  busy k items hk := by
    rw [hflushes] at hk
    obtain ⟨hitems, hbatch⟩ := h.busy k items hk
    exact ⟨hholds items hitems, fun batch hb => hbatch batch (hretry batch hb)⟩
  idle hnone := by
    rw [hflushes] at hnone
    exact hidle (h.idle hnone)
  drains d hd := by
    rw [hdrains] at hd
    refine (h.drains d hd).frame haccepted (by rw [hflushes]) (fun k _ hk => .inl ?_) hcovered
    rwa [hflushes] at hk

theorem evict_holds (policy : Policy) (h : s.Holds items) : (s.evict policy).Holds items := by
  rw [evict]
  split
  · have hsub : (s.sent.flatten ++ (items ++ s.buffer.tail)).Sublist
        (s.sent.flatten ++ (items ++ s.buffer)) :=
      (List.Sublist.refl _).append ((List.Sublist.refl _).append (tail_sublist _))
    refine ⟨h.ordered.sublist hsub, fun x hx => h.accepted x (hsub.subset hx), fun i hi => ?_⟩
    rcases h.covered i hi with hcovered | ⟨x, hx, hxi⟩
    · exact .inl (hcovered.mono (fun _ hx => hx) (fun _ hx => mem_append_left _ hx)
        fun _ hx => hx)
    · rcases mem_append.mp hx with hx | hx
      · exact .inr ⟨x, mem_append_left _ hx, hxi⟩
      · cases hbuffer : s.buffer with
        | nil =>
          rw [hbuffer] at hx
          cases hx
        | cons y rest =>
          rw [hbuffer] at hx
          rcases mem_cons.mp hx with rfl | hx
          · exact .inl (.inr (.inl ⟨x, by simp, hxi⟩))
          · exact .inr ⟨x, by simp [hx], hxi⟩
  · exact h

theorem evict_inv (h : s.Inv policy) : (s.evict policy).Inv policy := by
  have hcovered : ∀ i, s.Covered i → (s.evict policy).Covered i := by
    intro i hi
    rw [evict]
    split
    · exact hi.mono (fun _ hx => hx) (fun _ hx => mem_append_left _ hx) fun _ hx => hx
    · exact hi
  have hretry : (s.evict policy).retryBatch = s.retryBatch := by rw [evict]; split <;> rfl
  refine h.of_holds (by rw [evict]; split <;> rfl) (by rw [evict]; split <;> rfl)
    (by rw [evict]; split <;> rfl) (fun batch hb => by rwa [hretry] at hb)
    (fun items => evict_holds policy) (fun hholds => ?_) hcovered
  rw [hretry]
  exact evict_holds policy hholds

theorem push_holds (payload : π) (h : s.Holds items) : (s.push payload).Holds items := by
  have hbound : ∀ x ∈ s.sent.flatten ++ (items ++ s.buffer), x.1 < s.accepted.length :=
    fun x hx => (List.getElem?_eq_some_iff.mp (h.accepted x hx)).1
  have heq : (s.push payload).sent.flatten ++ (items ++ (s.push payload).buffer) =
      s.sent.flatten ++ (items ++ s.buffer) ++ [(s.accepted.length, payload)] := by
    simp [push]
  refine ⟨?_, fun x hx => ?_, fun i hi => ?_⟩
  · rw [heq, pairwise_append]
    refine ⟨h.ordered, pairwise_singleton _ _, fun x hx y hy => ?_⟩
    rw [mem_singleton.mp hy]
    exact hbound x hx
  · rw [heq] at hx
    rcases mem_append.mp hx with hx | hx
    · dsimp only [push]
      rw [getElem?_append_left (hbound x hx)]
      exact h.accepted x hx
    · rw [mem_singleton.mp hx]
      simp [push]
  · have hlength : i < s.accepted.length + 1 := by simpa [push] using hi
    rcases Nat.lt_succ_iff_lt_or_eq.mp hlength with hlt | rfl
    · rcases h.covered i hlt with hcovered | ⟨x, hx, hxi⟩
      · exact .inl hcovered
      · refine .inr ⟨x, ?_, hxi⟩
        rw [push, ← append_assoc]
        exact mem_append_left _ hx
    · exact .inr ⟨(s.accepted.length, payload), by simp [push], rfl⟩

theorem push_inv (h : s.Inv policy) (payload : π) : (s.push payload).Inv policy :=
  h.of_holds rfl rfl (by simp [push]) (fun _ hb => hb) (fun _ => push_holds payload)
    (push_holds payload) fun _ hi => hi

theorem discard_inv (h : s.Inv policy) : s.discard.Inv policy := by
  have hcovered : ∀ i, s.Covered i → s.discard.Covered i := by
    intro i hi
    refine hi.mono (fun _ hx => hx) (fun _ hx => hx) fun x hx => ?_
    rw [discard, append_assoc]
    exact mem_append_left _ hx
  have hsub : ∀ items : List (Item π), (s.sent.flatten ++ (items ++ [])).Sublist
      (s.sent.flatten ++ (items ++ s.buffer)) := fun items =>
    (List.Sublist.refl _).append ((List.Sublist.refl _).append (nil_sublist _))
  refine h.of_holds rfl rfl le_rfl nofun (fun items hholds => ?_)
    (fun hholds => ?_) hcovered
  · refine ⟨hholds.ordered.sublist (hsub items), fun x hx => hholds.accepted x
      ((hsub items).subset hx), fun i hi => ?_⟩
    rcases hholds.covered i hi with hi | ⟨x, hx, hxi⟩
    · exact .inl (hcovered i hi)
    · rcases mem_append.mp hx with hx | hx
      · exact .inr ⟨x, mem_append_left _ hx, hxi⟩
      · exact .inl (.inr (.inr ⟨x, mem_append_right _ hx, hxi⟩))
  · have hnil : s.sent.flatten.Sublist
        (s.sent.flatten ++ (s.retryBatch.getD [] ++ s.buffer)) := sublist_append_left _ _
    refine ⟨?_, fun x hx => ?_, fun i hi => ?_⟩
    · simpa [discard] using hholds.ordered.sublist hnil
    · have hsent : x ∈ s.sent.flatten := by simpa [discard] using hx
      exact hholds.accepted x (hnil.subset hsent)
    · rcases hholds.covered i hi with hi | ⟨x, hx, hxi⟩
      · exact .inl (hcovered i hi)
      · exact .inl (.inr (.inr ⟨x, by rw [discard, append_assoc]
                                      exact mem_append_right _ hx, hxi⟩))

theorem flush_inv (h : s.Inv policy) : s.flush.Inv policy := by
  have hsending : ∀ (k : Nat) items, s.flush.flushes[k]? = some (.sending items) →
      s.flushes[k]? = some (.sending items) := by
    intro k items hk
    rw [flush, getElem?_append] at hk
    split at hk
    · exact hk
    · have hmem := mem_of_getElem? hk
      rw [mem_singleton] at hmem
      cases hmem
  refine ⟨fun j k f hjk hk hf => ?_, fun k items hk => ?_, fun hnone => ?_, fun d hd => ?_⟩
  · rw [flush, getElem?_append] at hk
    split at hk
    · rw [flush, getElem?_append_left (by omega)]
      exact h.turns j k f hjk hk hf
    · exact absurd (mem_singleton.mp (mem_of_getElem? hk)) hf
  · obtain ⟨hholds, hbatch⟩ := h.busy k items (hsending k items hk)
    exact ⟨⟨hholds.ordered, hholds.accepted, hholds.covered⟩, hbatch⟩
  · have hidle : s.Holds (s.retryBatch.getD []) := by
      refine h.idle fun k items hk => hnone k items ?_
      rw [flush, getElem?_append_left (List.getElem?_eq_some_iff.mp hk).1]
      exact hk
    exact ⟨hidle.ordered, hidle.accepted, hidle.covered⟩
  · refine (h.drains d hd).frame le_rfl (by simp [flush]) (fun k hlt hk => .inl ?_) fun i hi => hi
    rwa [flush, getElem?_append_left hlt] at hk

theorem sendResult_inv (h : s.Inv policy) (payload : π) : (s.sendResult policy payload).Inv policy := by
  rw [sendResult]
  have hpush := push_inv (evict_inv h) payload
  split
  · exact flush_inv hpush
  · exact hpush

theorem withDrains_inv (h : s.Inv policy) {drains : List Drain}
    (hdrains : ∀ d ∈ drains, s.DrainInv policy d) : { s with drains := drains }.Inv policy := by
  refine ⟨h.turns, fun k items hk => ?_, fun hnone => ?_, fun d hd => ?_⟩
  · obtain ⟨hholds, hbatch⟩ := h.busy k items hk
    exact ⟨⟨hholds.ordered, hholds.accepted, hholds.covered⟩, hbatch⟩
  · obtain ⟨hordered, haccepted, hcovered⟩ := h.idle hnone
    exact ⟨hordered, haccepted, hcovered⟩
  · exact (hdrains d hd).frame le_rfl le_rfl (fun _ _ hk => .inl hk) fun _ hi => hi

theorem drain_inv (h : s.Inv policy) (status : Status) : (s.drain status).Inv policy := by
  refine withDrains_inv h fun d hd => ?_
  rcases mem_append.mp hd with hd | hd
  · exact h.drains d hd
  · rw [mem_singleton.mp hd]
    exact ⟨le_rfl, fun k hk => (by cases hk), fun hk => (by cases hk)⟩

theorem setStage_inv (h : s.Inv policy) {drain : Drain} {stage : Stage} (n : Nat)
    (hnew : s.DrainInv policy { drain with stage := stage }) :
    (s.setStage n drain stage).Inv policy := by
  refine withDrains_inv h fun d hd => ?_
  rcases mem_or_eq_of_mem_set hd with hd | rfl
  · exact h.drains d hd
  · exact hnew

theorem dispose_inv (h : s.Inv policy) : s.dispose.Inv policy := by
  refine h.of_holds rfl rfl le_rfl (fun _ hb => hb) (fun items hholds => ?_) (fun hholds => ?_)
    fun _ hi => hi
  all_goals exact ⟨hholds.ordered, hholds.accepted, hholds.covered⟩

theorem resume_inv (h : s.Inv policy) (n : Nat) : (s.resume policy n).Inv policy := by
  rw [resume]
  cases hn : s.drains[n]? with
  | none => exact h
  | some drain =>
    have hdrain := h.drains drain (mem_of_getElem? hn)
    dsimp only
    cases hstage : drain.stage with
    | waiting m =>
      dsimp only
      split
      · split
        · have heq : (s.setStage n drain (.flushing s.flushes.length)).flush =
              s.flush.setStage n drain (.flushing s.flushes.length) := rfl
          rw [heq]
          refine setStage_inv (flush_inv h) n ⟨hdrain.bound, fun k hk => ?_, fun hk => (by cases hk)⟩
          obtain rfl := Stage.flushing.inj hk
          refine ⟨by simp [flush], fun hresolved => ?_⟩
          simp [flush] at hresolved
        · rename_i hsends
          refine dispose_inv (setStage_inv (discard_inv h) n ⟨hdrain.bound,
            fun k hk => (by cases hk), fun _ hs => absurd hs hsends⟩)
      · exact h
    | flushing k =>
      obtain ⟨-, hdone⟩ := hdrain.flushing k hstage
      dsimp only
      split
      · rename_i hk
        exact dispose_inv (setStage_inv h n ⟨hdrain.bound, fun _ hk => (by cases hk),
          fun _ _ => hdone hk⟩)
      · exact dispose_inv (setStage_inv h n ⟨hdrain.bound, fun _ hk => (by cases hk),
          fun hk => (by cases hk)⟩)
      · exact h
    | resolved | rejected => exact h

theorem step_inv (h : s.Inv policy) (e : Event π) : (s.step policy e).Inv policy := by
  cases e with
  | sendResult payload => exact sendResult_inv h payload
  | tick =>
    rw [step]
    split
    · exact flush_inv h
    · exact h
  | flush => exact flush_inv h
  | drain status => exact drain_inv h status
  | start k => exact start_inv h k
  | answer k ok => exact answer_inv h k ok
  | resume n => exact resume_inv h n

theorem init_inv : (init policy : BufferingTransport π).Inv policy where
  turns _ _ _ _ hk := by cases hk
  busy _ _ hk := by cases hk
  idle _ := ⟨by simp [init], by simp [init], nofun⟩
  drains _ hd := by cases hd

theorem Inv.sent_holds (h : s.Inv policy) : ∃ items, s.Holds items := by
  by_cases hbusy : ∃ (k : Nat) (items : List (Item π)), s.flushes[k]? = some (.sending items)
  · obtain ⟨k, items, hk⟩ := hbusy
    exact ⟨items, (h.busy k items hk).1⟩
  · exact ⟨_, h.idle fun k items hk => hbusy ⟨k, items, hk⟩⟩

/-- Rows are evicted only above the bound, and discarded only where the policy says so. -/
structure GivesUp (policy : Policy) (s : BufferingTransport π) : Prop where
  buffer : s.buffer.length ≤ s.accepted.length
  evicted : s.evicted ≠ [] → maxBufferSize policy < s.accepted.length
  discarded : s.discarded ≠ [] → policy.sendOnFailure = some false

theorem sendResult_givesUp (h : s.GivesUp policy) (payload : π) :
    (s.sendResult policy payload).GivesUp policy := by
  have hpush : ((s.evict policy).push payload).GivesUp policy := by
    have hgrow : (s.accepted.length : ℚ) < (s.accepted ++ [payload]).length := by
      simp
    rw [evict]
    split
    · rename_i hfull
      refine ⟨?_, fun _ => ?_, h.discarded⟩
      · have hbuffer := h.buffer
        simp only [push, length_append, length_tail, length_singleton]
        omega
      · have hbuffer : (s.buffer.length : ℚ) ≤ s.accepted.length := by exact_mod_cast h.buffer
        exact (hfull.trans hbuffer).trans_lt hgrow
    · refine ⟨?_, fun hevicted => (h.evicted hevicted).trans hgrow, h.discarded⟩
      have hbuffer := h.buffer
      simp only [push, length_append, length_singleton]
      omega
  rw [sendResult]
  split
  · exact ⟨hpush.buffer, hpush.evicted, hpush.discarded⟩
  · exact hpush

theorem doFlush_givesUp (h : s.GivesUp policy) (k : Nat) : (s.doFlush k).GivesUp policy := by
  rw [doFlush]
  split
  · refine ⟨?_, h.evicted, h.discarded⟩
    dsimp only
    split
    · exact h.buffer
    · exact Nat.zero_le _
  · exact ⟨h.buffer, h.evicted, h.discarded⟩

theorem resume_givesUp (h : s.GivesUp policy) (n : Nat) : (s.resume policy n).GivesUp policy := by
  rw [resume]
  split
  · exact h
  · split
    · split
      · split
        · exact ⟨h.buffer, h.evicted, h.discarded⟩
        · rename_i hsends
          refine ⟨Nat.zero_le _, h.evicted, fun _ => ?_⟩
          simp only [sends, Bool.or_eq_true, bne_iff_ne, ne_eq, not_or, not_not] at hsends
          exact hsends.2
      · exact h
    · split
      · exact ⟨h.buffer, h.evicted, h.discarded⟩
      · exact ⟨h.buffer, h.evicted, h.discarded⟩
      · exact h
    · exact h

/-- A step gives up only what its policy gives up. -/
theorem step_givesUp (h : s.GivesUp policy) (e : Event π) : (s.step policy e).GivesUp policy := by
  cases e with
  | sendResult payload => exact sendResult_givesUp h payload
  | tick =>
    rw [step]
    split
    · exact ⟨h.buffer, h.evicted, h.discarded⟩
    · exact h
  | flush | drain status => exact ⟨h.buffer, h.evicted, h.discarded⟩
  | start k =>
    simp only [step, start]
    split
    · split
      · exact doFlush_givesUp h k
      · exact h
    · exact h
  | answer k ok =>
    simp only [step, answer]
    split
    · split
      · refine doFlush_givesUp ?_ k
        exact ⟨h.buffer, h.evicted, h.discarded⟩
      · exact ⟨h.buffer, h.evicted, h.discarded⟩
    · exact h
  | resume n => exact resume_givesUp h n

theorem init_givesUp : (init policy : BufferingTransport π).GivesUp policy :=
  ⟨le_rfl, fun h => absurd rfl h, fun h => absurd rfl h⟩

/-- What the invariant says of the order, and what is given up, make the delivery. -/
theorem Inv.delivered (h : s.Inv policy) (hgives : s.GivesUp policy) : s.Delivered policy := by
  obtain ⟨items, hholds⟩ := h.sent_holds
  refine ⟨(pairwise_append.mp hholds.ordered).1, fun x hx => hholds.accepted x
    (mem_append_left _ hx), fun j k items items' hj hk => ?_,
    fun d hd => (h.drains d hd).resolved, hgives.evicted, hgives.discarded⟩
  have hset : s.flushes.set k (.sending items') = s.flushes := by
    rw [← (List.getElem?_eq_some_iff.mp hk).2, set_getElem_self]
  exact ((h.turn_of_sending hk).sending_set (f := .sending items') (by rw [hset]; exact hj)).1

/-- After every run the results have been delivered once and in order, and a drain that sends has
left none behind but those that the program gave up. -/
theorem results_delivered (policy : Policy) (es : List (Event π)) :
    (run (step policy) (init policy) es).Delivered policy := by
  have hinv : (run (step policy) (init policy) es).Inv policy :=
    run_invariant (fun _ e h => step_inv h e) init_inv
  have hgives : (run (step policy) (init policy) es).GivesUp policy :=
    run_invariant (fun _ e h => step_givesUp h e) init_givesUp
  exact hinv.delivered hgives

/-- A drain of a success has ended with a result that was never sent. -/
def Lost (s : BufferingTransport π) : Prop :=
  ∃ d ∈ s.drains, d.status = .success ∧ d.stage = .resolved ∧
    ∃ i < d.accepted, ∀ x ∈ s.sent.flatten, x.1 ≠ i

theorem sendResult_eq (payload : π) (hfits : (s.buffer.length : ℚ) < maxBufferSize policy) :
    s.sendResult policy payload =
      if policy.batchSize ≤ ((s.push payload).buffer.length : ℚ) then (s.push payload).flush
      else s.push payload := by
  rw [sendResult, evict, if_neg (not_le.mpr hfits)]

def discarding : Policy := ⟨10, none, some false⟩

def dropped : List (Event Unit) :=
  [.sendResult (), .drain .failure, .resume 0, .drain .success, .resume 1, .start 0, .resume 1]

theorem lost_dropped : Lost (run (step discarding) (init discarding) dropped) := by
  have hpush : step discarding (init discarding) (.sendResult ()) =
      ((init discarding).push () : BufferingTransport Unit) := by
    rw [step, sendResult_eq _ (by norm_num [init, maxBufferSize, discarding]), if_neg]
    norm_num [push, init, discarding]
  rw [dropped, run_cons, hpush]
  exact ⟨⟨.success, 1, .resolved⟩, mem_cons_of_mem _ mem_cons_self, rfl, rfl, 0,
    Nat.zero_lt_one, nofun⟩

def eager : Policy := ⟨1, none, none⟩

/-- Flush 0 is under way with the first payload, and `n` payloads have come since. -/
def filled (n : Nat) : BufferingTransport Unit where
  buffer := (List.range' 1 n).map fun i => (i, ())
  retryBatch := none
  timer := false
  flushes := .sending [(0, ())] :: List.replicate n .waiting
  drains := []
  accepted := List.replicate (n + 1) ()
  sent := []
  evicted := []
  discarded := []

/-- After `n` payloads another one has come, and the oldest of the buffer has gone. -/
def overfull (n : Nat) : BufferingTransport Unit where
  buffer := (List.range' 2 n).map fun i => (i, ())
  retryBatch := none
  timer := false
  flushes := .sending [(0, ())] :: List.replicate (n + 1) .waiting
  drains := []
  accepted := List.replicate (n + 2) ()
  sent := []
  evicted := [(1, ())]
  discarded := []

/-- All that was left has been sent; `m` flushes are settled and `k` wait. -/
def emptied (n m k : Nat) : BufferingTransport Unit where
  buffer := []
  retryBatch := none
  timer := false
  flushes := List.replicate m .resolved ++ List.replicate k .waiting
  drains := []
  accepted := List.replicate (n + 2) ()
  sent := [[(0, ())], (List.range' 2 n).map fun i => (i, ())]
  evicted := [(1, ())]
  discarded := []

theorem step_filled {n : Nat} (hn : n < 1000) :
    step eager (filled n) (.sendResult ()) = filled (n + 1) := by
  have hfits : ((filled n).buffer.length : ℚ) < maxBufferSize eager := by
    have hcap : (n : ℚ) < 1000 := by exact_mod_cast hn
    simp only [filled, length_map, length_range', maxBufferSize, lt_max_iff]
    exact .inr hcap
  have haccepted : List.replicate n () ++ [(), ()] = List.replicate (1 + (n + 1)) () :=
    eq_replicate_iff.mpr ⟨by simp; omega, fun _ _ => rfl⟩
  rw [step, sendResult_eq _ hfits, if_pos (by simp [push, filled, eager])]
  simpa [push, flush, filled, range'_concat, replicate_succ', Nat.add_comm] using haccepted

theorem run_filled (n m : Nat) (h : n + m ≤ 1000) :
    run (step eager) (filled n) (List.replicate m (.sendResult ())) = filled (n + m) := by
  induction m generalizing n with
  | zero => rfl
  | succ m ih =>
    rw [replicate_succ, run_cons, step_filled (by omega), ih (n + 1) (by omega)]
    congr 1
    omega

theorem step_overfull {n : Nat} (hn : 1000 ≤ n) : step eager (filled n) (.sendResult ()) = overfull n := by
  obtain ⟨k, rfl⟩ : ∃ k, n = k + 1 := ⟨n - 1, by omega⟩
  have hcap : (1000 : ℚ) ≤ (k + 1 : Nat) := by exact_mod_cast hn
  have hfull : maxBufferSize eager ≤ ((filled (k + 1)).buffer.length : ℚ) := by
    simp only [filled, length_map, length_range', maxBufferSize, max_le_iff, eager]
    exact ⟨le_trans (by norm_num) hcap, hcap⟩
  rw [step, sendResult, evict, if_pos hfull, if_pos (by simp [push, filled, eager])]
  have haccepted : List.replicate (k + 1) () ++ [(), ()] = List.replicate (k + 1 + 2) () :=
    eq_replicate_iff.mpr ⟨by simp, fun _ _ => rfl⟩
  have hbuffer : List.range' 2 (k + 1) = List.range' 2 k ++ [k + 1 + 1] := by
    rw [range'_concat, Nat.one_mul, Nat.add_comm 2 k]
  simp only [push, flush, filled, overfull, BufferingTransport.mk.injEq, true_and, and_true]
  refine ⟨?_, ?_, ?_, ?_⟩
  · rw [hbuffer, map_append, length_replicate, range'_succ]
    rfl
  · rw [cons_append, ← replicate_succ']
  · exact replicate_succ'.symm
  · rw [range'_succ]
    rfl

theorem step_start (n m k : Nat) (hm : 0 < m) :
    step eager (emptied n m (k + 1)) (.start m) = emptied n (m + 1) k := by
  obtain ⟨j, rfl⟩ : ∃ j, m = j + 1 := ⟨m - 1, by omega⟩
  have hflush : (emptied n (j + 1) (k + 1)).flushes[j + 1]? = some .waiting := by
    simp [emptied]
  have hbefore : (emptied n (j + 1) (k + 1)).settledBefore (j + 1) := by
    simp [emptied, settledBefore, getElem?_append_left, Flush.settled]
  rw [step, start, hflush]
  dsimp only
  rw [if_pos hbefore, doFlush, if_neg (by simp [emptied])]
  simp only [emptied, BufferingTransport.mk.injEq, true_and, and_true]
  rw [set_append_right _ _ (by simp), length_replicate, Nat.sub_self,
    replicate_succ (n := k), set_cons_zero, replicate_succ' (n := j + 1),
    append_assoc]
  rfl

theorem run_starts (n m k : Nat) (hm : 0 < m) :
    run (step eager) (emptied n m k) ((List.range' m k).map .start) = emptied n (m + k) 0 := by
  induction k generalizing m with
  | zero => rfl
  | succ k ih =>
    rw [range'_succ, map_cons, run_cons, step_start n m k hm, ih (m + 1) (by omega)]
    congr 1
    omega

/-- While the first payload is under way, `n + 1` payloads come. -/
def overflow (n : Nat) : List (Event Unit) :=
  [.sendResult (), .start 0] ++ (List.replicate n (.sendResult ()) ++
    ([.sendResult (), .answer 0 true, .answer 0 true] ++ ((List.range' 1 (n + 1)).map .start ++
      [.drain .success, .resume 0, .start (n + 2), .resume 0])))

theorem step_answers (n : Nat) : run (step eager) (overfull (n + 1))
    [.answer 0 true, .answer 0 true] = emptied (n + 1) 1 (n + 2) := by
  simp [run, step, answer, doFlush, overfull, emptied]

variable (s) in
theorem run_append (es fs : List (Event π)) :
    run (step policy) s (es ++ fs) = run (step policy) (run (step policy) s es) fs :=
  foldl_append

theorem lost_emptied (m : Nat) : Lost (run (step eager) (emptied (m + 1) (1 + (m + 1 + 1)) 0)
    [.drain .success, .resume 0, .start (m + 1 + 2), .resume 0]) := by
  have hcount : 1 + (m + 1 + 1) = m + 3 := by omega
  rw [hcount]
  refine ⟨⟨.success, m + 3, .resolved⟩, ?_, rfl, rfl, 1, Nat.le_add_left 2 (m + 1), fun x hx => ?_⟩
  · simp [run, step, drain, resume, settledBefore, sends, setStage, flush, start, doFlush, dispose,
      emptied, Flush.settled]
  · have hsent : x ∈ [(0, ())] ++ (List.range' 2 (m + 1)).map fun i => (i, ()) := by
      simpa [run, step, drain, resume, settledBefore, sends, setStage, flush, start, doFlush,
        dispose, emptied, Flush.settled] using hx
    rcases mem_append.mp hsent with hx | hx
    · rw [mem_singleton.mp hx]
      decide
    · obtain ⟨i, hi, rfl⟩ := mem_map.mp hx
      have hge := (List.mem_range'_1.mp hi).1
      dsimp only
      omega

theorem lost_overflow {n : Nat} (hn : n = 1000) : Lost (run (step eager) (init eager) (overflow n)) := by
  have hstart : run (step eager) (init eager) [.sendResult (), .start 0] = filled 0 := by
    have hpush : step eager (init eager) (.sendResult ()) = ((init eager).push ()).flush := by
      rw [step, sendResult_eq _ (by norm_num [init, maxBufferSize, eager]), if_pos]
      norm_num [push, init, eager]
    rw [run_cons, hpush]
    rfl
  obtain ⟨m, rfl⟩ : ∃ m, n = m + 1 := ⟨n - 1, by omega⟩
  rw [overflow, run_append, hstart, run_append, run_filled 0 (m + 1) (by omega), Nat.zero_add,
    cons_append, run_cons, step_overfull (by omega), run_append, step_answers, run_append,
    run_starts _ _ _ Nat.zero_lt_one]
  exact lost_emptied m

/-- The two ways in which a payload is given up. -/
theorem lost_given_up : Lost (run (step discarding) (init discarding) dropped) ∧
    Lost (run (step eager) (init eager) (overflow 1000)) :=
  ⟨lost_dropped, lost_overflow rfl⟩

end BufferingTransport

end Buffering

end Aegis
