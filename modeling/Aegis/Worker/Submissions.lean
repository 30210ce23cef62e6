import Aegis.Lib.Run
import Aegis.Worker.HttpTransport
import Mathlib.Data.List.Nodup
import Mathlib.Data.List.Perm.Basic

/-!
# Worker.Submissions

The versioned submissions of one attempt, of `worker/HttpTransport.ts`: any calls of `sendResult` and
`sendFinalSummary`, in time, on transports that share one `ResultSubmissionState`.

A run is a list of events: a call begins and goes on up to its first request, the server takes a
submission that has been sent, or a request ends. An event that cannot happen changes nothing.
`repeats` and `repeated` record which call its caller makes again after a rejection; the program does
not look at them.
-/

namespace Aegis

open List

namespace Worker

inductive Stage where
  | posting (left : Nat)
  | resolved
  | refused
  | failed
  | rejected
deriving DecidableEq

/-- A call of `sendVersionedResult`; without an envelope another submission was in its way. -/
structure Call where
  kind : Kind
  payload : String
  immediate : Bool
  repeats : Option Nat
  envelope : Option Envelope
  stage : Stage
  repeated : Bool

structure Attempt where
  state : ResultSubmissionState
  calls : List Call
  sent : List Envelope
  rows : List Envelope

inductive Answer where
  | acknowledged
  | unreadable
  | status (code : Nat)
  | network
  | aborted

inductive SubmissionEvent where
  | call (kind : Kind) (payload : String) (immediate : Bool) (repeats : Option Nat)
  | arrive (envelope : Envelope)
  | answer (i : Nat) (answer : Answer)

namespace Attempt

def start : Attempt := ⟨⟨0, none⟩, [], [], []⟩

def mayRepeat (kind : Kind) (payload : String) (immediate : Bool) (c : Call) : Bool :=
  (c.stage == .refused || c.stage == .failed || c.stage == .rejected) && !c.repeated &&
    c.kind == kind && c.payload == payload && c.immediate == immediate

/-- The calls, with the one that is made again marked; `none` when there is no such call. -/
def mark (s : Attempt) (kind : Kind) (payload : String) (immediate : Bool) : Option Nat → Option (List Call)
  | none => some s.calls
  | some j =>
    match s.calls[j]? with
    | some c =>
      if mayRepeat kind payload immediate c then
        some (s.calls.set j { c with repeated := true })
      else none
    | none => none

/-- `sendVersionedResult`, up to its first request, after `calls`. -/
def begun (s : Attempt) (kind : Kind) (payload : String) (immediate : Bool) (repeats : Option Nat)
    (calls : List Call) : Attempt :=
  match s.state.envelopeFor kind payload immediate with
  | none =>
    { s with calls := calls ++ [⟨kind, payload, immediate, repeats, none, .failed, false⟩] }
  | some e =>
    { s with
      state := if s.state.pending = none then ⟨e.sequence, some e⟩ else s.state
      calls := calls ++ [⟨kind, payload, immediate, repeats, some e, .posting (maxAttempts - 1), false⟩]
      sent := if s.state.pending = none then s.sent ++ [e] else s.sent }

def begin (s : Attempt) (kind : Kind) (payload : String) (immediate : Bool)
    (repeats : Option Nat) : Attempt :=
  match s.mark kind payload immediate repeats with
  | none => s
  | some calls => s.begun kind payload immediate repeats calls

/-- The server takes a submission: a row of its key is there once. -/
def arrive (s : Attempt) (e : Envelope) : Attempt :=
  if e ∈ s.sent ∧ ¬s.rows.any fun q => q.sequence == e.sequence && q.kind == e.kind then
    { s with rows := s.rows ++ [e] }
  else s

def retried : Nat → Stage
  | 0 => .failed
  | left + 1 => .posting left

-- `isInternalResultControl` is of the text of a payload; `valid` is what the server says of a row.
variable (isInternalResultControl : String → Bool) (valid : Envelope → Bool)

def answer (s : Attempt) (i : Nat) (a : Answer) : Attempt :=
  match s.calls[i]? with
  | some c =>
    match c.stage, c.envelope with
    | .posting left, some e =>
      match a with
      | .acknowledged =>
        -- the row is there, and whether it is valid is said
        if e ∈ s.rows then
          { s with
            state := if s.state.pending = some e then { s.state with pending := none } else s.state
            calls := s.calls.set i { c with stage := if valid e then .resolved else .refused } }
        else s
      | .status code =>
        if code < 500 then { s with calls := s.calls.set i { c with stage := .rejected } }
        else { s with calls := s.calls.set i { c with stage := retried left } }
      | .unreadable | .network => { s with calls := s.calls.set i { c with stage := retried left } }
      | .aborted => { s with calls := s.calls.set i { c with stage := .failed } }
    | _, _ => s
  | none => s

/-- A control marker that is given to `sendResult` is no result, and nothing is sent for it. -/
def step (s : Attempt) : SubmissionEvent → Attempt
  | .call kind payload immediate repeats =>
    if kind = .batch && isInternalResultControl payload then s
    else s.begin kind payload immediate repeats
  | .arrive e => s.arrive e
  | .answer i a => s.answer valid i a

/-- The payloads that were submitted: repetitions are not counted. -/
def submitted (s : Attempt) : Nat := s.calls.countP (·.repeats.isNone)

/-- Every call has been acknowledged, itself or when it was made again. -/
def Settled (s : Attempt) : Prop :=
  ∀ c ∈ s.calls, c.repeated = false → c.stage = .resolved ∨ c.stage = .refused

/-- Each resolved call has a row of its own, and what is rejected is in the way of nothing. -/
structure Faithful (s : Attempt) : Prop where
  acknowledged : ∀ c ∈ s.calls, c.stage = .resolved → ∃ e ∈ s.rows, c.envelope = some e ∧
    valid e = true ∧ e.kind = c.kind ∧ e.payload = c.payload
  own : ∀ (i j : Nat) (c d : Call), s.calls[i]? = some c → s.calls[j]? = some d →
    c.stage = .resolved → d.stage = .resolved → c.envelope = d.envelope → i = j
  once : (s.sent.map (·.sequence)).Nodup ∧ (s.rows.map (·.sequence)).Nodup
  counted : s.Settled → s.rows.length = s.submitted
  unblocked : ∀ c ∈ s.calls, c.stage = .rejected ∨ c.stage = .refused →
    s.state.pending = none ∨ s.state.pending ≠ c.envelope

/-- A call that is made while its content is pending repeats the call that the pending submission is
of; no call is made again that was acknowledged as not valid; and no request is answered with an
error that is not to be repeated. -/
def Careful (s : Attempt) : SubmissionEvent → Prop
  | .call kind payload immediate none =>
    s.state.pending = none ∨ s.state.envelopeFor kind payload immediate = none
  | .call kind payload immediate (some j) =>
    ∀ c, s.calls[j]? = some c → mayRepeat kind payload immediate c = true → c.stage = .failed ∧
      (c.envelope = none → s.state.pending = none ∨ s.state.envelopeFor kind payload immediate = none)
  | .arrive _ => True
  | .answer _ (.status code) => 500 ≤ code
  | .answer _ _ => True

/-! ## The invariant -/

def headOf (c : Call) : Option Envelope := if c.repeated then none else c.envelope

/-- What holds in every state of a run whose steps are careful: the submissions that were sent are
those of the calls that have not been made again, each of one of them. -/
structure Sound (s : Attempt) : Prop where
  sequences : s.sent.map (·.sequence) = List.range' 1 s.state.nextSequence
  arrived : ∀ e ∈ s.rows, e ∈ s.sent
  rowsNodup : s.rows.Nodup
  content : ∀ c ∈ s.calls, ∀ e, c.envelope = some e → e.kind = c.kind ∧ e.payload = c.payload ∧
    e.immediate = c.immediate
  acknowledged : ∀ c ∈ s.calls, c.stage = .resolved ∨ c.stage = .refused →
    ∃ e ∈ s.rows, c.envelope = some e ∧ (c.stage = .resolved → valid e = true)
  repeated : ∀ c ∈ s.calls, c.repeated = true → c.stage = .failed
  heads : (s.calls.filterMap headOf).Perm s.sent
  roots : s.calls.countP (·.repeats.isNone) = s.calls.countP fun c => !c.repeated
  pending : ∀ e, s.state.pending = some e → ∃ c ∈ s.calls, headOf c = some e ∧
    ((∃ left, c.stage = .posting left) ∨ c.stage = .failed)
  current : ∀ c ∈ s.calls, c.repeated = false → ∀ e, c.envelope = some e →
    ((∃ left, c.stage = .posting left) ∨ c.stage = .failed) → s.state.pending = some e
  notRejected : ∀ c ∈ s.calls, c.stage ≠ .rejected

theorem headOf_eq_some {c : Call} {e : Envelope} :
    headOf c = some e ↔ c.repeated = false ∧ c.envelope = some e := by
  rw [headOf]
  cases c.repeated with
  | true | false => simp

section Lists

variable {α β : Type} {l : List α} {i : Nat} {a b : α}

theorem forall_mem_set {p : α → Prop} (h : ∀ x ∈ l, p x) (hb : p b) : ∀ x ∈ l.set i b, p x := by
  intro x hx
  rcases mem_or_eq_of_mem_set hx with hx | rfl
  · exact h x hx
  · exact hb

variable {f : α → Option β}

theorem filterMap_set_of_eq (ha : l[i]? = some a) (h : f b = f a) :
    (l.set i b).filterMap f = l.filterMap f := by
  induction l generalizing i with
  | nil => cases ha
  | cons x l ih =>
    cases i with
    | zero =>
      cases ha
      rw [set_cons_zero, filterMap_cons, filterMap_cons, h]
    | succ i => rw [set_cons_succ, filterMap_cons, filterMap_cons, ih ha]

theorem filterMap_set_perm (ha : l[i]? = some a) (hb : f b = none) :
    ((l.set i b).filterMap f ++ (f a).toList).Perm (l.filterMap f) := by
  induction l generalizing i with
  | nil => cases ha
  | cons x l ih =>
    cases i with
    | zero =>
      obtain rfl := Option.some.inj ha
      rw [set_cons_zero, filterMap_cons_none hb, filterMap_cons]
      cases f x with
      | none => rw [Option.toList_none, append_nil]
      | some y => exact perm_append_singleton _ _
    | succ i =>
      rw [set_cons_succ, filterMap_cons, filterMap_cons]
      cases f x with
      | none => exact ih ha
      | some y => exact (ih ha).cons y

variable {p : α → Bool}

theorem countP_set_of_eq (ha : l[i]? = some a) (h : p b = p a) : (l.set i b).countP p = l.countP p := by
  induction l generalizing i with
  | nil => cases ha
  | cons x l ih =>
    cases i with
    | zero =>
      cases ha
      rw [set_cons_zero, countP_cons, countP_cons, h]
    | succ i => rw [set_cons_succ, countP_cons, countP_cons, ih ha]

theorem countP_set_succ (ha : l[i]? = some a) (hpa : p a)
    (hpb : p b = false) : (l.set i b).countP p + 1 = l.countP p := by
  induction l generalizing i with
  | nil => cases ha
  | cons x l ih =>
    cases i with
    | zero =>
      cases ha
      rw [set_cons_zero, countP_cons_of_neg (by simp [hpb]), countP_cons_of_pos hpa]
    | succ i =>
      have := ih ha
      rw [set_cons_succ, countP_cons, countP_cons]
      omega

theorem eq_of_filterMap_nodup (h : (l.filterMap f).Nodup) {j : Nat} {e : β}
    (ha : l[i]? = some a) (hb : l[j]? = some b) (hfa : f a = some e) (hfb : f b = some e) :
    i = j := by
  induction l generalizing i j with
  | nil => cases ha
  | cons x l ih =>
    have hmem : ∀ (k : Nat) (c : α), l[k]? = some c → f c = some e → e ∈ l.filterMap f :=
      fun k c hk hc => mem_filterMap.mpr ⟨c, mem_of_getElem? hk, hc⟩
    cases i with
    | zero =>
      cases ha
      cases j with
      | zero => rfl
      | succ j =>
        rw [filterMap_cons_some hfa, nodup_cons] at h
        exact absurd (hmem j b hb hfb) h.1
    | succ i =>
      cases j with
      | zero =>
        cases hb
        rw [filterMap_cons_some hfb, nodup_cons] at h
        exact absurd (hmem i a ha hfa) h.1
      | succ j =>
        have hrest : (l.filterMap f).Nodup := by
          rw [filterMap_cons] at h
          cases hx : f x with
          | none => rw [hx] at h; exact h
          | some y => rw [hx] at h; exact (nodup_cons.mp h).2
        rw [ih hrest ha hb]

end Lists

variable {calls : List Call} {stage : Stage}

theorem heads_set {i : Nat} {c : Call} (hi : calls[i]? = some c) :
    (calls.set i { c with stage := stage }).filterMap headOf = calls.filterMap headOf :=
  filterMap_set_of_eq hi rfl

theorem roots_set {i : Nat} {c : Call} (hi : calls[i]? = some c)
    (hroots : calls.countP (·.repeats.isNone) = calls.countP fun d => !d.repeated) :
    (calls.set i { c with stage := stage }).countP (·.repeats.isNone) =
      (calls.set i { c with stage := stage }).countP fun d => !d.repeated := by
  have hnew : (calls.set i { c with stage := stage }).countP (·.repeats.isNone) =
      calls.countP (·.repeats.isNone) := countP_set_of_eq hi rfl
  have hlive : (calls.set i { c with stage := stage }).countP (fun d => !d.repeated) =
      calls.countP fun d => !d.repeated := countP_set_of_eq hi rfl
  rw [hnew, hroots, hlive]

namespace Sound

variable {valid} {s : Attempt} (h : Sound valid s)

include h

theorem sent_nodup : s.sent.Nodup := by
  refine List.Nodup.of_map (·.sequence) ?_
  rw [h.sequences]
  exact nodup_range'

theorem heads_nodup : (s.calls.filterMap headOf).Nodup := h.heads.nodup_iff.mpr h.sent_nodup

theorem eq_of_sequence {d e : Envelope} (hd : d ∈ s.sent) (he : e ∈ s.sent)
    (hsame : d.sequence = e.sequence) : d = e := by
  have hnodup : (s.sent.map (·.sequence)).Nodup := by
    rw [h.sequences]
    exact nodup_range'
  exact inj_on_of_nodup_map hnodup hd he hsame

variable {c : Call}

theorem head_of_acknowledged (hc : c ∈ s.calls)
    (hstage : c.stage = .resolved ∨ c.stage = .refused) : headOf c = c.envelope := by
  have hno : c.repeated = false := by
    rw [← Bool.not_eq_true]
    intro hrepeated
    have hfailed := h.repeated c hc hrepeated
    rw [hfailed] at hstage
    simp at hstage
  rw [headOf, hno]
  rfl

theorem faithful : Faithful valid s where
  acknowledged c hc hstage := by
    obtain ⟨e, he, henvelope, hvalid⟩ := h.acknowledged c hc (.inl hstage)
    obtain ⟨hkind, hpayload, -⟩ := h.content c hc e henvelope
    exact ⟨e, he, henvelope, hvalid hstage, hkind, hpayload⟩
  own i j c d hi hj hc hd hsame := by
    have hmem := mem_of_getElem? hi
    obtain ⟨e, -, henvelope, -⟩ := h.acknowledged c hmem (.inl hc)
    refine eq_of_filterMap_nodup h.heads_nodup hi hj (e := e) ?_ ?_
    · rw [h.head_of_acknowledged hmem (.inl hc), henvelope]
    · rw [h.head_of_acknowledged (mem_of_getElem? hj) (.inl hd), ← hsame, henvelope]
  once := by
    have hnodup : (s.sent.map (·.sequence)).Nodup := by
      rw [h.sequences]
      exact nodup_range'
    refine ⟨hnodup, (nodup_map_iff_inj_on h.rowsNodup).mpr fun d hd e he hsame => ?_⟩
    exact h.eq_of_sequence (h.arrived d hd) (h.arrived e he) hsame
  counted hsettled := by
    have hrows : s.rows.Perm s.sent := by
      refine (perm_ext_iff_of_nodup h.rowsNodup h.sent_nodup).mpr fun e => ⟨h.arrived e, ?_⟩
      intro he
      obtain ⟨c, hc, hhead⟩ := mem_filterMap.mp (h.heads.mem_iff.mpr he)
      obtain ⟨hno, henvelope⟩ := headOf_eq_some.mp hhead
      obtain ⟨e', he', henvelope', -⟩ := h.acknowledged c hc (hsettled c hc hno)
      obtain rfl := Option.mem_unique henvelope henvelope'
      exact he'
    have hheads : s.calls.countP (fun c => !c.repeated) = (s.calls.filterMap headOf).length := by
      rw [length_filterMap_eq_countP]
      refine countP_congr fun c hc => ?_
      cases hrepeated : c.repeated with
      | true => simp [headOf, hrepeated]
      | false =>
        obtain ⟨e, -, henvelope, -⟩ := h.acknowledged c hc (hsettled c hc hrepeated)
        simp [headOf, hrepeated, henvelope]
    rw [submitted, h.roots, hheads, h.heads.length_eq, hrows.length_eq]
  unblocked c hc hstage := by
    rcases hstage with hrejected | hrefused
    · exact absurd hrejected (h.notRejected c hc)
    · refine or_iff_not_imp_left.mpr fun hpending hsame => ?_
      obtain ⟨e, he⟩ := Option.ne_none_iff_exists'.mp hpending
      obtain ⟨d, hd, hhead, hstage⟩ := h.pending e he
      obtain ⟨i, hi⟩ := mem_iff_getElem?.mp hc
      obtain ⟨j, hj⟩ := mem_iff_getElem?.mp hd
      have hheadc : headOf c = some e := by
        rw [h.head_of_acknowledged hc (.inr hrefused), ← hsame, he]
      obtain rfl := eq_of_filterMap_nodup h.heads_nodup hi hj hheadc hhead
      obtain rfl := Option.mem_unique hi hj
      rw [hrefused] at hstage
      simp at hstage

theorem not_repeated {left : Nat} (hc : c ∈ s.calls) (hstage : c.stage = .posting left) :
    c.repeated = false := by
  rw [← Bool.not_eq_true]
  intro hrepeated
  rw [h.repeated c hc hrepeated] at hstage
  cases hstage

theorem arrive (e : Envelope) : Sound valid (s.arrive e) := by
  rw [Attempt.arrive]
  split
  · rename_i hnew
    obtain ⟨hsent, hnone⟩ := hnew
    have hnot : e ∉ s.rows := by
      intro hmem
      exact hnone (List.any_eq_true.mpr ⟨e, hmem, by simp⟩)
    refine { h with arrived := ?_, rowsNodup := ?_, acknowledged := ?_ }
    · intro d hd
      rcases mem_append.mp hd with hd | hd
      · exact h.arrived d hd
      · rw [mem_singleton.mp hd]
        exact hsent
    · exact nodup_append.mpr ⟨h.rowsNodup, nodup_singleton e, fun d hd e' he' heq =>
        hnot (mem_singleton.mp he' ▸ heq ▸ hd)⟩
    · intro c hc hstage
      obtain ⟨d, hd, hrest⟩ := h.acknowledged c hc hstage
      exact ⟨d, mem_append_left _ hd, hrest⟩
  · exact h

variable {i left : Nat}

theorem unacknowledged {stage : Stage} (hi : s.calls[i]? = some c) (hstage : c.stage = .posting left)
    (hnew : (∃ left, stage = .posting left) ∨ stage = .failed) :
    Sound valid { s with calls := s.calls.set i { c with stage := stage } } := by
  have hc := mem_of_getElem? hi
  have hno := h.not_repeated hc hstage
  refine ⟨h.sequences, h.arrived, h.rowsNodup, ?_, ?_, ?_, ?_, ?_, ?_, ?_, ?_⟩
  · exact forall_mem_set h.content (h.content c hc)
  · refine forall_mem_set h.acknowledged fun hack => ?_
    rcases hnew with ⟨left, rfl⟩ | rfl
    all_goals simp at hack
  · refine forall_mem_set h.repeated fun hrepeated => ?_
    rw [hno] at hrepeated
    cases hrepeated
  · exact (heads_set hi) ▸ h.heads
  · exact roots_set hi h.roots
  · intro d hd
    obtain ⟨c', hc', hhead, hwaits⟩ := h.pending d hd
    obtain ⟨j, hj⟩ := mem_iff_getElem?.mp hc'
    by_cases hij : i = j
    · subst hij
      obtain rfl := Option.mem_unique hi hj
      exact ⟨{ c with stage := stage }, List.mem_set (List.getElem?_eq_some_iff.mp hi).1 _, hhead, hnew⟩
    · refine ⟨c', mem_of_getElem? (i := j) ?_, hhead, hwaits⟩
      rw [getElem?_set_ne hij, hj]
  · exact forall_mem_set h.current fun _ e' he' _ => h.current c hc hno e' he' (.inl ⟨left, hstage⟩)
  · refine forall_mem_set h.notRejected ?_
    rcases hnew with ⟨left, rfl⟩ | rfl
    all_goals exact nofun

theorem acknowledge {e : Envelope} (hi : s.calls[i]? = some c)
    (hstage : c.stage = .posting left) (he : c.envelope = some e) (hrow : e ∈ s.rows) :
    Sound valid { s with
      state := if s.state.pending = some e then { s.state with pending := none } else s.state
      calls := s.calls.set i { c with stage := if valid e then .resolved else .refused } } := by
  have hc := mem_of_getElem? hi
  have hno := h.not_repeated hc hstage
  have hpending := h.current c hc hno e he (.inl ⟨left, hstage⟩)
  have hdone : (if valid e then Stage.resolved else .refused) = .resolved ∧ valid e = true ∨
      (if valid e then Stage.resolved else .refused) = .refused := by
    cases valid e with
    | true => exact .inl ⟨rfl, rfl⟩
    | false => exact .inr rfl
  rw [if_pos hpending]
  refine ⟨h.sequences, h.arrived, h.rowsNodup, ?_, ?_, ?_, ?_, ?_, ?_, ?_, ?_⟩
  · exact forall_mem_set h.content (h.content c hc)
  · refine forall_mem_set h.acknowledged fun _ => ⟨e, hrow, he, fun hresolved => ?_⟩
    rcases hdone with ⟨-, hvalid⟩ | hrefused
    · exact hvalid
    · exact absurd (hrefused.symm.trans hresolved) nofun
  · refine forall_mem_set h.repeated fun hrepeated => ?_
    rw [hno] at hrepeated
    cases hrepeated
  · exact (heads_set hi) ▸ h.heads
  · exact roots_set hi h.roots
  · intro d hd
    cases hd
  · intro d hd hlive e' he' hwaits
    obtain ⟨j, hj⟩ := mem_iff_getElem?.mp hd
    by_cases hij : i = j
    · subst hij
      rw [getElem?_set_self (List.getElem?_eq_some_iff.mp hi).1] at hj
      cases hj
      rcases hdone with ⟨hresolved, -⟩ | hrefused
      · simp only [hresolved] at hwaits
        simp at hwaits
      · simp only [hrefused] at hwaits
        simp at hwaits
    · rw [getElem?_set_ne hij] at hj
      have hpending' := h.current d (mem_of_getElem? hj) hlive e' he' hwaits
      obtain rfl := Option.mem_unique hpending hpending'
      exact absurd (eq_of_filterMap_nodup h.heads_nodup hi hj (headOf_eq_some.mpr ⟨hno, he⟩)
        (headOf_eq_some.mpr ⟨hlive, he'⟩)) hij
  · refine forall_mem_set h.notRejected ?_
    rcases hdone with ⟨hresolved, -⟩ | hrefused
    · exact fun hr => by rw [hresolved] at hr; cases hr
    · exact fun hr => by rw [hrefused] at hr; cases hr

theorem answer {i : Nat} {a : Answer} (hcareful : Careful s (.answer i a)) :
    Sound valid (s.answer valid i a) := by
  rw [Attempt.answer]
  split
  · rename_i c hi
    split
    · rename_i left e hstage he
      have hretried : (∃ left', retried left = .posting left') ∨ retried left = .failed := by
        cases left with
        | zero => exact .inr rfl
        | succ left => exact .inl ⟨left, rfl⟩
      cases a with
      | acknowledged =>
        dsimp only
        split
        · rename_i hrow
          exact h.acknowledge hi hstage he hrow
        · exact h
      | status code =>
        dsimp only
        rw [if_neg (Nat.not_lt.mpr hcareful)]
        exact h.unacknowledged hi hstage hretried
      | unreadable | network => exact h.unacknowledged hi hstage hretried
      | aborted => exact h.unacknowledged hi hstage (.inr rfl)
    · exact h
  · exact h

end Sound

/-- The calls before a new one, when the call that it repeats has been marked: `extra` is the
submission of that call. -/
structure Marked (s : Attempt) (calls : List Call) (repeats : Option Nat)
    (extra : Option Envelope) : Prop where
  content : ∀ c ∈ calls, ∀ e, c.envelope = some e → e.kind = c.kind ∧ e.payload = c.payload ∧
    e.immediate = c.immediate
  acknowledged : ∀ c ∈ calls, c.stage = .resolved ∨ c.stage = .refused →
    ∃ e ∈ s.rows, c.envelope = some e ∧ (c.stage = .resolved → valid e = true)
  repeated : ∀ c ∈ calls, c.repeated = true → c.stage = .failed
  heads : (calls.filterMap headOf ++ extra.toList).Perm s.sent
  roots : calls.countP (·.repeats.isNone) =
    (calls.countP fun c => !c.repeated) + if repeats.isNone then 0 else 1
  pending : ∀ e, s.state.pending = some e → extra = some e ∨ ∃ c ∈ calls, headOf c = some e ∧
    ((∃ left, c.stage = .posting left) ∨ c.stage = .failed)
  current : ∀ c ∈ calls, c.repeated = false → ∀ e, c.envelope = some e →
    ((∃ left, c.stage = .posting left) ∨ c.stage = .failed) → s.state.pending = some e
  notRejected : ∀ c ∈ calls, c.stage ≠ .rejected

section Begin

variable {valid} {s : Attempt} {kind : Kind} {payload : String} {immediate : Bool}
  {repeats : Option Nat} {calls : List Call} {extra : Option Envelope} {e : Envelope}

theorem Sound.markedNone (h : Sound valid s) : Marked valid s s.calls none none where
  content := h.content
  acknowledged := h.acknowledged
  repeated := h.repeated
  heads := by
    rw [Option.toList_none, append_nil]
    exact h.heads
  roots := h.roots
  pending e he := .inr (h.pending e he)
  current := h.current
  notRejected := h.notRejected

variable {c : Call}

theorem Sound.markedSome (h : Sound valid s) {j : Nat} (hj : s.calls[j]? = some c)
    (hlive : c.repeated = false) (hfailed : c.stage = .failed) :
    Marked valid s (s.calls.set j { c with repeated := true }) (some j) c.envelope := by
  have hc := mem_of_getElem? hj
  refine ⟨?_, ?_, ?_, ?_, ?_, ?_, ?_, ?_⟩
  · exact forall_mem_set h.content (h.content c hc)
  · exact forall_mem_set h.acknowledged (h.acknowledged c hc)
  · exact forall_mem_set h.repeated fun _ => hfailed
  · have hheads : ((s.calls.set j { c with repeated := true }).filterMap headOf ++
        (headOf c).toList).Perm (s.calls.filterMap headOf) := filterMap_set_perm hj rfl
    rw [headOf, hlive] at hheads
    exact hheads.trans h.heads
  · have hroots : (s.calls.set j { c with repeated := true }).countP (·.repeats.isNone) =
        s.calls.countP (·.repeats.isNone) := countP_set_of_eq hj rfl
    have hlives : (s.calls.set j { c with repeated := true }).countP (fun d => !d.repeated) + 1 =
        s.calls.countP fun d => !d.repeated := countP_set_succ hj (by simp [hlive]) rfl
    exact hroots.trans (h.roots.trans hlives.symm)
  · intro e he
    obtain ⟨d, hd, hhead, hwaits⟩ := h.pending e he
    obtain ⟨i, hi⟩ := mem_iff_getElem?.mp hd
    by_cases hij : j = i
    · subst hij
      obtain rfl := Option.mem_unique hj hi
      exact .inl (headOf_eq_some.mp hhead).2
    · refine .inr ⟨d, mem_of_getElem? (i := i) ?_, hhead, hwaits⟩
      rw [getElem?_set_ne hij, hi]
  · exact forall_mem_set h.current nofun
  · exact forall_mem_set h.notRejected (h.notRejected c hc)

theorem forall_mem_concat {α : Type} {p : α → Prop} {l : List α} {x : α} (h : ∀ c ∈ l, p c)
    (hx : p x) : ∀ c ∈ l ++ [x], p c :=
  forall_mem_append.mpr ⟨h, forall_mem_singleton.mpr hx⟩

theorem Marked.roots_concat (hm : Marked valid s calls repeats extra)
    (hrepeats : c.repeats = repeats) (hlive : c.repeated = false) :
    (calls ++ [c]).countP (·.repeats.isNone) = (calls ++ [c]).countP fun d => !d.repeated := by
  have hroots := hm.roots
  cases repeats with
  | none | some j => simpa [hrepeats, hlive] using hroots

theorem Marked.blocked (h : Sound valid s) (hm : Marked valid s calls repeats none) :
    Sound valid { s with
      calls := calls ++ [⟨kind, payload, immediate, repeats, none, .failed, false⟩] } := by
  refine ⟨h.sequences, h.arrived, h.rowsNodup, ?_, ?_, ?_, ?_, ?_, ?_, ?_, ?_⟩
  · refine forall_mem_concat hm.content ?_
    exact nofun
  · refine forall_mem_concat hm.acknowledged ?_
    exact fun hack => by simp at hack
  · refine forall_mem_concat hm.repeated ?_
    exact nofun
  · have hheads := hm.heads
    rw [Option.toList_none, append_nil] at hheads
    simpa [headOf] using hheads
  · exact hm.roots_concat rfl rfl
  · intro e he
    rcases hm.pending e he with hextra | ⟨c, hc, hrest⟩
    · cases hextra
    · exact ⟨c, mem_append_left _ hc, hrest⟩
  · refine forall_mem_concat hm.current ?_
    exact nofun
  · refine forall_mem_concat hm.notRejected ?_
    exact nofun

theorem Marked.fresh (h : Sound valid s) (hm : Marked valid s calls repeats none)
    (hnone : s.state.pending = none)
    (he : e = ⟨s.state.nextSequence + 1, kind, immediate, payload⟩) : Sound valid
      { s with
        state := ⟨e.sequence, some e⟩
        calls := calls ++ [⟨kind, payload, immediate, repeats, some e, .posting (maxAttempts - 1), false⟩]
        sent := s.sent ++ [e] } := by
  subst he
  refine ⟨?_, ?_, h.rowsNodup, ?_, ?_, ?_, ?_, ?_, ?_, ?_, ?_⟩
  · show (s.sent ++ [(⟨s.state.nextSequence + 1, kind, immediate, payload⟩ : Envelope)]).map
      (·.sequence) = List.range' 1 (s.state.nextSequence + 1)
    rw [map_append, h.sequences, List.range'_1_concat, Nat.add_comm 1]
    rfl
  · exact fun d hd => mem_append_left _ (h.arrived d hd)
  · refine forall_mem_concat hm.content ?_
    intro d hd
    cases hd
    exact ⟨rfl, rfl, rfl⟩
  · refine forall_mem_concat hm.acknowledged ?_
    exact fun hack => by simp at hack
  · refine forall_mem_concat hm.repeated ?_
    exact nofun
  · have hheads := hm.heads
    rw [Option.toList_none, append_nil] at hheads
    rw [filterMap_append]
    exact hheads.append_right _
  · exact hm.roots_concat rfl rfl
  · intro d hd
    exact ⟨_, mem_append_right _ (mem_singleton_self _), hd, .inl ⟨_, rfl⟩⟩
  · intro c hc
    rcases mem_append.mp hc with hc | hc
    · intro hno d hd hwaits
      exact absurd (hm.current c hc hno d hd hwaits) (by rw [hnone]; exact nofun)
    · obtain rfl := mem_singleton.mp hc
      exact fun _ d hd _ => hd
  · refine forall_mem_concat hm.notRejected ?_
    exact nofun

theorem Marked.again (h : Sound valid s) (hm : Marked valid s calls repeats (some e))
    (hpending : s.state.pending = some e)
    (hcontent : e.kind = kind ∧ e.payload = payload ∧ e.immediate = immediate) : Sound valid
      { s with
        calls := calls ++
          [⟨kind, payload, immediate, repeats, some e, .posting (maxAttempts - 1), false⟩] } := by
  refine ⟨h.sequences, h.arrived, h.rowsNodup, ?_, ?_, ?_, ?_, ?_, ?_, ?_, ?_⟩
  · refine forall_mem_concat hm.content ?_
    intro d hd
    cases hd
    exact hcontent
  · refine forall_mem_concat hm.acknowledged ?_
    exact fun hack => by simp at hack
  · refine forall_mem_concat hm.repeated ?_
    exact nofun
  · rw [filterMap_append]
    exact hm.heads
  · exact hm.roots_concat rfl rfl
  · intro d hd
    obtain rfl := Option.mem_unique hpending hd
    exact ⟨_, mem_append_right _ (mem_singleton_self _), rfl, .inl ⟨_, rfl⟩⟩
  · refine forall_mem_concat hm.current ?_
    exact fun _ d hd _ => hpending.trans hd
  · refine forall_mem_concat hm.notRejected ?_
    exact nofun

theorem Marked.begun (h : Sound valid s) (hm : Marked valid s calls repeats none)
    (hfree : s.state.pending = none ∨ s.state.envelopeFor kind payload immediate = none) :
    Sound valid (s.begun kind payload immediate repeats calls) := by
  rw [Attempt.begun]
  rcases hfree with hnone | hblocked
  · have hnew : s.state.envelopeFor kind payload immediate =
        some ⟨s.state.nextSequence + 1, kind, immediate, payload⟩ := by
      rw [ResultSubmissionState.envelopeFor, hnone]
    rw [hnew]
    simp only [hnone, if_true]
    exact hm.fresh h hnone rfl
  · rw [hblocked]
    exact hm.blocked h

theorem mayRepeat_iff : mayRepeat kind payload immediate c ↔
    (c.stage = .refused ∨ c.stage = .failed ∨ c.stage = .rejected) ∧ c.repeated = false ∧
      c.kind = kind ∧ c.payload = payload ∧ c.immediate = immediate := by
  simp [mayRepeat, and_assoc, or_assoc]

theorem Sound.begin (h : Sound valid s) (hcareful : Careful s (.call kind payload immediate repeats)) :
    Sound valid (s.begin kind payload immediate repeats) := by
  rw [Attempt.begin]
  cases repeats with
  | none => exact h.markedNone.begun h hcareful
  | some j =>
    rw [mark]
    cases hj : s.calls[j]? with
    | none => exact h
    | some c =>
      dsimp only
      by_cases hmay : mayRepeat kind payload immediate c
      · rw [if_pos hmay]
        obtain ⟨hfailed, hfree⟩ := hcareful c hj hmay
        obtain ⟨-, hlive, rfl, rfl, rfl⟩ := mayRepeat_iff.mp hmay
        have hm := h.markedSome hj hlive hfailed
        have hc := mem_of_getElem? hj
        cases he : c.envelope with
        | none => exact (he ▸ hm).begun h (hfree he)
        | some e =>
          -- what was sent for the call is pending still, and it is taken up
          have hpending := h.current c hc hlive e he (.inr hfailed)
          have hcontent := h.content c hc e he
          have hsame : s.state.envelopeFor c.kind c.payload c.immediate = some e := by
            rw [ResultSubmissionState.envelopeFor, hpending]
            simp [hcontent]
          have hno : s.state.pending ≠ none := by simp [hpending]
          dsimp only
          rw [Attempt.begun, hsame]
          simp only [hno, if_false]
          exact (he ▸ hm).again h hpending hcontent
      · rw [if_neg hmay]
        exact h

/-- A call that is made with care keeps the pending keys apart. -/
theorem Sound.step {isInternalResultControl : String → Bool} {event : SubmissionEvent}
    (h : Sound valid s) (hcareful : Careful s event) :
    Sound valid (s.step isInternalResultControl valid event) := by
  cases event with
  | call kind payload immediate repeats =>
    rw [Attempt.step]
    split
    · exact h
    · exact h.begin hcareful
  | arrive e => exact h.arrive e
  | answer i a => exact h.answer hcareful

theorem sound_start : Sound valid start := by
  refine ⟨rfl, ?_, nodup_nil, ?_, ?_, ?_, List.Perm.nil, rfl, ?_, ?_, ?_⟩
  all_goals simp [start]

end Begin

/-- In a run of calls that are made with care each resolved call has a row of its own. -/
theorem careful_faithful (events : List SubmissionEvent)
    (h : Meets (step isInternalResultControl valid) Careful start events) :
    Always (step isInternalResultControl valid) (Faithful valid) start events :=
  (h.always sound_start fun _ _ hs hc => hs.step hc).mono fun _ hs => hs.faithful

/-- A row whose reply is lost is submitted again by its caller, and then a summary. -/
def carefulRun : List SubmissionEvent :=
  [.call .batch "1" false none, .arrive ⟨1, .batch, false, "1"⟩, .answer 0 .network,
    .answer 0 .aborted, .call .batch "1" false (some 0), .answer 1 .acknowledged,
    .call .summary "2" true none, .arrive ⟨2, .summary, true, "2"⟩, .answer 2 .acknowledged]

theorem carefulRun_faithful :
    Always (step (fun _ => false) fun _ => true) (Faithful fun _ => true) start carefulRun := by
  refine careful_faithful _ _ carefulRun ⟨.inl rfl, trivial, trivial, trivial, ?_, trivial, .inl rfl,
    trivial, trivial, trivial⟩
  intro c hc _
  cases hc
  exact ⟨rfl, nofun⟩

/-- Two equal rows, the second submitted while the first is pending: both calls are resolved by the
row of the first. -/
theorem equalRows_shared : ¬Always (step (fun _ => false) fun _ => true) (Faithful fun _ => true) start
      [.call .batch "1" false none, .call .batch "1" false none, .arrive ⟨1, .batch, false, "1"⟩,
        .answer 0 .acknowledged, .answer 1 .acknowledged] := by
  intro h
  have hfaithful := h.run
  have hsame := hfaithful.own 0 1 _ _ rfl rfl rfl rfl rfl
  cases hsame

end Attempt

end Worker

end Aegis
