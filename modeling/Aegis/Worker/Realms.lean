import Aegis.Recording.Pointer
import Aegis.Store.Execution
import Aegis.Worker.HttpTransport

/-!
# Worker.Realms

The result submissions of an attempt in a userscript, of `scriptcat-engine/transport.ts`, over the
realms that full-page navigations start, of `scriptcat-engine/userscript-entry.ts`.

A realm is what its run submits, in order: rows, and the summary when the run comes to its end
there. Repetitions of a request send the same submission.
-/

namespace Aegis

open List

namespace Worker

namespace Userscript

def kindText : Kind → String
  | .batch => "batch"
  | .summary => "summary"

structure Submission where
  attemptId : String
  idempotencyKey : String
  sequence : Nat
  kind : Kind
  immediate : Bool
  payload : String

structure Transport where
  attemptId : String
  nextSequence : Nat

def createTransport (attemptId : String) : Transport := ⟨attemptId, 0⟩

def idempotencyKey (attemptId : String) (sequence : Nat) (kind : Kind) : String :=
  attemptId ++ ":" ++ toString sequence ++ ":" ++ kindText kind

/-- The submission of `sendVersionedResult`, and the transport after it. -/
def Transport.submit (t : Transport) (kind : Kind) (payload : String) (immediate : Bool) :
    Submission × Transport :=
  let sequence := t.nextSequence + 1
  (⟨t.attemptId, idempotencyKey t.attemptId sequence kind, sequence, kind, immediate, payload⟩,
    { t with nextSequence := sequence })

/-- What a realm submits: payloads of `sendResult`, and that of `sendFinalSummary`. -/
structure Realm where
  results : List (String × Bool)
  summary : Option String

section

-- `isInternalResultControl` is of the text of a payload.
variable (isInternalResultControl : String → Bool)

/-- The calls of `sendResult`: control markers are not submitted. -/
def Transport.sendResults (t : Transport) : List (String × Bool) → List Submission × Transport
  | [] => ([], t)
  | (payload, immediate) :: rest =>
    if isInternalResultControl payload then t.sendResults rest
    else
      let (submission, t) := t.submit .batch payload immediate
      let (submissions, t) := t.sendResults rest
      (submission :: submissions, t)

/-- What a realm submits with the transport that `boot` creates for it. -/
def Realm.submissions (attemptId : String) (realm : Realm) : List Submission :=
  let (submissions, t) :=
    (createTransport attemptId).sendResults isInternalResultControl realm.results
  match realm.summary with
  | none => submissions
  | some payload => submissions ++ [(t.submit .summary payload true).1]

def submissions (attemptId : String) (realms : List Realm) : List Submission :=
  realms.flatMap (Realm.submissions isInternalResultControl attemptId)

def Realm.contents (realm : Realm) : List (Kind × String) :=
  ((realm.results.filter fun result => !isInternalResultControl result.1).map
    fun result => (.batch, result.1)) ++ realm.summary.toList.map fun payload => (.summary, payload)

/-- No two realms submit different things at one place of their orders. -/
def Agree (realms : List Realm) : Prop :=
  ∀ left ∈ realms, ∀ right ∈ realms, ∀ (i : Nat) (x y : Kind × String),
    (left.contents isInternalResultControl)[i]? = some x →
      (right.contents isInternalResultControl)[i]? = some y → x = y

end

/-- A key, and a sequence number, stands for one kind and one payload. -/
def NamesOnePayload (submissions : List Submission) : Prop :=
  ∀ a ∈ submissions, ∀ b ∈ submissions,
    a.idempotencyKey = b.idempotencyKey ∨ a.sequence = b.sequence → a.kind = b.kind ∧ a.payload = b.payload

theorem append_colon_inj {xs ys us vs : List Char} (hxs : ':' ∉ xs) (hys : ':' ∉ ys)
    (h : xs ++ ':' :: us = ys ++ ':' :: vs) : xs = ys ∧ us = vs := by
  induction xs generalizing ys with
  | nil =>
    cases ys with
    | nil => exact ⟨rfl, (List.cons.inj h).2⟩
    | cons y ys =>
      have hy : ':' = y := (List.cons.inj h).1
      exact absurd (hy ▸ mem_cons_self) hys
  | cons x xs ih =>
    cases ys with
    | nil =>
      have hx : x = ':' := (List.cons.inj h).1
      exact absurd (hx ▸ mem_cons_self) hxs
    | cons y ys =>
      obtain ⟨rfl, htail⟩ := List.cons.inj h
      obtain ⟨rfl, hrest⟩ := ih (fun hmem => hxs (mem_cons_of_mem _ hmem))
        (fun hmem => hys (mem_cons_of_mem _ hmem)) htail
      exact ⟨rfl, hrest⟩

theorem colon_not_mem_toString (n : Nat) : ':' ∉ (toString n).toList := by
  intro hmem
  rw [Nat.toString_eq_repr, Nat.toList_repr] at hmem
  have hdigit := Nat.isDigit_of_mem_toDigits (by omega) (by omega) hmem
  revert hdigit
  decide

theorem idempotencyKey_inj {attemptId : String} {m n : Nat} {j k : Kind}
    (h : idempotencyKey attemptId m j = idempotencyKey attemptId n k) : m = n ∧ j = k := by
  have hlist := congrArg String.toList h
  simp only [idempotencyKey, String.toList_append, append_assoc] at hlist
  have hrest := append_cancel_left (append_cancel_left hlist)
  obtain ⟨hsequence, hkind⟩ := append_colon_inj (colon_not_mem_toString m)
    (colon_not_mem_toString n) hrest
  refine ⟨Pointer.toString_injective (String.toList_inj.mp hsequence), ?_⟩
  cases j with
  | batch =>
    cases k with
    | batch => rfl
    | summary => exact absurd hkind (by decide)
  | summary =>
    cases k with
    | batch => exact absurd hkind (by decide)
    | summary => rfl

section

variable {isInternalResultControl : String → Bool} {attemptId : String} {realm : Realm}
  {realms : List Realm}

/-- The submission of a content that is the `n`th of its realm. -/
def Numbers (attemptId : String) (n : Nat) (content : Kind × String) (a : Submission) : Prop :=
  a.idempotencyKey = idempotencyKey attemptId (n + 1) content.1 ∧ a.sequence = n + 1 ∧
    a.kind = content.1 ∧ a.payload = content.2

theorem sendResults_spec (results : List (String × Bool)) (t : Transport) :
    (t.sendResults isInternalResultControl results).2 = ⟨t.attemptId, t.nextSequence +
          (results.filter fun result => !isInternalResultControl result.1).length⟩ ∧
      List.Forall₂ (fun (content : (Kind × String) × Nat) a =>
          Numbers t.attemptId content.2 content.1 a)
        (((results.filter fun result => !isInternalResultControl result.1).map
          fun result => (Kind.batch, result.1)).zipIdx t.nextSequence)
        (t.sendResults isInternalResultControl results).1 := by
  induction results generalizing t with
  | nil => exact ⟨rfl, .nil⟩
  | cons result rest ih =>
    obtain ⟨payload, immediate⟩ := result
    rw [Transport.sendResults, filter_cons]
    by_cases hcontrol : isInternalResultControl payload
    · rw [if_pos hcontrol, if_neg (by simp [hcontrol])]
      exact ih t
    · rw [if_neg hcontrol, if_pos (by simp [hcontrol])]
      obtain ⟨hnext, hnumbers⟩ := ih (t.submit .batch payload immediate).2
      refine ⟨?_, .cons ⟨rfl, rfl, rfl, rfl⟩ hnumbers⟩
      rw [hnext, length_cons]
      show Transport.mk _ _ = _
      rw [Transport.mk.injEq]
      exact ⟨rfl, by simp only [Transport.submit]; omega⟩

theorem Realm.submissions_spec : List.Forall₂ (fun (content : (Kind × String) × Nat) a =>
      Numbers attemptId content.2 content.1 a)
    (realm.contents isInternalResultControl).zipIdx
    (realm.submissions isInternalResultControl attemptId) := by
  obtain ⟨hnext, hnumbers⟩ :=
    @sendResults_spec isInternalResultControl realm.results (createTransport attemptId)
  rw [Realm.contents, Realm.submissions, zipIdx_append]
  cases realm.summary with
  | none => simpa [createTransport] using hnumbers
  | some payload =>
    refine rel_append hnumbers ?_
    refine .cons ?_ .nil
    dsimp only
    rw [hnext]
    simp [Numbers, Transport.submit, createTransport]

theorem rel_of_mem_right {α β : Type} {R : α → β → Prop} {xs : List α} {ys : List β}
    (h : List.Forall₂ R xs ys) {y : β} (hy : y ∈ ys) : ∃ x ∈ xs, R x y := by
  induction h with
  | nil => cases hy
  | @cons x y' xs ys hxy _ ih =>
    rcases mem_cons.mp hy with rfl | hy
    · exact ⟨x, mem_cons_self, hxy⟩
    · obtain ⟨x', hx', hr⟩ := ih hy
      exact ⟨x', mem_cons_of_mem _ hx', hr⟩

theorem rel_of_mem_left {α β : Type} {R : α → β → Prop} {xs : List α} {ys : List β}
    (h : List.Forall₂ R xs ys) {x : α} (hx : x ∈ xs) : ∃ y ∈ ys, R x y := by
  obtain ⟨y, hy, hr⟩ := rel_of_mem_right h.flip hx
  exact ⟨y, hy, hr⟩

theorem mem_submissions {a : Submission} (h : a ∈ submissions isInternalResultControl attemptId realms) :
    ∃ realm ∈ realms, ∃ i content, (realm.contents isInternalResultControl)[i]? = some content ∧
      Numbers attemptId i content a := by
  obtain ⟨realm, hrealm, ha⟩ := mem_flatMap.mp h
  obtain ⟨⟨content, i⟩, hmem, hnumbers⟩ := rel_of_mem_right Realm.submissions_spec ha
  exact ⟨realm, hrealm, i, content, mem_zipIdx_iff_getElem?.mp hmem, hnumbers⟩

theorem exists_submission (attemptId : String) (hrealm : realm ∈ realms) {i : Nat} {content : Kind × String}
    (h : (realm.contents isInternalResultControl)[i]? = some content) :
    ∃ a ∈ submissions isInternalResultControl attemptId realms, Numbers attemptId i content a := by
  obtain ⟨a, ha, hnumbers⟩ :=
    rel_of_mem_left (@Realm.submissions_spec isInternalResultControl attemptId realm)
      (mem_zipIdx_iff_getElem? (x := (content, i)) |>.mpr h)
  exact ⟨a, mem_flatMap.mpr ⟨realm, hrealm, ha⟩, hnumbers⟩

/-- A key names one payload exactly when the realms agree. -/
theorem namesOnePayload_iff : NamesOnePayload (submissions isInternalResultControl attemptId realms) ↔
      Agree isInternalResultControl realms := by
  constructor
  · intro h left hleft right hright i x y hx hy
    obtain ⟨a, ha, hka, hsa, hkinda, hpaya⟩ := exists_submission attemptId hleft hx
    obtain ⟨b, hb, hkb, hsb, hkindb, hpayb⟩ := exists_submission attemptId hright hy
    obtain ⟨hkind, hpayload⟩ := h a ha b hb (.inr (hsa.trans hsb.symm))
    exact Prod.ext (hkinda.symm.trans (hkind.trans hkindb))
      (hpaya.symm.trans (hpayload.trans hpayb))
  · intro h a ha b hb hsame
    obtain ⟨left, hleft, i, x, hx, hka, hsa, hkinda, hpaya⟩ := mem_submissions ha
    obtain ⟨right, hright, j, y, hy, hkb, hsb, hkindb, hpayb⟩ := mem_submissions hb
    have hij : i = j := by
      rcases hsame with hkey | hsequence
      · rw [hka, hkb] at hkey
        exact Nat.succ.inj (idempotencyKey_inj hkey).1
      · rw [hsa, hsb] at hsequence
        exact Nat.succ.inj hsequence
    subst hij
    obtain rfl := h left hleft right hright i x y hx hy
    exact ⟨hkinda.trans hkindb.symm, hpaya.trans hpayb.symm⟩

end

def resultKind : Kind → ResultKind
  | .batch => .batch
  | .summary => .summary

/-- The row that the submission makes. -/
structure RowOf (sha256 : String → String) (a : Submission) (r : Result) : Prop where
  attempt : r.attemptID = a.attemptId
  key : r.idempotencyKey = a.idempotencyKey
  sequence : r.sequence = a.sequence
  kind : r.kind = resultKind a.kind
  hash : r.payloadHash = sha256 a.payload

/-- `InsertResultIdempotent` finds nothing that the row conflicts with: neither a row of its key with
other content, nor one that a unique index keeps apart. -/
def Accepted (s : Store) (r : Result) : Prop :=
  s.lookupResult r ≠ .returned (.error .resultConflict) ∧
    (s.lookupResult r = .check → ∀ q ∈ s.results.rows, Store.resultClash r q = false)

section

variable {isInternalResultControl : String → Bool} {attemptId : String} {realm : Realm}
  {realms : List Realm} {sha256 : String → String} {s : Store} {r q : Result} {a b : Submission}

theorem kind_of_batch {kind : Kind} (h : resultKind kind = .batch) : kind = .batch := by
  cases kind with
  | batch => rfl
  | summary => cases h

theorem kind_of_summary {kind : Kind} (h : resultKind kind = .summary) : kind = .summary := by
  cases kind with
  | batch => cases h
  | summary => rfl

theorem place_of_summary {i : Nat} {payload : String}
    (h : (realm.contents isInternalResultControl)[i]? = some (.summary, payload)) :
    i = (realm.results.filter fun result => !isInternalResultControl result.1).length := by
  rw [Realm.contents, getElem?_append] at h
  split at h
  · rw [getElem?_map] at h
    cases hi : (realm.results.filter fun result => !isInternalResultControl result.1)[i]? with
    | none | some result => rw [hi] at h; cases h
  · rename_i hi
    rw [length_map] at hi h
    cases hsummary : realm.summary with
    | none => rw [hsummary] at h; cases h
    | some payload =>
      rw [hsummary] at h
      have hlt := (List.getElem?_eq_some_iff.mp h).1
      simp at hlt
      omega

theorem Agree.summaries (hagree : Agree isInternalResultControl realms) {left right : Realm}
    (hleft : left ∈ realms) (hright : right ∈ realms) {i j : Nat} {x y : String}
    (hx : (left.contents isInternalResultControl)[i]? = some (.summary, x))
    (hy : (right.contents isInternalResultControl)[j]? = some (.summary, y)) : i ≤ j := by
  by_contra hlt
  have hshort : j < (left.contents isInternalResultControl).length :=
    lt_trans (not_le.mp hlt) (List.getElem?_eq_some_iff.mp hx).1
  have hj := getElem?_eq_getElem hshort
  have hsame := hagree left hleft right hright j _ _ hj hy
  rw [hsame] at hj
  have hi := place_of_summary hx
  have hi' := place_of_summary hj
  omega

theorem Agree.key_of_summary (hagree : Agree isInternalResultControl realms)
    (ha : a ∈ submissions isInternalResultControl attemptId realms)
    (hb : b ∈ submissions isInternalResultControl attemptId realms) (hka : a.kind = .summary)
    (hkb : b.kind = .summary) : a.idempotencyKey = b.idempotencyKey := by
  obtain ⟨left, hleft, i, ⟨kind, x⟩, hx, hkeya, -, hkinda, -⟩ := mem_submissions ha
  obtain ⟨right, hright, j, ⟨kind', y⟩, hy, hkeyb, -, hkindb, -⟩ := mem_submissions hb
  obtain rfl : kind = .summary := hkinda.symm.trans hka
  obtain rfl : kind' = .summary := hkindb.symm.trans hkb
  have hij : i = j := le_antisymm (hagree.summaries hleft hright hx hy)
    (hagree.summaries hright hleft hy hx)
  rw [hkeya, hkeyb, hij]

theorem key_iff (ha : a ∈ submissions isInternalResultControl attemptId realms)
    (hb : b ∈ submissions isInternalResultControl attemptId realms) :
    a.idempotencyKey = b.idempotencyKey ↔ a.sequence = b.sequence ∧ a.kind = b.kind := by
  obtain ⟨left, -, i, x, -, hkeya, hsa, hkinda, -⟩ := mem_submissions ha
  obtain ⟨right, -, j, y, -, hkeyb, hsb, hkindb, -⟩ := mem_submissions hb
  rw [hkeya, hkeyb, hsa, hsb, hkinda, hkindb]
  constructor
  · exact idempotencyKey_inj
  · rintro ⟨hsequence, hkind⟩
    rw [hsequence, hkind]

/-- The server accepts what agreeing realms submit. -/
theorem accepted_of_agree (hagree : Agree isInternalResultControl realms)
    (hrows : ∀ q ∈ s.results.rows, q.attemptID = attemptId →
      ∃ b ∈ submissions isInternalResultControl attemptId realms, RowOf sha256 b q)
    (ha : a ∈ submissions isInternalResultControl attemptId realms) (hr : RowOf sha256 a r)
    (hattempt : r.attemptID = attemptId) : Accepted s r := by
  have hnames := (@namesOnePayload_iff isInternalResultControl attemptId realms).mpr hagree
  constructor
  · intro hlookup
    rw [Store.lookupResult] at hlookup
    split at hlookup
    · rename_i q hq
      have hsame := find?_some hq
      simp only [Result.sameKey, Bool.and_eq_true, beq_iff_eq] at hsame
      obtain ⟨b, hb, hrow⟩ := hrows q (mem_of_find?_eq_some hq) (hsame.1.2 ▸ hattempt)
      have hkey : b.idempotencyKey = a.idempotencyKey :=
        hrow.key.symm.trans (hsame.2.symm.trans hr.key)
      obtain ⟨hkind, hpayload⟩ := hnames b hb a ha (.inl hkey)
      obtain ⟨hsequence, -⟩ := (key_iff hb ha).mp hkey
      have hcontent : q.sameContent r := by
        simp only [Result.sameContent, Bool.and_eq_true, beq_iff_eq]
        refine ⟨⟨?_, ?_⟩, ?_⟩
        · rw [hrow.hash, hr.hash, hpayload]
        · rw [hrow.sequence, hr.sequence, hsequence]
        · rw [hrow.kind, hr.kind, hkind]
      rw [if_pos hcontent] at hlookup
      cases hlookup
    · cases hlookup
  · intro hlookup q hq
    have hfree : r.sameKey q = false := by
      rw [Store.lookupResult] at hlookup
      split at hlookup
      · split at hlookup <;> cases hlookup
      · rename_i hnone
        exact Bool.not_eq_true _ ▸ List.find?_eq_none.mp hnone q hq
    rw [← Bool.not_eq_true]
    intro hclash
    simp only [Store.resultClash, Bool.and_eq_true, Bool.or_eq_true, beq_iff_eq] at hclash
    obtain ⟨⟨⟨hworkspace, htask⟩, hsameAttempt⟩, hclash⟩ := hclash
    obtain ⟨b, hb, hrow⟩ := hrows q hq (hsameAttempt ▸ hattempt)
    have hkey : r.idempotencyKey ≠ q.idempotencyKey := by
      intro hkey
      simp [Result.sameKey, hworkspace, htask, hsameAttempt, hkey] at hfree
    rw [hr.key, hrow.key] at hkey
    rcases hclash with (⟨-, hsame⟩ | ⟨⟨⟨⟨hbatch, hbatch'⟩, -⟩, -⟩, hsequence⟩) |
      ⟨hsummary, hsummary'⟩
    · rw [hr.key, hrow.key] at hsame
      exact hkey hsame
    · rw [hr.sequence, hrow.sequence] at hsequence
      rw [hr.kind] at hbatch
      rw [hrow.kind] at hbatch'
      refine hkey ((key_iff ha hb).mpr ⟨Int.ofNat.inj hsequence, ?_⟩)
      rw [kind_of_batch hbatch, kind_of_batch hbatch']
    · rw [hr.kind] at hsummary
      rw [hrow.kind] at hsummary'
      exact hkey (hagree.key_of_summary ha hb (kind_of_summary hsummary) (kind_of_summary hsummary'))

end

/-- A key or a sequence number of an attempt names one kind and one payload exactly when no two
realms submit different things at one place of their orders; and then a server whose rows of the
attempt are rows of its submissions answers none of them with a conflict. -/
theorem resultKeys_iff (isInternalResultControl : String → Bool) (sha256 : String → String)
    (attemptId : String) (realms : List Realm) :
    (NamesOnePayload (submissions isInternalResultControl attemptId realms) ↔
        Agree isInternalResultControl realms) ∧
      (Agree isInternalResultControl realms → ∀ s : Store, (∀ q ∈ s.results.rows, q.attemptID = attemptId →
          ∃ b ∈ submissions isInternalResultControl attemptId realms, RowOf sha256 b q) →
        ∀ a ∈ submissions isInternalResultControl attemptId realms, ∀ r,
          RowOf sha256 a r → r.attemptID = attemptId → Accepted s r) :=
  ⟨namesOnePayload_iff, fun hagree _ hrows _ ha _ hr hattempt =>
    accepted_of_agree hagree hrows ha hr hattempt⟩

def twoPages : List Realm := [⟨[("[1]", true)], none⟩, ⟨[("[2]", true)], some "null"⟩]

theorem twoPages_conflict : ¬NamesOnePayload (submissions (fun _ => false) "att_1" twoPages) := by
  rw [namesOnePayload_iff]
  intro h
  have hsame := h ⟨[("[1]", true)], none⟩ mem_cons_self
    ⟨[("[2]", true)], some "null"⟩ (mem_cons_of_mem _ mem_cons_self) 0 (.batch, "[1]")
    (.batch, "[2]") rfl rfl
  revert hsame
  decide

end Userscript

end Worker

end Aegis
