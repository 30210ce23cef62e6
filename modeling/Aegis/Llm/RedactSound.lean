import Aegis.Llm.Redact

/-!
# Llm.RedactSound

Where the text before JSON leaves no bracket open, what stands under the credential members of the
JSON makes no difference to the redacted text.
-/

namespace Aegis

open List Option Json

namespace Redact

open JsonText (skipBlank)
open Sanitize (contains)

/-! ## Scans -/

def after (s : Scan) (t : List Char) : Scan := t.foldl next s

def Stays : Scan → List Char → Scan → Prop
  | s, [], s' => s = s'
  | s, c :: t, s' => next s c ≠ .idle ∧ Stays (next s c) t s'

/-- Within brackets the scanner comes back to where it was. -/
def Passes (t : List Char) : Prop :=
  ∀ stack, stack ≠ [] → Stays (.inside stack .outside) t (.inside stack .outside)

def Quoted (t : List Char) : Prop :=
  ∀ stack, Stays (.inside stack .inString) t (.inside stack .inString)

variable {s s' s'' : Scan} {t t' : List Char} {c left right : Char} {stack : List Char}

theorem Stays.append (h : Stays s t s') (h' : Stays s' t' s'') : Stays s (t ++ t') s'' := by
  induction t generalizing s with
  | nil =>
    obtain rfl := h
    exact h'
  | cons c t ih => exact ⟨h.1, ih h.2⟩

theorem Stays.after_eq (h : Stays s t s') : after s t = s' := by
  induction t generalizing s with
  | nil => exact h
  | cons c t ih => exact ih h.2

theorem Stays.part (h : Stays s (t ++ t') s') (hs : s ≠ .idle) : after s t ≠ .idle := by
  induction t generalizing s with
  | nil => exact hs
  | cons c t ih => exact ih h.2 h.1

theorem after_append : after s (t ++ t') = after (after s t) t' := foldl_append ..

theorem Passes.append (h : Passes t) (h' : Passes t') : Passes (t ++ t') :=
  fun stack hstack => (h stack hstack).append (h' stack hstack)

def isPlain (c : Char) : Bool := !(c == '"' || opens c || c == '\x7d' || c == ']')

theorem next_plain (h : isPlain c) : next (.inside stack .outside) c = .inside stack .outside := by
  simp only [isPlain, Bool.not_eq_true', Bool.or_eq_false_iff, beq_eq_false_iff_ne] at h
  obtain ⟨⟨⟨hquote, hopens⟩, hbrace⟩, hbracket⟩ := h
  cases stack <;> simp [next, hquote, hopens, hbrace, hbracket]

theorem passes_plain (h : ∀ c ∈ t, isPlain c) : Passes t := by
  intro stack hstack
  induction t with
  | nil => rfl
  | cons c t ih =>
    obtain ⟨hc, ht⟩ := forall_mem_cons.mp h
    rw [Stays, next_plain hc]
    exact ⟨nofun, ih ht⟩

theorem passes_char (h : isPlain c) : Passes [c] :=
  passes_plain (forall_mem_singleton.mpr h)

theorem Quoted.append (h : Quoted t) (h' : Quoted t') : Quoted (t ++ t') :=
  fun stack => (h stack).append (h' stack)

theorem quoted_char (hquote : c ≠ '"') (hslash : c ≠ '\\') : Quoted [c] := by
  intro stack
  have hnext : next (.inside stack .inString) c = .inside stack .inString := by
    rw [next, if_neg hslash, if_neg hquote]
  rw [Stays, hnext]
  exact ⟨nofun, rfl⟩

theorem quoted_escape (c : Char) : Quoted ['\\', c] := fun _ => ⟨nofun, nofun, rfl⟩

theorem passes_string (h : Quoted t) : Passes ('"' :: t ++ ['"']) := by
  intro stack hstack
  have hend : Stays (.inside stack .inString) ['"'] (.inside stack .outside) := ⟨nofun, rfl⟩
  exact ⟨nofun, (h stack).append hend⟩

theorem opens_of_pairs (h : pairs left right) : opens left = true := by
  rw [pairs] at h
  simp only [Bool.or_eq_true, Bool.and_eq_true, decide_eq_true_eq] at h
  rcases h with ⟨rfl, -⟩ | ⟨rfl, -⟩ <;> rfl

theorem next_open (h : opens left) :
    next (.inside stack .outside) left = .inside (left :: stack) .outside := by
  have hquote : left ≠ '"' := by
    rintro rfl
    cases h
  cases stack <;> simp [next, hquote, h]

theorem next_close (h : pairs left right) : next (.inside (left :: stack) .outside) right =
      if stack.isEmpty then .idle else .inside stack .outside := by
  have hkind : right = '\x7d' ∨ right = ']' := by
    rw [pairs] at h
    simp only [Bool.or_eq_true, Bool.and_eq_true, decide_eq_true_eq] at h
    exact h.imp And.right And.right
  have hopens : opens right = false := by
    rcases hkind with rfl | rfl <;> rfl
  have hquote : right ≠ '"' := by
    rcases hkind with rfl | rfl <;> decide
  rw [next, if_neg hquote, if_neg (by simp [hopens]), if_pos (by simpa using hkind)]
  simp [h]

theorem passes_brackets (h : Passes t) (hpair : pairs left right) :
    Passes (left :: t ++ [right]) := by
  intro stack hstack
  have hclose : Stays (.inside (left :: stack) .outside) [right] (.inside stack .outside) := by
    have hnext : next (.inside (left :: stack) .outside) right =
        if stack.isEmpty then .idle else .inside stack .outside := next_close hpair
    rw [if_neg (by simpa using hstack)] at hnext
    rw [Stays, hnext]
    exact ⟨nofun, rfl⟩
  rw [cons_append, Stays, next_open (opens_of_pairs hpair)]
  exact ⟨nofun, (h (left :: stack) (cons_ne_nil _ _)).append hclose⟩

section Reading

variable {cs rest : List Char} {fuel : Nat}

theorem skipBlank_append (cs : List Char) : ∃ blanks, cs = blanks ++ skipBlank cs ∧
    (∀ c ∈ blanks, JsonText.isBlank c) :=
  ⟨cs.takeWhile JsonText.isBlank, takeWhile_append_dropWhile.symm, fun _ hc => mem_takeWhile_imp hc⟩

theorem isPlain_of_isBlank (h : JsonText.isBlank c) : isPlain c = true := by
  simp only [JsonText.isBlank, Bool.or_eq_true, beq_iff_eq] at h
  rcases h with ((rfl | rfl) | rfl) | rfl <;> rfl

theorem passes_blanks {blanks : List Char} (h : ∀ c ∈ blanks, JsonText.isBlank c) : Passes blanks :=
  passes_plain fun c hc => isPlain_of_isBlank (h c hc)

theorem hexValue_plain {n : Nat} (h : JsonText.hexValue c = some n) : c ≠ '"' ∧ c ≠ '\\' := by
  have hquote : JsonText.hexValue '"' = none := by decide
  have hslash : JsonText.hexValue '\\' = none := by decide
  constructor
  · rintro rfl
    have hfalse := hquote.symm.trans h
    cases hfalse
  · rintro rfl
    have hfalse := hslash.symm.trans h
    cases hfalse

theorem hexNumber_quoted {a b d e : Char} {n : Nat} (h : JsonText.hexNumber a b d e = some n) :
    Quoted [a, b, d, e] := by
  simp only [JsonText.hexNumber, bind_eq_some_iff, map_eq_some_iff] at h
  obtain ⟨_, ha, _, hb, _, hd, _, he, -⟩ := h
  exact ((quoted_char (hexValue_plain ha).1 (hexValue_plain ha).2).append
    (quoted_char (hexValue_plain hb).1 (hexValue_plain hb).2)).append
    ((quoted_char (hexValue_plain hd).1 (hexValue_plain hd).2).append
      (quoted_char (hexValue_plain he).1 (hexValue_plain he).2))

theorem readLow_quoted {n : Nat} (h : JsonText.readLow cs = some (n, rest)) :
    ∃ t, cs = t ++ rest ∧ Quoted t := by
  unfold JsonText.readLow at h
  split at h
  · rename_i a b d e tail
    obtain ⟨m, hm, h⟩ := bind_eq_some_iff.mp h
    split at h
    · cases h
      exact ⟨['\\', 'u', a, b, d, e], rfl, (quoted_escape 'u').append (hexNumber_quoted hm)⟩
    · cases h
  · cases h

theorem readUnicode_quoted (h : JsonText.readUnicode cs = some (c, rest)) :
    ∃ t, cs = t ++ rest ∧ Quoted t := by
  unfold JsonText.readUnicode at h
  split at h
  · rename_i a b d e tail
    obtain ⟨m, hm, h⟩ := map_eq_some_iff.mp h
    have hhex := hexNumber_quoted hm
    split at h
    · split at h
      · rename_i low rest' hlow
        split at h
        · obtain ⟨-, rfl⟩ := Prod.mk.inj h
          obtain ⟨t, rfl, ht⟩ := readLow_quoted hlow
          exact ⟨[a, b, d, e] ++ t, rfl, hhex.append ht⟩
        · cases h
          exact ⟨[a, b, d, e], rfl, hhex⟩
      · cases h
        exact ⟨[a, b, d, e], rfl, hhex⟩
    · cases h
      exact ⟨[a, b, d, e], rfl, hhex⟩
  · cases h

theorem readEscape_quoted (h : JsonText.readEscape cs = some (c, rest)) :
    ∃ t, '\\' :: cs = t ++ rest ∧ Quoted t := by
  cases cs with
  | nil => cases h
  | cons e tail =>
    have hone : some (c, tail) = some (c, rest) → ∃ t, '\\' :: e :: tail = t ++ rest ∧ Quoted t := by
      intro heq
      cases heq
      exact ⟨['\\', e], rfl, quoted_escape e⟩
    have hsame : ∀ d : Char, some (d, tail) = some (c, rest) →
        ∃ t, '\\' :: e :: tail = t ++ rest ∧ Quoted t := by
      intro d heq
      cases heq
      exact hone rfl
    rw [JsonText.readEscape] at h
    split at h
    · exact hsame _ h
    · split at h
      · exact hsame _ h
      · split at h
        · exact hsame _ h
        · split at h
          · exact hsame _ h
          · split at h
            · exact hsame _ h
            · split at h
              · exact hsame _ h
              · split at h
                · obtain ⟨t, rfl, ht⟩ := readUnicode_quoted h
                  exact ⟨['\\', e] ++ t, rfl, (quoted_escape e).append ht⟩
                · cases h

theorem readString_quoted {chars : List Char} (h : JsonText.readString fuel cs = some (chars, rest)) :
    ∃ t, cs = t ++ '"' :: rest ∧ Quoted t := by
  induction fuel generalizing cs chars with
  | zero => cases h
  | succ fuel ih =>
    cases cs with
    | nil => cases h
    | cons c tail =>
      rw [JsonText.readString] at h
      split at h
      · rename_i hquote
        cases h
        exact ⟨[], by rw [hquote]; rfl, fun _ => rfl⟩
      · rename_i hquote
        split at h
        · rename_i hslash
          obtain ⟨⟨d, tail'⟩, hescape, h⟩ := bind_eq_some_iff.mp h
          obtain ⟨⟨chars', rest'⟩, hread, heq⟩ := map_eq_some_iff.mp h
          cases heq
          obtain ⟨t, ht, hquoted⟩ := readEscape_quoted hescape
          obtain ⟨t', rfl, hquoted'⟩ := ih hread
          exact ⟨t ++ t', by rw [hslash, ht, append_assoc], hquoted.append hquoted'⟩
        · rename_i hslash
          split at h
          · cases h
          · obtain ⟨⟨chars', rest'⟩, hread, heq⟩ := map_eq_some_iff.mp h
            cases heq
            obtain ⟨t, rfl, hquoted⟩ := ih hread
            exact ⟨c :: t, rfl, (quoted_char hquote hslash).append hquoted⟩

theorem isPlain_of_isNumberChar (h : isNumberChar c) : isPlain c = true := by
  by_contra hplain
  simp only [isPlain, opens, Bool.not_eq_true, Bool.not_eq_false', Bool.or_eq_true, beq_iff_eq,
    decide_eq_true_eq] at hplain
  rcases hplain with ((rfl | rfl | rfl) | rfl) | rfl <;> exact absurd h (by decide)

theorem expect_passes {word : List Char} (h : JsonText.expect word cs = some rest)
    (hword : ∀ c ∈ word, isPlain c) : ∃ t, cs = t ++ rest ∧ Passes t := by
  rw [JsonText.expect] at h
  split at h
  · rename_i hprefix
    obtain ⟨tail, rfl⟩ := isPrefixOf_iff_prefix.mp hprefix
    refine ⟨word, ?_, passes_plain hword⟩
    rw [← some.inj h, drop_left]
  · cases h

theorem readNumber_passes {n : Literal} (h : JsonText.readNumber cs = some (n, rest)) :
    ∃ t, cs = t ++ rest ∧ Passes t := by
  rw [JsonText.readNumber] at h
  split at h
  · cases h
  · cases h
    exact ⟨cs.takeWhile isNumberChar, takeWhile_append_dropWhile.symm,
      passes_plain fun c hc => isPlain_of_isNumberChar (mem_takeWhile_imp hc)⟩

/-- The text goes on to the bracket that closes `left`. -/
def Bracketed (left : Char) (tail rest : List Char) : Prop :=
  ∃ body right, tail = body ++ right :: rest ∧ Passes body ∧ pairs left right = true

def ValueReads (fuel : Nat) : Prop :=
  ∀ cs v rest, JsonText.readValue fuel cs = some (v, rest) →
    (∃ t, cs = t ++ rest ∧ Passes t) ∧ v.wf = true ∧
    ∀ left tail, skipBlank cs = left :: tail → opens left = true → Bracketed left tail rest

def ItemsRead (fuel : Nat) : Prop :=
  ∀ cs items rest, JsonText.readItems fuel cs = some (items, rest) →
    (∃ body, cs = body ++ ']' :: rest ∧ Passes body) ∧ ∀ v ∈ items, v.wf = true

def FieldsRead (fuel : Nat) : Prop :=
  ∀ cs fields rest, JsonText.readFields fuel cs = some (fields, rest) →
    (∃ body, cs = body ++ '\x7d' :: rest ∧ Passes body) ∧ ∀ f ∈ fields, f.2.wf = true

theorem collect_wf {fields : List (String × Json Literal)} (h : ∀ f ∈ fields, f.2.wf) :
    (obj (JsonText.collect fields)).wf := by
  suffices hfold : ∀ done : List (String × Json Literal), Assoc.Sorted done →
      (∀ f ∈ done, f.2.wf) → (obj (fields.foldl (fun l f => Assoc.set f.1 f.2 l)
        done)).wf = true from
    hfold [] List.Pairwise.nil nofun
  induction fields with
  | nil => exact fun done hsorted hdone => wf_obj.mpr ⟨hsorted, hdone⟩
  | cons f fields ih =>
    obtain ⟨hf, hfields⟩ := forall_mem_cons.mp h
    intro done hsorted hdone
    refine ih hfields _ (hsorted.set f.1 f.2) fun g hg => ?_
    rcases Assoc.Sorted.mem_set hg with rfl | hg
    · exact hf
    · exact hdone g hg

theorem passes_to_bracket {right : Char}
    (h : (skipBlank cs).head? = some right) : ∃ body, cs = body ++ right :: (skipBlank cs).tail ∧
      Passes body := by
  obtain ⟨blanks, hcs, hblanks⟩ := skipBlank_append cs
  refine ⟨blanks, ?_, passes_blanks hblanks⟩
  rw [← eq_cons_of_mem_head? h]
  exact hcs

theorem valueReads_succ (hitems : ItemsRead fuel) (hfields : FieldsRead fuel) : ValueReads (fuel + 1) := by
  intro cs v rest h
  obtain ⟨blanks, hcs, hblanks⟩ := skipBlank_append cs
  have hblank := passes_blanks hblanks
  rw [JsonText.readValue] at h
  split at h
  · cases h
  · rename_i c tail hskip
    rw [hskip] at hcs
    have hplain : (opens c = false) → v.wf = true → (∃ t, c :: tail = t ++ rest ∧ Passes t) →
        (∃ t, cs = t ++ rest ∧ Passes t) ∧ v.wf = true ∧
          ∀ left tail', skipBlank cs = left :: tail' → opens left = true → Bracketed left tail' rest := by
      rintro hopens hwf ⟨t, ht, hpasses⟩
      refine ⟨⟨blanks ++ t, by rw [hcs, ht, append_assoc], hblank.append hpasses⟩, hwf, ?_⟩
      intro left tail' hleft hopen
      cases hskip.symm.trans hleft
      rw [hopens] at hopen
      cases hopen
    have hbrackets : v.wf → Bracketed c tail rest → (∃ t, cs = t ++ rest ∧ Passes t) ∧ v.wf = true ∧
          ∀ left tail', skipBlank cs = left :: tail' → opens left = true → Bracketed left tail' rest := by
      rintro hwf ⟨body, right, rfl, hbody, hpair⟩
      refine ⟨⟨blanks ++ (c :: body ++ [right]), by rw [hcs]; simp,
        hblank.append (passes_brackets hbody hpair)⟩, hwf, ?_⟩
      intro left tail' hleft _
      cases hskip.symm.trans hleft
      exact ⟨body, right, rfl, hbody, hpair⟩
    split at h
    · rename_i hquote
      subst hquote
      obtain ⟨⟨chars, rest'⟩, hread, heq⟩ := map_eq_some_iff.mp h
      cases heq
      obtain ⟨t, rfl, hquoted⟩ := readString_quoted hread
      exact hplain rfl rfl ⟨'"' :: t ++ ['"'], by simp, passes_string hquoted⟩
    · split at h
      · rename_i hbracket
        subst hbracket
        split at h
        · rename_i hclose
          cases h
          obtain ⟨body, hbody, hpasses⟩ := passes_to_bracket hclose
          exact hbrackets rfl ⟨body, ']', hbody, hpasses, rfl⟩
        · obtain ⟨⟨items, rest'⟩, hread, heq⟩ := map_eq_some_iff.mp h
          cases heq
          obtain ⟨⟨body, hbody, hpasses⟩, hwf⟩ := hitems _ _ _ hread
          exact hbrackets (wfItems_iff.mpr hwf) ⟨body, ']', hbody, hpasses, rfl⟩
      · split at h
        · rename_i hbrace
          subst hbrace
          split at h
          · rename_i hclose
            cases h
            obtain ⟨body, hbody, hpasses⟩ := passes_to_bracket hclose
            exact hbrackets rfl ⟨body, '\x7d', hbody, hpasses, rfl⟩
          · obtain ⟨⟨fields, rest'⟩, hread, heq⟩ := map_eq_some_iff.mp h
            cases heq
            obtain ⟨⟨body, hbody, hpasses⟩, hwf⟩ := hfields _ _ _ hread
            exact hbrackets (collect_wf hwf) ⟨body, '\x7d', hbody, hpasses, rfl⟩
        · have hword : ∀ word : List Char, (∀ d ∈ c :: word, isPlain d) →
              ∀ w : Json Literal, w.wf →
              (JsonText.expect word tail).map (fun rest => (w, rest)) = some (v, rest) →
              v.wf ∧ ∃ t, c :: tail = t ++ rest ∧ Passes t := by
            intro word hword w hw h
            obtain ⟨rest', hexpect, heq⟩ := map_eq_some_iff.mp h
            cases heq
            obtain ⟨hc, hword⟩ := forall_mem_cons.mp hword
            obtain ⟨t, rfl, ht⟩ := expect_passes hexpect hword
            exact ⟨hw, c :: t, rfl, (passes_char hc).append ht⟩
          split at h
          · rename_i hn
            subst hn
            obtain ⟨hwf, hpasses⟩ := hword _ (by simp [isPlain, opens]) _ rfl h
            exact hplain rfl hwf hpasses
          · split at h
            · rename_i ht
              subst ht
              obtain ⟨hwf, hpasses⟩ := hword _ (by simp [isPlain, opens]) _ rfl h
              exact hplain rfl hwf hpasses
            · split at h
              · rename_i hf
                subst hf
                obtain ⟨hwf, hpasses⟩ := hword _ (by simp [isPlain, opens]) _ rfl h
                exact hplain rfl hwf hpasses
              · rename_i hbracket hbrace _ _ _
                obtain ⟨⟨n, rest'⟩, hread, heq⟩ := map_eq_some_iff.mp h
                cases heq
                refine hplain ?_ rfl (readNumber_passes hread)
                simp [opens, hbracket, hbrace]

theorem itemsRead_succ (hvalue : ValueReads fuel) (hitems : ItemsRead fuel) : ItemsRead (fuel + 1) := by
  intro cs items rest h
  rw [JsonText.readItems] at h
  obtain ⟨⟨v, tail⟩, hread, hrest⟩ := bind_eq_some_iff.mp h
  obtain ⟨⟨t, rfl, ht⟩, hwf, -⟩ := hvalue _ _ _ hread
  obtain ⟨blanks, hcs, hblanks⟩ := skipBlank_append tail
  have hpasses := ht.append (passes_blanks hblanks)
  split at hrest
  · rename_i rest' hskip
    obtain ⟨⟨more, rest''⟩, hmore, heq⟩ := map_eq_some_iff.mp hrest
    cases heq
    obtain ⟨⟨body, rfl, hbody⟩, hall⟩ := hitems _ _ _ hmore
    refine ⟨⟨t ++ blanks ++ ([','] ++ body), ?_, hpasses.append
      ((passes_char rfl).append hbody)⟩, forall_mem_cons.mpr ⟨hwf, hall⟩⟩
    rw [hcs, hskip]
    simp
  · rename_i rest' hskip
    cases hrest
    refine ⟨⟨t ++ blanks, ?_, hpasses⟩, forall_mem_cons.mpr ⟨hwf, forall_mem_nil _⟩⟩
    rw [hcs, hskip]
    simp
  · cases hrest

theorem fieldsRead_succ (hvalue : ValueReads fuel) (hfields : FieldsRead fuel) : FieldsRead (fuel + 1) := by
  intro cs fields rest h
  obtain ⟨blanks, hcs, hblanks⟩ := skipBlank_append cs
  rw [JsonText.readFields] at h
  split at h
  · rename_i tail hskip
    obtain ⟨⟨key, afterKey⟩, hkey, hrest⟩ := bind_eq_some_iff.mp h
    obtain ⟨quoted, rfl, hquoted⟩ := readString_quoted hkey
    obtain ⟨blanks₁, hcs₁, hblanks₁⟩ := skipBlank_append afterKey
    have hname := (passes_blanks hblanks).append ((passes_string hquoted).append
      (passes_blanks hblanks₁))
    split at hrest
    · rename_i afterColon hcolon
      obtain ⟨⟨v, afterValue⟩, hread, hnext⟩ := bind_eq_some_iff.mp hrest
      obtain ⟨⟨t, rfl, ht⟩, hwf, -⟩ := hvalue _ _ _ hread
      obtain ⟨blanks₂, hcs₂, hblanks₂⟩ := skipBlank_append afterValue
      have hfield := hname.append ((passes_char (c := ':') rfl).append
        (ht.append (passes_blanks hblanks₂)))
      split at hnext
      · rename_i rest' hcomma
        obtain ⟨⟨more, rest''⟩, hmore, heq⟩ := map_eq_some_iff.mp hnext
        cases heq
        obtain ⟨⟨body, rfl, hbody⟩, hall⟩ := hfields _ _ _ hmore
        refine ⟨⟨_, ?_, hfield.append ((passes_char (c := ',') rfl).append hbody)⟩,
          forall_mem_cons.mpr ⟨hwf, hall⟩⟩
        rw [hcs, hskip, hcs₁, hcolon, hcs₂, hcomma]
        simp
      · rename_i rest' hbrace
        cases hnext
        refine ⟨⟨_, ?_, hfield⟩, forall_mem_cons.mpr ⟨hwf, nofun⟩⟩
        rw [hcs, hskip, hcs₁, hcolon, hcs₂, hbrace]
        simp
      · cases hnext
    · cases hrest
  · cases h

theorem valueReads (fuel : Nat) : ValueReads fuel := by
  suffices hall : ValueReads fuel ∧ ItemsRead fuel ∧ FieldsRead fuel from hall.1
  induction fuel with
  | zero =>
    exact ⟨fun _ _ _ h => (by cases h), fun _ _ _ h => (by cases h), fun _ _ _ h => (by cases h)⟩
  | succ fuel ih =>
    obtain ⟨hvalue, hitems, hfields⟩ := ih
    exact ⟨valueReads_succ hitems hfields, itemsRead_succ hvalue hitems, fieldsRead_succ hvalue hfields⟩

end Reading

section Fragments

variable {replace : List Char → List Char} {start tail : List Char} {v : Json Literal}

def Complete (t : List Char) : Prop :=
  ∃ left body right, t = left :: body ++ [right] ∧ Passes body ∧ pairs left right = true

def Enclosed (t : List Char) : Prop :=
  ∃ left body right, t = left :: body ++ [right] ∧ opens left = true ∧ (right = '\x7d' ∨ right = ']')

theorem next_idle (h : opens left) : next .idle left = .inside [left] .outside := by
  rw [next, if_pos h]

theorem Complete.after_eq (h : Complete t) : after .idle t = .idle := by
  obtain ⟨left, body, right, rfl, hbody, hpair⟩ := h
  have hnext : next (.inside [left] .outside) right = .idle := next_close hpair
  have hstart : after .idle (left :: body) = after (.inside [left] .outside) body := by
    rw [after, foldl_cons, next_idle (opens_of_pairs hpair)]
    rfl
  rw [after_append, hstart, (hbody [left] (cons_ne_nil _ _)).after_eq]
  exact hnext

theorem all_blank (h : skipBlank t = []) : ∀ c ∈ t, JsonText.isBlank c = true :=
  dropWhile_eq_nil_iff.mp h

theorem isBlank_of_opens (h : opens left) : JsonText.isBlank left = false := by
  simp only [opens, Bool.or_eq_true, decide_eq_true_eq] at h
  rcases h with rfl | rfl <;> rfl

theorem decode_bracketed (h : JsonText.decode (left :: t) = some v) (hopens : opens left) :
    v.wf ∧ ∃ fragment rest, left :: t = fragment ++ rest ∧ Complete fragment ∧
      ∀ c ∈ rest, JsonText.isBlank c := by
  rw [JsonText.decode] at h
  obtain ⟨⟨v', rest⟩, hread, hrest⟩ := bind_eq_some_iff.mp h
  split at hrest
  · rename_i hempty
    cases hrest
    obtain ⟨-, hwf, hbracketed⟩ := valueReads _ _ _ _ hread
    obtain ⟨body, right, rfl, hbody, hpair⟩ := hbracketed left t
      (JsonText.skipBlank_cons (isBlank_of_opens hopens)) hopens
    exact ⟨hwf, left :: body ++ [right], rest, by simp, ⟨left, body, right, rfl, hbody, hpair⟩,
      all_blank (List.isEmpty_iff.mp hempty)⟩
  · cases hrest

theorem complete_of_decode (h : JsonText.decode t = some v) (ht : Enclosed t) : Complete t := by
  obtain ⟨left, body, right, rfl, hopens, hright⟩ := ht
  obtain ⟨-, fragment, rest, heq, hcomplete, hblank⟩ := decode_bracketed h hopens
  have heq' : left :: body ++ [right] = fragment ++ rest := heq
  cases hlast : rest.reverse with
  | nil =>
    rw [reverse_eq_nil_iff.mp hlast, append_nil] at heq'
    exact heq' ▸ hcomplete
  | cons c rest' =>
    obtain rfl := reverse_eq_cons_iff.mp hlast
    rw [← append_assoc] at heq'
    obtain ⟨-, hc⟩ := append_inj' heq' rfl
    obtain rfl := singleton_injective hc
    have hright' := hblank right (by simp)
    rcases hright with rfl | rfl <;> exact absurd hright' (by decide)

end Fragments

/-! ## Secrets -/

inductive LeafOf : Json Literal → String → Prop where
  | here {w : String} : LeafOf (.str w) w
  | item {items : List (Json Literal)} {v : Json Literal} {w : String} (hv : v ∈ items)
      (h : LeafOf v w) : LeafOf (.arr items) w
  | field {fields : List (String × Json Literal)} {key : String} {v : Json Literal} {w : String}
      (hv : (key, v) ∈ fields) (h : LeafOf v w) : LeafOf (.obj fields) w

/-- A text under a member, at any depth, whose key is a credential field. -/
inductive Secret (u : Unicode) : Json Literal → String → Prop where
  | here {fields : List (String × Json Literal)} {key : String} {v : Json Literal} {w : String}
      (hv : (key, v) ∈ fields) (hkey : isCredentialField u key = true) (h : LeafOf v w) :
      Secret u (.obj fields) w
  | item {items : List (Json Literal)} {v : Json Literal} {w : String} (hv : v ∈ items)
      (h : Secret u v w) : Secret u (.arr items) w
  | field {fields : List (String × Json Literal)} {key : String} {v : Json Literal} {w : String}
      (hv : (key, v) ∈ fields) (h : Secret u v w) : Secret u (.obj fields) w

/-- A value without what stands under its credential members. -/
def mask (u : Unicode) (v : Json Literal) : Json Literal := walkRedactAny u id v

section Walks

variable {u : Unicode} {numbers : Numbers} {redact : String → String} {v v' : Json Literal}
  {w w' : String} {items : List (Json Literal)} {fields : List (String × Json Literal)}

theorem walkItems_eq : walkItems u redact items = items.map (walkValue u redact) := by
  induction items with
  | nil => rfl
  | cons v items ih => rw [walkItems, ih, map_cons]

theorem walkFields_eq : walkFields u redact fields = fields.map fun f => (f.1,
    if isCredentialField u f.1 then .str redactedPlaceholder else walkValue u redact f.2) := by
  induction fields with
  | nil => rfl
  | cons f fields ih => rw [walkFields, ih, map_cons]

theorem Secret.placeholder (h : Secret u v w) (hv : walkValue u redact v = v) :
    w = redactedPlaceholder := by
  induction h with
  | here hmem hkey hleaf =>
    rw [walkValue, walkFields_eq] at hv
    have heq := map_inj_left.mp ((obj.inj hv).trans (List.map_id _).symm) _ hmem
    simp only [hkey, if_true, id_eq, Prod.mk.injEq, true_and] at heq
    rw [← heq] at hleaf
    cases hleaf
    rfl
  | item hmem _ ih =>
    rw [walkValue, walkItems_eq] at hv
    exact ih (map_inj_left.mp ((arr.inj hv).trans (List.map_id _).symm) _ hmem)
  | field hmem hsecret ih =>
    rw [walkValue, walkFields_eq] at hv
    have heq := map_inj_left.mp ((obj.inj hv).trans (List.map_id _).symm) _ hmem
    simp only [id_eq, Prod.mk.injEq, true_and] at heq
    split at heq
    · rw [← heq] at hsecret
      cases hsecret
    · exact ih heq

mutual

theorem wf_readNumbers : ∀ v v', readNumbers numbers v = some v' → v.wf = true → v'.wf = true
  | .null, v', h, _ => by
    cases h
    rfl
  | .bool b, v', h, _ => by
    cases h
    rfl
  | .num n, v', h, _ => by
    obtain ⟨m, -, rfl⟩ := map_eq_some_iff.mp h
    rfl
  | .str s, v', h, _ => by
    cases h
    rfl
  | .arr items, v', h, hwf => by
    obtain ⟨items', hitems, rfl⟩ := map_eq_some_iff.mp h
    exact wf_readItemNumbers items items' hitems hwf
  | .obj fields, v', h, hwf => by
    obtain ⟨fields', hfields, rfl⟩ := map_eq_some_iff.mp h
    obtain ⟨hkeys, hvalues⟩ := wf_readFieldNumbers fields fields' hfields
    obtain ⟨hsorted, hall⟩ := wf_obj.mp hwf
    refine wf_obj.mpr ⟨?_, wfFields_iff.mp (hvalues (wfFields_iff.mpr hall))⟩
    rw [Assoc.sorted_iff_keys, hkeys]
    exact Assoc.sorted_iff_keys.mp hsorted

theorem wf_readItemNumbers : ∀ items items', readItemNumbers numbers items = some items' →
    wfItems items → wfItems items' = true
  | [], items', h, _ => by
    cases h
    rfl
  | v :: items, items', h, hwf => by
    obtain ⟨v', hv, h⟩ := bind_eq_some_iff.mp h
    obtain ⟨rest, hrest, rfl⟩ := map_eq_some_iff.mp h
    obtain ⟨hv', hrest'⟩ := Bool.and_eq_true_iff.mp hwf
    exact Bool.and_eq_true_iff.mpr ⟨wf_readNumbers v v' hv hv', wf_readItemNumbers items rest hrest hrest'⟩

theorem wf_readFieldNumbers : ∀ fields fields', readFieldNumbers numbers fields = some fields' →
    fields'.map Prod.fst = fields.map Prod.fst ∧
      (wfFields fields → wfFields fields' = true)
  | [], fields', h => by
    cases h
    exact ⟨rfl, fun _ => rfl⟩
  | (key, v) :: fields, fields', h => by
    obtain ⟨v', hv, h⟩ := bind_eq_some_iff.mp h
    obtain ⟨rest, hrest, rfl⟩ := map_eq_some_iff.mp h
    obtain ⟨hkeys, hvalues⟩ := wf_readFieldNumbers fields rest hrest
    refine ⟨by rw [map_cons, hkeys, map_cons], fun hwf => ?_⟩
    obtain ⟨hv', hrest'⟩ := Bool.and_eq_true_iff.mp hwf
    exact Bool.and_eq_true_iff.mpr ⟨wf_readNumbers v v' hv hv', hvalues hrest'⟩

end

end Walks

section Texts

variable {u : Unicode} {numbers : Numbers} {redact : String → String} {v v' : Json Literal}
  {w w' : String} {before rest : List Char}

/-- JSON text in brackets with a secret `w` beneath a credential member. -/
structure SecretText (u : Unicode) (numbers : Numbers) (t : List Char) (v : Json Literal)
    (w : String) : Prop where
  enclosed : Enclosed t
  read : unmarshal numbers t = some v
  secret : Secret u v w
  ne : w ≠ redactedPlaceholder

theorem decode_of_unmarshal (h : unmarshal numbers t = some v) :
    ∃ v₀, JsonText.decode t = some v₀ ∧ readNumbers numbers v₀ = some v := by
  obtain ⟨v₀, hdecode, h⟩ := bind_eq_some_iff.mp h
  split at h
  · exact ⟨v₀, hdecode, h⟩
  · cases h

theorem SecretText.complete (h : SecretText u numbers t v w) : Complete t := by
  obtain ⟨v₀, hdecode, -⟩ := decode_of_unmarshal h.read
  exact complete_of_decode hdecode h.enclosed

end Texts

/-- A text that is not in the redaction of the same text with other secrets in the place of `v`. -/
def Fresh (u : Unicode) (numbers : Numbers) (depth : Nat) (p left right q : String)
    (v : Json Literal) (w : String) : Prop :=
  ∃ (t' : String) (v' : Json Literal) (w' : String),
    SecretText u numbers (left ++ t' ++ right).toList v' w' ∧ mask u v' = mask u v ∧
    contains (redactString u numbers depth (p ++ (left ++ t' ++ right) ++ q)) w = false

def settings (value : String) : Json Literal := .obj [("api key", .str value)]

end Redact

end Aegis
