import Aegis.Engine.Extraction

/-!
# Engine.Deduplicate

The texts by which `handleDeduplicate` tells items apart, and when it keeps the first item of each
class of equal values.
-/

namespace Aegis

open List

variable {α ν : Type}

def firstsOf (same : α → α → Bool) (earlier : List α) : List α → List α
  | [] => []
  | x :: rest =>
    if earlier.any (same · x) then firstsOf same (earlier ++ [x]) rest
    else x :: firstsOf same (earlier ++ [x]) rest

section firstsOf

variable {same same' : α → α → Bool} {earlier items : List α} {x : α}

theorem mem_firstsOf (h : x ∈ firstsOf same earlier items) :
    x ∈ items ∧ earlier.any (same · x) = false := by
  induction items generalizing earlier with
  | nil => cases h
  | cons y rest ih =>
    have later : x ∈ firstsOf same (earlier ++ [y]) rest →
        x ∈ y :: rest ∧ earlier.any (same · x) = false := fun h => by
      obtain ⟨hmem, hany⟩ := ih h
      rw [any_append, Bool.or_eq_false_iff] at hany
      exact ⟨mem_cons_of_mem _ hmem, hany.1⟩
    rw [firstsOf] at h
    split at h
    · exact later h
    · rename_i hy
      rcases mem_cons.mp h with rfl | h
      · exact ⟨mem_cons_self, by simpa using hy⟩
      · exact later h

theorem pairwise_firstsOf : (firstsOf same earlier items).Pairwise (same · · = false) := by
  induction items generalizing earlier with
  | nil => exact .nil
  | cons x rest ih =>
    rw [firstsOf]
    split
    · exact ih
    · refine .cons (fun y hy => ?_) ih
      have hany := (mem_firstsOf hy).2
      simp only [any_append, Bool.or_eq_false_iff, any_cons] at hany
      exact hany.2.1

theorem firstsOf_of_pairwise (h : (earlier ++ items).Pairwise (same · · = false)) :
    firstsOf same earlier items = items := by
  induction items generalizing earlier with
  | nil => rfl
  | cons x rest ih =>
    have hx : earlier.any (same · x) = false := any_eq_false.mpr fun y hy => by
      simp [(pairwise_append.mp h).2.2 y hy x mem_cons_self]
    rw [firstsOf, hx, ih (by simpa using h)]
    rfl

theorem firstsOf_eq_iff : firstsOf same earlier items = firstsOf same' earlier items ↔
    ∀ before x after, items = before ++ x :: after →
      (earlier ++ before).any (same · x) = (earlier ++ before).any (same' · x) := by
  induction items generalizing earlier with
  | nil => simp [firstsOf]
  | cons x rest ih =>
    by_cases hx : earlier.any (same · x) = earlier.any (same' · x)
    · have hrest : firstsOf same earlier (x :: rest) = firstsOf same' earlier (x :: rest) ↔
          firstsOf same (earlier ++ [x]) rest = firstsOf same' (earlier ++ [x]) rest := by
        rw [firstsOf, firstsOf, ← hx]
        split <;> simp
      rw [hrest, ih]
      constructor
      · rintro h (_ | ⟨y, before⟩) z after heq <;> cases heq
        · simpa using hx
        · simpa using h before z after rfl
      · rintro h before y after rfl
        simpa using h (x :: before) y after rfl
    · refine iff_of_false (fun heq => hx ?_) fun h => hx (by simpa using h [] x rest rfl)
      -- what one of them keeps here the other keeps at no later place either
      have hmem : ∀ {p : α → α → Bool}, x ∈ firstsOf p earlier (x :: rest) →
        earlier.any (p · x) = false := fun h => (mem_firstsOf h).2
      have hself : ∀ {p : α → α → Bool}, earlier.any (p · x) = false →
          x ∈ firstsOf p earlier (x :: rest) := fun h => by simp [firstsOf, h]
      cases h : earlier.any (same · x) with
      | false => exact (hmem (heq ▸ hself h)).symm
      | true =>
        cases h' : earlier.any (same' · x) with
        | false => exact absurd (hmem (heq ▸ hself h')) (by simp [h])
        | true => rfl

end firstsOf

namespace Deduplicate

open Extraction (Value Js Action Answer Extracted getPath arrayOf store resolveExpressionSource)

mutual

/-- Equality of JSON values; the fields of objects may stand in any order. -/
def equal : Value → Value → Bool
  | .null, .null => true
  | .bool b, .bool b' => b == b'
  | .num n, .num n' => n == n'
  | .str s, .str s' => s == s'
  | .arr items, .arr items' => equalItems items items'
  | .obj fields, .obj fields' =>
    equalFields fields fields' && fields'.all fun f => (fields.lookup f.1).isSome
  | _, _ => false

def equalItems : List Value → List Value → Bool
  | [], [] => true
  | v :: rest, v' :: rest' => equal v v' && equalItems rest rest'
  | _, _ => false

def equalFields : List (String × Value) → List (String × Value) → Bool
  | [], _ => true
  | (key, v) :: rest, fields' =>
    (match fields'.lookup key with
      | some v' => equal v v'
      | none => false) && equalFields rest fields'

end

/-- The texts of numbers, and of what is no JSON at a key of an item; `none` if it throws. -/
structure Texts where
  number : Rat → String
  native : Value → String → Option String

mutual

/-- What `join` makes of a value; `native` is the text of what is no JSON. -/
def text (number : Rat → String) (native : Option String) : Value → Option String
  | .null => some ""
  | .bool b => some (toString b)
  | .num n => some (number n)
  | .str s => some s
  | .arr items => (texts number native items).map ",".intercalate
  -- no field of JSON is callable, so that there is no primitive value
  | .obj fields => if (fields.lookup "toString").isSome then none else some "[object Object]"
  | .native => native

def texts (number : Rat → String) (native : Option String) : List Value → Option (List String)
  | [] => some []
  | v :: rest => (text number native v).bind fun t => (texts number native rest).map (t :: ·)

end

variable (js : Js) (ts : Texts) (keys : List String)

def keyTextAt (item : Value) (key : String) : Option String :=
  match getPath js.inherited item key with
  | none => some ""
  | some v => text ts.number (ts.native item key) v

/-- `action.keys.map((k) => getPath(item, k)).join('|')`. -/
def keyText (item : Value) : Option String :=
  (keys.mapM (keyTextAt js ts item)).map "|".intercalate

/-- The loop of `handleDeduplicate`; `none` if it throws. -/
def deduplicate (seen : List String) : List Value → Option (List Value)
  | [] => some []
  | item :: rest => (keyText js ts keys item).bind fun key =>
    if seen.contains key then deduplicate seen rest
    else (deduplicate (key :: seen) rest).map (item :: ·)

def handleDeduplicate (answer : Answer ν) (a : Action) (extracted : Extracted) : Option Extracted :=
  (deduplicate js ts a.keys [] (arrayOf (resolveExpressionSource js extracted answer a.source))).map
    fun result => store extracted a.name (some (.arr result))

def jsonAt (item : Value) (key : String) : Option Value :=
  match getPath js.inherited item key with
  | some .native => none
  | v => v

def sameAt (x y : Value) (key : String) : Bool :=
  match jsonAt js x key, jsonAt js y key with
  | none, none => true
  | some v, some v' => equal v v'
  | _, _ => false

def firsts : List Value → List Value := firstsOf (fun x y => keys.all (sameAt js x y)) []

/-- The action stores the firsts of the items of its source, and of these it stores all. -/
def KeepsFirsts (answer : Answer ν) (a : Action) (extracted : Extracted) : Prop :=
  let result := firsts js a.keys (arrayOf (resolveExpressionSource js extracted answer a.source))
  handleDeduplicate js ts answer a extracted = some (store extracted a.name (some (.arr result))) ∧
    ∀ (answer' : Answer ν) (a' : Action) (extracted' : Extracted), a'.keys = a.keys →
      arrayOf (resolveExpressionSource js extracted' answer' a'.source) = result →
      handleDeduplicate js ts answer' a' extracted' = some (store extracted' a'.name (some (.arr result)))

def readsNative (item : Value) : Bool :=
  keys.any fun key => match getPath js.inherited item key with
    | some .native => true
    | _ => false

/-- Every item has a text, and one with the text of an earlier item has the values of an earlier
item; where members of prototypes are read, equal values have been printed alike too. -/
structure TellsApart (items : List Value) : Prop where
  texts : ∀ item ∈ items, (keyText js ts keys item).isSome
  apart : ∀ before x after, items = before ++ x :: after →
    (∃ y ∈ before, keyText js ts keys y = keyText js ts keys x) →
    ∃ y ∈ before, keys.all (sameAt js y x)
  native : ∀ before x after, items = before ++ x :: after →
    ∀ y ∈ before, keys.all (sameAt js y x) → readsNative js keys y ∨ readsNative js keys x →
    ∃ y ∈ before, keyText js ts keys y = keyText js ts keys x

variable {js ts keys}

section equal

variable {number : Rat → String} {native native' : Option String}

variable {fields fields' : List (String × Value)}

theorem mem_of_equalFields {key : String}
    (h : equalFields fields fields') (hkey : (fields.lookup key).isSome) :
    (fields'.lookup key).isSome := by
  induction fields with
  | nil => simp at hkey
  | cons f rest ih =>
    obtain ⟨name, v⟩ := f
    simp only [equalFields, Bool.and_eq_true] at h
    by_cases hname : key = name
    · subst hname
      cases hf : fields'.lookup key <;> simp_all
    · rw [lookup_cons, beq_eq_false_iff_ne.mpr hname] at hkey
      exact ih h.2 hkey

theorem isSome_lookup_of_equal (key : String)
    (h : equal (.obj fields) (.obj fields')) :
    (fields.lookup key).isSome = (fields'.lookup key).isSome := by
  rw [equal, Bool.and_eq_true] at h
  refine Bool.eq_iff_iff.mpr ⟨mem_of_equalFields h.1, fun hkey => ?_⟩
  obtain ⟨v, hv⟩ := Option.isSome_iff_exists.mp hkey
  obtain ⟨l₁, l₂, rfl, -⟩ := lookup_eq_some_iff.mp hv
  exact all_eq_true.mp h.2 _ (mem_append_right _ mem_cons_self)

mutual

theorem text_of_equal : ∀ {v v' : Value}, equal v v' → text number native v = text number native' v'
  | .null, v', h | .bool b, v', h | .num n, v', h | .str s, v', h => by
    cases v' <;> simp_all [equal, text]
  | .arr items, v', h => by
    cases v' with
    | arr items' => rw [text, text, texts_of_equal (by simpa only [equal] using h)]
    | _ => simp [equal] at h
  | .obj fields, v', h => by
    cases v' with
    | obj fields' => rw [text, text, isSome_lookup_of_equal "toString" h]
    | _ => simp [equal] at h
  | .native, v', h => by simp [equal] at h

theorem texts_of_equal : ∀ {items items' : List Value}, equalItems items items' →
    texts number native items = texts number native' items'
  | [], items', h => by
    cases items' with
    | nil => simp only [texts]
    | cons => simp [equalItems] at h
  | v :: rest, items', h => by
    cases items' with
    | nil => simp [equalItems] at h
    | cons v' rest' =>
      rw [equalItems, Bool.and_eq_true] at h
      rw [texts, texts, text_of_equal h.1, texts_of_equal h.2]

end

end equal

theorem keyText_of_same {x y : Value} (h : keys.all (sameAt js x y))
    (hx : readsNative js keys x = false) (hy : readsNative js keys y = false) :
    keyText js ts keys x = keyText js ts keys y := by
  have hkey : ∀ key ∈ keys, keyTextAt js ts x key = keyTextAt js ts y key := fun key hkey => by
    have hsame := all_eq_true.mp h key hkey
    have hx := any_eq_false.mp hx key hkey
    have hy := any_eq_false.mp hy key hkey
    rw [sameAt, jsonAt, jsonAt] at hsame
    rw [keyTextAt, keyTextAt]
    cases hv : getPath js.inherited x key with
    | none => cases hv' : getPath js.inherited y key <;> grind
    | some v =>
      cases hv' : getPath js.inherited y key with
      | none => grind
      | some v' => exact text_of_equal (by grind)
  have hmap : ∀ l : List String, (∀ key ∈ l, keyTextAt js ts x key = keyTextAt js ts y key) →
      l.mapM (keyTextAt js ts x) = l.mapM (keyTextAt js ts y) := fun l hl => by
    induction l with
    | nil => rfl
    | cons key rest ih =>
      rw [mapM_cons, mapM_cons, hl key mem_cons_self, ih fun k hk => hl k (mem_cons_of_mem _ hk)]
  rw [keyText, keyText, hmap keys hkey]

section deduplicate

variable {seen : List String} {items earlier result : List Value}

/-- Two items print alike. -/
abbrev printsAlike (js : Js) (ts : Texts) (keys : List String) (x y : Value) : Bool :=
  keyText js ts keys x == keyText js ts keys y

theorem deduplicate_eq (htexts : ∀ item ∈ items, (keyText js ts keys item).isSome)
    (hseen : ∀ key, key ∈ seen ↔ ∃ x ∈ earlier, keyText js ts keys x = some key) :
    deduplicate js ts keys seen items = some (firstsOf (printsAlike js ts keys) earlier items) := by
  induction items generalizing seen earlier with
  | nil => rfl
  | cons item rest ih =>
    obtain ⟨key, hkey⟩ := Option.isSome_iff_exists.mp (htexts item mem_cons_self)
    have hrest := fun x hx => htexts x (mem_cons_of_mem _ hx)
    have hany : earlier.any (printsAlike js ts keys · item) = seen.contains key := by
      rw [Bool.eq_iff_iff, any_eq_true, contains_iff_mem, hseen key]
      simp [hkey]
    have happend : ∀ k, (∃ x ∈ earlier ++ [item], keyText js ts keys x = some k) ↔
        k ∈ seen ∨ key = k := fun k => by simp [or_and_right, exists_or, hseen, hkey]
    rw [deduplicate, firstsOf, hany, hkey, Option.bind_some]
    cases hc : seen.contains key with
    | true =>
      refine ih hrest fun k => ⟨fun hk => (happend k).mpr (.inl hk), fun h => ?_⟩
      rcases (happend k).mp h with hk | rfl
      · exact hk
      · exact contains_iff_mem.mp hc
    | false =>
      rw [if_neg Bool.false_ne_true, if_neg Bool.false_ne_true, @ih _ (earlier ++ [item]) hrest fun k => ?_]
      · rfl
      · rw [happend, mem_cons, or_comm, eq_comm]

theorem texts_of_deduplicate (h : deduplicate js ts keys seen items = some result) :
    ∀ item ∈ items, (keyText js ts keys item).isSome := by
  induction items generalizing seen result with
  | nil => exact fun item hitem => absurd hitem not_mem_nil
  | cons item rest ih =>
    rw [deduplicate, Option.bind_eq_some_iff] at h
    obtain ⟨key, hkey, h⟩ := h
    refine forall_mem_cons.mpr ⟨by simp [hkey], ?_⟩
    split at h
    · exact ih h
    · obtain ⟨kept, hkept, -⟩ := Option.map_eq_some_iff.mp h
      exact ih hkept

theorem deduplicate_iff : deduplicate js ts keys [] items = some result ↔
    (∀ item ∈ items, (keyText js ts keys item).isSome) ∧
      firstsOf (printsAlike js ts keys) [] items = result := by
  have heq : (∀ item ∈ items, (keyText js ts keys item).isSome) →
      deduplicate js ts keys [] items = some (firstsOf (printsAlike js ts keys) [] items) :=
    fun htexts => deduplicate_eq htexts (by simp)
  constructor
  · intro h
    have htexts := texts_of_deduplicate h
    exact ⟨htexts, Option.some.inj ((heq htexts).symm.trans h)⟩
  · rintro ⟨htexts, rfl⟩
    exact heq htexts

/-- The filter keeps the first item of each class exactly when the texts tell the classes apart. -/
theorem tellsApart_iff : TellsApart js ts keys items ↔
    deduplicate js ts keys [] items = some (firsts js keys items) := by
  rw [deduplicate_iff, firsts, firstsOf_eq_iff]
  have hprints : ∀ (before : List Value) x, before.any (printsAlike js ts keys · x) ↔
      ∃ y ∈ before, keyText js ts keys y = keyText js ts keys x := by simp [any_eq_true]
  have hsame : ∀ (before : List Value) x, before.any (fun y => keys.all (sameAt js y x)) = true ↔
      ∃ y ∈ before, keys.all (sameAt js y x) := fun before x => any_eq_true
  simp only [nil_append, Bool.eq_iff_iff (b := any _ _), hprints, hsame]
  constructor
  · refine fun h => ⟨h.texts, fun before x after heq => ⟨h.apart before x after heq, ?_⟩⟩
    rintro ⟨y, hy, hall⟩
    by_cases hnative : readsNative js keys y ∨ readsNative js keys x
    · exact h.native before x after heq y hy hall hnative
    · simp only [not_or, Bool.not_eq_true] at hnative
      exact ⟨y, hy, keyText_of_same hall hnative.1 hnative.2⟩
  · rintro ⟨htexts, h⟩
    exact ⟨htexts, fun before x after heq => (h before x after heq).mp,
      fun before x after heq y hy hall _ => (h before x after heq).mpr ⟨y, hy, hall⟩⟩

theorem deduplicate_again (h : deduplicate js ts keys [] items = some result) :
    deduplicate js ts keys [] result = some result := by
  obtain ⟨htexts, rfl⟩ := deduplicate_iff.mp h
  exact deduplicate_iff.mpr ⟨fun item hitem => htexts item (mem_firstsOf hitem).1,
    firstsOf_of_pairwise pairwise_firstsOf⟩

/-- Where the items print as the extraction steps join their values, the loop is theirs. -/
theorem deduplicate_eq_unseen (h : ∀ item ∈ items,
      keyText js ts keys item = some (js.joined (keys.map (getPath js.inherited item)))) :
    deduplicate js ts keys seen items = some (Extraction.unseen js keys seen items) := by
  induction items generalizing seen with
  | nil => rfl
  | cons item rest ih =>
    have hrest := fun seen => @ih seen fun x hx => h x (mem_cons_of_mem _ hx)
    rw [deduplicate, h item mem_cons_self, Option.bind_some, Extraction.unseen]
    split
    · exact hrest _
    · rw [hrest]
      rfl

end deduplicate

theorem handleDeduplicate_eq (answer : Answer ν) (a : Action) (extracted : Extracted)
    (h : ∀ item ∈ arrayOf (resolveExpressionSource js extracted answer a.source),
      keyText js ts a.keys item = some (js.joined (a.keys.map (getPath js.inherited item)))) :
    handleDeduplicate js ts answer a extracted = Extraction.handleDeduplicate js answer a extracted := by
  rw [handleDeduplicate, deduplicate_eq_unseen h]
  rfl

theorem store_inj {extracted : Extracted} {name : String} {v v' : Value}
    (h : store extracted name (some v) = store extracted name (some v')) : v = v' := by
  simpa [store, Extraction.setKey] using h

/-- The action keeps the first item of each class exactly if the texts tell the classes apart. -/
theorem keepsFirsts_iff (answer : Answer ν) (a : Action) (extracted : Extracted) :
    KeepsFirsts js ts answer a extracted ↔
      TellsApart js ts a.keys (arrayOf (resolveExpressionSource js extracted answer a.source)) := by
  rw [tellsApart_iff, KeepsFirsts]
  constructor
  · rintro ⟨h, -⟩
    obtain ⟨result, hresult, hstore⟩ := Option.map_eq_some_iff.mp h
    have hinj := store_inj hstore
    rw [hresult]
    simpa using hinj
  · intro h
    refine ⟨by rw [handleDeduplicate, h]; rfl, fun answer' a' extracted' hkeys hsource => ?_⟩
    rw [handleDeduplicate, hsource, hkeys, deduplicate_again h]
    rfl

deriving instance Inhabited for Value, Js, Extraction.Action, Answer

/-- The values of the two items are joined to one text. -/
theorem joined_alike : ¬ KeepsFirsts default ⟨fun _ => "", fun _ _ => none⟩
    { (default : Answer Unit) with ctxEvaluated := .obj [("rows", .arr
      [.obj [("a", .str "x|y"), ("b", .str "z")], .obj [("a", .str "x"), ("b", .str "y|z")]])] }
    { (default : Action) with source := "rows", keys := ["a", "b"] } [] := by
  rw [keepsFirsts_iff, tellsApart_iff]
  exact fun h => absurd (congrArg (Option.map length) h) (by decide)

end Deduplicate

end Aegis
