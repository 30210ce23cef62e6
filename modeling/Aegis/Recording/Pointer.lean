import Mathlib.Data.List.Basic
import Mathlib.Data.Nat.Digits.Defs

/-!
# Recording.Pointer

JSON pointers, as `snapshot-delta.ts` writes them and `snapshot_delta.go` and `json-patch.ts` read
them.

A pointer that is written is read as the tokens it was written from (`tokens_render`), and the
decimal of an index is read as the index.
-/

namespace Aegis

open List

namespace Pointer

/-- Every `c` is replaced by `text`. -/
def replaceChar (c : Char) (text : List Char) (s : List Char) : List Char :=
  s.flatMap fun a => if a = c then text else [a]

/-- Every `c₁` before a `c₂` is replaced, together with it, by `c`. -/
def replacePair (c₁ c₂ c : Char) : List Char → List Char
  | a :: b :: s =>
    if a = c₁ ∧ b = c₂ then c :: replacePair c₁ c₂ c s else a :: replacePair c₁ c₂ c (b :: s)
  | s => s

def escapeToken (token : String) : String :=
  String.ofList (replaceChar '/' ['~', '1'] (replaceChar '~' ['~', '0'] token.toList))

def unescapeToken (token : List Char) : String :=
  String.ofList (replacePair '~' '0' '~' (replacePair '~' '1' '/' token))

/-- `splitPointer` and `parsePointer`, of a pointer that begins with a slash. -/
def splitPointer (path : String) : List String :=
  ((path.toList.drop 1).splitOn '/').map unescapeToken

/-- `arrayIndex`: the decimal of an index of an array of this length. -/
def arrayIndex (token : String) (length : Nat) (allowAppend : Bool) : Option Nat :=
  (List.range (if allowAppend then length + 1 else length)).find? fun i => toString i == token

/-- The pointer `pointer/token`. -/
def child (pointer token : String) : String := pointer ++ "/" ++ escapeToken token

def render (tokens : List String) : String := tokens.foldl child ""

variable {c c₁ c₂ a : Char} {s : List Char}

theorem replacePair_cons_ne (h : a ≠ c₁) : replacePair c₁ c₂ c (a :: s) = a :: replacePair c₁ c₂ c s := by
  cases s with
  | nil => rfl
  | cons b s => rw [replacePair, if_neg fun hab => h hab.1]

theorem replacePair_pair : replacePair c₁ c₂ c (c₁ :: c₂ :: s) = c :: replacePair c₁ c₂ c s := by
  rw [replacePair, if_pos ⟨rfl, rfl⟩]

theorem replacePair_cons_other {b : Char} (h : b ≠ c₂) :
    replacePair c₁ c₂ c (a :: b :: s) = a :: replacePair c₁ c₂ c (b :: s) := by
  rw [replacePair, if_neg fun hab => h hab.2]

theorem replaceChar_cons_self (text : List Char) :
    replaceChar c text (c :: s) = text ++ replaceChar c text s := by
  rw [replaceChar, flatMap_cons, if_pos rfl]
  rfl

theorem replaceChar_cons_ne (text : List Char) (h : a ≠ c) :
    replaceChar c text (a :: s) = a :: replaceChar c text s := by
  rw [replaceChar, flatMap_cons, if_neg h]
  rfl

theorem unescape_slash (s : List Char) :
    replacePair '~' '1' '/' (replaceChar '/' ['~', '1'] (replaceChar '~' ['~', '0'] s)) =
      replaceChar '~' ['~', '0'] s := by
  induction s with
  | nil => rfl
  | cons a s ih =>
    by_cases htilde : a = '~'
    · subst htilde
      rw [replaceChar_cons_self, cons_append, cons_append, nil_append,
        replaceChar_cons_ne _ (by decide), replaceChar_cons_ne _ (by decide),
        replacePair_cons_other (by decide), replacePair_cons_ne (by decide), ih]
    · rw [replaceChar_cons_ne _ htilde]
      by_cases hslash : a = '/'
      · subst hslash
        rw [replaceChar_cons_self, cons_append, cons_append, nil_append, replacePair_pair, ih]
      · rw [replaceChar_cons_ne _ hslash, replacePair_cons_ne htilde, ih]

theorem unescape_tilde (s : List Char) : replacePair '~' '0' '~' (replaceChar '~' ['~', '0'] s) = s := by
  induction s with
  | nil => rfl
  | cons a s ih =>
    by_cases htilde : a = '~'
    · subst htilde
      rw [replaceChar_cons_self, cons_append, cons_append, nil_append, replacePair_pair, ih]
    · rw [replaceChar_cons_ne _ htilde, replacePair_cons_ne htilde, ih]

theorem unescapeToken_escapeToken (token : String) : unescapeToken (escapeToken token).toList = token := by
  rw [unescapeToken, escapeToken, String.toList_ofList, unescape_slash, unescape_tilde,
    String.ofList_toList]

theorem slash_notMem_escapeToken (token : String) : '/' ∉ (escapeToken token).toList := by
  rw [escapeToken, String.toList_ofList, replaceChar, mem_flatMap]
  rintro ⟨b, -, hmem⟩
  split at hmem
  · simp at hmem
  · rename_i hb
    exact hb (mem_singleton.mp hmem).symm

theorem toList_child (pointer token : String) :
    (child pointer token).toList = pointer.toList ++ '/' :: (escapeToken token).toList := by
  simp [child]

theorem toList_foldl_child (pointer : String) (tokens : List String) : (tokens.foldl child pointer).toList =
      pointer.toList ++ tokens.flatMap fun t => '/' :: (escapeToken t).toList := by
  induction tokens generalizing pointer with
  | nil => simp
  | cons t tokens ih => rw [foldl_cons, ih, toList_child, flatMap_cons, append_assoc]

theorem flatMap_eq_intercalate (l : List (List Char)) (h : l ≠ []) :
    (l.flatMap fun t => '/' :: t) = '/' :: ['/'].intercalate l := by
  induction l with
  | nil => exact absurd rfl h
  | cons t l ih =>
    cases l with
    | nil => simp [List.intercalate]
    | cons t' l =>
      rw [flatMap_cons, ih (by simp)]
      simp [List.intercalate]

theorem splitPointer_render (tokens : List String) (h : tokens ≠ []) :
    splitPointer (render tokens) = tokens := by
  have hlist : (render tokens).toList = '/' :: ['/'].intercalate
      (tokens.map fun t => (escapeToken t).toList) := by
    rw [render, toList_foldl_child, ← flatMap_eq_intercalate _ (by simpa using h),
      flatMap_map]
    rfl
  rw [splitPointer, hlist, drop_one, tail_cons, splitOn_intercalate, map_map]
  · refine map_id'' (fun t => ?_) tokens
    exact unescapeToken_escapeToken t
  · intro l hl
    obtain ⟨t, -, rfl⟩ := mem_map.mp hl
    exact slash_notMem_escapeToken t
  · simpa using h

theorem startsWith_render {tokens : List String} (h : tokens ≠ []) :
    (render tokens).toList.head? = some '/' := by
  rw [render, toList_foldl_child]
  cases tokens with
  | nil => exact absurd rfl h
  | cons t tokens => rfl

theorem toString_injective {i j : Nat} (h : toString i = toString j) : i = j := by
  have hlist : Nat.toDigits 10 i = Nat.toDigits 10 j := by
    rw [← Nat.toList_repr, ← Nat.toList_repr, ← Nat.toString_eq_repr, ← Nat.toString_eq_repr, h]
  rw [← Nat.ofDigitChars_ten_toDigits (n := i), hlist, Nat.ofDigitChars_ten_toDigits]

theorem toList_toString (i : Nat) :
    (toString i).toList ≠ [] ∧ ∀ c ∈ (toString i).toList, c.isDigit = true := by
  rw [Nat.toString_eq_repr, Nat.toList_repr]
  exact ⟨Nat.toDigits_ne_nil, fun c hc => Nat.isDigit_of_mem_toDigits (by omega) (by omega) hc⟩

theorem toString_ne_empty (i : Nat) : toString i ≠ "" := by
  intro h
  exact (toList_toString i).1 (by rw [h]; rfl)

theorem arrayIndex_toString {i length : Nat} {allowAppend : Bool}
    (h : i < if allowAppend then length + 1 else length) :
    arrayIndex (toString i) length allowAppend = some i := by
  unfold arrayIndex
  refine find?_eq_some_iff_getElem.mpr ⟨by simp, i, by simpa using h, by simp, ?_⟩
  intro j hj
  simp only [getElem_range, Bool.not_eq_true', beq_eq_false_iff_ne]
  intro heq
  exact absurd (toString_injective heq) (by omega)

theorem arrayIndex_eq_some {token : String} {i length : Nat} {allowAppend : Bool}
    (h : arrayIndex token length allowAppend = some i) :
    token = toString i ∧ i < if allowAppend then length + 1 else length := by
  have hsome := find?_some h
  have hmem := mem_of_find?_eq_some h
  exact ⟨(eq_of_beq hsome).symm, mem_range.mp hmem⟩

end Pointer

end Aegis
