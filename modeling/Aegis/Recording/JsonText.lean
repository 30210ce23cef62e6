import Aegis.Recording.Json
import Mathlib.Data.List.TakeWhile

/-!
# Recording.JsonText

JSON as text: what `json.Marshal` writes and `json.Unmarshal` reads.

A number is its literal here. What is written is read as the value with the fields of every object
in the order of their keys (`decode_encode`).
-/

namespace Aegis

open List Option

def isNumberChar (c : Char) : Bool :=
  c.isDigit || c == '-' || c == '+' || c == '.' || c == 'e' || c == 'E'

structure Literal where
  chars : List Char
  ne_nil : chars ≠ []
  number : ∀ c ∈ chars, isNumberChar c = true

namespace JsonText

def hexDigit (n : Nat) : Char := if n < 10 then Char.ofNat (48 + n) else Char.ofNat (87 + n)

def hexDigits (n : Nat) : List Char :=
  [hexDigit (n / 4096 % 16), hexDigit (n / 256 % 16), hexDigit (n / 16 % 16), hexDigit (n % 16)]

/-- The characters that are written as `\u` and their number: control characters, those of HTML,
and the line separators. -/
def isEscaped (c : Char) : Bool :=
  decide (c.toNat < 32) || c == '<' || c == '>' || c == '&' || c.toNat == 0x2028 || c.toNat == 0x2029

def writeChar (c : Char) : List Char :=
  if c = '"' then ['\\', '"']
  else if c = '\\' then ['\\', '\\']
  else if c = '\x08' then ['\\', 'b']
  else if c = '\x0c' then ['\\', 'f']
  else if c = '\n' then ['\\', 'n']
  else if c = '\r' then ['\\', 'r']
  else if c = '\t' then ['\\', 't']
  else if isEscaped c then '\\' :: 'u' :: hexDigits c.toNat
  else [c]

def writeString (s : List Char) : List Char := '"' :: s.flatMap writeChar ++ ['"']

def writeList : List (List Char) → List Char
  | [] => []
  | [text] => text
  | text :: texts => text ++ ',' :: writeList texts

def writeArray (texts : List (List Char)) : List Char := '[' :: writeList texts ++ [']']

def writeObject (fields : List (String × List Char)) : List Char :=
  '{' :: writeList (fields.map fun f => writeString f.1.toList ++ ':' :: f.2) ++ ['}']

mutual

/-- What `json.Marshal` writes. -/
def encode : Json Literal → List Char
  | .null => ['n', 'u', 'l', 'l']
  | .bool true => ['t', 'r', 'u', 'e']
  | .bool false => ['f', 'a', 'l', 's', 'e']
  | .num n => n.chars
  | .str s => writeString s.toList
  | .arr items => writeArray (encodeItems items)
  | .obj fields => writeObject (encodeFields fields)

def encodeItems : List (Json Literal) → List (List Char)
  | [] => []
  | v :: items => encode v :: encodeItems items

def encodeFields : List (String × Json Literal) → List (String × List Char)
  | [] => []
  | (key, v) :: fields => (key, encode v) :: encodeFields fields

end

def hexValue (c : Char) : Option Nat :=
  if '0' ≤ c ∧ c ≤ '9' then some (c.toNat - 48)
  else if 'a' ≤ c ∧ c ≤ 'f' then some (c.toNat - 87)
  else if 'A' ≤ c ∧ c ≤ 'F' then some (c.toNat - 55)
  else none

def hexNumber (a b c d : Char) : Option Nat :=
  (hexValue a).bind fun a => (hexValue b).bind fun b => (hexValue c).bind fun c =>
    (hexValue d).map fun d => a * 4096 + b * 256 + c * 16 + d

def readLow : List Char → Option (Nat × List Char)
  | '\\' :: 'u' :: a :: b :: c :: d :: rest =>
    (hexNumber a b c d).bind fun n =>
      if 0xDC00 ≤ n ∧ n < 0xE000 then some (n, rest) else none
  | _ => none

/-- After `\u`. A surrogate without its half is the replacement character. -/
def readUnicode : List Char → Option (Char × List Char)
  | a :: b :: c :: d :: rest =>
    (hexNumber a b c d).map fun n =>
      if 0xD800 ≤ n ∧ n < 0xE000 then
        match readLow rest with
        | some (low, rest') =>
          if n < 0xDC00 then
            (Char.ofNat (0x10000 + (n - 0xD800) * 1024 + (low - 0xDC00)), rest')
          else ('\uFFFD', rest)
        | none => ('\uFFFD', rest)
      else (Char.ofNat n, rest)
  | _ => none

def readEscape : List Char → Option (Char × List Char)
  | [] => none
  | e :: rest =>
    if e = '"' ∨ e = '\\' ∨ e = '/' then some (e, rest)
    else if e = 'b' then some ('\x08', rest)
    else if e = 'f' then some ('\x0c', rest)
    else if e = 'n' then some ('\n', rest)
    else if e = 'r' then some ('\r', rest)
    else if e = 't' then some ('\t', rest)
    else if e = 'u' then readUnicode rest
    else none

def readString : Nat → List Char → Option (List Char × List Char)
  | fuel + 1, c :: rest =>
    if c = '"' then some ([], rest)
    else if c = '\\' then
      (readEscape rest).bind fun r =>
        (readString fuel r.2).map fun s => (r.1 :: s.1, s.2)
    else if c.toNat < 32 then none
    else (readString fuel rest).map fun s => (c :: s.1, s.2)
  | _, _ => none

def isBlank (c : Char) : Bool := c == ' ' || c == '\t' || c == '\n' || c == '\r'

def skipBlank (cs : List Char) : List Char := cs.dropWhile isBlank

def expect (word cs : List Char) : Option (List Char) :=
  if word.isPrefixOf cs then some (cs.drop word.length) else none

def readNumber (cs : List Char) : Option (Literal × List Char) :=
  if h : cs.takeWhile isNumberChar = [] then none
  else some (⟨cs.takeWhile isNumberChar, h, fun _ hc => mem_takeWhile_imp hc⟩,
    cs.dropWhile isNumberChar)

/-- The fields in the order of their keys; of two of one key the later one. -/
def collect {α : Type} (fields : List (String × α)) : List (String × α) :=
  fields.foldl (fun l f => Assoc.set f.1 f.2 l) []

mutual

def readValue : Nat → List Char → Option (Json Literal × List Char)
  | 0, _ => none
  | fuel + 1, cs =>
    match skipBlank cs with
    | [] => none
    | c :: rest =>
      if c = '"' then (readString rest.length rest).map fun r => (.str (String.ofList r.1), r.2)
      else if c = '[' then
        if (skipBlank rest).head? = some ']' then some (.arr [], (skipBlank rest).tail)
        else (readItems fuel rest).map fun r => (.arr r.1, r.2)
      else if c = '{' then
        if (skipBlank rest).head? = some '}' then some (.obj [], (skipBlank rest).tail)
        else (readFields fuel rest).map fun r => (.obj (collect r.1), r.2)
      else if c = 'n' then (expect ['u', 'l', 'l'] rest).map fun rest => (.null, rest)
      else if c = 't' then (expect ['r', 'u', 'e'] rest).map fun rest => (.bool true, rest)
      else if c = 'f' then (expect ['a', 'l', 's', 'e'] rest).map fun rest => (.bool false, rest)
      else (readNumber (c :: rest)).map fun r => (.num r.1, r.2)

def readItems : Nat → List Char → Option (List (Json Literal) × List Char)
  | 0, _ => none
  | fuel + 1, cs =>
    (readValue fuel cs).bind fun r =>
      match skipBlank r.2 with
      | ',' :: rest => (readItems fuel rest).map fun q => (r.1 :: q.1, q.2)
      | ']' :: rest => some ([r.1], rest)
      | _ => none

def readFields : Nat → List Char → Option (List (String × Json Literal) × List Char)
  | 0, _ => none
  | fuel + 1, cs =>
    match skipBlank cs with
    | '"' :: rest =>
      (readString rest.length rest).bind fun key =>
        match skipBlank key.2 with
        | ':' :: rest =>
          (readValue fuel rest).bind fun r =>
            match skipBlank r.2 with
            | ',' :: rest =>
              (readFields fuel rest).map fun q => ((String.ofList key.1, r.1) :: q.1, q.2)
            | '}' :: rest => some ([(String.ofList key.1, r.1)], rest)
            | _ => none
        | _ => none
    | _ => none

end

/-- What `json.Unmarshal` reads. -/
def decode (text : List Char) : Option (Json Literal) :=
  (readValue text.length text).bind fun r =>
    if (skipBlank r.2).isEmpty then some r.1 else none

theorem hexValue_hexDigit {n : Nat} (h : n < 16) : hexValue (hexDigit n) = some n := by
  have hall : ∀ n < 16, hexValue (hexDigit n) = some n := by decide
  exact hall n h

theorem readUnicode_hexDigits {n : Nat} (h : n < 0xD800) (rest : List Char) :
    readUnicode (hexDigits n ++ rest) = some (Char.ofNat n, rest) := by
  have hnumber : n / 4096 % 16 * 4096 + n / 256 % 16 * 256 + n / 16 % 16 * 16 + n % 16 = n := by
    omega
  have hmod : ∀ m : Nat, m % 16 < 16 := fun m => Nat.mod_lt m (by omega)
  simp only [hexDigits, cons_append, nil_append, readUnicode, hexNumber,
    hexValue_hexDigit (hmod _), bind_some, map_some, hnumber]
  rw [if_neg (by omega)]

theorem readString_writeChar (c : Char) (fuel : Nat) (cs : List Char) :
    readString (fuel + 1) (writeChar c ++ cs) = (readString fuel cs).map fun s => (c :: s.1, s.2) := by
  have hescape : ∀ e rest, readEscape (e ++ cs) = some (c, rest) → readString (fuel + 1) ('\\' :: e ++ cs) =
        (readString fuel rest).map fun s => (c :: s.1, s.2) := by
    intro e rest h
    rw [cons_append, readString, if_neg (by decide), if_pos rfl, h]
    rfl
  unfold writeChar
  split
  · rename_i h
    exact hescape ['"'] cs (by rw [h]; rfl)
  split
  · rename_i h
    exact hescape ['\\'] cs (by rw [h]; rfl)
  split
  · rename_i h
    exact hescape ['b'] cs (by rw [h]; rfl)
  split
  · rename_i h
    exact hescape ['f'] cs (by rw [h]; rfl)
  split
  · rename_i h
    exact hescape ['n'] cs (by rw [h]; rfl)
  split
  · rename_i h
    exact hescape ['r'] cs (by rw [h]; rfl)
  split
  · rename_i h
    exact hescape ['t'] cs (by rw [h]; rfl)
  rename_i hquote hback _ _ _ _ _
  split
  · rename_i h
    have hlt : c.toNat < 0xD800 := by
      simp only [isEscaped, Bool.or_eq_true, decide_eq_true_eq, beq_iff_eq] at h
      rcases h with ((((h | h) | h) | h) | h) | h
      · omega
      · rw [h]
        decide
      · rw [h]
        decide
      · rw [h]
        decide
      · omega
      · omega
    have hread := readUnicode_hexDigits hlt cs
    rw [Char.ofNat_toNat] at hread
    exact hescape ('u' :: hexDigits c.toNat) cs hread
  · rename_i h
    have hlarge : ¬ c.toNat < 32 := by
      intro hlt
      exact h (by simp [isEscaped, hlt])
    rw [singleton_append, readString, if_neg hquote, if_neg hback, if_neg hlarge]

theorem one_le_length_writeChar (c : Char) : 1 ≤ (writeChar c).length := by
  unfold writeChar
  split_ifs <;> simp

theorem readString_writeString (s rest : List Char) {fuel : Nat}
    (h : (s.flatMap writeChar).length + 1 ≤ fuel) :
    readString fuel (s.flatMap writeChar ++ '"' :: rest) = some (s, rest) := by
  induction s generalizing fuel with
  | nil =>
    obtain ⟨fuel, rfl⟩ : ∃ n, fuel = n + 1 := ⟨fuel - 1, by omega⟩
    rw [flatMap_nil, nil_append, readString, if_pos rfl]
  | cons c s ih =>
    have hc := one_le_length_writeChar c
    rw [flatMap_cons, length_append] at h
    obtain ⟨fuel, rfl⟩ : ∃ n, fuel = n + 1 := ⟨fuel - 1, by omega⟩
    rw [flatMap_cons, append_assoc, readString_writeChar, ih (by omega)]
    rfl

/-! ## Values -/

def Ends (rest : List Char) : Prop := ∀ c, rest.head? = some c → isNumberChar c = false

theorem ends_nil : Ends [] := fun _ h => absurd h (by simp)

variable {rest : List Char}

theorem ends_cons {c : Char} (h : isNumberChar c = false) : Ends (c :: rest) :=
  fun _ heq => some.inj heq ▸ h

theorem readNumber_chars (n : Literal) (h : Ends rest) :
    readNumber (n.chars ++ rest) = some (n, rest) := by
  have htake : (n.chars ++ rest).takeWhile isNumberChar = n.chars := by
    rw [takeWhile_append_of_pos n.number]
    cases rest with
    | nil => rw [takeWhile_nil, append_nil]
    | cons c rest => rw [takeWhile_cons_of_neg (by rw [h c rfl]; simp), append_nil]
  have hdrop : (n.chars ++ rest).dropWhile isNumberChar = rest := by
    rw [dropWhile_append_of_pos n.number]
    cases rest with
    | nil => rfl
    | cons c rest => rw [dropWhile_cons_of_neg (by rw [h c rfl]; simp)]
  rw [readNumber, dif_neg (by rw [htake]; exact n.ne_nil)]
  simp only [htake, hdrop]

mutual

/-- The value with the fields of its objects in the order of their keys. -/
def canon : Json Literal → Json Literal
  | .arr items => .arr (canonItems items)
  | .obj fields => .obj (collect (canonFields fields))
  | v => v

def canonItems : List (Json Literal) → List (Json Literal)
  | [] => []
  | v :: items => canon v :: canonItems items

def canonFields : List (String × Json Literal) → List (String × Json Literal)
  | [] => []
  | (key, v) :: fields => (key, canon v) :: canonFields fields

end

theorem skipBlank_cons {c : Char} (h : isBlank c = false) :
    skipBlank (c :: rest) = c :: rest := by
  rw [skipBlank, dropWhile_cons_of_neg (by rw [h]; simp)]

theorem encode_cons (v : Json Literal) : ∃ c cs, encode v = c :: cs ∧ isBlank c = false ∧
    c ≠ ']' ∧ c ≠ '}' := by
  cases v with
  | null => exact ⟨'n', _, rfl, rfl, by decide, by decide⟩
  | bool b => cases b <;> exact ⟨_, _, rfl, rfl, by decide, by decide⟩
  | num n =>
    obtain ⟨chars, hne, hnumber⟩ := n
    cases chars with
    | nil => exact absurd rfl hne
    | cons c cs =>
      have hc := hnumber c mem_cons_self
      refine ⟨c, cs, rfl, ?_, ?_, ?_⟩
      · by_contra hblank
        simp only [isBlank, Bool.not_eq_false, Bool.or_eq_true, beq_iff_eq] at hblank
        rcases hblank with ((rfl | rfl) | rfl) | rfl <;> exact absurd hc (by decide)
      all_goals
        rintro rfl
        exact absurd hc (by decide)
  | str s => exact ⟨'"', _, rfl, rfl, by decide, by decide⟩
  | arr items => exact ⟨'[', _, rfl, rfl, by decide, by decide⟩
  | obj fields => exact ⟨'{', _, rfl, rfl, by decide, by decide⟩

section Steps

variable {fuel : Nat} {cs rest rest' key : List Char} {v : Json Literal}

theorem readItems_last (h : readValue fuel cs = some (v, ']' :: rest)) :
    readItems (fuel + 1) cs = some ([v], rest) := by
  rw [readItems, h]
  rfl

theorem readItems_more (h : readValue fuel cs = some (v, ',' :: rest)) :
    readItems (fuel + 1) cs = (readItems fuel rest).map fun q => (v :: q.1, q.2) := by
  rw [readItems, h]
  rfl

theorem readFields_last (hkey : readString cs.length cs = some (key, ':' :: rest))
    (h : readValue fuel rest = some (v, '}' :: rest')) :
    readFields (fuel + 1) ('"' :: cs) = some ([(String.ofList key, v)], rest') := by
  rw [readFields, skipBlank_cons rfl]
  change (readString cs.length cs).bind _ = _
  rw [hkey, bind_some]
  change (readValue fuel rest).bind _ = _
  rw [h]
  rfl

theorem readFields_more (hkey : readString cs.length cs = some (key, ':' :: rest))
    (h : readValue fuel rest = some (v, ',' :: rest')) :
    readFields (fuel + 1) ('"' :: cs) =
      (readFields fuel rest').map fun q => ((String.ofList key, v) :: q.1, q.2) := by
  rw [readFields, skipBlank_cons rfl]
  change (readString cs.length cs).bind _ = _
  rw [hkey, bind_some]
  change (readValue fuel rest).bind _ = _
  rw [h]
  rfl

end Steps

/-- `v` is read from its text, whatever follows. -/
def Reads (v : Json Literal) : Prop :=
  ∀ fuel rest, (encode v).length ≤ fuel → Ends rest →
    readValue fuel (encode v ++ rest) = some (canon v, rest)

theorem readItems_encode {items : List (Json Literal)} (hne : items ≠ [])
    (hitems : ∀ v ∈ items, Reads v) (rest : List Char) {fuel : Nat}
    (h : (writeList (encodeItems items)).length + 1 ≤ fuel) :
    readItems fuel (writeList (encodeItems items) ++ ']' :: rest) = some (canonItems items, rest) := by
  induction items generalizing fuel with
  | nil => exact absurd rfl hne
  | cons v items ih =>
    obtain ⟨hv, hitems⟩ := forall_mem_cons.mp hitems
    obtain ⟨fuel, rfl⟩ : ∃ n, fuel = n + 1 := ⟨fuel - 1, by omega⟩
    cases items with
    | nil =>
      rw [encodeItems, encodeItems, writeList] at h ⊢
      exact readItems_last (hv fuel _ (by omega) (ends_cons rfl))
    | cons w items =>
      have hlist : writeList (encodeItems (v :: w :: items)) =
          encode v ++ ',' :: writeList (encodeItems (w :: items)) := rfl
      rw [hlist, length_append, length_cons] at h
      rw [hlist, append_assoc, cons_append, readItems_more (hv fuel _ (by omega) (ends_cons rfl)),
        ih (cons_ne_nil _ _) hitems (by omega)]
      rfl

theorem readFields_encode {fields : List (String × Json Literal)} (hne : fields ≠ [])
    (hfields : ∀ key v, (key, v) ∈ fields → Reads v) (rest : List Char) {fuel : Nat}
    (h : (writeList ((encodeFields fields).map fun f =>
      writeString f.1.toList ++ ':' :: f.2)).length + 1 ≤ fuel) :
    readFields fuel (writeList ((encodeFields fields).map fun f =>
      writeString f.1.toList ++ ':' :: f.2) ++ '}' :: rest) =
      some (canonFields fields, rest) := by
  induction fields generalizing fuel with
  | nil => exact absurd rfl hne
  | cons f fields ih =>
    obtain ⟨key, v⟩ := f
    have hv := hfields key v mem_cons_self
    obtain ⟨fuel, rfl⟩ : ∃ n, fuel = n + 1 := ⟨fuel - 1, by omega⟩
    -- the key, and what stands after it
    have hkey : ∀ tail : List Char,
        writeString key.toList ++ tail = '"' :: (key.toList.flatMap writeChar ++ '"' :: tail) := by
      intro tail
      simp [writeString]
    have hread : ∀ tail : List Char,
        readString (key.toList.flatMap writeChar ++ '"' :: tail).length
          (key.toList.flatMap writeChar ++ '"' :: tail) = some (key.toList, tail) :=
      fun tail => readString_writeString key.toList tail (by simp)
    cases fields with
    | nil =>
      rw [encodeFields, encodeFields, map_cons, map_nil, writeList] at h ⊢
      rw [length_append, length_cons] at h
      dsimp only at h
      rw [append_assoc, cons_append, hkey,
        readFields_last (hread _) (hv fuel _ (by omega) (ends_cons rfl)), String.ofList_toList]
      rfl
    | cons g fields =>
      have hlist : writeList ((encodeFields ((key, v) :: g :: fields)).map fun f =>
          writeString f.1.toList ++ ':' :: f.2) =
          writeString key.toList ++ ':' :: encode v ++ ',' ::
            writeList ((encodeFields (g :: fields)).map fun f =>
              writeString f.1.toList ++ ':' :: f.2) := rfl
      rw [hlist] at h ⊢
      simp only [length_append, length_cons] at h
      rw [append_assoc, append_assoc, cons_append, cons_append, hkey,
        readFields_more (hread _) (hv fuel _ (by omega) (ends_cons rfl)),
        ih (cons_ne_nil _ _) (fun k w hmem => hfields k w (mem_cons_of_mem _ hmem))
          (by omega), String.ofList_toList]
      rfl

theorem head_writeList {text : List Char} {texts : List (List Char)} {c : Char} {cs : List Char}
    (h : text = c :: cs) : ∃ tail, writeList (text :: texts) = c :: tail := by
  subst h
  cases texts with
  | nil => exact ⟨cs, rfl⟩
  | cons t texts => exact ⟨_, rfl⟩

theorem reads (v : Json Literal) : Reads v := by
  induction v using Json.ind with
  | null =>
    intro fuel rest h _
    obtain ⟨fuel, rfl⟩ : ∃ n, fuel = n + 1 := ⟨fuel - 1, by simp [encode] at h; omega⟩
    rfl
  | bool b =>
    intro fuel rest h _
    cases b <;>
    · obtain ⟨fuel, rfl⟩ : ∃ n, fuel = n + 1 := ⟨fuel - 1, by simp [encode] at h; omega⟩
      rfl
  | num n =>
    intro fuel rest h hends
    rw [encode] at h ⊢
    have hread := readNumber_chars n hends
    obtain ⟨chars, hne, hnumber⟩ := n
    cases chars with
    | nil => exact absurd rfl hne
    | cons c cs =>
      obtain ⟨fuel, rfl⟩ : ∃ n, fuel = n + 1 := ⟨fuel - 1, by simp at h; omega⟩
      have hc := hnumber c mem_cons_self
      have hblank : isBlank c = false := by
        by_contra hblank
        simp only [isBlank, Bool.not_eq_false, Bool.or_eq_true, beq_iff_eq] at hblank
        rcases hblank with ((rfl | rfl) | rfl) | rfl <;> exact absurd hc (by decide)
      have hne : ∀ d, isNumberChar d = false → c ≠ d := by
        rintro d hd rfl
        rw [hc] at hd
        cases hd
      rw [cons_append] at hread ⊢
      rw [readValue, skipBlank_cons hblank]
      dsimp only
      rw [if_neg (hne _ rfl), if_neg (hne _ rfl), if_neg (hne _ rfl), if_neg (hne _ rfl),
        if_neg (hne _ rfl), if_neg (hne _ rfl), hread]
      rfl
  | str s =>
    intro fuel rest h _
    obtain ⟨fuel, rfl⟩ : ∃ n, fuel = n + 1 := ⟨fuel - 1, by simp [encode, writeString] at h; omega⟩
    have htext : encode (.str s) ++ rest = '"' :: (s.toList.flatMap writeChar ++ '"' :: rest) := by
      simp [encode, writeString]
    rw [htext, readValue, skipBlank_cons rfl]
    dsimp only
    rw [if_pos rfl, readString_writeString s.toList rest (by simp), map_some,
      String.ofList_toList]
    rfl
  | arr items ih =>
    intro fuel rest h _
    rw [encode, writeArray] at h ⊢
    simp only [cons_append, length_cons, length_append, length_nil] at h
    obtain ⟨fuel, rfl⟩ : ∃ n, fuel = n + 1 := ⟨fuel - 1, by omega⟩
    rw [cons_append, cons_append, append_assoc, singleton_append, readValue, skipBlank_cons rfl]
    dsimp only
    rw [if_neg (by decide), if_pos rfl]
    cases items with
    | nil => rfl
    | cons v items =>
      obtain ⟨c, cs, hv, hblank, hclose, -⟩ := encode_cons v
      obtain ⟨tail, htail⟩ := @head_writeList _ (encodeItems items) _ _ hv
      have hlist : writeList (encodeItems (v :: items)) = c :: tail := htail
      have hopen : (skipBlank (writeList (encodeItems (v :: items)) ++ ']' :: rest)).head? ≠ some ']' := by
        rw [hlist, cons_append, skipBlank_cons hblank]
        exact fun heq => hclose (some.inj heq)
      rw [if_neg hopen, readItems_encode (cons_ne_nil v items) ih rest (by omega)]
      rfl
  | obj fields ih =>
    intro fuel rest h _
    rw [encode, writeObject] at h ⊢
    simp only [cons_append, length_cons, length_append, length_nil] at h
    obtain ⟨fuel, rfl⟩ : ∃ n, fuel = n + 1 := ⟨fuel - 1, by omega⟩
    rw [cons_append, cons_append, append_assoc, singleton_append, readValue, skipBlank_cons rfl]
    dsimp only
    rw [if_neg (by decide), if_neg (by decide), if_pos rfl]
    cases fields with
    | nil => rfl
    | cons f fields =>
      obtain ⟨key, v⟩ := f
      have hopen : (skipBlank (writeList ((encodeFields ((key, v) :: fields)).map fun f =>
          writeString f.1.toList ++ ':' :: f.2) ++ '}' :: rest)).head? ≠ some '}' := by
        rw [encodeFields, map_cons]
        obtain ⟨tail, htail⟩ := @head_writeList _ ((encodeFields fields).map fun f =>
          writeString f.1.toList ++ ':' :: f.2) '"' _ (rfl : writeString key.toList ++ ':' :: encode v = _)
        rw [htail, cons_append, skipBlank_cons rfl]
        exact fun heq => absurd (some.inj heq) (by decide)
      rw [if_neg hopen, readFields_encode (cons_ne_nil _ fields) ih rest (by omega)]
      rfl

theorem decode_encode (v : Json Literal) : decode (encode v) = some (canon v) := by
  have h := reads v (encode v).length [] le_rfl ends_nil
  rw [append_nil] at h
  rw [decode, h]
  rfl

theorem foldl_set_eq {α : Type} {fields done : List (String × α)} (h : Assoc.Sorted (done ++ fields)) :
    fields.foldl (fun l f => Assoc.set f.1 f.2 l) done = done ++ fields := by
  induction fields generalizing done with
  | nil => simp
  | cons f fields ih =>
    have hassoc : done ++ f :: fields = done ++ [f] ++ fields := by simp
    have hset : Assoc.set f.1 f.2 done = done ++ [f] := by
      refine Assoc.set_eq_append fun g hg => ?_
      exact (pairwise_append.mp h).2.2 g hg f mem_cons_self
    rw [foldl_cons, hset, ih (by rwa [← hassoc]), ← hassoc]

theorem canon_of_wf {v : Json Literal} (h : v.wf) : canon v = v := by
  induction v using Json.ind with
  | arr items ih =>
    rw [Json.wf, Json.wfItems_iff] at h
    rw [canon]
    congr 1
    induction items with
    | nil => rfl
    | cons v items iht =>
      obtain ⟨hv, hitems⟩ := forall_mem_cons.mp h
      rw [canonItems, ih v mem_cons_self hv, iht (fun w hw => ih w (mem_cons_of_mem v hw)) hitems]
  | obj fields ih =>
    rw [Json.wf_obj] at h
    have hfields : canonFields fields = fields := by
      obtain ⟨-, h⟩ := h
      induction fields with
      | nil => rfl
      | cons f fields iht =>
        obtain ⟨key, v⟩ := f
        obtain ⟨hv, hrest⟩ := forall_mem_cons.mp h
        rw [canonFields, ih key v mem_cons_self hv,
          iht (fun k w hmem => ih k w (mem_cons_of_mem _ hmem)) hrest]
    rw [canon, hfields, collect, @foldl_set_eq _ fields [] h.1, nil_append]
  | _ => rfl

end JsonText

end Aegis
