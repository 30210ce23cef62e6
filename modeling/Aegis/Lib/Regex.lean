import Mathlib.Data.List.Basic

/-!
# Lib.Regex

Regular expressions that prefer the leftmost match, and of those at one place the one that
backtracking finds first.

A match is the number of characters it takes. `lens` lists the matches at one place in the order of
preference, so that the first is the one a search returns. `replaceAll` replaces every match, from
left to right; the text it takes is one that no match is empty on.
-/

namespace Aegis

inductive Regex where
  /-- One character. -/
  | one (p : Char → Bool)
  /-- Characters that meet `p`, between `lo` and `hi` of them, as many as there are. -/
  | many (p : Char → Bool) (lo : Nat) (hi : Option Nat)
  /-- `\b`. -/
  | boundary
  | seq (r s : Regex)
  | alt (r s : Regex)

namespace Regex

/-- `\w`. -/
def isWord (c : Char) : Bool := c.isAlphanum || c == '_'

/-- The last of the first `n` characters, or the one before them. -/
def before (prev : Option Char) (cs : List Char) : Nat → Option Char
  | 0 => prev
  | n + 1 => cs[n]?

/-- The matches at the start of `cs`, after the character `prev`. -/
def lens : Regex → Option Char → List Char → List Nat
  | .one p, _, cs => if cs.head?.any p then [1] else []
  | .many p lo hi, _, cs =>
    let most := match hi with
      | some hi => min hi (cs.takeWhile p).length
      | none => (cs.takeWhile p).length
    (List.range' lo (most + 1 - lo)).reverse
  | .boundary, prev, cs => if prev.any isWord != cs.head?.any isWord then [0] else []
  | .seq r s, prev, cs =>
    (r.lens prev cs).flatMap fun n => (s.lens (before prev cs n) (cs.drop n)).map (n + ·)
  | .alt r s, prev, cs => r.lens prev cs ++ s.lens prev cs

/-- The first match at the start of `cs`. -/
def matchLen (r : Regex) (prev : Option Char) (cs : List Char) : Option Nat := (r.lens prev cs).head?

/-- `replaceAll`, after `prev`, with `skip` characters of a match still to drop. -/
def replaceFrom (r : Regex) (repl : List Char) : Nat → Option Char → List Char → List Char
  | _, _, [] => []
  | skip + 1, _, c :: cs => replaceFrom r repl skip (some c) cs
  | 0, prev, c :: cs =>
    match r.matchLen prev (c :: cs) with
    | some (n + 1) => repl ++ replaceFrom r repl n (some c) cs
    | _ => c :: replaceFrom r repl 0 (some c) cs

/-- Every match is replaced by `repl`. -/
def replaceAll (r : Regex) (repl s : String) : String :=
  String.ofList (r.replaceFrom repl.toList 0 none s.toList)

/-- There is a match in `cs` or at its end. -/
def searchFrom (r : Regex) : Option Char → List Char → Bool
  | prev, [] => (r.matchLen prev []).isSome
  | prev, c :: cs => (r.matchLen prev (c :: cs)).isSome || searchFrom r (some c) cs

/-- There is a match in a text. -/
def matchString (r : Regex) (s : String) : Bool := r.searchFrom none s.toList

/-- `(?i)`: an ASCII letter stands for every letter that differs from it in case. -/
def foldCase (c : Char) : Char :=
  if c == '\u212a' then 'k' else if c == '\u017f' then 's' else c.toLower

/-- `(?i)` of the literal `s`. -/
def literal (s : List Char) : Regex :=
  match s with
  | [] => .many (fun _ => false) 0 none
  | [c] => .one (foldCase · == c)
  | c :: s => .seq (.one (foldCase · == c)) (literal s)

/-- The alternatives in their order. -/
def oneOf (r : Regex) : List Regex → Regex
  | [] => r
  | s :: rest => .alt r (oneOf s rest)

/-- The parts in their order. -/
def inOrder (r : Regex) : List Regex → Regex
  | [] => r
  | s :: rest => .seq r (inOrder s rest)

/-- `\s`. -/
def isBlank (c : Char) : Bool := c == ' ' || c == '\t' || c == '\n' || c == '\x0c' || c == '\r'

variable {r : Regex} {repl cs : List Char} {skip : Nat} {prev : Option Char}

variable (r repl cs prev) in
theorem replaceFrom_eq_or_mem (h : skip = 0) :
    r.replaceFrom repl skip prev cs = cs ∨ ∀ c ∈ repl, c ∈ r.replaceFrom repl skip prev cs := by
  subst h
  induction cs generalizing prev with
  | nil => exact .inl rfl
  | cons c cs ih =>
    simp only [replaceFrom]
    split
    · exact .inr fun a ha => List.mem_append_left _ ha
    · rcases ih (some c) with hsame | hmem
      · exact .inl (by rw [hsame])
      · exact .inr fun a ha => List.mem_cons_of_mem c (hmem a ha)

end Regex

end Aegis
