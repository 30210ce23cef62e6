import Mathlib
import Aegis.Recording.JsonText
import Aegis.Recording.Sanitize

/-!
# Llm.Redact

What `llm/redact/redact.go` makes of a text: JSON in it is decoded and walked, and patterns are
replaced in what is left.

A text in a text is followed to a depth; it is shorter than the text it is in, so that past the
length of the text the depth makes no difference.
-/

namespace Aegis

namespace Redact

open Regex (inOrder oneOf literal foldCase)
open Sanitize (toLower contains)

def redactedPlaceholder : String := "[REDACTED]"

variable (u : Unicode)

def isCredentialField (key : String) : Bool :=
  let normalized := String.ofList ((toLower u key).toList.filter fun c =>
    !(c == '-' || c == '_' || c == ' '))
  !(["inputtokens", "outputtokens", "totaltokens", "maxtokens"].contains normalized) &&
    ["password", "passwd", "pwd", "secret", "token", "apikey", "authorization", "cookie",
      "setcookie"].any (contains normalized)

/-- `json.Unmarshal` of a number: what `float64` makes of it, `none` when it is out of range. -/
structure Numbers where
  read : Literal → Option Literal

variable (numbers : Numbers)

mutual

def readNumbers : Json Literal → Option (Json Literal)
  | .null => some .null
  | .bool b => some (.bool b)
  | .num n => (numbers.read n).map .num
  | .str s => some (.str s)
  | .arr items => (readItemNumbers items).map .arr
  | .obj fields => (readFieldNumbers fields).map .obj

def readItemNumbers : List (Json Literal) → Option (List (Json Literal))
  | [] => some []
  | v :: items => (readNumbers v).bind fun v => (readItemNumbers items).map fun items => v :: items

def readFieldNumbers : List (String × Json Literal) → Option (List (String × Json Literal))
  | [] => some []
  | (key, v) :: fields =>
    (readNumbers v).bind fun v => (readFieldNumbers fields).map fun fields => (key, v) :: fields

end

mutual

def nesting : Json Literal → Nat
  | .null => 0
  | .bool _ => 0
  | .num _ => 0
  | .str _ => 0
  | .arr items => nestingItems items + 1
  | .obj fields => nestingFields fields + 1

def nestingItems : List (Json Literal) → Nat
  | [] => 0
  | v :: items => max (nesting v) (nestingItems items)

def nestingFields : List (String × Json Literal) → Nat
  | [] => 0
  | (_, v) :: fields => max (nesting v) (nestingFields fields)

end

/-- The depth that `json.Unmarshal` goes to. -/
def maxNestingDepth : Nat := 10000

def unmarshal (text : List Char) : Option (Json Literal) :=
  (JsonText.decode text).bind fun v =>
    if nesting v ≤ maxNestingDepth then readNumbers numbers v else none

section Walk

variable (redact : String → String)

mutual

def walkValue : Json Literal → Json Literal
  | .null => .null
  | .bool b => .bool b
  | .num n => .num n
  | .str s => .str (redact s)
  | .arr items => .arr (walkItems items)
  | .obj fields => .obj (walkFields fields)

def walkItems : List (Json Literal) → List (Json Literal)
  | [] => []
  | v :: items => walkValue v :: walkItems items

def walkFields : List (String × Json Literal) → List (String × Json Literal)
  | [] => []
  | (key, v) :: fields =>
    (key, if isCredentialField u key then .str redactedPlaceholder else walkValue v) ::
      walkFields fields

end

def walkRedactAny : Json Literal → Json Literal
  | .arr items => .arr (walkItems u redact items)
  | .obj fields => .obj (walkFields u redact fields)
  | v => v

def redactJSON (text : List Char) : Option (List Char) :=
  (unmarshal numbers text).bind fun decoded =>
    let before := JsonText.encode decoded
    let after := JsonText.encode (walkRedactAny u redact decoded)
    if before = after then none else some after

end Walk

inductive Mode where
  | outside
  | inString
  | escaped
deriving DecidableEq

/-- What `redactBalancedJSONFragments` knows of a fragment: nothing before one starts. -/
inductive Scan where
  | idle
  | inside (stack : List Char) (mode : Mode)
deriving DecidableEq

def opens (c : Char) : Bool := c = '\x7b' || c = '['

def pairs (left right : Char) : Bool :=
  (left = '\x7b' && right = '\x7d') || (left = '[' && right = ']')

def next : Scan → Char → Scan
  | .idle, c => if opens c then .inside [c] .outside else .idle
  | .inside stack .escaped, _ => .inside stack .inString
  | .inside stack .inString, c =>
    if c = '\\' then .inside stack .escaped
    else if c = '"' then .inside stack .outside
    else .inside stack .inString
  | .inside stack .outside, c =>
    if c = '"' then .inside stack .inString
    else if opens c then .inside (c :: stack) .outside
    else if c = '\x7d' || c = ']' then
      match stack with
      | [] => .idle
      | left :: rest =>
        if !pairs left c || rest.isEmpty then .idle else .inside rest .outside
    else .inside stack .outside

def closes : Scan → Char → Bool
  | .inside [left] .outside, c => pairs left c
  | _, _ => false

/-- `redactBalancedJSONFragments`, within a fragment whose text is `start`, the last character
first. -/
def fragments (replace : List Char → List Char) : Scan → List Char → List Char → List Char
  | _, start, [] => start.reverse
  | s, start, c :: cs =>
    match next s c with
    | .idle =>
      (if closes s c then replace (c :: start).reverse else (c :: start).reverse) ++
        fragments replace .idle [] cs
    | .inside stack mode => fragments replace (.inside stack mode) (c :: start) cs

def redactBalancedJSONFragments (redact : String → String) (value : List Char) : List Char :=
  fragments (fun text => (redactJSON u numbers redact text).getD text) .idle [] value

def isQuote (c : Char) : Bool := c == '"' || c == '\''

/-- `\s*[:=]\s*`. -/
def separatorPattern : Regex :=
  inOrder (.many Regex.isBlank 0 none) [.one (fun c => c == ':' || c == '='),
    .many Regex.isBlank 0 none]

def headerPattern : Regex :=
  inOrder .boundary [oneOf (literal "authorization".toList)
      (["proxy-authorization", "cookie", "set-cookie"].map fun s => literal s.toList),
    separatorPattern, .many (fun c => !(c == '\r' || c == '\n')) 1 none]

def assignmentPattern : Regex :=
  inOrder (oneOf (literal "password".toList)
      ((["passwd", "pwd", "secret", "token"].map fun s => literal s.toList) ++
        [inOrder (literal "api".toList)
          [.many (fun c => c == '_' || c == '-') 0 (some 1), literal "key".toList],
        literal "authorization".toList]))
    [separatorPattern, .many isQuote 0 (some 1),
      .many (fun c => !(isQuote c || Regex.isBlank c || c == '<' || c == '>')) 1 none,
      .many isQuote 0 (some 1)]

def secretPatterns : List Regex :=
  [headerPattern, assignmentPattern, Sanitize.cardNumberPattern, Sanitize.emailPattern]

def isKeyChar (c : Char) : Bool := (foldCase c).isAlphanum || c == '_' || c == '-'

def isHex (c : Char) : Bool := c.isDigit || ('a' ≤ foldCase c && foldCase c ≤ 'f')

def takeKey : List Char → List Char × List Char
  | '\\' :: e :: a :: b :: c :: d :: rest =>
    if foldCase e == 'u' && [a, b, c, d].all isHex then
      ('\\' :: e :: a :: b :: c :: d :: (takeKey rest).1, (takeKey rest).2)
    else ([], '\\' :: e :: a :: b :: c :: d :: rest)
  | c :: rest => if isKeyChar c then (c :: (takeKey rest).1, (takeKey rest).2) else ([], c :: rest)
  | [] => ([], [])

def skipQuote : List Char → List Char
  | '\\' :: c :: rest => if isQuote c then rest else '\\' :: c :: rest
  | c :: rest => if isQuote c then rest else c :: rest
  | [] => []

/-- A match of `jsonLikeKeyPattern` at the start: the key, and what follows the colon. -/
def matchKey (cs : List Char) : Option (List Char × List Char) :=
  let (key, rest) := takeKey (skipQuote cs)
  if key.isEmpty then none
  else
    match (skipQuote rest).dropWhile Regex.isBlank with
    | ':' :: rest => some (key, rest)
    | _ => none

/-- The matches of `jsonLikeKeyPattern`: where each starts, its key, and where it ends. -/
def keyMatches : Nat → Nat → List Char → List (Nat × List Char × Nat)
  | _, _, [] => []
  | i, skip + 1, _ :: cs => keyMatches (i + 1) skip cs
  | i, 0, c :: cs =>
    match matchKey (c :: cs) with
    | some (key, rest) =>
      (i, key, i + (cs.length + 1 - rest.length)) ::
        keyMatches (i + 1) (cs.length - rest.length) cs
    | none => keyMatches (i + 1) 0 cs

def decodeJSONKey (key : List Char) : String :=
  match JsonText.decode ('"' :: key ++ ['"']) with
  | some (.str decoded) => decoded
  | _ => String.ofList key

def quotedLength (quote : Char) : Bool → List Char → Nat
  | _, [] => 0
  | escaped, c :: cs =>
    if escaped then quotedLength quote false cs + 1
    else if c = '\\' then quotedLength quote true cs + 1
    else if c = quote then 1
    else if c = '\r' || c = '\n' then 0
    else quotedLength quote false cs + 1

def bracketLength : Scan → List Char → Nat
  | _, [] => 0
  | s, c :: cs =>
    match next s c with
    | .idle => if closes s c then 1 else 0
    | .inside stack mode => bracketLength (.inside stack mode) cs + 1

/-- `credentialValueEnd`, from where the value starts. -/
def credentialValueLength : List Char → Nat
  | [] => 0
  | c :: cs =>
    if isQuote c then quotedLength c false cs + 1
    else if opens c then bracketLength (.inside [c] .outside) cs + 1
    else ((c :: cs).takeWhile fun d => !([',', '\x7d', ']', '\r', '\n'].contains d)).length

def redactAssignment (value : List Char) (done : List Char × Nat) : Nat × List Char × Nat → List Char × Nat
  | (start, key, stop) =>
    if start < done.2 || !isCredentialField u (decodeJSONKey key) then done
    else
      let valueStart := stop + ((value.drop stop).takeWhile fun c => c == ' ' || c == '\t').length
      let length := credentialValueLength (value.drop valueStart)
      if length = 0 then done
      else
        (done.1 ++ (value.take valueStart).drop done.2 ++
          '"' :: redactedPlaceholder.toList ++ ['"'], valueStart + length)

def redactCredentialAssignments (value : List Char) : List Char :=
  let done := (keyMatches 0 0 value).foldl (redactAssignment u value) ([], 0)
  done.1 ++ value.drop done.2

def redactPatterns (value : List Char) : String :=
  String.ofList (redactCredentialAssignments u
    (secretPatterns.foldl (fun s pattern => pattern.replaceAll redactedPlaceholder s)
      (String.ofList value)).toList)

def redactWhole (redact : String → String) (s : String) : Option String :=
  let trimmed := (trimSpace s).toList
  if trimmed.head?.any opens then
    (unmarshal numbers trimmed).map fun _ =>
      match redactJSON u numbers redact trimmed with
      | some after => String.ofList after
      | none => s
  else none

def redactString : Nat → String → String
  | 0, s => s
  | depth + 1, s =>
    (redactWhole u numbers (redactString depth) s).getD
      (redactPatterns u (redactBalancedJSONFragments u numbers (redactString depth) s.toList))

end Redact

end Aegis
