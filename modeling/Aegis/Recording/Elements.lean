import Mathlib.Data.Rat.Defs

/-!
# Recording.Elements

The elements of a page as the recorder of `extension/src/content.ts` reads them: the selector that
it guesses, the key that an index is kept under, and what a snapshot stores.
-/

namespace Aegis

namespace ContentRecorder

inductive ScrollDirection where
  | up | down | left | right
deriving DecidableEq

inductive ScrollUnit where
  | pages | pixels
deriving DecidableEq

structure Rect where
  x : ℚ
  y : ℚ
  width : ℚ
  height : ℚ

/-- What `buildDomElementInfo` stores of an element as it is, normalized and redacted. -/
structure Description where
  text : Option String
  ariaLabel : Option String
  role : Option String
  placeholder : Option String
  name : Option String
  boundingRect : Rect

/-- An entry of a selector map. `stableSelector` is the selector again. -/
structure DomElementInfo extends Description where
  index : Nat
  tagName : String
  selector : String

/-- What the recorder reads of an element at one moment. Tags and types are in lower case, and `ε`
names the elements of a page. -/
structure ElementView (ε : Type) where
  id : String
  testId : Option String
  tagName : String
  classList : List String
  parentTag : Option String
  siblings : Nat
  position : Nat
  ariaLabel : Option String
  effectiveRole : Option String
  /-- `textContent`, trimmed and with runs of white space made one blank. -/
  textContent : String
  description : Description
  /-- `getAttribute('type')`. -/
  typeAttribute : Option String
  /-- The property `type` of a control. -/
  type : String
  form : Option ε
  href : Option String
  roleAttribute : Option String
  hasOnclick : Bool
  contentEditable : Bool
  scrollable : Bool

section Selectors

variable {ε : Type} (escapeIdentifier : String → String)

/-- `/[a-f0-9]{8,}/i`, from a character that so many of the kind stand before. -/
def hasHexRun (before : Nat) : List Char → Bool
  | [] => false
  | c :: rest =>
    if c.isDigit || ('a' ≤ c && c ≤ 'f') || ('A' ≤ c && c ≤ 'F') then
      before + 1 == 8 || hasHexRun (before + 1) rest
    else hasHexRun 0 rest

def getStableClasses (v : ElementView ε) : String :=
  ".".intercalate
    ((v.classList.filter fun c => c ≠ "" && !hasHexRun 0 c.toList).map escapeIdentifier)

def inferSelector (v : ElementView ε) : String :=
  if v.id ≠ "" then "#" ++ escapeIdentifier v.id
  else if v.testId.getD "" ≠ "" then
    "[data-testid=\"" ++ escapeIdentifier (v.testId.getD "") ++ "\"]"
  else if getStableClasses escapeIdentifier v ≠ "" then
    v.tagName ++ "." ++ getStableClasses escapeIdentifier v
  else
    let nth := if 1 < v.siblings then ":nth-of-type(" ++ toString v.position ++ ")" else ""
    match v.parentTag with
    | some parent =>
      if parent = "body" ∨ parent = "html" then v.tagName ++ nth
      else parent ++ " > " ++ v.tagName ++ nth
    | none => v.tagName ++ nth

def charCodes (text : String) : List Nat :=
  text.toList.flatMap fun c =>
    if c.toNat < 0x10000 then [c.toNat]
    else [0xd800 + (c.toNat - 0x10000) / 0x400, 0xdc00 + (c.toNat - 0x10000) % 0x400]

def fingerprint (codes : List Nat) : UInt32 :=
  codes.foldl (fun h code => (h ^^^ UInt32.ofNat code) * 0x01000193) 0x811c9dc5

/-- `toString(16).padStart(8, '0')`. -/
def hex (n : UInt32) : String :=
  let digits := Nat.toDigits 16 n.toNat
  String.ofList (List.replicate (8 - digits.length) '0' ++ digits)

def elementIdentityKey (v : ElementView ε) (selector : String) : String :=
  let semantic := "\x00".intercalate
    [v.ariaLabel.getD "", v.effectiveRole.getD "", v.textContent]
  selector ++ "\x00" ++ hex (fingerprint (charCodes semantic))

end Selectors

def buildDomElementInfo {ε : Type} (v : ElementView ε) (index : Nat) (selector : String) : DomElementInfo :=
  { v.description with index := index, tagName := v.tagName, selector := selector }

section Kinds

variable {ε : Type} (v : ElementView ε)

def isInteractable : Bool :=
  ["button", "a", "input", "select", "textarea"].contains v.tagName ||
    v.roleAttribute == some "button" || v.roleAttribute == some "link" || v.hasOnclick ||
    v.contentEditable || v.scrollable

def elementWillNavigate : Bool :=
  if v.tagName = "a" then
    match v.href with
    | some href => href ≠ "#" && !href.startsWith "javascript:"
    | none => false
  else if v.tagName = "input" then (v.type = "submit" || v.type = "image") && v.form.isSome
  else if v.tagName = "button" then
    -- `explicitType` is undefined where the attribute is missing, and compared with null
    (v.typeAttribute = some "submit" || v.typeAttribute = some "") && v.form.isSome
  else false

def isFormSubmitter : Bool :=
  if v.tagName = "button" then
    v.typeAttribute = some "submit" || v.typeAttribute = none || v.typeAttribute = some ""
  else if v.tagName = "input" then v.type = "submit" || v.type = "image"
  else false

def isEnterSubmissionElement : Bool :=
  if v.tagName = "input" ∨ v.tagName = "textarea" then
    if v.form.isSome then v.type ≠ "button" && v.type ≠ "submit" && v.type ≠ "reset"
    else v.tagName = "input" &&
      ["text", "search", "email", "url", "tel", "password", "number"].contains v.type
  else false

end Kinds

end ContentRecorder

end Aegis
