import Aegis.Recording.Json
import Aegis.Recording.Sanitize
import Mathlib.Algebra.Order.BigOperators.Group.List

/-!
# Gate.SemanticNodes

The tree in which recorded selectors are matched, of `rule/selector_evidence.go`, and what
`rule/selector_candidates.go` reads of the evidence of sanitization in it.

A recorded node is what is read of its object: a text that is not there is empty, and attributes that
are not objects are left out. The evidence is any JSON value.
-/

namespace Aegis

open List Option

namespace SemanticNodes

open Sanitize (equalFold toLower)

abbrev Attr := String × String

/-- `html.Node`. -/
inductive Html where
  | text (data : String)
  | element (tag : String) (attr : List Attr) (children : List Html)

structure Record (ν : Type) where
  type : String
  tagName : String
  text : String
  sanitization : Option (Json ν)
  rendered : Option (Option Bool)
  attributes : List Attr
  frameMatched : Bool
  frameStatus : String

mutual

inductive SemanticNode (ν : Type) where
  | other
  | node (record : Record ν) (children : ChildList ν)

inductive ChildList (ν : Type) where
  | absent
  | malformed
  | items (nodes : List (SemanticNode ν))

end

variable {ν : Type} (u : Unicode)

def recordedRendered : String := "data-aegis-recorded-rendered"
def recordedSanitizedMarkup : String := "data-aegis-recorded-sanitized-markup"
def recordedSanitizedContent : String := "data-aegis-recorded-sanitized-content"
def recordedSanitizedAttrs : String := "data-aegis-recorded-sanitized-attributes"
def recordedSanitizationUnknown : String := "data-aegis-recorded-sanitization-unknown"
def recordedNonRenderedSubtree : String := "data-aegis-recorded-nonrendered-subtree"

def isRecordedEvidenceAttribute (name : String) : Bool :=
  [recordedRendered, recordedSanitizedMarkup, recordedSanitizedContent, recordedSanitizedAttrs,
    recordedSanitizationUnknown, recordedNonRenderedSubtree].contains (toLower u (trimSpace name))

structure Recorded where
  markup : Bool
  content : Bool
  attributes : List String

/-- A name of `alteredAttributes`, as it is kept. -/
def alteredName (candidate : Json ν) : Option String :=
  let name := match candidate with
    | .str s => toLower u (trimSpace s)
    | _ => ""
  if name = "" || 128 < name.utf8ByteSize ||
      name.toList.any (fun c => " \t\r\n\"'<>\x60=".toList.contains c) then none
  else some name

def recordedField : String × Json ν → Option Recorded
  | ("markupAltered", item) =>
    match item with
    | .bool true => some ⟨true, false, []⟩
    | _ => none
  | ("contentOmitted", item) =>
    match item with
    | .bool true => some ⟨true, true, []⟩
    | _ => none
  | ("alteredAttributes", item) =>
    match item with
    | .arr values =>
      if values.isEmpty || 64 < values.length then none
      else (values.mapM (alteredName u)).map fun names => ⟨true, false, names⟩
    | _ => none
  | _ => none

def Recorded.and (e f : Recorded) : Recorded :=
  ⟨e.markup || f.markup, e.content || f.content, e.attributes ++ f.attributes⟩

/-- The evidence; `none` when it is malformed. -/
def recordedSanitization : Json ν → Option Recorded
  | .obj fields =>
    if fields.isEmpty then none
    else (fields.mapM (recordedField u)).map fun es => es.foldr Recorded.and ⟨false, false, []⟩
  | _ => none

/-- `appendFailClosedRecordedSanitization`. -/
def failClosed : List Attr :=
  [(recordedSanitizedMarkup, "true"), (recordedSanitizedContent, "true"), (recordedSanitizedAttrs, "*")]

def Recorded.attr (e : Recorded) : List Attr :=
  (if e.markup then [(recordedSanitizedMarkup, "true")] else []) ++
  (if e.content then [(recordedSanitizedContent, "true")] else []) ++
  (if e.attributes.isEmpty then []
    else [(recordedSanitizedAttrs, " ".intercalate (e.attributes.mergeSort (· ≤ ·)))])

def evidenceAttr : Option Recorded → List Attr
  | some e => e.attr
  | none => failClosed

def applyRecordedSanitizationEvidence (raw : Json ν) : List Attr :=
  evidenceAttr (recordedSanitization u raw)

def Record.tag (r : Record ν) : String := toLower u (trimSpace r.tagName)

def Record.ownAttr (r : Record ν) : List Attr :=
  (match r.sanitization with
    | some raw => applyRecordedSanitizationEvidence u raw
    | none => []) ++
  (if r.rendered = some (some false) then [(recordedRendered, "false")] else [])

def Record.pageAttr (r : Record ν) : List Attr :=
  (r.attributes.map fun a => (toLower u (trimSpace a.1), a.2)).filter fun a =>
    a.1 ≠ "" && !isRecordedEvidenceAttribute u a.1

/-- `recordedCapturedFrameChildren`, of children that are there. -/
def capturedFrameChildren (r : Record ν) : ChildList ν → Bool
  | .items nodes => nodes.isEmpty || (r.frameMatched && r.frameStatus = "captured")
  | _ => false

def frameAttr (r : Record ν) : ChildList ν → List Attr
  | .absent => []
  | children => if capturedFrameChildren r children then [] else failClosed

def Record.textAttr (r : Record ν) : List Attr :=
  (match r.sanitization with
    | some raw => applyRecordedSanitizationEvidence u raw
    | none => []) ++
  (if r.rendered.isSome then [(recordedNonRenderedSubtree, "true")] else [])

def childAttr : SemanticNode ν → Option Html → List Attr
  | .node r _, some (.text _) => r.textAttr u
  | _, some _ => []
  | _, none => failClosed

def Record.html (r : Record ν) (children : ChildList ν) (added : List Attr × List Html) : Option Html :=
  if r.type = "text" then some (.text r.text)
  else if r.type ≠ "element" || r.tag u = "" then none
  else if r.tag u = "iframe" then
    some (.element (r.tag u) (r.ownAttr u ++ r.pageAttr u ++ frameAttr r children) [])
  else some (.element (r.tag u) (r.ownAttr u ++ r.pageAttr u ++ added.1) added.2)

mutual

def semanticNodeToHTML : SemanticNode ν → Option Html
  | .other => none
  | .node r children => r.html u children (appendChildren children)

def appendChildren : ChildList ν → List Attr × List Html
  | .absent => ([], [])
  | .malformed => (failClosed, [])
  | .items nodes => appendNodes nodes

def appendNodes : List (SemanticNode ν) → List Attr × List Html
  | [] => ([], [])
  | n :: nodes =>
    (childAttr u n (semanticNodeToHTML n) ++ (appendNodes nodes).1,
      (semanticNodeToHTML n).toList ++ (appendNodes nodes).2)

end

def findAttr (attr : List Attr) (name : String) : Option Attr :=
  attr.find? fun a => equalFold a.1 name

def Html.attr : Html → List Attr
  | .text _ => []
  | .element _ attr _ => attr

def attrValue (node : Html) (name : String) : String :=
  match findAttr node.attr name with
  | some a => a.2
  | none => ""

structure Location where
  node : Html
  above : List Html

def isMarked (name : String) (node : Html) : Bool :=
  equalFold (trimSpace (attrValue node name)) "true"

def nodeOrAncestorHasUnknownSanitization (l : Location) : Bool :=
  (l.node :: l.above).any (isMarked recordedSanitizationUnknown)

def nodeSetsHaveUnknownSanitization (nodeSets : List (List Location)) : Bool :=
  nodeSets.any fun nodes => nodes.any nodeOrAncestorHasUnknownSanitization

mutual

def nodeSubtreeHasRecordedMarker (name : String) : Html → Bool
  | .text data => isMarked name (.text data)
  | .element tag attr children =>
    isMarked name (.element tag attr children) || childrenHaveRecordedMarker name children

def childrenHaveRecordedMarker (name : String) : List Html → Bool
  | [] => false
  | child :: children =>
    nodeSubtreeHasRecordedMarker name child || childrenHaveRecordedMarker name children

end

def nodeSetsContainSanitizedContent (nodeSets : List (List Location)) : Bool :=
  nodeSetsHaveUnknownSanitization nodeSets || nodeSets.any fun nodes => nodes.any fun l =>
      nodeSubtreeHasRecordedMarker recordedSanitizedContent l.node

def nodeSetsContainSanitizedMarkup (nodeSets : List (List Location)) : Bool :=
  nodeSetsHaveUnknownSanitization nodeSets || nodeSets.any fun nodes => nodes.any fun l =>
      nodeSubtreeHasRecordedMarker recordedSanitizedMarkup l.node

def alteredNames (node : Html) : List String :=
  fields (toLower u (attrValue node recordedSanitizedAttrs))

def nodeSetsHaveSanitizedAttribute (nodeSets : List (List Location)) (name : String) : Bool :=
  (toLower u (trimSpace name) == "class" && nodeSetsHaveUnknownSanitization nodeSets) ||
    nodeSets.any fun nodes => nodes.any fun l =>
      (alteredNames u l.node).any fun altered =>
        altered == "*" || altered == toLower u (trimSpace name)

/-! ## What is promised -/

structure Element (ν : Type) where
  record : Record ν
  children : ChildList ν
  location : Location

mutual

def elements (above : List Html) : SemanticNode ν → List (Element ν)
  | .other => []
  | .node r children =>
    match semanticNodeToHTML u (.node r children) with
    | some (.element tag attr nodes) =>
      ⟨r, children, ⟨.element tag attr nodes, above⟩⟩ ::
        (if r.tag u = "iframe" then [] else elementsOf (.element tag attr nodes :: above) children)
    | _ => []

def elementsOf (above : List Html) : ChildList ν → List (Element ν)
  | .items nodes => elementsOfNodes above nodes
  | _ => []

def elementsOfNodes (above : List Html) : List (SemanticNode ν) → List (Element ν)
  | [] => []
  | n :: nodes => elements above n ++ elementsOfNodes above nodes

end

def Record.evidence (r : Record ν) : List (Option Recorded) :=
  r.sanitization.toList.map (recordedSanitization u)

def childEvidence : SemanticNode ν → Option Html → List (Option Recorded)
  | .node r _, some (.text _) => r.evidence u
  | _, some _ => []
  | _, none => [none]

def childrenEvidence : ChildList ν → List (Option Recorded)
  | .absent => []
  | .malformed => [none]
  | .items nodes => nodes.flatMap fun n => childEvidence u n (semanticNodeToHTML u n)

def frameEvidence (r : Record ν) : ChildList ν → List (Option Recorded)
  | .absent => []
  | children => if capturedFrameChildren r children then [] else [none]

/-- The evidence that is attached to an element, to its texts or to its child list, in the order in
which it is recorded. -/
def Element.evidence (x : Element ν) : List (Option Recorded) :=
  x.record.evidence u ++ if x.record.tag u = "iframe" then frameEvidence x.record x.children
    else childrenEvidence u x.children

def Element.addedAttr (x : Element ν) : List Attr :=
  if x.record.tag u = "iframe" then frameAttr x.record x.children
  else (appendChildren u x.children).1

def evidenceNames : List String :=
  [recordedSanitizedMarkup, recordedSanitizedContent, recordedSanitizedAttrs, recordedSanitizationUnknown]

/-- The functions on node sets read all the evidence of the element. -/
structure Survives (x : Element ν) : Prop where
  malformed : none ∈ x.evidence u → ∀ nodeSets : List (List Location),
    x.location ∈ nodeSets.flatten → (∀ name, nodeSetsHaveSanitizedAttribute u nodeSets name = true) ∧
      nodeSetsContainSanitizedContent nodeSets = true ∧
      nodeSetsContainSanitizedMarkup nodeSets = true
  named : ∀ e, some e ∈ x.evidence u → ∀ nodeSets : List (List Location),
    x.location ∈ nodeSets.flatten → ∀ name,
      "*" ∈ e.attributes ∨ toLower u (trimSpace name) ∈ e.attributes →
        nodeSetsHaveSanitizedAttribute u nodeSets name = true
  omitted : ∀ e, some e ∈ x.evidence u → ∀ l : Location,
    l.node ∈ x.location.node :: x.location.above → ∀ nodeSets : List (List Location),
      l ∈ nodeSets.flatten → (e.content = true → nodeSetsContainSanitizedContent nodeSets = true) ∧
        (e.markup = true → nodeSetsContainSanitizedMarkup nodeSets = true)
  /-- What is read of an element under these names is not of the page. -/
  page : ∀ name ∈ evidenceNames, findAttr x.location.node.attr name =
    findAttr (x.record.ownAttr u ++ x.addedAttr u) name

def namesOf : Option Recorded → List String
  | some e => e.attributes
  | none => ["*"]

def Element.leadingNames (x : Element ν) : List String :=
  (((x.evidence u).map namesOf).find? fun names => !names.isEmpty).getD []

/-- The names that are read of an element have `*` or all that its evidence names among them. -/
def Covered (x : Element ν) : Prop :=
  ∀ p ∈ x.evidence u, ∀ n ∈ namesOf p,
    "*" ∈ (x.leadingNames u).flatMap fields ∨ n ∈ (x.leadingNames u).flatMap fields

/-- An attribute of the page that is named like evidence, but for the case, comes after one of the
element's own evidence. -/
def Unclaimed (x : Element ν) : Prop :=
  ∀ name ∈ evidenceNames, ∀ a ∈ x.record.pageAttr u, equalFold a.1 name = true →
    ∃ b ∈ x.record.ownAttr u, equalFold b.1 name = true

section Attributes

variable {u} {name : String} {x : Element ν} {p : Option Recorded}

theorem findAttr_eq_head? (attr : List Attr) :
    findAttr attr name = (attr.filter fun a => equalFold a.1 name).head? := by
  rw [findAttr, head?_filter]

theorem evidenceNames_cases (h : name ∈ evidenceNames) : name = recordedSanitizedMarkup ∨
    name = recordedSanitizedContent ∨ name = recordedSanitizedAttrs ∨
    name = recordedSanitizationUnknown := by
  simpa [evidenceNames] using h

/-- The names of the evidence have no character that folding or trimming changes. -/
theorem recorded_small (h : name ∈ recordedRendered :: recordedNonRenderedSubtree :: evidenceNames) :
    ∃ l, name = String.ofList l ∧ ∀ c ∈ l, Regex.foldCase c = c ∧
      c.toNat < 128 ∧ c.toLower = c ∧ isSpace c = false := by
  have hsmall : ∃ l, name = String.ofList l ∧ l.all fun c =>
      Regex.foldCase c == c && (decide (c.toNat < 128) && (c.toLower == c && !isSpace c)) := by
    simp only [evidenceNames, mem_cons, not_mem_nil, or_false] at h
    rcases h with rfl | rfl | rfl | rfl | rfl | rfl
    all_goals exact ⟨_, rfl, by decide⟩
  simpa using hsmall

theorem equalFold_recorded (h : s ∈ recordedRendered :: recordedNonRenderedSubtree :: evidenceNames) :
    equalFold s t = decide (s = t) := by
  obtain ⟨l, rfl, hsmall⟩ := recorded_small h
  rw [equalFold, String.toList_ofList, map_congr_left fun c hc => (hsmall c hc).1, List.map_id',
    Bool.eq_iff_iff, beq_iff_eq, decide_eq_true_eq, ← String.toList_inj, String.toList_ofList]

theorem other_names (h : name ∈ evidenceNames) : equalFold recordedRendered name = false ∧
      equalFold recordedNonRenderedSubtree name = false := by
  rw [equalFold_recorded mem_cons_self, equalFold_recorded (mem_cons_of_mem _ mem_cons_self)]
  rcases evidenceNames_cases h with rfl | rfl | rfl | rfl
  all_goals simp [recordedRendered, recordedNonRenderedSubtree, recordedSanitizedMarkup,
    recordedSanitizedContent, recordedSanitizedAttrs, recordedSanitizationUnknown]

theorem ownAttr_filter (h : name ∈ evidenceNames) (r : Record ν) :
    (r.ownAttr u).filter (fun a => equalFold a.1 name) =
      ((r.evidence u).flatMap evidenceAttr).filter fun a => equalFold a.1 name := by
  have hrendered : (if r.rendered = some (some false) then [(recordedRendered, "false")]
      else []).filter (fun a : Attr => equalFold a.1 name) = [] := by
    split
    · simp [(other_names h).1]
    · rfl
  rw [Record.ownAttr, filter_append, hrendered, append_nil, Record.evidence]
  cases r.sanitization with
  | none => rfl
  | some raw => simp [applyRecordedSanitizationEvidence]

theorem childAttr_filter (h : name ∈ evidenceNames) (n : SemanticNode ν) (html : Option Html) :
    (childAttr u n html).filter (fun a => equalFold a.1 name) =
      ((childEvidence u n html).flatMap evidenceAttr).filter fun a => equalFold a.1 name := by
  cases html with
  | none => cases n <;> simp [childAttr, childEvidence, evidenceAttr]
  | some html =>
    cases n with
    | other => cases html <;> rfl
    | node r children =>
      cases html with
      | element tag attr nodes => rfl
      | text data =>
        have hrendered : (if r.rendered.isSome then [(recordedNonRenderedSubtree, "true")]
            else []).filter (fun a : Attr => equalFold a.1 name) = [] := by
          split
          · simp [(other_names h).2]
          · rfl
        rw [childAttr, childEvidence, Record.textAttr, filter_append, hrendered,
          append_nil, Record.evidence]
        cases r.sanitization with
        | none => rfl
        | some raw => simp [applyRecordedSanitizationEvidence]

theorem appendNodes_filter (h : name ∈ evidenceNames) (nodes : List (SemanticNode ν)) :
    (appendNodes u nodes).1.filter (fun a => equalFold a.1 name) =
      ((childrenEvidence u (.items nodes)).flatMap evidenceAttr).filter
        fun a => equalFold a.1 name := by
  rw [childrenEvidence]
  induction nodes with
  | nil => rfl
  | cons n nodes ih =>
    rw [appendNodes, filter_append, ih, childAttr_filter h, flatMap_cons, flatMap_append, filter_append]

theorem addedAttr_filter (h : name ∈ evidenceNames) (x : Element ν) :
    (x.addedAttr u).filter (fun a => equalFold a.1 name) =
      ((if x.record.tag u = "iframe" then frameEvidence x.record x.children
        else childrenEvidence u x.children).flatMap evidenceAttr).filter
          fun a => equalFold a.1 name := by
  rw [Element.addedAttr]
  split
  · cases x.children with
    | absent | malformed => rfl
    | items nodes =>
      rw [frameAttr, frameEvidence]
      · split
        · rfl
        · simp [evidenceAttr]
      all_goals exact nofun
  · cases x.children with
    | absent => rfl
    | malformed => rw [appendChildren, childrenEvidence]; simp [evidenceAttr]
    | items nodes => rw [appendChildren]; exact appendNodes_filter h nodes

theorem evidence_filter (h : name ∈ evidenceNames) (x : Element ν) :
    (x.record.ownAttr u ++ x.addedAttr u).filter (fun a => equalFold a.1 name) =
      ((x.evidence u).flatMap evidenceAttr).filter fun a => equalFold a.1 name := by
  rw [filter_append, ownAttr_filter h, addedAttr_filter h, ← filter_append, ← flatMap_append]
  rfl

def joined (names : List String) : String := " ".intercalate (names.mergeSort (· ≤ ·))

variable {a : Attr}

theorem evidenceAttr_cases (h : a ∈ evidenceAttr p) :
    a = (recordedSanitizedMarkup, "true") ∨ a = (recordedSanitizedContent, "true") ∨
      ∃ text, a = (recordedSanitizedAttrs, text) := by
  cases p with
  | none =>
    rcases mem_cons.mp h with rfl | h
    · exact .inl rfl
    rcases mem_cons.mp h with rfl | h
    · exact .inr (.inl rfl)
    · exact .inr (.inr ⟨_, mem_singleton.mp h⟩)
  | some e =>
    rw [evidenceAttr, Recorded.attr, mem_append, mem_append] at h
    rcases h with (h | h) | h
    · split at h
      · exact .inl (mem_singleton.mp h)
      · cases h
    · split at h
      · exact .inr (.inl (mem_singleton.mp h))
      · cases h
    · split at h
      · cases h
      · exact .inr (.inr ⟨_, mem_singleton.mp h⟩)

theorem mem_evidenceNames (h : a ∈ evidenceAttr p) : a.1 ∈ evidenceNames := by
  rcases evidenceAttr_cases h with rfl | rfl | ⟨text, rfl⟩
  · exact mem_cons_self
  · exact mem_cons_of_mem _ mem_cons_self
  · exact mem_cons_of_mem _ (mem_cons_of_mem _ mem_cons_self)

theorem marker_value (h : a ∈ evidenceAttr p)
    (hname : name = recordedSanitizedMarkup ∨ name = recordedSanitizedContent)
    (ha : equalFold a.1 name) : a.2 = "true" := by
  rcases evidenceAttr_cases h with rfl | rfl | ⟨text, rfl⟩
  · rfl
  · rfl
  · rw [equalFold_recorded (by simp [evidenceNames])] at ha
    rcases hname with rfl | rfl
    all_goals simp [recordedSanitizedAttrs, recordedSanitizedMarkup, recordedSanitizedContent] at ha

theorem findAttr_marker {ps : List (Option Recorded)}
    (hname : name = recordedSanitizedMarkup ∨ name = recordedSanitizedContent) (hp : p ∈ ps)
    (hmarker : (name, "true") ∈ evidenceAttr p) :
    ∃ a, findAttr (ps.flatMap evidenceAttr) name = some a ∧ a.2 = "true" := by
  have hfold : equalFold name name := by
    rw [equalFold_recorded (by rcases hname with rfl | rfl <;> simp [evidenceNames])]
    simp
  cases hfind : findAttr (ps.flatMap evidenceAttr) name with
  | none =>
    have hno := List.find?_eq_none.mp hfind _ (mem_flatMap.mpr ⟨p, hp, hmarker⟩)
    exact absurd hfold hno
  | some a =>
    obtain ⟨q, -, ha⟩ := mem_flatMap.mp (mem_of_find?_eq_some hfind)
    have hfolds : equalFold a.1 name :=
      find?_some (p := fun a : Attr => equalFold a.1 name) hfind
    exact ⟨a, rfl, marker_value ha hname hfolds⟩

theorem evidenceAttr_names (p : Option Recorded) :
    (evidenceAttr p).filter (fun a => equalFold a.1 recordedSanitizedAttrs) =
      if (namesOf p).isEmpty then [] else [(recordedSanitizedAttrs, joined (namesOf p))] := by
  obtain ⟨hmarkup, hcontent, hattrs⟩ : equalFold recordedSanitizedMarkup recordedSanitizedAttrs = false ∧
      equalFold recordedSanitizedContent recordedSanitizedAttrs = false ∧
      equalFold recordedSanitizedAttrs recordedSanitizedAttrs := by
    refine ⟨?_, ?_, ?_⟩ <;> rw [equalFold_recorded (by simp [evidenceNames])]
    all_goals simp [recordedSanitizedMarkup, recordedSanitizedContent, recordedSanitizedAttrs]
  cases p with
  | none =>
    have hjoined : joined ["*"] = "*" := by simp [joined]
    rw [evidenceAttr, failClosed, namesOf, hjoined]
    simp [hmarkup, hcontent, hattrs]
  | some e =>
    rw [evidenceAttr, Recorded.attr, namesOf, filter_append, filter_append]
    have hm : (if e.markup then [(recordedSanitizedMarkup, "true")] else []).filter
        (fun a : Attr => equalFold a.1 recordedSanitizedAttrs) = [] := by
      split
      · simp [hmarkup]
      · rfl
    have hc : (if e.content then [(recordedSanitizedContent, "true")] else []).filter
        (fun a : Attr => equalFold a.1 recordedSanitizedAttrs) = [] := by
      split
      · simp [hcontent]
      · rfl
    rw [hm, hc, nil_append, nil_append]
    split
    · rfl
    · simp [hattrs, joined]

theorem findAttr_names (ps : List (Option Recorded)) :
    (match findAttr (ps.flatMap evidenceAttr) recordedSanitizedAttrs with
      | some a => a.2
      | none => "") =
      joined (((ps.map namesOf).find? fun names => !names.isEmpty).getD []) := by
  induction ps with
  | nil => simp [findAttr, joined]
  | cons p ps ih =>
    rw [findAttr_eq_head?, flatMap_cons, filter_append, evidenceAttr_names, map_cons, find?_cons]
    cases hnames : (namesOf p).isEmpty with
    | true =>
      rw [findAttr_eq_head?] at ih
      simpa using ih
    | false => simp

end Attributes

section Names

variable {u}

theorem mem_of_mapM {α β : Type} {f : α → Option β} {l : List α} {bs : List β} {b : β}
    (h : l.mapM f = some bs) (hb : b ∈ bs) : ∃ a ∈ l, f a = some b := by
  induction l generalizing bs with
  | nil =>
    cases h
    cases hb
  | cons a l ih =>
    rw [mapM_cons] at h
    cases ha : f a with
    | none => rw [ha] at h; cases h
    | some c =>
      cases hl : l.mapM f with
      | none => rw [ha, hl] at h; cases h
      | some cs =>
        rw [ha, hl] at h
        cases h
        rcases mem_cons.mp hb with rfl | hb
        · exact ⟨a, mem_cons_self, ha⟩
        · obtain ⟨a', ha', hfa⟩ := ih hl hb
          exact ⟨a', mem_cons_of_mem _ ha', hfa⟩

variable {n : String}

theorem alteredName_lowered {v : Json ν} (h : alteredName u v = some n) :
    ∃ s, n = toLower u (trimSpace s) := by
  cases v with
  | str s =>
    rw [alteredName] at h
    split at h
    · cases h
    · exact ⟨s, (some.inj h).symm⟩
  | _ => simp [alteredName] at h

theorem recordedField_lowered {field : String × Json ν} {e : Recorded}
    (h : recordedField u field = some e) (hn : n ∈ e.attributes) :
    ∃ s, n = toLower u (trimSpace s) := by
  unfold recordedField at h
  split at h
  · split at h
    · cases h
      cases hn
    · cases h
  · split at h
    · cases h
      cases hn
    · cases h
  · split at h
    · rename_i values
      split at h
      · cases h
      · cases hnames : values.mapM (alteredName u) with
        | none => rw [hnames] at h; cases h
        | some names =>
          rw [hnames] at h
          cases h
          obtain ⟨v, -, hv⟩ := mem_of_mapM hnames hn
          exact alteredName_lowered hv
    · cases h
  · cases h

theorem mem_foldr_and {es : List Recorded} (h : n ∈ (es.foldr Recorded.and ⟨false, false, []⟩).attributes) :
    ∃ e ∈ es, n ∈ e.attributes := by
  induction es with
  | nil => cases h
  | cons e es ih =>
    rcases mem_append.mp h with h | h
    · exact ⟨e, mem_cons_self, h⟩
    · obtain ⟨e', he', hn⟩ := ih h
      exact ⟨e', mem_cons_of_mem _ he', hn⟩

theorem recordedSanitization_lowered {raw : Json ν}
    (hn : n ∈ namesOf (recordedSanitization u raw)) : ∃ s, n = toLower u (trimSpace s) := by
  cases h : recordedSanitization u raw with
  | none =>
    rw [h] at hn
    exact ⟨"*", mem_singleton.mp hn⟩
  | some e =>
    rw [h] at hn
    unfold recordedSanitization at h
    split at h
    · rename_i fields
      split at h
      · cases h
      · cases hes : fields.mapM (recordedField u) with
        | none => rw [hes] at h; cases h
        | some es =>
          rw [hes] at h
          cases h
          obtain ⟨e, he, hn⟩ := mem_foldr_and hn
          obtain ⟨field, -, hfield⟩ := mem_of_mapM hes he
          exact recordedField_lowered hfield hn
    · cases h

variable {p : Option Recorded}

theorem childEvidence_lowered {c : SemanticNode ν} {html : Option Html}
    (hp : p ∈ childEvidence u c html) (hn : n ∈ namesOf p) :
    ∃ s, n = toLower u (trimSpace s) := by
  unfold childEvidence at hp
  split at hp
  · obtain ⟨raw, -, rfl⟩ := List.mem_map.mp hp
    exact recordedSanitization_lowered hn
  · cases hp
  · obtain rfl := mem_singleton.mp hp
    exact ⟨"*", mem_singleton.mp hn⟩

theorem evidence_lowered {x : Element ν}
    (hp : p ∈ x.evidence u) (hn : n ∈ namesOf p) : ∃ s, n = toLower u (trimSpace s) := by
  have hnone : p = none → ∃ s, n = toLower u (trimSpace s) := by
    rintro rfl
    exact ⟨"*", mem_singleton.mp hn⟩
  rcases mem_append.mp hp with hp | hp
  · obtain ⟨raw, -, rfl⟩ := List.mem_map.mp hp
    exact recordedSanitization_lowered hn
  · split at hp
    · unfold frameEvidence at hp
      split at hp
      · cases hp
      · split at hp
        · cases hp
        · exact hnone (mem_singleton.mp hp)
    · unfold childrenEvidence at hp
      split at hp
      · cases hp
      · exact hnone (mem_singleton.mp hp)
      · obtain ⟨c, -, hp⟩ := mem_flatMap.mp hp
        exact childEvidence_lowered hp hn

theorem fields_append_space (s t : String) : fields (s ++ (" " ++ t)) = fields s ++ fields t := by
  have hspace : isSpace ' ' := by decide
  rw [fields, fields, fields, String.toList_append, String.toList_append]
  show (((s.toList ++ ' ' :: t.toList).splitOnP isSpace).filter _).map _ = _
  rw [splitOnP_append_cons _ _ hspace, filter_append, map_append]

theorem fields_intercalate (names : List String) :
    fields (" ".intercalate names) = names.flatMap fields := by
  induction names with
  | nil => decide
  | cons n names ih =>
    cases names with
    | nil => rw [String.intercalate_singleton, flatMap_cons, flatMap_nil, append_nil]
    | cons m names =>
      rw [String.intercalate_cons_cons, String.append_assoc, fields_append_space, ih]
      rfl

theorem toLower_append (s t : String) : toLower u (s ++ t) = toLower u s ++ toLower u t := by
  simp [toLower]

variable {names : List String}

theorem toLower_intercalate (h : ∀ n ∈ names, toLower u n = n) :
    toLower u (" ".intercalate names) = " ".intercalate names := by
  induction names with
  | nil => rfl
  | cons n names ih =>
    have hn := h n mem_cons_self
    have hrest := ih fun m hm => h m (mem_cons_of_mem _ hm)
    cases names with
    | nil => rw [String.intercalate_singleton, hn]
    | cons m names =>
      have hspace : toLower u " " = " " := rfl
      rw [String.intercalate_cons_cons, toLower_append, toLower_append, hn, hspace, hrest]

theorem mem_fields_joined (h : ∀ n ∈ names, toLower u n = n) {t : String} :
    t ∈ fields (toLower u (joined names)) ↔ t ∈ names.flatMap fields := by
  have hsorted : ∀ n ∈ names.mergeSort (· ≤ ·), toLower u n = n :=
    fun n hn => h n (mem_mergeSort.mp hn)
  rw [joined, toLower_intercalate hsorted, fields_intercalate, mem_flatMap, mem_flatMap]
  simp only [mem_mergeSort]

end Names

section Tree

variable {u} {x : Element ν} {above : List Html} {name : String}

theorem subtree_of_marked {node : Html} (h : isMarked name node) :
    nodeSubtreeHasRecordedMarker name node := by
  cases node with
  | text data => exact h
  | element tag attr children => rw [nodeSubtreeHasRecordedMarker, h, Bool.true_or]

def Built (u : Unicode) (x : Element ν) : Prop :=
  ∃ tag nodes, x.location.node =
    .element tag (x.record.ownAttr u ++ x.record.pageAttr u ++ x.addedAttr u) nodes

/-- A marker that is found at an element is found from `html` and from all that the element is in
below `above`; and these are elements of `xs`. -/
def Within (above : List Html) (xs : List (Element ν)) (x : Element ν) (html : Html) : Prop :=
  (∀ name, nodeSubtreeHasRecordedMarker name x.location.node = true →
    nodeSubtreeHasRecordedMarker name html = true) ∧
  ∀ a ∈ x.location.above, a ∈ above ∨ (∃ y ∈ xs, y.location.node = a) ∧
    ∀ name, nodeSubtreeHasRecordedMarker name x.location.node = true →
      nodeSubtreeHasRecordedMarker name a = true

variable {children : ChildList ν}

variable {r : Record ν} {tag : String} {attr : List Attr} {nodes : List Html}

theorem html_element {added : List Attr × List Html}
        (h : r.html u children added = some (.element tag attr nodes)) :
    attr = r.ownAttr u ++ r.pageAttr u ++ (if r.tag u = "iframe" then frameAttr r children else added.1) ∧
      (r.tag u ≠ "iframe" → nodes = added.2) := by
  unfold Record.html at h
  split at h
  · cases h
  · split at h
    · cases h
    · split at h
      · rename_i hframe
        obtain ⟨-, hattr, -⟩ := Html.element.inj (some.inj h)
        exact ⟨by rw [if_pos hframe, hattr], fun hno => absurd hframe hno⟩
      · rename_i hframe
        obtain ⟨-, hattr, hnodes⟩ := Html.element.inj (some.inj h)
        exact ⟨by rw [if_neg hframe, hattr], fun _ => hnodes.symm⟩

theorem semanticNodeToHTML_node (r : Record ν) (children : ChildList ν) :
    semanticNodeToHTML u (.node r children) = r.html u children (appendChildren u children) := by
  rw [semanticNodeToHTML]

theorem elements_node (h : semanticNodeToHTML u (.node r children) = some (.element tag attr nodes)) :
    elements u above (.node r children) = ⟨r, children, ⟨.element tag attr nodes, above⟩⟩ ::
      (if r.tag u = "iframe" then []
        else elementsOf u (.element tag attr nodes :: above) children) := by
  rw [elements, h]

theorem mem_elements (hx : x ∈ elements u above (.node r children)) : ∃ tag attr nodes,
      semanticNodeToHTML u (.node r children) = some (.element tag attr nodes) ∧
      (x = ⟨r, children, ⟨.element tag attr nodes, above⟩⟩ ∨
        (r.tag u ≠ "iframe" ∧ x ∈ elementsOf u (.element tag attr nodes :: above) children)) := by
  rw [elements] at hx
  split at hx
  · rename_i tag attr nodes hhtml
    refine ⟨tag, attr, nodes, hhtml, ?_⟩
    rcases mem_cons.mp hx with rfl | hx
    · exact .inl rfl
    · split at hx
      · cases hx
      · rename_i hframe
        exact .inr ⟨hframe, hx⟩
  · cases hx

mutual

/-- The elements of a tree are built from their nodes, and stand in the page that it becomes. -/
theorem elements_within (v : SemanticNode ν) (above : List Html) : ∀ x ∈ elements u above v, Built u x ∧
      ∃ html, semanticNodeToHTML u v = some html ∧ Within above (elements u above v) x html := by
  cases v with
  | other => exact nofun
  | node r children =>
    intro x hx
    obtain ⟨tag, attr, nodes, hhtml, hx⟩ := mem_elements hx
    obtain ⟨hattr, hnodes⟩ := html_element (semanticNodeToHTML_node r children ▸ hhtml)
    rw [elements_node hhtml]
    rcases hx with rfl | ⟨hframe, hx⟩
    · exact ⟨⟨tag, nodes, by rw [hattr]; rfl⟩, _, hhtml, fun _ hm => hm, fun a ha => .inl ha⟩
    · obtain ⟨hbuilt, hdown, hup⟩ :=
        elementsOf_within children (.element tag attr nodes :: above) x hx
      have hself : ∀ name, nodeSubtreeHasRecordedMarker name x.location.node →
          nodeSubtreeHasRecordedMarker name (.element tag attr nodes) := by
        intro name hm
        rw [nodeSubtreeHasRecordedMarker, hnodes hframe, hdown name hm, Bool.or_true]
      refine ⟨hbuilt, _, hhtml, hself, fun a ha => ?_⟩
      rcases hup a ha with ha | ⟨⟨y, hy, hya⟩, hm⟩
      · rcases mem_cons.mp ha with rfl | ha
        · exact .inr ⟨⟨_, mem_cons_self, rfl⟩, hself⟩
        · exact .inl ha
      · refine .inr ⟨⟨y, mem_cons_of_mem _ ?_, hya⟩, hm⟩
        rw [if_neg hframe]
        exact hy

theorem elementsOf_within (children : ChildList ν) (above : List Html) :
    ∀ x ∈ elementsOf u above children, Built u x ∧
      (∀ name, nodeSubtreeHasRecordedMarker name x.location.node →
        childrenHaveRecordedMarker name (appendChildren u children).2) ∧
      ∀ a ∈ x.location.above, a ∈ above ∨ (∃ y ∈ elementsOf u above children,
        y.location.node = a) ∧ ∀ name, nodeSubtreeHasRecordedMarker name x.location.node = true →
          nodeSubtreeHasRecordedMarker name a := by
  cases children with
  | absent | malformed => exact nofun
  | items nodes =>
    rw [elementsOf, appendChildren]
    exact elementsOfNodes_within nodes above

theorem elementsOfNodes_within (nodes : List (SemanticNode ν)) (above : List Html) :
    ∀ x ∈ elementsOfNodes u above nodes, Built u x ∧
      (∀ name, nodeSubtreeHasRecordedMarker name x.location.node →
        childrenHaveRecordedMarker name (appendNodes u nodes).2) ∧
      ∀ a ∈ x.location.above, a ∈ above ∨ (∃ y ∈ elementsOfNodes u above nodes,
        y.location.node = a) ∧ ∀ name, nodeSubtreeHasRecordedMarker name x.location.node = true →
          nodeSubtreeHasRecordedMarker name a := by
  cases nodes with
  | nil => exact nofun
  | cons n nodes =>
    intro x hx
    rw [elementsOfNodes] at hx ⊢
    rw [appendNodes]
    rcases mem_append.mp hx with hx | hx
    · obtain ⟨hbuilt, html, hhtml, hdown, hup⟩ := elements_within n above x hx
      refine ⟨hbuilt, fun name hm => ?_, fun a ha => ?_⟩
      · rw [hhtml, toList_some, singleton_append, childrenHaveRecordedMarker, hdown name hm, Bool.true_or]
      · rcases hup a ha with ha | ⟨⟨y, hy, hya⟩, hm⟩
        · exact .inl ha
        · exact .inr ⟨⟨y, mem_append_left _ hy, hya⟩, hm⟩
    · obtain ⟨hbuilt, hdown, hup⟩ := elementsOfNodes_within nodes above x hx
      refine ⟨hbuilt, fun name hm => ?_, fun a ha => ?_⟩
      · cases semanticNodeToHTML u n with
        | none => exact hdown name hm
        | some html =>
          rw [toList_some, singleton_append, childrenHaveRecordedMarker, hdown name hm, Bool.or_true]
      · rcases hup a ha with ha | ⟨⟨y, hy, hya⟩, hm⟩
        · exact .inl ha
        · exact .inr ⟨⟨y, mem_append_right _ hy, hya⟩, hm⟩

end

end Tree

section Read

variable {u} {x : Element ν} {name : String} {l : Location} {nodeSets : List (List Location)}

theorem content_of_mem (hl : l ∈ nodeSets.flatten)
    (h : nodeSubtreeHasRecordedMarker recordedSanitizedContent l.node) :
    nodeSetsContainSanitizedContent nodeSets := by
  obtain ⟨nodes, hnodes, hl⟩ := mem_flatten.mp hl
  rw [nodeSetsContainSanitizedContent, Bool.or_eq_true]
  exact .inr (List.any_eq_true.mpr ⟨nodes, hnodes, List.any_eq_true.mpr ⟨l, hl, h⟩⟩)

theorem markup_of_mem (hl : l ∈ nodeSets.flatten)
    (h : nodeSubtreeHasRecordedMarker recordedSanitizedMarkup l.node) :
    nodeSetsContainSanitizedMarkup nodeSets := by
  obtain ⟨nodes, hnodes, hl⟩ := mem_flatten.mp hl
  rw [nodeSetsContainSanitizedMarkup, Bool.or_eq_true]
  exact .inr (List.any_eq_true.mpr ⟨nodes, hnodes, List.any_eq_true.mpr ⟨l, hl, h⟩⟩)

theorem attribute_of_mem (hl : l ∈ nodeSets.flatten)
    (h : "*" ∈ alteredNames u l.node ∨ toLower u (trimSpace name) ∈ alteredNames u l.node) :
    nodeSetsHaveSanitizedAttribute u nodeSets name := by
  obtain ⟨nodes, hnodes, hl⟩ := mem_flatten.mp hl
  rw [nodeSetsHaveSanitizedAttribute, Bool.or_eq_true]
  refine .inr (List.any_eq_true.mpr ⟨nodes, hnodes, List.any_eq_true.mpr ⟨l, hl, ?_⟩⟩)
  rcases h with h | h
  all_goals exact List.any_eq_true.mpr ⟨_, h, by simp⟩

theorem attribute_of_alone (hunknown : nodeOrAncestorHasUnknownSanitization l = false)
    (h : nodeSetsHaveSanitizedAttribute u [[l]] name) :
    "*" ∈ alteredNames u l.node ∨ toLower u (trimSpace name) ∈ alteredNames u l.node := by
  rw [nodeSetsHaveSanitizedAttribute, nodeSetsHaveUnknownSanitization] at h
  simp only [any_cons, any_nil, Bool.or_false, hunknown, Bool.and_false, Bool.false_or] at h
  obtain ⟨altered, hmem, heq⟩ := List.any_eq_true.mp h
  rcases Bool.or_eq_true_iff.mp heq with heq | heq
  · exact .inl (beq_iff_eq.mp heq ▸ hmem)
  · exact .inr (beq_iff_eq.mp heq ▸ hmem)

def OwnRead (u : Unicode) (x : Element ν) : Prop :=
  ∀ name ∈ evidenceNames, findAttr x.location.node.attr name =
    findAttr (x.record.ownAttr u ++ x.addedAttr u) name

theorem evidence_private (h : name ∈ evidenceNames) : isRecordedEvidenceAttribute u name := by
  have hname : toLower u (trimSpace name) = name := by
    obtain ⟨l, rfl, hsmall⟩ := recorded_small (mem_cons_of_mem _ (mem_cons_of_mem _ h))
    have hlower : ∀ c ∈ l, Sanitize.lower u c = c := fun c hc =>
      (if_pos (hsmall c hc).2.1).trans (hsmall c hc).2.2.1
    have htrim : ∀ m ⊆ l, m.dropWhile isSpace = m := by
      intro m hm
      cases m with
      | nil => rfl
      | cons c m => rw [dropWhile_cons, (hsmall c (hm mem_cons_self)).2.2.2, if_neg Bool.false_ne_true]
    rw [trimSpace, String.toList_ofList, htrim l (fun _ hc => hc),
      htrim _ (fun c hc => mem_reverse.mp hc), reverse_reverse, toLower, String.toList_ofList,
      map_congr_left hlower, List.map_id']
  rw [isRecordedEvidenceAttribute, hname, contains_iff_mem]
  refine mem_cons_of_mem _ ?_
  rcases evidenceNames_cases h with rfl | rfl | rfl | rfl
  all_goals simp

theorem addedAttr_key (h : name ∈ evidenceNames) {b : Attr}
    (hb : findAttr (x.addedAttr u) name = some b) : b.1 ∈ evidenceNames := by
  have hmem : b ∈ (x.addedAttr u).filter fun a => equalFold a.1 name := by
    rw [findAttr_eq_head?] at hb
    exact mem_of_mem_head? hb
  rw [addedAttr_filter h] at hmem
  obtain ⟨p, -, hp⟩ := mem_flatMap.mp (mem_of_mem_filter hmem)
  exact mem_evidenceNames hp

theorem pageAttr_key {r : Record ν} {a : Attr} (ha : a ∈ r.pageAttr u) : a.1 ∉ evidenceNames := by
  intro hname
  have hno := (mem_filter.mp ha).2
  rw [evidence_private hname] at hno
  simp at hno

theorem ownRead_iff (hbuilt : Built u x) : OwnRead u x ↔ Unclaimed u x := by
  obtain ⟨tag, nodes, hnode⟩ := hbuilt
  refine forall₂_congr fun name hname => ?_
  rw [hnode, Html.attr, findAttr, findAttr, find?_append, find?_append, find?_append]
  cases hown : (x.record.ownAttr u).find? fun a => equalFold a.1 name with
  | some b =>
    have hb := find?_some (p := fun a : Attr => equalFold a.1 name) hown
    exact iff_of_true rfl fun _ _ _ => ⟨b, mem_of_find?_eq_some hown, hb⟩
  | none =>
    cases hpage : (x.record.pageAttr u).find? fun a => equalFold a.1 name with
    | none =>
      exact iff_of_true rfl fun a ha hfold => absurd hfold (List.find?_eq_none.mp hpage a ha)
    | some a =>
      have ha := mem_of_find?_eq_some hpage
      have hfold := find?_some (p := fun a : Attr => equalFold a.1 name) hpage
      refine iff_of_false (fun heq => ?_) fun hclaim => ?_
      · rw [none_or, some_or, none_or] at heq
        have hadded : findAttr (x.addedAttr u) name = some a := heq.symm
        exact absurd (addedAttr_key hname hadded) (pageAttr_key ha)
      · obtain ⟨b, hb, hbfold⟩ := hclaim a ha hfold
        exact List.find?_eq_none.mp hown b hb hbfold

theorem OwnRead.attrValue (h : OwnRead u x) (hname : name ∈ evidenceNames) :
    findAttr x.location.node.attr name = findAttr ((x.evidence u).flatMap evidenceAttr) name := by
  rw [h name hname, findAttr_eq_head?, findAttr_eq_head?, evidence_filter hname]

theorem OwnRead.marked (h : OwnRead u x)
    (hname : name = recordedSanitizedMarkup ∨ name = recordedSanitizedContent)
    {p : Option Recorded} (hp : p ∈ x.evidence u) (hmarker : (name, "true") ∈ evidenceAttr p) :
    nodeSubtreeHasRecordedMarker name x.location.node := by
  have hmem : name ∈ evidenceNames := by
    rcases hname with rfl | rfl
    · exact mem_cons_self
    · exact mem_cons_of_mem _ mem_cons_self
  obtain ⟨a, hfind, hvalue⟩ := findAttr_marker hname hp hmarker
  refine subtree_of_marked ?_
  rw [isMarked, SemanticNodes.attrValue, h.attrValue hmem, hfind]
  dsimp only
  rw [hvalue]
  decide

theorem leadingNames_lowered (hu : ∀ c, Sanitize.lower u (Sanitize.lower u c) = Sanitize.lower u c)
    {n : String} (hn : n ∈ x.leadingNames u) : toLower u n = n := by
  have hlowered : ∃ s, n = toLower u (trimSpace s) := by
    rw [Element.leadingNames] at hn
    cases hfind : ((x.evidence u).map namesOf).find? fun names => !names.isEmpty with
    | none => rw [hfind] at hn; cases hn
    | some names =>
      rw [hfind] at hn
      obtain ⟨p, hp, rfl⟩ := List.mem_map.mp (mem_of_find?_eq_some hfind)
      exact evidence_lowered hp hn
  obtain ⟨s, rfl⟩ := hlowered
  have htwice : Sanitize.lower u ∘ Sanitize.lower u = Sanitize.lower u := funext hu
  rw [toLower, toLower, String.toList_ofList, List.map_map, htwice]

theorem OwnRead.mem_alteredNames (h : OwnRead u x)
    (hu : ∀ c, Sanitize.lower u (Sanitize.lower u c) = Sanitize.lower u c) {t : String} :
    t ∈ alteredNames u x.location.node ↔ t ∈ (x.leadingNames u).flatMap fields := by
  have hname : recordedSanitizedAttrs ∈ evidenceNames :=
    mem_cons_of_mem _ (mem_cons_of_mem _ mem_cons_self)
  rw [alteredNames, SemanticNodes.attrValue, h.attrValue hname, findAttr_names]
  exact mem_fields_joined fun n hn => leadingNames_lowered hu hn

theorem OwnRead.unknown (h : OwnRead u x) :
    isMarked recordedSanitizationUnknown x.location.node = false := by
  have hname : recordedSanitizationUnknown ∈ evidenceNames := by simp [evidenceNames]
  have hnone : findAttr ((x.evidence u).flatMap evidenceAttr) recordedSanitizationUnknown = none := by
    refine List.find?_eq_none.mpr fun a ha => ?_
    obtain ⟨p, -, ha⟩ := mem_flatMap.mp ha
    rcases evidenceAttr_cases ha with rfl | rfl | ⟨text, rfl⟩
    all_goals
      rw [equalFold_recorded (by simp [evidenceNames])]
      simp [recordedSanitizedMarkup, recordedSanitizedContent, recordedSanitizedAttrs,
        recordedSanitizationUnknown]
  rw [isMarked, SemanticNodes.attrValue, h.attrValue hname, hnone]
  decide

theorem exists_name (names : List String) : ∃ name, toLower u (trimSpace name) ∉ names := by
  have hspace : isSpace 'a' = false := by decide
  have hname : ∀ k, toLower u (trimSpace (String.ofList (List.replicate (k + 1) 'a'))) =
      String.ofList (List.replicate (k + 1) 'a') := by
    intro k
    have hdrop : (List.replicate (k + 1) 'a').dropWhile isSpace = List.replicate (k + 1) 'a' := by
      rw [replicate_succ, dropWhile_cons_of_neg (by simp [hspace])]
    have hlower : Sanitize.lower u 'a' = 'a' := rfl
    rw [trimSpace, String.toList_ofList, hdrop, reverse_replicate, hdrop,
      reverse_replicate, toLower, String.toList_ofList, map_replicate, hlower]
  refine ⟨String.ofList (List.replicate ((names.map String.length).sum + 1) 'a'), fun hmem => ?_⟩
  rw [hname] at hmem
  have hle := single_le_sum (fun n _ => Nat.zero_le n) _
    (List.mem_map_of_mem (f := String.length) hmem)
  rw [String.length_ofList, length_replicate] at hle
  omega

end Read

section Survival

variable {u} {x : Element ν} {html : Html} {v : SemanticNode ν}

/-- Evidence that is covered and unclaimed survives. -/
theorem survives_of (hu : ∀ c, Sanitize.lower u (Sanitize.lower u c) = Sanitize.lower u c)
    (hbuilt : Built u x) (hwithin : Within [] (elements u [] v) x html) (hcovered : Covered u x)
    (hunclaimed : Unclaimed u x) : Survives u x := by
  have hread : OwnRead u x := (ownRead_iff hbuilt).mpr hunclaimed
  have hnames : ∀ p ∈ x.evidence u, ∀ n ∈ namesOf p,
      "*" ∈ alteredNames u x.location.node ∨ n ∈ alteredNames u x.location.node := by
    intro p hp n hn
    rw [hread.mem_alteredNames hu, hread.mem_alteredNames hu]
    exact hcovered p hp n hn
  have hmarked : ∀ name, nodeSubtreeHasRecordedMarker name x.location.node →
      ∀ l : Location, l.node ∈ x.location.node :: x.location.above →
        nodeSubtreeHasRecordedMarker name l.node := by
    intro name hm l hl
    rcases mem_cons.mp hl with hl | hl
    · rw [hl]
      exact hm
    · rcases hwithin.2 l.node hl with hnil | ⟨-, hup⟩
      · cases hnil
      · exact hup name hm
  refine ⟨fun hnone nodeSets hl => ⟨fun name => ?_, ?_, ?_⟩, fun e he nodeSets hl name hname => ?_,
    fun e he l hl nodeSets hmem => ⟨fun hcontent => ?_, fun hmarkup => ?_⟩, hread⟩
  · rcases hnames none hnone "*" (mem_singleton_self _) with h | h
    all_goals exact attribute_of_mem hl (.inl h)
  · exact content_of_mem hl (hread.marked (.inr rfl) hnone (by simp [evidenceAttr, failClosed]))
  · exact markup_of_mem hl (hread.marked (.inl rfl) hnone (by simp [evidenceAttr, failClosed]))
  · rcases hname with hstar | hname
    · rcases hnames (some e) he "*" hstar with h | h
      all_goals exact attribute_of_mem hl (.inl h)
    · exact attribute_of_mem hl (hnames (some e) he _ hname)
  · refine content_of_mem hmem (hmarked _ (hread.marked (.inr rfl) he ?_) l hl)
    simp [evidenceAttr, Recorded.attr, hcontent]
  · refine markup_of_mem hmem (hmarked _ (hread.marked (.inl rfl) he ?_) l hl)
    simp [evidenceAttr, Recorded.attr, hmarkup]

theorem known_of_ownRead (hwithin : Within [] (elements u [] v) x html)
    (hread : ∀ y ∈ elements u [] v, OwnRead u y) (hx : x ∈ elements u [] v) :
    nodeOrAncestorHasUnknownSanitization x.location = false := by
  rw [nodeOrAncestorHasUnknownSanitization, List.any_eq_false]
  intro a ha
  rw [Bool.not_eq_true]
  rcases mem_cons.mp ha with rfl | ha
  · exact (hread x hx).unknown
  · rcases hwithin.2 a ha with hnil | ⟨⟨y, hy, rfl⟩, -⟩
    · cases hnil
    · exact (hread y hy).unknown

theorem covered_of (hu : ∀ c, Sanitize.lower u (Sanitize.lower u c) = Sanitize.lower u c)
    (hread : OwnRead u x) (hknown : nodeOrAncestorHasUnknownSanitization x.location = false)
    (h : Survives u x) : Covered u x := by
  have hself : x.location ∈ ([[x.location]] : List (List Location)).flatten := by simp
  -- what is said of every name is said by `*`: there are names that are not read
  have hall : (∀ name, nodeSetsHaveSanitizedAttribute u [[x.location]] name) →
      "*" ∈ (x.leadingNames u).flatMap fields := by
    intro hevery
    obtain ⟨name, hfresh⟩ := exists_name (u := u) (alteredNames u x.location.node)
    rcases attribute_of_alone hknown (hevery name) with hstar | hname
    · exact (hread.mem_alteredNames hu).mp hstar
    · exact absurd hname hfresh
  intro p hp n hn
  cases p with
  | none =>
    obtain rfl := mem_singleton.mp hn
    exact .inl (hall (h.malformed hp _ hself).1)
  | some e =>
    by_cases hstar : "*" ∈ e.attributes
    · exact .inl (hall fun name => h.named e hp _ hself name (.inl hstar))
    · obtain ⟨s, rfl⟩ := evidence_lowered hp hn
      have hhas := h.named e hp _ hself s (.inr hn)
      rcases attribute_of_alone hknown hhas with hread' | hread'
      · exact .inl ((hread.mem_alteredNames hu).mp hread')
      · exact .inr ((hread.mem_alteredNames hu).mp hread')

theorem covered_of_survives (hu : ∀ c, Sanitize.lower u (Sanitize.lower u c) = Sanitize.lower u c)
    (h : ∀ x ∈ elements u [] v, Survives u x) :
    ∀ x ∈ elements u [] v, Covered u x ∧ Unclaimed u x := by
  intro x hx
  obtain ⟨hbuilt, html, -, hwithin⟩ := elements_within v [] x hx
  have hknown := known_of_ownRead hwithin (fun y hy => (h y hy).page) hx
  exact ⟨covered_of hu (h x hx).page hknown (h x hx), (ownRead_iff hbuilt).mp (h x hx).page⟩

end Survival

/-- The evidence of sanitization is read in the tree exactly when what is read of each element, the
names that its first evidence with names gives, covers what all its evidence names, and no attribute
of the page is read in its place. -/
theorem evidence_survives_iff
    (hu : ∀ c, Sanitize.lower u (Sanitize.lower u c) = Sanitize.lower u c) (v : SemanticNode ν) :
    (∀ x ∈ elements u [] v, Survives u x) ↔ ∀ x ∈ elements u [] v, Covered u x ∧ Unclaimed u x := by
  refine ⟨covered_of_survives hu, fun h x hx => ?_⟩
  obtain ⟨hbuilt, html, -, hwithin⟩ := elements_within v [] x hx
  exact survives_of hu hbuilt hwithin (h x hx).1 (h x hx).2

/-- A link whose address was removed, with evidence that is no object on its text. -/
def linkWithBareText : SemanticNode Unit :=
  .node ⟨"element", "a", "", some (.obj [("alteredAttributes", .arr [.str "href"])]), none, [],
    false, ""⟩ (.items [.node ⟨"text", "", "go", some .null, none, [], false, ""⟩ .absent])

def textWithBareEvidence : SemanticNode Unit :=
  .node ⟨"element", "a", "", some .null, none, [("title", "go")], false, ""⟩ (.items [.node
    ⟨"text", "", "go", some (.obj [("alteredAttributes", .arr [.str "href"])]), none, [], false, ""⟩
    .absent])

theorem lower_ascii_twice (c : Char) : Sanitize.lower ⟨Char.toLower⟩ (Sanitize.lower ⟨Char.toLower⟩ c) =
      Sanitize.lower ⟨Char.toLower⟩ c := by
  have hlower : ∀ d, Sanitize.lower ⟨Char.toLower⟩ d = d.toLower := fun d => ite_self _
  rw [hlower, hlower]
  unfold Char.toLower
  split
  · rename_i hupper
    split
    · rename_i hagain
      simp only [ge_iff_le, UInt32.le_iff_toNat_le, UInt32.toNat_add] at hupper hagain
      have hA : 'A'.val.toNat = 65 := rfl
      have hZ : 'Z'.val.toNat = 90 := rfl
      have hgap : ('a'.val - 'A'.val).toNat = 32 := rfl
      omega
    · rfl
  · rfl

theorem textWithBareEvidence_survives : elements ⟨Char.toLower⟩ [] textWithBareEvidence ≠ [] ∧
      ∀ x ∈ elements ⟨Char.toLower⟩ [] textWithBareEvidence, Survives ⟨Char.toLower⟩ x := by
  refine ⟨by decide, (evidence_survives_iff _ lower_ascii_twice textWithBareEvidence).mpr ?_⟩
  simp only [Covered, Unclaimed]
  decide

/-- The evidence of the text is hidden by that of the link. -/
theorem linkWithBareText_hidden :
    ¬∀ x ∈ elements ⟨Char.toLower⟩ [] linkWithBareText, Survives ⟨Char.toLower⟩ x := by
  intro h
  have hcovered := covered_of_survives lower_ascii_twice h
  simp only [Covered, Unclaimed] at hcovered
  revert hcovered
  decide

end SemanticNodes

end Aegis
