import Mathlib.Algebra.Order.Ring.Int
import Mathlib.Data.List.Nodup

/-!
# Recording.Frames

`mergeFrameTreeIntoDom`: the trees captured in the frames of a page, put into the placeholders of
its `iframe` elements.

A placeholder takes the frame that fits it best among those no earlier placeholder has taken.
-/

namespace Aegis

open List

namespace Frames

inductive FrameOrigin where
  | sameOrigin | crossOrigin

inductive FrameStatus where
  | captured | unavailable | error
deriving DecidableEq

/-- What a `URL` object tells of itself. -/
structure PageURL where
  href : String
  origin : String
  pathname : String
deriving DecidableEq

/-- `new URL(url, base)`; `none` when it throws. -/
abbrev Parse := String → Option String → Option PageURL

/-- The members of a `DomNode` but for its children; `σ` is those that are only copied. -/
structure NodeData (σ : Type) where
  tagName : Option String
  attributes : List (String × String)
  copied : σ
  framePlaceholder : Bool
  frameOrigin : Option FrameOrigin
  frameMatched : Option Bool
  frameStatus : Option FrameStatus
  frameError : Option String

inductive DomNode (σ : Type) where
  | mk (data : NodeData σ) (children : List (DomNode σ))

structure FrameTreeNode (σ : Type) where
  frameId : Int
  url : String
  domTree : DomNode σ
  status : Option FrameStatus
  error : Option String
  children : List (FrameTreeNode σ)

/-- A frame of `frameTree.children`, with its tree as it is attached. -/
structure Frame (σ : Type) where
  frameId : Int
  url : String
  status : Option FrameStatus
  error : Option String
  document : DomNode σ

section

variable {σ : Type} (parse : Parse) (url : String) (frames : List (Frame σ)) (n : NodeData σ)
  (usedFrames : List Int)

def NodeData.src : String := ((n.attributes.find? fun a => a.1 == "src").map Prod.snd).getD ""

def NodeData.isPlaceholder : Bool := n.tagName == some "iframe" && n.framePlaceholder

/-- `p.startsWith(f + '/')`. -/
def isBelow (p f : String) : Bool := (f.toList ++ ['/']).isPrefixOf p.toList

def scoreIframeMatch (frame : Frame σ) : Int :=
  match parse n.src (some url), parse frame.url none with
  | some placeholderUrl, some frameUrl =>
    if placeholderUrl.origin ≠ frameUrl.origin then -1
    else if placeholderUrl.pathname = frameUrl.pathname then 100
    else if isBelow placeholderUrl.pathname frameUrl.pathname then 50
    else if isBelow frameUrl.pathname placeholderUrl.pathname then 25
    else 0
  | _, _ => 0

/-- A candidate in the loop of `findMatchingFrame`. -/
def consider (best : Option (Frame σ) × Int) (candidate : Frame σ) : Option (Frame σ) × Int :=
  if usedFrames.contains candidate.frameId then best
  else if best.2 < scoreIframeMatch parse url n candidate then
    (some candidate, scoreIframeMatch parse url n candidate)
  else best

def findMatchingFrame : Option (Frame σ) :=
  let best := frames.foldl (consider parse url n usedFrames) (none, 0)
  if 20 ≤ best.2 then best.1 else none

def inferFrameOrigin : FrameOrigin :=
  match parse n.src (some url), parse url none with
  | some placeholder, some parent =>
    if placeholder.origin = parent.origin then .sameOrigin else .crossOrigin
  | _, _ => .crossOrigin

/-- A placeholder with the frame that `findMatchingFrame` gives. -/
def mergePlaceholder (children : List (DomNode σ)) : Option (Frame σ) → DomNode σ
  | some frame =>
    let status := frame.status.getD .captured
    .mk { n with
        frameOrigin := some (inferFrameOrigin parse url n)
        frameStatus := some status
        frameError := frame.error
        frameMatched := some (status == .captured)
        framePlaceholder := false }
      (if status = .captured then [frame.document] else children)
  | none =>
    .mk { n with
        frameMatched := some false
        frameStatus := some .unavailable
        frameError := some "frame-not-matched" } children

mutual

/-- The node as it is after the call, and `usedFrames`. -/
def mergeFrameIntoNode : DomNode σ → List Int → DomNode σ × List Int
  | .mk n children, usedFrames =>
    if n.isPlaceholder then
      let matched := findMatchingFrame parse url frames n usedFrames
      (mergePlaceholder parse url n children matched,
        (matched.map Frame.frameId).toList ++ usedFrames)
    else
      let merged := mergeFrameIntoNodes children usedFrames
      (.mk n merged.1, merged.2)

def mergeFrameIntoNodes : List (DomNode σ) → List Int → List (DomNode σ) × List Int
  | [], usedFrames => ([], usedFrames)
  | child :: children, usedFrames =>
    let merged := mergeFrameIntoNode child usedFrames
    let rest := mergeFrameIntoNodes children merged.2
    (merged.1 :: rest.1, rest.2)

end

mutual

/-- On a copy of the tree. -/
def mergeFrameTreeIntoDom (domTree : DomNode σ) : FrameTreeNode σ → DomNode σ
  | ⟨_, url, _, _, _, children⟩ => (mergeFrameIntoNode parse url (framesOf children) domTree []).1

def framesOf : List (FrameTreeNode σ) → List (Frame σ)
  | [] => []
  | frame :: frames =>
    ⟨frame.frameId, frame.url, frame.status, frame.error, mergeFrameTreeIntoDom frame.domTree frame⟩ ::
      framesOf frames

end

/-! ## What is attached -/

/-- The frame has the URL that the `src` of the placeholder resolves to. -/
def SameURL (frame : Frame σ) : Prop :=
  ∃ u, parse n.src (some url) = some u ∧ parse frame.url none = some u

/-- What is taken is the best frame of the document that is left. A frame goes to the placeholder
with its URL, unless it is taken or a frame listed before it, of the same origin and path, is left. -/
structure Fair (taken : Option (Frame σ)) : Prop where
  left : ∀ frame ∈ taken, frame ∈ frames ∧ frame.frameId ∉ usedFrames
  fits : ∀ frame ∈ taken, 20 ≤ scoreIframeMatch parse url n frame
  best : ∀ frame ∈ frames, frame.frameId ∉ usedFrames → 20 ≤ scoreIframeMatch parse url n frame →
    ∃ f ∈ taken, scoreIframeMatch parse url n frame ≤ scoreIframeMatch parse url n f
  exact : ∀ front frame rest, frames = front ++ frame :: rest → SameURL parse url n frame →
    taken = some frame ∨ frame.frameId ∈ usedFrames ∨
      ∃ f ∈ front, taken = some f ∧ scoreIframeMatch parse url n f = 100

mutual

/-- A tree before and after the frames are attached, and the frames taken so far: only placeholders
change, in document order. -/
inductive Merged : List Int → DomNode σ → DomNode σ → List Int → Prop
  | placeholder {n : NodeData σ} {children : List (DomNode σ)} {usedFrames : List Int}
      {taken : Option (Frame σ)} (h : n.isPlaceholder) (hfair : Fair parse url frames n usedFrames taken) :
      Merged usedFrames (.mk n children) (mergePlaceholder parse url n children taken)
        ((taken.map Frame.frameId).toList ++ usedFrames)
  | node {n : NodeData σ} {children children' : List (DomNode σ)} {used used' : List Int}
      (h : ¬n.isPlaceholder) (hs : MergedAll used children children' used') :
      Merged used (.mk n children) (.mk n children') used'

inductive MergedAll : List Int → List (DomNode σ) → List (DomNode σ) → List Int → Prop
  | nil {used : List Int} : MergedAll used [] [] used
  | cons {d d' : DomNode σ} {ds ds' : List (DomNode σ)} {used used' used'' : List Int}
      (h : Merged used d d' used') (hs : MergedAll used' ds ds' used'') :
      MergedAll used (d :: ds) (d' :: ds') used''

end

variable {frames} {frame : Frame σ} {best : Option (Frame σ) × Int}

theorem scoreIframeMatch_le : scoreIframeMatch parse url n frame ≤ 100 := by
  unfold scoreIframeMatch
  split
  · split_ifs <;> omega
  · omega

variable {parse url n usedFrames}

theorem scoreIframeMatch_of_sameURL (h : SameURL parse url n frame) :
    scoreIframeMatch parse url n frame = 100 := by
  obtain ⟨u, hn, hf⟩ := h
  simp [scoreIframeMatch, hn, hf]

theorem consider_cases : consider parse url n usedFrames best frame = best ∨
    frame.frameId ∉ usedFrames ∧ best.2 < scoreIframeMatch parse url n frame ∧
      consider parse url n usedFrames best frame = (some frame, scoreIframeMatch parse url n frame) := by
  unfold consider
  split
  · exact .inl rfl
  · rename_i hleft
    split
    · rename_i hlt
      exact .inr ⟨by simpa using hleft, hlt, rfl⟩
    · exact .inl rfl

variable (parse url n usedFrames best) in
/-- The loop ends with the best it began with, or with a better frame that is left. -/
theorem foldl_consider (l : List (Frame σ)) : l.foldl (consider parse url n usedFrames) best = best ∨
    ∃ f ∈ l, f.frameId ∉ usedFrames ∧ best.2 < scoreIframeMatch parse url n f ∧
      l.foldl (consider parse url n usedFrames) best = (some f, scoreIframeMatch parse url n f) := by
  induction l generalizing best with
  | nil => exact .inl rfl
  | cons f l ih =>
    rw [foldl_cons]
    rcases consider_cases with hstep | ⟨hleft, hlt, hstep⟩ <;> rw [hstep]
    · exact (ih best).imp_right fun ⟨g, hg, hrest⟩ => ⟨g, mem_cons_of_mem _ hg, hrest⟩
    · rcases ih (some f, scoreIframeMatch parse url n f) with h | ⟨g, hg, hgleft, hglt, h⟩
      · exact .inr ⟨f, mem_cons_self, hleft, hlt, h⟩
      · exact .inr ⟨g, mem_cons_of_mem _ hg, hgleft, Int.lt_trans hlt hglt, h⟩

variable (parse url n usedFrames best) in
theorem le_foldl_consider (l : List (Frame σ)) :
    best.2 ≤ (l.foldl (consider parse url n usedFrames) best).2 ∧ ∀ f ∈ l, f.frameId ∉ usedFrames →
      scoreIframeMatch parse url n f ≤ (l.foldl (consider parse url n usedFrames) best).2 := by
  induction l generalizing best with
  | nil => exact ⟨le_rfl, nofun⟩
  | cons f l ih =>
    obtain ⟨hstart, hrest⟩ := ih (consider parse url n usedFrames best f)
    have hbest : best.2 ≤ (consider parse url n usedFrames best f).2 := by
      rcases consider_cases with hstep | ⟨-, hlt, hstep⟩ <;> rw [hstep]
      exact hlt.le
    refine ⟨hbest.trans hstart, forall_mem_cons.mpr ⟨fun hleft => le_trans ?_ hstart, hrest⟩⟩
    unfold consider
    rw [if_neg (by simpa using hleft)]
    split
    · exact le_rfl
    · rename_i hle
      exact not_lt.mp hle

theorem findMatchingFrame_left (h : findMatchingFrame parse url frames n usedFrames = some frame) :
    (frame ∈ frames ∧ frame.frameId ∉ usedFrames) ∧ 20 ≤ scoreIframeMatch parse url n frame := by
  simp only [findMatchingFrame] at h
  rcases foldl_consider parse url n usedFrames (none, 0) frames with hbest | ⟨f, hf, hleft, -, hbest⟩
  · rw [hbest] at h
    cases h
  · rw [hbest] at h
    split at h
    · rename_i hscore
      cases h
      exact ⟨⟨hf, hleft⟩, hscore⟩
    · cases h

theorem findMatchingFrame_best (hf : frame ∈ frames) (hleft : frame.frameId ∉ usedFrames)
    (hscore : 20 ≤ scoreIframeMatch parse url n frame) :
    ∃ f ∈ findMatchingFrame parse url frames n usedFrames,
      scoreIframeMatch parse url n frame ≤ scoreIframeMatch parse url n f := by
  have hle := (le_foldl_consider parse url n usedFrames (none, 0) frames).2 frame hf hleft
  rcases foldl_consider parse url n usedFrames (none, 0) frames with hbest | ⟨f, -, -, -, hbest⟩ <;>
    rw [hbest] at hle
  · exact absurd (show (20 : Int) ≤ 0 from hscore.trans hle) (by decide)
  · refine ⟨f, ?_, hle⟩
    simp only [findMatchingFrame, hbest]
    exact if_pos (hscore.trans hle)

theorem findMatchingFrame_exact {front rest : List (Frame σ)} (hframes : frames = front ++ frame :: rest)
    (hleft : frame.frameId ∉ usedFrames) (hscore : scoreIframeMatch parse url n frame = 100) :
    findMatchingFrame parse url frames n usedFrames = some frame ∨ ∃ f ∈ front,
      findMatchingFrame parse url frames n usedFrames = some f ∧ scoreIframeMatch parse url n f = 100 := by
  have hstay (f : Frame σ) : rest.foldl (consider parse url n usedFrames) (some f, 100) = (some f, 100) := by
    refine (foldl_consider parse url n usedFrames _ rest).resolve_right ?_
    rintro ⟨g, -, -, hlt, -⟩
    exact absurd hlt (Int.not_lt.mpr (scoreIframeMatch_le ..))
  have hunused : usedFrames.contains frame.frameId = false := by simpa using hleft
  simp only [findMatchingFrame, hframes, foldl_append, foldl_cons]
  rcases foldl_consider parse url n usedFrames (none, 0) front with hbest | ⟨f, hf, -, -, hbest⟩
  · left
    simp [hbest, consider, hunused, hscore, hstay, -contains_eq_mem]
  · by_cases hlt : scoreIframeMatch parse url n f < 100
    · left
      simp [hbest, consider, hunused, hscore, hstay, hlt, -contains_eq_mem]
    · have hf100 := Int.le_antisymm (scoreIframeMatch_le ..) (Int.not_lt.mp hlt)
      refine .inr ⟨f, hf, ?_, hf100⟩
      simp [hbest, consider, hunused, hscore, hstay, hf100, -contains_eq_mem]

theorem findMatchingFrame_fair :
    Fair parse url frames n usedFrames (findMatchingFrame parse url frames n usedFrames) where
  left _ h := (findMatchingFrame_left h).1
  fits _ h := (findMatchingFrame_left h).2
  best _ hf hleft hscore := findMatchingFrame_best hf hleft hscore
  exact front frame rest hframes hurl := by
    by_cases hleft : frame.frameId ∈ usedFrames
    · exact .inr (.inl hleft)
    · exact (findMatchingFrame_exact hframes hleft (scoreIframeMatch_of_sameURL hurl)).imp_right .inr

mutual

/-- A node is merged with frames of its own document, each taken once. -/
theorem merged_node (d : DomNode σ) (used : List Int) (hused : used.Nodup) :
    Merged parse url frames used d (mergeFrameIntoNode parse url frames d used).1
      (mergeFrameIntoNode parse url frames d used).2 ∧
    (mergeFrameIntoNode parse url frames d used).2.Nodup := by
  obtain ⟨n, children⟩ := d
  rw [mergeFrameIntoNode]
  split
  · rename_i h
    refine ⟨.placeholder h findMatchingFrame_fair, ?_⟩
    cases hfind : findMatchingFrame parse url frames n used with
    | none => exact hused
    | some frame => exact nodup_cons.mpr ⟨(findMatchingFrame_left hfind).1.2, hused⟩
  · rename_i h
    obtain ⟨hall, hused'⟩ := merged_nodes children used hused
    exact ⟨.node h hall, hused'⟩

theorem merged_nodes (ds : List (DomNode σ)) (used : List Int) (hused : used.Nodup) :
    MergedAll parse url frames used ds (mergeFrameIntoNodes parse url frames ds used).1
      (mergeFrameIntoNodes parse url frames ds used).2 ∧
    (mergeFrameIntoNodes parse url frames ds used).2.Nodup := by
  match ds with
  | [] => exact ⟨.nil, hused⟩
  | d :: ds =>
    obtain ⟨hd, hused'⟩ := merged_node d used hused
    obtain ⟨hds, hused''⟩ := merged_nodes ds _ hused'
    exact ⟨.cons hd hds, hused''⟩

end

variable (parse) in
/-- Only placeholders change: each takes a frame of its own document that is left, or is marked. -/
theorem frames_merged (domTree : DomNode σ) (frameTree : FrameTreeNode σ) : ∃ usedFrames,
    Merged parse frameTree.url (framesOf parse frameTree.children) [] domTree
      (mergeFrameTreeIntoDom parse domTree frameTree) usedFrames ∧ usedFrames.Nodup := by
  obtain ⟨frameId, url, tree, status, error, children⟩ := frameTree
  exact ⟨_, merged_node domTree [] nodup_nil⟩

end

def iframe (src : String) : NodeData Unit :=
  ⟨some "iframe", [("src", src)], (), true, none, none, none, none⟩

def html (children : List (DomNode Unit)) : DomNode Unit :=
  .mk ⟨some "html", [], (), false, none, none, none, none⟩ children

def frameAt (frameId : Int) (url : String) (children : List (FrameTreeNode Unit)) : FrameTreeNode Unit :=
  ⟨frameId, url, html [], none, none, children⟩

/-- For the URLs of one host. -/
def parsePage : Parse := fun url _ =>
  let path := url.toList.drop "https://example.com".length
  some ⟨url, "https://example.com", String.ofList (path.takeWhile (· != '?'))⟩

/-- The first placeholder takes the frame of the second, whose path its own extends; and a placeholder
takes the frame listed first, whose URL differs from its own in the query. -/
theorem frame_goes_elsewhere :
    let url := "https://example.com/"
    let first := iframe "https://example.com/frame/child"
    let second := iframe "https://example.com/frame"
    let third := iframe "https://example.com/frame?tab=1"
    let frame : Frame Unit := ⟨1, "https://example.com/frame", none, none, html []⟩
    let tab1 : Frame Unit := ⟨1, "https://example.com/frame?tab=1", none, none, html []⟩
    let tab2 : Frame Unit := ⟨2, "https://example.com/frame?tab=2", none, none, html []⟩
    (SameURL parsePage url second frame ∧ ¬SameURL parsePage url first frame ∧
      mergeFrameTreeIntoDom parsePage (html [.mk first [], .mk second []])
          (frameAt 0 url [frameAt 1 frame.url []]) =
        html [mergePlaceholder parsePage url first [] (some frame),
          mergePlaceholder parsePage url second [] none]) ∧
    SameURL parsePage url third tab1 ∧
      mergeFrameTreeIntoDom parsePage (html [.mk third []])
          (frameAt 0 url [frameAt 2 tab2.url [], frameAt 1 tab1.url []]) =
        html [mergePlaceholder parsePage url third [] (some tab2)] := by
  refine ⟨⟨⟨_, rfl, rfl⟩, ?_, rfl⟩, ⟨_, rfl, rfl⟩, rfl⟩
  rintro ⟨u, hn, hf⟩
  exact absurd (hn.trans hf.symm) (by decide)

end Frames

end Aegis
