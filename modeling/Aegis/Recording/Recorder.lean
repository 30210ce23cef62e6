import Aegis.Recording.RoundTrip
import Aegis.Recording.Expand
import Mathlib.Data.List.Sort

/-!
# Recording.Recorder

The snapshots of a recording of version 2: `ContentRecorder`, of `extension/src/content.ts`.

A capture takes a sequence number when it starts and is pushed when it ends. What is pushed may
become a reference to the last content snapshot or a delta against the last full one. A snapshot is
kept here with the candidate that it was made of, so that what a stopped recording expands to can be
compared with what was captured.
-/

namespace Aegis

open List

namespace Recorder

open Expand (Fields)

inductive SnapshotPhase where
  | initial | beforeAction | final
deriving DecidableEq

def SnapshotPhase.name : SnapshotPhase → String
  | initial => "initial"
  | beforeAction => "before-action"
  | final => "final"

structure Page where
  url : String
  content : SnapshotContent ℚ
  /-- The tree is defined; else the tree of the content is not there. -/
  hasTree : Bool

structure Candidate extends Page where
  sequence : Nat
  phase : SnapshotPhase

inductive Body where
  | whole
  | reference (ref : Nat)
  | delta (base : Nat) (patch : List (Json ℚ))

structure Snapshot where
  candidate : Candidate
  body : Body

namespace Snapshot

def sequence (x : Snapshot) : Nat := x.candidate.sequence

def isFull (x : Snapshot) : Bool :=
  match x.body with
  | .whole => x.candidate.hasTree
  | _ => false

def target (x : Snapshot) : Option Nat :=
  match x.body with
  | .whole => none
  | .reference ref => some ref
  | .delta base _ => some base

def json (x : Snapshot) : Fields :=
  let phase : String × Json ℚ := ("phase", .str x.candidate.phase.name)
  let sequence : String × Json ℚ := ("sequence", .num x.sequence)
  let url : String × Json ℚ := ("url", .str x.candidate.url)
  match x.body with
  | .whole =>
    ("capture", x.candidate.content.capture) ::
      (if x.candidate.hasTree then [("domTree", x.candidate.content.domTree)] else []) ++
      [phase, ("selectorMap", x.candidate.content.selectorMap), sequence, url]
  | .reference ref => [phase, ("ref", .num ref), ("selectorMap", .obj []), sequence, url]
  | .delta base patch =>
    [("base", .num base), ("patch", .arr patch), phase, ("selectorMap", .obj []), sequence, url]

end Snapshot

mutual

/-- Without the keys `boundingRect`, at any depth. -/
def stripRects : Json ℚ → Json ℚ
  | .arr items => .arr (stripItems items)
  | .obj fields => .obj (stripFields fields)
  | v => v

def stripItems : List (Json ℚ) → List (Json ℚ)
  | [] => []
  | v :: items => stripRects v :: stripItems items

def stripFields : List (String × Json ℚ) → List (String × Json ℚ)
  | [] => []
  | (key, v) :: fields =>
    if key = "boundingRect" then stripFields fields else (key, stripRects v) :: stripFields fields

end

/-- What `JSON.stringify` and `Object.keys` make of values. Texts that agree are of one value, but a
value has several texts, with its keys in different orders. -/
structure Texts where
  agree : Json ℚ → Json ℚ → Bool
  eq_of_agree : ∀ v w, agree v w = true → v = w
  length : Json ℚ → Nat
  order : KeyOrder

/-- `lastContentSnapshot`. -/
structure Baseline where
  sequence : Nat
  url : String
  content : SnapshotContent ℚ

structure State where
  snapshotSequence : Nat
  captures : List (Nat × SnapshotPhase)
  snapshots : List Snapshot
  lastContentSnapshot : Option Baseline
  deltaBase : Option (Nat × SnapshotContent ℚ)
  saved : Option (List Snapshot)

def initial : State := ⟨0, [], [], none, none, none⟩

section Operations

variable (t : Texts)

/-- `snapshotContentEqualsBaseline`. -/
def equalsBaseline (c : Candidate) (b : Baseline) : Bool :=
  b.url == c.url && t.agree b.content.capture c.content.capture &&
    t.agree (stripRects b.content.selectorMap) (stripRects c.content.selectorMap) &&
    t.agree b.content.domTree c.content.domTree

def deltaOf (s : State) (c : Candidate) : Option (Nat × List (Json ℚ)) :=
  s.deltaBase.bind fun base =>
    (Delta.buildSnapshotDelta t.order t.length (base.1 : ℚ) base.2 c.content).map fun d =>
      (base.1, d.2)

/-- `rememberContentSnapshot`. -/
def remember (c : Candidate) : Baseline := ⟨c.sequence, c.url, c.content⟩

/-- The wrapped `push`, with `deduplicateSnapshot`. -/
def push (c : Candidate) (s : State) : State :=
  if !c.hasTree then { s with snapshots := s.snapshots ++ [⟨c, .whole⟩] }
  else
    match s.lastContentSnapshot.filter (equalsBaseline t c) with
    | some b => { s with snapshots := s.snapshots ++ [⟨c, .reference b.sequence⟩] }
    | none =>
      match deltaOf t s c with
      | some d => { s with
          snapshots := s.snapshots ++ [⟨c, .delta d.1 d.2⟩]
          lastContentSnapshot := some (remember c) }
      | none => { s with
          snapshots := s.snapshots ++ [⟨c, .whole⟩]
          lastContentSnapshot := some (remember c)
          deltaBase := some (c.sequence, c.content) }

/-- `restorePersistedState`, in a new document: no capture is under way there. -/
def restore (snapshots : List Snapshot) (s : State) : State :=
  -- `restoreSnapshotDedupBaseline`
  let full := (snapshots.reverse.find? Snapshot.isFull).map Snapshot.candidate
  { snapshotSequence := snapshots.foldl (fun next x => max next (x.sequence + 1)) 0
    captures := []
    snapshots := snapshots
    lastContentSnapshot := full.map remember
    deltaBase := full.map fun c => (c.sequence, c.content)
    saved := s.saved }

inductive Op where
  /-- `captureSnapshot` takes its number. -/
  | start (phase : SnapshotPhase)
  | finish (sequence : Nat) (phase : SnapshotPhase) (page : Page)
  /-- `captureLocalSnapshot`, pushed at once. -/
  | captureLocal (phase : SnapshotPhase) (page : Page)
  | persist
  | restore
  /-- `removeFinalSnapshotsInPlace`. -/
  | removeFinals

def step (s : State) : Op → Option State
  | .start phase => some { s with
      snapshotSequence := s.snapshotSequence + 1
      captures := (s.snapshotSequence, phase) :: s.captures }
  | .finish sequence phase page =>
    if (sequence, phase) ∈ s.captures then
      some (push t { page with sequence := sequence, phase := phase }
        { s with captures := s.captures.erase (sequence, phase) })
    else none
  | .captureLocal phase page =>
    some (push t { page with sequence := s.snapshotSequence, phase := phase }
      { s with snapshotSequence := s.snapshotSequence + 1 })
  | .persist => some { s with saved := some s.snapshots }
  | .restore => s.saved.map fun snapshots => restore snapshots s
  | .removeFinals => some { s with
      snapshots := s.snapshots.filter fun x => x.candidate.phase ≠ .final }

def bySequence (l : List Snapshot) : List Snapshot :=
  l.mergeSort fun x y => decide (x.sequence ≤ y.sequence)

/-- The snapshots that `finalizeStop` leaves. -/
def stopped (s : State) : List Snapshot := bySequence s.snapshots

def stoppedJson (s : State) : Fields :=
  [("snapshots", .arr ((stopped s).map fun x => .obj x.json)), ("version", .str "2.0.0")]

/-- The number is that of a stored snapshot before `sequence`. -/
def Earlier (s : State) (number sequence : Nat) : Prop :=
  number < sequence ∧ ∃ y ∈ s.snapshots, y.sequence = number

/-- What the encoder names is stored and comes before the candidate in the order of the numbers, and
a delta can be undone. -/
def SoundPush (s : State) (c : Candidate) : Prop :=
  c.hasTree = true → match s.lastContentSnapshot.filter (equalsBaseline t c) with
    | some b => Earlier s b.sequence c.sequence
    | none => ∀ base, s.deltaBase = some base → deltaOf t s c ≠ none → Earlier s base.1 c.sequence ∧
          Delta.sharesInherited (.obj base.2.fields) (.obj c.content.fields) = true

/-- No final snapshot is the target of one that stays. -/
def SoundRemoval (s : State) : Prop :=
  ∀ x ∈ s.snapshots, x.candidate.phase = .final →
    ∀ y ∈ s.snapshots, y.candidate.phase ≠ .final → y.target ≠ some x.sequence

def SoundOp (s : State) : Op → Prop
  | .finish sequence phase page => SoundPush t s { page with sequence := sequence, phase := phase }
  | .captureLocal phase page =>
    SoundPush t s { page with sequence := s.snapshotSequence, phase := phase }
  | .removeFinals => SoundRemoval s
  | _ => True

inductive Reached : State → Prop where
  | initial : Reached initial
  | step {s s' : State} {op : Op} : Reached s → step t s op = some s' → SoundOp t s op → Reached s'

end Operations

namespace Snapshot

def isContent (x : Snapshot) : Bool :=
  match x.body with
  | .reference _ => false
  | _ => x.candidate.hasTree

theorem isContent_of_isFull {x : Snapshot} (h : x.isFull) : x.isContent = true := by
  obtain ⟨c, body⟩ := x
  cases body <;> first | exact h | cases h

end Snapshot

/-- The same content, up to the places of elements. -/
def SameContent (c d : Candidate) : Prop :=
  c.content.domTree = d.content.domTree ∧ c.content.capture = d.content.capture ∧
    stripRects c.content.selectorMap = stripRects d.content.selectorMap

/-- What a stored snapshot names is stored, comes before it and leads back to its candidate. -/
def Resolves (l : List Snapshot) (x : Snapshot) : Prop :=
  match x.body with
  | .whole => True
  | .reference ref => x.candidate.hasTree = true ∧ ∃ y ∈ l, y.isContent = true ∧ y.sequence = ref ∧
      ref < x.sequence ∧ SameContent x.candidate y.candidate
  | .delta base patch => x.candidate.hasTree = true ∧ ∃ y ∈ l, y.isFull = true ∧
      y.sequence = base ∧ base < x.sequence ∧
      Patch.Server.applySnapshotPatch y.candidate.content.fields patch = some x.candidate.content.fields

/-- Numbers are distinct, and every reference resolves. -/
structure Linked (l : List Snapshot) : Prop where
  distinct : l.Pairwise fun x y => x.sequence ≠ y.sequence
  resolves : ∀ x ∈ l, Resolves l x

/-- A baseline is that of the stored snapshot of its number, if there is one. -/
def Agrees (s : State) (number : Nat) (P : Snapshot → Prop) : Prop :=
  number < s.snapshotSequence ∧ (∀ n ∈ s.captures, n.1 ≠ number) ∧
    ∀ y ∈ s.snapshots, y.sequence = number → P y

/-- The invariant: stored snapshots are linked, and the next number is free. -/
structure Inv (s : State) : Prop where
  linked : Linked s.snapshots
  below : ∀ x ∈ s.snapshots, x.sequence < s.snapshotSequence
  free : ∀ n ∈ s.captures, n.1 < s.snapshotSequence ∧ ∀ x ∈ s.snapshots, x.sequence ≠ n.1
  once : s.captures.Pairwise fun n m => n.1 ≠ m.1
  last : ∀ b, s.lastContentSnapshot = some b →
    Agrees s b.sequence fun y => y.isContent = true ∧ remember y.candidate = b
  base : ∀ b, s.deltaBase = some b → Agrees s b.1 fun y => y.isFull = true ∧ y.candidate.content = b.2
  saved : ∀ l, s.saved = some l → Linked l

section Invariant

variable {t : Texts} {s : State} {l : List Snapshot}

theorem inv_initial : Inv initial where
  linked := ⟨List.Pairwise.nil, fun _ h => absurd h not_mem_nil⟩
  below _ h := absurd h not_mem_nil
  free _ h := absurd h not_mem_nil
  once := List.Pairwise.nil
  last _ h := by cases h
  base _ h := by cases h
  saved _ h := by cases h

variable {x : Snapshot}

theorem Resolves.mono {l' : List Snapshot} (h : Resolves l x)
    (hsub : ∀ y ∈ l, x.target = some y.sequence → y ∈ l') : Resolves l' x := by
  obtain ⟨c, body⟩ := x
  cases body with
  | whole => trivial
  | reference ref =>
    obtain ⟨htree, y, hy, hcontent, hseq, hrest⟩ := h
    exact ⟨htree, y, hsub y hy (by rw [hseq]; rfl), hcontent, hseq, hrest⟩
  | delta base patch =>
    obtain ⟨htree, y, hy, hfull, hseq, hrest⟩ := h
    exact ⟨htree, y, hsub y hy (by rw [hseq]; rfl), hfull, hseq, hrest⟩

theorem Linked.push (h : Linked l) (hnew : ∀ y ∈ l, y.sequence ≠ x.sequence)
    (hx : Resolves l x) : Linked (l ++ [x]) := by
  have hleft : ∀ {y : Snapshot}, y ∈ l → y ∈ l ++ [x] := fun hy => mem_append_left _ hy
  constructor
  · refine pairwise_append.mpr ⟨h.distinct, pairwise_singleton _ _, fun y hy z hz => ?_⟩
    rw [mem_singleton.mp hz]
    exact hnew y hy
  · intro y hy
    rcases mem_append.mp hy with hy | hy
    · exact (h.resolves y hy).mono fun z hz _ => hleft hz
    · rw [mem_singleton.mp hy]
      exact hx.mono fun z hz _ => hleft hz

structure Taken (s : State) (sequence : Nat) : Prop where
  below : sequence < s.snapshotSequence
  captures : ∀ n ∈ s.captures, n.1 ≠ sequence
  snapshots : ∀ x ∈ s.snapshots, x.sequence ≠ sequence
  last : ∀ b, s.lastContentSnapshot = some b → b.sequence ≠ sequence
  base : ∀ b, s.deltaBase = some b → b.1 ≠ sequence

variable {P : Snapshot → Prop}

theorem Agrees.push {number : Nat} (h : Agrees s number P) (hx : number ≠ x.sequence) :
    Agrees { s with snapshots := s.snapshots ++ [x] } number P := by
  obtain ⟨hlt, hcaptures, hstored⟩ := h
  refine ⟨hlt, hcaptures, fun y hy hseq => ?_⟩
  rcases mem_append.mp hy with hy | hy
  · exact hstored y hy hseq
  · rw [mem_singleton.mp hy] at hseq
    exact absurd hseq.symm hx

theorem agrees_new (htaken : Taken s x.sequence) (hx : P x) :
    Agrees { s with snapshots := s.snapshots ++ [x] } x.sequence P := by
  refine ⟨htaken.below, htaken.captures, fun y hy hseq => ?_⟩
  rcases mem_append.mp hy with hy | hy
  · exact absurd hseq (htaken.snapshots y hy)
  · rwa [mem_singleton.mp hy]

theorem Inv.store (h : Inv s) (htaken : Taken s x.sequence)
    (hx : Resolves s.snapshots x) : Inv { s with snapshots := s.snapshots ++ [x] } where
  linked := h.linked.push htaken.snapshots hx
  below y hy := by
    rcases mem_append.mp hy with hy | hy
    · exact h.below y hy
    · rw [mem_singleton.mp hy]
      exact htaken.below
  free n hn := by
    refine ⟨(h.free n hn).1, fun y hy => ?_⟩
    rcases mem_append.mp hy with hy | hy
    · exact (h.free n hn).2 y hy
    · rw [mem_singleton.mp hy]
      exact (htaken.captures n hn).symm
  once := h.once
  last b hb := (h.last b hb).push (htaken.last b hb)
  base b hb := (h.base b hb).push (htaken.base b hb)
  saved := h.saved

theorem eq_of_equalsBaseline {c : Candidate} {b : Baseline} (h : equalsBaseline t c b) :
    b.content.capture = c.content.capture ∧
      stripRects b.content.selectorMap = stripRects c.content.selectorMap ∧
      b.content.domTree = c.content.domTree := by
  simp only [equalsBaseline, Bool.and_eq_true] at h
  obtain ⟨⟨⟨-, hcapture⟩, hmap⟩, htree⟩ := h
  exact ⟨t.eq_of_agree _ _ hcapture, t.eq_of_agree _ _ hmap, t.eq_of_agree _ _ htree⟩

theorem Inv.push {c : Candidate} (h : Inv s) (htaken : Taken s c.sequence)
    (hsound : SoundPush t s c) : Inv (push t c s) := by
  unfold Recorder.push
  cases htree : c.hasTree with
  | false => exact h.store htaken trivial
  | true =>
    have hpush := hsound htree
    rw [if_neg (by decide)]
    split
    · -- a reference
      rename_i b hb
      rw [hb] at hpush
      obtain ⟨hlt, y, hy, hseq⟩ := hpush
      obtain ⟨hlast, hequal⟩ := Option.filter_eq_some_iff.mp hb
      obtain ⟨-, -, hstored⟩ := h.last b hlast
      obtain ⟨hcontent, rfl⟩ := hstored y hy hseq
      obtain ⟨hcapture, hmap, hdom⟩ := eq_of_equalsBaseline hequal
      exact h.store (x := ⟨c, .reference (remember y.candidate).sequence⟩) htaken
        ⟨htree, y, hy, hcontent, hseq, hlt, hdom.symm, hcapture.symm, hmap.symm⟩
    · rename_i hnone
      rw [hnone] at hpush
      split
      · -- a delta
        rename_i d hd
        obtain ⟨base, hbase, hbuild⟩ := Option.bind_eq_some_iff.mp hd
        obtain ⟨e, he, rfl⟩ := Option.map_eq_some_iff.mp hbuild
        obtain ⟨⟨hlt, y, hy, hseq⟩, hshares⟩ := hpush base hbase (by rw [hd]; exact Option.some_ne_none _)
        obtain ⟨-, -, hstored⟩ := h.base base hbase
        obtain ⟨hfull, hcontent⟩ := hstored y hy hseq
        have hx : Resolves s.snapshots ⟨c, .delta base.1 e.2⟩ := by
          refine ⟨htree, y, hy, hfull, hseq, hlt, ?_⟩
          rw [hcontent]
          exact (Delta.server_delta_iff t.order t.length (base.1 : ℚ) he).mpr hshares
        have hnew := h.store (x := ⟨c, .delta base.1 e.2⟩) htaken hx
        refine { hnew with last := fun b hb => ?_ }
        cases hb
        exact agrees_new (x := ⟨c, .delta base.1 e.2⟩) htaken ⟨htree, rfl⟩
      · -- a full snapshot
        have hnew := h.store (x := ⟨c, .whole⟩) htaken trivial
        refine { hnew with last := fun b hb => ?_, base := fun b hb => ?_ }
        all_goals
          cases hb
          exact agrees_new (x := ⟨c, .whole⟩) htaken ⟨htree, rfl⟩

theorem eq_of_pairwise_ne {γ : Type} {f : γ → Nat} {l : List γ} {a b : γ}
    (h : l.Pairwise fun a b => f a ≠ f b) (ha : a ∈ l) (hb : b ∈ l) (heq : f a = f b) : a = b :=
  inj_on_of_nodup_map (pairwise_map.mpr h) ha hb heq

theorem Agrees.mono {s' : State} {number : Nat} (h : Agrees s number P)
    (hseq : s.snapshotSequence ≤ s'.snapshotSequence)
    (hcaptures : ∀ n ∈ s'.captures, n ∈ s.captures ∨ s.snapshotSequence ≤ n.1)
    (hsnapshots : ∀ x ∈ s'.snapshots, x ∈ s.snapshots) : Agrees s' number P := by
  obtain ⟨hlt, hfree, hstored⟩ := h
  refine ⟨by omega, fun n hn => ?_, fun y hy => hstored y (hsnapshots y hy)⟩
  rcases hcaptures n hn with hn | hn
  · exact hfree n hn
  · omega

theorem Inv.start (h : Inv s) (phase : SnapshotPhase) :
    Inv { s with
      snapshotSequence := s.snapshotSequence + 1
      captures := (s.snapshotSequence, phase) :: s.captures } := by
  have hcaptures : ∀ n ∈ (s.snapshotSequence, phase) :: s.captures,
      n ∈ s.captures ∨ s.snapshotSequence ≤ n.1 := by
    intro n hn
    rcases mem_cons.mp hn with rfl | hn
    · exact .inr (Nat.le_refl _)
    · exact .inl hn
  refine ⟨h.linked, fun x hx => Nat.lt_succ_of_lt (h.below x hx), fun n hn => ?_, ?_,
    fun b hb => (h.last b hb).mono (Nat.le_succ _) hcaptures fun _ hx => hx,
    fun b hb => (h.base b hb).mono (Nat.le_succ _) hcaptures fun _ hx => hx, h.saved⟩
  · rcases mem_cons.mp hn with rfl | hn
    · exact ⟨Nat.lt_succ_self _, fun x hx => Nat.ne_of_lt (h.below x hx)⟩
    · exact ⟨Nat.lt_succ_of_lt (h.free n hn).1, (h.free n hn).2⟩
  · exact pairwise_cons.mpr ⟨fun n hn => Nat.ne_of_gt (h.free n hn).1, h.once⟩

theorem Inv.finish {n : Nat × SnapshotPhase} (h : Inv s) (hn : n ∈ s.captures) :
    Inv { s with captures := s.captures.erase n } ∧
      Taken { s with captures := s.captures.erase n } n.1 := by
  have hsub : ∀ m ∈ s.captures.erase n, m ∈ s.captures := fun _ hm => mem_of_mem_erase hm
  have hnodup : s.captures.Nodup := h.once.imp fun {a b} hne heq => hne (congrArg Prod.fst heq)
  constructor
  · exact ⟨h.linked, h.below, fun m hm => h.free m (hsub m hm),
      h.once.sublist (erase_sublist),
      fun b hb => (h.last b hb).mono (Nat.le_refl _) (fun m hm => .inl (hsub m hm)) fun _ hx => hx,
      fun b hb => (h.base b hb).mono (Nat.le_refl _) (fun m hm => .inl (hsub m hm)) fun _ hx => hx,
      h.saved⟩
  · refine ⟨(h.free n hn).1, fun m hm => ?_, (h.free n hn).2, fun b hb => ?_, fun b hb => ?_⟩
    · obtain ⟨hne, hm⟩ := hnodup.mem_erase_iff.mp hm
      exact fun heq => hne (eq_of_pairwise_ne h.once hm hn heq)
    · exact ((h.last b hb).2.1 n hn).symm
    · exact ((h.base b hb).2.1 n hn).symm

theorem Inv.takeNumber (h : Inv s) : Inv { s with snapshotSequence := s.snapshotSequence + 1 } ∧
      Taken { s with snapshotSequence := s.snapshotSequence + 1 } s.snapshotSequence := by
  constructor
  · exact ⟨h.linked, fun x hx => Nat.lt_succ_of_lt (h.below x hx),
      fun n hn => ⟨Nat.lt_succ_of_lt (h.free n hn).1, (h.free n hn).2⟩, h.once,
      fun b hb => (h.last b hb).mono (Nat.le_succ _) (fun _ hn => .inl hn) fun _ hx => hx,
      fun b hb => (h.base b hb).mono (Nat.le_succ _) (fun _ hn => .inl hn) fun _ hx => hx, h.saved⟩
  · exact ⟨Nat.lt_succ_self _, fun n hn => Nat.ne_of_lt (h.free n hn).1,
      fun x hx => Nat.ne_of_lt (h.below x hx), fun b hb => Nat.ne_of_lt (h.last b hb).1,
      fun b hb => Nat.ne_of_lt (h.base b hb).1⟩

theorem lt_foldl_sequence (l : List Snapshot) (m : Nat) :
    m ≤ l.foldl (fun next x => max next (x.sequence + 1)) m ∧
      ∀ x ∈ l, x.sequence < l.foldl (fun next x => max next (x.sequence + 1)) m := by
  induction l generalizing m with
  | nil => exact ⟨Nat.le_refl m, fun _ h => absurd h not_mem_nil⟩
  | cons y l ih =>
    obtain ⟨hle, hlt⟩ := ih (max m (y.sequence + 1))
    rw [foldl_cons]
    refine ⟨by omega, fun x hx => ?_⟩
    rcases mem_cons.mp hx with rfl | hx
    · omega
    · exact hlt x hx

theorem Inv.restore (h : Inv s) (hl : s.saved = some l) : Inv (restore l s) := by
  have hlinked := h.saved l hl
  obtain ⟨-, hbelow⟩ := lt_foldl_sequence l 0
  -- the newest full snapshot is the only one of its number
  have hfull : ∀ c, (l.reverse.find? Snapshot.isFull).map Snapshot.candidate = some c →
      Agrees (Recorder.restore l s) c.sequence fun y => y.isFull = true ∧ y.candidate = c := by
    intro c hc
    obtain ⟨x, hx, rfl⟩ := Option.map_eq_some_iff.mp hc
    have hmem : x ∈ l := mem_reverse.mp (mem_of_find?_eq_some hx)
    refine ⟨hbelow x hmem, fun _ hn => absurd hn not_mem_nil, fun y hy hseq => ?_⟩
    obtain rfl : y = x := eq_of_pairwise_ne hlinked.distinct hy hmem hseq
    exact ⟨find?_some hx, rfl⟩
  refine ⟨hlinked, hbelow, fun _ hn => absurd hn not_mem_nil, List.Pairwise.nil,
    fun b hb => ?_, fun b hb => ?_, fun l' hl' => h.saved l' hl'⟩
  · obtain ⟨c, hc, rfl⟩ := Option.map_eq_some_iff.mp hb
    obtain ⟨hlt, hfree, hstored⟩ := hfull c hc
    refine ⟨hlt, hfree, fun y hy hseq => ?_⟩
    obtain ⟨hy, rfl⟩ := hstored y hy hseq
    exact ⟨Snapshot.isContent_of_isFull hy, rfl⟩
  · obtain ⟨c, hc, rfl⟩ := Option.map_eq_some_iff.mp hb
    obtain ⟨hlt, hfree, hstored⟩ := hfull c hc
    refine ⟨hlt, hfree, fun y hy hseq => ?_⟩
    obtain ⟨hy, rfl⟩ := hstored y hy hseq
    exact ⟨hy, rfl⟩

theorem Inv.removeFinals (h : Inv s) (hsound : SoundRemoval s) :
    Inv { s with snapshots := s.snapshots.filter fun x => x.candidate.phase ≠ .final } := by
  have hsub : ∀ x ∈ s.snapshots.filter fun x => x.candidate.phase ≠ .final, x ∈ s.snapshots :=
    fun _ hx => mem_of_mem_filter hx
  refine ⟨⟨h.linked.distinct.filter _, fun x hx => ?_⟩, fun x hx => h.below x (hsub x hx),
    fun n hn => ⟨(h.free n hn).1, fun x hx => (h.free n hn).2 x (hsub x hx)⟩, h.once,
    fun b hb => (h.last b hb).mono (Nat.le_refl _) (fun _ hn => .inl hn) hsub,
    fun b hb => (h.base b hb).mono (Nat.le_refl _) (fun _ hn => .inl hn) hsub, h.saved⟩
  have hphase : x.candidate.phase ≠ .final := of_decide_eq_true (mem_filter.mp hx).2
  refine (h.linked.resolves x (hsub x hx)).mono fun y hy htarget => ?_
  refine mem_filter.mpr ⟨hy, decide_eq_true fun hfinal => ?_⟩
  exact hsound y hy hfinal x (hsub x hx) hphase htarget

theorem inv_step {s' : State} {op : Op} (h : Inv s) (hstep : step t s op = some s')
    (hsound : SoundOp t s op) : Inv s' := by
  cases op with
  | start phase =>
    cases hstep
    exact h.start phase
  | finish sequence phase page =>
    rw [step] at hstep
    split at hstep
    · rename_i hn
      cases hstep
      obtain ⟨hinv, htaken⟩ := h.finish hn
      exact hinv.push htaken hsound
    · cases hstep
  | captureLocal phase page =>
    cases hstep
    obtain ⟨hinv, htaken⟩ := h.takeNumber
    exact hinv.push htaken hsound
  | persist =>
    cases hstep
    exact { h with saved := fun l hl => Option.some.inj hl ▸ h.linked }
  | restore =>
    obtain ⟨l, hl, rfl⟩ := Option.map_eq_some_iff.mp hstep
    exact h.restore hl
  | removeFinals =>
    cases hstep
    exact h.removeFinals hsound

theorem inv_reached (h : Reached t s) : Inv s := by
  induction h with
  | initial => exact inv_initial
  | step _ hstep hsound ih => exact inv_step ih hstep hsound

end Invariant

section Decoder

open Expand (Content copyContent writeFields)
open Expand.Server (referenceSequence expandOne expandAll)

variable {machine : Expand.Int64Of} {l : List Snapshot} {content : Content} {x y : Snapshot}

structure Holds (fields : Fields) (c : Candidate) : Prop where
  domTree : fields.lookup "domTree" = some c.content.domTree
  selectorMap : fields.lookup "selectorMap" = some c.content.selectorMap
  capture : fields.lookup "capture" = some c.content.capture

/-- An expanded snapshot has what was captured under its number, but for the rectangles. -/
structure Shows (fields : Fields) (c : Candidate) : Prop where
  sequence : fields.lookup "sequence" = some (.num c.sequence)
  url : fields.lookup "url" = some (.str c.url)
  domTree : fields.lookup "domTree" = if c.hasTree then some c.content.domTree else none
  capture : fields.lookup "capture" = some c.content.capture
  selectorMap : ∃ map, fields.lookup "selectorMap" = some map ∧
    stripRects map = stripRects c.content.selectorMap

def Source (x y : Snapshot) : Prop :=
  match x.body with
  | .reference ref => y.sequence = ref
  | _ => y = x

/-- An expanded snapshot, with the selectors of its source in `l`. -/
structure ShowsFrom (l : List Snapshot) (fields : Fields) (x : Snapshot) : Prop where
  shows : Shows fields x.candidate
  source : ∃ y ∈ l, Source x y ∧ fields.lookup "selectorMap" = some y.candidate.content.selectorMap

/-- The decoder has the content of the snapshots in `done`. -/
def Knows (content : Content) (done : List Snapshot) : Prop :=
  ∀ y ∈ done, y.isContent = true →
    ∃ fields, content.lookup (y.sequence : ℚ) = some fields ∧ Holds fields y.candidate

theorem referenceSequence_natCast {n : Nat} (h : n < 2 ^ 63) :
    referenceSequence machine (.num (n : ℚ)) = some (n : ℚ) := by
  have hnonneg : (0 : ℚ) ≤ n := Nat.cast_nonneg n
  have hlt : (n : ℚ) < 2 ^ 63 := by exact_mod_cast h
  have hint : machine.toInt (n : ℚ) = n := by
    rw [machine.inRange n hnonneg hlt, Int.floor_natCast]
  rw [referenceSequence, hint, if_neg]
  rintro (hneg | hne)
  · exact absurd hnonneg (not_le.mpr hneg)
  · exact hne (Int.cast_natCast n).symm

theorem copyContent_eq {fields : Fields} {c : Candidate} (h : Holds fields c) :
    copyContent ["selectorMap", "domTree", "capture"] fields [] = c.content.fields := by
  have hmap : ¬ "domTree" < "domTree" := lt_irrefl _
  have hnames : "capture" < "domTree" ∧ "domTree" < "selectorMap" := by
    simp only [String.lt_iff_toList_lt]
    decide
  simp [copyContent, h.selectorMap, h.domTree, h.capture, Assoc.set, SnapshotContent.fields, hnames]

theorem lookup_writeFields_content (c : SnapshotContent ℚ) (snapshot : Fields) (key : String) :
    (writeFields c.fields snapshot).lookup key =
      if key = "selectorMap" then some c.selectorMap else if key = "domTree" then some c.domTree
      else if key = "capture" then some c.capture else snapshot.lookup key := by
  simp only [writeFields, SnapshotContent.fields, foldl_cons, foldl_nil, Assoc.lookup_set]

theorem expandOne_whole (hbody : x.body = .whole) :
    ∃ content', expandOne machine content x.json = some (content', x.json) ∧
      (content' = if x.candidate.hasTree then (((x.sequence : Nat) : ℚ), x.json) :: content
        else content) ∧ Shows x.json x.candidate ∧
      x.json.lookup "selectorMap" = some x.candidate.content.selectorMap := by
  obtain ⟨c, body⟩ := x
  obtain rfl : body = .whole := hbody
  cases htree : c.hasTree with
  | false =>
    refine ⟨content, ?_, by simp, ?_, by simp [Snapshot.json, htree, lookup_cons]⟩
    · simp [expandOne, Snapshot.json, htree, lookup_cons]
    · constructor <;> simp [Snapshot.json, htree, lookup_cons, Snapshot.sequence]
  | true =>
    refine ⟨_, ?_, rfl, ?_, by simp [Snapshot.json, htree, lookup_cons]⟩
    · simp [expandOne, Snapshot.json, htree, lookup_cons, Expand.remember, Expand.numericSequence]
    · constructor <;> simp [Snapshot.json, htree, lookup_cons, Snapshot.sequence]

theorem expandOne_reference {ref : Nat} {target : Fields} (hbody : x.body = .reference ref)
    (htree : x.candidate.hasTree) (hlt : ref < 2 ^ 63)
    (htarget : content.lookup (ref : ℚ) = some target) (hholds : Holds target y.candidate)
    (hsame : SameContent x.candidate y.candidate) :
    ∃ fields, expandOne machine content x.json = some (content, fields) ∧ Shows fields x.candidate ∧
      fields.lookup "selectorMap" = some y.candidate.content.selectorMap := by
  obtain ⟨c, body⟩ := x
  obtain rfl : body = .reference ref := hbody
  obtain ⟨hdom, hcapture, hmap⟩ := hsame
  have hlookup : ∀ key, (Assoc.erase "ref" (copyContent ["domTree", "selectorMap", "capture"] target
      (Snapshot.json ⟨c, .reference ref⟩))).lookup key = if key = "ref" then none else
        if key = "capture" then some y.candidate.content.capture
        else if key = "selectorMap" then some y.candidate.content.selectorMap
        else if key = "domTree" then some y.candidate.content.domTree
        else (Snapshot.json ⟨c, .reference ref⟩).lookup key := by
    intro key
    simp only [copyContent, foldl_cons, foldl_nil, hholds.domTree, hholds.selectorMap,
      hholds.capture, Assoc.lookup_erase, Assoc.lookup_set]
  refine ⟨Assoc.erase "ref" (copyContent ["domTree", "selectorMap", "capture"] target
    (Snapshot.json ⟨c, .reference ref⟩)), ?_, ?_, by rw [hlookup]; simp⟩
  · have href : (Snapshot.json ⟨c, .reference ref⟩).lookup "ref" = some (.num (ref : ℚ)) := by
      simp [Snapshot.json, lookup_cons]
    have hpatch : (Snapshot.json ⟨c, .reference ref⟩).lookup "patch" = none := by
      simp [Snapshot.json, lookup_cons]
    rw [expandOne, href, hpatch]
    dsimp only
    rw [referenceSequence_natCast hlt, Option.bind_some, htarget, Option.map_some]
  · constructor
    · rw [hlookup]
      simp [Snapshot.json, lookup_cons, Snapshot.sequence]
    · rw [hlookup]
      simp [Snapshot.json, lookup_cons]
    · rw [hlookup, if_pos htree]
      simpa using hdom.symm
    · rw [hlookup]
      simpa using hcapture.symm
    · refine ⟨y.candidate.content.selectorMap, ?_, hmap.symm⟩
      rw [hlookup]
      simp

theorem expandOne_delta {base : Nat} {patch : List (Json ℚ)} {target : Fields}
    (hbody : x.body = .delta base patch) (htree : x.candidate.hasTree)
    (hlt : base < 2 ^ 63) (htarget : content.lookup (base : ℚ) = some target)
    (hholds : Holds target y.candidate)
    (happlies : Patch.Server.applySnapshotPatch y.candidate.content.fields patch =
      some x.candidate.content.fields) :
    ∃ fields, expandOne machine content x.json =
        some ((((x.sequence : Nat) : ℚ), fields) :: content, fields) ∧
      Shows fields x.candidate ∧ Holds fields x.candidate := by
  obtain ⟨c, body⟩ := x
  obtain rfl : body = .delta base patch := hbody
  have hlookup : ∀ key, (Assoc.erase "patch" (Assoc.erase "base" (writeFields c.content.fields
      (Snapshot.json ⟨c, .delta base patch⟩)))).lookup key = if key = "patch" then none else
        if key = "base" then none else
        if key = "selectorMap" then some c.content.selectorMap
        else if key = "domTree" then some c.content.domTree
        else if key = "capture" then some c.content.capture
        else (Snapshot.json ⟨c, .delta base patch⟩).lookup key := by
    intro key
    rw [Assoc.lookup_erase, Assoc.lookup_erase, lookup_writeFields_content]
  have hsequence : (Assoc.erase "patch" (Assoc.erase "base" (writeFields c.content.fields
      (Snapshot.json ⟨c, .delta base patch⟩)))).lookup "sequence" = some (.num (c.sequence : ℚ)) := by
    rw [hlookup]
    simp [Snapshot.json, lookup_cons, Snapshot.sequence]
  refine ⟨Assoc.erase "patch" (Assoc.erase "base" (writeFields c.content.fields
    (Snapshot.json ⟨c, .delta base patch⟩))), ?_, ?_, ?_⟩
  · have href : (Snapshot.json ⟨c, .delta base patch⟩).lookup "ref" = none := by
      simp [Snapshot.json, lookup_cons]
    have hpatch : (Snapshot.json ⟨c, .delta base patch⟩).lookup "patch" = some (.arr patch) := by
      simp [Snapshot.json, lookup_cons]
    have hbase : (Snapshot.json ⟨c, .delta base patch⟩).lookup "base" = some (.num (base : ℚ)) := by
      simp [Snapshot.json]
    rw [expandOne, href, hpatch]
    dsimp only
    rw [Expand.Server.expandSnapshotDelta, hbase, Option.bind_some, referenceSequence_natCast hlt,
      Option.bind_some, htarget, Option.bind_some]
    dsimp only
    rw [copyContent_eq hholds, happlies, Option.map_some, Option.map_some, hsequence]
    rfl
  · constructor
    · exact hsequence
    · rw [hlookup]
      simp [Snapshot.json, lookup_cons]
    · rw [hlookup, if_pos htree]
      simp
    · rw [hlookup]
      simp
    · refine ⟨c.content.selectorMap, ?_, rfl⟩
      rw [hlookup]
      simp
  · constructor <;> rw [hlookup] <;> simp

theorem Knows.skip {done : List Snapshot} (h : Knows content done) (hx : x.isContent = false) :
    Knows content (done ++ [x]) := by
  intro y hy hcontent
  rcases mem_append.mp hy with hy | hy
  · exact h y hy hcontent
  · rw [mem_singleton.mp hy, hx] at hcontent
    cases hcontent

theorem Knows.add {done : List Snapshot} {fields : Fields} (h : Knows content done)
    (hlater : ∀ y ∈ done, y.sequence < x.sequence) (hholds : Holds fields x.candidate) :
    Knows (((x.sequence : Nat), fields) :: content : Content) (done ++ [x]) := by
  intro y hy hcontent
  rcases mem_append.mp hy with hy | hy
  · obtain ⟨fields', hlookup, hholds'⟩ := h y hy hcontent
    refine ⟨fields', ?_, hholds'⟩
    rw [Assoc.lookup_cons_ne (by
      intro heq
      have hlt := hlater y hy
      exact absurd (Nat.cast_injective heq) (Nat.ne_of_lt hlt)), hlookup]
  · rw [mem_singleton.mp hy]
    exact ⟨fields, Assoc.lookup_cons_self (f := (((x.sequence : Nat) : ℚ), fields)), hholds⟩

theorem expandAll_linked {done rest : List Snapshot} (hlinked : Linked (done ++ rest))
    (horder : (done ++ rest).Pairwise fun x y => x.sequence < y.sequence)
    (hbound : ∀ x ∈ done ++ rest, x.sequence < 2 ^ 63) (hknows : Knows content done) :
    ∃ expanded : List Fields,
      expandAll machine content (rest.map fun x => .obj x.json) = some (expanded.map .obj) ∧
        List.Forall₂ (ShowsFrom (done ++ rest)) expanded rest := by
  induction rest generalizing done content with
  | nil => exact ⟨[], rfl, .nil⟩
  | cons x rest ih =>
    have hassoc : done ++ x :: rest = done ++ [x] ++ rest := by
      rw [append_assoc, singleton_append]
    have hmem : x ∈ done ++ x :: rest := mem_append_right _ mem_cons_self
    have hbefore : ∀ y ∈ done, y.sequence < x.sequence := fun y hy =>
      (pairwise_append.mp horder).2.2 y hy x mem_cons_self
    -- what `x` names has been passed
    have hdone : ∀ y ∈ done ++ x :: rest, y.sequence < x.sequence → y ∈ done := by
      intro y hy hlt
      rcases mem_append.mp hy with hy | hy
      · exact hy
      · rcases mem_cons.mp hy with rfl | hy
        · exact absurd hlt (Nat.lt_irrefl _)
        · have hgt := (pairwise_cons.mp (pairwise_append.mp horder).2.1).1 y hy
          omega
    have hnext : ∀ {content' : Content} {fields : Fields},
        expandOne machine content x.json = some (content', fields) →
        Knows content' (done ++ [x]) → ShowsFrom (done ++ x :: rest) fields x →
        ∃ expanded : List Fields,
          expandAll machine content ((x :: rest).map fun x => .obj x.json) = some (expanded.map .obj) ∧
            List.Forall₂ (ShowsFrom (done ++ x :: rest)) expanded (x :: rest) := by
      intro content' fields hone hknows' hshows
      obtain ⟨expanded, hrest, hall⟩ := ih (hassoc ▸ hlinked) (hassoc ▸ horder) (hassoc ▸ hbound)
        hknows'
      refine ⟨fields :: expanded, ?_, .cons hshows (hassoc ▸ hall)⟩
      rw [map_cons, expandAll, hone, Option.bind_some, hrest, Option.map_some, map_cons]
    have hresolves := hlinked.resolves x hmem
    cases hbody : x.body with
    | whole =>
      obtain ⟨content', hone, hcontent', hshows, hmap⟩ :=
        @expandOne_whole machine content x hbody
      refine hnext hone ?_ ⟨hshows, x, hmem, by rw [Source, hbody], hmap⟩
      rw [hcontent']
      split
      · rename_i htree
        have hdom := hshows.domTree
        rw [if_pos htree] at hdom
        exact hknows.add hbefore ⟨hdom, hmap, hshows.capture⟩
      · rename_i htree
        exact hknows.skip (by simpa [Snapshot.isContent, hbody] using htree)
    | reference ref =>
      simp only [Resolves, hbody] at hresolves
      obtain ⟨htree, y, hy, hcontent, rfl, hlt, hsame⟩ := hresolves
      obtain ⟨target, htarget, hholds⟩ := hknows y (hdone y hy hlt) hcontent
      obtain ⟨fields, hone, hshows, hmap⟩ := @expandOne_reference machine content x y _ target hbody
        htree (hbound y hy) htarget hholds hsame
      exact hnext hone (hknows.skip (by simp [Snapshot.isContent, hbody]))
        ⟨hshows, y, hy, by rw [Source, hbody], hmap⟩
    | delta base patch =>
      simp only [Resolves, hbody] at hresolves
      obtain ⟨htree, y, hy, hfull, rfl, hlt, happlies⟩ := hresolves
      obtain ⟨target, htarget, hholds⟩ := hknows y (hdone y hy hlt)
        (Snapshot.isContent_of_isFull hfull)
      obtain ⟨fields, hone, hshows, hholds'⟩ := @expandOne_delta machine content x y _ patch target
        hbody htree (hbound y hy) htarget hholds happlies
      exact hnext hone (hknows.add hbefore hholds')
        ⟨hshows, x, hmem, by rw [Source, hbody], hholds'.selectorMap⟩

end Decoder

theorem Linked.perm {l l' : List Snapshot} (h : Linked l) (hperm : l.Perm l') : Linked l' := by
  constructor
  · exact (hperm.pairwise_iff fun hab => Ne.symm hab).mp h.distinct
  · intro x hx
    exact (h.resolves x (hperm.mem_iff.mpr hx)).mono fun y hy _ => hperm.mem_iff.mp hy

theorem perm_bySequence (l : List Snapshot) : (bySequence l).Perm l := mergeSort_perm _ _

theorem bySequence_increasing {l : List Snapshot} (h : Linked l) :
    (bySequence l).Pairwise fun x y => x.sequence < y.sequence := by
  have hsorted : (bySequence l).Pairwise fun x y => decide (x.sequence ≤ y.sequence) = true := by
    refine pairwise_mergeSort (fun x y z hxy hyz => ?_) (fun x y => ?_) l
    · rw [decide_eq_true_eq] at *
      omega
    · rw [Bool.or_eq_true, decide_eq_true_eq, decide_eq_true_eq]
      omega
  refine (hsorted.and (h.perm (perm_bySequence l).symm).distinct).imp fun {x y} hxy => ?_
  have hle := of_decide_eq_true hxy.1
  have hne := hxy.2
  omega

/-- Linked snapshots expand, each to what it shows. -/
theorem linked_expands (machine : Expand.Int64Of) {l : List Snapshot} (h : Linked l)
    (hbound : ∀ x ∈ l, x.sequence < 2 ^ 63) : ∃ expanded : List Fields,
      Expand.Server.expandAll machine [] ((bySequence l).map fun x => .obj x.json) =
        some (expanded.map .obj) ∧
      List.Forall₂ (ShowsFrom (bySequence l)) expanded (bySequence l) :=
  @expandAll_linked machine [] [] (bySequence l) (h.perm (perm_bySequence l).symm)
    (bySequence_increasing h) (fun x hx => hbound x ((perm_bySequence l).mem_iff.mp hx))
    (fun _ hy => absurd hy not_mem_nil)

/-- In every run in which each reference and delta names a stored snapshot of a smaller number, each
delta can be undone and no named snapshot is removed, the server expands the stopped recording, and
every snapshot to what was captured. -/
theorem stopped_expands (t : Texts) (machine : Expand.Int64Of) (s : State) (h : Reached t s)
    (hbound : s.snapshotSequence ≤ 2 ^ 63) : ∃ expanded : List Fields,
      Expand.Server.expandSnapshotReferences machine (stoppedJson s) =
        some (Assoc.set "snapshots" (.arr (expanded.map .obj)) (stoppedJson s)) ∧
      List.Forall₂ (fun fields x => Shows fields x.candidate) expanded (stopped s) := by
  have hinv := inv_reached h
  obtain ⟨expanded, hall, hshows⟩ := linked_expands machine hinv.linked fun x hx =>
    lt_of_lt_of_le (hinv.below x hx) hbound
  refine ⟨expanded, ?_, hshows.imp fun _ _ h => h.shows⟩
  have hlookup : (stoppedJson s).lookup "snapshots" =
      some (.arr ((bySequence s.snapshots).map fun x => .obj x.json)) := by
    simp [stoppedJson, stopped]
  rw [Expand.Server.expandSnapshotReferences, hlookup]
  dsimp only
  rw [hall, Option.map_some]

section Runs

def flatAgree : Json ℚ → Json ℚ → Bool
  | .obj [], .obj [] => true
  | .obj [(key, .str s)], .obj [(key', .str s')] => key == key' && s == s'
  | _, _ => false

def flatTexts : Texts where
  agree := flatAgree
  eq_of_agree v w h := by
    unfold flatAgree at h
    split at h <;> simp_all
  length _ := 0
  order := Delta.sameOrder

/-- A conversion that is right in its range. -/
def flooring : Expand.Int64Of := ⟨fun q => ⌊q⌋, fun _ _ _ => rfl⟩

def bodyPage : Page where
  url := "https://example.com/"
  content := {
    selectorMap := .obj []
    domTree := .obj [("tagName", .str "body")]
    capture := .obj [("status", .str "complete")]
    wf := rfl }
  hasTree := true

def twoCaptures : State :=
  push flatTexts { bodyPage with sequence := 1, phase := .final }
    { push flatTexts { bodyPage with sequence := 0, phase := .initial }
      { initial with snapshotSequence := 1 } with snapshotSequence := 2 }

theorem stopped_expands_twoCaptures : ∃ expanded : List Fields,
    Expand.Server.expandSnapshotReferences flooring (stoppedJson twoCaptures) =
      some (Assoc.set "snapshots" (.arr (expanded.map .obj)) (stoppedJson twoCaptures)) ∧
    List.Forall₂ (fun fields x => Shows fields x.candidate) expanded (stopped twoCaptures) := by
  refine stopped_expands flatTexts flooring twoCaptures ?_ (by decide)
  have hfirst : Reached flatTexts (push flatTexts { bodyPage with sequence := 0, phase := .initial }
      { initial with snapshotSequence := 1 }) := by
    refine @Reached.step _ _ _ (.captureLocal .initial bodyPage) .initial rfl ?_
    intro _ base hbase
    cases hbase
  refine @Reached.step _ _ _ (.captureLocal .final bodyPage) hfirst rfl ?_
  intro _
  exact ⟨by decide, _, mem_singleton.mpr rfl, rfl⟩

def overlapping : List Op :=
  [.start .initial, .start .beforeAction, .finish 1 .beforeAction bodyPage, .finish 0 .initial bodyPage]

def earlierCapture : Snapshot :=
  ⟨{ bodyPage with sequence := 0, phase := .initial }, .reference 1⟩

def laterCapture : Snapshot := ⟨{ bodyPage with sequence := 1, phase := .beforeAction }, .whole⟩

/-- The reference names a later number, which the server refuses. -/
theorem overlapping_refused : ∃ s, overlapping.foldlM (step flatTexts) initial = some s ∧
    ∀ machine, Expand.Server.expandSnapshotReferences machine (stoppedJson s) = none := by
  refine ⟨⟨2, [], [laterCapture, earlierCapture], _, _, none⟩, rfl, fun machine => ?_⟩
  have hsorted : [laterCapture, earlierCapture].mergeSort
      (fun x y => decide (x.sequence ≤ y.sequence)) = [earlierCapture, laterCapture] := by
    simp [List.mergeSort, List.MergeSort.Internal.splitInTwo, earlierCapture,
      laterCapture, Snapshot.sequence]
  have hrefused : Expand.Server.expandOne machine [] earlierCapture.json = none := by
    simp [Expand.Server.expandOne, earlierCapture, Snapshot.json, lookup_cons]
  simp [Expand.Server.expandSnapshotReferences, stoppedJson, stopped, bySequence, hsorted,
    Expand.Server.expandAll, hrefused]

end Runs

end Recorder

end Aegis
