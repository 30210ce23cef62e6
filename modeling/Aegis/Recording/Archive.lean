import Aegis.Recording.JsonText
import Aegis.Recording.Pointer
import Mathlib.Data.List.DropRight

/-!
# Recording.Archive

The archive of `recording/archive.go` and how `recording/service.go` stores and reads it.

A snapshot after the first is the bytes between what its text shares with the preceding one at
either end. The bytes travel in a JSON string, in which what is no UTF-8 is replaced. A recording is
read back as it was archived when these bytes are UTF-8 for every snapshot
(`archive_read_back`).
-/

namespace Aegis

open List Option Json

namespace Utf8

def encode (text : List Char) : List UInt8 := text.flatMap String.utf8EncodeChar

/-- The text of bytes, after the first `skip`. A byte that begins no character is the replacement
character. -/
def decodeFrom : Nat → List UInt8 → List Char
  | _, [] => []
  | skip + 1, _ :: bytes => decodeFrom skip bytes
  | 0, b :: bytes =>
    match ByteArray.utf8DecodeChar? (b :: bytes).toByteArray 0 with
    | some c => c :: decodeFrom (c.utf8Size - 1) bytes
    | none => '\uFFFD' :: decodeFrom 0 bytes

def decode (bytes : List UInt8) : List Char := decodeFrom 0 bytes

theorem decodeFrom_append {skip : Nat} {bytes rest : List UInt8} (h : bytes.length = skip) :
    decodeFrom skip (bytes ++ rest) = decodeFrom 0 rest := by
  induction bytes generalizing skip with
  | nil =>
    subst h
    rfl
  | cons b bytes ih =>
    subst h
    exact ih rfl

theorem decode_encode (text : List Char) : decode (encode text) = text := by
  induction text with
  | nil => rfl
  | cons c text ih =>
    have hlength := String.length_utf8EncodeChar c
    have hpos := c.utf8Size_pos
    cases hbytes : String.utf8EncodeChar c with
    | nil =>
      rw [hbytes] at hlength
      simp at hlength
      omega
    | cons b bytes =>
      have hchar : ByteArray.utf8DecodeChar? (b :: (bytes ++ encode text)).toByteArray 0 = some c := by
        have h := @ByteArray.utf8DecodeChar?_utf8EncodeChar_append (encode text).toByteArray c
        rwa [hbytes, ← toByteArray_append, cons_append] at h
      rw [hbytes, length_cons] at hlength
      rw [encode, flatMap_cons, hbytes, cons_append, decode, decodeFrom]
      change (match ByteArray.utf8DecodeChar? (b :: (bytes ++ encode text)).toByteArray 0 with
        | some c => c :: decodeFrom (c.utf8Size - 1) (bytes ++ encode text)
        | none => '\uFFFD' :: decodeFrom 0 (bytes ++ encode text)) = c :: text
      rw [hchar]
      dsimp only
      rw [decodeFrom_append (by omega)]
      exact congrArg (c :: ·) ih

/-- The bytes are UTF-8. -/
def Valid (bytes : List UInt8) : Prop := encode (decode bytes) = bytes

instance (bytes : List UInt8) : Decidable (Valid bytes) :=
  inferInstanceAs (Decidable (encode (decode bytes) = bytes))

end Utf8

structure FloatText (ν : Type) where
  print : ν → Literal
  parse : Literal → Option ν
  parse_print : ∀ n, parse (print n) = some n

namespace Json

variable {ν μ : Type}

mutual

def mapNum (f : ν → μ) : Json ν → Json μ
  | .null => .null
  | .bool b => .bool b
  | .num n => .num (f n)
  | .str s => .str s
  | .arr items => .arr (mapItems f items)
  | .obj fields => .obj (mapFields f fields)

def mapItems (f : ν → μ) : List (Json ν) → List (Json μ)
  | [] => []
  | v :: items => mapNum f v :: mapItems f items

def mapFields (f : ν → μ) : List (String × Json ν) → List (String × Json μ)
  | [] => []
  | (key, v) :: fields => (key, mapNum f v) :: mapFields f fields

end

mutual

def readNum (f : ν → Option μ) : Json ν → Option (Json μ)
  | .null => some .null
  | .bool b => some (.bool b)
  | .num n => (f n).map .num
  | .str s => some (.str s)
  | .arr items => (readNumItems f items).map .arr
  | .obj fields => (readNumFields f fields).map .obj

def readNumItems (f : ν → Option μ) : List (Json ν) → Option (List (Json μ))
  | [] => some []
  | v :: items => (readNum f v).bind fun v => (readNumItems f items).map fun items => v :: items

def readNumFields (f : ν → Option μ) : List (String × Json ν) → Option (List (String × Json μ))
  | [] => some []
  | (key, v) :: fields =>
    (readNum f v).bind fun v => (readNumFields f fields).map fun fields => (key, v) :: fields

end

theorem readNum_mapNum {f : ν → μ} {g : μ → Option ν} (h : ∀ n, g (f n) = some n) (v : Json ν) :
    readNum g (mapNum f v) = some v := by
  induction v using ind with
  | num n => rw [mapNum, readNum, h, map_some]
  | arr items ih =>
    have hitems : readNumItems g (mapItems f items) = some items := by
      induction items with
      | nil => rfl
      | cons v items iht =>
        rw [mapItems, readNumItems, ih v mem_cons_self, bind_some,
          iht fun w hw => ih w (mem_cons_of_mem v hw), map_some]
    rw [mapNum, readNum, hitems, map_some]
  | obj fields ih =>
    have hfields : readNumFields g (mapFields f fields) = some fields := by
      induction fields with
      | nil => rfl
      | cons p fields iht =>
        obtain ⟨key, v⟩ := p
        rw [mapFields, readNumFields, ih key v mem_cons_self, bind_some,
          iht fun k w hw => ih k w (mem_cons_of_mem _ hw), map_some]
    rw [mapNum, readNum, hfields, map_some]
  | _ => rfl

theorem wf_mapNum {f : ν → μ} {v : Json ν} (h : v.wf) : (mapNum f v).wf = true := by
  induction v using ind with
  | arr items ih =>
    rw [wf, wfItems_iff] at h
    rw [mapNum, wf, wfItems_iff]
    intro w hw
    induction items with
    | nil => cases hw
    | cons v items iht =>
      obtain ⟨hv, hitems⟩ := forall_mem_cons.mp h
      rw [mapItems] at hw
      rcases mem_cons.mp hw with rfl | hw
      · exact ih v mem_cons_self hv
      · exact iht (fun u hu => ih u (mem_cons_of_mem v hu)) hitems hw
  | obj fields ih =>
    rw [wf_obj] at h
    rw [mapNum, wf_obj]
    obtain ⟨hsorted, h⟩ := h
    have hkeys : (mapFields f fields).map Prod.fst = fields.map Prod.fst := by
      clear ih h hsorted
      induction fields with
      | nil => rfl
      | cons p fields iht =>
        obtain ⟨key, v⟩ := p
        rw [mapFields, map_cons, map_cons, iht]
    constructor
    · rw [Assoc.sorted_iff_keys, hkeys, ← Assoc.sorted_iff_keys]
      exact hsorted
    · clear hkeys hsorted
      intro p hp
      induction fields with
      | nil => cases hp
      | cons q fields iht =>
        obtain ⟨key, v⟩ := q
        obtain ⟨hv, hfields⟩ := forall_mem_cons.mp h
        rw [mapFields] at hp
        rcases mem_cons.mp hp with rfl | hp
        · exact ih key v mem_cons_self hv
        · exact iht (fun k w hw => ih k w (mem_cons_of_mem _ hw)) hfields hp
  | _ => rfl

end Json

structure SnapshotDelta where
  prefixBytes : Nat
  removedBytes : Nat
  insert : List UInt8
deriving DecidableEq

structure Archive (ν : Type) where
  version : Nat
  snapshotField : String
  base : List (String × Json ν)
  initialSnapshot : List UInt8
  snapshotDeltas : List SnapshotDelta

namespace Archive

open JsonText (writeObject writeArray writeString)

def archiveVersion : Nat := 1

def commonBytes : List UInt8 → List UInt8 → Nat
  | a :: l, b :: m => if a = b then commonBytes l m + 1 else 0
  | _, _ => 0

/-- How many bytes are shared at the end, after the first `n`. -/
def commonEnd (n : Nat) (previous current : List UInt8) : Nat :=
  commonBytes (previous.drop n).reverse (current.drop n).reverse

def makeDelta (previous current : List UInt8) : SnapshotDelta :=
  let shared := commonBytes previous current
  let suffix := commonEnd shared previous current
  { prefixBytes := shared
    removedBytes := previous.length - shared - suffix
    insert := (current.drop shared).take (current.length - shared - suffix) }

def applyDelta (previous : List UInt8) (delta : SnapshotDelta) : Option (List UInt8) :=
  if previous.length < delta.prefixBytes + delta.removedBytes then none
  else some (previous.take delta.prefixBytes ++ delta.insert ++
    previous.drop (delta.prefixBytes + delta.removedBytes))

def deltasOf : List (List UInt8) → List SnapshotDelta
  | previous :: current :: rest => makeDelta previous current :: deltasOf (current :: rest)
  | _ => []

variable {ν : Type} (t : FloatText ν)

/-- `json.Marshal` of a value. -/
def marshal (v : Json ν) : List UInt8 := Utf8.encode (JsonText.encode (v.mapNum t.print))

/-- `json.Unmarshal` of a value. -/
def unmarshal (bytes : List UInt8) : Option (Json ν) :=
  (JsonText.decode (Utf8.decode bytes)).bind (Json.readNum t.parse)

def deepCopyMap (input : List (String × Json ν)) : List (String × Json ν) :=
  match unmarshal t (marshal t (.obj input)) with
  | some (.obj out) => out
  | _ => []

def buildArchive (input : List (String × Json ν)) : Option (Archive ν) :=
  let base := deepCopyMap t input
  let snapshotField := if (base.lookup "snapshots").isSome then "snapshots" else "domSnapshots"
  match base.lookup snapshotField with
  | some (.arr snapshots) =>
    if snapshots.length < 2 then none
    else
      let encoded := snapshots.map (marshal t)
      some
        { version := archiveVersion
          snapshotField := snapshotField
          base := Assoc.erase snapshotField base
          initialSnapshot := encoded.headD []
          snapshotDeltas := deltasOf encoded }
  | _ => none

/-- The loop of `Reconstruct`. -/
def replay (encoded : List UInt8) : List SnapshotDelta → Option (List (Json ν))
  | [] => (unmarshal t encoded).map fun snapshot => [snapshot]
  | delta :: deltas =>
    (unmarshal t encoded).bind fun snapshot =>
      (applyDelta encoded delta).bind fun next =>
        (replay next deltas).map fun snapshots => snapshot :: snapshots

def reconstruct (a : Archive ν) : Option (List (String × Json ν)) :=
  if a.version ≠ archiveVersion ∨ a.initialSnapshot = [] then none
  else (replay t a.initialSnapshot a.snapshotDeltas).map fun snapshots =>
    Assoc.set (if a.snapshotField = "" then "snapshots" else a.snapshotField) (.arr snapshots)
      (deepCopyMap t a.base)

/-! ## Storing -/

def natLiteral (n : Nat) : Literal where
  chars := (toString n).toList
  ne_nil := (Pointer.toList_toString n).1
  number := fun c hc => by simp [isNumberChar, (Pointer.toList_toString n).2 c hc]

def deltaText (d : SnapshotDelta) : List Char :=
  writeObject [("prefixBytes", (natLiteral d.prefixBytes).chars),
    ("removedBytes", (natLiteral d.removedBytes).chars),
    ("insert", writeString (Utf8.decode d.insert))]

/-- `json.Marshal` of an archive. In a string what is no UTF-8 is replaced. -/
def marshalArchive (a : Archive ν) : List UInt8 :=
  Utf8.encode (writeObject [("version", (natLiteral a.version).chars),
    ("snapshotField", writeString a.snapshotField.toList),
    ("base", JsonText.encode ((Json.obj a.base).mapNum t.print)),
    ("initialSnapshot", Utf8.decode a.initialSnapshot),
    ("snapshotDeltas", writeArray (a.snapshotDeltas.map deltaText))])

def readNat : Option (Json Literal) → Option Nat
  | some (.num n) =>
    if n.chars.all Char.isDigit then some (Nat.ofDigitChars 10 n.chars 0) else none
  | _ => none

def readText : Option (Json Literal) → Option String
  | some (.str s) => some s
  | _ => none

def readDelta : Json Literal → Option SnapshotDelta
  | .obj fields =>
    (readNat (fields.lookup "prefixBytes")).bind fun prefixBytes =>
      (readNat (fields.lookup "removedBytes")).bind fun removedBytes =>
        (readText (fields.lookup "insert")).map fun insert =>
          ⟨prefixBytes, removedBytes, Utf8.encode insert.toList⟩
  | _ => none

def readDeltas : Option (Json Literal) → Option (List SnapshotDelta)
  | some (.arr items) => items.mapM readDelta
  | _ => none

def readBase : Option (Json Literal) → Option (List (String × Json ν))
  | some (.obj fields) => Json.readNumFields t.parse fields
  | _ => none

/-- `json.Unmarshal` into an archive. The text of a raw message is that of its value. -/
def unmarshalArchive (bytes : List UInt8) : Option (Archive ν) :=
  match JsonText.decode (Utf8.decode bytes) with
  | some (.obj fields) =>
    (readNat (fields.lookup "version")).bind fun version =>
      (readText (fields.lookup "snapshotField")).bind fun snapshotField =>
        (readBase t (fields.lookup "base")).bind fun base =>
          (fields.lookup "initialSnapshot").bind fun raw =>
            (readDeltas (fields.lookup "snapshotDeltas")).map fun snapshotDeltas =>
              ⟨version, snapshotField, base, Utf8.encode (JsonText.encode raw), snapshotDeltas⟩
  | _ => none

/-- `Service.Get`, of what is stored. -/
def get (bytes : List UInt8) : Option (List (String × Json ν)) :=
  (unmarshalArchive t bytes).bind (reconstruct t)

section Deltas

variable {l m previous current : List UInt8}

theorem commonBytes_le (l m : List UInt8) : commonBytes l m ≤ l.length ∧ commonBytes l m ≤ m.length := by
  induction l generalizing m with
  | nil => simp [commonBytes]
  | cons a l ih =>
    cases m with
    | nil => simp [commonBytes]
    | cons b m =>
      have h := ih m
      rw [commonBytes]
      split
      · simp only [length_cons]
        omega
      · omega

theorem take_commonBytes (l m : List UInt8) : l.take (commonBytes l m) = m.take (commonBytes l m) := by
  induction l generalizing m with
  | nil => simp [commonBytes]
  | cons a l ih =>
    cases m with
    | nil => simp [commonBytes]
    | cons b m =>
      rw [commonBytes]
      split
      · rename_i hab
        rw [take_succ_cons, take_succ_cons, hab, ih]
      · rfl

theorem drop_of_take_reverse {n : Nat} (h : l.reverse.take n = m.reverse.take n) :
    l.drop (l.length - n) = m.drop (m.length - n) := by
  rw [take_reverse, take_reverse] at h
  exact reverse_injective h

theorem applyDelta_makeDelta (previous current : List UInt8) :
    applyDelta previous (makeDelta previous current) = some current := by
  have hshared := commonBytes_le previous current
  have hend := commonBytes_le (previous.drop (commonBytes previous current)).reverse
    (current.drop (commonBytes previous current)).reverse
  rw [length_reverse, length_reverse, length_drop, length_drop] at hend
  have htake := take_commonBytes previous current
  have hdrop := drop_of_take_reverse (take_commonBytes
    (previous.drop (commonBytes previous current)).reverse
    (current.drop (commonBytes previous current)).reverse)
  rw [length_drop, length_drop, drop_drop, drop_drop] at hdrop
  rw [applyDelta, if_neg]
  · rw [makeDelta]
    dsimp only
    rw [htake, commonEnd, hdrop, append_assoc, ← drop_drop, take_append_drop, take_append_drop]
  · rw [makeDelta]
    dsimp only
    rw [commonEnd]
    omega

end Deltas

section Stored

variable {t} {v : Json ν} {input : List (String × Json ν)}

theorem decode_marshal (v : Json ν) :
    Utf8.decode (marshal t v) = JsonText.encode (v.mapNum t.print) := Utf8.decode_encode _

theorem unmarshal_marshal (h : v.wf) : unmarshal t (marshal t v) = some v := by
  rw [unmarshal, decode_marshal, JsonText.decode_encode, JsonText.canon_of_wf (wf_mapNum h),
    bind_some, readNum_mapNum t.parse_print]

theorem deepCopyMap_eq (h : (obj input).wf) : deepCopyMap t input = input := by
  rw [deepCopyMap, unmarshal_marshal h]

theorem lookup_collect {α : Type} (fields : List (String × α)) (key : String) :
    (JsonText.collect fields).lookup key = fields.reverse.lookup key := by
  have hfold : ∀ done : List (String × α),
      (fields.foldl (fun l f => Assoc.set f.1 f.2 l) done).lookup key =
        (fields.reverse.lookup key).or (done.lookup key) := by
    induction fields with
    | nil => exact fun _ => rfl
    | cons f fields ih =>
      intro done
      rw [foldl_cons, ih, Assoc.lookup_set, reverse_cons, lookup_append]
      cases fields.reverse.lookup key with
      | some a => rfl
      | none =>
        by_cases hk : key = f.1
        · subst hk
          simp [Assoc.lookup_cons_self]
        · rw [if_neg hk, Assoc.lookup_cons_ne hk]
          rfl
  rw [JsonText.collect, hfold, lookup_nil, or_none]

theorem readNat_natLiteral (n : Nat) : readNat (some (.num (natLiteral n))) = some n := by
  have hdigits : (natLiteral n).chars.all Char.isDigit :=
    List.all_eq_true.mpr (Pointer.toList_toString n).2
  have hchars : (natLiteral n).chars = Nat.toDigits 10 n := by
    change (toString n).toList = _
    rw [Nat.toString_eq_repr, Nat.toList_repr]
  rw [readNat, if_pos hdigits, hchars, Nat.ofDigitChars_ten_toDigits]

def deltaJson (d : SnapshotDelta) : Json Literal :=
  .obj [("prefixBytes", .num (natLiteral d.prefixBytes)),
    ("removedBytes", .num (natLiteral d.removedBytes)),
    ("insert", .str (String.ofList (Utf8.decode d.insert)))]

theorem encode_deltaJson (d : SnapshotDelta) : JsonText.encode (deltaJson d) = deltaText d := by
  simp [deltaJson, deltaText, JsonText.encode, JsonText.encodeFields]

def SnapshotDelta.stored (d : SnapshotDelta) : SnapshotDelta :=
  { d with insert := Utf8.encode (Utf8.decode d.insert) }

theorem readDelta_canon (d : SnapshotDelta) :
    readDelta (JsonText.canon (deltaJson d)) = some (SnapshotDelta.stored d) := by
  simp only [deltaJson, JsonText.canon, JsonText.canonFields, readDelta, lookup_collect]
  change (readNat (some (.num (natLiteral d.prefixBytes)))).bind (fun prefixBytes =>
    (readNat (some (.num (natLiteral d.removedBytes)))).bind fun removedBytes =>
      some (SnapshotDelta.mk prefixBytes removedBytes
        (Utf8.encode (String.ofList (Utf8.decode d.insert)).toList))) = _
  rw [readNat_natLiteral, readNat_natLiteral, bind_some, bind_some, String.toList_ofList]
  rfl

theorem encodeItems_map {α : Type} (f : α → Json Literal) (l : List α) :
    JsonText.encodeItems (l.map f) = l.map fun a => JsonText.encode (f a) := by
  induction l with
  | nil => rfl
  | cons a l ih => rw [map_cons, JsonText.encodeItems, ih, map_cons]

theorem canonItems_map {α : Type} (f : α → Json Literal) (l : List α) :
    JsonText.canonItems (l.map f) = l.map fun a => JsonText.canon (f a) := by
  induction l with
  | nil => rfl
  | cons a l ih => rw [map_cons, JsonText.canonItems, ih, map_cons]

theorem readDeltas_canon (deltas : List SnapshotDelta) :
    readDeltas (some (JsonText.canon (.arr (deltas.map deltaJson)))) =
      some (deltas.map SnapshotDelta.stored) := by
  rw [JsonText.canon, canonItems_map, readDeltas]
  induction deltas with
  | nil => rfl
  | cons d deltas ih =>
    rw [map_cons, mapM_cons, readDelta_canon, ih]
    rfl

variable (t) in
def archiveJson (a : Archive ν) (initial : Json ν) : Json Literal :=
  .obj [("version", .num (natLiteral a.version)), ("snapshotField", .str a.snapshotField),
    ("base", (Json.obj a.base).mapNum t.print), ("initialSnapshot", initial.mapNum t.print),
    ("snapshotDeltas", .arr (a.snapshotDeltas.map deltaJson))]

theorem marshalArchive_eq {a : Archive ν} (h : a.initialSnapshot = marshal t v) :
    marshalArchive t a = Utf8.encode (JsonText.encode (archiveJson t a v)) := by
  rw [marshalArchive, h, decode_marshal, archiveJson]
  simp only [JsonText.encode, JsonText.encodeFields, encodeItems_map, encode_deltaJson]

/-- An archive, written and read back. -/
theorem unmarshalArchive_marshalArchive {a : Archive ν} (hbase : (obj a.base).wf)
    (hv : v.wf) (h : a.initialSnapshot = marshal t v) :
    unmarshalArchive t (marshalArchive t a) =
      some { a with snapshotDeltas := a.snapshotDeltas.map SnapshotDelta.stored } := by
  rw [unmarshalArchive, marshalArchive_eq h, Utf8.decode_encode, JsonText.decode_encode,
    archiveJson, JsonText.canon]
  simp only [lookup_collect, JsonText.canonFields, JsonText.canon_of_wf (wf_mapNum hbase),
    JsonText.canon_of_wf (wf_mapNum hv)]
  change (readNat (some (.num (natLiteral a.version)))).bind (fun version =>
    (readBase t (some ((obj a.base).mapNum t.print))).bind fun base =>
      (readDeltas (some (JsonText.canon (.arr (a.snapshotDeltas.map deltaJson))))).map
        fun deltas => Archive.mk version a.snapshotField base
          (Utf8.encode (JsonText.encode (v.mapNum t.print))) deltas) = _
  have hread := readNum_mapNum t.parse_print (.obj a.base)
  rw [mapNum, readNum, map_eq_some_iff] at hread
  obtain ⟨fields, hfields, heq⟩ := hread
  have hbaseRead : readBase t (some ((obj a.base).mapNum t.print)) = some a.base := by
    rw [mapNum, readBase, hfields, obj.inj heq]
  rw [readNat_natLiteral, hbaseRead, readDeltas_canon, bind_some, bind_some, map_some, ← marshal, ← h]

/-- The byte deltas of a list of snapshots replay to it. -/
theorem replay_deltasOf {snapshots : List (Json ν)} (hv : v.wf)
    (hsnapshots : ∀ w ∈ snapshots, w.wf) :
    replay t (marshal t v) (deltasOf ((v :: snapshots).map (marshal t))) = some (v :: snapshots) := by
  induction snapshots generalizing v with
  | nil =>
    have hread : unmarshal t (marshal t v) = some v := unmarshal_marshal hv
    simp [deltasOf, replay, hread]
  | cons w snapshots ih =>
    obtain ⟨hw, hsnapshots⟩ := forall_mem_cons.mp hsnapshots
    rw [map_cons, map_cons, deltasOf, replay, unmarshal_marshal hv, bind_some,
      applyDelta_makeDelta, bind_some, ← map_cons, ih hw hsnapshots]
    rfl

end Stored

section ReadBack

def ownBytes (previous current : List UInt8) : List UInt8 :=
  (current.drop (commonBytes previous current)).take (current.length -
    commonBytes previous current - commonEnd (commonBytes previous current) previous current)

def CutsFine : List (List UInt8) → Prop
  | previous :: current :: rest =>
    Utf8.Valid (ownBytes previous current) ∧ CutsFine (current :: rest)
  | _ => True

/-- Deltas that cut at the ends of characters are stored as they are. -/
theorem stored_deltasOf {encoded : List (List UInt8)} (h : CutsFine encoded) :
    (deltasOf encoded).map SnapshotDelta.stored = deltasOf encoded := by
  induction encoded with
  | nil => rfl
  | cons previous rest ih =>
    cases rest with
    | nil => rfl
    | cons current rest =>
      obtain ⟨hcut, hrest⟩ := h
      have hinsert : Utf8.encode (Utf8.decode (ownBytes previous current)) =
          ownBytes previous current := hcut
      rw [deltasOf, map_cons, ih hrest]
      exact congrArg (· :: deltasOf (current :: rest))
        (congrArg (SnapshotDelta.mk _ _) hinsert)

def snapshotFieldOf (input : List (String × Json ν)) : String :=
  if (input.lookup "snapshots").isSome then "snapshots" else "domSnapshots"

/-- A recording with at least two snapshots is archived, and read back as it was when every
snapshot differs from the preceding one at the ends of characters. -/
theorem archive_read_back {input : List (String × Json ν)} {snapshots : List (Json ν)}
    (hwf : (Json.obj input).wf = true)
    (hsnapshots : input.lookup (snapshotFieldOf input) = some (.arr snapshots))
    (htwo : 2 ≤ snapshots.length) (hcuts : CutsFine (snapshots.map (marshal t))) :
    ∃ a, buildArchive t input = some a ∧ get t (marshalArchive t a) = some input := by
  cases snapshots with
  | nil => simp at htwo
  | cons v snapshots =>
    have hfields := Json.wf_obj.mp hwf
    have hall := Json.wf_of_lookup hfields.2 hsnapshots
    rw [Json.wf, Json.wfItems_iff] at hall
    obtain ⟨hv, hrest⟩ := forall_mem_cons.mp hall
    have hbase : (Json.obj (Assoc.erase (snapshotFieldOf input) input)).wf = true :=
      Json.wf_obj.mpr ⟨hfields.1.erase _, fun f hf => hfields.2 f (mem_filter.mp hf).1⟩
    have hbuild : buildArchive t input = some
        { version := archiveVersion
          snapshotField := snapshotFieldOf input
          base := Assoc.erase (snapshotFieldOf input) input
          initialSnapshot := marshal t v
          snapshotDeltas := deltasOf ((v :: snapshots).map (marshal t)) } := by
      rw [buildArchive, deepCopyMap_eq hwf]
      change (match input.lookup (snapshotFieldOf input) with
        | some (.arr snapshots) => _
        | _ => none) = _
      rw [hsnapshots]
      dsimp only
      rw [if_neg (by omega)]
      rfl
    have hne : marshal t v ≠ [] := by
      intro hnil
      have hread : unmarshal t (marshal t v) = some v := unmarshal_marshal hv
      rw [hnil] at hread
      cases hread
    have hfield : snapshotFieldOf input ≠ "" := by
      unfold snapshotFieldOf
      split <;> decide
    refine ⟨_, hbuild, ?_⟩
    rw [get, unmarshalArchive_marshalArchive hbase hv rfl, bind_some,
      stored_deltasOf hcuts, reconstruct, if_neg (by simp [hne]), replay_deltasOf hv hrest,
      deepCopyMap_eq hbase, if_neg hfield, map_some, some.injEq]
    refine ((hfields.1.erase _).set _ _).ext hfields.1 fun key => ?_
    rw [Assoc.lookup_set, Assoc.lookup_erase]
    by_cases hk : key = snapshotFieldOf input
    · rw [if_pos hk, hk, hsnapshots]
    · rw [if_neg hk, if_neg hk]

end ReadBack

section Cuts

def wholeNumbers : FloatText Nat where
  print := natLiteral
  parse n := readNat (some (.num n))
  parse_print := readNat_natLiteral

def twoTexts (first second : String) : List (String × Json Nat) :=
  [("snapshots", .arr [.str first, .str second])]

theorem wf_twoTexts (first second : String) : (obj (twoTexts first second)).wf := by
  simp [twoTexts, wf, wfFields, wfItems, Assoc.Sorted]

theorem archive_read_back_ascii : 2 ≤ [Json.str (ν := Nat) "a", .str "b"].length ∧
      ∃ a, buildArchive wholeNumbers (twoTexts "a" "b") = some a ∧
        get wholeNumbers (marshalArchive wholeNumbers a) = some (twoTexts "a" "b") := by
  have hcuts : CutsFine ([Json.str "a", .str "b"].map (marshal wholeNumbers)) := by
    simp only [map_cons, map_nil, CutsFine, and_true]
    decide
  exact ⟨by decide, archive_read_back wholeNumbers (wf_twoTexts "a" "b") rfl (by decide) hcuts⟩

/-- Two letters that differ in their last byte only: the second one is lost. -/
theorem accents_lost : ∃ a, buildArchive wholeNumbers (twoTexts "é" "è") = some a ∧
      get wholeNumbers (marshalArchive wholeNumbers a) ≠ some (twoTexts "é" "è") := by
  have hwf := wf_twoTexts "é" "è"
  have hbuild : buildArchive wholeNumbers (twoTexts "é" "è") = some
      { version := archiveVersion
        snapshotField := "snapshots"
        base := []
        initialSnapshot := marshal wholeNumbers (.str "é")
        snapshotDeltas := deltasOf ([.str "é", .str "è"].map (marshal wholeNumbers)) } := by
    rw [buildArchive, deepCopyMap_eq hwf]
    rfl
  -- the second byte of the letter is replaced
  have hstored : (deltasOf ([.str "é", .str "è"].map (marshal wholeNumbers))).map
      SnapshotDelta.stored = [⟨2, 1, [0xEF, 0xBF, 0xBD]⟩] := by
    decide
  have hnext : applyDelta (marshal wholeNumbers (.str "é")) ⟨2, 1, [0xEF, 0xBF, 0xBD]⟩ =
      some [0x22, 0xC3, 0xEF, 0xBF, 0xBD, 0x22] := by
    decide
  have hread : unmarshal wholeNumbers [0x22, 0xC3, 0xEF, 0xBF, 0xBD, 0x22] =
      some (.str (String.ofList ['\uFFFD', '\uFFFD'])) := by
    have htext : Utf8.decode [0x22, 0xC3, 0xEF, 0xBF, 0xBD, 0x22] = ['"', '\uFFFD', '\uFFFD', '"'] := by
      decide
    rw [unmarshal, htext]
    rfl
  have hfirst : unmarshal wholeNumbers (marshal wholeNumbers (.str "é")) = some (.str "é") :=
    unmarshal_marshal rfl
  refine ⟨_, hbuild, ?_⟩
  rw [get, unmarshalArchive_marshalArchive (v := .str "é") (by rfl) rfl rfl, bind_some,
    hstored, reconstruct]
  intro h
  split at h
  · cases h
  · obtain ⟨snapshots, hreplay, hset⟩ := map_eq_some_iff.mp h
    simp only [replay, hfirst, hnext, hread, bind_some, map_some, some.injEq] at hreplay
    subst hreplay
    have hlookup := congrArg (List.lookup "snapshots") hset
    rw [if_neg (by decide), Assoc.lookup_set, if_pos rfl] at hlookup
    simp [twoTexts] at hlookup

end Cuts

end Archive

end Aegis
