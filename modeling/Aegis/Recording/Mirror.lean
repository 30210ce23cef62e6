import Aegis.Recording.Expand

/-!
# Recording.Mirror

Where the client's expander does what the server's does (`expanders_agree`).

The two differ on a snapshot without a sequence number, on references from `2 ^ 63` on, on patches
that are empty or over the server's bound, and on operations on an empty key, on a name of
`Object.prototype` and on the sequence number itself. They do so where these are reached: a
snapshot or an operation that comes after one that both refuse makes no difference.
-/

namespace Aegis

open List

namespace Expand

open Pointer (arrayIndex splitPointer)
open Patch (textOf)
open Patch.Client (Stop orThrow inheritedNames protoName)

/-- At the parent that the tokens lead to, and on the way there, the two appliers do the same: both
refuse an empty last token, and no name of `Object.prototype` is taken for one of a key. -/
def placeFine (kind : PatchKind) (last : String) : List String → Json ℚ → Bool
  | [], .obj fields =>
    if last = "" then kind != .add && (fields.lookup last).isNone
    else
      (fields.lookup last).isSome ||
        (if kind = .add then last != protoName else !inheritedNames.contains last)
  | token :: tokens, .obj fields =>
    match fields.lookup token with
    | some v => placeFine kind last tokens v
    | none => last == "" || token != protoName
  | token :: tokens, .arr items =>
    match (arrayIndex token items.length false).bind fun index => items[index]? with
    | some v => placeFine kind last tokens v
    | none => true
  | _, _ => true

/-- What the two appliers make of an operation that neither refuses for its form. -/
def opFine (root : Json ℚ) : Json ℚ → Bool
  | .obj op =>
    match PatchKind.parse (textOf (op.lookup "op")), op.lookup "path" with
    | some kind, some (.str path) =>
      path.toList.head? != some '/' || (splitPointer path).headD "" == "" ||
        (kind != .remove && (op.lookup "value").isNone) ||
        placeFine kind ((splitPointer path).getLastD "") (splitPointer path).dropLast root
    | _, _ => true
  | _ => true

/-- Every operation that is reached is fine on what those before it have made. -/
def opsFine : Json ℚ → List (Json ℚ) → Bool
  | _, [] => true
  | root, op :: ops =>
    opFine root op &&
      match Patch.Server.applyRawOp root op with
      | some root => opsFine root ops
      | none => true

def sequenceFine : Option (Json ℚ) → Bool
  | some (.num n) => decide (0 ≤ n) && n == ⌊n⌋
  | _ => false

/-- The snapshot that a reference names, with its number. -/
def namedSnapshot (content : Content) : Option (Json ℚ) → Option (ℚ × Fields)
  | some (.num n) =>
    if 0 ≤ n ∧ n = ⌊n⌋ then (content.lookup n).map fun target => (n, target) else none
  | _ => none

def sizeFine (ops : List (Json ℚ)) : Bool :=
  !ops.isEmpty && decide (ops.length ≤ Patch.Server.maxSnapshotPatchOps)

/-- The patch of a snapshot whose base is there. With a number of its own that the client takes,
every operation that is reached is fine and, if all of them apply, they are within the bounds of the
server and leave that number alone. Without one the client fails, and so must the server. -/
def patchFine (target snapshot : Fields) : Json ℚ → Bool
  | .arr ops =>
    let root := copyContent ["selectorMap", "domTree", "capture"] target []
    let applied := Patch.Server.applyOps (.obj root) ops
    if sequenceFine (snapshot.lookup "sequence") then
      opsFine (.obj root) ops &&
        match applied with
        | some patched =>
          sizeFine ops && numericSequence
            ((writeFields (Client.fieldsOf patched) snapshot).lookup "sequence") ==
              numericSequence (snapshot.lookup "sequence")
        | none => true
    else !(sizeFine ops && applied.isSome)
  | .str s => s != "" || !sequenceFine (snapshot.lookup "sequence")
  | _ => true

/-- The same of a snapshot, after those of `content`. -/
def snapshotFine (content : Content) (snapshot : Fields) : Bool :=
  match snapshot.lookup "ref", snapshot.lookup "patch" with
  | none, none => true
  | some _, some _ => true
  | none, some patch =>
    match namedSnapshot content (snapshot.lookup "base") with
    | some (base, target) => decide (base < 2 ^ 63) && patchFine target snapshot patch
    | none => true
  | some ref, none =>
    match namedSnapshot content (some ref) with
    | some (ref, _) => decide (ref < 2 ^ 63) && sequenceFine (snapshot.lookup "sequence")
    | none => true

/-- Every snapshot that is reached is fine after those before it. -/
def allFine : Content → List (Json ℚ) → Bool
  | _, [] => true
  | content, .obj snapshot :: rest =>
    snapshotFine content snapshot &&
      match Client.expandOne content snapshot with
      | .ok r => allFine r.1 rest
      | .error _ => true
  | content, _ :: rest => allFine content rest

def recordingFine (recording : Fields) : Bool :=
  match recording.lookup "snapshots" with
  | some (.arr snapshots) => allFine [] snapshots
  | _ => true

section Operations

variable {α β : Type} {kind : PatchKind} {last : String} {value : Option (Json ℚ)}
  {tokens : List String} {fields : Fields} {op v w : Json ℚ} {ops : List (Json ℚ)}

theorem orThrow_map (f : α → β) (a : Option α) : orThrow (a.map f) = f <$> orThrow a := by
  cases a <;> rfl

theorem client_edit_eq (hlast : last ≠ "") (hvalue : kind ≠ .remove → value.isSome)
    (hfine : placeFine kind last [] v) :
    Patch.Client.edit kind last value v = orThrow (Patch.Server.edit kind last value v) := by
  cases v with
  | obj fields =>
    rw [placeFine, if_neg hlast] at hfine
    rw [Patch.Client.edit, Patch.Server.edit, orThrow_map]
    congr 1
    by_cases hown : (fields.lookup last).isSome
    · cases kind with
      | add | remove => simp [Patch.Client.editFields, Patch.Server.editFields, hown, orThrow]
      | replace =>
        obtain ⟨u, rfl⟩ := Option.isSome_iff_exists.mp (hvalue (by simp))
        simp [Patch.Client.editFields, Patch.Server.editFields, hown, orThrow]
    · rw [Bool.not_eq_true] at hown
      rw [hown, Bool.false_or] at hfine
      cases kind with
      | add =>
        have hproto : last ≠ protoName := by simpa using hfine
        simp [Patch.Client.editFields, Patch.Server.editFields, hproto]
      | replace =>
        have hnot : last ∉ inheritedNames := by simpa using hfine
        have hproto : (last == protoName) = false := by
          rw [beq_eq_false_iff_ne]
          rintro rfl
          exact hnot (by decide)
        obtain ⟨u, rfl⟩ := Option.isSome_iff_exists.mp (hvalue (by simp))
        simp [Patch.Client.editFields, Patch.Server.editFields, hown, hnot, hproto, orThrow]
      | remove =>
        have hnot : last ∉ inheritedNames := by simpa using hfine
        simp [Patch.Client.editFields, Patch.Server.editFields, hown, hnot, orThrow]
  | arr items => rw [Patch.Client.edit, Patch.Server.edit, orThrow_map]
  | _ => rfl

theorem client_descend_eq (hlast : last ≠ "") (hvalue : kind ≠ .remove → value.isSome)
    (hfine : placeFine kind last tokens v) :
    Patch.Client.descend (Patch.Client.edit kind last value) tokens v =
      orThrow (Patch.Server.descend (Patch.Server.edit kind last value) tokens v) := by
  induction tokens generalizing v with
  | nil => exact client_edit_eq hlast hvalue hfine
  | cons token tokens ih =>
    cases v with
    | obj fields =>
      rw [placeFine] at hfine
      rw [Patch.Client.descend, Patch.Server.descend]
      cases hlookup : fields.lookup token with
      | none =>
        have hne : (token == protoName) = false := by simpa [hlookup, hlast] using hfine
        simp [hne, orThrow]
      | some u =>
        rw [hlookup] at hfine
        dsimp only
        rw [ih hfine, Option.bind_some, orThrow_map]
    | arr items =>
      rw [placeFine] at hfine
      rw [Patch.Client.descend, Patch.Server.descend]
      cases hindex : arrayIndex token items.length false with
      | none => rfl
      | some index =>
        rw [hindex, Option.bind_some] at hfine
        dsimp only
        rw [Option.bind_some]
        cases hitem : items[index]? with
        | none => rfl
        | some u =>
          rw [hitem] at hfine
          dsimp only
          rw [ih hfine, Option.bind_some, orThrow_map]
    | _ => rfl

theorem server_descend_none (hkind : kind ≠ .remove) :
    Patch.Server.descend (Patch.Server.edit kind last none) tokens v = none := by
  induction tokens generalizing v with
  | nil =>
    cases v with
    | obj fields =>
      cases kind with
      | remove => exact absurd rfl hkind
      | _ => rfl
    | arr items =>
      rw [Patch.Server.descend, Patch.Server.edit, Patch.editItems]
      cases kind with
      | remove => exact absurd rfl hkind
      | _ => simp
    | _ => rfl
  | cons token tokens ih =>
    cases v <;> simp [Patch.Server.descend, ih]

theorem arrayIndex_empty (length : Nat) (allowAppend : Bool) :
    arrayIndex "" length allowAppend = none := by
  rw [arrayIndex, List.find?_eq_none]
  intro i _ heq
  have hpos : 0 < i.repr.length := Nat.length_repr_pos
  rw [show i.repr = "" from eq_of_beq heq] at hpos
  cases hpos

/-- The server refuses an empty last token too, where it is fine. -/
theorem server_descend_empty (hfine : placeFine kind "" tokens v) :
    Patch.Server.descend (Patch.Server.edit kind "" value) tokens v = none := by
  induction tokens generalizing v with
  | nil =>
    cases v with
    | obj fields =>
      rw [placeFine, if_pos rfl, Bool.and_eq_true, bne_iff_ne, Option.isNone_iff_eq_none] at hfine
      obtain ⟨hkind, hnone⟩ := hfine
      rw [Patch.Server.descend, Patch.Server.edit]
      cases kind with
      | add => exact absurd rfl hkind
      | replace => simp [Patch.Server.editFields, hnone]
      | remove => simp [Patch.Server.editFields, hnone]
    | arr items => simp [Patch.Server.descend, Patch.Server.edit, Patch.editItems, arrayIndex_empty]
    | _ => rfl
  | cons token tokens ih =>
    cases v with
    | obj fields =>
      rw [placeFine] at hfine
      rw [Patch.Server.descend]
      cases hlookup : fields.lookup token with
      | none => rfl
      | some u =>
        rw [hlookup] at hfine
        rw [Option.bind_some, ih hfine, Option.map_none]
    | arr items =>
      rw [placeFine] at hfine
      rw [Patch.Server.descend]
      cases hindex : arrayIndex token items.length false with
      | none => rfl
      | some index =>
        rw [hindex, Option.bind_some] at hfine
        rw [Option.bind_some]
        cases hitem : items[index]? with
        | none => rfl
        | some u =>
          rw [hitem] at hfine
          rw [Option.bind_some, ih hfine, Option.map_none]
    | _ => rfl

theorem applyOp_lookup {token : String}
    (h : Patch.Server.applyOp (.obj fields) (token :: tokens) kind value = some w) :
    ∃ fields' : Fields, w = .obj fields' ∧ ∀ key, key ≠ token → fields'.lookup key = fields.lookup key := by
  cases tokens with
  | nil =>
    obtain ⟨fields', hfields, rfl⟩ := Option.map_eq_some_iff.mp h
    refine ⟨fields', rfl, fun key hkey => ?_⟩
    change Patch.Server.editFields kind token value fields = some fields' at hfields
    cases kind with
    | add =>
      obtain ⟨u, -, rfl⟩ := Option.map_eq_some_iff.mp hfields
      rw [Assoc.lookup_set, if_neg hkey]
    | replace =>
      obtain ⟨u, -, hfields⟩ := Option.bind_eq_some_iff.mp hfields
      split at hfields
      · rw [← Option.some.inj hfields, Assoc.lookup_set, if_neg hkey]
      · cases hfields
    | remove =>
      rw [Patch.Server.editFields] at hfields
      split at hfields
      · rw [← Option.some.inj hfields, Assoc.lookup_erase, if_neg hkey]
      · cases hfields
  | cons token' tokens =>
    rw [Patch.Server.applyOp, dropLast_cons_cons, Patch.Server.descend] at h
    obtain ⟨u, -, h⟩ := Option.bind_eq_some_iff.mp h
    obtain ⟨u', -, rfl⟩ := Option.map_eq_some_iff.mp h
    refine ⟨_, rfl, fun key hkey => ?_⟩
    rw [Assoc.lookup_set, if_neg hkey]

theorem exists_cons_of_headD {l : List String} (h : l.headD "" ≠ "") :
    ∃ token tokens, l = token :: tokens := by
  cases l with
  | nil => exact absurd rfl h
  | cons token tokens => exact ⟨token, tokens, rfl⟩

theorem server_applyRawOp_lookup (h : Patch.Server.applyRawOp (.obj fields) op = some w) :
    ∃ fields' : Fields, w = .obj fields' ∧ fields'.lookup "" = fields.lookup "" := by
  cases op with
  | obj op =>
    rw [Patch.Server.applyRawOp] at h
    split at h
    · rename_i path hpath
      split at h
      · cases h
      · split at h
        · cases h
        · rename_i hfirst
          obtain ⟨kind, -, h⟩ := Option.bind_eq_some_iff.mp h
          have hfirst' : (splitPointer path).headD "" ≠ "" := by simpa using hfirst
          obtain ⟨token, tokens, hsplit⟩ := exists_cons_of_headD hfirst'
          rw [hsplit] at h hfirst'
          obtain ⟨fields', rfl, hkeep⟩ := applyOp_lookup h
          exact ⟨fields', rfl, hkeep "" (Ne.symm hfirst')⟩
    · cases h
  | _ => cases h

/-- Below an empty key, which the root does not have. -/
theorem client_descend_root (hroot : fields.lookup "" = none) (hfirst : tokens.headD "" = "")
    (hlast : tokens.getLastD "" ≠ "") (f : Json ℚ → Except Stop (Json ℚ)) :
    Patch.Client.descend f tokens.dropLast (.obj fields) = .error .throws := by
  cases tokens with
  | nil => exact absurd rfl hlast
  | cons token tokens =>
    obtain rfl : token = "" := hfirst
    cases tokens with
    | nil => exact absurd rfl hlast
    | cons token' tokens =>
      rw [dropLast_cons_cons, Patch.Client.descend, hroot]
      rfl

theorem applyRawOp_rest {path : String} {op : Fields}
    (hfine : ((splitPointer path).headD "" == "" ||
      (kind != .remove && (op.lookup "value").isNone) ||
      placeFine kind ((splitPointer path).getLastD "") (splitPointer path).dropLast
        (.obj fields)) = true)
    (hroot : fields.lookup "" = none) :
    (if (kind != .remove && (op.lookup "value").isNone) = true then .error .throws
      else if ((splitPointer path).getLastD "" == "") = true then .error .throws
      else Patch.Client.descend
        (Patch.Client.edit kind ((splitPointer path).getLastD "") (op.lookup "value"))
        (splitPointer path).dropLast (.obj fields)) =
    orThrow (if ((splitPointer path).headD "" == "") = true then none
      else Patch.Server.applyOp (.obj fields) (splitPointer path) kind (op.lookup "value")) := by
  by_cases hvalue : (kind != .remove && (op.lookup "value").isNone) = true
  · -- no value
    rw [if_pos hvalue]
    simp only [Bool.and_eq_true, bne_iff_ne, Option.isNone_iff_eq_none] at hvalue
    rw [hvalue.2, Patch.Server.applyOp, server_descend_none hvalue.1, ite_self]
    rfl
  rw [if_neg hvalue]
  by_cases hfirst : (splitPointer path).headD "" = ""
  · rw [if_pos (beq_iff_eq.mpr hfirst)]
    split
    · rfl
    · rename_i hlast
      exact client_descend_root hroot hfirst (by simpa using hlast) _
  have hfirst' : ((splitPointer path).headD "" == "") = false := beq_eq_false_iff_ne.mpr hfirst
  rw [hfirst', if_neg Bool.false_ne_true, Patch.Server.applyOp]
  rw [Bool.not_eq_true] at hvalue
  rw [hfirst', hvalue, Bool.false_or, Bool.false_or] at hfine
  by_cases hlast : (splitPointer path).getLastD "" = ""
  · rw [hlast] at hfine ⊢
    rw [if_pos (beq_self_eq_true ""), server_descend_empty hfine]
    rfl
  · rw [if_neg (by simpa using hlast)]
    refine client_descend_eq hlast (fun hne => ?_) hfine
    rw [bne_iff_ne.mpr hne, Bool.true_and] at hvalue
    rw [← Option.not_isNone, hvalue]
    rfl

theorem client_applyRawOp_eq (hfine : opFine (.obj fields) op) (hroot : fields.lookup "" = none) :
    Patch.Client.applyRawOp (.obj fields) op = orThrow (Patch.Server.applyRawOp (.obj fields) op) := by
  cases op with
  | obj op =>
    rw [Patch.Client.applyRawOp, Patch.Server.applyRawOp]
    rw [opFine] at hfine
    cases hpath : op.lookup "path" with
    | none =>
      dsimp only
      split <;> simp_all [orThrow]
    | some p =>
      cases p with
      | str path =>
        rw [hpath] at hfine
        cases hkind : PatchKind.parse (textOf (op.lookup "op")) with
        | none =>
          dsimp only
          split
          · rfl
          · split <;> rfl
        | some kind =>
          rw [hkind] at hfine
          dsimp only at hfine ⊢
          by_cases hhead : (path.toList.head? != some '/')
          · rw [if_pos hhead, if_pos hhead]
            split <;> rfl
          · rw [if_neg hhead, if_neg hhead]
            rw [Bool.not_eq_true] at hhead
            rw [hhead, Bool.false_or] at hfine
            rw [Option.bind_some]
            exact applyRawOp_rest hfine hroot
      | _ =>
        dsimp only
        split <;> simp_all [orThrow]
  | _ => rfl

theorem client_applyJsonPatch_eq (hfine : opsFine (.obj fields) ops) (hroot : fields.lookup "" = none) :
    Patch.Client.applyJsonPatch (.obj fields) ops = orThrow (Patch.Server.applyOps (.obj fields) ops) := by
  induction ops generalizing fields with
  | nil => rfl
  | cons op ops ih =>
    rw [opsFine, Bool.and_eq_true] at hfine
    obtain ⟨hop, hops⟩ := hfine
    rw [Patch.Client.applyJsonPatch, foldlM_cons, Patch.Server.applyOps, foldlM_cons,
      client_applyRawOp_eq hop hroot]
    cases hstep : Patch.Server.applyRawOp (.obj fields) op with
    | none => rfl
    | some w =>
      obtain ⟨fields', rfl, hempty⟩ := server_applyRawOp_lookup hstep
      rw [hstep] at hops
      exact ih hops (hempty.trans hroot)

theorem server_applyOps_obj (h : Patch.Server.applyOps (.obj fields) ops = some w) :
    ∃ fields' : Fields, w = .obj fields' := by
  induction ops generalizing fields with
  | nil => exact ⟨fields, (Option.some.inj h).symm⟩
  | cons op ops ih =>
    rw [Patch.Server.applyOps, foldlM_cons] at h
    obtain ⟨v, hv, h⟩ := Option.bind_eq_some_iff.mp h
    obtain ⟨fields₁, rfl, -⟩ := server_applyRawOp_lookup hv
    exact ih h

end Operations

section Snapshots

variable (machine : Int64Of) {content : Content} {snapshot target patched : Fields}
  {names : List String} {key : String} {patch : Json ℚ} {raw : Option (Json ℚ)}

theorem lookup_copyContent : (copyContent names target snapshot).lookup key =
    if key ∈ names then (target.lookup key).or (snapshot.lookup key) else snapshot.lookup key := by
  induction names generalizing snapshot with
  | nil => rfl
  | cons name names ih =>
    rw [copyContent, foldl_cons]
    refine ih.trans ?_
    by_cases hname : key = name
    · subst hname
      cases hvalue : target.lookup key <;> simp [Assoc.lookup_set]
    · cases target.lookup name <;> simp [Assoc.lookup_set, hname]

/-- The client finds what a reference names. -/
theorem client_named (f : Fields → Except Stop α) :
    (do
      let n ← Client.requireSequence raw
      let target ← orThrow (content.lookup n)
      f target) = orThrow (namedSnapshot content raw) >>= fun r => f r.2 := by
  cases raw with
  | none => rfl
  | some raw =>
    cases raw with
    | num n =>
      rw [Client.requireSequence, namedSnapshot]
      by_cases hbad : n < 0 ∨ n ≠ ⌊n⌋
      · rw [if_pos hbad, if_neg fun h => hbad.elim (not_lt.mpr h.1) (absurd h.2)]
        rfl
      · obtain ⟨hneg, hint⟩ := not_or.mp hbad
        rw [if_neg hbad, if_pos ⟨not_lt.mp hneg, not_not.mp hint⟩]
        cases hlookup : content.lookup n with
        | none => simp [orThrow, bind, Except.bind, hlookup]
        | some target => simp [orThrow, bind, Except.bind, hlookup]
    | _ => rfl

/-- The server finds the same, where its conversion is exact. -/
theorem server_named (f : Fields → Option α)
    (h : ∀ n target, namedSnapshot content raw = some (n, target) → n < 2 ^ 63) :
    ((raw.bind (Server.referenceSequence machine)).bind fun n => (content.lookup n).bind f) =
      (namedSnapshot content raw).bind fun r => f r.2 := by
  cases raw with
  | none => rfl
  | some raw =>
    cases raw with
    | num n =>
      rw [Option.bind_some, Server.referenceSequence]
      rw [namedSnapshot] at h ⊢
      by_cases hneg : n < 0
      · rw [if_pos (.inl hneg), if_neg fun h => absurd hneg (not_lt.mpr h.1)]
        rfl
      by_cases hint : n = ⌊n⌋
      · have hok : 0 ≤ n ∧ n = ⌊n⌋ := ⟨not_lt.mp hneg, hint⟩
        rw [if_pos hok] at h ⊢
        cases hlookup : content.lookup n with
        | none => split <;> simp [hlookup]
        | some target =>
          have hrange := h n target (by rw [hlookup]; rfl)
          rw [machine.inRange n (not_lt.mp hneg) hrange, if_neg (by simp [hneg, ← hint])]
          simp [hlookup]
      · have hne : n ≠ (machine.toInt n : ℚ) := by
          intro heq
          rw [heq, Int.floor_intCast] at hint
          exact hint rfl
        rw [if_pos (.inr hne), if_neg fun h => hint h.2]
        rfl
    | _ => rfl

theorem requireSequence_of_fine (h : sequenceFine raw) :
    ∃ n, numericSequence raw = some n ∧ Client.requireSequence raw = .ok n := by
  unfold sequenceFine at h
  split at h
  · rename_i n
    rw [Bool.and_eq_true, decide_eq_true_eq, beq_iff_eq] at h
    refine ⟨n, rfl, ?_⟩
    rw [Client.requireSequence, if_neg]
    rintro (hneg | hne)
    · exact absurd h.1 (not_le.mpr hneg)
    · exact hne h.2
  · cases h

theorem requireSequence_of_not_fine (h : sequenceFine raw = false) :
    Client.requireSequence raw = .error .throws := by
  cases raw with
  | none => rfl
  | some raw =>
    cases raw with
    | num n =>
      rw [Client.requireSequence, if_pos]
      by_contra hbad
      obtain ⟨hneg, hint⟩ := not_or.mp hbad
      rw [sequenceFine, decide_eq_true (not_lt.mp hneg), beq_iff_eq.mpr (not_not.mp hint)] at h
      cases h
    | _ => rfl

theorem applySnapshotPatch_eq (root : Fields) (ops : List (Json ℚ)) :
    Patch.Server.applySnapshotPatch root ops =
      if sizeFine ops then (Patch.Server.applyOps (.obj root) ops).map Client.fieldsOf else none := by
  have hbound : (ops.isEmpty || decide (Patch.Server.maxSnapshotPatchOps < ops.length)) =
      !sizeFine ops := by
    simp only [sizeFine, Bool.not_and, Bool.not_not, ← decide_not, not_le]
  rw [Patch.Server.applySnapshotPatch, hbound]
  cases sizeFine ops with
  | false => rfl
  | true =>
    rw [Bool.not_true, if_neg Bool.false_ne_true, if_pos rfl]
    cases hops : Patch.Server.applyOps (.obj root) ops with
    | none => rfl
    | some w =>
      obtain ⟨fields, rfl⟩ := server_applyOps_obj hops
      rfl

/-- What a delta makes of the snapshot it names, for the server. -/
def serverDelta (snapshot : Fields) (patch : Json ℚ) (target : Fields) : Option Fields :=
  match patch with
  | .arr ops =>
    (Patch.Server.applySnapshotPatch (copyContent ["selectorMap", "domTree", "capture"] target [])
      ops).map fun patched => Assoc.erase "patch" (Assoc.erase "base" (writeFields patched snapshot))
  | _ => none

/-- The same for the client. -/
def clientDelta (snapshot : Fields) (patch : Json ℚ) (target : Fields) : Except Stop Fields := do
  let ops ← Client.iterate patch
  let patched ← Patch.Client.applyJsonPatch
    (.obj (copyContent ["selectorMap", "domTree", "capture"] target [])) ops
  return Assoc.erase "patch" (Assoc.erase "base" (writeFields (Client.fieldsOf patched) snapshot))

theorem serverDelta_none (hfine : patchFine target snapshot patch)
    (hsequence : sequenceFine (snapshot.lookup "sequence") = false) :
    serverDelta snapshot patch target = none := by
  cases patch with
  | arr ops =>
    rw [patchFine, hsequence, if_neg Bool.false_ne_true, Bool.not_eq_true', Bool.and_eq_false_iff,
      Option.isSome_eq_false_iff, Option.isNone_iff_eq_none] at hfine
    rw [serverDelta, applySnapshotPatch_eq]
    obtain hsize | hops := hfine
    · rw [hsize]
      rfl
    · rw [hops, Option.map_none, ite_self]
      rfl
  | _ => rfl

theorem clientDelta_eq (hfine : patchFine target snapshot patch)
    (hsequence : sequenceFine (snapshot.lookup "sequence")) :
    clientDelta snapshot patch target = orThrow (serverDelta snapshot patch target) ∧
      ∀ expanded, serverDelta snapshot patch target = some expanded →
        numericSequence (expanded.lookup "sequence") =
          numericSequence (snapshot.lookup "sequence") := by
  cases patch with
  | arr ops =>
    have hroot : (copyContent ["selectorMap", "domTree", "capture"] target []).lookup "" = none := by
      rw [lookup_copyContent, if_neg (by decide)]
      rfl
    rw [patchFine, if_pos hsequence, Bool.and_eq_true] at hfine
    obtain ⟨hops, hfine⟩ := hfine
    rw [clientDelta, serverDelta, applySnapshotPatch_eq, Client.iterate]
    have hclient := client_applyJsonPatch_eq hops hroot
    cases happly : Patch.Server.applyOps (.obj (copyContent ["selectorMap", "domTree", "capture"]
        target [])) ops with
    | none =>
      rw [happly] at hclient
      refine ⟨?_, fun expanded h => ?_⟩
      · simp only [bind, Except.bind, hclient, orThrow, Option.map_none, ite_self]
      · simp at h
    | some patched =>
      rw [happly, Bool.and_eq_true, beq_iff_eq] at hfine
      obtain ⟨hsize, hkept⟩ := hfine
      rw [happly] at hclient
      refine ⟨?_, fun expanded h => ?_⟩
      · rw [if_pos hsize]
        simp only [bind, Except.bind, hclient, orThrow, Option.map_some]
        rfl
      · rw [if_pos hsize] at h
        cases h
        rw [Assoc.lookup_erase, if_neg (by decide), Assoc.lookup_erase, if_neg (by decide)]
        exact hkept
  | str text =>
    rw [patchFine, hsequence, Bool.not_true, Bool.or_false, bne_iff_ne] at hfine
    refine ⟨?_, fun _ h => by cases h⟩
    obtain ⟨c, cs, hlist⟩ : ∃ c cs, text.toList = c :: cs :=
      List.exists_cons_of_ne_nil (mt String.toList_eq_nil_iff.mp hfine)
    simp [clientDelta, serverDelta, Client.iterate, hlist, Patch.Client.applyJsonPatch,
      Patch.Client.applyRawOp, orThrow, bind, Except.bind]
  | _ => exact ⟨rfl, fun _ h => by cases h⟩

theorem client_expandDelta : Client.expandDelta content snapshot patch =
    orThrow (namedSnapshot content (snapshot.lookup "base")) >>= fun r => clientDelta snapshot patch r.2 :=
  client_named (clientDelta snapshot patch)

theorem server_expandDelta
    (h : ∀ base target, namedSnapshot content (snapshot.lookup "base") = some (base, target) →
      base < 2 ^ 63) :
    Server.expandSnapshotDelta machine content snapshot patch =
      (namedSnapshot content (snapshot.lookup "base")).bind fun r => serverDelta snapshot patch r.2 := by
  rw [← server_named machine (serverDelta snapshot patch) h, Server.expandSnapshotDelta]
  cases snapshot.lookup "base" <;> rfl

/-- A reference with the content of the snapshot it names. -/
def resolved (snapshot target : Fields) : Fields :=
  Assoc.erase "ref" (copyContent ["domTree", "selectorMap", "capture"] target snapshot)

theorem server_expandRef {ref : Json ℚ}
    (h : ∀ n target, namedSnapshot content (some ref) = some (n, target) → n < 2 ^ 63) :
    ((Server.referenceSequence machine ref).bind fun n =>
        (content.lookup n).map fun target => (content, resolved snapshot target)) =
      (namedSnapshot content (some ref)).map fun r => (content, resolved snapshot r.2) := by
  have hnamed := server_named machine (fun target => some (content, resolved snapshot target)) h
  simpa only [Option.bind_some, Option.map_eq_bind, Function.comp_def] using hnamed

theorem expandRef_eq {ref : Json ℚ}
    (hrange : ∀ n target, namedSnapshot content (some ref) = some (n, target) → n < 2 ^ 63)
    (hsequence : ∀ r, namedSnapshot content (some ref) = some r →
      sequenceFine (snapshot.lookup "sequence") = true) :
    (do
      let _ ← Client.requireSequence (snapshot.lookup "sequence")
      let n ← Client.requireSequence (some ref)
      let target ← orThrow (content.lookup n)
      return (content, resolved snapshot target)) =
    orThrow ((Server.referenceSequence machine ref).bind fun n =>
      (content.lookup n).map fun target => (content, resolved snapshot target)) := by
  rw [server_expandRef machine hrange,
    client_named fun target => (pure (content, resolved snapshot target) : Except Stop _)]
  cases hnamed : namedSnapshot content (some ref) with
  | none =>
    cases hfine : sequenceFine (snapshot.lookup "sequence") with
    | false =>
      rw [requireSequence_of_not_fine hfine]
      rfl
    | true =>
      obtain ⟨n, -, hrequire⟩ := requireSequence_of_fine hfine
      rw [hrequire]
      rfl
  | some r =>
    obtain ⟨n, -, hrequire⟩ := requireSequence_of_fine (hsequence r hnamed)
    rw [hrequire]
    rfl

theorem expandDelta_eq
    (hrange : ∀ base target, namedSnapshot content (snapshot.lookup "base") = some (base, target) →
      base < 2 ^ 63)
    (hpatch : ∀ r, namedSnapshot content (snapshot.lookup "base") = some r →
      patchFine r.2 snapshot patch = true) :
    (do
      let sequence ← Client.requireSequence (snapshot.lookup "sequence")
      let snapshot ← Client.expandDelta content snapshot patch
      return (remember (some sequence) snapshot content, snapshot)) =
    orThrow ((Server.expandSnapshotDelta machine content snapshot patch).map fun snapshot =>
      (remember (numericSequence (snapshot.lookup "sequence")) snapshot content, snapshot)) := by
  rw [client_expandDelta, server_expandDelta machine hrange]
  cases hsequence : sequenceFine (snapshot.lookup "sequence") with
  | false =>
    -- The client fails at once.
    rw [requireSequence_of_not_fine hsequence]
    cases hnamed : namedSnapshot content (snapshot.lookup "base") with
    | none => rfl
    | some r =>
      rw [Option.bind_some, serverDelta_none (hpatch r hnamed) hsequence]
      rfl
  | true =>
    obtain ⟨n, hn, hrequire⟩ := requireSequence_of_fine hsequence
    rw [hrequire]
    cases hnamed : namedSnapshot content (snapshot.lookup "base") with
    | none => rfl
    | some r =>
      obtain ⟨hdelta, hkept⟩ := clientDelta_eq (hpatch r hnamed) hsequence
      rw [Option.bind_some]
      simp only [orThrow, bind, Except.bind, hdelta]
      cases hexpanded : serverDelta snapshot patch r.2 with
      | none => rfl
      | some expanded =>
        rw [Option.map_some, hkept expanded hexpanded, hn]
        rfl

theorem expandOne_eq (hfine : snapshotFine content snapshot) :
    Client.expandOne content snapshot = orThrow (Server.expandOne machine content snapshot) := by
  rw [snapshotFine] at hfine
  rw [Client.expandOne, Server.expandOne]
  cases href : snapshot.lookup "ref" with
  | none =>
    cases hpatch : snapshot.lookup "patch" with
    | none =>
      dsimp only
      split <;> rfl
    | some patch =>
      rw [href, hpatch] at hfine
      dsimp only at hfine ⊢
      refine expandDelta_eq machine (fun base target hnamed => ?_) fun r hnamed => ?_
      all_goals
        rw [hnamed, Bool.and_eq_true, decide_eq_true_eq] at hfine
      · exact hfine.1
      · exact hfine.2
  | some ref =>
    cases hpatch : snapshot.lookup "patch" with
    | some patch => rfl
    | none =>
      rw [href, hpatch] at hfine
      dsimp only at hfine ⊢
      refine expandRef_eq machine (fun n target hnamed => ?_) fun r hnamed => ?_
      all_goals
        rw [hnamed, Bool.and_eq_true, decide_eq_true_eq] at hfine
      · exact hfine.1
      · exact hfine.2

theorem expandAll_eq {snapshots : List (Json ℚ)} (hfine : allFine content snapshots) :
    Client.expandAll content snapshots = orThrow (Server.expandAll machine content snapshots) := by
  induction snapshots generalizing content with
  | nil => rfl
  | cons raw rest ih =>
    cases raw with
    | obj snapshot =>
      rw [allFine, Bool.and_eq_true] at hfine
      obtain ⟨hsnapshot, hrest⟩ := hfine
      rw [expandOne_eq machine hsnapshot] at hrest
      rw [Client.expandAll, Server.expandAll, expandOne_eq machine hsnapshot]
      cases hone : Server.expandOne machine content snapshot with
      | none => rfl
      | some r =>
        rw [hone] at hrest
        rw [Option.bind_some, orThrow_map, ← ih hrest]
        rfl
    | _ =>
      rw [allFine] at hfine
      · rw [Client.expandAll, Server.expandAll, ih hfine, orThrow_map]
        · rfl
        all_goals simp
      all_goals simp

/-- **Mirror.** Of a recording of version 2.0.0 whose snapshots and operations are fine as far as
they are reached, either both expanders fail, or both return the same. -/
theorem expanders_agree {recording : Fields} {snapshots : List (Json ℚ)}
    (hversion : recording.lookup "version" = some (.str "2.0.0"))
    (hsnapshots : recording.lookup "snapshots" = some (.arr snapshots))
    (hfine : recordingFine recording = true) :
    (Server.expandSnapshotReferences machine recording = none ∧
      Client.expandSnapshotReferences recording = .error .throws) ∨
    ∃ expanded, Server.expandSnapshotReferences machine recording = some expanded ∧
      Client.expandSnapshotReferences recording = .ok expanded := by
  rw [recordingFine, hsnapshots] at hfine
  have hall := @expandAll_eq machine [] snapshots hfine
  rw [Server.expandSnapshotReferences, Client.expandSnapshotReferences, hversion, hsnapshots]
  dsimp only
  rw [if_pos (by decide), hall]
  cases Server.expandAll machine [] snapshots with
  | none => exact .inl ⟨rfl, rfl⟩
  | some expanded => exact .inr ⟨_, rfl, rfl⟩

end Snapshots

section Runs

/-- The conversion of a 64-bit machine. -/
def truncating : Int64Of where
  toInt q := if -2 ^ 63 ≤ q ∧ q < 2 ^ 63 then (if 0 ≤ q then ⌊q⌋ else ⌈q⌉) else -2 ^ 63
  inRange q h₀ h := by
    rw [if_pos ⟨le_trans (by norm_num) h₀, h⟩, if_pos h₀]

def twoSnapshots (patch : List (Json ℚ)) : List (Json ℚ) :=
  [.obj [("domTree", .obj [("a", .num 1)]), ("sequence", .num 1)],
    .obj [("base", .num 1), ("patch", .arr patch), ("sequence", .num 2)]]

def recordingOf (snapshots : List (Json ℚ)) : Fields :=
  [("snapshots", .arr snapshots), ("version", .str "2.0.0")]

def replaceA : Json ℚ :=
  .obj [("op", .str "replace"), ("path", .str "/domTree/a"), ("value", .num 2)]

theorem replaceA_applies : Patch.Server.applyRawOp (.obj [("domTree", .obj [("a", .num 1)])]) replaceA =
    some (.obj [("domTree", .obj [("a", .num 2)])]) := by
  have hsplit : splitPointer "/domTree/a" = ["domTree", "a"] := by decide
  have hparse : PatchKind.parse (textOf (some (.str "replace" : Json ℚ))) = some .replace := by decide
  simp [Patch.Server.applyRawOp, replaceA, lookup_cons, hsplit, hparse, Patch.Server.applyOp,
    Patch.Server.descend, Patch.Server.edit, Patch.Server.editFields, Assoc.set]

theorem delta_fine : recordingFine (recordingOf (twoSnapshots [replaceA])) = true := by
  have hsplit : splitPointer "/domTree/a" = ["domTree", "a"] := by decide
  have hparse : PatchKind.parse (textOf (some (.str "replace" : Json ℚ))) = some .replace := by decide
  have hop : opFine (.obj [("domTree", .obj [("a", .num 1)])]) replaceA = true := by
    simp [opFine, replaceA, lookup_cons, hsplit, hparse, placeFine]
  simp [recordingFine, recordingOf, twoSnapshots, lookup_cons, allFine, snapshotFine,
    Client.expandOne, remember, numericSequence, namedSnapshot, patchFine, copyContent, sequenceFine,
    opsFine, Assoc.set, hop, replaceA_applies, Patch.Server.applyOps]
  refine ⟨⟨by norm_num, rfl, ?_⟩, by split <;> rfl⟩
  simp [writeFields, Client.fieldsOf, Assoc.lookup_set, lookup_cons]

/-- A reference to nothing, and an empty patch that is never reached after it. -/
def danglingRef : List (Json ℚ) :=
  [.obj [("ref", .num 5), ("sequence", .num 1)],
    .obj [("base", .num 1), ("patch", .arr []), ("sequence", .num 2)]]

theorem danglingRef_fine : recordingFine (recordingOf danglingRef) = true := by
  simp [recordingFine, recordingOf, danglingRef, lookup_cons, allFine, snapshotFine, namedSnapshot,
    Client.expandOne, Client.requireSequence, orThrow, bind, Except.bind]
  norm_num

theorem expanders_agree_runs :
    ((Server.expandSnapshotReferences truncating (recordingOf (twoSnapshots [replaceA])) = none ∧
        Client.expandSnapshotReferences (recordingOf (twoSnapshots [replaceA])) = .error .throws) ∨
      ∃ expanded,
        Server.expandSnapshotReferences truncating (recordingOf (twoSnapshots [replaceA])) =
          some expanded ∧
        Client.expandSnapshotReferences (recordingOf (twoSnapshots [replaceA])) = .ok expanded) ∧
    ((Server.expandSnapshotReferences truncating (recordingOf danglingRef) = none ∧
        Client.expandSnapshotReferences (recordingOf danglingRef) = .error .throws) ∨
      ∃ expanded,
        Server.expandSnapshotReferences truncating (recordingOf danglingRef) = some expanded ∧
        Client.expandSnapshotReferences (recordingOf danglingRef) = .ok expanded) :=
  ⟨expanders_agree truncating rfl rfl delta_fine, expanders_agree truncating rfl rfl danglingRef_fine⟩

/-- An empty patch: the server refuses it, the client takes it. -/
theorem empty_patch_differs :
    Server.expandSnapshotReferences truncating (recordingOf (twoSnapshots [])) = none ∧
      ∃ expanded, Client.expandSnapshotReferences (recordingOf (twoSnapshots [])) = .ok expanded := by
  constructor
  · simp [Server.expandSnapshotReferences, recordingOf, twoSnapshots, lookup_cons,
      Server.expandAll, Server.expandOne, Server.expandSnapshotDelta, remember, numericSequence,
      Patch.Server.applySnapshotPatch]
  · simp [Client.expandSnapshotReferences, recordingOf, twoSnapshots, lookup_cons,
      Client.expandAll, Client.expandOne, Client.expandDelta, remember, numericSequence,
      Client.requireSequence, Client.iterate, orThrow, Patch.Client.applyJsonPatch]
    rw [if_neg (by norm_num), if_neg (by norm_num)]
    exact ⟨_, rfl⟩

end Runs

end Expand

end Aegis
