import Aegis.Recording.Exactness

/-!
# Recording.RoundTrip

The two appliers on the patches that `buildSnapshotDelta` returns.

An operation that names its place by tokens is what the server does with the pointer of these tokens
(`server_applyRawOp`), and the client does the same where the last token is not empty
(`client_applyRawOp`). So the delta gives the snapshot back exactly when the diff is exact and never
at work on an empty key (`delta_exact_iff`).
-/

namespace Aegis

open List Option

namespace Delta

open Pointer (child arrayIndex splitPointer render)
open Patch.Client (inheritedNames protoName)

variable {ν : Type}

section Operation

variable {kind : PatchKind} {value : Option (Json ν)} {tokens : List String} {v w : Json ν}

theorem getLastD_cons_cons (t t' : String) (tokens : List String) :
    (t :: t' :: tokens).getLastD "" = (t' :: tokens).getLastD "" := rfl

theorem run_eq_descend (h : tokens ≠ []) : run kind value tokens v =
    Patch.Server.descend (Patch.Server.edit kind (tokens.getLastD "") value) tokens.dropLast v := by
  induction tokens generalizing v with
  | nil => exact absurd rfl h
  | cons token tokens ih =>
    cases tokens with
    | nil =>
      cases v with
      | obj fields =>
        cases kind <;> cases hv : fields.lookup token <;> cases value <;>
          simp [run, Patch.Server.descend, Patch.Server.edit, Patch.Server.editFields, hv]
      | arr items =>
        have hremove : (PatchKind.remove == PatchKind.add) = false := rfl
        have hreplace : (PatchKind.replace == PatchKind.add) = false := rfl
        have hindex : ∀ {index : Nat}, arrayIndex token items.length false = some index →
            ∃ v, items[index]? = some v := fun hi => by
          have hlt := (Pointer.arrayIndex_eq_some hi).2
          exact ⟨_, getElem?_eq_getElem (by simpa using hlt)⟩
        cases kind with
        | add =>
          cases value <;> cases hi : arrayIndex token items.length true <;>
            simp [run, Patch.Server.descend, Patch.Server.edit, Patch.editItems, hi]
        | remove =>
          cases hi : arrayIndex token items.length false <;>
            simp [run, Patch.Server.descend, Patch.Server.edit, Patch.editItems, hi, hremove]
        | replace =>
          cases hi : arrayIndex token items.length false with
          | none =>
            simp [run, Patch.Server.descend, Patch.Server.edit, Patch.editItems, hi, hreplace]
          | some index =>
            obtain ⟨v, hv⟩ := hindex hi
            cases value <;>
              simp [run, Patch.Server.descend, Patch.Server.edit, Patch.editItems, hi, hv, hreplace]
      | _ => simp [run, Patch.Server.descend, Patch.Server.edit]
    | cons token' tokens =>
      rw [getLastD_cons_cons, dropLast_cons_cons]
      have hrest := fun v => ih (v := v) (cons_ne_nil token' tokens)
      cases v with
      | obj fields | arr items => simp [run, Patch.Server.descend, hrest]
      | _ => simp [run, Patch.Server.descend]

variable {op : TokenOp ν}

theorem server_applyRawOp (h : op.tokens.headD "" ≠ "") :
    Patch.Server.applyRawOp v (op.at "").json = run op.kind op.value op.tokens v := by
  obtain ⟨kind, tokens, value⟩ := op
  have hne : tokens ≠ [] := by
    rintro rfl
    exact h rfl
  have hpath : (TokenOp.at "" ⟨kind, tokens, value⟩).path = render tokens := rfl
  have hkind : PatchKind.parse kind.name = some kind := by cases kind <;> rfl
  rw [run_eq_descend hne, PatchOp.json, Patch.Server.applyRawOp, hpath]
  have hhead : (render tokens).toList.head? = some '/' := Pointer.startsWith_render hne
  have hsplit := Pointer.splitPointer_render tokens hne
  have hfirst : tokens.head?.getD "" ≠ "" := by simpa using h
  cases value <;>
    simp [TokenOp.at, lookup_cons, hhead, hsplit, hfirst, Patch.textOf, hkind, Patch.Server.applyOp]

theorem isSome_of_run (h : run kind value tokens v = some w) (hkind : kind ≠ .remove) : value.isSome := by
  induction tokens generalizing v w with
  | nil =>
    rw [run] at h
    split at h
    · rw [h]
      rfl
    · cases h
  | cons token tokens ih =>
    cases value with
    | some u => rfl
    | none =>
      cases v with
      | obj fields =>
        rw [run] at h
        split at h
        · cases h
        · rw [if_neg fun hr => hkind hr.2, bind_eq_some_iff] at h
          obtain ⟨u, -, h⟩ := h
          obtain ⟨w', hw', -⟩ := map_eq_some_iff.mp h
          exact ih hw'
      | arr items =>
        rw [run] at h
        split at h
        · obtain ⟨index, -, h⟩ := bind_eq_some_iff.mp h
          cases h
        · rw [if_neg fun hr => hkind hr.2, bind_eq_some_iff] at h
          obtain ⟨index, -, h⟩ := h
          obtain ⟨u, -, h⟩ := bind_eq_some_iff.mp h
          obtain ⟨w', hw', -⟩ := map_eq_some_iff.mp h
          exact ih hw'
      | _ => cases h

theorem client_descend (h : Patch.Server.descend (Patch.Server.edit kind last value) tokens v =
    some w) (hadd : kind = .add → last ≠ protoName) :
    Patch.Client.descend (Patch.Client.edit kind last value) tokens v = .ok w := by
  induction tokens generalizing v w with
  | nil =>
    rw [Patch.Server.descend] at h
    rw [Patch.Client.descend]
    cases v with
    | obj fields =>
      rw [Patch.Server.edit] at h
      obtain ⟨fields', hf, rfl⟩ := map_eq_some_iff.mp h
      have hedit : Patch.Client.editFields kind last value fields = .ok fields' := by
        cases kind with
        | add =>
          rw [Patch.Server.editFields] at hf
          simp [Patch.Client.editFields, hadd rfl, hf, Patch.Client.orThrow]
        | replace =>
          rw [Patch.Server.editFields] at hf
          obtain ⟨u, rfl, hf⟩ := bind_eq_some_iff.mp hf
          split at hf
          · rename_i hown
            cases hf
            simp [Patch.Client.editFields, hown, Patch.Client.orThrow]
          · cases hf
        | remove =>
          rw [Patch.Server.editFields] at hf
          split at hf
          · rename_i hown
            cases hf
            simp [Patch.Client.editFields, hown]
          · cases hf
      rw [Patch.Client.edit, hedit]
      rfl
    | arr items =>
      rw [Patch.Server.edit] at h
      obtain ⟨items', hf, rfl⟩ := map_eq_some_iff.mp h
      rw [Patch.Client.edit, hf]
      rfl
    | _ => cases h
  | cons token tokens ih =>
    cases v with
    | obj fields =>
      rw [Patch.Server.descend] at h
      obtain ⟨u, hu, h⟩ := bind_eq_some_iff.mp h
      obtain ⟨u', hu', rfl⟩ := map_eq_some_iff.mp h
      rw [Patch.Client.descend, hu]
      dsimp only
      rw [ih hu']
      rfl
    | arr items =>
      rw [Patch.Server.descend] at h
      obtain ⟨index, hi, h⟩ := bind_eq_some_iff.mp h
      obtain ⟨u, hu, h⟩ := bind_eq_some_iff.mp h
      obtain ⟨u', hu', rfl⟩ := map_eq_some_iff.mp h
      rw [Patch.Client.descend, hi]
      dsimp only
      rw [hu]
      dsimp only
      rw [ih hu']
      rfl
    | _ => cases h

/-- The operation is on an empty key. -/
def Blank (op : TokenOp ν) : Prop := op.tokens.getLast? = some ""

theorem getLastD_eq (tokens : List String) : tokens.getLastD "" = tokens.getLast?.getD "" := by
  cases tokens <;> simp

theorem client_applyRawOp (h : run op.kind op.value op.tokens v = some w)
    (hne : op.tokens ≠ []) (hblank : ¬ Blank op)
    (hadd : op.kind = .add → op.tokens.getLast? ≠ some protoName) :
    Patch.Client.applyRawOp v (op.at "").json = .ok w := by
  obtain ⟨kind, tokens, value⟩ := op
  have hpath : (TokenOp.at "" ⟨kind, tokens, value⟩).path = render tokens := rfl
  have hkind : PatchKind.parse kind.name = some kind := by cases kind <;> rfl
  have hhead : (render tokens).toList.head? = some '/' := Pointer.startsWith_render hne
  have hsplit := Pointer.splitPointer_render tokens hne
  obtain ⟨last, hlast⟩ : ∃ last, tokens.getLast? = some last :=
    ⟨_, getLast?_eq_some_getLast hne⟩
  have hlastD : tokens.getLastD "" = last := by
    rw [getLastD_eq, hlast]
    rfl
  have hnotblank : last ≠ "" := by
    rintro rfl
    exact hblank hlast
  have hvalue := isSome_of_run h
  rw [run_eq_descend hne, hlastD] at h
  have hdescend := client_descend h fun hk heq => hadd hk (heq ▸ hlast)
  rw [PatchOp.json, Patch.Client.applyRawOp, hpath]
  cases value with
  | none =>
    have hremove : kind = .remove := by
      by_contra hk
      cases hvalue hk
    subst hremove
    dsimp only at hdescend
    simp [TokenOp.at, lookup_cons, hhead, hsplit, Patch.textOf, hkind, hlast, hnotblank, hdescend]
  | some u =>
    dsimp only at hdescend
    simp [TokenOp.at, lookup_cons, hhead, hsplit, Patch.textOf, hkind, hlast, hnotblank, hdescend]

theorem client_blank (h : Blank op) : ∃ stop, Patch.Client.applyRawOp v (op.at "").json = .error stop := by
  obtain ⟨kind, tokens, value⟩ := op
  have hne : tokens ≠ [] := by
    rintro rfl
    cases h
  have hpath : (TokenOp.at "" ⟨kind, tokens, value⟩).path = render tokens := rfl
  have hkind : PatchKind.parse kind.name = some kind := by cases kind <;> rfl
  have hhead : (render tokens).toList.head? = some '/' := Pointer.startsWith_render hne
  have hsplit := Pointer.splitPointer_render tokens hne
  have hlast : tokens.getLast? = some "" := h
  refine ⟨.throws, ?_⟩
  rw [PatchOp.json, Patch.Client.applyRawOp, hpath]
  cases value <;>
    simp [TokenOp.at, lookup_cons, hhead, hsplit, Patch.textOf, hkind, hlast]

end Operation

section Operations

variable [DecidableEq ν] {o : KeyOrder} {pointer key token : String} {ops : List (TokenOp ν)}
  {op : TokenOp ν} {base target : Json ν} {bases targets : List (String × Json ν)}

omit [DecidableEq ν] in
theorem mem_under : op ∈ under token ops ↔
    ∃ op' ∈ ops, { op' with tokens := token :: op'.tokens } = op := List.mem_map

/-- The operation adds no `__proto__`. -/
def Fair (op : TokenOp ν) : Prop := op.kind = .add → op.tokens.getLast? ≠ some protoName

omit [DecidableEq ν] in
theorem fair_under (hanchored : Anchored ops) (h : ∀ op ∈ ops, Fair op) :
    ∀ op ∈ under token ops, Fair op := by
  intro op hop hadd
  obtain ⟨op', hop', rfl⟩ := mem_under.mp hop
  have hne : op'.tokens ≠ [] := by
    intro hnil
    rw [show op'.kind = .replace from hanchored op' hop' hnil] at hadd
    cases hadd
  rw [getLast?_cons_of_ne_nil hne]
  exact h op' hop' hadd

variable {index : Nat}

omit [DecidableEq ν] in
theorem fair_additions {items : List (Json ν)} : ∀ op ∈ tokenAdditions index items, Fair op := by
  induction items generalizing index with
  | nil => exact fun _ h => absurd h not_mem_nil
  | cons v items ih =>
    rw [tokenAdditions]
    refine forall_mem_cons.mpr ⟨fun _ heq => ?_, ih⟩
    have hname : toString index = protoName := some.inj heq
    have hdigit := (Pointer.toList_toString index).2 '_' (by rw [hname]; decide)
    cases hdigit

variable (key target) in
theorem fair_inherited :
    ∀ op ∈ tokenInherited o pointer key target, Fair op := by
  intro op hop
  unfold tokenInherited at hop
  split at hop
  · obtain ⟨b, hb, hop⟩ := mem_inOrder hop
    obtain ⟨f, -, rfl⟩ := List.mem_map.mp hb
    dsimp only at hop
    split at hop
    · split at hop
      · cases hop
      · rw [mem_singleton.mp hop]
        exact fun hadd => absurd hadd (by simp)
    · rename_i hproto
      split at hop
      · rw [mem_singleton.mp hop]
        exact fun hadd => absurd hadd (by simp)
      · rw [mem_singleton.mp hop]
        exact fun _ heq => hproto (beq_iff_eq.mpr (some.inj heq))
  · rw [mem_singleton.mp hop]
    exact fun hadd => absurd hadd (by simp)

theorem mem_fields (h : op ∈ inOrder (o.keys pointer (targets.map Prod.fst))
      (tokenFields o pointer bases targets)) :
    ∃ key target, targets.lookup key = some target ∧
      op ∈ ((tokenFields o pointer bases targets).lookup key).getD [] := by
  obtain ⟨key, hkey, hop⟩ := mem_flatMap.mp h
  rw [(o.perm pointer _).mem_iff, Assoc.mem_keys_iff] at hkey
  obtain ⟨target, ht⟩ := isSome_iff_exists.mp hkey
  exact ⟨key, target, ht, hop⟩

theorem fair_tokenDiff : ∀ op ∈ tokenDiff o pointer base target, Fair op := by
  induction target using Json.ind generalizing pointer base with
  | arr targets ih =>
    cases base with
    | arr bases =>
      have hitems : ∀ (index : Nat) (bases : List (Json ν)),
          ∀ op ∈ tokenItems o pointer index bases targets, Fair op := by
        induction targets with
        | nil =>
          intro index bases op hop
          cases bases <;> cases hop
        | cons target targets iht =>
          intro index bases
          cases bases with
          | nil => exact fun _ h => absurd h not_mem_nil
          | cons base bases =>
            rw [tokenItems]
            refine forall_mem_append.mpr ⟨?_, ?_⟩
            · exact fair_under (anchored_tokenDiff base target)
                (ih target mem_cons_self)
            · exact iht (fun t ht => ih t (mem_cons_of_mem target ht)) _ bases
      rw [tokenDiff]
      refine forall_mem_append.mpr ⟨forall_mem_append.mpr ⟨hitems 0 bases, ?_⟩, fair_additions⟩
      intro op hop hadd
      obtain ⟨index, -, rfl⟩ := List.mem_map.mp hop
      cases hadd
    | _ => simp [tokenDiff, Fair]
  | obj targets ih =>
    cases base with
    | obj bases =>
      rw [tokenDiff]
      refine forall_mem_append.mpr ⟨?_, ?_⟩
      · intro op hop hadd
        obtain ⟨key, -, rfl⟩ := List.mem_map.mp hop
        cases hadd
      · intro op hop
        obtain ⟨key, target, ht, hop⟩ := mem_fields hop
        cases hb : bases.lookup key with
        | some base =>
          rw [lookup_tokenFields_shared ht hb] at hop
          exact fair_under (anchored_tokenDiff base target)
            (ih key target (Assoc.mem_of_lookup ht)) op hop
        | none =>
          rw [lookup_tokenFields_missing ht hb, getD_some] at hop
          split at hop
          · exact fair_under (anchored_tokenInherited key target) (fair_inherited key target) op hop
          · rename_i hinherited
            rw [mem_singleton.mp hop]
            rintro - heq
            obtain rfl : key = protoName := some.inj heq
            exact hinherited (by decide)
    | _ => simp [tokenDiff, Fair]
  | _ =>
    intro op hop hadd
    simp only [tokenDiff] at hop
    split at hop
    · cases hop
    · rw [mem_singleton.mp hop] at hadd
      cases hadd

/-! ## The empty key -/

theorem exists_root_iff :
    (∃ op ∈ tokenDiff o pointer base target, op.tokens = []) ↔ replaced base target = true := by
  have hleaf : ∀ leaf : Bool, ∀ target : Json ν,
      (∃ op ∈ if leaf = true then [] else [(⟨.replace, [], some target⟩ : TokenOp ν)],
        op.tokens = []) ↔ (!leaf) = true := by
    intro leaf target
    cases leaf <;> simp
  cases target with
  | arr targets =>
    cases base with
    | arr bases =>
      rw [replaced, tokenDiff]
      simp only [Bool.false_eq_true, iff_false]
      rintro ⟨op, hop, hnil⟩
      rcases mem_append.mp hop with hop | hop
      · rcases mem_append.mp hop with hop | hop
        · exact below_of_mem_items hop hnil
        · obtain ⟨index, -, rfl⟩ := List.mem_map.mp hop
          cases hnil
      · exact below_of_mem_additions hop hnil
    | _ => simp [tokenDiff, replaced, leafEq]
  | obj targets =>
    cases base with
    | obj bases =>
      rw [replaced, tokenDiff]
      simp only [Bool.false_eq_true, iff_false]
      rintro ⟨op, hop, hnil⟩
      rcases mem_append.mp hop with hop | hop
      · obtain ⟨key, -, rfl⟩ := List.mem_map.mp hop
        cases hnil
      · obtain ⟨b, hb, hop⟩ := mem_inOrder hop
        exact below_of_mem_fields hb hop hnil
    | _ => simp [tokenDiff, replaced, leafEq]
  | _ =>
    simp only [tokenDiff, replaced]
    exact hleaf _ _

omit [DecidableEq ν] in
theorem notBlank_under : (∀ op ∈ under token ops, ¬ Blank op) ↔
    (token = "" → ¬ ∃ op ∈ ops, op.tokens = []) ∧ ∀ op ∈ ops, ¬ Blank op := by
  simp only [mem_under, forall_exists_index, and_imp, forall_apply_eq_imp_iff₂, Blank]
  constructor
  · intro h
    refine ⟨?_, fun op hop hblank => ?_⟩
    · rintro rfl ⟨op, hop, hnil⟩
      exact h op hop (by rw [hnil]; rfl)
    · refine h op hop ?_
      rwa [getLast?_cons_of_ne_nil (by rintro hnil; rw [hnil] at hblank; cases hblank)]
  · rintro ⟨htoken, hops⟩ op hop hblank
    by_cases hnil : op.tokens = []
    · rw [hnil] at hblank
      exact htoken (some.inj hblank) ⟨op, hop, hnil⟩
    · rw [getLast?_cons_of_ne_nil hnil] at hblank
      exact hops op hop hblank

omit [DecidableEq ν] in
theorem notBlank_additions {items : List (Json ν)} : ∀ op ∈ tokenAdditions index items, ¬ Blank op := by
  induction items generalizing index with
  | nil => exact fun _ h => absurd h not_mem_nil
  | cons v items ih =>
    rw [tokenAdditions]
    exact forall_mem_cons.mpr
      ⟨fun hblank => Pointer.toString_ne_empty index (some.inj hblank), ih⟩

omit [DecidableEq ν] in
theorem notBlank_removals {shared length : Nat} :
    ∀ op ∈ tokenRemovals (ν := ν) shared length, ¬ Blank op := by
  intro op hop hblank
  obtain ⟨index, -, rfl⟩ := List.mem_map.mp hop
  exact Pointer.toString_ne_empty index (some.inj hblank)

omit [DecidableEq ν] in
theorem notBlank_removedKeys :
    (∀ op ∈ tokenRemovedKeys (o.keys pointer (bases.map Prod.fst)) targets, ¬ Blank op) ↔
      ((bases.lookup "").isSome → (targets.lookup "").isSome) := by
  have hinherited : inheritedNames.contains "" = false := by decide
  constructor
  · intro h hbase
    by_contra htarget
    refine h ⟨.remove, [""], none⟩ (List.mem_map.mpr ⟨"", ?_, rfl⟩) rfl
    rw [mem_filter, (o.perm pointer _).mem_iff, Assoc.mem_keys_iff, hinherited]
    refine ⟨hbase, ?_⟩
    rw [Bool.eq_false_iff.mpr htarget]
    rfl
  · intro h op hop hblank
    obtain ⟨key, hkey, rfl⟩ := List.mem_map.mp hop
    obtain rfl : key = "" := some.inj hblank
    rw [mem_filter, (o.perm pointer _).mem_iff, Assoc.mem_keys_iff, hinherited] at hkey
    rw [h hkey.1] at hkey
    exact absurd hkey.2 (by simp)

theorem fieldsKeepEmptyKey_iff : fieldsKeepEmptyKey bases targets ↔
    ∀ key target, (key, target) ∈ targets → ∀ base, bases.lookup key = some base →
      keepsEmptyKey base target := by
  refine fields_iff rfl fun key target targets => ?_
  rw [fieldsKeepEmptyKey]
  cases bases.lookup key <;> rfl

theorem sameEmptyKey_iff : sameEmptyKey bases targets ↔
    ((bases.lookup "").isSome → (targets.lookup "").isSome) ∧ ∀ target, targets.lookup "" = some target →
        ∃ base, bases.lookup "" = some base ∧ replaced base target = false := by
  unfold sameEmptyKey
  cases bases.lookup "" <;> cases targets.lookup "" <;> simp

theorem notBlank_tokenDiff (hbase : base.wf) (htarget : target.wf)
    (hshares : sharesInherited base target) :
    (∀ op ∈ tokenDiff o pointer base target, ¬ Blank op) ↔ keepsEmptyKey base target := by
  induction target using Json.ind generalizing pointer base with
  | arr targets ih =>
    cases base with
    | arr bases =>
      have hitems : ∀ (index : Nat) (bases : List (Json ν)), (∀ v ∈ bases, v.wf) →
          itemsShare bases targets →
          ((∀ op ∈ tokenItems o pointer index bases targets, ¬ Blank op) ↔
            itemsKeepEmptyKey bases targets) := by
        rw [Json.wf, Json.wfItems_iff] at htarget
        clear hshares
        induction targets with
        | nil =>
          intro index bases _ _
          cases bases <;> simp [tokenItems, itemsKeepEmptyKey]
        | cons target targets iht =>
          intro index bases hbases hshare
          cases bases with
          | nil => simp [tokenItems, itemsKeepEmptyKey]
          | cons base bases =>
            obtain ⟨htarget, htargets⟩ := forall_mem_cons.mp htarget
            obtain ⟨hbase, hbases⟩ := forall_mem_cons.mp hbases
            rw [itemsShare, Bool.and_eq_true] at hshare
            have hrest := iht (fun t ht => ih t (mem_cons_of_mem target ht)) htargets
              (index + 1) bases hbases hshare.2
            rw [tokenItems, itemsKeepEmptyKey, forall_mem_append, notBlank_under, hrest,
              ih target mem_cons_self hbase htarget hshare.1, Bool.and_eq_true]
            exact and_congr_left' ⟨fun h => h.2, fun h =>
              ⟨fun hempty => absurd hempty (Pointer.toString_ne_empty index), h⟩⟩
      rw [Json.wf, Json.wfItems_iff] at hbase
      rw [sharesInherited] at hshares
      rw [tokenDiff, forall_mem_append, forall_mem_append, hitems 0 bases hbase hshares, keepsEmptyKey]
      exact ⟨fun h => h.1.1, fun h => ⟨⟨h, notBlank_removals⟩, notBlank_additions⟩⟩
    | _ => simp [tokenDiff, keepsEmptyKey, Blank]
  | obj targets ih =>
    cases base with
    | obj bases =>
      rw [Json.wf_obj] at hbase htarget
      rw [sharesInherited, Bool.and_eq_true, sharesNames_iff, fieldsShare_iff] at hshares
      obtain ⟨hnames, hfields⟩ := hshares
      -- what the operations of one key say
      have hkey : ∀ key target, targets.lookup key = some target →
          ((∀ op ∈ ((tokenFields o pointer bases targets).lookup key).getD [], ¬ Blank op) ↔
            (key = "" → ∃ base, bases.lookup key = some base ∧ replaced base target = false) ∧
            ∀ base, bases.lookup key = some base → keepsEmptyKey base target = true) := by
        intro key target ht
        have hmem := Assoc.mem_of_lookup ht
        cases hb : bases.lookup key with
        | some base =>
          rw [lookup_tokenFields_shared ht hb, getD_some, notBlank_under, exists_root_iff,
            ih key target hmem (Json.wf_of_lookup hbase.2 hb) (htarget.2 _ hmem)
              (hfields key target hmem base hb)]
          simp
        | none =>
          have hinherited : ¬ inheritedNames.contains key := by
            intro hcontains
            have hname := hnames key (contains_iff_mem.mp hcontains)
            rw [hb, ht] at hname
            cases hname
          rw [lookup_tokenFields_missing ht hb, if_neg hinherited, getD_some]
          simp [Blank]
      rw [tokenDiff, keepsEmptyKey, forall_mem_append, notBlank_removedKeys,
        Bool.and_eq_true, sameEmptyKey_iff, fieldsKeepEmptyKey_iff, and_assoc]
      refine and_congr_right fun _ => ?_
      constructor
      · intro h
        have hat : ∀ key target, targets.lookup key = some target →
            ∀ op ∈ ((tokenFields o pointer bases targets).lookup key).getD [], ¬ Blank op := by
          intro key target ht op hop
          refine h op (mem_flatMap.mpr ⟨key, ?_, hop⟩)
          rw [(o.perm pointer _).mem_iff, Assoc.mem_keys_iff, ht]
          rfl
        refine ⟨fun target ht => ((hkey "" target ht).mp (hat "" target ht)).1 rfl, ?_⟩
        intro key target hmem base hb
        have ht := htarget.1.lookup_of_mem hmem
        exact ((hkey key target ht).mp (hat key target ht)).2 base hb
      · rintro ⟨hempty, hkeeps⟩ op hop
        obtain ⟨key, target, ht, hop⟩ := mem_fields hop
        refine (hkey key target ht).mpr ⟨?_, hkeeps key target (Assoc.mem_of_lookup ht)⟩ op hop
        rintro rfl
        exact hempty target ht
    | _ => simp [tokenDiff, keepsEmptyKey, Blank]
  | _ =>
    simp only [keepsEmptyKey, iff_true, tokenDiff]
    intro op hop hblank
    split at hop
    · cases hop
    · rw [mem_singleton.mp hop] at hblank
      cases hblank

theorem head_tokenDiff_obj (h : op ∈ tokenDiff o pointer (.obj bases) (.obj targets)) :
    ∃ key, op.tokens.head? = some key ∧ (key ∈ bases.map Prod.fst ∨ key ∈ targets.map Prod.fst) := by
  rw [tokenDiff] at h
  rcases mem_append.mp h with h | h
  · obtain ⟨key, hkey, rfl⟩ := List.mem_map.mp h
    exact ⟨key, rfl, .inl ((o.perm pointer _).mem_iff.mp (mem_filter.mp hkey).1)⟩
  · obtain ⟨key, target, ht, h⟩ := mem_fields h
    have hkey : key ∈ targets.map Prod.fst := by
      rw [Assoc.mem_keys_iff, ht]
      rfl
    refine ⟨key, ?_, .inr hkey⟩
    cases hb : bases.lookup key with
    | some base =>
      rw [lookup_tokenFields_shared ht hb] at h
      obtain ⟨op', -, rfl⟩ := mem_under.mp h
      rfl
    | none =>
      rw [lookup_tokenFields_missing ht hb, getD_some] at h
      split at h
      · obtain ⟨op', -, rfl⟩ := mem_under.mp h
        rfl
      · rw [mem_singleton.mp h]
        rfl

theorem tokenDiff_self {v : Json ν} (hwf : v.wf) : tokenDiff o pointer v v = [] := by
  induction v using Json.ind generalizing pointer with
  | arr items ih =>
    rw [Json.wf, Json.wfItems_iff] at hwf
    have hitems : ∀ index, tokenItems o pointer index items items = [] := by
      induction items with
      | nil => exact fun _ => rfl
      | cons v items iht =>
        obtain ⟨hv, hitems⟩ := forall_mem_cons.mp hwf
        intro index
        rw [tokenItems, ih v mem_cons_self hv, iht (fun w hw => ih w (mem_cons_of_mem v hw)) hitems]
        rfl
    rw [tokenDiff, hitems]
    simp [tokenRemovals, tokenAdditions]
  | obj fields ih =>
    rw [Json.wf_obj] at hwf
    rw [tokenDiff, append_eq_nil_iff]
    refine ⟨?_, ?_⟩
    · rw [tokenRemovedKeys, map_eq_nil_iff, filter_eq_nil_iff]
      intro key hkey
      rw [(o.perm pointer _).mem_iff, Assoc.mem_keys_iff] at hkey
      simp [hkey]
    · refine eq_nil_iff_forall_not_mem.mpr fun op hop => ?_
      obtain ⟨key, target, ht, hop⟩ := mem_fields hop
      have hmem := Assoc.mem_of_lookup ht
      rw [lookup_tokenFields_shared ht ht, ih key target hmem (hwf.2 _ hmem)] at hop
      cases hop
  | _ => simp [tokenDiff, leafEq]

end Operations

section Appliers

variable {ops : List (TokenOp ν)} {v w : Json ν}

def patchOf (ops : List (TokenOp ν)) : List (Json ν) := ops.map fun op => (op.at "").json

theorem server_applyOps (h : ∀ op ∈ ops, op.tokens.headD "" ≠ "") :
    Patch.Server.applyOps v (patchOf ops) = runAll ops v := by
  induction ops generalizing v with
  | nil => rfl
  | cons op ops ih =>
    obtain ⟨hop, hops⟩ := forall_mem_cons.mp h
    rw [runAll_cons, patchOf, map_cons, Patch.Server.applyOps, foldlM_cons, server_applyRawOp hop]
    exact congrArg _ (funext fun w => ih hops)

theorem client_applyJsonPatch (hrun : runAll ops v = some w) (hne : ∀ op ∈ ops, op.tokens ≠ [])
    (hblank : ∀ op ∈ ops, ¬ Blank op) (hfair : ∀ op ∈ ops, Fair op) :
    Patch.Client.applyJsonPatch v (patchOf ops) = .ok w := by
  induction ops generalizing v with
  | nil =>
    rw [some.inj hrun]
    rfl
  | cons op ops ih =>
    obtain ⟨hop, hne⟩ := forall_mem_cons.mp hne
    obtain ⟨hopblank, hblank⟩ := forall_mem_cons.mp hblank
    obtain ⟨hopfair, hfair⟩ := forall_mem_cons.mp hfair
    rw [runAll_cons] at hrun
    obtain ⟨u, hu, hrun⟩ := bind_eq_some_iff.mp hrun
    rw [patchOf, map_cons, Patch.Client.applyJsonPatch, foldlM_cons,
      client_applyRawOp hu hop hopblank hopfair]
    exact ih hrun hne hblank hfair

theorem client_refuses {op : TokenOp ν} (hop : op ∈ ops) (hblank : Blank op) :
    Patch.Client.applyJsonPatch v (patchOf ops) ≠ .ok w := by
  induction ops generalizing v with
  | nil => cases hop
  | cons op' ops ih =>
    rw [patchOf, map_cons, Patch.Client.applyJsonPatch, foldlM_cons]
    rcases mem_cons.mp hop with rfl | hop
    · obtain ⟨stop, hstop⟩ := client_blank (v := v) hblank
      rw [hstop]
      intro h
      cases h
    · cases hstep : Patch.Client.applyRawOp v (op'.at "").json with
      | error stop =>
        intro h
        cases h
      | ok u => exact ih hop

end Appliers

section Exact

variable [DecidableEq ν] (o : KeyOrder) (textLength : Json ν → Nat) (sequence : ν)

omit [DecidableEq ν] in
theorem SnapshotContent.wf_fields (c : SnapshotContent ν) : (Json.obj c.fields).wf := by
  have hwf := c.wf
  rw [Bool.and_eq_true, Bool.and_eq_true] at hwf
  rw [Json.wf_obj]
  constructor
  · have hnames : "capture" < "domTree" ∧ "capture" < "selectorMap" ∧ "domTree" < "selectorMap" := by
      simp only [String.lt_iff_toList_lt]
      decide
    simp only [SnapshotContent.fields, Assoc.Sorted, pairwise_cons, forall_mem_cons,
      not_mem_nil, List.Pairwise.nil, hnames]
    simp
  · simp [SnapshotContent.fields, hwf]

variable {base candidate : SnapshotContent ν}

theorem buildSnapshotDelta_eq_some {d : ν × List (Json ν)}
    (h : buildSnapshotDelta o textLength sequence base candidate = some d) :
    d.2 = patchOf (tokenDiff o "" (.obj base.fields) (.obj candidate.fields)) ∧ d.2 ≠ [] ∧
      d.2.length ≤ maxDeltaPatchOps := by
  unfold buildSnapshotDelta at h
  dsimp only at h
  split at h
  · cases h
  · rename_i hguard
    split at h
    · cases h
    · cases h
      rw [diffJson_eq, List.map_map] at *
      simp only [Bool.or_eq_true, List.isEmpty_iff, decide_eq_true_eq, not_or] at hguard
      refine ⟨rfl, ?_, ?_⟩
      · simpa using hguard.1
      · simpa using hguard.2

theorem head_tokenDiff {op : TokenOp ν}
    (h : op ∈ tokenDiff o "" (.obj base.fields) (.obj candidate.fields)) :
    op.tokens.headD "" ≠ "" := by
  obtain ⟨key, hkey, hmem⟩ := head_tokenDiff_obj h
  rw [headD_eq_head?_getD, hkey, getD_some]
  have hnames : key ∈ ["capture", "domTree", "selectorMap"] := hmem.elim id id
  rintro rfl
  exact absurd hnames (by decide)

theorem server_delta_iff {d : ν × List (Json ν)}
    (hd : buildSnapshotDelta o textLength sequence base candidate = some d) :
    Patch.Server.applySnapshotPatch base.fields d.2 = some candidate.fields ↔
      sharesInherited (.obj base.fields) (.obj candidate.fields) := by
  obtain ⟨hpatch, hne, hlength⟩ := buildSnapshotDelta_eq_some o textLength sequence hd
  have hbound : ¬ Patch.Server.maxSnapshotPatchOps < d.2.length :=
    not_lt.mpr (hlength.trans (by decide))
  rw [← @runAll_tokenDiff_iff ν _ o "" _ _ (SnapshotContent.wf_fields base)
      (SnapshotContent.wf_fields candidate),
    Patch.Server.applySnapshotPatch, if_neg (by simpa [hne] using hbound), hpatch,
    server_applyOps fun op => head_tokenDiff o]
  cases runAll (tokenDiff o "" (.obj base.fields) (.obj candidate.fields)) (.obj base.fields) with
  | none => simp
  | some v => cases v <;> simp

/-- Equal contents have no delta. For every delta that is returned, the server's applier and the
client's applier both give the candidate back exactly when the two contents agree, at every two
objects compared, on the names of `Object.prototype`, and the diff has nothing to do at an empty
key. -/
theorem delta_exact_iff (base candidate : SnapshotContent ν) :
    (base = candidate → buildSnapshotDelta o textLength sequence base candidate = none) ∧
    ∀ d, buildSnapshotDelta o textLength sequence base candidate = some d →
      ((Patch.Server.applySnapshotPatch base.fields d.2 = some candidate.fields ∧
        Patch.Client.applyJsonPatch (.obj base.fields) d.2 = .ok (.obj candidate.fields)) ↔
      (sharesInherited (.obj base.fields) (.obj candidate.fields) = true ∧
        keepsEmptyKey (.obj base.fields) (.obj candidate.fields) = true)) := by
  have hbase := SnapshotContent.wf_fields base
  have hcandidate := SnapshotContent.wf_fields candidate
  constructor
  · rintro rfl
    have hself : tokenDiff o "" (.obj base.fields) (.obj base.fields) = [] := tokenDiff_self hbase
    unfold buildSnapshotDelta
    rw [diffJson_eq, hself]
    rfl
  · intro d hd
    obtain ⟨hpatch, -, -⟩ := buildSnapshotDelta_eq_some o textLength sequence hd
    have htokens : ∀ op ∈ tokenDiff o "" (.obj base.fields) (.obj candidate.fields),
        op.tokens ≠ [] := fun op hop hnil => head_tokenDiff o hop (by rw [hnil]; rfl)
    rw [server_delta_iff o textLength sequence hd]
    refine and_congr_right fun hshares => ?_
    have hkeeps := @notBlank_tokenDiff ν _ o "" _ _ hbase hcandidate hshares
    rw [← hkeeps, hpatch]
    constructor
    · intro h op hop hblank
      exact client_refuses hop hblank h
    · intro h
      exact client_applyJsonPatch ((runAll_tokenDiff_iff hbase hcandidate).mpr hshares) htokens h
        fair_tokenDiff

end Exact

section EmptyKey

mutual

def plainLength : Json Nat → Nat
  | .null => 4
  | .bool b => if b then 4 else 5
  | .num n => (toString n).length
  | .str s => s.length + 2
  | .arr items => 1 + max 1 (plainItems items)
  | .obj fields => 1 + max 1 (plainFields fields)

def plainItems : List (Json Nat) → Nat
  | [] => 0
  | v :: items => plainLength v + 1 + plainItems items

def plainFields : List (String × Json Nat) → Nat
  | [] => 0
  | (key, v) :: fields => key.length + 3 + plainLength v + 1 + plainFields fields

end

def sameOrder : KeyOrder := ⟨fun _ keys => keys, fun _ keys => .refl keys⟩

def emptyKeyContent (n : Nat) : SnapshotContent Nat where
  selectorMap := .obj [("", .num n)]
  domTree := .str "a page of some length, so that the patch of one operation is worth it: the length counts"
  capture := .null
  wf := by simp [Json.wf, Json.wfFields, Assoc.Sorted]

/-- The delta between two such pages is returned, and the client refuses it. -/
theorem empty_key_refused :
    ∃ d, buildSnapshotDelta sameOrder plainLength 1 (emptyKeyContent 1) (emptyKeyContent 2) = some d ∧
      Patch.Client.applyJsonPatch (.obj (emptyKeyContent 1).fields) d.2 ≠
        .ok (.obj (emptyKeyContent 2).fields) := by
  have hpath : child (child "" "selectorMap") "" = "/selectorMap/" := by decide
  have hsplit : splitPointer "/selectorMap/" = ["selectorMap", ""] := by decide
  refine ⟨(1, [(⟨.replace, "/selectorMap/", some (.num 2)⟩ : PatchOp Nat).json]), ?_, ?_⟩
  · have hops : diffJson sameOrder "" (.obj (emptyKeyContent 1).fields)
        (.obj (emptyKeyContent 2).fields) = [⟨.replace, "/selectorMap/", some (.num 2)⟩] := by
      simp [emptyKeyContent, SnapshotContent.fields, diffJson, diffFields, lookup_cons, leafEq,
        removedKeys, inOrder, sameOrder, hpath]
    have hpatch : plainLength (.arr [(⟨.replace, "/selectorMap/", some (.num 2)⟩ :
        PatchOp Nat).json]) = 51 := by
      simp [PatchOp.json, PatchKind.name, plainLength, plainItems, plainFields]
      decide
    have hcontent : plainLength (.obj (emptyKeyContent 2).fields) = 138 := by
      simp [emptyKeyContent, SnapshotContent.fields, plainLength, plainFields]
      decide
    rw [buildSnapshotDelta, hops]
    simp only [map_cons, map_nil, hpatch, hcontent]
    rfl
  · have hkind : PatchKind.parse PatchKind.replace.name = some .replace := rfl
    simp [Patch.Client.applyJsonPatch, Patch.Client.applyRawOp, PatchOp.json, lookup_cons,
      Patch.textOf, hkind, hsplit]

end EmptyKey

end Delta

end Aegis
