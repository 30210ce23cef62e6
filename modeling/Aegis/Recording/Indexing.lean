import Aegis.Recording.Handlers

/-!
# Recording.Indexing

The indices that a recorder gives to elements. An element keeps its index while its key is the same,
and a snapshot has an entry under the index of every element that was enumerated or pinned.
-/

namespace Aegis

open List Option

namespace ContentRecorder

variable {ε : Type} {clock : Nat → Nat} {page : Page ε} {x y z : Indexes ε} {el : ε} {key : String}
  {index : Nat}

def Indexes.indexOf (x : Indexes ε) (key : String) : Option Nat :=
  (x.selectorToIndex.lookup key).map IndexEntry.index

/-- Elements keep their indexes. -/
def Extends (x y : Indexes ε) : Prop := ∀ key index, x.indexOf key = some index → y.indexOf key = some index

theorem Extends.refl (x : Indexes ε) : Extends x x := fun _ _ h => h

theorem Extends.trans (h : Extends x y) (h' : Extends y z) : Extends x z :=
  fun key index hx => h' key index (h key index hx)

theorem lookup_touch (l : List (String × IndexEntry)) (now : Nat) (identity key : String) :
    ((l.map fun p => if p.1 = identity then (p.1, { p.2 with lastUsedAt := now }) else p).lookup
      key).map IndexEntry.index = (l.lookup key).map IndexEntry.index := by
  induction l with
  | nil => rfl
  | cons p l ih =>
    obtain ⟨key', entry⟩ := p
    have hkey : (if (key', entry).1 = identity then
        ((key', entry).1, { (key', entry).2 with lastUsedAt := now }) else (key', entry)).1 = key' := by
      split <;> rfl
    have hindex : (if (key', entry).1 = identity then
        ((key', entry).1, { (key', entry).2 with lastUsedAt := now }) else (key', entry)).2.index =
          entry.index := by
      split <;> rfl
    rw [map_cons, lookup_cons, lookup_cons, hkey]
    by_cases hsame : (key == key')
    · rw [hsame]
      exact congrArg some hindex
    · rw [Bool.eq_false_iff.mpr hsame]
      exact ih

theorem indexElement_extends : Extends x (indexElement clock page el x).2 := by
  intro key index h
  simp only [indexElement, dateNow]
  split
  · rw [← h]
    exact lookup_touch _ _ _ _
  · rw [Indexes.indexOf] at h ⊢
    obtain ⟨entry, hentry, rfl⟩ := map_eq_some_iff.mp h
    rw [lookup_append, hentry]
    rfl

theorem indexElement_indexOf : (indexElement clock page el x).2.indexOf (identityOf page el) =
    some (indexElement clock page el x).1 := by
  simp only [indexElement, dateNow]
  split
  · rename_i entry hentry
    rw [Indexes.indexOf, lookup_touch, hentry]
    rfl
  · rename_i hnone
    rw [Indexes.indexOf, lookup_append, hnone]
    simp

theorem indexElement_of_indexOf (h : x.indexOf (identityOf page el) = some index) :
    (indexElement clock page el x).1 = index := by
  have hextends : (indexElement clock page el x).2.indexOf (identityOf page el) = some index :=
    indexElement_extends _ _ h
  rw [indexElement_indexOf] at hextends
  exact some.inj hextends

theorem indexElement_pins :
    (indexElement clock page el x).2.pendingEventElements = x.pendingEventElements := by
  simp only [indexElement, dateNow]
  split <;> rfl

theorem pinEventElement_extends : Extends x (pinEventElement el x) := fun _ _ h => h

theorem getElementIndex_extends : Extends x (getElementIndex clock page el x).2 :=
  pinEventElement_extends.trans indexElement_extends

theorem getElementIndex_indexOf : (getElementIndex clock page el x).2.indexOf (identityOf page el) =
    some (getElementIndex clock page el x).1 :=
  indexElement_indexOf

section Entries

variable {els : List ε} {entries : SelectorMap}

theorem enumerate_cons (els : List ε) (m : SelectorMap × Indexes ε) :
    enumerate clock page (el :: els) m = enumerate clock page els
      (Function.update m.1 (indexElement clock page el m.2).1
        (some (entryOf page el (indexElement clock page el m.2).1)),
        (indexElement clock page el m.2).2) :=
  rfl

theorem drain_cons (els : List ε) (m : SelectorMap × Indexes ε) :
    drain clock page (el :: els) m = drain clock page els
      (if (m.1 (indexElement clock page el m.2).1).isNone then
        Function.update m.1 (indexElement clock page el m.2).1
          (some (entryOf page el (indexElement clock page el m.2).1)) else m.1,
        (indexElement clock page el m.2).2) :=
  rfl

theorem buildSnapshotSelectorMap_eq [DecidableEq ε] (x : Indexes ε) :
    buildSnapshotSelectorMap clock page x =
      let m := enumerate clock page (findInteractableElements page) (fun _ => none, x)
      drain clock page m.2.pendingEventElements (m.1, { m.2 with pendingEventElements := [] }) :=
  rfl

theorem enumerate_extends (els : List ε) (m : SelectorMap × Indexes ε) :
    Extends m.2 (enumerate clock page els m).2 := by
  induction els generalizing m with
  | nil => exact Extends.refl _
  | cons el els ih =>
    refine indexElement_extends.trans (y := (indexElement clock page el m.2).2) ?_
    rw [enumerate_cons]
    exact ih (_, _)

theorem drain_extends (els : List ε) (m : SelectorMap × Indexes ε) :
    Extends m.2 (drain clock page els m).2 := by
  induction els generalizing m with
  | nil => exact Extends.refl _
  | cons el els ih =>
    refine indexElement_extends.trans (y := (indexElement clock page el m.2).2) ?_
    rw [drain_cons]
    exact ih (_, _)

theorem buildSnapshotSelectorMap_extends [DecidableEq ε] :
    Extends x (buildSnapshotSelectorMap clock page x).2 := by
  have henumerated : Extends x
      (enumerate clock page (findInteractableElements page) (fun _ => none, x)).2 :=
    enumerate_extends _ (fun _ => none, x)
  rw [buildSnapshotSelectorMap_eq]
  generalize enumerate clock page (findInteractableElements page) (fun _ => none, x) = m at *
  have hdropped : Extends m.2 { m.2 with pendingEventElements := [] } := fun _ _ h => h
  exact henumerated.trans (hdropped.trans (drain_extends _ (m.1, { m.2 with pendingEventElements := [] })))

theorem drain_pins (els : List ε) (m : SelectorMap × Indexes ε) :
    (drain clock page els m).2.pendingEventElements = m.2.pendingEventElements := by
  induction els generalizing m with
  | nil => rfl
  | cons el els ih =>
    rw [drain_cons]
    exact (ih _).trans indexElement_pins

theorem enumerate_pins (els : List ε) (m : SelectorMap × Indexes ε) :
    (enumerate clock page els m).2.pendingEventElements = m.2.pendingEventElements := by
  induction els generalizing m with
  | nil => rfl
  | cons el els ih =>
    rw [enumerate_cons]
    exact (ih _).trans indexElement_pins

theorem buildSnapshotSelectorMap_pins [DecidableEq ε] :
    (buildSnapshotSelectorMap clock page x).2.pendingEventElements = [] := by
  rw [buildSnapshotSelectorMap_eq]
  exact drain_pins _ _

theorem update_isSome {entry : DomElementInfo} {i : Nat} (h : (entries i).isSome) :
    (Function.update entries index (some entry) i).isSome := by
  by_cases hi : i = index
  · rw [hi, Function.update_self]
    rfl
  · rwa [Function.update_of_ne hi]

theorem enumerate_keeps (els : List ε) (m : SelectorMap × Indexes ε) {i : Nat}
    (h : (m.1 i).isSome) : ((enumerate clock page els m).1 i).isSome = true := by
  induction els generalizing m with
  | nil => exact h
  | cons el els ih =>
    rw [enumerate_cons]
    exact ih _ (update_isSome h)

theorem drain_keeps (els : List ε) (m : SelectorMap × Indexes ε) {i : Nat}
    (h : (m.1 i).isSome) : ((drain clock page els m).1 i).isSome = true := by
  induction els generalizing m with
  | nil => exact h
  | cons el els ih =>
    rw [drain_cons]
    refine ih _ ?_
    dsimp only
    split
    · exact update_isSome h
    · exact h

theorem enumerate_isSome (els : List ε) (m : SelectorMap × Indexes ε) (hel : el ∈ els)
    (h : m.2.indexOf (identityOf page el) = some index) :
    ((enumerate clock page els m).1 index).isSome := by
  induction els generalizing m with
  | nil => cases hel
  | cons other els ih =>
    rw [enumerate_cons]
    rcases mem_cons.mp hel with rfl | hel
    · refine enumerate_keeps els _ ?_
      rw [indexElement_of_indexOf h]
      dsimp only
      rw [Function.update_self]
      rfl
    · exact ih _ hel (indexElement_extends _ _ h)

theorem drain_isSome (els : List ε) (m : SelectorMap × Indexes ε) (hel : el ∈ els)
    (h : m.2.indexOf (identityOf page el) = some index) :
    ((drain clock page els m).1 index).isSome := by
  induction els generalizing m with
  | nil => cases hel
  | cons other els ih =>
    rw [drain_cons]
    rcases mem_cons.mp hel with rfl | hel
    · refine drain_keeps els _ ?_
      rw [indexElement_of_indexOf h]
      dsimp only
      split
      · rw [Function.update_self]
        rfl
      · rename_i hnot
        rwa [Bool.not_eq_true, isNone_eq_false_iff] at hnot
    · exact ih _ hel (indexElement_extends _ _ h)

theorem buildSnapshotSelectorMap_isSome [DecidableEq ε]
    (hel : el ∈ x.pendingEventElements ∨ el ∈ findInteractableElements page)
    (h : x.indexOf (identityOf page el) = some index) :
    ((buildSnapshotSelectorMap clock page x).1 index).isSome := by
  rw [buildSnapshotSelectorMap_eq]
  rcases hel with hel | hel
  · have henumerated : (enumerate clock page (findInteractableElements page)
        (fun _ => none, x)).2.indexOf (identityOf page el) = some index :=
      enumerate_extends _ _ _ _ h
    refine drain_isSome _ _ ?_ henumerated
    rwa [enumerate_pins]
  · exact drain_keeps _ _ (enumerate_isSome _ (fun _ => none, x) hel h)

end Entries

end ContentRecorder

end Aegis
