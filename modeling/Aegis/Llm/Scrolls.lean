import Aegis.Recording.JsonText
import Aegis.Scheduler.Cron

/-!
# Llm.Scrolls

`restoreTrustedRecordedScrollSteps` of `internal/llm/dsl/workflow.go`, and when the steps that it
adds are those that are missing.
-/

namespace Aegis

open List

namespace Scrolls

variable {ν : Type} (marshal : Json ν → String)

/-- `step["action"]`, when it is a text. -/
def actionOf : Json ν → Option String
  | .obj step => match step.lookup "action" with
    | some (.str action) => some action
    | _ => none
  | _ => none

def isScrollBy (step : Json ν) : Bool := actionOf step == some "scrollBy"

def isWorkflowExtractionAction (action : String) : Bool :=
  ["extract", "extractText", "extractAttribute", "extractHtml", "extractTable", "extractJson",
    "extractPageInfo"].contains action

/-- What `fmt.Sprint` makes of another value is the name of no action. -/
def isExtraction (step : Json ν) : Bool :=
  (actionOf step).any fun action => isWorkflowExtractionAction (trimSpace action)

/-- How many `scrollBy` steps have the text. -/
def countOf (text : String) (steps : List (Json ν)) : Nat :=
  steps.countP fun step => isScrollBy step && marshal step == text

def missing (remaining : String → Nat) : List (Json ν) → List (Json ν)
  | [] => []
  | step :: rest =>
    if isScrollBy step then
      if 0 < remaining (marshal step) then
        missing (fun text => if text = marshal step then remaining text - 1 else remaining text)
          rest
      else step :: missing remaining rest
    else missing remaining rest

def insertBefore (generated added : List (Json ν)) : List (Json ν) :=
  generated.takeWhile (!isExtraction ·) ++ added ++ generated.dropWhile (!isExtraction ·)

/-- What `json.Unmarshal` makes of `Steps`; `none` is an error. -/
def stepsOf : Json ν → Option (List (Json ν))
  | .arr steps => some steps
  | .null => some []
  | _ => none

/-- The steps of the rule afterwards; `none` is `ErrInvalidLLMRule`. -/
def restoreTrustedRecordedScrollSteps (rule baseline : Json ν) : Option (Json ν) := do
  let generated ← stepsOf rule
  let trusted ← stepsOf baseline
  let added := missing marshal (countOf marshal · generated) trusted
  pure (if added.isEmpty then rule else .arr (insertBefore generated added))

def holdsSteps (ofCase : Bool) (key : String) : Bool :=
  if ofCase then key == "steps" else ["then", "else", "steps", "default", "onOpen"].contains key

mutual

def inner (ofCase : Bool) : Json ν → List (Json ν)
  | .obj fields => if !ofCase && isScrollBy (.obj fields) then [] else innerFields ofCase fields
  | _ => []

def innerFields (ofCase : Bool) : List (String × Json ν) → List (Json ν)
  | [] => []
  | (key, v) :: rest =>
    (if holdsSteps ofCase key then innerValue false v
      else if !ofCase && key == "cases" then innerValue true v else []) ++ innerFields ofCase rest

def innerValue (ofCase : Bool) : Json ν → List (Json ν)
  | .arr items => innerItems ofCase items
  | _ => []

def innerItems (ofCase : Bool) : List (Json ν) → List (Json ν)
  | [] => []
  | v :: rest => (if ofCase then inner true v else v :: inner false v) ++ innerItems ofCase rest

end

def executed (steps : List (Json ν)) : List (Json ν) := steps.flatMap fun s => s :: inner false s

def nested (steps : List (Json ν)) : List (Json ν) := steps.flatMap (inner false)

/-- What is inserted at the one place is scrolls of the baseline in their order, so that every
scroll is there often enough and not too often, and doing it again changes nothing. -/
def Restores (generated trusted : List (Json ν)) : Prop :=
  ∃ added restored, restored = insertBefore generated added ∧ added <+ trusted ∧
    (∀ step ∈ added, isScrollBy step) ∧
    restoreTrustedRecordedScrollSteps marshal (.arr generated) (.arr trusted) = some (.arr restored) ∧
    (∀ text, countOf marshal text (executed trusted) ≤ countOf marshal text (executed restored) ∧
      countOf marshal text (executed restored) ≤
        max (countOf marshal text (executed generated)) (countOf marshal text (executed trusted))) ∧
    restoreTrustedRecordedScrollSteps marshal (.arr restored) (.arr trusted) = some (.arr restored)

variable {marshal} {generated trusted added : List (Json ν)} {remaining : String → Nat}
  {text : String}

/-- What is missing is what the baseline has more often than what remains. -/
theorem countOf_missing : countOf marshal text (missing marshal remaining trusted) =
    countOf marshal text trusted - remaining text := by
  induction trusted generalizing remaining with
  | nil => simp [missing, countOf]
  | cons step rest ih =>
    simp only [countOf, missing, countP_cons] at ih ⊢
    by_cases hstep : isScrollBy step
    · by_cases hleft : 0 < remaining (marshal step)
      · rw [if_pos hstep, if_pos hleft, ih]
        grind
      · rw [if_pos hstep, if_neg hleft, countP_cons, ih]
        grind
    · rw [if_neg hstep, ih]
      simp [hstep]

theorem missing_sublist : missing marshal remaining trusted <+ trusted := by
  induction trusted generalizing remaining with
  | nil => exact .slnil
  | cons step rest ih =>
    rw [missing]
    split
    · split
      · exact ih.cons _
      · exact ih.cons_cons _
    · exact ih.cons _

theorem isScrollBy_missing {step : Json ν} (h : step ∈ missing marshal remaining trusted) :
    isScrollBy step := by
  induction trusted generalizing remaining with
  | nil => cases h
  | cons s rest ih =>
    rw [missing] at h
    split at h
    · rename_i hs
      split at h
      · exact ih h
      · rcases mem_cons.mp h with rfl | h
        · exact hs
        · exact ih h
    · exact ih h

theorem missing_eq_nil (h : ∀ text, countOf marshal text trusted ≤ remaining text) :
    missing marshal remaining trusted = [] := by
  refine eq_nil_iff_forall_not_mem.mpr fun step hstep => ?_
  have hpos : 0 < countOf marshal (marshal step) (missing marshal remaining trusted) :=
    countP_pos_iff.mpr ⟨step, hstep, by simp [isScrollBy_missing hstep]⟩
  rw [countOf_missing] at hpos
  have := h (marshal step)
  omega

theorem insertBefore_nil : insertBefore generated [] = generated := by
  rw [insertBefore, append_nil, takeWhile_append_dropWhile]

theorem restore_eq : restoreTrustedRecordedScrollSteps marshal (.arr generated) (.arr trusted) =
    some (.arr (insertBefore generated (missing marshal (countOf marshal · generated) trusted))) := by
  simp only [restoreTrustedRecordedScrollSteps, stepsOf, bind, Option.bind_some, pure]
  split
  · rename_i h
    rw [isEmpty_iff.mp h, insertBefore_nil]
  · rfl

theorem countOf_append {l l' : List (Json ν)} :
    countOf marshal text (l ++ l') = countOf marshal text l + countOf marshal text l' :=
  countP_append

theorem countOf_insertBefore : countOf marshal text (insertBefore generated added) =
    countOf marshal text generated + countOf marshal text added := by
  have h := congrArg (countOf marshal text) (takeWhile_append_dropWhile (p := (!isExtraction ·))
    (l := generated))
  simp only [insertBefore, countOf_append] at h ⊢
  omega

theorem countOf_executed : countOf marshal text (executed generated) =
    countOf marshal text generated + countOf marshal text (nested generated) := by
  induction generated with
  | nil => rfl
  | cons step rest ih =>
    simp only [countOf, executed, nested, flatMap_cons, countP_append, countP_cons] at ih ⊢
    omega

theorem nested_eq_nil (h : ∀ step ∈ added, isScrollBy step) : nested added = [] := by
  refine flatMap_eq_nil_iff.mpr fun step hstep => ?_
  cases step with
  | obj fields => simp [inner, h _ hstep]
  | _ => rfl

theorem countOf_executed_insertBefore (h : ∀ step ∈ added, isScrollBy step) :
    countOf marshal text (executed (insertBefore generated added)) =
      countOf marshal text (executed generated) + countOf marshal text added := by
  have hnested : countOf marshal text (nested (insertBefore generated added)) =
      countOf marshal text (nested generated) := by
    have hg := congrArg (fun l => countOf marshal text (nested l))
      (takeWhile_append_dropWhile (p := (!isExtraction ·)) (l := generated))
    have hadded := nested_eq_nil h
    simp only [nested] at hg hadded
    simp only [insertBefore, nested, flatMap_append, hadded, append_nil] at hg ⊢
    exact hg
  rw [countOf_executed, countOf_executed, hnested, countOf_insertBefore]
  omega

/-- The steps that are added are the missing ones exactly if, of every scroll that the baseline's
own list has more often, both have equally many in branches, loops, groups and cases, and the
baseline has no other scroll more often than the rule. -/
theorem restores_iff : Restores marshal generated trusted ↔ ∀ text,
    if countOf marshal text generated < countOf marshal text trusted then
      countOf marshal text (nested generated) = countOf marshal text (nested trusted)
    else countOf marshal text (executed trusted) ≤ countOf marshal text (executed generated) := by
  have hscrolls : ∀ step ∈ missing marshal (countOf marshal · generated) trusted,
      isScrollBy step = true := fun step => isScrollBy_missing
  have hcount : ∀ text, countOf marshal text (executed (insertBefore generated
      (missing marshal (countOf marshal · generated) trusted))) =
        countOf marshal text (executed generated) +
          (countOf marshal text trusted - countOf marshal text generated) := fun text => by
    rw [countOf_executed_insertBefore hscrolls, countOf_missing]
  constructor
  · rintro ⟨added, restored, -, -, -, hrestored, hcounts, -⟩ text
    rw [restore_eq, Option.some.injEq, Json.arr.injEq] at hrestored
    have htext := hcounts text
    rw [← hrestored, hcount] at htext
    simp only [countOf_executed] at htext ⊢
    split <;> omega
  · intro h
    refine ⟨_, _, rfl, missing_sublist, hscrolls, restore_eq, fun text => ?_, ?_⟩
    · have htext := h text
      rw [hcount]
      simp only [countOf_executed] at htext ⊢
      split at htext <;> omega
    · have hagain : missing marshal (countOf marshal · (insertBefore generated
          (missing marshal (countOf marshal · generated) trusted))) trusted = [] :=
        missing_eq_nil fun text => by
          rw [countOf_insertBefore, countOf_missing]
          omega
      rw [restore_eq, hagain, insertBefore_nil]

/-- The scroll in a loop is not found, and the rule scrolls twice. -/
theorem scrolled_twice : ¬ Restores (fun v : Json Literal => String.ofList (JsonText.encode v))
    [.obj [("action", .str "loop"), ("steps", .arr [.obj [("action", .str "scrollBy")]])]]
    [.obj [("action", .str "scrollBy")]] := by
  rw [restores_iff]
  exact fun h => absurd
    (h (String.ofList (JsonText.encode (.obj [("action", .str "scrollBy")])))) (by decide)

end Scrolls

end Aegis
