import Aegis.Recording.Json
import Aegis.Recording.Sanitize

/-!
# Mcp.Masking

The helpers of `mcpapi/service.go` that keep secrets out of what an MCP client reads and writes.

An object is the list of its fields. What a value hides is said once, by `hide`: every input whose
property is marked secret, at any depth, and every input with the key of a credential.
-/

namespace Aegis

open List

namespace Mcp

open Sanitize (toLower)

/-- A `map[string]any`. -/
abbrev Fields (ν : Type) := List (String × Json ν)

variable {ν : Type}

/-- `value.(map[string]any)`: no fields where the value is none. -/
def members : Json ν → Fields ν
  | .obj fields => fields
  | _ => []

/-- `fields[key]`. -/
def child (fields : Fields ν) (key : String) : Json ν := (fields.lookup key).getD .null

def propertyOf (schema : Fields ν) (name : String) : Fields ν :=
  members (child (members (child schema "properties")) name)

def itemsOf (schema : Fields ν) : Fields ν := members (child schema "items")

def isTrue : Json ν → Bool
  | .bool b => b
  | _ => false

def isSecretSchema (property : Fields ν) : Bool :=
  ["secret", "x-secret", "writeOnly"].any fun key => isTrue (child property key)

def redacted : Json ν := .str "[REDACTED]"

variable (u : Unicode)

def credentialKey (key : String) : Bool :=
  let normalized := toLower u (String.ofList (key.toList.filter fun c =>
    !(c == '-' || c == '_' || c == ' ')))
  ["password", "passwd", "authorization", "cookie", "setcookie", "apikey", "accesstoken",
    "refreshtoken", "authtoken", "clientsecret", "secret"].contains normalized

mutual

def sanitizeValue : Json ν → Json ν
  | .arr items => .arr (sanitizeItems items)
  | .obj fields => .obj (sanitizeMap fields)
  | v => v

def sanitizeItems : List (Json ν) → List (Json ν)
  | [] => []
  | v :: items => sanitizeValue v :: sanitizeItems items

def sanitizeMap : Fields ν → Fields ν
  | [] => []
  | (key, v) :: fields =>
    (key, if credentialKey u key then redacted else sanitizeValue v) :: sanitizeMap fields

end

def maskSecretInputs (inputs schema : Fields ν) : Fields ν :=
  (sanitizeMap u inputs).map fun p =>
    if isSecretSchema (propertyOf schema p.1) then (p.1, redacted) else p

def isDeclared (schema : Fields ν) (key : String) : Bool :=
  credentialKey u key || isSecretSchema (propertyOf schema key)

def rejectMCPSecretValues (inputs schema : Fields ν) : Except String Unit :=
  match inputs.find? fun p => isDeclared u schema p.1 with
  | some p => .error (p.1 ++ " is a secret-declared input; MCP accepts browserProfileId " ++
      "references instead of secret values")
  | none => .ok ()

section Schemas

variable (keys : List String)

def dropDeclared (name : String) : Json ν → Json ν
  | .obj fields =>
    if isSecretSchema fields || credentialKey u name then
      .obj (fields.filter fun p => !keys.contains p.1)
    else .obj fields
  | v => v

mutual

/-- The properties of a schema, and of its items, without some keys where they are declared. The
keys that are dropped are none that the recursion reads. -/
def prune : Json ν → Json ν
  | .obj fields => .obj (pruneMap fields)
  | v => v

def pruneMap : Fields ν → Fields ν
  | [] => []
  | (key, v) :: fields =>
    (key, if key = "properties" then pruneProperties v else if key = "items" then prune v else v) ::
      pruneMap fields

def pruneProperties : Json ν → Json ν
  | .obj properties => .obj (pruneEach properties)
  | v => v

def pruneEach : Fields ν → Fields ν
  | [] => []
  | (name, v) :: properties => (name, dropDeclared u keys name (prune v)) :: pruneEach properties

end

end Schemas

def sanitizeSchema (schema : Fields ν) : Fields ν :=
  pruneMap u ["default", "examples", "enum"] schema

/-! ## What is secret -/

mutual

def hide : Fields ν → Json ν → Json ν
  | schema, .arr items => .arr (hideItems (itemsOf schema) items)
  | schema, .obj fields => .obj (hideMap schema fields)
  | _, v => v

def hideItems : Fields ν → List (Json ν) → List (Json ν)
  | _, [] => []
  | schema, v :: items => hide schema v :: hideItems schema items

def hideMap : Fields ν → Fields ν → Fields ν
  | _, [] => []
  | schema, (key, v) :: fields =>
    (key, if isDeclared u schema key then .null else hide (propertyOf schema key) v) ::
      hideMap schema fields

end

mutual

def covered : Fields ν → Json ν → Bool
  | schema, .arr items => coveredItems (itemsOf schema) items
  | schema, .obj fields => coveredMap schema fields
  | _, _ => true

def coveredItems : Fields ν → List (Json ν) → Bool
  | _, [] => true
  | schema, v :: items => covered schema v && coveredItems schema items

def coveredMap : Fields ν → Fields ν → Bool
  | _, [] => true
  | schema, (key, v) :: fields =>
    (credentialKey u key ||
      (!isSecretSchema (propertyOf schema key) && covered (propertyOf schema key) v)) &&
      coveredMap schema fields

end

def coveredBelow (schema inputs : Fields ν) : Bool :=
  inputs.all fun p => isDeclared u schema p.1 || covered u (propertyOf schema p.1) p.2

section Lemmas

variable {u} {schema : Fields ν} {v w : Json ν} {key : String}

theorem sanitizeItems_eq (items : List (Json ν)) : sanitizeItems u items = items.map (sanitizeValue u) := by
  induction items with
  | nil => rfl
  | cons v items ih => rw [sanitizeItems, ih, map_cons]

variable (u) in
def sanitizeField (p : String × Json ν) : String × Json ν :=
  (p.1, if credentialKey u p.1 then redacted else sanitizeValue u p.2)

variable (u schema) in
def hideField (p : String × Json ν) : String × Json ν :=
  (p.1, if isDeclared u schema p.1 then .null else hide u (propertyOf schema p.1) p.2)

theorem sanitizeMap_eq (fields : Fields ν) : sanitizeMap u fields = fields.map (sanitizeField u) := by
  induction fields with
  | nil => rfl
  | cons p fields ih =>
    rw [sanitizeMap, ih, map_cons]
    rfl

theorem hideItems_eq (items : List (Json ν)) : hideItems u schema items = items.map (hide u schema) := by
  induction items with
  | nil => rfl
  | cons v items ih => rw [hideItems, ih, map_cons]

theorem hideMap_eq (fields : Fields ν) : hideMap u schema fields = fields.map (hideField u schema) := by
  induction fields with
  | nil => rfl
  | cons p fields ih =>
    rw [hideMap, ih, map_cons]
    rfl

theorem coveredItems_eq (items : List (Json ν)) :
    coveredItems u schema items = items.all (covered u schema) := by
  induction items with
  | nil => rfl
  | cons v items ih => rw [coveredItems, ih, all_cons]

theorem coveredMap_eq (fields : Fields ν) : coveredMap u schema fields = fields.all fun p =>
    credentialKey u p.1 || (!isSecretSchema (propertyOf schema p.1) &&
      covered u (propertyOf schema p.1) p.2) := by
  induction fields with
  | nil => rfl
  | cons p fields ih => rw [coveredMap, ih, all_cons]

theorem sanitizeValue_hide (h : covered u schema v) :
    sanitizeValue u (hide u schema v) = sanitizeValue u v := by
  induction v using Json.ind generalizing schema with
  | null | bool | num | str => rfl
  | arr items ih =>
    rw [covered, coveredItems_eq, all_eq_true] at h
    rw [hide, sanitizeValue, sanitizeValue, sanitizeItems_eq, sanitizeItems_eq, hideItems_eq, map_map]
    exact congrArg Json.arr (map_congr_left fun v hv => ih v hv (h v hv))
  | obj fields ih =>
    rw [covered, coveredMap_eq, all_eq_true] at h
    rw [hide, sanitizeValue, sanitizeValue, sanitizeMap_eq, sanitizeMap_eq, hideMap_eq, map_map]
    refine congrArg Json.obj (map_congr_left fun p hp => ?_)
    rw [Function.comp_apply]
    have hcovered := h p hp
    by_cases hkey : credentialKey u p.1
    · simp [sanitizeField, hideField, hkey]
    · simp only [hkey, Bool.false_or, Bool.and_eq_true, Bool.not_eq_true'] at hcovered
      have hdeclared : isDeclared u schema p.1 = false := by
        simp [isDeclared, hkey, hcovered.1]
      simp [sanitizeField, hideField, hkey, hdeclared, ih p.1 p.2 hp hcovered.2]

theorem covered_hide : covered u schema (hide u schema v) = covered u schema v := by
  induction v using Json.ind generalizing schema with
  | null | bool | num | str => rfl
  | arr items ih =>
    rw [hide, covered, covered, coveredItems_eq, coveredItems_eq, hideItems_eq, all_map]
    rw [Bool.eq_iff_iff, all_eq_true, all_eq_true]
    refine forall₂_congr fun v hv => ?_
    rw [Function.comp_apply, ih v hv]
  | obj fields ih =>
    rw [hide, covered, covered, coveredMap_eq, coveredMap_eq, hideMap_eq, all_map]
    rw [Bool.eq_iff_iff, all_eq_true, all_eq_true]
    refine forall₂_congr fun p hp => ?_
    rw [Function.comp_apply, hideField]
    by_cases hkey : credentialKey u p.1
    · simp [hkey]
    · by_cases hsecret : isSecretSchema (propertyOf schema p.1)
      · simp [hsecret]
      · have hdeclared : isDeclared u schema p.1 = false := by
          simp [isDeclared, hkey, hsecret]
        simp [hdeclared, ih p.1 p.2 hp]

theorem exists_sanitizeValue_ne (v : Json ν) : ∃ w, sanitizeValue u w ≠ sanitizeValue u v := by
  by_cases hnull : sanitizeValue u v = .null
  · refine ⟨.bool true, ?_⟩
    rw [hnull, sanitizeValue]
    · intro h
      cases h
    · intro items h
      cases h
    · intro fields h
      cases h
  · exact ⟨.null, fun h => hnull h.symm⟩

theorem exists_replaced {α β γ : Type} {f : α → β} {g : α → γ} {l : List α} {a b : α} (ha : a ∈ l)
    (hf : f b = f a) (hg : g b ≠ g a) : ∃ l' : List α, l'.map f = l.map f ∧ l'.map g ≠ l.map g := by
  obtain ⟨before, after, rfl⟩ := append_of_mem ha
  refine ⟨before ++ b :: after, ?_, ?_⟩
  · rw [map_append, map_append, map_cons, map_cons, hf]
  · rw [map_append, map_append, map_cons, map_cons]
    intro h
    exact hg (List.cons.inj (append_cancel_left h)).1

theorem exists_leak (h : ¬covered u schema v) :
    ∃ w, hide u schema w = hide u schema v ∧ sanitizeValue u w ≠ sanitizeValue u v := by
  induction v using Json.ind generalizing schema with
  | null | bool | num | str => exact absurd rfl h
  | arr items ih =>
    rw [covered, coveredItems_eq, all_eq_true] at h
    push Not at h
    obtain ⟨v, hv, hcovered⟩ := h
    obtain ⟨w, hhide, hne⟩ := ih v hv hcovered
    obtain ⟨items', hitems, hne'⟩ := exists_replaced hv hhide hne
    refine ⟨.arr items', ?_, ?_⟩
    · rw [hide, hide, hideItems_eq, hideItems_eq, hitems]
    · rw [sanitizeValue, sanitizeValue, sanitizeItems_eq, sanitizeItems_eq]
      exact fun h => hne' (Json.arr.inj h)
  | obj fields ih =>
    rw [covered, coveredMap_eq, all_eq_true] at h
    push Not at h
    obtain ⟨p, hp, hcovered⟩ := h
    have hkey : credentialKey u p.1 = false := by
      rw [Bool.eq_false_iff]
      exact fun hkey => hcovered (by simp [hkey])
    have hleak : ∃ w, hideField u schema (p.1, w) = hideField u schema p ∧
        sanitizeValue u w ≠ sanitizeValue u p.2 := by
      by_cases hsecret : isSecretSchema (propertyOf schema p.1)
      · obtain ⟨w, hne⟩ := exists_sanitizeValue_ne (u := u) p.2
        exact ⟨w, by simp [hideField, isDeclared, hsecret], hne⟩
      · have hbelow : ¬covered u (propertyOf schema p.1) p.2 := by
          intro hbelow
          exact hcovered (by simp [hsecret, hbelow])
        obtain ⟨w, hhide, hne⟩ := ih p.1 p.2 hp hbelow
        exact ⟨w, by rw [hideField, hideField, hhide], hne⟩
    obtain ⟨w, hhide, hne⟩ := hleak
    have hsanitize : sanitizeField u (p.1, w) ≠ sanitizeField u p := by
      simpa [sanitizeField, hkey] using hne
    obtain ⟨fields', hfields, hne'⟩ := exists_replaced hp hhide hsanitize
    refine ⟨.obj fields', ?_, ?_⟩
    · rw [hide, hide, hideMap_eq, hideMap_eq, hfields]
    · rw [sanitizeValue, sanitizeValue, sanitizeMap_eq, sanitizeMap_eq]
      exact fun h => hne' (Json.obj.inj h)

end Lemmas

end Mcp

end Aegis
