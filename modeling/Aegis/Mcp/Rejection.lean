import Aegis.Mcp.Secrecy
import Aegis.Mcp.Writes

/-!
# Mcp.Rejection

What the write tools store, and the two sides of secrecy together: a call that is accepted stores
its inputs as they are, and none of them is declared secret at the top.
-/

namespace Aegis

namespace Mcp

variable {ν : Type} {u : Unicode}

section Free

variable (u)

mutual

def secretFree : Fields ν → Json ν → Bool
  | schema, .arr items => secretFreeItems (itemsOf schema) items
  | schema, .obj fields => secretFreeMap schema fields
  | _, _ => true

def secretFreeItems : Fields ν → List (Json ν) → Bool
  | _, [] => true
  | schema, v :: items => secretFree schema v && secretFreeItems schema items

def secretFreeMap : Fields ν → Fields ν → Bool
  | _, [] => true
  | schema, (key, v) :: fields =>
    !isDeclared u schema key && secretFree (propertyOf schema key) v && secretFreeMap schema fields

end

/-- No value that the caller gave is stored for an input that is declared secret. -/
def StoresNoSecret (call : WriteCall ν) (stored : Stored ν) : Prop :=
  ∀ name value, (call.inputs.lookup name).isSome = true → stored.vars.lookup name = some value →
    isDeclared u stored.inputSchema name = false ∧
      secretFree u (propertyOf stored.inputSchema name) value = true

/-- No value of an input has a secret beneath it. -/
def SecretFreeBelow (call : WriteCall ν) (schema : Fields ν) : Prop :=
  ∀ name value, call.inputs.lookup name = some value → secretFree u (propertyOf schema name) value = true

end Free

theorem rejectMCPSecretValues_ok {inputs schema : Fields ν} {o : Unit}
    (h : rejectMCPSecretValues u inputs schema = .ok o) {name : String} {value : Json ν}
    (hname : inputs.lookup name = some value) : isDeclared u schema name = false := by
  rw [rejectMCPSecretValues] at h
  split at h
  · cases h
  · rename_i hnone
    have hmem : (name, value) ∈ inputs := Assoc.mem_of_lookup hname
    have hnot := List.find?_eq_none.mp hnone (name, value) hmem
    exact Bool.eq_false_iff.mpr hnot

theorem mapError_eq_ok {α : Type} {x : Except String α} {f : String → String} {a : α}
    (h : x.mapError f = .ok a) : x = .ok a := by
  cases x with
  | error message => cases h
  | ok b => exact h

section Bind

variable [DecidableEq ν] {cfg : Config ν} {s : Store ν} {workspace : WorkspaceID} {ruleID : String}
  {version : Int} {vars : Fields ν} {profile : String} {bound : Binding ν}
  {contract : RuleVersionContract ν}

theorem bindTaskToRuleVersion_ok
    (h : bindTaskToRuleVersion cfg s workspace ruleID version vars profile = .ok bound)
    (hcontract : s.getRuleVersionContract workspace ruleID version = .ok contract) :
    bound.inputSchema = contract.inputSchema ∧
      ∀ name, (vars.lookup name).isSome → bound.vars.lookup name = vars.lookup name := by
  rw [bindTaskToRuleVersion] at h
  split at h
  · cases h
  · split at h
    · cases h
    · obtain ⟨-, -, h⟩ := bind_eq_ok.mp h
      obtain ⟨contract', hcontract', h⟩ := bind_eq_ok.mp h
      obtain ⟨normalized, hnormalized, h⟩ := bind_eq_ok.mp h
      cases hcontract.symm.trans hcontract'
      cases h
      exact ⟨rfl, fun name hname => applyAndValidateTaskInputs_lookup hnormalized hname⟩

end Bind

section Tools

variable [DecidableEq ν] {cfg : Config ν} {m : Moment} {s : Store ν} {workspace : WorkspaceID}

/-- What is known of a row that is stored: the inputs are as they were given, and none of them is
declared. -/
def Accepted (u : Unicode) (inputs vars schema : Fields ν) : Prop :=
  ∀ name value, inputs.lookup name = some value →
    vars.lookup name = some value ∧ isDeclared u schema name = false

theorem accepted_of_bound {ruleID : String} {version : Int} {contract : RuleVersionContract ν}
    {inputs : Fields ν} {profile profile' : String} {bound bound' : Binding ν} {o : Unit}
    (hcontract : s.getRuleVersionContract workspace ruleID version = .ok contract)
    (hreject : rejectMCPSecretValues u inputs contract.inputSchema = .ok o)
    (hbound : bindTaskToRuleVersion cfg s workspace ruleID version inputs profile = .ok bound)
    (hbound' : bindTaskToRuleVersion cfg s workspace ruleID version bound.vars profile' =
      .ok bound') : Accepted u inputs bound'.vars bound'.inputSchema := by
  intro name value hname
  obtain ⟨-, hkept⟩ := bindTaskToRuleVersion_ok hbound hcontract
  obtain ⟨hschema, hkept'⟩ := bindTaskToRuleVersion_ok hbound' hcontract
  have hsome : (inputs.lookup name).isSome := by
    rw [hname]
    rfl
  refine ⟨?_, ?_⟩
  · rw [hkept' name (by rw [hkept name hsome, hname]; rfl), hkept name hsome, hname]
  · rw [hschema]
    exact rejectMCPSecretValues_ok hreject hname

theorem createTask_accepted {input : CreateTaskInput ν} {t : Task ν}
    (h : createTask u cfg m s workspace input = .ok t) :
    Accepted u input.inputs t.vars t.inputSchema := by
  simp only [createTask, bind_eq_ok] at h
  obtain ⟨_, -, priority, -, maxRetries, -, contract, hcontract, _, hreject, scheduledAt, -, bound,
    hbound, bound', hbound', _, -, h⟩ := h
  cases h
  exact accepted_of_bound (mapError_eq_ok hcontract) hreject (mapError_eq_ok hbound) hbound'

variable {x : Schedule ν}

theorem createSchedule_accepted {input : CreateScheduleInput ν}
    (h : createSchedule u cfg m s workspace input = .ok x) :
    Accepted u input.inputs x.vars x.inputSchema := by
  simp only [createSchedule, bind_eq_ok] at h
  obtain ⟨_, -, type, -, priority, -, maxRetries, -, catchup, -, next, -, contract, hcontract, _,
    hreject, bound, hbound, bound', hbound', _, -, h⟩ := h
  cases h
  exact accepted_of_bound (mapError_eq_ok hcontract) hreject (mapError_eq_ok hbound) hbound'

theorem updateSchedule_accepted {input : UpdateScheduleInput ν}
    (h : updateSchedule u cfg m s workspace input = .ok x) :
    Accepted u (input.inputs.getD []) x.vars x.inputSchema := by
  intro name value hname
  cases hinputs : input.inputs with
  | none =>
    rw [hinputs] at hname
    cases hname
  | some inputs =>
    rw [hinputs] at hname
    simp only [updateSchedule, bind_eq_ok] at h
    obtain ⟨_, -, found, -, updated, -, given, hgiven, bound, hrebind, _, -, h⟩ := h
    cases h
    rw [applyInputs, hinputs] at hgiven
    obtain ⟨contract, hcontract, hgiven⟩ := bind_eq_ok.mp hgiven
    obtain ⟨_, hreject, hgiven⟩ := bind_eq_ok.mp hgiven
    cases hgiven
    have hbinds : (input.ruleVersion.isSome || input.inputs.isSome ||
        input.browserProfileID.isSome) := by simp [hinputs]
    rw [rebind, if_pos hbinds] at hrebind
    obtain ⟨binding, hbinding, hrebind⟩ := bind_eq_ok.mp hrebind
    cases hrebind
    obtain ⟨hschema, hkept⟩ := bindTaskToRuleVersion_ok (mapError_eq_ok hbinding)
      (mapError_eq_ok hcontract)
    refine ⟨?_, ?_⟩
    · show binding.vars.lookup name = some value
      rw [hkept name (by rw [show inputs.lookup name = some value from hname]; rfl)]
      exact hname
    · show isDeclared u binding.inputSchema name = false
      rw [hschema]
      exact rejectMCPSecretValues_ok hreject hname

variable {p : Principal}

theorem tool_eq_ok {α : Type} {permission : String} {x : Except String α} {a : α}
    (h : tool p permission x = .ok a) : x = .ok a := by
  rw [tool] at h
  split at h
  · exact mapError_eq_ok h
  · cases h

variable {call : WriteCall ν} {stored : Stored ν}

theorem write_accepted (h : write u cfg m p s call = .ok stored) :
    Accepted u call.inputs stored.vars stored.inputSchema := by
  rw [write.eq_def] at h
  cases call with
  | createTask input =>
    obtain ⟨t, ht, rfl⟩ := map_eq_ok.mp (tool_eq_ok h)
    exact createTask_accepted ht
  | createSchedule input =>
    obtain ⟨x, hx, rfl⟩ := map_eq_ok.mp (tool_eq_ok h)
    exact createSchedule_accepted hx
  | updateSchedule input =>
    obtain ⟨x, hx, rfl⟩ := map_eq_ok.mp (tool_eq_ok h)
    exact updateSchedule_accepted hx

/-- A write that is accepted stores no secret exactly when none is beneath its inputs. -/
theorem storesNoSecret_iff (h : write u cfg m p s call = .ok stored) :
    StoresNoSecret u call stored ↔ SecretFreeBelow u call stored.inputSchema := by
  have haccepted := write_accepted h
  constructor
  · intro hnone name value hname
    have hsome : (call.inputs.lookup name).isSome := by
      rw [hname]
      rfl
    exact (hnone name value hsome (haccepted name value hname).1).2
  · intro hfree name value hsome hstored
    obtain ⟨given, hgiven⟩ := Option.isSome_iff_exists.mp hsome
    obtain ⟨hkept, hdeclared⟩ := haccepted name given hgiven
    obtain rfl := Option.mem_unique hkept hstored
    exact ⟨hdeclared, hfree name _ hgiven⟩

end Tools

/-- **Secrets and MCP clients.** No sequence of reads tells two stores apart that differ in secrets
alone, and no write that is accepted stores one, exactly when every row that is shown is covered
and every write that is accepted has none beneath its inputs. -/
theorem secrets_kept_iff [DecidableEq ν] (u : Unicode) (cfg : Config ν) (m : Moment) (p : Principal)
    (s : Store ν) :
    (Secret u p s ∧ ∀ call stored, write u cfg m p s call = .ok stored → StoresNoSecret u call stored) ↔
      (p.isMCP = true ∧ p.hasPermission "read" = true → s.Covered u p.workspace) ∧
        ∀ call stored, write u cfg m p s call = .ok stored → SecretFreeBelow u call stored.inputSchema := by
  refine and_congr (secret_iff_covered u p s) ?_
  exact forall₃_congr fun call stored h => storesNoSecret_iff h

namespace Sample

def unicode : Unicode := ⟨id⟩

def client : Principal := ⟨"default", true, false, ["read"]⟩

def schema : Fields Nat :=
  [("properties", .obj [("pin", .obj [("type", .str "string"), ("x-secret", .bool true)])]),
    ("type", .str "object")]

def version : RuleVersion Nat where
  workspaceID := "default"
  ruleID := "r"
  version := 1
  versionLabel := "1.0.0"
  rule := [("variables", .obj [("pin", .str "1234")])]
  contentHash := ""
  status := .approved
  approvedAt := none
  approvedBy := ""

def contract : RuleVersionContract Nat where
  workspaceID := "default"
  ruleID := "r"
  version := 1
  inputSchema := schema
  outputSchema := []
  browserProfileID := ""
  source := Source.none

def store : Store Nat := ⟨[], [version], [contract], [], [], []⟩

end Sample

/-- The default of a secret input is in the definition of its rule. -/
theorem revealed_default : ¬∀ (u : Unicode) (cfg : Config Nat) (m : Moment) (p : Principal)
    (s : Store Nat), Secret u p s ∧ ∀ call stored, write u cfg m p s call = .ok stored →
      StoresNoSecret u call stored := by
  intro h
  have hsecret := (h Sample.unicode ⟨0, fun _ => none, id, ⟨fun _ _ => false, id, fun _ => "",
    fun _ _ => false⟩⟩ ⟨0, ""⟩ Sample.client Sample.store).1
  have hcovered := (secret_iff_covered _ _ _).mp hsecret (by decide)
  have hversion := hcovered.versions "r" 1 Sample.version Sample.contract (by decide) rfl rfl
  exact absurd hversion (by decide)

end Mcp

end Aegis
