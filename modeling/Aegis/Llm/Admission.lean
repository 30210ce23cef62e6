import Aegis.Lib.Packing
import Aegis.Llm.Orchestrator
import Mathlib.Data.String.Basic

/-!
# Llm.Admission

What the workflows of `llm/dsl/workflow.go` and `llm/requirement/workflow.go` take to fit into the
input of a model, and what the adapters of `llm/providers` count of it.

The texts around a recording in a prompt are parameters, and so are the text of a temperature, the
form of a schema on the wire and how an item is trimmed.
-/

namespace Aegis

open List Option

namespace Admission

/-- A character in a string of `encoding/json`. -/
def escape (c : Char) : String :=
  if c == '"' then "\\\""
  else if c == '\\' then "\\\\"
  else if c == '\x08' then "\\b"
  else if c == '\x0c' then "\\f"
  else if c == '\n' then "\\n"
  else if c == '\r' then "\\r"
  else if c == '\t' then "\\t"
  else if c.toNat < 32 || c == '<' || c == '>' || c == '&' || c.toNat == 0x2028 || c.toNat == 0x2029 then
    "\\u" ++ String.ofList ([4096, 256, 16, 1].map fun place =>
      Nat.digitChar (c.toNat / place % 16))
  else c.toString

def escaped (s : String) : String := String.join (s.toList.map escape)

def quoted (s : String) : String := "\"" ++ escaped s ++ "\""

structure Frame where
  before : String
  between : String
  after : String

structure Wire where
  number : Rat → String
  validDefinition : StructuredOutput → Bool
  /-- `structuredOutputSchemaForModel`, compacted; by the model and the dialect. -/
  parameters : String → Bool → String → Option String

structure OpenAIProvider where
  model : String
  temperature : Rat
  outputCapDialect : String
  enableThinking : Option Bool
  deepSeekBetaDialect : Bool
  strictToolOutput : Bool

structure AnthropicProvider where
  model : String
  temperature : Rat
  disableThinking : Bool

def aliyunMaxCompletionTokensTolerance : Int := 10

def isDeepSeekV4Model (model : String) : Bool :=
  model == "deepseek-v4-flash" || model == "deepseek-v4-pro"

variable (wire : Wire)

namespace OpenAIProvider

variable (p : OpenAIProvider) (req : CompletionRequest)

def modelOf : String := if req.model = "" then p.model else req.model

def temperatureOf : Rat :=
  if req.temperature = 0 && p.temperature ≠ 0 then p.temperature else req.temperature

/-- The cap of the output; `none` when the body cannot be built. -/
def outputCap : Option String :=
  if 0 < req.maxOutputTokens then
    if p.outputCapDialect = "" || p.outputCapDialect = "max_tokens" then
      some (",\"max_tokens\":" ++ toString req.maxOutputTokens)
    else if p.outputCapDialect = "max_completion_tokens" then
      if req.maxOutputTokens ≤ aliyunMaxCompletionTokensTolerance then none
      else some (",\"max_completion_tokens\":" ++
        toString (req.maxOutputTokens - aliyunMaxCompletionTokensTolerance))
    else none
  else some ""

def thinking : String :=
  match p.enableThinking with
  | none => ""
  | some enabled =>
    if isDeepSeekV4Model (p.modelOf req) && p.deepSeekBetaDialect then
      ",\"thinking\":\x7b\"type\":\"" ++ (if enabled then "enabled" else "disabled") ++ "\"\x7d"
    else ",\"enable_thinking\":" ++ (if enabled then "true" else "false")

def format : Option (String × String) :=
  match p.strictToolOutput, req.structuredOutput with
  | true, some output =>
    if wire.validDefinition output then
      (wire.parameters (p.modelOf req) p.deepSeekBetaDialect output.schema).map fun parameters =>
        ("", ",\"tools\":[\x7b\"type\":\"function\",\"function\":\x7b\"name\":" ++ quoted output.name ++
          (if output.description = "" then "" else ",\"description\":" ++ quoted output.description) ++
          ",\"parameters\":" ++ parameters ++ ",\"strict\":true\x7d\x7d]" ++
          ",\"tool_choice\":\x7b\"type\":\"function\",\"function\":\x7b\"name\":" ++
          quoted output.name ++ "\x7d\x7d")
    else none
  | _, _ => some (if req.jsonMode then
      (",\"response_format\":\x7b\"type\":\"json_object\"\x7d", "") else ("", ""))

def frame : Option Frame := do
  let cap ← p.outputCap req
  let (early, late) ← p.format wire req
  pure {
    before := "\x7b\"model\":" ++ quoted (p.modelOf req) ++
      ",\"messages\":[\x7b\"role\":\"system\",\"content\":\""
    between := "\"\x7d,\x7b\"role\":\"user\",\"content\":\""
    after := "\"\x7d],\"temperature\":" ++ wire.number (p.temperatureOf req) ++ cap ++ early ++
      p.thinking req ++ late ++ "\x7d" }

end OpenAIProvider

namespace AnthropicProvider

variable (p : AnthropicProvider) (req : CompletionRequest)

def modelOf : String := if req.model = "" then p.model else req.model

def temperatureOf : Rat :=
  if req.temperature = 0 && p.temperature ≠ 0 then p.temperature else req.temperature

def maxTokens : Int := if req.maxOutputTokens ≤ 0 then 4096 else req.maxOutputTokens

def frame : Frame where
  before := "\x7b\"model\":" ++ quoted (p.modelOf req) ++ ",\"max_tokens\":" ++
    toString (maxTokens req) ++ ",\"temperature\":" ++ wire.number (p.temperatureOf req) ++
    (if p.disableThinking then ",\"thinking\":\x7b\"type\":\"disabled\"\x7d" else "") ++
    (if req.system = "" then "" else ",\"system\":\"")
  between := (if req.system = "" then "" else "\"") ++ ",\"messages\":[\x7b\"role\":\"user\",\"content\":\""
  after := "\"\x7d]\x7d"

end AnthropicProvider

inductive Adapter where
  | openAI (p : OpenAIProvider)
  | anthropic (p : AnthropicProvider)

def Adapter.frame (req : CompletionRequest) : Adapter → Option Frame
  | .openAI p => p.frame wire req
  | .anthropic p => some (p.frame wire req)

def Adapter.requestPayload (a : Adapter) (req : CompletionRequest) : Option String :=
  (a.frame wire req).map fun f =>
    f.before ++ escaped req.system ++ f.between ++ escaped req.user ++ f.after

/-- `InputTokenUpperBound`: the runes of the body. -/
def Adapter.inputTokenUpperBound (a : Adapter) (req : CompletionRequest) : Option Nat :=
  (a.requestPayload wire req).map String.length

structure Settings where
  primary : RoutePolicy
  adapter : Adapter
  llmMaxInputTokens : Int
  llmMaxOutputTokens : Int

/-- What is handed to `complete`. -/
structure Call where
  system : String
  user : String
  structuredOutput : Option StructuredOutput

variable (c : Settings)

/-- The request of a call, as `PrepareCall` makes it for the primary route. -/
def prepared (call : Call) : CompletionRequest where
  model := c.primary.model
  system := call.system
  user := call.user
  temperature := c.primary.temperature
  jsonMode := true
  maxOutputTokens := c.primary.maxOutputTokens
  structuredOutput := call.structuredOutput
  executionPolicy := .atMostOnce

/-- `dispatchAdmitted` does not answer with an `InputTokenLimitError`. -/
def Accepted (call : Call) : Prop :=
  ∀ n, c.adapter.inputTokenUpperBound wire (prepared c call) = some n → (n : Int) ≤ c.primary.maxInputTokens

def inputLimit : Int :=
  if 0 < c.primary.maxInputTokens then c.primary.maxInputTokens
  else if 0 < c.llmMaxInputTokens then c.llmMaxInputTokens
  else 128000

def workflowDefaultOutputReserveTokens : Int := 4096
def workflowContextReserveTokens : Int := 256
def floorBytes : Int := 4096

def outputReserveTokens : Int :=
  if 0 < c.llmMaxOutputTokens then c.llmMaxOutputTokens else workflowDefaultOutputReserveTokens

def schemaTokens (output : Option StructuredOutput) : Int :=
  match output with
  | some output => output.schema.length
  | none => 0

def workflowEstimatedContextTokens (system user : String) (outputReserve : Int) : Int :=
  system.length + user.length + outputReserve + workflowContextReserveTokens

/-- `complete` lets the call through. -/
def Passes (call : Call) : Prop :=
  workflowEstimatedContextTokens call.system call.user (outputReserveTokens c) +
    schemaTokens call.structuredOutput ≤ inputLimit c

def requestContentBudget (system fixedUser : String) (output : Option StructuredOutput) : Option Int :=
  let availableRunes := inputLimit c - outputReserveTokens c - workflowContextReserveTokens
  let availableBytes := availableRunes - system.length - fixedUser.length - schemaTokens output
  if availableRunes ≤ 0 || availableBytes < 1 then none else some availableBytes

structure Recording (ι : Type) where
  fullJSON : String
  baseJSON : String
  items : List ι
  itemJSON : ι → String
  payload : List ι → Nat → Nat → String
  trim : ι → Int → Option ι

def bytes (s : String) : Int := s.utf8ByteSize

variable {ι : Type}

structure Prompts where
  generationSystem : String
  analysisSystem : String
  generationBefore : String
  generationAfter : String
  analysisText : String

def Prompts.generationUser (t : Prompts) (recording : String) : String :=
  t.generationBefore ++ recording ++ t.generationAfter

def Prompts.analysisUser (t : Prompts) (index total : Nat) (recording : String) : String :=
  "Chunk " ++ toString index ++ " of " ++ toString total ++ ". " ++ t.analysisText ++ recording

def Recording.fitItem (r : Recording ι) (budget : Int) (item : ι) : ι :=
  if budget < bytes (r.itemJSON item) then
    (r.trim item (max (budget - bytes (r.payload [] 1 1)) floorBytes)).getD item
  else item

/-- The groups of items, each with as many as fit; `none` when an item does not fit alone. -/
def groupItems (fits : List ι → Bool) (fitItem : ι → ι) : List ι → List ι → Option (List (List ι))
  | current, [] => some (if current.isEmpty then [] else [current])
  | current, item :: items =>
    if fits (current ++ [fitItem item]) then
      groupItems fits fitItem (current ++ [fitItem item]) items
    else if fits [fitItem item] then
      (groupItems fits fitItem [fitItem item] items).map fun groups =>
        (if current.isEmpty then [] else [current]) ++ groups
    else none

/-- `buildWorkflowChunks`: the contents, and whether the one is the whole recording. -/
def buildWorkflowChunks (r : Recording ι) (directContentBudget chunkContentBudget : Int) :
    Option (List String × Bool) :=
  if bytes r.fullJSON ≤ directContentBudget then some ([r.fullJSON], true)
  else if r.items.isEmpty then none
  else
    let n := r.items.length
    (groupItems (fun group => bytes (r.payload group n n) ≤ chunkContentBudget)
      (r.fitItem chunkContentBudget) [] r.items).bind fun groups =>
        let contents := groups.zipIdx.map fun (group, i) => r.payload group (i + 1) groups.length
        if contents.any fun content => chunkContentBudget < bytes content then none
        else some (contents, false)

/-- The calls that `Generate` makes of the chunks of a recording. -/
def generateCalls (t : Prompts) (strictOutput : Option StructuredOutput) (r : Recording ι) :
    Option (List Call) := do
  let n := max r.items.length 1
  let directBudget ← requestContentBudget c t.generationSystem (t.generationUser "") strictOutput
  let analysisBudget ← requestContentBudget c t.analysisSystem (t.analysisUser n n "") none
  let (contents, full) ← buildWorkflowChunks r directBudget analysisBudget
  pure (if full then
      contents.map fun content => ⟨t.generationSystem, t.generationUser content, strictOutput⟩
    else contents.zipIdx.map fun (content, i) =>
      ⟨t.analysisSystem, t.analysisUser (i + 1) contents.length content, none⟩)

structure RequirementPrompts where
  system : String
  analysisSystem : String
  text : String
  focus : String

/-- The items of `buildPromptChunks`, in groups of at most `budget` bytes; `none` when an item is too
long. -/
def packItems (r : Recording ι) (budget : Int) : List ι → Int → List ι → Option (List (List ι))
  | current, _, [] => some (if current.isEmpty then [] else [current])
  | current, currentBytes, item :: items =>
    let fitted := if budget < bytes (r.itemJSON item) then r.trim item budget else some item
    fitted.bind fun item =>
      if budget < bytes (r.itemJSON item) then none
      else if !current.isEmpty && budget < currentBytes + bytes (r.itemJSON item) then
        (packItems r budget [item] (bytes (r.itemJSON item)) items).map (current :: ·)
      else packItems r budget (current ++ [item]) (currentBytes + bytes (r.itemJSON item)) items

def buildPromptChunks (r : Recording ι) (maxTokens : Int) : Option (List String × Bool) :=
  let budgetBytes := if maxTokens ≤ 0 then 96000 else maxTokens
  if bytes r.fullJSON ≤ budgetBytes then some ([r.fullJSON], true)
  else if r.items.isEmpty then some ([r.fullJSON], true)
  else
    let itemBudget := max (budgetBytes - (bytes r.baseJSON + 256)) floorBytes
    (packItems r itemBudget [] 0 r.items).map fun groups =>
      (groups.zipIdx.map fun (group, i) => r.payload group (i + 1) groups.length, false)

def analysisPrompt (t : RequirementPrompts) (index total : Nat) (content : String) : String :=
  "Chunk " ++ toString index ++ " of " ++ toString total ++ ". " ++ t.focus ++
    "\n\nSanitized recording chunk:\n" ++ content ++ "\n\nReturn a compact JSON object with " ++
    "summary, observedInputs, observedOutputs, and safetyFlags."

/-- The calls that `GenerateCandidates` and `NormalizeCustom` make of the chunks of a recording. -/
def requirementCalls (t : RequirementPrompts) (r : Recording ι) : Option (List Call) :=
  (buildPromptChunks r (inputLimit c)).map fun (contents, full) =>
    if full then contents.map fun content => ⟨t.system, t.text ++ content, none⟩
    else contents.zipIdx.map fun (content, i) =>
      ⟨t.analysisSystem, analysisPrompt t (i + 1) contents.length content, none⟩

def growth (s : String) : Nat := (s.toList.map fun c => (escape c).length - 1).sum

def Frame.envelope (f : Frame) : Nat := f.before.length + f.between.length + f.after.length

/-- What a request adds to the texts of its call: the envelope around them and their escapes. -/
def surplus (f : Frame) (call : Call) : Int := f.envelope + growth call.system + growth call.user

/-- The runes that the texts of a call leave of the limit of the route. -/
def room (call : Call) : Int := c.primary.maxInputTokens - (call.system.length + call.user.length)

/-- The runes that the estimate keeps free beside the texts. -/
def reserves (call : Call) : Int :=
  outputReserveTokens c + workflowContextReserveTokens + schemaTokens call.structuredOutput

/-- The surplus of a call is within the room its texts leave. -/
def Covered (call : Call) : Prop :=
  ∀ f, c.adapter.frame wire (prepared c call) = some f → surplus f call ≤ room c call

section Lengths

variable {wire c} {call : Call}

theorem escape_length_pos (c : Char) : 1 ≤ (escape c).length := by
  have hunicode : ∀ s : String, 1 ≤ ("\\u" ++ s).length := by
    intro s
    rw [String.length_append]
    exact Nat.le_add_right_of_le (by decide)
  have hself : 1 ≤ c.toString.length := Nat.le_of_eq (String.length_singleton).symm
  rw [escape]
  split
  · decide
  split
  · decide
  split
  · decide
  split
  · decide
  split
  · decide
  split
  · decide
  split
  · decide
  split
  · exact hunicode _
  · exact hself

theorem join_length (l : List String) : (String.join l).length = (l.map String.length).sum := by
  induction l with
  | nil => rfl
  | cons s l ih => rw [String.join_cons, String.length_append, ih, map_cons, sum_cons]

theorem escaped_length (s : String) : (escaped s).length = s.length + growth s := by
  rw [escaped, join_length, growth, ← String.length_toList]
  induction s.toList with
  | nil => rfl
  | cons c l ih =>
    have hpos := escape_length_pos c
    simp only [map_cons, sum_cons, length_cons] at ih ⊢
    omega

theorem upperBound_eq (call : Call) : c.adapter.inputTokenUpperBound wire (prepared c call) =
      (c.adapter.frame wire (prepared c call)).map fun f =>
        f.envelope + (call.system.length + growth call.system) + (call.user.length + growth call.user) := by
  rw [Adapter.inputTokenUpperBound, Adapter.requestPayload, Option.map_map]
  refine congrArg (Option.map · _) (funext fun f => ?_)
  have hsystem : (prepared c call).system = call.system := rfl
  have huser : (prepared c call).user = call.user := rfl
  simp only [Function.comp_apply, String.length_append, hsystem, huser, escaped_length, Frame.envelope]
  omega

/-- The adapter accepts a call exactly when its limit covers texts, escapes and envelope. -/
theorem accepted_iff (call : Call) : Accepted wire c call ↔ Covered wire c call := by
  rw [Accepted, Covered, upperBound_eq]
  simp only [surplus, room]
  constructor
  · intro h f hf
    have hbound : ((f.envelope + (call.system.length + growth call.system) +
        (call.user.length + growth call.user) : Nat) : Int) ≤ c.primary.maxInputTokens :=
      h _ (by rw [hf]; rfl)
    omega
  · intro h n hn
    obtain ⟨f, hf, rfl⟩ := map_eq_some_iff.mp hn
    have hroom := h f hf
    omega

theorem passes_iff (hM : 0 < c.primary.maxInputTokens) (call : Call) :
    Passes c call ↔ reserves c call ≤ room c call := by
  rw [Passes, workflowEstimatedContextTokens, inputLimit, if_pos hM, reserves, room]
  omega

theorem length_le_bytes (s : String) : (s.length : Int) ≤ bytes s := by
  have hlist : ∀ l : List Char, l.length ≤ (String.ofList l).utf8ByteSize := by
    intro l
    induction l with
    | nil => exact Nat.zero_le _
    | cons a l ih =>
      have hpos := Char.utf8Size_pos a
      rw [String.ofList_cons, String.utf8ByteSize_append, String.utf8ByteSize_singleton, length_cons]
      omega
  have h := hlist s.toList
  rw [String.ofList_toList, String.length_toList] at h
  exact Int.ofNat_le.mpr h

theorem toString_length_le {m n : Nat} (h : m ≤ n) : (toString m).length ≤ (toString n).length := by
  have hpos : 0 < n.repr.length := Nat.length_repr_pos
  have hn := (Nat.length_repr_le_iff hpos).mp (Nat.le_refl n.repr.length)
  exact (Nat.length_repr_le_iff hpos).mpr (Nat.lt_of_le_of_lt h hn)

theorem passes_of_budget {system fixedUser user content : String}
    {output : Option StructuredOutput} {budget : Int}
    (hbudget : requestContentBudget c system fixedUser output = some budget)
    (hcontent : bytes content ≤ budget) (huser : user.length ≤ fixedUser.length + content.length) :
    Passes c ⟨system, user, output⟩ := by
  rw [requestContentBudget] at hbudget
  split at hbudget
  · cases hbudget
  · cases hbudget
    have hlength := length_le_bytes content
    rw [Passes, workflowEstimatedContextTokens]
    have huser' : (user.length : Int) ≤ fixedUser.length + content.length := by omega
    dsimp only
    omega

theorem groupItems_length {fits : List ι → Bool} {fitItem : ι → ι} {current items : List ι}
    {groups : List (List ι)} (h : groupItems fits fitItem current items = some groups) :
    groups.length ≤ (if current.isEmpty then 0 else 1) + items.length := by
  induction items generalizing current groups with
  | nil =>
    cases h
    split <;> simp
  | cons item items ih =>
    rw [groupItems] at h
    split at h
    · have hle := ih h
      have hsome : (current ++ [fitItem item]).isEmpty = false := by cases current <;> rfl
      rw [hsome] at hle
      rw [length_cons]
      split <;> simp at hle ⊢ <;> omega
    · split at h
      · obtain ⟨groups', hgroups, rfl⟩ := map_eq_some_iff.mp h
        have hle := ih hgroups
        rw [length_append, length_cons]
        split <;> simp at hle ⊢ <;> omega
      · cases h

theorem buildWorkflowChunks_ok {r : Recording ι} {direct chunk : Int} {contents : List String}
    {full : Bool} (h : buildWorkflowChunks r direct chunk = some (contents, full)) :
    (full ∧ ∀ content ∈ contents, bytes content ≤ direct) ∨
      (full = false ∧ contents.length ≤ r.items.length ∧ ∀ content ∈ contents, bytes content ≤ chunk) := by
  rw [buildWorkflowChunks] at h
  split at h
  · rename_i hdirect
    cases h
    refine .inl ⟨rfl, fun content hcontent => ?_⟩
    rw [mem_singleton.mp hcontent]
    exact hdirect
  · split at h
    · cases h
    · obtain ⟨groups, hgroups, h⟩ := bind_eq_some_iff.mp h
      dsimp only at h
      split at h
      · cases h
      · rename_i hlong
        cases h
        refine .inr ⟨rfl, ?_, fun content hcontent => ?_⟩
        · have hle := groupItems_length hgroups
          simpa using hle
        · rw [Bool.not_eq_true, List.any_eq_false] at hlong
          have hno := hlong content hcontent
          simpa using hno

/-- Every call of the DSL workflow is within its budget. -/
theorem generate_passes {t : Prompts} {strictOutput : Option StructuredOutput} {r : Recording ι}
    {calls : List Call} (h : generateCalls c t strictOutput r = some calls) :
    ∀ call ∈ calls, Passes c call := by
  obtain ⟨directBudget, hdirect, h⟩ := bind_eq_some_iff.mp h
  obtain ⟨analysisBudget, hanalysis, h⟩ := bind_eq_some_iff.mp h
  obtain ⟨⟨contents, full⟩, hchunks, h⟩ := bind_eq_some_iff.mp h
  cases h
  intro call hcall
  rcases buildWorkflowChunks_ok hchunks with ⟨rfl, hbytes⟩ | ⟨rfl, hcount, hbytes⟩
  · obtain ⟨content, hcontent, rfl⟩ := List.mem_map.mp hcall
    refine passes_of_budget hdirect (hbytes content hcontent) ?_
    simp only [Prompts.generationUser, String.length_append, String.length_empty]
    omega
  · obtain ⟨⟨content, i⟩, hmem, rfl⟩ := List.mem_map.mp hcall
    have hi : i < contents.length := by
      have hlt := snd_lt_of_mem_zipIdx hmem
      simpa using hlt
    have hcontent : content ∈ contents := fst_mem_of_mem_zipIdx hmem
    refine passes_of_budget hanalysis (hbytes content hcontent) ?_
    have hindex := toString_length_le (m := i + 1) (n := max r.items.length 1) (by omega)
    have htotal := toString_length_le (m := contents.length) (n := max r.items.length 1) (by omega)
    simp only [Prompts.analysisUser, String.length_append, String.length_empty]
    omega

end Lengths

/-- What is promised of a call of the DSL workflow, of what the requirement workflow makes of a
recording, and of what the DSL workflow makes of its chunks. -/
structure Admits (t : Prompts) (strictOutput : Option StructuredOutput) (q : RequirementPrompts)
    (r : Recording ι) (call : Call) : Prop where
  complete : Passes c call → Accepted wire c call
  requirement : ∀ calls, requirementCalls c q r = some calls → ∀ call ∈ calls, Accepted wire c call
  budget : ∀ calls, generateCalls c t strictOutput r = some calls → ∀ call ∈ calls, Passes c call

/-- The item as a chunk carries it, trimmed when it is over the budget; `none` when it stays so. -/
def Recording.fitted (r : Recording ι) (budget : Int) (item : ι) : Option ι :=
  (if budget < bytes (r.itemJSON item) then r.trim item budget else some item).filter fun item =>
    bytes (r.itemJSON item) ≤ budget

def Recording.itemBytes (r : Recording ι) (item : ι) : Int := bytes (r.itemJSON item)

def Recording.itemBudget (r : Recording ι) (budget : Int) : Int :=
  max (budget - (bytes r.baseJSON + 256)) floorBytes

def RequirementPrompts.chunkCall (t : RequirementPrompts) (index total : Nat) (content : String) :
    Call :=
  ⟨t.analysisSystem, analysisPrompt t index total content, none⟩

section Packing

variable {r : Recording ι} {budget : Int}

theorem packItems_eq (budget : Int) (current : List ι) (n : Int) (items : List ι) :
    packItems r budget current n items =
      (items.mapM (r.fitted budget)).map (pack r.itemBytes budget current n) := by
  induction items generalizing current n with
  | nil => rfl
  | cons item items ih =>
    rw [packItems, mapM_cons, Recording.fitted]
    cases (if budget < bytes (r.itemJSON item) then r.trim item budget else some item) with
    | none => rfl
    | some item =>
      by_cases hlong : budget < bytes (r.itemJSON item)
      · simp [hlong, not_le.mpr hlong, Option.filter]
      · have hfits : bytes (r.itemJSON item) ≤ budget := not_lt.mp hlong
        simp only [Option.bind_some, hlong, if_false, Option.filter, hfits, decide_true, if_true,
          Option.bind_eq_bind, Option.pure_def]
        cases hitems : items.mapM (r.fitted budget) with
        | none => split <;> simp [ih, hitems]
        | some fitted =>
          simp only [Option.bind_some, Option.map_some, pack]
          by_cases hover : (!current.isEmpty && decide (budget < n + r.itemBytes item)) = true
          · have hover' : (!current.isEmpty && decide (budget < n + bytes (r.itemJSON item))) = true :=
              hover
            rw [if_pos hover, if_pos hover', ih, hitems]
            rfl
          · have hover' : ¬ (!current.isEmpty && decide (budget < n + bytes (r.itemJSON item))) = true :=
              hover
            rw [if_neg hover, if_neg hover', ih, hitems]
            rfl

theorem fitted_le {item item' : ι} (h : r.fitted budget item = some item') :
    r.itemBytes item' ≤ budget := by
  obtain ⟨-, hle⟩ := Option.filter_eq_some_iff.mp h
  exact of_decide_eq_true hle

theorem mem_fitted {items fitted : List ι} (h : items.mapM (r.fitted budget) = some fitted) :
    ∀ item ∈ fitted, r.itemBytes item ≤ budget := by
  induction items generalizing fitted with
  | nil =>
    cases h
    exact nofun
  | cons item items ih =>
    rw [mapM_cons] at h
    obtain ⟨item', hitem, h⟩ := Option.bind_eq_some_iff.mp h
    obtain ⟨rest, hrest, h⟩ := Option.bind_eq_some_iff.mp h
    cases h
    exact forall_mem_cons.mpr ⟨fitted_le hitem, ih hrest⟩

theorem itemBytes_nonneg (r : Recording ι) (item : ι) : 0 ≤ r.itemBytes item :=
  Int.natCast_nonneg _

variable {wire c} {q : RequirementPrompts}

theorem requirementCalls_whole (hM : 0 < c.primary.maxInputTokens)
    (h : bytes r.fullJSON ≤ c.primary.maxInputTokens ∨ r.items = []) :
    requirementCalls c q r = some [⟨q.system, q.text ++ r.fullJSON, none⟩] := by
  rw [requirementCalls, buildPromptChunks, inputLimit, if_pos hM, if_neg (not_le.mpr hM)]
  rcases h with h | h
  · rw [if_pos h]
    rfl
  · simp [h]

/-- A long recording is cut by the packing of its items. -/
theorem requirementCalls_chunks (hM : 0 < c.primary.maxInputTokens)
    (hlong : c.primary.maxInputTokens < bytes r.fullJSON) (hitems : r.items ≠ []) :
    requirementCalls c q r =
      (r.items.mapM (r.fitted (r.itemBudget c.primary.maxInputTokens))).map fun items =>
        let groups := pack r.itemBytes (r.itemBudget c.primary.maxInputTokens) [] 0 items
        groups.zipIdx.map fun (group, i) =>
          q.chunkCall (i + 1) groups.length (r.payload group (i + 1) groups.length) := by
  have hsome : r.items.isEmpty = false := isEmpty_eq_false_iff.mpr hitems
  rw [requirementCalls, buildPromptChunks, inputLimit, if_pos hM, if_neg (not_le.mpr hM),
    if_neg (not_le.mpr hlong), hsome, if_neg Bool.false_ne_true]
  change Option.map _ (Option.map _ (packItems r (r.itemBudget c.primary.maxInputTokens) [] 0 r.items)) = _
  rw [packItems_eq, Option.map_map, Option.map_map]
  refine congrArg (Option.map · _) (funext fun items => ?_)
  refine List.ext_getElem (by simp) fun i h h' => ?_
  simp [RequirementPrompts.chunkCall]

end Packing

/-- When the two workflows keep within the limit of the route: what the wire adds to the texts of a
call that leaves room for the reserves is within that room, and so is what it adds to the whole
recording, or to each run of its items that the item budget allows. -/
structure WithinRoom (q : RequirementPrompts) (r : Recording ι) (call : Call) : Prop where
  estimate : reserves c call ≤ room c call → Covered wire c call
  whole : bytes r.fullJSON ≤ c.primary.maxInputTokens ∨ r.items = [] →
    Covered wire c ⟨q.system, q.text ++ r.fullJSON, none⟩
  chunks : c.primary.maxInputTokens < bytes r.fullJSON → r.items ≠ [] → ∀ items groups,
    r.items.mapM (r.fitted (r.itemBudget c.primary.maxInputTokens)) = some items →
    Packed r.itemBytes (r.itemBudget c.primary.maxInputTokens) items groups →
    ∀ i group, groups[i]? = some group →
      Covered wire c (q.chunkCall (i + 1) groups.length (r.payload group (i + 1) groups.length))

variable {wire c}

/-- **Admission.** The estimate and the chunks leave out what the wire form adds to the texts: they
are right exactly when it has room all the same. What is within the budget of the DSL workflow
always passes its estimate. -/
theorem admits_iff (hM : 0 < c.primary.maxInputTokens) (t : Prompts)
    (strictOutput : Option StructuredOutput) (q : RequirementPrompts) (r : Recording ι) (call : Call) :
    Admits wire c t strictOutput q r call ↔ WithinRoom wire c q r call := by
  constructor
  · intro h
    refine ⟨fun hroom => ?_, fun hwhole => ?_, ?_⟩
    · exact (accepted_iff call).mp (h.complete ((passes_iff hM call).mpr hroom))
    · exact (accepted_iff _).mp (h.requirement _ (requirementCalls_whole hM hwhole) _
        (mem_singleton_self _))
    · intro hlong hitems items groups hfitted hpacked i group hi
      obtain rfl := (packed_iff (itemBytes_nonneg r) (mem_fitted hfitted)).mp hpacked
      have hcalls := requirementCalls_chunks (q := q) hM hlong hitems
      rw [hfitted] at hcalls
      exact (accepted_iff _).mp (h.requirement _ hcalls _
        (mem_map.mpr ⟨(group, i), mem_zipIdx_iff_getElem?.mpr hi, rfl⟩))
  · intro h
    refine ⟨fun hpass => ?_, fun calls hcalls x hx => ?_, fun calls => generate_passes⟩
    · exact (accepted_iff call).mpr (h.estimate ((passes_iff hM call).mp hpass))
    · refine (accepted_iff x).mpr ?_
      by_cases hwhole : bytes r.fullJSON ≤ c.primary.maxInputTokens ∨ r.items = []
      · rw [requirementCalls_whole hM hwhole] at hcalls
        cases hcalls
        rw [mem_singleton.mp hx]
        exact h.whole hwhole
      · obtain ⟨hlong, hitems⟩ := not_or.mp hwhole
        rw [requirementCalls_chunks hM (not_le.mp hlong) hitems] at hcalls
        obtain ⟨items, hfitted, rfl⟩ := Option.map_eq_some_iff.mp hcalls
        obtain ⟨⟨group, i⟩, hi, rfl⟩ := mem_map.mp hx
        exact h.chunks (not_le.mp hlong) hitems items _ hfitted
          ((packed_iff (itemBytes_nonneg r) (mem_fitted hfitted)).mpr rfl) i group
          (mem_zipIdx_iff_getElem?.mp hi)

def plainWire : Wire where
  number _ := "0"
  validDefinition _ := true
  parameters _ _ schema := some schema

/-- The OpenAI adapter, for a model with an input limit of `limit` tokens. -/
def plainSettings (limit : Int) : Settings where
  primary := ⟨"openai", "gpt-4o", "", "", 0, limit, 100, 0, 0, 0⟩
  adapter := .openAI ⟨"gpt-4o", 0, "max_tokens", none, false, false⟩
  llmMaxInputTokens := 0
  llmMaxOutputTokens := 100

def plainFrame : Frame where
  before := "\x7b\"model\":\"gpt-4o\",\"messages\":[\x7b\"role\":\"system\",\"content\":\""
  between := "\"\x7d,\x7b\"role\":\"user\",\"content\":\""
  after := "\"\x7d],\"temperature\":0,\"max_tokens\":100,\"response_format\":\x7b\"type\":" ++
    "\"json_object\"\x7d\x7d"

theorem plain_frame (limit : Int) (call : Call) : (plainSettings limit).adapter.frame plainWire
    (prepared (plainSettings limit) call) = some plainFrame := by
  have hmodel : quoted "gpt-4o" = "\"gpt-4o\"" := by decide +kernel
  have hcap : toString (100 : Int) = "100" := by decide +kernel
  simp only [plainSettings, Adapter.frame, OpenAIProvider.frame, OpenAIProvider.outputCap,
    OpenAIProvider.format, OpenAIProvider.modelOf, OpenAIProvider.thinking, prepared, plainWire]
  simp [hmodel, hcap, plainFrame]

/-- A recording of two items that is over the limit of the run below. -/
def longRecording : Recording Unit where
  fullJSON := String.ofList (List.replicate 601 'x')
  baseJSON := "\x7b\x7d"
  items := [(), ()]
  itemJSON _ := "\x7b\x7d"
  payload _ _ _ := "[\"<\"]"
  trim _ _ := none

theorem covered_of_length {limit : Int} {call : Call}
    (h : (plainFrame.envelope + growth call.system + growth call.user + call.system.length +
      call.user.length : Int) ≤ limit) : Covered plainWire (plainSettings limit) call := by
  intro f hf
  rw [plain_frame limit call] at hf
  cases hf
  have hlimit : (plainSettings limit).primary.maxInputTokens = limit := rfl
  simp only [surplus, room, hlimit]
  omega

theorem admits_iff_longRecording : Admits plainWire (plainSettings 600) ⟨"", "", "", "", ""⟩ none
    ⟨"", "", "", ""⟩ longRecording ⟨"", "\"", none⟩ := by
  refine (admits_iff (by decide) _ _ _ _ _).mpr ⟨fun _ => ?_, fun h => ?_, ?_⟩
  · exact covered_of_length (by decide +kernel)
  · exact absurd h (by decide +kernel)
  · intro _ _ items groups hitems hpacked i group hi
    obtain rfl : [(), ()] = items := Option.some.inj hitems
    have hpack := (packed_iff (itemBytes_nonneg _) (by decide +kernel)).mp hpacked
    obtain rfl : groups = [[(), ()]] := hpack.trans (by decide +kernel)
    obtain rfl : i = 0 := Nat.lt_one_iff.mp (List.getElem?_eq_some_iff.mp hi).1
    obtain rfl : [(), ()] = group := Option.some.inj hi
    exact covered_of_length (by decide +kernel)

/-- A recording without events. -/
def plainRecording : Recording Unit where
  fullJSON := "\x7b\"events\":[]\x7d"
  baseJSON := "\x7b\x7d"
  items := []
  itemJSON _ := ""
  payload _ _ _ := ""
  trim _ _ := none

/-- A limit of as many tokens as the text of the recording has bytes: whatever the prompts say, the
request of the requirement workflow is over the limit. -/
theorem plainRecording_refused : ¬∃ (t : Prompts) (q : RequirementPrompts) (call : Call),
    Admits plainWire (plainSettings 13) t none q plainRecording call := by
  rintro ⟨t, q, call, h⟩
  have hcall := h.requirement [⟨q.system, q.text ++ plainRecording.fullJSON, none⟩] rfl _
    (mem_singleton_self _)
  have hfits := (accepted_iff _).mp hcall plainFrame (plain_frame 13 _)
  have hlong : 14 ≤ plainFrame.between.length := by decide
  simp only [surplus, room, Frame.envelope] at hfits
  have hlimit : (plainSettings 13).primary.maxInputTokens = 13 := rfl
  omega

end Admission

end Aegis
