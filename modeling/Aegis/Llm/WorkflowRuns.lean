import Aegis.Llm.Admission
import Aegis.Llm.CaptureRuns
import Aegis.Qualification.Lineage

/-!
# Llm.WorkflowRuns

`llm/dsl/workflow.go`: the runs of `Generate` and `Repair`, by the provider calls that are captured
of them and whether they return a rule. What a rule is made of is left out: a response may be one or
not.
-/

namespace Aegis

namespace Llm

open Qualification (QualificationProviderCall)

/-- `CompletionTraceMetadata`, with the number of chunks. -/
structure StageMetadata extends CompletionTraceMetadata where
  chunkCount : Nat

/-- The row of a captured call. An empty response id is stored as null. -/
def StageMetadata.row (metadata : StageMetadata) (call : CapturedCall) : QualificationProviderCall where
  callKind := call.kind
  providerAttempt := call.providerAttempt
  phase := metadata.phase
  chunkIndex := metadata.chunkIndex
  chunkCount := metadata.chunkCount
  responseId := if call.responseID = "" then none else some call.responseID

def StageMetadata.rows (metadata : StageMetadata) (calls : List CapturedCall) :
    List QualificationProviderCall :=
  calls.map metadata.row

def analysisStage (chunkCount index : Nat) : StageMetadata :=
  ⟨⟨"analysis", some (index : Int)⟩, chunkCount⟩

def synthesisStage (chunkCount : Nat) : StageMetadata := ⟨⟨"synthesis", none⟩, chunkCount⟩

/-- The one call of a generation whose recording fits, or of a repair. -/
def finalStage (chunkCount : Nat) : StageMetadata := ⟨⟨"final", none⟩, chunkCount⟩

/-- A call of `w.complete`, by its answer and its rows. A prompt over the limit is not sent. -/
inductive StageCalls (codec : Codec) (cfg : LLMConfig) (reg : Registry) (metadata : StageMetadata) :
    Bool → List QualificationProviderCall → Prop where
  | tooLarge : StageCalls codec cfg reg metadata false []
  | answered {ctx : CallContext} {req : CompletionRequest} {result : CompletionResult}
      {calls : List CapturedCall}
      (h : Captures codec cfg reg ctx metadata.toCompletionTraceMetadata req (.ok result) calls) :
      StageCalls codec cfg reg metadata true (metadata.rows calls)
  | failed {ctx : CallContext} {req : CompletionRequest} {e : LLMError}
      {calls : List CapturedCall}
      (h : Captures codec cfg reg ctx metadata.toCompletionTraceMetadata req (.error e) calls) :
      StageCalls codec cfg reg metadata false (metadata.rows calls)

/-- What a run is made of: a repair, or a generation from what `buildWorkflowChunks` returns, the
contents of the chunks and whether the one is the whole recording. -/
inductive Plan where
  | repair
  | generate (chunks : Option (List String × Bool))

section

variable (stage : StageMetadata → Bool → List QualificationProviderCall → Prop)

inductive Analyses (chunkCount : Nat) : Nat → Bool → List QualificationProviderCall → Prop where
  | done : Analyses chunkCount chunkCount true []
  | failed {index : Nat} {calls : List QualificationProviderCall} (hindex : index < chunkCount)
      (h : stage (analysisStage chunkCount index) false calls) :
      Analyses chunkCount index false calls
  | next {index : Nat} {answered : Bool} {calls rest : List QualificationProviderCall}
      (hindex : index < chunkCount) (h : stage (analysisStage chunkCount index) true calls)
      (hrest : Analyses chunkCount (index + 1) answered rest) :
      Analyses chunkCount index answered (calls ++ rest)

/-- The runs of a plan, by whether a rule is returned and the calls of the run. -/
inductive Runs : Plan → Bool → List QualificationProviderCall → Prop where
  | refused (plan : Plan) : Runs plan false []
  | repair {answered : Bool} {calls : List QualificationProviderCall}
      (h : stage (finalStage 0) answered calls) (isRule : Bool) :
      Runs .repair (answered && isRule) calls
  | whole {contents : List String} {answered : Bool} {calls : List QualificationProviderCall}
      (h : stage (finalStage 1) answered calls) (isRule : Bool) :
      Runs (.generate (some (contents, true))) (answered && isRule) calls
  | analyses {contents : List String} {calls : List QualificationProviderCall}
      (h : Analyses stage contents.length 0 false calls) :
      Runs (.generate (some (contents, false))) false calls
  | synthesis {contents : List String} {answered : Bool}
      {calls rest : List QualificationProviderCall}
      (h : Analyses stage contents.length 0 true calls)
      (hrest : stage (synthesisStage contents.length) answered rest) (isRule : Bool) :
      Runs (.generate (some (contents, false))) (answered && isRule) (calls ++ rest)

end

/-- The rows of a stage, whatever the orchestrator and its providers are. -/
inductive StageRows (metadata : StageMetadata) : Bool → List QualificationProviderCall → Prop where
  | answered {calls : List CapturedCall} (h : Completes calls) :
      StageRows metadata true (metadata.rows calls)
  | failed {calls : List CapturedCall} (h : Fails calls) :
      StageRows metadata false (metadata.rows calls)

variable {codec : Codec} {cfg : LLMConfig} {reg : Registry}
  {stage stage' : StageMetadata → Bool → List QualificationProviderCall → Prop}

variable {calls : List QualificationProviderCall}

variable {metadata : StageMetadata} {answered : Bool}

theorem StageCalls.rows (hnames : Registered codec cfg reg)
    (h : StageCalls codec cfg reg metadata answered calls) :
    StageRows metadata answered calls := by
  cases h with
  | tooLarge => exact .failed (.errors 0)
  | answered h => exact .answered (h.shape hnames)
  | failed h => exact .failed (h.shape hnames)

theorem StageRows.plain {retries : Nat}
    (h : StageRows metadata answered calls) (hlength : calls.length ≤ retries) :
    StageCalls Plain.codec (Plain.config retries) Plain.registry metadata answered calls := by
  have hctx : Nonempty CallContext := ⟨⟨none, none⟩⟩
  obtain ⟨ctx⟩ := hctx
  have hreq : Nonempty CompletionRequest := ⟨⟨"", "", "", 0, true, 0, none, .default⟩⟩
  obtain ⟨req⟩ := hreq
  cases h with
  | answered h =>
    obtain ⟨result, hcaptures⟩ := Plain.completes_captured ctx
      metadata.toCompletionTraceMetadata req h (by simpa [StageMetadata.rows] using hlength)
    exact .answered hcaptures
  | failed h =>
    obtain ⟨e, hcaptures⟩ := Plain.fails_captured ctx
      metadata.toCompletionTraceMetadata req h (by simpa [StageMetadata.rows] using hlength)
    exact .failed hcaptures

variable {limit : Nat}

theorem Analyses.mono {chunkCount index : Nat} (hlimit : calls.length ≤ limit)
    (hstage : ∀ metadata answered calls, calls.length ≤ limit → stage metadata answered calls →
      stage' metadata answered calls)
    (h : Analyses stage chunkCount index answered calls) :
    Analyses stage' chunkCount index answered calls := by
  induction h with
  | done => exact .done
  | failed hindex h => exact .failed hindex (hstage _ _ _ hlimit h)
  | next hindex h _ ih =>
    rw [List.length_append] at hlimit
    exact .next hindex (hstage _ _ _ (by omega) h) (ih (by omega))

variable {plan : Plan} {returned : Bool}

theorem Runs.mono (hlimit : calls.length ≤ limit)
    (hstage : ∀ metadata answered calls, calls.length ≤ limit → stage metadata answered calls →
      stage' metadata answered calls)
    (h : Runs stage plan returned calls) : Runs stage' plan returned calls := by
  cases h with
  | refused => exact .refused plan
  | repair h isRule => exact .repair (hstage _ _ _ hlimit h) isRule
  | whole h isRule => exact .whole (hstage _ _ _ hlimit h) isRule
  | analyses h => exact .analyses (h.mono hlimit hstage)
  | synthesis h hrest isRule =>
    rw [List.length_append] at hlimit
    exact .synthesis (h.mono (by omega) hstage) (hstage _ _ _ (by omega) hrest) isRule

theorem Runs.rows (hnames : Registered codec cfg reg)
    (h : Runs (StageCalls codec cfg reg) plan returned calls) :
    Runs StageRows plan returned calls :=
  h.mono (Nat.le_refl _) fun _ _ _ _ hstage => hstage.rows hnames

theorem Runs.stages (h : Runs StageRows plan returned calls) :
    Runs (StageCalls Plain.codec (Plain.config calls.length) Plain.registry) plan returned calls :=
  h.mono (Nat.le_refl _) fun _ _ _ hlength hstage => hstage.plain hlength

end Llm

end Aegis
