import Aegis.Lifecycle.Limit
import Aegis.Lifecycle.Cancellation
import Aegis.Results.Fencing
import Aegis.Results.Completion
import Aegis.Results.Retry
import Aegis.Results.Pages
import Aegis.Results.Retention
import Aegis.Scheduler.Sweep
import Aegis.Recording.Provenance
import Aegis.Llm.Accounting
import Aegis.Dsl.SelectorRepair
import Aegis.Api.Idempotency
import Aegis.Recording.Expansion
import Aegis.Recording.Adoption
import Aegis.Recording.Archive
import Aegis.Recording.Frames
import Aegis.Recording.Preprocess
import Aegis.Engine.BufferingTransport
import Aegis.Engine.PreflightSound
import Aegis.Engine.Overlap
import Aegis.Engine.StepErrors
import Aegis.Engine.Continues
import Aegis.Engine.Terminal
import Aegis.Engine.Deduplicate
import Aegis.Gate.ExtractionSound
import Aegis.Gate.Replay
import Aegis.Gate.Coverage
import Aegis.Gate.CandidatesSound
import Aegis.Gate.SemanticNodes
import Aegis.Gate.Safety
import Aegis.Worker.Reports
import Aegis.Worker.Realms
import Aegis.Worker.Submissions
import Aegis.Worker.Bridge
import Aegis.Gate.StabilizeSound
import Aegis.Llm.RedactSound
import Aegis.Rules.Live
import Aegis.Replay.Rows
import Aegis.Replay.Resume
import Aegis.Replay.Frame
import Aegis.Requirements.Agreement
import Aegis.Requirements.Claims
import Aegis.Llm.Scrolls
import Aegis.Qualification.Histories
import Aegis.Recording.Conversion
import Aegis.Mcp.Rejection
import Aegis.Scheduler.NextRun
import Aegis.Budget.Settlement
import Aegis.Api.CircuitBreaker
