import Kvist.TaskQueue.Validation
import Kvist.FileTools.PatchProperties
import Kvist.FileTools.PatchText
import Kvist.TextLines
import Kvist.EditScript
import Kvist.Radix
import Kvist.FileTools.Patch
import Kvist.Evidence.Redaction
import Kvist.Transport.RepairProperties
import Kvist.Json.Tokens
import Kvist.Command.RenderProperties
import Kvist.Command.Render
import Kvist.Placeholders
import Kvist.Bisection
import Kvist.FileTools.Page
import Kvist.FileTools.SearchProperties
import Kvist.Occurrences
import Kvist.FileTools.Search
import Kvist.Galla.CanonicalProperties
import Kvist.Galla.AliasProperties
import Kvist.Runtime.TokenBudgetProperties
import Kvist.Runtime.TokenBudget
import Kvist.LoopDetection.ActionProperties
import Kvist.LoopDetection.Actions
import Kvist.Runtime.ToolResult
import Kvist.LoopDetection.ActionIdentity
import Kvist.Json.Balance
import Kvist.Json.Canonical
import Kvist.LoopDetection.NearProperties
import Kvist.LoopDetection.PatternProperties
import Kvist.RollingHash
import Kvist.Runtime.HistoryGrammar
import Kvist.TaskQueue.Timestamps
import Kvist.Calendar
import Kvist.TaskQueue.Readiness
import Kvist.TaskQueue.NormalizeProperties
import Kvist.Authoring.PlanProperties
import Kvist.Authoring.Turn
import Kvist.Authoring.EffectProperties
import Kvist.Authoring.ApplyProperties
import Kvist.FileSystem.Resolution
import Kvist.Authoring.Apply
import Kvist.Authoring.Plan
import Kvist.Authoring.Broker
import Kvist.Utf8
import Kvist.FileSystem.Tree
import Kvist.Transport.ToolCallProperties
import Kvist.Transport.Stream
import Kvist.Transport.Response
import Kvist.Lines
import Kvist.LoopDetection.GenerationProperties
import Kvist.Galla.IdentityProperties
import Kvist.Galla.GenerationProperties
import Kvist.Galla.Generation
import Kvist.Framing
import Kvist.Galla.EnforcementProperties
import Kvist.Galla.Enforcement
import Kvist.Galla.AcquisitionProperties
import Kvist.Galla.SearchPathProperties
import Kvist.Galla.GrantProperties
import Kvist.Galla.SourceProperties
import Kvist.Galla.Cargo
import Kvist.Galla.Validation
import Kvist.Galla.OriginProperties
import Kvist.Paths
import Kvist.Galla.Origin
import Kvist.Observation.RoundTrip
import Kvist.Observation.FollowerProperties
import Kvist.Observation.JournalProperties
import Kvist.Segments
import Kvist.Observation.Follower
import Kvist.TaskQueue.GraphProperties
import Kvist.Graph.DepthFirst
import Kvist.Graph.Search
import Kvist.Yaml.Quoting
import Kvist.Yaml.Block
import Kvist.Yaml.Reader
import Kvist.TaskQueue.Emit
import Kvist.TaskQueue.Decode
import Kvist.TaskQueue.QueueTree
import Kvist.TaskQueue.RoundTrip
import Kvist.Repair.Queue
import Kvist.TaskQueue.ValidQueue
import Kvist.Repair.FragmentProperties
import Kvist.Repair.QueueProperties
import Kvist.Repair.CandidateProperties
import Kvist.Repair.SalvageProperties
import Kvist.Transitions
import Kvist.Runtime.Control
import Kvist.Runtime.ControlProperties
import Kvist.Runtime.GuidanceRuns
import Kvist.Runtime.GuidanceAccounting
import Kvist.Runtime.GuidanceSteps
import Kvist.Runtime.GuidanceShape
import Kvist.Runtime.GuidanceKept
import Kvist.Runtime.GuidanceProperties
import Kvist.Json.Value
import Kvist.Json.Bytes
import Kvist.Runtime.Message
import Kvist.Runtime.History
import Kvist.Runtime.HistoryProperties
import Kvist.Runtime.Summary
import Kvist.Runtime.Context
import Kvist.Runtime.ContextProperties
import Kvist.Runtime.CompactionProperties
import Kvist.Runtime.Recompaction
import Kvist.Runtime.SummaryRuns
import Kvist.Runtime.Session
import Kvist.Runtime.Driver
import Kvist.Runtime.SessionProperties
import Kvist.Runtime.DriverProperties
import Kvist.Wildcards
import Kvist.Discovery.Ignore
import Kvist.Discovery.IgnoreProperties
import Kvist.Authoring.Dependency
import Kvist.Authoring.DependencyProperties
import Kvist.Json.Encoded
import Kvist.Observations
import Kvist.Executor.Progress
import Kvist.Session.Log
import Kvist.Session.History
import Kvist.ShellWords
import Kvist.OrderedMap
import Kvist.Closure
import Kvist.Numbering
import Kvist.Json.Records
import Kvist.Decision.Quoting
import Kvist.Decision.Storage
import Kvist.Decision.Types
import Kvist.Decision.Shortcuts
import Kvist.Decision.ShortcutProperties
import Kvist.CommandLine
import Kvist.Decision.Invocation
import Kvist.Decision.InvocationProperties
import Kvist.Decision.Documents
import Kvist.Decision.Tasks
import Kvist.Decision.TaskProperties
import Kvist.Guarded
import Kvist.Json.Sizes
import Kvist.Decision.Records
import Kvist.Decision.Transaction
import Kvist.Decision.RecordSizes
import Kvist.Decision.TransactionProperties
import Kvist.Blad.Anchors
import Kvist.Blad.AnchorProperties
import Kvist.Blad.Output
import Kvist.Blad.OutputProperties
import Kvist.Assignments
import Kvist.Blad.TerminalText
import Kvist.Blad.Display
import Kvist.Blad.ClipProperties
import Kvist.Blad.Viewport
import Kvist.Blad.PainterProperties
import Kvist.Dependencies.Vendoring
import Kvist.Dependencies.VendoringProperties
import Kvist.Dependencies.LockedGraph
import Kvist.Dependencies.Resolver
import Kvist.Dependencies.ResolverProperties
import Kvist.LineFilling
import Kvist.Apportionment
import Kvist.Blad.Table
import Kvist.Blad.TableProperties
import Kvist.ByteText
import Kvist.Blad.RenderWriter
import Kvist.Blad.TableSpans
import Kvist.Blad.TableWords
import Kvist.Blad.TableMarks
import Kvist.Blad.TableSpanProperties
import Kvist.Blad.TableCellProperties
import Kvist.QuotedWords
import Kvist.Bark.CommandTree
import Kvist.Bark.Prefill
import Kvist.Bark.PrefillProperties
import Kvist.Utf8Prefix
import Kvist.Blad.StreamInput
import Kvist.Bark.SessionJournal
import Kvist.Markdown.Structure
import Kvist.Markdown.Documents
import Kvist.Markdown.Preservation
import Kvist.TaskQueue.Continuous
