import OpenAgents.Hashline.Reread
import OpenAgents.Session.Compact
import OpenAgents.Session.ToolChoiceRuns
import OpenAgents.Session.PersistenceRuns
import OpenAgents.Session.Pruning
import OpenAgents.Agent.ContextMirror
import OpenAgents.Providers.ToolPairing
import OpenAgents.Hashline.SnapshotHistory
import OpenAgents.Session.SqlMirror
import OpenAgents.Hashline.RenderRoundTrip
import OpenAgents.Edit.AddFile
import OpenAgents.Edit.NotebookRoundTrip
import OpenAgents.Hashline.ReplayedChange
import OpenAgents.Agent.LoopPairing
import OpenAgents.Scheduler.ClosureRuns
import OpenAgents.Lsp.SimultaneousEdits
import OpenAgents.Lsp.Routing
import OpenAgents.Secrets.Leaks
import OpenAgents.Session.OutputCapture
import OpenAgents.Secrets.RoundTrip
import OpenAgents.Tui.ScrollbackFaithful
import OpenAgents.Hashline.TokenChunks
import OpenAgents.Hashline.BalanceNeutral
import OpenAgents.Hashline.StreamingParse
import OpenAgents.Hashline.FirstChanged
import OpenAgents.Dispatch.Exclusive
import OpenAgents.Dispatch.Attempts
import OpenAgents.Edit.DiffPreview
import OpenAgents.Hashline.StreamLines
import OpenAgents.Session.SplitTurn
import OpenAgents.Session.DanglingCalls
import OpenAgents.Session.Migration
import OpenAgents.Session.RemoteRename
import OpenAgents.Session.ToolOutputPruning
import OpenAgents.Session.ShakeLoss
import OpenAgents.Session.PersistedValue
import OpenAgents.Utils.RingBuffer
import OpenAgents.Edit.PatchRanges
import OpenAgents.Streams.ServerSentEvents
import OpenAgents.AnsiText.ExtractStyle
import OpenAgents.Edit.ReplaceText
import OpenAgents.Session.TailBuffer
import OpenAgents.Session.MiddleTruncation
import OpenAgents.Session.ColumnCap
import OpenAgents.Commit.ChangelogKeeps
import OpenAgents.Schema.ValidatorVerdict
import OpenAgents.Tui.InputKept
import OpenAgents.Tui.WordWrap
import OpenAgents.Schema.ToolFixup
import OpenAgents.Summary.CodeSummary
import OpenAgents.Tools.LineSelector
import OpenAgents.Utils.Snowflake
import OpenAgents.Commit.TopoSort
import OpenAgents.Swarm.Dag
import OpenAgents.Streams.EventStream
import OpenAgents.Streams.JsonRepair
import OpenAgents.Streams.KimiSpans
import OpenAgents.Swarm.Pipeline
import OpenAgents.Swarm.Launch
