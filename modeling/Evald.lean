import Evald.Lib.FirstCopies
import Evald.Lib.Newest
import Evald.Lib.Digits
import Evald.Lib.GroupBy
import Evald.Lib.Multimap
import Evald.Lib.Probe
import Evald.Model
import Evald.Store.Key
import Evald.Store.Path
import Evald.Lib.Run
import Evald.Store.Index
import Evald.Store.Block
import Evald.Store.Cold
import Evald.Store.Merge
import Evald.Store.MergeStep
import Evald.Store.Retention
import Evald.Store.MergeKeys
import Evald.Store.MergePass
import Evald.Store.Tiers
import Evald.Store.Grace
import Evald.Store.Collapse
import Evald.Store.ColdRun
import Evald.Store.Expiry
import Evald.Store.Query
import Evald.Store.TraceIndex
import Evald.Lib.Frame
import Evald.Lib.Walk
import Evald.Lib.Chain
import Evald.Lib.Ancestry
import Evald.Store.Wal
import Evald.Store.Live
import Evald.Store.LiveInvariant
import Evald.Store.CrashSafety
import Evald.Store.Concurrent
import Evald.Store.QueryRun
import Evald.Store.Faults
import Evald.Store.SqlView
import Evald.Store.AtRest
import Evald.Store.Copies
import Evald.Rollup
import Evald.ScoreVersions
import Evald.Store.Scores
import Evald.Lib.Text
import Evald.Lib.Sha256
import Evald.Otlp
import Evald.Deps
import Evald.Agent
import Evald.Normalize
import Evald.Attributes
import Evald.Lib.Entries
import Evald.LlmSpan
import Evald.JsonText
import Evald.Lib.Truth
import Evald.LlmPredicate
import Evald.TtftReport
import Evald.Lib.Capture
import Evald.Usage
import Evald.Lib.Escape
import Evald.UsageLabels
import Evald.Price
import Evald.PriceTable
import Evald.Basis
import Evald.Encodings
import Evald.Logs.Recall
import Evald.Logs.Record
import Evald.Logs.ClaudeCode
import Evald.Logs.Codex
import Evald.Logs.GeminiCli
import Evald.EvalEvent
import Evald.Traces
import Evald.Blob
import Evald.Offload
import Evald.Logs.Door
import Evald.Logs.Splitting
import Evald.Calls
import Evald.Lib.Regex
import Evald.Redact
import Evald.Ledger
import Evald.LedgerRun
import Evald.Sessions
import Evald.NestedCalls
import Evald.CallPlaces
import Evald.SessionOrder
import Evald.Overflow
import Evald.Logs.Facts
import Evald.Logs.Turns
import Evald.Logs.Retry
import Evald.Logs.Exporter
import Evald.Logs.Signals
import Evald.Store.Contents
import Evald.Logs.OneCall
import Evald.Lib.Fields
import Evald.Dataset
import Evald.Judge
import Evald.EvalRun
import Evald.EvalCompare
import Evald.Junit
import Evald.Lib.Xml
import Evald.JunitXml
import Evald.Doubles
import Evald.Logs.CallCost
import Evald.Logs.BothCopies
import Evald.Logs.ToolFailure
import Evald.Calibrate
import Evald.Auth
import Evald.EvalExport
import Evald.IndexedMessages
import Evald.SetAside
import Evald.Logs.Forgetting
import Evald.Store.HotBound
import Evald.Logs.Apart
import Evald.ScorePost
import Evald.Store.Reingest
import Evald.Store.Chunks
import Evald.Lib.EditDistance
import Evald.Levenshtein
import Evald.Lib.Blocks
import Evald.RepeatRuns
import Evald.Lib.Groups
import Evald.RedactRules
import Evald.Logs.Refusals
import Evald.Lib.Tally
import Evald.Cost
import Evald.Mcp
import Evald.McpRuns
import Evald.Lib.Literal
import Evald.Lib.Rounding
import Evald.Lib.Fallible
import Evald.Evaluators
import Evald.JudgeRuns
import Evald.JsonDoor
import Evald.JsonForms
import Evald.LeftAttributes
import Evald.LeftRecords
import Evald.DoorsAgree
import Evald.Store.Attic
import Evald.Store.Lifetime
import Evald.LivePrices
import Evald.RedactedStore
