import ClusterMetrics.Request.Query
import ClusterMetrics.Binary64.Text
import ClusterMetrics.Latency
import ClusterMetrics.CheckedAdd
import ClusterMetrics.KeyMap
import ClusterMetrics.Json.Reader
import ClusterMetrics.Json.Text
import ClusterMetrics.Json.Number
import ClusterMetrics.Json.Writer
import ClusterMetrics.Json.Record
import ClusterMetrics.Metrics.Os
import ClusterMetrics.Metrics.BatchJobs
import ClusterMetrics.Metrics.SiteResync
import ClusterMetrics.Metrics.Scanner
import ClusterMetrics.Metrics.Network
import ClusterMetrics.Metrics.Memory
import ClusterMetrics.Metrics.Cpu
import ClusterMetrics.Metrics.Runtime
import ClusterMetrics.Metrics.Rpc
import ClusterMetrics.Stream
import ClusterMetrics.Stream.Exchange
import ClusterMetrics.ClusterView
import ClusterMetrics.FanIn
import ClusterMetrics.Report
import ClusterMetrics.SampleFile
import ClusterMetrics.Token
import ClusterMetrics.CommandLine
import ClusterMetrics.Main
import ClusterMetrics.Proofs.Stream.WholeInput
import ClusterMetrics.Proofs.Stream.FrameTexts
import ClusterMetrics.Proofs.Json.ReaderGrammar
import ClusterMetrics.Proofs.KeyMap
import ClusterMetrics.Proofs.FanIn.History
import ClusterMetrics.Proofs.FanIn.Received
import ClusterMetrics.Proofs.FanIn.Confluence
import ClusterMetrics.Proofs.FanIn.SameNames
import ClusterMetrics.Proofs.Stream.Cancellation
import ClusterMetrics.Proofs.Merge.Order
import ClusterMetrics.Proofs.Merge.Range
import ClusterMetrics.Proofs.Stream.Lifecycle
import ClusterMetrics.Proofs.Merge.Grouping
import ClusterMetrics.Proofs.Json.ReadValues
import ClusterMetrics.Proofs.Merge.OneSide
import ClusterMetrics.Proofs.Json.WriterGrammar
import ClusterMetrics.Proofs.Json.Strings
import ClusterMetrics.Proofs.Json.Numbers
import ClusterMetrics.Proofs.TimestampTexts
import ClusterMetrics.Proofs.WireFormats
import ClusterMetrics.Proofs.Queries
import ClusterMetrics.Proofs.Layouts
import ClusterMetrics.Proofs.PrintedFrames
import ClusterMetrics.Proofs.Merge.AddingUp
import ClusterMetrics.Proofs.Merge.AnyGrouping
import ClusterMetrics.Proofs.ByteOrder
import ClusterMetrics.Proofs.GrowingViews
import ClusterMetrics.Proofs.Merge.Pongs
import ClusterMetrics.Proofs.FanIn.Shutdown
import ClusterMetrics.Proofs.Merge.ScannerCycles
import ClusterMetrics.Proofs.Merge.Histograms
import ClusterMetrics.Proofs.Merge.Resyncs
import ClusterMetrics.Proofs.DriveEntries
import ClusterMetrics.Proofs.Restriction
import ClusterMetrics.Proofs.NodeReplies
import ClusterMetrics.Proofs.HostSearch
import ClusterMetrics.Proofs.LatencyOrder
import ClusterMetrics.Proofs.LatencySessions
import ClusterMetrics.Proofs.DurationNormalForms
import ClusterMetrics.Proofs.Readings
import ClusterMetrics.Proofs.QueryFields
import ClusterMetrics.Proofs.EffectiveIntervals
import ClusterMetrics.Proofs.CategoryTexts
import ClusterMetrics.Proofs.SampleFiles
import ClusterMetrics.Proofs.Stream.RunCounts
import ClusterMetrics.Proofs.WatchedFrames
import ClusterMetrics.Proofs.Stream.BufferedInput
