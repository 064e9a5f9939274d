import DSigMatcher.Checkpoint.CrashSafe
import DSigMatcher.Json.PyAgree
import DSigMatcher.Export.PathAlias
import DSigMatcher.Diff.ResultsWriter
import DSigMatcher.Port.Address
import DSigMatcher.Port.PortFiles
import DSigMatcher.Port.Provenance
import DSigMatcher.Diff.FinalPassMapping
import DSigMatcher.Pipeline.Converge
import DSigMatcher.Pipeline.RoundTrip
import DSigMatcher.Checkpoint.Snapshot
import DSigMatcher.Checkpoint.StateFile
import DSigMatcher.Pipeline.Cursors
import DSigMatcher.Pipeline.Growing
import DSigMatcher.Pipeline.Uninterrupted
import DSigMatcher.Diff.UnifiedDiff
import DSigMatcher.Export.SweepSafety
import DSigMatcher.Diff.CleanupSound
import DSigMatcher.Diff.MatchImpl
import DSigMatcher.Diff.RatioCache
import DSigMatcher.Diff.OpcodeScript
import DSigMatcher.Diff.LongestMatch
import DSigMatcher.Diff.QuickRatio
import DSigMatcher.Diff.PreparedColumns
import DSigMatcher.Json.DecimalToDouble
import DSigMatcher.Json.PyFloat
import DSigMatcher.Json.ReprFloat
import DSigMatcher.Json.ReprRoundTrip
import DSigMatcher.Base.Utf8Sequence
import DSigMatcher.Cfg.BlockWalk
import DSigMatcher.Cfg.Edges
import DSigMatcher.Cfg.EdgesExact
import DSigMatcher.Diff.CppNames
import DSigMatcher.Diff.ResultSteps
import DSigMatcher.Port.ReadOnlyUri
import DSigMatcher.Port.IntReaders
import DSigMatcher.Diff.Ingest
import DSigMatcher.Diff.SplitLines
import DSigMatcher.Export.ExportBridge
import DSigMatcher.Json.PySet
import DSigMatcher.Export.WindowsArguments
import DSigMatcher.Pe.Offsets
import DSigMatcher.Pe.CodeView
import DSigMatcher.Pe.Exports
import DSigMatcher.Pe.ParseSafe
import DSigMatcher.Cfg.StrongComponents
import DSigMatcher.Cfg.Complexity
import DSigMatcher.Diff.CuReplayEq
import DSigMatcher.Preflight.CallgraphExact
import DSigMatcher.Hash.PrimeTable
import DSigMatcher.Hash.KghHash
import DSigMatcher.Hash.Digests
import DSigMatcher.Diff.PointGlob
import DSigMatcher.Export.PeIdentity
import DSigMatcher.Diff.RoundDecimal
import DSigMatcher.Engine.Completed
import DSigMatcher.Engine.Converging
import DSigMatcher.Engine.Traced
