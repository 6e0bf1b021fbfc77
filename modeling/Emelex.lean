import Emelex.Engine.SlidingAttention
import Emelex.Engine.StreamingAgreement
import Emelex.Engine.TwoLedger
import Emelex.Engine.PlainDecoding
import Emelex.Engine.GreedyRounds
import Emelex.Engine.Lossless
import Emelex.Lib.Draws
import Emelex.Engine.ExactSampling
import Emelex.Engine.SpeculativeSampling
import Emelex.Engine.SampledRound
import Emelex.Engine.FakeOps
import Emelex.Engine.SessionOps
import Emelex.Engine.Prefill
import Emelex.Engine.GenerateCached
import Emelex.Engine.CacheTransparency
import Emelex.Engine.FakeModel
import Emelex.Lib.Machine
import Emelex.Models.Quarantine
import Emelex.Models.QuarantineCollection
import Emelex.Agent.AtomicReplace
import Emelex.Agent.ReplaceRaces
import Emelex.Models.SnapshotStamp
import Emelex.Models.StampRaces
import Emelex.Lib.Table
import Emelex.Memory.Schema
import Emelex.Memory.JobQueue
import Emelex.Memory.Sessions
import Emelex.Memory.Workers
import Emelex.Memory.Store
import Emelex.Memory.SessionSteps
import Emelex.Memory.QueueSteps
import Emelex.Memory.WorkerSteps
import Emelex.Memory.Calls
import Emelex.Memory.Leases
import Emelex.Memory.JobRuns
import Emelex.Engine.DrawDiscipline
import Emelex.Engine.Hooked
import Emelex.Engine.HostFailures
import Emelex.Engine.BudgetReference
import Emelex.Engine.Rechunking
import Emelex.Engine.ForcedClose
import Emelex.Engine.HiddenTokens
import Emelex.Hub.DownloadPlan
import Emelex.Hub.Downloads
import Emelex.Hub.DownloadSafety
import Emelex.Memory.CompactionOrder
import Emelex.Memory.Replay
import Emelex.Lib.Checks
import Emelex.Lib.Json
import Emelex.Models.Checkpoint
import Emelex.Models.CheckpointSelection
import Emelex.Models.Capture
import Emelex.Models.ImportAgreement
import Emelex.Lib.Mutex
import Emelex.Models.Binding
import Emelex.Engine.CacheHistory
import Emelex.Engine.CacheRollback
import Emelex.Engine.PoolInvariant
import Emelex.Engine.SamplerFilters
import Emelex.Engine.StagedSampling
import Emelex.Engine.ToolSchema
import Emelex.Engine.ToolCalls
import Emelex.Engine.GemmaProgress
import Emelex.Engine.ToolExtraction
import Emelex.Engine.GemmaRoundTrip
import Emelex.Engine.HermesBlocks
import Emelex.Hub.DownloadProgress
import Emelex.Hub.DownloadCompletion
import Emelex.Memory.CompactionPlan
import Emelex.Memory.QueueAcceptance
import Emelex.Memory.PlanAgreement
import Emelex.Lib.Paging
import Emelex.Lib.Rfc3339
import Emelex.Memory.Catalog
import Emelex.Memory.CatalogWalk
import Emelex.Lib.Ranges
import Emelex.Models.ShardLayout
import Emelex.Engine.ChatHistory
import Emelex.Generation.Requests
import Emelex.Generation.HistoryTurns
import Emelex.Hub.Search
import Emelex.Hub.SearchPages
import Emelex.Hub.SearchWalk
import Emelex.Lib.JsonText
import Emelex.Lib.JsonOrder
import Emelex.Engine.ToJson
import Emelex.Engine.ToJsonText
import Emelex.Lib.Bisection
import Emelex.Lib.CheckedNat
import Emelex.Models.FitEstimate
import Emelex.Models.FitSearch
import Emelex.Models.LoadAgreement
import Emelex.Agent.CappedOutput
import Emelex.Agent.FindFiles
import Emelex.Engine.NumberOrder
import Emelex.Engine.ImageGeometry
import Emelex.Memory.CompactionSource
import Emelex.Lib.ChunkedLayers
import Emelex.Models.RecurrentLayers
import Emelex.Models.ChunkInvariance
import Emelex.Engine.Wav
import Emelex.Engine.WavFiles
import Emelex.Engine.WavDecoding
import Emelex.Engine.MediaPrompt
import Emelex.Engine.MediaSplice
import Emelex.Engine.MediaBinding
import Emelex.Memory.AssetSafety
import Emelex.Lib.Budget
import Emelex.Engine.SchemaSemantics
import Emelex.Engine.SchemaSoundness
import Emelex.Memory.Knowledge
import Emelex.Memory.KnowledgeUpkeep
import Emelex.Memory.KnowledgeVersions
import Emelex.Models.BindingSafety
import Emelex.Config.ProjectNarrowing
import Emelex.Config.PolicyNarrowing
