import MarketForge.Library.Fallible
import MarketForge.Serving.PagedKvCache
import MarketForge.Serving.CacheEffects
import MarketForge.Serving.PageOwnership
import MarketForge.Serving.CacheAccounting
import MarketForge.Serving.SchedulerEffects
import MarketForge.Serving.SchedulerLifecycle
import MarketForge.Serving.SchedulerAccounting
import MarketForge.Grammar.Action
import MarketForge.Library.RunningBest
import MarketForge.Market.BatchMarket
import MarketForge.Market.ClearEffects
import MarketForge.Market.ClearingPrice
import MarketForge.Market.Conservation
import MarketForge.Grammar.TrieDfa
import MarketForge.Grammar.TrieGrowth
import MarketForge.Grammar.Recognition
import MarketForge.Model.JsonParser
import MarketForge.Model.JsonGrammar
import MarketForge.Model.JsonSound
import MarketForge.Model.JsonComplete
import MarketForge.Core.Shape
import MarketForge.Library.Tiling
import MarketForge.Model.Safetensors
import MarketForge.Model.SafetensorsSound
import MarketForge.Library.Loops
import MarketForge.Cpu.Operators
import MarketForge.Cpu.DecoderLayer
import MarketForge.Cpu.SmolLm2
import MarketForge.Cpu.Network
import MarketForge.Cpu.OperatorEffects
import MarketForge.Grammar.Masks
import MarketForge.Serving.PageTables
import MarketForge.Serving.CacheChecks
import MarketForge.Serving.CacheMetrics
import MarketForge.Cuda.Greedy
import MarketForge.Cuda.RestrictedHead
import MarketForge.Serving.SchedulerFairness
import MarketForge.Serving.SchedulerRotation
import MarketForge.Market.Residual
import MarketForge.Market.OrderIndependence
import MarketForge.Cpu.CallEffects
import MarketForge.Cpu.LayerEffect
import MarketForge.Market.ExactAdmission
import MarketForge.Model.SafetensorsDelimited
import MarketForge.Serving.ReservationSettlement
import MarketForge.Cuda.GreedyRow
import MarketForge.Model.LoadedWeights
import MarketForge.Model.WeightBinding
import MarketForge.Cpu.Binary32
import MarketForge.Cpu.Materialize
import MarketForge.Cpu.MaterializeExact
import MarketForge.Model.JsonUtf8
import MarketForge.Model.SafetensorsComplete
import MarketForge.Library.Attempts
import MarketForge.Workloads.RadarSimulation
import MarketForge.Serving.CacheGrowth
import MarketForge.Workloads.RadarCache
import MarketForge.Workloads.RadarScheduling
import MarketForge.Workloads.RadarService
import MarketForge.Workloads.RadarCompletion
import MarketForge.Workloads.RadarOverflow
import MarketForge.Cpu.LayerStage
import MarketForge.Cpu.OperatorFrames
import MarketForge.Cpu.ModelLayout
import MarketForge.Cpu.ModelForward
import MarketForge.Library.Observation
import MarketForge.Cpu.ModelPass
import MarketForge.Cpu.ModelRuns
import MarketForge.Cpu.IncrementalDecode
import MarketForge.Serving.SchedulerBatches
import MarketForge.Serving.SchedulerTraces
import MarketForge.Serving.SchedulerCancellation
import MarketForge.Market.PriorityFills
import MarketForge.Grammar.Acceptance
import MarketForge.Grammar.CatalogGenerator
import MarketForge.Grammar.MarketCatalog
import MarketForge.Cuda.RestrictedBlock
import MarketForge.Cuda.RestrictedContract
import MarketForge.Tools.InferenceContract
import MarketForge.Tools.ContractFields
import MarketForge.Tools.ContractSections
import MarketForge.Tools.EvidenceTotality
import MarketForge.Library.GrowingLog
import MarketForge.Tools.TrialLedger
import MarketForge.Tools.LedgerFile
import MarketForge.Tools.LedgerSafety
import MarketForge.Core.RowMajor
import MarketForge.Core.ElementCount
import MarketForge.Cpu.ModelFootprint
import MarketForge.Cpu.InPlace
import MarketForge.Grammar.Builders
import MarketForge.Cpu.RopeRelative
import MarketForge.Cpu.Attention
import MarketForge.Cpu.AttentionRefines
import MarketForge.Cpu.LayerInput
import MarketForge.Cpu.LayerFailure
import MarketForge.Library.Checked
import MarketForge.Cpu.CheckedOperators
import MarketForge.Cpu.CheckedCalls
import MarketForge.Cpu.CheckedLayer
import MarketForge.Library.Scanner
import MarketForge.Model.DecodedStrings
import MarketForge.Model.CheckedUtf8
import MarketForge.Model.CheckedTokens
import MarketForge.Model.CheckedStrings
import MarketForge.Model.CheckedParser
import MarketForge.Cpu.GreedyScan
import MarketForge.Serving.ReserveExact
import MarketForge.Library.PriceSupport
import MarketForge.Market.GainsFromTrade
import MarketForge.Market.AgentWorth
import MarketForge.Library.Simulation
import MarketForge.Serving.TokenLedger
import MarketForge.Library.Lookup
import MarketForge.Serving.CacheRefines
import MarketForge.Serving.SchedulerBudget
import MarketForge.Serving.ServingLoop
import MarketForge.Library.BlockTree
import MarketForge.Library.BlockSchedule
import MarketForge.Cuda.DeviceRow
import MarketForge.Cuda.AttentionKernel
import MarketForge.Cuda.AttentionRace
import MarketForge.Cuda.RmsNormKernel
import MarketForge.Library.BlockGrid
import MarketForge.Cuda.DeviceGrid
import MarketForge.Cuda.KernelLaunches
import MarketForge.Library.DisjointThreads
import MarketForge.Cuda.MapKernels
import MarketForge.Cuda.RopeKernel
import MarketForge.Cuda.KvCacheKernel
import MarketForge.Workloads.RadarPlan
import MarketForge.Cuda.DeviceReals
