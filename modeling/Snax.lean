import Snax.Sync.Machine
import Snax.Sync.NearestEven
import Snax.Sync.MixedRadix
import Snax.Sync.Credit
import Snax.Sync.Replay
import Snax.Counter
import Snax.Queue
import Snax.Params
import Snax.AddressGenUnit
import Snax.AddressLaw
import Snax.Reader
import Snax.ReaderMemory
import Snax.ReaderReplay
import Snax.ReaderReuse
import Snax.Sync.Join
import Snax.Writer
import Snax.WriterPairing
import Snax.CsrLayout
import Snax.CsrMap
import Snax.ReqRspManager
import Snax.Sync.BitList
import Snax.Sync.Framing
import Snax.WidthConverter
import Snax.XdmaCfg
import Snax.XdmaCfgLink
import Snax.Streamer
import Snax.StreamerIdle
import Snax.SucBist
import Snax.Arbiter
import Snax.AsyncQueue
import Snax.PortSharing
import Snax.SparseConfig
import Snax.SparseInterconnect
import Snax.SparseRouting
import Snax.ChainedWrite
import Snax.Sync.ReduceTree
import Snax.Sync.Rendezvous
import Snax.XdmaAccounting
import Snax.XdmaLoopback
import Snax.Sync.Worker
import Snax.XdmaRetire
import Snax.Sync.Overlay
import Snax.XdmaDriver
import Snax.XdmaProgramming
import Snax.XdmaAgreement
import Snax.FabricArbiter
import Snax.SimBanks
import Snax.DataCut
import Snax.PipelinedRescaleSIMD
import Snax.BlockGemm
import Snax.BlockGemmLaw
import Snax.BlockGemmRescaleSIMD
import Snax.XdmaDataPath
import Snax.CycStreamer
import Snax.StreamerConservation
import Snax.DmaEngine
import Snax.AccelEngine
import Snax.AccelSteps
import Snax.AccelUnits
import Snax.AccelCommits
import Snax.AccelFrame
import Snax.AccelConfigure
import Snax.GrantAttribution
import Snax.StaleReads
import Snax.FifoBounds
import Snax.AccelAlike
import Snax.AccelIsolation
import Snax.Sync.Strides
import Snax.LayoutAudit
import Snax.Sync.Bisect
import Snax.SafeToStart
import Snax.Verdict
import Snax.Sync.Bytes
import Snax.PreSwizzle
import Snax.SimWorld
import Snax.DmaCompletion
import Snax.Interp
import Snax.Sync.Rv32
import Snax.InterpConforms
import Snax.Scheduler
import Snax.ReservedWords
import Snax.Causality
import Snax.SimClock
import Snax.Sync.Cores
import Snax.Sync.SlotRing
import Snax.RefillLoop
import Snax.PsumRing
import Snax.DoublePaced
import Snax.ReadChannel
import Snax.BlockGemmIdle
import Snax.Sync.Groups
import Snax.DataPathExtension
import Snax.StreamReduction
import Snax.GroupCounter
import Snax.ElementwiseAddToLong
import Snax.RescaleUp
import Snax.SkipBlock
import Snax.Remappings
import Snax.BatchPacking
import Snax.Int32ToFp16
import Snax.Transposer
import Snax.ExtensionHost
import Snax.HostBusy
import Snax.Sync.Wire
import Snax.RescaleGolden
import Snax.RescaleExact
import Snax.RescaleUpExact
import Snax.RescaleDown
import Snax.AdderTree
import Snax.Reshuffler
import Snax.ReshufflerLaw
import Snax.ParallelSerialConverter
import Snax.DmaBeats
import Snax.RescaleDownEfficient
import Snax.Deadlock
import Snax.CounterRuns
import Snax.DataCutRegs
import Snax.SplitterRuns
import Snax.RegQueue
import Snax.PagedMemory
import Snax.TilePipeline
import Snax.TileLockstep
import Snax.TileBuffers
import Snax.TileHazards
import Snax.RuntimeBarrier
import Snax.HwBarrier
import Snax.RuntimeGlobalBarrier
import Snax.RuntimeReduction
import Snax.RuntimeEu
import Snax.SimbacoreDriver
import Snax.RuntimeDmQueue
import Snax.RuntimeKmp
import Snax.SpatialArray
import Snax.VersaCore
import Snax.VersaCoreTile
import Snax.VersaCoreLaw
import Snax.VersaCoreTasks
