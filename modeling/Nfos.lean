import Nfos.Lib.Path
import Nfos.Lib.Chains
import Nfos.Lib.Loop
import Nfos.Lib.Run
import Nfos.Lib.Txn
import Nfos.ListHeads
import Nfos.Layout
import Nfos.Cell
import Nfos.AllocateIndex
import Nfos.IndexLists
import Nfos.InitialCells
import Nfos.DoubleChain
import Nfos.Lib.Lru
import Nfos.DoubleChainExp
import Nfos.ExpiryQueues
import Nfos.Lib.BoundedMap
import Nfos.Lib.Probe
import Nfos.Map
import Nfos.MapRefinement
import Nfos.ConcurrentDoubleChain
import Nfos.ConcurrentSections
import Nfos.ConcurrentRuns
import Nfos.ConcurrentInvariant
import Nfos.ConcurrentExclusion
import Nfos.ConcurrentMap
import Nfos.ConcurrentCalls
import Nfos.Lib.Registry
import Nfos.PktSetManager
import Nfos.PktSetInvariant
import Nfos.PktSetOperations
import Nfos.PktSetRefinement
import Nfos.PktSetExpiry
import Nfos.ConcurrentLocality
import Nfos.PktSetInterleavings
import Nfos.DataPlane
import Nfos.DataPlaneRollback
import Nfos.DataPlaneRuns
import Nfos.DataPlaneBatches
import Nfos.DataPlaneDelivery
import Nfos.MergeableObj
import Nfos.MergeableObjStaleness
import Nfos.Cht
import Nfos.Lib.Fallible
import Nfos.Lib.LongestMatch
import Nfos.Mtrie
import Nfos.MtrieInvariant
import Nfos.MtrieRoutes
import Nfos.MtrieRuns
import Nfos.Lib.Txs
import Nfos.Lib.Directory
import Nfos.MapLookup
import Nfos.Lib.Casts
import Nfos.Sessions
import Nfos.NfUtil
import Nfos.FwNat
import Nfos.Vectors
import Nfos.EiNat
import Nfos.EiNatFrame
import Nfos.EiNatUsers
import Nfos.EiNatMappings
import Nfos.Uncontended
import Nfos.FwNatRetries
import Nfos.FwNatTransparent
import Nfos.ChtLookup
import Nfos.ExpirySweep
import Nfos.ConcurrentAllocation
import Nfos.InitialInts
import Nfos.InitialStock
import Nfos.InitialAccesses
import Nfos.Admission
import Nfos.PktSetSweep
import Nfos.Fw
import Nfos.PacketTable
import Nfos.BatchedTurns
import Nfos.FlowAccumulators
import Nfos.Maglev
import Nfos.MaglevPaths
import Nfos.HandlerCalls
import Nfos.DispatchedPackets
import Nfos.HandlerRecords
import Nfos.DropDecisions
import Nfos.ExtTuples
import Nfos.MapLocks
import Nfos.ScalabilityProfiler
import Nfos.ControlCore
import Nfos.McsLock
import Nfos.Lib.Lockstep
import Nfos.ParsedPackets
import Nfos.Lib.Rings
import Nfos.EiNatLists
import Nfos.EiNatUserLists
import Nfos.EiNatListSteps
import Nfos.EiNatListRuns
import Nfos.DataPlaneEnds
import Nfos.PacketSequence
import Nfos.BatchSequence
import Nfos.BatchAgreement
import Nfos.FwDevices
import Nfos.FwPolicy
import Nfos.AgeingTable
import Nfos.Bridge
import Nfos.BridgeRuns
import Nfos.BridgeSteps
import Nfos.MaglevBackends
import Nfos.MaglevRuns
import Nfos.MaglevLiveness
import Nfos.PeriodicExpiry
import Nfos.PeriodicSweeps
import Nfos.BridgeForwarding
import Nfos.MainLoop
import Nfos.Lib.Bytes
import Nfos.PacketHeaders
import Nfos.PacketContents
import Nfos.FwNatFrames
import Nfos.MtriePool
import Nfos.RouteTables
import Nfos.FwForwarding
import Nfos.MaglevRoutes
import Nfos.MaglevPolicy
import Nfos.InitialInts
