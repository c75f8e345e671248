import Nfos.ConcurrentCalls
import Nfos.NextPow2

/-! The packet-set manager: packet-set ids are mapped to the slots of their
states. A registration is logged while the handler runs and performed after the
handler has committed. -/
namespace Nfos.PktSetManager
open Function ConcurrentDoubleChain CellData ConcurrentMap
variable {Id S : Type}

/-- `MAX_NUM_PKT_SETS` of the default build. -/
def maxNumPktSetsDefault : Nat := 1369000

/-- The constants of `init_pkt_set_manager`; there is one partition for each of
the data plane cores. -/
structure Config (Id : Type) where
  numCores : Nat
  maxNumPktSets : Nat
  pktSetIdEq : Id → Id → Bool
  pktSetIdHash : Id → Nat
  pktSetValidityDuration : Int
  hasRelatedPktSets : Bool

structure AddPktSetLogEntry (Id S : Type) where
  addPktSet : Bool
  relatedPktSetId : Id
  pktSetState : S

/-- The memory of the manager. The log entries are those of the cores. -/
structure Manager (Id S : Type) where
  buckets : Buckets
  cells : ConcurrentDchainCells Id
  pktSetState : Nat → S
  log : Nat → AddPktSetLogEntry Id S

/-- `__builtin_ctz`, undefined for 0 -/
def builtinCtz (v : Nat) : Nat := ((List.range 32).find? v.testBit).getD 32

/-- Round to the next power of 2, twice. -/
def Config.mapSizePerPartition (cfg : Config Id) : Nat :=
  let mapSize := if cfg.hasRelatedPktSets then cfg.maxNumPktSets * 2 else cfg.maxNumPktSets
  let mapSize := nextPow2 mapSize
  nextPow2 (mapSize / cfg.numCores)

/-- The entries that the map can hold: a packet set and a related one for each index. -/
def Config.maxNumEntries (cfg : Config Id) : Nat := cfg.maxNumPktSets * 2

def Config.map (cfg : Config Id) : ConcurrentMap Id where
  numBucketsPerPartitionLogTwo := builtinCtz cfg.mapSizePerPartition
  numBucketsPerPartition := cfg.mapSizePerPartition
  keysEq := cfg.pktSetIdEq
  khash := cfg.pktSetIdHash

section Operations
variable (cfg : Config Id)

/-- All allocations of memory succeed. -/
def initPktSetManager (memory : Manager Id S) : Option (Manager Id S) := do
  let cells ← concurrentDchainImplInit memory.cells cfg.maxNumPktSets cfg.numCores
  return { memory with
    cells := cells
    buckets := concurrentMapAllocate cfg.map memory.buckets cfg.numCores }

def addPktSetLogClear (core : Nat) (m : Manager Id S) : Manager Id S :=
  { m with log := update m.log core { m.log core with addPktSet := false } }

def addPktSetLog (state : S) (pktSetPartition : Nat) (relatedPktSetId : Option Id) (m : Manager Id S) :
    Bool × Manager Id S :=
  if !concurrentDchainImplHasFreeIndexes cfg.numCores m.cells pktSetPartition then
    (false, m)
  else
    let related := relatedPktSetId.getD (m.log pktSetPartition).relatedPktSetId
    (true, { m with log := update m.log pktSetPartition ⟨true, related, state⟩ })

/-- The part of `add_pkt_set_commit` behind the allocation. -/
def storePktSet (pktSetId : Id) (pktSetPartition index : Nat) (m : Manager Id S) :
    Option (Manager Id S) := do
  let entry := m.log pktSetPartition
  let (buckets, cells) ← concurrentMapPut cfg.numCores cfg.maxNumEntries cfg.map m.buckets m.cells
    pktSetId pktSetPartition index
  let (buckets, cells) ←
    if cfg.hasRelatedPktSets then
      concurrentMapPut cfg.numCores cfg.maxNumEntries cfg.map buckets cells entry.relatedPktSetId
        pktSetPartition (index + cfg.maxNumPktSets)
    else
      some (buckets, cells)
  return { m with
    buckets := buckets
    cells := cells
    pktSetState := update m.pktSetState index entry.pktSetState }

/-- `none` if the index stays uninitialised because the allocation fails. -/
def addPktSetCommit (pktSetId : Id) (pktSetPartition : Nat) (time : Int) (m : Manager Id S) :
    Option (Manager Id S) :=
  if (m.log pktSetPartition).addPktSet then
    match concurrentDchainAllocateNewIndex cfg.numCores pktSetPartition time m.cells with
    | (none, _) => none
    | (some index, cells) => storePktSet cfg pktSetId pktSetPartition index { m with cells := cells }
  else
    some m

/-- The slot of the state that is returned with `true`. -/
def getPktSetState (pktSetId : Id) (pktSetPartition : Nat) (time : Int) (m : Manager Id S) :
    Option (Option Nat × Manager Id S) := do
  match ← concurrentMapGet cfg.numCores cfg.maxNumEntries cfg.map m.buckets m.cells pktSetId
      pktSetPartition with
  | none => return (none, m)
  | some index =>
    -- A related packet set shares the slot of the first one.
    let index := if index ≥ cfg.maxNumPktSets then index - cfg.maxNumPktSets else index
    let (_, cells) := concurrentDchainImplRejuvenateIndex cfg.numCores index.toNat pktSetPartition time
      m.cells
    return (some index.toNat, { m with cells := cells })

/-- The runs of `nf_expired_pkt_set_handler` for one packet set, as functions of
the state of the set. The writes of an aborted run to that state remain. -/
structure ExpiredRuns (S : Type) where
  aborted : List (S → S)
  committed : S → S

/-- A packet set that was deleted, and the state its handler committed with. -/
structure Expired (Id S : Type) where
  id : Id
  index : Nat
  state : S

/-- The part of an iteration of the sweep before the index is freed: the handler
runs and the map entry is invalidated. -/
def erasePktSet (runs : ExpiredRuns S) (index pktSetPartition : Nat) (m : Manager Id S) :
    Option (Expired Id S × Manager Id S) := do
  let state := runs.aborted.foldl (fun state run => run state) (m.pktSetState index)
  let key := idOf m.cells (concurrentDchainCellOut cfg.numCores index)
  let (buckets, cells) ← concurrentMapErase cfg.numCores cfg.maxNumEntries cfg.map m.buckets m.cells
    key pktSetPartition
  let (buckets, cells) ←
    if cfg.hasRelatedPktSets then
      concurrentMapErase cfg.numCores cfg.maxNumEntries cfg.map buckets cells
        (idOf cells (concurrentDchainCellOut cfg.numCores (index + cfg.maxNumPktSets))) pktSetPartition
    else
      some (buckets, cells)
  return (⟨key, index, state⟩, { m with
    buckets := buckets
    cells := cells
    pktSetState := update m.pktSetState index (runs.committed state) })

/-- One iteration of the sweep, for the oldest index. -/
def deleteExpired (runs : ExpiredRuns S) (index pktSetPartition : Nat) (m : Manager Id S) :
    Option (Expired Id S × Manager Id S) := do
  let (expired, m) ← erasePktSet cfg runs index pktSetPartition m
  return (expired, { m with
    cells := (concurrentDchainFreeIndex cfg.numCores index pktSetPartition m.cells).2 })

/-- The deleted packet sets in the order of their deletion, the return value is
their number. `handler` gives the runs for the k-th of them. -/
def deleteExpiredPktSets (handler : Nat → ExpiredRuns S) (time : Int) (pktSetPartition : Nat)
    (m : Manager Id S) : Option (List (Expired Id S) × Manager Id S) :=
  let lastTime := time - cfg.pktSetValidityDuration
  Loop.loop (fun s : List (Expired Id S) × Manager Id S =>
      (concurrentDchainHasExpiredIndex cfg.numCores pktSetPartition lastTime s.2.cells).isSome)
    (fun s => do
      let index ← concurrentDchainHasExpiredIndex cfg.numCores pktSetPartition lastTime s.2.cells
      let (expired, m) ← deleteExpired cfg (handler s.1.length) index pktSetPartition s.2
      return (s.1 ++ [expired], m))
    cfg.maxNumPktSets ([], m)

end Operations

/-- The id functions of an NF: equal ids hash equally. -/
structure Config.Lawful (cfg : Config Id) : Prop where
  equivalence : Equivalence fun a b => cfg.pktSetIdEq a b = true
  hash : ∀ a b, cfg.pktSetIdEq a b = true → cfg.pktSetIdHash a = cfg.pktSetIdHash b

/-- The constants under which the manager is set up: there are indexes for every
core, and the number of cells that `concurrent_dchain_allocate` reserves is an `int`. -/
structure Config.Fits (cfg : Config Id) : Prop where
  cores : 0 < cfg.numCores
  room : cfg.numCores ≤ cfg.maxNumPktSets
  small : 2 * cfg.maxNumPktSets + 16 * cfg.numCores + 1 < 2 ^ 31
  unrelated : cfg.hasRelatedPktSets = false

theorem Config.Fits.maxNumPktSets_le {cfg : Config Id} (fits : cfg.Fits) : cfg.maxNumPktSets ≤ 2 ^ 31 := by
  have small := fits.small
  omega

end Nfos.PktSetManager
