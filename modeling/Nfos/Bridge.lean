import Nfos.AgeingTable
import Nfos.DataPlane
import Mathlib.Tactic.IntervalCases

/-! `bridge`: it learns the source addresses of packets and sends a packet to the device behind
which its destination was learned. -/
namespace Nfos.Bridge
open Txn Tx Function Vectors Map DoubleChainExp Linked DataPlane AgeingTable

/-- `struct rte_ether_addr` -/
structure RteEtherAddr where
  addrBytes : Vector Nat 6
  deriving DecidableEq

def etherAddrEq (a b : RteEtherAddr) : Bool :=
  a.addrBytes[0] == b.addrBytes[0] && a.addrBytes[1] == b.addrBytes[1] && a.addrBytes[2] == b.addrBytes[2] &&
    a.addrBytes[3] == b.addrBytes[3] && a.addrBytes[4] == b.addrBytes[4] && a.addrBytes[5] == b.addrBytes[5]

theorem etherAddrEq_iff (a b : RteEtherAddr) : etherAddrEq a b = true ↔ a = b := by
  simp only [etherAddrEq, Bool.and_eq_true, beq_iff_eq]
  constructor
  · intro same
    obtain ⟨a⟩ := a
    obtain ⟨b⟩ := b
    congr
    ext i below
    interval_cases i <;> tauto
  · rintro rfl
    simp

/-- `crc32si` is a builtin of the compiler. -/
def etherAddrHash (crc32si : Nat → Nat → Nat) (id : RteEtherAddr) : Nat :=
  crc32si (crc32si (crc32si (crc32si (crc32si (crc32si 0 id.addrBytes[0]) id.addrBytes[1]) id.addrBytes[2])
    id.addrBytes[3]) id.addrBytes[4]) id.addrBytes[5]

structure MacEntry where
  dev : Nat
  time : Int
  deriving DecidableEq

/-- The part of a packet that the handler reads. -/
structure EtherHeader where
  sAddr : RteEtherAddr
  dAddr : RteEtherAddr
  deriving DecidableEq

/-- What the handlers only read; the validity is in cycles. -/
structure Setup where
  map : NfosMap RteEtherAddr
  dynCapacity : Nat
  validity : Int
  refreshInterval : Nat
  numCores : Nat

/-- The arrays. With `F := Log` they are those of a transaction. -/
structure NfState (F : Type → Type) where
  dynHeap : F NfosDchainExpCell
  dynMap : F (NfosMapEntry RteEtherAddr)
  dynVals : F MacEntry
  dynMacs : F RteEtherAddr

def NfState.start (s : NfState Elements) : NfState Log :=
  ⟨.start s.dynHeap, .start s.dynMap, .start s.dynVals, .start s.dynMacs⟩

def NfState.view (l : NfState Log) : NfState Elements :=
  ⟨l.dynHeap.view, l.dynMap.view, l.dynVals.view, l.dynMacs.view⟩

@[simp] theorem NfState.view_start (s : NfState Elements) : s.start.view = s := rfl

/-- The configuration in `bridge_config.h`; the number of cores is that of `LCORES`. An index is
an `int`. -/
structure Config where
  macTableSize : Nat
  expirationTime : Int
  refreshInterval : Nat
  numCores : Nat
  size : 0 < macTableSize ∧ macTableSize < 2 ^ 31

/-- `memory` is the memory that is allocated. -/
def nfInit (config : Config) (crc32si : Nat → Nat → Nat) (tscHz : Nat) (memory : NfState Elements) :
    Option (Setup × NfState Elements) := do
  let (map, dynMap) := nfosMapAllocate etherAddrEq (etherAddrHash crc32si) config.macTableSize memory.dynMap
  let dynHeap ← nfosDchainExpAllocate tscHz memory.dynHeap config.macTableSize config.expirationTime config.numCores
  return (⟨map, config.macTableSize, dynHeap.validityDuration, config.refreshInterval, config.numCores⟩,
    ⟨dynHeap.cells, dynMap, fun _ => ⟨0, int64Max⟩, fun _ => ⟨Vector.replicate 6 0⟩⟩)

section Arrays
variable {α : Type}

def onHeap (program : Tx NfosDchainExpCell α) : Txs (NfState Log) α :=
  Txs.on 0 (·.dynHeap) (fun t l => { l with dynHeap := t }) program

def onMap (program : Tx (NfosMapEntry RteEtherAddr) α) : Txs (NfState Log) α :=
  Txs.on 1 (·.dynMap) (fun t l => { l with dynMap := t }) program

def onVals (program : Tx MacEntry α) : Txs (NfState Log) α :=
  Txs.on 2 (·.dynVals) (fun t l => { l with dynVals := t }) program

def onMacs (program : Tx RteEtherAddr α) : Txs (NfState Log) α :=
  Txs.on 3 (·.dynMacs) (fun t l => { l with dynMacs := t }) program

end Arrays

section Handlers
variable (setup : Setup)

/-- What became of the source address. The result of `nfos_map_put` is not looked at. -/
inductive Learning where
  | known
  | full
  | added (stored : Bool)
  deriving DecidableEq

/-- Only refresh if last refreshed more than `REFRESH_INTERVAL` ago. -/
def refreshMac (index : Int) (now : Int) : Txs (NfState Log) Unit :=
  atIndex setup.dynCapacity index fun i => do
    let value ← onVals (nfosVectorBorrow i)
    if now > value.time + setup.refreshInterval then
      let _ ← onHeap (nfosDchainExpRejuvenateIndex setup.validity setup.numCores i now)
      let value ← onVals (nfosVectorBorrowMut i)
      onVals (modify value fun entry => { entry with time := now })
    else
      return ()

def addMac (core : Nat) (srcMac : RteEtherAddr) (incomingDev : Nat) (now : Int) : Txs (NfState Log) Learning := do
  match ← onHeap (nfosDchainExpAllocateNewIndex setup.validity setup.numCores core now) with
  | none => return .full
  | some index => do
    let key ← onMacs (nfosVectorBorrowMut index)
    let value ← onVals (nfosVectorBorrowMut index)
    onMacs (modify key fun _ => srcMac)
    onVals (modify value fun _ => ⟨incomingDev, now⟩)
    let stored ← onMap (nfosMapPut setup.map srcMac index)
    return .added stored

def learnMac (core : Nat) (srcMac : RteEtherAddr) (incomingDev : Nat) (now : Int) : Txs (NfState Log) Learning := do
  match ← onMap (nfosMapGet setup.map srcMac) with
  | some index => do
    refreshMac setup index now
    return .known
  | none => addMac setup core srcMac incomingDev now

def forwardPkt (dstMac : RteEtherAddr) : Txs (NfState Log) (List Action) := do
  match ← onMap (nfosMapGet setup.map dstMac) with
  | some outIndex => atIndex setup.dynCapacity outIndex fun i => do
    let value ← onVals (nfosVectorBorrow i)
    return [.sendPkt value.dev]
  | none => return [.floodPkt]

/-- A packet whose source does not fit into the table goes nowhere. -/
def pktHandler (core : Nat) (header : EtherHeader) (incomingDev : Nat) (now : Int) :
    Txs (NfState Log) (Learning × List Action) := do
  let learning ← learnMac setup core header.sAddr incomingDev now
  if learning = .full then
    return (learning, [])
  else
    let actions ← forwardPkt setup header.dAddr
    return (learning, actions)

/-- The table that `exp_mac` sweeps. -/
def macTable : Arrays RteEtherAddr (NfState Log) (Log MacEntry) where
  mapArray := 1
  map := (·.dynMap)
  setMap t l := { l with dynMap := t }
  keysArray := 3
  keys := (·.dynMacs)
  setKeys t l := { l with dynMacs := t }
  chainArray := 0
  chain := (·.dynHeap)
  setChain t l := { l with dynHeap := t }
  rest := (·.dynVals)
  map_setMap _ _ := rfl
  map_setChain _ _ := rfl
  keys_setMap _ _ := rfl
  keys_setChain _ _ := rfl
  chain_setMap _ _ := rfl
  chain_setChain _ _ := rfl
  setKeys_keys _ := rfl
  rest_setMap _ _ := rfl
  rest_setChain _ _ := rfl

/-- The loop of `exp_mac`. -/
def expMacLoop (now : Int) : Txs (NfState Log) Sweep := sweepAll macTable setup.map setup.numCores setup.dynCapacity now

end Handlers
end Nfos.Bridge
