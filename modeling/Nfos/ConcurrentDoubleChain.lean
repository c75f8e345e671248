import Nfos.InitialCells

/-! `ConcurrentDoubleChain`: the index allocator of the packet sets. Its cells
are plain memory; every function is cut into the sections that a lock protects
and the sections between them that only the owner of a partition runs. -/
namespace Nfos.ConcurrentDoubleChain
open Function Linked

/-- `INT64_MAX` -/
def int64Max : Int := 2 ^ 63 - 1

/-- The fields that `concurrent_dchain_cell` adds. `mapChainNext` is the index
of the next cell in the same map chain, -1 at its tail. -/
structure ChainData (Id : Type) where
  time : Int
  id : Id
  mapChainNext : Int

abbrev ConcurrentDchainCells (Id : Type) := Cells (ChainData Id)

variable {Id : Type}

namespace CellData
variable (cells : ConcurrentDchainCells Id) (i : Nat)

def setTime (time : Int) : ConcurrentDchainCells Id := cells.setExtra i { cells.extraOf i with time := time }

def setId (id : Id) : ConcurrentDchainCells Id := cells.setExtra i { cells.extraOf i with id := id }

def setMapChainNext (v : Int) : ConcurrentDchainCells Id :=
  cells.setExtra i { cells.extraOf i with mapChainNext := v }

@[simp] theorem nextOf_setTime (v : Int) : (setTime cells i v).nextOf = cells.nextOf := by simp [setTime]
@[simp] theorem prevOf_setTime (v : Int) : (setTime cells i v).prevOf = cells.prevOf := by simp [setTime]
@[simp] theorem indOf_setTime (v : Int) : (setTime cells i v).indOf = cells.indOf := by simp [setTime]
@[simp] theorem extraOf_setTime (v : Int) :
    (setTime cells i v).extraOf = update cells.extraOf i { cells.extraOf i with time := v } := by
  simp [setTime]
@[simp] theorem nextOf_setId (v : Id) : (setId cells i v).nextOf = cells.nextOf := by simp [setId]
@[simp] theorem prevOf_setId (v : Id) : (setId cells i v).prevOf = cells.prevOf := by simp [setId]
@[simp] theorem indOf_setId (v : Id) : (setId cells i v).indOf = cells.indOf := by simp [setId]
@[simp] theorem extraOf_setId (v : Id) :
    (setId cells i v).extraOf = update cells.extraOf i { cells.extraOf i with id := v } := by
  simp [setId]
@[simp] theorem nextOf_setMapChainNext (v : Int) :
    (setMapChainNext cells i v).nextOf = cells.nextOf := by simp [setMapChainNext]
@[simp] theorem prevOf_setMapChainNext (v : Int) :
    (setMapChainNext cells i v).prevOf = cells.prevOf := by simp [setMapChainNext]
@[simp] theorem indOf_setMapChainNext (v : Int) :
    (setMapChainNext cells i v).indOf = cells.indOf := by simp [setMapChainNext]
@[simp] theorem extraOf_setMapChainNext (v : Int) : (setMapChainNext cells i v).extraOf =
    update cells.extraOf i { cells.extraOf i with mapChainNext := v } := by
  simp [setMapChainNext]

end CellData

open CellData

/-- A free cell `i` also initialises the cell that is kept for a related packet
set, `size` cells behind it. -/
def initWrites (size numCores : Nat) : InitWrites (ConcurrentDchainCells Id) where
  allocHead i cells := ((cells.setPrev i i).setNext i i).setInd i (i - allocListHead)
  freeHead i v cells := ((cells.setNext i v).setPrev i v).setInd i (i - freeListHead numCores)
  globHead cells :=
    ((cells.setNext (globalFreeListHead numCores) (globalFreeListHead numCores)).setPrev
      (globalFreeListHead numCores) (globalFreeListHead numCores)).setInd
        (globalFreeListHead numCores) (-1)
  freeCell i v cells :=
    setMapChainNext (setMapChainNext (setTime (((cells.setNext i v).setPrev i v).setInd i (-1)) i
      int64Max) i (-1)) (i + size) (-1)

def concurrentDchainImplInit (cells : ConcurrentDchainCells Id) (size numCores : Nat) :
    Option (ConcurrentDchainCells Id) :=
  initLists (initWrites size numCores) (size + numCores) size numCores cells

def concurrentDchainImplHasFreeIndexes (numCores : Nat) (cells : ConcurrentDchainCells Id)
    (core : Nat) : Bool :=
  let alHeadInd := core <<< listHeadPadding
  cells.nextOf (freeListHead numCores + alHeadInd) ≠ freeListHead numCores + alHeadInd

/-- The locked part of `allocate_new_index`: extract the first link of the own
free list. -/
def popLocal (numCores core : Nat) (cells : ConcurrentDchainCells Id) :
    Option Nat × ConcurrentDchainCells Id :=
  let alHeadInd := core <<< listHeadPadding
  let flHead := freeListHead numCores + alHeadInd
  let allocated := cells.nextOf flHead
  if allocated = freeListHead numCores + alHeadInd then
    (none, cells)
  else
    let cells := cells.setNext flHead (cells.nextOf allocated)
    (some allocated, cells.setPrev flHead (cells.nextOf flHead))

/-- The unlocked part of both allocations: add the link to the "new" end of the
"alloc" chain. -/
def linkNew (core allocated : Nat) (time : Int) (cells : ConcurrentDchainCells Id) :
    ConcurrentDchainCells Id :=
  let alHeadInd := core <<< listHeadPadding
  let alHead := allocListHead + alHeadInd
  let cells := cells.setNext allocated (allocListHead + alHeadInd)
  let cells := cells.setPrev allocated (cells.prevOf alHead)
  let cells := cells.setInd allocated alHeadInd
  let cells := setTime cells allocated time
  let cells := cells.setNext (cells.prevOf alHead) allocated
  cells.setPrev alHead allocated

/-- Move a free index from a local list to the global list. -/
def fillGlobalFreeList (numCores core : Nat) (cells : ConcurrentDchainCells Id) :
    ConcurrentDchainCells Id :=
  let flHeadInd := core <<< listHeadPadding
  let flHead := freeListHead numCores + flHeadInd
  let glbFlHead := globalFreeListHead numCores
  let allocated := cells.nextOf flHead
  if allocated = freeListHead numCores + flHeadInd then
    cells
  else
    let cells := cells.setNext flHead (cells.nextOf allocated)
    let cells := cells.setPrev flHead (cells.nextOf flHead)
    let cells := cells.setNext allocated (cells.nextOf glbFlHead)
    let cells := cells.setPrev allocated (cells.nextOf allocated)
    let cells := cells.setInd allocated (-1)
    let cells := setTime cells allocated int64Max
    let cells := cells.setNext glbFlHead allocated
    cells.setPrev glbFlHead (cells.nextOf glbFlHead)

/-- Extract the link `allocated` from the global free list. -/
def popGlobal (numCores allocated : Nat) (cells : ConcurrentDchainCells Id) :
    ConcurrentDchainCells Id :=
  let glbFlHead := globalFreeListHead numCores
  let cells := cells.setNext glbFlHead (cells.nextOf allocated)
  cells.setPrev glbFlHead (cells.nextOf glbFlHead)

/-- The unlocked part of `free_index`: the checks, then the extraction of the
link from the "alloc" chain. `none` for the return value 0. -/
def unlinkFreed (numCores index core : Nat) (cells : ConcurrentDchainCells Id) :
    Option (ConcurrentDchainCells Id) :=
  let alHeadInd := core <<< listHeadPadding
  let freed := index + indexShift numCores
  if cells.indOf freed ≠ alHeadInd then
    none
  else
    let freedPrev := cells.prevOf freed
    let freedNext := cells.nextOf freed
    if freedNext = freedPrev ∧ freedPrev ≠ allocListHead + alHeadInd then
      none
    else
      let cells := cells.setNext freedPrev freedNext
      some (cells.setPrev freedNext freedPrev)

/-- The locked part of `free_index`: add the link to the "free" chain. -/
def pushFreed (numCores core freed : Nat) (cells : ConcurrentDchainCells Id) :
    ConcurrentDchainCells Id :=
  let frHead := freeListHead numCores + core <<< listHeadPadding
  let cells := cells.setNext freed (cells.nextOf frHead)
  let cells := cells.setPrev freed (cells.nextOf freed)
  let cells := cells.setInd freed (-1)
  let cells := cells.setNext frHead freed
  cells.setPrev frHead (cells.nextOf frHead)

def concurrentDchainImplGetOldestIndex (numCores core : Nat) (cells : ConcurrentDchainCells Id) :
    Option Nat :=
  let alHeadInd := core <<< listHeadPadding
  let alHead := allocListHead + alHeadInd
  if cells.nextOf alHead = cells.prevOf alHead ∧ cells.nextOf alHead = allocListHead + alHeadInd then
    none
  else
    some (cells.nextOf alHead - indexShift numCores)

/-- The only index of a list is not touched at all, whatever the time is. -/
def concurrentDchainImplRejuvenateIndex (numCores index core : Nat) (time : Int)
    (cells : ConcurrentDchainCells Id) : Bool × ConcurrentDchainCells Id :=
  let alHeadInd := core <<< listHeadPadding
  let alHead := allocListHead + alHeadInd
  let lifted := index + indexShift numCores
  let liftedNext := cells.nextOf lifted
  let liftedPrev := cells.prevOf lifted
  if cells.indOf lifted ≠ alHeadInd then
    (false, cells)
  else if liftedNext = liftedPrev then
    if liftedNext ≠ allocListHead + alHeadInd then (false, cells) else (true, cells)
  else
    let cells := cells.setNext liftedPrev liftedNext
    let cells := cells.setPrev liftedNext liftedPrev
    let alHeadPrev := cells.prevOf alHead
    let cells := cells.setNext lifted (allocListHead + alHeadInd)
    let cells := cells.setPrev lifted alHeadPrev
    let cells := setTime cells lifted time
    let cells := cells.setNext alHeadPrev lifted
    (true, cells.setPrev alHead lifted)

end Nfos.ConcurrentDoubleChain
