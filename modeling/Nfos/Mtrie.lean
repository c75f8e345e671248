import Nfos.Lib.Fallible
import Mathlib.Logic.Function.Basic
import Mathlib.Algebra.Group.Nat.Defs

/-! The 16-8-8 multi-bit trie of the routes. The plies of all tries are taken from one
pool. A leaf is terminal (odd, with an adjacency) or the index of a ply (even). -/
namespace Nfos.Mtrie
open Fallible Function

inductive Fault where
  | exhausted
  | assertion
  | outOfBounds
  | outOfFuel

def ply16Size : Nat := 2 ^ 16

def ply8Size : Nat := 2 ^ 8

structure Ply16 where
  leaves : Nat → Nat
  dstAddressBitsOfLeaves : Nat → Nat

structure Ply8 where
  leaves : Nat → Nat
  dstAddressBitsOfLeaves : Nat → Nat
  nNonEmptyLeafs : Int
  dstAddressBitsBase : Nat

/-- The root plies of all tries and the pool. -/
structure State where
  roots : Nat → Ply16
  plies : Nat → Ply8
  poolIndex : Nat

structure Args where
  dstAddress : Nat
  dstAddressLength : Nat
  adjIndex : Nat

def assert (condition : Bool) : Except Fault Unit :=
  if condition then return () else throw .assertion

section Leaves

def leafIsTerminal (n : Nat) : Bool := n &&& 1 == 1

def leafGetNextPlyIndex (n : Nat) : Except Fault Nat := do
  assert (n &&& 1 == 0)
  return n >>> 1

def leafSetNextPlyIndex (i : Nat) : Except Fault Nat := do
  let l := (0 + 2 * i) % 2 ^ 32
  assert ((← leafGetNextPlyIndex l) == i)
  return l

def leafSetAdjIndex (adjIndex : Nat) : Nat := (1 + 2 * adjIndex) % 2 ^ 32

def leafIsNonEmpty (p : Ply8) (dstByte : Nat) : Int :=
  if p.dstAddressBitsOfLeaves dstByte > p.dstAddressBitsBase then 1 else 0

end Leaves

section Memory

/-- `nfos_vector_borrow_unsafe` on the pool. -/
def borrow (capacity : Nat) (s : State) (index : Nat) : Except Fault Ply8 :=
  if index < capacity then return s.plies index else throw .outOfBounds

/-- An access to the slot of a ply. -/
def inPly (slot : Nat) : Except Fault Unit :=
  if slot < ply8Size then return () else throw .outOfBounds

/-- The ply is changed through a pointer to it. -/
def State.withPly (s : State) (index : Nat) (ply : Ply8) : State :=
  { s with plies := update s.plies index ply }

def State.withRoot (s : State) (m : Nat) (root : Ply16) : State :=
  { s with roots := update s.roots m root }

def Ply8.write (p : Ply8) (slot leaf bits : Nat) : Ply8 :=
  { p with
    leaves := update p.leaves slot leaf
    dstAddressBitsOfLeaves := update p.dstAddressBitsOfLeaves slot bits }

def Ply16.write (p : Ply16) (slot leaf bits : Nat) : Ply16 :=
  ⟨update p.leaves slot leaf, update p.dstAddressBitsOfLeaves slot bits⟩

def Ply8.addNonEmpty (p : Ply8) (n : Int) : Ply8 :=
  { p with nNonEmptyLeafs := p.nNonEmptyLeafs + n }

end Memory

def ip4MtrieInit : Ply16 := ⟨fun _ => 1, fun _ => 0⟩

def ply8Init (init prefixLen plyBaseLen : Nat) : Ply8 where
  nNonEmptyLeafs := if prefixLen > plyBaseLen then ply8Size else 0
  dstAddressBitsOfLeaves _ := prefixLen
  dstAddressBitsBase := plyBaseLen
  leaves _ := init

/-- The pool is exhausted when the assertion of `mtrie_vector_get` fails. -/
def mtrieVectorGet (capacity : Nat) (s : State) : Except Fault (Nat × State) :=
  if s.poolIndex < capacity then return (s.poolIndex, { s with poolIndex := s.poolIndex + 1 })
  else throw .exhausted

def plyCreate (capacity : Nat) (s : State) (initLeaf leafPrefixLen plyBaseLen : Nat) :
    Except Fault (Nat × State) := do
  let (index, s) ← mtrieVectorGet capacity s
  let leaf ← leafSetNextPlyIndex index
  return (leaf, s.withPly index (ply8Init initLeaf leafPrefixLen plyBaseLen))

/-- The new leaf goes into all less specific slots of the ply and of the plies below. -/
def setPlyWithMoreSpecificLeaf (capacity newLeaf newLeafDstAddressBits : Nat) :
    Nat → Nat → State → Except Fault State
  | 0, _, _ => throw .outOfFuel
  | fuel + 1, index, s => do
    assert (leafIsTerminal newLeaf)
    forRange ply8Size (fun i s => do
      let ply ← borrow capacity s index
      let oldLeaf := ply.leaves i
      if !leafIsTerminal oldLeaf then
        let sub ← leafGetNextPlyIndex oldLeaf
        setPlyWithMoreSpecificLeaf capacity newLeaf newLeafDstAddressBits fuel sub s
      else if newLeafDstAddressBits ≥ ply.dstAddressBitsOfLeaves i then
        let ply := ply.write i newLeaf newLeafDstAddressBits
        return s.withPly index (ply.addNonEmpty (leafIsNonEmpty ply i))
      else return s) s

/-- The slots that the address maps to in this ply. -/
def setLeafHere (capacity : Nat) (a : Args) (descend : Nat → State → Except Fault State) (index : Nat) (i : Nat)
    (s : State) : Except Fault State := do
  inPly i
  let oldPly ← borrow capacity s index
  let oldLeaf := oldPly.leaves i
  if a.dstAddressLength ≥ oldPly.dstAddressBitsOfLeaves i then
    let newLeaf := leafSetAdjIndex a.adjIndex
    if leafIsTerminal oldLeaf then
      let ply := (oldPly.addNonEmpty (-leafIsNonEmpty oldPly i)).write i newLeaf a.dstAddressLength
      return s.withPly index (ply.addNonEmpty (leafIsNonEmpty ply i))
    else
      let newPly ← leafGetNextPlyIndex oldLeaf
      setPlyWithMoreSpecificLeaf capacity newLeaf a.dstAddressLength 4 newPly s
  else if !leafIsTerminal oldLeaf then
    descend (← leafGetNextPlyIndex oldLeaf) s
  else return s

def setLeaf (capacity : Nat) (a : Args) : Nat → Nat → Nat → State → Except Fault State
  | 0, _, _, _ => throw .outOfFuel
  | fuel + 1, dstAddressByteIndex, oldPlyIndex, s => do
    let _ ← borrow capacity s oldPlyIndex
    assert (a.dstAddressLength ≤ 32)
    assert (dstAddressByteIndex < 32 / 8)
    let nDstBitsNextPlies : Int := a.dstAddressLength - 8 * (dstAddressByteIndex + 1)
    let dstByte := (a.dstAddress >>> (24 - 8 * dstAddressByteIndex)) &&& 0xFF
    if nDstBitsNextPlies ≤ 0 then
      let nDstBitsThisPly := if 8 < -nDstBitsNextPlies then 8 else (-nDstBitsNextPlies).toNat
      forRange (1 <<< nDstBitsThisPly) (fun i s =>
        setLeafHere capacity a (setLeaf capacity a fuel (dstAddressByteIndex + 1)) oldPlyIndex (dstByte + i) s) s
    else
      let plyBaseLen := 8 * (dstAddressByteIndex + 1)
      inPly dstByte
      let oldPly ← borrow capacity s oldPlyIndex
      let oldLeaf := oldPly.leaves dstByte
      if leafIsTerminal oldLeaf then
        let nonEmpty := leafIsNonEmpty oldPly dstByte
        let s := s.withPly oldPlyIndex (oldPly.addNonEmpty (-nonEmpty))
        let (newLeaf, s) ← plyCreate capacity s oldLeaf (oldPly.dstAddressBitsOfLeaves dstByte) plyBaseLen
        let index ← leafGetNextPlyIndex newLeaf
        -- the ply is fetched again, since the new one may move the pool
        let oldPly ← borrow capacity s oldPlyIndex
        let oldPly := oldPly.write dstByte newLeaf plyBaseLen
        let oldPly := oldPly.addNonEmpty (leafIsNonEmpty oldPly dstByte)
        assert (oldPly.nNonEmptyLeafs ≥ 0)
        setLeaf capacity a fuel (dstAddressByteIndex + 1) index (s.withPly oldPlyIndex oldPly)
      else
        let index ← leafGetNextPlyIndex oldLeaf
        setLeaf capacity a fuel (dstAddressByteIndex + 1) index s

/-- One slot of the root ply that the address maps to. -/
def setRootLeafHere (capacity : Nat) (a : Args) (m slot : Nat) (s : State) : Except Fault State := do
  let oldPly := s.roots m
  let oldLeaf := oldPly.leaves slot
  if a.dstAddressLength ≥ oldPly.dstAddressBitsOfLeaves slot then
    let newLeaf := leafSetAdjIndex a.adjIndex
    if leafIsTerminal oldLeaf then
      return s.withRoot m (oldPly.write slot newLeaf a.dstAddressLength)
    else
      let newPly ← leafGetNextPlyIndex oldLeaf
      setPlyWithMoreSpecificLeaf capacity newLeaf a.dstAddressLength 4 newPly s
  else if !leafIsTerminal oldLeaf then
    setLeaf capacity a 4 2 (← leafGetNextPlyIndex oldLeaf) s
  else return s

def setRootLeaf (capacity : Nat) (m : Nat) (a : Args) (s : State) : Except Fault State := do
  assert (a.dstAddressLength ≤ 32)
  let nDstBitsNextPlies : Int := a.dstAddressLength - 16
  let dstByte := (a.dstAddress >>> 16) &&& 0xFFFF
  if nDstBitsNextPlies ≤ 0 then
    let nDstBitsThisPly := 16 - a.dstAddressLength
    forRange (1 <<< nDstBitsThisPly) (fun i s => setRootLeafHere capacity a m ((dstByte + i) % 2 ^ 16) s) s
  else
    let plyBaseLen := 16
    let oldPly := s.roots m
    let oldLeaf := oldPly.leaves dstByte
    if leafIsTerminal oldLeaf then
      let (newLeaf, s) ← plyCreate capacity s oldLeaf (oldPly.dstAddressBitsOfLeaves dstByte) plyBaseLen
      let index ← leafGetNextPlyIndex newLeaf
      setLeaf capacity a 4 2 index (s.withRoot m ((s.roots m).write dstByte newLeaf plyBaseLen))
    else
      let index ← leafGetNextPlyIndex oldLeaf
      setLeaf capacity a 4 2 index s

/-- The shift by 32 of a default route is undefined in C; here it is one by 0, as on
x86. -/
def ip4FibMtrieRouteAdd (capacity : Nat) (m dstAddress dstAddressLength adjIndex : Nat) (s : State) :
    Except Fault State :=
  setRootLeaf capacity m
    ⟨dstAddress &&& ((0xFFFFFFFF <<< ((32 - dstAddressLength) % 32)) % 2 ^ 32), dstAddressLength, adjIndex⟩ s

def ip4FibMtrieLookupStepOne (s : State) (m dstAddress : Nat) : Nat :=
  (s.roots m).leaves ((dstAddress >>> 16) &&& 0xFFFF)

def ip4FibMtrieLookupStep (capacity : Nat) (s : State) (currentLeaf dstAddress dstAddressByteIndex : Nat) :
    Except Fault Nat := do
  if !leafIsTerminal currentLeaf then
    let ply ← borrow capacity s (currentLeaf >>> 1)
    return ply.leaves ((dstAddress >>> (24 - 8 * dstAddressByteIndex)) &&& 0xFF)
  else return currentLeaf

/-- The three steps of a lookup. -/
def lookup (capacity : Nat) (s : State) (m dstAddress : Nat) : Except Fault Nat := do
  let leaf := ip4FibMtrieLookupStepOne s m dstAddress
  let leaf ← ip4FibMtrieLookupStep capacity s leaf dstAddress 2
  ip4FibMtrieLookupStep capacity s leaf dstAddress 3

end Nfos.Mtrie
