import Nfos.Sessions
import Nfos.DataPlane
import Nfos.Mtrie

/-! `ei-nat`: a NAT that keeps a list of the sessions of every user, the last refreshed
one first. The lists are linked through the data of the sessions, their heads are in the
data of the users. -/
namespace Nfos.EiNat
open Txn Tx Casts Function Vectors Map DoubleChain NfUtil DataPlane Sessions

def eiNatSecond : Int := 3000000000

def lanDevice : Nat := 0

structure SessListNode where
  next : Int
  prev : Int
  deriving DecidableEq

def sessListHead : Int := -1

structure SessionData where
  node : SessListNode
  lastUsed : Int
  intIp : Nat
  intPort : Nat
  userIndex : Int

structure UserData where
  sessListHead : SessListNode
  numSessions : Int

structure NatStaticMapping where
  fibIndex : Nat
  localAddress : Nat
  isAddrOnlyStaticMapping : Bool
  localPort : Nat

inductive DpoAction where
  | drop
  | lb
  | forward
  deriving DecidableEq

structure Dpo where
  action : DpoAction
  sendDevice : Nat
  dstMacAddress : Nat

/-- What the handlers only read: the configuration, the maps without their entries, the
static mappings and the routes. There is room for a user. -/
structure Setup where
  cfg : NfConfig
  sessionMap : NfosMap Session
  userMap : NfosMap Nat
  maxNumUsers : Nat
  users : 0 < maxNumUsers
  maxNumSessionsPerUser : Nat
  numCores : Nat
  sums : Checksums
  mappingHash : Nat → Option Nat
  staticMappings : Nat → NatStaticMapping
  ip4Fibs : Mtrie.State
  ip4PlyPoolCapacity : Nat
  loadBalancePool : Nat → List Dpo
  deviceMacs : Nat → Nat

/-- The arrays, as `Store` has those of the sessions. -/
structure NfState (F : Type → Type) where
  sessions : Store SessionData F
  userMap : F (NfosMapEntry Nat)
  userData : F UserData
  userIndexes : F NfosDchainCell

def NfState.start (s : NfState Objects) : NfState Log :=
  ⟨s.sessions.start, .start s.userMap, .start s.userData, .start s.userIndexes⟩

def NfState.view (l : NfState Log) : NfState Objects :=
  ⟨l.sessions.view, l.userMap.view, l.userData.view, l.userIndexes.view⟩

@[simp] theorem NfState.view_start (s : NfState Objects) : s.start.view = s := rfl

def userEqual (a b : Nat) : Bool := a == b

/-- `crc32si` is a builtin of the compiler. -/
def userHash (crc32si : Nat → Nat → Nat) (a : Nat) : Nat := crc32si 0 a

/-- The part of `nf_init` about sessions and users. -/
def nfInit (config : Setup) (crc32si : Nat → Nat → Nat) (maxNumSessions : Nat) (memory : NfState Objects) :
    Option (Setup × NfState Objects) := do
  let (sessionMap, sessions) ←
    Sessions.nfInit config.cfg crc32si maxNumSessions config.numCores ⟨⟨0, 0⟩, 0, 0, 0, 0⟩ memory.sessions
  let (userMap, userEntries) := nfosMapAllocate userEqual (userHash crc32si) (2 * config.maxNumUsers) memory.userMap
  let userIndexes ← nfosDchainImplInit memory.userIndexes config.maxNumUsers config.numCores
  return ({ config with sessionMap := sessionMap, userMap := userMap },
    ⟨sessions, userEntries, fun _ => ⟨⟨0, 0⟩, 0⟩, userIndexes⟩)

section Arrays
variable {α : Type}

def onSessions (program : Txs (Store SessionData Log) α) : Txs (NfState Log) α :=
  Txs.within 0 (·.sessions) (fun m l => { l with sessions := m }) program

def onSessionData (program : Tx SessionData α) : Txs (NfState Log) α := onSessions (onData program)

def onUserMap (program : Tx (NfosMapEntry Nat) α) : Txs (NfState Log) α :=
  Txs.on 4 (·.userMap) (fun t l => { l with userMap := t }) program

def onUserData (program : Tx UserData α) : Txs (NfState Log) α :=
  Txs.on 5 (·.userData) (fun t l => { l with userData := t }) program

def onUserIndexes (program : Tx NfosDchainCell α) : Txs (NfState Log) α :=
  Txs.on 6 (·.userIndexes) (fun t l => { l with userIndexes := t }) program

/-- An access to an element of a vector. -/
def inVector (capacity : Nat) (index : Int) (program : Nat → Txs (NfState Log) α) : Txs (NfState Log) α :=
  if 0 ≤ index ∧ index < capacity then program index.toNat else Txs.fault

end Arrays

/-- A `sess_list_node_t *`, to the node of a session or to the head of a list. -/
inductive NodePtr where
  | sess (data : Ref SessionData)
  | head (data : Ref UserData)

namespace NodePtr

def get : NodePtr → Txs (NfState Log) SessListNode
  | .sess data => do return (← onSessionData (read data)).node
  | .head data => do return (← onUserData (read data)).sessListHead

def next (p : NodePtr) : Txs (NfState Log) Int := do return (← p.get).next

def prev (p : NodePtr) : Txs (NfState Log) Int := do return (← p.get).prev

def modify (f : SessListNode → SessListNode) : NodePtr → Txs (NfState Log) Unit
  | .sess data => onSessionData (Tx.modify data fun d => { d with node := f d.node })
  | .head data => onUserData (Tx.modify data fun d => { d with sessListHead := f d.sessListHead })

def setNext (p : NodePtr) (v : Int) : Txs (NfState Log) Unit := p.modify fun node => { node with next := v }

def setPrev (p : NodePtr) (v : Int) : Txs (NfState Log) Unit := p.modify fun node => { node with prev := v }

end NodePtr

section Users
variable (setup : Setup)

def borrowMutSession (index : Int) : Txs (NfState Log) (Ref SessionData) :=
  inVector (2 * setup.cfg.numAvailExtTuples) index fun i => onSessionData (nfosVectorBorrowMut i)

def borrowMutUser (index : Int) : Txs (NfState Log) (Ref UserData) :=
  inVector setup.maxNumUsers index fun i => onUserData (nfosVectorBorrowMut i)

/-- The index that the call returns with 1, `none` for 0. -/
def allocUser (core userKey : Nat) : Txs (NfState Log) (Option Nat) := do
  match ← onUserIndexes (nfosDchainImplAllocateNewIndex setup.numCores core) with
  | none => return none
  | some index => do
    let userData ← onUserData (nfosVectorBorrowMut index)
    if ← onUserMap (nfosMapPut setup.userMap userKey index) then
      onUserData (modify userData fun _ => ⟨⟨EiNat.sessListHead, EiNat.sessListHead⟩, 0⟩)
      return some index
    else
      let _ ← onUserIndexes (nfosDchainImplFreeIndex setup.numCores index core)
      return none

/-- Get the user or create a new one, `none` if that fails. -/
def getUser (core userKey : Nat) : Txs (NfState Log) (Option Int) := do
  match ← onUserMap (nfosMapGet setup.userMap userKey) with
  | some userIndex => return some userIndex
  | none =>
    let ret ← allocUser setup core userKey
    return ret.map Int.ofNat

/-- The node behind the head, which is the head itself in an empty list. -/
def headNext (head : NodePtr) : Txs (NfState Log) NodePtr := do
  let next ← head.next
  if next ≠ sessListHead then
    let headNextData ← borrowMutSession setup next
    return .sess headNextData
  else
    return head

/-- The node behind that of a session, which is the head behind the last one. -/
def sessNext (sess : NodePtr) (userIndex : Int) : Txs (NfState Log) NodePtr := do
  let next ← sess.next
  if next = sessListHead then
    let userData ← borrowMutUser setup userIndex
    return .head userData
  else
    let sessNext ← borrowMutSession setup next
    return .sess sessNext

/-- Insert a session into the list of its user. -/
def insertSession (sessIndex userIndex : Int) : Txs (NfState Log) Unit := do
  let userData ← borrowMutUser setup userIndex
  let head := NodePtr.head userData
  let headNext ← headNext setup head
  let sessData ← borrowMutSession setup sessIndex
  let sess := NodePtr.sess sessData
  sess.setNext (← head.next)
  sess.setPrev sessListHead
  headNext.setPrev sessIndex
  head.setNext sessIndex
  onUserData (modify userData fun d => { d with numSessions := d.numSessions + 1 })
  if (← onUserData (read userData)).numSessions ≥ setup.maxNumSessionsPerUser then
    Txs.fault
  else
    onSessionData (modify sessData fun d => { d with userIndex := userIndex })

/-- Extract a session from the list of its user and insert it after the head. -/
def moveToFront (sessData : Ref SessionData) (sessIndex userIndex : Int) : Txs (NfState Log) Unit := do
  let sess := NodePtr.sess sessData
  let sessPrev ← borrowMutSession setup (← sess.prev)
  let prev := NodePtr.sess sessPrev
  let next ← sessNext setup sess userIndex
  prev.setNext (← sess.next)
  next.setPrev (← sess.prev)
  let userData ← borrowMutUser setup userIndex
  let head := NodePtr.head userData
  let headNextData ← borrowMutSession setup (← head.next)
  let headNext := NodePtr.sess headNextData
  sess.setNext (← head.next)
  sess.setPrev sessListHead
  head.setNext sessIndex
  headNext.setPrev sessIndex

/-- Refresh the session if it was last refreshed 1 sec ago. -/
def refreshSession (sessIndex now : Int) : Txs (NfState Log) Unit := do
  let sessData ← inVector (2 * setup.cfg.numAvailExtTuples) sessIndex fun i => onSessionData (nfosVectorBorrow i)
  if now > sessData.lastUsed + eiNatSecond then
    let userIndex := sessData.userIndex
    let sessData ← borrowMutSession setup sessIndex
    onSessionData (modify sessData fun d => { d with lastUsed := now })
    if (← (NodePtr.sess sessData).prev) ≠ sessListHead then
      moveToFront setup sessData sessIndex userIndex
    else
      return ()
  else
    return ()

end Users

section Handlers
variable (setup : Setup)

def initNatK (ip4Addr port fibIndex proto : Nat) : Nat :=
  ip4Addr <<< 32 ||| port <<< 16 ||| fibIndex <<< 3 ||| proto &&& 7

/-- The external address and port. -/
def natStaticMappingMatch (matchAddr matchPort matchFibIndex matchProtocol : Nat) : Option (Nat × Nat) := do
  let index ← setup.mappingHash (initNatK matchAddr matchPort matchFibIndex matchProtocol)
  let oneMapping := setup.staticMappings index
  return (oneMapping.localAddress, if oneMapping.isAddrOnlyStaticMapping then matchPort else oneMapping.localPort)

/-- How the source of a packet is found, `dropped` if a session or a user is missing. -/
inductive Translation where
  | session (ext : Nat × Nat)
  | staticMapping (ext : Nat × Nat)
  | dropped
  deriving DecidableEq

/-- Create a session and, for a new user, the user: `none` if that fails. -/
def newSession (core : Nat) (key : Session) (now : Int) : Txs (NfState Log) (Option Int) := do
  let fill (d : SessionData) : SessionData := { d with lastUsed := now, intIp := key.srcAddr, intPort := key.srcPort }
  match ← onSessions (allocSession setup.cfg setup.sessionMap setup.numCores core fill key) with
  | none => return none
  | some sessIndex =>
    match ← getUser setup core key.srcAddr with
    | none => return none
    | some userIndex => do
      insertSession setup sessIndex userIndex
      return some sessIndex

/-- The access of `pkt_handler` to the shared state. -/
def translate (core : Nat) (key : Session) (now : Int) : Txs (NfState Log) Translation := do
  match ← onSessions (onMap (nfosMapGet setup.sessionMap key)) with
  | some sessIndex => do
    refreshSession setup sessIndex now
    return .session (sessIdToExtTuple setup.cfg sessIndex key.proto)
  | none =>
    match natStaticMappingMatch setup key.srcAddr key.srcPort lanDevice key.proto with
    | some ext => return .staticMapping ext
    | none =>
      match ← newSession setup core key now with
      | none => return .dropped
      | some sessIndex => do
        refreshSession setup sessIndex now
        return .session (sessIdToExtTuple setup.cfg sessIndex key.proto)

/-- The packet and what is done with it, `none` for a failed assertion. -/
def natPktAction (pkt : Pkt) (ip port incomingDev : Nat) : Option (Pkt × List Action) :=
  if incomingDev = setup.cfg.wanDevice then none
  else do
    let pkt := { pkt with srcPort := port, srcAddr := ip }
    let pkt := nfSetIpv4UdptcpChecksum setup.sums pkt
    let leDstAddr := bswap32 pkt.dstAddr
    let leaf0 ← (Mtrie.lookup setup.ip4PlyPoolCapacity setup.ip4Fibs incomingDev leDstAddr).toOption
    let dpo0 ← (setup.loadBalancePool (leaf0 >>> 1))[0]?
    match dpo0.action with
    | .forward =>
      let dstDev := dpo0.sendDevice
      return ({ pkt with srcMac := setup.deviceMacs dstDev, dstMac := dpo0.dstMacAddress }, [.sendPkt dstDev])
    | .drop => return (pkt, [.dropPkt])
    | .lb => return (pkt, [])

/-- A dropped packet is handled on: `drop_pkt` has no effect. There are no packet sets. -/
def pktHandler (core : Nat) (grants : Nat → Nat → Bool) (call : Call (NfState Objects) Pkt Unit Unit) :
    Option (Outcome (NfState Objects) Pkt Unit Unit) :=
  let actions := if call.pkt.timeToLive ≤ 1 then [Action.dropPkt] else []
  let key := sessionKey call.pkt
  if call.incomingDev = setup.cfg.wanDevice then none
  else
    match translate setup core key call.time grants call.globalState.start with
    | .error .fault => none
    | .error .abort => some ⟨true, actions, call.globalState, call.pkt, call.localState, none⟩
    | .ok (.dropped, l) => some ⟨false, actions ++ [.dropPkt], l.view, call.pkt, call.localState, none⟩
    | .ok (.session ext, l) | .ok (.staticMapping ext, l) => do
      let (pkt, action) ← natPktAction setup call.pkt ext.1 ext.2 call.incomingDev
      return ⟨false, actions ++ action, l.view, pkt, call.localState, none⟩

end Handlers
end Nfos.EiNat
