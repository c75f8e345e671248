import Nfos.ChtLookup
import Nfos.EiNat

/-! `maglev`: a load balancer. A backend is known by its heartbeats; a client flow goes to the
backend that its bucket of the consistent hashing table prefers. -/
namespace Nfos.Maglev
open Txn Tx Casts Vectors Map DoubleChainExp NfUtil DataPlane Cht EiNat

/-- A packet; the header for IPv4 has the type of service too. -/
structure Pkt extends NfUtil.Pkt where
  typeOfService : Nat
  deriving DecidableEq

structure BackendInfo where
  dev : Nat
  mac : Nat
  ip : Nat
  deriving DecidableEq

def ipAddrEq (a b : Nat) : Bool := a == b

/-- `crc32si` is a builtin of the compiler. -/
def ipAddrHash (crc32si : Nat → Nat → Nat) (addr : Nat) : Nat := crc32si 0 addr

structure PktSetId where
  srcPort : Nat
  dstPort : Nat
  srcIp : Nat
  dstIp : Nat
  protocol : Nat
  deriving DecidableEq

def pktSetIdEq (a b : PktSetId) : Bool :=
  a.srcIp == b.srcIp && a.dstIp == b.dstIp && a.srcPort == b.srcPort && a.dstPort == b.dstPort &&
    a.protocol == b.protocol

def pktSetIdHash (crc32si : Nat → Nat → Nat) (id : PktSetId) : Nat :=
  crc32si (crc32si (crc32si (crc32si (crc32si 0 id.srcIp) id.dstIp) id.srcPort) id.dstPort) id.protocol

structure PktSetState where
  backendId : Int
  deriving DecidableEq

structure LoadBalance where
  lbBuckets : List Dpo
  dscp : Nat

/-- What the handlers only read: the configuration, the map without its entries, the validity
of a backend in cycles and the routes. The checksums depend on the type of service. -/
structure Setup where
  wanDevice : Fin 2 → Nat
  deviceMacs : Nat → Nat
  backendCapacity : Nat
  chtHeight : Nat
  map : NfosMap Nat
  validity : Int
  numCores : Nat
  crc32si : Nat → Nat → Nat
  sums : Nat → Checksums
  ip4Fibs : Mtrie.State
  ip4PlyPoolCapacity : Nat
  loadBalancePool : Nat → LoadBalance

/-- The arrays. With `F := Log` they are those of a transaction. -/
structure NfState (F : Type → Type) where
  backendIpToBackendId : F (NfosMapEntry Nat)
  backendIps : F Nat
  backendInfo : F BackendInfo
  tables : Tables F

def NfState.start (s : NfState Elements) : NfState Log :=
  ⟨.start s.backendIpToBackendId, .start s.backendIps, .start s.backendInfo, s.tables.start⟩

def NfState.view (l : NfState Log) : NfState Elements :=
  ⟨l.backendIpToBackendId.view, l.backendIps.view, l.backendInfo.view, l.tables.view⟩

@[simp] theorem NfState.view_start (s : NfState Elements) : s.start.view = s := rfl

/-- The part of `nf_init` about the backends. `permutations` and `next` are the memory that
`nfos_cht_fill_cht` allocates. -/
def nfInit (config : Setup) (tscHz : Nat) (backendExpirationTime : Int) (permutations next : Nat → Int)
    (memory : NfState Elements) : Option (Setup × NfState Elements) := do
  let (map, entries) := nfosMapAllocate ipAddrEq (ipAddrHash config.crc32si) config.backendCapacity memory.backendIpToBackendId
  let backends ← nfosDchainExpAllocate tscHz memory.tables.backends config.backendCapacity backendExpirationTime config.numCores
  let cht : Block Nat := ⟨config.backendCapacity * config.chtHeight, fun _ => 0⟩
  let (filled, cht) ← nfosChtFillCht cht config.chtHeight config.backendCapacity (some permutations) (some next)
  if filled = 0 then none
  else return ({ config with map := map, validity := backends.validityDuration },
    ⟨entries, fun _ => 0, fun _ => ⟨0, 0, 0⟩, ⟨cht.cell, backends.cells⟩⟩)

section Arrays
variable {α : Type}

def onMap (program : Tx (NfosMapEntry Nat) α) : Txs (NfState Log) α :=
  Txs.on 0 (·.backendIpToBackendId) (fun t l => { l with backendIpToBackendId := t }) program

def onBackendIps (program : Tx Nat α) : Txs (NfState Log) α :=
  Txs.on 1 (·.backendIps) (fun t l => { l with backendIps := t }) program

def onBackendInfo (program : Tx BackendInfo α) : Txs (NfState Log) α :=
  Txs.on 2 (·.backendInfo) (fun t l => { l with backendInfo := t }) program

def onTables (program : Txs (Tables Log) α) : Txs (NfState Log) α :=
  Txs.within 3 (·.tables) (fun m l => { l with tables := m }) program

end Arrays

section Handlers
variable (setup : Setup)

/-- There are two devices of clients. -/
local instance twoDevices : NeZero 2 := ⟨by decide⟩

/-- Clients are behind these devices. -/
def Setup.isWan (dev : Nat) : Bool := dev = setup.wanDevice 0 || dev = setup.wanDevice 1

def getHashFromPkt (pkt : Pkt) : Nat :=
  let crc32si := setup.crc32si
  crc32si (crc32si (crc32si (crc32si (crc32si 0 pkt.srcAddr) pkt.dstAddr) pkt.srcPort) pkt.dstPort) pkt.nextProtoId

def sendPktToBackend (pkt : Pkt) (backend : BackendInfo) : Pkt × List Action :=
  if backend.dev ≠ setup.wanDevice 0 ∧ backend.dev ≠ setup.wanDevice 1 then
    let pkt := { pkt with dstAddr := backend.ip, srcMac := setup.deviceMacs backend.dev, dstMac := backend.mac }
    let pkt := { pkt with toPkt := nfSetIpv4UdptcpChecksum (setup.sums pkt.typeOfService) pkt.toPkt }
    (pkt, [.sendPkt backend.dev])
  else (pkt, [.dropPkt])

/-- A heartbeat has no packet set. -/
def nfPktDispatcher (pkt : Pkt) (incomingDev : Nat) : Dispatch PktSetId :=
  if setup.isWan incomingDev then ⟨0, ⟨pkt.srcPort, pkt.dstPort, pkt.srcAddr, pkt.dstAddr, pkt.nextProtoId⟩, true⟩
  else ⟨1, ⟨0, 0, 0, 0, 0⟩, false⟩

/-- The route to a destination and its first bucket, `none` for a failed assertion. -/
def lookupLb (incomingDev dstAddr : Nat) : Option (LoadBalance × Dpo) := do
  let leDstAddr := bswap32 dstAddr
  let leaf0 ← (Mtrie.lookup setup.ip4PlyPoolCapacity setup.ip4Fibs incomingDev leDstAddr).toOption
  let lb0 := setup.loadBalancePool (leaf0 >>> 1)
  let dpo0 ← lb0.lbBuckets[0]?
  return (lb0, dpo0)

def findBackend (hash : Nat) : Txs (NfState Log) (Option Int) :=
  onTables (nfosChtFindPreferredAvailableBackend setup.numCores hash setup.chtHeight setup.backendCapacity)

def borrowBackendInfo (backendId : Int) : Txs (NfState Log) BackendInfo :=
  atIndex setup.backendCapacity backendId fun i => onBackendInfo (nfosVectorBorrow i)

/-- The information about a backend that was found. -/
def borrowFound : Option Int → Txs (NfState Log) (Option (Int × BackendInfo))
  | none => return none
  | some backendId => do
    let backend ← borrowBackendInfo setup backendId
    return some (backendId, backend)

def chooseBackend (hash : Nat) : Txs (NfState Log) (Option (Int × BackendInfo)) := do
  let found ← findBackend setup hash
  borrowFound setup found

/-- The backend of a flow. Allocate another one if the assigned backend is expired. -/
def assignedBackend (hash : Nat) (backendId : Int) : Txs (NfState Log) (Option (Int × BackendInfo)) := do
  if ← onTables (isIndexAllocated setup.numCores backendId) then
    borrowFound setup (some backendId)
  else
    chooseBackend setup hash

/-- What `drop_pkt` is called for at first. -/
def ttlActions (pkt : Pkt) : List Action := if pkt.timeToLive = 1 then [.dropPkt] else []

/-- A dropped packet may be handled on: `drop_pkt` has no effect. -/
def clientPktHandler (grants : Nat → Nat → Bool) (call : Call (NfState Elements) Pkt PktSetState PktSetId) :
    Option (Outcome (NfState Elements) Pkt PktSetState PktSetId) := do
  let localState ← call.localState
  let actions := ttlActions call.pkt
  let (lb0, dpo0) ← lookupLb setup call.incomingDev call.pkt.dstAddr
  match dpo0.action with
  | .drop => return ⟨false, actions ++ [.dropPkt], call.globalState, call.pkt, some localState, none⟩
  | .forward => return ⟨false, actions, call.globalState, call.pkt, some localState, none⟩
  | .lb =>
    match assignedBackend setup (getHashFromPkt setup call.pkt) localState.backendId grants call.globalState.start with
    | .error .fault => none
    | .error .abort => return ⟨true, actions, call.globalState, call.pkt, some localState, none⟩
    | .ok (none, l) => return ⟨false, actions ++ [.dropPkt], l.view, call.pkt, some localState, none⟩
    | .ok (some (backendId, backend), l) =>
      let pkt := { call.pkt with typeOfService := (lb0.dscp &&& 0x3F) <<< 2 }
      let (pkt, action) := sendPktToBackend setup pkt backend
      return ⟨false, actions ++ action, l.view, pkt, some ⟨backendId⟩, none⟩

/-- Insert a backend into the backend table, or refresh its timestamp. It is ignored if the
table is full. -/
def refreshBackend (core : Nat) (pkt : Pkt) (incomingDev : Nat) (now : Int) : Txs (NfState Log) Unit := do
  match ← onMap (nfosMapGet setup.map pkt.srcAddr) with
  | none =>
    match ← onTables (onBackends (nfosDchainExpAllocateNewIndex setup.validity setup.numCores core now)) with
    | some backendId => do
      let newBackend ← onBackendInfo (nfosVectorBorrowMut backendId)
      onBackendInfo (modify newBackend fun _ => ⟨incomingDev, pkt.srcMac, pkt.srcAddr⟩)
      let key ← onBackendIps (nfosVectorBorrowMut backendId)
      onBackendIps (modify key fun _ => pkt.srcAddr)
      let _ ← onMap (nfosMapPut setup.map pkt.srcAddr backendId)
      return ()
    | none => return ()
  | some backendId => do
    let _ ← onTables (onBackends (nfosDchainExpRejuvenateIndex setup.validity setup.numCores backendId.toNat now))
    return ()

/-- The packet itself goes nowhere. -/
def heartbeatHandler (core : Nat) (grants : Nat → Nat → Bool) (call : Call (NfState Elements) Pkt PktSetState PktSetId) :
    Option (Outcome (NfState Elements) Pkt PktSetState PktSetId) :=
  match refreshBackend setup core call.pkt call.incomingDev call.time grants call.globalState.start with
  | .error .fault => none
  | .error .abort => some ⟨true, [], call.globalState, call.pkt, call.localState, none⟩
  | .ok (_, l) => some ⟨false, [], l.view, call.pkt, call.localState, none⟩

/-- There is no look at the route. -/
def nfUnknownPktSetHandler (grants : Nat → Nat → Bool) (call : Call (NfState Elements) Pkt PktSetState PktSetId) :
    Option (Outcome (NfState Elements) Pkt PktSetState PktSetId) :=
  let actions := ttlActions call.pkt
  match chooseBackend setup (getHashFromPkt setup call.pkt) grants call.globalState.start with
  | .error .fault => none
  | .error .abort => some ⟨true, actions, call.globalState, call.pkt, none, none⟩
  | .ok (some (backendId, backend), l) =>
    let localState : PktSetState := ⟨backendId⟩
    let (pkt, action) := sendPktToBackend setup call.pkt backend
    some ⟨false, actions ++ action, l.view, pkt, none, some (localState, none)⟩
  | .ok (none, l) => some ⟨false, actions ++ [.dropPkt], l.view, call.pkt, none, none⟩

def pktHandlers (core pktClass : Nat) (grants : Nat → Nat → Bool) (call : Call (NfState Elements) Pkt PktSetState PktSetId) :
    Option (Outcome (NfState Elements) Pkt PktSetState PktSetId) :=
  if pktClass = 0 then clientPktHandler setup grants call else heartbeatHandler setup core grants call

/-- The functions of the NF. `headers` reads the headers of a packet and checks that they
are complete. -/
def nf {B : Type} (core : Nat) (headers : B → Bool × Pkt) :
    NF (Nat → Nat → Bool) (NfState Elements) Pkt PktSetState PktSetId B where
  nfPktParser buffer := ((headers buffer).1 && nfHasTcpudpHeader (headers buffer).2.nextProtoId, (headers buffer).2)
  nfPktDispatcher := nfPktDispatcher setup
  pktHandlers := pktHandlers setup core
  nfUnknownPktSetHandler := nfUnknownPktSetHandler setup

end Handlers

section Lookups
variable {setup : Setup} {grants : Nat → Nat → Bool} {call : Call (NfState Elements) Pkt PktSetState PktSetId}
variable {outcome : Outcome (NfState Elements) Pkt PktSetState PktSetId} {l l' : NfState Log} {hash : Nat}

theorem looks_findBackend (setup : Setup) (hash : Nat) : Txs.Looks (findBackend setup hash) :=
  Txs.looks_within (looks_nfosChtFind _ _ _ _) fun _ => rfl

theorem looks_borrowBackendInfo (setup : Setup) (backendId : Int) : Txs.Looks (borrowBackendInfo setup backendId) := by
  unfold borrowBackendInfo
  apply looks_atIndex
  intro i
  exact Txs.looks_on (f := fun t => t.view i) (fun _ _ => nfosVectorBorrow_run) fun _ => rfl

theorem looks_borrowFound (setup : Setup) (found : Option Int) : Txs.Looks (borrowFound setup found) := by
  cases found with
  | none => exact Txs.looks_pure none
  | some backendId => exact (looks_borrowBackendInfo setup backendId).bind fun _ => Txs.looks_pure _

theorem looks_chooseBackend (setup : Setup) (hash : Nat) : Txs.Looks (chooseBackend setup hash) :=
  (looks_findBackend setup hash).bind (looks_borrowFound setup)

theorem looks_assignedBackend (setup : Setup) (hash : Nat) (backendId : Int) : Txs.Looks (assignedBackend setup hash backendId) := by
  apply Txs.Looks.bind
  · exact Txs.looks_within (looks_isIndexAllocated _ _) fun _ => rfl
  · intro allocated
    exact Txs.looks_ite (fun _ => looks_borrowFound _ _) fun _ => looks_chooseBackend _ _

theorem borrowFound_some {backendId j : Int} {backend : BackendInfo}
    (ran : borrowFound setup (some backendId) grants l = .ok (some (j, backend), l')) : j = backendId := by
  rw [borrowFound, Txs.bind_eq_ok] at ran
  obtain ⟨_, m, _, returned⟩ := ran
  have same : (some (backendId, _), m) = (some (j, backend), l') := Except.ok.inj returned
  simp only [Prod.mk.injEq, Option.some.injEq] at same
  exact same.1.1.symm

/-- The chosen backend is allocated, so that a flow keeps it. -/
theorem assignedBackend_chosen {backendId : Int} {backend : BackendInfo} (grants' : Nat → Nat → Bool) (hash' : Nat)
    (chosen : chooseBackend setup hash grants l = .ok (some (backendId, backend), l')) :
    assignedBackend setup hash' backendId grants' l = .ok (some (backendId, backend), l) := by
  rw [chooseBackend, Txs.bind_eq_ok] at chosen
  obtain ⟨found, m, search, borrowed⟩ := chosen
  obtain ⟨here, always⟩ := looks_findBackend setup hash _ _ _ search
  dsimp only at here
  subst here
  obtain ⟨here, borrows⟩ := looks_borrowFound setup found _ _ _ borrowed
  dsimp only at here
  subst here
  cases found with
  | none => cases (Prod.mk.inj (Except.ok.inj borrowed)).1
  | some j =>
    obtain rfl := borrowFound_some borrowed
    have allocated : onTables (isIndexAllocated setup.numCores backendId) grants' l' = .ok (true, l') := by
      have inside := always grants'
      simp only [findBackend, onTables, Txs.within] at inside ⊢
      split at inside
      · rename_i found t result
        simp only [Except.ok.injEq, Prod.mk.injEq] at inside
        obtain ⟨rfl, _⟩ := inside
        rw [nfosChtFind_allocated result]
      · contradiction
    rw [assignedBackend, Txs.run_bind allocated, if_pos rfl]
    exact borrows grants'

/-- A handler of an unknown packet set that is not aborted. -/
theorem nfUnknownPktSetHandler_returned (ran : nfUnknownPktSetHandler setup grants call = some outcome)
    (returned : outcome.abort = false) :
    ∃ found, chooseBackend setup (getHashFromPkt setup call.pkt) grants call.globalState.start = .ok (found, call.globalState.start) ∧
      outcome = match found with
        | none => ⟨false, ttlActions call.pkt ++ [.dropPkt], call.globalState, call.pkt, none, none⟩
        | some (backendId, backend) =>
          ⟨false, ttlActions call.pkt ++ (sendPktToBackend setup call.pkt backend).2,
            call.globalState, (sendPktToBackend setup call.pkt backend).1, none, some (⟨backendId⟩, none)⟩ := by
  unfold nfUnknownPktSetHandler at ran
  split at ran
  · contradiction
  · obtain rfl := Option.some.inj ran
    contradiction
  · rename_i backendId backend l chosen
    obtain ⟨same, _⟩ := looks_chooseBackend setup _ _ _ _ chosen
    dsimp only at same
    subst same
    obtain rfl := Option.some.inj ran
    exact ⟨_, chosen, rfl⟩
  · rename_i l chosen
    obtain ⟨same, _⟩ := looks_chooseBackend setup _ _ _ _ chosen
    dsimp only at same
    subst same
    obtain rfl := Option.some.inj ran
    exact ⟨_, chosen, rfl⟩

theorem sendPktToBackend_wan {pkt : Pkt} {backend : BackendInfo} (wan : setup.isWan backend.dev = true) :
    sendPktToBackend setup pkt backend = (pkt, [.dropPkt]) := by
  simp only [Setup.isWan, Bool.or_eq_true, decide_eq_true_eq] at wan
  rw [sendPktToBackend, if_neg]
  tauto

theorem sendPktToBackend_lan {pkt : Pkt} {backend : BackendInfo} (lan : setup.isWan backend.dev = false) :
    (sendPktToBackend setup pkt backend).2 = [.sendPkt backend.dev] ∧
      (sendPktToBackend setup pkt backend).1.typeOfService = pkt.typeOfService := by
  simp only [Setup.isWan, Bool.or_eq_false_iff, decide_eq_false_iff_not] at lan
  rw [sendPktToBackend, if_pos lan]
  exact ⟨rfl, rfl⟩

end Lookups
end Nfos.Maglev
