import Nfos.EiNat

/-! `fw`: a firewall. A packet from the LAN registers its flow, a packet from the WAN passes
only if its flow is registered. -/
namespace Nfos.Fw
open Function Casts DataPlane NfUtil EiNat

def protocolTcp : Nat := 6

/-- A packet; `payload` are its bytes from the TCP or UDP header on. -/
structure Pkt extends NfUtil.Pkt where
  payload : Nat → UInt8

/-- `as_u8` of `union tcp_flag_t`: the flags of the packets from the WAN, and from the LAN. -/
abbrev TcpFlag := Fin 2 → UInt8

def trackSession (isInput : Fin 2) (flag : TcpFlag) (tcpFlag : UInt8) : TcpFlag :=
  let oldFlags := flag isInput
  let newFlags := oldFlags ||| tcpFlag
  update flag isInput (if oldFlags ≠ newFlags then newFlags else oldFlags)

structure PktSetId where
  internalPort : Nat
  externalPort : Nat
  internalIp : Nat
  externalIp : Nat
  protocol : Nat
  deriving DecidableEq

def pktSetIdEq (a b : PktSetId) : Bool :=
  a.internalIp == b.internalIp && a.externalIp == b.externalIp && a.internalPort == b.internalPort &&
    a.externalPort == b.externalPort && a.protocol == b.protocol

/-- `crc32si` is a builtin of the compiler. -/
def pktSetIdHash (crc32si : Nat → Nat → Nat) (id : PktSetId) : Nat :=
  crc32si (crc32si (crc32si (crc32si (crc32si 0 id.internalIp) id.externalIp) id.internalPort) id.externalPort)
    id.protocol

structure PktSetState where
  internalDevice : Nat
  tcpFlag : TcpFlag

/-- What the handlers only read: the configuration and the routes. There is no other shared
state. -/
structure Setup where
  wanDevice : Nat
  deviceMacs : Nat → Nat
  endpointMacs : Nat → Nat
  ip4Fibs : Mtrie.State
  ip4PlyPoolCapacity : Nat
  loadBalancePool : Nat → List Dpo

section Handlers
variable (setup : Setup)

def nfPktDispatcher (pkt : Pkt) (incomingDev : Nat) : Dispatch PktSetId :=
  if incomingDev ≠ setup.wanDevice then
    ⟨0, ⟨pkt.srcPort, pkt.dstPort, pkt.srcAddr, pkt.dstAddr, pkt.nextProtoId⟩, true⟩
  else ⟨0, ⟨pkt.dstPort, pkt.srcPort, pkt.dstAddr, pkt.srcAddr, pkt.nextProtoId⟩, true⟩

/-- The first bucket of the route to a destination, `none` for a failed assertion. -/
def lookupDpo (incomingDev dstAddr : Nat) : Option Dpo := do
  let leDstAddr := bswap32 dstAddr
  let leaf0 ← (Mtrie.lookup setup.ip4PlyPoolCapacity setup.ip4Fibs incomingDev leDstAddr).toOption
  (setup.loadBalancePool (leaf0 >>> 1))[0]?

/-- The index of `track_session` for the packets of a device. -/
def isInput (incomingDev : Nat) : Fin 2 := if incomingDev ≠ setup.wanDevice then 1 else 0

/-- Add the TCP flags of a packet to those of its flow. -/
def trackFlags (pkt : Pkt) (incomingDev : Nat) (localState : PktSetState) : PktSetState :=
  if pkt.nextProtoId = protocolTcp then
    { localState with tcpFlag := trackSession (isInput setup incomingDev) localState.tcpFlag (pkt.payload 13) }
  else localState

/-- Where the packet of a registered flow goes: its headers and what is done with it. -/
def forwardPkt (pkt : Pkt) (incomingDev internalDevice : Nat) : Option (Pkt × List Action) :=
  if incomingDev = setup.wanDevice then
    let dstDev := internalDevice
    let pkt := { pkt with srcMac := setup.deviceMacs dstDev, dstMac := setup.endpointMacs dstDev }
    some (pkt, [.sendPkt dstDev])
  else do
    let dpo0 ← lookupDpo setup incomingDev pkt.dstAddr
    match dpo0.action with
    | .drop => return (pkt, [.dropPkt])
    | .forward =>
      let dstDev := dpo0.sendDevice
      return ({ pkt with srcMac := setup.deviceMacs dstDev, dstMac := dpo0.dstMacAddress }, [.sendPkt dstDev])
    | .lb => return (pkt, [])

/-- A dropped packet is handled on: `drop_pkt` has no effect. -/
def pktHandler (call : Call Unit Pkt PktSetState PktSetId) : Option (Outcome Unit Pkt PktSetState PktSetId) := do
  let localState ← call.localState
  let actions := if call.pkt.timeToLive ≤ 1 then [Action.dropPkt] else []
  let localState := trackFlags setup call.pkt call.incomingDev localState
  let (pkt, action) ← forwardPkt setup call.pkt call.incomingDev localState.internalDevice
  return ⟨false, actions ++ action, call.globalState, pkt, some localState, none⟩

/-- The state is registered as it is before the first packet; that of `pkt_handler` is on
the stack. -/
def nfUnknownPktSetHandler (call : Call Unit Pkt PktSetState PktSetId) : Option (Outcome Unit Pkt PktSetState PktSetId) :=
  if call.incomingDev = setup.wanDevice then
    some ⟨false, [.dropPkt], call.globalState, call.pkt, none, none⟩
  else do
    let localState : PktSetState := ⟨call.incomingDev, fun _ => 0⟩
    let outcome ← pktHandler setup { call with localState := some localState }
    return { outcome with localState := none, added := some (localState, none) }

/-- The functions of the NF. `headers` reads the headers of a packet and checks that they
are complete. -/
def nf {B : Type} (headers : B → Bool × Pkt) : NF Unit Unit Pkt PktSetState PktSetId B where
  nfPktParser buffer := ((headers buffer).1 && nfHasTcpudpHeader (headers buffer).2.nextProtoId, (headers buffer).2)
  nfPktDispatcher := nfPktDispatcher setup
  pktHandlers _ _ := pktHandler setup
  nfUnknownPktSetHandler _ := nfUnknownPktSetHandler setup

variable {setup}

@[simp] theorem internalDevice_trackFlags (pkt : Pkt) (dev : Nat) (s : PktSetState) :
    (trackFlags setup pkt dev s).internalDevice = s.internalDevice := by
  unfold trackFlags
  split <;> rfl

/-- What `drop_pkt` is called for before the packet is handled on. -/
def ttlActions (pkt : Pkt) : List Action := if pkt.timeToLive ≤ 1 then [.dropPkt] else []

theorem pktHandler_iff {call : Call Unit Pkt PktSetState PktSetId} {outcome : Outcome Unit Pkt PktSetState PktSetId} :
    pktHandler setup call = some outcome ↔ ∃ state pkt action, call.localState = some state ∧
      forwardPkt setup call.pkt call.incomingDev state.internalDevice = some (pkt, action) ∧
      outcome = ⟨false, ttlActions call.pkt ++ action, (), pkt, some (trackFlags setup call.pkt call.incomingDev state), none⟩ := by
  simp only [pktHandler, Option.bind_eq_bind, Option.bind_eq_some_iff, Option.pure_def, Option.some.injEq,
    internalDevice_trackFlags]
  constructor
  · rintro ⟨state, given, ⟨pkt, action⟩, forwarded, rfl⟩
    exact ⟨state, pkt, action, given, forwarded, rfl⟩
  · rintro ⟨state, pkt, action, given, forwarded, rfl⟩
    exact ⟨state, given, (pkt, action), forwarded, rfl⟩

theorem nfUnknownPktSetHandler_iff {call : Call Unit Pkt PktSetState PktSetId} {outcome : Outcome Unit Pkt PktSetState PktSetId} :
    nfUnknownPktSetHandler setup call = some outcome ↔
      if call.incomingDev = setup.wanDevice then outcome = ⟨false, [.dropPkt], (), call.pkt, none, none⟩
      else ∃ pkt action, forwardPkt setup call.pkt call.incomingDev call.incomingDev = some (pkt, action) ∧
        outcome = ⟨false, ttlActions call.pkt ++ action, (), pkt, none, some (⟨call.incomingDev, fun _ => 0⟩, none)⟩ := by
  unfold nfUnknownPktSetHandler
  split
  · simp only [Option.some.injEq]
    exact eq_comm
  · simp only [Option.bind_eq_bind, Option.bind_eq_some_iff, pktHandler_iff, Option.pure_def, Option.some.injEq]
    constructor
    · rintro ⟨_, ⟨_, pkt, action, rfl, forwarded, rfl⟩, rfl⟩
      exact ⟨pkt, action, forwarded, rfl⟩
    · rintro ⟨pkt, action, forwarded, rfl⟩
      exact ⟨_, ⟨_, pkt, action, rfl, forwarded, rfl⟩, rfl⟩

end Handlers
end Nfos.Fw
