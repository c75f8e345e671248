import Nfos.Maglev
import Nfos.PacketTable

/-! The two ways of a client packet through `maglev`. The handler of an unknown flow sends the
packet to its backend without a look at the route. -/
namespace Nfos.Maglev
open Txn Vectors NfUtil DataPlane PktSetManager Cht EiNat Map DoubleChainExp
variable {setup : Setup} {grants grants' : Nat → Nat → Bool} {call call' : Call (NfState Elements) Pkt PktSetState PktSetId}
variable {outcome outcome' : Outcome (NfState Elements) Pkt PktSetState PktSetId} {state : PktSetState}

/-- The fields of the headers for Ethernet and IPv4. -/
def ethernetIpv4 (pkt : Pkt) : (Nat × Nat) × Nat × Nat × Nat × Nat × Nat × Nat :=
  ((pkt.srcMac, pkt.dstMac), pkt.typeOfService, pkt.timeToLive, pkt.nextProtoId, pkt.hdrChecksum, pkt.srcAddr, pkt.dstAddr)

/-- The packets from a device go to the same device, or both are dropped, with the same
headers. -/
def SameTreatment (dev : Nat) (o o' : Outcome (NfState Elements) Pkt PktSetState PktSetId) : Prop :=
  deliver dev o.actions = deliver dev o'.actions ∧ ethernetIpv4 o.pkt = ethernetIpv4 o'.pkt

/-- The backend that is found for a packet when no lock is refused. -/
def preferredBackend (setup : Setup) (s : NfState Elements) (pkt : Pkt) : Option BackendInfo :=
  match chooseBackend setup (getHashFromPkt setup pkt) (fun _ _ => true) s.start with
  | .ok (found, _) => found.map Prod.snd
  | .error _ => none

/-- The route makes no difference for the packet. -/
def Indifferent (setup : Setup) (s : NfState Elements) (pkt : Pkt) (incomingDev : Nat) : Prop :=
  ∃ lb0 dpo0, lookupLb setup incomingDev pkt.dstAddr = some (lb0, dpo0) ∧
    if dpo0.action = .lb then pkt.typeOfService = (lb0.dscp &&& 0x3F) <<< 2
    else ∀ backend, preferredBackend setup s pkt = some backend → setup.isWan backend.dev = true

@[simp] theorem deliver_ttlActions (pkt : Pkt) (dev : Nat) (actions : List Action) :
    deliver dev (ttlActions pkt ++ actions) = deliver dev actions := by
  rw [deliver_append]
  unfold ttlActions
  split <;> rfl

/-- What the handler of a registered flow does with a packet whose backend is known. -/
theorem clientPktHandler_assigned {backendId : Int} {backend : BackendInfo} (given : call.localState = some ⟨backendId⟩)
    (assigned : assignedBackend setup (getHashFromPkt setup call.pkt) backendId grants call.globalState.start =
      .ok (some (backendId, backend), call.globalState.start)) :
    clientPktHandler setup grants call = (lookupLb setup call.incomingDev call.pkt.dstAddr).map fun (lb0, dpo0) =>
      match dpo0.action with
      | .drop => ⟨false, ttlActions call.pkt ++ [.dropPkt], call.globalState, call.pkt, some ⟨backendId⟩, none⟩
      | .forward => ⟨false, ttlActions call.pkt, call.globalState, call.pkt, some ⟨backendId⟩, none⟩
      | .lb =>
        let sent := sendPktToBackend setup { call.pkt with typeOfService := (lb0.dscp &&& 0x3F) <<< 2 } backend
        ⟨false, ttlActions call.pkt ++ sent.2, call.globalState, sent.1, some ⟨backendId⟩, none⟩ := by
  cases route : lookupLb setup call.incomingDev call.pkt.dstAddr with
  | none => simp [clientPktHandler, given, route]
  | some found =>
    obtain ⟨lb0, dpo0⟩ := found
    cases action : dpo0.action <;> simp [clientPktHandler, given, route, action, assigned]

/-- A packet for a backend counts as dropped just when the backend is on the side of the clients. -/
theorem sendPktToBackend_dropped_iff {dev : Nat} {pkt : Pkt} {backend : BackendInfo} (wan : setup.isWan dev = true) :
    (deliver dev (sendPktToBackend setup pkt backend).2 = dev ∧
      ethernetIpv4 (sendPktToBackend setup pkt backend).1 = ethernetIpv4 pkt) ↔ setup.isWan backend.dev = true := by
  constructor
  · rintro ⟨dropped, _⟩
    cases side : setup.isWan backend.dev with
    | true => rfl
    | false =>
      rw [(sendPktToBackend_lan side).1] at dropped
      have here : backend.dev = dev := dropped
      rw [← side, here, wan]
  · intro side
    rw [sendPktToBackend_wan side]
    exact ⟨rfl, rfl⟩

/-- The type of service is the only trace of a mark. -/
theorem sendPktToBackend_marked_iff {dev mark : Nat} {pkt : Pkt} {backend : BackendInfo} :
    (deliver dev (sendPktToBackend setup pkt backend).2 =
        deliver dev (sendPktToBackend setup { pkt with typeOfService := mark } backend).2 ∧
      ethernetIpv4 (sendPktToBackend setup pkt backend).1 =
        ethernetIpv4 (sendPktToBackend setup { pkt with typeOfService := mark } backend).1) ↔ pkt.typeOfService = mark := by
  constructor
  · rintro ⟨_, headers⟩
    have services := congrArg (fun fields => fields.2.1) headers
    simp only [ethernetIpv4] at services
    cases side : setup.isWan backend.dev with
    | true => rwa [sendPktToBackend_wan side, sendPktToBackend_wan side] at services
    | false => rwa [(sendPktToBackend_lan side).2, (sendPktToBackend_lan side).2] at services
  · rintro rfl
    exact ⟨rfl, rfl⟩

/-- A packet of a new flow is treated as the next one just when the route does not matter: it
is one for load balancing and the packet has its mark already, or the backend is on the side
of the clients. -/
theorem paths_agree_iff (wan : setup.isWan call.incomingDev = true)
    (ran : nfUnknownPktSetHandler setup grants call = some outcome) (returned : outcome.abort = false)
    (registered : registers outcome call.canAdd = some state) (same : call'.pkt = call.pkt)
    (device : call'.incomingDev = call.incomingDev) (unchanged : call'.globalState = outcome.globalState)
    (given : call'.localState = some state) :
    (∃ outcome', clientPktHandler setup grants' call' = some outcome' ∧ SameTreatment call.incomingDev outcome outcome') ↔
      Indifferent setup call.globalState call.pkt call.incomingDev := by
  obtain ⟨found, chosen, rfl⟩ := nfUnknownPktSetHandler_returned ran returned
  cases found with
  | none => simp [registers] at registered
  | some entry =>
    obtain ⟨backendId, backend⟩ := entry
    simp only [registers, Option.map_some, Option.ite_none_right_eq_some, Option.some.injEq] at registered
    obtain ⟨_, rfl⟩ := registered
    dsimp only at unchanged
    have preferred : preferredBackend setup call.globalState call.pkt = some backend := by
      rw [preferredBackend, (looks_chooseBackend setup _ _ _ _ chosen).2]
      rfl
    have assigned := assignedBackend_chosen grants' (getHashFromPkt setup call'.pkt) chosen
    rw [← unchanged] at assigned
    rw [clientPktHandler_assigned given assigned, same, device, unchanged]
    unfold Indifferent SameTreatment
    cases route : lookupLb setup call.incomingDev call.pkt.dstAddr with
    | none => simp
    | some found =>
      obtain ⟨lb0, dpo0⟩ := found
      simp only [Option.map_some, Option.some.injEq, exists_eq_left', Prod.mk.injEq, preferred, forall_eq', deliver_ttlActions,
        and_assoc, exists_and_left]
      cases action : dpo0.action with
      | lb =>
        simp only [deliver_ttlActions, if_true]
        exact sendPktToBackend_marked_iff
      | drop =>
        simp only [deliver_ttlActions, reduceCtorEq, if_false]
        exact sendPktToBackend_dropped_iff wan
      | forward =>
        have quiet : deliver call.incomingDev (ttlActions call.pkt) = call.incomingDev := by
          simpa [deliver] using deliver_ttlActions call.pkt call.incomingDev []
        simp only [quiet, reduceCtorEq, if_false]
        exact sendPktToBackend_dropped_iff wan

section Example

/-- The WAN devices are 0 and 2, all destinations have the same route. -/
def exampleConfig (action : DpoAction) : Setup where
  wanDevice i := 2 * i.val
  deviceMacs _ := 0
  backendCapacity := 2
  chtHeight := 3
  map := ⟨0, ipAddrEq, fun _ => 0⟩
  validity := 0
  numCores := 1
  crc32si := fun a b => a + b
  sums _ := ⟨fun _ => 0, fun _ => 0⟩
  ip4Fibs := ⟨fun _ => Mtrie.ip4MtrieInit, fun _ => Mtrie.ply8Init 0 0 0, 0⟩
  ip4PlyPoolCapacity := 5
  loadBalancePool _ := ⟨[⟨action, 65535, 0⟩], 1⟩

def blankState : NfState Elements := ⟨fun _ => ⟨0, 0, 0, 0, 0⟩, fun _ => 0, fun _ => ⟨0, 0, 0⟩, ⟨fun _ => 0, fun _ => ⟨0, 0, 0, 0⟩⟩⟩

/-- The state after a heartbeat from device 1. -/
def balanced (action : DpoAction) : Option (Setup × NfState Elements) := do
  let (setup, s) ← nfInit (exampleConfig action) 1000000 10000000 (fun _ => 0) (fun _ => 0) blankState
  let heartbeat : Pkt := ⟨⟨5, 0, 64, 6, 0, 7, 0, 0, 0, 0, []⟩, 0⟩
  let outcome ← heartbeatHandler setup 0 (fun _ _ => true) ⟨s, heartbeat, 1, none, ⟨0, 0, 0, 0, 0⟩, 0, false⟩
  return (setup, outcome.globalState)

/-- A packet from device 0 with the given mark. -/
def clientCall (s : NfState Elements) (mark : Nat) (localState : Option PktSetState) : Call (NfState Elements) Pkt PktSetState PktSetId :=
  ⟨s, ⟨⟨0, 0, 64, 6, 0, 1, 2, 3, 4, 0, []⟩, mark⟩, 0, localState, ⟨3, 4, 1, 2, 6⟩, 0, true⟩

/-- Both handlers one after the other. -/
def twice (action : DpoAction) (mark : Nat) : Option (Setup × NfState Elements × Outcome (NfState Elements) Pkt PktSetState PktSetId ×
    PktSetState × Outcome (NfState Elements) Pkt PktSetState PktSetId) := do
  let (setup, s) ← balanced action
  let outcome ← nfUnknownPktSetHandler setup (fun _ _ => true) (clientCall s mark none)
  let state ← registers outcome true
  let outcome' ← clientPktHandler setup (fun _ _ => true) (clientCall outcome.globalState mark (some state))
  return (setup, s, outcome, state, outcome')

theorem twice_eq_some {action : DpoAction} {mark : Nat} {setup : Setup} {s : NfState Elements}
    (ran : twice action mark = some (setup, s, outcome, state, outcome')) :
    balanced action = some (setup, s) ∧ nfUnknownPktSetHandler setup (fun _ _ => true) (clientCall s mark none) = some outcome ∧
      registers outcome true = some state ∧
      clientPktHandler setup (fun _ _ => true) (clientCall outcome.globalState mark (some state)) = some outcome' := by
  simp only [twice, Option.bind_eq_bind, Option.bind_eq_some_iff, Option.pure_def, Option.some.injEq, Prod.mk.injEq] at ran
  obtain ⟨⟨setup', s'⟩, start, outcome₁, first, state₁, registered, outcome₂, second, rfl, rfl, rfl, rfl, rfl⟩ := ran
  exact ⟨start, first, registered, second⟩

/-- The route says that the packet is to be dropped. The first one is sent to the backend on
device 1. -/
theorem dropped_route_sent : ∃ setup s outcome state outcome', balanced .drop = some (setup, s) ∧ setup.isWan 0 = true ∧
    nfUnknownPktSetHandler setup (fun _ _ => true) (clientCall s 0 none) = some outcome ∧ outcome.abort = false ∧
    registers outcome true = some state ∧
    clientPktHandler setup (fun _ _ => true) (clientCall outcome.globalState 0 (some state)) = some outcome' ∧
    deliver 0 outcome.actions = 1 ∧ deliver 0 outcome'.actions = 0 ∧ ¬ SameTreatment 0 outcome outcome' := by
  have ran : ((twice .drop 0).map fun (setup, _, outcome, _, outcome') =>
      (setup.isWan 0, outcome.abort, deliver 0 outcome.actions, deliver 0 outcome'.actions)) = some (true, false, 1, 0) := by
    decide +kernel
  obtain ⟨⟨setup, s, outcome, state, outcome'⟩, twice, results⟩ := Option.map_eq_some_iff.mp ran
  obtain ⟨wan, returned, sent, dropped⟩ : setup.isWan 0 = true ∧ outcome.abort = false ∧ deliver 0 outcome.actions = 1 ∧
      deliver 0 outcome'.actions = 0 := by simpa using results
  obtain ⟨start, first, registered, second⟩ := twice_eq_some twice
  refine ⟨setup, s, outcome, state, outcome', start, wan, first, returned, registered, second, sent, dropped, ?_⟩
  rintro ⟨same, _⟩
  exact Nat.one_ne_zero (sent.symm.trans (same.trans dropped))

/-- A route for load balancing and a packet that is marked for it. -/
theorem paths_agree_marked : ∃ setup s outcome state outcome', balanced .lb = some (setup, s) ∧
    nfUnknownPktSetHandler setup (fun _ _ => true) (clientCall s 4 none) = some outcome ∧ registers outcome true = some state ∧
    clientPktHandler setup (fun _ _ => true) (clientCall outcome.globalState 4 (some state)) = some outcome' ∧
    Indifferent setup s (clientCall s 4 none).pkt 0 := by
  have ran : ((twice .lb 4).map fun (setup, _, outcome, _, outcome') =>
      (setup.isWan 0, outcome.abort, deliver 0 outcome.actions = deliver 0 outcome'.actions && ethernetIpv4 outcome.pkt = ethernetIpv4 outcome'.pkt)) =
      some (true, false, true) := by
    decide +kernel
  obtain ⟨⟨setup, s, outcome, state, outcome'⟩, twice, results⟩ := Option.map_eq_some_iff.mp ran
  obtain ⟨wan, returned, treatment⟩ : setup.isWan 0 = true ∧ outcome.abort = false ∧ SameTreatment 0 outcome outcome' := by
    simpa [SameTreatment] using results
  obtain ⟨start, first, registered, second⟩ := twice_eq_some twice
  refine ⟨setup, s, outcome, state, outcome', start, first, registered, second, ?_⟩
  have agree := @paths_agree_iff setup _ (fun _ _ => true) (clientCall s 4 none) (clientCall outcome.globalState 4 (some state)) outcome state
    wan first returned registered rfl rfl rfl rfl
  exact agree.mp ⟨outcome', second, treatment⟩

end Example
end Nfos.Maglev
