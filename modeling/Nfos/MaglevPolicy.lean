import Nfos.MaglevLiveness
import Nfos.MaglevRoutes

/-! What `maglev` does with a packet of a client in any state that it reaches: the route, the flow and
the backends that are alive decide on it. -/
namespace Nfos.Maglev
open Txn Function Casts DataPlane DoubleChainExp Cht EiNat Vectors AgeingTable Run

section Policy
variable (setup : Setup) (g : NfState Elements)

/-- The first backend that is alive in the row of the packet. -/
def preferredFor (pkt : Pkt) : Option Nat :=
  (row ⟨0, g.tables.cht⟩ setup.backendCapacity (getHashFromPkt setup pkt % setup.chtHeight)).find? fun j =>
    decide (Marked setup.numCores g.tables.backends j)

/-- A flow leaves its backend only when that is not alive any more. -/
def servedBy (pkt : Pkt) (assigned : Nat) : Option Nat :=
  if Marked setup.numCores g.tables.backends assigned then some assigned else preferredFor setup g pkt

/-- A packet to a virtual address, which is sent with its mark. -/
def balancedOutcome (pkt : Pkt) (assigned mark : Nat) : Outcome (NfState Elements) Pkt PktSetState PktSetId :=
  match servedBy setup g pkt assigned with
  | none => ⟨false, ttlActions pkt ++ [.dropPkt], g, pkt, some ⟨(assigned : Int)⟩, none⟩
  | some i => ⟨false, ttlActions pkt ++ [.sendPkt (g.backendInfo i).dev], g,
      (sendPktToBackend setup { pkt with typeOfService := mark } (g.backendInfo i)).1, some ⟨(i : Int)⟩, none⟩

/-- The packet of a registered flow. It is balanced if it is for the virtual address with this number. -/
def registeredOutcome (pkt : Pkt) (assigned : Nat) (service : Option Nat) (gateway : Bool) :
    Outcome (NfState Elements) Pkt PktSetState PktSetId :=
  match service with
  | none => ⟨false, ttlActions pkt ++ if gateway then [] else [.dropPkt], g, pkt, some ⟨(assigned : Int)⟩, none⟩
  | some n => balancedOutcome setup g pkt assigned (4 * n)

/-- The packet of another flow. It is balanced wherever it is for. -/
def unknownOutcome (pkt : Pkt) : Outcome (NfState Elements) Pkt PktSetState PktSetId :=
  match preferredFor setup g pkt with
  | none => ⟨false, ttlActions pkt ++ [.dropPkt], g, pkt, none, none⟩
  | some i => ⟨false, ttlActions pkt ++ [.sendPkt (g.backendInfo i).dev], g, (sendPktToBackend setup pkt (g.backendInfo i)).1, none,
      some (⟨(i : Int)⟩, none)⟩

end Policy

section Calls
variable {setup : Setup} {grants : Nat → Nat → Bool} {l : NfState Log} {pkt : Pkt} {i : Nat}
variable {call : Call (NfState Elements) Pkt PktSetState PktSetId}

/-- The table is filled: each of its rows holds all backends. -/
structure Balanced (setup : Setup) (cht : Nat → Nat) : Prop where
  height : 0 < setup.chtHeight
  small : setup.chtHeight * setup.backendCapacity ≤ intMax
  complete : ∀ bucket < setup.chtHeight, Complete setup.backendCapacity cht bucket

theorem Balanced.complete_mod {cht : Nat → Nat} (balanced : Balanced setup cht) (hash : Nat) :
    Complete setup.backendCapacity cht (hash % setup.chtHeight) := balanced.complete _ (Nat.mod_lt hash balanced.height)

theorem Balanced.findBackend (balanced : Balanced setup l.view.tables.cht) (pkt : Pkt) :
    findBackend setup (getHashFromPkt setup pkt) grants l = .ok ((preferredFor setup l.view pkt).map Int.ofNat, l) := by
  have run : nfosChtFindPreferredAvailableBackend setup.numCores (getHashFromPkt setup pkt) setup.chtHeight setup.backendCapacity
      (fun i => grants (3 + i)) l.tables = .ok ((preferredFor setup l.view pkt).map Int.ofNat, l.tables) := by
    apply nfosChtFind_run balanced.height balanced.small
    intro i below
    have id := (balanced.complete_mod (getHashFromPkt setup pkt)).id_lt below
    have fits := (Nat.le_mul_of_pos_left setup.backendCapacity balanced.height).trans balanced.small
    unfold intMax at fits
    exact id.trans_le (fits.trans (by omega))
  simp only [Maglev.findBackend, onTables, Txs.within, run]

theorem borrowFound_run (within : i < setup.backendCapacity) :
    borrowFound setup (some (i : Int)) grants l = .ok (some ((i : Int), l.view.backendInfo i), l) := by
  have borrowed : borrowBackendInfo setup (i : Int) grants l = .ok (l.view.backendInfo i, l) := by
    rw [borrowBackendInfo, atIndex_eq _ within, onBackendInfo, Txs.on, nfosVectorBorrow_run]
    rfl
  rw [borrowFound, Txs.run_bind borrowed]
  rfl

theorem Balanced.preferred_alive {g : NfState Elements} (balanced : Balanced setup g.tables.cht) (chosen : preferredFor setup g pkt = some i) :
    i ∈ g.alive setup := by
  have found : preferred setup.numCores setup.backendCapacity g.tables (getHashFromPkt setup pkt % setup.chtHeight) = some (i : Int) :=
    congrArg (Option.map Int.ofNat) chosen
  obtain ⟨k, active, same⟩ := preferred_active (balanced.complete_mod _) found
  obtain rfl : i = k := Int.ofNat.inj same
  exact active

theorem Balanced.preferred_nonempty {g : NfState Elements} (balanced : Balanced setup g.tables.cht) (pkt : Pkt) :
    (preferredFor setup g pkt).isSome ↔ (g.alive setup).Nonempty := by
  rw [← Option.isSome_map (f := Int.ofNat)]
  exact preferred_isSome (balanced.complete_mod (getHashFromPkt setup pkt))

theorem Balanced.chooseBackend (balanced : Balanced setup l.view.tables.cht) (pkt : Pkt) :
    chooseBackend setup (getHashFromPkt setup pkt) grants l =
      .ok ((preferredFor setup l.view pkt).map fun i : Nat => ((i : Int), l.view.backendInfo i), l) := by
  rw [Maglev.chooseBackend, Txs.run_bind (balanced.findBackend pkt)]
  cases chosen : preferredFor setup l.view pkt with
  | none => rfl
  | some i => exact borrowFound_run (balanced.preferred_alive chosen).1

theorem Balanced.assignedBackend (balanced : Balanced setup l.view.tables.cht) (pkt : Pkt) (within : i < setup.backendCapacity) :
    assignedBackend setup (getHashFromPkt setup pkt) (i : Int) grants l =
      .ok ((servedBy setup l.view pkt i).map fun i : Nat => ((i : Int), l.view.backendInfo i), l) := by
  rw [Maglev.assignedBackend, Txs.run_bind (onTables_isIndexAllocated i), servedBy]
  by_cases marked : Marked setup.numCores l.view.tables.backends i
  · simp only [marked, decide_true, if_true, borrowFound_run within]
    rfl
  · simp only [marked, decide_false, Bool.false_eq_true, if_false, balanced.chooseBackend]

theorem Balanced.served_alive {g : NfState Elements} (balanced : Balanced setup g.tables.cht) {assigned : Nat}
    (within : assigned < setup.backendCapacity) (served : servedBy setup g pkt assigned = some i) : i ∈ g.alive setup := by
  unfold servedBy at served
  split at served
  · rename_i marked
    obtain rfl := Option.some.inj served
    exact ⟨within, marked⟩
  · exact balanced.preferred_alive served

/-- What is left when a backend has been looked for. -/
def foundOutcome (setup : Setup) (g : NfState Elements) (pkt : Pkt) (backendId : Int) (mark : Nat) :
    Option (Int × BackendInfo) → Outcome (NfState Elements) Pkt PktSetState PktSetId
  | none => ⟨false, ttlActions pkt ++ [.dropPkt], g, pkt, some ⟨backendId⟩, none⟩
  | some (chosen, backend) => ⟨false, ttlActions pkt ++ (sendPktToBackend setup { pkt with typeOfService := mark } backend).2, g,
      (sendPktToBackend setup { pkt with typeOfService := mark } backend).1, some ⟨chosen⟩, none⟩

/-- The handler of a registered flow with the backend that is found. -/
theorem clientPktHandler_route {lb0 : LoadBalance} {dpo0 : Dpo} {backendId : Int} {found : Option (Int × BackendInfo)}
    (given : call.localState = some ⟨backendId⟩) (route : lookupLb setup call.incomingDev call.pkt.dstAddr = some (lb0, dpo0))
    (assigned : assignedBackend setup (getHashFromPkt setup call.pkt) backendId grants call.globalState.start =
      .ok (found, call.globalState.start)) :
    clientPktHandler setup grants call = some (
      match dpo0.action with
      | .drop => ⟨false, ttlActions call.pkt ++ [.dropPkt], call.globalState, call.pkt, some ⟨backendId⟩, none⟩
      | .forward => ⟨false, ttlActions call.pkt, call.globalState, call.pkt, some ⟨backendId⟩, none⟩
      | .lb => foundOutcome setup call.globalState call.pkt backendId ((lb0.dscp &&& 0x3F) <<< 2) found) := by
  cases action : dpo0.action with
  | drop => simp [clientPktHandler, given, route, action]
  | forward => simp [clientPktHandler, given, route, action]
  | lb => cases found <;> simp [clientPktHandler, given, route, action, assigned, foundOutcome]

theorem Balanced.nfUnknownPktSetHandler (balanced : Balanced setup call.globalState.tables.cht)
    (lan : ∀ i ∈ call.globalState.alive setup, setup.isWan (call.globalState.backendInfo i).dev = false) :
    nfUnknownPktSetHandler setup grants call = some (unknownOutcome setup call.globalState call.pkt) := by
  have started : Balanced setup call.globalState.start.view.tables.cht := balanced
  have chosen : Maglev.chooseBackend setup (getHashFromPkt setup call.pkt) grants call.globalState.start = _ :=
    started.chooseBackend call.pkt
  rw [NfState.view_start] at chosen
  unfold unknownOutcome
  cases preferred : preferredFor setup call.globalState call.pkt with
  | none =>
    rw [preferred] at chosen
    simp [Maglev.nfUnknownPktSetHandler, chosen]
  | some i =>
    rw [preferred] at chosen
    have alive := balanced.preferred_alive preferred
    have sent : (sendPktToBackend setup call.pkt _).2 = _ := (sendPktToBackend_lan (lan i alive)).1
    simp [Maglev.nfUnknownPktSetHandler, chosen, sent]

theorem Routed.elsewhere (routed : Routed setup) (client : setup.isWan call.incomingDev = true) (given : call.localState = some ⟨(i : Int)⟩)
    (other : virtualService (bswap32 call.pkt.dstAddr) = none) :
    clientPktHandler setup grants call = some (registeredOutcome setup call.globalState call.pkt i none
      (isGateway (bswap32 call.pkt.dstAddr))) := by
  obtain ⟨lb0, dpo0, route, action, _⟩ := routed call.incomingDev call.pkt.dstAddr client
  rw [clientAction, other] at action
  dsimp only at action
  cases gateway : isGateway (bswap32 call.pkt.dstAddr) with
  | true =>
    rw [gateway, if_pos rfl] at action
    simp only [clientPktHandler, given, route, action, registeredOutcome, Option.bind_eq_bind, Option.bind_some, Option.pure_def,
      if_true, List.append_nil]
  | false =>
    rw [gateway, if_neg Bool.false_ne_true] at action
    simp only [clientPktHandler, given, route, action, registeredOutcome, Option.bind_eq_bind, Option.bind_some, Option.pure_def,
      if_false, Bool.false_eq_true]

theorem Balanced.virtual (balanced : Balanced setup call.globalState.tables.cht) (routed : Routed setup)
    (lan : ∀ i ∈ call.globalState.alive setup, setup.isWan (call.globalState.backendInfo i).dev = false)
    (client : setup.isWan call.incomingDev = true) (given : call.localState = some ⟨(i : Int)⟩) (within : i < setup.backendCapacity)
    {n : Nat} (service : virtualService (bswap32 call.pkt.dstAddr) = some n) :
    clientPktHandler setup grants call = some (balancedOutcome setup call.globalState call.pkt i (4 * n)) := by
  obtain ⟨lb0, dpo0, route, action, mark⟩ := routed call.incomingDev call.pkt.dstAddr client
  rw [clientAction, service] at action
  dsimp only at action
  have dscp : (lb0.dscp &&& 0x3F) <<< 2 = 4 * n := by
    rw [mark n service]
    rcases virtualService_cases service with rfl | rfl <;> decide
  clear mark service
  have started : Balanced setup call.globalState.start.view.tables.cht := balanced
  have assigned : Maglev.assignedBackend setup (getHashFromPkt setup call.pkt) (i : Int) grants call.globalState.start = _ :=
    started.assignedBackend call.pkt within
  rw [NfState.view_start] at assigned
  rw [clientPktHandler_route given route assigned, action, balancedOutcome]
  cases served : servedBy setup call.globalState call.pkt i with
  | none => rfl
  | some j =>
    have alive := balanced.served_alive within served
    have sent : (sendPktToBackend setup { call.pkt with typeOfService := 4 * n } _).2 = _ := (sendPktToBackend_lan (lan j alive)).1
    simp only [Option.map_some, foundOutcome, dscp, sent]

/-- The route and the backends decide on the packet of a registered flow. -/
theorem Balanced.clientPktHandler (balanced : Balanced setup call.globalState.tables.cht) (routed : Routed setup)
    (lan : ∀ i ∈ call.globalState.alive setup, setup.isWan (call.globalState.backendInfo i).dev = false)
    (client : setup.isWan call.incomingDev = true) (given : call.localState = some ⟨(i : Int)⟩) (within : i < setup.backendCapacity) :
    clientPktHandler setup grants call = some (registeredOutcome setup call.globalState call.pkt i
      (virtualService (bswap32 call.pkt.dstAddr)) (isGateway (bswap32 call.pkt.dstAddr))) := by
  cases service : virtualService (bswap32 call.pkt.dstAddr) with
  | none => exact routed.elsewhere client given service
  | some n => exact balanced.virtual routed lan client given within service

end Calls

section Runs
variable {setup given config : Setup} {s s' : State setup} {e : Event setup} {init : NfState Elements} {history : List (Event setup)}
variable {tscHz : Nat} {backendExpirationTime : Int} {permutations next : Nat → Int} {memory : NfState Elements}

/-- The table is filled, every backend is on the side of the servers and every flow has had one. -/
structure Serves (setup : Setup) (s : State setup) : Prop where
  balanced : Balanced setup s.globalState.tables.cht
  lan : ∀ i ∈ s.globalState.alive setup, setup.isWan (s.globalState.backendInfo i).dev = false
  assigned : ∀ core id state, s.flows core id = some state → ∃ i < setup.backendCapacity, state = ⟨(i : Int)⟩

theorem isWan_of_dispatch {pkt : Pkt} {dev : Nat} {id : PktSetId} (dispatched : nfPktDispatcher setup pkt dev = ⟨0, id, true⟩) :
    setup.isWan dev = true := by
  by_contra lan
  rw [nfPktDispatcher, if_neg lan] at dispatched
  cases dispatched

theorem unknownOutcome_registers {g : NfState Elements} {pkt : Pkt} {canAdd : Bool} {state : PktSetState}
    (balanced : Balanced setup g.tables.cht) (added : registers (unknownOutcome setup g pkt) canAdd = some state) :
    ∃ i < setup.backendCapacity, state = ⟨(i : Int)⟩ := by
  unfold unknownOutcome at added
  split at added
  · cases canAdd <;> simp [registers] at added
  · rename_i i preferred
    refine ⟨i, (balanced.preferred_alive preferred).1, ?_⟩
    cases canAdd <;> simp [registers] at added
    exact added.symm

theorem registeredOutcome_assigned {g : NfState Elements} {pkt : Pkt} {i : Nat} {service : Option Nat} {gateway : Bool} {state : PktSetState}
    (balanced : Balanced setup g.tables.cht) (within : i < setup.backendCapacity)
    (left : (registeredOutcome setup g pkt i service gateway).localState = some state) :
    ∃ j < setup.backendCapacity, state = ⟨(j : Int)⟩ := by
  unfold registeredOutcome balancedOutcome at left
  split at left
  · exact ⟨i, within, (Option.some.inj left).symm⟩
  · split at left
    · exact ⟨i, within, (Option.some.inj left).symm⟩
    · rename_i j served
      exact ⟨j, (balanced.served_alive within served).1, (Option.some.inj left).symm⟩

theorem Serves.setFlow (serves : Serves setup s) (core : Fin setup.numCores) (id : PktSetId) {flow : Option PktSetState}
    (assigned : ∀ state, flow = some state → ∃ i < setup.backendCapacity, state = ⟨(i : Int)⟩) : Serves setup (s.setFlow core id flow) := by
  refine ⟨serves.balanced, serves.lan, ?_⟩
  intro c k state found
  by_cases own : c = core
  · subst own
    by_cases same : k = id
    · subst same
      exact assigned state (by simpa [State.setFlow] using found)
    · exact serves.assigned c k state (by simpa [State.setFlow, update_of_ne same] using found)
  · exact serves.assigned c k state (by simpa [State.setFlow, update_of_ne own] using found)

theorem Step.serves (step : Step setup s e s') (sound : setup.Sound) (routed : Routed setup) (holds : Holds setup s.globalState)
    (serves : Serves setup s) : Serves setup s' := by
  obtain ⟨Q, invariant⟩ := holds
  cases e with
  | heartbeat ip now =>
    obtain ⟨flows, dev, Q', _, refreshed⟩ := step.refreshed sound invariant
    exact ⟨refreshed.cht ▸ serves.balanced, step.onServerSide sound ⟨Q, invariant⟩ serves.lan, flows ▸ serves.assigned⟩
  | client core id sent actions =>
    cases step with
    | @unknown call outcome grants _ dispatched here absent ran returned =>
      have served : Serves setup { s with globalState := call.globalState } := by rwa [here]
      have handled : nfUnknownPktSetHandler setup grants call = _ := Balanced.nfUnknownPktSetHandler served.balanced served.lan
      obtain rfl := Option.some.inj (handled.symm.trans ran)
      have same : (unknownOutcome setup call.globalState call.pkt).globalState = s.globalState := by
        unfold unknownOutcome
        split <;> exact here
      rw [same]
      exact serves.setFlow core _ fun state added => unknownOutcome_registers served.balanced added
    | @registered call outcome grants _ dispatched here found ran returned =>
      have served : Serves setup { s with globalState := call.globalState } := by rwa [here]
      have client := isWan_of_dispatch dispatched
      cases given : call.localState with
      | none => simp [clientPktHandler, given] at ran
      | some state =>
        obtain ⟨i, within, rfl⟩ := serves.assigned core call.pktSetId state (found.trans given)
        have handled : clientPktHandler setup grants call = _ :=
          Balanced.clientPktHandler served.balanced routed served.lan client given within
        obtain rfl := Option.some.inj (handled.symm.trans ran)
        have same : ∀ service gateway, (registeredOutcome setup call.globalState call.pkt i service gateway).globalState = s.globalState := by
          intro service gateway
          unfold registeredOutcome balancedOutcome
          split
          · exact here
          · split <;> exact here
        rw [same]
        exact serves.setFlow core _ fun state left => registeredOutcome_assigned served.balanced within left
  | expired core id =>
    cases step
    exact serves.setFlow core id (by simp)
  | swept now freed =>
    obtain ⟨flows, Q', _, expelled⟩ := step.expelled sound invariant
    exact ⟨expelled.cht ▸ serves.balanced, step.onServerSide sound ⟨Q, invariant⟩ serves.lan, flows ▸ serves.assigned⟩

theorem Routed.congr (routed : Routed config) (wan : setup.wanDevice = config.wanDevice) (fibs : setup.ip4Fibs = config.ip4Fibs)
    (capacity : setup.ip4PlyPoolCapacity = config.ip4PlyPoolCapacity) (pool : setup.loadBalancePool = config.loadBalancePool) :
    Routed setup := by
  intro dev dstAddr client
  have same : lookupLb setup dev dstAddr = lookupLb config dev dstAddr := by rw [lookupLb, lookupLb, fibs, capacity, pool]
  rw [same]
  rw [Setup.isWan, wan] at client
  exact routed dev dstAddr client

/-- What `nf_init` leaves before the first packet. -/
theorem nfInit_serves (height : config.chtHeight.Prime) (small : config.chtHeight * config.backendCapacity ≤ intMax)
    (positive : 0 < config.backendCapacity) (routed : Routed config)
    (ended : nfInit config tscHz backendExpirationTime permutations next memory = some (setup, init)) :
    Routed setup ∧ setup.Sound ∧ Holds setup init ∧ Serves setup (.start init) := by
  have bounded : config.backendCapacity < 2 ^ 31 := by
    have fits := (Nat.le_mul_of_pos_left config.backendCapacity height.pos).trans small
    unfold intMax at fits
    omega
  obtain ⟨sound, holds, empty⟩ := nfInit_holds positive bounded ended
  simp only [nfInit, Option.bind_eq_bind, Option.bind_eq_some_iff] at ended
  obtain ⟨backends, _, ⟨filled, cht⟩, fills, ended⟩ := ended
  dsimp only at ended
  split at ended
  · contradiction
  · simp only [Option.pure_def, Option.some.injEq, Prod.mk.injEq] at ended
    obtain ⟨rfl, rfl⟩ := ended
    refine ⟨routed.congr rfl rfl rfl rfl, sound, holds, ?_⟩
    have sized : config.chtHeight * config.backendCapacity ≤ (⟨config.backendCapacity * config.chtHeight, fun _ => 0⟩ : Block Nat).size :=
      (Nat.mul_comm _ _).le
    obtain ⟨r, same, rows⟩ := nfosChtFillCht_filled height positive small sized permutations next
    obtain ⟨_, rfl⟩ := Prod.mk.inj (Option.some.inj (fills.symm.trans same))
    constructor
    case balanced => exact ⟨height.pos, small, fun bucket within => rows.row_perm height within⟩
    case lan =>
      intro i member
      rw [show (State.start _).globalState.alive _ = ∅ from empty] at member
      exact absurd member (Set.notMem_empty i)
    case assigned => exact fun _ _ _ clash => absurd clash.symm (Option.some_ne_none _)

theorem serves_of_run (sound : setup.Sound) (routed : Routed setup) (run : Trace (Step setup) s history s') (holds : Holds setup s.globalState)
    (serves : Serves setup s) : Holds setup s'.globalState ∧ Serves setup s' :=
  run.keeps (P := fun s => Holds setup s.globalState ∧ Serves setup s) ⟨holds, serves⟩ fun _ _ _ ⟨holds, serves⟩ step =>
    ⟨step.holds sound holds, step.serves sound routed holds serves⟩

/-- With the routes and the table of `nf_init`, in every state that is reached the handlers of clients return
just what the destination, the flow and the backends that are alive say. A backend is found if and only if
one is alive. -/
theorem clients_served (height : config.chtHeight.Prime) (small : config.chtHeight * config.backendCapacity ≤ intMax)
    (positive : 0 < config.backendCapacity) {dscp : Nat → Nat} {plies : Nat → Mtrie.Ply8}
    (routes : nfInitRoutes given dscp plies = some config)
    (ended : nfInit config tscHz backendExpirationTime permutations next memory = some (setup, init))
    (run : Trace (Step setup) (.start init) history s) (grants : Nat → Nat → Bool) {call : Call (NfState Elements) Pkt PktSetState PktSetId}
    (here : call.globalState = s.globalState) (client : setup.isWan call.incomingDev = true) :
    nfUnknownPktSetHandler setup grants call = some (unknownOutcome setup s.globalState call.pkt) ∧
    (∀ core id state, s.flows core id = some state → call.localState = some state → ∃ i < setup.backendCapacity, state = ⟨(i : Int)⟩ ∧
      clientPktHandler setup grants call = some (registeredOutcome setup s.globalState call.pkt i
        (virtualService (bswap32 call.pkt.dstAddr)) (isGateway (bswap32 call.pkt.dstAddr)))) ∧
    ((preferredFor setup s.globalState call.pkt).isSome ↔ (s.globalState.alive setup).Nonempty) ∧
    ∀ i, preferredFor setup s.globalState call.pkt = some i → i ∈ s.globalState.alive setup := by
  obtain ⟨_, _, config', _, routes', routed⟩ := nfInitRoutes_routed given dscp plies
  obtain rfl := Option.some.inj (routes'.symm.trans routes)
  obtain ⟨routed, sound, holds, starts⟩ := nfInit_serves height small positive routed ended
  obtain ⟨_, serves⟩ := serves_of_run sound routed run holds starts
  rw [← here]
  have balanced : Balanced setup call.globalState.tables.cht := here ▸ serves.balanced
  have lan : ∀ i ∈ call.globalState.alive setup, setup.isWan (call.globalState.backendInfo i).dev = false := here ▸ serves.lan
  refine ⟨balanced.nfUnknownPktSetHandler lan, ?_, balanced.preferred_nonempty call.pkt,
    fun i preferred => balanced.preferred_alive preferred⟩
  intro core id state found stored
  obtain ⟨i, within, rfl⟩ := serves.assigned core id state found
  exact ⟨i, within, rfl, balanced.clientPktHandler routed lan client stored within⟩

end Runs

section Example

/-- The same load balancer with other routes. -/
def Setup.withRoutes (setup : Setup) (fibs : Mtrie.State) (capacity : Nat) (pool : Nat → LoadBalance) : Setup :=
  { setup with ip4Fibs := fibs, ip4PlyPoolCapacity := capacity, loadBalancePool := pool }

/-- The routes do not matter for the table of the backends. -/
theorem nfInit_withRoutes {config setup : Setup} {tscHz : Nat} {backendExpirationTime : Int} {permutations next : Nat → Int}
    {memory init : NfState Elements} (ended : nfInit config tscHz backendExpirationTime permutations next memory = some (setup, init))
    (fibs : Mtrie.State) (capacity : Nat) (pool : Nat → LoadBalance) :
    nfInit (config.withRoutes fibs capacity pool) tscHz backendExpirationTime permutations next memory =
      some (setup.withRoutes fibs capacity pool, init) := by
  simp only [nfInit, Option.bind_eq_bind, Option.bind_eq_some_iff] at ended
  obtain ⟨backends, allocated, ⟨filled, cht⟩, fills, ended⟩ := ended
  dsimp only at ended
  split at ended
  · contradiction
  · rename_i complete
    obtain ⟨rfl, rfl⟩ := Prod.mk.inj (Option.some.inj ended)
    simp only [nfInit, Setup.withRoutes, allocated, fills, Option.bind_eq_bind, Option.bind_some, if_neg complete]
    rfl

theorem heartbeatHandler_withRoutes (setup : Setup) (fibs : Mtrie.State) (capacity : Nat) (pool : Nat → LoadBalance) (core : Nat)
    (grants : Nat → Nat → Bool) (call : Call (NfState Elements) Pkt PktSetState PktSetId) :
    heartbeatHandler (setup.withRoutes fibs capacity pool) core grants call = heartbeatHandler setup core grants call := rfl

theorem nfUnknownPktSetHandler_withRoutes (setup : Setup) (fibs : Mtrie.State) (capacity : Nat) (pool : Nat → LoadBalance)
    (grants : Nat → Nat → Bool) (call : Call (NfState Elements) Pkt PktSetState PktSetId) :
    nfUnknownPktSetHandler (setup.withRoutes fibs capacity pool) grants call = nfUnknownPktSetHandler setup grants call := rfl

theorem wanDevices_eq : wanDevices = (exampleConfig .lb).wanDevice := by
  funext i
  revert i
  decide

/-- The first virtual address, in network byte order. -/
def virtualAddr : Nat := bswap32 0x76000001

theorem virtualService_virtualAddr : virtualService (bswap32 virtualAddr) = some 1 := by
  rw [virtualAddr, bswap32_bswap32 (by decide)]
  exact if_pos rfl

/-- A heartbeat and the first packet of a flow to the virtual address, whatever the routes are. -/
theorem one_backend_run (fibs : Mtrie.State) (capacity : Nat) (pool : Nat → LoadBalance) : ∃ (setup : Setup) (init : NfState Elements)
    (core : Fin setup.numCores) (first : Pkt) (s : State setup),
    nfInit ((exampleConfig .lb).withRoutes fibs capacity pool) 1000000 10000000 (fun _ => 0) (fun _ => 0) blankState = some (setup, init) ∧
    setup.isWan 0 = true ∧ Trace (Step setup) (.start init) [.heartbeat 7 0, .client core (flowOf 4 virtualAddr) first [.sendPkt 1]] s ∧
    s.flows core (flowOf 4 virtualAddr) = some ⟨(0 : Nat)⟩ ∧ 0 ∈ s.globalState.alive setup ∧ (s.globalState.backendInfo 0).dev = 1 := by
  have ran : ((nfInit (exampleConfig .lb) 1000000 10000000 (fun _ => 0) (fun _ => 0) blankState).bind fun z =>
      (heartbeatHandler z.1 0 (fun _ _ => true) (heartbeatCall z.2)).bind fun heard =>
        (nfUnknownPktSetHandler z.1 (fun _ _ => true) ⟨heard.globalState, ⟨⟨0, 0, 64, 6, 0, 1, virtualAddr, 4, 4, 0, []⟩, 0⟩, 0, none,
          flowOf 4 virtualAddr, 0, true⟩).map fun sent =>
          (z.1.numCores == 1 && z.1.backendCapacity == 2 && z.1.isWan 0 && !z.1.isWan 1 && !heard.abort && !sent.abort &&
            decide (sent.actions = [.sendPkt 1]) && decide (registers sent true = some ⟨(0 : Nat)⟩) &&
            decide (Marked z.1.numCores sent.globalState.tables.backends 0) &&
            decide ((sent.globalState.backendInfo 0).dev = 1))) = some true := by
    decide +kernel
  obtain ⟨⟨setup, init⟩, started, ran⟩ := Option.bind_eq_some_iff.mp ran
  obtain ⟨heard, beats, ran⟩ := Option.bind_eq_some_iff.mp ran
  obtain ⟨sent, first, checks⟩ := Option.map_eq_some_iff.mp ran
  simp only [Bool.and_eq_true, beq_iff_eq, Bool.not_eq_true', decide_eq_true_eq] at checks
  obtain ⟨⟨⟨⟨⟨⟨⟨⟨⟨cores, backends⟩, wan⟩, lan⟩, kept⟩, returned⟩, actions⟩, registered⟩, marked⟩, dev⟩ := checks
  let routed := setup.withRoutes fibs capacity pool
  let core : Fin routed.numCores := ⟨0, by change 0 < setup.numCores; omega⟩
  let s₀ : State routed := .start init
  let s₁ : State routed := { s₀ with globalState := heard.globalState }
  have wan' : routed.isWan 0 = true := wan
  have lan' : routed.isWan 1 = false := lan
  have begun : Step routed s₀ (.heartbeat 7 0) s₁ :=
    .heartbeat core (by simp [nfPktDispatcher, heartbeatCall, lan']) rfl
      ((heartbeatHandler_withRoutes ..).trans beats) kept
  have going := @Step.unknown routed s₁ (packetCall core s₁ 4 virtualAddr) sent _ core
    (by simp [nfPktDispatcher, packetCall, flowOf, wan']) rfl rfl ((nfUnknownPktSetHandler_withRoutes ..).trans first) returned
  rw [actions] at going
  refine ⟨routed, init, core, sent.pkt, _, nfInit_withRoutes started fibs capacity pool, wan',
    (Trace.start.extend begun).extend going, ?_, ⟨?_, marked⟩, dev⟩
  · simpa [State.setFlow, packetCall] using registered
  · change 0 < setup.backendCapacity
    omega

/-- A backend that is alive, and a flow to a virtual address that has been assigned to it. -/
theorem clients_served_balanced : ∃ config setup init core first s,
    nfInitRoutes (exampleConfig .lb) (fun _ => 0) Mtrie.samplePlies = some config ∧
    nfInit config 1000000 10000000 (fun _ => 0) (fun _ => 0) blankState = some (setup, init) ∧
    Trace (Step setup) (.start init) [.heartbeat 7 0, .client core (flowOf 4 virtualAddr) first [.sendPkt 1]] s ∧
    s.flows core (flowOf 4 virtualAddr) = some ⟨(0 : Nat)⟩ ∧
    let call := packetCall core s 4 virtualAddr
    nfUnknownPktSetHandler setup (fun _ _ => true) call = some (unknownOutcome setup s.globalState call.pkt) ∧
    clientPktHandler setup (fun _ _ => true) call = some (balancedOutcome setup s.globalState call.pkt 0 4) ∧
    (balancedOutcome setup s.globalState call.pkt 0 4).actions = [.sendPkt 1] ∧
    ∃ i, preferredFor setup s.globalState call.pkt = some i ∧ i ∈ s.globalState.alive setup := by
  obtain ⟨fibs, pool, config, same, routes, _⟩ := nfInitRoutes_routed (exampleConfig .lb) (fun _ => 0) Mtrie.samplePlies
  rw [wanDevices_eq] at same
  obtain ⟨setup, init, core, first, s, ended, wan, run, flow, present, dev⟩ := one_backend_run fibs ip4PlyPoolCapacity pool
  have ended' : nfInit config 1000000 10000000 (fun _ => 0) (fun _ => 0) blankState = some (setup, init) := same ▸ ended
  have height : config.chtHeight = 3 := by rw [same]; rfl
  have capacity : config.backendCapacity = 2 := by rw [same]; rfl
  have small : config.chtHeight * config.backendCapacity ≤ intMax := by
    rw [height, capacity]
    decide
  obtain ⟨unknown, registered, found, alive⟩ := clients_served (height ▸ Nat.prime_three) small (capacity ▸ Nat.two_pos) routes ended' run
    (fun _ _ => true) (show (packetCall core s 4 virtualAddr).globalState = s.globalState from rfl) wan
  obtain ⟨i, preferred⟩ := Option.isSome_iff_exists.mp (found.mpr ⟨0, present⟩)
  obtain ⟨j, _, assigned, handled⟩ := registered core (flowOf 4 virtualAddr) _ flow flow
  obtain rfl : j = 0 := by simpa using assigned.symm
  have to_virtual : (packetCall core s 4 virtualAddr).pkt.dstAddr = virtualAddr := rfl
  rw [to_virtual, virtualService_virtualAddr] at handled
  refine ⟨config, setup, init, core, first, s, routes, ended', run, flow, unknown, handled, ?_, i, preferred, alive i preferred⟩
  have served : servedBy setup s.globalState (packetCall core s 4 virtualAddr).pkt 0 = some 0 := if_pos present.2
  rw [balancedOutcome, served]
  change [Action.sendPkt (s.globalState.backendInfo 0).dev] = _
  rw [dev]

end Example
end Nfos.Maglev
