import Nfos.Sessions
import Nfos.DataPlane

/-! `fw-nat`: a NAT whose packet sets are the flows of internal endpoints. -/
namespace Nfos.FwNat
open Txn Tx Casts Function Vectors Map DoubleChain NfUtil DataPlane Sessions

def eiNatSecond : Int := 3000000000

/-- `UINT32_MAX` -/
def flowSizeThreshold : UInt32 := 4294967295

structure SessionData where
  lastUsed : Int
  intIp : Nat
  intPort : Nat

structure PktSetId where
  srcPort : Nat
  dstPort : Nat
  srcIp : Nat
  dstIp : Nat
  protocol : Nat
  deriving DecidableEq

structure PktSetState where
  flowSize : UInt32
  deriving DecidableEq

abbrev NfState : Type := Store SessionData Objects

/-- What does not change: the configuration, the map without its entries, the number of
cores and the checksum functions. -/
structure Setup where
  cfg : NfConfig
  map : NfosMap Session
  numCores : Nat
  sums : Checksums

/-- The part of `nf_init` about the sessions. -/
def nfInit (cfg : NfConfig) (sums : Checksums) (crc32si : Nat → Nat → Nat) (maxNumSessions numCores : Nat) (memory : NfState) :
    Option (Setup × NfState) := do
  let (map, s) ← Sessions.nfInit cfg crc32si maxNumSessions numCores ⟨0, 0, 0⟩ memory
  return (⟨cfg, map, numCores, sums⟩, s)

section Handlers
variable (setup : Setup)

def nfPktDispatcher (pkt : Pkt) (incomingDev : Nat) : Dispatch PktSetId :=
  if incomingDev ≠ setup.cfg.wanDevice then
    ⟨0, ⟨pkt.srcPort, pkt.dstPort, pkt.srcAddr, pkt.dstAddr, pkt.nextProtoId⟩, true⟩
  else ⟨1, ⟨0, 0, 0, 0, 0⟩, false⟩

/-- The packet and the device to which it is sent, `none` for a failed assertion. -/
def natPktAction (pkt : Pkt) (ip port incomingDev : Nat) : Option (Pkt × Nat) :=
  if incomingDev = setup.cfg.wanDevice then none
  else
    let pkt := { pkt with srcPort := port, srcAddr := ip }
    some (nfSetIpv4UdptcpChecksum setup.sums pkt, u16 (1 - incomingDev))

/-- Get the session or create a new one, `none` if that fails. -/
def getSession (core : Nat) (key : Session) (now : Int) : Txs (Store SessionData Log) (Option Int) := do
  match ← onMap (nfosMapGet setup.map key) with
  | some sessIndex => return some sessIndex
  | none =>
    let ret ← allocSession setup.cfg setup.map setup.numCores core (fun _ => ⟨now, key.srcAddr, key.srcPort⟩) key
    return ret.map Int.ofNat

/-- Refresh the session if it was last refreshed 1 sec ago. -/
def refreshSession (sessIndex : Nat) (now : Int) : Txs (Store SessionData Log) Unit := do
  let sessData ← onData (nfosVectorBorrow sessIndex)
  if now > sessData.lastUsed + eiNatSecond then
    let sessData ← onData (nfosVectorBorrowMut sessIndex)
    onData (modify sessData fun d => { d with lastUsed := now })
  else
    return ()

/-- The access of `pkt_handler` to the shared state: the external address and port of the
session, `none` if there is no session. -/
def translate (core : Nat) (key : Session) (now : Int) : Txs (Store SessionData Log) (Option (Nat × Nat)) := do
  match ← getSession setup core key now with
  | none => return none
  | some sessIndex => do
    refreshSession sessIndex.toNat now
    return some (sessIdToExtTuple setup.cfg sessIndex key.proto)

/-- A dropped packet is handled on: `drop_pkt` has no effect. -/
def pktHandler (core : Nat) (grants : Nat → Nat → Bool) (call : Call NfState Pkt PktSetState PktSetId) :
    Option (Outcome NfState Pkt PktSetState PktSetId) := do
  let localState ← call.localState
  let actions := if call.pkt.timeToLive ≤ 1 then [Action.dropPkt] else []
  let (actions, localState) :=
    if localState.flowSize > flowSizeThreshold then (actions ++ [.dropPkt], localState)
    else (actions, { localState with flowSize := localState.flowSize + 1 })
  match translate setup core (sessionKey call.pkt) call.time grants call.globalState.start with
  | .error .fault => none
  | .error .abort => return ⟨true, actions, call.globalState, call.pkt, some localState, none⟩
  | .ok (none, l) => return ⟨false, actions ++ [.dropPkt], l.view, call.pkt, some localState, none⟩
  | .ok (some (extIp, extPort), l) =>
    let (pkt, dstDev) ← natPktAction setup call.pkt extIp extPort call.incomingDev
    return ⟨false, actions ++ [.sendPkt dstDev], l.view, pkt, some localState, none⟩

/-- The state is registered as it is before the first packet; that of `pkt_handler` is on
the stack. -/
def nfUnknownPktSetHandler (core : Nat) (grants : Nat → Nat → Bool) (call : Call NfState Pkt PktSetState PktSetId) :
    Option (Outcome NfState Pkt PktSetState PktSetId) := do
  let localState : PktSetState := ⟨0⟩
  let outcome ← pktHandler setup core grants { call with localState := some localState }
  return { outcome with localState := none, added := some (localState, none) }

/-- `wan_handler` is not implemented, its assertion fails. -/
def pktHandlers (core pktClass : Nat) (grants : Nat → Nat → Bool) (call : Call NfState Pkt PktSetState PktSetId) :
    Option (Outcome NfState Pkt PktSetState PktSetId) :=
  if pktClass = 0 then pktHandler setup core grants call else none

/-- The functions of the NF. `headers` reads the headers of a packet and checks that they
are complete. -/
def nf {B : Type} (core : Nat) (headers : B → Bool × Pkt) : NF (Nat → Nat → Bool) NfState Pkt PktSetState PktSetId B where
  nfPktParser buffer := ((headers buffer).1 && nfHasTcpudpHeader (headers buffer).2.nextProtoId, (headers buffer).2)
  nfPktDispatcher := nfPktDispatcher setup
  pktHandlers := pktHandlers setup core
  nfUnknownPktSetHandler := nfUnknownPktSetHandler setup core

end Handlers

section Sessions
variable {setup : Setup} {find : Session → Option Int} {l : Store SessionData Log} {key : Session} {now : Int}
variable {s s' : NfState} {history : List Rewrite}

def endpoint (d : SessionData) : Nat × Nat := (d.intIp, d.intPort)

/-- The session of the key after the lookup or the allocation. -/
def HasSession (setup : Setup) (find : Session → Option Int) (key : Session) (v : Int) (l : Store SessionData Log) : Prop :=
  ∃ find', Grows find find' ∧ find' key = some v ∧ Invariant setup.cfg setup.map setup.numCores endpoint l.view find'

theorem ensures_getSession (exact : setup.map.Exact) (room : 2 * setup.cfg.numAvailExtTuples ≤ setup.map.capacity)
    (invariant : Invariant setup.cfg setup.map setup.numCores endpoint l.view find) (core : Fin setup.numCores)
    (accepted : nfHasTcpudpHeader key.proto = true) :
    Txs.Ensures (getSession setup core.val key now) l fun sessIndex l' =>
      ∃ v, sessIndex = some v ∧ HasSession setup find key v l' := by
  refine Txs.ensures_bind (P := fun (sessIndex : Option Int) l' => l' = l ∧ sessIndex = find key) ?_ ?_
  · apply Txs.ensures_on
    intro grants
    apply (post_get_lookup exact invariant.lookup key).mono
    rintro result t ⟨rfl, found⟩
    exact ⟨rfl, found⟩
  · rintro sessIndex m ⟨rfl, found⟩
    cases sessIndex with
    | some v =>
      apply Txs.ensures_pure
      exact ⟨v, rfl, find, fun _ _ same => same, found.symm, invariant⟩
    | none =>
      refine Txs.ensures_bind (ensures_allocSession exact invariant core (fun _ => rfl) accepted found.symm) ?_
      intro result l' outcome
      obtain ⟨i, rfl, _, invariant', _⟩ := outcome.some room
      apply Txs.ensures_pure
      exact ⟨i, rfl, _, grows_added found.symm, if_pos rfl, invariant'⟩

theorem ensures_refreshSession (i : Nat) : Txs.Ensures (refreshSession i now) l fun _ l' =>
    l'.view.sessionMap = l.view.sessionMap ∧ l'.view.sessIndexesTcp = l.view.sessIndexesTcp ∧
    l'.view.sessIndexesUdp = l.view.sessIndexesUdp ∧
    ∀ j, endpoint (l'.view.sessionData j) = endpoint (l.view.sessionData j) := by
  refine Txs.ensures_bind (P := fun (_ : SessionData) l' => l = l') ?_ ?_
  · exact ensures_nfosVectorBorrow rfl rfl
  · rintro sessData _ rfl
    apply Txs.ensures_ite
    · intro old
      refine Txs.ensures_bind (P := fun (sessData : Ref SessionData) l' => sessData = .pending i ∧ l'.view = l.view) ?_ ?_
      · apply ensures_nfosVectorBorrowMut
        refine ⟨rfl, ?_⟩
        simp [Store.view]
      · rintro _ m ⟨rfl, same⟩
        apply ensures_modify
        rw [← same]
        refine ⟨rfl, rfl, rfl, ?_⟩
        intro j
        by_cases here : j = i
        · subst here
          simp [Store.view, endpoint]
        · simp [Store.view, here]
    · intro recent
      apply Txs.ensures_pure
      exact ⟨rfl, rfl, rfl, fun j => rfl⟩

theorem ensures_translate (exact : setup.map.Exact) (room : 2 * setup.cfg.numAvailExtTuples ≤ setup.map.capacity)
    (invariant : Invariant setup.cfg setup.map setup.numCores endpoint l.view find) (core : Fin setup.numCores)
    (accepted : nfHasTcpudpHeader key.proto = true) :
    Txs.Ensures (translate setup core.val key now) l fun result l' =>
      ∃ v, result = some (sessIdToExtTuple setup.cfg v key.proto) ∧ HasSession setup find key v l' := by
  refine Txs.ensures_bind (ensures_getSession exact room invariant core accepted) ?_
  rintro _ m ⟨v, rfl, find', grows, found, invariant'⟩
  refine Txs.ensures_bind (ensures_refreshSession v.toNat) ?_
  rintro _ l' ⟨sessionMap, tcp, udp, same⟩
  apply Txs.ensures_pure
  exact ⟨v, rfl, find', grows, found, invariant'.of_data same sessionMap tcp udp⟩

/-- The state and the packet that a handler leaves when it does not abort. -/
theorem pktHandler_returned {core : Nat} {grants : Nat → Nat → Bool} {call : Call NfState Pkt PktSetState PktSetId}
    {outcome : Outcome NfState Pkt PktSetState PktSetId} (ran : pktHandler setup core grants call = some outcome)
    (returned : outcome.abort = false) :
    ∃ ext l, translate setup core (sessionKey call.pkt) call.time grants call.globalState.start = .ok (ext, l) ∧
      outcome.globalState = l.view ∧ ∀ x, ext = some x → (outcome.pkt.srcAddr, outcome.pkt.srcPort) = x := by
  simp only [pktHandler, Option.bind_eq_bind, Option.bind_eq_some_iff] at ran
  obtain ⟨localState, _, ran⟩ := ran
  split at ran
  · contradiction
  · obtain rfl := Option.some.inj ran
    contradiction
  · rename_i l translated
    obtain rfl := Option.some.inj ran
    refine ⟨none, l, translated, rfl, ?_⟩
    intro x same
    contradiction
  · rename_i extIp extPort l translated
    simp only [Option.bind_eq_some_iff, natPktAction] at ran
    obtain ⟨⟨pkt, dstDev⟩, acted, ran⟩ := ran
    obtain rfl := Option.some.inj ran
    split at acted
    · contradiction
    · obtain ⟨rfl, rfl⟩ := Prod.mk.inj (Option.some.inj acted)
      refine ⟨_, l, translated, rfl, ?_⟩
      rintro _ ⟨⟩
      simp

/-- A committed call of `pkt_handler` for a packet from the LAN, by any core and with any
locks granted. -/
def Step (setup : Setup) (s : NfState) (e : Rewrite) (s' : NfState) : Prop :=
  ∃ (core : Fin setup.numCores) (grants : Nat → Nat → Bool) (call : Call NfState Pkt PktSetState PktSetId)
    (outcome : Outcome NfState Pkt PktSetState PktSetId) (ext : Option (Nat × Nat)) (l : Store SessionData Log),
    call.globalState = s ∧ call.incomingDev ≠ setup.cfg.wanDevice ∧ nfHasTcpudpHeader call.pkt.nextProtoId = true ∧
    translate setup core.val (sessionKey call.pkt) call.time grants s.start = .ok (ext, l) ∧
    pktHandler setup core.val grants call = some outcome ∧ outcome.abort = false ∧ outcome.globalState = s' ∧
    e = (sessionKey call.pkt, ext.map fun _ => (outcome.pkt.srcAddr, outcome.pkt.srcPort))

theorem step_mapped (exact : setup.map.Exact) (room : 2 * setup.cfg.numAvailExtTuples ≤ setup.map.capacity)
    (invariant : Invariant setup.cfg setup.map setup.numCores endpoint s find) {e : Rewrite} (step : Step setup s e s') :
    nfHasTcpudpHeader e.1.proto = true ∧ ∃ v find', Grows find find' ∧ find' e.1 = some v ∧
      e.2 = some (sessIdToExtTuple setup.cfg v e.1.proto) ∧
      Invariant setup.cfg setup.map setup.numCores endpoint s' find' := by
  obtain ⟨core, grants, call, outcome, ext, l, rfl, lan, accepted, translated, handled, returned, rfl, rfl⟩ := step
  obtain ⟨v, rfl, find', grows, found, invariant'⟩ :=
    ensures_translate exact room (l := call.globalState.start) invariant core accepted grants _ _ translated
  obtain ⟨_, l', again, state, source⟩ := pktHandler_returned handled returned
  obtain ⟨rfl, rfl⟩ := Prod.mk.inj (Except.ok.inj (translated.symm.trans again))
  refine ⟨accepted, v, find', grows, found, ?_, state ▸ invariant'⟩
  exact congrArg some (source _ rfl)

/-- No packet is dropped for want of a session. -/
theorem run_mapped (exact : setup.map.Exact) (room : 2 * setup.cfg.numAvailExtTuples ≤ setup.map.capacity)
    (initial : Invariant setup.cfg setup.map setup.numCores endpoint s fun _ => none) 
    (run : Run.Trace (Step setup) s history s') :
    ∃ find, Invariant setup.cfg setup.map setup.numCores endpoint s' find ∧ Mapped setup.cfg find history ∧
      ∀ e ∈ history, e.2 ≠ none := by
  apply run.rule (P := fun history s' => ∃ find, Invariant setup.cfg setup.map setup.numCores endpoint s' find ∧
    Mapped setup.cfg find history ∧ ∀ e ∈ history, e.2 ≠ none)
  · refine ⟨_, initial, ?_, ?_⟩ <;> simp [Mapped]
  · rintro past t e u _ ⟨find, invariant, mapped, rewritten⟩ step
    obtain ⟨accepted, v, find', grows, found, tuple, invariant'⟩ := step_mapped exact room invariant step
    refine ⟨find', invariant', mapped.extend grows accepted ?_, ?_⟩
    · intro ext same
      exact ⟨v, found, Option.some.inj (same.symm.trans tuple)⟩
    · intro e' member
      rcases List.mem_append.mp member with old | new
      · exact rewritten e' old
      · rw [List.mem_singleton.mp new, tuple]
        exact Option.some_ne_none _

theorem nfInit_ends (cfg : NfConfig) (sums : Checksums) (crc32si : Nat → Nat → Nat) (maxNumSessions : Nat) {numCores : Nat}
    (memory : NfState) (cores : 0 < numCores) (enough : numCores ≤ cfg.numAvailExtTuples) :
    ∃ s, nfInit cfg sums crc32si maxNumSessions numCores memory = some (⟨cfg,
      (nfosMapAllocate sessionEqual (sessionHash crc32si) (2 * maxNumSessions) memory.sessionMap).1, numCores, sums⟩, s) := by
  obtain ⟨s, sessions⟩ := Sessions.nfInit_ends cfg crc32si maxNumSessions (⟨0, 0, 0⟩ : SessionData) memory cores enough
  refine ⟨s, ?_⟩
  simp only [nfInit, sessions, Option.bind_eq_bind, Option.bind_some]
  rfl

/-- The NAT as `nf_init` sets it up. -/
theorem nfInit_mapped {cfg : NfConfig} {sums : Checksums} {crc32si : Nat → Nat → Nat} {maxNumSessions numCores : Nat}
    {memory : NfState} (ended : nfInit cfg sums crc32si maxNumSessions numCores memory = some (setup, s))
    (small : 2 * maxNumSessions ≤ 2 ^ 31) (room : 2 * setup.cfg.numAvailExtTuples ≤ setup.map.capacity)
    (run : Run.Trace (Step setup) s history s') :
    Correct setup.cfg setup.map setup.numCores endpoint history s' ∧ ∀ e ∈ history, e.2 ≠ none := by
  obtain ⟨⟨map, s⟩, sessions, rest⟩ := Option.bind_eq_some_iff.mp ended
  obtain ⟨rfl, rfl⟩ := Prod.mk.inj (Option.some.inj rest)
  obtain ⟨exact, initial⟩ : map.Exact ∧ Invariant cfg map numCores endpoint s fun _ => none :=
    nfInit_invariant sessions small room
  obtain ⟨find, invariant, mapped, rewritten⟩ := @run_mapped ⟨cfg, map, numCores, sums⟩ s s' history exact room initial run
  have few : cfg.numAvailExtTuples ≤ 2 ^ 32 := by
    have bound := exact.bound
    have size : 2 * cfg.numAvailExtTuples ≤ map.capacity := room
    omega
  exact ⟨mapped.correct exact invariant few, rewritten⟩

end Sessions
end Nfos.FwNat
