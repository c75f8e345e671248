import Nfos.FwPolicy
import Nfos.RouteTables
import Nfos.PacketContents
import Nfos.MainLoop

/-! What the firewall forwards with the routes of its configuration: every packet goes to the other one
of two devices or is dropped, as the history says. -/
namespace Nfos.Fw
open Function Casts DataPlane EiNat LoadBalancing Mtrie Run PktSetManager

section Routes

def lanDevice : Nat := 0

def wanDevice : Nat := 1

def lbCapacity : Nat := 2

def ip4PlyPoolCapacity : Nat := 5

def wanDpo : Dpo := ⟨.forward, wanDevice, etherAddr [0x12, 0x34, 0x56, 0x78, 0x90, 0xab]⟩

/-- `ENDPOINT_MAC` with the device added to its first byte. -/
def endpointMac (i : Nat) : Nat := etherAddr [(0x01 + i) % 256, 0x23, 0x45, 0x56, 0x78, 0x9a]

/-- The load balances of `nf_init`: that of the packets to be dropped and that of the others. -/
def createLoadBalances (dscp : Nat → Nat) : Option (Nat × Nat × Pool) := do
  let (index0, pool) ← loadBalanceCreate lbCapacity [dropDpo] (lbNullInit dscp)
  let (index1, pool) ← loadBalanceCreate lbCapacity [wanDpo] pool
  return (index0, index1, pool)

/-- The routes of the two devices: all destinations but the address 0 are behind the WAN. -/
def tables (index0 index1 : Nat) : List Table := [⟨lanDevice, index1, [(0, index0)]⟩, ⟨wanDevice, index1, [(0, index0)]⟩]

/-- The part of `nf_init` about the configuration and the routes, which are to be added to the tables;
`none` is a failed assertion. -/
def nfInitWith (deviceMacs dscp : Nat → Nat) (add : List Route → Except Mtrie.Fault State) : Option Setup := do
  let (index0, index1, pool) ← createLoadBalances dscp
  let fibs ← (add ((tables index0 index1).flatMap Table.routes)).toOption
  return ⟨wanDevice, deviceMacs, endpointMac, fibs, ip4PlyPoolCapacity, fun i => (pool.loadBalances i).lbBuckets⟩

def nfInit (deviceMacs dscp : Nat → Nat) (plies : Nat → Ply8) : Option Setup :=
  nfInitWith deviceMacs dscp fun routes => addRoutes ip4PlyPoolCapacity routes (Mtrie.initial plies)

/-- The route to a destination, the same one from both devices. -/
def routeTo (dstAddr : Nat) : Dpo := if bswap32 dstAddr = 0 then dropDpo else wanDpo

structure Configured (deviceMacs : Nat → Nat) (setup : Setup) : Prop where
  wan : setup.wanDevice = wanDevice
  macs : setup.deviceMacs = deviceMacs
  endpoints : setup.endpointMacs = endpointMac
  routes : ∀ dev < 2, ∀ dstAddr, lookupDpo setup dev dstAddr = some (routeTo dstAddr)

theorem createLoadBalances_eq (dscp : Nat → Nat) : ∃ pool, createLoadBalances dscp = some (0, 1, pool) ∧
    (pool.loadBalances 0).lbBuckets = [dropDpo] ∧ (pool.loadBalances 1).lbBuckets = [wanDpo] := ⟨_, rfl, rfl, rfl⟩

theorem tables_valid : ∀ t ∈ tables 0 1, t.Valid := by
  intro t member
  simp only [tables, List.mem_cons, List.not_mem_nil, or_false] at member
  rcases member with rfl | rfl <;> constructor <;> simp

theorem tables_room : (needed ((tables 0 1).flatMap Table.routes)).card ≤ ip4PlyPoolCapacity := by decide

theorem tables_choose {dev : Nat} (two : dev < 2) (x : Nat) :
    ∃ t ∈ tables 0 1, t.trie = dev ∧ t.choose x = if x = 0 then 0 else 1 := by
  obtain rfl | rfl : dev = 0 ∨ dev = 1 := by omega
  · exact ⟨_, List.mem_cons_self, rfl, by simp [Table.choose, eq_comm]⟩
  · exact ⟨_, List.mem_cons_of_mem _ List.mem_cons_self, rfl, by simp [Table.choose, eq_comm]⟩

theorem lookupDpo_tables {setup : Setup} {dev dstAddr leaf : Nat}
    (looked : Mtrie.lookup setup.ip4PlyPoolCapacity setup.ip4Fibs dev (bswap32 dstAddr) = .ok leaf)
    (index : leaf >>> 1 = if bswap32 dstAddr = 0 then 0 else 1) (drop : setup.loadBalancePool 0 = [dropDpo])
    (wan : setup.loadBalancePool 1 = [wanDpo]) : lookupDpo setup dev dstAddr = some (routeTo dstAddr) := by
  simp only [lookupDpo, looked, Except.toOption, Option.bind_eq_bind, Option.bind_some, index, routeTo]
  split
  · rw [drop, List.getElem?_cons_zero]
  · rw [wan, List.getElem?_cons_zero]

theorem nfInitWith_eq {deviceMacs dscp : Nat → Nat} {add : List Route → Except Mtrie.Fault State} {pool : Pool} {fibs : State}
    (created : createLoadBalances dscp = some (0, 1, pool)) (added : add ((tables 0 1).flatMap Table.routes) = .ok fibs) :
    nfInitWith deviceMacs dscp add =
      some ⟨wanDevice, deviceMacs, endpointMac, fibs, ip4PlyPoolCapacity, fun i => (pool.loadBalances i).lbBuckets⟩ := by
  simp only [nfInitWith, created, added, Except.toOption, Option.bind_eq_bind, Option.bind_some, Option.pure_def]

/-- The pools are large enough for the routes. -/
theorem nfInit_configured (deviceMacs dscp : Nat → Nat) (plies : Nat → Ply8) :
    ∃ setup, nfInit deviceMacs dscp plies = some setup ∧ Configured deviceMacs setup := by
  obtain ⟨fibs, added, found⟩ := tables_lookup (Nat.le_of_lt (by decide)) plies tables_valid (by decide) tables_room
  obtain ⟨pool, created, drop, wan⟩ := createLoadBalances_eq dscp
  let setup : Setup := ⟨wanDevice, deviceMacs, endpointMac, fibs, ip4PlyPoolCapacity, fun i => (pool.loadBalances i).lbBuckets⟩
  have routes : ∀ dev < 2, ∀ dstAddr, lookupDpo setup dev dstAddr = some (routeTo dstAddr) := by
    intro dev two dstAddr
    obtain ⟨t, member, trie, choice⟩ := tables_choose two (bswap32 dstAddr)
    obtain ⟨leaf, looked, index⟩ := found t member _ (bswap32_lt dstAddr)
    rw [trie] at looked
    exact lookupDpo_tables looked (index.trans choice) drop wan
  exact ⟨setup, nfInitWith_eq created added, rfl, rfl, rfl, routes⟩

end Routes

section Handlers
variable {setup : Setup} {deviceMacs : Nat → Nat} {call : Call Unit Pkt PktSetState PktSetId}
variable {outcome : Outcome Unit Pkt PktSetState PktSetId}

/-- A packet from the LAN behind its handler. -/
def fromLan (deviceMacs : Nat → Nat) (pkt : Pkt) : Pkt × Action :=
  if bswap32 pkt.dstAddr = 0 then (pkt, .dropPkt)
  else ({ pkt with srcMac := deviceMacs wanDevice, dstMac := wanDpo.dstMacAddress }, .sendPkt wanDevice)

/-- A packet from the WAN behind the handler of its flow. -/
def fromWan (deviceMacs : Nat → Nat) (pkt : Pkt) (internalDevice : Nat) : Pkt × Action :=
  ({ pkt with srcMac := deviceMacs internalDevice, dstMac := endpointMac internalDevice }, .sendPkt internalDevice)

theorem device_cases {dev : Nat} (two : dev < 2) : dev = lanDevice ∨ dev = wanDevice := by
  unfold lanDevice wanDevice
  omega

theorem Configured.forwardPkt (configured : Configured deviceMacs setup) (pkt : Pkt) (internalDevice : Nat) :
    forwardPkt setup pkt lanDevice internalDevice = some ((fromLan deviceMacs pkt).1, [(fromLan deviceMacs pkt).2]) ∧
    forwardPkt setup pkt wanDevice internalDevice =
      some ((fromWan deviceMacs pkt internalDevice).1, [(fromWan deviceMacs pkt internalDevice).2]) := by
  constructor
  · have lan : lanDevice ≠ setup.wanDevice := by
      rw [configured.wan]
      decide
    rw [Fw.forwardPkt, if_neg lan, configured.routes lanDevice (by decide), fromLan]
    by_cases zero : bswap32 pkt.dstAddr = 0
    · simp [routeTo, zero, dropDpo]
    · simp [routeTo, zero, wanDpo, configured.macs]
  · rw [Fw.forwardPkt, if_pos configured.wan.symm, configured.macs, configured.endpoints]
    rfl

theorem Configured.pktHandler (configured : Configured deviceMacs setup) {state : PktSetState} (two : call.incomingDev < 2)
    (given : call.localState = some state) : ∃ out : Pkt × Action,
      out = (if call.incomingDev = lanDevice then fromLan deviceMacs call.pkt else fromWan deviceMacs call.pkt state.internalDevice) ∧
      pktHandler setup call = some ⟨false, ttlActions call.pkt ++ [out.2], (), out.1,
        some (trackFlags setup call.pkt call.incomingDev state), none⟩ := by
  refine ⟨_, rfl, pktHandler_iff.mpr ⟨state, _, _, given, ?_, rfl⟩⟩
  obtain ⟨lan, wan⟩ := configured.forwardPkt call.pkt state.internalDevice
  rcases device_cases two with inside | outside
  · rw [if_pos inside, inside, lan]
  · have apart : wanDevice ≠ lanDevice := by decide
    rw [outside, if_neg apart, wan]

theorem Configured.nfUnknownPktSetHandler (configured : Configured deviceMacs setup) (two : call.incomingDev < 2) :
    nfUnknownPktSetHandler setup call = some (
      if call.incomingDev = lanDevice then
        ⟨false, ttlActions call.pkt ++ [(fromLan deviceMacs call.pkt).2], (), (fromLan deviceMacs call.pkt).1, none,
          some (⟨lanDevice, fun _ => 0⟩, none)⟩
      else ⟨false, [.dropPkt], (), call.pkt, none, none⟩) := by
  rw [nfUnknownPktSetHandler_iff, configured.wan]
  rcases device_cases two with lan | wan
  · have inside : lanDevice ≠ wanDevice := by decide
    rw [lan, if_neg inside, if_pos rfl]
    exact ⟨_, _, (configured.forwardPkt call.pkt lanDevice).1, rfl⟩
  · have outside : wanDevice ≠ lanDevice := by decide
    rw [wan, if_pos rfl, if_neg outside]

/-- No assertion fails for a packet from the two devices, and no packet leaves by another one than the other
device and that of its flow. -/
theorem handlers_forward {dscp : Nat → Nat} {plies : Nat → Ply8} (started : nfInit deviceMacs dscp plies = some setup)
    (two : call.incomingDev < 2) :
    (∀ state, call.localState = some state → ∃ out : Pkt × Action,
      out = (if call.incomingDev = lanDevice then fromLan deviceMacs call.pkt else fromWan deviceMacs call.pkt state.internalDevice) ∧
      Fw.pktHandler setup call = some ⟨false, ttlActions call.pkt ++ [out.2], (), out.1,
        some (trackFlags setup call.pkt call.incomingDev state), none⟩) ∧
    Fw.nfUnknownPktSetHandler setup call = some (
      if call.incomingDev = lanDevice then
        ⟨false, ttlActions call.pkt ++ [(fromLan deviceMacs call.pkt).2], (), (fromLan deviceMacs call.pkt).1, none,
          some (⟨lanDevice, fun _ => 0⟩, none)⟩
      else ⟨false, [.dropPkt], (), call.pkt, none, none⟩) := by
  obtain ⟨setup', ended, configured⟩ := nfInit_configured deviceMacs dscp plies
  obtain rfl := Option.some.inj (started.symm.trans ended)
  exact ⟨fun state given => configured.pktHandler two given, configured.nfUnknownPktSetHandler two⟩

end Handlers

section Batches
variable {B : Type} {setup : Setup} {headers : B → Bool × Pkt} {ctx : Context Unit Unit Pkt PktSetState PktSetId B}
variable {deviceMacs : Nat → Nat} {call : Call Unit Pkt PktSetState PktSetId} {outcome : Outcome Unit Pkt PktSetState PktSetId}
variable {branch : Branch} {pktClass : Nat} {contention : Unit}

theorem forwardPkt_dstAddr {pkt pkt' : Pkt} {dev internalDevice : Nat} {actions : List Action}
    (forwarded : forwardPkt setup pkt dev internalDevice = some (pkt', actions)) : pkt'.dstAddr = pkt.dstAddr := by
  unfold forwardPkt at forwarded
  split at forwarded
  · obtain ⟨rfl, _⟩ := Prod.mk.inj (Option.some.inj forwarded)
    rfl
  · simp only [Option.bind_eq_bind, Option.bind_eq_some_iff] at forwarded
    obtain ⟨dpo, _, forwarded⟩ := forwarded
    split at forwarded
    all_goals
      obtain ⟨rfl, _⟩ := Prod.mk.inj (Option.some.inj forwarded)
      rfl

/-- A handler leaves the destination. One that is called for a packet from the LAN looks up its route. -/
theorem handler_cases (isFw : ctx.nf = nf setup headers) (ran : ctx.handler branch pktClass contention call = some outcome) :
    outcome.pkt.dstAddr = call.pkt.dstAddr ∧ (call.incomingDev ≠ setup.wanDevice → ∃ internalDevice action,
      forwardPkt setup call.pkt call.incomingDev internalDevice = some (outcome.pkt, action) ∧
        outcome.actions = ttlActions call.pkt ++ action) := by
  unfold Context.handler at ran
  rw [isFw] at ran
  cases branch with
  | unknown =>
    change nfUnknownPktSetHandler setup call = some outcome at ran
    rw [nfUnknownPktSetHandler_iff] at ran
    split at ran
    · rename_i wan
      subst ran
      exact ⟨rfl, fun lan => absurd wan lan⟩
    · obtain ⟨pkt, action, forwarded, rfl⟩ := ran
      exact ⟨forwardPkt_dstAddr forwarded, fun _ => ⟨_, _, forwarded, rfl⟩⟩
  | noPktSet | registered =>
    change pktHandler setup call = some outcome at ran
    obtain ⟨state, pkt, action, _, forwarded, rfl⟩ := pktHandler_iff.mp ran
    exact ⟨forwardPkt_dstAddr forwarded, fun _ => ⟨_, _, forwarded, rfl⟩⟩

def SameDestination (parsed pkt : Pkt) : Prop := pkt.dstAddr = parsed.dstAddr

theorem handlersKeep_destination (isFw : ctx.nf = nf setup headers) : HandlersKeep ctx SameDestination := by
  intro branch pktClass contention call outcome parsed ran kept
  exact (handler_cases isFw ran).1.trans kept

/-- The device that is reported for a packet from the LAN. -/
def lanDestination (dstAddr : Nat) : Nat := if bswap32 dstAddr = 0 then lanDevice else wanDevice

theorem deliver_fromLan (deviceMacs : Nat → Nat) (pkt : Pkt) (dst : Nat) :
    deliver dst (ttlActions pkt ++ [(fromLan deviceMacs pkt).2]) = if bswap32 pkt.dstAddr = 0 then dst else wanDevice := by
  have checked : deliver dst (ttlActions pkt) = dst := by
    unfold ttlActions
    split <;> rfl
  rw [deliver_append, checked, fromLan]
  split <;> rfl

/-- A packet of a batch from the LAN is reported for the WAN, whatever is aborted. -/
theorem processPkts_lan {mbufs : Nat → B} {batchSize : Nat} {attempts rest : List (Attempt Unit Unit)}
    {p p' : Plane Unit Pkt PktSetState PktSetId} (configured : Configured deviceMacs setup) (isFw : ctx.nf = nf setup headers)
    (lan : ctx.device = lanDevice) (ran : processPkts ctx mbufs batchSize attempts p = some (p', rest)) {i : Nat}
    (within : i < batchSize) (parsed : (ctx.nf.nfPktParser (mbufs i)).1 = true) :
    p'.dstDevices i = lanDestination (ctx.nf.nfPktParser (mbufs i)).2.dstAddr := by
  obtain ⟨left, last, _, destination, recorded⟩ := MainLoop.processPkts_decided ran within parsed
  have preserved := processPkts_preserved (handlersKeep_destination isFw) (fun _ => rfl) ran
  have inside : lanDevice ≠ setup.wanDevice := by
    rw [configured.wan]
    decide
  have sends : ∀ v ∈ left ++ [last], ∀ dst, deliver dst v.actions =
      if bswap32 (ctx.nf.nfPktParser (mbufs i)).2.dstAddr = 0 then dst else wanDevice := by
    intro v member dst
    obtain ⟨known, rfl⟩ := recorded v member
    obtain ⟨contention, call, outcome, made, kept⟩ := preserved.calls v (List.mem_append_right _ known)
    have device : call.incomingDev = lanDevice := by
      obtain ⟨_, _, rfl⟩ := made.given
      exact lan
    obtain ⟨internalDevice, action, forwarded, actions⟩ := (handler_cases isFw made.ran).2 (device ▸ inside)
    rw [device, (configured.forwardPkt call.pkt internalDevice).1] at forwarded
    obtain ⟨_, rfl⟩ := Prod.mk.inj (Option.some.inj forwarded)
    rw [← made.actions, actions, deliver_fromLan, kept within]
  rw [destination, sends last (by simp), lanDestination]
  split
  · rename_i zero
    have stays : ∀ vs : List Invocation, (∀ v ∈ vs, v ∈ left) → ∀ dst, deliver dst (vs.flatMap Invocation.actions) = dst := by
      intro vs
      induction vs with
      | nil => exact fun _ _ => rfl
      | cons v vs ih =>
        intro members dst
        rw [List.flatMap_cons, deliver_append, sends v (List.mem_append_left _ (members v List.mem_cons_self)), if_pos zero]
        exact ih (fun w member => members w (List.mem_cons_of_mem _ member)) dst
    rw [stays left (fun _ member => member), lan]
  · rfl

end Batches

section Runs
variable {B : Type} {setup : Setup} {headers : B → Bool × Pkt} {ctx : Context Unit Unit Pkt PktSetState PktSetId B}
variable {core : Fin ctx.cfg.numCores} {deviceMacs dscp : Nat → Nat} {plies : Nat → Ply8}
variable {start p : Plane Unit Pkt PktSetState PktSetId} {history : List (List Event)}

/-- The packet comes from one of the two devices. -/
def Event.FromDevices : Event → Prop
  | .received device _ _ _ => device < 2
  | .expired _ => True

/-- A packet from the LAN goes to the WAN, unless it has the destination 0. A packet from the WAN goes to the
LAN if its flow is registered. Every other packet stays with its device. -/
def Forwards (setup : Setup) (past : List (Event × Bool)) : Event → Prop
  | .received device pkt known dst =>
    (device = lanDevice → dst = lanDestination pkt.dstAddr) ∧
    (device = wanDevice → (known = true ↔ RegisteredBy setup past (flowOf setup pkt device) lanDevice) ∧
      dst = if known then lanDevice else wanDevice)
  | .expired _ => True

/-- Packets from the LAN are reported for their routes. -/
def Routed : Event → Prop
  | .received device pkt _ dst => device = lanDevice → dst = lanDestination pkt.dstAddr
  | .expired _ => True

theorem step_routed {p' : Plane Unit Pkt PktSetState PktSetId} {es : List Event} (configured : Configured deviceMacs setup)
    (isFw : ctx.nf = nf setup headers) (step : Step ctx p es p') : ∀ e ∈ es, Routed e := by
  intro e member
  cases step with
  | batch device now mbufs batchSize attempts ran =>
    obtain ⟨i, handled, rfl⟩ := List.mem_map.mp member
    have inside := List.mem_filter.mp handled
    intro lan
    have turn : ({ ctx with device := device, now := now } : Context ..).nf = nf setup headers := isFw
    exact processPkts_lan configured turn lan ran (List.mem_range.mp inside.1) inside.2
  | sweep handler time ran =>
    obtain rfl := List.mem_singleton.mp member
    trivial

theorem run_routed (configured : Configured deviceMacs setup) (isFw : ctx.nf = nf setup headers)
    (run : Trace (Step ctx) start history p) : ∀ e ∈ history.flatten, Routed e := by
  refine run.rule (P := fun history _ => ∀ e ∈ history.flatten, Routed e) (by simp) ?_
  intro past q es r _ before step e member
  rw [List.flatten_append, List.mem_append] at member
  rcases member with old | new
  · exact before e old
  · exact step_routed configured isFw step e (by simpa using new)

theorem Allowed.forwards {past : List (Event × Bool)} {A : PktSetId → Option Nat} {e : Event × Bool} (configured : Configured deviceMacs setup)
    (allowed : Allowed setup A e) (run : Trace (Obeys setup) (fun _ => none) past A) (routed : Routed e.1)
    (devices : ∀ e ∈ past, e.1.FromDevices) : Forwards setup past e.1 := by
  obtain ⟨e, registers⟩ := e
  cases e with
  | expired ids => trivial
  | received device pkt known dst =>
    refine ⟨routed, fun fromWan => ?_⟩
    obtain ⟨answer, _, wan⟩ := allowed
    have sent := wan (fromWan.trans configured.wan.symm)
    -- only a packet from the LAN registers a flow
    have internal : ∀ d, A (flowOf setup pkt device) = some d → d = lanDevice := by
      intro d found
      obtain ⟨before, pkt', dst', later, split, _, lan, _⟩ := (table_iff run _ d).mp found
      have two : d < 2 := devices (.received d pkt' false dst', true) (by simp [split])
      rw [configured.wan] at lan
      exact (device_cases two).resolve_right lan
    cases found : A (flowOf setup pkt device) with
    | none =>
      rw [found] at answer sent
      have unknown : known = false := answer
      subst unknown
      refine ⟨⟨fun isKnown => Bool.noConfusion isKnown, fun registered => ?_⟩, by simpa [fromWan] using sent⟩
      rw [(table_iff run _ _).mpr registered] at found
      contradiction
    | some d =>
      obtain rfl := internal d found
      rw [found] at answer sent
      have isKnown : known = true := answer
      subst isKnown
      exact ⟨⟨fun _ => (table_iff run _ _).mp found, fun _ => rfl⟩, by simpa using sent⟩

/-- With the routes of `nf_init`, in every run of a core from the start: what is reported for each packet from
the two devices is decided by its destination and by the packets and sweeps before it. -/
theorem forwards_between_devices {crc32si : Nat → Nat → Nat} (started : nfInit deviceMacs dscp plies = some setup)
    (isFw : ctx.nf = nf setup headers) (keyed : Keyed crc32si ctx.cfg) (fits : ctx.cfg.Fits) (here : ctx.pktSetPartition = core.val)
    {memory init : Manager PktSetId PktSetState} (allocated : initPktSetManager ctx.cfg memory = some init)
    (fresh : start.manager = init) (run : Trace (Step ctx) start history p) (devices : ∀ e ∈ history.flatten, e.FromDevices) :
    ∃ marked : List (Event × Bool), marked.map Prod.fst = history.flatten ∧
      ∀ past e later, marked = past ++ e :: later → Forwards setup past e.1 := by
  obtain ⟨setup', ended, configured⟩ := nfInit_configured deviceMacs dscp plies
  obtain rfl := Option.some.inj (started.symm.trans ended)
  have lawful := keyed.lawful
  obtain ⟨init', again, coherent⟩ := init_coherent fits memory
  obtain rfl := Option.some.inj (allocated.symm.trans again)
  have initial : Admits ctx.cfg core start.manager fun _ => none := by
    refine ⟨fun _ _ => none, ⟨_, _, fresh ▸ coherent, fun q id slot state => ?_⟩, fun _ => rfl⟩
    simp [initialLists]
  obtain ⟨marked, A, events, obeys, _⟩ := run.rule
    (P := fun history p => ∃ marked A, marked.map Prod.fst = history.flatten ∧ Trace (Obeys setup) (fun _ => none) marked A ∧
      Admits ctx.cfg core p.manager A) ⟨[], _, rfl, .start, initial⟩ (by
    rintro past q es r _ ⟨marked, A, events, obeys, admits⟩ step
    obtain ⟨more, A', same, obeys', admits'⟩ := step_obeys isFw fits lawful keyed.eq here admits step
    exact ⟨marked ++ more, A', by simp [events, same], obeys.append obeys', admits'⟩)
  refine ⟨marked, events, fun past e later split => ?_⟩
  have member : ∀ e ∈ marked, e.1 ∈ history.flatten := fun e inside => events ▸ List.mem_map_of_mem inside
  have routed : Routed e.1 := run_routed configured isFw run e.1 (member e (by simp [split]))
  rw [split, List.append_cons] at obeys
  obtain ⟨_, before, _⟩ := obeys.split
  obtain ⟨A₁, before, single⟩ := before.split
  exact single.single.1.forwards configured before routed fun e inside => devices _ (member e (by simp [split, inside]))

end Runs

section Example

/-- The handlers as they are with the routes of `nf_init`: those for the two devices do without the tables. -/
def routedNf (deviceMacs : Nat → Nat) (setup : Setup) : NF Unit Unit Pkt PktSetState PktSetId Bool where
  nfPktParser := (nf fwSetup dialogHeaders).nfPktParser
  nfPktDispatcher := nfPktDispatcher fwSetup
  pktHandlers _ _ call :=
    if call.incomingDev < 2 then call.localState.map fun state =>
      let out := if call.incomingDev = lanDevice then fromLan deviceMacs call.pkt else fromWan deviceMacs call.pkt state.internalDevice
      ⟨false, ttlActions call.pkt ++ [out.2], (), out.1, some (trackFlags fwSetup call.pkt call.incomingDev state), none⟩
    else pktHandler setup call
  nfUnknownPktSetHandler _ call :=
    if call.incomingDev < 2 then some (
      if call.incomingDev = lanDevice then
        ⟨false, ttlActions call.pkt ++ [(fromLan deviceMacs call.pkt).2], (), (fromLan deviceMacs call.pkt).1, none,
          some (⟨lanDevice, fun _ => 0⟩, none)⟩
      else ⟨false, [.dropPkt], (), call.pkt, none, none⟩)
    else nfUnknownPktSetHandler setup call

theorem routedNf_eq {deviceMacs : Nat → Nat} {setup : Setup} (configured : Configured deviceMacs setup) :
    nf setup dialogHeaders = routedNf deviceMacs setup := by
  have wan : setup.wanDevice = fwSetup.wanDevice := configured.wan
  have dispatcher : nfPktDispatcher setup = nfPktDispatcher fwSetup := by
    funext pkt dev
    rw [nfPktDispatcher, nfPktDispatcher, wan]
  have tracks : trackFlags setup = trackFlags fwSetup := by
    funext pkt dev state
    rw [trackFlags, trackFlags, isInput, isInput, wan]
  have registered : (fun (_ : Nat) (_ : Unit) => pktHandler setup) = (routedNf deviceMacs setup).pktHandlers := by
    funext _ _ call
    change pktHandler setup call = if _ then _ else _
    split
    · rename_i two
      cases given : call.localState with
      | none => simp [pktHandler, given]
      | some state =>
        obtain ⟨_, rfl, returned⟩ := configured.pktHandler two given
        rw [returned, tracks]
        rfl
    · rfl
  have unknown : (fun (_ : Unit) => nfUnknownPktSetHandler setup) = (routedNf deviceMacs setup).nfUnknownPktSetHandler := by
    funext _ call
    change nfUnknownPktSetHandler setup call = if _ then _ else _
    split
    · rename_i two
      exact configured.nfUnknownPktSetHandler two
    · rfl
  rw [nf, dispatcher, registered, unknown]
  rfl

def routedSetup : Setup := (nfInit (fun i => i) (fun _ => 0) samplePlies).getD fwSetup

theorem routedSetup_configured :
    nfInit (fun i => i) (fun _ => 0) samplePlies = some routedSetup ∧ Configured (fun i => i) routedSetup := by
  obtain ⟨setup, started, configured⟩ := nfInit_configured (fun i => i) (fun _ => 0) samplePlies
  have same : routedSetup = setup := by rw [routedSetup, started, Option.getD_some]
  exact ⟨same ▸ started, same ▸ configured⟩

/-- The first packet of a flow from the LAN. -/
def synCall : Call Unit Pkt PktSetState PktSetId := ⟨(), synPacket, lanDevice, none, synFlow, 0, true⟩

theorem handlers_forward_syn : ∃ outcome, nfUnknownPktSetHandler routedSetup synCall = some outcome ∧
    outcome.actions = [.sendPkt wanDevice] ∧ outcome.added = some (⟨lanDevice, fun _ => 0⟩, none) := by
  have handled := (handlers_forward routedSetup_configured.1 (show synCall.incomingDev < 2 by decide)).2
  rw [show synCall.incomingDev = lanDevice from rfl, if_pos rfl] at handled
  exact ⟨_, handled, by decide, rfl⟩

def routedContext (nf : NF Unit Unit Pkt PktSetState PktSetId Bool) : Context Unit Unit Pkt PktSetState PktSetId Bool :=
  ⟨nf, ⟨1, 1, pktSetIdEq, pktSetIdHash fun _ _ => 0, 0, false⟩, false, 0, 0, 0⟩

/-- What is reported for the first packet of a flow from the LAN and for the answer to it. -/
def routedDialog (nf : NF Unit Unit Pkt PktSetState PktSetId Bool) : Option (Bool × Nat × Bool × Nat) := do
  let ctx := routedContext nf
  let attempts : List (Attempt Unit Unit) := [⟨id, (), true⟩]
  let m ← initPktSetManager ctx.cfg blankMemory
  let (p, _) ← processPkts { ctx with device := 0, now := 0 } (fun _ => false) 1 attempts (fwPlane m)
  let (q, _) ← processPkts { ctx with device := 1, now := 0 } (fun _ => true) 1 attempts p
  return (knownAt 0 p.history, p.dstDevices 0, knownAt 0 q.history, q.dstDevices 0)

/-- The first packet goes to the WAN, and the answer goes to the LAN since the flow has been registered. -/
theorem forwards_between_devices_dialog : ∃ start p,
    Trace (Step (routedContext (nf routedSetup dialogHeaders))) start
      [[.received 0 synPacket false 1], [.received 1 replyPacket true 0]] p ∧
    Forwards routedSetup [] (.received 0 synPacket false 1) ∧ ∃ first,
      Forwards routedSetup [(.received 0 synPacket false 1, first)] (.received 1 replyPacket true 0) := by
  obtain ⟨started, configured⟩ := routedSetup_configured
  have ran : routedDialog (routedNf (fun i => i) routedSetup) = some (false, 1, true, 0) := by decide +kernel
  rw [← routedNf_eq configured] at ran
  simp only [routedDialog, Option.bind_eq_bind, Option.bind_eq_some_iff, Option.pure_def, Option.some.injEq, Prod.mk.injEq] at ran
  obtain ⟨init, allocated, ⟨q, _⟩, sent, ⟨p, _⟩, answered, known, dst, known', dst'⟩ := ran
  have first : Step (routedContext (nf routedSetup dialogHeaders)) _ _ q := .batch 0 0 _ _ _ sent
  have second : Step (routedContext (nf routedSetup dialogHeaders)) _ _ p := .batch 1 0 _ _ _ answered
  change Step _ _ [.received 0 synPacket (knownAt 0 q.history) (q.dstDevices 0)] q at first
  change Step _ _ [.received 1 replyPacket (knownAt 0 p.history) (p.dstDevices 0)] p at second
  rw [known, dst] at first
  rw [known', dst'] at second
  have run := (Trace.start.extend first).extend second
  have fits : (routedContext (nf routedSetup dialogHeaders)).cfg.Fits := by constructor <;> decide
  have here : (routedContext (nf routedSetup dialogHeaders)).pktSetPartition =
      (⟨0, Nat.one_pos⟩ : Fin (routedContext (nf routedSetup dialogHeaders)).cfg.numCores).val := rfl
  have keyed : Keyed (fun _ _ => 0) (routedContext (nf routedSetup dialogHeaders)).cfg := ⟨rfl, rfl⟩
  have devices : ∀ e ∈ [[Event.received 0 synPacket false 1], [.received 1 replyPacket true 0]].flatten, e.FromDevices := by
    intro e member
    rcases List.mem_cons.mp member with rfl | answer
    · exact Nat.two_pos
    · obtain rfl := List.mem_singleton.mp answer
      exact Nat.one_lt_two
  obtain ⟨marked, whole, forwards⟩ := forwards_between_devices started rfl keyed fits here allocated rfl run devices
  obtain ⟨⟨_, first⟩, _, rfl, rfl, rest⟩ := List.map_eq_cons_iff.mp whole
  obtain ⟨⟨_, second⟩, _, rfl, rfl, none⟩ := List.map_eq_cons_iff.mp rest
  obtain rfl := List.map_eq_nil_iff.mp none
  exact ⟨_, p, run, forwards [] _ _ rfl, first, forwards [_] _ [] rfl⟩

end Example
end Nfos.Fw
