import Nfos.DataPlaneEnds

/-! Packets that are processed one after the other, without aborts and without other cores.
The unbatched `process_pkt` does this. -/
namespace Nfos.DataPlane
open Function PktSetManager ConcurrentDoubleChain Retry
variable {Ω G P S Id B : Type}

/-- The memory that the packets share. -/
structure Shared (G S Id : Type) where
  manager : Manager Id S
  globalState : G

/-- The memory, and the contents and destinations of the packets by their positions. -/
structure Served (G P S Id : Type) extends Shared G S Id where
  packet : Nat → P
  dstDevices : Nat → Nat

section Sequential
variable (ctx : Context Ω G P S Id B) (contention : Ω)

/-- A handler that does not abort: the memory, the packet and its destination. -/
def act (branch : Branch) (d : Dispatch Id) (pkt : P) (slot : Option Nat) (s : Shared G S Id) : Option (Shared G S Id × P × Nat) := do
  let outcome ← ctx.handler branch d.pktClass contention
    { globalState := s.globalState, pkt := pkt, incomingDev := ctx.device
      localState := slot.map s.manager.pktSetState
      pktSetId := d.pktSetId, time := ctx.now
      canAdd := concurrentDchainImplHasFreeIndexes ctx.cfg.numCores s.manager.cells ctx.pktSetPartition }
  if outcome.abort then none
  else return (⟨writeBack ctx slot outcome s.manager, outcome.globalState⟩, outcome.pkt, deliver ctx.device outcome.actions)

/-- All that is done for a packet behind the parser. -/
def serve (d : Dispatch Id) (pkt : P) (s : Shared G S Id) : Option (Shared G S Id × P × Nat) := do
  if !d.hasPktSetState then
    act ctx contention .noPktSet d pkt none s
  else
    match ← getPktSetState ctx.cfg d.pktSetId ctx.pktSetPartition ctx.now s.manager with
    | (some slot, manager) => act ctx contention .registered d pkt (some slot) { s with manager := manager }
    | (none, manager) =>
      let (s, result) ← act ctx contention .unknown d pkt none { s with manager := addPktSetLogClear ctx.pktSetPartition manager }
      let manager ← addPktSetCommit ctx.cfg d.pktSetId ctx.pktSetPartition ctx.now s.manager
      return ({ s with manager := manager }, result)

/-- What a handler left for the packet at a position. -/
def report (n : Nat) (s : Served G P S Id) (result : Shared G S Id × P × Nat) : Served G P S Id :=
  ⟨result.1, update s.packet n result.2.1, update s.dstDevices n result.2.2⟩

def serveAt (b : Batch Id) (s : Served G P S Id) (n : Nat) : Option (Served G P S Id) :=
  (serve ctx contention (b.dispatch n) (s.packet n) s.toShared).map (report n s)

/-- The packets at some positions, one after the other. -/
def serveAll (b : Batch Id) (l : List Nat) (s : Served G P S Id) : Option (Served G P S Id) :=
  l.foldlM (serveAt ctx contention b) s

/-- The unbatched `process_pkt` for the packets of a batch up to a position: the memory, and
the packets with their destinations. -/
def processEach (a : Attempt Ω G) (mbufs : Nat → B) : Nat → Plane G P S Id → Option (Plane G P S Id × List (P × Nat))
  | 0, p => some (p, [])
  | k + 1, p => do
    let (p, results) ← processEach a mbufs k p
    let (dst, p, _) ← processPkt ctx (mbufs k) [a] p
    return (p, results ++ [(p.packet 0, dst)])

end Sequential

section Single
variable {ctx : Context Ω G P S Id B} {branch : Branch} {n : Nat} {d : Dispatch Id} {a : Attempt Ω G} {pkt : P} {dst : Nat}
variable {p p' : Plane G P S Id} {s s' : Shared G S Id} {slot : Option Nat} {contention : Ω} {buffer : B}

theorem act_eq_some : act ctx contention branch d pkt slot s = some (s', pkt', dst) ↔ ∃ outcome,
    ctx.handler branch d.pktClass contention
      ⟨s.globalState, pkt, ctx.device, slot.map s.manager.pktSetState, d.pktSetId, ctx.now,
        concurrentDchainImplHasFreeIndexes ctx.cfg.numCores s.manager.cells ctx.pktSetPartition⟩ = some outcome ∧
    outcome.abort = false ∧ s' = ⟨writeBack ctx slot outcome s.manager, outcome.globalState⟩ ∧ pkt' = outcome.pkt ∧
    dst = deliver ctx.device outcome.actions := by
  simp only [act, Option.bind_eq_bind, Option.bind_eq_some_iff]
  constructor
  · rintro ⟨outcome, handled, ran⟩
    split at ran
    · contradiction
    · rename_i returned
      obtain ⟨rfl, rfl, rfl⟩ := Prod.mk.inj (Option.some.inj ran) |>.imp_right Prod.mk.inj
      exact ⟨outcome, handled, (Bool.not_eq_true _).mp returned, rfl, rfl, rfl⟩
  · rintro ⟨outcome, handled, returned, rfl, rfl, rfl⟩
    exact ⟨outcome, handled, by simp [returned]⟩

/-- The memory with which an attempt for a packet starts its handler. -/
def started (ctx : Context Ω G P S Id B) (branch : Branch) (p : Plane G P S Id) : Shared G S Id :=
  ⟨match branch with
    | .unknown => addPktSetLogClear ctx.pktSetPartition p.manager
    | .noPktSet | .registered => p.manager, p.globalState⟩

theorem prepare_manager_eq (ctx : Context Ω G P S Id B) (branch : Branch) (n : Nat) (p : Plane G P S Id) :
    (prepare ctx branch n p).manager = (started ctx branch p).manager := by
  cases branch with
  | noPktSet | unknown => rfl
  | registered =>
    unfold prepare
    dsimp only
    split <;> rfl

/-- The transaction of a packet, with no other cores. -/
theorem attemptPkt_iff (alone : a.others = id) : attemptPkt ctx branch n d a p = some (true, p') ↔ ∃ outcome,
    ctx.handler branch d.pktClass a.contention
      ⟨p.globalState, p.packet n, ctx.device, (slotOf branch n p).map (started ctx branch p).manager.pktSetState, d.pktSetId,
        ctx.now, concurrentDchainImplHasFreeIndexes ctx.cfg.numCores (started ctx branch p).manager.cells ctx.pktSetPartition⟩ =
      some outcome ∧ outcome.abort = false ∧ a.unlocks = true ∧ p' = committed ctx branch n d outcome (prepare ctx branch n p) := by
  obtain ⟨_, _, _, globalState, slots, packet⟩ := FwNat.prepare_manager ctx branch n p
  rw [attemptPkt_committed, ← prepare_manager_eq ctx branch n p]
  have slot : slotOf branch n (prepare ctx branch n p) = slotOf branch n p := by
    unfold slotOf
    rw [slots]
  simp only [callAt, alone, id_eq, globalState, packet, slot]

/-- A handler that does not abort is one of a transaction that commits. -/
theorem attemptPkt_of_act (alone : a.others = id) (unlocks : a.unlocks = true) (start : p.dstDevice = ctx.device)
    (acted : act ctx a.contention branch d (p.packet n) (slotOf branch n p) (started ctx branch p) = some (s, pkt, dst)) :
    ∃ p', attemptPkt ctx branch n d a p = some (true, p') ∧ p'.manager = s.manager ∧ p'.globalState = s.globalState ∧
      p'.packet n = pkt ∧ p'.dstDevice = dst := by
  obtain ⟨outcome, handled, returned, rfl, rfl, rfl⟩ := act_eq_some.mp acted
  obtain ⟨_, _, _, _, slots, _⟩ := FwNat.prepare_manager ctx branch n p
  obtain ⟨_, _, dstDevice, _⟩ := prepare_frame ctx branch n p
  refine ⟨_, (attemptPkt_iff alone).mpr ⟨outcome, handled, returned, unlocks, rfl⟩, ?_, rfl, update_self .., ?_⟩
  · have slot : slotOf branch n (prepare ctx branch n p) = slotOf branch n p := by
      unfold slotOf
      rw [slots]
    change writeBack ctx (slotOf branch n (prepare ctx branch n p)) outcome (prepare ctx branch n p).manager = _
    rw [prepare_manager_eq, slot]
  · change deliver (prepare ctx branch n p).dstDevice outcome.actions = _
    rw [dstDevice, start]

theorem act_of_attemptPkt (alone : a.others = id) (start : p.dstDevice = ctx.device)
    (ran : attemptPkt ctx branch n d a p = some (true, p')) : ∃ pkt,
    act ctx a.contention branch d (p.packet n) (slotOf branch n p) (started ctx branch p) =
      some (⟨p'.manager, p'.globalState⟩, pkt, p'.dstDevice) ∧
    p'.packet = update p.packet n pkt ∧ p'.dstDevices = p.dstDevices := by
  obtain ⟨outcome, handled, returned, _, rfl⟩ := (attemptPkt_iff alone).mp ran
  obtain ⟨_, _, _, _, slots, packet⟩ := FwNat.prepare_manager ctx branch n p
  obtain ⟨_, _, dstDevice, dstDevices, _⟩ := prepare_frame ctx branch n p
  have slot : slotOf branch n (prepare ctx branch n p) = slotOf branch n p := by
    unfold slotOf
    rw [slots]
  refine ⟨outcome.pkt, act_eq_some.mpr ⟨outcome, handled, returned, ?_, rfl, ?_⟩, ?_, dstDevices⟩
  · rw [← prepare_manager_eq, ← slot]
    rfl
  · change deliver (prepare ctx branch n p).dstDevice outcome.actions = _
    rw [dstDevice, start]
  · change update (prepare ctx branch n p).packet n outcome.pkt = _
    rw [packet]

/-- The unbatched variant serves a packet. -/
theorem processPkt_of_serve (alone : a.others = id) (unlocks : a.unlocks = true) (parser : ctx.nf.nfPktParser buffer = (true, pkt))
    (served : serve ctx a.contention (ctx.nf.nfPktDispatcher pkt ctx.device) pkt ⟨p.manager, p.globalState⟩ = some (s, pkt', dst)) :
    ∃ p' rest, processPkt ctx buffer [a] p = some (dst, p', rest) ∧ p'.manager = s.manager ∧ p'.globalState = s.globalState ∧
      p'.packet 0 = pkt' := by
  generalize dispatch : ctx.nf.nfPktDispatcher pkt ctx.device = d at served
  let q : Plane G P S Id := { p with
    dstDevice := ctx.device, packet := update p.packet 0 pkt, running := [], history := [] }
  have first : update p.packet 0 pkt 0 = pkt := update_self ..
  have processed : processPkt ctx buffer [a] p = (handlePkt ctx d [a] q).bind fun r => some (r.1.dstDevice, r.1, r.2) := by
    simp only [processPkt, parser, if_true, dispatch]
    rfl
  rw [processed]
  unfold serve at served
  cases stateful : d.hasPktSetState with
  | false =>
    simp only [stateful, Bool.not_false, if_true] at served
    rw [← first] at served
    have acted : act ctx a.contention .noPktSet d (q.packet 0) (slotOf .noPktSet 0 q) (started ctx .noPktSet q) = some (s, pkt', dst) :=
      served
    obtain ⟨p', attempted, manager, globalState, packet, dstDevice⟩ := attemptPkt_of_act alone unlocks rfl acted
    have retried : noPktSetRestart ctx 0 d [a] q = some (p', []) := Retry.retry_single.mpr ⟨rfl, attempted⟩
    refine ⟨p', [], ?_, manager, globalState, packet⟩
    simp [handlePkt, stateful, retried, dstDevice]
  | true =>
    simp only [stateful, Bool.not_true, Bool.false_eq_true, if_false, Option.bind_eq_bind, Option.bind_eq_some_iff] at served
    obtain ⟨⟨slot, manager⟩, looked, served⟩ := served
    cases slot with
    | some slot =>
      let u : Plane G P S Id := { q with manager := manager, pktSetState := update q.pktSetState 0 slot }
      have here : slotOf .registered 0 u = some slot := by simp [slotOf, u]
      dsimp only at served
      rw [← here, ← first] at served
      have acted : act ctx a.contention .registered d (u.packet 0) (slotOf .registered 0 u) (started ctx .registered u) =
        some (s, pkt', dst) := served
      obtain ⟨p', attempted, manager, globalState, packet, dstDevice⟩ := attemptPkt_of_act alone unlocks rfl acted
      have retried : restartSecond ctx 0 d [a] u = some (p', []) := Retry.retry_single.mpr ⟨rfl, attempted⟩
      refine ⟨p', [], ?_, manager, globalState, packet⟩
      have ran : getPktSetState ctx.cfg d.pktSetId ctx.pktSetPartition ctx.now q.manager = some (some slot, u.manager) := looked
      simp only [handlePkt, stateful, Bool.not_true, Bool.false_eq_true, if_false, ran, Option.bind_eq_bind, Option.bind_some]
      change (restartSecond ctx 0 d [a] u).bind _ = _
      rw [retried, Option.bind_some, dstDevice]
    | none =>
      simp only [Option.bind_eq_some_iff, Option.pure_def, Option.some.injEq, Prod.mk.injEq] at served
      obtain ⟨⟨t, pkt₁, dst₁⟩, ran, m, stored, rfl, rfl, rfl⟩ := served
      let u : Plane G P S Id := { q with manager := manager }
      rw [← first] at ran
      have acted : act ctx a.contention .unknown d (u.packet 0) (slotOf .unknown 0 u) (started ctx .unknown u) =
        some (t, pkt', dst) := ran
      obtain ⟨v, attempted, same, globalState, packet, dstDevice⟩ := attemptPkt_of_act alone unlocks rfl acted
      have retried : restartThird ctx 0 d [a] u = some (v, []) := Retry.retry_single.mpr ⟨rfl, attempted⟩
      have ran : getPktSetState ctx.cfg d.pktSetId ctx.pktSetPartition ctx.now q.manager = some (none, u.manager) := looked
      rw [← same] at stored
      refine ⟨{ v with manager := m }, [], ?_, rfl, globalState, packet⟩
      simp only [handlePkt, stateful, Bool.not_true, Bool.false_eq_true, if_false, ran, Option.bind_eq_bind, Option.bind_some]
      change ((restartThird ctx 0 d [a] u).bind _).bind _ = _
      simp [retried, stored, dstDevice]

end Single
end Nfos.DataPlane
