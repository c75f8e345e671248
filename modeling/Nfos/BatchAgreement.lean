import Nfos.BatchSequence

/-! Batched and unbatched packet processing agree. -/
namespace Nfos.DataPlane
open PktSetManager Run Retry
variable {Ω G P S Id B : Type}

section Agreement

/-- The map and the lists of the manager are those that a run of its operations has left. The
packet-set states and the logs are also written by handlers. -/
def Built (cfg : Config Id) (m : Manager Id S) : Prop :=
  ∃ memory init history m₀, initPktSetManager cfg memory = some init ∧ Trace (PktSetManager.Step cfg) init history m₀ ∧
    Fresh cfg history ∧ SameCells m₀ m

theorem Built.intact {ctx : Context Ω G P S Id B} {m : Manager Id S} (built : Built ctx.cfg m) (fits : ctx.cfg.Fits)
    (lawful : ctx.cfg.Lawful) : Intact ctx.cfg m := by
  obtain ⟨memory, init, history, m₀, ended, run, fresh, same⟩ := built
  obtain ⟨init', again, coherent⟩ := init_coherent fits memory
  obtain rfl := Option.some.inj (ended.symm.trans again)
  obtain ⟨L, C, coherent, _⟩ := run_represents fits lawful coherent run fresh
  exact same.intact ⟨L, C, coherent⟩

variable {ctx : Context Ω G P S Id B} {core : Fin ctx.cfg.numCores} {mbufs : Nat → B} {batchSize : Nat}
variable {p : Plane G P S Id}

/-- If the dispatcher finds packet sets for all packets of a batch or for none, the batch is
processed to its end after any finite number of aborts and failed commits, and the committed
handlers are those that fit the packets, in batch order. Without aborts the memory, the packets
and their destinations are those of the unbatched variant for one packet after the other. -/
theorem batched_agrees_unbatched (fits : ctx.cfg.Fits) (lawful : ctx.cfg.Lawful) (here : ctx.pktSetPartition = core.val)
    (built : Built ctx.cfg p.manager) (nonempty : 0 < batchSize)
    (uniform : ∀ i < batchSize, (ctx.nf.nfPktDispatcher (ctx.nf.nfPktParser (mbufs i)).2 ctx.device).hasPktSetState =
      (ctx.nf.nfPktDispatcher (ctx.nf.nfPktParser (mbufs 0)).2 ctx.device).hasPktSetState) :
    (ctx.Returns → ∀ attempts, Supply (Quiet ctx) batchSize attempts →
      ∃ p' rest, processPkts ctx mbufs batchSize attempts p = some (p', rest)) ∧
    (∀ attempts p' rest, processPkts ctx mbufs batchSize attempts p = some (p', rest) →
      (p'.history.filter (·.2)).map (·.1.position) =
        (List.range batchSize).filter (fun i => (ctx.nf.nfPktParser (mbufs i)).1) ∧
      ∀ v ∈ p'.history, v.2 = true → v.1.abort = false ∧ Suitable (parseBatch ctx mbufs batchSize) v.1) ∧
    ∀ a attempts p' rest, a.others = id → a.unlocks = true → (∀ x ∈ attempts, x = a) →
      processPkts ctx mbufs batchSize attempts p = some (p', rest) → Calm p' →
      ∃ q, processEach ctx a mbufs batchSize p =
          some (q, (List.range batchSize).map fun i => (p'.packet i, p'.dstDevices i)) ∧
        q.manager = p'.manager ∧ q.globalState = p'.globalState := by
  have intact := built.intact fits lawful
  refine ⟨fun returns attempts supply => ?_, fun attempts p' rest ran => ?_, fun a attempts p' rest alone unlocks all ran calm => ?_⟩
  · obtain ⟨p', rest, ran, _⟩ := handleBatch_ends (b := parseBatch ctx mbufs batchSize) (p := { p with
      dstDevices := fun i => if i < batchSize then ctx.device else p.dstDevices i
      packet := fun i => if i < batchSize then (ctx.nf.nfPktParser (mbufs i)).2 else p.packet i
      running := [], history := [] }) fits lawful here returns nonempty supply intact
    exact ⟨p', rest, ran⟩
  · have progress := handleBatch_progress (b := parseBatch ctx mbufs batchSize) rfl rfl (fun i within => if_pos within) ran
    refine ⟨?_, fun v member done => ⟨progress.returned v member done, progress.kinds v member⟩⟩
    rw [progress.order, parsedIn, List.range_eq_range', Nat.sub_zero]
    rfl
  · have served := handleBatch_serves (b := parseBatch ctx mbufs batchSize) fits lawful here uniform alone unlocks all rfl rfl
      (fun i within => if_pos within) (by exact intact) ran calm
    obtain ⟨q, processed, manager, globalState, _⟩ := processEach_of_serveAll (p := p) alone unlocks rfl rfl
      (fun i within => if_pos within) (fun i within => if_pos within) le_rfl served
    exact ⟨q, processed, manager, globalState⟩

end Agreement

section Example

/-- A packet is its packet-set id, and 0 is not parsed. The handler of an unknown packet set
stores the device 1 to which the later packets are sent. -/
def relayNF : NF Unit Unit Nat Nat Nat Nat where
  nfPktParser buffer := (buffer != 0, buffer)
  nfPktDispatcher pkt _ := ⟨0, pkt, true⟩
  pktHandlers _ _ call := some
    { abort := false, actions := [.sendPkt (call.localState.getD 0)], globalState := call.globalState
      pkt := call.pkt, localState := none, added := none }
  nfUnknownPktSetHandler _ call := some
    { abort := false, actions := [.floodPkt], globalState := call.globalState
      pkt := call.pkt, localState := none, added := some (1, none) }

def relayContext : Context Unit Unit Nat Nat Nat Nat where
  nf := relayNF
  cfg := ⟨1, 2, fun a b => a == b, fun a => a, 0, false⟩
  mutablePktSetState := false
  device := 0
  pktSetPartition := 0
  now := 0

def relayPlane (m : Manager Nat Nat) : Plane Unit Nat Nat Nat := ⟨m, (), 0, fun _ => 0, fun _ => 0, fun _ => 0, [], [], []⟩

def relayMemory : Manager Nat Nat := ⟨fun _ => 0, fun _ => ⟨0, 0, 0, ⟨0, 0, 0⟩⟩, fun _ => 0, fun _ => ⟨false, 0, 0⟩⟩

def relayPkts (i : Nat) : Nat := [7, 0, 7, 9].getD i 0

def relayAttempt : Attempt Unit Unit := ⟨id, (), true⟩

theorem relay_fits : relayContext.cfg.Fits := by
  constructor <;> decide

theorem relay_lawful : relayContext.cfg.Lawful where
  equivalence := ⟨fun a => by simp [relayContext], fun {a b} same => by
      simp only [relayContext, beq_iff_eq] at same ⊢
      exact same.symm,
    fun {a b c} first second => by
      simp only [relayContext, beq_iff_eq] at first second ⊢
      exact first.trans second⟩
  hash a b same := by simpa [relayContext] using same

theorem relay_returns : relayContext.Returns := by
  intro branch pktClass contention call
  cases branch with
  | noPktSet | registered | unknown => exact ⟨_, rfl⟩

theorem relay_quiet : Quiet relayContext relayAttempt := by
  refine ⟨rfl, fun branch pktClass call outcome handled => ?_⟩
  cases branch with
  | noPktSet | registered | unknown =>
    obtain rfl := Option.some.inj handled
    rfl

/-- The first packet registers its packet set, to which the third one belongs. -/
theorem batched_agrees_relay : ∃ init p' rest q, initPktSetManager relayContext.cfg relayMemory = some init ∧
    processPkts relayContext relayPkts 4 (List.replicate 4 relayAttempt) (relayPlane init) = some (p', rest) ∧
    (p'.history.filter (·.2)).map (·.1.position) = [0, 2, 3] ∧
    processEach relayContext relayAttempt relayPkts 4 (relayPlane init) =
      some (q, (List.range 4).map fun i => (p'.packet i, p'.dstDevices i)) ∧
    q.manager = p'.manager := by
  obtain ⟨init, ended, _⟩ := init_coherent relay_fits relayMemory
  have built : Built relayContext.cfg (relayPlane init).manager := by
    refine ⟨relayMemory, init, [], init, ended, .start, ?_, .refl _⟩
    intro past later q id time slot state split
    simp at split
  have here : relayContext.pktSetPartition = (⟨0, by decide⟩ : Fin relayContext.cfg.numCores).val := rfl
  have uniform : ∀ i < 4, (relayContext.nf.nfPktDispatcher (relayContext.nf.nfPktParser (relayPkts i)).2 relayContext.device).hasPktSetState =
      (relayContext.nf.nfPktDispatcher (relayContext.nf.nfPktParser (relayPkts 0)).2 relayContext.device).hasPktSetState := fun _ _ => rfl
  obtain ⟨ends, order, agrees⟩ := batched_agrees_unbatched relay_fits relay_lawful here built (by decide) uniform
  obtain ⟨p', rest, ran⟩ := ends relay_returns (List.replicate 4 relayAttempt)
    ⟨[], List.replicate 4 relayAttempt, rfl, fun a member => List.eq_of_mem_replicate member ▸ relay_quiet, by decide⟩
  have history : ((initPktSetManager relayContext.cfg relayMemory).bind fun m =>
      (processPkts relayContext relayPkts 4 (List.replicate 4 relayAttempt) (relayPlane m)).map fun r =>
        r.1.history.all (·.2)) = some true := by decide +kernel
  rw [ended, Option.bind_some, ran, Option.map_some, Option.some.injEq, List.all_eq_true] at history
  obtain ⟨q, processed, manager, _⟩ := agrees relayAttempt _ p' rest rfl rfl (fun x member => List.eq_of_mem_replicate member) ran history
  exact ⟨init, p', rest, q, ended, ran, (order _ p' rest ran).1, processed, manager⟩

end Example
end Nfos.DataPlane
