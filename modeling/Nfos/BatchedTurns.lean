import Nfos.BatchSequence

/-! What a core does for its partition with batching. Without aborts it is what it does for the
packets of the batches one after the other. -/
namespace Nfos.DataPlane
open Function PktSetManager ConcurrentDoubleChain Registry Run
variable {Ω G P S Id B : Type} {ctx : Context Ω G P S Id B} {core : Fin ctx.cfg.numCores} {p p' q q' : Plane G P S Id}
variable {turns : List (Turn Ω G B Id S)} {x : Arrival Ω G B} {dst : Nat}

section Batches

/-- The packets of a batch, with the devices that it reports. -/
def batchTurns (mbufs : Nat → B) (device : Nat) (now : Int) (a : Attempt Ω G) (dst : Nat → Nat) (batchSize : Nat) :
    List (Turn Ω G B Id S) :=
  (List.range batchSize).map fun i => .received ⟨mbufs i, device, now, a⟩ (dst i)

/-- The batches are processed without aborts. -/
inductive ServesBatch (ctx : Context Ω G P S Id B) : Plane G P S Id → List (Turn Ω G B Id S) → Plane G P S Id → Prop where
  | receive {p p' attempts rest} (mbufs : Nat → B) (batchSize device : Nat) (now : Int) (a : Attempt Ω G) :
      a.others = id → a.unlocks = true → (∀ x ∈ attempts, x = a) →
      processPkts { ctx with device := device, now := now } mbufs batchSize attempts p = some (p', rest) → Calm p' →
      ServesBatch ctx p (batchTurns mbufs device now a p'.dstDevices batchSize) p'
  | sweep {p gone m'} (handler : Nat → ExpiredRuns S) (time : Int) :
      deleteExpiredPktSets ctx.cfg handler time ctx.pktSetPartition p.manager = some (gone, m') →
      ServesBatch ctx p [.swept time gone] { p with manager := m' }

/-- The packets of a batch come from one device. -/
theorem ServesBatch.alike {earlier after : List (Turn Ω G B Id S)}
    (served : ServesBatch ctx p (earlier ++ .received x dst :: after) p') : ∀ t ∈ after, ∃ y dst, t = .received y dst ∧ y.device = x.device := by
  generalize whole : earlier ++ .received x dst :: after = turns at served
  cases served with
  | receive mbufs batchSize device now a =>
    have all : ∀ t ∈ earlier ++ .received x dst :: after, ∃ y dst, t = .received y dst ∧ y.device = device := by
      intro t member
      rw [whole] at member
      obtain ⟨i, _, rfl⟩ := List.mem_map.mp member
      exact ⟨_, _, rfl, rfl⟩
    obtain ⟨y, _, same, rfl⟩ := all (.received x dst) (by simp)
    obtain ⟨rfl, _⟩ := Turn.received.inj same
    exact fun t member => all t (by simp [member])
  | sweep handler time ran =>
    have member : Turn.received x dst ∈ earlier ++ .received x dst :: after := by simp
    rw [whole, List.mem_singleton] at member
    contradiction

theorem processEach_trace {mbufs : Nat → B} {device k : Nat} {now : Int} {a : Attempt Ω G} {results : Nat → P × Nat}
    (ran : processEach { ctx with device := device, now := now } a mbufs k p = some (q, (List.range k).map results)) :
    Trace (Serves ctx) p (batchTurns mbufs device now a (fun i => (results i).2) k) q := by
  induction k generalizing q with
  | zero =>
    obtain ⟨rfl, _⟩ := Prod.mk.inj (Option.some.inj ran)
    exact .start
  | succ k ih =>
    simp only [processEach, Option.bind_eq_bind, Option.bind_eq_some_iff, Option.pure_def, Option.some.injEq, Prod.mk.injEq,
      List.range_succ, List.map_append] at ran
    obtain ⟨⟨u, past⟩, before, ⟨dst, v, rest⟩, processed, rfl, same⟩ := ran
    obtain ⟨rfl, last⟩ := List.append_inj' same rfl
    have dst_eq : dst = (results k).2 := congrArg Prod.snd (List.cons.inj last).1
    subst dst_eq
    rw [batchTurns, List.range_succ, List.map_append]
    exact (ih before).extend (.receive ⟨mbufs k, device, now, a⟩ processed)

theorem Serves.intact {t : Turn Ω G B Id S} (served : Serves ctx p t p') (fits : ctx.cfg.Fits) (lawful : ctx.cfg.Lawful)
    (here : ctx.pktSetPartition = core.val) (intact : Intact ctx.cfg p.manager) : Intact ctx.cfg p'.manager := by
  obtain ⟨L, C, coherent⟩ := intact
  obtain ⟨A, holds⟩ := holds_of_coherent lawful coherent
  obtain ⟨_, _, holds'⟩ := serves_effect fits lawful here holds served
  exact holds'.intact

/-- A batch leaves what its packets leave one after the other. -/
theorem ServesBatch.serves (served : ServesBatch ctx p turns p') (fits : ctx.cfg.Fits) (lawful : ctx.cfg.Lawful)
    (here : ctx.pktSetPartition = core.val) (stateful : ∀ pkt device, (ctx.nf.nfPktDispatcher pkt device).hasPktSetState = true)
    (intact : Intact ctx.cfg p.manager) (manager : q.manager = p.manager) (globalState : q.globalState = p.globalState) :
    ∃ q', Trace (Serves ctx) q turns q' ∧ q'.manager = p'.manager ∧ q'.globalState = p'.globalState := by
  cases served with
  | receive mbufs batchSize device now a alone unlocks all ran calm =>
    let receiving : Context Ω G P S Id B := { ctx with device := device, now := now }
    have served := handleBatch_serves (b := parseBatch receiving mbufs batchSize) (show receiving.cfg.Fits from fits) lawful here
      (fun i _ => (stateful _ _).trans (stateful _ _).symm) alone unlocks all rfl rfl (fun i within => if_pos within)
      (by exact intact) ran calm
    obtain ⟨q', processed, manager', globalState', _⟩ := processEach_of_serveAll alone unlocks manager.symm globalState.symm
      (fun i within => if_pos within) (fun i within => if_pos within) le_rfl served
    exact ⟨q', processEach_trace processed, manager', globalState'⟩
  | sweep handler time ran =>
    rw [← manager] at ran
    exact ⟨_, Trace.start.extend (.sweep handler time ran), rfl, globalState⟩

theorem batches_serve {bursts : List (List (Turn Ω G B Id S))} (run : Trace (ServesBatch ctx) p bursts p') (fits : ctx.cfg.Fits)
    (lawful : ctx.cfg.Lawful) (here : ctx.pktSetPartition = core.val)
    (stateful : ∀ pkt device, (ctx.nf.nfPktDispatcher pkt device).hasPktSetState = true) (intact : Intact ctx.cfg p.manager)
    (manager : q.manager = p.manager) (globalState : q.globalState = p.globalState) :
    ∃ q', Trace (Serves ctx) q bursts.flatten q' ∧ q'.manager = p'.manager ∧ q'.globalState = p'.globalState := by
  apply run.rule (P := fun bursts p' => ∃ q', Trace (Serves ctx) q bursts.flatten q' ∧ q'.manager = p'.manager ∧
    q'.globalState = p'.globalState)
  case initial => exact ⟨q, .start, manager, globalState⟩
  case keeps =>
    rintro past t turns u _ ⟨v, before, manager', globalState'⟩ served
    have intact' : Intact ctx.cfg v.manager := before.keeps (P := fun v => Intact ctx.cfg v.manager) (by rwa [manager])
      fun _ _ _ intact step => step.intact fits lawful here intact
    rw [manager'] at intact'
    obtain ⟨w, after, manager'', globalState''⟩ := served.serves fits lawful here stateful intact' manager' globalState'
    refine ⟨w, ?_, manager'', globalState''⟩
    rw [List.flatten_append, List.flatten_singleton]
    exact before.append after

end Batches

section Room

/-- The partition has no room for another packet set. -/
def Crowded (ctx : Context Ω G P S Id B) (m : Manager Id S) : Prop :=
  concurrentDchainImplHasFreeIndexes ctx.cfg.numCores m.cells ctx.pktSetPartition = false

theorem Crowded.of_same {m m' : Manager Id S} (crowded : Crowded ctx m) (cells : m'.cells = m.cells) : Crowded ctx m' := by
  rwa [Crowded, cells]

/-- Where there is no room, nothing is registered. -/
theorem Crowded.commit {m m' : Manager Id S} {id : Id} {time : Int} {outcome : Outcome G P S Id} (crowded : Crowded ctx m)
    (ran : addPktSetCommit ctx.cfg id ctx.pktSetPartition time
      (writeBack ctx none outcome (addPktSetLogClear ctx.pktSetPartition m)) = some m') : m'.cells = m.cells := by
  have flag : ((writeBack ctx none outcome (addPktSetLogClear ctx.pktSetPartition m)).log ctx.pktSetPartition).addPktSet = false := by
    unfold Crowded at crowded
    cases added : outcome.added with
    | none => simp [writeBack, added, addPktSetLogClear]
    | some entry => simp [writeBack, added, addPktSetLogClear, addPktSetLog, crowded]
  simp only [addPktSetCommit, flag, Bool.false_eq_true, if_false, Option.some.injEq] at ran
  subst ran
  exact (FwNat.writeBack_frame ctx none outcome _).1

theorem attemptPkt_cells {branch : Branch} {n : Nat} {d : Dispatch Id} {a : Attempt Ω G}
    (ran : attemptPkt ctx branch n d a p = some (true, p')) : p'.manager.cells = p.manager.cells := by
  obtain ⟨outcome, _, _, _, rfl⟩ := attemptPkt_committed.mp ran
  exact (FwNat.writeBack_frame ctx _ outcome _).1.trans (FwNat.prepare_manager ctx branch n p).1

/-- A packet makes no room. -/
theorem Serves.crowded (served : Serves ctx p (.received x dst) p') (fits : ctx.cfg.Fits) (lawful : ctx.cfg.Lawful)
    (here : ctx.pktSetPartition = core.val) (intact : Intact ctx.cfg p.manager) (crowded : Crowded ctx p.manager) :
    Crowded ctx p'.manager := by
  cases served with
  | receive _ ran =>
    cases parser : (ctx.receiving x).nf.nfPktParser x.buffer with
    | mk parsed pkt =>
      cases parsed with
      | false =>
        rw [FwNat.processPkt_unparsed parser] at ran
        obtain ⟨_, rfl, _⟩ := Prod.mk.inj (Option.some.inj ran)
        exact crowded
      | true =>
        cases stateful : (ctx.nf.nfPktDispatcher pkt x.device).hasPktSetState with
        | false => exact crowded.of_same (processPkt_orphan parser stateful ran).1
        | true =>
          replace intact : Intact (ctx.receiving x).cfg p.manager := intact
          obtain ⟨slot, cells, looked, _, free⟩ := @Intact.lookup _ _ _ _ _ _ (ctx.receiving x) core _ intact fits lawful here
            (ctx.nf.nfPktDispatcher pkt x.device).pktSetId
          have crowded' : Crowded (ctx.receiving x) { p.manager with cells := cells } := free.trans crowded
          have dispatch : (ctx.receiving x).nf.nfPktDispatcher pkt (ctx.receiving x).device = ctx.nf.nfPktDispatcher pkt x.device := rfl
          simp only [processPkt, parser, if_true, dispatch, handlePkt, stateful, Bool.not_true, Bool.false_eq_true, if_false, looked,
            Option.bind_eq_bind, Option.bind_some] at ran
          cases slot with
          | some slot =>
            simp only [restartSecond, Option.bind_eq_some_iff, Option.pure_def, Option.some.injEq, Prod.mk.injEq] at ran
            obtain ⟨⟨q, left⟩, retried, _, rfl, _⟩ := ran
            exact crowded'.of_same (attemptPkt_cells (Retry.retry_single.mp retried).2)
          | none =>
            simp only [restartThird, Option.bind_eq_some_iff, Option.pure_def, Option.some.injEq, Prod.mk.injEq] at ran
            obtain ⟨⟨q, left⟩, ⟨⟨u, other⟩, retried, manager, stored, rfl, rfl⟩, _, rfl, _⟩ := ran
            obtain ⟨outcome, _, _, _, rfl⟩ := attemptPkt_committed.mp (Retry.retry_single.mp retried).2
            exact crowded'.of_same (crowded'.commit stored)

end Room
end Nfos.DataPlane
