import Nfos.FwNatTransparent
import Nfos.PktSetRefinement

/-! What `process_pkt` does to the table of the packet sets when its handler is not aborted:
a handler of a registered packet set replaces its state, a handler of an unknown one
registers it with the state that it has given to `add_pkt_set`. -/
namespace Nfos.DataPlane
open Function PktSetManager ConcurrentDoubleChain CellData Registry Retry
variable {Ω G P S Id B : Type}

section Attempts
variable {ctx : Context Ω G P S Id B} {branch : Branch} {n : Nat} {d : Dispatch Id} {contention : Ω} {view : G}
variable {p p' : Plane G P S Id} {outcome : Outcome G P S Id} {a : Attempt Ω G}

/-- What a handler is given for the packet at position `n`. -/
def callAt (ctx : Context Ω G P S Id B) (branch : Branch) (n : Nat) (d : Dispatch Id) (view : G)
    (p : Plane G P S Id) : Call G P S Id where
  globalState := view
  pkt := p.packet n
  incomingDev := ctx.device
  localState := (slotOf branch n p).map p.manager.pktSetState
  pktSetId := d.pktSetId
  time := ctx.now
  canAdd := concurrentDchainImplHasFreeIndexes ctx.cfg.numCores p.manager.cells ctx.pktSetPartition

/-- The memory behind a handler. -/
def invoked (ctx : Context Ω G P S Id B) (branch : Branch) (n : Nat) (d : Dispatch Id) (outcome : Outcome G P S Id)
    (p : Plane G P S Id) : Plane G P S Id :=
  { p with
    manager := writeBack ctx (slotOf branch n p) outcome p.manager
    packet := update p.packet n outcome.pkt
    dstDevice := deliver p.dstDevice outcome.actions
    running := p.running ++ [⟨branch, n, d.pktClass, isRegistered ctx d.pktSetId p.manager,
      outcome.abort, outcome.actions⟩] }

theorem invoke_iff : invoke ctx branch n d contention view p = some (outcome, p') ↔
    ctx.handler branch d.pktClass contention (callAt ctx branch n d view p) = some outcome ∧
    p' = invoked ctx branch n d outcome p := by
  simp only [invoke, Option.bind_eq_bind, Option.bind_eq_some_iff, Option.pure_def, Option.some.injEq, Prod.mk.injEq]
  constructor
  · rintro ⟨_, handled, rfl, rfl⟩
    exact ⟨handled, rfl⟩
  · rintro ⟨handled, rfl⟩
    exact ⟨_, handled, rfl, rfl⟩

/-- The memory behind a transaction with one handler that committed. -/
def committed (ctx : Context Ω G P S Id B) (branch : Branch) (n : Nat) (d : Dispatch Id) (outcome : Outcome G P S Id)
    (p : Plane G P S Id) : Plane G P S Id :=
  { invoked ctx branch n d outcome p with globalState := outcome.globalState }.endTxn true

theorem attemptPkt_committed : attemptPkt ctx branch n d a p = some (true, p') ↔ ∃ outcome,
    ctx.handler branch d.pktClass a.contention
      (callAt ctx branch n d (a.others (prepare ctx branch n p).globalState) (prepare ctx branch n p)) = some outcome ∧
    outcome.abort = false ∧ a.unlocks = true ∧ p' = committed ctx branch n d outcome (prepare ctx branch n p) := by
  have called (view : G) : callAt ctx branch n d view { prepare ctx branch n p with globalState := view } =
      callAt ctx branch n d view (prepare ctx branch n p) := rfl
  constructor
  · intro ran
    obtain ⟨view, q, worked, unlocks, rfl⟩ := transaction_done ran
    simp only [Option.bind_eq_bind, Option.bind_eq_some_iff, Option.pure_def, Option.some.injEq, Prod.mk.injEq] at worked
    obtain ⟨⟨outcome, u⟩, invokes, returned, rfl⟩ := worked
    obtain ⟨handled, rfl⟩ := invoke_iff.mp invokes
    rw [called] at handled
    cases aborts : outcome.abort with
    | true => simp [aborts] at returned
    | false =>
      simp only [aborts, Bool.false_eq_true, if_false, Option.some.injEq] at returned
      subst returned
      exact ⟨outcome, handled, aborts, unlocks, rfl⟩
  · rintro ⟨outcome, handled, returned, unlocks, rfl⟩
    have ran : invoke ctx branch n d a.contention (a.others (prepare ctx branch n p).globalState)
        { prepare ctx branch n p with globalState := a.others (prepare ctx branch n p).globalState } = some (outcome, _) :=
      invoke_iff.mpr ⟨handled, rfl⟩
    simp only [attemptPkt, transaction, ran, Option.bind_eq_bind, Option.bind_some, returned, Bool.false_eq_true, if_false,
      unlocks, if_true, Option.pure_def]
    rfl

end Attempts

section Table
variable {ctx : Context Ω G P S Id B} {core : Fin ctx.cfg.numCores} {m m' : Manager Id S}
variable {A : Entries (Fin ctx.cfg.numCores) Id (Nat × S)} {L : ListId ctx.cfg.numCores → List Nat}
variable {C : Fin ctx.cfg.numBuckets → List Nat} {id : Id} {slot : Nat} {state : S}

/-- The packet sets of the manager are those of the table. -/
def Holds (cfg : Config Id) (m : Manager Id S) (A : Entries (Fin cfg.numCores) Id (Nat × S)) : Prop :=
  ∃ L C, Coherent cfg m L C ∧ Represents cfg m L A

/-- The manager does not look at the log. -/
theorem Holds.of_same (holds : Holds ctx.cfg m A) (cells : m'.cells = m.cells) (buckets : m'.buckets = m.buckets)
    (states : m'.pktSetState = m.pktSetState) : Holds ctx.cfg m' A := by
  obtain ⟨L, C, coherent, represents⟩ := holds
  refine ⟨L, C, ?_, ?_⟩
  · exact coherent.relink buckets (cells ▸ coherent.valid) (fun _ _ => Iff.rfl) (by rw [cells]) (by rw [cells])
  · intro q k j s
    rw [cells, states]
    exact represents q k j s

/-- A handler writes to the slot of a registered packet set. -/
theorem Holds.write (holds : Holds ctx.cfg m A) (lawful : ctx.cfg.Lawful) (found : A core id = some (slot, state)) {state' : S}
    (cells : m'.cells = m.cells) (buckets : m'.buckets = m.buckets)
    (states : m'.pktSetState = update m.pktSetState slot state') :
    Holds ctx.cfg m' (add ctx.cfg.pktSetIdEq core id (slot, state') A) := by
  obtain ⟨L, C, coherent, represents⟩ := holds
  obtain ⟨member, named, _⟩ := (represents core id slot state).mp found
  refine ⟨L, C, ?_, ?_⟩
  · exact coherent.relink buckets (cells ▸ coherent.valid) (fun _ _ => Iff.rfl) (by rw [cells]) (by rw [cells])
  · intro q k j s
    rw [cells, states]
    change (if q = core ∧ ctx.cfg.pktSetIdEq k id = true then some (slot, state') else A q k) = some (j, s) ↔ _
    by_cases atSlot : j = slot
    · subst atSlot
      rw [update_self]
      split_ifs with here
      · obtain ⟨rfl, same⟩ := here
        simp [member, lawful.equivalence.trans same named]
      · rw [represents q k j s]
        constructor
        · rintro ⟨inside, equal, _⟩
          have owner : q = core := ListId.alloc.inj (coherent.valid.layout.forward.apart inside member)
          exact absurd ⟨owner, lawful.equivalence.trans equal (lawful.equivalence.symm named)⟩ here
        · rintro ⟨inside, equal, _⟩
          have owner : q = core := ListId.alloc.inj (coherent.valid.layout.forward.apart inside member)
          exact absurd ⟨owner, lawful.equivalence.trans equal (lawful.equivalence.symm named)⟩ here
    · rw [update_of_ne atSlot]
      split_ifs with here
      · obtain ⟨rfl, same⟩ := here
        constructor
        · intro equal
          exact absurd (congrArg Prod.fst (Option.some.inj equal)).symm atSlot
        · rintro ⟨inside, equal, _⟩
          have alike := coherent.distinct q _ inside _ member
            (lawful.equivalence.trans (lawful.equivalence.symm equal) (lawful.equivalence.trans same named))
          exact absurd (Nat.add_left_cancel alike) atSlot
      · exact represents q k j s

/-- A lookup finds what the table says, and leaves the table. -/
theorem Holds.lookup (holds : Holds ctx.cfg m A) (fits : ctx.cfg.Fits) (lawful : ctx.cfg.Lawful) (core : Fin ctx.cfg.numCores)
    (id : Id) (time : Int) :
    ∃ m', getPktSetState ctx.cfg id core.val time m = some ((A core id).map Prod.fst, m') ∧ Holds ctx.cfg m' A ∧
      m'.pktSetState = m.pktSetState ∧ (∀ slot state, A core id = some (slot, state) → m.pktSetState slot = state) := by
  obtain ⟨L, C, coherent, represents⟩ := holds
  cases found : A core id with
  | none =>
    refine ⟨m, coherent.get_miss fits lawful ((represents.none_iff coherent).mp found) time,
      ⟨L, C, coherent, represents⟩, rfl, ?_⟩
    simp
  | some entry =>
    obtain ⟨slot, state⟩ := entry
    obtain ⟨member, named, stored⟩ := (represents core id slot state).mp found
    obtain ⟨cells, M, ran, coherent', members, ids, _⟩ := coherent.get_hit fits lawful member named time
    refine ⟨_, ran, ⟨M, C, coherent', ?_⟩, rfl, ?_⟩
    · intro q k j s
      rw [members, ids]
      exact represents q k j s
    · rintro _ _ ⟨⟩
      exact stored

/-- The state that a handler registers. -/
def registers (outcome : Outcome G P S Id) (canAdd : Bool) : Option S :=
  if canAdd then outcome.added.map Prod.fst else none

/-- The registration behind a handler of an unknown packet set. -/
theorem Holds.commit (holds : Holds ctx.cfg m A) (fits : ctx.cfg.Fits) (lawful : ctx.cfg.Lawful)
    (here : ctx.pktSetPartition = core.val) (absent : A core id = none) {outcome : Outcome G P S Id} {time : Int}
    (ran : addPktSetCommit ctx.cfg id core.val time (writeBack ctx none outcome (addPktSetLogClear core.val m)) = some m') :
    match registers outcome (concurrentDchainImplHasFreeIndexes ctx.cfg.numCores m.cells core.val) with
    | none => Holds ctx.cfg m' A
    | some state => ∃ slot, Holds ctx.cfg m' (add ctx.cfg.pktSetIdEq core id (slot, state) A) := by
  have idle : ∀ m₁ : Manager Id S, (m₁.log core.val).addPktSet = false → m₁.cells = m.cells → m₁.buckets = m.buckets →
      m₁.pktSetState = m.pktSetState → addPktSetCommit ctx.cfg id core.val time m₁ = some m' → Holds ctx.cfg m' A := by
    intro m₁ flag cells buckets states ran
    simp only [addPktSetCommit, flag, Bool.false_eq_true, if_false, Option.some.injEq] at ran
    subst ran
    exact holds.of_same cells buckets states
  cases added : outcome.added with
  | none =>
    have nothing : registers outcome (concurrentDchainImplHasFreeIndexes ctx.cfg.numCores m.cells core.val) = none := by
      simp [registers, added]
    rw [nothing]
    refine idle _ ?_ ?_ ?_ ?_ ran <;> simp [writeBack, added, addPktSetLogClear]
  | some entry =>
    obtain ⟨state, related⟩ := entry
    cases free : concurrentDchainImplHasFreeIndexes ctx.cfg.numCores m.cells core.val with
    | false =>
      refine idle _ ?_ ?_ ?_ ?_ ran <;> simp [writeBack, added, addPktSetLogClear, addPktSetLog, free, here]
    | true =>
      simp only [registers, added, if_true, Option.map_some]
      have logs : addPktSetLog ctx.cfg state core.val related (addPktSetLogClear core.val m) =
          (true, writeBack ctx none outcome (addPktSetLogClear core.val m)) := by
        simp [writeBack, added, addPktSetLog, addPktSetLogClear, free, here]
      obtain ⟨L, C, coherent, represents⟩ := holds
      have new := (represents.none_iff coherent).mp absent
      obtain ⟨⟨i, l, split⟩, kept, cells, states, flag, value⟩ := logged_split coherent logs
      obtain ⟨_, after, D, result, coherent', ids, _, slots⟩ := kept.commit fits lawful id split (by rwa [cells]) flag time
      rw [ran] at result
      cases Option.some.inj result
      rw [cells] at ids
      rw [states, value] at slots
      have added : Represents ctx.cfg m' (granted L core l (indexShift ctx.cfg.numCores + i))
          ((Event.registered core id time i state).entry.after ctx.cfg.pktSetIdEq A) :=
        represents.added coherent lawful new split ids slots
      exact ⟨i, _, D, coherent', added⟩

variable {buffer : B} {pkt : P} {d : Dispatch Id} {a : Attempt Ω G} {p p' : Plane G P S Id} {dst : Nat}
variable {rest : List (Attempt Ω G)}

/-- A transaction of a registered packet set that commits. -/
theorem attemptPkt_known {n : Nat} (lawful : ctx.cfg.Lawful) (holds : Holds ctx.cfg p.manager A)
    (found : A core d.pktSetId = some (slot, state)) (looked : p.pktSetState n = slot)
    (stored : p.manager.pktSetState slot = state) (ran : attemptPkt ctx .registered n d a p = some (true, p')) :
    ∃ canAdd outcome, ctx.nf.pktHandlers d.pktClass a.contention
        ⟨a.others p.globalState, p.packet n, ctx.device, some state, d.pktSetId, ctx.now, canAdd⟩ = some outcome ∧
      outcome.abort = false ∧ p'.dstDevice = deliver p.dstDevice outcome.actions ∧ p'.packet n = outcome.pkt ∧
      p'.globalState = outcome.globalState ∧
      Holds ctx.cfg p'.manager (add ctx.cfg.pktSetIdEq core d.pktSetId (slot, outcome.localState.getD state) A) := by
  obtain ⟨outcome, handled, returned, _, rfl⟩ := attemptPkt_committed.mp ran
  obtain ⟨cells, buckets, states, globalState, slots, packet⟩ := FwNat.prepare_manager ctx .registered n p
  obtain ⟨_, _, dstDevice, _⟩ := prepare_frame ctx .registered n p
  obtain ⟨cells', buckets'⟩ := FwNat.writeBack_frame ctx (some slot) outcome (prepare ctx .registered n p).manager
  have atSlot : slotOf .registered n (prepare ctx .registered n p) = some slot := by
    rw [slotOf, slots, looked]
  refine ⟨concurrentDchainImplHasFreeIndexes ctx.cfg.numCores (prepare ctx .registered n p).manager.cells ctx.pktSetPartition,
    outcome, ?_, returned, ?_, update_self .., rfl, ?_⟩
  · simp only [callAt, atSlot, globalState, packet, states, Option.map_some, stored] at handled
    exact handled
  · change deliver (prepare ctx .registered n p).dstDevice outcome.actions = _
    rw [dstDevice]
  · change Holds ctx.cfg (writeBack ctx (slotOf .registered n (prepare ctx .registered n p)) outcome _) _
    rw [atSlot]
    apply holds.write lawful found (cells'.trans cells) (buckets'.trans buckets)
    rw [pktSetState_registered, states, stored]

/-- A packet of a registered packet set. -/
theorem processPkt_known (fits : ctx.cfg.Fits) (lawful : ctx.cfg.Lawful) (here : ctx.pktSetPartition = core.val)
    (parser : ctx.nf.nfPktParser buffer = (true, pkt)) (dispatch : ctx.nf.nfPktDispatcher pkt ctx.device = d)
    (stateful : d.hasPktSetState = true) (holds : Holds ctx.cfg p.manager A)
    (found : A core d.pktSetId = some (slot, state)) (ran : processPkt ctx buffer [a] p = some (dst, p', rest)) :
    ∃ canAdd outcome, ctx.nf.pktHandlers d.pktClass a.contention
        ⟨a.others p.globalState, pkt, ctx.device, some state, d.pktSetId, ctx.now, canAdd⟩ = some outcome ∧
      outcome.abort = false ∧ dst = deliver ctx.device outcome.actions ∧ p'.packet 0 = outcome.pkt ∧
      p'.globalState = outcome.globalState ∧
      Holds ctx.cfg p'.manager (add ctx.cfg.pktSetIdEq core d.pktSetId (slot, outcome.localState.getD state) A) := by
  obtain ⟨m, got, holds', states, stored⟩ := holds.lookup fits lawful core d.pktSetId ctx.now
  rw [← here, found] at got
  simp only [processPkt, parser, if_true, dispatch, handlePkt, stateful, Bool.not_true, Bool.false_eq_true, if_false, got,
    Option.map_some, Option.bind_eq_bind, Option.bind_some, restartSecond, Option.bind_eq_some_iff, Option.pure_def,
    Option.some.injEq, Prod.mk.injEq] at ran
  obtain ⟨⟨q, left⟩, retried, rfl, rfl, rfl⟩ := ran
  have attempted := (Retry.retry_single.mp retried).2
  have looked : update p.pktSetState 0 slot 0 = slot := update_self ..
  obtain ⟨canAdd, outcome, handled, rest⟩ := attemptPkt_known lawful holds' found looked
    ((congrFun states slot).trans (stored slot state found)) attempted
  have first : update p.packet 0 pkt 0 = pkt := update_self ..
  refine ⟨canAdd, outcome, ?_, rest⟩
  rw [← handled]
  dsimp only
  rw [first]

/-- A transaction of an unknown packet set that commits, and the registration behind it. -/
theorem attemptPkt_new {n : Nat} (fits : ctx.cfg.Fits) (lawful : ctx.cfg.Lawful) (here : ctx.pktSetPartition = core.val)
    (holds : Holds ctx.cfg p.manager A) (absent : A core d.pktSetId = none)
    (ran : attemptPkt ctx .unknown n d a p = some (true, p'))
    (stored : addPktSetCommit ctx.cfg d.pktSetId core.val ctx.now p'.manager = some m') :
    ∃ outcome, ctx.nf.nfUnknownPktSetHandler a.contention
        ⟨a.others p.globalState, p.packet n, ctx.device, none, d.pktSetId, ctx.now,
          concurrentDchainImplHasFreeIndexes ctx.cfg.numCores p.manager.cells core.val⟩ = some outcome ∧
      outcome.abort = false ∧ p'.dstDevice = deliver p.dstDevice outcome.actions ∧ p'.packet n = outcome.pkt ∧
      p'.globalState = outcome.globalState ∧
      match registers outcome (concurrentDchainImplHasFreeIndexes ctx.cfg.numCores p.manager.cells core.val) with
      | none => Holds ctx.cfg m' A
      | some state => ∃ slot, Holds ctx.cfg m' (add ctx.cfg.pktSetIdEq core d.pktSetId (slot, state) A) := by
  obtain ⟨outcome, handled, returned, _, rfl⟩ := attemptPkt_committed.mp ran
  rw [← here]
  refine ⟨outcome, handled, returned, rfl, update_self .., rfl, ?_⟩
  rw [here]
  apply holds.commit fits lawful here absent 
  rw [← stored, ← here]
  rfl

/-- A packet of an unknown packet set. -/
theorem processPkt_new (fits : ctx.cfg.Fits) (lawful : ctx.cfg.Lawful) (here : ctx.pktSetPartition = core.val)
    (parser : ctx.nf.nfPktParser buffer = (true, pkt)) (dispatch : ctx.nf.nfPktDispatcher pkt ctx.device = d)
    (stateful : d.hasPktSetState = true) (holds : Holds ctx.cfg p.manager A)
    (absent : A core d.pktSetId = none) (ran : processPkt ctx buffer [a] p = some (dst, p', rest)) :
    ∃ outcome, ctx.nf.nfUnknownPktSetHandler a.contention
        ⟨a.others p.globalState, pkt, ctx.device, none, d.pktSetId, ctx.now,
          concurrentDchainImplHasFreeIndexes ctx.cfg.numCores p.manager.cells core.val⟩ = some outcome ∧
      outcome.abort = false ∧ dst = deliver ctx.device outcome.actions ∧ p'.packet 0 = outcome.pkt ∧
      p'.globalState = outcome.globalState ∧
      match registers outcome (concurrentDchainImplHasFreeIndexes ctx.cfg.numCores p.manager.cells core.val) with
      | none => Holds ctx.cfg p'.manager A
      | some state => ∃ slot, Holds ctx.cfg p'.manager (add ctx.cfg.pktSetIdEq core d.pktSetId (slot, state) A) := by
  obtain ⟨L, C, coherent, represents⟩ := holds
  have missed := coherent.get_miss fits lawful ((represents.none_iff coherent).mp absent) ctx.now
  rw [← here] at missed
  simp only [processPkt, parser, if_true, dispatch, handlePkt, stateful, Bool.not_true, Bool.false_eq_true, if_false, missed,
    Option.bind_eq_bind, Option.bind_some, restartThird, Option.bind_eq_some_iff, Option.pure_def,
    Option.some.injEq, Prod.mk.injEq] at ran
  obtain ⟨⟨q, left⟩, ⟨⟨u, other⟩, retried, manager, committed, rfl, rfl⟩, rfl, rfl, rfl⟩ := ran
  rw [here] at committed
  have attempted : attemptPkt ctx .unknown 0 d a _ = some (true, u) := (Retry.retry_single.mp retried).2
  obtain ⟨outcome, handled, rest⟩ := attemptPkt_new fits lawful here (by exact ⟨L, C, coherent, represents⟩) absent
    attempted committed
  have first : update p.packet 0 pkt 0 = pkt := update_self ..
  refine ⟨outcome, ?_, rest⟩
  rw [← handled]
  dsimp only
  rw [first]

/-- A packet without a packet set leaves the manager, up to the log. -/
theorem processPkt_orphan (parser : ctx.nf.nfPktParser buffer = (true, pkt))
    (orphan : (ctx.nf.nfPktDispatcher pkt ctx.device).hasPktSetState = false)
    (ran : processPkt ctx buffer [a] p = some (dst, p', rest)) :
    p'.manager.cells = p.manager.cells ∧ p'.manager.buckets = p.manager.buckets ∧
      p'.manager.pktSetState = p.manager.pktSetState := by
  simp only [processPkt, parser, if_true, handlePkt, orphan, Bool.not_false, noPktSetRestart, Option.bind_eq_bind,
    Option.bind_eq_some_iff, Option.pure_def, Option.some.injEq, Prod.mk.injEq] at ran
  obtain ⟨⟨q, left⟩, retried, rfl, rfl, rfl⟩ := ran
  obtain ⟨outcome, _, _, _, rfl⟩ := attemptPkt_committed.mp (Retry.retry_single.mp retried).2
  obtain ⟨cells, buckets⟩ := FwNat.writeBack_frame ctx none outcome p.manager
  exact ⟨cells, buckets, pktSetState_writeBack none outcome p.manager⟩

/-- Packet sets with equal ids are one packet set. -/
theorem Holds.congr (holds : Holds ctx.cfg m A) (lawful : ctx.cfg.Lawful) {id' : Id} (same : ctx.cfg.pktSetIdEq id id' = true) :
    A core id = A core id' := by
  obtain ⟨L, C, coherent, represents⟩ := holds
  apply Option.ext
  rintro ⟨slot, state⟩
  rw [represents core id slot state, represents core id' slot state]
  have equal (key : Id) : ctx.cfg.pktSetIdEq id key = true ↔ ctx.cfg.pktSetIdEq id' key = true :=
    ⟨lawful.equivalence.trans (lawful.equivalence.symm same), lawful.equivalence.trans same⟩
  rw [equal]

theorem Holds.sweep (holds : Holds ctx.cfg m A) (fits : ctx.cfg.Fits) (lawful : ctx.cfg.Lawful) {handler : Nat → ExpiredRuns S}
    {time : Int} {gone : List (Expired Id S)}
    (ran : deleteExpiredPktSets ctx.cfg handler time core.val m = some (gone, m')) :
    Holds ctx.cfg m' (remove ctx.cfg.pktSetIdEq core (gone.map Expired.id) A) := by
  obtain ⟨L, C, coherent, represents⟩ := holds
  obtain ⟨_, M, D, coherent', represents'⟩ := step_represents fits lawful coherent represents (by simp)
    (PktSetManager.Step.sweep core time handler ran)
  exact ⟨M, D, coherent', represents'⟩

/-- A coherent manager has a table. -/
theorem holds_of_coherent (lawful : ctx.cfg.Lawful) (coherent : Coherent ctx.cfg m L C) : ∃ A, Holds ctx.cfg m A := by
  classical
  let A : Entries (Fin ctx.cfg.numCores) Id (Nat × S) := fun q k =>
    if found : ∃ i, indexShift ctx.cfg.numCores + i ∈ L (.alloc q) ∧
      ctx.cfg.pktSetIdEq k (idOf m.cells (indexShift ctx.cfg.numCores + i)) = true
    then some (found.choose, m.pktSetState found.choose) else none
  refine ⟨A, L, C, coherent, ?_⟩
  intro q k i s
  dsimp only [A]
  split
  · rename_i found
    obtain ⟨member, named⟩ := found.choose_spec
    simp only [Option.some.injEq, Prod.mk.injEq]
    constructor
    · rintro ⟨rfl, rfl⟩
      exact ⟨member, named, rfl⟩
    · rintro ⟨member', named', rfl⟩
      have alike := coherent.distinct q _ member _ member' (lawful.equivalence.trans (lawful.equivalence.symm named) named')
      have same := Nat.add_left_cancel alike
      exact ⟨same, congrArg m.pktSetState same⟩
  · rename_i missing
    simp only [reduceCtorEq, false_iff]
    rintro ⟨member, named, _⟩
    exact missing ⟨i, member, named⟩

end Table

section Turns

/-- A packet, its device and the attempt for it. -/
structure Arrival (Ω G B : Type) where
  buffer : B
  device : Nat
  now : Int
  attempt : Attempt Ω G

def Context.receiving (ctx : Context Ω G P S Id B) (x : Arrival Ω G B) : Context Ω G P S Id B :=
  { ctx with device := x.device, now := x.now }

/-- What a core does for its partition: it processes a packet, for which it reports a device,
or it deletes the expired packet sets. -/
inductive Turn (Ω G B Id S : Type) where
  | received (x : Arrival Ω G B) (dst : Nat)
  | swept (time : Int) (gone : List (Expired Id S))

/-- The packets are processed without aborts: one attempt is enough. -/
inductive Serves (ctx : Context Ω G P S Id B) : Plane G P S Id → Turn Ω G B Id S → Plane G P S Id → Prop where
  | receive {p p' dst rest} (x : Arrival Ω G B) :
      processPkt (ctx.receiving x) x.buffer [x.attempt] p = some (dst, p', rest) → Serves ctx p (.received x dst) p'
  | sweep {p gone m'} (handler : Nat → ExpiredRuns S) (time : Int) :
      deleteExpiredPktSets ctx.cfg handler time ctx.pktSetPartition p.manager = some (gone, m') →
      Serves ctx p (.swept time gone) { p with manager := m' }

variable {ctx : Context Ω G P S Id B} {core : Fin ctx.cfg.numCores} {A A' : Entries (Fin ctx.cfg.numCores) Id (Nat × S)}
variable {p p' : Plane G P S Id} {t : Turn Ω G B Id S}

/-- What happens to the table in a turn of the core. -/
inductive Effect (ctx : Context Ω G P S Id B) (core : Fin ctx.cfg.numCores) (A : Entries (Fin ctx.cfg.numCores) Id (Nat × S)) :
    Turn Ω G B Id S → Entries (Fin ctx.cfg.numCores) Id (Nat × S) → Prop where
  | unparsed (x : Arrival Ω G B) : (ctx.nf.nfPktParser x.buffer).1 = false → Effect ctx core A (.received x x.device) A
  | orphan {dst} (x : Arrival Ω G B) (pkt : P) : ctx.nf.nfPktParser x.buffer = (true, pkt) →
      (ctx.nf.nfPktDispatcher pkt x.device).hasPktSetState = false → Effect ctx core A (.received x dst) A
  | known (x : Arrival Ω G B) {pkt : P} {d : Dispatch Id} {slot : Nat} {state : S} (call : Call G P S Id)
      (outcome : Outcome G P S Id) : ctx.nf.nfPktParser x.buffer = (true, pkt) →
      ctx.nf.nfPktDispatcher pkt x.device = d → d.hasPktSetState = true → A core d.pktSetId = some (slot, state) →
      call.pkt = pkt → call.incomingDev = x.device → call.localState = some state →
      ctx.nf.pktHandlers d.pktClass x.attempt.contention call = some outcome → outcome.abort = false →
      Effect ctx core A (.received x (deliver x.device outcome.actions))
        (add ctx.cfg.pktSetIdEq core d.pktSetId (slot, outcome.localState.getD state) A)
  | unknown (x : Arrival Ω G B) {pkt : P} {d : Dispatch Id} (call : Call G P S Id) (outcome : Outcome G P S Id) :
      ctx.nf.nfPktParser x.buffer = (true, pkt) → ctx.nf.nfPktDispatcher pkt x.device = d → d.hasPktSetState = true →
      A core d.pktSetId = none → call.pkt = pkt → call.incomingDev = x.device →
      ctx.nf.nfUnknownPktSetHandler x.attempt.contention call = some outcome → outcome.abort = false →
      registers outcome call.canAdd = none → Effect ctx core A (.received x (deliver x.device outcome.actions)) A
  | new (x : Arrival Ω G B) {pkt : P} {d : Dispatch Id} {slot : Nat} {state : S} (call : Call G P S Id)
      (outcome : Outcome G P S Id) : ctx.nf.nfPktParser x.buffer = (true, pkt) →
      ctx.nf.nfPktDispatcher pkt x.device = d → d.hasPktSetState = true → A core d.pktSetId = none →
      call.pkt = pkt → call.incomingDev = x.device →
      ctx.nf.nfUnknownPktSetHandler x.attempt.contention call = some outcome → outcome.abort = false →
      registers outcome call.canAdd = some state →
      Effect ctx core A (.received x (deliver x.device outcome.actions))
        (add ctx.cfg.pktSetIdEq core d.pktSetId (slot, state) A)
  | swept (time : Int) (gone : List (Expired Id S)) :
      Effect ctx core A (.swept time gone) (remove ctx.cfg.pktSetIdEq core (gone.map Expired.id) A)

/-- A turn keeps the table of the manager up to date. -/
theorem serves_effect (fits : ctx.cfg.Fits) (lawful : ctx.cfg.Lawful) (here : ctx.pktSetPartition = core.val)
    (holds : Holds ctx.cfg p.manager A) (served : Serves ctx p t p') :
    ∃ A', Effect ctx core A t A' ∧ Holds ctx.cfg p'.manager A' := by
  cases served with
  | sweep handler time ran =>
    rw [here] at ran
    exact ⟨_, .swept time _, holds.sweep fits lawful ran⟩
  | @receive _ dst rest x ran =>
    replace fits : (ctx.receiving x).cfg.Fits := fits
    cases parser : (ctx.receiving x).nf.nfPktParser x.buffer with
    | mk parsed pkt =>
      cases parsed with
      | false =>
        rw [FwNat.processPkt_unparsed parser] at ran
        obtain ⟨rfl, rfl, _⟩ := Prod.mk.inj (Option.some.inj ran)
        exact ⟨A, .unparsed x (congrArg Prod.fst parser), holds⟩
      | true =>
        cases stateful : (ctx.nf.nfPktDispatcher pkt x.device).hasPktSetState with
        | false =>
          have handled := processPkt_orphan parser stateful ran
          exact ⟨A, .orphan x pkt parser stateful, holds.of_same handled.1 handled.2.1 handled.2.2⟩
        | true =>
          cases found : A core (ctx.nf.nfPktDispatcher pkt x.device).pktSetId with
          | some entry =>
            obtain ⟨slot, state⟩ := entry
            obtain ⟨canAdd, outcome, handled, returned, rfl, _, _, holds'⟩ :=
              processPkt_known fits lawful here parser rfl stateful holds found ran
            exact ⟨_, .known x _ outcome parser rfl stateful found rfl rfl rfl handled returned, holds'⟩
          | none =>
            obtain ⟨outcome, handled, returned, rfl, _, _, holds'⟩ :=
              processPkt_new fits lawful here parser rfl stateful holds found ran
            split at holds'
            · rename_i nothing
              exact ⟨A, .unknown x _ outcome parser rfl stateful found rfl rfl handled returned nothing, holds'⟩
            · rename_i state registered
              obtain ⟨slot, holds'⟩ := holds'
              exact ⟨_, .new x _ outcome parser rfl stateful found rfl rfl handled returned registered, holds'⟩

end Turns
end Nfos.DataPlane
