import Nfos.DataPlane

/-! The rollback of the packet-set states of a batch. The log has one copy for each
packet, and the copies are replayed in the order in which they were taken. -/
namespace Nfos.DataPlane
open Function PktSetManager UndoLog
variable {Ω G P S Id B : Type}

section Pass
variable {ctx : Context Ω G P S Id B} {b : Batch Id} {contention : Ω} {view : G} {n : Nat}
variable {branch : Branch} {d : Dispatch Id} {p p' : Plane G P S Id} {outcome : Outcome G P S Id}

theorem pktSetState_writeBack (slot : Option Nat) (outcome : Outcome G P S Id) (m : Manager Id S) :
    (writeBack ctx slot outcome m).pktSetState =
      match slot, outcome.localState with
      | some slot, some state => update m.pktSetState slot state
      | _, _ => m.pktSetState := by
  unfold writeBack addPktSetLog
  cases outcome.added with
  | none => rfl
  | some added =>
    dsimp only
    split
    · rfl
    · rfl

/-- The handler of a registered packet set replaces its state, maybe by itself. -/
theorem pktSetState_registered (slot : Nat) (outcome : Outcome G P S Id) (m : Manager Id S) :
    (writeBack ctx (some slot) outcome m).pktSetState =
      update m.pktSetState slot (outcome.localState.getD (m.pktSetState slot)) := by
  rw [pktSetState_writeBack]
  cases outcome.localState with
  | none => simp
  | some state => rfl

/-- The handlers of a transaction write to the states of their packets, and a copy
of each state is logged before. -/
theorem handlePkts_logged (mutableStates : ctx.mutablePktSetState = true) {l : List Nat} {result : Option G}
    (ran : handlePkts ctx b .registered (beforeRegistered ctx) contention l view p = some (result, p')) :
    ∃ writes : List (Nat × S),
      writes.map Prod.fst = (l.take writes.length).map p.pktSetState ∧
      p'.manager.pktSetState = replay writes p.manager.pktSetState ∧
      p'.pktSetStateLog = p.pktSetStateLog ++ copies p.manager.pktSetState writes ∧
      ∀ state, (∀ pktClass call outcome, ctx.nf.pktHandlers pktClass contention call = some outcome →
        outcome.localState = some state) → ∀ write ∈ writes, write.2 = state := by
  induction l generalizing view p with
  | nil =>
    simp only [handlePkts, Option.pure_def, Option.some.injEq, Prod.mk.injEq] at ran
    obtain ⟨_, rfl⟩ := ran
    exact ⟨[], by simp [copies]⟩
  | cons n rest ih =>
    simp only [handlePkts, Option.bind_eq_bind, Option.bind_eq_some_iff] at ran
    obtain ⟨⟨outcome, q⟩, ran, continued⟩ := ran
    obtain ⟨⟨call, handled⟩, rfl⟩ := invoke_eq_some ran
    -- The write of this handler, and the copy before it.
    let write : Nat × S := (p.pktSetState n, outcome.localState.getD (p.manager.pktSetState (p.pktSetState n)))
    have states : (writeBack ctx (slotOf .registered n (beforeRegistered ctx n p)) outcome
        (beforeRegistered ctx n p).manager).pktSetState = replay [write] p.manager.pktSetState := by
      simp only [beforeRegistered, mutableStates, if_true, slotOf, logOnePktSetState]
      rw [pktSetState_registered]
      rfl
    have logged : (beforeRegistered ctx n p).pktSetStateLog =
        p.pktSetStateLog ++ copies p.manager.pktSetState [write] := by
      simp [beforeRegistered, mutableStates, logOnePktSetState, copies, write]
    have slots : (beforeRegistered ctx n p).pktSetState = p.pktSetState := by
      simp [beforeRegistered, mutableStates, logOnePktSetState]
    have constant : ∀ state, (∀ pktClass call outcome, ctx.nf.pktHandlers pktClass contention call =
        some outcome → outcome.localState = some state) → write.2 = state := by
      intro state all
      simp [write, all _ _ _ handled]
    split at continued
    · simp only [Option.pure_def, Option.some.injEq, Prod.mk.injEq] at continued
      obtain ⟨_, rfl⟩ := continued
      refine ⟨[write], by simp [write], states, logged, ?_⟩
      intro state all other member
      rw [List.mem_singleton.mp member]
      exact constant state all
    · obtain ⟨writes, keys, after, log, all'⟩ := ih continued
      refine ⟨write :: writes, ?_, ?_, ?_, ?_⟩
      · simp [keys, slots, write]
      · rw [after]
        exact congrArg (replay writes) states
      · rw [log]
        dsimp only
        rw [states, logged, List.append_assoc]
        exact congrArg _ (copies_append p.manager.pktSetState [write] writes).symm
      · intro state all other member
        rcases List.mem_cons.mp member with rfl | later
        · exact constant state all
        · exact all' state all other later

/-- After the rollback of an aborted attempt. The copies are those of the packets
that were handled, which the log counts. -/
theorem attemptRegistered_aborted (mutableStates : ctx.mutablePktSetState = true) {startN endN : Nat}
    {a : Attempt Ω G} (aborted : attemptRegistered ctx b startN endN a p = some (false, p')) :
    ∃ writes : List (Nat × S),
      writes.map Prod.fst = ((positions b endN b.batchSize startN).take p'.pktSetStateLog.length).map
        p.pktSetState ∧
      p'.manager.pktSetState = replay (copies p.manager.pktSetState writes)
        (replay writes p.manager.pktSetState) ∧
      ∀ state, (∀ pktClass call outcome, ctx.nf.pktHandlers pktClass a.contention call = some outcome →
        outcome.localState = some state) → ∀ write ∈ writes, write.2 = state := by
  obtain ⟨result, q, worked, rfl⟩ := transaction_failed aborted
  rw [if_pos mutableStates] at worked
  obtain ⟨writes, keys, states, log, constant⟩ := handlePkts_logged mutableStates worked
  simp only [resetLogPktSetState, List.nil_append] at keys states log
  refine ⟨writes, ?_, ?_, constant⟩
  · simp [abortTxn, mutableStates, rollbackPktSetStates, Plane.endTxn, log, keys]
  · simp [abortTxn, mutableStates, rollbackPktSetStates, Plane.endTxn, log, states]

end Pass

section Counting
variable {b : Batch Id} {state : S} {k : Nat}

/-- An NF whose handlers store one fixed state, and abort at the `k`-th packet of a
transaction. -/
def countingNF (dispatch : Dispatch Id) (state : S) (k : Nat) : NF Unit Nat Unit S Id Unit where
  nfPktParser _ := (true, ())
  nfPktDispatcher _ _ := dispatch
  pktHandlers _ _ call := some
    { abort := call.globalState + 1 == k, actions := [.dropPkt], globalState := call.globalState + 1
      pkt := (), localState := some state, added := none }
  nfUnknownPktSetHandler _ call := some
    { abort := false, actions := [.dropPkt], globalState := call.globalState
      pkt := (), localState := none, added := none }

def countingContext (dispatch : Dispatch Id) (state : S) (k : Nat) : Context Unit Nat Unit S Id Unit where
  nf := countingNF dispatch state k
  cfg :=
    { numCores := 1, maxNumPktSets := 1, pktSetIdEq := fun _ _ => true, pktSetIdHash := fun _ => 0
      pktSetValidityDuration := 0, hasRelatedPktSets := false }
  mutablePktSetState := true
  device := 0
  pktSetPartition := 0
  now := 0

theorem handlePkts_counting {ctx : Context Unit Nat Unit S Id Unit} {dispatch : Dispatch Id}
    (counting : ctx = countingContext dispatch state k) {l : List Nat} {view : Nat}
    (p : Plane Nat Unit S Id) (before : view < k) (enough : k - view ≤ l.length) :
    ∃ p', handlePkts ctx b .registered (beforeRegistered ctx) () l view p = some (none, p') ∧
      p'.pktSetStateLog.length = p.pktSetStateLog.length + (k - view) := by
  subst counting
  induction l generalizing view p with
  | nil =>
    simp only [List.length_nil] at enough
    omega
  | cons n rest ih =>
    by_cases last : view + 1 = k
    · refine ⟨_, by simp [handlePkts, invoke, Context.handler, countingContext, countingNF, last]; rfl, ?_⟩
      simp [beforeRegistered, logOnePktSetState]
      omega
    · obtain ⟨p', ran, length⟩ := ih _ (show view + 1 < k by omega) (by simp at enough; omega)
      refine ⟨p', ?_, ?_⟩
      · simpa [handlePkts, invoke, Context.handler, countingContext, countingNF, last] using ran
      · rw [length]
        simp [beforeRegistered, logOnePktSetState]
        omega

/-- After an attempt that aborts when `k` packets have been handled, the rollback
restores every packet-set state, whatever the handlers do. -/
def RollbackExact (m : Manager Id S) (b : Batch Id) (startN endN : Nat) (slots : Nat → Nat) (k : Nat) : Prop :=
  ∀ (Ω G P B : Type) (ctx : Context Ω G P S Id B) (a : Attempt Ω G) (p p' : Plane G P S Id),
    ctx.mutablePktSetState = true → p.manager = m → p.pktSetState = slots →
    attemptRegistered ctx b startN endN a p = some (false, p') → p'.pktSetStateLog.length = k →
    p'.manager.pktSetState = m.pktSetState

theorem batched_rollback_exact_iff [Nontrivial S] (m : Manager Id S) (b : Batch Id) (startN endN : Nat)
    (slots : Nat → Nat) (k : Nat) (within : k ≤ (positions b endN b.batchSize startN).length) :
    RollbackExact m b startN endN slots k ↔
      (((positions b endN b.batchSize startN).take k).map slots).Nodup := by
  constructor
  · intro exact
    by_contra repeated
    obtain ⟨x, twice⟩ := List.exists_duplicate_iff_not_nodup.mpr repeated
    obtain ⟨state, changes⟩ := exists_ne (m.pktSetState x)
    have some_handled : 0 < k := by
      rcases Nat.eq_zero_or_pos k with rfl | positive
      · simp at repeated
      · exact positive
    let ctx := countingContext (b.dispatch 0) state k
    let p : Plane Nat Unit S Id := ⟨m, 0, 0, fun _ => (), fun _ => 0, slots, [], [], []⟩
    obtain ⟨q, ran, counted⟩ := handlePkts_counting (b := b) (rfl : ctx = _) p some_handled within
    have aborted : attemptRegistered ctx b startN endN ⟨fun _ => 0, (), true⟩ p =
        some (false, abortTxn ctx .registered q) :=
      transaction_of_abort ran
    have point : (abortTxn ctx .registered q).pktSetStateLog.length = k := by
      simpa [abortTxn, Plane.endTxn, rollbackPktSetStates, ctx, countingContext, p] using counted
    have restored := exact _ _ _ _ ctx _ p _ rfl rfl rfl aborted point
    obtain ⟨writes, keys, after, constant⟩ := attemptRegistered_aborted rfl aborted
    rw [point] at keys
    rw [after] at restored
    refine not_settled changes (constant state ?_) (keys ▸ twice) (replay_copies_iff.mp restored)
    intro pktClass call outcome handled
    rw [← Option.some.inj handled]
  · intro distinct Ω G P B ctx a p p' mutableStates manager same aborted point
    obtain ⟨writes, keys, after, _⟩ := attemptRegistered_aborted mutableStates aborted
    rw [after, ← manager]
    apply replay_copies_iff.mpr
    apply settled_of_nodup
    rwa [keys, point, same]

end Counting

section Sample

/-- Two packets without parsing errors. -/
def sampleBatch : Batch Nat := ⟨2, fun _ => true, fun _ => ⟨0, 5, true⟩⟩

def sampleManager : Manager Nat Nat where
  buckets := fun _ => 0
  cells := fun _ => ⟨0, 0, 0, ⟨0, 0, 0⟩⟩
  pktSetState := fun _ => 0
  log := fun _ => ⟨false, 0, 0⟩

/-- Both packets belong to the packet set of slot 0. -/
def samplePlane : Plane Nat Unit Nat Nat :=
  ⟨sampleManager, 0, 0, fun _ => (), fun _ => 0, fun _ => 0, [], [], []⟩

/-- The handler of the second packet aborts after the first one has stored 7: the
rollback leaves 7 although the state was 0. -/
theorem batched_rollback_not_exact :
    ∃ p', attemptRegistered (countingContext ⟨0, 5, true⟩ 7 2) sampleBatch 0 2 ⟨id, (), true⟩ samplePlane =
        some (false, p') ∧
      samplePlane.manager.pktSetState 0 = 0 ∧ p'.manager.pktSetState 0 = 7 :=
  ⟨_, rfl, rfl, rfl⟩

/-- Packets of different packet sets. -/
theorem batched_rollback_exact_of_two :
    2 ≤ (positions sampleBatch 2 sampleBatch.batchSize 0).length ∧
    (RollbackExact sampleManager sampleBatch 0 2 id 2 ↔
      (((positions sampleBatch 2 sampleBatch.batchSize 0).take 2).map id).Nodup) ∧
    RollbackExact sampleManager sampleBatch 0 2 id 2 :=
  ⟨by decide, batched_rollback_exact_iff sampleManager sampleBatch 0 2 id 2 (by decide),
    (batched_rollback_exact_iff sampleManager sampleBatch 0 2 id 2 (by decide)).mpr (by decide)⟩

end Sample
end Nfos.DataPlane
