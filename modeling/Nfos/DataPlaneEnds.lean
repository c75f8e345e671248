import Nfos.DataPlaneBatches
import Nfos.PacketTable

/-! The loops of `process_pkt` end for every finite pattern of aborts. -/
namespace Nfos.DataPlane
open Function PktSetManager ConcurrentDoubleChain CellData Registry Retry
variable {Ω G P S Id B : Type}

section Managers
variable {ctx : Context Ω G P S Id B} {core : Fin ctx.cfg.numCores} {m m' : Manager Id S} {id : Id}
variable {A : Entries (Fin ctx.cfg.numCores) Id (Nat × S)}

/-- The lists and the map of the manager are intact. -/
def Intact (cfg : Config Id) (m : Manager Id S) : Prop := ∃ L C, Coherent cfg m L C

/-- Only packet-set states and logs are different. -/
structure SameCells (m m' : Manager Id S) : Prop where
  cells : m'.cells = m.cells
  buckets : m'.buckets = m.buckets

theorem SameCells.refl (m : Manager Id S) : SameCells m m := ⟨rfl, rfl⟩

theorem SameCells.trans {m'' : Manager Id S} (first : SameCells m m') (second : SameCells m' m'') : SameCells m m'' :=
  ⟨second.cells.trans first.cells, second.buckets.trans first.buckets⟩

theorem SameCells.sameMap (same : SameCells m m') : SameMap m m' :=
  ⟨same.buckets, congrArg idOf same.cells, congrArg mapChainNextOf same.cells⟩

theorem SameCells.intact (same : SameCells m m') (intact : Intact ctx.cfg m) : Intact ctx.cfg m' := by
  obtain ⟨L, C, coherent⟩ := intact
  exact ⟨L, C, coherent.relink same.buckets (same.cells ▸ coherent.valid) (fun _ _ => Iff.rfl) (by rw [same.cells])
    (by rw [same.cells])⟩

theorem sameCells_writeBack (ctx : Context Ω G P S Id B) (slot : Option Nat) (outcome : Outcome G P S Id) (m : Manager Id S) :
    SameCells m (writeBack ctx slot outcome m) := by
  obtain ⟨cells, buckets⟩ := FwNat.writeBack_frame ctx slot outcome m
  exact ⟨cells, buckets⟩

theorem Holds.intact (holds : Holds ctx.cfg m A) : Intact ctx.cfg m := by
  obtain ⟨L, C, coherent, _⟩ := holds
  exact ⟨L, C, coherent⟩

/-- A lookup ends, and it does not change whether there are free indexes. -/
theorem Intact.lookup (intact : Intact ctx.cfg m) (fits : ctx.cfg.Fits) (lawful : ctx.cfg.Lawful)
    (here : ctx.pktSetPartition = core.val) (id : Id) : ∃ slot cells,
      getPktSetState ctx.cfg id ctx.pktSetPartition ctx.now m = some (slot, { m with cells := cells }) ∧
      Intact ctx.cfg { m with cells := cells } ∧
      concurrentDchainImplHasFreeIndexes ctx.cfg.numCores cells ctx.pktSetPartition =
        concurrentDchainImplHasFreeIndexes ctx.cfg.numCores m.cells ctx.pktSetPartition := by
  obtain ⟨L, C, coherent⟩ := intact
  rw [here]
  by_cases absent : ∀ x ∈ L (.alloc core), ctx.cfg.pktSetIdEq id (idOf m.cells x) = false
  · exact ⟨none, m.cells, coherent.get_miss fits lawful absent ctx.now, ⟨L, C, coherent⟩, rfl⟩
  · push Not at absent
    obtain ⟨x, member, same⟩ := absent
    obtain ⟨i, _, rfl⟩ := (coherent.valid.cover x).mp ⟨_, member⟩
    obtain ⟨l, k, split⟩ := List.append_of_mem member
    obtain ⟨cells, ran, coherent', _⟩ := coherent.get_lift fits lawful split ((Bool.not_eq_false _).mp same) ctx.now
    refine ⟨some i, cells, ran, ⟨_, C, coherent'⟩, ?_⟩
    rw [Bool.eq_iff_iff, hasFreeIndexes_iff coherent.valid.layout core, hasFreeIndexes_iff coherent'.valid.layout core,
      update_of_ne (by simp)]

/-- The commit behind a handler of an unknown packet set ends. -/
theorem Intact.commit (intact : Intact ctx.cfg m) (fits : ctx.cfg.Fits) (lawful : ctx.cfg.Lawful)
    (here : ctx.pktSetPartition = core.val) (absent : isRegistered ctx id m = false) (outcome : Outcome G P S Id) (time : Int) :
    ∃ m', addPktSetCommit ctx.cfg id ctx.pktSetPartition time
        (writeBack ctx none outcome (addPktSetLogClear ctx.pktSetPartition m)) = some m' ∧ Intact ctx.cfg m' := by
  obtain ⟨L, C, coherent⟩ := intact
  have cleared : SameCells m (addPktSetLogClear ctx.pktSetPartition m) := ⟨rfl, rfl⟩
  have same := cleared.trans (sameCells_writeBack ctx none outcome _)
  cases flag : ((writeBack ctx none outcome (addPktSetLogClear ctx.pktSetPartition m)).log ctx.pktSetPartition).addPktSet with
  | false => exact ⟨_, by simp [addPktSetCommit, flag], same.intact ⟨L, C, coherent⟩⟩
  | true =>
    have kept := coherent.relink same.buckets (same.cells ▸ coherent.valid) (fun _ _ => Iff.rfl) (by rw [same.cells])
      (by rw [same.cells])
    have new : ∀ x ∈ L (.alloc core), ctx.cfg.pktSetIdEq id (idOf m.cells x) = false := by
      intro x member
      obtain ⟨i, _, rfl⟩ := (coherent.valid.cover x).mp ⟨_, member⟩
      cases equal : ctx.cfg.pktSetIdEq id (idOf m.cells (indexShift ctx.cfg.numCores + i)) with
      | false => rfl
      | true =>
        obtain ⟨cells, _, ran, _⟩ := coherent.get_hit fits lawful member equal ctx.now
        rw [← here] at ran
        have answer := (getPktSetState_found ran).1
        rw [absent] at answer
        contradiction
    have free : concurrentDchainImplHasFreeIndexes ctx.cfg.numCores m.cells core.val = true := by
      cases free : concurrentDchainImplHasFreeIndexes ctx.cfg.numCores m.cells core.val with
      | true => rfl
      | false =>
        rw [here] at flag
        cases added : outcome.added with
        | none => simp [writeBack, added, addPktSetLogClear] at flag
        | some entry => simp [writeBack, added, addPktSetLogClear, addPktSetLog, free, here] at flag
    have more := (hasFreeIndexes_iff coherent.valid.layout core).mp free
    obtain ⟨x, l, split⟩ := List.exists_cons_of_ne_nil more
    obtain ⟨i, _, rfl⟩ := (coherent.valid.cover x).mp ⟨.free core, by simp [split]⟩
    rw [here] at flag ⊢
    rw [here] at kept same
    obtain ⟨_, m', D, ran, coherent', _⟩ := kept.commit fits lawful id split (by rwa [same.cells]) flag time
    exact ⟨m', ran, _, D, coherent'⟩

end Managers

section Attempts
variable {ctx : Context Ω G P S Id B} {b : Batch Id} {branch : Branch} {n : Nat} {d : Dispatch Id} {a : Attempt Ω G}
variable {p p' : Plane G P S Id} {view : G} {contention : Ω}

/-- No handler fails an assertion. -/
def Context.Returns (ctx : Context Ω G P S Id B) : Prop :=
  ∀ branch pktClass contention call, ∃ outcome, ctx.handler branch pktClass contention call = some outcome

/-- No handler aborts, and the transaction is validated. -/
def Quiet (ctx : Context Ω G P S Id B) (a : Attempt Ω G) : Prop :=
  a.unlocks = true ∧ ∀ branch pktClass call outcome, ctx.handler branch pktClass a.contention call = some outcome →
    outcome.abort = false

theorem invoke_ends (returns : ctx.Returns) (branch : Branch) (n : Nat) (d : Dispatch Id) (contention : Ω) (view : G)
    (p : Plane G P S Id) : ∃ outcome q, invoke ctx branch n d contention view p = some (outcome, q) ∧
      SameCells p.manager q.manager ∧ ∃ call, ctx.handler branch d.pktClass contention call = some outcome := by
  obtain ⟨outcome, handled⟩ := returns branch d.pktClass contention (callAt ctx branch n d view p)
  exact ⟨outcome, _, invoke_iff.mpr ⟨handled, rfl⟩, sameCells_writeBack .., _, handled⟩

theorem sameCells_abortTxn (ctx : Context Ω G P S Id B) (branch : Branch) (p : Plane G P S Id) :
    SameCells p.manager (abortTxn ctx branch p).manager := by
  unfold abortTxn
  dsimp only
  split
  · exact ⟨rfl, rfl⟩
  · exact ⟨rfl, rfl⟩

/-- A transaction ends, and a quiet one commits. -/
theorem transaction_ends {work : Ω → G → Plane G P S Id → Option (Option G × Plane G P S Id)}
    (works : ∃ result q, work a.contention (a.others p.globalState) { p with globalState := a.others p.globalState } =
      some (result, q) ∧ SameCells p.manager q.manager ∧ (Quiet ctx a → result.isSome = true)) :
    ∃ done p', transaction ctx branch work a p = some (done, p') ∧ SameCells p.manager p'.manager ∧
      (Quiet ctx a → done = true) := by
  obtain ⟨result, q, worked, same, quiet⟩ := works
  cases result with
  | none =>
    refine ⟨false, _, transaction_of_abort worked, same.trans (sameCells_abortTxn ctx branch q), fun calm => ?_⟩
    exact absurd (quiet calm) (by simp)
  | some view =>
    cases unlocks : a.unlocks with
    | false =>
      refine ⟨false, abortTxn ctx branch q, by simp [transaction, worked, unlocks], same.trans (sameCells_abortTxn ctx branch q), ?_⟩
      rintro ⟨unlocked, _⟩
      rw [unlocks] at unlocked
      contradiction
    | true =>
      exact ⟨true, { q with globalState := view }.endTxn true, by simp [transaction, worked, unlocks], same, fun _ => rfl⟩

theorem sameCells_prepare (ctx : Context Ω G P S Id B) (branch : Branch) (n : Nat) (p : Plane G P S Id) :
    SameCells p.manager (prepare ctx branch n p).manager := by
  obtain ⟨cells, buckets, _⟩ := FwNat.prepare_manager ctx branch n p
  exact ⟨cells, buckets⟩

theorem attemptPkt_ends (returns : ctx.Returns) (branch : Branch) (n : Nat) (d : Dispatch Id) (a : Attempt Ω G) (p : Plane G P S Id) :
    ∃ done p', attemptPkt ctx branch n d a p = some (done, p') ∧ SameCells p.manager p'.manager ∧ (Quiet ctx a → done = true) := by
  have ends : ∃ done p', attemptPkt ctx branch n d a p = some (done, p') ∧
      SameCells (prepare ctx branch n p).manager p'.manager ∧ (Quiet ctx a → done = true) := by
    apply transaction_ends
    obtain ⟨outcome, q, ran, same, call, handled⟩ := invoke_ends returns branch n d a.contention
      (a.others (prepare ctx branch n p).globalState)
      { prepare ctx branch n p with globalState := a.others (prepare ctx branch n p).globalState }
    refine ⟨if outcome.abort then none else some outcome.globalState, q, by simp [ran], same, fun quiet => ?_⟩
    simp [quiet.2 _ _ _ _ handled]
  obtain ⟨done, p', ran, same, quiet⟩ := ends
  exact ⟨done, p', ran, (sameCells_prepare ctx branch n p).trans same, quiet⟩

/-- The handlers of a transaction end. -/
theorem handlePkts_ends {before : Nat → Plane G P S Id → Plane G P S Id} (returns : ctx.Returns)
    (keeps : ∀ n p, (before n p).manager = p.manager) (l : List Nat) (view : G) (p : Plane G P S Id) :
    ∃ result q, handlePkts ctx b branch before a.contention l view p = some (result, q) ∧ SameCells p.manager q.manager ∧
      (Quiet ctx a → result.isSome = true) := by
  induction l generalizing view p with
  | nil => exact ⟨some view, p, rfl, .refl _, fun _ => rfl⟩
  | cons n rest ih =>
    obtain ⟨outcome, q, ran, same, call, handled⟩ := invoke_ends returns branch n (b.dispatch n) a.contention view (before n p)
    rw [keeps] at same
    cases aborts : outcome.abort with
    | true =>
      refine ⟨none, q, by simp [handlePkts, ran, aborts], same, fun quiet => ?_⟩
      rw [quiet.2 _ _ _ _ handled] at aborts
      contradiction
    | false =>
      obtain ⟨result, t, continued, same', quiet⟩ := ih outcome.globalState
        { q with dstDevices := update q.dstDevices n q.dstDevice }
      exact ⟨result, t, by simpa [handlePkts, ran, aborts] using continued, same.trans same', quiet⟩

theorem attemptNoPktSet_ends (returns : ctx.Returns) (a : Attempt Ω G) (p : Plane G P S Id) :
    ∃ done p', attemptNoPktSet ctx b a p = some (done, p') ∧ SameCells p.manager p'.manager ∧ (Quiet ctx a → done = true) := by
  have keeps : ∀ n (p : Plane G P S Id), (beforeNoPktSet n p).manager = p.manager := fun _ _ => rfl
  exact transaction_ends (handlePkts_ends returns keeps _ _ _)

theorem attemptRegistered_ends (returns : ctx.Returns) (startN endN : Nat) (a : Attempt Ω G) (p : Plane G P S Id) :
    ∃ done p', attemptRegistered ctx b startN endN a p = some (done, p') ∧ SameCells p.manager p'.manager ∧
      (Quiet ctx a → done = true) := by
  unfold attemptRegistered
  split
  · exact transaction_ends (p := resetLogPktSetState p) (handlePkts_ends returns prepares_registered.manager _ _ _)
  · exact transaction_ends (handlePkts_ends returns prepares_registered.manager _ _ _)

end Attempts

section Batches
variable {ctx : Context Ω G P S Id B} {core : Fin ctx.cfg.numCores} {b : Batch Id} {c c' : Cursor Ω G P S Id}

/-- What the loop over a batch needs to go on. -/
structure Ready (ctx : Context Ω G P S Id B) (b : Batch Id) (c : Cursor Ω G P S Id) : Prop where
  intact : Intact ctx.cfg c.plane.manager
  answer : c.regPktSet =
    (decide (c.n < b.batchSize) && isRegistered ctx (b.dispatch c.n).pktSetId c.plane.manager)
  supply : Supply (Quiet ctx) (b.batchSize - c.n) c.attempts

theorem lookup_ends (fits : ctx.cfg.Fits) (lawful : ctx.cfg.Lawful) (here : ctx.pktSetPartition = core.val)
    (intact : Intact ctx.cfg c.plane.manager) : ∃ c', lookup ctx b c = some c' ∧ c'.n = c.n ∧ c'.attempts = c.attempts ∧
      Intact ctx.cfg c'.plane.manager ∧ c'.regPktSet =
        (decide (c'.n < b.batchSize) && isRegistered ctx (b.dispatch c'.n).pktSetId c'.plane.manager) := by
  have ends : ∃ c', lookup ctx b c = some c' ∧ Intact ctx.cfg c'.plane.manager := by
    unfold lookup
    split
    · obtain ⟨slot, cells, ran, intact', _⟩ := intact.lookup fits lawful here (b.dispatch c.n).pktSetId
      rw [ran]
      cases slot with
      | none => exact ⟨_, rfl, intact'⟩
      | some slot => exact ⟨_, rfl, intact'⟩
    · exact ⟨_, rfl, intact⟩
  obtain ⟨c', ran, intact'⟩ := ends
  have looked := lookup_looked ran
  refine ⟨c', ran, looked.n, looked.attempts, intact', ?_⟩
  rw [looked.answer, looked.n, isRegistered_congr looked.map]

theorem handleUnknown_ends (fits : ctx.cfg.Fits) (lawful : ctx.cfg.Lawful) (here : ctx.pktSetPartition = core.val)
    (returns : ctx.Returns) (ready : Ready ctx b c) (within : c.n < b.batchSize) (unregistered : c.regPktSet = false) :
    ∃ c', handleUnknown ctx b c = some c' ∧ Ready ctx b c' ∧ c.n < c'.n := by
  have answer := ready.answer
  rw [unregistered, decide_eq_true within, Bool.true_and] at answer
  have enough : b.batchSize - c.n = b.batchSize - c.n - 1 + 1 := by omega
  have supply := ready.supply
  rw [enough] at supply
  have tries : ∀ a q, True → ∃ done t, attemptPkt ctx .unknown c.n (b.dispatch c.n) a q = some (done, t) ∧ True ∧
      (Quiet ctx a → done = true) := by
    intro a q _
    obtain ⟨done, t, ran, _, quiet⟩ := attemptPkt_ends returns .unknown c.n (b.dispatch c.n) a q
    exact ⟨done, t, ran, trivial, quiet⟩
  obtain ⟨p, rest, retried, _, remains⟩ := retry_ends tries supply (s := { c.plane with dstDevice := ctx.device }) trivial
  obtain ⟨failed, a, u, _, trace, finish⟩ := retry_eq_some retried
  have same : SameCells c.plane.manager u.manager := by
    refine trace.keeps (P := fun q => SameCells c.plane.manager q.manager) (.refl _) ?_
    intro q a t before failure
    obtain ⟨done, t', ran, same, _⟩ := attemptPkt_ends returns .unknown c.n (b.dispatch c.n) a q
    rw [Failed, ran] at failure
    obtain ⟨_, rfl⟩ := Prod.mk.inj (Option.some.inj failure)
    exact before.trans same
  obtain ⟨outcome, _, _, _, rfl⟩ := attemptPkt_committed.mp finish
  have absent : isRegistered ctx (b.dispatch c.n).pktSetId u.manager = false := by
    rw [isRegistered_congr same.sameMap, ← answer]
  obtain ⟨manager, stored, intact⟩ := (same.intact ready.intact).commit fits lawful here absent outcome ctx.now
  have next := (nextPkt_next b c.n).above
  obtain ⟨c', looked, n, attempts, intact', answer'⟩ := lookup_ends (b := b) fits lawful here
    (c := ⟨nextPkt b c.n, c.regPktSet, { committed ctx .unknown c.n (b.dispatch c.n) outcome (prepare ctx .unknown c.n u) with
      manager := manager
      dstDevices := update u.dstDevices c.n (deliver u.dstDevice outcome.actions) }, rest⟩) intact
  refine ⟨c', ?_, ⟨intact', answer', ?_⟩, ?_⟩
  · simp only [handleUnknown, restartThird, retried, Option.bind_eq_bind, Option.bind_some]
    change (addPktSetCommit ctx.cfg _ _ _ (writeBack ctx none outcome (addPktSetLogClear ctx.pktSetPartition u.manager))).bind _ = _
    rw [stored]
    exact looked
  · rw [n, attempts]
    exact remains.mono (by dsimp only; omega)
  · rw [n]
    exact next

/-- The cursor of the lookups ahead. -/
structure Scanned (ctx : Context Ω G P S Id B) (b : Batch Id) (c u : Cursor Ω G P S Id) : Prop where
  intact : Intact ctx.cfg u.plane.manager
  answer : u.regPktSet =
    (decide (u.n < b.batchSize) && isRegistered ctx (b.dispatch u.n).pktSetId u.plane.manager)
  attempts : u.attempts = c.attempts
  further : c.n < u.n ∨ u.regPktSet = true ∧ u.n = c.n

theorem lookAhead_ends (fits : ctx.cfg.Fits) (lawful : ctx.cfg.Lawful) (here : ctx.pktSetPartition = core.val)
    (ready : Ready ctx b c) (registered : c.regPktSet = true) :
    ∃ u, Loop.loop (fun c => c.regPktSet) (advance ctx b) b.batchSize c = some u ∧ Scanned ctx b c u ∧ u.regPktSet = false := by
  refine Loop.loop_ends (Scanned ctx b c) (fun u => b.batchSize - u.n) ?_ b.batchSize c
    ⟨ready.intact, ready.answer, rfl, .inr ⟨registered, rfl⟩⟩ (Nat.sub_le _ _)
  intro u scanned more
  have answer := scanned.answer
  rw [more, eq_comm, Bool.and_eq_true, decide_eq_true_eq] at answer
  have next := (nextPkt_next b u.n).above
  obtain ⟨t, looked, n, attempts, intact, answer'⟩ :=
    lookup_ends (b := b) fits lawful here (c := { u with n := nextPkt b u.n }) scanned.intact
  refine ⟨t, looked, ⟨intact, answer', attempts.trans scanned.attempts, .inl ?_⟩, ?_⟩
  · rw [n]
    dsimp only
    rcases scanned.further with later | ⟨_, same⟩ <;> omega
  · rw [n]
    dsimp only
    omega

theorem handleRegistered_ends (fits : ctx.cfg.Fits) (lawful : ctx.cfg.Lawful) (here : ctx.pktSetPartition = core.val)
    (returns : ctx.Returns) (ready : Ready ctx b c) (within : c.n < b.batchSize) (registered : c.regPktSet = true) :
    ∃ c', handleRegistered ctx b c = some c' ∧ Ready ctx b c' ∧ c.n < c'.n := by
  obtain ⟨u, scanned, ahead, stopped⟩ := lookAhead_ends fits lawful here ready registered
  have further : c.n < u.n := by
    rcases ahead.further with later | ⟨more, _⟩
    · exact later
    · rw [stopped] at more
      contradiction
  have enough : b.batchSize - c.n = b.batchSize - c.n - 1 + 1 := by omega
  have supply := ready.supply
  rw [enough] at supply
  have tries : ∀ a q, SameCells u.plane.manager q.manager → ∃ done t, attemptRegistered ctx b c.n u.n a q = some (done, t) ∧
      SameCells u.plane.manager t.manager ∧ (Quiet ctx a → done = true) := by
    intro a q before
    obtain ⟨done, t, ran, same, quiet⟩ := attemptRegistered_ends (b := b) returns c.n u.n a q
    exact ⟨done, t, ran, before.trans same, quiet⟩
  obtain ⟨p, rest, retried, same, remains⟩ := retry_ends tries supply (s := u.plane) (.refl _)
  refine ⟨{ u with plane := p, attempts := rest }, ?_, ⟨same.intact ahead.intact, ?_, remains.mono ?_⟩, further⟩
  · simp only [handleRegistered, scanned, ahead.attempts, retried, Option.bind_eq_bind, Option.bind_some, Option.pure_def]
  · rw [isRegistered_congr same.sameMap]
    exact ahead.answer
  · dsimp only
    omega

theorem handleNext_ends (fits : ctx.cfg.Fits) (lawful : ctx.cfg.Lawful) (here : ctx.pktSetPartition = core.val)
    (returns : ctx.Returns) (ready : Ready ctx b c) (within : c.n < b.batchSize) :
    ∃ c', handleNext ctx b c = some c' ∧ Ready ctx b c' ∧ c.n < c'.n := by
  unfold handleNext
  cases registered : c.regPktSet with
  | false =>
    simp only [Bool.not_false, if_true]
    exact handleUnknown_ends fits lawful here returns ready within registered
  | true =>
    simp only [Bool.not_true, Bool.false_eq_true, if_false]
    exact handleRegistered_ends fits lawful here returns ready within registered

/-- With an attempt for each packet that is not aborted, a batch is processed to its end,
whatever attempts there are before. -/
theorem handleBatch_ends (fits : ctx.cfg.Fits) (lawful : ctx.cfg.Lawful) (here : ctx.pktSetPartition = core.val)
    (returns : ctx.Returns) {attempts : List (Attempt Ω G)} (some : 0 < b.batchSize)
    (supply : Supply (Quiet ctx) b.batchSize attempts) {p : Plane G P S Id} (intact : Intact ctx.cfg p.manager) :
    ∃ p' rest, handleBatch ctx b attempts p = .some (p', rest) ∧ Intact ctx.cfg p'.manager := by
  unfold handleBatch
  cases (b.dispatch 0).hasPktSetState with
  | false =>
    have tries : ∀ a q, Intact ctx.cfg q.manager → ∃ done t, attemptNoPktSet ctx b a q = .some (done, t) ∧
        Intact ctx.cfg t.manager ∧ (Quiet ctx a → done = true) := by
      intro a q before
      obtain ⟨done, t, ran, same, quiet⟩ := attemptNoPktSet_ends (b := b) returns a q
      exact ⟨done, t, ran, same.intact before, quiet⟩
    have one : Supply (Quiet ctx) (0 + 1) attempts := supply.mono some
    obtain ⟨p', rest, retried, after, _⟩ := retry_ends tries one (s := p) intact
    exact ⟨p', rest, retried, after⟩
  | true =>
    obtain ⟨c, looked, n, remains, intact', answer⟩ :=
      lookup_ends (b := b) fits lawful here (c := ⟨firstPkt b, false, p, attempts⟩) intact
    have ready : Ready ctx b c := ⟨intact', answer, remains ▸ supply.mono (Nat.sub_le _ _)⟩
    obtain ⟨u, looped, done, _⟩ := Loop.loop_ends (c := fun c => decide (c.n < b.batchSize)) (b := handleNext ctx b)
      (Ready ctx b) (fun c => b.batchSize - c.n) (fun u ready more => by
        have within := of_decide_eq_true more
        obtain ⟨t, stepped, after, further⟩ := handleNext_ends fits lawful here returns ready within
        exact ⟨t, stepped, after, by omega⟩) b.batchSize c ready (Nat.sub_le _ _)
    exact ⟨u.plane, u.attempts, by simp [looked, looped], done.intact⟩

end Batches
end Nfos.DataPlane
