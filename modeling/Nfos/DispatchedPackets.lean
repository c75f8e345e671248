import Nfos.DataPlaneBatches

/-! `process_pkt` with a log of the packets that it evaluates: those that it passes to
`nf_pkt_dispatcher`, and those whose `has_pkt_set_state` it reads to choose the branch. -/
namespace Nfos.DataPlane
open Function PktSetManager

/-- Computations that log positions of packets, also when they do not return. -/
abbrev Logging := OptionT (StateM (List Nat))

namespace Logging
variable {α β : Type} {log : List Nat}

/-- The result, and the log behind what was logged before. -/
def exec (x : Logging α) (log : List Nat) : Option α × List Nat := Id.run (StateT.run (OptionT.run x) log)

def evaluate (n : Nat) : Logging Unit := modify (· ++ [n])

def lift (x : Option α) : Logging α := OptionT.mk (pure x)

@[simp] theorem exec_pure (a : α) : exec (pure a) log = (some a, log) := rfl

@[simp] theorem exec_evaluate (n : Nat) : exec (evaluate n) log = (some (), log ++ [n]) := rfl

@[simp] theorem exec_lift (x : Option α) : exec (lift x) log = (x, log) := rfl

theorem exec_bind (x : Logging α) (f : α → Logging β) :
    exec (x >>= f) log = match exec x log with
      | (some a, log) => exec (f a) log
      | (none, log) => (none, log) := by
  change Id.run (StateT.run (OptionT.run (x >>= f)) log) = _
  rw [OptionT.run_bind]
  simp only [Option.elimM, StateT.run_bind, Id.run_bind]
  unfold exec
  obtain ⟨result, log⟩ := Id.run (StateT.run (OptionT.run x) log)
  cases result with
  | none => rfl
  | some a => rfl

theorem exec_bind_some {x : Logging α} {a : α} {log' : List Nat} (ran : exec x log = (some a, log')) (f : α → Logging β) :
    exec (x >>= f) log = exec (f a) log' := by
  rw [exec_bind, ran]

/-- What is lifted logs nothing. -/
theorem exec_lift_bind {x : Option α} {f : α → Logging β} {g : α → Option β} (same : ∀ a, exec (f a) log = (g a, log)) :
    exec (lift x >>= f) log = (x >>= g, log) := by
  rw [exec_bind, exec_lift]
  cases x with
  | none => rfl
  | some a => exact same a

end Logging

variable {Ω G P S Id B : Type}

section Unbatched
variable (ctx : Context Ω G P S Id B)

def dispatchPkt (n : Nat) (packet : P) : Logging (Dispatch Id) := do
  Logging.evaluate n
  return ctx.nf.nfPktDispatcher packet ctx.device

def readHasPktSetState (n : Nat) (d : Dispatch Id) : Logging Bool := do
  Logging.evaluate n
  return d.hasPktSetState

/-- `handlePkt` with the log. -/
def handlePktLogged (d : Dispatch Id) (attempts : List (Attempt Ω G)) (p : Plane G P S Id) :
    Logging (Plane G P S Id × List (Attempt Ω G)) := do
  if !(← readHasPktSetState 0 d) then
    Logging.lift (noPktSetRestart ctx 0 d attempts p)
  else
    match ← Logging.lift (getPktSetState ctx.cfg d.pktSetId ctx.pktSetPartition ctx.now p.manager) with
    | (some slot, manager) =>
      Logging.lift (restartSecond ctx 0 d attempts { p with
        manager := manager, pktSetState := update p.pktSetState 0 slot })
    | (none, manager) =>
      let (p, rest) ← Logging.lift (restartThird ctx 0 d attempts { p with manager := manager })
      let manager ← Logging.lift (addPktSetCommit ctx.cfg d.pktSetId ctx.pktSetPartition ctx.now p.manager)
      return ({ p with manager := manager }, rest)

/-- `processPkt` with the log. -/
def processPktLogged (buffer : B) (attempts : List (Attempt Ω G)) (p : Plane G P S Id) :
    Logging (Nat × Plane G P S Id × List (Attempt Ω G)) := do
  let (parseRes, packet) := ctx.nf.nfPktParser buffer
  let p := { p with
    dstDevice := ctx.device, packet := update p.packet 0 packet, running := [], history := [] }
  let (p, rest) ←
    if parseRes then do
      let d ← dispatchPkt ctx 0 packet
      handlePktLogged ctx d attempts p
    else pure (p, attempts)
  return (p.dstDevice, p, rest)

/-- The positions that the unbatched variant evaluates, with its packet at position 0. -/
def evaluatedPkt (buffer : B) (attempts : List (Attempt Ω G)) (p : Plane G P S Id) : List Nat :=
  ((processPktLogged ctx buffer attempts p).exec []).2

variable {ctx} {attempts : List (Attempt Ω G)} {p : Plane G P S Id} {log : List Nat}

theorem dispatchPkt_exec (n : Nat) (packet : P) :
    (dispatchPkt ctx n packet).exec log = (some (ctx.nf.nfPktDispatcher packet ctx.device), log ++ [n]) := rfl

theorem readHasPktSetState_exec (n : Nat) (d : Dispatch Id) :
    (readHasPktSetState n d).exec log = (some d.hasPktSetState, log ++ [n]) := rfl

theorem handlePktLogged_exec (d : Dispatch Id) :
    (handlePktLogged ctx d attempts p).exec log = (handlePkt ctx d attempts p, log ++ [0]) := by
  unfold handlePktLogged handlePkt
  rw [Logging.exec_bind_some (readHasPktSetState_exec 0 d)]
  by_cases set : d.hasPktSetState
  · simp only [set, Bool.not_true, Bool.false_eq_true, if_false]
    apply Logging.exec_lift_bind
    rintro ⟨slot, manager⟩
    cases slot with
    | some slot => exact Logging.exec_lift _
    | none =>
      apply Logging.exec_lift_bind
      rintro ⟨p, rest⟩
      exact Logging.exec_lift_bind fun manager => Logging.exec_pure _
  · simp only [set, Bool.not_false, if_true]
    exact Logging.exec_lift _

/-- The log does not change what is computed, and nothing is logged for an unparsed packet. -/
theorem processPktLogged_exec (buffer : B) :
    (processPktLogged ctx buffer attempts p).exec log =
      (processPkt ctx buffer attempts p, log ++ if (ctx.nf.nfPktParser buffer).1 then [0, 0] else []) := by
  unfold processPktLogged processPkt
  obtain ⟨parseRes, packet⟩ := ctx.nf.nfPktParser buffer
  cases parseRes with
  | false => simp
  | true =>
    simp only [if_true]
    rw [Logging.exec_bind_some (dispatchPkt_exec 0 packet), Logging.exec_bind, handlePktLogged_exec, List.append_assoc]
    cases handlePkt ctx (ctx.nf.nfPktDispatcher packet ctx.device) attempts _ with
    | none => rfl
    | some result => rfl

theorem evaluatedPkt_eq (buffer : B) :
    evaluatedPkt ctx buffer attempts p = if (ctx.nf.nfPktParser buffer).1 then [0, 0] else [] := by
  unfold evaluatedPkt
  rw [processPktLogged_exec, List.nil_append]

end Unbatched

section Agreement
variable {ctx : Context Ω G P S Id B} {b b' : Batch Id} {c c' : Cursor Ω G P S Id}

/-- Batches with the same packets. The arrays may differ behind them. -/
structure SamePkts (b b' : Batch Id) : Prop where
  batchSize : b'.batchSize = b.batchSize
  parseRes : ∀ i < b.batchSize, b'.parseRes i = b.parseRes i
  dispatch : ∀ i < b.batchSize, b'.dispatch i = b.dispatch i

/-- The cursor is in the batch, and before its end if it is at a registered packet set. -/
structure Inside (b : Batch Id) (c : Cursor Ω G P S Id) : Prop where
  bound : c.n ≤ b.batchSize
  registered : c.regPktSet = true → c.n < b.batchSize

theorem lookup_inside (bound : c.n ≤ b.batchSize) (ran : lookup ctx b c = some c') : Inside b c' := by
  have looked := lookup_looked ran
  constructor
  case bound => rwa [looked.n]
  case registered =>
    intro registered
    rw [looked.answer, Bool.and_eq_true, decide_eq_true_eq] at registered
    rw [looked.n]
    exact registered.1

theorem advance_inside (within : c.n < b.batchSize) (ran : advance ctx b c = some c') : Inside b c' := by
  have bound := (nextPkt_next b c.n).bound
  exact lookup_inside (by dsimp only; omega) ran

theorem lookAhead_inside (inside : Inside b c) {fuel : Nat}
    (ran : Loop.loop (fun c => c.regPktSet) (advance ctx b) fuel c = some c') : Inside b c' :=
  (Loop.loop_rule (Inside b) (fun _ _ inside more stepped => advance_inside (inside.registered more) stepped) inside ran).1

theorem handleNext_inside (inside : Inside b c) (within : c.n < b.batchSize) (ran : handleNext ctx b c = some c') :
    Inside b c' := by
  unfold handleNext at ran
  split at ran
  · simp only [handleUnknown, Option.bind_eq_bind, Option.bind_eq_some_iff] at ran
    obtain ⟨⟨p, rest⟩, _, manager, _, ran⟩ := ran
    exact advance_inside (by exact within) ran
  · simp only [handleRegistered, Option.bind_eq_bind, Option.bind_eq_some_iff, Option.pure_def, Option.some.injEq] at ran
    obtain ⟨ahead, looked, ⟨p, rest⟩, _, rfl⟩ := ran
    have inside := lookAhead_inside inside looked
    exact ⟨inside.bound, inside.registered⟩

theorem positions_inside {endN fuel n : Nat} (within : n < b.batchSize) (bound : endN ≤ b.batchSize) :
    ∀ i ∈ positions b endN fuel n, i < b.batchSize := by
  induction fuel generalizing n with
  | zero => simp [positions]
  | succ fuel ih =>
    intro i member
    rw [positions, List.mem_cons] at member
    rcases member with rfl | later
    · exact within
    · split at later
      · rename_i more
        exact ih (more.trans_le bound) i later
      · contradiction

variable (same : SamePkts b b')
include same

theorem SamePkts.skipUnparsed (fuel n : Nat) : skipUnparsed b' fuel n = skipUnparsed b fuel n := by
  induction fuel generalizing n with
  | zero => rfl
  | succ fuel ih =>
    simp only [DataPlane.skipUnparsed, same.batchSize, ih]
    by_cases within : n < b.batchSize
    · rw [same.parseRes n within]
    · simp only [within, false_and, if_false]

theorem SamePkts.firstPkt : firstPkt b' = firstPkt b := by
  simp only [DataPlane.firstPkt, same.batchSize, same.skipUnparsed]

theorem SamePkts.nextPkt (n : Nat) : nextPkt b' n = nextPkt b n := by
  simp only [DataPlane.nextPkt, same.batchSize, same.skipUnparsed]

theorem SamePkts.positions (endN fuel n : Nat) : positions b' endN fuel n = positions b endN fuel n := by
  induction fuel generalizing n with
  | zero => rfl
  | succ fuel ih => simp only [DataPlane.positions, same.nextPkt, ih]

theorem SamePkts.handlePkts (branch : Branch) (before : Nat → Plane G P S Id → Plane G P S Id) (contention : Ω)
    {ns : List Nat} (within : ∀ i ∈ ns, i < b.batchSize) (view : G) (p : Plane G P S Id) :
    handlePkts ctx b' branch before contention ns view p = handlePkts ctx b branch before contention ns view p := by
  induction ns generalizing view p with
  | nil => rfl
  | cons n rest ih =>
    simp only [DataPlane.handlePkts, same.dispatch n (within n List.mem_cons_self),
      ih fun i member => within i (List.mem_cons_of_mem n member)]

theorem SamePkts.attemptNoPktSet : attemptNoPktSet ctx b' = attemptNoPktSet ctx b := by
  have parsed : (List.range b.batchSize).filter b'.parseRes = (List.range b.batchSize).filter b.parseRes :=
    List.filter_congr fun i member => same.parseRes i (List.mem_range.mp member)
  funext a p
  unfold DataPlane.attemptNoPktSet
  rw [same.batchSize, parsed]
  congr 1
  funext contention view p
  exact same.handlePkts .noPktSet beforeNoPktSet contention
    (fun i member => List.mem_range.mp (List.mem_filter.mp member).1) view p

theorem SamePkts.attemptRegistered {startN endN : Nat} (within : startN < b.batchSize) (bound : endN ≤ b.batchSize) :
    attemptRegistered ctx b' startN endN = attemptRegistered ctx b startN endN := by
  funext a p
  unfold DataPlane.attemptRegistered
  rw [same.batchSize, same.positions]
  congr 1
  funext contention view p
  exact same.handlePkts .registered (beforeRegistered ctx) contention (positions_inside within bound) view p

theorem SamePkts.lookup : lookup ctx b' = lookup ctx b := by
  funext c
  unfold DataPlane.lookup
  rw [same.batchSize]
  split
  · rename_i within
    rw [same.dispatch c.n within]
  · rfl

theorem SamePkts.advance : advance ctx b' = advance ctx b := by
  funext c
  unfold DataPlane.advance
  rw [same.lookup, same.nextPkt]

theorem SamePkts.handleNext (inside : Inside b c) (within : c.n < b.batchSize) :
    handleNext ctx b' c = handleNext ctx b c := by
  unfold DataPlane.handleNext
  split
  · unfold handleUnknown
    rw [same.dispatch c.n within, same.advance]
  · unfold handleRegistered
    rw [same.batchSize, same.advance]
    apply Option.bind_congr
    intro ahead looked
    rw [same.attemptRegistered within (lookAhead_inside inside looked).bound]

/-- What is behind the packets in the arrays has no influence. -/
theorem SamePkts.handleBatch (nonempty : 0 < b.batchSize) (attempts : List (Attempt Ω G)) (p : Plane G P S Id) :
    handleBatch ctx b' attempts p = handleBatch ctx b attempts p := by
  unfold DataPlane.handleBatch
  rw [same.dispatch 0 nonempty, same.attemptNoPktSet, same.lookup, same.firstPkt, same.batchSize]
  split
  · rfl
  · apply Option.bind_congr
    intro c looked
    have bound := (firstPkt_next b).bound
    rw [Loop.loop_congr (Inside b) (b := DataPlane.handleNext ctx b) (fun c inside more => same.handleNext inside (of_decide_eq_true more))
      (fun c c' inside more stepped => handleNext_inside inside (of_decide_eq_true more) stepped)
      (lookup_inside (by dsimp only; omega) looked)]

end Agreement

section Batched
variable (ctx : Context Ω G P S Id B)

/-- The local arrays of the batched variant. -/
structure Stateless (P Id : Type) where
  packet : Nat → P
  parseRes : Nat → Bool
  dispatch : Nat → Dispatch Id

/-- An iteration of the loop of the stateless part. -/
def parseAndDispatch (mbufs : Nat → B) (s : Stateless P Id) (i : Nat) : Logging (Stateless P Id) := do
  let (parseRes, packet) := ctx.nf.nfPktParser (mbufs i)
  let d ← dispatchPkt ctx i packet
  return { packet := update s.packet i packet
           parseRes := update s.parseRes i parseRes
           dispatch := update s.dispatch i d }

def statelessPart (mbufs : Nat → B) (batchSize : Nat) (s : Stateless P Id) : Logging (Stateless P Id) :=
  (List.range batchSize).foldlM (parseAndDispatch ctx mbufs) s

/-- `handleBatch` with the log. -/
def handleBatchLogged (b : Batch Id) (attempts : List (Attempt Ω G)) (p : Plane G P S Id) :
    Logging (Plane G P S Id × List (Attempt Ω G)) := do
  if !(← readHasPktSetState 0 (b.dispatch 0)) then
    Logging.lift (Retry.retry (attemptNoPktSet ctx b) attempts p)
  else
    let c ← Logging.lift (lookup ctx b ⟨firstPkt b, false, p, attempts⟩)
    let c ← Logging.lift (Loop.loop (fun c => decide (c.n < b.batchSize)) (handleNext ctx b) b.batchSize c)
    return (c.plane, c.attempts)

/-- `processPkts` with the log. The arrays of flags and dispatches are not initialized. -/
def processPktsLogged (mbufs : Nat → B) (batchSize : Nat) (parseRes : Nat → Bool) (dispatch : Nat → Dispatch Id)
    (attempts : List (Attempt Ω G)) (p : Plane G P S Id) : Logging (Plane G P S Id × List (Attempt Ω G)) := do
  let s ← statelessPart ctx mbufs batchSize ⟨p.packet, parseRes, dispatch⟩
  handleBatchLogged ctx ⟨batchSize, s.parseRes, s.dispatch⟩ attempts { p with
    dstDevices := fun i => if i < batchSize then ctx.device else p.dstDevices i
    packet := s.packet
    running := [], history := [] }

/-- The positions that the batched variant evaluates. -/
def evaluatedPkts (mbufs : Nat → B) (batchSize : Nat) (parseRes : Nat → Bool) (dispatch : Nat → Dispatch Id)
    (attempts : List (Attempt Ω G)) (p : Plane G P S Id) : List Nat :=
  ((processPktsLogged ctx mbufs batchSize parseRes dispatch attempts p).exec []).2

variable {ctx} {mbufs : Nat → B} {batchSize : Nat} {attempts : List (Attempt Ω G)} {p : Plane G P S Id} {log : List Nat}

/-- The stateless part dispatches every packet and fills the arrays up to the batch size. -/
theorem statelessPart_exec (s : Stateless P Id) :
    ∃ t, (statelessPart ctx mbufs batchSize s).exec log = (some t, log ++ List.range batchSize) ∧
      SamePkts (parseBatch ctx mbufs batchSize) ⟨batchSize, t.parseRes, t.dispatch⟩ ∧
      t.packet = fun i => if i < batchSize then (ctx.nf.nfPktParser (mbufs i)).2 else s.packet i := by
  unfold statelessPart
  induction batchSize with
  | zero =>
    refine ⟨s, by simp, ⟨rfl, ?_, ?_⟩, by simp⟩
    · exact fun i below => absurd below (Nat.not_lt_zero i)
    · exact fun i below => absurd below (Nat.not_lt_zero i)
  | succ k ih =>
    obtain ⟨t, ran, same, packet⟩ := ih
    rw [List.range_succ, List.foldlM_append, Logging.exec_bind_some ran]
    refine ⟨_, by rw [← List.append_assoc]; rfl, ⟨rfl, ?_, ?_⟩, ?_⟩
    · intro i within
      rcases Nat.lt_succ_iff_lt_or_eq.mp within with below | rfl
      · exact (update_of_ne (Nat.ne_of_lt below) ..).trans (same.parseRes i below)
      · exact update_self ..
    · intro i within
      rcases Nat.lt_succ_iff_lt_or_eq.mp within with below | rfl
      · exact (update_of_ne (Nat.ne_of_lt below) ..).trans (same.dispatch i below)
      · exact update_self ..
    · funext i
      rcases Nat.lt_trichotomy i k with below | rfl | behind
      · rw [if_pos (by omega)]
        refine (update_of_ne (Nat.ne_of_lt below) ..).trans ?_
        rw [packet]
        exact if_pos below
      · rw [if_pos (Nat.lt_succ_self i)]
        exact update_self ..
      · rw [if_neg (by omega)]
        refine (update_of_ne (Nat.ne_of_gt behind) ..).trans ?_
        rw [packet]
        exact if_neg (by omega)

theorem handleBatchLogged_exec (b : Batch Id) :
    (handleBatchLogged ctx b attempts p).exec log = (handleBatch ctx b attempts p, log ++ [0]) := by
  unfold handleBatchLogged handleBatch
  rw [Logging.exec_bind_some (readHasPktSetState_exec 0 (b.dispatch 0))]
  by_cases set : (b.dispatch 0).hasPktSetState
  · simp only [set, Bool.not_true, Bool.false_eq_true, if_false]
    exact Logging.exec_lift_bind fun c => Logging.exec_lift_bind fun c => Logging.exec_pure _
  · simp only [set, Bool.not_false, if_true]
    exact Logging.exec_lift _

/-- The log does not change what is computed. Every packet of the batch is logged, and then
the first one for its choice of the branch. -/
theorem processPktsLogged_exec (nonempty : 0 < batchSize) (parseRes : Nat → Bool) (dispatch : Nat → Dispatch Id) :
    (processPktsLogged ctx mbufs batchSize parseRes dispatch attempts p).exec log =
      (processPkts ctx mbufs batchSize attempts p, log ++ (List.range batchSize ++ [0])) := by
  unfold processPktsLogged
  obtain ⟨t, ran, same, packet⟩ := @statelessPart_exec _ _ _ _ _ _ ctx mbufs batchSize log ⟨p.packet, parseRes, dispatch⟩
  rw [Logging.exec_bind_some ran, handleBatchLogged_exec, same.handleBatch nonempty, packet, List.append_assoc]
  rfl

/-- The batch evaluates all its packets. -/
theorem mem_evaluatedPkts (nonempty : 0 < batchSize) {parseRes : Nat → Bool} {dispatch : Nat → Dispatch Id} {i : Nat} :
    i ∈ evaluatedPkts ctx mbufs batchSize parseRes dispatch attempts p ↔ i < batchSize := by
  unfold evaluatedPkts
  rw [processPktsLogged_exec nonempty, List.nil_append, List.mem_append, List.mem_range, List.mem_singleton]
  omega

end Batched
end Nfos.DataPlane
