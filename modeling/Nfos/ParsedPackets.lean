import Nfos.DispatchedPackets
import Nfos.HandlerCalls
import Nfos.Lib.Lockstep

/-! Which packets `process_pkt` evaluates. The batched variant dispatches every packet of a
batch, and the first packet chooses the branch for all of them. -/
namespace Nfos.DataPlane
open Function PktSetManager
variable {Ω G P S Id B : Type}

section Kept
variable {ctx : Context Ω G P S Id B} {b b' : Batch Id} {k : Nat → Nat}

/-- The batch `b'` consists of the packets without parsing errors of `b`, and `k` says where
they are in `b`. -/
structure Kept (b b' : Batch Id) (k : Nat → Nat) : Prop where
  ends : k b'.batchSize = b.batchSize
  first : Next b 0 (k 0)
  next : ∀ j < b'.batchSize, Next b (k j + 1) (k (j + 1))
  parsed : ∀ j < b'.batchSize, b'.parseRes j = true
  dispatch : ∀ j < b'.batchSize, b'.dispatch j = b.dispatch (k j)

theorem Next.unique {n m m' : Nat} (within : n ≤ b.batchSize) (next : Next b n m) (next' : Next b n m') : m = m' := by
  have bound := next.bound
  have bound' := next'.bound
  rcases Nat.lt_trichotomy m m' with less | same | more
  · have skipped := next'.skipped m next.above less
    rw [next.parsed (by omega)] at skipped
    contradiction
  · exact same
  · have skipped := next.skipped m' next'.above more
    rw [next'.parsed (by omega)] at skipped
    contradiction

variable (kept : Kept b b' k)
include kept

theorem Kept.step {j : Nat} (within : j < b'.batchSize) : k j < k (j + 1) := (kept.next j within).above

theorem Kept.strict {i j : Nat} (less : i < j) (within : j ≤ b'.batchSize) : k i < k j := by
  induction less with
  | refl => exact kept.step within
  | step _ ih => exact (ih (Nat.le_of_lt within)).trans (kept.step within)

theorem Kept.lt_iff {i j : Nat} (first : i ≤ b'.batchSize) (second : j ≤ b'.batchSize) : k i < k j ↔ i < j := by
  constructor
  · intro less
    by_contra more
    rcases Nat.lt_or_eq_of_le (Nat.le_of_not_lt more) with greater | rfl
    · exact absurd (kept.strict greater first) (Nat.not_lt_of_lt less)
    · exact lt_irrefl _ less
  · exact fun less => kept.strict less second

theorem Kept.within_iff {j : Nat} (within : j ≤ b'.batchSize) : k j < b.batchSize ↔ j < b'.batchSize := by
  rw [← kept.ends]
  exact kept.lt_iff within le_rfl

theorem Kept.injective {i j : Nat} (first : i ≤ b'.batchSize) (second : j ≤ b'.batchSize) (same : k i = k j) : i = j := by
  have less := kept.lt_iff first second
  have more := kept.lt_iff second first
  omega

theorem Kept.size_le : b'.batchSize ≤ b.batchSize := by
  have above : ∀ j ≤ b'.batchSize, j ≤ k j := by
    intro j within
    induction j with
    | zero => exact Nat.zero_le _
    | succ j ih => exact Nat.succ_le_of_lt ((ih (by omega)).trans_lt (kept.step within))
  exact (above _ le_rfl).trans kept.ends.le

theorem Kept.firstPkt : firstPkt b = k 0 := (firstPkt_next b).unique (Nat.zero_le _) kept.first

theorem Kept.firstPkt' : DataPlane.firstPkt b' = 0 := by
  refine (firstPkt_next b').unique (Nat.zero_le _) ⟨le_rfl, Nat.zero_le _, ?_, kept.parsed 0⟩
  intro i _ below
  exact absurd below (Nat.not_lt_zero i)

theorem Kept.nextPkt {j : Nat} (within : j < b'.batchSize) : nextPkt b (k j) = k (j + 1) :=
  (nextPkt_next b (k j)).unique ((kept.within_iff within.le).mpr within) (kept.next j within)

theorem Kept.nextPkt' {j : Nat} (within : j < b'.batchSize) : DataPlane.nextPkt b' j = j + 1 := by
  refine (nextPkt_next b' j).unique within ⟨le_rfl, le_max_left _ _, ?_, kept.parsed (j + 1)⟩
  intro i above below
  omega

/-- The packets of a range. -/
theorem Kept.parsedIn {s e : Nat} (ordered : s ≤ e) (within : e ≤ b'.batchSize) :
    parsedIn b (k s) (k e) = (DataPlane.parsedIn b' s e).map k := by
  obtain ⟨d, rfl⟩ := Nat.exists_eq_add_of_le ordered
  induction d generalizing s with
  | zero =>
    rw [Nat.add_zero, parsedIn_eq_nil fun i _ _ => by omega, parsedIn_eq_nil fun i _ _ => by omega]
    rfl
  | succ d ih =>
    have inside : s < b'.batchSize := by omega
    have here : b.parseRes (k s) = true := by
      cases s with
      | zero => exact kept.first.parsed ((kept.within_iff inside.le).mpr inside)
      | succ s => exact (kept.next s (by omega)).parsed ((kept.within_iff inside.le).mpr inside)
    have rest := ih (s := s + 1) (by omega) (by omega)
    rw [show s + 1 + d = s + (d + 1) by omega] at rest
    have behind : k (s + 1) ≤ k (s + (d + 1)) := by
      rcases Nat.eq_or_lt_of_le (show s + 1 ≤ s + (d + 1) by omega) with same | less
      · rw [← same]
      · exact (kept.strict less within).le
    rw [parsedIn_cons (kept.strict (by omega) within) here, parsedIn_cons (by omega) (kept.parsed s inside), List.map_cons,
      ← rest, ← parsedIn_append (kept.next s inside).above behind, parsedIn_eq_nil (kept.next s inside).skipped,
      List.nil_append]

theorem Kept.positions {s e : Nat} (less : s < e) (within : e ≤ b'.batchSize) :
    positions b (k e) b.batchSize (k s) = (DataPlane.positions b' e b'.batchSize s).map k := by
  have inside : s < b'.batchSize := by omega
  have here : b.parseRes (k s) = true := by
    have member : k s ∈ DataPlane.parsedIn b (k s) (k e) := by
      rw [kept.parsedIn less.le within, parsedIn_cons less (kept.parsed s inside)]
      exact List.mem_cons_self ..
    exact (mem_parsedIn.mp member).2.2
  have bound : k e ≤ b.batchSize := by
    rcases Nat.eq_or_lt_of_le within with rfl | below
    · exact kept.ends.le
    · exact ((kept.within_iff within).mpr below).le
  rw [positions_eq (kept.strict less within) here bound (by omega), positions_eq less (kept.parsed s inside) within (by omega)]
  exact kept.parsedIn less.le within

end Kept

section Lockstep
variable {ctx : Context Ω G P S Id B} {b b' : Batch Id} {k : Nat → Nat} {m j : Nat} {branch : Branch} {d : Dispatch Id}
variable {contention : Ω} {view : G} {p q : Plane G P S Id} {a : Attempt Ω G}

def Invocation.move (k : Nat → Nat) (v : Invocation) : Invocation := { v with position := k v.position }

/-- The memories of two runs. The packet at position `j` of the second is at `k j` in the
first. -/
structure Alike (k : Nat → Nat) (m : Nat) (p q : Plane G P S Id) : Prop where
  manager : p.manager = q.manager
  globalState : p.globalState = q.globalState
  dstDevice : p.dstDevice = q.dstDevice
  packet : ∀ j < m, p.packet (k j) = q.packet j
  dstDevices : ∀ j < m, p.dstDevices (k j) = q.dstDevices j
  pktSetState : ∀ j < m, p.pktSetState (k j) = q.pktSetState j
  pktSetStateLog : p.pktSetStateLog = q.pktSetStateLog
  running : p.running = q.running.map (Invocation.move k)
  history : p.history = q.history.map (Prod.map (Invocation.move k) id)

/-- Positions that are different stay different. -/
theorem update_move {α : Type} {f g : Nat → α} (injective : ∀ i < m, k i = k j → i = j) (same : ∀ i < m, f (k i) = g i)
    {v : α} : ∀ i < m, update f (k j) v (k i) = update g j v i := by
  intro i within
  by_cases here : i = j
  · subst here
    rw [update_self, update_self]
  · rw [update_of_ne here, update_of_ne fun equal => here (injective i within equal)]
    exact same i within

/-- The results of two computations with a flag or an outcome. -/
def Both {α : Type} (k : Nat → Nat) (m : Nat) (x y : α × Plane G P S Id) : Prop := x.1 = y.1 ∧ Alike k m x.2 y.2

theorem Alike.slotOf (alike : Alike k m p q) (within : j < m) : slotOf branch (k j) p = slotOf branch j q := by
  cases branch with
  | noPktSet | unknown => rfl
  | registered => exact congrArg some (alike.pktSetState j within)

theorem Alike.callAt (alike : Alike k m p q) (within : j < m) :
    callAt ctx branch (k j) d view p = callAt ctx branch j d view q := by
  simp only [DataPlane.callAt, alike.packet j within, alike.slotOf within, alike.manager]

theorem Alike.invoked (alike : Alike k m p q) (injective : ∀ i < m, k i = k j → i = j) (within : j < m)
    (outcome : Outcome G P S Id) : Alike k m (invoked ctx branch (k j) d outcome p) (invoked ctx branch j d outcome q) := by
  unfold DataPlane.invoked
  constructor
  case manager => simp only [alike.slotOf within, alike.manager]
  case globalState => exact alike.globalState
  case dstDevice => simp only [alike.dstDevice]
  case packet => exact update_move injective alike.packet
  case dstDevices => exact alike.dstDevices
  case pktSetState => exact alike.pktSetState
  case pktSetStateLog => exact alike.pktSetStateLog
  case running => simp [alike.running, alike.manager, Invocation.move]
  case history => exact alike.history

theorem invoke_eq : invoke ctx branch j d contention view p =
    (ctx.handler branch d.pktClass contention (callAt ctx branch j d view p)).map fun outcome =>
      (outcome, invoked ctx branch j d outcome p) := by
  rw [Option.map_eq_bind]
  rfl

theorem Alike.invoke (alike : Alike k m p q) (injective : ∀ i < m, k i = k j → i = j) (within : j < m) :
    Option.Rel (Both k m) (invoke ctx branch (k j) d contention view p) (invoke ctx branch j d contention view q) := by
  rw [invoke_eq, invoke_eq, alike.callAt within]
  cases ctx.handler branch d.pktClass contention (DataPlane.callAt ctx branch j d view q) with
  | none => exact .none
  | some outcome => exact .some ⟨rfl, alike.invoked injective within outcome⟩

theorem Alike.endTxn (alike : Alike k m p q) (flag : Bool) : Alike k m (p.endTxn flag) (q.endTxn flag) := by
  unfold Plane.endTxn
  constructor
  case manager => exact alike.manager
  case globalState => exact alike.globalState
  case dstDevice => exact alike.dstDevice
  case packet => exact alike.packet
  case dstDevices => exact alike.dstDevices
  case pktSetState => exact alike.pktSetState
  case pktSetStateLog => exact alike.pktSetStateLog
  case running => rfl
  case history =>
    rw [alike.running, alike.history, List.map_append, List.map_map, List.map_map]
    rfl

theorem Alike.withView (alike : Alike k m p q) (view : G) :
    Alike k m { p with globalState := view } { q with globalState := view } :=
  { alike with globalState := rfl }

theorem Alike.withManager (alike : Alike k m p q) (manager : Manager Id S) :
    Alike k m { p with manager := manager } { q with manager := manager } :=
  { alike with manager := rfl }

theorem Alike.withDstDevice (alike : Alike k m p q) (dstDevice : Nat) :
    Alike k m { p with dstDevice := dstDevice } { q with dstDevice := dstDevice } :=
  { alike with dstDevice := rfl }

theorem Alike.report (alike : Alike k m p q) (injective : ∀ i < m, k i = k j → i = j) :
    Alike k m { p with dstDevices := update p.dstDevices (k j) p.dstDevice }
      { q with dstDevices := update q.dstDevices j q.dstDevice } := by
  rw [alike.dstDevice]
  exact { alike with dstDevice := rfl, dstDevices := update_move injective alike.dstDevices }

theorem Alike.rollback (alike : Alike k m p q) : Alike k m (rollbackPktSetStates p) (rollbackPktSetStates q) := by
  unfold rollbackPktSetStates
  rw [alike.manager, alike.pktSetStateLog]
  exact { alike with manager := rfl, pktSetStateLog := rfl }

theorem Alike.abortTxn (alike : Alike k m p q) : Alike k m (abortTxn ctx branch p) (abortTxn ctx branch q) := by
  unfold DataPlane.abortTxn
  split
  · exact alike.rollback.endTxn false
  · exact alike.endTxn false

theorem Alike.transaction {work work' : Work Ω G P S Id}
    (works : ∀ contention view p q, Alike k m p q → Option.Rel (Both k m) (work contention view p) (work' contention view q))
    (alike : Alike k m p q) :
    Option.Rel (Both k m) (transaction ctx branch work a p) (transaction ctx branch work' a q) := by
  unfold DataPlane.transaction
  rw [alike.globalState]
  refine Lockstep.bind (works _ _ _ _ (alike.withView _)) ?_
  rintro ⟨result, p'⟩ ⟨_, q'⟩ ⟨rfl, alike'⟩
  cases result with
  | none => exact .some ⟨rfl, alike'.abortTxn⟩
  | some view =>
    dsimp only
    split
    · exact .some ⟨rfl, (alike'.withView view).endTxn true⟩
    · exact .some ⟨rfl, alike'.abortTxn⟩

theorem Alike.prepare (alike : Alike k m p q) (within : j < m) :
    Alike k m (prepare ctx branch (k j) p) (prepare ctx branch j q) := by
  cases branch with
  | noPktSet => exact alike
  | registered =>
    simp only [DataPlane.prepare, logPktSetState, resetLogPktSetState, logOnePktSetState, alike.manager,
      alike.pktSetState j within]
    split
    · exact { alike with manager := rfl, pktSetStateLog := rfl }
    · exact alike
  | unknown =>
    simp only [DataPlane.prepare, alike.manager]
    exact alike.withManager _

theorem Alike.attemptPkt (alike : Alike k m p q) (injective : ∀ i < m, k i = k j → i = j) (within : j < m) :
    Option.Rel (Both k m) (attemptPkt ctx branch (k j) d a p) (attemptPkt ctx branch j d a q) := by
  unfold DataPlane.attemptPkt
  refine Alike.transaction ?_ (alike.prepare within)
  intro contention view p q alike
  refine Lockstep.bind (alike.invoke injective within) ?_
  rintro ⟨outcome, p'⟩ ⟨_, q'⟩ ⟨rfl, alike'⟩
  exact .some ⟨rfl, alike'⟩

theorem Alike.retryPkt (alike : Alike k m p q) (injective : ∀ i < m, k i = k j → i = j) (within : j < m)
    (tape : List (Attempt Ω G)) :
    Option.Rel (fun x y => Alike k m x.1 y.1 ∧ x.2 = y.2) (Retry.retry (DataPlane.attemptPkt ctx branch (k j) d) tape p)
      (Retry.retry (DataPlane.attemptPkt ctx branch j d) tape q) :=
  Lockstep.retry (fun _ _ _ alike => alike.attemptPkt injective within) tape alike

theorem Alike.handlePkts {before : Nat → Plane G P S Id → Plane G P S Id} {l : List Nat}
    (dispatch : ∀ j < m, b'.dispatch j = b.dispatch (k j)) (injective : ∀ j < m, ∀ i < m, k i = k j → i = j)
    (before_alike : ∀ j < m, ∀ p q, Alike k m p q → Alike k m (before (k j) p) (before j q)) (within : ∀ j ∈ l, j < m)
    (alike : Alike k m p q) :
    Option.Rel (Both k m) (handlePkts ctx b branch before contention (l.map k) view p)
      (handlePkts ctx b' branch before contention l view q) := by
  induction l generalizing view p q with
  | nil => exact .some ⟨rfl, alike⟩
  | cons j rest ih =>
    have inside := within j (List.mem_cons_self ..)
    simp only [List.map_cons, DataPlane.handlePkts]
    rw [dispatch j inside]
    refine Lockstep.bind ((before_alike j inside p q alike).invoke (injective j inside) inside) ?_
    rintro ⟨outcome, p'⟩ ⟨_, q'⟩ ⟨rfl, alike'⟩
    dsimp only
    split
    · exact .some ⟨rfl, alike'⟩
    · exact ih (fun i member => within i (List.mem_cons_of_mem _ member)) (alike'.report (injective j inside))

/-- The variables of the loops over the two batches. -/
structure CursorsAlike (k : Nat → Nat) (m : Nat) (c c' : Cursor Ω G P S Id) : Prop where
  within : c'.n ≤ m
  n : c.n = k c'.n
  regPktSet : c.regPktSet = c'.regPktSet
  attempts : c.attempts = c'.attempts
  plane : Alike k m c.plane c'.plane

variable (kept : Kept b b' k) {c c' : Cursor Ω G P S Id}
include kept

theorem Kept.apart (within : j < b'.batchSize) : ∀ i < b'.batchSize, k i = k j → i = j :=
  fun _ below same => kept.injective below.le within.le same

/-- The answer of a lookup of the packet at the cursor. -/
theorem Kept.lookup (alike : CursorsAlike k b'.batchSize c c') :
    Option.Rel (fun u u' => u'.n = c'.n ∧ (b'.batchSize ≤ u'.n → u'.regPktSet = false) ∧ CursorsAlike k b'.batchSize u u')
      (lookup ctx b c) (lookup ctx b' c') := by
  unfold DataPlane.lookup
  by_cases within : c'.n < b'.batchSize
  · rw [if_pos within, alike.n, if_pos ((kept.within_iff alike.within).mpr within), alike.plane.manager, kept.dispatch _ within]
    cases getPktSetState ctx.cfg (b.dispatch (k c'.n)).pktSetId ctx.pktSetPartition ctx.now c'.plane.manager with
    | none => exact .none
    | some found =>
      obtain ⟨slot, manager⟩ := found
      have outside {r : Bool} : b'.batchSize ≤ c'.n → r = false := fun above => absurd within (Nat.not_lt_of_le above)
      have managed := alike.plane.withManager manager
      cases slot with
      | none => exact .some ⟨rfl, outside, alike.within, rfl, rfl, alike.attempts, managed⟩
      | some slot =>
        refine .some ⟨rfl, outside, alike.within, rfl, rfl, alike.attempts, ?_⟩
        exact { managed with pktSetState := update_move (kept.apart within) managed.pktSetState }
  · rw [if_neg within, alike.n, if_neg ((kept.within_iff alike.within).not.mpr within)]
    exact .some ⟨rfl, fun _ => rfl, alike.within, rfl, rfl, alike.attempts, alike.plane⟩

theorem Kept.advance (alike : CursorsAlike k b'.batchSize c c') (within : c'.n < b'.batchSize) :
    Option.Rel (fun u u' => u'.n = c'.n + 1 ∧ (b'.batchSize ≤ u'.n → u'.regPktSet = false) ∧ CursorsAlike k b'.batchSize u u')
      (advance ctx b c) (advance ctx b' c') := by
  unfold DataPlane.advance
  rw [alike.n, kept.nextPkt within, kept.nextPkt' within]
  have moved : CursorsAlike k b'.batchSize { c with n := k (c'.n + 1) } { c' with n := c'.n + 1 } :=
    ⟨within, rfl, alike.regPktSet, alike.attempts, alike.plane⟩
  exact kept.lookup moved

/-- The loops over the batches at the start of an iteration: a lookup behind the last packet
finds nothing. -/
structure Kept.Turn (kept : Kept b b' k) (c c' : Cursor Ω G P S Id) : Prop where
  alike : CursorsAlike k b'.batchSize c c'
  outside : b'.batchSize ≤ c'.n → c'.regPktSet = false

theorem Kept.handleUnknown (alike : CursorsAlike k b'.batchSize c c') (within : c'.n < b'.batchSize) :
    Option.Rel (fun u u' => u'.n = c'.n + 1 ∧ kept.Turn u u') (handleUnknown ctx b c) (handleUnknown ctx b' c') := by
  unfold DataPlane.handleUnknown restartThird
  rw [alike.n, alike.attempts, kept.dispatch _ within]
  refine Lockstep.bind ((alike.plane.withDstDevice ctx.device).retryPkt (kept.apart within) within c'.attempts) ?_
  rintro ⟨p, rest⟩ ⟨q, _⟩ ⟨alike', rfl⟩
  dsimp only
  rw [alike'.manager]
  refine Lockstep.bind (Lockstep.refl _) ?_
  rintro manager _ rfl
  refine Lockstep.mono (kept.advance ⟨alike.within, rfl, alike.regPktSet, rfl, ?_⟩ within) fun u u' => ?_
  · exact (alike'.report (kept.apart within)).withManager manager
  · rintro ⟨n, outside, after⟩
    exact ⟨n, after, outside⟩

/-- A pass through a range of registered packets. -/
theorem Kept.attemptRegistered {s e : Nat} (less : s < e) (within : e ≤ b'.batchSize) (alike : Alike k b'.batchSize p q) :
    Option.Rel (Both k b'.batchSize) (attemptRegistered ctx b (k s) (k e) a p) (attemptRegistered ctx b' s e a q) := by
  have start : Alike k b'.batchSize (if ctx.mutablePktSetState then resetLogPktSetState p else p)
      (if ctx.mutablePktSetState then resetLogPktSetState q else q) := by
    split
    · exact { alike with pktSetStateLog := rfl }
    · exact alike
  unfold DataPlane.attemptRegistered
  rw [kept.positions less within]
  refine Alike.transaction ?_ start
  intro contention view p q alike
  refine alike.handlePkts kept.dispatch (fun j inside => kept.apart inside) ?_ ?_
  · intro j inside p q alike
    unfold beforeRegistered
    refine Alike.withDstDevice ?_ ctx.device
    split
    · unfold logOnePktSetState
      rw [alike.manager, alike.pktSetState j inside, alike.pktSetStateLog]
      exact { alike with manager := rfl, pktSetStateLog := rfl }
    · exact alike
  · intro j member
    rw [positions_eq less (kept.parsed s (by omega)) within (by omega)] at member
    exact (mem_parsedIn.mp member).2.1.trans_le within

theorem Kept.retryRegistered {s e : Nat} (less : s < e) (within : e ≤ b'.batchSize) (tape : List (Attempt Ω G))
    (alike : Alike k b'.batchSize p q) :
    Option.Rel (fun x y => Alike k b'.batchSize x.1 y.1 ∧ x.2 = y.2)
      (Retry.retry (DataPlane.attemptRegistered ctx b (k s) (k e)) tape p)
      (Retry.retry (DataPlane.attemptRegistered ctx b' s e) tape q) := by
  refine Lockstep.retry (fun a p q alike => ?_) tape alike
  exact kept.attemptRegistered less within alike

theorem Kept.handleRegistered (turn : kept.Turn c c') (more : c'.regPktSet = true) :
    Option.Rel (fun u u' => c'.n < u'.n ∧ kept.Turn u u') (handleRegistered ctx b c) (handleRegistered ctx b' c') := by
  have inside : ∀ u u' : Cursor Ω G P S Id, kept.Turn u u' → u'.regPktSet = true → u'.n < b'.batchSize := by
    intro u u' turn found
    by_contra above
    rw [turn.outside (Nat.le_of_not_lt above)] at found
    contradiction
  unfold DataPlane.handleRegistered
  -- The lookups ahead go in lockstep, and at least one packet is passed.
  refine Lockstep.bind (Lockstep.loop (R := fun u u' => kept.Turn u u' ∧ c'.n ≤ u'.n ∧ (u'.regPktSet = true ∨ c'.n < u'.n))
    (fun u' => b'.batchSize - u'.n) ?_ ?_ ?_ ⟨turn, le_rfl, Or.inl more⟩ ?_ (Nat.sub_le _ _)) ?_
  · exact fun u u' related => related.1.alike.regPktSet
  · intro u u' ⟨turn, above, _⟩ found
    refine Lockstep.mono (kept.advance turn.alike (inside u u' turn found)) fun v v' => ?_
    rintro ⟨n, outside, alike⟩
    exact ⟨⟨alike, outside⟩, by omega, Or.inr (by omega)⟩
  · intro u u' v' ⟨turn, _⟩ found stepped
    have within := inside u u' turn found
    have related : Option.Rel _ (DataPlane.advance ctx b u) (DataPlane.advance ctx b' u') := kept.advance turn.alike within
    rw [stepped] at related
    obtain ⟨_, _, n, _⟩ := Lockstep.returns related
    omega
  · exact (Nat.sub_le _ _).trans kept.size_le
  · rintro u u' ⟨⟨turn', _, passed⟩, stopped⟩
    rw [stopped] at passed
    have less : c'.n < u'.n := passed.resolve_left Bool.false_ne_true
    rw [turn.alike.n, turn'.alike.n, turn'.alike.attempts]
    refine Lockstep.bind (kept.retryRegistered less turn'.alike.within u'.attempts turn'.alike.plane) ?_
    rintro ⟨p, rest⟩ ⟨q, _⟩ ⟨alike', rfl⟩
    exact .some ⟨less, ⟨turn'.alike.within, rfl, turn'.alike.regPktSet, rfl, alike'⟩, turn'.outside⟩

theorem Kept.handleNext (turn : kept.Turn c c') (within : c'.n < b'.batchSize) :
    Option.Rel (fun u u' => c'.n < u'.n ∧ kept.Turn u u') (handleNext ctx b c) (handleNext ctx b' c') := by
  unfold DataPlane.handleNext
  rw [turn.alike.regPktSet]
  cases registered : c'.regPktSet with
  | false =>
    refine Lockstep.mono (kept.handleUnknown turn.alike within) fun u u' => ?_
    rintro ⟨n, turn'⟩
    exact ⟨by omega, turn'⟩
  | true => exact kept.handleRegistered turn registered

theorem Kept.retryNoPktSet (tape : List (Attempt Ω G)) (alike : Alike k b'.batchSize p q) :
    Option.Rel (fun x y => Alike k b'.batchSize x.1 y.1 ∧ x.2 = y.2) (Retry.retry (attemptNoPktSet ctx b) tape p)
      (Retry.retry (attemptNoPktSet ctx b') tape q) := by
  have whole (b : Batch Id) : (List.range b.batchSize).filter b.parseRes = DataPlane.parsedIn b 0 b.batchSize := by
    rw [DataPlane.parsedIn, List.range_eq_range', Nat.sub_zero]
  have positions : (List.range b.batchSize).filter b.parseRes = ((List.range b'.batchSize).filter b'.parseRes).map k := by
    rw [whole, whole, ← kept.parsedIn (Nat.zero_le _) le_rfl, kept.ends, ← parsedIn_append kept.first.above
      (by have := kept.first.bound; omega), parsedIn_eq_nil kept.first.skipped, List.nil_append]
  refine Lockstep.retry (fun a p q alike => ?_) tape alike
  unfold attemptNoPktSet
  rw [positions]
  refine Alike.transaction (fun contention view p q alike => ?_) alike
  refine alike.handlePkts kept.dispatch (fun j inside => kept.apart inside) ?_ ?_
  · intro j inside p q alike
    unfold beforeNoPktSet
    rw [alike.dstDevices j inside]
    exact alike.withDstDevice _
  · intro j member
    exact List.mem_range.mp (List.mem_filter.mp member).1

/-- The loops over the two batches go in lockstep if they take the same branch. -/
theorem Kept.handleBatch (same : (b.dispatch 0).hasPktSetState = (b'.dispatch 0).hasPktSetState) (tape : List (Attempt Ω G))
    (alike : Alike k b'.batchSize p q) :
    Option.Rel (fun x y => Alike k b'.batchSize x.1 y.1 ∧ x.2 = y.2) (handleBatch ctx b tape p) (handleBatch ctx b' tape q) := by
  unfold DataPlane.handleBatch
  rw [same]
  split
  · exact kept.retryNoPktSet tape alike
  · have start : CursorsAlike k b'.batchSize ⟨DataPlane.firstPkt b, false, p, tape⟩ ⟨DataPlane.firstPkt b', false, q, tape⟩ := by
      rw [kept.firstPkt, kept.firstPkt']
      exact ⟨Nat.zero_le _, rfl, rfl, rfl, alike⟩
    refine Lockstep.bind (kept.lookup start) ?_
    rintro c c' ⟨_, outside, begun⟩
    refine Lockstep.bind (Lockstep.loop (R := kept.Turn) (fun u' => b'.batchSize - u'.n) ?_ ?_ ?_ ⟨begun, outside⟩
      ((Nat.sub_le _ _).trans kept.size_le) (Nat.sub_le _ _)) ?_
    · intro u u' turn
      rw [turn.alike.n, decide_eq_decide]
      exact kept.within_iff turn.alike.within
    · intro u u' turn more
      exact Lockstep.mono (kept.handleNext turn (of_decide_eq_true more)) fun v v' related => related.2
    · intro u u' v' turn more stepped
      have within : u'.n < b'.batchSize := of_decide_eq_true more
      have related : Option.Rel _ (DataPlane.handleNext ctx b u) (DataPlane.handleNext ctx b' u') := kept.handleNext turn within
      rw [stepped] at related
      obtain ⟨_, _, above, _⟩ := Lockstep.returns related
      omega
    · rintro u u' ⟨turn, _⟩
      exact .some ⟨turn.alike.plane, turn.alike.attempts⟩

end Lockstep

section Removal
variable {ctx : Context Ω G P S Id B} {mbufs : Nat → B} {batchSize : Nat}

/-- The packets of a batch without parsing errors. -/
def parsedPkts (ctx : Context Ω G P S Id B) (mbufs : Nat → B) (batchSize : Nat) : List Nat :=
  (List.range batchSize).filter fun i => (ctx.nf.nfPktParser (mbufs i)).1

/-- Where the packet at position `j` of the batch without the other packets comes from. -/
def positionOf (ctx : Context Ω G P S Id B) (mbufs : Nat → B) (batchSize j : Nat) : Nat :=
  (parsedPkts ctx mbufs batchSize).getD j batchSize

theorem positionOf_eq {j : Nat} (within : j < (parsedPkts ctx mbufs batchSize).length) :
    positionOf ctx mbufs batchSize j = (parsedPkts ctx mbufs batchSize)[j] :=
  List.getD_eq_getElem _ _ within

theorem positionOf_parsed {j : Nat} (within : j < (parsedPkts ctx mbufs batchSize).length) :
    positionOf ctx mbufs batchSize j < batchSize ∧ (ctx.nf.nfPktParser (mbufs (positionOf ctx mbufs batchSize j))).1 = true := by
  rw [positionOf_eq within]
  obtain ⟨below, parsed⟩ := List.mem_filter.mp (List.getElem_mem within)
  exact ⟨List.mem_range.mp below, parsed⟩

/-- The parsed packets are in batch order. -/
theorem parsedPkts_sorted {i j : Nat} (less : i < j) (within : j < (parsedPkts ctx mbufs batchSize).length) :
    (parsedPkts ctx mbufs batchSize)[i] < (parsedPkts ctx mbufs batchSize)[j] :=
  List.pairwise_iff_getElem.mp (List.pairwise_lt_range.filter _) i j (less.trans within) within less

theorem positionOf_next {j n : Nat} (start : n ≤ batchSize)
    (before : ∀ i (within : i < (parsedPkts ctx mbufs batchSize).length), i < j → (parsedPkts ctx mbufs batchSize)[i] < n)
    (behind : ∀ within : j < (parsedPkts ctx mbufs batchSize).length, n ≤ (parsedPkts ctx mbufs batchSize)[j]) :
    Next (parseBatch ctx mbufs batchSize) n (positionOf ctx mbufs batchSize j) := by
  have bound : positionOf ctx mbufs batchSize j ≤ batchSize := by
    by_cases within : j < (parsedPkts ctx mbufs batchSize).length
    · exact (positionOf_parsed within).1.le
    · rw [positionOf, List.getD_eq_default _ _ (Nat.le_of_not_lt within)]
  constructor
  case above =>
    by_cases within : j < (parsedPkts ctx mbufs batchSize).length
    · rw [positionOf_eq within]
      exact behind within
    · rw [positionOf, List.getD_eq_default _ _ (Nat.le_of_not_lt within)]
      exact start
  case bound => exact bound.trans (le_max_right _ _)
  case skipped =>
    intro i above below
    rw [← Bool.not_eq_true]
    intro parsed
    have member : i ∈ parsedPkts ctx mbufs batchSize :=
      List.mem_filter.mpr ⟨List.mem_range.mpr (below.trans_le bound), parsed⟩
    obtain ⟨l, within, rfl⟩ := List.getElem_of_mem member
    rcases Nat.lt_trichotomy l j with less | rfl | more
    · exact absurd (before l within less) (Nat.not_lt_of_le above)
    · exact absurd (positionOf_eq within) (Nat.ne_of_gt below)
    · rw [positionOf_eq (more.trans within)] at below
      exact absurd (parsedPkts_sorted more within) (Nat.not_lt_of_lt below)
  case parsed =>
    intro below
    by_cases within : j < (parsedPkts ctx mbufs batchSize).length
    · exact (positionOf_parsed within).2
    · rw [positionOf, List.getD_eq_default _ _ (Nat.le_of_not_lt within)] at below
      exact absurd below (lt_irrefl _)

/-- The batch without the packets that were not parsed. -/
def parsedBatch (ctx : Context Ω G P S Id B) (mbufs : Nat → B) (batchSize : Nat) : Batch Id :=
  parseBatch ctx (fun j => mbufs (positionOf ctx mbufs batchSize j)) (parsedPkts ctx mbufs batchSize).length

theorem parsedBatch_kept : Kept (parseBatch ctx mbufs batchSize) (parsedBatch ctx mbufs batchSize) (positionOf ctx mbufs batchSize) := by
  constructor
  case ends => exact List.getD_eq_default _ _ le_rfl
  case first =>
    refine positionOf_next (Nat.zero_le _) (fun i _ below => absurd below (Nat.not_lt_zero i)) fun _ => Nat.zero_le _
  case next =>
    intro j within
    have here := positionOf_eq within
    refine positionOf_next (positionOf_parsed within).1 ?_ ?_
    · intro i inside below
      rw [here]
      rcases Nat.eq_or_lt_of_le (Nat.le_of_lt_succ below) with rfl | less
      · exact Nat.lt_succ_self _
      · exact (parsedPkts_sorted less within).trans (Nat.lt_succ_self _)
    · intro inside
      rw [here]
      exact parsedPkts_sorted (Nat.lt_succ_self j) inside
  case parsed => exact fun j within => (positionOf_parsed within).2
  case dispatch => exact fun _ _ => rfl

/-- A batch is processed as if the packets with parsing errors were not in it. The local
array of the slots is not initialised: its entries are moved with the packets. -/
def Unaffected (ctx : Context Ω G P S Id B) (mbufs : Nat → B) (batchSize : Nat) : Prop :=
  ∀ tape p, Option.Rel
    (fun x y => x.2 = y.2 ∧ x.1.manager = y.1.manager ∧ x.1.globalState = y.1.globalState ∧
      (∀ j < (parsedPkts ctx mbufs batchSize).length,
        x.1.packet (positionOf ctx mbufs batchSize j) = y.1.packet j ∧
        x.1.dstDevices (positionOf ctx mbufs batchSize j) = y.1.dstDevices j) ∧
      x.1.history = y.1.history.map (Prod.map (Invocation.move (positionOf ctx mbufs batchSize)) id))
    (processPkts ctx mbufs batchSize tape p)
    (processPkts ctx (fun j => mbufs (positionOf ctx mbufs batchSize j)) (parsedPkts ctx mbufs batchSize).length tape
      { p with pktSetState := p.pktSetState ∘ positionOf ctx mbufs batchSize })

/-- The branch that the first packet chooses must be that of the first parsed one. -/
theorem unaffected_of_flag (same : (ctx.nf.nfPktDispatcher (ctx.nf.nfPktParser (mbufs 0)).2 ctx.device).hasPktSetState =
      (ctx.nf.nfPktDispatcher (ctx.nf.nfPktParser (mbufs (positionOf ctx mbufs batchSize 0))).2 ctx.device).hasPktSetState) :
    Unaffected ctx mbufs batchSize := by
  intro tape p
  unfold processPkts
  have kept : Kept (parseBatch ctx mbufs batchSize) (parsedBatch ctx mbufs batchSize) _ := parsedBatch_kept
  refine Lockstep.mono (kept.handleBatch same tape ?_) ?_
  · constructor
    case packet =>
      intro j within
      have inside : j < (parsedPkts ctx mbufs batchSize).length := within
      simp only [if_pos (positionOf_parsed inside).1, if_pos inside]
    case dstDevices =>
      intro j within
      have inside : j < (parsedPkts ctx mbufs batchSize).length := within
      simp only [if_pos (positionOf_parsed inside).1, if_pos inside]
    case pktSetState => exact fun _ _ => rfl
    case running => rfl
    case history => rfl
    all_goals rfl
  · rintro ⟨p', rest⟩ ⟨q', rest'⟩ ⟨alike, left⟩
    exact ⟨left, alike.manager, alike.globalState, fun j within => ⟨alike.packet j within, alike.dstDevices j within⟩,
      alike.history⟩

/-- The handlers only see parsed packets, and the other ones are reported as dropped. -/
theorem handled_parsed {tape rest : List (Attempt Ω G)} {p p' : Plane G P S Id}
    (ran : processPkts ctx mbufs batchSize tape p = some (p', rest)) :
    (∀ v ∈ p'.history, (ctx.nf.nfPktParser (mbufs v.1.position)).1 = true) ∧
      ∀ i < batchSize, (ctx.nf.nfPktParser (mbufs i)).1 = false → p'.dstDevices i = ctx.device := by
  have progress := handleBatch_progress (b := parseBatch ctx mbufs batchSize) rfl rfl (fun i within => if_pos within) ran
  refine ⟨progress.parsed, ?_⟩
  intro i within unparsed
  have untouched : invocationsAt i (p'.history.map Prod.fst) = [] := by
    apply invocationsAt_eq_nil
    intro v member here
    obtain ⟨w, inside, rfl⟩ := List.mem_map.mp member
    have parsed := progress.parsed w inside
    rw [here] at parsed
    exact absurd (parsed.symm.trans unparsed) (by decide)
  rw [progress.destination i within, untouched]
  rfl

/-- What is asked of `process_pkt` with batching for one batch. -/
structure OnlyParsed (ctx : Context Ω G P S Id B) (mbufs : Nat → B) (batchSize : Nat) (p : Plane G P S Id) : Prop where
  evaluated : ∀ parseRes dispatch tape, ∀ i ∈ evaluatedPkts ctx mbufs batchSize parseRes dispatch tape p,
    (ctx.nf.nfPktParser (mbufs i)).1 = true
  handled : ∀ tape p' rest, processPkts ctx mbufs batchSize tape p = some (p', rest) →
    ∀ v ∈ p'.history, (ctx.nf.nfPktParser (mbufs v.1.position)).1 = true
  dropped : ∀ tape p' rest, processPkts ctx mbufs batchSize tape p = some (p', rest) →
    ∀ i < batchSize, (ctx.nf.nfPktParser (mbufs i)).1 = false → p'.dstDevices i = ctx.device
  unaffected : parsedPkts ctx mbufs batchSize ≠ [] → Unaffected ctx mbufs batchSize

theorem positionOf_all (all : ∀ i < batchSize, (ctx.nf.nfPktParser (mbufs i)).1 = true) :
    positionOf ctx mbufs batchSize 0 = 0 := by
  have kept : Kept (parseBatch ctx mbufs batchSize) (parsedBatch ctx mbufs batchSize) (positionOf ctx mbufs batchSize) :=
    parsedBatch_kept
  refine Next.unique (Nat.zero_le _) kept.first ⟨le_rfl, Nat.zero_le _, ?_, all 0⟩
  intro i _ below
  exact absurd below (Nat.not_lt_zero i)

/-- Without batching only parsed packets are evaluated, and other ones change nothing. A batch
is processed so if and only if all its packets are parsed: the other ones are dispatched too,
and one at the front chooses the branch. They are never handled and always dropped, and they
leave the other packets alone if the first one chooses the branch of the first parsed one. -/
theorem only_parsed_dispatched_iff (ctx : Context Ω G P S Id B) :
    (∀ buffer, (∀ tape p, ∀ i ∈ evaluatedPkt ctx buffer tape p, (ctx.nf.nfPktParser buffer).1 = true) ∧
      ((ctx.nf.nfPktParser buffer).1 = false → ∀ tape p, ∃ p', processPkt ctx buffer tape p = some (ctx.device, p', tape) ∧
        p'.history = [] ∧ p'.manager = p.manager ∧ p'.globalState = p.globalState)) ∧
    ∀ mbufs batchSize, 0 < batchSize →
      (∀ p, OnlyParsed ctx mbufs batchSize p ↔ ∀ i < batchSize, (ctx.nf.nfPktParser (mbufs i)).1 = true) ∧
      (∀ tape p p' rest, processPkts ctx mbufs batchSize tape p = some (p', rest) →
        (∀ v ∈ p'.history, (ctx.nf.nfPktParser (mbufs v.1.position)).1 = true) ∧
        ∀ i < batchSize, (ctx.nf.nfPktParser (mbufs i)).1 = false → p'.dstDevices i = ctx.device) ∧
      ((ctx.nf.nfPktDispatcher (ctx.nf.nfPktParser (mbufs 0)).2 ctx.device).hasPktSetState =
          (ctx.nf.nfPktDispatcher (ctx.nf.nfPktParser (mbufs (positionOf ctx mbufs batchSize 0))).2 ctx.device).hasPktSetState →
        Unaffected ctx mbufs batchSize) := by
  constructor
  · intro buffer
    constructor
    · intro tape p i member
      rw [evaluatedPkt_eq] at member
      split at member
      · assumption
      · contradiction
    · intro unparsed tape p
      obtain ⟨packet, parser⟩ : ∃ packet, ctx.nf.nfPktParser buffer = (false, packet) := ⟨_, Prod.ext unparsed rfl⟩
      exact ⟨_, FwNat.processPkt_unparsed parser, rfl, rfl, rfl⟩
  · intro mbufs batchSize nonempty
    refine ⟨fun p => ⟨?_, ?_⟩, fun tape p p' rest => handled_parsed, unaffected_of_flag⟩
    · intro only i within
      have evaluated := only.evaluated (parseBatch ctx mbufs batchSize).parseRes (parseBatch ctx mbufs batchSize).dispatch [] i
      rw [mem_evaluatedPkts nonempty] at evaluated
      exact evaluated within
    · intro all
      constructor
      case evaluated =>
        intro parseRes dispatch tape i member
        exact all i ((mem_evaluatedPkts nonempty).mp member)
      case handled => exact fun tape p' rest ran => (handled_parsed ran).1
      case dropped => exact fun tape p' rest ran => (handled_parsed ran).2
      case unaffected => exact fun _ => unaffected_of_flag (by rw [positionOf_all all])

/-- The packets are 0, which is not parsed, and 1, which has a packet set. -/
def pickyNF : NF Unit Unit Nat Nat Nat Nat where
  nfPktParser buffer := (buffer == 1, buffer)
  nfPktDispatcher pkt _ := ⟨0, 0, pkt == 1⟩
  pktHandlers _ _ call := some
    { abort := false, actions := [.dropPkt], globalState := call.globalState
      pkt := call.pkt, localState := none, added := none }
  nfUnknownPktSetHandler _ call := some
    { abort := false, actions := [.sendPkt 1], globalState := call.globalState
      pkt := call.pkt, localState := none, added := none }

def pickyContext : Context Unit Unit Nat Nat Nat Nat where
  nf := pickyNF
  cfg := switchContext.cfg
  mutablePktSetState := false
  device := 0
  pktSetPartition := 0
  now := 0

def pickyPlane : Plane Unit Nat Nat Nat where
  manager := switchPlane.manager
  globalState := ()
  dstDevice := 0
  packet _ := 0
  dstDevices _ := 0
  pktSetState _ := 0
  pktSetStateLog := []
  running := []
  history := []

/-- The packet 1 behind the packet 0 is dropped by the handler for packets without packet
sets. Alone it is sent by the handler for unknown packet sets. -/
theorem unparsed_packet_chooses : ¬ OnlyParsed pickyContext id 2 pickyPlane ∧
    (∃ p', processPkts pickyContext id 2 [⟨id, (), true⟩] pickyPlane = some (p', []) ∧ p'.dstDevices 1 = 0) ∧
    ∃ p', processPkts pickyContext (fun _ => 1) 1 [⟨id, (), true⟩] pickyPlane = some (p', []) ∧ p'.dstDevices 0 = 1 := by
  refine ⟨?_, ⟨_, rfl, rfl⟩, ⟨_, rfl, rfl⟩⟩
  intro only
  have parsed := only.evaluated (fun _ => false) (fun _ => ⟨0, 0, false⟩) [] 0 (by decide)
  contradiction

/-- The packet 1 in front of the packet 0. -/
theorem only_parsed_dispatched_behind : ¬ OnlyParsed pickyContext (1 - ·) 2 pickyPlane ∧
    Unaffected pickyContext (1 - ·) 2 := by
  obtain ⟨iff, _, unaffected⟩ := (only_parsed_dispatched_iff pickyContext).2 (1 - ·) 2 (by decide)
  refine ⟨?_, unaffected rfl⟩
  rw [iff]
  intro all
  exact absurd (all 1 (by decide)) (by decide)

end Removal
end Nfos.DataPlane
