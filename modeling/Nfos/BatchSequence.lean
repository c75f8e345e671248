import Nfos.PacketSequence

/-! A batch without aborts is a sequence of packets. The lookups ahead of the handlers commute
with them, since a handler does not change the map and a lookup only stamps an index. -/
namespace Nfos.DataPlane
open Function PktSetManager ConcurrentDoubleChain Retry
variable {Ω G P S Id B : Type}

section Calm
variable {ctx : Context Ω G P S Id B} {b : Batch Id} {branch : Branch} {n startN endN : Nat} {d : Dispatch Id}
variable {a : Attempt Ω G} {attempts rest : List (Attempt Ω G)} {contention : Ω} {view : G}
variable {p p' q : Plane G P S Id} {done : Bool} {l : List Nat}

/-- All transactions have committed. -/
def Calm (p : Plane G P S Id) : Prop := ∀ v ∈ p.history, v.2 = true

theorem calm_of_history {vs : List (Invocation × Bool)} (history : p'.history = p.history ++ vs) (calm : Calm p') : Calm p := by
  intro v member
  exact calm v (by rw [history]; exact List.mem_append_left _ member)

/-- A handler that aborts has been recorded. -/
theorem handlePkts_abort {before : Nat → Plane G P S Id → Plane G P S Id}
    (ran : handlePkts ctx b branch before contention l view p = some (none, q)) : q.running ≠ [] := by
  induction l generalizing view p with
  | nil => simp [handlePkts] at ran
  | cons n rest ih =>
    simp only [handlePkts, Option.bind_eq_bind, Option.bind_eq_some_iff] at ran
    obtain ⟨⟨outcome, t⟩, invokes, ran⟩ := ran
    obtain ⟨_, rfl⟩ := invoke_eq_some invokes
    split at ran
    · simp only [Option.pure_def, Option.some.injEq, Prod.mk.injEq, true_and] at ran
      subst ran
      simp
    · exact ih ran

/-- A transaction that is not committed leaves its mark. -/
theorem transaction_marks {work : Ω → G → Plane G P S Id → Option (Option G × Plane G P S Id)} (unlocks : a.unlocks = true)
    (records : ∀ view u q, work a.contention view u = some (none, q) → q.running ≠ [])
    (ran : transaction ctx branch work a p = some (false, p')) : ¬ Calm p' := by
  simp only [transaction, Option.bind_eq_bind, Option.bind_eq_some_iff] at ran
  obtain ⟨⟨result, q⟩, worked, ended⟩ := ran
  cases result with
  | some view => simp [unlocks] at ended
  | none =>
    simp only [Option.pure_def, Option.some.injEq, Prod.mk.injEq, true_and] at ended
    subst ended
    obtain ⟨v, member⟩ := List.exists_mem_of_ne_nil _ (records _ _ _ worked)
    obtain ⟨history, _⟩ := abortTxn_frame ctx branch q
    intro calm
    have flag := calm (v, false) (by rw [history]; exact List.mem_append_right _ (List.mem_map_of_mem member))
    contradiction

theorem attemptPkt_marks (unlocks : a.unlocks = true) (ran : attemptPkt ctx branch n d a p = some (false, p')) : ¬ Calm p' := by
  refine transaction_marks unlocks ?_ ran
  intro view u q worked
  simp only [Option.bind_eq_bind, Option.bind_eq_some_iff, Option.pure_def, Option.some.injEq, Prod.mk.injEq] at worked
  obtain ⟨⟨outcome, t⟩, invokes, _, rfl⟩ := worked
  obtain ⟨_, rfl⟩ := invoke_eq_some invokes
  simp

/-- A retry loop without marks has made one attempt. -/
theorem retry_alone {attempt : Attempt Ω G → Plane G P S Id → Option (Bool × Plane G P S Id)}
    (tries : ∀ u done t, u.running = [] → attempt a u = some (done, t) →
      t.running = [] ∧ (∃ vs, t.history = u.history ++ vs) ∧ (done = false → ¬ Calm t))
    (all : ∀ x ∈ attempts, x = a) (idle : p.running = []) (ran : retry attempt attempts p = some (p', rest)) :
    (Calm p' → Calm p) ∧ (Calm p' → attempts = a :: rest ∧ attempt a p = some (true, p')) := by
  have one : ∀ x u done t, x = a → u.running = [] → attempt x u = some (done, t) →
      t.running = [] ∧ (Calm t → Calm u) ∧ (done = false → ¬ Calm t) := by
    rintro _ u done t rfl idle tried
    obtain ⟨running, ⟨vs, history⟩, marks⟩ := tries u done t idle tried
    exact ⟨running, calm_of_history history, marks⟩
  obtain ⟨back, first⟩ := retry_first (P := fun p => p.running = []) one all idle ran
  refine ⟨back, fun calm => ?_⟩
  obtain ⟨x, split, tried⟩ := first calm
  obtain rfl := all x (by simp [split])
  exact ⟨split, tried⟩

theorem retryPkt_alone (unlocks : a.unlocks = true) (all : ∀ x ∈ attempts, x = a) (idle : p.running = [])
    (ran : retry (attemptPkt ctx branch n d) attempts p = some (p', rest)) :
    (Calm p' → Calm p) ∧ (Calm p' → attempts = a :: rest ∧ attemptPkt ctx branch n d a p = some (true, p')) := by
  refine retry_alone (fun u done t idle tried => ?_) all idle ran
  obtain ⟨v, history, _, handles⟩ := attemptPkt_handles idle tried
  refine ⟨handles.running, ⟨_, history⟩, ?_⟩
  rintro rfl
  exact attemptPkt_marks unlocks tried

theorem retryNoPktSet_alone (unlocks : a.unlocks = true) (all : ∀ x ∈ attempts, x = a) (idle : p.running = [])
    (ran : retry (attemptNoPktSet ctx b) attempts p = some (p', rest)) :
    (Calm p' → Calm p) ∧ (Calm p' → attempts = a :: rest ∧ attemptNoPktSet ctx b a p = some (true, p')) := by
  refine retry_alone (fun u done t idle tried => ?_) all idle ran
  obtain ⟨vs, pass⟩ := attemptNoPktSet_tried idle tried
  refine ⟨pass.running, ⟨_, pass.history⟩, ?_⟩
  rintro rfl
  exact transaction_marks unlocks (fun _ _ _ worked => handlePkts_abort worked) tried

theorem retryRegistered_alone (unlocks : a.unlocks = true) (all : ∀ x ∈ attempts, x = a) (idle : p.running = [])
    (ran : retry (attemptRegistered ctx b startN endN) attempts p = some (p', rest)) :
    (Calm p' → Calm p) ∧ (Calm p' → attempts = a :: rest ∧ attemptRegistered ctx b startN endN a p = some (true, p')) := by
  refine retry_alone (fun u done t idle tried => ?_) all idle ran
  obtain ⟨vs, pass⟩ := attemptRegistered_tried idle tried
  refine ⟨pass.running, ⟨_, pass.history⟩, ?_⟩
  rintro rfl
  exact transaction_marks unlocks (fun _ _ _ worked => handlePkts_abort worked) tried

end Calm

section Acts
variable {ctx : Context Ω G P S Id B} {b : Batch Id} {branch : Branch} {n : Nat} {d : Dispatch Id} {pkt : P}
variable {contention : Ω} {view view' : G} {p q : Plane G P S Id} {l : List Nat} {slot : Option Nat}
variable {slots slots' : Nat → Option Nat} {cells : ConcurrentDchainCells Id}

/-- What the packets can see of the memory of a core. -/
def Plane.served (p : Plane G P S Id) : Served G P S Id := ⟨⟨p.manager, p.globalState⟩, p.packet, p.dstDevices⟩

/-- The handler for the packet at a position. -/
def actAt (ctx : Context Ω G P S Id B) (contention : Ω) (b : Batch Id) (branch : Branch) (slots : Nat → Option Nat)
    (s : Served G P S Id) (n : Nat) : Option (Served G P S Id) :=
  (act ctx contention branch (b.dispatch n) (s.packet n) (slots n) s.toShared).map (report n s)

/-- The handlers for the packets at some positions. -/
def actAll (ctx : Context Ω G P S Id B) (contention : Ω) (b : Batch Id) (branch : Branch) (slots : Nat → Option Nat)
    (l : List Nat) (s : Served G P S Id) : Option (Served G P S Id) :=
  l.foldlM (actAt ctx contention b branch slots) s

theorem actAll_cons (s : Served G P S Id) : actAll ctx contention b branch slots (n :: l) s =
    (actAt ctx contention b branch slots s n).bind (actAll ctx contention b branch slots l) := rfl

theorem actAll_congr {s : Served G P S Id} (same : ∀ n ∈ l, slots n = slots' n) :
    actAll ctx contention b branch slots l s = actAll ctx contention b branch slots' l s := by
  unfold actAll
  induction l generalizing s with
  | nil => rfl
  | cons n rest ih =>
    simp only [List.foldlM_cons, actAt, same n (List.mem_cons_self ..)]
    congr 1
    funext t
    exact ih fun m member => same m (List.mem_cons_of_mem _ member)

/-- A pass of a transaction over some packets, none of whose handlers aborts. -/
theorem handlePkts_acts {before : Nat → Plane G P S Id → Plane G P S Id} (prepares : Prepares ctx branch before)
    (packet : ∀ n q, (before n q).packet = q.packet) (slots : ∀ n q, (before n q).pktSetState = q.pktSetState)
    (start : ∀ n ∈ l, ∀ q : Plane G P S Id, q.dstDevices n = p.dstDevices n → (before n q).dstDevice = ctx.device)
    (distinct : l.Nodup) (ran : handlePkts ctx b branch before contention l view p = some (some view', q)) :
    actAll ctx contention b branch (fun n => slotOf branch n p) l { p.served with globalState := view } =
      some { q.served with globalState := view' } := by
  induction l generalizing p view with
  | nil =>
    simp only [handlePkts, Option.pure_def, Option.some.injEq, Prod.mk.injEq] at ran
    obtain ⟨rfl, rfl⟩ := ran
    rfl
  | cons n rest ih =>
    simp only [handlePkts, Option.bind_eq_bind, Option.bind_eq_some_iff] at ran
    obtain ⟨⟨outcome, t⟩, invokes, ran⟩ := ran
    obtain ⟨handled, rfl⟩ := invoke_iff.mp invokes
    obtain ⟨absent, distinct⟩ := List.nodup_cons.mp distinct
    have slot : slotOf branch n (before n p) = slotOf branch n p := by
      unfold slotOf
      rw [slots]
    cases aborts : outcome.abort with
    | true => simp [aborts] at ran
    | false =>
      simp only [aborts, Bool.false_eq_true, if_false] at ran
      have continued := ih (fun m member u unchanged => start m (List.mem_cons_of_mem _ member) u (by
        have other : m ≠ n := fun equal => absent (equal ▸ member)
        rw [unchanged]
        change update (before n p).dstDevices n _ m = _
        rw [update_of_ne other, prepares.dstDevices])) distinct ran
      have first : act ctx contention branch (b.dispatch n) (p.packet n) (slotOf branch n p) ⟨p.manager, view⟩ =
          some (⟨writeBack ctx (slotOf branch n p) outcome p.manager, outcome.globalState⟩, outcome.pkt,
            deliver ctx.device outcome.actions) := by
        refine act_eq_some.mpr ⟨outcome, ?_, aborts, rfl, rfl, rfl⟩
        simpa only [callAt, packet, slot, prepares.manager] using handled
      have left : report n { p.served with globalState := view }
          (⟨writeBack ctx (slotOf branch n p) outcome p.manager, outcome.globalState⟩, outcome.pkt,
            deliver ctx.device outcome.actions) =
          { (Plane.served { invoked ctx branch n (b.dispatch n) outcome (before n p) with
              dstDevices := update (before n p).dstDevices n (deliver (before n p).dstDevice outcome.actions) }) with
            globalState := outcome.globalState } := by
        simp only [report, Plane.served, invoked, slot, packet, prepares.manager, prepares.dstDevices,
          start n (List.mem_cons_self ..) p rfl]
      rw [actAll_cons, actAt]
      change ((act ctx contention branch (b.dispatch n) (p.packet n) (slotOf branch n p) ⟨p.manager, view⟩).map _).bind _ = _
      rw [first, Option.map_some, Option.bind_some, left]
      refine Eq.trans (actAll_congr fun m _ => ?_) continued
      unfold slotOf
      cases branch with
      | noPktSet | unknown => rfl
      | registered => exact congrArg some (congrFun (slots n p).symm m)

theorem writeBack_cells (outcome : Outcome G P S Id) (m : Manager Id S)
    (free : concurrentDchainImplHasFreeIndexes ctx.cfg.numCores cells ctx.pktSetPartition =
      concurrentDchainImplHasFreeIndexes ctx.cfg.numCores m.cells ctx.pktSetPartition) :
    writeBack ctx slot outcome { m with cells := cells } = { writeBack ctx slot outcome m with cells := cells } := by
  unfold writeBack addPktSetLog
  cases outcome.added with
  | none => rfl
  | some added =>
    simp only [free]
    split
    · rfl
    · rfl

/-- Other stamps on the indexes do not matter to a handler. -/
theorem act_cells {s t : Shared G S Id} {result : P × Nat}
    (free : concurrentDchainImplHasFreeIndexes ctx.cfg.numCores cells ctx.pktSetPartition =
      concurrentDchainImplHasFreeIndexes ctx.cfg.numCores s.manager.cells ctx.pktSetPartition)
    (acted : act ctx contention branch d pkt slot { s with manager := { s.manager with cells := cells } } = some (t, result)) :
    ∃ u, act ctx contention branch d pkt slot s = some (u, result) ∧ t = { u with manager := { u.manager with cells := cells } } ∧
      SameCells s.manager u.manager := by
  obtain ⟨outcome, handled, returned, rfl, packet, dst⟩ := act_eq_some.mp acted
  refine ⟨⟨writeBack ctx slot outcome s.manager, outcome.globalState⟩, ?_, ?_, sameCells_writeBack ..⟩
  · refine act_eq_some.mpr ⟨outcome, ?_, returned, rfl, packet, dst⟩
    simpa only [free] using handled
  · rw [writeBack_cells outcome s.manager free]

theorem actAll_cells {s t : Served G P S Id}
    (free : concurrentDchainImplHasFreeIndexes ctx.cfg.numCores cells ctx.pktSetPartition =
      concurrentDchainImplHasFreeIndexes ctx.cfg.numCores s.manager.cells ctx.pktSetPartition)
    (acted : actAll ctx contention b branch slots l { s with manager := { s.manager with cells := cells } } = some t) :
    ∃ u, actAll ctx contention b branch slots l s = some u ∧ t = { u with manager := { u.manager with cells := cells } } ∧
      SameCells s.manager u.manager := by
  induction l generalizing s with
  | nil =>
    obtain rfl := Option.some.inj acted
    exact ⟨s, rfl, rfl, .refl _⟩
  | cons n rest ih =>
    simp only [actAll_cons, Option.bind_eq_some_iff, actAt, Option.map_eq_some_iff] at acted
    obtain ⟨_, ⟨⟨v, result⟩, first, rfl⟩, acted⟩ := acted
    obtain ⟨w, here, rfl, same⟩ := act_cells (s := s.toShared) free first
    obtain ⟨u, continued, rfl, same'⟩ := ih (s := report n s (w, result)) (by
      change _ = concurrentDchainImplHasFreeIndexes ctx.cfg.numCores w.manager.cells ctx.pktSetPartition
      rw [free, same.cells]) acted
    refine ⟨u, ?_, rfl, same.trans same'⟩
    rw [actAll_cons, actAt, here, Option.map_some, Option.bind_some]
    exact continued

theorem sameCells_actAll {s t : Served G P S Id} (acted : actAll ctx contention b branch slots l s = some t) :
    SameCells s.manager t.manager := by
  have free : concurrentDchainImplHasFreeIndexes ctx.cfg.numCores s.manager.cells ctx.pktSetPartition =
      concurrentDchainImplHasFreeIndexes ctx.cfg.numCores s.manager.cells ctx.pktSetPartition := rfl
  obtain ⟨u, _, rfl, same⟩ := actAll_cells free acted
  exact ⟨rfl, same.buckets⟩

/-- A lookup depends on the map only, and changes no more than the stamps. -/
theorem getPktSetState_cells {id : Id} {m m' : Manager Id S} {slot : Option Nat}
    (ran : getPktSetState ctx.cfg id ctx.pktSetPartition ctx.now m = some (slot, m')) :
    m' = { m with cells := m'.cells } ∧ ∀ n : Manager Id S, SameCells m n →
      getPktSetState ctx.cfg id ctx.pktSetPartition ctx.now n = some (slot, { n with cells := m'.cells }) := by
  unfold getPktSetState at ran ⊢
  simp only [Option.bind_eq_bind, Option.bind_eq_some_iff] at ran
  obtain ⟨found, looked, ran⟩ := ran
  have again : ∀ n : Manager Id S, SameCells m n →
      ConcurrentMap.concurrentMapGet ctx.cfg.numCores ctx.cfg.maxNumEntries ctx.cfg.map n.buckets n.cells id ctx.pktSetPartition =
        some found := by
    intro n same
    rw [same.buckets, same.cells, looked]
  cases found with
  | none =>
    obtain ⟨rfl, rfl⟩ := Prod.mk.inj (Option.some.inj ran)
    refine ⟨rfl, fun n same => ?_⟩
    rw [again n same]
    exact congrArg (fun cells => some (none, { n with cells := cells })) same.cells
  | some index =>
    obtain ⟨rfl, rfl⟩ := Prod.mk.inj (Option.some.inj ran)
    refine ⟨rfl, fun n same => ?_⟩
    rw [again n same, ← same.cells]
    rfl

end Acts

section Cursors
variable {ctx : Context Ω G P S Id B} {core : Fin ctx.cfg.numCores} {b : Batch Id} {a : Attempt Ω G}
variable {c c' u : Cursor Ω G P S Id} {s : Served G P S Id}

/-- The packets before the cursor have been served with the result `s`, and the packet set of the
packet at the cursor has been looked up. -/
structure Pending (ctx : Context Ω G P S Id B) (b : Batch Id) (c : Cursor Ω G P S Id) (s : Served G P S Id) : Prop where
  globalState : s.globalState = c.plane.globalState
  packet : s.packet = c.plane.packet
  dstDevices : s.dstDevices = c.plane.dstDevices
  looked : c.n < b.batchSize → getPktSetState ctx.cfg (b.dispatch c.n).pktSetId ctx.pktSetPartition ctx.now s.manager =
    some (if c.regPktSet then some (c.plane.pktSetState c.n) else none, c.plane.manager)
  ended : b.batchSize ≤ c.n → c.plane.manager = s.manager

theorem Pending.ends (pending : Pending ctx b c s) (outside : b.batchSize ≤ c.n) : s = c.plane.served := by
  obtain ⟨⟨manager, globalState⟩, packet, dstDevices⟩ := s
  obtain rfl : globalState = c.plane.globalState := pending.globalState
  obtain rfl : packet = c.plane.packet := pending.packet
  obtain rfl : dstDevices = c.plane.dstDevices := pending.dstDevices
  obtain rfl : c.plane.manager = manager := pending.ended outside
  rfl

theorem lookup_pending (ran : lookup ctx b c = some c') : Pending ctx b c' c.plane.served := by
  unfold lookup at ran
  split at ran
  · rename_i within
    simp only [Option.bind_eq_bind, Option.bind_eq_some_iff] at ran
    obtain ⟨⟨slot, manager⟩, found, ran⟩ := ran
    cases slot with
    | none =>
      obtain rfl := Option.some.inj ran
      exact ⟨rfl, rfl, rfl, fun _ => found, fun outside => absurd within (Nat.not_lt_of_le outside)⟩
    | some slot =>
      obtain rfl := Option.some.inj ran
      refine ⟨rfl, rfl, rfl, fun _ => ?_, fun outside => absurd within (Nat.not_lt_of_le outside)⟩
      simpa [Plane.served] using found
  · rename_i outside
    obtain rfl := Option.some.inj ran
    exact ⟨rfl, rfl, rfl, fun within => absurd within outside, fun _ => rfl⟩

/-- A lookup keeps the lists and the map intact. -/
theorem lookup_intact (fits : ctx.cfg.Fits) (lawful : ctx.cfg.Lawful) (here : ctx.pktSetPartition = core.val)
    (intact : Intact ctx.cfg c.plane.manager) (ran : lookup ctx b c = some c') : Intact ctx.cfg c'.plane.manager ∧
      concurrentDchainImplHasFreeIndexes ctx.cfg.numCores c'.plane.manager.cells ctx.pktSetPartition =
        concurrentDchainImplHasFreeIndexes ctx.cfg.numCores c.plane.manager.cells ctx.pktSetPartition := by
  unfold lookup at ran
  split at ran
  · obtain ⟨slot, cells, found, intact', free⟩ := intact.lookup fits lawful here (b.dispatch c.n).pktSetId
    rw [found] at ran
    cases slot with
    | none =>
      obtain rfl := Option.some.inj ran
      exact ⟨intact', free⟩
    | some slot =>
      obtain rfl := Option.some.inj ran
      exact ⟨intact', free⟩
  · obtain rfl := Option.some.inj ran
    exact ⟨intact, rfl⟩

/-- What a part of the loop over a batch does, if no handler aborts: the packets that it goes
through are served one after the other. -/
structure Follows (ctx : Context Ω G P S Id B) (a : Attempt Ω G) (b : Batch Id) (c c' : Cursor Ω G P S Id) : Prop where
  calm : Calm c'.plane → Calm c.plane
  attempts : ∀ x ∈ c'.attempts, x = a
  intact : Calm c'.plane → Intact ctx.cfg c.plane.manager → Intact ctx.cfg c'.plane.manager
  further : c.n < c'.n
  serves : Calm c'.plane → Intact ctx.cfg c.plane.manager → ∀ s, Pending ctx b c s →
    ∃ t, serveAll ctx a.contention b (parsedIn b c.n c'.n) s = some t ∧ Pending ctx b c' t

/-- An unknown packet set: the handler and the registration are those of the packet alone. -/
theorem handleUnknown_follows (fits : ctx.cfg.Fits) (lawful : ctx.cfg.Lawful) (here : ctx.pktSetPartition = core.val)
    (stateful : ∀ i < b.batchSize, (b.dispatch i).hasPktSetState = true) (alone : a.others = id) (unlocks : a.unlocks = true)
    (all : ∀ x ∈ c.attempts, x = a) (inv : AtCursor ctx b c) (within : c.n < b.batchSize) (unregistered : c.regPktSet = false)
    (ran : handleUnknown ctx b c = some c') : Follows ctx a b c c' := by
  simp only [handleUnknown, Option.bind_eq_bind, Option.bind_eq_some_iff] at ran
  obtain ⟨⟨p, rest⟩, retried, manager, stored, ran⟩ := ran
  obtain ⟨back, first⟩ := retryPkt_alone (p := { c.plane with dstDevice := ctx.device }) unlocks all inv.progress.running retried
  obtain ⟨failed, _, _, split, _⟩ := retry_eq_some retried
  have looked := lookup_looked ran
  have history : c'.plane.history = p.history := looked.history
  have calm' : Calm c'.plane → Calm p := fun calm v member => calm v (history ▸ member)
  constructor
  case calm => exact fun calm => back (calm' calm)
  case attempts =>
    intro x member
    rw [looked.attempts] at member
    exact all x (by rw [split]; exact List.mem_append_right _ (List.mem_cons_of_mem _ member))
  case intact =>
    intro calm intact
    obtain ⟨_, attempted⟩ := first (calm' calm)
    obtain ⟨outcome, _, _, _, rfl⟩ := (attemptPkt_iff alone).mp attempted
    have answer := inv.answer
    rw [unregistered, decide_eq_true within, Bool.true_and] at answer
    obtain ⟨manager', stored', intact'⟩ := intact.commit fits lawful here answer.symm outcome ctx.now
    obtain rfl : manager = manager' := Option.some.inj (stored.symm.trans stored')
    exact (lookup_intact fits lawful here (by exact intact') ran).1
  case further =>
    rw [looked.n]
    exact (nextPkt_next b c.n).above
  case serves =>
    intro calm _ s pending
    obtain ⟨_, attempted⟩ := first (calm' calm)
    obtain ⟨pkt, acted, packet, dstDevices⟩ := act_of_attemptPkt alone rfl attempted
    have found := pending.looked within
    rw [unregistered] at found
    have served : serve ctx a.contention (b.dispatch c.n) (s.packet c.n) s.toShared =
        some (⟨manager, p.globalState⟩, pkt, p.dstDevice) := by
      simp only [serve, stateful c.n within, Bool.not_true, Bool.false_eq_true, if_false, found, Option.bind_eq_bind,
        Option.bind_some]
      rw [pending.packet, pending.globalState]
      have ran : act ctx a.contention .unknown (b.dispatch c.n) (c.plane.packet c.n) none
        ⟨addPktSetLogClear ctx.pktSetPartition c.plane.manager, c.plane.globalState⟩ = some _ := acted
      simp [ran, stored]
    have reported : report c.n s (⟨manager, p.globalState⟩, pkt, p.dstDevice) =
        Plane.served { p with manager := manager, dstDevices := update p.dstDevices c.n p.dstDevice } := by
      simp only [report, Plane.served, packet, dstDevices, pending.packet, pending.dstDevices]
    have next := nextPkt_next b c.n
    have single : parsedIn b c.n c'.n = [c.n] := by
      rw [looked.n, parsedIn_cons next.above (inv.parsed within), parsedIn_eq_nil next.skipped]
    refine ⟨_, ?_, lookup_pending ran⟩
    simp only [single, serveAll, List.foldlM_cons, List.foldlM_nil, serveAt, served, Option.map_some, reported]
    rfl

def Plane.put (s : Served G P S Id) (p : Plane G P S Id) : Plane G P S Id :=
  { p with manager := s.manager, globalState := s.globalState, packet := s.packet, dstDevices := s.dstDevices }

/-- The lookups ahead from the cursor `c` to the cursor `u`: the handlers that run behind them
leave what the packets leave one after the other. -/
structure Deferred (ctx : Context Ω G P S Id B) (contention : Ω) (b : Batch Id) (c : Cursor Ω G P S Id) (s : Served G P S Id)
    (u : Cursor Ω G P S Id) : Prop where
  ahead : Ahead ctx b c u
  intact : Intact ctx.cfg u.plane.manager
  attempts : u.attempts = c.attempts
  defers : ∀ slots t, (∀ n ∈ parsedIn b c.n u.n, slots n = some (u.plane.pktSetState n)) →
    actAll ctx contention b .registered slots (parsedIn b c.n u.n) u.plane.served = some t →
    ∃ r, serveAll ctx contention b (parsedIn b c.n u.n) s = some r ∧ Pending ctx b { u with plane := u.plane.put t } r

/-- A lookup ahead, before the handlers of the packets in front of it. -/
theorem Deferred.step (fits : ctx.cfg.Fits) (lawful : ctx.cfg.Lawful) (here : ctx.pktSetPartition = core.val)
    (stateful : ∀ i < b.batchSize, (b.dispatch i).hasPktSetState = true)
    {contention : Ω} {t : Cursor Ω G P S Id} (deferred : Deferred ctx contention b c s u) (more : u.regPktSet = true)
    (stepped : advance ctx b u = some t) : Deferred ctx contention b c s t := by
  have ahead := deferred.ahead
  have answer := ahead.answer
  rw [more, eq_comm, Bool.and_eq_true, decide_eq_true_eq] at answer
  obtain ⟨within, _⟩ := answer
  have looked := lookup_looked stepped
  have next := nextPkt_next b u.n
  have pending := lookup_pending stepped
  obtain ⟨intact, free⟩ := lookup_intact (c := { u with n := nextPkt b u.n }) fits lawful here deferred.intact stepped
  have range : parsedIn b c.n t.n = parsedIn b c.n u.n ++ [u.n] := by
    have above := next.above
    rw [looked.n, ← parsedIn_append ahead.above (by dsimp only; omega),
      parsedIn_cons (show u.n < nextPkt b u.n by omega) (ahead.parsed within), parsedIn_eq_nil next.skipped]
  have further : ∀ n ∈ parsedIn b c.n t.n, n ≠ nextPkt b u.n := by
    intro n member
    have below := (mem_parsedIn.mp member).2.1
    rw [looked.n] at below
    exact Nat.ne_of_lt below
  refine ⟨ahead.step more stepped, intact, looked.attempts.trans deferred.attempts, ?_⟩
  intro slots v known acted
  have stamped : t.plane.manager = { u.plane.manager with cells := t.plane.manager.cells } := by
    rcases Nat.lt_or_ge t.n b.batchSize with inside | outside
    · exact (getPktSetState_cells (pending.looked inside)).1
    · rw [pending.ended outside]
      rfl
  have start : t.plane.served = { u.plane.served with manager := { u.plane.served.manager with cells := t.plane.manager.cells } } := by
    simp only [Plane.served, ← stamped]
    rw [← pending.packet, ← pending.globalState, ← pending.dstDevices]
    rfl
  rw [start] at acted
  obtain ⟨v', ran, rfl, same⟩ := actAll_cells free acted
  -- The handlers of the packets in front of the one at `u`, then its own handler.
  rw [range, actAll, List.foldlM_append] at ran
  simp only [Option.bind_eq_bind, Option.bind_eq_some_iff, List.foldlM_cons, List.foldlM_nil, Option.pure_def, Option.some.injEq,
    exists_eq_right] at ran
  obtain ⟨w, before, ran⟩ := ran
  obtain ⟨r, served, pending'⟩ := deferred.defers slots w (fun n member => by
    have member' : n ∈ parsedIn b c.n t.n := range ▸ List.mem_append_left _ member
    rw [known n member', lookup_slots stepped (further n member')]) before
  have found := pending'.looked within
  have last : u.n ∈ parsedIn b c.n t.n := range ▸ List.mem_append_right _ (List.mem_singleton_self _)
  have slot : slots u.n = some (u.plane.pktSetState u.n) := by rw [known u.n last, lookup_slots stepped (further u.n last)]
  rw [actAt, Option.map_eq_some_iff] at ran
  obtain ⟨result, ran, rfl⟩ := ran
  have packet : r.packet = w.packet := pending'.packet
  have globalState : r.globalState = w.globalState := pending'.globalState
  have dstDevices : r.dstDevices = w.dstDevices := pending'.dstDevices
  have one : serveAt ctx contention b r u.n = some (report u.n w result) := by
    rw [slot] at ran
    have stated : serve ctx contention (b.dispatch u.n) (r.packet u.n) r.toShared = some result := by
      simp only [serve, stateful u.n within, Bool.not_true, Bool.false_eq_true, if_false, found, more, if_true, Option.bind_eq_bind,
        Option.bind_some]
      rw [packet, globalState]
      exact ran
    rw [serveAt, stated, Option.map_some, report, report, packet, dstDevices]
  refine ⟨report u.n w result, ?_, rfl, rfl, rfl, ?_, ?_⟩
  · rw [range, serveAll, List.foldlM_append]
    change (serveAll ctx contention b (parsedIn b c.n u.n) s).bind _ = _
    rw [served, Option.bind_some, List.foldlM_cons, one]
    rfl
  · intro inside
    exact (getPktSetState_cells (pending.looked inside)).2 _ same
  · intro outside
    have unchanged : t.plane.manager.cells = (report u.n w result).manager.cells := by
      rw [pending.ended outside, same.cells]
    exact congrArg (fun cells => { (report u.n w result).manager with cells := cells }) unchanged

theorem attemptRegistered_acts {startN endN : Nat} {p p' : Plane G P S Id} (alone : a.others = id)
    (distinct : (positions b endN b.batchSize startN).Nodup) (ran : attemptRegistered ctx b startN endN a p = some (true, p')) :
    actAll ctx a.contention b .registered (fun n => some (p.pktSetState n)) (positions b endN b.batchSize startN) p.served =
      some p'.served := by
  have packet : ∀ n (q : Plane G P S Id), (beforeRegistered ctx n q).packet = q.packet := by
    intro n q
    simp only [beforeRegistered]
    split <;> rfl
  have slots : ∀ n (q : Plane G P S Id), (beforeRegistered ctx n q).pktSetState = q.pktSetState := by
    intro n q
    simp only [beforeRegistered]
    split <;> rfl
  have acts : ∀ q : Plane G P S Id, transaction ctx .registered (fun contention => handlePkts ctx b .registered (beforeRegistered ctx) contention
      (positions b endN b.batchSize startN)) a q = some (true, p') →
      actAll ctx a.contention b .registered (fun n => some (q.pktSetState n)) (positions b endN b.batchSize startN) q.served =
        some p'.served := by
    intro q ran
    obtain ⟨view, u, worked, _, rfl⟩ := transaction_done ran
    rw [alone] at worked
    have acted := handlePkts_acts prepares_registered packet slots (fun _ _ _ _ => rfl) distinct worked
    exact acted
  unfold attemptRegistered at ran
  split at ran
  · exact acts (resetLogPktSetState p) ran
  · exact acts p ran

/-- Registered packet sets: the handlers behind the lookups ahead are those of the packets alone. -/
theorem handleRegistered_follows (fits : ctx.cfg.Fits) (lawful : ctx.cfg.Lawful) (here : ctx.pktSetPartition = core.val)
    (stateful : ∀ i < b.batchSize, (b.dispatch i).hasPktSetState = true) (alone : a.others = id) (unlocks : a.unlocks = true)
    (all : ∀ x ∈ c.attempts, x = a) (inv : AtCursor ctx b c) (within : c.n < b.batchSize) (registered : c.regPktSet = true)
    (ran : handleRegistered ctx b c = some c') : Follows ctx a b c c' := by
  simp only [handleRegistered, Option.bind_eq_bind, Option.bind_eq_some_iff, Option.pure_def,
    Option.some.injEq] at ran
  obtain ⟨u, looked, ⟨p, rest⟩, retried, rfl⟩ := ran
  obtain ⟨ahead, stopped⟩ := lookAhead_ahead inv looked
  have further := ahead.further inv registered stopped
  have range := positions_eq further (inv.parsed within) ahead.bound (Nat.le_add_left_of_le ahead.bound)
  have attempts : u.attempts = c.attempts := by
    refine (Loop.loop_rule (fun u => u.attempts = c.attempts) ?_ rfl looked).1
    intro v w same _ stepped
    exact (lookup_looked stepped).attempts.trans same
  have idle : u.plane.running = [] := ahead.running.trans inv.progress.running
  obtain ⟨back, first⟩ := retryRegistered_alone unlocks (attempts ▸ all) idle retried
  obtain ⟨failed, _, _, split, _⟩ := retry_eq_some retried
  have acts (calm : Calm p) := (attemptRegistered_acts alone (range ▸ nodup_parsedIn) (first calm).2)
  have deferred (intact : Intact ctx.cfg c.plane.manager) (s : Served G P S Id) (pending : Pending ctx b c s) :
      Deferred ctx a.contention b c s u := by
    have empty : parsedIn b c.n c.n = [] := parsedIn_eq_nil fun i low high => by omega
    refine (Loop.loop_rule (Deferred ctx a.contention b c s)
      (fun _ _ deferred more stepped => deferred.step fits lawful here stateful more stepped)
      ⟨inv.ahead, intact, rfl, ?_⟩ looked).1
    intro slots t _ acted
    rw [empty] at acted ⊢
    obtain rfl := Option.some.inj acted
    exact ⟨s, rfl, pending⟩
  constructor
  case calm =>
    intro calm v member
    exact back calm v (ahead.history ▸ member)
  case attempts =>
    intro x member
    exact all x (by rw [← attempts, split]; exact List.mem_append_right _ (List.mem_cons_of_mem _ member))
  case intact =>
    intro calm intact
    have before : Intact ctx.cfg u.plane.manager :=
      (Loop.loop_rule (fun u => Intact ctx.cfg u.plane.manager)
        (fun v _ intact _ stepped => (lookup_intact (c := { v with n := nextPkt b v.n }) fits lawful here intact stepped).1)
        intact looked).1
    exact (sameCells_actAll (acts calm)).intact before
  case further => exact further
  case serves =>
    intro calm intact s pending
    have acted := acts calm
    rw [range] at acted
    obtain ⟨t, served, pending'⟩ := (deferred intact s pending).defers _ _ (fun _ _ => rfl) acted
    refine ⟨t, served, pending'.globalState, pending'.packet, pending'.dstDevices, ?_, pending'.ended⟩
    intro inside
    have found := pending'.looked inside
    simp only [stopped, Bool.false_eq_true, if_false] at found ⊢
    exact found

end Cursors

section Batches
variable {ctx : Context Ω G P S Id B} {core : Fin ctx.cfg.numCores} {b : Batch Id} {a : Attempt Ω G}
variable {p p' : Plane G P S Id} {attempts rest : List (Attempt Ω G)}

theorem handleNext_follows (fits : ctx.cfg.Fits) (lawful : ctx.cfg.Lawful) (here : ctx.pktSetPartition = core.val)
    (stateful : ∀ i < b.batchSize, (b.dispatch i).hasPktSetState = true) (alone : a.others = id) (unlocks : a.unlocks = true)
    {c c' : Cursor Ω G P S Id} (all : ∀ x ∈ c.attempts, x = a) (inv : AtCursor ctx b c) (within : c.n < b.batchSize)
    (ran : handleNext ctx b c = some c') : Follows ctx a b c c' := by
  unfold handleNext at ran
  cases registered : c.regPktSet with
  | false =>
    simp only [registered, Bool.not_false, if_true] at ran
    exact handleUnknown_follows fits lawful here stateful alone unlocks all inv within registered ran
  | true =>
    simp only [registered, Bool.not_true, Bool.false_eq_true, if_false] at ran
    exact handleRegistered_follows fits lawful here stateful alone unlocks all inv within registered ran

/-- The loop over the batch, up to the cursor. -/
structure Serving (ctx : Context Ω G P S Id B) (a : Attempt Ω G) (b : Batch Id) (start : Served G P S Id)
    (c : Cursor Ω G P S Id) : Prop where
  inv : AtCursor ctx b c
  attempts : ∀ x ∈ c.attempts, x = a
  intact : Calm c.plane → Intact ctx.cfg c.plane.manager
  served : Calm c.plane → ∃ s, serveAll ctx a.contention b (parsedIn b 0 c.n) start = some s ∧ Pending ctx b c s

theorem serveAll_append (contention : Ω) (l k : List Nat) (s : Served G P S Id) :
    serveAll ctx contention b (l ++ k) s = (serveAll ctx contention b l s).bind (serveAll ctx contention b k) :=
  List.foldlM_append ..

/-- With packet sets. -/
theorem handleBatch_stateful (fits : ctx.cfg.Fits) (lawful : ctx.cfg.Lawful) (here : ctx.pktSetPartition = core.val)
    (stateful : ∀ i < b.batchSize, (b.dispatch i).hasPktSetState = true) (alone : a.others = id) (unlocks : a.unlocks = true)
    (all : ∀ x ∈ attempts, x = a) (idle : p.running = []) (fresh : p.history = [])
    (dropped : ∀ i < b.batchSize, p.dstDevices i = ctx.device) (intact : Intact ctx.cfg p.manager)
    (decided : (b.dispatch 0).hasPktSetState = true) (ran : handleBatch ctx b attempts p = some (p', rest)) (calm : Calm p') :
    serveAll ctx a.contention b (parsedIn b 0 b.batchSize) p.served = some p'.served := by
  simp only [handleBatch, decided, Bool.not_true, Bool.false_eq_true, if_false, Option.bind_eq_bind,
    Option.bind_eq_some_iff, Option.pure_def, Option.some.injEq, Prod.mk.injEq] at ran
  obtain ⟨c, looked, u, looped, rfl, rfl⟩ := ran
  have none : Progress ctx b (Proper b) 0 p := by
    constructor <;> simp [idle, fresh, parsedIn]
    exact dropped
  have first := firstPkt_next b
  have start : Serving ctx a b p.served c := by
    have same := lookup_looked looked
    refine ⟨same.atCursor first (Nat.zero_le _) none, ?_, fun _ => ?_, fun _ => ⟨p.served, ?_, lookup_pending looked⟩⟩
    · rw [same.attempts]
      exact all
    · exact (lookup_intact (c := ⟨firstPkt b, false, p, attempts⟩) fits lawful here intact looked).1
    · rw [same.n, parsedIn_eq_nil first.skipped]
      rfl
  obtain ⟨serving, stopped⟩ := Loop.loop_rule (Serving ctx a b p.served) (by
    intro v w serving more stepped
    have within := of_decide_eq_true more
    have follows := handleNext_follows fits lawful here stateful alone unlocks serving.attempts serving.inv within stepped
    have inv := handleNext_atCursor serving.inv within stepped
    refine ⟨inv, follows.attempts, fun calm => follows.intact calm (serving.intact (follows.calm calm)), fun calm => ?_⟩
    obtain ⟨s, served, pending⟩ := serving.served (follows.calm calm)
    obtain ⟨t, served', pending'⟩ := follows.serves calm (serving.intact (follows.calm calm)) s pending
    refine ⟨t, ?_, pending'⟩
    rw [← parsedIn_append (Nat.zero_le v.n) follows.further.le, serveAll_append, served]
    exact served') start looped
  have ended := of_decide_eq_false stopped
  have bound := serving.inv.bound
  obtain ⟨s, served, pending⟩ := serving.served calm
  have last : u.n = b.batchSize := by omega
  rw [last] at served
  rw [served]
  exact congrArg some (pending.ends last.ge)

theorem serveAll_noPktSet (contention : Ω) {l : List Nat} (stateless : ∀ n ∈ l, (b.dispatch n).hasPktSetState = false)
    (s : Served G P S Id) : serveAll ctx contention b l s = actAll ctx contention b .noPktSet (fun _ => none) l s := by
  induction l generalizing s with
  | nil => rfl
  | cons n rest ih =>
    have one : serveAt ctx contention b s n = actAt ctx contention b .noPktSet (fun _ => none) s n := by
      simp [serveAt, serve, actAt, stateless n (List.mem_cons_self ..)]
    have others := fun t : Served G P S Id => ih (fun m member => stateless m (List.mem_cons_of_mem _ member)) t
    rw [actAll_cons, ← one, serveAll, List.foldlM_cons]
    exact congrArg _ (funext others)

/-- Without packet sets. -/
theorem handleBatch_stateless (stateless : ∀ i < b.batchSize, (b.dispatch i).hasPktSetState = false) (alone : a.others = id)
    (unlocks : a.unlocks = true) (all : ∀ x ∈ attempts, x = a) (idle : p.running = [])
    (dropped : ∀ i < b.batchSize, p.dstDevices i = ctx.device) (decided : (b.dispatch 0).hasPktSetState = false)
    (ran : handleBatch ctx b attempts p = some (p', rest)) (calm : Calm p') :
    serveAll ctx a.contention b (parsedIn b 0 b.batchSize) p.served = some p'.served := by
  simp only [handleBatch, decided, Bool.not_false, if_true] at ran
  obtain ⟨_, attempted⟩ := (retryNoPktSet_alone unlocks all idle ran).2 calm
  obtain ⟨view, q, worked, _, rfl⟩ := transaction_done attempted
  have whole : (List.range b.batchSize).filter b.parseRes = parsedIn b 0 b.batchSize := by
    rw [parsedIn, List.range_eq_range', Nat.sub_zero]
  rw [alone, whole] at worked
  have acted := handlePkts_acts prepares_noPktSet (fun _ _ => rfl) (fun _ _ => rfl)
    (fun n member q unchanged => unchanged.trans (dropped n (mem_parsedIn.mp member).2.1)) nodup_parsedIn worked
  rw [serveAll_noPktSet _ fun n member => stateless n (mem_parsedIn.mp member).2.1]
  exact acted

/-- What a batch without aborts leaves is what its packets leave one after the other. -/
theorem handleBatch_serves (fits : ctx.cfg.Fits) (lawful : ctx.cfg.Lawful) (here : ctx.pktSetPartition = core.val)
    (uniform : ∀ i < b.batchSize, (b.dispatch i).hasPktSetState = (b.dispatch 0).hasPktSetState) (alone : a.others = id)
    (unlocks : a.unlocks = true) (all : ∀ x ∈ attempts, x = a) (idle : p.running = []) (fresh : p.history = [])
    (dropped : ∀ i < b.batchSize, p.dstDevices i = ctx.device) (intact : Intact ctx.cfg p.manager)
    (ran : handleBatch ctx b attempts p = some (p', rest)) (calm : Calm p') :
    serveAll ctx a.contention b (parsedIn b 0 b.batchSize) p.served = some p'.served := by
  cases decided : (b.dispatch 0).hasPktSetState with
  | false =>
    rw [decided] at uniform
    exact handleBatch_stateless uniform alone unlocks all idle dropped decided ran calm
  | true =>
    rw [decided] at uniform
    exact handleBatch_stateful fits lawful here uniform alone unlocks all idle fresh dropped intact decided ran calm

/-- The packets that are served one after the other are those of the unbatched variant. -/
theorem processEach_of_serveAll {mbufs : Nat → B} {k : Nat} {start : Served G P S Id} (alone : a.others = id)
    (unlocks : a.unlocks = true) (manager : start.manager = p.manager) (globalState : start.globalState = p.globalState)
    (packet : ∀ i < k, start.packet i = (ctx.nf.nfPktParser (mbufs i)).2) (dropped : ∀ i < k, start.dstDevices i = ctx.device)
    {j : Nat} (within : j ≤ k) {s : Served G P S Id}
    (served : serveAll ctx a.contention (parseBatch ctx mbufs k) (parsedIn (parseBatch ctx mbufs k) 0 j) start = some s) :
    ∃ q, processEach ctx a mbufs j p = some (q, (List.range j).map fun i => (s.packet i, s.dstDevices i)) ∧
      q.manager = s.manager ∧ q.globalState = s.globalState ∧
      ∀ i, j ≤ i → s.packet i = start.packet i ∧ s.dstDevices i = start.dstDevices i := by
  induction j generalizing s with
  | zero =>
    obtain rfl := Option.some.inj served
    exact ⟨p, rfl, manager.symm, globalState.symm, fun _ _ => ⟨rfl, rfl⟩⟩
  | succ j ih =>
    rw [← parsedIn_append (Nat.zero_le j) (Nat.le_succ j), serveAll_append, Option.bind_eq_some_iff] at served
    obtain ⟨t, before, served⟩ := served
    obtain ⟨q, processed, manager, globalState, untouched⟩ := ih (Nat.le_of_succ_le within) before
    obtain ⟨content, destination⟩ := untouched j le_rfl
    rw [packet j within] at content
    rw [dropped j within] at destination
    cases parser : ctx.nf.nfPktParser (mbufs j) with
    | mk parseRes pkt =>
      rw [parser] at content
      cases parseRes with
      | false =>
        have none : parsedIn (parseBatch ctx mbufs k) j (j + 1) = [] := by
          refine parsedIn_eq_nil fun i low high => ?_
          obtain rfl : i = j := by omega
          exact congrArg Prod.fst parser
        rw [none] at served
        obtain rfl := Option.some.inj served
        refine ⟨FwNat.parsed ctx pkt q, ?_, manager, globalState, fun i above => untouched i (Nat.le_of_succ_le above)⟩
        simp [processEach, processed, FwNat.processPkt_unparsed parser, FwNat.parsed, List.range_succ, content, destination]
      | true =>
        have one : parsedIn (parseBatch ctx mbufs k) j (j + 1) = [j] := by
          rw [parsedIn_cons (Nat.lt_succ_self j) (congrArg Prod.fst parser), parsedIn_eq_nil]
          intro i low high
          omega
        have dispatch : (parseBatch ctx mbufs k).dispatch j = ctx.nf.nfPktDispatcher pkt ctx.device := by
          simp only [parseBatch, parser]
        rw [one] at served
        simp only [serveAll, List.foldlM_cons, List.foldlM_nil, serveAt, Option.bind_eq_bind, Option.bind_eq_some_iff,
          Option.map_eq_some_iff, Option.pure_def, Option.some.injEq, exists_eq_right] at served
        obtain ⟨⟨shared, pkt', dst⟩, served, rfl⟩ := served
        rw [dispatch, content] at served
        have state : t.toShared = ⟨q.manager, q.globalState⟩ := by rw [manager, globalState]
        rw [state] at served
        obtain ⟨q', rest, processed', manager', globalState', packet'⟩ := processPkt_of_serve alone unlocks parser served
        refine ⟨q', ?_, manager', globalState', ?_⟩
        · have others : (List.range j).map (fun i => (update t.packet j pkt' i, update t.dstDevices j dst i)) =
              (List.range j).map fun i => (t.packet i, t.dstDevices i) := by
            refine List.map_congr_left fun i member => ?_
            have other : i ≠ j := Nat.ne_of_lt (List.mem_range.mp member)
            rw [update_of_ne other, update_of_ne other]
          simp [processEach, processed, processed', packet', List.range_succ, report, others]
        · intro i above
          obtain ⟨same, same'⟩ := untouched i (Nat.le_of_succ_le above)
          have other : i ≠ j := Nat.ne_of_gt above
          exact ⟨(update_of_ne other ..).trans same, (update_of_ne other ..).trans same'⟩

end Batches
end Nfos.DataPlane
