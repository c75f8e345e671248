import Nfos.DataPlane

/-! The handler invocations of the retry loops: which packets they are for, what they
leave as destinations, and that they do not change the map of the packet sets. -/
namespace Nfos.DataPlane
open Function PktSetManager ConcurrentDoubleChain CellData Run Retry
variable {Ω G P S Id B : Type}

/-- The effect of an invocation on the destination that is reported for its packet. A
handler of a registered packet set starts from the default; the calls for an unknown
packet set count even if its handler aborts. -/
def settle (device dst : Nat) (v : Invocation) : Nat :=
  match v.branch with
  | .noPktSet => if v.abort then dst else deliver dst v.actions
  | .registered => if v.abort then dst else deliver device v.actions
  | .unknown => deliver dst v.actions

/-- The invocations for the packet at a position. -/
def invocationsAt (i : Nat) (vs : List Invocation) : List Invocation := vs.filter (·.position = i)

@[simp] theorem invocationsAt_nil (i : Nat) : invocationsAt i [] = [] := rfl

theorem invocationsAt_append (i : Nat) (vs ws : List Invocation) : invocationsAt i (vs ++ ws) = invocationsAt i vs ++ invocationsAt i ws :=
  List.filter_append vs ws

theorem invocationsAt_eq_nil {i : Nat} {vs : List Invocation} (absent : ∀ v ∈ vs, v.position ≠ i) : invocationsAt i vs = [] := by
  simpa [invocationsAt, List.filter_eq_nil_iff] using absent

/-- The map of the packet sets is the same. -/
structure SameMap (m m' : Manager Id S) : Prop where
  buckets : m'.buckets = m.buckets
  ids : idOf m'.cells = idOf m.cells
  nexts : mapChainNextOf m'.cells = mapChainNextOf m.cells

theorem SameMap.refl (m : Manager Id S) : SameMap m m := ⟨rfl, rfl, rfl⟩

theorem SameMap.trans {a b c : Manager Id S} (first : SameMap a b) (second : SameMap b c) : SameMap a c :=
  ⟨second.buckets.trans first.buckets, second.ids.trans first.ids, second.nexts.trans first.nexts⟩

/-- What an invocation for a packet of the batch records. -/
structure Records (ctx : Context Ω G P S Id B) (b : Batch Id) (branch : Branch) (m : Manager Id S)
    (v : Invocation) : Prop where
  branch : v.branch = branch
  pktClass : v.pktClass = (b.dispatch v.position).pktClass
  registered : v.registered = isRegistered ctx (b.dispatch v.position).pktSetId m

section Pass
variable {ctx : Context Ω G P S Id B} {b : Batch Id} {branch : Branch} {contention : Ω} {view : G}
variable {p p' q : Plane G P S Id} {m m' : Manager Id S} {l : List Nat} {a : Attempt Ω G}

theorem isRegistered_congr (same : SameMap m m') (id : Id) :
    isRegistered ctx id m' = isRegistered ctx id m := by
  simp only [isRegistered, ConcurrentMap.concurrentMapGet, same.buckets, same.ids, same.nexts]

theorem Records.of_same {v : Invocation} (records : Records ctx b branch m' v) (same : SameMap m m') :
    Records ctx b branch m v :=
  ⟨records.branch, records.pktClass, records.registered.trans (isRegistered_congr same _)⟩

theorem sameMap_writeBack (ctx : Context Ω G P S Id B) (slot : Option Nat) (outcome : Outcome G P S Id) (m : Manager Id S) :
    SameMap m (writeBack ctx slot outcome m) := by
  unfold writeBack addPktSetLog
  cases outcome.added with
  | none => exact ⟨rfl, rfl, rfl⟩
  | some added =>
    dsimp only
    split
    · exact ⟨rfl, rfl, rfl⟩
    · exact ⟨rfl, rfl, rfl⟩

/-- What the loops do before a handler: only the default destination matters. -/
structure Prepares (ctx : Context Ω G P S Id B) (branch : Branch)
    (before : Nat → Plane G P S Id → Plane G P S Id) : Prop where
  manager : ∀ n p, (before n p).manager = p.manager
  running : ∀ n p, (before n p).running = p.running
  history : ∀ n p, (before n p).history = p.history
  dstDevices : ∀ n p, (before n p).dstDevices = p.dstDevices
  settles : ∀ n p v, v.branch = branch → v.abort = false →
    deliver (before n p).dstDevice v.actions = settle ctx.device (p.dstDevices n) v

theorem prepares_noPktSet : Prepares ctx .noPktSet beforeNoPktSet where
  manager _ _ := rfl
  running _ _ := rfl
  history _ _ := rfl
  dstDevices _ _ := rfl
  settles n p v kind returned := by simp [settle, kind, returned, beforeNoPktSet]

theorem prepares_registered : Prepares ctx .registered (beforeRegistered ctx) where
  manager n p := by simp only [beforeRegistered]; split <;> rfl
  running n p := by simp only [beforeRegistered]; split <;> rfl
  history n p := by simp only [beforeRegistered]; split <;> rfl
  dstDevices n p := by simp only [beforeRegistered]; split <;> rfl
  settles n p v kind returned := by simp [settle, kind, returned, beforeRegistered]

/-- What the handlers of one transaction did, `done` if none of them aborted. -/
structure Passed (ctx : Context Ω G P S Id B) (b : Batch Id) (branch : Branch) (l : List Nat)
    (p p' : Plane G P S Id) (vs : List Invocation) (done : Bool) : Prop where
  running : p'.running = p.running ++ vs
  history : p'.history = p.history
  order : vs.map Invocation.position <+: l
  records : ∀ v ∈ vs, Records ctx b branch p.manager v
  returned : done = true → vs.map Invocation.position = l ∧ ∀ v ∈ vs, v.abort = false
  destination : ∀ i, p'.dstDevices i = (invocationsAt i vs).foldl (settle ctx.device) (p.dstDevices i)
  map : SameMap p.manager p'.manager

theorem handlePkts_passed {before : Nat → Plane G P S Id → Plane G P S Id} (known : branch ≠ .unknown)
    (prepares : Prepares ctx branch before) {result : Option G}
    (ran : handlePkts ctx b branch before contention l view p = some (result, p')) :
    ∃ vs, Passed ctx b branch l p p' vs result.isSome := by
  induction l generalizing view p with
  | nil =>
    simp only [handlePkts, Option.pure_def, Option.some.injEq, Prod.mk.injEq] at ran
    obtain ⟨rfl, rfl⟩ := ran
    exact ⟨[], by constructor <;> simp [SameMap.refl]⟩
  | cons n rest ih =>
    simp only [handlePkts, Option.bind_eq_bind, Option.bind_eq_some_iff] at ran
    obtain ⟨⟨outcome, q⟩, ran, continued⟩ := ran
    obtain ⟨_, rfl⟩ := invoke_eq_some ran
    let v : Invocation := ⟨branch, n, (b.dispatch n).pktClass,
      isRegistered ctx (b.dispatch n).pktSetId p.manager, outcome.abort, outcome.actions⟩
    have records : Records ctx b branch p.manager v := ⟨rfl, rfl, rfl⟩
    have map := sameMap_writeBack ctx (slotOf branch n (before n p)) outcome (before n p).manager
    rw [prepares.manager] at map
    cases aborts : outcome.abort with
    | true =>
      simp only [aborts, if_true, Option.pure_def, Option.some.injEq, Prod.mk.injEq] at continued
      obtain ⟨rfl, rfl⟩ := continued
      refine ⟨[v], ?_, ?_, ?_, ?_, ?_, ?_, ?_⟩
      · simp [prepares.running, prepares.manager, v, aborts]
      · exact prepares.history n p
      · exact ⟨rest, rfl⟩
      · simpa using records
      · simp
      · intro i
        have kept : settle ctx.device (p.dstDevices i) v = p.dstDevices i := by
          cases branch with
          | noPktSet | registered => simp [settle, v, aborts]
          | unknown => contradiction
        simp only [invocationsAt, List.filter_cons, List.filter_nil]
        rw [prepares.dstDevices]
        split
        · exact kept.symm
        · rfl
      · simpa only [prepares.manager] using map
    | false =>
      simp only [aborts, Bool.false_eq_true, if_false] at continued
      obtain ⟨vs, passed⟩ := ih continued
      have before' := passed.map
      simp only [prepares.manager] at before'
      refine ⟨v :: vs, ?_, ?_, ?_, ?_, ?_, ?_, ?_⟩
      · rw [passed.running]
        simp [prepares.running, prepares.manager, v, aborts]
      · rw [passed.history]
        exact prepares.history n p
      · exact List.cons_prefix_cons.mpr ⟨rfl, passed.order⟩
      · intro w member
        rcases List.mem_cons.mp member with rfl | later
        · exact records
        · refine (passed.records w later).of_same ?_
          simpa only [prepares.manager] using map
      · intro done
        obtain ⟨order, returned⟩ := passed.returned done
        refine ⟨by simp [order, v], ?_⟩
        intro w member
        rcases List.mem_cons.mp member with rfl | later
        · exact aborts
        · exact returned w later
      · intro i
        rw [passed.destination]
        simp only [invocationsAt, List.filter_cons]
        by_cases same : n = i
        · subst same
          have settled := prepares.settles n p v rfl aborts
          simp only [v] at settled
          simp [v, settled]
        · simp [v, same, update_of_ne (Ne.symm same), prepares.dstDevices]
      · exact map.trans before'

end Pass

section Retries
variable {ctx : Context Ω G P S Id B} {b : Batch Id} {branch : Branch} {l : List Nat}
variable {p p' : Plane G P S Id} {done : Bool} {a : Attempt Ω G}

/-- What one pass through a retry loop over the packets at some positions did. -/
structure Tried (ctx : Context Ω G P S Id B) (b : Batch Id) (branch : Branch) (l : List Nat)
    (p p' : Plane G P S Id) (vs : List Invocation) (done : Bool) : Prop where
  history : p'.history = p.history ++ vs.map (·, done)
  running : p'.running = []
  within : ∀ v ∈ vs, v.position ∈ l
  records : ∀ v ∈ vs, Records ctx b branch p.manager v
  returned : done = true → vs.map Invocation.position = l ∧ ∀ v ∈ vs, v.abort = false
  destination : ∀ i, p'.dstDevices i = (invocationsAt i vs).foldl (settle ctx.device) (p.dstDevices i)
  map : SameMap p.manager p'.manager

/-- The rollback writes packet-set states only. -/
theorem abortTxn_frame (ctx : Context Ω G P S Id B) (branch : Branch) (p : Plane G P S Id) :
    (abortTxn ctx branch p).history = p.history ++ p.running.map (·, false) ∧
      (abortTxn ctx branch p).running = [] ∧ (abortTxn ctx branch p).dstDevices = p.dstDevices ∧
      (abortTxn ctx branch p).dstDevice = p.dstDevice ∧
      SameMap p.manager (abortTxn ctx branch p).manager := by
  unfold abortTxn Plane.endTxn rollbackPktSetStates
  split
  · exact ⟨rfl, rfl, rfl, rfl, rfl, rfl, rfl⟩
  · exact ⟨rfl, rfl, rfl, rfl, rfl, rfl, rfl⟩

theorem transaction_tried {before : Nat → Plane G P S Id → Plane G P S Id} (known : branch ≠ .unknown)
    (prepares : Prepares ctx branch before) (idle : p.running = [])
    (ran : transaction ctx branch (fun contention => handlePkts ctx b branch before contention l) a p =
      some (done, p')) :
    ∃ vs, Tried ctx b branch l p p' vs done := by
  cases done with
  | false =>
    obtain ⟨result, q, worked, rfl⟩ := transaction_failed ran
    obtain ⟨vs, passed⟩ := handlePkts_passed known prepares worked
    obtain ⟨history, running, dstDevices, _, map⟩ := abortTxn_frame ctx branch q
    refine ⟨vs, ?_, running, ?_, passed.records, ?_, ?_, passed.map.trans map⟩
    · rw [history, passed.history, passed.running, idle, List.nil_append]
    · intro v member
      exact passed.order.subset (List.mem_map_of_mem member)
    · simp
    · intro i
      rw [dstDevices]
      exact passed.destination i
  | true =>
    obtain ⟨view, q, worked, _, rfl⟩ := transaction_done ran
    obtain ⟨vs, passed⟩ := handlePkts_passed known prepares worked
    refine ⟨vs, ?_, rfl, ?_, passed.records, fun _ => passed.returned rfl, passed.destination, passed.map⟩
    · simp only [Plane.endTxn]
      rw [passed.history, passed.running, idle, List.nil_append]
    · intro v member
      exact passed.order.subset (List.mem_map_of_mem member)

/-- What a retry loop over the packets at some positions did: the invocations of the
aborted passes, and those of the pass that committed. -/
structure Handled (ctx : Context Ω G P S Id B) (b : Batch Id) (branch : Branch) (l : List Nat)
    (p p' : Plane G P S Id) (failed done : List Invocation) : Prop where
  history : p'.history = p.history ++ failed.map (·, false) ++ done.map (·, true)
  running : p'.running = []
  within : ∀ v ∈ failed, v.position ∈ l
  order : done.map Invocation.position = l
  records : ∀ v ∈ failed ++ done, Records ctx b branch p.manager v
  returned : ∀ v ∈ done, v.abort = false
  destination : ∀ i, p'.dstDevices i =
    (invocationsAt i (failed ++ done)).foldl (settle ctx.device) (p.dstDevices i)
  map : SameMap p.manager p'.manager

theorem retry_handled {attempt : Attempt Ω G → Plane G P S Id → Option (Bool × Plane G P S Id)}
    (tries : ∀ a p p' done, p.running = [] → attempt a p = some (done, p') →
      ∃ vs, Tried ctx b branch l p p' vs done)
    (idle : p.running = []) {attempts rest : List (Attempt Ω G)}
    (ran : retry attempt attempts p = some (p', rest)) :
    ∃ failed done, Handled ctx b branch l p p' failed done := by
  obtain ⟨tape, a, q, _, trace, finish⟩ := retry_eq_some ran
  -- What the aborted passes leave behind.
  have before : ∃ failed : List Invocation, q.history = p.history ++ failed.map (·, false) ∧
      q.running = [] ∧ (∀ v ∈ failed, v.position ∈ l) ∧
      (∀ v ∈ failed, Records ctx b branch p.manager v) ∧
      (∀ i, q.dstDevices i = (invocationsAt i failed).foldl (settle ctx.device) (p.dstDevices i)) ∧
      SameMap p.manager q.manager := by
    refine trace.keeps (P := fun q => ∃ failed : List Invocation,
      q.history = p.history ++ failed.map (·, false) ∧ q.running = [] ∧ (∀ v ∈ failed, v.position ∈ l) ∧
      (∀ v ∈ failed, Records ctx b branch p.manager v) ∧
      (∀ i, q.dstDevices i = (invocationsAt i failed).foldl (settle ctx.device) (p.dstDevices i)) ∧
      SameMap p.manager q.manager) ?_ ?_
    · exact ⟨[], by simp [idle, SameMap.refl]⟩
    · rintro u a t ⟨failed, history, running, within, records, destination, map⟩ failure
      obtain ⟨vs, tried⟩ := tries a u t false running failure
      refine ⟨failed ++ vs, ?_, tried.running, ?_, ?_, ?_, map.trans tried.map⟩
      · rw [tried.history, history, List.map_append, List.append_assoc]
      · intro v member
        rcases List.mem_append.mp member with earlier | now
        · exact within v earlier
        · exact tried.within v now
      · intro v member
        rcases List.mem_append.mp member with earlier | now
        · exact records v earlier
        · exact (tried.records v now).of_same map
      · intro i
        rw [tried.destination, destination, invocationsAt_append, List.foldl_append]
  obtain ⟨failed, history, running, within, records, destination, map⟩ := before
  obtain ⟨vs, tried⟩ := tries a q p' true running finish
  obtain ⟨order, returned⟩ := tried.returned rfl
  refine ⟨failed, vs, ?_, tried.running, within, order, ?_, returned, ?_, map.trans tried.map⟩
  · rw [tried.history, history]
  · intro v member
    rcases List.mem_append.mp member with earlier | now
    · exact records v earlier
    · exact (tried.records v now).of_same map
  · intro i
    rw [tried.destination, destination, invocationsAt_append, List.foldl_append]

theorem attemptNoPktSet_tried (idle : p.running = []) (ran : attemptNoPktSet ctx b a p = some (done, p')) :
    ∃ vs, Tried ctx b .noPktSet ((List.range b.batchSize).filter b.parseRes) p p' vs done :=
  transaction_tried (by simp) prepares_noPktSet idle ran

theorem attemptRegistered_tried (idle : p.running = []) {startN endN : Nat}
    (ran : attemptRegistered ctx b startN endN a p = some (done, p')) :
    ∃ vs, Tried ctx b .registered (positions b endN b.batchSize startN) p p' vs done := by
  unfold attemptRegistered at ran
  split at ran
  · obtain ⟨vs, tried⟩ := transaction_tried (p := resetLogPktSetState p) (by simp) prepares_registered idle ran
    exact ⟨vs, tried.history, tried.running, tried.within, tried.records, tried.returned,
      tried.destination, tried.map⟩
  · exact transaction_tried (by simp) prepares_registered idle ran

theorem noPktSet_handled (idle : p.running = []) {attempts rest : List (Attempt Ω G)}
    (ran : retry (attemptNoPktSet ctx b) attempts p = some (p', rest)) :
    ∃ failed done, Handled ctx b .noPktSet ((List.range b.batchSize).filter b.parseRes) p p' failed done :=
  retry_handled (fun _ _ _ _ idle ran => attemptNoPktSet_tried idle ran) idle ran

theorem registered_handled (idle : p.running = []) {startN endN : Nat} {attempts rest : List (Attempt Ω G)}
    (ran : retry (attemptRegistered ctx b startN endN) attempts p = some (p', rest)) :
    ∃ failed done, Handled ctx b .registered (positions b endN b.batchSize startN) p p' failed done :=
  retry_handled (fun _ _ _ _ idle ran => attemptRegistered_tried idle ran) idle ran

end Retries

section Single
variable {ctx : Context Ω G P S Id B} {branch : Branch} {n : Nat} {d : Dispatch Id}
variable {p p' : Plane G P S Id} {done : Bool} {a : Attempt Ω G}

/-- What some passes through a retry loop over a single packet did. -/
structure Handles (ctx : Context Ω G P S Id B) (branch : Branch) (n : Nat) (d : Dispatch Id)
    (p p' : Plane G P S Id) (vs : List Invocation) : Prop where
  running : p'.running = []
  records : ∀ v ∈ vs, v.branch = branch ∧ v.position = n ∧ v.pktClass = d.pktClass ∧
    v.registered = isRegistered ctx d.pktSetId p.manager
  dstDevice : p'.dstDevice = deliver p.dstDevice (vs.flatMap Invocation.actions)
  dstDevices : p'.dstDevices = p.dstDevices
  map : SameMap p.manager p'.manager

theorem deliver_append (dst : Nat) (first second : List Action) :
    deliver dst (first ++ second) = deliver (deliver dst first) second := List.foldl_append

theorem prepare_frame (ctx : Context Ω G P S Id B) (branch : Branch) (n : Nat) (p : Plane G P S Id) :
    (prepare ctx branch n p).running = p.running ∧ (prepare ctx branch n p).history = p.history ∧
      (prepare ctx branch n p).dstDevice = p.dstDevice ∧
      (prepare ctx branch n p).dstDevices = p.dstDevices ∧
      SameMap p.manager (prepare ctx branch n p).manager := by
  cases branch with
  | noPktSet => exact ⟨rfl, rfl, rfl, rfl, rfl, rfl, rfl⟩
  | registered =>
    unfold prepare
    dsimp only
    split
    · exact ⟨rfl, rfl, rfl, rfl, rfl, rfl, rfl⟩
    · exact ⟨rfl, rfl, rfl, rfl, rfl, rfl, rfl⟩
  | unknown => exact ⟨rfl, rfl, rfl, rfl, rfl, rfl, rfl⟩

theorem attemptPkt_handles (idle : p.running = []) (ran : attemptPkt ctx branch n d a p = some (done, p')) :
    ∃ v, p'.history = p.history ++ [(v, done)] ∧ (done = true → v.abort = false) ∧
      Handles ctx branch n d p p' [v] := by
  obtain ⟨running, history, dstDevice, dstDevices, map⟩ :=
    prepare_frame ctx branch n p
  -- The state in which the handler left the plane.
  have worked : ∀ result q view, (do
        let r ← invoke ctx branch n d a.contention view
          { prepare ctx branch n p with globalState := view }
        return (if r.1.abort then none else some r.1.globalState, r.2)) = some (result, q) →
      ∃ v : Invocation, q.running = [v] ∧ q.history = p.history ∧ v.abort = result.isNone ∧
        q.dstDevice = deliver p.dstDevice v.actions ∧ q.dstDevices = p.dstDevices ∧
        (v.branch = branch ∧ v.position = n ∧ v.pktClass = d.pktClass ∧
          v.registered = isRegistered ctx d.pktSetId p.manager) ∧ SameMap p.manager q.manager := by
    intro result q view ran
    simp only [Option.bind_eq_bind, Option.bind_eq_some_iff, Option.pure_def, Option.some.injEq,
      Prod.mk.injEq] at ran
    obtain ⟨⟨outcome, u⟩, ran, rfl, rfl⟩ := ran
    obtain ⟨_, rfl⟩ := invoke_eq_some ran
    refine ⟨⟨branch, n, d.pktClass, isRegistered ctx d.pktSetId (prepare ctx branch n p).manager,
      outcome.abort, outcome.actions⟩, ?_, history, ?_, ?_, dstDevices, ⟨rfl, rfl, rfl, ?_⟩, ?_⟩
    · simp only [running, idle, List.nil_append]
    · cases outcome.abort <;> rfl
    · simp only [dstDevice]
    · exact isRegistered_congr map _
    · exact map.trans (sameMap_writeBack ctx _ outcome _)
  cases done with
  | false =>
    obtain ⟨result, q, inner, rfl⟩ := transaction_failed ran
    obtain ⟨v, running, history, _, dstDevice, dstDevices, records, map⟩ := worked _ _ _ inner
    obtain ⟨history', running', dstDevices', dstDevice', map'⟩ :=
      abortTxn_frame ctx branch q
    refine ⟨v, by rw [history', history, running]; rfl, by simp, running', by simpa using records, ?_, ?_,
      map.trans map'⟩
    · rw [dstDevice', dstDevice]
      simp
    · rw [dstDevices', dstDevices]
  | true =>
    obtain ⟨view, q, inner, _, rfl⟩ := transaction_done ran
    obtain ⟨v, running, history, abort, dstDevice, dstDevices, records, map⟩ := worked _ _ _ inner
    refine ⟨v, ?_, fun _ => abort, rfl, by simpa using records,
      by simpa [Plane.endTxn] using dstDevice, dstDevices, map⟩
    simp only [Plane.endTxn]
    rw [history, running]
    rfl

/-- A retry loop over a single packet. -/
theorem retryPkt_handles (idle : p.running = []) {attempts rest : List (Attempt Ω G)}
    (ran : retry (attemptPkt ctx branch n d) attempts p = some (p', rest)) :
    ∃ failed v, p'.history = p.history ++ failed.map (·, false) ++ [(v, true)] ∧ v.abort = false ∧
      Handles ctx branch n d p p' (failed ++ [v]) := by
  obtain ⟨tape, a, q, _, trace, finish⟩ := retry_eq_some ran
  have extends' : ∀ {u t vs v done}, Handles ctx branch n d p u vs → Handles ctx branch n d u t [v] →
      t.history = u.history ++ [(v, done)] → Handles ctx branch n d p t (vs ++ [v]) := by
    intro u t vs v done first last _
    refine ⟨last.running, ?_, ?_, last.dstDevices.trans first.dstDevices, first.map.trans last.map⟩
    · intro w member
      rcases List.mem_append.mp member with earlier | now
      · exact first.records w earlier
      · obtain ⟨branch, position, pktClass, registered⟩ := last.records w now
        exact ⟨branch, position, pktClass, registered.trans (isRegistered_congr first.map _)⟩
    · rw [last.dstDevice, first.dstDevice, ← deliver_append]
      simp
  have before : ∃ failed : List Invocation, q.history = p.history ++ failed.map (·, false) ∧
      Handles ctx branch n d p q failed := by
    refine trace.keeps (P := fun q => ∃ failed : List Invocation,
      q.history = p.history ++ failed.map (·, false) ∧ Handles ctx branch n d p q failed) ?_ ?_
    · exact ⟨[], by simp, idle, by simp, rfl, rfl, SameMap.refl _⟩
    · rintro u a t ⟨failed, history, handles⟩ failure
      obtain ⟨v, added, _, one⟩ := attemptPkt_handles handles.running failure
      refine ⟨failed ++ [v], ?_, extends' handles one added⟩
      rw [added, history]
      simp
  obtain ⟨failed, history, handles⟩ := before
  obtain ⟨v, added, returned, one⟩ := attemptPkt_handles handles.running finish
  refine ⟨failed, v, ?_, returned rfl, extends' handles one added⟩
  rw [added, history]

end Single
end Nfos.DataPlane
