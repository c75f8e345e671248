import Nfos.DataPlaneRuns

/-! The loop over a batch. It goes through the packets without parsing errors in
batch order, and every one of them has its invocations in one retry loop. -/
namespace Nfos.DataPlane
open Function PktSetManager ConcurrentDoubleChain CellData Run Retry
variable {Ω G P S Id B : Type}

section Indexes
variable {b : Batch Id} {n m endN : Nat}

theorem skipUnparsed_spec (b : Batch Id) {n : Nat} (fuel : Nat) (enough : b.batchSize ≤ n + fuel) :
    n ≤ skipUnparsed b fuel n ∧ (skipUnparsed b fuel n ≤ max n b.batchSize) ∧
      (∀ i, n ≤ i → i < skipUnparsed b fuel n → b.parseRes i = false) ∧
      (skipUnparsed b fuel n < b.batchSize → b.parseRes (skipUnparsed b fuel n) = true) := by
  induction fuel generalizing n with
  | zero =>
    simp only [skipUnparsed]
    refine ⟨le_rfl, le_max_left _ _, ?_, ?_⟩
    · intro i above below
      omega
    · intro below
      omega
  | succ fuel ih =>
    by_cases more : n < b.batchSize ∧ b.parseRes n = false
    · simp only [skipUnparsed, if_pos more]
      obtain ⟨above, bound, skipped, found⟩ := ih (n := n + 1) (by omega)
      refine ⟨by omega, by omega, ?_, found⟩
      intro i low high
      rcases Nat.eq_or_lt_of_le low with rfl | later
      · exact more.2
      · exact skipped i later high
    · simp only [skipUnparsed, if_neg more]
      refine ⟨le_rfl, le_max_left _ _, ?_, ?_⟩
      · intro i above below
        omega
      · intro below
        simpa [below] using more

/-- A packet that is the next one without parsing error behind position `n - 1`. -/
structure Next (b : Batch Id) (n m : Nat) : Prop where
  above : n ≤ m
  bound : m ≤ max n b.batchSize
  skipped : ∀ i, n ≤ i → i < m → b.parseRes i = false
  parsed : m < b.batchSize → b.parseRes m = true

theorem firstPkt_next (b : Batch Id) : Next b 0 (firstPkt b) := by
  obtain ⟨above, bound, skipped, parsed⟩ := skipUnparsed_spec b (n := 0) b.batchSize (by omega)
  exact ⟨above, bound, skipped, parsed⟩

theorem nextPkt_next (b : Batch Id) (n : Nat) : Next b (n + 1) (nextPkt b n) := by
  obtain ⟨above, bound, skipped, parsed⟩ :=
    skipUnparsed_spec b (n := n + 1) (b.batchSize - (n + 1)) (by omega)
  exact ⟨above, bound, skipped, parsed⟩

/-- The packets without parsing error from position `n` up to position `m`. -/
def parsedIn (b : Batch Id) (n m : Nat) : List Nat := (List.range' n (m - n)).filter b.parseRes

theorem mem_parsedIn {i : Nat} : i ∈ parsedIn b n m ↔ n ≤ i ∧ i < m ∧ b.parseRes i = true := by
  simp only [parsedIn, List.mem_filter, List.mem_range'_1]
  constructor
  · rintro ⟨⟨low, high⟩, parsed⟩
    exact ⟨low, by omega, parsed⟩
  · rintro ⟨low, high, parsed⟩
    exact ⟨⟨low, by omega⟩, parsed⟩

theorem nodup_parsedIn : (parsedIn b n m).Nodup :=
  List.Nodup.filter _ List.nodup_range'

theorem parsedIn_append {k : Nat} (first : n ≤ k) (second : k ≤ m) :
    parsedIn b n k ++ parsedIn b k m = parsedIn b n m := by
  have split : List.range' n (m - n) = List.range' n (k - n) ++ List.range' k (m - k) := by
    rw [show m - n = (k - n) + (m - k) by omega, ← List.range'_append_1]
    congr 2
    omega
  rw [parsedIn, parsedIn, parsedIn, split, List.filter_append]

theorem parsedIn_eq_nil (skipped : ∀ i, n ≤ i → i < m → b.parseRes i = false) : parsedIn b n m = [] := by
  rw [List.eq_nil_iff_forall_not_mem]
  intro i member
  obtain ⟨low, high, parsed⟩ := mem_parsedIn.mp member
  rw [skipped i low high] at parsed
  contradiction

theorem parsedIn_cons (below : n < m) (parsed : b.parseRes n = true) :
    parsedIn b n m = n :: parsedIn b (n + 1) m := by
  rw [← parsedIn_append (Nat.le_succ n) below]
  simp [parsedIn, parsed]

/-- The loop behind `restart` goes through the packets of its range. -/
theorem positions_eq {fuel : Nat} (below : n < endN) (parsed : b.parseRes n = true) (bound : endN ≤ b.batchSize)
    (enough : endN ≤ n + fuel) : positions b endN fuel n = parsedIn b n endN := by
  induction fuel generalizing n with
  | zero => omega
  | succ fuel ih =>
    have next := nextPkt_next b n
    rw [parsedIn_cons below parsed, positions]
    congr 1
    split
    · rename_i more
      rw [ih more (next.parsed (by omega)) (by have := next.above; omega),
        ← parsedIn_append next.above (by omega), parsedIn_eq_nil next.skipped, List.nil_append]
    · rename_i last
      exact (parsedIn_eq_nil fun i low high => next.skipped i low (by omega)).symm

end Indexes

section Progress
variable {ctx : Context Ω G P S Id B} {b : Batch Id} {branch : Branch} {n m : Nat}
variable {p p' : Plane G P S Id} {kind : Invocation → Prop} {failed done : List Invocation}

/-- The ended invocations for the packet at a position. -/
def endedAt (i : Nat) (history : List (Invocation × Bool)) : List (Invocation × Bool) :=
  history.filter (·.1.position = i)

theorem endedAt_append (i : Nat) (h k : List (Invocation × Bool)) :
    endedAt i (h ++ k) = endedAt i h ++ endedAt i k := List.filter_append h k

theorem endedAt_map (i : Nat) (vs : List Invocation) (flag : Bool) :
    endedAt i (vs.map (·, flag)) = (invocationsAt i vs).map (·, flag) := by
  rw [endedAt, List.filter_map, invocationsAt]
  rfl

theorem fst_endedAt (i : Nat) (h : List (Invocation × Bool)) :
    (endedAt i h).map Prod.fst = invocationsAt i (h.map Prod.fst) := by
  rw [endedAt, invocationsAt, List.filter_map]
  rfl

/-- A list of invocations for different packets has one for each of them. -/
theorem invocationsAt_single {vs : List Invocation} {i : Nat} (distinct : (vs.map Invocation.position).Nodup)
    (present : i ∈ vs.map Invocation.position) : ∃ v ∈ vs, invocationsAt i vs = [v] := by
  induction vs with
  | nil => simp at present
  | cons v rest ih =>
    obtain ⟨absent, distinct⟩ := List.nodup_cons.mp distinct
    by_cases first : v.position = i
    · refine ⟨v, List.mem_cons_self, ?_⟩
      have none : invocationsAt i rest = [] := by
        apply invocationsAt_eq_nil
        intro w member same
        exact absent (List.mem_map.mpr ⟨w, member, by rw [same, first]⟩)
      simpa [invocationsAt, first] using none
    · have later : i ∈ rest.map Invocation.position := by
        rcases List.mem_cons.mp present with same | later
        · exact absurd same.symm first
        · exact later
      obtain ⟨w, member, single⟩ := ih distinct later
      exact ⟨w, List.mem_cons_of_mem _ member, by simpa [invocationsAt, first] using single⟩

theorem foldl_settle_unknown {vs : List Invocation} {device dst : Nat} (unknown : ∀ v ∈ vs, v.branch = .unknown) :
    vs.foldl (settle device) dst = deliver dst (vs.flatMap Invocation.actions) := by
  induction vs generalizing dst with
  | nil => rfl
  | cons v rest ih =>
    rw [List.foldl_cons, ih fun w member => unknown w (List.mem_cons_of_mem _ member), List.flatMap_cons,
      deliver_append]
    simp [settle, unknown v List.mem_cons_self]

/-- The packets up to position `n` have been handled, and no others. The invocations
for a packet are some of aborted transactions and one of a committed transaction. -/
structure Progress (ctx : Context Ω G P S Id B) (b : Batch Id) (kind : Invocation → Prop) (n : Nat)
    (p : Plane G P S Id) : Prop where
  running : p.running = []
  order : (p.history.filter (·.2)).map (·.1.position) = parsedIn b 0 n
  kinds : ∀ v ∈ p.history, kind v.1
  returned : ∀ v ∈ p.history, v.2 = true → v.1.abort = false
  below : ∀ v ∈ p.history, v.1.position < n
  parsed : ∀ v ∈ p.history, b.parseRes v.1.position = true
  shape : ∀ i < n, b.parseRes i = true → ∃ (earlier : List Invocation) (last : Invocation),
    endedAt i p.history = earlier.map (·, false) ++ [(last, true)] ∧
      ∀ v ∈ earlier, v.branch = last.branch
  destination : ∀ i < b.batchSize, p.dstDevices i =
    (invocationsAt i (p.history.map Prod.fst)).foldl (settle ctx.device) ctx.device

theorem filter_flag (vs : List Invocation) (flag : Bool) :
    (vs.map (·, flag)).filter (·.2) = if flag then vs.map (·, flag) else [] := by
  cases flag with
  | false => simp [List.filter_eq_nil_iff]
  | true => simp [List.filter_eq_self]

/-- A retry loop over the next packets makes progress. -/
theorem Progress.extend (progress : Progress ctx b kind n p)
    (handled : Handled ctx b branch (parsedIn b n m) p p' failed done) (later : n ≤ m)
    (kinds : ∀ v, Records ctx b branch p.manager v → v.position ∈ parsedIn b n m → kind v) :
    Progress ctx b kind m p' := by
  have positions : ∀ v ∈ failed ++ done, v.position ∈ parsedIn b n m := by
    intro v member
    rcases List.mem_append.mp member with early | late
    · exact handled.within v early
    · rw [← handled.order]
      exact List.mem_map_of_mem late
  have members : ∀ v ∈ p'.history, v ∈ p.history ∨ v.1 ∈ failed ++ done ∧ (v.2 = true → v.1 ∈ done) := by
    intro v member
    rw [handled.history] at member
    simp only [List.mem_append, List.mem_map] at member
    rcases member with (old | ⟨w, inside, rfl⟩) | ⟨w, inside, rfl⟩
    · exact .inl old
    · exact .inr ⟨List.mem_append_left _ inside, by simp⟩
    · exact .inr ⟨List.mem_append_right _ inside, fun _ => inside⟩
  have invocations : ∀ i, invocationsAt i (p'.history.map Prod.fst) =
      invocationsAt i (p.history.map Prod.fst) ++ invocationsAt i (failed ++ done) := by
    intro i
    rw [handled.history, ← invocationsAt_append]
    simp [Function.comp_def]
  constructor
  case running => exact handled.running
  case order =>
    rw [handled.history, List.filter_append, List.filter_append, filter_flag, filter_flag, List.map_append,
      List.map_append, progress.order, ← parsedIn_append (Nat.zero_le n) later, ← handled.order]
    simp [Function.comp_def]
  case kinds =>
    intro v member
    rcases members v member with old | ⟨new, _⟩
    · exact progress.kinds v old
    · exact kinds v.1 (handled.records v.1 new) (positions v.1 new)
  case returned =>
    intro v member committed
    rcases members v member with old | ⟨_, finished⟩
    · exact progress.returned v old committed
    · exact handled.returned v.1 (finished committed)
  case below =>
    intro v member
    rcases members v member with old | ⟨new, _⟩
    · exact lt_of_lt_of_le (progress.below v old) later
    · exact (mem_parsedIn.mp (positions v.1 new)).2.1
  case parsed =>
    intro v member
    rcases members v member with old | ⟨new, _⟩
    · exact progress.parsed v old
    · exact (mem_parsedIn.mp (positions v.1 new)).2.2
  case shape =>
    intro i within parsed
    rw [handled.history, endedAt_append, endedAt_append, endedAt_map, endedAt_map]
    by_cases old : i < n
    · have none : ∀ vs, (∀ v ∈ vs, v ∈ failed ++ done) → invocationsAt i vs = [] := by
        intro vs inside
        apply invocationsAt_eq_nil
        intro v member same
        have := (mem_parsedIn.mp (positions v (inside v member))).1
        omega
      rw [none failed fun v member => List.mem_append_left _ member,
        none done fun v member => List.mem_append_right _ member]
      simpa using progress.shape i old parsed
    · have fresh : endedAt i p.history = [] := by
        rw [endedAt, List.filter_eq_nil_iff]
        intro v member same
        have := progress.below v member
        simp only [decide_eq_true_eq] at same
        omega
      have present : i ∈ done.map Invocation.position := by
        rw [handled.order]
        exact mem_parsedIn.mpr ⟨by omega, within, parsed⟩
      obtain ⟨v, member, single⟩ := invocationsAt_single (handled.order ▸ nodup_parsedIn) present
      refine ⟨invocationsAt i failed, v, by simp [fresh, single], ?_⟩
      intro w early
      have early := (List.mem_filter.mp early).1
      rw [(handled.records w (List.mem_append_left _ early)).branch,
        (handled.records v (List.mem_append_right _ member)).branch]
  case destination =>
    intro i within
    rw [handled.destination, progress.destination i within, ← List.foldl_append, ← invocations i]

theorem Progress.skip (progress : Progress ctx b kind n p) (next : Next b n m) : Progress ctx b kind m p := by
  constructor
  case running => exact progress.running
  case order =>
    rw [progress.order, ← parsedIn_append (Nat.zero_le n) next.above, parsedIn_eq_nil next.skipped,
      List.append_nil]
  case kinds => exact progress.kinds
  case returned => exact progress.returned
  case below =>
    intro v member
    exact lt_of_lt_of_le (progress.below v member) next.above
  case parsed => exact progress.parsed
  case shape =>
    intro i within parsed
    by_cases old : i < n
    · exact progress.shape i old parsed
    · rw [next.skipped i (by omega) within] at parsed
      contradiction
  case destination => exact progress.destination

/-- Progress is about the invocations and the destinations only. -/
theorem Progress.of_same (progress : Progress ctx b kind n p) (running : p'.running = p.running)
    (history : p'.history = p.history) (dstDevices : p'.dstDevices = p.dstDevices) :
    Progress ctx b kind n p' := by
  constructor
  case running => rw [running, progress.running]
  case order => rw [history, progress.order]
  case kinds => exact history ▸ progress.kinds
  case returned => exact history ▸ progress.returned
  case below => exact history ▸ progress.below
  case parsed => exact history ▸ progress.parsed
  case shape => exact history ▸ progress.shape
  case destination => exact history ▸ dstDevices ▸ progress.destination

end Progress

section Cursors
variable {ctx : Context Ω G P S Id B} {b : Batch Id} {c c' : Cursor Ω G P S Id}

theorem sameMap_rejuvenate (m : Manager Id S) (n index core : Nat) (time : Int) :
    SameMap m { m with cells := (concurrentDchainImplRejuvenateIndex n index core time m.cells).2 } := by
  have extra : ∃ x, (concurrentDchainImplRejuvenateIndex n index core time m.cells).2.extraOf =
      update m.cells.extraOf x { m.cells.extraOf x with
        time := timeOf (concurrentDchainImplRejuvenateIndex n index core time m.cells).2 x } := by
    refine ⟨index + indexShift n, ?_⟩
    unfold concurrentDchainImplRejuvenateIndex
    dsimp only
    split
    · simp [timeOf]
    · split
      · split <;> simp [timeOf]
      · simp [timeOf]
  obtain ⟨x, extra⟩ := extra
  obtain ⟨ids, nexts, _⟩ := fields_of_stamp extra
  exact ⟨rfl, ids, nexts⟩

/-- A lookup finds the packet sets of the map, and does not change the map. -/
theorem getPktSetState_found {id : Id} {m m' : Manager Id S} {slot : Option Nat}
    (ran : getPktSetState ctx.cfg id ctx.pktSetPartition ctx.now m = some (slot, m')) :
    slot.isSome = isRegistered ctx id m ∧ SameMap m m' := by
  unfold getPktSetState at ran
  unfold isRegistered
  cases found : ConcurrentMap.concurrentMapGet ctx.cfg.numCores ctx.cfg.maxNumEntries ctx.cfg.map m.buckets
      m.cells id ctx.pktSetPartition with
  | none => simp [found] at ran
  | some entry =>
    cases entry with
    | none =>
      simp only [found, Option.bind_eq_bind, Option.bind_some, Option.pure_def, Option.some.injEq,
        Prod.mk.injEq] at ran
      obtain ⟨rfl, rfl⟩ := ran
      exact ⟨rfl, SameMap.refl _⟩
    | some index =>
      simp only [found, Option.bind_eq_bind, Option.bind_some, Option.pure_def, Option.some.injEq,
        Prod.mk.injEq] at ran
      obtain ⟨rfl, rfl⟩ := ran
      exact ⟨rfl, sameMap_rejuvenate _ _ _ _ _⟩

/-- A lookup is the answer of the map for the packet at the cursor. -/
structure Looked (ctx : Context Ω G P S Id B) (b : Batch Id) (c c' : Cursor Ω G P S Id) : Prop where
  n : c'.n = c.n
  attempts : c'.attempts = c.attempts
  running : c'.plane.running = c.plane.running
  history : c'.plane.history = c.plane.history
  dstDevices : c'.plane.dstDevices = c.plane.dstDevices
  map : SameMap c.plane.manager c'.plane.manager
  answer : c'.regPktSet =
    (decide (c.n < b.batchSize) && isRegistered ctx (b.dispatch c.n).pktSetId c.plane.manager)

theorem lookup_looked (ran : lookup ctx b c = some c') : Looked ctx b c c' := by
  unfold lookup at ran
  split at ran
  · rename_i within
    simp only [Option.bind_eq_bind, Option.bind_eq_some_iff] at ran
    obtain ⟨⟨slot, manager⟩, found, ran⟩ := ran
    obtain ⟨answer, map⟩ := getPktSetState_found found
    cases slot with
    | none =>
      simp only [Option.pure_def, Option.some.injEq] at ran
      subst ran
      exact ⟨rfl, rfl, rfl, rfl, rfl, map, by simpa [within] using answer⟩
    | some slot =>
      simp only [Option.pure_def, Option.some.injEq] at ran
      subst ran
      exact ⟨rfl, rfl, rfl, rfl, rfl, map, by simpa [within] using answer⟩
  · rename_i outside
    simp only [Option.pure_def, Option.some.injEq] at ran
    subst ran
    exact ⟨rfl, rfl, rfl, rfl, rfl, SameMap.refl _, by simp [outside]⟩

theorem lookup_slots (ran : lookup ctx b c = some c') {n : Nat} (other : n ≠ c.n) :
    c'.plane.pktSetState n = c.plane.pktSetState n := by
  unfold lookup at ran
  split at ran
  · simp only [Option.bind_eq_bind, Option.bind_eq_some_iff] at ran
    obtain ⟨⟨slot, manager⟩, _, ran⟩ := ran
    cases slot with
    | none =>
      obtain rfl := Option.some.inj ran
      rfl
    | some slot =>
      obtain rfl := Option.some.inj ran
      exact update_of_ne other ..
  · obtain rfl := Option.some.inj ran
    rfl

/-- The handler that is right for a packet: that of its class if its packet set was
registered, else that for unknown packet sets. -/
structure Proper (b : Batch Id) (v : Invocation) : Prop where
  pktClass : v.pktClass = (b.dispatch v.position).pktClass
  registered : v.branch = .registered ∧ v.registered = true ∨ v.branch = .unknown ∧ v.registered = false

/-- The invariant of the loop over a batch. -/
structure AtCursor (ctx : Context Ω G P S Id B) (b : Batch Id) (c : Cursor Ω G P S Id) : Prop where
  bound : c.n ≤ b.batchSize
  parsed : c.n < b.batchSize → b.parseRes c.n = true
  answer : c.regPktSet =
    (decide (c.n < b.batchSize) && isRegistered ctx (b.dispatch c.n).pktSetId c.plane.manager)
  progress : Progress ctx b (Proper b) c.n c.plane

theorem Looked.atCursor (looked : Looked ctx b c c') {n : Nat} (next : Next b n c.n)
    (within : n ≤ b.batchSize) (progress : Progress ctx b (Proper b) n c.plane) : AtCursor ctx b c' := by
  have bound := next.bound
  refine ⟨?_, ?_, ?_, ?_⟩
  · rw [looked.n]
    omega
  · rw [looked.n]
    exact next.parsed
  · rw [looked.answer, looked.n, isRegistered_congr looked.map]
  · rw [looked.n]
    exact (progress.skip next).of_same looked.running looked.history looked.dstDevices

theorem advance_atCursor (ran : advance ctx b c = some c') (within : c.n < b.batchSize)
    (progress : Progress ctx b (Proper b) (c.n + 1) c.plane) : AtCursor ctx b c' :=
  (lookup_looked ran).atCursor (nextPkt_next b c.n) within progress

theorem handleUnknown_atCursor (inv : AtCursor ctx b c) (within : c.n < b.batchSize)
    (unregistered : c.regPktSet = false) (ran : handleUnknown ctx b c = some c') : AtCursor ctx b c' := by
  simp only [handleUnknown, Option.bind_eq_bind, Option.bind_eq_some_iff] at ran
  obtain ⟨⟨p, rest⟩, retried, manager, committed, ran⟩ := ran
  obtain ⟨failed, v, history, returned, handles⟩ :=
    retryPkt_handles (p := { c.plane with dstDevice := ctx.device }) inv.progress.running retried
  have answer := inv.answer
  rw [unregistered, decide_eq_true within, Bool.true_and] at answer
  have parsed := inv.parsed within
  have single : parsedIn b c.n (c.n + 1) = [c.n] := by
    rw [parsedIn_cons (Nat.lt_succ_self _) parsed, parsedIn_eq_nil]
    intro i low high
    omega
  have untouched : invocationsAt c.n (c.plane.history.map Prod.fst) = [] := by
    apply invocationsAt_eq_nil
    intro w member
    obtain ⟨u, inside, rfl⟩ := List.mem_map.mp member
    exact Nat.ne_of_lt (inv.progress.below u inside)
  have start : c.plane.dstDevices c.n = ctx.device := by
    rw [inv.progress.destination c.n within, untouched]
    rfl
  have all : ∀ w ∈ failed ++ [v], w.position = c.n := fun w member => (handles.records w member).2.1
  have handled : Handled ctx b .unknown (parsedIn b c.n (c.n + 1)) c.plane
      { p with dstDevices := update p.dstDevices c.n p.dstDevice } failed [v] := by
    constructor
    case history => exact history
    case running => exact handles.running
    case within =>
      intro w member
      rw [single, all w (List.mem_append_left _ member)]
      exact List.mem_singleton_self _
    case order => rw [single, List.map_singleton, all v (by simp)]
    case records =>
      intro w member
      obtain ⟨branch, position, pktClass, registered⟩ := handles.records w member
      exact ⟨branch, by rw [position, pktClass], by rw [position, registered]⟩
    case returned => simpa using returned
    case destination =>
      intro i
      by_cases here : i = c.n
      · subst here
        have whole : invocationsAt c.n (failed ++ [v]) = failed ++ [v] :=
          List.filter_eq_self.mpr fun w member => by simpa using all w member
        rw [whole, start, foldl_settle_unknown fun w member => (handles.records w member).1]
        simpa using handles.dstDevice
      · have none : invocationsAt i (failed ++ [v]) = [] :=
          invocationsAt_eq_nil fun w member same => here (same.symm.trans (all w member))
        rw [none]
        simp [update_of_ne here, handles.dstDevices]
    case map => exact handles.map
  have progress := inv.progress.extend handled (Nat.le_succ _) fun w records member => by
    refine ⟨records.pktClass, .inr ⟨records.branch, ?_⟩⟩
    rw [single, List.mem_singleton] at member
    rw [records.registered, member, ← answer]
  exact advance_atCursor ran within (progress.of_same rfl rfl rfl)

/-- The range of registered packets, with the lookups ahead. -/
structure Ahead (ctx : Context Ω G P S Id B) (b : Batch Id) (c c' : Cursor Ω G P S Id) : Prop where
  above : c.n ≤ c'.n
  bound : c'.n ≤ b.batchSize
  parsed : c'.n < b.batchSize → b.parseRes c'.n = true
  registered : ∀ i ∈ parsedIn b c.n c'.n,
    isRegistered ctx (b.dispatch i).pktSetId c.plane.manager = true
  answer : c'.regPktSet =
    (decide (c'.n < b.batchSize) && isRegistered ctx (b.dispatch c'.n).pktSetId c.plane.manager)
  running : c'.plane.running = c.plane.running
  history : c'.plane.history = c.plane.history
  dstDevices : c'.plane.dstDevices = c.plane.dstDevices
  map : SameMap c.plane.manager c'.plane.manager

theorem AtCursor.ahead (inv : AtCursor ctx b c) : Ahead ctx b c c := by
  have empty : parsedIn b c.n c.n = [] := parsedIn_eq_nil fun i low high => by omega
  exact ⟨le_rfl, inv.bound, inv.parsed, by simp [empty], inv.answer, rfl, rfl, rfl, SameMap.refl _⟩

theorem Ahead.step {u t : Cursor Ω G P S Id} (ahead : Ahead ctx b c u) (more : u.regPktSet = true)
    (stepped : advance ctx b u = some t) : Ahead ctx b c t := by
  have looked := lookup_looked stepped
  have next := nextPkt_next b u.n
  have answer := ahead.answer
  rw [more, eq_comm, Bool.and_eq_true, decide_eq_true_eq] at answer
  obtain ⟨within, found⟩ := answer
  have above := next.above
  have bound := next.bound
  constructor
  case above =>
    have := ahead.above
    rw [looked.n]
    dsimp only
    omega
  case bound =>
    rw [looked.n]
    dsimp only
    omega
  case parsed =>
    rw [looked.n]
    exact next.parsed
  case registered =>
    intro i member
    rw [looked.n, ← parsedIn_append ahead.above (by dsimp only; omega),
      parsedIn_cons (show u.n < nextPkt b u.n by omega) (ahead.parsed within), parsedIn_eq_nil next.skipped] at member
    rcases List.mem_append.mp member with old | new
    · exact ahead.registered i old
    · rw [List.mem_singleton.mp new]
      exact found
  case answer => rw [looked.answer, looked.n, isRegistered_congr ahead.map]
  case running => exact looked.running.trans ahead.running
  case history => exact looked.history.trans ahead.history
  case dstDevices => exact looked.dstDevices.trans ahead.dstDevices
  case map => exact ahead.map.trans looked.map

theorem Ahead.further {u : Cursor Ω G P S Id} (ahead : Ahead ctx b c u) (inv : AtCursor ctx b c) (registered : c.regPktSet = true)
    (stopped : u.regPktSet = false) : c.n < u.n := by
  refine Nat.lt_of_le_of_ne ahead.above fun same => ?_
  have answer := ahead.answer
  rw [← same, ← inv.answer, registered, stopped] at answer
  contradiction

theorem lookAhead_ahead (inv : AtCursor ctx b c) {fuel : Nat}
    (ran : Loop.loop (fun c => c.regPktSet) (advance ctx b) fuel c = some c') :
    Ahead ctx b c c' ∧ c'.regPktSet = false :=
  Loop.loop_rule (Ahead ctx b c) (fun _ _ ahead more stepped => ahead.step more stepped) inv.ahead ran

theorem handleRegistered_atCursor (inv : AtCursor ctx b c) (within : c.n < b.batchSize)
    (registered : c.regPktSet = true) (ran : handleRegistered ctx b c = some c') : AtCursor ctx b c' := by
  simp only [handleRegistered, Option.bind_eq_bind, Option.bind_eq_some_iff, Option.pure_def,
    Option.some.injEq] at ran
  obtain ⟨u, looked, ⟨p, rest⟩, retried, rfl⟩ := ran
  obtain ⟨ahead, stopped⟩ := lookAhead_ahead inv looked
  have further := ahead.further inv registered stopped
  have progress := inv.progress.of_same ahead.running ahead.history ahead.dstDevices
  obtain ⟨failed, done, handled⟩ := registered_handled progress.running retried
  have enough : u.n ≤ c.n + b.batchSize := Nat.le_add_left_of_le ahead.bound
  rw [positions_eq further (inv.parsed within) ahead.bound enough] at handled
  have extended := progress.extend handled ahead.above fun v records member => by
    refine ⟨records.pktClass, .inl ⟨records.branch, ?_⟩⟩
    rw [records.registered, isRegistered_congr ahead.map, ahead.registered v.position member]
  refine ⟨ahead.bound, ahead.parsed, ?_, extended⟩
  rw [ahead.answer, isRegistered_congr handled.map, isRegistered_congr ahead.map]

theorem handleNext_atCursor (inv : AtCursor ctx b c) (within : c.n < b.batchSize)
    (ran : handleNext ctx b c = some c') : AtCursor ctx b c' := by
  unfold handleNext at ran
  cases registered : c.regPktSet with
  | false =>
    simp only [registered, Bool.not_false, if_true] at ran
    exact handleUnknown_atCursor inv within registered ran
  | true =>
    simp only [registered, Bool.not_true, Bool.false_eq_true, if_false] at ran
    exact handleRegistered_atCursor inv within registered ran

theorem handleNext_further (inv : AtCursor ctx b c) (ran : handleNext ctx b c = some c') : c.n < c'.n := by
  unfold handleNext at ran
  cases registered : c.regPktSet with
  | false =>
    simp only [registered, Bool.not_false, if_true, handleUnknown, Option.bind_eq_bind, Option.bind_eq_some_iff] at ran
    obtain ⟨⟨p, rest⟩, _, manager, _, ran⟩ := ran
    rw [(lookup_looked ran).n]
    exact (nextPkt_next b c.n).above
  | true =>
    simp only [registered, Bool.not_true, Bool.false_eq_true, if_false, handleRegistered, Option.bind_eq_bind,
      Option.bind_eq_some_iff, Option.pure_def, Option.some.injEq] at ran
    obtain ⟨u, looked, ⟨p, rest⟩, _, rfl⟩ := ran
    obtain ⟨ahead, stopped⟩ := lookAhead_ahead inv looked
    exact ahead.further inv registered stopped

/-- The invocations of a turn of the loop are those for the packets that it goes through. -/
theorem handleNext_extends (inv : AtCursor ctx b c) (within : c.n < b.batchSize) (ran : handleNext ctx b c = some c') :
    ∃ new, c'.plane.history = c.plane.history ++ new ∧ ∀ v ∈ new, v.1.position ∈ parsedIn b c.n c'.n ∧
      v.1.branch = if c.regPktSet then .registered else .unknown := by
  unfold handleNext at ran
  cases registered : c.regPktSet with
  | false =>
    simp only [registered, Bool.not_false, if_true, handleUnknown, Option.bind_eq_bind, Option.bind_eq_some_iff] at ran
    obtain ⟨⟨p, rest⟩, retried, manager, _, ran⟩ := ran
    obtain ⟨failed, v, history, _, handles⟩ :=
      retryPkt_handles (p := { c.plane with dstDevice := ctx.device }) inv.progress.running retried
    have looked := lookup_looked ran
    have here : c.n ∈ parsedIn b c.n c'.n := by
      have above := (nextPkt_next b c.n).above
      refine mem_parsedIn.mpr ⟨le_rfl, ?_, inv.parsed within⟩
      rw [looked.n]
      exact above
    refine ⟨failed.map (·, false) ++ [(v, true)], ?_, ?_⟩
    · rw [looked.history]
      simpa using history
    · intro w member
      have record : w.1 ∈ failed ++ [v] := by
        simp only [List.mem_append, List.mem_map, List.mem_singleton] at member ⊢
        rcases member with ⟨u, inside, rfl⟩ | rfl
        · exact .inl inside
        · exact .inr rfl
      obtain ⟨branch, position, _⟩ := handles.records w.1 record
      exact ⟨position ▸ here, by simp [branch]⟩
  | true =>
    simp only [registered, Bool.not_true, Bool.false_eq_true, if_false, handleRegistered, Option.bind_eq_bind,
      Option.bind_eq_some_iff, Option.pure_def, Option.some.injEq] at ran
    obtain ⟨u, looked, ⟨p, rest⟩, retried, rfl⟩ := ran
    obtain ⟨ahead, stopped⟩ := lookAhead_ahead inv looked
    obtain ⟨failed, done, handled⟩ := registered_handled (ahead.running.trans inv.progress.running) retried
    have further := ahead.further inv registered stopped
    have enough : u.n ≤ c.n + b.batchSize := Nat.le_add_left_of_le ahead.bound
    rw [positions_eq further (inv.parsed within) ahead.bound enough] at handled
    refine ⟨failed.map (·, false) ++ done.map (·, true), ?_, ?_⟩
    · rw [handled.history, ahead.history, List.append_assoc]
    · intro w member
      have record : w.1 ∈ failed ++ done := by
        simp only [List.mem_append, List.mem_map] at member ⊢
        rcases member with ⟨u, inside, rfl⟩ | ⟨u, inside, rfl⟩
        · exact .inl inside
        · exact .inr inside
      have position : w.1.position ∈ parsedIn b c.n u.n := by
        rcases List.mem_append.mp record with early | late
        · exact handled.within w.1 early
        · rw [← handled.order]
          exact List.mem_map_of_mem late
      exact ⟨position, by simp [(handled.records w.1 record).branch]⟩

/-- The invocations that are right in the branch that the first packet decides. -/
def Suitable (b : Batch Id) (v : Invocation) : Prop :=
  if (b.dispatch 0).hasPktSetState then Proper b v
  else v.branch = .noPktSet ∧ v.pktClass = (b.dispatch v.position).pktClass

/-- A batch goes through all packets without parsing error. -/
theorem handleBatch_progress {p p' : Plane G P S Id} {attempts rest : List (Attempt Ω G)}
    (idle : p.running = []) (fresh : p.history = [])
    (dropped : ∀ i < b.batchSize, p.dstDevices i = ctx.device)
    (ran : handleBatch ctx b attempts p = some (p', rest)) :
    Progress ctx b (Suitable b) b.batchSize p' := by
  have none : ∀ kind, Progress ctx b kind 0 p := by
    intro kind
    constructor <;> simp [idle, fresh, parsedIn]
    exact dropped
  unfold handleBatch at ran
  cases decided : (b.dispatch 0).hasPktSetState with
  | false =>
    simp only [decided, Bool.not_false, if_true] at ran
    obtain ⟨failed, done, handled⟩ := noPktSet_handled idle ran
    have whole : (List.range b.batchSize).filter b.parseRes = parsedIn b 0 b.batchSize := by
      rw [parsedIn, List.range_eq_range', Nat.sub_zero]
    rw [whole] at handled
    refine (none _).extend handled (Nat.zero_le _) fun v records _ => ?_
    simpa [Suitable, decided] using And.intro records.branch records.pktClass
  | true =>
    simp only [decided, Bool.not_true, Bool.false_eq_true, if_false, Option.bind_eq_bind,
      Option.bind_eq_some_iff, Option.pure_def, Option.some.injEq, Prod.mk.injEq] at ran
    obtain ⟨c, looked, u, looped, rfl, rfl⟩ := ran
    have start := (lookup_looked looked).atCursor (firstPkt_next b) (Nat.zero_le _) (none _)
    obtain ⟨inv, stopped⟩ := Loop.loop_rule (AtCursor ctx b)
      (fun s t inv more step => handleNext_atCursor inv (of_decide_eq_true more) step) start looped
    have progress := inv.progress
    have ended := of_decide_eq_false stopped
    have bound := inv.bound
    rw [show u.n = b.batchSize by omega] at progress
    have same : Suitable b = Proper b := by
      funext v
      simp [Suitable, decided]
    rw [same]
    exact progress

end Cursors
end Nfos.DataPlane
