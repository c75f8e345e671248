import Nfos.PktSetRefinement
import Nfos.Lib.Lru

/-! The sweep of a partition. If the times of its packet sets did not decrease, the list of
the partition is in the order of the times, and the sweep takes all expired ones. -/
namespace Nfos.PktSetManager
open Function Linked ConcurrentDoubleChain CellData ConcurrentMap Run Registry
variable {Id S : Type} {cfg : Config Id}

/-- The time that an event gives to a packet set of the partition. -/
def Event.stampIn {n : Nat} (p : Fin n) : Event n Id S → Option Int
  | registered q _ time _ _ => if q = p then some time else none
  | got q _ time (some _) => if q = p then some time else none
  | got _ _ _ none => none
  | swept _ _ _ => none

/-- The cells of deleted packet sets. -/
def cellsOf (cfg : Config Id) (gone : List (Expired Id S)) : List Nat :=
  gone.map fun e => indexShift cfg.numCores + e.index

/-- The state that the handler of a packet set commits from: its own, with the writes of the
aborted runs. -/
def abortedState (runs : ExpiredRuns S) (state : S) : S := runs.aborted.foldl (fun state run => run state) state

/-- What a sweep of partition `p` changes: the packet sets at the front of its list leave
their chains and their indexes are put on the free list of the partition. -/
structure Removes (cfg : Config Id) (p : Fin cfg.numCores) (handler : Nat → ExpiredRuns S) (lastTime : Int) (m : Manager Id S)
    (L : ListId cfg.numCores → List Nat) (C : Fin cfg.numBuckets → List Nat) (gone : List (Expired Id S)) (m' : Manager Id S)
    (M : ListId cfg.numCores → List Nat) (D : Fin cfg.numBuckets → List Nat) : Prop where
  order : L (.alloc p) = cellsOf cfg gone ++ M (.alloc p)
  freed : M (.free p) = (cellsOf cfg gone).reverse ++ L (.free p)
  others : ∀ w, w ≠ .alloc p → w ≠ .free p → M w = L w
  chains : ∀ b, D b = (C b).filter fun x => x ∉ cellsOf cfg gone
  old : ∀ x ∈ cellsOf cfg gone, timeOf m.cells x < lastTime
  runs : ∀ k e, gone[k]? = some e → e.id = idOf m.cells (indexShift cfg.numCores + e.index) ∧
    e.state = abortedState (handler k) (m.pktSetState e.index) ∧ m'.pktSetState e.index = (handler k).committed e.state
  states : ∀ j, (∀ e ∈ gone, e.index ≠ j) → m'.pktSetState j = m.pktSetState j
  ids : idOf m'.cells = idOf m.cells
  times : timeOf m'.cells = timeOf m.cells

section Exact
variable {m m' : Manager Id S} {L M : ListId cfg.numCores → List Nat} {C D : Fin cfg.numBuckets → List Nat} {p : Fin cfg.numCores}
  {handler : Nat → ExpiredRuns S} {lastTime : Int} {gone : List (Expired Id S)}

theorem Removes.start (m : Manager Id S) (L : ListId cfg.numCores → List Nat) (C : Fin cfg.numBuckets → List Nat) :
    Removes cfg p handler lastTime m L C [] m L C where
  order := rfl
  freed := rfl
  others _ _ _ := rfl
  chains b := by simp [cellsOf]
  old := by simp [cellsOf]
  runs := by simp
  states _ _ := rfl
  ids := rfl
  times := rfl

/-- The packet sets that are still there have other indexes. -/
theorem Removes.index_ne (removes : Removes cfg p handler lastTime m L C gone m' M D) (coherent : Coherent cfg m L C) {i : Nat}
    (member : indexShift cfg.numCores + i ∈ M (.alloc p)) : ∀ e ∈ gone, e.index ≠ i := by
  have once := coherent.valid.layout.forward.nodup (.alloc p)
  rw [removes.order] at once
  intro e deleted same
  subst same
  exact List.disjoint_of_nodup_append once (List.mem_map_of_mem deleted) member

theorem Removes.extend (removes : Removes cfg p handler lastTime m L C gone m' M D) (before : Coherent cfg m L C)
    (kept : Coherent cfg m' M D) (fits : cfg.Fits) (lawful : cfg.Lawful) {i : Nat} {l : List Nat}
    (split : M (.alloc p) = (indexShift cfg.numCores + i) :: l) (passed : timeOf m'.cells (indexShift cfg.numCores + i) < lastTime) :
    ∃ e t N E, deleteExpired cfg (handler gone.length) i p.val m' = some (e, t) ∧ Coherent cfg t N E ∧
      Removes cfg p handler lastTime m L C (gone ++ [e]) t N E := by
  obtain ⟨t, E, ran, coherent, chains, ids, times, states⟩ := kept.delete fits lawful split (handler gone.length)
  have member : indexShift cfg.numCores + i ∈ M (.alloc p) := by simp [split]
  have others := removes.index_ne before member
  have same : m'.pktSetState i = m.pktSetState i := removes.states i others
  have cells (e : Expired Id S) (index : e.index = i) : cellsOf cfg (gone ++ [e]) = cellsOf cfg gone ++ [indexShift cfg.numCores + i] := by
    simp [cellsOf, index]
  refine ⟨_, t, _, E, ran, coherent, ?_⟩
  constructor
  case order =>
    rw [cells _ rfl, removes.order, split, update_of_ne (by simp), update_self, List.append_assoc, List.singleton_append]
  case freed =>
    rw [cells _ rfl, update_self, removes.freed, List.reverse_append, List.reverse_singleton, List.singleton_append, List.cons_append]
  case others =>
    intro w notAlloc notFree
    rw [update_of_ne notFree, update_of_ne notAlloc, removes.others w notAlloc notFree]
  case chains =>
    intro b
    rw [chains, removes.chains, List.filter_filter, cells _ rfl]
    refine List.filter_congr fun y _ => ?_
    simp [and_comm]
  case old =>
    intro x deleted
    rw [cells _ rfl, List.mem_append, List.mem_singleton] at deleted
    rcases deleted with earlier | rfl
    · exact removes.old x earlier
    · rwa [removes.times] at passed
  case runs =>
    intro k e found
    rcases Nat.lt_or_ge k gone.length with early | late
    · rw [List.getElem?_append_left early] at found
      obtain ⟨id, state, after⟩ := removes.runs k e found
      have apart : e.index ≠ i := others e (List.mem_of_getElem? found)
      refine ⟨id, state, ?_⟩
      rw [states, update_of_ne apart, after]
    · rw [List.getElem?_append_right late] at found
      obtain ⟨last, rfl⟩ : k - gone.length = 0 ∧ _ = e := by simpa using List.getElem?_eq_some_iff.mp found
      obtain rfl : k = gone.length := by omega
      refine ⟨congrFun removes.ids _, ?_, ?_⟩
      · rw [same]
        rfl
      · rw [states, update_self]
  case states =>
    intro j apart
    have earlier : ∀ e ∈ gone, e.index ≠ j := fun e deleted => apart e (List.mem_append_left _ deleted)
    have last : j ≠ i := fun clash => apart _ (List.mem_append_right _ (List.mem_singleton_self _)) clash.symm
    rw [states, update_of_ne last, removes.states j earlier]
  case ids => rw [ids, removes.ids]
  case times => rw [times, removes.times]

/-- The induction is on the iterations of the loop. -/
theorem removes_of_sweep (coherent : Coherent cfg m L C) (fits : cfg.Fits) (lawful : cfg.Lawful) {time : Int}
    (ran : deleteExpiredPktSets cfg handler time p.val m = some (gone, m')) :
    ∃ M D, Coherent cfg m' M D ∧ Removes cfg p handler (time - cfg.pktSetValidityDuration) m L C gone m' M D ∧
      concurrentDchainHasExpiredIndex cfg.numCores p.val (time - cfg.pktSetValidityDuration) m'.cells = none := by
  have ends := Loop.loop_rule
    (fun s : List (Expired Id S) × Manager Id S => ∃ M D, Coherent cfg s.2 M D ∧
      Removes cfg p handler (time - cfg.pktSetValidityDuration) m L C s.1 s.2 M D) ?_ ⟨L, C, coherent, .start m L C⟩ ran
  · obtain ⟨⟨M, D, coherent', removes⟩, stopped⟩ := ends
    exact ⟨M, D, coherent', removes, by simpa using stopped⟩
  · rintro ⟨past, t⟩ u ⟨M, D, kept, removes⟩ more iteration
    dsimp only at more iteration kept removes
    cases split : M (.alloc p) with
    | nil =>
      rw [hasExpiredIndex_nil kept.valid split] at more
      contradiction
    | cons x l =>
      obtain ⟨i, -, rfl⟩ := (kept.valid.cover x).mp ⟨.alloc p, by simp [split]⟩
      have oldest := hasExpiredIndex_cons kept.valid split (time - cfg.pktSetValidityDuration)
      by_cases passed : timeOf t.cells (indexShift cfg.numCores + i) < time - cfg.pktSetValidityDuration
      · rw [if_pos passed] at oldest
        obtain ⟨e, t', N, E, deleted, coherent', removes'⟩ := removes.extend coherent kept fits lawful split passed
        rw [oldest] at iteration
        simp only [Option.bind_eq_bind, Option.bind_some, deleted, Option.pure_def, Option.some.injEq] at iteration
        subst iteration
        exact ⟨N, E, coherent', removes'⟩
      · rw [oldest, if_neg passed] at more
        contradiction

/-- The list of the partition is in the order of the times, which were given by its events. -/
structure Aged (p : Fin cfg.numCores) (m : Manager Id S) (L : ListId cfg.numCores → List Nat)
    (history : List (Event cfg.numCores Id S)) : Prop where
  sorted : (L (.alloc p)).Pairwise fun x y => timeOf m.cells x ≤ timeOf m.cells y
  stamped : ∀ x ∈ L (.alloc p), timeOf m.cells x ∈ history.filterMap (Event.stampIn p)

variable {history : List (Event cfg.numCores Id S)} {e : Event cfg.numCores Id S}

/-- An event that gives no time to the packet sets of the partition. -/
theorem Aged.keep (aged : Aged p m L history) (sublist : (M (.alloc p)).Sublist (L (.alloc p)))
    (same : ∀ x ∈ M (.alloc p), timeOf m'.cells x = timeOf m.cells x) : Aged p m' M (history ++ [e]) := by
  constructor
  · apply (aged.sorted.sublist sublist).imp_of_mem
    intro x y first second ordered
    rwa [same x first, same y second]
  · intro x member
    rw [same x member, List.filterMap_append]
    exact List.mem_append_left _ (aged.stamped x (sublist.subset member))

/-- An event that makes a packet set the newest of the partition. -/
theorem Aged.stamp {x : Nat} {l : List Nat} {time : Int} (aged : Aged p m L history) (stamps : e.stampIn p = some time)
    (latest : ∀ t ∈ history.filterMap (Event.stampIn p), t ≤ time) (sublist : l.Sublist (L (.alloc p))) (absent : x ∉ l)
    (shape : M (.alloc p) = l ++ [x]) (times : timeOf m'.cells = update (timeOf m.cells) x time) : Aged p m' M (history ++ [e]) := by
  have old (y : Nat) (member : y ∈ l) : timeOf m.cells y ∈ history.filterMap (Event.stampIn p) :=
    aged.stamped y (sublist.subset member)
  constructor
  · rw [shape, times]
    exact Lru.pairwise_stamp_last (aged.sorted.sublist sublist) absent fun y member => latest _ (old y member)
  · intro y member
    rw [shape, List.mem_append, List.mem_singleton] at member
    rw [times, List.filterMap_append, List.mem_append]
    by_cases new : y = x
    · subst new
      right
      simp [stamps]
    · rw [update_of_ne new]
      exact Or.inl (old y (member.resolve_right new))

theorem aged_extend (coherent : Coherent cfg m L C) (fits : cfg.Fits) (lawful : cfg.Lawful) (new : e.New cfg m L)
    (step : Step cfg m e m') (aged : Aged p m L history)
    (latest : ∀ t ∈ history.filterMap (Event.stampIn p), ∀ time, e.stampIn p = some time → t ≤ time) :
    ∃ M D, Coherent cfg m' M D ∧ Aged p m' M (history ++ [e]) := by
  have outcome := step_outcome coherent fits lawful new step
  cases step with
  | register q id related time state ran allocated committed =>
    rename_i logged slot
    obtain ⟨l, D, split, coherent', -, times, -⟩ := outcome
    refine ⟨_, D, coherent', ?_⟩
    have free (r : Fin cfg.numCores) : indexShift cfg.numCores + slot ∉ L (.alloc r) := fun taken =>
      nomatch coherent.valid.layout.forward.apart (show _ ∈ L (.free q) by simp [split]) taken
    by_cases own : q = p
    · subst own
      have stamps : (Event.registered q id time slot state).stampIn q = some time := if_pos rfl
      exact aged.stamp stamps (fun t earlier => latest t earlier time stamps) (List.Sublist.refl _) (free q)
        (update_self ..) times
    · have other : granted L q l (indexShift cfg.numCores + slot) (.alloc p) = L (.alloc p) := by
        rw [granted, update_of_ne fun same => own (ListId.alloc.inj same).symm, update_of_ne (by simp)]
      apply aged.keep
      · rw [other]
      · intro x member
        rw [other] at member
        have apart : x ≠ indexShift cfg.numCores + slot := by
          rintro rfl
          exact free p member
        rw [times, update_of_ne apart]
  | get q id time ran =>
    by_cases absent : ∀ x ∈ L (.alloc q), cfg.pktSetIdEq id (idOf m.cells x) = false
    · rw [coherent.get_miss fits lawful absent time] at ran
      cases ran
      exact ⟨L, C, coherent, aged.keep (List.Sublist.refl _) fun _ _ => rfl⟩
    · push Not at absent
      obtain ⟨x, member, same⟩ := absent
      obtain ⟨i, -, rfl⟩ := (coherent.valid.cover x).mp ⟨_, member⟩
      obtain ⟨l, k, split⟩ := List.append_of_mem member
      obtain ⟨cells, result, coherent', -, times⟩ := coherent.get_lift fits lawful split ((Bool.not_eq_false _).mp same) time
      rw [ran] at result
      cases result
      refine ⟨_, C, coherent', ?_⟩
      by_cases own : q = p
      · subst own
        have once := coherent.valid.layout.forward.nodup (.alloc q)
        rw [split, List.nodup_middle, List.nodup_cons] at once
        have stamps : (Event.got (S := S) q id time (some i)).stampIn q = some time := if_pos rfl
        by_cases alone : L (.alloc q) = [indexShift cfg.numCores + i]
        · rw [if_pos alone] at times
          obtain ⟨rfl, rfl⟩ : l = [] ∧ k = [] := by
            rw [alone] at split
            have lengths := congrArg List.length split
            simp only [List.length_append, List.length_cons, List.length_nil] at lengths
            exact ⟨List.eq_nil_of_length_eq_zero (by omega), List.eq_nil_of_length_eq_zero (by omega)⟩
          apply aged.keep
          · rw [update_self, alone]
            exact List.Sublist.refl _
          · exact fun x _ => congrFun times x
        · rw [if_neg alone] at times
          refine aged.stamp stamps (fun t earlier => latest t earlier time stamps) ?_ once.1 (update_self ..) times
          rw [split]
          exact (List.Sublist.refl l).append (List.sublist_cons_self _ k)
      · have other : update L (.alloc q) (l ++ k ++ [indexShift cfg.numCores + i]) (.alloc p) = L (.alloc p) :=
          update_of_ne (fun same => own (ListId.alloc.inj same).symm) _ _
        apply aged.keep
        · rw [other]
        · intro x inside
          rw [other] at inside
          have apart : x ≠ indexShift cfg.numCores + i := by
            rintro rfl
            exact own (ListId.alloc.inj (coherent.valid.layout.forward.apart member inside))
          change timeOf cells x = timeOf m.cells x
          rw [times]
          split_ifs
          · rfl
          · exact update_of_ne apart _ _
  | sweep q time handler ran =>
    obtain ⟨M, D, coherent', swept⟩ := outcome
    refine ⟨M, D, coherent', aged.keep ?_ fun x _ => congrFun swept.times x⟩
    by_cases own : p = q
    · subst own
      rw [swept.order]
      exact List.sublist_append_right _ _
    · rw [swept.others p own]

/-- The loop stops at the first packet set that is not expired; behind it there is no other. -/
theorem Removes.exact (removes : Removes cfg p handler lastTime m L C gone m' M D) (coherent : Coherent cfg m' M D)
    (aged : Aged p m L history) (stopped : concurrentDchainHasExpiredIndex cfg.numCores p.val lastTime m'.cells = none) :
    cellsOf cfg gone = (L (.alloc p)).filter fun x => decide (timeOf m.cells x < lastTime) := by
  have current : ∀ x ∈ M (.alloc p), ¬ timeOf m.cells x < lastTime := by
    intro x member
    have sorted := aged.sorted
    rw [removes.order] at sorted
    obtain ⟨-, rest, -⟩ := List.pairwise_append.mp sorted
    cases split : M (.alloc p) with
    | nil => simp [split] at member
    | cons y l =>
      obtain ⟨i, -, rfl⟩ := (coherent.valid.cover y).mp ⟨.alloc p, by simp [split]⟩
      rw [hasExpiredIndex_cons coherent.valid split, removes.times] at stopped
      have first : ¬ timeOf m.cells (indexShift cfg.numCores + i) < lastTime := by
        intro passed
        rw [if_pos passed] at stopped
        contradiction
      rw [split] at rest member
      rcases List.mem_cons.mp member with rfl | later
      · exact first
      · have ordered := (List.pairwise_cons.mp rest).1 x later
        omega
  rw [removes.order, List.filter_append, List.filter_eq_self.mpr, List.filter_eq_nil_iff.mpr, List.append_nil]
  · intro x member
    simpa using current x member
  · intro x member
    exact decide_eq_true (removes.old x member)

/-- The chains of the other partitions stay as they are. -/
theorem Removes.chain_eq (removes : Removes cfg p handler lastTime m L C gone m' M D) (coherent : Coherent cfg m L C) (fits : cfg.Fits)
    {q : Fin cfg.numCores} (other : q ≠ p) (key : Id) : D (fits.home key q) = C (fits.home key q) := by
  rw [removes.chains, List.filter_eq_self]
  intro x onChain
  rw [decide_eq_true_eq]
  intro deleted
  obtain ⟨r, allocated, bucket⟩ := (coherent.members _ x).mp onChain
  obtain rfl : r = q := Fin.ext (fits.partition_eq bucket)
  have own : x ∈ L (.alloc p) := by
    rw [removes.order]
    exact List.mem_append_left _ deleted
  exact other (ListId.alloc.inj (coherent.valid.layout.forward.apart allocated own))

theorem run_aged (fits : cfg.Fits) (lawful : cfg.Lawful) {init : Manager Id S}
    (coherent : Coherent cfg init (initialLists cfg.numCores cfg.maxNumPktSets) fun _ => [])
    (run : Trace (Step cfg) init history m) (fresh : Fresh cfg history)
    (ordered : (history.filterMap (Event.stampIn p)).Pairwise (· ≤ ·)) :
    ∃ L C, Coherent cfg m L C ∧ Represents cfg m L (registered cfg history) ∧ Aged p m L history := by
  refine run.rule (P := fun history m => Fresh cfg history → (history.filterMap (Event.stampIn p)).Pairwise (· ≤ ·) →
    ∃ L C, Coherent cfg m L C ∧ Represents cfg m L (registered cfg history) ∧ Aged p m L history) ?_ ?_ fresh ordered
  · intro _ _
    refine ⟨_, _, coherent, ?_, ?_, ?_⟩
    · intro p id slot state
      simp [registered, replay, initialLists]
    · exact List.Pairwise.nil
    · intro x member
      simp [initialLists] at member
  · intro past t e u _ before step fresh ordered
    rw [List.filterMap_append] at ordered
    obtain ⟨earlier, -, latest⟩ := List.pairwise_append.mp ordered
    obtain ⟨L, C, kept, represents, aged⟩ := before fresh.past earlier
    have unused : ∀ p id time slot state, e = .registered p id time slot state → registered cfg past p id = none := by
      rintro p id time slot state rfl
      exact fresh past [] p id time slot state rfl
    have new : e.New cfg t L := by
      cases e with
      | registered p id time slot state => exact (represents.none_iff kept).mp (unused p id time slot state rfl)
      | got | swept => trivial
    obtain ⟨-, M, D, coherent', represents'⟩ := step_represents fits lawful kept represents unused step
    obtain ⟨N, E, again, aged'⟩ := aged_extend kept fits lawful new step aged fun t recorded time stamps =>
      latest t recorded time (by simp [stamps])
    obtain rfl := coherent'.valid.layout.forward.unique again.valid.layout.forward
    refine ⟨M, D, coherent', ?_, aged'⟩
    rw [registered, List.map_append, List.map_singleton, replay_extend]
    exact represents'

/-- In every state of a run, whatever the runs of the handler are: the sweep of a partition
takes the packet sets whose times have passed, the oldest first, and nothing else. -/
theorem pkt_set_sweep_exact (fits : cfg.Fits) (lawful : cfg.Lawful) (memory : Manager Id S) :
    ∃ init, initPktSetManager cfg memory = some init ∧
      ∀ history m, Trace (Step cfg) init history m → Fresh cfg history →
        ∀ p : Fin cfg.numCores, (history.filterMap (Event.stampIn p)).Pairwise (· ≤ ·) → ∀ handler time,
          ∃ gone m' L M C D, deleteExpiredPktSets cfg handler time p.val m = some (gone, m') ∧
            Coherent cfg m L C ∧ Represents cfg m L (registered cfg history) ∧ Coherent cfg m' M D ∧
            Refines cfg m' (remove cfg.pktSetIdEq p (gone.map Expired.id) (registered cfg history)) ∧
            Removes cfg p handler (time - cfg.pktSetValidityDuration) m L C gone m' M D ∧
            (cellsOf cfg gone = (L (.alloc p)).filter fun x => decide (timeOf m.cells x < time - cfg.pktSetValidityDuration)) ∧
            ∀ q, q ≠ p → ∀ key, D (fits.home key q) = C (fits.home key q) := by
  obtain ⟨init, ended, coherent⟩ := init_coherent fits memory
  refine ⟨init, ended, ?_⟩
  intro history m run fresh p ordered handler time
  obtain ⟨L, C, kept, represents, aged⟩ := run_aged fits lawful coherent run fresh ordered
  obtain ⟨gone, m', N, E, ran, again, swept, -⟩ := kept.sweep fits lawful handler time p
  obtain ⟨M, D, coherent', removes, stopped⟩ := removes_of_sweep kept fits lawful ran
  obtain rfl := coherent'.valid.layout.forward.unique again.valid.layout.forward
  have represents' := @Represents.removed _ _ _ _ _ _ _ _ _ time _ _ _ represents kept lawful swept
  exact ⟨gone, m', L, M, C, D, ran, kept, represents, coherent', represents'.refines coherent' fits lawful, removes,
    removes.exact coherent' aged stopped, fun q other key => removes.chain_eq kept fits other key⟩

theorem pkt_set_sweep_exact_sample : sampleConfig.Fits ∧ sampleConfig.Lawful ∧ ∀ memory : Manager Nat Nat,
    ∃ init, initPktSetManager sampleConfig memory = some init ∧
      ∀ history m, Trace (Step sampleConfig) init history m → Fresh sampleConfig history →
        ∀ p : Fin sampleConfig.numCores, (history.filterMap (Event.stampIn p)).Pairwise (· ≤ ·) → ∀ handler time,
          ∃ gone m' L M C D, deleteExpiredPktSets sampleConfig handler time p.val m = some (gone, m') ∧
            Coherent sampleConfig m L C ∧ Represents sampleConfig m L (registered sampleConfig history) ∧ Coherent sampleConfig m' M D ∧
            Refines sampleConfig m' (remove sampleConfig.pktSetIdEq p (gone.map Expired.id) (registered sampleConfig history)) ∧
            Removes sampleConfig p handler (time - sampleConfig.pktSetValidityDuration) m L C gone m' M D ∧
            (cellsOf sampleConfig gone =
              (L (.alloc p)).filter fun x => decide (timeOf m.cells x < time - sampleConfig.pktSetValidityDuration)) ∧
            ∀ q, q ≠ p → ∀ key, D (sampleConfig_fits.home key q) = C (sampleConfig_fits.home key q) :=
  ⟨sampleConfig_fits, sampleConfig_lawful, fun memory => pkt_set_sweep_exact sampleConfig_fits sampleConfig_lawful memory⟩

end Exact
end Nfos.PktSetManager
