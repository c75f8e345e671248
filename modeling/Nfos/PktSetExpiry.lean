import Nfos.PktSetRefinement

/-! When packet sets expire. A lookup is meant to keep its packet set for the
validity duration, but it leaves the time of the only packet set of a partition
as it is. -/
namespace Nfos.PktSetManager
open Function Linked ConcurrentDoubleChain CellData ConcurrentMap Run Registry
variable {Id S : Type} {cfg : Config Id}

def Event.partition {n : Nat} : Event n Id S → Fin n
  | registered p _ _ _ _ => p
  | got p _ _ _ => p
  | swept p _ _ => p

def Event.time {n : Nat} : Event n Id S → Int
  | registered _ _ time _ _ => time
  | got _ _ time _ => time
  | swept _ time _ => time

/-- The times of the operations on a partition do not decrease. -/
def Ordered {n : Nat} (history : List (Event n Id S)) : Prop :=
  history.Pairwise fun e f => e.partition = f.partition → e.time ≤ f.time

/-- The packet set is registered or found by the event. -/
def Event.Uses (cfg : Config Id) (p : Fin cfg.numCores) (id : Id) : Event cfg.numCores Id S → Prop
  | registered q k _ _ _ => q = p ∧ cfg.pktSetIdEq id k = true
  | got q k _ (some _) => q = p ∧ cfg.pktSetIdEq id k = true
  | got _ _ _ none => False
  | swept _ _ _ => False

/-- The second event is not a sweep that removes a packet set too early after
its use by the first one. -/
def InTime (cfg : Config Id) (e f : Event cfg.numCores Id S) : Prop :=
  ∀ p id now gone, e.Uses cfg p id → f = .swept p now gone →
    now - cfg.pktSetValidityDuration ≤ e.time → ∀ g ∈ gone, cfg.pktSetIdEq id g.id = false

def NoEarlyExpiry (cfg : Config Id) (history : List (Event cfg.numCores Id S)) : Prop :=
  history.Pairwise (InTime cfg)

/-- The time of a packet set that is found is updated or need not be: it is not
alone in its partition, or its time is not older. -/
def Refreshes (cfg : Config Id) (m : Manager Id S) (p : Fin cfg.numCores) (id : Id) (time : Int) : Prop :=
  ∀ i < cfg.maxNumPktSets, m.cells.indOf (indexShift cfg.numCores + i) = allocHead p →
    cfg.pktSetIdEq id (idOf m.cells (indexShift cfg.numCores + i)) = true →
    (∃ j < cfg.maxNumPktSets, j ≠ i ∧ m.cells.indOf (indexShift cfg.numCores + j) = allocHead p) ∨
      time ≤ timeOf m.cells (indexShift cfg.numCores + i)

/-- A step whose lookup meets the condition in the state before it. -/
def RefreshStep (cfg : Config Id) (m : Manager Id S) (e : Event cfg.numCores Id S) (m' : Manager Id S) :
    Prop :=
  Step cfg m e m' ∧ ∀ p id time slot, e = .got p id time slot → Refreshes cfg m p id time

/-- Every registered packet set carries a time at least that of each of its uses. -/
def Stamped (cfg : Config Id) (m : Manager Id S) (L : ListId cfg.numCores → List Nat)
    (history : List (Event cfg.numCores Id S)) : Prop :=
  ∀ p, ∀ x ∈ L (.alloc p), ∀ e ∈ history, e.Uses cfg p (idOf m.cells x) → e.time ≤ timeOf m.cells x

variable {m m' : Manager Id S} {L : ListId cfg.numCores → List Nat} {C : Fin cfg.numBuckets → List Nat}
  {e f : Event cfg.numCores Id S} {history : List (Event cfg.numCores Id S)} {p : Fin cfg.numCores}
  {a b : Id}

theorem Event.Uses.partition_eq (uses : e.Uses cfg p a) : e.partition = p := by
  cases e with
  | registered => exact uses.1
  | got q k time slot =>
    cases slot with
    | none => exact uses.elim
    | some => exact uses.1
  | swept => exact uses.elim

theorem Event.Uses.congr (lawful : cfg.Lawful) (uses : e.Uses cfg p a) (same : cfg.pktSetIdEq a b = true) :
    e.Uses cfg p b := by
  have back := lawful.equivalence.symm same
  cases e with
  | registered => exact ⟨uses.1, lawful.equivalence.trans back uses.2⟩
  | got q k time slot =>
    cases slot with
    | none => exact uses.elim
    | some => exact ⟨uses.1, lawful.equivalence.trans back uses.2⟩
  | swept => exact uses.elim

/-- A use of an id at most as late as the time of its cell. -/
theorem Stamped.extend (outcome : Outcome cfg m L m' e) (coherent : Coherent cfg m L C)
    (lawful : cfg.Lawful) (new : e.New cfg m L)
    (refreshes : ∀ p id time slot, e = .got p id time slot → Refreshes cfg m p id time)
    (latest : ∀ f ∈ history, f.partition = e.partition → f.time ≤ e.time)
    (stamped : Stamped cfg m L history) :
    ∃ M D, Coherent cfg m' M D ∧ Stamped cfg m' M (history ++ [e]) := by
  cases e with
  | registered p id time slot state =>
    obtain ⟨l, D, split, coherent', ids, times, _⟩ := outcome
    refine ⟨_, D, coherent', fun q x member f recorded uses => ?_⟩
    have free : indexShift cfg.numCores + slot ∉ L (.alloc q) := fun allocated =>
      nomatch coherent.valid.layout.forward.apart (show _ ∈ L (.free p) by simp [split]) allocated
    rw [times]
    rw [ids] at uses
    rcases mem_granted.mp member with old | ⟨rfl, rfl⟩
    · have other : x ≠ indexShift cfg.numCores + slot := fun same => free (same ▸ old)
      rw [update_of_ne other] at uses ⊢
      rcases List.mem_append.mp recorded with earlier | last
      · exact stamped q x old f earlier uses
      · rw [List.mem_singleton.mp last] at uses
        obtain ⟨rfl, same⟩ := uses
        rw [lawful.eq_comm, new x old] at same
        contradiction
    · rw [update_self]
      rcases List.mem_append.mp recorded with earlier | last
      · exact latest f earlier uses.partition_eq
      · rw [List.mem_singleton.mp last]
        exact Int.le_refl time
  | got p id time found =>
    cases found with
    | none =>
      obtain ⟨_, rfl⟩ := outcome
      refine ⟨L, C, coherent, fun q x member f recorded uses => ?_⟩
      rcases List.mem_append.mp recorded with earlier | last
      · exact stamped q x member f earlier uses
      · rw [List.mem_singleton.mp last] at uses
        exact uses.elim
    | some slot =>
      obtain ⟨M, D, found, same, coherent', members, ids, _, times⟩ := outcome
      refine ⟨M, D, coherent', fun q x member f recorded uses => ?_⟩
      have old := (members q x).mp member
      rw [ids] at uses
      by_cases here : x = indexShift cfg.numCores + slot
      · subst here
        obtain rfl : q = p := ListId.alloc.inj (coherent.valid.layout.forward.apart old found)
        by_cases alone : L (.alloc q) = [indexShift cfg.numCores + slot]
        · rw [times, if_pos alone]
          rcases List.mem_append.mp recorded with earlier | last
          · exact stamped q _ old f earlier uses
          · rw [List.mem_singleton.mp last]
            have condition := refreshes q id time (some slot) rfl slot (coherent.below_of_mem old)
              (coherent.valid.allocated q _ old) same
            refine condition.resolve_left ?_
            rintro ⟨j, below, other, named⟩
            have allocated := (coherent.valid.mem_alloc_iff below).mp named
            rw [alone, List.mem_singleton] at allocated
            omega
        · rw [times, if_neg alone, update_self]
          rcases List.mem_append.mp recorded with earlier | last
          · exact latest f earlier uses.partition_eq
          · rw [List.mem_singleton.mp last]
            exact Int.le_refl time
      · have kept : timeOf m'.cells x = timeOf m.cells x := by
          rw [times]
          split_ifs
          · rfl
          · exact update_of_ne here _ _
        rw [kept]
        rcases List.mem_append.mp recorded with earlier | last
        · exact stamped q x old f earlier uses
        · rw [List.mem_singleton.mp last] at uses
          obtain ⟨rfl, equal⟩ := uses
          exact absurd (coherent.distinct p x old _ found (lawful.equivalence.trans equal same)) here
  | swept p time gone =>
    obtain ⟨M, D, coherent', swept⟩ := outcome
    refine ⟨M, D, coherent', fun q x member f recorded uses => ?_⟩
    have old : x ∈ L (.alloc q) := by
      by_cases own : q = p
      · rw [own, swept.order, List.mem_append]
        exact Or.inr (own ▸ member)
      · rwa [← swept.others q own]
    rw [swept.ids] at uses
    rw [swept.times]
    rcases List.mem_append.mp recorded with earlier | last
    · exact stamped q x old f earlier uses
    · rw [List.mem_singleton.mp last] at uses
      exact uses.elim

/-- A sweep removes only packet sets whose uses are all in the past of the
validity duration. -/
theorem Stamped.inTime (stamped : Stamped cfg m L history) (outcome : Outcome cfg m L m' e)
    (lawful : cfg.Lawful) : ∀ f ∈ history, InTime cfg f e := by
  rintro f recorded p id now gone uses rfl early g deleted
  obtain ⟨M, D, _, swept⟩ := outcome
  obtain ⟨named, expired⟩ := swept.old g deleted
  cases same : cfg.pktSetIdEq id g.id with
  | false => rfl
  | true =>
    have member : indexShift cfg.numCores + g.index ∈ L (.alloc p) := by
      rw [swept.order]
      exact List.mem_append_left _ (List.mem_map_of_mem deleted)
    have after := stamped p _ member f recorded (named ▸ uses.congr lawful same)
    omega

/-- The lists are determined by the cells. -/
theorem Coherent.lists_unique {M : ListId cfg.numCores → List Nat} {D : Fin cfg.numBuckets → List Nat}
    (first : Coherent cfg m L C) (second : Coherent cfg m M D) : L = M :=
  first.valid.layout.forward.unique second.valid.layout.forward

theorem run_stamped (fits : cfg.Fits) (lawful : cfg.Lawful) {init : Manager Id S}
    (coherent : Coherent cfg init (initialLists cfg.numCores cfg.maxNumPktSets) fun _ => [])
    (run : Trace (RefreshStep cfg) init history m) (fresh : Fresh cfg history)
    (ordered : Ordered history) :
    ∃ L C, Coherent cfg m L C ∧ Represents cfg m L (registered cfg history) ∧
      Stamped cfg m L history ∧ NoEarlyExpiry cfg history := by
  refine run.rule (P := fun history m => Fresh cfg history → Ordered history →
    ∃ L C, Coherent cfg m L C ∧ Represents cfg m L (registered cfg history) ∧
      Stamped cfg m L history ∧ NoEarlyExpiry cfg history) ?_ ?_ fresh ordered
  · refine fun _ _ => ⟨_, _, coherent, fun p id slot state => ?_, fun _ _ _ f recorded => ?_,
      List.Pairwise.nil⟩
    · simp [registered, replay, initialLists]
    · simp at recorded
  · intro past t e u _ before step fresh ordered
    obtain ⟨earlier, _, latest⟩ := List.pairwise_append.mp ordered
    obtain ⟨L, C, kept, represents, stamped, inTime⟩ := before fresh.past earlier
    have unused : ∀ p id time slot state, e = .registered p id time slot state →
        registered cfg past p id = none := by
      rintro p id time slot state rfl
      exact fresh past [] p id time slot state rfl
    have new : e.New cfg t L := by
      cases e with
      | registered p id time slot state =>
        exact (represents.none_iff kept).mp (unused p id time slot state rfl)
      | got | swept => trivial
    obtain ⟨outcome, M, D, coherent', represents'⟩ :=
      step_represents fits lawful kept represents unused step.1
    obtain ⟨N, E, again, stamped'⟩ := Stamped.extend outcome kept lawful new step.2
      (fun f recorded => latest f recorded e List.mem_cons_self) stamped
    obtain rfl := coherent'.lists_unique again
    refine ⟨M, D, coherent', ?_, stamped', ?_⟩
    · rw [registered, List.map_append, List.map_singleton, replay_extend]
      exact represents'
    · refine List.pairwise_append.mpr ⟨inTime, List.pairwise_singleton _ _, fun f recorded g last => ?_⟩
      rw [List.mem_singleton.mp last]
      exact stamped.inTime outcome lawful f recorded

/-- No packet set expires early in a run whose lookups find a packet set only
where another one is in the partition or its time is not older. -/
theorem no_early_expiry (fits : cfg.Fits) (lawful : cfg.Lawful) (memory : Manager Id S) :
    ∃ init, initPktSetManager cfg memory = some init ∧
      ∀ history m, Trace (RefreshStep cfg) init history m → Fresh cfg history → Ordered history →
        NoEarlyExpiry cfg history := by
  obtain ⟨init, ended, coherent⟩ := init_coherent fits memory
  refine ⟨init, ended, fun history m run fresh ordered => ?_⟩
  obtain ⟨_, _, _, _, _, inTime⟩ := run_stamped fits lawful coherent run fresh ordered
  exact inTime

theorem no_early_expiry_sample : sampleConfig.Fits ∧ sampleConfig.Lawful ∧
    ∀ memory : Manager Nat Nat, ∃ init, initPktSetManager sampleConfig memory = some init ∧
      ∀ history m, Trace (RefreshStep sampleConfig) init history m → Fresh sampleConfig history →
        Ordered history → NoEarlyExpiry sampleConfig history :=
  ⟨sampleConfig_fits, sampleConfig_lawful,
    fun memory => no_early_expiry sampleConfig_fits sampleConfig_lawful memory⟩

/-- The only packet set of a partition is deleted in spite of a lookup at `now`
if it was registered before `time - validity`. -/
theorem lookup_of_single_is_lost {slot : Nat} (coherent : Coherent cfg m L C) (fits : cfg.Fits)
    (lawful : cfg.Lawful) (id : Id) (now time : Int) (alone : L (.alloc p) = [indexShift cfg.numCores + slot])
    (same : cfg.pktSetIdEq id (idOf m.cells (indexShift cfg.numCores + slot)) = true)
    (stale : timeOf m.cells (indexShift cfg.numCores + slot) < time - cfg.pktSetValidityDuration)
    (handler : Nat → ExpiredRuns S) :
    ∃ found gone last, getPktSetState cfg id p.val now m = some (some slot, found) ∧
      deleteExpiredPktSets cfg handler time p.val found = some (gone, last) ∧
      ∃ g ∈ gone, cfg.pktSetIdEq id g.id = true := by
  have present : indexShift cfg.numCores + slot ∈ L (.alloc p) := by simp [alone]
  obtain ⟨cells, M, ran, kept, members, ids, times⟩ :=
    coherent.get_hit fits lawful present same now
  rw [if_pos alone] at times
  obtain ⟨gone, last, N, D, swept, coherent', effect, stopped⟩ :=
    kept.sweep fits lawful handler time p
  refine ⟨_, gone, last, ran, swept, ?_⟩
  cases gone with
  | nil =>
    have first : indexShift cfg.numCores + slot ∈ N (.alloc p) := by
      have order := effect.order
      rw [List.map_nil, List.nil_append] at order
      rw [← order, members, alone]
      exact List.mem_cons_self
    obtain ⟨y, l, split⟩ : ∃ y l, N (.alloc p) = y :: l := List.exists_cons_of_ne_nil (List.ne_nil_of_mem first)
    obtain ⟨j, _, rfl⟩ := (coherent'.valid.cover y).mp ⟨.alloc p, by simp [split]⟩
    have back : indexShift cfg.numCores + j ∈ L (.alloc p) := by
      rw [← members, effect.order, List.map_nil, List.nil_append, split]
      exact List.mem_cons_self
    rw [alone, List.mem_singleton] at back
    rw [hasExpiredIndex_cons coherent'.valid split, back, effect.times, times, if_pos stale] at stopped
    contradiction
  | cons g rest =>
    have deleted : g ∈ g :: rest := List.mem_cons_self
    have member : indexShift cfg.numCores + g.index ∈ L (.alloc p) := by
      rw [← members, effect.order]
      exact List.mem_append_left _ (List.mem_map_of_mem deleted)
    rw [alone, List.mem_singleton] at member
    refine ⟨g, deleted, ?_⟩
    rw [(effect.old g deleted).1, member]
    exact (congrArg (fun ids => cfg.pktSetIdEq id (ids (indexShift cfg.numCores + slot))) ids).trans same

def samplePartition : Fin sampleConfig.numCores := ⟨0, by decide⟩

/-- With a validity of 1000, a packet set registered at 0 and found again at 1000
is deleted at 1001: it is the only one of its partition. -/
theorem early_expiry_of_single (memory : Manager Nat Nat) :
    ∃ init slot gone m, initPktSetManager sampleConfig memory = some init ∧
      Trace (Step sampleConfig) init [.registered samplePartition 5 0 slot 7,
        .got samplePartition 5 1000 (some slot), .swept samplePartition 1001 gone] m ∧
      ∃ g ∈ gone, sampleConfig.pktSetIdEq 5 g.id = true := by
  obtain ⟨init, ended, coherent⟩ := init_coherent sampleConfig_fits memory
  have more : initialLists sampleConfig.numCores sampleConfig.maxNumPktSets (.free samplePartition) ≠ [] := by
    simp [initialLists, sampleConfig, maxNumPktSetsDefault]
  have free := (hasFreeIndexes_iff coherent.valid.layout samplePartition).mpr more
  have ran : addPktSetLog sampleConfig 7 samplePartition.val none
      (addPktSetLogClear samplePartition.val init) = (true, (addPktSetLog sampleConfig 7 samplePartition.val
        none (addPktSetLogClear samplePartition.val init)).2) := by
    refine Prod.ext ?_ rfl
    rw [addPktSetLog, if_neg (by simpa [addPktSetLogClear] using free)]
  obtain ⟨⟨slot, l, split⟩, kept, _, _, flag, _⟩ := logged_split coherent ran
  obtain ⟨index, m, D, committed, coherent', ids, times, _⟩ :=
    kept.commit sampleConfig_fits sampleConfig_lawful 5 split (by simp [initialLists]) flag 0
  have alone : granted (initialLists sampleConfig.numCores sampleConfig.maxNumPktSets) samplePartition l
      (indexShift sampleConfig.numCores + slot) (.alloc samplePartition) =
        [indexShift sampleConfig.numCores + slot] := by
    simp [granted, initialLists]
  obtain ⟨found, gone, last, looked, swept, deleted⟩ := lookup_of_single_is_lost coherent'
    sampleConfig_fits sampleConfig_lawful 5 1000 1001 alone (by rw [ids, update_self]; rfl)
    (by rw [times, update_self]; decide) fun _ => ⟨[], fun state => state⟩
  refine ⟨init, slot, gone, last, ended, ?_, deleted⟩
  have run : Trace (Step sampleConfig) init [.registered samplePartition 5 0 slot 7] m :=
    Trace.start.extend (Step.register samplePartition 5 none 0 7 ran index committed)
  exact (run.extend (Step.get samplePartition 5 1000 looked)).extend
    (Step.sweep samplePartition 1001 _ swept)

theorem not_no_early_expiry : ∃ (memory init : Manager Nat Nat)
    (history : List (Event sampleConfig.numCores Nat Nat)) (m : Manager Nat Nat),
    initPktSetManager sampleConfig memory = some init ∧ Trace (Step sampleConfig) init history m ∧
      Fresh sampleConfig history ∧ Ordered history ∧ ¬ NoEarlyExpiry sampleConfig history := by
  have memory : Manager Nat Nat :=
    ⟨fun _ => 0, fun _ => ⟨0, 0, 0, ⟨0, 0, 0⟩⟩, fun _ => 0, fun _ => ⟨false, 0, 0⟩⟩
  obtain ⟨init, slot, gone, m, ended, run, g, deleted, same⟩ := early_expiry_of_single memory
  refine ⟨memory, init, _, m, ended, run, ?_, ?_, ?_⟩
  · intro past later p id time slot state split
    cases past with
    | nil => rfl
    | cons first past =>
      have rest : [_, _] = past ++ .registered p id time slot state :: later := (List.cons.inj split).2
      have member : Event.registered p id time slot state ∈ past ++ .registered p id time slot state :: later :=
        List.mem_append_right _ List.mem_cons_self
      rw [← rest] at member
      simp at member
  · simp [Ordered, Event.time]
  · intro inTime
    have pair := (List.pairwise_cons.mp (List.pairwise_cons.mp inTime).2).1 _ List.mem_cons_self
    have early : (1001 : Int) - sampleConfig.pktSetValidityDuration ≤ 1000 := by decide
    have kept := pair samplePartition 5 1001 gone ⟨rfl, rfl⟩ rfl early g deleted
    exact Bool.false_ne_true (kept.symm.trans same)

end Nfos.PktSetManager
