import Nfos.PktSetOperations
import Nfos.Lib.Registry

/-! Runs of the packet-set manager. The manager refines a registry: what each
partition has registered is replayed from the history of the run. -/
namespace Nfos.PktSetManager
open Function Linked ConcurrentDoubleChain CellData ConcurrentMap Run Registry
variable {Id S : Type} {cfg : Config Id}

/-- Operations with their arguments and results. -/
inductive Event (n : Nat) (Id S : Type) where
  | registered (partition : Fin n) (id : Id) (time : Int) (slot : Nat) (state : S)
  | got (partition : Fin n) (id : Id) (time : Int) (slot : Option Nat)
  | swept (partition : Fin n) (time : Int) (gone : List (Expired Id S))

/-- A registration is a cleared log, `add_pkt_set_log` returning true and the commit. -/
inductive Step (cfg : Config Id) : Manager Id S → Event cfg.numCores Id S → Manager Id S → Prop where
  | register {m logged m' slot} (p : Fin cfg.numCores) (id : Id) (related : Option Id) (time : Int)
      (state : S) :
      addPktSetLog cfg state p.val related (addPktSetLogClear p.val m) = (true, logged) →
      (concurrentDchainAllocateNewIndex cfg.numCores p.val time logged.cells).1 = some slot →
      addPktSetCommit cfg id p.val time logged = some m' →
      Step cfg m (.registered p id time slot state) m'
  | get {m slot m'} (p : Fin cfg.numCores) (id : Id) (time : Int) :
      getPktSetState cfg id p.val time m = some (slot, m') → Step cfg m (.got p id time slot) m'
  | sweep {m gone m'} (p : Fin cfg.numCores) (time : Int) (handler : Nat → ExpiredRuns S) :
      deleteExpiredPktSets cfg handler time p.val m = some (gone, m') →
      Step cfg m (.swept p time gone) m'

/-- What an event means for the registered packet sets: their slots and states. -/
def Event.entry {n : Nat} : Event n Id S → Registry.Event (Fin n) Id (Nat × S)
  | registered p id _ slot state => .added p id (slot, state)
  | got _ _ _ _ => .looked
  | swept p _ gone => .removed p (gone.map Expired.id)

/-- The packet sets that have been registered and not deleted since. -/
def registered (cfg : Config Id) (history : List (Event cfg.numCores Id S)) :
    Entries (Fin cfg.numCores) Id (Nat × S) :=
  replay cfg.pktSetIdEq (history.map Event.entry)

/-- Only ids that are not registered in the partition are registered there. -/
def Fresh (cfg : Config Id) (history : List (Event cfg.numCores Id S)) : Prop :=
  ∀ past later p id time slot state, history = past ++ .registered p id time slot state :: later →
    registered cfg past p id = none

theorem Fresh.past {history : List (Event cfg.numCores Id S)} {e : Event cfg.numCores Id S}
    (fresh : Fresh cfg (history ++ [e])) : Fresh cfg history := by
  intro past later p id time slot state split
  apply fresh past (later ++ [e]) p id time slot state
  rw [split]
  simp

/-- The packet sets of a state are those of a registry. -/
def Represents (cfg : Config Id) (m : Manager Id S) (L : ListId cfg.numCores → List Nat)
    (A : Entries (Fin cfg.numCores) Id (Nat × S)) : Prop :=
  ∀ p id slot state, A p id = some (slot, state) ↔
    indexShift cfg.numCores + slot ∈ L (.alloc p) ∧
      cfg.pktSetIdEq id (idOf m.cells (indexShift cfg.numCores + slot)) = true ∧
      m.pktSetState slot = state

/-- The manager as a finite map from the registered packet sets to their slots. -/
structure Refines (cfg : Config Id) (m : Manager Id S)
    (A : Entries (Fin cfg.numCores) Id (Nat × S)) : Prop where
  lookup : ∀ p id time, ∃ m', getPktSetState cfg id p.val time m = some ((A p id).map Prod.fst, m')
  stored : ∀ p id slot state, A p id = some (slot, state) → m.pktSetState slot = state
  apart : ∀ p q a b slot s t, A p a = some (slot, s) → A q b = some (slot, t) →
    p = q ∧ cfg.pktSetIdEq a b = true
  chains : ∃ C : Fin cfg.numBuckets → List Nat,
    (∀ b, Path (links cfg.numCores m.buckets m.cells) (.bucket b.val) ((C b).map .cell) .null ∧
      (C b).Nodup ∧ ∀ x, x ∈ C b ↔ ∃ p id slot state, A p id = some (slot, state) ∧
        x = indexShift cfg.numCores + slot ∧ cfg.pktSetIdEq id (idOf m.cells x) = true ∧
        bucketId cfg.map id p.val = b.val) ∧
    ∀ i < cfg.maxNumPktSets, m.cells.indOf (indexShift cfg.numCores + i) = -1 →
      (∀ b, indexShift cfg.numCores + i ∉ C b) ∧
        mapChainNextOf m.cells (indexShift cfg.numCores + i) = -1
  commits : ∀ (p : Fin cfg.numCores) id related time state logged,
    addPktSetLog cfg state p.val related (addPktSetLogClear p.val m) = (true, logged) →
    A p id = none → ∃ slot m', Step cfg m (.registered p id time slot state) m'
  sweeps : ∀ handler time (p : Fin cfg.numCores),
    ∃ gone m', deleteExpiredPktSets cfg handler time p.val m = some (gone, m')

variable {m m' : Manager Id S} {L : ListId cfg.numCores → List Nat} {C : Fin cfg.numBuckets → List Nat}
  {A : Entries (Fin cfg.numCores) Id (Nat × S)} {p : Fin cfg.numCores} {id : Id}
  {e : Event cfg.numCores Id S}

theorem Represents.none_iff (represents : Represents cfg m L A) (coherent : Coherent cfg m L C) :
    A p id = none ↔ ∀ x ∈ L (.alloc p), cfg.pktSetIdEq id (idOf m.cells x) = false := by
  constructor
  · intro absent x member
    obtain ⟨slot, _, rfl⟩ := (coherent.valid.cover x).mp ⟨_, member⟩
    cases same : cfg.pktSetIdEq id (idOf m.cells (indexShift cfg.numCores + slot)) with
    | false => rfl
    | true =>
      have present := (represents p id slot _).mpr ⟨member, same, rfl⟩
      rw [absent] at present
      contradiction
  · intro absent
    cases present : A p id with
    | none => rfl
    | some entry =>
      obtain ⟨member, same, _⟩ := (represents p id entry.1 entry.2).mp present
      rw [absent _ member] at same
      contradiction

/-- After `add_pkt_set_log` returned true the own free list has a first index. -/
theorem logged_split {state : S} {related : Option Id} {logged : Manager Id S}
    (coherent : Coherent cfg m L C)
    (ran : addPktSetLog cfg state p.val related (addPktSetLogClear p.val m) = (true, logged)) :
    (∃ i l, L (.free p) = (indexShift cfg.numCores + i) :: l) ∧ Coherent cfg logged L C ∧
      logged.cells = m.cells ∧ logged.pktSetState = m.pktSetState ∧
      (logged.log p.val).addPktSet = true ∧ (logged.log p.val).pktSetState = state := by
  have free : concurrentDchainImplHasFreeIndexes cfg.numCores m.cells p.val = true := by
    cases answer : concurrentDchainImplHasFreeIndexes cfg.numCores m.cells p.val with
    | true => rfl
    | false => simp [addPktSetLog, addPktSetLogClear, answer] at ran
  have more := (hasFreeIndexes_iff coherent.valid.layout p).mp free
  simp only [addPktSetLog, addPktSetLogClear, free, Bool.not_true, Bool.false_eq_true, if_false,
    Prod.mk.injEq, true_and] at ran
  subst ran
  refine ⟨?_, coherent.relink rfl coherent.valid (fun _ _ => Iff.rfl) rfl rfl, rfl, rfl, by simp, by simp⟩
  cases split : L (.free p) with
  | nil => exact absurd split more
  | cons x l =>
    obtain ⟨i, _, rfl⟩ := (coherent.valid.cover x).mp ⟨.free p, by simp [split]⟩
    exact ⟨i, l, rfl⟩

/-- All that an operation on a coherent state can do. -/
def Outcome (cfg : Config Id) (m : Manager Id S) (L : ListId cfg.numCores → List Nat) (m' : Manager Id S) :
    Event cfg.numCores Id S → Prop
  | .registered p id time slot state => ∃ l D,
      L (.free p) = (indexShift cfg.numCores + slot) :: l ∧
      Coherent cfg m' (granted L p l (indexShift cfg.numCores + slot)) D ∧
      idOf m'.cells = update (idOf m.cells) (indexShift cfg.numCores + slot) id ∧
      timeOf m'.cells = update (timeOf m.cells) (indexShift cfg.numCores + slot) time ∧
      m'.pktSetState = update m.pktSetState slot state
  | .got p id _ none => (∀ x ∈ L (.alloc p), cfg.pktSetIdEq id (idOf m.cells x) = false) ∧ m' = m
  | .got p id time (some slot) => ∃ M D,
      indexShift cfg.numCores + slot ∈ L (.alloc p) ∧
      cfg.pktSetIdEq id (idOf m.cells (indexShift cfg.numCores + slot)) = true ∧
      Coherent cfg m' M D ∧ (∀ q y, y ∈ M (.alloc q) ↔ y ∈ L (.alloc q)) ∧
      idOf m'.cells = idOf m.cells ∧ m'.pktSetState = m.pktSetState ∧
      timeOf m'.cells = if L (.alloc p) = [indexShift cfg.numCores + slot] then timeOf m.cells
        else update (timeOf m.cells) (indexShift cfg.numCores + slot) time
  | .swept p time gone => ∃ M D, Coherent cfg m' M D ∧
      Swept cfg p (time - cfg.pktSetValidityDuration) m L gone m' M

/-- An id that is registered by the event is not in the partition yet. -/
def Event.New (cfg : Config Id) (m : Manager Id S) (L : ListId cfg.numCores → List Nat) :
    Event cfg.numCores Id S → Prop
  | registered p id _ _ _ => ∀ x ∈ L (.alloc p), cfg.pktSetIdEq id (idOf m.cells x) = false
  | _ => True

theorem step_outcome (coherent : Coherent cfg m L C) (fits : cfg.Fits) (lawful : cfg.Lawful)
    (new : e.New cfg m L) (step : Step cfg m e m') : Outcome cfg m L m' e := by
  cases step with
  | register p id related time state ran allocated committed =>
    obtain ⟨⟨i, l, split⟩, kept, cells, states, flag, value⟩ := logged_split coherent ran
    obtain ⟨index, after, D, result, coherent', ids, times, slots⟩ :=
      kept.commit fits lawful id split (by rwa [cells]) flag time
    rw [allocated] at index
    cases Option.some.inj index
    rw [committed] at result
    cases Option.some.inj result
    rw [cells] at ids times
    rw [states, value] at slots
    exact ⟨l, D, split, coherent', ids, times, slots⟩
  | get p id time ran =>
    by_cases absent : ∀ x ∈ L (.alloc p), cfg.pktSetIdEq id (idOf m.cells x) = false
    · rw [coherent.get_miss fits lawful absent time] at ran
      cases ran
      exact ⟨absent, rfl⟩
    · push Not at absent
      obtain ⟨x, member, same⟩ := absent
      obtain ⟨i, _, rfl⟩ := (coherent.valid.cover x).mp ⟨_, member⟩
      have equal := (Bool.not_eq_false _).mp same
      obtain ⟨cells, M, result, coherent', members, ids, times⟩ :=
        coherent.get_hit fits lawful member equal time
      rw [ran] at result
      cases result
      exact ⟨M, C, member, equal, coherent', members, ids, rfl, times⟩
  | sweep p time handler ran =>
    obtain ⟨gone, after, M, D, result, coherent', swept, _⟩ := coherent.sweep fits lawful handler time p
    rw [ran] at result
    cases result
    exact ⟨M, D, coherent', swept⟩

theorem Represents.added {time : Int} {slot : Nat} {state : S} (represents : Represents cfg m L A)
    (coherent : Coherent cfg m L C) (lawful : cfg.Lawful)
    (new : ∀ x ∈ L (.alloc p), cfg.pktSetIdEq id (idOf m.cells x) = false) {l : List Nat}
    (split : L (.free p) = (indexShift cfg.numCores + slot) :: l)
    (ids : idOf m'.cells = update (idOf m.cells) (indexShift cfg.numCores + slot) id)
    (states : m'.pktSetState = update m.pktSetState slot state) :
    Represents cfg m' (granted L p l (indexShift cfg.numCores + slot))
      ((Event.registered p id time slot state).entry.after cfg.pktSetIdEq A) := by
  have free : ∀ q, indexShift cfg.numCores + slot ∉ L (.alloc q) := fun q allocated =>
    nomatch coherent.valid.layout.forward.apart (show _ ∈ L (.free p) by simp [split]) allocated
  intro q k j s
  rw [mem_granted, ids, states]
  change (if q = p ∧ cfg.pktSetIdEq k id = true then some (slot, state) else A q k) = some (j, s) ↔ _
  by_cases atSlot : j = slot
  · subst atSlot
    rw [update_self, update_self]
    simp only [free q, false_or, true_and]
    split_ifs with here
    · simp [here]
    · rw [represents q k j s]
      simp only [free q, false_and, false_iff]
      exact fun both => here ⟨both.1, both.2.1⟩
  · have other : indexShift cfg.numCores + j ≠ indexShift cfg.numCores + slot := by omega
    rw [update_of_ne other, update_of_ne atSlot]
    simp only [other, false_and, or_false]
    split_ifs with here
    · obtain ⟨rfl, same⟩ := here
      constructor
      · intro equal
        exact absurd (congrArg Prod.fst (Option.some.inj equal)).symm atSlot
      · rintro ⟨member, also, _⟩
        have both := lawful.equivalence.trans (lawful.equivalence.symm same) also
        rw [new _ member] at both
        contradiction
    · exact represents q k j s

theorem Represents.removed {time lastTime : Int} {gone : List (Expired Id S)}
    {M : ListId cfg.numCores → List Nat} (represents : Represents cfg m L A)
    (coherent : Coherent cfg m L C) (lawful : cfg.Lawful) (swept : Swept cfg p lastTime m L gone m' M) :
    Represents cfg m' M ((Event.swept p time gone).entry.after cfg.pktSetIdEq A) := by
  have mem_gone : ∀ e ∈ gone, indexShift cfg.numCores + e.index ∈ L (.alloc p) := by
    intro e member
    rw [swept.order]
    exact List.mem_append_left _ (List.mem_map_of_mem member)
  have distinct := coherent.valid.layout.forward.nodup (.alloc p)
  rw [swept.order, List.nodup_append] at distinct
  intro q k j s
  rw [swept.ids]
  change (if q = p ∧ ∃ g ∈ gone.map Expired.id, cfg.pktSetIdEq k g = true then none else A q k) =
    some (j, s) ↔ _
  split_ifs with here
  · obtain ⟨rfl, g, member, same⟩ := here
    obtain ⟨e, deleted, rfl⟩ := List.mem_map.mp member
    simp only [false_iff]
    rintro ⟨kept, also, _⟩
    have equal := coherent.distinct q _ (mem_gone e deleted) (indexShift cfg.numCores + j)
      (by rw [swept.order]; exact List.mem_append_right _ kept)
      (by rw [← (swept.old e deleted).1]; exact lawful.equivalence.trans (lawful.equivalence.symm same) also)
    exact distinct.2.2 _ (List.mem_map_of_mem deleted) _ kept equal
  · have same_list : cfg.pktSetIdEq k (idOf m.cells (indexShift cfg.numCores + j)) = true →
        (indexShift cfg.numCores + j ∈ M (.alloc q) ↔ indexShift cfg.numCores + j ∈ L (.alloc q)) := by
      intro equal
      by_cases own : q = p
      · subst own
        rw [swept.order, List.mem_append]
        refine ⟨Or.inr, fun member => member.resolve_left fun deleted => here ⟨rfl, ?_⟩⟩
        obtain ⟨e, inside, index⟩ := List.mem_map.mp deleted
        refine ⟨e.id, List.mem_map_of_mem inside, ?_⟩
        rw [(swept.old e inside).1, index]
        exact equal
      · rw [swept.others q own]
    rw [represents q k j s]
    constructor
    · rintro ⟨member, equal, state⟩
      have kept := (same_list equal).mpr member
      exact ⟨kept, equal, (swept.states q j kept).trans state⟩
    · rintro ⟨kept, equal, state⟩
      exact ⟨(same_list equal).mp kept, equal, (swept.states q j kept).symm.trans state⟩

theorem Outcome.represents (outcome : Outcome cfg m L m' e) (coherent : Coherent cfg m L C)
    (lawful : cfg.Lawful) (new : e.New cfg m L) (represents : Represents cfg m L A) :
    ∃ M D, Coherent cfg m' M D ∧ Represents cfg m' M (e.entry.after cfg.pktSetIdEq A) := by
  cases e with
  | registered p id time slot state =>
    obtain ⟨l, D, split, coherent', ids, _, states⟩ := outcome
    exact ⟨_, D, coherent', represents.added coherent lawful new split ids states⟩
  | got p id time found =>
    cases found with
    | none =>
      obtain ⟨_, rfl⟩ := outcome
      exact ⟨L, C, coherent, represents⟩
    | some slot =>
      obtain ⟨M, D, _, _, coherent', members, ids, states, _⟩ := outcome
      refine ⟨M, D, coherent', fun q k j s => ?_⟩
      rw [members, ids, states]
      exact represents q k j s
  | swept p time gone =>
    obtain ⟨M, D, coherent', swept⟩ := outcome
    exact ⟨M, D, coherent', represents.removed coherent lawful swept⟩

/-- Every step from a represented state keeps the representation. -/
theorem step_represents (fits : cfg.Fits) (lawful : cfg.Lawful) (coherent : Coherent cfg m L C)
    (represents : Represents cfg m L A)
    (fresh : ∀ p id time slot state, e = .registered p id time slot state → A p id = none)
    (step : Step cfg m e m') :
    Outcome cfg m L m' e ∧
      ∃ M D, Coherent cfg m' M D ∧ Represents cfg m' M (e.entry.after cfg.pktSetIdEq A) := by
  have new : e.New cfg m L := by
    cases e with
    | registered p id time slot state =>
      exact (represents.none_iff coherent).mp (fresh p id time slot state rfl)
    | got | swept => trivial
  have outcome := step_outcome coherent fits lawful new step
  exact ⟨outcome, outcome.represents coherent lawful new represents⟩

/-- A represented state refines the registry. -/
theorem Represents.refines (represents : Represents cfg m L A) (coherent : Coherent cfg m L C)
    (fits : cfg.Fits) (lawful : cfg.Lawful) : Refines cfg m A where
  lookup p id time := by
    cases found : A p id with
    | none =>
      exact ⟨m, coherent.get_miss fits lawful ((represents.none_iff coherent).mp found) time⟩
    | some entry =>
      obtain ⟨member, same, _⟩ := (represents p id entry.1 entry.2).mp found
      obtain ⟨cells, _, result, _⟩ := coherent.get_hit fits lawful member same time
      exact ⟨_, result⟩
  stored p id slot state found := ((represents p id slot state).mp found).2.2
  apart p q a b slot s t first second := by
    obtain ⟨memberFirst, sameFirst, _⟩ := (represents p a slot s).mp first
    obtain ⟨memberSecond, sameSecond, _⟩ := (represents q b slot t).mp second
    exact ⟨ListId.alloc.inj (coherent.valid.layout.forward.apart memberFirst memberSecond),
      lawful.equivalence.trans sameFirst (lawful.equivalence.symm sameSecond)⟩
  chains := by
    refine ⟨C, fun b => ⟨coherent.chains.path b, (coherent.chains.nodup b).of_map _, fun x => ?_⟩,
      fun i below free => ?_⟩
    · rw [coherent.members]
      constructor
      · rintro ⟨p, member, bucket⟩
        obtain ⟨slot, _, rfl⟩ := (coherent.valid.cover x).mp ⟨_, member⟩
        have itself := lawful.equivalence.refl (idOf m.cells (indexShift cfg.numCores + slot))
        exact ⟨p, _, slot, _, (represents p _ slot _).mpr ⟨member, itself, rfl⟩, rfl, itself, bucket⟩
      · rintro ⟨p, id, slot, state, found, rfl, same, bucket⟩
        refine ⟨p, ((represents p id slot state).mp found).1, ?_⟩
        rw [← lawful.bucketId_congr same]
        exact bucket
    · have absent := (coherent.valid.ind_eq_neg_one below).mp free
      refine ⟨fun b onChain => ?_, coherent.ended i below absent⟩
      obtain ⟨p, member, _⟩ := (coherent.members b _).mp onChain
      exact absent p member
  commits p id related time state logged ran absent := by
    obtain ⟨⟨i, l, split⟩, kept, cells, _, flag, _⟩ := logged_split coherent ran
    have new := (represents.none_iff coherent).mp absent
    obtain ⟨index, m', _, committed, _⟩ := kept.commit fits lawful id split (by rwa [cells]) flag time
    exact ⟨i, m', .register p id related time state ran index committed⟩
  sweeps handler time p := by
    obtain ⟨gone, m', _, _, ran, _⟩ := coherent.sweep fits lawful handler time p
    exact ⟨gone, m', ran⟩

theorem initWrites_mapChainNext (size n i v : Nat) (cells : ConcurrentDchainCells Id) :
    mapChainNextOf ((initWrites size n).freeCell i v cells) =
      update (update (mapChainNextOf cells) i (-1)) (i + size) (-1) := by
  have linked : mapChainNextOf (((cells.setNext i v).setPrev i v).setInd i (-1)) = mapChainNextOf cells := by
    funext x
    simp [mapChainNextOf]
  simp only [initWrites, mapChainNextOf_setMapChainNext, mapChainNextOf_setTime, linked]

/-- Initialisation ends every chain. -/
theorem init_mapChainNext {size n i : Nat} (below : i < size) (cells : ConcurrentDchainCells Id) :
    mapChainNextOf (initCells (initWrites size n) size n cells) (indexShift n + i) = -1 := by
  apply Loop.foldl_write (fun cells => mapChainNextOf cells (indexShift n + i))
    (fun x cells => (initWrites size n).freeCell (indexShift n + x) (initNext size n x) cells) _ below
  · intro cells
    rw [initWrites_mapChainNext, update_of_ne (by omega), update_self]
  · intro x _ other cells
    rw [initWrites_mapChainNext, update_of_ne (by omega), update_of_ne (by omega)]

theorem init_coherent (fits : cfg.Fits) (memory : Manager Id S) :
    ∃ init, initPktSetManager cfg memory = some init ∧
      Coherent cfg init (initialLists cfg.numCores cfg.maxNumPktSets) fun _ => [] := by
  obtain ⟨ended, valid⟩ := init_valid fits.cores fits.room memory.cells
  refine ⟨{ memory with
      cells := initCells (initWrites cfg.maxNumPktSets cfg.numCores) cfg.maxNumPktSets cfg.numCores
        memory.cells
      buckets := concurrentMapAllocate cfg.map memory.buckets cfg.numCores }, ?_, ?_⟩
  · simp [initPktSetManager, ended]
  · constructor
    · exact valid
    · refine ⟨fun b => ?_, fun _ => List.nodup_nil, fun first => absurd first (by simp), ?_,
        fun _ _ => by simp, fun _ _ => by simp⟩
      · have empty : concurrentMapAllocate cfg.map memory.buckets cfg.numCores b.val = -1 := if_pos b.isLt
        exact node_eq_null.mpr empty
      · intro b c same
        exact Fin.ext (Node.bucket.inj same)
    · intro b x
      simp [initialLists]
    · intro p x member
      simp [initialLists] at member
    · intro i below _
      exact init_mapChainNext below memory.cells

/-- The registered packet sets of a run, represented by the lists of its last state. -/
theorem run_represents (fits : cfg.Fits) (lawful : cfg.Lawful) {init : Manager Id S}
    (coherent : Coherent cfg init (initialLists cfg.numCores cfg.maxNumPktSets) fun _ => [])
    {history : List (Event cfg.numCores Id S)} (run : Trace (Step cfg) init history m)
    (fresh : Fresh cfg history) :
    ∃ L C, Coherent cfg m L C ∧ Represents cfg m L (registered cfg history) := by
  refine run.rule (P := fun history m => Fresh cfg history →
    ∃ L C, Coherent cfg m L C ∧ Represents cfg m L (registered cfg history)) ?_ ?_ fresh
  · refine fun _ => ⟨_, _, coherent, fun p id slot state => ?_⟩
    simp [registered, replay, initialLists]
  · intro past t e u _ before step fresh
    obtain ⟨L, C, kept, represents⟩ := before fresh.past
    have unused : ∀ p id time slot state, e = .registered p id time slot state →
        registered cfg past p id = none := by
      rintro p id time slot state rfl
      exact fresh past [] p id time slot state rfl
    obtain ⟨_, M, D, coherent', represents'⟩ :=
      step_represents fits lawful kept represents unused step
    refine ⟨M, D, coherent', ?_⟩
    rw [registered, List.map_append, List.map_singleton, replay_extend]
    exact represents'

/-- The manager is a finite map from the registered packet sets to their slots,
in every run that registers an id only where it is not registered. -/
theorem pktSetManager_refines_registry (fits : cfg.Fits) (lawful : cfg.Lawful) (memory : Manager Id S) :
    ∃ init, initPktSetManager cfg memory = some init ∧
      ∀ history m, Trace (Step cfg) init history m → Fresh cfg history →
        Refines cfg m (registered cfg history) := by
  obtain ⟨init, ended, coherent⟩ := init_coherent fits memory
  refine ⟨init, ended, fun history m run fresh => ?_⟩
  obtain ⟨L, C, kept, represents⟩ := run_represents fits lawful coherent run fresh
  exact represents.refines kept fits lawful

/-- Sixteen cores, the default number of packet sets and ids that are equal
modulo eight. -/
def sampleConfig : Config Nat where
  numCores := 16
  maxNumPktSets := maxNumPktSetsDefault
  pktSetIdEq a b := a % 8 == b % 8
  pktSetIdHash a := a % 8
  pktSetValidityDuration := 1000
  hasRelatedPktSets := false

theorem sampleConfig_fits : sampleConfig.Fits where
  cores := by decide
  room := by decide
  small := by decide
  unrelated := rfl

theorem sampleConfig_lawful : sampleConfig.Lawful where
  equivalence := ⟨fun a => by simp [sampleConfig],
    fun {a b} same => by
      simp only [sampleConfig, beq_iff_eq] at same ⊢
      exact same.symm,
    fun {a b c} first second => by
      simp only [sampleConfig, beq_iff_eq] at first second ⊢
      exact first.trans second⟩
  hash a b same := by simpa [sampleConfig] using same

theorem pktSetManager_refines_sample : sampleConfig.Fits ∧ sampleConfig.Lawful ∧
    ∀ memory : Manager Nat Nat, ∃ init, initPktSetManager sampleConfig memory = some init ∧
      ∀ history m, Trace (Step sampleConfig) init history m → Fresh sampleConfig history →
        Refines sampleConfig m (registered sampleConfig history) :=
  ⟨sampleConfig_fits, sampleConfig_lawful,
    fun memory => pktSetManager_refines_registry sampleConfig_fits sampleConfig_lawful memory⟩

end Nfos.PktSetManager
