import Nfos.PktSetInvariant

/-! What each operation of the packet-set manager does to a coherent state. -/
namespace Nfos.PktSetManager
open Function Linked ConcurrentDoubleChain CellData ConcurrentMap
variable {Id S : Type} {cfg : Config Id} {m m' : Manager Id S} {L M : ListId cfg.numCores → List Nat}
  {C : Fin cfg.numBuckets → List Nat} {p : Fin cfg.numCores} {key : Id} {x i : Nat} {l k : List Nat}

/-- The lists after the first free index of a partition was allocated. -/
def granted (L : ListId cfg.numCores → List Nat) (p : Fin cfg.numCores) (l : List Nat) (x : Nat) :
    ListId cfg.numCores → List Nat :=
  update (update L (.free p) l) (.alloc p) (L (.alloc p) ++ [x])

theorem mem_granted {y : Nat} {q : Fin cfg.numCores} :
    y ∈ granted L p l x (.alloc q) ↔ y ∈ L (.alloc q) ∨ (y = x ∧ q = p) := by
  by_cases same : q = p
  · simp [granted, same]
  · simp [granted, same]

theorem filter_ne_middle (once : (l ++ x :: k).Nodup) : (l ++ x :: k).filter (fun y => y ≠ x) = l ++ k := by
  rw [List.nodup_middle, List.nodup_cons, List.mem_append, not_or] at once
  rw [List.filter_append, List.filter_cons_of_neg (by simp), List.filter_eq_self.mpr, List.filter_eq_self.mpr]
  · intro y member
    simp only [ne_eq, decide_eq_true_eq]
    rintro rfl
    exact once.1.2 member
  · intro y member
    simp only [ne_eq, decide_eq_true_eq]
    rintro rfl
    exact once.1.1 member

namespace Coherent

/-- A free cell that gets an id and is linked behind the chain of that id. -/
theorem grow (coherent : Coherent cfg m L C) (fits : cfg.Fits) (lawful : cfg.Lawful)
    (below : i < cfg.maxNumPktSets) (free : ∀ q, indexShift cfg.numCores + i ∉ L (.alloc q))
    (absent : ∀ x ∈ L (.alloc p), cfg.pktSetIdEq key (idOf m.cells x) = false)
    (valid : Valid cfg.numCores cfg.maxNumPktSets m'.cells M)
    (lists : ∀ q y, y ∈ M (.alloc q) ↔ y ∈ L (.alloc q) ∨ (y = indexShift cfg.numCores + i ∧ q = p))
    (linked : links cfg.numCores m'.buckets m'.cells = update (links cfg.numCores m.buckets m.cells)
      (lastNode (.bucket (fits.home key p).val) ((C (fits.home key p)).map .cell))
      (.cell (indexShift cfg.numCores + i)))
    (ids : idOf m'.cells = update (idOf m.cells) (indexShift cfg.numCores + i) key) :
    Coherent cfg m' M
      (update C (fits.home key p) (C (fits.home key p) ++ [indexShift cfg.numCores + i])) := by
  obtain ⟨spare, ending⟩ := coherent.spare below free
  have reset : update (links cfg.numCores m.buckets m.cells) (.cell (indexShift cfg.numCores + i)) .null =
      links cfg.numCores m.buckets m.cells := update_eq_self_iff.mpr ending.symm
  have old : ∀ q, ∀ x ∈ L (.alloc q), idOf m'.cells x = idOf m.cells x := by
    intro q x allocated
    rw [ids, update_of_ne]
    rintro rfl
    exact free q allocated
  have new : idOf m'.cells (indexShift cfg.numCores + i) = key := by rw [ids, update_self]
  constructor
  · exact valid
  · have appended := coherent.chains.append (fits.home key p) spare
    rw [reset] at appended
    rw [map_update, List.map_append, linked]
    exact appended
  · intro b x
    rw [Chains.mem_append, coherent.members]
    simp only [lists, or_and_right, exists_or]
    refine or_congr ?_ ?_
    · refine exists_congr fun q => and_congr_right fun allocated => ?_
      rw [old q x allocated]
    · constructor
      · rintro ⟨rfl, rfl⟩
        exact ⟨p, ⟨rfl, rfl⟩, by rw [new]; rfl⟩
      · rintro ⟨q, ⟨rfl, rfl⟩, bucket⟩
        rw [new] at bucket
        exact ⟨rfl, Fin.ext bucket.symm⟩
  · intro q x first y second same
    rcases (lists q x).mp first with oldFirst | ⟨rfl, rfl⟩
    · rcases (lists q y).mp second with oldSecond | ⟨rfl, rfl⟩
      · rw [old q x oldFirst, old q y oldSecond] at same
        exact coherent.distinct q x oldFirst y oldSecond same
      · rw [old q x oldFirst, new, lawful.eq_comm, absent x oldFirst] at same
        contradiction
    · rcases (lists q y).mp second with oldSecond | ⟨rfl, _⟩
      · rw [old q y oldSecond, new, absent y oldSecond] at same
        contradiction
      · rfl
  · intro j inside apart
    have unallocated : ∀ q, indexShift cfg.numCores + j ∉ L (.alloc q) :=
      fun q allocated => apart q ((lists q _).mpr (Or.inl allocated))
    have still : links cfg.numCores m'.buckets m'.cells (.cell (indexShift cfg.numCores + j)) = .null := by
      rw [linked, update_of_ne (coherent.last_ne unallocated _ fun y member => member)]
      exact (coherent.spare inside unallocated).2
    exact node_eq_null.mp still

/-- A cell that is cut out of its chain and of its list. -/
theorem shrink (coherent : Coherent cfg m L C) (fits : cfg.Fits)
    (split : C (fits.home key p) = l ++ (indexShift cfg.numCores + i) :: k)
    (valid : Valid cfg.numCores cfg.maxNumPktSets m'.cells M)
    (lists : ∀ q y, y ∈ M (.alloc q) ↔ y ∈ L (.alloc q) ∧ y ≠ indexShift cfg.numCores + i)
    (linked : links cfg.numCores m'.buckets m'.cells = update (update (links cfg.numCores m.buckets m.cells)
      (lastNode (.bucket (fits.home key p).val) (l.map .cell))
      (links cfg.numCores m.buckets m.cells (.cell (indexShift cfg.numCores + i))))
        (.cell (indexShift cfg.numCores + i)) .null)
    (ids : idOf m'.cells = idOf m.cells) :
    Coherent cfg m' M (update C (fits.home key p) (l ++ k)) := by
  have shape : (C (fits.home key p)).map Node.cell =
      l.map .cell ++ .cell (indexShift cfg.numCores + i) :: k.map .cell := by simp [split]
  have cut := coherent.chains.remove shape
  have members : ∀ b y, y ∈ update C (fits.home key p) (l ++ k) b ↔
      y ∈ C b ∧ y ≠ indexShift cfg.numCores + i := by
    intro b y
    have nodes := coherent.chains.mem_cut (v := b) (y := Node.cell y) shape
    rw [← List.map_append, ← map_update] at nodes
    simpa using nodes
  constructor
  · exact valid
  · rw [map_update, List.map_append, linked]
    refine cut.update_off (fun b => ⟨by simp, fun onChain => ?_⟩) .null
    exact ((coherent.chains.mem_cut shape).mp onChain).2 rfl
  · intro b y
    rw [members, coherent.members, ids]
    simp only [lists]
    constructor
    · rintro ⟨⟨q, allocated, bucket⟩, other⟩
      exact ⟨q, ⟨allocated, other⟩, bucket⟩
    · rintro ⟨q, ⟨allocated, other⟩, bucket⟩
      exact ⟨⟨q, allocated, bucket⟩, other⟩
  · intro q x first y second same
    rw [ids] at same
    exact coherent.distinct q x ((lists q x).mp first).1 y ((lists q y).mp second).1 same
  · intro j inside apart
    have still : links cfg.numCores m'.buckets m'.cells (.cell (indexShift cfg.numCores + j)) = .null := by
      rw [linked]
      by_cases same : j = i
      · rw [same, update_self]
      · have unallocated : ∀ q, indexShift cfg.numCores + j ∉ L (.alloc q) :=
          fun q allocated => apart q ((lists q _).mpr ⟨allocated, by omega⟩)
        have onChain : ∀ y ∈ l, y ∈ C (fits.home key p) := fun y front => by simp [split, front]
        rw [update_of_ne (by simp [same]), update_of_ne (coherent.last_ne unallocated _ onChain)]
        exact (coherent.spare inside unallocated).2
    exact node_eq_null.mp still

/-- A change of links and times that no chain and no membership notices. -/
theorem relink (coherent : Coherent cfg m L C) (buckets : m'.buckets = m.buckets)
    (valid : Valid cfg.numCores cfg.maxNumPktSets m'.cells M)
    (lists : ∀ q y, y ∈ M (.alloc q) ↔ y ∈ L (.alloc q))
    (ids : idOf m'.cells = idOf m.cells) (nexts : mapChainNextOf m'.cells = mapChainNextOf m.cells) :
    Coherent cfg m' M C where
  valid := valid
  chains := by
    rw [buckets, links_congr nexts]
    exact coherent.chains
  members b x := by
    rw [coherent.members, ids]
    simp only [lists]
  distinct q x first y second same := by
    rw [ids] at same
    exact coherent.distinct q x ((lists q x).mp first) y ((lists q y).mp second) same
  ended j inside apart := by
    rw [nexts]
    exact coherent.ended j inside fun q allocated => apart q ((lists q _).mpr allocated)

theorem below_of_mem (coherent : Coherent cfg m L C) {w : ListId cfg.numCores}
    (member : indexShift cfg.numCores + i ∈ L w) : i < cfg.maxNumPktSets := by
  obtain ⟨j, covers, same⟩ := (coherent.valid.cover _).mp ⟨w, member⟩
  obtain rfl : i = j := by omega
  exact Nat.lt_of_lt_of_le covers (covered_le _ _)

/-- A committed registration puts the id on its chain and the state into the
slot of a free index. -/
theorem commit (coherent : Coherent cfg m L C) (fits : cfg.Fits) (lawful : cfg.Lawful) (key : Id)
    (split : L (.free p) = (indexShift cfg.numCores + i) :: l)
    (absent : ∀ x ∈ L (.alloc p), cfg.pktSetIdEq key (idOf m.cells x) = false)
    (logged : (m.log p.val).addPktSet = true) (time : Int) :
    (concurrentDchainAllocateNewIndex cfg.numCores p.val time m.cells).1 = some i ∧
    ∃ m' C', addPktSetCommit cfg key p.val time m = some m' ∧
      Coherent cfg m' (granted L p l (indexShift cfg.numCores + i)) C' ∧
      idOf m'.cells = update (idOf m.cells) (indexShift cfg.numCores + i) key ∧
      timeOf m'.cells = update (timeOf m.cells) (indexShift cfg.numCores + i) time ∧
      m'.pktSetState = update m.pktSetState i (m.log p.val).pktSetState := by
  have member : indexShift cfg.numCores + i ∈ L (.free p) := by simp [split]
  have free : ∀ q, indexShift cfg.numCores + i ∉ L (.alloc q) :=
    fun q allocated => nomatch coherent.valid.layout.forward.apart member allocated
  obtain ⟨cells, allocated, valid, extra⟩ := allocateNewIndex_spec coherent.valid split time
  obtain ⟨ids, nexts, times⟩ := fields_of_stamp extra
  have linksSame : links cfg.numCores m.buckets cells = links cfg.numCores m.buckets m.cells :=
    links_congr nexts
  have path := coherent.chains.path (fits.home key p)
  rw [← linksSame] at path
  obtain ⟨buckets', cells', ran, linked, named⟩ :=
    concurrentMapPut_spec (Nat.le_add_right _ i) (coherent.length_le (fits.home key p)) path
  have untouched := put_untouched ran
  have slot : indexOf cfg.numCores (indexShift cfg.numCores + i) = i := by
    rw [indexOf]
    omega
  have returned : addPktSetCommit cfg key p.val time m = some { m with
      buckets := buckets'
      cells := cells'
      pktSetState := update m.pktSetState i (m.log p.val).pktSetState } := by
    rw [slot] at ran
    simp [addPktSetCommit, storePktSet, logged, allocated, ran, fits.unrelated]
  rw [linksSame] at linked
  rw [ids] at named
  refine ⟨by rw [allocated], _,
    update C (fits.home key p) (C (fits.home key p) ++ [indexShift cfg.numCores + i]), returned, ?_, named,
    by rw [untouched.time, times], rfl⟩
  exact coherent.grow fits lawful (coherent.below_of_mem member) free absent
    (valid.congr untouched.next untouched.prev untouched.ind) (fun q y => mem_granted) linked named

/-- A successful lookup makes the packet set the newest of its partition. Its time is updated
unless it is the only one. -/
theorem get_lift (coherent : Coherent cfg m L C) (fits : cfg.Fits) (lawful : cfg.Lawful)
    (split : L (.alloc p) = l ++ (indexShift cfg.numCores + i) :: k)
    (same : cfg.pktSetIdEq key (idOf m.cells (indexShift cfg.numCores + i)) = true) (time : Int) :
    ∃ cells, getPktSetState cfg key p.val time m = some (some i, { m with cells := cells }) ∧
      Coherent cfg { m with cells := cells } (update L (.alloc p) (l ++ k ++ [indexShift cfg.numCores + i])) C ∧
      idOf cells = idOf m.cells ∧
      timeOf cells = if L (.alloc p) = [indexShift cfg.numCores + i] then timeOf m.cells
        else update (timeOf m.cells) (indexShift cfg.numCores + i) time := by
  have member : indexShift cfg.numCores + i ∈ L (.alloc p) := by simp [split]
  have found := coherent.lookup fits lawful member same
  have slot : indexOf cfg.numCores (indexShift cfg.numCores + i) = i := by
    rw [indexOf]
    omega
  have below : ¬ cfg.maxNumPktSets ≤ i := Nat.not_le.mpr (coherent.below_of_mem member)
  have returned : ∀ cells, concurrentDchainImplRejuvenateIndex cfg.numCores i p.val time m.cells =
      (true, cells) → getPktSetState cfg key p.val time m = some (some i, { m with cells := cells }) := by
    intro cells ran
    rw [slot] at found
    simp [getPktSetState, found, below, ran]
  have named := coherent.valid.allocated p _ member
  by_cases single : l = [] ∧ k = []
  · obtain ⟨rfl, rfl⟩ := single
    have still : update L (.alloc p) ([] ++ [] ++ [indexShift cfg.numCores + i]) = L :=
      update_eq_self_iff.mpr split.symm
    refine ⟨m.cells, returned _ (rejuvenateIndex_single coherent.valid.layout split named time), ?_, rfl, ?_⟩
    · rw [still]
      exact coherent
    · exact (if_pos split).symm
  · obtain ⟨cells, ran, valid, extra⟩ := rejuvenateIndex_valid coherent.valid split single time
    obtain ⟨ids, nexts, times⟩ := fields_of_stamp extra
    refine ⟨cells, returned cells ran, coherent.relink rfl valid (fun q y => mem_lift split _ y) ids nexts, ids, ?_⟩
    rw [times, if_neg]
    intro alone
    rw [alone] at split
    have lengths := congrArg List.length split
    simp only [List.length_append, List.length_cons, List.length_nil] at lengths
    exact single ⟨List.eq_nil_of_length_eq_zero (by omega), List.eq_nil_of_length_eq_zero (by omega)⟩

/-- A successful lookup changes no membership. -/
theorem get_hit (coherent : Coherent cfg m L C) (fits : cfg.Fits) (lawful : cfg.Lawful)
    (member : indexShift cfg.numCores + i ∈ L (.alloc p))
    (same : cfg.pktSetIdEq key (idOf m.cells (indexShift cfg.numCores + i)) = true) (time : Int) :
    ∃ cells M, getPktSetState cfg key p.val time m = some (some i, { m with cells := cells }) ∧
      Coherent cfg { m with cells := cells } M C ∧
      (∀ q y, y ∈ M (.alloc q) ↔ y ∈ L (.alloc q)) ∧ idOf cells = idOf m.cells ∧
      timeOf cells = if L (.alloc p) = [indexShift cfg.numCores + i] then timeOf m.cells
        else update (timeOf m.cells) (indexShift cfg.numCores + i) time := by
  obtain ⟨l, k, split⟩ := List.append_of_mem member
  obtain ⟨cells, ran, coherent', ids, times⟩ := coherent.get_lift fits lawful split same time
  exact ⟨cells, _, ran, coherent', fun q y => mem_lift split _ y, ids, times⟩

theorem get_miss (coherent : Coherent cfg m L C) (fits : cfg.Fits) (lawful : cfg.Lawful)
    (absent : ∀ x ∈ L (.alloc p), cfg.pktSetIdEq key (idOf m.cells x) = false) (time : Int) :
    getPktSetState cfg key p.val time m = some (none, m) := by
  simp [getPktSetState, coherent.lookup_none fits lawful absent]

/-- The cells before that of an id on its chain have other ids. -/
theorem chain_split (coherent : Coherent cfg m L C) (fits : cfg.Fits) (lawful : cfg.Lawful)
    (member : x ∈ L (.alloc p)) :
    ∃ l k, C (fits.home (idOf m.cells x) p) = l ++ x :: k ∧
      ∀ y ∈ l, cfg.pktSetIdEq (idOf m.cells x) (idOf m.cells y) = false := by
  have onChain := (coherent.mem_home fits lawful (lawful.equivalence.refl _)).mpr member
  obtain ⟨l, k, split⟩ := List.append_of_mem onChain
  refine ⟨l, k, split, fun y front => ?_⟩
  cases same : cfg.pktSetIdEq (idOf m.cells x) (idOf m.cells y) with
  | false => rfl
  | true =>
    have early : y ∈ C (fits.home (idOf m.cells x) p) := by
      rw [split]
      exact List.mem_append_left _ front
    have also := (coherent.mem_home fits lawful same).mp early
    obtain rfl := coherent.distinct p x member y also same
    have nodup : (C (fits.home (idOf m.cells x) p)).Nodup := (coherent.chains.nodup _).of_map _
    rw [split, List.nodup_middle, List.nodup_cons] at nodup
    exact absurd (List.mem_append_left _ front) nodup.1

/-- One iteration of the sweep takes the oldest packet set of the partition off its list and
its chain and puts its index on the free list of the partition. -/
theorem delete (coherent : Coherent cfg m L C) (fits : cfg.Fits) (lawful : cfg.Lawful)
    (split : L (.alloc p) = (indexShift cfg.numCores + i) :: l) (runs : ExpiredRuns S) :
    let state := runs.aborted.foldl (fun state run => run state) (m.pktSetState i)
    ∃ m' C', deleteExpired cfg runs i p.val m = some (⟨idOf m.cells (indexShift cfg.numCores + i), i, state⟩, m') ∧
      Coherent cfg m' (update (update L (.alloc p) l) (.free p) ((indexShift cfg.numCores + i) :: L (.free p))) C' ∧
      (∀ b, C' b = (C b).filter fun y => y ≠ indexShift cfg.numCores + i) ∧
      idOf m'.cells = idOf m.cells ∧ timeOf m'.cells = timeOf m.cells ∧
      m'.pktSetState = update m.pktSetState i (runs.committed state) := by
  intro state
  have member : indexShift cfg.numCores + i ∈ L (.alloc p) := by simp [split]
  obtain ⟨front, back, chain, before⟩ := coherent.chain_split fits lawful member
  have path := coherent.chains.path (fits.home (idOf m.cells (indexShift cfg.numCores + i)) p)
  have enough := coherent.length_le (fits.home (idOf m.cells (indexShift cfg.numCores + i)) p)
  rw [chain, List.length_append] at enough
  rw [chain] at path
  obtain ⟨buckets', erased, ran, linked, ids⟩ := concurrentMapErase_spec
    (Nat.le_trans (Nat.le_add_right _ _) enough) path before (lawful.equivalence.refl _)
  have untouched := erase_untouched ran
  obtain ⟨freed, returned, valid, extra⟩ := freeIndex_spec (l := [])
    (coherent.valid.congr untouched.next untouched.prev untouched.ind) split
  have cell : concurrentDchainCellOut cfg.numCores i = indexShift cfg.numCores + i := by
    rw [concurrentDchainCellOut]
    omega
  have fields : ∀ {β : Type} (f : ChainData Id → β),
      (fun y => f (freed.extraOf y)) = fun y => f (erased.extraOf y) := by
    intro β f
    rw [extra]
  have nodup (b : Fin cfg.numBuckets) : (C b).Nodup := (coherent.chains.nodup b).of_map _
  rw [List.nil_append] at valid
  refine ⟨{ m with
      buckets := buckets'
      cells := freed
      pktSetState := update m.pktSetState i (runs.committed state) },
    update C (fits.home (idOf m.cells (indexShift cfg.numCores + i)) p) (front ++ back), ?_, ?_, ?_,
    (fields ChainData.id).trans ids, (fields ChainData.time).trans untouched.time, rfl⟩
  · simp [deleteExpired, erasePktSet, cell, ran, fits.unrelated, returned, state]
  · refine coherent.shrink fits chain valid (fun q y => ?_)
      ((links_congr (fields ChainData.mapChainNext)).trans linked) ((fields ChainData.id).trans ids)
    have cut := coherent.valid.layout.forward.mem_pop (v := .alloc q) (y := y) split
    rwa [update_of_ne (by simp)]
  · intro b
    by_cases home : b = fits.home (idOf m.cells (indexShift cfg.numCores + i)) p
    · subst home
      have once := nodup (fits.home (idOf m.cells (indexShift cfg.numCores + i)) p)
      rw [chain] at once
      rw [update_self, chain, filter_ne_middle once]
    · rw [update_of_ne home]
      refine (List.filter_eq_self.mpr ?_).symm
      intro y onChain
      simp only [ne_eq, decide_eq_true_eq]
      rintro rfl
      obtain ⟨q, allocated, bucket⟩ := (coherent.members b _).mp onChain
      obtain rfl : q = p := ListId.alloc.inj (coherent.valid.layout.forward.apart allocated member)
      exact home (Fin.ext bucket.symm)

end Coherent

/-- What a sweep has done to partition `p` of the state `m` when it arrives at `m'`. -/
structure Swept (cfg : Config Id) (p : Fin cfg.numCores) (lastTime : Int) (m : Manager Id S)
    (L : ListId cfg.numCores → List Nat) (gone : List (Expired Id S)) (m' : Manager Id S)
    (M : ListId cfg.numCores → List Nat) : Prop where
  order : L (.alloc p) = gone.map (fun e => indexShift cfg.numCores + e.index) ++ M (.alloc p)
  others : ∀ q, q ≠ p → M (.alloc q) = L (.alloc q)
  old : ∀ e ∈ gone, e.id = idOf m.cells (indexShift cfg.numCores + e.index) ∧
    timeOf m.cells (indexShift cfg.numCores + e.index) < lastTime
  ids : idOf m'.cells = idOf m.cells
  times : timeOf m'.cells = timeOf m.cells
  states : ∀ q j, indexShift cfg.numCores + j ∈ M (.alloc q) → m'.pktSetState j = m.pktSetState j

/-- One more iteration. -/
theorem Swept.extend {lastTime : Int} {gone : List (Expired Id S)} {C' : Fin cfg.numBuckets → List Nat}
    (swept : Swept cfg p lastTime m L gone m' M) (kept : Coherent cfg m' M C') (fits : cfg.Fits)
    (lawful : cfg.Lawful) (runs : ExpiredRuns S)
    (more : (concurrentDchainHasExpiredIndex cfg.numCores p.val lastTime m'.cells).isSome = true) :
    ∃ i expired t N D, concurrentDchainHasExpiredIndex cfg.numCores p.val lastTime m'.cells = some i ∧
      deleteExpired cfg runs i p.val m' = some (expired, t) ∧ Coherent cfg t N D ∧
      Swept cfg p lastTime m L (gone ++ [expired]) t N ∧ gone.length < (L (.alloc p)).length := by
  cases split : M (.alloc p) with
  | nil =>
    rw [hasExpiredIndex_nil kept.valid split] at more
    contradiction
  | cons x l =>
    obtain ⟨i, _, rfl⟩ := (kept.valid.cover x).mp ⟨.alloc p, by simp [split]⟩
    have oldest := hasExpiredIndex_cons kept.valid split lastTime
    have expired : timeOf m'.cells (indexShift cfg.numCores + i) < lastTime := by
      by_contra current
      rw [if_neg current] at oldest
      rw [oldest] at more
      contradiction
    rw [if_pos expired] at oldest
    obtain ⟨t, D, ran, coherent, -, ids, times, states⟩ := kept.delete fits lawful split runs
    have own : update (update M (.alloc p) l) (.free p) ((indexShift cfg.numCores + i) :: M (.free p)) (.alloc p) = l := by
      rw [update_of_ne (by simp), update_self]
    have others : ∀ q, q ≠ p → update (update M (.alloc p) l) (.free p)
        ((indexShift cfg.numCores + i) :: M (.free p)) (.alloc q) = M (.alloc q) := by
      intro q other
      rw [update_of_ne (by simp), update_of_ne (fun same => other (ListId.alloc.inj same))]
    refine ⟨i, _, t, _, D, oldest, ran, coherent, ?_, ?_⟩
    · constructor
      · rw [swept.order, split, own]
        simp
      · intro q other
        rw [others q other, swept.others q other]
      · intro e member
        rcases List.mem_append.mp member with earlier | last
        · exact swept.old e earlier
        · rw [List.mem_singleton.mp last]
          exact ⟨congrFun swept.ids _, by rwa [swept.times] at expired⟩
      · rw [ids, swept.ids]
      · rw [times, swept.times]
      · intro q j member
        have before : indexShift cfg.numCores + j ∈ M (.alloc q) ∧ j ≠ i := by
          by_cases same : q = p
          · subst same
            have distinct := kept.valid.layout.forward.nodup (.alloc q)
            rw [split, List.nodup_cons] at distinct
            rw [own] at member
            exact ⟨by simp [split, member], fun equal => distinct.1 (equal ▸ member)⟩
          · rw [others q same] at member
            refine ⟨member, fun equal => same ?_⟩
            have first : indexShift cfg.numCores + j ∈ M (.alloc p) := by simp [split, equal]
            exact ListId.alloc.inj (kept.valid.layout.forward.apart member first)
        rw [states, update_of_ne before.2, swept.states q j before.1]
    · have lengths := congrArg List.length swept.order
      rw [split] at lengths
      simp only [List.length_append, List.length_map, List.length_cons] at lengths
      omega

/-- A partition has no more packet sets than there are indexes. -/
theorem Coherent.length_alloc_le (coherent : Coherent cfg m L C) (p : Fin cfg.numCores) :
    (L (.alloc p)).length ≤ cfg.maxNumPktSets := by
  have nodup := coherent.valid.layout.forward.nodup (.alloc p)
  have inside : L (.alloc p) ⊆ (List.range cfg.maxNumPktSets).map (indexShift cfg.numCores + ·) := by
    intro x member
    obtain ⟨j, covers, rfl⟩ := (coherent.valid.cover x).mp ⟨_, member⟩
    exact List.mem_map_of_mem (List.mem_range.mpr (Nat.lt_of_lt_of_le covers (covered_le _ _)))
  simpa using (List.subperm_of_subset nodup inside).length_le

/-- A sweep ends; it deletes the oldest packet sets of the partition as long as
their time has passed. -/
theorem Coherent.sweep (coherent : Coherent cfg m L C) (fits : cfg.Fits) (lawful : cfg.Lawful)
    (handler : Nat → ExpiredRuns S) (time : Int) (p : Fin cfg.numCores) :
    ∃ gone m' M C', deleteExpiredPktSets cfg handler time p.val m = some (gone, m') ∧
      Coherent cfg m' M C' ∧ Swept cfg p (time - cfg.pktSetValidityDuration) m L gone m' M ∧
      concurrentDchainHasExpiredIndex cfg.numCores p.val (time - cfg.pktSetValidityDuration) m'.cells =
        none := by
  have start : ∃ M C', Coherent cfg m M C' ∧
      Swept cfg p (time - cfg.pktSetValidityDuration) m L [] m M :=
    ⟨L, C, coherent, ⟨rfl, fun _ _ => rfl, by simp, rfl, rfl, fun _ _ _ => rfl⟩⟩
  have ends := Loop.loop_ends
    (c := fun s : List (Expired Id S) × Manager Id S => (concurrentDchainHasExpiredIndex cfg.numCores
      p.val (time - cfg.pktSetValidityDuration) s.2.cells).isSome)
    (b := fun s => do
      let index ← concurrentDchainHasExpiredIndex cfg.numCores p.val (time - cfg.pktSetValidityDuration)
        s.2.cells
      let r ← deleteExpired cfg (handler s.1.length) index p.val s.2
      return (s.1 ++ [r.1], r.2))
    (fun s => ∃ M C', Coherent cfg s.2 M C' ∧
      Swept cfg p (time - cfg.pktSetValidityDuration) m L s.1 s.2 M)
    (fun s => (L (.alloc p)).length - s.1.length) (fun s kept more => ?_) cfg.maxNumPktSets ([], m) start
    (by simpa using coherent.length_alloc_le p)
  · obtain ⟨⟨gone, m'⟩, ended, ⟨M, C', kept, swept⟩, stopped⟩ := ends
    exact ⟨gone, m', M, C', ended, kept, swept, by simpa using stopped⟩
  · obtain ⟨M, C', kept, swept⟩ := kept
    obtain ⟨i, expired, t, N, D, oldest, ran, kept', swept', shorter⟩ :=
      swept.extend kept fits lawful (handler s.1.length) more
    refine ⟨(s.1 ++ [expired], t), ?_, ⟨N, D, kept', swept'⟩, ?_⟩
    · simp [oldest, ran]
    · simp only [List.length_append, List.length_cons, List.length_nil]
      omega

end Nfos.PktSetManager
