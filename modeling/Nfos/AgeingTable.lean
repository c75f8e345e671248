import Nfos.ExpirySweep
import Nfos.MapLookup

/-! A table whose entries age: a map from keys to numbers, the allocator of the numbers, and the
keys again in a vector. Two network functions sweep such a table. -/
namespace Nfos.AgeingTable
open Txn Tx Function Vectors Map DoubleChainExp Linked
variable {K L R : Type}

/-- Where the table is in the state of a transaction. The calls of the table leave the `rest`
alone. -/
structure Arrays (K L R : Type) where
  mapArray : Nat
  map : L → Log (NfosMapEntry K)
  setMap : Log (NfosMapEntry K) → L → L
  keysArray : Nat
  keys : L → Log K
  setKeys : Log K → L → L
  chainArray : Nat
  chain : L → Log NfosDchainExpCell
  setChain : Log NfosDchainExpCell → L → L
  rest : L → R
  map_setMap : ∀ t l, map (setMap t l) = t
  map_setChain : ∀ t l, map (setChain t l) = map l
  keys_setMap : ∀ t l, keys (setMap t l) = keys l
  keys_setChain : ∀ t l, keys (setChain t l) = keys l
  chain_setMap : ∀ t l, chain (setMap t l) = chain l
  chain_setChain : ∀ t l, chain (setChain t l) = t
  setKeys_keys : ∀ l, setKeys (keys l) l = l
  rest_setMap : ∀ t l, rest (setMap t l) = rest l
  rest_setChain : ∀ t l, rest (setChain t l) = rest l

/-- What is done with a number that has been freed. -/
def eraseKey (arrays : Arrays K L R) (map : NfosMap K) (index : Nat) : Txs L Unit := do
  let key ← Txs.on arrays.keysArray arrays.keys arrays.setKeys (nfosVectorBorrow index)
  let _ ← Txs.on arrays.mapArray arrays.map arrays.setMap (nfosMapErase map key)
  return ()

/-- The loop of a sweep. It ends within these rounds. -/
def sweepAll (arrays : Arrays K L R) (map : NfosMap K) (numCores size : Nat) (now : Int) : Txs L Sweep :=
  expireLoop (expireOn arrays.chainArray arrays.chain arrays.setChain numCores numCores now) (eraseKey arrays map)
    (size + numCores) 0

/-- What a transaction publishes for the table. -/
structure Table (K : Type) where
  entries : Nat → NfosMapEntry K
  keys : Elements K
  cells : Cells Int

def Arrays.table (arrays : Arrays K L R) (l : L) : Table K :=
  ⟨(arrays.map l).view, (arrays.keys l).view, (arrays.chain l).cells⟩

section Invariant
variable {n size : Nat} {map : NfosMap K} {T U : Table K} {find : K → Option Int} {Q Q' : ListId n → List Nat}

/-- The numbers in use. -/
def live (n size : Nat) (cells : Cells Int) : Set Nat := {i | i < size ∧ cells.indOf (indexShift n + i) ≠ -1}

/-- The time after which a number is freed. -/
def Table.time (n : Nat) (T : Table K) (i : Nat) : Int := T.cells.extraOf (indexShift n + i)

theorem mem_live {cells : Cells Int} (valid : Valid n size cells Q) {i : Nat} :
    i ∈ live n size cells ↔ ∃ c, indexShift n + i ∈ Q (.alloc c) := by
  constructor
  · rintro ⟨within, marked⟩
    simpa [valid.ind_eq_neg_one within] using marked
  · rintro ⟨c, member⟩
    obtain ⟨j, covers, same⟩ := (valid.cover _).mp ⟨_, member⟩
    have within : i < size := by
      have := covered_le n size
      omega
    refine ⟨within, ?_⟩
    rw [ne_eq, valid.ind_eq_neg_one within]
    exact fun absent => absent c member

theorem allocated_fresh {cells cells' : Cells Int} {stamp : Int → Int} {c : Fin n} {i : Nat} (valid : Valid n size cells Q)
    (outcome : AllocateIndex.Allocated size stamp c cells Q (some i) cells') : i < size ∧ i ∉ live n size cells := by
  obtain ⟨below, ⟨w, free, member⟩, _⟩ := outcome
  refine ⟨below.trans_le (covered_le n size), fun used => ?_⟩
  obtain ⟨d, there⟩ := (mem_live valid).mp used
  exact free d (valid.layout.forward.apart member there)

/-- The map finds exactly the keys under the numbers in use. -/
structure Coherent (map : NfosMap K) (n size : Nat) (T : Table K) (find : K → Option Int) (Q : ListId n → List Nat) : Prop where
  lookup : Lookup map T.entries find
  valid : Valid n size T.cells Q
  timeless : Timeless n size T.cells
  directory : Directory.Coherent find (live n size T.cells) T.keys

theorem Coherent.found_iff (coherent : Coherent map n size T find Q) (exact : map.Exact) {k : K} {v : Int} :
    found map T.entries k = some v ↔ ∃ i ∈ live n size T.cells, v = (i : Int) ∧ T.keys i = k := by
  rw [coherent.lookup.found_eq exact]
  exact coherent.directory k v

/-- A number in use is moved to the end of its queue. -/
theorem Coherent.rejuvenate (coherent : Coherent map n size T find Q) {i : Nat} (present : i ∈ live n size T.cells)
    {validity now : Int} {result : Bool} (outcome : Rejuvenated n size i (now + validity) T.cells Q result U.cells)
    (entries : U.entries = T.entries) (keys : U.keys = T.keys) :
    ∃ Q', ∃ coherent' : Coherent map n size U find Q',
      Lru.Step validity int64Max (queues coherent.valid) (.rejuvenated (indexShift n + i) now) (queues coherent'.valid) ∧
      live n size U.cells = live n size T.cells ∧ U.cells.extraOf = update T.cells.extraOf (indexShift n + i) (now + validity) := by
  cases result with
  | false =>
    obtain ⟨c, member⟩ := (mem_live coherent.valid).mp present
    exact absurd member (outcome.2 c)
  | true =>
    obtain ⟨Q', valid', timeless', step⟩ := rejuvenate_step coherent.valid coherent.timeless outcome
    obtain ⟨c, l, m, split, queue, _, times⟩ := step
    have numbers : live n size U.cells = live n size T.cells := by
      ext j
      rw [mem_live valid', mem_live coherent.valid]
      apply exists_congr
      intro d
      rw [show Q' (.alloc d) = _ from congrFun queue d]
      by_cases same : d = c
      · subst same
        rw [update_self, show Q (.alloc d) = _ from split]
        simp only [List.mem_append, List.mem_cons, List.not_mem_nil, or_false]
        tauto
      · rw [update_of_ne same]
        rfl
    refine ⟨Q', ⟨entries ▸ coherent.lookup, valid', timeless', ?_⟩, ⟨c, l, m, split, queue, ‹_›, times⟩, numbers, times⟩
    rw [numbers, keys]
    exact coherent.directory

/-- The queues are in the order of their times, which are not later than those of a call at
`latest`. -/
structure Aged (validity latest : Int) (cells : Cells Int) (Q : ListId n → List Nat) : Prop where
  sorted : ∀ c, (Q (.alloc c)).Pairwise fun x y => cells.extraOf x ≤ cells.extraOf y
  bounded : ∀ c, ∀ x ∈ Q (.alloc c), cells.extraOf x ≤ latest + validity

section Aged
variable {validity latest now : Int} {cells cells' : Cells Int}

theorem Aged.later (aged : Aged validity latest cells Q) (order : latest ≤ now) : Aged validity now cells Q := by
  refine ⟨aged.sorted, fun c x member => ?_⟩
  have := aged.bounded c x member
  omega

/-- A call that stamps a number. -/
theorem Aged.stamp (aged : Aged validity latest cells Q) (order : latest ≤ now) {valid : Valid n size cells Q}
    {valid' : Valid n size cells' Q'} {e : Lru.Event (Fin n) Nat} (stamp : e.stamp = some now)
    (step : Lru.Step validity int64Max (queues valid) e (queues valid')) : Aged validity now cells' Q' := by
  constructor
  case sorted =>
    apply step.sorted aged.sorted
    rintro t stamped c x member
    obtain rfl := Option.some.inj (stamp.symm.trans stamped)
    exact (aged.later order).bounded c x member
  case bounded =>
    intro c x member
    rcases step.time_eq c x member with ⟨old, same⟩ | ⟨t, stamped, same⟩
    · rw [show cells'.extraOf x = _ from same]
      exact (aged.later order).bounded c x old
    · obtain rfl := Option.some.inj (stamp.symm.trans stamped)
      exact same.le

end Aged

/-- The allocator is only made when there is an index for every core. -/
theorem allocate_coherent {tscHz : Nat} {usecs : Int} {memory : Cells Int} {chain : NfosDoubleChainExp} (positive : 0 < size)
    (ended : nfosDchainExpAllocate tscHz memory size usecs n = some chain) (keq : K → K → Bool) (khash : K → Nat) (capacity : Nat)
    (entries : Nat → NfosMapEntry K) (keys : Elements K) :
    0 < n ∧ chain.validityDuration = nfosUsecToTscCycles tscHz usecs ∧ live n size chain.cells = ∅ ∧
      Coherent (nfosMapAllocate keq khash capacity entries).1 n size ⟨(nfosMapAllocate keq khash capacity entries).2, keys, chain.cells⟩
        (fun _ => none) (initialLists n size) := by
  have room : size / n ≠ 0 := by
    intro stuck
    rw [nfosDchainExpAllocate, initLists_diverges _ _ stuck positive] at ended
    contradiction
  obtain ⟨nonzero, room⟩ := Nat.div_ne_zero_iff.mp room
  have cores := Nat.pos_of_ne_zero nonzero
  obtain ⟨chain', again, invariant⟩ := allocate_invariant tscHz usecs cores room memory
  obtain rfl := Option.some.inj (ended.symm.trans again)
  have unused : live n size chain.cells = ∅ := by
    ext i
    rw [mem_live invariant.valid]
    simp [initialLists]
  refine ⟨cores, invariant.validity, unused, allocate_lookup .., invariant.valid, invariant.timeless, ?_⟩
  rw [unused]
  exact Directory.empty keys

variable [DecidableEq K]

/-- A lookup after the keys of some numbers have been removed. -/
def without (find : K → Option Int) (keyOf : Nat → K) (freed : List Nat) : K → Option Int :=
  freed.foldl (fun find i => Directory.removed find (keyOf i)) find

theorem without_append (find : K → Option Int) (keyOf : Nat → K) (freed : List Nat) (i : Nat) :
    without find keyOf (freed ++ [i]) = Directory.removed (without find keyOf freed) (keyOf i) := by
  simp [without]

theorem without_eq (find : K → Option Int) (keyOf : Nat → K) (freed : List Nat) (k : K) :
    without find keyOf freed k = if ∃ i ∈ freed, keyOf i = k then none else find k := by
  induction freed using List.reverseRecOn with
  | nil => simp [without]
  | append_singleton freed i ih =>
    rw [without_append, Directory.removed, ih]
    by_cases last : k = keyOf i
    · simp [last]
    · simp [last, Ne.symm last]

theorem removed_absent {k : K} (absent : find k = none) : Directory.removed find k = find := by
  funext q
  by_cases same : q = k
  · subst same
    simp [Directory.removed, absent]
  · simp [Directory.removed, same]

theorem directory_without {used : Set Nat} {keyOf : Nat → K} (coherent : Directory.Coherent find used keyOf) {freed : List Nat}
    (distinct : freed.Nodup) (present : ∀ i ∈ freed, i ∈ used) :
    Directory.Coherent (without find keyOf freed) (used \ {i | i ∈ freed}) keyOf := by
  induction freed using List.reverseRecOn with
  | nil => simpa [without] using coherent
  | append_singleton freed i ih =>
    rw [List.nodup_append_comm, List.singleton_append, List.nodup_cons] at distinct
    have before := ih distinct.2 fun j member => present j (List.mem_append_left _ member)
    have inside : i ∈ used \ {j | j ∈ freed} := ⟨present i (by simp), distinct.1⟩
    have gone : {j | j ∈ freed} ∪ {i} = {j | j ∈ freed ++ [i]} := by
      ext j
      simp [or_comm]
    rw [without_append, ← gone, ← Set.sdiff_sdiff]
    exact before.remove inside

/-- One erased key. -/
theorem post_eraseKey (arrays : Arrays K L R) (exact : map.Exact) {l : L} (lookup : Lookup map (arrays.map l).view find)
    {grants : Nat → Nat → Bool} (i : Nat) :
    Txs.Post (eraseKey arrays map i) grants l fun _ l' => arrays.chain l' = arrays.chain l ∧ arrays.keys l' = arrays.keys l ∧
      arrays.rest l' = arrays.rest l ∧ Lookup map (arrays.map l').view (Directory.removed find ((arrays.keys l).view i)) := by
  rw [eraseKey, Txs.post_bind]
  apply Txs.post_on
  rw [post_nfosVectorBorrow, arrays.setKeys_keys, Txs.post_bind]
  apply Txs.post_on
  apply (post_erase_lookup exact lookup _).mono
  intro erased t outcome
  rw [Txs.post_pure]
  refine ⟨arrays.chain_setMap t l, arrays.keys_setMap t l, arrays.rest_setMap t l, ?_⟩
  rw [arrays.map_setMap]
  cases erased with
  | true => exact outcome.2
  | false =>
    obtain ⟨same, absent⟩ := outcome
    rw [same, removed_absent absent]
    exact lookup

/-- What a sweep leaves: the expired front of every queue is freed, and its keys are erased. -/
structure Cleared (map : NfosMap K) (n size : Nat) (now : Int) (T : Table K) (find : K → Option Int) (Q : ListId n → List Nat)
    (freed : List Nat) (U : Table K) (Q' : ListId n → List Nat) : Prop where
  coherent : Coherent map n size U (without find T.keys freed) Q'
  keys : U.keys = T.keys
  numbers : live n size U.cells = live n size T.cells \ {i | i ∈ freed}
  queue : ∀ c, Q' (.alloc c) = (Q (.alloc c)).dropWhile (Passed now T.cells)
  freed : ∀ i, i ∈ freed ↔ ∃ c, indexShift n + i ∈ (Q (.alloc c)).takeWhile (Passed now T.cells)
  time : ∀ i ∈ live n size U.cells, U.time n i = T.time n i

/-- The sweep of the queues and of the map together. -/
theorem Coherent.cleared (coherent : Coherent map n size T find Q) {freed : List Nat} {now : Int}
    (swept : Swept n size now 0 T.cells Q freed U.cells Q') (keys : U.keys = T.keys)
    (lookup : Lookup map U.entries (without find T.keys freed)) : Cleared map n size now T find Q freed U Q' := by
  have removed := swept.removed coherent.valid
  have taken : ∀ i, i ∈ freed ↔ ∃ c, indexShift n + i ∈ (Q (.alloc c)).takeWhile (Passed now T.cells) := by
    intro i
    have items := removed.taken (indexShift n + i)
    rwa [List.mem_map_of_injective (add_right_injective _)] at items
  have numbers : live n size U.cells = live n size T.cells \ {i | i ∈ freed} := by
    ext i
    rw [Set.mem_sdiff, mem_live swept.valid, mem_live coherent.valid]
    constructor
    · rintro ⟨c, member⟩
      refine ⟨⟨c, ?_⟩, fun gone => (removed.left c _ member).1 (List.mem_map_of_mem gone)⟩
      rw [swept.alloc_zero c]
      exact List.mem_append_right _ member
    · rintro ⟨⟨c, member⟩, stays⟩
      rw [swept.alloc_zero c] at member
      rcases List.mem_append.mp member with gone | left
      · exact absurd ((taken i).mpr ⟨c, gone⟩) stays
      · exact ⟨c, left⟩
  have present : ∀ i ∈ freed, i ∈ live n size T.cells := by
    intro i gone
    obtain ⟨c, member⟩ := (taken i).mp gone
    exact (mem_live coherent.valid).mpr ⟨c, (List.takeWhile_sublist _).subset member⟩
  constructor
  case coherent =>
    constructor
    case lookup => exact lookup
    case valid => exact swept.valid
    case timeless => exact swept.timeless coherent.valid coherent.timeless
    case directory =>
      rw [numbers, keys]
      exact directory_without coherent.directory removed.once.of_map present
  case keys => exact keys
  case numbers => exact numbers
  case queue => exact removed.queue
  case freed => exact taken
  case time =>
    intro i stays
    obtain ⟨c, member⟩ := (mem_live swept.valid).mp stays
    exact (removed.left c _ member).2

theorem post_sweepAll (arrays : Arrays K L R) (exact : map.Exact) (cores : 0 < n) {l : L}
    (coherent : Coherent map n size (arrays.table l) find Q) {grants : Nat → Nat → Bool} (now : Int) :
    Txs.Post (sweepAll arrays map n size now) grants l fun sweep l' => sweep.done = true ∧ arrays.rest l' = arrays.rest l ∧
      ∃ Q', Cleared map n size now (arrays.table l) find Q sweep.freed (arrays.table l') Q' := by
  have stable : ∀ (freed : List Nat) (t : Log NfosDchainExpCell) (m : L),
      (arrays.keys m = arrays.keys l ∧ arrays.rest m = arrays.rest l ∧
        Lookup map (arrays.map m).view (without find (arrays.keys l).view freed)) →
      arrays.keys (arrays.setChain t m) = arrays.keys l ∧ arrays.rest (arrays.setChain t m) = arrays.rest l ∧
        Lookup map (arrays.map (arrays.setChain t m)).view (without find (arrays.keys l).view freed) := by
    intro freed t m kept
    rwa [arrays.keys_setChain, arrays.rest_setChain, arrays.map_setChain]
  have erased : ∀ (freed : List Nat) (i : Nat) (m : L), i ∉ freed → (∃ c, indexShift n + i ∈ Q (.alloc c)) →
      (arrays.keys m = arrays.keys l ∧ arrays.rest m = arrays.rest l ∧
        Lookup map (arrays.map m).view (without find (arrays.keys l).view freed)) →
      Txs.Post (eraseKey arrays map i) grants m fun _ m' => arrays.chain m' = arrays.chain m ∧ (arrays.keys m' = arrays.keys l ∧
        arrays.rest m' = arrays.rest l ∧ Lookup map (arrays.map m').view (without find (arrays.keys l).view (freed ++ [i]))) := by
    rintro freed i m - - ⟨keys, rest, lookup⟩
    apply (post_eraseKey arrays exact lookup i).mono
    rintro _ m' ⟨chain, keys', rest', lookup'⟩
    rw [keys] at lookup'
    rw [without_append]
    exact ⟨chain, keys'.trans keys, rest'.trans rest, lookup'⟩
  have bound : pending Q (⟨0, cores⟩ : Fin n).val ≤ size + n := pending_le coherent.valid
  have fresh : ∀ d : Fin n, ∀ i, indexShift n + i ∈ Q (.alloc d) → indexShift n + i ∈ Q (.alloc d) ∧ i ∉ ([] : List Nat) :=
    fun d i member => ⟨member, List.not_mem_nil⟩
  have loop : Txs.Post (sweepAll arrays map n size now) grants l _ :=
    post_expireLoop arrays.chain_setChain stable erased coherent.valid fresh ⟨rfl, rfl, coherent.lookup⟩ bound
  apply loop.mono
  rintro sweep l' ⟨-, done, ⟨keys, rest, lookup⟩, Q', swept⟩
  exact ⟨done, rest, Q', coherent.cleared swept (congrArg Log.view keys) lookup⟩

/-- A key is stored while its number is new: there is room for every number. -/
theorem Coherent.post_put (coherent : Coherent map n size T find Q) (exact : map.Exact) (room : size ≤ map.capacity) {k : K}
    (absent : find k = none) {i : Nat} (within : i < size) (fresh : i ∉ live n size T.cells) {grants : Nat → Bool}
    {t : Log (NfosMapEntry K)} (here : t.view = T.entries) :
    Post (nfosMapPut map k i) grants t fun stored t' => stored = true ∧ Lookup map t'.view (Directory.added find k i) := by
  apply (post_put_lookup exact (here ▸ coherent.lookup) absent i).mono
  intro stored t' outcome
  cases stored with
  | true => exact ⟨rfl, outcome⟩
  | false =>
    obtain ⟨_, keys, distinct, full, present⟩ := outcome
    have fewer := coherent.directory.room (fun j member => member.1) within fresh distinct present
    omega

/-- A number that the allocator hands out gets a new key. -/
theorem Coherent.add (coherent : Coherent map n size T find Q) {k : K} (absent : find k = none) {i : Nat} {c : Fin n}
    {validity now : Int} (outcome : AllocateIndex.Allocated size (fun _ => now + validity) c T.cells Q (some i) U.cells)
    (lookup : Lookup map U.entries (Directory.added find k i)) (keys : U.keys = update T.keys i k) :
    ∃ Q', ∃ coherent' : Coherent map n size U (Directory.added find k i) Q',
      Lru.Step validity int64Max (queues coherent.valid) (.allocated c (indexShift n + i) now) (queues coherent'.valid) ∧
      live n size U.cells = insert i (live n size T.cells) ∧ U.cells.extraOf = update T.cells.extraOf (indexShift n + i) (now + validity) := by
  obtain ⟨Q', valid', timeless', step⟩ := allocate_step coherent.valid coherent.timeless outcome
  have queue := step.2.1
  have fresh := (allocated_fresh coherent.valid outcome).2
  have numbers : live n size U.cells = insert i (live n size T.cells) := by
    ext j
    rw [Set.mem_insert_iff, mem_live valid', mem_live coherent.valid]
    have member : ∀ d, indexShift n + j ∈ Q' (.alloc d) ↔ indexShift n + j ∈ Q (.alloc d) ∨ (indexShift n + j = indexShift n + i ∧ d = c) := by
      intro d
      rw [show Q' (.alloc d) = _ from congrFun queue d]
      exact Chains.mem_append
    simp only [member, exists_or, exists_and_left, exists_eq, and_true, add_right_inj]
    exact or_comm
  refine ⟨Q', ⟨lookup, valid', timeless', ?_⟩, step, numbers, outcome.2.2.1⟩
  rw [numbers, keys]
  exact coherent.directory.insert absent fresh

variable {validity latest now : Int} {freed : List Nat}

theorem Cleared.time_queued (cleared : Cleared map n size now T find Q freed U Q') {c : Fin n} {x : Nat}
    (member : x ∈ Q' (.alloc c)) : U.cells.extraOf x = T.cells.extraOf x := by
  obtain ⟨i, _, rfl⟩ := (cleared.coherent.valid.cover x).mp ⟨_, member⟩
  exact cleared.time i ((mem_live cleared.coherent.valid).mpr ⟨c, member⟩)

theorem Cleared.aged (cleared : Cleared map n size now T find Q freed U Q') (aged : Aged validity latest T.cells Q) :
    Aged validity latest U.cells Q' := by
  have left : ∀ c, (Q' (.alloc c)).Sublist (Q (.alloc c)) := by
    intro c
    rw [cleared.queue]
    exact List.dropWhile_sublist _
  constructor
  case sorted =>
    intro c
    apply ((aged.sorted c).sublist (left c)).imp_of_mem
    intro x y first second order
    rwa [cleared.time_queued first, cleared.time_queued second]
  case bounded =>
    intro c x member
    rw [cleared.time_queued member]
    exact aged.bounded c x ((left c).subset member)

/-- The freed numbers were in use and their times have passed. -/
theorem Cleared.passed (cleared : Cleared map n size now T find Q freed U Q') (valid : Valid n size T.cells Q) {i : Nat}
    (gone : i ∈ freed) : i ∈ live n size T.cells ∧ T.time n i < now := by
  obtain ⟨c, member⟩ := (cleared.freed i).mp gone
  refine ⟨(mem_live valid).mpr ⟨c, (List.takeWhile_sublist _).subset member⟩, ?_⟩
  have passed : Passed now T.cells (indexShift n + i) = true := List.mem_takeWhile_imp member
  exact of_decide_eq_true passed

/-- If the queues are in order, no number whose time has passed is left. -/
theorem Cleared.current (cleared : Cleared map n size now T find Q freed U Q') (aged : Aged validity latest T.cells Q) {i : Nat}
    (stays : i ∈ live n size U.cells) : now ≤ T.time n i := by
  obtain ⟨c, member⟩ := (mem_live cleared.coherent.valid).mp stays
  have kept : indexShift n + i ∈ (Q (.alloc c)).filter fun x => decide (now ≤ T.cells.extraOf x) := by
    rw [← (Lru.takeWhile_of_sorted (aged.sorted c) now).2]
    rwa [cleared.queue] at member
  exact of_decide_eq_true (List.mem_filter.mp kept).2

end Invariant
end Nfos.AgeingTable
