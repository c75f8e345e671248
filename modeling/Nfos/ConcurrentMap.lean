import Nfos.ConcurrentSections

/-! `ConcurrentMap`: the chained hash map of the packet sets. A chain starts in a
bucket and runs through the cells of `ConcurrentDoubleChain`; every partition
has its own buckets. -/
namespace Nfos.ConcurrentDoubleChain
open Function Linked CellData
variable {Id : Type}

namespace CellData

def timeOf (cells : ConcurrentDchainCells Id) (x : Nat) : Int := (cells.extraOf x).time
def idOf (cells : ConcurrentDchainCells Id) (x : Nat) : Id := (cells.extraOf x).id
def mapChainNextOf (cells : ConcurrentDchainCells Id) (x : Nat) : Int := (cells.extraOf x).mapChainNext

section Fields
variable (cells : ConcurrentDchainCells Id) (i : Nat)

private theorem data_setExtra {β : Type} (f : ChainData Id → β) (e : ChainData Id) :
    (fun x => f ((cells.setExtra i e).extraOf x)) = update (fun x => f (cells.extraOf x)) i (f e) := by
  rw [Cells.extraOf_setExtra]
  funext x
  by_cases same : x = i
  · simp [same]
  · simp [update_of_ne same]

@[simp] theorem idOf_setTime (v : Int) : idOf (setTime cells i v) = idOf cells :=
  (data_setExtra cells i ChainData.id _).trans (update_eq_self i (idOf cells))
@[simp] theorem timeOf_setTime (v : Int) : timeOf (setTime cells i v) = update (timeOf cells) i v :=
  data_setExtra cells i ChainData.time _
@[simp] theorem mapChainNextOf_setTime (v : Int) :
    mapChainNextOf (setTime cells i v) = mapChainNextOf cells :=
  (data_setExtra cells i ChainData.mapChainNext _).trans (update_eq_self i (mapChainNextOf cells))
@[simp] theorem idOf_setId (v : Id) : idOf (setId cells i v) = update (idOf cells) i v :=
  data_setExtra cells i ChainData.id _
@[simp] theorem timeOf_setId (v : Id) : timeOf (setId cells i v) = timeOf cells :=
  (data_setExtra cells i ChainData.time _).trans (update_eq_self i (timeOf cells))
@[simp] theorem mapChainNextOf_setId (v : Id) : mapChainNextOf (setId cells i v) = mapChainNextOf cells :=
  (data_setExtra cells i ChainData.mapChainNext _).trans (update_eq_self i (mapChainNextOf cells))
@[simp] theorem idOf_setMapChainNext (v : Int) : idOf (setMapChainNext cells i v) = idOf cells :=
  (data_setExtra cells i ChainData.id _).trans (update_eq_self i (idOf cells))
@[simp] theorem timeOf_setMapChainNext (v : Int) : timeOf (setMapChainNext cells i v) = timeOf cells :=
  (data_setExtra cells i ChainData.time _).trans (update_eq_self i (timeOf cells))
@[simp] theorem mapChainNextOf_setMapChainNext (v : Int) :
    mapChainNextOf (setMapChainNext cells i v) = update (mapChainNextOf cells) i v :=
  data_setExtra cells i ChainData.mapChainNext _

end Fields

/-- The fields of the map do not depend on the time. -/
theorem fields_of_stamp {cells after : ConcurrentDchainCells Id} {x : Nat} {time : Int}
    (extra : after.extraOf = update cells.extraOf x { cells.extraOf x with time := time }) :
    idOf after = idOf cells ∧ mapChainNextOf after = mapChainNextOf cells ∧
      timeOf after = update (timeOf cells) x time := by
  have stamped : after.extraOf = (setTime cells x time).extraOf := by rw [extra, extraOf_setTime]
  have same : ∀ {β : Type} (f : ChainData Id → β),
      (fun y => f (after.extraOf y)) = fun y => f ((setTime cells x time).extraOf y) := by
    intro β f
    rw [stamped]
  refine ⟨?_, ?_, ?_⟩
  · exact (same ChainData.id).trans (idOf_setTime cells x time)
  · exact (same ChainData.mapChainNext).trans (mapChainNextOf_setTime cells x time)
  · exact (same ChainData.time).trans (timeOf_setTime cells x time)

end CellData

/-- `concurrent_dchain_cell_out` -/
def concurrentDchainCellOut (numCores : Nat) (index : Int) : Nat := (index + indexShift numCores).toNat

end Nfos.ConcurrentDoubleChain

/-- The constant fields of the struct. -/
structure Nfos.ConcurrentMap (Id : Type) where
  numBucketsPerPartitionLogTwo : Nat
  numBucketsPerPartition : Nat
  keysEq : Id → Id → Bool
  khash : Id → Nat

namespace Nfos.ConcurrentMap
open Function Linked ConcurrentDoubleChain CellData
variable {Id : Type}

abbrev Buckets := Nat → Int

section Operations
variable (numCores fuel : Nat) (map : ConcurrentMap Id) (buckets : Buckets)
  (cells : ConcurrentDchainCells Id) (key : Id) (pktSetPartition : Nat)

def bucketId : Nat :=
  (map.khash key &&& (map.numBucketsPerPartition - 1)) +
    pktSetPartition <<< map.numBucketsPerPartitionLogTwo

/-- -1 means the bucket is empty. -/
def concurrentMapAllocate (numPktSetPartitions : Nat) : Buckets := fun i =>
  if i < map.numBucketsPerPartition * numPktSetPartitions then -1 else buckets i

def concurrentMapGet : Option (Option Int) := do
  let index ← Loop.loop (fun index : Int => index ≠ -1 &&
      !map.keysEq key (idOf cells (concurrentDchainCellOut numCores index)))
    (fun index => some (mapChainNextOf cells (concurrentDchainCellOut numCores index)))
    fuel (buckets (bucketId map key pktSetPartition))
  return if index = -1 then none else some index

def concurrentMapPut (index : Int) : Option (Buckets × ConcurrentDchainCells Id) := do
  let bucket := bucketId map key pktSetPartition
  let (buckets, cells) ←
    if buckets bucket = -1 then
      some (update buckets bucket index, cells)
    else do
      let mapEntry ← Loop.loop (fun mapEntry => mapChainNextOf cells mapEntry ≠ -1)
        (fun mapEntry => some (concurrentDchainCellOut numCores (mapChainNextOf cells mapEntry)))
        fuel (concurrentDchainCellOut numCores (buckets bucket))
      some (buckets, setMapChainNext cells mapEntry index)
  return (buckets, setId cells (concurrentDchainCellOut numCores index) key)

/-- The entry of the key is looked for without a check for the end of the chain. -/
def concurrentMapErase : Option (Buckets × ConcurrentDchainCells Id) := do
  let bucket := bucketId map key pktSetPartition
  let mapEntry := concurrentDchainCellOut numCores (buckets bucket)
  if map.keysEq key (idOf cells mapEntry) then
    return (update buckets bucket (mapChainNextOf cells mapEntry), setMapChainNext cells mapEntry (-1))
  else
    let (prevMapEntry, mapEntry) ← Loop.loop (fun entries : Nat × Nat =>
        !map.keysEq key (idOf cells entries.2))
      (fun entries => some (entries.2,
        concurrentDchainCellOut numCores (mapChainNextOf cells entries.2)))
      fuel (mapEntry, concurrentDchainCellOut numCores (mapChainNextOf cells mapEntry))
    let cells := setMapChainNext cells prevMapEntry (mapChainNextOf cells mapEntry)
    return (buckets, setMapChainNext cells mapEntry (-1))

end Operations

/-- The nodes of the bucket chains. -/
inductive Node where
  | bucket (b : Nat)
  | cell (x : Nat)
  | null
  deriving DecidableEq

/-- The node that an index stands for. -/
def node (n : Nat) (index : Int) : Node :=
  if index = -1 then .null else .cell (concurrentDchainCellOut n index)

/-- The index stored at a node. -/
def stored (buckets : Buckets) (cells : ConcurrentDchainCells Id) : Node → Int
  | .bucket b => buckets b
  | .cell x => mapChainNextOf cells x
  | .null => -1

def links (n : Nat) (buckets : Buckets) (cells : ConcurrentDchainCells Id) (a : Node) : Node :=
  node n (stored buckets cells a)

variable {n fuel b : Nat} {map : ConcurrentMap Id} {buckets : Buckets} {cells : ConcurrentDchainCells Id}
  {key : Id} {p x : Nat} {l m : List Nat} {a : Node} {index : Int}

theorem node_eq_null : node n index = .null ↔ index = -1 := by
  simp [node]

theorem node_eq_cell : node n index = .cell x ↔ index ≠ -1 ∧ concurrentDchainCellOut n index = x := by
  by_cases null : index = -1
  · simp [node, null]
  · simp [node, null]

/-- The index of a cell. -/
def indexOf (n x : Nat) : Int := (x : Int) - indexShift n

theorem cellOut_eq (inner : indexShift n ≤ x) :
    concurrentDchainCellOut n index = x ↔ index = indexOf n x := by
  have positive : 0 < indexShift n := Nat.succ_pos _
  rw [concurrentDchainCellOut, indexOf]
  omega

theorem node_indexOf (inner : indexShift n ≤ x) : node n (indexOf n x) = .cell x := by
  rw [node_eq_cell, cellOut_eq inner, indexOf]
  omega

theorem links_setBucket (v : Int) :
    links n (update buckets b v) cells = update (links n buckets cells) (.bucket b) (node n v) := by
  funext a
  cases a with
  | bucket c =>
    by_cases same : c = b
    · simp [links, stored, same]
    · simp [links, stored, same]
  | cell y | null => simp [links, stored]

theorem links_setMapChainNext (v : Int) : links n buckets (setMapChainNext cells x v) =
    update (links n buckets cells) (.cell x) (node n v) := by
  funext a
  cases a with
  | cell y =>
    by_cases same : y = x
    · simp [links, stored, same]
    · simp [links, stored, same]
  | bucket c | null => simp [links, stored]

@[simp] theorem links_setId (v : Id) :
    links n buckets (setId cells x v) = links n buckets cells := by
  funext a
  cases a <;> simp [links, stored]

theorem links_congr {after : ConcurrentDchainCells Id} (same : mapChainNextOf after = mapChainNextOf cells) :
    links n buckets after = links n buckets cells := by
  funext a
  cases a with
  | cell y => simp [links, stored, same]
  | bucket c | null => rfl

/-- The walk of `get` along a chain stops at the first cell with an equal id. -/
theorem get_walk (map : ConcurrentMap Id) (key : Id) (inner : ∀ x ∈ l, indexShift n ≤ x) (enough : l.length ≤ fuel)
    (path : Path (links n buckets cells) a (l.map .cell) .null) :
    Loop.loop (fun index : Int => index ≠ -1 &&
        !map.keysEq key (idOf cells (concurrentDchainCellOut n index)))
      (fun index => some (mapChainNextOf cells (concurrentDchainCellOut n index)))
      fuel (stored buckets cells a) =
    some (((l.find? fun x => map.keysEq key (idOf cells x)).map (indexOf n)).getD (-1)) := by
  induction l generalizing a fuel with
  | nil =>
    have last : stored buckets cells a = -1 := node_eq_null.mp path
    rw [last]
    exact Loop.loop_done (by simp) fuel
  | cons x l ih =>
    obtain ⟨first, rest⟩ := path
    obtain ⟨more, here⟩ := node_eq_cell.mp first
    have value : stored buckets cells a = indexOf n x :=
      (cellOut_eq (inner x List.mem_cons_self)).mp here
    cases found : map.keysEq key (idOf cells x) with
    | true =>
      have first : (x :: l).find? (fun x => map.keysEq key (idOf cells x)) = some x :=
        List.find?_cons_of_pos found
      rw [Loop.loop_done (by simp [here, found]), first, value]
      rfl
    | false =>
      obtain ⟨fuel, rfl⟩ : ∃ k, fuel = k + 1 := ⟨fuel - 1, by simp at enough; omega⟩
      rw [Loop.loop_more (t := mapChainNextOf cells x) (by simp [here, found, more]) (by rw [here]),
        List.find?_cons_of_neg (by simp [found])]
      exact ih (fun y member => inner y (List.mem_cons_of_mem _ member)) (by simpa using enough) rest

/-- The walk of `put` stops at the last cell of a chain. -/
theorem put_walk (enough : l.length ≤ fuel)
    (path : Path (links n buckets cells) (.cell x) (l.map .cell) .null) :
    ∃ y, lastNode (Node.cell x) (l.map .cell) = .cell y ∧
      Loop.loop (fun mapEntry => mapChainNextOf cells mapEntry ≠ -1)
        (fun mapEntry => some (concurrentDchainCellOut n (mapChainNextOf cells mapEntry)))
        fuel x = some y := by
  induction l generalizing x fuel with
  | nil =>
    have last : mapChainNextOf cells x = -1 := node_eq_null.mp path
    exact ⟨x, rfl, Loop.loop_done (by simp [last]) fuel⟩
  | cons y l ih =>
    obtain ⟨first, rest⟩ := path
    obtain ⟨more, here⟩ := node_eq_cell.mp first
    obtain ⟨fuel, rfl⟩ : ∃ k, fuel = k + 1 := ⟨fuel - 1, by simp at enough; omega⟩
    obtain ⟨z, last, ended⟩ := ih (by simpa using enough) rest
    refine ⟨z, last, (Loop.loop_more ?_ ?_ fuel).trans ended⟩
    · simpa [stored] using more
    · exact congrArg some here

/-- The walk of `erase` stops at the cell of the key, one behind its predecessor. -/
theorem erase_walk {y z : Nat} (path : Path (links n buckets cells) (.cell y) ((l ++ [x]).map .cell) a)
    (next : links n buckets cells (.cell y) = .cell z)
    (before : ∀ w ∈ l, map.keysEq key (idOf cells w) = false)
    (found : map.keysEq key (idOf cells x) = true) (enough : l.length ≤ fuel) :
    ∃ w, lastNode (Node.cell y) (l.map .cell) = .cell w ∧
      Loop.loop (fun entries : Nat × Nat => !map.keysEq key (idOf cells entries.2))
        (fun entries => some (entries.2,
          concurrentDchainCellOut n (mapChainNextOf cells entries.2))) fuel (y, z) = some (w, x) := by
  induction l generalizing y z fuel with
  | nil =>
    obtain rfl : z = x := by
      have first := path.1
      rw [next] at first
      exact Node.cell.inj first
    exact ⟨y, rfl, Loop.loop_done (by simp [found]) fuel⟩
  | cons w l ih =>
    obtain ⟨first, rest⟩ := path
    rw [next] at first
    obtain rfl : z = w := Node.cell.inj first
    have other := before z List.mem_cons_self
    obtain ⟨fuel, rfl⟩ : ∃ k, fuel = k + 1 := ⟨fuel - 1, by simp at enough; omega⟩
    obtain ⟨u, second⟩ : ∃ u, links n buckets cells (.cell z) = .cell u := by
      cases l with
      | nil => exact ⟨x, rest.1⟩
      | cons u l => exact ⟨u, rest.1⟩
    obtain ⟨v, last, ended⟩ := ih rest second (fun w member => before w (List.mem_cons_of_mem _ member))
      (by simpa using enough)
    refine ⟨v, last, (Loop.loop_more ?_ ?_ fuel).trans ended⟩
    · simp [other]
    · exact congrArg (fun next => some (z, next)) (node_eq_cell.mp second).2

/-- The map changes neither the lists of the allocator nor the times. -/
structure Untouched (cells after : ConcurrentDchainCells Id) : Prop where
  next : after.nextOf = cells.nextOf
  prev : after.prevOf = cells.prevOf
  ind : after.indOf = cells.indOf
  time : timeOf after = timeOf cells

theorem Untouched.refl (cells : ConcurrentDchainCells Id) : Untouched cells cells := ⟨rfl, rfl, rfl, rfl⟩

theorem Untouched.trans {a b c : ConcurrentDchainCells Id} (first : Untouched a b)
    (second : Untouched b c) : Untouched a c :=
  ⟨second.next.trans first.next, second.prev.trans first.prev, second.ind.trans first.ind,
    second.time.trans first.time⟩

section Results
variable {after : Buckets × ConcurrentDchainCells Id}

theorem put_untouched (ran : concurrentMapPut n fuel map buckets cells key p index = some after) :
    Untouched cells after.2 := by
  simp only [concurrentMapPut] at ran
  split at ran
  · cases ran
    constructor <;> simp
  · obtain ⟨entry, _, wrote⟩ := Option.bind_eq_some_iff.mp ran
    cases wrote
    constructor <;> simp

theorem erase_untouched (ran : concurrentMapErase n fuel map buckets cells key p = some after) :
    Untouched cells after.2 := by
  simp only [concurrentMapErase] at ran
  split at ran
  · cases ran
    constructor <;> simp
  · obtain ⟨entries, _, wrote⟩ := Option.bind_eq_some_iff.mp ran
    cases wrote
    constructor <;> simp

/-- `get` returns the index of the first cell on the chain of the key whose id
equals the key. -/
theorem concurrentMapGet_spec (inner : ∀ x ∈ l, indexShift n ≤ x) (enough : l.length ≤ fuel)
    (path : Path (links n buckets cells) (.bucket (bucketId map key p)) (l.map .cell) .null) :
    concurrentMapGet n fuel map buckets cells key p =
      some ((l.find? fun x => map.keysEq key (idOf cells x)).map (indexOf n)) := by
  have walk := get_walk map key inner enough path
  rw [concurrentMapGet]
  change (Loop.loop _ _ fuel (stored buckets cells (.bucket (bucketId map key p))) >>= _) = _
  rw [walk]
  cases found : l.find? fun x => map.keysEq key (idOf cells x) with
  | none => rfl
  | some x =>
    have above := inner x (List.mem_of_find?_eq_some found)
    have present : indexOf n x ≠ -1 := by
      rw [indexOf]
      omega
    simp [present]

/-- `put` links a cell behind the chain of the key and writes the id. -/
theorem concurrentMapPut_spec (above : indexShift n ≤ x) (enough : l.length ≤ fuel)
    (path : Path (links n buckets cells) (.bucket (bucketId map key p)) (l.map .cell) .null) :
    ∃ buckets' cells', concurrentMapPut n fuel map buckets cells key p (indexOf n x) =
        some (buckets', cells') ∧
      links n buckets' cells' = update (links n buckets cells)
        (lastNode (.bucket (bucketId map key p)) (l.map .cell)) (.cell x) ∧
      idOf cells' = update (idOf cells) x key := by
  have target : concurrentDchainCellOut n (indexOf n x) = x := (cellOut_eq above).mpr rfl
  cases l with
  | nil =>
    have empty : buckets (bucketId map key p) = -1 := node_eq_null.mp path
    refine ⟨update buckets (bucketId map key p) (indexOf n x), setId cells x key, ?_, ?_, by simp⟩
    · simp [concurrentMapPut, empty, target]
    · rw [links_setId, links_setBucket, node_indexOf above]
      rfl
  | cons y l =>
    obtain ⟨first, rest⟩ := path
    obtain ⟨more, here⟩ := node_eq_cell.mp first
    obtain ⟨z, last, ended⟩ := put_walk (Nat.le_of_succ_le enough) rest
    refine ⟨buckets, setId (setMapChainNext cells z (indexOf n x)) x key, ?_, ?_, by simp⟩
    · simp only [stored] at more here
      simp only [concurrentMapPut, if_neg more, here, ended, target, Option.bind_eq_bind,
        Option.bind_some, Option.pure_def]
    · rw [links_setId, links_setMapChainNext, node_indexOf above]
      exact congrArg (fun a => update (links n buckets cells) a (.cell x)) last.symm

/-- `erase` cuts the cell of the key out of its chain and resets its link. -/
theorem concurrentMapErase_spec (enough : l.length ≤ fuel)
    (path : Path (links n buckets cells) (.bucket (bucketId map key p)) ((l ++ x :: m).map .cell) .null)
    (before : ∀ y ∈ l, map.keysEq key (idOf cells y) = false)
    (found : map.keysEq key (idOf cells x) = true) :
    ∃ buckets' cells', concurrentMapErase n fuel map buckets cells key p = some (buckets', cells') ∧
      links n buckets' cells' = update (update (links n buckets cells)
        (lastNode (.bucket (bucketId map key p)) (l.map .cell)) (links n buckets cells (.cell x)))
          (.cell x) .null ∧
      idOf cells' = idOf cells := by
  cases l with
  | nil =>
    obtain ⟨first, rest⟩ := path
    have here : concurrentDchainCellOut n (buckets (bucketId map key p)) = x := (node_eq_cell.mp first).2
    refine ⟨update buckets (bucketId map key p) (mapChainNextOf cells x), setMapChainNext cells x (-1),
      by simp [concurrentMapErase, here, found], ?_, by simp⟩
    rw [links_setMapChainNext, links_setBucket]
    rfl
  | cons y l =>
    rw [List.map_append, List.map_cons (l := m), path_append] at path
    obtain ⟨⟨first, front⟩, _⟩ := path
    have here : concurrentDchainCellOut n (buckets (bucketId map key p)) = y := (node_eq_cell.mp first).2
    have other := before y List.mem_cons_self
    obtain ⟨z, next⟩ : ∃ z, links n buckets cells (.cell y) = .cell z := by
      cases l with
      | nil => exact ⟨x, front⟩
      | cons z l => exact ⟨z, front.1⟩
    have joined : Path (links n buckets cells) (.cell y) ((l ++ [x]).map .cell)
        (links n buckets cells (.cell x)) := by
      rw [List.map_append, List.map_cons, path_append]
      exact ⟨front, rfl⟩
    obtain ⟨w, last, ended⟩ := erase_walk joined next
      (fun u member => before u (List.mem_cons_of_mem _ member)) found (Nat.le_of_succ_le enough)
    have entry : concurrentDchainCellOut n (mapChainNextOf cells y) = z := (node_eq_cell.mp next).2
    refine ⟨buckets, setMapChainNext (setMapChainNext cells w (mapChainNextOf cells x)) x (-1), ?_, ?_,
      by simp⟩
    · simp only [concurrentMapErase, here, other, Bool.false_eq_true, if_false, entry, ended,
        Option.bind_eq_bind, Option.bind_some, Option.pure_def]
    · rw [links_setMapChainNext, links_setMapChainNext]
      exact congrArg (fun a => update (update (links n buckets cells) a (links n buckets cells (.cell x)))
        (.cell x) .null) last.symm

end Results
end Nfos.ConcurrentMap
