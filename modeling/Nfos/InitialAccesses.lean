import Nfos.InitialInts
import Nfos.ConcurrentExclusion
import Nfos.ExpiryQueues
import Nfos.DoubleChain

/-! The cells that the initialisations read or write. The loops are run once more with a
record of the accesses beside the memory. -/
namespace Nfos
open Function
variable {ε : Type} {n size : Nat}

/-- The code reads and writes no other cells than these. -/
def Touches (touched : List Nat) (write : Cells ε → Cells ε) : Prop :=
  ∀ m m', (∀ x ∈ touched, m x = m' x) → (∀ x ∈ touched, write m x = write m' x) ∧ ∀ x, x ∉ touched → write m x = m x

section Touches
variable {touched more : List Nat} {write next : Cells ε → Cells ε} {i v : Nat}

theorem Touches.then (first : Touches touched write) (second : Touches touched next) : Touches touched fun m => next (write m) := by
  intro m m' same
  obtain ⟨inside, outside⟩ := first m m' same
  obtain ⟨inside', outside'⟩ := second (write m) (write m') inside
  constructor
  · exact inside'
  · intro x off
    exact (outside' x off).trans (outside x off)

theorem Touches.mono (touches : Touches touched write) (included : touched ⊆ more) : Touches more write := by
  intro m m' same
  obtain ⟨inside, outside⟩ := touches m m' fun x member => same x (included member)
  have outside' := (touches m' m' fun _ _ => rfl).2
  constructor
  · intro x member
    by_cases within : x ∈ touched
    · exact inside x within
    · rw [outside x within, outside' x within, same x member]
  · intro x off
    exact outside x fun within => off (included within)

/-- A write to a cell that depends on that cell at most. -/
theorem touches_update (change : Cell ε → Cell ε) (i : Nat) : Touches [i] fun m : Cells ε => update m i (change (m i)) := by
  intro m m' same
  have here : m i = m' i := same i (List.mem_singleton_self i)
  constructor
  · intro x member
    obtain rfl := List.mem_singleton.mp member
    simp only [update_self, here]
  · intro x off
    exact update_of_ne (fun clash => off (List.mem_singleton.mpr clash)) _ _

theorem touches_setNext : Touches [i] fun m : Cells ε => m.setNext i v := touches_update (fun cell => { cell with next := v }) i

theorem touches_setPrev : Touches [i] fun m : Cells ε => m.setPrev i v := touches_update (fun cell => { cell with prev := v }) i

theorem touches_setInd {v : Int} : Touches [i] fun m : Cells ε => m.setInd i v :=
  touches_update (fun cell => { cell with listInd := v }) i

theorem touches_setExtra (change : ε → ε) : Touches [i] fun m : Cells ε => m.setExtra i (change (m.extraOf i)) :=
  touches_update (fun cell => { cell with extra := change cell.extra }) i

end Touches

/-- The cells that each part of an initialisation touches. -/
structure Footprint (n : Nat) (writes : InitWrites (Cells ε)) (cell : Nat → List Nat) : Prop where
  allocHead : ∀ i, Touches [i] (writes.allocHead i)
  freeHead : ∀ i v, Touches [i] (writes.freeHead i v)
  globHead : Touches [globalFreeListHead n] writes.globHead
  freeCell : ∀ i v, Touches (cell i) (writes.freeCell i v)

/-- The same writes, with a record of the cells they touch. -/
def logged (n : Nat) (writes : InitWrites (Cells ε)) (cell : Nat → List Nat) : InitWrites (Cells ε × List Nat) where
  allocHead i m := (writes.allocHead i m.1, m.2 ++ [i])
  freeHead i v m := (writes.freeHead i v m.1, m.2 ++ [i])
  globHead m := (writes.globHead m.1, m.2 ++ [globalFreeListHead n])
  freeCell i v m := (writes.freeCell i v m.1, m.2 ++ cell i)

/-- The initialisation ends, with the number of cells and all others computed in `int`, and no access is
outside of the cells that are reserved. -/
def EndsInside (n size : Nat) (reserved : Option Nat) (writes : InitWrites (Cells ε)) (cell : Nat → List Nat) (memory : Cells ε)
    (result : Option (Cells ε)) : Prop :=
  ∃ s accessed fuel bound, result = some s ∧ reserved = some bound ∧
    initListsInt (logged n writes cell) fuel size n (memory, []) = some (s, accessed) ∧ ∀ i ∈ accessed, i < bound

section Logged
variable {writes : InitWrites (Cells ε)} {cell : Nat → List Nat} {memory : Cells ε} {bound : Nat}

theorem foldl_logged {α : Type} (write : α → Cells ε → Cells ε) (touch : α → List Nat) (steps : List α) (m : Cells ε) (log : List Nat) :
    steps.foldl (fun m a => (write a m.1, m.2 ++ touch a)) (m, log) = (steps.foldl (fun m a => write a m) m, log ++ steps.flatMap touch) := by
  induction steps generalizing m log with
  | nil => simp
  | cons a steps ih => rw [List.foldl_cons, List.foldl_cons, ih, List.flatMap_cons, List.append_assoc]

/-- The accesses in the order of the loops. -/
def accesses (n size : Nat) (cell : Nat → List Nat) : List Nat :=
  (List.range n).flatMap (fun c => [allocListHead + c <<< listHeadPadding]) ++
    (List.range n).flatMap (fun c => [freeListHead n + c <<< listHeadPadding]) ++ [globalFreeListHead n] ++
    (List.range size).flatMap fun x => cell (indexShift n + x)

theorem initCells_logged : initCells (logged n writes cell) size n (memory, []) =
    (initCells writes size n memory, accesses n size cell) := by
  simp only [initCells, logged]
  rw [foldl_logged, foldl_logged, foldl_logged]
  rfl

theorem accesses_lt (cells : ∀ x < size, ∀ i ∈ cell (indexShift n + x), i < bound) (above : indexShift n ≤ bound) :
    ∀ i ∈ accesses n size cell, i < bound := by
  have head (w : ListId n) : w.head < bound := w.head_lt_indexShift.trans_le above
  intro i member
  simp only [accesses, List.mem_append, List.mem_flatMap, List.mem_range, List.mem_singleton] at member
  rcases member with ((⟨c, within, rfl⟩ | ⟨c, within, rfl⟩) | rfl) | ⟨x, within, touched⟩
  · exact head (.alloc ⟨c, within⟩)
  · exact head (.free ⟨c, within⟩)
  · exact head .glob
  · exact cells x within i touched

/-- The loops end exactly if there is an index for every core and all numbers fit; then no access is out of
bounds. -/
theorem endsInside_iff (cores : 0 < n) (indexes : 0 < size) {result : Option (Cells ε)} {reserved : Option Nat}
    (ended : n ≤ size → result = some (initCells writes size n memory)) (array : ∀ k, reserved = some k → k = bound)
    (cells : ∀ x < size, ∀ i ∈ cell (indexShift n + x), i < bound) (above : indexShift n ≤ bound) :
    EndsInside n size reserved writes cell memory result ↔ n ≤ size ∧ IntsFit n size ∧ reserved.isSome := by
  constructor
  · rintro ⟨s, accessed, fuel, k, -, found, ran, -⟩
    obtain ⟨plain, fits⟩ := initLists_of_int indexes ran
    refine ⟨?_, fits, found ▸ rfl⟩
    by_contra fewer
    rw [initLists_diverges _ fuel (Nat.div_eq_of_lt (not_le.mp fewer)) indexes] at plain
    contradiction
  · rintro ⟨room, fits, found⟩
    obtain ⟨k, found⟩ := Option.isSome_iff_exists.mp found
    obtain rfl := array k found
    refine ⟨_, accesses n size cell, size + n, k, ended room, found, ?_, accesses_lt cells above⟩
    rw [initListsInt_eq (Nat.div_pos room cores) fits, initLists_eq _ _ (Nat.div_pos room cores) le_rfl, initCells_logged]

end Logged

section Allocators
open DoubleChain DoubleChainExp ConcurrentDoubleChain

theorem footprint_doubleChain (n : Nat) : Footprint n (DoubleChain.initWrites n) fun i => [i] where
  allocHead _ := (touches_setPrev.then touches_setNext).then touches_setInd
  freeHead _ _ := (touches_setNext.then touches_setPrev).then touches_setInd
  globHead := (touches_setNext.then touches_setPrev).then touches_setInd
  freeCell _ _ := (touches_setNext.then touches_setPrev).then touches_setInd

theorem footprint_doubleChainExp (n : Nat) : Footprint n (DoubleChainExp.initWrites n) fun i => [i] where
  allocHead _ := ((touches_setPrev.then touches_setNext).then touches_setInd).then (touches_setExtra fun _ => DoubleChainExp.int64Max)
  freeHead _ _ := ((touches_setNext.then touches_setPrev).then touches_setInd).then (touches_setExtra fun _ => DoubleChainExp.int64Max)
  globHead := ((touches_setNext.then touches_setPrev).then touches_setInd).then (touches_setExtra fun _ => DoubleChainExp.int64Max)
  freeCell _ _ := ((touches_setNext.then touches_setPrev).then touches_setInd).then (touches_setExtra fun _ => DoubleChainExp.int64Max)

/-- The cell behind the array of the indexes is that of the related packet set. -/
theorem footprint_concurrent {Id : Type} (size n : Nat) :
    Footprint n (ConcurrentDoubleChain.initWrites size n : InitWrites (ConcurrentDchainCells Id)) fun i => [i, i + size] where
  allocHead _ := (touches_setPrev.then touches_setNext).then touches_setInd
  freeHead _ _ := (touches_setNext.then touches_setPrev).then touches_setInd
  globHead := (touches_setNext.then touches_setPrev).then touches_setInd
  freeCell i v := by
    have first : Touches [i] fun m : ConcurrentDchainCells Id => CellData.setMapChainNext
        (CellData.setTime (((m.setNext i v).setPrev i v).setInd i (-1)) i ConcurrentDoubleChain.int64Max) i (-1) :=
      (((touches_setNext.then touches_setPrev).then touches_setInd).then
        (touches_setExtra fun data : ChainData Id => { data with time := ConcurrentDoubleChain.int64Max })).then
          (touches_setExtra fun data : ChainData Id => { data with mapChainNext := -1 })
    have related : Touches [i + size] fun m : ConcurrentDchainCells Id => CellData.setMapChainNext m (i + size) (-1) :=
      touches_setExtra fun data : ChainData Id => { data with mapChainNext := -1 }
    exact (first.mono (by simp)).then (related.mono (by simp))

/-- In each allocator the initialisation ends inside its array exactly if there is an index for every core, and
the numbers of the cells fit into `int`. -/
theorem initialisation_ends_inside_iff {Id : Type} (cores : 0 < n) (indexes : 0 < size) :
    (Footprint n (DoubleChain.initWrites n) (fun i => [i]) ∧ ∀ memory,
      (EndsInside n size (numCells size n) (DoubleChain.initWrites n) (fun i => [i]) memory
        (nfosDchainImplInit memory size n) ↔ n ≤ size ∧ IntsFit n size)) ∧
    (Footprint n (DoubleChainExp.initWrites n) (fun i => [i]) ∧ ∀ tscHz usecs memory,
      (EndsInside n size (numCells size n) (DoubleChainExp.initWrites n) (fun i => [i]) memory
        ((nfosDchainExpAllocate tscHz memory size usecs n).map (·.cells)) ↔ n ≤ size ∧ IntsFit n size)) ∧
    Footprint n (ConcurrentDoubleChain.initWrites size n : InitWrites (ConcurrentDchainCells Id)) (fun i => [i, i + size]) ∧
    ∀ memory : ConcurrentDchainCells Id,
      (EndsInside n size (numConcurrentCells size n) (ConcurrentDoubleChain.initWrites size n) (fun i => [i, i + size]) memory
        (concurrentDchainImplInit memory size n) ↔ n ≤ size ∧ IntsFit n size ∧ 2 * size + 16 * n + 1 < 2 ^ 31) := by
  have shift : indexShift n = 16 * n + 1 := by
    simp only [indexShift, globalFreeListHead, listHeadPadding, Nat.shiftLeft_eq]
    omega
  have loops {M : Type} (writes : InitWrites M) (memory : M) (room : n ≤ size) :
      initLists writes (size + n) size n memory = some (initCells writes size n memory) :=
    initLists_eq writes _ (Nat.div_pos room cores) le_rfl memory
  have array : n ≤ size ∧ IntsFit n size ∧ (numCells size n).isSome ↔ n ≤ size ∧ IntsFit n size := by
    constructor
    · rintro ⟨room, fits, -⟩
      exact ⟨room, fits⟩
    · rintro ⟨room, fits⟩
      have last := fits.end (Nat.div_pos room cores)
      exact ⟨room, fits, Option.isSome_iff_exists.mpr ⟨_, numCells_eq_some.mpr ⟨by omega, rfl⟩⟩⟩
  have concurrentArray : (numConcurrentCells size n).isSome ↔ 2 * size + 16 * n + 1 < 2 ^ 31 := by
    simp [Option.isSome_iff_exists, numConcurrentCells_eq_some]
  refine ⟨⟨footprint_doubleChain n, ?_⟩, ⟨footprint_doubleChainExp n, ?_⟩, footprint_concurrent size n, ?_⟩
  · intro memory
    rw [← array]
    apply endsInside_iff cores indexes (loops _ memory) fun k found => (numCells_eq_some.mp found).2
    · simp only [List.mem_singleton]
      omega
    · omega
  · intro tscHz usecs memory
    rw [← array]
    refine endsInside_iff cores indexes ?_ (fun k found => (numCells_eq_some.mp found).2) ?_ ?_
    · intro room
      rw [nfosDchainExpAllocate, loops _ memory room]
      rfl
    · simp only [List.mem_singleton]
      omega
    · omega
  · intro memory
    rw [← concurrentArray]
    apply endsInside_iff cores indexes (loops _ memory) fun k found => (numConcurrentCells_eq_some.mp found).2
    · simp only [List.mem_cons, List.not_mem_nil, or_false]
      omega
    · omega

/-- Five indexes over two cores. -/
theorem initialisation_ends_inside_two_cores : 0 < 2 ∧ 0 < 5 ∧ numCells 5 2 = some 38 ∧ numConcurrentCells 5 2 = some 43 ∧
    EndsInside 2 5 (numCells 5 2) (DoubleChain.initWrites 2) (fun i => [i]) (fun _ => ⟨0, 0, 0, ()⟩)
      (nfosDchainImplInit (fun _ => ⟨0, 0, 0, ()⟩) 5 2) ∧
    EndsInside 2 5 (numCells 5 2) (DoubleChainExp.initWrites 2) (fun i => [i]) (fun _ => ⟨0, 0, 0, 0⟩)
      ((nfosDchainExpAllocate 1000000000 (fun _ => ⟨0, 0, 0, 0⟩) 5 1000000 2).map (·.cells)) ∧
    EndsInside 2 5 (numConcurrentCells 5 2) (ConcurrentDoubleChain.initWrites 5 2) (fun i => [i, i + 5])
      (fun _ => ⟨0, 0, 0, ⟨0, (), 0⟩⟩) (concurrentDchainImplInit (fun _ => ⟨0, 0, 0, ⟨0, (), 0⟩⟩) 5 2) := by
  obtain ⟨⟨-, plain⟩, ⟨-, expiring⟩, -, concurrent⟩ :=
    @initialisation_ends_inside_iff 2 5 Unit (by decide) (by decide)
  have room : 2 ≤ 5 := by decide
  have fits : IntsFit 2 5 := ⟨by decide, by decide⟩
  exact ⟨by decide, by decide, by decide, by decide, (plain _).mpr ⟨room, fits⟩, (expiring _ _ _).mpr ⟨room, fits⟩,
    (concurrent _).mpr ⟨room, fits, by decide⟩⟩

/-- One index over two cores: the step of the last loop is zero. -/
theorem initialisation_diverges : (∀ fuel, initListsInt (DoubleChain.initWrites 2) fuel 1 2 (fun _ => ⟨0, 0, 0, ()⟩) = none) ∧
    ¬ EndsInside 2 1 (numCells 1 2) (DoubleChain.initWrites 2) (fun i => [i]) (fun _ => ⟨0, 0, 0, ()⟩)
      (nfosDchainImplInit (fun _ => ⟨0, 0, 0, ()⟩) 1 2) := by
  have stuck (fuel : Nat) : initLists (DoubleChain.initWrites 2) fuel 1 2 (fun _ => ⟨0, 0, 0, ()⟩) = none :=
    initLists_diverges _ fuel (by decide) (by decide) _
  constructor
  · intro fuel
    rw [Option.eq_none_iff_forall_ne_some]
    intro s ran
    have plain := (initLists_of_int (by decide) ran).1
    rw [stuck] at plain
    contradiction
  · rintro ⟨s, accessed, fuel, bound, ended, -, -, -⟩
    rw [nfosDchainImplInit, stuck] at ended
    contradiction

end Allocators
end Nfos
