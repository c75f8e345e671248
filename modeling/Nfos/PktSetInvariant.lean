import Nfos.PktSetManager
import Mathlib.Data.List.Perm.Subperm

/-! The invariant of the packet-set manager: the bucket chains run exactly
through the allocated cells, each through its own bucket. -/
namespace Nfos.PktSetManager
open Function Linked ConcurrentDoubleChain CellData ConcurrentMap
variable {Id S : Type} {cfg : Config Id}

theorem builtinCtz_two_pow {k : Nat} (word : k < 32) : builtinCtz (2 ^ k) = k := by
  have all : ∀ k < 32, builtinCtz (2 ^ k) = k := by decide +kernel
  exact all k word

/-- The number of buckets of a partition is a power of two. -/
theorem Config.Fits.mapSize_eq (fits : cfg.Fits) : ∃ k < 32, cfg.mapSizePerPartition = 2 ^ k := by
  have positive : 1 ≤ cfg.maxNumPktSets := Nat.le_trans fits.cores fits.room
  have whole := nextPow2_eq positive fits.maxNumPktSets_le
  have atLeast : cfg.maxNumPktSets ≤ 2 ^ Nat.clog 2 cfg.maxNumPktSets := Nat.le_pow_clog (by omega) _
  have atMost : 2 ^ Nat.clog 2 cfg.maxNumPktSets ≤ 2 ^ 31 :=
    Nat.pow_le_pow_right (by omega) (Nat.clog_le_of_le_pow fits.maxNumPktSets_le)
  have share : 1 ≤ 2 ^ Nat.clog 2 cfg.maxNumPktSets / cfg.numCores :=
    Nat.div_pos (Nat.le_trans fits.room atLeast) fits.cores
  have shareMost : 2 ^ Nat.clog 2 cfg.maxNumPktSets / cfg.numCores ≤ 2 ^ 31 :=
    Nat.le_trans (Nat.div_le_self _ _) atMost
  refine ⟨Nat.clog 2 (2 ^ Nat.clog 2 cfg.maxNumPktSets / cfg.numCores), ?_, ?_⟩
  · exact Nat.lt_succ_of_le (Nat.clog_le_of_le_pow shareMost)
  · simp only [Config.mapSizePerPartition, fits.unrelated, Bool.false_eq_true, if_false, whole]
    exact nextPow2_eq share shareMost

theorem Config.Fits.bucketId_eq (fits : cfg.Fits) (key : Id) (p : Nat) :
    bucketId cfg.map key p =
      cfg.pktSetIdHash key % cfg.mapSizePerPartition + p * cfg.mapSizePerPartition := by
  obtain ⟨k, word, size⟩ := fits.mapSize_eq
  simp only [bucketId, Config.map, size, builtinCtz_two_pow word, Nat.and_two_pow_sub_one_eq_mod,
    Nat.shiftLeft_eq]

theorem Config.Fits.mapSize_pos (fits : cfg.Fits) : 0 < cfg.mapSizePerPartition := by
  obtain ⟨k, _, size⟩ := fits.mapSize_eq
  rw [size]
  exact Nat.two_pow_pos k

/-- The buckets of all partitions. -/
def Config.numBuckets (cfg : Config Id) : Nat := cfg.mapSizePerPartition * cfg.numCores

theorem Config.Fits.bucketId_lt (fits : cfg.Fits) (key : Id) (p : Fin cfg.numCores) :
    bucketId cfg.map key p.val < cfg.numBuckets := by
  have inside := Nat.mod_lt (cfg.pktSetIdHash key) fits.mapSize_pos
  have below : (p.val + 1) * cfg.mapSizePerPartition ≤ cfg.numCores * cfg.mapSizePerPartition :=
    Nat.mul_le_mul_right _ p.isLt
  rw [fits.bucketId_eq, Config.numBuckets, Nat.mul_comm cfg.mapSizePerPartition]
  rw [Nat.succ_mul] at below
  omega

/-- Partitions do not share buckets. -/
theorem Config.Fits.partition_eq (fits : cfg.Fits) {a b : Id} {p q : Nat}
    (same : bucketId cfg.map a p = bucketId cfg.map b q) : p = q := by
  have quotient : ∀ c : Id, ∀ r : Nat, bucketId cfg.map c r / cfg.mapSizePerPartition = r := by
    intro c r
    rw [fits.bucketId_eq, Nat.add_mul_div_right _ _ fits.mapSize_pos,
      Nat.div_eq_of_lt (Nat.mod_lt _ fits.mapSize_pos), Nat.zero_add]
  rw [← quotient a p, same, quotient]

theorem Config.Lawful.bucketId_congr (lawful : cfg.Lawful) {a b : Id} (same : cfg.pktSetIdEq a b = true)
    (p : Nat) : bucketId cfg.map a p = bucketId cfg.map b p := by
  simp only [bucketId, Config.map, lawful.hash a b same]

theorem Config.Lawful.eq_comm (lawful : cfg.Lawful) (a b : Id) :
    cfg.pktSetIdEq a b = cfg.pktSetIdEq b a := by
  rw [Bool.eq_iff_iff]
  exact ⟨lawful.equivalence.symm, lawful.equivalence.symm⟩

structure Coherent (cfg : Config Id) (m : Manager Id S) (L : ListId cfg.numCores → List Nat)
    (C : Fin cfg.numBuckets → List Nat) : Prop where
  valid : Valid cfg.numCores cfg.maxNumPktSets m.cells L
  chains : Chains (links cfg.numCores m.buckets m.cells) (fun b : Fin cfg.numBuckets => .bucket b.val)
    (fun _ => .null) fun b => (C b).map .cell
  members : ∀ b x, x ∈ C b ↔ ∃ p, x ∈ L (.alloc p) ∧ bucketId cfg.map (idOf m.cells x) p.val = b.val
  distinct : ∀ p, ∀ x ∈ L (.alloc p), ∀ y ∈ L (.alloc p),
    cfg.pktSetIdEq (idOf m.cells x) (idOf m.cells y) = true → x = y
  ended : ∀ i < cfg.maxNumPktSets, (∀ p, indexShift cfg.numCores + i ∉ L (.alloc p)) →
    mapChainNextOf m.cells (indexShift cfg.numCores + i) = -1

variable {m : Manager Id S} {L : ListId cfg.numCores → List Nat} {C : Fin cfg.numBuckets → List Nat}
  {p : Fin cfg.numCores} {key : Id} {x i : Nat} {l k : List Nat}

/-- The bucket of an id in a partition. -/
def Config.Fits.home (fits : cfg.Fits) (key : Id) (p : Fin cfg.numCores) : Fin cfg.numBuckets :=
  ⟨bucketId cfg.map key p.val, fits.bucketId_lt key p⟩

namespace Coherent

theorem bound (coherent : Coherent cfg m L C) (b : Fin cfg.numBuckets) (x : Nat) (member : x ∈ C b) :
    ∃ i < cfg.maxNumPktSets, x = indexShift cfg.numCores + i := by
  obtain ⟨p, allocated, _⟩ := (coherent.members b x).mp member
  obtain ⟨i, covers, rfl⟩ := (coherent.valid.cover x).mp ⟨_, allocated⟩
  exact ⟨i, Nat.lt_of_lt_of_le covers (covered_le _ _), rfl⟩

theorem inner (coherent : Coherent cfg m L C) (b : Fin cfg.numBuckets) (x : Nat) (member : x ∈ C b) :
    indexShift cfg.numCores ≤ x := by
  obtain ⟨i, _, rfl⟩ := coherent.bound b x member
  omega

/-- No chain is longer than the number of entries. -/
theorem length_le (coherent : Coherent cfg m L C) (b : Fin cfg.numBuckets) :
    (C b).length ≤ cfg.maxNumEntries := by
  have nodup : (C b).Nodup := (coherent.chains.nodup b).of_map _
  have inside : C b ⊆ (List.range cfg.maxNumPktSets).map (indexShift cfg.numCores + ·) := by
    intro x member
    obtain ⟨i, below, rfl⟩ := coherent.bound b x member
    exact List.mem_map_of_mem (List.mem_range.mpr below)
  have most := (List.subperm_of_subset nodup inside).length_le
  rw [List.length_map, List.length_range] at most
  rw [Config.maxNumEntries]
  omega

/-- An allocated cell is on the chain of every id equal to its own. -/
theorem mem_home (coherent : Coherent cfg m L C) (fits : cfg.Fits) (lawful : cfg.Lawful)
    (same : cfg.pktSetIdEq key (idOf m.cells x) = true) : x ∈ C (fits.home key p) ↔ x ∈ L (.alloc p) := by
  rw [coherent.members]
  constructor
  · rintro ⟨q, member, bucket⟩
    obtain rfl : q = p := Fin.ext (fits.partition_eq bucket)
    exact member
  · intro member
    exact ⟨p, member, (lawful.bucketId_congr same p.val).symm⟩

/-- The lookup of an id finds the one cell of the partition with an equal id. -/
theorem lookup (coherent : Coherent cfg m L C) (fits : cfg.Fits) (lawful : cfg.Lawful)
    (member : x ∈ L (.alloc p)) (same : cfg.pktSetIdEq key (idOf m.cells x) = true) :
    concurrentMapGet cfg.numCores cfg.maxNumEntries cfg.map m.buckets m.cells key p.val =
      some (some (indexOf cfg.numCores x)) := by
  have path := coherent.chains.path (fits.home key p)
  rw [concurrentMapGet_spec (coherent.inner _) (coherent.length_le _) path]
  cases found : (C (fits.home key p)).find? fun y => cfg.map.keysEq key (idOf m.cells y) with
  | none =>
    have absent := List.find?_eq_none.mp found x ((coherent.mem_home fits lawful same).mpr member)
    exact absurd same absent
  | some y =>
    have equal : cfg.map.keysEq key (idOf m.cells y) = true := by simpa using List.find?_some found
    have also := (coherent.mem_home fits lawful equal).mp (List.mem_of_find?_eq_some found)
    have both := lawful.equivalence.trans (lawful.equivalence.symm same) equal
    rw [coherent.distinct p x member y also both]
    rfl

theorem lookup_none (coherent : Coherent cfg m L C) (fits : cfg.Fits) (lawful : cfg.Lawful)
    (absent : ∀ x ∈ L (.alloc p), cfg.pktSetIdEq key (idOf m.cells x) = false) :
    concurrentMapGet cfg.numCores cfg.maxNumEntries cfg.map m.buckets m.cells key p.val = some none := by
  have path := coherent.chains.path (fits.home key p)
  rw [concurrentMapGet_spec (coherent.inner _) (coherent.length_le _) path]
  have none : (C (fits.home key p)).find? (fun y => cfg.map.keysEq key (idOf m.cells y)) = none := by
    rw [List.find?_eq_none]
    intro y member same
    have allocated := (coherent.mem_home fits lawful same).mp member
    rw [show cfg.map.keysEq key (idOf m.cells y) = false from absent y allocated] at same
    contradiction
  rw [none]
  rfl

theorem map_update (C : Fin cfg.numBuckets → List Nat) (b : Fin cfg.numBuckets) (l : List Nat) :
    (fun c => (update C b l c).map Node.cell) = update (fun c => (C c).map .cell) b (l.map .cell) :=
  comp_update (List.map Node.cell) C b l

/-- A free cell is on no chain and ends every chain it would be on. -/
theorem spare (coherent : Coherent cfg m L C) (below : i < cfg.maxNumPktSets)
    (free : ∀ p, indexShift cfg.numCores + i ∉ L (.alloc p)) :
    Spare (fun b : Fin cfg.numBuckets => Node.bucket b.val) (fun _ => .null)
        (fun b => (C b).map Node.cell) (.cell (indexShift cfg.numCores + i)) ∧
      links cfg.numCores m.buckets m.cells (.cell (indexShift cfg.numCores + i)) = .null := by
  refine ⟨⟨fun b => by simp, fun b => by simp, fun b member => ?_⟩, ?_⟩
  · have onChain : indexShift cfg.numCores + i ∈ C b := by simpa using member
    obtain ⟨p, allocated, _⟩ := (coherent.members b _).mp onChain
    exact free p allocated
  · exact node_eq_null.mpr (coherent.ended i below free)

/-- A chain ends with null wherever no chain node was redirected. -/
theorem last_ne (coherent : Coherent cfg m L C) (free : ∀ p, x ∉ L (.alloc p)) (b : Fin cfg.numBuckets)
    (within : ∀ y ∈ l, y ∈ C b) : Node.cell x ≠ lastNode (.bucket b.val) (l.map .cell) := by
  intro same
  have position := lastNode_mem (Node.bucket b.val) (l.map .cell)
  rw [← same] at position
  have onChain : x ∈ C b := within x (by simpa using position)
  obtain ⟨p, allocated, _⟩ := (coherent.members b x).mp onChain
  exact free p allocated

end Coherent
end Nfos.PktSetManager
