import Nfos.InitialInts
import Nfos.ConcurrentAllocation
import Nfos.DoubleChain
import Nfos.ExpiryQueues
import Mathlib.Data.List.Perm.Subperm

/-! Which indexes can be handed out after initialisation. The last cell of a chunk is linked
to the head of the list of its core, but only the chunks of the cores have a head that leads
to them. -/
namespace Nfos
open Linked Txn Tx
variable {ε : Type} {n size : Nat} {s : Cells ε} {L : ListId n → List Nat}

/-- Following `next` from the head of the list leads to the cell before it leads back. -/
def Listed (s : Cells ε) (w : ListId n) (x : Nat) : Prop :=
  ∃ l, Path s.nextOf w.head l w.head ∧ w.head ∉ l ∧ x ∈ l

/-- Successive allocations by the given cores, `none` when one of them fails. -/
def allocateAll (allocate : Fin n → Int → Cells ε → Option (Option Nat × Cells ε)) :
    List (Fin n × Int) → Cells ε → Option (List Nat × Cells ε)
  | [], s => some ([], s)
  | (core, time) :: calls, s => do
    match ← allocate core time s with
    | (none, _) => none
    | (some index, s) =>
      let (indexes, s) ← allocateAll allocate calls s
      return (index :: indexes, s)

/-- Every index in range can be handed out. -/
structure Usable (size : Nat) (allocate : Fin n → Int → Cells ε → Option (Option Nat × Cells ε)) (s : Cells ε) : Prop where
  listed : ∀ i < size, ∃! w : ListId n, w.IsFree ∧ Listed s w (indexShift n + i)
  all : ∀ calls : List (Fin n × Int), calls.length = size →
    ∃ indexes s', allocateAll allocate calls s = some (indexes, s') ∧ indexes.Perm (List.range size)

/-- The outcome of an allocation by core `c`, as far as the lists are concerned. -/
def Took (size : Nat) (c : Fin n) (L : ListId n → List Nat) : Option Nat → Cells ε → Prop
  | none, _ => ∀ w : ListId n, w.IsFree → L w = []
  | some i, after => i < covered n size ∧ (∃ w : ListId n, w.IsFree ∧ indexShift n + i ∈ L w) ∧
      ∃ M, Valid n size after M ∧ M (.alloc c) = L (.alloc c) ++ [indexShift n + i] ∧ ∀ d, d ≠ c → M (.alloc d) = L (.alloc d)

/-- An allocator whose calls return, in any well-formed state, with the outcome above. -/
def Allocates (size : Nat) (allocate : Fin n → Int → Cells ε → Option (Option Nat × Cells ε)) : Prop :=
  ∀ s L c time, Valid n size s L → ∃ result s', allocate c time s = some (result, s') ∧ Took size c L result s'

theorem listed_iff (layout : Layout n s.nextOf s.prevOf L) {w : ListId n} {x : Nat} : Listed s w x ↔ x ∈ L w := by
  have off : w.head ∉ L w := layout.forward.headOff w w
  constructor
  · rintro ⟨l, path, away, member⟩
    rwa [← Path.unique path (layout.forward.path w) away off]
  · intro member
    exact ⟨L w, layout.forward.path w, off, member⟩

/-- What is on the allocated lists, when no index has been freed. -/
def Given (L : ListId n → List Nat) (taken : List Nat) : Prop :=
  taken.Nodup ∧ ∀ i, (∃ c, indexShift n + i ∈ L (.alloc c)) ↔ i ∈ taken

theorem Took.given {c : Fin n} {i : Nat} {s' : Cells ε} {taken : List Nat} (valid : Valid n size s L)
    (took : Took size c L (some i) s') (given : Given L taken) :
    ∃ M, Valid n size s' M ∧ Given M (taken ++ [i]) := by
  obtain ⟨-, ⟨w, free, member⟩, M, valid', own, others⟩ := took
  obtain ⟨once, holds⟩ := given
  refine ⟨M, valid', ?_, ?_⟩
  · rw [List.nodup_append]
    refine ⟨once, List.nodup_singleton i, ?_⟩
    intro j old k new
    rw [List.mem_singleton.mp new]
    rintro rfl
    obtain ⟨d, here⟩ := (holds j).mpr old
    exact free d (valid.layout.forward.apart member here)
  · intro j
    rw [List.mem_append, List.mem_singleton, ← holds]
    constructor
    · rintro ⟨d, here⟩
      by_cases same : d = c
      · subst same
        rw [own, List.mem_append, List.mem_singleton, Nat.add_left_cancel_iff] at here
        exact here.imp_left fun old => ⟨d, old⟩
      · rw [others d same] at here
        exact Or.inl ⟨d, here⟩
    · rintro (⟨d, old⟩ | rfl)
      · refine ⟨d, ?_⟩
        by_cases same : d = c
        · subst same
          rw [own]
          exact List.mem_append_left _ old
        · rwa [others d same]
      · exact ⟨c, by simp [own]⟩

/-- If all lists are empty, everything that initialisation stocked is allocated. -/
theorem Given.all {taken : List Nat} (valid : Valid n size s L) (empty : ∀ w : ListId n, w.IsFree → L w = [])
    (given : Given L taken) : covered n size ≤ taken.length := by
  have all : List.range (covered n size) ⊆ taken := by
    intro i member
    obtain ⟨w, there⟩ := (valid.cover (indexShift n + i)).mpr ⟨i, List.mem_range.mp member, rfl⟩
    rw [← given.2]
    cases w with
    | alloc c => exact ⟨c, there⟩
    | free c => simp [empty _ (ListId.free_isFree c)] at there
    | glob => simp [empty _ ListId.glob_isFree] at there
  simpa using (List.subperm_of_subset List.nodup_range all).length_le

variable {allocate : Fin n → Int → Cells ε → Option (Option Nat × Cells ε)}

/-- The induction is on the calls. As long as fewer indexes are taken than there are, a call
succeeds and takes another one. -/
theorem allocateAll_spec (allocates : Allocates size allocate) (calls : List (Fin n × Int)) {taken : List Nat} (valid : Valid n size s L)
    (given : Given L taken) (below : ∀ i ∈ taken, i < covered n size) (room : taken.length + calls.length ≤ covered n size) :
    ∃ indexes s', allocateAll allocate calls s = some (indexes, s') ∧ indexes.length = calls.length ∧
      (taken ++ indexes).Nodup ∧ ∀ i ∈ indexes, i < covered n size := by
  induction calls generalizing s L taken with
  | nil => exact ⟨[], s, rfl, rfl, by simpa using given.1, by simp⟩
  | cons call calls ih =>
    obtain ⟨core, time⟩ := call
    rw [List.length_cons] at room
    obtain ⟨result, s', ran, took⟩ := allocates s L core time valid
    cases result with
    | none =>
      have all := given.all valid took
      omega
    | some i =>
      have within : i < covered n size := took.1
      obtain ⟨M, valid', given'⟩ := took.given valid given
      have below' : ∀ j ∈ taken ++ [i], j < covered n size := by
        intro j member
        rcases List.mem_append.mp member with old | new
        · exact below j old
        · rwa [List.mem_singleton.mp new]
      have room' : (taken ++ [i]).length + calls.length ≤ covered n size := by
        rw [List.length_append, List.length_singleton]
        omega
      obtain ⟨indexes, s'', rest, count, once, bounds⟩ := ih valid' given' below' room'
      refine ⟨i :: indexes, s'', ?_, ?_, ?_, ?_⟩
      · simp [allocateAll, ran, rest]
      · rw [List.length_cons, List.length_cons, count]
      · rwa [List.append_assoc, List.singleton_append] at once
      · exact List.forall_mem_cons.mpr ⟨within, bounds⟩

theorem initial_given : Given (initialLists n size) [] := by
  constructor
  · exact List.nodup_nil
  · simp [initialLists]

theorem covered_eq_iff : covered n size = size ↔ n ∣ size := by
  constructor
  · intro all
    exact ⟨size / n, all.symm⟩
  · exact Nat.mul_div_cancel'

/-- Every index is usable only if the cores divide the indexes among them without rest. -/
theorem usable_iff (allocates : Allocates size allocate) (initial : Valid n size s (initialLists n size)) :
    Usable size allocate s ↔ n ∣ size := by
  rw [← covered_eq_iff]
  constructor
  · intro usable
    by_contra short
    have within : covered n size < size := lt_of_le_of_ne (covered_le n size) short
    obtain ⟨w, ⟨-, listed⟩, -⟩ := usable.listed _ within
    obtain ⟨i, below, same⟩ := mem_initialLists.mp ⟨w, (listed_iff initial.layout).mp listed⟩
    omega
  · intro all
    constructor
    case listed =>
      intro i within
      obtain ⟨w, member⟩ := mem_initialLists.mpr ⟨i, all.symm ▸ within, rfl⟩
      have free : w.IsFree := by
        rintro c rfl
        simp [initialLists] at member
      refine ⟨w, ⟨free, (listed_iff initial.layout).mpr member⟩, ?_⟩
      rintro v ⟨-, listed⟩
      exact initial.layout.forward.apart ((listed_iff initial.layout).mp listed) member
    case all =>
      intro calls count
      obtain ⟨indexes, s', ran, length, once, below⟩ :=
        allocateAll_spec allocates calls initial initial_given (by simp) (by simp [all, count])
      refine ⟨indexes, s', ran, ?_⟩
      rw [List.nil_append] at once
      have inside : indexes ⊆ List.range size := fun i member => List.mem_range.mpr (all ▸ below i member)
      apply (List.subperm_of_subset once inside).perm_of_length_le
      rw [List.length_range, length, count]

theorem took_of_allocated {stamp : ε → ε} {c : Fin n} {result : Option Nat} {s' : Cells ε}
    (outcome : AllocateIndex.Allocated size stamp c s L result s') : Took size c L result s' := by
  cases result with
  | none => exact outcome.2
  | some i =>
    obtain ⟨within, free, -, grown⟩ := outcome
    exact ⟨within, free, grown⟩

/-- The transactional allocators, with no other transaction in between. -/
theorem allocates_index (stamp : Int → ε → ε) :
    Allocates size fun (c : Fin n) time s => atomically (AllocateIndex.allocateNewIndex (stamp time) n c.val) (fun _ => true) s := by
  intro s L c time valid
  obtain ⟨result, t, ran, outcome⟩ :=
    Post.commits (AllocateIndex.post_allocateNewIndex (t := .start s) (stamp time) valid c) fun _ : Nat => (rfl : true = true)
  exact ⟨result, _, ran, took_of_allocated outcome⟩

theorem allocates_concurrent {Id : Type} : Allocates size fun (c : Fin n) time (s : ConcurrentDoubleChain.ConcurrentDchainCells Id) =>
    some (ConcurrentDoubleChain.concurrentDchainAllocateNewIndex n c.val time s) := by
  intro s L c time valid
  rcases ran : ConcurrentDoubleChain.concurrentDchainAllocateNewIndex n c.val time s with ⟨index, after⟩
  refine ⟨index, after, congrArg some ran, ?_⟩
  cases index with
  | none =>
    have failed : ¬ ConcurrentDoubleChain.Stocks L := by
      rw [← ConcurrentDoubleChain.allocate_isSome valid.layout valid.bound c time, ran]
      simp
    exact ConcurrentDoubleChain.not_stocks_iff.mp failed
  | some i => exact ConcurrentDoubleChain.allocate_valid valid c time ran

/-- An initialisation that ends has an index for every core. -/
theorem room_of_initLists {M : Type} {writes : InitWrites M} {fuel : Nat} {memory m : M} (indexes : 0 < size)
    (ended : initLists writes fuel size n memory = some m) : n ≤ size := by
  by_contra fewer
  rw [initLists_diverges writes fuel (Nat.div_eq_of_lt (not_le.mp fewer)) indexes] at ended
  contradiction

section Allocators
open DoubleChain DoubleChainExp ConcurrentDoubleChain

/-- In each allocator every index in range can be handed out exactly if the number of cores divides the number
of indexes, and all cells have numbers in `int`. -/
theorem index_range_usable_iff {Id : Type} (cores : 0 < n) (indexes : 0 < size) :
    (∀ memory, (∃ s, nfosDchainImplInit memory size n = some s ∧
      Initialises (DoubleChain.initWrites n) (numCells size n) size n memory s ∧
      Usable size (fun (c : Fin n) _ s => atomically (nfosDchainImplAllocateNewIndex n c.val) (fun _ => true) s) s) ↔
        n ∣ size ∧ size + 16 * n + 1 < 2 ^ 31) ∧
    (∀ tscHz usecs memory, (∃ chain, nfosDchainExpAllocate tscHz memory size usecs n = some chain ∧
      Initialises (DoubleChainExp.initWrites n) (numCells size n) size n memory chain.cells ∧
      Usable size (fun (c : Fin n) time s =>
        atomically (nfosDchainExpAllocateNewIndex chain.validityDuration n c.val time) (fun _ => true) s) chain.cells) ↔
        n ∣ size ∧ size + 16 * n + 1 < 2 ^ 31) ∧
    ∀ memory : ConcurrentDchainCells Id, (∃ s, concurrentDchainImplInit memory size n = some s ∧
      Initialises (ConcurrentDoubleChain.initWrites size n) (numConcurrentCells size n) size n memory s ∧
      Usable size (fun (c : Fin n) time s => some (concurrentDchainAllocateNewIndex n c.val time s)) s) ↔
        n ∣ size ∧ 2 * size + 16 * n + 1 < 2 ^ 31 := by
  have room (divides : n ∣ size) : n ≤ size := Nat.le_of_dvd indexes divides
  have array {size k : Nat} (small : size + 16 * k + 1 < 2 ^ 31) : (numCells size k).isSome :=
    Option.isSome_iff_exists.mpr ⟨_, numCells_eq_some.mpr ⟨small, rfl⟩⟩
  refine ⟨fun memory => ⟨?_, ?_⟩, fun tscHz usecs memory => ⟨?_, ?_⟩, fun memory => ⟨?_, ?_⟩⟩
  · rintro ⟨s, ended, ⟨reserved, _⟩, usable⟩
    obtain ⟨s', ended', valid⟩ := DoubleChain.init_valid cores (room_of_initLists indexes ended) memory
    obtain rfl : s' = s := Option.some.inj (ended'.symm.trans ended)
    obtain ⟨k, small⟩ := Option.isSome_iff_exists.mp reserved
    exact ⟨(usable_iff (allocates_index fun _ => id) valid).mp usable, (numCells_eq_some.mp small).1⟩
  · rintro ⟨divides, small⟩
    obtain ⟨s, ended, valid⟩ := DoubleChain.init_valid cores (room divides) memory
    have computed := @initialised_of_fits _ (DoubleChain.initWrites n) n size memory cores (room divides)
      ((fits_iff_of_dvd cores indexes divides).mpr small) _ (array small)
    rw [nfosDchainImplInit, initLists_eq _ _ (Nat.div_pos (room divides) cores) le_rfl] at ended
    obtain rfl := Option.some.inj ended
    exact ⟨_, initLists_eq _ _ (Nat.div_pos (room divides) cores) le_rfl _, computed,
      (usable_iff (allocates_index fun _ => id) valid).mpr divides⟩
  · rintro ⟨chain, ended, ⟨reserved, _⟩, usable⟩
    obtain ⟨cells, filled, -⟩ := Option.bind_eq_some_iff.mp ended
    obtain ⟨chain', ended', initial⟩ := allocate_invariant tscHz usecs cores (room_of_initLists indexes filled) memory
    obtain rfl : chain' = chain := Option.some.inj (ended'.symm.trans ended)
    obtain ⟨k, small⟩ := Option.isSome_iff_exists.mp reserved
    exact ⟨(usable_iff (allocates_index fun time _ => time + chain'.validityDuration) initial.valid).mp usable,
      (numCells_eq_some.mp small).1⟩
  · rintro ⟨divides, small⟩
    obtain ⟨chain, ended, initial⟩ := allocate_invariant tscHz usecs cores (room divides) memory
    have computed := @initialised_of_fits _ (DoubleChainExp.initWrites n) n size memory cores (room divides)
      ((fits_iff_of_dvd cores indexes divides).mpr small) _ (array small)
    obtain ⟨cells, filled, made⟩ := Option.bind_eq_some_iff.mp ended
    rw [initLists_eq _ _ (Nat.div_pos (room divides) cores) le_rfl] at filled
    obtain rfl := Option.some.inj filled
    refine ⟨chain, ended, ?_, (usable_iff (allocates_index fun time _ => time + chain.validityDuration) initial.valid).mpr divides⟩
    obtain rfl := Option.some.inj made
    exact computed
  · rintro ⟨s, ended, ⟨reserved, _⟩, usable⟩
    obtain ⟨ended', valid⟩ := ConcurrentDoubleChain.init_valid cores (room_of_initLists indexes ended) memory
    obtain rfl := Option.some.inj (ended'.symm.trans ended)
    obtain ⟨k, small⟩ := Option.isSome_iff_exists.mp reserved
    exact ⟨(usable_iff allocates_concurrent valid).mp usable, (numConcurrentCells_eq_some.mp small).1⟩
  · rintro ⟨divides, small⟩
    obtain ⟨ended, valid⟩ := ConcurrentDoubleChain.init_valid cores (room divides) memory
    have computed := @initialised_of_fits _ (ConcurrentDoubleChain.initWrites size n) n size memory cores (room divides)
      ((fits_iff_of_dvd cores indexes divides).mpr (by omega)) _
      (Option.isSome_iff_exists.mpr ⟨_, numConcurrentCells_eq_some.mpr ⟨small, rfl⟩⟩)
    exact ⟨_, ended, computed, (usable_iff allocates_concurrent valid).mpr divides⟩

/-- Four indexes over two cores. -/
theorem index_range_usable_two_cores : 0 < 2 ∧ 0 < 4 ∧
    (∃ s, nfosDchainImplInit (fun _ => ⟨0, 0, 0, ()⟩) 4 2 = some s ∧
      Initialises (DoubleChain.initWrites 2) (numCells 4 2) 4 2 (fun _ => ⟨0, 0, 0, ()⟩) s ∧
      Usable 4 (fun (c : Fin 2) _ s => atomically (nfosDchainImplAllocateNewIndex 2 c.val) (fun _ => true) s) s) ∧
    (∃ chain, nfosDchainExpAllocate 1000000000 (fun _ => ⟨0, 0, 0, 0⟩) 4 1000000 2 = some chain ∧
      Initialises (DoubleChainExp.initWrites 2) (numCells 4 2) 4 2 (fun _ => ⟨0, 0, 0, 0⟩) chain.cells ∧
      Usable 4 (fun (c : Fin 2) time s =>
        atomically (nfosDchainExpAllocateNewIndex chain.validityDuration 2 c.val time) (fun _ => true) s) chain.cells) ∧
    ∃ s : ConcurrentDchainCells Unit, concurrentDchainImplInit (fun _ => ⟨0, 0, 0, ⟨0, (), 0⟩⟩) 4 2 = some s ∧
      Initialises (ConcurrentDoubleChain.initWrites 4 2) (numConcurrentCells 4 2) 4 2 (fun _ => ⟨0, 0, 0, ⟨0, (), 0⟩⟩) s ∧
      Usable 4 (fun (c : Fin 2) time s => some (concurrentDchainAllocateNewIndex 2 c.val time s)) s := by
  obtain ⟨plain, expiring, concurrent⟩ := @index_range_usable_iff 2 4 Unit (by decide) (by decide)
  exact ⟨by decide, by decide, (plain _).mpr ⟨by decide, by decide⟩, (expiring _ _ _).mpr ⟨by decide, by decide⟩,
    (concurrent _).mpr ⟨by decide, by decide⟩⟩

/-- Of five indexes over two cores the last one is on no list. -/
theorem index_four_unusable : ∃ s, nfosDchainImplInit (fun _ => ⟨0, 0, 0, ()⟩) 5 2 = some s ∧
    Initialises (DoubleChain.initWrites 2) (numCells 5 2) 5 2 (fun _ => ⟨0, 0, 0, ()⟩) s ∧
    (∀ w : ListId 2, w.IsFree → ¬ Listed s w (indexShift 2 + 4)) ∧
    ¬ Usable 5 (fun (c : Fin 2) _ s => atomically (nfosDchainImplAllocateNewIndex 2 c.val) (fun _ => true) s) s := by
  obtain ⟨s, ended, valid⟩ := DoubleChain.init_valid (n := 2) (show 0 < 2 by decide) (show 2 ≤ 5 by decide) fun _ => ⟨0, 0, 0, ()⟩
  have computed := @initialised_of_fits _ (DoubleChain.initWrites 2) 2 5 (fun _ => ⟨0, 0, 0, ()⟩) (by decide) (by decide)
    ⟨by decide, by decide⟩ (numCells 5 2) (by decide)
  rw [nfosDchainImplInit, initLists_eq _ _ (by decide) (by decide)] at ended
  obtain rfl := Option.some.inj ended
  refine ⟨_, initLists_eq _ _ (by decide) (by decide) _, computed, ?_, ?_⟩
  · intro w _ listed
    obtain ⟨i, below, same⟩ := mem_initialLists.mp ⟨w, (listed_iff valid.layout).mp listed⟩
    have last : i < 4 := below
    omega
  · intro usable
    exact absurd ((usable_iff (allocates_index fun _ => id) valid).mp usable) (by decide)

end Allocators
end Nfos
