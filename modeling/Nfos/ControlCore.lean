import Nfos.DoubleChain
import Nfos.ExpiryQueues

/-! The index allocators on the control core, whose thread id is the number of the other cores.
The heads that it takes for its own are those of other lists. -/
namespace Nfos.ControlCore
open Txn Tx CellField Function Linked Run AllocateIndex
variable {ε : Type} {n size thread : Nat}

/-- The cells that a thread takes for the heads of its lists are not those of other lists. -/
def HeadsApart (n thread : Nat) : Prop :=
  ∀ w : ListId n, (w.head = allocListHead + thread <<< listHeadPadding → ∃ c : Fin n, c.val = thread ∧ w = .alloc c) ∧
    (w.head = freeListHead n + thread <<< listHeadPadding → ∃ c : Fin n, c.val = thread ∧ w = .free c)

/-- The lists are disjoint and well formed. -/
def WellFormed (n size : Nat) (cells : Cells ε) : Prop := ∃ L : ListId n → List Nat, Valid n size cells L

/-- Every committed call leaves well-formed lists, whatever locks it is granted. -/
def Preserves {α : Type} (n size : Nat) (program : Tx (Cell ε) α) (cells : Cells ε) : Prop :=
  ∀ grants result after, atomically program grants cells = some (result, after) → WellFormed n size after

/-- No index is free. -/
def Full (n size : Nat) (cells : Cells ε) : Prop := ∀ i < covered n size, cells.indOf (indexShift n + i) ≠ -1

theorem headsApart_iff (bound : thread ≤ n) (cores : 0 < n) : HeadsApart n thread ↔ thread < n := by
  constructor
  · intro apart
    rcases Nat.lt_or_eq_of_le bound with worker | rfl
    · exact worker
    · obtain ⟨c, same, _⟩ := (apart (.free ⟨0, cores⟩)).1 (by simp [ListId.head, freeListHead, allocListHead])
      exact absurd same c.isLt.ne
  · intro worker w
    constructor
    · intro here
      exact ⟨⟨thread, worker⟩, rfl, ListId.head_injective here⟩
    · intro here
      exact ⟨⟨thread, worker⟩, rfl, ListId.head_injective here⟩

theorem Preserves.of_post {α : Type} {program : Tx (Cell ε) α} {cells : Cells ε}
    (post : ∀ grants, Post program grants (.start cells) fun _ t => WellFormed n size t.cells) : Preserves n size program cells := by
  intro grants result after ran
  obtain ⟨t, kept, rfl⟩ := (post grants).commit ran
  exact kept

section Allocate
variable {stamp : ε → ε} {grants : Nat → Bool} {t : Log (Cell ε)} {cells : Cells ε} {L : ListId n → List Nat}

theorem allocated_wellFormed {c : Fin n} {before after : Cells ε} {result : Option Nat} (valid : Valid n size before L)
    (outcome : Allocated size stamp c before L result after) : WellFormed n size after := by
  cases result with
  | none =>
    obtain ⟨rfl, _⟩ := outcome
    exact ⟨L, valid⟩
  | some i =>
    obtain ⟨_, _, _, M, valid', _⟩ := outcome
    exact ⟨M, valid'⟩

/-- The control core takes the global list for its own free list, and the head of the first free
list for that of its allocated list. -/
theorem post_allocateNewIndex (stamp : ε → ε) (grants : Nat → Bool) (valid : Valid n size t.cells L) (cores : 0 < n) :
    Post (allocateNewIndex stamp n n) grants t fun result t' => match result with
      | none => t'.cells = t.cells ∧ ∀ w : ListId n, w.IsFree → L w = []
      | some i => i < covered n size ∧ (∃ w : ListId n, w.IsFree ∧ indexShift n + i ∈ L w) ∧
        t'.cells.indOf (indexShift n + i) = (n <<< listHeadPadding : Nat) := by
  have own : freeListHead n + n <<< listHeadPadding = (ListId.glob : ListId n).head := by
    simp only [freeListHead, ListId.head, globalFreeListHead, listHeadPadding, Nat.shiftLeft_eq]
    omega
  have first : (ListId.free ⟨0, cores⟩ : ListId n).head = n <<< listHeadPadding := by
    simp [ListId.head, freeListHead]
  refine post_bind.mpr ((post_getFreeIndex valid ListId.glob_isFree own).mono fun found t' outcome => ?_)
  cases found with
  | none => exact outcome
  | some pair =>
    obtain ⟨x, allocp⟩ := pair
    obtain ⟨rfl, ⟨w, free, member⟩, M, relinked, loose⟩ := outcome
    obtain ⟨i, within, rfl⟩ := (valid.cover x).mp ⟨w, member⟩
    have apart : indexShift n + i ≠ n <<< listHeadPadding := first ▸ Layout.ne_head loose (.free ⟨0, cores⟩)
    refine post_bind.mpr ((post_install stamp (Nat.zero_add _) apart).mono fun _ t'' installed => ?_)
    obtain ⟨_, _, ind, _⟩ := installed
    simp only [post_pure, Nat.add_sub_cancel_left]
    exact ⟨within, ⟨w, free, member⟩, by rw [ind, update_self]⟩

/-- No list of a worker has this mark. -/
theorem not_wellFormed {i : Nat} (within : i < covered n size) (marked : cells.indOf (indexShift n + i) = (n <<< listHeadPadding : Nat)) :
    ¬ WellFormed n size cells := by
  rintro ⟨M, valid⟩
  obtain ⟨w, member⟩ := (valid.cover _).mpr ⟨i, within, rfl⟩
  by_cases free : w.IsFree
  · have minus := valid.ind_free free member
    have natural := Int.natCast_nonneg (n <<< listHeadPadding)
    rw [← marked, minus] at natural
    exact absurd natural (by decide)
  · simp only [ListId.IsFree, not_forall, not_not] at free
    obtain ⟨c, rfl⟩ := free
    have mark := valid.allocated c _ member
    rw [marked] at mark
    have position : n <<< listHeadPadding = c.val <<< listHeadPadding := by
      have same : n <<< listHeadPadding = allocHead c := by exact_mod_cast mark
      rw [same]
      exact Nat.zero_add _
    have worker := c.isLt
    simp only [listHeadPadding, Nat.shiftLeft_eq] at position
    omega

theorem full_iff (valid : Valid n size cells L) : Full n size cells ↔ ∀ w : ListId n, w.IsFree → L w = [] := by
  constructor
  · intro full w free
    apply List.eq_nil_iff_forall_not_mem.mpr
    intro x member
    obtain ⟨i, within, rfl⟩ := (valid.cover x).mp ⟨w, member⟩
    exact full i within (valid.ind_free free member)
  · intro empty i within minus
    obtain ⟨w, member⟩ := (valid.cover _).mpr ⟨i, within, rfl⟩
    by_cases free : w.IsFree
    · rw [empty w free] at member
      exact absurd member List.not_mem_nil
    · simp only [ListId.IsFree, not_forall, not_not] at free
      obtain ⟨c, rfl⟩ := free
      exact (valid.ind_eq_neg_one (within.trans_le (covered_le n size))).mp minus c member

/-- An allocation by any thread keeps the lists well formed, but for one by the control core
that finds a free index. -/
theorem preserves_allocateNewIndex_iff (stamp : ε → ε) (valid : Valid n size cells L) (cores : 0 < n) (bound : thread ≤ n) :
    Preserves n size (allocateNewIndex stamp n thread) cells ↔ thread < n ∨ Full n size cells := by
  rcases Nat.lt_or_eq_of_le bound with worker | rfl
  · refine iff_of_true (Preserves.of_post fun grants => ?_) (Or.inl worker)
    exact (AllocateIndex.post_allocateNewIndex stamp (t := .start cells) valid ⟨thread, worker⟩).mono fun _ _ outcome =>
      allocated_wellFormed valid outcome
  · constructor
    · intro preserves
      refine Or.inr ((full_iff valid).mpr ?_)
      obtain ⟨result, t, ran, outcome⟩ := (post_allocateNewIndex stamp (fun _ => true) (t := .start cells) valid
        cores).commits fun _ => rfl
      cases result with
      | none => exact outcome.2
      | some i => exact absurd (preserves _ _ _ ran) (not_wellFormed outcome.1 outcome.2.2)
    · rintro (worker | full)
      · exact absurd worker (lt_irrefl thread)
      · refine Preserves.of_post fun grants => ?_
        apply (post_allocateNewIndex stamp grants (t := .start cells) valid cores).mono
        intro result t outcome
        cases result with
        | none =>
          rw [outcome.1]
          exact ⟨L, valid⟩
        | some i =>
          obtain ⟨_, ⟨w, free, member⟩, _⟩ := outcome
          rw [(full_iff valid).mp full w free] at member
          exact absurd member List.not_mem_nil

end Allocate

section Threads
variable {validity : Int}

/-- What a thread may call on `NfosDoubleChain`. The control core frees indexes to the global
list. -/
structure Safe (n size thread : Nat) (cells : Cells Unit) : Prop where
  heads : HeadsApart n thread
  allocates : Preserves n size (DoubleChain.nfosDchainImplAllocateNewIndex n thread) cells
  frees : ∀ i < size, Preserves n size (DoubleChain.nfosDchainImplFreeIndex n i thread) cells

/-- What a thread may call on `NfosDoubleChainExp`; the other calls do not depend on it. -/
structure SafeExp (n size : Nat) (validity : Int) (thread : Nat) (cells : Cells Int) : Prop where
  heads : HeadsApart n thread
  allocates : ∀ time, Preserves n size (DoubleChainExp.nfosDchainExpAllocateNewIndex validity n thread time) cells

theorem preserves_freeIndex {cells : Cells Unit} {L : ListId n → List Nat} (valid : Valid n size cells L) (bound : thread ≤ n)
    {i : Nat} (within : i < size) : Preserves n size (DoubleChain.nfosDchainImplFreeIndex n i thread) cells := by
  obtain ⟨w, free, own⟩ : ∃ w : ListId n, w.IsFree ∧ freeListHead n + thread <<< listHeadPadding = w.head := by
    rcases Nat.lt_or_eq_of_le bound with worker | rfl
    · exact ⟨.free ⟨thread, worker⟩, ListId.free_isFree _, rfl⟩
    · refine ⟨.glob, ListId.glob_isFree, ?_⟩
      simp only [freeListHead, ListId.head, globalFreeListHead, listHeadPadding, Nat.shiftLeft_eq]
      omega
  apply Preserves.of_post
  intro grants
  apply (DoubleChain.post_freeIndexTo (t := .start cells) valid free own within).mono
  intro result t outcome
  cases result with
  | false =>
    obtain ⟨same, _⟩ := outcome
    rw [same]
    exact ⟨L, valid⟩
  | true =>
    obtain ⟨_, _, _, _, valid'⟩ := outcome
    exact ⟨_, valid'⟩

/-- The allocators are safe for the threads of the data plane only. An allocation by the control
core destroys the lists unless there is no free index. -/
theorem allocators_safe_iff (tscHz : Nat) (usecs : Int) (cores : 0 < n) (room : n ≤ size) (cells : Cells Unit) (cellsExp : Cells Int)
    (thread : Nat) (bound : thread ≤ n) :
    (∃ s, DoubleChain.nfosDchainImplInit cells size n = some s ∧ ∀ history u, Trace (DoubleChain.Step n size) s history u →
      (Safe n size thread u ↔ thread < n) ∧
      (Preserves n size (DoubleChain.nfosDchainImplAllocateNewIndex n thread) u ↔ thread < n ∨ Full n size u)) ∧
    ∃ chain, DoubleChainExp.nfosDchainExpAllocate tscHz cellsExp size usecs n = some chain ∧
      ∀ history chain', Trace (DoubleChainExp.Step n size) chain history chain' →
        (SafeExp n size chain'.validityDuration thread chain'.cells ↔ thread < n) ∧
        ∀ time, Preserves n size (DoubleChainExp.nfosDchainExpAllocateNewIndex chain'.validityDuration n thread time) chain'.cells ↔
          thread < n ∨ Full n size chain'.cells := by
  constructor
  · obtain ⟨s, ended, _, runs⟩ := DoubleChain.nfosDchain_refines_set_allocator cores room cells
    refine ⟨s, ended, ?_⟩
    intro history u run
    obtain ⟨⟨L, valid, _⟩, _⟩ := runs history u run
    have allocates := preserves_allocateNewIndex_iff id valid cores bound
    refine ⟨?_, allocates⟩
    constructor
    · exact fun safe => (headsApart_iff bound cores).mp safe.heads
    · intro worker
      constructor
      case heads => exact (headsApart_iff bound cores).mpr worker
      case allocates => exact allocates.mpr (Or.inl worker)
      case frees => exact fun i within => preserves_freeIndex valid bound within
  · obtain ⟨chain, ended, initial⟩ := DoubleChainExp.allocate_invariant tscHz usecs cores room cellsExp
    refine ⟨chain, ended, ?_⟩
    intro history chain' run
    obtain ⟨L, inv, _⟩ := DoubleChainExp.run_refines initial run
    have allocates (time : Int) := preserves_allocateNewIndex_iff (fun _ => time + chain'.validityDuration) inv.valid cores bound
    refine ⟨?_, allocates⟩
    constructor
    · exact fun safe => (headsApart_iff bound cores).mp safe.heads
    · intro worker
      constructor
      case heads => exact (headsApart_iff bound cores).mpr worker
      case allocates => exact fun time => (allocates time).mpr (Or.inl worker)

/-- Two data-plane cores and five indexes: the control core has the thread id 2. Its first
allocation marks an index as one of a third core. -/
theorem control_core_allocates : ∃ s, DoubleChain.nfosDchainImplInit (fun _ => ⟨0, 0, 0, ()⟩) 5 2 = some s ∧
    ¬ Safe 2 5 2 s ∧ ∃ i after, atomically (DoubleChain.nfosDchainImplAllocateNewIndex 2 2) (fun _ => true) s = some (some i, after) ∧
      ¬ WellFormed 2 5 after := by
  obtain ⟨s, ended, valid⟩ := @DoubleChain.init_valid 2 5 (by decide) (by decide) fun _ => ⟨0, 0, 0, ()⟩
  obtain ⟨result, t, ran, outcome⟩ := (post_allocateNewIndex id (fun _ => true) (t := .start s) valid (by decide)).commits fun _ => rfl
  cases result with
  | none =>
    have empty := outcome.2 (.free 0) (ListId.free_isFree 0)
    simp [initialLists] at empty
  | some i =>
    have broken : ¬ WellFormed 2 5 t.view := not_wellFormed outcome.1 outcome.2.2
    exact ⟨s, ended, fun safe => broken (safe.allocates _ _ _ ran), i, t.view, ran, broken⟩

/-- The second of two data-plane cores. -/
theorem allocators_safe_second_core : 0 < 2 ∧ 2 ≤ 5 ∧ 1 ≤ 2 ∧ ∀ (cells : Cells Unit) (cellsExp : Cells Int),
    (∃ s, DoubleChain.nfosDchainImplInit cells 5 2 = some s ∧ ∀ history u, Trace (DoubleChain.Step 2 5) s history u →
      (Safe 2 5 1 u ↔ 1 < 2) ∧
      (Preserves 2 5 (DoubleChain.nfosDchainImplAllocateNewIndex 2 1) u ↔ 1 < 2 ∨ Full 2 5 u)) ∧
    ∃ chain, DoubleChainExp.nfosDchainExpAllocate 1000000000 cellsExp 5 1000000 2 = some chain ∧
      ∀ history chain', Trace (DoubleChainExp.Step 2 5) chain history chain' →
        (SafeExp 2 5 chain'.validityDuration 1 chain'.cells ↔ 1 < 2) ∧
        ∀ time, Preserves 2 5 (DoubleChainExp.nfosDchainExpAllocateNewIndex chain'.validityDuration 2 1 time) chain'.cells ↔
          1 < 2 ∨ Full 2 5 chain'.cells :=
  ⟨by decide, by decide, by decide, fun cells cellsExp =>
    allocators_safe_iff 1000000000 1000000 (by decide) (by decide) cells cellsExp 1 (by decide)⟩

end Threads
end Nfos.ControlCore
