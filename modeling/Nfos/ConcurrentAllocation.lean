import Nfos.AllocateIndex
import Nfos.ConcurrentCalls

/-! The allocation of `ConcurrentDoubleChain` with its fallback to the global list,
whatever the distribution of the free indexes over the lists is. -/
namespace Nfos.ConcurrentDoubleChain
open Function Linked AllocateIndex
variable {Id : Type} {n size : Nat} {cells after : ConcurrentDchainCells Id} {L M : ListId n → List Nat} {c : Fin n}
  {x : Nat} {l : List Nat}

/-- The loop of `allocate_new_index_global` over the local lists. -/
def fillAll (numCores : Nat) (cores : List Nat) (cells : ConcurrentDchainCells Id) : ConcurrentDchainCells Id :=
  cores.foldl (fun cells i => fillGlobalFreeList numCores i cells) cells

/-- Free indexes have been moved between the lists. -/
structure Refill (cells after : ConcurrentDchainCells Id) (L M : ListId n → List Nat) : Prop where
  layout : Layout n after.nextOf after.prevOf M
  stock : Stock L M fun _ => False
  marks : (∀ w : ListId n, w.IsFree → ∀ x ∈ L w, cells.indOf x = -1) → after.indOf = cells.indOf

theorem Refill.refl (layout : Layout n cells.nextOf cells.prevOf L) : Refill cells cells L L :=
  ⟨layout, Stock.refl L, fun _ => rfl⟩

/-- The global list has been filled from local lists. It is empty only if there was nothing to move. -/
structure Refilled (cores : List (Fin n)) (cells after : ConcurrentDchainCells Id) (L M : ListId n → List Nat) : Prop
    extends Refill cells after L M where
  glob : M .glob = [] ↔ L .glob = [] ∧ ∀ c ∈ cores, L (.free c) = []

theorem bound_of_stock (bound : ∀ w, ∀ y ∈ L w, indexShift n ≤ y) (stock : Stock L M fun _ => False) (w : ListId n) (y : Nat)
    (member : y ∈ M w) : indexShift n ≤ y := by
  obtain ⟨v, old⟩ := ((stock.members y).mp ⟨w, member⟩).1
  exact bound v y old

theorem fill_stock (layout : Layout n cells.nextOf cells.prevOf L) (split : L (.free c) = x :: l) :
    Stock L (update (update L (.free c) l) .glob (x :: L .glob)) fun _ => False := by
  have pushed := (Stock.pop (ListId.free_isFree c) layout split).push ListId.glob_isFree ⟨.free c, by simp [split]⟩
  rwa [update_of_ne (by simp)] at pushed

/-- The free indexes keep their marks wherever they are moved. -/
theorem marked_of_stock (layout : Layout n after.nextOf after.prevOf M) (stock : Stock L M fun _ => False)
    (marked : ∀ w : ListId n, w.IsFree → ∀ x ∈ L w, cells.indOf x = -1) (same : after.indOf = cells.indOf) :
    ∀ w : ListId n, w.IsFree → ∀ x ∈ M w, after.indOf x = -1 := by
  intro w free x member
  obtain ⟨v, old⟩ := ((stock.members x).mp ⟨w, member⟩).1
  rw [same]
  apply marked v _ x old
  rintro d rfl
  rw [← stock.alloc d] at old
  exact free d (layout.forward.apart member old)

/-- The induction is on the local lists that are still to be visited. -/
theorem fillAll_refills (cores : List (Fin n)) (layout : Layout n cells.nextOf cells.prevOf L)
    (bound : ∀ w, ∀ y ∈ L w, indexShift n ≤ y) : ∃ M, Refilled cores cells (fillAll n (cores.map Fin.val) cells) L M := by
  induction cores generalizing cells L with
  | nil => exact ⟨L, .refl layout, by simp⟩
  | cons c cores ih =>
    cases split : L (.free c) with
    | nil =>
      obtain ⟨M, rest⟩ := ih layout bound
      have same : fillAll n ((c :: cores).map Fin.val) cells = fillAll n (cores.map Fin.val) cells := by
        simp only [fillAll, List.map_cons, List.foldl_cons, fillGlobalFreeList_nil layout split]
      rw [same]
      refine ⟨M, rest.toRefill, ?_⟩
      rw [rest.glob, List.forall_mem_cons]
      simp [split]
    | cons x l =>
      obtain ⟨layout', ind, -⟩ := fillGlobalFreeList_cons layout bound split
      have stock := fill_stock layout split
      obtain ⟨M, rest⟩ := ih layout' (bound_of_stock bound stock)
      refine ⟨M, ⟨rest.layout, stock.trans rest.stock, ?_⟩, ?_⟩
      · intro marked
        have kept : (fillGlobalFreeList n c.val cells).indOf = cells.indOf := by
          rw [ind, update_eq_self_iff]
          exact (marked _ (ListId.free_isFree c) x (by simp [split])).symm
        exact (rest.marks (marked_of_stock layout' stock marked kept)).trans kept
      · rw [rest.glob]
        simp [split]

/-- Some list, local or global, holds an index. -/
def Stocks (L : ListId n → List Nat) : Prop := ∃ w : ListId n, w.IsFree ∧ L w ≠ []

theorem not_stocks_iff : ¬ Stocks L ↔ ∀ w : ListId n, w.IsFree → L w = [] := by
  simp [Stocks]

theorem stocks_of_stock (layout : Layout n after.nextOf after.prevOf M) (stock : Stock L M fun _ => False) {w : ListId n}
    (free : w.IsFree) (split : M w = x :: l) : ∃ v : ListId n, v.IsFree ∧ x ∈ L v := by
  have member : x ∈ M w := by simp [split]
  obtain ⟨v, old⟩ := ((stock.members x).mp ⟨w, member⟩).1
  refine ⟨v, ?_, old⟩
  rintro d rfl
  rw [← stock.alloc d] at old
  exact free d (layout.forward.apart member old)

/-- What an allocation does: it takes the first index of a list, after the global list was
refilled if it had to be, or all lists are empty. -/
theorem allocate_cases (layout : Layout n cells.nextOf cells.prevOf L) (bound : ∀ w, ∀ y ∈ L w, indexShift n ≤ y)
    (c : Fin n) (time : Int) :
    (¬ Stocks L ∧ (concurrentDchainAllocateNewIndex n c.val time cells).1 = none) ∨
      ∃ w : ListId n, w.IsFree ∧ ∃ x l M mid popped, Refill cells mid L M ∧ M w = x :: l ∧
        Layout n popped.nextOf popped.prevOf (update M w l) ∧ popped.indOf = mid.indOf ∧
        concurrentDchainAllocateNewIndex n c.val time cells = (some (x - indexShift n), linkNew c.val x time popped) := by
  cases own : L (.free c) with
  | cons x l =>
    right
    obtain ⟨result, layout', ind, -⟩ := popLocal_cons layout own
    refine ⟨.free c, ListId.free_isFree c, x, l, L, cells, _, .refl layout, own, layout', ind, ?_⟩
    have ran : popLocal n c.val cells = (some x, (popLocal n c.val cells).2) := Prod.ext result rfl
    rw [concurrentDchainAllocateNewIndex, concurrentDchainImplAllocateNewIndex, ran]
  | nil =>
    have fallback : concurrentDchainAllocateNewIndex n c.val time cells =
        concurrentDchainImplAllocateNewIndexGlobal n c.val time cells := by
      rw [concurrentDchainAllocateNewIndex, concurrentDchainImplAllocateNewIndex, popLocal_nil layout own]
    rw [fallback, concurrentDchainImplAllocateNewIndexGlobal]
    have taken {mid : ConcurrentDchainCells Id} {M : ListId n → List Nat} {x : Nat} {l : List Nat}
        (refill : Refill cells mid L M) (split : M .glob = x :: l) :
        mid.nextOf (globalFreeListHead n) = x ∧ x ≠ globalFreeListHead n :=
      ⟨refill.layout.forward.first split, refill.layout.ne_head_of_mem (w := .glob) (by simp [split]) .glob⟩
    cases glob : L .glob with
    | cons x l =>
      right
      obtain ⟨first, inner⟩ := taken (.refl layout) glob
      obtain ⟨layout', ind, -⟩ := popGlobal_spec layout glob
      refine ⟨.glob, ListId.glob_isFree, x, l, L, cells, _, .refl layout, glob, layout', ind, ?_⟩
      simp only [first, if_neg inner]
    | nil =>
      have back : cells.nextOf (globalFreeListHead n) = globalFreeListHead n := layout.forward.nil_iff.mp glob
      obtain ⟨M, filled⟩ := fillAll_refills (List.finRange n) layout bound
      rw [List.map_coe_finRange_eq_range] at filled
      have loop : (List.range n).foldl (fun cells i => fillGlobalFreeList n i cells) cells = fillAll n (List.range n) cells := rfl
      simp only [back, if_true, loop]
      cases split : M .glob with
      | nil =>
        left
        have still : (fillAll n (List.range n) cells).nextOf (globalFreeListHead n) = globalFreeListHead n :=
          filled.layout.forward.nil_iff.mp split
        rw [if_pos still]
        refine ⟨?_, rfl⟩
        rw [not_stocks_iff]
        intro w free
        cases w with
        | alloc d => exact absurd rfl (free d)
        | free d => exact (filled.glob.mp split).2 d (List.mem_finRange d)
        | glob => exact glob
      | cons x l =>
        right
        obtain ⟨first, inner⟩ := taken filled.toRefill split
        obtain ⟨layout', ind, -⟩ := popGlobal_spec filled.layout split
        refine ⟨.glob, ListId.glob_isFree, x, l, M, _, _, filled.toRefill, split, layout', ind, ?_⟩
        simp only [first, if_neg inner]

theorem linkNew_links (cells : ConcurrentDchainCells Id) (time : Int) (apart : x ≠ allocHead c) :
    (linkNew c.val x time cells).nextOf = update (update cells.nextOf x (allocHead c)) (cells.prevOf (allocHead c)) x ∧
      (linkNew c.val x time cells).prevOf = update (update cells.prevOf x (cells.prevOf (allocHead c))) (allocHead c) x ∧
      (linkNew c.val x time cells).indOf = update cells.indOf x (allocHead c) := by
  have head : allocListHead + c.val <<< listHeadPadding = allocHead c := rfl
  constructor
  · simp [linkNew, head, update_of_ne apart.symm]
  · constructor
    · simp [linkNew, head]
    · simp only [linkNew, offset_eq]
      simp

/-- An allocation succeeds whenever any list holds an index. -/
theorem allocate_isSome (layout : Layout n cells.nextOf cells.prevOf L) (bound : ∀ w, ∀ y ∈ L w, indexShift n ≤ y)
    (c : Fin n) (time : Int) : (concurrentDchainAllocateNewIndex n c.val time cells).1.isSome ↔ Stocks L := by
  rcases allocate_cases layout bound c time with ⟨empty, none⟩ | ⟨w, free, x, l, M, mid, popped, refill, split, -, -, ran⟩
  · simp [none, empty]
  · have stocked : Stocks L := by
      obtain ⟨v, isFree, member⟩ := stocks_of_stock refill.layout refill.stock free split
      exact ⟨v, isFree, List.ne_nil_of_mem member⟩
    simp [ran, stocked]

/-- The allocated index was free, and the allocated list of the core grows by it. -/
theorem allocate_valid (valid : Valid n size cells L) (c : Fin n) (time : Int) {i : Nat}
    (ran : concurrentDchainAllocateNewIndex n c.val time cells = (some i, after)) :
    i < covered n size ∧ (∃ w : ListId n, w.IsFree ∧ indexShift n + i ∈ L w) ∧
      ∃ M, Valid n size after M ∧ M (.alloc c) = L (.alloc c) ++ [indexShift n + i] ∧ ∀ d, d ≠ c → M (.alloc d) = L (.alloc d) := by
  rcases allocate_cases valid.layout valid.bound c time with ⟨-, none⟩ | ⟨w, free, x, l, M, mid, popped, refill, split, layout, ind, ran'⟩
  · rw [ran] at none
    contradiction
  · obtain ⟨same, rfl⟩ := Prod.mk.inj (ran.symm.trans ran')
    obtain ⟨v, isFree, member⟩ := stocks_of_stock refill.layout refill.stock free split
    obtain ⟨j, within, rfl⟩ := (valid.cover x).mp ⟨v, member⟩
    rw [Nat.add_sub_cancel_left, Option.some.injEq] at same
    subst same
    have loose := refill.layout.loose_pop (l := []) (bound_of_stock valid.bound refill.stock) split
    have marks : popped.indOf = cells.indOf := ind.trans (refill.marks fun w free x => valid.ind_free free)
    have stock := refill.stock.trans (Stock.pop free refill.layout split)
    obtain ⟨next, prev, ind'⟩ := linkNew_links popped time (Layout.ne_head loose (.alloc c))
    refine ⟨within, ⟨v, isFree, member⟩, ?_⟩
    -- The times of free indexes do not matter.
    have taken : Taken cells (fun y => { popped y with extra := cells.extraOf y }) L (indexShift n + i) :=
      ⟨⟨v, isFree, member⟩, _, ⟨layout, stock, marks, rfl⟩, loose⟩
    exact valid_append valid c taken next prev ind'

end Nfos.ConcurrentDoubleChain
