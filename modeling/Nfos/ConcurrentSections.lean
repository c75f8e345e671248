import Nfos.ConcurrentDoubleChain

/-! What each section of `ConcurrentDoubleChain` does to well-formed lists. No
section is told here who runs it: these are facts about the cells alone. -/
namespace Nfos.ConcurrentDoubleChain
open Function Linked CellData
variable {Id : Type}

section Specs
variable {n size : Nat} {cells : ConcurrentDchainCells Id} {L : ListId n → List Nat} {c : Fin n}
  {x : Nat} {l m : List Nat}

theorem hasFreeIndexes_iff (layout : Layout n cells.nextOf cells.prevOf L) (c : Fin n) :
    concurrentDchainImplHasFreeIndexes n cells c.val = true ↔ L (.free c) ≠ [] := by
  rw [ne_eq, layout.forward.nil_iff]
  simp [concurrentDchainImplHasFreeIndexes, ListId.head]

theorem popLocal_nil (layout : Layout n cells.nextOf cells.prevOf L) (empty : L (.free c) = []) :
    popLocal n c.val cells = (none, cells) := by
  have back : cells.nextOf (freeListHead n + c.val <<< listHeadPadding) =
      freeListHead n + c.val <<< listHeadPadding := layout.forward.nil_iff.mp empty
  simp [popLocal, back]

/-- A pop changes nothing but the links of its free list. -/
theorem popLocal_cons (layout : Layout n cells.nextOf cells.prevOf L) (split : L (.free c) = x :: l) :
    (popLocal n c.val cells).1 = some x ∧
      Layout n (popLocal n c.val cells).2.nextOf (popLocal n c.val cells).2.prevOf
        (update L (.free c) l) ∧
      (popLocal n c.val cells).2.indOf = cells.indOf ∧
      (popLocal n c.val cells).2.extraOf = cells.extraOf := by
  have head : freeListHead n + c.val <<< listHeadPadding = (ListId.free c).head := rfl
  have first : cells.nextOf (ListId.free c).head = x := layout.forward.first split
  have member : x ∈ L (.free c) := by simp [split]
  have inner : x ≠ (ListId.free c).head := layout.ne_head_of_mem member (.free c)
  simp only [popLocal, head, first, if_neg inner]
  refine ⟨trivial, ?_, by simp, by simp⟩
  simpa using (layout.pop (ListId.free_isFree c) split).update_prev_head (ListId.free_isFree c)
    (cells.nextOf x)

theorem offset_eq (c : Fin n) : ((c.val <<< listHeadPadding : Nat) : Int) = (allocHead c : Int) := by
  rw [show allocHead c = allocListHead + c.val <<< listHeadPadding from rfl, allocListHead, Nat.zero_add]

/-- A linked cell is the newest of its list and names that list. -/
theorem linkNew_spec (layout : Layout n cells.nextOf cells.prevOf L) (c : Fin n) (loose : Loose L x)
    (time : Int) :
    Layout n (linkNew c.val x time cells).nextOf (linkNew c.val x time cells).prevOf
        (update L (.alloc c) (L (.alloc c) ++ [x])) ∧
      (linkNew c.val x time cells).indOf = update cells.indOf x (allocHead c) ∧
      (linkNew c.val x time cells).extraOf =
        update cells.extraOf x { cells.extraOf x with time := time } := by
  have head : allocListHead + c.val <<< listHeadPadding = allocHead c := rfl
  have apart : allocHead c ≠ x := (Layout.ne_head loose (.alloc c)).symm
  refine ⟨?_, ?_, ?_⟩
  · simpa [linkNew, head, update_of_ne apart] using layout.append c loose
  · simp only [linkNew, offset_eq]
    simp
  · simp [linkNew]

theorem fillGlobalFreeList_nil (layout : Layout n cells.nextOf cells.prevOf L)
    (empty : L (.free c) = []) : fillGlobalFreeList n c.val cells = cells := by
  have back : cells.nextOf (freeListHead n + c.val <<< listHeadPadding) =
      freeListHead n + c.val <<< listHeadPadding := layout.forward.nil_iff.mp empty
  simp [fillGlobalFreeList, back]

theorem fillGlobalFreeList_cons (layout : Layout n cells.nextOf cells.prevOf L)
    (bound : ∀ w, ∀ y ∈ L w, indexShift n ≤ y) (split : L (.free c) = x :: l) :
    Layout n (fillGlobalFreeList n c.val cells).nextOf (fillGlobalFreeList n c.val cells).prevOf
        (update (update L (.free c) l) .glob (x :: L .glob)) ∧
      (fillGlobalFreeList n c.val cells).indOf = update cells.indOf x (-1) ∧
      (fillGlobalFreeList n c.val cells).extraOf =
        update cells.extraOf x { cells.extraOf x with time := int64Max } := by
  have head : freeListHead n + c.val <<< listHeadPadding = (ListId.free c).head := rfl
  have glob : globalFreeListHead n = (ListId.glob : ListId n).head := rfl
  have first : cells.nextOf (ListId.free c).head = x := layout.forward.first split
  have member : x ∈ L (.free c) := by simp [split]
  have inner : x ≠ (ListId.free c).head := layout.ne_head_of_mem member (.free c)
  have apart : (ListId.glob : ListId n) ≠ .free c := by simp
  have headGlob : (ListId.glob : ListId n).head ≠ (ListId.free c).head :=
    fun same => apart (ListId.head_injective same)
  have loose : Loose (update L (.free c) l) x := layout.loose_pop (l := []) bound split
  have pushed := ((((layout.pop (ListId.free_isFree c) split).update_prev_head
    (ListId.free_isFree c) (cells.nextOf x)).update_prev_loose loose
      (cells.nextOf (ListId.glob : ListId n).head)).update_prev_head ListId.glob_isFree x).push
        ListId.glob_isFree loose
  rw [update_of_ne headGlob, update_of_ne apart] at pushed
  simp only [fillGlobalFreeList, head, glob, first, if_neg inner]
  refine ⟨?_, by simp, by simp⟩
  simpa [update_of_ne headGlob] using pushed

theorem popGlobal_spec (layout : Layout n cells.nextOf cells.prevOf L) (split : L .glob = x :: l) :
    Layout n (popGlobal n x cells).nextOf (popGlobal n x cells).prevOf (update L .glob l) ∧
      (popGlobal n x cells).indOf = cells.indOf ∧ (popGlobal n x cells).extraOf = cells.extraOf := by
  refine ⟨?_, by simp [popGlobal], by simp [popGlobal]⟩
  have glob : globalFreeListHead n = (ListId.glob : ListId n).head := rfl
  simpa [popGlobal, glob] using (layout.pop ListId.glob_isFree split).update_prev_head
    ListId.glob_isFree (cells.nextOf x)

/-- An index that does not name the partition is refused. -/
theorem unlinkFreed_refused {i : Nat} (other : cells.indOf (indexShift n + i) ≠ allocHead c) :
    unlinkFreed n i c.val cells = none := by
  simp only [unlinkFreed, Nat.add_comm i, offset_eq]
  exact if_pos other

theorem unlinkFreed_spec {i : Nat} (layout : Layout n cells.nextOf cells.prevOf L)
    (split : L (.alloc c) = l ++ (indexShift n + i) :: m)
    (named : cells.indOf (indexShift n + i) = allocHead c) :
    ∃ after, unlinkFreed n i c.val cells = some after ∧
      Layout n after.nextOf after.prevOf (update L (.alloc c) (l ++ m)) ∧
      after.indOf = cells.indOf ∧ after.extraOf = cells.extraOf := by
  have head : allocListHead + c.val <<< listHeadPadding = allocHead c := rfl
  have kept : ¬ (cells.nextOf (indexShift n + i) = cells.prevOf (indexShift n + i) ∧
      cells.prevOf (indexShift n + i) ≠ allocHead c) := by
    rintro ⟨same, away⟩
    obtain ⟨rfl, rfl⟩ := (layout.single_iff split).mp same
    exact away (layout.prev_of_split split)
  have removed := layout.remove split
  refine ⟨(cells.setNext (cells.prevOf (indexShift n + i)) (cells.nextOf (indexShift n + i))).setPrev
    (cells.nextOf (indexShift n + i)) (cells.prevOf (indexShift n + i)), ?_, ?_, by simp, by simp⟩
  · simp only [unlinkFreed, Nat.add_comm i, offset_eq, named, head, ne_eq, not_true_eq_false, if_false]
    exact if_neg kept
  · simpa using removed

theorem pushFreed_spec (layout : Layout n cells.nextOf cells.prevOf L) (c : Fin n) (loose : Loose L x) :
    Layout n (pushFreed n c.val x cells).nextOf (pushFreed n c.val x cells).prevOf
        (update L (.free c) (x :: L (.free c))) ∧
      (pushFreed n c.val x cells).indOf = update cells.indOf x (-1) ∧
      (pushFreed n c.val x cells).extraOf = cells.extraOf := by
  have head : freeListHead n + c.val <<< listHeadPadding = (ListId.free c).head := rfl
  refine ⟨?_, by simp [pushFreed], by simp [pushFreed]⟩
  simpa [pushFreed, head] using ((layout.update_prev_loose loose
    (cells.nextOf (ListId.free c).head)).update_prev_head (ListId.free_isFree c) x).push
      (ListId.free_isFree c) loose

theorem getOldestIndex_nil (layout : Layout n cells.nextOf cells.prevOf L) (empty : L (.alloc c) = []) :
    concurrentDchainImplGetOldestIndex n c.val cells = none := by
  have head : allocListHead + c.val <<< listHeadPadding = allocHead c := rfl
  have back : cells.nextOf (allocHead c) = allocHead c := layout.forward.nil_iff.mp empty
  have last := layout.prev_head c
  rw [empty] at last
  simp [concurrentDchainImplGetOldestIndex, head, back, last]

theorem getOldestIndex_cons {i : Nat} (layout : Layout n cells.nextOf cells.prevOf L)
    (split : L (.alloc c) = (indexShift n + i) :: l) :
    concurrentDchainImplGetOldestIndex n c.val cells = some i := by
  have head : allocListHead + c.val <<< listHeadPadding = allocHead c := rfl
  have first : cells.nextOf (allocHead c) = indexShift n + i := layout.forward.first split
  have member : indexShift n + i ∈ L (.alloc c) := by simp [split]
  have inner : indexShift n + i ≠ allocHead c := layout.ne_head_of_mem member (.alloc c)
  simp [concurrentDchainImplGetOldestIndex, head, first, inner]

theorem rejuvenateIndex_refused {i : Nat} (other : cells.indOf (indexShift n + i) ≠ allocHead c)
    (time : Int) : concurrentDchainImplRejuvenateIndex n i c.val time cells = (false, cells) := by
  simp only [concurrentDchainImplRejuvenateIndex, Nat.add_comm i, offset_eq]
  exact if_pos other

/-- The time of the only index of a list is not updated. -/
theorem rejuvenateIndex_single {i : Nat} (layout : Layout n cells.nextOf cells.prevOf L)
    (split : L (.alloc c) = [indexShift n + i])
    (named : cells.indOf (indexShift n + i) = allocHead c) (time : Int) :
    concurrentDchainImplRejuvenateIndex n i c.val time cells = (true, cells) := by
  have head : allocListHead + c.val <<< listHeadPadding = allocHead c := rfl
  have next : cells.nextOf (indexShift n + i) = allocHead c := layout.next_of_split (l := []) split
  have prev : cells.prevOf (indexShift n + i) = allocHead c := layout.prev_of_split (l := []) split
  simp only [concurrentDchainImplRejuvenateIndex, Nat.add_comm i, offset_eq, named, head, next, prev,
    ne_eq, not_true_eq_false, if_true, if_false]

theorem rejuvenateIndex_spec {i : Nat} (layout : Layout n cells.nextOf cells.prevOf L)
    (bound : ∀ w, ∀ y ∈ L w, indexShift n ≤ y)
    (split : L (.alloc c) = l ++ (indexShift n + i) :: m) (more : ¬ (l = [] ∧ m = []))
    (named : cells.indOf (indexShift n + i) = allocHead c) (time : Int) :
    ∃ after, concurrentDchainImplRejuvenateIndex n i c.val time cells = (true, after) ∧
      Layout n after.nextOf after.prevOf (update L (.alloc c) (l ++ m ++ [indexShift n + i])) ∧
      after.indOf = cells.indOf ∧ after.extraOf = update cells.extraOf (indexShift n + i)
        { cells.extraOf (indexShift n + i) with time := time } := by
  have head : allocListHead + c.val <<< listHeadPadding = allocHead c := rfl
  have several : ¬ cells.nextOf (indexShift n + i) = cells.prevOf (indexShift n + i) := by
    rwa [layout.single_iff split]
  have loose := layout.loose_pop bound split
  have linked := (layout.remove split).append c loose
  rw [update_self, update_idem] at linked
  refine ⟨_, by simp only [concurrentDchainImplRejuvenateIndex, Nat.add_comm i, offset_eq, named, head,
    ne_eq, not_true_eq_false, if_false, if_neg several]; rfl, ?_, by simp, by simp⟩
  simpa using linked

end Specs
end Nfos.ConcurrentDoubleChain
