import Nfos.AllocateIndex
import Nfos.InitialCells
import Nfos.Lib.Lru

/-! `NfosDoubleChainExp`: a transactional index allocator whose allocated lists
are kept in the order of their last use, so that the oldest index expires first. -/
namespace Nfos.DoubleChainExp
open Txn Tx CellField Function Linked Run

/-- `INT64_MAX`, the time of a cell that never expires. -/
def int64Max : Int := 2 ^ 63 - 1

/-- The added field is `time`, the time to free the index. -/
abbrev NfosDchainExpCell := Cell Int

structure NfosDoubleChainExp where
  cells : Cells Int
  currFreeList : Nat
  numFreeLists : Nat
  validityDuration : Int

/-- `vigor_time_t` arithmetic is that of `Int`: a signed overflow is undefined. -/
def nfosUsecToTscCycles (tscHz : Nat) (usecs : Int) : Int := (tscHz / 1000000 : Nat) * usecs

def initWrites (numCores : Nat) : InitWrites (Cells Int) where
  allocHead i cells :=
    (((cells.setPrev i i).setNext i i).setInd i (i - allocListHead)).setExtra i int64Max
  freeHead i v cells :=
    (((cells.setNext i v).setPrev i v).setInd i (i - freeListHead numCores)).setExtra i int64Max
  globHead cells :=
    (((cells.setNext (globalFreeListHead numCores) (globalFreeListHead numCores)).setPrev
      (globalFreeListHead numCores) (globalFreeListHead numCores)).setInd
        (globalFreeListHead numCores) (-1)).setExtra (globalFreeListHead numCores) int64Max
  freeCell i v cells := (((cells.setNext i v).setPrev i v).setInd i (-1)).setExtra i int64Max

/-- `cells` are the freshly allocated cells. -/
def nfosDchainExpAllocate (tscHz : Nat) (cells : Cells Int) (indexRange : Nat)
    (validityDuration : Int) (numCores : Nat) : Option NfosDoubleChainExp := do
  let cells ← initLists (initWrites numCores) (indexRange + numCores) indexRange numCores cells
  return {
    cells := cells
    currFreeList := 0
    numFreeLists := numCores
    validityDuration := nfosUsecToTscCycles tscHz validityDuration }

def nfosDchainExpAllocateNewIndex (validity : Int) (numCores core : Nat) (time : Int) :
    Tx NfosDchainExpCell (Option Nat) :=
  AllocateIndex.allocateNewIndex (fun _ => time + validity) numCores core

/-- Point the last cell of a list at a lifted cell; it may be the cell behind
the lifted one, which is locked. -/
def linkLast (lifted alHeadPrev liftedNext : Nat) (liftedNextp : Ref NfosDchainExpCell) :
    Tx NfosDchainExpCell Unit := do
  if alHeadPrev ≠ liftedNext then
    let alHeadPrevp ← tryLockAt alHeadPrev
    setNext alHeadPrevp lifted
  else
    setNext liftedNextp lifted

/-- Point the head of a list at its new last cell; it may be the cell in front
of the lifted one, which is locked. -/
def linkHead (lifted alHeadInd liftedPrev : Nat) (alHead liftedPrevp : Ref NfosDchainExpCell) :
    Tx NfosDchainExpCell Unit := do
  if alHeadInd + allocListHead ≠ liftedPrev then
    let alHead ← tryLock alHead
    setPrev alHead lifted
  else
    setPrev liftedPrevp lifted

/-- `true` for the return value 1, `false` for 0. -/
def nfosDchainExpRejuvenateIndex (validity : Int) (numCores index : Nat) (time : Int) :
    Tx NfosDchainExpCell Bool := do
  let lifted := index + indexShift numCores
  let liftedp ← deref lifted
  if (← listInd liftedp) = -1 then
    return false
  else
    let alHeadInd := (← listInd liftedp).toNat
    let liftedNext ← next liftedp
    let liftedPrev ← prev liftedp
    if liftedNext = allocListHead + alHeadInd then
      -- The index is already at the end of the list.
      let liftedp ← tryLock liftedp
      setExtra liftedp (time + validity)
      return true
    else
      let liftedPrevp ← tryLockAt liftedPrev
      setNext liftedPrevp liftedNext
      let liftedNextp ← tryLockAt liftedNext
      setPrev liftedNextp liftedPrev
      let alHead ← deref (allocListHead + alHeadInd)
      let alHeadPrev ← prev alHead
      let liftedp ← tryLock liftedp
      setNext liftedp (allocListHead + alHeadInd)
      setPrev liftedp alHeadPrev
      setExtra liftedp (time + validity)
      linkLast lifted alHeadPrev liftedNext liftedNextp
      linkHead lifted alHeadInd liftedPrev alHead liftedPrevp
      return true

/-- What `expire_one_index` returns: the freed index if there is one, the new
`curr_free_list`, and whether `expiration_done_out` was set. -/
structure Expiry where
  index : Option Nat
  currFreeList : Nat
  done : Bool

/-- Check another free list next time. -/
def nextFreeList (currFreeList numFreeLists : Nat) : Expiry :=
  if currFreeList + 1 ≥ numFreeLists then ⟨none, 0, true⟩ else ⟨none, currFreeList + 1, false⟩

/-- Add a link to the "free" chain and reset its time. -/
def linkFree (numCores alHeadInd freed : Nat) (freedp : Ref NfosDchainExpCell) :
    Tx NfosDchainExpCell Unit := do
  let frHead ← deref (freeListHead numCores + alHeadInd)
  let freedp ← tryLock freedp
  setNext freedp (← next frHead)
  setPrev freedp (← next freedp)
  setListInd freedp (-1)
  setExtra freedp int64Max
  let frHead ← tryLock frHead
  setNext frHead freed
  setPrev frHead (← next frHead)

/-- Extract a link from the "alloc" chain. No object is locked twice. -/
def unlink (freedPrev freedNext : Nat) : Tx NfosDchainExpCell Unit := do
  if freedPrev ≠ freedNext then
    let freedNextp ← tryLockAt freedNext
    let freedPrevp ← tryLockAt freedPrev
    setNext freedPrevp freedNext
    setPrev freedNextp freedPrev
  else
    let freedPrevp ← tryLockAt freedPrev
    setNext freedPrevp freedNext
    setPrev freedPrevp freedPrev

def nfosDchainExpExpireOneIndex (numCores currFreeList numFreeLists : Nat) (time : Int) :
    Tx NfosDchainExpCell Expiry := do
  let alHeadInd := currFreeList <<< listHeadPadding
  let alHead ← deref (allocListHead + alHeadInd)
  if (← next alHead) = (← prev alHead) ∧ (← next alHead) = allocListHead + alHeadInd then
    -- No allocated indexes.
    return nextFreeList currFreeList numFreeLists
  else
    let freed ← next alHead
    let freedp ← deref freed
    if (← extra freedp) ≥ time then
      -- The oldest index is still valid.
      return nextFreeList currFreeList numFreeLists
    else
      let freedPrev ← prev freedp
      let freedNext ← next freedp
      linkFree numCores alHeadInd freed freedp
      unlink freedPrev freedNext
      return ⟨some (freed - indexShift numCores), currFreeList, false⟩

def nfosDchainExpIsIndexAllocated (numCores index : Nat) : Tx NfosDchainExpCell Bool := do
  let elemp ← deref (index + indexShift numCores)
  return (← listInd elemp) ≠ -1

section Steps
variable {n size : Nat} {grants : Nat → Bool} {t : Log NfosDchainExpCell} {L : ListId n → List Nat}
  {validity time : Int}

theorem post_linkLast (x p q : Nat) : Post (linkLast x p q (.pending q)) grants t fun _ t' =>
    t'.cells.nextOf = update t.cells.nextOf p x ∧ t'.cells.prevOf = t.cells.prevOf ∧
      t'.cells.indOf = t.cells.indOf ∧ t'.cells.extraOf = t.cells.extraOf := by
  refine post_ite (fun _ => ?_) (fun same => ?_)
  · refine post_bind.mpr (post_tryLockAt ?_)
    simp
  · simp [not_not.mp same]

theorem post_linkHead (x h p : Nat) {alHead : Ref NfosDchainExpCell} (object : alHead.object = h) :
    Post (linkHead x h p alHead (.pending p)) grants t fun _ t' =>
      t'.cells.nextOf = t.cells.nextOf ∧ t'.cells.prevOf = update t.cells.prevOf h x ∧
        t'.cells.indOf = t.cells.indOf ∧ t'.cells.extraOf = t.cells.extraOf := by
  refine post_ite (fun _ => ?_) (fun same => ?_)
  · refine post_bind.mpr (post_tryLock ?_)
    simp [object]
  · rw [not_not, allocListHead, Nat.add_zero] at same
    simp [same]

/-- The outcome of rejuvenating index `i`: it is moved behind all other indexes
of its list. -/
def Rejuvenated (n size i : Nat) (stamp : Int) (before : Cells Int) (L : ListId n → List Nat) :
    Bool → Cells Int → Prop
  | false, after => after = before ∧ ∀ c, indexShift n + i ∉ L (.alloc c)
  | true, after => ∃ c l m, L (.alloc c) = l ++ (indexShift n + i) :: m ∧
      Valid n size after (update L (.alloc c) (l ++ m ++ [indexShift n + i])) ∧
      after.extraOf = update before.extraOf (indexShift n + i) stamp

theorem post_rejuvenateIndex (valid : Valid n size t.cells L) {i : Nat} (within : i < size) :
    Post (nfosDchainExpRejuvenateIndex validity n i time) grants t fun result t' =>
      Rejuvenated n size i (time + validity) t.cells L result t'.cells := by
  simp only [nfosDchainExpRejuvenateIndex, Nat.add_comm i, post_bind, post_deref, post_listInd,
    Log.indAt_ref]
  refine post_ite (fun minus => ?_) (fun marked => ?_)
  · exact ⟨rfl, (valid.ind_eq_neg_one within).mp minus⟩
  · obtain ⟨c, member⟩ : ∃ c, indexShift n + i ∈ L (.alloc c) := by
      simpa [valid.ind_eq_neg_one within] using marked
    obtain ⟨l, m, split⟩ := List.append_of_mem member
    simp only [post_bind, post_listInd, Log.indAt_ref, valid.allocated c _ member, Int.toNat_natCast,
      allocListHead, Nat.zero_add, post_next, post_prev, Log.nextAt_ref, Log.prevAt_ref]
    refine post_ite (fun last => ?_) (fun inner => ?_)
    · refine post_bind.mpr (post_tryLock ?_)
      simp only [post_bind, post_setExtra, post_pure, Log.object_ref]
      refine ⟨c, l, m, split, ?_, by simp⟩
      have behind : m = [] := by
        cases m with
        | nil => rfl
        | cons y m =>
          rw [valid.layout.next_of_split split] at last
          have onList : y ∈ L (.alloc c) := by simp [split]
          rw [show y = allocHead c from last] at onList
          exact absurd onList (valid.layout.forward.headOff (.alloc c) (.alloc c))
      subst behind
      rw [List.append_nil, ← split, update_eq_self]
      exact valid.congr (by simp) (by simp) (by simp)
    · refine post_bind.mpr (post_tryLockAt (post_bind.mpr (post_setNext.mpr
        (post_bind.mpr (post_tryLockAt (post_bind.mpr (post_setPrev.mpr ?_)))))))
      simp only [post_bind, post_deref, post_prev, Log.prevAt_ref]
      refine post_tryLock ?_
      simp only [Log.object_ref, post_setNext, post_setPrev, post_setExtra]
      refine (post_linkLast _ _ _).mono fun _ t' linked => ?_
      refine (post_linkHead _ _ _ (Log.object_ref _ _)).mono fun _ t'' headed => ?_
      obtain ⟨next, prev, ind, extra⟩ := linked
      obtain ⟨next', prev', ind', extra'⟩ := headed
      rw [next] at next'
      rw [prev] at prev'
      rw [ind] at ind'
      rw [extra] at extra'
      have atHead : update t.cells.prevOf (t.cells.nextOf (indexShift n + i))
          (t.cells.prevOf (indexShift n + i)) (allocHead c) = t.cells.prevOf (allocHead c) :=
        update_of_ne (Ne.symm inner) _ _
      refine ⟨c, l, m, split, valid.lift split inner ?_ ?_ ?_, ?_⟩
      · simpa [atHead] using next'
      · simpa [atHead] using prev'
      · simpa using ind'
      · simpa using extra'

theorem post_unlink (p q : Nat) : Post (unlink p q) grants t fun _ t' =>
    t'.cells.nextOf = update t.cells.nextOf p q ∧ t'.cells.prevOf = update t.cells.prevOf q p ∧
      t'.cells.indOf = t.cells.indOf ∧ t'.cells.extraOf = t.cells.extraOf := by
  refine post_ite (fun _ => ?_) (fun same => ?_)
  · refine post_bind.mpr (post_tryLockAt (post_bind.mpr (post_tryLockAt ?_)))
    simp
  · refine post_bind.mpr (post_tryLockAt ?_)
    simp [not_not.mp same]

theorem post_linkFree (d : Fin n) {x : Nat} {freedp : Ref NfosDchainExpCell}
    (object : freedp.object = x) :
    Post (linkFree n (d.val <<< listHeadPadding) x freedp) grants t fun _ t' =>
      t'.cells.nextOf = update (update t.cells.nextOf x (t.cells.nextOf (ListId.free d).head))
        (ListId.free d).head x ∧
      t'.cells.prevOf = update (update t.cells.prevOf x (t.cells.nextOf (ListId.free d).head))
        (ListId.free d).head x ∧
      t'.cells.indOf = update t.cells.indOf x (-1) ∧
      t'.cells.extraOf = update t.cells.extraOf x int64Max := by
  have head : freeListHead n + d.val <<< listHeadPadding = (ListId.free d).head := rfl
  simp only [linkFree, head, post_bind, post_deref]
  refine post_tryLock ?_
  simp only [object, post_next, post_setNext, post_setPrev, post_setListInd, post_setExtra]
  refine post_tryLock ?_
  simp

/-- The outcome of a look at the list of core `c`: its oldest index is moved to
the free list of the same core, or it has no index whose time has passed. -/
def Expired (n size : Nat) (c : Fin n) (time : Int) (before : Cells Int) (L : ListId n → List Nat)
    (result : Expiry) (after : Cells Int) : Prop :=
  match result.index with
  | none => after = before ∧ (∀ x l, L (.alloc c) = x :: l → time ≤ before.extraOf x) ∧
      result = nextFreeList c.val n
  | some i => result = ⟨some i, c.val, false⟩ ∧ ∃ l, L (.alloc c) = (indexShift n + i) :: l ∧
      before.extraOf (indexShift n + i) < time ∧
      Valid n size after (update (update L (.alloc c) l) (.free c)
        ((indexShift n + i) :: L (.free c))) ∧
      after.extraOf = update before.extraOf (indexShift n + i) int64Max

theorem nextFreeList_index (k n : Nat) : (nextFreeList k n).index = none := by
  unfold nextFreeList
  split <;> rfl

theorem post_expireOneIndex (time : Int) (valid : Valid n size t.cells L) (c : Fin n) :
    Post (nfosDchainExpExpireOneIndex n c.val n time) grants t fun result t' =>
      Expired n size c time t.cells L result t'.cells := by
  have head : allocListHead + c.val <<< listHeadPadding = allocHead c := rfl
  simp only [nfosDchainExpExpireOneIndex, head, post_bind, post_deref, post_next, post_prev,
    Log.nextAt_ref, Log.prevAt_ref]
  refine post_ite (fun back => ?_) (fun more => ?_)
  · have empty : L (.alloc c) = [] := valid.layout.forward.nil_iff.mpr back.2
    simp [Expired, nextFreeList_index, empty]
  · cases split : L (.alloc c) with
    | nil =>
      refine absurd ⟨?_, valid.layout.forward.nil_iff.mp split⟩ more
      rw [valid.layout.prev_head, split]
      exact valid.layout.forward.nil_iff.mp split
    | cons x l =>
      obtain ⟨i, _, rfl⟩ := (valid.cover x).mp ⟨.alloc c, by simp [split]⟩
      have first : t.cells.nextOf (allocHead c) = indexShift n + i := valid.layout.forward.first split
      simp only [post_bind, post_next, Log.nextAt_ref, first, post_deref, post_extra, Log.extraAt_ref]
      refine post_ite (fun current => ?_) (fun passed => ?_)
      · simp only [post_pure, Expired, nextFreeList_index, split, List.cons.injEq]
        refine ⟨trivial, ?_, trivial⟩
        rintro x l ⟨rfl, rfl⟩
        exact current
      · simp only [post_bind, post_prev, post_next, Log.prevAt_ref, Log.nextAt_ref]
        refine (post_linkFree c (Log.object_ref _ _)).mono fun _ t' linked => ?_
        refine (post_unlink _ _).mono fun _ t'' unlinked => ?_
        obtain ⟨next, prev, ind, extra⟩ := linked
        obtain ⟨next', prev', ind', extra'⟩ := unlinked
        -- The cell was pushed before it was unlinked; the writes are to different cells.
        obtain ⟨offPrev, headPrev⟩ := valid.layout.neighbour (l := []) (w := .free c) split
          (valid.layout.prev_mem (l := []) split)
        obtain ⟨offNext, headNext⟩ := valid.layout.neighbour (l := []) (w := .free c) split
          (valid.layout.next_mem (l := []) split)
        rw [next, update_comm (headPrev (by simp)).symm, update_comm offPrev.symm] at next'
        rw [prev, update_comm (headNext (by simp)).symm, update_comm offNext.symm] at prev'
        rw [ind] at ind'
        rw [extra] at extra'
        simp only [post_pure, Expired, Nat.add_sub_cancel_left, true_and]
        exact ⟨l, split, by omega, valid.release (ListId.free_isFree c) (l := []) split next' prev' ind', extra'⟩

end Steps
end Nfos.DoubleChainExp
