import Nfos.IndexLists

/-! Index allocation as `nfos_dchain_impl_allocate_new_index` and
`nfos_dchain_exp_allocate_new_index_t` share it: from the own free list, else
from the global one, else after moving one index of every core to the global
list. `stamp` is the write to the additional fields of the allocated cell. -/
namespace Nfos.AllocateIndex
open Txn Tx CellField Linked Function
variable {ε : Type}

/-- Move the first index of a core's free list to the global free list, which
is locked. The result is the pending copy of the last index that was moved. -/
def migrateOne (numCores : Nat) (glbFlHead : Ref (Cell ε)) (i : Nat)
    (allocp : Option (Ref (Cell ε))) : Tx (Cell ε) (Option (Ref (Cell ε))) := do
  let listHeadInd := i <<< listHeadPadding
  let listHead ← deref (freeListHead numCores + listHeadInd)
  let migrated ← next listHead
  if migrated = freeListHead numCores + listHeadInd then
    return allocp
  else
    -- Extract the link from the local free list.
    let listHead ← tryLock listHead
    let migratedp ← deref migrated
    setNext listHead (← next migratedp)
    setPrev listHead (← next listHead)
    -- Add the link to the global free list.
    let migratedp ← tryLock migratedp
    setNext migratedp (← next glbFlHead)
    setPrev migratedp (← next migratedp)
    setListInd migratedp (-1)
    setNext glbFlHead migrated
    setPrev glbFlHead (← next glbFlHead)
    return some migratedp

def migrate (numCores : Nat) (glbFlHead : Ref (Cell ε)) :
    List Nat → Option (Ref (Cell ε)) → Tx (Cell ε) (Option (Ref (Cell ε)))
  | [], allocp => return allocp
  | i :: rest, allocp => do
    let allocp ← migrateOne numCores glbFlHead i allocp
    migrate numCores glbFlHead rest allocp

/-- Extract a link from the free list whose head is locked. -/
def extract (head allocp : Ref (Cell ε)) : Tx (Cell ε) Unit := do
  setNext head (← next allocp)
  setPrev head (← next head)

/-- Get a free index: its cell and the pending copy of that cell. -/
def getFreeIndex (numCores core : Nat) : Tx (Cell ε) (Option (Nat × Ref (Cell ε))) := do
  let alHeadInd := core <<< listHeadPadding
  let flHead ← deref (freeListHead numCores + alHeadInd)
  let allocated ← next flHead
  if allocated = freeListHead numCores + alHeadInd then
    let glbFlHead ← tryLockAt (globalFreeListHead numCores)
    let allocated ← next glbFlHead
    if allocated = globalFreeListHead numCores then
      let allocp ← migrate numCores glbFlHead (List.range numCores) none
      let allocated ← next glbFlHead
      if allocated = globalFreeListHead numCores then
        return none
      else
        match allocp with
        | none => fault
        | some allocp =>
          extract glbFlHead allocp
          return some (allocated, allocp)
    else
      let allocp ← tryLockAt allocated
      extract glbFlHead allocp
      return some (allocated, allocp)
  else
    let allocp ← tryLockAt allocated
    let flHead ← tryLock flHead
    extract flHead allocp
    return some (allocated, allocp)

/-- Add a link to the "new" end of the allocated list of a core. The head is
not locked twice when it is its own predecessor. -/
def install (stamp : ε → ε) (core allocated : Nat) (allocp : Ref (Cell ε)) : Tx (Cell ε) Unit := do
  let alHeadInd := core <<< listHeadPadding
  setNext allocp (allocListHead + alHeadInd)
  let alHead ← deref (allocListHead + alHeadInd)
  setPrev allocp (← prev alHead)
  setListInd allocp alHeadInd
  setExtra allocp (stamp (← extra allocp))
  let allocHeadPrev ← prev alHead
  if (← prev alHead) ≠ allocListHead + alHeadInd then
    let allocHeadPrevp ← tryLockAt allocHeadPrev
    setNext allocHeadPrevp allocated
    let alHead ← tryLock alHead
    setPrev alHead allocated
  else
    let alHead ← tryLock alHead
    setNext alHead allocated
    setPrev alHead allocated

/-- The index returned with 1, `none` for the return value 0. -/
def allocateNewIndex (stamp : ε → ε) (numCores core : Nat) : Tx (Cell ε) (Option Nat) := do
  match ← getFreeIndex numCores core with
  | none => return none
  | some (allocated, allocp) =>
    install stamp core allocated allocp
    return some (allocated - indexShift numCores)

section Steps
variable {n size : Nat} {grants : Nat → Bool} {t : Log (Cell ε)} {x : Nat}
  {L : ListId n → List Nat}

/-- Whether or not the list was empty, linking at the end is the same four writes. -/
theorem post_install (stamp : ε → ε) {core h : Nat} (head : allocListHead + core <<< listHeadPadding = h) (apart : x ≠ h) :
    Post (install stamp core x (.pending x)) grants t fun _ t' =>
      t'.cells.nextOf = update (update t.cells.nextOf x h) (t.cells.prevOf h) x ∧
      t'.cells.prevOf = update (update t.cells.prevOf x (t.cells.prevOf h)) h x ∧
      t'.cells.indOf = update t.cells.indOf x h ∧
      t'.cells.extraOf = update t.cells.extraOf x (stamp (t.cells.extraOf x)) := by
  have offset : ((core <<< listHeadPadding : Nat) : Int) = (h : Int) := by
    rw [← head, allocListHead, Nat.zero_add]
  have off : ((t.putNext x h).ref h).object ≠ x := by simpa using apart.symm
  simp only [install, head, offset, post_bind, post_setNext, post_deref, post_prev, post_setPrev,
    post_setListInd, post_extra, post_setExtra, Log.prevAt_putPrev off, Log.prevAt_putInd off,
    Log.prevAt_putExtra off, Log.prevAt_ref, Log.extraAt_pending, Log.cells_putNext,
    Log.cells_putPrev, Log.cells_putInd, Cells.prevOf_setNext, Cells.extraOf_setInd,
    Cells.extraOf_setPrev, Cells.extraOf_setNext]
  split
  · refine post_bind.mpr (post_tryLockAt ?_)
    refine post_bind.mpr (post_setNext.mpr (post_bind.mpr (post_tryLock ?_)))
    simp
  · rename_i single
    refine post_bind.mpr (post_tryLock ?_)
    simp [not_not.mp single]

theorem post_extract (h : Nat) : Post (extract (.pending h) (.pending x)) grants t fun _ t' =>
    t'.cells.nextOf = update t.cells.nextOf h (t.cells.nextOf x) ∧
    t'.cells.prevOf = update t.cells.prevOf h (t.cells.nextOf x) ∧
    t'.cells.indOf = t.cells.indOf ∧ t'.cells.extraOf = t.cells.extraOf := by
  simp [extract]

/-- The cells between two transactions differ only in how free cells are linked. -/
structure Relinked (before after : Cells ε) (L M : ListId n → List Nat) (taken : Nat → Prop) : Prop where
  layout : Layout n after.nextOf after.prevOf M
  stock : Stock L M taken
  ind : after.indOf = before.indOf
  extra : after.extraOf = before.extraOf

theorem Relinked.trans {a b c : Cells ε} {M K : ListId n → List Nat} {taken : Nat → Prop}
    (first : Relinked a b L M fun _ => False) (second : Relinked b c M K taken) :
    Relinked a c L K taken :=
  ⟨second.layout, first.stock.trans second.stock, second.ind.trans first.ind,
    second.extra.trans first.extra⟩

/-- Extracting the first cell of a free list, whatever list it is. -/
theorem relinked_pop {before after : Cells ε} {w : ListId n} {l : List Nat}
    (layout : Layout n before.nextOf before.prevOf L) (free : w.IsFree) (split : L w = x :: l)
    (next : after.nextOf = update before.nextOf w.head (before.nextOf x))
    (prev : after.prevOf = update before.prevOf w.head (before.nextOf x))
    (ind : after.indOf = before.indOf) (extra : after.extraOf = before.extraOf) :
    Relinked before after L (update L w l) (· = x) where
  layout := by
    rw [next, prev]
    exact (layout.pop free split).update_prev_head free _
  stock := Stock.pop free layout split
  ind := ind
  extra := extra

/-- What `migrateOne` does to a well-formed array whose free cells are marked free. -/
theorem post_migrateOne (layout : Layout n t.cells.nextOf t.cells.prevOf L)
    (bound : ∀ w, ∀ y ∈ L w, indexShift n ≤ y)
    (marked : ∀ w, w.IsFree → ∀ y ∈ L w, t.cells.indOf y = -1) (c : Fin n)
    (allocp : Option (Ref (Cell ε))) :
    Post (migrateOne n (.pending (globalFreeListHead n)) c.val allocp) grants t fun allocp' t' =>
      (L (.free c) = [] ∧ allocp' = allocp ∧ t' = t) ∨
      ∃ x l, L (.free c) = x :: l ∧ allocp' = some (.pending x) ∧
        Relinked t.cells t'.cells L
          (update (update L (.free c) l) .glob (x :: L .glob)) fun _ => False := by
  have head : freeListHead n + c.val <<< listHeadPadding = (ListId.free c).head := rfl
  have glob : globalFreeListHead n = (ListId.glob : ListId n).head := rfl
  simp only [migrateOne, head, glob, post_bind, post_deref, post_next, Log.nextAt_ref]
  split
  · rename_i back
    exact Or.inl ⟨layout.forward.nil_iff.mpr back, rfl, rfl⟩
  · rename_i forward
    cases split : L (.free c) with
    | nil => exact absurd (layout.forward.nil_iff.mp split) forward
    | cons x l =>
      have first : t.cells.nextOf (ListId.free c).head = x := layout.forward.first split
      have apart : (ListId.glob : ListId n) ≠ .free c := by simp
      have popped := layout.pop (ListId.free_isFree c) split
      have loose : Loose (update L (.free c) l) x := layout.loose_pop (l := []) bound split
      have headGlob : (ListId.glob : ListId n).head ≠ (ListId.free c).head :=
        fun same => apart (ListId.head_injective same)
      have pushed := ((((popped.update_prev_head (ListId.free_isFree c) (t.cells.nextOf x)).update_prev_loose
        loose (t.cells.nextOf (ListId.glob : ListId n).head)).update_prev_head
          ListId.glob_isFree x).push ListId.glob_isFree loose)
      rw [update_of_ne headGlob, update_of_ne apart] at pushed
      have mark : t.cells.indOf x = -1 :=
        marked _ (ListId.free_isFree c) x (by simp [split])
      refine post_bind.mpr (post_tryLock ?_)
      simp only [first, Log.object_ref, post_bind, post_deref, post_next, post_setNext, post_setPrev]
      refine post_tryLock ?_
      simp only [Log.object_ref, post_setNext, post_setPrev, post_setListInd, post_pure]
      refine Or.inr ⟨x, l, rfl, rfl, ?_, ?_, ?_, ?_⟩
      · simpa [update_of_ne headGlob] using pushed
      · exact (Stock.pop (ListId.free_isFree c) layout split).push ListId.glob_isFree
          ⟨.free c, by simp [split]⟩
      · simp [← mark]
      · simp

/-- Moving cells between free lists keeps free cells marked free. -/
theorem Relinked.marked {before after : Cells ε} {M : ListId n → List Nat}
    (relinked : Relinked before after L M fun _ => False)
    (marked : ∀ w, w.IsFree → ∀ y ∈ L w, before.indOf y = -1) :
    ∀ w, w.IsFree → ∀ y ∈ M w, after.indOf y = -1 := by
  intro w free y member
  obtain ⟨v, old⟩ := ((relinked.stock.members y).mp ⟨w, member⟩).1
  rw [relinked.ind]
  refine marked v (fun c same => ?_) y old
  subst same
  rw [← relinked.stock.alloc c] at old
  exact free c (relinked.layout.forward.apart member old)

theorem Relinked.bound {before after : Cells ε} {M : ListId n → List Nat} {taken : Nat → Prop}
    (relinked : Relinked before after L M taken) (bound : ∀ w, ∀ y ∈ L w, indexShift n ≤ y) :
    ∀ w, ∀ y ∈ M w, indexShift n ≤ y := by
  intro w y member
  obtain ⟨v, old⟩ := ((relinked.stock.members y).mp ⟨w, member⟩).1
  exact bound v y old

/-- The loop over the cores ends with the last moved index first on the global
list; if that list is still empty, no core had a free index. -/
theorem post_migrate (cores : List (Fin n)) (allocp : Option (Ref (Cell ε)))
    (layout : Layout n t.cells.nextOf t.cells.prevOf L)
    (bound : ∀ w, ∀ y ∈ L w, indexShift n ≤ y)
    (marked : ∀ w, w.IsFree → ∀ y ∈ L w, t.cells.indOf y = -1)
    (first : ∀ y l, L .glob = y :: l → allocp = some (.pending y)) :
    Post (migrate n (.pending (globalFreeListHead n)) (cores.map Fin.val) allocp) grants t
      fun allocp' t' => ∃ M, Relinked t.cells t'.cells L M (fun _ => False) ∧
        (∀ y l, M .glob = y :: l → allocp' = some (.pending y)) ∧
        (M .glob = [] → t'.cells = t.cells ∧ M = L ∧ ∀ c ∈ cores, L (.free c) = []) := by
  induction cores generalizing t L allocp with
  | nil =>
    exact ⟨L, ⟨layout, Stock.refl L, rfl, rfl⟩, first, fun _ => ⟨rfl, rfl, by simp⟩⟩
  | cons c cores ih =>
    simp only [List.map_cons, migrate, post_bind]
    refine (post_migrateOne layout bound marked c allocp).mono fun allocp' t' step => ?_
    rcases step with ⟨empty, rfl, rfl⟩ | ⟨x, l, split, rfl, relinked⟩
    · refine (ih allocp' layout bound marked first).mono fun last t'' rest => ?_
      obtain ⟨M, relinked, first, none⟩ := rest
      refine ⟨M, relinked, first, fun globNil => ?_⟩
      obtain ⟨same, lists, others⟩ := none globNil
      exact ⟨same, lists, fun d member => (List.mem_cons.mp member).elim (fun e => e ▸ empty) (others d)⟩
    · refine (ih (some (.pending x)) relinked.layout (relinked.bound bound) (relinked.marked marked)
        ?_).mono fun last t'' rest => ?_
      · intro y k shape
        rw [update_self] at shape
        rw [(List.cons.inj shape).1]
      · obtain ⟨M, further, first, none⟩ := rest
        refine ⟨M, relinked.trans further, first, fun globNil => ?_⟩
        obtain ⟨_, lists, _⟩ := none globNil
        rw [lists, update_self] at globNil
        contradiction

/-- `x` has been taken off a free list and is not linked anywhere yet. -/
def Taken (before after : Cells ε) (L : ListId n → List Nat) (x : Nat) : Prop :=
  (∃ w : ListId n, w.IsFree ∧ x ∈ L w) ∧
    ∃ M, Relinked before after L M (· = x) ∧ Loose M x

theorem post_take {before : Cells ε} {M : ListId n → List Nat} {w : ListId n} {l : List Nat}
    (relinked : Relinked before t.cells L M fun _ => False)
    (apart : ∀ c, ∀ y ∈ L (.alloc c), ∀ w, w.IsFree → y ∉ M w)
    (bound : ∀ w, ∀ y ∈ L w, indexShift n ≤ y) (free : w.IsFree) (split : M w = x :: l) :
    Post (extract (.pending w.head) (.pending x)) grants t fun _ t' => Taken before t'.cells L x := by
  refine (post_extract _).mono fun _ t' extracted => ?_
  obtain ⟨next, prev, ind, extra⟩ := extracted
  have popped := relinked_pop relinked.layout free split next prev ind extra
  have member : x ∈ M w := by simp [split]
  refine ⟨?_, _, relinked.trans popped, relinked.layout.loose_pop (l := []) (relinked.bound bound) split⟩
  obtain ⟨v, old⟩ := ((relinked.stock.members x).mp ⟨w, member⟩).1
  refine ⟨v, fun c same => ?_, old⟩
  subst same
  exact apart c x old w free member

/-- The outcome of looking for a free index. -/
def Found (before : Cells ε) (L : ListId n → List Nat) :
    Option (Nat × Ref (Cell ε)) → Log (Cell ε) → Prop
  | none, t => t.cells = before ∧ ∀ w : ListId n, w.IsFree → L w = []
  | some (x, allocp), t => allocp = .pending x ∧ Taken before t.cells L x

/-- A free index is found whenever there is one, and nothing else changes. `w` is the list whose
head the caller takes for its own free list. -/
theorem post_getFreeIndex (valid : Valid n size t.cells L) {w : ListId n} (own : w.IsFree) {core : Nat}
    (head : freeListHead n + core <<< listHeadPadding = w.head) : Post (getFreeIndex n core) grants t (Found t.cells L) := by
  have glob : globalFreeListHead n = (ListId.glob : ListId n).head := rfl
  have layout := valid.layout
  have start : Relinked t.cells t.cells L L fun _ => False := ⟨layout, Stock.refl L, rfl, rfl⟩
  have apart : ∀ c, ∀ y ∈ L (.alloc c), ∀ w : ListId n, w.IsFree → y ∉ L w :=
    fun c y here w free there => free c (layout.forward.apart there here)
  simp only [getFreeIndex, head, glob, post_bind, post_deref, post_next, Log.nextAt_ref]
  split
  · rename_i ownBack
    refine post_bind.mpr (post_tryLockAt ?_)
    simp only [post_bind, post_next, Log.nextAt_pending, Log.cells_lock]
    split
    · rename_i globBack
      have globNil := layout.forward.nil_iff.mpr globBack
      have cores : List.range n = (List.finRange n).map Fin.val := by simp
      rw [cores]
      refine post_bind.mpr ((post_migrate (List.finRange n) none (by simpa using layout)
        valid.bound (by simpa using fun w free y => valid.ind_free free) (by simp [globNil])).mono
          fun allocp t' migrated => ?_)
      obtain ⟨M, relinked, first, exhausted⟩ := migrated
      simp only [Log.cells_lock] at relinked exhausted
      simp only [post_bind, post_next, Log.nextAt_pending]
      refine post_ite (fun stillBack => ?_) (fun refilled => ?_)
      · obtain ⟨same, lists, others⟩ := exhausted (relinked.layout.forward.nil_iff.mpr stillBack)
        refine ⟨same, fun w free => ?_⟩
        cases w with
        | alloc d => exact absurd rfl (free d)
        | free d => exact others d (List.mem_finRange d)
        | glob => exact globNil
      · cases shape : M .glob with
        | nil => exact absurd (relinked.layout.forward.nil_iff.mp shape) refilled
        | cons x l =>
          rw [first x l shape, relinked.layout.forward.first shape]
          refine post_bind.mpr ((post_take relinked ?_ valid.bound ListId.glob_isFree shape).mono
            fun _ t'' taken => ⟨rfl, taken⟩)
          intro d y here w free there
          rw [← relinked.stock.alloc d] at here
          exact free d (relinked.layout.forward.apart there here)
    · rename_i globMore
      cases shape : L .glob with
      | nil => exact absurd (layout.forward.nil_iff.mp shape) globMore
      | cons x l =>
        rw [layout.forward.first shape]
        refine post_bind.mpr (post_tryLockAt (post_bind.mpr ?_))
        exact (post_take (by simpa using start) apart valid.bound ListId.glob_isFree shape).mono
          fun _ t' taken => ⟨rfl, taken⟩
  · rename_i ownMore
    cases shape : L w with
    | nil => exact absurd (layout.forward.nil_iff.mp shape) ownMore
    | cons x l =>
      rw [layout.forward.first shape]
      refine post_bind.mpr (post_tryLockAt (post_bind.mpr (post_tryLock (post_bind.mpr ?_))))
      simp only [Log.object_ref]
      exact (post_take (by simpa using start) apart valid.bound own shape).mono
        fun _ t' taken => ⟨rfl, taken⟩

/-- The outcome of an allocation by core `c`: a free index is appended to the
core's allocated list, or there was none. -/
def Allocated (size : Nat) (stamp : ε → ε) (c : Fin n) (before : Cells ε) (L : ListId n → List Nat) :
    Option Nat → Cells ε → Prop
  | none, after => after = before ∧ ∀ w : ListId n, w.IsFree → L w = []
  | some i, after => i < covered n size ∧ (∃ w : ListId n, w.IsFree ∧ indexShift n + i ∈ L w) ∧
      after.extraOf = update before.extraOf (indexShift n + i)
        (stamp (before.extraOf (indexShift n + i))) ∧
      ∃ M, Valid n size after M ∧ M (.alloc c) = L (.alloc c) ++ [indexShift n + i] ∧
        ∀ d, d ≠ c → M (.alloc d) = L (.alloc d)

/-- Linking a taken cell behind an allocated list completes the allocation. -/
theorem valid_append {before mid after : Cells ε} (valid : Valid n size before L) (c : Fin n)
    (taken : Taken before mid L x)
    (next : after.nextOf = update (update mid.nextOf x (allocHead c)) (mid.prevOf (allocHead c)) x)
    (prev : after.prevOf = update (update mid.prevOf x (mid.prevOf (allocHead c))) (allocHead c) x)
    (ind : after.indOf = update mid.indOf x (allocHead c)) :
    ∃ M, Valid n size after M ∧ M (.alloc c) = L (.alloc c) ++ [x] ∧
      ∀ d, d ≠ c → M (.alloc d) = L (.alloc d) := by
  obtain ⟨⟨w, free, member⟩, M, relinked, loose⟩ := taken
  have layout := relinked.layout.append c loose
  refine ⟨update M (.alloc c) (M (.alloc c) ++ [x]), ⟨?_, fun y => ?_, fun d y here => ?_,
    fun i within absent => ?_⟩, by rw [update_self, relinked.stock.alloc], fun d other => ?_⟩
  · rw [next, prev]
    exact layout
  · rw [← valid.cover y]
    simp only [Chains.mem_append, exists_or, relinked.stock.members y]
    by_cases same : y = x
    · simpa [same] using ⟨w, member⟩
    · simp [same]
  · rw [ind, relinked.ind]
    rcases Chains.mem_append.mp here with old | ⟨rfl, same⟩
    · rw [update_of_ne (fun same => loose.2 _ (same ▸ old))]
      exact valid.allocated d y (relinked.stock.alloc d ▸ old)
    · rw [update_self, ListId.alloc.inj same]
  · rw [ind, relinked.ind, update_of_ne]
    · refine valid.unallocated i within fun d old => absent d (Chains.mem_append.mpr (Or.inl ?_))
      rw [relinked.stock.alloc]
      exact old
    · exact fun same => absent c (Chains.mem_append.mpr (Or.inr ⟨same, rfl⟩))
  · rw [update_of_ne (fun same => other (ListId.alloc.inj same)), relinked.stock.alloc]

/-- An allocation finds a free index whenever there is one, under any locks it holds. -/
theorem post_allocateNewIndex (stamp : ε → ε) (valid : Valid n size t.cells L) (c : Fin n) :
    Post (allocateNewIndex stamp n c.val) grants t fun result t' =>
      Allocated size stamp c t.cells L result t'.cells := by
  refine post_bind.mpr ((post_getFreeIndex valid (ListId.free_isFree c) rfl).mono fun found t' outcome => ?_)
  cases found with
  | none => exact outcome
  | some pair =>
    obtain ⟨x, allocp⟩ := pair
    obtain ⟨rfl, taken⟩ := outcome
    have taken' := taken
    obtain ⟨⟨w, free, member⟩, M, relinked, loose⟩ := taken'
    obtain ⟨i, within, rfl⟩ := (valid.cover x).mp ⟨w, member⟩
    have apart : indexShift n + i ≠ allocHead c := Layout.ne_head loose (.alloc c)
    refine post_bind.mpr ((post_install stamp rfl apart).mono fun _ t'' installed => ?_)
    obtain ⟨next, prev, ind, extra⟩ := installed
    simp only [post_pure, Nat.add_sub_cancel_left]
    refine ⟨within, ⟨w, free, member⟩, ?_, valid_append valid c taken next prev ind⟩
    rw [extra, relinked.extra]

end Steps
end Nfos.AllocateIndex
