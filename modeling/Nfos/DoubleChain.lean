import Nfos.AllocateIndex
import Nfos.InitialCells
import Nfos.Lib.Allocator

/-! `NfosDoubleChain`: a transactional index allocator without expiry. Its
committed calls refine a set allocator over the indexes on the free lists. -/
namespace Nfos.DoubleChain
open Txn Tx CellField Function Linked Run

abbrev NfosDchainCell := Cell Unit

def initWrites (numCores : Nat) : InitWrites (Cells Unit) where
  allocHead i cells := ((cells.setPrev i i).setNext i i).setInd i (i - allocListHead)
  freeHead i v cells := ((cells.setNext i v).setPrev i v).setInd i (i - freeListHead numCores)
  globHead cells :=
    ((cells.setNext (globalFreeListHead numCores) (globalFreeListHead numCores)).setPrev
      (globalFreeListHead numCores) (globalFreeListHead numCores)).setInd
        (globalFreeListHead numCores) (-1)
  freeCell i v cells := ((cells.setNext i v).setPrev i v).setInd i (-1)

/-- No loop of the initialisation takes more than `size + num_cores` iterations
when it ends at all. -/
def nfosDchainImplInit (cells : Cells Unit) (size numCores : Nat) : Option (Cells Unit) :=
  initLists (initWrites numCores) (size + numCores) size numCores cells

def nfosDchainImplAllocateNewIndex (numCores core : Nat) : Tx NfosDchainCell (Option Nat) :=
  AllocateIndex.allocateNewIndex id numCores core

/-- Extract a link from the "alloc" chain. No object is locked twice. -/
def unlink (freedPrev freedNext : Nat) : Tx NfosDchainCell Unit := do
  if freedPrev ≠ freedNext then
    let freedPrevp ← tryLockAt freedPrev
    let freedNextp ← tryLockAt freedNext
    setNext freedPrevp freedNext
    setPrev freedNextp freedPrev
  else
    let freedPrevp ← tryLockAt freedPrev
    setNext freedPrevp freedNext
    setPrev freedPrevp freedPrev

/-- Add a link to the "free" chain of a core. -/
def linkFree (numCores core freed : Nat) (freedp : Ref NfosDchainCell) : Tx NfosDchainCell Unit := do
  let frHead ← deref (freeListHead numCores + core <<< listHeadPadding)
  let freedp ← tryLock freedp
  setNext freedp (← next frHead)
  setPrev freedp (← next freedp)
  setListInd freedp (-1)
  let frHead ← tryLock frHead
  setNext frHead freed
  setPrev frHead (← next frHead)

/-- `true` for the return value 1, `false` for 0. -/
def nfosDchainImplFreeIndex (numCores index core : Nat) : Tx NfosDchainCell Bool := do
  let freed := index + indexShift numCores
  let freedp ← deref freed
  if (← listInd freedp) = -1 then
    return false
  else
    unlink (← prev freedp) (← next freedp)
    linkFree numCores core freed freedp
    return true

section Steps
variable {n size : Nat} {grants : Nat → Bool} {t : Log NfosDchainCell} {L : ListId n → List Nat}

theorem cellWrites (n : Nat) : CellWrites n (initWrites n) where
  next := ⟨by simp [initWrites], by simp [initWrites], by simp [initWrites], by simp [initWrites]⟩
  prev := ⟨by simp [initWrites], by simp [initWrites], by simp [initWrites], by simp [initWrites]⟩
  ind := by simp [initWrites]

/-- Initialisation ends, with every covered index on the free list of a core. -/
theorem init_valid (cores : 0 < n) (room : n ≤ size) (cells : Cells Unit) :
    ∃ s, nfosDchainImplInit cells size n = some s ∧ Valid n size s (initialLists n size) := by
  have positive : 0 < size / n := Nat.div_pos room cores
  exact ⟨_, initLists_eq (initWrites n) (size + n) positive (Nat.le_refl _) cells,
    (cellWrites n).valid cells positive⟩

/-- The outcome of freeing index `i`, which is put on the free list `w`. -/
def FreedTo (n size : Nat) (i : Nat) (before : Cells Unit) (L : ListId n → List Nat) (w : ListId n) :
    Bool → Cells Unit → Prop
  | false, after => after = before ∧ ∀ c, indexShift n + i ∉ L (.alloc c)
  | true, after => ∃ c l m, L (.alloc c) = l ++ (indexShift n + i) :: m ∧
      Valid n size after (update (update L (.alloc c) (l ++ m)) w ((indexShift n + i) :: L w))

/-- The outcome of freeing index `i` by core `d`, which need not be the core on
whose allocated list it is. -/
def Freed (n size : Nat) (i : Nat) (before : Cells Unit) (L : ListId n → List Nat) (d : Fin n) :
    Bool → Cells Unit → Prop
  | false, after => after = before ∧ ∀ c, indexShift n + i ∉ L (.alloc c)
  | true, after => ∃ c l m, L (.alloc c) = l ++ (indexShift n + i) :: m ∧
      Valid n size after (update (update L (.alloc c) (l ++ m)) (.free d)
        ((indexShift n + i) :: L (.free d)))

theorem post_unlink (p q : Nat) : Post (unlink p q) grants t fun _ t' =>
    t'.cells.nextOf = update t.cells.nextOf p q ∧ t'.cells.prevOf = update t.cells.prevOf q p ∧
      t'.cells.indOf = t.cells.indOf := by
  refine post_ite (fun _ => ?_) (fun same => ?_)
  · refine post_bind.mpr (post_tryLockAt (post_bind.mpr (post_tryLockAt ?_)))
    simp
  · refine post_bind.mpr (post_tryLockAt ?_)
    simp [not_not.mp same]

theorem post_linkFree {core h : Nat} (head : freeListHead n + core <<< listHeadPadding = h) {x : Nat}
    {freedp : Ref NfosDchainCell} (object : freedp.object = x) :
    Post (linkFree n core x freedp) grants t fun _ t' =>
      t'.cells.nextOf = update (update t.cells.nextOf x (t.cells.nextOf h)) h x ∧
      t'.cells.prevOf = update (update t.cells.prevOf x (t.cells.nextOf h)) h x ∧
      t'.cells.indOf = update t.cells.indOf x (-1) := by
  simp only [linkFree, head, post_bind, post_deref]
  refine post_tryLock ?_
  simp only [object, post_next, post_setNext, post_setPrev, post_setListInd]
  refine post_tryLock ?_
  simp

/-- `w` is the list whose head the caller takes for its own free list. -/
theorem post_freeIndexTo (valid : Valid n size t.cells L) {w : ListId n} (free : w.IsFree) {core : Nat}
    (head : freeListHead n + core <<< listHeadPadding = w.head) {i : Nat} (within : i < size) :
    Post (nfosDchainImplFreeIndex n i core) grants t fun result t' =>
      FreedTo n size i t.cells L w result t'.cells := by
  simp only [nfosDchainImplFreeIndex, Nat.add_comm i, post_bind, post_deref, post_listInd,
    Log.indAt_ref]
  refine post_ite (fun minus => ?_) (fun marked => ?_)
  · exact ⟨rfl, (valid.ind_eq_neg_one within).mp minus⟩
  · obtain ⟨c, member⟩ : ∃ c, indexShift n + i ∈ L (.alloc c) := by
      simpa [valid.ind_eq_neg_one within] using marked
    obtain ⟨l, m, split⟩ := List.append_of_mem member
    simp only [post_bind, post_prev, post_next, Log.prevAt_ref, Log.nextAt_ref]
    refine (post_unlink _ _).mono fun _ t' unlinked => ?_
    refine (post_linkFree head (Log.object_ref _ _)).mono fun _ t'' linked => ?_
    obtain ⟨next, prev, ind⟩ := unlinked
    obtain ⟨next', prev', ind'⟩ := linked
    rw [next, valid.layout.next_update_prev split (free c)] at next' prev'
    rw [prev] at prev'
    rw [ind] at ind'
    exact ⟨c, l, m, split, valid.release free split next' prev' ind'⟩

theorem post_freeIndex (valid : Valid n size t.cells L) (d : Fin n) {i : Nat} (within : i < size) :
    Post (nfosDchainImplFreeIndex n i d.val) grants t fun result t' =>
      Freed n size i t.cells L d result t'.cells := by
  apply (post_freeIndexTo valid (ListId.free_isFree d) rfl within).mono
  intro result t' outcome
  cases result with
  | false => exact outcome
  | true => exact outcome

end Steps

/-- A call of one of the data-plane cores. -/
inductive Call (n size : Nat) where
  | allocate (core : Fin n)
  | free (index : Fin size) (core : Fin n)

/-- What a committed call reports. -/
def event {n size : Nat} : Call n size → Txn.Tx NfosDchainCell (Allocator.Event Nat)
  | .allocate core => do
    match ← nfosDchainImplAllocateNewIndex n core.val with
    | none => return .exhausted
    | some i => return .allocated i
  | .free index core => do
    match ← nfosDchainImplFreeIndex n index.val core.val with
    | false => return .refused index.val
    | true => return .freed index.val

/-- A committed call, with any locks granted that it needs. -/
def Step (n size : Nat) (s : Cells Unit) (e : Call n size × Allocator.Event Nat) (s' : Cells Unit) : Prop :=
  ∃ grants, atomically (event e.1) grants s = some (e.2, s')

section Refinement
variable {n size : Nat} {s s' : Cells Unit} {L M : ListId n → List Nat}

/-- The indexes that are handed out in a state. -/
def allocated (n size : Nat) (s : Cells Unit) : Set Nat :=
  {i | i < size ∧ s.indOf (indexShift n + i) ≠ -1}

theorem mem_allocated (valid : Valid n size s L) {i : Nat} :
    i ∈ allocated n size s ↔ ∃ c, indexShift n + i ∈ L (.alloc c) := by
  constructor
  · rintro ⟨within, marked⟩
    simpa [valid.ind_eq_neg_one within] using marked
  · rintro ⟨c, member⟩
    obtain ⟨j, covers, same⟩ := (valid.cover _).mp ⟨_, member⟩
    have within : i < size := by
      have := covered_le n size
      omega
    refine ⟨within, ?_⟩
    rw [ne_eq, valid.ind_eq_neg_one within]
    exact fun absent => absent c member

theorem mem_lists_iff (valid : Valid n size s L) {i : Nat} :
    (∃ w, indexShift n + i ∈ L w) ↔ i ∈ stock n size := by
  rw [valid.cover, mem_stock]
  simp

/-- An allocation moves one index of the stock to the set of those handed out. -/
theorem allocate_refines (valid : Valid n size s L) (c : Fin n) {result : Option Nat}
    (outcome : AllocateIndex.Allocated size id c s L result s') :
    (∃ M : ListId n → List Nat, Valid n size s' M) ∧
      Allocator.Step (stock n size) (allocated n size s)
        (match result with | none => .exhausted | some i => .allocated i) (allocated n size s') := by
  cases result with
  | none =>
    obtain ⟨rfl, empty⟩ := outcome
    refine ⟨⟨L, valid⟩, .exhaust fun i stocked => (mem_allocated valid).mpr ?_⟩
    obtain ⟨w, member⟩ := (mem_lists_iff valid).mpr stocked
    cases w with
    | alloc c => exact ⟨c, member⟩
    | free c => simp [empty _ (ListId.free_isFree c)] at member
    | glob => simp [empty _ ListId.glob_isFree] at member
  | some i =>
    obtain ⟨within, ⟨w, free, member⟩, _, M, valid', own, others⟩ := outcome
    have grown : allocated n size s' = insert i (allocated n size s) := by
      ext j
      rw [mem_allocated valid', Set.mem_insert_iff, mem_allocated valid]
      constructor
      · rintro ⟨d, here⟩
        by_cases same : d = c
        · subst same
          rw [own, List.mem_append, List.mem_singleton, Nat.add_left_cancel_iff] at here
          exact here.symm.imp_right fun old => ⟨d, old⟩
        · rw [others d same] at here
          exact Or.inr ⟨d, here⟩
      · rintro (rfl | ⟨d, old⟩)
        · exact ⟨c, by simp [own]⟩
        · by_cases same : d = c
          · subst same
            exact ⟨d, by simp [own, old]⟩
          · exact ⟨d, by rwa [others d same]⟩
    refine ⟨⟨M, valid'⟩, ?_⟩
    rw [grown]
    refine .allocate (mem_stock.mpr within) fun before => ?_
    obtain ⟨d, there⟩ := (mem_allocated valid).mp before
    exact free d (valid.layout.forward.apart member there)

/-- A free takes exactly the freed index back. -/
theorem free_refines (valid : Valid n size s L) (d : Fin n) {i : Nat} {result : Bool}
    (outcome : Freed n size i s L d result s') :
    (∃ M : ListId n → List Nat, Valid n size s' M) ∧
      Allocator.Step (stock n size) (allocated n size s)
        (match result with | false => .refused i | true => .freed i) (allocated n size s') := by
  cases result with
  | false =>
    obtain ⟨rfl, absent⟩ := outcome
    refine ⟨⟨L, valid⟩, .refuse fun present => ?_⟩
    obtain ⟨c, member⟩ := (mem_allocated valid).mp present
    exact absent c member
  | true =>
    obtain ⟨c, l, m, split, valid'⟩ := outcome
    have shrunk : allocated n size s' = allocated n size s \ {i} := by
      ext j
      rw [mem_allocated valid', Set.mem_sdiff, mem_allocated valid, Set.mem_singleton_iff]
      simp only [ne_eq, reduceCtorEq, not_false_eq_true, update_of_ne,
        valid.layout.forward.mem_cut split, exists_and_right, Nat.add_left_cancel_iff]
    refine ⟨⟨_, valid'⟩, ?_⟩
    rw [shrunk]
    exact .free ((mem_allocated valid).mpr ⟨c, by simp [split]⟩)

/-- One call, from any well-formed state and under any contention. -/
theorem post_event {g : Nat → Bool} (valid : Valid n size s L) (call : Call n size) :
    Post (event call) g (.start s) fun report t =>
      (∃ M : ListId n → List Nat, Valid n size t.cells M) ∧
        Allocator.Step (stock n size) (allocated n size s) report (allocated n size t.cells) := by
  cases call with
  | allocate c =>
    refine post_bind.mpr ((AllocateIndex.post_allocateNewIndex id (t := .start s) valid c).mono
      fun result t outcome => ?_)
    have refined := allocate_refines valid c outcome
    cases result with
    | none => exact refined
    | some i => exact refined
  | free i d =>
    refine post_bind.mpr ((post_freeIndex (t := .start s) valid d i.isLt).mono
      fun result t outcome => ?_)
    have refined := free_refines valid d outcome
    cases result with
    | false => exact refined
    | true => exact refined

theorem step_refines {e : Call n size × Allocator.Event Nat} (valid : Valid n size s L)
    (step : Step n size s e s') :
    (∃ M : ListId n → List Nat, Valid n size s' M) ∧
      Allocator.Step (stock n size) (allocated n size s) e.2 (allocated n size s') := by
  obtain ⟨grants, ran⟩ := step
  obtain ⟨t, refined, rfl⟩ := (post_event valid e.1).commit ran
  exact refined

/-- Without contention every call commits, so no run is stuck. -/
theorem call_commits (valid : Valid n size s L) (call : Call n size) :
    ∃ report s', Step n size s (call, report) s' := by
  obtain ⟨report, t, ran, _⟩ := (post_event (g := fun _ => true) valid call).commits fun _ => rfl
  exact ⟨report, _, _, ran⟩

theorem allocated_initial (valid : Valid n size s (initialLists n size)) : allocated n size s = ∅ := by
  ext i
  simp [mem_allocated valid, initialLists]

/-- Whatever the cores call and whatever aborts, the committed calls keep the
cells well formed over the initial stock and are those of a set allocator. -/
theorem nfosDchain_refines_set_allocator (cores : 0 < n) (room : n ≤ size) (cells : Cells Unit) :
    ∃ s, nfosDchainImplInit cells size n = some s ∧ Valid n size s (initialLists n size) ∧
      ∀ history t, Trace (Step n size) s history t →
        (∃ L : ListId n → List Nat, Valid n size t L ∧
          ∀ i, (∃ w, indexShift n + i ∈ L w) ↔ i ∈ stock n size) ∧
        Trace (fun taken (e : Call n size × Allocator.Event Nat) =>
          Allocator.Step (stock n size) taken e.2) ∅ history (allocated n size t) := by
  obtain ⟨s, ended, initial⟩ := init_valid cores room cells
  refine ⟨s, ended, initial, fun history t run => ?_⟩
  have kept : (∃ L : ListId n → List Nat, Valid n size t L) ∧
      Trace (fun taken (e : Call n size × Allocator.Event Nat) =>
        Allocator.Step (stock n size) taken e.2) ∅ history (allocated n size t) := by
    refine run.rule (P := fun history t => (∃ L : ListId n → List Nat, Valid n size t L) ∧
      Trace _ ∅ history (allocated n size t)) ?_ fun past t e u _ before last => ?_
    · rw [allocated_initial initial]
      exact ⟨⟨_, initial⟩, .start⟩
    · obtain ⟨⟨L, valid⟩, abstract⟩ := before
      obtain ⟨valid', refined⟩ := step_refines valid last
      exact ⟨valid', abstract.extend refined⟩
  obtain ⟨⟨L, valid⟩, abstract⟩ := kept
  exact ⟨⟨L, valid, fun i => mem_lists_iff valid⟩, abstract⟩

/-- Five indexes over two cores: the fifth one is on no list. -/
theorem nfosDchain_refines_two_cores : 0 < 2 ∧ 2 ≤ 5 ∧ ∀ cells : Cells Unit,
    ∃ s, nfosDchainImplInit cells 5 2 = some s ∧ Valid 2 5 s (initialLists 2 5) ∧
      ∀ history t, Trace (Step 2 5) s history t →
        (∃ L : ListId 2 → List Nat, Valid 2 5 t L ∧
          ∀ i, (∃ w, indexShift 2 + i ∈ L w) ↔ i ∈ stock 2 5) ∧
        Trace (fun taken (e : Call 2 5 × Allocator.Event Nat) =>
          Allocator.Step (stock 2 5) taken e.2) ∅ history (allocated 2 5 t) :=
  ⟨by decide, by decide, fun cells => nfosDchain_refines_set_allocator (by decide) (by decide) cells⟩

end Refinement
end Nfos.DoubleChain
