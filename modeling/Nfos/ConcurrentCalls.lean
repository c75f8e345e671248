import Nfos.ConcurrentExclusion
import Nfos.ConcurrentMap

/-! Calls of `ConcurrentDoubleChain` that no other core interrupts: the sections
of a call run one after another from a state in which all cores are idle. -/
namespace Nfos.ConcurrentDoubleChain
open Function Linked CellData
variable {Id : Type}

section Calls
variable (numCores index core : Nat) (time : Int) (cells : ConcurrentDchainCells Id)

def concurrentDchainImplAllocateNewIndex : Option Nat × ConcurrentDchainCells Id :=
  match popLocal numCores core cells with
  | (none, cells) => (none, cells)
  | (some allocated, cells) => (some (allocated - indexShift numCores), linkNew core allocated time cells)

def concurrentDchainImplAllocateNewIndexGlobal : Option Nat × ConcurrentDchainCells Id :=
  let glbFlHead := globalFreeListHead numCores
  let cells :=
    if cells.nextOf glbFlHead = globalFreeListHead numCores then
      (List.range numCores).foldl (fun cells i => fillGlobalFreeList numCores i cells) cells
    else cells
  let allocated := cells.nextOf glbFlHead
  if allocated = globalFreeListHead numCores then
    (none, cells)
  else
    (some (allocated - indexShift numCores),
      linkNew core allocated time (popGlobal numCores allocated cells))

/-- Try to get an index from the global pool if the local pool is empty. -/
def concurrentDchainAllocateNewIndex : Option Nat × ConcurrentDchainCells Id :=
  match concurrentDchainImplAllocateNewIndex numCores core time cells with
  | (some index, cells) => (some index, cells)
  | (none, cells) => concurrentDchainImplAllocateNewIndexGlobal numCores core time cells

def concurrentDchainFreeIndex : Bool × ConcurrentDchainCells Id :=
  match unlinkFreed numCores index core cells with
  | none => (false, cells)
  | some cells => (true, pushFreed numCores core (index + indexShift numCores) cells)

def concurrentDchainHasExpiredIndex : Option Nat :=
  match concurrentDchainImplGetOldestIndex numCores core cells with
  | none => none
  | some index =>
    if timeOf cells (concurrentDchainCellOut numCores index) < time then some index else none

end Calls

variable {n size i : Nat} {cells : ConcurrentDchainCells Id} {L M : ListId n → List Nat} {c : Fin n}
  {l m : List Nat} {s : System n Id}

/-- With all cores idle the invariant of the interleavings is the sequential one. -/
theorem Sound.valid (sound : Sound n size s L) (idle : ∀ c, s.pc c = .idle) : Valid n size s.cells L where
  layout := sound.layout
  cover x := by
    rw [← sound.stocked.cover x]
    simp [idle, Pc.held]
  allocated c x member := by
    obtain ⟨i, covers, rfl⟩ := (sound.stocked.cover x).mp (Or.inl ⟨_, member⟩)
    exact (sound.names.owner i (Nat.lt_of_lt_of_le covers (covered_le n size)) c).mpr (Or.inl member)
  unallocated i within absent := by
    apply sound.ind_of_not_owns within
    rintro d (member | leaving)
    · exact absent d member
    · rw [idle d] at leaving
      contradiction

theorem goto_idle (idle : ∀ d, d ≠ c → s.pc d = .idle) (d : Fin n) : (s.goto c .idle).pc d = .idle := by
  by_cases same : d = c
  · rw [same]
    exact update_self _ _ _
  · exact (update_of_ne same _ _).trans (idle d same)

/-- An allocation takes the first index of the own free list. -/
theorem allocateNewIndex_spec (valid : Valid n size cells L) (split : L (.free c) = (indexShift n + i) :: l)
    (time : Int) :
    ∃ after, concurrentDchainAllocateNewIndex n c.val time cells = (some i, after) ∧
      Valid n size after (update (update L (.free c) l) (.alloc c) (L (.alloc c) ++ [indexShift n + i])) ∧
      after.extraOf = update cells.extraOf (indexShift n + i)
        { cells.extraOf (indexShift n + i) with time := time } := by
  obtain ⟨result, layout, ind, extra⟩ := popLocal_cons valid.layout split
  have sound := sound_start valid
  have popped : Sound n size ⟨(popLocal n c.val cells).2, none, fun _ => none,
      update (fun _ => .idle) c (.linking (indexShift n + i) time)⟩ (update L (.free c) l) :=
    sound.pop (ListId.free_isFree c) split none layout ind rfl (fun _ _ inside => inside.elim)
      (fun h => by contradiction)
  obtain ⟨_, _, linkedExtra⟩ := linkNew_spec popped.layout c
    (popped.stocked.loose (c := c) (x := indexShift n + i) (by simp [Pc.held])) time
  have here : update (fun _ => Pc.idle) c (.linking (indexShift n + i) time) c =
      .linking (indexShift n + i) time := update_self _ _ _
  have linked := popped.link here
  rw [update_of_ne (by simp)] at linked
  refine ⟨_, ?_, linked.valid (goto_idle fun d other => update_of_ne other _ fun _ => Pc.idle), ?_⟩
  · have ran : popLocal n c.val cells = (some (indexShift n + i), (popLocal n c.val cells).2) :=
      Prod.ext result rfl
    rw [concurrentDchainAllocateNewIndex, concurrentDchainImplAllocateNewIndex, ran]
    dsimp only
    rw [Nat.add_sub_cancel_left]
    rfl
  · exact linkedExtra.trans (by rw [extra])

/-- A freed index is the first of the own free list. -/
theorem freeIndex_spec (valid : Valid n size cells L)
    (split : L (.alloc c) = l ++ (indexShift n + i) :: m) :
    ∃ after, concurrentDchainFreeIndex n i c.val cells = (true, after) ∧
      Valid n size after (update (update L (.alloc c) (l ++ m)) (.free c)
        ((indexShift n + i) :: L (.free c))) ∧ after.extraOf = cells.extraOf := by
  have named := valid.allocated c (indexShift n + i) (by simp [split])
  obtain ⟨between, ran, layout, ind, extra⟩ := unlinkFreed_spec valid.layout split named
  have unlinked := (sound_start valid).unlink (c := c) rfl split layout ind
  obtain ⟨_, _, pushedExtra⟩ := pushFreed_spec unlinked.layout c
    (unlinked.stocked.loose (c := c) (x := indexShift n + i) (by simp [System.goto, Pc.held]))
  have pushed := unlinked.push (update_self c _ _)
  rw [update_of_ne (by simp)] at pushed
  refine ⟨_, ?_, pushed.valid (goto_idle fun d other => update_of_ne other _ _), pushedExtra.trans extra⟩
  rw [concurrentDchainFreeIndex, ran, Nat.add_comm i]
  rfl

theorem mem_lift (split : L (.alloc c) = l ++ (indexShift n + i) :: m) (w : ListId n) (y : Nat) :
    y ∈ update L (.alloc c) (l ++ m ++ [indexShift n + i]) w ↔ y ∈ L w := by
  by_cases same : w = .alloc c
  · subst same
    rw [update_self, split]
    simp only [List.mem_append, List.mem_cons, List.not_mem_nil, or_false]
    tauto
  · rw [update_of_ne same]

/-- A rejuvenated index is the newest of its list and has the new time. -/
theorem rejuvenateIndex_valid (valid : Valid n size cells L)
    (split : L (.alloc c) = l ++ (indexShift n + i) :: m) (more : ¬ (l = [] ∧ m = [])) (time : Int) :
    ∃ after, concurrentDchainImplRejuvenateIndex n i c.val time cells = (true, after) ∧
      Valid n size after (update L (.alloc c) (l ++ m ++ [indexShift n + i])) ∧
      after.extraOf = update cells.extraOf (indexShift n + i)
        { cells.extraOf (indexShift n + i) with time := time } := by
  have named := valid.allocated c (indexShift n + i) (by simp [split])
  obtain ⟨after, ran, layout, ind, extra⟩ :=
    rejuvenateIndex_spec valid.layout valid.bound split more named time
  have lifted := (sound_start valid).rejuvenate split rfl layout ind
  exact ⟨after, ran, lifted.valid fun _ => rfl, extra⟩

theorem hasExpiredIndex_nil (valid : Valid n size cells L) (empty : L (.alloc c) = []) (time : Int) :
    concurrentDchainHasExpiredIndex n c.val time cells = none := by
  rw [concurrentDchainHasExpiredIndex, getOldestIndex_nil valid.layout empty]

theorem hasExpiredIndex_cons (valid : Valid n size cells L) (split : L (.alloc c) = (indexShift n + i) :: l)
    (time : Int) : concurrentDchainHasExpiredIndex n c.val time cells =
      if timeOf cells (indexShift n + i) < time then some i else none := by
  have cell : concurrentDchainCellOut n i = indexShift n + i := by
    rw [concurrentDchainCellOut]
    omega
  rw [concurrentDchainHasExpiredIndex, getOldestIndex_cons valid.layout split]
  simp only [cell]

end Nfos.ConcurrentDoubleChain
