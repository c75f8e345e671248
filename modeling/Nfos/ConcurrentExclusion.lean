import Nfos.ConcurrentInvariant
import Nfos.InitialInts

/-! No interleaving loses an index or hands one out twice. -/
namespace Nfos.ConcurrentDoubleChain
open Function Linked Run
variable {Id : Type} {n size : Nat} {s s' : System n Id} {L : ListId n → List Nat} {c : Fin n}
  {e : Event n}

/-- The indexes that are handed out, those being freed included. -/
def taken (n size : Nat) (s : System n Id) : Set Nat :=
  {i | i < size ∧ s.cells.indOf (indexShift n + i) ≠ -1}

/-- What a step means for the indexes that are handed out. -/
def Handed (n size : Nat) (s : System n Id) (e : Event n) (s' : System n Id) : Prop :=
  match e with
  | .allocated _ i => Allocator.Step (stock n size) (taken n size s) (.allocated i) (taken n size s')
  | .freed _ i => Allocator.Step (stock n size) (taken n size s) (.freed i) (taken n size s')
  | _ => taken n size s' = taken n size s

theorem taken_congr (ind : s'.cells.indOf = s.cells.indOf) : taken n size s' = taken n size s := by
  unfold taken
  rw [ind]

/-- The owner of an index that its core may free or rejuvenate. -/
theorem Sound.split_of_named (sound : Sound n size s L) (idle : s.pc c = .idle) {i : Nat}
    (within : i < size) (named : s.cells.indOf (indexShift n + i) = allocHead c) :
    ∃ l m, L (.alloc c) = l ++ (indexShift n + i) :: m := by
  rcases (sound.names.owner i within c).mp named with member | leaving
  · exact List.append_of_mem member
  · rw [idle] at leaving
    contradiction

/-- An index that is not allocated in a partition is refused there. -/
theorem Sound.refused (sound : Sound n size s L) (idle : s.pc c = .idle) {i : Nat} (within : i < size)
    (absent : indexShift n + i ∉ L (.alloc c)) :
    unlinkFreed n i c.val s.cells = none ∧ ∀ time,
      concurrentDchainImplRejuvenateIndex n i c.val time s.cells = (false, s.cells) := by
  have other : s.cells.indOf (indexShift n + i) ≠ allocHead c := by
    intro named
    obtain ⟨l, m, split⟩ := sound.split_of_named idle within named
    exact absent (by simp [split])
  exact ⟨unlinkFreed_refused other, rejuvenateIndex_refused other⟩

theorem Sound.unlinked {i : Nat} {cells : ConcurrentDchainCells Id} (sound : Sound n size s L)
    (idle : s.pc c = .idle) (within : i < size) (ran : unlinkFreed n i c.val s.cells = some cells) :
    (∃ M, Sound n size ((s.write cells).goto c (.unlinked (indexShift n + i))) M) ∧
      cells.indOf = s.cells.indOf := by
  by_cases named : s.cells.indOf (indexShift n + i) = allocHead c
  · obtain ⟨l, m, split⟩ := sound.split_of_named idle within named
    obtain ⟨after, result, layout, ind, _⟩ := unlinkFreed_spec sound.layout split named
    rw [result] at ran
    cases Option.some.inj ran
    exact ⟨⟨_, sound.unlink idle split layout ind⟩, ind⟩
  · rw [unlinkFreed_refused named] at ran
    contradiction

theorem Sound.rejuvenated {i : Nat} {time : Int} {done : Bool} {cells : ConcurrentDchainCells Id}
    (sound : Sound n size s L) (idle : s.pc c = .idle) (within : i < size)
    (ran : concurrentDchainImplRejuvenateIndex n i c.val time s.cells = (done, cells)) :
    (∃ M, Sound n size (s.write cells) M) ∧ cells.indOf = s.cells.indOf := by
  by_cases named : s.cells.indOf (indexShift n + i) = allocHead c
  · obtain ⟨l, m, split⟩ := sound.split_of_named idle within named
    by_cases single : l = [] ∧ m = []
    · obtain ⟨rfl, rfl⟩ := single
      rw [rejuvenateIndex_single sound.layout split named] at ran
      cases ran
      exact ⟨⟨L, sound⟩, rfl⟩
    · obtain ⟨after, result, layout, ind, _⟩ :=
        rejuvenateIndex_spec sound.layout sound.stocked.bound split single named time
      rw [result] at ran
      cases ran
      exact ⟨⟨_, sound.rejuvenate split idle layout ind⟩, ind⟩
  · rw [rejuvenateIndex_refused named] at ran
    cases ran
    exact ⟨⟨L, sound⟩, rfl⟩

/-- The head of the global list, as the code reads it. -/
theorem Sound.global_front (sound : Sound n size s L) :
    (s.cells.nextOf (globalFreeListHead n) = globalFreeListHead n ∧ L .glob = []) ∨
      ∃ l, L .glob = s.cells.nextOf (globalFreeListHead n) :: l := by
  cases split : L .glob with
  | nil => exact Or.inl ⟨sound.layout.forward.nil_iff.mp split, rfl⟩
  | cons x l =>
    have first : s.cells.nextOf (globalFreeListHead n) = x := sound.layout.forward.first split
    exact Or.inr ⟨l, by rw [first]⟩

/-- A cell without an owner is marked free. -/
theorem Sound.ind_of_not_owns {i : Nat} (sound : Sound n size s L) (within : i < size)
    (none : ∀ d, ¬ Owns L s.pc d (indexShift n + i)) : s.cells.indOf (indexShift n + i) = -1 := by
  rcases sound.names.orphan i within with minus | ⟨d, named⟩
  · exact minus
  · exact absurd ((sound.names.owner i within d).mp named) (none d)

theorem Sound.within_of_held {x : Nat} (sound : Sound n size s L) (holds : (s.pc c).held = some x) :
    ∃ i < covered n size, x = indexShift n + i := (sound.stocked.cover x).mp (Or.inr ⟨c, holds⟩)

theorem Sound.handed_link {x : Nat} {time : Int} (sound : Sound n size s L)
    (here : s.pc c = .linking x time) :
    Handed n size s (.allocated c (x - indexShift n))
      ((s.write (linkNew c.val x time s.cells)).goto c .idle) := by
  have holds : (s.pc c).held = some x := by rw [here]; rfl
  obtain ⟨_, ind, _⟩ := linkNew_spec sound.layout c (sound.stocked.loose holds) time
  obtain ⟨i, covers, rfl⟩ := sound.within_of_held holds
  have within : i < size := Nat.lt_of_lt_of_le covers (covered_le n size)
  have minus := sound.ind_of_not_owns within (sound.not_owns here)
  have grown : taken n size ((s.write (linkNew c.val (indexShift n + i) time s.cells)).goto c .idle) =
      insert i (taken n size s) := by
    ext j
    rw [Set.mem_insert_iff]
    change j < size ∧ (linkNew c.val (indexShift n + i) time s.cells).indOf (indexShift n + j) ≠ -1 ↔
      j = i ∨ (j < size ∧ s.cells.indOf (indexShift n + j) ≠ -1)
    rw [ind]
    by_cases same : j = i
    · subst same
      rw [update_self]
      simp only [within, true_and, true_or, iff_true]
      exact (Names.ne_neg_one c).symm
    · rw [update_of_ne (by omega)]
      simp [same]
  rw [Nat.add_sub_cancel_left]
  change Allocator.Step _ _ _ _
  rw [grown]
  exact .allocate (mem_stock.mpr covers) fun before => before.2 minus

theorem Sound.handed_push {x : Nat} (sound : Sound n size s L) (here : s.pc c = .unlinked x) :
    Handed n size s (.freed c (x - indexShift n))
      ((s.write (pushFreed n c.val x s.cells)).goto c .idle) := by
  have holds : (s.pc c).held = some x := by rw [here]; rfl
  obtain ⟨_, ind, _⟩ := pushFreed_spec sound.layout c (sound.stocked.loose holds)
  obtain ⟨i, covers, rfl⟩ := sound.within_of_held holds
  have within : i < size := Nat.lt_of_lt_of_le covers (covered_le n size)
  have named : s.cells.indOf (indexShift n + i) = allocHead c :=
    (sound.names.owner i within c).mpr (Or.inr here)
  have shrunk : taken n size ((s.write (pushFreed n c.val (indexShift n + i) s.cells)).goto c .idle) =
      taken n size s \ {i} := by
    ext j
    rw [Set.mem_sdiff, Set.mem_singleton_iff]
    change j < size ∧ (pushFreed n c.val (indexShift n + i) s.cells).indOf (indexShift n + j) ≠ -1 ↔
      (j < size ∧ s.cells.indOf (indexShift n + j) ≠ -1) ∧ ¬ j = i
    rw [ind]
    by_cases same : j = i
    · subst same
      simp
    · rw [update_of_ne (by omega)]
      simp [same]
  rw [Nat.add_sub_cancel_left]
  change Allocator.Step _ _ _ _
  rw [shrunk]
  refine .free ⟨within, ?_⟩
  rw [named]
  exact (Names.ne_neg_one c).symm

/-- A cell on a free list is marked as free already. -/
theorem Sound.fill_ind (sound : Sound n size s L) (k : Fin n) :
    (fillGlobalFreeList n k.val s.cells).indOf = s.cells.indOf := by
  cases split : L (.free k) with
  | nil => rw [fillGlobalFreeList_nil sound.layout split]
  | cons x l =>
    have member : x ∈ L (.free k) := by simp [split]
    obtain ⟨_, ind, _⟩ := fillGlobalFreeList_cons sound.layout sound.stocked.bound split
    obtain ⟨i, covers, rfl⟩ := (sound.stocked.cover x).mp (Or.inl ⟨_, member⟩)
    have within : i < size := Nat.lt_of_lt_of_le covers (covered_le n size)
    rw [ind, update_eq_self_iff]
    exact (sound.ind_of_not_owns within (sound.not_owns_free (ListId.free_isFree k) member)).symm

/-- The oldest index of a partition is in range. -/
theorem Sound.oldest_lt {i : Nat} (sound : Sound n size s L)
    (oldest : concurrentDchainImplGetOldestIndex n c.val s.cells = some i) : i < size := by
  cases split : L (.alloc c) with
  | nil =>
    rw [getOldestIndex_nil sound.layout split] at oldest
    contradiction
  | cons x l =>
    have member : x ∈ L (.alloc c) := by simp [split]
    obtain ⟨j, covers, rfl⟩ := (sound.stocked.cover x).mp (Or.inl ⟨_, member⟩)
    rw [getOldestIndex_cons sound.layout split] at oldest
    rw [← Option.some.inj oldest]
    exact Nat.lt_of_lt_of_le covers (covered_le n size)

/-- Every step of every core keeps the invariant. -/
theorem step_sound (sound : Sound n size s L) (step : Step n size s e s') :
    (∃ M, Sound n size s' M) ∧ Handed n size s e s' := by
  cases step with
  | pop c time idle _ ran =>
    cases split : L (.free c) with
    | nil =>
      rw [popLocal_nil sound.layout split] at ran
      cases ran
    | cons y l =>
      obtain ⟨result, layout, ind, _⟩ := popLocal_cons sound.layout split
      rw [ran] at result layout ind
      cases Option.some.inj result
      exact ⟨⟨_, sound.pop (ListId.free_isFree c) split s.globalLock layout ind (by rw [idle]; rfl)
        (fun d _ => sound.guard d) (fun h => by contradiction)⟩, taken_congr ind⟩
  | miss c time idle _ ran =>
    cases split : L (.free c) with
    | nil =>
      rw [popLocal_nil sound.layout split] at ran
      cases ran
      exact ⟨⟨L, sound.pass s.globalLock s.lock (by rw [idle]; rfl) rfl (fun h => h.elim)
        (fun d _ => sound.guard d) (fun _ _ _ h => by contradiction)⟩, rfl⟩
    | cons y l =>
      obtain ⟨result, _⟩ := popLocal_cons sound.layout split
      rw [ran] at result
      contradiction
  | takeGlobal c here unlocked more =>
    rcases sound.global_front with ⟨empty, _⟩ | ⟨l, split⟩
    · exact absurd empty more
    · obtain ⟨layout, ind, _⟩ := popGlobal_spec sound.layout split
      refine ⟨⟨_, sound.pop ListId.glob_isFree split s.globalLock layout ind (by rw [here]; rfl)
        (fun d _ => sound.guard d) (fun _ d _ inside => ?_)⟩, taken_congr ind⟩
      have locked := sound.guard d inside
      rw [unlocked] at locked
      contradiction
  | enterGlobal c here unlocked _ =>
    refine ⟨⟨L, sound.pass (some c) s.lock (by rw [here]; rfl) rfl (fun _ => rfl)
      (fun d _ inside => ?_) (fun _ _ _ h => by contradiction)⟩, rfl⟩
    have locked := sound.guard d inside
    rw [unlocked] at locked
    contradiction
  | grab c k here _ =>
    have inside : (s.pc c).inside := by rw [here]; trivial
    exact ⟨⟨L, sound.pass s.globalLock _ (by rw [here]; rfl) rfl (fun _ => sound.guard c inside)
      (fun d _ => sound.guard d) (fun _ _ _ h => by contradiction)⟩, rfl⟩
  | grabbed c here =>
    have inside : (s.pc c).inside := by rw [here]; trivial
    exact ⟨⟨L, sound.pass s.globalLock s.lock (by rw [here]; rfl) rfl (fun _ => sound.guard c inside)
      (fun d _ => sound.guard d) (fun _ _ _ h => by contradiction)⟩, rfl⟩
  | fill c k here =>
    have inside : (s.pc c).inside := by rw [here]; trivial
    exact ⟨sound.fill inside (by rw [here]; rfl), taken_congr (sound.fill_ind k)⟩
  | filled c here =>
    have inside : (s.pc c).inside := by rw [here]; trivial
    refine ⟨⟨L, sound.pass s.globalLock s.lock (by rw [here]; rfl) rfl (fun _ => sound.guard c inside)
      (fun d _ => sound.guard d) (fun k x t same => ?_)⟩, rfl⟩
    cases same
    exact sound.global_front
  | release c k here =>
    have inside : (s.pc c).inside := by rw [here]; trivial
    refine ⟨⟨L, sound.pass s.globalLock _ (by rw [here]; rfl) rfl (fun _ => sound.guard c inside)
      (fun d _ => sound.guard d) (fun j x t same => ?_)⟩, rfl⟩
    cases same
    exact sound.front c _ _ _ here
  | takeFilled c here more =>
    have inside : (s.pc c).inside := by rw [here]; trivial
    rcases sound.front c _ _ _ here with ⟨empty, _⟩ | ⟨l, split⟩
    · exact absurd empty more
    · obtain ⟨layout, ind, _⟩ := popGlobal_spec sound.layout split
      exact ⟨⟨_, sound.pop ListId.glob_isFree split none layout ind (by rw [here]; rfl)
        (fun d other also => absurd also (sound.alone inside d other))
        (fun _ => sound.alone inside)⟩, taken_congr ind⟩
  | exhaust c here _ =>
    have inside : (s.pc c).inside := by rw [here]; trivial
    exact ⟨⟨L, sound.pass none s.lock (by rw [here]; rfl) rfl (fun h => h.elim)
      (fun d other also => absurd also (sound.alone inside d other))
      (fun _ _ _ h => by contradiction)⟩, rfl⟩
  | link c here => exact ⟨⟨_, sound.link here⟩, sound.handed_link here⟩
  | free c index idle ran =>
    obtain ⟨kept, ind⟩ := sound.unlinked idle index.isLt ran
    exact ⟨kept, taken_congr ind⟩
  | refuse c index idle ran => exact ⟨⟨L, sound⟩, rfl⟩
  | push c here _ => exact ⟨⟨_, sound.push here⟩, sound.handed_push here⟩
  | rejuvenate c index time idle ran =>
    obtain ⟨kept, ind⟩ := sound.rejuvenated idle index.isLt ran
    exact ⟨kept, taken_congr ind⟩
  | expire c time idle oldest _ ran =>
    obtain ⟨kept, ind⟩ := sound.unlinked idle (sound.oldest_lt oldest) ran
    exact ⟨kept, taken_congr ind⟩
  | keep c time idle _ => exact ⟨⟨L, sound⟩, rfl⟩

theorem cellWrites (n size : Nat) : CellWrites n (initWrites size n : InitWrites (ConcurrentDchainCells Id)) where
  next := ⟨by simp [initWrites], by simp [initWrites], by simp [initWrites], by simp [initWrites]⟩
  prev := ⟨by simp [initWrites], by simp [initWrites], by simp [initWrites], by simp [initWrites]⟩
  ind := by simp [initWrites]

theorem init_valid (cores : 0 < n) (room : n ≤ size) (cells : ConcurrentDchainCells Id) :
    concurrentDchainImplInit cells size n = some (initCells (initWrites size n) size n cells) ∧
      Valid n size (initCells (initWrites size n) size n cells) (initialLists n size) := by
  have positive : 0 < size / n := Nat.div_pos room cores
  exact ⟨initLists_eq _ _ positive (Nat.le_refl _) cells, (cellWrites n size).valid cells positive⟩

/-- No core has begun a call. -/
def System.start (cells : ConcurrentDchainCells Id) : System n Id :=
  ⟨cells, none, fun _ => none, fun _ => .idle⟩

theorem sound_start {cells : ConcurrentDchainCells Id} (valid : Valid n size cells L) :
    Sound n size (.start cells) L where
  layout := valid.layout
  stocked := {
    cover := fun x => by
      rw [← valid.cover x]
      simp [System.start, Pc.held]
    off := fun _ _ holds => by contradiction
    sole := fun _ _ _ holds => by contradiction }
  names := {
    owner := fun i within c => by
      constructor
      · intro named
        by_contra other
        have absent : ∀ d, indexShift n + i ∉ L (.alloc d) := by
          intro d member
          have equal := (valid.allocated d _ member).symm.trans named
          rw [Names.allocHead_cast_inj equal] at member
          exact other (Or.inl member)
        exact Names.ne_neg_one c ((valid.unallocated i within absent).symm.trans named)
      · rintro (member | leaving)
        · exact valid.allocated c _ member
        · contradiction
    orphan := fun i within => by
      by_cases minus : cells.indOf (indexShift n + i) = -1
      · exact Or.inl minus
      · obtain ⟨c, member⟩ : ∃ c, indexShift n + i ∈ L (.alloc c) := by
          simpa [valid.ind_eq_neg_one within] using minus
        exact Or.inr ⟨c, valid.allocated c _ member⟩ }
  guard _ inside := inside.elim
  front _ _ _ _ here := by contradiction

theorem taken_start {cells : ConcurrentDchainCells Id} (valid : Valid n size cells (initialLists n size)) :
    taken n size (.start cells : System n Id) = ∅ := by
  ext i
  simp only [taken, Set.mem_ofPred_eq, Set.mem_empty_iff_false, iff_false, not_and, not_not]
  intro within
  exact (valid.ind_eq_neg_one within).mpr fun c => List.not_mem_nil

/-- The part of a history that says who has which index. -/
def Event.handed : Event n → Option (Allocator.Event Nat)
  | allocated _ i => some (.allocated i)
  | freed _ i => some (.freed i)
  | _ => none

theorem handed_extend {taken₀ : Set Nat} {past : List (Event n)}
    (run : Trace (Allocator.Step (stock n size)) taken₀ (past.filterMap Event.handed) (taken n size s))
    (handed : Handed n size s e s') :
    Trace (Allocator.Step (stock n size)) taken₀ ((past ++ [e]).filterMap Event.handed)
      (taken n size s') := by
  rw [List.filterMap_append]
  cases e with
  | allocated c i => exact run.extend handed
  | freed c i => exact run.extend handed
  | popped | missed | inGlobal | exhausted | unlinked | refused | rejuvenated | current =>
    rw [show taken n size s' = taken n size s from handed, List.filterMap_cons_none rfl,
      List.filterMap_nil, List.append_nil]
    exact run

/-- Every interleaving keeps each index of the stock on exactly one list or in
the hands of one core, frees every index between two allocations of it, and
refuses to free or rejuvenate what is not allocated in the partition. -/
theorem concurrentDchain_exclusive (cores : 0 < n) (room : n ≤ size) (small : 2 * size + 16 * n + 1 < 2 ^ 31)
    (cells : ConcurrentDchainCells Id) :
    ∃ init, (numConcurrentCells size n).isSome = true ∧ concurrentDchainImplInit cells size n = some init ∧
      Sound n size (.start init) (initialLists n size) ∧
      ∀ history s, Trace (Step n size) (.start init) history s →
        (∃ L, Sound n size s L ∧ ∀ c, s.pc c = .idle → ∀ i < size, indexShift n + i ∉ L (.alloc c) →
          unlinkFreed n i c.val s.cells = none ∧ ∀ time,
            concurrentDchainImplRejuvenateIndex n i c.val time s.cells = (false, s.cells)) ∧
        ∀ before between after c d i,
          history = before ++ .allocated c i :: between ++ .allocated d i :: after →
          ∃ e, .freed e i ∈ between := by
  obtain ⟨ended, valid⟩ := init_valid cores room cells
  refine ⟨_, ?_, ended, sound_start valid, fun history s run => ?_⟩
  · exact Option.isSome_iff_exists.mpr ⟨_, numConcurrentCells_eq_some.mpr ⟨small, rfl⟩⟩
  have kept : (∃ L, Sound n size s L) ∧
      Trace (Allocator.Step (stock n size)) ∅ (history.filterMap Event.handed) (taken n size s) := by
    refine run.rule (P := fun history s => (∃ L, Sound n size s L) ∧
      Trace (Allocator.Step (stock n size)) ∅ (history.filterMap Event.handed) (taken n size s)) ?_ ?_
    · rw [taken_start valid]
      exact ⟨⟨_, sound_start valid⟩, .start⟩
    · intro past t e u _ before last
      obtain ⟨⟨L, sound⟩, abstract⟩ := before
      obtain ⟨sound', handed⟩ := step_sound sound last
      exact ⟨sound', handed_extend abstract handed⟩
  obtain ⟨⟨L, sound⟩, abstract⟩ := kept
  refine ⟨⟨L, sound, fun c idle i within => sound.refused idle within⟩, ?_⟩
  intro before between after c d i split
  rw [split, List.filterMap_append, List.filterMap_append] at abstract
  simp only [List.filterMap_cons, Event.handed] at abstract
  obtain ⟨event, member, same⟩ := List.mem_filterMap.mp (Allocator.freed_between abstract)
  cases event with
  | freed e j =>
    cases same
    exact ⟨e, member⟩
  | allocated | popped | missed | inGlobal | exhausted | unlinked | refused | rejuvenated | current =>
    cases same

/-- Five indexes over two cores. -/
theorem concurrentDchain_exclusive_two_cores : 0 < 2 ∧ 2 ≤ 5 ∧ 2 * 5 + 16 * 2 + 1 < 2 ^ 31 ∧ ∀ cells : ConcurrentDchainCells Unit,
    ∃ init, (numConcurrentCells 5 2).isSome = true ∧ concurrentDchainImplInit cells 5 2 = some init ∧
      Sound 2 5 (.start init) (initialLists 2 5) ∧
      ∀ history s, Trace (Step 2 5) (.start init) history s →
        (∃ L, Sound 2 5 s L ∧ ∀ c, s.pc c = .idle → ∀ i < 5, indexShift 2 + i ∉ L (.alloc c) →
          unlinkFreed 2 i c.val s.cells = none ∧ ∀ time,
            concurrentDchainImplRejuvenateIndex 2 i c.val time s.cells = (false, s.cells)) ∧
        ∀ before between after c d i,
          history = before ++ .allocated c i :: between ++ .allocated d i :: after →
          ∃ e, .freed e i ∈ between :=
  ⟨by decide, by decide, by decide, fun cells => concurrentDchain_exclusive (by decide) (by decide) (by decide) cells⟩

end Nfos.ConcurrentDoubleChain
