import Nfos.DoubleChainExp

/-! Runs of `NfosDoubleChainExp`. The committed calls of any cores refine queues
in the order of last use, one for each core. -/
namespace Nfos.DoubleChainExp
open Txn Tx Function Linked Run
variable {n size : Nat}

/-- The committed calls with their results. Items are named by their cells. The
list that `expire_one_index` looks at is that of `curr_free_list`. -/
inductive Step (n size : Nat) : NfosDoubleChainExp → Lru.Event (Fin n) Nat → NfosDoubleChainExp → Prop where
  | allocate {chain grants cells i} (core : Fin n) (time : Int) :
      atomically (nfosDchainExpAllocateNewIndex chain.validityDuration n core.val time) grants
        chain.cells = some (some i, cells) →
      Step n size chain (.allocated core (indexShift n + i) time) { chain with cells := cells }
  | exhaust {chain grants cells} (core : Fin n) (time : Int) :
      atomically (nfosDchainExpAllocateNewIndex chain.validityDuration n core.val time) grants
        chain.cells = some (none, cells) →
      Step n size chain .exhausted { chain with cells := cells }
  | rejuvenate {chain grants cells} (index : Fin size) (time : Int) :
      atomically (nfosDchainExpRejuvenateIndex chain.validityDuration n index.val time) grants
        chain.cells = some (true, cells) →
      Step n size chain (.rejuvenated (indexShift n + index.val) time) { chain with cells := cells }
  | refuse {chain grants cells} (index : Fin size) (time : Int) :
      atomically (nfosDchainExpRejuvenateIndex chain.validityDuration n index.val time) grants
        chain.cells = some (false, cells) →
      Step n size chain (.refused (indexShift n + index.val)) { chain with cells := cells }
  | expire {chain grants cells i curr done} (core : Fin n) (time : Int) :
      chain.currFreeList = core.val →
      atomically (nfosDchainExpExpireOneIndex n chain.currFreeList chain.numFreeLists time) grants
        chain.cells = some (⟨some i, curr, done⟩, cells) →
      Step n size chain (.expired core (indexShift n + i) time)
        { chain with cells := cells, currFreeList := curr }
  | current {chain grants cells curr done} (core : Fin n) (time : Int) :
      chain.currFreeList = core.val →
      atomically (nfosDchainExpExpireOneIndex n chain.currFreeList chain.numFreeLists time) grants
        chain.cells = some (⟨none, curr, done⟩, cells) →
      Step n size chain (.current core time) { chain with cells := cells, currFreeList := curr }

variable {cells cells' : Cells Int} {L M : ListId n → List Nat}

/-- The queues that a well-formed array of cells stands for. -/
def queues (valid : Valid n size cells L) : Lru.State (Fin n) Nat where
  queue c := L (.alloc c)
  pool
    | some c => L (.free c)
    | none => L .glob
  time := cells.extraOf
  nodup c := valid.layout.forward.nodup (.alloc c)
  apart first second := ListId.alloc.inj (valid.layout.forward.apart first second)
  pooled {w _ _} free queued := by
    cases w with
    | some d => exact nomatch valid.layout.forward.apart free queued
    | none => exact nomatch valid.layout.forward.apart free queued

theorem mem_pool (valid : Valid n size cells L) {x : Nat} :
    (∃ w, x ∈ (queues valid).pool w) ↔ ∃ w : ListId n, w.IsFree ∧ x ∈ L w := by
  constructor
  · rintro ⟨w, member⟩
    cases w with
    | some c => exact ⟨.free c, ListId.free_isFree c, member⟩
    | none => exact ⟨.glob, ListId.glob_isFree, member⟩
  · rintro ⟨w, free, member⟩
    cases w with
    | alloc c => exact absurd rfl (free c)
    | free c => exact ⟨some c, member⟩
    | glob => exact ⟨none, member⟩

/-- The free indexes are the covered ones that are on no queue. -/
theorem mem_pool_iff (valid : Valid n size cells L) {x : Nat} :
    (∃ w, x ∈ (queues valid).pool w) ↔
      (∃ i < covered n size, x = indexShift n + i) ∧ ∀ c, x ∉ L (.alloc c) := by
  rw [mem_pool, ← valid.cover x]
  constructor
  · rintro ⟨w, free, member⟩
    exact ⟨⟨w, member⟩, fun c other => free c (valid.layout.forward.apart member other)⟩
  · rintro ⟨⟨w, member⟩, off⟩
    refine ⟨w, fun c same => ?_, member⟩
    subst same
    exact off c member

/-- Every free index has the time that never passes. -/
def Timeless (n size : Nat) (cells : Cells Int) : Prop :=
  ∀ i < size, cells.indOf (indexShift n + i) = -1 → cells.extraOf (indexShift n + i) = int64Max

/-- An index that was free before or has just been freed stays without a time. -/
theorem Timeless.update {x : Nat} {v : Int} (timeless : Timeless n size cells)
    (valid : Valid n size cells L) (valid' : Valid n size cells' M)
    (extra : cells'.extraOf = Function.update cells.extraOf x v)
    (queued : ∀ y, (∀ c, y ∉ M (.alloc c)) → (y = x ∧ v = int64Max) ∨ (y ≠ x ∧ ∀ c, y ∉ L (.alloc c))) :
    Timeless n size cells' := by
  intro i within minus
  rw [extra]
  rcases queued _ ((valid'.ind_eq_neg_one within).mp minus) with ⟨same, max⟩ | ⟨other, off⟩
  · rw [same, update_self, max]
  · rw [update_of_ne other]
    exact timeless i within ((valid.ind_eq_neg_one within).mpr off)

/-- What holds of the allocator between any two calls. -/
structure Invariant (n size : Nat) (validity : Int) (chain : NfosDoubleChainExp)
    (L : ListId n → List Nat) : Prop where
  valid : Valid n size chain.cells L
  timeless : Timeless n size chain.cells
  curr : chain.currFreeList < n
  lists : chain.numFreeLists = n
  validity : chain.validityDuration = validity

variable {validity : Int} {chain chain' : NfosDoubleChainExp} {c : Fin n} {x : Nat} {l : List Nat}

theorem queue_update (L : ListId n → List Nat) (c : Fin n) (l : List Nat) :
    (fun d => update L (.alloc c) l (.alloc d)) = update (fun d => L (.alloc d)) c l := by
  funext d
  by_cases same : d = c
  · simp [same]
  · simp [same]

/-- The outcome of an allocation as a step of the queues. -/
theorem allocate_step {time : Int} {i : Nat} (valid : Valid n size cells L) (timeless : Timeless n size cells)
    (outcome : AllocateIndex.Allocated size (fun _ => time + validity) c cells L (some i) cells') :
    ∃ M, ∃ valid' : Valid n size cells' M, Timeless n size cells' ∧
      Lru.Step validity int64Max (queues valid) (.allocated c (indexShift n + i) time) (queues valid') := by
  obtain ⟨_, free, extra, M, valid', own, others⟩ := outcome
  have queue : (fun d => M (.alloc d)) = update (fun d => L (.alloc d)) c
      (L (.alloc c) ++ [indexShift n + i]) := by
    funext d
    by_cases same : d = c
    · rw [same, update_self, own]
    · rw [update_of_ne same, others d same]
  have off : ∀ y, (∀ d, y ∉ M (.alloc d)) ↔ (∀ d, y ∉ L (.alloc d)) ∧ y ≠ indexShift n + i := by
    intro y
    have member : ∀ d, y ∈ M (.alloc d) ↔ y ∈ L (.alloc d) ∨ (y = indexShift n + i ∧ d = c) := by
      intro d
      rw [show M (.alloc d) = _ from congrFun queue d]
      exact Chains.mem_append (L := fun d => L (.alloc d))
    simp only [member, not_or, not_and, forall_and]
    refine and_congr_right fun _ => ⟨fun apart same => apart c same rfl, fun other d same => absurd same other⟩
  refine ⟨M, valid', timeless.update valid valid' extra fun y queued => ?_, (mem_pool valid).mpr free,
    queue, fun y => ?_, extra⟩
  · exact Or.inr ((off y).mp queued).symm
  · rw [mem_pool_iff, mem_pool_iff, off y, and_assoc]

theorem rejuvenate_step {time : Int} {i : Nat} (valid : Valid n size cells L)
    (timeless : Timeless n size cells)
    (outcome : Rejuvenated n size i (time + validity) cells L true cells') :
    ∃ M, ∃ valid' : Valid n size cells' M, Timeless n size cells' ∧
      Lru.Step validity int64Max (queues valid) (.rejuvenated (indexShift n + i) time) (queues valid') := by
  obtain ⟨c, l, m, split, valid', extra⟩ := outcome
  refine ⟨_, valid', timeless.update valid valid' extra fun y queued => ?_, c, l, m, split,
    queue_update L c _, ?_, extra⟩
  · refine Or.inr ⟨fun same => queued c (by simp [same]), fun d old => queued d ?_⟩
    by_cases same : d = c
    · subst same
      rw [split] at old
      rw [update_self]
      simp only [List.mem_append, List.mem_cons, List.not_mem_nil, or_false] at old ⊢
      tauto
    · rwa [update_of_ne (fun same' => same (ListId.alloc.inj same'))]
  · funext w
    cases w with
    | some d => simp [queues]
    | none => simp [queues]

theorem expire_step {time : Int} {i curr : Nat} {done : Bool} (valid : Valid n size cells L)
    (timeless : Timeless n size cells)
    (outcome : Expired n size c time cells L ⟨some i, curr, done⟩ cells') :
    curr = c.val ∧ ∃ M, ∃ valid' : Valid n size cells' M, Timeless n size cells' ∧
      Lru.Step validity int64Max (queues valid) (.expired c (indexShift n + i) time) (queues valid') := by
  obtain ⟨result, l, split, passed, valid', extra⟩ := outcome
  refine ⟨congrArg Expiry.currFreeList result, _, valid',
    timeless.update valid valid' extra fun y queued => ?_, l, split, passed, ?_, ?_, extra⟩
  · by_cases same : y = indexShift n + i
    · exact Or.inl ⟨same, rfl⟩
    · refine Or.inr ⟨same, fun d old => queued d ?_⟩
      rw [update_of_ne (by simp)]
      exact (valid.layout.forward.mem_pop split).mpr ⟨old, same⟩
  · rw [show (queues valid).queue = fun d => L (.alloc d) from rfl, ← queue_update]
    funext d
    simp [queues]
  · funext w
    cases w with
    | some d =>
      by_cases same : d = c
      · subst same
        simp [queues]
      · simp [queues, same]
    | none => simp [queues]

theorem nextFreeList_curr (k : Nat) (cores : 0 < n) : (nextFreeList k n).currFreeList < n := by
  unfold nextFreeList
  split
  · exact cores
  · rename_i below
    simp only
    omega

/-- One committed call, from any state that satisfies the invariant. -/
theorem step_refines {e : Lru.Event (Fin n) Nat} (inv : Invariant n size validity chain L)
    (step : Step n size chain e chain') :
    ∃ M, ∃ inv' : Invariant n size validity chain' M,
      Lru.Step validity int64Max (queues inv.valid) e (queues inv'.valid) := by
  obtain ⟨valid, timeless, curr, lists, same⟩ := inv
  have cores : 0 < n := by omega
  cases step with
  | allocate core time ran =>
    obtain ⟨t, outcome, rfl⟩ := (AllocateIndex.post_allocateNewIndex _
      (t := .start chain.cells) valid core).commit ran
    rw [same] at outcome
    obtain ⟨M, valid', timeless', refined⟩ := allocate_step valid timeless outcome
    exact ⟨M, ⟨valid', timeless', curr, lists, same⟩, refined⟩
  | exhaust core time ran =>
    obtain ⟨t, ⟨unchanged, empty⟩, rfl⟩ := (AllocateIndex.post_allocateNewIndex _
      (t := .start chain.cells) valid core).commit ran
    have back : t.view = chain.cells := unchanged
    refine ⟨L, ⟨back ▸ valid, back ▸ timeless, curr, lists, same⟩, fun w => ?_, ?_⟩
    · cases w with
      | some c => exact empty _ (ListId.free_isFree c)
      | none => exact empty _ ListId.glob_isFree
    · simp only [queues, back]
  | rejuvenate index time ran =>
    obtain ⟨t, outcome, rfl⟩ := (post_rejuvenateIndex (t := .start chain.cells) valid index.isLt).commit ran
    rw [same] at outcome
    obtain ⟨M, valid', timeless', refined⟩ := rejuvenate_step valid timeless outcome
    exact ⟨M, ⟨valid', timeless', curr, lists, same⟩, refined⟩
  | refuse index time ran =>
    obtain ⟨t, ⟨unchanged, absent⟩, rfl⟩ :=
      (post_rejuvenateIndex (t := .start chain.cells) valid index.isLt).commit ran
    have back : t.view = chain.cells := unchanged
    refine ⟨L, ⟨back ▸ valid, back ▸ timeless, curr, lists, same⟩, absent, ?_⟩
    simp only [queues, back]
  | expire core time position ran =>
    rw [position, lists] at ran
    obtain ⟨t, outcome, rfl⟩ := (post_expireOneIndex time (t := .start chain.cells) valid core).commit ran
    obtain ⟨here, M, valid', timeless', refined⟩ := expire_step valid timeless outcome
    refine ⟨M, ⟨valid', timeless', ?_, lists, same⟩, refined⟩
    rw [here]
    exact core.isLt
  | current core time position ran =>
    rw [position, lists] at ran
    obtain ⟨t, ⟨unchanged, oldest, result⟩, rfl⟩ :=
      (post_expireOneIndex time (t := .start chain.cells) valid core).commit ran
    have back : t.view = chain.cells := unchanged
    refine ⟨L, ⟨back ▸ valid, back ▸ timeless, ?_, lists, same⟩, oldest, ?_⟩
    · have := nextFreeList_curr core.val cores
      rwa [← result] at this
    · simp only [queues, back]

/-- Without contention every call commits in every state of the invariant. -/
theorem calls_commit (inv : Invariant n size validity chain L) (time : Int) :
    (∀ core : Fin n, ∃ chain', Step n size chain .exhausted chain' ∨
      ∃ i, Step n size chain (.allocated core (indexShift n + i) time) chain') ∧
    (∀ index : Fin size, ∃ chain', Step n size chain (.refused (indexShift n + index.val)) chain' ∨
      Step n size chain (.rejuvenated (indexShift n + index.val) time) chain') ∧
    ∃ core : Fin n, ∃ chain', Step n size chain (.current core time) chain' ∨
      ∃ i, Step n size chain (.expired core (indexShift n + i) time) chain' := by
  have granted : ∀ i : Nat, (fun _ => true : Nat → Bool) i = true := fun _ => rfl
  refine ⟨fun core => ?_, fun index => ?_, ⟨chain.currFreeList, inv.curr⟩, ?_⟩
  · obtain ⟨result, t, ran, _⟩ := (AllocateIndex.post_allocateNewIndex
      (fun _ => time + chain.validityDuration) (t := .start chain.cells) inv.valid core).commits granted
    cases result with
    | none => exact ⟨_, Or.inl (.exhaust core time ran)⟩
    | some i => exact ⟨_, Or.inr ⟨i, .allocate core time ran⟩⟩
  · obtain ⟨result, t, ran, _⟩ :=
      (post_rejuvenateIndex (t := .start chain.cells) inv.valid index.isLt).commits granted
    cases result with
    | false => exact ⟨_, Or.inl (.refuse index time ran)⟩
    | true => exact ⟨_, Or.inr (.rejuvenate index time ran)⟩
  · obtain ⟨⟨result, curr, done⟩, t, ran, _⟩ := (post_expireOneIndex time
      (t := .start chain.cells) inv.valid ⟨chain.currFreeList, inv.curr⟩).commits granted
    have ran' : atomically (nfosDchainExpExpireOneIndex n chain.currFreeList chain.numFreeLists time)
        (fun _ => true) chain.cells = some (⟨result, curr, done⟩, t.view) := by
      rw [inv.lists]
      exact ran
    cases result with
    | none => exact ⟨_, Or.inl (.current _ time rfl ran')⟩
    | some i => exact ⟨_, Or.inr ⟨i, .expire _ time rfl ran'⟩⟩

theorem cellWrites (n : Nat) : CellWrites n (initWrites n) where
  next := ⟨by simp [initWrites], by simp [initWrites], by simp [initWrites], by simp [initWrites]⟩
  prev := ⟨by simp [initWrites], by simp [initWrites], by simp [initWrites], by simp [initWrites]⟩
  ind := by simp [initWrites]

/-- Initialisation ends, with every covered index free and without a time. -/
theorem allocate_invariant (tscHz : Nat) (usecs : Int) (cores : 0 < n) (room : n ≤ size)
    (cells : Cells Int) : ∃ chain, nfosDchainExpAllocate tscHz cells size usecs n = some chain ∧
      Invariant n size (nfosUsecToTscCycles tscHz usecs) chain (initialLists n size) := by
  have positive : 0 < size / n := Nat.div_pos room cores
  refine ⟨_, by rw [nfosDchainExpAllocate, initLists_eq _ _ positive (Nat.le_refl _)]; rfl,
    (cellWrites n).valid cells positive, fun i within _ => ?_, cores, rfl, rfl⟩
  exact initCells_cell cells Cells.extraOf (fun _ _ => int64Max) (by simp [initWrites]) within

/-- The committed calls of a run are those of the queues. -/
theorem run_refines {history : List (Lru.Event (Fin n) Nat)} (initial : Invariant n size validity chain L)
    (run : Trace (Step n size) chain history chain') : ∃ M, ∃ inv : Invariant n size validity chain' M,
      Trace (Lru.Step validity int64Max) (queues initial.valid) history (queues inv.valid) := by
  refine run.rule (P := fun history chain' => ∃ M, ∃ inv : Invariant n size validity chain' M,
    Trace (Lru.Step validity int64Max) (queues initial.valid) history (queues inv.valid)) ⟨_, initial, .start⟩ ?_
  rintro past t e u _ ⟨L, inv, abstract⟩ last
  obtain ⟨M, inv', refined⟩ := step_refines inv last
  exact ⟨M, inv', abstract.extend refined⟩

/-- Whatever the cores call and whatever aborts, the committed calls are those
of queues in the order of last use, and a queue is in the order of its times as
long as the times of the calls do not decrease. -/
theorem nfosDchainExp_refines_lru (tscHz : Nat) (usecs : Int) (cores : 0 < n) (room : n ≤ size)
    (cells : Cells Int) : ∃ chain, nfosDchainExpAllocate tscHz cells size usecs n = some chain ∧
      ∃ initial : Valid n size chain.cells (initialLists n size),
        ∀ history chain', Trace (Step n size) chain history chain' →
          ∃ L, ∃ inv : Invariant n size (nfosUsecToTscCycles tscHz usecs) chain' L,
            Trace (Lru.Step (nfosUsecToTscCycles tscHz usecs) int64Max) (queues initial) history
              (queues inv.valid) ∧
            ((history.filterMap Lru.Event.stamp).Pairwise (· ≤ ·) → (queues inv.valid).Sorted) := by
  obtain ⟨chain, ended, initial⟩ := allocate_invariant tscHz usecs cores room cells
  refine ⟨chain, ended, initial.valid, fun history chain' run => ?_⟩
  obtain ⟨L, inv, abstract⟩ := run_refines initial run
  exact ⟨L, inv, abstract, Lru.sorted_of_stamps abstract fun _ => rfl⟩

/-- Five indexes over two cores, valid for one second of a gigahertz counter. -/
theorem nfosDchainExp_refines_two_cores : 0 < 2 ∧ 2 ≤ 5 ∧ ∀ cells : Cells Int,
    ∃ chain, nfosDchainExpAllocate 1000000000 cells 5 1000000 2 = some chain ∧
      ∃ initial : Valid 2 5 chain.cells (initialLists 2 5),
        ∀ history chain', Trace (Step 2 5) chain history chain' →
          ∃ L, ∃ inv : Invariant 2 5 (nfosUsecToTscCycles 1000000000 1000000) chain' L,
            Trace (Lru.Step (nfosUsecToTscCycles 1000000000 1000000) int64Max) (queues initial) history
              (queues inv.valid) ∧
            ((history.filterMap Lru.Event.stamp).Pairwise (· ≤ ·) → (queues inv.valid).Sorted) :=
  ⟨by decide, by decide, fun cells =>
    nfosDchainExp_refines_lru 1000000000 1000000 (by decide) (by decide) cells⟩

end Nfos.DoubleChainExp
