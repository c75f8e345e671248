import Nfos.MapRefinement

/-! The locks of the calls that change a map: the entries of the probe path, in ascending
order. -/
namespace Nfos.Map
open Txn Tx Function Probe BoundedMap Run
variable {K : Type} {map : NfosMap K} {s i : Nat}

/-- No entry is locked twice. -/
theorem lockOrder_ascending {capacity : Nat} (step : i < capacity) :
    (lockOrder capacity s i).Pairwise (· < ·) := by
  unfold lockOrder
  split
  · have front : (List.range (s + i - capacity) ++ [s + i - capacity]) = List.range (s + i - capacity + 1) :=
      List.range_succ.symm
    rw [front, List.pairwise_append]
    refine ⟨List.pairwise_lt_range, List.pairwise_lt_range', ?_⟩
    intro j first k second
    have early := List.mem_range.mp first
    have late := (List.mem_range'_1.mp second).1
    omega
  · have whole : List.range' s i ++ [s + i] = List.range' s (i + 1) := by
      rw [List.range'_concat, Nat.one_mul]
    rw [whole]
    exact List.pairwise_lt_range'

/-- The slots of a path with its end. -/
theorem mem_lockOrder {capacity : Nat} (start : s < capacity) (step : i < capacity) (j : Nat) :
    j ∈ lockOrder capacity s i ↔ Passed capacity s i j ∨ j = slot capacity s i := by
  have atEnd := slot_eq start step
  unfold lockOrder
  split
  · rename_i wraps
    rw [if_neg (by omega)] at atEnd
    rw [passed_wrapped start step wraps, atEnd]
    simp only [List.mem_append, List.mem_range, List.mem_singleton, List.mem_range'_1]
    omega
  · rename_i straight
    rw [if_pos (by omega)] at atEnd
    rw [passed_straight start (by omega), atEnd]
    simp only [List.mem_append, List.mem_singleton, List.mem_range'_1]

theorem passed_or_end_iff {capacity : Nat} (start : s < capacity) (step : i < capacity) (j : Nat) :
    (Passed capacity s i j ∨ j = slot capacity s i) ↔ ∃ d ≤ i, j = slot capacity s d := by
  constructor
  · rintro (⟨target, before⟩ | rfl)
    · exact ⟨_, before.le, (slot_dist start target).symm⟩
    · exact ⟨i, le_rfl, rfl⟩
  · rintro ⟨d, within, rfl⟩
    rcases Nat.lt_or_eq_of_le within with before | rfl
    · refine Or.inl ⟨slot_lt (by omega), ?_⟩
      rwa [dist_slot start (by omega)]
    · exact Or.inr rfl

/-- A call has locked, in ascending order, the path from the start slot of its key to the slot
that is `i` steps away, and has changed nothing else. -/
structure LockedPath (map : NfosMap K) (key : K) (i : Nat) (t t' : Log (NfosMapEntry K)) (order : List Nat) : Prop where
  step : i < map.capacity
  locks : t'.locks = t.locks ++ order
  ascending : order.Pairwise (· < ·)
  path : ∀ j, j ∈ order ↔ ∃ d ≤ i, j = slot map.capacity (map.start key) d
  frame : ∀ j, j ∉ order → t'.view j = t.view j

theorem lockedPath (wf : map.WellFormed) {key : K} {t t' : Log (NfosMapEntry K)} {delta : Int}
    {write : NfosMapEntry K → NfosMapEntry K} (step : i < map.capacity)
    (written : Rewritten map (map.start key) i delta write t.view t'.view)
    (locks : t'.locks = t.locks ++ lockOrder map.capacity (map.start key) i) :
    LockedPath map key i t t' (lockOrder map.capacity (map.start key) i) := by
  have start := start_lt wf key
  constructor
  case step => exact step
  case locks => exact locks
  case ascending => exact lockOrder_ascending step
  case path =>
    intro j
    rw [mem_lockOrder start step, passed_or_end_iff start step]
  case frame =>
    intro j absent
    rw [mem_lockOrder start step, not_or] at absent
    exact written.other j absent.2 absent.1

/-- What `nfos_map_put` locks. If it returns 0 there is neither a lock nor a write. -/
def PutLocks (map : NfosMap K) (key : K) (t : Log (NfosMapEntry K)) : Bool → Log (NfosMapEntry K) → Prop
  | false, t' => t' = t
  | true, t' => ∃ i order, LockedPath map key i t t' order ∧ ¬ Busy t.view (slot map.capacity (map.start key) i) ∧
      Holds map t'.view key (slot map.capacity (map.start key) i)

/-- What `nfos_map_erase` locks. -/
def EraseLocks (map : NfosMap K) (key : K) (t : Log (NfosMapEntry K)) : Bool → Log (NfosMapEntry K) → Prop
  | false, t' => t' = t
  | true, t' => ∃ i order, LockedPath map key i t t' order ∧ Holds map t.view key (slot map.capacity (map.start key) i) ∧
      ¬ Busy t'.view (slot map.capacity (map.start key) i)

variable {grants : Nat → Bool} {t : Log (NfosMapEntry K)}

theorem post_put_locks (wf : map.WellFormed) (key : K) (value : Int) :
    Post (nfosMapPut map key value) grants t (PutLocks map key t) := by
  simp only [nfosMapPut, and_capacity wf, List.range_eq_range']
  apply (post_putLoop_locks wf value map.capacity (Nat.zero_add _) fun d below => absurd below (Nat.not_lt_zero d)).mono
  rintro stored t' ⟨_, taken⟩
  cases stored with
  | false => exact taken
  | true =>
    obtain ⟨i, step, ⟨free, written⟩, locks⟩ := taken
    refine ⟨i, _, lockedPath wf step written locks, free, slot_lt wf.positive, ?_, ?_⟩
    · simp [Busy, written.atEnd]
    · rw [written.atEnd]
      exact wf.lawful.refl key

theorem post_erase_locks (wf : map.WellFormed) (inv : Invariant map t.view) (key : K) :
    Post (nfosMapErase map key) grants t (EraseLocks map key t) := by
  simp only [nfosMapErase, and_capacity wf, List.range_eq_range']
  apply (post_eraseLoop_locks wf inv map.capacity (Nat.zero_add _) fun d below => absurd below (Nat.not_lt_zero d)).mono
  rintro erased t' ⟨_, taken⟩
  cases erased with
  | false => exact taken
  | true =>
    obtain ⟨i, step, ⟨holds, written⟩, locks⟩ := taken
    refine ⟨i, _, lockedPath wf step written locks, holds, ?_⟩
    simp [Busy, written.atEnd]

section Runs
variable {keq : K → K → Bool} {khash : K → Nat} {c : Nat} (entries : Nat → NfosMapEntry K)

/-- After any run, and whatever the transaction has done before, a call that returns has locked
its path in ascending order. -/
theorem map_calls_lock_paths (lawful : Equivalence fun a b => keq a b = true)
    (hash : ∀ a b, keq a b = true → khash a = khash b) (positive : 1 ≤ c) (bound : c ≤ 2 ^ 31) :
    ∃ map E, nfosMapAllocate keq khash c entries = (map, E) ∧ (∃ k, map.capacity = 2 ^ k) ∧
      ∀ history t, Trace (Step map) E history t.view → ∀ key grants t',
        (∀ value stored, nfosMapPut map key value grants t = .ok (stored, t') → PutLocks map key t stored t') ∧
        ∀ erased, nfosMapErase map key grants t = .ok (erased, t') → EraseLocks map key t erased t' := by
  have wf := allocate_wellFormed entries lawful hash positive bound
  obtain ⟨initial, nothing⟩ := @allocate_invariant K keq khash c entries
  refine ⟨(nfosMapAllocate keq khash c entries).1, (nfosMapAllocate keq khash c entries).2, rfl, ⟨_, nextPow2_eq positive bound⟩, ?_⟩
  intro history t run key grants t'
  have kept := run.rule (P := fun _ F => Invariant (nfosMapAllocate keq khash c entries).1 F ∧
    ∃ m, Represents (nfosMapAllocate keq khash c entries).1 F m) ⟨initial, _, nothing⟩ fun past F e G _ before last => by
      obtain ⟨inv, m, represents⟩ := before
      obtain ⟨inv', _, m', represents', _⟩ := step_refines wf inv represents last
      exact ⟨inv', m', represents'⟩
  constructor
  · intro value stored ran
    have posted : Post (nfosMapPut _ key value) grants t _ := post_put_locks wf key value
    rwa [Post, ran] at posted
  · intro erased ran
    have posted : Post (nfosMapErase _ key) grants t _ := post_erase_locks wf kept.1 key
    rwa [Post, ran] at posted

end Runs

/-- Keys that are hashed modulo 4, in a map for six keys. -/
theorem map_calls_lock_paths_mod_keys :
    ∃ map E, nfosMapAllocate (fun a b : Nat => a == b) (· % 4) 6 (fun _ => ⟨1, 0, 7, 0, 0⟩) = (map, E) ∧
      (∃ k, map.capacity = 2 ^ k) ∧ ∀ history t, Trace (Step map) E history t.view → ∀ key grants t',
        (∀ value stored, nfosMapPut map key value grants t = .ok (stored, t') → PutLocks map key t stored t') ∧
        ∀ erased, nfosMapErase map key grants t = .ok (erased, t') → EraseLocks map key t erased t' := by
  apply map_calls_lock_paths
  · constructor
    · intro a
      simp
    · intro a b same
      simpa using (beq_iff_eq.mp same).symm
    · intro a b c first second
      simpa using (beq_iff_eq.mp first).trans (beq_iff_eq.mp second)
  · intro a b same
    exact congrArg (· % 4) (beq_iff_eq.mp same)
  · decide
  · decide

end Nfos.Map
