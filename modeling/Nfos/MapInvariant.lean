import Nfos.Map
import Nfos.Lib.BoundedMap

/-! The invariant of `NfosMap`. Early ends of a search are sound because every
counter `chns` is the number of probe paths through its entry, whatever was
erased before. -/
namespace Nfos.Map
open Txn Tx Function Probe BoundedMap
variable {K : Type} {map : NfosMap K} {E F : Nat → NfosMapEntry K}

def Busy (E : Nat → NfosMapEntry K) (j : Nat) : Prop := (E j).busybits ≠ 0

instance : DecidablePred (Busy E) := fun _ => inferInstanceAs (Decidable (¬ _))

/-- The probe path of the key stored in entry `k` passes entry `j` before its end. -/
def Crosses (map : NfosMap K) (E : Nat → NfosMapEntry K) (j k : Nat) : Prop :=
  Busy E k ∧ dist map.capacity (map.start (E k).key) j < dist map.capacity (map.start (E k).key) k

instance (j : Nat) : DecidablePred (Crosses map E j) := fun _ => inferInstanceAs (Decidable (_ ∧ _))

def crossings (map : NfosMap K) (E : Nat → NfosMapEntry K) (j : Nat) : Nat :=
  ((Finset.range map.capacity).filter (Crosses map E j)).card

structure Invariant (map : NfosMap K) (E : Nat → NfosMapEntry K) : Prop where
  hashed : ∀ j < map.capacity, Busy E j → (E j).khs = map.khash (E j).key
  distinct : ∀ i < map.capacity, ∀ j < map.capacity, Busy E i → Busy E j →
    map.keysEq (E i).key (E j).key = true → i = j
  chains : ∀ j < map.capacity, (E j).chns = crossings map E j

def Holds (map : NfosMap K) (E : Nat → NfosMapEntry K) (key : K) (j : Nat) : Prop :=
  j < map.capacity ∧ Busy E j ∧ map.keysEq (E j).key key = true

section Search
variable {key : K} {i : Nat}

/-- Beyond an entry that no path passes there is no key to find. -/
theorem absent_of_chns (wf : map.WellFormed) (inv : Invariant map E) (step : i < map.capacity)
    (unseen : ∀ d < i + 1, ¬ Holds map E key (slot map.capacity (map.start key) d))
    (none : (E (slot map.capacity (map.start key) i)).chns = 0) (j : Nat) : ¬ Holds map E key j := by
  rintro ⟨target, busy, same⟩
  have start := start_lt wf key
  have here : map.start (E j).key = map.start key := congrArg (· % map.capacity) (wf.hash _ _ same)
  have beyond : i < dist map.capacity (map.start key) j := by
    by_contra seen
    refine unseen (dist map.capacity (map.start key) j) (by omega) ?_
    rw [slot_dist start target]
    exact ⟨target, busy, same⟩
  have counted : 0 < crossings map E (slot map.capacity (map.start key) i) := by
    refine Finset.card_pos.mpr ⟨j, Finset.mem_filter.mpr ⟨Finset.mem_range.mpr target, busy, ?_⟩⟩
    rw [here, dist_slot start step]
    exact beyond
  have counter := inv.chains (slot map.capacity (map.start key) i) (slot_lt wf.positive)
  omega

/-- A search that has seen all entries has seen the key. -/
theorem absent_of_all (wf : map.WellFormed)
    (unseen : ∀ d < map.capacity, ¬ Holds map E key (slot map.capacity (map.start key) d)) (j : Nat) :
    ¬ Holds map E key j := by
  intro found
  refine unseen (dist map.capacity (map.start key) j) (dist_lt wf.positive) ?_
  rwa [slot_dist (start_lt wf key) found.1]

/-- An entry is skipped by a search only if it does not hold the key. -/
theorem unseen_succ (unseen : ∀ d < i, ¬ Holds map E key (slot map.capacity (map.start key) d))
    (here : ¬ Holds map E key (slot map.capacity (map.start key) i)) :
    ∀ d < i + 1, ¬ Holds map E key (slot map.capacity (map.start key) d) := by
  intro d below
  rcases Nat.lt_succ_iff_lt_or_eq.mp below with before | rfl
  · exact unseen d before
  · exact here

theorem holds_hash (wf : map.WellFormed) (inv : Invariant map E) {j : Nat} (holds : Holds map E key j) :
    (E j).khs = map.khash key := by
  rw [inv.hashed j holds.1 holds.2.1]
  exact wf.hash _ _ holds.2.2

variable {grants : Nat → Bool} {t : Log (NfosMapEntry K)}

theorem post_getLoop (wf : map.WellFormed) (inv : Invariant map t.view) (m : Nat) (rest : i + m = map.capacity)
    (unseen : ∀ d < i, ¬ Holds map t.view key (slot map.capacity (map.start key) d)) :
    Post (getLoop map key (map.khash key) (map.start key) (List.range' i m)) grants t fun result t' =>
      t' = t ∧ match result with
        | none => ∀ j, ¬ Holds map t.view key j
        | some v => ∃ j, Holds map t.view key j ∧ (t.view j).vals = v := by
  induction m generalizing i with
  | zero =>
    exact ⟨rfl, absent_of_all wf fun d below => unseen d (by omega)⟩
  | succ m ih =>
    have step : i < map.capacity := by omega
    simp only [List.range'_succ, getLoop, index_eq wf (start_lt wf key) step, post_bind, post_deref,
      post_read, Log.read_ref]
    refine post_ite (fun hit => post_ite (fun same => ?_) (fun other => ?_)) (fun miss => ?_)
    · exact ⟨rfl, _, ⟨slot_lt wf.positive, hit.1, same⟩, rfl⟩
    · exact ih (by omega) (unseen_succ unseen fun holds => other holds.2.2)
    · have here : ¬ Holds map t.view key (slot map.capacity (map.start key) i) :=
        fun holds => miss ⟨holds.2.1, holds_hash wf inv holds⟩
      refine post_ite (fun none => ?_) (fun _ => ?_)
      · exact ⟨rfl, absent_of_chns wf inv step (unseen_succ unseen here) none⟩
      · exact ih (by omega) (unseen_succ unseen here)

/-- The table after a path of `i` steps from `s` was counted in or out and the
entry at its end was written. -/
structure Rewritten (map : NfosMap K) (s i : Nat) (delta : Int)
    (write : NfosMapEntry K → NfosMapEntry K) (E F : Nat → NfosMapEntry K) : Prop where
  atEnd : F (slot map.capacity s i) = write (E (slot map.capacity s i))
  passed : ∀ j, Passed map.capacity s i j → F j = { E j with chns := (E j).chns + delta }
  other : ∀ j, j ≠ slot map.capacity s i → ¬ Passed map.capacity s i j → F j = E j

theorem post_rewritten (wf : map.WellFormed) {s : Nat} (start : s < map.capacity)
    (step : i < map.capacity) {delta : Int} (write : NfosMapEntry K → NfosMapEntry K) :
    Post (updateChain map s i delta (t.ref (slot map.capacity s i)) write) grants t fun _ t' =>
      Rewritten map s i delta write t.view t'.view ∧ t'.locks = t.locks ++ lockOrder map.capacity s i := by
  refine (post_updateChain wf start step (Log.object_ref _ _) write).mono fun _ t' written => ?_
  obtain ⟨view, locks⟩ := written
  refine ⟨?_, locks⟩
  have apart : ∀ j, Passed map.capacity s i j → j ≠ slot map.capacity s i := by
    rintro j passed rfl
    exact not_passed_slot start step passed
  constructor
  · rw [view]
    simp
  · intro j passed
    rw [view]
    simp [passed, apart j passed]
  · intro j away behind
    rw [view]
    simp [behind, away]

/-- The outcome of putting a key that is absent. -/
def Put (map : NfosMap K) (key : K) (value : Int) (E : Nat → NfosMapEntry K) :
    Bool → (Nat → NfosMapEntry K) → Prop
  | false, F => F = E ∧ ∀ j < map.capacity, Busy E j
  | true, F => ∃ i < map.capacity, ¬ Busy E (slot map.capacity (map.start key) i) ∧
      Rewritten map (map.start key) i 1
        (fun e => { e with busybits := 1, key := key, khs := map.khash key, vals := value }) E F

/-- The locks that a call takes: none if it returns 0, otherwise those of the path to `i`. -/
def TakesLocks (map : NfosMap K) (key : K) (Q : Nat → Prop) (t : Log (NfosMapEntry K)) : Bool → Log (NfosMapEntry K) → Prop
  | false, t' => t' = t
  | true, t' => ∃ i < map.capacity, Q i ∧ t'.locks = t.locks ++ lockOrder map.capacity (map.start key) i

/-- The slot that is filled. -/
def Fills (map : NfosMap K) (key : K) (value : Int) (E F : Nat → NfosMapEntry K) (i : Nat) : Prop :=
  ¬ Busy E (slot map.capacity (map.start key) i) ∧
    Rewritten map (map.start key) i 1
      (fun e => { e with busybits := 1, key := key, khs := map.khash key, vals := value }) E F

theorem post_putLoop_locks (wf : map.WellFormed) (value : Int) (m : Nat) (rest : i + m = map.capacity)
    (taken : ∀ d < i, Busy t.view (slot map.capacity (map.start key) d)) :
    Post (putLoop map key value (map.khash key) (map.start key) (List.range' i m)) grants t fun result t' =>
      Put map key value t.view result t'.view ∧ TakesLocks map key (Fills map key value t.view t'.view) t result t' := by
  induction m generalizing i with
  | zero =>
    refine ⟨⟨rfl, fun j target => ?_⟩, rfl⟩
    rw [← slot_dist (start_lt wf key) target]
    have := dist_lt (s := map.start key) (j := j) wf.positive
    exact taken _ (by omega)
  | succ m ih =>
    have step : i < map.capacity := by omega
    simp only [List.range'_succ, putLoop, index_eq wf (start_lt wf key) step, post_bind, post_deref,
      post_read, Log.read_ref]
    refine post_ite (fun free => ?_) (fun busy => ?_)
    · refine post_bind.mpr ((post_rewritten wf (start_lt wf key) step _).mono fun _ t' outcome => ?_)
      obtain ⟨written, locks⟩ := outcome
      exact ⟨⟨i, step, not_not.mpr free, written⟩, i, step, ⟨not_not.mpr free, written⟩, locks⟩
    · refine ih (by omega) fun d below => ?_
      rcases Nat.lt_succ_iff_lt_or_eq.mp below with before | rfl
      · exact taken d before
      · exact busy

theorem post_putLoop (wf : map.WellFormed) (value : Int) (m : Nat) (rest : i + m = map.capacity)
    (taken : ∀ d < i, Busy t.view (slot map.capacity (map.start key) d)) :
    Post (putLoop map key value (map.khash key) (map.start key) (List.range' i m)) grants t
      fun result t' => Put map key value t.view result t'.view :=
  (post_putLoop_locks wf value m rest taken).mono fun _ _ outcome => outcome.1

/-- The outcome of erasing a key. -/
def Erased (map : NfosMap K) (key : K) (E : Nat → NfosMapEntry K) :
    Bool → (Nat → NfosMapEntry K) → Prop
  | false, F => F = E ∧ ∀ j, ¬ Holds map E key j
  | true, F => ∃ i < map.capacity, Holds map E key (slot map.capacity (map.start key) i) ∧
      Rewritten map (map.start key) i (-1) (fun e => { e with busybits := 0 }) E F

/-- The slot that is cleared. -/
def Clears (map : NfosMap K) (key : K) (E F : Nat → NfosMapEntry K) (i : Nat) : Prop :=
  Holds map E key (slot map.capacity (map.start key) i) ∧
    Rewritten map (map.start key) i (-1) (fun e => { e with busybits := 0 }) E F

theorem post_eraseLoop_locks (wf : map.WellFormed) (inv : Invariant map t.view) (m : Nat)
    (rest : i + m = map.capacity)
    (unseen : ∀ d < i, ¬ Holds map t.view key (slot map.capacity (map.start key) d)) :
    Post (eraseLoop map key (map.khash key) (map.start key) (List.range' i m)) grants t fun result t' =>
      Erased map key t.view result t'.view ∧ TakesLocks map key (Clears map key t.view t'.view) t result t' := by
  induction m generalizing i with
  | zero => exact ⟨⟨rfl, absent_of_all wf fun d below => unseen d (by omega)⟩, rfl⟩
  | succ m ih =>
    have step : i < map.capacity := by omega
    simp only [List.range'_succ, eraseLoop, index_eq wf (start_lt wf key) step, post_bind, post_deref,
      post_read, Log.read_ref]
    refine post_ite (fun hit => post_ite (fun same => ?_) (fun other => ?_)) (fun miss => ?_)
    · refine post_bind.mpr ((post_rewritten wf (start_lt wf key) step _).mono fun _ t' outcome => ?_)
      obtain ⟨written, locks⟩ := outcome
      have holds : Holds map t.view key (slot map.capacity (map.start key) i) := ⟨slot_lt wf.positive, hit.1, same⟩
      exact ⟨⟨i, step, holds, written⟩, i, step, ⟨holds, written⟩, locks⟩
    · exact ih (by omega) (unseen_succ unseen fun holds => other holds.2.2)
    · have here : ¬ Holds map t.view key (slot map.capacity (map.start key) i) :=
        fun holds => miss ⟨holds.2.1, holds_hash wf inv holds⟩
      refine post_ite (fun none => ?_) (fun _ => ?_)
      · exact ⟨⟨rfl, absent_of_chns wf inv step (unseen_succ unseen here) none⟩, rfl⟩
      · exact ih (by omega) (unseen_succ unseen here)

theorem post_eraseLoop (wf : map.WellFormed) (inv : Invariant map t.view) (m : Nat)
    (rest : i + m = map.capacity)
    (unseen : ∀ d < i, ¬ Holds map t.view key (slot map.capacity (map.start key) d)) :
    Post (eraseLoop map key (map.khash key) (map.start key) (List.range' i m)) grants t
      fun result t' => Erased map key t.view result t'.view :=
  (post_eraseLoop_locks wf inv m rest unseen).mono fun _ _ outcome => outcome.1

end Search

section Counting
variable {s i : Nat} {delta : Int} {write : NfosMapEntry K → NfosMapEntry K}

theorem Rewritten.chns (written : Rewritten map s i delta write E F)
    (keeps : ∀ e, (write e).chns = e.chns) (j : Nat) :
    (F j).chns = (E j).chns + if Passed map.capacity s i j then delta else 0 := by
  by_cases passed : Passed map.capacity s i j
  · rw [written.passed j passed, if_pos passed]
  · rw [if_neg passed, Int.add_zero]
    by_cases same : j = slot map.capacity s i
    · rw [same, written.atEnd, keeps]
    · rw [written.other j same passed]

/-- Apart from the written entry only counters change. -/
theorem Rewritten.frame (written : Rewritten map s i delta write E F) {j : Nat}
    (other : j ≠ slot map.capacity s i) : F j = { E j with chns := (F j).chns } := by
  by_cases passed : Passed map.capacity s i j
  · rw [written.passed j passed]
  · rw [written.other j other passed]

theorem Rewritten.busy (written : Rewritten map s i delta write E F) {j : Nat}
    (other : j ≠ slot map.capacity s i) : Busy F j ↔ Busy E j := by
  unfold Busy
  rw [written.frame other]

theorem Rewritten.key (written : Rewritten map s i delta write E F) {j : Nat}
    (other : j ≠ slot map.capacity s i) : (F j).key = (E j).key := by
  rw [written.frame other]

/-- One more stored key is one more path through the entries before its slot. -/
theorem crossings_add (start : s < map.capacity) (step : i < map.capacity)
    (free : ¬ Busy E (slot map.capacity s i)) (busy : Busy F (slot map.capacity s i))
    (origin : map.start (F (slot map.capacity s i)).key = s)
    (others : ∀ j, j ≠ slot map.capacity s i → (Busy F j ↔ Busy E j) ∧ (F j).key = (E j).key)
    {j : Nat} (target : j < map.capacity) :
    crossings map F j = crossings map E j + if Passed map.capacity s i j then 1 else 0 := by
  have same : ∀ k, k ≠ slot map.capacity s i → (Crosses map F j k ↔ Crosses map E j k) := by
    intro k other
    unfold Crosses
    rw [(others k other).1, (others k other).2]
  have ends : Crosses map F j (slot map.capacity s i) ↔ Passed map.capacity s i j := by
    unfold Crosses Passed
    rw [origin, dist_slot start step]
    simp [busy, target]
  by_cases passed : Passed map.capacity s i j
  · rw [if_pos passed]
    exact card_filter_insert (slot_lt (by omega)) (fun crosses => free crosses.1) (ends.mpr passed) same
  · rw [if_neg passed, Nat.add_zero]
    refine card_filter_same fun k _ => ?_
    by_cases atEnd : k = slot map.capacity s i
    · subst atEnd
      rw [ends]
      exact ⟨fun h => absurd h passed, fun h => absurd h.1 free⟩
    · exact same k atEnd

variable {key : K} {value : Int}

theorem Put.invariant (wf : map.WellFormed) (inv : Invariant map E) (absent : ∀ j, ¬ Holds map E key j)
    (put : Put map key value E true F) : Invariant map F := by
  obtain ⟨i, step, free, written⟩ := put
  have start := start_lt wf key
  have atEnd := written.atEnd
  have alone : ∀ j < map.capacity, j ≠ slot map.capacity (map.start key) i → Busy E j →
      map.keysEq (E j).key key = false := by
    intro j target _ busy
    have missing := absent j
    simp only [Holds, target, busy, true_and] at missing
    exact Bool.eq_false_iff.mpr missing
  constructor
  · intro j target busy
    by_cases same : j = slot map.capacity (map.start key) i
    · rw [same, atEnd]
    · rw [written.frame same]
      exact inv.hashed j target ((written.busy same).mp busy)
  · intro j first k second busyFirst busySecond equal
    by_cases same : j = slot map.capacity (map.start key) i
    · by_cases again : k = slot map.capacity (map.start key) i
      · rw [same, again]
      · rw [same, atEnd, written.key again] at equal
        have apart := alone k second again ((written.busy again).mp busySecond)
        rw [Assoc.eq_symm wf.lawful] at apart
        rw [apart] at equal
        contradiction
    · by_cases again : k = slot map.capacity (map.start key) i
      · rw [again, atEnd, written.key same] at equal
        rw [alone j first same ((written.busy same).mp busyFirst)] at equal
        contradiction
      · rw [written.key same, written.key again] at equal
        exact inv.distinct j first k second ((written.busy same).mp busyFirst)
          ((written.busy again).mp busySecond) equal
  · intro j target
    rw [written.chns (fun _ => rfl), inv.chains j target, crossings_add start step free
      (by simp [Busy, atEnd]) (by rw [atEnd]) (fun k other => ⟨written.busy other, written.key other⟩) target]
    split <;> simp

theorem Erased.invariant (wf : map.WellFormed) (inv : Invariant map E)
    (erased : Erased map key E true F) : Invariant map F := by
  obtain ⟨i, step, holds, written⟩ := erased
  have start := start_lt wf key
  have free : ¬ Busy F (slot map.capacity (map.start key) i) := by simp [Busy, written.atEnd]
  have kept : ∀ j, Busy F j → j ≠ slot map.capacity (map.start key) i := by
    rintro j busy rfl
    exact free busy
  constructor
  · intro j target busy
    rw [written.frame (kept j busy)]
    exact inv.hashed j target ((written.busy (kept j busy)).mp busy)
  · intro j first k second busyFirst busySecond equal
    rw [written.key (kept j busyFirst), written.key (kept k busySecond)] at equal
    exact inv.distinct j first k second ((written.busy (kept j busyFirst)).mp busyFirst)
      ((written.busy (kept k busySecond)).mp busySecond) equal
  · intro j target
    have origin : map.start (E (slot map.capacity (map.start key) i)).key = map.start key :=
      congrArg (· % map.capacity) (wf.hash _ _ holds.2.2)
    have counted := crossings_add start step free holds.2.1 origin
      (fun k other => ⟨(written.busy other).symm, (written.key other).symm⟩) target
    rw [written.chns (fun _ => rfl), inv.chains j target, counted]
    split <;> simp

end Counting
end Nfos.Map
