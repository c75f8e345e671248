import Nfos.NextPow2
import Nfos.Lib.Txn
import Nfos.Lib.Probe

/-! `NfosMap`: a transactional hash map with linear probing. An entry counts in
`chns` the stored keys whose probe paths pass it, so that a search can end early
although erasing leaves holes. -/
namespace Nfos.Map
open Txn Tx Function Probe
variable {K : Type}

structure NfosMapEntry (K : Type) where
  busybits : Int
  khs : Nat
  chns : Int
  vals : Int
  key : K
  deriving DecidableEq

/-- The entries are the objects of the transactions. Hashes are 32-bit words. -/
structure NfosMap (K : Type) where
  capacity : Nat
  keysEq : K → K → Bool
  khash : K → Nat

def nfosMapAllocate (keq : K → K → Bool) (khash : K → Nat) (capacity : Nat)
    (entries : Nat → NfosMapEntry K) : NfosMap K × (Nat → NfosMapEntry K) :=
  let capacity := nextPow2 capacity
  (⟨capacity, keq, khash⟩, (List.range capacity).foldl
    (fun entries i => update entries i { entries i with busybits := 0, chns := 0 }) entries)

/-- Addition of `unsigned` values. -/
def plus (a b : Nat) : Nat := (a + b) % 2 ^ 32

def getLoop (map : NfosMap K) (key : K) (hash start : Nat) :
    List Nat → Tx (NfosMapEntry K) (Option Int)
  | [] => return none
  | i :: rest => do
    let index := plus start i &&& (map.capacity - 1)
    let entry ← deref index
    let entry ← read entry
    if entry.busybits ≠ 0 ∧ entry.khs = hash then
      if map.keysEq entry.key key then
        return some entry.vals
      else
        getLoop map key hash start rest
    else if entry.chns = 0 then
      return none
    else
      getLoop map key hash start rest

/-- The value returned with 1, `none` for the return value 0. -/
def nfosMapGet (map : NfosMap K) (key : K) : Tx (NfosMapEntry K) (Option Int) :=
  let hash := map.khash key
  let start := hash &&& (map.capacity - 1)
  getLoop map key hash start (List.range map.capacity)

/-- Lock the given entries in order and adapt their chain counters. -/
def updateChns (delta : Int) : List Nat → Tx (NfosMapEntry K) Unit
  | [] => return ()
  | k :: rest => do
    let affectedEntry ← tryLockAt k
    modify affectedEntry fun e => { e with chns := e.chns + delta }
    updateChns delta rest

/-- Write an entry that is `i` steps from `start` and update its chain in
canonical order: the entries wrapped around come first. -/
def updateChain (map : NfosMap K) (start i : Nat) (delta : Int) (entry : Ref (NfosMapEntry K))
    (write : NfosMapEntry K → NfosMapEntry K) : Tx (NfosMapEntry K) Unit := do
  if plus start i ≥ map.capacity then
    updateChns delta (List.range (plus start i - map.capacity))
    let entry ← tryLock entry
    modify entry write
    updateChns delta (List.range' start (map.capacity - start))
  else
    updateChns delta (List.range' start (plus start i - start))
    let entry ← tryLock entry
    modify entry write

def putLoop (map : NfosMap K) (key : K) (value : Int) (hash start : Nat) :
    List Nat → Tx (NfosMapEntry K) Bool
  | [] => return false
  | i :: rest => do
    let index := plus start i &&& (map.capacity - 1)
    let entry ← deref index
    if (← read entry).busybits = 0 then
      updateChain map start i 1 entry
        fun e => { e with busybits := 1, key := key, khs := hash, vals := value }
      return true
    else
      putLoop map key value hash start rest

/-- `true` for the return value 1, `false` for 0. -/
def nfosMapPut (map : NfosMap K) (key : K) (value : Int) : Tx (NfosMapEntry K) Bool :=
  let hash := map.khash key
  let start := hash &&& (map.capacity - 1)
  putLoop map key value hash start (List.range map.capacity)

def eraseLoop (map : NfosMap K) (key : K) (hash start : Nat) :
    List Nat → Tx (NfosMapEntry K) Bool
  | [] => return false
  | i :: rest => do
    let index := plus start i &&& (map.capacity - 1)
    let entryp ← deref index
    let entry ← read entryp
    if entry.busybits ≠ 0 ∧ entry.khs = hash then
      if map.keysEq entry.key key then
        updateChain map start i (-1) entryp fun e => { e with busybits := 0 }
        return true
      else
        eraseLoop map key hash start rest
    else if entry.chns = 0 then
      return false
    else
      eraseLoop map key hash start rest

/-- `true` for the return value 1, `false` for 0. -/
def nfosMapErase (map : NfosMap K) (key : K) : Tx (NfosMapEntry K) Bool :=
  let hash := map.khash key
  let start := hash &&& (map.capacity - 1)
  eraseLoop map key hash start (List.range map.capacity)

/-- A capacity as `nfos_map_allocate` rounds it, with keys that hash alike when
they are equal. -/
structure NfosMap.WellFormed (map : NfosMap K) : Prop where
  power : ∃ k ≤ 31, map.capacity = 2 ^ k
  lawful : Equivalence fun a b => map.keysEq a b = true
  hash : ∀ a b, map.keysEq a b = true → map.khash a = map.khash b

/-- The slot where the search for a key starts. -/
def NfosMap.start (map : NfosMap K) (key : K) : Nat := map.khash key % map.capacity

section Arithmetic
variable {map : NfosMap K} (wf : map.WellFormed) {s i : Nat}
include wf

theorem NfosMap.WellFormed.positive : 0 < map.capacity := by
  obtain ⟨k, _, size⟩ := wf.power
  rw [size]
  exact Nat.two_pow_pos k

theorem NfosMap.WellFormed.bound : map.capacity ≤ 2 ^ 31 := by
  obtain ⟨k, small, size⟩ := wf.power
  rw [size]
  exact Nat.pow_le_pow_right (by omega) small

theorem and_capacity (x : Nat) : x &&& (map.capacity - 1) = x % map.capacity := by
  obtain ⟨k, _, size⟩ := wf.power
  rw [size, Nat.and_two_pow_sub_one_eq_mod]

theorem start_lt (key : K) : map.start key < map.capacity := Nat.mod_lt _ wf.positive

/-- No sum of two slots overflows. -/
theorem plus_eq (start : s < map.capacity) (step : i < map.capacity) : plus s i = s + i := by
  have := wf.bound
  exact Nat.mod_eq_of_lt (by omega)

theorem index_eq (start : s < map.capacity) (step : i < map.capacity) :
    plus s i &&& (map.capacity - 1) = slot map.capacity s i := by
  rw [plus_eq wf start step, and_capacity wf, slot]

end Arithmetic

section Chain
variable {map : NfosMap K} {grants : Nat → Bool} {t : Log (NfosMapEntry K)} {s i : Nat} {delta : Int}

theorem post_updateChns (ks : List Nat) (distinct : ks.Nodup) :
    Post (updateChns delta ks) grants t fun _ t' =>
      t'.view = (fun j => if j ∈ ks then { t.view j with chns := (t.view j).chns + delta } else t.view j) ∧
      t'.locks = t.locks ++ ks := by
  induction ks generalizing t with
  | nil => simp [updateChns]
  | cons k ks ih =>
    obtain ⟨absent, rest⟩ := List.nodup_cons.mp distinct
    refine post_bind.mpr (post_tryLockAt ?_)
    simp only [post_bind, post_modify]
    refine (ih rest).mono fun _ t' updated => ?_
    obtain ⟨view, locks⟩ := updated
    constructor
    · rw [view]
      funext j
      by_cases same : j = k
      · subst same
        simp [absent]
      · simp [same]
    · rw [locks]
      simp

/-- The entries in the order in which `updateChain` locks them. -/
def lockOrder (capacity s i : Nat) : List Nat :=
  if s + i ≥ capacity then
    List.range (s + i - capacity) ++ [s + i - capacity] ++ List.range' s (capacity - s)
  else List.range' s i ++ [s + i]

/-- The entry at the end of the path is written, those before it are counted. -/
theorem post_updateChain (wf : map.WellFormed) (start : s < map.capacity) (step : i < map.capacity)
    {entry : Ref (NfosMapEntry K)} (object : entry.object = slot map.capacity s i)
    (write : NfosMapEntry K → NfosMapEntry K) :
    Post (updateChain map s i delta entry write) grants t fun _ t' =>
      t'.view = (fun j => if j = slot map.capacity s i then write (t.view j)
        else if Passed map.capacity s i j then { t.view j with chns := (t.view j).chns + delta }
        else t.view j) ∧
      t'.locks = t.locks ++ lockOrder map.capacity s i := by
  simp only [updateChain, plus_eq wf start step]
  refine post_ite (fun wraps => ?_) (fun straight => ?_)
  · have atEnd : slot map.capacity s i = s + i - map.capacity := by
      rw [slot_eq start step, if_neg (by omega)]
    refine post_bind.mpr ((post_updateChns _ List.nodup_range).mono fun _ t₁ front => ?_)
    refine post_bind.mpr (post_tryLock ?_)
    simp only [object, post_bind, post_modify]
    refine (post_updateChns _ List.nodup_range').mono fun _ t₂ back => ?_
    obtain ⟨view, locks⟩ := front
    obtain ⟨view', locks'⟩ := back
    constructor
    · rw [view']
      funext j
      simp only [Log.view_set, Log.view_lock, view, List.mem_range, List.mem_range'_1,
        passed_wrapped start step wraps, atEnd]
      by_cases same : j = s + i - map.capacity
      · subst same
        have front : ¬ s ≤ s + i - map.capacity := by omega
        simp [front]
      · have room : s + (map.capacity - s) = map.capacity := by omega
        rw [update_of_ne same, if_neg same, room]
        by_cases tail : s ≤ j ∧ j < map.capacity
        · have notFront : ¬ j < s + i - map.capacity := by omega
          simp [tail, notFront]
        · simp [tail]
    · simp [locks', locks, atEnd, lockOrder, wraps]
  · have atEnd : slot map.capacity s i = s + i := by
      rw [slot_eq start step, if_pos (by omega)]
    refine post_bind.mpr ((post_updateChns _ List.nodup_range').mono fun _ t₁ front => ?_)
    refine post_bind.mpr (post_tryLock ?_)
    simp only [object, post_modify]
    obtain ⟨view, locks⟩ := front
    constructor
    · funext j
      simp only [Log.view_set, Log.view_lock, view, List.mem_range'_1,
        passed_straight start (by omega : s + i < map.capacity), atEnd]
      by_cases same : j = s + i
      · subst same
        simp
      · simp [same]
    · simp [locks, atEnd, lockOrder, straight]

end Chain
end Nfos.Map
