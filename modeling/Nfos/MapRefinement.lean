import Nfos.MapInvariant
import Nfos.Lib.Loop

/-! `NfosMap` refines a finite map of bounded size: the committed calls of any
cores are those of an association list over the keys that are stored. -/
namespace Nfos.Map
open Txn Tx Function Probe Run BoundedMap
variable {K : Type} {map : NfosMap K} {E F : Nat → NfosMapEntry K} {key : K} {value : Int}

/-- The stored keys and values are those of an association list. -/
structure Represents (map : NfosMap K) (E : Nat → NfosMapEntry K) (m : Assoc map.keysEq Int) : Prop where
  size : m.entries.length = ((Finset.range map.capacity).filter (Busy E)).card
  stores : ∀ k v, (∃ p ∈ m.entries, map.keysEq p.1 k = true ∧ p.2 = v) ↔
    ∃ j, Holds map E k j ∧ (E j).vals = v

section Simulation
variable {m : Assoc map.keysEq Int}

theorem Represents.find_none (represents : Represents map E m) :
    m.find key = none ↔ ∀ j, ¬ Holds map E key j := by
  rw [Assoc.find_eq_none]
  constructor
  · intro absent j holds
    obtain ⟨p, member, same, _⟩ := (represents.stores key _).mpr ⟨j, holds, rfl⟩
    rw [absent p member] at same
    contradiction
  · intro absent p member
    cases same : map.keysEq p.1 key with
    | false => rfl
    | true =>
      obtain ⟨j, holds, _⟩ := (represents.stores key p.2).mp ⟨p, member, same, rfl⟩
      exact absurd holds (absent j)

theorem put_represents (wf : map.WellFormed) (represents : Represents map E m)
    (absent : m.find key = none) (put : Put map key value E true F) :
    m.entries.length < map.capacity ∧ Represents map F (m.insert wf.lawful key value absent) := by
  obtain ⟨i, step, free, written⟩ := put
  have target : slot map.capacity (map.start key) i < map.capacity := slot_lt wf.positive
  have busy : Busy F (slot map.capacity (map.start key) i) := by simp [Busy, written.atEnd]
  have grown : ((Finset.range map.capacity).filter (Busy F)).card =
      ((Finset.range map.capacity).filter (Busy E)).card + 1 :=
    card_filter_insert target free busy fun j other => written.busy other
  have most : ((Finset.range map.capacity).filter (Busy F)).card ≤ map.capacity := by
    simpa using Finset.card_filter_le (Finset.range map.capacity) (Busy F)
  refine ⟨by rw [represents.size]; omega, ?_, fun k v => ?_⟩
  · rw [grown, ← represents.size]
    rfl
  · simp only [Assoc.insert, List.mem_cons, or_and_right, exists_or, exists_eq_left, represents.stores]
    constructor
    · rintro (⟨same, rfl⟩ | ⟨j, holds, value⟩)
      · exact ⟨_, ⟨target, busy, by rwa [written.atEnd]⟩, by rw [written.atEnd]⟩
      · have other : j ≠ slot map.capacity (map.start key) i := by
          rintro rfl
          exact free holds.2.1
        refine ⟨j, ⟨holds.1, (written.busy other).mpr holds.2.1, ?_⟩, ?_⟩
        · rw [written.key other]
          exact holds.2.2
        · rw [written.frame other]
          exact value
    · rintro ⟨j, holds, value⟩
      by_cases same : j = slot map.capacity (map.start key) i
      · subst same
        obtain ⟨_, _, equal⟩ := holds
        rw [written.atEnd] at equal value
        exact Or.inl ⟨equal, value⟩
      · refine Or.inr ⟨j, ⟨holds.1, (written.busy same).mp holds.2.1, ?_⟩, ?_⟩
        · rw [← written.key same]
          exact holds.2.2
        · rw [written.frame same] at value
          exact value

theorem erase_represents (wf : map.WellFormed) (inv : Invariant map E) (represents : Represents map E m)
    (erased : Erased map key E true F) : m.find key ≠ none ∧ Represents map F (m.erase key) := by
  obtain ⟨i, step, holds, written⟩ := erased
  have present : m.find key ≠ none := by
    rw [ne_eq, represents.find_none]
    exact fun absent => absent _ holds
  have free : ¬ Busy F (slot map.capacity (map.start key) i) := by simp [Busy, written.atEnd]
  have shrunk : ((Finset.range map.capacity).filter (Busy E)).card =
      ((Finset.range map.capacity).filter (Busy F)).card + 1 :=
    card_filter_insert (slot_lt wf.positive) free holds.2.1 fun j other => (written.busy other).symm
  obtain ⟨p, member, same, _⟩ := (represents.stores key _).mpr ⟨_, holds, rfl⟩
  refine ⟨present, ?_, fun k v => ?_⟩
  · have less := Assoc.length_erase wf.lawful member same
    have size := represents.size
    omega
  · have atEnd : ∀ j, Busy F j → j ≠ slot map.capacity (map.start key) i := by
      rintro j busy rfl
      exact free busy
    by_cases erasedKey : map.keysEq key k = true
    · -- Both sides are empty: no other entry holds an equal key.
      constructor
      · rintro ⟨q, inside, equal, _⟩
        have kept := (List.mem_filter.mp inside).2
        rw [wf.lawful.trans equal (wf.lawful.symm erasedKey)] at kept
        contradiction
      · rintro ⟨j, ⟨target, busy, equal⟩, _⟩
        have other := atEnd j busy
        rw [written.key other] at equal
        refine absurd (inv.distinct j target _ holds.1 ((written.busy other).mp busy) holds.2.1 ?_) other
        exact wf.lawful.trans equal (wf.lawful.trans (wf.lawful.symm erasedKey) (wf.lawful.symm holds.2.2))
    · have filtered : (∃ q ∈ (m.erase key).entries, map.keysEq q.1 k = true ∧ q.2 = v) ↔
          ∃ q ∈ m.entries, map.keysEq q.1 k = true ∧ q.2 = v := by
        constructor
        · rintro ⟨q, inside, found⟩
          exact ⟨q, (List.mem_filter.mp inside).1, found⟩
        · rintro ⟨q, inside, equal, value⟩
          refine ⟨q, List.mem_filter.mpr ⟨inside, ?_⟩, equal, value⟩
          rw [Bool.not_eq_true', Bool.eq_false_iff]
          exact fun gone => erasedKey (wf.lawful.trans (wf.lawful.symm gone) equal)
      rw [filtered, represents.stores]
      constructor
      · rintro ⟨j, ⟨target, busy, equal⟩, value⟩
        have other : j ≠ slot map.capacity (map.start key) i := by
          rintro rfl
          exact erasedKey (wf.lawful.trans (wf.lawful.symm holds.2.2) equal)
        refine ⟨j, ⟨target, (written.busy other).mpr busy, ?_⟩, ?_⟩
        · rwa [written.key other]
        · rwa [written.frame other]
      · rintro ⟨j, ⟨target, busy, equal⟩, value⟩
        have other := atEnd j busy
        rw [written.key other] at equal
        rw [written.frame other] at value
        exact ⟨j, ⟨target, (written.busy other).mp busy, equal⟩, value⟩

end Simulation

/-- The committed calls with their results. The header asks that a key is put
only when it is absent. -/
inductive Step (map : NfosMap K) :
    (Nat → NfosMapEntry K) → Event K Int → (Nat → NfosMapEntry K) → Prop where
  | get {E F grants} (key : K) (result : Option Int) :
      atomically (nfosMapGet map key) grants E = some (result, F) → Step map E (.got key result) F
  | store {E F grants} (key : K) (value : Int) : (∀ j, ¬ Holds map E key j) →
      atomically (nfosMapPut map key value) grants E = some (true, F) → Step map E (.stored key value) F
  | full {E F grants} (key : K) (value : Int) : (∀ j, ¬ Holds map E key j) →
      atomically (nfosMapPut map key value) grants E = some (false, F) → Step map E (.full key value) F
  | erase {E F grants} (key : K) :
      atomically (nfosMapErase map key) grants E = some (true, F) → Step map E (.erased key) F
  | miss {E F grants} (key : K) :
      atomically (nfosMapErase map key) grants E = some (false, F) → Step map E (.missing key) F

section Runs
variable {m : Assoc map.keysEq Int} {grants : Nat → Bool} {t : Log (NfosMapEntry K)}

theorem post_get (wf : map.WellFormed) (inv : Invariant map t.view) (key : K) :
    Post (nfosMapGet map key) grants t fun result t' => t' = t ∧ match result with
      | none => ∀ j, ¬ Holds map t.view key j
      | some v => ∃ j, Holds map t.view key j ∧ (t.view j).vals = v := by
  simp only [nfosMapGet, and_capacity wf, List.range_eq_range']
  exact post_getLoop wf inv map.capacity (Nat.zero_add _) fun d below => absurd below (Nat.not_lt_zero d)

theorem post_put (wf : map.WellFormed) (key : K) (value : Int) :
    Post (nfosMapPut map key value) grants t fun result t' =>
      Put map key value t.view result t'.view := by
  simp only [nfosMapPut, and_capacity wf, List.range_eq_range']
  exact post_putLoop wf value map.capacity (Nat.zero_add _) fun d below => absurd below (Nat.not_lt_zero d)

theorem post_erase (wf : map.WellFormed) (inv : Invariant map t.view) (key : K) :
    Post (nfosMapErase map key) grants t fun result t' => Erased map key t.view result t'.view := by
  simp only [nfosMapErase, and_capacity wf, List.range_eq_range']
  exact post_eraseLoop wf inv map.capacity (Nat.zero_add _) fun d below => absurd below (Nat.not_lt_zero d)

/-- What every event says about the table itself. -/
def Unchanged : Event K Int → Prop
  | .got _ _ | .full _ _ | .missing _ => True
  | .stored _ _ | .erased _ => False

theorem step_refines {e : Event K Int} (wf : map.WellFormed) (inv : Invariant map E)
    (represents : Represents map E m) (step : Step map E e F) :
    Invariant map F ∧ (Unchanged e → F = E) ∧
      ∃ m', Represents map F m' ∧ BoundedMap.Step map.capacity m e m' := by
  cases step with
  | get key result ran =>
    obtain ⟨t, ⟨rfl, outcome⟩, rfl⟩ := (post_get (t := .start E) wf inv key).commit ran
    refine ⟨inv, fun _ => rfl, m, represents, ?_, rfl⟩
    cases result with
    | none => exact represents.find_none.mpr outcome
    | some v => exact (Assoc.find_eq_some wf.lawful).mpr ((represents.stores key v).mpr outcome)
  | store key value absent ran =>
    obtain ⟨t, outcome, rfl⟩ := (post_put (t := .start E) wf key value).commit ran
    have missing : m.find key = none := represents.find_none.mpr absent
    obtain ⟨room, represents'⟩ := put_represents wf represents missing outcome
    exact ⟨outcome.invariant wf inv absent, fun h => h.elim, _, represents', missing, room, rfl⟩
  | full key value absent ran =>
    obtain ⟨t, ⟨same, taken⟩, rfl⟩ := (post_put (t := .start E) wf key value).commit ran
    rw [Log.view_start] at same taken
    rw [same]
    refine ⟨inv, fun _ => rfl, m, represents, represents.find_none.mpr absent, ?_, rfl⟩
    rw [represents.size, Finset.filter_true_of_mem fun j member => taken j (Finset.mem_range.mp member),
      Finset.card_range]
  | erase key ran =>
    obtain ⟨t, outcome, rfl⟩ := (post_erase (t := .start E) wf inv key).commit ran
    obtain ⟨present, represents'⟩ := erase_represents wf inv represents outcome
    exact ⟨outcome.invariant wf inv, fun h => h.elim, _, represents', present, rfl⟩
  | miss key ran =>
    obtain ⟨t, ⟨same, absent⟩, rfl⟩ := (post_erase (t := .start E) wf inv key).commit ran
    rw [Log.view_start] at same
    rw [same]
    exact ⟨inv, fun _ => rfl, m, represents, represents.find_none.mpr absent, rfl⟩

/-- Without contention every call commits. -/
theorem calls_commit (wf : map.WellFormed) (inv : Invariant map E) (key : K) (value : Int) :
    (∃ result F, Step map E (.got key result) F) ∧
    ((∀ j, ¬ Holds map E key j) → ∃ F, Step map E (.stored key value) F ∨ Step map E (.full key value) F) ∧
    ∃ F, Step map E (.erased key) F ∨ Step map E (.missing key) F := by
  have granted : ∀ i : Nat, (fun _ => true : Nat → Bool) i = true := fun _ => rfl
  refine ⟨?_, fun absent => ?_, ?_⟩
  · obtain ⟨result, t, ran, _⟩ := (post_get (t := .start E) wf inv key).commits granted
    exact ⟨result, _, .get key result ran⟩
  · obtain ⟨result, t, ran, _⟩ := (post_put (t := .start E) wf key value).commits granted
    cases result with
    | false => exact ⟨_, Or.inr (.full key value absent ran)⟩
    | true => exact ⟨_, Or.inl (.store key value absent ran)⟩
  · obtain ⟨result, t, ran, _⟩ := (post_erase (t := .start E) wf inv key).commits granted
    cases result with
    | false => exact ⟨_, Or.inr (.miss key ran)⟩
    | true => exact ⟨_, Or.inl (.erase key ran)⟩

end Runs

section Allocate
variable {keq : K → K → Bool} {khash : K → Nat} {c : Nat} (entries : Nat → NfosMapEntry K)

theorem allocate_wellFormed (lawful : Equivalence fun a b => keq a b = true)
    (hash : ∀ a b, keq a b = true → khash a = khash b) (positive : 1 ≤ c) (bound : c ≤ 2 ^ 31) :
    (nfosMapAllocate keq khash c entries).1.WellFormed where
  power := ⟨Nat.clog 2 c, Nat.clog_le_of_le_pow bound, nextPow2_eq positive bound⟩
  lawful := lawful
  hash := hash

theorem allocate_entry {j : Nat} (within : j < nextPow2 c) :
    ((nfosMapAllocate keq khash c entries).2 j).busybits = 0 ∧
      ((nfosMapAllocate keq khash c entries).2 j).chns = 0 := by
  have both := Loop.foldl_write (fun E : Nat → NfosMapEntry K => ((E j).busybits, (E j).chns))
    (fun i E => update E i { E i with busybits := 0, chns := 0 }) entries within (v := (0, 0))
    (by simp) (by
      intro y _ other E
      simp [update_of_ne (Ne.symm other)])
  exact Prod.mk.inj both

/-- A new map has neither keys nor paths. -/
theorem allocate_invariant :
    Invariant (nfosMapAllocate keq khash c entries).1 (nfosMapAllocate keq khash c entries).2 ∧
      Represents (nfosMapAllocate keq khash c entries).1 (nfosMapAllocate keq khash c entries).2
        (.empty keq Int) := by
  have free : ∀ j < nextPow2 c, ¬ Busy (nfosMapAllocate keq khash c entries).2 j :=
    fun j within => not_not.mpr (allocate_entry entries within).1
  constructor
  · constructor
    · intro j within busy
      exact absurd busy (free j within)
    · intro i within j _ busy
      exact absurd busy (free i within)
    · intro j within
      rw [(allocate_entry entries within).2, crossings, Finset.filter_false_of_mem]
      · rfl
      · intro k member crosses
        exact free k (Finset.mem_range.mp member) crosses.1
  · constructor
    · rw [Finset.filter_false_of_mem]
      · rfl
      · intro k member
        exact free k (Finset.mem_range.mp member)
    · intro k v
      constructor
      · rintro ⟨p, member, _⟩
        exact absurd member List.not_mem_nil
      · rintro ⟨j, holds, _⟩
        exact absurd holds.2.1 (free j holds.1)

/-- The committed calls of any run are those of a finite map with at most as
many keys as the rounded capacity, refused calls change no entry, and every
chain counter is the number of paths through its entry. -/
theorem nfosMap_refines_bounded_map (lawful : Equivalence fun a b => keq a b = true)
    (hash : ∀ a b, keq a b = true → khash a = khash b) (positive : 1 ≤ c) (bound : c ≤ 2 ^ 31) :
    ∃ map E, nfosMapAllocate keq khash c entries = (map, E) ∧
      (∃ k, map.capacity = 2 ^ k) ∧ c ≤ map.capacity ∧ (∀ k, c ≤ 2 ^ k → map.capacity ≤ 2 ^ k) ∧
      ∀ history F, Trace (Step map) E history F →
        (∀ j < map.capacity, (F j).chns = crossings map F j) ∧
        (∃ m, Represents map F m ∧
          Trace (BoundedMap.Step map.capacity) (Assoc.empty map.keysEq Int) history m) ∧
        ∀ e G, Unchanged e → Step map F e G → G = F := by
  have wf := allocate_wellFormed entries lawful hash positive bound
  obtain ⟨initial, nothing⟩ := @allocate_invariant K keq khash c entries
  obtain ⟨above, least⟩ := nextPow2_least positive bound
  refine ⟨_, _, rfl, ⟨_, nextPow2_eq positive bound⟩, above, least, fun history F run => ?_⟩
  have kept := run.rule (P := fun history F => Invariant (nfosMapAllocate keq khash c entries).1 F ∧
    ∃ m, Represents (nfosMapAllocate keq khash c entries).1 F m ∧
      Trace (BoundedMap.Step (nextPow2 c)) (Assoc.empty keq Int) history m)
    ⟨initial, _, nothing, .start⟩ fun past F e G _ before last => by
      obtain ⟨inv, m, represents, abstract⟩ := before
      obtain ⟨inv', _, m', represents', refined⟩ := step_refines wf inv represents last
      exact ⟨inv', m', represents', abstract.extend refined⟩
  obtain ⟨inv, m, represents, abstract⟩ := kept
  refine ⟨inv.chains, ⟨m, represents, abstract⟩, fun e G quiet last => ?_⟩
  exact (step_refines wf inv represents last).2.1 quiet

end Allocate

/-- Keys that are compared modulo 8 and hashed modulo 4, in a map for six keys. -/
theorem nfosMap_refines_mod_keys :
    ∃ map E, nfosMapAllocate (fun a b : Nat => a % 8 == b % 8) (· % 4) 6
        (fun _ => ⟨1, 0, 7, 0, 0⟩) = (map, E) ∧
      (∃ k, map.capacity = 2 ^ k) ∧ 6 ≤ map.capacity ∧ (∀ k, 6 ≤ 2 ^ k → map.capacity ≤ 2 ^ k) ∧
      ∀ history F, Trace (Step map) E history F →
        (∀ j < map.capacity, (F j).chns = crossings map F j) ∧
        (∃ m, Represents map F m ∧
          Trace (BoundedMap.Step map.capacity) (Assoc.empty map.keysEq Int) history m) ∧
        ∀ e G, Unchanged e → Step map F e G → G = F := by
  apply nfosMap_refines_bounded_map
  · constructor
    · intro a
      simp
    · intro a b same
      simp only [beq_iff_eq] at same ⊢
      exact same.symm
    · intro a b c first second
      simp only [beq_iff_eq] at first second ⊢
      exact first.trans second
  · intro a b same
    simp only [beq_iff_eq] at same
    omega
  · decide
  · decide

end Nfos.Map
