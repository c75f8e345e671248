import Nfos.MapRefinement
import Nfos.Lib.Directory

/-! A map whose keys are compared field by field, as the lookup function that its calls
see. -/
namespace Nfos.Map
open Txn Tx Function Probe BoundedMap Directory
variable {K : Type} {map : NfosMap K} {E F : Nat → NfosMapEntry K} {find : K → Option Int} {key : K} {value : Int}
  {grants : Nat → Bool} {t : Log (NfosMapEntry K)}

/-- Equal keys are the same key. -/
structure NfosMap.Exact (map : NfosMap K) : Prop extends map.WellFormed where
  exact : ∀ a b, map.keysEq a b = true ↔ a = b

/-- The entries hold the keys that the lookup finds. -/
structure Lookup (map : NfosMap K) (E : Nat → NfosMapEntry K) (find : K → Option Int) : Prop where
  invariant : Invariant map E
  table : ∃ m, Represents map E m ∧ ∀ k, m.find k = find k

theorem Exact.distinct (exact : map.Exact) (m : Assoc map.keysEq Int) : (m.entries.map Prod.fst).Nodup := by
  rw [List.nodup_iff_pairwise_ne, List.pairwise_map]
  apply m.distinct.imp
  intro p q apart same
  rw [(exact.exact p.1 q.1).mpr same] at apart
  contradiction

theorem post_get_lookup (exact : map.Exact) (lookup : Lookup map t.view find) (key : K) :
    Post (nfosMapGet map key) grants t fun result t' => t' = t ∧ result = find key := by
  apply (post_get exact.toWellFormed lookup.invariant key).mono
  obtain ⟨m, represents, same⟩ := lookup.table
  rintro result t' ⟨kept, outcome⟩
  refine ⟨kept, ?_⟩
  rw [← same key]
  cases result with
  | none => exact (represents.find_none.mpr outcome).symm
  | some v => exact ((Assoc.find_eq_some exact.lawful).mpr ((represents.stores key v).mpr outcome)).symm

/-- What a call of `nfos_map_get` returns on committed entries. -/
def found (map : NfosMap K) (E : Nat → NfosMapEntry K) (key : K) : Option Int :=
  (atomically (nfosMapGet map key) (fun _ => true) E).bind Prod.fst

theorem Lookup.found_eq (lookup : Lookup map E find) (exact : map.Exact) (key : K) : found map E key = find key := by
  have posted : Post (nfosMapGet map key) (fun _ => true) (.start E) fun result t => t = .start E ∧ result = find key :=
    post_get_lookup (t := .start E) exact lookup key
  obtain ⟨result, t, ran, _, same⟩ := posted.commits fun _ => rfl
  rw [found, ran, Option.bind_some, same]

/-- A key is stored while an entry is free. -/
theorem post_put_room (exact : map.Exact) (key : K) (value : Int) :
    Post (nfosMapPut map key value) grants t fun stored _ => stored = true ↔ ∃ j < map.capacity, ¬ Busy t.view j := by
  apply (post_put exact.toWellFormed key value).mono
  intro stored t' outcome
  cases stored with
  | false =>
    refine iff_of_false nofun ?_
    rintro ⟨j, below, free⟩
    exact free (outcome.2 j below)
  | true =>
    obtain ⟨i, _, free, _⟩ := outcome
    exact iff_of_true rfl ⟨_, slot_lt exact.positive, free⟩

theorem post_put_lookup [DecidableEq K] (exact : map.Exact) (lookup : Lookup map t.view find) (absent : find key = none) (value : Int) :
    Post (nfosMapPut map key value) grants t fun stored t' =>
      if stored then Lookup map t'.view (added find key value)
      else t'.view = t.view ∧ ∃ keys : List K, keys.Nodup ∧ keys.length = map.capacity ∧ ∀ k ∈ keys, find k ≠ none := by
  apply (post_put exact.toWellFormed key value).mono
  obtain ⟨m, represents, same⟩ := lookup.table
  have missing : m.find key = none := (same key).trans absent
  intro stored t' outcome
  cases stored with
  | false =>
    obtain ⟨kept, taken⟩ := outcome
    refine ⟨kept, m.entries.map Prod.fst, Exact.distinct exact m, ?_, ?_⟩
    · rw [List.length_map, represents.size, Finset.filter_true_of_mem fun j member => taken j (Finset.mem_range.mp member),
        Finset.card_range]
    · intro k member none
      obtain ⟨p, inside, rfl⟩ := List.mem_map.mp member
      have apart := Assoc.find_eq_none.mp ((same p.1).trans none) p inside
      rw [(exact.exact p.1 p.1).mpr rfl] at apart
      contradiction
  | true =>
    obtain ⟨_, represents'⟩ := put_represents exact.toWellFormed represents missing outcome
    refine ⟨outcome.invariant exact.toWellFormed lookup.invariant (represents.find_none.mp missing), _, represents', ?_⟩
    intro k
    simp only [Assoc.find, Assoc.insert, List.find?_cons, added]
    by_cases here : k = key
    · rw [(exact.exact key k).mpr here.symm, if_pos here]
      rfl
    · have other : map.keysEq key k = false := by
        rw [Bool.eq_false_iff]
        exact fun equal => here ((exact.exact key k).mp equal).symm
      rw [other, if_neg here, ← same k]
      rfl

theorem post_erase_lookup [DecidableEq K] (exact : map.Exact) (lookup : Lookup map t.view find) (key : K) :
    Post (nfosMapErase map key) grants t fun erased t' =>
      if erased then find key ≠ none ∧ Lookup map t'.view (removed find key) else t'.view = t.view ∧ find key = none := by
  apply (post_erase exact.toWellFormed lookup.invariant key).mono
  obtain ⟨m, represents, same⟩ := lookup.table
  intro erased t' outcome
  cases erased with
  | false =>
    obtain ⟨kept, absent⟩ := outcome
    exact ⟨kept, (same key).symm.trans (represents.find_none.mpr absent)⟩
  | true =>
    obtain ⟨present, represents'⟩ := erase_represents exact.toWellFormed lookup.invariant represents outcome
    refine ⟨same key ▸ present, outcome.invariant exact.toWellFormed lookup.invariant, _, represents', ?_⟩
    intro k
    by_cases here : k = key
    · subst here
      rw [removed, if_pos rfl, Assoc.find_eq_none]
      intro p member
      simpa using (List.mem_filter.mp member).2
    · have other : ∀ p ∈ m.entries, map.keysEq p.1 k = true → (!map.keysEq p.1 key) = true := by
        intro p _ equal
        rw [Bool.not_eq_true', Bool.eq_false_iff]
        intro gone
        exact here (((exact.exact p.1 k).mp equal).symm.trans ((exact.exact p.1 key).mp gone))
      rw [removed, if_neg here, ← same k]
      apply Option.ext
      intro v
      rw [Assoc.find_eq_some exact.lawful, Assoc.find_eq_some exact.lawful]
      constructor
      · rintro ⟨p, member, equal, stored⟩
        exact ⟨p, (List.mem_filter.mp member).1, equal, stored⟩
      · rintro ⟨p, member, equal, stored⟩
        exact ⟨p, List.mem_filter.mpr ⟨member, other p member equal⟩, equal, stored⟩

/-- A new map finds no key. -/
theorem allocate_lookup (keq : K → K → Bool) (khash : K → Nat) (c : Nat) (entries : Nat → NfosMapEntry K) :
    Lookup (nfosMapAllocate keq khash c entries).1 (nfosMapAllocate keq khash c entries).2 fun _ => none :=
  ⟨(allocate_invariant entries).1, _, (allocate_invariant entries).2, fun _ => rfl⟩

theorem allocate_exact {keq : K → K → Bool} {khash : K → Nat} {c : Nat} (entries : Nat → NfosMapEntry K)
    (exact : ∀ a b, keq a b = true ↔ a = b) (positive : 1 ≤ c) (bound : c ≤ 2 ^ 31) :
    (nfosMapAllocate keq khash c entries).1.Exact := by
  constructor
  case toWellFormed =>
    apply allocate_wellFormed entries _ _ positive bound
    · constructor
      · exact fun a => (exact a a).mpr rfl
      · exact fun same => (exact _ _).mpr ((exact _ _).mp same).symm
      · exact fun first second => (exact _ _).mpr (((exact _ _).mp first).trans ((exact _ _).mp second))
    · exact fun a b same => congrArg khash ((exact a b).mp same)
  case exact => exact exact

end Nfos.Map
