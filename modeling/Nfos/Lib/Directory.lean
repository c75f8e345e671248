import Mathlib.Data.Set.Insert
import Mathlib.Data.List.Nodup
import Mathlib.Data.List.Range
import Mathlib.Data.Finset.Card
import Mathlib.Logic.Function.Basic

/-! Directories: keys get numbers, and the numbers in use, the keys stored under them and
the lookup of keys agree. -/
namespace Directory
open Function
variable {K : Type} {find : K → Option Int} {used : Set Nat} {keyOf : Nat → K}

/-- A key is found exactly as the number under which it is stored. -/
def Coherent (find : K → Option Int) (used : Set Nat) (keyOf : Nat → K) : Prop :=
  ∀ k v, find k = some v ↔ ∃ i ∈ used, v = (i : Int) ∧ keyOf i = k

/-- A lookup after a key has been added. -/
def added [DecidableEq K] (find : K → Option Int) (k : K) (v : Int) : K → Option Int :=
  fun q => if q = k then some v else find q

def removed [DecidableEq K] (find : K → Option Int) (k : K) : K → Option Int :=
  fun q => if q = k then none else find q

theorem empty (keyOf : Nat → K) : Coherent (fun _ => none) ∅ keyOf := by
  intro k v
  simp

namespace Coherent

theorem found (coherent : Coherent find used keyOf) {i : Nat} (present : i ∈ used) : find (keyOf i) = some (i : Int) :=
  (coherent _ _).mpr ⟨i, present, rfl, rfl⟩

theorem of_found (coherent : Coherent find used keyOf) {k : K} {v : Int} (found : find k = some v) :
    ∃ i ∈ used, v = (i : Int) ∧ keyOf i = k := (coherent k v).mp found

/-- Each key is stored once. -/
theorem unique (coherent : Coherent find used keyOf) {i j : Nat} (left : i ∈ used) (right : j ∈ used)
    (same : keyOf i = keyOf j) : i = j := by
  have first := coherent.found left
  rw [same, coherent.found right] at first
  exact (Int.ofNat.inj (Option.some.inj first)).symm

theorem insert [DecidableEq K] (coherent : Coherent find used keyOf) {k : K} {i : Nat} (absent : find k = none) (fresh : i ∉ used) :
    Coherent (added find k i) (insert i used) (update keyOf i k) := by
  intro q v
  by_cases same : q = k
  · subst same
    simp only [added, if_true, Option.some.injEq]
    constructor
    · rintro rfl
      exact ⟨i, Set.mem_insert _ _, rfl, update_self ..⟩
    · rintro ⟨j, member, rfl, stored⟩
      rcases Set.mem_insert_iff.mp member with rfl | old
      · rfl
      · have apart : j ≠ i := fun clash => fresh (clash ▸ old)
        rw [update_of_ne apart] at stored
        rw [← stored, coherent.found old] at absent
        contradiction
  · rw [added, if_neg same, coherent q v]
    constructor
    · rintro ⟨j, old, rfl, stored⟩
      have apart : j ≠ i := fun clash => fresh (clash ▸ old)
      exact ⟨j, Set.mem_insert_of_mem _ old, rfl, by rw [update_of_ne apart, stored]⟩
    · rintro ⟨j, member, rfl, stored⟩
      rcases Set.mem_insert_iff.mp member with rfl | old
      · rw [update_self] at stored
        exact absurd stored.symm same
      · have apart : j ≠ i := fun clash => fresh (clash ▸ old)
        rw [update_of_ne apart] at stored
        exact ⟨j, old, rfl, stored⟩

theorem remove [DecidableEq K] (coherent : Coherent find used keyOf) {i : Nat} (present : i ∈ used) :
    Coherent (removed find (keyOf i)) (used \ {i}) keyOf := by
  intro q v
  by_cases same : q = keyOf i
  · subst same
    simp only [removed, if_true, reduceCtorEq, false_iff]
    rintro ⟨j, ⟨member, apart⟩, rfl, stored⟩
    exact apart (coherent.unique member present stored)
  · rw [removed, if_neg same, coherent q v]
    constructor
    · rintro ⟨j, member, rfl, stored⟩
      exact ⟨j, ⟨member, fun clash => same (clash ▸ stored.symm)⟩, rfl, stored⟩
    · rintro ⟨j, ⟨member, _⟩, rfl, stored⟩
      exact ⟨j, member, rfl, stored⟩

/-- What is stored under numbers that are not in use does not matter. -/
theorem congr (coherent : Coherent find used keyOf) {keyOf' : Nat → K} (same : ∀ i ∈ used, keyOf' i = keyOf i) :
    Coherent find used keyOf' := by
  intro q v
  rw [coherent q v]
  constructor
  · rintro ⟨j, member, rfl, stored⟩
    exact ⟨j, member, rfl, by rw [same j member, stored]⟩
  · rintro ⟨j, member, rfl, stored⟩
    exact ⟨j, member, rfl, by rw [← same j member, stored]⟩

/-- While a number below the capacity is not in use, fewer keys than that are stored. -/
theorem room [DecidableEq K] (coherent : Coherent find used keyOf) {capacity : Nat} (bound : ∀ i ∈ used, i < capacity) {i : Nat}
    (below : i < capacity) (fresh : i ∉ used) {keys : List K} (distinct : keys.Nodup)
    (stored : ∀ k ∈ keys, find k ≠ none) : keys.length < capacity := by
  have number : ∀ k ∈ keys, ∃ j ∈ used, keyOf j = k := by
    intro k member
    obtain ⟨v, found⟩ := Option.ne_none_iff_exists'.mp (stored k member)
    obtain ⟨j, present, _, same⟩ := coherent.of_found found
    exact ⟨j, present, same⟩
  have subset : keys.toFinset ⊆ ((Finset.range capacity).erase i).image keyOf := by
    intro k member
    obtain ⟨j, present, same⟩ := number k (List.mem_toFinset.mp member)
    refine Finset.mem_image.mpr ⟨j, Finset.mem_erase.mpr ⟨?_, Finset.mem_range.mpr (bound j present)⟩, same⟩
    rintro rfl
    exact fresh present
  have count := (Finset.card_le_card subset).trans Finset.card_image_le
  rw [List.toFinset_card_of_nodup distinct, Finset.card_erase_of_mem (Finset.mem_range.mpr below),
    Finset.card_range] at count
  omega

end Coherent
end Directory
