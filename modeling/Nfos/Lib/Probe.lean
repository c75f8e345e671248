import Mathlib.Data.Finset.Card
import Mathlib.Data.Finset.Range

/-! Linear probing around a table of `size` slots. A path leads from its start
to its end slot through all slots in between, wrapping around. -/
namespace Probe
variable {size s i j k : Nat}

def slot (size s i : Nat) : Nat := (s + i) % size

/-- The number of steps from slot `s` to slot `j`. -/
def dist (size s j : Nat) : Nat := (j + size - s) % size

theorem slot_lt (positive : 0 < size) : slot size s i < size := Nat.mod_lt _ positive

theorem slot_eq (start : s < size) (step : i < size) :
    slot size s i = if s + i < size then s + i else s + i - size := by
  unfold slot
  split
  · exact Nat.mod_eq_of_lt ‹_›
  · rw [Nat.mod_eq_sub_mod (by omega), Nat.mod_eq_of_lt (by omega)]

theorem dist_eq (start : s < size) (target : j < size) :
    dist size s j = if s ≤ j then j - s else j + size - s := by
  unfold dist
  split
  · rw [Nat.mod_eq_sub_mod (by omega), Nat.mod_eq_of_lt (by omega)]
    omega
  · exact Nat.mod_eq_of_lt (by omega)

theorem dist_lt (positive : 0 < size) : dist size s j < size := Nat.mod_lt _ positive

theorem dist_slot (start : s < size) (step : i < size) : dist size s (slot size s i) = i := by
  rw [dist_eq start (slot_lt (by omega)), slot_eq start step]
  split <;> split <;> omega

theorem slot_dist (start : s < size) (target : j < size) : slot size s (dist size s j) = j := by
  rw [slot_eq start (dist_lt (by omega)), dist_eq start target]
  split <;> split <;> omega

/-- The slots that a path of `i` steps from `s` leaves behind. -/
def Passed (size s i j : Nat) : Prop := j < size ∧ dist size s j < i

instance : Decidable (Passed size s i j) := inferInstanceAs (Decidable (_ ∧ _))

/-- A path that wraps around leaves behind a tail and a front of the table. -/
theorem passed_wrapped (start : s < size) (step : i < size) (wraps : size ≤ s + i) :
    Passed size s i j ↔ j < s + i - size ∨ (s ≤ j ∧ j < size) := by
  unfold Passed
  by_cases target : j < size
  · rw [dist_eq start target]
    split <;> omega
  · omega

theorem passed_straight (start : s < size) (straight : s + i < size) :
    Passed size s i j ↔ s ≤ j ∧ j < s + i := by
  unfold Passed
  by_cases target : j < size
  · rw [dist_eq start target]
    split <;> omega
  · omega

/-- A path never passes its own end. -/
theorem not_passed_slot (start : s < size) (step : i < size) : ¬ Passed size s i (slot size s i) := by
  rintro ⟨_, before⟩
  rw [dist_slot start step] at before
  omega

section Count
variable {P Q : Nat → Prop} [DecidablePred P] [DecidablePred Q]

/-- Counting over the slots after one slot has been added to those that count. -/
theorem card_filter_insert (target : k < size) (absent : ¬ P k) (present : Q k)
    (others : ∀ j, j ≠ k → (Q j ↔ P j)) :
    ((Finset.range size).filter Q).card = ((Finset.range size).filter P).card + 1 := by
  have inserted : (Finset.range size).filter Q = insert k ((Finset.range size).filter P) := by
    ext j
    by_cases same : j = k
    · subst same
      simp [target, present]
    · simp [same, others j same]
  rw [inserted, Finset.card_insert_of_notMem]
  simp [absent]

theorem card_filter_same (same : ∀ j < size, (Q j ↔ P j)) :
    ((Finset.range size).filter Q).card = ((Finset.range size).filter P).card := by
  congr 1
  apply Finset.filter_congr
  intro j member
  exact same j (Finset.mem_range.mp member)

end Count
end Probe
