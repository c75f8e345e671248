import Mathlib.Data.Nat.Notation
import Mathlib.Tactic.Ring

/-! Little-endian numbers in a memory of bytes. -/
namespace Bytes
variable {memory memory' : Nat → UInt8} {offset other value width span i : Nat}

/-- The number in the `width` bytes from `offset` on. -/
def load (memory : Nat → UInt8) (offset : Nat) : Nat → Nat
  | 0 => 0
  | width + 1 => (memory offset).toNat + 256 * load memory (offset + 1) width

def store (memory : Nat → UInt8) (offset value width : Nat) : Nat → UInt8 := fun i =>
  if offset ≤ i ∧ i < offset + width then UInt8.ofNat (value / 256 ^ (i - offset)) else memory i

theorem store_outside (outside : i < offset ∨ offset + width ≤ i) : store memory offset value width i = memory i := by
  rw [store, if_neg]
  omega

theorem load_lt (memory : Nat → UInt8) (offset width : Nat) : load memory offset width < 256 ^ width := by
  induction width generalizing offset with
  | zero => simp [load]
  | succ width ih =>
    have low := (memory offset).toNat_lt
    have high := ih (offset + 1)
    rw [load, Nat.pow_succ]
    omega

theorem load_congr (same : ∀ i, offset ≤ i → i < offset + width → memory' i = memory i) :
    load memory' offset width = load memory offset width := by
  induction width generalizing offset with
  | zero => rfl
  | succ width ih =>
    rw [load, load, same offset le_rfl (by omega), ih fun i low high => same i (by omega) (by omega)]

theorem load_digits (digits : ∀ k < width, memory (offset + k) = UInt8.ofNat (value / 256 ^ k)) :
    load memory offset width = value % 256 ^ width := by
  induction width generalizing offset value with
  | zero => simp [load, Nat.mod_one]
  | succ width ih =>
    have first := digits 0 (by omega)
    rw [Nat.add_zero, Nat.pow_zero, Nat.div_one] at first
    have rest : load memory (offset + 1) width = value / 256 % 256 ^ width := by
      apply ih
      intro k below
      rw [Nat.add_assoc, Nat.add_comm 1 k, digits (k + 1) (by omega), Nat.pow_succ', ← Nat.div_div_eq_div_mul]
    rw [load, first, rest, Nat.pow_succ', Nat.mod_mul]
    simp

/-- A number that fits is read back. -/
theorem load_store (fits : value < 256 ^ width) : load (store memory offset value width) offset width = value := by
  have digits : ∀ k < width, store memory offset value width (offset + k) = UInt8.ofNat (value / 256 ^ k) := by
    intro k below
    rw [store, if_pos (by omega), Nat.add_sub_cancel_left]
  rw [load_digits digits, Nat.mod_eq_of_lt fits]

theorem digit_load {k : Nat} (below : k < width) : UInt8.ofNat (load memory offset width / 256 ^ k) = memory (offset + k) := by
  induction width generalizing offset k with
  | zero => omega
  | succ width ih =>
    have low := (memory offset).toNat_lt
    cases k with
    | zero =>
      rw [load, Nat.pow_zero, Nat.div_one, show offset + 0 = offset from rfl]
      apply UInt8.toNat_inj.mp
      rw [UInt8.toNat_ofNat']
      omega
    | succ k =>
      have rest : load memory offset (width + 1) / 256 = load memory (offset + 1) width := by
        rw [load]
        omega
      rw [Nat.pow_succ', ← Nat.div_div_eq_div_mul, rest, ih (by omega), Nat.add_assoc, Nat.add_comm 1 k]

/-- Storing what is there changes nothing. -/
theorem store_load : store memory offset (load memory offset width) width = memory := by
  funext i
  unfold store
  split
  · rename_i inside
    rw [digit_load (by omega)]
    congr 1
    omega
  · rfl

/-- Where a number is stored. -/
structure Field where
  offset : Nat
  width : Nat

def Field.Apart (f g : Field) : Prop := f.offset + f.width ≤ g.offset ∨ g.offset + g.width ≤ f.offset

def Field.load (f : Field) (memory : Nat → UInt8) : Nat := Bytes.load memory f.offset f.width

/-- Store the numbers into their fields, one after the other. -/
def storeAll (memory : Nat → UInt8) (values : List (Field × Nat)) : Nat → UInt8 :=
  values.foldl (fun memory y => store memory y.1.offset y.2 y.1.width) memory

section Fields
variable {values : List (Field × Nat)} {f : Field} {v : Nat}

theorem storeAll_outside (outside : ∀ y ∈ values, i < y.1.offset ∨ y.1.offset + y.1.width ≤ i) :
    storeAll memory values i = memory i := by
  induction values generalizing memory with
  | nil => rfl
  | cons y rest ih =>
    rw [storeAll, List.foldl_cons]
    refine (ih fun z member => outside z (List.mem_cons_of_mem _ member)).trans ?_
    exact store_outside (outside y List.mem_cons_self)

theorem load_storeAll_apart (apart : ∀ y ∈ values, y.1.Apart f) : f.load (storeAll memory values) = f.load memory := by
  apply load_congr
  intro i low high
  apply storeAll_outside
  intro y member
  rcases apart y member with before | after <;> omega

/-- Fields that do not overlap are read back. -/
theorem load_storeAll (apart : values.Pairwise fun y z => z.1.Apart y.1) (member : (f, v) ∈ values) (fits : v < 256 ^ f.width) :
    f.load (storeAll memory values) = v := by
  induction values generalizing memory with
  | nil => simp at member
  | cons y rest ih =>
    obtain ⟨first, rest_apart⟩ := List.pairwise_cons.mp apart
    rw [storeAll, List.foldl_cons]
    rcases List.mem_cons.mp member with rfl | later
    · refine (load_storeAll_apart first).trans ?_
      exact load_store fits
    · exact ih rest_apart later

theorem storeAll_load (same : ∀ y ∈ values, y.2 = y.1.load memory) : storeAll memory values = memory := by
  induction values with
  | nil => rfl
  | cons y rest ih =>
    rw [storeAll, List.foldl_cons, same y List.mem_cons_self, Field.load, store_load]
    exact ih fun z member => same z (List.mem_cons_of_mem _ member)

end Fields

end Bytes
