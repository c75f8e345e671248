import Mathlib.Logic.Function.Basic

/-! Blocks of memory: an access outside of the block is a fault. -/
open Function

structure Block (α : Type) where
  size : Nat
  cell : Nat → α

namespace Block
variable {α : Type} {b : Block α} {i : Nat}

def load (b : Block α) (i : Int) : Option α :=
  if 0 ≤ i ∧ i < b.size then some (b.cell i.toNat) else none

def store (b : Block α) (i : Int) (v : α) : Option (Block α) :=
  if 0 ≤ i ∧ i < b.size then some { b with cell := update b.cell i.toNat v } else none

theorem load_eq (within : i < b.size) : b.load i = some (b.cell i) := by
  simp [load, within]

theorem store_eq (within : i < b.size) (v : α) : b.store i v = some { b with cell := update b.cell i v } := by
  simp [store, within]

end Block
