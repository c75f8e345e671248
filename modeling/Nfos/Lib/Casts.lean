import Mathlib.Data.Int.ModEq

/-! Conversions between the integer types of C, and byte swaps. -/
namespace Casts

def u16 (x : Int) : Nat := (x % 2 ^ 16).toNat

def u32 (x : Int) : Nat := (x % 2 ^ 32).toNat

def u64 (x : Int) : Nat := (x % 2 ^ 64).toNat

def int (x : Nat) : Int := Int.bmod x (2 ^ 32)

/-- A number that is computed in `int`, where an overflow is undefined. -/
def asInt (x : Nat) : Option Nat := if x < 2 ^ 31 then some x else none

theorem u16_of_lt {x : Nat} (small : x < 2 ^ 16) : u16 x = x := by
  unfold u16
  omega

theorem u32_of_lt {x : Nat} (small : x < 2 ^ 32) : u32 x = x := by
  unfold u32
  omega

theorem u64_of_lt {x : Nat} (small : x < 2 ^ 64) : u64 x = x := by
  unfold u64
  omega

theorem int_of_lt {x : Nat} (small : x < 2 ^ 31) : int x = x := by
  unfold int
  apply Int.bmod_eq_of_le <;> omega

theorem asInt_of_lt {x : Nat} (small : x < 2 ^ 31) : asInt x = some x := if_pos small

@[simp] theorem asInt_eq_some {x y : Nat} : asInt x = some y ↔ x < 2 ^ 31 ∧ x = y := by
  simp [asInt]

/-- `RTE_STATIC_BSWAP16` -/
def bswap16 (x : Nat) : Nat := x % 2 ^ 8 * 2 ^ 8 + x / 2 ^ 8 % 2 ^ 8

/-- `RTE_STATIC_BSWAP32` -/
def bswap32 (x : Nat) : Nat :=
  x % 2 ^ 8 * 2 ^ 24 + x / 2 ^ 8 % 2 ^ 8 * 2 ^ 16 + x / 2 ^ 16 % 2 ^ 8 * 2 ^ 8 + x / 2 ^ 24 % 2 ^ 8

theorem bswap16_injective {x y : Nat} (left : x < 2 ^ 16) (right : y < 2 ^ 16) (same : bswap16 x = bswap16 y) :
    x = y := by
  unfold bswap16 at same
  omega

private theorem bytes {x : Nat} (small : x < 2 ^ 32) : ∃ a b c d, a < 256 ∧ b < 256 ∧ c < 256 ∧ d < 256 ∧
    x = a + 256 * b + 65536 * c + 16777216 * d :=
  ⟨x % 256, x / 256 % 256, x / 65536 % 256, x / 16777216, by omega, by omega, by omega, by omega, by omega⟩

theorem bswap32_bytes {a b c d : Nat} (first : a < 256) (second : b < 256) (third : c < 256) (fourth : d < 256) :
    bswap32 (a + 256 * b + 65536 * c + 16777216 * d) = d + 256 * c + 65536 * b + 16777216 * a := by
  unfold bswap32
  omega

theorem bswap32_injective {x y : Nat} (left : x < 2 ^ 32) (right : y < 2 ^ 32) (same : bswap32 x = bswap32 y) :
    x = y := by
  obtain ⟨a, b, c, d, ha, hb, hc, hd, rfl⟩ := bytes left
  obtain ⟨e, f, g, h, he, hf, hg, hh, rfl⟩ := bytes right
  rw [bswap32_bytes ha hb hc hd, bswap32_bytes he hf hg hh] at same
  omega

theorem bswap16_bswap16 {x : Nat} (small : x < 2 ^ 16) : bswap16 (bswap16 x) = x := by
  obtain ⟨a, b, first, second, rfl⟩ : ∃ a b, a < 256 ∧ b < 256 ∧ x = a + 256 * b :=
    ⟨x % 256, x / 256, by omega, by omega, by omega⟩
  have swapped {c d : Nat} (low : c < 256) (high : d < 256) : bswap16 (c + 256 * d) = d + 256 * c := by
    unfold bswap16
    omega
  rw [swapped first second, swapped second first]

theorem bswap32_lt (x : Nat) : bswap32 x < 2 ^ 32 := by
  have byte (y : Nat) : y % 2 ^ 8 < 256 := Nat.mod_lt y (by decide)
  have first := byte x
  have second := byte (x / 2 ^ 8)
  have third := byte (x / 2 ^ 16)
  have fourth := byte (x / 2 ^ 24)
  unfold bswap32
  generalize x % 2 ^ 8 = a at *
  generalize x / 2 ^ 8 % 2 ^ 8 = b at *
  generalize x / 2 ^ 16 % 2 ^ 8 = c at *
  generalize x / 2 ^ 24 % 2 ^ 8 = d at *
  omega

theorem bswap32_bswap32 {x : Nat} (small : x < 2 ^ 32) : bswap32 (bswap32 x) = x := by
  obtain ⟨a, b, c, d, first, second, third, fourth, rfl⟩ := bytes small
  rw [bswap32_bytes first second third fourth, bswap32_bytes fourth third second first]

end Casts
