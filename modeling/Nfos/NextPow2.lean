import Mathlib.Data.Nat.Log
import Mathlib.Data.Nat.Bitwise

/-! `next_pow2` on 32-bit words: spreading the highest set bit to the right
gives the smallest power of two that is not below the argument. -/
namespace Nfos

/-- Unsigned arithmetic wraps around at 32 bits, so the result of 0 is 0. -/
def nextPow2 (v : Nat) : Nat :=
  let v := (v + (2 ^ 32 - 1)) % 2 ^ 32
  let v := v ||| v >>> 1
  let v := v ||| v >>> 2
  let v := v ||| v >>> 4
  let v := v ||| v >>> 8
  let v := v ||| v >>> 16
  (v + 1) % 2 ^ 32

/-- A bit of a word whose bits were spread over `m` places to the right. -/
def Spread (v w m : Nat) : Prop := ∀ i, w.testBit i = true ↔ ∃ d < m, v.testBit (i + d) = true

theorem Spread.double {v w m : Nat} (spread : Spread v w m) : Spread v (w ||| w >>> m) (m + m) := by
  intro i
  rw [Nat.testBit_or, Bool.or_eq_true, Nat.testBit_shiftRight, spread i, spread (m + i)]
  constructor
  · rintro (⟨d, below, bit⟩ | ⟨d, below, bit⟩)
    · exact ⟨d, by omega, bit⟩
    · exact ⟨m + d, by omega, by rwa [show i + (m + d) = m + i + d by omega]⟩
  · rintro ⟨d, below, bit⟩
    by_cases near : d < m
    · exact Or.inl ⟨d, near, bit⟩
    · exact Or.inr ⟨d - m, by omega, by rwa [show m + i + (d - m) = i + d by omega]⟩

/-- A word spread over its whole width has all bits up to its highest one. -/
theorem Spread.eq {v w m : Nat} (spread : Spread v w m) (width : v < 2 ^ m) (positive : v ≠ 0) :
    w = 2 ^ (v.log2 + 1) - 1 := by
  apply Nat.eq_of_testBit_eq
  intro i
  rw [Bool.eq_iff_iff, spread i, Nat.testBit_two_pow_sub_one, decide_eq_true_eq]
  constructor
  · rintro ⟨d, _, bit⟩
    have high : 2 ^ (i + d) ≤ v := Nat.ge_two_pow_of_testBit bit
    have := (Nat.le_log2 positive).mpr high
    omega
  · intro below
    have top : v.log2 < m := (Nat.log2_lt positive).mpr width
    refine ⟨v.log2 - i, by omega, ?_⟩
    rw [show i + (v.log2 - i) = v.log2 by omega]
    exact Nat.testBit_log2 positive

theorem nextPow2_eq {c : Nat} (positive : 1 ≤ c) (bound : c ≤ 2 ^ 31) :
    nextPow2 c = 2 ^ Nat.clog 2 c := by
  by_cases single : c = 1
  · subst single
    decide
  · have start : Spread (c - 1) (c - 1) 1 := by
      intro i
      simp
    have spread := start.double.double.double.double.double
    have less : (c + (2 ^ 32 - 1)) % 2 ^ 32 = c - 1 := by omega
    have filled := spread.eq (by omega) (by omega)
    have top : (c - 1).log2 < 31 := (Nat.log2_lt (by omega)).mpr (by omega)
    have room : 2 ^ ((c - 1).log2 + 1) < 2 ^ 32 := Nat.pow_lt_pow_right (by omega) (by omega)
    have exponent : Nat.clog 2 c = (c - 1).log2 + 1 := by
      apply Nat.le_antisymm
      · rw [Nat.clog_le_iff_le_pow (by omega)]
        have := Nat.lt_log2_self (n := c - 1)
        omega
      · rw [Nat.succ_le_iff, ← Nat.not_le, Nat.clog_le_iff_le_pow (by omega)]
        have := Nat.log2_self_le (n := c - 1) (by omega)
        omega
    rw [nextPow2]
    simp only [less]
    rw [exponent, filled]
    have := Nat.two_pow_pos ((c - 1).log2 + 1)
    omega

/-- The result is a power of two that is not below the argument, and the
smallest one. -/
theorem nextPow2_least {c : Nat} (positive : 1 ≤ c) (bound : c ≤ 2 ^ 31) :
    c ≤ nextPow2 c ∧ ∀ k, c ≤ 2 ^ k → nextPow2 c ≤ 2 ^ k := by
  rw [nextPow2_eq positive bound]
  constructor
  · exact Nat.le_pow_clog (by omega) c
  · intro k above
    exact Nat.pow_le_pow_right (by omega) (Nat.clog_le_of_le_pow above)

end Nfos
