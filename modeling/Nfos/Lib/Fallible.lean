import Mathlib.Data.List.Basic

/-! Computations that may fail. Some failures are allowed; all other ones are excluded
by a proof that a computation ends well. -/
namespace Fallible
variable {ε α β σ : Type} {allowed : ε → Prop} {Q : α → Prop} {R : β → Prop}

/-- The computation returns a result with `Q`, or fails as it may. -/
def Ends (allowed : ε → Prop) (Q : α → Prop) : Except ε α → Prop
  | .ok a => Q a
  | .error e => allowed e

theorem Ends.bind {x : Except ε α} {f : α → Except ε β} (first : Ends allowed Q x)
    (next : ∀ a, Q a → Ends allowed R (f a)) : Ends allowed R (x >>= f) := by
  cases x with
  | ok a => exact next a first
  | error e => exact first

theorem Ends.mono {P : α → Prop} {x : Except ε α} (ends : Ends allowed P x) (weaker : ∀ a, P a → Q a) :
    Ends allowed Q x := by
  cases x with
  | ok a => exact weaker a ends
  | error e => exact ends

theorem Ends.of_ok {x : Except ε α} (ends : Ends allowed Q x) {a : α} (returned : x = .ok a) : Q a := by
  subst returned
  exact ends

theorem Ends.of_error {x : Except ε α} (ends : Ends allowed Q x) {e : ε} (failed : x = .error e) : allowed e := by
  subst failed
  exact ends

/-- A loop over the counters below `n`. -/
def forRange (n : Nat) (body : Nat → σ → Except ε σ) (s : σ) : Except ε σ :=
  (List.range n).foldlM (fun s i => body i s) s

theorem forRange_succ (n : Nat) (body : Nat → σ → Except ε σ) (s : σ) :
    forRange (n + 1) body s = forRange n body s >>= body n := by
  rw [forRange, List.range_succ, List.foldlM_append]
  exact bind_congr fun t => bind_pure _

theorem Ends.forRange {n : Nat} {body : Nat → σ → Except ε σ} {s : σ} (invariant : Nat → σ → Prop)
    (start : invariant 0 s) (step : ∀ i < n, ∀ t, invariant i t → Ends allowed (invariant (i + 1)) (body i t)) :
    Ends allowed (invariant n) (forRange n body s) := by
  induction n with
  | zero => exact start
  | succ n ih =>
    rw [forRange_succ]
    apply (ih fun i below => step i (Nat.lt_succ_of_lt below)).bind
    exact step n (Nat.lt_succ_self n)

end Fallible
