import Mathlib.Order.Basic

/-! Imperative loops as fuelled iteration. `none` is a loop that has not ended
within its fuel, so a result is always a proof of termination. -/
namespace Loop
variable {σ : Type}

def loop (condition : σ → Bool) (body : σ → Option σ) : Nat → σ → Option σ
  | 0, s => if condition s then none else some s
  | fuel + 1, s => if condition s then body s >>= loop condition body fuel else some s

theorem loop_done {c : σ → Bool} {b : σ → Option σ} {s : σ} (stop : c s = false) (fuel : Nat) :
    loop c b fuel s = some s := by
  cases fuel with
  | zero | succ => simp [loop, stop]

theorem loop_more {c : σ → Bool} {b : σ → Option σ} {s t : σ} (more : c s = true) (ran : b s = some t)
    (fuel : Nat) : loop c b (fuel + 1) s = loop c b fuel t := by
  simp [loop, more, ran]

/-- Total correctness from an invariant and a measure that every iteration decreases. -/
theorem loop_ends {c : σ → Bool} {b : σ → Option σ} (invariant : σ → Prop) (measure : σ → Nat)
    (step : ∀ s, invariant s → c s = true →
      ∃ t, b s = some t ∧ invariant t ∧ measure t < measure s)
    (fuel : Nat) (s : σ) (start : invariant s) (enough : measure s ≤ fuel) :
    ∃ t, loop c b fuel s = some t ∧ invariant t ∧ c t = false := by
  induction fuel generalizing s with
  | zero =>
    cases more : c s with
    | false => exact ⟨s, by simp [loop, more], start, more⟩
    | true =>
      obtain ⟨t, _, _, smaller⟩ := step s start more
      omega
  | succ fuel ih =>
    cases more : c s with
    | false => exact ⟨s, by simp [loop, more], start, more⟩
    | true =>
      obtain ⟨t, ran, kept, smaller⟩ := step s start more
      obtain ⟨u, ended, keptEnd, stopped⟩ := ih t kept (by omega)
      exact ⟨u, by simpa [loop, more, ran] using ended, keptEnd, stopped⟩

/-- Partial correctness: what every iteration keeps holds when the loop has ended. -/
theorem loop_rule {c : σ → Bool} {b : σ → Option σ} (invariant : σ → Prop)
    (step : ∀ s t, invariant s → c s = true → b s = some t → invariant t)
    {fuel : Nat} {s t : σ} (start : invariant s) (ran : loop c b fuel s = some t) :
    invariant t ∧ c t = false := by
  induction fuel generalizing s with
  | zero =>
    cases more : c s with
    | false =>
      simp only [loop, more, Bool.false_eq_true, if_false, Option.some.injEq] at ran
      exact ran ▸ ⟨start, more⟩
    | true => simp [loop, more] at ran
  | succ fuel ih =>
    cases more : c s with
    | false =>
      simp only [loop, more, Bool.false_eq_true, if_false, Option.some.injEq] at ran
      exact ran ▸ ⟨start, more⟩
    | true =>
      simp only [loop, more, if_true, Option.bind_eq_bind, Option.bind_eq_some_iff] at ran
      obtain ⟨u, first, rest⟩ := ran
      exact ih (step s u start more first) rest

/-- Iterations that may fail more often change nothing else. -/
theorem loop_mono {c : σ → Bool} {b checked : σ → Option σ} (erases : ∀ s t, checked s = some t → b s = some t)
    {fuel : Nat} {s t : σ} (ran : loop c checked fuel s = some t) : loop c b fuel s = some t := by
  induction fuel generalizing s with
  | zero => exact ran
  | succ fuel ih =>
    cases more : c s with
    | false => simpa [loop, more] using ran
    | true =>
      simp only [loop, more, if_true, Option.bind_eq_bind, Option.bind_eq_some_iff] at ran ⊢
      obtain ⟨u, first, rest⟩ := ran
      exact ⟨u, erases s u first, ih rest⟩

/-- Loops whose iterations agree where the invariant holds. -/
theorem loop_congr {c : σ → Bool} {b checked : σ → Option σ} (invariant : σ → Prop)
    (same : ∀ s, invariant s → c s = true → checked s = b s)
    (keeps : ∀ s t, invariant s → c s = true → b s = some t → invariant t) {s : σ} (start : invariant s) (fuel : Nat) :
    loop c checked fuel s = loop c b fuel s := by
  induction fuel generalizing s with
  | zero => rfl
  | succ fuel ih =>
    cases more : c s with
    | false => simp [loop, more]
    | true =>
      simp only [loop, more, if_true, same s start more, Option.bind_eq_bind]
      apply Option.bind_congr
      intro t ran
      exact ih (keeps s t start more ran)

/-- Iterations that agree up to a map of the states. -/
theorem loop_map {σ' : Type} {c : σ → Bool} {c' : σ' → Bool} {b : σ → Option σ} {b' : σ' → Option σ'} (f : σ' → σ)
    (condition : ∀ s, c' s = c (f s)) (body : ∀ s, (b' s).map f = b (f s)) (fuel : Nat) (s : σ') :
    (loop c' b' fuel s).map f = loop c b fuel (f s) := by
  induction fuel generalizing s with
  | zero =>
    simp only [loop, ← condition]
    split
    · rfl
    · rfl
  | succ fuel ih =>
    simp only [loop, ← condition]
    split
    · rw [← body]
      cases b' s with
      | none => rfl
      | some t => exact ih t
    · rfl

/-- A loop whose iterations never falsify its condition does not end. -/
theorem loop_diverges {c : σ → Bool} {b : σ → Option σ} (invariant : σ → Prop)
    (step : ∀ s, invariant s → c s = true ∧ ∀ t, b s = some t → invariant t)
    (fuel : Nat) (s : σ) (start : invariant s) : loop c b fuel s = none := by
  induction fuel generalizing s with
  | zero => simp [loop, (step s start).1]
  | succ fuel ih =>
    cases ran : b s with
    | none => simp [loop, (step s start).1, ran]
    | some t => simpa [loop, (step s start).1, ran] using ih t ((step s start).2 t ran)

section Counted

/-- A loop over the counters below `n`. -/
def forRange (n : Nat) (body : Nat → σ → Option σ) (s : σ) : Option σ :=
  (List.range n).foldlM (fun s i => body i s) s

theorem forRange_succ (n : Nat) (body : Nat → σ → Option σ) (s : σ) :
    forRange (n + 1) body s = forRange n body s >>= body n := by
  simp [forRange, List.range_succ, List.foldlM_append]

/-- Total correctness of a counted loop, from an invariant of the counter. -/
theorem forRange_ends {n : Nat} {body : Nat → σ → Option σ} {s : σ} (invariant : Nat → σ → Prop)
    (start : invariant 0 s)
    (step : ∀ i < n, ∀ t, invariant i t → ∃ u, body i t = some u ∧ invariant (i + 1) u) :
    ∃ t, forRange n body s = some t ∧ invariant n t := by
  induction n with
  | zero => exact ⟨s, rfl, start⟩
  | succ n ih =>
    obtain ⟨t, ran, holds⟩ := ih fun i below => step i (Nat.lt_succ_of_lt below)
    obtain ⟨u, last, holds⟩ := step n (Nat.lt_succ_self n) t holds
    exact ⟨u, by rw [forRange_succ, ran]; exact last, holds⟩

end Counted

section Writes
variable {M β : Type} (f : M → β) (write : Nat → M → M) {k : Nat} (m : M)

/-- What no iteration of a counted loop touches is unchanged. -/
theorem foldl_frame (frame : ∀ x < k, ∀ m, f (write x m) = f m) :
    f ((List.range k).foldl (fun m x => write x m) m) = f m := by
  induction k with
  | zero => rfl
  | succ k ih =>
    rw [List.range_succ, List.foldl_append]
    exact (frame k (Nat.lt_succ_self k) _).trans (ih fun x below => frame x (Nat.lt_succ_of_lt below))

/-- What one iteration writes and no later one overwrites is there at the end. -/
theorem foldl_write {x : Nat} {v : β} (within : x < k) (wrote : ∀ m, f (write x m) = v)
    (frame : ∀ y < k, y ≠ x → ∀ m, f (write y m) = f m) :
    f ((List.range k).foldl (fun m x => write x m) m) = v := by
  induction k with
  | zero => omega
  | succ k ih =>
    rw [List.range_succ, List.foldl_append]
    simp only [List.foldl_cons, List.foldl_nil]
    by_cases last : x = k
    · rw [← last, wrote]
    · rw [frame k (Nat.lt_succ_self k) (Ne.symm last)]
      exact ih (by omega) fun y below => frame y (Nat.lt_succ_of_lt below)

end Writes
end Loop
