import Nfos.Lib.Run

/-! Retry loops over a given sequence of attempts. What a failed attempt leaves
behind is the state in which the next one starts. -/
namespace Retry
open Run
variable {A σ : Type}

/-- Make attempts up to the first that is done, and hand back the unused ones.
`none` is a loop that is never done with these attempts, or an attempt that fails to return. -/
def retry (attempt : A → σ → Option (Bool × σ)) : List A → σ → Option (σ × List A)
  | [], _ => none
  | a :: rest, s => do
    let (done, s) ← attempt a s
    if done then return (s, rest) else retry attempt rest s

/-- The runs of failed attempts. -/
def Failed (attempt : A → σ → Option (Bool × σ)) (s : σ) (a : A) (t : σ) : Prop :=
  attempt a s = some (false, t)

variable {attempt : A → σ → Option (Bool × σ)} {attempts rest : List A} {s t : σ}

/-- A retry loop that ends is some failed attempts followed by one that is done. -/
theorem retry_eq_some (ran : retry attempt attempts s = some (t, rest)) :
    ∃ failed a u, attempts = failed ++ a :: rest ∧ Trace (Failed attempt) s failed u ∧
      attempt a u = some (true, t) := by
  induction attempts generalizing s with
  | nil => contradiction
  | cons a later ih =>
    simp only [retry, Option.bind_eq_bind, Option.bind_eq_some_iff] at ran
    obtain ⟨⟨done, u⟩, tried, ran⟩ := ran
    cases done with
    | true =>
      simp only [if_true, Option.pure_def, Option.some.injEq, Prod.mk.injEq] at ran
      obtain ⟨rfl, rfl⟩ := ran
      exact ⟨[], a, s, rfl, .start, tried⟩
    | false =>
      obtain ⟨failed, b, v, split, trace, finish⟩ := ih ran
      refine ⟨a :: failed, b, v, by rw [split, List.cons_append], ?_, finish⟩
      exact Trace.append (Trace.extend .start tried) trace

theorem retry_single {a : A} :
    retry attempt [a] s = some (t, rest) ↔ rest = [] ∧ attempt a s = some (true, t) := by
  simp only [retry, Option.bind_eq_bind, Option.bind_eq_some_iff]
  constructor
  · rintro ⟨⟨done, u⟩, tried, ended⟩
    cases done with
    | true =>
      simp only [if_true, Option.pure_def, Option.some.injEq, Prod.mk.injEq] at ended
      exact ⟨ended.2.symm, ended.1 ▸ tried⟩
    | false => simp at ended
  · rintro ⟨rfl, tried⟩
    exact ⟨_, tried, by simp⟩

/-- Behind some attempts that may fail there are `k` of a kind that is done. -/
def Supply (good : A → Prop) (k : Nat) (attempts : List A) : Prop :=
  ∃ early late, attempts = early ++ late ∧ (∀ a ∈ late, good a) ∧ k ≤ late.length

theorem Supply.mono {good : A → Prop} {j k : Nat} (supply : Supply good k attempts) (fewer : j ≤ k) : Supply good j attempts := by
  obtain ⟨early, late, split, kind, enough⟩ := supply
  exact ⟨early, late, split, kind, Nat.le_trans fewer enough⟩

/-- A retry loop ends with any finite number of failures, and takes one of the attempts that are done. -/
theorem retry_ends {P : σ → Prop} {good : A → Prop} {k : Nat}
    (tries : ∀ a s, P s → ∃ done t, attempt a s = some (done, t) ∧ P t ∧ (good a → done = true))
    (supply : Supply good (k + 1) attempts) (start : P s) :
    ∃ t rest, retry attempt attempts s = some (t, rest) ∧ P t ∧ Supply good k rest := by
  induction attempts generalizing s with
  | nil =>
    obtain ⟨early, late, split, _, enough⟩ := supply
    obtain ⟨_, rfl⟩ := List.append_eq_nil_iff.mp split.symm
    simp at enough
  | cons a later ih =>
    obtain ⟨done, u, tried, kept, quiet⟩ := tries a s start
    obtain ⟨early, late, split, kind, enough⟩ := supply
    cases early with
    | nil =>
      rw [List.nil_append] at split
      subst split
      refine ⟨u, later, ?_, kept, [], later, rfl, fun b member => kind b (List.mem_cons_of_mem _ member), Nat.le_of_succ_le_succ enough⟩
      simp [retry, tried, quiet (kind a (List.mem_cons_self ..))]
    | cons b early =>
      obtain ⟨rfl, rfl⟩ := List.cons.inj split
      cases done with
      | true => exact ⟨u, early ++ late, by simp [retry, tried], kept, early, late, rfl, kind, Nat.le_of_succ_le enough⟩
      | false =>
        obtain ⟨t, rest, ended, after, remains⟩ := ih ⟨early, late, rfl, kind, enough⟩ kept
        exact ⟨t, rest, by simpa [retry, tried] using ended, after, remains⟩

/-- Attempts that agree up to a map of the states. -/
theorem retry_map {σ' : Type} {attempt' : A → σ' → Option (Bool × σ')} (f : σ' → σ)
    (same : ∀ a s, (attempt' a s).map (fun z => (z.1, f z.2)) = attempt a (f s)) (attempts : List A) (s : σ') :
    (retry attempt' attempts s).map (fun z => (f z.1, z.2)) = retry attempt attempts (f s) := by
  induction attempts generalizing s with
  | nil => rfl
  | cons a later ih =>
    simp only [retry, ← same]
    cases attempt' a s with
    | none => rfl
    | some z =>
      obtain ⟨done, t⟩ := z
      cases done with
      | true => rfl
      | false => exact ih t

/-- If a failed attempt leaves a mark that no later one removes, a loop without marks has made one attempt. -/
theorem retry_first {P calm : σ → Prop} {good : A → Prop}
    (tries : ∀ a s done t, good a → P s → attempt a s = some (done, t) →
      P t ∧ (calm t → calm s) ∧ (done = false → ¬ calm t))
    (all : ∀ a ∈ attempts, good a) (start : P s) (ran : retry attempt attempts s = some (t, rest)) :
    (calm t → calm s) ∧ (calm t → ∃ a, attempts = a :: rest ∧ attempt a s = some (true, t)) := by
  induction attempts generalizing s with
  | nil => contradiction
  | cons a later ih =>
    simp only [retry, Option.bind_eq_bind, Option.bind_eq_some_iff] at ran
    obtain ⟨⟨done, u⟩, tried, ran⟩ := ran
    obtain ⟨kept, back, mark⟩ := tries a s done u (all a (List.mem_cons_self ..)) start tried
    cases done with
    | true =>
      simp only [if_true, Option.pure_def, Option.some.injEq, Prod.mk.injEq] at ran
      obtain ⟨rfl, rfl⟩ := ran
      exact ⟨back, fun _ => ⟨a, rfl, tried⟩⟩
    | false =>
      obtain ⟨remains, _⟩ := ih (fun b member => all b (List.mem_cons_of_mem _ member)) kept ran
      exact ⟨fun final => back (remains final), fun final => absurd (remains final) (mark rfl)⟩

end Retry
