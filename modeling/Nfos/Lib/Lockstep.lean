import Nfos.Lib.Loop
import Nfos.Lib.Retry

/-! Two computations that go in lockstep: both fail, or their results are related. -/
namespace Lockstep
variable {α β γ δ σ τ A : Type}

theorem bind {R : α → β → Prop} {S : γ → δ → Prop} {x : Option α} {y : Option β} {f : α → Option γ} {g : β → Option δ}
    (first : Option.Rel R x y) (next : ∀ a b, R a b → Option.Rel S (f a) (g b)) : Option.Rel S (x >>= f) (y >>= g) := by
  cases first with
  | none => exact .none
  | some related => exact next _ _ related

theorem refl (x : Option α) : Option.Rel (fun a b => a = b) x x := by
  cases x with
  | none => exact .none
  | some a => exact .some rfl

theorem mono {R S : α → β → Prop} {x : Option α} {y : Option β} (related : Option.Rel R x y) (weaker : ∀ a b, R a b → S a b) :
    Option.Rel S x y := by
  cases related with
  | none => exact .none
  | some here => exact .some (weaker _ _ here)

theorem returns {R : α → β → Prop} {x : Option α} {b : β} (related : Option.Rel R x (some b)) : ∃ a, x = some a ∧ R a b := by
  cases x with
  | none => exact absurd related (by rintro ⟨⟩)
  | some a => exact ⟨a, rfl, Option.rel_some_some.mp related⟩

/-- Attempts that go in lockstep make retry loops that do so. -/
theorem retry {R : σ → τ → Prop} {attempt : A → σ → Option (Bool × σ)} {attempt' : A → τ → Option (Bool × τ)}
    (attempts : ∀ a s t, R s t → Option.Rel (fun x y => x.1 = y.1 ∧ R x.2 y.2) (attempt a s) (attempt' a t))
    (tape : List A) {s : σ} {t : τ} (related : R s t) :
    Option.Rel (fun x y => R x.1 y.1 ∧ x.2 = y.2) (Retry.retry attempt tape s) (Retry.retry attempt' tape t) := by
  induction tape generalizing s t with
  | nil => exact .none
  | cons a rest ih =>
    refine bind (attempts a s t related) ?_
    rintro ⟨done, s'⟩ ⟨_, t'⟩ ⟨rfl, related'⟩
    cases done with
    | true => exact .some ⟨related', rfl⟩
    | false => exact ih related'

/-- Loops in lockstep end together, whatever their fuel, if it is enough for one of them. -/
theorem loop {R : σ → τ → Prop} {c : σ → Bool} {c' : τ → Bool} {b : σ → Option σ} {b' : τ → Option τ} (measure : τ → Nat)
    (conditions : ∀ s t, R s t → c s = c' t) (bodies : ∀ s t, R s t → c' t = true → Option.Rel R (b s) (b' t))
    (less : ∀ s t u, R s t → c' t = true → b' t = some u → measure u < measure t) {fuel fuel' : Nat} {s : σ} {t : τ}
    (related : R s t) (enough : measure t ≤ fuel) (enough' : measure t ≤ fuel') :
    Option.Rel (fun s t => R s t ∧ c' t = false) (Loop.loop c b fuel s) (Loop.loop c' b' fuel' t) := by
  induction fuel generalizing fuel' s t with
  | zero =>
    cases more : c' t with
    | false =>
      rw [Loop.loop_done ((conditions s t related).trans more), Loop.loop_done more]
      exact .some ⟨related, more⟩
    | true =>
      cases ran : b' t with
      | none =>
        simp only [Loop.loop, conditions s t related, more, if_true]
        cases fuel' with
        | zero | succ =>
          simp only [Loop.loop, more, if_true, ran, Option.bind_eq_bind, Option.bind_none]
          exact .none
      | some u =>
        have smaller := less s t u related more ran
        omega
  | succ fuel ih =>
    cases more : c' t with
    | false =>
      rw [Loop.loop_done ((conditions s t related).trans more), Loop.loop_done more]
      exact .some ⟨related, more⟩
    | true =>
      have stepped := bodies s t related more
      cases ran : b' t with
      | none =>
        rw [ran] at stepped
        have stuck : b s = none := by
          cases here : b s with
          | none => rfl
          | some v =>
            rw [here] at stepped
            exact absurd stepped Option.not_rel_some_none
        simp only [Loop.loop, conditions s t related, more, if_true, stuck, Option.bind_eq_bind, Option.bind_none]
        cases fuel' with
        | zero | succ =>
          simp only [Loop.loop, more, if_true, ran, Option.bind_eq_bind, Option.bind_none]
          exact .none
      | some u =>
        have smaller := less s t u related more ran
        obtain ⟨fuel', rfl⟩ : ∃ k, fuel' = k + 1 := ⟨fuel' - 1, by omega⟩
        simp only [Loop.loop, conditions s t related, more, if_true]
        rw [ran] at stepped ⊢
        obtain ⟨v, here, related'⟩ := returns stepped
        rw [here]
        exact ih related' (by omega) (by omega)

end Lockstep
