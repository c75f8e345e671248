import Mathlib.Data.List.Basic

/-! Registries: what each owner has under each key, up to a given equality of
keys. A registry is replayed from the history of additions and removals. -/
namespace Registry
variable {P K V : Type}

abbrev Entries (P K V : Type) := P → K → Option V

inductive Event (P K V : Type) where
  | added (owner : P) (key : K) (value : V)
  | removed (owner : P) (keys : List K)
  | looked

variable [DecidableEq P] (eq : K → K → Bool)

def add (p : P) (k : K) (v : V) (r : Entries P K V) : Entries P K V :=
  fun q l => if q = p ∧ eq l k = true then some v else r q l

def remove (p : P) (ks : List K) (r : Entries P K V) : Entries P K V :=
  fun q l => if q = p ∧ ∃ k ∈ ks, eq l k = true then none else r q l

def Event.after (r : Entries P K V) : Event P K V → Entries P K V
  | added p k v => add eq p k v r
  | removed p ks => remove eq p ks r
  | looked => r

def replay (history : List (Event P K V)) : Entries P K V :=
  history.foldl (Event.after eq) fun _ _ => none

theorem replay_extend (history : List (Event P K V)) (e : Event P K V) :
    replay eq (history ++ [e]) = e.after eq (replay eq history) := by
  rw [replay, List.foldl_append]
  rfl

end Registry
