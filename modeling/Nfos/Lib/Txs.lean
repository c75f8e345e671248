import Nfos.Lib.Txn

/-! Transactions over several arrays of objects: `L` is the record of their logs. -/
namespace Txn
variable {L M σ α β : Type}

/-- `grants a i` says whether a lock on the object `i` of the array `a` is granted. -/
def Txs (L α : Type) : Type := (Nat → Nat → Bool) → L → Except Failure (α × L)

namespace Txs

instance : Monad (Txs L) where
  pure a := fun _ l => .ok (a, l)
  bind program rest := fun grants l =>
    match program grants l with
    | .ok (a, l) => rest a grants l
    | .error failure => .error failure

theorem ok_of_toOption {ε : Type} {result : Except ε α} {a : α} (returned : result.toOption = some a) : result = .ok a := by
  cases result with
  | error failure => contradiction
  | ok b => rw [Option.some.inj returned]

/-- The program asked for an abort. -/
def isAbort : Except Failure α → Bool
  | .error .abort => true
  | _ => false

theorem eq_of_isAbort {result : Except Failure α} (aborts : isAbort result = true) : result = .error .abort := by
  unfold isAbort at aborts
  split at aborts
  · rfl
  · contradiction

/-- A call on one array. -/
def on (array : Nat) (get : L → Log σ) (set : Log σ → L → L) (program : Tx σ α) : Txs L α :=
  fun grants l =>
    match program (grants array) (get l) with
    | .ok (a, t) => .ok (a, set t l)
    | .error failure => .error failure

/-- A call on some of the arrays, from the number `first` on. -/
def within (first : Nat) (get : L → M) (set : M → L → L) (program : Txs M α) : Txs L α :=
  fun grants l =>
    match program (fun array => grants (first + array)) (get l) with
    | .ok (a, m) => .ok (a, set m l)
    | .error failure => .error failure

/-- A failed assertion. -/
def fault : Txs L α := fun _ _ => .error .fault

/-- A loop that returns as soon as a round has a result. -/
def firstSome (round : Nat → Txs L (Option α)) : List Nat → Txs L (Option α)
  | [] => pure none
  | i :: rest => do
    match ← round i with
    | some a => return some a
    | none => firstSome round rest

/-- What holds whenever the program returns, under any contention. -/
def Ensures (program : Txs L α) (l : L) (Q : α → L → Prop) : Prop :=
  ∀ grants a l', program grants l = .ok (a, l') → Q a l'

variable {l : L} {Q : α → L → Prop}

theorem run_bind {program : Txs L β} {rest : β → Txs L α} {grants : Nat → Nat → Bool} {b : β} {l' : L}
    (ran : program grants l = .ok (b, l')) : (program >>= rest) grants l = rest b grants l' := by
  simp only [bind, ran]

/-- Rounds that only look something up. -/
theorem run_firstSome {round : Nat → Txs L (Option α)} {result : Nat → Option α} {grants : Nat → Nat → Bool} {is : List Nat}
    (looks : ∀ i ∈ is, round i grants l = .ok (result i, l)) : firstSome round is grants l = .ok (is.findSome? result, l) := by
  induction is with
  | nil => rfl
  | cons i rest ih =>
    rw [firstSome, run_bind (looks i (List.mem_cons_self ..)), List.findSome?_cons]
    cases result i with
    | some a => rfl
    | none => exact ih fun j member => looks j (List.mem_cons_of_mem _ member)

theorem ensures_pure {a : α} (holds : Q a l) : Ensures (pure a) l Q := by
  intro grants b l' ran
  obtain ⟨rfl, rfl⟩ := Prod.mk.inj (Except.ok.inj ran)
  exact holds

theorem ensures_bind {program : Txs L β} {rest : β → Txs L α} {P : β → L → Prop} (first : Ensures program l P)
    (next : ∀ b l', P b l' → Ensures (rest b) l' Q) : Ensures (program >>= rest) l Q := by
  intro grants a l' ran
  simp only [bind] at ran
  split at ran
  · rename_i b m begun
    exact next b m (first grants b m begun) grants a l' ran
  · contradiction

theorem Ensures.mono {R : α → L → Prop} {program : Txs L α} (ensures : Ensures program l Q)
    (implies : ∀ a l', Q a l' → R a l') : Ensures program l R :=
  fun grants a l' ran => implies a l' (ensures grants a l' ran)

theorem ensures_fault : Ensures (fault : Txs L α) l Q := by
  intro grants a l' ran
  contradiction

theorem ensures_on {array : Nat} {get : L → Log σ} {set : Log σ → L → L} {program : Tx σ α}
    (post : ∀ grants, Tx.Post program grants (get l) fun a t => Q a (set t l)) :
    Ensures (on array get set program) l Q := by
  intro grants a l' ran
  simp only [on] at ran
  split at ran
  · rename_i b t returned
    obtain ⟨rfl, rfl⟩ := Prod.mk.inj (Except.ok.inj ran)
    have holds := post (grants array)
    rwa [Tx.Post, returned] at holds
  · contradiction

theorem ensures_within {first : Nat} {get : L → M} {set : M → L → L} {program : Txs M α}
    (ensures : Ensures program (get l) fun a m => Q a (set m l)) : Ensures (within first get set program) l Q := by
  intro grants a l' ran
  simp only [within] at ran
  split at ran
  · rename_i b m returned
    obtain ⟨rfl, rfl⟩ := Prod.mk.inj (Except.ok.inj ran)
    exact ensures _ b m returned
  · contradiction

theorem ensures_ite {p : Prop} [Decidable p] {first second : Txs L α} (yes : p → Ensures first l Q)
    (no : ¬ p → Ensures second l Q) : Ensures (if p then first else second) l Q := by
  split
  · exact yes ‹_›
  · exact no ‹_›

/-- Two properties of the results hold together. -/
theorem Ensures.and {R : α → L → Prop} {program : Txs L α} (left : Ensures program l Q)
    (right : Ensures program l R) : Ensures program l fun a l' => Q a l' ∧ R a l' :=
  fun grants a l' ran => ⟨left grants a l' ran, right grants a l' ran⟩

/-- The rest of a program runs on what its first part leaves. -/
theorem ensures_seq {program : Txs L β} {rest : β → Txs L α}
    (both : Ensures program l fun b l' => Ensures (rest b) l' Q) : Ensures (program >>= rest) l Q :=
  ensures_bind both fun _ _ next => next

section Post

/-- The program returns with the postcondition, or aborts because some lock was refused. -/
def Post (program : Txs L α) (grants : Nat → Nat → Bool) (l : L) (Q : α → L → Prop) : Prop :=
  match program grants l with
  | .ok (a, l') => Q a l'
  | .error .abort => ∃ array i, grants array i = false
  | .error .fault => False

variable {grants : Nat → Nat → Bool} {program : Txs L α}

@[simp] theorem post_pure {a : α} : Post (pure a : Txs L α) grants l Q ↔ Q a l := Iff.rfl

@[simp] theorem post_bind {program : Txs L β} {rest : β → Txs L α} :
    Post (program >>= rest) grants l Q ↔ Post program grants l fun b l' => Post (rest b) grants l' Q := by
  simp only [Post, bind]
  cases program grants l with
  | ok result => rfl
  | error failure => cases failure <;> rfl

theorem Post.mono {R : α → L → Prop} (post : Post program grants l Q) (implies : ∀ a l', Q a l' → R a l') :
    Post program grants l R := by
  unfold Post at post ⊢
  split
  · rename_i result
    rw [result] at post
    exact implies _ _ post
  · rename_i result
    rwa [result] at post
  · rename_i result
    rwa [result] at post

theorem post_on {array : Nat} {get : L → Log σ} {set : Log σ → L → L} {program : Tx σ α}
    (post : Tx.Post program (grants array) (get l) fun a t => Q a (set t l)) : Post (on array get set program) grants l Q := by
  unfold Tx.Post at post
  unfold Post on
  cases result : program (grants array) (get l) with
  | ok returned =>
    rw [result] at post
    exact post
  | error failure =>
    rw [result] at post
    cases failure with
    | abort =>
      obtain ⟨i, refused⟩ := post
      exact ⟨array, i, refused⟩
    | fault => exact post

theorem post_within {first : Nat} {get : L → M} {set : M → L → L} {program : Txs M α}
    (post : Post program (fun array => grants (first + array)) (get l) fun a m => Q a (set m l)) :
    Post (within first get set program) grants l Q := by
  unfold Post at post
  unfold Post within
  cases result : program (fun array => grants (first + array)) (get l) with
  | ok returned =>
    rw [result] at post
    exact post
  | error failure =>
    rw [result] at post
    cases failure with
    | abort =>
      obtain ⟨array, i, refused⟩ := post
      exact ⟨first + array, i, refused⟩
    | fault => exact post

theorem post_ite {p : Prop} [Decidable p] {first second : Txs L α} (yes : p → Post first grants l Q)
    (no : ¬ p → Post second grants l Q) : Post (if p then first else second) grants l Q := by
  split
  · exact yes ‹_›
  · exact no ‹_›

theorem ensures_of_post (post : ∀ grants, Post program grants l Q) : Ensures program l Q := by
  intro grants a l' ran
  have holds := post grants
  rwa [Post, ran] at holds

/-- Without contention every program with a postcondition returns. -/
theorem Post.returns (post : Post program (fun _ _ => true) l Q) : ∃ a l', program (fun _ _ => true) l = .ok (a, l') ∧ Q a l' := by
  unfold Post at post
  split at post
  · rename_i a l' result
    exact ⟨a, l', result, post⟩
  · obtain ⟨_, _, refused⟩ := post
    contradiction
  · contradiction

end Post

section Keeps
variable {R : L → L → Prop} {program : Txs L α}

/-- The logs before and after are related. -/
def Keeps (R : L → L → Prop) (program : Txs L α) : Prop := ∀ l, Ensures program l fun _ l' => R l l'

theorem keeps_pure [Std.Refl R] (a : α) : Keeps R (pure a : Txs L α) :=
  fun l => ensures_pure (Std.Refl.refl l)

theorem keeps_fault : Keeps R (fault : Txs L α) := fun _ => ensures_fault

theorem Keeps.bind [IsTrans L R] {first : Txs L β} {rest : β → Txs L α} (begins : Keeps R first)
    (continues : ∀ b, Keeps R (rest b)) : Keeps R (first >>= rest) := by
  intro l
  refine ensures_bind (begins l) ?_
  intro b m related
  exact (continues b m).mono fun _ _ next => IsTrans.trans _ _ _ related next

theorem keeps_ite {p : Prop} [Decidable p] {first second : Txs L α} (yes : p → Keeps R first) (no : ¬ p → Keeps R second) :
    Keeps R (if p then first else second) :=
  fun l => ensures_ite (fun holds => yes holds l) fun fails => no fails l

theorem keeps_on {array : Nat} {get : L → Log σ} {set : Log σ → L → L} {program : Tx σ α}
    (related : ∀ l grants a t, program grants (get l) = .ok (a, t) → R l (set t l)) : Keeps R (on array get set program) := by
  intro l grants a l' ran
  simp only [on] at ran
  split at ran
  · rename_i b t returned
    obtain ⟨rfl, rfl⟩ := Prod.mk.inj (Except.ok.inj ran)
    exact related l _ _ _ returned
  · contradiction

theorem keeps_within {first : Nat} {get : L → M} {set : M → L → L} {program : Txs M α}
    (related : ∀ l grants a m, program grants (get l) = .ok (a, m) → R l (set m l)) : Keeps R (within first get set program) := by
  intro l grants a l' ran
  simp only [within] at ran
  split at ran
  · rename_i b m returned
    obtain ⟨rfl, rfl⟩ := Prod.mk.inj (Except.ok.inj ran)
    exact related l _ _ _ returned
  · contradiction

end Keeps

section Steady

/-- The locks that are granted decide only whether the program ends. -/
def Steady (program : Txs L α) : Prop := ∀ grants l r, program grants l = .ok r → program (fun _ _ => true) l = .ok r

theorem steady_pure (a : α) : Steady (pure a : Txs L α) := fun _ _ _ ran => ran

theorem steady_fault : Steady (fault : Txs L α) := fun _ _ _ ran => ran

theorem Steady.bind {first : Txs L β} {rest : β → Txs L α} (begins : Steady first) (continues : ∀ b, Steady (rest b)) :
    Steady (first >>= rest) := by
  intro grants l r ran
  simp only [Bind.bind] at ran ⊢
  split at ran
  · rename_i b m begun
    rw [begins _ _ _ begun]
    exact continues b _ _ _ ran
  · contradiction

theorem steady_on {array : Nat} {get : L → Log σ} {set : Log σ → L → L} {program : Tx σ α} (steady : Tx.Steady program) :
    Steady (on array get set program) := by
  intro grants l r ran
  simp only [on] at ran ⊢
  split at ran
  · rename_i b t returned
    rw [steady _ _ _ returned]
    exact ran
  · contradiction

theorem steady_within {first : Nat} {get : L → M} {set : M → L → L} {program : Txs M α} (steady : Steady program) :
    Steady (within first get set program) := by
  intro grants l r ran
  simp only [within] at ran ⊢
  split at ran
  · rename_i a m returned
    rw [steady _ _ _ returned]
    exact ran
  · contradiction

theorem steady_ite {p : Prop} [Decidable p] {first second : Txs L α} (yes : p → Steady first) (no : ¬ p → Steady second) :
    Steady (if p then first else second) := by
  split
  · exact yes ‹_›
  · exact no ‹_›

end Steady

section Looks

/-- The program ended in a step after the other. -/
theorem bind_eq_ok {first : Txs L β} {rest : β → Txs L α} {grants : Nat → Nat → Bool} {l : L} {r : α × L} :
    (first >>= rest) grants l = .ok r ↔ ∃ b m, first grants l = .ok (b, m) ∧ rest b grants m = .ok r := by
  simp only [Bind.bind]
  cases first grants l with
  | error failure => simp
  | ok begun =>
    constructor
    · intro ran
      exact ⟨_, _, rfl, ran⟩
    · rintro ⟨b, m, ⟨⟩, ran⟩
      exact ran

/-- The program writes nothing, and no lock decides what it returns. -/
def Looks (program : Txs L α) : Prop := ∀ grants l r, program grants l = .ok r → r.2 = l ∧ ∀ grants', program grants' l = .ok r

theorem looks_pure (a : α) : Looks (pure a : Txs L α) := by
  rintro grants l r ⟨⟩
  exact ⟨rfl, fun _ => rfl⟩

theorem looks_fault : Looks (fault : Txs L α) := by
  intro grants l r ran
  contradiction

theorem Looks.bind {first : Txs L β} {rest : β → Txs L α} (begins : Looks first) (continues : ∀ b, Looks (rest b)) :
    Looks (first >>= rest) := by
  intro grants l r ran
  obtain ⟨b, m, begun, ended⟩ := bind_eq_ok.mp ran
  obtain ⟨rfl, always⟩ := begins _ _ _ begun
  obtain ⟨same, continued⟩ := continues b _ _ _ ended
  refine ⟨same, ?_⟩
  intro grants'
  rw [run_bind (always grants')]
  exact continued grants'

theorem looks_ite {p : Prop} [Decidable p] {first second : Txs L α} (yes : p → Looks first) (no : ¬ p → Looks second) :
    Looks (if p then first else second) := by
  split
  · exact yes ‹_›
  · exact no ‹_›

theorem looks_on {array : Nat} {get : L → Log σ} {set : Log σ → L → L} {program : Tx σ α} {f : Log σ → α}
    (reads : ∀ grants t, program grants t = .ok (f t, t)) (same : ∀ l, set (get l) l = l) : Looks (on array get set program) := by
  rintro grants l r ran
  simp only [on, reads, Except.ok.injEq] at ran
  subst ran
  refine ⟨same l, ?_⟩
  intro grants'
  simp only [on, reads]

theorem looks_within {first : Nat} {get : L → M} {set : M → L → L} {program : Txs M α} (looks : Looks program)
    (same : ∀ l, set (get l) l = l) : Looks (within first get set program) := by
  intro grants l r ran
  simp only [within] at ran
  split at ran
  · rename_i a m returned
    obtain ⟨rfl, always⟩ := looks _ _ _ returned
    obtain rfl := Except.ok.inj ran
    refine ⟨same l, ?_⟩
    intro grants'
    simp only [within, always]
  · contradiction

theorem looks_firstSome {round : Nat → Txs L (Option α)} (looks : ∀ i, Looks (round i)) (is : List Nat) : Looks (firstSome round is) := by
  induction is with
  | nil => exact looks_pure none
  | cons i rest ih =>
    apply (looks i).bind
    intro result
    cases result with
    | some a => exact looks_pure (some a)
    | none => exact ih

/-- The result is that of some round. -/
theorem firstSome_found {round : Nat → Txs L (Option α)} (looks : ∀ i, Looks (round i)) {is : List Nat} {grants : Nat → Nat → Bool}
    {l l' : L} {a : α} (ran : firstSome round is grants l = .ok (some a, l')) :
    ∃ i ∈ is, round i grants l = .ok (some a, l) := by
  induction is with
  | nil => cases (Prod.mk.inj (Except.ok.inj ran)).1
  | cons i rest ih =>
    obtain ⟨result, m, begun, ended⟩ := bind_eq_ok.mp ran
    obtain ⟨rfl, _⟩ := looks i _ _ _ begun
    cases result with
    | some b =>
      obtain ⟨⟨⟩, _⟩ := Prod.mk.inj (Except.ok.inj ended)
      exact ⟨i, List.mem_cons_self .., begun⟩
    | none =>
      obtain ⟨j, member, found⟩ := ih ended
      exact ⟨j, List.mem_cons_of_mem _ member, found⟩

end Looks
end Txs
end Txn
