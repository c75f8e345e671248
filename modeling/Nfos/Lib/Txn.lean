import Mathlib.Logic.Function.Basic

/-! Optimistic transactions over an array of versioned objects. A transaction
reads the versions of its snapshot, writes private copies of the objects it has
locked, and publishes all copies or none. A reference obtained before an object
was copied keeps naming the old version, so stale reads are visible here. -/
namespace Txn
variable {σ α β : Type}

/-- A running transaction: its snapshot, its private copies and the objects
it has tried to lock, in order. -/
structure Log (σ : Type) where
  snapshot : Nat → σ
  copy : Nat → Option σ
  locks : List Nat

inductive Ref (σ : Type) where
  | version (object : Nat) (value : σ)
  | pending (object : Nat)

def Ref.object : Ref σ → Nat
  | .version object _ => object
  | .pending object => object

@[simp] theorem Ref.object_pending (i : Nat) : (Ref.pending i : Ref σ).object = i := rfl

namespace Log

def start (snapshot : Nat → σ) : Log σ := ⟨snapshot, fun _ => none, []⟩

/-- What the transaction would publish for an object. -/
def view (t : Log σ) (i : Nat) : σ := (t.copy i).getD (t.snapshot i)

/-- The reference a transaction gets for an object: its own copy if it has one. -/
def ref (t : Log σ) (i : Nat) : Ref σ :=
  match t.copy i with
  | some _ => .pending i
  | none => .version i (t.snapshot i)

def read (t : Log σ) : Ref σ → σ
  | .version _ value => value
  | .pending i => t.view i

def lock (t : Log σ) (i : Nat) : Log σ :=
  { t with copy := Function.update t.copy i (some (t.view i)), locks := t.locks ++ [i] }

def set (t : Log σ) (i : Nat) (value : σ) : Log σ :=
  { t with copy := Function.update t.copy i (some value) }

@[simp] theorem view_start (cells : Nat → σ) : (start cells).view = cells := rfl

@[simp] theorem view_set (t : Log σ) (i : Nat) (value : σ) :
    (t.set i value).view = Function.update t.view i value := by
  funext j
  by_cases same : j = i
  · subst same
    simp [view, set]
  · simp [view, set, Function.update_of_ne same]

@[simp] theorem view_lock (t : Log σ) (i : Nat) : (t.lock i).view = t.view := by
  funext j
  by_cases same : j = i
  · subst same
    simp [view, lock]
  · simp [view, lock, Function.update_of_ne same]

@[simp] theorem locks_set (t : Log σ) (i : Nat) (value : σ) : (t.set i value).locks = t.locks := rfl

@[simp] theorem locks_lock (t : Log σ) (i : Nat) : (t.lock i).locks = t.locks ++ [i] := rfl

@[simp] theorem object_ref (t : Log σ) (i : Nat) : (t.ref i).object = i := by
  unfold ref
  split <;> rfl

@[simp] theorem read_pending (t : Log σ) (i : Nat) : t.read (.pending i) = t.view i := rfl

@[simp] theorem read_ref (t : Log σ) (i : Nat) : t.read (t.ref i) = t.view i := by
  unfold ref
  split
  · rfl
  · rename_i absent
    simp [read, view, absent]

/-- Copying an object changes no value that an existing reference shows. -/
@[simp] theorem read_lock (t : Log σ) (i : Nat) (r : Ref σ) : (t.lock i).read r = t.read r := by
  cases r with
  | version => rfl
  | pending => simp

/-- A reference may go stale only by a write to its own object. -/
theorem read_set_of_ne (t : Log σ) {i : Nat} {r : Ref σ} (apart : r.object ≠ i) (value : σ) :
    (t.set i value).read r = t.read r := by
  cases r with
  | version => rfl
  | pending j => simp [Function.update_of_ne (show j ≠ i from apart)]

end Log

/-- `abort` gives up because a lock was refused; `fault` is a write through a
reference to a shared version, which no committed program may attempt. -/
inductive Failure where
  | abort
  | fault

/-- A transactional program. `grants i` says whether a lock on an object that
the transaction does not hold yet is granted. -/
def Tx (σ α : Type) : Type := (Nat → Bool) → Log σ → Except Failure (α × Log σ)

namespace Tx

instance : Monad (Tx σ) where
  pure a := fun _ t => .ok (a, t)
  bind program rest := fun grants t =>
    match program grants t with
    | .ok (a, t) => rest a grants t
    | .error failure => .error failure

def deref (i : Nat) : Tx σ (Ref σ) := fun _ t => .ok (t.ref i, t)

def read (r : Ref σ) : Tx σ σ := fun _ t => .ok (t.read r, t)

def tryLock (r : Ref σ) : Tx σ (Ref σ) := fun grants t =>
  if (t.copy r.object).isSome || grants r.object then
    .ok (.pending r.object, t.lock r.object)
  else .error .abort

/-- Lock an object given by its place in the array. -/
def tryLockAt (i : Nat) : Tx σ (Ref σ) := fun grants t =>
  if (t.copy i).isSome || grants i then .ok (.pending i, t.lock i) else .error .abort

def modify (r : Ref σ) (f : σ → σ) : Tx σ Unit := fun _ t =>
  match r with
  | .pending i => .ok ((), t.set i (f (t.view i)))
  | .version _ _ => .error .fault

/-- An access through a reference that was never set. -/
def fault : Tx σ α := fun _ _ => .error .fault

/-- `Post` holds when the program ends in a result satisfying `ensures`, or
aborts because some lock was refused. It never holds of a fault. -/
def Post (program : Tx σ α) (grants : Nat → Bool) (t : Log σ) (ensures : α → Log σ → Prop) : Prop :=
  match program grants t with
  | .ok (a, t) => ensures a t
  | .error .abort => ∃ i, grants i = false
  | .error .fault => False

variable {grants : Nat → Bool} {t : Log σ} {ensures : α → Log σ → Prop}

@[simp] theorem post_pure {a : α} : Post (pure a) grants t ensures ↔ ensures a t := Iff.rfl

@[simp] theorem post_bind {program : Tx σ β} {rest : β → Tx σ α} :
    Post (program >>= rest) grants t ensures ↔
      Post program grants t (fun b t => Post (rest b) grants t ensures) := by
  simp only [Post, bind]
  cases program grants t with
  | ok result => rfl
  | error failure => cases failure <;> rfl

@[simp] theorem post_deref {i : Nat} {ensures : Ref σ → Log σ → Prop} :
    Post (deref i) grants t ensures ↔ ensures (t.ref i) t := Iff.rfl

@[simp] theorem post_read {r : Ref σ} {ensures : σ → Log σ → Prop} :
    Post (read r) grants t ensures ↔ ensures (t.read r) t := Iff.rfl

theorem post_tryLock {r : Ref σ} {ensures : Ref σ → Log σ → Prop}
    (locked : ensures (.pending r.object) (t.lock r.object)) :
    Post (tryLock r) grants t ensures := by
  unfold Post tryLock
  cases granted : (t.copy r.object).isSome || grants r.object
  · simp only [Bool.or_eq_false_iff] at granted
    exact ⟨_, granted.2⟩
  · exact locked

theorem post_tryLockAt {i : Nat} {ensures : Ref σ → Log σ → Prop}
    (locked : ensures (.pending i) (t.lock i)) : Post (tryLockAt i) grants t ensures :=
  post_tryLock (r := .pending i) locked

@[simp] theorem post_modify {i : Nat} {f : σ → σ} {ensures : Unit → Log σ → Prop} :
    Post (modify (.pending i) f) grants t ensures ↔ ensures () (t.set i (f (t.view i))) := Iff.rfl

theorem post_ite {p : Prop} [Decidable p] {first second : Tx σ α}
    (yes : p → Post first grants t ensures) (no : ¬ p → Post second grants t ensures) :
    Post (if p then first else second) grants t ensures := by
  split
  · exact yes ‹_›
  · exact no ‹_›

theorem Post.mono {program : Tx σ α} {weaker : α → Log σ → Prop}
    (post : Post program grants t ensures) (implies : ∀ a t, ensures a t → weaker a t) :
    Post program grants t weaker := by
  unfold Post at post ⊢
  split
  · rename_i a t result
    rw [result] at post
    exact implies _ _ post
  · rename_i result
    rwa [result] at post
  · rename_i result
    rwa [result] at post

/-- Two properties of the results hold together. -/
theorem Post.and {program : Tx σ α} {other : α → Log σ → Prop} (left : Post program grants t ensures)
    (right : Post program grants t other) : Post program grants t fun a t' => ensures a t' ∧ other a t' := by
  unfold Post at left right ⊢
  split
  · rename_i a t result
    rw [result] at left right
    exact ⟨left, right⟩
  · rename_i result
    rwa [result] at left
  · rename_i result
    rwa [result] at left

/-- Run a program on committed objects. `none` is an aborted transaction,
which publishes nothing. -/
def atomically (program : Tx σ α) (grants : Nat → Bool) (cells : Nat → σ) :
    Option (α × (Nat → σ)) :=
  match program grants (.start cells) with
  | .ok (a, t) => some (a, t.view)
  | .error _ => none

theorem Post.commit {program : Tx σ α} {cells after : Nat → σ} {a : α}
    (post : Post program grants (.start cells) ensures)
    (ran : atomically program grants cells = some (a, after)) :
    ∃ t, ensures a t ∧ t.view = after := by
  unfold atomically at ran
  unfold Post at post
  split at ran
  · rename_i a t result
    rw [result] at post
    obtain ⟨rfl, rfl⟩ := Prod.mk.inj (Option.some.inj ran)
    exact ⟨t, post, rfl⟩
  · contradiction

/-- Without contention every program with a postcondition commits. -/
theorem Post.commits {program : Tx σ α} {cells : Nat → σ}
    (post : Post program grants (.start cells) ensures) (free : ∀ i, grants i = true) :
    ∃ a t, atomically program grants cells = some (a, t.view) ∧ ensures a t := by
  unfold Post at post
  unfold atomically
  split at post
  · rename_i a t result
    exact ⟨a, t, by rw [result], post⟩
  · obtain ⟨i, refused⟩ := post
    rw [free i] at refused
    contradiction
  · contradiction

section Steady
variable {program first : Tx σ α}

/-- The locks that are granted decide only whether the program ends. -/
def Steady (program : Tx σ α) : Prop := ∀ grants t r, program grants t = .ok r → program (fun _ => true) t = .ok r

theorem steady_pure (a : α) : Steady (pure a : Tx σ α) := fun _ _ _ ran => ran

theorem steady_deref (i : Nat) : Steady (deref i : Tx σ (Ref σ)) := fun _ _ _ ran => ran

theorem steady_read (r : Ref σ) : Steady (read r) := fun _ _ _ ran => ran

theorem steady_modify (r : Ref σ) (f : σ → σ) : Steady (modify r f) := fun _ _ _ ran => ran

theorem steady_fault : Steady (fault : Tx σ α) := fun _ _ _ ran => ran

theorem steady_tryLock (r : Ref σ) : Steady (tryLock r) := by
  intro grants t a ran
  unfold tryLock at ran ⊢
  split at ran
  · rw [if_pos (Bool.or_true _)]
    exact ran
  · contradiction

theorem steady_tryLockAt (i : Nat) : Steady (tryLockAt i : Tx σ (Ref σ)) := by
  intro grants t a ran
  unfold tryLockAt at ran ⊢
  split at ran
  · rw [if_pos (Bool.or_true _)]
    exact ran
  · contradiction

theorem Steady.bind {first : Tx σ β} {rest : β → Tx σ α} (begins : Steady first) (continues : ∀ b, Steady (rest b)) :
    Steady (first >>= rest) := by
  intro grants t r ran
  simp only [Bind.bind] at ran ⊢
  split at ran
  · rename_i b m begun
    rw [begins _ _ _ begun]
    exact continues b _ _ _ ran
  · contradiction

theorem steady_ite {p : Prop} [Decidable p] {first second : Tx σ α} (yes : p → Steady first) (no : ¬ p → Steady second) :
    Steady (if p then first else second) := by
  split
  · exact yes ‹_›
  · exact no ‹_›

end Steady
end Tx
end Txn
