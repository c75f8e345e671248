import Nfos.Lib.Txn
import Nfos.Lib.Run
import Mathlib.Algebra.BigOperators.Group.Finset.Basic
import Mathlib.Algebra.BigOperators.Group.Finset.Piecewise

/-! `NfosMeObj`: an object with one replica for each worker core. A core updates its
own replica; a read merges all replicas into a cache of the core, which is not part of
the transactional memory. -/
namespace Nfos.MergeableObj
open Txn Tx Function Run
variable {α : Type}

/-- The constants of an object, with the custom functions of its users. -/
structure NfosMeObj (α : Type) where
  numReplicas : Nat
  staleness : Int
  initObj : α
  mergeObj : α → α → α

/-- `obj_merged_val_t` -/
structure ObjMergedVal (α : Type) where
  ts : Int
  val : α

/-- A transaction of a core, in which the current time is `time`. -/
structure Running (α : Type) where
  time : Int
  log : Log α

structure State (α : Type) where
  replicas : Nat → α
  mergedValCaches : Nat → ObjMergedVal α
  running : Nat → Option (Running α)

/-- All allocations of memory succeed. -/
def nfosMeObjAllocate (me : NfosMeObj α) : State α where
  replicas _ := me.initObj
  mergedValCaches _ := ⟨0, me.initObj⟩
  running _ := none

def nfosMeObjUpdate (core : Nat) (updateObj : α → α) : Tx α Unit := do
  let replica ← tryLockAt core
  modify replica updateObj

def mergeReplicas (me : NfosMeObj α) : List Nat → α → Tx α α
  | [], obj => return obj
  | i :: rest, obj => do
    let replica ← deref i
    mergeReplicas me rest (me.mergeObj obj (← read replica))

/-- The cache is due for a refresh. -/
def due (me : NfosMeObj α) (currTs : Int) (cache : ObjMergedVal α) : Bool :=
  currTs - cache.ts ≥ me.staleness

/-- The cache of the core after the call, which holds the returned object. -/
def nfosMeObjRead (me : NfosMeObj α) (currTs : Int) (cache : ObjMergedVal α) : Tx α (ObjMergedVal α) := do
  if due me currTs cache then
    let obj ← mergeReplicas me (List.range me.numReplicas) me.initObj
    return ⟨currTs, obj⟩
  else
    return cache

inductive Event (α : Type) where
  | started (core : Nat) (time : Int)
  | updated (core : Nat) (updateObj : α → α)
  | read (core : Nat) (refreshed : Bool) (obj : α)
  | committed (core : Nat)
  | aborted (core : Nat)

/-- The steps of the worker cores. A transaction starts with a consistent snapshot, and
a commit publishes its copies; it may abort at any point. -/
inductive Step (me : NfosMeObj α) : State α → Event α → State α → Prop where
  | start {s : State α} {core : Nat} (time : Int) (worker : core < me.numReplicas)
      (idle : s.running core = none) :
      Step me s (.started core time)
        { s with running := update s.running core (some ⟨time, .start s.replicas⟩) }
  | update {s : State α} {core : Nat} {r : Running α} {updateObj : α → α} {grants : Nat → Bool} {log : Log α}
      (inside : s.running core = some r) (ran : nfosMeObjUpdate core updateObj grants r.log = .ok ((), log)) :
      Step me s (.updated core updateObj) { s with running := update s.running core (some { r with log := log }) }
  | read {s : State α} {core : Nat} {r : Running α} {grants : Nat → Bool} {cache : ObjMergedVal α}
      {log : Log α} (inside : s.running core = some r)
      (ran : nfosMeObjRead me r.time (s.mergedValCaches core) grants r.log = .ok (cache, log)) :
      Step me s (.read core (due me r.time (s.mergedValCaches core)) cache.val)
        { s with
          running := update s.running core (some { r with log := log })
          mergedValCaches := update s.mergedValCaches core cache }
  | commit {s : State α} {core : Nat} {r : Running α} (inside : s.running core = some r) :
      Step me s (.committed core)
        { s with
          replicas := fun i => (r.log.copy i).getD (s.replicas i)
          running := update s.running core none }
  | abort {s : State α} {core : Nat} {r : Running α} (inside : s.running core = some r) :
      Step me s (.aborted core) { s with running := update s.running core none }

/-- The numbers of updates in a run: those committed so far, those of the running
transaction of a core, and those committed before the snapshot of that transaction.
`exposed` tells that the running transaction of a core has refreshed the cache with an
update of its own pending. -/
structure Tally where
  total : Nat
  pending : Nat → Nat
  snapshot : Nat → Nat
  exposed : Nat → Bool

def Tally.next (t : Tally) : Event α → Tally
  | .started core _ => { t with
      pending := update t.pending core 0
      snapshot := update t.snapshot core t.total
      exposed := update t.exposed core false }
  | .updated core _ => { t with pending := update t.pending core (t.pending core + 1) }
  | .read core refreshed _ => { t with
      exposed := update t.exposed core (t.exposed core || (refreshed && decide (0 < t.pending core))) }
  | .committed core => { t with
      total := t.total + t.pending core
      pending := update t.pending core 0
      exposed := update t.exposed core false }
  | .aborted core => { t with
      pending := update t.pending core 0
      exposed := update t.exposed core false }

def tally (history : List (Event α)) : Tally :=
  history.foldl Tally.next ⟨0, fun _ => 0, fun _ => 0, fun _ => false⟩

theorem tally_extend (history : List (Event α)) (e : Event α) :
    tally (history ++ [e]) = (tally history).next e := List.foldl_append

section Calls
variable {me : NfosMeObj α} {core : Nat} {grants : Nat → Bool} {t t' : Log α}

/-- The merge of some values of the replicas. -/
def merged (me : NfosMeObj α) (v : Nat → α) : α :=
  (List.range me.numReplicas).foldl (fun obj i => me.mergeObj obj (v i)) me.initObj

theorem update_spec {updateObj : α → α} (ran : nfosMeObjUpdate core updateObj grants t = .ok ((), t')) :
    t' = (t.lock core).set core (updateObj (t.view core)) := by
  simp only [nfosMeObjUpdate, bind, tryLockAt] at ran
  cases granted : (t.copy core).isSome || grants core with
  | false => simp [granted] at ran
  | true =>
    simp only [granted, if_true, Tx.modify, Log.view_lock, Except.ok.injEq, Prod.mk.injEq, true_and] at ran
    exact ran.symm

theorem mergeReplicas_spec (l : List Nat) (obj : α) :
    mergeReplicas me l obj grants t = .ok (l.foldl (fun obj i => me.mergeObj obj (t.view i)) obj, t) := by
  induction l generalizing obj with
  | nil => rfl
  | cons i rest ih =>
    simp only [mergeReplicas, bind, deref, Tx.read, Log.read_ref, List.foldl_cons]
    exact ih _

theorem read_spec {currTs : Int} {cache cache' : ObjMergedVal α}
    (ran : nfosMeObjRead me currTs cache grants t = .ok (cache', t')) :
    t' = t ∧ cache' = if due me currTs cache then ⟨currTs, merged me t.view⟩ else cache := by
  unfold nfosMeObjRead at ran
  split at ran
  · rename_i refreshed
    simp only [bind, mergeReplicas_spec, pure, Except.ok.injEq, Prod.mk.injEq] at ran
    obtain ⟨rfl, rfl⟩ := ran
    simp [refreshed, merged]
  · rename_i kept
    simp only [pure, Except.ok.injEq, Prod.mk.injEq] at ran
    obtain ⟨rfl, rfl⟩ := ran
    simp [kept]

end Calls

section Counting

/-- The laws of a mergeable object, such as a counter with its increments. -/
structure Mergeable (me : NfosMeObj α) (u : α → α) : Prop where
  unit : ∀ x, me.mergeObj x me.initObj = x
  right : ∀ x y, me.mergeObj x (u y) = u (me.mergeObj x y)
  left : ∀ x y, me.mergeObj (u x) y = u (me.mergeObj x y)

variable {me : NfosMeObj α} {u : α → α} (laws : Mergeable me u)
include laws

theorem Mergeable.merge_iterate (x : α) (b : Nat) :
    me.mergeObj x (u^[b] me.initObj) = u^[b] x := by
  induction b with
  | zero => exact laws.unit x
  | succ b ih => rw [iterate_succ_apply', iterate_succ_apply', laws.right, ih]

/-- The merge of replicas counts all of their updates. -/
theorem Mergeable.merged_iterate (k : Nat → Nat) :
    merged me (fun i => u^[k i] me.initObj) =
      u^[∑ i ∈ Finset.range me.numReplicas, k i] me.initObj := by
  unfold merged
  induction me.numReplicas with
  | zero => rfl
  | succ n ih =>
    rw [List.range_succ, List.foldl_append, ih, Finset.sum_range_succ, List.foldl_cons, List.foldl_nil,
      laws.merge_iterate, ← iterate_add_apply, Nat.add_comm]

end Counting

section Invariant
variable {me : NfosMeObj α} {u : α → α} {history : List (Event α)} {s s' : State α} {core : Nat}

/-- The state of a transaction that has made the updates of the tally: `k` counts the
updates in its snapshot. -/
structure Counts (me : NfosMeObj α) (u : α → α) (core pending snapshot : Nat) (count : Nat → Nat) (t : Log α)
    (k : Nat → Nat) : Prop where
  values : ∀ i, t.snapshot i = u^[k i] me.initObj
  total : ∑ i ∈ Finset.range me.numReplicas, k i = snapshot
  own : k core = count core
  others : ∀ i, i ≠ core → t.copy i = none
  untouched : pending = 0 → t.copy core = none
  view : t.view core = u^[pending + k core] me.initObj

/-- The replicas hold the committed updates of their cores. -/
def Counted (me : NfosMeObj α) (u : α → α) (history : List (Event α)) (s : State α) : Prop :=
  ∃ count : Nat → Nat,
    (∀ i, s.replicas i = u^[count i] me.initObj) ∧
    ∑ i ∈ Finset.range me.numReplicas, count i = (tally history).total ∧
    ∀ core r, s.running core = some r → core < me.numReplicas ∧
      ∃ k, Counts me u core ((tally history).pending core) ((tally history).snapshot core) count r.log k

theorem counted_start (me : NfosMeObj α) (u : α → α) : Counted me u [] (nfosMeObjAllocate me) :=
  ⟨fun _ => 0, by simp [nfosMeObjAllocate, tally]⟩

theorem step_counted {e : Event α} (counted : Counted me u history s) (step : Step me s e s')
    (only : ∀ core f, e = .updated core f → f = u) : Counted me u (history ++ [e]) s' := by
  obtain ⟨count, values, total, open'⟩ := counted
  unfold Counted
  rw [tally_extend]
  cases step with
  | @start core time worker idle =>
    refine ⟨count, values, total, ?_⟩
    intro c r inside
    by_cases same : c = core
    · subst same
      simp only [update_self, Option.some.injEq] at inside
      subst inside
      refine ⟨worker, count, ⟨values, ?_, rfl, fun _ _ => rfl, fun _ => rfl, ?_⟩⟩
      · simpa [Tally.next] using total
      · simpa [Tally.next] using values c
    · simp only [update_of_ne same] at inside
      simpa [Tally.next, update_of_ne same] using open' c r inside
  | @update core r f grants log inside ran =>
    obtain rfl := only core f rfl
    refine ⟨count, values, total, ?_⟩
    intro c r' inside'
    by_cases same : c = core
    · subst same
      simp only [update_self, Option.some.injEq] at inside'
      subst inside'
      obtain ⟨worker, k, counts⟩ := open' c r inside
      rw [update_spec ran]
      refine ⟨worker, k, ⟨counts.values, counts.total, counts.own, ?_, ?_, ?_⟩⟩
      · intro i apart
        simpa [Log.set, Log.lock, update_of_ne apart] using counts.others i apart
      · simp [Tally.next]
      · simp only [Log.view_set, update_self, Tally.next, counts.view]
        rw [← iterate_succ_apply' f]
        congr 1
        omega
    · simp only [update_of_ne same] at inside'
      simpa [Tally.next, update_of_ne same] using open' c r' inside'
  | @read core r grants cache log inside ran =>
    obtain ⟨rfl, _⟩ := read_spec ran
    refine ⟨count, values, total, ?_⟩
    intro c r' inside'
    have before : s.running c = some r' := by
      by_cases same : c = core
      · subst same
        simpa [inside] using inside'
      · simpa [update_of_ne same] using inside'
    exact open' c r' before
  | @commit core r inside =>
    obtain ⟨worker, k, counts⟩ := open' core r inside
    refine ⟨update count core (count core + (tally history).pending core), ?_, ?_, ?_⟩
    · intro i
      by_cases same : i = core
      · subst same
        have view := counts.view
        simp only [update_self]
        by_cases none : (tally history).pending i = 0
        · rw [counts.untouched none, none]
          exact values i
        · cases copy : r.log.copy i with
          | none =>
            simp only [Log.view, copy, Option.getD_none] at view
            rw [Option.getD_none, values i]
            rw [counts.values, counts.own] at view
            rw [view, Nat.add_comm]
          | some value =>
            simp only [Log.view, copy, Option.getD_some] at view
            rw [Option.getD_some, view, counts.own, Nat.add_comm]
      · simp only [counts.others i same, Option.getD_none, update_of_ne same]
        exact values i
    · rw [Finset.sum_update_of_mem (Finset.mem_range.mpr worker)]
      have rest : count core + ∑ i ∈ Finset.range me.numReplicas \ {core}, count i = (tally history).total := by
        rw [← total, ← Finset.sum_sdiff (Finset.singleton_subset_iff.mpr (Finset.mem_range.mpr worker))]
        simp [Nat.add_comm]
      simp only [Tally.next]
      omega
    · intro c r' inside'
      by_cases same : c = core
      · subst same
        simp at inside'
      · simp only [update_of_ne same] at inside'
        obtain ⟨worker', k', counts'⟩ := open' c r' inside'
        refine ⟨worker', k', ?_⟩
        simp only [Tally.next, update_of_ne same]
        exact ⟨counts'.values, counts'.total, by rw [update_of_ne same, counts'.own], counts'.others,
          counts'.untouched, counts'.view⟩
  | @abort core r inside =>
    refine ⟨count, values, total, ?_⟩
    intro c r' inside'
    by_cases same : c = core
    · subst same
      simp at inside'
    · simp only [update_of_ne same] at inside'
      simpa [Tally.next, update_of_ne same] using open' c r' inside'

/-- When `u` is the only update, a due read in a transaction without updates returns all
those that were committed before its snapshot. -/
theorem read_counts_committed_updates (laws : Mergeable me u) {s' : State α} {obj : α}
    (run : Trace (Step me) (nfosMeObjAllocate me) history s) (only : ∀ core f, .updated core f ∈ history → f = u)
    (refreshed : Step me s (.read core true obj) s') (readOnly : (tally history).pending core = 0) :
    obj = u^[(tally history).snapshot core] me.initObj := by
  have counted : (∀ core f, .updated core f ∈ history → f = u) → Counted me u history s := by
    apply run.rule (P := fun history s => (∀ core f, .updated core f ∈ history → f = u) → Counted me u history s)
    · intro _
      exact counted_start me u
    · intro past t e t' _ before step only
      apply step_counted (before fun core f member => only core f (List.mem_append_left _ member)) step
      rintro core f rfl
      exact only core f (List.mem_append_right _ List.mem_cons_self)
  obtain ⟨count, _, _, open'⟩ := counted only
  generalize event : Event.read core true obj = e at refreshed
  cases refreshed with
  | @read core' r grants cache log inside ran =>
    obtain ⟨rfl, isDue, rfl⟩ := Event.read.inj event
    obtain ⟨_, rfl⟩ := read_spec ran
    obtain ⟨_, k, counts⟩ := open' core r inside
    have view : r.log.view = fun i => u^[k i] me.initObj := by
      funext i
      have copy : r.log.copy i = none := by
        by_cases own : i = core
        · exact own ▸ counts.untouched readOnly
        · exact counts.others i own
      rw [Log.view, copy, Option.getD_none, counts.values]
    rw [if_pos isDue.symm, view, laws.merged_iterate, counts.total]
  | _ => contradiction

end Invariant

section Execution
variable [DecidableEq α]

/-- The step of a given event, if it can happen without contention. -/
def exec (me : NfosMeObj α) (s : State α) : Event α → Option (State α)
  | .started core time =>
    if core < me.numReplicas ∧ (s.running core).isNone then
      some { s with running := update s.running core (some ⟨time, .start s.replicas⟩) }
    else none
  | .updated core updateObj => do
    let r ← s.running core
    match nfosMeObjUpdate core updateObj (fun _ => true) r.log with
    | .ok ((), log) => some { s with running := update s.running core (some { r with log := log }) }
    | .error _ => none
  | .read core refreshed obj => do
    let r ← s.running core
    match nfosMeObjRead me r.time (s.mergedValCaches core) (fun _ => true) r.log with
    | .ok (cache, log) =>
      if due me r.time (s.mergedValCaches core) = refreshed ∧ cache.val = obj then
        some { s with
          running := update s.running core (some { r with log := log })
          mergedValCaches := update s.mergedValCaches core cache }
      else none
    | .error _ => none
  | .committed core => do
    let r ← s.running core
    some { s with
      replicas := fun i => (r.log.copy i).getD (s.replicas i)
      running := update s.running core none }
  | .aborted core => do
    let _ ← s.running core
    some { s with running := update s.running core none }

variable {me : NfosMeObj α} {s s' : State α}

theorem exec_step {e : Event α} (ran : exec me s e = some s') : Step me s e s' := by
  cases e with
  | started core time =>
    simp only [exec] at ran
    split at ran
    · rename_i ready
      cases ran
      exact .start time ready.1 (Option.isNone_iff_eq_none.mp ready.2)
    · contradiction
  | updated core updateObj =>
    simp only [exec, Option.bind_eq_bind, Option.bind_eq_some_iff] at ran
    obtain ⟨r, inside, ran⟩ := ran
    split at ran
    · rename_i updated
      cases ran
      exact .update inside updated
    · contradiction
  | read core refreshed obj =>
    simp only [exec, Option.bind_eq_bind, Option.bind_eq_some_iff] at ran
    obtain ⟨r, inside, ran⟩ := ran
    split at ran
    · rename_i returned
      split at ran
      · rename_i same
        cases ran
        obtain ⟨rfl, rfl⟩ := same
        exact .read inside returned
      · contradiction
    · contradiction
  | committed core =>
    simp only [exec, Option.bind_eq_bind, Option.bind_eq_some_iff] at ran
    obtain ⟨r, inside, ran⟩ := ran
    cases ran
    exact .commit inside
  | aborted core =>
    simp only [exec, Option.bind_eq_bind, Option.bind_eq_some_iff] at ran
    obtain ⟨r, inside, ran⟩ := ran
    cases ran
    exact .abort inside

theorem exec_run {history : List (Event α)} (ran : history.foldlM (exec me) s = some s') :
    Trace (Step me) s history s' := by
  induction history generalizing s with
  | nil =>
    cases ran
    exact .start
  | cons e rest ih =>
    simp only [List.foldlM_cons, Option.bind_eq_bind, Option.bind_eq_some_iff] at ran
    obtain ⟨u, first, ran⟩ := ran
    exact Trace.append (Trace.start.extend (exec_step first)) (ih ran)

end Execution

section Sample

/-- A counter with two replicas. -/
def sampleCounter : NfosMeObj Nat := ⟨2, 5, 0, (· + ·)⟩

theorem sampleCounter_laws : Mergeable sampleCounter Nat.succ :=
  ⟨fun x => Nat.add_zero x, fun x y => (Nat.add_assoc x y 1).symm, fun x y => Nat.add_right_comm x 1 y⟩

def sampleHistory : List (Event Nat) := [.started 0 0, .updated 0 Nat.succ, .committed 0, .started 1 10]

def sampleState : State Nat :=
  (sampleHistory.foldlM (exec sampleCounter) (nfosMeObjAllocate sampleCounter)).getD
    (nfosMeObjAllocate sampleCounter)

/-- An update of core 0 is seen by a read of core 1. -/
theorem read_counts_committed_update_of_two : ∃ s',
    Trace (Step sampleCounter) (nfosMeObjAllocate sampleCounter) sampleHistory sampleState ∧
    Step sampleCounter sampleState (.read 1 true 1) s' ∧
    1 = Nat.succ^[(tally sampleHistory).snapshot 1] sampleCounter.initObj := by
  have run : Trace (Step sampleCounter) (nfosMeObjAllocate sampleCounter) sampleHistory sampleState :=
    exec_run rfl
  have read : Step sampleCounter sampleState (.read 1 true 1) _ := exec_step rfl
  have only : ∀ core f, .updated core f ∈ sampleHistory → f = Nat.succ := by simp [sampleHistory]
  exact ⟨_, run, read, read_counts_committed_updates sampleCounter_laws run only read (by decide)⟩

end Sample
end Nfos.MergeableObj
