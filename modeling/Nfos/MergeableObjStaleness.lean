import Nfos.MergeableObj

/-! The staleness of the reads of a mergeable object. The cache of a core outlives the
transaction that refreshed it, so it must hold nothing that this transaction does not commit. -/
namespace Nfos.MergeableObj
open Txn Tx Function Run
variable {α : Type} {me : NfosMeObj α} {history past later : List (Event α)} {s s' u : State α} {core : Nat}

/-- The time of the last transaction of a core. -/
def clock (history : List (Event α)) (core : Nat) : Int :=
  history.foldl (fun now e => match e with
    | .started c time => if c = core then time else now
    | _ => now) 0

theorem clock_extend (history : List (Event α)) (e : Event α) (core : Nat) :
    clock (history ++ [e]) core = match e with
      | .started c time => if c = core then time else clock history core
      | _ => clock history core := List.foldl_append

/-- The times of every core are nondecreasing. -/
def Ordered (history : List (Event α)) : Prop :=
  ∀ past core time later, history = past ++ .started core time :: later → clock past core ≤ time

/-- A transaction that refreshes the cache with an update of its own pending makes no
further update, and does not abort. -/
def Clean (history : List (Event α)) : Prop :=
  ∀ past core later, (∃ f, history = past ++ .updated core f :: later) ∨ history = past ++ .aborted core :: later →
    (tally past).exposed core = false

theorem Ordered.before (ordered : Ordered (past ++ later)) : Ordered past := by
  intro before core time after split
  exact ordered before core time (after ++ later) (by simp [split])

theorem Clean.before (clean : Clean (past ++ later)) : Clean past := by
  intro before core after split
  refine clean before core (after ++ later) ?_
  rcases split with ⟨f, split⟩ | split
  · exact .inl ⟨f, by simp [split]⟩
  · exact .inr (by simp [split])

/-- The point of a run that a merge is about: the allocation, or the start of a
transaction of the core at time `ts`. -/
structure Moment (me : NfosMeObj α) (history : List (Event α)) (core : Nat) (ts : Int)
    (past later : List (Event α)) (u : State α) : Prop where
  split : history = past ++ later
  run : Trace (Step me) (nfosMeObjAllocate me) past u
  time : past = [] ∧ ts = 0 ∨ ∃ rest, later = .started core ts :: rest

/-- The transaction that starts at a moment is the running one, or has committed `value`. -/
def CommittedBy (me : NfosMeObj α) (core : Nat) (ts : Int) (past later : List (Event α)) (value : α) : Prop :=
  ∃ inside rest w, later = .started core ts :: (inside ++ .committed core :: rest) ∧
    (∀ time, .started core time ∉ inside) ∧
    Trace (Step me) (nfosMeObjAllocate me) (past ++ .started core ts :: (inside ++ [.committed core])) w ∧
    w.replicas core = value

def CurrentAt (core : Nat) (ts : Int) (later : List (Event α)) : Prop :=
  ∃ inside, later = .started core ts :: inside ∧ ∀ time, .started core time ∉ inside

/-- A read in the transaction `r` returns the merge of all replicas as of a moment
within the staleness. For its own replica the core may have merged what the transaction
of that moment has committed, or the pending update of `r` itself. -/
def Fresh (me : NfosMeObj α) (history : List (Event α)) (core : Nat) (r : Running α) (obj : α) : Prop :=
  ∃ v ts past later u, Moment me history core ts past later u ∧ obj = merged me v ∧
    ts ≤ r.time ∧ (r.time - ts < me.staleness ∨ ts = r.time) ∧
    (∀ i, i ≠ core → v i = u.replicas i) ∧
    (v core = u.replicas core ∨ CommittedBy me core ts past later (v core) ∨
      CurrentAt core ts later ∧ r.log.copy core = some (v core))

/-- What a running transaction of a core has seen. -/
def Inside (me : NfosMeObj α) (history : List (Event α)) (core : Nat) (r : Running α) : Prop :=
  ∃ past later u, Moment me history core r.time past later u ∧ CurrentAt core r.time later ∧
    r.log.snapshot = u.replicas ∧ (∀ i, i ≠ core → r.log.copy i = none) ∧
    ((tally history).pending core = 0 → r.log.copy core = none) ∧ r.time = clock history core

/-- What the cache of a core holds. -/
def Cached (me : NfosMeObj α) (history : List (Event α)) (s : State α) (core : Nat) : Prop :=
  ∃ v past later u, Moment me history core (s.mergedValCaches core).ts past later u ∧
    (s.mergedValCaches core).val = merged me v ∧ (s.mergedValCaches core).ts ≤ clock history core ∧
    (∀ i, i ≠ core → v i = u.replicas i) ∧
    (v core = u.replicas core ∨ CommittedBy me core (s.mergedValCaches core).ts past later (v core) ∨
      CurrentAt core (s.mergedValCaches core).ts later ∧ (tally history).exposed core = true ∧
        ∃ r, s.running core = some r ∧ r.log.copy core = some (v core))

structure Invariant (me : NfosMeObj α) (history : List (Event α)) (s : State α) : Prop where
  run : Trace (Step me) (nfosMeObjAllocate me) history s
  inside : ∀ core r, s.running core = some r → Inside me history core r
  cached : ∀ core, Cached me history s core
  idle : ∀ core, s.running core = none → (tally history).exposed core = false

section Extension
variable {e : Event α} {ts : Int} {value : α}

theorem Moment.extend (moment : Moment me history core ts past later u) :
    Moment me (history ++ [e]) core ts past (later ++ [e]) u := by
  refine ⟨by rw [moment.split, List.append_assoc], moment.run, ?_⟩
  rcases moment.time with start | ⟨rest, split⟩
  · exact .inl start
  · exact .inr ⟨rest ++ [e], by rw [split, List.cons_append]⟩

theorem CommittedBy.extend (committed : CommittedBy me core ts past later value) :
    CommittedBy me core ts past (later ++ [e]) value := by
  obtain ⟨inside, rest, w, split, first, run, same⟩ := committed
  exact ⟨inside, rest ++ [e], w, by simp [split], first, run, same⟩

theorem CurrentAt.extend (current : CurrentAt core ts later) (same : ∀ time, e ≠ .started core time) :
    CurrentAt core ts (later ++ [e]) := by
  obtain ⟨inside, split, first⟩ := current
  refine ⟨inside ++ [e], by simp [split], ?_⟩
  intro time member
  rcases List.mem_append.mp member with old | new
  · exact first time old
  · exact same time (List.mem_singleton.mp new).symm

end Extension

section Steps
variable {e : Event α}

def Event.worker : Event α → Nat
  | .started core _ | .updated core _ | .read core _ _ | .committed core | .aborted core => core

theorem tally_other (other : core ≠ e.worker) :
    (tally (history ++ [e])).pending core = (tally history).pending core ∧
      (tally (history ++ [e])).exposed core = (tally history).exposed core := by
  rw [tally_extend]
  cases e <;> simp_all [Tally.next, Event.worker]

theorem clock_other (other : core ≠ e.worker) : clock (history ++ [e]) core = clock history core := by
  rw [clock_extend]
  cases e with
  | started c time => exact if_neg (Ne.symm other)
  | _ => rfl

theorem clock_same (quiet : ∀ time, e ≠ .started core time) :
    clock (history ++ [e]) core = clock history core := by
  rw [clock_extend]
  cases e with
  | started c time =>
    by_cases same : c = core
    · exact absurd (same ▸ rfl) (quiet time)
    · exact if_neg same
  | _ => rfl

/-- A step of another core. -/
theorem Inside.other {r : Running α} (inside : Inside me history core r) (other : core ≠ e.worker) :
    Inside me (history ++ [e]) core r := by
  obtain ⟨past, later, u, moment, current, snapshot, others, none, time⟩ := inside
  have quiet : ∀ time, e ≠ .started core time := by
    rintro time rfl
    exact other rfl
  refine ⟨past, later ++ [e], u, moment.extend, current.extend quiet, snapshot, others, ?_, ?_⟩
  · rw [(tally_other other).1]
    exact none
  · rw [clock_other other, time]

theorem Cached.other (cached : Cached me history s core) (other : core ≠ e.worker)
    (cache : s'.mergedValCaches core = s.mergedValCaches core) (running : s'.running core = s.running core) :
    Cached me (history ++ [e]) s' core := by
  obtain ⟨v, past, later, u, moment, value, time, others, own⟩ := cached
  have quiet : ∀ time, e ≠ .started core time := by
    rintro time rfl
    exact other rfl
  refine ⟨v, past, later ++ [e], u, ?_, ?_, ?_, others, ?_⟩
  · rw [cache]
    exact moment.extend
  · rw [cache, value]
  · rw [cache, clock_other other]
    exact time
  · rw [cache, running, (tally_other other).2]
    rcases own with kept | committed | ⟨current, exposed⟩
    · exact .inl kept
    · exact .inr (.inl committed.extend)
    · exact .inr (.inr ⟨current.extend quiet, exposed⟩)

/-- The cache is kept by a step of its core that finds no update exposed. -/
theorem Cached.keep (cached : Cached me history s core) (hidden : (tally history).exposed core = false)
    (cache : s'.mergedValCaches core = s.mergedValCaches core)
    (later' : clock history core ≤ clock (history ++ [e]) core) : Cached me (history ++ [e]) s' core := by
  obtain ⟨v, past, later, u, moment, value, time, others, own⟩ := cached
  refine ⟨v, past, later ++ [e], u, ?_, ?_, ?_, others, ?_⟩
  · rw [cache]
    exact moment.extend
  · rw [cache, value]
  · rw [cache]
    exact time.trans later'
  · rw [cache]
    rcases own with kept | committed | ⟨_, exposed, _⟩
    · exact .inl kept
    · exact .inr (.inl committed.extend)
    · rw [hidden] at exposed
      contradiction

/-- The value that a transaction would merge for a replica. -/
theorem Inside.refreshed {r : Running α} (inside : Inside me history core r)
    (running : s'.running core = some r) (cache : s'.mergedValCaches core = ⟨r.time, merged me r.log.view⟩)
    (obj : α) : Cached me (history ++ [.read core true obj]) s' core := by
  obtain ⟨past, later, u, moment, current, snapshot, others, none, time⟩ := inside
  have quiet : ∀ time, Event.read core true obj ≠ .started core time := by simp
  refine ⟨r.log.view, past, later ++ [.read core true obj], u, ?_, ?_, ?_, ?_, ?_⟩
  · rw [cache]
    exact moment.extend
  · rw [cache]
  · rw [cache, clock_same quiet]
    exact le_of_eq time
  · intro i apart
    rw [Log.view, others i apart, snapshot, Option.getD_none]
  · cases copy : r.log.copy core with
    | none =>
      left
      rw [Log.view, copy, snapshot, Option.getD_none]
    | some value =>
      right
      right
      rw [cache]
      refine ⟨current.extend quiet, ?_, r, running, ?_⟩
      · have positive : 0 < (tally history).pending core := by
          refine Nat.pos_of_ne_zero fun zero => ?_
          rw [none zero] at copy
          contradiction
        rw [tally_extend]
        simp [Tally.next, positive]
      · rw [copy, Log.view, copy, Option.getD_some]

theorem invariant_start (me : NfosMeObj α) (unit : me.mergeObj me.initObj me.initObj = me.initObj) :
    Invariant me [] (nfosMeObjAllocate me) := by
  have whole : merged me (fun _ => me.initObj) = me.initObj := by
    unfold merged
    generalize List.range me.numReplicas = l
    induction l with
    | nil => rfl
    | cons i rest ih => rw [List.foldl_cons, unit, ih]
  constructor
  case run => exact .start
  case inside =>
    intro core r inside
    simp [nfosMeObjAllocate] at inside
  case cached =>
    intro core
    exact ⟨fun _ => me.initObj, [], [], nfosMeObjAllocate me, ⟨rfl, .start, .inl ⟨rfl, rfl⟩⟩, whole.symm, le_rfl,
      fun _ _ => rfl, .inl rfl⟩
  case idle =>
    intro core _
    rfl

/-- A step touches the cache and the transaction of its own core only. -/
theorem Step.other (step : Step me s e s') (other : core ≠ e.worker) :
    s'.mergedValCaches core = s.mergedValCaches core ∧ s'.running core = s.running core := by
  cases step <;> exact ⟨by simp_all [Event.worker], by simp_all [Event.worker]⟩

/-- The invariant is about the core that takes the step. -/
theorem Invariant.step (inv : Invariant me history s) (step : Step me s e s')
    (inside : ∀ r, s'.running e.worker = some r → Inside me (history ++ [e]) e.worker r)
    (cached : Cached me (history ++ [e]) s' e.worker)
    (idle : s'.running e.worker = none → (tally (history ++ [e])).exposed e.worker = false) :
    Invariant me (history ++ [e]) s' := by
  constructor
  case run => exact inv.run.extend step
  case inside =>
    intro c r running
    by_cases same : c = e.worker
    · subst same
      exact inside r running
    · rw [(step.other same).2] at running
      exact (inv.inside c r running).other same
  case cached =>
    intro c
    by_cases same : c = e.worker
    · subst same
      exact cached
    · exact (inv.cached c).other same (step.other same).1 (step.other same).2
  case idle =>
    intro c stopped
    by_cases same : c = e.worker
    · subst same
      exact idle stopped
    · rw [(step.other same).2] at stopped
      rw [(tally_other same).2]
      exact inv.idle c stopped

theorem Inside.extend {r : Running α} {log : Log α} (inside : Inside me history core r)
    (quiet : ∀ time, e ≠ .started core time) (snapshot : log.snapshot = r.log.snapshot)
    (others : ∀ i, i ≠ core → log.copy i = r.log.copy i)
    (own : (tally (history ++ [e])).pending core = 0 → (tally history).pending core = 0 ∧
      log.copy core = r.log.copy core) : Inside me (history ++ [e]) core { r with log := log } := by
  obtain ⟨past, later, u, moment, current, same, empty, none, time⟩ := inside
  refine ⟨past, later ++ [e], u, moment.extend, current.extend quiet, snapshot.trans same, ?_, ?_, ?_⟩
  · intro i apart
    rw [others i apart, empty i apart]
  · intro zero
    obtain ⟨zero, kept⟩ := own zero
    rw [kept, none zero]
  · rw [clock_same quiet]
    exact time

theorem step_invariant (inv : Invariant me history s) (step : Step me s e s')
    (ordered : Ordered (history ++ [e])) (clean : Clean (history ++ [e])) :
    Invariant me (history ++ [e]) s' := by
  apply inv.step step
  case inside =>
    intro r' running
    cases step with
    | @start core time worker idle =>
      simp only [Event.worker, update_self, Option.some.injEq] at running
      subst running
      refine ⟨history, [.started core time], s, ⟨rfl, inv.run, .inr ⟨[], rfl⟩⟩, ⟨[], rfl, by simp⟩, rfl,
        fun _ _ => rfl, fun _ => rfl, ?_⟩
      simp [Event.worker, clock_extend]
    | @update core r f grants log inside ran =>
      simp only [Event.worker, update_self, Option.some.injEq] at running
      subst running
      rw [update_spec ran]
      apply (inv.inside core r inside).extend
      · simp
      · rfl
      · intro i apart
        simp [Log.set, Log.lock, update_of_ne apart]
      · simp [tally_extend, Tally.next]
    | @read core r grants cache log inside ran =>
      simp only [Event.worker, update_self, Option.some.injEq] at running
      subst running
      rw [(read_spec ran).1]
      apply (inv.inside core r inside).extend
      · simp
      · rfl
      · simp
      · simp [tally_extend, Tally.next]
    | commit | abort => simp [Event.worker] at running
  case cached =>
    cases step with
    | @start core time worker idle =>
      have now : clock (history ++ [.started core time]) core = time := by simp [clock_extend]
      apply (inv.cached core).keep (inv.idle core idle)
      · rfl
      · rw [now]
        exact ordered history core time [] rfl
    | @update core r f grants log inside ran =>
      apply (inv.cached core).keep (clean history core [] (.inl ⟨f, rfl⟩))
      · rfl
      · exact le_of_eq (clock_same (by simp)).symm
    | @read core r grants cache log inside ran =>
      obtain ⟨rfl, rfl⟩ := read_spec ran
      cases isDue : due me r.time (s.mergedValCaches core) with
      | true =>
        apply (inv.inside core r inside).refreshed
        · simp
        · simp
      | false =>
        obtain ⟨v, past, later, u, moment, value, time, others, own⟩ := inv.cached core
        have quiet : ∀ obj : α, ∀ time, Event.read core false obj ≠ .started core time := by simp
        simp only [Cached, Event.worker, update_self, Bool.false_eq_true, if_false]
        refine ⟨v, past, later ++ [_], u, moment.extend, value, ?_, others, ?_⟩
        · rw [clock_same (quiet _)]
          exact time
        · rcases own with kept | committed | ⟨current, exposed, r', running, copy⟩
          · exact .inl kept
          · exact .inr (.inl committed.extend)
          · right
            right
            rw [inside, Option.some.injEq] at running
            subst running
            refine ⟨current.extend (quiet _), ?_, _, rfl, copy⟩
            simp [tally_extend, Tally.next, exposed]
    | @commit core r inside =>
      obtain ⟨v, past, later, u, moment, value, time, others, own⟩ := inv.cached core
      have quiet : ∀ time, (Event.committed core : Event α) ≠ .started core time := by simp
      refine ⟨v, past, later ++ [.committed core], u, moment.extend, value, ?_, others, ?_⟩
      · exact time.trans (le_of_eq (clock_same quiet).symm)
      · rcases own with kept | committed | ⟨⟨inside', split, first⟩, _, r', running, copy⟩
        · exact .inl kept
        · exact .inr (.inl committed.extend)
        · right
          left
          rw [inside, Option.some.injEq] at running
          subst running
          have run := inv.run.extend (Step.commit inside)
          rw [moment.split, split] at run
          rw [List.append_assoc, List.cons_append] at run
          refine ⟨inside', [], _, by simp [split, Event.worker], first, run, ?_⟩
          simp [copy, Event.worker]
    | @abort core r inside =>
      apply (inv.cached core).keep (clean history core [] (.inr rfl))
      · rfl
      · exact le_of_eq (clock_same (by simp)).symm
  case idle =>
    intro stopped
    cases step with
    | start | update | read => simp [Event.worker] at stopped
    | commit | abort => simp [Event.worker, tally_extend, Tally.next]

/-- In a run in which no refresh of a cache exposes an update that is not committed as
it is, every read is fresh. -/
theorem reads_are_fresh (me : NfosMeObj α) (unit : me.mergeObj me.initObj me.initObj = me.initObj)
    (run : Trace (Step me) (nfosMeObjAllocate me) history s) (ordered : Ordered history) (clean : Clean history)
    {refreshed : Bool} {obj : α} {r : Running α} (inside : s.running core = some r)
    (step : Step me s (.read core refreshed obj) s') : Fresh me history core r obj := by
  have inv : Ordered history → Clean history → Invariant me history s := by
    apply run.rule (P := fun history s => Ordered history → Clean history → Invariant me history s)
    · intro _ _
      exact invariant_start me unit
    · intro past t e u _ before step ordered clean
      exact step_invariant (before ordered.before clean.before) step ordered clean
  obtain inv := inv ordered clean
  generalize event : Event.read core refreshed obj = e at step
  cases step with
  | @read core' r' grants cache log inside' ran =>
    obtain ⟨rfl, rfl, rfl⟩ := Event.read.inj event
    rw [inside, Option.some.injEq] at inside'
    subst inside'
    obtain ⟨_, rfl⟩ := read_spec ran
    cases isDue : due me r.time (s.mergedValCaches core) with
    | true =>
      obtain ⟨past, later, u, moment, current, snapshot, others, _, _⟩ := inv.inside core r inside
      refine ⟨r.log.view, r.time, past, later, u, moment, rfl, le_rfl, .inr rfl, ?_, ?_⟩
      · intro i apart
        rw [Log.view, others i apart, snapshot, Option.getD_none]
      · cases copy : r.log.copy core with
        | none =>
          left
          rw [Log.view, copy, snapshot, Option.getD_none]
        | some value =>
          right
          right
          exact ⟨current, by rw [Log.view, copy, Option.getD_some]⟩
    | false =>
      obtain ⟨v, past, later, u, moment, value, time, others, own⟩ := inv.cached core
      obtain ⟨_, _, _, _, _, _, _, _, now⟩ := inv.inside core r inside
      refine ⟨v, _, past, later, u, moment, value, now ▸ time, ?_, others, ?_⟩
      · simp only [due, ge_iff_le, decide_eq_false_iff_not, not_le] at isDue
        exact .inl isDue
      · rcases own with kept | committed | ⟨current, _, r', running, copy⟩
        · exact .inl kept
        · exact .inr (.inl committed)
        · rw [inside, Option.some.injEq] at running
          subst running
          exact .inr (.inr ⟨current, copy⟩)
  | _ => contradiction

end Steps

section Sample
variable {e f : Event α}

theorem split_concat {rest : List (Event α)} (split : history ++ [e] = past ++ f :: rest) :
    history = past ∧ e = f ∨ ∃ front, history = past ++ f :: front := by
  rcases List.eq_nil_or_concat rest with rfl | ⟨front, last, rfl⟩
  · obtain ⟨same, final⟩ := List.append_inj' split rfl
    exact .inl ⟨same, (List.cons.inj final).1⟩
  · rw [List.concat_eq_append, ← List.cons_append, ← List.append_assoc] at split
    exact .inr ⟨front, (List.append_inj' split rfl).1⟩

theorem Ordered.extend (ordered : Ordered history)
    (later : ∀ core time, e = .started core time → clock history core ≤ time) : Ordered (history ++ [e]) := by
  intro past core time rest split
  rcases split_concat split with ⟨rfl, last⟩ | ⟨front, early⟩
  · exact later core time last
  · exact ordered past core time front early

theorem Clean.extend (clean : Clean history)
    (hidden : ∀ core, (∃ f, e = .updated core f) ∨ e = .aborted core → (tally history).exposed core = false) :
    Clean (history ++ [e]) := by
  intro past core rest split
  rcases split with ⟨f, split⟩ | split
  · rcases split_concat split with ⟨rfl, last⟩ | ⟨front, early⟩
    · exact hidden core (.inl ⟨f, last⟩)
    · exact clean past core front (.inl ⟨f, early⟩)
  · rcases split_concat split with ⟨rfl, last⟩ | ⟨front, early⟩
    · exact hidden core (.inr last)
    · exact clean past core front (.inr early)

/-- Only commits change the replicas. -/
theorem replicas_of_uncommitted (run : Trace (Step me) s history s')
    (uncommitted : ∀ core, .committed core ∉ history) : s'.replicas = s.replicas := by
  induction run with
  | start => rfl
  | extend before last ih =>
    have same := ih fun core member => uncommitted core (List.mem_append_left _ member)
    cases last with
    | commit => exact absurd (List.mem_append_right _ List.mem_cons_self) (uncommitted _)
    | start | update | read | abort => exact same

/-- Core 0 updates and reads the counter in a transaction with some outcome, and starts
another one. -/
def exposingHistory (outcome : Event Nat) : List (Event Nat) :=
  [.started 0 10] ++ [.updated 0 Nat.succ] ++ [.read 0 true 1] ++ [outcome] ++ [.started 0 11]

def exposingState (outcome : Event Nat) : State Nat :=
  ((exposingHistory outcome).foldlM (exec sampleCounter) (nfosMeObjAllocate sampleCounter)).getD
    (nfosMeObjAllocate sampleCounter)

theorem exposingHistory_ordered {outcome : Event Nat} (ended : ∀ core time, outcome ≠ .started core time) :
    Ordered (exposingHistory outcome) := by
  have start : Ordered ([] : List (Event Nat)) := by
    intro past core time rest split
    simp at split
  have now : clock ([.started 0 10] ++ [.updated 0 Nat.succ] ++ [.read 0 true 1] ++ [outcome]) 0 = 10 := by
    rw [clock_same (ended 0)]
    rfl
  unfold exposingHistory
  refine ((((start.extend ?_).extend ?_).extend ?_).extend ?_).extend ?_
  · rintro core time same
    cases same
    decide
  · rintro core time same
    contradiction
  · rintro core time same
    contradiction
  · intro core time same
    exact absurd same (ended core time)
  · rintro core time same
    cases same
    exact now.trans_le (by decide)

theorem exposingHistory_clean : Clean (exposingHistory (.committed 0)) := by
  have start : Clean ([] : List (Event Nat)) := by
    intro past core rest split
    simp at split
  unfold exposingHistory
  refine ((((start.extend ?_).extend ?_).extend ?_).extend ?_).extend ?_
  all_goals
    rintro core same
    simp at same
  subst same
  rfl

/-- The update of a committed transaction stays in the cache. -/
theorem read_after_commit_fresh : ∃ r s',
    Trace (Step sampleCounter) (nfosMeObjAllocate sampleCounter) (exposingHistory (.committed 0))
      (exposingState (.committed 0)) ∧
    Step sampleCounter (exposingState (.committed 0)) (.read 0 false 1) s' ∧
    Fresh sampleCounter (exposingHistory (.committed 0)) 0 r 1 := by
  have run : Trace (Step sampleCounter) (nfosMeObjAllocate sampleCounter) (exposingHistory (.committed 0))
      (exposingState (.committed 0)) := exec_run rfl
  have read : Step sampleCounter (exposingState (.committed 0)) (.read 0 false 1) _ := exec_step rfl
  exact ⟨_, _, run, read, reads_are_fresh sampleCounter rfl run (exposingHistory_ordered (by simp))
    exposingHistory_clean rfl read⟩

/-- So does that of an aborted one: nothing has been committed, and the read returns 1. -/
theorem read_after_abort_not_fresh : ∃ r s',
    Trace (Step sampleCounter) (nfosMeObjAllocate sampleCounter) (exposingHistory (.aborted 0))
      (exposingState (.aborted 0)) ∧ Ordered (exposingHistory (.aborted 0)) ∧
    (exposingState (.aborted 0)).running 0 = some r ∧
    Step sampleCounter (exposingState (.aborted 0)) (.read 0 false 1) s' ∧
    ¬ Fresh sampleCounter (exposingHistory (.aborted 0)) 0 r 1 := by
  have run : Trace (Step sampleCounter) (nfosMeObjAllocate sampleCounter) (exposingHistory (.aborted 0))
      (exposingState (.aborted 0)) := exec_run rfl
  have read : Step sampleCounter (exposingState (.aborted 0)) (.read 0 false 1) _ := exec_step rfl
  have uncommitted : ∀ core, .committed core ∉ exposingHistory (.aborted 0) := by simp [exposingHistory]
  refine ⟨⟨11, .start (exposingState (.aborted 0)).replicas⟩, _, run, exposingHistory_ordered (by simp), rfl, read, ?_⟩
  rintro ⟨v, ts, past, later, u, moment, value, _, _, others, own⟩
  have replicas : u.replicas = fun _ => 0 := by
    apply replicas_of_uncommitted moment.run
    intro core member
    rw [moment.split] at uncommitted
    exact uncommitted core (List.mem_append_left _ member)
  have zero : v 0 = 0 := by
    rcases own with kept | ⟨inside, rest, w, split, _⟩ | ⟨_, copy⟩
    · rw [kept, replicas]
    · rw [moment.split, split] at uncommitted
      exact absurd (by simp) (uncommitted 0)
    · contradiction
  have one : v 1 = 0 := by
    rw [others 1 (by decide), replicas]
  have sum : merged sampleCounter v = 0 + v 0 + v 1 := rfl
  omega

end Sample
end Nfos.MergeableObj
