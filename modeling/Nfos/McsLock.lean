import Nfos.Lib.Run
import Mathlib.Data.List.Nodup
import Mathlib.Logic.Function.Basic

/-! The queue lock `mcslock_t`. Every thread has a queue node of its own, and the accesses to
the nodes and to the lock are the steps that interleave. -/
namespace Nfos.McsLock
open Function Run
variable {T : Type}

/-- The next access of a thread. `returning` is the end of `mcslock_lock`. -/
inductive Pc (T : Type) where
  | outside
  | clearLocked
  | clearNext
  | swap
  | linkPrev (prev : T)
  | spinLocked
  | returning
  | holding
  | testNext
  | cas
  | spinNext
  | loadNext
  | grant (next : T)
  deriving DecidableEq

/-- The lock points to the node at the end of the queue. A node is named by its thread. -/
structure State (T : Type) where
  qnode : Option T
  locked : T → Int
  next : T → Option T
  pc : T → Pc T

def mcslockInit (s : State T) : State T := { s with qnode := none }

section Steps
variable [DecidableEq T]

def State.goto (s : State T) (t : T) (pc : Pc T) : State T := { s with pc := update s.pc t pc }

/-- The next access of a thread that is inside a call. `none` is an access through a null
pointer. -/
def access (s : State T) (t : T) : Option (State T) :=
  match s.pc t with
  | .outside | .holding => none
  | .clearLocked => some ({ s with locked := update s.locked t 0 }.goto t .clearNext)
  | .clearNext => some ({ s with next := update s.next t none }.goto t .swap)
  | .swap => some ({ s with qnode := some t }.goto t (match s.qnode with | none => .returning | some prev => .linkPrev prev))
  | .linkPrev prev => some ({ s with next := update s.next prev (some t) }.goto t .spinLocked)
  | .spinLocked => some (s.goto t (if s.locked t = 0 then .spinLocked else .returning))
  | .returning => some (s.goto t .holding)
  | .testNext => some (s.goto t (if s.next t = none then .cas else .loadNext))
  | .cas => some (if s.qnode = some t then { s with qnode := none }.goto t .outside else s.goto t .spinNext)
  | .spinNext => some (s.goto t (if s.next t = none then .spinNext else .loadNext))
  | .loadNext => (s.next t).map fun next => s.goto t (.grant next)
  | .grant next => some ({ s with locked := update s.locked next 1 }.goto t .outside)

/-- A step of some thread, with its position before the step. The node is a variable of the
caller: whatever is in it when `mcslock_lock` is called. -/
inductive Step : State T → T × Pc T → State T → Prop where
  | lock (s : State T) (t : T) (locked : Int) (next : Option T) : s.pc t = .outside →
      Step s (t, .outside) ({ s with locked := update s.locked t locked, next := update s.next t next }.goto t .clearLocked)
  | unlock (s : State T) (t : T) : s.pc t = .holding → Step s (t, .holding) (s.goto t .testNext)
  | access (s s' : State T) (t : T) : access s t = some s' → Step s (t, s.pc t) s'

end Steps

/-- The threads that have swapped the end of the queue and have not passed the lock on. -/
def Pc.queued : Pc T → Bool
  | .outside | .clearLocked | .clearNext | .swap => false
  | _ => true

/-- The threads that have returned from `mcslock_lock` and have not passed the lock on. -/
def Pc.acquired : Pc T → Bool
  | .holding | .testNext | .cas | .spinNext | .loadNext | .grant _ => true
  | _ => false

section Invariant
variable {s s' : State T} {p t u : T} {q rest : List T}

/-- A thread that waits behind another one. It may not be linked yet. -/
def Waits (s : State T) (p t : T) : Prop :=
  s.locked t = 0 ∧ ((s.pc t = .linkPrev p ∧ s.next p = none) ∨ (s.pc t = .spinLocked ∧ s.next p = some t))

/-- The threads behind `p`. -/
def Waiting (s : State T) : T → List T → Prop
  | p, [] => s.next p = none
  | p, t :: rest => Waits s p t ∧ Waiting s t rest

/-- The thread at the front of the queue. -/
def Front (s : State T) (h : T) (rest : List T) : Prop :=
  match s.pc h with
  | .spinLocked => s.locked h ≠ 0
  | .returning | .holding | .testNext | .cas => True
  | .spinNext => rest ≠ []
  | .loadNext => s.next h ≠ none
  | .grant next => s.next h = some next
  | _ => False

/-- The threads in the order of their swaps. -/
structure Queue (s : State T) (q : List T) : Prop where
  once : q.Nodup
  tail : s.qnode = q.getLast?
  members : ∀ t, t ∈ q ↔ (s.pc t).queued = true
  cleared : ∀ t, s.pc t = .clearNext → s.locked t = 0
  fresh : ∀ t, s.pc t = .swap → s.locked t = 0 ∧ s.next t = none
  front : ∀ h rest, q = h :: rest → Front s h rest ∧ Waiting s h rest

theorem Waiting.congr (waiting : Waiting s p rest) (next : ∀ t, t = p ∨ t ∈ rest → s'.next t = s.next t)
    (others : ∀ t ∈ rest, s'.locked t = s.locked t ∧ s'.pc t = s.pc t) : Waiting s' p rest := by
  induction rest generalizing p with
  | nil => exact (next p (Or.inl rfl)).trans waiting
  | cons t rest ih =>
    obtain ⟨⟨locked, linked⟩, later⟩ := waiting
    obtain ⟨sameLocked, samePc⟩ := others t (List.mem_cons_self ..)
    constructor
    · unfold Waits
      rw [sameLocked, samePc, next p (Or.inl rfl)]
      exact ⟨locked, linked⟩
    · refine ih later ?_ fun u member => others u (List.mem_cons_of_mem _ member)
      rintro u (rfl | member)
      · exact next u (Or.inr (List.mem_cons_self ..))
      · exact next u (Or.inr (List.mem_cons_of_mem _ member))

theorem Waiting.mem (waiting : Waiting s p rest) (member : t ∈ rest) : ∃ prev, Waits s prev t := by
  induction rest generalizing p with
  | nil => contradiction
  | cons u rest ih =>
    rcases List.mem_cons.mp member with rfl | later
    · exact ⟨p, waiting.1⟩
    · exact ih waiting.2 later

/-- A new thread waits behind the last one. -/
theorem Waiting.append (waiting : Waiting s p rest) (last : (p :: rest).getLast? = some u) (off : t ∉ p :: rest)
    (pc : s'.pc t = .linkPrev u) (locked : s'.locked t = 0) (next : s'.next = s.next) (fresh : s.next t = none)
    (others : ∀ v ∈ rest, s'.locked v = s.locked v ∧ s'.pc v = s.pc v) : Waiting s' p (rest ++ [t]) := by
  induction rest generalizing p with
  | nil =>
    obtain rfl : p = u := by simpa using last
    refine ⟨⟨locked, Or.inl ⟨pc, ?_⟩⟩, ?_⟩
    · rw [next]
      exact waiting
    · rw [Waiting, next]
      exact fresh
  | cons v rest ih =>
    obtain ⟨waits, later⟩ := waiting
    obtain ⟨sameLocked, samePc⟩ := others v (List.mem_cons_self ..)
    constructor
    · unfold Waits
      rw [sameLocked, samePc, next]
      exact waits
    · apply ih later
      · rwa [List.getLast?_cons_cons] at last
      · exact fun member => off (List.mem_cons_of_mem _ member)
      · exact fun w member => others w (List.mem_cons_of_mem _ member)

/-- Only the first thread has got through. -/
theorem Queue.first (queue : Queue s q) (member : t ∈ q) (through : ∀ prev, ¬ Waits s prev t) : ∃ rest, q = t :: rest := by
  cases q with
  | nil => contradiction
  | cons h rest =>
    rcases List.mem_cons.mp member with rfl | later
    · exact ⟨rest, rfl⟩
    · obtain ⟨prev, waits⟩ := (queue.front h rest rfl).2.mem later
      exact absurd waits (through prev)

theorem Queue.first_of_acquired (queue : Queue s q) (acquired : (s.pc t).acquired = true) : ∃ rest, q = t :: rest := by
  apply queue.first
  · rw [queue.members]
    cases pc : s.pc t <;> simp_all [Pc.acquired, Pc.queued]
  · rintro prev ⟨_, ⟨here, _⟩ | ⟨here, _⟩⟩
    · rw [here] at acquired
      contradiction
    · rw [here] at acquired
      contradiction

/-- The first thread if it has acquired the lock. -/
def acquirer (s : State T) : List T → List T
  | [] => []
  | h :: _ => if (s.pc h).acquired then [h] else []

/-- What a step adds to the order of the swaps. -/
def swapped [DecidableEq T] (e : T × Pc T) : List T := if e.2 = .swap then [e.1] else []

/-- What a step adds to the order of the acquisitions. -/
def acquires [DecidableEq T] (e : T × Pc T) : List T := if e.2 = .returning then [e.1] else []

variable [DecidableEq T]

@[simp] theorem goto_pc (pc : Pc T) : (s.goto t pc).pc = update s.pc t pc := rfl
@[simp] theorem goto_locked (pc : Pc T) : (s.goto t pc).locked = s.locked := rfl
@[simp] theorem goto_next (pc : Pc T) : (s.goto t pc).next = s.next := rfl
@[simp] theorem goto_qnode (pc : Pc T) : (s.goto t pc).qnode = s.qnode := rfl

/-- A step keeps a queue, and both orders grow by what it adds. `gone` has left the queue. -/
def Advances (e : T × Pc T) (s s' : State T) (q : List T) : Prop :=
  ∃ q' gone, Queue s' q' ∧ gone ++ q' = q ++ swapped e ∧ gone ++ acquirer s' q' = acquirer s q ++ acquires e

/-- The steps of a thread on its own node before it is in the queue. -/
theorem Queue.prepare (queue : Queue s q) (before : (s.pc t).queued = false) (apart : s.pc t ≠ .swap)
    (after : (s'.pc t).queued = false) (tail : s'.qnode = s.qnode)
    (others : ∀ u, u ≠ t → s'.pc u = s.pc u ∧ s'.locked u = s.locked u ∧ s'.next u = s.next u)
    (cleared : s'.pc t = .clearNext → s'.locked t = 0) (fresh : s'.pc t = .swap → s'.locked t = 0 ∧ s'.next t = none) :
    Advances (t, s.pc t) s s' q := by
  have off : t ∉ q := by
    rw [queue.members, before]
    exact Bool.false_ne_true
  have inside {u : T} (member : u ∈ q) : u ≠ t := fun same => off (same ▸ member)
  refine ⟨q, [], ?_, ?_, ?_⟩
  · constructor
    case once => exact queue.once
    case tail => rw [tail, queue.tail]
    case members =>
      intro u
      by_cases same : u = t
      · subst same
        rw [after]
        exact iff_of_false off Bool.false_ne_true
      · rw [(others u same).1, queue.members]
    case cleared =>
      intro u here
      by_cases same : u = t
      · subst same
        exact cleared here
      · rw [(others u same).1] at here
        rw [(others u same).2.1]
        exact queue.cleared u here
    case fresh =>
      intro u here
      by_cases same : u = t
      · subst same
        exact fresh here
      · rw [(others u same).1] at here
        rw [(others u same).2.1, (others u same).2.2]
        exact queue.fresh u here
    case front =>
      rintro h rest rfl
      obtain ⟨front, waiting⟩ := queue.front h rest rfl
      obtain ⟨samePc, sameLocked, sameNext⟩ := others h (inside (List.mem_cons_self ..))
      constructor
      · unfold Front
        rw [samePc, sameLocked, sameNext]
        exact front
      · refine waiting.congr ?_ fun u member => ?_
        · rintro u (rfl | member)
          · exact sameNext
          · exact (others u (inside (List.mem_cons_of_mem _ member))).2.2
        · obtain ⟨samePc, sameLocked, _⟩ := others u (inside (List.mem_cons_of_mem _ member))
          exact ⟨sameLocked, samePc⟩
  · simp [swapped, apart]
  · have quiet : acquires (t, s.pc t) = [] := by
      rw [acquires, if_neg]
      intro here
      simp only at here
      rw [here] at before
      contradiction
    rw [quiet, List.append_nil, List.nil_append]
    cases q with
    | nil => rfl
    | cons h rest => rw [acquirer, acquirer, (others h (inside (List.mem_cons_self ..))).1]

/-- The steps of the first thread that only lead it on. -/
theorem Queue.proceed {pc : Pc T} (queue : Queue s (t :: rest)) (stays : pc.queued = true) (apart : s.pc t ≠ .swap)
    (front : Front (s.goto t pc) t rest) (order : pc.acquired = ((s.pc t).acquired || decide (s.pc t = .returning))) :
    Advances (t, s.pc t) s (s.goto t pc) (t :: rest) := by
  have off : t ∉ rest := (List.nodup_cons.mp queue.once).1
  have here : (s.pc t).queued = true := (queue.members t).mp (List.mem_cons_self ..)
  refine ⟨t :: rest, [], ?_, ?_, ?_⟩
  · constructor
    case once => exact queue.once
    case tail => exact queue.tail
    case members =>
      intro u
      by_cases same : u = t
      · subst same
        simp [stays]
      · rw [queue.members, goto_pc, update_of_ne same]
    case cleared =>
      intro u there
      by_cases same : u = t
      · subst same
        simp only [goto_pc, update_self] at there
        rw [there] at stays
        contradiction
      · rw [goto_pc, update_of_ne same] at there
        exact queue.cleared u there
    case fresh =>
      intro u there
      by_cases same : u = t
      · subst same
        simp only [goto_pc, update_self] at there
        rw [there] at stays
        contradiction
      · rw [goto_pc, update_of_ne same] at there
        exact queue.fresh u there
    case front =>
      rintro h later split
      obtain ⟨rfl, rfl⟩ := List.cons.inj split
      refine ⟨front, (queue.front _ _ rfl).2.congr (fun _ _ => rfl) fun u member => ⟨rfl, ?_⟩⟩
      rw [goto_pc, update_of_ne]
      rintro rfl
      exact off member
  · simp [swapped, apart]
  · simp only [List.nil_append, acquirer, goto_pc, update_self, order, acquires]
    by_cases returning : s.pc t = .returning
    · simp [returning, Pc.acquired]
    · simp [returning]

/-- The first thread, at a position where nobody waits. -/
theorem Queue.proceed_of_mem {pc : Pc T} (queue : Queue s q) (member : t ∈ q) (through : ∀ prev, ¬ Waits s prev t)
    (stays : pc.queued = true) (front : ∀ rest, q = t :: rest → Front s t rest → Waiting s t rest → Front (s.goto t pc) t rest)
    (apart : s.pc t ≠ .swap) (order : pc.acquired = ((s.pc t).acquired || decide (s.pc t = .returning))) :
    Advances (t, s.pc t) s (s.goto t pc) q := by
  obtain ⟨rest, rfl⟩ := queue.first member through
  obtain ⟨before, waiting⟩ := queue.front t rest rfl
  exact queue.proceed stays apart (front rest rfl before waiting) order

/-- The thread `t` stores its node in that of the thread in front of it. -/
theorem Waiting.link (waiting : Waiting s p rest) (once : (p :: rest).Nodup) (member : t ∈ rest) (here : s.pc t = .linkPrev u)
    (next : s'.next = update s.next u (some t)) (locked : s'.locked = s.locked) (pc : s'.pc = update s.pc t .spinLocked) :
    Waiting s' p rest ∧ (u = p ∨ u ∈ rest) ∧ s.next u = none := by
  induction rest generalizing p with
  | nil => contradiction
  | cons v rest ih =>
    obtain ⟨waits, later⟩ := waiting
    obtain ⟨offRest, onceRest⟩ := List.nodup_cons.mp once
    by_cases same : v = t
    · subst same
      obtain ⟨clear, ⟨there, unlinked⟩ | ⟨there, _⟩⟩ := waits
      · obtain rfl : p = u := by
          rw [here] at there
          exact (Pc.linkPrev.inj there).symm
        refine ⟨⟨⟨by rw [locked, clear], Or.inr ⟨by rw [pc, update_self], by rw [next, update_self]⟩⟩, ?_⟩, Or.inl rfl, unlinked⟩
        refine later.congr ?_ fun w inside => ⟨by rw [locked], ?_⟩
        · rintro w inside
          rw [next, update_of_ne]
          rintro rfl
          rcases inside with rfl | inside
          · exact offRest (List.mem_cons_self ..)
          · exact offRest (List.mem_cons_of_mem _ inside)
        · rw [pc, update_of_ne]
          rintro rfl
          exact (List.nodup_cons.mp onceRest).1 inside
      · rw [here] at there
        contradiction
    · have inside : t ∈ rest := (List.mem_cons.mp member).resolve_left (Ne.symm same)
      obtain ⟨linked, target, unlinked⟩ := ih later onceRest inside
      refine ⟨⟨?_, linked⟩, Or.inr (List.mem_cons.mpr target), unlinked⟩
      unfold Waits
      rw [locked, pc, update_of_ne same, next, update_of_ne]
      · exact waits
      · rintro rfl
        exact offRest (List.mem_cons.mpr target)

theorem Queue.enter (queue : Queue s q) (here : s.pc t = .swap) {pc : Pc T}
    (arrives : pc = match s.qnode with | none => .returning | some prev => .linkPrev prev) :
    Advances (t, .swap) s ({ s with qnode := some t }.goto t pc) q := by
  have off : t ∉ q := by
    rw [queue.members, here]
    exact Bool.false_ne_true
  obtain ⟨clear, unlinked⟩ := queue.fresh t here
  have queued : pc.queued = true := by
    subst arrives
    cases s.qnode <;> rfl
  refine ⟨q ++ [t], [], ?_, rfl, ?_⟩
  · constructor
    case once => simpa [List.nodup_append] using ⟨queue.once, fun u member same => off (same ▸ member)⟩
    case tail => simp
    case members =>
      intro u
      by_cases same : u = t
      · subst same
        simp [queued]
      · simp [same, queue.members]
    case cleared =>
      intro u there
      by_cases same : u = t
      · subst same
        simp only [goto_pc, update_self] at there
        rw [there] at queued
        contradiction
      · rw [goto_pc, update_of_ne same] at there
        exact queue.cleared u there
    case fresh =>
      intro u there
      by_cases same : u = t
      · subst same
        simp only [goto_pc, update_self] at there
        rw [there] at queued
        contradiction
      · rw [goto_pc, update_of_ne same] at there
        exact queue.fresh u there
    case front =>
      cases q with
      | nil =>
        rintro h rest split
        obtain ⟨rfl, rfl⟩ := List.cons.inj split
        have free : s.qnode = none := queue.tail
        rw [free] at arrives
        subst arrives
        exact ⟨by simp [Front], unlinked⟩
      | cons first others =>
        rintro h rest split
        obtain ⟨rfl, rfl⟩ := List.cons.inj split
        obtain ⟨front, waiting⟩ := queue.front first others rfl
        have apart {u : T} (member : u ∈ first :: others) : u ≠ t := fun same => off (same ▸ member)
        obtain ⟨last, behind⟩ : ∃ last, (first :: others).getLast? = some last := ⟨_, List.getLast?_eq_some_getLast (by simp)⟩
        rw [queue.tail, behind] at arrives
        subst arrives
        constructor
        · simp only [Front, goto_pc, update_of_ne (apart (List.mem_cons_self ..)), goto_locked, goto_next] at front ⊢
          split <;> simp_all
        · refine waiting.append behind off (by simp) clear rfl unlinked fun u member => ⟨rfl, ?_⟩
          rw [goto_pc, update_of_ne (apart (List.mem_cons_of_mem _ member))]
  · have quiet : acquires (t, (.swap : Pc T)) = [] := rfl
    rw [quiet, List.append_nil, List.nil_append]
    cases q with
    | nil =>
      have free : s.qnode = none := queue.tail
      rw [free] at arrives
      subst arrives
      simp [acquirer, Pc.acquired]
    | cons first others =>
      have apart : first ≠ t := fun same => off (same ▸ List.mem_cons_self ..)
      simp [acquirer, update_of_ne apart]

theorem Queue.link {prev : T} (queue : Queue s q) (here : s.pc t = .linkPrev prev) :
    Advances (t, .linkPrev prev) s ({ s with next := update s.next prev (some t) }.goto t .spinLocked) q := by
  have member : t ∈ q := by
    rw [queue.members, here]
    rfl
  cases q with
  | nil => contradiction
  | cons h rest =>
    obtain ⟨front, waiting⟩ := queue.front h rest rfl
    have behind : h ≠ t := by
      rintro rfl
      simp [Front, here] at front
    have inside : t ∈ rest := (List.mem_cons.mp member).resolve_left (Ne.symm behind)
    obtain ⟨linked, target, unlinked⟩ : Waiting ({ s with next := update s.next prev (some t) }.goto t .spinLocked) h rest ∧
        (prev = h ∨ prev ∈ rest) ∧ s.next prev = none := waiting.link queue.once inside here rfl rfl rfl
    have queued : (s.pc prev).queued = true := (queue.members prev).mp (List.mem_cons.mpr target)
    refine ⟨h :: rest, [], ?_, by simp [swapped], ?_⟩
    · constructor
      case once => exact queue.once
      case tail => exact queue.tail
      case members =>
        intro u
        by_cases same : u = t
        · subst same
          simp [member, Pc.queued]
        · rw [queue.members, goto_pc, update_of_ne same]
      case cleared =>
        intro u there
        by_cases same : u = t
        · subst same
          simp at there
        · rw [goto_pc, update_of_ne same] at there
          exact queue.cleared u there
      case fresh =>
        intro u there
        by_cases same : u = t
        · subst same
          simp at there
        · rw [goto_pc, update_of_ne same] at there
          have other : u ≠ prev := by
            rintro rfl
            rw [show s.pc u = .swap from there] at queued
            contradiction
          obtain ⟨clear, fresh⟩ := queue.fresh u there
          exact ⟨clear, (update_of_ne other _ _).trans fresh⟩
      case front =>
        rintro h' rest' split
        obtain ⟨rfl, rfl⟩ := List.cons.inj split
        refine ⟨?_, linked⟩
        simp only [Front, goto_pc, update_of_ne behind, goto_locked, goto_next] at front ⊢
        by_cases same : h = prev
        · subst same
          rw [update_self]
          split <;> simp_all
        · rwa [update_of_ne same]
    · simp [acquirer, acquires, update_of_ne behind]

/-- The last thread leaves. -/
theorem Queue.leave (queue : Queue s q) (here : s.pc t = .cas) (alone : s.qnode = some t) :
    Advances (t, .cas) s ({ s with qnode := none }.goto t .outside) q := by
  obtain ⟨rest, rfl⟩ := queue.first_of_acquired (t := t) (by rw [here]; rfl)
  have empty : rest = [] := by
    have last := queue.tail
    rw [alone] at last
    cases rest with
    | nil => rfl
    | cons u rest =>
      rw [List.getLast?_cons_cons] at last
      exact absurd (List.mem_of_getLast? last.symm) (List.nodup_cons.mp queue.once).1
  subst empty
  refine ⟨[], [t], ?_, by simp [swapped], ?_⟩
  · constructor
    case once => exact List.nodup_nil
    case tail => rfl
    case members =>
      intro u
      by_cases same : u = t
      · subst same
        simp [Pc.queued]
      · rw [goto_pc, update_of_ne same, ← queue.members]
        simp [same]
    case cleared =>
      intro u there
      have other : u ≠ t := by
        rintro rfl
        simp at there
      rw [goto_pc, update_of_ne other] at there
      exact queue.cleared u there
    case fresh =>
      intro u there
      have other : u ≠ t := by
        rintro rfl
        simp at there
      rw [goto_pc, update_of_ne other] at there
      exact queue.fresh u there
    case front =>
      intro h rest split
      contradiction
  · simp [acquirer, here, Pc.acquired, acquires]

/-- The first thread passes the lock on. -/
theorem Queue.pass {next : T} (queue : Queue s q) (here : s.pc t = .grant next) :
    Advances (t, .grant next) s ({ s with locked := update s.locked next 1 }.goto t .outside) q := by
  obtain ⟨rest, rfl⟩ := queue.first_of_acquired (t := t) (by rw [here]; rfl)
  obtain ⟨front, waiting⟩ := queue.front t rest rfl
  have linked : s.next t = some next := by simpa [Front, here] using front
  cases rest with
  | nil =>
    rw [show s.next t = none from waiting] at linked
    contradiction
  | cons n later =>
    obtain ⟨⟨clear, ⟨_, unlinked⟩ | ⟨spins, behind⟩⟩, waiting⟩ := waiting
    · rw [unlinked] at linked
      contradiction
    · obtain rfl : n = next := Option.some.inj (behind.symm.trans linked)
      obtain ⟨off, once⟩ := List.nodup_cons.mp queue.once
      have apart {u : T} (member : u ∈ n :: later) : u ≠ t := fun same => off (same ▸ member)
      refine ⟨n :: later, [t], ?_, by simp [swapped], ?_⟩
      · constructor
        case once => exact once
        case tail =>
          rw [goto_qnode]
          exact queue.tail.trans List.getLast?_cons_cons
        case members =>
          intro u
          by_cases same : u = t
          · subst same
            simp [Pc.queued, off]
          · rw [goto_pc, update_of_ne same, ← queue.members, List.mem_cons (b := t)]
            simp [same]
        case cleared =>
          intro u there
          have other : u ≠ t := by
            rintro rfl
            simp at there
          rw [goto_pc, update_of_ne other] at there
          have elsewhere : u ≠ n := by
            rintro rfl
            rw [spins] at there
            contradiction
          exact (update_of_ne elsewhere _ _).trans (queue.cleared u there)
        case fresh =>
          intro u there
          have other : u ≠ t := by
            rintro rfl
            simp at there
          rw [goto_pc, update_of_ne other] at there
          have elsewhere : u ≠ n := by
            rintro rfl
            rw [spins] at there
            contradiction
          obtain ⟨clear, fresh⟩ := queue.fresh u there
          exact ⟨(update_of_ne elsewhere _ _).trans clear, fresh⟩
        case front =>
          rintro h rest split
          obtain ⟨rfl, rfl⟩ := List.cons.inj split
          constructor
          · simp [Front, update_of_ne (apart (List.mem_cons_self ..)), spins]
          · refine waiting.congr (fun _ _ => rfl) fun u member => ⟨?_, ?_⟩
            · apply update_of_ne
              rintro rfl
              exact (List.nodup_cons.mp once).1 member
            · rw [goto_pc, update_of_ne (apart (List.mem_cons_of_mem _ member))]
      · simp [acquirer, here, Pc.acquired, acquires, update_of_ne (apart (List.mem_cons_self ..)), spins]

/-- One step, by the position of its thread. -/
theorem Queue.step {e : T × Pc T} (queue : Queue s q) (step : Step s e s') : Advances e s s' q := by
  cases step with
  | lock t locked next here =>
    rw [← here]
    apply queue.prepare
    case before => rw [here]; rfl
    case apart => simp [here]
    case after => simp [Pc.queued]
    case tail => rfl
    case others =>
      intro u other
      simp [other]
    case cleared => simp
    case fresh => simp
  | unlock t here =>
    rw [← here]
    obtain ⟨rest, rfl⟩ := queue.first_of_acquired (t := t) (by rw [here]; rfl)
    exact queue.proceed rfl (by simp [here]) (by simp [Front]) (by simp [here, Pc.acquired])
  | access _ t ran =>
    cases here : s.pc t with
    | outside => simp [access, here] at ran
    | holding => simp [access, here] at ran
    | clearLocked =>
      simp only [access, here, Option.some.injEq] at ran
      subst ran
      rw [← here]
      apply queue.prepare
      case before => rw [here]; rfl
      case apart => simp [here]
      case after => simp [Pc.queued]
      case tail => rfl
      case others =>
        intro u other
        simp [other]
      case cleared => simp
      case fresh => simp
    | clearNext =>
      simp only [access, here, Option.some.injEq] at ran
      subst ran
      have clear := queue.cleared t here
      rw [← here]
      apply queue.prepare
      case before => rw [here]; rfl
      case apart => simp [here]
      case after => simp [Pc.queued]
      case tail => rfl
      case others =>
        intro u other
        simp [other]
      case cleared => simp
      case fresh => simp [clear]
    | swap =>
      simp only [access, here, Option.some.injEq] at ran
      subst ran
      exact queue.enter here rfl
    | linkPrev prev =>
      simp only [access, here, Option.some.injEq] at ran
      subst ran
      exact queue.link here
    | spinLocked =>
      simp only [access, here, Option.some.injEq] at ran
      subst ran
      by_cases waits : s.locked t = 0
      · have same : s.goto t .spinLocked = s := by
          rw [State.goto, ← here, update_eq_self]
        rw [if_pos waits, same]
        exact ⟨q, [], queue, by simp [swapped], by simp [acquires]⟩
      · rw [if_neg waits, ← here]
        apply queue.proceed_of_mem
        case member => simp [queue.members, here, Pc.queued]
        case through => exact fun prev waiting => waits waiting.1
        case stays => rfl
        case front => simp [Front]
        case apart => simp [here]
        case order => simp [here, Pc.acquired]
    | returning =>
      simp only [access, here, Option.some.injEq] at ran
      subst ran
      rw [← here]
      apply queue.proceed_of_mem
      case member => simp [queue.members, here, Pc.queued]
      case through => simp [Waits, here]
      case stays => rfl
      case front => simp [Front]
      case apart => simp [here]
      case order => simp [here, Pc.acquired]
    | testNext =>
      simp only [access, here, Option.some.injEq] at ran
      subst ran
      obtain ⟨rest, rfl⟩ := queue.first_of_acquired (t := t) (by rw [here]; rfl)
      rw [← here]
      by_cases last : s.next t = none
      · rw [if_pos last]
        exact queue.proceed rfl (by simp [here]) (by simp [Front]) (by simp [here, Pc.acquired])
      · rw [if_neg last]
        exact queue.proceed rfl (by simp [here]) (by simpa [Front] using last) (by simp [here, Pc.acquired])
    | cas =>
      simp only [access, here, Option.some.injEq] at ran
      by_cases alone : s.qnode = some t
      · rw [if_pos alone] at ran
        subst ran
        exact queue.leave here alone
      · rw [if_neg alone] at ran
        subst ran
        obtain ⟨rest, rfl⟩ := queue.first_of_acquired (t := t) (by rw [here]; rfl)
        have followed : rest ≠ [] := by
          rintro rfl
          exact alone queue.tail
        rw [← here]
        exact queue.proceed rfl (by simp [here]) (by simpa [Front] using followed) (by simp [here, Pc.acquired])
    | spinNext =>
      simp only [access, here, Option.some.injEq] at ran
      subst ran
      obtain ⟨rest, rfl⟩ := queue.first_of_acquired (t := t) (by rw [here]; rfl)
      obtain ⟨front, _⟩ := queue.front t rest rfl
      have followed : rest ≠ [] := by simpa [Front, here] using front
      by_cases unlinked : s.next t = none
      · have advances : Advances (t, s.pc t) s (s.goto t .spinNext) (t :: rest) :=
          queue.proceed rfl (by simp [here]) (by simpa [Front] using followed) (by simp [here, Pc.acquired])
        rw [if_pos unlinked]
        rwa [here] at advances
      · rw [if_neg unlinked, ← here]
        exact queue.proceed rfl (by simp [here]) (by simpa [Front] using unlinked) (by simp [here, Pc.acquired])
    | loadNext =>
      simp only [access, here, Option.map_eq_some_iff] at ran
      obtain ⟨next, linked, rfl⟩ := ran
      obtain ⟨rest, rfl⟩ := queue.first_of_acquired (t := t) (by rw [here]; rfl)
      rw [← here]
      exact queue.proceed rfl (by simp [here]) (by simpa [Front] using linked) (by simp [here, Pc.acquired])
    | grant next =>
      simp only [access, here, Option.some.injEq] at ran
      subst ran
      exact queue.pass here

omit [DecidableEq T] in
theorem queue_init (outside : ∀ t, s.pc t = .outside) : Queue (mcslockInit s) [] := by
  constructor
  case once => exact List.nodup_nil
  case tail => rfl
  case members =>
    intro t
    rw [show (mcslockInit s).pc t = .outside from outside t]
    exact iff_of_false List.not_mem_nil Bool.false_ne_true
  case cleared =>
    intro t there
    rw [show (mcslockInit s).pc t = .outside from outside t] at there
    contradiction
  case fresh =>
    intro t there
    rw [show (mcslockInit s).pc t = .outside from outside t] at there
    contradiction
  case front =>
    intro h rest split
    contradiction

end Invariant

section Runs
variable [DecidableEq T] {s : State T} {q : List T} {t u : T}

/-- Inside of `mcslock_lock` or `mcslock_unlock`. -/
def Inside (s : State T) (t : T) : Prop := s.pc t ≠ .outside ∧ s.pc t ≠ .holding

/-- In a loop, on a node that does not let it out. -/
def Spinning (s : State T) (t : T) : Prop := (s.pc t = .spinLocked ∧ s.locked t = 0) ∨ (s.pc t = .spinNext ∧ s.next t = none)

omit [DecidableEq T] in
theorem Queue.exclusive (queue : Queue s q) (first : s.pc t = .holding) (second : s.pc u = .holding) : t = u := by
  obtain ⟨rest, split⟩ := queue.first_of_acquired (t := t) (by rw [first]; rfl)
  obtain ⟨rest', split'⟩ := queue.first_of_acquired (t := u) (by rw [second]; rfl)
  exact (List.cons.inj (split.symm.trans split')).1

omit [DecidableEq T] in
/-- The first thread spins only until the one behind it is linked. -/
theorem Queue.not_stuck (queue : Queue s q) (busy : Inside s t) (free : ∀ u, s.pc u ≠ .holding) :
    ∃ u, Inside s u ∧ ¬ Spinning s u := by
  by_cases spinning : Spinning s t
  · have member : t ∈ q := by
      rw [queue.members]
      rcases spinning with ⟨here, _⟩ | ⟨here, _⟩ <;> rw [here] <;> rfl
    cases q with
    | nil => contradiction
    | cons h rest =>
      obtain ⟨front, waiting⟩ := queue.front h rest rfl
      have inside : Inside s h := by
        refine ⟨?_, free h⟩
        intro outside
        simp [Front, outside] at front
      by_cases stuck : Spinning s h
      · rcases stuck with ⟨here, locked⟩ | ⟨here, unlinked⟩
        · simp [Front, here, locked] at front
        · -- The next thread has swapped but not stored its node yet.
          cases rest with
          | nil => simp [Front, here] at front
          | cons n later =>
            obtain ⟨⟨_, ⟨links, _⟩ | ⟨_, linked⟩⟩, _⟩ := waiting
            · refine ⟨n, ⟨by simp [links], free n⟩, ?_⟩
              simp [Spinning, links]
            · rw [unlinked] at linked
              contradiction
      · exact ⟨h, inside, stuck⟩
  · exact ⟨t, busy, spinning⟩

/-- No access is one through a null pointer. -/
theorem Queue.access_isSome (queue : Queue s q) (busy : Inside s t) : (access s t).isSome = true := by
  cases here : s.pc t with
  | outside => exact absurd here busy.1
  | holding => exact absurd here busy.2
  | loadNext =>
    obtain ⟨rest, rfl⟩ := queue.first_of_acquired (t := t) (by rw [here]; rfl)
    obtain ⟨front, _⟩ := queue.front t rest rfl
    have linked : s.next t ≠ none := by simpa [Front, here] using front
    simpa [access, here] using Option.isSome_iff_ne_none.mpr linked
  | clearLocked | clearNext | swap | linkPrev | spinLocked | returning | testNext | cas | spinNext | grant => simp [access, here]

/-- The threads of a history in the order of their swaps. -/
def swaps (history : List (T × Pc T)) : List T := history.flatMap swapped

/-- The threads of a history in the order in which they acquired the lock. -/
def acquisitions (history : List (T × Pc T)) : List T := history.flatMap acquires

/-- The queue at the end of a run, behind the threads that have left it. -/
theorem run_queue {s₀ : State T} {history : List (T × Pc T)} (outside : ∀ t, s₀.pc t = .outside)
    (run : Trace Step (mcslockInit s₀) history s) :
    ∃ q left, Queue s q ∧ swaps history = left ++ q ∧ acquisitions history = left ++ acquirer s q := by
  refine run.rule (P := fun history s => ∃ q left, Queue s q ∧ swaps history = left ++ q ∧
    acquisitions history = left ++ acquirer s q) ?_ ?_
  · exact ⟨[], [], queue_init outside, rfl, rfl⟩
  · rintro past s e s' _ ⟨q, left, queue, order, got⟩ step
    obtain ⟨q', gone, queue', swaps', acquisitions'⟩ := queue.step step
    refine ⟨q', left ++ gone, queue', ?_, ?_⟩
    · rw [swaps, List.flatMap_append, List.flatMap_singleton, ← swaps, order, List.append_assoc, List.append_assoc, swaps']
    · rw [acquisitions, List.flatMap_append, List.flatMap_singleton, ← acquisitions, got, List.append_assoc, List.append_assoc,
        acquisitions']

omit [DecidableEq T] in
theorem acquirer_isPrefix (s : State T) (q : List T) : acquirer s q <+: q := by
  cases q with
  | nil => exact List.prefix_rfl
  | cons h rest =>
    rw [acquirer]
    split
    · exact ⟨rest, rfl⟩
    · exact List.nil_prefix

/-- For any threads and any interleaving: one thread at a time has the lock, the threads acquire
it in the order of their swaps, a free lock is not waited for by spinning threads alone, and no
access fails. -/
theorem mcslock_correct (s₀ : State T) (outside : ∀ t, s₀.pc t = .outside) (history : List (T × Pc T)) (s : State T)
    (run : Trace Step (mcslockInit s₀) history s) :
    (∀ t u, s.pc t = .holding → s.pc u = .holding → t = u) ∧ acquisitions history <+: swaps history ∧
      ((∃ t, Inside s t) → (∀ u, s.pc u ≠ .holding) → ∃ u, Inside s u ∧ ¬ Spinning s u) ∧
      ∀ t, Inside s t → (access s t).isSome = true := by
  obtain ⟨q, left, queue, order, got⟩ := run_queue outside run
  refine ⟨fun t u => queue.exclusive, ?_, ?_, fun t => queue.access_isSome⟩
  · rw [order, got]
    exact (List.prefix_append_right_inj left).mpr (acquirer_isPrefix s q)
  · rintro ⟨t, busy⟩ free
    exact queue.not_stuck busy free

/-- The next step of a thread that calls `mcslock_lock` and `mcslock_unlock` in turn. -/
def turn (s : State Bool) (t : Bool) : Option (State Bool) :=
  match s.pc t with
  | .outside => some ({ s with locked := update s.locked t 5, next := update s.next t (some t) }.goto t .clearLocked)
  | .holding => some (s.goto t .testNext)
  | _ => access s t

/-- The state and the history behind the turns of some threads. -/
def turns (s : State Bool) (history : List (Bool × Pc Bool)) : List Bool → Option (State Bool × List (Bool × Pc Bool))
  | [] => some (s, history)
  | t :: rest => do turns (← turn s t) (history ++ [(t, s.pc t)]) rest

theorem step_of_turn {s s' : State Bool} {t : Bool} (ran : turn s t = some s') : Step s (t, s.pc t) s' := by
  unfold turn at ran
  split at ran
  · rename_i here
    obtain rfl := Option.some.inj ran
    rw [here]
    exact .lock s t 5 (some t) here
  · rename_i here
    obtain rfl := Option.some.inj ran
    rw [here]
    exact .unlock s t here
  · exact .access s s' t ran

theorem trace_of_turns {s₀ s s' : State Bool} {ts : List Bool} {history later : List (Bool × Pc Bool)} (run : Trace Step s₀ history s)
    (ran : turns s history ts = some (s', later)) : Trace Step s₀ later s' := by
  induction ts generalizing s history with
  | nil =>
    obtain ⟨rfl, rfl⟩ := Prod.mk.inj (Option.some.inj ran)
    exact run
  | cons t rest ih =>
    obtain ⟨u, took, ran⟩ := Option.bind_eq_some_iff.mp ran
    exact ih (.extend run (step_of_turn took)) ran

def twoThreads : State Bool := ⟨none, fun _ => 0, fun _ => none, fun _ => .outside⟩

/-- `true` gets the lock and `false` queues behind it. The compare-and-swap of `true` fails, since `false` has
swapped but not linked its node; then `true` waits for the link and passes the lock on. -/
def handOver : List Bool :=
  [true, true, true, true, true, false, false, false, false, true, true, true, true, false, false, true, true, true]

/-- At the end of the hand-over, and when `false` has the lock. -/
theorem mcslock_correct_two_threads : ∃ s history s' later, (∀ t, twoThreads.pc t = .outside) ∧
    Trace Step (mcslockInit twoThreads) history s ∧ Trace Step (mcslockInit twoThreads) later s' ∧
    history.filter (·.1) = [(true, .outside), (true, .clearLocked), (true, .clearNext), (true, .swap), (true, .returning), (true, .holding),
      (true, .testNext), (true, .cas), (true, .spinNext), (true, .spinNext), (true, .loadNext), (true, .grant false)] ∧
    swaps history = [true, false] ∧ acquisitions history = [true] ∧ acquisitions history <+: swaps history ∧
    (∃ u, Inside s u ∧ ¬ Spinning s u) ∧ (access s false).isSome = true ∧
    acquisitions later = [true, false] ∧ acquisitions later <+: swaps later ∧ s'.pc false = .holding ∧
    ∀ t u, s'.pc t = .holding → s'.pc u = .holding → t = u := by
  have outside : ∀ t, twoThreads.pc t = .outside := fun _ => rfl
  have ran : (turns (mcslockInit twoThreads) [] handOver).map (fun z => (z.2, z.1.pc true, z.1.pc false)) = some
      ([(true, .outside), (true, .clearLocked), (true, .clearNext), (true, .swap), (true, .returning), (false, .outside),
        (false, .clearLocked), (false, .clearNext), (false, .swap), (true, .holding), (true, .testNext), (true, .cas), (true, .spinNext),
        (false, .linkPrev true), (false, .spinLocked), (true, .spinNext), (true, .loadNext), (true, .grant false)],
        .outside, .spinLocked) := by decide
  have ran' : (turns (mcslockInit twoThreads) [] (handOver ++ [false, false])).map (fun z => (acquisitions z.2, z.1.pc false)) = some
      ([true, false], .holding) := by decide
  obtain ⟨⟨s, history⟩, ended, same⟩ := Option.map_eq_some_iff.mp ran
  obtain ⟨⟨s', later⟩, ended', same'⟩ := Option.map_eq_some_iff.mp ran'
  obtain ⟨rfl, left, waits⟩ : history = _ ∧ s.pc true = _ ∧ s.pc false = _ := by simpa using same
  obtain ⟨acquired, holds⟩ : acquisitions later = _ ∧ s'.pc false = _ := by simpa using same'
  have run := trace_of_turns .start ended
  have run' := trace_of_turns .start ended'
  obtain ⟨_, fifo, moves, present⟩ := mcslock_correct _ outside _ _ run
  obtain ⟨exclusive, fifo', _⟩ := mcslock_correct _ outside _ _ run'
  have inside : Inside s false := by
    rw [Inside, waits]
    decide
  have free : ∀ u, s.pc u ≠ .holding := by
    intro u
    cases u with
    | true =>
      rw [left]
      decide
    | false =>
      rw [waits]
      decide
  exact ⟨s, _, s', later, outside, run, run', by decide, by decide, by decide, fifo, moves ⟨false, inside⟩ free, present false inside,
    acquired, fifo', holds, exclusive⟩

end Runs
end Nfos.McsLock
