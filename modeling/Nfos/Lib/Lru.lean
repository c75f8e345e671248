import Nfos.Lib.Run
import Mathlib.Data.List.Sort
import Mathlib.Logic.Function.Basic
import Mathlib.Order.Defs.LinearOrder
import Mathlib.Algebra.Order.Group.Unbundled.Int

/-! Queues of items ordered by their last use. Every owner has a queue of the
items it holds and a pool of free items; one more pool is shared. An item leaves
its queue when its time has passed. -/
namespace Lru
open Function Run
variable {C α : Type}

/-- Every item is on at most one queue, once, and then not free. -/
structure State (C α : Type) where
  queue : C → List α
  pool : Option C → List α
  time : α → Int
  nodup : ∀ c, (queue c).Nodup
  apart : ∀ {c d x}, x ∈ queue c → x ∈ queue d → c = d
  pooled : ∀ {w c x}, x ∈ pool w → x ∉ queue c

/-- Operations with their results. -/
inductive Event (C α : Type) where
  | allocated (owner : C) (item : α) (now : Int)
  | exhausted
  | rejuvenated (item : α) (now : Int)
  | refused (item : α)
  | expired (owner : C) (item : α) (now : Int)
  | current (owner : C) (now : Int)

/-- The time argument of the operations that stamp an item. -/
def Event.stamp : Event C α → Option Int
  | allocated _ _ now => some now
  | rejuvenated _ now => some now
  | _ => none

/-- Every queued item carries the stamp of some operation of the history. -/
def Stamped (validity : Int) (history : List (Event C α)) (s : State C α) : Prop :=
  ∀ c, ∀ x ∈ s.queue c, ∃ now ∈ history.filterMap Event.stamp, s.time x = now + validity

theorem Stamped.mono {validity : Int} {history : List (Event C α)} {s : State C α}
    (stamped : Stamped validity history s) (more : List (Event C α)) :
    Stamped validity (history ++ more) s := by
  intro c x member
  obtain ⟨now, recorded, same⟩ := stamped c x member
  refine ⟨now, ?_, same⟩
  rw [List.filterMap_append]
  exact List.mem_append_left _ recorded

/-- In a sorted list the items whose times have passed come first. -/
theorem takeWhile_of_sorted {time : α → Int} {l : List α} (sorted : l.Pairwise fun x y => time x ≤ time y) (now : Int) :
    l.takeWhile (fun x => decide (time x < now)) = l.filter (fun x => decide (time x < now)) ∧
    l.dropWhile (fun x => decide (time x < now)) = l.filter (fun x => decide (now ≤ time x)) := by
  induction l with
  | nil => exact ⟨rfl, rfl⟩
  | cons x l ih =>
    obtain ⟨first, rest⟩ := List.pairwise_cons.mp sorted
    obtain ⟨taken, dropped⟩ := ih rest
    by_cases passed : time x < now
    · simp only [List.takeWhile_cons, List.dropWhile_cons, List.filter_cons, passed, decide_true, if_true, taken, dropped,
        not_le.mpr passed, decide_false, Bool.false_eq_true, if_false]
      exact ⟨trivial, trivial⟩
    · have valid : ∀ y ∈ l, now ≤ time y := fun y member => (not_lt.mp passed).trans (first y member)
      have none : l.filter (fun y => decide (time y < now)) = [] := by
        apply List.filter_eq_nil_iff.mpr
        intro y member
        simpa using valid y member
      have all : l.filter (fun y => decide (now ≤ time y)) = l := by
        apply List.filter_eq_self.mpr
        intro y member
        exact decide_eq_true (valid y member)
      simp only [List.takeWhile_cons, List.dropWhile_cons, List.filter_cons, passed, decide_false, Bool.false_eq_true, if_false,
        not_lt.mp passed, decide_true, if_true, none, all]
      exact ⟨trivial, trivial⟩

variable [DecidableEq C] [DecidableEq α]

/-- An item stamped at `now` is valid until `now + validity`; free items have
the time `never`. Free items may move between pools during an allocation. -/
def Step (validity never : Int) (s : State C α) (e : Event C α) (s' : State C α) : Prop :=
  match e with
  | .allocated c x now => (∃ w, x ∈ s.pool w) ∧ s'.queue = update s.queue c (s.queue c ++ [x]) ∧
      (∀ y, (∃ w, y ∈ s'.pool w) ↔ (∃ w, y ∈ s.pool w) ∧ y ≠ x) ∧
      s'.time = update s.time x (now + validity)
  | .exhausted => (∀ w, s.pool w = []) ∧ s' = s
  | .rejuvenated x now => ∃ c l m, s.queue c = l ++ x :: m ∧
      s'.queue = update s.queue c (l ++ m ++ [x]) ∧ s'.pool = s.pool ∧
      s'.time = update s.time x (now + validity)
  | .refused x => (∀ c, x ∉ s.queue c) ∧ s' = s
  | .expired c x now => ∃ l, s.queue c = x :: l ∧ s.time x < now ∧ s'.queue = update s.queue c l ∧
      s'.pool = update s.pool (some c) (x :: s.pool (some c)) ∧ s'.time = update s.time x never
  | .current c now => (∀ x l, s.queue c = x :: l → now ≤ s.time x) ∧ s' = s

def State.Sorted (s : State C α) : Prop :=
  ∀ c, (s.queue c).Pairwise fun x y => s.time x ≤ s.time y

variable {validity never : Int} {s s' t : State C α} {e : Event C α}

/-- A list without the stamped item keeps its order. -/
theorem pairwise_stamp {time : α → Int} {l : List α} {x : α} (sorted : l.Pairwise fun y z => time y ≤ time z)
    (absent : x ∉ l) (v : Int) : l.Pairwise fun y z => update time x v y ≤ update time x v z := by
  refine sorted.imp_of_mem fun {y z} first second below => ?_
  rwa [update_of_ne (ne_of_mem_of_not_mem first absent), update_of_ne (ne_of_mem_of_not_mem second absent)]

/-- A list stays in order when the item stamped last is put behind all others. -/
theorem pairwise_stamp_last {time : α → Int} {l : List α} {x : α} {v : Int}
    (sorted : l.Pairwise fun y z => time y ≤ time z) (absent : x ∉ l) (latest : ∀ y ∈ l, time y ≤ v) :
    (l ++ [x]).Pairwise fun y z => update time x v y ≤ update time x v z := by
  refine List.pairwise_append.mpr ⟨pairwise_stamp sorted absent v, List.pairwise_singleton _ _, ?_⟩
  intro y member z single
  rw [List.mem_singleton.mp single, update_self, update_of_ne (ne_of_mem_of_not_mem member absent)]
  exact latest y member

/-- Items of the new queues carry their old time or the stamp of this step. -/
theorem Step.time_eq (step : Step validity never s e s') (c : C) (x : α) (member : x ∈ s'.queue c) :
    (x ∈ s.queue c ∧ s'.time x = s.time x) ∨ ∃ now, e.stamp = some now ∧ s'.time x = now + validity := by
  cases e with
  | exhausted | refused y | current d now =>
    rw [step.2] at member ⊢
    exact Or.inl ⟨member, rfl⟩
  | allocated d y now =>
    obtain ⟨_, queue, _, time⟩ := step
    rw [time]
    by_cases same : x = y
    · exact Or.inr ⟨now, rfl, by rw [same, update_self]⟩
    · refine Or.inl ⟨?_, update_of_ne same _ _⟩
      rw [queue] at member
      by_cases owner : c = d
      · subst owner
        simpa [same] using member
      · rwa [update_of_ne owner] at member
  | rejuvenated y now =>
    obtain ⟨d, l, m, split, queue, _, time⟩ := step
    rw [time]
    by_cases same : x = y
    · exact Or.inr ⟨now, rfl, by rw [same, update_self]⟩
    · refine Or.inl ⟨?_, update_of_ne same _ _⟩
      rw [queue] at member
      by_cases owner : c = d
      · subst owner
        simpa [split, same] using member
      · rwa [update_of_ne owner] at member
  | expired d y now =>
    obtain ⟨l, split, _, queue, _, time⟩ := step
    rw [queue] at member
    have kept : x ∈ s.queue c ∧ x ≠ y := by
      by_cases owner : c = d
      · subst owner
        rw [update_self] at member
        have distinct := s.nodup c
        rw [split, List.nodup_cons] at distinct
        exact ⟨by simp [split, member], fun same => distinct.1 (same ▸ member)⟩
      · rw [update_of_ne owner] at member
        refine ⟨member, fun same => owner (s.apart member ?_)⟩
        simp [split, same]
    exact Or.inl ⟨kept.1, by rw [time, update_of_ne kept.2]⟩

theorem Step.stamped {history : List (Event C α)} (step : Step validity never s e s')
    (stamped : Stamped validity history s) : Stamped validity (history ++ [e]) s' := by
  intro c x member
  rcases step.time_eq c x member with ⟨old, same⟩ | ⟨now, stamp, same⟩
  · obtain ⟨now, recorded, before⟩ := stamped.mono [e] c x old
    exact ⟨now, recorded, same.trans before⟩
  · refine ⟨now, ?_, same⟩
    simp [stamp]

theorem Step.sorted (step : Step validity never s e s') (sorted : s.Sorted)
    (latest : ∀ now, e.stamp = some now → ∀ c, ∀ x ∈ s.queue c, s.time x ≤ now + validity) :
    s'.Sorted := by
  cases e with
  | exhausted | refused y | current d now =>
    rw [step.2]
    exact sorted
  | allocated d y now =>
    obtain ⟨⟨w, free⟩, queue, _, time⟩ := step
    intro c
    rw [queue, time]
    by_cases owner : c = d
    · subst owner
      rw [update_self]
      exact pairwise_stamp_last (sorted c) (s.pooled free) (latest now rfl c)
    · rw [update_of_ne owner]
      exact pairwise_stamp (sorted c) (s.pooled free) _
  | rejuvenated y now =>
    obtain ⟨d, l, m, split, queue, _, time⟩ := step
    intro c
    rw [queue, time]
    by_cases owner : c = d
    · subst owner
      have whole := s.nodup c
      have order := sorted c
      have bound := latest now rfl c
      rw [split] at whole order bound
      rw [List.nodup_middle, List.nodup_cons] at whole
      rw [update_self]
      refine pairwise_stamp_last (order.sublist (by simp)) whole.1 fun z member => bound z ?_
      simpa using (List.mem_append.mp member).imp_right Or.inr
    · rw [update_of_ne owner]
      refine pairwise_stamp (sorted c) (fun member => owner (s.apart member ?_)) _
      simp [split]
  | expired d y now =>
    obtain ⟨l, split, _, queue, _, time⟩ := step
    intro c
    rw [queue, time]
    by_cases owner : c = d
    · subst owner
      have distinct := s.nodup c
      have order := sorted c
      rw [split] at distinct order
      rw [update_self]
      exact pairwise_stamp (List.pairwise_cons.mp order).2 (List.nodup_cons.mp distinct).1 _
    · rw [update_of_ne owner]
      refine pairwise_stamp (sorted c) (fun member => owner (s.apart member ?_)) _
      simp [split]

/-- If the stamping operations come in the order of their times, so do the items
of every queue. -/
theorem sorted_of_stamps {history : List (Event C α)} (run : Trace (Step validity never) s history t)
    (empty : ∀ c, s.queue c = []) (order : (history.filterMap Event.stamp).Pairwise (· ≤ ·)) :
    t.Sorted := by
  have both : Stamped validity history t ∧
      ((history.filterMap Event.stamp).Pairwise (· ≤ ·) → t.Sorted) := by
    refine run.rule (P := fun history t => Stamped validity history t ∧
      ((history.filterMap Event.stamp).Pairwise (· ≤ ·) → t.Sorted)) ?_ ?_
    · refine ⟨fun c x member => ?_, fun _ c => ?_⟩
      · simp [empty c] at member
      · simp [empty c]
    · intro past t e u _ before step
      obtain ⟨stamped, sorted⟩ := before
      refine ⟨step.stamped stamped, fun order => ?_⟩
      rw [List.filterMap_append, List.pairwise_append] at order
      refine step.sorted (sorted order.1) fun now stamp c x member => ?_
      obtain ⟨early, recorded, same⟩ := stamped c x member
      have := order.2.2 early recorded now (by simp [stamp])
      omega
  exact both.2 order

end Lru
