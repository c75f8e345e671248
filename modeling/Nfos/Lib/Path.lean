import Mathlib.Logic.Function.Basic
import Mathlib.Data.List.Nodup

/-! Singly linked paths through a successor function. A path names the nodes
visited between its two ends; nothing is assumed about nodes off the path. -/
namespace Linked
variable {α : Type} {f g : α → α} {a b c x : α} {l m : List α}

/-- Following `f` from `a` visits exactly the nodes of `l` and then arrives at `b`. -/
def Path (f : α → α) : α → List α → α → Prop
  | a, [], b => f a = b
  | a, x :: l, b => f a = x ∧ Path f x l b

@[simp] theorem path_nil : Path f a [] b ↔ f a = b := Iff.rfl

@[simp] theorem path_cons : Path f a (x :: l) b ↔ f a = x ∧ Path f x l b := Iff.rfl

theorem path_append : Path f a (l ++ x :: m) b ↔ Path f a l x ∧ Path f x m b := by
  induction l generalizing a with
  | nil => simp
  | cons y l ih => simp [ih, and_assoc]

theorem Path.congr (same : ∀ y ∈ a :: l, g y = f y) (path : Path f a l b) : Path g a l b := by
  induction l generalizing a with
  | nil => simpa [same a (by simp)] using path
  | cons y l ih =>
    obtain ⟨first, rest⟩ := path
    refine ⟨by rw [same a (by simp), first], ih (fun z member => same z ?_) rest⟩
    exact List.mem_cons_of_mem _ member

/-- The last node of a path before its far end. -/
def lastNode (a : α) : List α → α
  | [] => a
  | x :: l => lastNode x l

@[simp] theorem lastNode_nil : lastNode a [] = a := rfl

@[simp] theorem lastNode_cons : lastNode a (x :: l) = lastNode x l := rfl

@[simp] theorem lastNode_append : lastNode a (l ++ x :: m) = lastNode x m := by
  induction l generalizing a with
  | nil => rfl
  | cons y l ih => exact ih

theorem lastNode_mem (a : α) (l : List α) : lastNode a l ∈ a :: l := by
  induction l generalizing a with
  | nil => simp
  | cons y l ih => exact List.mem_cons_of_mem _ (ih y)

theorem Path.last (path : Path f a l b) : f (lastNode a l) = b := by
  induction l generalizing a with
  | nil => exact path
  | cons y l ih => exact ih path.2

/-- The end is the only node of a path that may repeat an earlier one, so the
nodes visited are determined by the two ends. -/
theorem Path.unique (first : Path f a l b) (second : Path f a m b)
    (offFirst : b ∉ l) (offSecond : b ∉ m) : l = m := by
  induction l generalizing a m with
  | nil =>
    cases m with
    | nil => rfl
    | cons y m =>
      have same : y = b := second.1.symm.trans first
      simp [same] at offSecond
  | cons z l ih =>
    cases m with
    | nil =>
      have same : z = b := first.1.symm.trans second
      simp [same] at offFirst
    | cons y m =>
      obtain rfl : z = y := first.1.symm.trans second.1
      simp only [List.mem_cons, not_or] at offFirst offSecond
      rw [ih first.2 second.2 offFirst.2 offSecond.2]

section Update
variable [DecidableEq α]

theorem Path.update_off (off : x ∉ a :: l) (path : Path f a l b) (v : α) :
    Path (Function.update f x v) a l b := by
  refine path.congr (fun y member => Function.update_of_ne ?_ _ _)
  rintro rfl
  exact off member

/-- Redirecting the last link of a path moves its far end. -/
theorem Path.retarget (distinct : (a :: l).Nodup) (path : Path f a l b) (c : α) :
    Path (Function.update f (lastNode a l) c) a l c := by
  induction l generalizing a with
  | nil => simp
  | cons y l ih =>
    obtain ⟨offRest, distinctRest⟩ := List.nodup_cons.mp distinct
    have keep : a ≠ lastNode y l := by
      intro same
      exact offRest (same ▸ lastNode_mem y l)
    exact ⟨by rw [lastNode_cons, Function.update_of_ne keep]; exact path.1,
      ih distinctRest path.2⟩

/-- Unlinking a node needs one write, at its predecessor. -/
theorem Path.remove (distinct : (a :: (l ++ x :: m)).Nodup) (path : Path f a (l ++ x :: m) b) :
    Path (Function.update f (lastNode a l) (f x)) a (l ++ m) b := by
  obtain ⟨front, back⟩ := path_append.mp path
  rw [← List.cons_append, List.nodup_append] at distinct
  obtain ⟨distinctFront, _, apart⟩ := distinct
  have moved := front.retarget distinctFront (f x)
  cases m with
  | nil =>
    have target : f x = b := back
    simpa only [List.append_nil, target] using moved
  | cons y m =>
    obtain ⟨link, rest⟩ := back
    rw [link] at moved ⊢
    refine path_append.mpr ⟨moved, rest.update_off ?_ _⟩
    intro member
    exact apart _ (lastNode_mem a l) _ (List.mem_cons_of_mem _ member) rfl

/-- Linking a fresh node after a prefix needs two writes. -/
theorem Path.insert (distinct : (a :: (l ++ m)).Nodup) (fresh : x ∉ a :: (l ++ m))
    (path : Path f a (l ++ m) b) :
    Path (Function.update (Function.update f x (f (lastNode a l))) (lastNode a l) x)
      a (l ++ x :: m) b := by
  rw [← List.cons_append, List.mem_append, not_or] at fresh
  rw [← List.cons_append, List.nodup_append] at distinct
  obtain ⟨offFront, offBack⟩ := fresh
  obtain ⟨distinctFront, _, apart⟩ := distinct
  have apartLast : x ≠ lastNode a l := by
    rintro rfl
    exact offFront (lastNode_mem a l)
  cases m with
  | nil =>
    have front : Path f a l b := by simpa only [List.append_nil] using path
    refine path_append.mpr ⟨(front.update_off offFront _).retarget distinctFront x, ?_⟩
    rw [path_nil, Function.update_of_ne apartLast, Function.update_self, front.last]
  | cons y m =>
    obtain ⟨front, back⟩ := path_append.mp path
    refine path_append.mpr ⟨(front.update_off offFront _).retarget distinctFront x, ?_, ?_⟩
    · rw [Function.update_of_ne apartLast, Function.update_self, front.last]
    · have offLast : lastNode a l ∉ y :: m :=
        fun member => apart _ (lastNode_mem a l) _ member rfl
      exact (back.update_off offBack _).update_off offLast _

end Update
end Linked
