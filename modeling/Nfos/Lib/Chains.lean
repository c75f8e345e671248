import Nfos.Lib.Path

/-! Families of disjoint linked lists threaded through one successor function.
Each list has its own head node and its own stop node; a circular list stops
at its head. Every relinking step is a removal or an insertion of one node. -/
namespace Linked
variable {α W : Type} {next after : α → α} {head stop : W → α} {L : W → List α}
  {w v : W} {x y : α} {l m : List α}

structure Chains (next : α → α) (head stop : W → α) (L : W → List α) : Prop where
  path : ∀ w, Path next (head w) (L w) (stop w)
  nodup : ∀ w, (L w).Nodup
  apart : ∀ {w v x}, x ∈ L w → x ∈ L v → w = v
  heads : Function.Injective head
  headOff : ∀ w v, head w ∉ L v
  stopOff : ∀ w v, stop w ∉ L v

/-- A node that is neither a head, nor a stop, nor on any list of the family. -/
structure Spare (head stop : W → α) (L : W → List α) (x : α) : Prop where
  head : ∀ w, x ≠ head w
  stop : ∀ w, x ≠ stop w
  off : ∀ w, x ∉ L w

namespace Chains

theorem distinct (chains : Chains next head stop L) (w : W) : (head w :: L w).Nodup :=
  List.nodup_cons.mpr ⟨chains.headOff w w, chains.nodup w⟩

theorem first (chains : Chains next head stop L) (split : L w = x :: l) : next (head w) = x := by
  have path := chains.path w
  rw [split] at path
  exact path.1

theorem nil_iff (chains : Chains next head stop L) : L w = [] ↔ next (head w) = stop w := by
  constructor
  · intro empty
    have path := chains.path w
    rwa [empty] at path
  · intro back
    cases split : L w with
    | nil => rfl
    | cons x l =>
      have member : stop w ∈ L w := by
        rw [← back, chains.first split, split]
        exact List.mem_cons_self
      exact absurd member (chains.stopOff w w)

theorem last (chains : Chains next head stop L) (w : W) :
    next (lastNode (head w) (L w)) = stop w := (chains.path w).last

/-- Lists of a family are read back from the successor function alone. -/
theorem unique {M : W → List α} (chains : Chains next head stop L)
    (others : Chains next head stop M) : L = M := by
  funext w
  exact (chains.path w).unique (others.path w) (chains.stopOff w w) (others.stopOff w w)

theorem frame (same : ∀ w, ∀ y ∈ head w :: L w, after y = next y)
    (chains : Chains next head stop L) : Chains after head stop L where
  path w := (chains.path w).congr (same w)
  nodup := chains.nodup
  apart := chains.apart
  heads := chains.heads
  headOff := chains.headOff
  stopOff := chains.stopOff

theorem head_ne_lastNode (chains : Chains next head stop L) (other : v ≠ w)
    (within : ∀ y ∈ l, y ∈ L w) : lastNode (head w) l ∉ head v :: L v := by
  have position := lastNode_mem (head w) l
  intro member
  rcases List.mem_cons.mp member with atHead | onList
  · rcases List.mem_cons.mp position with atOwn | onOwn
    · exact other (chains.heads (atHead.symm.trans atOwn))
    · exact chains.headOff v w (atHead ▸ within _ onOwn)
  · rcases List.mem_cons.mp position with atOwn | onOwn
    · exact chains.headOff w v (atOwn ▸ onList)
    · exact other (chains.apart onList (within _ onOwn))

section Members
variable [DecidableEq W]

/-- Membership after a node is cut out of one of the lists. -/
theorem mem_cut (chains : Chains next head stop L) (split : L w = l ++ x :: m) :
    y ∈ Function.update L w (l ++ m) v ↔ y ∈ L v ∧ y ≠ x := by
  by_cases same : v = w
  · subst same
    have distinct := chains.nodup v
    rw [split, List.nodup_middle, List.nodup_cons] at distinct
    rw [Function.update_self, split]
    simp only [List.mem_append, List.mem_cons]
    constructor
    · intro member
      refine ⟨by tauto, ?_⟩
      rintro rfl
      exact distinct.1 (List.mem_append.mpr member)
    · tauto
  · rw [Function.update_of_ne same, iff_self_and]
    rintro member rfl
    exact same (chains.apart member (by simp [split]))

theorem mem_pop (chains : Chains next head stop L) (split : L w = x :: l) :
    y ∈ Function.update L w l v ↔ y ∈ L v ∧ y ≠ x := chains.mem_cut (l := []) split

/-- Membership after a node is put into one of the lists. -/
theorem mem_put (split : L w = l ++ m) :
    y ∈ Function.update L w (l ++ x :: m) v ↔ y ∈ L v ∨ (y = x ∧ v = w) := by
  by_cases same : v = w
  · subst same
    rw [Function.update_self, split]
    simp only [List.mem_append, List.mem_cons]
    tauto
  · simp [same]

theorem mem_push : y ∈ Function.update L w (x :: L w) v ↔ y ∈ L v ∨ (y = x ∧ v = w) :=
  mem_put (l := []) rfl

theorem mem_append : y ∈ Function.update L w (L w ++ [x]) v ↔ y ∈ L v ∨ (y = x ∧ v = w) :=
  mem_put (m := []) (List.append_nil _).symm

end Members

section Update
variable [DecidableEq α]

theorem update_off (off : ∀ w, y ≠ head w ∧ y ∉ L w) (chains : Chains next head stop L) (z : α) :
    Chains (Function.update next y z) head stop L := by
  refine chains.frame (fun w u member => Function.update_of_ne ?_ _ _)
  rintro rfl
  rcases List.mem_cons.mp member with atHead | onList
  · exact (off w).1 atHead
  · exact (off w).2 onList

variable [DecidableEq W]

theorem remove (chains : Chains next head stop L) (split : L w = l ++ x :: m) :
    Chains (Function.update next (lastNode (head w) l) (next x)) head stop
      (Function.update L w (l ++ m)) := by
  have subset : ∀ v, ∀ y ∈ Function.update L w (l ++ m) v, y ∈ L v :=
    fun v y member => ((chains.mem_cut split).mp member).1
  refine ⟨fun v => ?_, fun v => ?_, fun first second => chains.apart (subset _ _ first)
    (subset _ _ second), chains.heads, fun u v member => chains.headOff u v (subset _ _ member),
    fun u v member => chains.stopOff u v (subset _ _ member)⟩
  · by_cases same : v = w
    · subst same
      have path := chains.path v
      have distinct := chains.distinct v
      rw [split] at path distinct
      rw [Function.update_self]
      exact path.remove distinct
    · rw [Function.update_of_ne same]
      refine (chains.path v).update_off (chains.head_ne_lastNode same (fun y member => ?_)) _
      rw [split]
      exact List.mem_append_left _ member
  · by_cases same : v = w
    · subst same
      rw [Function.update_self]
      have whole := chains.nodup v
      rw [split] at whole
      exact whole.sublist (by simp)
    · rw [Function.update_of_ne same]
      exact chains.nodup v

theorem insert (chains : Chains next head stop L) (split : L w = l ++ m)
    (spare : Spare head stop L x) :
    Chains (Function.update (Function.update next x (next (lastNode (head w) l)))
        (lastNode (head w) l) x) head stop (Function.update L w (l ++ x :: m)) := by
  have members : ∀ v, ∀ y ∈ Function.update L w (l ++ x :: m) v, y ∈ L v ∨ (y = x ∧ v = w) :=
    fun v y member => (mem_put split).mp member
  refine ⟨fun v => ?_, fun v => ?_, ?_, chains.heads, ?_, ?_⟩
  · by_cases same : v = w
    · subst same
      have path := chains.path v
      have distinct := chains.distinct v
      rw [split] at path distinct
      rw [Function.update_self]
      refine path.insert distinct ?_
      rw [← split]
      simp [spare.head v, spare.off v]
    · rw [Function.update_of_ne same]
      have offX : x ∉ head v :: L v := by simp [spare.head v, spare.off v]
      refine ((chains.path v).update_off offX _).update_off
        (chains.head_ne_lastNode same (fun y member => ?_)) _
      rw [split]
      exact List.mem_append_left _ member
  · by_cases same : v = w
    · subst same
      rw [Function.update_self, List.nodup_middle, List.nodup_cons, ← split]
      exact ⟨spare.off v, chains.nodup v⟩
    · rw [Function.update_of_ne same]
      exact chains.nodup v
  · intro u v y first second
    rcases members u y first with oldFirst | ⟨new, atFirst⟩
    · rcases members v y second with oldSecond | ⟨new, _⟩
      · exact chains.apart oldFirst oldSecond
      · exact absurd (new ▸ oldFirst) (spare.off u)
    · rcases members v y second with oldSecond | ⟨_, atSecond⟩
      · exact absurd (new ▸ oldSecond) (spare.off v)
      · exact atFirst.trans atSecond.symm
  · intro u v member
    rcases members v _ member with old | ⟨new, _⟩
    · exact chains.headOff u v old
    · exact spare.head u new.symm
  · intro u v member
    rcases members v _ member with old | ⟨new, _⟩
    · exact chains.stopOff u v old
    · exact spare.stop u new.symm

/-- Take the first node of a list. -/
theorem pop (chains : Chains next head stop L) (split : L w = x :: l) :
    Chains (Function.update next (head w) (next x)) head stop (Function.update L w l) :=
  chains.remove (l := []) split

/-- Link a node in front of a list. -/
theorem push (chains : Chains next head stop L) (w : W) (spare : Spare head stop L x) :
    Chains (Function.update (Function.update next x (next (head w))) (head w) x) head stop
      (Function.update L w (x :: L w)) :=
  chains.insert (l := []) rfl spare

/-- Link a node behind the last node of a list. -/
theorem append (chains : Chains next head stop L) (w : W) (spare : Spare head stop L x) :
    Chains (Function.update (Function.update next x (stop w)) (lastNode (head w) (L w)) x) head stop
      (Function.update L w (L w ++ [x])) := by
  have inserted := chains.insert (l := L w) (m := []) (List.append_nil _).symm spare
  rwa [chains.last w] at inserted

end Update
end Chains
end Linked
