import Nfos.Cell

/-! The state of an index allocator as lists of cells. `Valid` is the invariant
of the two transactional allocators; `Stock` compares the lists before and after
indexes have been moved between free lists. -/
namespace Nfos
open Function Linked
variable {ε : Type} {n size : Nat} {cells after : Cells ε} {L M : ListId n → List Nat} {x y : Nat}
  {next prev : Nat → Nat}

def ListId.IsFree (w : ListId n) : Prop := ∀ c, w ≠ .alloc c

theorem ListId.free_isFree (c : Fin n) : (ListId.free c).IsFree := fun _ same => by cases same

theorem ListId.glob_isFree : (ListId.glob : ListId n).IsFree := fun _ same => by cases same

structure Valid (n size : Nat) (cells : Cells ε) (L : ListId n → List Nat) : Prop where
  layout : Layout n cells.nextOf cells.prevOf L
  cover : ∀ x, (∃ w, x ∈ L w) ↔ ∃ i < covered n size, x = indexShift n + i
  allocated : ∀ c, ∀ x ∈ L (.alloc c), cells.indOf x = allocHead c
  unallocated : ∀ i < size, (∀ c, indexShift n + i ∉ L (.alloc c)) →
    cells.indOf (indexShift n + i) = -1

theorem covered_le (n size : Nat) : covered n size ≤ size := Nat.mul_div_le size n

namespace Valid

theorem bound (valid : Valid n size cells L) (w : ListId n) (x : Nat) (member : x ∈ L w) :
    indexShift n ≤ x := by
  obtain ⟨i, _, rfl⟩ := (valid.cover x).mp ⟨w, member⟩
  omega

theorem ind_free (valid : Valid n size cells L) {w : ListId n} (free : w.IsFree)
    (member : x ∈ L w) : cells.indOf x = -1 := by
  obtain ⟨i, within, rfl⟩ := (valid.cover x).mp ⟨w, member⟩
  apply valid.unallocated i (Nat.lt_of_lt_of_le within (covered_le n size))
  exact fun c other => free c (valid.layout.forward.apart member other)

/-- `list_ind` tells an allocated index from a free one. -/
theorem ind_eq_neg_one (valid : Valid n size cells L) {i : Nat} (within : i < size) :
    cells.indOf (indexShift n + i) = -1 ↔ ∀ c, indexShift n + i ∉ L (.alloc c) := by
  constructor
  · intro minus c member
    rw [valid.allocated c _ member] at minus
    omega
  · exact valid.unallocated i within

/-- `list_ind` names the allocated list that holds an index. -/
theorem mem_alloc_iff (valid : Valid n size cells L) {i : Nat} (within : i < size) {c : Fin n} :
    cells.indOf (indexShift n + i) = allocHead c ↔ indexShift n + i ∈ L (.alloc c) := by
  constructor
  · intro named
    by_contra absent
    have minus : cells.indOf (indexShift n + i) = -1 := by
      apply valid.unallocated i within
      intro d member
      have same := (valid.allocated d _ member).symm.trans named
      rw [allocHead_injective (show allocHead d = allocHead c by omega)] at member
      exact absent member
    omega
  · exact valid.allocated c _

/-- Only the links and the marks of the cells matter. -/
theorem congr (valid : Valid n size cells L) (next : after.nextOf = cells.nextOf)
    (prev : after.prevOf = cells.prevOf) (ind : after.indOf = cells.indOf) :
    Valid n size after L where
  layout := by
    rw [next, prev]
    exact valid.layout
  cover := valid.cover
  allocated := by
    rw [ind]
    exact valid.allocated
  unallocated := by
    rw [ind]
    exact valid.unallocated

/-- Unlinking an allocated cell and linking it behind its list again. -/
theorem lift {c : Fin n} {l m : List Nat} (valid : Valid n size cells L)
    (split : L (.alloc c) = l ++ x :: m) (inner : cells.nextOf x ≠ allocHead c)
    (next : after.nextOf = update (update (update cells.nextOf (cells.prevOf x) (cells.nextOf x)) x
      (allocHead c)) (cells.prevOf (allocHead c)) x)
    (prev : after.prevOf = update (update (update cells.prevOf (cells.nextOf x) (cells.prevOf x)) x
      (cells.prevOf (allocHead c))) (allocHead c) x)
    (ind : after.indOf = cells.indOf) :
    Valid n size after (update L (.alloc c) (l ++ m ++ [x])) := by
  have loose := valid.layout.loose_pop valid.bound split
  have members : ∀ w y, y ∈ update L (.alloc c) (l ++ m ++ [x]) w ↔ y ∈ L w := by
    intro w y
    by_cases same : w = .alloc c
    · subst same
      rw [update_self, split]
      simp only [List.mem_append, List.mem_cons, List.not_mem_nil, or_false]
      tauto
    · rw [update_of_ne same]
  refine ⟨?_, fun y => ?_, fun d y here => ?_, fun i within absent => ?_⟩
  · have linked := (valid.layout.remove split).append c loose
    rw [update_of_ne inner.symm, update_self, update_idem] at linked
    rw [next, prev]
    exact linked
  · simp only [members]
    exact valid.cover y
  · rw [ind]
    exact valid.allocated d y ((members _ y).mp here)
  · rw [ind]
    exact valid.unallocated i within fun d old => absent d ((members _ _).mpr old)

/-- Unlinking an allocated cell and putting it on any free list. -/
theorem release {c : Fin n} {w : ListId n} {l m : List Nat} {u v : Nat} (valid : Valid n size cells L) (free : w.IsFree)
    (split : L (.alloc c) = l ++ x :: m)
    (next : after.nextOf = update (update (update cells.nextOf (cells.prevOf x) (cells.nextOf x)) x
      (cells.nextOf w.head)) w.head x)
    (prev : after.prevOf = update (update (update cells.prevOf (cells.nextOf x) (cells.prevOf x)) x u)
      w.head v)
    (ind : after.indOf = update cells.indOf x (-1)) :
    Valid n size after (update (update L (.alloc c) (l ++ m)) w (x :: L w)) := by
  have apart : w ≠ .alloc c := free c
  have loose := valid.layout.loose_pop valid.bound split
  have members : ∀ v y, y ∈ update (update L (.alloc c) (l ++ m)) w (x :: L w) v ↔
      (y ∈ L v ∧ y ≠ x) ∨ (y = x ∧ v = w) := by
    intro v y
    have pushed := Chains.mem_push (L := update L (.alloc c) (l ++ m)) (w := w) (v := v)
      (x := x) (y := y)
    rwa [update_of_ne apart, valid.layout.forward.mem_cut split] at pushed
  refine ⟨?_, fun y => ?_, fun e y here => ?_, fun i within absent => ?_⟩
  · have pushed := (((valid.layout.remove split).update_prev_loose loose u).push
      free loose).update_prev_head free v
    rw [valid.layout.next_update_prev split apart, update_of_ne apart] at pushed
    rw [next, prev]
    exact pushed
  · rw [← valid.cover y]
    simp only [members]
    by_cases same : y = x
    · simpa [same] using ⟨_, show x ∈ L (.alloc c) by simp [split]⟩
    · simp [same]
  · obtain ⟨old, other⟩ : y ∈ L (.alloc e) ∧ y ≠ x := by
      rcases (members _ y).mp here with kept | ⟨_, same⟩
      · exact kept
      · exact absurd same.symm (free e)
    rw [ind, update_of_ne other]
    exact valid.allocated e y old
  · rw [ind]
    by_cases same : indexShift n + i = x
    · rw [same, update_self]
    · rw [update_of_ne same]
      exact valid.unallocated i within fun e old => absent e ((members _ _).mpr (Or.inl ⟨old, same⟩))

end Valid

/-- `M` holds the same allocated lists as `L`, and the same cells overall but
for those in `taken`. -/
structure Stock (L M : ListId n → List Nat) (taken : Nat → Prop) : Prop where
  alloc : ∀ c, M (.alloc c) = L (.alloc c)
  members : ∀ y, (∃ w, y ∈ M w) ↔ (∃ w, y ∈ L w) ∧ ¬ taken y

namespace Stock

theorem refl (L : ListId n → List Nat) : Stock L L fun _ => False :=
  ⟨fun _ => rfl, fun _ => by simp⟩

theorem trans {K : ListId n → List Nat} {taken : Nat → Prop} (first : Stock L M fun _ => False)
    (second : Stock M K taken) : Stock L K taken where
  alloc c := (second.alloc c).trans (first.alloc c)
  members y := by rw [second.members, first.members, not_false_eq_true, and_true]

/-- A cell taken from a free list. -/
theorem pop {w : ListId n} {l : List Nat} (free : w.IsFree) (layout : Layout n next prev L)
    (split : L w = x :: l) : Stock L (update L w l) (· = x) where
  alloc c := update_of_ne (free c).symm _ _
  members y := by
    simp only [layout.forward.mem_pop split, exists_and_right, ne_eq]

/-- A taken cell put on a free list is stocked again. -/
theorem push {w : ListId n} (free : w.IsFree) (stock : Stock L M (· = x)) (old : ∃ v, x ∈ L v) :
    Stock L (update M w (x :: M w)) fun _ => False where
  alloc c := by rw [update_of_ne (free c).symm, stock.alloc]
  members y := by
    simp only [Chains.mem_push, exists_or, stock.members]
    by_cases same : y = x
    · simpa [same] using old
    · simp [same]

end Stock
end Nfos
