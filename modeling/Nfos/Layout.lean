import Nfos.ListHeads

/-! Well-formed cell arrays of an allocator: every list is circular through
`next`, the allocated lists also through `prev`. Each relinking that the
allocators perform is stated once, on the two link functions. -/
namespace Nfos
open Linked Function
variable {n : Nat} {next prev : Nat → Nat} {L : ListId n → List Nat} {c : Fin n} {w : ListId n}
  {x y : Nat} {l m : List Nat}

def allocHead (c : Fin n) : Nat := (ListId.alloc c).head

theorem allocHead_injective : Injective (allocHead : Fin n → Nat) :=
  ListId.head_injective.comp ListId.alloc_injective

structure Layout (n : Nat) (next prev : Nat → Nat) (L : ListId n → List Nat) : Prop where
  forward : Chains next ListId.head ListId.head L
  backward : Chains prev allocHead allocHead fun c : Fin n => (L (.alloc c)).reverse

/-- A cell on no list and heading none. -/
def Loose (L : ListId n → List Nat) (x : Nat) : Prop := indexShift n ≤ x ∧ ∀ w, x ∉ L w

namespace Layout

theorem ne_head (loose : Loose L x) (w : ListId n) : x ≠ w.head := by
  have := w.head_lt_indexShift
  have := loose.1
  omega

theorem spare (loose : Loose L x) : Spare ListId.head ListId.head L x :=
  ⟨ne_head loose, ne_head loose, loose.2⟩

theorem spare_backward (loose : Loose L x) :
    Spare allocHead allocHead (fun c : Fin n => (L (.alloc c)).reverse) x :=
  ⟨fun c => ne_head loose (.alloc c), fun c => ne_head loose (.alloc c),
    fun c member => loose.2 (.alloc c) (List.mem_reverse.mp member)⟩

theorem reverse_update_alloc (L : ListId n → List Nat) (c : Fin n) (l : List Nat) :
    (fun d : Fin n => (update L (.alloc c) l (.alloc d)).reverse) =
      update (fun d => (L (.alloc d)).reverse) c l.reverse := by
  funext d
  by_cases same : d = c
  · simp [same]
  · simp [update_of_ne same, update_of_ne (fun h => same (ListId.alloc_injective h))]

theorem reverse_update_other (L : ListId n → List Nat) (other : ∀ c, w ≠ .alloc c) (l : List Nat) :
    (fun d : Fin n => (update L w l (.alloc d)).reverse) = fun d => (L (.alloc d)).reverse := by
  funext d
  rw [update_of_ne (other d).symm]

/-- Only the heads and the members of allocated lists need their `prev`. -/
theorem update_prev (layout : Layout n next prev L) (off : ∀ c, y ≠ allocHead c ∧ y ∉ L (.alloc c))
    (z : Nat) : Layout n next (update prev y z) L where
  forward := layout.forward
  backward := layout.backward.update_off (fun c => ⟨(off c).1, by simpa using (off c).2⟩) z

theorem update_prev_loose (layout : Layout n next prev L) (loose : Loose L x) (z : Nat) :
    Layout n next (update prev x z) L :=
  layout.update_prev (fun _ => ⟨ne_head loose _, loose.2 _⟩) z

/-- The head of another list may change its `prev` freely. -/
theorem update_prev_head (layout : Layout n next prev L) (other : ∀ c, w ≠ .alloc c) (z : Nat) :
    Layout n next (update prev w.head z) L :=
  layout.update_prev (fun c => ⟨fun same => other c (ListId.head_injective same),
    fun member => layout.forward.headOff _ _ member⟩) z

theorem prev_head (layout : Layout n next prev L) (c : Fin n) :
    prev (allocHead c) = lastNode (allocHead c) (L (.alloc c)) := by
  have path := layout.backward.path c
  cases split : (L (.alloc c)).reverse with
  | nil =>
    have empty : L (.alloc c) = [] := by simpa using split
    rw [split] at path
    rw [empty]
    exact path
  | cons y l =>
    have shape : L (.alloc c) = l.reverse ++ [y] := by
      rw [← List.reverse_reverse (L (.alloc c)), split, List.reverse_cons]
    rw [split] at path
    rw [shape, lastNode_append]
    exact path.1

theorem next_of_split (layout : Layout n next prev L) (split : L w = l ++ x :: m) :
    next x = (m ++ [w.head]).headD 0 := by
  have path := layout.forward.path w
  rw [split] at path
  have rest := (path_append.mp path).2
  cases m with
  | nil => exact rest
  | cons y m => exact rest.1

theorem prev_of_split (layout : Layout n next prev L) (split : L (.alloc c) = l ++ x :: m) :
    prev x = lastNode (allocHead c) l := by
  have path := layout.backward.path c
  simp only [split, List.reverse_append, List.reverse_cons, List.append_assoc,
    List.singleton_append] at path
  have rest := (path_append.mp path).2
  cases shape : l.reverse with
  | nil =>
    rw [shape] at rest
    rw [List.reverse_eq_nil_iff.mp shape]
    exact rest
  | cons y k =>
    rw [shape] at rest
    rw [← List.reverse_reverse l, shape, List.reverse_cons, lastNode_append]
    exact rest.1

theorem next_eq_lastNode (layout : Layout n next prev L) (split : L (.alloc c) = l ++ x :: m) :
    next x = lastNode (allocHead c) m.reverse := by
  rw [layout.next_of_split split]
  cases m with
  | nil => rfl
  | cons y m =>
    rw [List.reverse_cons, lastNode_append]
    rfl

/-- Take the first cell of a free list. -/
theorem pop (layout : Layout n next prev L) (other : ∀ c, w ≠ .alloc c) (split : L w = x :: l) :
    Layout n (update next w.head (next x)) prev (update L w l) where
  forward := layout.forward.pop split
  backward := by
    rw [reverse_update_other L other]
    exact layout.backward

/-- Link a loose cell in front of a free list. -/
theorem push (layout : Layout n next prev L) (other : ∀ c, w ≠ .alloc c) (loose : Loose L x) :
    Layout n (update (update next x (next w.head)) w.head x) prev (update L w (x :: L w)) where
  forward := layout.forward.push w (spare loose)
  backward := by
    rw [reverse_update_other L other]
    exact layout.backward

/-- Link a loose cell behind the newest cell of an allocated list. -/
theorem append (layout : Layout n next prev L) (c : Fin n) (loose : Loose L x) :
    Layout n (update (update next x (allocHead c)) (prev (allocHead c)) x)
      (update (update prev x (prev (allocHead c))) (allocHead c) x)
      (update L (.alloc c) (L (.alloc c) ++ [x])) where
  forward := by
    rw [layout.prev_head c]
    exact layout.forward.append (.alloc c) (spare loose)
  backward := by
    rw [reverse_update_alloc, List.reverse_append, List.reverse_singleton, List.singleton_append]
    exact layout.backward.push c (spare_backward loose)

/-- Unlink a cell from an allocated list. -/
theorem remove (layout : Layout n next prev L) (split : L (.alloc c) = l ++ x :: m) :
    Layout n (update next (prev x) (next x)) (update prev (next x) (prev x))
      (update L (.alloc c) (l ++ m)) where
  forward := by
    rw [layout.prev_of_split split]
    exact layout.forward.remove split
  backward := by
    rw [reverse_update_alloc, List.reverse_append, layout.next_eq_lastNode split]
    exact layout.backward.remove (by rw [split]; simp)

/-- Unlinking an allocated cell leaves the heads of the other lists alone. -/
theorem next_update_prev (layout : Layout n next prev L) (split : L (.alloc c) = l ++ x :: m)
    (other : w ≠ .alloc c) (z : Nat) : update next (prev x) z w.head = next w.head := by
  rw [layout.prev_of_split split]
  refine update_of_ne (fun same => ?_) _ _
  apply layout.forward.head_ne_lastNode (w := .alloc c) (l := l) other
  · intro y before
    simp [split, before]
  · rw [show (ListId.alloc c).head = allocHead c from rfl, ← same]
    exact List.mem_cons_self

/-- The neighbours of an allocated cell are other cells, and not heads of other lists. -/
theorem neighbour (layout : Layout n next prev L) (split : L (.alloc c) = l ++ x :: m)
    (beside : y ∈ allocHead c :: (l ++ m)) : y ≠ x ∧ (w ≠ .alloc c → y ≠ w.head) := by
  have member : x ∈ L (.alloc c) := by simp [split]
  rcases List.mem_cons.mp beside with rfl | inside
  · refine ⟨fun same => layout.forward.headOff (.alloc c) (.alloc c) (?_ : allocHead c ∈ _),
      fun other same => other (ListId.head_injective same.symm)⟩
    rwa [same]
  · have cut : y ∈ update L (.alloc c) (l ++ m) (.alloc c) := by rwa [update_self]
    obtain ⟨old, other⟩ := (layout.forward.mem_cut split).mp cut
    exact ⟨other, fun _ same => layout.forward.headOff w (.alloc c) (same ▸ old)⟩

theorem prev_mem (layout : Layout n next prev L) (split : L (.alloc c) = l ++ x :: m) :
    prev x ∈ allocHead c :: (l ++ m) := by
  rw [layout.prev_of_split split]
  exact List.mem_cons.mpr ((List.mem_cons.mp (lastNode_mem _ l)).imp_right (List.mem_append_left m))

theorem next_mem (layout : Layout n next prev L) (split : L (.alloc c) = l ++ x :: m) :
    next x ∈ allocHead c :: (l ++ m) := by
  rw [layout.next_eq_lastNode split]
  refine List.mem_cons.mpr ((List.mem_cons.mp (lastNode_mem _ m.reverse)).imp_right fun inside => ?_)
  exact List.mem_append_right l (List.mem_reverse.mp inside)

theorem ne_head_of_mem (layout : Layout n next prev L) (member : y ∈ L w) (v : ListId n) : y ≠ v.head := by
  rintro rfl
  exact layout.forward.headOff v w member

/-- The neighbours of an allocated cell coincide only when they are the head. -/
theorem single_iff (layout : Layout n next prev L) (split : L (.alloc c) = l ++ x :: m) :
    next x = prev x ↔ l = [] ∧ m = [] := by
  have offHead : ∀ y ∈ L (.alloc c), y ≠ allocHead c :=
    fun y member => layout.ne_head_of_mem member (.alloc c)
  have distinct := layout.forward.nodup (.alloc c)
  rw [split] at offHead distinct
  rw [layout.next_of_split split, layout.prev_of_split split]
  constructor
  · intro same
    cases m with
    | nil =>
      rcases List.mem_cons.mp (lastNode_mem (allocHead c) l) with atHead | inside
      · refine ⟨?_, rfl⟩
        cases l with
        | nil => rfl
        | cons y l =>
          refine absurd atHead (offHead _ (List.mem_append_left _ ?_))
          exact lastNode_mem y l
      · exact absurd same.symm (offHead _ (List.mem_append_left _ inside))
    | cons y m =>
      have here : y = lastNode (allocHead c) l := same
      rcases List.mem_cons.mp (lastNode_mem (allocHead c) l) with atHead | inside
      · exact absurd (here.trans atHead) (offHead y (by simp))
      · rw [← here] at inside
        exact absurd rfl ((List.nodup_append.mp distinct).2.2 y inside y (by simp))
  · rintro ⟨rfl, rfl⟩
    rfl

theorem loose_pop (layout : Layout n next prev L) (bound : ∀ w, ∀ y ∈ L w, indexShift n ≤ y)
    (split : L w = l ++ x :: m) : Loose (update L w (l ++ m)) x := by
  refine ⟨bound w x (by simp [split]), fun v member => ?_⟩
  exact ((layout.forward.mem_cut split).mp member).2 rfl

end Layout

/-- The indexes that initialisation puts on the per-core free lists. -/
def covered (n size : Nat) : Nat := n * (size / n)

def initialLists (n size : Nat) : ListId n → List Nat
  | .alloc _ => []
  | .free c => List.range' (indexShift n + (size / n) * c.val) (size / n)
  | .glob => []

theorem path_range {f : Nat → Nat} {a b s k : Nat} (enter : f a = s)
    (inside : ∀ j, j + 1 < k → f (s + j) = s + j + 1) (leave : 0 < k → f (s + (k - 1)) = b)
    (positive : 0 < k) : Path f a (List.range' s k) b := by
  induction k generalizing a s with
  | zero => omega
  | succ k ih =>
    rw [List.range'_succ]
    refine ⟨enter, ?_⟩
    cases k with
    | zero => simpa using leave (by omega)
    | succ k =>
      apply ih
      · simpa using inside 0 (by omega)
      · intro j bound
        have step := inside (j + 1) (by omega)
        rw [show s + 1 + j = s + (j + 1) by omega, step]
      · intro _
        have last := leave (by omega)
        rw [show s + 1 + (k + 1 - 1) = s + (k + 1 + 1 - 1) by omega, last]
      · omega

/-- The link functions after initialisation, where the heads are in place. -/
structure Initialised (n size : Nat) (next prev : Nat → Nat) : Prop where
  allocNext : ∀ c : Fin n, next (allocHead c) = allocHead c
  allocPrev : ∀ c : Fin n, prev (allocHead c) = allocHead c
  freeNext : ∀ c : Fin n, next (ListId.free c).head = indexShift n + (size / n) * c.val
  globNext : next (globalFreeListHead n) = globalFreeListHead n
  cellNext : ∀ x < size, next (indexShift n + x) = initNext size n x

theorem Initialised.freePath {size : Nat} (init : Initialised n size next prev)
    (positive : 0 < size / n) (c : Fin n) :
    Path next (ListId.free c).head (initialLists n size (.free c)) (ListId.free c).head := by
  have room : (size / n) * c.val + size / n ≤ size := by
    have most : (size / n) * (c.val + 1) ≤ (size / n) * n := Nat.mul_le_mul_left _ c.isLt
    have := Nat.div_mul_le_self size n
    rw [Nat.mul_add, Nat.mul_one] at most
    omega
  refine path_range (init.freeNext c) (fun j bound => ?_) (fun _ => ?_) positive
  · rw [Nat.add_assoc, init.cellNext _ (by omega), initNext, Nat.mul_add_mod,
      Nat.mod_eq_of_lt (by omega), if_pos ⟨by omega, by omega⟩]
  · rw [Nat.add_assoc, init.cellNext _ (by omega), initNext, Nat.mul_add_mod,
      Nat.mod_eq_of_lt (by omega), if_neg (by omega), Nat.mul_add_div positive,
      Nat.div_eq_of_lt (by omega), Nat.add_zero]
    rfl

theorem mem_initialLists {size : Nat} :
    (∃ w, x ∈ initialLists n size w) ↔ ∃ i < covered n size, x = indexShift n + i := by
  constructor
  · rintro ⟨w, member⟩
    cases w with
    | alloc c | glob => simp [initialLists] at member
    | free c =>
      simp only [initialLists, List.mem_range'_1] at member
      have most : (size / n) * (c.val + 1) ≤ (size / n) * n := Nat.mul_le_mul_left _ c.isLt
      rw [Nat.mul_add, Nat.mul_one] at most
      refine ⟨x - indexShift n, ?_, by omega⟩
      rw [covered, Nat.mul_comm]
      omega
  · rintro ⟨i, bound, rfl⟩
    rw [covered] at bound
    have positive : 0 < size / n := Nat.pos_of_mul_pos_left (Nat.lt_of_le_of_lt (Nat.zero_le i) bound)
    have core : i / (size / n) < n := (Nat.div_lt_iff_lt_mul positive).mpr bound
    refine ⟨.free ⟨i / (size / n), core⟩, ?_⟩
    simp only [initialLists, List.mem_range'_1]
    have := Nat.div_add_mod i (size / n)
    have := Nat.mod_lt i positive
    omega

/-- The indexes that initialisation puts on the free lists of the cores. -/
def stock (n size : Nat) : Set Nat := {i | ∃ c, indexShift n + i ∈ initialLists n size (.free c)}

theorem mem_stock {size i : Nat} : i ∈ stock n size ↔ i < covered n size := by
  have cover : (∃ w, indexShift n + i ∈ initialLists n size w) ↔ i < covered n size := by
    rw [mem_initialLists]
    simp
  rw [← cover]
  constructor
  · rintro ⟨c, member⟩
    exact ⟨_, member⟩
  · rintro ⟨w, member⟩
    cases w with
    | alloc c | glob => simp [initialLists] at member
    | free c => exact ⟨c, member⟩

/-- The state after initialisation is well formed. -/
theorem Initialised.layout {size : Nat} (init : Initialised n size next prev)
    (positive : 0 < size / n) : Layout n next prev (initialLists n size) where
  forward := {
    path := fun w => match w with
      | .alloc c => init.allocNext c
      | .free c => init.freePath positive c
      | .glob => init.globNext
    nodup := fun w => by
      cases w with
      | alloc c | glob => exact List.nodup_nil
      | free c => exact List.nodup_range'
    apart := by
      intro w v x first second
      cases w with
      | alloc c | glob => simp [initialLists] at first
      | free c =>
        cases v with
        | alloc d | glob => simp [initialLists] at second
        | free d =>
          simp only [initialLists, List.mem_range'_1] at first second
          rcases Nat.lt_trichotomy c.val d.val with below | same | above
          · have := Nat.mul_le_mul_left (size / n) below
            rw [Nat.mul_succ] at this
            omega
          · rw [Fin.ext same]
          · have := Nat.mul_le_mul_left (size / n) above
            rw [Nat.mul_succ] at this
            omega
    heads := ListId.head_injective
    headOff := fun w v member => by
      have := w.head_lt_indexShift
      obtain ⟨i, _, same⟩ := mem_initialLists.mp ⟨v, member⟩
      omega
    stopOff := fun w v member => by
      have := w.head_lt_indexShift
      obtain ⟨i, _, same⟩ := mem_initialLists.mp ⟨v, member⟩
      omega }
  backward := {
    path := fun c => init.allocPrev c
    nodup := fun _ => List.nodup_nil
    apart := fun first _ => absurd first List.not_mem_nil
    heads := allocHead_injective
    headOff := fun _ _ => List.not_mem_nil
    stopOff := fun _ _ => List.not_mem_nil }

end Nfos
