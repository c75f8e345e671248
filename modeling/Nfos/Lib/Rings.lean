import Mathlib.Data.List.Chain
import Mathlib.Logic.Function.Basic

/-! Doubly linked lists that are closed by a head node. The links hold codes of nodes, and
an edit of a list writes to the two nodes beside the place of the edit. -/
namespace Rings
open Function
variable {α ι : Type} {code : α → ι} {next prev next' prev' : α → ι} {h x p z : α} {l a b : List α}

/-- Two nodes are linked both ways. -/
def Link (code : α → ι) (next prev : α → ι) (p q : α) : Prop := next p = code q ∧ prev q = code p

theorem links_congr (nexts : ∀ y ∈ l.dropLast, next' y = next y) (prevs : ∀ y ∈ l.tail, prev' y = prev y)
    (links : l.IsChain (Link code next prev)) : l.IsChain (Link code next' prev') := by
  induction l with
  | nil => exact .nil
  | cons p l ih =>
    cases l with
    | nil => exact .singleton p
    | cons q l =>
      rw [List.isChain_cons_cons] at links ⊢
      obtain ⟨⟨forward, backward⟩, rest⟩ := links
      refine ⟨⟨?_, ?_⟩, ih (fun y member => nexts y (List.mem_cons_of_mem _ member)) ?_ rest⟩
      · rw [nexts p (List.mem_cons_self ..), forward]
      · rw [prevs q (List.mem_cons_self ..), backward]
      · exact fun y member => prevs y (List.mem_cons_of_mem _ member)

/-- The head node `h` and the nodes of the list in their order. -/
structure Ring (code : α → ι) (next prev : α → ι) (h : α) (l : List α) : Prop where
  once : (h :: l).Nodup
  links : (h :: (l ++ [h])).IsChain (Link code next prev)

/-- The node at the front, the head node in an empty list. -/
def front (h : α) (l : List α) : α := l.head?.getD h

/-- The node at the back, the head node in an empty list. -/
def back (h : α) (l : List α) : α := l.getLast?.getD h

namespace Ring

theorem empty (forward : next h = code h) (backward : prev h = code h) : Ring code next prev h [] :=
  ⟨by simp, List.isChain_pair.mpr ⟨forward, backward⟩⟩

theorem congr (ring : Ring code next prev h l) (nexts : ∀ y ∈ h :: l, next' y = next y) (prevs : ∀ y ∈ h :: l, prev' y = prev y) :
    Ring code next' prev' h l := by
  refine ⟨ring.once, links_congr ?_ ?_ ring.links⟩
  · intro y member
    rw [← List.cons_append, List.dropLast_concat] at member
    exact nexts y member
  · intro y member
    apply prevs y
    rcases List.mem_append.mp member with inside | last
    · exact List.mem_cons_of_mem _ inside
    · rw [List.mem_singleton.mp last]
      exact List.mem_cons_self ..

theorem head?_closed (l : List α) : (l ++ [h]).head? = some (front h l) := by
  cases l <;> rfl

theorem getLast?_open (l : List α) : (h :: l).getLast? = some (back h l) := List.getLast?_cons ..

theorem front_mem : front h l ∈ h :: l := by
  cases l with
  | nil => exact List.mem_cons_self ..
  | cons y l => exact List.mem_cons_of_mem _ (List.mem_cons_self ..)

theorem back_mem : back h l ∈ h :: l := List.mem_of_getLast? (getLast?_open l)

theorem next_head (ring : Ring code next prev h l) : next h = code (front h l) :=
  ((List.isChain_cons.mp ring.links).1 _ (head?_closed l)).1

theorem split_links (ring : Ring code next prev h (a ++ x :: b)) :
    (h :: a).IsChain (Link code next prev) ∧ Link code next prev (back h a) x ∧ Link code next prev x (front h b) ∧
      (b ++ [h]).IsChain (Link code next prev) := by
  have links := ring.links
  rw [List.append_assoc, List.cons_append, ← List.cons_append, List.isChain_append] at links
  obtain ⟨before, rest, joint⟩ := links
  obtain ⟨behind, after⟩ := List.isChain_cons.mp rest
  exact ⟨before, joint _ (getLast?_open a) _ rfl, behind _ (head?_closed b), after⟩

theorem next_mem (ring : Ring code next prev h (a ++ x :: b)) : next x = code (front h b) := ring.split_links.2.2.1.1

theorem prev_mem (ring : Ring code next prev h (a ++ x :: b)) : prev x = code (back h a) := ring.split_links.2.1.2

theorem prev_head (ring : Ring code next prev h l) : prev h = code (back h l) := by
  have links := ring.links
  rw [← List.cons_append, List.isChain_append] at links
  exact (links.2.2 _ (getLast?_open l) _ rfl).2

theorem front_not_mem_tail (once : (h :: l).Nodup) : front h l ∉ (l ++ [h]).tail := by
  obtain ⟨off, distinct⟩ := List.nodup_cons.mp once
  cases l with
  | nil => exact List.not_mem_nil
  | cons y l =>
    intro member
    rcases List.mem_append.mp member with inside | last
    · exact (List.nodup_cons.mp distinct).1 inside
    · rw [← List.mem_singleton.mp last] at off
      exact off (List.mem_cons_self ..)

theorem back_not_mem_dropLast (once : (h :: l).Nodup) : back h l ∉ (h :: l).dropLast := by
  have split : (h :: l).dropLast ++ [back h l] = h :: l := List.dropLast_append_getLast? _ (getLast?_open l)
  rw [← split, List.nodup_append] at once
  exact fun member => once.2.2 _ member _ (List.mem_singleton_self _) rfl

theorem mem_of_mem_tail_closed {y : α} (member : y ∈ (l ++ [h]).tail) : y ∈ h :: l := by
  rcases List.mem_append.mp (List.mem_of_mem_tail member) with inside | last
  · exact List.mem_cons_of_mem _ inside
  · rw [List.mem_singleton.mp last]
    exact List.mem_cons_self ..

section Edits
variable [DecidableEq α]

/-- Link a node behind the head node. -/
theorem push (ring : Ring code next prev h l) (off : x ∉ h :: l) :
    Ring code (update (update next x (code (front h l))) h (code x))
      (update (update prev x (code h)) (front h l) (code x)) h (x :: l) := by
  obtain ⟨headOff, distinct⟩ := List.nodup_cons.mp ring.once
  obtain ⟨apart, offList⟩ := not_or.mp (List.mem_cons.not.mp off)
  have frontApart : x ≠ front h l := fun same => off (same.symm ▸ front_mem)
  constructor
  case once =>
    refine List.nodup_cons.mpr ⟨?_, List.nodup_cons.mpr ⟨offList, distinct⟩⟩
    intro member
    rcases List.mem_cons.mp member with same | inside
    · exact apart same.symm
    · exact headOff inside
  case links =>
    rw [List.cons_append, List.isChain_cons_cons, List.isChain_cons]
    refine ⟨⟨update_self .., ?_⟩, ?_, links_congr ?_ ?_ (List.isChain_cons.mp ring.links).2⟩
    · rw [update_of_ne frontApart, update_self]
    · intro y member
      rw [head?_closed] at member
      obtain rfl := Option.some.inj member
      exact ⟨by rw [update_of_ne apart, update_self], update_self ..⟩
    · intro y member
      rw [List.dropLast_concat] at member
      rw [update_of_ne (ne_of_mem_of_not_mem member headOff), update_of_ne (ne_of_mem_of_not_mem member offList)]
    · intro y member
      have inside := mem_of_mem_tail_closed member
      rw [update_of_ne (ne_of_mem_of_not_mem member (front_not_mem_tail ring.once)), update_of_ne (ne_of_mem_of_not_mem inside off)]

/-- Cut a node out. -/
theorem cut (ring : Ring code next prev h (a ++ x :: b)) :
    Ring code (update next (back h a) (next x)) (update prev (front h b) (prev x)) h (a ++ b) := by
  obtain ⟨before, ⟨_, backward⟩, ⟨forward, _⟩, after⟩ := ring.split_links
  have once : (h :: (a ++ b)).Nodup := ring.once.sublist (by simp)
  have onceBefore : (h :: a).Nodup := once.sublist (by simp)
  have onceAfter : (h :: b).Nodup := once.sublist (by simp)
  rw [← List.cons_append, List.nodup_append] at once
  have apart : ∀ y ∈ h :: a, y ∉ b := fun y left right => once.2.2 y left y right rfl
  constructor
  case once => exact ring.once.sublist (by simp)
  case links =>
    rw [List.append_assoc, ← List.cons_append, List.isChain_append]
    refine ⟨links_congr ?_ ?_ before, links_congr ?_ ?_ after, ?_⟩
    · intro y member
      exact update_of_ne (ne_of_mem_of_not_mem member (back_not_mem_dropLast onceBefore)) ..
    · intro y member
      refine update_of_ne (fun same => ?_) ..
      rcases List.mem_cons.mp (same ▸ front_mem : y ∈ h :: b) with atHead | inside
      · exact (List.nodup_cons.mp onceBefore).1 (atHead ▸ member)
      · exact apart y (List.mem_cons_of_mem _ member) inside
    · intro y member
      rw [List.dropLast_concat] at member
      exact update_of_ne (ne_of_mem_of_not_mem member (apart _ back_mem)) ..
    · intro y member
      exact update_of_ne (ne_of_mem_of_not_mem member (front_not_mem_tail onceAfter)) ..
    · intro y last z first
      rw [getLast?_open] at last
      rw [head?_closed] at first
      obtain rfl := Option.some.inj last
      obtain rfl := Option.some.inj first
      exact ⟨by rw [update_self, forward], by rw [update_self, backward]⟩

end Edits
end Ring
end Rings
