import Nfos.Lib.Run
import Mathlib.Data.List.Pairwise
import Mathlib.Logic.Relation

/-! Finite maps of bounded size, as association lists whose keys are pairwise
different under a given equality. -/
namespace BoundedMap
variable {K V : Type} {eq : K → K → Bool}

structure Assoc (eq : K → K → Bool) (V : Type) where
  entries : List (K × V)
  distinct : entries.Pairwise fun a b => eq a.1 b.1 = false

namespace Assoc

def empty (eq : K → K → Bool) (V : Type) : Assoc eq V := ⟨[], List.Pairwise.nil⟩

def find (m : Assoc eq V) (k : K) : Option V := (m.entries.find? fun p => eq p.1 k).map Prod.snd

def erase (m : Assoc eq V) (k : K) : Assoc eq V where
  entries := m.entries.filter fun p => !eq p.1 k
  distinct := m.distinct.filter _

theorem find_eq_none {m : Assoc eq V} {k : K} :
    m.find k = none ↔ ∀ p ∈ m.entries, eq p.1 k = false := by
  simp [find]

section Lawful
variable (lawful : Equivalence fun a b => eq a b = true) {m : Assoc eq V} {k : K} {v : V}
include lawful

theorem eq_symm (a b : K) : eq a b = eq b a := by
  rw [Bool.eq_iff_iff]
  exact ⟨lawful.symm, lawful.symm⟩

/-- At most one entry has a given key, so the first one found is the only one. -/
theorem find_eq_some : m.find k = some v ↔ ∃ p ∈ m.entries, eq p.1 k = true ∧ p.2 = v := by
  obtain ⟨entries, distinct⟩ := m
  simp only [find]
  induction entries with
  | nil => simp
  | cons p entries ih =>
    obtain ⟨first, rest⟩ := List.pairwise_cons.mp distinct
    cases same : eq p.1 k with
    | true =>
      rw [List.find?_cons, same, Option.map_some, Option.some.injEq]
      constructor
      · intro value
        exact ⟨p, List.mem_cons_self, same, value⟩
      · rintro ⟨q, member, here, value⟩
        rcases List.mem_cons.mp member with rfl | later
        · exact value
        · have both : eq p.1 q.1 = true := lawful.trans same (lawful.symm here)
          rw [first q later] at both
          contradiction
    | false =>
      rw [List.find?_cons, same, ih rest]
      simp [same]

def insert (m : Assoc eq V) (k : K) (v : V) (absent : m.find k = none) : Assoc eq V where
  entries := (k, v) :: m.entries
  distinct := by
    refine List.pairwise_cons.mpr ⟨fun p member => ?_, m.distinct⟩
    rw [eq_symm lawful]
    exact find_eq_none.mp absent p member

/-- Erasing a present key removes exactly one entry. -/
theorem length_erase {p : K × V} (member : p ∈ m.entries) (same : eq p.1 k = true) :
    (m.erase k).entries.length + 1 = m.entries.length := by
  obtain ⟨l, r, split⟩ := List.append_of_mem member
  have distinct := m.distinct
  rw [split, List.pairwise_append, List.pairwise_cons] at distinct
  obtain ⟨_, ⟨behind, _⟩, before⟩ := distinct
  have other : ∀ q : K × V, eq p.1 q.1 = false → (!eq q.1 k) = true := by
    intro q apart
    cases here : eq q.1 k with
    | false => rfl
    | true =>
      have both : eq p.1 q.1 = true := lawful.trans same (lawful.symm here)
      rw [apart] at both
      contradiction
  have front : l.filter (fun q => !eq q.1 k) = l := by
    rw [List.filter_eq_self]
    intro q inside
    apply other
    rw [eq_symm lawful]
    exact before q inside p List.mem_cons_self
  have back : r.filter (fun q => !eq q.1 k) = r := by
    rw [List.filter_eq_self]
    intro q inside
    exact other q (behind q inside)
  simp only [erase, split, List.filter_append, List.filter_cons, same, Bool.not_true,
    Bool.false_eq_true, if_false, front, back, List.length_append, List.length_cons]
  omega

end Lawful
end Assoc

/-- Operations with their results. -/
inductive Event (K V : Type) where
  | got (key : K) (value : Option V)
  | stored (key : K) (value : V)
  | full (key : K) (value : V)
  | erased (key : K)
  | missing (key : K)

/-- Keys are only put when they are absent. -/
def Step (capacity : Nat) (m : Assoc eq V) (e : Event K V) (m' : Assoc eq V) : Prop :=
  match e with
  | .got k v => m.find k = v ∧ m' = m
  | .stored k v => m.find k = none ∧ m.entries.length < capacity ∧ m'.entries = (k, v) :: m.entries
  | .full k _ => m.find k = none ∧ capacity ≤ m.entries.length ∧ m' = m
  | .erased k => m.find k ≠ none ∧ m' = m.erase k
  | .missing k => m.find k = none ∧ m' = m

end BoundedMap
