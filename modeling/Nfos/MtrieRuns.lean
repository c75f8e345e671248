import Nfos.MtrieRoutes

/-! Longest-prefix match over any sequence of routes added to any number of tries. -/
namespace Nfos.Mtrie
open Fallible LongestMatch
variable {capacity m : Nat} {s t : State} {nodes : Nodes}

/-- A call of `ip4_fib_mtrie_route_add`. -/
structure Route where
  trie : Nat
  dstAddress : Nat
  dstAddressLength : Nat
  adjIndex : Nat

def addRoutes (capacity : Nat) (routes : List Route) (s : State) : Except Fault State :=
  routes.foldlM (fun s r => ip4FibMtrieRouteAdd capacity r.trie r.dstAddress r.dstAddressLength r.adjIndex s) s

/-- The tries after `ip4_mtrie_init`, with an unused pool. -/
def initial (plies : Nat → Ply8) : State := ⟨fun _ => ip4MtrieInit, plies, 0⟩

/-- What the callers pass. -/
structure Route.Valid (r : Route) : Prop where
  address : r.dstAddress < 2 ^ 32
  length : r.dstAddressLength ≤ 32
  adjacency : r.adjIndex < 2 ^ 31
  default : r.dstAddressLength = 0 → r.dstAddress = 0

/-- The first bits of the address and those of the route agree. -/
def Route.covers (r : Route) (x : Nat) : Prop :=
  x / 2 ^ (32 - r.dstAddressLength) = r.dstAddress / 2 ^ (32 - r.dstAddressLength)

instance (r : Route) (x : Nat) : Decidable (r.covers x) := inferInstanceAs (Decidable (_ = _))

section Mask

/-- The mask clears the bits beyond the length. -/
theorem mask_eq {x len : Nat} (positive : 0 < len) (length : len ≤ 32) (small : x < 2 ^ 32) :
    x &&& ((0xFFFFFFFF <<< ((32 - len) % 32)) % 2 ^ 32) = x / 2 ^ (32 - len) * 2 ^ (32 - len) := by
  have shift : (32 - len) % 32 = 32 - len := Nat.mod_eq_of_lt (by omega)
  rw [shift, ← Nat.shiftRight_eq_div_pow, ← Nat.shiftLeft_eq, show 0xFFFFFFFF = 2 ^ 32 - 1 by rfl]
  apply Nat.eq_of_testBit_eq
  intro i
  simp only [Nat.testBit_and, Nat.testBit_mod_two_pow, Nat.testBit_shiftLeft, Nat.testBit_shiftRight,
    Nat.testBit_two_pow_sub_one]
  by_cases low : 32 - len ≤ i
  · have place : 32 - len + (i - (32 - len)) = i := by omega
    by_cases high : i < 32
    · have inside : i - (32 - len) < 32 := by omega
      simp [low, high, inside, place]
    · have zero : x.testBit i = false := Nat.testBit_lt_two_pow (small.trans_le (Nat.pow_le_pow_right (by decide) (by omega)))
      simp [zero, place]
  · simp [low]

def Route.args (r : Route) : Args :=
  ⟨r.dstAddress &&& ((0xFFFFFFFF <<< ((32 - r.dstAddressLength) % 32)) % 2 ^ 32), r.dstAddressLength, r.adjIndex⟩

theorem Route.Valid.args_eq {r : Route} (valid : r.Valid) :
    r.args.dstAddress = r.dstAddress / 2 ^ (32 - r.dstAddressLength) * 2 ^ (32 - r.dstAddressLength) := by
  by_cases positive : 0 < r.dstAddressLength
  · exact mask_eq positive valid.length valid.address
  · have zero := valid.default (by omega)
    simp [Route.args, zero]

theorem Route.Valid.masked {r : Route} (valid : r.Valid) : Masked r.args := by
  refine ⟨?_, valid.length, ?_⟩
  · rw [valid.args_eq]
    exact (Nat.div_mul_le_self _ _).trans_lt valid.address
  · rw [valid.args_eq]
    exact Nat.dvd_mul_left _ _

theorem Route.Valid.covers_args {r : Route} (valid : r.Valid) (x : Nat) : Covers r.args x ↔ r.covers x := by
  rw [Covers, valid.args_eq, Route.covers]
  simp only [Route.args]
  rw [Nat.mul_div_cancel _ (Nat.two_pow_pos _)]

end Mask

section Runs

theorem initial_coherent (capacity : Nat) (plies : Nat → Ply8) :
    Coherent capacity (initial plies) fun _ _ _ => none := by
  constructor
  case pool => exact Nat.zero_le _
  case root =>
    intro m slot _
    exact ⟨rfl, Nat.zero_le _⟩
  all_goals
    intros
    contradiction

/-- The leaf and the length of an entry of the table. -/
def leafOf : Option Route → Nat × Nat
  | some r => (leafSetAdjIndex r.adjIndex, r.dstAddressLength)
  | none => (1, 0)

def routesOf (routes : List Route) (m : Nat) : List Route := routes.filter fun r => r.trie = m

/-- Every trie maps an address to the last one of its longest routes. -/
def Represents (capacity : Nat) (routes : List Route) (s : State) : Prop :=
  ∃ nodes, Coherent capacity s nodes ∧
    ∀ m x, entry s nodes m x = leafOf (best Route.covers Route.dstAddressLength (routesOf routes m) x)

theorem replace_leafOf (r : Route) (x : Nat) (old : Option Route) (covers : r.covers x) :
    replace (leafSetAdjIndex r.adjIndex) r.dstAddressLength (leafOf old) =
      leafOf (better Route.covers Route.dstAddressLength x old r) := by
  cases old with
  | none => simp [replace, leafOf, better, covers]
  | some c =>
    by_cases longer : c.dstAddressLength ≤ r.dstAddressLength
    · simp [replace, leafOf, better, covers, longer]
    · simp [replace, leafOf, better, longer]

theorem add_represents (bounded : capacity ≤ 2 ^ 31) {routes : List Route} {r : Route} (valid : r.Valid)
    (old : Represents capacity routes s) :
    Ends (· = .exhausted) (Represents capacity (routes ++ [r]))
      (ip4FibMtrieRouteAdd capacity r.trie r.dstAddress r.dstAddressLength r.adjIndex s) := by
  obtain ⟨nodes, ok, entries⟩ := old
  have offers := setRootLeaf_spec (m := r.trie) bounded valid.masked ok
  apply offers.mono
  rintro t ⟨nodes', effect⟩
  refine ⟨nodes', effect.coherent, ?_⟩
  intro m x
  by_cases own : m = r.trie
  · subst own
    have grown : routesOf (routes ++ [r]) r.trie = routesOf routes r.trie ++ [r] := by simp [routesOf]
    rw [grown, best_extend]
    by_cases covers : r.covers x
    · rw [effect.inside x ((valid.covers_args x).mpr covers), entries]
      exact replace_leafOf r x _ covers
    · rw [effect.outside r.trie x (.inr (mt (valid.covers_args x).mp covers)), entries, better, if_neg (by simp [covers])]
  · have same : routesOf (routes ++ [r]) m = routesOf routes m := by simp [routesOf, Ne.symm own]
    rw [same, effect.outside m x (.inl own), entries]

theorem addRoutes_represents (bounded : capacity ≤ 2 ^ 31) (plies : Nat → Ply8) (routes : List Route)
    (valid : ∀ r ∈ routes, r.Valid) :
    Ends (· = .exhausted) (Represents capacity routes) (addRoutes capacity routes (initial plies)) := by
  induction routes using List.reverseRecOn with
  | nil => exact ⟨_, initial_coherent capacity plies, fun _ _ => rfl⟩
  | append_singleton routes r ih =>
    rw [addRoutes, List.foldlM_append]
    apply (ih fun q member => valid q (List.mem_append_left _ member)).bind
    intro s represents
    apply Ends.bind (add_represents bounded (valid r (by simp)) represents)
    exact fun t represents => represents

theorem represents_lookup {routes : List Route} (valid : ∀ r ∈ routes, r.Valid) (represents : Represents capacity routes s)
    {x : Nat} (small : x < 2 ^ 32) : ∃ leaf, lookup capacity s m x = .ok leaf ∧ leafIsTerminal leaf = true ∧
      ((∃ r, Chosen Route.covers Route.dstAddressLength (routesOf routes m) x r ∧ leaf >>> 1 = r.adjIndex) ∨
        (∀ r ∈ routesOf routes m, ¬ r.covers x) ∧ leaf >>> 1 = 0) := by
  obtain ⟨nodes, ok, entries⟩ := represents
  obtain ⟨found, terminal⟩ := lookup_entry (m := m) ok small
  refine ⟨_, found, terminal, ?_⟩
  have chosen := best_spec Route.covers Route.dstAddressLength (routesOf routes m) x
  rw [entries, Nat.shiftRight_eq_div_pow]
  cases matched : best Route.covers Route.dstAddressLength (routesOf routes m) x with
  | none =>
    rw [matched] at chosen
    exact .inr ⟨chosen, rfl⟩
  | some r =>
    rw [matched] at chosen
    have member : r ∈ routes := by
      obtain ⟨before, after, split, _⟩ := chosen
      have : r ∈ routesOf routes m := split ▸ List.mem_append_right _ List.mem_cons_self
      exact List.mem_of_mem_filter this
    exact .inl ⟨r, chosen, leafSetAdjIndex_half (valid r member).adjacency⟩

/-- Adding routes fails only when the pool is exhausted. Then the lookup of an address ends
in a terminal leaf with the adjacency of the last one of the longest routes of the trie
that match, or 0 if there is none; and a further route of one trie leaves the lookups in
all other tries as they are. -/
theorem lookup_longest_match (bounded : capacity ≤ 2 ^ 31) (plies : Nat → Ply8) (routes : List Route)
    (valid : ∀ r ∈ routes, r.Valid) :
    (∀ e, addRoutes capacity routes (initial plies) = .error e → e = .exhausted) ∧
    ∀ s, addRoutes capacity routes (initial plies) = .ok s →
      (∀ m, ∀ x < 2 ^ 32, ∃ leaf, lookup capacity s m x = .ok leaf ∧ leafIsTerminal leaf = true ∧
        ((∃ r, Chosen Route.covers Route.dstAddressLength (routesOf routes m) x r ∧ leaf >>> 1 = r.adjIndex) ∨
          (∀ r ∈ routesOf routes m, ¬ r.covers x) ∧ leaf >>> 1 = 0)) ∧
      ∀ (r : Route) t, r.Valid →
        ip4FibMtrieRouteAdd capacity r.trie r.dstAddress r.dstAddressLength r.adjIndex s = .ok t →
        ∀ m ≠ r.trie, ∀ x < 2 ^ 32, lookup capacity t m x = lookup capacity s m x := by
  have ends := addRoutes_represents bounded plies routes valid
  refine ⟨fun e failed => ends.of_error failed, ?_⟩
  intro s added
  have represents := ends.of_ok added
  refine ⟨fun m x small => represents_lookup valid represents small, ?_⟩
  intro r t new more m other x small
  obtain ⟨nodes, ok, _⟩ := represents
  obtain ⟨nodes', effect⟩ := (setRootLeaf_spec (m := r.trie) bounded new.masked ok).of_ok more
  rw [(lookup_entry effect.coherent small).1, (lookup_entry ok small).1, effect.outside m x (.inl other)]

end Runs

section Sample

/-- Four routes of one trie, each inside the one before, and one of another. The last two need a ply each. -/
def sampleRoutes : List Route :=
  [⟨0, 2 ^ 24, 8, 3⟩, ⟨1, 0, 0, 7⟩, ⟨0, 2 ^ 24 + 2 ^ 16, 16, 5⟩, ⟨0, 2 ^ 24 + 2 ^ 16 + 2 ^ 12, 20, 9⟩,
    ⟨0, 2 ^ 24 + 2 ^ 16 + 2 ^ 12 + 2 ^ 4, 28, 11⟩]

def samplePlies : Nat → Ply8 := fun _ => ply8Init 1 0 0

theorem sampleRoutes_valid : ∀ r ∈ sampleRoutes, r.Valid := by
  intro r member
  simp only [sampleRoutes, List.mem_cons, List.not_mem_nil, or_false] at member
  rcases member with rfl | rfl | rfl | rfl | rfl <;> constructor <;> decide

end Sample
end Nfos.Mtrie
