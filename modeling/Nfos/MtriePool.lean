import Nfos.MtrieRuns
import Mathlib.Data.Finset.Card

/-! The pool of the plies: the number of plies that a table of routes takes, and so when the
pool is too small for it. -/
namespace Nfos.Mtrie
open Fallible Function
variable {capacity bound m d p i : Nat} {s t : State} {nodes nodes' : Nodes}

/-- At most `bound` plies are in use at the end, and the pool is exhausted only if it is
smaller. -/
abbrev Draws (capacity bound : Nat) (x : Except Fault State) : Prop :=
  Ends (fun e => e = .exhausted → capacity < bound) (fun t => t.poolIndex ≤ bound) x

section Quiet
variable {α β : Type} {x : Except Fault α}

theorem Draws.after {f : α → Except Fault State} (quiet : x ≠ .error .exhausted)
    (next : ∀ a, x = .ok a → Draws capacity bound (f a)) : Draws capacity bound (x >>= f) := by
  cases x with
  | ok a => exact next a rfl
  | error e =>
    rintro rfl
    exact absurd rfl quiet

theorem assert_quiet (condition : Bool) : assert condition ≠ .error .exhausted := by
  cases condition <;> nofun

theorem borrow_quiet (capacity : Nat) (s : State) (index : Nat) : borrow capacity s index ≠ .error .exhausted := by
  unfold borrow
  split <;> nofun

theorem inPly_quiet (slot : Nat) : inPly slot ≠ .error .exhausted := by
  unfold inPly
  split <;> nofun

theorem leafGetNextPlyIndex_quiet (n : Nat) : leafGetNextPlyIndex n ≠ .error .exhausted := by
  unfold leafGetNextPlyIndex assert
  split <;> nofun

end Quiet

section SetLeaf
variable {a : Args}

theorem setPlyWithMoreSpecificLeaf_draws (capacity new len fuel i : Nat) (least : s.poolIndex ≤ bound) :
    Draws capacity bound (setPlyWithMoreSpecificLeaf capacity new len fuel i s) := by
  induction fuel generalizing i s with
  | zero => nofun
  | succ fuel ih =>
    rw [setPlyWithMoreSpecificLeaf]
    apply Draws.after (assert_quiet _)
    rintro ⟨⟩ _
    apply Ends.forRange (fun _ (t : State) => t.poolIndex ≤ bound) least
    intro b _ t least
    apply Draws.after (borrow_quiet _ _ _)
    intro ply _
    dsimp only
    split
    · apply Draws.after (leafGetNextPlyIndex_quiet _)
      exact fun sub _ => ih sub least
    · split
      · exact least
      · exact least

theorem setLeafHere_draws {descend : Nat → State → Except Fault State} (capacity i b : Nat)
    (below : ∀ j (t : State), t.poolIndex ≤ bound → Draws capacity bound (descend j t)) (least : s.poolIndex ≤ bound) :
    Draws capacity bound (setLeafHere capacity a descend i b s) := by
  apply Draws.after (inPly_quiet _)
  rintro ⟨⟩ _
  apply Draws.after (borrow_quiet _ _ _)
  intro ply _
  dsimp only
  split
  · split
    · exact least
    · apply Draws.after (leafGetNextPlyIndex_quiet _)
      exact fun sub _ => setPlyWithMoreSpecificLeaf_draws _ _ _ _ sub least
  · split
    · apply Draws.after (leafGetNextPlyIndex_quiet _)
      exact fun sub _ => below sub s least
    · exact least

/-- A route that ends in a ply takes no further ply. -/
theorem setLeaf_draws_none (capacity fuel k i : Nat) (short : a.dstAddressLength ≤ 8 * k + 8)
    (least : s.poolIndex ≤ bound) : Draws capacity bound (setLeaf capacity a fuel k i s) := by
  induction fuel generalizing k i s with
  | zero => nofun
  | succ fuel ih =>
    rw [setLeaf]
    apply Draws.after (borrow_quiet _ _ _)
    intro _ _
    apply Draws.after (assert_quiet _)
    rintro ⟨⟩ _
    apply Draws.after (assert_quiet _)
    rintro ⟨⟩ _
    rw [if_pos (by omega)]
    apply Ends.forRange (fun _ (t : State) => t.poolIndex ≤ bound) least
    intro c _ t least
    exact setLeafHere_draws capacity i _ (fun j u least => ih (k + 1) j (by omega) least) least

/-- A longer route takes one, if the slot has none. -/
theorem setLeaf_draws (bounded : capacity ≤ 2 ^ 31) (length : a.dstAddressLength ≤ 32) (fuel i : Nat)
    (least : s.poolIndex ≤ bound)
    (one : 24 < a.dstAddressLength → leafIsTerminal ((s.plies i).leaves (a.dstAddress / 2 ^ 8 % 256)) = true →
      s.poolIndex + 1 ≤ bound) :
    Draws capacity bound (setLeaf capacity a fuel 2 i s) := by
  by_cases short : a.dstAddressLength ≤ 24
  · exact setLeaf_draws_none capacity fuel 2 i short least
  have mask : (a.dstAddress >>> (24 - 8 * 2)) &&& 0xFF = a.dstAddress / 2 ^ 8 % 256 := by
    rw [Nat.shiftRight_eq_div_pow]
    exact Nat.and_two_pow_sub_one_eq_mod _ 8
  cases fuel with
  | zero => nofun
  | succ fuel =>
    rw [setLeaf]
    apply Draws.after (borrow_quiet _ _ _)
    intro _ _
    apply Draws.after (assert_quiet _)
    rintro ⟨⟩ _
    apply Draws.after (assert_quiet _)
    rintro ⟨⟩ _
    rw [if_neg (by omega)]
    apply Draws.after (inPly_quiet _)
    rintro ⟨⟩ _
    apply Draws.after (borrow_quiet _ _ _)
    intro oldPly borrowed
    obtain rfl : s.plies i = oldPly := by
      unfold borrow at borrowed
      split at borrowed
      · exact Except.ok.inj borrowed
      · contradiction
    simp only [mask]
    split
    case isTrue terminal =>
      have space := one (by omega) terminal
      rw [plyCreate_withPly bounded]
      by_cases free : s.poolIndex < capacity
      · rw [if_pos free]
        apply Draws.after (leafGetNextPlyIndex_quiet _)
        intro index _
        apply Draws.after (borrow_quiet _ _ _)
        intro ply _
        apply Draws.after (assert_quiet _)
        rintro ⟨⟩ _
        exact setLeaf_draws_none capacity fuel 3 index (by omega) space
      · rw [if_neg free]
        intro _
        omega
    case isFalse =>
      apply Draws.after (leafGetNextPlyIndex_quiet _)
      exact fun index _ => setLeaf_draws_none capacity fuel 3 index (by omega) least

end SetLeaf

section Count

/-- The plies on the way to the leaves of a route. -/
def Route.needs (r : Route) : Finset (Nat × Nat × Nat) :=
  (if 16 < r.dstAddressLength then {(r.trie, 16, r.dstAddress / 2 ^ 16)} else ∅) ∪
    if 24 < r.dstAddressLength then {(r.trie, 24, r.dstAddress / 2 ^ 8)} else ∅

theorem Route.mem_needs (r : Route) (q : Nat × Nat × Nat) : q ∈ r.needs ↔
    16 < r.dstAddressLength ∧ q = (r.trie, 16, r.dstAddress / 2 ^ 16) ∨
    24 < r.dstAddressLength ∧ q = (r.trie, 24, r.dstAddress / 2 ^ 8) := by
  unfold Route.needs
  rw [Finset.mem_union]
  apply or_congr
  · split <;> simp only [Finset.mem_singleton, Finset.notMem_empty, *, true_and, false_and]
  · split <;> simp only [Finset.mem_singleton, Finset.notMem_empty, *, true_and, false_and]

/-- The plies of a table of routes, each of them once. -/
def needed (routes : List Route) : Finset (Nat × Nat × Nat) := routes.foldl (fun used r => used ∪ r.needs) ∅

/-- The plies in use are those at `used`. -/
structure InUse (capacity : Nat) (s : State) (nodes : Nodes) (used : Finset (Nat × Nat × Nat)) : Prop where
  coherent : Coherent capacity s nodes
  plies : ∀ m d p, nodes m d p ≠ none ↔ (m, d, p) ∈ used
  count : s.poolIndex = used.card

/-- Every ply has an index of its own in the pool. -/
theorem Coherent.card_le (ok : Coherent capacity s nodes) {some : Finset (Nat × Nat × Nat)}
    (present : ∀ m d p, (m, d, p) ∈ some → nodes m d p ≠ none) : some.card ≤ s.poolIndex := by
  have index : ∀ q ∈ some, ∃ i, nodes q.1 q.2.1 q.2.2 = .some i := fun q member =>
    Option.ne_none_iff_exists'.mp (present q.1 q.2.1 q.2.2 member)
  rw [← Finset.card_range s.poolIndex]
  apply Finset.card_le_card_of_injOn fun q => (nodes q.1 q.2.1 q.2.2).getD 0
  · intro q member
    obtain ⟨i, found⟩ := index q member
    simpa [found] using (ok.known found).1
  · intro q member q' member' same
    obtain ⟨i, found⟩ := index q member
    obtain ⟨j, found'⟩ := index q' member'
    simp only [found, found', Option.getD_some] at same
    obtain ⟨sameTrie, sameDepth, samePrefix⟩ := ok.unique found (same ▸ found')
    exact Prod.ext sameTrie (Prod.ext sameDepth samePrefix)

/-- An address does not find a leaf longer than the way to the ply of the leaf. -/
theorem Coherent.entry_short (ok : Coherent capacity s nodes) {x : Nat} (small : x < 2 ^ 32) :
    (nodes m 16 (x / 2 ^ 16) = none → (entry s nodes m x).2 ≤ 16) ∧
    (nodes m 24 (x / 2 ^ 8) = none → (entry s nodes m x).2 ≤ 24) := by
  have root := ok.root m (x / 2 ^ 16) (by omega)
  have first : nodes m 16 (x / 2 ^ 16) = none → (entry s nodes m x).2 ≤ 16 := by
    intro free
    rw [free] at root
    rw [ok.entry_root free rfl]
    exact root.2
  refine ⟨first, fun free => ?_⟩
  cases upper : nodes m 16 (x / 2 ^ 16) with
  | none => exact (first upper).trans (by decide)
  | some i =>
    have slot := (ok.ply upper).slots (x / 256 % 256) (Nat.mod_lt _ (by decide))
    have place : x / 2 ^ 16 * 256 + x / 256 % 256 = x / 2 ^ 8 := by omega
    rw [place, free] at slot
    rw [ok.entry_slot upper (place ▸ free) (Nat.mod_lt _ (by decide)) (by omega)]
    exact slot.2

end Count

section Step
variable {a : Args} {r : Route} {used : Finset (Nat × Nat × Nat)}

theorem setRootLeaf_draws (bounded : capacity ≤ 2 ^ 31) (masked : Masked a) (ok : Coherent capacity s nodes)
    (least : s.poolIndex ≤ bound)
    (first : 16 < a.dstAddressLength → nodes m 16 (a.dstAddress / 2 ^ 16) = none → s.poolIndex + 1 ≤ bound)
    (second : 24 < a.dstAddressLength → nodes m 24 (a.dstAddress / 2 ^ 8) = none → s.poolIndex + 1 ≤ bound)
    (both : 24 < a.dstAddressLength → nodes m 16 (a.dstAddress / 2 ^ 16) = none → s.poolIndex + 2 ≤ bound) :
    Draws capacity bound (setRootLeaf capacity m a s) := by
  have length := masked.length
  have small := masked.small
  have mask : (a.dstAddress >>> 16) &&& 0xFFFF = a.dstAddress / 2 ^ 16 := by
    rw [Nat.shiftRight_eq_div_pow, show 0xFFFF = 2 ^ 16 - 1 by rfl, Nat.and_two_pow_sub_one_eq_mod]
    omega
  have held := ok.root m (a.dstAddress / 2 ^ 16) (by omega)
  rw [setRootLeaf]
  apply Draws.after (assert_quiet _)
  rintro ⟨⟩ _
  simp only [mask]
  by_cases short : a.dstAddressLength ≤ 16
  · rw [if_pos (by omega)]
    apply Ends.forRange (fun _ (t : State) => t.poolIndex ≤ bound) least
    intro c _ t least
    rw [setRootLeafHere]
    dsimp only
    split
    · split
      · exact least
      · apply Draws.after (leafGetNextPlyIndex_quiet _)
        exact fun sub _ => setPlyWithMoreSpecificLeaf_draws _ _ _ _ sub least
    · split
      · apply Draws.after (leafGetNextPlyIndex_quiet _)
        exact fun sub _ => setLeaf_draws_none capacity 4 2 sub (by omega) least
      · exact least
  · rw [if_neg (by omega)]
    cases child : nodes m 16 (a.dstAddress / 2 ^ 16) with
    | none =>
      have space := first (by omega) child
      rw [child] at held
      rw [leafIsTerminal_odd held.1, if_pos rfl, plyCreate_spec bounded]
      by_cases free : s.poolIndex < capacity
      · rw [if_pos free]
        apply Draws.after (leafGetNextPlyIndex_quiet _)
        intro index _
        exact setLeaf_draws bounded length 4 index space fun long _ => both long child
      · rw [if_neg free]
        intro _
        omega
    | some j =>
      rw [child] at held
      rw [held.1, leafIsTerminal_even, if_neg (by decide), leafGetNextPlyIndex_even]
      apply setLeaf_draws bounded length 4 j least
      intro long terminal
      apply second long
      -- the slot of the second ply holds a leaf, so it leads to no third one
      have slot := (ok.ply child).slots (a.dstAddress / 2 ^ 8 % 256) (Nat.mod_lt _ (by decide))
      rw [show a.dstAddress / 2 ^ 16 * 256 + a.dstAddress / 2 ^ 8 % 256 = a.dstAddress / 2 ^ 8 by omega] at slot
      cases below : nodes m 24 (a.dstAddress / 2 ^ 8) with
      | none => rfl
      | some k =>
        rw [below] at slot
        rw [slot.1, leafIsTerminal_even] at terminal
        contradiction

theorem Route.Valid.upper (valid : r.Valid) :
    (16 ≤ r.dstAddressLength → r.args.dstAddress / 2 ^ 16 = r.dstAddress / 2 ^ 16) ∧
    (24 ≤ r.dstAddressLength → r.args.dstAddress / 2 ^ 8 = r.dstAddress / 2 ^ 8) := by
  have above : ∀ k, 32 - r.dstAddressLength ≤ k → r.args.dstAddress / 2 ^ k = r.dstAddress / 2 ^ k := by
    intro k least
    have split : 2 ^ k = 2 ^ (32 - r.dstAddressLength) * 2 ^ (k - (32 - r.dstAddressLength)) := by
      rw [← Nat.pow_add]
      congr 1
      omega
    rw [valid.args_eq, split, ← Nat.div_div_eq_div_mul, ← Nat.div_div_eq_div_mul,
      Nat.mul_div_cancel _ (Nat.two_pow_pos _)]
  exact ⟨fun long => above 16 (by omega), fun long => above 8 (by omega)⟩

/-- There is room for the plies that the route lacks. -/
theorem InUse.draws (bounded : capacity ≤ 2 ^ 31) (valid : r.Valid) (inUse : InUse capacity s nodes used) :
    Draws capacity (used ∪ r.needs).card (setRootLeaf capacity r.trie r.args s) := by
  have upper := valid.upper
  have fresh : ∀ {d p}, nodes r.trie d p = none → (r.trie, d, p) ∉ used := fun free member =>
    (inUse.plies _ _ _).mpr member free
  have grows : ∀ {more : Finset (Nat × Nat × Nat)}, more ⊆ r.needs → (used ∪ more).card ≤ (used ∪ r.needs).card :=
    fun within => Finset.card_le_card (Finset.union_subset_union_right within)
  have one : ∀ {d p}, (r.trie, d, p) ∈ r.needs → nodes r.trie d p = none → s.poolIndex + 1 ≤ (used ∪ r.needs).card := by
    intro d p member free
    rw [inUse.count, ← Finset.card_insert_of_notMem (fresh free), Finset.insert_eq, Finset.union_comm]
    exact grows (Finset.singleton_subset_iff.mpr member)
  apply setRootLeaf_draws bounded valid.masked inUse.coherent
  · rw [inUse.count]
    exact Finset.card_le_card Finset.subset_union_left
  · intro long free
    rw [upper.1 (Nat.le_of_lt long)] at free
    exact one ((r.mem_needs _).mpr (.inl ⟨long, rfl⟩)) free
  · intro long free
    rw [upper.2 (Nat.le_of_lt long)] at free
    exact one ((r.mem_needs _).mpr (.inr ⟨long, rfl⟩)) free
  · intro (long : 24 < r.dstAddressLength) free
    rw [upper.1 (by omega)] at free
    have lower : nodes r.trie 24 (r.dstAddress / 2 ^ 8) = none := by
      by_contra some
      obtain ⟨j, found⟩ := Option.ne_none_iff_exists'.mp some
      apply inUse.coherent.above found
      rw [← free]
      congr 1
      omega
    have two : ({(r.trie, 16, r.dstAddress / 2 ^ 16), (r.trie, 24, r.dstAddress / 2 ^ 8)} : Finset _) ⊆ r.needs := by
      intro q member
      rw [Finset.mem_insert, Finset.mem_singleton] at member
      exact (r.mem_needs q).mpr (member.imp (fun same => ⟨by omega, same⟩) fun same => ⟨long, same⟩)
    have apart : Disjoint used {(r.trie, 16, r.dstAddress / 2 ^ 16), (r.trie, 24, r.dstAddress / 2 ^ 8)} := by
      rw [Finset.disjoint_insert_right, Finset.disjoint_singleton_right]
      exact ⟨fresh free, fresh lower⟩
    have size := grows two
    rw [Finset.card_union_of_disjoint apart, Finset.card_pair (by simp), ← inUse.count] at size
    exact size

/-- After the addition of a route the plies on its way are there. -/
theorem Effect.needs_present (valid : r.Valid) (small : r.args.dstAddress < 2 ^ 32)
    (effect : Effect capacity r.trie (leafSetAdjIndex r.adjIndex) r.dstAddressLength (Covers r.args) s nodes t nodes') :
    ∀ m d p, (m, d, p) ∈ r.needs → nodes' m d p ≠ none := by
  have upper := valid.upper
  have inside := effect.inside r.args.dstAddress rfl
  have long : r.dstAddressLength ≤ (entry t nodes' r.trie r.args.dstAddress).2 := by
    rw [inside, replace]
    split
    · exact Nat.le_refl _
    · omega
  have short := effect.coherent.entry_short (m := r.trie) small
  intro m d p member free
  rcases (r.mem_needs _).mp member with ⟨longer, same⟩ | ⟨longer, same⟩
  · obtain ⟨rfl, rfl, rfl⟩ : m = _ ∧ d = _ ∧ p = _ := by simpa only [Prod.mk.injEq] using same
    rw [← upper.1 (Nat.le_of_lt longer)] at free
    have := short.1 free
    omega
  · obtain ⟨rfl, rfl, rfl⟩ : m = _ ∧ d = _ ∧ p = _ := by simpa only [Prod.mk.injEq] using same
    rw [← upper.2 (Nat.le_of_lt longer)] at free
    have := short.2 free
    omega

/-- Adding a route takes exactly the plies that it lacks, or fails for want of them. -/
theorem InUse.add (bounded : capacity ≤ 2 ^ 31) (valid : r.Valid) (inUse : InUse capacity s nodes used) :
    Ends (fun _ => capacity < (used ∪ r.needs).card)
      (fun t => ∃ nodes', InUse capacity t nodes' (used ∪ r.needs))
      (ip4FibMtrieRouteAdd capacity r.trie r.dstAddress r.dstAddressLength r.adjIndex s) := by
  have offers := setRootLeaf_spec (m := r.trie) bounded valid.masked inUse.coherent
  have draws := inUse.draws bounded valid
  rw [ip4FibMtrieRouteAdd]
  change Ends _ _ (setRootLeaf capacity r.trie r.args s)
  cases returned : setRootLeaf capacity r.trie r.args s with
  | error e =>
    rw [returned] at offers draws
    exact draws offers
  | ok t =>
    rw [returned] at offers draws
    obtain ⟨nodes', effect⟩ := offers
    have present : ∀ m d p, (m, d, p) ∈ used ∪ r.needs → nodes' m d p ≠ none := by
      intro m d p member
      rcases Finset.mem_union.mp member with old | new
      · obtain ⟨i, found⟩ := Option.ne_none_iff_exists'.mp ((inUse.plies m d p).mpr old)
        rw [effect.grows found]
        exact Option.some_ne_none i
      · exact effect.needs_present valid valid.masked.small m d p new
    have most : t.poolIndex ≤ (used ∪ r.needs).card := draws
    refine ⟨nodes', effect.coherent, fun m d p => ⟨fun some => ?_, present m d p⟩, ?_⟩
    · -- one more ply would have an index beyond the ones drawn
      by_contra other
      have more : (insert (m, d, p) (used ∪ r.needs)).card ≤ t.poolIndex := effect.coherent.card_le fun m' d' p' member => by
        rcases Finset.mem_insert.mp member with same | old
        · obtain ⟨rfl, rfl, rfl⟩ := by simpa using same
          exact some
        · exact present m' d' p' old
      rw [Finset.card_insert_of_notMem other] at more
      omega
    · exact Nat.le_antisymm most (effect.coherent.card_le present)

end Step

section Runs
variable {routes : List Route}

theorem needed_extend (routes : List Route) (r : Route) : needed (routes ++ [r]) = needed routes ∪ r.needs := by
  simp [needed, List.foldl_append]

theorem initial_inUse (capacity : Nat) (plies : Nat → Ply8) :
    InUse capacity (initial plies) (fun _ _ _ => none) ∅ :=
  ⟨initial_coherent capacity plies, fun _ _ _ => by simp, rfl⟩

theorem addRoutes_inUse (bounded : capacity ≤ 2 ^ 31) (plies : Nat → Ply8) (routes : List Route)
    (valid : ∀ r ∈ routes, r.Valid) :
    Ends (fun _ => capacity < (needed routes).card) (fun s => ∃ nodes, InUse capacity s nodes (needed routes))
      (addRoutes capacity routes (initial plies)) := by
  induction routes using List.reverseRecOn with
  | nil => exact ⟨_, initial_inUse capacity plies⟩
  | append_singleton routes r ih =>
    rw [addRoutes, List.foldlM_append, needed_extend]
    have before := ih fun q member => valid q (List.mem_append_left _ member)
    have wider : (needed routes).card ≤ (needed routes ∪ r.needs).card := Finset.card_le_card Finset.subset_union_left
    cases added : addRoutes capacity routes (initial plies) with
    | error e =>
      rw [added] at before
      rw [addRoutes] at added
      rw [added]
      exact Nat.lt_of_lt_of_le before wider
    | ok s =>
      rw [added] at before
      rw [addRoutes] at added
      rw [added]
      obtain ⟨nodes, inUse⟩ := before
      apply Ends.bind (inUse.add bounded (valid r (by simp)))
      exact fun t used => used

theorem addRoutes_ok (bounded : capacity ≤ 2 ^ 31) (plies : Nat → Ply8) (routes : List Route)
    (valid : ∀ r ∈ routes, r.Valid) (enough : (needed routes).card ≤ capacity) :
    ∃ s, addRoutes capacity routes (initial plies) = .ok s := by
  have ends := addRoutes_inUse bounded plies routes valid
  cases added : addRoutes capacity routes (initial plies) with
  | error e =>
    rw [added] at ends
    exact absurd enough (Nat.not_le.mpr ends)
  | ok s => exact ⟨s, rfl⟩

/-- A table of routes is built if and only if the pool has a ply for every prefix of 16 bits
that leads to a longer route of a trie and for every one of 24 bits. Then exactly these plies
are in use, whatever the order of the routes. -/
theorem pool_suffices_iff (bounded : capacity ≤ 2 ^ 31) (plies : Nat → Ply8) (routes : List Route)
    (valid : ∀ r ∈ routes, r.Valid) :
    ((∃ s, addRoutes capacity routes (initial plies) = .ok s) ↔ (needed routes).card ≤ capacity) ∧
    ∀ s, addRoutes capacity routes (initial plies) = .ok s → s.poolIndex = (needed routes).card := by
  have used : ∀ s, addRoutes capacity routes (initial plies) = .ok s → ∃ nodes, InUse capacity s nodes (needed routes) := by
    intro s added
    have ends := addRoutes_inUse bounded plies routes valid
    rw [added] at ends
    exact ends
  refine ⟨⟨?_, addRoutes_ok bounded plies routes valid⟩, ?_⟩
  · rintro ⟨s, added⟩
    obtain ⟨nodes, inUse⟩ := used s added
    rw [← inUse.count]
    exact inUse.coherent.pool
  · intro s added
    obtain ⟨nodes, inUse⟩ := used s added
    exact inUse.count

theorem sampleRoutes_needed : (needed sampleRoutes).card = 2 := by decide

theorem pool_suffices_iff_five :
    ((∃ s, addRoutes 1024 sampleRoutes (initial samplePlies) = .ok s) ↔ (needed sampleRoutes).card ≤ 1024) ∧
    (∀ s, addRoutes 1024 sampleRoutes (initial samplePlies) = .ok s → s.poolIndex = (needed sampleRoutes).card) ∧
    (needed sampleRoutes).card = 2 ∧ ¬ ∃ s, addRoutes 1 sampleRoutes (initial samplePlies) = .ok s := by
  obtain ⟨enough, index⟩ := pool_suffices_iff (show 1024 ≤ 2 ^ 31 by decide) samplePlies sampleRoutes sampleRoutes_valid
  obtain ⟨few, _⟩ := pool_suffices_iff (show 1 ≤ 2 ^ 31 by decide) samplePlies sampleRoutes sampleRoutes_valid
  exact ⟨enough, index, sampleRoutes_needed, few.not.mpr (by rw [sampleRoutes_needed]; decide)⟩

/-- All four routes of the trie cover the address that is looked up at the end. -/
theorem lookup_longest_match_of_five :
    (∀ e, addRoutes 1024 sampleRoutes (initial samplePlies) = .error e → e = .exhausted) ∧
    ∃ s, addRoutes 1024 sampleRoutes (initial samplePlies) = .ok s ∧
      (∀ m, ∀ x < 2 ^ 32, ∃ leaf, lookup 1024 s m x = .ok leaf ∧ leafIsTerminal leaf = true ∧
        ((∃ r, LongestMatch.Chosen Route.covers Route.dstAddressLength (routesOf sampleRoutes m) x r ∧ leaf >>> 1 = r.adjIndex) ∨
          (∀ r ∈ routesOf sampleRoutes m, ¬ r.covers x) ∧ leaf >>> 1 = 0)) ∧
      (∀ (r : Route) t, r.Valid →
        ip4FibMtrieRouteAdd 1024 r.trie r.dstAddress r.dstAddressLength r.adjIndex s = .ok t →
        ∀ m ≠ r.trie, ∀ x < 2 ^ 32, lookup 1024 t m x = lookup 1024 s m x) ∧
      ∃ leaf, lookup 1024 s 0 (2 ^ 24 + 2 ^ 16 + 2 ^ 12 + 2 ^ 4 + 1) = .ok leaf ∧ leaf >>> 1 = 11 := by
  obtain ⟨fails, built⟩ := lookup_longest_match (show 1024 ≤ 2 ^ 31 by decide) samplePlies sampleRoutes sampleRoutes_valid
  obtain ⟨s, added⟩ := addRoutes_ok (show 1024 ≤ 2 ^ 31 by decide) samplePlies sampleRoutes sampleRoutes_valid
    (by rw [sampleRoutes_needed]; decide)
  obtain ⟨found, others⟩ := built s added
  refine ⟨fails, s, added, found, others, ?_⟩
  obtain ⟨leaf, looked, _, chosen⟩ := found 0 (2 ^ 24 + 2 ^ 16 + 2 ^ 12 + 2 ^ 4 + 1) (by decide)
  refine ⟨leaf, looked, ?_⟩
  have inTrie : (⟨0, 2 ^ 24 + 2 ^ 16 + 2 ^ 12 + 2 ^ 4, 28, 11⟩ : Route) ∈ routesOf sampleRoutes 0 := by simp [routesOf, sampleRoutes]
  rcases chosen with ⟨r, ⟨before, after, split, _, earlier, later⟩, adjacency⟩ | ⟨none, _⟩
  · have member : r ∈ routesOf sampleRoutes 0 := by
      rw [split]
      simp
    have longest : 28 ≤ r.dstAddressLength := by
      rw [split] at inTrie
      rcases List.mem_append.mp inTrie with front | back
      · exact earlier _ front (by decide)
      · rcases List.mem_cons.mp back with rfl | back
        · exact le_rfl
        · exact (later _ back (by decide)).le
    rw [adjacency]
    simp only [routesOf, sampleRoutes, List.mem_filter, List.mem_cons, List.not_mem_nil, or_false] at member
    obtain ⟨rfl | rfl | rfl | rfl | rfl, _⟩ := member
    · simp at longest
    · simp at longest
    · simp at longest
    · simp at longest
    · rfl
  · exact absurd (by decide) (none _ inTrie)

end Runs

end Nfos.Mtrie
