import Nfos.MtrieInvariant
import Nfos.Lib.LongestMatch
import Mathlib.Algebra.Order.Group.Nat
import Mathlib.Data.Nat.ModEq

/-! Adding a route offers its leaf to the addresses that it covers, and to no others. -/
namespace Nfos.Mtrie
open Fallible Function
variable {capacity m d p i b new len : Nat} {s t : State} {nodes nodes' : Nodes} {D E F : Nat → Prop}

/-- The new leaf is offered to some addresses, and the plies stay coherent. -/
def Offered (capacity m new len : Nat) (D : Nat → Prop) (s : State) (nodes : Nodes) (s' : State) : Prop :=
  ∃ nodes', Effect capacity m new len D s nodes s' nodes'

/-- The pool may be exhausted; nothing else can go wrong. -/
abbrev Offers (capacity m new len : Nat) (D : Nat → Prop) (s : State) (nodes : Nodes) (x : Except Fault State) : Prop :=
  Ends (· = .exhausted) (Offered capacity m new len D s nodes) x

theorem Effect.andThen {x : Except Fault State} (first : Effect capacity m new len D s nodes t nodes')
    (second : Offers capacity m new len E t nodes' x) (both : ∀ x, D x ∨ E x ↔ F x) :
    Offers capacity m new len F s nodes x := by
  apply second.mono
  rintro u ⟨nodes'', effect⟩
  exact ⟨nodes'', (first.trans effect).congr both⟩

theorem Offers.congr {x : Except Fault State} (offers : Offers capacity m new len D s nodes x)
    (same : ∀ x, D x ↔ E x) : Offers capacity m new len E s nodes x := by
  apply offers.mono
  rintro u ⟨nodes', effect⟩
  exact ⟨nodes', effect.congr same⟩

section Leaves

theorem leafIsTerminal_odd {n : Nat} (odd : n % 2 = 1) : leafIsTerminal n = true := by
  simp [leafIsTerminal, Nat.and_one_is_mod, odd]

theorem leafIsTerminal_even (j : Nat) : leafIsTerminal (2 * j) = false := by
  simp [leafIsTerminal, Nat.and_one_is_mod]

theorem leafGetNextPlyIndex_even (j : Nat) : leafGetNextPlyIndex (2 * j) = .ok j := by
  simp [leafGetNextPlyIndex, assert, Nat.and_one_is_mod, Nat.shiftRight_eq_div_pow]
  rfl

theorem leafSetNextPlyIndex_eq {j : Nat} (small : j < 2 ^ 31) : leafSetNextPlyIndex j = .ok (2 * j) := by
  have fits : (0 + 2 * j) % 2 ^ 32 = 2 * j := by omega
  simp only [leafSetNextPlyIndex, fits, leafGetNextPlyIndex_even]
  simp [assert, bind, Except.bind, pure, Except.pure]

theorem leafSetAdjIndex_odd (adj : Nat) : leafSetAdjIndex adj % 2 = 1 := by
  unfold leafSetAdjIndex
  omega

theorem leafSetAdjIndex_half {adj : Nat} (small : adj < 2 ^ 31) : leafSetAdjIndex adj / 2 = adj := by
  unfold leafSetAdjIndex
  omega

theorem Coherent.borrow (ok : Coherent capacity s nodes) (node : nodes m d p = some i) :
    borrow capacity s i = .ok (s.plies i) :=
  if_pos ((ok.known node).1.trans_le ok.pool)

end Leaves

section Blocks

/-- The slots of a ply are those of the addresses that lead to the ply. -/
theorem under_ply (depth : d ≤ 24) (x : Nat) :
    (∃ b < 256, x / 2 ^ (24 - d) = p * 256 + b) ↔ x / 2 ^ (32 - d) = p := by
  have whole : x / 2 ^ (32 - d) = x / 2 ^ (24 - d) / 256 := by
    rw [Nat.div_div_eq_div_mul, show 32 - d = 24 - d + 8 by omega, Nat.pow_add]
  rw [whole]
  constructor
  · rintro ⟨b, below, same⟩
    omega
  · intro same
    exact ⟨x / 2 ^ (24 - d) % 256, Nat.mod_lt _ (by decide), by omega⟩

/-- An aligned block of numbers. -/
theorem block_iff {a k : Nat} (aligned : k ∣ a) (positive : 0 < k) (y : Nat) :
    (∃ c < k, y = a + c) ↔ y / k = a / k := by
  obtain ⟨q, rfl⟩ := aligned
  rw [Nat.mul_div_cancel_left q positive]
  constructor
  · rintro ⟨c, below, rfl⟩
    rw [Nat.mul_add_div positive, Nat.div_eq_of_lt below, Nat.add_zero]
  · rintro rfl
    exact ⟨y % k, Nat.mod_lt y positive, (Nat.div_add_mod y k).symm⟩

theorem aligned_add_le {a c k : Nat} (left : k ∣ a) (right : k ∣ c) (below : a < c) : a + k ≤ c := by
  obtain ⟨q, rfl⟩ := left
  obtain ⟨r, rfl⟩ := right
  have := Nat.lt_of_mul_lt_mul_left below
  calc k * q + k = k * (q + 1) := by rw [Nat.mul_succ]
    _ ≤ k * r := Nat.mul_le_mul_left k this

end Blocks

section MoreSpecific

theorem setPlyWithMoreSpecificLeaf_spec (odd : new % 2 = 1) (fuel : Nat) (ok : Coherent capacity s nodes)
    (node : nodes m d p = some i) (short : len ≤ d) (enough : 24 < d + 8 * fuel) :
    Offers capacity m new len (fun x => x / 2 ^ (32 - d) = p) s nodes
      (setPlyWithMoreSpecificLeaf capacity new len fuel i s) := by
  induction fuel generalizing s nodes d p i with
  | zero =>
    have := (ok.known node).2
    omega
  | succ fuel ih =>
    have depth : d ≤ 24 := by have := (ok.known node).2; omega
    have asserted : assert (leafIsTerminal new) = .ok () := by rw [leafIsTerminal_odd odd]; rfl
    rw [setPlyWithMoreSpecificLeaf, asserted]
    apply Offers.congr _ (under_ply depth)
    apply Ends.forRange (fun r => Offered capacity m new len (fun x => ∃ b < r, x / 2 ^ (24 - d) = p * 256 + b) s nodes)
    · exact ⟨nodes, ok.unchanged.congr (by simp)⟩
    · rintro b below t ⟨nodes', done⟩
      have ok' := done.coherent
      have node' := done.grows node
      have slot := (ok'.ply node').slots b below
      apply done.andThen (E := fun x => x / 2 ^ (24 - d) = p * 256 + b)
      · simp only [ok'.borrow node', bind, Except.bind]
        cases child : nodes' m (d + 8) (p * 256 + b) with
        | none =>
          rw [child] at slot
          simp only [leafIsTerminal_odd slot.1, Bool.not_true, Bool.false_eq_true, if_false]
          by_cases less : (t.plies i).dstAddressBitsOfLeaves b ≤ len
          · rw [if_pos less]
            refine ⟨nodes', ok'.write node' below child odd (by omega) less ?_⟩
            have empty : leafIsNonEmpty (t.plies i) b = 0 := by
              simp only [leafIsNonEmpty, (ok'.ply node').base]
              exact if_neg (by omega)
            rw [empty, Int.sub_zero]
            rfl
          · rw [if_neg less]
            exact ⟨nodes', ok'.keep node' below child (by omega)⟩
        | some j =>
          rw [child] at slot
          simp only [slot.1, leafIsTerminal_even, Bool.not_false, if_true, leafGetNextPlyIndex_even]
          have := ih ok' child (by omega) (by omega)
          rwa [show 32 - (d + 8) = 24 - d by omega] at this
      · intro x
        exact Nat.exists_lt_succ_right.symm

end MoreSpecific

section SetLeaf
variable {a : Args}

/-- The first bits of the address are those of the route. -/
def Covers (a : Args) (x : Nat) : Prop :=
  x / 2 ^ (32 - a.dstAddressLength) = a.dstAddress / 2 ^ (32 - a.dstAddressLength)

/-- The address of a route has no bits beyond its length. -/
structure Masked (a : Args) : Prop where
  small : a.dstAddress < 2 ^ 32
  length : a.dstAddressLength ≤ 32
  aligned : 2 ^ (32 - a.dstAddressLength) ∣ a.dstAddress

/-- The route covers what leads to the ply, or leads to the ply itself. -/
structure Leads (a : Args) (d p : Nat) : Prop where
  short : a.dstAddressLength ≤ d → ∀ x, x / 2 ^ (32 - d) = p → Covers a x
  long : d < a.dstAddressLength → a.dstAddress / 2 ^ (32 - d) = p

theorem Covers.shorter {x e : Nat} (covers : Covers a x) (shorter : e ≤ a.dstAddressLength) (length : a.dstAddressLength ≤ 32) :
    x / 2 ^ (32 - e) = a.dstAddress / 2 ^ (32 - e) := by
  have split : 2 ^ (32 - e) = 2 ^ (32 - a.dstAddressLength) * 2 ^ (a.dstAddressLength - e) := by
    rw [← Nat.pow_add]
    congr 1
    omega
  unfold Covers at covers
  rw [split, ← Nat.div_div_eq_div_mul, ← Nat.div_div_eq_div_mul, covers]

theorem setLeafHere_spec {descend : Nat → State → Except Fault State} (ok : Coherent capacity s nodes)
    (node : nodes m d p = some i) (slot : b < 256) (short : a.dstAddressLength ≤ d + 8)
    (below : ∀ {t nodes' j}, Coherent capacity t nodes' → nodes' m (d + 8) (p * 256 + b) = some j →
      a.dstAddressLength < d + 8 →
      Offers capacity m (leafSetAdjIndex a.adjIndex) a.dstAddressLength (fun x => x / 2 ^ (24 - d) = p * 256 + b) t nodes'
        (descend j t)) :
    Offers capacity m (leafSetAdjIndex a.adjIndex) a.dstAddressLength (fun x => x / 2 ^ (24 - d) = p * 256 + b) s nodes
      (setLeafHere capacity a descend i b s) := by
  have odd := leafSetAdjIndex_odd a.adjIndex
  have inside : inPly b = .ok () := if_pos slot
  have held := (ok.ply node).slots b slot
  simp only [setLeafHere, inside, ok.borrow node, bind, Except.bind]
  cases child : nodes m (d + 8) (p * 256 + b) with
  | none =>
    rw [child] at held
    simp only [leafIsTerminal_odd held.1, if_true, Bool.not_true, Bool.false_eq_true, if_false]
    by_cases less : (s.plies i).dstAddressBitsOfLeaves b ≤ a.dstAddressLength
    · rw [if_pos less]
      refine ⟨nodes, ok.write node slot child odd short less ?_⟩
      simp [Ply8.addNonEmpty, Ply8.write, leafIsNonEmpty]
      rfl
    · rw [if_neg less]
      exact ⟨nodes, ok.keep node slot child (by omega)⟩
  | some j =>
    rw [child] at held
    simp only [held.1, held.2, leafIsTerminal_even, Bool.false_eq_true, if_false, Bool.not_false, if_true,
      leafGetNextPlyIndex_even]
    by_cases whole : d + 8 ≤ a.dstAddressLength
    · rw [if_pos whole]
      have depth := (ok.known child).2
      have := setPlyWithMoreSpecificLeaf_spec odd 4 ok child short (by omega)
      rwa [show 32 - (d + 8) = 24 - d by omega] at this
    · rw [if_neg whole]
      exact below ok child (by omega)

/-- The slots that a route fills in a ply are inside of it and those of the addresses
that it covers. -/
theorem filled_slots (masked : Masked a) (leads : Leads a d p) (depth : d ≤ 24) (short : a.dstAddressLength ≤ d + 8)
    {dstByte bits : Nat} (byte : dstByte = a.dstAddress / 2 ^ (24 - d) % 256)
    (width : bits = min 8 (d + 8 - a.dstAddressLength)) :
    dstByte + 2 ^ bits ≤ 256 ∧ ∀ x, (∃ c < 2 ^ bits, x / 2 ^ (24 - d) = p * 256 + (dstByte + c)) ↔
      x / 2 ^ (32 - d) = p ∧ Covers a x := by
  by_cases above : a.dstAddressLength ≤ d
  · have eight : bits = 8 := by omega
    have zero : dstByte = 0 := by
      have aligned : 2 ^ (24 - d) * 256 ∣ a.dstAddress := by
        refine Nat.dvd_trans ?_ masked.aligned
        rw [show (256 : Nat) = 2 ^ 8 by rfl, ← Nat.pow_add]
        exact Nat.pow_dvd_pow 2 (by omega)
      obtain ⟨q, same⟩ := aligned
      rw [byte, same, Nat.mul_assoc, Nat.mul_div_cancel_left _ (Nat.two_pow_pos _), Nat.mul_mod_right]
    subst eight zero
    refine ⟨by decide, fun x => ?_⟩
    simp only [Nat.zero_add, show 2 ^ 8 = 256 by rfl]
    rw [under_ply depth]
    exact ⟨fun same => ⟨same, leads.short above x same⟩, And.left⟩
  · have exact' : bits = d + 8 - a.dstAddressLength := by omega
    have split : 2 ^ (32 - a.dstAddressLength) = 2 ^ (24 - d) * 2 ^ bits := by
      rw [← Nat.pow_add]
      congr 1
      omega
    have place : a.dstAddress / 2 ^ (24 - d) = p * 256 + dstByte := by
      have upper := leads.long (by omega)
      rw [show 32 - d = 24 - d + 8 by omega, Nat.pow_add, ← Nat.div_div_eq_div_mul] at upper
      omega
    have aligned : 2 ^ bits ∣ p * 256 + dstByte := by
      obtain ⟨q, same⟩ := masked.aligned
      rw [← place, same, split, Nat.mul_assoc, Nat.mul_div_cancel_left _ (Nat.two_pow_pos _)]
      exact Nat.dvd_mul_right _ q
    have divides : 2 ^ bits ∣ 256 := by
      rw [show (256 : Nat) = 2 ^ 8 by rfl]
      exact Nat.pow_dvd_pow 2 (by omega)
    have low : 2 ^ bits ∣ dstByte := (Nat.dvd_add_right (Nat.dvd_mul_left_of_dvd divides p)).mp aligned
    have byteLt : dstByte < 256 := by rw [byte]; exact Nat.mod_lt _ (by decide)
    have fits : dstByte + 2 ^ bits ≤ 256 := aligned_add_le low divides byteLt
    refine ⟨fits, fun x => ?_⟩
    have covers : Covers a x ↔ x / 2 ^ (24 - d) / 2 ^ bits = (p * 256 + dstByte) / 2 ^ bits := by
      rw [Covers, split, ← Nat.div_div_eq_div_mul, ← Nat.div_div_eq_div_mul, place]
    rw [covers, ← block_iff aligned (Nat.two_pow_pos _)]
    simp only [← Nat.add_assoc]
    constructor
    · rintro ⟨c, below, same⟩
      have slot : dstByte + c < 256 := Nat.lt_of_lt_of_le (Nat.add_lt_add_left below dstByte) fits
      exact ⟨(under_ply depth x).mp ⟨dstByte + c, slot, same.trans (Nat.add_assoc ..)⟩, c, below, same⟩
    · exact And.right

theorem plyCreate_spec (bounded : capacity ≤ 2 ^ 31) (s : State) (leaf bits base : Nat) :
    plyCreate capacity s leaf bits base =
      if s.poolIndex < capacity then .ok (2 * s.poolIndex, s.create leaf bits base) else .error .exhausted := by
  unfold plyCreate mtrieVectorGet
  by_cases space : s.poolIndex < capacity
  · have index := leafSetNextPlyIndex_eq (Nat.lt_of_lt_of_le space bounded)
    simp only [if_pos space, bind, Except.bind, pure, Except.pure, index]
    rfl
  · simp only [if_neg space]
    rfl

theorem assert_true {condition : Bool} (holds : condition = true) : assert condition = .ok () := by
  rw [holds]
  rfl

theorem plyCreate_withPly (bounded : capacity ≤ 2 ^ 31) (s : State) (i : Nat) (ply : Ply8) (leaf bits base : Nat) :
    plyCreate capacity (s.withPly i ply) leaf bits base =
      if s.poolIndex < capacity then .ok (2 * s.poolIndex, (s.withPly i ply).create leaf bits base)
      else .error .exhausted :=
  plyCreate_spec bounded (s.withPly i ply) leaf bits base

theorem withPly_create (s : State) (first second : Ply8) (leaf bits base : Nat) (apart : i ≠ s.poolIndex) :
    ((s.withPly i first).create leaf bits base).withPly i second = (s.create leaf bits base).withPly i second := by
  simp only [State.withPly, State.create, State.mk.injEq, true_and, and_true]
  rw [update_comm apart, update_idem, update_comm (Ne.symm apart)]

theorem setLeaf_spec (bounded : capacity ≤ 2 ^ 31) (masked : Masked a) (fuel k : Nat) (ok : Coherent capacity s nodes)
    (node : nodes m (8 * k) p = some i) (leads : Leads a (8 * k) p) (enough : 4 ≤ k + fuel) :
    Offers capacity m (leafSetAdjIndex a.adjIndex) a.dstAddressLength (fun x => x / 2 ^ (32 - 8 * k) = p ∧ Covers a x) s nodes
      (setLeaf capacity a fuel k i s) := by
  induction fuel generalizing s nodes k p i with
  | zero =>
    have := (ok.known node).2
    omega
  | succ fuel ih =>
    have depth := (ok.known node).2
    have length := masked.length
    obtain ⟨dstByte, byte⟩ : ∃ dstByte, dstByte = a.dstAddress / 2 ^ (24 - 8 * k) % 256 := ⟨_, rfl⟩
    have mask : (a.dstAddress >>> (24 - 8 * k)) &&& 0xFF = dstByte := by
      rw [byte, Nat.shiftRight_eq_div_pow]
      exact Nat.and_two_pow_sub_one_eq_mod _ 8
    have byteLt : dstByte < 256 := byte ▸ Nat.mod_lt _ (by decide)
    rw [setLeaf, ok.borrow node, assert_true (decide_eq_true length), assert_true (decide_eq_true (by omega))]
    simp only [bind, Except.bind, mask]
    by_cases here : a.dstAddressLength ≤ 8 * k + 8
    · rw [if_pos (by omega)]
      set bits := if 8 < -((a.dstAddressLength : Int) - 8 * (k + 1)) then 8
        else (-((a.dstAddressLength : Int) - 8 * (k + 1))).toNat with width
      have least : bits = min 8 (8 * k + 8 - a.dstAddressLength) := by
        rw [width]
        split <;> omega
      have filled := filled_slots masked leads (by omega) here byte least
      apply Offers.congr _ filled.2
      rw [Nat.one_shiftLeft]
      apply Ends.forRange (fun r => Offered capacity m (leafSetAdjIndex a.adjIndex) a.dstAddressLength
        (fun x => ∃ c < r, x / 2 ^ (24 - 8 * k) = p * 256 + (dstByte + c)) s nodes)
      · exact ⟨nodes, ok.unchanged.congr (by simp)⟩
      · rintro c below t ⟨nodes', done⟩
        apply done.andThen (E := fun x => x / 2 ^ (24 - 8 * k) = p * 256 + (dstByte + c))
        · apply setLeafHere_spec done.coherent (done.grows node)
            (Nat.lt_of_lt_of_le (Nat.add_lt_add_left below _) filled.1) here
          intro u nodes'' j ok' child less
          -- the child is below the block of the route
          have covered : ∀ x, x / 2 ^ (24 - 8 * k) = p * 256 + (dstByte + c) → Covers a x :=
            fun x under => ((filled.2 x).mp ⟨c, below, under⟩).2
          rw [show 24 - 8 * k = 32 - 8 * (k + 1) by omega] at covered ⊢
          have := ih (k + 1) ok' child ⟨fun _ => covered, by omega⟩ (by omega)
          exact this.congr fun x => ⟨And.left, fun same => ⟨same, covered x same⟩⟩
        · intro x
          exact Nat.exists_lt_succ_right.symm
    · obtain rfl : k = 2 := by omega
      rw [if_neg (by omega)]
      have upper := leads.long (by omega)
      have further : Leads a (8 * (2 + 1)) (p * 256 + dstByte) := ⟨by omega, by omega⟩
      have sound : ∀ x, x / 2 ^ (32 - 8 * (2 + 1)) = p * 256 + dstByte ∧ Covers a x ↔
          x / 2 ^ (32 - 8 * 2) = p ∧ Covers a x := by
        intro x
        refine and_congr_left fun covers => ?_
        have low := covers.shorter (e := 24) (by omega) length
        omega
      have slot := (ok.ply node).slots _ byteLt
      have inside : inPly dstByte = .ok () := if_pos byteLt
      simp only [inside]
      cases child : nodes m (8 * 2 + 8) (p * 256 + dstByte) with
      | none =>
        rw [child] at slot
        rw [leafIsTerminal_odd slot.1, if_pos rfl, plyCreate_withPly bounded]
        by_cases space : s.poolIndex < capacity
        · rw [if_pos space]
          have apart : i ≠ s.poolIndex := Nat.ne_of_lt (ok.known node).1
          have fetched : ∀ ply leaf bits base, borrow capacity ((s.withPly i ply).create leaf bits base) i = .ok ply := by
            intro ply leaf bits base
            rw [borrow, if_pos ((ok.known node).1.trans_le ok.pool)]
            simp [State.create, State.withPly, update_of_ne apart, pure, Except.pure]
          have one : ∀ ply : Ply8, ply.dstAddressBitsBase = 8 * 2 → ∀ leaf,
              leafIsNonEmpty (ply.write dstByte leaf (8 * (2 + 1))) dstByte = 1 := by
            intro ply base leaf
            simp [leafIsNonEmpty, Ply8.write, base]
          simp only [leafGetNextPlyIndex_even, fetched]
          rw [withPly_create _ _ _ _ _ _ apart, one ((s.plies i).addNonEmpty _) (ok.ply node).base]
          set ply := (((s.plies i).addNonEmpty (-leafIsNonEmpty (s.plies i) dstByte)).write dstByte
            (2 * s.poolIndex) (8 * (2 + 1))).addNonEmpty 1 with linked
          have created : Effect capacity m (leafSetAdjIndex a.adjIndex) a.dstAddressLength (fun _ => False) s nodes _ _ :=
            ok.createBelow space node byteLt child linked rfl
          have count := (created.coherent.ply (created.grows node)).count
          simp only [State.withPly, update_self] at count
          rw [assert_true (decide_eq_true (count ▸ Int.natCast_nonneg _))]
          have rest := ih 3 created.coherent (Nodes.add_self nodes m _ _ _) further (by omega)
          exact created.andThen (rest.congr sound) fun x => iff_of_eq (false_or _)
        · rw [if_neg space]
          rfl
      | some j =>
        rw [child] at slot
        rw [slot.1, leafIsTerminal_even, if_neg (by decide), leafGetNextPlyIndex_even]
        exact (ih 3 ok child further (by omega)).congr sound

end SetLeaf

section Root
variable {a : Args} {slot : Nat}

theorem setRootLeafHere_spec (bounded : capacity ≤ 2 ^ 31) (masked : Masked a) (ok : Coherent capacity s nodes)
    (within : slot < 2 ^ 16) (short : a.dstAddressLength ≤ 16) (covered : ∀ x, x / 2 ^ 16 = slot → Covers a x) :
    Offers capacity m (leafSetAdjIndex a.adjIndex) a.dstAddressLength (fun x => x / 2 ^ 16 = slot) s nodes
      (setRootLeafHere capacity a m slot s) := by
  have odd := leafSetAdjIndex_odd a.adjIndex
  have held := ok.root m slot within
  simp only [setRootLeafHere, bind, Except.bind]
  cases child : nodes m 16 slot with
  | none =>
    rw [child] at held
    simp only [leafIsTerminal_odd held.1, if_true, Bool.not_true, Bool.false_eq_true, if_false]
    by_cases less : (s.roots m).dstAddressBitsOfLeaves slot ≤ a.dstAddressLength
    · rw [if_pos less]
      exact ⟨nodes, ok.writeRoot child odd short less⟩
    · rw [if_neg less]
      exact ⟨nodes, ok.keepRoot child (by omega)⟩
  | some j =>
    rw [child] at held
    simp only [held.1, held.2, leafIsTerminal_even, Bool.false_eq_true, if_false, Bool.not_false, if_true,
      leafGetNextPlyIndex_even]
    by_cases whole : 16 ≤ a.dstAddressLength
    · rw [if_pos whole]
      exact setPlyWithMoreSpecificLeaf_spec odd 4 ok child short (by decide)
    · rw [if_neg whole]
      have leads : Leads a (8 * 2) slot := ⟨fun _ => covered, by omega⟩
      apply (setLeaf_spec bounded masked 4 2 ok child leads (by decide)).congr
      exact fun x => ⟨And.left, fun same => ⟨same, covered x same⟩⟩

theorem setRootLeaf_spec (bounded : capacity ≤ 2 ^ 31) (masked : Masked a) (ok : Coherent capacity s nodes) :
    Offers capacity m (leafSetAdjIndex a.adjIndex) a.dstAddressLength (Covers a) s nodes
      (setRootLeaf capacity m a s) := by
  have length := masked.length
  have small := masked.small
  have mask : (a.dstAddress >>> 16) &&& 0xFFFF = a.dstAddress / 2 ^ 16 := by
    rw [Nat.shiftRight_eq_div_pow, show 0xFFFF = 2 ^ 16 - 1 by rfl, Nat.and_two_pow_sub_one_eq_mod]
    omega
  have byteLt : a.dstAddress / 2 ^ 16 < 2 ^ 16 := by omega
  rw [setRootLeaf, assert_true (decide_eq_true length)]
  simp only [bind, Except.bind, mask]
  by_cases here : a.dstAddressLength ≤ 16
  · rw [if_pos (by omega), Nat.one_shiftLeft]
    have split : 2 ^ (32 - a.dstAddressLength) = 2 ^ 16 * 2 ^ (16 - a.dstAddressLength) := by
      rw [← Nat.pow_add]
      congr 1
      omega
    have aligned : 2 ^ (16 - a.dstAddressLength) ∣ a.dstAddress / 2 ^ 16 := by
      obtain ⟨q, same⟩ := masked.aligned
      rw [same, split, Nat.mul_assoc, Nat.mul_div_cancel_left _ (Nat.two_pow_pos _)]
      exact Nat.dvd_mul_right _ q
    have fits := aligned_add_le aligned (Nat.pow_dvd_pow 2 (Nat.sub_le 16 _)) byteLt
    have covers : ∀ x, (∃ c < 2 ^ (16 - a.dstAddressLength), x / 2 ^ 16 = a.dstAddress / 2 ^ 16 + c) ↔ Covers a x := by
      intro x
      rw [block_iff aligned (Nat.two_pow_pos _), Covers, split, ← Nat.div_div_eq_div_mul, ← Nat.div_div_eq_div_mul]
    apply Offers.congr _ covers
    apply Ends.forRange (fun r => Offered capacity m (leafSetAdjIndex a.adjIndex) a.dstAddressLength
      (fun x => ∃ c < r, x / 2 ^ 16 = a.dstAddress / 2 ^ 16 + c) s nodes)
    · exact ⟨nodes, ok.unchanged.congr (by simp)⟩
    · rintro c below t ⟨nodes', done⟩
      have within : a.dstAddress / 2 ^ 16 + c < 2 ^ 16 := Nat.lt_of_lt_of_le (Nat.add_lt_add_left below _) fits
      rw [Nat.mod_eq_of_lt within]
      apply done.andThen (E := fun x => x / 2 ^ 16 = a.dstAddress / 2 ^ 16 + c)
      · apply setRootLeafHere_spec bounded masked done.coherent within here
        exact fun x same => (covers x).mp ⟨c, below, same⟩
      · intro x
        exact Nat.exists_lt_succ_right.symm
  · rw [if_neg (by omega)]
    have leads : Leads a (8 * 2) (a.dstAddress / 2 ^ 16) := ⟨by omega, fun _ => rfl⟩
    have sound : ∀ x, x / 2 ^ (32 - 8 * 2) = a.dstAddress / 2 ^ 16 ∧ Covers a x ↔ Covers a x := by
      intro x
      refine and_iff_right_of_imp fun covers => ?_
      exact covers.shorter (e := 16) (by omega) length
    have held := ok.root m _ byteLt
    cases child : nodes m 16 (a.dstAddress / 2 ^ 16) with
    | none =>
      rw [child] at held
      rw [leafIsTerminal_odd held.1, if_pos rfl, plyCreate_spec bounded]
      by_cases space : s.poolIndex < capacity
      · rw [if_pos space]
        simp only [leafGetNextPlyIndex_even]
        have created : Effect capacity m (leafSetAdjIndex a.adjIndex) a.dstAddressLength (fun _ => False) s nodes _ _ :=
          ok.createRoot space byteLt child
        have rest := setLeaf_spec bounded masked 4 2 created.coherent (Nodes.add_self nodes m _ _ _) leads (by decide)
        exact created.andThen (rest.congr sound) fun x => iff_of_eq (false_or _)
      · rw [if_neg space]
        rfl
    | some j =>
      rw [child] at held
      rw [held.1, leafIsTerminal_even, if_neg (by decide), leafGetNextPlyIndex_even]
      exact (setLeaf_spec bounded masked 4 2 ok child leads (by decide)).congr sound

end Root

section Lookup
variable {leaf : Nat}

theorem lookupStep_terminal (terminal : leafIsTerminal leaf = true) (x k : Nat) :
    ip4FibMtrieLookupStep capacity s leaf x k = .ok leaf := by
  simp only [ip4FibMtrieLookupStep, terminal, Bool.not_true, Bool.false_eq_true, if_false]
  rfl

theorem lookupStep_ply (ok : Coherent capacity s nodes) (node : nodes m d p = some i) (x k : Nat) :
    ip4FibMtrieLookupStep capacity s (2 * i) x k = .ok ((s.plies i).leaves (x / 2 ^ (24 - 8 * k) % 256)) := by
  have half : (2 * i) >>> 1 = i := by
    rw [Nat.shiftRight_eq_div_pow]
    omega
  have mask : (x >>> (24 - 8 * k)) &&& 0xFF = x / 2 ^ (24 - 8 * k) % 256 := by
    rw [Nat.shiftRight_eq_div_pow]
    exact Nat.and_two_pow_sub_one_eq_mod _ 8
  simp only [ip4FibMtrieLookupStep, leafIsTerminal_even, Bool.not_false, if_true, half, ok.borrow node, mask]
  rfl

/-- The three steps of a lookup end in the terminal leaf of the entry. -/
theorem lookup_entry (ok : Coherent capacity s nodes) {x : Nat} (small : x < 2 ^ 32) :
    lookup capacity s m x = .ok (entry s nodes m x).1 ∧ leafIsTerminal (entry s nodes m x).1 = true := by
  have mask : (x >>> 16) &&& 0xFFFF = x / 2 ^ 16 := by
    rw [Nat.shiftRight_eq_div_pow, show 0xFFFF = 2 ^ 16 - 1 by rfl, Nat.and_two_pow_sub_one_eq_mod]
    omega
  have root := ok.root m (x / 2 ^ 16) (by omega)
  rw [lookup, ip4FibMtrieLookupStepOne, mask]
  cases upper : nodes m 16 (x / 2 ^ 16) with
  | none =>
    rw [upper] at root
    have terminal := leafIsTerminal_odd root.1
    rw [ok.entry_root upper rfl, lookupStep_terminal terminal]
    exact ⟨lookupStep_terminal terminal x 3, terminal⟩
  | some i =>
    rw [upper] at root
    have slot := (ok.ply upper).slots (x / 256 % 256) (Nat.mod_lt _ (by decide))
    rw [show x / 2 ^ 16 * 256 + x / 256 % 256 = x / 256 by omega] at slot
    rw [root.1, lookupStep_ply ok upper]
    cases lower : nodes m 24 (x / 256) with
    | none =>
      rw [lower] at slot
      have terminal := leafIsTerminal_odd slot.1
      rw [ok.entry_slot upper (b := x / 256 % 256) (by rw [← lower]; congr 1; omega) (Nat.mod_lt _ (by decide)) (by omega)]
      exact ⟨lookupStep_terminal terminal x 3, terminal⟩
    | some j =>
      rw [lower] at slot
      have last := (ok.ply lower).slots (x % 256) (Nat.mod_lt _ (by decide))
      have none : nodes m (24 + 8) (x / 256 * 256 + x % 256) = none := by
        by_contra some
        obtain ⟨k, found⟩ := Option.ne_none_iff_exists'.mp some
        have := (ok.known found).2
        omega
      rw [none] at last
      rw [ok.entry_slot lower none (Nat.mod_lt _ (by decide)) (by omega)]
      refine ⟨?_, leafIsTerminal_odd last.1⟩
      have next : (s.plies i).leaves (x / 2 ^ (24 - 8 * 2) % 256) = 2 * j := slot.1
      have final := lookupStep_ply ok lower x 3
      rw [show 24 - 8 * 3 = 0 by rfl, Nat.pow_zero, Nat.div_one] at final
      rw [next]
      exact final

end Lookup
end Nfos.Mtrie
