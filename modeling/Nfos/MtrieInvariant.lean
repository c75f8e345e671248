import Nfos.Mtrie
import Mathlib.Data.Finset.Card
import Mathlib.Data.Nat.Bitwise

/-! The plies of the tries as a forest, and the entry that an address finds in it. -/
namespace Nfos.Mtrie
open Fallible Function
variable {capacity m d p i b new len : Nat} {s s' s'' : State}

/-- The plies by trie and by the prefix, of some length, that leads to them. -/
abbrev Nodes := Nat → Nat → Nat → Option Nat

def Nodes.add (nodes : Nodes) (m d p i : Nat) : Nodes :=
  fun m' d' p' => if m' = m ∧ d' = d ∧ p' = p then some i else nodes m' d' p'

variable {nodes nodes' nodes'' : Nodes}

/-- A slot without a ply below holds a terminal leaf. -/
def SlotOk (child : Option Nat) (depth leaf bits : Nat) : Prop :=
  match child with
  | none => leaf % 2 = 1 ∧ bits ≤ depth
  | some j => leaf = 2 * j ∧ bits = depth

def nonEmpty (base : Nat) (bits : Nat → Nat) : Nat := ((Finset.range 256).filter fun b => base < bits b).card

structure PlyOk (nodes : Nodes) (m d p : Nat) (ply : Ply8) : Prop where
  base : ply.dstAddressBitsBase = d
  count : ply.nNonEmptyLeafs = nonEmpty ply.dstAddressBitsBase ply.dstAddressBitsOfLeaves
  slots : ∀ b < 256, SlotOk (nodes m (d + 8) (p * 256 + b)) (d + 8) (ply.leaves b) (ply.dstAddressBitsOfLeaves b)

structure Coherent (capacity : Nat) (s : State) (nodes : Nodes) : Prop where
  pool : s.poolIndex ≤ capacity
  known : ∀ {m d p i}, nodes m d p = some i → i < s.poolIndex ∧ (d = 16 ∨ d = 24)
  unique : ∀ {m d p m' d' p' i}, nodes m d p = some i → nodes m' d' p' = some i → m = m' ∧ d = d' ∧ p = p'
  above : ∀ {m p j}, nodes m 24 p = some j → nodes m 16 (p / 256) ≠ none
  root : ∀ m, ∀ slot < 2 ^ 16,
    SlotOk (nodes m 16 slot) 16 ((s.roots m).leaves slot) ((s.roots m).dstAddressBitsOfLeaves slot)
  ply : ∀ {m d p i}, nodes m d p = some i → PlyOk nodes m d p (s.plies i)

/-- The leaf and the length that the address finds, in the deepest ply on its way. -/
def entry (s : State) (nodes : Nodes) (m x : Nat) : Nat × Nat :=
  match nodes m 24 (x / 256) with
  | some j => ((s.plies j).leaves (x % 256), (s.plies j).dstAddressBitsOfLeaves (x % 256))
  | none => match nodes m 16 (x / 2 ^ 16) with
    | some i => ((s.plies i).leaves (x / 256 % 256), (s.plies i).dstAddressBitsOfLeaves (x / 256 % 256))
    | none => ((s.roots m).leaves (x / 2 ^ 16), (s.roots m).dstAddressBitsOfLeaves (x / 2 ^ 16))

/-- A leaf replaces the less specific ones. -/
def replace (new len : Nat) (e : Nat × Nat) : Nat × Nat := if e.2 ≤ len then (new, len) else e

theorem replace_replace (new len : Nat) (e : Nat × Nat) :
    replace new len (replace new len e) = replace new len e := by
  unfold replace
  by_cases less : e.2 ≤ len <;> simp [less]

/-- The new leaf has been offered to the addresses in `D` of one trie. -/
structure Effect (capacity m new len : Nat) (D : Nat → Prop) (s : State) (nodes : Nodes) (s' : State)
    (nodes' : Nodes) : Prop where
  coherent : Coherent capacity s' nodes'
  grows : ∀ {m d p i}, nodes m d p = some i → nodes' m d p = some i
  inside : ∀ x, D x → entry s' nodes' m x = replace new len (entry s nodes m x)
  outside : ∀ m' x, m' ≠ m ∨ ¬ D x → entry s' nodes' m' x = entry s nodes m' x

section Effects
variable {D E : Nat → Prop}

theorem Coherent.unchanged (ok : Coherent capacity s nodes) :
    Effect capacity m new len (fun _ => False) s nodes s nodes :=
  ⟨ok, id, fun _ never => never.elim, fun _ _ _ => rfl⟩

theorem Effect.trans (first : Effect capacity m new len D s nodes s' nodes')
    (second : Effect capacity m new len E s' nodes' s'' nodes'') :
    Effect capacity m new len (fun x => D x ∨ E x) s nodes s'' nodes'' := by
  constructor
  case coherent => exact second.coherent
  case grows => exact fun known => second.grows (first.grows known)
  case inside =>
    intro x offered
    by_cases late : E x
    · rw [second.inside x late]
      by_cases early : D x
      · rw [first.inside x early, replace_replace]
      · rw [first.outside m x (.inr early)]
    · rw [second.outside m x (.inr late), first.inside x (offered.resolve_right late)]
  case outside =>
    intro m' x away
    rw [second.outside m' x (away.imp_right fun none late => none (.inr late)),
      first.outside m' x (away.imp_right fun none early => none (.inl early))]

theorem Effect.congr (effect : Effect capacity m new len D s nodes s' nodes') (same : ∀ x, D x ↔ E x) :
    Effect capacity m new len E s nodes s' nodes' := by
  rwa [← funext fun x => propext (same x)]

end Effects

section Slots

/-- The entry of the addresses under a terminal slot. -/
theorem Coherent.entry_slot (ok : Coherent capacity s nodes) (node : nodes m d p = some i)
    (free : nodes m (d + 8) (p * 256 + b) = none) (slot : b < 256) {x : Nat}
    (under : x / 2 ^ (24 - d) = p * 256 + b) :
    entry s nodes m x = ((s.plies i).leaves b, (s.plies i).dstAddressBitsOfLeaves b) := by
  rcases (ok.known node).2 with rfl | rfl
  · have upper : x / 2 ^ 16 = p := by omega
    have lower : x / 256 % 256 = b := by omega
    have here : x / 256 = p * 256 + b := by omega
    simp only [entry, here ▸ free, upper ▸ node, lower]
  · have upper : x / 256 = p := by omega
    have lower : x % 256 = b := by omega
    simp only [entry, upper ▸ node, lower]

theorem Coherent.entry_root (ok : Coherent capacity s nodes) {slot x : Nat} (free : nodes m 16 slot = none)
    (under : x / 2 ^ 16 = slot) :
    entry s nodes m x = ((s.roots m).leaves slot, (s.roots m).dstAddressBitsOfLeaves slot) := by
  have none : nodes m 24 (x / 256) = none := by
    by_contra some
    obtain ⟨j, found⟩ := Option.ne_none_iff_exists'.mp some
    have := ok.above found
    rw [Nat.div_div_eq_div_mul] at this
    exact this (under ▸ free)
  simp only [entry, none, under, free]

/-- The number of leaves that are not empty follows a write. -/
theorem nonEmpty_update (base : Nat) (bits : Nat → Nat) (slot : b < 256) (len : Nat) :
    (nonEmpty base (update bits b len) : Int) =
      nonEmpty base bits - (if bits b > base then 1 else 0) + if len > base then 1 else 0 := by
  have split : ∀ f : Nat → Nat, nonEmpty base f =
      (((Finset.range 256).erase b).filter fun c => base < f c).card + if base < f b then 1 else 0 := by
    intro f
    rw [nonEmpty, ← Finset.insert_erase (Finset.mem_range.mpr slot), Finset.filter_insert,
      Finset.erase_insert_eq_erase]
    split
    · rw [Finset.card_insert_of_notMem (by simp)]
      simp
    · simp
  have rest : ((Finset.range 256).erase b).filter (fun c => base < update bits b len c) =
      ((Finset.range 256).erase b).filter fun c => base < bits c := by
    apply Finset.filter_congr
    intro c member
    rw [update_of_ne (Finset.ne_of_mem_erase member)]
  rw [split (update bits b len), split bits, rest, update_self]
  simp only [gt_iff_lt]
  split_ifs <;> omega

/-- The slot of another address is not the one of the ply. -/
theorem Coherent.entry_other (ok : Coherent capacity s nodes) (node : nodes m d p = some i) (ply : Ply8)
    (others : ∀ c, c ≠ b → ply.leaves c = (s.plies i).leaves c ∧
      ply.dstAddressBitsOfLeaves c = (s.plies i).dstAddressBitsOfLeaves c)
    {m' x : Nat} (away : m' ≠ m ∨ x / 2 ^ (24 - d) ≠ p * 256 + b) :
    entry (s.withPly i ply) nodes m' x = entry s nodes m' x := by
  unfold entry
  split
  · rename_i j found
    by_cases same : j = i
    · subst same
      obtain ⟨rfl, rfl, rfl⟩ := ok.unique node found
      have apart : x % 256 ≠ b := by omega
      simp [State.withPly, others _ apart]
    · simp [State.withPly, update_of_ne same]
  · split
    · rename_i j found
      by_cases same : j = i
      · subst same
        obtain ⟨rfl, rfl, rfl⟩ := ok.unique node found
        have apart : x / 256 % 256 ≠ b := by omega
        simp [State.withPly, others _ apart]
      · simp [State.withPly, update_of_ne same]
    · rfl

/-- A ply is replaced by one that is as good. -/
theorem Coherent.withPly (ok : Coherent capacity s nodes) (node : nodes m d p = some i) {ply : Ply8}
    (good : PlyOk nodes m d p ply) : Coherent capacity (s.withPly i ply) nodes := by
  constructor
  case pool => exact ok.pool
  case known => exact ok.known
  case unique => exact ok.unique
  case above => exact ok.above
  case root => exact ok.root
  case ply =>
    intro m' d' p' j found
    by_cases same : j = i
    · subst same
      obtain ⟨rfl, rfl, rfl⟩ := ok.unique node found
      simpa [State.withPly] using good
    · simpa [State.withPly, update_of_ne same] using ok.ply found

/-- A terminal slot gets a leaf that is at least as specific. -/
theorem Coherent.write (ok : Coherent capacity s nodes) (node : nodes m d p = some i) (slot : b < 256)
    (free : nodes m (d + 8) (p * 256 + b) = none) (odd : new % 2 = 1) (short : len ≤ d + 8)
    (specific : (s.plies i).dstAddressBitsOfLeaves b ≤ len) {n : Int}
    (count : n = (s.plies i).nNonEmptyLeafs - leafIsNonEmpty (s.plies i) b +
      leafIsNonEmpty ((s.plies i).write b new len) b) :
    Effect capacity m new len (fun x => x / 2 ^ (24 - d) = p * 256 + b) s nodes
      (s.withPly i { (s.plies i).write b new len with nNonEmptyLeafs := n }) nodes := by
  have old := ok.ply node
  have good : PlyOk nodes m d p { (s.plies i).write b new len with nNonEmptyLeafs := n } := by
    refine ⟨old.base, ?_, ?_⟩
    · have counted := nonEmpty_update (s.plies i).dstAddressBitsBase (s.plies i).dstAddressBitsOfLeaves slot len
      rw [← old.count] at counted
      simpa [Ply8.write, leafIsNonEmpty, count] using counted.symm
    · intro c below
      by_cases same : c = b
      · subst same
        rw [free]
        simp [SlotOk, Ply8.write, odd, short]
      · simpa [Ply8.write, update_of_ne same] using old.slots c below
  have kept := ok.withPly node good
  constructor
  case coherent => exact kept
  case grows => exact id
  case inside =>
    intro x under
    rw [ok.entry_slot node free slot under, kept.entry_slot node free slot under, replace, if_pos specific]
    simp [State.withPly, Ply8.write]
  case outside =>
    intro m' x away
    apply ok.entry_other node _ _ away
    intro c apart
    simp [Ply8.write, update_of_ne apart]

/-- A terminal slot that is more specific is left alone. -/
theorem Coherent.keep (ok : Coherent capacity s nodes) (node : nodes m d p = some i) (slot : b < 256)
    (free : nodes m (d + 8) (p * 256 + b) = none) (specific : len < (s.plies i).dstAddressBitsOfLeaves b) :
    Effect capacity m new len (fun x => x / 2 ^ (24 - d) = p * 256 + b) s nodes s nodes := by
  refine ⟨ok, id, ?_, fun _ _ _ => rfl⟩
  intro x under
  rw [ok.entry_slot node free slot under, replace, if_neg (Nat.not_le_of_lt specific)]

end Slots

section Roots
variable {slot : Nat}

theorem entry_withRoot (nodes : Nodes) (ply : Ply16)
    (others : ∀ c, c ≠ slot → ply.leaves c = (s.roots m).leaves c ∧
      ply.dstAddressBitsOfLeaves c = (s.roots m).dstAddressBitsOfLeaves c)
    {m' x : Nat} (away : m' ≠ m ∨ x / 2 ^ 16 ≠ slot) :
    entry (s.withRoot m ply) nodes m' x = entry s nodes m' x := by
  unfold entry
  split
  · rfl
  · split
    · rfl
    · by_cases same : m' = m
      · subst same
        have apart : x / 2 ^ 16 ≠ slot := by simpa using away
        simp only [State.withRoot, update_self, others _ apart]
      · simp [State.withRoot, update_of_ne same]

theorem Coherent.writeRoot (ok : Coherent capacity s nodes) (free : nodes m 16 slot = none) (odd : new % 2 = 1)
    (short : len ≤ 16) (specific : (s.roots m).dstAddressBitsOfLeaves slot ≤ len) :
    Effect capacity m new len (fun x => x / 2 ^ 16 = slot) s nodes
      (s.withRoot m ((s.roots m).write slot new len)) nodes := by
  have kept : Coherent capacity (s.withRoot m ((s.roots m).write slot new len)) nodes := by
    refine ⟨ok.pool, ok.known, ok.unique, ok.above, ?_, ok.ply⟩
    intro m' c below
    by_cases same : m' = m
    · subst same
      by_cases here : c = slot
      · subst here
        rw [free]
        simp [SlotOk, State.withRoot, Ply16.write, odd, short]
      · simpa [State.withRoot, Ply16.write, update_of_ne here] using ok.root m' c below
    · simpa [State.withRoot, update_of_ne same] using ok.root m' c below
  constructor
  case coherent => exact kept
  case grows => exact id
  case inside =>
    intro x under
    rw [ok.entry_root free under, kept.entry_root free under, replace, if_pos specific]
    simp [State.withRoot, Ply16.write]
  case outside =>
    intro m' x away
    apply entry_withRoot nodes _ _ away
    intro c apart
    simp [Ply16.write, update_of_ne apart]

theorem Coherent.keepRoot (ok : Coherent capacity s nodes) (free : nodes m 16 slot = none)
    (specific : len < (s.roots m).dstAddressBitsOfLeaves slot) :
    Effect capacity m new len (fun x => x / 2 ^ 16 = slot) s nodes s nodes := by
  refine ⟨ok, id, ?_, fun _ _ _ => rfl⟩
  intro x under
  rw [ok.entry_root free under, replace, if_neg (Nat.not_le_of_lt specific)]

end Roots

section Creation

/-- The state with a new ply, which repeats a leaf of the slot that leads to it. -/
def State.create (s : State) (leaf bits base : Nat) : State :=
  { s.withPly s.poolIndex (ply8Init leaf bits base) with poolIndex := s.poolIndex + 1 }

theorem Nodes.add_self (nodes : Nodes) (m d p i : Nat) : nodes.add m d p i m d p = some i := by simp [Nodes.add]

theorem Nodes.add_other (nodes : Nodes) {m d p : Nat} (i : Nat) {m' d' p' : Nat} (other : ¬ (m' = m ∧ d' = d ∧ p' = p)) :
    nodes.add m d p i m' d' p' = nodes m' d' p' := if_neg other

theorem Nodes.add_grows {m d p i : Nat} (free : nodes m d p = none) {m' d' p' j : Nat}
    (known : nodes m' d' p' = some j) : nodes.add m d p i m' d' p' = some j := by
  rw [Nodes.add_other, known]
  rintro ⟨rfl, rfl, rfl⟩
  rw [free] at known
  contradiction

/-- The new ply is below a slot that had none. -/
structure Fits (nodes : Nodes) (m d p : Nat) : Prop where
  depth : d = 16 ∨ d = 24
  free : nodes m d p = none
  parent : d = 24 → nodes m 16 (p / 256) ≠ none

theorem Coherent.childless (ok : Coherent capacity s nodes) (fits : Fits nodes m d p) (slot : b < 256) :
    nodes m (d + 8) (p * 256 + b) = none := by
  by_contra some
  obtain ⟨j, found⟩ := Option.ne_none_iff_exists'.mp some
  rcases fits.depth with rfl | rfl
  · have above := ok.above found
    rw [show (p * 256 + b) / 256 = p by omega] at above
    exact above fits.free
  · have := (ok.known found).2
    omega

theorem Coherent.create_new (ok : Coherent capacity s nodes) (fits : Fits nodes m d p) {leaf bits : Nat}
    (odd : leaf % 2 = 1) (short : bits ≤ d) :
    PlyOk (nodes.add m d p s.poolIndex) m d p (ply8Init leaf bits d) := by
  constructor
  case base => rfl
  case count =>
    have empty : ¬ d < bits := by omega
    simp [ply8Init, nonEmpty, empty]
  case slots =>
    intro b below
    rw [Nodes.add_other _ _ (by omega), ok.childless fits below]
    exact ⟨odd, by simp only [ply8Init]; omega⟩

/-- The plies that lead elsewhere are as good as before. -/
theorem PlyOk.add {ply : Ply8} {m' d' p' : Nat} (good : PlyOk nodes m d p ply) (i : Nat)
    (away : ∀ b < 256, ¬ (m = m' ∧ d + 8 = d' ∧ p * 256 + b = p')) : PlyOk (nodes.add m' d' p' i) m d p ply := by
  refine ⟨good.base, good.count, ?_⟩
  intro b below
  rw [Nodes.add_other _ _ (away b below)]
  exact good.slots b below

theorem Nodes.add_unique (ok : Coherent capacity s nodes) {m' d' p' m'' d'' p'' j : Nat}
    (first : nodes.add m d p s.poolIndex m' d' p' = some j)
    (second : nodes.add m d p s.poolIndex m'' d'' p'' = some j) : m' = m'' ∧ d' = d'' ∧ p' = p'' := by
  unfold Nodes.add at first second
  split at first
  · obtain rfl := Option.some.inj first
    split at second
    · grind
    · exact absurd (ok.known second).1 (Nat.lt_irrefl _)
  · split at second
    · obtain rfl := Option.some.inj second
      exact absurd (ok.known first).1 (Nat.lt_irrefl _)
    · exact ok.unique first second

theorem Nodes.add_known (ok : Coherent capacity s nodes) (depth : d = 16 ∨ d = 24) {m' d' p' j : Nat}
    (found : nodes.add m d p s.poolIndex m' d' p' = some j) : j < s.poolIndex + 1 ∧ (d' = 16 ∨ d' = 24) := by
  unfold Nodes.add at found
  split at found
  · rename_i same
    obtain rfl := Option.some.inj found
    exact ⟨Nat.lt_succ_self _, same.2.1 ▸ depth⟩
  · have := ok.known found
    exact ⟨by omega, this.2⟩

/-- The slot of a ply that has led to a leaf leads to a new ply of the third level. -/
theorem Coherent.createBelow (ok : Coherent capacity s nodes) (space : s.poolIndex < capacity)
    (node : nodes m 16 p = some i) (slot : b < 256) (free : nodes m 24 (p * 256 + b) = none) {ply : Ply8} {n : Int}
    (linked : ply = { (s.plies i).write b (2 * s.poolIndex) 24 with nNonEmptyLeafs := n })
    (count : n = (s.plies i).nNonEmptyLeafs - leafIsNonEmpty (s.plies i) b + 1) :
    Effect capacity m new len (fun _ => False) s nodes
      ((s.create ((s.plies i).leaves b) ((s.plies i).dstAddressBitsOfLeaves b) 24).withPly i ply)
      (nodes.add m 24 (p * 256 + b) s.poolIndex) := by
  have old := ok.ply node
  have terminal := old.slots b slot
  rw [free] at terminal
  have fits : Fits nodes m 24 (p * 256 + b) := by
    refine ⟨.inr rfl, free, fun _ => ?_⟩
    rw [show (p * 256 + b) / 256 = p by omega, node]
    exact Option.some_ne_none i
  have apart : i ≠ s.poolIndex := Nat.ne_of_lt (ok.known node).1
  constructor
  case grows => exact Nodes.add_grows free
  case coherent =>
    constructor
    case pool => exact space
    case known => exact Nodes.add_known ok (.inr rfl)
    case unique => exact Nodes.add_unique ok
    case above =>
      intro m' p' j found
      rw [Nodes.add_other _ _ (by omega)]
      unfold Nodes.add at found
      split at found
      · rename_i same
        rw [same.1, same.2.2]
        exact fits.parent rfl
      · exact ok.above found
    case root =>
      intro m' c below
      rw [Nodes.add_other _ _ (by omega)]
      exact ok.root m' c below
    case ply =>
      intro m' d' p' j found
      by_cases new : m' = m ∧ d' = 24 ∧ p' = p * 256 + b
      · obtain ⟨rfl, rfl, rfl⟩ := new
        rw [Nodes.add_self] at found
        obtain rfl := Option.some.inj found
        simpa [State.create, State.withPly, update_of_ne (Ne.symm apart)] using ok.create_new fits terminal.1 terminal.2
      · rw [Nodes.add_other _ _ new] at found
        have known := ok.known found
        by_cases same : j = i
        · subst same
          obtain ⟨rfl, rfl, rfl⟩ := ok.unique node found
          simp only [State.withPly, update_self, linked]
          refine ⟨old.base, ?_, ?_⟩
          · have counted := nonEmpty_update (s.plies j).dstAddressBitsBase (s.plies j).dstAddressBitsOfLeaves slot 24
            rw [← old.count] at counted
            rw [count, leafIsNonEmpty]
            simpa [Ply8.write, old.base] using counted.symm
          · intro c below
            by_cases here : c = b
            · subst here
              rw [Nodes.add_self]
              simp [SlotOk, Ply8.write]
            · rw [Nodes.add_other _ _ (by omega)]
              simpa [Ply8.write, update_of_ne here] using old.slots c below
        · simp only [State.withPly, State.create, update_of_ne same, update_of_ne (Nat.ne_of_lt known.1)]
          apply (ok.ply found).add
          rintro c below ⟨rfl, depth, place⟩
          obtain rfl : d' = 16 := by omega
          obtain rfl : p' = p := by omega
          exact same (Option.some.inj (found.symm.trans node))
  case inside => exact fun _ never => never.elim
  case outside =>
    intro m' x _
    by_cases under : m' = m ∧ x / 256 = p * 256 + b
    · obtain ⟨rfl, under⟩ := under
      rw [ok.entry_slot node free slot under]
      simp [entry, under, Nodes.add_self, State.withPly, State.create, update_of_ne (Ne.symm apart), ply8Init]
    · have third : nodes.add m 24 (p * 256 + b) s.poolIndex m' 24 (x / 256) = nodes m' 24 (x / 256) :=
        Nodes.add_other _ _ (by omega)
      have second : nodes.add m 24 (p * 256 + b) s.poolIndex m' 16 (x / 2 ^ 16) = nodes m' 16 (x / 2 ^ 16) :=
        Nodes.add_other _ _ (by omega)
      unfold entry
      rw [third, second]
      split
      · rename_i j found
        have other : j ≠ i := by
          rintro rfl
          have := (ok.unique node found).2.1
          contradiction
        simp [State.withPly, State.create, update_of_ne other, update_of_ne (Nat.ne_of_lt (ok.known found).1)]
      · split
        · rename_i j found
          by_cases same : j = i
          · subst same
            obtain ⟨rfl, _, rfl⟩ := ok.unique node found
            have away : x / 256 % 256 ≠ b := by omega
            simp [State.withPly, linked, Ply8.write, update_of_ne away]
          · simp [State.withPly, State.create, update_of_ne same, update_of_ne (Nat.ne_of_lt (ok.known found).1)]
        · rfl

/-- A slot of the root that has held a leaf leads to a new ply of the second level. -/
theorem Coherent.createRoot (ok : Coherent capacity s nodes) (space : s.poolIndex < capacity) {slot : Nat}
    (within : slot < 2 ^ 16) (free : nodes m 16 slot = none) :
    Effect capacity m new len (fun _ => False) s nodes
      ((s.create ((s.roots m).leaves slot) ((s.roots m).dstAddressBitsOfLeaves slot) 16).withRoot m
        ((s.roots m).write slot (2 * s.poolIndex) 16))
      (nodes.add m 16 slot s.poolIndex) := by
  have terminal := ok.root m slot within
  rw [free] at terminal
  have fits : Fits nodes m 16 slot := ⟨.inl rfl, free, by omega⟩
  constructor
  case grows => exact Nodes.add_grows free
  case coherent =>
    constructor
    case pool => exact space
    case known => exact Nodes.add_known ok (.inl rfl)
    case unique => exact Nodes.add_unique ok
    case above =>
      intro m' p' j found
      rw [Nodes.add_other _ _ (by omega)] at found
      unfold Nodes.add
      split
      · exact Option.some_ne_none _
      · exact ok.above found
    case root =>
      intro m' c below
      by_cases same : m' = m
      · subst same
        by_cases here : c = slot
        · subst here
          rw [Nodes.add_self]
          simp [SlotOk, State.withRoot, Ply16.write]
        · rw [Nodes.add_other _ _ (by omega)]
          simpa [State.withRoot, State.create, State.withPly, Ply16.write, update_of_ne here] using ok.root m' c below
      · rw [Nodes.add_other _ _ (by omega)]
        simpa [State.withRoot, State.create, State.withPly, update_of_ne same] using ok.root m' c below
    case ply =>
      intro m' d' p' j found
      by_cases new : m' = m ∧ d' = 16 ∧ p' = slot
      · obtain ⟨rfl, rfl, rfl⟩ := new
        rw [Nodes.add_self] at found
        obtain rfl := Option.some.inj found
        simpa [State.withRoot, State.create, State.withPly] using ok.create_new fits terminal.1 terminal.2
      · rw [Nodes.add_other _ _ new] at found
        have known := ok.known found
        simp only [State.withRoot, State.withPly, State.create, update_of_ne (Nat.ne_of_lt known.1)]
        apply (ok.ply found).add
        omega
  case inside => exact fun _ never => never.elim
  case outside =>
    intro m' x _
    have third : nodes.add m 16 slot s.poolIndex m' 24 (x / 256) = nodes m' 24 (x / 256) :=
      Nodes.add_other _ _ (by omega)
    by_cases under : m' = m ∧ x / 2 ^ 16 = slot
    · obtain ⟨rfl, under⟩ := under
      have none : nodes m' 24 (x / 256) = none := by
        rw [show x / 256 = slot * 256 + x / 256 % 256 by omega]
        exact ok.childless fits (Nat.mod_lt _ (by decide))
      rw [ok.entry_root free under]
      simp only [entry, third, none, under, Nodes.add_self]
      simp [State.withRoot, State.withPly, State.create, ply8Init]
    · have second : nodes.add m 16 slot s.poolIndex m' 16 (x / 2 ^ 16) = nodes m' 16 (x / 2 ^ 16) :=
        Nodes.add_other _ _ (by omega)
      unfold entry
      rw [third, second]
      split
      · rename_i j found
        simp [State.withRoot, State.withPly, State.create, update_of_ne (Nat.ne_of_lt (ok.known found).1)]
      · split
        · rename_i j found
          simp [State.withRoot, State.withPly, State.create, update_of_ne (Nat.ne_of_lt (ok.known found).1)]
        · by_cases same : m' = m
          · subst same
            have away : x / 2 ^ 16 ≠ slot := by omega
            simp only [State.withRoot, update_self, Ply16.write, update_of_ne away]
          · simp [State.withRoot, State.withPly, State.create, update_of_ne same]

end Creation
end Nfos.Mtrie
