import Nfos.Lib.Block
import Nfos.Lib.Casts
import Nfos.Lib.Loop
import Mathlib.Data.Nat.Prime.Basic
import Mathlib.Data.List.Nodup
import Mathlib.Data.Finset.Card

/-! The consistent hashing table: for every bucket a list of all backends in the order
in which the bucket prefers them. -/
namespace Nfos.Cht
open Casts Loop Function

def intMax : Nat := 2 ^ 31 - 1

/-- A capacity of 0 is a division by zero. -/
def loop (k capacity : Nat) : Option Nat :=
  if capacity = 0 then none else some (k % capacity)

/-- The permutations of the buckets, one for each backend. -/
def fillPermutations (chtHeight backendCapacity : Nat) (permutations : Block Int) : Option (Block Int) :=
  forRange backendCapacity (fun i permutations => do
    let offsetAbsolut := u32 (i * 31)
    let offset ← loop offsetAbsolut chtHeight
    let baseShift ← loop i (u32 (chtHeight - 1))
    let shift := baseShift + 1
    forRange chtHeight (fun j permutations => do
      let permut ← loop (u64 (offset + shift * j)) chtHeight
      permutations.store (u32 (i * chtHeight + j)) (int permut)) permutations) permutations

/-- The priority lists of the buckets; `next` holds their lengths. -/
def fillPriorities (chtHeight backendCapacity : Nat) (permutations : Block Int) (next : Block Int)
    (cht : Block Nat) : Option (Block Int × Block Nat) :=
  forRange chtHeight (fun i s => forRange backendCapacity (fun j s => do
    let bucketId ← permutations.load (u32 (j * chtHeight + i))
    let priority ← s.1.load bucketId
    let next ← s.1.store bucketId (priority + 1)
    let cht ← s.2.store (int (u32 (backendCapacity * u32 bucketId + u32 priority))) j
    return (next, cht)) s) (next, cht)

/-- `permutations` and `next` are what the two calls of `malloc` return, with the
contents of the memory that they allocate. -/
def nfosChtFillCht (cht : Block Nat) (chtHeight backendCapacity : Nat)
    (permutations next : Option (Nat → Int)) : Option (Nat × Block Nat) :=
  match permutations with
  | none => return (0, cht)
  | some contents => do
    let permutations : Block Int := ⟨(int (u32 (chtHeight * backendCapacity))).toNat, contents⟩
    let permutations ← fillPermutations chtHeight backendCapacity permutations
    match next with
    | none => return (0, cht)
    | some contents =>
      let next : Block Int := ⟨(int chtHeight).toNat, contents⟩
      let next ← forRange chtHeight (fun i next => next.store i 0) next
      let (_, cht) ← fillPriorities chtHeight backendCapacity permutations next cht
      return (1, cht)

/-- The priority list of a bucket. -/
def row (cht : Block Nat) (backendCapacity bucket : Nat) : List Nat :=
  (List.range backendCapacity).map fun priority => cht.cell (backendCapacity * bucket + priority)

section Arithmetic

theorem int_of_le {x : Nat} (small : x ≤ intMax) : int x = x := by
  unfold intMax at small
  exact int_of_lt (by omega)

theorem loop_eq {capacity : Nat} (positive : 0 < capacity) (k : Nat) : loop k capacity = some (k % capacity) :=
  if_neg (Nat.ne_of_gt positive)

end Arithmetic

section Permutations
variable {p b : Nat}

/-- The bucket that a backend prefers at some rank. -/
def permut (p i j : Nat) : Nat := (u32 (i * 31) % p + (i % (p - 1) + 1) * j) % p

theorem permut_lt (prime : p.Prime) (i j : Nat) : permut p i j < p := Nat.mod_lt _ prime.pos

theorem permut_injective (prime : p.Prime) {i j k : Nat} (left : j < p) (right : k < p)
    (same : permut p i j = permut p i k) : j = k := by
  have shift : i % (p - 1) + 1 < p := by
    have := Nat.mod_lt i (Nat.sub_pos_of_lt prime.one_lt)
    omega
  have coprime : p.Coprime (i % (p - 1) + 1) := Nat.coprime_of_lt_prime (Nat.succ_ne_zero _) shift prime
  have products : (i % (p - 1) + 1) * j ≡ (i % (p - 1) + 1) * k [MOD p] := Nat.ModEq.add_left_cancel' _ same
  exact (Nat.ModEq.cancel_left_of_coprime coprime products).eq_of_lt_of_lt left right

/-- Every backend has a rank for every bucket. -/
theorem permut_surjective (prime : p.Prime) (i : Nat) {bucket : Nat} (within : bucket < p) :
    ∃ j < p, permut p i j = bucket := by
  have inside : Set.MapsTo (permut p i) (Finset.range p) (Finset.range p) := by
    intro j _
    exact Finset.mem_coe.mpr (Finset.mem_range.mpr (permut_lt prime i j))
  have injective : Set.InjOn (permut p i) (Finset.range p) := by
    intro j left k right same
    exact permut_injective prime (Finset.mem_range.mp left) (Finset.mem_range.mp right) same
  obtain ⟨j, below, same⟩ := Finset.surjOn_of_injOn_of_card_le _ inside injective le_rfl
    (Finset.mem_coe.mpr (Finset.mem_range.mpr within))
  exact ⟨j, Finset.mem_range.mp below, same⟩

/-- The entries below `n` hold the permutations. -/
def Written (p b : Nat) (permutations : Block Int) (n : Nat) : Prop :=
  permutations.size = p * b ∧ ∀ k < n, permutations.cell k = permut p (k / p) (k % p)

theorem Written.store {m : Block Int} {i j : Nat} (written : Written p b m (i * p + j)) (column : j < p)
    (within : i * p + j < p * b) :
    ∃ m', m.store (i * p + j : Nat) (permut p i j) = some m' ∧ Written p b m' (i * p + (j + 1)) := by
  refine ⟨_, Block.store_eq (written.1 ▸ within) _, written.1, ?_⟩
  intro k below
  by_cases last : k = i * p + j
  · subst last
    simp only [update_self]
    rw [Nat.mul_comm, Nat.mul_add_div (by omega), Nat.mul_add_mod, Nat.div_eq_of_lt column,
      Nat.mod_eq_of_lt column, Nat.add_zero]
  · simp only [update_of_ne last]
    exact written.2 k (by omega)

theorem fillPermutations_spec (prime : p.Prime) (small : p * b ≤ intMax) {m : Block Int} (sized : m.size = p * b) :
    ∃ m', fillPermutations p b m = some m' ∧ Written p b m' (b * p) := by
  apply forRange_ends (fun i m => Written p b m (i * p))
  · exact ⟨sized, by simp⟩
  · intro i row m written
    have fits : p ≤ intMax := (Nat.le_mul_of_pos_right p (by omega)).trans small
    have two := prime.two_le
    unfold intMax at small fits
    have height : u32 (p - 1) = p - 1 := by
      have := @u32_of_lt (p - 1) (by omega)
      rwa [Nat.cast_sub (by omega)] at this
    simp only [loop_eq prime.pos, height, loop_eq (Nat.sub_pos_of_lt prime.one_lt), Option.bind_eq_bind,
      Option.bind_some]
    rw [Nat.succ_mul]
    apply forRange_ends (fun j m => Written p b m (i * p + j)) written
    intro j column m written
    have within : i * p + j < p * b := by
      have : (i + 1) * p ≤ b * p := Nat.mul_le_mul_right p row
      rw [Nat.succ_mul, Nat.mul_comm b] at this
      omega
    have shifted : u32 (i * 31) % p + (i % (p - 1) + 1) * j < 2 ^ 64 := by
      have first := Nat.mod_lt (u32 (i * 31)) prime.pos
      have second := Nat.mod_lt i (Nat.sub_pos_of_lt prime.one_lt)
      have third : (i % (p - 1) + 1) * j ≤ p * p := Nat.mul_le_mul (by omega) (by omega)
      have fourth : p * p ≤ (2 ^ 31) * (2 ^ 31) := Nat.mul_le_mul (by omega) (by omega)
      omega
    obtain ⟨m', stored, written⟩ := written.store column within
    have index : u32 (i * p + j) = i * p + j := by
      have := @u32_of_lt (i * p + j) (by omega)
      push_cast at this
      exact this
    have sum : u64 ((u32 (i * 31) % p : Nat) + (i % (p - 1) + 1 : Nat) * j) =
        u32 (i * 31) % p + (i % (p - 1) + 1) * j := by
      have := u64_of_lt shifted
      push_cast at this ⊢
      exact this
    refine ⟨m', ?_, written⟩
    rw [sum, index, int_of_le]
    · exact stored
    · exact (permut_lt prime i j).le.trans fits

end Permutations

section Priorities
variable {p b : Nat}

/-- The priority list of a bucket after `i` rounds, and `j` backends of the next one. -/
def ranked (p b i j bucket : Nat) : List Nat :=
  ((List.range i).flatMap fun r => (List.range b).filter fun backend => permut p backend r = bucket) ++
    (List.range j).filter fun backend => permut p backend i = bucket

theorem ranked_round (p b i bucket : Nat) : ranked p b (i + 1) 0 bucket = ranked p b i b bucket := by
  simp [ranked, List.range_succ]

theorem ranked_backend (p b i j bucket : Nat) :
    ranked p b i (j + 1) bucket = ranked p b i j bucket ++ if permut p j i = bucket then [j] else [] := by
  rw [ranked, ranked, List.range_succ, List.filter_append, List.append_assoc]
  congr 2
  by_cases same : permut p j i = bucket <;> simp [same]

theorem ranked_sublist (p i bucket : Nat) {j : Nat} (below : j ≤ b) :
    (ranked p b i j bucket).Sublist (ranked p b (i + 1) 0 bucket) := by
  rw [ranked_round]
  exact ((List.range_sublist.mpr below).filter _).append_left _

theorem mem_ranked {p b i bucket backend : Nat} :
    backend ∈ ranked p b i 0 bucket ↔ backend < b ∧ ∃ r < i, permut p backend r = bucket := by
  simp only [ranked, List.range_zero, List.filter_nil, List.append_nil, List.mem_flatMap, List.mem_range,
    List.mem_filter, decide_eq_true_eq]
  constructor
  · rintro ⟨r, below, within, same⟩
    exact ⟨within, r, below, same⟩
  · rintro ⟨within, r, below, same⟩
    exact ⟨r, below, within, same⟩

/-- No backend is put twice into the list of a bucket. -/
theorem ranked_nodup (prime : p.Prime) {i : Nat} (rounds : i ≤ p) (bucket : Nat) :
    (ranked p b i 0 bucket).Nodup := by
  rw [ranked, List.range_zero, List.filter_nil, List.append_nil, List.nodup_flatMap]
  constructor
  · intro r _
    exact List.nodup_range.filter _
  · refine List.nodup_range.pairwise_of_forall_ne ?_
    intro r first q second apart backend left right
    simp only [List.mem_filter, decide_eq_true_eq] at left right
    rw [List.mem_range] at first second
    exact apart (permut_injective prime (by omega) (by omega) (left.2.trans right.2.symm))

theorem ranked_length_lt (prime : p.Prime) {i j : Nat} (round : i < p) (backend : j < b) :
    (ranked p b i j (permut p j i)).length < b := by
  have sub := ranked_sublist p i (permut p j i) (Nat.succ_le_of_lt backend)
  have subset : ranked p b (i + 1) 0 (permut p j i) ⊆ List.range b := by
    intro x member
    exact List.mem_range.mpr (mem_ranked.mp member).1
  have bound := ((ranked_nodup prime (i := i + 1) round _).subperm subset).length_le
  have grown := sub.length_le
  rw [ranked_backend, if_pos rfl, List.length_append, List.length_singleton] at grown
  rw [List.length_range] at bound
  omega

/-- In the end the list holds all backends. -/
theorem ranked_perm (prime : p.Prime) {bucket : Nat} (within : bucket < p) :
    (ranked p b p 0 bucket).Perm (List.range b) := by
  rw [List.perm_ext_iff_of_nodup (ranked_nodup prime le_rfl bucket) List.nodup_range]
  intro backend
  rw [mem_ranked, List.mem_range]
  constructor
  · exact And.left
  · intro below
    exact ⟨below, permut_surjective prime backend within⟩

/-- The two blocks represent some priority lists. -/
structure Filled (p b : Nat) (old : Block Nat) (rows : Nat → List Nat) (s : Block Int × Block Nat) : Prop where
  sizes : s.1.size = p ∧ s.2.size = old.size
  bound : ∀ bucket < p, (rows bucket).length ≤ b
  next : ∀ bucket < p, s.1.cell bucket = (rows bucket).length
  cells : ∀ bucket < p, ∀ priority (within : priority < (rows bucket).length),
    s.2.cell (b * bucket + priority) = (rows bucket)[priority]
  rest : ∀ i, p * b ≤ i → s.2.cell i = old.cell i

theorem index_lt {bucket priority : Nat} (within : bucket < p) (below : priority < b) :
    b * bucket + priority < p * b := by
  have : b * (bucket + 1) ≤ b * p := Nat.mul_le_mul_left b within
  rw [Nat.mul_succ, Nat.mul_comm b p] at this
  omega

theorem bucket_unique {x y q r : Nat} (left : q < b) (right : r < b) (same : b * x + q = b * y + r) : x = y := by
  have positive : 0 < b := by omega
  have := congrArg (· / b) same
  simpa [Nat.mul_add_div positive, Nat.div_eq_of_lt left, Nat.div_eq_of_lt right] using this

/-- A backend is appended to the list of a bucket. -/
theorem Filled.append {old : Block Nat} {rows : Nat → List Nat} {next : Block Int} {cht : Block Nat}
    {bucket : Nat} (filled : Filled p b old rows (next, cht)) (sized : p * b ≤ old.size)
    (small : p * b ≤ intMax) (within : bucket < p) (space : (rows bucket).length < b) (j : Nat) :
    ∃ s, (do
      let priority ← next.load (bucket : Int)
      let next ← next.store (bucket : Int) (priority + 1)
      let cht ← cht.store (int (u32 (b * u32 (bucket : Int) + u32 priority))) j
      return (next, cht)) = some s ∧
      Filled p b old (fun h => rows h ++ if bucket = h then [j] else []) s := by
  have inside := index_lt within space
  have fits : bucket < 2 ^ 32 ∧ b < 2 ^ 32 := by
    have first : p ≤ p * b := Nat.le_mul_of_pos_right p (by omega)
    have second : b ≤ p * b := Nat.le_mul_of_pos_left b (by omega)
    unfold intMax at small
    omega
  have index : int (u32 (b * u32 (bucket : Int) + u32 ((rows bucket).length : Int))) =
      (b * bucket + (rows bucket).length : Nat) := by
    rw [u32_of_lt fits.1, u32_of_lt (space.trans fits.2)]
    have := @u32_of_lt (b * bucket + (rows bucket).length) (by unfold intMax at small; omega)
    push_cast at this
    rw [this]
    exact int_of_le (by omega)
  rw [Block.load_eq (filled.sizes.1.symm ▸ within), Option.bind_eq_bind, Option.bind_some,
    Block.store_eq (filled.sizes.1.symm ▸ within), Option.bind_eq_bind, Option.bind_some, filled.next bucket within,
    index, Block.store_eq (filled.sizes.2.symm ▸ inside.trans_le sized), Option.bind_eq_bind, Option.bind_some]
  refine ⟨_, rfl, ⟨filled.sizes, ?_, ?_, ?_, ?_⟩⟩
  · intro h below
    by_cases same : bucket = h
    · subst same
      simpa using Nat.succ_le_of_lt space
    · simpa [same] using filled.bound h below
  · intro h below
    by_cases same : bucket = h
    · subst same
      simp
    · simpa [same, update_of_ne (Ne.symm same)] using filled.next h below
  · intro h below priority short
    by_cases same : bucket = h
    · subst same
      simp only [if_true, List.length_append, List.length_singleton] at short
      by_cases last : priority = (rows bucket).length
      · subst last
        simp
      · have early : priority < (rows bucket).length := by omega
        simp only [if_true]
        rw [update_of_ne (by omega), List.getElem_append_left early]
        exact filled.cells bucket below priority early
    · simp only [if_neg same, List.append_nil] at short ⊢
      rw [update_of_ne]
      · exact filled.cells h below priority short
      · intro clash
        exact same (bucket_unique (short.trans_le (filled.bound h below)) space clash).symm
  · intro i outside
    simp only
    rw [update_of_ne (by omega)]
    exact filled.rest i outside

theorem fillPriorities_spec (prime : p.Prime) (small : p * b ≤ intMax) {permutations next : Block Int}
    {cht : Block Nat} (written : Written p b permutations (b * p)) (sized : p * b ≤ cht.size)
    (zeros : next.size = p ∧ ∀ bucket < p, next.cell bucket = 0) :
    ∃ s, fillPriorities p b permutations next cht = some s ∧ Filled p b cht (ranked p b p 0) s := by
  apply forRange_ends (fun i s => Filled p b cht (ranked p b i 0) s)
  · exact ⟨⟨zeros.1, rfl⟩, by simp [ranked], by simpa [ranked] using zeros.2, by simp [ranked], fun _ _ => rfl⟩
  · intro i round s filled
    rw [funext (ranked_round p b i)]
    apply forRange_ends (fun j s => Filled p b cht (ranked p b i j) s) filled
    rintro j backend ⟨next, cht'⟩ filled
    have within : j * p + i < b * p := by
      have : (j + 1) * p ≤ b * p := Nat.mul_le_mul_right p backend
      rw [Nat.succ_mul] at this
      omega
    have index : u32 (j * p + i) = j * p + i := by
      have := @u32_of_lt (j * p + i) (by unfold intMax at small; rw [Nat.mul_comm] at small; omega)
      push_cast at this
      exact this
    have bucket : permutations.load (j * p + i : Nat) = some (permut p j i : Int) := by
      rw [Block.load_eq (by rw [written.1, Nat.mul_comm p]; exact within), written.2 _ within, Nat.mul_comm,
        Nat.mul_add_div (by omega), Nat.mul_add_mod, Nat.div_eq_of_lt round, Nat.mod_eq_of_lt round, Nat.add_zero]
    rw [index, bucket, Option.bind_eq_bind, Option.bind_some, funext (ranked_backend p b i j)]
    exact filled.append sized small (permut_lt prime j i) (ranked_length_lt prime round backend) j

theorem zeros_spec (p : Nat) {m : Block Int} (sized : m.size = p) :
    ∃ m', forRange p (fun i next => next.store i 0) m = some m' ∧ m'.size = p ∧ ∀ bucket < p, m'.cell bucket = 0 := by
  apply forRange_ends (fun i (m : Block Int) => m.size = p ∧ ∀ bucket < i, m.cell bucket = 0)
  · exact ⟨sized, by simp⟩
  · rintro i below m ⟨sized, zeros⟩
    refine ⟨_, Block.store_eq (sized.symm ▸ below) 0, sized, ?_⟩
    intro bucket early
    by_cases last : bucket = i
    · subst last
      simp
    · simp only [update_of_ne last]
      exact zeros bucket (by omega)

theorem Filled.row {old : Block Nat} {rows : Nat → List Nat} {s : Block Int × Block Nat} {bucket : Nat}
    (filled : Filled p b old rows s) (within : bucket < p) (full : (rows bucket).length = b) :
    row s.2 b bucket = rows bucket := by
  apply List.ext_getElem
  · simp [Cht.row, full]
  · intro priority left right
    simpa [Cht.row] using filled.cells bucket within priority right

/-- The row of a bucket holds all backends. -/
theorem Filled.row_perm {old : Block Nat} {s : Block Int × Block Nat} (filled : Filled p b old (ranked p b p 0) s) (prime : p.Prime)
    {bucket : Nat} (within : bucket < p) : (Cht.row s.2 b bucket).Perm (List.range b) := by
  have perm := ranked_perm (b := b) prime within
  rw [filled.row within (by rw [perm.length_eq, List.length_range])]
  exact perm

theorem nfosChtFillCht_filled (prime : p.Prime) (positive : 1 ≤ b) (small : p * b ≤ intMax) {cht : Block Nat}
    (sized : p * b ≤ cht.size) (permutations next : Nat → Int) :
    ∃ s, nfosChtFillCht cht p b (some permutations) (some next) = some (1, s.2) ∧ Filled p b cht (ranked p b p 0) s := by
  have fits : p ≤ intMax := (Nat.le_mul_of_pos_right p positive).trans small
  have whole : (int (u32 (p * b))).toNat = p * b := by
    have := @u32_of_lt (p * b) (by unfold intMax at small; omega)
    push_cast at this
    rw [this, int_of_le small, Int.toNat_natCast]
  have height : (int p).toNat = p := by
    rw [int_of_le fits, Int.toNat_natCast]
  obtain ⟨m, wrote, written⟩ := fillPermutations_spec prime small (m := ⟨p * b, permutations⟩) rfl
  obtain ⟨n, cleared, zeros⟩ := zeros_spec p (m := ⟨p, next⟩) rfl
  obtain ⟨s, placed, filled⟩ := fillPriorities_spec prime small written sized zeros
  refine ⟨s, ?_, filled⟩
  simp [nfosChtFillCht, whole, height, wrote, cleared, placed]

end Priorities

/-- The row of every bucket is a permutation of the backends. Accesses outside of the
memory are faults, so that all writes are inside of a table of exactly this size. -/
theorem nfosChtFillCht_rows {p b : Nat} (prime : p.Prime) (positive : 1 ≤ b) (small : p * b ≤ intMax)
    (cht : Block Nat) (sized : p * b ≤ cht.size) (permutations next : Nat → Int) :
    ∃ cht', nfosChtFillCht cht p b (some permutations) (some next) = some (1, cht') ∧ cht'.size = cht.size ∧
      (∀ i, p * b ≤ i → cht'.cell i = cht.cell i) ∧
      ∀ bucket < p, (row cht' b bucket).Perm (List.range b) := by
  obtain ⟨s, fills, filled⟩ := nfosChtFillCht_filled prime positive small sized permutations next
  refine ⟨s.2, fills, filled.sizes.2, filled.rest, ?_⟩
  intro bucket within
  exact filled.row_perm prime within

/-- Two backends and three buckets. -/
theorem nfosChtFillCht_rows_of_two : Nat.Prime 3 ∧
    ∃ cht', nfosChtFillCht ⟨6, fun _ => 0⟩ 3 2 (some fun _ => 7) (some fun _ => 7) = some (1, cht') ∧
      cht'.size = 6 ∧ (∀ i, 6 ≤ i → cht'.cell i = 0) ∧
      ∀ bucket < 3, (row cht' 2 bucket).Perm (List.range 2) :=
  ⟨Nat.prime_three, nfosChtFillCht_rows Nat.prime_three (by decide) (show 3 * 2 ≤ intMax by unfold intMax; omega) ⟨6, fun _ => 0⟩ le_rfl _ _⟩

end Nfos.Cht
