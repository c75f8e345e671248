import Nfos.Cht
import Nfos.DoubleChainExp
import Nfos.Vectors

/-! The choice of a backend: the first one in the row of the bucket that is allocated. -/
namespace Nfos.Cht
open Casts Txn Tx Vectors DoubleChainExp

/-- The consistent hashing table and the allocator of the backends. -/
structure Tables (F : Type → Type) where
  cht : F Nat
  backends : F NfosDchainExpCell

def Tables.start (s : Tables Elements) : Tables Log := ⟨.start s.cht, .start s.backends⟩

def Tables.view (l : Tables Log) : Tables Elements := ⟨l.cht.view, l.backends.view⟩

section Calls
variable {α : Type}

def onCht (program : Tx Nat α) : Txs (Tables Log) α :=
  Txs.on 0 (·.cht) (fun t l => { l with cht := t }) program

def onBackends (program : Tx NfosDchainExpCell α) : Txs (Tables Log) α :=
  Txs.on 1 (·.backends) (fun t l => { l with backends := t }) program

/-- No index is negative. -/
def isIndexAllocated (numCores : Nat) (index : Int) : Txs (Tables Log) Bool :=
  if 0 ≤ index then onBackends (nfosDchainExpIsIndexAllocated numCores index.toNat) else Txs.fault

/-- The candidate of the round `i`. -/
def borrowCandidate (chtHeight backendCapacity start i : Nat) : Txs (Tables Log) Nat :=
  let candidateIdx := u64 (start * backendCapacity + i)
  atIndex (chtHeight * backendCapacity) (int candidateIdx) fun k => onCht (nfosVectorBorrow k)

/-- A round of the loop. -/
def tryCandidate (numCores chtHeight backendCapacity start i : Nat) : Txs (Tables Log) (Option Int) := do
  let candidate ← borrowCandidate chtHeight backendCapacity start i
  if ← isIndexAllocated numCores (int candidate) then
    return some (int candidate)
  else
    return none

/-- The chosen backend if the call returns 1, `none` for 0. -/
def nfosChtFindPreferredAvailableBackend (numCores hash chtHeight backendCapacity : Nat) : Txs (Tables Log) (Option Int) :=
  match loop hash chtHeight with
  | none => Txs.fault
  | some start => Txs.firstSome (tryCandidate numCores chtHeight backendCapacity start) (List.range backendCapacity)

end Calls

section Lookup
variable {n p b : Nat} {l : Tables Log} {s : Tables Elements} {grants : Nat → Nat → Bool}

/-- The list index of its cell says that an index is allocated. -/
def Marked (n : Nat) (cells : Cells Int) (i : Nat) : Prop := cells.indOf (indexShift n + i) ≠ -1

instance (cells : Cells Int) (i : Nat) : Decidable (Marked n cells i) :=
  inferInstanceAs (Decidable (_ ≠ _))

/-- The allocated backends below the capacity. -/
def activeBackends (n b : Nat) (cells : Cells Int) : Set Nat := {i | i < b ∧ Marked n cells i}

theorem nfosDchainExpIsIndexAllocated_run (t : Log NfosDchainExpCell) (free : Nat → Bool) (i : Nat) :
    nfosDchainExpIsIndexAllocated n i free t = .ok (decide (Marked n t.view i), t) := by
  change Except.ok (decide ((t.read (t.ref (i + indexShift n))).listInd ≠ -1), t) = _
  rw [Log.read_ref, Nat.add_comm]
  rfl

theorem isIndexAllocated_run (i : Nat) : isIndexAllocated n (i : Int) grants l = .ok (decide (Marked n l.backends.view i), l) := by
  simp [isIndexAllocated, onBackends, Txs.on, nfosDchainExpIsIndexAllocated_run]

theorem onCht_borrow_run (k : Nat) : onCht (nfosVectorBorrow k) grants l = .ok (l.cht.view k, l) := by
  rw [onCht, Txs.on, nfosVectorBorrow_run]

theorem borrowCandidate_run {start i : Nat} (small : p * b ≤ intMax) (within : b * start + i < p * b) :
    borrowCandidate p b start i grants l = .ok (l.cht.view (b * start + i), l) := by
  have fits : b * start + i ≤ intMax := within.le.trans small
  have whole : u64 ((b * start + i : Nat) : Int) = b * start + i := u64_of_lt (by unfold intMax at fits; omega)
  have product : (start * b + i : Int) = (b * start + i : Nat) := by
    push_cast
    ring
  rw [borrowCandidate, product, whole, int_of_le fits, atIndex_eq _ within, onCht_borrow_run]

theorem tryCandidate_run {start i : Nat} (small : p * b ≤ intMax) (within : b * start + i < p * b)
    (id : l.cht.view (b * start + i) < 2 ^ 31) : tryCandidate n p b start i grants l =
      .ok (if Marked n l.backends.view (l.cht.view (b * start + i)) then some (l.cht.view (b * start + i) : Int) else none, l) := by
  rw [tryCandidate, Txs.run_bind (borrowCandidate_run small within), int_of_lt id, Txs.run_bind (isIndexAllocated_run _)]
  by_cases marked : Marked n l.backends.view (l.cht.view (b * start + i))
  · simp only [marked, decide_true, if_true]
    rfl
  · simp only [marked, decide_false, Bool.false_eq_true, if_false]
    rfl

/-- The backend that the call chooses. -/
def preferred (n b : Nat) (s : Tables Elements) (bucket : Nat) : Option Int :=
  ((row ⟨0, s.cht⟩ b bucket).find? fun j => decide (Marked n s.backends j)).map Int.ofNat

theorem findSome?_candidates (active : Nat → Prop) [DecidablePred active] (candidate : Nat → Nat) (ranks : List Nat) :
    (ranks.findSome? fun i => if active (candidate i) then some (candidate i : Int) else none) =
      ((ranks.map candidate).find? fun j => decide (active j)).map Int.ofNat := by
  induction ranks with
  | nil => rfl
  | cons i rest ih =>
    by_cases here : active (candidate i)
    · simp [here]
    · simpa [here] using ih

/-- The result depends on nothing but the row of the bucket and the active backends. -/
theorem nfosChtFind_run (positive : 0 < p) (small : p * b ≤ intMax) (hash : Nat)
    (ids : ∀ i < b, l.cht.view (b * (hash % p) + i) < 2 ^ 31) :
    nfosChtFindPreferredAvailableBackend n hash p b grants l = .ok (preferred n b l.view (hash % p), l) := by
  have rounds : ∀ i ∈ List.range b, tryCandidate n p b (hash % p) i grants l = _ := fun i member =>
    tryCandidate_run small (index_lt (Nat.mod_lt hash positive) (List.mem_range.mp member)) (ids i (List.mem_range.mp member))
  rw [nfosChtFindPreferredAvailableBackend, loop_eq positive]
  refine (Txs.run_firstSome rounds).trans ?_
  rw [findSome?_candidates (Marked n l.backends.view) fun i => l.cht.view (b * (hash % p) + i)]
  rfl

theorem looks_isIndexAllocated (n : Nat) (i : Int) : Txs.Looks (isIndexAllocated n i) := by
  apply Txs.looks_ite
  · intro _
    refine Txs.looks_on (f := fun t => decide (Marked n t.view i.toNat)) ?_ fun _ => rfl
    intro free t
    rw [nfosDchainExpIsIndexAllocated_run]
  · intro _
    exact Txs.looks_fault

theorem looks_borrowCandidate (p b start i : Nat) : Txs.Looks (borrowCandidate p b start i) := by
  unfold borrowCandidate
  apply looks_atIndex
  intro k
  exact Txs.looks_on (f := fun t => t.view k) (fun _ _ => nfosVectorBorrow_run) fun _ => rfl

theorem looks_tryCandidate (n p b start i : Nat) : Txs.Looks (tryCandidate n p b start i) := by
  apply (looks_borrowCandidate p b start i).bind
  intro candidate
  apply (looks_isIndexAllocated n _).bind
  intro marked
  exact Txs.looks_ite (fun _ => Txs.looks_pure _) fun _ => Txs.looks_pure _

theorem looks_nfosChtFind (n hash p b : Nat) : Txs.Looks (nfosChtFindPreferredAvailableBackend n hash p b) := by
  unfold nfosChtFindPreferredAvailableBackend
  split
  · exact Txs.looks_fault
  · exact Txs.looks_firstSome (looks_tryCandidate n p b _) _

/-- The chosen backend is allocated, whatever the table holds. -/
theorem nfosChtFind_allocated {hash : Nat} {j : Int} {l' : Tables Log}
    (ran : nfosChtFindPreferredAvailableBackend n hash p b grants l = .ok (some j, l')) :
    isIndexAllocated n j grants l = .ok (true, l) := by
  unfold nfosChtFindPreferredAvailableBackend at ran
  cases bucket : loop hash p with
  | none =>
    rw [bucket] at ran
    contradiction
  | some start =>
    rw [bucket] at ran
    obtain ⟨i, _, tried⟩ := Txs.firstSome_found (looks_tryCandidate n p b start) ran
    rw [tryCandidate, Txs.bind_eq_ok] at tried
    obtain ⟨candidate, m, borrowed, resumed⟩ := tried
    rw [Txs.bind_eq_ok] at resumed
    obtain ⟨marked, m', asked, ended⟩ := resumed
    have first := (looks_borrowCandidate p b start i _ _ _ borrowed).1
    have second := (looks_isIndexAllocated n _ _ _ _ asked).1
    dsimp only at first second
    subst first second
    cases marked with
    | false =>
      rw [if_neg Bool.false_ne_true] at ended
      have same : (none, m') = (some j, m') := Except.ok.inj ended
      simp at same
    | true =>
      rw [if_pos rfl] at ended
      have same : (some (int candidate), m') = (some j, m') := Except.ok.inj ended
      simp only [Prod.mk.injEq, Option.some.injEq, and_true] at same
      rw [← same]
      exact asked

end Lookup

section Preferences
variable {n p b : Nat} {cht : Nat → Nat} {cells cells' : Cells Int} {bucket : Nat}

/-- The row of a bucket, as `nfos_cht_fill_cht` leaves it. -/
def Complete (b : Nat) (cht : Nat → Nat) (bucket : Nat) : Prop := (row ⟨0, cht⟩ b bucket).Perm (List.range b)

theorem Complete.id_lt (complete : Complete b cht bucket) {i : Nat} (below : i < b) : cht (b * bucket + i) < b := by
  apply List.mem_range.mp
  apply complete.subset
  exact List.mem_map.mpr ⟨i, List.mem_range.mpr below, rfl⟩

theorem preferred_isSome (complete : Complete b cht bucket) :
    (preferred n b ⟨cht, cells⟩ bucket).isSome ↔ (activeBackends n b cells).Nonempty := by
  rw [preferred, Option.isSome_map, List.find?_isSome]
  constructor
  · rintro ⟨j, member, marked⟩
    exact ⟨j, List.mem_range.mp (complete.subset member), of_decide_eq_true marked⟩
  · rintro ⟨j, below, marked⟩
    exact ⟨j, complete.symm.subset (List.mem_range.mpr below), decide_eq_true marked⟩

theorem preferred_active (complete : Complete b cht bucket) {j : Int} (chosen : preferred n b ⟨cht, cells⟩ bucket = some j) :
    ∃ i ∈ activeBackends n b cells, j = (i : Int) := by
  obtain ⟨i, first, rfl⟩ := Option.map_eq_some_iff.mp chosen
  have member := complete.subset (List.mem_of_find?_eq_some first)
  have marked := List.find?_some first
  exact ⟨i, ⟨List.mem_range.mp member, of_decide_eq_true marked⟩, rfl⟩

/-- What comes before the chosen backend in the row is not active in a smaller set either. -/
theorem preferred_stable (complete : Complete b cht bucket) (fewer : activeBackends n b cells ⊆ activeBackends n b cells') {i : Nat}
    (stays : i ∈ activeBackends n b cells) (chosen : preferred n b ⟨cht, cells'⟩ bucket = some (i : Int)) :
    preferred n b ⟨cht, cells⟩ bucket = some (i : Int) := by
  obtain ⟨k, first, same⟩ := Option.map_eq_some_iff.mp chosen
  obtain rfl : k = i := Int.ofNat.inj same
  obtain ⟨_, before, after, split, earlier⟩ := List.find?_eq_some_iff_append.mp first
  have here : (row ⟨0, cht⟩ b bucket).find? (fun j => decide (Marked n cells j)) = some k := by
    apply List.find?_eq_some_iff_append.mpr
    refine ⟨decide_eq_true stays.2, before, after, split, ?_⟩
    intro j member
    have unmarked : ¬ Marked n cells' j := by simpa using earlier j member
    have below : j < b := List.mem_range.mp (complete.subset (split ▸ List.mem_append_left _ member))
    simp only [Bool.not_eq_true', decide_eq_false_iff_not]
    intro marked
    exact unmarked (fewer ⟨below, marked⟩).2
  rw [preferred, here]
  rfl

/-- With the table that `nfos_cht_fill_cht` has filled, a backend is chosen whenever one is
active, and it changes only if it becomes inactive or if the new one becomes active. -/
theorem nfosChtFind_minimal (prime : p.Prime) (small : p * b ≤ intMax) (table : Block Nat) (sized : p * b ≤ table.size)
    (permutations next : Nat → Int) (filled : Block Nat)
    (fills : nfosChtFillCht table p b (some permutations) (some next) = some (1, filled)) (n hash : Nat) :
    (∀ cells grants, ∃ result,
      nfosChtFindPreferredAvailableBackend n hash p b grants (Tables.start ⟨filled.cell, cells⟩) =
        .ok (result, Tables.start ⟨filled.cell, cells⟩) ∧
      (result.isSome ↔ (activeBackends n b cells).Nonempty) ∧
      ∀ j, result = some j → ∃ i ∈ activeBackends n b cells, j = (i : Int)) ∧
    ∀ cells cells' grants grants' result result' l l', activeBackends n b cells ⊆ activeBackends n b cells' →
      nfosChtFindPreferredAvailableBackend n hash p b grants (Tables.start ⟨filled.cell, cells⟩) = .ok (result, l) →
      nfosChtFindPreferredAvailableBackend n hash p b grants' (Tables.start ⟨filled.cell, cells'⟩) = .ok (result', l') →
      (∀ i ∈ activeBackends n b cells, result' = some (i : Int) → result = some (i : Int)) ∧
      ∀ j, result = some j → result' = some j ∨ ∃ i ∈ activeBackends n b cells' \ activeBackends n b cells, result' = some (i : Int) := by
  have complete : Complete b filled.cell (hash % p) := by
    rcases Nat.eq_zero_or_pos b with rfl | positive
    · exact List.Perm.refl []
    · obtain ⟨s, same, rows⟩ := nfosChtFillCht_filled prime positive small sized permutations next
      obtain ⟨_, rfl⟩ := Prod.mk.inj (Option.some.inj (fills.symm.trans same))
      exact rows.row_perm prime (Nat.mod_lt hash prime.pos)
  have run (cells : Cells Int) (grants : Nat → Nat → Bool) :
      nfosChtFindPreferredAvailableBackend n hash p b grants (Tables.start ⟨filled.cell, cells⟩) =
        .ok (preferred n b ⟨filled.cell, cells⟩ (hash % p), Tables.start ⟨filled.cell, cells⟩) := by
    apply nfosChtFind_run prime.pos small
    intro i below
    have id := complete.id_lt below
    have fits : b ≤ intMax := (Nat.le_mul_of_pos_left b prime.pos).trans small
    unfold intMax at fits
    change filled.cell (b * (hash % p) + i) < 2 ^ 31
    omega
  constructor
  · intro cells grants
    exact ⟨_, run cells grants, preferred_isSome complete, fun j => preferred_active complete⟩
  · intro cells cells' grants grants' result result' l l' fewer ran ran'
    obtain ⟨rfl, -⟩ := Prod.mk.inj (Except.ok.inj ((run cells grants).symm.trans ran))
    obtain ⟨rfl, -⟩ := Prod.mk.inj (Except.ok.inj ((run cells' grants').symm.trans ran'))
    refine ⟨fun i stays chosen => preferred_stable complete fewer stays chosen, ?_⟩
    intro j chosen
    obtain ⟨i, active, rfl⟩ := preferred_active complete chosen
    obtain ⟨k, chosen'⟩ := Option.isSome_iff_exists.mp ((preferred_isSome complete).mpr ⟨i, fewer active⟩)
    obtain ⟨m, active', rfl⟩ := preferred_active complete chosen'
    by_cases stays : m ∈ activeBackends n b cells
    · refine Or.inl ?_
      rw [← chosen, preferred_stable complete fewer stays chosen', chosen']
    · exact Or.inr ⟨m, ⟨active', stays⟩, chosen'⟩

/-- Two backends and three buckets; the second backend is active. -/
theorem nfosChtFind_minimal_of_two : ∃ filled, nfosChtFillCht ⟨6, fun _ => 0⟩ 3 2 (some fun _ => 7) (some fun _ => 7) = some (1, filled) ∧
    ∀ hash grants, ∃ result l, nfosChtFindPreferredAvailableBackend 1 hash 3 2 grants
      (Tables.start ⟨filled.cell, fun i => ⟨0, 0, if i = indexShift 1 + 1 then 0 else -1, 0⟩⟩) = .ok (result, l) ∧ result = some 1 := by
  have sized : 3 * 2 ≤ (⟨6, fun _ => 0⟩ : Block Nat).size := le_rfl
  obtain ⟨s, fills, _⟩ := nfosChtFillCht_filled (b := 2) Nat.prime_three (by decide) (by unfold intMax; omega) sized (fun _ => 7) fun _ => 7
  refine ⟨s.2, fills, ?_⟩
  intro hash grants
  obtain ⟨total, _⟩ := nfosChtFind_minimal Nat.prime_three (by unfold intMax; omega) ⟨6, fun _ => 0⟩ le_rfl _ _ s.2 fills 1 hash
  obtain ⟨result, ran, active, member⟩ := total (fun i => ⟨0, 0, if i = indexShift 1 + 1 then 0 else -1, 0⟩) grants
  refine ⟨result, _, ran, ?_⟩
  obtain ⟨j, chosen⟩ := Option.isSome_iff_exists.mp (active.mpr ⟨1, by decide, by simp [Marked, Cells.indOf]⟩)
  obtain ⟨i, ⟨_, marked⟩, rfl⟩ := member j chosen
  have second : i = 1 := by simpa [Marked, Cells.indOf] using marked
  rw [chosen, second]
  rfl

end Preferences
end Nfos.Cht
