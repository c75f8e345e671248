import Nfos.ListHeads
import Nfos.Lib.Casts

/-! The initialisation with the arithmetic of the code: the sizes, the counters and the cell numbers are
computed in `int`, where an overflow is undefined. -/
namespace Nfos
open Casts

/-- The loops of `initLists`, which return nothing if a number does not fit. -/
def initListsInt {M : Type} (writes : InitWrites M) (fuel size numCores : Nat) (cells : M) : Option M := do
  let freeHead ← asInt (numCores <<< listHeadPadding)
  let double ← asInt (numCores * 2)
  let globHead ← asInt (double <<< listHeadPadding)
  let shift ← asInt (globHead + 1)
  let heads ← Loop.loop (fun s : Nat × M => s.1 < freeHead)
    (fun s => do
      let next ← asInt (s.1 + 1 <<< listHeadPadding)
      some (next, writes.allocHead s.1 s.2)) fuel (allocListHead, cells)
  let heads ← Loop.loop (fun s : Nat × M => s.1 < globHead)
    (fun s => do
      let offset ← asInt ((size / numCores) * ((s.1 - freeHead) >>> listHeadPadding))
      let first ← asInt (shift + offset)
      let next ← asInt (s.1 + 1 <<< listHeadPadding)
      some (next, writes.freeHead s.1 first s.2)) fuel (freeHead, heads.2)
  let last ← asInt (size + shift)
  let filled ← Loop.loop (fun s : Nat × Nat × M => s.1 < last)
    (fun s => do
      let inner ← Loop.loop (fun r : Nat × M => r.1 < size / numCores - 1 && s.1 + r.1 < last - 1)
        (fun r => do
          let next ← asInt (s.1 + r.1 + 1)
          some (r.1 + 1, writes.freeCell (s.1 + r.1) next r.2)) fuel (0, s.2.2)
      let cell ← asInt (s.1 + inner.1)
      let offset ← asInt (s.2.1 <<< listHeadPadding)
      let head ← asInt (freeHead + offset)
      let next ← asInt (s.1 + size / numCores)
      let core ← asInt (s.2.1 + 1)
      some (next, core, writes.freeCell cell head inner.2)) fuel (shift, 0, writes.globHead heads.2)
  some filled.2.2

/-- The number of cells that `nfos_dchain_allocate_t` and `nfos_dchain_exp_allocate_t` reserve. -/
def numCells (indexRange numCores : Nat) : Option Nat := do
  let heads ← asInt ((← asInt (numCores <<< listHeadPadding)) * 2)
  asInt ((← asInt (indexRange + heads)) + 1)

/-- The number of cells that `concurrent_dchain_allocate` reserves. -/
def numConcurrentCells (indexRange numCores : Nat) : Option Nat := do
  let indexes ← asInt (indexRange * 2)
  let heads ← asInt ((← asInt (numCores <<< listHeadPadding)) * 2)
  asInt ((← asInt (indexes + heads)) + 1)

section Bounds
variable {n size : Nat}

theorem numCells_eq_some {k : Nat} : numCells size n = some k ↔ size + 16 * n + 1 < 2 ^ 31 ∧ k = size + 16 * n + 1 := by
  simp only [numCells, listHeadPadding, Nat.shiftLeft_eq, Option.bind_eq_bind, Option.bind_eq_some_iff, asInt_eq_some]
  constructor
  · rintro ⟨_, ⟨_, rfl⟩, _, ⟨_, rfl⟩, _, ⟨_, rfl⟩, fits, rfl⟩
    omega
  · rintro ⟨fits, rfl⟩
    exact ⟨_, ⟨by omega, rfl⟩, _, ⟨by omega, rfl⟩, _, ⟨by omega, rfl⟩, by omega, by omega⟩

theorem numConcurrentCells_eq_some {k : Nat} :
    numConcurrentCells size n = some k ↔ 2 * size + 16 * n + 1 < 2 ^ 31 ∧ k = 2 * size + 16 * n + 1 := by
  simp only [numConcurrentCells, listHeadPadding, Nat.shiftLeft_eq, Option.bind_eq_bind, Option.bind_eq_some_iff, asInt_eq_some]
  constructor
  · rintro ⟨_, ⟨_, rfl⟩, _, ⟨_, rfl⟩, _, ⟨_, rfl⟩, _, ⟨_, rfl⟩, fits, rfl⟩
    omega
  · rintro ⟨fits, rfl⟩
    exact ⟨_, ⟨by omega, rfl⟩, _, ⟨by omega, rfl⟩, _, ⟨by omega, rfl⟩, _, ⟨by omega, rfl⟩, by omega, by omega⟩

/-- The number of chunks, the last one of which may be shorter. -/
def chunks (n size : Nat) : Nat := (size + size / n - 1) / (size / n)

/-- The last values of the counter and of the head to which a chunk is linked. -/
structure IntsFit (n size : Nat) : Prop where
  counter : indexShift n + chunks n size * (size / n) < 2 ^ 31
  head : freeListHead n + (chunks n size - 1) <<< listHeadPadding < 2 ^ 31

theorem chunks_eq {k : Nat} (positive : 0 < size / n) (covers : size ≤ k * (size / n)) (least : (k - 1) * (size / n) < size) :
    chunks n size = k := by
  rw [chunks]
  generalize size / n = step at *
  have first : 0 < k := by
    rcases Nat.eq_zero_or_pos k with rfl | first
    · omega
    · exact first
  obtain ⟨j, rfl⟩ := Nat.exists_eq_add_of_lt first
  simp only [Nat.zero_add, Nat.add_sub_cancel, Nat.succ_mul] at covers least ⊢
  apply Nat.div_eq_of_lt_le
  · rw [Nat.succ_mul]
    omega
  · rw [Nat.succ_mul, Nat.succ_mul]
    omega

/-- The chunks cover the indexes. -/
theorem IntsFit.end (fits : IntsFit n size) (positive : 0 < size / n) : size + indexShift n < 2 ^ 31 := by
  have covers : size ≤ chunks n size * (size / n) := by
    have rounded := Nat.lt_mul_div_succ (size + size / n - 1) positive
    rw [← chunks, Nat.mul_add, Nat.mul_one, Nat.mul_comm] at rounded
    omega
  have counter := fits.counter
  omega

theorem lt_chunks {k : Nat} (positive : 0 < size / n) (within : k * (size / n) < size) : k < chunks n size := by
  rw [chunks, Nat.lt_iff_add_one_le, Nat.le_div_iff_mul_le positive, Nat.succ_mul]
  omega

/-- With chunks of one size, the end of the range is the greatest number. -/
theorem fits_iff_of_dvd (cores : 0 < n) (indexes : 0 < size) (divides : n ∣ size) : IntsFit n size ↔ size + 16 * n + 1 < 2 ^ 31 := by
  obtain ⟨step, rfl⟩ := divides
  have positive : 0 < step := Nat.pos_of_mul_pos_left indexes
  have share : n * step / n = step := Nat.mul_div_cancel_left step cores
  have count : chunks n (n * step) = n := by
    apply chunks_eq
    · rwa [share]
    · rw [share]
    · rw [share]
      exact Nat.mul_lt_mul_of_pos_right (Nat.sub_lt cores Nat.one_pos) positive
  constructor
  · rintro ⟨counter, _⟩
    simp only [count, share, indexShift, globalFreeListHead, listHeadPadding, Nat.shiftLeft_eq] at counter
    omega
  · intro small
    constructor
    · simp only [count, share, indexShift, globalFreeListHead, listHeadPadding, Nat.shiftLeft_eq]
      omega
    · simp only [count, freeListHead, listHeadPadding, Nat.shiftLeft_eq]
      omega

end Bounds

section Loops
variable {M : Type} {writes : InitWrites M} {n size fuel : Nat} {cells m : M}

/-- What the last loop keeps: its counter, and the head of the chunk before. -/
structure ChunksFilled (n size : Nat) (s : Nat × Nat × M) : Prop where
  counter : s.1 = indexShift n + s.2.1 * (size / n)
  small : s.1 < 2 ^ 31
  head : s.2.1 = 0 ∨ (s.2.1 - 1) * (size / n) < size ∧ freeListHead n + (s.2.1 - 1) <<< listHeadPadding < 2 ^ 31

/-- What the loops return, the initialisation over all numbers returns too. -/
theorem initLists_of_int (indexes : 0 < size) (ran : initListsInt writes fuel size n cells = some m) :
    initLists writes fuel size n cells = some m ∧ IntsFit n size := by
  obtain ⟨_, free, ran⟩ := Option.bind_eq_some_iff.mp ran
  obtain ⟨_, rfl⟩ := asInt_eq_some.mp free
  obtain ⟨_, double, ran⟩ := Option.bind_eq_some_iff.mp ran
  obtain ⟨_, rfl⟩ := asInt_eq_some.mp double
  obtain ⟨_, glob, ran⟩ := Option.bind_eq_some_iff.mp ran
  obtain ⟨_, rfl⟩ := asInt_eq_some.mp glob
  obtain ⟨_, shift, ran⟩ := Option.bind_eq_some_iff.mp ran
  obtain ⟨_, rfl⟩ := asInt_eq_some.mp shift
  obtain ⟨heads, first, ran⟩ := Option.bind_eq_some_iff.mp ran
  obtain ⟨heads', second, ran⟩ := Option.bind_eq_some_iff.mp ran
  obtain ⟨_, last, ran⟩ := Option.bind_eq_some_iff.mp ran
  obtain ⟨_, rfl⟩ := asInt_eq_some.mp last
  obtain ⟨filled, third, ran⟩ := Option.bind_eq_some_iff.mp ran
  obtain rfl := Option.some.inj ran
  have plain : initLists writes fuel size n cells = some filled.2.2 := by
    simp only [initLists, Option.bind_eq_bind, Option.bind_eq_some_iff, Option.some.injEq]
    refine ⟨heads, Loop.loop_mono ?_ first, heads', Loop.loop_mono ?_ second, filled, Loop.loop_mono ?_ third, rfl⟩
    · intro s t stepped
      simp only [Option.bind_eq_bind, Option.bind_eq_some_iff, asInt_eq_some] at stepped
      obtain ⟨_, ⟨_, rfl⟩, same⟩ := stepped
      exact same
    · intro s t stepped
      simp only [Option.bind_eq_bind, Option.bind_eq_some_iff, asInt_eq_some] at stepped
      obtain ⟨_, ⟨_, rfl⟩, _, ⟨_, rfl⟩, _, ⟨_, rfl⟩, same⟩ := stepped
      exact same
    · intro s t stepped
      simp only [Option.bind_eq_bind, Option.bind_eq_some_iff, asInt_eq_some] at stepped
      obtain ⟨inner, chunk, _, ⟨_, rfl⟩, _, ⟨_, rfl⟩, _, ⟨_, rfl⟩, _, ⟨_, rfl⟩, _, ⟨_, rfl⟩, same⟩ := stepped
      refine Option.bind_eq_some_iff.mpr ⟨inner, Loop.loop_mono ?_ chunk, same⟩
      intro r u stepped
      simp only [Option.bind_eq_some_iff, asInt_eq_some] at stepped
      obtain ⟨_, ⟨_, rfl⟩, same⟩ := stepped
      exact same
  refine ⟨plain, ?_⟩
  have positive : 0 < size / n := by
    rcases Nat.eq_zero_or_pos (size / n) with stuck | positive
    · rw [initLists_diverges writes fuel stuck indexes] at plain
      contradiction
    · exact positive
  have keeps (s t : Nat × Nat × M) (filled : ChunksFilled n size s) (more : s.1 < size + indexShift n) (counter : t.1 = s.1 + size / n)
      (chunk : t.2.1 = s.2.1 + 1) (fits : t.1 < 2 ^ 31) (head : freeListHead n + s.2.1 <<< listHeadPadding < 2 ^ 31) : ChunksFilled n size t := by
    refine ⟨?_, fits, Or.inr ⟨?_, ?_⟩⟩
    · rw [counter, chunk, filled.counter, Nat.succ_mul, Nat.add_assoc]
    · have position := filled.counter
      rw [chunk, Nat.add_sub_cancel]
      omega
    · rwa [chunk, Nat.add_sub_cancel]
  obtain ⟨⟨counter, small, head⟩, stopped⟩ := Loop.loop_rule (ChunksFilled n size) (by
    intro s t before more stepped
    simp only [Option.bind_eq_bind, Option.bind_eq_some_iff, asInt_eq_some, Option.some.injEq] at stepped
    obtain ⟨inner, chunk, _, ⟨_, rfl⟩, _, ⟨_, rfl⟩, _, ⟨head, rfl⟩, _, ⟨next, rfl⟩, _, ⟨_, rfl⟩, rfl⟩ := stepped
    exact keeps _ _ before (of_decide_eq_true more) rfl rfl next head)
    ⟨by rw [Nat.zero_mul]; rfl, by assumption, Or.inl rfl⟩ third
  simp only [decide_eq_false_iff_not, not_lt] at stopped
  rw [counter] at stopped
  replace stopped : size ≤ filled.2.1 * (size / n) := by
    change size + indexShift n ≤ indexShift n + filled.2.1 * (size / n) at stopped
    omega
  rcases head with zero | ⟨least, head⟩
  · rw [zero] at stopped
    omega
  · have count := chunks_eq positive stopped least
    exact ⟨by rwa [count, ← counter], by rwa [count]⟩

/-- The numbers of the cells of a chunk are within the range, and so is its last one. -/
theorem chunkLoop_int (last : size + indexShift n < 2 ^ 31) {i : Nat} (within : i < size + indexShift n) (m : M) :
    (Loop.loop (fun r : Nat × M => r.1 < size / n - 1 && i + r.1 < size + indexShift n - 1)
      (fun r => (asInt (i + r.1 + 1)).bind fun next => some (r.1 + 1, writes.freeCell (i + r.1) next r.2)) fuel (0, m)) =
      Loop.loop (fun r : Nat × M => r.1 < size / n - 1 && i + r.1 < size + indexShift n - 1)
        (fun r => some (r.1 + 1, writes.freeCell (i + r.1) (i + r.1 + 1) r.2)) fuel (0, m) ∧
    ∀ inner, Loop.loop (fun r : Nat × M => r.1 < size / n - 1 && i + r.1 < size + indexShift n - 1)
        (fun r => some (r.1 + 1, writes.freeCell (i + r.1) (i + r.1 + 1) r.2)) fuel (0, m) = some inner →
      i + inner.1 < size + indexShift n := by
  have below {r : Nat × M} (more : (r.1 < size / n - 1 && i + r.1 < size + indexShift n - 1) = true) :
      i + r.1 + 1 < size + indexShift n := by
    simp only [Bool.and_eq_true, decide_eq_true_eq] at more
    omega
  constructor
  · refine Loop.loop_congr (fun _ => True) ?_ (by simp) trivial fuel
    intro r _ more
    rw [asInt_of_lt ((below more).trans last), Option.bind_some]
  · intro inner ran
    have keeps : ∀ r t : Nat × M, i + r.1 < size + indexShift n →
        (r.1 < size / n - 1 && i + r.1 < size + indexShift n - 1) = true →
        some (r.1 + 1, writes.freeCell (i + r.1) (i + r.1 + 1) r.2) = some t → i + t.1 < size + indexShift n := by
      intro r t _ more stepped
      obtain rfl := Option.some.inj stepped
      exact below more
    exact (Loop.loop_rule (fun r : Nat × M => i + r.1 < size + indexShift n) keeps (show i + 0 < _ from within) ran).1

/-- If all numbers fit, the loops do what those over all numbers do. -/
theorem initListsInt_eq (room : 0 < size / n) (fits : IntsFit n size) :
    initListsInt writes fuel size n cells = initLists writes fuel size n cells := by
  have last := fits.end room
  have share := Nat.div_mul_le_self size n
  have shift : indexShift n = 16 * n + 1 := by
    simp only [indexShift, globalFreeListHead, listHeadPadding, Nat.shiftLeft_eq]
    omega
  have free : freeListHead n = 8 * n := by
    simp only [freeListHead, listHeadPadding, Nat.shiftLeft_eq]
    omega
  have glob : globalFreeListHead n = 16 * n := by
    simp only [globalFreeListHead, listHeadPadding, Nat.shiftLeft_eq]
    omega
  have freeHead : asInt (n <<< listHeadPadding) = some (freeListHead n) := asInt_of_lt (by change freeListHead n < _; omega)
  have globHead : asInt ((n * 2) <<< listHeadPadding) = some (globalFreeListHead n) :=
    asInt_of_lt (by change globalFreeListHead n < _; omega)
  have first : asInt (globalFreeListHead n + 1) = some (indexShift n) := asInt_of_lt (by change indexShift n < _; omega)
  rw [initListsInt, freeHead, asInt_of_lt (show n * 2 < 2 ^ 31 by omega)]
  simp only [Option.bind_eq_bind, Option.bind_some, globHead, first, asInt_of_lt last]
  rw [Loop.loop_congr (fun _ => True) (b := fun s : Nat × M => some (s.1 + 1 <<< listHeadPadding, writes.allocHead s.1 s.2))
    ?allocHeads (by simp) trivial]
  case allocHeads =>
    intro s _ more
    have below : s.1 < freeListHead n := of_decide_eq_true more
    have next : s.1 + 1 <<< listHeadPadding < 2 ^ 31 := by
      simp only [listHeadPadding, Nat.shiftLeft_eq]
      omega
    rw [asInt_of_lt next, Option.bind_some]
  rw [initLists, Option.bind_eq_bind]
  apply Option.bind_congr
  intro heads _
  rw [Loop.loop_congr (fun s => s.1 % 8 = 0) (b := fun s : Nat × M => some (s.1 + 1 <<< listHeadPadding,
    writes.freeHead s.1 (indexShift n + (size / n) * ((s.1 - freeListHead n) >>> listHeadPadding)) s.2)) ?freeHeads ?aligned ?start]
  case freeHeads =>
    intro s aligned more
    have below : s.1 < globalFreeListHead n := of_decide_eq_true more
    have core : (s.1 - freeListHead n) >>> listHeadPadding < n := by
      simp only [listHeadPadding, Nat.shiftRight_eq_div_pow]
      omega
    have offset : size / n * ((s.1 - freeListHead n) >>> listHeadPadding) ≤ size :=
      (Nat.mul_le_mul_left _ core.le).trans share
    have next : s.1 + 1 <<< listHeadPadding < 2 ^ 31 := by
      simp only [listHeadPadding, Nat.shiftLeft_eq]
      omega
    rw [asInt_of_lt (by omega), Option.bind_some, asInt_of_lt (by omega), Option.bind_some, asInt_of_lt next, Option.bind_some]
  case aligned =>
    intro s t aligned _ stepped
    obtain rfl := Option.some.inj stepped
    simp only [listHeadPadding, Nat.shiftLeft_eq]
    omega
  case start =>
    simp only [free]
    omega
  apply Option.bind_congr
  intro heads' _
  rw [Loop.loop_congr (fun s => s.1 = indexShift n + s.2.1 * (size / n)) (b := fun s : Nat × Nat × M => do
      let inner ← Loop.loop (fun r : Nat × M =>
          r.1 < size / n - 1 && s.1 + r.1 < size + indexShift n - 1)
        (fun r => some (r.1 + 1, writes.freeCell (s.1 + r.1) (s.1 + r.1 + 1) r.2)) fuel (0, s.2.2)
      some (s.1 + size / n, s.2.1 + 1,
        writes.freeCell (s.1 + inner.1)
          (freeListHead n + s.2.1 <<< listHeadPadding) inner.2)) ?chunks ?counter ?first]
  · rfl
  case chunks =>
    rintro ⟨i, k, m⟩ position more
    dsimp only at position more ⊢
    have within : i < size + indexShift n := of_decide_eq_true more
    have count : k < chunks n size := lt_chunks room (by omega)
    obtain ⟨same, inside⟩ := @chunkLoop_int M writes n size fuel last i within m
    rw [same]
    apply Option.bind_congr
    intro inner ran
    have next : i + size / n ≤ indexShift n + chunks n size * (size / n) := by
      rw [position, Nat.add_assoc, ← Nat.succ_mul]
      exact Nat.add_le_add_left (Nat.mul_le_mul_right _ count) _
    have head : freeListHead n + k <<< listHeadPadding ≤ freeListHead n + (chunks n size - 1) <<< listHeadPadding := by
      simp only [listHeadPadding, Nat.shiftLeft_eq]
      omega
    have core : k + 1 < 2 ^ 31 := by
      have single : chunks n size ≤ chunks n size * (size / n) := Nat.le_mul_of_pos_right _ room
      have counter := fits.counter
      omega
    rw [asInt_of_lt ((inside inner ran).trans last), Option.bind_some,
      asInt_of_lt ((Nat.le_add_left ..).trans_lt (head.trans_lt fits.head)), Option.bind_some,
      asInt_of_lt (head.trans_lt fits.head), Option.bind_some, asInt_of_lt (next.trans_lt fits.counter), Option.bind_some,
      asInt_of_lt core, Option.bind_some]
  case counter =>
    intro s t position _ stepped
    obtain ⟨inner, _, same⟩ := Option.bind_eq_some_iff.mp stepped
    obtain rfl := Option.some.inj same
    change s.1 + size / n = indexShift n + (s.2.1 + 1) * (size / n)
    rw [position, Nat.succ_mul, Nat.add_assoc]
  case first => exact (by rw [Nat.zero_mul]; rfl)

/-- The allocator reserves its array, and the initialisation leaves this memory. -/
structure Initialises (writes : InitWrites M) (reserved : Option Nat) (size n : Nat) (memory s : M) : Prop where
  reserved : reserved.isSome
  ended : ∃ fuel, initListsInt writes fuel size n memory = some s

theorem initialised_of_fits (cores : 0 < n) (room : n ≤ size) (fits : IntsFit n size) {reserved : Option Nat} (array : reserved.isSome) :
    Initialises writes reserved size n cells (initCells writes size n cells) := by
  have positive : 0 < size / n := Nat.div_pos room cores
  exact ⟨array, size + n, (initListsInt_eq positive fits).trans (initLists_eq writes _ positive le_rfl cells)⟩

end Loops
end Nfos
