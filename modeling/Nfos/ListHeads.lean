import Nfos.Lib.Chains
import Nfos.Lib.Loop
import Mathlib.Tactic.Ring
import Mathlib.Algebra.Order.Group.Nat
import Mathlib.Tactic.Linarith

/-! The cell array shared by the three index allocators: per-core heads of the
allocated and the free lists, spaced by padding cells, one head of the global
free list, then the index cells. The initialisation loops are the same in all
three; each allocator supplies its own writes. -/
namespace Nfos
open Linked

/-- `LIST_HEAD_PADDING`: seven padding cells separate two list heads. -/
def listHeadPadding : Nat := 3

def allocListHead : Nat := 0

def freeListHead (numCores : Nat) : Nat := numCores <<< listHeadPadding

def globalFreeListHead (numCores : Nat) : Nat := (numCores * 2) <<< listHeadPadding

def indexShift (numCores : Nat) : Nat := globalFreeListHead numCores + 1

/-- The lists of an allocator for `n` cores. -/
inductive ListId (n : Nat) where
  | alloc (core : Fin n)
  | free (core : Fin n)
  | glob
  deriving DecidableEq

namespace ListId
variable {n : Nat}

/-- The head cell of a list. -/
def head : ListId n → Nat
  | alloc core => allocListHead + core.val <<< listHeadPadding
  | free core => freeListHead n + core.val <<< listHeadPadding
  | glob => globalFreeListHead n

theorem head_lt_indexShift (w : ListId n) : w.head < indexShift n := by
  cases w with
  | alloc core | free core =>
    have := core.isLt
    simp only [head, allocListHead, freeListHead, indexShift, globalFreeListHead, listHeadPadding,
      Nat.shiftLeft_eq]
    omega
  | glob => simp [head, indexShift]

theorem head_injective : Function.Injective (head : ListId n → Nat) := by
  intro w v same
  cases w <;> cases v <;>
    simp only [head, allocListHead, freeListHead, globalFreeListHead, listHeadPadding,
      Nat.shiftLeft_eq] at same <;>
    simp only [alloc.injEq, free.injEq, Fin.ext_iff, reduceCtorEq] <;> omega

theorem alloc_injective : Function.Injective (alloc : Fin n → ListId n) :=
  fun _ _ same => alloc.inj same

end ListId

/-- The write operations by which an allocator's initialisation fills its cells. -/
structure InitWrites (M : Type) where
  allocHead : Nat → M → M
  freeHead : Nat → Nat → M → M
  globHead : M → M
  freeCell : Nat → Nat → M → M

/-- The four loops of `concurrent_dchain_impl_init`, `nfos_dchain_impl_init` and
`nfos_dchain_exp_allocate_t`. The last one advances by `size / num_cores`. -/
def initLists {M : Type} (writes : InitWrites M) (fuel size numCores : Nat) (cells : M) :
    Option M := do
  let heads ← Loop.loop (fun s : Nat × M => s.1 < freeListHead numCores)
    (fun s => some (s.1 + 1 <<< listHeadPadding, writes.allocHead s.1 s.2)) fuel
    (allocListHead, cells)
  let heads ← Loop.loop (fun s : Nat × M => s.1 < globalFreeListHead numCores)
    (fun s => some (s.1 + 1 <<< listHeadPadding,
      writes.freeHead s.1 (indexShift numCores + (size / numCores) *
        ((s.1 - freeListHead numCores) >>> listHeadPadding)) s.2)) fuel
    (freeListHead numCores, heads.2)
  let cells := writes.globHead heads.2
  let filled ← Loop.loop (fun s : Nat × Nat × M => s.1 < size + indexShift numCores)
    (fun s => do
      let inner ← Loop.loop (fun r : Nat × M =>
          r.1 < size / numCores - 1 && s.1 + r.1 < size + indexShift numCores - 1)
        (fun r => some (r.1 + 1, writes.freeCell (s.1 + r.1) (s.1 + r.1 + 1) r.2)) fuel (0, s.2.2)
      some (s.1 + size / numCores, s.2.1 + 1,
        writes.freeCell (s.1 + inner.1)
          (freeListHead numCores + s.2.1 <<< listHeadPadding) inner.2)) fuel
    (indexShift numCores, 0, cells)
  some filled.2.2

/-- The cell that follows index `x` on its free list after initialisation. -/
def initNext (size numCores x : Nat) : Nat :=
  if x % (size / numCores) < size / numCores - 1 ∧ x < size - 1 then
    indexShift numCores + x + 1
  else freeListHead numCores + (x / (size / numCores)) <<< listHeadPadding

/-- The writes of initialisation in the order in which the loops make them. -/
def initCells {M : Type} (writes : InitWrites M) (size numCores : Nat) (cells : M) : M :=
  let cells := (List.range numCores).foldl
    (fun m c => writes.allocHead (allocListHead + c <<< listHeadPadding) m) cells
  let cells := (List.range numCores).foldl
    (fun m c => writes.freeHead (freeListHead numCores + c <<< listHeadPadding)
      (indexShift numCores + (size / numCores) * c) m) cells
  (List.range size).foldl
    (fun m x => writes.freeCell (indexShift numCores + x) (initNext size numCores x) m)
    (writes.globHead cells)

section Loops
variable {M : Type} (writes : InitWrites M) {size numCores : Nat} (fuel : Nat)

/-- A loop over evenly spaced heads visits them in order. -/
theorem headLoop_eq (write : Nat → M → M) (base count : Nat) (enough : count ≤ fuel) (m : M) :
    Loop.loop (fun s : Nat × M => s.1 < base + count <<< listHeadPadding)
      (fun s => some (s.1 + 1 <<< listHeadPadding, write s.1 s.2)) fuel (base, m) =
    some (base + count <<< listHeadPadding,
      (List.range count).foldl (fun m c => write (base + c <<< listHeadPadding) m) m) := by
  obtain ⟨t, ended, ⟨k, bound, atHead, written⟩, stopped⟩ := Loop.loop_ends
    (c := fun s : Nat × M => s.1 < base + count <<< listHeadPadding)
    (b := fun s => some (s.1 + 1 <<< listHeadPadding, write s.1 s.2))
    (fun s => ∃ k ≤ count, s.1 = base + k <<< listHeadPadding ∧
      s.2 = (List.range k).foldl (fun m c => write (base + c <<< listHeadPadding) m) m)
    (fun s => count - (s.1 - base) / 8)
    (by
      rintro ⟨i, m'⟩ ⟨k, bound, rfl, rfl⟩ more
      simp only [listHeadPadding, Nat.shiftLeft_eq, decide_eq_true_eq] at more
      refine ⟨_, rfl, ⟨k + 1, by omega, ?_, ?_⟩, ?_⟩
      · simp only [listHeadPadding, Nat.shiftLeft_eq]
        omega
      · rw [List.range_succ, List.foldl_append]
        rfl
      · simp only [listHeadPadding, Nat.shiftLeft_eq]
        omega)
    fuel (base, m) ⟨0, by omega, by simp, by simp⟩ (by simpa using enough)
  have last : k = count := by
    rw [atHead] at stopped
    simp only [listHeadPadding, Nat.shiftLeft_eq, decide_eq_false_iff_not] at stopped
    omega
  subst last
  rw [ended]
  exact congrArg some (Prod.ext atHead written)

/-- The last cell of the chunk of free cells that starts at index `x`. -/
def chunkEnd (size step x : Nat) : Nat := min (step - 1) (size - 1 - x)

theorem initNext_inside {x j : Nat} (aligned : x % (size / numCores) = 0)
    (inside : j < chunkEnd size (size / numCores) x) :
    initNext size numCores (x + j) = indexShift numCores + (x + j) + 1 := by
  simp only [chunkEnd, lt_min_iff] at inside
  have place : (x + j) % (size / numCores) = j := by
    rw [Nat.add_mod, aligned, Nat.zero_add, Nat.mod_mod]
    exact Nat.mod_eq_of_lt (by omega)
  rw [initNext, if_pos ⟨by omega, by omega⟩]

theorem initNext_end {k : Nat} (positive : 0 < size / numCores)
    (within : k * (size / numCores) < size) :
    initNext size numCores (k * (size / numCores) +
        chunkEnd size (size / numCores) (k * (size / numCores))) =
      freeListHead numCores + k <<< listHeadPadding := by
  obtain ⟨e, same⟩ : ∃ e, e = chunkEnd size (size / numCores) (k * (size / numCores)) := ⟨_, rfl⟩
  rw [← same]
  simp only [chunkEnd] at same
  have short : e < size / numCores := by omega
  have place : (k * (size / numCores) + e) / (size / numCores) = k := by
    rw [Nat.mul_comm, Nat.mul_add_div positive, Nat.div_eq_of_lt short, Nat.add_zero]
  have offset : (k * (size / numCores) + e) % (size / numCores) = e := by
    rw [Nat.mul_comm, Nat.mul_add_mod, Nat.mod_eq_of_lt short]
  rw [initNext, place, offset, if_neg]
  omega

/-- The inner loop fills a chunk up to its last cell. -/
theorem chunkLoop_eq {x : Nat} (aligned : x % (size / numCores) = 0) (within : x < size)
    (enough : size ≤ fuel) (m : M) :
    let fill := fun m x => writes.freeCell (indexShift numCores + x) (initNext size numCores x) m
    Loop.loop (fun r : Nat × M => r.1 < size / numCores - 1 &&
        indexShift numCores + x + r.1 < size + indexShift numCores - 1)
      (fun r => some (r.1 + 1, writes.freeCell (indexShift numCores + x + r.1)
        (indexShift numCores + x + r.1 + 1) r.2)) fuel (0, (List.range x).foldl fill m) =
    some (chunkEnd size (size / numCores) x,
      (List.range (x + chunkEnd size (size / numCores) x)).foldl fill m) := by
  intro fill
  obtain ⟨t, ended, ⟨bound, written⟩, stopped⟩ := Loop.loop_ends
    (c := fun r : Nat × M => r.1 < size / numCores - 1 &&
        indexShift numCores + x + r.1 < size + indexShift numCores - 1)
    (b := fun r => some (r.1 + 1, writes.freeCell (indexShift numCores + x + r.1)
        (indexShift numCores + x + r.1 + 1) r.2))
    (fun r => r.1 ≤ chunkEnd size (size / numCores) x ∧
      r.2 = (List.range (x + r.1)).foldl fill m)
    (fun r => chunkEnd size (size / numCores) x - r.1)
    (by
      rintro ⟨j, m'⟩ ⟨bound, written⟩ more
      simp only [Bool.and_eq_true, decide_eq_true_eq] at bound written more
      subst written
      have inside : j < chunkEnd size (size / numCores) x := by
        simp only [chunkEnd, lt_min_iff]
        omega
      refine ⟨_, rfl, ⟨inside, ?_⟩, by simp only; omega⟩
      rw [← Nat.add_assoc, List.range_succ, List.foldl_append]
      simp only [List.foldl_cons, List.foldl_nil, fill]
      rw [initNext_inside aligned inside, Nat.add_assoc])
    fuel (0, (List.range x).foldl fill m) ⟨Nat.zero_le _, rfl⟩ (by simp only [chunkEnd]; omega)
  have last : t.1 = chunkEnd size (size / numCores) x := by
    simp only [Bool.and_eq_false_iff, decide_eq_false_iff_not] at stopped
    simp only [chunkEnd] at bound ⊢
    omega
  rw [ended]
  exact congrArg some (Prod.ext last (last ▸ written))

/-- The outer loop fills one chunk after the other, until the range is covered. -/
theorem fillLoop_eq (positive : 0 < size / numCores) (enough : size ≤ fuel) (m : M) :
    ∃ t : Nat × Nat × M, Loop.loop (fun s : Nat × Nat × M => s.1 < size + indexShift numCores)
      (fun s => do
        let inner ← Loop.loop (fun r : Nat × M =>
            r.1 < size / numCores - 1 && s.1 + r.1 < size + indexShift numCores - 1)
          (fun r => some (r.1 + 1, writes.freeCell (s.1 + r.1) (s.1 + r.1 + 1) r.2)) fuel (0, s.2.2)
        some (s.1 + size / numCores, s.2.1 + 1,
          writes.freeCell (s.1 + inner.1)
            (freeListHead numCores + s.2.1 <<< listHeadPadding) inner.2)) fuel
      (indexShift numCores, 0, m) = some t ∧
      t.2.2 = (List.range size).foldl
        (fun m x => writes.freeCell (indexShift numCores + x) (initNext size numCores x) m) m := by
  let fill := fun m x => writes.freeCell (indexShift numCores + x) (initNext size numCores x) m
  obtain ⟨t, ended, ⟨position, written⟩, stopped⟩ := Loop.loop_ends
    (c := fun s : Nat × Nat × M => s.1 < size + indexShift numCores)
    (b := fun s => do
        let inner ← Loop.loop (fun r : Nat × M =>
            r.1 < size / numCores - 1 && s.1 + r.1 < size + indexShift numCores - 1)
          (fun r => some (r.1 + 1, writes.freeCell (s.1 + r.1) (s.1 + r.1 + 1) r.2)) fuel (0, s.2.2)
        some (s.1 + size / numCores, s.2.1 + 1,
          writes.freeCell (s.1 + inner.1)
            (freeListHead numCores + s.2.1 <<< listHeadPadding) inner.2))
    (fun s => s.1 = indexShift numCores + s.2.1 * (size / numCores) ∧
      s.2.2 = (List.range (min (s.2.1 * (size / numCores)) size)).foldl fill m)
    (fun s => size + indexShift numCores - s.1)
    (by
      rintro ⟨i, k, m'⟩ ⟨position, written⟩ more
      simp only [decide_eq_true_eq] at position written more
      have within : k * (size / numCores) < size := by omega
      rw [Nat.min_eq_left (by omega)] at written
      subst position written
      have chunk := chunkLoop_eq writes fuel (Nat.mul_mod_left k (size / numCores))
        within enough m
      refine ⟨_, by rw [chunk]; rfl, ⟨?_, ?_⟩, ?_⟩
      · simp only [Nat.succ_mul]
        omega
      · have finish : min ((k + 1) * (size / numCores)) size =
            k * (size / numCores) + chunkEnd size (size / numCores) (k * (size / numCores)) + 1 := by
          rw [Nat.succ_mul, chunkEnd]
          omega
        rw [finish, List.range_succ, List.foldl_append]
        simp only [List.foldl_cons, List.foldl_nil, fill]
        rw [initNext_end positive within, Nat.add_assoc]
      · simp only
        omega)
    fuel (indexShift numCores, 0, m) ⟨by simp, by simp⟩ (by simp only; omega)
  refine ⟨t, ended, ?_⟩
  simp only [decide_eq_false_iff_not] at stopped
  rw [written, Nat.min_eq_right (by omega)]

/-- With at least one index for every core the loops end and make these writes. -/
theorem initLists_eq (positive : 0 < size / numCores) (enough : size + numCores ≤ fuel) (cells : M) :
    initLists writes fuel size numCores cells = some (initCells writes size numCores cells) := by
  have heads : freeListHead numCores + numCores <<< listHeadPadding = globalFreeListHead numCores := by
    simp only [freeListHead, globalFreeListHead, listHeadPadding, Nat.shiftLeft_eq]
    omega
  have allocLoop := headLoop_eq fuel writes.allocHead allocListHead numCores (by omega) cells
  rw [show allocListHead + numCores <<< listHeadPadding = freeListHead numCores from
    Nat.zero_add _] at allocLoop
  have freeLoop (m : M) := headLoop_eq fuel (fun i => writes.freeHead i
    (indexShift numCores + (size / numCores) * ((i - freeListHead numCores) >>> listHeadPadding)))
    (freeListHead numCores) numCores (by omega) m
  rw [heads] at freeLoop
  rw [initLists, allocLoop]
  simp only [Option.bind_eq_bind, Option.bind_some, freeLoop, Nat.add_sub_cancel_left,
    Nat.shiftLeft_shiftRight]
  obtain ⟨t, ended, written⟩ := fillLoop_eq writes fuel positive (by omega)
    (writes.globHead ((List.range numCores).foldl
      (fun m c => writes.freeHead (freeListHead numCores + c <<< listHeadPadding)
        (indexShift numCores + (size / numCores) * c) m)
      ((List.range numCores).foldl
        (fun m c => writes.allocHead (allocListHead + c <<< listHeadPadding) m) cells)))
  simp only [Option.bind_eq_bind] at ended
  rw [ended, Option.bind_some, written]
  rfl

/-- Without an index for every core the last loop never advances. -/
theorem initLists_diverges (stuck : size / numCores = 0) (nonempty : 0 < size) (cells : M) :
    initLists writes fuel size numCores cells = none := by
  rw [initLists]
  simp only [stuck, Nat.add_zero, Option.bind_eq_bind]
  cases Loop.loop _ _ fuel (allocListHead, cells) with
  | none => rfl
  | some heads =>
    simp only [Option.bind_some]
    cases Loop.loop _ _ fuel (freeListHead numCores, heads.2) with
    | none => rfl
    | some heads =>
      simp only [Option.bind_some]
      rw [Loop.loop_diverges (fun s => s.1 = indexShift numCores)]
      · rfl
      · rintro ⟨i, k, m⟩ position
        simp only at position
        subst position
        refine ⟨by simp only [decide_eq_true_eq]; omega, fun t ran => ?_⟩
        obtain ⟨inner, _, emitted⟩ := Option.bind_eq_some_iff.mp ran
        cases Option.some.inj emitted
        rfl
      · rfl

end Loops
end Nfos
