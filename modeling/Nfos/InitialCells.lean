import Nfos.IndexLists

/-! The cells after initialisation. The three allocators write the same links
and marks; `CellWrites` collects what their writes have in common. -/
namespace Nfos
open Function
variable {ε : Type} {n size : Nat} {writes : InitWrites (Cells ε)} (m : Cells ε)

/-- A field that initialisation uses to link the cells of a list. -/
structure LinkField (n : Nat) (writes : InitWrites (Cells ε)) (f : Cells ε → Nat → Nat) : Prop where
  alloc : ∀ i m, f (writes.allocHead i m) = update (f m) i i
  free : ∀ i v m, f (writes.freeHead i v m) = update (f m) i v
  glob : ∀ m, f (writes.globHead m) = update (f m) (globalFreeListHead n) (globalFreeListHead n)
  cell : ∀ i v m, f (writes.freeCell i v m) = update (f m) i v

structure CellWrites (n : Nat) (writes : InitWrites (Cells ε)) : Prop where
  next : LinkField n writes Cells.nextOf
  prev : LinkField n writes Cells.prevOf
  ind : ∀ i v m, (writes.freeCell i v m).indOf = update m.indOf i (-1)

/-- What is observed at an index cell is what the loop over these cells wrote there. -/
theorem initCells_cell {β : Type} (f : Cells ε → Nat → β) (v : Nat → Nat → β)
    (wrote : ∀ i j m, f (writes.freeCell i j m) = update (f m) i (v i j))
    {x : Nat} (within : x < size) :
    f (initCells writes size n m) (indexShift n + x) =
      v (indexShift n + x) (initNext size n x) := by
  apply Loop.foldl_write (fun m => f m (indexShift n + x))
    (fun x m => writes.freeCell (indexShift n + x) (initNext size n x) m) _ within
  · intro m
    simp only [wrote, update_self]
  · intro y _ other m
    simp only [wrote]
    exact update_of_ne (by omega) _ _

namespace LinkField
variable {f : Cells ε → Nat → Nat} (link : LinkField n writes f) (m : Cells ε)
include link

/-- The loop over the index cells leaves the heads alone. -/
theorem cells_head (w : ListId n) :
    f ((List.range size).foldl
      (fun m x => writes.freeCell (indexShift n + x) (initNext size n x) m) m) w.head =
      f m w.head := by
  apply Loop.foldl_frame (fun m => f m w.head)
    (fun x m => writes.freeCell (indexShift n + x) (initNext size n x) m)
  intro x _ m
  have := w.head_lt_indexShift
  simp only [link.cell]
  exact update_of_ne (by omega) _ _

theorem glob_head {w : ListId n} (other : w ≠ .glob) : f (writes.globHead m) w.head = f m w.head := by
  rw [link.glob]
  exact update_of_ne (fun same => other (ListId.head_injective same)) _ _

theorem initCells_alloc (c : Fin n) :
    f (initCells writes size n m) (allocHead c) = allocHead c := by
  rw [initCells, allocHead, link.cells_head, link.glob_head _ (by simp)]
  rw [Loop.foldl_frame (fun m => f m (ListId.alloc c).head)
    (fun d m => writes.freeHead (freeListHead n + d <<< listHeadPadding)
      (indexShift n + (size / n) * d) m)]
  · apply Loop.foldl_write (fun m => f m (ListId.alloc c).head)
      (fun d m => writes.allocHead (allocListHead + d <<< listHeadPadding) m) _ c.isLt
    · intro m
      simp only [link.alloc]
      exact update_self _ _ _
    · intro d within other m
      simp only [link.alloc]
      refine update_of_ne (fun same => other ?_) _ _
      exact congrArg Fin.val (ListId.alloc.inj (@ListId.head_injective n (.alloc ⟨d, within⟩) _
        same.symm))
  · intro d within m
    simp only [link.free]
    refine update_of_ne (fun same => ?_) _ _
    exact nomatch @ListId.head_injective n _ (.free ⟨d, within⟩) same

theorem initCells_free (c : Fin n) :
    f (initCells writes size n m) (ListId.free c).head = indexShift n + (size / n) * c.val := by
  rw [initCells, link.cells_head, link.glob_head _ (by simp)]
  apply Loop.foldl_write (fun m => f m (ListId.free c).head)
    (fun d m => writes.freeHead (freeListHead n + d <<< listHeadPadding)
      (indexShift n + (size / n) * d) m) _ c.isLt
  · intro m
    simp only [link.free]
    exact update_self _ _ _
  · intro d within other m
    simp only [link.free]
    refine update_of_ne (fun same => other ?_) _ _
    exact congrArg Fin.val (ListId.free.inj (@ListId.head_injective n (.free ⟨d, within⟩) _
      same.symm))

theorem initCells_glob :
    f (initCells writes size n m) (globalFreeListHead n) = globalFreeListHead n := by
  rw [initCells, show globalFreeListHead n = (ListId.glob : ListId n).head from rfl,
    link.cells_head, link.glob]
  exact update_self _ _ _

end LinkField

theorem CellWrites.initialised (same : CellWrites n writes) :
    Initialised n size (initCells writes size n m).nextOf (initCells writes size n m).prevOf where
  allocNext := same.next.initCells_alloc m
  allocPrev := same.prev.initCells_alloc m
  freeNext := same.next.initCells_free m
  globNext := same.next.initCells_glob m
  cellNext _ within := initCells_cell m Cells.nextOf (fun _ v => v) same.next.cell within

/-- Initialisation partitions the first `covered n size` indexes among the free
lists of the cores and marks every index as free. -/
theorem CellWrites.valid (same : CellWrites n writes) (positive : 0 < size / n) :
    Valid n size (initCells writes size n m) (initialLists n size) where
  layout := (same.initialised m).layout positive
  cover _ := mem_initialLists
  allocated _ _ member := absurd member List.not_mem_nil
  unallocated _ within _ := initCells_cell m Cells.indOf (fun _ _ => -1) same.ind within

end Nfos
