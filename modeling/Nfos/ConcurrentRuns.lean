import Nfos.ConcurrentSections
import Nfos.Lib.Allocator

/-! Interleavings of `ConcurrentDoubleChain`. Every partition is used by its own
core; a step is a section that runs under a lock or between two of them. Only
the global fallback holds locks across steps, so only its locks are explicit. -/
namespace Nfos.ConcurrentDoubleChain
open Function Linked Run
variable {Id : Type} {n size : Nat}

/-- Where a core is between two sections of a call. -/
inductive Pc where
  | idle
  /-- A cell is off its free list and not yet on the allocated list. -/
  | linking (cell : Nat) (time : Int)
  /-- The own free list was empty. -/
  | fallback (time : Int)
  /-- The global lock and the first `locks` per-core locks are held. -/
  | grabbing (locks : Nat) (time : Int)
  /-- All locks are held and the first `lists` free lists have been visited. -/
  | filling (lists : Nat) (time : Int)
  /-- The first `released` per-core locks have been released again. -/
  | releasing (released allocated : Nat) (time : Int)
  /-- A cell is off its allocated list and not yet on the free list. -/
  | unlinked (cell : Nat)

structure System (n : Nat) (Id : Type) where
  cells : ConcurrentDchainCells Id
  globalLock : Option (Fin n)
  lock : Fin n → Option (Fin n)
  pc : Fin n → Pc

/-- `core` goes on at `pc`. -/
def System.goto (s : System n Id) (core : Fin n) (pc : Pc) : System n Id :=
  { s with pc := update s.pc core pc }

def System.write (s : System n Id) (cells : ConcurrentDchainCells Id) : System n Id :=
  { s with cells := cells }

@[simp] theorem System.write_cells (s : System n Id) (cells : ConcurrentDchainCells Id) :
    (s.write cells).cells = cells := rfl

/-- What a step shows: the end of a call with its result, or a section in between. -/
inductive Event (n : Nat) where
  | popped (core : Fin n)
  | missed (core : Fin n)
  | inGlobal (core : Fin n)
  | allocated (core : Fin n) (index : Nat)
  | exhausted (core : Fin n)
  | unlinked (core : Fin n) (index : Nat)
  | freed (core : Fin n) (index : Nat)
  | refused (core : Fin n) (index : Nat)
  | rejuvenated (core : Fin n) (index : Nat) (done : Bool)
  | current (core : Fin n)

inductive Step (n size : Nat) : System n Id → Event n → System n Id → Prop where
  | pop {s cells x} (c : Fin n) (time : Int) : s.pc c = .idle → s.lock c = none →
      popLocal n c.val s.cells = (some x, cells) →
      Step n size s (.popped c) ((s.write cells).goto c (.linking x time))
  | miss {s cells} (c : Fin n) (time : Int) : s.pc c = .idle → s.lock c = none →
      popLocal n c.val s.cells = (none, cells) →
      Step n size s (.missed c) ((s.write cells).goto c (.fallback time))
  | takeGlobal {s time} (c : Fin n) : s.pc c = .fallback time → s.globalLock = none →
      s.cells.nextOf (globalFreeListHead n) ≠ globalFreeListHead n →
      Step n size s (.inGlobal c) ((s.write (popGlobal n (s.cells.nextOf (globalFreeListHead n))
        s.cells)).goto c (.linking (s.cells.nextOf (globalFreeListHead n)) time))
  | enterGlobal {s time} (c : Fin n) : s.pc c = .fallback time → s.globalLock = none →
      s.cells.nextOf (globalFreeListHead n) = globalFreeListHead n →
      Step n size s (.inGlobal c) { s.goto c (.grabbing 0 time) with globalLock := some c }
  | grab {s time} (c k : Fin n) : s.pc c = .grabbing k.val time → s.lock k = none →
      Step n size s (.inGlobal c)
        { s.goto c (.grabbing (k.val + 1) time) with lock := update s.lock k (some c) }
  | grabbed {s time} (c : Fin n) : s.pc c = .grabbing n time →
      Step n size s (.inGlobal c) (s.goto c (.filling 0 time))
  | fill {s time} (c k : Fin n) : s.pc c = .filling k.val time →
      Step n size s (.inGlobal c)
        ((s.write (fillGlobalFreeList n k.val s.cells)).goto c (.filling (k.val + 1) time))
  | filled {s time} (c : Fin n) : s.pc c = .filling n time →
      Step n size s (.inGlobal c)
        (s.goto c (.releasing 0 (s.cells.nextOf (globalFreeListHead n)) time))
  | release {s x time} (c k : Fin n) : s.pc c = .releasing k.val x time →
      Step n size s (.inGlobal c)
        { s.goto c (.releasing (k.val + 1) x time) with lock := update s.lock k none }
  | takeFilled {s x time} (c : Fin n) : s.pc c = .releasing n x time → x ≠ globalFreeListHead n →
      Step n size s (.inGlobal c)
        { (s.write (popGlobal n x s.cells)).goto c (.linking x time) with globalLock := none }
  | exhaust {s x time} (c : Fin n) : s.pc c = .releasing n x time → x = globalFreeListHead n →
      Step n size s (.exhausted c) { s.goto c .idle with globalLock := none }
  | link {s x time} (c : Fin n) : s.pc c = .linking x time →
      Step n size s (.allocated c (x - indexShift n))
        ((s.write (linkNew c.val x time s.cells)).goto c .idle)
  | free {s cells} (c : Fin n) (index : Fin size) : s.pc c = .idle →
      unlinkFreed n index.val c.val s.cells = some cells →
      Step n size s (.unlinked c index.val)
        ((s.write cells).goto c (.unlinked (indexShift n + index.val)))
  | refuse {s} (c : Fin n) (index : Fin size) : s.pc c = .idle →
      unlinkFreed n index.val c.val s.cells = none → Step n size s (.refused c index.val) s
  | push {s x} (c : Fin n) : s.pc c = .unlinked x → s.lock c = none →
      Step n size s (.freed c (x - indexShift n))
        ((s.write (pushFreed n c.val x s.cells)).goto c .idle)
  | rejuvenate {s cells done} (c : Fin n) (index : Fin size) (time : Int) : s.pc c = .idle →
      concurrentDchainImplRejuvenateIndex n index.val c.val time s.cells = (done, cells) →
      Step n size s (.rejuvenated c index.val done) (s.write cells)
  | expire {s cells i} (c : Fin n) (time : Int) : s.pc c = .idle →
      concurrentDchainImplGetOldestIndex n c.val s.cells = some i →
      (s.cells.extraOf (indexShift n + i)).time < time →
      unlinkFreed n i c.val s.cells = some cells →
      Step n size s (.unlinked c i) ((s.write cells).goto c (.unlinked (indexShift n + i)))
  | keep {s} (c : Fin n) (time : Int) : s.pc c = .idle →
      (∀ i, concurrentDchainImplGetOldestIndex n c.val s.cells = some i →
        (s.cells.extraOf (indexShift n + i)).time < time → unlinkFreed n i c.val s.cells = none) →
      Step n size s (.current c) s

/-- The cell that a core holds between two lists. -/
def Pc.held : Pc → Option Nat
  | linking x _ => some x
  | unlinked x => some x
  | _ => none

/-- Whether a core is in the section of the global lock. -/
def Pc.inside : Pc → Prop
  | grabbing _ _ | filling _ _ | releasing _ _ _ => True
  | _ => False

/-- Every cell of the stock is on exactly one list or held by exactly one core. -/
structure Stocked (n size : Nat) (L : ListId n → List Nat) (held : Fin n → Option Nat) : Prop where
  cover : ∀ x, ((∃ w, x ∈ L w) ∨ ∃ c, held c = some x) ↔ ∃ i < covered n size, x = indexShift n + i
  off : ∀ c x, held c = some x → ∀ w, x ∉ L w
  sole : ∀ c d x, held c = some x → held d = some x → c = d

namespace Stocked
variable {L : ListId n → List Nat} {held : Fin n → Option Nat} {next prev : Nat → Nat} {c : Fin n}
  {w : ListId n} {x : Nat} {l m : List Nat}

theorem bound (stocked : Stocked n size L held) (w : ListId n) (y : Nat) (member : y ∈ L w) :
    indexShift n ≤ y := by
  obtain ⟨i, _, rfl⟩ := (stocked.cover y).mp (Or.inl ⟨w, member⟩)
  omega

theorem loose (stocked : Stocked n size L held) (holds : held c = some x) : Loose L x := by
  obtain ⟨i, _, rfl⟩ := (stocked.cover x).mp (Or.inr ⟨c, holds⟩)
  exact ⟨Nat.le_add_right _ _, stocked.off c _ holds⟩

/-- A core with free hands takes a cell off a list. -/
theorem take (stocked : Stocked n size L held) (layout : Layout n next prev L)
    (split : L w = l ++ x :: m) (free : held c = none) :
    Stocked n size (update L w (l ++ m)) (update held c (some x)) := by
  have member : x ∈ L w := by simp [split]
  have others : ∀ d y, held d = some y → y ≠ x ∧ d ≠ c := by
    intro d y holds
    constructor
    · rintro rfl
      exact stocked.off d y holds w member
    · rintro rfl
      rw [free] at holds
      contradiction
  constructor
  · intro y
    rw [← stocked.cover y]
    simp only [layout.forward.mem_cut split]
    constructor
    · rintro (⟨v, old, _⟩ | ⟨d, holds⟩)
      · exact Or.inl ⟨v, old⟩
      · by_cases same : d = c
        · subst same
          rw [update_self] at holds
          exact Or.inl ⟨w, Option.some.inj holds ▸ member⟩
        · rw [update_of_ne same] at holds
          exact Or.inr ⟨d, holds⟩
    · rintro (⟨v, old⟩ | ⟨d, holds⟩)
      · by_cases same : y = x
        · exact Or.inr ⟨c, by rw [update_self, same]⟩
        · exact Or.inl ⟨v, old, same⟩
      · exact Or.inr ⟨d, by rwa [update_of_ne (others d y holds).2]⟩
  · intro d y holds v
    rw [layout.forward.mem_cut split]
    by_cases same : d = c
    · subst same
      rw [update_self] at holds
      exact fun old => old.2 (Option.some.inj holds).symm
    · rw [update_of_ne same] at holds
      exact fun old => stocked.off d y holds v old.1
  · intro d e y first second
    by_cases atFirst : d = c
    · by_cases atSecond : e = c
      · rw [atFirst, atSecond]
      · subst atFirst
        rw [update_self] at first
        rw [update_of_ne atSecond] at second
        exact absurd (Option.some.inj first).symm (others e y second).1
    · rw [update_of_ne atFirst] at first
      by_cases atSecond : e = c
      · subst atSecond
        rw [update_self] at second
        exact absurd (Option.some.inj second).symm (others d y first).1
      · rw [update_of_ne atSecond] at second
        exact stocked.sole d e y first second

/-- A core puts the cell it holds on a list. -/
theorem put (stocked : Stocked n size L held) (split : L w = l ++ m) (holds : held c = some x) :
    Stocked n size (update L w (l ++ x :: m)) (update held c none) := by
  have others : ∀ d y, update held c none d = some y → held d = some y ∧ y ≠ x := by
    intro d y kept
    by_cases same : d = c
    · subst same
      simp at kept
    · rw [update_of_ne same] at kept
      exact ⟨kept, fun equal => same (stocked.sole d c x (equal ▸ kept) holds)⟩
  constructor
  · intro y
    rw [← stocked.cover y]
    simp only [Chains.mem_put split]
    constructor
    · rintro (⟨v, old | ⟨rfl, _⟩⟩ | ⟨d, kept⟩)
      · exact Or.inl ⟨v, old⟩
      · exact Or.inr ⟨c, holds⟩
      · exact Or.inr ⟨d, (others d y kept).1⟩
    · rintro (⟨v, old⟩ | ⟨d, kept⟩)
      · exact Or.inl ⟨v, Or.inl old⟩
      · by_cases same : d = c
        · subst same
          rw [holds] at kept
          exact Or.inl ⟨w, Or.inr ⟨(Option.some.inj kept).symm, rfl⟩⟩
        · exact Or.inr ⟨d, by rwa [update_of_ne same]⟩
  · intro d y kept v
    rw [Chains.mem_put split]
    rintro (old | ⟨same, _⟩)
    · exact stocked.off d y (others d y kept).1 v old
    · exact (others d y kept).2 same
  · intro d e y first second
    exact stocked.sole d e y (others d y first).1 (others e y second).1

end Stocked
end Nfos.ConcurrentDoubleChain
