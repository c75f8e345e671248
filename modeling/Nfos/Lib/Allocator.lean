import Nfos.Lib.Run
import Mathlib.Data.Set.Insert

/-! What an index allocator is for: handing out members of a fixed stock, one
owner at a time. The state is the set of members that are handed out. -/
namespace Allocator
open Run
variable {α : Type}

/-- The calls of an allocator together with their results. -/
inductive Event (α : Type) where
  | allocated (i : α)
  | exhausted
  | freed (i : α)
  | refused (i : α)

inductive Step (stock : Set α) : Set α → Event α → Set α → Prop where
  | allocate {taken : Set α} {i : α} :
      i ∈ stock → i ∉ taken → Step stock taken (.allocated i) (insert i taken)
  | exhaust {taken : Set α} : stock ⊆ taken → Step stock taken .exhausted taken
  | free {taken : Set α} {i : α} : i ∈ taken → Step stock taken (.freed i) (taken \ {i})
  | refuse {taken : Set α} {i : α} : i ∉ taken → Step stock taken (.refused i) taken

variable {stock taken later : Set α} {i : α} {events : List (Event α)}

theorem Step.mem_of_not_freed {e : Event α} (step : Step stock taken e later) (present : i ∈ taken)
    (kept : e ≠ .freed i) : i ∈ later := by
  cases step with
  | allocate => exact Set.mem_insert_of_mem _ present
  | exhaust | refuse => exact present
  | free =>
    refine ⟨present, fun same => kept ?_⟩
    rw [Set.mem_singleton_iff.mp same]

theorem Step.full (step : Step stock taken .exhausted later) : stock ⊆ taken := by
  cases step with
  | exhaust full => exact full

theorem mem_of_not_freed (run : Trace (Step stock) taken events later) (present : i ∈ taken)
    (kept : .freed i ∉ events) : i ∈ later := by
  refine run.rule (P := fun events later => .freed i ∉ events → i ∈ later) (fun _ => present) ?_ kept
  intro past middle e last _ before step kept
  simp only [List.mem_append, List.mem_singleton, not_or] at kept
  exact step.mem_of_not_freed (before kept.1) (Ne.symm kept.2)

/-- Between two allocations of one member it is freed. -/
theorem freed_between {before between after : List (Event α)}
    (run : Trace (Step stock) taken
      (before ++ .allocated i :: between ++ .allocated i :: after) later) :
    .freed i ∈ between := by
  by_contra kept
  rw [show before ++ .allocated i :: between ++ .allocated i :: after =
    before ++ [.allocated i] ++ (between ++ [.allocated i] ++ after) by simp] at run
  obtain ⟨u, front, back⟩ := run.split
  obtain ⟨v, _, first⟩ := front.split
  obtain ⟨w, middle, _⟩ := back.split
  obtain ⟨x, quiet, second⟩ := middle.split
  have held : i ∈ u := by
    cases first.single with
    | allocate => exact Set.mem_insert i v
  have still := mem_of_not_freed quiet held kept
  cases second.single with
  | allocate _ absent => exact absent still

end Allocator
