import Nfos.ConcurrentAllocation
import Nfos.InitialInts
import Nfos.PktSetManager

/-! The answer of `add_pkt_set` rests on the free list of the own partition alone, the
allocation behind it also looks at the global list and at the lists of the other partitions. -/
namespace Nfos.ConcurrentDoubleChain
open Function Linked Run PktSetManager
variable {Id : Type} {n size : Nat} {cells : ConcurrentDchainCells Id} {L : ListId n → List Nat} {s : System n Id} {c : Fin n}

/-- The head of the list leads to a cell. -/
def Holds (cells : ConcurrentDchainCells Id) (w : ListId n) : Prop := cells.nextOf w.head ≠ w.head

/-- The check and the allocation of partition `p` agree, and a new packet set is only refused
if no list holds an index. -/
structure Admits (cells : ConcurrentDchainCells Id) (p : Fin n) : Prop where
  check : ∀ time, concurrentDchainImplHasFreeIndexes n cells p.val = true ↔
    (concurrentDchainAllocateNewIndex n p.val time cells).1.isSome
  refusal : ∀ (S : Type) (cfg : Config Id) (m : Manager Id S) (state : S) (related : Option Id), cfg.numCores = n →
    m.cells = cells → (addPktSetLog cfg state p.val related m).1 = false → ∀ w : ListId n, w.IsFree → ¬ Holds cells w

theorem holds_iff (layout : Layout n cells.nextOf cells.prevOf L) (w : ListId n) : Holds cells w ↔ L w ≠ [] := by
  rw [Holds, ne_eq, ne_eq, layout.forward.nil_iff]

theorem addPktSetLog_isFalse {S : Type} {cfg : Config Id} {m : Manager Id S} {state : S} {related : Option Id} {p : Nat} :
    (addPktSetLog cfg state p related m).1 = false ↔ concurrentDchainImplHasFreeIndexes cfg.numCores m.cells p = false := by
  rw [addPktSetLog]
  cases concurrentDchainImplHasFreeIndexes cfg.numCores m.cells p with
  | true | false => simp

/-- The check misses the indexes of the other lists, and nothing else. -/
theorem admits_iff (layout : Layout n cells.nextOf cells.prevOf L) (bound : ∀ w, ∀ y ∈ L w, indexShift n ≤ y) (p : Fin n) :
    Admits cells p ↔ Holds cells (.free p) ∨ ∀ w : ListId n, w.IsFree → ¬ Holds cells w := by
  have check : concurrentDchainImplHasFreeIndexes n cells p.val = true ↔ Holds cells (.free p) := by
    rw [hasFreeIndexes_iff layout, holds_iff layout]
  have stocks : Stocks L ↔ ∃ w : ListId n, w.IsFree ∧ Holds cells w := by
    simp only [Stocks, holds_iff layout]
  constructor
  · intro admits
    by_cases own : Holds cells (.free p)
    · exact Or.inl own
    · right
      intro w free holds
      have some := (allocate_isSome layout bound p 0).mpr (stocks.mpr ⟨w, free, holds⟩)
      exact own (check.mp ((admits.check 0).mpr some))
  · intro either
    constructor
    case check =>
      intro time
      rw [check, allocate_isSome layout bound, stocks]
      constructor
      · intro own
        exact ⟨.free p, ListId.free_isFree p, own⟩
      · rintro ⟨w, free, holds⟩
        rcases either with own | none
        · exact own
        · exact absurd holds (none w free)
    case refusal =>
      intro S cfg m state related same cells' refused
      rw [addPktSetLog_isFalse, same, cells'] at refused
      rcases either with own | none
      · rw [check.mpr own] at refused
        contradiction
      · exact none

theorem run_sound {history : List (Event n)} {init : ConcurrentDchainCells Id} (valid : Valid n size init L)
    (run : Trace (Step n size) (.start init) history s) : ∃ M, Sound n size s M := by
  refine run.rule (P := fun _ s => ∃ M, Sound n size s M) ⟨L, sound_start valid⟩ ?_
  rintro past t e u - ⟨M, sound⟩ last
  exact (step_sound sound last).1

/-- In every state of every run, at any point of the calls of the other cores. -/
theorem admission_matches_iff (cores : 0 < n) (room : n ≤ size) (small : 2 * size + 16 * n + 1 < 2 ^ 31)
    (cells : ConcurrentDchainCells Id) :
    ∃ init, (numConcurrentCells size n).isSome = true ∧ concurrentDchainImplInit cells size n = some init ∧
      ∀ history s, Trace (Step n size) (.start init) history s → ∀ p : Fin n,
        Admits s.cells p ↔ Holds s.cells (.free p) ∨ ∀ w : ListId n, w.IsFree → ¬ Holds s.cells w := by
  obtain ⟨ended, valid⟩ := init_valid cores room cells
  refine ⟨_, Option.isSome_iff_exists.mpr ⟨_, numConcurrentCells_eq_some.mpr ⟨small, rfl⟩⟩, ended, ?_⟩
  intro history s run p
  obtain ⟨M, sound⟩ := run_sound valid run
  exact admits_iff sound.layout sound.stocked.bound p

/-- Five indexes over two cores. -/
theorem admission_matches_two_cores : 0 < 2 ∧ 2 ≤ 5 ∧ 2 * 5 + 16 * 2 + 1 < 2 ^ 31 ∧ ∀ cells : ConcurrentDchainCells Unit,
    ∃ init, (numConcurrentCells 5 2).isSome = true ∧ concurrentDchainImplInit cells 5 2 = some init ∧
      ∀ history s, Trace (Step 2 5) (.start init) history s → ∀ p : Fin 2,
        Admits s.cells p ↔ Holds s.cells (.free p) ∨ ∀ w : ListId 2, w.IsFree → ¬ Holds s.cells w :=
  ⟨by decide, by decide, by decide, fun cells => admission_matches_iff (by decide) (by decide) (by decide) cells⟩

/-- A call that finds a free index of its own, as a run. -/
theorem allocation_run {x : Nat} {l : List Nat} (valid : Valid n size cells L) (split : L (.free c) = x :: l) (time : Int) :
    ∃ history, ∃ s : System n Id, Trace (Step n size) (.start cells) history s ∧ (∀ d, s.pc d = .idle) ∧
      s.cells = (concurrentDchainAllocateNewIndex n c.val time cells).2 := by
  obtain ⟨result, -⟩ := popLocal_cons valid.layout split
  have ran : popLocal n c.val cells = (some x, (popLocal n c.val cells).2) := Prod.ext result rfl
  have popped : Step n size (.start cells) (.popped c)
      (((System.start cells).write (popLocal n c.val cells).2).goto c (.linking x time)) := .pop c time rfl rfl ran
  have linked : Step n size (((System.start cells).write (popLocal n c.val cells).2).goto c (.linking x time)) _ _ :=
    .link c (update_self ..)
  refine ⟨_, _, (Trace.start.extend popped).extend linked, ?_, ?_⟩
  · apply goto_idle
    intro d other
    exact update_of_ne other _ _
  · rw [concurrentDchainAllocateNewIndex, concurrentDchainImplAllocateNewIndex, ran]
    rfl

/-- Two indexes over two cores: after an allocation by core 0 its own list is empty, but that
of core 1 is not. -/
theorem admission_refuses_early : ∃ init, concurrentDchainImplInit (fun _ => ⟨0, 0, 0, ⟨0, (), 0⟩⟩) 2 2 = some init ∧
    ∃ history s, Trace (Step 2 2) (.start init) history s ∧ (∀ c, s.pc c = .idle) ∧
      concurrentDchainImplHasFreeIndexes 2 s.cells 0 = false ∧ (concurrentDchainAllocateNewIndex 2 0 0 s.cells).1.isSome ∧
      ¬ Admits s.cells (0 : Fin 2) := by
  obtain ⟨ended, valid⟩ := @init_valid Unit 2 2 (by decide) (by decide) fun _ => ⟨0, 0, 0, ⟨0, (), 0⟩⟩
  have own : initialLists 2 2 (.free 0) = [indexShift 2 + 0] := by decide
  have other : initialLists 2 2 (.free 1) ≠ [] := by decide
  obtain ⟨history, s, run, idle, same⟩ := allocation_run valid own 0
  obtain ⟨after, ran, valid', -⟩ := allocateNewIndex_spec valid own 0
  obtain rfl : s.cells = after := same.trans (congrArg Prod.snd ran)
  have layout := valid'.layout
  have empty : ¬ Holds s.cells (.free (0 : Fin 2)) := by
    rw [holds_iff layout, update_of_ne (by simp), update_self]
    exact not_not_intro rfl
  have stocked : Holds s.cells (.free (1 : Fin 2)) := by
    rw [holds_iff layout, update_of_ne (by simp), update_of_ne (by decide)]
    exact other
  refine ⟨_, ended, history, s, run, idle, ?_, ?_, ?_⟩
  · rw [← Bool.not_eq_true]
    intro has
    exact empty ((holds_iff layout _).mpr ((hasFreeIndexes_iff layout 0).mp has))
  · exact (allocate_isSome layout valid'.bound 0 0).mpr ⟨_, ListId.free_isFree 1, (holds_iff layout _).mp stocked⟩
  · rw [admits_iff layout valid'.bound]
    rintro (holds | none)
    · exact empty holds
    · exact none _ (ListId.free_isFree 1) stocked

end Nfos.ConcurrentDoubleChain
