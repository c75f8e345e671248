import Nfos.AgeingTable
import Nfos.Lib.Retry

/-! A periodic sweep with its retries. The flag that ends the loop lives outside of the transaction,
and `retry_exp` does not reset it. -/
namespace Nfos.AgeingTable
open Txn Map DoubleChainExp Linked Retry Run

section Handler
variable {L S : Type}

/-- An attempt: the state that it reads, the locks that are granted, and whether `RLU_READER_UNLOCK`
succeeds. -/
structure Attempt (S : Type) where
  snapshot : S
  grants : Nat → Nat → Bool
  unlocks : Bool

/-- The flag `expiration_done`; what the committed transaction freed and published. -/
structure Expiration (S : Type) where
  done : Bool
  committed : Option (List Nat × S)

/-- What follows `retry_exp`. The flag is set at the end of the loop only, so that an abort within the
loop leaves it as it is. -/
def tryExpire (loop : Txs L Sweep) (start : S → L) (view : L → S) (a : Attempt S) (x : Expiration S) :
    Option (Bool × Expiration S) :=
  if x.done then
    if a.unlocks then some (true, { x with committed := some ([], a.snapshot) }) else some (false, x)
  else
    match loop a.grants (start a.snapshot) with
    | .ok (sweep, l) =>
      if a.unlocks then some (true, ⟨sweep.done, some (sweep.freed, view l)⟩) else some (false, { x with done := sweep.done })
    | .error .abort => some (false, x)
    | .error .fault => none

/-- The handler, with the attempts that are left. -/
def expirePeriodically (loop : Txs L Sweep) (start : S → L) (view : L → S) (attempts : List (Attempt S)) :
    Option (Expiration S × List (Attempt S)) :=
  retry (tryExpire loop start view) attempts ⟨false, none⟩

variable {loop : Txs L Sweep} {start : S → L} {view : L → S} {attempts failed rest : List (Attempt S)} {a : Attempt S}
variable {x y : Expiration S}

/-- The loop of the attempt would end. -/
def Finishes (loop : Txs L Sweep) (start : S → L) (a : Attempt S) : Prop := ∃ r, loop a.grants (start a.snapshot) = .ok r

/-- An attempt that fails sets the flag if it gets to the end of the loop. -/
theorem tryExpire_failed (done : ∀ grants l r, loop grants l = .ok r → r.1.done = true)
    (ran : tryExpire loop start view a x = some (false, y)) :
    (y.done = true ↔ x.done = true ∨ Finishes loop start a) := by
  unfold tryExpire at ran
  split at ran
  · rename_i set
    split at ran
    · simp at ran
    · obtain rfl : x = y := by simpa using ran
      simp [set]
  · rename_i unset
    split at ran
    · rename_i sweep l result
      split at ran
      · simp at ran
      · obtain rfl : _ = y := (Prod.mk.inj (Option.some.inj ran)).2
        exact iff_of_true (done _ _ _ result) (.inr ⟨_, result⟩)
    · rename_i result
      obtain rfl : x = y := (Prod.mk.inj (Option.some.inj ran)).2
      simp [unset, Finishes, result]
    · contradiction

theorem flag_of_failed (done : ∀ grants l r, loop grants l = .ok r → r.1.done = true)
    (run : Trace (Failed (tryExpire loop start view)) x failed y) :
    y.done = true ↔ x.done = true ∨ ∃ b ∈ failed, Finishes loop start b := by
  apply run.rule (P := fun failed y => y.done = true ↔ x.done = true ∨ ∃ b ∈ failed, Finishes loop start b)
  case initial => simp
  case keeps =>
    intro past y b z _ before last
    rw [tryExpire_failed done last, before]
    simp only [List.mem_append, List.mem_singleton, or_and_right, exists_or, exists_eq_left, or_assoc]

/-- The handler that returns has committed one transaction. It is empty if the loop of an earlier attempt
has ended. -/
theorem expirePeriodically_committed (done : ∀ grants l r, loop grants l = .ok r → r.1.done = true)
    (ran : expirePeriodically loop start view attempts = some (x, rest)) :
    ∃ failed a freed s', attempts = failed ++ a :: rest ∧ a.unlocks = true ∧ x.committed = some (freed, s') ∧
      ((∃ b ∈ failed, Finishes loop start b) → freed = [] ∧ s' = a.snapshot) ∧
      ((∀ b ∈ failed, ¬ Finishes loop start b) →
        ∃ sweep l, loop a.grants (start a.snapshot) = .ok (sweep, l) ∧ freed = sweep.freed ∧ s' = view l) := by
  obtain ⟨failed, a, y, split, run, finish⟩ := retry_eq_some ran
  have flag := flag_of_failed done run
  simp only [Bool.false_eq_true, false_or] at flag
  refine ⟨failed, a, ?_⟩
  unfold tryExpire at finish
  split at finish
  · rename_i set
    split at finish
    · rename_i unlocks
      obtain rfl : _ = x := (Prod.mk.inj (Option.some.inj finish)).2
      refine ⟨[], a.snapshot, split, unlocks, rfl, fun _ => ⟨rfl, rfl⟩, fun none => ?_⟩
      obtain ⟨b, member, finishes⟩ := flag.mp set
      exact absurd finishes (none b member)
    · simp at finish
  · rename_i unset
    split at finish
    · rename_i sweep l result
      split at finish
      · rename_i unlocks
        obtain rfl : _ = x := (Prod.mk.inj (Option.some.inj finish)).2
        exact ⟨sweep.freed, view l, split, unlocks, rfl, fun some => absurd (flag.mpr some) unset, fun _ => ⟨sweep, l, result, rfl, rfl⟩⟩
      · simp at finish
    · simp at finish
    · contradiction

/-- Of two attempts the first fails. -/
theorem split_pair {b c : Attempt S} (split : [b, c] = failed ++ a :: rest) (fails : b.unlocks = false) (unlocks : a.unlocks = true) :
    failed = [b] ∧ a = c := by
  cases failed with
  | nil =>
    obtain ⟨rfl, _⟩ := List.cons.inj split
    simp [fails] at unlocks
  | cons d failed =>
    obtain ⟨rfl, later⟩ := List.cons.inj split
    cases failed with
    | nil => exact ⟨rfl, (List.cons.inj later).1.symm⟩
    | cons d failed => simp at later

/-- After an attempt that fails behind its loop the next one commits nothing. -/
theorem expirePeriodically_skips (done : ∀ grants l r, loop grants l = .ok r → r.1.done = true) {b : Attempt S}
    (finishes : Finishes loop start b) (fails : b.unlocks = false) (unlocks : a.unlocks = true) :
    expirePeriodically loop start view [b, a] = some (⟨true, some ([], a.snapshot)⟩, []) := by
  obtain ⟨⟨sweep, l⟩, ended⟩ := finishes
  have set := done _ _ _ ended
  have first : tryExpire loop start view b ⟨false, none⟩ = some (false, ⟨true, none⟩) := by simpa [tryExpire, ended, fails] using set
  have second : tryExpire loop start view a ⟨true, none⟩ = some (true, ⟨true, some ([], a.snapshot)⟩) := by simp [tryExpire, unlocks]
  simp [expirePeriodically, retry, first, second]

/-- After an attempt that is aborted in its loop the next one runs it again. -/
theorem expirePeriodically_again {b : Attempt S} {sweep : Sweep} {l : L} (aborts : loop b.grants (start b.snapshot) = .error .abort)
    (ended : loop a.grants (start a.snapshot) = .ok (sweep, l)) (unlocks : a.unlocks = true) :
    expirePeriodically loop start view [b, a] = some (⟨sweep.done, some (sweep.freed, view l)⟩, []) := by
  have first : tryExpire loop start view b ⟨false, none⟩ = some (false, ⟨false, none⟩) := by simp [tryExpire, aborts]
  have second : tryExpire loop start view a ⟨false, none⟩ = some (true, ⟨sweep.done, some (sweep.freed, view l)⟩) := by
    simp [tryExpire, ended, unlocks]
  simp [expirePeriodically, retry, first, second]

/-- The loop ends with the flag set. -/
theorem expireLoop_done {expire : Nat → Txs L Expiry} {erase : Nat → Txs L Unit} (rounds currFreeList : Nat) (l : L) :
    Txs.Ensures (expireLoop expire erase rounds currFreeList) l fun sweep _ => sweep.done = true := by
  induction rounds generalizing currFreeList l with
  | zero => exact Txs.ensures_fault
  | succ rounds ih =>
    rw [expireLoop]
    refine Txs.ensures_bind (P := fun _ _ => True) (fun _ _ _ _ => trivial) fun result m _ => ?_
    cases result.index with
    | some i =>
      refine Txs.ensures_bind (P := fun _ _ => True) (fun _ _ _ _ => trivial) fun _ m _ => ?_
      exact Txs.ensures_bind (ih result.currFreeList m) fun sweep m done => Txs.ensures_pure done
    | none => exact Txs.ensures_ite (fun _ => Txs.ensures_pure rfl) fun _ => ih result.currFreeList m

end Handler

section Tables
variable {K : Type} {n size : Nat} {map : NfosMap K} {T U : Table K} {find : K → Option Int} {Q Q' : ListId n → List Nat}
variable {now : Int} {freed : List Nat}

/-- The entries whose time has passed are removed from the allocator and from the map, and nothing else. -/
structure Purged (map : NfosMap K) (n size : Nat) (now : Int) (T U : Table K) : Prop where
  numbers : ∀ i, i ∈ live n size U.cells ↔ i ∈ live n size T.cells ∧ now ≤ T.time n i
  entries : ∀ k v, found map U.entries k = some v ↔
    ∃ i ∈ live n size T.cells, now ≤ T.time n i ∧ v = (i : Int) ∧ T.keys i = k

/-- No number whose time has passed is queued behind one whose time has not. -/
def InOrder (n size : Nat) (now : Int) (cells : Cells Int) : Prop :=
  ∃ Q : ListId n → List Nat, Valid n size cells Q ∧
    ∀ c, (Q (.alloc c)).Pairwise fun x y => cells.extraOf y < now → cells.extraOf x < now

/-- No time has passed. -/
def Current (n size : Nat) (now : Int) (T : Table K) : Prop := ∀ i ∈ live n size T.cells, now ≤ T.time n i

/-- Nothing is removed just when nothing has to be. -/
theorem Coherent.purged_self_iff (coherent : Coherent map n size T find Q) (exact : map.Exact) :
    Purged map n size now T T ↔ Current n size now T := by
  constructor
  · intro purged i present
    exact ((purged.numbers i).mp present).2
  · intro current
    refine ⟨fun i => ⟨fun present => ⟨present, current i present⟩, And.left⟩, fun k v => ?_⟩
    rw [coherent.found_iff exact]
    exact exists_congr fun i => and_congr_right fun present => by simp [current i present]

theorem pairwise_of_takeWhile {p : Nat → Bool} {l : List Nat} (distinct : l.Nodup) (front : ∀ x ∈ l, p x → x ∈ l.takeWhile p) :
    l.Pairwise fun x y => p y → p x := by
  induction l with
  | nil => exact .nil
  | cons x l ih =>
    obtain ⟨absent, distinct⟩ := List.nodup_cons.mp distinct
    have first : ∀ y ∈ l, p y → p x ∧ y ∈ l.takeWhile p := by
      intro y member passed
      have taken := front y (List.mem_cons_of_mem x member) passed
      rw [List.takeWhile_cons] at taken
      split at taken
      · rename_i here
        refine ⟨here, (List.mem_cons.mp taken).resolve_left ?_⟩
        rintro rfl
        exact absent member
      · simp at taken
    rw [List.pairwise_cons]
    exact ⟨fun y member passed => (first y member passed).1, ih distinct fun y member passed => (first y member passed).2⟩

theorem mem_takeWhile_of_pairwise {p : Nat → Bool} {l : List Nat} (order : l.Pairwise fun x y => p y → p x) {x : Nat} (member : x ∈ l)
    (passed : p x) : x ∈ l.takeWhile p := by
  induction l with
  | nil => simp at member
  | cons y l ih =>
    obtain ⟨before, order⟩ := List.pairwise_cons.mp order
    rcases List.mem_cons.mp member with rfl | later
    · simp [passed]
    · have first : p y := before x later passed
      rw [List.takeWhile_cons, if_pos first]
      exact List.mem_cons_of_mem y (ih order later)

variable [DecidableEq K]

/-- A number that a sweep leaves although its time has passed is queued behind one whose time has not. -/
theorem Cleared.numbers_iff (cleared : Cleared map n size now T find Q freed U Q') (valid : Valid n size T.cells Q) :
    (∀ i, i ∈ live n size U.cells ↔ i ∈ live n size T.cells ∧ now ≤ T.time n i) ↔
      ∀ c, (Q (.alloc c)).Pairwise fun x y => T.cells.extraOf y < now → T.cells.extraOf x < now := by
  constructor
  · intro left c
    have order : (Q (.alloc c)).Pairwise fun x y => Passed now T.cells y → Passed now T.cells x := by
      apply pairwise_of_takeWhile (valid.layout.forward.nodup (.alloc c))
      intro x member passed
      obtain ⟨i, _, rfl⟩ := (valid.cover x).mp ⟨_, member⟩
      have here : i ∈ live n size T.cells := (mem_live valid).mpr ⟨c, member⟩
      have gone : i ∈ freed := by
        by_contra stays
        have present : i ∈ live n size U.cells := by
          rw [cleared.numbers]
          exact ⟨here, stays⟩
        have late := ((left i).mp present).2
        have early : T.time n i < now := of_decide_eq_true passed
        omega
      obtain ⟨d, taken⟩ := (cleared.freed i).mp gone
      obtain rfl : d = c :=
        ListId.alloc_injective (valid.layout.forward.apart ((List.takeWhile_sublist _).subset taken) member)
      exact taken
    simpa [Passed] using order
  · intro order i
    rw [cleared.numbers, Set.mem_sdiff]
    refine and_congr_right fun here => ?_
    obtain ⟨c, member⟩ := (mem_live valid).mp here
    constructor
    · intro stays
      by_contra passed
      apply stays
      apply (cleared.freed i).mpr
      refine ⟨c, mem_takeWhile_of_pairwise ?_ member (decide_eq_true (not_le.mp passed))⟩
      simpa [Passed] using order c
    · intro late gone
      exact absurd (cleared.passed valid gone).2 (not_lt.mpr late)

/-- A sweep of a coherent table is exact just when the queues are in order. -/
theorem Coherent.purged_iff (coherent : Coherent map n size T find Q) (exact : map.Exact)
    (swept : ∀ Q, Coherent map n size T find Q → ∃ freed Q', Cleared map n size now T find Q freed U Q') :
    Purged map n size now T U ↔ InOrder n size now T.cells := by
  constructor
  · intro purged
    obtain ⟨freed, Q', cleared⟩ := swept Q coherent
    exact ⟨Q, coherent.valid, (cleared.numbers_iff coherent.valid).mp purged.numbers⟩
  · rintro ⟨Q₁, valid, order⟩
    have coherent₁ : Coherent map n size T find Q₁ := ⟨coherent.lookup, valid, coherent.timeless, coherent.directory⟩
    obtain ⟨freed, Q', cleared⟩ := swept Q₁ coherent₁
    have numbers := (cleared.numbers_iff valid).mpr order
    refine ⟨numbers, fun k v => ?_⟩
    rw [cleared.coherent.found_iff exact, cleared.keys]
    simp only [numbers, and_assoc]

end Tables

section Periodic
variable {K L R S : Type} [DecidableEq K]

/-- How the states of a program are read and published. -/
structure Snapshots (arrays : Arrays K L R) (S : Type) where
  start : S → L
  view : L → S
  table : S → Table K
  table_start : ∀ s, arrays.table (start s) = table s
  table_view : ∀ l, table (view l) = arrays.table l

variable {arrays : Arrays K L R} {map : NfosMap K} {n size : Nat} {now : Int} {attempts rest : List (Attempt S)} {x : Expiration S}

omit [DecidableEq K] in
theorem sweepAll_done (grants : Nat → Nat → Bool) (l : L) (r : Sweep × L) (ended : sweepAll arrays map n size now grants l = .ok r) :
    r.1.done = true := expireLoop_done _ _ l grants r.1 r.2 ended

/-- What the transaction that commits leaves. It removes nothing early. It removes all entries whose time
has passed just when the queues are in order; but if an earlier attempt has got to the end of its loop, only
when there is no such entry. -/
structure Purges (loop : Txs L Sweep) (start : S → L) (map : NfosMap K) (n size : Nat) (now : Int) (failed : List (Attempt S))
    (T U : Table K) : Prop where
  spares : ∀ i ∈ live n size T.cells, now ≤ T.time n i → i ∈ live n size U.cells
  exact : (∀ b ∈ failed, ¬ Finishes loop start b) → (Purged map n size now T U ↔ InOrder n size now T.cells)
  skipped : (∃ b ∈ failed, Finishes loop start b) → (Purged map n size now T U ↔ Current n size now T)

/-- When the transaction behind some failed attempts removes all that it has to: each of these was
aborted within its loop and the queues are in order, or there is nothing to remove. -/
def Unhindered (loop : Txs L Sweep) (start : S → L) (n size : Nat) (now : Int) (failed : List (Attempt S)) (T : Table K) : Prop :=
  (∀ b ∈ failed, ¬ Finishes loop start b) ∧ InOrder n size now T.cells ∨
    (∃ b ∈ failed, Finishes loop start b) ∧ Current n size now T

omit [DecidableEq K] in
theorem Purges.purged_iff {loop : Txs L Sweep} {start : S → L} {failed : List (Attempt S)} {T U : Table K}
    (purges : Purges loop start map n size now failed T U) :
    Purged map n size now T U ↔ Unhindered loop start n size now failed T := by
  by_cases finished : ∃ b ∈ failed, Finishes loop start b
  · have clash : ¬ ∀ b ∈ failed, ¬ Finishes loop start b := by simpa using finished
    simp only [purges.skipped finished, Unhindered, clash, finished, false_and, true_and, false_or]
  · have none : ∀ b ∈ failed, ¬ Finishes loop start b := by simpa using finished
    simp only [purges.exact none, Unhindered, finished, false_and, or_false, and_iff_right none]

theorem expirePeriodically_purges (snapshots : Snapshots arrays S) (exact : map.Exact) (cores : 0 < n)
    (coherent : ∀ a ∈ attempts, ∃ find Q, Coherent map n size (snapshots.table a.snapshot) find Q)
    (ran : expirePeriodically (sweepAll arrays map n size now) snapshots.start snapshots.view attempts = some (x, rest)) :
    ∃ failed a freed s', attempts = failed ++ a :: rest ∧ a.unlocks = true ∧ x.committed = some (freed, s') ∧
      Purges (sweepAll arrays map n size now) snapshots.start map n size now failed (snapshots.table a.snapshot) (snapshots.table s') := by
  obtain ⟨failed, a, freed, s', split, unlocks, committed, late, early⟩ :=
    expirePeriodically_committed sweepAll_done ran
  obtain ⟨find, Q, holds⟩ := coherent a (by simp [split])
  refine ⟨failed, a, freed, s', split, unlocks, committed, ?_⟩
  by_cases finished : ∃ b ∈ failed, Finishes (sweepAll arrays map n size now) snapshots.start b
  · obtain ⟨rfl, rfl⟩ := late finished
    obtain ⟨b, member, finishes⟩ := finished
    exact ⟨fun i present _ => present, fun none => absurd finishes (none b member), fun _ => holds.purged_self_iff exact⟩
  · obtain ⟨sweep, l, result, rfl, rfl⟩ := early fun b member finishes => finished ⟨b, member, finishes⟩
    have swept : ∀ Q, Coherent map n size (snapshots.table a.snapshot) find Q →
        ∃ Q', Cleared map n size now (snapshots.table a.snapshot) find Q sweep.freed (arrays.table l) Q' := by
      intro Q holds
      rw [← snapshots.table_start] at holds
      have posted := Txs.ensures_of_post fun grants => post_sweepAll arrays exact cores holds now
      obtain ⟨_, _, Q', cleared⟩ := posted _ _ _ result
      rw [snapshots.table_start] at cleared
      exact ⟨Q', cleared⟩
    rw [snapshots.table_view]
    constructor
    case spares =>
      intro i present timely
      obtain ⟨Q', cleared⟩ := swept Q holds
      rw [cleared.numbers]
      refine ⟨present, fun gone => ?_⟩
      exact absurd (cleared.passed holds.valid gone).2 (not_lt.mpr timely)
    case exact => exact fun _ => holds.purged_iff exact fun Q holds => ⟨sweep.freed, swept Q holds⟩
    case skipped => exact fun some => absurd some finished

end Periodic
end Nfos.AgeingTable
