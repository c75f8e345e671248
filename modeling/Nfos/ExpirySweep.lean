import Nfos.ExpiryQueues
import Nfos.Vectors
import Mathlib.Data.List.TakeWhile

/-! The loop of a periodic handler over `expire_one_index`. Core by core, it takes from the
queue of the core the longest part at its front whose times have passed. -/
namespace Nfos.DoubleChainExp
open Txn Tx Function Linked Run
variable {L : Type}

/-- What is left when the loop ends: the indexes that were freed, and the values of
`curr_free_list` and `expiration_done`. -/
structure Sweep where
  freed : List Nat
  currFreeList : Nat
  done : Bool

/-- `while (!expiration_done)`, with a bound on the rounds. `erase` is what the handler does
with a freed index. -/
def expireLoop (expire : Nat → Txs L Expiry) (erase : Nat → Txs L Unit) : Nat → Nat → Txs L Sweep
  | 0, _ => Txs.fault
  | rounds + 1, currFreeList => do
    let result ← expire currFreeList
    match result.index with
    | some i =>
      erase i
      let sweep ← expireLoop expire erase rounds result.currFreeList
      return { sweep with freed := i :: sweep.freed }
    | none =>
      if result.done then
        return ⟨[], result.currFreeList, true⟩
      else
        expireLoop expire erase rounds result.currFreeList

section Swept
variable {n size : Nat} {now : Int}

/-- The time of the index in a cell has passed. -/
def Passed (now : Int) (cells : Cells Int) (x : Nat) : Bool := decide (cells.extraOf x < now)

/-- The expired part of the queue of a core. -/
def expiredOf (now : Int) (cells : Cells Int) (Q : ListId n → List Nat) (c : Fin n) : List Nat :=
  (Q (.alloc c)).takeWhile (Passed now cells)

/-- The cores from `curr` on. -/
def coresFrom (n curr : Nat) : List (Fin n) := (List.finRange n).filter fun c => curr ≤ c.val

/-- What the loop does to the lists and the times from the core `curr` on. -/
structure Swept (n size : Nat) (now : Int) (curr : Nat) (before : Cells Int) (Q : ListId n → List Nat) (freed : List Nat)
    (after : Cells Int) (Q' : ListId n → List Nat) : Prop where
  valid : Valid n size after Q'
  reported : freed.map (indexShift n + ·) = (coresFrom n curr).flatMap (expiredOf now before Q)
  alloc : ∀ c : Fin n, Q' (.alloc c) = if curr ≤ c.val then (Q (.alloc c)).dropWhile (Passed now before) else Q (.alloc c)
  free : ∀ c : Fin n, Q' (.free c) = if curr ≤ c.val then (expiredOf now before Q c).reverse ++ Q (.free c) else Q (.free c)
  glob : Q' .glob = Q .glob
  times : ∀ x, after.extraOf x = if ∃ i ∈ freed, x = indexShift n + i then int64Max else before.extraOf x

theorem takeWhile_dropWhile_congr {α : Type} {p q : α → Bool} {l : List α} (same : ∀ x ∈ l, p x = q x) :
    l.takeWhile p = l.takeWhile q ∧ l.dropWhile p = l.dropWhile q := by
  induction l with
  | nil => exact ⟨rfl, rfl⟩
  | cons x l ih =>
    obtain ⟨taken, dropped⟩ := ih fun y member => same y (List.mem_cons_of_mem _ member)
    rw [List.takeWhile_cons, List.takeWhile_cons, List.dropWhile_cons, List.dropWhile_cons, same x (List.mem_cons_self ..),
      taken, dropped]
    exact ⟨rfl, rfl⟩

theorem range_filter_ge {k : Nat} (below : k < n) :
    (List.range n).filter (fun i => decide (k ≤ i)) = k :: (List.range n).filter fun i => decide (k + 1 ≤ i) := by
  induction n with
  | zero => contradiction
  | succ n ih =>
    rw [List.range_succ, List.filter_append, List.filter_append]
    rcases Nat.lt_succ_iff_lt_or_eq.mp below with inside | rfl
    · rw [ih inside, List.cons_append]
      have here : decide (k ≤ n) = true := decide_eq_true inside.le
      have later : decide (k + 1 ≤ n) = true := decide_eq_true inside
      simp only [List.filter_cons, here, later, if_true, List.filter_nil]
    · have none : ∀ j, k ≤ j → (List.range k).filter (fun i => decide (j ≤ i)) = [] := by
        intro j least
        apply List.filter_eq_nil_iff.mpr
        intro i member
        have := List.mem_range.mp member
        simp only [decide_eq_true_eq]
        omega
      rw [none k le_rfl, none (k + 1) (Nat.le_succ k)]
      simp

theorem coresFrom_val (n curr : Nat) : (coresFrom n curr).map Fin.val = (List.range n).filter fun i => decide (curr ≤ i) := by
  rw [coresFrom, ← List.map_coe_finRange_eq_range, List.filter_map]
  rfl

theorem coresFrom_succ (c : Fin n) : coresFrom n c.val = c :: coresFrom n (c.val + 1) := by
  apply List.map_injective_iff.mpr Fin.val_injective
  rw [List.map_cons, coresFrom_val, coresFrom_val, range_filter_ge c.isLt]

variable {curr : Nat} {before mid after : Cells Int} {Q Q' : ListId n → List Nat} {freed : List Nat} {c : Fin n}

/-- The oldest index of the core is valid, or there is none. -/
def Current (now : Int) (cells : Cells Int) (Q : ListId n → List Nat) (c : Fin n) : Prop :=
  ∀ x l, Q (.alloc c) = x :: l → now ≤ cells.extraOf x

theorem Current.none (current : Current now before Q c) : expiredOf now before Q c = [] ∧
    (Q (.alloc c)).dropWhile (Passed now before) = Q (.alloc c) := by
  unfold expiredOf
  cases split : Q (.alloc c) with
  | nil => exact ⟨rfl, rfl⟩
  | cons x l =>
    have valid : Passed now before x = false := by
      simpa [Passed] using current x l split
    simp [valid]

theorem Swept.skip (current : Current now before Q c) (swept : Swept n size now (c.val + 1) before Q freed after Q') :
    Swept n size now c.val before Q freed after Q' := by
  obtain ⟨none, all⟩ := current.none
  have other (d : Fin n) (apart : d ≠ c) : c.val ≤ d.val ↔ c.val + 1 ≤ d.val := by
    have := Fin.val_ne_of_ne apart
    omega
  constructor
  case valid => exact swept.valid
  case reported => rw [swept.reported, coresFrom_succ c, List.flatMap_cons, none, List.nil_append]
  case alloc =>
    intro d
    rw [swept.alloc]
    by_cases same : d = c
    · subst same
      simp [all]
    · rw [if_congr (other d same) rfl rfl]
  case free =>
    intro d
    rw [swept.free]
    by_cases same : d = c
    · subst same
      simp [none]
    · rw [if_congr (other d same) rfl rfl]
  case glob => exact swept.glob
  case times => exact swept.times

theorem Swept.nothing (valid : Valid n size before Q) (past : n ≤ curr) : Swept n size now curr before Q [] before Q := by
  have outside (d : Fin n) : ¬ curr ≤ d.val := by omega
  have empty : coresFrom n curr = [] := by
    apply List.filter_eq_nil_iff.mpr
    intro d _
    simpa using outside d
  constructor
  case valid => exact valid
  case reported => simp [empty]
  case alloc => simp [outside]
  case free => simp [outside]
  case glob => rfl
  case times => simp

/-- The other items keep their times when an item is freed. -/
theorem passed_of_ne {x y : Nat} (extra : mid.extraOf = update before.extraOf x int64Max) (apart : y ≠ x) :
    Passed now mid y = Passed now before y := by
  rw [Passed, Passed, extra, update_of_ne apart]

theorem Swept.expire {x : Nat} {l : List Nat} {i : Nat} (valid : Valid n size before Q) (same : x = indexShift n + i)
    (split : Q (.alloc c) = x :: l) (passed : before.extraOf x < now) (extra : mid.extraOf = update before.extraOf x int64Max)
    (swept : Swept n size now c.val mid (update (update Q (.alloc c) l) (.free c) (x :: Q (.free c))) freed after Q') :
    Swept n size now c.val before Q (i :: freed) after Q' := by
  have off : x ∉ l := by
    have distinct := valid.layout.forward.nodup (.alloc c)
    rw [split] at distinct
    exact (List.nodup_cons.mp distinct).1
  have elsewhere (d : Fin n) (apart : d ≠ c) : x ∉ Q (.alloc d) := by
    intro member
    have here : x ∈ Q (.alloc c) := by simp [split]
    exact apart (ListId.alloc_injective (valid.layout.forward.apart member here))
  have queue (d : Fin n) : update (update Q (.alloc c) l) (.free c) (x :: Q (.free c)) (.alloc d) =
      if d = c then l else Q (.alloc d) := by
    by_cases own : d = c
    · subst own
      simp
    · simp [own]
  have keeps {m : List Nat} (absent : x ∉ m) : ∀ y ∈ m, Passed now mid y = Passed now before y :=
    fun y member => passed_of_ne extra fun clash => absent (clash ▸ member)
  have yes : Passed now before x = true := decide_eq_true passed
  have own : expiredOf now before Q c = x :: expiredOf now mid (update (update Q (.alloc c) l) (.free c) (x :: Q (.free c))) c := by
    rw [expiredOf, expiredOf, split, List.takeWhile_cons, yes, if_pos rfl, queue, if_pos rfl,
      (takeWhile_dropWhile_congr (keeps off)).1]
  have others (d : Fin n) (apart : d ≠ c) :
      expiredOf now mid (update (update Q (.alloc c) l) (.free c) (x :: Q (.free c))) d = expiredOf now before Q d := by
    rw [expiredOf, expiredOf, queue, if_neg apart, (takeWhile_dropWhile_congr (keeps (elsewhere d apart))).1]
  constructor
  case valid => exact swept.valid
  case reported =>
    rw [List.map_cons, swept.reported, coresFrom_succ c, List.flatMap_cons, List.flatMap_cons, own, List.cons_append, ← same]
    refine congrArg (fun rest => x :: (_ ++ rest)) (List.flatMap_congr ?_)
    intro d member
    apply others
    rintro rfl
    simp [coresFrom] at member
  case alloc =>
    intro d
    rw [swept.alloc, queue]
    by_cases here : d = c
    · subst here
      rw [if_pos le_rfl, if_pos le_rfl, if_pos rfl, split, List.dropWhile_cons, yes, if_pos rfl,
        (takeWhile_dropWhile_congr (keeps off)).2]
    · rw [if_neg here, (takeWhile_dropWhile_congr (keeps (elsewhere d here))).2]
  case free =>
    intro d
    rw [swept.free]
    by_cases here : d = c
    · subst here
      rw [if_pos le_rfl, if_pos le_rfl, own, update_self, List.reverse_cons, List.append_assoc, List.singleton_append]
    · rw [others d here, update_of_ne fun clash => here (ListId.free.inj clash), update_of_ne (by simp)]
  case glob =>
    rw [swept.glob, update_of_ne (by simp), update_of_ne (by simp)]
  case times =>
    intro y
    rw [swept.times, extra]
    by_cases first : y = x
    · subst first
      have found : ∃ j ∈ i :: freed, y = indexShift n + j := ⟨i, List.mem_cons_self .., same⟩
      rw [if_pos found, update_self, ite_self]
    · rw [update_of_ne first]
      refine if_congr ?_ rfl rfl
      constructor
      · rintro ⟨j, member, rfl⟩
        exact ⟨j, List.mem_cons_of_mem _ member, rfl⟩
      · rintro ⟨j, member, rfl⟩
        rcases List.mem_cons.mp member with rfl | later
        · exact absurd same.symm first
        · exact ⟨j, later, rfl⟩

end Swept

section Loop
variable {n size : Nat} {now : Int} {Q : ListId n → List Nat} {c : Fin n}

/-- The rounds that the loop needs from the core `curr` on. -/
def pending (Q : ListId n → List Nat) (curr : Nat) : Nat :=
  ((coresFrom n curr).map fun c => (Q (.alloc c)).length).sum + (n - curr)

theorem pending_succ (Q : ListId n → List Nat) (c : Fin n) : pending Q c.val = (Q (.alloc c)).length + pending Q (c.val + 1) + 1 := by
  rw [pending, pending, coresFrom_succ, List.map_cons, List.sum_cons]
  omega

theorem pending_pop {x : Nat} {l free : List Nat} (split : Q (.alloc c) = x :: l) :
    pending (update (update Q (.alloc c) l) (.free c) free) c.val + 1 = pending Q c.val := by
  have later : pending (update (update Q (.alloc c) l) (.free c) free) (c.val + 1) = pending Q (c.val + 1) := by
    unfold pending
    refine congrArg (fun lengths => List.sum lengths + _) (List.map_congr_left ?_)
    intro d member
    have apart : d ≠ c := by
      rintro rfl
      simp [coresFrom] at member
    rw [update_of_ne (by simp), update_of_ne fun clash => apart (ListId.alloc.inj clash)]
  rw [pending_succ, pending_succ, later, split, update_of_ne (by simp), update_self, List.length_cons]
  omega

/-- No more rounds than there are indexes and cores. -/
theorem pending_le {cells : Cells Int} (valid : Valid n size cells Q) : pending Q 0 ≤ size + n := by
  have all : (coresFrom n 0).flatMap (fun c => Q (.alloc c)) ⊆ (List.range size).map (indexShift n + ·) := by
    intro x member
    obtain ⟨c, _, inside⟩ := List.mem_flatMap.mp member
    obtain ⟨i, below, rfl⟩ := (valid.cover x).mp ⟨_, inside⟩
    exact List.mem_map.mpr ⟨i, List.mem_range.mpr (below.trans_le (covered_le n size)), rfl⟩
  have once : ((coresFrom n 0).flatMap fun c => Q (.alloc c)).Nodup := by
    rw [List.nodup_flatMap]
    constructor
    · intro c _
      exact valid.layout.forward.nodup (.alloc c)
    · refine ((List.nodup_finRange n).filter _).pairwise_of_forall_ne ?_
      intro c _ d _ apart x left right
      exact apart (ListId.alloc_injective (valid.layout.forward.apart left right))
  have bound := (List.subperm_of_subset once all).length_le
  rw [List.length_flatMap, List.length_map, List.length_range] at bound
  unfold pending
  omega

variable {array : Nat} {get : L → Log NfosDchainExpCell} {set : Log NfosDchainExpCell → L → L} {erase : Nat → Txs L Unit}
variable {E : List Nat → L → Prop} {grants : Nat → Nat → Bool} {l : L}

/-- The calls of `expire_one_index` in a transaction over several arrays. -/
def expireOn (array : Nat) (get : L → Log NfosDchainExpCell) (set : Log NfosDchainExpCell → L → L) (numCores numFreeLists : Nat)
    (now : Int) (currFreeList : Nat) : Txs L Expiry :=
  Txs.on array get set (nfosDchainExpExpireOneIndex numCores currFreeList numFreeLists now)

/-- The induction follows the rounds: a round takes an index off its queue or goes on to the
next core. `E` is what `erase` keeps, given the indexes that have been freed. -/
theorem post_expireLoop (gets : ∀ t l, get (set t l) = t) (stable : ∀ freed t l, E freed l → E freed (set t l)) {Q₀ : ListId n → List Nat}
    (erases : ∀ freed i l, i ∉ freed → (∃ c, indexShift n + i ∈ Q₀ (.alloc c)) → E freed l →
      Txs.Post (erase i) grants l fun _ l' => get l' = get l ∧ E (freed ++ [i]) l')
    {past : List Nat} (valid : Valid n size (get l).cells Q)
    (fresh : ∀ d : Fin n, ∀ i, indexShift n + i ∈ Q (.alloc d) → indexShift n + i ∈ Q₀ (.alloc d) ∧ i ∉ past) (keeps : E past l) {rounds : Nat}
    (enough : pending Q c.val ≤ rounds) :
    Txs.Post (expireLoop (expireOn array get set n n now) erase rounds c.val) grants l fun sweep l' =>
      sweep.currFreeList = 0 ∧ sweep.done = true ∧ E (past ++ sweep.freed) l' ∧
      ∃ Q', Swept n size now c.val (get l).cells Q sweep.freed (get l').cells Q' := by
  induction rounds generalizing l Q c past with
  | zero =>
    rw [pending_succ] at enough
    omega
  | succ rounds ih =>
    rw [expireLoop, Txs.post_bind]
    apply Txs.post_on
    apply (post_expireOneIndex now valid c).mono
    intro result t outcome
    cases index : result.index with
    | some i =>
      simp only [Expired, index] at outcome
      obtain ⟨rfl, rest, split, passed, valid', extra⟩ := outcome
      obtain ⟨queued, new⟩ := fresh c i (by simp [split])
      rw [Txs.post_bind]
      apply (erases past i (set t l) new ⟨c, queued⟩ (stable past t l keeps)).mono
      rintro _ m ⟨kept, keeps'⟩
      rw [gets] at kept
      rw [← kept] at valid' extra
      have fewer : pending (update (update Q (.alloc c) rest) (.free c) ((indexShift n + i) :: Q (.free c))) c.val ≤ rounds := by
        have popped : pending (update (update Q (.alloc c) rest) (.free c) ((indexShift n + i) :: Q (.free c))) c.val + 1 =
            pending Q c.val := pending_pop split
        omega
      rw [Txs.post_bind]
      apply (ih valid' ?_ keeps' fewer).mono
      · rintro sweep m' ⟨curr, done, keeps'', Q', swept⟩
        rw [List.append_assoc, List.singleton_append] at keeps''
        exact ⟨curr, done, keeps'', Q', swept.expire valid rfl split passed extra⟩
      · intro d j member
        rw [update_of_ne (by simp)] at member
        obtain ⟨old, apart⟩ := (valid.layout.forward.mem_pop split).mp member
        obtain ⟨first, absent⟩ := fresh d j old
        refine ⟨first, ?_⟩
        rw [List.mem_append, List.mem_singleton]
        rintro (early | rfl)
        · exact absent early
        · exact apart rfl
    | none =>
      simp only [Expired, index] at outcome
      obtain ⟨same, current, rfl⟩ := outcome
      have back : get (set t l) = t := gets t l
      by_cases last : c.val + 1 ≥ n
      · simp only [nextFreeList, if_pos last, if_true, Txs.post_pure, List.append_nil]
        refine ⟨trivial, trivial, stable past t l keeps, Q, ?_⟩
        rw [back, same]
        exact Swept.skip current (Swept.nothing valid last)
      · simp only [nextFreeList, if_neg last, Bool.false_eq_true, if_false]
        have next : c.val + 1 < n := by omega
        have enough' : pending Q (⟨c.val + 1, next⟩ : Fin n).val ≤ rounds := by
          rw [pending_succ] at enough
          dsimp only
          omega
        have valid' : Valid n size (get (set t l)).cells Q := by
          rw [back, same]
          exact valid
        apply (ih (c := ⟨c.val + 1, next⟩) valid' fresh (stable past t l keeps) enough').mono
        rintro sweep m ⟨curr, done, keeps', Q', swept⟩
        rw [back, same] at swept
        exact ⟨curr, done, keeps', Q', Swept.skip current swept⟩

end Loop

section Sweep
variable {n size : Nat} {now : Int} {before after : Cells Int} {Q Q' : ListId n → List Nat} {freed : List Nat}

/-- The items at the fronts of the queues are taken up to the first whose time has not
passed. The others keep their order and their times. -/
structure Removed (now : Int) (S S' : Lru.State (Fin n) Nat) (items : List Nat) : Prop where
  once : items.Nodup
  taken : ∀ x, x ∈ items ↔ ∃ c, x ∈ (S.queue c).takeWhile fun y => decide (S.time y < now)
  queue : ∀ c, S'.queue c = (S.queue c).dropWhile fun y => decide (S.time y < now)
  left : ∀ c, ∀ x ∈ S'.queue c, x ∉ items ∧ S'.time x = S.time x

theorem mem_taken {time : Nat → Int} {l : List Nat} {x : Nat} (member : x ∈ l.takeWhile fun y => decide (time y < now)) :
    x ∈ l ∧ time x < now := by
  constructor
  · exact (List.takeWhile_sublist _).subset member
  · simpa using List.mem_takeWhile_imp member

/-- No item is taken early. -/
theorem Removed.passed {S S' : Lru.State (Fin n) Nat} {items : List Nat} (removed : Removed now S S' items) {x : Nat}
    (member : x ∈ items) : S.time x < now ∧ ∃ c, x ∈ S.queue c := by
  obtain ⟨c, inside⟩ := (removed.taken x).mp member
  exact ⟨(mem_taken inside).2, c, (mem_taken inside).1⟩

/-- If the queues are in the order of their times, exactly the items whose times have passed
are taken. -/
theorem Removed.exact {S S' : Lru.State (Fin n) Nat} {items : List Nat} (removed : Removed now S S' items) (sorted : S.Sorted) :
    (∀ x, x ∈ items ↔ (∃ c, x ∈ S.queue c) ∧ S.time x < now) ∧
    ∀ c, S'.queue c = (S.queue c).filter fun x => decide (now ≤ S.time x) := by
  constructor
  · intro x
    rw [removed.taken]
    constructor
    · rintro ⟨c, inside⟩
      exact ⟨⟨c, (mem_taken inside).1⟩, (mem_taken inside).2⟩
    · rintro ⟨⟨c, member⟩, passed⟩
      refine ⟨c, ?_⟩
      rw [(Lru.takeWhile_of_sorted (sorted c) now).1]
      exact List.mem_filter.mpr ⟨member, decide_eq_true passed⟩
  · intro c
    rw [removed.queue, (Lru.takeWhile_of_sorted (sorted c) now).2]

theorem coresFrom_zero : coresFrom n 0 = List.finRange n := by
  simp [coresFrom]

theorem Swept.reported_zero (swept : Swept n size now 0 before Q freed after Q') :
    freed.map (indexShift n + ·) = (List.finRange n).flatMap (expiredOf now before Q) := by
  rw [swept.reported, coresFrom_zero]

theorem Swept.alloc_zero (swept : Swept n size now 0 before Q freed after Q') (c : Fin n) :
    Q (.alloc c) = expiredOf now before Q c ++ Q' (.alloc c) := by
  rw [swept.alloc, if_pos (Nat.zero_le _), expiredOf, List.takeWhile_append_dropWhile]

theorem Swept.mem_items (swept : Swept n size now 0 before Q freed after Q') {x : Nat} :
    x ∈ freed.map (indexShift n + ·) ↔ ∃ c, x ∈ expiredOf now before Q c := by
  rw [swept.reported_zero]
  simp

theorem Swept.removed (valid : Valid n size before Q) (swept : Swept n size now 0 before Q freed after Q') :
    Removed now (queues valid) (queues swept.valid) (freed.map (indexShift n + ·)) := by
  have queued {c : Fin n} {x : Nat} (member : x ∈ expiredOf now before Q c) : x ∈ Q (.alloc c) := by
    rw [swept.alloc_zero c]
    exact List.mem_append_left _ member
  constructor
  case once =>
    rw [swept.reported_zero, List.nodup_flatMap]
    constructor
    · intro c _
      exact (valid.layout.forward.nodup (.alloc c)).sublist (List.takeWhile_sublist _)
    · refine (List.nodup_finRange n).pairwise_of_forall_ne ?_
      intro c _ d _ apart x left right
      exact apart (ListId.alloc_injective (valid.layout.forward.apart (queued left) (queued right)))
  case taken => exact fun x => swept.mem_items
  case queue => exact fun c => (swept.alloc c).trans (if_pos (Nat.zero_le _))
  case left =>
    intro c x member
    have absent : x ∉ freed.map (indexShift n + ·) := by
      intro taken
      obtain ⟨d, inside⟩ := swept.mem_items.mp taken
      have here : x ∈ Q (.alloc c) := by
        rw [swept.alloc_zero c]
        exact List.mem_append_right _ member
      obtain rfl := ListId.alloc_injective (valid.layout.forward.apart (queued inside) here)
      have distinct := valid.layout.forward.nodup (.alloc d)
      rw [swept.alloc_zero d] at distinct
      exact List.disjoint_of_nodup_append distinct inside member
    refine ⟨absent, ?_⟩
    have other : ¬ ∃ i ∈ freed, x = indexShift n + i := by
      rintro ⟨i, reported, rfl⟩
      exact absent (List.mem_map_of_mem reported)
    exact (swept.times x).trans (if_neg other)

/-- The freed indexes have no time again. -/
theorem Swept.timeless (valid : Valid n size before Q) (timeless : Timeless n size before)
    (swept : Swept n size now 0 before Q freed after Q') : Timeless n size after := by
  intro i within minus
  rw [swept.times]
  split
  · rfl
  · rename_i kept
    apply timeless i within
    rw [valid.ind_eq_neg_one within]
    intro c member
    rw [swept.alloc_zero c] at member
    rcases List.mem_append.mp member with gone | stays
    · obtain ⟨j, reported, same⟩ := List.mem_map.mp (swept.mem_items.mpr ⟨c, gone⟩)
      exact kept ⟨j, reported, same.symm⟩
    · exact (swept.valid.ind_eq_neg_one within).mp minus c stays

/-- The sweep on its own, from `curr_free_list` on. -/
def expireAll (numCores numFreeLists rounds : Nat) (now : Int) (currFreeList : Nat) : Txs (Log NfosDchainExpCell) Sweep :=
  expireLoop (expireOn 0 id (fun t _ => t) numCores numFreeLists now) (fun _ => return ()) rounds currFreeList

def nfosDchainExpResetCurrFreeList (chain : NfosDoubleChainExp) : NfosDoubleChainExp := { chain with currFreeList := 0 }

variable {chain : NfosDoubleChainExp} {validity : Int} {grants : Nat → Nat → Bool} {rounds : Nat}

/-- The loop ends from any state of the allocator, unless a lock is refused. -/
theorem post_expireAll (inv : Invariant n size validity chain Q) (cores : 0 < n) (enough : size + n ≤ rounds) :
    Txs.Post (expireAll n chain.numFreeLists rounds now (nfosDchainExpResetCurrFreeList chain).currFreeList) grants (.start chain.cells)
      fun sweep t => sweep.done = true ∧ sweep.currFreeList = 0 ∧
        ∃ Q', ∃ inv' : Invariant n size validity { chain with cells := t.view, currFreeList := sweep.currFreeList } Q',
          Removed now (queues inv.valid) (queues inv'.valid) (sweep.freed.map (indexShift n + ·)) := by
  have bound : pending Q (⟨0, cores⟩ : Fin n).val ≤ rounds := (pending_le inv.valid).trans enough
  have fresh : ∀ d : Fin n, ∀ i, indexShift n + i ∈ Q (.alloc d) → indexShift n + i ∈ Q (.alloc d) ∧ i ∉ ([] : List Nat) :=
    fun d i member => ⟨member, List.not_mem_nil⟩
  have start : Valid n size (id (Log.start chain.cells)).cells Q := inv.valid
  have loop : Txs.Post (expireAll n n rounds now (⟨0, cores⟩ : Fin n).val) grants (.start chain.cells) _ :=
    post_expireLoop (E := fun _ _ => True) (fun _ _ => rfl) (fun _ _ _ holds => holds) (fun _ _ l _ _ _ => Txs.post_pure.mpr ⟨rfl, trivial⟩)
      start fresh trivial bound
  rw [show chain.numFreeLists = n from inv.lists]
  apply loop.mono
  rintro sweep t ⟨curr, done, -, Q', swept⟩
  have below : sweep.currFreeList < n := by
    rw [curr]
    exact cores
  exact ⟨done, curr, Q', ⟨swept.valid, swept.timeless inv.valid inv.timeless, below, rfl, inv.validity⟩,
    swept.removed inv.valid⟩

/-- After any run the sweep ends and takes no index early. If the times of the calls did not
decrease, it takes all indexes whose times have passed. -/
theorem expiry_sweep_exact (tscHz : Nat) (usecs : Int) (cores : 0 < n) (room : n ≤ size) (memory : Cells Int) :
    ∃ chain, nfosDchainExpAllocate tscHz memory size usecs n = some chain ∧
      ∀ history chain', Trace (Step n size) chain history chain' →
        ∀ now rounds grants, size + n ≤ rounds → ∃ Q, ∃ inv : Invariant n size (nfosUsecToTscCycles tscHz usecs) chain' Q,
          Txs.Post (expireAll n chain'.numFreeLists rounds now (nfosDchainExpResetCurrFreeList chain').currFreeList) grants
            (.start chain'.cells) fun sweep t => sweep.done = true ∧ sweep.currFreeList = 0 ∧
              ∃ Q', ∃ inv' : Invariant n size (nfosUsecToTscCycles tscHz usecs)
                  { chain' with cells := t.view, currFreeList := sweep.currFreeList } Q',
                Removed now (queues inv.valid) (queues inv'.valid) (sweep.freed.map (indexShift n + ·)) ∧
                ((history.filterMap Lru.Event.stamp).Pairwise (· ≤ ·) →
                  (∀ i, i ∈ sweep.freed ↔ (∃ c, indexShift n + i ∈ (queues inv.valid).queue c) ∧
                    (queues inv.valid).time (indexShift n + i) < now) ∧
                  ∀ c, (queues inv'.valid).queue c =
                    ((queues inv.valid).queue c).filter fun x => decide (now ≤ (queues inv.valid).time x)) := by
  obtain ⟨chain, ended, initial⟩ := allocate_invariant tscHz usecs cores room memory
  refine ⟨chain, ended, ?_⟩
  intro history chain' run now rounds grants enough
  obtain ⟨Q, inv, abstract⟩ := run_refines initial run
  refine ⟨Q, inv, (post_expireAll inv cores enough).mono ?_⟩
  rintro sweep t ⟨done, curr, Q', inv', removed⟩
  refine ⟨done, curr, Q', inv', removed, ?_⟩
  intro order
  obtain ⟨items, queue⟩ := removed.exact (Lru.sorted_of_stamps abstract (fun _ => rfl) order)
  refine ⟨?_, queue⟩
  intro i
  rw [← items, List.mem_map]
  constructor
  · intro reported
    exact ⟨i, reported, rfl⟩
  · rintro ⟨j, reported, same⟩
    rwa [← Nat.add_left_cancel same]

/-- Five indexes over two cores, valid for one second of a gigahertz counter. -/
theorem expiry_sweep_two_cores : 0 < 2 ∧ 2 ≤ 5 ∧ ∀ memory : Cells Int,
    ∃ chain, nfosDchainExpAllocate 1000000000 memory 5 1000000 2 = some chain ∧
      ∀ history chain', Trace (Step 2 5) chain history chain' →
        ∀ now rounds grants, 5 + 2 ≤ rounds → ∃ Q, ∃ inv : Invariant 2 5 (nfosUsecToTscCycles 1000000000 1000000) chain' Q,
          Txs.Post (expireAll 2 chain'.numFreeLists rounds now (nfosDchainExpResetCurrFreeList chain').currFreeList) grants
            (.start chain'.cells) fun sweep t => sweep.done = true ∧ sweep.currFreeList = 0 ∧
              ∃ Q', ∃ inv' : Invariant 2 5 (nfosUsecToTscCycles 1000000000 1000000)
                  { chain' with cells := t.view, currFreeList := sweep.currFreeList } Q',
                Removed now (queues inv.valid) (queues inv'.valid) (sweep.freed.map (indexShift 2 + ·)) ∧
                ((history.filterMap Lru.Event.stamp).Pairwise (· ≤ ·) →
                  (∀ i, i ∈ sweep.freed ↔ (∃ c, indexShift 2 + i ∈ (queues inv.valid).queue c) ∧
                    (queues inv.valid).time (indexShift 2 + i) < now) ∧
                  ∀ c, (queues inv'.valid).queue c =
                    ((queues inv.valid).queue c).filter fun x => decide (now ≤ (queues inv.valid).time x)) :=
  ⟨by decide, by decide, fun memory => expiry_sweep_exact 1000000000 1000000 (by decide) (by decide) memory⟩

end Sweep
end Nfos.DoubleChainExp
