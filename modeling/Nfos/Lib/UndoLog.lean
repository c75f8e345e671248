import Mathlib.Logic.Function.Basic
import Mathlib.Data.List.Duplicate

/-! Undo logs. Every write is preceded by a copy of the value it may replace. An
undo that replays the copies oldest first leaves the copy that was taken last. -/
namespace UndoLog
open Function
variable {K V : Type} [DecidableEq K]

/-- Write the values of a list of entries, first to last. -/
def replay (entries : List (K × V)) (m : K → V) : K → V :=
  entries.foldl (fun m entry => update m entry.1 entry.2) m

/-- The copies that are taken before each of the writes. -/
def copies : (K → V) → List (K × V) → List (K × V)
  | _, [] => []
  | m, (x, v) :: rest => (x, m x) :: copies (update m x v) rest

variable {entries front back : List (K × V)} {m : K → V} {x : K} {v : V}

@[simp] theorem replay_nil : replay [] m = m := rfl

@[simp] theorem replay_cons : replay ((x, v) :: entries) m = replay entries (update m x v) := rfl

theorem replay_append : replay (front ++ back) m = replay back (replay front m) := List.foldl_append

@[simp] theorem length_copies (m : K → V) : (copies m entries).length = entries.length := by
  induction entries generalizing m with
  | nil => rfl
  | cons entry rest ih => simp [copies, ih]

@[simp] theorem keys_copies (m : K → V) : (copies m entries).map Prod.fst = entries.map Prod.fst := by
  induction entries generalizing m with
  | nil => rfl
  | cons entry rest ih => simp [copies, ih]

theorem copies_append (m : K → V) (front back : List (K × V)) : copies m (front ++ back) = copies m front ++ copies (replay front m) back := by
  induction front generalizing m with
  | nil => rfl
  | cons entry rest ih =>
    obtain ⟨x, v⟩ := entry
    simp [copies, ih]

theorem replay_of_not_mem (absent : x ∉ entries.map Prod.fst) (m : K → V) : replay entries m x = m x := by
  induction entries generalizing m with
  | nil => rfl
  | cons entry rest ih =>
    simp only [List.map_cons, List.mem_cons, not_or] at absent
    obtain ⟨apart, absent⟩ := absent
    exact (ih absent _).trans (update_of_ne apart _ _)

/-- The last entry of a key decides. -/
theorem replay_of_last (absent : x ∉ back.map Prod.fst) (m : K → V) :
    replay (front ++ (x, v) :: back) m x = v := by
  rw [replay_append, replay_cons, replay_of_not_mem absent, update_self]

/-- A key has a last entry. -/
theorem exists_last (present : x ∈ entries.map Prod.fst) :
    ∃ front v back, entries = front ++ (x, v) :: back ∧ x ∉ back.map Prod.fst := by
  induction entries with
  | nil => simp at present
  | cons entry rest ih =>
    by_cases later : x ∈ rest.map Prod.fst
    · obtain ⟨front, v, back, rfl, absent⟩ := ih later
      exact ⟨entry :: front, v, back, rfl, absent⟩
    · rcases List.mem_cons.mp present with rfl | later'
      · exact ⟨[], entry.2, rest, rfl, later⟩
      · contradiction

/-- No write of a key before its last one has changed its value. -/
def Settled (m : K → V) (entries : List (K × V)) : Prop :=
  ∀ front x v back, entries = front ++ (x, v) :: back → x ∉ back.map Prod.fst →
    replay front m x = m x

/-- The undo of some writes is exact if and only if they are settled. -/
theorem replay_copies_iff : replay (copies m entries) (replay entries m) = m ↔ Settled m entries := by
  constructor
  · intro exact front x v back split absent
    have restored := congrFun exact x
    rw [split, copies_append, copies,
      replay_of_last (by rwa [keys_copies])] at restored
    exact restored
  · intro settled
    funext x
    by_cases present : x ∈ entries.map Prod.fst
    · obtain ⟨front, v, back, rfl, absent⟩ := exists_last present
      rw [copies_append, copies, replay_of_last (by rwa [keys_copies])]
      exact settled front x v back rfl absent
    · rw [replay_of_not_mem (by rwa [keys_copies]), replay_of_not_mem present]

theorem settled_of_nodup (distinct : (entries.map Prod.fst).Nodup) : Settled m entries := by
  intro front x v back split absent
  apply replay_of_not_mem
  rw [split, List.map_append, List.nodup_append] at distinct
  intro earlier
  exact distinct.2.2 x earlier x (by simp) rfl

omit [DecidableEq K] in
theorem exists_between (twice : List.Duplicate x (entries.map Prod.fst)) :
    ∃ front v back, entries = front ++ (x, v) :: back ∧ x ∈ back.map Prod.fst := by
  induction entries with
  | nil => exact absurd twice (List.not_duplicate_nil x)
  | cons entry rest ih =>
    rcases List.duplicate_cons_iff.mp twice with ⟨rfl, again⟩ | later
    · exact ⟨[], entry.2, rest, rfl, again⟩
    · obtain ⟨front, v, back, rfl, again⟩ := ih later
      exact ⟨entry :: front, v, back, rfl, again⟩

/-- A key that is written twice, with a value other than its first one each time,
is not settled. -/
theorem not_settled {t : V} (changes : t ≠ m x) (constant : ∀ entry ∈ entries, entry.2 = t)
    (twice : List.Duplicate x (entries.map Prod.fst)) : ¬ Settled m entries := by
  intro settled
  obtain ⟨front, v, back, rfl, again⟩ := exists_between twice
  obtain ⟨middle, w, last, rfl, absent⟩ := exists_last again
  have kept := settled (front ++ (x, v) :: middle) x w last (by simp) absent
  have present : x ∈ (front ++ (x, v) :: middle).map Prod.fst := by simp
  obtain ⟨before, u, after, split, absent⟩ := exists_last present
  rw [split, replay_of_last absent] at kept
  refine changes ?_
  rw [← kept]
  have member : (x, u) ∈ front ++ (x, v) :: middle := by simp [split]
  refine (constant (x, u) ?_).symm
  simp only [List.mem_append, List.mem_cons] at member ⊢
  tauto

end UndoLog
