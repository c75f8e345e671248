import Mathlib.Data.List.Induction

/-! The last one of the longest entries of a table that match a query. -/
namespace LongestMatch
variable {R A : Type} (covers : R → A → Prop) (len : R → Nat) [∀ r a, Decidable (covers r a)]

/-- An entry that matches at least as long as the current one replaces it. -/
def better (x : A) (current : Option R) (r : R) : Option R :=
  if covers r x ∧ ∀ c ∈ current, len c ≤ len r then some r else current

def best (table : List R) (x : A) : Option R := table.foldl (better covers len x) none

theorem best_extend (table : List R) (r : R) (x : A) :
    best covers len (table ++ [r]) x = better covers len x (best covers len table x) r := List.foldl_append

/-- The entry matches, no entry is longer, and all entries added later are shorter. -/
def Chosen (table : List R) (x : A) (r : R) : Prop :=
  ∃ before after, table = before ++ r :: after ∧ covers r x ∧
    (∀ q ∈ before, covers q x → len q ≤ len r) ∧ ∀ q ∈ after, covers q x → len q < len r

theorem best_spec (table : List R) (x : A) : match best covers len table x with
    | some r => Chosen covers len table x r
    | none => ∀ q ∈ table, ¬ covers q x := by
  induction table using List.reverseRecOn with
  | nil => simp [best]
  | append_singleton table r ih =>
    rw [best_extend, better]
    split
    · rename_i current ended
      split at ended
      · rename_i replaced
        obtain rfl := Option.some.inj ended
        refine ⟨table, [], rfl, replaced.1, ?_, by simp⟩
        intro q member matching
        cases old : best covers len table x with
        | none =>
          rw [old] at ih
          exact absurd matching (ih q member)
        | some c =>
          rw [old] at ih
          obtain ⟨before, after, rfl, _, early, late⟩ := ih
          have shorter : len c ≤ len r := replaced.2 c old
          rcases List.mem_append.mp member with first | last
          · exact Nat.le_trans (early q first matching) shorter
          · rcases List.mem_cons.mp last with rfl | later
            · exact shorter
            · exact Nat.le_trans (Nat.le_of_lt (late q later matching)) shorter
      · rename_i kept
        rw [ended] at ih kept
        obtain ⟨before, after, rfl, matching, early, late⟩ := ih
        refine ⟨before, after ++ [r], by simp, matching, early, ?_⟩
        intro q member covered
        rcases List.mem_append.mp member with old | new
        · exact late q old covered
        · obtain rfl := List.mem_singleton.mp new
          by_contra long
          exact kept ⟨covered, fun c same => Option.mem_some.mp same ▸ Nat.le_of_not_lt long⟩
    · rename_i ended
      split at ended
      · contradiction
      · rename_i kept
        rw [ended] at ih kept
        intro q member
        rcases List.mem_append.mp member with old | new
        · exact ih q old
        · obtain rfl := List.mem_singleton.mp new
          intro covered
          exact kept ⟨covered, by simp⟩

end LongestMatch
