import Mathlib.Data.List.Basic
import Mathlib.Order.Basic

/-! Finite runs of a labelled step relation, extended at their last state. What
every step preserves is preserved by every run, with the labels as history. -/
namespace Run
variable {S E : Type}

/-- `Trace step s history t`: some run from `s` with exactly these labels ends in `t`. -/
inductive Trace (step : S → E → S → Prop) (s : S) : List E → S → Prop where
  | start : Trace step s [] s
  | extend {history : List E} {t u : S} {e : E} :
      Trace step s history t → step t e u → Trace step s (history ++ [e]) u

variable {step : S → E → S → Prop} {s t : S} {history : List E}

/-- A statement about the history and the state, established at the start and
kept by every step of a run, holds at the end of the run. -/
theorem Trace.rule {P : List E → S → Prop} (trace : Trace step s history t) (initial : P [] s)
    (keeps : ∀ past t e u, Trace step s past t → P past t → step t e u → P (past ++ [e]) u) :
    P history t := by
  induction trace with
  | start => exact initial
  | extend before last ih => exact keeps _ _ _ _ before ih last

/-- The history-free form for plain state invariants. -/
theorem Trace.keeps {P : S → Prop} (trace : Trace step s history t) (initial : P s)
    (keeps : ∀ t e u, P t → step t e u → P u) : P t :=
  trace.rule (P := fun _ t => P t) initial fun _ t e u _ kept last => keeps t e u kept last

/-- A run is continued by another one. -/
theorem Trace.append {u : S} {later : List E} (first : Trace step s history t)
    (second : Trace step t later u) : Trace step s (history ++ later) u := by
  induction second with
  | start => rwa [List.append_nil]
  | extend before last ih =>
    rw [← List.append_assoc]
    exact ih.extend last

/-- A run is cut at any point of its history. -/
theorem Trace.split {past later : List E} (trace : Trace step s (past ++ later) t) :
    ∃ u, Trace step s past u ∧ Trace step u later t := by
  generalize joined : past ++ later = history at trace
  induction trace generalizing later with
  | start =>
    obtain ⟨rfl, rfl⟩ := List.append_eq_nil_iff.mp joined
    exact ⟨s, .start, .start⟩
  | extend before last ih =>
    rcases List.eq_nil_or_concat later with rfl | ⟨rest, e, rfl⟩
    · rw [List.append_nil] at joined
      rw [joined]
      exact ⟨_, before.extend last, .start⟩
    · rw [List.concat_eq_append, ← List.append_assoc] at joined
      obtain ⟨same, final⟩ := List.append_inj' joined rfl
      obtain ⟨u, first, second⟩ := ih same
      rw [List.concat_eq_append, (List.cons.inj final).1]
      exact ⟨u, first, second.extend last⟩

theorem Trace.eq_of_nil (trace : Trace step s history t) (empty : history = []) : t = s := by
  cases trace with
  | start => rfl
  | extend before last => simp at empty

theorem Trace.single {e : E} (trace : Trace step s [e] t) : step s e t := by
  generalize whole : [e] = history at trace
  cases trace with
  | start => simp at whole
  | extend before last =>
    obtain ⟨empty, final⟩ := List.append_inj' (show [] ++ [e] = _ ++ [_] from whole) rfl
    rw [before.eq_of_nil empty.symm] at last
    rwa [(List.cons.inj final).1]

/-- The rule for runs whose labels carry times: a statement about a state and the latest time, kept by
the steps at that time. -/
theorem Trace.in_order {T : Type} [Preorder T] {stamp : E → Option T} {P : T → S → Prop} (trace : Trace step s history t)
    (initial : ∀ latest, P latest s) (later : ∀ {latest latest' t}, latest ≤ latest' → P latest t → P latest' t)
    (keeps : ∀ latest t e u, P latest t → step t e u → (∀ now, stamp e = some now → now = latest) → P latest u)
    (order : (history.filterMap stamp).Pairwise (· ≤ ·)) {latest : T} (bound : ∀ now ∈ history.filterMap stamp, now ≤ latest) :
    P latest t := by
  have all := trace.rule (P := fun history t => (history.filterMap stamp).Pairwise (· ≤ ·) →
    ∀ latest, (∀ now ∈ history.filterMap stamp, now ≤ latest) → P latest t) (fun _ latest _ => initial latest) (by
    rintro past t e u _ before last order latest bound
    rw [List.filterMap_append, List.pairwise_append] at order
    cases stamped : stamp e with
    | none =>
      have kept := before order.1 latest fun now member => bound now (by simp [member])
      exact keeps latest t e u kept last fun now same => nomatch stamped.symm.trans same
    | some now =>
      have kept := before order.1 now fun earlier member => order.2.2 earlier member now (by simp [stamped])
      have here := keeps now t e u kept last fun now' same => Option.some.inj (same.symm.trans stamped)
      exact later (bound now (by simp [stamped])) here)
  exact all order latest bound

end Run
