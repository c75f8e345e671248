import Nfos.Lib.Txs

/-! `NfosVector`: the elements are the objects of the transactions. -/
namespace Nfos.Vectors
open Txn Tx
variable {σ α L : Type}

/-- The elements by their indexes. -/
abbrev Elements (σ : Type) : Type := Nat → σ

/-- An access outside of the vector is a fault. -/
def atIndex (capacity : Nat) (index : Int) (program : Nat → Txs L α) : Txs L α :=
  if 0 ≤ index ∧ index < capacity then program index.toNat else Txs.fault

/-- The element as the transaction sees it. -/
def nfosVectorBorrow (index : Nat) : Tx σ σ := do
  read (← deref index)

/-- The pending copy of the element. -/
def nfosVectorBorrowMut (index : Nat) : Tx σ (Ref σ) := tryLockAt index

variable {grants : Nat → Bool} {t : Log σ} {index array : Nat} {get : L → Log σ} {set : Log σ → L → L} {l : L}

theorem atIndex_eq {capacity : Nat} (program : Nat → Txs L α) (within : index < capacity) :
    atIndex capacity (index : Int) program = program index := by
  simp [atIndex, within]

theorem looks_atIndex {capacity : Nat} {i : Int} {program : Nat → Txs L α} (looks : ∀ k, Txs.Looks (program k)) :
    Txs.Looks (atIndex capacity i program) :=
  Txs.looks_ite (fun _ => looks i.toNat) fun _ => Txs.looks_fault

theorem nfosVectorBorrow_run : nfosVectorBorrow index grants t = .ok (t.view index, t) := by
  change Except.ok (t.read (t.ref index), t) = _
  rw [Log.read_ref]

@[simp] theorem post_nfosVectorBorrow {ensures : σ → Log σ → Prop} :
    Post (nfosVectorBorrow index) grants t ensures ↔ ensures (t.view index) t := by
  simp [nfosVectorBorrow]

theorem post_nfosVectorBorrowMut {ensures : Ref σ → Log σ → Prop} (locked : ensures (.pending index) (t.lock index)) :
    Post (nfosVectorBorrowMut index) grants t ensures := post_tryLockAt locked

theorem ensures_nfosVectorBorrow {Q : σ → L → Prop} (same : set (get l) l = l) (holds : Q ((get l).view index) l) :
    Txs.Ensures (Txs.on array get set (nfosVectorBorrow index)) l Q := by
  apply Txs.ensures_on
  intro grants
  rw [post_nfosVectorBorrow, same]
  exact holds

theorem ensures_nfosVectorBorrowMut {Q : Ref σ → L → Prop} (holds : Q (.pending index) (set ((get l).lock index) l)) :
    Txs.Ensures (Txs.on array get set (nfosVectorBorrowMut index)) l Q := by
  apply Txs.ensures_on
  intro grants
  exact post_nfosVectorBorrowMut holds

/-- A write to the pending copy of an element. -/
theorem ensures_modify {Q : Unit → L → Prop} {f : σ → σ}
    (holds : Q () (set ((get l).set index (f ((get l).view index))) l)) :
    Txs.Ensures (Txs.on array get set (modify (.pending index) f)) l Q := by
  apply Txs.ensures_on
  intro grants
  exact post_modify.mpr holds

end Nfos.Vectors
