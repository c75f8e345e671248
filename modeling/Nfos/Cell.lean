import Nfos.Layout
import Nfos.Lib.Txn

/-! Cells of the index allocators. The three cell structs of the source share
`prev`, `next` and `list_ind`; `ε` stands for the fields an allocator adds. An
array of cells is read through one function per field. -/
namespace Nfos
open Function

@[ext] structure Cell (ε : Type) where
  prev : Nat
  next : Nat
  /-- Offset of the allocated list that holds the cell, -1 for a free cell. -/
  listInd : Int
  extra : ε
  deriving DecidableEq

abbrev Cells (ε : Type) := Nat → Cell ε

variable {ε : Type}

namespace Cells

def nextOf (cells : Cells ε) (i : Nat) : Nat := (cells i).next
def prevOf (cells : Cells ε) (i : Nat) : Nat := (cells i).prev
def indOf (cells : Cells ε) (i : Nat) : Int := (cells i).listInd
def extraOf (cells : Cells ε) (i : Nat) : ε := (cells i).extra

def setNext (cells : Cells ε) (i v : Nat) : Cells ε := update cells i { cells i with next := v }
def setPrev (cells : Cells ε) (i v : Nat) : Cells ε := update cells i { cells i with prev := v }
def setInd (cells : Cells ε) (i : Nat) (v : Int) : Cells ε :=
  update cells i { cells i with listInd := v }
def setExtra (cells : Cells ε) (i : Nat) (v : ε) : Cells ε :=
  update cells i { cells i with extra := v }

private theorem field_update {β : Type} (f : Cell ε → β) (cells : Cells ε) (i : Nat) (c : Cell ε) :
    (fun j => f (update cells i c j)) = update (fun j => f (cells j)) i (f c) := by
  funext j
  by_cases same : j = i
  · simp [same]
  · simp [update_of_ne same]

section Fields
variable (cells : Cells ε) (i v : Nat) (ind : Int) (e : ε)

@[simp] theorem nextOf_setNext : (cells.setNext i v).nextOf = update cells.nextOf i v :=
  field_update Cell.next cells i _
@[simp] theorem prevOf_setPrev : (cells.setPrev i v).prevOf = update cells.prevOf i v :=
  field_update Cell.prev cells i _
@[simp] theorem indOf_setInd : (cells.setInd i ind).indOf = update cells.indOf i ind :=
  field_update Cell.listInd cells i _
@[simp] theorem extraOf_setExtra : (cells.setExtra i e).extraOf = update cells.extraOf i e :=
  field_update Cell.extra cells i _

@[simp] theorem prevOf_setNext : (cells.setNext i v).prevOf = cells.prevOf :=
  (field_update Cell.prev cells i _).trans (update_eq_self i cells.prevOf)
@[simp] theorem indOf_setNext : (cells.setNext i v).indOf = cells.indOf :=
  (field_update Cell.listInd cells i _).trans (update_eq_self i cells.indOf)
@[simp] theorem extraOf_setNext : (cells.setNext i v).extraOf = cells.extraOf :=
  (field_update Cell.extra cells i _).trans (update_eq_self i cells.extraOf)
@[simp] theorem nextOf_setPrev : (cells.setPrev i v).nextOf = cells.nextOf :=
  (field_update Cell.next cells i _).trans (update_eq_self i cells.nextOf)
@[simp] theorem indOf_setPrev : (cells.setPrev i v).indOf = cells.indOf :=
  (field_update Cell.listInd cells i _).trans (update_eq_self i cells.indOf)
@[simp] theorem extraOf_setPrev : (cells.setPrev i v).extraOf = cells.extraOf :=
  (field_update Cell.extra cells i _).trans (update_eq_self i cells.extraOf)
@[simp] theorem nextOf_setInd : (cells.setInd i ind).nextOf = cells.nextOf :=
  (field_update Cell.next cells i _).trans (update_eq_self i cells.nextOf)
@[simp] theorem prevOf_setInd : (cells.setInd i ind).prevOf = cells.prevOf :=
  (field_update Cell.prev cells i _).trans (update_eq_self i cells.prevOf)
@[simp] theorem extraOf_setInd : (cells.setInd i ind).extraOf = cells.extraOf :=
  (field_update Cell.extra cells i _).trans (update_eq_self i cells.extraOf)
@[simp] theorem nextOf_setExtra : (cells.setExtra i e).nextOf = cells.nextOf :=
  (field_update Cell.next cells i _).trans (update_eq_self i cells.nextOf)
@[simp] theorem prevOf_setExtra : (cells.setExtra i e).prevOf = cells.prevOf :=
  (field_update Cell.prev cells i _).trans (update_eq_self i cells.prevOf)
@[simp] theorem indOf_setExtra : (cells.setExtra i e).indOf = cells.indOf :=
  (field_update Cell.listInd cells i _).trans (update_eq_self i cells.indOf)

end Fields

end Cells

end Nfos

/-! Field reads and assignments through references of a transaction. -/
namespace Txn.Log
open Nfos
variable {ε : Type} (t : Log (Cell ε)) (i v : Nat) (ind : Int) (e : ε)

def cells : Cells ε := t.view

def nextAt (r : Ref (Cell ε)) : Nat := (t.read r).next
def prevAt (r : Ref (Cell ε)) : Nat := (t.read r).prev
def indAt (r : Ref (Cell ε)) : Int := (t.read r).listInd
def extraAt (r : Ref (Cell ε)) : ε := (t.read r).extra

def putNext : Log (Cell ε) := t.set i { t.view i with next := v }
def putPrev : Log (Cell ε) := t.set i { t.view i with prev := v }
def putInd : Log (Cell ε) := t.set i { t.view i with listInd := ind }
def putExtra : Log (Cell ε) := t.set i { t.view i with extra := e }

@[simp] theorem cells_start (cells : Cells ε) : (start cells).cells = cells := rfl
@[simp] theorem cells_lock : (t.lock i).cells = t.cells := t.view_lock i
@[simp] theorem cells_putNext : (t.putNext i v).cells = t.cells.setNext i v := t.view_set i _
@[simp] theorem cells_putPrev : (t.putPrev i v).cells = t.cells.setPrev i v := t.view_set i _
@[simp] theorem cells_putInd : (t.putInd i ind).cells = t.cells.setInd i ind := t.view_set i _
@[simp] theorem cells_putExtra : (t.putExtra i e).cells = t.cells.setExtra i e := t.view_set i _

@[simp] theorem nextAt_pending : t.nextAt (.pending i) = t.cells.nextOf i := rfl
@[simp] theorem prevAt_pending : t.prevAt (.pending i) = t.cells.prevOf i := rfl
@[simp] theorem extraAt_pending : t.extraAt (.pending i) = t.cells.extraOf i := rfl
@[simp] theorem nextAt_ref : t.nextAt (t.ref i) = t.cells.nextOf i := congrArg Cell.next (t.read_ref i)
@[simp] theorem prevAt_ref : t.prevAt (t.ref i) = t.cells.prevOf i := congrArg Cell.prev (t.read_ref i)
@[simp] theorem indAt_ref : t.indAt (t.ref i) = t.cells.indOf i := congrArg Cell.listInd (t.read_ref i)
@[simp] theorem extraAt_ref : t.extraAt (t.ref i) = t.cells.extraOf i :=
  congrArg Cell.extra (t.read_ref i)

section Apart
variable {t i v ind e} {r : Ref (Cell ε)}

@[simp] theorem nextAt_lock : (t.lock i).nextAt r = t.nextAt r := congrArg Cell.next (t.read_lock i r)
@[simp] theorem prevAt_lock : (t.lock i).prevAt r = t.prevAt r := congrArg Cell.prev (t.read_lock i r)
@[simp] theorem extraAt_lock : (t.lock i).extraAt r = t.extraAt r :=
  congrArg Cell.extra (t.read_lock i r)

theorem prevAt_putPrev (apart : r.object ≠ i) : (t.putPrev i v).prevAt r = t.prevAt r :=
  congrArg Cell.prev (t.read_set_of_ne apart _)
theorem prevAt_putInd (apart : r.object ≠ i) : (t.putInd i ind).prevAt r = t.prevAt r :=
  congrArg Cell.prev (t.read_set_of_ne apart _)
theorem prevAt_putExtra (apart : r.object ≠ i) : (t.putExtra i e).prevAt r = t.prevAt r :=
  congrArg Cell.prev (t.read_set_of_ne apart _)

end Apart
end Txn.Log

namespace Nfos.CellField
open Txn Tx
variable {ε : Type}

def next (r : Ref (Cell ε)) : Tx (Cell ε) Nat := do return (← read r).next
def prev (r : Ref (Cell ε)) : Tx (Cell ε) Nat := do return (← read r).prev
def listInd (r : Ref (Cell ε)) : Tx (Cell ε) Int := do return (← read r).listInd
def extra (r : Ref (Cell ε)) : Tx (Cell ε) ε := do return (← read r).extra

def setNext (r : Ref (Cell ε)) (v : Nat) : Tx (Cell ε) Unit := modify r fun c => { c with next := v }
def setPrev (r : Ref (Cell ε)) (v : Nat) : Tx (Cell ε) Unit := modify r fun c => { c with prev := v }
def setListInd (r : Ref (Cell ε)) (v : Int) : Tx (Cell ε) Unit :=
  modify r fun c => { c with listInd := v }
def setExtra (r : Ref (Cell ε)) (v : ε) : Tx (Cell ε) Unit := modify r fun c => { c with extra := v }

variable {grants : Nat → Bool} {t : Log (Cell ε)} {i v : Nat} {ind : Int} {e : ε} {r : Ref (Cell ε)}

@[simp] theorem post_next {ensures : Nat → Log (Cell ε) → Prop} :
    Post (next r) grants t ensures ↔ ensures (t.nextAt r) t := Iff.rfl
@[simp] theorem post_prev {ensures : Nat → Log (Cell ε) → Prop} :
    Post (prev r) grants t ensures ↔ ensures (t.prevAt r) t := Iff.rfl
@[simp] theorem post_listInd {ensures : Int → Log (Cell ε) → Prop} :
    Post (listInd r) grants t ensures ↔ ensures (t.indAt r) t := Iff.rfl
@[simp] theorem post_extra {ensures : ε → Log (Cell ε) → Prop} :
    Post (extra r) grants t ensures ↔ ensures (t.extraAt r) t := Iff.rfl

variable {ensures : Unit → Log (Cell ε) → Prop}

@[simp] theorem post_setNext :
    Post (setNext (.pending i) v) grants t ensures ↔ ensures () (t.putNext i v) := Iff.rfl
@[simp] theorem post_setPrev :
    Post (setPrev (.pending i) v) grants t ensures ↔ ensures () (t.putPrev i v) := Iff.rfl
@[simp] theorem post_setListInd :
    Post (setListInd (.pending i) ind) grants t ensures ↔ ensures () (t.putInd i ind) := Iff.rfl
@[simp] theorem post_setExtra :
    Post (setExtra (.pending i) e) grants t ensures ↔ ensures () (t.putExtra i e) := Iff.rfl

end Nfos.CellField
