import Nfos.FwNat
import Nfos.EiNat

/-! The locks that are granted to a handler decide only whether it ends. -/
namespace Nfos
open Txn Tx CellField

section Cells
variable {ε : Type} {numCores core : Nat}

theorem steady_next (r : Ref (Cell ε)) : Steady (next r) := (steady_read r).bind fun _ => steady_pure _

theorem steady_prev (r : Ref (Cell ε)) : Steady (prev r) := (steady_read r).bind fun _ => steady_pure _

theorem steady_migrateOne (head : Ref (Cell ε)) (i : Nat) (allocp : Option (Ref (Cell ε))) :
    Steady (AllocateIndex.migrateOne numCores head i allocp) := by
  refine (steady_deref _).bind fun listHead => (steady_next _).bind fun migrated => ?_
  apply steady_ite
  · exact fun _ => steady_pure _
  · intro _
    refine (steady_tryLock _).bind fun listHead => (steady_deref _).bind fun migratedp => (steady_next _).bind fun _ => ?_
    refine (steady_modify _ _).bind fun _ => (steady_next _).bind fun _ => (steady_modify _ _).bind fun _ => ?_
    refine (steady_tryLock _).bind fun migratedp => (steady_next _).bind fun _ => (steady_modify _ _).bind fun _ => ?_
    refine (steady_next _).bind fun _ => (steady_modify _ _).bind fun _ => (steady_modify _ _).bind fun _ => ?_
    refine (steady_modify _ _).bind fun _ => (steady_next _).bind fun _ => (steady_modify _ _).bind fun _ => ?_
    exact steady_pure _

theorem steady_migrate (head : Ref (Cell ε)) (cores : List Nat) (allocp : Option (Ref (Cell ε))) :
    Steady (AllocateIndex.migrate numCores head cores allocp) := by
  induction cores generalizing allocp with
  | nil => exact steady_pure _
  | cons i rest ih => exact (steady_migrateOne head i allocp).bind ih

theorem steady_extract (head allocp : Ref (Cell ε)) : Steady (AllocateIndex.extract head allocp) := by
  refine (steady_next _).bind fun _ => (steady_modify _ _).bind fun _ => (steady_next _).bind fun _ => ?_
  exact steady_modify _ _

theorem steady_getFreeIndex : Steady (AllocateIndex.getFreeIndex numCores core : Tx (Cell ε) _) := by
  refine (steady_deref _).bind fun flHead => (steady_next _).bind fun allocated => ?_
  apply steady_ite
  · intro _
    refine (steady_tryLockAt _).bind fun head => (steady_next _).bind fun allocated => ?_
    apply steady_ite
    · intro _
      refine (steady_migrate _ _ _).bind fun allocp => (steady_next _).bind fun allocated => ?_
      apply steady_ite
      · exact fun _ => steady_pure _
      · intro _
        cases allocp with
        | none => exact steady_fault
        | some allocp => exact (steady_extract _ _).bind fun _ => steady_pure _
    · intro _
      exact (steady_tryLockAt _).bind fun _ => (steady_extract _ _).bind fun _ => steady_pure _
  · intro _
    refine (steady_tryLockAt _).bind fun _ => (steady_tryLock _).bind fun _ => (steady_extract _ _).bind fun _ => ?_
    exact steady_pure _

theorem steady_install (stamp : ε → ε) (allocated : Nat) (allocp : Ref (Cell ε)) :
    Steady (AllocateIndex.install stamp core allocated allocp) := by
  refine (steady_modify _ _).bind fun _ => (steady_deref _).bind fun alHead => (steady_prev _).bind fun _ => ?_
  refine (steady_modify _ _).bind fun _ => (steady_modify _ _).bind fun _ => ?_
  refine Steady.bind ((steady_read _).bind fun _ => steady_pure _) fun _ => (steady_modify _ _).bind fun _ => ?_
  refine (steady_prev _).bind fun _ => (steady_prev _).bind fun _ => ?_
  apply steady_ite
  · intro _
    refine (steady_tryLockAt _).bind fun _ => (steady_modify _ _).bind fun _ => (steady_tryLock _).bind fun _ => ?_
    exact steady_modify _ _
  · intro _
    refine (steady_tryLock _).bind fun _ => (steady_modify _ _).bind fun _ => ?_
    exact steady_modify _ _

theorem steady_allocateNewIndex (stamp : ε → ε) : Steady (AllocateIndex.allocateNewIndex stamp numCores core) := by
  refine steady_getFreeIndex.bind fun found => ?_
  cases found with
  | none => exact steady_pure _
  | some pair => exact (steady_install _ _ _).bind fun _ => steady_pure _

theorem steady_unlink (p q : Nat) : Steady (DoubleChain.unlink p q) := by
  apply steady_ite
  · intro _
    refine (steady_tryLockAt _).bind fun _ => (steady_tryLockAt _).bind fun _ => (steady_modify _ _).bind fun _ => ?_
    exact steady_modify _ _
  · intro _
    refine (steady_tryLockAt _).bind fun _ => (steady_modify _ _).bind fun _ => ?_
    exact steady_modify _ _

theorem steady_linkFree (freed : Nat) (freedp : Ref DoubleChain.NfosDchainCell) :
    Steady (DoubleChain.linkFree numCores core freed freedp) := by
  refine (steady_deref _).bind fun _ => (steady_tryLock _).bind fun _ => (steady_next _).bind fun _ => ?_
  refine (steady_modify _ _).bind fun _ => (steady_next _).bind fun _ => (steady_modify _ _).bind fun _ => ?_
  refine (steady_modify _ _).bind fun _ => (steady_tryLock _).bind fun _ => (steady_modify _ _).bind fun _ => ?_
  refine (steady_next _).bind fun _ => ?_
  exact steady_modify _ _

theorem steady_freeIndex (index : Nat) : Steady (DoubleChain.nfosDchainImplFreeIndex numCores index core) := by
  refine (steady_deref _).bind fun _ => Steady.bind ((steady_read _).bind fun _ => steady_pure _) fun _ => ?_
  apply steady_ite
  · exact fun _ => steady_pure _
  · intro _
    refine (steady_prev _).bind fun _ => (steady_next _).bind fun _ => (steady_unlink _ _).bind fun _ => ?_
    exact (steady_linkFree _ _).bind fun _ => steady_pure _

end Cells

section Maps
variable {K : Type} {map : Map.NfosMap K}

theorem steady_getLoop (key : K) (hash start : Nat) (steps : List Nat) : Steady (Map.getLoop map key hash start steps) := by
  induction steps with
  | nil => exact steady_pure _
  | cons i rest ih =>
    refine (steady_deref _).bind fun _ => (steady_read _).bind fun entry => ?_
    apply steady_ite
    · exact fun _ => steady_ite (fun _ => steady_pure _) fun _ => ih
    · exact fun _ => steady_ite (fun _ => steady_pure _) fun _ => ih

theorem steady_nfosMapGet (key : K) : Steady (Map.nfosMapGet map key) := steady_getLoop _ _ _ _

theorem steady_updateChns (delta : Int) (ks : List Nat) : Steady (Map.updateChns delta ks : Tx (Map.NfosMapEntry K) Unit) := by
  induction ks with
  | nil => exact steady_pure _
  | cons k rest ih => exact (steady_tryLockAt _).bind fun _ => (steady_modify _ _).bind fun _ => ih

theorem steady_updateChain (start i : Nat) (delta : Int) (entry : Ref (Map.NfosMapEntry K))
    (write : Map.NfosMapEntry K → Map.NfosMapEntry K) : Steady (Map.updateChain map start i delta entry write) := by
  apply steady_ite
  · intro _
    refine (steady_updateChns _ _).bind fun _ => (steady_tryLock _).bind fun _ => (steady_modify _ _).bind fun _ => ?_
    exact steady_updateChns _ _
  · intro _
    refine (steady_updateChns _ _).bind fun _ => (steady_tryLock _).bind fun _ => ?_
    exact steady_modify _ _

theorem steady_putLoop (key : K) (value : Int) (hash start : Nat) (steps : List Nat) :
    Steady (Map.putLoop map key value hash start steps) := by
  induction steps with
  | nil => exact steady_pure _
  | cons i rest ih =>
    refine (steady_deref _).bind fun _ => (steady_read _).bind fun entry => ?_
    apply steady_ite
    · exact fun _ => (steady_updateChain _ _ _ _ _).bind fun _ => steady_pure _
    · exact fun _ => ih

theorem steady_nfosMapPut (key : K) (value : Int) : Steady (Map.nfosMapPut map key value) := steady_putLoop _ _ _ _ _

end Maps

section Sessions
open Sessions Vectors
variable {D : Type} {cfg : NfConfig} {map : Map.NfosMap Session} {numCores core : Nat}

theorem steady_allocateSessIndex (proto : Nat) : Txs.Steady (allocateSessIndex cfg numCores core proto : Txs (Store D Log) _) := by
  apply Txs.steady_ite
  · exact fun _ => Txs.steady_on (steady_allocateNewIndex _)
  · exact fun _ => (Txs.steady_on (steady_allocateNewIndex _)).bind fun _ => Txs.steady_pure _

theorem steady_allocSession (fill : D → D) (key : Session) : Txs.Steady (allocSession cfg map numCores core fill key) := by
  refine (steady_allocateSessIndex _).bind fun ret => ?_
  cases ret with
  | none => exact Txs.steady_fault
  | some index =>
    refine (Txs.steady_on (steady_tryLockAt _)).bind fun _ => (Txs.steady_on (steady_nfosMapPut _ _)).bind fun stored => ?_
    apply Txs.steady_ite
    · exact fun _ => (Txs.steady_on (steady_modify _ _)).bind fun _ => Txs.steady_pure _
    · intro _
      apply Txs.steady_ite
      · exact fun _ => (Txs.steady_on (steady_freeIndex _)).bind fun _ => Txs.steady_pure _
      · exact fun _ => (Txs.steady_on (steady_freeIndex _)).bind fun _ => Txs.steady_pure _

end Sessions

namespace FwNat
open Sessions Vectors
variable {setup : Setup} {core : Nat}

theorem steady_translate (key : Session) (now : Int) : Txs.Steady (translate setup core key now) := by
  refine Txs.Steady.bind ?_ fun sessIndex => ?_
  · refine (Txs.steady_on (steady_nfosMapGet _)).bind fun found => ?_
    cases found with
    | some sessIndex => exact Txs.steady_pure _
    | none => exact (steady_allocSession _ _).bind fun _ => Txs.steady_pure _
  · cases sessIndex with
    | none => exact Txs.steady_pure _
    | some sessIndex =>
      refine Txs.Steady.bind ?_ fun _ => Txs.steady_pure _
      refine (Txs.steady_on ((steady_deref _).bind fun _ => steady_read _)).bind fun sessData => ?_
      apply Txs.steady_ite
      · exact fun _ => (Txs.steady_on (steady_tryLockAt _)).bind fun _ => Txs.steady_on (steady_modify _ _)
      · exact fun _ => Txs.steady_pure _

end FwNat

namespace EiNat
open Sessions Vectors
variable {setup : Setup} {core : Nat}

theorem steady_onSessionData {α : Type} {program : Tx SessionData α} (steady : Steady program) : Txs.Steady (onSessionData program) :=
  Txs.steady_within (Txs.steady_on steady)

theorem steady_get (node : NodePtr) : Txs.Steady node.get := by
  cases node with
  | sess data => exact (steady_onSessionData (steady_read _)).bind fun _ => Txs.steady_pure _
  | head data => exact (Txs.steady_on (steady_read _)).bind fun _ => Txs.steady_pure _

theorem steady_nodeNext (node : NodePtr) : Txs.Steady node.next := (steady_get node).bind fun _ => Txs.steady_pure _

theorem steady_nodePrev (node : NodePtr) : Txs.Steady node.prev := (steady_get node).bind fun _ => Txs.steady_pure _

theorem steady_nodeModify (node : NodePtr) (f : SessListNode → SessListNode) : Txs.Steady (node.modify f) := by
  cases node with
  | sess data => exact steady_onSessionData (steady_modify _ _)
  | head data => exact Txs.steady_on (steady_modify _ _)

theorem steady_borrowMutSession (index : Int) : Txs.Steady (borrowMutSession setup index) :=
  Txs.steady_ite (fun _ => steady_onSessionData (steady_tryLockAt _)) fun _ => Txs.steady_fault

theorem steady_borrowMutUser (index : Int) : Txs.Steady (borrowMutUser setup index) :=
  Txs.steady_ite (fun _ => Txs.steady_on (steady_tryLockAt _)) fun _ => Txs.steady_fault

theorem steady_getUser (userKey : Nat) : Txs.Steady (getUser setup core userKey) := by
  refine (Txs.steady_on (steady_nfosMapGet _)).bind fun found => ?_
  cases found with
  | some userIndex => exact Txs.steady_pure _
  | none =>
    refine Txs.Steady.bind ?_ fun _ => Txs.steady_pure _
    refine (Txs.steady_on (steady_allocateNewIndex _)).bind fun index => ?_
    cases index with
    | none => exact Txs.steady_pure _
    | some index =>
      refine (Txs.steady_on (steady_tryLockAt _)).bind fun _ => (Txs.steady_on (steady_nfosMapPut _ _)).bind fun stored => ?_
      apply Txs.steady_ite
      · exact fun _ => (Txs.steady_on (steady_modify _ _)).bind fun _ => Txs.steady_pure _
      · exact fun _ => (Txs.steady_on (steady_freeIndex _)).bind fun _ => Txs.steady_pure _

theorem steady_headNext (head : NodePtr) : Txs.Steady (headNext setup head) := by
  refine (steady_nodeNext head).bind fun next => ?_
  apply Txs.steady_ite
  · exact fun _ => (steady_borrowMutSession _).bind fun _ => Txs.steady_pure _
  · exact fun _ => Txs.steady_pure _

theorem steady_sessNext (sess : NodePtr) (userIndex : Int) : Txs.Steady (sessNext setup sess userIndex) := by
  refine (steady_nodeNext sess).bind fun next => ?_
  apply Txs.steady_ite
  · exact fun _ => (steady_borrowMutUser _).bind fun _ => Txs.steady_pure _
  · exact fun _ => (steady_borrowMutSession _).bind fun _ => Txs.steady_pure _

theorem steady_insertSession (sessIndex userIndex : Int) : Txs.Steady (insertSession setup sessIndex userIndex) := by
  refine (steady_borrowMutUser _).bind fun userData => (steady_headNext _).bind fun headNext =>
    (steady_borrowMutSession _).bind fun sessData => (steady_nodeNext _).bind fun next => (steady_nodeModify _ _).bind fun _ =>
    (steady_nodeModify _ _).bind fun _ => (steady_nodeModify _ _).bind fun _ => (steady_nodeModify _ _).bind fun _ =>
    (Txs.steady_on (steady_modify _ _)).bind fun _ => (Txs.steady_on (steady_read _)).bind fun _ => ?_
  apply Txs.steady_ite
  · exact fun _ => Txs.steady_fault
  · exact fun _ => steady_onSessionData (steady_modify _ _)

theorem steady_moveToFront (sessData : Ref SessionData) (sessIndex userIndex : Int) :
    Txs.Steady (moveToFront setup sessData sessIndex userIndex) := by
  exact (steady_nodePrev _).bind fun prev => (steady_borrowMutSession _).bind fun sessPrev =>
    (steady_sessNext _ _).bind fun next => (steady_nodeNext _).bind fun _ => (steady_nodeModify _ _).bind fun _ =>
    (steady_nodePrev _).bind fun _ => (steady_nodeModify _ _).bind fun _ => (steady_borrowMutUser _).bind fun userData =>
    (steady_nodeNext _).bind fun _ => (steady_borrowMutSession _).bind fun headNextData => (steady_nodeNext _).bind fun _ =>
    (steady_nodeModify _ _).bind fun _ => (steady_nodeModify _ _).bind fun _ => (steady_nodeModify _ _).bind fun _ =>
    steady_nodeModify _ _

theorem steady_refreshSession (sessIndex now : Int) : Txs.Steady (refreshSession setup sessIndex now) := by
  refine Txs.Steady.bind ?_ fun sessData => ?_
  · apply Txs.steady_ite
    · exact fun _ => steady_onSessionData ((steady_deref _).bind fun _ => steady_read _)
    · exact fun _ => Txs.steady_fault
  · apply Txs.steady_ite
    · intro _
      refine (steady_borrowMutSession _).bind fun sessData => Txs.Steady.bind ?_ fun _ => (steady_nodePrev _).bind fun _ => ?_
      · exact steady_onSessionData (steady_modify _ _)
      · exact Txs.steady_ite (fun _ => steady_moveToFront _ _ _) fun _ => Txs.steady_pure _
    · exact fun _ => Txs.steady_pure _

theorem steady_newSession (key : Session) (now : Int) : Txs.Steady (newSession setup core key now) := by
  refine (Txs.steady_within (steady_allocSession _ _)).bind fun sessIndex => ?_
  cases sessIndex with
  | none => exact Txs.steady_pure _
  | some sessIndex =>
    refine (steady_getUser _).bind fun userIndex => ?_
    cases userIndex with
    | none => exact Txs.steady_pure _
    | some userIndex => exact (steady_insertSession _ _).bind fun _ => Txs.steady_pure _

theorem steady_translate (key : Session) (now : Int) : Txs.Steady (translate setup core key now) := by
  refine (Txs.steady_within (Txs.steady_on (steady_nfosMapGet _))).bind fun found => ?_
  cases found with
  | some sessIndex => exact (steady_refreshSession _ _).bind fun _ => Txs.steady_pure _
  | none =>
    cases matched : natStaticMappingMatch setup key.srcAddr key.srcPort lanDevice key.proto with
    | some ext => exact Txs.steady_pure _
    | none =>
      refine (steady_newSession key now).bind fun sessIndex => ?_
      cases sessIndex with
      | none => exact Txs.steady_pure _
      | some sessIndex => exact (steady_refreshSession _ _).bind fun _ => Txs.steady_pure _

end EiNat
end Nfos
