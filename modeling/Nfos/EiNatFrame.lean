import Nfos.EiNat

/-! What the code for the lists of the users does not change: all but the places of the
sessions in the lists. -/
namespace Nfos.EiNat
open Txn Tx Function Vectors Map DoubleChain NfUtil DataPlane Sessions

def endpoint (d : SessionData) : Nat × Nat := (d.intIp, d.intPort)

/-- The state is the same up to the lists. -/
structure Relinked (l l' : NfState Log) : Prop where
  sessionMap : l'.view.sessions.sessionMap = l.view.sessions.sessionMap
  tcp : l'.view.sessions.sessIndexesTcp = l.view.sessions.sessIndexesTcp
  udp : l'.view.sessions.sessIndexesUdp = l.view.sessions.sessIndexesUdp
  endpoint : ∀ i, endpoint (l'.view.sessions.sessionData i) = endpoint (l.view.sessions.sessionData i)
  userMap : l'.view.userMap = l.view.userMap
  userIndexes : l'.view.userIndexes = l.view.userIndexes

instance : Std.Refl Relinked := ⟨fun _ => ⟨rfl, rfl, rfl, fun _ => rfl, rfl, rfl⟩⟩

instance : IsTrans (NfState Log) Relinked where
  trans _ _ _ first second := ⟨second.sessionMap.trans first.sessionMap, second.tcp.trans first.tcp,
    second.udp.trans first.udp, fun i => (second.endpoint i).trans (first.endpoint i),
    second.userMap.trans first.userMap, second.userIndexes.trans first.userIndexes⟩

section Frame
variable {α : Type} {setup : Setup}

theorem onUserData_relinked (program : Tx UserData α) : Txs.Keeps Relinked (onUserData program) :=
  Txs.keeps_on fun _ _ _ _ _ => ⟨rfl, rfl, rfl, fun _ => rfl, rfl, rfl⟩

theorem inVector_relinked {capacity : Nat} {index : Int} {program : Nat → Txs (NfState Log) α}
    (keeps : ∀ i, Txs.Keeps Relinked (program i)) : Txs.Keeps Relinked (inVector capacity index program) :=
  Txs.keeps_ite (fun _ => keeps _) fun _ => Txs.keeps_fault

/-- A call on the data of the sessions that does not touch their endpoints. -/
theorem onSessionData_relinked {program : Tx SessionData α}
    (keeps : ∀ grants t a t', program grants t = .ok (a, t') → ∀ i, endpoint (t'.view i) = endpoint (t.view i)) :
    Txs.Keeps Relinked (onSessionData program) := by
  apply Txs.keeps_within
  intro l grants a m ran
  have kept : Txs.Keeps (fun m m' => m'.view.sessionMap = m.view.sessionMap ∧ m'.view.sessIndexesTcp = m.view.sessIndexesTcp ∧
      m'.view.sessIndexesUdp = m.view.sessIndexesUdp ∧ ∀ i, endpoint (m'.view.sessionData i) = endpoint (m.view.sessionData i))
      (onData program) := by
    apply Txs.keeps_on
    intro m grants a t ran
    exact ⟨rfl, rfl, rfl, keeps grants _ a t ran⟩
  obtain ⟨sessionMap, tcp, udp, same⟩ := kept _ _ _ _ ran
  exact ⟨sessionMap, tcp, udp, same, rfl, rfl⟩

theorem borrowMutSession_relinked (index : Int) : Txs.Keeps Relinked (borrowMutSession setup index) := by
  apply inVector_relinked
  intro i
  apply onSessionData_relinked
  intro grants t a t' ran j
  simp only [nfosVectorBorrowMut, tryLockAt] at ran
  split at ran
  · obtain ⟨_, rfl⟩ := Prod.mk.inj (Except.ok.inj ran)
    rw [Log.view_lock]
  · contradiction

theorem modifySession_relinked {f : SessionData → SessionData} (keeps : ∀ d, endpoint (f d) = endpoint d) (data : Ref SessionData) :
    Txs.Keeps Relinked (onSessionData (modify data f)) := by
  apply onSessionData_relinked
  intro grants t a t' ran j
  cases data with
  | pending i =>
    obtain ⟨_, rfl⟩ := Prod.mk.inj (Except.ok.inj ran)
    by_cases here : j = i
    · subst here
      rw [Log.view_set, update_self, keeps]
    · rw [Log.view_set, update_of_ne here]
  | version => contradiction

theorem readSession_relinked (data : Ref SessionData) : Txs.Keeps Relinked (onSessionData (read data)) := by
  apply onSessionData_relinked
  intro grants t a t' ran j
  obtain ⟨_, rfl⟩ := Prod.mk.inj (Except.ok.inj ran)
  rfl

theorem get_relinked (p : NodePtr) : Txs.Keeps Relinked p.get := by
  cases p with
  | sess data => exact (readSession_relinked data).bind fun _ => Txs.keeps_pure _
  | head data => exact (onUserData_relinked _).bind fun _ => Txs.keeps_pure _

theorem next_relinked (p : NodePtr) : Txs.Keeps Relinked p.next :=
  (get_relinked p).bind fun _ => Txs.keeps_pure _

theorem prev_relinked (p : NodePtr) : Txs.Keeps Relinked p.prev :=
  (get_relinked p).bind fun _ => Txs.keeps_pure _

theorem modify_relinked (f : SessListNode → SessListNode) (p : NodePtr) : Txs.Keeps Relinked (p.modify f) := by
  cases p with
  | sess data => exact modifySession_relinked (f := fun d => { d with node := f d.node }) (fun _ => rfl) data
  | head data => exact onUserData_relinked _

theorem borrowMutUser_relinked (index : Int) : Txs.Keeps Relinked (borrowMutUser setup index) :=
  inVector_relinked fun _ => onUserData_relinked _

theorem headNext_relinked (head : NodePtr) : Txs.Keeps Relinked (headNext setup head) := by
  refine (next_relinked _).bind fun next => ?_
  apply Txs.keeps_ite
  · exact fun _ => (borrowMutSession_relinked _).bind fun _ => Txs.keeps_pure _
  · exact fun _ => Txs.keeps_pure _

theorem sessNext_relinked (sess : NodePtr) (userIndex : Int) : Txs.Keeps Relinked (sessNext setup sess userIndex) := by
  refine (next_relinked _).bind fun next => ?_
  apply Txs.keeps_ite
  · exact fun _ => (borrowMutUser_relinked _).bind fun _ => Txs.keeps_pure _
  · exact fun _ => (borrowMutSession_relinked _).bind fun _ => Txs.keeps_pure _

theorem insertSession_relinked (sessIndex userIndex : Int) :
    Txs.Keeps Relinked (insertSession setup sessIndex userIndex) := by
  refine (borrowMutUser_relinked _).bind fun userData => (headNext_relinked _).bind fun headNext => ?_
  refine (borrowMutSession_relinked _).bind fun sessData => (next_relinked _).bind fun next => ?_
  refine (modify_relinked _ _).bind fun _ => (modify_relinked _ _).bind fun _ => ?_
  refine (modify_relinked _ _).bind fun _ => (modify_relinked _ _).bind fun _ => ?_
  refine (onUserData_relinked _).bind fun _ => (onUserData_relinked _).bind fun _ => ?_
  apply Txs.keeps_ite
  · exact fun _ => Txs.keeps_fault
  · exact fun _ => modifySession_relinked (f := fun d => { d with userIndex := userIndex }) (fun _ => rfl) sessData

theorem moveToFront_relinked (sessData : Ref SessionData) (sessIndex userIndex : Int) :
    Txs.Keeps Relinked (moveToFront setup sessData sessIndex userIndex) := by
  refine (prev_relinked _).bind fun _ => (borrowMutSession_relinked _).bind fun sessPrev => ?_
  refine (sessNext_relinked _ _).bind fun next => (next_relinked _).bind fun _ => ?_
  refine (modify_relinked _ _).bind fun _ => (prev_relinked _).bind fun _ => ?_
  refine (modify_relinked _ _).bind fun _ => (borrowMutUser_relinked _).bind fun userData => ?_
  refine (next_relinked _).bind fun _ => (borrowMutSession_relinked _).bind fun headNextData => ?_
  refine (next_relinked _).bind fun _ => (modify_relinked _ _).bind fun _ => ?_
  refine (modify_relinked _ _).bind fun _ => (modify_relinked _ _).bind fun _ => ?_
  exact modify_relinked _ _

theorem refreshSession_relinked (sessIndex now : Int) : Txs.Keeps Relinked (refreshSession setup sessIndex now) := by
  refine Txs.Keeps.bind (inVector_relinked fun i => ?_) fun sessData => ?_
  · apply onSessionData_relinked
    intro grants t a t' ran j
    obtain ⟨_, rfl⟩ := Prod.mk.inj (Except.ok.inj ran)
    rfl
  · apply Txs.keeps_ite
    · intro old
      refine (borrowMutSession_relinked _).bind fun sessData => ?_
      refine (modifySession_relinked (f := fun d => { d with lastUsed := now }) (fun _ => rfl) _).bind fun _ => ?_
      refine (prev_relinked _).bind fun prev => ?_
      exact Txs.keeps_ite (fun _ => moveToFront_relinked _ _ _) fun _ => Txs.keeps_pure _
    · exact fun _ => Txs.keeps_pure _

end Frame
end Nfos.EiNat
