import Nfos.EiNatMappings
import Nfos.Lib.Rings

/-! What the list code of `ei-nat` writes: its effect on the state, with the nodes of the
lists as places. -/
namespace Nfos.EiNat
open Txn Tx Function Vectors Map DoubleChain NfUtil DataPlane Sessions

/-- The node of a session or of the head of a list. -/
inductive Place where
  | sess (i : Nat)
  | head (u : Nat)
  deriving DecidableEq

/-- How a place is stored in a link. -/
def Place.code : Place → Int
  | .sess i => i
  | .head _ => sessListHead

/-- The place behind a link of a list of the user `u`. -/
def placeOf (u : Nat) (v : Int) : Place := if v ≠ sessListHead then .sess v.toNat else .head u

theorem placeOf_code_sess (u i : Nat) : placeOf u (Place.sess i).code = .sess i := by
  have positive : ((i : Nat) : Int) ≠ -1 := by omega
  simp [placeOf, Place.code, sessListHead, positive]

theorem placeOf_code_head (u : Nat) : placeOf u (Place.head u).code = .head u := by
  simp [placeOf, Place.code]

/-- The reference behind a borrowed place. -/
def Place.ptr : Place → NodePtr
  | .sess i => .sess (.pending i)
  | .head u => .head (.pending u)

namespace NfState

def node (s : NfState Objects) : Place → SessListNode
  | .sess i => (s.sessions.sessionData i).node
  | .head u => (s.userData u).sessListHead

def next (s : NfState Objects) (p : Place) : Int := (s.node p).next

def prev (s : NfState Objects) (p : Place) : Int := (s.node p).prev

def modifySession (s : NfState Objects) (i : Nat) (f : SessionData → SessionData) : NfState Objects :=
  { s with sessions := { s.sessions with
      sessionData := update s.sessions.sessionData i (f (s.sessions.sessionData i)) } }

def modifyUser (s : NfState Objects) (u : Nat) (f : UserData → UserData) : NfState Objects :=
  { s with userData := update s.userData u (f (s.userData u)) }

def modifyNode (s : NfState Objects) (p : Place) (f : SessListNode → SessListNode) : NfState Objects :=
  match p with
  | .sess i => s.modifySession i fun d => { d with node := f d.node }
  | .head u => s.modifyUser u fun d => { d with sessListHead := f d.sessListHead }

def setNext (s : NfState Objects) (p : Place) (v : Int) : NfState Objects := s.modifyNode p fun node => { node with next := v }

def setPrev (s : NfState Objects) (p : Place) (v : Int) : NfState Objects := s.modifyNode p fun node => { node with prev := v }

/-- The first part of `insertSession`: the links. -/
def linked (s : NfState Objects) (x u : Nat) : NfState Objects :=
  let headNext := placeOf u (s.next (.head u))
  let s := s.setNext (.sess x) (s.next (.head u))
  let s := s.setPrev (.sess x) sessListHead
  let s := s.setPrev headNext x
  s.setNext (.head u) x

/-- What `insertSession` makes of the state. -/
def inserted (s : NfState Objects) (x u : Nat) : NfState Objects :=
  let s := s.linked x u
  let s := s.modifyUser u fun d => { d with numSessions := d.numSessions + 1 }
  s.modifySession x fun d => { d with userIndex := u }

/-- The first part of `moveToFront`: the session is extracted from its list. -/
def extracted (s : NfState Objects) (x u : Nat) : NfState Objects :=
  let prev := Place.sess (s.prev (.sess x)).toNat
  let next := placeOf u (s.next (.sess x))
  let s := s.setNext prev (s.next (.sess x))
  s.setPrev next (s.prev (.sess x))

/-- What `moveToFront` makes of the state. -/
def movedToFront (s : NfState Objects) (x u : Nat) : NfState Objects :=
  let s := s.extracted x u
  let headNext := Place.sess (s.next (.head u)).toNat
  let s := s.setNext (.sess x) (s.next (.head u))
  let s := s.setPrev (.sess x) sessListHead
  let s := s.setNext (.head u) x
  s.setPrev headNext x

/-- What `refreshSession` makes of the state. -/
def refreshed (s : NfState Objects) (x : Nat) (now : Int) : NfState Objects :=
  let sessData := s.sessions.sessionData x
  if now > sessData.lastUsed + eiNatSecond then
    let s := s.modifySession x fun d => { d with lastUsed := now }
    if s.prev (.sess x) ≠ sessListHead then s.movedToFront x sessData.userIndex.toNat else s
  else s

section Links
variable (s : NfState Objects) (p q : Place) (v : Int) (i u : Nat)

@[simp] theorem node_modifyNode (f : SessListNode → SessListNode) :
    (s.modifyNode p f).node = update s.node p (f (s.node p)) := by
  funext q
  by_cases same : q = p
  · subst same
    rw [update_self]
    cases q <;> simp [modifyNode, node, modifySession, modifyUser]
  · rw [update_of_ne same]
    cases p <;> cases q <;> simp_all [modifyNode, node, modifySession, modifyUser]

@[simp] theorem next_setNext : (s.setNext p v).next = update s.next p v := by
  funext q
  rw [next, setNext, node_modifyNode, update_apply, update_apply]
  split <;> rfl

@[simp] theorem prev_setNext : (s.setNext p v).prev = s.prev := by
  funext q
  rw [prev, setNext, node_modifyNode, update_apply]
  split
  · rename_i same
    rw [same]
    rfl
  · rfl

@[simp] theorem next_setPrev : (s.setPrev p v).next = s.next := by
  funext q
  rw [next, setPrev, node_modifyNode, update_apply]
  split
  · rename_i same
    rw [same]
    rfl
  · rfl

@[simp] theorem prev_setPrev : (s.setPrev p v).prev = update s.prev p v := by
  funext q
  rw [prev, setPrev, node_modifyNode, update_apply, update_apply]
  split <;> rfl

/-- The links do not depend on the other fields. -/
theorem node_modifySession {f : SessionData → SessionData} (keeps : ∀ d, (f d).node = d.node) : (s.modifySession i f).node = s.node := by
  funext q
  cases q with
  | sess j =>
    simp only [node, modifySession, update_apply]
    split
    · rename_i same
      rw [keeps, same]
    · rfl
  | head => rfl

theorem node_modifyUser {f : UserData → UserData} (keeps : ∀ d, (f d).sessListHead = d.sessListHead) :
    (s.modifyUser u f).node = s.node := by
  funext q
  cases q with
  | sess => rfl
  | head j =>
    simp only [node, modifyUser, update_apply]
    split
    · rename_i same
      rw [keeps, same]
    · rfl

end Links
end NfState

section Effects
variable {setup : Setup} {l : NfState Log} {p : Place} {i u : Nat}

theorem ensures_modifySession (f : SessionData → SessionData) :
    Txs.Ensures (onSessionData (modify (.pending i) f)) l fun _ l' => l'.view = l.view.modifySession i f := by
  unfold onSessionData onSessions
  apply Txs.ensures_within
  apply ensures_modify
  change ({ l.view with sessions := { l.view.sessions with
    sessionData := (l.sessions.sessionData.set i (f (l.sessions.sessionData.view i))).view } } : NfState Objects) = _
  rw [Log.view_set]
  rfl

theorem ensures_modifyUser (f : UserData → UserData) :
    Txs.Ensures (onUserData (modify (.pending u) f)) l fun _ l' => l'.view = l.view.modifyUser u f := by
  apply ensures_modify
  change ({ l.view with userData := (l.userData.set u _).view } : NfState Objects) = _
  rw [Log.view_set]
  rfl

theorem ensures_modifyNode (f : SessListNode → SessListNode) :
    Txs.Ensures (p.ptr.modify f) l fun _ l' => l'.view = l.view.modifyNode p f := by
  cases p with
  | sess i => exact ensures_modifySession fun d => { d with node := f d.node }
  | head u => exact ensures_modifyUser fun d => { d with sessListHead := f d.sessListHead }

theorem ensures_setNext (v : Int) : Txs.Ensures (p.ptr.setNext v) l fun _ l' => l'.view = l.view.setNext p v :=
  ensures_modifyNode _

theorem ensures_setPrev (v : Int) : Txs.Ensures (p.ptr.setPrev v) l fun _ l' => l'.view = l.view.setPrev p v :=
  ensures_modifyNode _

theorem ensures_readSession : Txs.Ensures (onSessionData (read (.pending i))) l fun d l' =>
    l' = l ∧ d = l.view.sessions.sessionData i := by
  unfold onSessionData onSessions onData
  refine Txs.ensures_within (Txs.ensures_on fun grants => ?_)
  exact ⟨rfl, rfl⟩

theorem ensures_readUser : Txs.Ensures (onUserData (read (.pending u))) l fun d l' => l' = l ∧ d = l.view.userData u := by
  apply Txs.ensures_on
  intro grants
  exact ⟨rfl, rfl⟩

theorem ensures_get : Txs.Ensures p.ptr.get l fun n l' => l' = l ∧ n = l.view.node p := by
  cases p with
  | sess i =>
    refine Txs.ensures_bind ensures_readSession ?_
    rintro _ _ ⟨rfl, rfl⟩
    exact Txs.ensures_pure ⟨rfl, rfl⟩
  | head u =>
    refine Txs.ensures_bind ensures_readUser ?_
    rintro _ _ ⟨rfl, rfl⟩
    exact Txs.ensures_pure ⟨rfl, rfl⟩

theorem ensures_next : Txs.Ensures p.ptr.next l fun v l' => l' = l ∧ v = l.view.next p := by
  refine Txs.ensures_bind ensures_get ?_
  rintro _ _ ⟨rfl, rfl⟩
  exact Txs.ensures_pure ⟨rfl, rfl⟩

theorem ensures_prev : Txs.Ensures p.ptr.prev l fun v l' => l' = l ∧ v = l.view.prev p := by
  refine Txs.ensures_bind ensures_get ?_
  rintro _ _ ⟨rfl, rfl⟩
  exact Txs.ensures_pure ⟨rfl, rfl⟩

theorem ensures_borrowMutSession (index : Int) : Txs.Ensures (borrowMutSession setup index) l fun r l' =>
    r = .pending index.toNat ∧ l'.view = l.view := by
  refine Txs.ensures_ite (fun _ => ?_) fun _ => Txs.ensures_fault
  unfold onSessionData onSessions
  apply Txs.ensures_within
  apply ensures_nfosVectorBorrowMut
  refine ⟨rfl, ?_⟩
  change ({ l.view with sessions := { l.view.sessions with
    sessionData := (l.sessions.sessionData.lock index.toNat).view } } : NfState Objects) = _
  rw [Log.view_lock]
  rfl

theorem ensures_borrowMutUser (index : Int) : Txs.Ensures (borrowMutUser setup index) l fun r l' =>
    r = .pending index.toNat ∧ l'.view = l.view := by
  refine Txs.ensures_ite (fun _ => ?_) fun _ => Txs.ensures_fault
  apply ensures_nfosVectorBorrowMut
  refine ⟨rfl, ?_⟩
  change ({ l.view with userData := (l.userData.lock index.toNat).view } : NfState Objects) = _
  rw [Log.view_lock]
  rfl

theorem ensures_headNext : Txs.Ensures (headNext setup (Place.head u).ptr) l fun q l' =>
    q = (placeOf u (l.view.next (.head u))).ptr ∧ l'.view = l.view := by
  refine Txs.ensures_bind ensures_next ?_
  rintro _ _ ⟨rfl, rfl⟩
  unfold placeOf
  refine Txs.ensures_ite (fun inner => ?_) fun closed => ?_
  · rw [if_pos inner]
    refine Txs.ensures_bind (ensures_borrowMutSession _) ?_
    rintro _ m ⟨rfl, view⟩
    exact Txs.ensures_pure ⟨rfl, view⟩
  · rw [if_neg closed]
    exact Txs.ensures_pure ⟨rfl, rfl⟩

theorem ensures_sessNext (userIndex : Int) : Txs.Ensures (sessNext setup (Place.sess i).ptr userIndex) l fun q l' =>
    q = (placeOf userIndex.toNat (l.view.next (.sess i))).ptr ∧ l'.view = l.view := by
  refine Txs.ensures_bind ensures_next ?_
  rintro _ _ ⟨rfl, rfl⟩
  unfold placeOf
  refine Txs.ensures_ite (fun closed => ?_) fun inner => ?_
  · rw [if_neg (not_not.mpr closed)]
    refine Txs.ensures_bind (ensures_borrowMutUser _) ?_
    rintro _ m ⟨rfl, view⟩
    exact Txs.ensures_pure ⟨rfl, view⟩
  · rw [if_pos inner]
    refine Txs.ensures_bind (ensures_borrowMutSession _) ?_
    rintro _ m ⟨rfl, view⟩
    exact Txs.ensures_pure ⟨rfl, view⟩

theorem ensures_insertSession (x u : Nat) :
    Txs.Ensures (insertSession setup x u) l fun _ l' => l'.view = l.view.inserted x u := by
  unfold insertSession
  refine Txs.ensures_bind (ensures_borrowMutUser _) ?_
  rintro _ l₁ ⟨rfl, view₁⟩
  refine Txs.ensures_bind (ensures_headNext (u := u)) ?_
  rintro _ l₂ ⟨rfl, view₂⟩
  refine Txs.ensures_bind (ensures_borrowMutSession _) ?_
  rintro _ l₃ ⟨rfl, view₃⟩
  refine Txs.ensures_bind (ensures_next (p := .head u)) ?_
  rintro _ _ ⟨rfl, rfl⟩
  refine Txs.ensures_bind (ensures_setNext (p := .sess x) _) ?_
  intro _ l₄ view₄
  refine Txs.ensures_bind (ensures_setPrev (p := .sess x) _) ?_
  intro _ l₅ view₅
  refine Txs.ensures_bind (ensures_setPrev _) ?_
  intro _ l₆ view₆
  refine Txs.ensures_bind (ensures_setNext (p := .head u) _) ?_
  intro _ l₇ view₇
  refine Txs.ensures_bind (ensures_modifyUser _) ?_
  intro _ l₈ view₈
  refine Txs.ensures_bind ensures_readUser ?_
  rintro _ _ ⟨rfl, rfl⟩
  refine Txs.ensures_ite (fun _ => Txs.ensures_fault) fun _ => ?_
  refine (ensures_modifySession _).mono fun _ l' view => ?_
  rw [view, view₈, view₇, view₆, view₅, view₄, view₃, view₂, view₁]
  rfl

theorem ensures_moveToFront (x : Nat) (userIndex : Int) :
    Txs.Ensures (moveToFront setup (.pending x) x userIndex) l fun _ l' => l'.view = l.view.movedToFront x userIndex.toNat := by
  unfold moveToFront
  refine Txs.ensures_bind (ensures_prev (p := .sess x)) ?_
  rintro _ _ ⟨rfl, rfl⟩
  refine Txs.ensures_bind (ensures_borrowMutSession _) ?_
  rintro _ l₁ ⟨rfl, view₁⟩
  refine Txs.ensures_bind (ensures_sessNext (i := x) userIndex) ?_
  rintro _ l₂ ⟨rfl, view₂⟩
  refine Txs.ensures_bind (ensures_next (p := .sess x)) ?_
  rintro _ _ ⟨rfl, rfl⟩
  refine Txs.ensures_bind (ensures_setNext (p := .sess _) _) ?_
  intro _ l₃ view₃
  refine Txs.ensures_bind (ensures_prev (p := .sess x)) ?_
  rintro _ _ ⟨rfl, rfl⟩
  refine Txs.ensures_bind (ensures_setPrev _) ?_
  intro _ l₄ view₄
  refine Txs.ensures_bind (ensures_borrowMutUser _) ?_
  rintro _ l₅ ⟨rfl, view₅⟩
  refine Txs.ensures_bind (ensures_next (p := .head _)) ?_
  rintro _ _ ⟨rfl, rfl⟩
  refine Txs.ensures_bind (ensures_borrowMutSession _) ?_
  rintro _ l₆ ⟨rfl, view₆⟩
  refine Txs.ensures_bind (ensures_next (p := .head _)) ?_
  rintro _ _ ⟨rfl, rfl⟩
  refine Txs.ensures_bind (ensures_setNext (p := .sess x) _) ?_
  intro _ l₇ view₇
  refine Txs.ensures_bind (ensures_setPrev (p := .sess x) _) ?_
  intro _ l₈ view₈
  refine Txs.ensures_bind (ensures_setNext (p := .head _) _) ?_
  intro _ l₉ view₉
  refine (ensures_setPrev (p := .sess _) _).mono fun _ l' view => ?_
  rw [view, view₉, view₈, view₇, view₆, view₅, view₄, view₃, view₂, view₁]
  rfl

theorem ensures_refreshSession (x : Nat) (now : Int) :
    Txs.Ensures (refreshSession setup x now) l fun _ l' => l'.view = l.view.refreshed x now := by
  unfold refreshSession
  refine Txs.ensures_bind (P := fun d l' => l' = l ∧ d = l.view.sessions.sessionData x) ?_ ?_
  · refine Txs.ensures_ite (fun _ => ?_) fun _ => Txs.ensures_fault
    unfold onSessionData onSessions
    apply Txs.ensures_within
    exact ensures_nfosVectorBorrow rfl ⟨rfl, rfl⟩
  · rintro _ _ ⟨rfl, rfl⟩
    refine Txs.ensures_ite (fun old => ?_) fun recent => ?_
    · refine Txs.ensures_bind (ensures_borrowMutSession _) ?_
      rintro _ l₁ ⟨rfl, view₁⟩
      refine Txs.ensures_bind (ensures_modifySession _) ?_
      intro _ l₂ view₂
      refine Txs.ensures_bind (ensures_prev (p := .sess x)) ?_
      rintro _ _ ⟨rfl, rfl⟩
      rw [view₁, Int.toNat_natCast] at view₂
      unfold NfState.refreshed
      dsimp only
      rw [if_pos old, ← view₂]
      refine Txs.ensures_ite (fun inner => ?_) fun first => ?_
      · rw [if_pos inner]
        exact ensures_moveToFront x _
      · rw [if_neg first]
        exact Txs.ensures_pure rfl
    · unfold NfState.refreshed
      dsimp only
      rw [if_neg recent]
      exact Txs.ensures_pure rfl

end Effects

section Links
variable {s : NfState Objects} {x u : Nat}

theorem node_inserted : (s.inserted x u).node = (s.linked x u).node := by
  unfold NfState.inserted
  dsimp only
  refine (NfState.node_modifySession _ _ ?_).trans (NfState.node_modifyUser _ _ ?_)
  · exact fun _ => rfl
  · exact fun _ => rfl

theorem next_linked : (s.linked x u).next = update (update s.next (.sess x) (s.next (.head u))) (.head u) x := by
  simp only [NfState.linked, NfState.next_setNext, NfState.next_setPrev]

theorem prev_linked : (s.linked x u).prev =
    update (update s.prev (.sess x) sessListHead) (placeOf u (s.next (.head u))) x := by
  simp only [NfState.linked, NfState.prev_setNext, NfState.prev_setPrev]

/-- The list of a user as a ring of places. -/
abbrev UserRing (s : NfState Objects) (u : Nat) (l : List Nat) : Prop :=
  Rings.Ring Place.code s.next s.prev (.head u) (l.map .sess)

/-- A link of a ring leads to the place that it holds. -/
theorem placeOf_code {l : List Nat} {p : Place} (member : p ∈ Place.head u :: l.map .sess) : placeOf u p.code = p := by
  rcases List.mem_cons.mp member with rfl | inside
  · exact placeOf_code_head u
  · obtain ⟨i, _, rfl⟩ := List.mem_map.mp inside
    exact placeOf_code_sess u i

/-- The lists that do not share a place with an edit stay as they are. -/
theorem UserRing.congr {s' : NfState Objects} {l : List Nat} (ring : UserRing s u l)
    (nodes : ∀ p ∈ Place.head u :: l.map .sess, s'.node p = s.node p) : UserRing s' u l :=
  Rings.Ring.congr ring (fun p member => congrArg SessListNode.next (nodes p member))
    fun p member => congrArg SessListNode.prev (nodes p member)

theorem UserRing.inserted {l : List Nat} (ring : UserRing s u l) (fresh : x ∉ l) : UserRing (s.inserted x u) u (x :: l) := by
  have off : Place.sess x ∉ Place.head u :: l.map .sess := by
    simpa using fresh
  have pushed := Rings.Ring.push ring off
  rw [← ring.next_head] at pushed
  have linked : UserRing (s.linked x u) u (x :: l) := by
    unfold UserRing
    rw [next_linked, prev_linked, ring.next_head, placeOf_code Rings.Ring.front_mem, ← ring.next_head]
    exact pushed
  exact linked.congr fun p _ => congrFun node_inserted p

/-- A session that is not the first of its list has another one in front of it. -/
theorem UserRing.extracted {a b : List Nat} (ring : UserRing s u (a ++ x :: b)) (inner : s.prev (.sess x) ≠ sessListHead) :
    UserRing (s.extracted x u) u (a ++ b) ∧ a ≠ [] := by
  unfold UserRing at ring
  rw [List.map_append, List.map_cons] at ring
  have before := ring.prev_mem
  have previous : Place.sess (s.prev (.sess x)).toNat = Rings.back (.head u) (a.map .sess) := by
    rw [← placeOf_code (u := u) Rings.Ring.back_mem, ← before, placeOf, if_pos inner]
  have following : placeOf u (s.next (.sess x)) = Rings.front (.head u) (b.map .sess) := by
    rw [ring.next_mem, placeOf_code Rings.Ring.front_mem]
  constructor
  · have cut := ring.cut
    rw [← List.map_append, ← previous, ← following] at cut
    unfold UserRing NfState.extracted
    simpa only [NfState.next_setNext, NfState.next_setPrev, NfState.prev_setNext, NfState.prev_setPrev] using cut
  · rintro rfl
    exact inner before

theorem UserRing.movedToFront {a b : List Nat} (ring : UserRing s u (a ++ x :: b)) (inner : s.prev (.sess x) ≠ sessListHead) :
    UserRing (s.movedToFront x u) u (x :: (a ++ b)) := by
  obtain ⟨rest, before⟩ := ring.extracted inner
  have off : Place.sess x ∉ Place.head u :: (a ++ b).map .sess := by
    have once := (List.nodup_cons.mp ring.once).2
    rw [List.map_append, List.map_cons, List.nodup_middle, List.nodup_cons, ← List.map_append] at once
    exact fun member => once.1 ((List.mem_cons.mp member).resolve_left nofun)
  have pushed := Rings.Ring.push rest off
  have first : Place.sess ((s.extracted x u).next (.head u)).toNat = Rings.front (.head u) ((a ++ b).map .sess) := by
    obtain ⟨y, l, rfl⟩ := List.exists_cons_of_ne_nil before
    rw [Rings.Ring.next_head rest]
    rfl
  rw [← Rings.Ring.next_head rest, ← first] at pushed
  unfold UserRing NfState.movedToFront
  simp only [NfState.next_setNext, NfState.next_setPrev, NfState.prev_setNext, NfState.prev_setPrev]
  exact pushed

end Links
end Nfos.EiNat
