import Nfos.EiNatLists

/-! The lists of the users over whole runs of `ei-nat`. -/
namespace Nfos.EiNat
open Txn Tx Function Vectors Map DoubleChain NfUtil DataPlane Sessions

section Beside
variable {s s' s'' : NfState Objects} {p q : Place} {x u i : Nat} {v : Int}

/-- The data of a session without its place in a list. -/
def bare (d : SessionData) : Int × Nat × Nat × Int := (d.lastUsed, d.intIp, d.intPort, d.userIndex)

/-- Only links are different. -/
structure Beside (s s' : NfState Objects) : Prop where
  sessionMap : s'.sessions.sessionMap = s.sessions.sessionMap
  tcp : s'.sessions.sessIndexesTcp = s.sessions.sessIndexesTcp
  udp : s'.sessions.sessIndexesUdp = s.sessions.sessIndexesUdp
  userMap : s'.userMap = s.userMap
  userIndexes : s'.userIndexes = s.userIndexes
  data : ∀ i, bare (s'.sessions.sessionData i) = bare (s.sessions.sessionData i)
  size : ∀ u, (s'.userData u).numSessions = (s.userData u).numSessions

theorem Beside.trans (first : Beside s s') (second : Beside s' s'') : Beside s s'' where
  sessionMap := second.sessionMap.trans first.sessionMap
  tcp := second.tcp.trans first.tcp
  udp := second.udp.trans first.udp
  userMap := second.userMap.trans first.userMap
  userIndexes := second.userIndexes.trans first.userIndexes
  data i := (second.data i).trans (first.data i)
  size u := (second.size u).trans (first.size u)

theorem Beside.lastUsed (beside : Beside s s') (i : Nat) :
    (s'.sessions.sessionData i).lastUsed = (s.sessions.sessionData i).lastUsed := congrArg (fun d => d.1) (beside.data i)

theorem Beside.intIp (beside : Beside s s') (i : Nat) :
    (s'.sessions.sessionData i).intIp = (s.sessions.sessionData i).intIp := congrArg (fun d => d.2.1) (beside.data i)

theorem Beside.intPort (beside : Beside s s') (i : Nat) :
    (s'.sessions.sessionData i).intPort = (s.sessions.sessionData i).intPort := congrArg (fun d => d.2.2.1) (beside.data i)

theorem Beside.userIndex (beside : Beside s s') (i : Nat) :
    (s'.sessions.sessionData i).userIndex = (s.sessions.sessionData i).userIndex := congrArg (fun d => d.2.2.2) (beside.data i)

theorem Beside.modifyNode (s : NfState Objects) (p : Place) (f : SessListNode → SessListNode) : Beside s (s.modifyNode p f) := by
  cases p with
  | sess x =>
    refine ⟨rfl, rfl, rfl, rfl, rfl, fun i => ?_, fun _ => rfl⟩
    simp only [NfState.modifyNode, NfState.modifySession, update_apply]
    split
    · rename_i same
      rw [same]
      rfl
    · rfl
  | head x =>
    refine ⟨rfl, rfl, rfl, rfl, rfl, fun _ => rfl, fun u => ?_⟩
    simp only [NfState.modifyNode, NfState.modifyUser, update_apply]
    split
    · rename_i same
      rw [same]
    · rfl

theorem Beside.setNext (s : NfState Objects) (p : Place) (v : Int) : Beside s (s.setNext p v) := Beside.modifyNode _ _ _

theorem Beside.setPrev (s : NfState Objects) (p : Place) (v : Int) : Beside s (s.setPrev p v) := Beside.modifyNode _ _ _

theorem Beside.linked (s : NfState Objects) (x u : Nat) : Beside s (s.linked x u) :=
  (((Beside.setNext ..).trans (Beside.setPrev ..)).trans (Beside.setPrev ..)).trans (Beside.setNext ..)

theorem Beside.extracted (s : NfState Objects) (x u : Nat) : Beside s (s.extracted x u) := by
  exact (Beside.setNext ..).trans (Beside.setPrev ..)

theorem Beside.movedToFront (s : NfState Objects) (x u : Nat) : Beside s (s.movedToFront x u) :=
  ((((Beside.extracted s x u).trans (Beside.setNext ..)).trans (Beside.setPrev ..)).trans (Beside.setNext ..)).trans
    (Beside.setPrev ..)

theorem node_setNext_of_ne (apart : q ≠ p) : (s.setNext p v).node q = s.node q := by
  rw [NfState.setNext, NfState.node_modifyNode, update_of_ne apart]

theorem node_setPrev_of_ne (apart : q ≠ p) : (s.setPrev p v).node q = s.node q := by
  rw [NfState.setPrev, NfState.node_modifyNode, update_of_ne apart]

theorem sessionData_inserted (i : Nat) : (s.inserted x u).sessions.sessionData i =
    { (s.linked x u).sessions.sessionData i with
      userIndex := if i = x then (u : Int) else ((s.linked x u).sessions.sessionData i).userIndex } := by
  by_cases here : i = x
  · subst here
    simp [NfState.inserted, NfState.modifySession, NfState.modifyUser]
  · simp [NfState.inserted, NfState.modifySession, NfState.modifyUser, here]

/-- An insertion only writes to places of the list. -/
theorem UserRing.node_inserted {l : List Nat} (ring : UserRing s u l) (outside : q ∉ Place.head u :: (x :: l).map .sess) :
    (s.inserted x u).node q = s.node q := by
  rw [List.map_cons, List.mem_cons, List.mem_cons, not_or, not_or] at outside
  obtain ⟨head, sess, off⟩ := outside
  have front : placeOf u (s.next (.head u)) ∈ Place.head u :: l.map .sess := by
    rw [ring.next_head, placeOf_code Rings.Ring.front_mem]
    exact Rings.Ring.front_mem
  have apart : q ≠ placeOf u (s.next (.head u)) := by
    rintro rfl
    rcases List.mem_cons.mp front with same | inside
    · exact head same
    · exact off inside
  rw [EiNat.node_inserted, NfState.linked, node_setNext_of_ne head, node_setPrev_of_ne apart, node_setPrev_of_ne sess,
    node_setNext_of_ne sess]

theorem UserRing.node_movedToFront {a b : List Nat} (ring : UserRing s u (a ++ x :: b)) (inner : s.prev (.sess x) ≠ sessListHead)
    (outside : q ∉ Place.head u :: (a ++ x :: b).map .sess) : (s.movedToFront x u).node q = s.node q := by
  obtain ⟨rest, before⟩ := ring.extracted inner
  have head : q ≠ .head u := fun same => outside (same ▸ List.mem_cons_self ..)
  have apart : ∀ p, p ∈ Place.head u :: (a ++ x :: b).map .sess → q ≠ p := by
    rintro p member rfl
    exact outside member
  have sess : q ≠ .sess x := apart _ (by simp)
  unfold UserRing at ring
  rw [List.map_append, List.map_cons] at ring apart
  have previous : Place.sess (s.prev (.sess x)).toNat = Rings.back (.head u) (a.map .sess) := by
    rw [← placeOf_code (u := u) Rings.Ring.back_mem, ← ring.prev_mem, placeOf, if_pos inner]
  have following : placeOf u (s.next (.sess x)) = Rings.front (.head u) (b.map .sess) := by
    rw [ring.next_mem, placeOf_code Rings.Ring.front_mem]
  have first : Place.sess ((s.extracted x u).next (.head u)).toNat = Rings.front (.head u) ((a ++ b).map .sess) := by
    obtain ⟨y, l, rfl⟩ := List.exists_cons_of_ne_nil before
    rw [Rings.Ring.next_head rest]
    rfl
  have subset : ∀ l : List Nat, (∀ i ∈ l, i ∈ a ++ x :: b) → ∀ p ∈ Place.head u :: l.map Place.sess, q ≠ p := by
    intro l within p member
    rcases List.mem_cons.mp member with rfl | inside
    · exact head
    · obtain ⟨i, listed, rfl⟩ := List.mem_map.mp inside
      refine apart _ (List.mem_cons_of_mem _ ?_)
      rw [← List.map_cons, ← List.map_append]
      exact List.mem_map_of_mem (within i listed)
  unfold NfState.movedToFront
  dsimp only
  rw [node_setPrev_of_ne, node_setNext_of_ne head, node_setPrev_of_ne sess, node_setNext_of_ne sess]
  · unfold NfState.extracted
    dsimp only
    rw [node_setPrev_of_ne, node_setNext_of_ne]
    · rw [previous]
      exact subset a (fun i member => List.mem_append_left _ member) _ Rings.Ring.back_mem
    · rw [following]
      exact subset b (fun i member => List.mem_append_right _ (List.mem_cons_of_mem _ member)) _ Rings.Ring.front_mem
  · rw [first]
    refine subset (a ++ b) (fun i member => ?_) _ Rings.Ring.front_mem
    rcases List.mem_append.mp member with left | right
    · exact List.mem_append_left _ left
    · exact List.mem_append_right _ (List.mem_cons_of_mem _ right)

end Beside

section Lists
variable {setup : Setup} {s s' : NfState Objects} {N N' : Set Nat} {findUser : Nat → Option Int} {L : Nat → List Nat} {u x : Nat}

/-- The sessions in `N` are on the lists of their users. -/
structure Lists (setup : Setup) (s : NfState Objects) (N : Set Nat) (findUser : Nat → Option Int) (L : Nat → List Nat) : Prop where
  ring : ∀ u ∈ users setup s, UserRing s u (L u)
  member : ∀ u ∈ users setup s, ∀ i, i ∈ L u ↔ i ∈ N ∧ (s.sessions.sessionData i).userIndex = u
  source : ∀ i ∈ N, findUser (s.sessions.sessionData i).intIp = some (s.sessions.sessionData i).userIndex
  owned : ∀ i ∈ N, ∃ u ∈ users setup s, (s.sessions.sessionData i).userIndex = (u : Int)
  size : ∀ u ∈ users setup s, (s.userData u).numSessions = (L u).length

/-- What is not on the lists does not matter. -/
theorem Lists.congr (lists : Lists setup s N findUser L) (users : users setup s' = users setup s)
    (heads : ∀ u ∈ EiNat.users setup s, s'.userData u = s.userData u)
    (nodes : ∀ i ∈ N, s'.node (.sess i) = s.node (.sess i))
    (addr : ∀ i ∈ N, (s'.sessions.sessionData i).intIp = (s.sessions.sessionData i).intIp)
    (owner : ∀ i ∈ N, (s'.sessions.sessionData i).userIndex = (s.sessions.sessionData i).userIndex) :
    Lists setup s' N findUser L := by
  constructor
  case ring =>
    intro u known
    rw [users] at known
    refine (lists.ring u known).congr fun p place => ?_
    rcases List.mem_cons.mp place with rfl | inside
    · exact congrArg UserData.sessListHead (heads u known)
    · obtain ⟨i, listed, rfl⟩ := List.mem_map.mp inside
      exact nodes i ((lists.member u known i).mp listed).1
  case member =>
    intro u known i
    rw [users] at known
    rw [lists.member u known i]
    exact and_congr_right fun inside => by rw [owner i inside]
  case source =>
    intro i inside
    rw [addr i inside, owner i inside]
    exact lists.source i inside
  case owned =>
    intro i inside
    rw [owner i inside, users]
    exact lists.owned i inside
  case size =>
    intro u known
    rw [users] at known
    rw [heads u known]
    exact lists.size u known

/-- The list of one user is edited. -/
theorem Lists.edit (lists : Lists setup s N findUser L) {l : List Nat} (known : u ∈ users setup s)
    (users : users setup s' = users setup s) (ring : UserRing s' u l)
    (outside : ∀ p, p ∉ Place.head u :: l.map .sess → s'.node p = s.node p)
    (members : ∀ i, i ∈ l ↔ i ∈ N' ∧ (s'.sessions.sessionData i).userIndex = u)
    (others : ∀ i, i ∉ l → (i ∈ N' ↔ i ∈ N) ∧
      (s'.sessions.sessionData i).userIndex = (s.sessions.sessionData i).userIndex)
    (old : ∀ i ∈ l, i ∈ N → (s.sessions.sessionData i).userIndex = u)
    (source : ∀ i ∈ N', findUser (s'.sessions.sessionData i).intIp = some (s'.sessions.sessionData i).userIndex)
    (size : (s'.userData u).numSessions = l.length)
    (sizes : ∀ w, w ≠ u → (s'.userData w).numSessions = (s.userData w).numSessions) :
    Lists setup s' N' findUser (update L u l) := by
  have elsewhere : ∀ w ∈ EiNat.users setup s, w ≠ u → ∀ i ∈ L w, i ∉ l := by
    intro w there apart i listed inside
    obtain ⟨within, owner⟩ := (lists.member w there i).mp listed
    have same := old i inside within
    omega
  constructor
  case ring =>
    intro w there
    rw [users] at there
    by_cases here : w = u
    · subst here
      rwa [update_self]
    · rw [update_of_ne here]
      refine (lists.ring w there).congr fun p place => outside p ?_
      rcases List.mem_cons.mp place with rfl | inside
      · simpa using here
      · obtain ⟨i, listed, rfl⟩ := List.mem_map.mp inside
        simpa using elsewhere w there here i listed
  case member =>
    intro w there i
    rw [users] at there
    by_cases here : w = u
    · subst here
      rw [update_self]
      exact members i
    · rw [update_of_ne here]
      by_cases inside : i ∈ l
      · have owner := ((members i).mp inside).2
        refine iff_of_false (fun listed => elsewhere w there here i listed inside) ?_
        rintro ⟨_, same⟩
        omega
      · obtain ⟨within, owner⟩ := others i inside
        rw [lists.member w there i, within, owner]
  case source => exact source
  case owned =>
    intro i inside
    by_cases listed : i ∈ l
    · exact ⟨u, users ▸ known, ((members i).mp listed).2⟩
    · obtain ⟨within, owner⟩ := others i listed
      rw [owner, users]
      exact lists.owned i (within.mp inside)
  case size =>
    intro w there
    rw [users] at there
    by_cases here : w = u
    · subst here
      rwa [update_self]
    · rw [update_of_ne here, sizes w here]
      exact lists.size w there

/-- A session is inserted into the list of its user. -/
theorem Lists.inserted (lists : Lists setup s N findUser L) (known : u ∈ users setup s) (fresh : x ∉ N)
    (found : findUser (s.sessions.sessionData x).intIp = some (u : Int)) :
    Lists setup (s.inserted x u) (insert x N) findUser (update L u (x :: L u)) := by
  have beside := Beside.linked s x u
  have off : x ∉ L u := fun listed => fresh ((lists.member u known x).mp listed).1
  have owner : ∀ i, ((s.inserted x u).sessions.sessionData i).userIndex =
      if i = x then (u : Int) else (s.sessions.sessionData i).userIndex := by
    intro i
    rw [sessionData_inserted, beside.userIndex]
  have addr : ∀ i, ((s.inserted x u).sessions.sessionData i).intIp = (s.sessions.sessionData i).intIp := by
    intro i
    rw [sessionData_inserted, beside.intIp]
  have size : ∀ w, ((s.inserted x u).userData w).numSessions = (s.userData w).numSessions + if w = u then 1 else 0 := by
    intro w
    rw [← beside.size w]
    by_cases here : w = u
    · subst here
      simp [NfState.inserted, NfState.modifySession, NfState.modifyUser]
    · simp [NfState.inserted, NfState.modifySession, NfState.modifyUser, here]
  have ring := lists.ring u known
  refine lists.edit known (congrArg (allocated _ _) beside.userIndexes) (ring.inserted off) (fun p => ring.node_inserted)
    ?_ ?_ ?_ ?_ ?_ ?_
  · intro i
    rw [owner, List.mem_cons, lists.member u known, Set.mem_insert_iff]
    by_cases here : i = x <;> simp [here]
  · intro i outside
    rw [List.mem_cons, not_or] at outside
    rw [owner, if_neg outside.1, Set.mem_insert_iff]
    exact ⟨or_iff_right outside.1, rfl⟩
  · intro i listed old
    rcases List.mem_cons.mp listed with rfl | member
    · exact absurd old fresh
    · exact ((lists.member u known i).mp member).2
  · intro i inside
    rw [addr, owner]
    by_cases here : i = x
    · rw [if_pos here, here]
      exact found
    · rw [if_neg here]
      exact lists.source i (inside.resolve_left here)
  · rw [size, if_pos rfl, lists.size u known, List.length_cons]
    rfl
  · intro w apart
    rw [size, if_neg apart, add_zero]

/-- A user that is new has an empty list. -/
theorem Lists.created {addrOf : Nat → Nat} {addr : Nat} (lists : Lists setup s N findUser L)
    (created : Created setup findUser addrOf addr u s s') (absent : findUser addr = none) (sessions : s'.sessions = s.sessions) :
    Lists setup s' N (Directory.added findUser addr u) (update L u []) := by
  have elsewhere : ∀ w, w ≠ u → s'.userData w = s.userData w := by
    intro w apart
    rw [created.userData, update_of_ne apart]
  have older : ∀ w ∈ users setup s', w ≠ u → w ∈ users setup s := by
    intro w there apart
    rw [created.users] at there
    exact there.resolve_left apart
  have source : ∀ i ∈ N, Directory.added findUser addr u (s.sessions.sessionData i).intIp =
      some (s.sessions.sessionData i).userIndex := by
    intro i inside
    have known := lists.source i inside
    refine (if_neg ?_).trans known
    intro same
    rw [same, absent] at known
    contradiction
  constructor
  case ring =>
    intro w there
    by_cases here : w = u
    · subst here
      rw [update_self]
      have node : s'.node (.head w) = ⟨sessListHead, sessListHead⟩ := by
        rw [NfState.node, created.userData, update_self]
      exact Rings.Ring.empty (congrArg SessListNode.next node) (congrArg SessListNode.prev node)
    · rw [update_of_ne here]
      refine (lists.ring w (older w there here)).congr fun p place => ?_
      rcases List.mem_cons.mp place with rfl | inside
      · exact congrArg UserData.sessListHead (elsewhere w here)
      · obtain ⟨i, _, rfl⟩ := List.mem_map.mp inside
        rw [NfState.node, NfState.node, sessions]
  case member =>
    intro w there i
    rw [sessions]
    by_cases here : w = u
    · subst here
      rw [update_self]
      refine iff_of_false List.not_mem_nil ?_
      rintro ⟨inside, owner⟩
      obtain ⟨v, present, value⟩ := lists.owned i inside
      rw [owner] at value
      exact created.fresh (Int.ofNat.inj value ▸ present)
    · rw [update_of_ne here]
      exact lists.member w (older w there here) i
  case source =>
    intro i inside
    rw [sessions]
    exact source i inside
  case owned =>
    intro i inside
    obtain ⟨v, present, value⟩ := lists.owned i inside
    rw [sessions]
    exact ⟨v, created.users ▸ Set.mem_insert_of_mem u present, value⟩
  case size =>
    intro w there
    by_cases here : w = u
    · subst here
      rw [update_self, created.userData, update_self]
      rfl
    · rw [update_of_ne here, elsewhere w here]
      exact lists.size w (older w there here)

end Lists
end Nfos.EiNat
