import Nfos.EiNatUserLists
import Nfos.EiNatMappings

/-! What one packet does to the lists of the users of `ei-nat`. -/
namespace Nfos.EiNat
open Txn Tx Function Vectors Map DoubleChain NfUtil DataPlane Sessions

section Order
variable {setup : Setup} {s s' s'' : NfState Objects} {N N' N'' : Set Nat} {findUser : Nat → Option Int}
variable {L L' L'' : Nat → List Nat} {u x : Nat} {now : Int}

/-- The time of the last refresh of a session. -/
def NfState.lastUsed (s : NfState Objects) (i : Nat) : Int := (s.sessions.sessionData i).lastUsed

/-- The lists begin with the session that was refreshed last. -/
def Sorted (setup : Setup) (s : NfState Objects) (L : Nat → List Nat) : Prop :=
  ∀ u ∈ users setup s, (L u).Pairwise fun i j => s.lastUsed j ≤ s.lastUsed i

/-- What a packet at the time `now` does to the times of the sessions, and to the order of
the lists if no session was refreshed later. -/
structure Aged (setup : Setup) (now : Int) (s : NfState Objects) (N : Set Nat) (L : Nat → List Nat) (s' : NfState Objects)
    (N' : Set Nat) (L' : Nat → List Nat) : Prop where
  times : ∀ i ∈ N', s'.lastUsed i = now ∨ i ∈ N ∧ s'.lastUsed i = s.lastUsed i
  sorted : (∀ i ∈ N, s.lastUsed i ≤ now) → Sorted setup s L → Sorted setup s' L'

theorem Aged.refl (setup : Setup) (now : Int) (s : NfState Objects) (N : Set Nat) (L : Nat → List Nat) :
    Aged setup now s N L s N L :=
  ⟨fun _ inside => Or.inr ⟨inside, rfl⟩, fun _ sorted => sorted⟩

theorem Aged.trans (first : Aged setup now s N L s' N' L') (second : Aged setup now s' N' L' s'' N'' L'') :
    Aged setup now s N L s'' N'' L'' := by
  constructor
  case times =>
    intro i inside
    rcases second.times i inside with here | ⟨before, same⟩
    · exact Or.inl here
    · rw [same]
      exact first.times i before
  case sorted =>
    intro old sorted
    refine second.sorted (fun i inside => ?_) (first.sorted old sorted)
    rcases first.times i inside with here | ⟨before, same⟩
    · exact here.le
    · exact same.trans_le (old i before)

/-- A session that is refreshed comes to the front. -/
theorem Lists.sorted_front (lists : Lists setup s N findUser L) (known : u ∈ users setup s) (users : users setup s' = users setup s)
    {rest : List Nat} (sub : rest.Sublist (L u)) (off : x ∉ rest) (elsewhere : ∀ w ∈ EiNat.users setup s, w ≠ u → x ∉ L w)
    (times : ∀ i, s'.lastUsed i = if i = x then now else s.lastUsed i) (old : ∀ i ∈ N, s.lastUsed i ≤ now)
    (sorted : Sorted setup s L) : Sorted setup s' (update L u (x :: rest)) := by
  intro w there
  rw [users] at there
  have same : ∀ l : List Nat, x ∉ l → (l.Pairwise fun i j => s.lastUsed j ≤ s.lastUsed i) →
      l.Pairwise fun i j => s'.lastUsed j ≤ s'.lastUsed i := by
    intro l off ordered
    refine ordered.imp_of_mem fun {i j} first second le => ?_
    rwa [times, times, if_neg (ne_of_mem_of_not_mem first off), if_neg (ne_of_mem_of_not_mem second off)]
  by_cases here : w = u
  · subst here
    rw [update_self, List.pairwise_cons]
    refine ⟨fun j member => ?_, same rest off ((sorted w known).sublist sub)⟩
    rw [times, times, if_pos rfl, if_neg (ne_of_mem_of_not_mem member off)]
    exact old j ((lists.member w known j).mp (sub.subset member)).1
  · rw [update_of_ne here]
    exact same _ (elsewhere w there here) (sorted w there)

end Order

section Refresh
variable {setup : Setup} {s s' : NfState Objects} {N : Set Nat} {findUser : Nat → Option Int} {L : Nat → List Nat} {u x : Nat} {now : Int}

theorem lastUsed_touched (i : Nat) :
    (s.modifySession x fun d => { d with lastUsed := now }).lastUsed i = if i = x then now else s.lastUsed i := by
  by_cases here : i = x
  · subst here
    simp [NfState.lastUsed, NfState.modifySession]
  · simp [NfState.lastUsed, NfState.modifySession, here]

/-- The lists do not depend on the times. -/
theorem Lists.touched (lists : Lists setup s N findUser L) (x : Nat) (now : Int) :
    Lists setup (s.modifySession x fun d => { d with lastUsed := now }) N findUser L := by
  refine lists.congr rfl (fun _ _ => rfl) (fun i _ => ?_) (fun i _ => ?_) fun i _ => ?_
  · exact congrFun (NfState.node_modifySession (f := fun d => { d with lastUsed := now }) s x fun _ => rfl) _
  all_goals
    simp only [NfState.modifySession, update_apply]
    split
    · rename_i same
      rw [same]
    · rfl

theorem Lists.movedToFront {a b : List Nat} (lists : Lists setup s N findUser L) (known : u ∈ users setup s) (split : L u = a ++ x :: b)
    (inner : s.prev (.sess x) ≠ sessListHead) : Lists setup (s.movedToFront x u) N findUser (update L u (x :: (a ++ b))) := by
  have beside := Beside.movedToFront s x u
  have ring := lists.ring u known
  rw [split] at ring
  have same : ∀ i, i ∈ x :: (a ++ b) ↔ i ∈ L u := by
    intro i
    rw [split]
    simp only [List.mem_cons, List.mem_append]
    exact or_left_comm
  refine lists.edit known (congrArg (allocated _ _) beside.userIndexes) (ring.movedToFront inner) ?_ ?_ ?_ ?_ ?_ ?_ ?_
  · intro p outside
    apply ring.node_movedToFront inner
    intro place
    refine outside (List.mem_cons.mpr ((List.mem_cons.mp place).imp_right fun inside => ?_))
    obtain ⟨i, listed, rfl⟩ := List.mem_map.mp inside
    exact List.mem_map_of_mem ((same i).mpr (split ▸ listed))
  · intro i
    rw [same, lists.member u known, beside.userIndex]
  · exact fun i _ => ⟨Iff.rfl, beside.userIndex i⟩
  · exact fun i listed _ => ((lists.member u known i).mp ((same i).mp listed)).2
  · intro i inside
    rw [beside.intIp, beside.userIndex]
    exact lists.source i inside
  · rw [beside.size, lists.size u known, split]
    simp only [List.length_append, List.length_cons]
    omega
  · exact fun w _ => beside.size w

/-- Without a session before it, a session is the first of its list. -/
theorem Lists.first {a b : List Nat} (lists : Lists setup s N findUser L) (known : u ∈ users setup s) (split : L u = a ++ x :: b)
    (first : s.prev (.sess x) = sessListHead) : a = [] := by
  have ring := lists.ring u known
  rw [UserRing, split, List.map_append, List.map_cons] at ring
  have before := ring.prev_mem.symm.trans first
  rcases List.eq_nil_or_concat a with none | ⟨l, y, rfl⟩
  · exact none
  · rw [List.concat_eq_append, List.map_append, Rings.back, List.map_singleton, List.getLast?_append] at before
    have positive : (Place.sess y).code ≠ sessListHead := by
      simp only [Place.code, sessListHead]
      omega
    exact absurd before positive

theorem Lists.refreshed (lists : Lists setup s N findUser L) (inside : x ∈ N) (now : Int) :
    ∃ L', Lists setup (s.refreshed x now) N findUser L' ∧ Aged setup now s N L (s.refreshed x now) N L' := by
  unfold NfState.refreshed
  dsimp only
  split
  · rename_i old
    obtain ⟨u, known, owner⟩ := lists.owned x inside
    have listed : x ∈ L u := (lists.member u known x).mpr ⟨inside, owner⟩
    obtain ⟨a, b, split⟩ := List.append_of_mem listed
    have elsewhere : ∀ w ∈ users setup s, w ≠ u → x ∉ L w := by
      intro w there apart other
      have same := ((lists.member w there x).mp other).2
      omega
    have once : (L u).Nodup := by
      have distinct := (List.nodup_cons.mp (lists.ring u known).once).2
      exact distinct.of_map
    have off : x ∉ a ++ b := by
      rw [split, List.nodup_middle, List.nodup_cons] at once
      exact once.1
    have sub : (a ++ b).Sublist (L u) := by
      rw [split]
      exact List.Sublist.append_left (List.sublist_cons_self x b) a
    have touched := lists.touched x now
    have newer : ∀ s' : NfState Objects, (∀ i, s'.lastUsed i = if i = x then now else s.lastUsed i) →
        ∀ i ∈ N, s'.lastUsed i = now ∨ i ∈ N ∧ s'.lastUsed i = s.lastUsed i := by
      intro s' times i member
      rw [times]
      by_cases here : i = x
      · exact Or.inl (if_pos here)
      · exact Or.inr ⟨member, if_neg here⟩
    split
    · rename_i inner
      have beside := Beside.movedToFront (s.modifySession x fun d => { d with lastUsed := now }) x u
      have times : ∀ i, ((s.modifySession x fun d => { d with lastUsed := now }).movedToFront x u).lastUsed i =
          if i = x then now else s.lastUsed i := fun i => (beside.lastUsed i).trans (lastUsed_touched i)
      rw [owner, Int.toNat_natCast]
      refine ⟨_, touched.movedToFront known split inner, newer _ times, fun old sorted => ?_⟩
      exact lists.sorted_front known (congrArg (allocated _ _) beside.userIndexes) sub off elsewhere times old sorted
    · rename_i first
      obtain rfl := touched.first known split (not_not.mp first)
      refine ⟨L, touched, newer _ lastUsed_touched, fun old sorted => ?_⟩
      have same : users setup (s.modifySession x fun d => { d with lastUsed := now }) = users setup s := rfl
      have front := lists.sorted_front known same sub off elsewhere lastUsed_touched old sorted
      rw [List.nil_append, ← List.nil_append (x :: b), ← split, update_eq_self] at front
      exact front
  · exact ⟨L, lists, .refl ..⟩

end Refresh

section Create
variable {setup : Setup} {s s' : NfState Objects} {N : Set Nat} {find : Session → Option Int} {findUser : Nat → Option Int}
variable {addrOf : Nat → Nat} {L : Nat → List Nat} {u x addr : Nat} {key : Session} {now : Int} {l : NfState Log}

/-- What is stored for a session that is on no list does not matter to the lists. -/
theorem Lists.filled {d : SessionData} (lists : Lists setup s N findUser L) (users : users setup s' = users setup s)
    (userData : s'.userData = s.userData) (data : s'.sessions.sessionData = update s.sessions.sessionData x d) (fresh : x ∉ N)
    (now : Int) : Lists setup s' N findUser L ∧ Aged setup now s N L s' N L := by
  have same : ∀ i ∈ N, s'.sessions.sessionData i = s.sessions.sessionData i := by
    intro i inside
    rw [data, update_of_ne (ne_of_mem_of_not_mem inside fresh)]
  have times : ∀ i ∈ N, s'.lastUsed i = s.lastUsed i := fun i inside => congrArg SessionData.lastUsed (same i inside)
  refine ⟨lists.congr users (fun u _ => congrFun userData u) (fun i inside => ?_) (fun i inside => ?_) fun i inside => ?_, ?_⟩
  · exact congrArg SessionData.node (same i inside)
  · exact congrArg SessionData.intIp (same i inside)
  · exact congrArg SessionData.userIndex (same i inside)
  · refine ⟨fun i inside => Or.inr ⟨inside, times i inside⟩, fun _ sorted w there => ?_⟩
    rw [users] at there
    refine (sorted w there).imp_of_mem fun {i j} first second le => ?_
    rwa [times i ((lists.member w there i).mp first).1, times j ((lists.member w there j).mp second).1]

theorem Lists.created_aged (created : Created setup findUser addrOf addr u s s') (sessions : s'.sessions = s.sessions) :
    Aged setup now s N L s' N (update L u []) := by
  have times : ∀ i, s'.lastUsed i = s.lastUsed i := fun i => congrArg (fun m => (m.sessionData i).lastUsed) sessions
  refine ⟨fun i inside => Or.inr ⟨inside, times i⟩, fun _ sorted w there => ?_⟩
  by_cases here : w = u
  · subst here
    rw [update_self]
    exact .nil
  · rw [created.users] at there
    rw [update_of_ne here]
    simpa only [times] using sorted w (there.resolve_left here)

theorem Lists.inserted_aged (lists : Lists setup s N findUser L) (known : u ∈ users setup s) (fresh : x ∉ N)
    (new : s.lastUsed x = now) : Aged setup now s N L (s.inserted x u) (insert x N) (update L u (x :: L u)) := by
  have beside := Beside.linked s x u
  have times : ∀ i, (s.inserted x u).lastUsed i = s.lastUsed i := by
    intro i
    rw [NfState.lastUsed, sessionData_inserted]
    exact beside.lastUsed i
  have off : ∀ w ∈ users setup s, x ∉ L w := fun w there listed => fresh ((lists.member w there x).mp listed).1
  constructor
  case times =>
    rintro i (rfl | inside)
    · exact Or.inl ((times i).trans new)
    · exact Or.inr ⟨inside, times i⟩
  case sorted =>
    intro old sorted
    have same : users setup (s.inserted x u) = users setup s := congrArg (allocated _ _) beside.userIndexes
    refine lists.sorted_front known same (List.Sublist.refl _) (off u known)
      (fun w there _ => off w there) (fun i => ?_) old sorted
    rw [times]
    split
    · rename_i here
      rw [here, new]
    · rfl

end Create

section Translate
variable {setup : Setup} {N : Set Nat} {find : Session → Option Int} {findUser : Nat → Option Int} {addrOf : Nat → Nat}
variable {L : Nat → List Nat} {addr : Nat} {key : Session} {now : Int} {l l' : NfState Log}

/-- Every session is on the list of its user again. -/
def Listed (setup : Setup) (now : Int) (s : NfState Objects) (L : Nat → List Nat) (s' : NfState Objects) : Prop :=
  ∃ find findUser addrOf L', Known setup s' find findUser addrOf ∧ Lists setup s' (sessions setup s') findUser L' ∧
    Aged setup now s (sessions setup s) L s' (sessions setup s') L'

/-- There is no index for a new user. -/
def Exhausted (setup : Setup) (s : NfState Objects) (findUser : Nat → Option Int) (addr : Nat) : Prop :=
  findUser addr = none ∧ stock setup.numCores setup.maxNumUsers ⊆ users setup s

/-- There is an entry for another session. -/
def Room (setup : Setup) (s : NfState Objects) : Prop := ∃ j < setup.sessionMap.capacity, ¬ Busy s.sessions.sessionMap j

theorem Relinked.sessions (relinked : Relinked l l') : sessions setup l'.view = sessions setup l.view := by
  rw [EiNat.sessions, EiNat.sessions, numbers, numbers, relinked.tcp, relinked.udp]

theorem Users.stocked {s : NfState Objects} {u : Nat} (known : Users setup s findUser addrOf) (member : u ∈ users setup s) :
    u ∈ stock setup.numCores setup.maxNumUsers := by
  obtain ⟨L, valid⟩ := known.valid
  obtain ⟨c, listed⟩ := (mem_allocated valid).mp member
  exact (mem_lists_iff valid).mp ⟨_, listed⟩

/-- The user of a new session has a list. -/
theorem UserFound.listed {v : Int} (outcome : UserFound setup findUser addrOf addr l (some v) l')
    (known : Known setup l.view find findUser addrOf) (lists : Lists setup l.view N findUser L) (now : Int) :
    ∃ u findUser' addrOf' L', v = (u : Nat) ∧ u ∈ EiNat.users setup l'.view ∧ findUser' addr = some (u : Int) ∧
      Known setup l'.view find findUser' addrOf' ∧ Lists setup l'.view N findUser' L' ∧
      Aged setup now l.view N L l'.view N L' ∧ ¬ Exhausted setup l.view findUser addr := by
  obtain ⟨same, outcome⟩ := outcome
  rcases outcome with ⟨found, rfl⟩ | ⟨u, rfl, absent, created⟩
  · obtain ⟨u, member, rfl, _⟩ := known.users.coherent.of_found found
    refine ⟨u, findUser, addrOf, L, rfl, member, found, known, lists, .refl .., ?_⟩
    rintro ⟨absent, _⟩
    rw [absent] at found
    contradiction
  · have sessions : l'.view.sessions = l.view.sessions := congrArg Store.view same
    have member : u ∈ EiNat.users setup l'.view := created.users ▸ Set.mem_insert u _
    refine ⟨u, _, _, _, rfl, member, if_pos rfl, ⟨?_, created.known⟩, lists.created created absent sessions,
      Lists.created_aged created sessions, ?_⟩
    · rw [sessions]
      exact known.sessions
    · rintro ⟨_, full⟩
      exact created.fresh (full (created.known.stocked member))

/-- What `newSession` leaves. It is refused without a trace by a full map, but not when
there is no index for its user. -/
def NewSession (setup : Setup) (key : Session) (now : Int) (s : NfState Objects) (find : Session → Option Int)
    (findUser : Nat → Option Int) (L : Nat → List Nat) : Option Int → NfState Objects → Prop
  | some v, s' => (∃ i, v = (i : Nat) ∧ i ∈ sessions setup s') ∧ Listed setup now s L s' ∧ ¬ Exhausted setup s findUser key.srcAddr
  | none, s' =>
    ¬ Room setup s ∧ Restored setup.cfg setup.numCores s.sessions s'.sessions ∧ s'.userMap = s.userMap ∧
      s'.userIndexes = s.userIndexes ∧ s'.userData = s.userData ∨
    Room setup s ∧ Exhausted setup s findUser key.srcAddr ∧
      ∃ i : Nat, Lookup setup.sessionMap s'.sessions.sessionMap (Directory.added find key i)

theorem ensures_newSession_listed (exact : setup.Exact) (known : Known setup l.view find findUser addrOf)
    (lists : Lists setup l.view (sessions setup l.view) findUser L) (core : Fin setup.numCores)
    (accepted : nfHasTcpudpHeader key.proto = true) (absent : find key = none) :
    Txs.Ensures (newSession setup core.val key now) l fun result l' =>
      NewSession setup key now l.view find findUser L result l'.view := by
  refine Txs.ensures_bind (P := fun (result : Option Nat) m => m.userMap = l.userMap ∧ m.userIndexes = l.userIndexes ∧
    m.userData = l.userData ∧ SessionAllocated setup.cfg setup.sessionMap setup.numCores endpoint find key
      (fun d => { d with lastUsed := now, intIp := key.srcAddr, intPort := key.srcPort }) l.view.sessions result m.view.sessions) ?_ ?_
  · apply Txs.ensures_within
    refine (ensures_allocSession exact.sessionMap known.sessions core (fun _ => rfl) accepted absent).mono ?_
    exact fun result m outcome => ⟨rfl, rfl, rfl, outcome⟩
  · rintro result m ⟨userMap, userIndexes, userData, outcome⟩
    have sameMap : m.view.userMap = l.view.userMap := congrArg Log.view userMap
    have sameIndexes : m.view.userIndexes = l.view.userIndexes := congrArg Log.view userIndexes
    have sameData : m.view.userData = l.view.userData := congrArg Log.view userData
    have same : users setup m.view = users setup l.view := congrArg (allocated _ _) sameIndexes
    cases result with
    | none =>
      obtain ⟨restored, full, _⟩ := outcome
      exact Txs.ensures_pure (Or.inl ⟨full, restored, sameMap, sameIndexes, sameData⟩)
    | some i =>
      obtain ⟨room, fresh, grown, invariant, data⟩ := outcome
      have known₁ : Known setup m.view (Directory.added find key i) findUser addrOf := ⟨invariant, known.users.congr sameMap sameIndexes⟩
      obtain ⟨lists₁, aged₁⟩ := lists.filled same sameData data fresh now
      refine Txs.ensures_bind (ensures_getUser exact.userMap exact.users known₁.users core) ?_
      intro userIndex m' outcome
      cases userIndex with
      | none =>
        obtain ⟨sessions', none, full, _⟩ := outcome
        refine Txs.ensures_pure (Or.inr ⟨room, ⟨none, same ▸ full⟩, i, ?_⟩)
        change Lookup _ m'.sessions.view.sessionMap _
        rw [sessions']
        exact invariant.lookup
      | some v =>
        obtain ⟨u, findUser', addrOf', L', rfl, member, found, known₂, lists₂, aged₂, some⟩ := UserFound.listed outcome known₁ lists₁ now
        have sessions' : m'.view.sessions = m.view.sessions := congrArg Store.view outcome.1
        have filled : (m.view.sessions.sessionData i) =
            { l.view.sessions.sessionData i with lastUsed := now, intIp := key.srcAddr, intPort := key.srcPort } := by
          rw [data, update_self]
        have new : m'.view.lastUsed i = now := by
          rw [NfState.lastUsed, sessions', filled]
        have addr : (m'.view.sessions.sessionData i).intIp = key.srcAddr := by
          rw [sessions', filled]
        refine Txs.ensures_bind ((ensures_insertSession i u).and (insertSession_relinked i u m')) ?_
        rintro _ l' ⟨view, relinked⟩
        apply Txs.ensures_pure
        have grown' : sessions setup l'.view = insert i (sessions setup l.view) := by
          rw [relinked.sessions, sessions, sessions', grown]
        refine ⟨⟨i, rfl, grown' ▸ Set.mem_insert i _⟩, ?_, ?_⟩
        · refine ⟨_, findUser', addrOf', update L' u (i :: L' u), known₂.of_relinked relinked, ?_, ?_⟩
          · rw [grown', view]
            exact lists₂.inserted member fresh (addr ▸ found)
          · rw [grown', view]
            exact (aged₁.trans aged₂).trans (lists₂.inserted_aged member fresh new)
        · rwa [Exhausted, same] at some

/-- A session that is on a list is refreshed. -/
theorem Listed.refreshed {s : NfState Objects} {i : Nat} (listed : Listed setup now s L l.view) (member : i ∈ sessions setup l.view)
    (relinked : Relinked l l') (view : l'.view = l.view.refreshed i now) : Listed setup now s L l'.view := by
  obtain ⟨find, findUser, addrOf, L', known, lists, aged⟩ := listed
  obtain ⟨L'', lists', aged'⟩ := lists.refreshed member now
  refine ⟨find, findUser, addrOf, L'', known.of_relinked relinked, ?_, ?_⟩
  · rw [relinked.sessions, view]
    exact lists'
  · rw [relinked.sessions, view]
    exact aged.trans aged'

/-- What `translate` leaves, by how it finds the source. -/
def Translation.Leaves (setup : Setup) (key : Session) (now : Int) (s : NfState Objects) (find : Session → Option Int)
    (findUser : Nat → Option Int) (L : Nat → List Nat) (s' : NfState Objects) : Translation → Prop
  | .session _ => Listed setup now s L s' ∧ ¬ (find key = none ∧ Exhausted setup s findUser key.srcAddr)
  | .staticMapping _ => s' = s ∧ natStaticMappingMatch setup key.srcAddr key.srcPort lanDevice key.proto ≠ none
  | .dropped => find key = none ∧ natStaticMappingMatch setup key.srcAddr key.srcPort lanDevice key.proto = none ∧
    NewSession setup key now s find findUser L none s'

theorem ensures_translate_listed (exact : setup.Exact) (known : Known setup l.view find findUser addrOf)
    (lists : Lists setup l.view (sessions setup l.view) findUser L) (core : Fin setup.numCores)
    (accepted : nfHasTcpudpHeader key.proto = true) :
    Txs.Ensures (translate setup core.val key now) l fun result l' => result.Leaves setup key now l.view find findUser L l'.view := by
  refine Txs.ensures_bind (P := fun (result : Option Int) l' => l' = l ∧ result = find key) ?_ ?_
  · apply Txs.ensures_within
    apply Txs.ensures_on
    intro grants
    apply (post_get_lookup exact.sessionMap known.sessions.lookup key).mono
    rintro result t ⟨rfl, found⟩
    exact ⟨rfl, found⟩
  · rintro result m ⟨rfl, found⟩
    cases result with
    | some v =>
      obtain ⟨i, member, rfl, _⟩ := known.sessions.coherent.of_found found.symm
      refine Txs.ensures_bind ((ensures_refreshSession i now).and (refreshSession_relinked i now m)) ?_
      rintro _ l' ⟨view, relinked⟩
      apply Txs.ensures_pure
      refine ⟨Listed.refreshed ⟨find, findUser, addrOf, L, known, lists, .refl ..⟩ member relinked view, ?_⟩
      rintro ⟨absent, _⟩
      rw [absent] at found
      contradiction
    | none =>
      dsimp only
      cases mapping : natStaticMappingMatch setup key.srcAddr key.srcPort lanDevice key.proto with
      | some ext =>
        apply Txs.ensures_pure
        refine ⟨rfl, ?_⟩
        rw [mapping]
        nofun
      | none =>
        refine Txs.ensures_bind (ensures_newSession_listed exact known lists core accepted found.symm) ?_
        intro sessIndex m' outcome
        cases sessIndex with
        | none =>
          apply Txs.ensures_pure
          exact ⟨found.symm, mapping, outcome⟩
        | some v =>
          obtain ⟨⟨i, rfl, member⟩, listed, some⟩ := outcome
          refine Txs.ensures_bind ((ensures_refreshSession i now).and (refreshSession_relinked i now m')) ?_
          rintro _ l' ⟨view, relinked⟩
          apply Txs.ensures_pure
          exact ⟨listed.refreshed member relinked view, fun refused => some refused.2⟩

end Translate
end Nfos.EiNat
