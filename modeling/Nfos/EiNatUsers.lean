import Nfos.EiNatFrame

/-! The users of `ei-nat`: every source address with a session has a number. -/
namespace Nfos.EiNat
open Txn Tx Function Vectors Map DoubleChain NfUtil DataPlane Sessions

/-- The users that the map finds are those that are allocated. The data of a user does not
hold its address. -/
structure Users (setup : Setup) (s : NfState Objects) (find : Nat → Option Int) (addrOf : Nat → Nat) : Prop where
  lookup : Lookup setup.userMap s.userMap find
  valid : ∃ L : ListId setup.numCores → List Nat, Valid setup.numCores setup.maxNumUsers s.userIndexes L
  coherent : Directory.Coherent find (allocated setup.numCores setup.maxNumUsers s.userIndexes) addrOf

/-- The users among the indexes. -/
def users (setup : Setup) (s : NfState Objects) : Set Nat := allocated setup.numCores setup.maxNumUsers s.userIndexes

theorem Users.congr {setup : Setup} {s s' : NfState Objects} {find : Nat → Option Int} {addrOf : Nat → Nat}
    (known : Users setup s find addrOf) (userMap : s'.userMap = s.userMap) (userIndexes : s'.userIndexes = s.userIndexes) :
    Users setup s' find addrOf := by
  constructor
  case lookup => exact userMap ▸ known.lookup
  case valid => exact userIndexes ▸ known.valid
  case coherent => exact userIndexes ▸ known.coherent

theorem Users.of_relinked {setup : Setup} {l l' : NfState Log} {find : Nat → Option Int} {addrOf : Nat → Nat}
    (known : Users setup l.view find addrOf) (relinked : Relinked l l') : Users setup l'.view find addrOf :=
  known.congr relinked.userMap relinked.userIndexes

/-- A new user, with an empty list. -/
structure Created (setup : Setup) (find : Nat → Option Int) (addrOf : Nat → Nat) (addr u : Nat) (s s' : NfState Objects) : Prop where
  fresh : u ∉ users setup s
  users : users setup s' = insert u (users setup s)
  known : Users setup s' (Directory.added find addr u) (update addrOf u addr)
  userData : s'.userData = update s.userData u ⟨⟨sessListHead, sessListHead⟩, 0⟩

section Create
variable {setup : Setup} {l : NfState Log} {find : Nat → Option Int} {addrOf : Nat → Nat} {addr : Nat}

/-- What `alloc_user` and `getUser` leave: they do not touch the sessions. -/
def UserFound (setup : Setup) (find : Nat → Option Int) (addrOf : Nat → Nat) (addr : Nat) (l : NfState Log)
    (result : Option Int) (l' : NfState Log) : Prop :=
  l'.sessions = l.sessions ∧
    match result with
    | none => find addr = none ∧ stock setup.numCores setup.maxNumUsers ⊆ users setup l.view ∧
      l'.view.userMap = l.view.userMap ∧ l'.view.userIndexes = l.view.userIndexes ∧ l'.view.userData = l.view.userData
    | some v => (find addr = some v ∧ l' = l) ∨
      ∃ u, v = (u : Nat) ∧ find addr = none ∧ Created setup find addrOf addr u l.view l'.view

theorem UserFound.users {result : Option Int} {l' : NfState Log} (outcome : UserFound setup find addrOf addr l result l')
    (known : Users setup l.view find addrOf) : (∃ find' addrOf', Users setup l'.view find' addrOf') ∧
      users setup l.view ⊆ users setup l'.view ∧
      (result = none → stock setup.numCores setup.maxNumUsers ⊆ users setup l'.view) := by
  obtain ⟨_, outcome⟩ := outcome
  cases result with
  | none =>
    obtain ⟨_, full, userMap, userIndexes, _⟩ := outcome
    have same : EiNat.users setup l'.view = EiNat.users setup l.view := congrArg (allocated _ _) userIndexes
    exact ⟨⟨_, _, known.congr userMap userIndexes⟩, same.ge, fun _ => full.trans same.ge⟩
  | some v =>
    rcases outcome with ⟨_, rfl⟩ | ⟨u, rfl, _, created⟩
    · exact ⟨⟨_, _, known⟩, subset_rfl, nofun⟩
    · exact ⟨⟨_, _, created.known⟩, created.users ▸ Set.subset_insert .., nofun⟩

theorem ensures_allocUser (exact : setup.userMap.Exact) (room : setup.maxNumUsers ≤ setup.userMap.capacity)
    (known : Users setup l.view find addrOf) (core : Fin setup.numCores) (absent : find addr = none) :
    Txs.Ensures (allocUser setup core.val addr) l fun result l' =>
      UserFound setup find addrOf addr l (result.map Int.ofNat) l' := by
  obtain ⟨L, valid⟩ := known.valid
  refine Txs.ensures_bind (P := fun (result : Option Nat) l' => l'.sessions = l.sessions ∧ l'.userMap = l.userMap ∧
    l'.userData = l.userData ∧ (∃ L : ListId setup.numCores → List Nat, Valid setup.numCores setup.maxNumUsers l'.view.userIndexes L) ∧
    (result = none → l'.view.userIndexes = l.view.userIndexes ∧ stock setup.numCores setup.maxNumUsers ⊆ users setup l.view) ∧
    ∀ u, result = some u → u < setup.maxNumUsers ∧ u ∉ users setup l.view ∧ users setup l'.view = insert u (users setup l.view)) ?_ ?_
  · apply Txs.ensures_on
    intro grants
    apply (AllocateIndex.post_allocateNewIndex id valid core).mono
    intro result t outcome
    obtain ⟨valid', step⟩ := allocate_refines valid core outcome
    refine ⟨rfl, rfl, rfl, valid', ?_⟩
    cases result with
    | none => exact ⟨fun _ => ⟨outcome.1, Allocator.Step.full step⟩, by simp⟩
    | some u =>
      refine ⟨by simp, fun v same => ?_⟩
      obtain rfl := Option.some.inj same
      exact allocated_of_step step
  · rintro result m ⟨sessions, userMap, userData, valid', refused, served⟩
    cases result with
    | none =>
      obtain ⟨same, full⟩ := refused rfl
      apply Txs.ensures_pure
      exact ⟨sessions, absent, full, congrArg Log.view userMap, same, congrArg Log.view userData⟩
    | some u =>
      obtain ⟨within, fresh, grown⟩ := served u rfl
      refine Txs.ensures_bind (P := fun (userData : Ref UserData) l' => userData = .pending u ∧ l'.sessions = m.sessions ∧
        l'.userMap = m.userMap ∧ l'.userIndexes = m.userIndexes ∧ l'.userData.view = m.userData.view) ?_ ?_
      · exact ensures_nfosVectorBorrowMut ⟨rfl, rfl, rfl, rfl, Log.view_lock ..⟩
      · rintro _ m' ⟨rfl, sessions', userMap', userIndexes', userData'⟩
        have lookup : Lookup setup.userMap m'.userMap.view find := by
          rw [userMap', userMap]
          exact known.lookup
        refine Txs.ensures_bind (P := fun (stored : Bool) l' => stored = true ∧ l'.sessions = m'.sessions ∧
          Lookup setup.userMap l'.userMap.view (Directory.added find addr u) ∧ l'.userIndexes = m'.userIndexes ∧
          l'.userData = m'.userData) ?_ ?_
        · apply Txs.ensures_on
          intro grants
          apply (post_put_lookup exact lookup absent u).mono
          intro stored t outcome
          cases stored with
          | false =>
            obtain ⟨_, keys, distinct, full, stored⟩ := outcome
            have fewer := known.coherent.room (fun j member => member.1.trans_le room)
              (within.trans_le room) fresh distinct stored
            omega
          | true => exact ⟨rfl, rfl, outcome, rfl, rfl⟩
        · rintro _ m'' ⟨rfl, sessions'', lookup', userIndexes'', userData''⟩
          refine Txs.ensures_bind (P := fun (_ : Unit) l' => l'.sessions = m''.sessions ∧ l'.userMap = m''.userMap ∧
            l'.userIndexes = m''.userIndexes ∧
            l'.userData.view = update m''.userData.view u ⟨⟨sessListHead, sessListHead⟩, 0⟩) ?_ ?_
          · exact ensures_modify ⟨rfl, rfl, rfl, Log.view_set ..⟩
          · rintro _ l' ⟨sessions₃, userMap₃, userIndexes₃, userData₃⟩
            have indexes : l'.view.userIndexes = m.view.userIndexes :=
              congrArg Log.view (userIndexes₃.trans (userIndexes''.trans userIndexes'))
            apply Txs.ensures_pure
            refine ⟨sessions₃.trans (sessions''.trans (sessions'.trans sessions)), Or.inr ⟨u, rfl, absent, ?_⟩⟩
            constructor
            case fresh => exact fresh
            case users => rw [users, indexes]; exact grown
            case known =>
              constructor
              case lookup =>
                change Lookup setup.userMap l'.userMap.view _
                rw [userMap₃]
                exact lookup'
              case valid => exact indexes ▸ valid'
              case coherent =>
                have same : allocated setup.numCores setup.maxNumUsers l'.view.userIndexes = insert u (users setup l.view) :=
                  indexes ▸ grown
                rw [same]
                exact known.coherent.insert absent fresh
            case userData =>
              change l'.userData.view = update l.userData.view u _
              rw [userData₃, userData'', userData', userData]

theorem ensures_getUser (exact : setup.userMap.Exact) (room : setup.maxNumUsers ≤ setup.userMap.capacity)
    (known : Users setup l.view find addrOf) (core : Fin setup.numCores) :
    Txs.Ensures (getUser setup core.val addr) l (UserFound setup find addrOf addr l) := by
  refine Txs.ensures_bind (P := fun (result : Option Int) l' => l' = l ∧ result = find addr) ?_ ?_
  · apply Txs.ensures_on
    intro grants
    apply (post_get_lookup exact known.lookup addr).mono
    rintro result t ⟨rfl, found⟩
    exact ⟨rfl, found⟩
  · rintro result m ⟨rfl, found⟩
    cases result with
    | some v =>
      apply Txs.ensures_pure
      exact ⟨rfl, Or.inl ⟨found.symm, rfl⟩⟩
    | none =>
      refine Txs.ensures_bind (ensures_allocUser exact room known core found.symm) ?_
      intro result l' outcome
      apply Txs.ensures_pure
      exact outcome

end Create
end Nfos.EiNat
