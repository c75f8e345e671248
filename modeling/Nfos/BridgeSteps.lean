import Nfos.Bridge
import Nfos.NextPow2

/-! The steps of `bridge`: the handler of packets and the sweep keep the four arrays of the table
of addresses together. -/
namespace Nfos.Bridge
open Txn Tx Function Vectors Map DoubleChainExp Linked DataPlane AgeingTable
variable {setup : Setup} {s s' : NfState Elements} {find find' : RteEtherAddr → Option Int}
variable {Q Q' : ListId setup.numCores → List Nat} {m : RteEtherAddr} {now : Int} {i dev : Nat}

/-- The arrays of a state that a sweep changes, and the addresses. -/
def NfState.table (s : NfState Elements) : Table RteEtherAddr := ⟨s.dynMap, s.dynMacs, s.dynHeap⟩

/-- The map has room for every index of the allocator. -/
structure Setup.Sound (setup : Setup) : Prop where
  exact : setup.map.Exact
  room : setup.dynCapacity ≤ setup.map.capacity
  cores : 0 < setup.numCores

/-- The indexes in use are found under their addresses, and expire a validity after the time in
the other array. -/
structure Invariant (setup : Setup) (s : NfState Elements) (find : RteEtherAddr → Option Int)
    (Q : ListId setup.numCores → List Nat) : Prop where
  coherent : Coherent setup.map setup.numCores setup.dynCapacity s.table find Q
  stamped : ∀ i ∈ live setup.numCores setup.dynCapacity s.dynHeap,
    s.table.time setup.numCores i = (s.dynVals i).time + setup.validity

/-- What a packet from `m` leaves: no entry gets an older time, and the one of `m` is fresh. A new entry
has the device of the packet. -/
structure Touched (setup : Setup) (m : RteEtherAddr) (dev : Nat) (now : Int) (s : NfState Elements) (find : RteEtherAddr → Option Int)
    (Q : ListId setup.numCores → List Nat) (s' : NfState Elements) (find' : RteEtherAddr → Option Int)
    (Q' : ListId setup.numCores → List Nat) : Prop where
  invariant : Invariant setup s' find' Q'
  kept : ∀ k, ∀ i : Nat, find k = some (i : Int) → find' k = some (i : Int) ∧ (s.dynVals i).time ≤ (s'.dynVals i).time
  fresh : ∀ i : Nat, find' m = some (i : Int) → now ≤ (s'.dynVals i).time + setup.refreshInterval
  others : ∀ k ≠ m, ∀ i : Nat, find' k = some (i : Int) → find k = some (i : Int) ∧ s'.dynVals i = s.dynVals i
  aged : ∀ latest ≤ now, Aged setup.validity latest s.dynHeap Q → Aged setup.validity now s'.dynHeap Q'
  devices : ∀ k, ∀ i : Nat, find' k = some (i : Int) → (s'.dynVals i).dev = if find k = none then dev else (s.dynVals i).dev

/-- Nothing is written. -/
theorem Invariant.untouched (invariant : Invariant setup s find Q)
    (fresh : ∀ i : Nat, find m = some (i : Int) → now ≤ (s.dynVals i).time + setup.refreshInterval) :
    Touched setup m dev now s find Q s find Q := by
  constructor
  case invariant => exact invariant
  case kept => exact fun k i found => ⟨found, le_rfl⟩
  case fresh => exact fresh
  case others => exact fun k _ i found => ⟨found, rfl⟩
  case aged => exact fun latest order aged => aged.later order
  case devices => exact fun k i found => by simp [found]

theorem Invariant.refresh (invariant : Invariant setup s find Q) (known : find m = some (i : Int)) {result : Bool}
    (due : now > (s.dynVals i).time + setup.refreshInterval)
    (outcome : Rejuvenated setup.numCores setup.dynCapacity i (now + setup.validity) s.dynHeap Q result s'.dynHeap)
    (dynMap : s'.dynMap = s.dynMap) (dynMacs : s'.dynMacs = s.dynMacs)
    (dynVals : s'.dynVals = update s.dynVals i { s.dynVals i with time := now }) :
    ∃ Q', Touched setup m dev now s find Q s' find Q' := by
  obtain ⟨j, present, same, key⟩ := invariant.coherent.directory.of_found known
  obtain rfl : i = j := Int.ofNat.inj same
  have index {k : RteEtherAddr} {j : Nat} (found : find k = some (j : Int)) : s.dynMacs j = k := by
    obtain ⟨j', _, same, stored⟩ := invariant.coherent.directory.of_found found
    obtain rfl : j = j' := Int.ofNat.inj same
    exact stored
  obtain ⟨Q', coherent', step, numbers, times⟩ := invariant.coherent.rejuvenate (U := s'.table) present outcome dynMap dynMacs
  refine ⟨Q', ?_⟩
  constructor
  case invariant =>
    refine ⟨coherent', ?_⟩
    intro j member
    rw [show live _ _ s'.dynHeap = _ from numbers] at member
    rw [dynVals, Table.time, times]
    by_cases here : j = i
    · rw [here, update_self, update_self]
    · rw [update_of_ne here, update_of_ne fun clash => here (Nat.add_left_cancel clash)]
      exact invariant.stamped j member
  case kept =>
    intro k j found
    refine ⟨found, ?_⟩
    rw [dynVals]
    by_cases here : j = i
    · rw [here, update_self]
      dsimp only
      omega
    · rw [update_of_ne here]
  case fresh =>
    intro j found
    obtain rfl : i = j := Int.ofNat.inj (Option.some.inj (known.symm.trans found))
    rw [dynVals, update_self]
    dsimp only
    omega
  case others =>
    intro k apart j found
    refine ⟨found, ?_⟩
    rw [dynVals, update_of_ne]
    rintro rfl
    exact apart ((index found).symm.trans key)
  case aged => exact fun latest order aged => aged.stamp order rfl step
  case devices =>
    intro k j found
    rw [if_neg (by simp [found]), dynVals]
    by_cases here : j = i
    · rw [here, update_self]
    · rw [update_of_ne here]

theorem Invariant.add (invariant : Invariant setup s find Q) (absent : find m = none) {core : Fin setup.numCores}
    (outcome : AllocateIndex.Allocated setup.dynCapacity (fun _ => now + setup.validity) core s.dynHeap Q (some i) s'.dynHeap)
    (lookup : Lookup setup.map s'.dynMap (Directory.added find m i)) (dynMacs : s'.dynMacs = update s.dynMacs i m)
    (dynVals : s'.dynVals = update s.dynVals i ⟨dev, now⟩) :
    ∃ Q', Touched setup m dev now s find Q s' (Directory.added find m i) Q' := by
  have fresh : i ∉ live setup.numCores setup.dynCapacity s.dynHeap := (allocated_fresh invariant.coherent.valid outcome).2
  have apart {k : RteEtherAddr} {j : Nat} (found : find k = some (j : Int)) : k ≠ m ∧ j ≠ i := by
    constructor
    · rintro rfl
      rw [absent] at found
      contradiction
    · rintro rfl
      obtain ⟨j', present, same, _⟩ := invariant.coherent.directory.of_found found
      obtain rfl : j = j' := Int.ofNat.inj same
      exact fresh present
  obtain ⟨Q', coherent', step, numbers, times⟩ := invariant.coherent.add (U := s'.table) absent outcome lookup dynMacs
  refine ⟨Q', ?_⟩
  constructor
  case invariant =>
    refine ⟨coherent', ?_⟩
    intro j member
    rw [show live _ _ s'.dynHeap = _ from numbers] at member
    rw [dynVals, Table.time, times]
    rcases Set.mem_insert_iff.mp member with rfl | old
    · rw [update_self, update_self]
    · have here : j ≠ i := fun clash => fresh (clash ▸ old)
      rw [update_of_ne here, update_of_ne fun clash => here (Nat.add_left_cancel clash)]
      exact invariant.stamped j old
  case kept =>
    intro k j found
    obtain ⟨other, old⟩ := apart found
    exact ⟨(if_neg other).trans found, by rw [dynVals, update_of_ne old]⟩
  case fresh =>
    intro j found
    rw [Directory.added, if_pos rfl] at found
    obtain rfl : i = j := Int.ofNat.inj (Option.some.inj found)
    rw [dynVals, update_self]
    dsimp only
    omega
  case others =>
    intro k other j found
    rw [Directory.added, if_neg other] at found
    exact ⟨found, by rw [dynVals, update_of_ne (apart found).2]⟩
  case aged => exact fun latest order aged => aged.stamp order rfl step
  case devices =>
    intro k j found
    by_cases own : k = m
    · subst own
      rw [Directory.added, if_pos rfl] at found
      obtain rfl : i = j := Int.ofNat.inj (Option.some.inj found)
      rw [if_pos absent, dynVals, update_self]
    · rw [Directory.added, if_neg own] at found
      rw [if_neg (by simp [found]), dynVals, update_of_ne (apart found).2]

section Handler
variable {l : NfState Log} {grants : Nat → Nat → Bool}

theorem post_refreshMac (invariant : Invariant setup l.view find Q) (known : find m = some (i : Int)) :
    Txs.Post (refreshMac setup (i : Nat) now) grants l fun _ l' => ∃ Q', Touched setup m dev now l.view find Q l'.view find Q' := by
  obtain ⟨j, present, same, _⟩ := invariant.coherent.directory.of_found known
  obtain rfl : i = j := Int.ofNat.inj same
  rw [refreshMac, atIndex_eq _ present.1, Txs.post_bind]
  apply Txs.post_on
  rw [post_nfosVectorBorrow]
  apply Txs.post_ite
  · intro due
    rw [Txs.post_bind]
    apply Txs.post_on
    apply (post_rejuvenateIndex invariant.coherent.valid present.1).mono
    intro result t outcome
    rw [Txs.post_bind]
    apply Txs.post_on
    apply post_nfosVectorBorrowMut
    apply Txs.post_on
    rw [post_modify]
    apply Invariant.refresh invariant known due
    case outcome => exact outcome
    case dynMap => rfl
    case dynMacs => rfl
    case dynVals =>
      change ((l.dynVals.lock i).set i _).view = _
      rw [Log.view_set, Log.view_lock]
      rfl
  · intro recent
    refine ⟨Q, invariant.untouched ?_⟩
    intro j found
    obtain rfl : i = j := Int.ofNat.inj (Option.some.inj (known.symm.trans found))
    exact not_lt.mp recent

theorem post_addMac (sound : setup.Sound) (invariant : Invariant setup l.view find Q) (absent : find m = none)
    (core : Fin setup.numCores) (dev : Nat) (now : Int) :
    Txs.Post (addMac setup core.val m dev now) grants l fun learning l' =>
      (learning = .full ∧ l'.view = l.view) ∨
      (learning = .added true ∧ ∃ (i : Nat) (Q' : _), Touched setup m dev now l.view find Q l'.view (Directory.added find m (i : Nat)) Q') := by
  rw [addMac, Txs.post_bind]
  apply Txs.post_on
  apply (AllocateIndex.post_allocateNewIndex _ invariant.coherent.valid core).mono
  rintro (_ | i) t outcome
  · refine Or.inl ⟨rfl, ?_⟩
    have same : t.view = l.dynHeap.view := outcome.1
    rw [NfState.view, same]
    rfl
  · obtain ⟨within, fresh⟩ := allocated_fresh invariant.coherent.valid outcome
    simp only [Txs.post_bind]
    apply Txs.post_on
    apply post_nfosVectorBorrowMut
    apply Txs.post_on
    apply post_nfosVectorBorrowMut
    apply Txs.post_on
    rw [post_modify]
    apply Txs.post_on
    rw [post_modify]
    apply Txs.post_on
    apply (invariant.coherent.post_put sound.exact sound.room absent within fresh rfl).mono
    rintro stored t' ⟨rfl, lookup⟩
    refine Or.inr ⟨rfl, i, ?_⟩
    apply Invariant.add invariant absent
    case outcome => exact outcome
    case lookup => exact lookup
    case dynMacs =>
      change ((l.dynMacs.lock i).set i _).view = _
      rw [Log.view_set, Log.view_lock]
      rfl
    case dynVals =>
      change ((l.dynVals.lock i).set i _).view = _
      rw [Log.view_set, Log.view_lock]
      rfl

/-- What becomes of the source address. `nfos_map_put` does not fail. -/
theorem post_learnMac (sound : setup.Sound) (invariant : Invariant setup l.view find Q) (core : Fin setup.numCores)
    (m : RteEtherAddr) (dev : Nat) (now : Int) :
    Txs.Post (learnMac setup core.val m dev now) grants l fun learning l' => learning ≠ .added false ∧
      ∃ find' Q', Touched setup m dev now l.view find Q l'.view find' Q' ∧ (learning = .full ↔ find' m = none) ∧
        (learning = .known ↔ find m ≠ none) := by
  rw [learnMac, Txs.post_bind]
  apply Txs.post_on
  apply (post_get_lookup sound.exact invariant.coherent.lookup m).mono
  rintro result t ⟨rfl, rfl⟩
  cases known : find m with
  | some v =>
    obtain ⟨i, _, rfl, _⟩ := invariant.coherent.directory.of_found known
    rw [Txs.post_bind]
    apply (post_refreshMac invariant known).mono
    rintro _ l' ⟨Q', touched⟩
    exact ⟨nofun, find, Q', touched, by simp [known], by simp⟩
  | none =>
    apply (post_addMac sound invariant known core dev now).mono
    rintro learning l' (⟨rfl, same⟩ | ⟨rfl, i, Q', touched⟩)
    · rw [same]
      refine ⟨nofun, find, Q, invariant.untouched fun i found => ?_, iff_of_true rfl known, by simp⟩
      rw [known] at found
      contradiction
    · exact ⟨by decide, _, Q', touched, by simp [Directory.added], by simp⟩

theorem post_forwardPkt (sound : setup.Sound) (invariant : Invariant setup l.view find Q) (dstMac : RteEtherAddr) :
    Txs.Post (forwardPkt setup dstMac) grants l fun actions l' => l' = l ∧
      actions = match find dstMac with
        | some v => [.sendPkt (l.dynVals.view v.toNat).dev]
        | none => [.floodPkt] := by
  rw [forwardPkt, Txs.post_bind]
  apply Txs.post_on
  apply (post_get_lookup sound.exact invariant.coherent.lookup dstMac).mono
  rintro result t ⟨rfl, rfl⟩
  cases known : find dstMac with
  | some v =>
    obtain ⟨i, present, rfl, _⟩ := invariant.coherent.directory.of_found known
    dsimp only
    rw [atIndex_eq _ present.1, Txs.post_bind]
    apply Txs.post_on
    rw [post_nfosVectorBorrow]
    exact ⟨rfl, rfl⟩
  | none => exact ⟨rfl, rfl⟩

/-- A handled packet. -/
theorem post_pktHandler (sound : setup.Sound) (invariant : Invariant setup l.view find Q) (core : Fin setup.numCores)
    (header : EtherHeader) (dev : Nat) (now : Int) :
    Txs.Post (pktHandler setup core.val header dev now) grants l fun result l' => result.1 ≠ .added false ∧
      ∃ find' Q', Touched setup header.sAddr dev now l.view find Q l'.view find' Q' ∧
        (result.1 = .full ↔ find' header.sAddr = none) ∧ (result.1 = .known ↔ find header.sAddr ≠ none) ∧
        result.2 = if result.1 = .full then [] else match find' header.dAddr with
          | some v => [.sendPkt (l'.dynVals.view v.toNat).dev]
          | none => [.floodPkt] := by
  rw [pktHandler, Txs.post_bind]
  apply (post_learnMac sound invariant core header.sAddr dev now).mono
  rintro learning l' ⟨stored, find', Q', touched, room, known⟩
  apply Txs.post_ite
  · intro full
    exact ⟨stored, find', Q', touched, room, known, (if_pos full).symm⟩
  · intro learned
    rw [Txs.post_bind]
    apply (post_forwardPkt sound touched.invariant header.dAddr).mono
    rintro actions _ ⟨rfl, rfl⟩
    exact ⟨stored, find', Q', touched, room, known, (if_neg learned).symm⟩

/-- What a sweep leaves: the values stay as they are. -/
structure Expelled (setup : Setup) (now : Int) (s : NfState Elements) (find : RteEtherAddr → Option Int)
    (Q : ListId setup.numCores → List Nat) (freed : List Nat) (s' : NfState Elements)
    (Q' : ListId setup.numCores → List Nat) : Prop where
  cleared : Cleared setup.map setup.numCores setup.dynCapacity now s.table find Q freed s'.table Q'
  dynVals : s'.dynVals = s.dynVals

theorem Expelled.invariant {freed : List Nat} (expelled : Expelled setup now s find Q freed s' Q')
    (invariant : Invariant setup s find Q) : Invariant setup s' (without find s.dynMacs freed) Q' := by
  refine ⟨expelled.cleared.coherent, ?_⟩
  intro i member
  have stays : i ∈ live setup.numCores setup.dynCapacity s.dynHeap := by
    rw [show live _ _ s'.dynHeap = _ from expelled.cleared.numbers] at member
    exact member.1
  rw [expelled.cleared.time i member, expelled.dynVals]
  exact invariant.stamped i stays

theorem post_expMacLoop (sound : setup.Sound) (invariant : Invariant setup l.view find Q) (now : Int) :
    Txs.Post (expMacLoop setup now) grants l fun sweep l' => ∃ Q', Expelled setup now l.view find Q sweep.freed l'.view Q' := by
  apply (post_sweepAll macTable sound.exact sound.cores invariant.coherent now).mono
  rintro sweep l' ⟨_, rest, Q', cleared⟩
  exact ⟨Q', cleared, congrArg Log.view rest⟩

end Handler
end Nfos.Bridge
