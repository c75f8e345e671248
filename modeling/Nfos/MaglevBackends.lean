import Nfos.Maglev
import Nfos.AgeingTable
import Nfos.NextPow2

/-! The backends of `maglev`: the heartbeats and the sweep keep the map of the addresses, the
information and the allocator together. -/
namespace Nfos.Maglev
open Txn Tx Function Vectors Map DoubleChainExp Linked Cht AgeingTable
variable {setup : Setup} {s s' : NfState Elements} {find find' : Nat → Option Int}
variable {Q Q' : ListId setup.numCores → List Nat} {now : Int} {i : Nat}

/-- The table that `expire_backend` sweeps. -/
def backendTable : Arrays Nat (NfState Log) (Log BackendInfo × Log Nat) where
  mapArray := 0
  map := (·.backendIpToBackendId)
  setMap t l := { l with backendIpToBackendId := t }
  keysArray := 1
  keys := (·.backendIps)
  setKeys t l := { l with backendIps := t }
  chainArray := 4
  chain := (·.tables.backends)
  setChain t l := { l with tables := { l.tables with backends := t } }
  rest l := (l.backendInfo, l.tables.cht)
  map_setMap _ _ := rfl
  map_setChain _ _ := rfl
  keys_setMap _ _ := rfl
  keys_setChain _ _ := rfl
  chain_setMap _ _ := rfl
  chain_setChain _ _ := rfl
  setKeys_keys _ := rfl
  rest_setMap _ _ := rfl
  rest_setChain _ _ := rfl

/-- The loop of `expire_backend`. -/
def expireBackendLoop (setup : Setup) (now : Int) : Txs (NfState Log) Sweep :=
  sweepAll backendTable setup.map setup.numCores setup.backendCapacity now

/-- The arrays of a state that a sweep changes, and the addresses. -/
def NfState.table (s : NfState Elements) : Table Nat := ⟨s.backendIpToBackendId, s.backendIps, s.tables.backends⟩

/-- The backends that are alive. -/
abbrev NfState.alive (setup : Setup) (s : NfState Elements) : Set Nat := live setup.numCores setup.backendCapacity s.tables.backends

/-- The map has room for every backend. -/
structure Setup.Sound (setup : Setup) : Prop where
  exact : setup.map.Exact
  room : setup.backendCapacity ≤ setup.map.capacity
  cores : 0 < setup.numCores

/-- Every backend that is alive is found under its address, which is also that of its
information. -/
structure Invariant (setup : Setup) (s : NfState Elements) (find : Nat → Option Int) (Q : ListId setup.numCores → List Nat) : Prop where
  coherent : Coherent setup.map setup.numCores setup.backendCapacity s.table find Q
  info : ∀ i ∈ s.alive setup, (s.backendInfo i).ip = s.backendIps i

section Heartbeat
variable {l : NfState Log} {grants : Nat → Nat → Bool}

theorem post_onBackends {α : Type} {program : Tx NfosDchainExpCell α} {ensures : α → NfState Log → Prop}
    (post : Tx.Post program (grants 4) l.tables.backends fun a t => ensures a { l with tables := { l.tables with backends := t } }) :
    Txs.Post (onTables (onBackends program)) grants l ensures := by
  apply Txs.post_within
  exact Txs.post_on post

/-- What a heartbeat from `ip` leaves: the backends that were alive stay as they are, and the one
of `ip` is valid from `now` on. A new one is behind the device `dev`. -/
structure Refreshed (setup : Setup) (ip dev : Nat) (now : Int) (s : NfState Elements) (find : Nat → Option Int)
    (Q : ListId setup.numCores → List Nat) (s' : NfState Elements) (find' : Nat → Option Int)
    (Q' : ListId setup.numCores → List Nat) : Prop where
  invariant : Invariant setup s' find' Q'
  kept : ∀ i ∈ s.alive setup, i ∈ s'.alive setup ∧ s'.backendIps i = s.backendIps i ∧ s'.backendInfo i = s.backendInfo i
  added : ∀ i ∈ s'.alive setup, i ∈ s.alive setup ∨ (s'.backendInfo i).dev = dev
  cht : s'.tables.cht = s.tables.cht
  stamped : ∀ i : Nat, find' ip = some (i : Int) → s'.table.time setup.numCores i = now + setup.validity
  others : ∀ k ≠ ip, ∀ i : Nat, find' k = some (i : Int) →
    find k = some (i : Int) ∧ s'.table.time setup.numCores i = s.table.time setup.numCores i
  aged : ∀ latest ≤ now, Aged setup.validity latest s.tables.backends Q → Aged setup.validity now s'.tables.backends Q'

theorem Invariant.rejuvenate (invariant : Invariant setup s find Q) {ip : Nat} (dev : Nat) (known : find ip = some (i : Int)) {result : Bool}
    (outcome : Rejuvenated setup.numCores setup.backendCapacity i (now + setup.validity) s.tables.backends Q result s'.tables.backends)
    (map : s'.backendIpToBackendId = s.backendIpToBackendId) (ips : s'.backendIps = s.backendIps)
    (info : s'.backendInfo = s.backendInfo) (cht : s'.tables.cht = s.tables.cht) :
    ∃ Q', Refreshed setup ip dev now s find Q s' find Q' := by
  obtain ⟨j, present, same, key⟩ := invariant.coherent.directory.of_found known
  obtain rfl : i = j := Int.ofNat.inj same
  obtain ⟨Q', coherent', step, numbers, times⟩ := invariant.coherent.rejuvenate (U := s'.table) present outcome map ips
  have alive : s'.alive setup = s.alive setup := numbers
  refine ⟨Q', ?_⟩
  constructor
  case invariant =>
    refine ⟨coherent', ?_⟩
    intro j member
    rw [alive] at member
    rw [info, ips]
    exact invariant.info j member
  case kept =>
    intro j member
    rw [alive, ips, info]
    exact ⟨member, rfl, rfl⟩
  case added =>
    intro j member
    rw [alive] at member
    exact .inl member
  case cht => exact cht
  case stamped =>
    intro j found
    obtain rfl : i = j := Int.ofNat.inj (Option.some.inj (known.symm.trans found))
    rw [Table.time, times, update_self]
  case others =>
    intro k other j found
    refine ⟨found, ?_⟩
    obtain ⟨j', _, same, stored⟩ := invariant.coherent.directory.of_found found
    obtain rfl : j = j' := Int.ofNat.inj same
    rw [Table.time, times, update_of_ne]
    · rfl
    · intro clash
      obtain rfl := Nat.add_left_cancel clash
      exact other (stored.symm.trans key)
  case aged => exact fun latest order aged => aged.stamp order rfl step

theorem Invariant.add (invariant : Invariant setup s find Q) {ip dev mac : Nat} (absent : find ip = none) {core : Fin setup.numCores}
    (outcome : AllocateIndex.Allocated setup.backendCapacity (fun _ => now + setup.validity) core s.tables.backends Q (some i)
      s'.tables.backends)
    (lookup : Lookup setup.map s'.backendIpToBackendId (Directory.added find ip i)) (ips : s'.backendIps = update s.backendIps i ip)
    (info : s'.backendInfo = update s.backendInfo i ⟨dev, mac, ip⟩) (cht : s'.tables.cht = s.tables.cht) :
    ∃ Q', Refreshed setup ip dev now s find Q s' (Directory.added find ip i) Q' := by
  obtain ⟨Q', coherent', step, numbers, times⟩ := invariant.coherent.add (U := s'.table) absent outcome lookup ips
  have alive : s'.alive setup = insert i (s.alive setup) := numbers
  have apart : ∀ j ∈ s.alive setup, j ≠ i := by
    rintro j member rfl
    exact (allocated_fresh invariant.coherent.valid outcome).2 member
  refine ⟨Q', ?_⟩
  constructor
  case invariant =>
    refine ⟨coherent', ?_⟩
    intro j member
    rw [alive] at member
    rw [info, ips]
    rcases Set.mem_insert_iff.mp member with rfl | old
    · rw [update_self, update_self]
    · rw [update_of_ne (apart j old), update_of_ne (apart j old)]
      exact invariant.info j old
  case kept =>
    intro j member
    rw [alive, ips, info, update_of_ne (apart j member), update_of_ne (apart j member)]
    exact ⟨Set.mem_insert_of_mem i member, rfl, rfl⟩
  case added =>
    intro j member
    rw [alive] at member
    rcases Set.mem_insert_iff.mp member with rfl | old
    · rw [info, update_self]
      exact .inr rfl
    · exact .inl old
  case cht => exact cht
  case stamped =>
    intro j found
    rw [Directory.added, if_pos rfl] at found
    obtain rfl : i = j := Int.ofNat.inj (Option.some.inj found)
    rw [Table.time, times, update_self]
  case others =>
    intro k other j found
    rw [Directory.added, if_neg other] at found
    obtain ⟨j', present, same, _⟩ := invariant.coherent.directory.of_found found
    obtain rfl : j = j' := Int.ofNat.inj same
    refine ⟨found, ?_⟩
    rw [Table.time, times, update_of_ne fun clash => apart j present (Nat.add_left_cancel clash)]
    rfl
  case aged => exact fun latest order aged => aged.stamp order rfl step

/-- A heartbeat. A backend that does not fit into the table is ignored. -/
theorem post_refreshBackend (sound : setup.Sound) (invariant : Invariant setup l.view find Q) (core : Fin setup.numCores) (pkt : Pkt)
    (incomingDev : Nat) (now : Int) :
    Txs.Post (refreshBackend setup core.val pkt incomingDev now) grants l fun _ l' =>
      ∃ find' Q', Refreshed setup pkt.srcAddr incomingDev now l.view find Q l'.view find' Q' := by
  rw [refreshBackend, Txs.post_bind]
  apply Txs.post_on
  apply (post_get_lookup sound.exact invariant.coherent.lookup pkt.srcAddr).mono
  rintro result t ⟨rfl, rfl⟩
  cases known : find pkt.srcAddr with
  | none =>
    rw [Txs.post_bind]
    apply post_onBackends
    apply (AllocateIndex.post_allocateNewIndex _ invariant.coherent.valid core).mono
    rintro (_ | i) t outcome
    · have same : t.view = l.tables.backends.view := outcome.1
      have back : NfState.view { l with tables := { l.tables with backends := t } } = l.view := by
        simp only [NfState.view, Tables.view, same]
      refine ⟨find, Q, ?_⟩
      dsimp only
      rw [back]
      constructor
      case invariant => exact invariant
      case kept => exact fun _ member => ⟨member, rfl, rfl⟩
      case added => exact fun _ member => .inl member
      case cht => rfl
      case stamped => simp [known]
      case others => exact fun _ _ _ found => ⟨found, rfl⟩
      case aged => exact fun latest order aged => aged.later order
    · obtain ⟨within, fresh⟩ := allocated_fresh invariant.coherent.valid outcome
      simp only [Txs.post_bind]
      apply Txs.post_on
      apply post_nfosVectorBorrowMut
      apply Txs.post_on
      rw [post_modify]
      apply Txs.post_on
      apply post_nfosVectorBorrowMut
      apply Txs.post_on
      rw [post_modify]
      apply Txs.post_on
      apply (invariant.coherent.post_put sound.exact sound.room known within fresh rfl).mono
      rintro stored t' ⟨rfl, lookup⟩
      refine ⟨Directory.added find pkt.srcAddr i, ?_⟩
      apply Invariant.add invariant known
      case outcome => exact outcome
      case lookup => exact lookup
      case ips =>
        change ((l.backendIps.lock i).set i _).view = _
        rw [Log.view_set, Log.view_lock]
        rfl
      case info =>
        change ((l.backendInfo.lock i).set i _).view = _
        rw [Log.view_set, Log.view_lock]
        rfl
      case cht => rfl
  | some v =>
    obtain ⟨i, present, rfl, _⟩ := invariant.coherent.directory.of_found known
    rw [Txs.post_bind]
    apply post_onBackends
    apply (post_rejuvenateIndex invariant.coherent.valid present.1).mono
    intro result t outcome
    refine ⟨find, ?_⟩
    apply Invariant.rejuvenate invariant incomingDev known
    case outcome => exact outcome
    case map => rfl
    case ips => rfl
    case info => rfl
    case cht => rfl

/-- A sweep. -/
structure Expelled (setup : Setup) (now : Int) (s : NfState Elements) (find : Nat → Option Int) (Q : ListId setup.numCores → List Nat)
    (freed : List Nat) (s' : NfState Elements) (Q' : ListId setup.numCores → List Nat) : Prop where
  cleared : Cleared setup.map setup.numCores setup.backendCapacity now s.table find Q freed s'.table Q'
  backendInfo : s'.backendInfo = s.backendInfo
  cht : s'.tables.cht = s.tables.cht

theorem Expelled.invariant {freed : List Nat} (expelled : Expelled setup now s find Q freed s' Q')
    (invariant : Invariant setup s find Q) : Invariant setup s' (without find s.backendIps freed) Q' := by
  refine ⟨expelled.cleared.coherent, ?_⟩
  intro i member
  rw [show s'.alive setup = _ from expelled.cleared.numbers] at member
  rw [expelled.backendInfo, show s'.backendIps = _ from expelled.cleared.keys]
  exact invariant.info i member.1

theorem post_expireBackendLoop (sound : setup.Sound) (invariant : Invariant setup l.view find Q) (now : Int) :
    Txs.Post (expireBackendLoop setup now) grants l fun sweep l' => ∃ Q', Expelled setup now l.view find Q sweep.freed l'.view Q' := by
  apply (post_sweepAll backendTable sound.exact sound.cores invariant.coherent now).mono
  rintro sweep l' ⟨_, rest, Q', cleared⟩
  exact ⟨Q', cleared, congrArg Log.view (Prod.mk.inj rest).1, congrArg Log.view (Prod.mk.inj rest).2⟩

end Heartbeat
end Nfos.Maglev
