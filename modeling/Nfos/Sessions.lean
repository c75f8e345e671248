import Nfos.Lib.Casts
import Nfos.Vectors
import Nfos.MapLookup
import Nfos.NfUtil
import Nfos.DoubleChain

/-! What the two NATs share: sessions of internal endpoints, whose numbers encode the
external addresses and ports. -/
namespace Nfos.Sessions
open Txn Tx Casts Function Vectors Map DoubleChain NfUtil

/-- `nf_config_t`; there is at least one port and one address. -/
structure NfConfig where
  wanDevice : Nat
  externalAddr : Nat
  numExternalAddrs : Nat
  externalPortLow : Nat
  externalPortHigh : Nat
  ports : externalPortLow ≤ externalPortHigh ∧ externalPortHigh < 2 ^ 16
  addrs : 0 < numExternalAddrs

def NfConfig.portSpaceSize (cfg : NfConfig) : Nat := cfg.externalPortHigh - cfg.externalPortLow + 1

def NfConfig.numAvailExtTuples (cfg : NfConfig) : Nat := cfg.portSpaceSize * cfg.numExternalAddrs

/-- `session_t` -/
structure Session where
  srcAddr : Nat
  srcPort : Nat
  proto : Nat
  deriving DecidableEq

def sessionKey (pkt : Pkt) : Session := ⟨pkt.srcAddr, pkt.srcPort, pkt.nextProtoId⟩

def sessionEqual (a b : Session) : Bool := a.srcAddr == b.srcAddr && a.srcPort == b.srcPort && a.proto == b.proto

/-- `crc32si` is a builtin of the compiler. -/
def sessionHash (crc32si : Nat → Nat → Nat) (a : Session) : Nat :=
  crc32si (crc32si (crc32si 0 a.srcAddr) a.srcPort) a.proto

/-- The arrays of the sessions, `D` is the type of the session data. With `F := Log` they
are those of a transaction. -/
structure Store (D : Type) (F : Type → Type) where
  sessionMap : F (NfosMapEntry Session)
  sessionData : F D
  sessIndexesTcp : F NfosDchainCell
  sessIndexesUdp : F NfosDchainCell

/-- Objects by their place in an array. -/
abbrev Objects (σ : Type) : Type := Nat → σ

section Store
variable {D α : Type}

def Store.start (s : Store D Objects) : Store D Log :=
  ⟨.start s.sessionMap, .start s.sessionData, .start s.sessIndexesTcp, .start s.sessIndexesUdp⟩

def Store.view (l : Store D Log) : Store D Objects :=
  ⟨l.sessionMap.view, l.sessionData.view, l.sessIndexesTcp.view, l.sessIndexesUdp.view⟩

@[simp] theorem Store.view_start (s : Store D Objects) : s.start.view = s := rfl

def onMap (program : Tx (NfosMapEntry Session) α) : Txs (Store D Log) α :=
  Txs.on 0 (·.sessionMap) (fun t l => { l with sessionMap := t }) program

def onData (program : Tx D α) : Txs (Store D Log) α :=
  Txs.on 1 (·.sessionData) (fun t l => { l with sessionData := t }) program

def onTcp (program : Tx NfosDchainCell α) : Txs (Store D Log) α :=
  Txs.on 2 (·.sessIndexesTcp) (fun t l => { l with sessIndexesTcp := t }) program

def onUdp (program : Tx NfosDchainCell α) : Txs (Store D Log) α :=
  Txs.on 3 (·.sessIndexesUdp) (fun t l => { l with sessIndexesUdp := t }) program

end Store

section Calls
variable {D : Type} (cfg : NfConfig) (map : NfosMap Session) (numCores core : Nat)

/-- The numbers of the sessions that are not TCP ones come after all of these. -/
def allocateSessIndex (proto : Nat) : Txs (Store D Log) (Option Nat) :=
  if proto = 6 then onTcp (nfosDchainImplAllocateNewIndex numCores core)
  else do
    let ret ← onUdp (nfosDchainImplAllocateNewIndex numCores core)
    return ret.map (· + cfg.numAvailExtTuples)

/-- The index that the call returns with 1, `none` for 0. `fill` is what the NAT stores in
the data of a new session. -/
def allocSession (fill : D → D) (sessKey : Session) : Txs (Store D Log) (Option Nat) := do
  match ← allocateSessIndex cfg numCores core sessKey.proto with
  | none => Txs.fault
  | some index => do
    let sessData ← onData (nfosVectorBorrowMut index)
    if ← onMap (nfosMapPut map sessKey index) then
      onData (modify sessData fill)
      return some index
    else
      if sessKey.proto = 6 then
        let _ ← onTcp (nfosDchainImplFreeIndex numCores index core)
      else
        let _ ← onUdp (nfosDchainImplFreeIndex numCores (index - cfg.numAvailExtTuples) core)
      return none

/-- `sess_id_to_ext_tuple`: the address and the port in network byte order. -/
def sessIdToExtTuple (sessId : Int) (proto : Nat) : Nat × Nat :=
  let sessId := if proto ≠ 6 then sessId - cfg.numAvailExtTuples else sessId
  let portSpaceSize : Int := cfg.externalPortHigh - cfg.externalPortLow + 1
  let extPort := u16 (sessId.tmod portSpaceSize + cfg.externalPortLow)
  let extIp := u32 (sessId.tdiv portSpaceSize + cfg.externalAddr)
  (bswap32 extIp, bswap16 extPort)

end Calls

section Tuples
variable {cfg : NfConfig} {i j p q : Nat}

/-- The number of a session from its index in the allocator of its protocol. -/
def number (cfg : NfConfig) (proto i : Nat) : Nat := if proto = 6 then i else i + cfg.numAvailExtTuples

theorem NfConfig.portSpaceSize_pos (cfg : NfConfig) : 0 < cfg.portSpaceSize := Nat.succ_pos _

theorem NfConfig.numAvailExtTuples_pos (cfg : NfConfig) : 0 < cfg.numAvailExtTuples :=
  Nat.mul_pos cfg.portSpaceSize_pos cfg.addrs

theorem port_le (cfg : NfConfig) (i : Nat) : i % cfg.portSpaceSize + cfg.externalPortLow ≤ cfg.externalPortHigh := by
  have inside := Nat.mod_lt i cfg.portSpaceSize_pos
  have order := cfg.ports.1
  unfold NfConfig.portSpaceSize at *
  omega

theorem port_lt (cfg : NfConfig) (i : Nat) : i % cfg.portSpaceSize + cfg.externalPortLow < 2 ^ 16 :=
  (port_le cfg i).trans_lt cfg.ports.2

theorem addr_lt (within : i < cfg.numAvailExtTuples) :
    i / cfg.portSpaceSize + cfg.externalAddr < cfg.externalAddr + cfg.numExternalAddrs := by
  have quotient : i / cfg.portSpaceSize < cfg.numExternalAddrs := Nat.div_lt_of_lt_mul within
  omega

theorem sessIdToExtTuple_number (cfg : NfConfig) (p i : Nat) : sessIdToExtTuple cfg (number cfg p i) p =
    (bswap32 ((i / cfg.portSpaceSize + cfg.externalAddr) % 2 ^ 32), bswap16 (i % cfg.portSpaceSize + cfg.externalPortLow)) := by
  have order := cfg.ports.1
  have size : (cfg.externalPortHigh : Int) - cfg.externalPortLow + 1 = (cfg.portSpaceSize : Nat) := by
    unfold NfConfig.portSpaceSize
    omega
  have index : (if p ≠ 6 then (number cfg p i : Int) - cfg.numAvailExtTuples else number cfg p i) = (i : Int) := by
    unfold number
    by_cases tcp : p = 6
    · simp [tcp]
    · simp [tcp]
  simp only [sessIdToExtTuple, index, size, Int.tdiv_eq_ediv_of_nonneg (Int.natCast_nonneg i),
    Int.tmod_eq_emod_of_nonneg (Int.natCast_nonneg i)]
  have addr : u32 ((i : Int) / cfg.portSpaceSize + cfg.externalAddr) =
      (i / cfg.portSpaceSize + cfg.externalAddr) % 2 ^ 32 := by
    unfold u32
    omega
  have port : u16 ((i : Int) % cfg.portSpaceSize + cfg.externalPortLow) = i % cfg.portSpaceSize + cfg.externalPortLow :=
    u16_of_lt (port_lt cfg i)
  rw [addr, port]

/-- Division with remainder by the size of the port space loses nothing. -/
theorem sessIdToExtTuple_injective (left : i < cfg.numAvailExtTuples) (right : j < cfg.numAvailExtTuples)
    (small : cfg.numAvailExtTuples ≤ 2 ^ 32)
    (same : sessIdToExtTuple cfg (number cfg p i) p = sessIdToExtTuple cfg (number cfg q j) q) : i = j := by
  rw [sessIdToExtTuple_number, sessIdToExtTuple_number] at same
  obtain ⟨addr, port⟩ := Prod.mk.inj same
  have ports := bswap16_injective (port_lt cfg i) (port_lt cfg j) port
  have addrs := bswap32_injective (Nat.mod_lt _ (by decide)) (Nat.mod_lt _ (by decide)) addr
  have quotient {k : Nat} (within : k < cfg.numAvailExtTuples) : k / cfg.portSpaceSize < 2 ^ 32 :=
    (Nat.div_le_self ..).trans_lt (within.trans_le small)
  have quotients : i / cfg.portSpaceSize = j / cfg.portSpaceSize := by
    have least := quotient left
    have greatest := quotient right
    generalize i / cfg.portSpaceSize = a at *
    generalize j / cfg.portSpaceSize = b at *
    omega
  rw [← Nat.div_add_mod i cfg.portSpaceSize, ← Nat.div_add_mod j cfg.portSpaceSize, quotients]
  omega

end Tuples

section Invariant
variable {D : Type} {cfg : NfConfig} {map : NfosMap Session} {n : Nat} {endpoint : D → Nat × Nat}
variable {find : Session → Option Int} {s s' : Store D Objects} {l l' : Store D Log} {key : Session} {i : Nat}

/-- The numbers that the allocators have handed out. -/
def numbers (cfg : NfConfig) (n : Nat) (s : Store D Objects) : Set Nat :=
  {i | i ∈ allocated n cfg.numAvailExtTuples s.sessIndexesTcp ∨
    ∃ j ∈ allocated n cfg.numAvailExtTuples s.sessIndexesUdp, i = j + cfg.numAvailExtTuples}

/-- The key of a session. Its data holds only the endpoint. -/
def keyOf (cfg : NfConfig) (endpoint : D → Nat × Nat) (s : Store D Objects) (i : Nat) : Session :=
  ⟨(endpoint (s.sessionData i)).1, (endpoint (s.sessionData i)).2, if i < cfg.numAvailExtTuples then 6 else 17⟩

/-- The sessions that the map finds are those that are allocated, under the endpoints in
their data. -/
structure Invariant (cfg : NfConfig) (map : NfosMap Session) (n : Nat) (endpoint : D → Nat × Nat)
    (s : Store D Objects) (find : Session → Option Int) : Prop where
  lookup : Lookup map s.sessionMap find
  tcp : ∃ L : ListId n → List Nat, Valid n cfg.numAvailExtTuples s.sessIndexesTcp L
  udp : ∃ L : ListId n → List Nat, Valid n cfg.numAvailExtTuples s.sessIndexesUdp L
  coherent : Directory.Coherent find (numbers cfg n s) (keyOf cfg endpoint s)

theorem lt_of_mem_numbers (member : i ∈ numbers cfg n s) : i < 2 * cfg.numAvailExtTuples := by
  rcases member with first | ⟨j, second, rfl⟩
  · have := first.1
    omega
  · have := second.1
    omega

/-- What `allocateSessIndex` leaves. -/
structure Numbered (cfg : NfConfig) (n : Nat) (proto : Nat) (s s' : Store D Objects) (i : Nat) : Prop where
  tcp : ∃ L : ListId n → List Nat, Valid n cfg.numAvailExtTuples s'.sessIndexesTcp L
  udp : ∃ L : ListId n → List Nat, Valid n cfg.numAvailExtTuples s'.sessIndexesUdp L
  sessionMap : s'.sessionMap = s.sessionMap
  sessionData : s'.sessionData = s.sessionData
  fresh : i ∉ numbers cfg n s
  numbers : numbers cfg n s' = insert i (numbers cfg n s)
  proto : i < cfg.numAvailExtTuples ↔ proto = 6

/-- An index that an allocator hands out. -/
theorem allocated_of_step {size j : Nat} {c c' : Cells Unit}
    (step : Allocator.Step (stock n size) (allocated n size c) (.allocated j) (allocated n size c')) :
    j < size ∧ j ∉ allocated n size c ∧ allocated n size c' = insert j (allocated n size c) := by
  generalize after : allocated n size c' = later at step
  cases step with
  | allocate stocked absent =>
    have member : j ∈ allocated n size c' := after ▸ Set.mem_insert ..
    exact ⟨member.1, absent, rfl⟩

theorem ensures_allocateSessIndex (invariant : Invariant cfg map n endpoint l.view find) (core : Fin n) (proto : Nat) :
    Txs.Ensures (allocateSessIndex cfg n core.val proto) l fun result l' =>
      ∀ i, result = some i → Numbered cfg n proto l.view l'.view i := by
  obtain ⟨L, tcp⟩ := invariant.tcp
  obtain ⟨M, udp⟩ := invariant.udp
  apply Txs.ensures_ite
  · intro proto
    apply Txs.ensures_on
    intro grants
    apply (AllocateIndex.post_allocateNewIndex id tcp core).mono
    rintro result t outcome i rfl
    obtain ⟨valid, step⟩ := allocate_refines tcp core outcome
    obtain ⟨within, absent, grown⟩ := allocated_of_step step
    constructor
    case tcp => exact valid
    case udp => exact ⟨M, udp⟩
    case sessionMap => rfl
    case sessionData => rfl
    case fresh =>
      rintro (first | ⟨j, _, rfl⟩)
      · exact absent first
      · omega
    case numbers =>
      ext j
      change j ∈ allocated n cfg.numAvailExtTuples t.cells ∨ _ ↔ _
      rw [grown]
      exact or_assoc
    case proto => exact iff_of_true within proto
  · intro other
    refine Txs.ensures_bind (P := fun (result : Option Nat) (l' : Store D Log) =>
      ∀ j, result = some j → Numbered cfg n proto l.view l'.view (j + cfg.numAvailExtTuples)) ?_ ?_
    · apply Txs.ensures_on
      intro grants
      apply (AllocateIndex.post_allocateNewIndex id udp core).mono
      rintro result t outcome j rfl
      obtain ⟨valid, step⟩ := allocate_refines udp core outcome
      obtain ⟨within, absent, grown⟩ := allocated_of_step step
      constructor
      case tcp => exact ⟨L, tcp⟩
      case udp => exact valid
      case sessionMap => rfl
      case sessionData => rfl
      case fresh =>
        rintro (first | ⟨k, second, same⟩)
        · have := first.1
          omega
        · exact absent (Nat.add_right_cancel same ▸ second)
      case numbers =>
        ext k
        change _ ∨ (∃ j' ∈ allocated n cfg.numAvailExtTuples t.cells, k = j' + cfg.numAvailExtTuples) ↔ _
        rw [grown]
        constructor
        · rintro (first | ⟨j', (rfl | second), rfl⟩)
          · exact Or.inr (Or.inl first)
          · exact Or.inl rfl
          · exact Or.inr (Or.inr ⟨j', second, rfl⟩)
        · rintro (rfl | first | ⟨j', second, rfl⟩)
          · exact Or.inr ⟨j, Or.inl rfl, rfl⟩
          · exact Or.inl first
          · exact Or.inr ⟨j', Or.inr second, rfl⟩
      case proto => exact iff_of_false (by omega) other
    · intro result l' numbered
      apply Txs.ensures_pure
      intro i shifted
      obtain ⟨j, rfl, rfl⟩ := Option.map_eq_some_iff.mp shifted
      exact numbered j rfl

theorem accepted_proto (accepted : nfHasTcpudpHeader key.proto = true)
    (proto : i < cfg.numAvailExtTuples ↔ key.proto = 6) : (if i < cfg.numAvailExtTuples then 6 else 17) = key.proto := by
  simp only [nfHasTcpudpHeader, Bool.or_eq_true, beq_iff_eq] at accepted
  split
  · exact (proto.mp ‹_›).symm
  · exact (accepted.resolve_left fun tcp => ‹¬_› (proto.mpr tcp)).symm

/-- Only the endpoints in the data matter. -/
theorem Invariant.of_data (invariant : Invariant cfg map n endpoint s find)
    (same : ∀ j, endpoint (s'.sessionData j) = endpoint (s.sessionData j)) (sessionMap : s'.sessionMap = s.sessionMap)
    (tcp : s'.sessIndexesTcp = s.sessIndexesTcp) (udp : s'.sessIndexesUdp = s.sessIndexesUdp) :
    Invariant cfg map n endpoint s' find := by
  constructor
  case lookup => exact sessionMap ▸ invariant.lookup
  case tcp => exact tcp ▸ invariant.tcp
  case udp => exact udp ▸ invariant.udp
  case coherent =>
    rw [numbers, tcp, udp]
    apply invariant.coherent.congr
    intro j member
    rw [keyOf, keyOf, same]

theorem mem_tcp_iff : i ∈ allocated n cfg.numAvailExtTuples s.sessIndexesTcp ↔ i ∈ numbers cfg n s ∧ i < cfg.numAvailExtTuples := by
  constructor
  · exact fun member => ⟨Or.inl member, member.1⟩
  · rintro ⟨first | ⟨j, _, rfl⟩, below⟩
    · exact first
    · omega

theorem mem_udp_iff : i ∈ allocated n cfg.numAvailExtTuples s.sessIndexesUdp ↔ i + cfg.numAvailExtTuples ∈ numbers cfg n s := by
  constructor
  · exact fun member => Or.inr ⟨i, member, rfl⟩
  · rintro (first | ⟨j, second, same⟩)
    · have := first.1
      omega
    · exact Nat.add_right_cancel same ▸ second

/-- An index that an allocator takes back. -/
theorem freed_of_outcome {size j : Nat} {c c' : Cells Unit} {L : ListId n → List Nat} {result : Bool} (valid : Valid n size c L)
    (core : Fin n) (present : j ∈ allocated n size c) (outcome : Freed n size j c L core result c') :
    (∃ M : ListId n → List Nat, Valid n size c' M) ∧ allocated n size c' = allocated n size c \ {j} := by
  obtain ⟨valid', step⟩ := free_refines valid core outcome
  refine ⟨valid', ?_⟩
  generalize allocated n size c' = later at step
  cases result with
  | false =>
    cases step with
    | refuse absent => exact absurd present absent
  | true =>
    cases step with
    | free => rfl

/-- Nothing is left of an attempt to create a session. -/
structure Restored (cfg : NfConfig) (n : Nat) (s s' : Store D Objects) : Prop where
  tcp : ∃ L : ListId n → List Nat, Valid n cfg.numAvailExtTuples s'.sessIndexesTcp L
  udp : ∃ L : ListId n → List Nat, Valid n cfg.numAvailExtTuples s'.sessIndexesUdp L
  sessionMap : s'.sessionMap = s.sessionMap
  sessionData : s'.sessionData = s.sessionData
  numbers : numbers cfg n s' = numbers cfg n s

theorem Restored.invariant (restored : Restored cfg n s s') (invariant : Invariant cfg map n endpoint s find) :
    Invariant cfg map n endpoint s' find := by
  constructor
  case lookup => exact restored.sessionMap ▸ invariant.lookup
  case tcp => exact restored.tcp
  case udp => exact restored.udp
  case coherent =>
    rw [restored.numbers]
    apply invariant.coherent.congr
    intro j _
    rw [keyOf, keyOf, restored.sessionData]

/-- The number that `allocateSessIndex` has handed out is taken back. -/
theorem ensures_freeSessIndex {proto : Nat} (numbered : Numbered cfg n proto s l.view i) (core : Fin n) :
    Txs.Ensures (if proto = 6 then onTcp (nfosDchainImplFreeIndex n i core.val)
      else onUdp (nfosDchainImplFreeIndex n (i - cfg.numAvailExtTuples) core.val)) l fun _ l' => Restored cfg n s l'.view := by
  have member : i ∈ numbers cfg n l.view := numbered.numbers ▸ Set.mem_insert i _
  have removed : numbers cfg n l.view \ {i} = numbers cfg n s := by
    rw [numbered.numbers]
    exact Set.insert_sdiff_self_of_notMem numbered.fresh
  obtain ⟨L, tcp⟩ := numbered.tcp
  obtain ⟨M, udp⟩ := numbered.udp
  refine Txs.ensures_ite (fun same => ?_) fun other => ?_
  · have below := numbered.proto.mpr same
    apply Txs.ensures_on
    intro grants
    apply (post_freeIndex tcp core below).mono
    intro result t outcome
    obtain ⟨valid, shrunk⟩ := freed_of_outcome tcp core (mem_tcp_iff.mpr ⟨member, below⟩) outcome
    constructor
    case tcp => exact valid
    case udp => exact ⟨M, udp⟩
    case sessionMap => exact numbered.sessionMap
    case sessionData => exact numbered.sessionData
    case numbers =>
      rw [← removed]
      ext j
      change j ∈ allocated n cfg.numAvailExtTuples t.cells ∨ _ ↔ _
      rw [shrunk, Set.mem_sdiff, Set.mem_singleton_iff]
      constructor
      · rintro (⟨first, apart⟩ | ⟨j', second, rfl⟩)
        · exact ⟨Or.inl first, apart⟩
        · refine ⟨Or.inr ⟨j', second, rfl⟩, fun clash => ?_⟩
          rw [Set.mem_singleton_iff] at clash
          omega
      · rintro ⟨first | second, apart⟩
        · exact Or.inl ⟨first, apart⟩
        · exact Or.inr second
  · have above : cfg.numAvailExtTuples ≤ i := not_lt.mp fun below => other (numbered.proto.mp below)
    have within : i - cfg.numAvailExtTuples < cfg.numAvailExtTuples := by
      have := lt_of_mem_numbers member
      omega
    apply Txs.ensures_on
    intro grants
    apply (post_freeIndex udp core within).mono
    intro result t outcome
    have present : i - cfg.numAvailExtTuples ∈ allocated n cfg.numAvailExtTuples l.view.sessIndexesUdp := by
      rw [mem_udp_iff, Nat.sub_add_cancel above]
      exact member
    obtain ⟨valid, shrunk⟩ := freed_of_outcome udp core present outcome
    constructor
    case tcp => exact ⟨L, tcp⟩
    case udp => exact valid
    case sessionMap => exact numbered.sessionMap
    case sessionData => exact numbered.sessionData
    case numbers =>
      rw [← removed]
      ext j
      change _ ∨ (∃ j' ∈ allocated n cfg.numAvailExtTuples t.cells, j = j' + cfg.numAvailExtTuples) ↔ _
      rw [shrunk]
      constructor
      · rintro (first | ⟨j', ⟨second, apart⟩, rfl⟩)
        · refine ⟨Or.inl first, fun clash => ?_⟩
          have below := first.1
          rw [Set.mem_singleton_iff] at clash
          omega
        · refine ⟨Or.inr ⟨j', second, rfl⟩, fun clash => apart ?_⟩
          rw [Set.mem_singleton_iff] at clash ⊢
          omega
      · rintro ⟨first | ⟨j', second, rfl⟩, apart⟩
        · exact Or.inl first
        · refine Or.inr ⟨j', ⟨second, fun clash => apart ?_⟩, rfl⟩
          rw [Set.mem_singleton_iff] at clash ⊢
          omega

/-- What `alloc_session` leaves: it takes the number back when the map is full. -/
def SessionAllocated (cfg : NfConfig) (map : NfosMap Session) (n : Nat) (endpoint : D → Nat × Nat) (find : Session → Option Int)
    (key : Session) (fill : D → D) (s : Store D Objects) : Option Nat → Store D Objects → Prop
  | none, s' => Restored cfg n s s' ∧ (¬ ∃ j < map.capacity, ¬ Busy s.sessionMap j) ∧ map.capacity < 2 * cfg.numAvailExtTuples
  | some i, s' => (∃ j < map.capacity, ¬ Busy s.sessionMap j) ∧ i ∉ numbers cfg n s ∧ numbers cfg n s' = insert i (numbers cfg n s) ∧
    Invariant cfg map n endpoint s' (Directory.added find key i) ∧
    s'.sessionData = update s.sessionData i (fill (s.sessionData i))

theorem ensures_allocSession (exact : map.Exact) (invariant : Invariant cfg map n endpoint l.view find) (core : Fin n)
    {fill : D → D} (fills : ∀ d, endpoint (fill d) = (key.srcAddr, key.srcPort)) (accepted : nfHasTcpudpHeader key.proto = true)
    (absent : find key = none) : Txs.Ensures (allocSession cfg map n core.val fill key) l fun result l' =>
      SessionAllocated cfg map n endpoint find key fill l.view result l'.view := by
  refine Txs.ensures_bind (ensures_allocateSessIndex invariant core key.proto) ?_
  intro result m numbered
  cases result with
  | none => exact Txs.ensures_fault
  | some i =>
    replace numbered := numbered i rfl
    refine Txs.ensures_bind (P := fun (sessData : Ref D) (m : Store D Log) => sessData = .pending i ∧ Numbered cfg n key.proto l.view m.view i) ?_ ?_
    · apply ensures_nfosVectorBorrowMut
      refine ⟨rfl, { numbered with sessionData := ?_ }⟩
      exact (Log.view_lock ..).trans numbered.sessionData
    · rintro _ m ⟨rfl, numbered⟩
      have lookup : Lookup map m.view.sessionMap find := numbered.sessionMap ▸ invariant.lookup
      refine Txs.ensures_bind (P := fun (stored : Bool) (m' : Store D Log) =>
        m'.view.sessionData = m.view.sessionData ∧ m'.view.sessIndexesTcp = m.view.sessIndexesTcp ∧
        m'.view.sessIndexesUdp = m.view.sessIndexesUdp ∧ (stored = true ↔ ∃ j < map.capacity, ¬ Busy m.view.sessionMap j) ∧
        if stored then Lookup map m'.view.sessionMap (Directory.added find key i)
        else m'.view.sessionMap = m.view.sessionMap ∧ map.capacity < 2 * cfg.numAvailExtTuples) ?_ ?_
      · apply Txs.ensures_on
        intro grants
        apply ((post_put_room exact key i).and (post_put_lookup exact lookup absent i)).mono
        rintro stored t ⟨room, outcome⟩
        refine ⟨rfl, rfl, rfl, room, ?_⟩
        cases stored with
        | false =>
          obtain ⟨kept, keys, distinct, full, stored⟩ := outcome
          refine ⟨kept, not_le.mp fun room => ?_⟩
          have new : i < 2 * cfg.numAvailExtTuples :=
            lt_of_mem_numbers (numbered.numbers ▸ Set.mem_insert i _)
          have fewer := invariant.coherent.room (fun j member => (lt_of_mem_numbers member).trans_le room)
            (new.trans_le room) numbered.fresh distinct stored
          omega
        | true => exact outcome
      · rintro stored m' ⟨data, tcp, udp, room, outcome⟩
        rw [numbered.sessionMap] at room
        cases stored with
        | false =>
          obtain ⟨kept, full⟩ := outcome
          have again : Numbered cfg n key.proto l.view m'.view i := by
            constructor
            case tcp => exact tcp ▸ numbered.tcp
            case udp => exact udp ▸ numbered.udp
            case sessionMap => exact kept.trans numbered.sessionMap
            case sessionData => exact data.trans numbered.sessionData
            case fresh => exact numbered.fresh
            case numbers =>
              rw [← numbered.numbers, numbers, numbers, tcp, udp]
            case proto => exact numbered.proto
          have freed := ensures_freeSessIndex again core
          change Txs.Ensures (if key.proto = 6 then do
              let _ ← onTcp (nfosDchainImplFreeIndex n i core.val)
              return none
            else do
              let _ ← onUdp (nfosDchainImplFreeIndex n (i - cfg.numAvailExtTuples) core.val)
              return none) _ _
          by_cases same : key.proto = 6
          · rw [if_pos same] at freed ⊢
            refine Txs.ensures_bind freed fun _ l' restored => ?_
            exact Txs.ensures_pure ⟨restored, (fun free => nomatch room.mpr free), full⟩
          · rw [if_neg same] at freed ⊢
            refine Txs.ensures_bind freed fun _ l' restored => ?_
            exact Txs.ensures_pure ⟨restored, (fun free => nomatch room.mpr free), full⟩
        | true =>
          refine Txs.ensures_bind (P := fun (_ : Unit) (l' : Store D Log) => l'.view.sessionMap = m'.view.sessionMap ∧
            l'.view.sessionData = update m'.view.sessionData i (fill (m'.view.sessionData i)) ∧
            l'.view.sessIndexesTcp = m'.view.sessIndexesTcp ∧ l'.view.sessIndexesUdp = m'.view.sessIndexesUdp) ?_ ?_
          · exact ensures_modify ⟨rfl, Log.view_set .., rfl, rfl⟩
          · rintro _ l' ⟨map', data', tcp', udp'⟩
            have filled : l'.view.sessionData = update l.view.sessionData i (fill (l.view.sessionData i)) := by
              rw [data', data, numbered.sessionData]
            have same : numbers cfg n l'.view = insert i (numbers cfg n l.view) := by
              rw [← numbered.numbers, numbers, numbers, tcp', tcp, udp', udp]
            apply Txs.ensures_pure
            refine ⟨room.mp rfl, numbered.fresh, same, ?_, filled⟩
            constructor
            case lookup => exact map' ▸ outcome
            case tcp => exact (tcp'.trans tcp) ▸ numbered.tcp
            case udp => exact (udp'.trans udp) ▸ numbered.udp
            case coherent =>
              rw [same]
              apply (invariant.coherent.insert absent numbered.fresh).congr
              intro j member
              by_cases here : j = i
              · subst here
                rw [update_self, keyOf, filled, update_self, fills, accepted_proto accepted numbered.proto]
              · rw [update_of_ne here, keyOf, filled, update_of_ne here, keyOf]

/-- When the map has room for every number, the call does not take a number back. -/
theorem SessionAllocated.some {fill : D → D} {result : Option Nat}
    (outcome : SessionAllocated cfg map n endpoint find key fill s result s') (room : 2 * cfg.numAvailExtTuples ≤ map.capacity) :
    ∃ i, result = some i ∧ i ∉ numbers cfg n s ∧ Invariant cfg map n endpoint s' (Directory.added find key i) ∧
      s'.sessionData = update s.sessionData i (fill (s.sessionData i)) := by
  cases result with
  | none =>
    obtain ⟨_, _, full⟩ := outcome
    omega
  | some i =>
    obtain ⟨_, fresh, _, invariant, data⟩ := outcome
    exact ⟨i, rfl, fresh, invariant, data⟩

/-- What the map finds, in terms of the allocator of the protocol. -/
theorem Invariant.found_iff (invariant : Invariant cfg map n endpoint s find) (accepted : nfHasTcpudpHeader key.proto = true)
    {v : Int} : find key = some v ↔ ∃ i, v = (number cfg key.proto i : Nat) ∧
      i ∈ allocated n cfg.numAvailExtTuples (if key.proto = 6 then s.sessIndexesTcp else s.sessIndexesUdp) ∧
      endpoint (s.sessionData (number cfg key.proto i)) = (key.srcAddr, key.srcPort) := by
  rw [invariant.coherent key v]
  constructor
  · rintro ⟨j, member, rfl, rfl⟩
    rcases member with first | ⟨i, second, rfl⟩
    · have tcp : j < cfg.numAvailExtTuples := first.1
      refine ⟨j, ?_, ?_, ?_⟩ <;> simp [keyOf, number, tcp, first]
    · have other : ¬ i + cfg.numAvailExtTuples < cfg.numAvailExtTuples := by omega
      refine ⟨i, ?_, ?_, ?_⟩ <;> simp [keyOf, number, second]
  · rintro ⟨i, rfl, member, same⟩
    have within : i < cfg.numAvailExtTuples := by
      split at member <;> exact member.1
    have proto : number cfg key.proto i < cfg.numAvailExtTuples ↔ key.proto = 6 := by
      unfold number
      split
      · exact iff_of_true within ‹_›
      · exact iff_of_false (by omega) ‹_›
    refine ⟨number cfg key.proto i, ?_, rfl, ?_⟩
    · unfold number
      split
      · rename_i tcp
        rw [if_pos tcp] at member
        exact Or.inl member
      · rename_i other
        rw [if_neg other] at member
        exact Or.inr ⟨i, member, rfl⟩
    · rw [keyOf, same, accepted_proto accepted proto]

end Invariant

section Init
variable {D : Type} {cfg : NfConfig} {map : NfosMap Session} {n : Nat} {endpoint : D → Nat × Nat} {s memory : Store D Objects}
variable {crc32si : Nat → Nat → Nat} {maxNumSessions : Nat}

/-- The part of `nf_init` about sessions. It does not end when there are more cores than
external tuples. -/
def nfInit (cfg : NfConfig) (crc32si : Nat → Nat → Nat) (maxNumSessions numCores : Nat) (initData : D) (memory : Store D Objects) :
    Option (NfosMap Session × Store D Objects) := do
  let (map, sessionMap) := nfosMapAllocate sessionEqual (sessionHash crc32si) (2 * maxNumSessions) memory.sessionMap
  let sessIndexesTcp ← nfosDchainImplInit memory.sessIndexesTcp cfg.numAvailExtTuples numCores
  let sessIndexesUdp ← nfosDchainImplInit memory.sessIndexesUdp cfg.numAvailExtTuples numCores
  return (map, ⟨sessionMap, fun _ => initData, sessIndexesTcp, sessIndexesUdp⟩)

theorem nfInit_ends (cfg : NfConfig) (crc32si : Nat → Nat → Nat) (maxNumSessions : Nat) (initData : D) (memory : Store D Objects)
    (cores : 0 < n) (enough : n ≤ cfg.numAvailExtTuples) :
    ∃ s, nfInit cfg crc32si maxNumSessions n initData memory =
      some ((nfosMapAllocate sessionEqual (sessionHash crc32si) (2 * maxNumSessions) memory.sessionMap).1, s) := by
  obtain ⟨tcp, tcpInit, _⟩ := init_valid cores enough memory.sessIndexesTcp
  obtain ⟨udp, udpInit, _⟩ := init_valid cores enough memory.sessIndexesUdp
  exact ⟨_, by simp only [nfInit, tcpInit, udpInit, Option.bind_eq_bind, Option.bind_some]; rfl⟩

theorem sessionEqual_iff (a b : Session) : sessionEqual a b = true ↔ a = b := by
  cases a
  cases b
  simp [sessionEqual, and_assoc]

theorem init_allocated {size : Nat} {cells after : Cells Unit} (nonempty : 0 < size) (ended : nfosDchainImplInit cells size n = some after) :
    Valid n size after (initialLists n size) ∧ allocated n size after = ∅ := by
  have positive : size / n ≠ 0 := by
    intro stuck
    rw [nfosDchainImplInit, initLists_diverges _ _ stuck nonempty] at ended
    contradiction
  obtain ⟨cores, room⟩ := Nat.div_ne_zero_iff.mp positive
  obtain ⟨found, same, valid⟩ := init_valid (Nat.pos_of_ne_zero cores) room cells
  obtain rfl := Option.some.inj (ended.symm.trans same)
  exact ⟨valid, allocated_initial valid⟩

theorem nfInit_empty {initData : D} (ended : nfInit cfg crc32si maxNumSessions n initData memory = some (map, s))
    (positive : 0 < maxNumSessions) (small : 2 * maxNumSessions ≤ 2 ^ 31) :
    map.Exact ∧ Invariant cfg map n endpoint s (fun _ => none) ∧ numbers cfg n s = ∅ := by
  simp only [nfInit, Option.bind_eq_bind, Option.bind_eq_some_iff, Option.pure_def, Option.some.injEq, Prod.mk.injEq] at ended
  obtain ⟨tcp, tcpInit, udp, udpInit, rfl, rfl⟩ := ended
  obtain ⟨tcpValid, tcpNone⟩ := init_allocated cfg.numAvailExtTuples_pos tcpInit
  obtain ⟨udpValid, udpNone⟩ := init_allocated cfg.numAvailExtTuples_pos udpInit
  have nothing : numbers cfg n ⟨(nfosMapAllocate sessionEqual (sessionHash crc32si) (2 * maxNumSessions) memory.sessionMap).2,
      fun _ => initData, tcp, udp⟩ = ∅ := by
    simp [numbers, tcpNone, udpNone]
  refine ⟨allocate_exact _ sessionEqual_iff (by omega) small, ?_, nothing⟩
  constructor
  case lookup => exact allocate_lookup ..
  case tcp => exact ⟨_, tcpValid⟩
  case udp => exact ⟨_, udpValid⟩
  case coherent =>
    rw [nothing]
    exact Directory.empty _

/-- Without sessions the map has no entries. -/
theorem nfInit_positive {initData : D} (ended : nfInit cfg crc32si maxNumSessions n initData memory = some (map, s))
    (room : 2 * cfg.numAvailExtTuples ≤ map.capacity) : 0 < maxNumSessions := by
  rcases Nat.eq_zero_or_pos maxNumSessions with rfl | positive
  · simp only [nfInit, Option.bind_eq_bind, Option.bind_eq_some_iff, Option.pure_def, Option.some.injEq, Prod.mk.injEq] at ended
    obtain ⟨tcp, _, udp, _, rfl, rfl⟩ := ended
    have none : nextPow2 (2 * 0) = 0 := by decide
    have some := cfg.numAvailExtTuples_pos
    change 2 * cfg.numAvailExtTuples ≤ nextPow2 (2 * 0) at room
    omega
  · exact positive

theorem nfInit_invariant {initData : D} (ended : nfInit cfg crc32si maxNumSessions n initData memory = some (map, s))
    (small : 2 * maxNumSessions ≤ 2 ^ 31) (room : 2 * cfg.numAvailExtTuples ≤ map.capacity) :
    map.Exact ∧ Invariant cfg map n endpoint s fun _ => none := by
  obtain ⟨exact, invariant, _⟩ := nfInit_empty ended (nfInit_positive ended room) small
  exact ⟨exact, invariant⟩

end Init

section Mapped
variable {D : Type} {cfg : NfConfig} {map : NfosMap Session} {n : Nat} {endpoint : D → Nat × Nat} {s : Store D Objects}
variable {find find' : Session → Option Int}

/-- A handled packet: the key of its internal endpoint, and the external address and port
that replaced it, `none` if the packet was dropped before. -/
abbrev Rewrite : Type := Session × Option (Nat × Nat)

/-- Every rewritten packet is one of a session that the map still finds. -/
def Mapped (cfg : NfConfig) (find : Session → Option Int) (history : List Rewrite) : Prop :=
  ∀ e ∈ history, ∀ ext, e.2 = some ext → nfHasTcpudpHeader e.1.proto = true ∧
    ∃ v, find e.1 = some v ∧ ext = sessIdToExtTuple cfg v e.1.proto

/-- The map finds what it found before. -/
def Grows (find find' : Session → Option Int) : Prop := ∀ k v, find k = some v → find' k = some v

theorem grows_added {key : Session} {v : Int} (absent : find key = none) : Grows find (Directory.added find key v) := by
  intro k w known
  have apart : k ≠ key := by
    rintro rfl
    rw [absent] at known
    contradiction
  exact (if_neg apart).trans known

theorem Mapped.extend {history : List Rewrite} {e : Rewrite} (mapped : Mapped cfg find history) (grows : Grows find find')
    (accepted : nfHasTcpudpHeader e.1.proto = true)
    (found : ∀ ext, e.2 = some ext → ∃ v, find' e.1 = some v ∧ ext = sessIdToExtTuple cfg v e.1.proto) :
    Mapped cfg find' (history ++ [e]) := by
  intro e' member ext rewritten
  rcases List.mem_append.mp member with old | new
  · obtain ⟨accepted, v, found, same⟩ := mapped e' old ext rewritten
    exact ⟨accepted, v, grows _ _ found, same⟩
  · obtain rfl := List.mem_singleton.mp new
    exact ⟨accepted, found ext rewritten⟩

/-- What holds of the sessions and of the packets of a run. A rewritten packet carries the external address and
port that encode the number of its session. -/
structure Correct (cfg : NfConfig) (map : NfosMap Session) (n : Nat) (endpoint : D → Nat × Nat) (history : List Rewrite)
    (s : Store D Objects) : Prop where
  found : ∀ key, nfHasTcpudpHeader key.proto = true → ∀ v, found map s.sessionMap key = some v ↔
    ∃ i, v = (number cfg key.proto i : Nat) ∧
      i ∈ allocated n cfg.numAvailExtTuples (if key.proto = 6 then s.sessIndexesTcp else s.sessIndexesUdp) ∧
      endpoint (s.sessionData (number cfg key.proto i)) = (key.srcAddr, key.srcPort)
  rewritten : ∀ e ∈ history, ∀ ext, e.2 = some ext → ∃ i,
    i ∈ allocated n cfg.numAvailExtTuples (if e.1.proto = 6 then s.sessIndexesTcp else s.sessIndexesUdp) ∧
    endpoint (s.sessionData (number cfg e.1.proto i)) = (e.1.srcAddr, e.1.srcPort) ∧
    Map.found map s.sessionMap e.1 = some (number cfg e.1.proto i : Nat) ∧
    ext = sessIdToExtTuple cfg (number cfg e.1.proto i) e.1.proto
  external : ∀ e ∈ history, ∀ ext, e.2 = some ext → ∃ addr port, ext = (bswap32 (addr % 2 ^ 32), bswap16 port) ∧
    cfg.externalAddr ≤ addr ∧ addr < cfg.externalAddr + cfg.numExternalAddrs ∧
    cfg.externalPortLow ≤ port ∧ port ≤ cfg.externalPortHigh
  injective : ∀ e ∈ history, ∀ e' ∈ history, ∀ ext, e.2 = some ext → e'.2 = some ext →
    (e.1.proto = 6 ↔ e'.1.proto = 6) → e.1 = e'.1
  stable : ∀ e ∈ history, ∀ e' ∈ history, e.1 = e'.1 → ∀ ext ext', e.2 = some ext → e'.2 = some ext' → ext = ext'

theorem Mapped.correct {history : List Rewrite} (mapped : Mapped cfg find history) (exact : map.Exact)
    (invariant : Invariant cfg map n endpoint s find) (small : cfg.numAvailExtTuples ≤ 2 ^ 32) :
    Correct cfg map n endpoint history s := by
  constructor
  case found =>
    intro key accepted v
    rw [invariant.lookup.found_eq exact]
    exact invariant.found_iff accepted
  case rewritten =>
    intro e handled ext rewritten
    obtain ⟨accepted, v, found, tuple⟩ := mapped e handled ext rewritten
    obtain ⟨i, rfl, member, source⟩ := (invariant.found_iff accepted).mp found
    exact ⟨i, member, source, (invariant.lookup.found_eq exact e.1).trans found, tuple⟩
  case external =>
    intro e handled ext rewritten
    obtain ⟨accepted, v, found, tuple⟩ := mapped e handled ext rewritten
    obtain ⟨i, rfl, member, _⟩ := (invariant.found_iff accepted).mp found
    have within : i < cfg.numAvailExtTuples := by
      split at member <;> exact member.1
    rw [sessIdToExtTuple_number] at tuple
    exact ⟨_, _, tuple, Nat.le_add_left .., addr_lt within, Nat.le_add_left .., port_le cfg i⟩
  case injective =>
    intro e first e' second ext rewritten rewritten' proto
    obtain ⟨accepted, v, found, tuple⟩ := mapped e first ext rewritten
    obtain ⟨accepted', v', found', tuple'⟩ := mapped e' second ext rewritten'
    obtain ⟨i, rfl, member, _⟩ := (invariant.found_iff accepted).mp found
    obtain ⟨j, rfl, member', _⟩ := (invariant.found_iff accepted').mp found'
    have within : i < cfg.numAvailExtTuples := by
      split at member <;> exact member.1
    have within' : j < cfg.numAvailExtTuples := by
      split at member' <;> exact member'.1
    obtain rfl := sessIdToExtTuple_injective within within' small (tuple.symm.trans tuple')
    have numbers : number cfg e.1.proto i = number cfg e'.1.proto i := by
      unfold number
      rw [if_congr proto rfl rfl]
    rw [numbers] at found
    obtain ⟨a, _, value, key⟩ := invariant.coherent.of_found found
    obtain ⟨b, _, value', key'⟩ := invariant.coherent.of_found found'
    obtain rfl : a = b := by omega
    exact key.symm.trans key'
  case stable =>
    intro e first e' second same ext ext' rewritten rewritten'
    obtain ⟨_, v, found, tuple⟩ := mapped e first ext rewritten
    obtain ⟨_, v', found', tuple'⟩ := mapped e' second ext' rewritten'
    rw [same, found'] at found
    rw [tuple, tuple', same, Option.some.inj found]

end Mapped
end Nfos.Sessions
