import Nfos.Sessions

/-! The number of a session and its external address and port encode each other. -/
namespace Nfos.Sessions
open Casts
variable {cfg : NfConfig} {proto : Nat}

/-- `ext_tuple_to_sess_id`: the address is unsigned, so that the sum is one of 32 bits. -/
def extTupleToSessId (cfg : NfConfig) (extIp extPort proto : Nat) : Int :=
  let portSpaceSize : Int := cfg.externalPortHigh - cfg.externalPortLow + 1
  let extPort := bswap16 extPort
  let extIp := bswap32 extIp
  let sessId := int (u32 (extPort - cfg.externalPortLow + portSpaceSize * (extIp - cfg.externalAddr)))
  if proto ≠ 6 then sessId + cfg.numAvailExtTuples else sessId

/-- The numbers of the sessions of a protocol. -/
def IsSessId (cfg : NfConfig) (proto : Nat) (sessId : Int) : Prop :=
  if proto = 6 then 0 ≤ sessId ∧ sessId < cfg.numAvailExtTuples
  else cfg.numAvailExtTuples ≤ sessId ∧ sessId < 2 * cfg.numAvailExtTuples

/-- An address and a port of the NAT, in network byte order. -/
def IsExtTuple (cfg : NfConfig) (extIp extPort : Nat) : Prop :=
  (cfg.externalPortLow ≤ bswap16 extPort ∧ bswap16 extPort ≤ cfg.externalPortHigh) ∧
    cfg.externalAddr ≤ bswap32 extIp ∧ bswap32 extIp < cfg.externalAddr + cfg.numExternalAddrs

theorem isSessId_iff {sessId : Int} : IsSessId cfg proto sessId ↔ ∃ i < cfg.numAvailExtTuples, sessId = number cfg proto i := by
  unfold IsSessId number
  by_cases tcp : proto = 6
  · simp only [if_pos tcp]
    constructor
    · rintro ⟨least, below⟩
      exact ⟨sessId.toNat, by omega, by omega⟩
    · rintro ⟨i, below, rfl⟩
      omega
  · simp only [if_neg tcp]
    constructor
    · rintro ⟨least, below⟩
      exact ⟨(sessId - cfg.numAvailExtTuples).toNat, by omega, by omega⟩
    · rintro ⟨i, below, rfl⟩
      omega

/-- The quotient of a number is one of the addresses. -/
theorem quotient_lt {i : Nat} (below : i < cfg.numAvailExtTuples) : i / cfg.portSpaceSize < cfg.numExternalAddrs := by
  rw [Nat.div_lt_iff_lt_mul cfg.portSpaceSize_pos, Nat.mul_comm]
  exact below

/-- The place of an address and a port among those of the NAT. -/
theorem extTupleToSessId_eq {port addr : Nat} (inside : port < cfg.portSpaceSize) (known : addr < cfg.numExternalAddrs)
    (small : cfg.numAvailExtTuples < 2 ^ 31) {extIp extPort : Nat} (atPort : bswap16 extPort = port + cfg.externalPortLow)
    (atAddr : bswap32 extIp = addr + cfg.externalAddr) :
    port + cfg.portSpaceSize * addr < cfg.numAvailExtTuples ∧
      extTupleToSessId cfg extIp extPort proto = number cfg proto (port + cfg.portSpaceSize * addr) := by
  have order := cfg.ports.1
  have size : (cfg.externalPortHigh : Int) - cfg.externalPortLow + 1 = (cfg.portSpaceSize : Nat) := by
    unfold NfConfig.portSpaceSize
    omega
  have below : port + cfg.portSpaceSize * addr < cfg.numAvailExtTuples := by
    calc port + cfg.portSpaceSize * addr
      _ < cfg.portSpaceSize + cfg.portSpaceSize * addr := Nat.add_lt_add_right inside _
      _ = cfg.portSpaceSize * (addr + 1) := by rw [Nat.mul_succ, Nat.add_comm]
      _ ≤ cfg.portSpaceSize * cfg.numExternalAddrs := Nat.mul_le_mul_left _ known
  have whole : (bswap16 extPort : Int) - cfg.externalPortLow + cfg.portSpaceSize * ((bswap32 extIp : Int) - cfg.externalAddr) =
      (port + cfg.portSpaceSize * addr : Nat) := by
    rw [atPort, atAddr]
    push_cast
    ring
  refine ⟨below, ?_⟩
  rw [extTupleToSessId]
  simp only [size, whole]
  rw [u32_of_lt (by omega), int_of_lt (by omega), number]
  split <;> simp_all

theorem sessId_roundTrip (small : 2 * cfg.numAvailExtTuples < 2 ^ 31) (block : cfg.externalAddr + cfg.numExternalAddrs ≤ 2 ^ 32)
    {sessId : Int} (valid : IsSessId cfg proto sessId) :
    extTupleToSessId cfg (sessIdToExtTuple cfg sessId proto).1 (sessIdToExtTuple cfg sessId proto).2 proto = sessId ∧
      IsExtTuple cfg (sessIdToExtTuple cfg sessId proto).1 (sessIdToExtTuple cfg sessId proto).2 := by
  obtain ⟨i, below, rfl⟩ := isSessId_iff.mp valid
  have inside := Nat.mod_lt i cfg.portSpaceSize_pos
  have known := quotient_lt below
  have fits : i / cfg.portSpaceSize + cfg.externalAddr < 2 ^ 32 := by omega
  have port : bswap16 (sessIdToExtTuple cfg (number cfg proto i) proto).2 = i % cfg.portSpaceSize + cfg.externalPortLow := by
    rw [sessIdToExtTuple_number, bswap16_bswap16 (port_lt cfg i)]
  have addr : bswap32 (sessIdToExtTuple cfg (number cfg proto i) proto).1 = i / cfg.portSpaceSize + cfg.externalAddr := by
    rw [sessIdToExtTuple_number, Nat.mod_eq_of_lt fits, bswap32_bswap32 fits]
  constructor
  · rw [(extTupleToSessId_eq inside known (by omega) port addr).2, Nat.mod_add_div]
  · have order := cfg.ports.1
    unfold IsExtTuple
    have size : cfg.portSpaceSize = cfg.externalPortHigh - cfg.externalPortLow + 1 := rfl
    rw [port, addr]
    clear port addr
    generalize i / cfg.portSpaceSize = quotient at *
    generalize i % cfg.portSpaceSize = remainder at *
    omega

theorem extTuple_roundTrip (small : 2 * cfg.numAvailExtTuples < 2 ^ 31) {extIp extPort : Nat} (ip : extIp < 2 ^ 32)
    (port : extPort < 2 ^ 16) (valid : IsExtTuple cfg extIp extPort) :
    IsSessId cfg proto (extTupleToSessId cfg extIp extPort proto) ∧
      sessIdToExtTuple cfg (extTupleToSessId cfg extIp extPort proto) proto = (extIp, extPort) := by
  obtain ⟨⟨low, high⟩, first, last⟩ := valid
  have inside : bswap16 extPort - cfg.externalPortLow < cfg.portSpaceSize := by
    unfold NfConfig.portSpaceSize
    omega
  have known : bswap32 extIp - cfg.externalAddr < cfg.numExternalAddrs := by omega
  obtain ⟨below, same⟩ := @extTupleToSessId_eq cfg proto _ _ inside known (by omega) extIp extPort (by omega) (by omega)
  rw [same]
  refine ⟨isSessId_iff.mpr ⟨_, below, rfl⟩, ?_⟩
  rw [sessIdToExtTuple_number, Nat.add_mul_mod_self_left, Nat.mod_eq_of_lt inside,
    Nat.add_mul_div_left _ _ cfg.portSpaceSize_pos, Nat.div_eq_of_lt inside, Nat.zero_add, Nat.sub_add_cancel first,
    Nat.sub_add_cancel low, Nat.mod_eq_of_lt (bswap32_lt extIp), bswap32_bswap32 ip, bswap16_bswap16 port]

/-- The two functions are inverse to each other between the numbers of a protocol and the
addresses and ports of the NAT. -/
theorem extTuples_sessIds_inverse (small : 2 * cfg.numAvailExtTuples < 2 ^ 31)
    (block : cfg.externalAddr + cfg.numExternalAddrs ≤ 2 ^ 32) (proto : Nat) :
    (∀ sessId, IsSessId cfg proto sessId →
      extTupleToSessId cfg (sessIdToExtTuple cfg sessId proto).1 (sessIdToExtTuple cfg sessId proto).2 proto = sessId ∧
      IsExtTuple cfg (sessIdToExtTuple cfg sessId proto).1 (sessIdToExtTuple cfg sessId proto).2) ∧
    ∀ extIp extPort, extIp < 2 ^ 32 → extPort < 2 ^ 16 → IsExtTuple cfg extIp extPort →
      IsSessId cfg proto (extTupleToSessId cfg extIp extPort proto) ∧
      sessIdToExtTuple cfg (extTupleToSessId cfg extIp extPort proto) proto = (extIp, extPort) := by
  constructor
  · intro sessId valid
    exact sessId_roundTrip small block valid
  · intro extIp extPort ip port valid
    exact extTuple_roundTrip small ip port valid

/-- All ports from 1024 on of two addresses at the end of the address space. -/
theorem extTuples_sessIds_last_addresses :
    let cfg : NfConfig := ⟨1, 2 ^ 32 - 2, 2, 1024, 65535, by decide, by decide⟩
    (2 * cfg.numAvailExtTuples < 2 ^ 31 ∧ cfg.externalAddr + cfg.numExternalAddrs ≤ 2 ^ 32) ∧
    (∀ sessId, IsSessId cfg 17 sessId →
      extTupleToSessId cfg (sessIdToExtTuple cfg sessId 17).1 (sessIdToExtTuple cfg sessId 17).2 17 = sessId ∧
      IsExtTuple cfg (sessIdToExtTuple cfg sessId 17).1 (sessIdToExtTuple cfg sessId 17).2) ∧
    ∀ extIp extPort, extIp < 2 ^ 32 → extPort < 2 ^ 16 → IsExtTuple cfg extIp extPort →
      IsSessId cfg 17 (extTupleToSessId cfg extIp extPort 17) ∧
      sessIdToExtTuple cfg (extTupleToSessId cfg extIp extPort 17) 17 = (extIp, extPort) :=
  ⟨⟨by decide, by decide⟩, extTuples_sessIds_inverse (by decide) (by decide) 17⟩

end Nfos.Sessions
