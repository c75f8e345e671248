import Mathlib.Data.Nat.Notation

/-! The headers of a packet and the functions for them that the network functions share. -/
namespace Nfos.NfUtil

/-- What the network functions read and write of the Ethernet, IPv4 and TCP or UDP headers,
and the bytes of the packet for the rest. -/
structure Pkt where
  srcMac : Nat
  dstMac : Nat
  timeToLive : Nat
  nextProtoId : Nat
  hdrChecksum : Nat
  srcAddr : Nat
  dstAddr : Nat
  srcPort : Nat
  dstPort : Nat
  cksum : Nat
  raw : List Nat
  deriving DecidableEq

/-- `nf_then_get_tcpudp_header` accepts no other packets. -/
def nfHasTcpudpHeader (proto : Nat) : Bool := proto == 6 || proto == 17

/-- The checksums of the headers. -/
structure Checksums where
  rteIpv4UdptcpCksum : Pkt → Nat
  rteIpv4Cksum : Pkt → Nat

def nfSetIpv4UdptcpChecksum (sums : Checksums) (pkt : Pkt) : Pkt :=
  let pkt := { pkt with hdrChecksum := 0 }
  let pkt :=
    if nfHasTcpudpHeader pkt.nextProtoId then
      let pkt := { pkt with cksum := 0 }
      { pkt with cksum := sums.rteIpv4UdptcpCksum pkt }
    else pkt
  { pkt with hdrChecksum := sums.rteIpv4Cksum pkt }

section Fields
variable {sums : Checksums} {pkt : Pkt}

@[simp] theorem srcAddr_checksum : (nfSetIpv4UdptcpChecksum sums pkt).srcAddr = pkt.srcAddr := by
  unfold nfSetIpv4UdptcpChecksum
  dsimp only
  split <;> rfl

@[simp] theorem dstAddr_checksum : (nfSetIpv4UdptcpChecksum sums pkt).dstAddr = pkt.dstAddr := by
  unfold nfSetIpv4UdptcpChecksum
  dsimp only
  split <;> rfl

@[simp] theorem srcPort_checksum : (nfSetIpv4UdptcpChecksum sums pkt).srcPort = pkt.srcPort := by
  unfold nfSetIpv4UdptcpChecksum
  dsimp only
  split <;> rfl

@[simp] theorem dstMac_checksum : (nfSetIpv4UdptcpChecksum sums pkt).dstMac = pkt.dstMac := by
  unfold nfSetIpv4UdptcpChecksum
  dsimp only
  split <;> rfl

@[simp] theorem nextProtoId_checksum : (nfSetIpv4UdptcpChecksum sums pkt).nextProtoId = pkt.nextProtoId := by
  unfold nfSetIpv4UdptcpChecksum
  dsimp only
  split <;> rfl

end Fields
end Nfos.NfUtil
