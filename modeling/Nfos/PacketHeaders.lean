import Nfos.Lib.Bytes
import Nfos.Lib.Casts
import Nfos.NfUtil

/-! The parsing of a packet. The headers are borrowed as chunks of its buffer, one behind the other,
and their fields are written in place. -/
namespace Nfos.PacketHeaders
open Bytes Casts NfUtil

/-- A buffer and the length of the packet in it. The memory goes on behind the packet. -/
structure Frame where
  bytes : Nat → UInt8
  dataLen : Nat

/-- The state of `packet-io` on a core, and the borrowed chunks with the last one first. Chunks are
offsets in the buffer. -/
structure PacketIo where
  globalTotalLength : Nat
  globalReadLength : Nat
  chunksBorrowed : List Nat
  deriving DecidableEq

def PacketIo.start : PacketIo := ⟨0, 0, []⟩

section Chunks

def packetStateTotalLength (len : Nat) (io : PacketIo) : PacketIo := { io with globalTotalLength := len }

def packetBorrowNextChunk (length : Nat) (io : PacketIo) : Nat × PacketIo :=
  (io.globalReadLength, { io with globalReadLength := io.globalReadLength + length })

def packetReturnChunk (chunk : Nat) (io : PacketIo) : PacketIo := { io with globalReadLength := u32 chunk }

def packetGetUnreadLength (io : PacketIo) : Nat := u32 (io.globalTotalLength - io.globalReadLength)

def maxNChunks : Nat := 100

/-- `none` is the failed assertion. -/
def nfBorrowNextChunk (length : Nat) (io : PacketIo) : Option (Nat × PacketIo) :=
  if io.chunksBorrowed.length < maxNChunks then
    let (chunk, io) := packetBorrowNextChunk length io
    some (chunk, { io with chunksBorrowed := chunk :: io.chunksBorrowed })
  else none

def returnChunks : List Nat → PacketIo → PacketIo
  | [], io => { io with chunksBorrowed := [] }
  | chunk :: rest, io => returnChunks rest (packetReturnChunk chunk io)

def nfReturnAllChunks (io : PacketIo) : PacketIo := returnChunks io.chunksBorrowed io

end Chunks

section Headers
variable (frame : Frame)

def etherHdrSize : Nat := 14

def ipv4HdrSize : Nat := 20

def tcpudpHdrSize : Nat := 4

def ipMinSizeWords : Nat := 5

def wordSize : Nat := 4

def nfThenGetEtherHeader (io : PacketIo) : Option (Nat × PacketIo) := nfBorrowNextChunk etherHdrSize io

def nfHasIpv4Header (etherHeader : Nat) : Bool := load frame.bytes (etherHeader + 12) 2 == bswap16 0x0800

/-- The lower half of `version_ihl`. -/
def ihl (ipv4Header : Nat) : Nat := load frame.bytes ipv4Header 1 % 16

def totalLength (ipv4Header : Nat) : Nat := bswap16 (load frame.bytes (ipv4Header + 2) 2)

def nextProto (ipv4Header : Nat) : Nat := load frame.bytes (ipv4Header + 9) 1

/-- The header and the options, `none` inside if there are none. Options that do not fit are not borrowed. -/
def nfThenGetIpv4Header (etherHeader : Nat) (io : PacketIo) : Option (Option (Nat × Option Nat) × PacketIo) :=
  let unreadLen := u16 (packetGetUnreadLength io)
  if !nfHasIpv4Header frame etherHeader || unreadLen < ipv4HdrSize then
    some (none, io)
  else do
    let (hdr, io) ← nfBorrowNextChunk ipv4HdrSize io
    if ihl frame hdr < ipMinSizeWords || unreadLen < totalLength frame hdr then
      return (none, io)
    else
      let ipOptionsLength := (ihl frame hdr - ipMinSizeWords) * wordSize
      if ipOptionsLength ≠ 0 && unreadLen - ipv4HdrSize ≥ ipOptionsLength then do
        let (ipOptions, io) ← nfBorrowNextChunk ipOptionsLength io
        return (some (hdr, some ipOptions), io)
      else
        return (some (hdr, none), io)

def nfThenGetTcpudpHeader (ipv4Header : Nat) (io : PacketIo) : Option (Option Nat × PacketIo) :=
  if !nfHasTcpudpHeader (nextProto frame ipv4Header) || packetGetUnreadLength io < tcpudpHdrSize then
    some (none, io)
  else do
    let (hdr, io) ← nfBorrowNextChunk tcpudpHdrSize io
    return (some hdr, io)

structure Headers where
  etherHeader : Nat
  ipv4Header : Nat
  tcpudpHeader : Nat
  deriving DecidableEq

/-- `nf_pkt_parser` of the network functions for TCP and UDP. -/
def nfPktParser (io : PacketIo) : Option (Option Headers × PacketIo) := do
  let (etherHeader, io) ← nfThenGetEtherHeader io
  match ← nfThenGetIpv4Header frame etherHeader io with
  | (none, io) => return (none, io)
  | (some (ipv4Header, _), io) =>
    match ← nfThenGetTcpudpHeader frame ipv4Header io with
    | (none, io) => return (none, io)
    | (some tcpudpHeader, io) => return (some ⟨etherHeader, ipv4Header, tcpudpHeader⟩, io)

/-- What `process_pkt` does for a packet before its dispatch. -/
def parse (io : PacketIo) : Option (Option Headers × PacketIo) := do
  let (headers, io) ← nfPktParser frame (packetStateTotalLength frame.dataLen io)
  return (headers, nfReturnAllChunks io)

end Headers

/-- The packets of a core, one after the other. -/
def parseAll : List Frame → PacketIo → Option (List (Option Headers) × PacketIo)
  | [], io => some ([], io)
  | frame :: frames, io => do
    let (headers, io) ← parse frame io
    let (rest, io) ← parseAll frames io
    return (headers :: rest, io)

section Format
variable {f : Frame}

/-- The length behind the Ethernet header as the checks see it. A packet that is shorter than this header
passes for a long one. -/
def Frame.unread (f : Frame) : Nat := if f.dataLen < 14 then f.dataLen + 65536 - 14 else f.dataLen - 14

/-- The options that are skipped: all or, if they do not fit, none. -/
def Frame.options (f : Frame) : Nat :=
  if 20 + (ihl f 14 - 5) * 4 ≤ f.unread then (ihl f 14 - 5) * 4 else 0

/-- What is required of a packet. -/
structure WellFormed (f : Frame) : Prop where
  ipv4 : load f.bytes 12 2 = 0x0008
  header : 20 ≤ f.unread
  ihl : 5 ≤ ihl f 14
  total : totalLength f 14 ≤ f.unread
  transport : nfHasTcpudpHeader (nextProto f 14) = true
  complete : 20 + f.options + 4 ≤ f.unread

theorem wellFormed_iff : WellFormed f ↔ load f.bytes 12 2 = 0x0008 ∧ 20 ≤ f.unread ∧ 5 ≤ ihl f 14 ∧ totalLength f 14 ≤ f.unread ∧
    nfHasTcpudpHeader (nextProto f 14) = true ∧ 20 + f.options + 4 ≤ f.unread :=
  ⟨fun ⟨a, b, c, d, e, f⟩ => ⟨a, b, c, d, e, f⟩, fun ⟨a, b, c, d, e, f⟩ => ⟨a, b, c, d, e, f⟩⟩

instance : Decidable (WellFormed f) := decidable_of_iff _ wellFormed_iff.symm

def Frame.headers (f : Frame) : Headers := ⟨0, 14, 34 + f.options⟩

end Format

section Parsing
variable {f : Frame} {io : PacketIo}

/-- The state between two packets. -/
structure Idle (io : PacketIo) : Prop where
  read : io.globalReadLength = 0
  chunks : io.chunksBorrowed = []

theorem nfBorrowNextChunk_eq {length total read : Nat} {chunks : List Nat} (room : chunks.length < maxNChunks) :
    nfBorrowNextChunk length ⟨total, read, chunks⟩ = some (read, ⟨total, read + length, read :: chunks⟩) := if_pos room

theorem returnChunks_eq (chunks : List Nat) : returnChunks (chunks ++ [0]) io = ⟨io.globalTotalLength, 0, []⟩ := by
  induction chunks generalizing io with
  | nil => rfl
  | cons chunk rest ih => exact ih

/-- The first chunk is the one at the start of the packet. -/
theorem nfReturnAllChunks_eq {total read : Nat} (chunks : List Nat) :
    nfReturnAllChunks ⟨total, read, chunks ++ [0]⟩ = ⟨total, 0, []⟩ := returnChunks_eq chunks

theorem unread_eq (size : f.dataLen < 2 ^ 16) (chunks : List Nat) :
    u16 (packetGetUnreadLength ⟨f.dataLen, 14, chunks⟩) = f.unread := by
  simp only [packetGetUnreadLength, u16, u32, Frame.unread]
  split <;> omega

theorem unread_behind {n : Nat} (size : f.dataLen < 2 ^ 16) (fits : n ≤ f.unread) (small : n ≤ 60) (chunks : List Nat) :
    packetGetUnreadLength ⟨f.dataLen, 14 + n, chunks⟩ < 4 ↔ f.unread < n + 4 := by
  simp only [packetGetUnreadLength, u32, Frame.unread] at *
  split at fits <;> rename_i short <;> simp only [short, if_true, if_false] <;> omega

theorem ihl_lt (f : Frame) (ipv4Header : Nat) : ihl f ipv4Header < 16 := Nat.mod_lt _ (by decide)

theorem options_le (f : Frame) : f.options ≤ 40 := by
  have := ihl_lt f 14
  unfold Frame.options
  split <;> omega

/-- The chunks behind the Ethernet header. -/
def Frame.chunks (f : Frame) : List Nat := if f.options = 0 then [14] else [34, 14]

theorem options_borrowed (header : 20 ≤ f.unread) :
    (if ((ihl f 14 - ipMinSizeWords) * wordSize ≠ 0 && f.unread - ipv4HdrSize ≥ (ihl f 14 - ipMinSizeWords) * wordSize) = true then do
        let (ipOptions, io) ← nfBorrowNextChunk ((ihl f 14 - ipMinSizeWords) * wordSize) ⟨f.dataLen, 34, [14, 0]⟩
        return (some (14, some ipOptions), io)
      else return (some (14, none), ⟨f.dataLen, 34, [14, 0]⟩)) =
      some (some (14, if f.options = 0 then none else some 34), (⟨f.dataLen, 34 + f.options, f.chunks ++ [0]⟩ : PacketIo)) := by
  have words : (ihl f 14 - ipMinSizeWords) * wordSize = (ihl f 14 - 5) * 4 := rfl
  have size : ipv4HdrSize = 20 := rfl
  rw [words, size]
  generalize lengths : (ihl f 14 - 5) * 4 = n
  have options : f.options = if 20 + n ≤ f.unread then n else 0 := by rw [Frame.options, lengths]
  by_cases none : n = 0
  · have nothing : f.options = 0 := by simp [options, none]
    rw [if_neg (by simp [none]), nothing, if_pos rfl, Frame.chunks, if_pos nothing]
    rfl
  · by_cases fit : 20 + n ≤ f.unread
    · rw [if_pos fit] at options
      rw [if_pos, options, if_neg none, Frame.chunks, if_neg (options ▸ none)]
      · rfl
      · simp only [Bool.and_eq_true, decide_eq_true_eq]
        exact ⟨none, by omega⟩
    · rw [if_neg fit] at options
      rw [if_neg, options, if_pos rfl, Frame.chunks, if_pos options]
      · rfl
      · simp only [Bool.and_eq_true, decide_eq_true_eq]
        omega

theorem nfThenGetIpv4Header_eq (size : f.dataLen < 2 ^ 16) :
    nfThenGetIpv4Header f 0 ⟨f.dataLen, 14, [0]⟩ =
      if load f.bytes 12 2 = 0x0008 ∧ 20 ≤ f.unread then
        if 5 ≤ ihl f 14 ∧ totalLength f 14 ≤ f.unread then
          some (some (14, if f.options = 0 then none else some 34), ⟨f.dataLen, 34 + f.options, f.chunks ++ [0]⟩)
        else some (none, ⟨f.dataLen, 34, [14, 0]⟩)
      else some (none, ⟨f.dataLen, 14, [0]⟩) := by
  have ipv4 : nfHasIpv4Header f 0 = decide (load f.bytes 12 2 = 0x0008) := rfl
  unfold nfThenGetIpv4Header
  rw [unread_eq size, ipv4]
  by_cases typed : load f.bytes 12 2 = 0x0008 ∧ 20 ≤ f.unread
  · obtain ⟨type, header⟩ := typed
    have long : ¬ f.unread < ipv4HdrSize := Nat.not_lt.mpr header
    have borrowed : nfBorrowNextChunk ipv4HdrSize ⟨f.dataLen, 14, [0]⟩ = some (14, ⟨f.dataLen, 34, [14, 0]⟩) :=
      nfBorrowNextChunk_eq (by decide)
    simp only [type, long, decide_true, Bool.not_true, decide_false, Bool.or_self, Bool.false_eq_true, if_false, borrowed,
      Option.bind_eq_bind, Option.bind_some, true_and, header, if_true]
    by_cases valid : 5 ≤ ihl f 14 ∧ totalLength f 14 ≤ f.unread
    · obtain ⟨words, total⟩ := valid
      have words' : ¬ ihl f 14 < ipMinSizeWords := Nat.not_lt.mpr words
      have total' : ¬ f.unread < totalLength f 14 := Nat.not_lt.mpr total
      simp only [words', total', decide_false, Bool.or_self, Bool.false_eq_true, if_false, words, total, and_self, if_true]
      exact options_borrowed header
    · rw [if_neg valid, if_pos]
      · rfl
      · have least : ipMinSizeWords = 5 := rfl
        simp only [Bool.or_eq_true, decide_eq_true_eq]
        omega
  · rw [if_neg typed, if_pos]
    have least : ipv4HdrSize = 20 := rfl
    simp only [Bool.or_eq_true, Bool.not_eq_true', decide_eq_false_iff_not, decide_eq_true_eq]
    omega

theorem nfThenGetTcpudpHeader_eq (size : f.dataLen < 2 ^ 16) (header : 20 + f.options ≤ f.unread) :
    nfThenGetTcpudpHeader f 14 ⟨f.dataLen, 34 + f.options, f.chunks ++ [0]⟩ =
      if nfHasTcpudpHeader (nextProto f 14) = true ∧ 20 + f.options + 4 ≤ f.unread then
        some (some (34 + f.options), ⟨f.dataLen, 38 + f.options, (34 + f.options) :: f.chunks ++ [0]⟩)
      else some (none, ⟨f.dataLen, 34 + f.options, f.chunks ++ [0]⟩) := by
  have few := options_le f
  have behind := unread_behind size header (by omega) (f.chunks ++ [0])
  rw [show 14 + (20 + f.options) = 34 + f.options by omega] at behind
  have least : tcpudpHdrSize = 4 := rfl
  unfold nfThenGetTcpudpHeader
  by_cases complete : nfHasTcpudpHeader (nextProto f 14) = true ∧ 20 + f.options + 4 ≤ f.unread
  · obtain ⟨transport, room⟩ := complete
    have long : ¬ packetGetUnreadLength ⟨f.dataLen, 34 + f.options, f.chunks ++ [0]⟩ < tcpudpHdrSize := by
      rw [least, behind]
      omega
    have borrowed : nfBorrowNextChunk tcpudpHdrSize ⟨f.dataLen, 34 + f.options, f.chunks ++ [0]⟩ =
        some (34 + f.options, ⟨f.dataLen, 38 + f.options, (34 + f.options) :: f.chunks ++ [0]⟩) := by
      rw [nfBorrowNextChunk_eq, least]
      · congr 3
        omega
      · unfold Frame.chunks
        split <;> decide
    simp only [transport, long, room, borrowed, Bool.not_true, decide_false, Bool.or_self, Bool.false_eq_true, if_false, and_self,
      if_true, Option.bind_eq_bind, Option.bind_some, Option.pure_def]
  · rw [if_neg complete, if_pos]
    simp only [Bool.or_eq_true, Bool.not_eq_true', decide_eq_true_eq, least, behind]
    rcases Bool.eq_false_or_eq_true (nfHasTcpudpHeader (nextProto f 14)) with transport | other
    · exact .inr (by simpa [transport] using complete)
    · exact .inl other

theorem parse_idle (idle : Idle io) (size : f.dataLen < 2 ^ 16) :
    parse f io = some (if WellFormed f then some f.headers else none, ⟨f.dataLen, 0, []⟩) := by
  obtain ⟨total, read, chunks⟩ := io
  obtain ⟨rfl, rfl⟩ : read = 0 ∧ chunks = [] := ⟨idle.read, idle.chunks⟩
  have ether : nfThenGetEtherHeader ⟨f.dataLen, 0, []⟩ = some (0, ⟨f.dataLen, 14, [0]⟩) := rfl
  have ipv4 := nfThenGetIpv4Header_eq size
  simp only [parse, packetStateTotalLength, nfPktParser, ether, ipv4, Option.bind_eq_bind, Option.bind_some, Option.pure_def]
  by_cases typed : load f.bytes 12 2 = 0x0008 ∧ 20 ≤ f.unread
  · by_cases valid : 5 ≤ ihl f 14 ∧ totalLength f 14 ≤ f.unread
    · have header : 20 + f.options ≤ f.unread := by
        unfold Frame.options
        split <;> omega
      simp only [typed, valid, and_self, if_true, Option.bind_some, nfThenGetTcpudpHeader_eq size header]
      by_cases complete : nfHasTcpudpHeader (nextProto f 14) = true ∧ 20 + f.options + 4 ≤ f.unread
      · have wellFormed : WellFormed f := ⟨typed.1, typed.2, valid.1, valid.2, complete.1, complete.2⟩
        rw [if_pos complete, if_pos wellFormed]
        exact congrArg (fun io => some (some f.headers, io)) (nfReturnAllChunks_eq ((34 + f.options) :: f.chunks))
      · have malformed : ¬ WellFormed f := fun w => complete ⟨w.transport, w.complete⟩
        rw [if_neg complete, if_neg malformed]
        exact congrArg (fun io => some (none, io)) (nfReturnAllChunks_eq f.chunks)
    · have malformed : ¬ WellFormed f := fun w => valid ⟨w.ihl, w.total⟩
      simp only [typed, valid, malformed, if_false]
      rfl
  · have malformed : ¬ WellFormed f := fun w => typed ⟨w.ipv4, w.header⟩
    simp only [typed, malformed, if_false, Option.bind_some]
    rfl

theorem parseAll_idle {frames : List Frame} (sizes : ∀ f ∈ frames, f.dataLen < 2 ^ 16) (idle : Idle io) :
    ∃ io', parseAll frames io = some (frames.map fun f => if WellFormed f then some f.headers else none, io') ∧ Idle io' := by
  induction frames generalizing io with
  | nil => exact ⟨io, rfl, idle⟩
  | cons f frames ih =>
    obtain ⟨io', rest, after⟩ := ih (fun g member => sizes g (List.mem_cons_of_mem _ member)) (show Idle ⟨f.dataLen, 0, []⟩ from ⟨rfl, rfl⟩)
    refine ⟨io', ?_, after⟩
    rw [parseAll, parse_idle idle (sizes f List.mem_cons_self)]
    simp only [Option.bind_eq_bind, Option.bind_some, rest, Option.pure_def, List.map_cons]

/-- The transport header of a packet that is at least as long as an Ethernet header lies in the packet. It is
behind the options unless they do not fit, then it is read where they begin. -/
theorem tcpudpHeader_of_wellFormed (wellFormed : WellFormed f) (whole : 14 ≤ f.dataLen) :
    f.headers.tcpudpHeader + 4 ≤ f.dataLen ∧
      f.headers.tcpudpHeader = if 14 + 4 * ihl f 14 ≤ f.dataLen then 14 + 4 * ihl f 14 else 34 := by
  have unread : f.unread = f.dataLen - 14 := if_neg (by omega)
  have complete := wellFormed.complete
  have words := wellFormed.ihl
  rw [unread] at complete
  refine ⟨?_, ?_⟩
  · change 34 + f.options + 4 ≤ f.dataLen
    omega
  · change 34 + f.options = _
    rw [Frame.options, unread]
    split <;> split <;> omega

/-- The parser on all packets of a core, whatever came before: no assertion fails, all chunks are returned,
exactly the well-formed packets are accepted, and their headers lie in them. -/
theorem parser_accepts {frames : List Frame} (sizes : ∀ f ∈ frames, f.dataLen < 2 ^ 16) :
    (∃ io, parseAll frames .start = some (frames.map fun f => if WellFormed f then some f.headers else none, io) ∧ Idle io) ∧
    ∀ f ∈ frames, WellFormed f → 14 ≤ f.dataLen → f.headers.tcpudpHeader + 4 ≤ f.dataLen ∧
      f.headers.tcpudpHeader = if 14 + 4 * ihl f 14 ≤ f.dataLen then 14 + 4 * ihl f 14 else 34 := by
  refine ⟨parseAll_idle sizes ⟨rfl, rfl⟩, ?_⟩
  intro f _ wellFormed whole
  exact tcpudpHeader_of_wellFormed wellFormed whole

end Parsing

section Fields
variable (h : Headers)

/-- The checksum of `rte_tcp_hdr` or of `rte_udp_hdr`. -/
def cksumOffset (proto : Nat) : Nat := if proto = 6 then 16 else 6

/-- The fields that the network functions write. -/
def fields (proto : Nat) : List Field :=
  [⟨h.etherHeader, 6⟩, ⟨h.etherHeader + 6, 6⟩, ⟨h.ipv4Header + 8, 1⟩, ⟨h.ipv4Header + 10, 2⟩, ⟨h.ipv4Header + 12, 4⟩,
    ⟨h.ipv4Header + 16, 4⟩, ⟨h.tcpudpHeader, 2⟩, ⟨h.tcpudpHeader + 2, 2⟩, ⟨h.tcpudpHeader + cksumOffset proto, 2⟩]

def values (pkt : Pkt) : List Nat :=
  [pkt.dstMac, pkt.srcMac, pkt.timeToLive, pkt.hdrChecksum, pkt.srcAddr, pkt.dstAddr, pkt.srcPort, pkt.dstPort, pkt.cksum]

/-- The bytes of the packet beside these fields. -/
def otherBytes (f : Frame) : List Nat :=
  ((List.range f.dataLen).filter fun i => (fields h (nextProto f h.ipv4Header)).all fun field =>
    i < field.offset || field.offset + field.width ≤ i).map fun i => (f.bytes i).toNat

/-- The packet with these headers. -/
def readPkt (f : Frame) : Pkt where
  dstMac := load f.bytes h.etherHeader 6
  srcMac := load f.bytes (h.etherHeader + 6) 6
  timeToLive := load f.bytes (h.ipv4Header + 8) 1
  nextProtoId := nextProto f h.ipv4Header
  hdrChecksum := load f.bytes (h.ipv4Header + 10) 2
  srcAddr := load f.bytes (h.ipv4Header + 12) 4
  dstAddr := load f.bytes (h.ipv4Header + 16) 4
  srcPort := load f.bytes h.tcpudpHeader 2
  dstPort := load f.bytes (h.tcpudpHeader + 2) 2
  cksum := load f.bytes (h.tcpudpHeader + cksumOffset (nextProto f h.ipv4Header)) 2
  raw := otherBytes h f

/-- The fields of a packet in place. -/
def writePkt (pkt : Pkt) (f : Frame) : Frame :=
  { f with bytes := storeAll f.bytes ((fields h pkt.nextProtoId).zip (values pkt)) }

/-- The numbers fit into their fields. -/
def Fits (pkt : Pkt) : Prop := ∀ y ∈ (fields h pkt.nextProtoId).zip (values pkt), y.2 < 256 ^ y.1.width

end Fields

section Lens
variable {f : Frame} {pkt : Pkt} {i : Nat}

theorem readPkt_eq {h : Headers} (proto : nextProto f h.ipv4Header = pkt.nextProtoId)
    (loads : ∀ y ∈ (fields h pkt.nextProtoId).zip (values pkt), load f.bytes y.1.offset y.1.width = y.2) :
    readPkt h f = { pkt with raw := otherBytes h f } := by
  simp only [fields, values, List.zip_cons_cons, List.zip_nil_left, List.mem_cons, List.not_mem_nil, or_false, forall_eq_or_imp,
    forall_eq] at loads
  obtain ⟨dstMac, srcMac, timeToLive, hdrChecksum, srcAddr, dstAddr, srcPort, dstPort, cksum⟩ := loads
  rw [readPkt, proto]
  congr

theorem fields_apart (f : Frame) (pkt : Pkt) :
    ((fields f.headers pkt.nextProtoId).zip (values pkt)).Pairwise fun y z => z.1.Apart y.1 := by
  have offset : 6 ≤ cksumOffset pkt.nextProtoId := by
    unfold cksumOffset
    split <;> omega
  simp only [fields, values, Frame.headers, List.zip_cons_cons, List.zip_nil_left, List.pairwise_cons, List.mem_cons, List.not_mem_nil,
    or_false, forall_eq_or_imp, forall_eq, Field.Apart, List.Pairwise.nil, and_true, false_implies, implies_true]
  omega

/-- The numbers beside the fields. -/
theorem load_writePkt {offset width : Nat}
    (apart : ∀ field ∈ fields f.headers pkt.nextProtoId, field.Apart ⟨offset, width⟩) :
    load (writePkt f.headers pkt f).bytes offset width = load f.bytes offset width :=
  load_storeAll_apart (f := ⟨offset, width⟩) fun y member => apart y.1 (List.of_mem_zip member).1

theorem apart_between {offset width : Nat} (low : 12 ≤ offset) (high : offset + width ≤ 22 ∨ offset = 23 ∧ width = 1) :
    ∀ field ∈ fields f.headers pkt.nextProtoId, field.Apart ⟨offset, width⟩ := by
  simp only [fields, Frame.headers, List.mem_cons, List.not_mem_nil, or_false, forall_eq_or_imp, forall_eq, Field.Apart]
  omega

theorem nextProto_writePkt : nextProto (writePkt f.headers pkt f) 14 = nextProto f 14 :=
  load_writePkt (apart_between (by omega) (by omega))

theorem ihl_writePkt : ihl (writePkt f.headers pkt f) 14 = ihl f 14 :=
  congrArg (· % 16) (load_writePkt (apart_between (by omega) (by omega)))

theorem totalLength_writePkt : totalLength (writePkt f.headers pkt f) 14 = totalLength f 14 :=
  congrArg bswap16 (load_writePkt (apart_between (by omega) (by omega)))

theorem etherType_writePkt : load (writePkt f.headers pkt f).bytes 12 2 = load f.bytes 12 2 :=
  load_writePkt (apart_between (by omega) (by omega))

theorem unread_writePkt : (writePkt f.headers pkt f).unread = f.unread := rfl

theorem options_writePkt : (writePkt f.headers pkt f).options = f.options := by
  rw [Frame.options, Frame.options, ihl_writePkt, unread_writePkt]

/-- Writing the fields does not move the headers. -/
theorem headers_writePkt : (writePkt f.headers pkt f).headers = f.headers := by
  rw [Frame.headers, options_writePkt, Frame.headers]

theorem wellFormed_writePkt : WellFormed (writePkt f.headers pkt f) ↔ WellFormed f := by
  rw [wellFormed_iff, wellFormed_iff, etherType_writePkt, ihl_writePkt, totalLength_writePkt, nextProto_writePkt, options_writePkt,
    unread_writePkt]

theorem outside_writePkt (outside : ∀ field ∈ fields f.headers pkt.nextProtoId, i < field.offset ∨ field.offset + field.width ≤ i) :
    (writePkt f.headers pkt f).bytes i = f.bytes i :=
  storeAll_outside fun y member => outside y.1 (List.of_mem_zip member).1

theorem otherBytes_writePkt (proto : pkt.nextProtoId = nextProto f 14) :
    otherBytes f.headers (writePkt f.headers pkt f) = otherBytes f.headers f := by
  have same : nextProto (writePkt f.headers pkt f) f.headers.ipv4Header = nextProto f f.headers.ipv4Header := nextProto_writePkt
  rw [otherBytes, same, otherBytes]
  apply List.map_congr_left
  intro i member
  have outside := (List.mem_filter.mp member).2
  rw [outside_writePkt]
  intro field inside
  rw [proto] at inside
  simpa using List.all_eq_true.mp outside field inside

theorem load_written {offset width v : Nat} (fits : Fits f.headers pkt)
    (member : (⟨offset, width⟩, v) ∈ (fields f.headers pkt.nextProtoId).zip (values pkt)) :
    load (writePkt f.headers pkt f).bytes offset width = v :=
  load_storeAll (f := ⟨offset, width⟩) (fields_apart f pkt) member (fits _ member)

theorem readPkt_writePkt (fits : Fits f.headers pkt) (proto : pkt.nextProtoId = nextProto f 14) :
    readPkt f.headers (writePkt f.headers pkt f) = { pkt with raw := otherBytes f.headers f } := by
  have same : nextProto (writePkt f.headers pkt f) f.headers.ipv4Header = pkt.nextProtoId := nextProto_writePkt.trans proto.symm
  rw [readPkt_eq same fun y inside => load_written fits inside, otherBytes_writePkt proto]

theorem writePkt_readPkt (f : Frame) : writePkt f.headers (readPkt f.headers f) f = f := by
  have same : storeAll f.bytes ((fields f.headers (readPkt f.headers f).nextProtoId).zip (values (readPkt f.headers f))) = f.bytes := by
    apply storeAll_load
    simp [fields, values, readPkt, Field.load]
  rw [writePkt, same]

theorem fits_iff {h : Headers} : Fits h pkt ↔ pkt.dstMac < 256 ^ 6 ∧ pkt.srcMac < 256 ^ 6 ∧ pkt.timeToLive < 256 ^ 1 ∧
    pkt.hdrChecksum < 256 ^ 2 ∧ pkt.srcAddr < 256 ^ 4 ∧ pkt.dstAddr < 256 ^ 4 ∧ pkt.srcPort < 256 ^ 2 ∧ pkt.dstPort < 256 ^ 2 ∧
    pkt.cksum < 256 ^ 2 := by
  simp only [Fits, fields, values, List.zip_cons_cons, List.zip_nil_left, List.mem_cons, List.not_mem_nil, or_false,
    forall_eq_or_imp, forall_eq]

theorem fits_readPkt (f : Frame) : Fits f.headers (readPkt f.headers f) := by
  rw [fits_iff]
  exact ⟨load_lt .., load_lt .., load_lt .., load_lt .., load_lt .., load_lt .., load_lt .., load_lt .., load_lt ..⟩

/-- What the models of the network functions take as their parser. -/
def Frame.packet (f : Frame) : Bool × Pkt := (decide (WellFormed f), readPkt f.headers f)

theorem packet_accepted (f : Frame) : (f.packet.1 && nfHasTcpudpHeader f.packet.2.nextProtoId) = decide (WellFormed f) := by
  by_cases wellFormed : WellFormed f
  · have transport : nfHasTcpudpHeader f.packet.2.nextProtoId = true := wellFormed.transport
    rw [transport, Bool.and_true]
    rfl
  · simp [Frame.packet, wellFormed]

/-- The record of a packet stands for its buffer. What is written into it is what a later parser reads, the
packet is as well formed as before, and a complete transport header is all that is needed to stay within
the packet. -/
theorem packet_in_place (size : f.dataLen < 2 ^ 16) (wellFormed : WellFormed f) (fits : Fits f.headers pkt)
    (proto : pkt.nextProtoId = nextProto f 14) {io : PacketIo} (idle : Idle io) :
    parse (writePkt f.headers pkt f) io = some (some f.headers, ⟨f.dataLen, 0, []⟩) ∧
    readPkt f.headers (writePkt f.headers pkt f) = { pkt with raw := (readPkt f.headers f).raw } ∧
    writePkt f.headers (readPkt f.headers f) f = f ∧
    (14 ≤ f.dataLen → f.headers.tcpudpHeader + cksumOffset pkt.nextProtoId + 2 ≤ f.dataLen →
      ∀ i, f.dataLen ≤ i → (writePkt f.headers pkt f).bytes i = f.bytes i) := by
  refine ⟨?_, readPkt_writePkt fits proto, writePkt_readPkt f, ?_⟩
  · have parsed := parse_idle (f := writePkt f.headers pkt f) idle size
    rwa [if_pos (wellFormed_writePkt.mpr wellFormed), headers_writePkt] at parsed
  · intro whole complete i behind
    apply outside_writePkt
    have offset : 6 ≤ cksumOffset pkt.nextProtoId := by
      unfold cksumOffset
      split <;> omega
    have header : f.headers.tcpudpHeader = 34 + f.options := rfl
    simp only [fields, Frame.headers, List.mem_cons, List.not_mem_nil, or_false, forall_eq_or_imp, forall_eq]
    omega

end Lens

section Encoding
variable {memory : Nat → UInt8} {words total len : Nat} {pkt : Pkt} {io : PacketIo}

/-- The headers of a packet with `words` words of options. -/
def headersOf (words : Nat) : Headers := ⟨0, 14, 34 + 4 * words⟩

/-- The fields that make a packet well formed: the types, the lengths and the protocol. -/
def formats (words total proto : Nat) : List (Field × Nat) :=
  [(⟨12, 2⟩, 0x0008), (⟨14, 1⟩, 0x45 + words), (⟨16, 2⟩, bswap16 total), (⟨23, 1⟩, proto)]

/-- A packet with these contents, over any memory. -/
def encode (memory : Nat → UInt8) (words total len : Nat) (pkt : Pkt) : Frame :=
  ⟨storeAll memory (formats words total pkt.nextProtoId ++ (fields (headersOf words) pkt.nextProtoId).zip (values pkt)), len⟩

theorem encoded_apart (words total : Nat) (pkt : Pkt) :
    (formats words total pkt.nextProtoId ++ (fields (headersOf words) pkt.nextProtoId).zip (values pkt)).Pairwise
      fun y z => z.1.Apart y.1 := by
  have offset : 6 ≤ cksumOffset pkt.nextProtoId := by
    unfold cksumOffset
    split <;> omega
  simp only [formats, fields, values, headersOf, List.zip_cons_cons, List.zip_nil_left, List.cons_append, List.nil_append,
    List.pairwise_cons, List.mem_cons, List.not_mem_nil, or_false, forall_eq_or_imp, forall_eq, Field.Apart, List.Pairwise.nil,
    and_true, false_implies, implies_true]
  omega

theorem load_encode {offset width v : Nat} (fits : v < 256 ^ width)
    (member : (⟨offset, width⟩, v) ∈ formats words total pkt.nextProtoId ++ (fields (headersOf words) pkt.nextProtoId).zip (values pkt)) :
    load (encode memory words total len pkt).bytes offset width = v :=
  load_storeAll (f := ⟨offset, width⟩) (encoded_apart words total pkt) member fits

theorem bswap16_lt (x : Nat) : bswap16 x < 2 ^ 16 := by
  unfold bswap16
  omega

/-- What is encoded is parsed: every packet of the format is accepted, with its headers and contents. -/
theorem parse_encode (transport : nfHasTcpudpHeader pkt.nextProtoId = true) (few : words ≤ 10) (whole : 38 + 4 * words ≤ len)
    (declared : total ≤ len - 14) (size : len < 2 ^ 16) (fits : Fits (headersOf words) pkt) (idle : Idle io) :
    parse (encode memory words total len pkt) io = some (some (headersOf words), ⟨len, 0, []⟩) ∧
      readPkt (headersOf words) (encode memory words total len pkt) =
        { pkt with raw := otherBytes (headersOf words) (encode memory words total len pkt) } := by
  have formatted : ∀ y ∈ formats words total pkt.nextProtoId, y.2 < 256 ^ y.1.width →
      load (encode memory words total len pkt).bytes y.1.offset y.1.width = y.2 := fun y inside small =>
    load_encode small (List.mem_append_left _ inside)
  have member : ∀ y ∈ (fields (headersOf words) pkt.nextProtoId).zip (values pkt),
      load (encode memory words total len pkt).bytes y.1.offset y.1.width = y.2 := fun y inside =>
    load_encode (fits y inside) (List.mem_append_right _ inside)
  have small : pkt.nextProtoId < 256 := by
    simp only [nfHasTcpudpHeader, Bool.or_eq_true, beq_iff_eq] at transport
    omega
  simp only [formats, List.mem_cons, List.not_mem_nil, or_false, forall_eq_or_imp, forall_eq] at formatted
  obtain ⟨type, versionIhl, length, proto⟩ := formatted
  replace type := type (by decide)
  replace versionIhl := versionIhl (by omega)
  replace length := length (bswap16_lt total)
  have proto : nextProto (encode memory words total len pkt) 14 = pkt.nextProtoId := proto small
  have ihl_eq : ihl (encode memory words total len pkt) 14 = 5 + words := by
    rw [ihl, versionIhl]
    omega
  have total_eq : totalLength (encode memory words total len pkt) 14 = total := by
    rw [totalLength, length, bswap16_bswap16 (by omega)]
  have unread : (encode memory words total len pkt).unread = len - 14 := if_neg (by change ¬ len < 14; omega)
  have options : (encode memory words total len pkt).options = 4 * words := by
    rw [Frame.options, ihl_eq, unread, if_pos (by omega)]
    omega
  have headers : (encode memory words total len pkt).headers = headersOf words := by
    rw [Frame.headers, options, headersOf]
  constructor
  · have parsed := parse_idle (f := encode memory words total len pkt) idle size
    rwa [if_pos, headers] at parsed
    constructor
    case ipv4 => exact type
    case header => omega
    case ihl => omega
    case total => omega
    case transport => rwa [proto]
    case complete => omega
  · exact readPkt_eq proto member

end Encoding

section Example

/-- A TCP packet with one word of options. -/
def segment : Pkt := ⟨1, 2, 64, 6, 0, 3, 4, 5, 6, 0, []⟩

def zeroes : Nat → UInt8 := fun _ => 0

theorem parse_encode_segment : parse (encode zeroes 1 46 60 segment) .start = some (some ⟨0, 14, 38⟩, ⟨60, 0, []⟩) :=
  (parse_encode rfl (by decide) (by decide) (by decide) (by decide) (by unfold Fits; decide) ⟨rfl, rfl⟩).1

/-- One that is not IPv4, one with options behind its end, and one without a whole Ethernet header. -/
theorem parser_accepts_three : ∃ io, parseAll [⟨zeroes, 60⟩, ⟨(encode zeroes 10 24 80 segment).bytes, 40⟩,
    ⟨(encode zeroes 1 46 60 segment).bytes, 10⟩] .start = some ([none, some ⟨0, 14, 34⟩, some ⟨0, 14, 38⟩], io) ∧ Idle io := by
  have sizes : ∀ f ∈ [(⟨zeroes, 60⟩ : Frame), ⟨(encode zeroes 10 24 80 segment).bytes, 40⟩,
      ⟨(encode zeroes 1 46 60 segment).bytes, 10⟩], f.dataLen < 2 ^ 16 := by simp
  obtain ⟨io, parsed, idle⟩ := (parser_accepts sizes).1
  refine ⟨io, parsed.trans ?_, idle⟩
  have accepted : ([(⟨zeroes, 60⟩ : Frame), ⟨(encode zeroes 10 24 80 segment).bytes, 40⟩,
      ⟨(encode zeroes 1 46 60 segment).bytes, 10⟩].map fun f => if WellFormed f then some f.headers else none) =
      [none, some ⟨0, 14, 34⟩, some ⟨0, 14, 38⟩] := by decide
  rw [accepted]

theorem packet_in_place_segment :
    let f := encode zeroes 1 46 60 segment
    let pkt := { segment with srcAddr := 7, srcPort := 8 }
    f.headers = ⟨0, 14, 38⟩ ∧ parse (writePkt f.headers pkt f) .start = some (some f.headers, ⟨f.dataLen, 0, []⟩) ∧
      readPkt f.headers (writePkt f.headers pkt f) = { pkt with raw := (readPkt f.headers f).raw } ∧
      writePkt f.headers (readPkt f.headers f) f = f ∧
      ∀ i, 60 ≤ i → (writePkt f.headers pkt f).bytes i = f.bytes i := by
  intro f pkt
  obtain ⟨parsed, readBack, unchanged, behind⟩ := @packet_in_place f pkt (by decide) (by decide)
    (by unfold Fits; decide) (by decide) .start ⟨rfl, rfl⟩
  exact ⟨by decide, parsed, readBack, unchanged, behind (by decide) (by decide)⟩

end Example
end Nfos.PacketHeaders
