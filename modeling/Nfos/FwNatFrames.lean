import Nfos.PacketContents
import Nfos.PacketHeaders
import Nfos.FwNatTransparent

/-! `fw-nat` on the buffers of the packets: what it leaves in a buffer is a packet again, the one that
its handlers have recorded. -/
namespace Nfos.FwNat
open DataPlane PktSetManager Sessions NfUtil PacketHeaders Casts Txn

/-- The checksums of DPDK have 16 bits. -/
def Checksums.Short (sums : Checksums) : Prop := ∀ pkt, sums.rteIpv4UdptcpCksum pkt < 2 ^ 16 ∧ sums.rteIpv4Cksum pkt < 2 ^ 16

/-- What the handlers keep of a parsed packet. -/
structure InPlace (parsed pkt : Pkt) : Prop where
  proto : pkt.nextProtoId = parsed.nextProtoId
  raw : pkt.raw = parsed.raw
  fits : ∀ h, Fits h parsed → Fits h pkt

section Handlers
variable {setup : Setup} {core : Nat} {pkt parsed : Pkt}

theorem InPlace.refl (pkt : Pkt) : InPlace pkt pkt := ⟨rfl, rfl, fun _ fits => fits⟩

theorem inPlace_checksum {sums : Checksums} (short : Checksums.Short sums) (kept : InPlace parsed pkt) :
    InPlace parsed (nfSetIpv4UdptcpChecksum sums pkt) := by
  obtain ⟨proto, raw, fits⟩ := kept
  unfold nfSetIpv4UdptcpChecksum
  dsimp only
  split
  · refine ⟨proto, raw, fun h fit => ?_⟩
    have before := fits_iff.mp (fits h fit)
    have udptcp := (short { pkt with hdrChecksum := 0, cksum := 0 }).1
    rw [fits_iff]
    refine ⟨before.1, before.2.1, before.2.2.1, (short _).2, before.2.2.2.2.1, before.2.2.2.2.2.1, before.2.2.2.2.2.2.1,
      before.2.2.2.2.2.2.2.1, udptcp⟩
  · refine ⟨proto, raw, fun h fit => ?_⟩
    have before := fits_iff.mp (fits h fit)
    rw [fits_iff]
    refine ⟨before.1, before.2.1, before.2.2.1, (short _).2, before.2.2.2.2⟩

theorem sessIdToExtTuple_lt (cfg : NfConfig) (sessId : Int) (proto : Nat) :
    (sessIdToExtTuple cfg sessId proto).1 < 2 ^ 32 ∧ (sessIdToExtTuple cfg sessId proto).2 < 2 ^ 16 :=
  ⟨bswap32_lt _, bswap16_lt _⟩

theorem ensures_tuple (setup : Setup) (core : Nat) (key : Session) (now : Int) (l : Store SessionData Log) :
    Txs.Ensures (translate setup core key now) l fun result _ => ∀ ext, result = some ext → ext.1 < 2 ^ 32 ∧ ext.2 < 2 ^ 16 := by
  refine Txs.ensures_bind (P := fun (_ : Option Int) _ => True) (fun _ _ _ _ => trivial) ?_
  intro found l' _
  cases found with
  | none =>
    apply Txs.ensures_pure
    simp
  | some sessIndex =>
    refine Txs.ensures_bind (P := fun (_ : Unit) _ => True) (fun _ _ _ _ => trivial) ?_
    intro _ l' _
    apply Txs.ensures_pure
    intro ext same
    rw [← Option.some.inj same]
    exact sessIdToExtTuple_lt setup.cfg sessIndex key.proto

theorem inPlace_rewritten {ext : Nat × Nat} (short : Checksums.Short setup.sums) (ip : ext.1 < 2 ^ 32) (port : ext.2 < 2 ^ 16)
    (kept : InPlace parsed pkt) : InPlace parsed (rewritten setup pkt ext) := by
  apply inPlace_checksum short
  refine ⟨kept.proto, kept.raw, fun h fit => ?_⟩
  have before := fits_iff.mp (kept.fits h fit)
  rw [fits_iff]
  exact ⟨before.1, before.2.1, before.2.2.1, before.2.2.2.1, ip, before.2.2.2.2.2.1, port, before.2.2.2.2.2.2.2⟩

theorem inPlace_pktHandler {grants : Nat → Nat → Bool} {call : Call NfState Pkt PktSetState PktSetId}
    {outcome : Outcome NfState Pkt PktSetState PktSetId} (short : Checksums.Short setup.sums)
    (ran : pktHandler setup core grants call = some outcome) (kept : InPlace parsed call.pkt) : InPlace parsed outcome.pkt := by
  obtain ⟨did, _⟩ := pktHandler_did ran
  cases did with
  | aborted _ same _ => rwa [same]
  | returned ext l _ translated _ same =>
    rw [same]
    cases ext with
    | none => exact kept
    | some ext =>
      obtain ⟨ip, port⟩ := ensures_tuple setup core _ _ _ _ _ _ translated ext rfl
      exact inPlace_rewritten short ip port kept

theorem handlersKeep {ctx : Context Contention NfState Pkt PktSetState PktSetId Frame} (short : Checksums.Short setup.sums)
    (isNat : ctx.nf = nf setup core Frame.packet) : HandlersKeep ctx InPlace := by
  intro branch pktClass contention call outcome parsed ran kept
  unfold Context.handler at ran
  rw [isNat] at ran
  cases branch with
  | unknown =>
    change nfUnknownPktSetHandler setup core contention call = some outcome at ran
    simp only [nfUnknownPktSetHandler, Option.bind_eq_bind, Option.bind_eq_some_iff, Option.pure_def, Option.some.injEq] at ran
    obtain ⟨inner, handled, rfl⟩ := ran
    have after : InPlace parsed inner.pkt := inPlace_pktHandler short handled kept
    exact after
  | noPktSet | registered =>
    change pktHandlers setup core _ contention call = some outcome at ran
    unfold pktHandlers at ran
    split at ran
    · exact inPlace_pktHandler short ran kept
    · contradiction

end Handlers

section Frames
variable {setup : Setup} {core : Nat} {ctx : Context Contention NfState Pkt PktSetState PktSetId Frame} {f : Frame} {pkt : Pkt}

/-- The buffer is a packet with these contents. -/
def Holds (f : Frame) (pkt : Pkt) : Prop :=
  (∀ io, Idle io → parse (writePkt f.headers pkt f) io = some (some f.headers, ⟨f.dataLen, 0, []⟩)) ∧
    readPkt f.headers (writePkt f.headers pkt f) = pkt

theorem holds_of_inPlace (size : f.dataLen < 2 ^ 16) (wellFormed : WellFormed f) (kept : InPlace f.packet.2 pkt) : Holds f pkt := by
  have fits := kept.fits f.headers (fits_readPkt f)
  have proto : pkt.nextProtoId = nextProto f 14 := kept.proto
  refine ⟨fun io idle => ?_, ?_⟩
  · have parsed := parse_idle (f := writePkt f.headers pkt f) idle size
    rwa [if_pos (wellFormed_writePkt.mpr wellFormed), headers_writePkt] at parsed
  · rw [readPkt_writePkt fits proto]
    have raw : otherBytes f.headers f = pkt.raw := kept.raw.symm
    rw [raw]

/-- After any retries, with and without batching, the buffer of an accepted packet is again a packet with the
same headers and with the contents that the handlers have left. -/
theorem frames_in_place (short : Checksums.Short setup.sums) (isNat : ctx.nf = nf setup core Frame.packet) :
    (∀ f attempts p dst p' rest, f.dataLen < 2 ^ 16 → WellFormed f →
      processPkt ctx f attempts p = some (dst, p', rest) → Holds f (p'.packet 0)) ∧
    ∀ mbufs batchSize attempts p p' rest, processPkts ctx mbufs batchSize attempts p = some (p', rest) →
      ∀ i < batchSize, (mbufs i).dataLen < 2 ^ 16 → WellFormed (mbufs i) → Holds (mbufs i) (p'.packet i) := by
  have keep := handlersKeep short isNat
  have parser : ∀ f, (ctx.nf.nfPktParser f).2 = f.packet.2 := by
    intro f
    rw [isNat]
    rfl
  constructor
  · intro f attempts p dst p' rest size wellFormed ran
    have kept := (processPkt_preserved keep InPlace.refl ran).packets 0 Nat.one_pos
    rw [parser] at kept
    exact holds_of_inPlace size wellFormed kept
  · intro mbufs batchSize attempts p p' rest ran i within size wellFormed
    have kept := (processPkts_preserved keep InPlace.refl ran).packets i within
    rw [parser] at kept
    exact holds_of_inPlace size wellFormed kept

end Frames

section Example

def framesContext (setup : Setup) : Context Contention NfState Pkt PktSetState PktSetId Frame :=
  ⟨nf setup 0 Frame.packet, oneFlow, false, 0, 0, 0⟩

/-- The sample packet with a word of options. -/
def lanFrame : Frame := encode zeroes 1 46 60 lanPacket

/-- The source address of the packet after an aborted attempt and a successful one. -/
def sourceAfter : Option (Nat × Nat) := do
  let ((setup, s), m) ← initial
  let (_, p, _) ← processPkt (framesContext setup) lanFrame [granted false, granted true] (examplePlane s m)
  return ((p.packet 0).srcAddr, (p.packet 0).srcPort)

theorem nfInit_sums {cfg : NfConfig} {sums : Checksums} {crc32si : Nat → Nat → Nat} {maxNumSessions numCores : Nat} {memory s : NfState}
    {setup : Setup} (ended : nfInit cfg sums crc32si maxNumSessions numCores memory = some (setup, s)) : setup.sums = sums := by
  obtain ⟨_, _, rest⟩ := Option.bind_eq_some_iff.mp ended
  rw [← (Prod.mk.inj (Option.some.inj rest)).1]

theorem frames_in_place_retry : ∃ setup s m dst p' rest, initial = some ((setup, s), m) ∧
    processPkt (framesContext setup) lanFrame [granted false, granted true] (examplePlane s m) = some (dst, p', rest) ∧
    Holds lanFrame (p'.packet 0) := by
  have ran : sourceAfter = some (bswap32 0xdeadbeef, bswap16 1024) := by decide +kernel
  simp only [sourceAfter, Option.bind_eq_bind, Option.bind_eq_some_iff] at ran
  obtain ⟨⟨⟨setup, s⟩, m⟩, ended, ⟨dst, p', rest⟩, ran, _⟩ := ran
  have short : Checksums.Short setup.sums := by
    rw [nfInit_sums (initial_nat ended)]
    exact fun _ => ⟨Nat.two_pow_pos 16, Nat.two_pow_pos 16⟩
  refine ⟨setup, s, m, dst, p', rest, ended, ran, ?_⟩
  exact (frames_in_place short rfl).1 lanFrame _ _ _ _ _ (by decide) (by decide) ran

end Example
end Nfos.FwNat
