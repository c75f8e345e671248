import Nfos.FwNatRetries
import Nfos.DataPlaneBatches

/-! When retries of `process_pkt` are transparent for `fw-nat`: what a failed attempt leaves
in the packet and in the packet-set state decides. -/
namespace Nfos.PktSetManager
variable {Id S : Type}

theorem addPktSetCommit_log {cfg : Config Id} {pktSetId : Id} {core : Nat} {time : Int} {m : Manager Id S}
    {log : Nat → AddPktSetLogEntry Id S} (same : log core = m.log core) :
    addPktSetCommit cfg pktSetId core time { m with log := log } =
      (addPktSetCommit cfg pktSetId core time m).map fun m => { m with log := log } := by
  simp only [addPktSetCommit, storePktSet, same]
  split
  · split
    · rfl
    · cases cfg.hasRelatedPktSets with
      | true => simp only [if_true, Option.bind_eq_bind, Option.map_bind, Function.comp_def]; rfl
      | false => simp only [Bool.false_eq_true, if_false, Option.bind_eq_bind, Option.map_bind, Function.comp_def]; rfl
  · rfl

/-- A registration reads the cells, the buckets and the log of its core. -/
theorem addPktSetCommit_congr {cfg : Config Id} {pktSetId : Id} {core : Nat} {time : Int} {m m' after : Manager Id S}
    (cells : m.cells = m'.cells) (buckets : m.buckets = m'.buckets) (states : m.pktSetState = m'.pktSetState)
    (entry : m.log core = m'.log core ∨ (m.log core).addPktSet = false ∧ (m'.log core).addPktSet = false)
    (committed : addPktSetCommit cfg pktSetId core time m = some after) :
    ∃ after', addPktSetCommit cfg pktSetId core time m' = some after' ∧ after'.pktSetState = after.pktSetState := by
  have replaced : m' = { m with log := m'.log } := by
    rw [cells, buckets, states]
  rcases entry with same | ⟨first, second⟩
  · refine ⟨{ after with log := m'.log }, ?_, rfl⟩
    rw [replaced, addPktSetCommit_log same.symm, committed]
    rfl
  · refine ⟨m', ?_, ?_⟩
    · simp [addPktSetCommit, second]
    · simp only [addPktSetCommit, first, Bool.false_eq_true, if_false, Option.some.injEq] at committed
      rw [← committed, states]

end Nfos.PktSetManager

namespace Nfos.FwNat
open Txn Tx Casts Function Map DoubleChain NfUtil DataPlane PktSetManager Sessions Run Retry

section Loops
variable {B : Type} {setup : Setup} {core : Fin setup.numCores} {ctx : Context Contention NfState Pkt PktSetState PktSetId B}
variable {branch : Branch} {d : Dispatch PktSetId} {headers : B → Bool × Pkt}
variable {p u u' q : Plane NfState Pkt PktSetState PktSetId} {failed : List (Attempt Contention NfState)}
variable {last : Attempt Contention NfState} {outcome outcome' : Outcome NfState Pkt PktSetState PktSetId}

/-- A loop that uses all attempts: only the last one commits. -/
theorem retry_last {A σ : Type} {attempt : A → σ → Option (Bool × σ)} {failed : List A} {last : A} {s t : σ}
    (ran : retry attempt (failed ++ [last]) s = some (t, [])) :
    ∃ u, Trace (Failed attempt) s failed u ∧ attempt last u = some (true, t) := by
  obtain ⟨before, a, u, split, trace, finish⟩ := retry_eq_some ran
  obtain ⟨rfl, same⟩ := List.append_inj' split rfl
  obtain rfl := (List.cons.inj same).1
  exact ⟨u, trace, finish⟩

theorem failed_carriedTo (isNat : ctx.nf = nf setup core.val headers) (known : branch ≠ .noPktSet) (lan : d.pktClass = 0)
    (accepted : nfHasTcpudpHeader (p.packet 0).nextProtoId = true)
    (reached : ∀ past, past <+: failed → Reached setup (viewAfter p.globalState past))
    (trace : Trace (Failed (attemptPkt ctx branch 0 d)) p failed u) : CarriedTo setup core.val ctx branch p failed u := by
  refine trace.rule (P := fun past u => past <+: failed → CarriedTo setup core.val ctx branch p past u) ?_ ?_ List.prefix_rfl
  · intro _
    constructor
    case state => rfl
    case packet => exact rfl
    case slots => rfl
    case cells => rfl
    case buckets => rfl
    case related => rfl
    case states => simp
  · intro past t a u' _ carries failure here
    obtain ⟨outcome, attempted⟩ := attemptPkt_attempted known failure
    exact (carries ((List.prefix_append past [a]).trans here)).extend isNat known lan accepted (reached _ here) attempted

/-- The packet-set states behind the last attempt and behind a single one. -/
theorem states_agree_iff (isNat : ctx.nf = nf setup core.val headers) (known : branch ≠ .noPktSet) (lan : d.pktClass = 0)
    (carries : CarriedTo setup core.val ctx branch p failed u) (attempted : Attempted ctx branch d last u true u' outcome)
    {a : Attempt Contention NfState} (alone : Attempted ctx branch d a p true q outcome') :
    q.manager.pktSetState = u'.manager.pktSetState ↔
      (branch = .registered → ctx.mutablePktSetState = true ∨ failed.length % 2 ^ 32 = 0) := by
  have last := attempted.states
  have first := alone.states
  simp only [Bool.true_eq_false, and_false, if_false, states_writeBack isNat known lan attempted,
    states_writeBack isNat known lan alone] at last first
  rw [last, first]
  have kept := carries.states
  by_cases registered : branch = .registered
  · cases mutable' : ctx.mutablePktSetState with
    | true =>
      simp only [mutable', registered, Bool.true_eq_false, and_false, if_false] at kept
      simp [registered, kept, carries.slots]
    | false =>
      simp only [mutable', registered, and_self, if_true] at kept
      simp only [registered, if_true, kept, carries.slots, update_self, update_idem, forall_const, Bool.false_eq_true, false_or]
      constructor
      · intro same
        have sizes := congrArg PktSetState.flowSize ((update_injective _ _) same)
        dsimp only at sizes
        have zero : UInt32.ofNat failed.length = 0 := by
          rw [UInt32.add_left_inj] at sizes
          exact UInt32.left_eq_add.mp sizes
        simpa using congrArg UInt32.toNat zero
      · intro whole
        have zero : UInt32.ofNat failed.length = 0 := by
          apply UInt32.toNat_inj.mp
          simpa using whole
        rw [zero, UInt32.add_zero]
  · simp only [registered, false_and, if_false] at kept
    simp [registered, kept]

/-- A single attempt agrees on the shared state and the packet exactly when the failed ones
left the source. -/
theorem single_agrees_iff (isNat : ctx.nf = nf setup core.val headers) (known : branch ≠ .noPktSet) (lan : d.pktClass = 0)
    (fromLan : ctx.device ≠ setup.cfg.wanDevice) (accepted : nfHasTcpudpHeader (p.packet 0).nextProtoId = true)
    (reached : Reached setup (last.others u.globalState)) (carries : CarriedTo setup core.val ctx branch p failed u)
    (attempted : Attempted ctx branch d last u true u' outcome) :
    (∃ q, attemptPkt ctx branch 0 d (single (last.others u.globalState)) p = some (true, q) ∧
      q.globalState = u'.globalState ∧ q.packet 0 = u'.packet 0) ↔
    (carried setup core.val (p.packet 0).nextProtoId ctx.now failed (p.globalState, source (p.packet 0))).2 = source (p.packet 0) := by
  constructor
  · rintro ⟨q, ran, state, packet⟩
    exact source_of_agrees isNat known lan accepted reached carries.packet attempted ran state packet
  · intro kept
    have same := carries.packet
    rw [kept] at same
    exact single_agrees isNat known lan fromLan accepted reached same attempted

/-- The registration behind the loop stores the same state. -/
theorem commit_agrees (isNat : ctx.nf = nf setup core.val headers) (lan : d.pktClass = 0)
    (carries : CarriedTo setup core.val ctx .unknown p failed u) (attempted : Attempted ctx .unknown d last u true u' outcome)
    {a : Attempt Contention NfState} (alone : Attempted ctx .unknown d a p true q outcome') {after : Manager PktSetId PktSetState}
    (committed : addPktSetCommit ctx.cfg d.pktSetId ctx.pktSetPartition ctx.now u'.manager = some after) :
    ∃ after', addPktSetCommit ctx.cfg d.pktSetId ctx.pktSetPartition ctx.now q.manager = some after' ∧
      after'.pktSetState = after.pktSetState := by
  have known : Branch.unknown ≠ .noPktSet := by decide
  refine addPktSetCommit_congr ?_ ?_ ?_ ?_ committed
  · rw [attempted.cells, carries.cells, alone.cells]
  · rw [attempted.buckets, carries.buckets, alone.buckets]
  · exact ((states_agree_iff isNat known lan carries attempted alone).mpr nofun).symm
  · obtain ⟨_, first⟩ := log_writeBack isNat known lan attempted
    obtain ⟨_, second⟩ := log_writeBack isNat known lan alone
    replace first := first rfl
    replace second := second rfl
    rw [carries.cells, carries.related] at first
    split at first
    · rename_i free
      rw [if_pos free] at second
      exact Or.inl (first.trans second.symm)
    · rename_i full
      rw [if_neg full] at second
      exact Or.inr ⟨first, second⟩

end Loops

section Packets
variable {Ω G P S Id B : Type} {ctx : Context Ω G P S Id B} {buffer : B} {pkt : P} {p : Plane G P S Id}
variable {d : Dispatch Id} {attempts : List (Attempt Ω G)} {slot : Nat} {m : Manager Id S}

/-- The memory of the core behind the parser. -/
def parsed (ctx : Context Ω G P S Id B) (pkt : P) (p : Plane G P S Id) : Plane G P S Id :=
  { p with dstDevice := ctx.device, packet := update p.packet 0 pkt, running := [], history := [] }

theorem processPkt_unparsed (parser : ctx.nf.nfPktParser buffer = (false, pkt)) :
    processPkt ctx buffer attempts p = some (ctx.device, parsed ctx pkt p, attempts) := by
  simp [processPkt, parser, parsed]

/-- The loop for a registered packet set. -/
theorem processPkt_registered (parser : ctx.nf.nfPktParser buffer = (true, pkt)) (dispatch : ctx.nf.nfPktDispatcher pkt ctx.device = d)
    (stateful : d.hasPktSetState = true)
    (got : getPktSetState ctx.cfg d.pktSetId ctx.pktSetPartition ctx.now p.manager = some (some slot, m)) :
    ∃ p₁ : Plane G P S Id, p₁.packet 0 = pkt ∧ p₁.globalState = p.globalState ∧ ∀ attempts,
      processPkt ctx buffer attempts p = (retry (attemptPkt ctx .registered 0 d) attempts p₁).map
        fun ended => (ended.1.dstDevice, ended.1, ended.2) := by
  refine ⟨{ parsed ctx pkt p with manager := m, pktSetState := update p.pktSetState 0 slot }, ?_, rfl, ?_⟩
  · exact update_self 0 pkt p.packet
  · intro attempts
    simp only [processPkt, parser, if_true, dispatch, handlePkt, stateful, Bool.not_true, Bool.false_eq_true, if_false, got,
      Option.bind_eq_bind, Option.bind_some, restartSecond, Option.map_eq_bind]
    rfl

/-- The loop for an unknown packet set, with the registration behind it. -/
theorem processPkt_unknown (parser : ctx.nf.nfPktParser buffer = (true, pkt)) (dispatch : ctx.nf.nfPktDispatcher pkt ctx.device = d)
    (stateful : d.hasPktSetState = true)
    (got : getPktSetState ctx.cfg d.pktSetId ctx.pktSetPartition ctx.now p.manager = some (none, m)) :
    ∃ p₁ : Plane G P S Id, p₁.packet 0 = pkt ∧ p₁.globalState = p.globalState ∧ ∀ attempts,
      processPkt ctx buffer attempts p = (retry (attemptPkt ctx .unknown 0 d) attempts p₁).bind
        fun ended => (addPktSetCommit ctx.cfg d.pktSetId ctx.pktSetPartition ctx.now ended.1.manager).map
          fun after => (ended.1.dstDevice, { ended.1 with manager := after }, ended.2) := by
  refine ⟨{ parsed ctx pkt p with manager := m }, ?_, rfl, ?_⟩
  · exact update_self 0 pkt p.packet
  · intro attempts
    simp only [processPkt, parser, if_true, dispatch, handlePkt, stateful, Bool.not_true, Bool.false_eq_true, if_false, got,
      Option.bind_eq_bind, Option.bind_some, restartThird, Option.bind_assoc]
    refine congrArg (Option.bind _) (funext fun ended => ?_)
    rw [Option.map_eq_bind]
    rfl

end Packets

section Transparent
variable {B : Type} {setup : Setup} {core : Fin setup.numCores} {ctx : Context Contention NfState Pkt PktSetState PktSetId B}
variable {headers : B → Bool × Pkt} {buffer : B} {p p' : Plane NfState Pkt PktSetState PktSetId}
variable {failed : List (Attempt Contention NfState)} {last : Attempt Contention NfState} {dst : Nat}

/-- A single execution of the handler that is never aborted, on the packet and the memory
before the first attempt, leaves the same packet, shared state and packet-set states.
`view` is the state that it sees. -/
def Transparent (ctx : Context Contention NfState Pkt PktSetState PktSetId B) (buffer : B) (view : NfState)
    (p p' : Plane NfState Pkt PktSetState PktSetId) : Prop :=
  ∃ dst q, processPkt ctx buffer [single view] p = some (dst, q, []) ∧ q.globalState = p'.globalState ∧
    q.packet 0 = p'.packet 0 ∧ q.manager.pktSetState = p'.manager.pktSetState

/-- A loop over the attempts, its last attempt, and what the failed ones left. -/
theorem loop_attempted {branch : Branch} {d : Dispatch PktSetId} (isNat : ctx.nf = nf setup core.val headers) (known : branch ≠ .noPktSet)
    (lan : d.pktClass = 0) (accepted : nfHasTcpudpHeader (p.packet 0).nextProtoId = true)
    (reached : ∀ past, past <+: failed ++ [last] → Reached setup (viewAfter p.globalState past))
    (ran : retry (attemptPkt ctx branch 0 d) (failed ++ [last]) p = some (p', [])) :
    ∃ u outcome, viewAfter p.globalState (failed ++ [last]) = last.others u.globalState ∧
      CarriedTo setup core.val ctx branch p failed u ∧ Attempted ctx branch d last u true p' outcome := by
  obtain ⟨u, trace, finish⟩ := retry_last ran
  have carries := failed_carriedTo isNat known lan accepted
    (fun past here => reached past (here.trans (List.prefix_append failed [last]))) trace
  obtain ⟨outcome, attempted⟩ := attemptPkt_attempted known finish
  refine ⟨u, outcome, ?_, carries, attempted⟩
  rw [viewAfter, List.foldl_append, carries.state]
  rfl

/-- The first condition is about the packet and the shared state, the second about the
packet set. -/
theorem transparent_iff (isNat : ctx.nf = nf setup core.val headers) (fromLan : ctx.device ≠ setup.cfg.wanDevice)
    (reached : ∀ past, past <+: failed ++ [last] → Reached setup (viewAfter p.globalState past))
    (ran : processPkt ctx buffer (failed ++ [last]) p = some (dst, p', [])) :
    Transparent ctx buffer (viewAfter p.globalState (failed ++ [last])) p p' ↔
      (carried setup core.val (headers buffer).2.nextProtoId ctx.now failed
        (p.globalState, source (headers buffer).2)).2 = source (headers buffer).2 ∧
      (isRegistered ctx (nfPktDispatcher setup (headers buffer).2 ctx.device).pktSetId p.manager = true →
        ctx.mutablePktSetState = true ∨ failed.length % 2 ^ 32 = 0) := by
  have parser : ctx.nf.nfPktParser buffer =
      ((headers buffer).1 && nfHasTcpudpHeader (headers buffer).2.nextProtoId, (headers buffer).2) := by
    rw [isNat]
    rfl
  have dispatcher : ctx.nf.nfPktDispatcher (headers buffer).2 ctx.device = nfPktDispatcher setup (headers buffer).2 ctx.device := by
    rw [isNat]
    rfl
  have lan : (nfPktDispatcher setup (headers buffer).2 ctx.device).pktClass = 0 := by
    rw [nfPktDispatcher, if_pos fromLan]
  have stateful : (nfPktDispatcher setup (headers buffer).2 ctx.device).hasPktSetState = true := by
    rw [nfPktDispatcher, if_pos fromLan]
  generalize (headers buffer).2 = pkt at *
  generalize nfPktDispatcher setup pkt ctx.device = d at *
  cases complete : (headers buffer).1 && nfHasTcpudpHeader pkt.nextProtoId with
  | false =>
    rw [complete] at parser
    rw [processPkt_unparsed parser] at ran
    simp at ran
  | true =>
    rw [complete] at parser
    have accepted : nfHasTcpudpHeader pkt.nextProtoId = true := (Bool.and_eq_true_iff.mp complete).2
    cases got : getPktSetState ctx.cfg d.pktSetId ctx.pktSetPartition ctx.now p.manager with
    | none => simp [processPkt, parser, dispatcher, handlePkt, stateful, got] at ran
    | some result =>
      obtain ⟨slot, m⟩ := result
      obtain ⟨answer, _⟩ := getPktSetState_found got
      have seen := reached _ List.prefix_rfl
      cases slot with
      | some slot =>
        have known : Branch.registered ≠ .noPktSet := by decide
        obtain ⟨p₁, rfl, view₁, processed⟩ := processPkt_registered parser dispatcher stateful got
        rw [processed] at ran
        obtain ⟨⟨t, rest⟩, loop, ended⟩ := Option.map_eq_some_iff.mp ran
        obtain ⟨-, rfl, rfl⟩ : _ ∧ t = p' ∧ rest = [] := by simpa using ended
        rw [← view₁] at reached seen ⊢
        obtain ⟨u, outcome, view, carries, attempted⟩ := loop_attempted isNat known lan accepted reached loop
        rw [view] at seen
        rw [← answer, view, ← single_agrees_iff isNat known lan fromLan accepted seen carries attempted]
        constructor
        · rintro ⟨_, q, again, state, packet, states⟩
          rw [processed] at again
          obtain ⟨⟨r, rest⟩, alone, ended⟩ := Option.map_eq_some_iff.mp again
          obtain ⟨-, rfl, rfl⟩ : _ ∧ r = q ∧ rest = [] := by simpa using ended
          obtain ⟨_, alone⟩ := retry_single.mp alone
          obtain ⟨_, attempted'⟩ := attemptPkt_attempted known alone
          refine ⟨⟨r, alone, state, packet⟩, ?_⟩
          intro _
          exact (states_agree_iff isNat known lan carries attempted attempted').mp states rfl
        · rintro ⟨⟨q, alone, state, packet⟩, states⟩
          obtain ⟨_, attempted'⟩ := attemptPkt_attempted known alone
          refine ⟨q.dstDevice, q, ?_, state, packet, ?_⟩
          · rw [processed]
            exact Option.map_eq_some_iff.mpr ⟨_, retry_single.mpr ⟨rfl, alone⟩, rfl⟩
          · exact (states_agree_iff isNat known lan carries attempted attempted').mpr fun _ => states rfl
      | none =>
        have known : Branch.unknown ≠ .noPktSet := by decide
        obtain ⟨p₁, rfl, view₁, processed⟩ := processPkt_unknown parser dispatcher stateful got
        rw [processed] at ran
        obtain ⟨⟨t, rest⟩, loop, committed⟩ := Option.bind_eq_some_iff.mp ran
        obtain ⟨after, stored, ended⟩ := Option.map_eq_some_iff.mp committed
        obtain ⟨-, rfl, rfl⟩ : _ ∧ { t with manager := after } = p' ∧ rest = [] := by simpa using ended
        rw [← view₁] at reached seen ⊢
        obtain ⟨u, outcome, view, carries, attempted⟩ := loop_attempted isNat known lan accepted reached loop
        rw [view] at seen
        rw [← answer, view, ← single_agrees_iff isNat known lan fromLan accepted seen carries attempted]
        constructor
        · rintro ⟨_, q, again, state, packet, _⟩
          rw [processed] at again
          obtain ⟨⟨r, rest⟩, alone, committed'⟩ := Option.bind_eq_some_iff.mp again
          obtain ⟨after', _, ended⟩ := Option.map_eq_some_iff.mp committed'
          obtain ⟨-, rfl, rfl⟩ : _ ∧ { r with manager := after' } = q ∧ rest = [] := by simpa using ended
          obtain ⟨_, alone⟩ := retry_single.mp alone
          exact ⟨⟨r, alone, state, packet⟩, nofun⟩
        · rintro ⟨⟨q, alone, state, packet⟩, -⟩
          obtain ⟨_, attempted'⟩ := attemptPkt_attempted known alone
          obtain ⟨after', committed', states⟩ := commit_agrees isNat lan carries attempted attempted' stored
          refine ⟨q.dstDevice, { q with manager := after' }, ?_, state, packet, states⟩
          rw [processed]
          refine Option.bind_eq_some_iff.mpr ⟨_, retry_single.mpr ⟨rfl, alone⟩, ?_⟩
          exact Option.map_eq_some_iff.mpr ⟨after', committed', rfl⟩

variable {cfg : NfConfig} {sums : Checksums} {crc32si : Nat → Nat → Nat} {maxNumSessions numCores : Nat} {memory s : NfState}

theorem nfInit_reached (ended : nfInit cfg sums crc32si maxNumSessions numCores memory = some (setup, s))
    (small : 2 * maxNumSessions ≤ 2 ^ 31) (room : 2 * setup.cfg.numAvailExtTuples ≤ setup.map.capacity) {view : NfState}
    {history : List Rewrite} (run : Trace (Step setup) s history view) : Reached setup view := by
  obtain ⟨⟨map, s⟩, sessions, rest⟩ := Option.bind_eq_some_iff.mp ended
  obtain ⟨rfl, rfl⟩ := Prod.mk.inj (Option.some.inj rest)
  obtain ⟨exact, initial⟩ : map.Exact ∧ Invariant cfg map numCores endpoint s fun _ => none :=
    nfInit_invariant sessions small room
  obtain ⟨find, invariant, _⟩ := @run_mapped ⟨cfg, map, numCores, sums⟩ s view history exact room initial run
  exact ⟨exact, room, find, invariant⟩

/-- Retries are transparent exactly when the failed attempts left the source of the packet
and did not count the packet. -/
theorem retries_transparent_iff {B : Type} (setup : Setup) (s : NfState)
    (ended : nfInit cfg sums crc32si maxNumSessions numCores memory = some (setup, s)) (small : 2 * maxNumSessions ≤ 2 ^ 31)
    (room : 2 * setup.cfg.numAvailExtTuples ≤ setup.map.capacity) (core : Fin setup.numCores)
    (ctx : Context Contention NfState Pkt PktSetState PktSetId B) (headers : B → Bool × Pkt) (isNat : ctx.nf = nf setup core.val headers)
    (fromLan : ctx.device ≠ setup.cfg.wanDevice) (buffer : B) (p p' : Plane NfState Pkt PktSetState PktSetId) (dst : Nat)
    (failed : List (Attempt Contention NfState)) (last : Attempt Contention NfState)
    (reachable : ∀ past, past <+: failed ++ [last] → ∃ history, Trace (Step setup) s history (viewAfter p.globalState past))
    (ran : processPkt ctx buffer (failed ++ [last]) p = some (dst, p', [])) :
    Transparent ctx buffer (viewAfter p.globalState (failed ++ [last])) p p' ↔
      (carried setup core.val (headers buffer).2.nextProtoId ctx.now failed
        (p.globalState, source (headers buffer).2)).2 = source (headers buffer).2 ∧
      (isRegistered ctx (nfPktDispatcher setup (headers buffer).2 ctx.device).pktSetId p.manager = true →
        ctx.mutablePktSetState = true ∨ failed.length % 2 ^ 32 = 0) := by
  refine transparent_iff isNat fromLan ?_ ran
  intro past here
  obtain ⟨history, run⟩ := reachable past here
  exact nfInit_reached ended small room run

end Transparent

section Example

/-- Two ports of one address. -/
theorem twoPorts_range : 1024 ≤ 1025 ∧ 1025 < 2 ^ 16 := by decide

def twoPorts : NfConfig := ⟨1, 0xdeadbeef, 1, 1024, 1025, twoPorts_range, Nat.one_pos⟩

def blankMemory : NfState :=
  ⟨fun _ => ⟨0, 0, 0, 0, ⟨0, 0, 0⟩⟩, fun _ => ⟨0, 0, 0⟩, fun _ => ⟨0, 0, 0, ()⟩, fun _ => ⟨0, 0, 0, ()⟩⟩

def oneFlow : Config PktSetId := ⟨1, 1, fun a b => a == b, fun _ => 0, 0, false⟩

def blankManager : Manager PktSetId PktSetState :=
  ⟨fun _ => 0, fun _ => ⟨0, 0, 0, ⟨0, ⟨0, 0, 0, 0, 0⟩, 0⟩⟩, fun _ => ⟨0⟩, fun _ => ⟨false, ⟨0, 0, 0, 0, 0⟩, ⟨0⟩⟩⟩

/-- A TCP packet from the port 2 of the address 1. -/
def lanPacket : Pkt := ⟨0, 0, 64, 6, 0, 1, 3, 2, 4, 0, []⟩

/-- The NAT and the packet-set manager as they are set up, with one core. -/
def initial : Option ((Setup × NfState) × Manager PktSetId PktSetState) := do
  let nat ← nfInit twoPorts ⟨fun _ => 0, fun _ => 0⟩ (fun _ _ => 0) 2 1 blankMemory
  let manager ← initPktSetManager oneFlow blankManager
  return (nat, manager)

theorem initial_nat {setup : Setup} {s : NfState} {m : Manager PktSetId PktSetState} (ended : initial = some ((setup, s), m)) :
    nfInit twoPorts ⟨fun _ => 0, fun _ => 0⟩ (fun _ _ => 0) 2 1 blankMemory = some (setup, s) := by
  simp only [initial, Option.bind_eq_bind, Option.bind_eq_some_iff, Option.pure_def, Option.some.injEq, Prod.mk.injEq] at ended
  obtain ⟨_, sessions, _, _, rfl, _⟩ := ended
  exact sessions

def exampleContext (setup : Setup) : Context Contention NfState Pkt PktSetState PktSetId Unit :=
  ⟨nf setup 0 fun _ => (true, lanPacket), oneFlow, false, 0, 0, 0⟩

def examplePlane (s : NfState) (m : Manager PktSetId PktSetState) : Plane NfState Pkt PktSetState PktSetId :=
  ⟨m, s, 0, fun _ => lanPacket, fun _ => 0, fun _ => 0, [], [], []⟩

/-- An attempt with all locks granted, without other cores. -/
def granted (unlocks : Bool) : Attempt Contention NfState := ⟨id, fun _ _ => true, unlocks⟩

/-- The attempts that are left, and the endpoint of the first session. -/
def sessionAfter (attempts : NfState → List (Attempt Contention NfState)) : Option (Nat × (Nat × Nat)) := do
  let ((setup, s), m) ← initial
  let (_, p, rest) ← processPkt (exampleContext setup) () (attempts s) (examplePlane s m)
  return (rest.length, endpoint (p.globalState.sessionData 0))

/-- An attempt without any lock. -/
def refusing : Attempt Contention NfState := ⟨id, fun _ _ => false, true⟩

theorem viewAfter_alone {s : NfState} {past attempts : List (Attempt Contention NfState)} (here : past <+: attempts)
    (alone : ∀ a ∈ attempts, a.others = id) : viewAfter s past = s := by
  replace alone : ∀ a ∈ past, a.others = id := fun a member => alone a (here.subset member)
  clear here
  induction past with
  | nil => rfl
  | cons a rest ih =>
    rw [viewAfter, List.foldl_cons, alone a (List.mem_cons_self ..)]
    exact ih fun b member => alone b (List.mem_cons_of_mem _ member)

theorem granted_alone : ∀ a ∈ [granted false] ++ [granted true], a.others = id := by simp [granted]

theorem refusing_alone : ∀ a ∈ [refusing] ++ [granted true], a.others = id := by simp [granted, refusing]

/-- `RLU_READER_UNLOCK` fails after the first attempt has rewritten the packet. The second
one creates a session for the external address and port of the first. -/
theorem retries_not_transparent : ∃ setup s m dst p', initial = some ((setup, s), m) ∧
    (∀ past, past <+: [granted false] ++ [granted true] → ∃ history, Trace (Step setup) s history (viewAfter s past)) ∧
    processPkt (exampleContext setup) () ([granted false] ++ [granted true]) (examplePlane s m) = some (dst, p', []) ∧
    ¬ Transparent (exampleContext setup) () (viewAfter s ([granted false] ++ [granted true])) (examplePlane s m) p' := by
  have retried : sessionAfter (fun _ => [granted false, granted true]) = some (0, bswap32 0xdeadbeef, bswap16 1024) := by decide +kernel
  have alone : sessionAfter (fun s => [single s]) = some (0, 1, 2) := by decide +kernel
  simp only [sessionAfter, Option.bind_eq_bind, Option.bind_eq_some_iff, Option.pure_def, Option.some.injEq, Prod.mk.injEq] at retried alone
  obtain ⟨⟨⟨setup, s⟩, m⟩, ended, ⟨dst, p', rest⟩, ran, used, session⟩ := retried
  obtain ⟨_, again, ⟨_, q, _⟩, once, _, session'⟩ := alone
  obtain rfl := Option.some.inj (ended.symm.trans again)
  obtain rfl := List.length_eq_zero_iff.mp used
  refine ⟨setup, s, m, dst, p', ended, ?_, ran, ?_⟩
  · intro past here
    exact ⟨[], viewAfter_alone here granted_alone ▸ .start⟩
  · rintro ⟨_, r, ran', state, _⟩
    rw [viewAfter_alone List.prefix_rfl granted_alone] at ran'
    have same : r = q := by
      have both := ran'.symm.trans once
      simp only [Option.some.injEq, Prod.mk.injEq] at both
      exact both.2.1
    rw [same] at state
    rw [← state, session'] at session
    revert session
    decide

/-- The first attempt is refused a lock: it leaves nothing behind. -/
theorem retries_transparent_refused : ∃ setup s m dst p', initial = some ((setup, s), m) ∧
    processPkt (exampleContext setup) () ([refusing] ++ [granted true]) (examplePlane s m) = some (dst, p', []) ∧
    Transparent (exampleContext setup) () (viewAfter s ([refusing] ++ [granted true])) (examplePlane s m) p' := by
  have retried : sessionAfter (fun _ => [refusing, granted true]) = some (0, 1, 2) := by decide +kernel
  have left : (initial.map fun r => (carried r.1.1 0 6 0 [refusing] (r.1.2, (1, 2))).2) = some (1, 2) := by decide +kernel
  have known : (initial.map fun r => isRegistered (exampleContext r.1.1) ⟨2, 4, 1, 3, 6⟩ r.2) = some false := by decide +kernel
  simp only [sessionAfter, Option.bind_eq_bind, Option.bind_eq_some_iff, Option.pure_def, Option.some.injEq, Prod.mk.injEq] at retried
  obtain ⟨⟨⟨setup, s⟩, m⟩, ended, ⟨dst, p', rest⟩, ran, used, _⟩ := retried
  obtain rfl := List.length_eq_zero_iff.mp used
  refine ⟨setup, s, m, dst, p', ended, ran, ?_⟩
  rw [ended, Option.map_some, Option.some.injEq] at left known
  dsimp only at left known ran
  have sessions := initial_nat ended
  obtain ⟨_, initialised⟩ := nfInit_ends twoPorts ⟨fun _ => 0, fun _ => 0⟩ (fun _ _ => 0) 2 blankMemory
    (show 0 < 1 by decide) (by decide)
  obtain ⟨rfl, rfl⟩ := Prod.mk.inj (Option.some.inj (sessions.symm.trans initialised))
  refine (retries_transparent_iff _ _ sessions (by decide) (by decide) ⟨0, by decide⟩ _ _ rfl (by decide) () _ p' dst
    [refusing] (granted true) ?_ ran).mpr ⟨?_, ?_⟩
  · intro past here
    exact ⟨[], viewAfter_alone here refusing_alone ▸ .start⟩
  · exact left
  · intro registered
    exact absurd (registered.symm.trans known) (by decide)

end Example
end Nfos.FwNat
