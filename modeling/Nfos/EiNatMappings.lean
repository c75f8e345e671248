import Nfos.EiNatUsers
import Nfos.FwNat

/-! The sessions of `ei-nat` over whole runs, whatever the lists of the users are, and what
the two NATs have in common: their mappings are injective and stable. -/
namespace Nfos.EiNat
open Txn Tx Function Vectors Map DoubleChain NfUtil DataPlane Sessions

section Translate
variable {setup : Setup} {l : NfState Log} {find : Session → Option Int} {findUser : Nat → Option Int} {addrOf : Nat → Nat}
variable {key : Session} {now : Int} {s s' : NfState Objects}

/-- The sizes that `nf_init` chooses. -/
structure Setup.Sized (setup : Setup) : Prop where
  sessionMap : setup.sessionMap.Exact
  sessions : 2 * setup.cfg.numAvailExtTuples ≤ setup.sessionMap.capacity
  userMap : setup.userMap.Exact
  users : setup.maxNumUsers ≤ setup.userMap.capacity

/-- The maps work, and that of the users has room for every user. -/
structure Setup.Exact (setup : Setup) : Prop where
  sessionMap : setup.sessionMap.Exact
  userMap : setup.userMap.Exact
  users : setup.maxNumUsers ≤ setup.userMap.capacity

/-- The numbers of the sessions. -/
abbrev sessions (setup : Setup) (s : NfState Objects) : Set Nat := numbers setup.cfg setup.numCores s.sessions

/-- The directories of the sessions and of the users. -/
structure Known (setup : Setup) (s : NfState Objects) (find : Session → Option Int) (findUser : Nat → Option Int)
    (addrOf : Nat → Nat) : Prop where
  sessions : Invariant setup.cfg setup.sessionMap setup.numCores endpoint s.sessions find
  users : Users setup s findUser addrOf

theorem Known.of_relinked {l' : NfState Log} (known : Known setup l.view find findUser addrOf) (relinked : Relinked l l') :
    Known setup l'.view find findUser addrOf where
  sessions := known.sessions.of_data relinked.endpoint relinked.sessionMap relinked.tcp relinked.udp
  users := known.users.of_relinked relinked

/-- What becomes of the directories in a transaction. -/
structure Progress (setup : Setup) (find : Session → Option Int) (s : NfState Objects) (find' : Session → Option Int)
    (s' : NfState Objects) : Prop where
  grows : Grows find find'
  known : ∃ findUser addrOf, Known setup s' find' findUser addrOf
  users : users setup s ⊆ users setup s'

/-- A packet is dropped only when there is no number for a new user. -/
def Translation.Sound (setup : Setup) (find : Session → Option Int) (key : Session) (s : NfState Objects) : Translation → Prop
  | .session ext => ∃ v, find key = some v ∧ ext = sessIdToExtTuple setup.cfg v key.proto
  | .staticMapping ext => natStaticMappingMatch setup key.srcAddr key.srcPort lanDevice key.proto = some ext
  | .dropped => stock setup.numCores setup.maxNumUsers ⊆ EiNat.users setup s

theorem Progress.of_relinked {find' : Session → Option Int} {l' : NfState Log} (progress : Progress setup find s find' l.view)
    (relinked : Relinked l l') : Progress setup find s find' l'.view := by
  obtain ⟨grows, ⟨findUser, addrOf, known⟩, users⟩ := progress
  refine ⟨grows, ⟨findUser, addrOf, known.of_relinked relinked⟩, ?_⟩
  have same : EiNat.users setup l'.view = EiNat.users setup l.view := congrArg (allocated _ _) relinked.userIndexes
  exact users.trans same.ge

theorem ensures_newSession (sized : setup.Sized) (known : Known setup l.view find findUser addrOf)
    (core : Fin setup.numCores) (accepted : nfHasTcpudpHeader key.proto = true) (absent : find key = none) :
    Txs.Ensures (newSession setup core.val key now) l fun result l' => ∃ find', Progress setup find l.view find' l'.view ∧
      match result with
      | none => stock setup.numCores setup.maxNumUsers ⊆ users setup l'.view
      | some v => find' key = some v := by
  refine Txs.ensures_bind (P := fun (result : Option Nat) l' => l'.userMap = l.userMap ∧ l'.userIndexes = l.userIndexes ∧
    ∃ i, result = some i ∧
      Invariant setup.cfg setup.sessionMap setup.numCores endpoint l'.view.sessions (Directory.added find key i)) ?_ ?_
  · apply Txs.ensures_within
    refine (ensures_allocSession sized.sessionMap known.sessions core (fun _ => rfl) accepted absent).mono ?_
    intro result m outcome
    obtain ⟨i, rfl, _, invariant, _⟩ := outcome.some sized.sessions
    exact ⟨rfl, rfl, i, rfl, invariant⟩
  · rintro _ m ⟨userMap, userIndexes, i, rfl, invariant⟩
    have before : Users setup m.view findUser addrOf := known.users.congr (congrArg Log.view userMap) (congrArg Log.view userIndexes)
    have same : users setup m.view = users setup l.view := by
      change allocated _ _ m.userIndexes.view = _
      rw [userIndexes]
      rfl
    refine Txs.ensures_bind (ensures_getUser sized.userMap sized.users before core) ?_
    rintro userIndex m' ⟨sessions, outcome⟩
    have invariant' : Invariant setup.cfg setup.sessionMap setup.numCores endpoint m'.view.sessions (Directory.added find key i) := by
      change Invariant _ _ _ _ m'.sessions.view _
      rw [sessions]
      exact invariant
    obtain ⟨⟨findUser', addrOf', after⟩, more, full⟩ := UserFound.users ⟨sessions, outcome⟩ before
    have progress : Progress setup find l.view (Directory.added find key i) m'.view :=
      ⟨grows_added absent, ⟨_, _, invariant', after⟩, same ▸ more⟩
    cases userIndex with
    | none =>
      apply Txs.ensures_pure
      exact ⟨_, progress, full rfl⟩
    | some u =>
      refine Txs.ensures_bind (insertSession_relinked _ _ m') ?_
      intro _ l' relinked
      apply Txs.ensures_pure
      exact ⟨_, progress.of_relinked relinked, if_pos rfl⟩

theorem ensures_translate (sized : setup.Sized) (known : Known setup l.view find findUser addrOf)
    (core : Fin setup.numCores) (accepted : nfHasTcpudpHeader key.proto = true) :
    Txs.Ensures (translate setup core.val key now) l fun result l' => ∃ find', Progress setup find l.view find' l'.view ∧
      result.Sound setup find' key l'.view := by
  refine Txs.ensures_bind (P := fun (result : Option Int) l' => l' = l ∧ result = find key) ?_ ?_
  · apply Txs.ensures_within
    apply Txs.ensures_on
    intro grants
    apply (post_get_lookup sized.sessionMap known.sessions.lookup key).mono
    rintro result t ⟨rfl, found⟩
    exact ⟨rfl, found⟩
  · rintro result m ⟨rfl, found⟩
    have still : Progress setup find m.view find m.view := ⟨fun _ _ same => same, ⟨_, _, known⟩, subset_rfl⟩
    cases result with
    | some v =>
      refine Txs.ensures_bind (refreshSession_relinked v now m) ?_
      intro _ l' relinked
      apply Txs.ensures_pure
      exact ⟨find, still.of_relinked relinked, v, found.symm, rfl⟩
    | none =>
      dsimp only
      cases mapping : natStaticMappingMatch setup key.srcAddr key.srcPort lanDevice key.proto with
      | some ext =>
        apply Txs.ensures_pure
        exact ⟨find, still, mapping⟩
      | none =>
        refine Txs.ensures_bind (ensures_newSession sized known core accepted found.symm) ?_
        rintro sessIndex m' ⟨find', progress, outcome⟩
        cases sessIndex with
        | none =>
          apply Txs.ensures_pure
          exact ⟨find', progress, outcome⟩
        | some v =>
          refine Txs.ensures_bind (refreshSession_relinked v now m') ?_
          intro _ l' relinked
          apply Txs.ensures_pure
          exact ⟨find', progress.of_relinked relinked, v, outcome, rfl⟩

end Translate

section Runs
variable {setup : Setup} {s s' : NfState Objects}

theorem natPktAction_source {pkt pkt' : Pkt} {ip port dev : Nat} {action : List Action}
    (acted : natPktAction setup pkt ip port dev = some (pkt', action)) : (pkt'.srcAddr, pkt'.srcPort) = (ip, port) := by
  unfold natPktAction at acted
  split at acted
  · contradiction
  · simp only [Option.bind_eq_bind, Option.bind_eq_some_iff] at acted
    obtain ⟨leaf, _, dpo, _, acted⟩ := acted
    split at acted <;> obtain ⟨rfl, rfl⟩ := Prod.mk.inj (Option.some.inj acted) <;> simp

/-- The state and the packet that the handler leaves when it does not abort. -/
theorem pktHandler_returned {core : Nat} {grants : Nat → Nat → Bool} {call : Call (NfState Objects) Pkt Unit Unit}
    {outcome : Outcome (NfState Objects) Pkt Unit Unit} (ran : pktHandler setup core grants call = some outcome)
    (returned : outcome.abort = false) :
    ∃ result l, translate setup core (sessionKey call.pkt) call.time grants
        call.globalState.start = .ok (result, l) ∧ outcome.globalState = l.view ∧
      ∀ ext, result = .session ext ∨ result = .staticMapping ext → (outcome.pkt.srcAddr, outcome.pkt.srcPort) = ext := by
  simp only [pktHandler] at ran
  split at ran
  · contradiction
  · split at ran
    · contradiction
    · obtain rfl := Option.some.inj ran
      contradiction
    · rename_i l translated
      obtain rfl := Option.some.inj ran
      refine ⟨_, l, translated, rfl, ?_⟩
      rintro ext (same | same) <;> contradiction
    · rename_i ext l translated
      obtain ⟨⟨pkt, action⟩, acted, ran⟩ := Option.bind_eq_some_iff.mp ran
      obtain rfl := Option.some.inj ran
      refine ⟨_, l, translated, rfl, ?_⟩
      rintro ext' (same | same)
      · rw [natPktAction_source acted, Translation.session.inj same]
      · contradiction
    · rename_i ext l translated
      obtain ⟨⟨pkt, action⟩, acted, ran⟩ := Option.bind_eq_some_iff.mp ran
      obtain rfl := Option.some.inj ran
      refine ⟨_, l, translated, rfl, ?_⟩
      rintro ext' (same | same)
      · contradiction
      · rw [natPktAction_source acted, Translation.staticMapping.inj same]

/-- A handled packet: the key of its internal endpoint, its time, how its source was found
and its new source. -/
structure Handled where
  key : Session
  time : Int
  translation : Translation
  source : Nat × Nat

/-- A committed call of `pkt_handler` for a packet from the LAN, by any core and with any
locks granted. -/
def Step (setup : Setup) (s : NfState Objects) (e : Handled) (s' : NfState Objects) : Prop :=
  ∃ (core : Fin setup.numCores) (grants : Nat → Nat → Bool) (call : Call (NfState Objects) Pkt Unit Unit)
    (outcome : Outcome (NfState Objects) Pkt Unit Unit) (l : NfState Log),
    call.globalState = s ∧ call.incomingDev ≠ setup.cfg.wanDevice ∧ nfHasTcpudpHeader call.pkt.nextProtoId = true ∧
    e.key = sessionKey call.pkt ∧ e.time = call.time ∧
    translate setup core.val e.key e.time grants s.start = .ok (e.translation, l) ∧
    pktHandler setup core.val grants call = some outcome ∧ outcome.abort = false ∧ outcome.globalState = s' ∧
    e.source = (outcome.pkt.srcAddr, outcome.pkt.srcPort)

/-- What a handled packet says about the access to the shared state. -/
theorem Step.translated {e : Handled} (step : Step setup s e s') : nfHasTcpudpHeader e.key.proto = true ∧
    ∃ (core : Fin setup.numCores) (grants : Nat → Nat → Bool) (l : NfState Log),
      translate setup core.val e.key e.time grants s.start = .ok (e.translation, l) ∧ s' = l.view ∧
      ∀ ext, e.translation = .session ext ∨ e.translation = .staticMapping ext → e.source = ext := by
  obtain ⟨core, grants, call, outcome, l, rfl, _, accepted, key, time, translated, handled, returned, rfl, source⟩ := step
  obtain ⟨_, l', again, state, rewritten⟩ := pktHandler_returned handled returned
  rw [← key, ← time] at again
  obtain ⟨rfl, rfl⟩ := Prod.mk.inj (Except.ok.inj (translated.symm.trans again))
  exact ⟨key ▸ accepted, core, grants, l, translated, state, fun ext kind => source.trans (rewritten ext kind)⟩

/-- A packet that was not dropped before was rewritten. -/
def Handled.rewrite (e : Handled) : Rewrite :=
  (e.key, match e.translation with
    | .session _ | .staticMapping _ => some e.source
    | .dropped => none)

theorem step_mapped (sized : setup.Sized) (unmapped : ∀ k, setup.mappingHash k = none)
    {find : Session → Option Int} {findUser : Nat → Option Int} {addrOf : Nat → Nat} (known : Known setup s find findUser addrOf)
    {e : Handled} (step : Step setup s e s') :
    nfHasTcpudpHeader e.key.proto = true ∧ ∃ find', Progress setup find s find' s' ∧
      (∀ ext, e.rewrite.2 = some ext → ∃ v, find' e.key = some v ∧ ext = sessIdToExtTuple setup.cfg v e.key.proto) ∧
      (e.rewrite.2 = none → stock setup.numCores setup.maxNumUsers ⊆ users setup s') := by
  obtain ⟨accepted, core, grants, l, translated, rfl, rewritten⟩ := step.translated
  obtain ⟨find', progress, sound⟩ := ensures_translate sized (l := s.start) known core accepted grants _ _ translated
  refine ⟨accepted, find', progress, ?_, ?_⟩
  · intro ext same
    cases kind : e.translation with
    | session tuple =>
      rw [kind] at sound
      obtain ⟨v, found, rfl⟩ := sound
      simp only [Handled.rewrite, kind, Option.some.injEq] at same
      exact ⟨v, found, by rw [← same, rewritten _ (Or.inl kind)]⟩
    | staticMapping tuple =>
      rw [kind] at sound
      simp [Translation.Sound, natStaticMappingMatch, unmapped] at sound
    | dropped =>
      simp [Handled.rewrite, kind] at same
  · intro dropped
    cases kind : e.translation with
    | session | staticMapping => simp [Handled.rewrite, kind] at dropped
    | dropped =>
      rw [kind] at sound
      exact sound

/-- A packet is dropped only if there is no number for a new user. -/
theorem run_mapped (sized : setup.Sized) (unmapped : ∀ k, setup.mappingHash k = none)
    {findUser : Nat → Option Int} {addrOf : Nat → Nat} (initial : Known setup s (fun _ => none) findUser addrOf)
    {history : List Handled} (run : Run.Trace (Step setup) s history s') :
    ∃ find, (∃ findUser addrOf, Known setup s' find findUser addrOf) ∧ Mapped setup.cfg find (history.map Handled.rewrite) ∧
      ∀ e ∈ history, e.rewrite.2 = none → stock setup.numCores setup.maxNumUsers ⊆ users setup s' := by
  apply run.rule (P := fun history s' => ∃ find, (∃ findUser addrOf, Known setup s' find findUser addrOf) ∧
    Mapped setup.cfg find (history.map Handled.rewrite) ∧
    ∀ e ∈ history, e.rewrite.2 = none → stock setup.numCores setup.maxNumUsers ⊆ users setup s')
  · refine ⟨_, ⟨_, _, initial⟩, ?_, ?_⟩ <;> simp [Mapped]
  · rintro past t e u _ ⟨find, ⟨findUser, addrOf, known⟩, mapped, dropped⟩ step
    obtain ⟨accepted, find', progress, rewritten, full⟩ := step_mapped sized unmapped known step
    refine ⟨find', progress.known, ?_, ?_⟩
    · rw [List.map_append]
      exact mapped.extend progress.grows accepted rewritten
    · intro e' member gone
      rcases List.mem_append.mp member with old | new
      · exact (dropped e' old gone).trans progress.users
      · obtain rfl := List.mem_singleton.mp new
        exact full gone

theorem nfInit_ends (config : Setup) (crc32si : Nat → Nat → Nat) (maxNumSessions : Nat) (memory : NfState Objects)
    (cores : 0 < config.numCores) (enough : config.numCores ≤ config.cfg.numAvailExtTuples)
    (enoughUsers : config.numCores ≤ config.maxNumUsers) :
    ∃ s, nfInit config crc32si maxNumSessions memory = some ({ config with
      sessionMap := (nfosMapAllocate sessionEqual (sessionHash crc32si) (2 * maxNumSessions) memory.sessions.sessionMap).1
      userMap := (nfosMapAllocate userEqual (userHash crc32si) (2 * config.maxNumUsers) memory.userMap).1 }, s) := by
  obtain ⟨sessions, sessionsInit⟩ := Sessions.nfInit_ends config.cfg crc32si maxNumSessions
    (⟨⟨0, 0⟩, 0, 0, 0, 0⟩ : SessionData) memory.sessions cores enough
  obtain ⟨indexes, usersInit, _⟩ := init_valid cores enoughUsers memory.userIndexes
  refine ⟨⟨sessions, (nfosMapAllocate userEqual (userHash crc32si) (2 * config.maxNumUsers) memory.userMap).2,
    fun _ => ⟨⟨0, 0⟩, 0⟩, indexes⟩, ?_⟩
  simp only [nfInit, sessionsInit, usersInit, Option.bind_eq_bind, Option.bind_some]
  rfl

/-- The NAT as `nf_init` sets it up. -/
theorem nfInit_exact {config : Setup} {crc32si : Nat → Nat → Nat} {maxNumSessions : Nat} {memory : NfState Objects}
    (ended : nfInit config crc32si maxNumSessions memory = some (setup, s)) (positive : 0 < maxNumSessions)
    (small : 2 * maxNumSessions ≤ 2 ^ 31) (smallUsers : 2 * config.maxNumUsers ≤ 2 ^ 31) :
    setup.Exact ∧ Known setup s (fun _ => none) (fun _ => none) (fun _ => 0) ∧ sessions setup s = ∅ ∧ users setup s = ∅ := by
  simp only [nfInit, Option.bind_eq_bind, Option.bind_eq_some_iff] at ended
  obtain ⟨⟨map, sessions⟩, sessionsInit, indexes, usersInit, rest⟩ := ended
  obtain ⟨rfl, rfl⟩ := Prod.mk.inj (Option.some.inj rest)
  obtain ⟨exact, initial, none⟩ : map.Exact ∧ Invariant config.cfg map config.numCores endpoint sessions (fun _ => none) ∧
      numbers config.cfg config.numCores sessions = ∅ := nfInit_empty sessionsInit positive small
  obtain ⟨valid, nobody⟩ := init_allocated config.users usersInit
  have exactUsers : ∀ a b, userEqual a b = true ↔ a = b := fun a b => beq_iff_eq
  have some : 1 ≤ 2 * config.maxNumUsers := by
    have := config.users
    omega
  refine ⟨⟨exact, allocate_exact memory.userMap exactUsers some smallUsers, ?_⟩, ⟨initial, ?_⟩, none, nobody⟩
  · have size := (nextPow2_least some smallUsers).1
    change config.maxNumUsers ≤ nextPow2 (2 * config.maxNumUsers)
    omega
  · constructor
    case lookup => exact allocate_lookup userEqual (userHash crc32si) (2 * config.maxNumUsers) memory.userMap
    case valid => exact ⟨_, valid⟩
    case coherent =>
      change Directory.Coherent _ (allocated config.numCores config.maxNumUsers indexes) _
      rw [nobody]
      exact Directory.empty _

theorem nfInit_known {config : Setup} {crc32si : Nat → Nat → Nat} {maxNumSessions : Nat} {memory : NfState Objects}
    (ended : nfInit config crc32si maxNumSessions memory = some (setup, s)) (small : 2 * maxNumSessions ≤ 2 ^ 31)
    (smallUsers : 2 * config.maxNumUsers ≤ 2 ^ 31) (room : 2 * setup.cfg.numAvailExtTuples ≤ setup.sessionMap.capacity) :
    setup.Sized ∧ Known setup s (fun _ => none) (fun _ => none) fun _ => 0 := by
  have positive : 0 < maxNumSessions := by
    have whole := ended
    simp only [nfInit, Option.bind_eq_bind, Option.bind_eq_some_iff] at whole
    obtain ⟨⟨map, sessions⟩, sessionsInit, indexes, _, rest⟩ := whole
    obtain ⟨rfl, rfl⟩ := Prod.mk.inj (Option.some.inj rest)
    exact Sessions.nfInit_positive sessionsInit room
  obtain ⟨exact, known, _⟩ := nfInit_exact ended positive small smallUsers
  exact ⟨⟨exact.sessionMap, room, exact.userMap, exact.users⟩, known⟩

end Runs
end Nfos.EiNat

namespace Nfos.Sessions
open Txn Run Map DoubleChain NfUtil

/-- Both NATs give every internal endpoint one external address and port, and no address
and port to two endpoints of a protocol, in every run of handlers for packets from the
LAN. The packets are all rewritten, except that `ei-nat` drops one for whose user it has
no number. -/
theorem nat_mappings (crc32si : Nat → Nat → Nat) {maxNumSessions : Nat} (small : 2 * maxNumSessions < 2 ^ 31) :
    (∀ cfg sums numCores memory setup s, FwNat.nfInit cfg sums crc32si maxNumSessions numCores memory = some (setup, s) →
      2 * setup.cfg.numAvailExtTuples ≤ setup.map.capacity →
      ∀ history t, Trace (FwNat.Step setup) s history t →
        Correct setup.cfg setup.map setup.numCores FwNat.endpoint history t ∧ ∀ e ∈ history, e.2 ≠ none) ∧
    (∀ (config : EiNat.Setup) memory setup s, 2 * config.maxNumUsers < 2 ^ 31 →
      EiNat.nfInit config crc32si maxNumSessions memory = some (setup, s) →
      2 * setup.cfg.numAvailExtTuples ≤ setup.sessionMap.capacity → (∀ k, setup.mappingHash k = none) →
      ∀ history t, Trace (EiNat.Step setup) s history t →
        Correct setup.cfg setup.sessionMap setup.numCores EiNat.endpoint (history.map EiNat.Handled.rewrite) t.sessions ∧
        ∀ e ∈ history, e.rewrite.2 = none → stock setup.numCores setup.maxNumUsers ⊆ EiNat.users setup t) := by
  constructor
  · intro cfg sums numCores memory setup s ended room history t run
    exact FwNat.nfInit_mapped ended small.le room run
  · intro config memory setup s smallUsers ended room unmapped history t run
    obtain ⟨sized, known⟩ := EiNat.nfInit_known ended small.le smallUsers.le room
    obtain ⟨find, ⟨findUser, addrOf, known'⟩, mapped, dropped⟩ := EiNat.run_mapped sized unmapped known run
    have few : setup.cfg.numAvailExtTuples ≤ 2 ^ 32 := by
      have bound := sized.sessionMap.bound
      omega
    exact ⟨mapped.correct sized.sessionMap known'.sessions few, dropped⟩

section Example

/-- Two ports of two addresses. -/
def exampleConfig : NfConfig := ⟨1, 0xdeadbeef, 2, 1024, 1025, by decide, by decide⟩

def exampleMemory {D : Type} (d : D) : Store D Objects :=
  ⟨fun _ => ⟨0, 0, 0, 0, ⟨0, 0, 0⟩⟩, fun _ => d, fun _ => ⟨0, 0, 0, ()⟩, fun _ => ⟨0, 0, 0, ()⟩⟩

def exampleSetup : EiNat.Setup where
  cfg := exampleConfig
  sessionMap := ⟨0, sessionEqual, fun _ => 0⟩
  userMap := ⟨0, EiNat.userEqual, fun _ => 0⟩
  maxNumUsers := 2
  users := by decide
  maxNumSessionsPerUser := 8
  numCores := 2
  sums := ⟨fun _ => 0, fun _ => 0⟩
  mappingHash _ := none
  staticMappings _ := ⟨0, 0, false, 0⟩
  ip4Fibs := ⟨fun _ => Mtrie.ip4MtrieInit, fun _ => Mtrie.ply8Init 0 0 0, 0⟩
  ip4PlyPoolCapacity := 5
  loadBalancePool _ := [⟨.forward, 1, 0⟩]
  deviceMacs _ := 0

/-- A UDP packet from `port` of `addr`. -/
def udpPacket (addr port : Nat) : Pkt := ⟨0, 0, 64, 17, 0, addr, 9, port, 2, 0, []⟩

end Example
end Nfos.Sessions

namespace Nfos.FwNat
open Txn NfUtil DataPlane Sessions

section Example

def udpCall (s : NfState) (addr port : Nat) : Call NfState Pkt PktSetState PktSetId :=
  ⟨s, udpPacket addr port, 0, some ⟨0⟩, ⟨0, 0, 0, 0, 0⟩, 0, true⟩

/-- What the handler does with such a packet when it gets every lock, if it does not abort. -/
def udpStep (r : Setup × NfState) (core addr port : Nat) : Option (Rewrite × NfState) := do
  let call := udpCall r.2 addr port
  let outcome ← pktHandler r.1 core (fun _ _ => true) call
  let (ext, _) ← (translate r.1 core (sessionKey call.pkt) 0 (fun _ _ => true) r.2.start).toOption
  if outcome.abort then none
  else some ((sessionKey call.pkt, ext.map fun _ => (outcome.pkt.srcAddr, outcome.pkt.srcPort)), outcome.globalState)

theorem step_of_udpStep {r : Setup × NfState} {core addr port : Nat} {e : Rewrite} {s : NfState}
    (ran : udpStep r core addr port = some (e, s)) (worker : core < r.1.numCores) (lan : 0 ≠ r.1.cfg.wanDevice) :
    Step r.1 r.2 e s := by
  simp only [udpStep, Option.bind_eq_bind, Option.bind_eq_some_iff] at ran
  obtain ⟨outcome, handled, ⟨ext, l⟩, translated, ran⟩ := ran
  split at ran
  · contradiction
  · rename_i returned
    obtain ⟨rfl, rfl⟩ := Prod.mk.inj (Option.some.inj ran)
    refine ⟨⟨core, worker⟩, fun _ _ => true, udpCall r.2 addr port, outcome, ext, l, rfl, lan, rfl, ?_, handled, ?_, rfl, rfl⟩
    · exact Txs.ok_of_toOption translated
    · exact (Bool.not_eq_true _).mp returned

end Example
end Nfos.FwNat

namespace Nfos.EiNat
open Txn NfUtil DataPlane Sessions

section Example

def udpCall (s : NfState Objects) (addr port : Nat) (time : Int) : Call (NfState Objects) Pkt Unit Unit :=
  ⟨s, udpPacket addr port, 0, none, (), time, true⟩

/-- What the handler does with such a packet when it gets every lock, if it does not abort. -/
def udpStep (r : Setup × NfState Objects) (core addr port : Nat) (time : Int) : Option (Handled × NfState Objects) := do
  let call := udpCall r.2 addr port time
  let outcome ← pktHandler r.1 core (fun _ _ => true) call
  let (translation, _) ← (translate r.1 core (sessionKey call.pkt) time (fun _ _ => true) r.2.start).toOption
  if outcome.abort then none
  else some (⟨sessionKey call.pkt, time, translation, (outcome.pkt.srcAddr, outcome.pkt.srcPort)⟩, outcome.globalState)

theorem step_of_udpStep {r : Setup × NfState Objects} {core addr port : Nat} {time : Int} {e : Handled} {s : NfState Objects}
    (ran : udpStep r core addr port time = some (e, s)) (worker : core < r.1.numCores) (lan : 0 ≠ r.1.cfg.wanDevice) :
    Step r.1 r.2 e s := by
  simp only [udpStep, Option.bind_eq_bind, Option.bind_eq_some_iff] at ran
  obtain ⟨outcome, handled, ⟨translation, l⟩, translated, ran⟩ := ran
  split at ran
  · contradiction
  · rename_i returned
    obtain ⟨rfl, rfl⟩ := Prod.mk.inj (Option.some.inj ran)
    refine ⟨⟨core, worker⟩, fun _ _ => true, udpCall r.2 addr port time, outcome, l, rfl, lan, rfl, rfl, rfl, ?_, handled, ?_, rfl, rfl⟩
    · exact Txs.ok_of_toOption translated
    · exact (Bool.not_eq_true _).mp returned

end Example
end Nfos.EiNat

namespace Nfos.Sessions
open Txn Run Casts Map DoubleChain NfUtil

section Example

def fwNatInit : Option (FwNat.Setup × FwNat.NfState) :=
  FwNat.nfInit exampleConfig ⟨fun _ => 0, fun _ => 0⟩ (fun a b => a + b) 4 2 (exampleMemory ⟨0, 0, 0⟩)

def eiNatInit : Option (EiNat.Setup × EiNat.NfState Objects) :=
  EiNat.nfInit exampleSetup (fun a b => a + b) 4
    ⟨exampleMemory ⟨⟨0, 0⟩, 0, 0, 0, 0⟩, fun _ => ⟨0, 0, 0, 0, 0⟩, fun _ => ⟨⟨0, 0⟩, 0⟩, fun _ => ⟨0, 0, 0, ()⟩⟩

theorem eiNatInit_unmapped {setup : EiNat.Setup} {s : EiNat.NfState Objects} (init : eiNatInit = some (setup, s)) (k : Nat) :
    setup.mappingHash k = none := by
  obtain ⟨s', ended⟩ := EiNat.nfInit_ends exampleSetup (fun a b => a + b) 4 ⟨exampleMemory ⟨⟨0, 0⟩, 0, 0, 0, 0⟩,
    fun _ => ⟨0, 0, 0, 0, 0⟩, fun _ => ⟨⟨0, 0⟩, 0⟩, fun _ => ⟨0, 0, 0, ()⟩⟩ (by decide) (by decide) (by decide)
  obtain ⟨rfl, _⟩ := Prod.mk.inj (Option.some.inj (init.symm.trans ended))
  rfl

/-- Two endpoints whose packets are handled by two cores, and a second packet of the first one by the other
core. -/
def threeRewrites : List Rewrite :=
  [(⟨1, 7, 17⟩, some (bswap32 0xdeadbeef, bswap16 1024)), (⟨2, 7, 17⟩, some (bswap32 0xdeadbef0, bswap16 1024)),
    (⟨1, 7, 17⟩, some (bswap32 0xdeadbeef, bswap16 1024))]

theorem nat_mappings_two_cores :
    (∃ setup s t, fwNatInit = some (setup, s) ∧ Trace (FwNat.Step setup) s threeRewrites t ∧
      Correct setup.cfg setup.map setup.numCores FwNat.endpoint threeRewrites t ∧ ∀ e ∈ threeRewrites, e.2 ≠ none) ∧
    ∃ setup s history t, eiNatInit = some (setup, s) ∧ Trace (EiNat.Step setup) s history t ∧
      history.map EiNat.Handled.rewrite = threeRewrites ∧
      Correct setup.cfg setup.sessionMap setup.numCores EiNat.endpoint (history.map EiNat.Handled.rewrite) t.sessions ∧
      ∀ e ∈ history, e.rewrite.2 = none → stock setup.numCores setup.maxNumUsers ⊆ EiNat.users setup t := by
  have small : 2 * 4 < 2 ^ 31 := by decide
  obtain ⟨fw, ei⟩ := nat_mappings (fun a b => a + b) small
  constructor
  · have ran : (do
        let r ← fwNatInit
        let a ← FwNat.udpStep r 0 1 7
        let b ← FwNat.udpStep (r.1, a.2) 1 2 7
        let c ← FwNat.udpStep (r.1, b.2) 1 1 7
        return (decide ([a.1, b.1, c.1] = threeRewrites) && decide (1 < r.1.numCores) && decide (0 ≠ r.1.cfg.wanDevice) &&
          decide (2 * r.1.cfg.numAvailExtTuples ≤ r.1.map.capacity))) = some true := by
      decide +kernel
    simp only [Option.bind_eq_bind, Option.bind_eq_some_iff, Option.pure_def, Option.some.injEq, Bool.and_eq_true,
      decide_eq_true_eq] at ran
    obtain ⟨⟨setup, s⟩, init, ⟨e, s₁⟩, first, ⟨e', s₂⟩, second, ⟨e'', t⟩, third, ⟨⟨rewrites, cores⟩, lan⟩, room⟩ := ran
    have once : Trace (FwNat.Step setup) s ([] ++ [e]) s₁ :=
      .extend .start (FwNat.step_of_udpStep first (Nat.zero_lt_of_lt cores) lan)
    have twice : Trace (FwNat.Step setup) s ([e] ++ [e']) s₂ := once.extend (FwNat.step_of_udpStep second cores lan)
    have run : Trace (FwNat.Step setup) s ([e, e'] ++ [e'']) t := twice.extend (FwNat.step_of_udpStep third cores lan)
    rw [show [e, e'] ++ [e''] = threeRewrites from rewrites] at run
    exact ⟨setup, s, t, init, run, fw _ _ _ _ _ _ init room _ _ run⟩
  · have ran : (do
        let r ← eiNatInit
        let a ← EiNat.udpStep r 0 1 7 0
        let b ← EiNat.udpStep (r.1, a.2) 1 2 7 0
        let c ← EiNat.udpStep (r.1, b.2) 1 1 7 0
        return (decide ([a.1, b.1, c.1].map EiNat.Handled.rewrite = threeRewrites) && decide (1 < r.1.numCores) &&
          decide (0 ≠ r.1.cfg.wanDevice) && decide (2 * r.1.cfg.numAvailExtTuples ≤ r.1.sessionMap.capacity))) = some true := by
      decide +kernel
    simp only [Option.bind_eq_bind, Option.bind_eq_some_iff, Option.pure_def, Option.some.injEq, Bool.and_eq_true,
      decide_eq_true_eq] at ran
    obtain ⟨⟨setup, s⟩, init, ⟨e, s₁⟩, first, ⟨e', s₂⟩, second, ⟨e'', t⟩, third, ⟨⟨rewrites, cores⟩, lan⟩, room⟩ := ran
    have unmapped : ∀ k, setup.mappingHash k = none := eiNatInit_unmapped init
    have once : Trace (EiNat.Step setup) s ([] ++ [e]) s₁ :=
      .extend .start (EiNat.step_of_udpStep first (Nat.zero_lt_of_lt cores) lan)
    have twice : Trace (EiNat.Step setup) s ([e] ++ [e']) s₂ := once.extend (EiNat.step_of_udpStep second cores lan)
    have run : Trace (EiNat.Step setup) s ([e, e'] ++ [e'']) t := twice.extend (EiNat.step_of_udpStep third cores lan)
    exact ⟨setup, s, [e, e', e''], t, init, run, rewrites, ei _ _ _ _ (by decide) init room unmapped _ _ run⟩

end Example
end Nfos.Sessions
