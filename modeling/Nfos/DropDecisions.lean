import Nfos.HandlerRecords
import Nfos.FlowAccumulators
import Nfos.MaglevPaths
import Nfos.MaglevPolicy
import Nfos.EiNatListSteps

/-! When the network functions drop a packet. A handler goes on after `drop_pkt`, so that a
packet with a low time to live may still be sent. -/
namespace Nfos
open Txn DataPlane NfUtil

namespace DataPlane
variable {Ω G P S Id B : Type} {ctx : Context Ω G P S Id B}

/-- If the handler of the committed attempt has called `drop_pkt`, then the device from which the
packet came is reported for it, just under a condition on the branch, on the call and on the device
that the aborted attempts have left. This is about all runs of both variants of `process_pkt`. -/
def DropStands (ctx : Context Ω G P S Id B) (WellFormed : Call G P S Id → Prop) (Stands : Branch → Call G P S Id → Nat → Prop) : Prop :=
  (∀ buffer attempts p dst p' rest, (ctx.nf.nfPktParser buffer).1 = true →
    processPkt ctx buffer attempts p = some (dst, p', rest) →
    ∃ earlier last, callsOf ctx buffer attempts p = earlier ++ [last] ∧ Attempted p'.history earlier last ∧
      (WellFormed last.call → ((.dropPkt ∈ last.outcome.actions → dst = ctx.device) ↔
        Stands last.branch last.call (deliver ctx.device (earlier.flatMap fun r => r.outcome.actions))))) ∧
  (∀ mbufs batchSize attempts p p' rest, processPkts ctx mbufs batchSize attempts p = some (p', rest) →
    ∀ i < batchSize, (ctx.nf.nfPktParser (mbufs i)).1 = true →
    ∃ earlier last, callsOfBatch ctx mbufs batchSize attempts p i = earlier ++ [last] ∧ Attempted (endedAt i p'.history) earlier last ∧
      (WellFormed last.call → ((.dropPkt ∈ last.outcome.actions → p'.dstDevices i = ctx.device) ↔
        Stands last.branch last.call (deliver ctx.device (earlier.flatMap Record.survives)))))

theorem dropStands_of_handlers {Q : P → Prop} {WellFormed : Call G P S Id → Prop} {Stands : Branch → Call G P S Id → Nat → Prop}
    (accepted : ∀ buffer, (ctx.nf.nfPktParser buffer).1 = true → Q (ctx.nf.nfPktParser buffer).2)
    (keeps : ∀ branch pktClass contention call outcome, ctx.handler branch pktClass contention call = some outcome →
      Q call.pkt → Q outcome.pkt)
    (handlers : ∀ branch pkt contention call outcome stale, call.incomingDev = ctx.device → Q call.pkt → WellFormed call →
      ctx.handler branch (ctx.nf.nfPktDispatcher pkt ctx.device).pktClass contention call = some outcome → outcome.abort = false →
      ((.dropPkt ∈ outcome.actions → deliver stale outcome.actions = ctx.device) ↔ Stands branch call stale)) :
    DropStands ctx WellFormed Stands := by
  have decides : ∀ last v stale, Q last.call.pkt → Recorded ctx last v → v.abort = false → WellFormed last.call →
      ((.dropPkt ∈ last.outcome.actions → deliver stale last.outcome.actions = ctx.device) ↔ Stands last.branch last.call stale) := by
    intro last v stale carried recorded returned formed
    obtain ⟨pkt, pktClass⟩ := recorded.pktClass
    obtain ⟨contention, ran⟩ := recorded.ran
    rw [pktClass] at ran
    rw [recorded.branch]
    exact handlers _ _ _ _ _ _ recorded.incomingDev carried formed ran (recorded.abort.trans returned)
  constructor
  · intro buffer attempts p dst p' rest parsed ran
    obtain ⟨earlier, last, v, calls, attempted, carried, recorded, returned, rfl⟩ :=
      processPkt_callsOf parsed (accepted buffer parsed) keeps ran
    exact ⟨earlier, last, calls, attempted, decides last v _ carried recorded returned⟩
  · intro mbufs batchSize attempts p p' rest ran i within parsed
    obtain ⟨earlier, last, v, calls, attempted, carried, recorded, returned, delivered⟩ :=
      processPkts_callsOf within parsed (accepted _ parsed) keeps ran
    rw [delivered]
    exact ⟨earlier, last, calls, attempted, decides last v _ carried recorded returned⟩

section Checks
variable {low : Prop} [Decidable low] {stale device : Nat}

/-- The packet is sent behind the check of its time to live. -/
theorem drop_then_send (dev : Nat) :
    (.dropPkt ∈ (if low then [.dropPkt] else []) ++ [Action.sendPkt dev] →
      deliver stale ((if low then [.dropPkt] else []) ++ [Action.sendPkt dev]) = device) ↔ (low → dev = device) := by
  by_cases holds : low
  · simp [holds, deliver, Action.apply]
  · simp [holds]

theorem drop_then_drop :
    (.dropPkt ∈ (if low then [.dropPkt] else []) ++ [Action.dropPkt] →
      deliver stale ((if low then [.dropPkt] else []) ++ [Action.dropPkt]) = device) ↔ stale = device := by
  by_cases holds : low
  · simp [holds, deliver, Action.apply]
  · simp [holds, deliver, Action.apply]

theorem drop_then_nothing :
    (.dropPkt ∈ (if low then [Action.dropPkt] else []) → deliver stale (if low then [Action.dropPkt] else []) = device) ↔
      (low → stale = device) := by
  by_cases holds : low
  · simp [holds, deliver, Action.apply]
  · simp [holds]

end Checks
end DataPlane

namespace EiNat
open Map DoubleChain Sessions
variable {B : Type} (setup : Setup)

/-- There is one packet class, without packet sets. -/
def nfPktDispatcher (_ : Pkt) (_ : Nat) : Dispatch Unit := ⟨0, (), false⟩

/-- The functions of the NF. The handler of unknown packet sets has no body. -/
def nf (core : Nat) (headers : B → Bool × Pkt) : NF (Nat → Nat → Bool) (NfState Objects) Pkt Unit Unit B where
  nfPktParser buffer := ((headers buffer).1 && nfHasTcpudpHeader (headers buffer).2.nextProtoId, (headers buffer).2)
  nfPktDispatcher := nfPktDispatcher
  pktHandlers _ := pktHandler setup core
  nfUnknownPktSetHandler _ _ := none

/-- The first bucket of the route of a packet. -/
def lookupDpo (incomingDev dstAddr : Nat) : Option Dpo := do
  let leaf0 ← (Mtrie.lookup setup.ip4PlyPoolCapacity setup.ip4Fibs incomingDev (Casts.bswap32 dstAddr)).toOption
  (setup.loadBalancePool (leaf0 >>> 1))[0]?

/-- When a drop stands on a route, where `low` says that the time to live is too low. A packet that
is forwarded goes to the device of the route even then. -/
def RouteStands (dpo0 : Dpo) (low : Prop) (stale device : Nat) : Prop :=
  match dpo0.action with
  | .forward => low → dpo0.sendDevice = device
  | .drop => stale = device
  | .lb => low → stale = device

/-- The directories of the sessions and of the users describe the maps, the allocators and the vectors. -/
def InShape (s : NfState Objects) : Prop := ∃ find findUser addrOf, Known setup s find findUser addrOf

/-- A new session gets no entry in the map, or its user is new and there is no index for a user. -/
def NoSession (s : NfState Objects) (key : Session) : Prop :=
  found setup.sessionMap s.sessions.sessionMap key = none ∧
  natStaticMappingMatch setup key.srcAddr key.srcPort lanDevice key.proto = none ∧
  ((∀ j < setup.sessionMap.capacity, Busy s.sessions.sessionMap j) ∨
    found setup.userMap s.userMap key.srcAddr = none ∧ stock setup.numCores setup.maxNumUsers ⊆ users setup s)

/-- The condition on the state before: the session that the packet has or may get, its time to live
and its route. -/
def Stands (call : Call (NfState Objects) Pkt Unit Unit) (stale : Nat) : Prop :=
  (NoSession setup call.globalState (sessionKey call.pkt) → stale = call.incomingDev) ∧
  (¬ NoSession setup call.globalState (sessionKey call.pkt) →
    ∀ dpo0, lookupDpo setup call.incomingDev call.pkt.dstAddr = some dpo0 →
      RouteStands dpo0 (call.pkt.timeToLive ≤ 1) stale call.incomingDev)

variable {setup}

/-- What the first bucket of a route does with a packet. -/
def dpoActions (dpo0 : Dpo) : List Action :=
  match dpo0.action with
  | .forward => [.sendPkt dpo0.sendDevice]
  | .drop => [.dropPkt]
  | .lb => []

theorem routeStands_iff (dpo0 : Dpo) {low : Prop} [Decidable low] {stale device : Nat} :
    (.dropPkt ∈ (if low then [.dropPkt] else []) ++ dpoActions dpo0 →
      deliver stale ((if low then [.dropPkt] else []) ++ dpoActions dpo0) = device) ↔ RouteStands dpo0 low stale device := by
  unfold dpoActions RouteStands
  cases dpo0.action with
  | forward => exact drop_then_send _
  | drop => exact drop_then_drop
  | lb =>
    rw [List.append_nil]
    exact drop_then_nothing

theorem natPktAction_route {pkt pkt' : Pkt} {ip port incomingDev : Nat} {actions : List Action}
    (ran : natPktAction setup pkt ip port incomingDev = some (pkt', actions)) :
    pkt'.nextProtoId = pkt.nextProtoId ∧
      ∃ dpo0, lookupDpo setup incomingDev pkt.dstAddr = some dpo0 ∧ actions = dpoActions dpo0 := by
  unfold natPktAction at ran
  split at ran
  · contradiction
  · simp only [dstAddr_checksum, Option.bind_eq_bind, Option.bind_eq_some_iff] at ran
    obtain ⟨leaf0, leaf, dpo0, bucket, ran⟩ := ran
    have route : lookupDpo setup incomingDev pkt.dstAddr = some dpo0 := by
      simp [lookupDpo, leaf, bucket]
    unfold dpoActions
    cases action : dpo0.action <;> simp only [action, Option.pure_def, Option.some.injEq, Prod.mk.injEq] at ran
    · obtain ⟨rfl, rfl⟩ := ran
      exact ⟨nextProtoId_checksum, dpo0, route, by rw [action]⟩
    · obtain ⟨rfl, rfl⟩ := ran
      exact ⟨nextProtoId_checksum, dpo0, route, by rw [action]⟩
    · obtain ⟨rfl, rfl⟩ := ran
      exact ⟨nextProtoId_checksum, dpo0, route, by rw [action]⟩

theorem UserFound.none_iff {l l' : NfState Log} {findUser : Nat → Option Int} {addrOf : Nat → Nat} {addr : Nat} {result : Option Int}
    (outcome : UserFound setup findUser addrOf addr l result l') : result = none ↔ Exhausted setup l.view findUser addr := by
  obtain ⟨_, outcome⟩ := outcome
  cases result with
  | none => exact iff_of_true rfl ⟨outcome.1, outcome.2.1⟩
  | some v =>
    refine iff_of_false (by simp) ?_
    rintro ⟨absent, full⟩
    rcases outcome with ⟨found, _⟩ | ⟨u, _, _, created⟩
    · rw [absent] at found
      contradiction
    · have member : u ∈ EiNat.users setup l'.view := created.users ▸ Set.mem_insert u _
      exact created.fresh (full (created.known.stocked member))

section Refusals
variable {find : Session → Option Int} {findUser : Nat → Option Int} {addrOf : Nat → Nat} {l : NfState Log} {key : Session} {now : Int}

theorem ensures_newSession_none (exact : setup.Exact) (known : Known setup l.view find findUser addrOf) (core : Fin setup.numCores)
    (accepted : nfHasTcpudpHeader key.proto = true) (absent : find key = none) :
    Txs.Ensures (newSession setup core.val key now) l fun result _ =>
      result = none ↔ ¬ Room setup l.view ∨ Exhausted setup l.view findUser key.srcAddr := by
  refine Txs.ensures_bind (P := fun (result : Option Nat) m => m.userMap = l.userMap ∧ m.userIndexes = l.userIndexes ∧
    SessionAllocated setup.cfg setup.sessionMap setup.numCores endpoint find key
      (fun d => { d with lastUsed := now, intIp := key.srcAddr, intPort := key.srcPort }) l.view.sessions result m.view.sessions) ?_ ?_
  · apply Txs.ensures_within
    refine (ensures_allocSession exact.sessionMap known.sessions core (fun _ => rfl) accepted absent).mono ?_
    exact fun result m outcome => ⟨rfl, rfl, outcome⟩
  · rintro result m ⟨userMap, userIndexes, outcome⟩
    have before : Users setup m.view findUser addrOf := known.users.congr (congrArg Log.view userMap) (congrArg Log.view userIndexes)
    have same : users setup m.view = users setup l.view := congrArg (allocated _ _) (congrArg Log.view userIndexes)
    cases result with
    | none =>
      obtain ⟨_, full, _⟩ := outcome
      exact Txs.ensures_pure (iff_of_true rfl (.inl full))
    | some i =>
      obtain ⟨room, _⟩ := outcome
      refine Txs.ensures_bind (ensures_getUser exact.userMap exact.users before core) ?_
      intro userIndex m' outcome
      have none := outcome.none_iff
      rw [Exhausted, same] at none
      cases userIndex with
      | none => exact Txs.ensures_pure (iff_of_true rfl (.inr (none.mp rfl)))
      | some u =>
        refine Txs.ensures_bind (insertSession_relinked _ _ m') ?_
        intro _ l' _
        apply Txs.ensures_pure
        refine iff_of_false (by simp) ?_
        rintro (full | exhausted)
        · exact full room
        · simpa using none.mpr exhausted

theorem ensures_translate_dropped (exact : setup.Exact) (known : Known setup l.view find findUser addrOf) (core : Fin setup.numCores)
    (accepted : nfHasTcpudpHeader key.proto = true) :
    Txs.Ensures (translate setup core.val key now) l fun result _ => result = .dropped ↔ NoSession setup l.view key := by
  have session : found setup.sessionMap l.view.sessions.sessionMap key = find key := known.sessions.lookup.found_eq exact.sessionMap key
  have user : found setup.userMap l.view.userMap key.srcAddr = findUser key.srcAddr := known.users.lookup.found_eq exact.userMap _
  unfold NoSession
  rw [session, user]
  refine Txs.ensures_bind (P := fun (result : Option Int) l' => l' = l ∧ result = find key) ?_ ?_
  · apply Txs.ensures_within
    apply Txs.ensures_on
    intro grants
    apply (post_get_lookup exact.sessionMap known.sessions.lookup key).mono
    rintro result t ⟨rfl, found⟩
    exact ⟨rfl, found⟩
  · rintro result m ⟨rfl, found⟩
    cases result with
    | some v =>
      refine Txs.ensures_bind (refreshSession_relinked v now m) ?_
      intro _ l' _
      apply Txs.ensures_pure
      simp [← found]
    | none =>
      dsimp only
      cases mapping : natStaticMappingMatch setup key.srcAddr key.srcPort lanDevice key.proto with
      | some ext =>
        apply Txs.ensures_pure
        simp
      | none =>
        refine Txs.ensures_bind (ensures_newSession_none exact known core accepted found.symm) ?_
        intro sessIndex m' failed
        have refused : (find key = none ∧ (none : Option (Nat × Nat)) = none ∧
            ((∀ j < setup.sessionMap.capacity, Busy m.view.sessions.sessionMap j) ∨
              findUser key.srcAddr = none ∧ stock setup.numCores setup.maxNumUsers ⊆ users setup m.view)) ↔ sessIndex = none := by
          rw [failed, Room, Exhausted]
          simp [← found]
        rw [refused]
        cases sessIndex with
        | none => exact Txs.ensures_pure (iff_of_true rfl rfl)
        | some v =>
          refine Txs.ensures_bind (refreshSession_relinked v now m') ?_
          intro _ l' _
          apply Txs.ensures_pure
          simp

end Refusals

theorem step_noSession (exact : setup.Exact) {s : NfState Objects} (formed : InShape setup s) (core : Fin setup.numCores) {key : Session}
    (accepted : nfHasTcpudpHeader key.proto = true) {now : Int} {grants : Nat → Nat → Bool} {result : Translation} {l : NfState Log}
    (translated : translate setup core.val key now grants s.start = .ok (result, l)) :
    result = .dropped ↔ NoSession setup s key := by
  obtain ⟨find, findUser, addrOf, known⟩ := formed
  exact ensures_translate_dropped (l := s.start) exact known core accepted grants _ _ translated

theorem pktHandler_stands (exact : setup.Exact) {core : Fin setup.numCores} {grants : Nat → Nat → Bool}
    {call : Call (NfState Objects) Pkt Unit Unit} (formed : InShape setup call.globalState)
    (accepted : nfHasTcpudpHeader call.pkt.nextProtoId = true) {outcome : Outcome (NfState Objects) Pkt Unit Unit}
    (ran : pktHandler setup core.val grants call = some outcome) (returned : outcome.abort = false) {stale : Nat} :
    (.dropPkt ∈ outcome.actions → deliver stale outcome.actions = call.incomingDev) ↔ Stands setup call stale := by
  unfold pktHandler at ran
  dsimp only at ran
  by_cases wan : call.incomingDev = setup.cfg.wanDevice
  · simp [wan] at ran
  · simp only [if_neg wan] at ran
    have served {ip port : Nat} {pkt : Pkt} {action : List Action}
        (session : ¬ NoSession setup call.globalState (sessionKey call.pkt))
        (acted : natPktAction setup call.pkt ip port call.incomingDev = some (pkt, action)) :
        (.dropPkt ∈ (if call.pkt.timeToLive ≤ 1 then [Action.dropPkt] else []) ++ action →
          deliver stale ((if call.pkt.timeToLive ≤ 1 then [Action.dropPkt] else []) ++ action) = call.incomingDev) ↔
          Stands setup call stale := by
      obtain ⟨_, dpo0, route, rfl⟩ := natPktAction_route acted
      rw [routeStands_iff, Stands]
      constructor
      · intro stands
        refine ⟨fun none => absurd none session, fun _ dpo' same => ?_⟩
        rw [← Option.some.inj (route.symm.trans same)]
        exact stands
      · exact fun stands => stands.2 session dpo0 route
    split at ran
    · contradiction
    · obtain rfl := Option.some.inj ran
      contradiction
    · rename_i l translated
      obtain rfl := Option.some.inj ran
      have none := (step_noSession exact formed core accepted translated).mp rfl
      rw [drop_then_drop, Stands]
      exact ⟨fun stands => ⟨fun _ => stands, fun session => absurd none session⟩, fun stands => stands.1 none⟩
    · rename_i ext l translated
      simp only [Option.bind_eq_bind, Option.bind_eq_some_iff, Option.pure_def, Option.some.injEq] at ran
      obtain ⟨⟨pkt, action⟩, acted, rfl⟩ := ran
      apply served ?_ acted
      rw [← step_noSession exact formed core accepted translated]
      simp
    · rename_i ext l translated
      simp only [Option.bind_eq_bind, Option.bind_eq_some_iff, Option.pure_def, Option.some.injEq] at ran
      obtain ⟨⟨pkt, action⟩, acted, rfl⟩ := ran
      apply served ?_ acted
      rw [← step_noSession exact formed core accepted translated]
      simp

theorem pktHandler_nextProtoId {core : Nat} {grants : Nat → Nat → Bool} {call : Call (NfState Objects) Pkt Unit Unit}
    {outcome : Outcome (NfState Objects) Pkt Unit Unit} (ran : pktHandler setup core grants call = some outcome) :
    outcome.pkt.nextProtoId = call.pkt.nextProtoId := by
  unfold pktHandler at ran
  dsimp only at ran
  split at ran
  · contradiction
  · split at ran
    · contradiction
    · obtain rfl := Option.some.inj ran
      rfl
    · obtain rfl := Option.some.inj ran
      rfl
    · simp only [Option.bind_eq_bind, Option.bind_eq_some_iff, Option.pure_def, Option.some.injEq] at ran
      obtain ⟨⟨pkt, action⟩, acted, rfl⟩ := ran
      exact (natPktAction_route acted).1
    · simp only [Option.bind_eq_bind, Option.bind_eq_some_iff, Option.pure_def, Option.some.injEq] at ran
      obtain ⟨⟨pkt, action⟩, acted, rfl⟩ := ran
      exact (natPktAction_route acted).1

theorem drop_stands (exact : setup.Exact) {headers : B → Bool × Pkt} {core : Fin setup.numCores}
    {ctx : Context (Nat → Nat → Bool) (NfState Objects) Pkt Unit Unit B} (isNat : ctx.nf = nf setup core.val headers) :
    DropStands ctx (fun call => InShape setup call.globalState) fun _ call stale => Stands setup call stale := by
  have handler (branch : Branch) (pktClass : Nat) (contention : Nat → Nat → Bool) (call : Call (NfState Objects) Pkt Unit Unit)
      (outcome : Outcome (NfState Objects) Pkt Unit Unit) (ran : ctx.handler branch pktClass contention call = some outcome) :
      pktHandler setup core.val contention call = some outcome := by
    unfold Context.handler at ran
    rw [isNat] at ran
    cases branch with
    | unknown => simp [nf] at ran
    | noPktSet | registered => exact ran
  apply dropStands_of_handlers (Q := fun pkt => nfHasTcpudpHeader pkt.nextProtoId = true)
  · intro buffer parsed
    rw [isNat] at parsed ⊢
    exact (Bool.and_eq_true_iff.mp parsed).2
  · intro branch pktClass contention call outcome ran accepted
    rw [pktHandler_nextProtoId (handler _ _ _ _ _ ran)]
    exact accepted
  · intro branch pkt contention call outcome stale incomingDev accepted formed ran returned
    rw [← incomingDev]
    exact pktHandler_stands exact formed accepted (handler _ _ _ _ _ ran) returned

end EiNat

namespace Fw
open EiNat
variable {B : Type} {setup : Setup} {headers : B → Bool × Pkt} {ctx : Context Unit Unit Pkt PktSetState PktSetId B}

/-- The condition for a packet from the WAN is on the device of its flow, for one from the LAN on its
route. -/
def Stands (setup : Setup) (branch : Branch) (call : Call Unit Pkt PktSetState PktSetId) (stale : Nat) : Prop :=
  if call.incomingDev = setup.wanDevice then
    if branch = .unknown then stale = call.incomingDev
    else ∀ s, call.localState = some s → call.pkt.timeToLive ≤ 1 → s.internalDevice = call.incomingDev
  else ∀ dpo0, lookupDpo setup call.incomingDev call.pkt.dstAddr = some dpo0 →
    RouteStands dpo0 (call.pkt.timeToLive ≤ 1) stale call.incomingDev

theorem forwardPkt_lan {pkt pkt' : Pkt} {incomingDev internalDevice : Nat} {actions : List Action} (lan : incomingDev ≠ setup.wanDevice)
    (ran : forwardPkt setup pkt incomingDev internalDevice = some (pkt', actions)) :
    ∃ dpo0, lookupDpo setup incomingDev pkt.dstAddr = some dpo0 ∧ actions = dpoActions dpo0 := by
  rw [forwardPkt, if_neg lan] at ran
  simp only [Option.bind_eq_bind, Option.bind_eq_some_iff] at ran
  obtain ⟨dpo0, route, ran⟩ := ran
  refine ⟨dpo0, route, ?_⟩
  unfold dpoActions
  cases action : dpo0.action <;> simp only [action, Option.pure_def, Option.some.injEq, Prod.mk.injEq] at ran
  · exact ran.2.symm
  · exact ran.2.symm
  · exact ran.2.symm

/-- Both handlers do the same with a packet from the LAN. -/
theorem lan_stands {branch : Branch} {call : Call Unit Pkt PktSetState PktSetId} {pkt : Pkt} {internalDevice stale : Nat}
    {actions : List Action} (lan : call.incomingDev ≠ setup.wanDevice)
    (forwarded : forwardPkt setup call.pkt call.incomingDev internalDevice = some (pkt, actions)) :
    (.dropPkt ∈ ttlActions call.pkt ++ actions → deliver stale (ttlActions call.pkt ++ actions) = call.incomingDev) ↔
      Stands setup branch call stale := by
  obtain ⟨dpo0, route, rfl⟩ := forwardPkt_lan lan forwarded
  rw [ttlActions, routeStands_iff, Stands, if_neg lan]
  constructor
  · intro stands dpo' same
    rw [← Option.some.inj (route.symm.trans same)]
    exact stands
  · exact fun stands => stands dpo0 route

theorem drop_stands (isFw : ctx.nf = nf setup headers) : DropStands ctx (fun _ => True) (Stands setup) := by
  apply dropStands_of_handlers (Q := fun _ => True) (fun _ _ => trivial) (fun _ _ _ _ _ _ _ => trivial)
  intro branch pkt contention call outcome stale incomingDev _ _ ran _
  unfold Context.handler at ran
  rw [isFw] at ran
  rw [← incomingDev]
  cases branch with
  | unknown =>
    have ran := nfUnknownPktSetHandler_iff.mp ran
    split at ran
    · rename_i wan
      subst ran
      simp [Stands, wan, deliver, Action.apply]
    · rename_i lan
      obtain ⟨pkt, action, forwarded, rfl⟩ := ran
      exact lan_stands lan forwarded
  | noPktSet | registered =>
    obtain ⟨state, pkt, action, present, forwarded, rfl⟩ := pktHandler_iff.mp ran
    by_cases wan : call.incomingDev = setup.wanDevice
    · rw [forwardPkt, if_pos wan] at forwarded
      obtain ⟨_, rfl⟩ := Prod.mk.inj (Option.some.inj forwarded)
      rw [Stands, if_pos wan, if_neg (by simp), ttlActions, drop_then_send]
      simp [present]
    · exact lan_stands wan forwarded

end Fw

namespace FwNat
open Map DoubleChain Sessions
variable {B : Type} {setup : Setup} {headers : B → Bool × Pkt} {find : Session → Option Int}
variable {ctx : Context Contention NfState Pkt PktSetState PktSetId B}

/-- The directory of the sessions describes the map, the allocators and the vector. -/
def InShape (setup : Setup) (s : NfState) : Prop := ∃ find, Invariant setup.cfg setup.map setup.numCores endpoint s find

/-- A new session gets no entry in the map. -/
def NoSession (setup : Setup) (s : NfState) (key : Session) : Prop :=
  found setup.map s.sessionMap key = none ∧ ∀ j < setup.map.capacity, Busy s.sessionMap j

/-- No flow is too large, and a packet with a session is always sent. -/
def Stands (setup : Setup) (call : DataPlane.Call NfState Pkt PktSetState PktSetId) (stale : Nat) : Prop :=
  (NoSession setup call.globalState (sessionKey call.pkt) → stale = call.incomingDev) ∧
  (¬ NoSession setup call.globalState (sessionKey call.pkt) → 1 < call.pkt.timeToLive)

theorem ensures_translate_none {l : Store SessionData Log} {key : Session} {now : Int} (exact : setup.map.Exact)
    (invariant : Invariant setup.cfg setup.map setup.numCores endpoint l.view find) (core : Fin setup.numCores)
    (accepted : nfHasTcpudpHeader key.proto = true) :
    Txs.Ensures (translate setup core.val key now) l fun result _ => result = none ↔ NoSession setup l.view key := by
  have session : found setup.map l.view.sessionMap key = find key := invariant.lookup.found_eq exact key
  unfold NoSession
  rw [session]
  refine Txs.ensures_bind (P := fun sessIndex _ => sessIndex = none ↔ find key = none ∧ ∀ j < setup.map.capacity, Busy l.view.sessionMap j) ?_ ?_
  · refine Txs.ensures_bind (P := fun (sessIndex : Option Int) l' => l' = l ∧ sessIndex = find key) ?_ ?_
    · apply Txs.ensures_on
      intro grants
      apply (post_get_lookup exact invariant.lookup key).mono
      rintro result t ⟨rfl, found⟩
      exact ⟨rfl, found⟩
    · rintro sessIndex m ⟨rfl, found⟩
      cases sessIndex with
      | some v =>
        apply Txs.ensures_pure
        simp [← found]
      | none =>
        refine Txs.ensures_bind (ensures_allocSession exact invariant core (fun _ => rfl) accepted found.symm) ?_
        intro result l' outcome
        apply Txs.ensures_pure
        cases result with
        | none =>
          obtain ⟨_, full, _⟩ := outcome
          refine iff_of_true rfl ⟨found.symm, fun j below => ?_⟩
          by_contra free
          exact full ⟨j, below, free⟩
        | some i =>
          obtain ⟨⟨j, below, free⟩, _⟩ := outcome
          exact iff_of_false (by simp) fun full => free (full.2 j below)
  · intro sessIndex m none
    cases sessIndex with
    | none => exact Txs.ensures_pure (iff_of_true rfl (none.mp rfl))
    | some v =>
      refine Txs.ensures_bind (ensures_refreshSession v.toNat) ?_
      intro _ l' _
      apply Txs.ensures_pure
      exact iff_of_false (by simp) fun refused => by simpa using none.mpr refused

theorem u16_other_ne (dev : Nat) : Casts.u16 (1 - dev) ≠ dev := by
  unfold Casts.u16
  omega

theorem pktHandler_stands (exact : setup.map.Exact) {core : Fin setup.numCores} {grants : Nat → Nat → Bool}
    {call : DataPlane.Call NfState Pkt PktSetState PktSetId} (formed : InShape setup call.globalState)
    (accepted : nfHasTcpudpHeader call.pkt.nextProtoId = true) {outcome : Outcome NfState Pkt PktSetState PktSetId}
    (ran : pktHandler setup core.val grants call = some outcome) (returned : outcome.abort = false) {stale : Nat} :
    (.dropPkt ∈ outcome.actions → deliver stale outcome.actions = call.incomingDev) ↔ Stands setup call stale := by
  obtain ⟨find, invariant⟩ := formed
  simp only [pktHandler, Option.bind_eq_bind, Option.bind_eq_some_iff] at ran
  obtain ⟨state, given, ran⟩ := ran
  rw [if_neg (flowSize_le _)] at ran
  split at ran
  · contradiction
  · obtain rfl := Option.some.inj ran
    contradiction
  · rename_i l translated
    obtain rfl := Option.some.inj ran
    have none := (ensures_translate_none (l := call.globalState.start) exact invariant core accepted _ _ _ translated).mp rfl
    rw [drop_then_drop, Stands]
    exact ⟨fun stands => ⟨fun _ => stands, fun session => absurd none session⟩, fun stands => stands.1 none⟩
  · rename_i extIp extPort l translated
    have session := ensures_translate_none (l := call.globalState.start) exact invariant core accepted _ _ _ translated
    have served : ¬ NoSession setup call.globalState (sessionKey call.pkt) := fun none => by simpa using session.mpr none
    simp only [Option.bind_eq_some_iff, natPktAction] at ran
    obtain ⟨⟨pkt, dstDev⟩, acted, ran⟩ := ran
    obtain rfl := Option.some.inj ran
    split at acted
    · contradiction
    · obtain ⟨rfl, rfl⟩ := Prod.mk.inj (Option.some.inj acted)
      rw [drop_then_send, Stands]
      simp only [served, false_implies, not_false_eq_true, true_implies, true_and, u16_other_ne, imp_false, not_le]

theorem pktHandler_nextProtoId {core : Nat} {grants : Nat → Nat → Bool} {call : DataPlane.Call NfState Pkt PktSetState PktSetId}
    {outcome : Outcome NfState Pkt PktSetState PktSetId} (ran : pktHandler setup core grants call = some outcome) :
    outcome.pkt.nextProtoId = call.pkt.nextProtoId := by
  simp only [pktHandler, Option.bind_eq_bind, Option.bind_eq_some_iff] at ran
  obtain ⟨state, given, ran⟩ := ran
  split at ran
  · contradiction
  · obtain rfl := Option.some.inj ran
    rfl
  · obtain rfl := Option.some.inj ran
    rfl
  · simp only [Option.bind_eq_some_iff, natPktAction] at ran
    obtain ⟨⟨pkt, dstDev⟩, acted, ran⟩ := ran
    obtain rfl := Option.some.inj ran
    split at acted
    · contradiction
    · obtain ⟨rfl, rfl⟩ := Prod.mk.inj (Option.some.inj acted)
      exact nextProtoId_checksum

theorem drop_stands (exact : setup.map.Exact) {core : Fin setup.numCores} (isNat : ctx.nf = nf setup core.val headers) :
    DropStands ctx (fun call => InShape setup call.globalState) fun _ call stale => Stands setup call stale := by
  -- the handler of unknown packet sets runs the other one with a state on its stack
  have handler (branch : Branch) (pktClass : Nat) (contention : Contention) (call : DataPlane.Call NfState Pkt PktSetState PktSetId)
      (outcome : Outcome NfState Pkt PktSetState PktSetId) (ran : ctx.handler branch pktClass contention call = some outcome) :
      ∃ localState inner, pktHandler setup core.val contention { call with localState := localState } = some inner ∧
        outcome.abort = inner.abort ∧ outcome.actions = inner.actions ∧ outcome.pkt = inner.pkt := by
    unfold Context.handler at ran
    rw [isNat] at ran
    cases branch with
    | unknown =>
      change nfUnknownPktSetHandler setup core.val contention call = some outcome at ran
      simp only [nfUnknownPktSetHandler, Option.bind_eq_bind, Option.bind_eq_some_iff, Option.pure_def, Option.some.injEq] at ran
      obtain ⟨inner, handled, rfl⟩ := ran
      exact ⟨_, inner, handled, rfl, rfl, rfl⟩
    | noPktSet | registered =>
      change pktHandlers setup core.val _ contention call = some outcome at ran
      unfold pktHandlers at ran
      split at ran
      · exact ⟨_, outcome, ran, rfl, rfl, rfl⟩
      · contradiction
  apply dropStands_of_handlers (Q := fun pkt => nfHasTcpudpHeader pkt.nextProtoId = true)
  · intro buffer parsed
    rw [isNat] at parsed ⊢
    exact (Bool.and_eq_true_iff.mp parsed).2
  · intro branch pktClass contention call outcome ran accepted
    obtain ⟨_, inner, handled, _, _, same⟩ := handler _ _ _ _ _ ran
    rw [same, pktHandler_nextProtoId handled]
    exact accepted
  · intro branch pkt contention call outcome stale incomingDev accepted formed ran returned
    obtain ⟨localState, inner, handled, abort, actions, _⟩ := handler _ _ _ _ _ ran
    rw [← incomingDev, actions]
    exact @pktHandler_stands setup exact core contention { call with localState := localState } formed accepted inner handled
      (abort.symm.trans returned) stale

end FwNat

namespace Maglev
open EiNat
variable {B : Type} {setup : Setup} {headers : B → Bool × Pkt}
variable {ctx : Context (Nat → Nat → Bool) (NfState Vectors.Elements) Pkt PktSetState PktSetId B}

/-- As `Serves` says of all states that are reached. -/
structure InShape (setup : Setup) (call : Call (NfState Vectors.Elements) Pkt PktSetState PktSetId) : Prop where
  balanced : Balanced setup call.globalState.tables.cht
  lan : ∀ i ∈ call.globalState.alive setup, setup.isWan (call.globalState.backendInfo i).dev = false
  assigned : ∀ state, call.localState = some state → ∃ i < setup.backendCapacity, state = ⟨(i : Int)⟩

/-- When a drop stands for a packet that is balanced. It is sent while a backend is alive. -/
def BackendStands (setup : Setup) (call : Call (NfState Vectors.Elements) Pkt PktSetState PktSetId) (stale : Nat) : Prop :=
  ((call.globalState.alive setup).Nonempty → call.pkt.timeToLive ≠ 1) ∧
  (¬ (call.globalState.alive setup).Nonempty → stale = call.incomingDev)

/-- The route is only looked at for a registered flow. -/
def Stands (setup : Setup) (branch : Branch) (call : Call (NfState Vectors.Elements) Pkt PktSetState PktSetId) (stale : Nat) : Prop :=
  if branch = .unknown then BackendStands setup call stale
  else ∀ lb0 dpo0, lookupLb setup call.incomingDev call.pkt.dstAddr = some (lb0, dpo0) →
    match dpo0.action with
    | .drop => stale = call.incomingDev
    | .forward => call.pkt.timeToLive = 1 → stale = call.incomingDev
    | .lb => BackendStands setup call stale

theorem backendStands_sent {call : Call (NfState Vectors.Elements) Pkt PktSetState PktSetId} {i stale : Nat} (formed : InShape setup call)
    (client : setup.isWan call.incomingDev = true) (present : i ∈ call.globalState.alive setup) :
    (.dropPkt ∈ ttlActions call.pkt ++ [.sendPkt (call.globalState.backendInfo i).dev] →
      deliver stale (ttlActions call.pkt ++ [.sendPkt (call.globalState.backendInfo i).dev]) = call.incomingDev) ↔
      BackendStands setup call stale := by
  have elsewhere : (call.globalState.backendInfo i).dev ≠ call.incomingDev := by
    intro same
    have lan := formed.lan i present
    rw [same, client] at lan
    contradiction
  have nonempty : (call.globalState.alive setup).Nonempty := ⟨i, present⟩
  rw [ttlActions, drop_then_send, BackendStands]
  simp only [elsewhere, nonempty, imp_false, true_implies, not_true_eq_false, false_implies, and_true, ne_eq]

theorem backendStands_dropped {call : Call (NfState Vectors.Elements) Pkt PktSetState PktSetId} {stale : Nat}
    (none : ¬ (call.globalState.alive setup).Nonempty) :
    (.dropPkt ∈ ttlActions call.pkt ++ [.dropPkt] → deliver stale (ttlActions call.pkt ++ [.dropPkt]) = call.incomingDev) ↔
      BackendStands setup call stale := by
  rw [ttlActions, drop_then_drop, BackendStands]
  simp only [none, false_implies, not_false_eq_true, true_implies, true_and]

theorem unknown_stands {grants : Nat → Nat → Bool} {call : Call (NfState Vectors.Elements) Pkt PktSetState PktSetId}
    {outcome : Outcome (NfState Vectors.Elements) Pkt PktSetState PktSetId} {stale : Nat} (formed : InShape setup call)
    (client : setup.isWan call.incomingDev = true) (ran : nfUnknownPktSetHandler setup grants call = some outcome) :
    (.dropPkt ∈ outcome.actions → deliver stale outcome.actions = call.incomingDev) ↔ BackendStands setup call stale := by
  obtain rfl := Option.some.inj ((formed.balanced.nfUnknownPktSetHandler formed.lan).symm.trans ran)
  have live := formed.balanced.preferred_nonempty call.pkt
  unfold unknownOutcome
  cases preferred : preferredFor setup call.globalState call.pkt with
  | none => exact backendStands_dropped (by simpa [preferred] using live.not)
  | some i => exact backendStands_sent formed client (formed.balanced.preferred_alive preferred)

theorem client_stands {grants : Nat → Nat → Bool} {call : Call (NfState Vectors.Elements) Pkt PktSetState PktSetId}
    {outcome : Outcome (NfState Vectors.Elements) Pkt PktSetState PktSetId} {branch : Branch} {stale : Nat} (formed : InShape setup call)
    (client : setup.isWan call.incomingDev = true) (known : branch ≠ .unknown) (ran : clientPktHandler setup grants call = some outcome) :
    (.dropPkt ∈ outcome.actions → deliver stale outcome.actions = call.incomingDev) ↔ Stands setup branch call stale := by
  have handled := ran
  simp only [clientPktHandler, Option.bind_eq_bind, Option.bind_eq_some_iff] at handled
  obtain ⟨state, given, ⟨lb0, dpo0⟩, route, _⟩ := handled
  obtain ⟨assigned, within, rfl⟩ := formed.assigned state given
  have started : Balanced setup call.globalState.start.view.tables.cht := formed.balanced
  have found : assignedBackend setup (getHashFromPkt setup call.pkt) (assigned : Int) grants call.globalState.start = _ :=
    started.assignedBackend call.pkt within
  rw [NfState.view_start] at found
  obtain rfl := Option.some.inj ((clientPktHandler_route given route found).symm.trans ran)
  have decided : Stands setup branch call stale ↔ match dpo0.action with
      | .drop => stale = call.incomingDev
      | .forward => call.pkt.timeToLive = 1 → stale = call.incomingDev
      | .lb => BackendStands setup call stale := by
    rw [Stands, if_neg known, route]
    constructor
    · exact fun stands => stands lb0 dpo0 rfl
    · intro stands lb dpo same
      obtain ⟨rfl, rfl⟩ := Prod.mk.inj (Option.some.inj same)
      exact stands
  rw [decided]
  cases action : dpo0.action with
  | drop => exact drop_then_drop
  | forward => exact drop_then_nothing
  | lb =>
    cases served : servedBy setup call.globalState call.pkt assigned with
    | none =>
      refine backendStands_dropped fun nonempty => ?_
      unfold servedBy at served
      split at served
      · contradiction
      · have live := (formed.balanced.preferred_nonempty call.pkt).mpr nonempty
        simp [served] at live
    | some i =>
      have alive := formed.balanced.served_alive within served
      have sent : ∀ pkt, (sendPktToBackend setup pkt (call.globalState.backendInfo i)).2 = _ :=
        fun pkt => (sendPktToBackend_lan (formed.lan i alive)).1
      simp only [Option.map_some, foundOutcome, sent]
      exact backendStands_sent formed client alive

/-- For the clients. A heartbeat is neither sent nor dropped. -/
theorem drop_stands {core : Nat} (isMaglev : ctx.nf = nf setup core headers) (client : setup.isWan ctx.device = true) :
    DropStands ctx (InShape setup) (Stands setup) := by
  apply dropStands_of_handlers (Q := fun _ => True) (fun _ _ => trivial) (fun _ _ _ _ _ _ _ => trivial)
  intro branch pkt contention call outcome stale incomingDev _ formed ran _
  unfold Context.handler at ran
  rw [isMaglev] at ran
  rw [← incomingDev] at client ⊢
  have pktClass : (nfPktDispatcher setup pkt call.incomingDev).pktClass = 0 := by
    rw [nfPktDispatcher, if_pos client]
  cases branch with
  | unknown =>
    rw [Stands, if_pos rfl]
    exact unknown_stands formed client ran
  | noPktSet | registered =>
    rw [← incomingDev] at ran
    change pktHandlers setup core (nfPktDispatcher setup pkt call.incomingDev).pktClass contention call = some outcome at ran
    rw [pktClass, pktHandlers, if_pos rfl] at ran
    exact client_stands formed client (by simp) ran

end Maglev

/-- A decision to drop a packet stands just if the packet is not sent behind the check of its time to
live, and no aborted attempt has left another device: what a packet meets is said of the call of the
committed attempt, by its time to live, its route, its flow, its session and the backends. -/
theorem drop_stands_iff (B : Type) :
    (∀ (setup : Fw.Setup) (headers : B → Bool × Fw.Pkt) (ctx : Context Unit Unit Fw.Pkt Fw.PktSetState Fw.PktSetId B),
      ctx.nf = Fw.nf setup headers → DropStands ctx (fun _ => True) (Fw.Stands setup)) ∧
    (∀ (setup : FwNat.Setup) (core : Fin setup.numCores) (headers : B → Bool × Pkt)
      (ctx : Context FwNat.Contention FwNat.NfState Pkt FwNat.PktSetState FwNat.PktSetId B), setup.map.Exact →
      ctx.nf = FwNat.nf setup core headers →
        DropStands ctx (fun call => FwNat.InShape setup call.globalState) fun _ => FwNat.Stands setup) ∧
    (∀ (setup : EiNat.Setup) (core : Fin setup.numCores) (headers : B → Bool × Pkt)
      (ctx : Context (Nat → Nat → Bool) (EiNat.NfState Sessions.Objects) Pkt Unit Unit B), setup.Exact →
      ctx.nf = EiNat.nf setup core headers →
        DropStands ctx (fun call => EiNat.InShape setup call.globalState) fun _ => EiNat.Stands setup) ∧
    (∀ (setup : Maglev.Setup) (core : Nat) (headers : B → Bool × Maglev.Pkt)
      (ctx : Context (Nat → Nat → Bool) (Maglev.NfState Vectors.Elements) Maglev.Pkt Maglev.PktSetState Maglev.PktSetId B),
      ctx.nf = Maglev.nf setup core headers → setup.isWan ctx.device = true →
        DropStands ctx (Maglev.InShape setup) (Maglev.Stands setup)) :=
  ⟨fun _ _ _ => Fw.drop_stands, fun _ _ _ _ exact => FwNat.drop_stands exact, fun _ _ _ _ exact => EiNat.drop_stands exact,
    fun _ _ _ _ => Maglev.drop_stands⟩

section Example
open PktSetManager Sessions

/-- The last hop of a packet. -/
def lastHop (_ : Unit) : Bool × Fw.Pkt := (true, { synPacket with timeToLive := 1 })

def lastHopContext : Context Unit Unit Fw.Pkt Fw.PktSetState Fw.PktSetId Unit := { fwContext with nf := Fw.nf fwSetup lastHop }

/-- The packet is dropped for its time to live, and sent to device 1. -/
theorem dropped_packet_sent : ∃ m p' rest last, initPktSetManager oneFlow blankMemory = some m ∧
    processPkts lastHopContext (fun _ => ()) 1 [⟨id, (), true⟩] (fwPlane m) = some (p', rest) ∧ p'.history = [(last, true)] ∧
    .dropPkt ∈ last.actions ∧ p'.dstDevices 0 = 1 ∧ lastHopContext.device = 0 := by
  have ran : ((initPktSetManager oneFlow blankMemory).bind fun m =>
      (processPkts lastHopContext (fun _ => ()) 1 [⟨id, (), true⟩] (fwPlane m)).map fun z => (z.1.dstDevices 0, z.1.history)) =
      some (1, [(⟨.unknown, 0, 0, false, false, [.dropPkt, .sendPkt 1]⟩, true)]) := by
    decide +kernel
  obtain ⟨m, ended, ran⟩ := Option.bind_eq_some_iff.mp ran
  obtain ⟨⟨p', rest⟩, processed, same⟩ := Option.map_eq_some_iff.mp ran
  obtain ⟨sent, history⟩ := Prod.mk.inj same
  exact ⟨m, p', rest, _, ended, processed, history, by simp, sent, rfl⟩

/-- `ei-nat` has no packet sets. -/
def eiNatContext (setup : EiNat.Setup) : Context (Nat → Nat → Bool) (EiNat.NfState Objects) Pkt Unit Unit Unit :=
  ⟨EiNat.nf setup 0 fun _ => (true, udpPacket 1 2), ⟨1, 1, fun _ _ => true, fun _ => 0, 0, false⟩, false, 0, 0, 0⟩

def eiNatPlane (s : EiNat.NfState Objects) : Plane (EiNat.NfState Objects) Pkt Unit Unit :=
  ⟨⟨fun _ => 0, fun _ => ⟨0, 0, 0, ⟨0, (), 0⟩⟩, fun _ => (), fun _ => ⟨false, (), ()⟩⟩, s, 0, fun _ => udpPacket 1 2, fun _ => 0,
    fun _ => 0, [], [], []⟩

def maglevContext (setup : Maglev.Setup) :
    Context (Nat → Nat → Bool) (Maglev.NfState Vectors.Elements) Maglev.Pkt Maglev.PktSetState Maglev.PktSetId Unit :=
  ⟨Maglev.nf setup 0 fun _ => (true, ⟨synPacket.toPkt, 0⟩), ⟨1, 1, Maglev.pktSetIdEq, fun _ => 0, 0, false⟩, true, 0, 0, 0⟩

/-- A packet of `fw` earlier on its way, whose first commit fails, and the first packets of the NATs. -/
theorem drop_stands_early :
    (∃ m p' rest earlier last, initPktSetManager oneFlow blankMemory = some m ∧
      processPkts fwContext (fun _ => ()) 1 [⟨id, (), false⟩, ⟨id, (), true⟩] (fwPlane m) = some (p', rest) ∧
      callsOfBatch fwContext (fun _ => ()) 1 [⟨id, (), false⟩, ⟨id, (), true⟩] (fwPlane m) 0 = [earlier, last] ∧
      earlier.summary = (.unknown, false, [.sendPkt 1]) ∧ last.summary = (.unknown, false, [.sendPkt 1]) ∧
      ((.dropPkt ∈ last.outcome.actions → p'.dstDevices 0 = 0) ↔ Fw.Stands fwSetup last.branch last.call 1)) ∧
    (∃ setup s m dst p' rest last, FwNat.initial = some ((setup, s), m) ∧
      processPkt (FwNat.exampleContext setup) () [FwNat.granted true] (FwNat.examplePlane s m) = some (dst, p', rest) ∧
      callsOf (FwNat.exampleContext setup) () [FwNat.granted true] (FwNat.examplePlane s m) = [last] ∧
      FwNat.InShape setup last.call.globalState ∧
      ((.dropPkt ∈ last.outcome.actions → dst = 0) ↔ FwNat.Stands setup last.call 0)) ∧
    (∃ setup s dst p' rest last, eiNatInit = some (setup, s) ∧
      processPkt (eiNatContext setup) () [⟨id, fun _ _ => true, true⟩] (eiNatPlane s) = some (dst, p', rest) ∧
      callsOf (eiNatContext setup) () [⟨id, fun _ _ => true, true⟩] (eiNatPlane s) = [last] ∧
      EiNat.InShape setup last.call.globalState ∧
      ((.dropPkt ∈ last.outcome.actions → dst = 0) ↔ EiNat.Stands setup last.call 0)) ∧
    DropStands (maglevContext (Maglev.exampleConfig .lb)) (Maglev.InShape (Maglev.exampleConfig .lb))
      (Maglev.Stands (Maglev.exampleConfig .lb)) := by
  obtain ⟨fw, nat, ei, maglev⟩ := drop_stands_iff Unit
  refine ⟨?_, ?_, ?_, maglev _ _ _ _ rfl rfl⟩
  · have ran : ((initPktSetManager oneFlow blankMemory).bind fun m =>
        (processPkts fwContext (fun _ => ()) 1 [⟨id, (), false⟩, ⟨id, (), true⟩] (fwPlane m)).map fun z => z.1.history) =
        some [(⟨.unknown, 0, 0, false, false, [.sendPkt 1]⟩, false), (⟨.unknown, 0, 0, false, false, [.sendPkt 1]⟩, true)] := by
      decide +kernel
    obtain ⟨m, ended, ran⟩ := Option.bind_eq_some_iff.mp ran
    obtain ⟨⟨p', rest⟩, processed, history⟩ := Option.map_eq_some_iff.mp ran
    obtain ⟨earlier, last, calls, attempted, stands⟩ := (fw fwSetup synHeaders fwContext rfl).2 _ _ _ _ _ _ processed 0 Nat.one_pos rfl
    rw [Attempted, show p'.history = _ from history] at attempted
    have whole : [((Branch.unknown, false, [Action.sendPkt 1]), false)] ++ [((Branch.unknown, false, [Action.sendPkt 1]), true)] =
      earlier.map (fun r => (r.summary, false)) ++ [(last.summary, true)] := attempted
    have split := List.append_inj' whole rfl
    obtain ⟨first, rfl, failed⟩ := List.map_eq_singleton_iff.mp split.1.symm
    have failed : first.summary = (.unknown, false, [.sendPkt 1]) := (Prod.mk.inj failed).1
    have committed : last.summary = (.unknown, false, [.sendPkt 1]) := (Prod.mk.inj (List.singleton_inj.mp split.2.symm)).1
    have left : [first].flatMap Record.survives = [.sendPkt 1] := by
      obtain ⟨branch, _, actions⟩ : first.branch = .unknown ∧ first.outcome.abort = false ∧ first.outcome.actions = [.sendPkt 1] := by
        simpa [Record.summary] using failed
      simp [Record.survives, branch, actions]
    have stands := stands trivial
    rw [left] at stands
    exact ⟨m, p', rest, first, last, ended, processed, calls, failed, committed, stands⟩
  · have ran : (FwNat.initial.bind fun z =>
        processPkt (FwNat.exampleContext z.1.1) () [FwNat.granted true] (FwNat.examplePlane z.1.2 z.2)).isSome = true := by
      decide +kernel
    obtain ⟨⟨dst, p', rest⟩, ran⟩ := Option.isSome_iff_exists.mp ran
    obtain ⟨⟨⟨setup, s⟩, m⟩, ended, processed⟩ := Option.bind_eq_some_iff.mp ran
    have sessions := FwNat.initial_nat ended
    obtain ⟨_, initialised⟩ := FwNat.nfInit_ends FwNat.twoPorts ⟨fun _ => 0, fun _ => 0⟩ (fun _ _ => 0) 2 FwNat.blankMemory
      (show 0 < 1 by decide) (by decide)
    obtain ⟨same, _⟩ := Prod.mk.inj (Option.some.inj (sessions.symm.trans initialised))
    have core : 0 < setup.numCores := by
      rw [same]
      decide
    have reached := FwNat.nfInit_reached sessions (by decide) (by rw [same]; decide) .start
    obtain ⟨last, alone, view, _⟩ := callsOf_single (by rfl) processed
    have shape : FwNat.InShape setup last.call.globalState := by
      rw [view]
      exact reached.invariant
    obtain ⟨earlier, last', calls, _, stands⟩ := (nat setup ⟨0, core⟩ _ (FwNat.exampleContext setup) reached.exact rfl).1 _ _ _ _ _ _ rfl processed
    have whole : [] ++ [last] = earlier ++ [last'] := alone.symm.trans calls
    obtain ⟨rfl, only⟩ := List.append_inj' whole rfl
    obtain rfl := List.singleton_inj.mp only
    exact ⟨setup, s, m, dst, p', rest, last, ended, processed, alone, shape, stands shape⟩
  · have ran : (eiNatInit.bind fun z =>
        processPkt (eiNatContext z.1) () [⟨id, fun _ _ => true, true⟩] (eiNatPlane z.2)).isSome = true := by
      decide +kernel
    obtain ⟨⟨dst, p', rest⟩, ran⟩ := Option.isSome_iff_exists.mp ran
    obtain ⟨⟨setup, s⟩, ended, processed⟩ := Option.bind_eq_some_iff.mp ran
    obtain ⟨_, initialised⟩ := EiNat.nfInit_ends exampleSetup (fun a b => a + b) 4 ⟨exampleMemory ⟨⟨0, 0⟩, 0, 0, 0, 0⟩,
      fun _ => ⟨0, 0, 0, 0, 0⟩, fun _ => ⟨⟨0, 0⟩, 0⟩, fun _ => ⟨0, 0, 0, ()⟩⟩ (by decide) (by decide) (by decide)
    obtain ⟨same, _⟩ := Prod.mk.inj (Option.some.inj (ended.symm.trans initialised))
    have core : 0 < setup.numCores := by
      rw [same]
      decide
    obtain ⟨exact, known, _⟩ := EiNat.nfInit_exact ended (by decide) (by decide) (by decide)
    obtain ⟨last, alone, view, _⟩ := callsOf_single (by rfl) processed
    have shape : EiNat.InShape setup last.call.globalState := by
      rw [view]
      exact ⟨_, _, _, known⟩
    obtain ⟨earlier, last', calls, _, stands⟩ := (ei setup ⟨0, core⟩ _ (eiNatContext setup) exact rfl).1 _ _ _ _ _ _ rfl processed
    have whole : [] ++ [last] = earlier ++ [last'] := alone.symm.trans calls
    obtain ⟨rfl, only⟩ := List.append_inj' whole rfl
    obtain rfl := List.singleton_inj.mp only
    exact ⟨setup, s, dst, p', rest, last, ended, processed, alone, shape, stands shape⟩

end Example
end Nfos
