import Nfos.MaglevRuns

/-! The backends that clients are sent to. An id that is freed and allocated again, an address
whose backend has changed and a flow that remembers a freed id must not lead to a backend that
is not alive. -/
namespace Nfos.Maglev
open Txn Function Vectors Map DoubleChainExp DataPlane Cht EiNat AgeingTable Run

section Servers
variable {setup : Setup} {s s' : State setup} {e : Event setup} {history : List (Event setup)}

/-- The backends are on the side of the servers, where the heartbeats come from. -/
def OnServerSide (setup : Setup) (g : NfState Elements) : Prop := ∀ i ∈ g.alive setup, setup.isWan (g.backendInfo i).dev = false

theorem Step.onServerSide (step : Step setup s e s') (sound : setup.Sound) (holds : Holds setup s.globalState)
    (onServerSide : OnServerSide setup s.globalState) : OnServerSide setup s'.globalState := by
  obtain ⟨Q, invariant⟩ := holds
  intro i member
  cases e with
  | heartbeat ip now =>
    obtain ⟨_, dev, Q', lan, refreshed⟩ := step.refreshed sound invariant
    rcases refreshed.added i member with old | new
    · rw [(refreshed.kept i old).2.2]
      exact onServerSide i old
    · rwa [new]
  | client core id sent actions =>
    rw [step.balances.1] at member ⊢
    exact onServerSide i member
  | expired core id =>
    cases step
    exact onServerSide i member
  | swept now freed =>
    obtain ⟨_, Q', _, expelled⟩ := step.expelled sound invariant
    have alive : s'.globalState.alive setup = _ := expelled.cleared.numbers
    rw [alive] at member
    rw [expelled.backendInfo]
    exact onServerSide i member.1

theorem onServerSide_of_run (sound : setup.Sound) (run : Trace (Step setup) s history s') (holds : Holds setup s.globalState)
    (empty : s.globalState.alive setup = ∅) : Holds setup s'.globalState ∧ OnServerSide setup s'.globalState := by
  refine run.keeps (P := fun s => Holds setup s.globalState ∧ OnServerSide setup s.globalState) ⟨holds, ?_⟩ ?_
  · intro i member
    rw [empty] at member
    exact absurd member (Set.notMem_empty i)
  · rintro t _ u ⟨holds, onServerSide⟩ step
    exact ⟨step.holds sound holds, step.onServerSide sound holds onServerSide⟩

end Servers

section Clients
variable {setup : Setup} {grants : Nat → Nat → Bool} {call : Call (NfState Elements) Pkt PktSetState PktSetId}
variable {outcome : Outcome (NfState Elements) Pkt PktSetState PktSetId} {i : Nat}

/-- A load-balanced packet of a flow with a backend that is alive goes there. -/
theorem clientPktHandler_sticks {lb0 : LoadBalance} {dpo0 : Dpo} (onServerSide : OnServerSide setup call.globalState)
    (given : call.localState = some ⟨(i : Int)⟩) (present : i ∈ call.globalState.alive setup)
    (route : lookupLb setup call.incomingDev call.pkt.dstAddr = some (lb0, dpo0)) (balanced : dpo0.action = .lb)
    (ran : clientPktHandler setup grants call = some outcome) (returned : outcome.abort = false) :
    outcome.localState = some ⟨(i : Int)⟩ ∧ .sendPkt (call.globalState.backendInfo i).dev ∈ outcome.actions ∧
      ∀ dev, .sendPkt dev ∈ outcome.actions → Towards (call.globalState.backendInfo i) dev outcome.pkt := by
  simp only [clientPktHandler, given, route, balanced, Option.bind_eq_bind, Option.bind_some, Option.pure_def] at ran
  split at ran
  · contradiction
  · obtain rfl := Option.some.inj ran
    contradiction
  · rename_i l assigned
    have kept := (assignedBackend_alive assigned).2.2 i present rfl
    contradiction
  · rename_i j backend l assigned
    obtain ⟨rfl, rfl⟩ := Prod.mk.inj (Option.some.inj ((assignedBackend_alive assigned).2.2 i present rfl))
    obtain rfl := Option.some.inj ran
    refine ⟨rfl, ?_, fun dev sent => sendPktToBackend_towards sent⟩
    have lan : setup.isWan (call.globalState.backendInfo i).dev = false := onServerSide i present
    simp only [NfState.view_start, (sendPktToBackend_lan lan).1, List.mem_append, List.mem_singleton, or_true]

end Clients

section Runs
variable {setup config : Setup} {init : NfState Elements} {tscHz : Nat} {backendExpirationTime : Int} {permutations next : Nat → Int}
variable {memory : NfState Elements} {past : List (Event setup)} {p : State setup}

/-- After any run the map names just the allocated ids, by the addresses that both vectors have for them. What
is sent to a client goes to such an id. A flow keeps its id, and all its load-balanced packets go there, as
long as no sweep frees it. -/
theorem clients_reach_live_backends (positive : 0 < config.backendCapacity) (small : config.backendCapacity < 2 ^ 31)
    (ended : nfInit config tscHz backendExpirationTime permutations next memory = some (setup, init))
    (before : Trace (Step setup) (.start init) past p) :
    (∀ ip v, p.globalState.lookup setup ip = some v ↔
      ∃ i ∈ p.globalState.alive setup, v = (i : Int) ∧ p.globalState.backendIps i = ip ∧ (p.globalState.backendInfo i).ip = ip) ∧
    (∀ core id sent actions t dev, Step setup p (.client core id sent actions) t → .sendPkt dev ∈ actions →
      ∃ i ∈ p.globalState.alive setup, Towards (p.globalState.backendInfo i) dev sent) ∧
    ∀ core id (i : Nat) mid q, p.flows core id = some ⟨(i : Int)⟩ → i ∈ p.globalState.alive setup → Trace (Step setup) p mid q →
      (∀ now freed, .swept now freed ∈ mid → i ∉ freed) → .expired core id ∉ mid →
      q.flows core id = some ⟨(i : Int)⟩ ∧ i ∈ q.globalState.alive setup ∧
      q.globalState.backendInfo i = p.globalState.backendInfo i ∧
      ∀ grants (call : Call (NfState Elements) Pkt PktSetState PktSetId) outcome lb0 dpo0, call.globalState = q.globalState →
        call.localState = q.flows core id → lookupLb setup call.incomingDev call.pkt.dstAddr = some (lb0, dpo0) → dpo0.action = .lb →
        clientPktHandler setup grants call = some outcome → outcome.abort = false →
        outcome.localState = some ⟨(i : Int)⟩ ∧ .sendPkt (p.globalState.backendInfo i).dev ∈ outcome.actions ∧
          ∀ dev, .sendPkt dev ∈ outcome.actions → Towards (p.globalState.backendInfo i) dev outcome.pkt := by
  obtain ⟨sound, holds, empty⟩ := nfInit_holds positive small ended
  obtain ⟨held, _⟩ := onServerSide_of_run sound before holds empty
  refine ⟨?_, ?_, ?_⟩
  · intro ip v
    rw [held.found_iff sound]
    obtain ⟨Q, invariant⟩ := held
    constructor
    · rintro ⟨i, present, rfl, key⟩
      exact ⟨i, present, rfl, key, (invariant.info i present).trans key⟩
    · rintro ⟨i, present, rfl, key, _⟩
      exact ⟨i, present, rfl, key⟩
  · intro core id sent actions t dev step going
    obtain ⟨_, _, balances⟩ := step.balances
    obtain ⟨i, present, towards, _⟩ := balances.sent dev going
    exact ⟨i, present, towards⟩
  · intro core id i mid q assigned present run alive registered
    obtain ⟨_, stays, lasts, info, _⟩ := sticks_of_run sound held assigned present run alive registered
    refine ⟨stays, lasts, info, ?_⟩
    intro grants call outcome lb0 dpo0 here found route balanced ran returned
    obtain ⟨_, onServerSide⟩ := onServerSide_of_run sound (before.append run) holds empty
    rw [← here] at lasts onServerSide info
    rw [← info]
    exact clientPktHandler_sticks onServerSide (found.trans stays) lasts route balanced ran returned

/-- A backend that a packet was sent to was found by load balancing. -/
theorem balanced_of_sent {grants : Nat → Nat → Bool} {call : Call (NfState Elements) Pkt PktSetState PktSetId}
    {outcome : Outcome (NfState Elements) Pkt PktSetState PktSetId} {dev : Nat}
    (ran : clientPktHandler setup grants call = some outcome) (sent : .sendPkt dev ∈ outcome.actions) :
    ∃ lb0 dpo0, lookupLb setup call.incomingDev call.pkt.dstAddr = some (lb0, dpo0) ∧ dpo0.action = .lb := by
  simp only [clientPktHandler, Option.bind_eq_bind, Option.bind_eq_some_iff] at ran
  obtain ⟨localState, _, ⟨lb0, dpo0⟩, route, ran⟩ := ran
  refine ⟨lb0, dpo0, route, ?_⟩
  cases action : dpo0.action with
  | lb => rfl
  | drop =>
    simp only [action, Option.pure_def, Option.some.injEq] at ran
    subst ran
    simp [not_sent_ttlActions] at sent
  | forward =>
    simp only [action, Option.pure_def, Option.some.injEq] at ran
    subst ran
    exact absurd sent (not_sent_ttlActions call.pkt dev)

/-- Between two packets of a flow another flow gets the other backend, which is then swept away. -/
theorem clients_reach_live_backends_run : ∃ (setup : Setup) (init : NfState Elements) (past mid : List (Event setup)) (p t : State setup)
    (core : Fin setup.numCores) (third : Pkt) (grants : Nat → Nat → Bool) (call : Call (NfState Elements) Pkt PktSetState PktSetId)
    (outcome : Outcome (NfState Elements) Pkt PktSetState PktSetId),
    nfInit (exampleConfig .lb) 1000000 10000000 (fun _ => 0) (fun _ => 0) blankState = some (setup, init) ∧
    Trace (Step setup) (.start init) past p ∧ Trace (Step setup) p mid t ∧ .swept 20000000 [1] ∈ mid ∧
    (∀ ip v, t.globalState.lookup setup ip = some v ↔ ∃ i ∈ t.globalState.alive setup,
      v = (i : Int) ∧ t.globalState.backendIps i = ip ∧ (t.globalState.backendInfo i).ip = ip) ∧
    (∃ i ∈ t.globalState.alive setup, Towards (t.globalState.backendInfo i) 1 third) ∧
    t.flows core (flowOf 4 2) = some ⟨(0 : Nat)⟩ ∧ call.globalState = t.globalState ∧
    clientPktHandler setup grants call = some outcome ∧ .sendPkt (p.globalState.backendInfo 0).dev ∈ outcome.actions := by
  obtain ⟨setup, init, p, r, t, q, core, first, second, third, started, before, flow, present, _, mid, _, cleared, going⟩ := two_backends_run
  have run := mid.extend cleared
  obtain ⟨found, sent, _⟩ := clients_reach_live_backends (by decide) (by decide) started (before.append run)
  obtain ⟨_, _, sticks⟩ := clients_reach_live_backends (by decide) (by decide) started before
  obtain ⟨stays, _, _, serves⟩ := sticks core (flowOf 4 2) 0 _ t flow present run (by simp) (by simp)
  have alive := sent core _ third [.sendPkt 1] q 1 going (by simp)
  generalize actions : [DataPlane.Action.sendPkt 1] = l at going
  generalize id : flowOf 4 2 = k at going stays flow serves
  cases going with
  | unknown _ _ _ absent => exact absurd (absent.symm.trans stays) (Option.some_ne_none _).symm
  | @registered call outcome grants _ _ here given ran returned =>
    obtain ⟨lb0, dpo0, route, balanced⟩ := balanced_of_sent ran (show .sendPkt 1 ∈ outcome.actions by simp [← actions])
    obtain ⟨_, reaches, _⟩ := serves grants call outcome lb0 dpo0 here given.symm route balanced ran returned
    exact ⟨setup, init, _, _, p, t, core, _, grants, call, outcome, started, before, run, by simp, found, alive, stays, here, ran, reaches⟩

end Runs
end Nfos.Maglev
