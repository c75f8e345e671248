import Nfos.MaglevBackends
import Nfos.MaglevPaths
import Mathlib.Data.Finset.Order

/-! Runs of `maglev`. In any order of the transactions, clients are sent to backends that are
alive, and a flow stays with its backend as long as that is alive. -/
namespace Nfos.Maglev
open Txn Function Vectors Map DoubleChainExp DataPlane Cht EiNat AgeingTable Run

section Choice
variable {setup : Setup} {grants : Nat → Nat → Bool} {l l' : NfState Log} {hash : Nat} {j : Int} {backend : BackendInfo} {i : Nat}

theorem borrowBackendInfo_ok (ran : borrowBackendInfo setup j grants l = .ok (backend, l')) :
    ∃ i < setup.backendCapacity, j = (i : Int) ∧ backend = l.view.backendInfo i := by
  unfold borrowBackendInfo atIndex at ran
  split at ran
  · rename_i within
    refine ⟨j.toNat, by omega, by omega, ?_⟩
    simp only [onBackendInfo, Txs.on, nfosVectorBorrow_run, Except.ok.injEq, Prod.mk.injEq] at ran
    exact ran.1.symm
  · contradiction

theorem borrowFound_ok (ran : borrowFound setup (some j) grants l = .ok (some (j, backend), l')) :
    ∃ i < setup.backendCapacity, j = (i : Int) ∧ backend = l.view.backendInfo i := by
  rw [borrowFound, Txs.bind_eq_ok] at ran
  obtain ⟨borrowed, m, began, ended⟩ := ran
  have same : (some (j, borrowed), m) = (some (j, backend), l') := Except.ok.inj ended
  simp only [Prod.mk.injEq, Option.some.injEq, true_and] at same
  obtain ⟨rfl, _⟩ := same
  exact borrowBackendInfo_ok began

theorem onTables_isIndexAllocated (i : Nat) : onTables (isIndexAllocated setup.numCores (i : Int)) grants l =
    .ok (decide (Marked setup.numCores l.view.tables.backends i), l) := by
  simp only [onTables, Txs.within, isIndexAllocated_run]
  rfl

/-- The chosen backend is alive. -/
theorem chooseBackend_alive (ran : chooseBackend setup hash grants l = .ok (some (j, backend), l')) :
    ∃ i ∈ l.view.alive setup, j = (i : Int) ∧ backend = l.view.backendInfo i := by
  have chosen := assignedBackend_chosen grants 0 ran
  rw [chooseBackend, Txs.bind_eq_ok] at ran
  obtain ⟨found, m, search, borrowed⟩ := ran
  obtain ⟨here, _⟩ := looks_findBackend setup hash _ _ _ search
  dsimp only at here
  subst here
  cases found with
  | none => cases (Prod.mk.inj (Except.ok.inj borrowed)).1
  | some k =>
    obtain rfl := borrowFound_some borrowed
    obtain ⟨i, within, rfl, info⟩ := borrowFound_ok borrowed
    refine ⟨i, ⟨within, ?_⟩, rfl, info⟩
    simp only [findBackend, onTables, Txs.within] at search
    split at search
    · rename_i found t result
      simp only [Except.ok.injEq, Prod.mk.injEq] at search
      obtain ⟨rfl, _⟩ := search
      have asked := nfosChtFind_allocated result
      rw [isIndexAllocated_run] at asked
      exact of_decide_eq_true (Prod.mk.inj (Except.ok.inj asked)).1
    · contradiction

theorem borrowFound_returned {found : Option (Int × BackendInfo)} (ran : borrowFound setup (some j) grants l = .ok (found, l')) :
    ∃ i < setup.backendCapacity, j = (i : Int) ∧ found = some ((i : Int), l.view.backendInfo i) := by
  have whole := ran
  rw [borrowFound, Txs.bind_eq_ok] at ran
  obtain ⟨borrowed, m, _, ended⟩ := ran
  obtain ⟨rfl, rfl⟩ := Prod.mk.inj (Except.ok.inj ended)
  obtain ⟨i, within, rfl, rfl⟩ := borrowFound_ok whole
  exact ⟨i, within, rfl, rfl⟩

/-- The backend of a flow is alive, and it is the assigned one if that is alive. -/
theorem assignedBackend_alive {backendId : Int} {found : Option (Int × BackendInfo)}
    (ran : assignedBackend setup hash backendId grants l = .ok (found, l')) : l' = l ∧
      (∀ j backend, found = some (j, backend) → ∃ i ∈ l.view.alive setup, j = (i : Int) ∧ backend = l.view.backendInfo i) ∧
      ∀ i ∈ l.view.alive setup, backendId = (i : Int) → found = some ((i : Int), l.view.backendInfo i) := by
  obtain ⟨here, _⟩ := looks_assignedBackend setup hash backendId _ _ _ ran
  refine ⟨here, ?_⟩
  rw [assignedBackend, Txs.bind_eq_ok] at ran
  obtain ⟨allocated, m, asked, ended⟩ := ran
  rcases Int.lt_or_le backendId 0 with negative | least
  · simp [onTables, isIndexAllocated, Txs.within, not_le.mpr negative, Txs.fault] at asked
  · obtain ⟨k, rfl⟩ := Int.eq_ofNat_of_zero_le least
    rw [onTables_isIndexAllocated] at asked
    obtain ⟨rfl, rfl⟩ := Prod.mk.inj (Except.ok.inj asked)
    by_cases marked : Marked setup.numCores l.view.tables.backends k
    · rw [if_pos (decide_eq_true marked)] at ended
      obtain ⟨i, within, same, rfl⟩ := borrowFound_returned ended
      obtain rfl : k = i := Int.ofNat.inj same
      constructor
      · rintro j backend ⟨⟩
        exact ⟨k, ⟨within, marked⟩, rfl, rfl⟩
      · rintro i _ same
        obtain rfl : k = i := Int.ofNat.inj same
        rfl
    · rw [if_neg (by simpa using marked)] at ended
      constructor
      · rintro j backend rfl
        exact chooseBackend_alive ended
      · rintro i ⟨_, busy⟩ same
        obtain rfl : k = i := Int.ofNat.inj same
        exact absurd busy marked

end Choice

section Clients
variable {setup : Setup} {grants : Nat → Nat → Bool} {call : Call (NfState Elements) Pkt PktSetState PktSetId}
variable {outcome : Outcome (NfState Elements) Pkt PktSetState PktSetId}

/-- The packet goes to this backend. -/
structure Towards (backend : BackendInfo) (dev : Nat) (pkt : Pkt) : Prop where
  dev : dev = backend.dev
  mac : pkt.dstMac = backend.mac
  ip : pkt.dstAddr = backend.ip

/-- What the handlers of clients do. `before` and `after` are the assigned backends. -/
structure Balances (setup : Setup) (s : NfState Elements) (before after : Option PktSetState) (pkt : Pkt) (actions : List Action) :
    Prop where
  sent : ∀ dev, .sendPkt dev ∈ actions → ∃ i ∈ s.alive setup, Towards (s.backendInfo i) dev pkt ∧
    (after = some ⟨(i : Int)⟩ ∨ before = none)
  kept : ∀ i ∈ s.alive setup, before = some ⟨(i : Int)⟩ → after = some ⟨(i : Int)⟩

theorem sendPktToBackend_towards {pkt : Pkt} {backend : BackendInfo} {dev : Nat}
    (sent : .sendPkt dev ∈ ttlActions call.pkt ++ (sendPktToBackend setup pkt backend).2) :
    Towards backend dev (sendPktToBackend setup pkt backend).1 := by
  have late : .sendPkt dev ∈ (sendPktToBackend setup pkt backend).2 := by
    refine (List.mem_append.mp sent).resolve_left ?_
    unfold ttlActions
    split <;> simp
  unfold sendPktToBackend at late ⊢
  split at late
  · rename_i lan
    rw [if_pos lan]
    obtain rfl : dev = backend.dev := by simpa using late
    exact ⟨rfl, by simp, by simp⟩
  · simp at late

theorem not_sent_ttlActions (pkt : Pkt) (dev : Nat) : .sendPkt dev ∉ ttlActions pkt := by
  unfold ttlActions
  split <;> simp

/-- Nothing is sent, and the flow stays as it is. -/
theorem Balances.silent {s : NfState Elements} {state : Option PktSetState} {pkt : Pkt} {actions : List Action}
    (quiet : ∀ dev, .sendPkt dev ∉ actions) : Balances setup s state state pkt actions := by
  refine ⟨fun dev sent => absurd sent (quiet dev), fun i _ assigned => assigned⟩

theorem clientPktHandler_balances (ran : clientPktHandler setup grants call = some outcome) (returned : outcome.abort = false) :
    outcome.globalState = call.globalState ∧
      Balances setup call.globalState call.localState outcome.localState outcome.pkt outcome.actions := by
  simp only [clientPktHandler, Option.bind_eq_bind, Option.bind_eq_some_iff] at ran
  obtain ⟨⟨backendId⟩, given, ⟨lb0, dpo0⟩, route, ran⟩ := ran
  rw [given]
  cases action : dpo0.action with
  | drop =>
    simp only [action, Option.pure_def, Option.some.injEq] at ran
    subst ran
    exact ⟨rfl, Balances.silent fun dev => by simp [not_sent_ttlActions]⟩
  | forward =>
    simp only [action, Option.pure_def, Option.some.injEq] at ran
    subst ran
    exact ⟨rfl, Balances.silent fun dev => not_sent_ttlActions call.pkt dev⟩
  | lb =>
    simp only [action, Option.pure_def] at ran
    split at ran
    · contradiction
    · obtain rfl := Option.some.inj ran
      contradiction
    · rename_i l assigned
      obtain ⟨rfl, _, stays⟩ := assignedBackend_alive assigned
      obtain rfl := Option.some.inj ran
      exact ⟨rfl, Balances.silent fun dev => by simp [not_sent_ttlActions]⟩
    · rename_i j backend l assigned
      obtain ⟨rfl, alive, stays⟩ := assignedBackend_alive assigned
      obtain ⟨i, present, rfl, rfl⟩ := alive j backend rfl
      obtain rfl := Option.some.inj ran
      refine ⟨rfl, ?_, ?_⟩
      · intro dev sent
        exact ⟨i, present, sendPktToBackend_towards sent, .inl rfl⟩
      · rintro k member ⟨⟩
        obtain ⟨same, _⟩ := Prod.mk.inj (Option.some.inj (stays k member rfl))
        rw [same]

theorem nfUnknownPktSetHandler_balances (ran : nfUnknownPktSetHandler setup grants call = some outcome)
    (returned : outcome.abort = false) : outcome.globalState = call.globalState ∧
      Balances setup call.globalState none (registers outcome call.canAdd) outcome.pkt outcome.actions := by
  obtain ⟨found, chosen, rfl⟩ := nfUnknownPktSetHandler_returned ran returned
  refine ⟨by cases found <;> rfl, ?_, nofun⟩
  intro dev sent
  cases found with
  | none => simp [not_sent_ttlActions] at sent
  | some entry =>
    obtain ⟨j, backend⟩ := entry
    obtain ⟨i, present, rfl, rfl⟩ := chooseBackend_alive chosen
    exact ⟨i, present, sendPktToBackend_towards sent, .inr rfl⟩

end Clients

/-- The shared state, and the packet sets of the cores. -/
structure State (setup : Setup) where
  globalState : NfState Elements
  flows : Fin setup.numCores → PktSetId → Option PktSetState

def State.setFlow {setup : Setup} (s : State setup) (core : Fin setup.numCores) (id : PktSetId) (flow : Option PktSetState) : State setup :=
  { s with flows := update s.flows core (update (s.flows core) id flow) }

/-- The state before the first packet. -/
def State.start {setup : Setup} (globalState : NfState Elements) : State setup := ⟨globalState, fun _ _ => none⟩

/-- Committed transactions and the end of a packet set. A packet of a client is remembered as it
is sent, a sweep with the backends that it frees. -/
inductive Event (setup : Setup) where
  | heartbeat (ip : Nat) (now : Int)
  | client (core : Fin setup.numCores) (id : PktSetId) (sent : Pkt) (actions : List Action)
  | expired (core : Fin setup.numCores) (id : PktSetId)
  | swept (now : Int) (freed : List Nat)

inductive Step (setup : Setup) : State setup → Event setup → State setup → Prop where
  | heartbeat {s call outcome grants} (core : Fin setup.numCores) :
      (nfPktDispatcher setup call.pkt call.incomingDev).hasPktSetState = false → call.globalState = s.globalState →
      heartbeatHandler setup core.val grants call = some outcome → outcome.abort = false →
      Step setup s (.heartbeat call.pkt.srcAddr call.time) { s with globalState := outcome.globalState }
  | unknown {s call outcome grants} (core : Fin setup.numCores) :
      nfPktDispatcher setup call.pkt call.incomingDev = ⟨0, call.pktSetId, true⟩ → call.globalState = s.globalState →
      s.flows core call.pktSetId = none →
      nfUnknownPktSetHandler setup grants call = some outcome → outcome.abort = false →
      Step setup s (.client core call.pktSetId outcome.pkt outcome.actions)
        ({ s with globalState := outcome.globalState }.setFlow core call.pktSetId (registers outcome call.canAdd))
  | registered {s call outcome grants} (core : Fin setup.numCores) :
      nfPktDispatcher setup call.pkt call.incomingDev = ⟨0, call.pktSetId, true⟩ → call.globalState = s.globalState →
      s.flows core call.pktSetId = call.localState →
      clientPktHandler setup grants call = some outcome → outcome.abort = false →
      Step setup s (.client core call.pktSetId outcome.pkt outcome.actions)
        ({ s with globalState := outcome.globalState }.setFlow core call.pktSetId outcome.localState)
  | expire {s} (core : Fin setup.numCores) (id : PktSetId) : Step setup s (.expired core id) (s.setFlow core id none)
  | sweep {s l sweep grants} (now : Int) :
      expireBackendLoop setup now grants s.globalState.start = .ok (sweep, l) →
      Step setup s (.swept now sweep.freed) { s with globalState := l.view }

/-- What `nfos_map_get` finds in a state. -/
def NfState.lookup (setup : Setup) (s : NfState Elements) (ip : Nat) : Option Int := found setup.map s.backendIpToBackendId ip

section Steps
variable {setup : Setup} {s s' : State setup} {e : Event setup} {ip : Nat} {now : Int} {i : Nat} {find : Nat → Option Int}
variable {Q : ListId setup.numCores → List Nat} {core : Fin setup.numCores} {id : PktSetId} {sent : Pkt} {actions : List Action}
variable {freed : List Nat}

/-- The table of the backends is coherent. -/
def Holds (setup : Setup) (s : NfState Elements) : Prop := ∃ Q, Invariant setup s (s.lookup setup) Q

theorem Invariant.lookup_eq {g : NfState Elements} (invariant : Invariant setup g find Q) (sound : setup.Sound) :
    find = g.lookup setup := by
  funext ip
  exact (invariant.coherent.lookup.found_eq sound.exact ip).symm

theorem Step.refreshed (step : Step setup s (.heartbeat ip now) s') (sound : setup.Sound)
    (invariant : Invariant setup s.globalState (s.globalState.lookup setup) Q) : s'.flows = s.flows ∧
      ∃ dev Q', setup.isWan dev = false ∧
        Refreshed setup ip dev now s.globalState (s.globalState.lookup setup) Q s'.globalState (s'.globalState.lookup setup) Q' := by
  cases step with
  | @heartbeat call outcome grants core unset here handled returned =>
    have posted := Txs.ensures_of_post fun grants =>
      post_refreshBackend (l := s.globalState.start) sound invariant core call.pkt call.incomingDev call.time
    rw [heartbeatHandler, here] at handled
    split at handled
    · contradiction
    · obtain rfl := Option.some.inj handled
      contradiction
    · rename_i l ran
      obtain rfl := Option.some.inj handled
      obtain ⟨find', Q', refreshed⟩ := posted _ _ _ ran
      obtain rfl := refreshed.invariant.lookup_eq sound
      refine ⟨rfl, call.incomingDev, Q', ?_, refreshed⟩
      by_contra wan
      rw [nfPktDispatcher, if_pos (by simpa using wan)] at unset
      contradiction

theorem Step.expelled (step : Step setup s (.swept now freed) s') (sound : setup.Sound)
    (invariant : Invariant setup s.globalState (s.globalState.lookup setup) Q) : s'.flows = s.flows ∧
      ∃ Q', Invariant setup s'.globalState (s'.globalState.lookup setup) Q' ∧
        Expelled setup now s.globalState (s.globalState.lookup setup) Q freed s'.globalState Q' := by
  cases step with
  | sweep _ ran =>
    have posted := Txs.ensures_of_post fun grants => post_expireBackendLoop (l := s.globalState.start) sound invariant now
    obtain ⟨Q', expelled⟩ := posted _ _ _ ran
    have invariant' := expelled.invariant invariant
    rw [← invariant'.lookup_eq sound]
    exact ⟨rfl, Q', invariant', expelled⟩

/-- Packets of clients do not change the backends. -/
theorem Step.balances (step : Step setup s (.client core id sent actions) s') : s'.globalState = s.globalState ∧
    (∀ c k, (c, k) ≠ (core, id) → s'.flows c k = s.flows c k) ∧
    Balances setup s.globalState (s.flows core id) (s'.flows core id) sent actions := by
  have others (t : State setup) (flow : Option PktSetState) : ∀ c k, (c, k) ≠ (core, id) →
      (t.setFlow core id flow).flows c k = t.flows c k := by
    intro c k other
    by_cases own : c = core
    · subst own
      simp [State.setFlow, update_of_ne (fun clash => other (by rw [clash]) : k ≠ id)]
    · simp [State.setFlow, own]
  cases step with
  | unknown _ _ here absent ran returned =>
    obtain ⟨same, balances⟩ := nfUnknownPktSetHandler_balances ran returned
    rw [here] at same balances
    refine ⟨same, others _ _, ?_⟩
    simpa [State.setFlow, absent] using balances
  | registered _ _ here given ran returned =>
    obtain ⟨same, balances⟩ := clientPktHandler_balances ran returned
    rw [here] at same balances
    refine ⟨same, others _ _, ?_⟩
    simpa [State.setFlow, given] using balances

theorem Step.holds (step : Step setup s e s') (sound : setup.Sound) (holds : Holds setup s.globalState) :
    Holds setup s'.globalState := by
  obtain ⟨Q, invariant⟩ := holds
  cases e with
  | heartbeat ip now =>
    obtain ⟨_, _, Q', _, refreshed⟩ := step.refreshed sound invariant
    exact ⟨Q', refreshed.invariant⟩
  | client core id sent actions =>
    rw [step.balances.1]
    exact ⟨Q, invariant⟩
  | expired core id =>
    cases step
    exact ⟨Q, invariant⟩
  | swept now freed =>
    obtain ⟨_, Q', invariant', _⟩ := step.expelled sound invariant
    exact ⟨Q', invariant'⟩

/-- A backend that is alive keeps its data, until a sweep frees it. -/
theorem Step.lasts (step : Step setup s e s') (sound : setup.Sound) (holds : Holds setup s.globalState)
    (present : i ∈ s.globalState.alive setup) (kept : ∀ now freed, e = .swept now freed → i ∉ freed) :
    i ∈ s'.globalState.alive setup ∧ s'.globalState.backendIps i = s.globalState.backendIps i ∧
      s'.globalState.backendInfo i = s.globalState.backendInfo i := by
  obtain ⟨Q, invariant⟩ := holds
  cases e with
  | heartbeat ip now =>
    obtain ⟨_, _, Q', _, refreshed⟩ := step.refreshed sound invariant
    exact refreshed.kept i present
  | client core id sent actions =>
    rw [step.balances.1]
    exact ⟨present, rfl, rfl⟩
  | expired core id =>
    cases step
    exact ⟨present, rfl, rfl⟩
  | swept now freed =>
    obtain ⟨_, Q', _, expelled⟩ := step.expelled sound invariant
    have alive : s'.globalState.alive setup = _ := expelled.cleared.numbers
    rw [alive, show s'.globalState.backendIps = _ from expelled.cleared.keys, expelled.backendInfo]
    exact ⟨⟨present, kept now freed rfl⟩, rfl, rfl⟩

/-- A flow stays with a backend that is alive, until the packet set expires. -/
theorem Step.stays (step : Step setup s e s') (present : i ∈ s.globalState.alive setup)
    (assigned : s.flows core id = some ⟨(i : Int)⟩) (registered : e ≠ .expired core id) (sound : setup.Sound)
    (holds : Holds setup s.globalState) : s'.flows core id = some ⟨(i : Int)⟩ := by
  obtain ⟨Q, invariant⟩ := holds
  cases e with
  | heartbeat ip now => rwa [(step.refreshed sound invariant).1]
  | client c k sent actions =>
    obtain ⟨_, others, balances⟩ := step.balances
    by_cases own : (core, id) = (c, k)
    · obtain ⟨rfl, rfl⟩ := Prod.mk.inj own
      exact balances.kept i present assigned
    · rwa [others core id own]
  | expired c k =>
    cases step
    by_cases own : core = c
    · subst own
      have other : id ≠ k := by
        rintro rfl
        exact registered rfl
      simpa [State.setFlow, update_of_ne other] using assigned
    · simpa [State.setFlow, update_of_ne own] using assigned
  | swept now freed => rwa [(step.expelled sound invariant).1]

end Steps

section Runs
variable {setup config : Setup} {init : NfState Elements} {tscHz : Nat} {backendExpirationTime : Int} {permutations next : Nat → Int}
variable {memory : NfState Elements} {history past mid : List (Event setup)} {s p q : State setup} {i : Nat}
variable {core : Fin setup.numCores} {id : PktSetId}

theorem nfInit_holds (positive : 0 < config.backendCapacity) (small : config.backendCapacity < 2 ^ 31)
    (ended : nfInit config tscHz backendExpirationTime permutations next memory = some (setup, init)) :
    setup.Sound ∧ Holds setup init ∧ init.alive setup = ∅ := by
  simp only [nfInit, Option.bind_eq_bind, Option.bind_eq_some_iff] at ended
  obtain ⟨backends, allocated, ⟨filled, cht⟩, _, ended⟩ := ended
  dsimp only at ended
  split at ended
  · contradiction
  · simp only [Option.pure_def, Option.some.injEq, Prod.mk.injEq] at ended
    obtain ⟨rfl, rfl⟩ := ended
    obtain ⟨cores, validity, unused, coherent⟩ := allocate_coherent positive allocated ipAddrEq (ipAddrHash config.crc32si)
      config.backendCapacity memory.backendIpToBackendId fun _ => 0
    have keq (a b : Nat) : ipAddrEq a b = true ↔ a = b := by simp [ipAddrEq]
    have exact : (nfosMapAllocate ipAddrEq (ipAddrHash config.crc32si) config.backendCapacity memory.backendIpToBackendId).1.Exact :=
      allocate_exact memory.backendIpToBackendId keq positive small.le
    refine ⟨⟨exact, (nextPow2_least positive small.le).1, cores⟩, ?_, unused⟩
    refine ⟨initialLists config.numCores config.backendCapacity, ?_, ?_⟩
    · have empty := coherent
      rwa [show (fun _ => none) = _ from (funext fun m => coherent.lookup.found_eq exact m).symm] at empty
    · intro i _
      rfl

theorem holds_of_run (sound : setup.Sound) (run : Trace (Step setup) s history q) (holds : Holds setup s.globalState) :
    Holds setup q.globalState :=
  run.keeps (P := fun q => Holds setup q.globalState) holds fun _ _ _ holds step => step.holds sound holds

/-- The time of a heartbeat. -/
def Event.stamp : Event setup → Option Int
  | .heartbeat _ now => some now
  | _ => none

/-- The time of a heartbeat from this address. -/
def Event.beatOf (ip : Nat) : Event setup → Option Int
  | .heartbeat source now => if source = ip then some now else none
  | _ => none

/-- The time of the last heartbeat from an address. -/
def lastBeat (history : List (Event setup)) (ip : Nat) : Option Int := (history.filterMap (Event.beatOf ip)).getLast?

theorem lastBeat_append (history : List (Event setup)) (e : Event setup) (ip : Nat) :
    lastBeat (history ++ [e]) ip = (e.beatOf ip).or (lastBeat history ip) := by
  rw [lastBeat, List.filterMap_append, List.getLast?_append]
  cases beat : e.beatOf ip <;> simp [beat, lastBeat]

theorem Holds.found_iff (holds : Holds setup s.globalState) (sound : setup.Sound) {ip : Nat} {v : Int} :
    s.globalState.lookup setup ip = some v ↔ ∃ i ∈ s.globalState.alive setup, v = (i : Int) ∧ s.globalState.backendIps i = ip := by
  obtain ⟨Q, invariant⟩ := holds
  exact invariant.coherent.found_iff sound.exact

/-- A backend that is found expires a validity after its last heartbeat. -/
def Beats (setup : Setup) (history : List (Event setup)) (g : NfState Elements) : Prop :=
  ∀ ip, ∀ i : Nat, g.lookup setup ip = some (i : Int) →
    ∃ t, lastBeat history ip = some t ∧ g.table.time setup.numCores i = t + setup.validity

theorem Step.beats {e : Event setup} (step : Step setup s e q) (sound : setup.Sound) (holds : Holds setup s.globalState)
    (beats : Beats setup history s.globalState) : Beats setup (history ++ [e]) q.globalState := by
  obtain ⟨Q, invariant⟩ := holds
  intro ip i known
  rw [lastBeat_append]
  cases e with
  | heartbeat source now =>
    obtain ⟨_, _, Q', _, refreshed⟩ := step.refreshed sound invariant
    by_cases own : source = ip
    · subst own
      exact ⟨now, by simp [Event.beatOf], refreshed.stamped i known⟩
    · obtain ⟨old, same⟩ := refreshed.others ip (Ne.symm own) i known
      rw [same]
      simpa [Event.beatOf, own] using beats ip i old
  | client core id sent actions =>
    rw [step.balances.1] at known ⊢
    exact beats ip i known
  | expired core id =>
    cases step
    exact beats ip i known
  | swept now freed =>
    obtain ⟨_, Q', invariant', expelled⟩ := step.expelled sound invariant
    obtain ⟨j, present, same, key⟩ := invariant'.coherent.directory.of_found known
    obtain rfl : i = j := Int.ofNat.inj same
    rw [expelled.cleared.time i present]
    rw [expelled.cleared.numbers] at present
    rw [show q.globalState.table.keys = _ from expelled.cleared.keys] at key
    exact beats ip i ((Holds.found_iff ⟨Q, invariant⟩ sound).mpr ⟨i, present.1, rfl, key⟩)

theorem beats_of_run (sound : setup.Sound) (run : Trace (Step setup) s history q) (holds : Holds setup s.globalState)
    (empty : s.globalState.alive setup = ∅) : Holds setup q.globalState ∧ Beats setup history q.globalState := by
  apply run.rule (P := fun history q => Holds setup q.globalState ∧ Beats setup history q.globalState)
  case initial =>
    refine ⟨holds, fun ip i known => ?_⟩
    obtain ⟨j, present, _⟩ := (holds.found_iff sound).mp known
    simp [empty] at present
  case keeps =>
    rintro past t e u _ ⟨holds, beats⟩ step
    exact ⟨step.holds sound holds, step.beats sound holds beats⟩

/-- The order of the queues, with no time after that of a heartbeat at `latest`. -/
def Ordered (setup : Setup) (latest : Int) (g : NfState Elements) : Prop :=
  ∃ Q, Invariant setup g (g.lookup setup) Q ∧ Aged setup.validity latest g.tables.backends Q

theorem Step.ordered {e : Event setup} {latest : Int} (step : Step setup s e q) (sound : setup.Sound)
    (ordered : Ordered setup latest s.globalState) (stamp : ∀ now, e.stamp = some now → now = latest) :
    Ordered setup latest q.globalState := by
  obtain ⟨Q, invariant, aged⟩ := ordered
  cases e with
  | heartbeat ip now =>
    obtain ⟨_, _, Q', _, refreshed⟩ := step.refreshed sound invariant
    obtain rfl := stamp now rfl
    exact ⟨Q', refreshed.invariant, refreshed.aged now le_rfl aged⟩
  | client core id sent actions =>
    rw [step.balances.1]
    exact ⟨Q, invariant, aged⟩
  | expired core id =>
    cases step
    exact ⟨Q, invariant, aged⟩
  | swept now freed =>
    obtain ⟨_, Q', invariant', expelled⟩ := step.expelled sound invariant
    exact ⟨Q', invariant', expelled.cleared.aged aged⟩

theorem ordered_of_run (sound : setup.Sound) (run : Trace (Step setup) s history q) (holds : Holds setup s.globalState)
    (empty : s.globalState.alive setup = ∅) (order : (history.filterMap Event.stamp).Pairwise (· ≤ ·)) :
    ∃ latest, Ordered setup latest q.globalState := by
  obtain ⟨latest, bound⟩ := (history.filterMap Event.stamp).toFinset.exists_le
  refine ⟨latest, run.in_order (P := fun latest q => Ordered setup latest q.globalState) ?_ ?_ ?_ order fun now stamped =>
    bound now (List.mem_toFinset.mpr stamped)⟩
  · intro latest
    obtain ⟨Q, invariant⟩ := holds
    have idle : ∀ c, Q (.alloc c) = [] := by
      intro c
      apply List.eq_nil_iff_forall_not_mem.mpr
      intro x member
      obtain ⟨i, _, rfl⟩ := (invariant.coherent.valid.cover x).mp ⟨_, member⟩
      have present : i ∈ s.globalState.alive setup := (mem_live invariant.coherent.valid).mpr ⟨c, member⟩
      simp [empty] at present
    exact ⟨Q, invariant, by simp [idle], by simp [idle]⟩
  · rintro latest latest' t order ⟨Q, invariant, aged⟩
    exact ⟨Q, invariant, aged.later order⟩
  · intro latest t e u ordered step stamp
    exact step.ordered sound ordered stamp

/-- What holds of the backends after a run. -/
structure Backends (setup : Setup) (history : List (Event setup)) (g : NfState Elements) : Prop where
  found : ∀ ip v, g.lookup setup ip = some v ↔ ∃ i ∈ g.alive setup, v = (i : Int) ∧ g.backendIps i = ip
  info : ∀ i ∈ g.alive setup, (g.backendInfo i).ip = g.backendIps i
  beats : ∀ i ∈ g.alive setup, ∃ t, lastBeat history (g.backendIps i) = some t ∧
    g.table.time setup.numCores i = t + setup.validity

def heartbeatCall (s : NfState Elements) : Call (NfState Elements) Pkt PktSetState PktSetId :=
  ⟨s, ⟨⟨5, 0, 64, 6, 0, 7, 0, 0, 0, 0, []⟩, 0⟩, 1, none, ⟨0, 0, 0, 0, 0⟩, 0, false⟩

/-- A heartbeat of the backend `ip` on device 1, with all locks granted. -/
def heartbeatStep {setup : Setup} (core : Fin setup.numCores) (s : State setup) (ip : Nat) (now : Int) : Option (State setup) := do
  let call := heartbeatCall s.globalState
  let outcome ← heartbeatHandler setup core.val (fun _ _ => true) { call with pkt := { call.pkt with srcAddr := ip }, time := now }
  if outcome.abort then none else some { s with globalState := outcome.globalState }

def flowOf (port dstAddr : Nat) : PktSetId := ⟨port, 4, 1, dstAddr, 6⟩

/-- A packet of a client to `dstAddr`, with the packet set of its core. -/
def packetCall {setup : Setup} (core : Fin setup.numCores) (s : State setup) (port dstAddr : Nat) :
    Call (NfState Elements) Pkt PktSetState PktSetId :=
  ⟨s.globalState, ⟨⟨0, 0, 64, 6, 0, 1, dstAddr, port, 4, 0, []⟩, 0⟩, 0, s.flows core (flowOf port dstAddr), flowOf port dstAddr, 0, true⟩

/-- The first packet of a flow, with its actions. -/
def firstStep {setup : Setup} (core : Fin setup.numCores) (s : State setup) (port dstAddr : Nat) :
    Option (Pkt × List Action × State setup) := do
  let outcome ← nfUnknownPktSetHandler setup (fun _ _ => true) (packetCall core s port dstAddr)
  if outcome.abort || (s.flows core (flowOf port dstAddr)).isSome then none
  else some (outcome.pkt, outcome.actions,
    { s with globalState := outcome.globalState }.setFlow core (flowOf port dstAddr) (registers outcome true))

/-- A later packet of a flow. -/
def laterStep {setup : Setup} (core : Fin setup.numCores) (s : State setup) (port dstAddr : Nat) :
    Option (Pkt × List Action × State setup) := do
  let outcome ← clientPktHandler setup (fun _ _ => true) (packetCall core s port dstAddr)
  if outcome.abort then none
  else some (outcome.pkt, outcome.actions, { s with globalState := outcome.globalState }.setFlow core (flowOf port dstAddr) outcome.localState)

def sweepStep {setup : Setup} (s : State setup) (now : Int) : Option (List Nat × State setup) := do
  let (sweep, l) ← (expireBackendLoop setup now (fun _ _ => true) s.globalState.start).toOption
  return (sweep.freed, { s with globalState := l.view })

theorem step_of_heartbeatStep {core : Fin setup.numCores} {ip : Nat} {now : Int} (lan : setup.isWan 1 = false)
    (ran : heartbeatStep core s ip now = some t) : Step setup s (.heartbeat ip now) t := by
  obtain ⟨outcome, handled, ran⟩ := Option.bind_eq_some_iff.mp ran
  split at ran
  · contradiction
  · rename_i returned
    obtain rfl := Option.some.inj ran
    exact .heartbeat core (by simp [nfPktDispatcher, heartbeatCall, lan]) rfl handled ((Bool.not_eq_true _).mp returned)

theorem step_of_firstStep {core : Fin setup.numCores} {port dstAddr : Nat} {sent : Pkt} {actions : List Action}
    (wan : setup.isWan 0 = true) (ran : firstStep core s port dstAddr = some (sent, actions, t)) :
    Step setup s (.client core (flowOf port dstAddr) sent actions) t := by
  obtain ⟨outcome, handled, ran⟩ := Option.bind_eq_some_iff.mp ran
  split at ran
  · contradiction
  · rename_i returned
    simp only [Option.some.injEq, Prod.mk.injEq] at ran
    obtain ⟨rfl, rfl, rfl⟩ := ran
    simp only [Bool.or_eq_true, not_or, Bool.not_eq_true, Option.isSome_eq_false_iff, Option.isNone_iff_eq_none] at returned
    exact @Step.unknown setup s (packetCall core s port dstAddr) outcome _ core (by simp [nfPktDispatcher, packetCall, flowOf, wan]) rfl returned.2
      handled returned.1

theorem step_of_laterStep {core : Fin setup.numCores} {port dstAddr : Nat} {sent : Pkt} {actions : List Action}
    (wan : setup.isWan 0 = true) (ran : laterStep core s port dstAddr = some (sent, actions, t)) :
    Step setup s (.client core (flowOf port dstAddr) sent actions) t := by
  obtain ⟨outcome, handled, ran⟩ := Option.bind_eq_some_iff.mp ran
  split at ran
  · contradiction
  · rename_i returned
    simp only [Option.some.injEq, Prod.mk.injEq] at ran
    obtain ⟨rfl, rfl, rfl⟩ := ran
    exact @Step.registered setup s (packetCall core s port dstAddr) outcome _ core (by simp [nfPktDispatcher, packetCall, flowOf, wan]) rfl rfl
      handled ((Bool.not_eq_true _).mp returned)

theorem step_of_sweepStep {now : Int} {freed : List Nat} (ran : sweepStep s now = some (freed, t)) : Step setup s (.swept now freed) t := by
  obtain ⟨⟨sweep, l⟩, swept, ran⟩ := Option.bind_eq_some_iff.mp ran
  obtain ⟨rfl, rfl⟩ := Prod.mk.inj (Option.some.inj ran)
  exact .sweep now (Txs.ok_of_toOption swept)

/-- Two backends and two flows, of which each gets another one. One backend goes on, the other one is swept
away, and the flow of the first one sends a second packet. -/
theorem two_backends_run : ∃ (setup : Setup) (init : NfState Elements) (p r t q : State setup) (core : Fin setup.numCores)
    (first second third : Pkt),
    nfInit (exampleConfig .lb) 1000000 10000000 (fun _ => 0) (fun _ => 0) blankState = some (setup, init) ∧
    Trace (Step setup) (.start init) [.heartbeat 7 0, .heartbeat 8 0, .client core (flowOf 4 2) first [.sendPkt 1]] p ∧
    p.flows core (flowOf 4 2) = some ⟨(0 : Nat)⟩ ∧ 0 ∈ p.globalState.alive setup ∧ 1 ∈ p.globalState.alive setup ∧
    Trace (Step setup) p [.client core (flowOf 3 2) second [.sendPkt 1], .heartbeat 7 15000000] r ∧
    r.flows core (flowOf 3 2) = some ⟨(1 : Nat)⟩ ∧
    Step setup r (.swept 20000000 [1]) t ∧ Step setup t (.client core (flowOf 4 2) third [.sendPkt 1]) q := by
  have ran : (do
      let z ← nfInit (exampleConfig .lb) 1000000 10000000 (fun _ => 0) (fun _ => 0) blankState
      if h : 0 < z.1.numCores then do
        let core : Fin z.1.numCores := ⟨0, h⟩
        let heard ← heartbeatStep core (.start z.2) 7 0
        let heard' ← heartbeatStep core heard 8 0
        let first ← firstStep core heard' 4 2
        let second ← firstStep core first.2.2 3 2
        let heard'' ← heartbeatStep core second.2.2 7 15000000
        let swept ← sweepStep heard'' 20000000
        let third ← laterStep core swept.2 4 2
        return (z.1.isWan 0 && !z.1.isWan 1 && decide (z.1.backendCapacity = 2) &&
          decide (first.2.1 = [.sendPkt 1]) && decide (second.2.1 = [.sendPkt 1]) && decide (third.2.1 = [.sendPkt 1]) &&
          decide (first.2.2.flows core (flowOf 4 2) = some ⟨(0 : Nat)⟩) && decide (heard''.flows core (flowOf 3 2) = some ⟨(1 : Nat)⟩) &&
          decide (Marked z.1.numCores first.2.2.globalState.tables.backends 0) &&
          decide (Marked z.1.numCores first.2.2.globalState.tables.backends 1) && decide (swept.1 = [1]))
      else none) = some true := by
    decide +kernel
  obtain ⟨⟨setup, init⟩, started, ran⟩ := Option.bind_eq_some_iff.mp ran
  split at ran
  · simp only [Option.bind_eq_bind, Option.bind_eq_some_iff, Option.pure_def, Option.some.injEq, Bool.and_eq_true, Bool.not_eq_true',
      decide_eq_true_eq] at ran
    obtain ⟨s₁, heard, s₂, heard', ⟨first, _, p⟩, began, ⟨second, _, s₃⟩, began', r, heard'', ⟨_, t⟩, swept, ⟨third, _, q⟩, went, checks⟩ :=
      ran
    dsimp only at checks heard'' began' swept went
    obtain ⟨⟨⟨⟨⟨⟨⟨⟨⟨⟨wan, lan⟩, capacity⟩, rfl⟩, rfl⟩, rfl⟩, flow⟩, flow'⟩, marked⟩, marked'⟩, rfl⟩ := checks
    refine ⟨setup, init, p, r, t, q, _, first, second, third, started, ?_, flow, ⟨by omega, marked⟩, ⟨by omega, marked'⟩, ?_, flow',
      step_of_sweepStep swept, step_of_laterStep wan went⟩
    · exact ((Trace.start.extend (step_of_heartbeatStep lan heard)).extend (step_of_heartbeatStep lan heard')).extend
        (step_of_firstStep wan began)
    · exact (Trace.start.extend (step_of_firstStep wan began')).extend (step_of_heartbeatStep lan heard'')
  · exact absurd ran.symm (Option.some_ne_none true)

/-- In any order of the transactions, the packets of clients are sent to backends that are alive. -/
theorem balances_onto_live (positive : 0 < config.backendCapacity) (small : config.backendCapacity < 2 ^ 31)
    (ended : nfInit config tscHz backendExpirationTime permutations next memory = some (setup, init))
    (run : Trace (Step setup) (.start init) history s) : Backends setup history s.globalState ∧
      ∀ core id sent actions t dev, Step setup s (.client core id sent actions) t → .sendPkt dev ∈ actions →
        ∃ i ∈ s.globalState.alive setup, t.globalState = s.globalState ∧ Towards (s.globalState.backendInfo i) dev sent := by
  obtain ⟨sound, holds, empty⟩ := nfInit_holds positive small ended
  obtain ⟨held, beats⟩ := beats_of_run sound run holds empty
  have found (ip : Nat) (v : Int) : s.globalState.lookup setup ip = some v ↔
      ∃ i ∈ s.globalState.alive setup, v = (i : Int) ∧ s.globalState.backendIps i = ip := held.found_iff sound
  refine ⟨⟨found, ?_, ?_⟩, ?_⟩
  · obtain ⟨Q, invariant⟩ := held
    exact invariant.info
  · intro i present
    exact beats _ i ((found _ _).mpr ⟨i, present, rfl, rfl⟩)
  · intro core id sent actions t dev step going
    obtain ⟨same, _, balances⟩ := step.balances
    obtain ⟨i, present, towards, _⟩ := balances.sent dev going
    exact ⟨i, present, same, towards⟩

theorem balances_onto_live_once : ∃ (setup : Setup) (init : NfState Elements) (p : State setup) (sent : Pkt)
    (history : List (Event setup)) (i : Nat),
    nfInit (exampleConfig .lb) 1000000 10000000 (fun _ => 0) (fun _ => 0) blankState = some (setup, init) ∧
    Trace (Step setup) (.start init) history p ∧ Backends setup history p.globalState ∧
    i ∈ p.globalState.alive setup ∧ Towards (p.globalState.backendInfo i) 1 sent := by
  obtain ⟨setup, init, p, r, t, q, core, first, second, third, started, before, _, _, _, mid, _, cleared, going⟩ := two_backends_run
  have run := (before.append mid).extend cleared
  obtain ⟨backends, sent⟩ := balances_onto_live (by decide) (by decide) started run
  obtain ⟨i, alive, _, towards⟩ := sent core _ third [.sendPkt 1] q 1 going (by simp)
  exact ⟨setup, init, t, third, _, i, started, run, backends, alive, towards⟩

theorem sticks_of_run (sound : setup.Sound) (holds : Holds setup p.globalState) (assigned : p.flows core id = some ⟨(i : Int)⟩)
    (present : i ∈ p.globalState.alive setup) (run : Trace (Step setup) p mid q)
    (alive : ∀ now freed, .swept now freed ∈ mid → i ∉ freed) (registered : .expired core id ∉ mid) :
    Holds setup q.globalState ∧ q.flows core id = some ⟨(i : Int)⟩ ∧ i ∈ q.globalState.alive setup ∧
      q.globalState.backendInfo i = p.globalState.backendInfo i ∧
      ∀ sent actions dev, .client core id sent actions ∈ mid → .sendPkt dev ∈ actions →
        Towards (p.globalState.backendInfo i) dev sent := by
  refine run.rule (P := fun mid q => (∀ now freed, .swept now freed ∈ mid → i ∉ freed) → .expired core id ∉ mid →
    Holds setup q.globalState ∧ q.flows core id = some ⟨(i : Int)⟩ ∧ i ∈ q.globalState.alive setup ∧
      q.globalState.backendInfo i = p.globalState.backendInfo i ∧
      ∀ sent actions dev, .client core id sent actions ∈ mid → .sendPkt dev ∈ actions →
        Towards (p.globalState.backendInfo i) dev sent) ?initial ?keeps alive registered
  case initial =>
    intro _ _
    exact ⟨holds, assigned, present, rfl, by simp⟩
  case keeps =>
    intro past t e u _ earlier step alive registered
    obtain ⟨holds, flow, present, info, sent⟩ := earlier (fun now freed member => alive now freed (List.mem_append_left _ member))
      fun member => registered (List.mem_append_left _ member)
    obtain ⟨lasts, _, same⟩ := step.lasts sound holds present fun now freed clash => alive now freed (by simp [clash])
    have stays := step.stays present flow (fun clash => registered (by simp [clash])) sound holds
    refine ⟨step.holds sound holds, stays, lasts, same.trans info, ?_⟩
    intro pkt actions dev member going
    rcases List.mem_append.mp member with old | new
    · exact sent pkt actions dev old going
    · obtain rfl := List.mem_singleton.mp new
      obtain ⟨_, _, balances⟩ := step.balances
      obtain ⟨j, _, towards, own⟩ := balances.sent dev going
      rw [stays, flow] at own
      obtain rfl : i = j := by simpa using own
      rwa [← info]

/-- A flow stays with its backend as long as that is alive and the packet set is registered: all its
packets have the destination, the device and the addresses of that backend. -/
theorem flow_sticks (positive : 0 < config.backendCapacity) (small : config.backendCapacity < 2 ^ 31)
    (ended : nfInit config tscHz backendExpirationTime permutations next memory = some (setup, init))
    (before : Trace (Step setup) (.start init) past p) (assigned : p.flows core id = some ⟨(i : Int)⟩)
    (present : i ∈ p.globalState.alive setup) (run : Trace (Step setup) p mid q)
    (alive : ∀ now freed, .swept now freed ∈ mid → i ∉ freed) (registered : .expired core id ∉ mid) :
    q.flows core id = some ⟨(i : Int)⟩ ∧ i ∈ q.globalState.alive setup ∧
      q.globalState.backendInfo i = p.globalState.backendInfo i ∧
      ∀ sent actions dev, .client core id sent actions ∈ mid → .sendPkt dev ∈ actions →
        Towards (p.globalState.backendInfo i) dev sent := by
  obtain ⟨sound, holds, _⟩ := nfInit_holds positive small ended
  exact (sticks_of_run sound (holds_of_run sound before holds) assigned present run alive registered).2

theorem flow_sticks_once : ∃ (setup : Setup) (init : NfState Elements) (past : List (Event setup)) (p q : State setup)
    (core : Fin setup.numCores) (other third : Pkt),
    nfInit (exampleConfig .lb) 1000000 10000000 (fun _ => 0) (fun _ => 0) blankState = some (setup, init) ∧
    Trace (Step setup) (.start init) past p ∧ 1 ∈ p.globalState.alive setup ∧
    Trace (Step setup) p [.client core (flowOf 3 2) other [.sendPkt 1], .heartbeat 7 15000000, .swept 20000000 [1],
      .client core (flowOf 4 2) third [.sendPkt 1]] q ∧
    q.flows core (flowOf 4 2) = some ⟨(0 : Nat)⟩ ∧ q.globalState.backendInfo 0 = p.globalState.backendInfo 0 ∧
    Towards (p.globalState.backendInfo 0) 1 third := by
  obtain ⟨setup, init, p, r, t, q, core, first, second, third, started, before, flow, present, present', mid, _, cleared, going⟩ :=
    two_backends_run
  have run := (mid.extend cleared).extend going
  obtain ⟨stays, _, info, sent⟩ := flow_sticks (by decide) (by decide) started before flow present run (by simp) (by simp)
  exact ⟨setup, init, _, p, q, core, second, third, started, before, present', run, stays, info,
    sent third [.sendPkt 1] 1 (by simp) (by simp)⟩

/-- A sweep, one committed pass of the loop, frees only backends whose last heartbeat is longer ago than the
validity, and all of these if the heartbeats come in the order of their times. -/
theorem sweep_frees_silent (positive : 0 < config.backendCapacity) (small : config.backendCapacity < 2 ^ 31)
    (ended : nfInit config tscHz backendExpirationTime permutations next memory = some (setup, init))
    (run : Trace (Step setup) (.start init) history s) {now : Int} {freed : List Nat} {t : State setup}
    (step : Step setup s (.swept now freed) t) :
    (∀ i ∈ freed, i ∈ s.globalState.alive setup ∧
      ∃ beat, lastBeat history (s.globalState.backendIps i) = some beat ∧ beat + setup.validity < now) ∧
    ((history.filterMap Event.stamp).Pairwise (· ≤ ·) → ∀ i ∈ t.globalState.alive setup,
      ∃ beat, lastBeat history (t.globalState.backendIps i) = some beat ∧ now ≤ beat + setup.validity) := by
  obtain ⟨sound, holds, empty⟩ := nfInit_holds positive small ended
  obtain ⟨held, beats⟩ := beats_of_run sound run holds empty
  have alive {i : Nat} (present : i ∈ s.globalState.alive setup) := beats _ i ((held.found_iff sound).mpr ⟨i, present, rfl, rfl⟩)
  constructor
  · intro i gone
    obtain ⟨Q, invariant⟩ := held
    obtain ⟨_, Q', _, expelled⟩ := step.expelled sound invariant
    obtain ⟨present, passed⟩ := expelled.cleared.passed invariant.coherent.valid gone
    obtain ⟨beat, last, time⟩ := alive present
    exact ⟨present, beat, last, time ▸ passed⟩
  · intro order i stays
    obtain ⟨latest, Q, invariant, aged⟩ := ordered_of_run sound run holds empty order
    obtain ⟨_, Q', _, expelled⟩ := step.expelled sound invariant
    have current := expelled.cleared.current aged stays
    have present : i ∈ s.globalState.alive setup := by
      rw [show t.globalState.alive setup = _ from expelled.cleared.numbers] at stays
      exact stays.1
    obtain ⟨beat, last, time⟩ := alive present
    rw [show t.globalState.backendIps = _ from expelled.cleared.keys]
    exact ⟨beat, last, time ▸ current⟩

theorem sweep_frees_silent_once : ∃ (setup : Setup) (init : NfState Elements) (r t : State setup) (history : List (Event setup)),
    nfInit (exampleConfig .lb) 1000000 10000000 (fun _ => 0) (fun _ => 0) blankState = some (setup, init) ∧
    Trace (Step setup) (.start init) history r ∧ Step setup r (.swept 20000000 [1]) t ∧
    (∃ beat, lastBeat history (r.globalState.backendIps 1) = some beat ∧ beat + setup.validity < 20000000) ∧
    ∀ i ∈ t.globalState.alive setup, ∃ beat, lastBeat history (t.globalState.backendIps i) = some beat ∧
      20000000 ≤ beat + setup.validity := by
  obtain ⟨setup, init, p, r, t, q, core, first, second, third, started, before, _, _, _, mid, _, cleared, _⟩ := two_backends_run
  have run := before.append mid
  obtain ⟨silent, left⟩ := sweep_frees_silent (by decide) (by decide) started run cleared
  obtain ⟨_, beat, last, passed⟩ := silent 1 (by simp)
  exact ⟨setup, init, r, t, _, started, run, cleared, ⟨beat, last, passed⟩, left (by simp [List.filterMap_cons, Event.stamp])⟩

end Runs

end Nfos.Maglev
