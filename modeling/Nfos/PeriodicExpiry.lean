import Nfos.PeriodicSweeps
import Nfos.BridgeRuns
import Nfos.MaglevRuns

/-! `exp_mac` and `expire_backend` with aborts. After an attempt that fails only at its end, the handler
commits an empty transaction. -/
namespace Nfos.Bridge
open Txn Vectors Map DoubleChainExp AgeingTable Run
variable {setup : Setup} {s init : NfState Elements} {now : Int} {history : List Event}

def macSnapshots : Snapshots macTable (NfState Elements) where
  start := NfState.start
  view := NfState.view
  table := NfState.table
  table_start _ := rfl
  table_view _ := rfl

/-- The handler, where the attempts read these states. -/
def expMac (setup : Setup) (now : Int) (attempts : List (Attempt (NfState Elements))) :
    Option (Expiration (NfState Elements) × List (Attempt (NfState Elements))) :=
  expirePeriodically (expMacLoop setup now) NfState.start NfState.view attempts

theorem Ordered.inOrder {latest : Int} (ordered : Ordered setup latest s) (now : Int) :
    InOrder setup.numCores setup.dynCapacity now s.dynHeap := by
  obtain ⟨Q, invariant, aged⟩ := ordered
  exact ⟨Q, invariant.coherent.valid, fun c => (aged.sorted c).imp fun order passed => order.trans_lt passed⟩

variable {config : Config} {crc32si : Nat → Nat → Nat} {tscHz : Nat} {memory : NfState Elements}
variable {attempts rest : List (Attempt (NfState Elements))} {x : Expiration (NfState Elements)}

theorem inOrder_of_run (ended : nfInit config crc32si tscHz memory = some (setup, init)) (run : Trace (Step setup) init history s)
    (order : (history.filterMap Event.stamp).Pairwise (· ≤ ·)) (now : Int) : InOrder setup.numCores setup.dynCapacity now s.dynHeap := by
  have initial : ∀ latest, Ordered setup latest init := fun latest => (nfInit_ordered ended latest).2
  obtain ⟨latest, bound⟩ := (history.filterMap Event.stamp).toFinset.exists_le
  have ordered := ordered_of_run (nfInit_ordered ended 0).1 run initial order fun now stamped => bound now (List.mem_toFinset.mpr stamped)
  exact ordered.inOrder now

theorem expMac_committed (ended : nfInit config crc32si tscHz memory = some (setup, init))
    (reached : ∀ a ∈ attempts, ∃ history, Trace (Step setup) init history a.snapshot)
    (ran : expMac setup now attempts = some (x, rest)) :
    ∃ failed a freed s', attempts = failed ++ a :: rest ∧ a.unlocks = true ∧ x.committed = some (freed, s') ∧
      Purges (expMacLoop setup now) NfState.start setup.map setup.numCores setup.dynCapacity now failed a.snapshot.table s'.table := by
  obtain ⟨sound, ordered⟩ := nfInit_ordered ended 0
  have coherent : ∀ a ∈ attempts, ∃ find Q, Coherent setup.map setup.numCores setup.dynCapacity a.snapshot.table find Q := by
    intro a member
    obtain ⟨history, run⟩ := reached a member
    obtain ⟨Q, invariant⟩ := holds_of_run sound run ordered.holds
    exact ⟨_, Q, invariant.coherent⟩
  exact expirePeriodically_purges macSnapshots sound.exact sound.cores coherent ran

/-- `exp_mac` under any aborts, in any order of the transactions before. -/
theorem expMac_purges (ended : nfInit config crc32si tscHz memory = some (setup, init))
    (reached : ∀ a ∈ attempts, ∃ history, Trace (Step setup) init history a.snapshot)
    (ran : expMac setup now attempts = some (x, rest)) :
    ∃ failed a freed s', attempts = failed ++ a :: rest ∧ a.unlocks = true ∧ x.committed = some (freed, s') ∧
      Purges (expMacLoop setup now) NfState.start setup.map setup.numCores setup.dynCapacity now failed a.snapshot.table s'.table ∧
      ∀ history, Trace (Step setup) init history a.snapshot → (history.filterMap Event.stamp).Pairwise (· ≤ ·) →
        InOrder setup.numCores setup.dynCapacity now a.snapshot.dynHeap := by
  obtain ⟨failed, a, freed, s', split, unlocks, committed, purges⟩ := expMac_committed ended reached ran
  exact ⟨failed, a, freed, s', split, unlocks, committed, purges, fun history run order => inOrder_of_run ended run order now⟩

/-- A source that was seen once. With all locks granted the loop ends, also in the state of `nf_init`. -/
theorem firstMac_learned : ∃ setup init p, nfInit oneMac (fun _ _ => 0) 1000000 blankMemory = some (setup, init) ∧
    Trace (Step setup) init [.handled firstHeader 3 5 (.added true) [.floodPkt]] p ∧
    0 ∈ live setup.numCores setup.dynCapacity p.dynHeap ∧ p.table.time setup.numCores 0 < 10 ∧
    (∃ r, expMacLoop setup 10 (fun _ _ => true) init.start = .ok r) ∧ (∃ r, expMacLoop setup 10 (fun _ _ => true) p.start = .ok r) ∧
    expMacLoop setup 10 (fun _ _ => false) p.start = .error .abort := by
  have ran : ((nfInit oneMac (fun _ _ => 0) 1000000 blankMemory).bind fun r =>
      (pktHandler r.1 0 firstHeader 3 5 (fun _ _ => true) r.2.start).toOption.map fun y =>
        (r.1.numCores == 1 && r.1.dynCapacity == 1 && decide (Cells.indOf y.2.view.dynHeap (indexShift r.1.numCores + 0) ≠ -1) &&
          decide (Cells.extraOf y.2.view.dynHeap (indexShift r.1.numCores + 0) < (10 : Int)) &&
          (expMacLoop r.1 10 (fun _ _ => true) r.2.start).toOption.isSome &&
          (expMacLoop r.1 10 (fun _ _ => true) y.2.view.start).toOption.isSome &&
          Txs.isAbort (expMacLoop r.1 10 (fun _ _ => false) y.2.view.start),
          y.1.1, y.1.2)) = some (true, .added true, [.floodPkt]) := by
    decide +kernel
  obtain ⟨⟨setup, init⟩, ended, ran⟩ := Option.bind_eq_some_iff.mp ran
  obtain ⟨⟨⟨learning, actions⟩, l⟩, handled, same⟩ := Option.map_eq_some_iff.mp ran
  simp only [Prod.mk.injEq, Bool.and_eq_true, beq_iff_eq, decide_eq_true_eq] at same
  obtain ⟨⟨⟨⟨⟨⟨⟨cores, capacity⟩, marked⟩, passed⟩, before⟩, after⟩, aborts⟩, rfl, rfl⟩ := same
  have first : Step setup init (.handled firstHeader 3 5 (.added true) [.floodPkt]) l.view :=
    .handle ⟨0, by omega⟩ firstHeader 3 5 (Txs.ok_of_toOption handled)
  refine ⟨setup, init, l.view, ended, Trace.start.extend first, ⟨by omega, marked⟩, passed, ?_, ?_, Txs.eq_of_isAbort aborts⟩
  · obtain ⟨r, ended⟩ := Option.isSome_iff_exists.mp before
    exact ⟨r, Txs.ok_of_toOption ended⟩
  · obtain ⟨r, ended⟩ := Option.isSome_iff_exists.mp after
    exact ⟨r, Txs.ok_of_toOption ended⟩

/-- The loop of the first attempt ends, but its transaction fails: the second attempt commits and leaves
the entry whose time has passed. -/
theorem expMac_leaves_expired : ∃ setup init p x rest s', nfInit oneMac (fun _ _ => 0) 1000000 blankMemory = some (setup, init) ∧
    Trace (Step setup) init [.handled firstHeader 3 5 (.added true) [.floodPkt]] p ∧
    expMac setup 10 [⟨p, fun _ _ => true, false⟩, ⟨p, fun _ _ => true, true⟩] = some (x, rest) ∧ x.committed = some ([], s') ∧
    ¬ Purged setup.map setup.numCores setup.dynCapacity 10 p.table s'.table := by
  obtain ⟨setup, init, p, ended, run, present, passed, _, finishes, _⟩ := firstMac_learned
  have returned : expMac setup 10 [⟨p, fun _ _ => true, false⟩, ⟨p, fun _ _ => true, true⟩] = some (⟨true, some ([], p)⟩, []) :=
    expirePeriodically_skips sweepAll_done finishes rfl rfl
  obtain ⟨failed, a, gone, s', split, unlocks, committed, purges, _⟩ := expMac_purges ended (by simpa using ⟨_, run⟩) returned
  obtain ⟨rfl, rfl⟩ := split_pair split rfl unlocks
  obtain ⟨rfl, rfl⟩ := Prod.mk.inj (Option.some.inj committed)
  refine ⟨setup, init, p, _, [], p, ended, run, returned, rfl, fun purged => ?_⟩
  have current := (purges.skipped ⟨_, List.mem_singleton.mpr rfl, finishes⟩).mp purged
  exact absurd passed (not_lt.mpr (current 0 present))

end Nfos.Bridge

namespace Nfos.Maglev
open Txn Vectors Map DoubleChainExp DataPlane AgeingTable Run
variable {setup config : Setup} {g init : NfState Elements} {now : Int}

def backendSnapshots : Snapshots backendTable (NfState Elements) where
  start := NfState.start
  view := NfState.view
  table := NfState.table
  table_start _ := rfl
  table_view _ := rfl

/-- The handler, where the attempts read these states. -/
def expireBackend (setup : Setup) (now : Int) (attempts : List (Attempt (NfState Elements))) :
    Option (Expiration (NfState Elements) × List (Attempt (NfState Elements))) :=
  expirePeriodically (expireBackendLoop setup now) NfState.start NfState.view attempts

theorem Ordered.inOrder {latest : Int} (ordered : Ordered setup latest g) (now : Int) :
    InOrder setup.numCores setup.backendCapacity now g.tables.backends := by
  obtain ⟨Q, invariant, aged⟩ := ordered
  exact ⟨Q, invariant.coherent.valid, fun c => (aged.sorted c).imp fun order passed => order.trans_lt passed⟩

variable {tscHz : Nat} {backendExpirationTime : Int} {permutations next : Nat → Int} {memory : NfState Elements}
variable {attempts rest : List (Attempt (NfState Elements))} {x : Expiration (NfState Elements)}

theorem inOrder_of_run {history : List (Event setup)} {s : State setup} (positive : 0 < config.backendCapacity)
    (small : config.backendCapacity < 2 ^ 31)
    (ended : nfInit config tscHz backendExpirationTime permutations next memory = some (setup, init))
    (run : Trace (Step setup) (.start init) history s) (order : (history.filterMap Event.stamp).Pairwise (· ≤ ·)) (now : Int) :
    InOrder setup.numCores setup.backendCapacity now s.globalState.tables.backends := by
  obtain ⟨sound, holds, empty⟩ := nfInit_holds positive small ended
  obtain ⟨latest, ordered⟩ := ordered_of_run sound run holds empty order
  exact ordered.inOrder now

theorem expireBackend_committed (positive : 0 < config.backendCapacity) (small : config.backendCapacity < 2 ^ 31)
    (ended : nfInit config tscHz backendExpirationTime permutations next memory = some (setup, init))
    (reached : ∀ a ∈ attempts, ∃ history s, Trace (Step setup) (.start init) history s ∧ s.globalState = a.snapshot)
    (ran : expireBackend setup now attempts = some (x, rest)) :
    ∃ failed a freed s', attempts = failed ++ a :: rest ∧ a.unlocks = true ∧ x.committed = some (freed, s') ∧
      Purges (expireBackendLoop setup now) NfState.start setup.map setup.numCores setup.backendCapacity now failed a.snapshot.table
        s'.table := by
  obtain ⟨sound, holds, _⟩ := nfInit_holds positive small ended
  have coherent : ∀ a ∈ attempts, ∃ find Q, Coherent setup.map setup.numCores setup.backendCapacity a.snapshot.table find Q := by
    intro a member
    obtain ⟨history, s, run, here⟩ := reached a member
    obtain ⟨Q, invariant⟩ := holds_of_run sound run holds
    rw [here] at invariant
    exact ⟨_, Q, invariant.coherent⟩
  exact expirePeriodically_purges backendSnapshots sound.exact sound.cores coherent ran

/-- `expire_backend` under any aborts, in any order of the transactions before. -/
theorem expireBackend_purges (positive : 0 < config.backendCapacity) (small : config.backendCapacity < 2 ^ 31)
    (ended : nfInit config tscHz backendExpirationTime permutations next memory = some (setup, init))
    (reached : ∀ a ∈ attempts, ∃ history s, Trace (Step setup) (.start init) history s ∧ s.globalState = a.snapshot)
    (ran : expireBackend setup now attempts = some (x, rest)) :
    ∃ failed a freed s', attempts = failed ++ a :: rest ∧ a.unlocks = true ∧ x.committed = some (freed, s') ∧
      Purges (expireBackendLoop setup now) NfState.start setup.map setup.numCores setup.backendCapacity now failed a.snapshot.table
        s'.table ∧
      ∀ history s, Trace (Step setup) (.start init) history s → s.globalState = a.snapshot →
        (history.filterMap Event.stamp).Pairwise (· ≤ ·) →
        InOrder setup.numCores setup.backendCapacity now a.snapshot.tables.backends := by
  obtain ⟨failed, a, freed, s', split, unlocks, committed, purges⟩ := expireBackend_committed positive small ended reached ran
  refine ⟨failed, a, freed, s', split, unlocks, committed, purges, ?_⟩
  rintro history s run here order
  rw [← here]
  exact inOrder_of_run positive small ended run order now

/-- A backend that has sent one heartbeat. With all locks granted the loop ends. -/
theorem firstBackend_heard : ∃ (setup : Setup) (init : NfState Elements) (p : State setup),
    nfInit (exampleConfig .lb) 1000000 10000000 (fun _ => 0) (fun _ => 0) blankState = some (setup, init) ∧
    Trace (Step setup) (.start init) [.heartbeat 7 0] p ∧
    0 ∈ live setup.numCores setup.backendCapacity p.globalState.tables.backends ∧
    p.globalState.table.time setup.numCores 0 < 20000000 ∧
    (∃ r, expireBackendLoop setup 20000000 (fun _ _ => true) p.globalState.start = .ok r) ∧
    expireBackendLoop setup 20000000 (fun _ _ => false) p.globalState.start = .error .abort := by
  have beaten : ((nfInit (exampleConfig .lb) 1000000 10000000 (fun _ => 0) (fun _ => 0) blankState).bind fun z =>
      (heartbeatHandler z.1 0 (fun _ _ => true) (heartbeatCall z.2)).map fun outcome =>
        z.1.numCores == 1 && z.1.backendCapacity == 2 && !z.1.isWan 1 && !outcome.abort &&
          decide (Cells.indOf outcome.globalState.tables.backends (indexShift z.1.numCores + 0) ≠ -1) &&
          decide (Cells.extraOf outcome.globalState.tables.backends (indexShift z.1.numCores + 0) < (20000000 : Int)) &&
          (expireBackendLoop z.1 20000000 (fun _ _ => true) outcome.globalState.start).toOption.isSome &&
          Txs.isAbort (expireBackendLoop z.1 20000000 (fun _ _ => false) outcome.globalState.start)) = some true := by
    decide +kernel
  obtain ⟨⟨setup, init⟩, started, beaten⟩ := Option.bind_eq_some_iff.mp beaten
  dsimp only at beaten
  obtain ⟨outcome, beats, same⟩ := Option.map_eq_some_iff.mp beaten
  simp only [Bool.and_eq_true, beq_iff_eq, Bool.not_eq_true', decide_eq_true_eq] at same
  obtain ⟨⟨⟨⟨⟨⟨⟨cores, capacity⟩, lan⟩, kept⟩, marked⟩, passed⟩, finishes⟩, aborts⟩ := same
  let p : State setup := { State.start init with globalState := outcome.globalState }
  have heard : Step setup (.start init) (.heartbeat 7 0) p :=
    .heartbeat ⟨0, by omega⟩ (by simp [nfPktDispatcher, heartbeatCall, lan]) rfl beats kept
  obtain ⟨r, ended⟩ := Option.isSome_iff_exists.mp finishes
  exact ⟨setup, init, p, started, Trace.start.extend heard, ⟨by omega, marked⟩, passed, ⟨r, Txs.ok_of_toOption ended⟩,
    Txs.eq_of_isAbort aborts⟩

/-- The loop of the first attempt ends, but its transaction fails: the second attempt commits and leaves
the backend whose validity is over. -/
theorem expireBackend_leaves_expired : ∃ (setup : Setup) (init : NfState Elements) (p : State setup) (x : Expiration (NfState Elements))
    (rest : List (Attempt (NfState Elements))) (s' : NfState Elements),
    nfInit (exampleConfig .lb) 1000000 10000000 (fun _ => 0) (fun _ => 0) blankState = some (setup, init) ∧
    Trace (Step setup) (.start init) [.heartbeat 7 0] p ∧
    expireBackend setup 20000000 [⟨p.globalState, fun _ _ => true, false⟩, ⟨p.globalState, fun _ _ => true, true⟩] = some (x, rest) ∧
    x.committed = some ([], s') ∧
    ¬ Purged setup.map setup.numCores setup.backendCapacity 20000000 p.globalState.table s'.table := by
  obtain ⟨setup, init, p, started, run, present, passed, finishes, _⟩ := firstBackend_heard
  have returned : expireBackend setup 20000000 [⟨p.globalState, fun _ _ => true, false⟩, ⟨p.globalState, fun _ _ => true, true⟩] =
      some (⟨true, some ([], p.globalState)⟩, []) := expirePeriodically_skips sweepAll_done finishes rfl rfl
  have reached : ∃ history s, Trace (Step setup) (.start init) history s ∧ s.globalState = p.globalState := ⟨_, p, run, rfl⟩
  obtain ⟨failed, a, gone, s', split, unlocks, committed, purges, _⟩ :=
    expireBackend_purges (by decide) (by decide) started (by simpa using reached) returned
  obtain ⟨rfl, rfl⟩ := split_pair split rfl unlocks
  obtain ⟨rfl, rfl⟩ := Prod.mk.inj (Option.some.inj committed)
  refine ⟨setup, init, p, _, [], p.globalState, started, run, returned, rfl, fun purged => ?_⟩
  have current := (purges.skipped ⟨_, List.mem_singleton.mpr rfl, finishes⟩).mp purged
  exact absurd passed (not_lt.mpr (current 0 present))

end Nfos.Maglev

namespace Nfos
open AgeingTable Run

/-- A handler of periodic expiry that returns has removed just the entries whose time has passed, if and
only if no attempt before has got to the end of its loop and the queues are in order, or one has and
there was nothing to remove. -/
theorem periodic_expiry_exact_iff (now : Int) :
    (∀ config crc32si tscHz memory setup init, Bridge.nfInit config crc32si tscHz memory = some (setup, init) →
      ∀ attempts x rest, (∀ a ∈ attempts, ∃ history, Trace (Bridge.Step setup) init history a.snapshot) →
      Bridge.expMac setup now attempts = some (x, rest) →
      ∃ failed a freed s', attempts = failed ++ a :: rest ∧ x.committed = some (freed, s') ∧
        (Purged setup.map setup.numCores setup.dynCapacity now a.snapshot.table s'.table ↔
          Unhindered (Bridge.expMacLoop setup now) Bridge.NfState.start setup.numCores setup.dynCapacity now failed a.snapshot.table)) ∧
    ∀ (config : Maglev.Setup) tscHz backendExpirationTime permutations next memory setup init, 0 < config.backendCapacity →
      config.backendCapacity < 2 ^ 31 →
      Maglev.nfInit config tscHz backendExpirationTime permutations next memory = some (setup, init) →
      ∀ attempts x rest,
      (∀ a ∈ attempts, ∃ history s, Trace (Maglev.Step setup) (.start init) history s ∧ s.globalState = a.snapshot) →
      Maglev.expireBackend setup now attempts = some (x, rest) →
      ∃ failed a freed s', attempts = failed ++ a :: rest ∧ x.committed = some (freed, s') ∧
        (Purged setup.map setup.numCores setup.backendCapacity now a.snapshot.table s'.table ↔
          Unhindered (Maglev.expireBackendLoop setup now) Maglev.NfState.start setup.numCores setup.backendCapacity now failed
            a.snapshot.table) := by
  constructor
  · intro config crc32si tscHz memory setup init ended attempts x rest reached ran
    obtain ⟨failed, a, freed, s', split, _, committed, purges⟩ := Bridge.expMac_committed ended reached ran
    exact ⟨failed, a, freed, s', split, committed, purges.purged_iff⟩
  · intro config tscHz backendExpirationTime permutations next memory setup init positive small ended attempts x rest reached ran
    obtain ⟨failed, a, freed, s', split, _, committed, purges⟩ := Maglev.expireBackend_committed positive small ended reached ran
    exact ⟨failed, a, freed, s', split, committed, purges.purged_iff⟩

/-- The first attempt finds nothing to remove, but its transaction fails. An entry whose time has passed
when the second attempt reads it stays. -/
theorem expired_mac_left : ∃ setup init p x, Bridge.nfInit Bridge.oneMac (fun _ _ => 0) 1000000 Bridge.blankMemory = some (setup, init) ∧
    Trace (Bridge.Step setup) init [.handled Bridge.firstHeader 3 5 (.added true) [.floodPkt]] p ∧
    Bridge.expMac setup 10 [⟨init, fun _ _ => true, false⟩, ⟨p, fun _ _ => true, true⟩] = some (x, []) ∧ x.committed = some ([], p) ∧
    ¬ Purged setup.map setup.numCores setup.dynCapacity 10 p.table p.table := by
  obtain ⟨setup, init, p, ended, run, present, passed, finishes, _⟩ := Bridge.firstMac_learned
  refine ⟨setup, init, p, _, ended, run, expirePeriodically_skips sweepAll_done finishes rfl rfl, rfl, fun purged => ?_⟩
  exact absurd passed (not_lt.mpr ((purged.numbers 0).mp present).2)

/-- An attempt that is aborted in its loop does no harm. -/
theorem periodic_expiry_exact_retried : (∃ setup init p x s',
      Bridge.nfInit Bridge.oneMac (fun _ _ => 0) 1000000 Bridge.blankMemory = some (setup, init) ∧
      Trace (Bridge.Step setup) init [.handled Bridge.firstHeader 3 5 (.added true) [.floodPkt]] p ∧
      Bridge.expMac setup 10 [⟨p, fun _ _ => false, true⟩, ⟨p, fun _ _ => true, true⟩] = some (x, []) ∧
      0 ∈ live setup.numCores setup.dynCapacity p.dynHeap ∧ x.committed.map Prod.snd = some s' ∧
      Purged setup.map setup.numCores setup.dynCapacity 10 p.table s'.table) ∧
    ∃ (setup : Maglev.Setup) (init : Maglev.NfState Vectors.Elements) (p : Maglev.State setup) (x : Expiration (Maglev.NfState Vectors.Elements))
      (s' : Maglev.NfState Vectors.Elements),
      Maglev.nfInit (Maglev.exampleConfig .lb) 1000000 10000000 (fun _ => 0) (fun _ => 0) Maglev.blankState = some (setup, init) ∧
      Trace (Maglev.Step setup) (.start init) [.heartbeat 7 0] p ∧
      Maglev.expireBackend setup 20000000 [⟨p.globalState, fun _ _ => false, true⟩, ⟨p.globalState, fun _ _ => true, true⟩] =
        some (x, []) ∧
      0 ∈ live setup.numCores setup.backendCapacity p.globalState.tables.backends ∧ x.committed.map Prod.snd = some s' ∧
      Purged setup.map setup.numCores setup.backendCapacity 20000000 p.globalState.table s'.table := by
  constructor
  · obtain ⟨setup, init, p, ended, run, present, _, _, ⟨⟨sweep, l⟩, finishes⟩, aborts⟩ := Bridge.firstMac_learned
    have returned : Bridge.expMac setup 10 [⟨p, fun _ _ => false, true⟩, ⟨p, fun _ _ => true, true⟩] =
      some (⟨sweep.done, some (sweep.freed, l.view)⟩, []) := expirePeriodically_again aborts finishes rfl
    obtain ⟨failed, a, freed, s', split, committed, iff⟩ :=
      (periodic_expiry_exact_iff 10).1 Bridge.oneMac _ 1000000 Bridge.blankMemory setup init ended _ _ _ (by simpa using ⟨_, run⟩) returned
    obtain ⟨rfl, same⟩ := List.append_inj' (show [_] ++ [_] = failed ++ [a] from split) rfl
    obtain rfl := (List.cons.inj same).1
    refine ⟨setup, init, p, _, s', ended, run, returned, present, congrArg (Option.map Prod.snd) committed, iff.mpr (.inl ⟨?_, ?_⟩)⟩
    · intro b member
      obtain rfl := List.mem_singleton.mp member
      rintro ⟨r, clash⟩
      exact absurd (aborts.symm.trans clash) (by simp)
    · exact Bridge.inOrder_of_run ended run (by simp [Bridge.Event.stamp]) 10
  · obtain ⟨setup, init, p, started, run, present, _, ⟨⟨sweep, l⟩, finishes⟩, aborts⟩ := Maglev.firstBackend_heard
    have returned : Maglev.expireBackend setup 20000000 [⟨p.globalState, fun _ _ => false, true⟩, ⟨p.globalState, fun _ _ => true, true⟩] =
      some (⟨sweep.done, some (sweep.freed, l.view)⟩, []) := expirePeriodically_again aborts finishes rfl
    have reached : ∃ history s, Trace (Maglev.Step setup) (.start init) history s ∧ s.globalState = p.globalState := ⟨_, p, run, rfl⟩
    obtain ⟨failed, a, freed, s', split, committed, iff⟩ :=
      (periodic_expiry_exact_iff 20000000).2 (Maglev.exampleConfig .lb) 1000000 10000000 (fun _ => 0) (fun _ => 0) Maglev.blankState setup init
        (by decide) (by decide) started _ _ _ (by simpa using reached) returned
    obtain ⟨rfl, same⟩ := List.append_inj' (show [_] ++ [_] = failed ++ [a] from split) rfl
    obtain rfl := (List.cons.inj same).1
    refine ⟨setup, init, p, _, s', started, run, returned, present, congrArg (Option.map Prod.snd) committed, iff.mpr (.inl ⟨?_, ?_⟩)⟩
    · intro b member
      obtain rfl := List.mem_singleton.mp member
      rintro ⟨r, clash⟩
      exact absurd (aborts.symm.trans clash) (by simp)
    · exact Maglev.inOrder_of_run (by decide) (by decide) started run (List.pairwise_singleton _ _) 20000000

end Nfos
