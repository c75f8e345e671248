import Nfos.PktSetManager
import Nfos.Lib.Retry
import Nfos.Lib.UndoLog

/-! `process_pkt` with and without `PKT_PROCESS_BATCHING`. A handler runs in a
transaction that may abort; the shared state is then undone, but the packet, the
packet-set states and the destination device live outside of the transaction. -/
namespace Nfos.DataPlane
open Function PktSetManager ConcurrentDoubleChain
variable {Ω G P S Id B : Type}

def floodPort : Nat := 65535

/-- The calls by which a handler decides where a packet goes. -/
inductive Action where
  | sendPkt (dev : Nat)
  | floodPkt
  | dropPkt
  deriving DecidableEq

/-- The effect of a call on the per-core `dst_device`; `drop_pkt` has none. -/
def Action.apply (dstDevice : Nat) : Action → Nat
  | .sendPkt dev => dev
  | .floodPkt => floodPort
  | .dropPkt => dstDevice

def deliver (dstDevice : Nat) (actions : List Action) : Nat := actions.foldl Action.apply dstDevice

/-- What a handler is given. The shared state is the view of its transaction, and
`canAdd` is the answer of `add_pkt_set`. -/
structure Call (G P S Id : Type) where
  globalState : G
  pkt : P
  incomingDev : Nat
  localState : Option S
  pktSetId : Id
  time : Int
  canAdd : Bool

/-- What a handler did: whether it returned `ABORT_HANDLER`, what it left in the
shared state, in the packet and, if it wrote to it, in the packet-set state. -/
structure Outcome (G P S Id : Type) where
  abort : Bool
  actions : List Action
  globalState : G
  pkt : P
  localState : Option S
  added : Option (S × Option Id)

structure Dispatch (Id : Type) where
  pktClass : Nat
  pktSetId : Id
  hasPktSetState : Bool

/-- The functions of an NF. The parser and the dispatcher are pure. A handler
depends on the locks it is refused, `none` is a failed assertion. -/
structure NF (Ω G P S Id B : Type) where
  nfPktParser : B → Bool × P
  nfPktDispatcher : P → Nat → Dispatch Id
  pktHandlers : Nat → Ω → Call G P S Id → Option (Outcome G P S Id)
  nfUnknownPktSetHandler : Ω → Call G P S Id → Option (Outcome G P S Id)

/-- The loops of `process_pkt` differ in the handler and in the packet-set state. -/
inductive Branch where
  | noPktSet
  | registered
  | unknown
  deriving DecidableEq

/-- A handler invocation, remembered for the specification. `registered` says whether
the packet set was in the map of the manager when the handler was called. -/
structure Invocation where
  branch : Branch
  position : Nat
  pktClass : Nat
  registered : Bool
  abort : Bool
  actions : List Action
  deriving DecidableEq

/-- The memory of a core. `pktSetState` holds the slots that the lookups returned,
`pktSetStateLog` the saved states with their slots. `running` and `history` are the
handler invocations of the running transaction and of the ended ones, the latter
with a flag for those that committed. -/
structure Plane (G P S Id : Type) where
  manager : Manager Id S
  globalState : G
  dstDevice : Nat
  packet : Nat → P
  dstDevices : Nat → Nat
  pktSetState : Nat → Nat
  pktSetStateLog : List (Nat × S)
  running : List Invocation
  history : List (Invocation × Bool)

/-- A pass through a retry loop: what the other cores committed since the last
one, the locks that are refused, and whether `RLU_READER_UNLOCK` succeeds. -/
structure Attempt (Ω G : Type) where
  others : G → G
  contention : Ω
  unlocks : Bool

/-- What a call of `process_pkt` does not change. -/
structure Context (Ω G P S Id B : Type) where
  nf : NF Ω G P S Id B
  cfg : Config Id
  mutablePktSetState : Bool
  device : Nat
  pktSetPartition : Nat
  now : Int

section Rollback

def resetLogPktSetState (p : Plane G P S Id) : Plane G P S Id := { p with pktSetStateLog := [] }

def logOnePktSetState (slot : Nat) (p : Plane G P S Id) : Plane G P S Id :=
  { p with pktSetStateLog := p.pktSetStateLog ++ [(slot, p.manager.pktSetState slot)] }

/-- The log of the unbatched variant has one entry. -/
def logPktSetState (slot : Nat) (p : Plane G P S Id) : Plane G P S Id :=
  logOnePktSetState slot (resetLogPktSetState p)

/-- Copy the saved states back, in the order in which they were logged. -/
def rollbackPktSetStates (p : Plane G P S Id) : Plane G P S Id :=
  { p with manager := { p.manager with
      pktSetState := UndoLog.replay p.pktSetStateLog p.manager.pktSetState } }

end Rollback

section Transactions
variable (ctx : Context Ω G P S Id B)

def Plane.endTxn (committed : Bool) (p : Plane G P S Id) : Plane G P S Id :=
  { p with history := p.history ++ p.running.map (·, committed), running := [] }

def Context.handler (branch : Branch) (pktClass : Nat) : Ω → Call G P S Id → Option (Outcome G P S Id) :=
  match branch with
  | .noPktSet | .registered => ctx.nf.pktHandlers pktClass
  | .unknown => ctx.nf.nfUnknownPktSetHandler

/-- The packet-set state that a handler is given. -/
def slotOf (branch : Branch) (n : Nat) (p : Plane G P S Id) : Option Nat :=
  match branch with
  | .noPktSet | .unknown => none
  | .registered => some (p.pktSetState n)

/-- The writes of a handler to the packet-set state and to the log of `add_pkt_set`. -/
def writeBack (slot : Option Nat) (outcome : Outcome G P S Id) (m : Manager Id S) : Manager Id S :=
  let states := match slot, outcome.localState with
    | some slot, some state => update m.pktSetState slot state
    | _, _ => m.pktSetState
  let m := { m with pktSetState := states }
  match outcome.added with
  | none => m
  | some (state, related) => (addPktSetLog ctx.cfg state ctx.pktSetPartition related m).2

def isRegistered (pktSetId : Id) (m : Manager Id S) : Bool :=
  (ConcurrentMap.concurrentMapGet ctx.cfg.numCores ctx.cfg.maxNumEntries ctx.cfg.map m.buckets m.cells
    pktSetId ctx.pktSetPartition).join.isSome

/-- Run a handler on the packet at position `n`, with the transaction's view of the
shared state. -/
def invoke (branch : Branch) (n : Nat) (d : Dispatch Id) (contention : Ω) (view : G)
    (p : Plane G P S Id) : Option (Outcome G P S Id × Plane G P S Id) := do
  let outcome ← ctx.handler branch d.pktClass contention
    { globalState := view, pkt := p.packet n, incomingDev := ctx.device
      localState := (slotOf branch n p).map p.manager.pktSetState
      pktSetId := d.pktSetId, time := ctx.now
      canAdd := concurrentDchainImplHasFreeIndexes ctx.cfg.numCores p.manager.cells
        ctx.pktSetPartition }
  return (outcome, { p with
    manager := writeBack ctx (slotOf branch n p) outcome p.manager
    packet := update p.packet n outcome.pkt
    dstDevice := deliver p.dstDevice outcome.actions
    running := p.running ++ [⟨branch, n, d.pktClass, isRegistered ctx d.pktSetId p.manager,
      outcome.abort, outcome.actions⟩] })

/-- `nfos_abort_txn`, and the rollback that only registered packet sets have. -/
def abortTxn (branch : Branch) (p : Plane G P S Id) : Plane G P S Id :=
  let p := if ctx.mutablePktSetState ∧ branch = .registered then rollbackPktSetStates p else p
  p.endTxn false

/-- A transaction around the handlers that `work` runs; it returns no view when one
of them aborts. The flag tells whether the transaction committed. -/
def transaction (branch : Branch)
    (work : Ω → G → Plane G P S Id → Option (Option G × Plane G P S Id))
    (a : Attempt Ω G) (p : Plane G P S Id) : Option (Bool × Plane G P S Id) := do
  let view := a.others p.globalState
  match ← work a.contention view { p with globalState := view } with
  | (some view, p) =>
    if a.unlocks then return (true, { p with globalState := view }.endTxn true)
    else return (false, abortTxn ctx branch p)
  | (none, p) => return (false, abortTxn ctx branch p)

variable {ctx} {branch : Branch} {n : Nat} {d : Dispatch Id} {contention : Ω} {view : G}
variable {p p' : Plane G P S Id} {outcome : Outcome G P S Id} {a : Attempt Ω G}

theorem invoke_eq_some (ran : invoke ctx branch n d contention view p = some (outcome, p')) :
    (∃ call, ctx.handler branch d.pktClass contention call = some outcome) ∧
    p' = { p with
      manager := writeBack ctx (slotOf branch n p) outcome p.manager
      packet := update p.packet n outcome.pkt
      dstDevice := deliver p.dstDevice outcome.actions
      running := p.running ++ [⟨branch, n, d.pktClass, isRegistered ctx d.pktSetId p.manager,
        outcome.abort, outcome.actions⟩] } := by
  simp only [invoke, Option.bind_eq_bind, Option.bind_eq_some_iff, Option.pure_def, Option.some.injEq,
    Prod.mk.injEq] at ran
  obtain ⟨_, handled, rfl, rfl⟩ := ran
  exact ⟨⟨_, handled⟩, rfl⟩

/-- A transaction that does not commit leaves what its handlers wrote outside of the
shared state, up to the rollback. -/
theorem transaction_failed {work : Ω → G → Plane G P S Id → Option (Option G × Plane G P S Id)}
    (ran : transaction ctx branch work a p = some (false, p')) :
    ∃ result q, work a.contention (a.others p.globalState)
        { p with globalState := a.others p.globalState } = some (result, q) ∧
      p' = abortTxn ctx branch q := by
  simp only [transaction, Option.bind_eq_bind, Option.bind_eq_some_iff] at ran
  obtain ⟨⟨result, q⟩, worked, ended⟩ := ran
  refine ⟨result, q, worked, ?_⟩
  cases result with
  | none => simpa using ended.symm
  | some view =>
    dsimp only at ended
    split at ended
    · simp at ended
    · simpa using ended.symm

theorem transaction_of_abort {work : Ω → G → Plane G P S Id → Option (Option G × Plane G P S Id)}
    (worked : work a.contention (a.others p.globalState)
      { p with globalState := a.others p.globalState } = some (none, p')) :
    transaction ctx branch work a p = some (false, abortTxn ctx branch p') := by
  simp [transaction, worked]

theorem transaction_done {work : Ω → G → Plane G P S Id → Option (Option G × Plane G P S Id)}
    (ran : transaction ctx branch work a p = some (true, p')) :
    ∃ view q, work a.contention (a.others p.globalState)
        { p with globalState := a.others p.globalState } = some (some view, q) ∧
      a.unlocks = true ∧ p' = { q with globalState := view }.endTxn true := by
  simp only [transaction, Option.bind_eq_bind, Option.bind_eq_some_iff] at ran
  obtain ⟨⟨result, q⟩, worked, ended⟩ := ran
  cases result with
  | none => simp at ended
  | some view =>
    refine ⟨view, q, worked, ?_⟩
    dsimp only at ended
    split at ended
    · rename_i unlocked
      exact ⟨unlocked, by simpa using ended.symm⟩
    · simp at ended

end Transactions

section Unbatched
variable (ctx : Context Ω G P S Id B)

/-- What a retry loop over a single packet does before its transaction. -/
def prepare (branch : Branch) (n : Nat) (p : Plane G P S Id) : Plane G P S Id :=
  match branch with
  | .noPktSet => p
  | .registered => if ctx.mutablePktSetState then logPktSetState (p.pktSetState n) p else p
  | .unknown => { p with manager := addPktSetLogClear ctx.pktSetPartition p.manager }

/-- A pass through a retry loop over a single packet. -/
def attemptPkt (branch : Branch) (n : Nat) (d : Dispatch Id) (a : Attempt Ω G) (p : Plane G P S Id) :
    Option (Bool × Plane G P S Id) :=
  transaction ctx branch
    (fun contention view p => do
      let (outcome, p) ← invoke ctx branch n d contention view p
      return (if outcome.abort then none else some outcome.globalState, p))
    a (prepare ctx branch n p)

def noPktSetRestart (n : Nat) (d : Dispatch Id) :
    List (Attempt Ω G) → Plane G P S Id → Option (Plane G P S Id × List (Attempt Ω G)) :=
  Retry.retry (attemptPkt ctx .noPktSet n d)

def restartSecond (n : Nat) (d : Dispatch Id) :
    List (Attempt Ω G) → Plane G P S Id → Option (Plane G P S Id × List (Attempt Ω G)) :=
  Retry.retry (attemptPkt ctx .registered n d)

/-- This is also `unknown_restart` of the batched variant. -/
def restartThird (n : Nat) (d : Dispatch Id) :
    List (Attempt Ω G) → Plane G P S Id → Option (Plane G P S Id × List (Attempt Ω G)) :=
  Retry.retry (attemptPkt ctx .unknown n d)

/-- The branches behind the parser. The packet is at position 0. -/
def handlePkt (d : Dispatch Id) (attempts : List (Attempt Ω G)) (p : Plane G P S Id) :
    Option (Plane G P S Id × List (Attempt Ω G)) := do
  if !d.hasPktSetState then
    noPktSetRestart ctx 0 d attempts p
  else
    match ← getPktSetState ctx.cfg d.pktSetId ctx.pktSetPartition ctx.now p.manager with
    | (some slot, manager) =>
      restartSecond ctx 0 d attempts { p with
        manager := manager, pktSetState := update p.pktSetState 0 slot }
    | (none, manager) =>
      let (p, rest) ← restartThird ctx 0 d attempts { p with manager := manager }
      let manager ← addPktSetCommit ctx.cfg d.pktSetId ctx.pktSetPartition ctx.now p.manager
      return ({ p with manager := manager }, rest)

/-- `process_pkt` without batching: the destination device, the memory and the
attempts that are left. -/
def processPkt (buffer : B) (attempts : List (Attempt Ω G)) (p : Plane G P S Id) :
    Option (Nat × Plane G P S Id × List (Attempt Ω G)) := do
  let (parseRes, packet) := ctx.nf.nfPktParser buffer
  let p := { p with
    dstDevice := ctx.device, packet := update p.packet 0 packet, running := [], history := [] }
  let (p, rest) ←
    if parseRes then handlePkt ctx (ctx.nf.nfPktDispatcher packet ctx.device) attempts p
    else some (p, attempts)
  return (p.dstDevice, p, rest)

end Unbatched

section Batched
variable (ctx : Context Ω G P S Id B)

/-- The results of the stateless part for a batch. -/
structure Batch (Id : Type) where
  batchSize : Nat
  parseRes : Nat → Bool
  dispatch : Nat → Dispatch Id

/-- `while ( (n < batch_size) && (!parse_res[n]) ) { n++; }`, with a bound on the rounds. -/
def skipUnparsed (b : Batch Id) : Nat → Nat → Nat
  | 0, n => n
  | fuel + 1, n => if n < b.batchSize ∧ b.parseRes n = false then skipUnparsed b fuel (n + 1) else n

/-- The first packet without parsing error. -/
def firstPkt (b : Batch Id) : Nat := skipUnparsed b b.batchSize 0

/-- The next packet without parsing error. -/
def nextPkt (b : Batch Id) (n : Nat) : Nat := skipUnparsed b (b.batchSize - (n + 1)) (n + 1)

/-- The positions that the loop `do .. while (n < end_n)` goes through. -/
def positions (b : Batch Id) (endN : Nat) : Nat → Nat → List Nat
  | 0, _ => []
  | fuel + 1, n => n :: if nextPkt b n < endN then positions b endN fuel (nextPkt b n) else []

/-- Run the handlers for the packets at the given positions in one transaction.
`before` is what precedes each of them. -/
def handlePkts (b : Batch Id) (branch : Branch) (before : Nat → Plane G P S Id → Plane G P S Id)
    (contention : Ω) : List Nat → G → Plane G P S Id → Option (Option G × Plane G P S Id)
  | [], view, p => return (some view, p)
  | n :: rest, view, p => do
    let (outcome, p) ← invoke ctx branch n (b.dispatch n) contention view (before n p)
    if outcome.abort then
      return (none, p)
    else
      handlePkts b branch before contention rest outcome.globalState
        { p with dstDevices := update p.dstDevices n p.dstDevice }

/-- The device is not reset here. -/
def beforeNoPktSet (n : Nat) (p : Plane G P S Id) : Plane G P S Id :=
  { p with dstDevice := p.dstDevices n }

/-- A pass through `no_pkt_set_restart`. -/
def attemptNoPktSet (b : Batch Id) (a : Attempt Ω G) (p : Plane G P S Id) :
    Option (Bool × Plane G P S Id) :=
  transaction ctx .noPktSet
    (fun contention => handlePkts ctx b .noPktSet beforeNoPktSet contention
      ((List.range b.batchSize).filter b.parseRes))
    a p

/-- Reset `dst_device` to drop a packet by default. -/
def beforeRegistered (n : Nat) (p : Plane G P S Id) : Plane G P S Id :=
  let p := if ctx.mutablePktSetState then logOnePktSetState (p.pktSetState n) p else p
  { p with dstDevice := ctx.device }

/-- A pass through `restart`, for the packets of registered packet sets from
`startN` up to `endN`. -/
def attemptRegistered (b : Batch Id) (startN endN : Nat) (a : Attempt Ω G) (p : Plane G P S Id) :
    Option (Bool × Plane G P S Id) :=
  transaction ctx .registered
    (fun contention => handlePkts ctx b .registered (beforeRegistered ctx) contention
      (positions b endN b.batchSize startN))
    a (if ctx.mutablePktSetState then resetLogPktSetState p else p)

/-- The variables of the loop over a batch. -/
structure Cursor (Ω G P S Id : Type) where
  n : Nat
  regPktSet : Bool
  plane : Plane G P S Id
  attempts : List (Attempt Ω G)

/-- Look up the packet set of the packet at the cursor. -/
def lookup (b : Batch Id) (c : Cursor Ω G P S Id) : Option (Cursor Ω G P S Id) :=
  if c.n < b.batchSize then do
    let (slot, manager) ← getPktSetState ctx.cfg (b.dispatch c.n).pktSetId ctx.pktSetPartition
      ctx.now c.plane.manager
    let p := { c.plane with manager := manager }
    match slot with
    | some slot =>
      return { c with
        regPktSet := true, plane := { p with pktSetState := update p.pktSetState c.n slot } }
    | none => return { c with regPktSet := false, plane := p }
  else
    return { c with regPktSet := false }

/-- Get the next packet without parsing error and its packet set. -/
def advance (b : Batch Id) (c : Cursor Ω G P S Id) : Option (Cursor Ω G P S Id) :=
  lookup ctx b { c with n := nextPkt b c.n }

def handleUnknown (b : Batch Id) (c : Cursor Ω G P S Id) : Option (Cursor Ω G P S Id) := do
  let (p, attempts) ← restartThird ctx c.n (b.dispatch c.n) c.attempts
    { c.plane with dstDevice := ctx.device }
  let manager ← addPktSetCommit ctx.cfg (b.dispatch c.n).pktSetId ctx.pktSetPartition ctx.now p.manager
  advance ctx b { c with
    plane := { p with manager := manager, dstDevices := update p.dstDevices c.n p.dstDevice }
    attempts := attempts }

/-- Determine the range of the next packets that belong to registered packet sets,
then run the handlers for this range. -/
def handleRegistered (b : Batch Id) (c : Cursor Ω G P S Id) : Option (Cursor Ω G P S Id) := do
  let ahead ← Loop.loop (fun c => c.regPktSet) (advance ctx b) b.batchSize c
  let (p, attempts) ← Retry.retry (attemptRegistered ctx b c.n ahead.n) ahead.attempts ahead.plane
  return { ahead with plane := p, attempts := attempts }

def handleNext (b : Batch Id) (c : Cursor Ω G P S Id) : Option (Cursor Ω G P S Id) :=
  if !c.regPktSet then handleUnknown ctx b c else handleRegistered ctx b c

/-- The branches behind the stateless part. The first packet decides for all. -/
def handleBatch (b : Batch Id) (attempts : List (Attempt Ω G)) (p : Plane G P S Id) :
    Option (Plane G P S Id × List (Attempt Ω G)) := do
  if !(b.dispatch 0).hasPktSetState then
    Retry.retry (attemptNoPktSet ctx b) attempts p
  else
    let c ← lookup ctx b ⟨firstPkt b, false, p, attempts⟩
    let c ← Loop.loop (fun c => decide (c.n < b.batchSize)) (handleNext ctx b) b.batchSize c
    return (c.plane, c.attempts)

/-- Every packet is dispatched, even one with a parsing error. -/
def parseBatch (mbufs : Nat → B) (batchSize : Nat) : Batch Id where
  batchSize := batchSize
  parseRes i := (ctx.nf.nfPktParser (mbufs i)).1
  dispatch i := ctx.nf.nfPktDispatcher (ctx.nf.nfPktParser (mbufs i)).2 ctx.device

/-- `process_pkt` with batching, all packets come from `device`. -/
def processPkts (mbufs : Nat → B) (batchSize : Nat) (attempts : List (Attempt Ω G))
    (p : Plane G P S Id) : Option (Plane G P S Id × List (Attempt Ω G)) :=
  handleBatch ctx (parseBatch ctx mbufs batchSize) attempts { p with
    dstDevices := fun i => if i < batchSize then ctx.device else p.dstDevices i
    packet := fun i => if i < batchSize then (ctx.nf.nfPktParser (mbufs i)).2 else p.packet i
    running := [], history := [] }

end Batched
end Nfos.DataPlane
