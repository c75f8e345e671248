import Nfos.HandlerCalls
import Nfos.FwNatTransparent

/-! The main loop of a core: a burst is received, processed in one of the two variants, and sent. -/
namespace Nfos.MainLoop
open Function DataPlane PktSetManager Run
variable {Ω G P S Id B M : Type}

def vigorBatchSize : Nat := 32

/-- What `rte_eth_rx_burst` has received from a device, and what `rte_eth_tx_burst` will take for each
device. The packets of a burst need attempts. -/
structure Burst (Ω G M : Type) where
  device : Nat
  now : Int
  mbufs : Nat → M
  receivedCount : Nat
  attempts : Nat → List (Attempt Ω G)
  sentCount : Nat → Nat

def Burst.received (x : Burst Ω G M) : List M := (List.range x.receivedCount).map x.mbufs

/-- `mbufs_to_send`, where `mbuf_send_index` is the length of each list, and what has been freed. -/
structure Sending (M : Type) where
  mbufsToSend : Nat → List M
  freed : List M

/-- The device that a destination stands for. The flooding works only if there are two devices. -/
def sendDevice (devicesCount device dstDevice : Nat) : Option Nat :=
  if dstDevice = floodPort then
    if devicesCount = 2 then some (1 - device) else none
  else some dstDevice

/-- `none` is a failed assertion or an access outside of the arrays. -/
def disposeOf (devicesCount device : Nat) (mbuf : M) (dstDevice : Nat) (t : Sending M) : Option (Sending M) :=
  if dstDevice = device then
    some { t with freed := t.freed ++ [mbuf] }
  else do
    let dst ← sendDevice devicesCount device dstDevice
    if dst < devicesCount ∧ (t.mbufsToSend dst).length < vigorBatchSize then
      return { t with mbufsToSend := update t.mbufsToSend dst (t.mbufsToSend dst ++ [mbuf]) }
    else none

section Processing
variable (ctx : Context Ω G P S Id B) (bufferOf : M → B) (devicesCount : Nat)

def Burst.context (x : Burst Ω G M) : Context Ω G P S Id B := { ctx with device := x.device, now := x.now }

/-- The loop over a burst without batching, from the packet `n` on. -/
def processUnbatched (x : Burst Ω G M) : List Nat → Plane G P S Id → Sending M → Option (Plane G P S Id × Sending M)
  | [], p, t => some (p, t)
  | n :: rest, p, t => do
    let (dstDevice, p, _) ← processPkt (x.context ctx) (bufferOf (x.mbufs n)) (x.attempts n) p
    let t ← disposeOf devicesCount x.device (x.mbufs n) dstDevice t
    processUnbatched x rest p t

/-- The loop behind `process_pkt` with batching. -/
def disposeAll (x : Burst Ω G M) (dstDevices : Nat → Nat) : List Nat → Sending M → Option (Sending M)
  | [], t => some t
  | n :: rest, t => do
    let t ← disposeOf devicesCount x.device (x.mbufs n) (dstDevices n) t
    disposeAll x dstDevices rest t

def processBatched (x : Burst Ω G M) (p : Plane G P S Id) (t : Sending M) : Option (Plane G P S Id × Sending M) :=
  if x.receivedCount = 0 then
    some (p, t)
  else do
    let (p, _) ← processPkts (x.context ctx) (fun n => bufferOf (x.mbufs n)) x.receivedCount (x.attempts 0) p
    let t ← disposeAll devicesCount x p.dstDevices (List.range x.receivedCount) t
    return (p, t)

/-- The transmission. What the device does not take is freed. -/
def transmit (x : Burst Ω G M) (t : Sending M) : List (Nat × M) × List M :=
  let devices := List.range devicesCount
  (devices.flatMap fun i => ((t.mbufsToSend i).take (x.sentCount i)).map fun mbuf => (i, mbuf),
    t.freed ++ devices.flatMap fun i => (t.mbufsToSend i).drop (x.sentCount i))

/-- What became of a burst. -/
structure Handled (M : Type) where
  device : Nat
  received : List M
  transmitted : List (Nat × M)
  freed : List M

/-- The loop behind the expiration, with or without `PKT_PROCESS_BATCHING`. -/
def handleBurst (batching : Bool) (x : Burst Ω G M) (p : Plane G P S Id) : Option (Plane G P S Id × Handled M) := do
  let (p, t) ←
    if batching then processBatched ctx bufferOf devicesCount x p ⟨fun _ => [], []⟩
    else processUnbatched ctx bufferOf devicesCount x (List.range x.receivedCount) p ⟨fun _ => [], []⟩
  let (transmitted, freed) := transmit devicesCount x t
  return (p, ⟨x.device, x.received, transmitted, freed⟩)

/-- The burst without what becomes of the buffers. -/
def processing (batching : Bool) (x : Burst Ω G M) (p : Plane G P S Id) : Option (Plane G P S Id) :=
  if batching then
    if x.receivedCount = 0 then some p
    else (processPkts (x.context ctx) (fun n => bufferOf (x.mbufs n)) x.receivedCount (x.attempts 0) p).map Prod.fst
  else
    (List.range x.receivedCount).foldlM (fun p n =>
      (processPkt (x.context ctx) (bufferOf (x.mbufs n)) (x.attempts n) p).map fun r => r.2.1) p

/-- What `process_pkt` says about a received buffer: the destination, and the invocations for it. -/
structure Decision (M : Type) where
  mbuf : M
  dstDevice : Nat
  history : List (Invocation × Bool)

def Decision.destined (d : Decision M) : M × Nat := (d.mbuf, d.dstDevice)

/-- The decisions about the packets of a burst without batching, from the packet `n` on. -/
def decideUnbatched (x : Burst Ω G M) : List Nat → Plane G P S Id → Option (List (Decision M))
  | [], _ => some []
  | n :: rest, p => do
    let (dstDevice, p, _) ← processPkt (x.context ctx) (bufferOf (x.mbufs n)) (x.attempts n) p
    let decisions ← decideUnbatched x rest p
    return ⟨x.mbufs n, dstDevice, p.history⟩ :: decisions

/-- The decisions about the packets of a burst. -/
def decideBurst (batching : Bool) (x : Burst Ω G M) (p : Plane G P S Id) : Option (List (Decision M)) :=
  if batching then
    if x.receivedCount = 0 then some []
    else do
      let (p, _) ← processPkts (x.context ctx) (fun n => bufferOf (x.mbufs n)) x.receivedCount (x.attempts 0) p
      return (List.range x.receivedCount).map fun n => ⟨x.mbufs n, p.dstDevices n, endedAt n p.history⟩
  else decideUnbatched ctx bufferOf x (List.range x.receivedCount) p

/-- A call of `delete_expired_pkt_sets`: what the handlers of the expired packet sets do to their
states, and what they commit to the shared state. -/
structure Expiration (G S : Type) where
  handler : Nat → ExpiredRuns S
  globalState : G → G
  time : Int

/-- There is no expiration unless `do_expiration` is set. -/
def expire (p : Plane G P S Id) : Option (Expiration G S) → Option (Plane G P S Id)
  | none => some p
  | some e => do
    let (_, manager) ← deleteExpiredPktSets ctx.cfg e.handler e.time ctx.pktSetPartition p.manager
    return { p with manager := manager, globalState := e.globalState p.globalState }

/-- An iteration for a device. -/
def iteration (batching : Bool) (expiration : Option (Expiration G S)) (x : Burst Ω G M) (p : Plane G P S Id) :
    Option (Plane G P S Id × Handled M) := do
  let p ← expire ctx p expiration
  handleBurst ctx bufferOf devicesCount batching x p

end Processing

section Disposal
variable {devicesCount device dst dstDevice : Nat} {mbuf : M} {done : List (M × Nat)} {t t' : Sending M}

/-- The destination is the device itself, or it stands for a device that exists. -/
def Sendable (devicesCount device dstDevice : Nat) : Prop :=
  dstDevice = device ∨ ∃ d < devicesCount, sendDevice devicesCount device dstDevice = some d

/-- Whether a packet with this destination waits for the device `d`. -/
def queuedFor (devicesCount device d dstDevice : Nat) : Bool :=
  dstDevice ≠ device && sendDevice devicesCount device dstDevice = some d

/-- What holds after these packets have been dealt with, each with its destination. -/
structure Disposed (devicesCount device : Nat) (done : List (M × Nat)) (t : Sending M) : Prop where
  once : (done.map Prod.fst).Perm (t.freed ++ (List.range devicesCount).flatMap t.mbufsToSend)
  queued : ∀ d, t.mbufsToSend d = (done.filter fun y => queuedFor devicesCount device d y.2).map Prod.fst

theorem Disposed.start (devicesCount device : Nat) : Disposed devicesCount device ([] : List (M × Nat)) ⟨fun _ => [], []⟩ := by
  constructor <;> simp

theorem flatMap_update {devices : List Nat} (queues : Nat → List M) (mbuf : M) (distinct : devices.Nodup) (member : dst ∈ devices) :
    (devices.flatMap (update queues dst (queues dst ++ [mbuf]))).Perm (devices.flatMap queues ++ [mbuf]) := by
  induction devices with
  | nil => simp at member
  | cons d devices ih =>
    obtain ⟨absent, distinct⟩ := List.nodup_cons.mp distinct
    rw [List.flatMap_cons, List.flatMap_cons]
    rcases List.mem_cons.mp member with rfl | later
    · have same : devices.flatMap (update queues dst (queues dst ++ [mbuf])) = devices.flatMap queues := by
        apply List.flatMap_congr
        intro e inside
        apply update_of_ne
        rintro rfl
        exact absent inside
      rw [update_self, same, List.append_assoc, List.append_assoc]
      exact List.perm_append_comm.append_left _
    · have other : d ≠ dst := by
        rintro rfl
        exact absent later
      rw [update_of_ne other, List.append_assoc]
      exact (ih distinct later).append_left _

theorem sendDevice_ne (within : device < devicesCount) (other : dstDevice ≠ device)
    (found : sendDevice devicesCount device dstDevice = some dst) : dst ≠ device := by
  unfold sendDevice at found
  split at found
  · split at found
    · rw [← Option.some.inj found]
      omega
    · contradiction
  · rwa [← Option.some.inj found]

theorem Disposed.next (disposed : Disposed devicesCount device done t)
    (ran : disposeOf devicesCount device mbuf dstDevice t = some t') :
    Disposed devicesCount device (done ++ [(mbuf, dstDevice)]) t' := by
  unfold disposeOf at ran
  split at ran
  · rename_i own
    obtain rfl := Option.some.inj ran
    constructor
    case once =>
      rw [List.map_append]
      refine (disposed.once.append_right [mbuf]).trans ?_
      dsimp only
      rw [List.append_assoc, List.append_assoc]
      exact List.perm_append_comm.append_left _
    case queued =>
      intro d
      rw [disposed.queued d, List.filter_append]
      simp [queuedFor, own]
  · rename_i other
    simp only [Option.bind_eq_bind, Option.bind_eq_some_iff, Option.pure_def, Option.ite_none_right_eq_some, Option.some.injEq] at ran
    obtain ⟨dst, found, ⟨known, _⟩, rfl⟩ := ran
    constructor
    case once =>
      have waiting := flatMap_update t.mbufsToSend mbuf List.nodup_range (List.mem_range.mpr known)
      rw [List.map_append]
      refine (disposed.once.append_right [mbuf]).trans ?_
      rw [List.append_assoc]
      exact waiting.symm.append_left _
    case queued =>
      intro d
      dsimp only
      rw [List.filter_append, List.map_append, ← disposed.queued d]
      by_cases same : d = dst
      · subst same
        rw [update_self]
        simp [queuedFor, other, found]
      · rw [update_of_ne same]
        simp [queuedFor, found, Ne.symm same]

/-- With room in the queues only the destination can be wrong. -/
theorem disposeOf_isSome_iff (mbuf : M) (disposed : Disposed devicesCount device done t) (room : done.length < vigorBatchSize) :
    (disposeOf devicesCount device mbuf dstDevice t).isSome ↔ Sendable devicesCount device dstDevice := by
  unfold disposeOf Sendable
  by_cases own : dstDevice = device
  · simp [own]
  · rw [if_neg own]
    cases found : sendDevice devicesCount device dstDevice with
    | none => simp [own]
    | some d =>
      have free : (t.mbufsToSend d).length < vigorBatchSize := by
        rw [disposed.queued d, List.length_map]
        exact (List.length_filter_le ..).trans_lt room
      simp [own, free]

end Disposal

section Decisions
variable {ctx : Context Ω G P S Id B} {pkts : Nat → P} {v : Invocation} {dst : Nat}

/-- The destination of a packet comes from its handler: the invocation that committed has the
last word, and `left` is what remains of aborted ones. -/
def Decides (ctx : Context Ω G P S Id B) (pkt : P) (dst : Nat) : Prop :=
  ∃ (left : List Invocation) (last : Invocation), last.abort = false ∧
    dst = deliver (deliver ctx.device (left.flatMap Invocation.actions)) last.actions ∧
    ∀ v ∈ left ++ [last], ∃ contention call outcome, Made ctx (fun _ => pkt) v contention call outcome

/-- A packet with a parsing error stays with its device. -/
def Settled (ctx : Context Ω G P S Id B) (buffer : B) (dst : Nat) : Prop :=
  if (ctx.nf.nfPktParser buffer).1 then Decides ctx (ctx.nf.nfPktParser buffer).2 dst else dst = ctx.device

theorem made_at {contention : Ω} {call : Call G P S Id} {outcome : Outcome G P S Id} (made : Made ctx pkts v contention call outcome) :
    Made ctx (fun _ => pkts v.position) v contention call outcome :=
  ⟨made.pktClass, made.given, made.ran, made.abort, made.actions⟩

theorem survives_eq (v : Invocation) : survives v = v.actions ∨ survives v = [] := by
  unfold survives
  cases v.branch with
  | noPktSet => cases v.abort <;> simp
  | registered => simp
  | unknown => simp

theorem flatMap_survives (vs : List Invocation) :
    vs.flatMap survives = (vs.filter fun v => survives v = v.actions).flatMap Invocation.actions := by
  induction vs with
  | nil => rfl
  | cons v vs ih =>
    rw [List.flatMap_cons, List.filter_cons, ih]
    rcases survives_eq v with same | nothing
    · simp [same]
    · by_cases idle : v.actions = []
      · simp [nothing, idle]
      · simp [nothing, Ne.symm idle]

/-- What remains of an aborted invocation. -/
def remains (batching : Bool) (v : Invocation) : List Action := if batching then survives v else v.actions

/-- The recorded invocations give the destination: the one that committed has the last word after what remains
of those that were aborted. A packet with a parsing error stays with its device. -/
def Decision.Follows (ctx : Context Ω G P S Id B) (batching : Bool) (buffer : B) (d : Decision M) : Prop :=
  if (ctx.nf.nfPktParser buffer).1 then
    ∃ (earlier : List Invocation) (last : Invocation), d.history = earlier.map (·, false) ++ [(last, true)] ∧ last.abort = false ∧
      d.dstDevice = deliver (deliver ctx.device (earlier.flatMap (remains batching))) last.actions
  else d.dstDevice = ctx.device

theorem processPkt_follows {buffer : B} {mbuf : M} {attempts rest : List (Attempt Ω G)} {p p' : Plane G P S Id}
    (ran : processPkt ctx buffer attempts p = some (dst, p', rest)) :
    Decision.Follows ctx false buffer ⟨mbuf, dst, p'.history⟩ := by
  unfold Decision.Follows
  split
  · rename_i parsed
    obtain ⟨earlier, last, history, _, _, returned, same⟩ := processPkt_history parsed ran
    exact ⟨earlier, last, history, returned, same⟩
  · rename_i unparsed
    simp only [processPkt, unparsed, Bool.false_eq_true, if_false, Option.bind_eq_bind, Option.bind_some, Option.pure_def,
      Option.some.injEq, Prod.mk.injEq] at ran
    exact ran.1.symm

theorem processPkts_follows {mbufs : Nat → B} {mbuf : M} {batchSize : Nat} {attempts rest : List (Attempt Ω G)} {p p' : Plane G P S Id}
    (ran : processPkts ctx mbufs batchSize attempts p = some (p', rest)) {i : Nat} (within : i < batchSize) :
    Decision.Follows ctx true (mbufs i) ⟨mbuf, p'.dstDevices i, endedAt i p'.history⟩ := by
  have progress := handleBatch_progress rfl rfl (fun j below => if_pos below) ran
  have destination := progress.destination i within
  unfold Decision.Follows
  split
  · rename_i parsed
    obtain ⟨earlier, last, ended, same⟩ := progress.shape i within parsed
    have whole : invocationsAt i (p'.history.map Prod.fst) = earlier ++ [last] := by
      rw [← fst_endedAt, ended]
      simp [Function.comp_def]
    have committed : (last, true) ∈ p'.history := by
      have inside : (last, true) ∈ endedAt i p'.history := by simp [ended]
      exact (List.mem_filter.mp inside).1
    have returned := progress.returned _ committed rfl
    rw [whole, settle_last same returned] at destination
    exact ⟨earlier, last, ended, returned, destination⟩
  · rename_i unparsed
    dsimp only
    rw [destination, invocationsAt_eq_nil]
    · rfl
    · rintro v member rfl
      obtain ⟨⟨w, flag⟩, recorded, rfl⟩ := List.mem_map.mp member
      exact unparsed (progress.parsed _ recorded)

/-- The destination comes from some of the recorded invocations. -/
theorem Decision.Follows.decided {batching : Bool} {buffer : B} {d : Decision M} (follows : d.Follows ctx batching buffer)
    (parsed : (ctx.nf.nfPktParser buffer).1 = true) : ∃ (left : List Invocation) (last : Invocation), last.abort = false ∧
      d.dstDevice = deliver (deliver ctx.device (left.flatMap Invocation.actions)) last.actions ∧
      ∀ v ∈ left ++ [last], v ∈ d.history.map Prod.fst := by
  rw [Decision.Follows, if_pos parsed] at follows
  obtain ⟨earlier, last, history, returned, same⟩ := follows
  have recorded : d.history.map Prod.fst = earlier ++ [last] := by simp [history, Function.comp_def]
  rw [recorded]
  cases batching with
  | false => exact ⟨earlier, last, returned, same, fun _ member => member⟩
  | true =>
    have kept : earlier.flatMap (remains true) = _ := flatMap_survives earlier
    rw [kept] at same
    refine ⟨_, last, returned, same, fun v member => ?_⟩
    rcases List.mem_append.mp member with left | final
    · exact List.mem_append_left _ (List.mem_filter.mp left).1
    · exact List.mem_append_right _ final

theorem processPkt_settled {buffer : B} {attempts rest : List (Attempt Ω G)} {p p' : Plane G P S Id}
    (ran : processPkt ctx buffer attempts p = some (dst, p', rest)) : Settled ctx buffer dst := by
  have follows : Decision.Follows ctx false buffer ⟨(), dst, p'.history⟩ := processPkt_follows ran
  unfold Settled
  split
  · rename_i parsed
    obtain ⟨left, last, returned, destination, recorded⟩ := follows.decided parsed
    exact ⟨left, last, returned, destination, fun v member => processPkt_calls parsed ran v (List.mem_append_right _ (recorded v member))⟩
  · rename_i unparsed
    rwa [Decision.Follows, if_neg unparsed] at follows

/-- The destination of a packet of a batch comes from invocations that are recorded for it. -/
theorem processPkts_decided {mbufs : Nat → B} {batchSize : Nat} {attempts rest : List (Attempt Ω G)} {p p' : Plane G P S Id}
    (ran : processPkts ctx mbufs batchSize attempts p = some (p', rest)) {i : Nat} (within : i < batchSize)
    (parsed : (ctx.nf.nfPktParser (mbufs i)).1 = true) :
    ∃ (left : List Invocation) (last : Invocation), last.abort = false ∧
      p'.dstDevices i = deliver (deliver ctx.device (left.flatMap Invocation.actions)) last.actions ∧
      ∀ v ∈ left ++ [last], v ∈ p'.history.map Prod.fst ∧ v.position = i := by
  have follows : Decision.Follows ctx true (mbufs i) ⟨(), p'.dstDevices i, endedAt i p'.history⟩ := processPkts_follows ran within
  obtain ⟨left, last, returned, destination, recorded⟩ := follows.decided parsed
  refine ⟨left, last, returned, destination, fun v member => ?_⟩
  obtain ⟨e, ended, rfl⟩ := List.mem_map.mp (recorded v member)
  obtain ⟨inside, position⟩ := List.mem_filter.mp ended
  exact ⟨List.mem_map_of_mem inside, by simpa using position⟩

theorem processPkts_settled {mbufs : Nat → B} {batchSize : Nat} {attempts rest : List (Attempt Ω G)} {p p' : Plane G P S Id}
    (ran : processPkts ctx mbufs batchSize attempts p = some (p', rest)) {i : Nat} (within : i < batchSize) :
    Settled ctx (mbufs i) (p'.dstDevices i) := by
  unfold Settled
  split
  · rename_i parsed
    obtain ⟨left, last, returned, destination, recorded⟩ := processPkts_decided ran within parsed
    refine ⟨left, last, returned, destination, fun v member => ?_⟩
    obtain ⟨known, rfl⟩ := recorded v member
    obtain ⟨contention, call, outcome, made⟩ := processPkts_calls ran v (List.mem_append_right _ known)
    exact ⟨contention, call, outcome, made_at made⟩
  · rename_i unparsed
    have follows : Decision.Follows ctx true (mbufs i) ⟨(), p'.dstDevices i, endedAt i p'.history⟩ := processPkts_follows ran within
    rwa [Decision.Follows, if_neg unparsed] at follows

end Decisions

section Bursts
variable {ctx : Context Ω G P S Id B} {bufferOf : M → B} {devicesCount : Nat} {x : Burst Ω G M} {p p' : Plane G P S Id}
variable {t t' : Sending M} {done : List (M × Nat)} {h : Handled M} {batching : Bool}

theorem processUnbatched_disposed {ns : List Nat} (disposed : Disposed devicesCount x.device done t)
    (ran : processUnbatched ctx bufferOf devicesCount x ns p t = some (p', t')) :
    ∃ decisions, decideUnbatched ctx bufferOf x ns p = some decisions ∧ decisions.map Decision.mbuf = ns.map x.mbufs ∧
      (∀ d ∈ decisions, d.Follows (x.context ctx) false (bufferOf d.mbuf)) ∧
      Disposed devicesCount x.device (done ++ decisions.map Decision.destined) t' := by
  induction ns generalizing p t done with
  | nil =>
    obtain ⟨rfl, rfl⟩ := Prod.mk.inj (Option.some.inj ran)
    exact ⟨[], rfl, rfl, by simp, by simpa using disposed⟩
  | cons n ns ih =>
    simp only [processUnbatched, Option.bind_eq_bind, Option.bind_eq_some_iff] at ran
    obtain ⟨⟨dstDevice, q, _⟩, processed, u, disposes, continued⟩ := ran
    obtain ⟨decisions, decided, same, follow, after⟩ := ih (disposed.next disposes) continued
    refine ⟨⟨x.mbufs n, dstDevice, q.history⟩ :: decisions, ?_, by rw [List.map_cons, same, List.map_cons], ?_, ?_⟩
    · simp only [decideUnbatched, processed, decided, Option.bind_eq_bind, Option.bind_some, Option.pure_def]
    · intro d member
      rcases List.mem_cons.mp member with rfl | later
      · exact processPkt_follows processed
      · exact follow d later
    · simpa [Decision.destined] using after

theorem disposeAll_disposed {dstDevices : Nat → Nat} {ns : List Nat} (disposed : Disposed devicesCount x.device done t)
    (ran : disposeAll devicesCount x dstDevices ns t = some t') :
    Disposed devicesCount x.device (done ++ ns.map fun n => (x.mbufs n, dstDevices n)) t' := by
  induction ns generalizing t done with
  | nil =>
    obtain rfl := Option.some.inj ran
    simpa using disposed
  | cons n ns ih =>
    simp only [disposeAll, Option.bind_eq_bind, Option.bind_eq_some_iff] at ran
    obtain ⟨u, disposes, continued⟩ := ran
    have after := ih (disposed.next disposes) continued
    rwa [List.append_assoc] at after

theorem processBatched_disposed (ran : processBatched ctx bufferOf devicesCount x p ⟨fun _ => [], []⟩ = some (p', t)) :
    ∃ decisions, decideBurst ctx bufferOf true x p = some decisions ∧ decisions.map Decision.mbuf = x.received ∧
      (∀ d ∈ decisions, d.Follows (x.context ctx) true (bufferOf d.mbuf)) ∧
      Disposed devicesCount x.device (decisions.map Decision.destined) t := by
  unfold processBatched at ran
  split at ran
  · rename_i nothing
    obtain ⟨_, rfl⟩ := Prod.mk.inj (Option.some.inj ran)
    refine ⟨[], ?_, by simp [Burst.received, nothing], by simp, Disposed.start devicesCount x.device⟩
    rw [decideBurst, if_pos rfl, if_pos nothing]
  · rename_i something
    simp only [Option.bind_eq_bind, Option.bind_eq_some_iff, Option.pure_def, Option.some.injEq, Prod.mk.injEq] at ran
    obtain ⟨⟨q, _⟩, processed, u, disposes, _, rfl⟩ := ran
    refine ⟨(List.range x.receivedCount).map fun n => ⟨x.mbufs n, q.dstDevices n, endedAt n q.history⟩, ?_, ?_, ?_, ?_⟩
    · rw [decideBurst, if_pos rfl, if_neg something, processed]
      rfl
    · simp [Burst.received, Function.comp_def]
    · intro d member
      simp only [List.mem_map, List.mem_range] at member
      obtain ⟨n, within, rfl⟩ := member
      exact processPkts_follows processed within
    · simpa [Decision.destined, Function.comp_def] using disposeAll_disposed (Disposed.start devicesCount x.device) disposes

/-- What becomes of buffers with these destinations. Each of them is transmitted or freed, once. A
device takes the first ones of those that are for it, in the order in which they were received, and no
buffer goes back to its device. -/
structure Conserved (devicesCount : Nat) (decided : List (M × Nat)) (h : Handled M) : Prop where
  received : decided.map Prod.fst = h.received
  once : h.received.Perm (h.transmitted.map Prod.snd ++ h.freed)
  order : ∀ d, ((h.transmitted.filter fun y => y.1 = d).map Prod.snd) <+:
    (decided.filter fun y => queuedFor devicesCount h.device d y.2).map Prod.fst
  away : ∀ y ∈ h.transmitted, y.1 < devicesCount ∧ y.1 ≠ h.device

theorem transmitted_filter (queues : Nat → List M) (d : Nat) {devices : List Nat} (distinct : devices.Nodup) :
    (((devices.flatMap fun i => (queues i).map fun mbuf => (i, mbuf)).filter fun y => y.1 = d).map Prod.snd) =
      if d ∈ devices then queues d else [] := by
  induction devices with
  | nil => rfl
  | cons i devices ih =>
    obtain ⟨absent, distinct⟩ := List.nodup_cons.mp distinct
    rw [List.flatMap_cons, List.filter_append, List.map_append, ih distinct]
    by_cases own : i = d
    · subst own
      simp [absent, List.filter_map, Function.comp_def]
    · simp [own, Ne.symm own, List.filter_map, Function.comp_def]

theorem Disposed.transmitted {decided : List (M × Nat)} (disposed : Disposed devicesCount x.device decided t)
    (within : x.device < devicesCount) (received : decided.map Prod.fst = x.received) :
    Conserved devicesCount decided ⟨x.device, x.received, (transmit devicesCount x t).1, (transmit devicesCount x t).2⟩ := by
  constructor
  case received => exact received
  case once =>
    have split : ((List.range devicesCount).flatMap t.mbufsToSend).Perm
        (((List.range devicesCount).flatMap fun i => (t.mbufsToSend i).take (x.sentCount i)) ++
          (List.range devicesCount).flatMap fun i => (t.mbufsToSend i).drop (x.sentCount i)) := by
      have parts := List.flatMap_append_perm (List.range devicesCount) (fun i => (t.mbufsToSend i).take (x.sentCount i))
        fun i => (t.mbufsToSend i).drop (x.sentCount i)
      simp only [List.take_append_drop] at parts
      exact parts.symm
    have sent : (transmit devicesCount x t).1.map Prod.snd =
        (List.range devicesCount).flatMap fun i => (t.mbufsToSend i).take (x.sentCount i) := by
      simp [transmit, List.map_flatMap, Function.comp_def]
    dsimp only
    rw [sent, ← received]
    refine disposed.once.trans ((split.append_left t.freed).trans ?_)
    rw [transmit, ← List.append_assoc, ← List.append_assoc]
    exact List.perm_append_comm.append_right _
  case order =>
    intro d
    dsimp only [transmit]
    rw [transmitted_filter (fun i => (t.mbufsToSend i).take (x.sentCount i)) d List.nodup_range, ← disposed.queued d]
    split
    · exact List.take_prefix ..
    · exact List.nil_prefix
  case away =>
    intro y member
    simp only [transmit, List.mem_flatMap, List.mem_range, List.mem_map] at member
    obtain ⟨i, known, mbuf, sent, rfl⟩ := member
    refine ⟨known, ?_⟩
    have waiting := List.mem_of_mem_take sent
    rw [disposed.queued i] at waiting
    obtain ⟨⟨_, dstDevice⟩, queued, rfl⟩ := List.mem_map.mp waiting
    have destined := (List.mem_filter.mp queued).2
    simp only [queuedFor, Bool.and_eq_true, decide_eq_true_eq] at destined
    exact sendDevice_ne within destined.1 destined.2

theorem handleBurst_conserved (within : x.device < devicesCount)
    (ran : handleBurst ctx bufferOf devicesCount batching x p = some (p', h)) :
    ∃ decisions, decideBurst ctx bufferOf batching x p = some decisions ∧
      Conserved devicesCount (decisions.map Decision.destined) h ∧
      ∀ d ∈ decisions, d.Follows (x.context ctx) batching (bufferOf d.mbuf) := by
  have destined {decisions : List (Decision M)} (same : decisions.map Decision.mbuf = x.received) :
      (decisions.map Decision.destined).map Prod.fst = x.received := by
    rw [← same, List.map_map]
    rfl
  unfold handleBurst at ran
  cases batching with
  | true =>
    simp only [if_true, Option.bind_eq_bind, Option.bind_eq_some_iff, Option.pure_def, Option.some.injEq, Prod.mk.injEq] at ran
    obtain ⟨⟨q, t⟩, processed, _, rfl⟩ := ran
    obtain ⟨decisions, decided, same, follow, disposed⟩ := processBatched_disposed processed
    exact ⟨decisions, decided, disposed.transmitted within (destined same), follow⟩
  | false =>
    simp only [Bool.false_eq_true, if_false, Option.bind_eq_bind, Option.bind_eq_some_iff, Option.pure_def, Option.some.injEq,
      Prod.mk.injEq] at ran
    obtain ⟨⟨q, t⟩, processed, _, rfl⟩ := ran
    obtain ⟨decisions, decided, same, follow, disposed⟩ := processUnbatched_disposed (Disposed.start devicesCount x.device) processed
    exact ⟨decisions, decided, disposed.transmitted within (destined same), follow⟩

/-- A step of the main loop, for any of the devices. -/
def Iterates (ctx : Context Ω G P S Id B) (bufferOf : M → B) (devicesCount : Nat) (batching : Bool) (p : Plane G P S Id)
    (h : Handled M) (p' : Plane G P S Id) : Prop :=
  ∃ expiration x, x.device < devicesCount ∧ iteration ctx bufferOf devicesCount batching expiration x p = some (p', h)

/-- The buffers of an iteration from `p` to `p'` have been dealt with as `process_pkt` has decided in it. -/
def Accounted (ctx : Context Ω G P S Id B) (bufferOf : M → B) (devicesCount : Nat) (batching : Bool) (p : Plane G P S Id)
    (h : Handled M) (p' : Plane G P S Id) : Prop :=
  ∃ expiration x q decisions, iteration ctx bufferOf devicesCount batching expiration x p = some (p', h) ∧
    expire ctx p expiration = some q ∧ decideBurst ctx bufferOf batching x q = some decisions ∧
    Conserved devicesCount (decisions.map Decision.destined) h ∧
    ∀ d ∈ decisions, d.Follows (x.context ctx) batching (bufferOf d.mbuf)

theorem Iterates.accounted (step : Iterates ctx bufferOf devicesCount batching p h p') :
    Accounted ctx bufferOf devicesCount batching p h p' := by
  obtain ⟨expiration, x, within, whole⟩ := step
  have ran := whole
  simp only [iteration, Option.bind_eq_bind, Option.bind_eq_some_iff] at ran
  obtain ⟨q, expired, ran⟩ := ran
  obtain ⟨decisions, decided, conserved, follow⟩ := handleBurst_conserved within ran
  exact ⟨expiration, x, q, decisions, whole, expired, decided, conserved, follow⟩

theorem Conserved.sublist {decided : List (M × Nat)} (conserved : Conserved devicesCount decided h) (d : Nat) :
    ((h.transmitted.filter fun y => y.1 = d).map Prod.snd).Sublist h.received := by
  rw [← conserved.received]
  exact (conserved.order d).sublist.trans (List.filter_sublist.map Prod.fst)

/-- What a run does with the buffers. None is lost or transmitted twice, every device transmits in the
order of the receptions, and every iteration does with its buffers what `process_pkt` decides in it. -/
structure Lossless (ctx : Context Ω G P S Id B) (bufferOf : M → B) (devicesCount : Nat) (batching : Bool) (p : Plane G P S Id)
    (history : List (Handled M)) (p' : Plane G P S Id) : Prop where
  once : (history.flatMap Handled.received).Perm ((history.flatMap Handled.transmitted).map Prod.snd ++ history.flatMap Handled.freed)
  order : ∀ d, (((history.flatMap Handled.transmitted).filter fun y => y.1 = d).map Prod.snd).Sublist (history.flatMap Handled.received)
  accounted : ∀ past h later, history = past ++ h :: later → ∃ q q',
    Trace (Iterates ctx bufferOf devicesCount batching) p past q ∧ Accounted ctx bufferOf devicesCount batching q h q' ∧
    Trace (Iterates ctx bufferOf devicesCount batching) q' later p'

theorem run_order {history : List (Handled M)} (run : Trace (Iterates ctx bufferOf devicesCount batching) p history p') :
    (history.flatMap Handled.received).Perm ((history.flatMap Handled.transmitted).map Prod.snd ++ history.flatMap Handled.freed) ∧
    ∀ d, (((history.flatMap Handled.transmitted).filter fun y => y.1 = d).map Prod.snd).Sublist (history.flatMap Handled.received) := by
  apply run.rule (P := fun history _ =>
    (history.flatMap Handled.received).Perm ((history.flatMap Handled.transmitted).map Prod.snd ++ history.flatMap Handled.freed) ∧
    ∀ d, (((history.flatMap Handled.transmitted).filter fun y => y.1 = d).map Prod.snd).Sublist (history.flatMap Handled.received))
  case initial => simp
  case keeps =>
    rintro past q h q' _ ⟨once, order⟩ step
    obtain ⟨_, _, _, _, _, _, _, conserved, _⟩ := step.accounted
    simp only [List.flatMap_append, List.flatMap_singleton, List.map_append, List.filter_append]
    refine ⟨(once.append conserved.once).trans ?_, fun d => (order d).append (conserved.sublist d)⟩
    rw [List.append_assoc, List.append_assoc]
    refine List.Perm.append_left _ ?_
    rw [← List.append_assoc, ← List.append_assoc]
    exact List.perm_append_comm.append_right _

theorem buffers_conserved {history : List (Handled M)} (run : Trace (Iterates ctx bufferOf devicesCount batching) p history p') :
    Lossless ctx bufferOf devicesCount batching p history p' := by
  obtain ⟨once, order⟩ := run_order run
  refine ⟨once, order, ?_⟩
  rintro past h later rfl
  obtain ⟨q, before, rest⟩ := run.split
  obtain ⟨q', step, after⟩ := (show Trace _ q ([h] ++ later) p' from rest).split
  exact ⟨q, q', before, step.single.accounted, after⟩

end Bursts

section Faults
variable {ctx : Context Ω G P S Id B} {bufferOf : M → B} {devicesCount device dst : Nat} {x : Burst Ω G M} {p : Plane G P S Id}
variable {t : Sending M} {done : List (M × Nat)}

/-- A device that exists; the flooding is for two devices. -/
def ToDevice (devicesCount : Nat) : Action → Prop
  | .sendPkt dev => dev < devicesCount
  | .floodPkt => devicesCount = 2
  | .dropPkt => True

/-- Where the handlers send the packets from the devices. -/
def KnowsDevices (ctx : Context Ω G P S Id B) (devicesCount : Nat) : Prop :=
  ∀ branch pktClass contention call outcome, call.incomingDev < devicesCount →
    ctx.handler branch pktClass contention call = some outcome → ∀ action ∈ outcome.actions, ToDevice devicesCount action

theorem sendable_deliver (within : device < devicesCount) (few : devicesCount ≤ floodPort) {actions : List Action}
    (known : ∀ action ∈ actions, ToDevice devicesCount action) (start : Sendable devicesCount device dst) :
    Sendable devicesCount device (deliver dst actions) := by
  induction actions generalizing dst with
  | nil => exact start
  | cons action rest ih =>
    refine ih (fun later member => known later (List.mem_cons_of_mem _ member)) ?_
    have first := known action List.mem_cons_self
    cases action with
    | sendPkt dev =>
      have dev_lt : dev < devicesCount := first
      exact .inr ⟨dev, dev_lt, if_neg (Nat.ne_of_lt (dev_lt.trans_le few))⟩
    | floodPkt =>
      have two : devicesCount = 2 := first
      exact .inr ⟨1 - device, by omega, by simp [Action.apply, sendDevice, two]⟩
    | dropPkt => exact start

theorem Settled.sendable (knows : KnowsDevices ctx devicesCount) (within : x.device < devicesCount) (few : devicesCount ≤ floodPort)
    {buffer : B} (settled : Settled (x.context ctx) buffer dst) : Sendable devicesCount x.device dst := by
  unfold Settled at settled
  split at settled
  · obtain ⟨left, last, _, rfl, calls⟩ := settled
    have known : ∀ v ∈ left ++ [last], ∀ action ∈ v.actions, ToDevice devicesCount action := by
      intro v member action inside
      obtain ⟨contention, call, outcome, made⟩ := calls v member
      have device : call.incomingDev = x.device := by
        obtain ⟨view, p, rfl⟩ := made.given
        rfl
      rw [← made.actions] at inside
      exact knows _ _ _ _ _ (device ▸ within) made.ran action inside
    refine sendable_deliver within few (known last (by simp)) (sendable_deliver within few ?_ (.inl rfl))
    intro action member
    obtain ⟨v, inside, acted⟩ := List.mem_flatMap.mp member
    exact known v (List.mem_append_left _ inside) action acted
  · exact .inl settled

theorem processUnbatched_total (knows : KnowsDevices ctx devicesCount) (within : x.device < devicesCount) (few : devicesCount ≤ floodPort)
    {ns : List Nat} (disposed : Disposed devicesCount x.device done t) (room : done.length + ns.length ≤ vigorBatchSize) :
    (processUnbatched ctx bufferOf devicesCount x ns p t).map Prod.fst = ns.foldlM (fun p n =>
      (processPkt (x.context ctx) (bufferOf (x.mbufs n)) (x.attempts n) p).map fun r => r.2.1) p := by
  induction ns generalizing p t done with
  | nil => rfl
  | cons n ns ih =>
    rw [List.length_cons] at room
    rw [List.foldlM_cons, processUnbatched]
    cases processed : processPkt (x.context ctx) (bufferOf (x.mbufs n)) (x.attempts n) p with
    | none => rfl
    | some r =>
      obtain ⟨dstDevice, q, rest⟩ := r
      have sendable := (processPkt_settled processed).sendable knows within few
      obtain ⟨u, disposes⟩ := Option.isSome_iff_exists.mp
        ((disposeOf_isSome_iff (x.mbufs n) disposed (by omega)).mpr sendable)
      have continued := ih (p := q) (disposed.next disposes) (by rw [List.length_append, List.length_singleton]; omega)
      simp only [Option.bind_eq_bind, Option.bind_some, disposes, Option.map_some]
      exact continued

theorem disposeAll_total {dstDevices : Nat → Nat} {ns : List Nat} (sendable : ∀ n ∈ ns, Sendable devicesCount x.device (dstDevices n))
    (disposed : Disposed devicesCount x.device done t) (room : done.length + ns.length ≤ vigorBatchSize) :
    (disposeAll devicesCount x dstDevices ns t).isSome := by
  induction ns generalizing t done with
  | nil => rfl
  | cons n ns ih =>
    rw [List.length_cons] at room
    obtain ⟨u, disposes⟩ := Option.isSome_iff_exists.mp
      ((disposeOf_isSome_iff (x.mbufs n) disposed (by omega)).mpr (sendable n List.mem_cons_self))
    have continued := ih (fun m member => sendable m (List.mem_cons_of_mem _ member)) (disposed.next disposes)
      (by rw [List.length_append, List.length_singleton]; omega)
    simpa only [disposeAll, disposes, Option.bind_eq_bind, Option.bind_some] using continued

/-- With handlers that know the devices the loop fails only where `process_pkt` does: the assertion about
the flooding holds, and the arrays for the transmission are large enough for a burst. -/
theorem handleBurst_processing (knows : KnowsDevices ctx devicesCount) (few : devicesCount ≤ floodPort)
    (within : x.device < devicesCount) (batch : x.receivedCount ≤ vigorBatchSize) (batching : Bool) (p : Plane G P S Id) :
    (handleBurst ctx bufferOf devicesCount batching x p).map Prod.fst = processing ctx bufferOf batching x p := by
  have room : ([] : List (M × Nat)).length + (List.range x.receivedCount).length ≤ vigorBatchSize := by
    simpa using batch
  have start := Disposed.start (M := M) devicesCount x.device
  cases batching with
  | false =>
    rw [processing, if_neg (by simp), ← processUnbatched_total knows within few start room]
    simp only [handleBurst, Bool.false_eq_true, if_false, Option.bind_eq_bind, Option.pure_def]
    cases processUnbatched ctx bufferOf devicesCount x (List.range x.receivedCount) p ⟨fun _ => [], []⟩ <;> rfl
  | true =>
    simp only [handleBurst, processing, processBatched, if_true, Option.bind_eq_bind, Option.pure_def]
    by_cases nothing : x.receivedCount = 0
    · simp [nothing]
    · rw [if_neg nothing, if_neg nothing]
      cases processed : processPkts (x.context ctx) (fun n => bufferOf (x.mbufs n)) x.receivedCount (x.attempts 0) p with
      | none => rfl
      | some r =>
        have sendable : ∀ n ∈ List.range x.receivedCount, Sendable devicesCount x.device (r.1.dstDevices n) := fun n member =>
          (processPkts_settled processed (List.mem_range.mp member)).sendable knows within few
        obtain ⟨u, disposes⟩ := Option.isSome_iff_exists.mp (disposeAll_total sendable start room)
        simp [disposes]

end Faults

section TwoDevices
open FwNat Sessions
variable {setup : Setup} {core : Nat} {headers : B → Bool × NfUtil.Pkt}

theorem checks_drop (pkt : NfUtil.Pkt) (localState : PktSetState) :
    let checked := if pkt.timeToLive ≤ 1 then [Action.dropPkt] else []
    ∀ action ∈ (if localState.flowSize > flowSizeThreshold then (checked ++ [.dropPkt], localState)
      else (checked, { localState with flowSize := localState.flowSize + 1 })).1, action = .dropPkt := by
  intro checked action member
  have drops : ∀ action ∈ checked, action = .dropPkt := by
    intro action member
    by_cases low : pkt.timeToLive ≤ 1
    · simpa [checked, low] using member
    · simp [checked, low] at member
  split at member
  · rcases List.mem_append.mp member with checked | last
    · exact drops action checked
    · exact List.mem_singleton.mp last
  · exact drops action member

theorem fwNat_actions {grants : Nat → Nat → Bool} {call : Call NfState NfUtil.Pkt PktSetState PktSetId}
    {outcome : Outcome NfState NfUtil.Pkt PktSetState PktSetId} (ran : pktHandler setup core grants call = some outcome) :
    ∀ action ∈ outcome.actions, action = .dropPkt ∨ action = .sendPkt (Casts.u16 (1 - call.incomingDev)) := by
  simp only [pktHandler, Option.bind_eq_bind, Option.bind_eq_some_iff] at ran
  obtain ⟨localState, _, ran⟩ := ran
  have drops := checks_drop call.pkt localState
  split at ran
  · contradiction
  · obtain rfl := Option.some.inj ran
    exact fun action member => .inl (drops action member)
  · obtain rfl := Option.some.inj ran
    intro action member
    rcases List.mem_append.mp member with checked | last
    · exact .inl (drops action checked)
    · exact .inl (List.mem_singleton.mp last)
  · simp only [Option.bind_eq_some_iff, natPktAction] at ran
    obtain ⟨⟨pkt, dstDev⟩, acted, ran⟩ := ran
    obtain rfl := Option.some.inj ran
    split at acted
    · contradiction
    · obtain ⟨_, rfl⟩ := Prod.mk.inj (Option.some.inj acted)
      intro action member
      rcases List.mem_append.mp member with checked | last
      · exact .inl (drops action checked)
      · exact .inr (List.mem_singleton.mp last)

theorem fwNat_knowsDevices {ctx : Context (Nat → Nat → Bool) NfState NfUtil.Pkt PktSetState PktSetId B}
    (isNat : ctx.nf = nf setup core headers) : KnowsDevices ctx 2 := by
  intro branch pktClass contention call outcome within ran
  have other : ∀ action, action = Action.dropPkt ∨ action = .sendPkt (Casts.u16 (1 - call.incomingDev)) → ToDevice 2 action := by
    rintro _ (rfl | rfl)
    · trivial
    · change Casts.u16 _ < 2
      unfold Casts.u16
      omega
  unfold Context.handler at ran
  rw [isNat] at ran
  cases branch with
  | unknown =>
    change nfUnknownPktSetHandler setup core contention call = some outcome at ran
    simp only [nfUnknownPktSetHandler, Option.bind_eq_bind, Option.bind_eq_some_iff, Option.pure_def, Option.some.injEq] at ran
    obtain ⟨inner, handled, rfl⟩ := ran
    exact fun action member => other action (fwNat_actions handled action member)
  | noPktSet | registered =>
    change pktHandlers setup core _ contention call = some outcome at ran
    unfold pktHandlers at ran
    split at ran
    · exact fun action member => other action (fwNat_actions ran action member)
    · contradiction

end TwoDevices

/-- With handlers that know the devices an iteration ends unless the expiration or `process_pkt` does
not: the assertion about the flooding holds, and no access is outside of the arrays. -/
theorem iteration_ends {ctx : Context Ω G P S Id B} {bufferOf : M → B} {devicesCount : Nat} {x : Burst Ω G M}
    (knows : KnowsDevices ctx devicesCount) (few : devicesCount ≤ floodPort) (within : x.device < devicesCount)
    (batch : x.receivedCount ≤ vigorBatchSize) (batching : Bool) (expiration : Option (Expiration G S)) (p : Plane G P S Id) :
    (iteration ctx bufferOf devicesCount batching expiration x p).map Prod.fst =
      (expire ctx p expiration).bind (processing ctx bufferOf batching x) := by
  rw [iteration]
  cases expire ctx p expiration with
  | none => rfl
  | some q => exact handleBurst_processing knows few within batch batching q

section Example
open FwNat Sessions

/-- Two packets of a flow from the LAN, of which the first attempt does not commit. The other device takes one
of them. -/
def twoPackets : Burst Contention NfState Nat :=
  ⟨0, 0, id, 2, fun _ => [granted false, granted true, granted true], fun _ => 1⟩

/-- What becomes of them after the setup. -/
def firstBurst (batching : Bool) : Option (List (Nat × Nat) × List Nat) := do
  let ((setup, s), m) ← initial
  let (_, h) ← iteration (exampleContext setup) (fun _ => ()) 2 batching none twoPackets (examplePlane s m)
  return (h.transmitted, h.freed)

theorem buffers_conserved_burst : ∃ setup s m p' h, initial = some ((setup, s), m) ∧
    Trace (Iterates (exampleContext setup) (fun _ : Nat => ()) 2 false) (examplePlane s m) [h] p' ∧
    h.transmitted = [(1, 0)] ∧ h.freed = [1] ∧ h.received.Perm [0, 1] ∧
    Accounted (exampleContext setup) (fun _ : Nat => ()) 2 false (examplePlane s m) h p' := by
  have ran : firstBurst false = some ([(1, 0)], [1]) := by decide +kernel
  simp only [firstBurst, Option.bind_eq_bind, Option.bind_eq_some_iff, Option.pure_def, Option.some.injEq, Prod.mk.injEq] at ran
  obtain ⟨⟨⟨setup, s⟩, m⟩, ended, ⟨p', h⟩, ran, transmitted, freed⟩ := ran
  have run : Trace (Iterates (exampleContext setup) (fun _ : Nat => ()) 2 false) (examplePlane s m) [h] p' :=
    Trace.extend .start ⟨none, twoPackets, by decide, ran⟩
  obtain ⟨once, _, accounted⟩ := buffers_conserved run
  obtain ⟨q, q', before, step, after⟩ := accounted [] h [] rfl
  rw [before.eq_of_nil rfl, ← after.eq_of_nil rfl] at step
  refine ⟨setup, s, m, p', h, ended, run, transmitted, freed, ?_, step⟩
  have parts : h.transmitted.map Prod.snd ++ h.freed = [0, 1] := by
    rw [show h.transmitted = _ from transmitted, show h.freed = _ from freed]
    rfl
  simpa [parts] using once

theorem iteration_ends_burst : ∃ setup s m, initial = some ((setup, s), m) ∧
    (iteration (exampleContext setup) (fun _ : Nat => ()) 2 true none twoPackets (examplePlane s m)).isSome := by
  have ran : (do
      let ((setup, s), m) ← initial
      processing (exampleContext setup) (fun _ => ()) true twoPackets (examplePlane s m)).isSome = true := by decide +kernel
  obtain ⟨q, ran⟩ := Option.isSome_iff_exists.mp ran
  simp only [Option.bind_eq_bind, Option.bind_eq_some_iff] at ran
  obtain ⟨⟨⟨setup, s⟩, m⟩, ended, ran⟩ := ran
  refine ⟨setup, s, m, ended, ?_⟩
  have knows : KnowsDevices (exampleContext setup) 2 := fwNat_knowsDevices rfl
  have same : (iteration (exampleContext setup) (fun _ : Nat => ()) 2 true none twoPackets (examplePlane s m)).map Prod.fst = _ :=
    iteration_ends knows (by decide) (by decide) (by decide) true none (examplePlane s m)
  rw [expire, Option.bind_some, ran] at same
  rw [← Option.isSome_map, same]
  rfl

end Example
end Nfos.MainLoop
