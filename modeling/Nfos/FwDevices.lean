import Nfos.DataPlaneEnds
import Nfos.Fw

/-! The devices that `fw` stores for its flows. Handlers leave them, whatever is aborted: a
transaction and its rollback only change the TCP flags. -/
namespace Nfos.Fw
open Function DataPlane PktSetManager ConcurrentDoubleChain Registry Retry

section Managers
variable {B : Type} {ctx : Context Unit Unit Pkt PktSetState PktSetId B} {core : Fin ctx.cfg.numCores}
variable {m m' : Manager PktSetId PktSetState} {A : PktSetId → Option Nat} {id : PktSetId}

theorem pktSetIdEq_iff {a b : PktSetId} : pktSetIdEq a b = true ↔ a = b := by
  cases a
  cases b
  simp only [pktSetIdEq, Bool.and_eq_true, beq_iff_eq, PktSetId.mk.injEq]
  tauto

/-- The functions of the NF for the ids of its flows. -/
structure Keyed (crc32si : Nat → Nat → Nat) (cfg : Config PktSetId) : Prop where
  eq : cfg.pktSetIdEq = pktSetIdEq
  hash : cfg.pktSetIdHash = pktSetIdHash crc32si

theorem Keyed.lawful {crc32si : Nat → Nat → Nat} {cfg : Config PktSetId} (keyed : Keyed crc32si cfg) : cfg.Lawful where
  equivalence := by
    simp only [keyed.eq, pktSetIdEq_iff]
    exact eq_equivalence
  hash a b same := by
    rw [keyed.eq, pktSetIdEq_iff] at same
    rw [same]

/-- The flows that the manager has, with the devices in their states. -/
def Admits (cfg : Config PktSetId) (core : Fin cfg.numCores) (m : Manager PktSetId PktSetState) (A : PktSetId → Option Nat) : Prop :=
  ∃ E, Holds cfg m E ∧ ∀ id, A id = (E core id).map fun entry => entry.2.internalDevice

/-- No flow has moved, and none has another device. -/
structure SameDevices (m m' : Manager PktSetId PktSetState) : Prop extends SameCells m m' where
  devices : ∀ slot, (m'.pktSetState slot).internalDevice = (m.pktSetState slot).internalDevice

theorem SameDevices.refl (m : Manager PktSetId PktSetState) : SameDevices m m := ⟨.refl m, fun _ => rfl⟩

theorem SameDevices.trans {m'' : Manager PktSetId PktSetState} (first : SameDevices m m') (second : SameDevices m' m'') :
    SameDevices m m'' :=
  ⟨first.toSameCells.trans second.toSameCells, fun slot => (second.devices slot).trans (first.devices slot)⟩

theorem Admits.of_same (admits : Admits ctx.cfg core m A) (same : SameDevices m m') : Admits ctx.cfg core m' A := by
  obtain ⟨E, ⟨L, C, coherent, represents⟩, devices⟩ := admits
  refine ⟨fun q k => (E q k).map fun entry => (entry.1, m'.pktSetState entry.1), ⟨L, C, ?_, ?_⟩, ?_⟩
  · exact coherent.relink same.buckets (same.cells ▸ coherent.valid) (fun _ _ => Iff.rfl) (by rw [same.cells]) (by rw [same.cells])
  · intro q k slot state
    rw [same.cells, Option.map_eq_some_iff]
    constructor
    · rintro ⟨⟨j, old⟩, found, equal⟩
      obtain ⟨rfl, rfl⟩ := Prod.mk.inj equal
      obtain ⟨member, named, _⟩ := (represents q k j old).mp found
      exact ⟨member, named, rfl⟩
    · rintro ⟨member, named, rfl⟩
      exact ⟨(slot, m.pktSetState slot), (represents q k slot _).mpr ⟨member, named, rfl⟩, rfl⟩
  · intro k
    rw [devices k, Option.map_map]
    cases found : E core k with
    | none => rfl
    | some entry =>
      obtain ⟨slot, state⟩ := entry
      obtain ⟨_, _, stored⟩ := (represents core k slot state).mp found
      simp [same.devices, stored]

/-- A lookup finds the slot with the device of a flow. -/
theorem Admits.lookup (admits : Admits ctx.cfg core m A) (fits : ctx.cfg.Fits) (lawful : ctx.cfg.Lawful)
    (here : ctx.pktSetPartition = core.val) {slot : Option Nat} {time : Int}
    (ran : getPktSetState ctx.cfg id ctx.pktSetPartition time m = some (slot, m')) :
    Admits ctx.cfg core m' A ∧ m'.pktSetState = m.pktSetState ∧ A id = slot.map fun j => (m.pktSetState j).internalDevice := by
  obtain ⟨E, holds, devices⟩ := admits
  obtain ⟨m₁, got, holds', states, stored⟩ := holds.lookup fits lawful core id time
  rw [here, got] at ran
  obtain ⟨rfl, rfl⟩ := Prod.mk.inj (Option.some.inj ran)
  refine ⟨⟨E, holds', devices⟩, states, ?_⟩
  rw [devices id]
  cases found : E core id with
  | none => rfl
  | some entry => simp [stored entry.1 entry.2 found]

/-- The map has a flow if and only if it has a device. -/
theorem Admits.isRegistered (admits : Admits ctx.cfg core m A) (fits : ctx.cfg.Fits) (lawful : ctx.cfg.Lawful)
    (here : ctx.pktSetPartition = core.val) (id : PktSetId) : isRegistered ctx id m = (A id).isSome := by
  obtain ⟨E, holds, devices⟩ := admits
  obtain ⟨m₁, got, _⟩ := holds.lookup fits lawful core id ctx.now
  rw [← here] at got
  rw [← (getPktSetState_found got).1, devices id, Option.isSome_map, Option.isSome_map]

/-- The registration of a flow, if its handler has called `add_pkt_set` with success. -/
theorem Admits.commit (admits : Admits ctx.cfg core m A) (fits : ctx.cfg.Fits) (lawful : ctx.cfg.Lawful)
    (eq : ctx.cfg.pktSetIdEq = pktSetIdEq) (here : ctx.pktSetPartition = core.val) (absent : A id = none)
    {outcome : Outcome Unit Pkt PktSetState PktSetId} {time : Int}
    (ran : addPktSetCommit ctx.cfg id core.val time (writeBack ctx none outcome (addPktSetLogClear core.val m)) = some m') :
    Admits ctx.cfg core m' A ∨ ∃ state related, outcome.added = some (state, related) ∧
      Admits ctx.cfg core m' (update A id (some state.internalDevice)) := by
  obtain ⟨E, holds, devices⟩ := admits
  have missing : E core id = none := by
    have none := devices id
    rw [absent, eq_comm, Option.map_eq_none_iff] at none
    exact none
  have result := holds.commit fits lawful here missing ran
  split at result
  · exact .inl ⟨E, result, devices⟩
  · rename_i state registered
    obtain ⟨slot, holds'⟩ := result
    unfold registers at registered
    split at registered
    · obtain ⟨⟨given, related⟩, added, rfl⟩ := Option.map_eq_some_iff.mp registered
      refine .inr ⟨given, related, added, _, holds', fun k => ?_⟩
      by_cases this : k = id
      · subst this
        simp [add, eq, pktSetIdEq_iff]
      · simp [add, eq, pktSetIdEq_iff, this, devices k]
    · contradiction

/-- A sweep removes the flows that it deletes. -/
theorem Admits.sweep (admits : Admits ctx.cfg core m A) (fits : ctx.cfg.Fits) (lawful : ctx.cfg.Lawful)
    (eq : ctx.cfg.pktSetIdEq = pktSetIdEq) {handler : Nat → ExpiredRuns PktSetState} {time : Int}
    {gone : List (Expired PktSetId PktSetState)}
    (ran : deleteExpiredPktSets ctx.cfg handler time core.val m = some (gone, m')) :
    Admits ctx.cfg core m' fun id => if id ∈ gone.map Expired.id then none else A id := by
  obtain ⟨E, holds, devices⟩ := admits
  refine ⟨_, holds.sweep fits lawful ran, fun id => ?_⟩
  simp only [remove, eq, pktSetIdEq_iff, true_and, exists_eq_right']
  split
  · rfl
  · exact devices id

end Managers

section Attempts
variable {B : Type} {setup : Setup} {headers : B → Bool × Pkt} {ctx : Context Unit Unit Pkt PktSetState PktSetId B}
variable {b : Batch PktSetId} {n : Nat} {d : Dispatch PktSetId} {a : Attempt Unit Unit} {contention view : Unit} {l : List Nat}
variable {p p' q : Plane Unit Pkt PktSetState PktSetId} {done : Bool}

/-- The handler of a registered flow never aborts. A packet from the WAN goes to the device of the flow. -/
theorem handler_registered (isFw : ctx.nf = nf setup headers) {pktClass : Nat} {call : Call Unit Pkt PktSetState PktSetId}
    {outcome : Outcome Unit Pkt PktSetState PktSetId} {state : PktSetState} (given : call.localState = some state)
    (handled : ctx.handler .registered pktClass contention call = some outcome) :
    outcome.abort = false ∧ outcome.added = none ∧
      (∃ state', outcome.localState = some state' ∧ state'.internalDevice = state.internalDevice) ∧
      (call.incomingDev = setup.wanDevice → ∀ dst, deliver dst outcome.actions = state.internalDevice) := by
  have ran : pktHandler setup call = some outcome := by
    rw [← handled, Context.handler, isFw]
    rfl
  obtain ⟨state₁, pkt, action, same, forwarded, rfl⟩ := pktHandler_iff.mp ran
  obtain rfl := Option.some.inj (given.symm.trans same)
  refine ⟨rfl, rfl, ⟨_, rfl, internalDevice_trackFlags ..⟩, fun wan dst => ?_⟩
  rw [forwardPkt, if_pos wan, Option.some.injEq, Prod.mk.injEq] at forwarded
  obtain ⟨_, rfl⟩ := forwarded
  simp [deliver, Action.apply]

/-- Without a flow a packet from the WAN is dropped, and one from the LAN may register its device. -/
theorem handler_unknown (isFw : ctx.nf = nf setup headers) {pktClass : Nat} {call : Call Unit Pkt PktSetState PktSetId}
    {outcome : Outcome Unit Pkt PktSetState PktSetId} (handled : ctx.handler .unknown pktClass contention call = some outcome) :
    outcome.abort = false ∧ (call.incomingDev = setup.wanDevice → ∀ dst, deliver dst outcome.actions = dst) ∧
      ∀ state related, outcome.added = some (state, related) →
        call.incomingDev ≠ setup.wanDevice ∧ state.internalDevice = call.incomingDev := by
  have ran : nfUnknownPktSetHandler setup call = some outcome := by
    rw [← handled, Context.handler, isFw]
    rfl
  rw [nfUnknownPktSetHandler_iff] at ran
  split at ran
  · rename_i wan
    subst ran
    exact ⟨rfl, fun _ _ => rfl, fun _ _ added => absurd added.symm (Option.some_ne_none _)⟩
  · rename_i lan
    obtain ⟨pkt, action, _, rfl⟩ := ran
    refine ⟨rfl, fun wan => absurd wan lan, fun state related added => ⟨lan, ?_⟩⟩
    obtain ⟨rfl, _⟩ := Prod.mk.inj (Option.some.inj added)
    rfl

theorem sameDevices_registered {slot : Nat} {outcome : Outcome Unit Pkt PktSetState PktSetId} {state : PktSetState}
    {m : Manager PktSetId PktSetState} (left : outcome.localState = some state)
    (device : state.internalDevice = (m.pktSetState slot).internalDevice) :
    SameDevices m (writeBack ctx (some slot) outcome m) := by
  refine ⟨sameCells_writeBack .., fun j => ?_⟩
  rw [pktSetState_writeBack, left]
  by_cases this : j = slot
  · subst this
    simpa using device
  · simp [this]

theorem sameDevices_unknown (outcome : Outcome Unit Pkt PktSetState PktSetId) (m : Manager PktSetId PktSetState) :
    SameDevices m (writeBack ctx none outcome m) := by
  refine ⟨sameCells_writeBack .., fun j => ?_⟩
  rw [pktSetState_writeBack]

/-- The saved states have the devices of the flows, if there are any to be copied back. -/
def Saved (ctx : Context Unit Unit Pkt PktSetState PktSetId B) (p : Plane Unit Pkt PktSetState PktSetId)
    (m : Manager PktSetId PktSetState) : Prop :=
  ctx.mutablePktSetState = true → ∀ entry ∈ p.pktSetStateLog, entry.2.internalDevice = (m.pktSetState entry.1).internalDevice

theorem Saved.beforeRegistered (saved : Saved ctx p p.manager) (n : Nat) : Saved ctx (beforeRegistered ctx n p) p.manager := by
  intro mutableStates entry member
  simp only [DataPlane.beforeRegistered, mutableStates, if_true, logOnePktSetState, List.mem_append, List.mem_singleton] at member
  rcases member with old | rfl
  · exact saved mutableStates entry old
  · rfl

/-- The handlers of a transaction over registered flows. -/
theorem handlePkts_devices (isFw : ctx.nf = nf setup headers) {result : Option Unit} (distinct : l.Nodup)
    (saved : Saved ctx p p.manager)
    (ran : handlePkts ctx b .registered (beforeRegistered ctx) contention l view p = some (result, q)) :
    SameDevices p.manager q.manager ∧ Saved ctx q q.manager ∧ q.pktSetState = p.pktSetState ∧
      (∀ n, n ∉ l → q.dstDevices n = p.dstDevices n) ∧
      (ctx.device = setup.wanDevice → ∀ n ∈ l, q.dstDevices n = (p.manager.pktSetState (p.pktSetState n)).internalDevice) := by
  induction l generalizing p view with
  | nil =>
    simp only [handlePkts, Option.pure_def, Option.some.injEq, Prod.mk.injEq] at ran
    obtain ⟨_, rfl⟩ := ran
    exact ⟨.refl _, saved, rfl, fun _ _ => rfl, fun _ _ member => absurd member List.not_mem_nil⟩
  | cons n rest ih =>
    simp only [handlePkts, Option.bind_eq_bind, Option.bind_eq_some_iff] at ran
    obtain ⟨⟨outcome, t⟩, invokes, ran⟩ := ran
    obtain ⟨handled, rfl⟩ := invoke_iff.mp invokes
    obtain ⟨absent, distinct⟩ := List.nodup_cons.mp distinct
    have manager : (beforeRegistered ctx n p).manager = p.manager := prepares_registered.manager n p
    have dstDevices : (beforeRegistered ctx n p).dstDevices = p.dstDevices := prepares_registered.dstDevices n p
    have slots : (beforeRegistered ctx n p).pktSetState = p.pktSetState := by
      simp only [beforeRegistered]
      split <;> rfl
    have given : (callAt ctx .registered n (b.dispatch n) view (beforeRegistered ctx n p)).localState =
        some (p.manager.pktSetState (p.pktSetState n)) := by
      rw [callAt, slotOf, slots, manager]
      rfl
    obtain ⟨returned, _, ⟨state, left, device⟩, sent⟩ := handler_registered isFw given handled
    simp only [returned, Bool.false_eq_true, if_false] at ran
    have same : SameDevices p.manager (writeBack ctx (some (p.pktSetState n)) outcome p.manager) :=
      sameDevices_registered left device
    have after : (invoked ctx .registered n (b.dispatch n) outcome (beforeRegistered ctx n p)).manager =
        writeBack ctx (some (p.pktSetState n)) outcome p.manager := by
      rw [invoked, slotOf, slots, manager]
    rw [← after] at same
    obtain ⟨later, saved', slots', frame, wan⟩ := ih distinct (by
      intro mutableStates entry member
      exact (saved.beforeRegistered n mutableStates entry member).trans (same.devices entry.1).symm) ran
    have keeps : (invoked ctx .registered n (b.dispatch n) outcome (beforeRegistered ctx n p)).pktSetState = p.pktSetState := slots
    refine ⟨same.trans later, saved', slots'.trans keeps, ?_, ?_⟩
    · intro m other
      obtain ⟨apart, other⟩ := List.ne_and_not_mem_of_not_mem_cons other
      rw [frame m other]
      change update (beforeRegistered ctx n p).dstDevices n _ m = _
      rw [update_of_ne apart, dstDevices]
    · intro isWan m member
      rcases List.mem_cons.mp member with rfl | member
      · rw [frame m absent]
        change update (beforeRegistered ctx m p).dstDevices m _ m = _
        rw [update_self]
        exact sent isWan _
      · rw [wan isWan m member]
        change ((invoked ctx .registered n (b.dispatch n) outcome (beforeRegistered ctx n p)).manager.pktSetState
          ((beforeRegistered ctx n p).pktSetState m)).internalDevice = _
        rw [slots, same.devices]

/-- The rollback of a transaction. -/
theorem abortTxn_devices (saved : Saved ctx p p.manager) : SameDevices p.manager (abortTxn ctx .registered p).manager ∧
    (abortTxn ctx .registered p).pktSetState = p.pktSetState := by
  unfold abortTxn
  split
  · rename_i rolled
    refine ⟨⟨⟨rfl, rfl⟩, fun slot => ?_⟩, rfl⟩
    by_cases present : slot ∈ p.pktSetStateLog.map Prod.fst
    · obtain ⟨front, state, back, split, absent⟩ := UndoLog.exists_last present
      have device := saved rolled.1 (slot, state) (by simp [split])
      change (UndoLog.replay p.pktSetStateLog p.manager.pktSetState slot).internalDevice = _
      rw [split, UndoLog.replay_of_last absent]
      exact device
    · change (UndoLog.replay p.pktSetStateLog p.manager.pktSetState slot).internalDevice = _
      rw [UndoLog.replay_of_not_mem present]
  · exact ⟨.refl _, rfl⟩

/-- A pass through the loop for registered flows. -/
theorem attemptRegistered_devices (isFw : ctx.nf = nf setup headers) {startN endN : Nat}
    (distinct : (positions b endN b.batchSize startN).Nodup) (ran : attemptRegistered ctx b startN endN a p = some (done, p')) :
    SameDevices p.manager p'.manager ∧ p'.pktSetState = p.pktSetState ∧
      (done = true → ctx.device = setup.wanDevice → ∀ n ∈ positions b endN b.batchSize startN,
        p'.dstDevices n = (p.manager.pktSetState (p.pktSetState n)).internalDevice) := by
  have tried : ∀ q : Plane Unit Pkt PktSetState PktSetId, Saved ctx q q.manager →
      transaction ctx .registered (fun contention => handlePkts ctx b .registered (beforeRegistered ctx) contention
        (positions b endN b.batchSize startN)) a q = some (done, p') →
      SameDevices q.manager p'.manager ∧ p'.pktSetState = q.pktSetState ∧
        (done = true → ctx.device = setup.wanDevice → ∀ n ∈ positions b endN b.batchSize startN,
          p'.dstDevices n = (q.manager.pktSetState (q.pktSetState n)).internalDevice) := by
    intro q saved ran
    cases done with
    | false =>
      obtain ⟨result, u, worked, rfl⟩ := transaction_failed ran
      obtain ⟨same, saved', slots, _⟩ := handlePkts_devices isFw distinct (by exact saved) worked
      obtain ⟨rolled, slots'⟩ := abortTxn_devices saved'
      exact ⟨same.trans rolled, slots'.trans slots, fun done => nomatch done⟩
    | true =>
      obtain ⟨view, u, worked, _, rfl⟩ := transaction_done ran
      obtain ⟨same, _, slots, _, wan⟩ := handlePkts_devices isFw distinct (by exact saved) worked
      exact ⟨same, slots, fun _ => wan⟩
  unfold attemptRegistered at ran
  split at ran
  · exact tried (resetLogPktSetState p) (fun _ _ member => nomatch member) ran
  · rename_i constant
    exact tried p (fun mutableStates => absurd mutableStates constant) ran

/-- The loop for registered flows. -/
theorem retryRegistered_devices (isFw : ctx.nf = nf setup headers) {startN endN : Nat} {attempts rest : List (Attempt Unit Unit)}
    (distinct : (positions b endN b.batchSize startN).Nodup)
    (ran : retry (attemptRegistered ctx b startN endN) attempts p = some (p', rest)) :
    SameDevices p.manager p'.manager ∧
      (ctx.device = setup.wanDevice → ∀ n ∈ positions b endN b.batchSize startN,
        p'.dstDevices n = (p.manager.pktSetState (p.pktSetState n)).internalDevice) := by
  obtain ⟨failed, a, q, _, trace, finish⟩ := retry_eq_some ran
  obtain ⟨same, slots⟩ : SameDevices p.manager q.manager ∧ q.pktSetState = p.pktSetState := by
    refine trace.keeps (P := fun q => SameDevices p.manager q.manager ∧ q.pktSetState = p.pktSetState) ⟨.refl _, rfl⟩ ?_
    rintro u a t ⟨same, slots⟩ failure
    obtain ⟨more, slots', _⟩ := attemptRegistered_devices isFw distinct failure
    exact ⟨same.trans more, slots'.trans slots⟩
  obtain ⟨last, _, wan⟩ := attemptRegistered_devices isFw distinct finish
  refine ⟨same.trans last, fun isWan n member => ?_⟩
  rw [wan rfl isWan n member, slots, same.devices]

/-- The loop for an unknown flow, up to the attempt that commits. -/
theorem retryUnknown_devices (isFw : ctx.nf = nf setup headers) {attempts rest : List (Attempt Unit Unit)}
    (ran : retry (attemptPkt ctx .unknown n d) attempts p = some (p', rest)) :
    ∃ m outcome, SameDevices p.manager m ∧ p'.manager = writeBack ctx none outcome (addPktSetLogClear ctx.pktSetPartition m) ∧
      (ctx.device = setup.wanDevice → p'.dstDevice = p.dstDevice) ∧
      ∀ state related, outcome.added = some (state, related) →
        ctx.device ≠ setup.wanDevice ∧ state.internalDevice = ctx.device := by
  obtain ⟨failed, a, q, _, trace, finish⟩ := retry_eq_some ran
  have same : SameDevices p.manager q.manager ∧ (ctx.device = setup.wanDevice → q.dstDevice = p.dstDevice) := by
    refine trace.keeps (P := fun q => SameDevices p.manager q.manager ∧ (ctx.device = setup.wanDevice → q.dstDevice = p.dstDevice))
      ⟨.refl _, fun _ => rfl⟩ ?_
    rintro u a t ⟨same, dst⟩ failure
    obtain ⟨result, v, worked, rfl⟩ := transaction_failed failure
    simp only [Option.bind_eq_bind, Option.bind_eq_some_iff, Option.pure_def, Option.some.injEq, Prod.mk.injEq] at worked
    obtain ⟨⟨outcome, w⟩, invokes, _, rfl⟩ := worked
    obtain ⟨handled, rfl⟩ := invoke_iff.mp invokes
    obtain ⟨_, dropped, _⟩ := handler_unknown isFw handled
    have plain : ∀ v, abortTxn ctx .unknown v = Plane.endTxn false v := by
      intro v
      simp [abortTxn]
    rw [plain]
    refine ⟨same.trans ?_, fun isWan => (dropped isWan _).trans (dst isWan)⟩
    have wrote : SameDevices _ (writeBack ctx none outcome (addPktSetLogClear ctx.pktSetPartition u.manager)) :=
      sameDevices_unknown outcome _
    exact ⟨⟨wrote.cells, wrote.buckets⟩, wrote.devices⟩
  obtain ⟨outcome, handled, _, _, rfl⟩ := attemptPkt_committed.mp finish
  obtain ⟨_, dropped, added⟩ := handler_unknown isFw handled
  exact ⟨q.manager, outcome, same.1, rfl, fun isWan => (dropped isWan _).trans (same.2 isWan), added⟩

end Attempts
end Nfos.Fw
