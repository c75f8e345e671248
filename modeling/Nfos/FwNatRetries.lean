import Nfos.Uncontended
import Nfos.DataPlaneRollback

/-! Retries of the handlers of `fw-nat`. The headers of the packet and the state of the
packet set are not undone when a transaction aborts. -/
namespace Nfos.FwNat
open Txn Tx Function Map DoubleChain NfUtil DataPlane PktSetManager Sessions Run Retry

abbrev Contention : Type := Nat → Nat → Bool

def source (pkt : Pkt) : Nat × Nat := (pkt.srcAddr, pkt.srcPort)

section Source
variable (setup : Setup) (core : Nat)

/-- The external address and port of the session of a key, which may be a new one. -/
def externalTuple (view : NfState) (key : Session) : Option (Nat × Nat) :=
  match found setup.map view.sessionMap key with
  | some sessIndex => some (sessIdToExtTuple setup.cfg sessIndex key.proto)
  | none =>
    match allocateSessIndex setup.cfg setup.numCores core key.proto (fun _ _ => true) view.start with
    | .ok (some index, _) => some (sessIdToExtTuple setup.cfg index key.proto)
    | _ => none

/-- A lock that the handler needs is refused. -/
def refused (contention : Contention) (view : NfState) (key : Session) (now : Int) : Bool :=
  match translate setup core key now contention view.start with
  | .ok _ => false
  | .error _ => true

/-- The shared state and the source of the packet after an attempt that does not commit. -/
def leaves (proto : Nat) (now : Int) (s : NfState × (Nat × Nat)) (a : Attempt Contention NfState) : NfState × (Nat × Nat) :=
  let view := a.others s.1
  let key : Session := ⟨s.2.1, s.2.2, proto⟩
  (view, if refused setup core a.contention view key now then s.2 else (externalTuple setup core view key).getD s.2)

/-- The same after some attempts. -/
def carried (proto : Nat) (now : Int) (failed : List (Attempt Contention NfState)) (s : NfState × (Nat × Nat)) :
    NfState × (Nat × Nat) :=
  failed.foldl (leaves setup core proto now) s

end Source

section Handlers
variable {setup : Setup} {core : Nat} {contention : Contention} {call : Call NfState Pkt PktSetState PktSetId}
variable {outcome : Outcome NfState Pkt PktSetState PktSetId}

theorem flowSize_le (n : UInt32) : ¬ n > flowSizeThreshold := by
  simp only [flowSizeThreshold, gt_iff_lt, UInt32.lt_iff_toNat_lt]
  have := n.toNat_lt
  simp
  omega

/-- The packet as `natPktAction` leaves it. -/
def rewritten (setup : Setup) (pkt : Pkt) (ext : Nat × Nat) : Pkt :=
  nfSetIpv4UdptcpChecksum setup.sums { pkt with srcPort := ext.2, srcAddr := ext.1 }

/-- What a handler did to the packet and to the shared state, if it did not abort. -/
inductive Did (setup : Setup) (core : Nat) (contention : Contention) (view : NfState) (pkt : Pkt) (now : Int)
    (outcome : Outcome NfState Pkt PktSetState PktSetId) : Prop where
  | aborted : outcome.abort = true → outcome.pkt = pkt →
      translate setup core (sessionKey pkt) now contention view.start = .error .abort →
      Did setup core contention view pkt now outcome
  | returned (ext : Option (Nat × Nat)) (l : Store SessionData Log) : outcome.abort = false →
      translate setup core (sessionKey pkt) now contention view.start = .ok (ext, l) →
      outcome.globalState = l.view → outcome.pkt = (ext.map (rewritten setup pkt)).getD pkt →
      Did setup core contention view pkt now outcome

theorem pktHandler_did (ran : pktHandler setup core contention call = some outcome) :
    Did setup core contention call.globalState call.pkt call.time outcome ∧ outcome.added = none ∧
      ∃ state, call.localState = some state ∧ outcome.localState = some ⟨state.flowSize + 1⟩ := by
  simp only [pktHandler, Option.bind_eq_bind, Option.bind_eq_some_iff] at ran
  obtain ⟨state, given, ran⟩ := ran
  rw [if_neg (flowSize_le _)] at ran
  split at ran
  · contradiction
  · rename_i refused
    obtain rfl := Option.some.inj ran
    exact ⟨.aborted rfl rfl refused, rfl, state, given, rfl⟩
  · rename_i l translated
    obtain rfl := Option.some.inj ran
    exact ⟨.returned none l rfl translated rfl rfl, rfl, state, given, rfl⟩
  · rename_i extIp extPort l translated
    simp only [Option.bind_eq_some_iff, natPktAction] at ran
    obtain ⟨⟨pkt, dstDev⟩, acted, ran⟩ := ran
    obtain rfl := Option.some.inj ran
    split at acted
    · contradiction
    · obtain ⟨rfl, rfl⟩ := Prod.mk.inj (Option.some.inj acted)
      exact ⟨.returned _ l rfl translated rfl rfl, rfl, state, given, rfl⟩

theorem nfUnknownPktSetHandler_did (ran : nfUnknownPktSetHandler setup core contention call = some outcome) :
    Did setup core contention call.globalState call.pkt call.time outcome ∧ outcome.added = some (⟨0⟩, none) ∧ outcome.localState = none := by
  simp only [nfUnknownPktSetHandler, Option.bind_eq_bind, Option.bind_eq_some_iff] at ran
  obtain ⟨inner, handled, ran⟩ := ran
  obtain rfl := Option.some.inj ran
  obtain ⟨did, _, _⟩ := pktHandler_did handled
  refine ⟨?_, rfl, rfl⟩
  cases did with
  | aborted abort pkt refused => exact .aborted abort pkt refused
  | returned ext l abort translated state pkt => exact .returned ext l abort translated state pkt

variable {state : PktSetState} {ext : Nat × Nat} {l : Store SessionData Log}

theorem pktHandler_returns (lan : call.incomingDev ≠ setup.cfg.wanDevice) (given : call.localState = some state)
    (translated : translate setup core (sessionKey call.pkt) call.time contention call.globalState.start = .ok (some ext, l)) :
    ∃ outcome, pktHandler setup core contention call = some outcome ∧ outcome.abort = false := by
  obtain ⟨extIp, extPort⟩ := ext
  simp only [pktHandler, given, translated, natPktAction, if_neg lan, Option.bind_eq_bind, Option.bind_some]
  exact ⟨_, rfl, rfl⟩

theorem nfUnknownPktSetHandler_returns (lan : call.incomingDev ≠ setup.cfg.wanDevice)
    (translated : translate setup core (sessionKey call.pkt) call.time contention call.globalState.start = .ok (some ext, l)) :
    ∃ outcome, nfUnknownPktSetHandler setup core contention call = some outcome ∧ outcome.abort = false := by
  obtain ⟨outcome, handled, returned⟩ : ∃ outcome,
      pktHandler setup core contention { call with localState := some ⟨0⟩ } = some outcome ∧ outcome.abort = false :=
    pktHandler_returns lan rfl translated
  refine ⟨{ outcome with localState := none, added := some (⟨0⟩, none) }, ?_, returned⟩
  simp only [nfUnknownPktSetHandler, handled, Option.bind_eq_bind, Option.bind_some]
  rfl

end Handlers

section Attempts
variable {Ω G P S Id B : Type} (ctx : Context Ω G P S Id B) (branch : Branch) (d : Dispatch Id)

/-- What a handler is given in an attempt for the packet at position 0. -/
def callOf (view : G) (p : Plane G P S Id) : DataPlane.Call G P S Id where
  globalState := view
  pkt := p.packet 0
  incomingDev := ctx.device
  localState := (slotOf branch 0 p).map p.manager.pktSetState
  pktSetId := d.pktSetId
  time := ctx.now
  canAdd := ConcurrentDoubleChain.concurrentDchainImplHasFreeIndexes ctx.cfg.numCores p.manager.cells ctx.pktSetPartition

/-- An attempt for a packet with a packet set, by what its handler did. -/
structure Attempted (a : Attempt Ω G) (p : Plane G P S Id) (done : Bool) (p' : Plane G P S Id)
    (outcome : Outcome G P S Id) : Prop where
  handled : ctx.handler branch d.pktClass a.contention (callOf ctx branch d (a.others p.globalState) (prepare ctx branch 0 p)) =
    some outcome
  ended : done = (!outcome.abort && a.unlocks)
  globalState : p'.globalState = if done then outcome.globalState else a.others p.globalState
  packet : p'.packet 0 = outcome.pkt
  slot : p'.pktSetState = p.pktSetState
  cells : p'.manager.cells = p.manager.cells
  buckets : p'.manager.buckets = p.manager.buckets
  log : p'.manager.log = (writeBack ctx (slotOf branch 0 p) outcome (prepare ctx branch 0 p).manager).log
  states : p'.manager.pktSetState =
    if ctx.mutablePktSetState = true ∧ branch = .registered ∧ done = false then p.manager.pktSetState
    else (writeBack ctx (slotOf branch 0 p) outcome p.manager).pktSetState

variable {ctx branch d}

theorem invoke_callOf {contention : Ω} {view : G} {p q : Plane G P S Id} {outcome : Outcome G P S Id}
    (ran : invoke ctx branch 0 d contention view p = some (outcome, q)) :
    ctx.handler branch d.pktClass contention (callOf ctx branch d view p) = some outcome := by
  simp only [invoke, Option.bind_eq_bind, Option.bind_eq_some_iff, Option.pure_def, Option.some.injEq, Prod.mk.injEq] at ran
  obtain ⟨_, handled, rfl, _⟩ := ran
  exact handled

theorem writeBack_frame (ctx : Context Ω G P S Id B) (slot : Option Nat) (outcome : Outcome G P S Id) (m : Manager Id S) :
    (writeBack ctx slot outcome m).cells = m.cells ∧ (writeBack ctx slot outcome m).buckets = m.buckets := by
  unfold writeBack addPktSetLog
  cases outcome.added with
  | none => exact ⟨rfl, rfl⟩
  | some added =>
    dsimp only
    split
    · exact ⟨rfl, rfl⟩
    · exact ⟨rfl, rfl⟩

theorem prepare_manager (ctx : Context Ω G P S Id B) (branch : Branch) (n : Nat) (p : Plane G P S Id) :
    (prepare ctx branch n p).manager.cells = p.manager.cells ∧ (prepare ctx branch n p).manager.buckets = p.manager.buckets ∧
    (prepare ctx branch n p).manager.pktSetState = p.manager.pktSetState ∧ (prepare ctx branch n p).globalState = p.globalState ∧
    (prepare ctx branch n p).pktSetState = p.pktSetState ∧ (prepare ctx branch n p).packet = p.packet := by
  cases branch with
  | noPktSet | unknown => exact ⟨rfl, rfl, rfl, rfl, rfl, rfl⟩
  | registered =>
    unfold prepare
    dsimp only
    split <;> exact ⟨rfl, rfl, rfl, rfl, rfl, rfl⟩

theorem attemptPkt_attempted {a : Attempt Ω G} {p p' : Plane G P S Id} {done : Bool} (known : branch ≠ .noPktSet)
    (ran : attemptPkt ctx branch 0 d a p = some (done, p')) : ∃ outcome, Attempted ctx branch d a p done p' outcome := by
  obtain ⟨cells, buckets, states, globalState, slots, packet⟩ := prepare_manager ctx branch 0 p
  have slot : slotOf branch 0 (prepare ctx branch 0 p) = slotOf branch 0 p := by
    cases branch <;> simp [slotOf, slots]
  have worked : ∀ result q, (do
        let r ← invoke ctx branch 0 d a.contention (a.others p.globalState)
          { prepare ctx branch 0 p with globalState := a.others p.globalState }
        return (if r.1.abort then none else some r.1.globalState, r.2)) = some (result, q) →
      ∃ outcome, ctx.handler branch d.pktClass a.contention (callOf ctx branch d (a.others p.globalState) (prepare ctx branch 0 p)) =
          some outcome ∧ result = (if outcome.abort then none else some outcome.globalState) ∧
        q.globalState = a.others p.globalState ∧ q.packet 0 = outcome.pkt ∧ q.pktSetState = p.pktSetState ∧
        q.pktSetStateLog = (prepare ctx branch 0 p).pktSetStateLog ∧
        q.manager = writeBack ctx (slotOf branch 0 p) outcome (prepare ctx branch 0 p).manager := by
    intro result q ran
    simp only [Option.bind_eq_bind, Option.bind_eq_some_iff, Option.pure_def, Option.some.injEq, Prod.mk.injEq] at ran
    obtain ⟨⟨outcome, u⟩, ran, rfl, rfl⟩ := ran
    have handled := invoke_callOf ran
    refine ⟨outcome, handled, rfl, ?_⟩
    obtain ⟨_, rfl⟩ := invoke_eq_some ran
    refine ⟨rfl, update_self 0 outcome.pkt (prepare ctx branch 0 p).packet, slots, rfl, ?_⟩
    exact congrArg (writeBack ctx · outcome _) slot
  have back (outcome : Outcome G P S Id) : (writeBack ctx (slotOf branch 0 p) outcome (prepare ctx branch 0 p).manager).pktSetState =
      (writeBack ctx (slotOf branch 0 p) outcome p.manager).pktSetState := by
    rw [pktSetState_writeBack, pktSetState_writeBack, states]
  simp only [attemptPkt, transaction, Option.bind_eq_bind, Option.bind_eq_some_iff, globalState] at ran
  obtain ⟨⟨result, q⟩, inner, ran⟩ := ran
  obtain ⟨outcome, handled, rfl, globalState', packet', slots', log', manager'⟩ := worked result q
    (Option.bind_eq_some_iff.mpr inner)
  obtain ⟨cells', buckets'⟩ := writeBack_frame ctx (slotOf branch 0 p) outcome (prepare ctx branch 0 p).manager
  rw [← manager', cells] at cells'
  rw [← manager', buckets] at buckets'
  have kept := congrArg Manager.log manager'
  -- The state behind `nfos_abort_txn`.
  have failed (flag : outcome.abort = true ∨ a.unlocks = false) (same : p' = abortTxn ctx branch q) (ends : done = false) :
      Attempted ctx branch d a p done p' outcome := by
    have lost : done = (!outcome.abort && a.unlocks) := by
      rcases flag with flag | flag <;> simp [flag, ends]
    rw [ends] at lost ⊢
    subst same
    by_cases rolled : ctx.mutablePktSetState = true ∧ branch = .registered
    · obtain ⟨mutable', rfl⟩ := rolled
      have replayed : abortTxn ctx .registered q = (rollbackPktSetStates q).endTxn false := by
        unfold abortTxn
        rw [if_pos ⟨mutable', rfl⟩]
      rw [replayed]
      have entry : q.pktSetStateLog = [(p.pktSetState 0, p.manager.pktSetState (p.pktSetState 0))] := by
        rw [log']
        simp [prepare, mutable', logPktSetState, logOnePktSetState, resetLogPktSetState]
      refine ⟨handled, lost, globalState', packet', slots', cells', buckets', kept, ?_⟩
      rw [if_pos ⟨mutable', rfl, rfl⟩]
      change UndoLog.replay q.pktSetStateLog q.manager.pktSetState = p.manager.pktSetState
      rw [entry, manager', back, slotOf, pktSetState_registered, UndoLog.replay_cons, UndoLog.replay_nil, update_idem,
        update_eq_self]
    · have plain : abortTxn ctx branch q = q.endTxn false := by
        unfold abortTxn
        rw [if_neg rolled]
      rw [plain]
      refine ⟨handled, lost, globalState', packet', slots', cells', buckets', congrArg _ manager', ?_⟩
      rw [if_neg fun all => rolled ⟨all.1, all.2.1⟩]
      exact (congrArg _ manager').trans (back outcome)
  cases aborts : outcome.abort with
  | true =>
    simp only [aborts, if_true, Option.pure_def, Option.some.injEq, Prod.mk.injEq] at ran
    exact ⟨outcome, failed (Or.inl aborts) ran.2.symm ran.1.symm⟩
  | false =>
    simp only [aborts, Bool.false_eq_true, if_false] at ran
    split at ran
    · rename_i unlocks
      obtain ⟨rfl, rfl⟩ := Prod.mk.inj (Option.some.inj ran)
      refine ⟨outcome, handled, ?_, rfl, packet', slots', cells', buckets', congrArg _ manager', ?_⟩
      · simp [aborts, unlocks]
      · rw [if_neg (by simp)]
        exact (congrArg _ manager').trans (back outcome)
    · rename_i locked
      obtain ⟨rfl, rfl⟩ := Prod.mk.inj (Option.some.inj ran)
      exact ⟨outcome, failed (Or.inr (by simpa using locked)) rfl rfl⟩

theorem attemptPkt_returned {a : Attempt Ω G} {p : Plane G P S Id} {outcome : Outcome G P S Id}
    (handled : ctx.handler branch d.pktClass a.contention (callOf ctx branch d (a.others p.globalState) (prepare ctx branch 0 p)) =
      some outcome) (returned : outcome.abort = false) (unlocks : a.unlocks = true) :
    ∃ p', attemptPkt ctx branch 0 d a p = some (true, p') := by
  have same : (prepare ctx branch 0 p).globalState = p.globalState := (prepare_manager ctx branch 0 p).2.2.2.1
  have called : ctx.handler branch d.pktClass a.contention (callOf ctx branch d (a.others p.globalState)
      { prepare ctx branch 0 p with globalState := a.others p.globalState }) = some outcome := handled
  simp only [callOf] at called
  simp [attemptPkt, transaction, invoke, same, called, returned, unlocks]

end Attempts

section Packets
variable {setup : Setup} {a b c : Pkt} {ext src : Nat × Nat}

/-- The packets differ at most in their checksums. -/
def SameHeaders (a b : Pkt) : Prop := { a with hdrChecksum := 0, cksum := 0 } = { b with hdrChecksum := 0, cksum := 0 }

def withSource (pkt : Pkt) (src : Nat × Nat) : Pkt := { pkt with srcAddr := src.1, srcPort := src.2 }

theorem SameHeaders.fields (same : SameHeaders a b) : a.nextProtoId = b.nextProtoId ∧ source a = source b := by
  have proto := congrArg Pkt.nextProtoId same
  have addr := congrArg Pkt.srcAddr same
  have port := congrArg Pkt.srcPort same
  exact ⟨proto, Prod.ext addr port⟩

theorem SameHeaders.withSource (same : SameHeaders a b) (src : Nat × Nat) : SameHeaders (withSource a src) (withSource b src) :=
  congrArg (fun pkt => FwNat.withSource pkt src) same

theorem rewritten_sameHeaders (accepted : nfHasTcpudpHeader a.nextProtoId = true) :
    SameHeaders (rewritten setup a ext) (withSource a ext) := by
  simp [rewritten, nfSetIpv4UdptcpChecksum, accepted, SameHeaders, withSource]

/-- The checksums are computed from the other fields. -/
theorem rewritten_congr (same : SameHeaders a b) (accepted : nfHasTcpudpHeader a.nextProtoId = true) :
    rewritten setup a ext = rewritten setup b ext := by
  have accepted' : nfHasTcpudpHeader b.nextProtoId = true := by rwa [← same.fields.1]
  have zeroed : ({ a with srcPort := ext.2, srcAddr := ext.1, hdrChecksum := 0, cksum := 0 } : Pkt) =
      { b with srcPort := ext.2, srcAddr := ext.1, hdrChecksum := 0, cksum := 0 } :=
    congrArg (fun pkt : Pkt => { pkt with srcPort := ext.2, srcAddr := ext.1 }) same
  have headers (c : Pkt) (accepted : nfHasTcpudpHeader c.nextProtoId = true) : rewritten setup c ext =
      (fun pkt : Pkt =>
        let pkt := { pkt with cksum := setup.sums.rteIpv4UdptcpCksum pkt }
        { pkt with hdrChecksum := setup.sums.rteIpv4Cksum pkt })
        { c with srcPort := ext.2, srcAddr := ext.1, hdrChecksum := 0, cksum := 0 } := by
    simp [rewritten, nfSetIpv4UdptcpChecksum, accepted]
  rw [headers a accepted, headers b accepted', zeroed]

theorem source_rewritten : source (rewritten setup a ext) = ext := by
  simp [source, rewritten]

theorem sessionKey_of_sameHeaders (same : SameHeaders a (withSource b src)) : sessionKey a = ⟨src.1, src.2, b.nextProtoId⟩ := by
  obtain ⟨proto, from'⟩ := same.fields
  obtain ⟨addr, port⟩ := Prod.mk.inj from'
  simp [sessionKey, proto, addr, port, withSource]

end Packets

section Views
variable {setup : Setup} {core : Fin setup.numCores} {view : NfState} {find : Session → Option Int} {key : Session} {now : Int}

theorem ensures_allocSession_index (fill : SessionData → SessionData) :
    Txs.Ensures (allocSession setup.cfg setup.map setup.numCores core.val fill key) view.start fun result _ => ∀ i, result = some i →
      ∃ m, allocateSessIndex setup.cfg setup.numCores core.val key.proto (fun _ _ => true) view.start = .ok (some i, m) := by
  refine Txs.ensures_bind (P := fun (result : Option Nat) m =>
    allocateSessIndex setup.cfg setup.numCores core.val key.proto (fun _ _ => true) view.start = .ok (result, m)) ?_ ?_
  · intro grants result m ran
    exact steady_allocateSessIndex key.proto grants _ _ ran
  · intro result m same
    cases result with
    | none => exact Txs.ensures_fault
    | some i =>
      refine Txs.ensures_seq fun grants sessData l _ => Txs.ensures_seq fun grants stored l _ => ?_
      apply Txs.ensures_ite
      · intro _
        refine Txs.ensures_seq fun grants _ l _ => Txs.ensures_pure ?_
        rintro _ ⟨⟩
        exact ⟨m, same⟩
      · intro _
        apply Txs.ensures_ite
        · exact fun _ => Txs.ensures_seq fun _ _ _ _ => Txs.ensures_pure nofun
        · exact fun _ => Txs.ensures_seq fun _ _ _ _ => Txs.ensures_pure nofun

/-- What `nf_init` and the handlers establish for a state that a transaction sees. -/
structure Reached (setup : Setup) (view : NfState) : Prop where
  exact : setup.map.Exact
  room : 2 * setup.cfg.numAvailExtTuples ≤ setup.map.capacity
  invariant : ∃ find, Invariant setup.cfg setup.map setup.numCores endpoint view find

theorem translate_externalTuple (key : Session) (reached : Reached setup view) (accepted : nfHasTcpudpHeader key.proto = true)
    {contention : Contention} {ext : Option (Nat × Nat)} {l : Store SessionData Log}
    (translated : translate setup core.val key now contention view.start = .ok (ext, l)) :
    ∃ x, ext = some x ∧ externalTuple setup core.val view key = some x := by
  obtain ⟨find, invariant⟩ := reached.invariant
  obtain ⟨v, rfl, _⟩ := ensures_translate reached.exact reached.room (l := view.start) invariant core accepted contention _ _ translated
  refine ⟨_, rfl, ?_⟩
  have tuples : Txs.Ensures (translate setup core.val key now) view.start fun result _ =>
      ∀ x, result = some x → externalTuple setup core.val view key = some x := by
    refine Txs.ensures_bind (P := fun (sessIndex : Option Int) _ => ∀ v, sessIndex = some v →
      externalTuple setup core.val view key = some (sessIdToExtTuple setup.cfg v key.proto)) ?_ ?_
    · refine Txs.ensures_bind (P := fun (sessIndex : Option Int) l => l = view.start ∧ sessIndex = find key) ?_ ?_
      · apply Txs.ensures_on
        intro grants
        apply (post_get_lookup (t := .start view.sessionMap) reached.exact invariant.lookup key).mono
        rintro result t ⟨rfl, same⟩
        exact ⟨rfl, same⟩
      · rintro sessIndex _ ⟨rfl, same⟩
        have known : found setup.map view.sessionMap key = find key := invariant.lookup.found_eq reached.exact key
        cases sessIndex with
        | some v =>
          apply Txs.ensures_pure
          rintro _ ⟨⟩
          simp [externalTuple, known, ← same]
        | none =>
          refine Txs.ensures_bind (ensures_allocSession_index _) ?_
          intro result m index
          apply Txs.ensures_pure
          intro v number
          obtain ⟨i, rfl, rfl⟩ := Option.map_eq_some_iff.mp number
          obtain ⟨m, allocated⟩ := index i rfl
          simp [externalTuple, known, ← same, allocated]
    · intro sessIndex m tuple
      cases sessIndex with
      | none => exact Txs.ensures_pure nofun
      | some v =>
        refine Txs.ensures_seq fun grants _ l _ => Txs.ensures_pure ?_
        rintro _ ⟨⟩
        exact tuple v rfl
  exact tuples contention _ _ translated _ rfl

/-- The session that a translated packet has afterwards. -/
theorem translate_found (reached : Reached setup view) (accepted : nfHasTcpudpHeader key.proto = true)
    {contention : Contention} {ext : Nat × Nat} {l : Store SessionData Log}
    (translated : translate setup core.val key now contention view.start = .ok (some ext, l)) :
    ∃ v find', ext = sessIdToExtTuple setup.cfg v key.proto ∧ find' key = some v ∧
      Invariant setup.cfg setup.map setup.numCores endpoint l.view find' := by
  obtain ⟨find, invariant⟩ := reached.invariant
  obtain ⟨v, tuple, find', _, found, invariant'⟩ :=
    ensures_translate reached.exact reached.room (l := view.start) invariant core accepted contention _ _ translated
  exact ⟨v, find', Option.some.inj tuple, found, invariant'⟩

end Views

section Carried
variable {B : Type} {setup : Setup} {core : Fin setup.numCores} {ctx : Context Contention NfState Pkt PktSetState PktSetId B}
variable {branch : Branch} {d : Dispatch PktSetId} {headers : B → Bool × Pkt}
variable {p u u' : Plane NfState Pkt PktSetState PktSetId} {a : Attempt Contention NfState} {done : Bool}
variable {outcome : Outcome NfState Pkt PktSetState PktSetId} {src : Nat × Nat}

/-- The handlers of both branches for a packet from the LAN. -/
theorem handled_did (isNat : ctx.nf = nf setup core.val headers) (known : branch ≠ .noPktSet) (lan : d.pktClass = 0)
    (attempted : Attempted ctx branch d a u done u' outcome) :
    Did setup core.val a.contention (a.others u.globalState) (u.packet 0) ctx.now outcome ∧
    (branch = .registered → outcome.added = none ∧
      outcome.localState = some ⟨(u.manager.pktSetState (u.pktSetState 0)).flowSize + 1⟩) ∧
    (branch = .unknown → outcome.added = some (⟨0⟩, none) ∧ outcome.localState = none) := by
  have handled := attempted.handled
  obtain ⟨_, _, states, _, slots, packet⟩ := prepare_manager ctx branch 0 u
  rw [← packet]
  cases branch with
  | noPktSet => contradiction
  | registered =>
    simp only [Context.handler, isNat, nf, pktHandlers, lan, if_true] at handled
    obtain ⟨did, added, state, given, after⟩ := pktHandler_did handled
    refine ⟨did, fun _ => ⟨added, ?_⟩, by simp⟩
    simp only [callOf, slotOf, states, slots, Option.map_some, Option.some.injEq] at given
    rw [after, given]
  | unknown =>
    simp only [Context.handler, isNat, nf] at handled
    obtain ⟨did, added, after⟩ := nfUnknownPktSetHandler_did handled
    exact ⟨did, by simp, fun _ => ⟨added, after⟩⟩

/-- The state and the packet behind an attempt that does not commit. -/
theorem attempted_failed (isNat : ctx.nf = nf setup core.val headers) (known : branch ≠ .noPktSet) (lan : d.pktClass = 0)
    (accepted : nfHasTcpudpHeader (p.packet 0).nextProtoId = true) (reached : Reached setup (a.others u.globalState))
    (same : SameHeaders (u.packet 0) (withSource (p.packet 0) src)) (attempted : Attempted ctx branch d a u false u' outcome) :
    u'.globalState = (leaves setup core.val (p.packet 0).nextProtoId ctx.now (u.globalState, src) a).1 ∧
    SameHeaders (u'.packet 0) (withSource (p.packet 0)
      (leaves setup core.val (p.packet 0).nextProtoId ctx.now (u.globalState, src) a).2) := by
  obtain ⟨did, _, _⟩ := handled_did isNat known lan attempted
  have key := sessionKey_of_sameHeaders same
  refine ⟨attempted.globalState, ?_⟩
  rw [attempted.packet]
  cases did with
  | aborted abort pkt refusal =>
    rw [key] at refusal
    simpa only [leaves, refused, refusal, if_true, pkt] using same
  | returned ext l abort translated state pkt =>
    rw [key] at translated
    obtain ⟨x, rfl, tuple⟩ := translate_externalTuple ⟨src.1, src.2, (p.packet 0).nextProtoId⟩ reached accepted translated
    simp only [leaves, refused, translated, Bool.false_eq_true, if_false, tuple, Option.getD_some, pkt, Option.map_some]
    have accepted' : nfHasTcpudpHeader (u.packet 0).nextProtoId = true := same.fields.1 ▸ accepted
    exact (rewritten_sameHeaders accepted').trans (same.withSource x)

/-- What the other cores have made of the shared state when the last of the attempts runs. -/
def viewAfter {Ω G : Type} (g : G) (attempts : List (Attempt Ω G)) : G := attempts.foldl (fun g a => a.others g) g

theorem carried_append {core : Nat} {proto : Nat} {now : Int} {failed : List (Attempt Contention NfState)} {s : NfState × (Nat × Nat)} :
    carried setup core proto now (failed ++ [a]) s = leaves setup core proto now (carried setup core proto now failed s) a := by
  rw [carried, carried, List.foldl_append, List.foldl_cons, List.foldl_nil]

theorem carried_view {core : Nat} {proto : Nat} {now : Int} (failed : List (Attempt Contention NfState)) (s : NfState × (Nat × Nat)) :
    (carried setup core proto now failed s).1 = viewAfter s.1 failed := by
  induction failed generalizing s with
  | nil => rfl
  | cons a rest ih => exact ih _

/-- What failed attempts leave of the memory of the core. -/
structure CarriedTo (setup : Setup) (core : Nat) (ctx : Context Contention NfState Pkt PktSetState PktSetId B) (branch : Branch)
    (p : Plane NfState Pkt PktSetState PktSetId) (failed : List (Attempt Contention NfState))
    (u : Plane NfState Pkt PktSetState PktSetId) : Prop where
  state : u.globalState = viewAfter p.globalState failed
  packet : SameHeaders (u.packet 0) (withSource (p.packet 0)
    (carried setup core (p.packet 0).nextProtoId ctx.now failed (p.globalState, source (p.packet 0))).2)
  slots : u.pktSetState = p.pktSetState
  cells : u.manager.cells = p.manager.cells
  buckets : u.manager.buckets = p.manager.buckets
  related : (u.manager.log ctx.pktSetPartition).relatedPktSetId = (p.manager.log ctx.pktSetPartition).relatedPktSetId
  states : u.manager.pktSetState = if branch = .registered ∧ ctx.mutablePktSetState = false then
      update p.manager.pktSetState (p.pktSetState 0)
        ⟨(p.manager.pktSetState (p.pktSetState 0)).flowSize + UInt32.ofNat failed.length⟩
    else p.manager.pktSetState

/-- The writes of a handler to the packet-set states. -/
theorem states_writeBack (isNat : ctx.nf = nf setup core.val headers) (known : branch ≠ .noPktSet) (lan : d.pktClass = 0)
    (attempted : Attempted ctx branch d a u done u' outcome) :
    (writeBack ctx (slotOf branch 0 u) outcome u.manager).pktSetState =
      if branch = .registered then
        update u.manager.pktSetState (u.pktSetState 0) ⟨(u.manager.pktSetState (u.pktSetState 0)).flowSize + 1⟩
      else u.manager.pktSetState := by
  obtain ⟨_, registered, unknown⟩ := handled_did isNat known lan attempted
  rw [pktSetState_writeBack]
  cases branch with
  | noPktSet => contradiction
  | registered =>
    rw [(registered rfl).2]
    rfl
  | unknown => rfl

/-- The state that `add_pkt_set` logs. -/
theorem log_writeBack (isNat : ctx.nf = nf setup core.val headers) (known : branch ≠ .noPktSet) (lan : d.pktClass = 0)
    (attempted : Attempted ctx branch d a u done u' outcome) :
    (u'.manager.log ctx.pktSetPartition).relatedPktSetId = (u.manager.log ctx.pktSetPartition).relatedPktSetId ∧
    (branch = .unknown →
      if ConcurrentDoubleChain.concurrentDchainImplHasFreeIndexes ctx.cfg.numCores u.manager.cells ctx.pktSetPartition then
        u'.manager.log ctx.pktSetPartition = ⟨true, (u.manager.log ctx.pktSetPartition).relatedPktSetId, ⟨0⟩⟩
      else (u'.manager.log ctx.pktSetPartition).addPktSet = false) := by
  obtain ⟨_, registered, unknown⟩ := handled_did isNat known lan attempted
  rw [attempted.log]
  cases branch with
  | noPktSet => contradiction
  | registered =>
    refine ⟨?_, nofun⟩
    simp only [writeBack, (registered rfl).1, prepare]
    split <;> rfl
  | unknown =>
    simp only [writeBack, (unknown rfl).1, prepare, addPktSetLog, addPktSetLogClear]
    by_cases free : ConcurrentDoubleChain.concurrentDchainImplHasFreeIndexes ctx.cfg.numCores u.manager.cells ctx.pktSetPartition = true
    · simp [free]
    · simp [free]

theorem CarriedTo.extend {failed : List (Attempt Contention NfState)} (isNat : ctx.nf = nf setup core.val headers)
    (known : branch ≠ .noPktSet) (lan : d.pktClass = 0) (accepted : nfHasTcpudpHeader (p.packet 0).nextProtoId = true)
    (carries : CarriedTo setup core.val ctx branch p failed u) (reached : Reached setup (viewAfter p.globalState (failed ++ [a])))
    (attempted : Attempted ctx branch d a u false u' outcome) :
    CarriedTo setup core.val ctx branch p (failed ++ [a]) u' := by
  have view : viewAfter p.globalState (failed ++ [a]) = a.others u.globalState := by
    rw [viewAfter, List.foldl_append, carries.state]
    rfl
  rw [view] at reached
  obtain ⟨state, packet⟩ := attempted_failed isNat known lan accepted reached carries.packet attempted
  constructor
  case state => exact state.trans view.symm
  case packet =>
    have before : (u.globalState, (carried setup core.val (p.packet 0).nextProtoId ctx.now failed
        (p.globalState, source (p.packet 0))).2) = carried setup core.val (p.packet 0).nextProtoId ctx.now failed
          (p.globalState, source (p.packet 0)) :=
      Prod.ext (carries.state.trans (carried_view failed (p.globalState, source (p.packet 0))).symm) rfl
    rwa [carried_append, ← before]
  case slots => exact attempted.slot.trans carries.slots
  case cells => exact attempted.cells.trans carries.cells
  case buckets => exact attempted.buckets.trans carries.buckets
  case related => exact (log_writeBack isNat known lan attempted).1.trans carries.related
  case states =>
    rw [attempted.states, states_writeBack isNat known lan attempted]
    have kept := carries.states
    by_cases registered : branch = .registered
    · cases mutable' : ctx.mutablePktSetState with
      | true =>
        simp only [mutable', registered, Bool.true_eq_false, and_false, if_false] at kept
        simp [registered, kept]
      | false =>
        simp only [mutable', registered, and_self, if_true] at kept
        simp only [registered, Bool.false_eq_true, false_and, if_false, and_self, if_true, kept, carries.slots, update_self,
          update_idem, List.length_append, List.length_singleton, UInt32.ofNat_add, UInt32.add_assoc]
        rfl
    · simp only [registered, false_and, and_false, if_false] at kept ⊢
      exact kept

/-- A single attempt, with all locks granted, that sees the given state. -/
def single (view : NfState) : Attempt Contention NfState := ⟨fun _ => view, fun _ _ => true, true⟩

/-- What a committed attempt did. -/
theorem attempted_committed (isNat : ctx.nf = nf setup core.val headers) (known : branch ≠ .noPktSet) (lan : d.pktClass = 0)
    (accepted : nfHasTcpudpHeader (p.packet 0).nextProtoId = true) (reached : Reached setup (a.others u.globalState))
    (same : SameHeaders (u.packet 0) (withSource (p.packet 0) src)) (attempted : Attempted ctx branch d a u true u' outcome) :
    ∃ x l, translate setup core.val ⟨src.1, src.2, (p.packet 0).nextProtoId⟩ ctx.now a.contention (a.others u.globalState).start =
        .ok (some x, l) ∧ u'.globalState = l.view ∧ u'.packet 0 = rewritten setup (withSource (p.packet 0) src) x := by
  obtain ⟨did, _, _⟩ := handled_did isNat known lan attempted
  have state := attempted.globalState
  rw [attempted.packet]
  cases did with
  | aborted abort pkt refusal =>
    have ended := attempted.ended
    rw [abort] at ended
    contradiction
  | returned ext l abort translated view pkt =>
    rw [sessionKey_of_sameHeaders same] at translated
    obtain ⟨x, rfl, _⟩ := translate_externalTuple ⟨src.1, src.2, (p.packet 0).nextProtoId⟩ reached accepted translated
    have accepted' : nfHasTcpudpHeader (u.packet 0).nextProtoId = true := same.fields.1 ▸ accepted
    exact ⟨x, l, translated, state.trans view, pkt.trans (rewritten_congr same accepted')⟩

/-- What a single attempt on the original packet did. -/
theorem single_committed {view : NfState} {q : Plane NfState Pkt PktSetState PktSetId} (isNat : ctx.nf = nf setup core.val headers)
    (known : branch ≠ .noPktSet) (lan : d.pktClass = 0) (accepted : nfHasTcpudpHeader (p.packet 0).nextProtoId = true)
    (reached : Reached setup view) (alone : Attempted ctx branch d (single view) p true q outcome) :
    ∃ x l, translate setup core.val (sessionKey (p.packet 0)) ctx.now (fun _ _ => true) view.start = .ok (some x, l) ∧
      q.globalState = l.view ∧ q.packet 0 = rewritten setup (p.packet 0) x := by
  have same : SameHeaders (p.packet 0) (withSource (p.packet 0) (source (p.packet 0))) := rfl
  exact attempted_committed (a := single view) isNat known lan accepted reached same alone

/-- A single attempt on the original packet agrees with the last attempt if that one had
the original source. -/
theorem single_agrees (isNat : ctx.nf = nf setup core.val headers) (known : branch ≠ .noPktSet) (lan : d.pktClass = 0)
    (fromLan : ctx.device ≠ setup.cfg.wanDevice) (accepted : nfHasTcpudpHeader (p.packet 0).nextProtoId = true)
    (reached : Reached setup (a.others u.globalState))
    (same : SameHeaders (u.packet 0) (withSource (p.packet 0) (source (p.packet 0))))
    (attempted : Attempted ctx branch d a u true u' outcome) :
    ∃ q, attemptPkt ctx branch 0 d (single (a.others u.globalState)) p = some (true, q) ∧
      q.globalState = u'.globalState ∧ q.packet 0 = u'.packet 0 := by
  obtain ⟨x, l, translated, state, packet⟩ := attempted_committed isNat known lan accepted reached same attempted
  have uncontended := steady_translate _ _ _ _ _ translated
  obtain ⟨outcome', handled, returned⟩ : ∃ outcome', ctx.handler branch d.pktClass (fun _ _ => true)
      (callOf ctx branch d (a.others u.globalState) (prepare ctx branch 0 p)) = some outcome' ∧ outcome'.abort = false := by
    have packets : (callOf ctx branch d (a.others u.globalState) (prepare ctx branch 0 p)).pkt = p.packet 0 :=
      congrFun (prepare_manager ctx branch 0 p).2.2.2.2.2 0
    cases branch with
    | noPktSet => contradiction
    | registered =>
      obtain ⟨outcome', ran, returned⟩ : ∃ outcome', pktHandler setup core.val (fun _ _ => true)
          (callOf ctx .registered d (a.others u.globalState) (prepare ctx .registered 0 p)) = some outcome' ∧
          outcome'.abort = false := by
        apply pktHandler_returns fromLan rfl
        rw [packets]
        exact uncontended
      refine ⟨outcome', ?_, returned⟩
      simpa only [Context.handler, isNat, nf, pktHandlers, lan, if_true] using ran
    | unknown =>
      obtain ⟨outcome', ran, returned⟩ : ∃ outcome', nfUnknownPktSetHandler setup core.val (fun _ _ => true)
          (callOf ctx .unknown d (a.others u.globalState) (prepare ctx .unknown 0 p)) = some outcome' ∧
          outcome'.abort = false := by
        apply nfUnknownPktSetHandler_returns fromLan
        rw [packets]
        exact uncontended
      refine ⟨outcome', ?_, returned⟩
      simpa only [Context.handler, isNat, nf] using ran
  obtain ⟨q, ran⟩ := attemptPkt_returned (a := single (a.others u.globalState)) (p := p) handled returned rfl
  refine ⟨q, ran, ?_⟩
  obtain ⟨_, alone⟩ := attemptPkt_attempted known ran
  obtain ⟨y, m, translated', state', packet'⟩ := single_committed isNat known lan accepted reached alone
  obtain ⟨rfl, rfl⟩ : x = y ∧ l = m := by
    have both := Except.ok.inj (uncontended.symm.trans translated')
    simpa using both
  exact ⟨state'.trans state.symm, packet'.trans packet.symm⟩

/-- If they agree on the state and the packet, they had the same source. -/
theorem source_of_agrees (isNat : ctx.nf = nf setup core.val headers) (known : branch ≠ .noPktSet) (lan : d.pktClass = 0)
    (accepted : nfHasTcpudpHeader (p.packet 0).nextProtoId = true) (reached : Reached setup (a.others u.globalState))
    (same : SameHeaders (u.packet 0) (withSource (p.packet 0) src)) (attempted : Attempted ctx branch d a u true u' outcome)
    {q : Plane NfState Pkt PktSetState PktSetId}
    (ran : attemptPkt ctx branch 0 d (single (a.others u.globalState)) p = some (true, q))
    (state : q.globalState = u'.globalState) (packet : q.packet 0 = u'.packet 0) : src = source (p.packet 0) := by
  obtain ⟨outcome', alone⟩ := attemptPkt_attempted known ran
  obtain ⟨x, l, translated, state₁, packet₁⟩ := attempted_committed isNat known lan accepted reached same attempted
  obtain ⟨y, m, translated', state₂, packet₂⟩ := single_committed isNat known lan accepted reached alone
  obtain ⟨v, find₁, tuple₁, found₁, invariant₁⟩ := translate_found reached accepted translated
  obtain ⟨w, find₂, tuple₂, found₂, invariant₂⟩ := translate_found reached accepted translated'
  have views : m.view = l.view := state₂.symm.trans (state.trans state₁)
  have tuples : y = x := by
    have headers := congrArg source (packet₂.symm.trans (packet.trans packet₁))
    rwa [source_rewritten, source_rewritten] at headers
  -- Both sessions are in the map that the attempts leave.
  have mapped : Mapped setup.cfg find₁ [(⟨src.1, src.2, (p.packet 0).nextProtoId⟩, some x),
      (⟨(source (p.packet 0)).1, (source (p.packet 0)).2, (p.packet 0).nextProtoId⟩, some x)] := by
    intro e member ext rewritten
    rcases List.mem_pair.mp member with rfl | rfl
    · obtain rfl := Option.some.inj rewritten
      exact ⟨accepted, v, found₁, tuple₁⟩
    · obtain rfl := Option.some.inj rewritten
      refine ⟨accepted, w, ?_, tuples.symm.trans tuple₂⟩
      rw [← invariant₁.lookup.found_eq reached.exact, ← views, invariant₂.lookup.found_eq reached.exact]
      exact found₂
  have few : setup.cfg.numAvailExtTuples ≤ 2 ^ 32 := by
    have bound := reached.exact.bound
    have size := reached.room
    omega
  have keys := (mapped.correct reached.exact invariant₁ few).injective _ (List.mem_cons_self ..) _
    (List.mem_cons_of_mem _ (List.mem_singleton_self _)) x rfl rfl Iff.rfl
  exact Prod.ext (congrArg Session.srcAddr keys) (congrArg Session.srcPort keys)

end Carried
end Nfos.FwNat
