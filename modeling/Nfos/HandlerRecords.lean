import Nfos.HandlerCalls

/-! The handler calls of a run. A handler that remembers its calls behind the packet makes the
same run as one that does not, and what it remembers are the calls of the attempts, in order. -/
namespace Nfos.DataPlane
open Function PktSetManager Retry
variable {Ω G P S Id B : Type}

/-- A call of a handler and what the handler did. -/
structure Record (G P S Id : Type) where
  unknown : Bool
  call : Call G P S Id
  outcome : Outcome G P S Id

/-- `slotOf` gives a packet-set state to the handlers of registered packet sets only. -/
def Record.branch (r : Record G P S Id) : Branch :=
  if r.unknown then .unknown else if r.call.localState.isSome then .registered else .noPktSet

/-- A packet and the calls of the handlers for it. -/
abbrev Recording (G P S Id : Type) : Type := P × List (Record G P S Id)

def Call.erase (call : Call G (Recording G P S Id) S Id) : Call G P S Id := { call with pkt := call.pkt.1 }

def Outcome.erase (outcome : Outcome G (Recording G P S Id) S Id) : Outcome G P S Id := { outcome with pkt := outcome.pkt.1 }

def Plane.erase (p : Plane G (Recording G P S Id) S Id) : Plane G P S Id := { p with packet := fun i => (p.packet i).1 }

/-- Before the first call. -/
def Plane.recording (p : Plane G P S Id) : Plane G (Recording G P S Id) S Id := { p with packet := fun i => (p.packet i, []) }

/-- A handler that remembers its calls. -/
def recordHandler (unknown : Bool) (handler : Ω → Call G P S Id → Option (Outcome G P S Id)) (contention : Ω)
    (call : Call G (Recording G P S Id) S Id) : Option (Outcome G (Recording G P S Id) S Id) := do
  let outcome ← handler contention call.erase
  return { outcome with pkt := (outcome.pkt, call.pkt.2 ++ [⟨unknown, call.erase, outcome⟩]) }

/-- The NF with handlers that remember their calls. -/
def Context.recording (ctx : Context Ω G P S Id B) : Context Ω G (Recording G P S Id) S Id B where
  nf :=
    { nfPktParser := fun buffer => ((ctx.nf.nfPktParser buffer).1, ((ctx.nf.nfPktParser buffer).2, []))
      nfPktDispatcher := fun pkt incomingDev => ctx.nf.nfPktDispatcher pkt.1 incomingDev
      pktHandlers := fun pktClass => recordHandler false (ctx.nf.pktHandlers pktClass)
      nfUnknownPktSetHandler := recordHandler true ctx.nf.nfUnknownPktSetHandler }
  cfg := ctx.cfg
  mutablePktSetState := ctx.mutablePktSetState
  device := ctx.device
  pktSetPartition := ctx.pktSetPartition
  now := ctx.now

section Erasure
variable {ctx : Context Ω G P S Id B} {branch : Branch} {n : Nat} {d : Dispatch Id} {b : Batch Id}

@[simp] theorem Plane.erase_recording (p : Plane G P S Id) : p.recording.erase = p := rfl

theorem bind_map {α α' β β' : Type} {x : Option α} {x' : Option α'} {f : α → Option β} {f' : α' → Option β'} {g : α' → α} {h : β' → β}
    (first : x'.map g = x) (later : ∀ a, (f' a).map h = f (g a)) : (x'.bind f').map h = x.bind f := by
  subst first
  cases x' with
  | none => rfl
  | some a => exact later a

theorem handler_recording (branch : Branch) (pktClass : Nat) :
    ctx.recording.handler branch pktClass = recordHandler (branch == .unknown) (ctx.handler branch pktClass) := by
  cases branch with
  | noPktSet | registered | unknown => rfl

theorem recordHandler_erase (unknown : Bool) (handler : Ω → Call G P S Id → Option (Outcome G P S Id)) (contention : Ω)
    (call : Call G (Recording G P S Id) S Id) :
    (recordHandler unknown handler contention call).map Outcome.erase = handler contention call.erase := by
  unfold recordHandler
  cases handler contention call.erase with
  | none | some outcome => rfl

theorem invoke_erase (contention : Ω) (view : G) (p : Plane G (Recording G P S Id) S Id) :
    (invoke ctx.recording branch n d contention view p).map (fun z => (z.1.erase, z.2.erase)) =
      invoke ctx branch n d contention view p.erase := by
  unfold invoke
  rw [handler_recording]
  refine bind_map (g := Outcome.erase) ?_ ?_
  · exact recordHandler_erase ..
  · intro outcome
    have packet : (fun i => (update p.packet n outcome.pkt i).1) = update p.erase.packet n outcome.erase.pkt := by
      funext i
      by_cases here : i = n
      · subst here
        simp [Outcome.erase]
      · simp [here, Plane.erase]
    simp only [Option.pure_def, Option.map_some, Option.some.injEq, Prod.mk.injEq, true_and]
    rw [← packet]
    rfl

theorem abortTxn_erase (p : Plane G (Recording G P S Id) S Id) :
    (abortTxn ctx.recording branch p).erase = abortTxn ctx branch p.erase := by
  unfold abortTxn
  by_cases rolls : ctx.mutablePktSetState = true ∧ branch = .registered
  · rw [if_pos rolls, if_pos (show ctx.recording.mutablePktSetState = true ∧ branch = .registered from rolls)]
    rfl
  · rw [if_neg rolls, if_neg (show ¬ (ctx.recording.mutablePktSetState = true ∧ branch = .registered) from rolls)]
    rfl

/-- Both do the same work. -/
def Erases (work' : Work Ω G (Recording G P S Id) S Id) (work : Work Ω G P S Id) : Prop :=
  ∀ contention view p, (work' contention view p).map (fun z => (z.1, z.2.erase)) = work contention view p.erase

theorem transaction_erase {work' : Work Ω G (Recording G P S Id) S Id} {work : Work Ω G P S Id} (works : Erases work' work)
    (a : Attempt Ω G) (p : Plane G (Recording G P S Id) S Id) :
    (transaction ctx.recording branch work' a p).map (fun z => (z.1, z.2.erase)) = transaction ctx branch work a p.erase := by
  unfold transaction
  refine bind_map (works a.contention _ _) ?_
  rintro ⟨result, q⟩
  cases result with
  | none => exact congrArg (fun q => some (false, q)) (abortTxn_erase q)
  | some view =>
    dsimp only
    split
    · rfl
    · exact congrArg (fun q => some (false, q)) (abortTxn_erase q)

theorem prepare_erase (p : Plane G (Recording G P S Id) S Id) :
    (prepare ctx.recording branch n p).erase = prepare ctx branch n p.erase := by
  cases branch with
  | noPktSet | unknown => rfl
  | registered =>
    change (if ctx.mutablePktSetState then _ else _ : Plane G (Recording G P S Id) S Id).erase = if ctx.mutablePktSetState then _ else _
    split
    · rfl
    · rfl

theorem attemptPkt_erase (a : Attempt Ω G) (p : Plane G (Recording G P S Id) S Id) :
    (attemptPkt ctx.recording branch n d a p).map (fun z => (z.1, z.2.erase)) = attemptPkt ctx branch n d a p.erase := by
  unfold attemptPkt
  rw [← prepare_erase]
  apply transaction_erase
  intro contention view q
  exact bind_map (invoke_erase contention view q) fun z => rfl

theorem retryPkt_erase (tape : List (Attempt Ω G)) (p : Plane G (Recording G P S Id) S Id) :
    (retry (attemptPkt ctx.recording branch n d) tape p).map (fun z => (z.1.erase, z.2)) =
      retry (attemptPkt ctx branch n d) tape p.erase :=
  retry_map Plane.erase attemptPkt_erase tape p

theorem handlePkt_erase (tape : List (Attempt Ω G)) (p : Plane G (Recording G P S Id) S Id) :
    (handlePkt ctx.recording d tape p).map (fun z => (z.1.erase, z.2)) = handlePkt ctx d tape p.erase := by
  unfold handlePkt
  split
  · exact retryPkt_erase tape p
  · change ((getPktSetState ctx.cfg d.pktSetId ctx.pktSetPartition ctx.now p.manager).bind _).map _ =
      (getPktSetState ctx.cfg d.pktSetId ctx.pktSetPartition ctx.now p.manager).bind _
    refine bind_map (g := id) Option.map_id' ?_
    rintro ⟨slot, manager⟩
    cases slot with
    | some slot => exact retryPkt_erase tape _
    | none =>
      refine bind_map (retryPkt_erase tape _) ?_
      rintro ⟨q, rest⟩
      exact bind_map (g := id) Option.map_id' fun manager => rfl

/-- The run without the memory of the calls. -/
theorem processPkt_erase (buffer : B) (tape : List (Attempt Ω G)) (p : Plane G (Recording G P S Id) S Id) :
    (processPkt ctx.recording buffer tape p).map (fun z => (z.1, z.2.1.erase, z.2.2)) = processPkt ctx buffer tape p.erase := by
  have packet : (fun i => (update p.packet 0 (ctx.recording.nf.nfPktParser buffer).2 i).1) =
      update p.erase.packet 0 (ctx.nf.nfPktParser buffer).2 := by
    funext i
    by_cases here : i = 0
    · subst here
      simp [Context.recording]
    · simp [here, Plane.erase]
  have same : (ctx.recording.nf.nfPktParser buffer).1 = (ctx.nf.nfPktParser buffer).1 := rfl
  cases parsed : (ctx.nf.nfPktParser buffer).1 with
  | true =>
    rw [parsed] at same
    simp only [processPkt, parsed, same, if_true, Option.bind_eq_bind, ← packet]
    refine bind_map (handlePkt_erase tape _) ?_
    exact fun z => rfl
  | false =>
    rw [parsed] at same
    simp only [processPkt, parsed, same, Bool.false_eq_true, if_false, Option.bind_eq_bind, Option.bind_some, ← packet]
    rfl

theorem handlePkts_erase {before' : Nat → Plane G (Recording G P S Id) S Id → Plane G (Recording G P S Id) S Id}
    {before : Nat → Plane G P S Id → Plane G P S Id} (erases : ∀ n p, (before' n p).erase = before n p.erase) (contention : Ω)
    (l : List Nat) (view : G) (p : Plane G (Recording G P S Id) S Id) :
    (handlePkts ctx.recording b branch before' contention l view p).map (fun z => (z.1, z.2.erase)) =
      handlePkts ctx b branch before contention l view p.erase := by
  induction l generalizing view p with
  | nil => rfl
  | cons n rest ih =>
    unfold handlePkts
    rw [← erases]
    refine bind_map (invoke_erase contention view _) ?_
    rintro ⟨outcome, q⟩
    change Option.map _ (if outcome.abort = true then _ else _) = if outcome.abort = true then _ else _
    split
    · rfl
    · exact ih _ _

theorem beforeRegistered_erase (n : Nat) (p : Plane G (Recording G P S Id) S Id) :
    (beforeRegistered ctx.recording n p).erase = beforeRegistered ctx n p.erase := by
  unfold beforeRegistered
  change Plane.erase { (if ctx.mutablePktSetState then _ else _ : Plane G (Recording G P S Id) S Id) with dstDevice := ctx.device } =
    { (if ctx.mutablePktSetState then _ else _ : Plane G P S Id) with dstDevice := ctx.device }
  split
  · rfl
  · rfl

theorem attemptNoPktSet_erase (a : Attempt Ω G) (p : Plane G (Recording G P S Id) S Id) :
    (attemptNoPktSet ctx.recording b a p).map (fun z => (z.1, z.2.erase)) = attemptNoPktSet ctx b a p.erase :=
  transaction_erase (fun contention view q => handlePkts_erase (fun _ _ => rfl) contention _ view q) a p

theorem attemptRegistered_erase (startN endN : Nat) (a : Attempt Ω G) (p : Plane G (Recording G P S Id) S Id) :
    (attemptRegistered ctx.recording b startN endN a p).map (fun z => (z.1, z.2.erase)) =
      attemptRegistered ctx b startN endN a p.erase := by
  have start : (if ctx.recording.mutablePktSetState then resetLogPktSetState p else p).erase =
      if ctx.mutablePktSetState then resetLogPktSetState p.erase else p.erase := by
    change (if ctx.mutablePktSetState then _ else _ : Plane G (Recording G P S Id) S Id).erase = _
    split
    · rfl
    · rfl
  unfold attemptRegistered
  rw [← start]
  exact transaction_erase (fun contention view q => handlePkts_erase beforeRegistered_erase contention _ view q) a _

def Cursor.erase (c : Cursor Ω G (Recording G P S Id) S Id) : Cursor Ω G P S Id := { c with plane := c.plane.erase }

theorem lookup_erase (c : Cursor Ω G (Recording G P S Id) S Id) : (lookup ctx.recording b c).map Cursor.erase = lookup ctx b c.erase := by
  unfold lookup
  change Option.map _ (if c.n < b.batchSize then _ else _) = if c.n < b.batchSize then _ else _
  split
  · change ((getPktSetState ctx.cfg (b.dispatch c.n).pktSetId ctx.pktSetPartition ctx.now c.plane.manager).bind _).map _ =
      (getPktSetState ctx.cfg (b.dispatch c.n).pktSetId ctx.pktSetPartition ctx.now c.plane.manager).bind _
    refine bind_map (g := id) Option.map_id' ?_
    rintro ⟨slot, manager⟩
    cases slot with
    | none | some slot => rfl
  · rfl

theorem advance_erase (c : Cursor Ω G (Recording G P S Id) S Id) : (advance ctx.recording b c).map Cursor.erase = advance ctx b c.erase :=
  lookup_erase _

theorem handleNext_erase (c : Cursor Ω G (Recording G P S Id) S Id) :
    (handleNext ctx.recording b c).map Cursor.erase = handleNext ctx b c.erase := by
  unfold handleNext
  change Option.map _ (if !c.regPktSet then _ else _) = if !c.regPktSet then _ else _
  split
  · unfold handleUnknown
    refine bind_map (retryPkt_erase c.attempts _) ?_
    rintro ⟨q, rest⟩
    change ((addPktSetCommit ctx.cfg (b.dispatch c.n).pktSetId ctx.pktSetPartition ctx.now q.manager).bind _).map _ =
      (addPktSetCommit ctx.cfg (b.dispatch c.n).pktSetId ctx.pktSetPartition ctx.now q.manager).bind _
    exact bind_map (g := id) Option.map_id' fun manager => lookup_erase _
  · unfold handleRegistered
    have looked := Loop.loop_map (c := fun c => c.regPktSet) (b := advance ctx b) Cursor.erase (fun _ => rfl) advance_erase b.batchSize c
    refine bind_map looked ?_
    intro ahead
    refine bind_map (retry_map Plane.erase (attemptRegistered_erase c.n ahead.n) ahead.attempts ahead.plane) ?_
    exact fun z => rfl

theorem handleBatch_erase (tape : List (Attempt Ω G)) (p : Plane G (Recording G P S Id) S Id) :
    (handleBatch ctx.recording b tape p).map (fun z => (z.1.erase, z.2)) = handleBatch ctx b tape p.erase := by
  unfold handleBatch
  split
  · exact retry_map Plane.erase attemptNoPktSet_erase tape p
  · refine bind_map (lookup_erase _) ?_
    intro c
    have looped := Loop.loop_map (c := fun c => decide (c.n < b.batchSize)) (b := handleNext ctx b) Cursor.erase (fun _ => rfl)
      handleNext_erase b.batchSize c
    refine bind_map looped ?_
    exact fun c => rfl

/-- The run of a batch without the memory of the calls. -/
theorem processPkts_erase (mbufs : Nat → B) (batchSize : Nat) (tape : List (Attempt Ω G)) (p : Plane G (Recording G P S Id) S Id) :
    (processPkts ctx.recording mbufs batchSize tape p).map (fun z => (z.1.erase, z.2)) = processPkts ctx mbufs batchSize tape p.erase := by
  have packet : (fun i => (if i < batchSize then (ctx.recording.nf.nfPktParser (mbufs i)).2 else p.packet i).1) =
      fun i => if i < batchSize then (ctx.nf.nfPktParser (mbufs i)).2 else p.erase.packet i := by
    funext i
    split
    · rfl
    · rfl
  unfold processPkts
  rw [← packet]
  exact handleBatch_erase tape _

end Erasure

section Records
variable {ctx : Context Ω G P S Id B}

/-- A record of an invocation. -/
structure Recorded (ctx : Context Ω G P S Id B) (r : Record G P S Id) (v : Invocation) : Prop where
  branch : r.branch = v.branch
  incomingDev : r.call.incomingDev = ctx.device
  pktClass : ∃ pkt, v.pktClass = (ctx.nf.nfPktDispatcher pkt ctx.device).pktClass
  ran : ∃ contention, ctx.handler v.branch v.pktClass contention r.call = some r.outcome
  abort : r.outcome.abort = v.abort
  actions : r.outcome.actions = v.actions

/-- What is remembered of a packet are its invocations. -/
def Logged (ctx : Context Ω G P S Id B) (p : Plane G (Recording G P S Id) S Id) : Prop :=
  ∀ i, List.Forall₂ (Recorded ctx) (p.packet i).2 (invocationsAt i (p.history.map Prod.fst ++ p.running))

/-- The handlers for a packet keep what the parser has checked. -/
def Carries (Q : P → Prop) (i : Nat) (p : Plane G (Recording G P S Id) S Id) : Prop :=
  Q (p.packet i).1 ∧ ∀ r ∈ (p.packet i).2, Q r.call.pkt

theorem recordHandler_iff {unknown : Bool} {handler : Ω → Call G P S Id → Option (Outcome G P S Id)} {contention : Ω}
    {call : Call G (Recording G P S Id) S Id} {outcome' : Outcome G (Recording G P S Id) S Id} :
    recordHandler unknown handler contention call = some outcome' ↔ ∃ outcome, handler contention call.erase = some outcome ∧
      outcome' = { outcome with pkt := (outcome.pkt, call.pkt.2 ++ [⟨unknown, call.erase, outcome⟩]) } := by
  simp only [recordHandler, Option.bind_eq_bind, Option.bind_eq_some_iff, Option.pure_def, Option.some.injEq]
  constructor
  · rintro ⟨outcome, ran, rfl⟩
    exact ⟨outcome, ran, rfl⟩
  · rintro ⟨outcome, ran, rfl⟩
    exact ⟨outcome, ran, rfl⟩

theorem invoke_recording {branch : Branch} {n : Nat} {d : Dispatch Id} {contention : Ω} {view : G}
    {p p' : Plane G (Recording G P S Id) S Id} {outcome' : Outcome G (Recording G P S Id) S Id}
    (ran : invoke ctx.recording branch n d contention view p = some (outcome', p')) :
    ∃ outcome, ctx.handler branch d.pktClass contention (callAt ctx branch n d view p.erase) = some outcome ∧
      p'.history = p.history ∧
      p'.running = p.running ++ [⟨branch, n, d.pktClass, isRegistered ctx d.pktSetId p.manager, outcome.abort, outcome.actions⟩] ∧
      p'.packet = update p.packet n (outcome.pkt,
        (p.packet n).2 ++ [⟨branch == .unknown, callAt ctx branch n d view p.erase, outcome⟩]) := by
  obtain ⟨called, rfl⟩ := invoke_iff.mp ran
  rw [handler_recording] at called
  obtain ⟨outcome, handled, rfl⟩ := recordHandler_iff.mp called
  exact ⟨outcome, handled, rfl, rfl, rfl⟩

theorem branch_of_call {branch : Branch} {n : Nat} {d : Dispatch Id} {view : G} {p : Plane G P S Id} {outcome : Outcome G P S Id} :
    Record.branch ⟨branch == .unknown, callAt ctx branch n d view p, outcome⟩ = branch := by
  cases branch with
  | noPktSet | registered | unknown => rfl

theorem logged_rule {pkts : Nat → Recording G P S Id} : InvocationRule ctx.recording pkts (Logged ctx) where
  same logged running history packet := by
    unfold Logged
    rw [running, history, packet]
    exact logged
  invoke := by
    intro branch n contention view p outcome' p' logged ran i
    obtain ⟨outcome, handled, history, running, packet⟩ := invoke_recording ran
    rw [history, running, packet, ← List.append_assoc, invocationsAt, List.filter_append]
    by_cases here : n = i
    · subst here
      simp only [decide_true, List.filter_singleton, update_self]
      refine List.rel_append (logged n) (.cons ?_ .nil)
      exact ⟨branch_of_call, rfl, ⟨_, rfl⟩, ⟨contention, handled⟩, rfl, rfl⟩
    · simpa [here, update_of_ne (Ne.symm here), invocationsAt] using logged i
  ended := by
    intro p p' flag logged running history packet i
    have whole : p'.history.map Prod.fst ++ p'.running = p.history.map Prod.fst ++ p.running := by
      simp [running, history, Function.comp_def]
    rw [whole, packet]
    exact logged i

theorem carries_rule {Q : P → Prop} {i : Nat} {pkts : Nat → Recording G P S Id}
    (keeps : ∀ branch pktClass contention call outcome, ctx.handler branch pktClass contention call = some outcome →
      Q call.pkt → Q outcome.pkt) : InvocationRule ctx.recording pkts (Carries Q i) where
  same carries _ _ packet := by
    unfold Carries
    rw [packet]
    exact carries
  invoke := by
    rintro branch n contention view p outcome' p' ⟨now, before⟩ ran
    obtain ⟨outcome, handled, _, _, packet⟩ := invoke_recording ran
    unfold Carries
    rw [packet]
    by_cases here : i = n
    · subst here
      rw [update_self]
      refine ⟨keeps _ _ _ _ _ handled now, ?_⟩
      intro r member
      rcases List.mem_append.mp member with old | new
      · exact before r old
      · obtain rfl := List.mem_singleton.mp new
        exact now
    · rw [update_of_ne here]
      exact ⟨now, before⟩
  ended carries _ _ packet := by
    unfold Carries
    rw [packet]
    exact carries

theorem logged_fresh {p : Plane G (Recording G P S Id) S Id} (running : p.running = []) (history : p.history = [])
    (packet : ∀ i, (p.packet i).2 = []) : Logged ctx p := by
  intro i
  rw [running, history, packet i]
  exact .nil

/-- The calls for a packet of the unbatched variant, in order. -/
def callsOf (ctx : Context Ω G P S Id B) (buffer : B) (attempts : List (Attempt Ω G)) (p : Plane G P S Id) : List (Record G P S Id) :=
  ((processPkt ctx.recording buffer attempts p.recording).map fun z => (z.2.1.packet 0).2).getD []

/-- The calls for a packet of a batch, in order. -/
def callsOfBatch (ctx : Context Ω G P S Id B) (mbufs : Nat → B) (batchSize : Nat) (attempts : List (Attempt Ω G))
    (p : Plane G P S Id) (i : Nat) : List (Record G P S Id) :=
  ((processPkts ctx.recording mbufs batchSize attempts p.recording).map fun z => (z.1.packet i).2).getD []

/-- What the history remembers of a call. -/
def Invocation.summary (v : Invocation) : Branch × Bool × List Action := (v.branch, v.abort, v.actions)

def Record.summary (r : Record G P S Id) : Branch × Bool × List Action := (r.branch, r.outcome.abort, r.outcome.actions)

theorem Recorded.summary {v : Invocation} {r : Record G P S Id} (recorded : Recorded ctx r v) : r.summary = v.summary := by
  rw [Record.summary, recorded.branch, recorded.abort, recorded.actions]
  rfl

/-- The device that the aborted attempts of a batch leave, as in `survives`. -/
def Record.survives (r : Record G P S Id) : List Action :=
  match r.branch with
  | .noPktSet => if r.outcome.abort then [] else r.outcome.actions
  | .registered => []
  | .unknown => r.outcome.actions

theorem Recorded.survives {v : Invocation} {r : Record G P S Id} (recorded : Recorded ctx r v) : r.survives = DataPlane.survives v := by
  rw [Record.survives, recorded.branch, recorded.abort, recorded.actions]
  rfl

theorem flatMap_recorded {vs : List Invocation} {records : List (Record G P S Id)} (recorded : List.Forall₂ (Recorded ctx) records vs)
    {f : Record G P S Id → List Action} {g : Invocation → List Action} (same : ∀ r v, Recorded ctx r v → f r = g v) :
    records.flatMap f = vs.flatMap g := by
  induction recorded with
  | nil => rfl
  | cons first _ ih => rw [List.flatMap_cons, List.flatMap_cons, ih, same _ _ first]

/-- The calls of the aborted attempts and that of the committed one, as the history has them. -/
def Attempted (history : List (Invocation × Bool)) (earlier : List (Record G P S Id)) (last : Record G P S Id) : Prop :=
  history.map (fun z => (z.1.summary, z.2)) = earlier.map (fun r => (r.summary, false)) ++ [(last.summary, true)]

theorem attempted_of_recorded {vs : List Invocation} {v : Invocation} {records : List (Record G P S Id)}
    (recorded : List.Forall₂ (Recorded ctx) records (vs ++ [v])) :
    ∃ earlier last, records = earlier ++ [last] ∧ Attempted (vs.map (·, false) ++ [(v, true)]) earlier last ∧
      List.Forall₂ (Recorded ctx) earlier vs ∧ Recorded ctx last v := by
  have early := List.forall₂_take_append _ _ _ recorded
  have late := List.forall₂_drop_append _ _ _ recorded
  obtain ⟨last, rest, final, none, split⟩ := List.forall₂_cons_right_iff.mp late
  obtain rfl := List.forall₂_nil_right_iff.mp none
  refine ⟨_, last, ?_, ?_, early, final⟩
  · rw [← split, List.take_append_drop]
  · have summaries : (records.take vs.length).map Record.summary = vs.map Invocation.summary := by
      rw [← List.forall₂_eq_eq_eq, List.forall₂_map_left_iff, List.forall₂_map_right_iff]
      exact early.imp fun r v recorded => recorded.summary
    have flagged : (records.take vs.length).map (fun r => (r.summary, false)) = vs.map fun v => (v.summary, false) := by
      simpa [Function.comp_def] using congrArg (List.map (·, false)) summaries
    rw [Attempted, flagged, final.summary]
    simp [Function.comp_def]

variable {Q : P → Prop} {attempts rest : List (Attempt Ω G)} {p p' : Plane G P S Id}

/-- The calls for a packet of the unbatched variant decide about the device that is reported. -/
theorem processPkt_callsOf {buffer : B} {dst : Nat} (parsed : (ctx.nf.nfPktParser buffer).1 = true)
    (accepted : Q (ctx.nf.nfPktParser buffer).2)
    (keeps : ∀ branch pktClass contention call outcome, ctx.handler branch pktClass contention call = some outcome →
      Q call.pkt → Q outcome.pkt)
    (ran : processPkt ctx buffer attempts p = some (dst, p', rest)) :
    ∃ earlier last v, callsOf ctx buffer attempts p = earlier ++ [last] ∧ Attempted p'.history earlier last ∧ Q last.call.pkt ∧
      Recorded ctx last v ∧ v.abort = false ∧
      dst = deliver (deliver ctx.device (earlier.flatMap fun r => r.outcome.actions)) last.outcome.actions := by
  obtain ⟨vs, v, history, running, positions, returned, delivered⟩ := processPkt_history parsed ran
  have erased := @processPkt_erase _ _ _ _ _ _ ctx buffer attempts p.recording
  rw [Plane.erase_recording, ran] at erased
  obtain ⟨⟨dst', q, rest'⟩, remembered, same⟩ := Option.map_eq_some_iff.mp erased
  obtain ⟨rfl, rfl, rfl⟩ : dst' = dst ∧ q.erase = p' ∧ rest' = rest := by simpa using same
  have logged : Logged ctx q := by
    refine logged_rule.processPkt parsed ?_ remembered
    intro u running history packet
    refine logged_fresh running history fun i => ?_
    rw [packet]
    by_cases here : i = 0
    · subst here
      simp [Context.recording]
    · rw [update_of_ne here]
      rfl
  have carries : Carries Q 0 q := by
    refine (carries_rule keeps).processPkt parsed ?_ remembered
    intro u running history packet
    unfold Carries
    rw [packet, update_self]
    exact ⟨accepted, by simp [Context.recording]⟩
  have calls : callsOf ctx buffer attempts p = (q.packet 0).2 := by
    rw [callsOf, remembered]
    rfl
  have all : invocationsAt 0 (q.history.map Prod.fst ++ q.running) = vs ++ [v] := by
    have whole : q.history.map Prod.fst ++ q.running = vs ++ [v] := by
      rw [show q.history = _ from history, show q.running = [] from running]
      simp [Function.comp_def]
    rw [whole]
    exact List.filter_eq_self.mpr fun w member => decide_eq_true (positions w member)
  have recorded := logged 0
  rw [all] at recorded
  obtain ⟨earlier, last, split, attempted, early, late⟩ := attempted_of_recorded recorded
  refine ⟨earlier, last, v, calls.trans split, ?_, carries.2 last (by simp [split]), late, returned, ?_⟩
  · rw [history]
    exact attempted
  · rw [delivered, late.actions, flatMap_recorded early fun r v recorded => recorded.actions]

/-- The calls for a packet of a batch decide about the device that is reported for it. -/
theorem processPkts_callsOf {mbufs : Nat → B} {batchSize i : Nat} (within : i < batchSize) (parsed : (ctx.nf.nfPktParser (mbufs i)).1 = true)
    (accepted : Q (ctx.nf.nfPktParser (mbufs i)).2)
    (keeps : ∀ branch pktClass contention call outcome, ctx.handler branch pktClass contention call = some outcome →
      Q call.pkt → Q outcome.pkt)
    (ran : processPkts ctx mbufs batchSize attempts p = some (p', rest)) :
    ∃ earlier last v, callsOfBatch ctx mbufs batchSize attempts p i = earlier ++ [last] ∧ Attempted (endedAt i p'.history) earlier last ∧
      Q last.call.pkt ∧ Recorded ctx last v ∧ v.abort = false ∧
      p'.dstDevices i = deliver (deliver ctx.device (earlier.flatMap Record.survives)) last.outcome.actions := by
  have progress := handleBatch_progress rfl rfl (fun j below => if_pos below) ran
  obtain ⟨vs, v, ended, branches⟩ := progress.shape i within parsed
  have member : (v, true) ∈ p'.history := by
    have inside : (v, true) ∈ endedAt i p'.history := by simp [ended]
    exact (List.mem_filter.mp inside).1
  have returned := progress.returned _ member rfl
  have whole : invocationsAt i (p'.history.map Prod.fst) = vs ++ [v] := by
    rw [← fst_endedAt, ended]
    simp [Function.comp_def]
  have delivered := progress.destination i within
  rw [whole, settle_last branches returned] at delivered
  have running := progress.running
  have erased := @processPkts_erase _ _ _ _ _ _ ctx mbufs batchSize attempts p.recording
  rw [Plane.erase_recording, ran] at erased
  obtain ⟨⟨q, rest'⟩, remembered, same⟩ := Option.map_eq_some_iff.mp erased
  obtain ⟨rfl, rfl⟩ : q.erase = p' ∧ rest' = rest := by simpa using same
  have logged : Logged ctx q := by
    refine logged_rule.processPkts ?_ remembered
    intro u running history packet
    refine logged_fresh running history fun j => ?_
    rw [packet]
    split
    · rfl
    · rfl
  have carries : Carries Q i q := by
    refine (carries_rule keeps).processPkts ?_ remembered
    intro u running history packet
    unfold Carries
    rw [packet, if_pos within]
    exact ⟨accepted, by simp [Context.recording]⟩
  have calls : callsOfBatch ctx mbufs batchSize attempts p i = (q.packet i).2 := by
    rw [callsOfBatch, remembered]
    rfl
  have recorded := logged i
  rw [show q.running = [] from running, List.append_nil, show invocationsAt i (q.history.map Prod.fst) = _ from whole] at recorded
  obtain ⟨earlier, last, split, attempted, early, late⟩ := attempted_of_recorded recorded
  refine ⟨earlier, last, v, calls.trans split, ?_, carries.2 last (by simp [split]), late, returned, ?_⟩
  · rw [ended]
    exact attempted
  · rw [delivered, late.actions, flatMap_recorded early fun r v recorded => recorded.survives]

/-- The call of an attempt that commits at once. -/
theorem attemptPkt_single {branch : Branch} {d : Dispatch Id} {a : Attempt Ω G} {u v : Plane G (Recording G P S Id) S Id}
    (fresh : (u.packet 0).2 = []) (ran : attemptPkt ctx.recording branch 0 d a u = some (true, v)) :
    ∃ last, (v.packet 0).2 = [last] ∧ last.call.globalState = a.others u.globalState ∧ (last.branch = .unknown → last.call.localState = none) := by
  obtain ⟨view, w, worked, _, rfl⟩ := transaction_done ran
  simp only [Option.bind_eq_bind, Option.bind_eq_some_iff, Option.pure_def, Option.some.injEq, Prod.mk.injEq] at worked
  obtain ⟨⟨outcome', t⟩, invoked, _, rfl⟩ := worked
  obtain ⟨outcome, _, _, _, packet⟩ := invoke_recording invoked
  have before : (prepare ctx.recording branch 0 u).packet = u.packet := packet_prepare ..
  have state : (prepare ctx.recording branch 0 u).globalState = u.globalState := by
    cases branch with
    | noPktSet | unknown => rfl
    | registered =>
      unfold prepare
      dsimp only
      split
      · rfl
      · rfl
  have remembered := congrArg Prod.snd (congrFun packet 0)
  rw [update_self] at remembered
  dsimp only at remembered
  rw [before, fresh, List.nil_append] at remembered
  refine ⟨_, remembered, congrArg a.others state, ?_⟩
  rw [branch_of_call]
  rintro rfl
  rfl

/-- A run that commits at once sees what the other cores have committed before. -/
theorem callsOf_single {buffer : B} {a : Attempt Ω G} {dst : Nat} (parsed : (ctx.nf.nfPktParser buffer).1 = true)
    (ran : processPkt ctx buffer [a] p = some (dst, p', rest)) :
    ∃ last, callsOf ctx buffer [a] p = [last] ∧ last.call.globalState = a.others p.globalState ∧
      (last.branch = .unknown → last.call.localState = none) := by
  have erased := @processPkt_erase _ _ _ _ _ _ ctx buffer [a] p.recording
  rw [Plane.erase_recording, ran] at erased
  obtain ⟨⟨dst', q, rest'⟩, remembered, _⟩ := Option.map_eq_some_iff.mp erased
  rw [callsOf, remembered]
  have known : (ctx.recording.nf.nfPktParser buffer).1 = true := parsed
  simp only [processPkt, known, if_true, Option.bind_eq_bind, Option.bind_eq_some_iff, Option.pure_def, Option.some.injEq,
    Prod.mk.injEq] at remembered
  obtain ⟨⟨u, left⟩, handled, rfl, rfl, rfl⟩ := remembered
  unfold handlePkt at handled
  split at handled
  · exact attemptPkt_single rfl (retry_single.mp handled).2
  · simp only [Option.bind_eq_bind, Option.bind_eq_some_iff] at handled
    obtain ⟨⟨slot, manager⟩, found, handled⟩ := handled
    cases slot with
    | some slot => exact attemptPkt_single rfl (retry_single.mp handled).2
    | none =>
      simp only [Option.bind_eq_some_iff, Option.pure_def, Option.some.injEq, Prod.mk.injEq] at handled
      obtain ⟨⟨w, rest⟩, retried, manager, committed, rfl, rfl⟩ := handled
      exact attemptPkt_single rfl (retry_single.mp retried).2

end Records
end Nfos.DataPlane
