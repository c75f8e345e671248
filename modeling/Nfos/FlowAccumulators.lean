import Nfos.BatchedTurns
import Nfos.Fw

/-! What the firewalls add up for a flow: the TCP flags of both directions in `fw`, the size
of the flow in `fw-nat`. The packet that registers a flow is not counted. -/
namespace Nfos.DataPlane
open Function PktSetManager ConcurrentDoubleChain Registry Run
variable {Ω G P S Id B : Type} {ctx : Context Ω G P S Id B} {core : Fin ctx.cfg.numCores}
variable {A A' : Entries (Fin ctx.cfg.numCores) Id (Nat × S)} {id : Id} {p p' : Plane G P S Id} {slot : Nat} {state : S}

/-- The state that a lookup of the packet set gives access to. -/
def storedState (ctx : Context Ω G P S Id B) (id : Id) (m : Manager Id S) : Option S := do
  let (slot, _) ← getPktSetState ctx.cfg id ctx.pktSetPartition ctx.now m
  slot.map m.pktSetState

theorem Holds.storedState {m : Manager Id S} (holds : Holds ctx.cfg m A) (fits : ctx.cfg.Fits) (lawful : ctx.cfg.Lawful)
    (here : ctx.pktSetPartition = core.val) (id : Id) : storedState ctx id m = (A core id).map Prod.snd := by
  obtain ⟨m', got, _, _, stored⟩ := holds.lookup fits lawful core id ctx.now
  rw [DataPlane.storedState, here, got, Option.bind_eq_bind, Option.bind_some]
  cases found : A core id with
  | none => rfl
  | some entry => simp [stored entry.1 entry.2 found]

/-- The packet belongs to the flow. -/
def Arrival.ofFlow (ctx : Context Ω G P S Id B) (id : Id) (x : Arrival Ω G B) : Bool :=
  let (parsed, pkt) := ctx.nf.nfPktParser x.buffer
  let d := ctx.nf.nfPktDispatcher pkt x.device
  parsed && d.hasPktSetState && ctx.cfg.pktSetIdEq d.pktSetId id

/-- The packets of a flow in a history. -/
def flowOf (ctx : Context Ω G P S Id B) (id : Id) (history : List (Turn Ω G B Id S)) : List (Arrival Ω G B) :=
  history.filterMap fun
    | .received x _ => if x.ofFlow ctx id then some x else none
    | .swept _ _ => none

/-- The flow is not among the deleted packet sets. -/
def Turn.keeps (ctx : Context Ω G P S Id B) (id : Id) : Turn Ω G B Id S → Prop
  | .received _ _ => True
  | .swept _ gone => ∀ e ∈ gone, ctx.cfg.pktSetIdEq id e.id = false

/-- How the handlers of a registered packet set change its state. -/
def Updates (ctx : Context Ω G P S Id B) (next : Arrival Ω G B → S → S) : Prop :=
  ∀ (x : Arrival Ω G B) (pkt : P) (call : Call G P S Id) (outcome : Outcome G P S Id) (state : S),
    ctx.nf.nfPktParser x.buffer = (true, pkt) → call.pkt = pkt → call.incomingDev = x.device →
    call.localState = some state →
    ctx.nf.pktHandlers (ctx.nf.nfPktDispatcher pkt x.device).pktClass x.attempt.contention call = some outcome →
    outcome.abort = false → outcome.localState.getD state = next x state

/-- A turn changes the entry of a flow as the handler of its packet does. -/
theorem Effect.flow {t : Turn Ω G B Id S} {next : Arrival Ω G B → S → S} (effect : Effect ctx core A t A')
    (updates : Updates ctx next) (lawful : ctx.cfg.Lawful) (holds : Holds ctx.cfg p.manager A)
    (found : A core id = some (slot, state)) (kept : t.keeps ctx id) :
    A' core id = some (slot, (flowOf ctx id [t]).foldl (fun s x => next x s) state) := by
  cases effect with
  | unparsed x parser =>
    have other : x.ofFlow ctx id = false := by simp [Arrival.ofFlow, parser]
    simpa [flowOf, other] using found
  | orphan x pkt parser orphan =>
    have other : x.ofFlow ctx id = false := by simp [Arrival.ofFlow, parser, orphan]
    simpa [flowOf, other] using found
  | @known x pkt d slot' state' call outcome parser dispatch stateful present same device given handled returned =>
    subst dispatch
    cases own : ctx.cfg.pktSetIdEq (ctx.nf.nfPktDispatcher pkt x.device).pktSetId id with
    | true =>
      have mine : x.ofFlow ctx id = true := by simp [Arrival.ofFlow, parser, stateful, own]
      rw [holds.congr lawful own, found] at present
      obtain ⟨rfl, rfl⟩ := Prod.mk.inj (Option.some.inj present)
      have updated := updates x pkt call outcome state parser same device given handled returned
      simp [flowOf, mine, add, lawful.eq_comm id, own, updated]
    | false =>
      have other : x.ofFlow ctx id = false := by simp [Arrival.ofFlow, parser, own]
      simpa [flowOf, other, add, lawful.eq_comm id, own] using found
  | @unknown x pkt d call outcome parser dispatch stateful absent =>
    subst dispatch
    cases own : ctx.cfg.pktSetIdEq (ctx.nf.nfPktDispatcher pkt x.device).pktSetId id with
    | true =>
      rw [holds.congr lawful own, found] at absent
      contradiction
    | false =>
      have other : x.ofFlow ctx id = false := by simp [Arrival.ofFlow, parser, own]
      simpa [flowOf, other] using found
  | @new x pkt d slot' state' call outcome parser dispatch stateful absent =>
    subst dispatch
    cases own : ctx.cfg.pktSetIdEq (ctx.nf.nfPktDispatcher pkt x.device).pktSetId id with
    | true =>
      rw [holds.congr lawful own, found] at absent
      contradiction
    | false =>
      have other : x.ofFlow ctx id = false := by simp [Arrival.ofFlow, parser, own]
      simpa [flowOf, other, add, lawful.eq_comm id, own] using found
  | swept time gone =>
    have stays : ¬ ∃ e ∈ gone, ctx.cfg.pktSetIdEq id e.id = true := by
      rintro ⟨e, member, same⟩
      rw [kept e member] at same
      contradiction
    simpa [flowOf, remove, stays] using found

theorem flowOf_append (history : List (Turn Ω G B Id S)) (t : Turn Ω G B Id S) :
    flowOf ctx id (history ++ [t]) = flowOf ctx id history ++ flowOf ctx id [t] := List.filterMap_append ..

/-- The stored state of a flow is what its packets have made of it, whatever the other flows do. -/
theorem run_flow {next : Arrival Ω G B → S → S} {later : List (Turn Ω G B Id S)} (fits : ctx.cfg.Fits) (lawful : ctx.cfg.Lawful)
    (here : ctx.pktSetPartition = core.val) (updates : Updates ctx next) (run : Trace (Serves ctx) p later p')
    (holds : Holds ctx.cfg p.manager A) (found : A core id = some (slot, state)) (kept : ∀ t ∈ later, t.keeps ctx id) :
    ∃ A', Holds ctx.cfg p'.manager A' ∧
      A' core id = some (slot, (flowOf ctx id later).foldl (fun s x => next x s) state) := by
  refine run.rule (P := fun later p' => (∀ t ∈ later, t.keeps ctx id) → ∃ A', Holds ctx.cfg p'.manager A' ∧
    A' core id = some (slot, (flowOf ctx id later).foldl (fun s x => next x s) state)) ?_ ?_ kept
  · intro _
    exact ⟨A, holds, found⟩
  · intro past q t u _ before served kept
    obtain ⟨A', holds', found'⟩ := before fun t member => kept t (List.mem_append_left _ member)
    obtain ⟨A'', effect, holds''⟩ := serves_effect fits lawful here holds' served
    refine ⟨A'', holds'', ?_⟩
    rw [effect.flow updates lawful holds' found' (kept t (by simp)), flowOf_append, List.foldl_append]

/-- A run of a core between the registration of a flow and its expiry: the first packet
registers the flow, and no sweep deletes it. -/
structure FlowRun (ctx : Context Ω G P S Id B) (id : Id) (p : Plane G P S Id) (first : Arrival Ω G B)
    (later : List (Turn Ω G B Id S)) (p' : Plane G P S Id) : Prop where
  coherent : ∃ L C, Coherent ctx.cfg p.manager L C
  unregistered : storedState ctx id p.manager = none
  own : first.ofFlow ctx id = true
  run : ∃ dst p₁, Serves ctx p (.received first dst) p₁ ∧ (storedState ctx id p₁.manager).isSome = true ∧
    Trace (Serves ctx) p₁ later p'
  kept : ∀ t ∈ later, t.keeps ctx id

/-- The packet that registers a flow leaves the state given to `add_pkt_set`. -/
theorem FlowRun.stored {next : Arrival Ω G B → S → S} {initial : Arrival Ω G B → S} {first : Arrival Ω G B} 
    {later : List (Turn Ω G B Id S)} (flow : FlowRun ctx id p first later p') (fits : ctx.cfg.Fits) (lawful : ctx.cfg.Lawful)
    (here : ctx.pktSetPartition = core.val) (updates : Updates ctx next)
    (registered : ∀ (pkt : P) (call : Call G P S Id) (outcome : Outcome G P S Id) (state : S), call.pkt = pkt →
      call.incomingDev = first.device →
      ctx.nf.nfUnknownPktSetHandler first.attempt.contention call = some outcome →
      registers outcome call.canAdd = some state → state = initial first) :
    storedState ctx id p'.manager = some ((flowOf ctx id later).foldl (fun s x => next x s) (initial first)) := by
  obtain ⟨⟨L, C, coherent⟩, unregistered, own, ⟨dst, p₁, served, known, run⟩, kept⟩ := flow
  obtain ⟨A, holds⟩ := holds_of_coherent lawful coherent
  rw [holds.storedState fits lawful here, Option.map_eq_none_iff] at unregistered
  obtain ⟨A₁, effect, holds₁⟩ := serves_effect fits lawful here holds served
  rw [holds₁.storedState fits lawful here, Option.isSome_map] at known
  have entry : ∃ slot, A₁ core id = some (slot, initial first) := by
    cases effect with
    | unparsed | orphan | unknown =>
      rw [unregistered] at known
      contradiction
    | @known _ pkt d slot state call outcome parser dispatch stateful present =>
      subst dispatch
      simp only [Arrival.ofFlow, parser, stateful, Bool.true_and] at own
      rw [holds.congr lawful own, unregistered] at present
      contradiction
    | @new _ pkt d slot state call outcome parser dispatch stateful absent same device handled returned added =>
      subst dispatch
      simp only [Arrival.ofFlow, parser, stateful, Bool.true_and] at own
      refine ⟨slot, ?_⟩
      rw [registered pkt call outcome state same device handled added]
      exact if_pos ⟨rfl, (lawful.eq_comm _ _).trans own⟩
  obtain ⟨slot, entry⟩ := entry
  obtain ⟨A', holds', found⟩ := run_flow fits lawful here updates run holds₁ entry kept
  rw [holds'.storedState fits lawful here, found]
  rfl

section Batches
variable {x : Arrival Ω G B} {dst device : Nat} {t : Turn Ω G B Id S} {turns : List (Turn Ω G B Id S)} {registering : Nat → Bool}

/-- A run of a core with batching: a batch registers the flow, whose first packet in it is `first`, and no
later sweep deletes it. -/
structure FlowBatches (ctx : Context Ω G P S Id B) (id : Id) (p : Plane G P S Id) (first : Arrival Ω G B)
    (later : List (Turn Ω G B Id S)) (p' : Plane G P S Id) : Prop where
  coherent : ∃ L C, Coherent ctx.cfg p.manager L C
  unregistered : storedState ctx id p.manager = none
  own : first.ofFlow ctx id = true
  run : ∃ earlier dst after p₁ bursts, ServesBatch ctx p (earlier ++ .received first dst :: after) p₁ ∧
    flowOf ctx id earlier = [] ∧ (storedState ctx id p₁.manager).isSome = true ∧ Trace (ServesBatch ctx) p₁ bursts p' ∧
    later = after ++ bursts.flatten
  kept : ∀ t ∈ later, t.keeps ctx id

/-- The handler registers packet sets for packets from some devices, if there is room. -/
def RegistersFrom (ctx : Context Ω G P S Id B) (registering : Nat → Bool) : Prop :=
  ∀ (contention : Ω) (call : Call G P S Id) (outcome : Outcome G P S Id), ctx.nf.nfUnknownPktSetHandler contention call = some outcome →
    outcome.abort = false → (registers outcome call.canAdd).isSome = (registering call.incomingDev && call.canAdd)

/-- Packets from the device register nothing. -/
def Refuses (ctx : Context Ω G P S Id B) (registering : Nat → Bool) (device : Nat) (m : Manager Id S) : Prop :=
  registering device = false ∨ Crowded ctx m

/-- Other flows do not register the flow. -/
theorem Effect.absent (effect : Effect ctx core A t A') (lawful : ctx.cfg.Lawful) (absent : A core id = none)
    (others : flowOf ctx id [t] = []) : A' core id = none := by
  cases effect with
  | unparsed | orphan | unknown => exact absent
  | @known x pkt d slot' state' call outcome parser dispatch stateful =>
    subst dispatch
    have other : ctx.cfg.pktSetIdEq (ctx.nf.nfPktDispatcher pkt x.device).pktSetId id = false := by
      simpa [flowOf, Arrival.ofFlow, parser, stateful] using others
    simpa [add, lawful.eq_comm id, other] using absent
  | @new x pkt d slot' state' call outcome parser dispatch stateful =>
    subst dispatch
    have other : ctx.cfg.pktSetIdEq (ctx.nf.nfPktDispatcher pkt x.device).pktSetId id = false := by
      simpa [flowOf, Arrival.ofFlow, parser, stateful] using others
    simpa [add, lawful.eq_comm id, other] using absent
  | swept time gone => simp [remove, absent]

theorem run_absent (run : Trace (Serves ctx) p turns p') (fits : ctx.cfg.Fits) (lawful : ctx.cfg.Lawful)
    (here : ctx.pktSetPartition = core.val) (holds : Holds ctx.cfg p.manager A) (absent : A core id = none)
    (others : flowOf ctx id turns = []) : ∃ A', Holds ctx.cfg p'.manager A' ∧ A' core id = none := by
  refine run.rule (P := fun turns p' => flowOf ctx id turns = [] → ∃ A', Holds ctx.cfg p'.manager A' ∧ A' core id = none) ?_ ?_ others
  · intro _
    exact ⟨A, holds, absent⟩
  · intro past q t u _ before served others
    rw [flowOf_append, List.append_eq_nil_iff] at others
    obtain ⟨A₁, holds₁, absent₁⟩ := before others.1
    obtain ⟨A₂, effect, holds₂⟩ := serves_effect fits lawful here holds₁ served
    exact ⟨A₂, holds₂, effect.absent lawful absent₁ others.2⟩

/-- A packet of a flow that is not registered registers it if there is room and its device is not refused. -/
theorem Serves.registers (served : Serves ctx p (.received x dst) p') (fits : ctx.cfg.Fits) (lawful : ctx.cfg.Lawful)
    (here : ctx.pktSetPartition = core.val) (decides : RegistersFrom ctx registering) (own : x.ofFlow ctx id = true)
    (holds : Holds ctx.cfg p.manager A) (absent : A core id = none) :
    ∃ A', Holds ctx.cfg p'.manager A' ∧ (A' core id = none ↔ Refuses ctx registering x.device p.manager) := by
  cases served with
  | receive _ ran =>
    obtain ⟨pkt, parser⟩ : ∃ pkt, ctx.nf.nfPktParser x.buffer = (true, pkt) := by
      simp only [Arrival.ofFlow, Bool.and_eq_true] at own
      exact ⟨_, Prod.ext own.1.1 rfl⟩
    simp only [Arrival.ofFlow, parser, Bool.true_and, Bool.and_eq_true] at own
    obtain ⟨stateful, same⟩ := own
    have unknown : A core (ctx.nf.nfPktDispatcher pkt x.device).pktSetId = none := (holds.congr lawful same).trans absent
    obtain ⟨outcome, handled, returned, _, _, _, holds'⟩ :=
      @processPkt_new _ _ _ _ _ _ (ctx.receiving x) core A x.buffer pkt _ x.attempt p p' dst _ fits lawful here parser rfl stateful holds
        unknown ran
    have decided : (DataPlane.registers outcome (concurrentDchainImplHasFreeIndexes ctx.cfg.numCores p.manager.cells core.val)).isSome =
      (registering x.device && concurrentDchainImplHasFreeIndexes ctx.cfg.numCores p.manager.cells core.val) :=
      decides _ _ outcome handled returned
    rw [Refuses, Crowded, here]
    split at holds'
    · rename_i nothing
      have nothing' : DataPlane.registers outcome (concurrentDchainImplHasFreeIndexes ctx.cfg.numCores p.manager.cells core.val) = none :=
        nothing
      rw [nothing'] at decided
      exact ⟨A, holds', iff_of_true absent (Bool.and_eq_false_iff.mp decided.symm)⟩
    · rename_i state added
      have added' : DataPlane.registers outcome (concurrentDchainImplHasFreeIndexes ctx.cfg.numCores p.manager.cells core.val) =
        some state := added
      rw [added'] at decided
      obtain ⟨slot, holds'⟩ := holds'
      have entry : add ctx.cfg.pktSetIdEq core _ (slot, state) A core id = some (slot, state) :=
        if_pos ⟨rfl, (lawful.eq_comm _ _).trans same⟩
      refine ⟨_, holds', iff_of_false ?_ ?_⟩
      · intro missing
        exact Option.some_ne_none _ (entry.symm.trans missing)
      · obtain ⟨open', free⟩ := Bool.and_eq_true_iff.mp decided.symm
        rw [open', free]
        simp

/-- Within a batch a flow that was refused is refused again. -/
theorem refused_run (run : Trace (Serves ctx) p turns p') (fits : ctx.cfg.Fits) (lawful : ctx.cfg.Lawful)
    (here : ctx.pktSetPartition = core.val) (decides : RegistersFrom ctx registering)
    (alike : ∀ t ∈ turns, ∃ x dst, t = .received x dst ∧ x.device = device) (holds : Holds ctx.cfg p.manager A)
    (absent : A core id = none) (refuses : Refuses ctx registering device p.manager) :
    ∃ A', Holds ctx.cfg p'.manager A' ∧ A' core id = none := by
  refine (run.rule (P := fun turns p' => (∀ t ∈ turns, ∃ x dst, t = .received x dst ∧ x.device = device) →
    (∃ A', Holds ctx.cfg p'.manager A' ∧ A' core id = none) ∧ Refuses ctx registering device p'.manager) ?_ ?_ alike).1
  · intro _
    exact ⟨⟨A, holds, absent⟩, refuses⟩
  · intro past q t u _ before served alike
    obtain ⟨⟨A₁, holds₁, absent₁⟩, refuses₁⟩ := before fun t member => alike t (List.mem_append_left _ member)
    obtain ⟨x, dst, rfl, rfl⟩ := alike t (by simp)
    refine ⟨?_, refuses₁.imp_right fun crowded => served.crowded fits lawful here holds₁.intact crowded⟩
    cases own : x.ofFlow ctx id with
    | true =>
      obtain ⟨A₂, holds₂, refused⟩ := served.registers fits lawful here decides own holds₁ absent₁
      exact ⟨A₂, holds₂, refused.mpr refuses₁⟩
    | false =>
      obtain ⟨A₂, effect, holds₂⟩ := serves_effect fits lawful here holds₁ served
      exact ⟨A₂, holds₂, effect.absent lawful absent₁ (by simp [flowOf, own])⟩

/-- The first packet of a flow in the batch that registers it is the one that does, also without batching. -/
theorem FlowBatches.flowRun {first : Arrival Ω G B} {later : List (Turn Ω G B Id S)} (flow : FlowBatches ctx id p first later p')
    (fits : ctx.cfg.Fits) (lawful : ctx.cfg.Lawful) (here : ctx.pktSetPartition = core.val)
    (stateful : ∀ pkt device, (ctx.nf.nfPktDispatcher pkt device).hasPktSetState = true) (decides : RegistersFrom ctx registering) :
    ∃ q q', FlowRun ctx id q first later q' ∧ q'.manager = p'.manager := by
  obtain ⟨⟨L, C, coherent⟩, unregistered, own, ⟨earlier, dst, after, p₁, bursts, batch, others, known, run, rfl⟩, kept⟩ := flow
  obtain ⟨A, holds⟩ := holds_of_coherent lawful coherent
  rw [holds.storedState fits lawful here, Option.map_eq_none_iff] at unregistered
  obtain ⟨q₂, whole, manager, globalState⟩ := batch.serves fits lawful here stateful ⟨L, C, coherent⟩ rfl rfl
  obtain ⟨q, before, behind⟩ := whole.split
  obtain ⟨q₁, served, rest⟩ := Trace.split (show Trace (Serves ctx) q ([_] ++ after) q₂ from behind)
  have served := served.single
  obtain ⟨A₀, holds₀, absent₀⟩ := run_absent before fits lawful here holds unregistered others
  obtain ⟨A₁, holds₁, refused⟩ := served.registers fits lawful here decides own holds₀ absent₀
  have registered : (storedState ctx id q₁.manager).isSome = true := by
    rw [holds₁.storedState fits lawful here, Option.isSome_map]
    by_contra missing
    have absent₁ : A₁ core id = none := by simpa using missing
    have refuses := (refused.mp absent₁).imp_right fun crowded => served.crowded fits lawful here holds₀.intact crowded
    obtain ⟨A₂, holds₂, absent₂⟩ := refused_run rest fits lawful here decides (batch.alike) holds₁ absent₁ refuses
    rw [← manager, holds₂.storedState fits lawful here, absent₂] at known
    contradiction
  have intact : Intact ctx.cfg p₁.manager := by
    rw [← manager]
    exact whole.keeps (P := fun q => Intact ctx.cfg q.manager) ⟨L, C, coherent⟩ fun _ _ _ intact step => step.intact fits lawful here intact
  obtain ⟨q', onward, manager', _⟩ := batches_serve run fits lawful here stateful intact manager globalState
  refine ⟨q, q', ⟨holds₀.intact, ?_, own, ⟨dst, q₁, served, registered, rest.append onward⟩, kept⟩, manager'⟩
  rw [holds₀.storedState fits lawful here, absent₀]
  rfl

end Batches

end Nfos.DataPlane

namespace Nfos.Fw
open Function DataPlane NfUtil PktSetManager ConcurrentDoubleChain Run
variable {B : Type} {setup : Setup} {headers : B → Bool × Pkt}

/-- The TCP flags of a packet, for its direction. -/
def flagsOf (setup : Setup) (headers : B → Bool × Pkt) (dir : Fin 2) (x : Arrival Unit Unit B) : UInt8 :=
  let pkt := (headers x.buffer).2
  if pkt.nextProtoId = protocolTcp ∧ isInput setup x.device = dir then pkt.payload 13 else 0

def orFlags (flags : List UInt8) : UInt8 := flags.foldr (· ||| ·) 0

theorem testBit_orFlags {flags : List UInt8} {i : Nat} :
    (orFlags flags).toNat.testBit i = true ↔ ∃ f ∈ flags, f.toNat.testBit i = true := by
  induction flags with
  | nil => simp [orFlags]
  | cons f rest ih =>
    have step : orFlags (f :: rest) = f ||| orFlags rest := rfl
    simp only [step, UInt8.toNat_or, Nat.testBit_or, Bool.or_eq_true, ih, List.mem_cons, exists_eq_or_imp]

/-- Flags add nothing if each of them is there already. -/
theorem or_orFlags_iff {f : UInt8} {flags : List UInt8} :
    orFlags flags = f ||| orFlags flags ↔
      ∀ i, f.toNat.testBit i = true → ∃ g ∈ flags, g.toNat.testBit i = true := by
  constructor
  · intro same i set
    apply testBit_orFlags.mp
    rw [same, UInt8.toNat_or, Nat.testBit_or, set, Bool.true_or]
  · intro contained
    apply UInt8.toNat.inj
    apply Nat.eq_of_testBit_eq
    intro i
    rw [UInt8.toNat_or, Nat.testBit_or]
    cases set : f.toNat.testBit i with
    | false => rw [Bool.false_or]
    | true => rw [Bool.true_or, testBit_orFlags.mpr (contained i set)]

theorem tcpFlag_trackFlags (dir : Fin 2) (x : Arrival Unit Unit B) (s : PktSetState) :
    (trackFlags setup (headers x.buffer).2 x.device s).tcpFlag dir = s.tcpFlag dir ||| flagsOf setup headers dir x := by
  unfold trackFlags flagsOf
  by_cases tcp : (headers x.buffer).2.nextProtoId = protocolTcp
  · have written : ∀ old new : UInt8, (if old ≠ old ||| new then old ||| new else old) = old ||| new := by
      intro old new
      split
      · rfl
      · rename_i same
        exact not_not.mp same
    simp only [tcp, if_true, true_and, trackSession, written]
    by_cases own : isInput setup x.device = dir
    · subst own
      simp
    · rw [update_of_ne (Ne.symm own), if_neg own, UInt8.or_zero]
  · simp [tcp]

theorem tcpFlag_foldl (dir : Fin 2) (xs : List (Arrival Unit Unit B)) (s : PktSetState) :
    (xs.foldl (fun s x => trackFlags setup (headers x.buffer).2 x.device s) s).tcpFlag dir =
      s.tcpFlag dir ||| orFlags (xs.map (flagsOf setup headers dir)) := by
  induction xs generalizing s with
  | nil => simp [orFlags]
  | cons x rest ih =>
    rw [List.foldl_cons, ih, tcpFlag_trackFlags, UInt8.or_assoc]
    rfl

variable {ctx : Context Unit Unit Pkt PktSetState PktSetId B} {core : Fin ctx.cfg.numCores} {id : PktSetId}
variable {p p' : Plane Unit Pkt PktSetState PktSetId} {first : Arrival Unit Unit B} {later : List (Turn Unit Unit B PktSetId PktSetState)}

theorem nf_stateful (isFw : ctx.nf = nf setup headers) (pkt : Pkt) (device : Nat) :
    (ctx.nf.nfPktDispatcher pkt device).hasPktSetState = true := by
  rw [isFw]
  change (nfPktDispatcher setup pkt device).hasPktSetState = true
  unfold nfPktDispatcher
  split <;> rfl

/-- The flows are registered from the inner side. -/
theorem nf_registersFrom (isFw : ctx.nf = nf setup headers) : RegistersFrom ctx fun device => decide (device ≠ setup.wanDevice) := by
  intro contention call outcome handled _
  rw [isFw] at handled
  have handled := nfUnknownPktSetHandler_iff.mp handled
  split at handled
  · rename_i wan
    subst handled
    simp [registers, wan]
  · rename_i lan
    obtain ⟨_, _, _, rfl⟩ := handled
    cases call.canAdd <;> simp [registers, lan]

/-- The flags of the packet that registers the flow are missing. -/
theorem stored_flags (isFw : ctx.nf = nf setup headers) (fits : ctx.cfg.Fits) (lawful : ctx.cfg.Lawful)
    (here : ctx.pktSetPartition = core.val) (flow : FlowRun ctx id p first later p') :
    ∃ state, storedState ctx id p'.manager = some state ∧
      ∀ dir, state.tcpFlag dir = orFlags ((flowOf ctx id later).map (flagsOf setup headers dir)) := by
  have updates : Updates ctx fun x s => trackFlags setup (headers x.buffer).2 x.device s := by
    rintro x pkt call outcome state parser rfl device given handled _
    rw [isFw] at parser handled
    obtain ⟨_, packet⟩ := Prod.mk.inj parser
    obtain ⟨state', _, _, given', _, rfl⟩ := pktHandler_iff.mp handled
    rw [given] at given'
    obtain rfl := Option.some.inj given'
    change trackFlags setup call.pkt call.incomingDev state = trackFlags setup (headers x.buffer).2 x.device state
    rw [device, packet]
  have registered : ∀ (pkt : Pkt) (call : Call Unit Pkt PktSetState PktSetId) (outcome : Outcome Unit Pkt PktSetState PktSetId)
      (state : PktSetState), call.pkt = pkt → call.incomingDev = first.device →
      ctx.nf.nfUnknownPktSetHandler first.attempt.contention call = some outcome →
      registers outcome call.canAdd = some state → state = ⟨first.device, fun _ => 0⟩ := by
    rintro pkt call outcome state rfl device handled added
    rw [isFw] at handled
    have handled := nfUnknownPktSetHandler_iff.mp handled
    split at handled
    · subst handled
      simp [registers] at added
    · obtain ⟨_, _, _, rfl⟩ := handled
      simp only [registers, Option.map_some, Option.ite_none_right_eq_some, Option.some.injEq] at added
      rw [← added.2, device]
  have stored : storedState ctx id p'.manager = some ((flowOf ctx id later).foldl
      (fun s x => trackFlags setup (headers x.buffer).2 x.device s) ⟨first.device, fun _ => 0⟩) :=
    @FlowRun.stored _ _ _ _ _ _ ctx core id p p' _ (fun x => ⟨x.device, fun _ => 0⟩) first later flow fits lawful here
      updates registered
  refine ⟨_, stored, ?_⟩
  intro dir
  rw [tcpFlag_foldl, UInt8.zero_or]

end Nfos.Fw

namespace Nfos.FwNat
open DataPlane NfUtil PktSetManager ConcurrentDoubleChain Run
variable {B : Type} {setup : Setup} {n : Nat} {headers : B → Bool × Pkt}
variable {ctx : Context Contention NfState Pkt PktSetState PktSetId B} {core : Fin ctx.cfg.numCores} {id : PktSetId}
variable {p p' : Plane NfState Pkt PktSetState PktSetId} {first : Arrival Contention NfState B}
variable {later : List (Turn Contention NfState B PktSetId PktSetState)}

theorem flowSize_foldl {α : Type} (xs : List α) (s : PktSetState) :
    (xs.foldl (fun s _ => (⟨s.flowSize + 1⟩ : PktSetState)) s).flowSize = s.flowSize + UInt32.ofNat xs.length := by
  induction xs generalizing s with
  | nil => simp
  | cons x rest ih =>
    rw [List.foldl_cons, ih, List.length_cons, UInt32.ofNat_add, UInt32.add_assoc, UInt32.add_comm 1]
    rfl

/-- The packet that registers the flow is missing. -/
theorem stored_size (isNat : ctx.nf = nf setup n headers) (fits : ctx.cfg.Fits) (lawful : ctx.cfg.Lawful)
    (here : ctx.pktSetPartition = core.val) (flow : FlowRun ctx id p first later p') :
    ∃ state, storedState ctx id p'.manager = some state ∧
      state.flowSize = UInt32.ofNat (flowOf ctx id later).length := by
  have updates : Updates ctx fun _ s => ⟨s.flowSize + 1⟩ := by
    rintro x pkt call outcome state _ rfl _ given handled _
    rw [isNat] at handled
    change pktHandlers setup n _ x.attempt.contention call = some outcome at handled
    unfold pktHandlers at handled
    split at handled
    · obtain ⟨_, _, state', given', left⟩ := pktHandler_did handled
      rw [given] at given'
      obtain rfl := Option.some.inj given'
      rw [left, Option.getD_some]
    · contradiction
  have registered : ∀ (pkt : Pkt) (call : DataPlane.Call NfState Pkt PktSetState PktSetId)
      (outcome : Outcome NfState Pkt PktSetState PktSetId) (state : PktSetState), call.pkt = pkt → call.incomingDev = first.device →
      ctx.nf.nfUnknownPktSetHandler first.attempt.contention call = some outcome →
      registers outcome call.canAdd = some state → state = ⟨0⟩ := by
    rintro pkt call outcome state rfl device handled added
    rw [isNat] at handled
    obtain ⟨_, logged, _⟩ := nfUnknownPktSetHandler_did handled
    simp only [registers, logged, Option.map_some, Option.ite_none_right_eq_some, Option.some.injEq] at added
    exact added.2.symm
  have stored : storedState ctx id p'.manager =
      some ((flowOf ctx id later).foldl (fun s _ => ⟨s.flowSize + 1⟩) ⟨0⟩) :=
    @FlowRun.stored _ _ _ _ _ _ ctx core id p p' _ (fun _ => ⟨0⟩) first later flow fits lawful here updates registered
  refine ⟨_, stored, ?_⟩
  rw [flowSize_foldl, UInt32.zero_add]

end Nfos.FwNat

namespace Nfos
open DataPlane PktSetManager

/-- The accumulators of a flow count all of its packets, and not only those behind the one
that registers it, just when it does not matter: in `fw`, with or without batching, when each
of the TCP flags of that packet is on a later packet of the same direction, in `fw-nat` only
for a flow beyond `FLOW_SIZE_THRESHOLD`. -/
theorem accumulators_count_iff (B : Type) :
    (∀ (setup : Fw.Setup) (headers : B → Bool × Fw.Pkt) (ctx : Context Unit Unit Fw.Pkt Fw.PktSetState Fw.PktSetId B)
      (core : Fin ctx.cfg.numCores), ctx.nf = Fw.nf setup headers → ctx.cfg.Fits → ctx.cfg.Lawful →
      ctx.pktSetPartition = core.val →
      ∀ id p first later p', FlowRun ctx id p first later p' ∨ FlowBatches ctx id p first later p' →
      ∃ state, storedState ctx id p'.manager = some state ∧
        ((∀ dir, state.tcpFlag dir = Fw.orFlags ((first :: flowOf ctx id later).map (Fw.flagsOf setup headers dir))) ↔
          ∀ dir i, (Fw.flagsOf setup headers dir first).toNat.testBit i = true →
            ∃ x ∈ flowOf ctx id later, (Fw.flagsOf setup headers dir x).toNat.testBit i = true)) ∧
    (∀ (setup : FwNat.Setup) (n : Nat) (headers : B → Bool × NfUtil.Pkt)
      (ctx : Context FwNat.Contention FwNat.NfState NfUtil.Pkt FwNat.PktSetState FwNat.PktSetId B)
      (core : Fin ctx.cfg.numCores), ctx.nf = FwNat.nf setup n headers → ctx.cfg.Fits → ctx.cfg.Lawful →
      ctx.pktSetPartition = core.val → ∀ id p first later p', FlowRun ctx id p first later p' →
      ∃ state, storedState ctx id p'.manager = some state ∧
        (((first :: flowOf ctx id later).length ≤ FwNat.flowSizeThreshold.toNat →
            state.flowSize.toNat = (first :: flowOf ctx id later).length) ↔
          FwNat.flowSizeThreshold.toNat < (first :: flowOf ctx id later).length)) := by
  constructor
  · intro setup headers ctx core isFw fits lawful here id p first later p' flow
    have runs : ∃ q q', FlowRun ctx id q first later q' ∧ q'.manager = p'.manager := by
      rcases flow with flow | flow
      · exact ⟨p, p', flow, rfl⟩
      · exact flow.flowRun fits lawful here (Fw.nf_stateful isFw) (Fw.nf_registersFrom isFw)
    obtain ⟨q, q', flow, same⟩ := runs
    obtain ⟨state, stored, flags⟩ := Fw.stored_flags isFw fits lawful here flow
    rw [same] at stored
    refine ⟨state, stored, forall_congr' fun dir => ?_⟩
    rw [flags dir]
    refine Fw.or_orFlags_iff.trans (forall_congr' fun i => ?_)
    simp only [List.mem_map, exists_exists_and_eq_and]
  · intro setup n headers ctx core isNat fits lawful here id p first later p' flow
    obtain ⟨state, stored, size⟩ := FwNat.stored_size isNat fits lawful here flow
    refine ⟨state, stored, ?_⟩
    rw [size, List.length_cons, UInt32.toNat_ofNat']
    constructor
    · intro counted
      by_contra few
      have same := counted (Nat.not_lt.mp few)
      have less := Nat.mod_le (flowOf ctx id later).length (2 ^ 32)
      omega
    · intro many few
      omega

section Example

/-- One flow; the packets come from device 0, the WAN is device 1. -/
def oneFlow : Config Fw.PktSetId := ⟨1, 1, Fw.pktSetIdEq, fun _ => 0, 0, false⟩

theorem oneFlow_fits : oneFlow.Fits := by
  constructor <;> decide

theorem oneFlow_lawful : oneFlow.Lawful := by
  constructor
  · constructor
    · intro a
      simp [oneFlow, Fw.pktSetIdEq]
    · intro a b same
      simp only [oneFlow, Fw.pktSetIdEq, Bool.and_eq_true, beq_iff_eq] at same ⊢
      simp [same]
    · intro a b c first second
      simp only [oneFlow, Fw.pktSetIdEq, Bool.and_eq_true, beq_iff_eq] at first second ⊢
      simp [first, second]
  · intro a b same
    rfl

def fwSetup : Fw.Setup :=
  ⟨1, fun _ => 0, fun _ => 0, ⟨fun _ => Mtrie.ip4MtrieInit, fun _ => Mtrie.ply8Init 0 0 0, 0⟩, 5, fun _ => [⟨.forward, 1, 0⟩]⟩

/-- A TCP packet with the flag SYN. -/
def synPacket : Fw.Pkt := ⟨⟨0, 0, 64, 6, 0, 1, 3, 2, 4, 0, []⟩, fun _ => 2⟩

def synHeaders (_ : Unit) : Bool × Fw.Pkt := (true, synPacket)

def fwContext : Context Unit Unit Fw.Pkt Fw.PktSetState Fw.PktSetId Unit :=
  ⟨Fw.nf fwSetup synHeaders, oneFlow, false, 0, 0, 0⟩

def blankMemory : Manager Fw.PktSetId Fw.PktSetState :=
  ⟨fun _ => 0, fun _ => ⟨0, 0, 0, ⟨0, ⟨0, 0, 0, 0, 0⟩, 0⟩⟩, fun _ => ⟨0, fun _ => 0⟩,
    fun _ => ⟨false, ⟨0, 0, 0, 0, 0⟩, ⟨0, fun _ => 0⟩⟩⟩

def fwPlane (m : Manager Fw.PktSetId Fw.PktSetState) : Plane Unit Fw.Pkt Fw.PktSetState Fw.PktSetId :=
  ⟨m, (), 0, fun _ => synPacket, fun _ => 0, fun _ => 0, [], [], []⟩

def synArrival : Arrival Unit Unit Unit := ⟨(), 0, 0, ⟨id, (), true⟩⟩

def synFlow : Fw.PktSetId := (Fw.nfPktDispatcher fwSetup synPacket 0).pktSetId

/-- The memory behind some packets. -/
def received : Nat → Option (Plane Unit Fw.Pkt Fw.PktSetState Fw.PktSetId)
  | 0 => (initPktSetManager oneFlow blankMemory).map fwPlane
  | k + 1 => do
    let p ← received k
    let (_, p, _) ← processPkt (fwContext.receiving synArrival) () [synArrival.attempt] p
    return p

theorem received_succ {k : Nat} {p' : Plane Unit Fw.Pkt Fw.PktSetState Fw.PktSetId} (ran : received (k + 1) = some p') :
    ∃ p dst, received k = some p ∧ Serves fwContext p (.received synArrival dst) p' := by
  rw [received] at ran
  simp only [Option.bind_eq_bind, Option.bind_eq_some_iff, Option.pure_def, Option.some.injEq] at ran
  obtain ⟨p, before, ⟨dst, q, rest⟩, processed, rfl⟩ := ran
  exact ⟨p, dst, before, .receive synArrival processed⟩

/-- The first packet registers the flow. -/
theorem received_registers : ∃ p dst p₁, received 1 = some p₁ ∧ Serves fwContext p (.received synArrival dst) p₁ ∧
    (∃ L C, Coherent fwContext.cfg p.manager L C) ∧ storedState fwContext synFlow p.manager = none ∧
    (storedState fwContext synFlow p₁.manager).isSome = true := by
  obtain ⟨m, ended, coherent⟩ := init_coherent oneFlow_fits blankMemory
  have start : received 0 = some (fwPlane m) := by
    rw [received, ended]
    rfl
  have unknown : ((received 0).bind fun p => storedState fwContext synFlow p.manager).isNone = true := by decide +kernel
  have known : ((received 1).bind fun p => storedState fwContext synFlow p.manager).isSome = true := by decide +kernel
  cases second : received 1 with
  | none => simp [second] at known
  | some p₁ =>
    simp only [second, Option.bind_some] at known
    simp only [start, Option.bind_some, Option.isNone_iff_eq_none] at unknown
    obtain ⟨p, dst, before, served⟩ := received_succ second
    obtain rfl := Option.some.inj (start.symm.trans before)
    exact ⟨_, dst, p₁, rfl, served, ⟨_, _, coherent⟩, unknown, known⟩

/-- Two packets of the flow in a batch, of which the first one registers it. -/
theorem batch_registers : ∃ p dst p₁, FlowBatches fwContext synFlow p synArrival [.received synArrival dst] p₁ := by
  obtain ⟨m, ended, coherent⟩ := init_coherent oneFlow_fits blankMemory
  have ran : ((initPktSetManager oneFlow blankMemory).bind fun m =>
      (processPkts { fwContext with device := 0, now := 0 } (fun _ => ()) 2 (List.replicate 4 synArrival.attempt) (fwPlane m)).bind fun r =>
        if (storedState fwContext synFlow m).isNone && r.1.history.all (·.2) then storedState fwContext synFlow r.1.manager
        else none).isSome = true := by decide +kernel
  rw [ended, Option.bind_some] at ran
  obtain ⟨state, ran⟩ := Option.isSome_iff_exists.mp ran
  obtain ⟨⟨p₁, rest⟩, processed, known⟩ := Option.bind_eq_some_iff.mp ran
  split at known
  · rename_i checks
    obtain ⟨unknown, calm⟩ := Bool.and_eq_true_iff.mp checks
    have batch := ServesBatch.receive (fun _ => ()) 2 0 0 synArrival.attempt rfl rfl (fun x member => List.eq_of_mem_replicate member) processed
      (List.all_eq_true.mp calm)
    exact ⟨fwPlane m, p₁.dstDevices 1, p₁, ⟨_, _, coherent⟩, Option.isNone_iff_eq_none.mp unknown, by decide,
      ⟨[], p₁.dstDevices 0, _, p₁, [], batch, rfl, Option.isSome_iff_exists.mpr ⟨state, known⟩, .start, (List.append_nil _).symm⟩,
      by simp [Turn.keeps]⟩
  · contradiction

/-- The flag SYN of the only packet of the flow is not stored. -/
theorem first_flags_lost : ∃ p p', FlowRun fwContext synFlow p synArrival [] p' ∧
    ∃ state, storedState fwContext synFlow p'.manager = some state ∧ state.tcpFlag 1 = 0 ∧
      Fw.orFlags ([synArrival].map (Fw.flagsOf fwSetup synHeaders 1)) = 2 := by
  obtain ⟨p, dst, p₁, _, served, coherent, unknown, known⟩ := received_registers
  have flow : FlowRun fwContext synFlow p synArrival [] p₁ :=
    ⟨coherent, unknown, by decide, ⟨dst, p₁, served, known, .start⟩, by simp⟩
  obtain ⟨state, stored, flags⟩ := @Fw.stored_flags Unit fwSetup synHeaders fwContext (⟨0, by decide⟩ : Fin 1) synFlow p p₁ synArrival [] rfl oneFlow_fits oneFlow_lawful rfl flow
  exact ⟨p, p₁, flow, state, stored, flags 1, by decide⟩

def natArrival : Arrival FwNat.Contention FwNat.NfState Unit := ⟨(), 0, 0, FwNat.granted true⟩

def natFlow : FwNat.PktSetId := ⟨2, 4, 1, 3, 6⟩

theorem natFlow_fits : FwNat.oneFlow.Fits := by
  constructor <;> decide

theorem natFlow_lawful : FwNat.oneFlow.Lawful := by
  constructor
  · constructor
    · intro a
      simp [FwNat.oneFlow]
    · intro a b same
      simpa [FwNat.oneFlow] using (beq_iff_eq.mp same).symm
    · intro a b c first second
      simpa [FwNat.oneFlow] using (beq_iff_eq.mp first).trans (beq_iff_eq.mp second)
  · intro a b same
    rfl

theorem nat_registers : ∃ setup p p', FlowRun (FwNat.exampleContext setup) natFlow p natArrival [] p' := by
  have ran : (do
      let z ← FwNat.initial
      let r ← processPkt ((FwNat.exampleContext z.1.1).receiving natArrival) () [natArrival.attempt] (FwNat.examplePlane z.1.2 z.2)
      if (storedState (FwNat.exampleContext z.1.1) natFlow z.2).isNone then
        storedState (FwNat.exampleContext z.1.1) natFlow r.2.1.manager
      else none).isSome = true := by decide +kernel
  obtain ⟨state, ran⟩ := Option.isSome_iff_exists.mp ran
  simp only [Option.bind_eq_bind, Option.bind_eq_some_iff] at ran
  obtain ⟨⟨⟨setup, s⟩, m⟩, initial, ⟨dst, p', rest⟩, processed, ran⟩ := ran
  dsimp only at processed ran
  split at ran
  · rename_i unknown
    have initial' := initial
    have ended : initPktSetManager FwNat.oneFlow FwNat.blankManager = some m := by
      simp only [FwNat.initial, Option.bind_eq_bind, Option.bind_eq_some_iff, Option.pure_def, Option.some.injEq,
        Prod.mk.injEq] at initial
      obtain ⟨_, _, _, ended, _, rfl⟩ := initial
      exact ended
    obtain ⟨init, again, coherent⟩ := init_coherent natFlow_fits FwNat.blankManager
    obtain rfl := Option.some.inj (ended.symm.trans again)
    refine ⟨setup, FwNat.examplePlane s m, p', ⟨_, _, coherent⟩, Option.isNone_iff_eq_none.mp unknown, ?_, ?_, by simp⟩
    · have wan : setup.cfg.wanDevice = 1 := by
        have sessions := FwNat.initial_nat initial'
        simp only [FwNat.nfInit, Option.bind_eq_bind, Option.bind_eq_some_iff, Option.pure_def, Option.some.injEq,
          Prod.mk.injEq] at sessions
        obtain ⟨_, _, rfl, _⟩ := sessions
        rfl
      simp [Arrival.ofFlow, FwNat.exampleContext, natArrival, FwNat.nf, FwNat.nfPktDispatcher, wan]
      decide
    · exact ⟨dst, p', .receive natArrival processed, Option.isSome_iff_exists.mpr ⟨state, ran⟩, .start⟩
  · simp at ran

/-- A second packet with the flag SYN makes up for the first one, also in a batch. The NAT counts one packet
too few. -/
theorem accumulators_of_two : (∃ p dst p', FlowRun fwContext synFlow p synArrival [.received synArrival dst] p' ∧
      ∃ state, storedState fwContext synFlow p'.manager = some state ∧
        ∀ dir, state.tcpFlag dir = Fw.orFlags ([synArrival, synArrival].map (Fw.flagsOf fwSetup synHeaders dir))) ∧
    (∃ p dst p', FlowBatches fwContext synFlow p synArrival [.received synArrival dst] p' ∧
      ∃ state, storedState fwContext synFlow p'.manager = some state ∧
        ∀ dir, state.tcpFlag dir = Fw.orFlags ([synArrival, synArrival].map (Fw.flagsOf fwSetup synHeaders dir))) ∧
    ∃ setup p p' state, FlowRun (FwNat.exampleContext setup) natFlow p natArrival [] p' ∧
      storedState (FwNat.exampleContext setup) natFlow p'.manager = some state ∧
      ¬ (1 ≤ FwNat.flowSizeThreshold.toNat → state.flowSize.toNat = 1) := by
  have own : synArrival.ofFlow fwContext synFlow = true := by decide
  refine ⟨?_, ?_, ?_⟩
  · obtain ⟨p, dst, p₁, first, served, coherent, unknown, known⟩ := received_registers
    have again : (received 2).isSome = true := by decide +kernel
    obtain ⟨p₂, second⟩ := Option.isSome_iff_exists.mp again
    obtain ⟨q, dst', before, served'⟩ := received_succ second
    obtain rfl := Option.some.inj (first.symm.trans before)
    have flow : FlowRun fwContext synFlow p synArrival [.received synArrival dst'] p₂ :=
      ⟨coherent, unknown, by decide, ⟨dst, p₁, served, known, .extend .start served'⟩, by simp [Turn.keeps]⟩
    obtain ⟨state, stored, iff⟩ := (accumulators_count_iff Unit).1 fwSetup synHeaders fwContext (⟨0, by decide⟩ : Fin 1) rfl
      oneFlow_fits oneFlow_lawful rfl synFlow p synArrival [.received synArrival dst'] p₂ (.inl flow)
    simp only [flowOf, List.filterMap_cons, own, if_true, List.filterMap_nil] at iff
    exact ⟨p, dst', p₂, flow, state, stored, iff.mpr fun dir i set => ⟨synArrival, List.mem_singleton_self _, set⟩⟩
  · obtain ⟨p, dst, p', flow⟩ := batch_registers
    obtain ⟨state, stored, iff⟩ := (accumulators_count_iff Unit).1 fwSetup synHeaders fwContext (⟨0, by decide⟩ : Fin 1) rfl
      oneFlow_fits oneFlow_lawful rfl synFlow p synArrival [.received synArrival dst] p' (.inr flow)
    simp only [flowOf, List.filterMap_cons, own, if_true, List.filterMap_nil] at iff
    exact ⟨p, dst, p', flow, state, stored, iff.mpr fun dir i set => ⟨synArrival, List.mem_singleton_self _, set⟩⟩
  · obtain ⟨setup, p, p', flow⟩ := nat_registers
    obtain ⟨state, stored, iff⟩ := (accumulators_count_iff Unit).2 setup 0 _ (FwNat.exampleContext setup) (⟨0, by decide⟩ : Fin 1) rfl
      natFlow_fits natFlow_lawful rfl natFlow p natArrival _ p' flow
    refine ⟨setup, p, p', state, flow, stored, ?_⟩
    intro counted
    have many := iff.mp counted
    simp [flowOf, FwNat.flowSizeThreshold] at many

end Example
end Nfos
