import Nfos.FwDevices
import Nfos.ParsedPackets
import Nfos.FlowAccumulators

/-! The policy of the firewall over whole runs. The packets of batches and the sweeps are
events of a table of flows with their devices. -/
namespace Nfos.Fw
open Function DataPlane PktSetManager ConcurrentDoubleChain Retry Run

/-- What is seen of a core: a packet with its device, whether its flow was registered when it
was handled, and the device that was reported for it; or the flows that a sweep removed. -/
inductive Event where
  | received (device : Nat) (pkt : Pkt) (known : Bool) (dst : Nat)
  | expired (ids : List PktSetId)

/-- The flow of a packet. -/
def flowOf (setup : Setup) (pkt : Pkt) (device : Nat) : PktSetId := (nfPktDispatcher setup pkt device).pktSetId

section Table
variable {setup : Setup} {A A' : PktSetId → Option Nat}

/-- The table behind an event. The flag says whether the packet registers its flow. -/
def Event.after (setup : Setup) (A : PktSetId → Option Nat) : Event × Bool → PktSetId → Option Nat
  | (.received device pkt _ _, registers) => if registers then update A (flowOf setup pkt device) (some device) else A
  | (.expired ids, _) => fun id => if id ∈ ids then none else A id

/-- What the policy allows: only packets from the LAN register flows, and a packet from the WAN
goes to the device of its flow, or is dropped. -/
def Allowed (setup : Setup) (A : PktSetId → Option Nat) : Event × Bool → Prop
  | (.received device pkt known dst, registers) => known = (A (flowOf setup pkt device)).isSome ∧
      (registers = true → device ≠ setup.wanDevice ∧ known = false) ∧
      (device = setup.wanDevice → dst = (A (flowOf setup pkt device)).getD device)
  | (.expired _, registers) => registers = false

/-- A run of the table. -/
def Obeys (setup : Setup) (A : PktSetId → Option Nat) (e : Event × Bool) (A' : PktSetId → Option Nat) : Prop :=
  Allowed setup A e ∧ A' = Event.after setup A e

/-- Some packet from the LAN has registered the flow, and no sweep has removed it since. -/
def RegisteredBy (setup : Setup) (history : List (Event × Bool)) (id : PktSetId) (device : Nat) : Prop :=
  ∃ before pkt dst later, history = before ++ (.received device pkt false dst, true) :: later ∧ flowOf setup pkt device = id ∧
    device ≠ setup.wanDevice ∧ ∀ ids registers, (Event.expired ids, registers) ∈ later → id ∉ ids

theorem registeredBy_snoc {history : List (Event × Bool)} {id : PktSetId} {device : Nat} {e : Event × Bool} :
    RegisteredBy setup (history ++ [e]) id device ↔
      (∃ pkt dst, e = (.received device pkt false dst, true) ∧ flowOf setup pkt device = id ∧ device ≠ setup.wanDevice) ∨
      RegisteredBy setup history id device ∧ ∀ ids registers, e = (.expired ids, registers) → id ∉ ids := by
  constructor
  · rintro ⟨before, pkt, dst, later, split, flow, lan, remains⟩
    rcases List.eq_nil_or_concat later with rfl | ⟨rest, last, rfl⟩
    · obtain ⟨_, same⟩ := List.append_inj' split rfl
      exact .inl ⟨pkt, dst, List.singleton_inj.mp same, flow, lan⟩
    · rw [List.concat_eq_append, ← List.cons_append, ← List.append_assoc] at split
      rw [List.concat_eq_append] at remains
      obtain ⟨rfl, same⟩ := List.append_inj' split rfl
      obtain rfl := List.singleton_inj.mp same
      refine .inr ⟨⟨before, pkt, dst, rest, rfl, flow, lan, fun ids registers member => ?_⟩, fun ids registers equal => ?_⟩
      · exact remains ids registers (List.mem_append_left _ member)
      · exact remains ids registers (by simp [equal])
  · rintro (⟨pkt, dst, rfl, flow, lan⟩ | ⟨⟨before, pkt, dst, later, rfl, flow, lan, remains⟩, kept⟩)
    · exact ⟨history, pkt, dst, [], rfl, flow, lan, fun _ _ member => absurd member List.not_mem_nil⟩
    · refine ⟨before, pkt, dst, later ++ [e], by simp, flow, lan, fun ids registers member => ?_⟩
      rcases List.mem_append.mp member with old | new
      · exact remains ids registers old
      · exact kept ids registers (List.mem_singleton.mp new).symm

/-- The table of a run has the flows that were registered and not removed since. -/
theorem table_iff {history : List (Event × Bool)} (run : Trace (Obeys setup) (fun _ => none) history A) (id : PktSetId)
    (device : Nat) : A id = some device ↔ RegisteredBy setup history id device := by
  refine run.rule (P := fun history A => ∀ id device, A id = some device ↔ RegisteredBy setup history id device) ?_ ?_ id device
  · intro id device
    constructor
    · intro found
      contradiction
    · rintro ⟨before, pkt, dst, later, split, _⟩
      simp at split
  · rintro past A ⟨e, registers⟩ _ _ ih ⟨allowed, rfl⟩ id device
    rw [registeredBy_snoc, ← ih id device]
    cases e with
    | expired ids =>
      change (if id ∈ ids then none else A id) = some device ↔ _
      split_ifs with removed
      · constructor
        · intro found
          contradiction
        · rintro (⟨pkt, dst, equal, _⟩ | ⟨_, kept⟩)
          · simp at equal
          · exact absurd removed (kept ids registers rfl)
      · constructor
        · refine fun found => .inr ⟨found, fun ids' _ equal => ?_⟩
          obtain ⟨same, _⟩ := Prod.mk.inj equal
          rwa [← Event.expired.inj same]
        · rintro (⟨pkt, dst, equal, _⟩ | ⟨found, _⟩)
          · simp at equal
          · exact found
    | received dev pkt known dst =>
      obtain ⟨answer, registering, _⟩ := allowed
      cases registers with
      | false =>
        change A id = some device ↔ _
        constructor
        · exact fun found => .inr ⟨found, fun _ _ equal => by simp at equal⟩
        · rintro (⟨_, _, equal, _⟩ | ⟨found, _⟩)
          · simp at equal
          · exact found
      | true =>
        obtain ⟨lan, rfl⟩ := registering rfl
        have missing : A (flowOf setup pkt dev) = none := by simpa using answer
        change update A (flowOf setup pkt dev) (some dev) id = some device ↔ _
        by_cases here : id = flowOf setup pkt dev
        · subst here
          rw [update_self, missing]
          constructor
          · intro same
            obtain rfl := Option.some.inj same
            exact .inl ⟨pkt, dst, rfl, rfl, lan⟩
          · rintro (⟨_, _, equal, _, _⟩ | ⟨found, _⟩)
            · obtain ⟨same, _⟩ := Prod.mk.inj equal
              rw [(Event.received.inj same).1]
            · contradiction
        · rw [update_of_ne here]
          constructor
          · exact fun found => .inr ⟨found, fun _ _ equal => by simp at equal⟩
          · rintro (⟨_, _, equal, flow, _⟩ | ⟨found, _⟩)
            · obtain ⟨same, _⟩ := Prod.mk.inj equal
              obtain ⟨rfl, rfl, _⟩ := Event.received.inj same
              exact absurd flow.symm here
            · exact found

end Table

section Packets
variable {Ω G P S Id B : Type} {ctx : Context Ω G P S Id B} {b : Batch Id} {c c' : Cursor Ω G P S Id} {i : Nat}

/-- Whether the packet set of a packet was registered when its committed handler was called. -/
def knownAt (i : Nat) (history : List (Invocation × Bool)) : Bool :=
  history.any fun v => v.2 && v.1.position == i && v.1.registered

theorem knownAt_append (i : Nat) (h k : List (Invocation × Bool)) : knownAt i (h ++ k) = (knownAt i h || knownAt i k) :=
  List.any_append

theorem knownAt_eq_false {history : List (Invocation × Bool)} (absent : ∀ v ∈ history, v.1.position ≠ i) : knownAt i history = false := by
  rw [knownAt, List.any_eq_false]
  intro v member
  simp [absent v member]

/-- The packets that have been handled are left alone by a turn of the loop. -/
theorem handled_stable (inv : AtCursor ctx b c) (within : c.n < b.batchSize) (ran : handleNext ctx b c = some c') (before : i < c.n) :
    knownAt i c'.plane.history = knownAt i c.plane.history ∧ c'.plane.dstDevices i = c.plane.dstDevices i := by
  obtain ⟨new, history, later⟩ := handleNext_extends inv within ran
  have inv' := handleNext_atCursor inv within ran
  have apart : ∀ v ∈ new, v.1.position ≠ i := by
    intro v member
    exact Nat.ne_of_gt (lt_of_lt_of_le before (mem_parsedIn.mp (later v member).1).1)
  constructor
  · rw [history, knownAt_append, knownAt_eq_false apart, Bool.or_false]
  · have none : invocationsAt i (new.map Prod.fst) = [] := by
      apply invocationsAt_eq_nil
      intro w member
      obtain ⟨v, inside, rfl⟩ := List.mem_map.mp member
      exact apart v inside
    rw [inv'.progress.destination i (before.trans within), inv.progress.destination i (before.trans within), history, List.map_append,
      invocationsAt_append, none, List.append_nil]

/-- The flows of the packets of a turn were registered if and only if that of the first one was. -/
theorem handled_known (inv : AtCursor ctx b c) (within : c.n < b.batchSize) (ran : handleNext ctx b c = some c')
    (handled : i ∈ parsedIn b c.n c'.n) : knownAt i c'.plane.history = c.regPktSet := by
  obtain ⟨new, history, later⟩ := handleNext_extends inv within ran
  have inv' := handleNext_atCursor inv within ran
  obtain ⟨low, high, parsed⟩ := mem_parsedIn.mp handled
  obtain ⟨earlier, last, ended, _⟩ := inv'.progress.shape i high parsed
  have final : (last, true) ∈ endedAt i c'.plane.history := by simp [ended]
  obtain ⟨member, position⟩ := List.mem_filter.mp final
  have kind := (inv'.progress.kinds _ member).registered
  have branch : last.branch = if c.regPktSet then .registered else .unknown := by
    rw [history] at member
    rcases List.mem_append.mp member with old | inside
    · have below : last.position < c.n := inv.progress.below _ old
      have here : last.position = i := of_decide_eq_true position
      omega
    · exact (later _ inside).2
  have answer : knownAt i c'.plane.history = last.registered := by
    have whole : knownAt i c'.plane.history = (endedAt i c'.plane.history).any fun v => v.2 && v.1.registered := by
      rw [knownAt, endedAt, List.any_filter]
      congr 1
      funext v
      cases v.2 <;> simp [Bool.beq_eq_decide_eq, Bool.and_comm]
    rw [whole, ended]
    simp
  rw [answer]
  cases registered : c.regPktSet with
  | true =>
    simp only [registered, if_true] at branch
    simpa [branch] using kind
  | false =>
    simp only [registered, Bool.false_eq_true, if_false] at branch
    simpa [branch] using kind

end Packets

section Batches
variable {B : Type} {setup : Setup} {headers : B → Bool × Pkt} {ctx : Context Unit Unit Pkt PktSetState PktSetId B}
variable {core : Fin ctx.cfg.numCores} {b : Batch PktSetId} {c c' u : Cursor Unit Unit Pkt PktSetState PktSetId}
variable {pkts : Nat → Pkt} {A A₀ : PktSetId → Option Nat} {marks : Nat → Bool}

/-- The events of the packets at some positions. -/
def eventsOf (device : Nat) (pkts : Nat → Pkt) (p : Plane Unit Pkt PktSetState PktSetId) (l : List Nat) : List Event :=
  l.map fun i => .received device (pkts i) (knownAt i p.history) (p.dstDevices i)

/-- The same with the flags of the packets that register their flows. -/
def marked (device : Nat) (pkts : Nat → Pkt) (p : Plane Unit Pkt PktSetState PktSetId) (marks : Nat → Bool) (l : List Nat) :
    List (Event × Bool) :=
  l.map fun i => (.received device (pkts i) (knownAt i p.history) (p.dstDevices i), marks i)

/-- The device of a flow is that in the slot of a packet. -/
def InSlot (b : Batch PktSetId) (p : Plane Unit Pkt PktSetState PktSetId) (A : PktSetId → Option Nat) (i : Nat) : Prop :=
  A (b.dispatch i).pktSetId = some (p.manager.pktSetState (p.pktSetState i)).internalDevice

theorem lookup_devices (fits : ctx.cfg.Fits) (lawful : ctx.cfg.Lawful) (here : ctx.pktSetPartition = core.val)
    (admits : Admits ctx.cfg core c.plane.manager A) (ran : lookup ctx b c = some c') :
    Admits ctx.cfg core c'.plane.manager A ∧ c'.plane.manager.pktSetState = c.plane.manager.pktSetState ∧
      (c.n < b.batchSize → c'.regPktSet = true → InSlot b c'.plane A c.n) := by
  unfold lookup at ran
  split at ran
  · rename_i within
    simp only [Option.bind_eq_bind, Option.bind_eq_some_iff] at ran
    obtain ⟨⟨slot, manager⟩, found, ran⟩ := ran
    obtain ⟨admits', states, device⟩ := admits.lookup fits lawful here found
    cases slot with
    | none =>
      obtain rfl := Option.some.inj ran
      exact ⟨admits', states, fun _ registered => nomatch registered⟩
    | some slot =>
      obtain rfl := Option.some.inj ran
      refine ⟨admits', states, fun _ _ => ?_⟩
      simpa [InSlot, states] using device
  · rename_i outside
    obtain rfl := Option.some.inj ran
    exact ⟨admits, rfl, fun within => absurd within outside⟩

/-- The lookups ahead find the slots of their flows. -/
theorem lookAhead_devices (fits : ctx.cfg.Fits) (lawful : ctx.cfg.Lawful) (here : ctx.pktSetPartition = core.val)
    (inv : AtCursor ctx b c) (admits : Admits ctx.cfg core c.plane.manager A)
    (slot : c.n < b.batchSize → c.regPktSet = true → InSlot b c.plane A c.n)
    (ran : Loop.loop (fun c => c.regPktSet) (advance ctx b) b.batchSize c = some u) :
    Admits ctx.cfg core u.plane.manager A ∧ ∀ i ∈ parsedIn b c.n u.n, InSlot b u.plane A i := by
  have empty : parsedIn b c.n c.n = [] := parsedIn_eq_nil fun i low high => by omega
  obtain ⟨⟨_, admits', slots, _⟩, _⟩ := Loop.loop_rule (fun u => Ahead ctx b c u ∧ Admits ctx.cfg core u.plane.manager A ∧
      (∀ i ∈ parsedIn b c.n u.n, InSlot b u.plane A i) ∧ (u.n < b.batchSize → u.regPktSet = true → InSlot b u.plane A u.n)) (by
    rintro v w ⟨ahead, admits, slots, last⟩ more stepped
    have answer := ahead.answer
    rw [more, eq_comm, Bool.and_eq_true, decide_eq_true_eq] at answer
    have within := answer.1
    have looked := lookup_looked stepped
    have next := nextPkt_next b v.n
    obtain ⟨admits', states, found⟩ := lookup_devices (c := { v with n := nextPkt b v.n }) fits lawful here admits stepped
    have kept : ∀ i, i ≠ nextPkt b v.n → InSlot b v.plane A i → InSlot b w.plane A i := by
      intro i other inSlot
      rw [InSlot, states, lookup_slots stepped other]
      exact inSlot
    refine ⟨ahead.step more stepped, admits', fun i member => ?_, fun inside registered => ?_⟩
    · have above := next.above
      rw [looked.n, ← parsedIn_append ahead.above (by dsimp only; omega),
        parsedIn_cons (show v.n < nextPkt b v.n by omega) (ahead.parsed within), parsedIn_eq_nil next.skipped] at member
      rcases List.mem_append.mp member with old | new
      · exact kept i (Nat.ne_of_lt ((mem_parsedIn.mp old).2.1.trans above)) (slots i old)
      · obtain rfl := List.mem_singleton.mp new
        exact kept v.n (Nat.ne_of_lt above) (last within more)
    · rw [looked.n] at inside ⊢
      exact found inside registered) ⟨inv.ahead, admits, by simp [empty], slot⟩ ran
  exact ⟨admits', slots⟩

/-- The loop over a batch obeys the policy, up to the cursor. -/
structure Policed (setup : Setup) (ctx : Context Unit Unit Pkt PktSetState PktSetId B) (core : Fin ctx.cfg.numCores) (b : Batch PktSetId)
    (pkts : Nat → Pkt) (A₀ : PktSetId → Option Nat) (c : Cursor Unit Unit Pkt PktSetState PktSetId) : Prop where
  inv : AtCursor ctx b c
  table : ∃ marks A, Trace (Obeys setup) A₀ (marked ctx.device pkts c.plane marks (parsedIn b 0 c.n)) A ∧
    Admits ctx.cfg core c.plane.manager A ∧ (c.n < b.batchSize → c.regPktSet = true → InSlot b c.plane A c.n)

/-- Packets of known flows leave the table. -/
theorem obeys_known {p : Plane Unit Pkt PktSetState PktSetId} {l : List Nat} {history : List (Event × Bool)}
    (run : Trace (Obeys setup) A₀ history A)
    (known : ∀ i ∈ l, knownAt i p.history = true ∧ (A (flowOf setup (pkts i) ctx.device)).isSome ∧
      (ctx.device = setup.wanDevice → A (flowOf setup (pkts i) ctx.device) = some (p.dstDevices i))) :
    Trace (Obeys setup) A₀ (history ++ marked ctx.device pkts p (fun _ => false) l) A := by
  refine run.append ?_
  have all : ∀ k : List Nat, (∀ i ∈ k, i ∈ l) → Trace (Obeys setup) A (marked ctx.device pkts p (fun _ => false) k) A := by
    intro k
    induction k using List.reverseRecOn with
    | nil => exact fun _ => .start
    | append_singleton k i ih =>
      intro inside
      obtain ⟨flag, present, wan⟩ := known i (inside i (by simp))
      rw [marked, List.map_append]
      refine (ih fun j member => inside j (by simp [member])).extend ⟨⟨?_, ?_, ?_⟩, rfl⟩
      · rw [flag, present]
      · intro registers
        contradiction
      · intro isWan
        rw [wan isWan]
        rfl
  exact all l fun _ member => member

theorem marked_append (device : Nat) (p : Plane Unit Pkt PktSetState PktSetId) (marks : Nat → Bool) (l k : List Nat) :
    marked device pkts p marks (l ++ k) = marked device pkts p marks l ++ marked device pkts p marks k := List.map_append

theorem marked_congr {p q : Plane Unit Pkt PktSetState PktSetId} {marks' : Nat → Bool} {l : List Nat} {device : Nat}
    (same : ∀ i ∈ l, knownAt i q.history = knownAt i p.history ∧ q.dstDevices i = p.dstDevices i ∧ marks' i = marks i) :
    marked device pkts q marks' l = marked device pkts p marks l := by
  refine List.map_congr_left fun i member => ?_
  obtain ⟨known, dst, mark⟩ := same i member
  rw [known, dst, mark]

/-- A turn for a packet whose flow is unknown. -/
theorem handleUnknown_obeys (isFw : ctx.nf = nf setup headers) (fits : ctx.cfg.Fits) (lawful : ctx.cfg.Lawful)
    (eq : ctx.cfg.pktSetIdEq = pktSetIdEq) (here : ctx.pktSetPartition = core.val)
    (flows : ∀ i < b.batchSize, b.dispatch i = nfPktDispatcher setup (pkts i) ctx.device)
    (inv : AtCursor ctx b c) (within : c.n < b.batchSize) (unregistered : c.regPktSet = false)
    (admits : Admits ctx.cfg core c.plane.manager A) (ran : handleNext ctx b c = some c') :
    ∃ registers A', Trace (Obeys setup) A (marked ctx.device pkts c'.plane (fun _ => registers) (parsedIn b c.n c'.n)) A' ∧
      Admits ctx.cfg core c'.plane.manager A' ∧ (c'.n < b.batchSize → c'.regPktSet = true → InSlot b c'.plane A' c'.n) := by
  have known (i : Nat) (handled : i ∈ parsedIn b c.n c'.n) := handled_known inv within ran handled
  have flow : (b.dispatch c.n).pktSetId = flowOf setup (pkts c.n) ctx.device := by rw [flows c.n within, flowOf]
  have answer := inv.answer
  rw [unregistered, decide_eq_true within, Bool.true_and, admits.isRegistered fits lawful here, eq_comm, Option.isSome_eq_false_iff,
    Option.isNone_iff_eq_none] at answer
  simp only [handleNext, unregistered, Bool.not_false, if_true, handleUnknown, Option.bind_eq_bind, Option.bind_eq_some_iff] at ran
  obtain ⟨⟨p, rest⟩, retried, manager, stored, ran⟩ := ran
  obtain ⟨m, outcome, same, left, dropped, added⟩ := retryUnknown_devices isFw retried
  have looked := lookup_looked ran
  have next := nextPkt_next b c.n
  have single : parsedIn b c.n c'.n = [c.n] := by
    rw [looked.n, parsedIn_cons next.above (inv.parsed within), parsedIn_eq_nil next.skipped]
  have dst : c'.plane.dstDevices c.n = p.dstDevice := by
    rw [looked.dstDevices]
    exact update_self ..
  have answered : knownAt c.n c'.plane.history = false := by
    rw [known c.n (by simp [single]), unregistered]
  rw [single]
  have allowed (registers : Bool) (lan : registers = true → ctx.device ≠ setup.wanDevice) :
      Allowed setup A (.received ctx.device (pkts c.n) (knownAt c.n c'.plane.history) (c'.plane.dstDevices c.n), registers) := by
    refine ⟨?_, fun register => ⟨lan register, answered⟩, fun isWan => ?_⟩
    · rw [answered, ← flow, answer]
      rfl
    · rw [dst, ← flow, answer, dropped isWan]
      rfl
  rw [left, here] at stored
  rcases (admits.of_same same).commit fits lawful eq here answer stored with unchanged | ⟨state, related, logged, changed⟩
  · obtain ⟨admits', _, slot⟩ := lookup_devices (c := ⟨nextPkt b c.n, c.regPktSet, { p with
      manager := manager, dstDevices := update p.dstDevices c.n p.dstDevice }, rest⟩) fits lawful here unchanged ran
    rw [looked.n]
    exact ⟨false, A, Trace.start.extend ⟨allowed false (fun register => absurd register Bool.false_ne_true), rfl⟩, admits', slot⟩
  · obtain ⟨lan, device⟩ := added state related logged
    obtain ⟨admits', _, slot⟩ := lookup_devices (c := ⟨nextPkt b c.n, c.regPktSet, { p with
      manager := manager, dstDevices := update p.dstDevices c.n p.dstDevice }, rest⟩) fits lawful here changed ran
    rw [looked.n]
    refine ⟨true, _, Trace.start.extend ⟨allowed true fun _ => lan, ?_⟩, admits', slot⟩
    rw [device, flow]
    rfl

/-- A turn for packets whose flows are known. -/
theorem handleRegistered_obeys (isFw : ctx.nf = nf setup headers) (fits : ctx.cfg.Fits) (lawful : ctx.cfg.Lawful)
    (here : ctx.pktSetPartition = core.val)
    (flows : ∀ i < b.batchSize, b.dispatch i = nfPktDispatcher setup (pkts i) ctx.device)
    (inv : AtCursor ctx b c) (within : c.n < b.batchSize) (registered : c.regPktSet = true)
    (admits : Admits ctx.cfg core c.plane.manager A)
    (slot : c.n < b.batchSize → c.regPktSet = true → InSlot b c.plane A c.n) (ran : handleNext ctx b c = some c') :
    Trace (Obeys setup) A (marked ctx.device pkts c'.plane (fun _ => false) (parsedIn b c.n c'.n)) A ∧
      Admits ctx.cfg core c'.plane.manager A ∧ c'.regPktSet = false := by
  have known (i : Nat) (handled : i ∈ parsedIn b c.n c'.n) := handled_known inv within ran handled
  simp only [handleNext, registered, Bool.not_true, Bool.false_eq_true, if_false, handleRegistered, Option.bind_eq_bind,
    Option.bind_eq_some_iff, Option.pure_def, Option.some.injEq] at ran
  obtain ⟨u, looked, ⟨p, rest⟩, retried, rfl⟩ := ran
  obtain ⟨ahead, stopped⟩ := lookAhead_ahead inv looked
  obtain ⟨admits', slots⟩ := lookAhead_devices fits lawful here inv admits slot looked
  have range := positions_eq (ahead.further inv registered stopped) (inv.parsed within) ahead.bound (Nat.le_add_left_of_le ahead.bound)
  obtain ⟨same, wan⟩ := retryRegistered_devices isFw (range ▸ nodup_parsedIn) retried
  rw [range] at wan
  refine ⟨?_, admits'.of_same same, stopped⟩
  refine obeys_known .start fun i member => ?_
  have flow : (b.dispatch i).pktSetId = flowOf setup (pkts i) ctx.device := by
    have inside := (mem_parsedIn.mp member).2.1
    rw [flows i (Nat.lt_of_lt_of_le inside ahead.bound), flowOf]
  have device := slots i member
  rw [InSlot, flow] at device
  refine ⟨by rw [known i member, registered], by rw [device]; rfl, fun isWan => ?_⟩
  rw [device]
  exact congrArg some (wan isWan i member).symm

theorem Policed.next (policed : Policed setup ctx core b pkts A₀ c) (isFw : ctx.nf = nf setup headers) (fits : ctx.cfg.Fits)
    (lawful : ctx.cfg.Lawful) (eq : ctx.cfg.pktSetIdEq = pktSetIdEq) (here : ctx.pktSetPartition = core.val)
    (flows : ∀ i < b.batchSize, b.dispatch i = nfPktDispatcher setup (pkts i) ctx.device) (within : c.n < b.batchSize)
    (ran : handleNext ctx b c = some c') : Policed setup ctx core b pkts A₀ c' := by
  obtain ⟨inv, marks, A, run, admits, slot⟩ := policed
  have inv' := handleNext_atCursor inv within ran
  have turn : ∃ registers A', Trace (Obeys setup) A (marked ctx.device pkts c'.plane (fun _ => registers) (parsedIn b c.n c'.n)) A' ∧
      Admits ctx.cfg core c'.plane.manager A' ∧ (c'.n < b.batchSize → c'.regPktSet = true → InSlot b c'.plane A' c'.n) := by
    cases registered : c.regPktSet with
    | false => exact handleUnknown_obeys isFw fits lawful eq here flows inv within registered admits ran
    | true =>
      obtain ⟨obeys, admits', stopped⟩ := handleRegistered_obeys isFw fits lawful here flows inv within registered admits slot ran
      exact ⟨false, A, obeys, admits', fun _ again => absurd (stopped.symm.trans again) (by simp)⟩
  obtain ⟨registers, A', obeys, admits', slot'⟩ := turn
  refine ⟨inv', fun i => if i < c.n then marks i else registers, A', ?_, admits', slot'⟩
  have range := parsedIn_append (b := b) (Nat.zero_le c.n) (handleNext_further inv ran).le
  have front : marked ctx.device pkts c'.plane (fun i => if i < c.n then marks i else registers) (parsedIn b 0 c.n) =
      marked ctx.device pkts c.plane marks (parsedIn b 0 c.n) := by
    refine marked_congr fun i member => ?_
    have before := (mem_parsedIn.mp member).2.1
    obtain ⟨known, dst⟩ := handled_stable inv within ran before
    exact ⟨known, dst, if_pos before⟩
  have back : marked ctx.device pkts c'.plane (fun i => if i < c.n then marks i else registers) (parsedIn b c.n c'.n) =
      marked ctx.device pkts c'.plane (fun _ => registers) (parsedIn b c.n c'.n) := by
    refine marked_congr fun i member => ⟨rfl, rfl, ?_⟩
    exact if_neg (Nat.not_lt_of_le (mem_parsedIn.mp member).1)
  rw [← range, marked_append, front, back]
  exact run.append obeys

/-- A batch obeys the policy. -/
theorem handleBatch_obeys (isFw : ctx.nf = nf setup headers) (fits : ctx.cfg.Fits) (lawful : ctx.cfg.Lawful)
    (eq : ctx.cfg.pktSetIdEq = pktSetIdEq) (here : ctx.pktSetPartition = core.val)
    (flows : ∀ i < b.batchSize, b.dispatch i = nfPktDispatcher setup (pkts i) ctx.device)
    (stateful : (b.dispatch 0).hasPktSetState = true) {p p' : Plane Unit Pkt PktSetState PktSetId}
    {attempts rest : List (Attempt Unit Unit)} (idle : p.running = []) (fresh : p.history = [])
    (dropped : ∀ i < b.batchSize, p.dstDevices i = ctx.device) (admits : Admits ctx.cfg core p.manager A₀)
    (ran : handleBatch ctx b attempts p = some (p', rest)) :
    ∃ marks A, Trace (Obeys setup) A₀ (marked ctx.device pkts p' marks (parsedIn b 0 b.batchSize)) A ∧
      Admits ctx.cfg core p'.manager A := by
  simp only [handleBatch, stateful, Bool.not_true, Bool.false_eq_true, if_false, Option.bind_eq_bind,
    Option.bind_eq_some_iff, Option.pure_def, Option.some.injEq, Prod.mk.injEq] at ran
  obtain ⟨c, looked, u, looped, rfl, rfl⟩ := ran
  have none : Progress ctx b (Proper b) 0 p := by
    constructor <;> simp [idle, fresh, parsedIn]
    exact dropped
  have first := firstPkt_next b
  have same := lookup_looked looked
  have start : Policed setup ctx core b pkts A₀ c := by
    obtain ⟨admits', _, slot⟩ := lookup_devices (c := ⟨firstPkt b, false, p, attempts⟩) fits lawful here admits looked
    refine ⟨same.atCursor first (Nat.zero_le _) none, fun _ => false, A₀, ?_, admits', ?_⟩
    · rw [same.n, parsedIn_eq_nil first.skipped]
      exact .start
    · rw [same.n]
      exact slot
  obtain ⟨⟨inv, marks, A, run, admits', _⟩, stopped⟩ := Loop.loop_rule (Policed setup ctx core b pkts A₀)
    (fun v w policed more stepped => policed.next isFw fits lawful eq here flows (of_decide_eq_true more) stepped) start looped
  have ended := of_decide_eq_false stopped
  have bound := inv.bound
  rw [show u.n = b.batchSize by omega] at run
  exact ⟨marks, A, run, admits'⟩

end Batches

section Runs
variable {B : Type} {setup : Setup} {headers : B → Bool × Pkt} {ctx : Context Unit Unit Pkt PktSetState PktSetId B}
variable {core : Fin ctx.cfg.numCores}

/-- What a core does for its partition: it processes a batch from a device, with any aborts, or
it deletes the expired flows. -/
inductive Step (ctx : Context Unit Unit Pkt PktSetState PktSetId B) :
    Plane Unit Pkt PktSetState PktSetId → List Event → Plane Unit Pkt PktSetState PktSetId → Prop where
  | batch {p p' rest} (device : Nat) (now : Int) (mbufs : Nat → B) (batchSize : Nat) (attempts : List (Attempt Unit Unit)) :
      processPkts { ctx with device := device, now := now } mbufs batchSize attempts p = some (p', rest) →
      Step ctx p (eventsOf device (fun i => (ctx.nf.nfPktParser (mbufs i)).2) p' (parsedPkts ctx mbufs batchSize)) p'
  | sweep {p gone m'} (handler : Nat → ExpiredRuns PktSetState) (time : Int) :
      deleteExpiredPktSets ctx.cfg handler time ctx.pktSetPartition p.manager = some (gone, m') →
      Step ctx p [.expired (gone.map Expired.id)] { p with manager := m' }

/-- The policy for a packet, after some events with the flags of those that registered flows. -/
def Conforms (setup : Setup) (past : List (Event × Bool)) : Event × Bool → Prop
  | (.received device pkt known dst, registers) =>
    (known = true ↔ ∃ d, RegisteredBy setup past (flowOf setup pkt device) d) ∧
    (device = setup.wanDevice → registers = false ∧ (1 < pkt.timeToLive → (dst ≠ device ↔ known = true) ∧
      ∀ d, RegisteredBy setup past (flowOf setup pkt device) d → dst = d))
  | (.expired _, registers) => registers = false

theorem Allowed.conforms {past : List (Event × Bool)} {A : PktSetId → Option Nat} {e : Event × Bool} (allowed : Allowed setup A e)
    (run : Trace (Obeys setup) (fun _ => none) past A) : Conforms setup past e := by
  obtain ⟨e, registers⟩ := e
  cases e with
  | expired ids => exact allowed
  | received device pkt known dst =>
    obtain ⟨answer, registering, wan⟩ := allowed
    have present : known = true ↔ ∃ d, RegisteredBy setup past (flowOf setup pkt device) d := by
      simp only [answer, Option.isSome_iff_exists, table_iff run]
    refine ⟨present, fun isWan => ⟨?_, fun _ => ?_⟩⟩
    · cases registers with
      | false => rfl
      | true => exact absurd isWan (registering rfl).1
    · have sent : ∀ d, RegisteredBy setup past (flowOf setup pkt device) d → dst = d := by
        intro d registered
        rw [wan isWan, (table_iff run _ _).mpr registered]
        rfl
      refine ⟨⟨fun transmitted => ?_, fun isKnown => ?_⟩, sent⟩
      · cases found : A (flowOf setup pkt device) with
        | none => exact absurd (by rw [wan isWan, found]; rfl) transmitted
        | some d => simp [answer, found]
      · obtain ⟨d, registered⟩ := present.mp isKnown
        rw [sent d registered]
        obtain ⟨_, _, _, _, _, _, lan, _⟩ := registered
        exact fun same => lan (same.trans isWan)

theorem nfPktDispatcher_stateful (setup : Setup) (pkt : Pkt) (device : Nat) :
    (nfPktDispatcher setup pkt device).hasPktSetState = true := by
  unfold nfPktDispatcher
  split <;> rfl

/-- A turn of the core obeys the policy. -/
theorem step_obeys {p p' : Plane Unit Pkt PktSetState PktSetId} {es : List Event} {A : PktSetId → Option Nat}
    (isFw : ctx.nf = nf setup headers) (fits : ctx.cfg.Fits) (lawful : ctx.cfg.Lawful) (eq : ctx.cfg.pktSetIdEq = pktSetIdEq)
    (here : ctx.pktSetPartition = core.val) (admits : Admits ctx.cfg core p.manager A) (step : Step ctx p es p') :
    ∃ marked A', marked.map Prod.fst = es ∧ Trace (Obeys setup) A marked A' ∧ Admits ctx.cfg core p'.manager A' := by
  cases step with
  | batch device now mbufs batchSize attempts ran =>
    have dispatch : ∀ i, (parseBatch { ctx with device := device, now := now } mbufs batchSize).dispatch i =
        nfPktDispatcher setup (ctx.nf.nfPktParser (mbufs i)).2 device := by
      intro i
      rw [parseBatch, isFw]
      rfl
    have stateful := nfPktDispatcher_stateful setup (ctx.nf.nfPktParser (mbufs 0)).2 device
    rw [← dispatch] at stateful
    have turn : ({ ctx with device := device, now := now } : Context ..).nf = nf setup headers := isFw
    obtain ⟨marks, A', run, admits'⟩ := handleBatch_obeys turn fits lawful eq here (fun i _ => dispatch i) stateful
      rfl rfl (fun i within => if_pos within) (by exact admits) ran
    refine ⟨_, A', ?_, run, admits'⟩
    have positions : parsedIn (parseBatch { ctx with device := device, now := now } mbufs batchSize) 0 batchSize =
        parsedPkts ctx mbufs batchSize := by
      rw [parsedIn, parsedPkts, List.range_eq_range', Nat.sub_zero]
      rfl
    rw [marked, List.map_map, eventsOf, ← positions]
    rfl
  | sweep handler time ran =>
    rw [here] at ran
    exact ⟨[(.expired _, false)], _, rfl, Trace.start.extend ⟨rfl, rfl⟩, admits.sweep fits lawful eq ran⟩

/-- In every run of a core of `fw`, a flow is registered if and only if a packet from the LAN
has registered it and no sweep has removed it since. A packet from the WAN never registers a
flow; with a time to live above 1 it is sent if and only if its flow is registered, and then to
the device of the packet that registered the flow. -/
theorem firewall_policy {crc32si : Nat → Nat → Nat} (isFw : ctx.nf = nf setup headers) (keyed : Keyed crc32si ctx.cfg)
    (fits : ctx.cfg.Fits) (here : ctx.pktSetPartition = core.val) {memory init : Manager PktSetId PktSetState}
    (started : initPktSetManager ctx.cfg memory = some init) {start p : Plane Unit Pkt PktSetState PktSetId}
    (fresh : start.manager = init) {history : List (List Event)} (run : Trace (Step ctx) start history p) :
    ∃ marked : List (Event × Bool), marked.map Prod.fst = history.flatten ∧
      (∀ past e later, marked = past ++ e :: later → Conforms setup past e) ∧
      ∀ id, isRegistered ctx id p.manager = true ↔ ∃ device, RegisteredBy setup marked id device := by
  have lawful := keyed.lawful
  obtain ⟨init', again, coherent⟩ := init_coherent fits memory
  obtain rfl := Option.some.inj (started.symm.trans again)
  have initial : Admits ctx.cfg core start.manager fun _ => none := by
    refine ⟨fun _ _ => none, ⟨_, _, fresh ▸ coherent, fun q id slot state => ?_⟩, fun _ => rfl⟩
    simp [initialLists]
  obtain ⟨marked, A, events, obeys, admits⟩ := run.rule
    (P := fun history p => ∃ marked A, marked.map Prod.fst = history.flatten ∧ Trace (Obeys setup) (fun _ => none) marked A ∧
      Admits ctx.cfg core p.manager A) ⟨[], _, rfl, .start, initial⟩ (by
    rintro past q es r _ ⟨marked, A, events, obeys, admits⟩ step
    obtain ⟨more, A', same, obeys', admits'⟩ := step_obeys isFw fits lawful keyed.eq here admits step
    exact ⟨marked ++ more, A', by simp [events, same], obeys.append obeys', admits'⟩)
  refine ⟨marked, events, fun past e later split => ?_, fun id => ?_⟩
  · rw [split, List.append_cons] at obeys
    obtain ⟨_, before, _⟩ := obeys.split
    obtain ⟨A₁, before, single⟩ := before.split
    exact single.single.1.conforms before
  · simp only [admits.isRegistered fits lawful here, Option.isSome_iff_exists, table_iff obeys]

end Runs

section Example

/-- The answer to the packet with the flag SYN. -/
def replyPacket : Pkt :=
  { synPacket with srcAddr := synPacket.dstAddr, dstAddr := synPacket.srcAddr, srcPort := synPacket.dstPort, dstPort := synPacket.srcPort }

def dialogHeaders (reply : Bool) : Bool × Pkt := (true, if reply then replyPacket else synPacket)

def dialogContext : Context Unit Unit Pkt PktSetState PktSetId Bool :=
  ⟨nf fwSetup dialogHeaders, ⟨1, 1, pktSetIdEq, pktSetIdHash fun _ _ => 0, 0, false⟩, false, 0, 0, 0⟩

/-- The first packet from the LAN registers its flow, and the answer is sent to its device. -/
theorem firewall_policy_dialog : ∃ start p, Trace (Step dialogContext) start [[.received 0 synPacket false 1], [.received 1 replyPacket true 0]] p ∧
    ∃ first second, Conforms fwSetup [] (.received 0 synPacket false 1, first) ∧
      Conforms fwSetup [(.received 0 synPacket false 1, first)] (.received 1 replyPacket true 0, second) ∧
      RegisteredBy fwSetup [(.received 0 synPacket false 1, first)] (flowOf fwSetup replyPacket 1) 0 := by
  have fits : dialogContext.cfg.Fits := by constructor <;> decide
  obtain ⟨init, started, _⟩ := init_coherent fits blankMemory
  let attempts : List (Attempt Unit Unit) := [⟨id, (), true⟩]
  have ran : ((initPktSetManager dialogContext.cfg blankMemory).bind fun m =>
      (processPkts { dialogContext with device := 0, now := 0 } (fun _ => false) 1 attempts (fwPlane m)).bind fun r =>
        (processPkts { dialogContext with device := 1, now := 0 } (fun _ => true) 1 attempts r.1).map fun s =>
          (knownAt 0 r.1.history, r.1.dstDevices 0, knownAt 0 s.1.history, s.1.dstDevices 0)) = some (false, 1, true, 0) := by
    decide +kernel
  rw [started, Option.bind_some] at ran
  obtain ⟨⟨q, rest⟩, sent, ran⟩ := Option.bind_eq_some_iff.mp ran
  obtain ⟨⟨p, rest'⟩, answered, same⟩ := Option.map_eq_some_iff.mp ran
  simp only [Prod.mk.injEq] at same
  obtain ⟨known, dst, known', dst'⟩ := same
  have first : Step dialogContext _ _ q := .batch 0 0 _ _ _ sent
  have second : Step dialogContext _ _ p := .batch 1 0 _ _ _ answered
  have events : eventsOf 0 (fun i => (dialogContext.nf.nfPktParser ((fun _ => false) i)).2) q (parsedPkts dialogContext (fun _ => false) 1) =
      [.received 0 synPacket false 1] := by
    change [Event.received 0 synPacket (knownAt 0 q.history) (q.dstDevices 0)] = _
    rw [known, dst]
  have events' : eventsOf 1 (fun i => (dialogContext.nf.nfPktParser ((fun _ => true) i)).2) p (parsedPkts dialogContext (fun _ => true) 1) =
      [.received 1 replyPacket true 0] := by
    change [Event.received 1 replyPacket (knownAt 0 p.history) (p.dstDevices 0)] = _
    rw [known', dst']
  rw [events] at first
  rw [events'] at second
  have run := (Trace.start.extend first).extend second
  have here : dialogContext.pktSetPartition = (⟨0, by decide⟩ : Fin dialogContext.cfg.numCores).val := rfl
  have keyed : Keyed (fun _ _ => 0) dialogContext.cfg := ⟨rfl, rfl⟩
  obtain ⟨marked, whole, conforms, _⟩ := firewall_policy rfl keyed fits here started rfl run
  obtain ⟨⟨_, first⟩, _, rfl, rfl, rest⟩ := List.map_eq_cons_iff.mp whole
  obtain ⟨⟨_, second⟩, _, rfl, rfl, none⟩ := List.map_eq_cons_iff.mp rest
  obtain rfl := List.map_eq_nil_iff.mp none
  have answer := conforms [_] _ [] rfl
  refine ⟨_, p, run, first, second, conforms [] _ _ rfl, answer, ?_⟩
  obtain ⟨device, registered⟩ := answer.1.mp rfl
  obtain rfl := (answer.2 rfl).2 (by decide) |>.2 device registered
  exact registered

end Example
end Nfos.Fw
