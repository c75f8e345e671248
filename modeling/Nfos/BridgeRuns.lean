import Nfos.BridgeSteps
import Mathlib.Data.Finset.Order

/-! Runs of `bridge`. In any order of the transactions, an address keeps its entry for the
validity without the refresh interval after its last packet. -/
namespace Nfos.Bridge
open Txn Function Vectors Map DoubleChainExp DataPlane AgeingTable Run
variable {setup : Setup} {s s' init : NfState Elements} {find : RteEtherAddr → Option Int}
variable {Q : ListId setup.numCores → List Nat} {m : RteEtherAddr}

/-- Committed transactions with their results: a handled packet, or a sweep with the addresses
that it erased. -/
inductive Event where
  | handled (header : EtherHeader) (incomingDev : Nat) (now : Int) (learning : Learning) (actions : List Action)
  | swept (now : Int) (gone : List RteEtherAddr)

/-- The time of a packet. -/
def Event.stamp : Event → Option Int
  | handled _ _ now _ _ => some now
  | swept _ _ => none

inductive Step (setup : Setup) : NfState Elements → Event → NfState Elements → Prop where
  | handle {s l learning actions grants} (core : Fin setup.numCores) (header : EtherHeader) (incomingDev : Nat) (now : Int) :
      pktHandler setup core.val header incomingDev now grants s.start = .ok ((learning, actions), l) →
      Step setup s (.handled header incomingDev now learning actions) l.view
  | sweep {s l sweep grants} (now : Int) :
      expMacLoop setup now grants s.start = .ok (sweep, l) → Step setup s (.swept now (sweep.freed.map s.dynMacs)) l.view

/-- What `nfos_map_get` finds in a state. -/
def NfState.lookup (setup : Setup) (s : NfState Elements) (m : RteEtherAddr) : Option Int := found setup.map s.dynMap m

theorem Invariant.lookup_eq (invariant : Invariant setup s find Q) (sound : setup.Sound) : find = s.lookup setup := by
  funext m
  exact (invariant.coherent.lookup.found_eq sound.exact m).symm

/-- The state is one of a table. -/
def Holds (setup : Setup) (s : NfState Elements) : Prop := ∃ Q, Invariant setup s (s.lookup setup) Q

section Steps
variable {header : EtherHeader} {dev : Nat} {now : Int} {learning : Learning} {actions : List Action} {gone : List RteEtherAddr}

theorem Step.handled (step : Step setup s (.handled header dev now learning actions) s') (sound : setup.Sound)
    (invariant : Invariant setup s (s.lookup setup) Q) : learning ≠ .added false ∧
      (learning = .full ↔ s'.lookup setup header.sAddr = none) ∧
      ∃ Q', Touched setup header.sAddr dev now s (s.lookup setup) Q s' (s'.lookup setup) Q' := by
  cases step with
  | handle core _ _ _ ran =>
    have posted := Txs.ensures_of_post fun grants => post_pktHandler (l := s.start) sound invariant core header dev now
    obtain ⟨stored, find', Q', touched, full, _⟩ := posted _ _ _ ran
    obtain rfl := touched.invariant.lookup_eq sound
    exact ⟨stored, full, Q', touched⟩

theorem Step.swept (step : Step setup s (.swept now gone) s') (sound : setup.Sound)
    (invariant : Invariant setup s (s.lookup setup) Q) : ∃ freed Q', gone = freed.map s.dynMacs ∧
      s'.lookup setup = without (s.lookup setup) s.dynMacs freed ∧ Invariant setup s' (s'.lookup setup) Q' ∧
      Expelled setup now s (s.lookup setup) Q freed s' Q' := by
  cases step with
  | sweep _ ran =>
    have posted := Txs.ensures_of_post fun grants => post_expMacLoop (l := s.start) sound invariant now
    obtain ⟨Q', expelled⟩ := posted _ _ _ ran
    have invariant' := expelled.invariant invariant
    rw [← invariant'.lookup_eq sound]
    exact ⟨_, Q', rfl, rfl, invariant', expelled⟩

theorem Step.holds {e : Event} (step : Step setup s e s') (sound : setup.Sound) (holds : Holds setup s) : Holds setup s' := by
  obtain ⟨Q, invariant⟩ := holds
  cases e with
  | handled header dev now learning actions =>
    obtain ⟨_, _, Q', touched⟩ := step.handled sound invariant
    exact ⟨Q', touched.invariant⟩
  | swept now gone =>
    obtain ⟨_, Q', _, _, invariant', _⟩ := step.swept sound invariant
    exact ⟨Q', invariant'⟩

/-- The entry of an address. -/
theorem Holds.found_iff (holds : Holds setup s) (sound : setup.Sound) {v : Int} : s.lookup setup m = some v ↔
    ∃ i ∈ live setup.numCores setup.dynCapacity s.dynHeap, v = (i : Int) ∧ s.dynMacs i = m := by
  obtain ⟨Q, invariant⟩ := holds
  exact invariant.coherent.found_iff sound.exact

/-- A sweep erases the entries of these addresses, and only those whose validity is over. -/
theorem Step.erased (step : Step setup s (.swept now gone) s') (sound : setup.Sound) (holds : Holds setup s) :
    s'.dynVals = s.dynVals ∧ (m ∈ gone → ∃ i : Nat, s.lookup setup m = some (i : Int) ∧ (s.dynVals i).time + setup.validity < now) ∧
      s'.lookup setup m = if m ∈ gone then none else s.lookup setup m := by
  obtain ⟨Q, invariant⟩ := holds
  obtain ⟨freed, Q', rfl, same, _, expelled⟩ := step.swept sound invariant
  refine ⟨expelled.dynVals, ?_, ?_⟩
  · intro member
    obtain ⟨i, reported, rfl⟩ := List.mem_map.mp member
    obtain ⟨present, passed⟩ := expelled.cleared.passed invariant.coherent.valid reported
    refine ⟨i, invariant.coherent.directory.found present, ?_⟩
    rwa [← invariant.stamped i present]
  · rw [same, without_eq]
    exact if_congr (by simp) rfl rfl

/-- The entry of an address stays, and its time does not decrease, until a sweep erases it. -/
theorem Step.stays {e : Event} (step : Step setup s e s') (sound : setup.Sound) (holds : Holds setup s)
    (kept : ∀ now gone, e = .swept now gone → m ∉ gone) {i : Nat} (known : s.lookup setup m = some (i : Int)) :
    s'.lookup setup m = some (i : Int) ∧ (s.dynVals i).time ≤ (s'.dynVals i).time := by
  cases e with
  | handled header dev now learning actions =>
    obtain ⟨Q, invariant⟩ := holds
    obtain ⟨_, _, Q', touched⟩ := step.handled sound invariant
    exact touched.kept m i known
  | swept now gone =>
    obtain ⟨values, _, same⟩ := step.erased sound holds
    rw [same, values, if_neg (kept now gone rfl)]
    exact ⟨known, le_rfl⟩

/-- The entries of other addresses are as before a packet, or they are those of erased ones. -/
theorem Step.others {e : Event} (step : Step setup s e s') (sound : setup.Sound) (holds : Holds setup s)
    (other : ∀ header dev now learning actions, e = .handled header dev now learning actions → m ≠ header.sAddr) {i : Nat}
    (known : s'.lookup setup m = some (i : Int)) : s.lookup setup m = some (i : Int) ∧ s'.dynVals i = s.dynVals i := by
  cases e with
  | handled header dev now learning actions =>
    obtain ⟨Q, invariant⟩ := holds
    obtain ⟨_, _, Q', touched⟩ := step.handled sound invariant
    exact touched.others m (other header dev now learning actions rfl) i known
  | swept now gone =>
    obtain ⟨values, _, same⟩ := step.erased sound holds
    rw [same] at known
    split at known
    · contradiction
    · exact ⟨known, congrFun values i⟩

/-- After a packet the entry of its source is fresh, whether it has been refreshed or not. -/
theorem Step.fresh (step : Step setup s (.handled header dev now learning actions) s') (sound : setup.Sound)
    (holds : Holds setup s) {i : Nat} (known : s'.lookup setup header.sAddr = some (i : Int)) :
    now ≤ (s'.dynVals i).time + setup.refreshInterval := by
  obtain ⟨Q, invariant⟩ := holds
  obtain ⟨_, _, Q', touched⟩ := step.handled sound invariant
  exact touched.fresh i known

/-- The order of the queues of a state, with no time after that of a packet at `latest`. -/
def Ordered (setup : Setup) (latest : Int) (s : NfState Elements) : Prop :=
  ∃ Q, Invariant setup s (s.lookup setup) Q ∧ Aged setup.validity latest s.dynHeap Q

theorem Ordered.time_le {latest : Int} (ordered : Ordered setup latest s) {i : Nat} (known : s.lookup setup m = some (i : Int)) :
    (s.dynVals i).time ≤ latest := by
  obtain ⟨Q, invariant, aged⟩ := ordered
  obtain ⟨j, present, same, _⟩ := invariant.coherent.directory.of_found known
  obtain rfl : i = j := Int.ofNat.inj same
  obtain ⟨c, member⟩ := (mem_live invariant.coherent.valid).mp present
  have bound := aged.bounded c _ member
  have stamped : Cells.extraOf s.dynHeap (indexShift setup.numCores + i) = _ := invariant.stamped i present
  omega

theorem Ordered.holds {latest : Int} (ordered : Ordered setup latest s) : Holds setup s := by
  obtain ⟨Q, invariant, _⟩ := ordered
  exact ⟨Q, invariant⟩

theorem Step.ordered {e : Event} {latest latest' : Int} (step : Step setup s e s') (sound : setup.Sound)
    (ordered : Ordered setup latest s) (order : latest ≤ latest') (stamp : ∀ now, e.stamp = some now → now = latest') :
    Ordered setup latest' s' := by
  obtain ⟨Q, invariant, aged⟩ := ordered
  cases e with
  | handled header dev now learning actions =>
    obtain ⟨_, _, Q', touched⟩ := step.handled sound invariant
    obtain rfl := stamp now rfl
    exact ⟨Q', touched.invariant, touched.aged latest order aged⟩
  | swept now gone =>
    obtain ⟨_, Q', _, _, invariant', expelled⟩ := step.swept sound invariant
    exact ⟨Q', invariant', expelled.cleared.aged (aged.later order)⟩

/-- A sweep of queues in order leaves no entry whose validity is over. -/
theorem Step.current {latest : Int} (step : Step setup s (.swept now gone) s') (sound : setup.Sound)
    (ordered : Ordered setup latest s) {i : Nat} (known : s'.lookup setup m = some (i : Int)) :
    now ≤ (s.dynVals i).time + setup.validity := by
  obtain ⟨Q, invariant, aged⟩ := ordered
  obtain ⟨_, Q', _, _, invariant', expelled⟩ := step.swept sound invariant
  obtain ⟨j, stays, same, _⟩ := invariant'.coherent.directory.of_found known
  obtain rfl : i = j := Int.ofNat.inj same
  have left := stays
  rw [expelled.cleared.numbers] at left
  rw [← invariant.stamped i left.1]
  exact expelled.cleared.current aged stays

end Steps

section Runs
variable {history past mid : List Event} {q : NfState Elements} {config : Config} {crc32si : Nat → Nat → Nat} {tscHz : Nat}
variable {memory : NfState Elements}

/-- The table is empty at first. -/
theorem nfInit_ordered (ended : nfInit config crc32si tscHz memory = some (setup, init)) (latest : Int) :
    setup.Sound ∧ Ordered setup latest init := by
  simp only [nfInit, Option.bind_eq_bind, Option.bind_eq_some_iff, Option.pure_def, Option.some.injEq, Prod.mk.injEq] at ended
  obtain ⟨chain, allocated, rfl, rfl⟩ := ended
  obtain ⟨positive, small⟩ := config.size
  obtain ⟨cores, validity, unused, coherent⟩ := allocate_coherent positive allocated etherAddrEq (etherAddrHash crc32si)
    config.macTableSize memory.dynMap fun _ => ⟨Vector.replicate 6 0⟩
  have exact : (nfosMapAllocate etherAddrEq (etherAddrHash crc32si) config.macTableSize memory.dynMap).1.Exact :=
    allocate_exact memory.dynMap etherAddrEq_iff positive small.le
  refine ⟨⟨exact, (nextPow2_least positive small.le).1, cores⟩, ?_⟩
  refine ⟨initialLists config.numCores config.macTableSize, ⟨?_, ?_⟩, ⟨?_, ?_⟩⟩
  · have empty := coherent
    rwa [show (fun _ => none) = _ from (funext fun m => coherent.lookup.found_eq exact m).symm] at empty
  · intro i member
    rw [show live _ _ _ = ∅ from unused] at member
    contradiction
  · intro c
    simp [initialLists]
  · intro c x member
    simp [initialLists] at member

theorem holds_of_run (sound : setup.Sound) (run : Trace (Step setup) q mid s) (holds : Holds setup q) : Holds setup s :=
  run.keeps holds fun _ _ _ kept step => step.holds sound kept

/-- An entry stays until a sweep erases it. -/
theorem stays_of_run (sound : setup.Sound) (run : Trace (Step setup) q mid s) (holds : Holds setup q)
    (kept : ∀ now gone, .swept now gone ∈ mid → m ∉ gone) {i : Nat} (known : q.lookup setup m = some (i : Int)) :
    s.lookup setup m = some (i : Int) ∧ (q.dynVals i).time ≤ (s.dynVals i).time := by
  have both := run.rule (P := fun mid s => Holds setup s ∧ ((∀ now gone, .swept now gone ∈ mid → m ∉ gone) →
    s.lookup setup m = some (i : Int) ∧ (q.dynVals i).time ≤ (s.dynVals i).time)) ⟨holds, fun _ => ⟨known, le_rfl⟩⟩ (by
    rintro past r e r' _ ⟨holds, before⟩ step
    refine ⟨step.holds sound holds, fun kept => ?_⟩
    obtain ⟨here, order⟩ := before fun now gone member => kept now gone (List.mem_append_left _ member)
    obtain ⟨there, later⟩ := step.stays sound holds (fun now gone same => kept now gone (by simp [same])) here
    exact ⟨there, order.trans later⟩)
  exact both.2 kept

/-- While the times of the packets do not decrease, the entry of a source is no older than its
last packet. -/
theorem fresh_of_run (sound : setup.Sound) (run : Trace (Step setup) q mid s) (holds : Holds setup q) {t : Int}
    (later : ∀ now ∈ mid.filterMap Event.stamp, t ≤ now)
    (fresh : ∀ i : Nat, q.lookup setup m = some (i : Int) → t ≤ (q.dynVals i).time + setup.refreshInterval) {i : Nat}
    (known : s.lookup setup m = some (i : Int)) : t ≤ (s.dynVals i).time + setup.refreshInterval := by
  have both := run.rule (P := fun mid s => Holds setup s ∧ ((∀ now ∈ mid.filterMap Event.stamp, t ≤ now) →
    ∀ i : Nat, s.lookup setup m = some (i : Int) → t ≤ (s.dynVals i).time + setup.refreshInterval)) ⟨holds, fun _ => fresh⟩ (by
    rintro past r e r' _ ⟨holds, before⟩ step
    refine ⟨step.holds sound holds, fun later i known => ?_⟩
    have early := before fun now member => later now (by simp [member])
    by_cases own : ∃ header dev now learning actions, e = .handled header dev now learning actions ∧ m = header.sAddr
    · obtain ⟨header, dev, now, learning, actions, rfl, rfl⟩ := own
      have order := later now (by simp [Event.stamp])
      exact order.trans (step.fresh sound holds known)
    · obtain ⟨old, same⟩ := step.others sound holds (fun header dev now learning actions clash here =>
        own ⟨header, dev, now, learning, actions, clash, here⟩) known
      rw [same]
      exact early i old)
  exact both.2 later i known

/-- Without a packet from its address an entry gets no later time. -/
theorem old_of_run (sound : setup.Sound) (run : Trace (Step setup) q mid s) (holds : Holds setup q) {t : Int}
    (none : ∀ header dev now learning actions, .handled header dev now learning actions ∈ mid → m ≠ header.sAddr)
    (old : ∀ i : Nat, q.lookup setup m = some (i : Int) → (q.dynVals i).time ≤ t) {i : Nat}
    (known : s.lookup setup m = some (i : Int)) : (s.dynVals i).time ≤ t := by
  have both := run.rule (P := fun mid s => Holds setup s ∧
    ((∀ header dev now learning actions, .handled header dev now learning actions ∈ mid → m ≠ header.sAddr) →
      ∀ i : Nat, s.lookup setup m = some (i : Int) → (s.dynVals i).time ≤ t)) ⟨holds, fun _ => old⟩ (by
    rintro past r e r' _ ⟨holds, before⟩ step
    refine ⟨step.holds sound holds, fun none i known => ?_⟩
    obtain ⟨there, same⟩ := step.others sound holds (fun header dev now learning actions clash =>
      none header dev now learning actions (by simp [clash])) known
    rw [same]
    exact before (fun header dev now learning actions member => none header dev now learning actions (List.mem_append_left _ member))
      i there)
  exact both.2 none i known

/-- While the times of the packets do not decrease, the queues are in order. -/
theorem ordered_of_run (sound : setup.Sound) (run : Trace (Step setup) init history s) (initial : ∀ latest, Ordered setup latest init)
    (order : (history.filterMap Event.stamp).Pairwise (· ≤ ·)) {latest : Int}
    (bound : ∀ now ∈ history.filterMap Event.stamp, now ≤ latest) : Ordered setup latest s := by
  have all := run.rule (P := fun history s => (history.filterMap Event.stamp).Pairwise (· ≤ ·) →
    ∀ latest, (∀ now ∈ history.filterMap Event.stamp, now ≤ latest) → Ordered setup latest s) (fun _ latest _ => initial latest) (by
    rintro past r e r' _ before step order latest bound
    rw [List.filterMap_append, List.pairwise_append] at order
    cases stamp : e.stamp with
    | none =>
      have kept := before order.1 latest fun now member => bound now (by simp [member])
      exact step.ordered sound kept le_rfl fun now stamped => nomatch stamp.symm.trans stamped
    | some t =>
      have kept := before order.1 t fun now member => order.2.2 now member t (by simp [stamp])
      have ordered := step.ordered sound kept le_rfl fun now stamped => Option.some.inj (stamped.symm.trans stamp)
      obtain ⟨Q, invariant, aged⟩ := ordered
      exact ⟨Q, invariant, aged.later (bound t (by simp [stamp]))⟩)
  exact all order latest bound

/-- What holds of the table of addresses after a run. -/
structure MacTable (setup : Setup) (history : List Event) (s : NfState Elements) : Prop where
  found : ∀ m v, s.lookup setup m = some v ↔
    ∃ i ∈ live setup.numCores setup.dynCapacity s.dynHeap, v = (i : Int) ∧ s.dynMacs i = m
  once : ∀ i < setup.map.capacity, ∀ j < setup.map.capacity, Busy s.dynMap i → Busy s.dynMap j →
    (s.dynMap i).key = (s.dynMap j).key → i = j
  expiry : ∀ i ∈ live setup.numCores setup.dynCapacity s.dynHeap,
    Cells.extraOf s.dynHeap (indexShift setup.numCores + i) = (s.dynVals i).time + setup.validity
  /-- `nfos_map_put` does not fail. -/
  stored : ∀ header dev now actions, .handled header dev now (.added false) actions ∉ history
  /-- A sweep does not erase an entry early: not the entry that the packet leaves, in whatever order
  the times are, and no entry of its source if the times of the packets do not decrease. -/
  kept : ∀ past header dev t learning actions mid now gone,
    history = past ++ .handled header dev t learning actions :: (mid ++ [.swept now gone]) →
    now ≤ t + setup.validity - setup.refreshInterval →
    (learning ≠ .full → (∀ now' gone', .swept now' gone' ∈ mid → header.sAddr ∉ gone') →
      header.sAddr ∉ gone ∧ s.lookup setup header.sAddr ≠ none) ∧
    ((history.filterMap Event.stamp).Pairwise (· ≤ ·) → header.sAddr ∉ gone)
  /-- A sweep leaves no entry of an address whose last packet is longer ago than the validity. -/
  erased : ∀ past header dev t learning actions mid now gone,
    history = past ++ .handled header dev t learning actions :: (mid ++ [.swept now gone]) →
    (∀ header' dev' t' learning' actions', .handled header' dev' t' learning' actions' ∈ mid → header.sAddr ≠ header'.sAddr) →
    (history.filterMap Event.stamp).Pairwise (· ≤ ·) → t + setup.validity < now → s.lookup setup header.sAddr = none

/-- A run that ends with a packet, some events and a sweep. -/
theorem Trace.parts {packet sweep : Event} (run : Trace (Step setup) init history s)
    (split : history = past ++ packet :: (mid ++ [sweep])) : ∃ p q r, Trace (Step setup) init past p ∧ Step setup p packet q ∧
      Trace (Step setup) q mid r ∧ Step setup r sweep s := by
  rw [split] at run
  obtain ⟨p, before, after⟩ := run.split
  rw [← List.singleton_append] at after
  obtain ⟨q, handled, later⟩ := after.split
  obtain ⟨r, between, last⟩ := later.split
  exact ⟨p, q, r, before, handled.single, between, last.single⟩

theorem stamps_parts {header : EtherHeader} {dev : Nat} {t now : Int} {learning : Learning} {actions : List Action}
    {gone : List RteEtherAddr}
    (order : ((past ++ Event.handled header dev t learning actions :: (mid ++ [Event.swept now gone])).filterMap Event.stamp).Pairwise (· ≤ ·)) :
    (mid.filterMap Event.stamp).Pairwise (· ≤ ·) ∧ (∀ x ∈ past.filterMap Event.stamp, x ≤ t) ∧
      ∀ x ∈ mid.filterMap Event.stamp, t ≤ x := by
  have stamps : (past ++ Event.handled header dev t learning actions :: (mid ++ [Event.swept now gone])).filterMap Event.stamp =
      past.filterMap Event.stamp ++ t :: mid.filterMap Event.stamp := by
    simp [Event.stamp]
  rw [stamps, List.pairwise_append, List.pairwise_cons] at order
  obtain ⟨_, ⟨later, sorted⟩, early⟩ := order
  exact ⟨sorted, fun x member => early x member t (List.mem_cons_self ..), later⟩

/-- In any order of the packets of all cores and of the sweeps, the table of the bridge stays
coherent, and its entries expire between `validity - refreshInterval` and `validity` after the last
packet of their address. -/
theorem mac_table_ages (ended : nfInit config crc32si tscHz memory = some (setup, init))
    (run : Trace (Step setup) init history s) : MacTable setup history s := by
  have sound := (nfInit_ordered ended 0).1
  have initial : ∀ latest, Ordered setup latest init := fun latest => (nfInit_ordered ended latest).2
  have holds := holds_of_run sound run (initial 0).holds
  obtain ⟨Q, invariant⟩ := holds
  constructor
  case found => exact fun m v => Holds.found_iff ⟨Q, invariant⟩ sound
  case once =>
    intro i first j second busy busy' same
    apply invariant.coherent.lookup.invariant.distinct i first j second busy busy'
    exact (sound.exact.exact _ _).mpr same
  case expiry => exact invariant.stamped
  case stored =>
    intro header dev now actions member
    obtain ⟨past, later, split⟩ := List.append_of_mem member
    rw [split, ← List.singleton_append] at run
    obtain ⟨p, before, after⟩ := run.split
    obtain ⟨q, handled, _⟩ := after.split
    obtain ⟨P, invariant'⟩ := holds_of_run sound before (initial 0).holds
    exact (handled.single.handled sound invariant').1 rfl
  case kept =>
    intro past header dev t learning actions mid now gone split early
    obtain ⟨p, q, r, before, handled, between, last⟩ := Trace.parts run split
    have atP := holds_of_run sound before (initial 0).holds
    have atQ := handled.holds sound atP
    have atR := holds_of_run sound between atQ
    obtain ⟨_, erases, same⟩ := last.erased sound atR (m := header.sAddr)
    refine ⟨fun learned kept => ?_, fun order member => ?_⟩
    · obtain ⟨P, invariant'⟩ := atP
      have present : q.lookup setup header.sAddr ≠ none := mt (handled.handled sound invariant').2.1.mpr learned
      obtain ⟨v, known⟩ := Option.ne_none_iff_exists'.mp present
      obtain ⟨i, _, rfl, _⟩ := (atQ.found_iff sound).mp known
      obtain ⟨there, later⟩ := stays_of_run sound between atQ kept known
      have fresh := handled.fresh sound ⟨P, invariant'⟩ known
      have absent : header.sAddr ∉ gone := by
        intro member
        obtain ⟨j, here, passed⟩ := erases member
        obtain rfl : i = j := Int.ofNat.inj (Option.some.inj (there.symm.trans here))
        omega
      rw [same, if_neg absent, there]
      exact ⟨absent, nofun⟩
    · obtain ⟨i, known, passed⟩ := erases member
      have fresh := fresh_of_run sound between atQ (stamps_parts (split ▸ order)).2.2
        (fun i known => handled.fresh sound atP known) known
      omega
  case erased =>
    intro past header dev t learning actions mid now gone split silent order late
    obtain ⟨p, q, r, before, handled, between, last⟩ := Trace.parts run split
    have atQ := handled.holds sound (holds_of_run sound before (initial 0).holds)
    obtain ⟨_, early, _⟩ := stamps_parts (split ▸ order)
    have learned : ∀ i : Nat, q.lookup setup header.sAddr = some (i : Int) → (q.dynVals i).time ≤ t := by
      intro i known
      have sorted : ((past ++ [Event.handled header dev t learning actions]).filterMap Event.stamp).Pairwise (· ≤ ·) := by
        rw [split, List.append_cons, List.filterMap_append] at order
        exact (List.pairwise_append.mp order).1
      apply Ordered.time_le (ordered_of_run sound (before.extend handled) initial sorted _) known
      intro now stamped
      rw [List.filterMap_append, List.mem_append] at stamped
      rcases stamped with old | new
      · exact early now old
      · exact (List.mem_singleton.mp new).le
    have ordered : ∃ latest, Ordered setup latest r := by
      have sorted : ((past ++ [Event.handled header dev t learning actions] ++ mid).filterMap Event.stamp).Pairwise (· ≤ ·) := by
        rw [split, List.append_cons, ← List.append_assoc, List.filterMap_append] at order
        exact (List.pairwise_append.mp order).1
      obtain ⟨latest, bound⟩ := ((past ++ [Event.handled header dev t learning actions] ++ mid).filterMap Event.stamp).toFinset.exists_le
      refine ⟨latest, ordered_of_run sound ((before.extend handled).append between) initial sorted fun now stamped => ?_⟩
      exact bound now (List.mem_toFinset.mpr stamped)
    obtain ⟨latest, ordered⟩ := ordered
    by_contra present
    obtain ⟨v, known⟩ := Option.ne_none_iff_exists'.mp present
    obtain ⟨i, _, rfl, _⟩ := (Holds.found_iff ⟨Q, invariant⟩ sound).mp known
    have valid := last.current sound ordered known
    obtain ⟨there, _⟩ := last.others sound ordered.holds (fun _ _ _ _ _ clash => nomatch clash) known
    have old := old_of_run sound between atQ silent learned there
    omega

end Runs

section Example

/-- One entry, valid for three cycles. -/
def oneMac : Config := ⟨1, 3, 1, 1, by decide⟩

def blankMemory : NfState Elements :=
  ⟨fun _ => ⟨0, 0, 0, 0⟩, fun _ => ⟨0, 0, 0, 0, ⟨Vector.replicate 6 0⟩⟩, fun _ => ⟨0, 0⟩, fun _ => ⟨Vector.replicate 6 0⟩⟩

/-- A packet to an address that is not known. -/
def firstHeader : EtherHeader := ⟨⟨Vector.replicate 6 1⟩, ⟨Vector.replicate 6 2⟩⟩

def oneMacEvents : List Event :=
  [.handled firstHeader 3 5 (.added true) [.floodPkt], .swept 10 [firstHeader.sAddr]]

/-- An address is learned and, after its validity, erased. -/
theorem mac_table_ages_once : ∃ setup init s, nfInit oneMac (fun _ _ => 0) 1000000 blankMemory = some (setup, init) ∧
    Trace (Step setup) init oneMacEvents s ∧ MacTable setup oneMacEvents s := by
  have ran : ((nfInit oneMac (fun _ _ => 0) 1000000 blankMemory).bind fun r =>
      (pktHandler r.1 0 firstHeader 3 5 (fun _ _ => true) r.2.start).toOption.bind fun x =>
        (expMacLoop r.1 10 (fun _ _ => true) x.2.view.start).toOption.map fun y =>
          (r.1.numCores, x.1.1, x.1.2, y.1.freed.map x.2.view.dynMacs)) =
      some (1, .added true, [.floodPkt], [firstHeader.sAddr]) := by
    decide +kernel
  obtain ⟨⟨setup, init⟩, ended, ran⟩ := Option.bind_eq_some_iff.mp ran
  obtain ⟨⟨⟨learning, actions⟩, l⟩, handled, ran⟩ := Option.bind_eq_some_iff.mp ran
  obtain ⟨⟨sweep, m⟩, swept, same⟩ := Option.map_eq_some_iff.mp ran
  simp only [Prod.mk.injEq] at same
  obtain ⟨cores, rfl, rfl, gone⟩ := same
  have first : Step setup init (.handled firstHeader 3 5 (.added true) [.floodPkt]) l.view :=
    .handle ⟨0, by omega⟩ firstHeader 3 5 (Txs.ok_of_toOption handled)
  have second : Step setup l.view (.swept 10 (sweep.freed.map l.view.dynMacs)) m.view :=
    .sweep 10 (Txs.ok_of_toOption swept)
  rw [gone] at second
  have run : Trace (Step setup) init oneMacEvents m.view := (Trace.start.extend first).extend second
  exact ⟨setup, init, m.view, ended, run, mac_table_ages ended run⟩

end Example
end Nfos.Bridge
