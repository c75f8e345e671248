import Nfos.BridgeRuns

/-! The bridge as a table of devices: an address is behind the device of the packet that has created
its entry, until a sweep erases it. -/
namespace Nfos.Bridge
open Function Vectors DataPlane AgeingTable Run
variable {setup : Setup} {s s' init : NfState Elements} {find find' : RteEtherAddr → Option Int}
variable {Q Q' : ListId setup.numCores → List Nat} {m : RteEtherAddr} {now : Int} {dev : Nat}

/-- What an event does to the table of devices. A known address does not move. -/
def Event.learn (devices : RteEtherAddr → Option Nat) : Event → RteEtherAddr → Option Nat
  | .handled header dev _ (.added _) _ => update devices header.sAddr (some dev)
  | .handled .. => devices
  | .swept _ gone => fun m => if m ∈ gone then none else devices m

/-- The devices of the addresses after a history. -/
def learned (history : List Event) : RteEtherAddr → Option Nat := history.foldl Event.learn fun _ => none

theorem learned_append (history : List Event) (e : Event) : learned (history ++ [e]) = e.learn (learned history) := by
  simp [learned]

/-- The device in the entry of an address. -/
def NfState.device (setup : Setup) (s : NfState Elements) (m : RteEtherAddr) : Option Nat :=
  (s.lookup setup m).map fun v => (s.dynVals v.toNat).dev

theorem device_eq_none : s.device setup m = none ↔ s.lookup setup m = none := by
  rw [NfState.device, Option.map_eq_none_iff]

section Touched
variable (touched : Touched setup m dev now s (s.lookup setup) Q s' (s'.lookup setup) Q') (sound : setup.Sound) {k : RteEtherAddr}
include touched sound

theorem Touched.device_known (invariant : Invariant setup s (s.lookup setup) Q) (known : s.lookup setup k ≠ none) :
    s'.device setup k = s.device setup k := by
  obtain ⟨v, before⟩ := Option.ne_none_iff_exists'.mp known
  obtain ⟨i, _, rfl, _⟩ := (Holds.found_iff ⟨Q, invariant⟩ sound).mp before
  have after := (touched.kept k i before).1
  have same := touched.devices k i after
  rw [if_neg known] at same
  rw [NfState.device, NfState.device, before, after]
  exact congrArg some same

theorem Touched.device_other (invariant : Invariant setup s (s.lookup setup) Q) (other : k ≠ m) :
    s'.device setup k = s.device setup k := by
  by_cases known : s.lookup setup k = none
  · rw [device_eq_none.mpr known, device_eq_none]
    by_contra present
    obtain ⟨v, after⟩ := Option.ne_none_iff_exists'.mp present
    obtain ⟨i, _, rfl, _⟩ := (Holds.found_iff ⟨Q', touched.invariant⟩ sound).mp after
    have old := (touched.others k other i after).1
    rw [known] at old
    contradiction
  · exact touched.device_known sound invariant known

theorem Touched.device_new (unknown : s.lookup setup m = none) (room : s'.lookup setup m ≠ none) : s'.device setup m = some dev := by
  obtain ⟨v, after⟩ := Option.ne_none_iff_exists'.mp room
  obtain ⟨i, _, rfl, _⟩ := (Holds.found_iff ⟨Q', touched.invariant⟩ sound).mp after
  have new := touched.devices m i after
  rw [if_pos unknown] at new
  rw [NfState.device, after]
  exact congrArg some new

end Touched

/-- What the handler of a packet does, given the devices that have been learned. -/
structure Forwards (devices : RteEtherAddr → Option Nat) (header : EtherHeader) (dev : Nat) (now : Int) (learning : Learning)
    (actions : List Action) : Prop where
  known : learning = .known ↔ devices header.sAddr ≠ none
  stored : learning ≠ .added false
  actions : actions = if learning = .full then [] else
    match Event.learn devices (.handled header dev now learning actions) header.dAddr with
    | some out => [.sendPkt out]
    | none => [.floodPkt]

section Steps
variable {header : EtherHeader} {learning : Learning} {actions : List Action} {gone : List RteEtherAddr}

theorem Step.forwards (step : Step setup s (.handled header dev now learning actions) s') (sound : setup.Sound) (holds : Holds setup s) :
    Forwards (s.device setup) header dev now learning actions ∧
      s'.device setup = Event.learn (s.device setup) (.handled header dev now learning actions) := by
  obtain ⟨Q, invariant⟩ := holds
  cases step with
  | @handle l _ _ grants core _ _ _ ran =>
    have posted := Txn.Txs.ensures_of_post fun grants => post_pktHandler (l := s.start) sound invariant core header dev now
    obtain ⟨stored, find', Q', touched, full, known, forward⟩ := posted _ _ _ ran
    obtain rfl := touched.invariant.lookup_eq sound
    have touched : Touched setup header.sAddr dev now s (s.lookup setup) Q l.view (l.view.lookup setup) Q' := touched
    have devices : l.view.device setup = Event.learn (s.device setup) (.handled header dev now learning actions) := by
      funext k
      by_cases own : k = header.sAddr
      · subst own
        cases learning with
        | known => exact touched.device_known sound invariant (known.mp rfl)
        | full =>
          have unknown : s.lookup setup header.sAddr = none := by
            by_contra present
            exact absurd (known.mpr present) (by simp)
          exact (device_eq_none.mpr (full.mp rfl)).trans (device_eq_none.mpr unknown).symm
        | added stored =>
          have unknown : s.lookup setup header.sAddr = none := by
            by_contra present
            exact absurd (known.mpr present) (by simp)
          have room : l.view.lookup setup header.sAddr ≠ none := fun none => absurd (full.mpr none) (by simp)
          rw [Event.learn, update_self]
          exact touched.device_new sound unknown room
      · rw [touched.device_other sound invariant own]
        cases learning with
        | added stored => rw [Event.learn, update_of_ne own]
        | known => rfl
        | full => rfl
    refine ⟨⟨?_, stored, ?_⟩, devices⟩
    · rw [known, ne_eq, ne_eq, device_eq_none]
    · rw [← devices]
      refine forward.trans (if_congr Iff.rfl rfl ?_)
      rw [NfState.device]
      cases l.view.lookup setup header.dAddr <;> rfl

theorem Step.device_swept (step : Step setup s (.swept now gone) s') (sound : setup.Sound) (holds : Holds setup s) :
    s'.device setup = Event.learn (s.device setup) (.swept now gone) := by
  funext m
  obtain ⟨values, _, same⟩ := step.erased sound holds (m := m)
  change (s'.lookup setup m).map _ = if m ∈ gone then none else s.device setup m
  rw [values, same]
  split <;> rfl

end Steps

section Runs
variable {config : Config} {crc32si : Nat → Nat → Nat} {tscHz : Nat} {memory : NfState Elements} {history past later : List Event}
variable {header : EtherHeader} {learning : Learning} {actions : List Action}

theorem nfInit_unused (ended : nfInit config crc32si tscHz memory = some (setup, init)) :
    live setup.numCores setup.dynCapacity init.dynHeap = ∅ := by
  simp only [nfInit, Option.bind_eq_bind, Option.bind_eq_some_iff, Option.pure_def, Option.some.injEq, Prod.mk.injEq] at ended
  obtain ⟨chain, allocated, rfl, rfl⟩ := ended
  obtain ⟨_, _, unused, _⟩ := allocate_coherent config.size.1 allocated etherAddrEq (etherAddrHash crc32si) config.macTableSize
    memory.dynMap fun _ => ⟨Vector.replicate 6 0⟩
  exact unused

theorem device_of_run (sound : setup.Sound) (run : Trace (Step setup) init history s) (holds : Holds setup init)
    (empty : init.device setup = fun _ => none) : Holds setup s ∧ s.device setup = learned history := by
  apply run.rule (P := fun history s => Holds setup s ∧ s.device setup = learned history)
  case initial => exact ⟨holds, empty⟩
  case keeps =>
    rintro past t e u _ ⟨holds, devices⟩ step
    refine ⟨step.holds sound holds, ?_⟩
    rw [learned_append, ← devices]
    cases e with
    | handled header dev now learning actions => exact (step.forwards sound holds).2
    | swept now gone => exact step.device_swept sound holds

/-- In any order of the packets of all cores and of the sweeps, the bridge handles each packet by the
devices that the history before it has learned and not yet erased. -/
theorem forwards_by_history (ended : nfInit config crc32si tscHz memory = some (setup, init))
    (run : Trace (Step setup) init history s)
    (split : history = past ++ .handled header dev now learning actions :: later) :
    Forwards (learned past) header dev now learning actions := by
  obtain ⟨sound, ordered⟩ := nfInit_ordered ended 0
  have empty : init.device setup = fun _ => none := by
    funext m
    rw [device_eq_none]
    by_contra known
    obtain ⟨v, known⟩ := Option.ne_none_iff_exists'.mp known
    obtain ⟨i, present, _⟩ := (ordered.holds.found_iff sound).mp known
    simp [nfInit_unused ended] at present
  rw [split, ← List.singleton_append] at run
  obtain ⟨p, before, after⟩ := run.split
  obtain ⟨q, handled, _⟩ := after.split
  obtain ⟨holds, devices⟩ := device_of_run sound before ordered.holds empty
  rw [← devices]
  exact (handled.single.forwards sound holds).1

/-- Two entries, valid for three cycles. -/
def twoMacs : Config := ⟨2, 3, 1, 1, by decide⟩

/-- A packet back to the source of the first one. -/
def replyHeader : EtherHeader := ⟨firstHeader.dAddr, firstHeader.sAddr⟩

/-- The first packet is flooded, and the reply goes to its device. -/
theorem forwards_by_history_reply : ∃ setup init s, nfInit twoMacs (fun _ _ => 0) 1000000 blankMemory = some (setup, init) ∧
    Trace (Step setup) init [.handled firstHeader 3 5 (.added true) [.floodPkt], .handled replyHeader 4 6 (.added true) [.sendPkt 3]] s ∧
    Forwards (learned [.handled firstHeader 3 5 (.added true) [.floodPkt]]) replyHeader 4 6 (.added true) [.sendPkt 3] := by
  have ran : ((nfInit twoMacs (fun _ _ => 0) 1000000 blankMemory).bind fun r =>
      (pktHandler r.1 0 firstHeader 3 5 (fun _ _ => true) r.2.start).toOption.bind fun x =>
        (pktHandler r.1 0 replyHeader 4 6 (fun _ _ => true) x.2.view.start).toOption.map fun y => (r.1.numCores, x.1, y.1)) =
      some (1, (.added true, [.floodPkt]), (.added true, [.sendPkt 3])) := by
    decide +kernel
  obtain ⟨⟨setup, init⟩, ended, ran⟩ := Option.bind_eq_some_iff.mp ran
  obtain ⟨⟨⟨learning, actions⟩, l⟩, handled, ran⟩ := Option.bind_eq_some_iff.mp ran
  obtain ⟨⟨⟨learning', actions'⟩, m⟩, replied, same⟩ := Option.map_eq_some_iff.mp ran
  simp only [Prod.mk.injEq] at same
  obtain ⟨cores, ⟨rfl, rfl⟩, rfl, rfl⟩ := same
  have first : Step setup init (.handled firstHeader 3 5 (.added true) [.floodPkt]) l.view :=
    .handle ⟨0, by omega⟩ firstHeader 3 5 (Txn.Txs.ok_of_toOption handled)
  have second : Step setup l.view (.handled replyHeader 4 6 (.added true) [.sendPkt 3]) m.view :=
    .handle ⟨0, by omega⟩ replyHeader 4 6 (Txn.Txs.ok_of_toOption replied)
  have run : Trace (Step setup) init [.handled firstHeader 3 5 (.added true) [.floodPkt], .handled replyHeader 4 6 (.added true) [.sendPkt 3]]
      m.view := (Trace.start.extend first).extend second
  have split : [Event.handled firstHeader 3 5 (.added true) [.floodPkt], .handled replyHeader 4 6 (.added true) [.sendPkt 3]] =
      [.handled firstHeader 3 5 (.added true) [.floodPkt]] ++ .handled replyHeader 4 6 (.added true) [.sendPkt 3] :: [] := rfl
  exact ⟨setup, init, m.view, ended, run, forwards_by_history ended run split⟩

end Runs
end Nfos.Bridge
