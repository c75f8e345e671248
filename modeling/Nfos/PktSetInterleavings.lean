import Nfos.PktSetRefinement
import Nfos.ConcurrentLocality
import Nfos.InitialInts

/-! Interleavings of the packet-set manager: every core runs handler attempts,
registrations, lookups and sweeps on its own partition while the others do the
same. A step is a section of `ConcurrentDoubleChain` or a part of a call that
touches only the partition of its core. -/
namespace Nfos.PktSetManager
open ConcurrentDoubleChain hiding Event Step
open Function Linked CellData ConcurrentMap Run
variable {Id S : Type} {cfg : Config Id}

abbrev ChainEvent (cfg : Config Id) := ConcurrentDoubleChain.Event cfg.numCores

abbrev ChainStep (cfg : Config Id) (s : System cfg.numCores Id) (e : ChainEvent cfg)
    (s' : System cfg.numCores Id) : Prop :=
  ConcurrentDoubleChain.Step cfg.numCores cfg.maxNumPktSets s e s'

/-- Where a core is in the code around the packet-set manager. -/
inductive Stage (Id : Type) where
  | outside
  /-- In an attempt of `nf_unknown_pkt_set_handler`; `added` once it has called `add_pkt_set`. -/
  | attempt (id : Id) (time : Int) (added : Bool)
  /-- The attempt has committed, `add_pkt_set_commit` comes next. -/
  | committing (id : Id) (time : Int)
  /-- In `concurrent_dchain_allocate_new_index`. -/
  | allocating (id : Id)
  /-- The call has returned; without an index it returned 0. -/
  | storing (id : Id) (index : Option Nat)
  | sweeping (lastTime : Int)
  /-- The handler runs for an expired index. -/
  | erasing (lastTime : Int) (index : Nat)
  /-- In `concurrent_dchain_free_index`. -/
  | freeing (lastTime : Int) (index : Nat)

structure Machine (n : Nat) (Id S : Type) where
  chain : System n Id
  buckets : Buckets
  pktSetState : Nat → S
  log : Nat → AddPktSetLogEntry Id S
  stage : Fin n → Stage Id

namespace Machine
variable {n : Nat} (s : Machine n Id S)

/-- The memory of the manager, as the sequential code sees it. -/
def manager : Manager Id S := ⟨s.buckets, s.chain.cells, s.pktSetState, s.log⟩

def store (m : Manager Id S) : Machine n Id S :=
  ⟨s.chain.write m.cells, m.buckets, m.pktSetState, m.log, s.stage⟩

def enter (c : Fin n) (stage : Stage Id) : Machine n Id S :=
  { s with stage := update s.stage c stage }

def run (chain : System n Id) : Machine n Id S := { s with chain := chain }

end Machine

inductive MachineStep (cfg : Config Id) : Machine cfg.numCores Id S → Option (ChainEvent cfg) →
    Machine cfg.numCores Id S → Prop where
  | attempt {s} (c : Fin cfg.numCores) (id : Id) (time : Int) : s.stage c = .outside →
      MachineStep cfg s none ((s.store (addPktSetLogClear c.val s.manager)).enter c (.attempt id time false))
  | addPktSet {s id time answer m} (c : Fin cfg.numCores) (state : S) (related : Option Id) :
      s.stage c = .attempt id time false →
      addPktSetLog cfg state c.val related s.manager = (answer, m) →
      MachineStep cfg s none ((s.store m).enter c (.attempt id time true))
  | abort {s id time added} (c : Fin cfg.numCores) : s.stage c = .attempt id time added →
      MachineStep cfg s none ((s.store (addPktSetLogClear c.val s.manager)).enter c (.attempt id time false))
  | commit {s id time added} (c : Fin cfg.numCores) : s.stage c = .attempt id time added →
      MachineStep cfg s none (s.enter c (.committing id time))
  | skip {s id time} (c : Fin cfg.numCores) : s.stage c = .committing id time →
      (s.log c.val).addPktSet = false → MachineStep cfg s none (s.enter c .outside)
  | pop {s id time chain x} (c : Fin cfg.numCores) : s.stage c = .committing id time →
      (s.log c.val).addPktSet = true →
      ChainStep cfg s.chain (.popped c) chain →
      chain.pc c = .linking x time →
      MachineStep cfg s (some (.popped c)) ((s.run chain).enter c (.allocating id))
  | miss {s id time chain} (c : Fin cfg.numCores) : s.stage c = .committing id time →
      (s.log c.val).addPktSet = true →
      ChainStep cfg s.chain (.missed c) chain →
      chain.pc c = .fallback time →
      MachineStep cfg s (some (.missed c)) ((s.run chain).enter c (.allocating id))
  | search {s id chain} (c : Fin cfg.numCores) : s.stage c = .allocating id →
      ChainStep cfg s.chain (.inGlobal c) chain →
      MachineStep cfg s (some (.inGlobal c)) (s.run chain)
  | allocated {s id chain i} (c : Fin cfg.numCores) : s.stage c = .allocating id →
      ChainStep cfg s.chain (.allocated c i) chain →
      MachineStep cfg s (some (.allocated c i)) ((s.run chain).enter c (.storing id (some i)))
  | exhausted {s id chain} (c : Fin cfg.numCores) : s.stage c = .allocating id →
      ChainStep cfg s.chain (.exhausted c) chain →
      MachineStep cfg s (some (.exhausted c)) ((s.run chain).enter c (.storing id none))
  | put {s id i m} (c : Fin cfg.numCores) : s.stage c = .storing id (some i) →
      storePktSet cfg id c.val i s.manager = some m →
      MachineStep cfg s none ((s.store m).enter c .outside)
  | unknown {s} (c : Fin cfg.numCores) (id : Id) : s.stage c = .outside →
      concurrentMapGet cfg.numCores cfg.maxNumEntries cfg.map s.buckets s.chain.cells id c.val =
        some none →
      MachineStep cfg s none s
  | lookup {s chain done} {index : Int} (c : Fin cfg.numCores) (id : Id) : s.stage c = .outside →
      concurrentMapGet cfg.numCores cfg.maxNumEntries cfg.map s.buckets s.chain.cells id c.val =
        some (some index) →
      ChainStep cfg s.chain (.rejuvenated c
        (if index ≥ cfg.maxNumPktSets then index - cfg.maxNumPktSets else index).toNat done) chain →
      MachineStep cfg s (some (.rejuvenated c
        (if index ≥ cfg.maxNumPktSets then index - cfg.maxNumPktSets else index).toNat done)) (s.run chain)
  | otherHandler {s answer m} (c : Fin cfg.numCores) (state : S) (related : Option Id) :
      (s.stage c = .outside ∨ ∃ lastTime i, s.stage c = .erasing lastTime i) →
      addPktSetLog cfg state c.val related s.manager = (answer, m) →
      MachineStep cfg s none (s.store m)
  | sweep {s} (c : Fin cfg.numCores) (lastTime : Int) : s.stage c = .outside →
      MachineStep cfg s none (s.enter c (.sweeping lastTime))
  | expired {s lastTime i} (c : Fin cfg.numCores) : s.stage c = .sweeping lastTime →
      concurrentDchainHasExpiredIndex cfg.numCores c.val lastTime s.chain.cells = some i →
      MachineStep cfg s none (s.enter c (.erasing lastTime i))
  | swept {s lastTime} (c : Fin cfg.numCores) : s.stage c = .sweeping lastTime →
      concurrentDchainHasExpiredIndex cfg.numCores c.val lastTime s.chain.cells = none →
      MachineStep cfg s none (s.enter c .outside)
  | erase {s lastTime i gone m} (c : Fin cfg.numCores) (runs : ExpiredRuns S) :
      s.stage c = .erasing lastTime i → erasePktSet cfg runs i c.val s.manager = some (gone, m) →
      MachineStep cfg s none ((s.store m).enter c (.freeing lastTime i))
  | unlink {s lastTime i chain} (c : Fin cfg.numCores) : s.stage c = .freeing lastTime i →
      ChainStep cfg s.chain (.unlinked c i) chain →
      MachineStep cfg s (some (.unlinked c i)) (s.run chain)
  | freed {s lastTime i chain} (c : Fin cfg.numCores) : s.stage c = .freeing lastTime i →
      ChainStep cfg s.chain (.freed c i) chain →
      MachineStep cfg s (some (.freed c i)) ((s.run chain).enter c (.sweeping lastTime))
  | refused {s lastTime i chain} (c : Fin cfg.numCores) : s.stage c = .freeing lastTime i →
      ChainStep cfg s.chain (.refused c i) chain →
      MachineStep cfg s (some (.refused c i)) ((s.run chain).enter c (.sweeping lastTime))

/-- Where the allocator code of a core is at each stage. -/
def Stage.AtPc : Stage Id → Pc → Prop
  | allocating _, pc => ∃ x time, pc = .linking x time
  | freeing _ _, pc => pc = .idle ∨ ∃ x, pc = .unlinked x
  | storing _ index, pc => pc = .idle ∧ index.isSome = true
  | _, pc => pc = .idle

/-- The log entry of the core will be read by a commit that has not begun. -/
def Stage.Pending : Stage Id → Prop
  | attempt _ _ _ | committing _ _ => True
  | _ => False

/-- No core is in the global fallback, and the free list of a core that has
logged a registration is not empty. -/
structure Steady (cfg : Config Id) (s : Machine cfg.numCores Id S) (L : ListId cfg.numCores → List Nat) :
    Prop where
  sound : Sound cfg.numCores cfg.maxNumPktSets s.chain L
  unlocked : ∀ c, s.chain.lock c = none
  calls : ∀ c, (s.stage c).AtPc (s.chain.pc c)
  promised : ∀ c, (s.stage c).Pending → (s.log c.val).addPktSet = true → L (.free c) ≠ []

variable {s s' : Machine cfg.numCores Id S} {L M : ListId cfg.numCores → List Nat} {c : Fin cfg.numCores}
  {m : Manager Id S} {chain : System cfg.numCores Id} {stage : Stage Id}

/-- The obligations of a step of core `c`. -/
theorem Steady.step (steady : Steady cfg s L)
    (moved : Local cfg.numCores cfg.maxNumPktSets c s.chain s'.chain L M)
    (stages : ∀ d, d ≠ c → s'.stage d = s.stage d) (logs : ∀ d, d ≠ c → s'.log d.val = s.log d.val)
    (calls : (s'.stage c).AtPc (s'.chain.pc c))
    (promised : (s'.stage c).Pending → (s'.log c.val).addPktSet = true → M (.free c) ≠ []) :
    Steady cfg s' M where
  sound := moved.sound
  unlocked d := by
    rw [moved.lock]
    exact steady.unlocked d
  calls d := by
    by_cases same : d = c
    · rw [same]
      exact calls
    · rw [stages d same, moved.pc d same]
      exact steady.calls d
  promised d := by
    by_cases same : d = c
    · rw [same]
      exact promised
    · rw [stages d same, logs d same, moved.free d same]
      exact steady.promised d

/-- A step inside the allocator. -/
theorem Steady.run (steady : Steady cfg s L)
    (moved : Local cfg.numCores cfg.maxNumPktSets c s.chain chain L M) (calls : stage.AtPc (chain.pc c))
    (closed : ¬ stage.Pending) : Steady cfg ((s.run chain).enter c stage) M := by
  apply steady.step moved
  · intro d other
    exact update_of_ne other _ _
  · exact fun d _ => rfl
  · change (update s.stage c stage c).AtPc (chain.pc c)
    rwa [update_self]
  · intro pending
    change (update s.stage c stage c).Pending at pending
    rw [update_self] at pending
    exact absurd pending closed

/-- The map and the logs are written without touching the allocator. -/
theorem local_write (sound : Sound cfg.numCores cfg.maxNumPktSets s.chain L)
    (untouched : Untouched s.chain.cells m.cells) (c : Fin cfg.numCores) :
    Local cfg.numCores cfg.maxNumPktSets c s.chain (s.chain.write m.cells) L L where
  sound := {
    layout := by
      rw [System.write_cells, untouched.next, untouched.prev]
      exact sound.layout
    stocked := sound.stocked
    names := by
      rw [System.write_cells, untouched.ind]
      exact sound.names
    guard := sound.guard
    front := sound.front }
  pc _ _ := rfl
  lock := rfl
  free _ _ := rfl

theorem Steady.write (steady : Steady cfg s L) (untouched : Untouched s.chain.cells m.cells)
    (logs : ∀ d, d ≠ c → m.log d.val = s.log d.val) (calls : stage.AtPc (s.chain.pc c))
    (promised : stage.Pending → (m.log c.val).addPktSet = true → L (.free c) ≠ []) :
    Steady cfg ((s.store m).enter c stage) L := by
  apply steady.step (local_write steady.sound untouched c)
  · intro d other
    exact update_of_ne other _ _
  · exact logs
  · change (update s.stage c stage c).AtPc (s.chain.pc c)
    rwa [update_self]
  · intro pending
    change (update s.stage c stage c).Pending at pending
    rw [update_self] at pending
    exact promised pending

/-- A core that moves on without writing anything. -/
theorem Steady.move (steady : Steady cfg s L) (calls : stage.AtPc (s.chain.pc c))
    (promised : stage.Pending → (s.stage c).Pending) : Steady cfg (s.enter c stage) L :=
  steady.write (m := s.manager) (Untouched.refl _) (fun _ _ => rfl) calls
    fun pending => steady.promised c (promised pending)

/-- Every attempt begins with an empty log entry. -/
theorem Steady.clear (steady : Steady cfg s L) (idle : s.chain.pc c = .idle) (id : Id) (time : Int) :
    Steady cfg ((s.store (addPktSetLogClear c.val s.manager)).enter c (.attempt id time false)) L := by
  apply steady.write (Untouched.refl _)
  · intro d other
    exact update_of_ne (fun same => other (Fin.ext same)) _ _
  · exact idle
  · intro _ logged
    simp [addPktSetLogClear] at logged

theorem storePktSet_untouched {id : Id} {p i : Nat} {m' : Manager Id S}
    (ran : storePktSet cfg id p i m = some m') : Untouched m.cells m'.cells ∧ m'.log = m.log := by
  simp only [storePktSet, Option.bind_eq_bind] at ran
  obtain ⟨linked, put, ran⟩ := Option.bind_eq_some_iff.mp ran
  have first := put_untouched put
  split at ran
  · obtain ⟨related, putRelated, wrote⟩ := Option.bind_eq_some_iff.mp ran
    cases wrote
    exact ⟨first.trans (put_untouched putRelated), rfl⟩
  · cases ran
    exact ⟨first, rfl⟩

theorem erasePktSet_untouched {runs : ExpiredRuns S} {p i : Nat} {gone : Expired Id S} {m' : Manager Id S}
    (ran : erasePktSet cfg runs i p m = some (gone, m')) : Untouched m.cells m'.cells ∧ m'.log = m.log := by
  simp only [erasePktSet, Option.bind_eq_bind] at ran
  obtain ⟨cut, erased, ran⟩ := Option.bind_eq_some_iff.mp ran
  have first := erase_untouched erased
  split at ran
  · obtain ⟨related, erasedRelated, wrote⟩ := Option.bind_eq_some_iff.mp ran
    cases wrote
    exact ⟨first.trans (erase_untouched erasedRelated), rfl⟩
  · cases ran
    exact ⟨first, rfl⟩

/-- `add_pkt_set_log` writes the log entry of its core, and returns true only
where the free list of the core is not empty. -/
theorem addPktSetLog_spec {state : S} {related : Option Id} {answer : Bool}
    (layout : Layout cfg.numCores m.cells.nextOf m.cells.prevOf L) {m' : Manager Id S}
    (ran : addPktSetLog cfg state c.val related m = (answer, m')) :
    m'.cells = m.cells ∧ (∀ d, d ≠ c → m'.log d.val = m.log d.val) ∧
      ((m'.log c.val).addPktSet = true → (m.log c.val).addPktSet = true ∨ L (.free c) ≠ []) := by
  rw [addPktSetLog] at ran
  split at ran
  · cases ran
    exact ⟨rfl, fun _ _ => rfl, Or.inl⟩
  · rename_i free
    cases ran
    refine ⟨rfl, fun d other => update_of_ne (fun same => other (Fin.ext same)) _ _, fun _ => Or.inr ?_⟩
    exact (hasFreeIndexes_iff layout c).mp (by simpa using free)

/-- A core that has logged a registration does not miss, and no core searches the
other free lists. -/
theorem machine_step {e : Option (ChainEvent cfg)} (steady : Steady cfg s L) (step : MachineStep cfg s e s') :
    (∃ M, Steady cfg s' M) ∧ ∀ c, e ≠ some (.missed c) ∧ e ≠ some (.exhausted c) := by
  have at_stage : ∀ {c stage}, s.stage c = stage → stage.AtPc (s.chain.pc c) :=
    fun {c _} here => here ▸ steady.calls c
  have idle_at : ∀ {c stage}, s.stage c = stage → (∀ pc, stage.AtPc pc = (pc = .idle)) →
      s.chain.pc c = .idle := fun {c _} here plain => plain (s.chain.pc c) ▸ at_stage here
  cases step with
  | attempt c id time here => exact ⟨⟨L, steady.clear (at_stage here) id time⟩, fun _ => ⟨nofun, nofun⟩⟩
  | abort c here => exact ⟨⟨L, steady.clear (at_stage here) _ _⟩, fun _ => ⟨nofun, nofun⟩⟩
  | addPktSet c state related here ran =>
    obtain ⟨cells, logs, answered⟩ := addPktSetLog_spec (L := L) steady.sound.layout ran
    refine ⟨⟨L, steady.write (cells ▸ Untouched.refl _) logs (idle_at here fun _ => rfl) fun _ logged => ?_⟩,
      fun _ => ⟨nofun, nofun⟩⟩
    rcases answered logged with before | free
    · exact steady.promised c (by rw [here]; trivial) before
    · exact free
  | commit c here =>
    exact ⟨⟨L, steady.move (idle_at here fun _ => rfl) fun _ => by rw [here]; trivial⟩, fun _ => ⟨nofun, nofun⟩⟩
  | skip c here _ => exact ⟨⟨L, steady.move (idle_at here fun _ => rfl) nofun⟩, fun _ => ⟨nofun, nofun⟩⟩
  | pop c here logged popped linking =>
    obtain ⟨x, l, _, moved⟩ := step_popped steady.sound popped
    exact ⟨⟨_, steady.run moved ⟨_, _, linking⟩ nofun⟩, fun _ => ⟨nofun, nofun⟩⟩
  | miss c here logged missed _ =>
    have empty := step_missed steady.sound missed
    exact absurd empty (steady.promised c (by rw [here]; trivial) logged)
  | search c here searching =>
    obtain ⟨x, time, linking⟩ := at_stage here
    exact absurd linking (step_inGlobal searching x time)
  | exhausted c here exhausted =>
    obtain ⟨x, time, linking⟩ := at_stage here
    exact absurd linking (step_exhausted exhausted x time)
  | allocated c here allocated =>
    obtain ⟨idle, M, moved, _⟩ := step_allocated steady.sound allocated
    exact ⟨⟨M, steady.run moved ⟨idle, rfl⟩ nofun⟩, fun _ => ⟨nofun, nofun⟩⟩
  | put c here ran =>
    obtain ⟨untouched, logs⟩ := storePktSet_untouched ran
    exact ⟨⟨L, steady.write untouched (fun d _ => congrFun logs d.val) (at_stage here).1 nofun⟩,
      fun _ => ⟨nofun, nofun⟩⟩
  | unknown c id here _ => exact ⟨⟨L, steady⟩, fun _ => ⟨nofun, nofun⟩⟩
  | lookup c id here _ rejuvenated =>
    obtain ⟨pc, M, moved, free⟩ := step_rejuvenated steady.sound rejuvenated
    refine ⟨⟨M, steady.step moved (fun _ _ => rfl) (fun _ _ => rfl) ?_ ?_⟩, fun _ => ⟨nofun, nofun⟩⟩
    · exact pc ▸ steady.calls c
    · rw [free]
      exact steady.promised c
  | otherHandler c state related here ran =>
    obtain ⟨cells, logs, _⟩ := addPktSetLog_spec (L := L) steady.sound.layout ran
    refine ⟨⟨L, steady.step (local_write steady.sound (cells ▸ Untouched.refl _) c) (fun _ _ => rfl) logs
      (steady.calls c) fun pending => ?_⟩, fun _ => ⟨nofun, nofun⟩⟩
    change (s.stage c).Pending at pending
    rcases here with here | ⟨_, _, here⟩ <;> exact (here ▸ pending).elim
  | sweep c lastTime here => exact ⟨⟨L, steady.move (idle_at here fun _ => rfl) nofun⟩, fun _ => ⟨nofun, nofun⟩⟩
  | expired c here _ => exact ⟨⟨L, steady.move (idle_at here fun _ => rfl) nofun⟩, fun _ => ⟨nofun, nofun⟩⟩
  | swept c here _ => exact ⟨⟨L, steady.move (idle_at here fun _ => rfl) nofun⟩, fun _ => ⟨nofun, nofun⟩⟩
  | erase c runs here ran =>
    obtain ⟨untouched, logs⟩ := erasePktSet_untouched ran
    exact ⟨⟨L, steady.write untouched (fun d _ => congrFun logs d.val) (Or.inl (idle_at here fun _ => rfl)) nofun⟩,
      fun _ => ⟨nofun, nofun⟩⟩
  | unlink c here unlinked =>
    obtain ⟨leaving, M, moved, free⟩ := step_unlinked steady.sound unlinked
    refine ⟨⟨M, steady.step moved (fun _ _ => rfl) (fun _ _ => rfl) ?_ ?_⟩, fun _ => ⟨nofun, nofun⟩⟩
    · change (s.stage c).AtPc _
      rw [here]
      exact Or.inr leaving
    · rw [free]
      exact steady.promised c
  | freed c here freed =>
    obtain ⟨idle, M, moved⟩ := step_freed steady.sound freed
    exact ⟨⟨M, steady.run moved idle nofun⟩, fun _ => ⟨nofun, nofun⟩⟩
  | refused c here refused =>
    obtain ⟨rfl, idle⟩ := step_refused refused
    have moved : Local cfg.numCores cfg.maxNumPktSets c s.chain s.chain L L :=
      ⟨steady.sound, fun _ _ => rfl, rfl, fun _ _ => rfl⟩
    exact ⟨⟨L, steady.run moved idle nofun⟩, fun _ => ⟨nofun, nofun⟩⟩

/-- What `add_pkt_set_commit` relies on: the allocation for a logged registration
can take the first index of the own free list, then returns it, and no index is
used that was not returned. -/
structure Admitted (cfg : Config Id) (s : Machine cfg.numCores Id S) (c : Fin cfg.numCores) : Prop where
  begins : ∀ id time, s.stage c = .committing id time → (s.log c.val).addPktSet = true →
    ∃ s', MachineStep cfg s (some (.popped c)) s'
  returns : ∀ id, s.stage c = .allocating id → ∃ i s', MachineStep cfg s (some (.allocated c i)) s'
  initialised : ∀ id index, s.stage c = .storing id index → index ≠ none

theorem Steady.admitted (steady : Steady cfg s L) (c : Fin cfg.numCores) : Admitted cfg s c where
  begins id time here logged := by
    have idle : s.chain.pc c = .idle := by
      have quiet := steady.calls c
      rwa [here] at quiet
    cases split : L (.free c) with
    | nil => exact absurd split (steady.promised c (by rw [here]; trivial) logged)
    | cons x l =>
      have ran : popLocal cfg.numCores c.val s.chain.cells =
          (some x, (popLocal cfg.numCores c.val s.chain.cells).2) :=
        Prod.ext (popLocal_cons steady.sound.layout split).1 rfl
      exact ⟨_, .pop c here logged (.pop c time idle (steady.unlocked c) ran) (update_self _ _ _)⟩
  returns id here := by
    have linking := steady.calls c
    rw [here] at linking
    obtain ⟨x, time, linking⟩ := linking
    exact ⟨_, _, .allocated c here (.link c linking)⟩
  initialised id index here none := by
    have quiet := steady.calls c
    rw [here, none] at quiet
    exact Bool.false_ne_true quiet.2

/-- All cores are outside the manager. -/
def Machine.start {n : Nat} (m : Manager Id S) : Machine n Id S :=
  ⟨.start m.cells, m.buckets, m.pktSetState, m.log, fun _ => .outside⟩

theorem steady_start {init : Manager Id S} (valid : Valid cfg.numCores cfg.maxNumPktSets init.cells L) :
    Steady cfg (.start init) L where
  sound := sound_start valid
  unlocked _ := rfl
  calls _ := rfl
  promised _ pending := pending.elim

/-- In every interleaving the allocation of a logged registration returns 1: it
never finds the own free list empty, and never comes back without an index. -/
theorem logged_registration_allocates (cores : 0 < cfg.numCores) (room : cfg.numCores ≤ cfg.maxNumPktSets)
    (small : 2 * cfg.maxNumPktSets + 16 * cfg.numCores + 1 < 2 ^ 31) (memory : Manager Id S) :
    ∃ init, (numConcurrentCells cfg.maxNumPktSets cfg.numCores).isSome = true ∧ initPktSetManager cfg memory = some init ∧
      ∀ history s, Trace (MachineStep cfg) (.start init) history s →
        ∀ c, some (.missed c) ∉ history ∧ some (.exhausted c) ∉ history ∧ Admitted cfg s c := by
  obtain ⟨ended, valid⟩ := init_valid cores room memory.cells
  refine ⟨_, ?_, by rw [initPktSetManager, ended]; rfl, fun history s run => ?_⟩
  · exact Option.isSome_iff_exists.mpr ⟨_, numConcurrentCells_eq_some.mpr ⟨small, rfl⟩⟩
  have kept : (∃ L, Steady cfg s L) ∧ ∀ c, some (.missed c) ∉ history ∧ some (.exhausted c) ∉ history := by
    refine run.rule (P := fun history s => (∃ L, Steady cfg s L) ∧
      ∀ c, some (.missed c) ∉ history ∧ some (.exhausted c) ∉ history) ?_ ?_
    · exact ⟨⟨_, steady_start valid⟩, fun c => ⟨List.not_mem_nil, List.not_mem_nil⟩⟩
    · intro past t e u _ before step
      obtain ⟨⟨L, steady⟩, absent⟩ := before
      obtain ⟨steady', event⟩ := machine_step steady step
      refine ⟨steady', fun c => ⟨?_, ?_⟩⟩
      · rw [List.mem_append, List.mem_singleton]
        rintro (earlier | last)
        · exact (absent c).1 earlier
        · exact (event c).1 last.symm
      · rw [List.mem_append, List.mem_singleton]
        rintro (earlier | last)
        · exact (absent c).2 earlier
        · exact (event c).2 last.symm
  obtain ⟨⟨L, steady⟩, absent⟩ := kept
  exact fun c => ⟨(absent c).1, (absent c).2, steady.admitted c⟩

theorem logged_registration_allocates_sample : 0 < sampleConfig.numCores ∧
    sampleConfig.numCores ≤ sampleConfig.maxNumPktSets ∧
    2 * sampleConfig.maxNumPktSets + 16 * sampleConfig.numCores + 1 < 2 ^ 31 ∧ ∀ memory : Manager Nat Nat,
      ∃ init, (numConcurrentCells sampleConfig.maxNumPktSets sampleConfig.numCores).isSome = true ∧
        initPktSetManager sampleConfig memory = some init ∧
        ∀ history s, Trace (MachineStep sampleConfig) (.start init) history s →
          ∀ c, some (.missed c) ∉ history ∧ some (.exhausted c) ∉ history ∧ Admitted sampleConfig s c :=
  ⟨sampleConfig_fits.cores, sampleConfig_fits.room, sampleConfig_fits.small,
    fun memory => logged_registration_allocates sampleConfig_fits.cores sampleConfig_fits.room sampleConfig_fits.small memory⟩

end Nfos.PktSetManager
