import Nfos.HandlerCalls

/-! What the handlers keep of a packet holds in every call and after the retries, which start from the
packet that the aborted attempts have left. -/
namespace Nfos.DataPlane
open Function PktSetManager Retry
variable {Ω G P S Id B : Type} {ctx : Context Ω G P S Id B} {Keeps : P → P → Prop} {pkts : Nat → P} {size : Nat}

/-- The handlers keep a relation to the packet that was parsed. -/
def HandlersKeep (ctx : Context Ω G P S Id B) (Keeps : P → P → Prop) : Prop :=
  ∀ branch pktClass contention call outcome parsed, ctx.handler branch pktClass contention call = some outcome →
    Keeps parsed call.pkt → Keeps parsed outcome.pkt

/-- The first packets are as the handlers keep them, now and in the calls behind the records. -/
structure Preserved (ctx : Context Ω G P S Id B) (Keeps : P → P → Prop) (pkts : Nat → P) (size : Nat) (p : Plane G P S Id) : Prop where
  packets : ∀ n < size, Keeps (pkts n) (p.packet n)
  calls : ∀ v ∈ p.running ++ p.history.map Prod.fst, ∃ contention call outcome, Made ctx pkts v contention call outcome ∧
    (v.position < size → Keeps (pkts v.position) call.pkt)

section Calls
variable {b : Batch Id} {branch : Branch} {n : Nat} {p p' : Plane G P S Id} {a : Attempt Ω G} {done : Bool}

theorem Preserved.of_same (preserved : Preserved ctx Keeps pkts size p) (packet : p'.packet = p.packet)
    (running : p'.running = p.running) (history : p'.history = p.history) : Preserved ctx Keeps pkts size p' := by
  constructor
  · rw [packet]
    exact preserved.packets
  · rw [running, history]
    exact preserved.calls

theorem Preserved.invoke {contention : Ω} {view : G} {outcome : Outcome G P S Id} (handlers : HandlersKeep ctx Keeps)
    (preserved : Preserved ctx Keeps pkts size p)
    (ran : DataPlane.invoke ctx branch n (ctx.nf.nfPktDispatcher (pkts n) ctx.device) contention view p = some (outcome, p')) :
    Preserved ctx Keeps pkts size p' := by
  obtain ⟨handled, rfl⟩ := invoke_iff.mp ran
  constructor
  case packets =>
    intro m within
    change Keeps (pkts m) (update p.packet n outcome.pkt m)
    by_cases own : m = n
    · subst own
      rw [update_self]
      exact handlers _ _ _ _ _ _ handled (preserved.packets m within)
    · rw [update_of_ne own]
      exact preserved.packets m within
  case calls =>
    intro v member
    simp only [invoked, List.mem_append, List.mem_singleton] at member
    rcases member with (running | rfl) | ended
    · exact preserved.calls v (List.mem_append_left _ running)
    · exact ⟨contention, _, outcome, ⟨rfl, ⟨view, p, rfl⟩, handled, rfl, rfl⟩, preserved.packets n⟩
    · exact preserved.calls v (List.mem_append_right _ ended)

/-- The end of a transaction moves its records to the history. -/
theorem Preserved.ended (preserved : Preserved ctx Keeps pkts size p) (packet : p'.packet = p.packet) (running : p'.running = [])
    {flag : Bool} (history : p'.history = p.history ++ p.running.map (·, flag)) : Preserved ctx Keeps pkts size p' := by
  constructor
  · rw [packet]
    exact preserved.packets
  · intro v member
    simp only [running, history, List.nil_append, List.map_append, List.map_map, List.mem_append, Function.comp_def,
      List.map_id'] at member
    apply preserved.calls v
    rcases member with old | new
    · exact List.mem_append_right _ old
    · exact List.mem_append_left _ new

theorem abortTxn_packet (ctx : Context Ω G P S Id B) (branch : Branch) (p : Plane G P S Id) :
    (abortTxn ctx branch p).packet = p.packet := by
  unfold abortTxn
  dsimp only
  split <;> rfl

theorem prepare_packet (ctx : Context Ω G P S Id B) (branch : Branch) (n : Nat) (p : Plane G P S Id) :
    (prepare ctx branch n p).packet = p.packet := by
  cases branch with
  | noPktSet => rfl
  | registered =>
    unfold prepare
    dsimp only
    split <;> rfl
  | unknown => rfl

theorem Preserved.transaction {work : Work Ω G P S Id} (preserved : Preserved ctx Keeps pkts size p)
    (works : ∀ contention view q result q', Preserved ctx Keeps pkts size q → work contention view q = some (result, q') →
      Preserved ctx Keeps pkts size q')
    (ran : DataPlane.transaction ctx branch work a p = some (done, p')) : Preserved ctx Keeps pkts size p' := by
  cases done with
  | false =>
    obtain ⟨result, q, worked, rfl⟩ := transaction_failed ran
    obtain ⟨history, running, _⟩ := abortTxn_frame ctx branch q
    exact (works _ _ _ _ _ (by exact preserved.of_same rfl rfl rfl) worked).ended (abortTxn_packet ctx branch q) running history
  | true =>
    obtain ⟨view, q, worked, _, rfl⟩ := transaction_done ran
    have after := works _ _ _ _ _ (by exact preserved.of_same rfl rfl rfl) worked
    exact after.ended rfl rfl (by rfl)

theorem Preserved.retry {attempt : Attempt Ω G → Plane G P S Id → Option (Bool × Plane G P S Id)}
    (attempts : ∀ a q done q', Preserved ctx Keeps pkts size q → attempt a q = some (done, q') → Preserved ctx Keeps pkts size q')
    (preserved : Preserved ctx Keeps pkts size p) {tape rest : List (Attempt Ω G)}
    (ran : Retry.retry attempt tape p = some (p', rest)) : Preserved ctx Keeps pkts size p' := by
  obtain ⟨_, a, q, _, trace, finish⟩ := retry_eq_some ran
  refine attempts a q true p' ?_ finish
  exact trace.keeps preserved fun u a t before failure => attempts a u false t before failure

theorem Preserved.retryPkt (handlers : HandlersKeep ctx Keeps) (preserved : Preserved ctx Keeps pkts size p) {tape rest : List (Attempt Ω G)}
    (ran : Retry.retry (attemptPkt ctx branch n (ctx.nf.nfPktDispatcher (pkts n) ctx.device)) tape p = some (p', rest)) :
    Preserved ctx Keeps pkts size p' := by
  refine Preserved.retry ?_ preserved ran
  intro a q done q' before ran
  obtain ⟨running, history, _⟩ := prepare_frame ctx branch n q
  refine (before.of_same (prepare_packet ctx branch n q) running history).transaction ?_ ran
  intro contention view q result q' before worked
  simp only [Option.bind_eq_bind, Option.bind_eq_some_iff, Option.pure_def, Option.some.injEq, Prod.mk.injEq] at worked
  obtain ⟨⟨outcome, u⟩, invoked, _, rfl⟩ := worked
  exact before.invoke handlers invoked

/-- A packet without batching. -/
theorem processPkt_preserved {buffer : B} {tape rest : List (Attempt Ω G)} {dst : Nat} (handlers : HandlersKeep ctx Keeps)
    (refl : ∀ pkt, Keeps pkt pkt) (ran : processPkt ctx buffer tape p = some (dst, p', rest)) :
    Preserved ctx Keeps (fun _ => (ctx.nf.nfPktParser buffer).2) 1 p' := by
  have start : ∀ u : Plane G P S Id, u.packet = update p.packet 0 (ctx.nf.nfPktParser buffer).2 → u.running = [] → u.history = [] →
      Preserved ctx Keeps (fun _ => (ctx.nf.nfPktParser buffer).2) 1 u := by
    intro u packet running history
    constructor
    · intro n within
      obtain rfl := Nat.lt_one_iff.mp within
      rw [packet, update_self]
      exact refl _
    · intro v member
      simp [running, history] at member
  cases parsed : (ctx.nf.nfPktParser buffer).1 with
  | false =>
    simp only [processPkt, parsed, Bool.false_eq_true, if_false, Option.bind_eq_bind, Option.bind_some, Option.pure_def,
      Option.some.injEq, Prod.mk.injEq] at ran
    obtain ⟨_, rfl, _⟩ := ran
    exact start _ rfl rfl rfl
  | true =>
    simp only [processPkt, parsed, if_true, Option.bind_eq_bind, Option.bind_eq_some_iff, Option.pure_def, Option.some.injEq,
      Prod.mk.injEq] at ran
    obtain ⟨⟨q, left⟩, handled, rfl, rfl, rfl⟩ := ran
    unfold handlePkt at handled
    split at handled
    · exact Preserved.retryPkt handlers (start _ rfl rfl rfl) handled
    · simp only [Option.bind_eq_bind, Option.bind_eq_some_iff] at handled
      obtain ⟨⟨slot, manager⟩, found, handled⟩ := handled
      cases slot with
      | some slot => exact Preserved.retryPkt handlers (by exact start _ rfl rfl rfl) handled
      | none =>
        simp only [Option.bind_eq_some_iff, Option.pure_def, Option.some.injEq, Prod.mk.injEq] at handled
        obtain ⟨⟨u, rest⟩, retried, manager, committed, rfl, rfl⟩ := handled
        have after : Preserved ctx Keeps (fun _ => (ctx.nf.nfPktParser buffer).2) 1 u :=
          Preserved.retryPkt handlers (by exact start _ rfl rfl rfl) retried
        exact after.of_same rfl rfl rfl

theorem Preserved.handlePkts {before : Nat → Plane G P S Id → Plane G P S Id} {contention : Ω} {l : List Nat} {view : G}
    {result : Option G} (handlers : HandlersKeep ctx Keeps) (dispatch : ∀ n, b.dispatch n = ctx.nf.nfPktDispatcher (pkts n) ctx.device)
    (frame : ∀ n p, (before n p).packet = p.packet ∧ (before n p).running = p.running ∧ (before n p).history = p.history)
    (preserved : Preserved ctx Keeps pkts size p)
    (ran : DataPlane.handlePkts ctx b branch before contention l view p = some (result, p')) : Preserved ctx Keeps pkts size p' := by
  induction l generalizing view p with
  | nil =>
    simp only [DataPlane.handlePkts, Option.pure_def, Option.some.injEq, Prod.mk.injEq] at ran
    obtain ⟨_, rfl⟩ := ran
    exact preserved
  | cons n rest ih =>
    simp only [DataPlane.handlePkts, Option.bind_eq_bind, Option.bind_eq_some_iff, dispatch] at ran
    obtain ⟨⟨outcome, q⟩, invoked, continued⟩ := ran
    obtain ⟨packet, running, history⟩ := frame n p
    have after := (preserved.of_same packet running history).invoke handlers invoked
    split at continued
    · simp only [Option.pure_def, Option.some.injEq, Prod.mk.injEq] at continued
      obtain ⟨_, rfl⟩ := continued
      exact after
    · exact ih (by exact after.of_same rfl rfl rfl) continued

theorem beforeRegistered_packet (ctx : Context Ω G P S Id B) (n : Nat) (p : Plane G P S Id) :
    (beforeRegistered ctx n p).packet = p.packet := by
  unfold beforeRegistered
  dsimp only
  split <;> rfl

variable {c c' : Cursor Ω G P S Id}

theorem lookup_packet (ran : lookup ctx b c = some c') : c'.plane.packet = c.plane.packet := by
  unfold lookup at ran
  split at ran
  · simp only [Option.bind_eq_bind, Option.bind_eq_some_iff] at ran
    obtain ⟨⟨slot, manager⟩, _, ran⟩ := ran
    cases slot with
    | none =>
      obtain rfl := Option.some.inj ran
      rfl
    | some slot =>
      obtain rfl := Option.some.inj ran
      rfl
  · obtain rfl := Option.some.inj ran
    rfl

theorem Preserved.lookup (preserved : Preserved ctx Keeps pkts size c.plane) (ran : DataPlane.lookup ctx b c = some c') :
    Preserved ctx Keeps pkts size c'.plane :=
  preserved.of_same (lookup_packet ran) (lookup_looked ran).running (lookup_looked ran).history

theorem Preserved.handleNext (handlers : HandlersKeep ctx Keeps) (dispatch : ∀ n, b.dispatch n = ctx.nf.nfPktDispatcher (pkts n) ctx.device)
    (preserved : Preserved ctx Keeps pkts size c.plane) (ran : DataPlane.handleNext ctx b c = some c') :
    Preserved ctx Keeps pkts size c'.plane := by
  unfold DataPlane.handleNext at ran
  split at ran
  · simp only [handleUnknown, Option.bind_eq_bind, Option.bind_eq_some_iff, dispatch] at ran
    obtain ⟨⟨q, rest⟩, retried, manager, _, advanced⟩ := ran
    have start : Preserved ctx Keeps pkts size { c.plane with dstDevice := ctx.device } := preserved.of_same rfl rfl rfl
    have after : Preserved ctx Keeps pkts size q := Preserved.retryPkt handlers start retried
    exact Preserved.lookup (by exact after.of_same rfl rfl rfl) advanced
  · simp only [handleRegistered, Option.bind_eq_bind, Option.bind_eq_some_iff, Option.pure_def, Option.some.injEq] at ran
    obtain ⟨ahead, looked, ⟨q, rest⟩, retried, rfl⟩ := ran
    obtain ⟨start, _⟩ := Loop.loop_rule (fun c : Cursor Ω G P S Id => Preserved ctx Keeps pkts size c.plane)
      (fun s t before _ stepped => Preserved.lookup (by exact before) stepped) preserved looked
    refine Preserved.retry ?_ start retried
    intro a q done q' before ran
    have reset : Preserved ctx Keeps pkts size (if ctx.mutablePktSetState then resetLogPktSetState q else q) := by
      split
      · exact before.of_same rfl rfl rfl
      · exact before
    refine reset.transaction (fun _ _ _ _ _ known ran => known.handlePkts handlers dispatch (fun n p => ?_) ran) ran
    exact ⟨beforeRegistered_packet ctx n p, prepares_registered.running n p, prepares_registered.history n p⟩

theorem Preserved.handleBatch (handlers : HandlersKeep ctx Keeps) (dispatch : ∀ n, b.dispatch n = ctx.nf.nfPktDispatcher (pkts n) ctx.device)
    (preserved : Preserved ctx Keeps pkts size p) {tape rest : List (Attempt Ω G)}
    (ran : DataPlane.handleBatch ctx b tape p = some (p', rest)) : Preserved ctx Keeps pkts size p' := by
  unfold DataPlane.handleBatch at ran
  split at ran
  · refine Preserved.retry ?_ preserved ran
    intro a q done q' before ran
    unfold attemptNoPktSet at ran
    refine before.transaction (fun _ _ _ _ _ known ran => known.handlePkts handlers dispatch (fun n p => ?_) ran) ran
    exact ⟨rfl, rfl, rfl⟩
  · simp only [Option.bind_eq_bind, Option.bind_eq_some_iff, Option.pure_def, Option.some.injEq, Prod.mk.injEq] at ran
    obtain ⟨c, looked, u, looped, rfl, rfl⟩ := ran
    have start : Preserved ctx Keeps pkts size c.plane := Preserved.lookup (by exact preserved) looked
    exact (Loop.loop_rule (fun c : Cursor Ω G P S Id => Preserved ctx Keeps pkts size c.plane)
      (fun s t before _ stepped => before.handleNext handlers dispatch stepped) start looped).1

/-- The packets of a batch. -/
theorem processPkts_preserved {mbufs : Nat → B} {batchSize : Nat} {tape rest : List (Attempt Ω G)} (handlers : HandlersKeep ctx Keeps)
    (refl : ∀ pkt, Keeps pkt pkt) (ran : processPkts ctx mbufs batchSize tape p = some (p', rest)) :
    Preserved ctx Keeps (fun i => (ctx.nf.nfPktParser (mbufs i)).2) batchSize p' := by
  refine Preserved.handleBatch handlers (fun n => rfl) ?_ ran
  constructor
  · intro n within
    simp only [if_pos within]
    exact refl _
  · intro v member
    simp at member

end Calls
end Nfos.DataPlane
