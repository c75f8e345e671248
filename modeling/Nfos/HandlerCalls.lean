import Nfos.DataPlaneDelivery
import Nfos.PacketTable

/-! The calls behind the records of the handler invocations. -/
namespace Nfos.DataPlane
open Function PktSetManager Retry
variable {Ω G P S Id B : Type}

section Calls
variable {ctx : Context Ω G P S Id B} {pkts : Nat → P} {b : Batch Id} {branch : Branch} {n : Nat}
variable {p p' q : Plane G P S Id} {a : Attempt Ω G} {done : Bool}

/-- The invocation is that of a handler for one of the parsed packets. -/
structure Made (ctx : Context Ω G P S Id B) (pkts : Nat → P) (v : Invocation) (contention : Ω) (call : Call G P S Id)
    (outcome : Outcome G P S Id) : Prop where
  pktClass : v.pktClass = (ctx.nf.nfPktDispatcher (pkts v.position) ctx.device).pktClass
  given : ∃ view p, call = callAt ctx v.branch v.position (ctx.nf.nfPktDispatcher (pkts v.position) ctx.device) view p
  ran : ctx.handler v.branch v.pktClass contention call = some outcome
  abort : outcome.abort = v.abort
  actions : outcome.actions = v.actions

/-- There is a call behind every record. -/
def Known (ctx : Context Ω G P S Id B) (pkts : Nat → P) (p : Plane G P S Id) : Prop :=
  ∀ v ∈ p.running ++ p.history.map Prod.fst, ∃ contention call outcome, Made ctx pkts v contention call outcome

/-- What a transaction runs. -/
abbrev Work (Ω G P S Id : Type) : Type := Ω → G → Plane G P S Id → Option (Option G × Plane G P S Id)

/-- What the calls of the handlers and the ends of their transactions keep. -/
structure InvocationRule (ctx : Context Ω G P S Id B) (pkts : Nat → P) (J : Plane G P S Id → Prop) : Prop where
  same : ∀ {p p'}, J p → p'.running = p.running → p'.history = p.history → p'.packet = p.packet → J p'
  invoke : ∀ {branch n contention view p outcome p'}, J p →
    DataPlane.invoke ctx branch n (ctx.nf.nfPktDispatcher (pkts n) ctx.device) contention view p = some (outcome, p') → J p'
  ended : ∀ {p p' flag}, J p → p'.running = [] → p'.history = p.history ++ p.running.map (·, flag) → p'.packet = p.packet → J p'

theorem packet_abortTxn (ctx : Context Ω G P S Id B) (branch : Branch) (p : Plane G P S Id) :
    (abortTxn ctx branch p).packet = p.packet := by
  unfold abortTxn Plane.endTxn rollbackPktSetStates
  split
  · rfl
  · rfl

theorem packet_prepare (ctx : Context Ω G P S Id B) (branch : Branch) (n : Nat) (p : Plane G P S Id) :
    (prepare ctx branch n p).packet = p.packet := by
  cases branch with
  | noPktSet | unknown => rfl
  | registered =>
    unfold prepare
    dsimp only
    split
    · rfl
    · rfl

theorem packet_beforeRegistered (ctx : Context Ω G P S Id B) (n : Nat) (p : Plane G P S Id) :
    (beforeRegistered ctx n p).packet = p.packet := by
  unfold beforeRegistered
  dsimp only
  split
  · rfl
  · rfl

theorem packet_lookup {c c' : Cursor Ω G P S Id} (ran : DataPlane.lookup ctx b c = some c') : c'.plane.packet = c.plane.packet := by
  unfold DataPlane.lookup at ran
  split at ran
  · simp only [Option.bind_eq_bind, Option.bind_eq_some_iff] at ran
    obtain ⟨⟨slot, manager⟩, found, ran⟩ := ran
    cases slot with
    | none | some slot =>
      simp only [Option.pure_def, Option.some.injEq] at ran
      subst ran
      rfl
  · simp only [Option.pure_def, Option.some.injEq] at ran
    subst ran
    rfl

namespace InvocationRule
variable {J : Plane G P S Id → Prop}

theorem transaction (rule : InvocationRule ctx pkts J) {work : Work Ω G P S Id} (before : J p)
    (works : ∀ contention view q result q', J q → work contention view q = some (result, q') → J q')
    (ran : DataPlane.transaction ctx branch work a p = some (done, p')) : J p' := by
  cases done with
  | false =>
    obtain ⟨result, q, worked, rfl⟩ := transaction_failed ran
    obtain ⟨history, running, _⟩ := abortTxn_frame ctx branch q
    exact rule.ended (works _ _ _ _ _ (by exact rule.same before rfl rfl rfl) worked) running history (packet_abortTxn ..)
  | true =>
    obtain ⟨view, q, worked, _, rfl⟩ := transaction_done ran
    have after := works _ _ _ _ _ (by exact rule.same before rfl rfl rfl) worked
    exact rule.ended after rfl (by rfl) rfl

theorem retry {attempt : Attempt Ω G → Plane G P S Id → Option (Bool × Plane G P S Id)}
    (attempts : ∀ a q done q', J q → attempt a q = some (done, q') → J q') (before : J p)
    {tape rest : List (Attempt Ω G)} (ran : Retry.retry attempt tape p = some (p', rest)) : J p' := by
  obtain ⟨_, a, q, _, trace, finish⟩ := retry_eq_some ran
  refine attempts a q true p' ?_ finish
  exact trace.keeps before fun u a t before failure => attempts a u false t before failure

theorem attemptPkt (rule : InvocationRule ctx pkts J) (before : J p)
    (ran : DataPlane.attemptPkt ctx branch n (ctx.nf.nfPktDispatcher (pkts n) ctx.device) a p = some (done, p')) : J p' := by
  obtain ⟨running, history, _⟩ := prepare_frame ctx branch n p
  refine rule.transaction (rule.same before running history (packet_prepare ..)) ?_ ran
  intro contention view q result q' before worked
  simp only [Option.bind_eq_bind, Option.bind_eq_some_iff, Option.pure_def, Option.some.injEq, Prod.mk.injEq] at worked
  obtain ⟨⟨outcome, u⟩, invoked, _, rfl⟩ := worked
  exact rule.invoke before invoked

theorem retryPkt (rule : InvocationRule ctx pkts J) (before : J p) {tape rest : List (Attempt Ω G)}
    (ran : Retry.retry (DataPlane.attemptPkt ctx branch n (ctx.nf.nfPktDispatcher (pkts n) ctx.device)) tape p = some (p', rest)) :
    J p' :=
  retry (fun _ _ _ _ before ran => rule.attemptPkt before ran) before ran

theorem handlePkts (rule : InvocationRule ctx pkts J) {before : Nat → Plane G P S Id → Plane G P S Id} {contention : Ω}
    {l : List Nat} {view : G} {result : Option G} (dispatch : ∀ n, b.dispatch n = ctx.nf.nfPktDispatcher (pkts n) ctx.device)
    (frame : ∀ n p, (before n p).running = p.running ∧ (before n p).history = p.history ∧ (before n p).packet = p.packet) (start : J p)
    (ran : DataPlane.handlePkts ctx b branch before contention l view p = some (result, p')) : J p' := by
  induction l generalizing view p with
  | nil =>
    simp only [DataPlane.handlePkts, Option.pure_def, Option.some.injEq, Prod.mk.injEq] at ran
    obtain ⟨_, rfl⟩ := ran
    exact start
  | cons n rest ih =>
    simp only [DataPlane.handlePkts, Option.bind_eq_bind, Option.bind_eq_some_iff, dispatch] at ran
    obtain ⟨⟨outcome, q⟩, invoked, continued⟩ := ran
    obtain ⟨running, history, packet⟩ := frame n p
    have after := rule.invoke (rule.same start running history packet) invoked
    split at continued
    · simp only [Option.pure_def, Option.some.injEq, Prod.mk.injEq] at continued
      obtain ⟨_, rfl⟩ := continued
      exact after
    · exact ih (by exact rule.same after rfl rfl rfl) continued

theorem noPktSet (rule : InvocationRule ctx pkts J) (dispatch : ∀ n, b.dispatch n = ctx.nf.nfPktDispatcher (pkts n) ctx.device)
    (before : J p) {tape rest : List (Attempt Ω G)} (ran : Retry.retry (attemptNoPktSet ctx b) tape p = some (p', rest)) : J p' := by
  refine retry ?_ before ran
  intro a q done q' before ran
  unfold attemptNoPktSet at ran
  refine rule.transaction before (fun _ _ _ _ _ before ran => rule.handlePkts dispatch (fun n p => ?_) before ran) ran
  exact ⟨rfl, rfl, rfl⟩

theorem registered (rule : InvocationRule ctx pkts J) (dispatch : ∀ n, b.dispatch n = ctx.nf.nfPktDispatcher (pkts n) ctx.device)
    (before : J p) {startN endN : Nat} {tape rest : List (Attempt Ω G)}
    (ran : Retry.retry (attemptRegistered ctx b startN endN) tape p = some (p', rest)) : J p' := by
  refine retry ?_ before ran
  intro a q done q' before ran
  have start : J (if ctx.mutablePktSetState then resetLogPktSetState q else q) := by
    split
    · exact rule.same before rfl rfl rfl
    · exact before
  refine rule.transaction start (fun _ _ _ _ _ before ran => rule.handlePkts dispatch (fun n p => ?_) before ran) ran
  exact ⟨prepares_registered.running n p, prepares_registered.history n p, packet_beforeRegistered ctx n p⟩

variable {c c' : Cursor Ω G P S Id}

theorem lookup (rule : InvocationRule ctx pkts J) (before : J c.plane) (ran : DataPlane.lookup ctx b c = some c') : J c'.plane :=
  rule.same before (lookup_looked ran).running (lookup_looked ran).history (packet_lookup ran)

theorem handleNext (rule : InvocationRule ctx pkts J) (dispatch : ∀ n, b.dispatch n = ctx.nf.nfPktDispatcher (pkts n) ctx.device)
    (before : J c.plane) (ran : DataPlane.handleNext ctx b c = some c') : J c'.plane := by
  unfold DataPlane.handleNext at ran
  split at ran
  · simp only [handleUnknown, Option.bind_eq_bind, Option.bind_eq_some_iff, dispatch] at ran
    obtain ⟨⟨q, rest⟩, retried, manager, _, advanced⟩ := ran
    have start : J { c.plane with dstDevice := ctx.device } := rule.same before rfl rfl rfl
    exact rule.lookup (by exact rule.same (rule.retryPkt start retried) rfl rfl rfl) advanced
  · simp only [handleRegistered, Option.bind_eq_bind, Option.bind_eq_some_iff, Option.pure_def, Option.some.injEq] at ran
    obtain ⟨ahead, looked, ⟨q, rest⟩, retried, rfl⟩ := ran
    obtain ⟨start, _⟩ := Loop.loop_rule (fun c : Cursor Ω G P S Id => J c.plane)
      (fun s t before _ stepped => rule.lookup (by exact before) stepped) before looked
    exact rule.registered dispatch start retried

theorem handleBatch (rule : InvocationRule ctx pkts J) (dispatch : ∀ n, b.dispatch n = ctx.nf.nfPktDispatcher (pkts n) ctx.device)
    (before : J p) {tape rest : List (Attempt Ω G)} (ran : DataPlane.handleBatch ctx b tape p = some (p', rest)) : J p' := by
  unfold DataPlane.handleBatch at ran
  split at ran
  · exact rule.noPktSet dispatch before ran
  · simp only [Option.bind_eq_bind, Option.bind_eq_some_iff, Option.pure_def, Option.some.injEq, Prod.mk.injEq] at ran
    obtain ⟨c, looked, u, looped, rfl, rfl⟩ := ran
    have start : J c.plane := rule.lookup (by exact before) looked
    exact (Loop.loop_rule (fun c : Cursor Ω G P S Id => J c.plane)
      (fun s t before _ stepped => rule.handleNext dispatch before stepped) start looped).1

/-- From the packets of a batch as they were parsed. -/
theorem processPkts {mbufs : Nat → B} {batchSize : Nat} {tape rest : List (Attempt Ω G)}
    (rule : InvocationRule ctx (fun i => (ctx.nf.nfPktParser (mbufs i)).2) J)
    (start : ∀ q : Plane G P S Id, q.running = [] → q.history = [] →
      (∀ i, q.packet i = if i < batchSize then (ctx.nf.nfPktParser (mbufs i)).2 else p.packet i) → J q)
    (ran : DataPlane.processPkts ctx mbufs batchSize tape p = some (p', rest)) : J p' :=
  rule.handleBatch (fun _ => rfl) (start _ rfl rfl fun _ => rfl) ran

theorem processPkt {buffer : B} {tape rest : List (Attempt Ω G)} {dst : Nat} (parsed : (ctx.nf.nfPktParser buffer).1 = true)
    (rule : InvocationRule ctx (fun _ => (ctx.nf.nfPktParser buffer).2) J)
    (start : ∀ q : Plane G P S Id, q.running = [] → q.history = [] → q.packet = update p.packet 0 (ctx.nf.nfPktParser buffer).2 → J q)
    (ran : DataPlane.processPkt ctx buffer tape p = some (dst, p', rest)) : J p' := by
  simp only [DataPlane.processPkt, parsed, if_true, Option.bind_eq_bind, Option.bind_eq_some_iff, Option.pure_def, Option.some.injEq,
    Prod.mk.injEq] at ran
  obtain ⟨⟨q, left⟩, handled, rfl, rfl, rfl⟩ := ran
  unfold handlePkt at handled
  split at handled
  · exact rule.retryPkt (by exact start _ rfl rfl rfl) handled
  · simp only [Option.bind_eq_bind, Option.bind_eq_some_iff] at handled
    obtain ⟨⟨slot, manager⟩, found, handled⟩ := handled
    cases slot with
    | some slot => exact rule.retryPkt (by exact start _ rfl rfl rfl) handled
    | none =>
      simp only [Option.bind_eq_some_iff, Option.pure_def, Option.some.injEq, Prod.mk.injEq] at handled
      obtain ⟨⟨u, rest⟩, retried, manager, committed, rfl, rfl⟩ := handled
      have after : J u := rule.retryPkt (by exact start _ rfl rfl rfl) retried
      exact rule.same after rfl rfl rfl

end InvocationRule

theorem known_rule : InvocationRule ctx pkts (Known ctx pkts) where
  same known running history _ := by
    unfold Known
    rw [running, history]
    exact known
  invoke known ran := by
    obtain ⟨handled, rfl⟩ := invoke_iff.mp ran
    intro v member
    simp only [invoked, List.mem_append, List.mem_singleton] at member
    rcases member with (running | rfl) | ended
    · exact known v (List.mem_append_left _ running)
    · exact ⟨_, _, _, rfl, ⟨_, _, rfl⟩, handled, rfl, rfl⟩
    · exact known v (List.mem_append_right _ ended)
  ended known running history _ := by
    intro v member
    simp only [running, history, List.nil_append, List.map_append, List.map_map, List.mem_append, Function.comp_def,
      List.map_id'] at member
    apply known v
    rcases member with old | new
    · exact List.mem_append_right _ old
    · exact List.mem_append_left _ new

theorem known_fresh {p : Plane G P S Id} (running : p.running = []) (history : p.history = []) : Known ctx pkts p := by
  intro v member
  simp [running, history] at member

/-- The packets of a batch as they were parsed. -/
theorem processPkts_calls {mbufs : Nat → B} {batchSize : Nat} {tape rest : List (Attempt Ω G)}
    (ran : processPkts ctx mbufs batchSize tape p = some (p', rest)) :
    Known ctx (fun i => (ctx.nf.nfPktParser (mbufs i)).2) p' :=
  known_rule.processPkts (fun _ running history _ => known_fresh running history) ran

theorem processPkt_calls {buffer : B} {tape rest : List (Attempt Ω G)} {dst : Nat} (parsed : (ctx.nf.nfPktParser buffer).1 = true)
    (ran : processPkt ctx buffer tape p = some (dst, p', rest)) :
    Known ctx (fun _ => (ctx.nf.nfPktParser buffer).2) p' :=
  known_rule.processPkt parsed (fun _ running history _ => known_fresh running history) ran

end Calls

end Nfos.DataPlane
