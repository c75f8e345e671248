import Nfos.DataPlaneBatches

/-! Where a packet goes. The destination device is not part of the transaction, so the
calls of an aborted attempt count unless the loop resets the device before a retry. -/
namespace Nfos.DataPlane
open Function PktSetManager
variable {Ω G P S Id B : Type}

/-- The handler calls `send_pkt` or `flood_pkt`. -/
def Sends (v : Invocation) : Prop := ∃ action ∈ v.actions, action ≠ .dropPkt

/-- The calls of an aborted attempt that the batched variant does not forget. -/
def survives (v : Invocation) : List Action :=
  match v.branch with
  | .noPktSet => if v.abort then [] else v.actions
  | .registered => []
  | .unknown => v.actions

theorem deliver_of_drops {actions : List Action} (drops : ∀ action ∈ actions, action = .dropPkt) (dst : Nat) :
    deliver dst actions = dst := by
  induction actions with
  | nil => rfl
  | cons action rest ih =>
    have first := drops action List.mem_cons_self
    subst first
    exact ih fun other member => drops other (List.mem_cons_of_mem _ member)

/-- After a call that is not `drop_pkt` the earlier device does not matter. -/
theorem deliver_of_sends {actions : List Action} (sends : ∃ action ∈ actions, action ≠ .dropPkt)
    (dst other : Nat) : deliver dst actions = deliver other actions := by
  induction actions generalizing dst other with
  | nil => simp at sends
  | cons action rest ih =>
    cases action with
    | sendPkt dev => rfl
    | floodPkt => rfl
    | dropPkt =>
      have later : ∃ action ∈ rest, action ≠ .dropPkt := by simpa using sends
      exact ih later dst other

/-- When the device that precedes the last attempt does not matter. -/
theorem deliver_eq_iff {v : Invocation} {dst device : Nat} :
    deliver dst v.actions = deliver device v.actions ↔ Sends v ∨ dst = device := by
  by_cases sends : Sends v
  · simp [sends, deliver_of_sends sends dst device]
  · have drops : ∀ action ∈ v.actions, action = .dropPkt := by simpa [Sends] using sends
    rw [deliver_of_drops drops, deliver_of_drops drops]
    simp [sends]

theorem foldl_settle {vs : List Invocation} {device dst : Nat} (loose : ∀ v ∈ vs, v.branch ≠ .registered) :
    vs.foldl (settle device) dst = deliver dst (vs.flatMap survives) := by
  induction vs generalizing dst with
  | nil => rfl
  | cons v rest ih =>
    rw [List.foldl_cons, ih fun w member => loose w (List.mem_cons_of_mem _ member), List.flatMap_cons,
      deliver_append]
    congr 1
    have first := loose v List.mem_cons_self
    cases kind : v.branch with
    | noPktSet =>
      cases aborts : v.abort <;> simp [settle, survives, kind, aborts]
      rfl
    | registered => contradiction
    | unknown => simp [settle, survives, kind]

/-- The device that the loops of the batched variant report. -/
theorem settle_last {earlier : List Invocation} {last : Invocation} {device : Nat}
    (same : ∀ v ∈ earlier, v.branch = last.branch) (returned : last.abort = false) :
    (earlier ++ [last]).foldl (settle device) device =
      deliver (deliver device (earlier.flatMap survives)) last.actions := by
  rw [List.foldl_append, List.foldl_cons, List.foldl_nil]
  by_cases registered : last.branch = .registered
  · have nothing : earlier.flatMap survives = [] := by
      rw [List.flatMap_eq_nil_iff]
      intro v member
      simp [survives, same v member, registered]
    rw [nothing]
    simp [settle, registered, returned, deliver]
  · rw [foldl_settle fun v member => (same v member).trans_ne registered]
    cases kind : last.branch with
    | noPktSet => simp [settle, kind, returned]
    | registered => contradiction
    | unknown => simp [settle, kind]

variable {ctx : Context Ω G P S Id B}

/-- The attempts of the unbatched variant, whichever branch is taken. -/
theorem processPkt_history {buffer : B} {attempts rest : List (Attempt Ω G)} {p p' : Plane G P S Id} {dst : Nat}
    (parsed : (ctx.nf.nfPktParser buffer).1 = true)
    (ran : processPkt ctx buffer attempts p = some (dst, p', rest)) :
    ∃ (earlier : List Invocation) (last : Invocation),
      p'.history = earlier.map (·, false) ++ [(last, true)] ∧
      p'.running = [] ∧ (∀ v ∈ earlier ++ [last], v.position = 0) ∧ last.abort = false ∧
      dst = deliver (deliver ctx.device (earlier.flatMap Invocation.actions)) last.actions := by
  simp only [processPkt, parsed, if_true, Option.bind_eq_bind, Option.bind_eq_some_iff, Option.pure_def,
    Option.some.injEq, Prod.mk.injEq] at ran
  obtain ⟨⟨q, left⟩, handled, rfl, rfl, rfl⟩ := ran
  have conclude : ∀ {branch d} {u v : Plane G P S Id} {r}, u.running = [] → u.history = [] →
      u.dstDevice = ctx.device → Retry.retry (attemptPkt ctx branch 0 d) attempts u = some (v, r) →
      ∃ (earlier : List Invocation) (last : Invocation),
        v.history = earlier.map (·, false) ++ [(last, true)] ∧
        v.running = [] ∧ (∀ v ∈ earlier ++ [last], v.position = 0) ∧ last.abort = false ∧
        v.dstDevice = deliver (deliver ctx.device (earlier.flatMap Invocation.actions)) last.actions := by
    intro branch d u v r idle fresh default ran
    obtain ⟨failed, last, history, returned, handles⟩ := retryPkt_handles idle ran
    refine ⟨failed, last, by rw [history, fresh, List.nil_append], handles.running, fun w member => (handles.records w member).2.1,
      returned, ?_⟩
    rw [handles.dstDevice, default, ← deliver_append]
    simp
  unfold handlePkt at handled
  split at handled
  · exact conclude rfl rfl rfl handled
  · simp only [Option.bind_eq_bind, Option.bind_eq_some_iff] at handled
    obtain ⟨⟨slot, manager⟩, found, handled⟩ := handled
    cases slot with
    | some slot => exact conclude rfl rfl rfl handled
    | none =>
      simp only [Option.bind_eq_some_iff, Option.pure_def, Option.some.injEq, Prod.mk.injEq] at handled
      obtain ⟨⟨u, rest⟩, retried, manager, committed, rfl, rfl⟩ := handled
      exact conclude (v := u) rfl rfl rfl retried

/-- The device of a packet is the one that the committed attempt alone would give it,
if and only if that attempt sends or floods the packet, or the calls of the aborted
attempts that are not forgotten amount to a drop. -/
theorem committed_attempt_decides_iff (ctx : Context Ω G P S Id B) :
    (∀ buffer attempts p dst p' rest, (ctx.nf.nfPktParser buffer).1 = true →
      processPkt ctx buffer attempts p = some (dst, p', rest) →
      ∃ (earlier : List Invocation) (last : Invocation),
        p'.history = earlier.map (·, false) ++ [(last, true)] ∧
        (dst = deliver ctx.device last.actions ↔
          Sends last ∨ deliver ctx.device (earlier.flatMap Invocation.actions) = ctx.device)) ∧
    (∀ mbufs batchSize attempts p p' rest, processPkts ctx mbufs batchSize attempts p = some (p', rest) →
      ∀ i < batchSize, (ctx.nf.nfPktParser (mbufs i)).1 = true →
      ∃ (earlier : List Invocation) (last : Invocation),
        endedAt i p'.history = earlier.map (·, false) ++ [(last, true)] ∧
        (p'.dstDevices i = deliver ctx.device last.actions ↔
          Sends last ∨ deliver ctx.device (earlier.flatMap survives) = ctx.device)) := by
  constructor
  · intro buffer attempts p dst p' rest parsed ran
    obtain ⟨earlier, last, history, _, _, _, rfl⟩ := processPkt_history parsed ran
    exact ⟨earlier, last, history, deliver_eq_iff⟩
  · intro mbufs batchSize attempts p p' rest ran i within parsed
    have progress := handleBatch_progress rfl rfl (fun j below => if_pos below) ran
    obtain ⟨earlier, last, ended, same⟩ := progress.shape i within parsed
    have member : (last, true) ∈ p'.history := by
      have inside : (last, true) ∈ endedAt i p'.history := by simp [ended]
      exact (List.mem_filter.mp inside).1
    refine ⟨earlier, last, ended, ?_⟩
    have whole : invocationsAt i (p'.history.map Prod.fst) = earlier ++ [last] := by
      rw [← fst_endedAt, ended]
      simp [Function.comp_def]
    rw [progress.destination i within, whole, settle_last same (progress.returned _ member rfl)]
    exact deliver_eq_iff

section Sample

/-- A handler for orphan packets from device 0: it sends a packet to device 1 or drops
it, as the shared state says. -/
def switchNF : NF Unit Bool Unit Nat Nat Unit where
  nfPktParser _ := (true, ())
  nfPktDispatcher _ _ := ⟨0, 0, false⟩
  pktHandlers _ _ call := some
    { abort := false, actions := if call.globalState then [.sendPkt 1] else [.dropPkt]
      globalState := call.globalState, pkt := (), localState := none, added := none }
  nfUnknownPktSetHandler _ call := some
    { abort := false, actions := [.dropPkt], globalState := call.globalState
      pkt := (), localState := none, added := none }

def switchContext : Context Unit Bool Unit Nat Nat Unit where
  nf := switchNF
  cfg :=
    { numCores := 1, maxNumPktSets := 1, pktSetIdEq := fun a b => a == b, pktSetIdHash := fun a => a
      pktSetValidityDuration := 0, hasRelatedPktSets := false }
  mutablePktSetState := false
  device := 0
  pktSetPartition := 0
  now := 0

def switchPlane : Plane Bool Unit Nat Nat where
  manager := ⟨fun _ => -1, fun _ => ⟨0, 0, 0, ⟨0, 0, 0⟩⟩, fun _ => 0, fun _ => ⟨false, 0, 0⟩⟩
  globalState := true
  dstDevice := 0
  packet _ := ()
  dstDevices _ := 0
  pktSetState _ := 0
  pktSetStateLog := []
  running := []
  history := []

/-- The packet is to be sent, but the commit fails since another core has closed the switch. -/
def switchAttempts : List (Attempt Unit Bool) := [⟨id, (), false⟩, ⟨fun _ => false, (), true⟩]

/-- Both variants report device 1, although the committed attempt drops the packet. -/
theorem aborted_attempt_decides :
    (∃ p' earlier last, processPkt switchContext () switchAttempts switchPlane = some (1, p', []) ∧
      p'.history = [(earlier, false), (last, true)] ∧ deliver switchContext.device last.actions = 0) ∧
    (∃ p' earlier last, processPkts switchContext (fun _ => ()) 1 switchAttempts switchPlane = some (p', []) ∧
      p'.dstDevices 0 = 1 ∧
      p'.history = [(earlier, false), (last, true)] ∧ deliver switchContext.device last.actions = 0) :=
  ⟨⟨_, _, _, rfl, rfl, rfl⟩, ⟨_, _, _, rfl, rfl, rfl, rfl⟩⟩

/-- The packet is to be dropped, but the commit fails since another core has opened the switch. -/
def openedAttempts : List (Attempt Unit Bool) := [⟨fun _ => false, (), false⟩, ⟨fun _ => true, (), true⟩]

/-- Both variants send the packet as the committed attempt says. -/
theorem committed_attempt_decides_switch :
    (∃ p' earlier last, processPkt switchContext () openedAttempts switchPlane = some (1, p', []) ∧
      p'.history = [(earlier, false), (last, true)] ∧ earlier.actions = [.dropPkt] ∧ last.actions = [.sendPkt 1] ∧
      (1 = deliver switchContext.device last.actions ↔
        Sends last ∨ deliver switchContext.device ([earlier].flatMap Invocation.actions) = switchContext.device)) ∧
    (∃ p' earlier last, processPkts switchContext (fun _ => ()) 1 openedAttempts switchPlane = some (p', []) ∧
      endedAt 0 p'.history = [(earlier, false), (last, true)] ∧ earlier.actions = [.dropPkt] ∧ last.actions = [.sendPkt 1] ∧
      (p'.dstDevices 0 = deliver switchContext.device last.actions ↔
        Sends last ∨ deliver switchContext.device ([earlier].flatMap survives) = switchContext.device)) := by
  obtain ⟨single, batch⟩ := committed_attempt_decides_iff switchContext
  have two {first final last : Invocation} {earlier : List Invocation}
      (same : [(first, false)] ++ [(final, true)] = earlier.map (·, false) ++ [(last, true)]) : earlier = [first] ∧ last = final := by
    obtain ⟨before, now⟩ := List.append_inj' same rfl
    obtain ⟨v, rfl, one⟩ := List.map_eq_singleton_iff.mp before.symm
    exact ⟨by rw [(Prod.mk.inj one).1], (Prod.mk.inj (List.singleton_inj.mp now)).1.symm⟩
  constructor
  · obtain ⟨p', first, final, ran, whole, dropped, sent⟩ : ∃ p' first final,
        processPkt switchContext () openedAttempts switchPlane = some (1, p', []) ∧
        p'.history = [(first, false), (final, true)] ∧ first.actions = [.dropPkt] ∧ final.actions = [.sendPkt 1] :=
      ⟨_, _, _, rfl, rfl, rfl, rfl⟩
    obtain ⟨earlier, last, history, decides⟩ := single () _ _ _ _ _ rfl ran
    obtain ⟨rfl, rfl⟩ := two (whole.symm.trans history)
    exact ⟨p', first, last, ran, whole, dropped, sent, decides⟩
  · obtain ⟨p', first, final, ran, whole, dropped, sent⟩ : ∃ p' first final,
        processPkts switchContext (fun _ => ()) 1 openedAttempts switchPlane = some (p', []) ∧
        endedAt 0 p'.history = [(first, false), (final, true)] ∧ first.actions = [.dropPkt] ∧ final.actions = [.sendPkt 1] :=
      ⟨_, _, _, rfl, rfl, rfl, rfl⟩
    obtain ⟨earlier, last, history, decides⟩ := batch _ _ _ _ _ _ ran 0 Nat.one_pos rfl
    obtain ⟨rfl, rfl⟩ := two (whole.symm.trans history)
    exact ⟨p', first, last, ran, whole, dropped, sent, decides⟩

end Sample
end Nfos.DataPlane
