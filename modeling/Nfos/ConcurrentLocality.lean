import Nfos.ConcurrentCalls

/-! What a step of one core leaves to the others. Outside the global fallback a
core changes no free list but its own. -/
namespace Nfos.ConcurrentDoubleChain
open Function Linked
variable {Id : Type} {n size i : Nat} {s s' : System n Id} {L M : ListId n → List Nat} {c : Fin n}

/-- A step of core `c` that takes no index from another core. -/
structure Local (n size : Nat) (c : Fin n) (s s' : System n Id) (L M : ListId n → List Nat) : Prop where
  sound : Sound n size s' M
  pc : ∀ d, d ≠ c → s'.pc d = s.pc d
  lock : s'.lock = s.lock
  free : ∀ d, d ≠ c → M (.free d) = L (.free d)

theorem step_popped (sound : Sound n size s L) (step : Step n size s (.popped c) s') :
    ∃ x l, L (.free c) = x :: l ∧ Local n size c s s' L (update L (.free c) l) := by
  cases step with
  | pop _ time idle unlocked ran =>
    cases split : L (.free c) with
    | nil =>
      rw [popLocal_nil sound.layout split] at ran
      cases ran
    | cons y l =>
      obtain ⟨result, layout, ind, _⟩ := popLocal_cons sound.layout split
      rw [ran] at result layout ind
      cases Option.some.inj result
      refine ⟨_, l, rfl, sound.pop (ListId.free_isFree c) split s.globalLock layout ind
        (by rw [idle]; rfl) (fun d _ => sound.guard d) (fun h => by contradiction), ?_, rfl, ?_⟩
      · intro d other
        exact update_of_ne other _ _
      · intro d other
        exact update_of_ne (fun same => other (ListId.free.inj same)) _ _

theorem step_missed (sound : Sound n size s L) (step : Step n size s (.missed c) s') : L (.free c) = [] := by
  cases step with
  | miss _ time idle unlocked ran =>
    cases split : L (.free c) with
    | nil => rfl
    | cons y l =>
      have result := (popLocal_cons sound.layout split).1
      rw [ran] at result
      contradiction

theorem step_allocated (sound : Sound n size s L) (step : Step n size s (.allocated c i) s') :
    s'.pc c = .idle ∧ ∃ M, Local n size c s s' L M ∧ M (.free c) = L (.free c) := by
  generalize event : Event.allocated c i = e at step
  cases step with
  | link d here =>
    cases event
    refine ⟨update_self _ _ _, _, ⟨sound.link here, fun d other => update_of_ne other _ _, rfl, ?_⟩,
      update_of_ne (by simp) _ _⟩
    intro d _
    exact update_of_ne (by simp) _ _
  | _ => cases event

theorem step_rejuvenated {done : Bool} (sound : Sound n size s L)
    (step : Step n size s (.rejuvenated c i done) s') :
    s'.pc c = s.pc c ∧ ∃ M, Local n size c s s' L M ∧ M (.free c) = L (.free c) := by
  cases step with
  | rejuvenate _ index time idle ran =>
    refine ⟨rfl, ?_⟩
    by_cases named : s.cells.indOf (indexShift n + index.val) = allocHead c
    · obtain ⟨l, m, split⟩ := sound.split_of_named idle index.isLt named
      by_cases single : l = [] ∧ m = []
      · obtain ⟨rfl, rfl⟩ := single
        rw [rejuvenateIndex_single sound.layout split named] at ran
        cases ran
        exact ⟨L, ⟨sound, fun _ _ => rfl, rfl, fun _ _ => rfl⟩, rfl⟩
      · obtain ⟨after, result, layout, ind, _⟩ :=
          rejuvenateIndex_spec sound.layout sound.stocked.bound split single named time
        rw [result] at ran
        cases ran
        exact ⟨_, ⟨sound.rejuvenate split idle layout ind, fun _ _ => rfl, rfl,
          fun d _ => update_of_ne (by simp) _ _⟩, update_of_ne (by simp) _ _⟩
    · rw [rejuvenateIndex_refused named] at ran
      cases ran
      exact ⟨L, ⟨sound, fun _ _ => rfl, rfl, fun _ _ => rfl⟩, rfl⟩

/-- Taking an index off its allocated list. -/
theorem Sound.local_unlink {cells : ConcurrentDchainCells Id} (sound : Sound n size s L)
    (idle : s.pc c = .idle) (within : i < size) (ran : unlinkFreed n i c.val s.cells = some cells) :
    ∃ M, Local n size c s ((s.write cells).goto c (.unlinked (indexShift n + i))) L M ∧
      M (.free c) = L (.free c) := by
  by_cases named : s.cells.indOf (indexShift n + i) = allocHead c
  · obtain ⟨l, m, split⟩ := sound.split_of_named idle within named
    obtain ⟨after, result, layout, ind, _⟩ := unlinkFreed_spec sound.layout split named
    rw [result] at ran
    cases Option.some.inj ran
    exact ⟨_, ⟨sound.unlink idle split layout ind, fun d other => update_of_ne other _ _, rfl,
      fun d _ => update_of_ne (by simp) _ _⟩, update_of_ne (by simp) _ _⟩
  · rw [unlinkFreed_refused named] at ran
    contradiction

theorem step_unlinked (sound : Sound n size s L) (step : Step n size s (.unlinked c i) s') :
    (∃ x, s'.pc c = .unlinked x) ∧ ∃ M, Local n size c s s' L M ∧ M (.free c) = L (.free c) := by
  cases step with
  | free _ index idle ran =>
    exact ⟨⟨_, update_self _ _ _⟩, sound.local_unlink idle index.isLt ran⟩
  | expire _ time idle oldest _ ran =>
    exact ⟨⟨_, update_self _ _ _⟩, sound.local_unlink idle (sound.oldest_lt oldest) ran⟩

theorem step_freed (sound : Sound n size s L) (step : Step n size s (.freed c i) s') :
    s'.pc c = .idle ∧ ∃ M, Local n size c s s' L M := by
  generalize event : Event.freed c i = e at step
  cases step with
  | push d here unlocked =>
    cases event
    refine ⟨update_self _ _ _, _, sound.push here, fun d other => update_of_ne other _ _, rfl, ?_⟩
    intro d other
    exact update_of_ne (fun same => other (ListId.free.inj same)) _ _
  | _ => cases event

theorem step_refused (step : Step n size s (.refused c i) s') : s' = s ∧ s.pc c = .idle := by
  cases step with
  | refuse _ index idle ran => exact ⟨rfl, idle⟩

/-- The core is in the global fallback. -/
theorem step_inGlobal (step : Step n size s (.inGlobal c) s') (x : Nat) (time : Int) :
    s.pc c ≠ .linking x time := by
  cases step with
  | takeGlobal _ here | enterGlobal _ here | grabbed _ here | filled _ here | takeFilled _ here
  | grab _ _ here | fill _ _ here | release _ _ here =>
    rw [here]
    exact nofun

theorem step_exhausted (step : Step n size s (.exhausted c) s') (x : Nat) (time : Int) :
    s.pc c ≠ .linking x time := by
  cases step with
  | exhaust _ here =>
    rw [here]
    exact nofun

end Nfos.ConcurrentDoubleChain
