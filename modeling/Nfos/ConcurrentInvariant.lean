import Nfos.ConcurrentRuns

/-! The invariant of all interleavings. It speaks about the lists, about the
cells that cores hold between two sections, and about the one core that may be
inside the global section. -/
namespace Nfos.ConcurrentDoubleChain
open Function Linked Run
variable {Id : Type} {n size : Nat}

/-- `list_ind` names the partition that owns an index, -1 if there is none. -/
structure Names (n size : Nat) (ind : Nat → Int) (own : Fin n → Nat → Prop) : Prop where
  owner : ∀ i < size, ∀ c, ind (indexShift n + i) = allocHead c ↔ own c (indexShift n + i)
  orphan : ∀ i < size, ind (indexShift n + i) = -1 ∨ ∃ c : Fin n, ind (indexShift n + i) = allocHead c

namespace Names
variable {ind : Nat → Int} {own own' : Fin n → Nat → Prop} {c : Fin n} {x : Nat}

theorem congr (names : Names n size ind own) (same : ∀ d y, own' d y ↔ own d y) :
    Names n size ind own' where
  owner i within d := (names.owner i within d).trans (same d _).symm
  orphan := names.orphan

theorem ne_neg_one (c : Fin n) : (-1 : Int) ≠ allocHead c := by omega

theorem allocHead_cast_inj {c d : Fin n} (same : (allocHead c : Int) = allocHead d) : c = d :=
  allocHead_injective (by omega)

/-- A partition becomes the owner of an index that had none. -/
theorem gain (names : Names n size ind own) (none : ∀ d, ¬ own d x)
    (owns : ∀ d y, own' d y ↔ own d y ∨ (d = c ∧ y = x)) :
    Names n size (update ind x (allocHead c)) own' where
  owner i within d := by
    rw [owns]
    by_cases same : indexShift n + i = x
    · rw [same, update_self]
      constructor
      · intro equal
        exact Or.inr ⟨(allocHead_cast_inj equal).symm, rfl⟩
      · rintro (old | ⟨rfl, _⟩)
        · exact absurd old (none d)
        · rfl
    · rw [update_of_ne same, names.owner i within d]
      simp [same]
  orphan i within := by
    by_cases same : indexShift n + i = x
    · rw [same, update_self]
      exact Or.inr ⟨c, rfl⟩
    · rw [update_of_ne same]
      exact names.orphan i within

/-- An index loses its owner. -/
theorem lose (names : Names n size ind own) (owns : ∀ d y, own' d y ↔ own d y ∧ y ≠ x) :
    Names n size (update ind x (-1)) own' where
  owner i within d := by
    rw [owns]
    by_cases same : indexShift n + i = x
    · rw [same, update_self]
      exact ⟨fun equal => absurd equal (ne_neg_one d), fun old => absurd rfl old.2⟩
    · rw [update_of_ne same, names.owner i within d]
      simp [same]
  orphan i within := by
    by_cases same : indexShift n + i = x
    · rw [same, update_self]
      exact Or.inl rfl
    · rw [update_of_ne same]
      exact names.orphan i within

end Names

/-- The index is on the allocated list of the core or just taken off it by the core. -/
def Owns (L : ListId n → List Nat) (pc : Fin n → Pc) (c : Fin n) (x : Nat) : Prop :=
  x ∈ L (.alloc c) ∨ pc c = .unlinked x

structure Sound (n size : Nat) (s : System n Id) (L : ListId n → List Nat) : Prop where
  layout : Layout n s.cells.nextOf s.cells.prevOf L
  stocked : Stocked n size L fun c => (s.pc c).held
  names : Names n size s.cells.indOf (Owns L s.pc)
  guard : ∀ c, (s.pc c).inside → s.globalLock = some c
  front : ∀ c k x time, s.pc c = .releasing k x time →
    (x = globalFreeListHead n ∧ L .glob = []) ∨ ∃ l, L .glob = x :: l

variable {s : System n Id} {L M : ListId n → List Nat} {c : Fin n} {p : Pc}
  {cells : ConcurrentDchainCells Id}

theorem held_goto (pc : Fin n → Pc) (c : Fin n) (p : Pc) :
    (fun d => (update pc c p d).held) = update (fun d => (pc d).held) c p.held := by
  funext d
  by_cases same : d = c
  · rw [same, update_self, update_self]
  · rw [update_of_ne same, update_of_ne same]

/-- The obligations of a step by core `c` that leads to `p`. -/
theorem Sound.step (sound : Sound n size s L) (glb : Option (Fin n)) (lock : Fin n → Option (Fin n))
    (layout : Layout n cells.nextOf cells.prevOf M)
    (stocked : Stocked n size M (update (fun d => (s.pc d).held) c p.held))
    (names : Names n size cells.indOf (Owns M (update s.pc c p)))
    (own : p.inside → glb = some c) (others : ∀ d, d ≠ c → (s.pc d).inside → glb = some d)
    (front : ∀ k x time, p = .releasing k x time →
      (x = globalFreeListHead n ∧ M .glob = []) ∨ ∃ l, M .glob = x :: l)
    (keeps : M .glob = L .glob ∨ ∀ d, d ≠ c → ¬ (s.pc d).inside) :
    Sound n size ⟨cells, glb, lock, update s.pc c p⟩ M where
  layout := layout
  stocked := by
    rw [held_goto]
    exact stocked
  names := names
  guard d inside := by
    dsimp only at inside ⊢
    by_cases same : d = c
    · subst same
      rw [update_self] at inside
      exact own inside
    · rw [update_of_ne same] at inside
      exact others d same inside
  front d k x time here := by
    dsimp only at here
    by_cases same : d = c
    · subst same
      rw [update_self] at here
      exact front k x time here
    · rw [update_of_ne same] at here
      rcases keeps with equal | alone
      · rw [equal]
        exact sound.front d k x time here
      · exact absurd (by rw [here]; trivial) (alone d same)

/-- A core inside the global section is alone there. -/
theorem Sound.alone (sound : Sound n size s L) (inside : (s.pc c).inside) (d : Fin n) (other : d ≠ c) :
    ¬ (s.pc d).inside := by
  intro also
  have both := (sound.guard d also).symm.trans (sound.guard c inside)
  exact other (Option.some.inj both)

/-- Ownership does not change when neither the allocated lists do nor who has
taken a cell off one. -/
theorem owns_goto (alloc : ∀ d, M (.alloc d) = L (.alloc d)) (before : ∀ x, s.pc c ≠ .unlinked x)
    (after : ∀ x, p ≠ .unlinked x) (d : Fin n) (x : Nat) :
    Owns M (update s.pc c p) d x ↔ Owns L s.pc d x := by
  unfold Owns
  rw [alloc]
  by_cases same : d = c
  · subst same
    simp [before, after]
  · rw [update_of_ne same]

/-- A step that only moves a core through the code and changes locks. -/
theorem Sound.pass (sound : Sound n size s L) (glb : Option (Fin n)) (lock : Fin n → Option (Fin n))
    (before : (s.pc c).held = none) (after : p.held = none)
    (own : p.inside → glb = some c) (others : ∀ d, d ≠ c → (s.pc d).inside → glb = some d)
    (front : ∀ k x time, p = .releasing k x time →
      (x = globalFreeListHead n ∧ L .glob = []) ∨ ∃ l, L .glob = x :: l) :
    Sound n size ⟨s.cells, glb, lock, update s.pc c p⟩ L := by
  refine sound.step glb lock sound.layout ?_ ?_ own others front (Or.inl rfl)
  · rw [after, update_eq_self_iff.mpr before.symm]
    exact sound.stocked
  · refine sound.names.congr (owns_goto (fun _ => rfl) (fun x here => ?_) (fun x here => ?_))
    · rw [here] at before
      contradiction
    · rw [here] at after
      contradiction

variable {s' : System n Id} {e : Event n}

/-- A core that holds a cell owns it at most as the one that took it off its list. -/
theorem Sound.not_owns {x : Nat} {time : Int} (sound : Sound n size s L)
    (here : s.pc c = .linking x time) (d : Fin n) : ¬ Owns L s.pc d x := by
  have holds : (s.pc c).held = some x := by rw [here]; rfl
  rintro (member | leaving)
  · exact sound.stocked.off c x holds _ member
  · have other : (s.pc d).held = some x := by rw [leaving]; rfl
    have same : d = c := sound.stocked.sole d c x other holds
    rw [same, here] at leaving
    contradiction

theorem Sound.not_owns_free {x : Nat} {w : ListId n} (sound : Sound n size s L) (free : w.IsFree)
    (member : x ∈ L w) (d : Fin n) : ¬ Owns L s.pc d x := by
  rintro (also | leaving)
  · exact free d (sound.layout.forward.apart member also)
  · exact sound.stocked.off d x (by rw [leaving]; rfl) w member

/-- Taking a cell off a free list in one section. -/
theorem Sound.pop {x : Nat} {l : List Nat} {w : ListId n} {time : Int} (sound : Sound n size s L)
    (free : w.IsFree) (split : L w = x :: l) (glb : Option (Fin n))
    (layout : Layout n cells.nextOf cells.prevOf (update L w l)) (ind : cells.indOf = s.cells.indOf)
    (before : (s.pc c).held = none) (others : ∀ d, d ≠ c → (s.pc d).inside → glb = some d)
    (keeps : w = .glob → ∀ d, d ≠ c → ¬ (s.pc d).inside) :
    Sound n size ⟨cells, glb, s.lock, update s.pc c (.linking x time)⟩ (update L w l) := by
  refine sound.step glb s.lock layout
    (sound.stocked.take sound.layout (l := []) split before) ?_ (fun h => h.elim) others
    (fun _ _ _ h => by contradiction) ?_
  · rw [ind]
    refine sound.names.congr (owns_goto (fun d => update_of_ne (free d).symm _ _) (fun y here => ?_)
      (fun y here => by contradiction))
    rw [here] at before
    contradiction
  · by_cases global : w = .glob
    · exact Or.inr (keeps global)
    · exact Or.inl (update_of_ne (Ne.symm global) _ _)

theorem Sound.link {x : Nat} {time : Int} (sound : Sound n size s L) (here : s.pc c = .linking x time) :
    Sound n size ((s.write (linkNew c.val x time s.cells)).goto c .idle)
      (update L (.alloc c) (L (.alloc c) ++ [x])) := by
  have holds : (s.pc c).held = some x := by rw [here]; rfl
  obtain ⟨layout, ind, _⟩ := linkNew_spec sound.layout c (sound.stocked.loose holds) time
  refine sound.step s.globalLock s.lock layout
    (sound.stocked.put (m := []) (List.append_nil _).symm holds) ?_ (fun h => h.elim)
    (fun d _ => sound.guard d) (fun _ _ _ h => by contradiction) (Or.inl (update_of_ne (by simp) _ _))
  rw [System.write_cells, ind]
  refine sound.names.gain (sound.not_owns here) fun d y => ?_
  unfold Owns
  by_cases same : d = c
  · subst same
    simp [here]
  · rw [update_of_ne same, update_of_ne (fun h => same (ListId.alloc.inj h))]
    simp [same]

theorem Sound.unlink {i : Nat} {l m : List Nat} (sound : Sound n size s L) (idle : s.pc c = .idle)
    (split : L (.alloc c) = l ++ (indexShift n + i) :: m)
    (layout : Layout n cells.nextOf cells.prevOf (update L (.alloc c) (l ++ m)))
    (ind : cells.indOf = s.cells.indOf) :
    Sound n size ((s.write cells).goto c (.unlinked (indexShift n + i)))
      (update L (.alloc c) (l ++ m)) := by
  refine sound.step s.globalLock s.lock layout
    (sound.stocked.take sound.layout split (by rw [idle]; rfl)) ?_ (fun h => h.elim)
    (fun d _ => sound.guard d) (fun _ _ _ h => by contradiction) (Or.inl (update_of_ne (by simp) _ _))
  rw [System.write_cells, ind]
  have member : indexShift n + i ∈ L (.alloc c) := by simp [split]
  refine sound.names.congr fun d y => ?_
  unfold Owns
  rw [sound.layout.forward.mem_cut split]
  by_cases same : d = c
  · subst same
    rw [update_self, idle]
    by_cases equal : y = indexShift n + i
    · simp [equal, member]
    · simp [equal, Ne.symm equal]
  · rw [update_of_ne same]
    have other : y ∈ L (.alloc d) → y ≠ indexShift n + i := by
      rintro also rfl
      exact same (ListId.alloc.inj (sound.layout.forward.apart also member))
    tauto

theorem Sound.push {x : Nat} (sound : Sound n size s L) (here : s.pc c = .unlinked x) :
    Sound n size ((s.write (pushFreed n c.val x s.cells)).goto c .idle)
      (update L (.free c) (x :: L (.free c))) := by
  have holds : (s.pc c).held = some x := by rw [here]; rfl
  obtain ⟨layout, ind, _⟩ := pushFreed_spec sound.layout c (sound.stocked.loose holds)
  refine sound.step s.globalLock s.lock layout (sound.stocked.put (l := []) rfl holds) ?_
    (fun h => h.elim) (fun d _ => sound.guard d) (fun _ _ _ h => by contradiction)
    (Or.inl (update_of_ne (by simp) _ _))
  rw [System.write_cells, ind]
  refine sound.names.lose fun d y => ?_
  have off : y ∈ L (.alloc d) → y ≠ x := by
    rintro member rfl
    exact sound.stocked.off c y holds _ member
  unfold Owns
  rw [update_of_ne (by simp)]
  by_cases same : d = c
  · subst same
    rw [update_self, here]
    by_cases equal : y = x
    · simpa [equal] using off
    · simp [equal, Ne.symm equal]
  · rw [update_of_ne same]
    have leaving : s.pc d = .unlinked y → y ≠ x := by
      rintro also rfl
      exact same (sound.stocked.sole d c y (by rw [also]; rfl) holds)
    tauto

theorem Sound.fill {k : Fin n} {lists : Nat} {time : Int} (sound : Sound n size s L)
    (inside : (s.pc c).inside) (before : (s.pc c).held = none) :
    ∃ M, Sound n size ((s.write (fillGlobalFreeList n k.val s.cells)).goto c (.filling lists time)) M := by
  have plain : ∀ y, s.pc c ≠ .unlinked y := by
    intro y here
    rw [here] at before
    contradiction
  cases split : L (.free k) with
  | nil =>
    refine ⟨L, ?_⟩
    rw [fillGlobalFreeList_nil sound.layout split]
    exact sound.pass s.globalLock s.lock before rfl (fun _ => sound.guard c inside)
      (fun d _ => sound.guard d) (fun _ _ _ h => by contradiction)
  | cons x l =>
    have member : x ∈ L (.free k) := by simp [split]
    have apart : (ListId.glob : ListId n) ≠ .free k := by simp
    obtain ⟨layout, ind, _⟩ := fillGlobalFreeList_cons sound.layout sound.stocked.bound split
    have moved := (sound.stocked.take sound.layout (l := []) split before).put (l := []) (w := .glob)
      rfl (update_self c _ _)
    rw [update_idem, List.nil_append, List.nil_append] at moved
    refine ⟨_, sound.step s.globalLock s.lock layout moved ?_ (fun _ => sound.guard c inside)
      (fun d _ => sound.guard d) (fun _ _ _ h => by contradiction) (Or.inr (sound.alone inside))⟩
    rw [System.write_cells, ind]
    refine sound.names.lose fun d y => ?_
    rw [owns_goto (L := L) (fun e => by simp) plain (fun _ h => by contradiction)]
    constructor
    · intro owns
      refine ⟨owns, ?_⟩
      rintro rfl
      exact sound.not_owns_free (ListId.free_isFree k) member d owns
    · exact And.left

/-- Rejuvenating an index keeps it on its list. -/
theorem Sound.rejuvenate {i : Nat} {l m : List Nat} (sound : Sound n size s L)
    (split : L (.alloc c) = l ++ (indexShift n + i) :: m) (idle : s.pc c = .idle)
    (layout : Layout n cells.nextOf cells.prevOf (update L (.alloc c) (l ++ m ++ [indexShift n + i])))
    (ind : cells.indOf = s.cells.indOf) :
    Sound n size (s.write cells) (update L (.alloc c) (l ++ m ++ [indexShift n + i])) := by
  have members : ∀ w y, y ∈ update L (.alloc c) (l ++ m ++ [indexShift n + i]) w ↔ y ∈ L w := by
    intro w y
    by_cases same : w = .alloc c
    · subst same
      rw [update_self, split]
      simp only [List.mem_append, List.mem_cons, List.not_mem_nil, or_false]
      tauto
    · rw [update_of_ne same]
  have moved := (sound.stocked.take sound.layout split (c := c) (by rw [idle]; rfl)).put
    (m := []) (w := .alloc c) (List.append_nil _).symm (update_self c _ _)
  have still : update (fun d => (s.pc d).held) c none = fun d => (s.pc d).held :=
    update_eq_self_iff.mpr (by rw [idle]; rfl)
  rw [update_self, update_idem, update_idem, still] at moved
  refine ⟨layout, moved, ?_, sound.guard, fun d k x time here => ?_⟩
  · rw [System.write_cells, ind]
    refine sound.names.congr fun d y => ?_
    unfold Owns
    rw [members]
    rfl
  · rw [update_of_ne (by simp)]
    exact sound.front d k x time here

end Nfos.ConcurrentDoubleChain
