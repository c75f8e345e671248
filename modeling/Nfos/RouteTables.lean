import Nfos.MtriePool
import Nfos.Maglev

/-! The tables that the network functions fill when they start: a pool of load balances and,
for each device, a default route with routes to single hosts. -/
namespace Nfos.Mtrie
open Fallible LongestMatch
variable {capacity : Nat}

/-- A default route, then routes of 32 bits in the order of their addition. The routes lead to
indices in the pool of load balances. -/
structure Table where
  trie : Nat
  default : Nat
  hosts : List (Nat × Nat)

def Table.routes (t : Table) : List Route :=
  ⟨t.trie, 0, 0, t.default⟩ :: t.hosts.map fun h => ⟨t.trie, h.1, 32, h.2⟩

/-- The index for an address: that of the last route to it, or else the default. -/
def Table.choose (t : Table) (x : Nat) : Nat := t.hosts.foldl (fun adj h => if h.1 = x then h.2 else adj) t.default

structure Table.Valid (t : Table) : Prop where
  default : t.default < 2 ^ 31
  hosts : ∀ h ∈ t.hosts, h.1 < 2 ^ 32 ∧ h.2 < 2 ^ 31

theorem Table.Valid.routes {t : Table} (valid : t.Valid) : ∀ r ∈ t.routes, r.Valid := by
  intro r member
  rcases List.mem_cons.mp member with rfl | host
  · exact ⟨Nat.two_pow_pos 32, Nat.zero_le 32, valid.default, fun _ => rfl⟩
  · obtain ⟨h, inside, rfl⟩ := List.mem_map.mp host
    obtain ⟨address, adjacency⟩ := valid.hosts h inside
    exact ⟨address, Nat.le_refl 32, adjacency, fun zero => by simp at zero⟩

variable {tables : List Table}

theorem best_routes (t : Table) {x : Nat} (small : x < 2 ^ 32) :
    ∃ r, best Route.covers Route.dstAddressLength t.routes x = some r ∧ r ∈ t.routes ∧ r.adjIndex = t.choose x := by
  obtain ⟨trie, default, hosts⟩ := t
  induction hosts using List.reverseRecOn with
  | nil =>
    have covers : Route.covers ⟨trie, 0, 0, default⟩ x := by
      simp only [Route.covers]
      omega
    exact ⟨⟨trie, 0, 0, default⟩, if_pos ⟨covers, by simp⟩, List.mem_cons_self, rfl⟩
  | append_singleton hosts h ih =>
    obtain ⟨r, chosen, member, adjacency⟩ := ih
    have grown : Table.routes ⟨trie, default, hosts ++ [h]⟩ = Table.routes ⟨trie, default, hosts⟩ ++ [⟨trie, h.1, 32, h.2⟩] := by
      simp [Table.routes]
    have choice : Table.choose ⟨trie, default, hosts ++ [h]⟩ x = if h.1 = x then h.2 else Table.choose ⟨trie, default, hosts⟩ x := by
      simp [Table.choose]
    have covers : Route.covers ⟨trie, h.1, 32, h.2⟩ x ↔ h.1 = x := by simp [Route.covers, eq_comm]
    have shorter : r.dstAddressLength ≤ 32 := by
      rcases List.mem_cons.mp member with rfl | host
      · exact Nat.zero_le 32
      · obtain ⟨_, _, rfl⟩ := List.mem_map.mp host
        exact Nat.le_refl 32
    rw [grown, best_extend, chosen, choice]
    by_cases here : h.1 = x
    · have replaced : better Route.covers Route.dstAddressLength x (some r) ⟨trie, h.1, 32, h.2⟩ = some ⟨trie, h.1, 32, h.2⟩ :=
        if_pos ⟨covers.mpr here, fun c same => Option.mem_some.mp same ▸ shorter⟩
      exact ⟨_, replaced, by simp, (if_pos here).symm⟩
    · have kept : better Route.covers Route.dstAddressLength x (some r) ⟨trie, h.1, 32, h.2⟩ = some r :=
        if_neg fun better => here (covers.mp better.1)
      exact ⟨r, kept, List.mem_append_left _ member, by rw [if_neg here, adjacency]⟩

theorem routesOf_tables (distinct : (tables.map Table.trie).Nodup) {t : Table} (member : t ∈ tables) :
    routesOf (tables.flatMap Table.routes) t.trie = t.routes := by
  have own : ∀ u : Table, ∀ r ∈ u.routes, r.trie = u.trie := by
    intro u r member
    rcases List.mem_cons.mp member with rfl | host
    · rfl
    · obtain ⟨_, _, rfl⟩ := List.mem_map.mp host
      rfl
  have mine : routesOf t.routes t.trie = t.routes := List.filter_eq_self.mpr fun r route => by simp [own t r route]
  have others : ∀ u : Table, u.trie ≠ t.trie → routesOf u.routes t.trie = [] := fun u other =>
    List.filter_eq_nil_iff.mpr fun r route => by simp [own u r route, other]
  obtain ⟨before, after, rfl⟩ := List.append_of_mem member
  rw [List.map_append, List.map_cons, List.nodup_middle, List.nodup_cons, List.mem_append] at distinct
  have elsewhere : ∀ us : List Table, t.trie ∉ us.map Table.trie → routesOf (us.flatMap Table.routes) t.trie = [] := by
    intro us absent
    rw [routesOf, List.filter_flatMap, List.flatMap_eq_nil_iff]
    exact fun u inside => others u fun same => absent (List.mem_map.mpr ⟨u, inside, same⟩)
  have first := elsewhere before fun inside => distinct.1 (.inl inside)
  have last := elsewhere after fun inside => distinct.1 (.inr inside)
  simp only [routesOf] at first last mine ⊢
  rw [List.flatMap_append, List.flatMap_cons, List.filter_append, List.filter_append, first, last, mine, List.nil_append,
    List.append_nil]

/-- With a ply in the pool for every prefix all routes are added, and every address is looked
up as its table says. -/
theorem tables_lookup (bounded : capacity ≤ 2 ^ 31) (plies : Nat → Ply8) (valid : ∀ t ∈ tables, t.Valid)
    (distinct : (tables.map Table.trie).Nodup) (room : (needed (tables.flatMap Table.routes)).card ≤ capacity) :
    ∃ s, addRoutes capacity (tables.flatMap Table.routes) (initial plies) = .ok s ∧
      ∀ t ∈ tables, ∀ x < 2 ^ 32, ∃ leaf, lookup capacity s t.trie x = .ok leaf ∧ leaf >>> 1 = t.choose x := by
  have routes : ∀ r ∈ tables.flatMap Table.routes, r.Valid := by
    intro r member
    obtain ⟨t, inside, route⟩ := List.mem_flatMap.mp member
    exact (valid t inside).routes r route
  have inUse := addRoutes_inUse bounded plies _ routes
  have represents := addRoutes_represents bounded plies _ routes
  cases added : addRoutes capacity (tables.flatMap Table.routes) (initial plies) with
  | error e =>
    rw [added] at inUse
    exact absurd room (Nat.not_le.mpr inUse)
  | ok s =>
    rw [added] at represents
    obtain ⟨nodes, ok, entries⟩ := represents
    refine ⟨s, rfl, fun t member x small => ?_⟩
    obtain ⟨r, chosen, route, adjacency⟩ := best_routes t small
    refine ⟨_, (lookup_entry ok small).1, ?_⟩
    rw [entries, routesOf_tables distinct member, chosen, Nat.shiftRight_eq_div_pow]
    exact (leafSetAdjIndex_half ((valid t member).routes r route).adjacency).trans adjacency

end Nfos.Mtrie

namespace Nfos.LoadBalancing
open Function EiNat Maglev

/-- The pool `load_balance_pool` with `load_balance_pool_index`. -/
structure Pool where
  loadBalances : Nat → LoadBalance
  poolIndex : Nat

/-- The vector after its allocation; the DSCP is not initialized. -/
def lbNullInit (dscp : Nat → Nat) : Pool := ⟨fun i => ⟨[], dscp i⟩, 0⟩

/-- `none` is a failed assertion. -/
def lbVectorGet (capacity : Nat) (pool : Pool) : Option (Nat × Pool) :=
  if pool.poolIndex < capacity then some (pool.poolIndex, { pool with poolIndex := pool.poolIndex + 1 }) else none

def loadBalanceCreate (capacity : Nat) (dpos : List Dpo) (pool : Pool) : Option (Nat × Pool) := do
  let (index, pool) ← lbVectorGet capacity pool
  let lb := { pool.loadBalances index with lbBuckets := dpos }
  return (index, { pool with loadBalances := update pool.loadBalances index lb })

def loadBalanceSetDscp (lbIndex dscp : Nat) (pool : Pool) : Pool :=
  { pool with loadBalances := update pool.loadBalances lbIndex { pool.loadBalances lbIndex with dscp := dscp } }

/-- The number that the bytes of an Ethernet address stand for in memory. -/
def etherAddr (bytes : List Nat) : Nat := bytes.foldr (fun b n => b + 256 * n) 0

/-- The first load balance of every network function. -/
def dropDpo : Dpo := ⟨.drop, 0xFFFF, etherAddr [0xFF, 0xFF, 0xFF, 0xFF, 0xFF, 0xFF]⟩

end Nfos.LoadBalancing
