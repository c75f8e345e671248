import Nfos.RouteTables

/-! The routes of `maglev`: two virtual addresses are balanced, each with its own DSCP, two hosts are
gateways, and everything else is dropped. -/
namespace Nfos.Maglev
open Casts DataPlane EiNat LoadBalancing Mtrie

section Routes

def wanDeviceOne : Nat := 0

def lanDeviceOne : Nat := 1

def wanDeviceTwo : Nat := 2

def lanDeviceTwo : Nat := 3

/-- The devices of the clients. -/
def wanDevices (i : Fin 2) : Nat := if i.val = 0 then wanDeviceOne else wanDeviceTwo

def lbCapacity : Nat := 7

def ip4PlyPoolCapacity : Nat := 30

def lbDpo : Dpo := ⟨.lb, 0xFFFF, etherAddr [0xFF, 0xFF, 0xFF, 0xFF, 0xFF, 0xFF]⟩

/-- The gateways differ in the device and in the first byte of the address. -/
def gatewayDpo (sendDevice first : Nat) : Dpo := ⟨.forward, sendDevice, etherAddr [first, 0x34, 0x56, 0x78, 0x90, 0xab]⟩

/-- The indices of the load balances of `nf_init`, in their order. -/
def createLoadBalances (dscp : Nat → Nat) : Option (List Nat × Pool) := do
  let (index0, pool) ← loadBalanceCreate lbCapacity [dropDpo] (lbNullInit dscp)
  let (index1, pool) ← loadBalanceCreate lbCapacity [lbDpo] pool
  let pool := loadBalanceSetDscp index1 1 pool
  let (index2, pool) ← loadBalanceCreate lbCapacity [lbDpo] pool
  let pool := loadBalanceSetDscp index2 2 pool
  let (index3, pool) ← loadBalanceCreate lbCapacity [gatewayDpo wanDeviceOne 0x12] pool
  let (index4, pool) ← loadBalanceCreate lbCapacity [gatewayDpo wanDeviceOne 0x11] pool
  let (index5, pool) ← loadBalanceCreate lbCapacity [gatewayDpo lanDeviceOne 0x13] pool
  let (index6, pool) ← loadBalanceCreate lbCapacity [gatewayDpo lanDeviceTwo 0x14] pool
  return ([index0, index1, index2, index3, index4, index5, index6], pool)

/-- The routes of a device. The virtual addresses lead to `first` and `second`. -/
def routes (index : Nat → Nat) (dev first second : Nat) : Table :=
  ⟨dev, index 0, [(0, index 0), (0x76000001, index first), (0x76000002, index second), (0x0A000301, index 5), (0x0A000401, index 6)]⟩

/-- Only the devices of the clients lead to the load balancer. -/
def tables (index : Nat → Nat) : List Table :=
  [routes index wanDeviceOne 1 2, routes index wanDeviceTwo 1 2, routes index lanDeviceOne 3 4, routes index lanDeviceTwo 3 4]

/-- The part of `nf_init` about the routes, which are to be added to the tables; `none` is a failed assertion. -/
def nfInitRoutesWith (config : Setup) (dscp : Nat → Nat) (add : List Route → Except Mtrie.Fault State) : Option Setup := do
  let (indices, pool) ← createLoadBalances dscp
  let fibs ← (add ((tables fun i => indices.getD i 0).flatMap Table.routes)).toOption
  return { config with
    wanDevice := wanDevices
    ip4Fibs := fibs
    ip4PlyPoolCapacity := ip4PlyPoolCapacity
    loadBalancePool := pool.loadBalances }

def nfInitRoutes (config : Setup) (dscp : Nat → Nat) (plies : Nat → Ply8) : Option Setup :=
  nfInitRoutesWith config dscp fun routes => addRoutes ip4PlyPoolCapacity routes (Mtrie.initial plies)

/-- The DSCP of a virtual address. -/
def virtualService (x : Nat) : Option Nat := if x = 0x76000001 then some 1 else if x = 0x76000002 then some 2 else none

/-- The hosts with routes of their own that are not balanced. -/
def isGateway (x : Nat) : Bool := x = 0x0A000301 || x = 0x0A000401

theorem createLoadBalances_eq (dscp : Nat → Nat) : ∃ pool, createLoadBalances dscp = some ([0, 1, 2, 3, 4, 5, 6], pool) ∧
    pool.loadBalances 0 = ⟨[dropDpo], dscp 0⟩ ∧ pool.loadBalances 1 = ⟨[lbDpo], 1⟩ ∧ pool.loadBalances 2 = ⟨[lbDpo], 2⟩ ∧
    pool.loadBalances 5 = ⟨[gatewayDpo lanDeviceOne 0x13], dscp 5⟩ ∧ pool.loadBalances 6 = ⟨[gatewayDpo lanDeviceTwo 0x14], dscp 6⟩ :=
  ⟨_, rfl, rfl, rfl, rfl, rfl, rfl⟩

theorem nfInitRoutesWith_eq {config : Setup} {dscp : Nat → Nat} {add : List Route → Except Mtrie.Fault State} {pool : Pool} {fibs : State}
    (created : createLoadBalances dscp = some ([0, 1, 2, 3, 4, 5, 6], pool))
    (added : add ((tables fun i => [0, 1, 2, 3, 4, 5, 6].getD i 0).flatMap Table.routes) = .ok fibs) :
    nfInitRoutesWith config dscp add = some { config with
      wanDevice := wanDevices
      ip4Fibs := fibs
      ip4PlyPoolCapacity := ip4PlyPoolCapacity
      loadBalancePool := pool.loadBalances } := by
  simp only [nfInitRoutesWith, created, added, Except.toOption, Option.bind_eq_bind, Option.bind_some, Option.pure_def]

/-- The tables with the indices of the load balances. -/
def allTables : List Table := tables fun i => [0, 1, 2, 3, 4, 5, 6].getD i 0

theorem allTables_valid : ∀ t ∈ allTables, t.Valid := by
  have all : ∀ t ∈ allTables, t.default < 2 ^ 31 ∧ ∀ h ∈ t.hosts, h.1 < 2 ^ 32 ∧ h.2 < 2 ^ 31 := by decide
  exact fun t member => ⟨(all t member).1, (all t member).2⟩

theorem allTables_room : (needed (allTables.flatMap Table.routes)).card ≤ ip4PlyPoolCapacity := by decide

/-- The index of the load balance that a client reaches. -/
def clientRoute (x : Nat) : Nat :=
  match virtualService x with
  | some n => n
  | none => if x = 0x0A000301 then 5 else if x = 0x0A000401 then 6 else 0

theorem allTables_choose {dev : Nat} (client : dev = wanDeviceOne ∨ dev = wanDeviceTwo) (x : Nat) :
    ∃ t ∈ allTables, t.trie = dev ∧ t.choose x = clientRoute x := by
  have chosen : ∀ d, (routes (fun i => [0, 1, 2, 3, 4, 5, 6].getD i 0) d 1 2).choose x = clientRoute x := by
    intro d
    simp only [routes, Table.choose, List.foldl_cons, List.foldl_nil, clientRoute, virtualService]
    by_cases first : x = 0x76000001
    · subst first
      rfl
    by_cases second : x = 0x76000002
    · subst second
      rfl
    by_cases third : x = 0x0A000301
    · subst third
      rfl
    by_cases fourth : x = 0x0A000401
    · subst fourth
      rfl
    simp [first, second, third, fourth, Ne.symm first, Ne.symm second, Ne.symm third, Ne.symm fourth]
  rcases client with rfl | rfl
  · exact ⟨_, List.mem_cons_self, rfl, chosen _⟩
  · exact ⟨_, List.mem_cons_of_mem _ List.mem_cons_self, rfl, chosen _⟩

/-- What is done with a packet of a client to this address. -/
def clientAction (x : Nat) : DpoAction :=
  match virtualService x with
  | some _ => .lb
  | none => if isGateway x then .forward else .drop

/-- The routes of the clients. -/
def Routed (setup : Setup) : Prop := ∀ dev dstAddr, setup.isWan dev = true → ∃ lb0 dpo0,
  lookupLb setup dev dstAddr = some (lb0, dpo0) ∧ dpo0.action = clientAction (bswap32 dstAddr) ∧
    ∀ n, virtualService (bswap32 dstAddr) = some n → lb0.dscp = n

theorem virtualService_cases {x n : Nat} (virtual : virtualService x = some n) : n = 1 ∨ n = 2 := by
  unfold virtualService at virtual
  split at virtual
  · exact .inl (Option.some.inj virtual).symm
  · split at virtual
    · exact .inr (Option.some.inj virtual).symm
    · contradiction

/-- The load balance that a client reaches has one bucket. -/
theorem createLoadBalances_routed (dscp : Nat → Nat) : ∃ pool, createLoadBalances dscp = some ([0, 1, 2, 3, 4, 5, 6], pool) ∧
    ∀ x, ∃ dpo, (pool.loadBalances (clientRoute x)).lbBuckets = [dpo] ∧ dpo.action = clientAction x ∧
      ∀ n, virtualService x = some n → (pool.loadBalances (clientRoute x)).dscp = n := by
  obtain ⟨pool, created, drop, first, second, third, fourth⟩ := createLoadBalances_eq dscp
  refine ⟨pool, created, fun x => ?_⟩
  unfold clientRoute clientAction
  cases virtual : virtualService x with
  | some n =>
    rcases virtualService_cases virtual with rfl | rfl
    · exact ⟨lbDpo, by simp [first], rfl, by simp [first]⟩
    · exact ⟨lbDpo, by simp [second], rfl, by simp [second]⟩
  | none =>
    unfold isGateway
    by_cases one : x = 0x0A000301
    · exact ⟨gatewayDpo lanDeviceOne 0x13, by simp [one, third], by simp [one, gatewayDpo], nofun⟩
    by_cases two : x = 0x0A000401
    · exact ⟨gatewayDpo lanDeviceTwo 0x14, by simp [two, fourth], by simp [two, gatewayDpo], nofun⟩
    exact ⟨dropDpo, by simp [one, two, drop], by simp [one, two, dropDpo], nofun⟩

/-- The pools are large enough for the routes. -/
theorem nfInitRoutes_routed (config : Setup) (dscp : Nat → Nat) (plies : Nat → Ply8) : ∃ fibs pool setup,
    setup = { config with
      wanDevice := wanDevices
      ip4Fibs := fibs
      ip4PlyPoolCapacity := ip4PlyPoolCapacity
      loadBalancePool := pool } ∧
    nfInitRoutes config dscp plies = some setup ∧ Routed setup := by
  obtain ⟨fibs, added, found⟩ := tables_lookup (Nat.le_of_lt (by decide)) plies allTables_valid (by decide) allTables_room
  obtain ⟨pool, created, balances⟩ := createLoadBalances_routed dscp
  refine ⟨fibs, pool.loadBalances, _, rfl, nfInitRoutesWith_eq created added, ?_⟩
  intro dev dstAddr wan
  have client : dev = wanDeviceOne ∨ dev = wanDeviceTwo := by simpa [Setup.isWan, wanDevices] using wan
  obtain ⟨t, member, trie, choice⟩ := allTables_choose client (bswap32 dstAddr)
  obtain ⟨leaf, looked, index⟩ := found t member _ (bswap32_lt dstAddr)
  rw [trie] at looked
  obtain ⟨dpo, bucket, action, mark⟩ := balances (bswap32 dstAddr)
  refine ⟨pool.loadBalances (clientRoute (bswap32 dstAddr)), dpo, ?_, action, mark⟩
  simp only [lookupLb, looked, index, choice, bucket, Except.toOption, Option.bind_eq_bind, Option.bind_some, Option.pure_def,
    List.getElem?_cons_zero]

end Routes
end Nfos.Maglev
