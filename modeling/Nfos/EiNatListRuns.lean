import Nfos.EiNatListSteps

/-! The lists of the users over whole runs of `ei-nat`, and what a refused packet leaves. -/
namespace Nfos.EiNat
open Txn Tx Run Function Vectors Map DoubleChain NfUtil DataPlane Sessions

section Lists
variable {setup : Setup} {s t : NfState Objects} {find : Session → Option Int} {findUser : Nat → Option Int}
variable {addrOf : Nat → Nat} {L : Nat → List Nat} {u : Nat}

/-- Following `next` from `v` visits exactly these sessions and ends at -1. Following `prev`
from `q` leads back to `p`. -/
def Threaded (s : NfState Objects) (p v : Int) : List Nat → Int → Prop
  | [], q => v = sessListHead ∧ q = p
  | i :: l, q => v = i ∧ (s.sessions.sessionData i).node.prev = p ∧ Threaded s i (s.sessions.sessionData i).node.next l q

theorem threaded_of_links {p : Place} {l : List Nat}
    (links : (p :: (l.map .sess ++ [.head u])).IsChain (Rings.Link Place.code s.next s.prev)) :
    Threaded s p.code (s.next p) l (s.prev (.head u)) := by
  induction l generalizing p with
  | nil =>
    have closed : Rings.Link Place.code s.next s.prev p (.head u) := List.isChain_pair.mp links
    exact closed
  | cons i l ih =>
    rw [List.map_cons, List.cons_append, List.isChain_cons_cons] at links
    obtain ⟨⟨forward, backward⟩, rest⟩ := links
    exact ⟨forward, backward, ih rest⟩

/-- The sessions in `l` are those of the user `u`. -/
structure UserList (setup : Setup) (s : NfState Objects) (u : Nat) (l : List Nat) : Prop where
  distinct : l.Nodup
  threaded : Threaded s sessListHead (s.userData u).sessListHead.next l (s.userData u).sessListHead.prev
  numSessions : (s.userData u).numSessions = l.length
  userIndex : ∀ i : Nat, i ∈ l ↔ (∃ key, found setup.sessionMap s.sessions.sessionMap key = some (i : Int)) ∧
    (s.sessions.sessionData i).userIndex = u
  source : ∀ key (i : Nat), found setup.sessionMap s.sessions.sessionMap key = some (i : Int) →
    (i ∈ l ↔ found setup.userMap s.userMap key.srcAddr = some (u : Int))

theorem Lists.userList (exact : setup.Exact) (known : Known setup s find findUser addrOf)
    (lists : Lists setup s (sessions setup s) findUser L) (member : u ∈ users setup s) : UserList setup s u (L u) := by
  have ring := lists.ring u member
  have stored (i : Nat) : i ∈ sessions setup s ↔ ∃ key, found setup.sessionMap s.sessions.sessionMap key = some (i : Int) := by
    simp only [known.sessions.lookup.found_eq exact.sessionMap]
    constructor
    · exact fun inside => ⟨_, known.sessions.coherent.found inside⟩
    · rintro ⟨key, found⟩
      obtain ⟨j, inside, same, _⟩ := known.sessions.coherent.of_found found
      obtain rfl := Int.ofNat.inj same
      exact inside
  constructor
  case distinct => exact (List.nodup_cons.mp ring.once).2.of_map
  case threaded => exact threaded_of_links ring.links
  case numSessions => exact lists.size u member
  case userIndex =>
    intro i
    rw [← stored, lists.member u member]
  case source =>
    intro key i found
    have inside := (stored i).mpr ⟨key, found⟩
    rw [known.sessions.lookup.found_eq exact.sessionMap] at found
    rw [known.users.lookup.found_eq exact.userMap, lists.member u member]
    obtain ⟨j, _, same, rfl⟩ := known.sessions.coherent.of_found found
    obtain rfl := Int.ofNat.inj same
    change _ ↔ findUser (s.sessions.sessionData i).intIp = _
    rw [lists.source i inside, Option.some.injEq]
    exact and_iff_right inside

end Lists

section Runs
variable {setup : Setup} {s t : NfState Objects} {history : List Handled}

/-- The invariant of a run whose packets all get a session, with lists that are sorted as
long as the times do not decrease. -/
def Kept (setup : Setup) (history : List Handled) (s : NfState Objects) : Prop :=
  ∃ find findUser addrOf L, Known setup s find findUser addrOf ∧ Lists setup s (sessions setup s) findUser L ∧
    (∀ i ∈ sessions setup s, ∃ e ∈ history, s.lastUsed i = e.time) ∧
    ((history.Pairwise fun e e' => e.time ≤ e'.time) → Sorted setup s L)

theorem Listed.kept {e : Handled} {L : Nat → List Nat} (listed : Listed setup e.time s L t)
    (times : ∀ i ∈ sessions setup s, ∃ e ∈ history, s.lastUsed i = e.time)
    (sorted : (history.Pairwise fun e e' => e.time ≤ e'.time) → Sorted setup s L) : Kept setup (history ++ [e]) t := by
  obtain ⟨find, findUser, addrOf, L', known, lists, aged⟩ := listed
  refine ⟨find, findUser, addrOf, L', known, lists, fun i inside => ?_, fun ordered => ?_⟩
  · rcases aged.times i inside with now | ⟨before, same⟩
    · exact ⟨e, List.mem_append_right _ (List.mem_singleton_self e), now⟩
    · obtain ⟨e', member, time⟩ := times i before
      exact ⟨e', List.mem_append_left _ member, same.trans time⟩
  · rw [List.pairwise_append] at ordered
    obtain ⟨before, _, last⟩ := ordered
    refine aged.sorted (fun i inside => ?_) (sorted before)
    obtain ⟨e', member, time⟩ := times i inside
    exact time.trans_le (last e' member e (List.mem_singleton_self e))

theorem nfInit_kept {config : Setup} {crc32si : Nat → Nat → Nat} {maxNumSessions : Nat} {memory : NfState Objects}
    (ended : nfInit config crc32si maxNumSessions memory = some (setup, s)) (positive : 0 < maxNumSessions)
    (small : 2 * maxNumSessions ≤ 2 ^ 31) (smallUsers : 2 * config.maxNumUsers ≤ 2 ^ 31) :
    setup.Exact ∧ Kept setup [] s := by
  obtain ⟨exact, known, none, nobody⟩ := nfInit_exact ended positive small smallUsers
  refine ⟨exact, _, _, _, fun _ => [], known, ?_, ?_, ?_⟩
  · constructor
    all_goals
      simp [none, nobody]
  · simp [none]
  · simp [Sorted]

theorem step_kept (exact : setup.Exact) {e : Handled} (kept : Kept setup history s) (step : Step setup s e t)
    (found : ∃ ext, e.translation = .session ext) : Kept setup (history ++ [e]) t := by
  obtain ⟨find, findUser, addrOf, L, known, lists, times, sorted⟩ := kept
  obtain ⟨accepted, core, grants, l, translated, rfl, _⟩ := step.translated
  have left := ensures_translate_listed (l := s.start) exact known lists core accepted grants _ _ translated
  obtain ⟨ext, kind⟩ := found
  rw [kind] at left
  exact left.1.kept times sorted

theorem run_kept {config : Setup} {crc32si : Nat → Nat → Nat} {maxNumSessions : Nat} {memory : NfState Objects}
    (positive : 0 < maxNumSessions) (small : 2 * maxNumSessions ≤ 2 ^ 31) (smallUsers : 2 * config.maxNumUsers ≤ 2 ^ 31)
    (ended : nfInit config crc32si maxNumSessions memory = some (setup, s))
    (run : Trace (Step setup) s history t) (served : ∀ e ∈ history, ∃ ext, e.translation = .session ext) :
    setup.Exact ∧ Kept setup history t := by
  obtain ⟨exact, initial⟩ := nfInit_kept ended positive small smallUsers
  have kept : (∀ e ∈ history, ∃ ext, e.translation = .session ext) → Kept setup history t := by
    refine run.rule (P := fun history t => (∀ e ∈ history, ∃ ext, e.translation = .session ext) → Kept setup history t)
      (fun _ => initial) ?_
    intro past t e u _ before step served
    have last := served e (List.mem_append_right _ (List.mem_singleton_self e))
    exact step_kept exact (before fun e member => served e (List.mem_append_left _ member)) step last
  exact ⟨exact, kept served⟩

/-- In every run whose packets all get a session, the sessions of every user are on its
list, and sorted when the times do not decrease. -/
theorem user_lists_well_formed {config : Setup} {crc32si : Nat → Nat → Nat} {maxNumSessions : Nat} {memory : NfState Objects}
    (positive : 0 < maxNumSessions) (small : 2 * maxNumSessions < 2 ^ 31) (smallUsers : 2 * config.maxNumUsers < 2 ^ 31)
    (ended : nfInit config crc32si maxNumSessions memory = some (setup, s))
    (run : Trace (Step setup) s history t) (served : ∀ e ∈ history, ∃ ext, e.translation = .session ext) :
    ∀ u ∈ users setup t, ∃ l, UserList setup t u l ∧ ((history.Pairwise fun e e' => e.time ≤ e'.time) →
      l.Pairwise fun i j => (t.sessions.sessionData j).lastUsed ≤ (t.sessions.sessionData i).lastUsed) := by
  obtain ⟨exact, find, findUser, addrOf, L, known, lists, _, sorted⟩ := run_kept positive small.le smallUsers.le ended run served
  intro u member
  exact ⟨L u, lists.userList exact known member, fun ordered => sorted ordered u member⟩

theorem Kept.mem_users {addr u : Nat} (exact : setup.Exact) (kept : Kept setup history s)
    (found : found setup.userMap s.userMap addr = some (u : Int)) : u ∈ users setup s := by
  obtain ⟨find, findUser, addrOf, L, known, _⟩ := kept
  rw [known.users.lookup.found_eq exact.userMap] at found
  obtain ⟨v, member, same, _⟩ := known.users.coherent.of_found found
  obtain rfl := Int.ofNat.inj same
  exact member

/-- A list of two sessions is known by its first two links. -/
theorem UserList.eq_pair {u i j : Nat} {l : List Nat} (list : UserList setup s u l) (size : (s.userData u).numSessions = 2)
    (first : (s.userData u).sessListHead.next = i) (second : (s.sessions.sessionData i).node.next = j) : l = [i, j] := by
  have length : l.length = 2 := Int.ofNat.inj (list.numSessions.symm.trans size)
  obtain ⟨a, b, rfl⟩ := List.length_eq_two.mp length
  obtain ⟨head, _, next, _⟩ := list.threaded
  obtain rfl := Int.ofNat.inj (first.symm.trans head)
  obtain rfl := Int.ofNat.inj (second.symm.trans next)
  rfl

end Runs

section Refused
variable {setup : Setup} {s t : NfState Objects} {history : List Handled}

/-- The maps, the allocators and the vectors describe the same sessions and users. -/
structure Untouched (setup : Setup) (s s' : NfState Objects) : Prop where
  sessionMap : ∀ key, found setup.sessionMap s'.sessions.sessionMap key = found setup.sessionMap s.sessions.sessionMap key
  sessionData : ∀ key v, found setup.sessionMap s.sessions.sessionMap key = some v →
    s'.sessions.sessionData v.toNat = s.sessions.sessionData v.toNat
  sessIndexesTcp : allocated setup.numCores setup.cfg.numAvailExtTuples s'.sessions.sessIndexesTcp =
    allocated setup.numCores setup.cfg.numAvailExtTuples s.sessions.sessIndexesTcp
  sessIndexesUdp : allocated setup.numCores setup.cfg.numAvailExtTuples s'.sessions.sessIndexesUdp =
    allocated setup.numCores setup.cfg.numAvailExtTuples s.sessions.sessIndexesUdp
  userMap : ∀ addr, found setup.userMap s'.userMap addr = found setup.userMap s.userMap addr
  userData : ∀ u ∈ users setup s, s'.userData u = s.userData u
  userIndexes : users setup s' = users setup s

/-- Every session in the map is on the list of the user with its source address. -/
def OnLists (setup : Setup) (s : NfState Objects) : Prop :=
  ∀ key v, found setup.sessionMap s.sessions.sessionMap key = some v → ∃ u ∈ users setup s,
    found setup.userMap s.userMap key.srcAddr = some (u : Int) ∧ ∃ l, UserList setup s u l ∧ v.toNat ∈ l

/-- A new session has a number and an entry in the map, but there is no index for its user. -/
structure NoUserIndex (setup : Setup) (s : NfState Objects) (key : Session) : Prop where
  unknown : found setup.sessionMap s.sessions.sessionMap key = none
  unmapped : natStaticMappingMatch setup key.srcAddr key.srcPort lanDevice key.proto = none
  room : ∃ j < setup.sessionMap.capacity, ¬ Busy s.sessions.sessionMap j
  newUser : found setup.userMap s.userMap key.srcAddr = none
  exhausted : stock setup.numCores setup.maxNumUsers ⊆ users setup s

theorem Lists.onLists {find : Session → Option Int} {findUser : Nat → Option Int} {addrOf : Nat → Nat} {L : Nat → List Nat}
    (exact : setup.Exact) (known : Known setup s find findUser addrOf) (lists : Lists setup s (sessions setup s) findUser L) :
    OnLists setup s := by
  intro key v present
  rw [known.sessions.lookup.found_eq exact.sessionMap] at present
  obtain ⟨i, inside, rfl, rfl⟩ := known.sessions.coherent.of_found present
  obtain ⟨u, member, owner⟩ := lists.owned i inside
  refine ⟨u, member, ?_, L u, lists.userList exact known member, (lists.member u member i).mpr ⟨inside, owner⟩⟩
  rw [known.users.lookup.found_eq exact.userMap, ← owner]
  exact lists.source i inside

/-- What `alloc_session` takes back leaves no trace. -/
theorem Restored.untouched {s s' : NfState Objects} (restored : Restored setup.cfg setup.numCores s.sessions s'.sessions)
    (userMap : s'.userMap = s.userMap) (userIndexes : s'.userIndexes = s.userIndexes) (userData : s'.userData = s.userData) :
    Untouched setup s s' := by
  constructor
  case sessionMap =>
    intro key
    rw [restored.sessionMap]
  case sessionData =>
    intro key v _
    rw [restored.sessionData]
  case sessIndexesTcp =>
    ext i
    rw [mem_tcp_iff, mem_tcp_iff, restored.numbers]
  case sessIndexesUdp =>
    ext i
    rw [mem_udp_iff, mem_udp_iff, restored.numbers]
  case userMap =>
    intro addr
    rw [userMap]
  case userData =>
    intro u _
    rw [userData]
  case userIndexes => exact congrArg (allocated _ _) userIndexes

/-- What the lists need, at any time of a run. -/
def Tidy (setup : Setup) (s : NfState Objects) : Prop :=
  ∃ find findUser addrOf L, Known setup s find findUser addrOf ∧ Lists setup s (sessions setup s) findUser L

theorem Tidy.onLists (exact : setup.Exact) (tidy : Tidy setup s) : OnLists setup s := by
  obtain ⟨_, _, _, _, known, lists⟩ := tidy
  exact lists.onLists exact known

/-- A packet leaves the lists tidy and, if it is dropped, no trace, or it comes from a new
user without an index and its session stays in the map. -/
theorem step_tidy (exact : setup.Exact) (tidy : Tidy setup s) {e : Handled} (step : Step setup s e t) :
    ¬ NoUserIndex setup s e.key ∧ Tidy setup t ∧ (e.translation = .dropped → Untouched setup s t) ∨
      NoUserIndex setup s e.key ∧ e.translation = .dropped ∧ ¬ Untouched setup s t := by
  obtain ⟨find, findUser, addrOf, L, known, lists⟩ := tidy
  obtain ⟨accepted, core, grants, l, translated, rfl, _⟩ := step.translated
  have left := ensures_translate_listed (l := s.start) exact known lists core accepted grants _ _ translated
  have session (key : Session) : found setup.sessionMap s.sessions.sessionMap key = find key :=
    known.sessions.lookup.found_eq exact.sessionMap key
  have user (addr : Nat) : found setup.userMap s.userMap addr = findUser addr := known.users.lookup.found_eq exact.userMap addr
  cases kind : e.translation with
  | session ext =>
    rw [kind] at left
    obtain ⟨⟨find', findUser', addrOf', L', known', lists', _⟩, some⟩ := left
    refine Or.inl ⟨fun none => some ⟨?_, ?_, none.exhausted⟩, ⟨find', findUser', addrOf', L', known', lists'⟩, nofun⟩
    · exact (session _).symm.trans none.unknown
    · exact (user _).symm.trans none.newUser
  | staticMapping ext =>
    rw [kind] at left
    obtain ⟨same, mapped⟩ := left
    refine Or.inl ⟨fun none => mapped none.unmapped, ?_, nofun⟩
    rw [same]
    exact ⟨find, findUser, addrOf, L, known, lists⟩
  | dropped =>
    rw [kind] at left
    obtain ⟨absent, unmapped, ⟨full, restored, userMap, userIndexes, userData⟩ | ⟨room, ⟨newUser, exhausted⟩, i, lookup⟩⟩ := left
    · refine Or.inl ⟨fun none => full none.room, ?_, fun _ => Restored.untouched restored userMap userIndexes userData⟩
      refine ⟨find, findUser, addrOf, L, ⟨restored.invariant known.sessions, known.users.congr userMap userIndexes⟩, ?_⟩
      rw [sessions, restored.numbers]
      refine lists.congr (congrArg (allocated _ _) userIndexes) (fun u _ => congrFun userData u) (fun j _ => ?_) (fun j _ => ?_) fun j _ => ?_
      · exact congrArg SessionData.node (congrFun restored.sessionData j)
      · exact congrArg SessionData.intIp (congrFun restored.sessionData j)
      · exact congrArg SessionData.userIndex (congrFun restored.sessionData j)
    · refine Or.inr ⟨⟨?_, unmapped, room, ?_, exhausted⟩, rfl, fun untouched => ?_⟩
      · exact (session _).trans absent
      · exact (user _).trans newUser
      · have same := untouched.sessionMap e.key
        rw [lookup.found_eq exact.sessionMap, session, absent, Directory.added, if_pos rfl] at same
        contradiction

/-- As long as no packet needs an index for a new user that is not there, every session is
on its list and refused packets leave no trace. The first packet that does leaves one. -/
theorem refused_untouched_iff {config : Setup} {crc32si : Nat → Nat → Nat} {maxNumSessions : Nat} {memory : NfState Objects}
    (positive : 0 < maxNumSessions) (small : 2 * maxNumSessions < 2 ^ 31) (smallUsers : 2 * config.maxNumUsers < 2 ^ 31)
    (ended : nfInit config crc32si maxNumSessions memory = some (setup, s))
    (run : Trace (fun s e s' => Step setup s e s' ∧ ¬ NoUserIndex setup s e.key) s history t) :
    OnLists setup t ∧ ∀ e t', Step setup t e t' →
      ((e.translation = .dropped → Untouched setup t t') ∧ OnLists setup t' ↔ ¬ NoUserIndex setup t e.key) := by
  obtain ⟨exact, find, findUser, addrOf, L, known, lists, _⟩ := nfInit_kept ended positive small.le smallUsers.le
  have tidy : Tidy setup t := by
    refine run.keeps (P := Tidy setup) ⟨find, findUser, addrOf, L, known, lists⟩ ?_
    rintro s e s' before ⟨step, index⟩
    rcases step_tidy exact before step with ⟨_, after, _⟩ | ⟨none, _⟩
    · exact after
    · exact absurd none index
  refine ⟨tidy.onLists exact, fun e t' step => ?_⟩
  rcases step_tidy exact tidy step with ⟨index, after, untouched⟩ | ⟨none, dropped, touched⟩
  · exact iff_of_true ⟨untouched, after.onLists exact⟩ index
  · exact iff_of_false (fun claim => touched (claim.1 dropped)) (not_not.mpr none)

end Refused

section Example
open NfUtil

/-- One core and one user. -/
def oneUser : Setup := { exampleSetup with maxNumUsers := 1, users := by decide, numCores := 1 }

def oneUserMemory : NfState Objects :=
  ⟨exampleMemory ⟨⟨0, 0⟩, 0, 0, 0, 0⟩, fun _ => ⟨0, 0, 0, 0, 0⟩, fun _ => ⟨⟨0, 0⟩, 0⟩, fun _ => ⟨0, 0, 0, ()⟩⟩

def oneUserInit : Option (Setup × NfState Objects) := nfInit oneUser (fun a b => a + b) 4 oneUserMemory

def Translation.isSession : Translation → Bool
  | .session _ => true
  | .staticMapping _ | .dropped => false

theorem Translation.exists_of_isSession {translation : Translation} (found : translation.isSession = true) :
    ∃ ext, translation = .session ext := by
  cases translation with
  | session ext => exact ⟨ext, rfl⟩
  | staticMapping | dropped => contradiction

/-- Two sessions of the only user, and a packet of the first one that moves it to the front. -/
theorem user_lists_well_formed_refreshed : ∃ setup s history t e t', oneUserInit = some (setup, s) ∧
    Trace (Step setup) s history t ∧ Step setup t e t' ∧
    (history ++ [e]).map (fun e => (e.key.srcPort, e.time)) = [(1, 0), (2, 1000000000), (1, 4000000000)] ∧
    UserList setup t 0 [5, 4] ∧ UserList setup t' 0 [4, 5] ∧
    (t.sessions.sessionData 4).lastUsed ≤ (t.sessions.sessionData 5).lastUsed ∧
    (t'.sessions.sessionData 5).lastUsed ≤ (t'.sessions.sessionData 4).lastUsed := by
  have ran : (do
      let r ← oneUserInit
      let a ← udpStep r 0 1 1 0
      let b ← udpStep (r.1, a.2) 0 1 2 1000000000
      let c ← udpStep (r.1, b.2) 0 1 1 4000000000
      return (a.1.translation.isSession && b.1.translation.isSession && c.1.translation.isSession &&
        decide (0 < r.1.numCores) && decide (0 ≠ r.1.cfg.wanDevice) &&
        decide ([a.1, b.1, c.1].map (fun e => (e.key.srcPort, e.time)) = [(1, 0), (2, 1000000000), (1, 4000000000)]) &&
        decide (found r.1.userMap b.2.userMap 1 = some (0 : Nat) ∧ (b.2.userData 0).numSessions = 2 ∧
          (b.2.userData 0).sessListHead.next = (5 : Nat) ∧ (b.2.sessions.sessionData 5).node.next = (4 : Nat)) &&
        decide (found r.1.userMap c.2.userMap 1 = some (0 : Nat) ∧ (c.2.userData 0).numSessions = 2 ∧
          (c.2.userData 0).sessListHead.next = (4 : Nat) ∧ (c.2.sessions.sessionData 4).node.next = (5 : Nat)))) = some true := by
    decide +kernel
  simp only [Option.bind_eq_bind, Option.bind_eq_some_iff, Option.pure_def, Option.some.injEq, Bool.and_eq_true, decide_eq_true_eq] at ran
  obtain ⟨⟨setup, s⟩, init, ⟨a, s₁⟩, first, ⟨b, t⟩, second, ⟨c, t'⟩, third, checks⟩ := ran
  obtain ⟨⟨⟨⟨⟨⟨⟨one, two⟩, three⟩, cores⟩, lan⟩, packets⟩, known, size, head, next⟩, known', size', head', next'⟩ := checks
  have once : Trace (Step setup) s ([] ++ [a]) s₁ := .extend .start (step_of_udpStep first cores lan)
  have run : Trace (Step setup) s ([a] ++ [b]) t := once.extend (step_of_udpStep second cores lan)
  have step : Step setup t c t' := step_of_udpStep third cores lan
  have run' : Trace (Step setup) s ([a, b] ++ [c]) t' := run.extend step
  have served : ∀ e ∈ [a, b], ∃ ext, e.translation = .session ext := by
    intro e member
    rcases List.mem_pair.mp member with rfl | rfl
    · exact Translation.exists_of_isSession one
    · exact Translation.exists_of_isSession two
  have served' : ∀ e ∈ [a, b] ++ [c], ∃ ext, e.translation = .session ext := by
    intro e member
    rcases List.mem_append.mp member with old | new
    · exact served e old
    · obtain rfl := List.mem_singleton.mp new
      exact Translation.exists_of_isSession three
  have ordered : ([a, b] ++ [c]).Pairwise fun e e' => e.time ≤ e'.time := by
    simp only [List.map_cons, List.map_nil, List.cons.injEq, Prod.mk.injEq, and_true] at packets
    obtain ⟨⟨_, first⟩, ⟨_, second⟩, _, third⟩ := packets
    simp [first, second, third]
  obtain ⟨exact, kept⟩ := run_kept (by decide) (by decide) (by decide) init run served
  obtain ⟨_, kept'⟩ := run_kept (by decide) (by decide) (by decide) init run' served'
  obtain ⟨l, list, sorted⟩ := user_lists_well_formed (by decide) (by decide) (by decide) init run served 0 (kept.mem_users exact known)
  obtain ⟨l', list', sorted'⟩ :=
    user_lists_well_formed (by decide) (by decide) (by decide) init run' served' 0 (kept'.mem_users exact known')
  obtain rfl := list.eq_pair size head next
  obtain rfl := list'.eq_pair size' head' next'
  replace sorted := sorted (List.pairwise_append.mp ordered).1
  replace sorted' := sorted' ordered
  rw [List.pairwise_pair] at sorted sorted'
  exact ⟨setup, s, [a, b], t, c, t', init, run, step, packets, list, list', sorted, sorted'⟩

/-- The only user gets a list, and the next new user leaves a trace. -/
theorem refused_untouched_iff_one_user : ∃ setup s e t, oneUserInit = some (setup, s) ∧ Step setup s e t ∧
    ¬ NoUserIndex setup s e.key ∧ OnLists setup t ∧ ∀ e t', Step setup t e t' →
      ((e.translation = .dropped → Untouched setup t t') ∧ OnLists setup t' ↔ ¬ NoUserIndex setup t e.key) := by
  have ran : (do
      let r ← oneUserInit
      let (e, _) ← udpStep r 0 1 1 0
      return (e.translation.isSession && decide (0 < r.1.numCores) && decide (0 ≠ r.1.cfg.wanDevice))) = some true := by
    decide +kernel
  simp only [Option.bind_eq_bind, Option.bind_eq_some_iff, Option.pure_def, Option.some.injEq, Bool.and_eq_true, decide_eq_true_eq] at ran
  obtain ⟨⟨setup, s⟩, init, ⟨e, t⟩, first, ⟨found, cores⟩, lan⟩ := ran
  have step := step_of_udpStep first cores lan
  have initial := nfInit_kept init (by decide) (by decide) (by decide)
  obtain ⟨exact, find, findUser, addrOf, L, known, lists, _⟩ := initial
  have served : ¬ NoUserIndex setup s e.key := by
    rcases step_tidy exact ⟨find, findUser, addrOf, L, known, lists⟩ step with ⟨index, _⟩ | ⟨_, dropped, _⟩
    · exact index
    · rw [dropped] at found
      contradiction
  have run : Trace (fun s e s' => Step setup s e s' ∧ ¬ NoUserIndex setup s e.key) s ([] ++ [e]) t := .extend .start ⟨step, served⟩
  exact ⟨setup, s, e, t, init, step, served, refused_untouched_iff (by decide) (by decide) (by decide) init run⟩

/-- The packet of the second user is dropped, but its session stays in the map without a list. -/
theorem refused_packet_leaves_session : ∃ setup s history t e t', oneUserInit = some (setup, s) ∧ Trace (Step setup) s history t ∧
    Step setup t e t' ∧ e.translation = .dropped ∧ ¬ Untouched setup t t' ∧ ¬ OnLists setup t' := by
  have ran : (do
      let r ← oneUserInit
      let (_, t) ← udpStep r 0 1 1 0
      let (e', t') ← udpStep (r.1, t) 0 2 1 0
      return (decide (e'.translation = .dropped) && decide (0 < r.1.numCores) && decide (0 ≠ r.1.cfg.wanDevice) &&
        decide (found r.1.sessionMap t.sessions.sessionMap ⟨2, 1, 17⟩ = none) &&
        decide (found r.1.sessionMap t'.sessions.sessionMap ⟨2, 1, 17⟩ = some 5) &&
        decide (found r.1.userMap t'.userMap 2 = none))) = some true := by
    decide +kernel
  simp only [Option.bind_eq_bind, Option.bind_eq_some_iff, Option.pure_def, Option.some.injEq, Bool.and_eq_true, decide_eq_true_eq] at ran
  obtain ⟨⟨setup, s⟩, init, ⟨e, t⟩, first, ⟨e', t'⟩, second, ⟨⟨⟨⟨dropped, cores⟩, lan⟩, before⟩, after⟩, nobody⟩ := ran
  refine ⟨setup, s, [] ++ [e], t, e', t', init, .extend .start (step_of_udpStep first cores lan),
    step_of_udpStep second cores lan, dropped, fun untouched => ?_, fun lists => ?_⟩
  · have same := untouched.sessionMap ⟨2, 1, 17⟩
    rw [before, after] at same
    contradiction
  · obtain ⟨u, _, user, _⟩ := lists ⟨2, 1, 17⟩ 5 after
    rw [nobody] at user
    contradiction

end Example
end Nfos.EiNat
