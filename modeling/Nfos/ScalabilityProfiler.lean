import Mathlib.Algebra.Order.BigOperators.Group.List
import Mathlib.Algebra.Order.Ring.Nat
import Mathlib.Data.List.Count
import Mathlib.Data.List.Dedup
import Mathlib.Data.Nat.ModEq
import Mathlib.Data.List.Sort

/-! The scalability profiler: the samples of the aborts of all cores, counted by their
causes. -/
namespace Nfos.ScalabilityProfiler

def ccmSize : Nat := 10

def abortInfoDbSize : Nat := 2 ^ 20

/-- What the table needs of a sample. -/
structure AbortInfo where
  dsInst : Nat
  dsId : Nat
  dsOpId : Nat
  conflictDsOpId : Nat

/-- The samples of a core are in a buffer of this size. -/
structure AbortInfoDb where
  abortInfos : List AbortInfo
  room : abortInfos.length ≤ abortInfoDbSize

/-- The buffers of the cores, whose number is an `int`. -/
structure AbortInfoDbs where
  dbs : List AbortInfoDb
  numCores : dbs.length < 2 ^ 31

structure ConflictCause where
  dsInst : Nat
  dsId : Nat
  dsOpId : Nat
  conflictDsOpId : Nat
  id : Int
  deriving DecidableEq

structure ConflictCauseEntry where
  key : ConflictCause
  numSamples : Nat
  deriving DecidableEq

/-- The entries in use. -/
structure ConflictCauseMap where
  conflictCauses : List ConflictCauseEntry
  room : conflictCauses.length ≤ ccmSize

def conflictCauseEqual (a b : ConflictCause) : Bool :=
  a.dsInst == b.dsInst && a.dsId == b.dsId && a.dsOpId == b.dsOpId && a.conflictDsOpId == b.conflictDsOpId && a.id == b.id

/-- `uint64_t` addition -/
def add64 (a b : Nat) : Nat := (a + b) % 2 ^ 64

/-- The entry of the cause is found, or a new one comes after all others. -/
def addSample (key : ConflictCause) : List ConflictCauseEntry → List ConflictCauseEntry
  | [] => [⟨key, 1⟩]
  | entry :: rest =>
    if conflictCauseEqual key entry.key then { entry with numSamples := add64 entry.numSamples 1 } :: rest
    else entry :: addSample key rest

/-- `none` is a failed assertion. -/
def conflictCauseMapAddSample (ccm : ConflictCauseMap) (key : ConflictCause) : Option ConflictCauseMap :=
  if room : (addSample key ccm.conflictCauses).length ≤ ccmSize then some ⟨addSample key ccm.conflictCauses, room⟩ else none

/-- The result -1 asks for a slow path, which does not exist. -/
def getConflictCauseIdFastPath (dsId op conflictOp : Nat) : Int :=
  if dsId = 0 then
    if (op = 0 ∧ conflictOp = 1) ∨ (op = 1 ∧ conflictOp = 0) then -1 else 0
  else if dsId = 2 then
    if op = 2 ∧ conflictOp = 2 then 0 else -1
  else 0

def ccCompar (a b : ConflictCauseEntry) : Int :=
  if a.numSamples > b.numSamples then -1 else if a.numSamples = b.numSamples then 0 else 1

/-- `qsort` -/
def conflictCauseMapSort (ccm : ConflictCauseMap) : ConflictCauseMap where
  conflictCauses := ccm.conflictCauses.mergeSort fun a b => ccCompar a b ≤ 0
  room := by
    rw [List.length_mergeSort]
    exact ccm.room

/-- The cause that the samples for the vectors are added to. -/
def isMergeBase (key : ConflictCause) : Bool := key.dsId == 0 && key.dsOpId == 1 && key.conflictDsOpId == 1

/-- A round of the second loop. The base is not initialised if no entry was found. -/
def mergeEntry (base : Option Nat) (causes : List ConflictCauseEntry) (i : Nat) : Option (List ConflictCauseEntry) := do
  let entry ← causes[i]?
  if entry.key.dsId = 3 then
    let base ← base
    return causes.modify base fun e => { e with numSamples := add64 e.numSamples entry.numSamples }
  else return causes

def conflictCauseMapMergeDchainExpLegacy (ccm : ConflictCauseMap) : Option ConflictCauseMap := do
  let base := ccm.conflictCauses.findIdx? fun entry => isMergeBase entry.key
  let causes ← (List.range ccm.conflictCauses.length).foldlM (mergeEntry base) ccm.conflictCauses
  let copy := causes.filter fun entry => entry.key.dsId ≠ 3
  if room : copy.length ≤ ccmSize then some ⟨copy, room⟩ else none

def conflictCause (info : AbortInfo) : ConflictCause :=
  ⟨info.dsInst, info.dsId, info.dsOpId, info.conflictDsOpId, getConflictCauseIdFastPath info.dsId info.dsOpId info.conflictDsOpId⟩

/-- The two loops over the buffers. -/
def collect (infos : AbortInfoDbs) : Option ConflictCauseMap :=
  infos.dbs.foldlM (fun ccm db => db.abortInfos.foldlM (fun ccm info => conflictCauseMapAddSample ccm (conflictCause info)) ccm)
    ⟨[], Nat.zero_le _⟩

/-- The table that is shown. `legacy` is for `DCHAIN_EXP_LEGACY`. -/
def profilerShowProfile (legacy : Bool) (infos : AbortInfoDbs) : Option ConflictCauseMap := do
  let ccm ← collect infos
  let ccm ← if legacy then conflictCauseMapMergeDchainExpLegacy ccm else some ccm
  return conflictCauseMapSort ccm

section Collect
variable {key : ConflictCause} {entries : List ConflictCauseEntry} {samples : List ConflictCause}

theorem conflictCauseEqual_iff (a b : ConflictCause) : conflictCauseEqual a b = true ↔ a = b := by
  obtain ⟨_, _, _, _, _⟩ := a
  obtain ⟨_, _, _, _, _⟩ := b
  simp [conflictCauseEqual, and_assoc]

/-- The causes of all samples, core by core. -/
def AbortInfoDbs.causes (infos : AbortInfoDbs) : List ConflictCause :=
  infos.dbs.flatMap fun db => db.abortInfos.map conflictCause

/-- Every cause has one entry, which counts its samples. -/
structure Exact (entries : List ConflictCauseEntry) (samples : List ConflictCause) : Prop where
  once : (entries.map ConflictCauseEntry.key).Nodup
  sampled : ∀ cause, cause ∈ entries.map ConflictCauseEntry.key ↔ cause ∈ samples
  counted : ∀ entry ∈ entries, entry.numSamples = samples.count entry.key

theorem keys_addSample (key : ConflictCause) (entries : List ConflictCauseEntry) :
    (addSample key entries).map ConflictCauseEntry.key =
      if key ∈ entries.map ConflictCauseEntry.key then entries.map ConflictCauseEntry.key
      else entries.map ConflictCauseEntry.key ++ [key] := by
  induction entries with
  | nil => rfl
  | cons entry rest ih =>
    rw [addSample]
    by_cases same : key = entry.key
    · rw [if_pos ((conflictCauseEqual_iff _ _).mpr same)]
      simp [same]
    · rw [if_neg (mt (conflictCauseEqual_iff _ _).mp same), List.map_cons, ih]
      simp only [List.map_cons, List.mem_cons, same, false_or]
      split
      · rfl
      · rfl

/-- Where the entries of the new table come from. -/
theorem mem_addSample (once : (entries.map ConflictCauseEntry.key).Nodup) {entry : ConflictCauseEntry}
    (member : entry ∈ addSample key entries) :
    (entry ∈ entries ∧ entry.key ≠ key) ∨
      (∃ old ∈ entries, old.key = key ∧ entry = { old with numSamples := add64 old.numSamples 1 }) ∨
      (key ∉ entries.map ConflictCauseEntry.key ∧ entry = ⟨key, 1⟩) := by
  induction entries with
  | nil => exact Or.inr (Or.inr ⟨List.not_mem_nil, List.mem_singleton.mp member⟩)
  | cons first rest ih =>
    rw [List.map_cons, List.nodup_cons] at once
    rw [addSample] at member
    by_cases same : key = first.key
    · rw [if_pos ((conflictCauseEqual_iff _ _).mpr same)] at member
      rcases List.mem_cons.mp member with rfl | later
      · exact Or.inr (Or.inl ⟨first, List.mem_cons_self .., same.symm, rfl⟩)
      · refine Or.inl ⟨List.mem_cons_of_mem _ later, ?_⟩
        rintro rfl
        exact once.1 (same ▸ List.mem_map_of_mem later)
    · rw [if_neg (mt (conflictCauseEqual_iff _ _).mp same)] at member
      rcases List.mem_cons.mp member with rfl | later
      · exact Or.inl ⟨List.mem_cons_self .., Ne.symm same⟩
      · rcases ih once.2 later with ⟨kept, other⟩ | ⟨old, kept, here, counted⟩ | ⟨absent, new⟩
        · exact Or.inl ⟨List.mem_cons_of_mem _ kept, other⟩
        · exact Or.inr (Or.inl ⟨old, List.mem_cons_of_mem _ kept, here, counted⟩)
        · refine Or.inr (Or.inr ⟨?_, new⟩)
          rw [List.map_cons, List.mem_cons, not_or]
          exact ⟨same, absent⟩

theorem Exact.add (exact : Exact entries samples) (few : samples.length + 1 < 2 ^ 64) (key : ConflictCause) :
    Exact (addSample key entries) (samples ++ [key]) := by
  constructor
  case once =>
    rw [keys_addSample]
    split
    · exact exact.once
    · rename_i absent
      exact List.nodup_append.mpr ⟨exact.once, List.nodup_singleton key, by
        rintro cause member _ single rfl
        exact absent (List.mem_singleton.mp single ▸ member)⟩
  case sampled =>
    intro cause
    rw [keys_addSample, List.mem_append, List.mem_singleton, ← exact.sampled]
    split
    · rename_i present
      constructor
      · exact Or.inl
      · rintro (old | rfl)
        · exact old
        · exact present
    · rw [List.mem_append, List.mem_singleton]
  case counted =>
    intro entry member
    rw [List.count_append]
    rcases mem_addSample exact.once member with ⟨old, other⟩ | ⟨old, present, rfl, rfl⟩ | ⟨absent, rfl⟩
    · rw [List.count_singleton, exact.counted entry old]
      simp [Ne.symm other]
    · have bound := List.count_le_length (a := old.key) (l := samples)
      simp only [add64, exact.counted old present, List.count_singleton_self]
      exact Nat.mod_eq_of_lt (by omega)
    · have none : List.count key samples = 0 := List.count_eq_zero.mpr fun old => absent ((exact.sampled key).mpr old)
      simp [none]

/-- There are as many entries as distinct causes. -/
theorem Exact.length_le (exact : Exact entries samples) {all : List ConflictCause} (among : ∀ cause ∈ samples, cause ∈ all) :
    entries.length ≤ all.dedup.length := by
  have bound := (List.subperm_of_subset exact.once fun cause member =>
    List.mem_dedup.mpr (among cause ((exact.sampled cause).mp member))).length_le
  rwa [List.length_map] at bound

theorem AbortInfoDbs.length_causes_lt (infos : AbortInfoDbs) : infos.causes.length < 2 ^ 64 := by
  have each : ∀ db ∈ infos.dbs, (db.abortInfos.map conflictCause).length ≤ 2 ^ 20 := by
    intro db _
    rw [List.length_map]
    exact db.room
  have whole : infos.causes.length ≤ infos.dbs.length * 2 ^ 20 := by
    have sum := List.sum_le_card_nsmul (infos.dbs.map fun db => (db.abortInfos.map conflictCause).length) (2 ^ 20) (by
      intro k member
      obtain ⟨db, inside, rfl⟩ := List.mem_map.mp member
      exact each db inside)
    rwa [List.length_map, Nat.nsmul_eq_mul, ← List.length_flatMap] at sum
  have cores := infos.numCores
  omega

/-- The samples one after another. -/
theorem collect_eq (infos : AbortInfoDbs) :
    collect infos = infos.causes.foldlM conflictCauseMapAddSample ⟨[], Nat.zero_le _⟩ := by
  unfold collect AbortInfoDbs.causes
  generalize (⟨[], Nat.zero_le _⟩ : ConflictCauseMap) = ccm
  induction infos.dbs generalizing ccm with
  | nil => rfl
  | cons db rest ih =>
    rw [List.foldlM_cons, List.flatMap_cons, List.foldlM_append, List.foldlM_map]
    simp only [ih]

/-- The induction is on the samples that are left. -/
theorem foldlM_exact {past rest : List ConflictCause} {ccm : ConflictCauseMap} (exact : Exact ccm.conflictCauses past)
    (few : (past ++ rest).length < 2 ^ 64) (distinct : (past ++ rest).dedup.length ≤ ccmSize) :
    ∃ ccm', rest.foldlM conflictCauseMapAddSample ccm = some ccm' ∧ Exact ccm'.conflictCauses (past ++ rest) := by
  induction rest generalizing past ccm with
  | nil =>
    rw [List.append_nil]
    exact ⟨ccm, rfl, exact⟩
  | cons key rest ih =>
    have regroup : past ++ key :: rest = past ++ [key] ++ rest := by simp
    rw [regroup] at few distinct ⊢
    have next := exact.add (by simp at few; omega) key
    have room : (addSample key ccm.conflictCauses).length ≤ ccmSize := by
      refine (next.length_le fun cause member => ?_).trans distinct
      exact List.mem_append_left _ member
    obtain ⟨ccm', ran, whole⟩ := @ih _ ⟨_, room⟩ next few distinct
    refine ⟨ccm', ?_, whole⟩
    rw [List.foldlM_cons, conflictCauseMapAddSample, dif_pos room]
    exact ran

theorem collect_exact (infos : AbortInfoDbs) (distinct : infos.causes.dedup.length ≤ ccmSize) :
    ∃ ccm, collect infos = some ccm ∧ Exact ccm.conflictCauses infos.causes := by
  rw [collect_eq]
  have nothing : Exact (ConflictCauseMap.mk [] (Nat.zero_le _)).conflictCauses [] := ⟨List.nodup_nil, by simp, by simp⟩
  exact foldlM_exact nothing infos.length_causes_lt distinct

end Collect

section Merge
variable {entries before : List ConflictCauseEntry} {base : Nat} {ccm : ConflictCauseMap}

/-- As `conflict_cause_map_show` computes it. -/
def totalNumSamples (entries : List ConflictCauseEntry) : Nat := (entries.map ConflictCauseEntry.numSamples).sum % 2 ^ 64

/-- No sample is lost, and only the causes with this number of a data structure go. -/
structure Merged (before after : List ConflictCauseEntry) : Prop where
  total : totalNumSamples after = totalNumSamples before
  kept : after.map ConflictCauseEntry.key = (before.map ConflictCauseEntry.key).filter fun key => key.dsId ≠ 3

/-- There is nothing to merge, or an entry to merge it into. -/
def CanMerge (entries : List ConflictCauseEntry) : Prop :=
  (∀ entry ∈ entries, entry.key.dsId ≠ 3) ∨ ∃ entry ∈ entries, isMergeBase entry.key = true

def legacySample (entry : ConflictCauseEntry) : Nat := if entry.key.dsId = 3 then entry.numSamples else 0

/-- What is to be added to the base. -/
def legacySamples (entries : List ConflictCauseEntry) : Nat := (entries.map legacySample).sum

theorem isMergeBase_dsId {key : ConflictCause} (isBase : isMergeBase key = true) : key.dsId ≠ 3 := by
  simp only [isMergeBase, Bool.and_eq_true, beq_iff_eq] at isBase
  omega

theorem sum_filter_add (entries : List ConflictCauseEntry) :
    ((entries.filter fun entry => entry.key.dsId ≠ 3).map ConflictCauseEntry.numSamples).sum + legacySamples entries =
      (entries.map ConflictCauseEntry.numSamples).sum := by
  unfold legacySamples
  induction entries with
  | nil => rfl
  | cons entry rest ih =>
    by_cases legacy : entry.key.dsId = 3
    · rw [List.filter_cons_of_neg (by simpa using legacy), List.map_cons, List.map_cons, List.sum_cons, List.sum_cons,
        legacySample, if_pos legacy]
      omega
    · rw [List.filter_cons_of_pos (by simpa using legacy), List.map_cons, List.map_cons, List.map_cons, List.sum_cons,
        List.sum_cons, List.sum_cons, legacySample, if_neg legacy]
      omega

/-- One addition to the base. -/
theorem sum_modify {v : Nat} (within : base < entries.length) :
    ((entries.modify base fun e => { e with numSamples := add64 e.numSamples v }).map ConflictCauseEntry.numSamples).sum ≡
      (entries.map ConflictCauseEntry.numSamples).sum + v [MOD 2 ^ 64] := by
  induction entries generalizing base with
  | nil => contradiction
  | cons entry rest ih =>
    cases base with
    | zero =>
      simp only [List.modify_zero_cons, List.map_cons, List.sum_cons, add64]
      calc (entry.numSamples + v) % 2 ^ 64 + (rest.map ConflictCauseEntry.numSamples).sum
        _ ≡ entry.numSamples + v + (rest.map ConflictCauseEntry.numSamples).sum [MOD 2 ^ 64] := (Nat.mod_modEq _ _).add_right _
        _ = entry.numSamples + (rest.map ConflictCauseEntry.numSamples).sum + v := by omega
    | succ base =>
      simp only [List.modify_succ_cons, List.map_cons, List.sum_cons, Nat.add_assoc]
      exact (ih (by simpa using within)).add_left _

/-- What the second loop keeps, after some rounds. -/
structure Adding (base : Nat) (before : List ConflictCauseEntry) (rounds : Nat) (entries : List ConflictCauseEntry) : Prop where
  keys : entries.map ConflictCauseEntry.key = before.map ConflictCauseEntry.key
  others : ∀ i, i ≠ base → entries[i]? = before[i]?
  sum : (entries.map ConflictCauseEntry.numSamples).sum ≡
    (before.map ConflictCauseEntry.numSamples).sum + legacySamples (before.take rounds) [MOD 2 ^ 64]

theorem map_key_modify (entries : List ConflictCauseEntry) (f : Nat → Nat) (base : Nat) :
    (entries.modify base fun e => { e with numSamples := f e.numSamples }).map ConflictCauseEntry.key =
      entries.map ConflictCauseEntry.key := by
  apply List.ext_getElem?
  intro i
  simp only [List.getElem?_map, List.getElem?_modify]
  cases entries[i]? with
  | none => rfl
  | some entry =>
    by_cases here : base = i <;> simp [here]

/-- The base is no sample of a vector. -/
theorem Adding.legacySamples_eq {rounds : Nat} (adding : Adding base before rounds entries) {target : ConflictCauseEntry}
    (atBase : before[base]? = some target) (isBase : isMergeBase target.key = true) : legacySamples entries = legacySamples before := by
  refine congrArg List.sum (List.ext_getElem? ?_)
  intro i
  rw [List.getElem?_map, List.getElem?_map]
  by_cases other : i = base
  · subst other
    have keys := congrArg (fun keys : List ConflictCause => keys[i]?) adding.keys
    simp only [List.getElem?_map, atBase, Option.map_some, Option.map_eq_some_iff] at keys
    obtain ⟨current, here, same⟩ := keys
    have first : legacySample current = 0 := if_neg (same ▸ isMergeBase_dsId isBase)
    have second : legacySample target = 0 := if_neg (isMergeBase_dsId isBase)
    rw [here, atBase, Option.map_some, Option.map_some, first, second]
  · rw [adding.others i other]

theorem mergeLoop (found : before[base]?.map (fun entry => isMergeBase entry.key) = some true) {rounds : Nat}
    (within : rounds ≤ before.length) :
    ∃ entries, (List.range rounds).foldlM (mergeEntry (some base)) before = some entries ∧ Adding base before rounds entries := by
  induction rounds with
  | zero => exact ⟨before, rfl, rfl, fun _ _ => rfl, by simp [legacySamples, Nat.ModEq]⟩
  | succ rounds ih =>
    obtain ⟨entries, ran, adding⟩ := ih (by omega)
    have size : entries.length = before.length := by simpa using congrArg List.length adding.keys
    obtain ⟨entry, here⟩ : ∃ entry, before[rounds]? = some entry := ⟨_, List.getElem?_eq_getElem (by omega)⟩
    have taken : before.take (rounds + 1) = before.take rounds ++ [entry] := by
      rw [List.take_add_one, here]
      rfl
    rw [List.range_succ, List.foldlM_append, ran]
    simp only [Option.bind_eq_bind, Option.bind_some, List.foldlM_cons, List.foldlM_nil, Option.pure_def, Option.bind_fun_some]
    obtain ⟨target, atBase, isBase⟩ := Option.map_eq_some_iff.mp found
    have inside : base < before.length := (List.getElem?_eq_some_iff.mp atBase).1
    by_cases legacy : entry.key.dsId = 3
    · have apart : rounds ≠ base := by
        rintro rfl
        obtain rfl := Option.some.inj (here.symm.trans atBase)
        exact isMergeBase_dsId isBase legacy
      refine ⟨entries.modify base fun e => { e with numSamples := add64 e.numSamples entry.numSamples },
        by simp [mergeEntry, adding.others rounds apart, here, legacy], ?_⟩
      constructor
      case keys => rw [map_key_modify entries (fun n => add64 n entry.numSamples), adding.keys]
      case others =>
        intro i other
        rw [List.getElem?_modify, adding.others i other]
        simp only [if_neg (Ne.symm other), Option.map_eq_map, Option.map_id_fun', id_eq]
      case sum =>
        have more : legacySamples (before.take (rounds + 1)) = legacySamples (before.take rounds) + entry.numSamples := by
          simp [legacySamples, legacySample, taken, legacy]
        rw [more, ← Nat.add_assoc]
        exact (sum_modify (by omega)).trans (adding.sum.add_right _)
    · obtain ⟨current, now⟩ : ∃ current, entries[rounds]? = some current := ⟨_, List.getElem?_eq_getElem (by omega)⟩
      have sameKey : current.key = entry.key := by
        have keys := congrArg (fun keys : List ConflictCause => keys[rounds]?) adding.keys
        simpa [now, here] using keys
      refine ⟨entries, by simp [mergeEntry, now, sameKey, legacy], adding.keys, adding.others, ?_⟩
      have same : legacySamples (before.take (rounds + 1)) = legacySamples (before.take rounds) := by
        simp [legacySamples, legacySample, taken, legacy]
      rw [same]
      exact adding.sum

/-- The loop reads the base when the first cause of a vector comes. -/
theorem mergeLoop_uninitialised {rounds : Nat} (within : rounds ≤ before.length) :
    (List.range rounds).foldlM (mergeEntry none) before =
      if ∀ entry ∈ before.take rounds, entry.key.dsId ≠ 3 then some before else none := by
  induction rounds with
  | zero => simp
  | succ rounds ih =>
    obtain ⟨entry, here⟩ : ∃ entry, before[rounds]? = some entry := ⟨_, List.getElem?_eq_getElem (by omega)⟩
    have taken : before.take (rounds + 1) = before.take rounds ++ [entry] := by
      rw [List.take_add_one, here]
      rfl
    rw [List.range_succ, List.foldlM_append, ih (by omega), taken]
    simp only [List.mem_append, List.mem_singleton, or_imp, forall_and, forall_eq]
    by_cases clean : ∀ entry ∈ before.take rounds, entry.key.dsId ≠ 3
    · by_cases legacy : entry.key.dsId = 3
      · rw [if_pos clean, if_neg fun both => both.2 legacy]
        simp [mergeEntry, here, legacy]
      · rw [if_pos clean, if_pos ⟨clean, legacy⟩]
        simp [mergeEntry, here, legacy]
    · rw [if_neg clean, if_neg fun both => clean both.1]
      rfl

theorem mergeBase_found {entry : ConflictCauseEntry} (member : entry ∈ before) (isBase : isMergeBase entry.key = true) :
    ∃ base, before.findIdx? (fun entry => isMergeBase entry.key) = some base ∧
      before[base]?.map (fun entry => isMergeBase entry.key) = some true := by
  have found : (before.findIdx? fun entry => isMergeBase entry.key).isSome = true := by
    rw [List.findIdx?_isSome, List.any_eq_true]
    exact ⟨entry, member, isBase⟩
  obtain ⟨base, here⟩ := Option.isSome_iff_exists.mp found
  obtain ⟨inside, holds, _⟩ := List.findIdx?_eq_some_iff_getElem.mp here
  exact ⟨base, here, by simp [inside, holds]⟩

theorem filter_of_clean (clean : ∀ entry ∈ before, entry.key.dsId ≠ 3) :
    before.filter (fun entry => entry.key.dsId ≠ 3) = before := by
  apply List.filter_eq_self.mpr
  intro entry member
  exact decide_eq_true (clean entry member)

/-- The merge is right just when it has nothing to do or finds its base. -/
theorem merge_iff (ccm : ConflictCauseMap) :
    (∃ merged, conflictCauseMapMergeDchainExpLegacy ccm = some merged ∧ Merged ccm.conflictCauses merged.conflictCauses) ↔
      CanMerge ccm.conflictCauses := by
  obtain ⟨before, room⟩ := ccm
  have fits {entries : List ConflictCauseEntry} (keys : entries.map ConflictCauseEntry.key = before.map ConflictCauseEntry.key) :
      (entries.filter fun entry => entry.key.dsId ≠ 3).length ≤ ccmSize := by
    have size : entries.length = before.length := by simpa using congrArg List.length keys
    exact (List.length_filter_le _ _).trans (size.trans_le room)
  by_cases present : ∃ entry ∈ before, isMergeBase entry.key = true
  · refine iff_of_true ?_ (Or.inr present)
    obtain ⟨entry, member, isBase⟩ := present
    obtain ⟨base, found, holds⟩ := mergeBase_found member isBase
    obtain ⟨entries, ran, adding⟩ := mergeLoop holds le_rfl
    refine ⟨⟨entries.filter fun entry => entry.key.dsId ≠ 3, fits adding.keys⟩, ?_, ?_, ?_⟩
    · simp only [conflictCauseMapMergeDchainExpLegacy, found, ran, Option.bind_eq_bind, Option.bind_some, dif_pos (fits adding.keys)]
    · obtain ⟨target, atBase, mergeBase⟩ := Option.map_eq_some_iff.mp holds
      have sum := adding.sum
      rw [← sum_filter_add entries, adding.legacySamples_eq atBase mergeBase, List.take_length] at sum
      exact Nat.ModEq.add_right_cancel' _ sum
    · change (entries.filter _).map _ = (before.map _).filter _
      rw [← adding.keys, List.filter_map]
      rfl
  · have none : before.findIdx? (fun entry => isMergeBase entry.key) = none := by
      rw [List.findIdx?_eq_none_iff]
      intro entry member
      rw [Bool.eq_false_iff]
      exact fun isBase => present ⟨entry, member, isBase⟩
    have ran := mergeLoop_uninitialised (le_refl before.length)
    rw [List.take_length] at ran
    by_cases clean : ∀ entry ∈ before, entry.key.dsId ≠ 3
    · rw [if_pos clean] at ran
      refine iff_of_true ⟨⟨before, room⟩, ?_, rfl, ?_⟩ (Or.inl clean)
      · simp only [conflictCauseMapMergeDchainExpLegacy, none, ran, Option.bind_eq_bind, Option.bind_some,
          filter_of_clean clean, dif_pos room]
      · rw [List.filter_map]
        exact congrArg _ (filter_of_clean clean).symm
    · rw [if_neg clean] at ran
      refine iff_of_false ?_ ?_
      · rintro ⟨merged, returned, _⟩
        simp [conflictCauseMapMergeDchainExpLegacy, none, ran] at returned
      · rintro (empty | found)
        · exact clean empty
        · exact present found

end Merge

section Show
variable {legacy : Bool} {infos : AbortInfoDbs}

/-- The causes with the most samples come first. -/
theorem conflictCauseMapSort_sorted (ccm : ConflictCauseMap) :
    (conflictCauseMapSort ccm).conflictCauses.Pairwise fun a b => b.numSamples ≤ a.numSamples := by
  have order : ∀ a b : ConflictCauseEntry, decide (ccCompar a b ≤ 0) = true ↔ b.numSamples ≤ a.numSamples := by
    intro a b
    unfold ccCompar
    split <;> (try split) <;> simp <;> omega
  have sorted : (conflictCauseMapSort ccm).conflictCauses.Pairwise fun a b => decide (ccCompar a b ≤ 0) = true := by
    apply List.pairwise_mergeSort
    · intro a b c first second
      rw [order] at first second ⊢
      omega
    · intro a b
      rw [Bool.or_eq_true, order, order]
      omega
  exact sorted.imp fun {a b} below => (order a b).mp below

theorem conflictCauseMapSort_perm (ccm : ConflictCauseMap) : (conflictCauseMapSort ccm).conflictCauses.Perm ccm.conflictCauses :=
  List.mergeSort_perm ..

/-- Whether the samples can be merged. -/
def AbortInfoDbs.CanMerge (infos : AbortInfoDbs) : Prop :=
  (∀ cause ∈ infos.causes, cause.dsId ≠ 3) ∨ ∃ cause ∈ infos.causes, isMergeBase cause = true

theorem Exact.canMerge_iff {entries : List ConflictCauseEntry} (exact : Exact entries infos.causes) :
    CanMerge entries ↔ infos.CanMerge := by
  unfold CanMerge AbortInfoDbs.CanMerge
  simp only [← exact.sampled, List.mem_map, forall_exists_index, and_imp, forall_apply_eq_imp_iff₂, exists_exists_and_eq_and]

/-- The table accounts for all samples, and what is shown of it is in order. -/
def Accounts (legacy : Bool) (infos : AbortInfoDbs) : Prop :=
  ∃ ccm merged shown, collect infos = some ccm ∧ Exact ccm.conflictCauses infos.causes ∧
    (if legacy then conflictCauseMapMergeDchainExpLegacy ccm = some merged ∧ Merged ccm.conflictCauses merged.conflictCauses
      else merged = ccm) ∧
    profilerShowProfile legacy infos = some shown ∧ shown.conflictCauses.Perm merged.conflictCauses ∧
    shown.conflictCauses.Pairwise fun a b => b.numSamples ≤ a.numSamples

/-- The profile is right unless there are samples of vectors to merge but none of the cause
that they are merged into. -/
theorem profile_accounts_iff (legacy : Bool) (infos : AbortInfoDbs) (distinct : infos.causes.dedup.length ≤ ccmSize) :
    (Accounts legacy infos ↔ (legacy = true → infos.CanMerge)) ∧
      ∀ ccm, (∃ merged, conflictCauseMapMergeDchainExpLegacy ccm = some merged ∧ Merged ccm.conflictCauses merged.conflictCauses) ↔
        CanMerge ccm.conflictCauses := by
  refine ⟨?_, merge_iff⟩
  obtain ⟨ccm, collected, exact⟩ := collect_exact infos distinct
  cases legacy with
  | false =>
    refine iff_of_true ⟨ccm, ccm, conflictCauseMapSort ccm, collected, exact, rfl, ?_, ?_, ?_⟩ nofun
    · simp [profilerShowProfile, collected]
    · exact conflictCauseMapSort_perm ccm
    · exact conflictCauseMapSort_sorted ccm
  | true =>
    rw [← exact.canMerge_iff, ← merge_iff]
    constructor
    · rintro ⟨_, merged, _, again, _, outcome, _⟩ _
      obtain rfl := Option.some.inj (collected.symm.trans again)
      exact ⟨merged, outcome⟩
    · intro canMerge
      obtain ⟨merged, ran, outcome⟩ := canMerge rfl
      refine ⟨ccm, merged, conflictCauseMapSort merged, collected, exact, ⟨ran, outcome⟩, ?_, ?_, ?_⟩
      · simp [profilerShowProfile, collected, ran]
      · exact conflictCauseMapSort_perm merged
      · exact conflictCauseMapSort_sorted merged

/-- One abort in a write to a vector on the first of two cores. -/
def vectorAbort : AbortInfoDbs := ⟨[⟨[⟨64, 3, 0, 0⟩], by decide⟩, ⟨[], by decide⟩], by decide⟩

theorem vector_abort_unaccounted : vectorAbort.causes.dedup.length ≤ ccmSize ∧ ¬ Accounts true vectorAbort := by
  have shown : profilerShowProfile true vectorAbort = none := by decide
  refine ⟨by decide, ?_⟩
  rintro ⟨_, _, _, _, _, _, ran, _⟩
  rw [shown] at ran
  contradiction

/-- Aborts in a write to a vector and between two refreshes of the same allocator. -/
theorem profile_accounts_refreshes :
    let infos : AbortInfoDbs := ⟨[⟨[⟨64, 3, 0, 0⟩, ⟨32, 0, 1, 1⟩], by decide⟩, ⟨[⟨64, 3, 0, 0⟩], by decide⟩], by decide⟩
    infos.causes.dedup.length ≤ ccmSize ∧ infos.CanMerge ∧ (Accounts true infos ↔ (true = true → infos.CanMerge)) ∧
      ∀ ccm, (∃ merged, conflictCauseMapMergeDchainExpLegacy ccm = some merged ∧ Merged ccm.conflictCauses merged.conflictCauses) ↔
        CanMerge ccm.conflictCauses :=
  ⟨by decide, Or.inr (by decide), profile_accounts_iff true _ (by decide)⟩

end Show
end Nfos.ScalabilityProfiler
