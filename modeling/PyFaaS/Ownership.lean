import Mathlib.Data.Fintype.EquivFin
import Mathlib.Data.List.Nodup
import PyFaaS.Database

/-!
# Whose rows

The part of the database that belongs to a user: the functions with their
versions, activations and schedules, the keys, and the executions of these
functions or triggered by the user, with their logs. In a well-formed database
no row belongs to two users, and what a row refers to belongs to the same
function, so a statement on rows of one user keeps to that user's part.
-/

namespace PyFaaS.Database

def ownsExecution (db : Database) (user : Uuid) (e : Execution) : Bool :=
  e.functionId.any (db.ownsFunction user) || decide (e.triggeredBy = some user)

def ownsLog (db : Database) (user : Uuid) (log : ExecutionLog) : Bool :=
  db.executions.any fun e => decide (e.id = log.executionId) && db.ownsExecution user e

def ownsExecutionId (db : Database) (user id : Uuid) : Bool :=
  db.executions.any fun e => decide (e.id = id) && db.ownsExecution user e

def view (user : Uuid) (db : Database) : Database where
  functions := db.functions.filter fun f => decide (f.ownerId = user)
  versions := db.versions.filter fun v => db.ownsFunction user v.functionId
  activations := db.activations.filter fun a => db.ownsFunction user a.functionId
  schedules := db.schedules.filter fun s => db.ownsFunction user s.functionId
  apiKeys := db.apiKeys.filter fun k => decide (k.ownerId = user)
  executions := db.executions.filter (db.ownsExecution user)
  logs := db.logs.filter (db.ownsLog user)
  executionsUpdatedAt := db.executionsUpdatedAt.filter fun stamp => db.ownsExecutionId user stamp.1

def VersionOf (db : Database) (functionId : Uuid) (ref : Option Uuid) : Prop :=
  ∀ v ∈ db.versions, ref = some v.id → v.functionId = functionId

/-- What an execution refers to belongs to its function, and who triggered it is
the owner of its function and of its key. -/
structure ExecutionRefs (db : Database) (e : Execution) : Prop where
  owner : ∀ f ∈ db.functions, e.functionId = some f.id →
    e.triggeredBy = none ∨ e.triggeredBy = some f.ownerId
  version : ∀ v ∈ db.versions, e.functionVersionId = some v.id → e.functionId = some v.functionId
  schedule : ∀ s ∈ db.schedules, e.scheduleId = some s.id → e.functionId = some s.functionId
  key : ∀ k ∈ db.apiKeys, e.apiKeyId = some k.id → e.triggeredBy = some k.ownerId

structure WellFormed (db : Database) : Prop where
  functionIds : (db.functions.map Function.id).Nodup
  versionIds : (db.versions.map FunctionVersion.id).Nodup
  scheduleIds : (db.schedules.map Schedule.id).Nodup
  keyIds : (db.apiKeys.map ApiKey.id).Nodup
  keyHashes : (db.apiKeys.map ApiKey.keyHash).Nodup
  executionIds : (db.executions.map Execution.id).Nodup
  functionVersions : ∀ f ∈ db.functions,
    db.VersionOf f.id f.activeVersionId ∧ db.VersionOf f.id f.canaryVersionId
  activationVersions : ∀ a ∈ db.activations, db.VersionOf a.functionId a.previousVersionId ∧
    db.VersionOf a.functionId a.activatedVersionId ∧ db.VersionOf a.functionId a.canaryVersionId
  scheduleOwner : ∀ s ∈ db.schedules, db.ownsFunction s.ownerId s.functionId = true
  executionRefs : ∀ e ∈ db.executions, db.ExecutionRefs e
  updatedAt : db.executionsUpdatedAt.map Prod.fst = db.executions.map Execution.id

/-- The identifier occurs nowhere in the database. -/
structure Fresh (db : Database) (id : Uuid) : Prop where
  functions : ∀ f ∈ db.functions, f.id ≠ id ∧ f.activeVersionId ≠ some id ∧ f.canaryVersionId ≠ some id
  versions : ∀ v ∈ db.versions, v.id ≠ id ∧ v.functionId ≠ id
  activations : ∀ a ∈ db.activations, a.functionId ≠ id ∧ a.previousVersionId ≠ some id ∧
    a.activatedVersionId ≠ some id ∧ a.canaryVersionId ≠ some id
  schedules : ∀ s ∈ db.schedules, s.id ≠ id ∧ s.functionId ≠ id
  apiKeys : ∀ k ∈ db.apiKeys, k.id ≠ id
  executions : ∀ e ∈ db.executions, e.id ≠ id ∧ e.functionId ≠ some id ∧ e.functionVersionId ≠ some id ∧
    e.scheduleId ≠ some id ∧ e.apiKeyId ≠ some id
  logs : ∀ log ∈ db.logs, log.executionId ≠ id

def unused (db : Database) (id : Uuid) : Bool :=
  (db.functions.all fun f => f.id != id && f.activeVersionId != some id && f.canaryVersionId != some id) &&
    (db.versions.all fun v => v.id != id && v.functionId != id) &&
    (db.activations.all fun a => a.functionId != id && a.previousVersionId != some id &&
      a.activatedVersionId != some id && a.canaryVersionId != some id) &&
    (db.schedules.all fun s => s.id != id && s.functionId != id) && (db.apiKeys.all fun k => k.id != id) &&
    (db.executions.all fun e => e.id != id && e.functionId != some id && e.functionVersionId != some id &&
      e.scheduleId != some id && e.apiKeyId != some id) &&
    db.logs.all fun log => log.executionId != id

theorem unused_iff {db : Database} {id : Uuid} : db.unused id = true ↔ Fresh db id := by
  simp only [unused, Bool.and_eq_true, List.all_eq_true, bne_iff_ne, and_assoc]
  constructor
  · rintro ⟨hf, hv, ha, hs, hk, he, hlog⟩
    exact ⟨hf, hv, ha, hs, hk, he, hlog⟩
  · rintro ⟨hf, hv, ha, hs, hk, he, hlog⟩
    exact ⟨hf, hv, ha, hs, hk, he, hlog⟩

instance (db : Database) (id : Uuid) : Decidable (Fresh db id) := decidable_of_iff _ unused_iff

def usedIds (db : Database) : List Uuid :=
  (db.functions.flatMap fun f => f.id :: (f.activeVersionId.toList ++ f.canaryVersionId.toList)) ++
    (db.versions.flatMap fun v => [v.id, v.functionId]) ++
    (db.activations.flatMap fun a => a.functionId ::
      (a.previousVersionId.toList ++ a.activatedVersionId.toList ++ a.canaryVersionId.toList)) ++
    (db.schedules.flatMap fun s => [s.id, s.functionId]) ++ db.apiKeys.map ApiKey.id ++
    (db.executions.flatMap fun e => e.id :: (e.functionId.toList ++ e.functionVersionId.toList ++
      e.scheduleId.toList ++ e.apiKeyId.toList)) ++
    db.logs.map ExecutionLog.executionId

theorem exists_fresh (db : Database) : ∃ id, Fresh db id := by
  obtain ⟨id, hid⟩ := Infinite.exists_notMem_finset db.usedIds.toFinset
  refine ⟨id, ?_⟩
  simp only [usedIds, List.mem_toFinset, List.mem_append, List.mem_flatMap, List.mem_map, List.mem_cons,
    List.not_mem_nil, Option.mem_toList, or_false, not_or, not_exists, not_and] at hid
  obtain ⟨⟨⟨⟨⟨⟨hf, hv⟩, ha⟩, hs⟩, hk⟩, he⟩, hl⟩ := hid
  constructor
  · intro f h
    obtain ⟨hid, hrest⟩ := hf f h
    exact ⟨Ne.symm hid, hrest⟩
  · exact fun v h => ⟨Ne.symm (hv v h).1, Ne.symm (hv v h).2⟩
  · intro a h
    obtain ⟨hid, ⟨hp, hact⟩, hc⟩ := ha a h
    exact ⟨Ne.symm hid, hp, hact, hc⟩
  · exact fun s h => ⟨Ne.symm (hs s h).1, Ne.symm (hs s h).2⟩
  · exact hk
  · intro e h
    obtain ⟨hid, ⟨⟨hf, hv⟩, hs⟩, hk⟩ := he e h
    exact ⟨Ne.symm hid, hf, hv, hs, hk⟩
  · exact hl

theorem wellFormed_empty : WellFormed empty := by
  constructor <;> simp [empty]

variable {s : Database} {u v : Uuid}

/-! ## Owners -/

theorem ownsFunction_iff {functionId : Uuid} :
    s.ownsFunction u functionId = true ↔ ∃ f ∈ s.functions, f.id = functionId ∧ f.ownerId = u := by
  simp [ownsFunction, List.any_eq_true]

theorem ownsFunction_of_mem {f : Function} (hf : f ∈ s.functions) : s.ownsFunction f.ownerId f.id = true :=
  ownsFunction_iff.mpr ⟨f, hf, rfl, rfl⟩

theorem function_unique (hs : WellFormed s) {f f' : Function} (hf : f ∈ s.functions)
    (hf' : f' ∈ s.functions) (h : f.id = f'.id) : f = f' :=
  List.inj_on_of_nodup_map hs.functionIds hf hf' h

theorem ownsFunction_unique (hs : WellFormed s) {functionId : Uuid}
    (hu : s.ownsFunction u functionId = true) (hv : s.ownsFunction v functionId = true) : u = v := by
  obtain ⟨f, hf, hid, rfl⟩ := ownsFunction_iff.mp hu
  obtain ⟨f', hf', hid', rfl⟩ := ownsFunction_iff.mp hv
  rw [function_unique hs hf hf' (hid.trans hid'.symm)]

theorem ownsExecution_iff {e : Execution} : s.ownsExecution u e = true ↔
    (∃ functionId, e.functionId = some functionId ∧ s.ownsFunction u functionId = true) ∨
      e.triggeredBy = some u := by
  cases h : e.functionId <;> simp [ownsExecution, h]

theorem triggeredBy_owner {e : Execution} (he : s.ExecutionRefs e) {functionId : Uuid}
    (hid : e.functionId = some functionId) (hu : s.ownsFunction u functionId = true)
    (hv : e.triggeredBy = some v) : v = u := by
  obtain ⟨f, hf, rfl, rfl⟩ := ownsFunction_iff.mp hu
  rcases he.owner f hf hid with h | h
  · rw [hv] at h
    cases h
  · rw [hv] at h
    exact Option.some.inj h

theorem ownsExecution_unique (hs : WellFormed s) {e : Execution} (he : s.ExecutionRefs e)
    (hu : s.ownsExecution u e = true) (hv : s.ownsExecution v e = true) : u = v := by
  rcases ownsExecution_iff.mp hu with ⟨i, hi, hui⟩ | htu
  · rcases ownsExecution_iff.mp hv with ⟨j, hj, hvj⟩ | htv
    · obtain rfl : i = j := Option.some.inj (hi.symm.trans hj)
      exact ownsFunction_unique hs hui hvj
    · exact (triggeredBy_owner he hi hui htv).symm
  · rcases ownsExecution_iff.mp hv with ⟨j, hj, hvj⟩ | htv
    · exact triggeredBy_owner he hj hvj htu
    · exact Option.some.inj (htu.symm.trans htv)

theorem ownsExecutionId_iff {id : Uuid} : s.ownsExecutionId u id = true ↔
    ∃ e ∈ s.executions, e.id = id ∧ s.ownsExecution u e = true := by
  simp [ownsExecutionId, List.any_eq_true]

theorem ownsLog_iff {log : ExecutionLog} : s.ownsLog u log = true ↔
    ∃ e ∈ s.executions, e.id = log.executionId ∧ s.ownsExecution u e = true := ownsExecutionId_iff

/-! ## The view of a view -/

theorem ownsFunction_view : (view u s).ownsFunction u = s.ownsFunction u := by
  funext functionId
  simp only [ownsFunction, view, List.any_filter]
  congr 1
  funext f
  cases decide (f.ownerId = u) <;> simp

theorem ownsExecution_view : (view u s).ownsExecution u = s.ownsExecution u := by
  funext e
  unfold ownsExecution
  rw [ownsFunction_view]

end PyFaaS.Database
