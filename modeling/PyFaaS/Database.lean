import PyFaaS.Registry

/-!
# The database of the routers

All tables that the resource routers read and write, and the statements that the
routers issue. A DELETE carries out what the foreign keys say: the rows of a
deleted function go with it, and a reference to a deleted row is set to null. An
UPDATE of executions sets their `updated_at` (`onupdate=func.now()`), which a foreign
key does not.
-/

namespace PyFaaS

/-- `executionsUpdatedAt` is the column `updated_at` of the executions by their
identifiers, which no route reads. -/
structure Database where
  functions : List Function
  versions : List FunctionVersion
  activations : List VersionActivation
  schedules : List Schedule
  apiKeys : List ApiKey
  executions : List Execution
  logs : List ExecutionLog
  executionsUpdatedAt : List (Uuid × Time)
  deriving DecidableEq

namespace Database

def empty : Database := ⟨[], [], [], [], [], [], [], []⟩

def ownsFunction (db : Database) (user : Uuid) (functionId : Uuid) : Bool :=
  db.functions.any fun f => decide (f.id = functionId) && decide (f.ownerId = user)

/-! ## Inserts and updates -/

def insertFunction (row : Function) (db : Database) : Database :=
  { db with functions := db.functions ++ [row] }

def insertVersion (row : FunctionVersion) (db : Database) : Database :=
  { db with versions := db.versions ++ [row] }

def insertActivation (row : VersionActivation) (db : Database) : Database :=
  { db with activations := db.activations ++ [row] }

def insertSchedule (row : Schedule) (db : Database) : Database :=
  { db with schedules := db.schedules ++ [row] }

def insertApiKey (row : ApiKey) (db : Database) : Database :=
  { db with apiKeys := db.apiKeys ++ [row] }

def insertExecution (row : Execution) (db : Database) : Database :=
  { db with
    executions := db.executions ++ [row]
    executionsUpdatedAt := db.executionsUpdatedAt ++ [(row.id, row.createdAt)] }

def updateFunction (id : Uuid) (edit : Function → Function) (db : Database) : Database :=
  { db with functions := Table.modify db.functions id edit }

def updateSchedule (id : Uuid) (edit : Schedule → Schedule) (db : Database) : Database :=
  { db with schedules := Table.modify db.schedules id edit }

def updateApiKey (id : Uuid) (edit : ApiKey → ApiKey) (db : Database) : Database :=
  { db with apiKeys := Table.modify db.apiKeys id edit }

def touchExecutions (p : Execution → Bool) (now : Time) (db : Database) : Database :=
  { db with
    executionsUpdatedAt := db.executionsUpdatedAt.map fun stamp =>
      if db.executions.any fun e => decide (e.id = stamp.1) && p e then (stamp.1, now) else stamp }

def updateExecution (id : Uuid) (edit : Execution → Execution) (now : Time) (db : Database) : Database :=
  { db.touchExecutions (fun e => decide (e.id = id) && decide (edit e ≠ e)) now with
    executions := Table.modify db.executions id edit }

def commitEdit (id : Uuid) (edit : Edit) (now : Time) (db : Database) : Database :=
  { db.updateExecution id edit.after now with
    logs := db.logs ++ (db.executions.filter fun e => decide (e.id = id)).flatMap edit.logsAfter }

/-! ## Deletes -/

def setNull (deleted : List Uuid) (ref : Option Uuid) : Option Uuid :=
  if ref.any fun id => decide (id ∈ deleted) then none else ref

def deleteSchedules (p : Schedule → Bool) (db : Database) : Database :=
  let deleted := (db.schedules.filter p).map Schedule.id
  { db with
    schedules := db.schedules.filter fun s => !p s
    executions := db.executions.map fun e => { e with scheduleId := setNull deleted e.scheduleId } }

def deleteActivations (functionId : Uuid) (db : Database) : Database :=
  { db with activations := db.activations.filter fun a => !decide (a.functionId = functionId) }

def deleteVersions (functionId : Uuid) (db : Database) : Database :=
  let deleted := (db.versions.filter fun v => decide (v.functionId = functionId)).map FunctionVersion.id
  { db with
    versions := db.versions.filter fun v => !decide (v.functionId = functionId)
    activations := db.activations.map fun a =>
      { a with
        previousVersionId := setNull deleted a.previousVersionId
        activatedVersionId := setNull deleted a.activatedVersionId
        canaryVersionId := setNull deleted a.canaryVersionId }
    executions := db.executions.map fun e =>
      { e with functionVersionId := setNull deleted e.functionVersionId } }

def deleteFunctionRow (functionId : Uuid) (db : Database) : Database :=
  let db := db.deleteSchedules fun s => decide (s.functionId = functionId)
  let db := db.deleteActivations functionId
  let db := db.deleteVersions functionId
  { db with
    functions := db.functions.filter fun f => !decide (f.id = functionId)
    executions := db.executions.map fun e => { e with functionId := setNull [functionId] e.functionId } }

def detachExecutions (functionId user : Uuid) (now : Time) (db : Database) : Database :=
  { db.touchExecutions (fun e => decide (e.functionId = some functionId)) now with
    executions := db.executions.map fun e =>
      if e.functionId = some functionId then
        { e with functionId := none, functionVersionId := none, scheduleId := none, triggeredBy := some user }
      else e }

def detachVersions (versionIds : List Uuid) (now : Time) (db : Database) : Database :=
  { db.touchExecutions (fun e => e.functionVersionId.any fun id => decide (id ∈ versionIds)) now with
    executions := db.executions.map fun e =>
      { e with functionVersionId := setNull versionIds e.functionVersionId } }

theorem setNull_nil (ref : Option Uuid) : setNull [] ref = ref := by
  cases ref with
  | none => rfl
  | some id => simp [setNull]

theorem touchExecutions_none {p : Execution → Bool} {now : Time} {db : Database}
    (h : ∀ e ∈ db.executions, p e = false) : db.touchExecutions p now = db := by
  have hkeep : ∀ stamp ∈ db.executionsUpdatedAt,
      (if db.executions.any fun e => decide (e.id = stamp.1) && p e then (stamp.1, now) else stamp) = stamp := by
    intro stamp _
    apply if_neg
    rw [List.any_eq_true]
    rintro ⟨e, he, hp⟩
    rw [h e he, Bool.and_false] at hp
    cases hp
  rw [touchExecutions, List.map_congr_left hkeep, List.map_id']

theorem detachVersions_nil (now : Time) (db : Database) : db.detachVersions [] now = db := by
  have htouch : db.touchExecutions (fun e => e.functionVersionId.any fun id => decide (id ∈ [])) now = db :=
    touchExecutions_none fun e _ => by simp
  rw [detachVersions, htouch]
  simp [setNull_nil]

theorem setNull_some {deleted : List Uuid} {ref : Option Uuid} {id : Uuid}
    (h : setNull deleted ref = some id) : ref = some id ∧ id ∉ deleted := by
  unfold setNull at h
  split_ifs at h with hmem
  subst h
  simpa using hmem

theorem setNull_of_notMem {deleted : List Uuid} {ref : Option Uuid}
    (h : ∀ id, ref = some id → id ∉ deleted) : setNull deleted ref = ref := by
  cases ref with
  | none => rfl
  | some id => simp [setNull, h id rfl]

end Database
end PyFaaS
