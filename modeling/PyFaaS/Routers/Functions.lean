import PyFaaS.Api

/-!
# `api/routers/functions.py`
-/

namespace PyFaaS.Api
open Transactions Database

section
variable (settings : ApiSettings) (currentUser : Uuid) (g : Given)

def listFunctions (p : Page) (statusFilter : Option FunctionStatus) : Session Response := do
  let rows ← query fun db => db.functions.filter fun f =>
    decide (f.ownerId = currentUser) && statusFilter.all fun s => decide (f.status = s)
  let items ← query fun db =>
    (p.take (newestFirst Function.createdAt rows)).map (withVersions db)
  return .functionList items rows.length p.number p.limit

def createFunction (name : Text) (description : Option Text) (tags : Json) : Session Response := do
  let count ← query fun db => (db.functions.filter fun f =>
    decide (f.ownerId = currentUser) && !decide (f.status = .deprecated)).length
  require (decide (count < settings.maxFunctionsPerUser)) (.exception 429
    ("Maximum of ".toList ++ (toString settings.maxFunctionsPerUser).toList ++ " functions per user".toList))
  let existing ← query fun db =>
    db.functions.find? fun f => decide (f.ownerId = currentUser) && decide (f.name = name)
  require existing.isNone (.exception 409 ("Function '".toList ++ name ++ "' already exists".toList))
  let fn : Function :=
    { id := g.newId
      ownerId := currentUser
      name := name
      description := description
      runtime := "python3.12".toList
      status := .active
      activeVersionId := none
      canaryVersionId := none
      canaryPercent := 0
      tags := tags
      createdAt := g.now
      updatedAt := g.now }
  write (insertFunction fn)
  return .function ⟨fn, none, none⟩

def getFunction (functionId : Uuid) : Session Response := do
  let fn ← getFunctionOr404 functionId currentUser
  return .function fn

structure FunctionUpdate where
  description : Option Text
  status : Option FunctionStatus
  tags : Option Json

def FunctionUpdate.edit (body : FunctionUpdate) (row : Function) : Function :=
  { row with
    description := match body.description with
      | some description => some description
      | none => row.description
    status := body.status.getD row.status
    tags := body.tags.getD row.tags }

def updateFunction (functionId : Uuid) (body : FunctionUpdate) : Session Response := do
  let fn ← getFunctionOr404 functionId currentUser
  write (Database.updateFunction fn.row.id (touchFunction g.now body.edit))
  let fn ← getFunctionOr404 functionId currentUser
  return .function fn

def isUnfinished (s : ExecutionStatus) : Bool :=
  decide (s = .pending) || decide (s = .queued) || decide (s = .running)

def clearVersions (row : Function) : Function :=
  { row with activeVersionId := none, canaryVersionId := none, canaryPercent := 0 }

def deleteStatements (functionId : Uuid) (versionIds : List Uuid) (db : Database) : Database :=
  let db := db.detachExecutions functionId currentUser g.now
  let db := if versionIds.isEmpty then db else db.detachVersions versionIds g.now
  let db := db.updateFunction functionId (touchFunction g.now clearVersions)
  let db := db.deleteSchedules fun s => decide (s.functionId = functionId)
  let db := db.deleteActivations functionId
  let db := db.deleteVersions functionId
  db.deleteFunctionRow functionId

def deleteFunction (functionId : Uuid) : Session Response := do
  let fn ← getFunctionOr404 functionId currentUser
  let activeCount ← query fun db => (db.executions.filter fun e =>
    decide (e.functionId = some fn.row.id) && isUnfinished e.status).length
  require (decide (activeCount = 0)) (.exception 409
    "Function has active executions. Wait for them to finish or cancel them before deleting.".toList)
  let versions ← query fun db => db.versions.filter fun v => decide (v.functionId = fn.row.id)
  write (deleteStatements currentUser g fn.row.id (versions.map FunctionVersion.id))
  match (versions.map FunctionVersion.artifactPath).find? g.storageFails with
  | some path => abort (.exception 502 ("Failed to delete function artifact: ".toList ++ path))
  | none => return .noContent

/-! ## Versions -/

/-- The uploaded archive: its verdict is what `validate_function_archive` finds
in its bytes. -/
structure Archive where
  size : ℕ
  sha256 : Text
  rejection : Option Text

structure VersionForm where
  entrypoint : Text
  timeout : ℤ
  memoryMb : ℤ
  changeNotes : Option Text

def isIdentifierStart (c : Char) : Bool :=
  (decide ('a' ≤ c) && decide (c ≤ 'z')) || (decide ('A' ≤ c) && decide (c ≤ 'Z')) || decide (c = '_')

def isIdentifierPart (c : Char) : Bool :=
  isIdentifierStart c || (decide ('0' ≤ c) && decide (c ≤ '9'))

def validEntrypoint (entrypoint : Text) : Bool :=
  match entrypoint.splitOn '.' |>.getLast?, entrypoint.head? with
  | some (c :: name), some first =>
    isIdentifierStart c && name.all isIdentifierPart && isIdentifierStart first &&
      entrypoint.all (fun d => isIdentifierPart d || decide (d = '.')) && decide ('.' ∈ entrypoint)
  | _, _ => false

def VersionForm.valid (form : VersionForm) : Bool :=
  validEntrypoint form.entrypoint && decide (1 ≤ form.timeout) && decide (form.timeout ≤ 3600) &&
    decide (64 ≤ form.memoryMb) && decide (form.memoryMb ≤ 3072) &&
    form.changeNotes.all fun notes => decide (notes.length ≤ 512)

def artifactPath (functionId versionId : Uuid) : Text :=
  "functions/".toList ++ settings.uuidText functionId ++ ['/'] ++ settings.uuidText versionId ++
    "/source.zip".toList

def nextVersionNumber (versions : List FunctionVersion) : ℕ :=
  (versions.map FunctionVersion.versionNumber).foldl max 0 + 1

def createVersion (functionId : Uuid) (archive : Archive) (form : VersionForm) : Session Response := do
  let fn ← getFunctionOr404 functionId currentUser
  -- the schema is checked inside the route, so a bad form is not a 422
  require form.valid .internal
  require (decide (archive.size ≤ settings.maxFunctionSizeBytes)) (.exception 413
    ("Archive exceeds maximum size of ".toList ++ (toString settings.maxFunctionSizeBytes).toList ++
      " bytes".toList))
  require archive.rejection.isNone (.exception 422
    ("Security validation failed: ".toList ++ archive.rejection.getD []))
  let versions ← query fun db => db.versions.filter fun v => decide (v.functionId = fn.row.id)
  require (decide (versions.length < settings.maxVersionsPerFunction)) (.exception 429
    ("Maximum of ".toList ++ (toString settings.maxVersionsPerFunction).toList ++
      " versions per function".toList))
  let path := artifactPath settings functionId g.newId
  require (!g.storageFails path) .internal
  let version : FunctionVersion :=
    { id := g.newId
      functionId := fn.row.id
      versionNumber := nextVersionNumber versions
      entrypoint := form.entrypoint
      artifactPath := path
      artifactHash := archive.sha256
      artifactSize := archive.size
      environment := .obj []
      timeout := form.timeout.toNat
      memoryMb := form.memoryMb.toNat
      isActive := true
      changeNotes := form.changeNotes
      createdAt := g.now }
  write (insertVersion version)
  write (Database.updateFunction fn.row.id
    (touchFunction g.now fun row => { row with activeVersionId := some g.newId }))
  return .version version

def listVersions (functionId : Uuid) : Session Response := do
  let fn ← getFunctionOr404 functionId currentUser
  let versions ← query fun db => (db.versions.filter fun v => decide (v.functionId = fn.row.id)).mergeSort
    fun a b => decide (b.versionNumber ≤ a.versionNumber)
  return .versionList versions versions.length

def getVersion (functionId versionId : Uuid) : Session Response := do
  let fn ← getFunctionOr404 functionId currentUser
  let row ← query fun db => db.versions.find? fun v =>
    decide (v.id = versionId) && decide (v.functionId = fn.row.id)
  let version ← found row (.notFound "Version")
  return .version version

def getActiveVersionOr404 (functionId versionId : Uuid) : Session FunctionVersion := do
  let row ← query fun db => db.versions.find? fun v =>
    decide (v.id = versionId) && decide (v.functionId = functionId) && v.isActive
  found row (.notFound "Version")

def recordActivation (fn : Function) (action : String) (activated canary : Option Uuid)
    (canaryPercent : ℕ) : VersionActivation where
  id := g.newId
  functionId := fn.id
  actorId := some currentUser
  previousVersionId := fn.activeVersionId
  activatedVersionId := activated
  canaryVersionId := canary
  canaryPercent := canaryPercent
  action := action.toList
  createdAt := g.now

/-- The row is selected again behind the flush; the two versions have been
loaded before and stay as they were. -/
def reload (functionId : Uuid) (loaded : FunctionResponse) : Session Response := do
  let refreshed ← getFunctionOr404 functionId currentUser
  return .function ⟨refreshed.row, loaded.activeVersion, loaded.canaryVersion⟩

def activateVersion (functionId versionId : Uuid) : Session Response := do
  let fn ← getFunctionOr404 functionId currentUser
  let version ← getActiveVersionOr404 fn.row.id versionId
  write (Database.updateFunction fn.row.id (touchFunction g.now fun row =>
    { row with activeVersionId := some version.id, canaryVersionId := none, canaryPercent := 0 }))
  write (insertActivation (recordActivation currentUser g fn.row "activate" (some version.id) none 0))
  reload currentUser functionId fn

structure CanaryUpdate where
  canaryVersionId : Option Uuid
  canaryPercent : ℕ
  percentBound : canaryPercent ≤ 100

def clearCanary (row : Function) : Function := { row with canaryVersionId := none, canaryPercent := 0 }

def updateCanary (functionId : Uuid) (body : CanaryUpdate) : Session Response := do
  let fn ← getFunctionOr404 functionId currentUser
  match body.canaryVersionId, decide (body.canaryPercent = 0) with
  | none, _ | _, true =>
    write (Database.updateFunction fn.row.id (touchFunction g.now clearCanary))
    write (insertActivation (recordActivation currentUser g fn.row "canary_clear" none none 0))
    reload currentUser functionId fn
  | some canaryVersionId, false =>
    let version ← getActiveVersionOr404 fn.row.id canaryVersionId
    require (!(decide (some canaryVersionId = fn.row.activeVersionId) && decide (body.canaryPercent < 100)))
      (.exception 422 "Canary version must differ from active version".toList)
    if body.canaryPercent = 100 then
      write (Database.updateFunction fn.row.id (touchFunction g.now fun row =>
        { row with activeVersionId := some version.id, canaryVersionId := none, canaryPercent := 0 }))
      write (insertActivation (recordActivation currentUser g fn.row "promote" (some version.id) none 0))
      reload currentUser functionId fn
    else
      write (Database.updateFunction fn.row.id (touchFunction g.now fun row =>
        { row with canaryVersionId := some version.id, canaryPercent := body.canaryPercent }))
      write (insertActivation (recordActivation currentUser g fn.row "canary_update"
        fn.row.activeVersionId (some version.id) body.canaryPercent))
      reload currentUser functionId fn

def listActivations (functionId : Uuid) : Session Response := do
  let fn ← getFunctionOr404 functionId currentUser
  let rows ← query fun db => db.activations.filter fun a => decide (a.functionId = fn.row.id)
  return .activations ((newestFirst VersionActivation.createdAt rows).take 100)

end

end PyFaaS.Api
