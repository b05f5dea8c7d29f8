import PyFaaS.Database
import PyFaaS.Transactions

/-!
# Requests, answers and errors of the API

A route is a transaction on the database that ends with an answer or an error; an
error rolls it back. What the clock, the random source, the storage, the queue
and the workers do during one request is given.
-/

namespace PyFaaS.Api
open Transactions

inductive HttpError where
  | exception (status : ℕ) (detail : Text)
  | conflict (err : ExecutionStatus.TransitionError)
  | internal
  deriving DecidableEq, Repr

namespace HttpError

def notFound (what : String) : HttpError := .exception 404 (what ++ " not found").toList

end HttpError

abbrev Session := StateT Database (Except HttpError)

/-- `nextRun` answers nothing where croniter's `get_next` raises, as it does for an
expression that matches no date. -/
structure ApiSettings where
  maxFunctionsPerUser : ℕ
  maxVersionsPerFunction : ℕ
  maxFunctionSizeBytes : ℕ
  hashApiKey : Text → Text
  nextRun : Text → Time → Option Time
  uuidText : Uuid → Text

/-- `storageFails` tells the paths for which the artifact storage raises,
`enqueueFails` the exception of `enqueue_job`, `observed` what other parties
commit to the new execution before each re-read of a waiting request and when, and
`lazyLoads` whether the session may load a relationship on access. -/
structure Given where
  now : Time
  newId : Uuid
  draw : ℕ
  rawKey : Text
  storageFails : Text → Bool
  enqueueFails : Option Text
  observed : List (Edit × Time)
  lazyLoads : Bool

/-! ## Answers -/

structure FunctionResponse where
  row : Function
  activeVersion : Option FunctionVersion
  canaryVersion : Option FunctionVersion
  deriving DecidableEq

structure ExecutionResponse where
  id : Uuid
  functionId : Option Uuid
  functionVersionId : Option Uuid
  executionType : ExecutionType
  status : ExecutionStatus
  payload : Json
  result : Option Json
  errorMessage : Option Text
  failureKind : Option FailureKind
  workerId : Option Text
  k8sJobName : Option Text
  queuedAt : Option Time
  startedAt : Option Time
  completedAt : Option Time
  durationMs : Option ℤ
  attemptNumber : ℕ
  timeout : ℕ
  createdAt : Time
  deriving DecidableEq

def ExecutionResponse.ofRow (e : Execution) : ExecutionResponse where
  id := e.id
  functionId := e.functionId
  functionVersionId := e.functionVersionId
  executionType := e.executionType
  status := e.status
  payload := e.payload
  result := e.result
  errorMessage := e.errorMessage
  failureKind := e.failureKind
  workerId := e.workerId
  k8sJobName := e.k8sJobName
  queuedAt := e.queuedAt
  startedAt := e.startedAt
  completedAt := e.completedAt
  durationMs := e.durationMs
  attemptNumber := e.attemptNumber
  timeout := e.timeout
  createdAt := e.createdAt

/-- `payload: dict[str, Any]` and `result: dict[str, Any] | None`. -/
def ExecutionResponse.takes (e : Execution) : Bool :=
  e.payload.isDict && e.result.all fun result => result.isDict || decide (result = .null)

def ExecutionResponse.modelValidate (e : Execution) : Option ExecutionResponse :=
  if takes e then some (ofRow e) else none

structure ExecutionLogEntry where
  id : Uuid
  timestamp : Time
  level : Text
  stream : Text
  message : Text
  sequence : ℕ
  deriving DecidableEq

def ExecutionLogEntry.ofRow (log : ExecutionLog) : ExecutionLogEntry :=
  ⟨log.id, log.timestamp, log.level, log.stream, log.message, log.sequence⟩

structure ScheduleResponse where
  id : Uuid
  functionId : Uuid
  name : Text
  cronExpression : Text
  payload : Json
  status : ScheduleStatus
  nextRunAt : Option Time
  lastRunAt : Option Time
  createdAt : Time
  updatedAt : Time
  deriving DecidableEq

def ScheduleResponse.ofRow (s : Schedule) : ScheduleResponse :=
  ⟨s.id, s.functionId, s.name, s.cronExpression, s.payload, s.status, s.nextRunAt, s.lastRunAt,
    s.createdAt, s.updatedAt⟩

structure ApiKeyResponse where
  id : Uuid
  name : Text
  keyPrefix : Text
  createdAt : Time
  lastUsedAt : Option Time
  revokedAt : Option Time
  deriving DecidableEq

def ApiKeyResponse.ofRow (k : ApiKey) : ApiKeyResponse :=
  ⟨k.id, k.name, k.keyPrefix, k.createdAt, k.lastUsedAt, k.revokedAt⟩

inductive Response where
  | noContent
  | function (item : FunctionResponse)
  | functionList (items : List FunctionResponse) (total page pageSize : ℕ)
  | version (item : FunctionVersion)
  | versionList (items : List FunctionVersion) (total : ℕ)
  | activations (items : List VersionActivation)
  | execution (item : ExecutionResponse)
  -- the 500 of a route that has committed an execution its response model does not take
  | invalidExecution
  | executionList (items : List ExecutionResponse) (total page pageSize : ℕ)
  | executionLogs (executionId : Uuid) (logs : List ExecutionLogEntry) (total : ℕ)
  | schedule (item : ScheduleResponse)
  | scheduleList (items : List ScheduleResponse) (total : ℕ)
  | apiKey (item : ApiKeyResponse)
  | apiKeyList (items : List ApiKeyResponse)
  | apiKeyCreated (item : ApiKeyResponse) (key : Text)
  deriving DecidableEq

def Response.ofExecution (e : Execution) : Response :=
  match ExecutionResponse.modelValidate e with
  | some item => .execution item
  | none => .invalidExecution

/-! ## Selecting -/

structure Page where
  offset : ℕ
  limit : ℕ

def Page.number (p : Page) : ℕ := p.offset / p.limit + 1

def Page.take {ρ : Type} (p : Page) (rows : List ρ) : List ρ := (rows.drop p.offset).take p.limit

def newestFirst {ρ : Type} (createdAt : ρ → Time) (rows : List ρ) : List ρ :=
  rows.mergeSort fun a b => decide (createdAt b ≤ createdAt a)

def withVersions (db : Database) (fn : Function) : FunctionResponse where
  row := fn
  activeVersion := fn.activeVersionId.bind fun id => Table.get? db.versions id
  canaryVersion := fn.canaryVersionId.bind fun id => Table.get? db.versions id

def findFunctionOr404 (functionId owner : Uuid) : Session Function := do
  let row ← query fun db =>
    db.functions.find? fun f => decide (f.id = functionId) && decide (f.ownerId = owner)
  found row (.notFound "Function")

def getFunctionOr404 (functionId owner : Uuid) : Session FunctionResponse := do
  let fn ← findFunctionOr404 functionId owner
  query fun db => withVersions db fn

/-- The session flushes an edited row only if a column has changed. -/
def touchFunction (now : Time) (edit : Function → Function) (row : Function) : Function :=
  if edit row = row then row else { edit row with updatedAt := now }

theorem touchFunction_eq (now : Time) (edit : Function → Function) (row : Function) :
    touchFunction now edit row =
      { edit row with updatedAt := if edit row = row then row.updatedAt else now } := by
  unfold touchFunction
  split_ifs with h
  · rw [h]
  · rfl

def touchSchedule (now : Time) (edit : Schedule → Schedule) (row : Schedule) : Schedule :=
  if edit row = row then row else { edit row with updatedAt := now }

end PyFaaS.Api
