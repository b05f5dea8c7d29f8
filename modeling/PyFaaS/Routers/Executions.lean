import PyFaaS.Api

/-!
# `api/routers/executions.py`
-/

namespace PyFaaS.Api
open Transactions Database
open Execution (Origin)

def executionOwnerClause (user : Uuid) (db : Database) (e : Execution) : Bool :=
  e.functionId.any (db.ownsFunction user) || decide (e.triggeredBy = some user)

def submit (g : Given) (origin : Origin) (n : NewExecution) : Session Execution := do
  write (insertExecution n.row)
  match g.enqueueFails with
  | none => return n.row
  | some exc =>
    write (updateExecution n.id (Execution.failEnqueue origin exc) g.now)
    return n.row.failEnqueue origin exc

section
variable (currentUser : Uuid) (g : Given)

structure ExecutionTrigger where
  payload : Json
  versionId : Option Uuid
  timeout : Option ℕ

def ExecutionTrigger.timeoutOr (body : ExecutionTrigger) (default : ℕ) : ℕ :=
  match body.timeout with
  | some timeout => if timeout = 0 then default else timeout
  | none => default

def newFunctionExecution (fn : Function) (version : FunctionVersion) (apiKeyId : Option Uuid)
    (payload : Json) (timeout : ℕ) : NewExecution where
  id := g.newId
  functionId := some fn.id
  functionVersionId := some version.id
  triggeredBy := some currentUser
  apiKeyId := apiKeyId
  executionType := .function
  scheduleId := none
  payload := payload
  now := g.now
  timeout := timeout
  artifactPath := some version.artifactPath
  entrypoint := version.entrypoint
  environment := version.environment
  memoryMb := version.memoryMb
  sourceCode := none

def triggerExecution (functionId : Uuid) (body : ExecutionTrigger) : Session Response := do
  let fn ← findFunctionOr404 functionId currentUser
  let chosen ← query fun db => chooseExecutionVersion db.versions fn g.draw body.versionId
  let version ← found chosen (.exception 422
    "Function has no executable version; upload or activate a version first".toList)
  let n := newFunctionExecution currentUser g fn version none body.payload (body.timeoutOr version.timeout)
  let execution ← submit g .trigger n
  -- the payload is a dict by the request's schema, and there is no result yet
  return .execution (.ofRow execution)

/-! ## Listing -/

def failureKindText : FailureKind → Text
  | .queue => "queue".toList
  | .infra => "infra".toList
  | .handler => "handler".toList

/-- `str.isspace` on one character. -/
def isSpace (c : Char) : Bool :=
  (decide ('\t' ≤ c) && decide (c ≤ '\r')) || (decide ('\x1c' ≤ c) && decide (c ≤ ' ')) ||
    decide (c = '\u0085') || decide (c = '\u00a0') || decide (c = '\u1680') ||
    (decide ('\u2000' ≤ c) && decide (c ≤ '\u200a')) || decide (c = '\u2028') || decide (c = '\u2029') ||
    decide (c = '\u202f') || decide (c = '\u205f') || decide (c = '\u3000')

def strip (x : Text) : Text := ((x.dropWhile isSpace).reverse.dropWhile isSpace).reverse

structure ExecutionFilter where
  functionId : Option Uuid
  status : Option ExecutionStatus
  failureKind : Option Text
  source : Option ExecutionType

def ExecutionFilter.kinds (filter : ExecutionFilter) : List Text :=
  match filter.failureKind with
  | none => []
  | some text => ((text.splitOn ',').map strip).filter fun kind => !kind.isEmpty

def ExecutionFilter.accepts (filter : ExecutionFilter) (e : Execution) : Bool :=
  (filter.functionId.all fun id => decide (e.functionId = some id)) &&
    (filter.status.all fun s => decide (e.status = s)) &&
    (filter.kinds.isEmpty || e.failureKind.any fun kind => decide (failureKindText kind ∈ filter.kinds)) &&
    filter.source.all fun source => decide (e.executionType = source)

def listExecutions (p : Page) (filter : ExecutionFilter) : Session Response := do
  let rows ← query fun db => db.executions.filter fun e =>
    executionOwnerClause currentUser db e && filter.accepts e
  let executions := p.take (newestFirst Execution.createdAt rows)
  let items ← found (executions.mapM ExecutionResponse.modelValidate) .internal
  return .executionList items rows.length p.number p.limit

/-! ## One execution -/

def findExecutionOr404 (executionId : Uuid) : Session Execution := do
  let row ← query fun db => db.executions.find? fun e =>
    decide (e.id = executionId) && executionOwnerClause currentUser db e
  found row (.notFound "Execution")

def getExecution (executionId : Uuid) : Session Response := do
  let execution ← findExecutionOr404 currentUser executionId
  let item ← found (ExecutionResponse.modelValidate execution) .internal
  return .execution item

def logOrder (a b : ExecutionLog) : Bool :=
  decide (a.sequence < b.sequence) || (decide (a.sequence = b.sequence) && decide (a.timestamp ≤ b.timestamp))

def logsOf (executionId : Uuid) (p : Page) : Session Response := do
  let rows ← query fun db => db.logs.filter fun log => decide (log.executionId = executionId)
  return .executionLogs executionId ((p.take (rows.mergeSort logOrder)).map ExecutionLogEntry.ofRow) rows.length

def getExecutionLogs (executionId : Uuid) (p : Page) : Session Response := do
  let execution ← findExecutionOr404 currentUser executionId
  logsOf execution.id p

def cancelExecution (executionId : Uuid) : Session Response := do
  let execution ← findExecutionOr404 currentUser executionId
  match execution.cancelExecution with
  | .error err => abort (.conflict err)
  | .ok cancelled =>
    write (updateExecution execution.id (fun row => { row with status := cancelled.status }) g.now)
    return .noContent

end

end PyFaaS.Api
