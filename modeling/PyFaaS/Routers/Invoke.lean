import PyFaaS.Routers.Executions
import PyFaaS.Routers.Keys

/-!
# `api/routers/invoke.py`
-/

namespace PyFaaS.Api
open Transactions Database

section
variable (key : ApiKey) (g : Given)

/-- The select loads no version, so the answer has to load them on access. -/
def listInvokableFunctions : Session Response := do
  let rows ← query fun db => db.functions.filter fun f => decide (f.ownerId = key.ownerId)
  require (g.lazyLoads || rows.all fun f => f.activeVersionId.isNone && f.canaryVersionId.isNone) .internal
  let items ← query fun db => (newestFirst Function.createdAt rows).map (withVersions db)
  return .functionList items items.length 1 items.length

def apiKeyExecutionOwnerClause (e : Execution) : Bool :=
  decide (e.apiKeyId = some key.id) || decide (e.triggeredBy = some key.ownerId)

def findInvokedExecutionOr404 (executionId : Uuid) : Session Execution := do
  let row ← query fun db => db.executions.find? fun e =>
    decide (e.id = executionId) && apiKeyExecutionOwnerClause key e
  found row (.notFound "Execution")

def getInvokedExecution (executionId : Uuid) : Session Response := do
  let execution ← findInvokedExecutionOr404 key executionId
  let item ← found (ExecutionResponse.modelValidate execution) .internal
  return .execution item

def getInvokedExecutionLogs (executionId : Uuid) (p : Page) : Session Response := do
  let execution ← findInvokedExecutionOr404 key executionId
  logsOf execution.id p

/-- The re-reads of a waiting request, each behind what was committed meanwhile. -/
def awaitTerminal (executionId : Uuid) : List (Edit × Time) → Execution → Session Execution
  | [], execution => return execution
  | (edit, committedAt) :: rest, _ => do
    write (commitEdit executionId edit committedAt)
    let row ← query fun db => Table.get? db.executions executionId
    let execution ← found row .internal
    if execution.status.terminal then return execution else awaitTerminal executionId rest execution

def invokeFunction (functionId : Uuid) (payload : Json) (wait : Bool) : Session Response := do
  let fn ← findFunctionOr404 functionId key.ownerId
  let chosen ← query fun db => chooseExecutionVersion db.versions fn g.draw none
  let version ← found chosen (.exception 422 "Function has no executable version".toList)
  let n := newFunctionExecution key.ownerId g fn version (some key.id) payload version.timeout
  let execution ← submit g .invoke n
  let execution ← awaitTerminal n.id (if wait then g.observed else []) execution
  return .ofExecution execution

end

end PyFaaS.Api
