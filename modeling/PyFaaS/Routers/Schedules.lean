import PyFaaS.Routers.Executions

/-!
# `api/routers/schedules.py`
-/

namespace PyFaaS.Api
open Transactions Database

variable (settings : ApiSettings) (currentUser : Uuid) (g : Given)

def listSchedules (p : Page) : Session Response := do
  let rows ← query fun db => db.schedules.filter fun s => decide (s.ownerId = currentUser)
  return .scheduleList ((p.take (newestFirst Schedule.createdAt rows)).map ScheduleResponse.ofRow) rows.length

structure ScheduleCreate where
  name : Text
  cronExpression : Text
  payload : Json

def createSchedule (functionId : Uuid) (body : ScheduleCreate) : Session Response := do
  let fn ← findFunctionOr404 functionId currentUser
  let next ← found (settings.nextRun body.cronExpression g.now) .internal
  let schedule : Schedule :=
    { id := g.newId
      functionId := fn.id
      ownerId := currentUser
      name := body.name
      cronExpression := body.cronExpression
      payload := body.payload
      status := .active
      nextRunAt := some next
      lastRunAt := none
      lastExecutionId := none
      missedRuns := 0
      createdAt := g.now
      updatedAt := g.now }
  write (insertSchedule schedule)
  return .schedule (.ofRow schedule)

def findScheduleOr404 (scheduleId : Uuid) : Session Schedule := do
  let row ← query fun db =>
    db.schedules.find? fun s => decide (s.id = scheduleId) && decide (s.ownerId = currentUser)
  found row (.notFound "Schedule")

def getSchedule (scheduleId : Uuid) : Session Response := do
  let s ← findScheduleOr404 currentUser scheduleId
  return .schedule (.ofRow s)

structure ScheduleUpdate where
  name : Option Text
  cronExpression : Option Text
  payload : Option Json
  status : Option ScheduleStatus

def ScheduleUpdate.nextRun (body : ScheduleUpdate) : Option (Option Time) :=
  match body.cronExpression with
  | some cron => (settings.nextRun cron g.now).map some
  | none => some none

def ScheduleUpdate.edit (body : ScheduleUpdate) (next : Option Time) (row : Schedule) : Schedule :=
  { row with
    name := body.name.getD row.name
    cronExpression := body.cronExpression.getD row.cronExpression
    nextRunAt := next.or row.nextRunAt
    payload := body.payload.getD row.payload
    status := body.status.getD row.status }

def updateSchedule (scheduleId : Uuid) (body : ScheduleUpdate) : Session Response := do
  let s ← findScheduleOr404 currentUser scheduleId
  let next ← found (body.nextRun settings g) .internal
  write (Database.updateSchedule s.id (touchSchedule g.now (body.edit next)))
  return .schedule (.ofRow (touchSchedule g.now (body.edit next) s))

def deleteSchedule (scheduleId : Uuid) : Session Response := do
  let s ← findScheduleOr404 currentUser scheduleId
  write (deleteSchedules fun row => decide (row.id = s.id))
  return .noContent

end PyFaaS.Api
