import PyFaaS.Platform
import PyFaaS.RouteEffects
import PyFaaS.Routers.Invoke
import PyFaaS.Routers.Schedules
import PyFaaS.Scheduler

/-!
# The four ways an execution is submitted

The request bodies of `trigger_execution`, `invoke_function` and
`execute_ephemeral` with the checks of their schemas, and the firing of a
schedule. A payload that is fired has come in through the body of another route
and was stored, so the schedules and versions are part of the state, beside the
platform that the new executions go to.
-/

namespace PyFaaS.Submissions
open Api TextLines

/-! ## Request bodies -/

def encodedSize (codec : JsonCodec) (v : Json) : ℕ := utf8Length (codec.dumps v)

def validateSize (codec : JsonCodec) (limit : ℕ) (message : String) (v : Json) : Except Text Json :=
  if limit < encodedSize codec v then .error message.toList else .ok v

theorem validateSize_ok {codec : JsonCodec} {limit : ℕ} {message : String} {v w : Json} :
    validateSize codec limit message v = .ok w ↔ encodedSize codec v ≤ limit ∧ w = v := by
  rw [validateSize]
  by_cases h : limit < encodedSize codec v
  · rw [if_pos h]
    exact ⟨nofun, fun hle => absurd hle.1 (not_le.mpr h)⟩
  · rw [if_neg h, Except.ok.injEq, eq_comm]
    exact ⟨fun hw => ⟨not_lt.mp h, hw⟩, And.right⟩

def payloadLimit : ℕ := 1048576

structure PlatformSettings where
  maxPayloadSizeBytes : ℕ
  ephemeralMaxCodeBytes : ℕ

def PlatformSettings.default : PlatformSettings := ⟨1024 * 1024, 64 * 1024⟩

def validatePayloadSize (codec : JsonCodec) : Json → Except Text Json :=
  validateSize codec payloadLimit "Payload must not exceed 1 MB"

def validateEventSize (settings : PlatformSettings) (codec : JsonCodec) : Json → Except Text Json :=
  validateSize codec settings.maxPayloadSizeBytes "Event payload must not exceed 1 MB"

def validateCodeSize (settings : PlatformSettings) (value : Text) : Except Text Text :=
  if settings.ephemeralMaxCodeBytes < utf8Length value then
    .error ("Code must not exceed ".toList ++ (toString settings.ephemeralMaxCodeBytes).toList ++ " bytes".toList)
  else .ok value

def acceptsTrigger (codec : JsonCodec) (body : ExecutionTrigger) : Bool :=
  body.payload.isDict && (validatePayloadSize codec body.payload).toBool &&
    body.timeout.all fun timeout => decide (1 ≤ timeout) && decide (timeout ≤ 3600)

def acceptsInvoke (payload : Json) : Bool := payload.isDict

structure EphemeralExecution where
  code : Text
  entrypoint : Text
  event : Json
  timeout : ℕ
  memoryMb : ℕ

def acceptsEphemeral (settings : PlatformSettings) (codec : JsonCodec) (body : EphemeralExecution) : Bool :=
  decide (1 ≤ body.code.length) && (validateCodeSize settings body.code).toBool &&
    validEntrypoint body.entrypoint && body.event.isDict &&
    (validateEventSize settings codec body.event).toBool &&
    decide (1 ≤ body.timeout) && decide (body.timeout ≤ 300) &&
    decide (64 ≤ body.memoryMb) && decide (body.memoryMb ≤ 1024)

theorem acceptsTrigger_payload {codec : JsonCodec} {body : ExecutionTrigger} (h : acceptsTrigger codec body = true) :
    encodedSize codec body.payload ≤ payloadLimit := by
  simp only [acceptsTrigger, Bool.and_eq_true] at h
  cases hsize : validatePayloadSize codec body.payload with
  | error message => simp [hsize, Except.toBool] at h
  | ok v => exact (validateSize_ok.mp hsize).1

theorem acceptsTrigger_timeout {codec : JsonCodec} {body : ExecutionTrigger} (h : acceptsTrigger codec body = true)
    {timeout : ℕ} (hbody : body.timeout = some timeout) : 1 ≤ timeout ∧ timeout ≤ 3600 := by
  simp only [acceptsTrigger, Bool.and_eq_true, hbody, Option.all_some, decide_eq_true_eq] at h
  exact h.2

theorem acceptsEphemeral_event {settings : PlatformSettings} {codec : JsonCodec} {body : EphemeralExecution}
    (h : acceptsEphemeral settings codec body = true) :
    encodedSize codec body.event ≤ settings.maxPayloadSizeBytes := by
  simp only [acceptsEphemeral, Bool.and_eq_true] at h
  cases hsize : validateEventSize settings codec body.event with
  | error message => simp [hsize, Except.toBool] at h
  | ok v => exact (validateSize_ok.mp hsize).1

theorem acceptsEphemeral_timeout {settings : PlatformSettings} {codec : JsonCodec} {body : EphemeralExecution}
    (h : acceptsEphemeral settings codec body = true) : 1 ≤ body.timeout ∧ body.timeout ≤ 300 := by
  simp only [acceptsEphemeral, Bool.and_eq_true, decide_eq_true_eq] at h
  omega

/-- What the code under the submissions is configured with or takes from its
libraries: croniter decides `validCron`, counts the parts and finds the next run. -/
structure Config where
  codec : JsonCodec
  platform : PlatformSettings
  api : ApiSettings
  validCron : Text → Bool
  cronParts : Text → ℕ

def Config.acceptsScheduleCreate (c : Config) (body : ScheduleCreate) : Bool :=
  decide (1 ≤ body.name.length) && decide (body.name.length ≤ 128) && c.validCron body.cronExpression &&
    decide (c.cronParts body.cronExpression = 5) && body.payload.isDict

/-- The schema of the update does not count the parts. -/
def Config.acceptsScheduleUpdate (c : Config) (body : ScheduleUpdate) : Bool :=
  (body.name.all fun name => decide (1 ≤ name.length) && decide (name.length ≤ 128)) &&
    body.cronExpression.all c.validCron && body.payload.all Json.isDict

/-! ## The new rows -/

def newSchedule (user : Uuid) (g : Given) (functionId : Uuid) (body : ScheduleCreate) (next : Time) : Schedule where
  id := g.newId
  functionId := functionId
  ownerId := user
  name := body.name
  cronExpression := body.cronExpression
  payload := body.payload
  status := .active
  nextRunAt := some next
  lastRunAt := none
  lastExecutionId := none
  missedRuns := 0
  createdAt := g.now
  updatedAt := g.now

/-- The job names its function and version "ephemeral". -/
def newEphemeralExecution (key : ApiKey) (g : Given) (body : EphemeralExecution) : NewExecution where
  id := g.newId
  functionId := none
  functionVersionId := none
  triggeredBy := some key.ownerId
  apiKeyId := some key.id
  executionType := .ephemeral
  scheduleId := none
  payload := body.event
  now := g.now
  timeout := body.timeout
  artifactPath := none
  entrypoint := body.entrypoint
  environment := .obj []
  memoryMb := body.memoryMb
  sourceCode := some body.code

theorem createSchedule_inserts {settings : ApiSettings} {user functionId : Uuid} {g : Given}
    {body : ScheduleCreate} {s t : Database} {a : Response}
    (h : createSchedule settings user g functionId body s = .ok (a, t)) :
    ∃ next, settings.nextRun body.cronExpression g.now = some next ∧
      t = Database.insertSchedule (newSchedule user g functionId body next) s := by
  obtain ⟨fn, s', hfind, hrest⟩ := Transactions.bind_ok.mp h
  obtain ⟨rfl, hfn⟩ := findFunctionOr404_ok hfind
  obtain ⟨next, hnext, hrest⟩ := Transactions.found_bind_ok.mp hrest
  simp only [Transactions.write_bind, Transactions.return_ok] at hrest
  obtain ⟨-, rfl⟩ := Prod.mk.inj hrest
  exact ⟨next, hnext, by rw [newSchedule, ← hfn.id]⟩

/-! ## Steps -/

/-- `firing` holds the schedule row that a replica has re-read, until the replica
has recorded its run. -/
structure State (W Q R : Type) where
  platform : Platform W Q
  versions : List FunctionVersion
  schedules : List Schedule
  firing : R → Option Scheduler.Firing

inductive Action (W Q R : Type) where
  | createVersion (form : VersionForm) (version : FunctionVersion)
  | deleteVersions (functionId : Uuid)
  | createSchedule (user functionId : Uuid) (g : Given) (body : ScheduleCreate)
  | updateSchedule (id : Uuid) (g : Given) (body : ScheduleUpdate)
  | deleteSchedules (deleted : Schedule → Bool)
  | trigger (q : Q) (user : Uuid) (g : Given) (fn : Function) (version : FunctionVersion)
    (body : ExecutionTrigger)
  | invoke (q : Q) (key : ApiKey) (g : Given) (fn : Function) (version : FunctionVersion) (payload : Json)
  | ephemeral (q : Q) (key : ApiKey) (g : Given) (body : EphemeralExecution)
  | refetch (r : R) (id : Uuid) (now : Time)
  | advance (r : R) (next : Time)
  | fire (r : R) (q : Q) (id : Uuid) (fn : Function) (version : FunctionVersion)
  | recordRun (r : R) (next : Time)
  | drop (r : R)
  | platform (a : Platform.Action W Q)

/-- The actions of the platform that bring in neither an execution nor a job. -/
def internal {W Q : Type} : Platform.Action W Q → Bool
  | .create _ _ _ | .redeliver _ _ => false
  | _ => true

variable {W Q R : Type}

def initial : State W Q R := ⟨.initial, [], [], fun _ => none⟩

section
variable [DecidableEq W] [DecidableEq Q] [DecidableEq R]

def State.setFiring (s : State W Q R) (r : R) (f : Option Scheduler.Firing) : State W Q R :=
  { s with firing := Function.update s.firing r f }

def State.editSchedule (s : State W Q R) (id : Uuid) (edit : Schedule → Schedule) : State W Q R :=
  { s with schedules := Table.modify s.schedules id edit }

/-- The foreign key of a new execution keeps its version from being deleted under
the request, and no route changes the timeout of a version. -/
inductive Step (c : Config) (s : State W Q R) : Action W Q R → State W Q R → Prop where
  | createVersion {form : VersionForm} {version : FunctionVersion} (hform : form.valid = true)
      (htimeout : version.timeout = form.timeout.toNat) (henvironment : version.environment = .obj []) :
      Step c s (.createVersion form version) { s with versions := s.versions ++ [version] }
  | deleteVersions {functionId : Uuid} :
      Step c s (.deleteVersions functionId)
        { s with versions := s.versions.filter fun v => !decide (v.functionId = functionId) }
  | createSchedule {user functionId : Uuid} {g : Given} {body : ScheduleCreate} {next : Time}
      (hbody : c.acceptsScheduleCreate body = true) (hnext : c.api.nextRun body.cronExpression g.now = some next) :
      Step c s (.createSchedule user functionId g body)
        { s with schedules := s.schedules ++ [newSchedule user g functionId body next] }
  | updateSchedule {id : Uuid} {g : Given} {body : ScheduleUpdate} {next : Option Time}
      (hbody : c.acceptsScheduleUpdate body = true) (hnext : body.nextRun c.api g = some next) :
      Step c s (.updateSchedule id g body) (s.editSchedule id (touchSchedule g.now (body.edit next)))
  | deleteSchedules {deleted : Schedule → Bool} :
      Step c s (.deleteSchedules deleted) { s with schedules := s.schedules.filter fun row => !deleted row }
  | trigger {q : Q} {user : Uuid} {g : Given} {fn : Function} {version : FunctionVersion}
      {body : ExecutionTrigger} {p : Platform W Q} (hbody : acceptsTrigger c.codec body = true)
      (hversion : version ∈ s.versions)
      (hstep : Platform.Step s.platform (.create q .trigger (newFunctionExecution user g fn version none
        body.payload (body.timeoutOr version.timeout))) p) :
      Step c s (.trigger q user g fn version body) { s with platform := p }
  | invoke {q : Q} {key : ApiKey} {g : Given} {fn : Function} {version : FunctionVersion} {payload : Json}
      {p : Platform W Q} (hbody : acceptsInvoke payload = true) (hversion : version ∈ s.versions)
      (hstep : Platform.Step s.platform (.create q .invoke (newFunctionExecution key.ownerId g fn version
        (some key.id) payload version.timeout)) p) :
      Step c s (.invoke q key g fn version payload) { s with platform := p }
  | ephemeral {q : Q} {key : ApiKey} {g : Given} {body : EphemeralExecution} {p : Platform W Q}
      (hbody : acceptsEphemeral c.platform c.codec body = true)
      (hstep : Platform.Step s.platform (.create q .ephemeral (newEphemeralExecution key g body)) p) :
      Step c s (.ephemeral q key g body) { s with platform := p }
  | refetch {r : R} {id : Uuid} {now : Time} {d : Scheduler.DueRow}
      (hrow : Scheduler.refetch now (Table.get? s.schedules id) = some d) :
      Step c s (.refetch r id now) (s.setFiring r (some (.loaded d)))
  | advance {r : R} {d : Scheduler.DueRow} {next : Time} (hr : s.firing r = some (.loaded d)) :
      Step c s (.advance r next)
        ((s.setFiring r none).editSchedule d.fresh.id (touchSchedule d.now (Scheduler.advance next)))
  | fire {r : R} {q : Q} {d : Scheduler.DueRow} {id : Uuid} {fn : Function} {version : FunctionVersion}
      {p : Platform W Q} (hr : s.firing r = some (.loaded d)) (hversion : version ∈ s.versions)
      (hstep : Platform.Step s.platform (.create q .scheduler (Scheduler.newExecution id d fn version)) p) :
      Step c s (.fire r q id fn version)
        { s.setFiring r (some (.updating d (Scheduler.newExecution id d fn version) none)) with platform := p }
  | recordRun {r : R} {d : Scheduler.DueRow} {n : NewExecution} {failure : Option Text} {next : Time}
      (hr : s.firing r = some (.updating d n failure)) :
      Step c s (.recordRun r next)
        ((s.setFiring r none).editSchedule d.fresh.id (touchSchedule d.now (Scheduler.recordRun d.now next n.id)))
  | drop {r : R} : Step c s (.drop r) (s.setFiring r none)
  | platform {a : Platform.Action W Q} {p : Platform W Q} (ha : internal a = true)
      (hstep : Platform.Step s.platform a p) : Step c s (.platform a) { s with platform := p }

end

end PyFaaS.Submissions
