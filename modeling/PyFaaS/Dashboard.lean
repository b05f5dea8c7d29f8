import Mathlib.Data.List.Dedup
import PyFaaS.Api

/-!
# The dashboard

`api/services/dashboard_service.py` and the route of `api/routers/dashboard.py`
that puts its answers together. The clock, Redis and the numeric functions of
PostgreSQL and Python are given.
-/

namespace PyFaaS.Dashboard
open Api Database

inductive Health where
  | healthy
  | degraded
  | unhealthy
  deriving DecidableEq

/-- What the clock, Redis and a `SELECT 1` answer during one request; `none` where
the client raises. -/
structure Readings where
  overviewAt : Time
  healthAt : Time
  metricsAt : Time
  answeredAt : Time
  queueDepth : Option ℕ
  workerKeys : Option (List Text)
  poolKeys : Option (List Text)
  redisAnswers : Bool
  postgresAnswers : Bool

/-- Rounded figures: `percentage part total` of the two counts, and `AVG` and
`PERCENTILE_CONT` of the durations. -/
structure Numerics (ρ : Type) where
  zero : ρ
  percentage : ℕ → ℕ → ρ
  average : List ℤ → ρ
  percentile : ℕ → List ℤ → ρ

def second : Time := 1000000

def day : Time := 24 * 3600 * second

/-! ## Overview -/

structure Overview where
  activeFunctions : ℕ
  runningExecutions : ℕ
  successfulExecutions24h : ℕ
  failedExecutions24h : ℕ
  queueDepth : ℤ
  activeWorkers : ℕ
  deriving DecidableEq

def failed (s : ExecutionStatus) : Bool := decide (s = .failed) || decide (s = .timedOut)

def unfinished (s : ExecutionStatus) : Bool :=
  decide (s = .running) || decide (s = .queued) || decide (s = .pending)

def getOverview (r : Readings) (db : Database) : Overview :=
  let since := r.overviewAt - day
  let rows := db.executions.filter fun e => decide (since ≤ e.createdAt) || unfinished e.status
  { activeFunctions := db.functions.countP fun f => decide (f.status = .active)
    runningExecutions := rows.countP fun e => decide (e.status = .running)
    successfulExecutions24h := rows.countP fun e => decide (e.status = .completed) && decide (since ≤ e.createdAt)
    failedExecutions24h := rows.countP fun e => failed e.status && decide (since ≤ e.createdAt)
    queueDepth := match r.queueDepth with
      | some depth => depth
      | none => -1
    activeWorkers := (r.workerKeys.getD []).length }

/-! ## Health checks -/

structure Components where
  api : Health
  postgres : Health
  redis : Health
  minio : Health
  kubernetes : Health
  runnerPool : Health
  deriving DecidableEq

def Components.values (c : Components) : List Health :=
  [c.api, c.postgres, c.redis, c.minio, c.kubernetes, c.runnerPool]

structure HealthReport where
  overall : Health
  components : Components
  timestamp : Time
  deriving DecidableEq

def checkRunnerPool : Option (List Text) → Health
  | none => .unhealthy
  | some keys => if keys.length = 0 then .degraded else .healthy

def getHealth (r : Readings) : HealthReport :=
  let components : Components :=
    { api := .healthy
      postgres := if r.postgresAnswers then .healthy else .unhealthy
      redis := if r.redisAnswers then .healthy else .unhealthy
      minio := .healthy
      kubernetes := .healthy
      runnerPool := checkRunnerPool r.poolKeys }
  let overall : Health :=
    if Health.unhealthy ∈ components.values then .unhealthy
    else if Health.degraded ∈ components.values then .degraded
    else .healthy
  ⟨overall, components, r.healthAt⟩

/-! ## Recent rows -/

structure RecentExecution where
  id : Uuid
  functionId : Option Uuid
  functionName : Option Text
  status : ExecutionStatus
  durationMs : Option ℤ
  startedAt : Option Time
  completedAt : Option Time
  createdAt : Time
  workerId : Option Text
  errorMessage : Option Text
  deriving DecidableEq

structure RecentFailure where
  id : Uuid
  functionId : Option Uuid
  functionName : Option Text
  status : ExecutionStatus
  durationMs : Option ℤ
  errorMessage : Option Text
  createdAt : Time
  completedAt : Option Time
  deriving DecidableEq

structure RecentDeployment where
  id : Uuid
  functionId : Uuid
  functionName : Option Text
  versionNumber : ℕ
  runtime : Option Text
  artifactSize : ℕ
  isActive : Bool
  createdAt : Time
  deriving DecidableEq

def withFunctions (rows : List Execution) (db : Database) : List (Execution × Option Function) :=
  Table.outerJoin (fun e f => decide (e.functionId = some f.id)) rows db.functions

def getRecentExecutions (db : Database) (limit : ℕ) : List RecentExecution :=
  ((newestFirst (fun x => x.1.createdAt) (withFunctions db.executions db)).take limit).map fun (e, fn) =>
    { id := e.id
      functionId := e.functionId
      functionName := fn.map Function.name
      status := e.status
      durationMs := e.durationMs
      startedAt := e.startedAt
      completedAt := e.completedAt
      createdAt := e.createdAt
      workerId := e.workerId
      errorMessage := e.errorMessage }

def getRecentFailures (db : Database) (limit : ℕ) : List RecentFailure :=
  let rows := db.executions.filter fun e => failed e.status
  ((newestFirst (fun x => x.1.createdAt) (withFunctions rows db)).take limit).map fun (e, fn) =>
    { id := e.id
      functionId := e.functionId
      functionName := fn.map Function.name
      status := e.status
      durationMs := e.durationMs
      errorMessage := e.errorMessage
      createdAt := e.createdAt
      completedAt := e.completedAt }

def getRecentDeployments (db : Database) (limit : ℕ) : List RecentDeployment :=
  let rows := Table.outerJoin (fun v f => decide (v.functionId = f.id)) db.versions db.functions
  ((newestFirst (fun x => x.1.createdAt) rows).take limit).map fun (v, fn) =>
    { id := v.id
      functionId := v.functionId
      functionName := fn.map Function.name
      versionNumber := v.versionNumber
      runtime := fn.map Function.runtime
      artifactSize := v.artifactSize
      isActive := v.isActive
      createdAt := v.createdAt }

/-! ## Metrics -/

structure Bucket where
  hour : Time
  total : ℕ
  completed : ℕ
  failed : ℕ
  deriving DecidableEq

structure ExecutionMetrics (ρ : Type) where
  total24h : ℕ
  completed24h : ℕ
  failed24h : ℕ
  successRate : ρ
  avgRuntimeMs : ρ
  p95RuntimeMs : ρ
  p99RuntimeMs : ρ
  hourlyTrend : List Bucket
  deriving DecidableEq

/-- `date_trunc('hour', ...)` in a database session whose time zone is UTC. -/
def hourOf (t : Time) : Time := t - t % (3600 * second)

def completedCount (rows : List Execution) : ℕ := rows.countP fun e => decide (e.status = .completed)

def failedCount (rows : List Execution) : ℕ := rows.countP fun e => failed e.status

def hourlyTrend (rows : List Execution) : List Bucket :=
  let hours := (rows.map fun e => hourOf e.createdAt).dedup.mergeSort fun a b => decide (a ≤ b)
  hours.map fun hour =>
    let bucket := rows.filter fun e => decide (hourOf e.createdAt = hour)
    ⟨hour, bucket.length, completedCount bucket, failedCount bucket⟩

variable {ρ : Type}

def getExecutionMetrics (n : Numerics ρ) (r : Readings) (db : Database) : ExecutionMetrics ρ :=
  let since := r.metricsAt - day
  let rows := db.executions.filter fun e => decide (since ≤ e.createdAt)
  let durations := rows.filterMap Execution.durationMs
  { total24h := rows.length
    completed24h := completedCount rows
    failed24h := failedCount rows
    successRate := if 0 < rows.length then n.percentage (completedCount rows) rows.length else n.zero
    avgRuntimeMs := n.average durations
    p95RuntimeMs := n.percentile 95 durations
    p99RuntimeMs := n.percentile 99 durations
    hourlyTrend := hourlyTrend rows }

/-! ## The route -/

structure Metrics (ρ : Type) where
  successRate : ρ
  avgRuntime : ρ
  executionsLast24h : List Bucket
  total24h : ℕ
  p95RuntimeMs : ρ
  p99RuntimeMs : ρ
  deriving DecidableEq

structure DashboardData (ρ : Type) where
  overview : Overview
  health : Components
  deployments : List RecentDeployment
  recentExecutions : List RecentExecution
  recentFailures : List RecentFailure
  metrics : Metrics ρ
  timestamp : Time
  deriving DecidableEq

/-- The route asks for a user and passes none on to its queries. -/
def getDashboard (n : Numerics ρ) (r : Readings) (_currentUser : Uuid) (db : Database) : DashboardData ρ :=
  let execMetrics := getExecutionMetrics n r db
  { overview := getOverview r db
    health := (getHealth r).components
    deployments := getRecentDeployments db 10
    recentExecutions := getRecentExecutions db 10
    recentFailures := getRecentFailures db 10
    metrics :=
      { successRate := execMetrics.successRate
        avgRuntime := execMetrics.avgRuntimeMs
        executionsLast24h := execMetrics.hourlyTrend
        total24h := execMetrics.total24h
        p95RuntimeMs := execMetrics.p95RuntimeMs
        p99RuntimeMs := execMetrics.p99RuntimeMs }
    timestamp := r.answeredAt }

end PyFaaS.Dashboard
