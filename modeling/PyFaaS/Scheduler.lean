import Mathlib.Tactic.Simps.Basic
import PyFaaS.DistributedLock
import PyFaaS.Registry
import PyFaaS.Runs
import PyFaaS.SortedSet

/-!
# Scheduler replicas over one lock key

`Scheduler._tick`, `_process_due_schedules` and `_fire_schedule` cut at their
await points. A replica that is firing holds the schedule row it has re-read; the
insert of the execution and the advance of the schedule are two commits. Any
await may raise, any replica may crash, the lock key may expire at any time, and
the router may rewrite functions and versions between two steps.
-/

namespace PyFaaS

structure SchedulerSettings where
  pollInterval : ℤ
  maxMissedRuns : ℤ

namespace Scheduler
open Execution (Origin)

/-! ## One schedule -/

structure DueRow where
  now : Time
  due : Time
  fresh : Schedule
  nextRun : fresh.nextRunAt = some due
  reached : due ≤ now

def refetch (now : Time) (row : Option Schedule) : Option DueRow :=
  match row with
  | none => none
  | some fresh =>
    if fresh.status ≠ .active then none
    else match hnext : fresh.nextRunAt with
      | none => none
      | some due => if hdue : due ≤ now then some ⟨now, due, fresh, hnext, hdue⟩ else none

theorem refetch_some {now : Time} {row : Option Schedule} {d : DueRow}
    (h : refetch now row = some d) : row = some d.fresh := by
  unfold refetch at h
  split at h
  · cases h
  · split_ifs at h
    split at h
    · cases h
    · split_ifs at h
      obtain rfl := Option.some.inj h
      rfl

def dueSchedules (now : Time) (schedules : List Schedule) : List Uuid :=
  (schedules.filter fun s => decide (s.status = .active) &&
    s.nextRunAt.any fun due => decide (due ≤ now)).map Schedule.id

def missedTooMany (settings : SchedulerSettings) (d : DueRow) : Bool :=
  decide (d.due < d.now) &&
    decide (settings.pollInterval * settings.maxMissedRuns * 1000000 < d.now - d.due)

def route (settings : SchedulerSettings) (functions : List Function) (versions : List FunctionVersion)
    (draw : ℕ) (d : DueRow) : Option (Function × FunctionVersion) :=
  match Table.get? functions d.fresh.functionId with
  | none => none
  | some fn =>
    match chooseExecutionVersion versions fn draw none with
    | none => none
    | some version => if missedTooMany settings d then none else some (fn, version)

def newExecution (id : Uuid) (d : DueRow) (fn : Function) (version : FunctionVersion) :
    NewExecution where
  id := id
  functionId := some fn.id
  functionVersionId := some version.id
  triggeredBy := none
  apiKeyId := none
  executionType := .function
  scheduleId := some d.fresh.id
  payload := d.fresh.payload
  now := d.now
  timeout := version.timeout
  artifactPath := some version.artifactPath
  entrypoint := version.entrypoint
  environment := version.environment
  memoryMb := version.memoryMb
  sourceCode := none

def advance (next : Time) (s : Schedule) : Schedule := { s with nextRunAt := some next }

def recordRun (now next : Time) (execution : Uuid) (s : Schedule) : Schedule :=
  { s with lastRunAt := some now, lastExecutionId := some execution, nextRunAt := some next, missedRuns := 0 }

/-! ## Replicas -/

inductive Firing where
  | loaded (d : DueRow)
  | advancing (d : DueRow)
  | creating (d : DueRow) (fn : Function) (version : FunctionVersion)
  | enqueuing (d : DueRow) (n : NewExecution) (attempts : ℕ)
  | updating (d : DueRow) (n : NewExecution) (failure : Option Text)

namespace Firing

def dueRow : Firing → DueRow
  | .loaded d | .advancing d | .creating d _ _ | .enqueuing d _ _ | .updating d _ _ => d

def posted : Firing → Bool
  | .enqueuing _ _ _ | .updating _ _ _ => true
  | _ => false

end Firing

inductive Replica where
  | idle
  | dead
  | acquiring (token : Uuid)
  | selecting (token : Uuid)
  | looping (token : Uuid) (rest : List Uuid)
  | firing (token : Uuid) (rest : List Uuid) (f : Firing)
  | releasing (token : Uuid)

namespace Replica

def token? : Replica → Option Uuid
  | .acquiring token | .selecting token | .looping token _ | .firing token _ _
  | .releasing token => some token
  | .idle | .dead => none

def inside? : Replica → Option Uuid
  | .selecting token | .looping token _ | .firing token _ _ => some token
  | _ => none

def firing? : Replica → Option Firing
  | .firing _ _ f => some f
  | _ => none

theorem token?_of_inside? {p : Replica} {token : Uuid} (h : p.inside? = some token) :
    p.token? = some token := by
  cases p <;> first | exact h | cases h

theorem inside?_of_firing? {p : Replica} {f : Firing} (h : p.firing? = some f) :
    ∃ token, p.inside? = some token := by
  cases p <;> first | exact ⟨_, rfl⟩ | cases h

end Replica

structure Fired where
  row : Execution
  due : Time

structure State (R : Type) where
  schedules : List Schedule
  functions : List Function
  versions : List FunctionVersion
  executions : List Fired
  queue : SortedSet Job
  lock : Option Uuid
  tokens : List Uuid
  replicas : R → Replica

namespace State
variable {R : Type} [DecidableEq R]

@[simps] def setReplica (s : State R) (r : R) (p : Replica) : State R :=
  { s with replicas := Function.update s.replicas r p }

@[simps] def setLock (s : State R) (lock : Option Uuid) : State R := { s with lock := lock }

@[simps] def setQueue (s : State R) (queue : SortedSet Job) : State R := { s with queue := queue }

@[simps] def setRegistry (s : State R) (functions : List Function) (versions : List FunctionVersion) :
    State R := { s with functions := functions, versions := versions }

@[simps] def draw (s : State R) (token : Uuid) : State R := { s with tokens := token :: s.tokens }

@[simps] def editSchedule (s : State R) (id : Uuid) (f : Schedule → Schedule) : State R :=
  { s with schedules := Table.modify s.schedules id f }

@[simps] def commitExecution (s : State R) (row : Execution) (due : Time) : State R :=
  { s with executions := s.executions ++ [⟨row, due⟩] }

/-- The columns that a failed enqueue leaves to the last commit. -/
@[simps] def failExecution (s : State R) (id : Uuid) (failure : Option Text) : State R :=
  { s with executions := s.executions.map fun x =>
      match failure with
      | none => x
      | some exc => if x.row.id = id then ⟨x.row.failEnqueue .scheduler exc, x.due⟩ else x }

end State

inductive Action (R : Type) where
  | beginTick (r : R) (token : Uuid)
  | attempt (r : R)
  | attemptLost (r : R)
  | giveUp (r : R)
  | select (r : R) (now : Time)
  | refetch (r : R) (now : Time)
  | route (r : R) (draw : ℕ)
  | advance (r : R)
  | create (r : R) (id : Uuid)
  | createLost (r : R) (id : Uuid)
  | enqueue (r : R) (score : ℤ) (applied : Bool) (reply : Option Text)
  | update (r : R)
  | endLoop (r : R)
  | fireRaises (r : R)
  | tickRaises (r : R)
  | release (r : R) (applied : Bool)
  | crash (r : R)
  | restart (r : R)
  | expire
  | rewriteRegistry (functions : List Function) (versions : List FunctionVersion)

def maxAttempts : ℕ := 3

variable {R : Type} [DecidableEq R]

/-- `computeNext` is `croniter(cron_expr, base).get_next`. -/
inductive Step (settings : SchedulerSettings) (computeNext : Text → Time → Time) (s : State R) :
    Action R → State R → Prop where
  | beginTick {r : R} {token : Uuid} (hr : s.replicas r = .idle) (fresh : token ∉ s.tokens) :
      Step settings computeNext s (.beginTick r token) ((s.setReplica r (.acquiring token)).draw token)
  | attempt {r : R} {token : Uuid} (hr : s.replicas r = .acquiring token) :
      Step settings computeNext s (.attempt r)
        ((s.setReplica r (if (DistributedLock.setNx s.lock token).2 then .selecting token
          else .acquiring token)).setLock (DistributedLock.setNx s.lock token).1)
  /-- the command is applied and its reply is lost: `__aexit__` does not run -/
  | attemptLost {r : R} {token : Uuid} (hr : s.replicas r = .acquiring token) :
      Step settings computeNext s (.attemptLost r)
        ((s.setReplica r .idle).setLock (DistributedLock.setNx s.lock token).1)
  | giveUp {r : R} {token : Uuid} (hr : s.replicas r = .acquiring token) :
      Step settings computeNext s (.giveUp r) (s.setReplica r (.releasing token))
  | select {r : R} {token : Uuid} {now : Time} (hr : s.replicas r = .selecting token) :
      Step settings computeNext s (.select r now)
        (s.setReplica r (.looping token (dueSchedules now s.schedules)))
  | refetchDue {r : R} {token id : Uuid} {rest : List Uuid} {now : Time} {d : DueRow}
      (hr : s.replicas r = .looping token (id :: rest))
      (hrow : refetch now (Table.get? s.schedules id) = some d) :
      Step settings computeNext s (.refetch r now) (s.setReplica r (.firing token rest (.loaded d)))
  | refetchSkip {r : R} {token id : Uuid} {rest : List Uuid} {now : Time}
      (hr : s.replicas r = .looping token (id :: rest))
      (hrow : refetch now (Table.get? s.schedules id) = none) :
      Step settings computeNext s (.refetch r now) (s.setReplica r (.looping token rest))
  | routeRun {r : R} {token : Uuid} {rest : List Uuid} {draw : ℕ} {d : DueRow} {fn : Function}
      {version : FunctionVersion} (hr : s.replicas r = .firing token rest (.loaded d))
      (hroute : route settings s.functions s.versions draw d = some (fn, version)) :
      Step settings computeNext s (.route r draw)
        (s.setReplica r (.firing token rest (.creating d fn version)))
  | routeSkip {r : R} {token : Uuid} {rest : List Uuid} {draw : ℕ} {d : DueRow}
      (hr : s.replicas r = .firing token rest (.loaded d))
      (hroute : route settings s.functions s.versions draw d = none) :
      Step settings computeNext s (.route r draw) (s.setReplica r (.firing token rest (.advancing d)))
  | advance {r : R} {token : Uuid} {rest : List Uuid} {d : DueRow}
      (hr : s.replicas r = .firing token rest (.advancing d)) :
      Step settings computeNext s (.advance r)
        ((s.setReplica r (.looping token rest)).editSchedule d.fresh.id
          (advance (computeNext d.fresh.cronExpression d.now)))
  | create {r : R} {token id : Uuid} {rest : List Uuid} {d : DueRow} {fn : Function}
      {version : FunctionVersion} (hr : s.replicas r = .firing token rest (.creating d fn version)) :
      Step settings computeNext s (.create r id)
        ((s.setReplica r (.firing token rest (.enqueuing d (newExecution id d fn version) 0))).commitExecution
          (newExecution id d fn version).row d.due)
  /-- the insert is committed and the commit call raises -/
  | createLost {r : R} {token id : Uuid} {rest : List Uuid} {d : DueRow} {fn : Function}
      {version : FunctionVersion} (hr : s.replicas r = .firing token rest (.creating d fn version)) :
      Step settings computeNext s (.createLost r id)
        ((s.setReplica r (.looping token rest)).commitExecution (newExecution id d fn version).row d.due)
  | enqueueOk {r : R} {token : Uuid} {rest : List Uuid} {d : DueRow} {n : NewExecution} {attempts : ℕ}
      {score : ℤ} (hr : s.replicas r = .firing token rest (.enqueuing d n attempts)) :
      Step settings computeNext s (.enqueue r score true none)
        ((s.setReplica r (.firing token rest (.updating d n none))).setQueue (s.queue.zadd n.job score))
  | enqueueRaises {r : R} {token : Uuid} {rest : List Uuid} {d : DueRow} {n : NewExecution}
      {attempts : ℕ} {score : ℤ} {applied : Bool} {exc : Text}
      (hr : s.replicas r = .firing token rest (.enqueuing d n attempts)) :
      Step settings computeNext s (.enqueue r score applied (some exc))
        ((s.setReplica r (.firing token rest (if attempts + 1 < maxAttempts
            then .enqueuing d n (attempts + 1) else .updating d n (some exc)))).setQueue
          (if applied then s.queue.zadd n.job score else s.queue))
  | update {r : R} {token : Uuid} {rest : List Uuid} {d : DueRow} {n : NewExecution}
      {failure : Option Text} (hr : s.replicas r = .firing token rest (.updating d n failure)) :
      Step settings computeNext s (.update r)
        (((s.setReplica r (.looping token rest)).failExecution n.id failure).editSchedule d.fresh.id
          (recordRun d.now (computeNext d.fresh.cronExpression d.now) n.id))
  | endLoop {r : R} {token : Uuid} (hr : s.replicas r = .looping token []) :
      Step settings computeNext s (.endLoop r) (s.setReplica r (.releasing token))
  /-- the transaction of `_fire_schedule` is rolled back and the loop goes on -/
  | fireRaises {r : R} {token : Uuid} {rest : List Uuid} {f : Firing}
      (hr : s.replicas r = .firing token rest f) :
      Step settings computeNext s (.fireRaises r) (s.setReplica r (.looping token rest))
  | selectRaises {r : R} {token : Uuid} (hr : s.replicas r = .selecting token) :
      Step settings computeNext s (.tickRaises r) (s.setReplica r (.releasing token))
  | attemptRaises {r : R} {token : Uuid} (hr : s.replicas r = .acquiring token) :
      Step settings computeNext s (.tickRaises r) (s.setReplica r .idle)
  | release {r : R} {token : Uuid} {applied : Bool} (hr : s.replicas r = .releasing token) :
      Step settings computeNext s (.release r applied) ((s.setReplica r .idle).setLock
        (if applied then DistributedLock.releaseScript s.lock token else s.lock))
  | crash {r : R} : Step settings computeNext s (.crash r) (s.setReplica r .dead)
  | restart {r : R} (hr : s.replicas r = .dead) :
      Step settings computeNext s (.restart r) (s.setReplica r .idle)
  | expire : Step settings computeNext s .expire (s.setLock none)
  | rewriteRegistry {functions : List Function} {versions : List FunctionVersion} :
      Step settings computeNext s (.rewriteRegistry functions versions)
        (s.setRegistry functions versions)

def IsInitial (s : State R) : Prop :=
  s.executions = [] ∧ s.lock = none ∧ s.tokens = [] ∧ ∀ r, s.replicas r = .idle

end Scheduler
end PyFaaS
