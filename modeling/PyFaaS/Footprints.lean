import PyFaaS.TenantIsolation

/-!
# What the routes leave alone

Most routes write executions, logs and schedules only, or nothing at all. An observation
that looks at none of these three tables is the same behind them.
-/

namespace PyFaaS.Api
open Transactions Database

def Blind {γ : Type*} (f : Database → γ) : Prop := ∀ db executions stamps logs schedules,
  f { db with executions := executions, executionsUpdatedAt := stamps, logs := logs, schedules := schedules } = f db

def UserRequest.light : UserRequest → Bool
  | .createFunction _ _ _ | .updateFunction _ _ | .deleteFunction _ | .createVersion _ _ _ | .activateVersion _ _
  | .updateCanary _ _ | .createKey _ | .revokeKey _ => false
  | _ => true

variable {γ : Type*} {f : Database → γ} {settings : ApiSettings} {g : Given} {u functionId : Uuid} {key : ApiKey}

theorem getFunctionOr404_keeps : Keeps f (getFunctionOr404 functionId u) :=
  Keeps.bind (Keeps.bind (Keeps.query _) fun _ => Keeps.found _ _) fun _ => Keeps.query _

theorem getActiveVersionOr404_keeps (versionId : Uuid) : Keeps f (getActiveVersionOr404 functionId versionId) :=
  Keeps.bind (Keeps.query _) fun _ => Keeps.found _ _

theorem reload_keeps (loaded : FunctionResponse) : Keeps f (reload u functionId loaded) :=
  Keeps.bind getFunctionOr404_keeps fun _ => Keeps.pure _

theorem findExecutionOr404_keeps (executionId : Uuid) : Keeps f (findExecutionOr404 u executionId) :=
  Keeps.bind (Keeps.query _) fun _ => Keeps.found _ _

theorem findScheduleOr404_keeps (scheduleId : Uuid) : Keeps f (findScheduleOr404 u scheduleId) :=
  Keeps.bind (Keeps.query _) fun _ => Keeps.found _ _

theorem logsOf_keeps (executionId : Uuid) (p : Page) : Keeps f (logsOf executionId p) :=
  Keeps.bind (Keeps.query _) fun _ => Keeps.pure _

namespace Blind
variable (hf : Blind f)
include hf

theorem commitEdit (id : Uuid) (edit : Edit) (now : Time) (db : Database) : f (commitEdit id edit now db) = f db :=
  hf db _ _ _ _

theorem submit (origin : Execution.Origin) (n : NewExecution) : Keeps f (submit g origin n) := by
  unfold Api.submit
  refine Keeps.bind (Keeps.write fun db => hf db _ _ _ _) fun _ => ?_
  cases g.enqueueFails with
  | none => exact Keeps.pure _
  | some exc => exact Keeps.bind (Keeps.write fun db => hf db _ _ _ _) fun _ => Keeps.pure _

theorem awaitTerminal {id : Uuid} (edits : List (Edit × Time)) (e : Execution) :
    Keeps f (awaitTerminal id edits e) := by
  induction edits generalizing e with
  | nil => exact Keeps.pure _
  | cons edit rest ih =>
    unfold Api.awaitTerminal
    refine Keeps.bind (Keeps.write fun db => hf.commitEdit id edit.1 edit.2 db) fun _ =>
      Keeps.bind (Keeps.query _) fun _ => Keeps.bind (Keeps.found _ _) fun fresh => ?_
    by_cases hterminal : fresh.status.terminal = true
    · simp only [hterminal, if_true]
      exact Keeps.pure _
    · simp only [hterminal]
      exact ih fresh

theorem cancelExecution (executionId : Uuid) : Keeps f (cancelExecution u g executionId) := by
  unfold Api.cancelExecution
  refine Keeps.bind (findExecutionOr404_keeps executionId) fun execution => ?_
  cases execution.cancelExecution with
  | error err => exact Keeps.abort _
  | ok cancelled => exact Keeps.bind (Keeps.write fun db => hf db _ _ _ _) fun _ => Keeps.pure _

theorem light {r : UserRequest} (hlight : r.light = true) : Keeps f (r.handle settings g u) := by
  cases r with
  | createFunction | updateFunction | deleteFunction | createVersion | activateVersion | updateCanary | createKey
  | revokeKey => cases hlight
  | listFunctions p statusFilter =>
    exact Keeps.bind (Keeps.query _) fun _ => Keeps.bind (Keeps.query _) fun _ => Keeps.pure _
  | getFunction functionId => exact Keeps.bind getFunctionOr404_keeps fun _ => Keeps.pure _
  | listVersions functionId =>
    exact Keeps.bind getFunctionOr404_keeps fun _ => Keeps.bind (Keeps.query _) fun _ => Keeps.pure _
  | getVersion functionId versionId =>
    exact Keeps.bind getFunctionOr404_keeps fun _ => Keeps.bind (Keeps.query _) fun _ =>
      Keeps.bind (Keeps.found _ _) fun _ => Keeps.pure _
  | listActivations functionId =>
    exact Keeps.bind getFunctionOr404_keeps fun _ => Keeps.bind (Keeps.query _) fun _ => Keeps.pure _
  | triggerExecution functionId body =>
    exact Keeps.bind (Keeps.bind (Keeps.query _) fun _ => Keeps.found _ _) fun _ => Keeps.bind (Keeps.query _) fun _ =>
      Keeps.bind (Keeps.found _ _) fun _ => Keeps.bind (hf.submit _ _) fun _ => Keeps.pure _
  | listExecutions p filter =>
    exact Keeps.bind (Keeps.query _) fun _ => Keeps.bind (Keeps.found _ _) fun _ => Keeps.pure _
  | getExecution executionId =>
    exact Keeps.bind (findExecutionOr404_keeps _) fun _ => Keeps.bind (Keeps.found _ _) fun _ => Keeps.pure _
  | getExecutionLogs executionId p => exact Keeps.bind (findExecutionOr404_keeps _) fun _ => logsOf_keeps _ _
  | cancelExecution executionId => exact hf.cancelExecution executionId
  | listSchedules p => exact Keeps.bind (Keeps.query _) fun _ => Keeps.pure _
  | createSchedule functionId body =>
    exact Keeps.bind (Keeps.bind (Keeps.query _) fun _ => Keeps.found _ _) fun _ =>
      Keeps.bind (Keeps.found _ _) fun _ => Keeps.bind (Keeps.write fun db => hf db _ _ _ _) fun _ => Keeps.pure _
  | getSchedule scheduleId => exact Keeps.bind (findScheduleOr404_keeps _) fun _ => Keeps.pure _
  | updateSchedule scheduleId body =>
    exact Keeps.bind (findScheduleOr404_keeps _) fun _ => Keeps.bind (Keeps.found _ _) fun _ =>
      Keeps.bind (Keeps.write fun db => hf db _ _ _ _) fun _ => Keeps.pure _
  | deleteSchedule scheduleId =>
    exact Keeps.bind (findScheduleOr404_keeps _) fun _ => Keeps.bind (Keeps.write fun db => hf db _ _ _ _) fun _ =>
      Keeps.pure _
  | listKeys => exact Keeps.bind (Keeps.query _) fun _ => Keeps.pure _

theorem invoke (r : InvokeRequest) : Keeps f (r.handle g key) := by
  have hfind : ∀ executionId, Keeps f (findInvokedExecutionOr404 key executionId) := fun _ =>
    Keeps.bind (Keeps.query _) fun _ => Keeps.found _ _
  cases r with
  | listInvokableFunctions =>
    exact Keeps.bind (Keeps.query _) fun _ => Keeps.bind (Keeps.require _ _) fun _ =>
      Keeps.bind (Keeps.query _) fun _ => Keeps.pure _
  | getInvokedExecution executionId =>
    exact Keeps.bind (hfind _) fun _ => Keeps.bind (Keeps.found _ _) fun _ => Keeps.pure _
  | getInvokedExecutionLogs executionId p => exact Keeps.bind (hfind _) fun _ => logsOf_keeps _ _
  | invokeFunction functionId payload wait =>
    exact Keeps.bind (Keeps.bind (Keeps.query _) fun _ => Keeps.found _ _) fun _ => Keeps.bind (Keeps.query _) fun _ =>
      Keeps.bind (Keeps.found _ _) fun _ => Keeps.bind (hf.submit _ _) fun _ =>
        Keeps.bind (hf.awaitTerminal _ _) fun _ => Keeps.pure _

end Blind
end PyFaaS.Api
