import Mathlib.Data.List.Infix
import PyFaaS.Models
import PyFaaS.SandboxLogs

/-!
# The transactions that change an execution row

Each definition edits the in-memory row that its transaction has loaded:
`cancel_execution`, the start and the finish transaction of
`Worker._process_job`, one row of `_recover_stale_running_executions`, and the
failure branch behind `enqueue_job`. A result `none` commits nothing.
-/

namespace PyFaaS
namespace Execution
open ExecutionStatus

def cancelExecution (e : Execution) : Except TransitionError Execution :=
  e.transitionTo .cancelled

def startJob (workerId : Text) (now : Time) (e : Execution) : Option Execution :=
  if e.status = .cancelled then none
  else match e.transitionTo .running with
    | .error _ => none
    | .ok e => some { e with startedAt := some now, workerId := some workerId }

/-! ## Writing a sandbox result back -/

def contains (sub text : Text) : Bool := decide (sub <:+: text)

def newStatus (r : SandboxResult) : ExecutionStatus :=
  if r.timedOut then .timedOut else if r.success then .completed else .failed

def reportedDuration (r : SandboxResult) (elapsed : ℤ) : ℤ :=
  match r.durationMs with
  | some d => if d = 0 then elapsed else d
  | none => elapsed

/-- `error_message` is a text column. A value of another type raises, in the
classification or in the driver, and the transaction rolls back. -/
def storedError : Option Json → Option (Option Text)
  | none => some none
  | some (.str message) => some (some message)
  | some _ => none

def classifyFailure (success : Bool) (error : Option Text) : Option FailureKind :=
  if success then none
  else match error with
    | some message =>
      if contains "Sandbox error".toList message || contains "Kubernetes API".toList message ||
          contains "worker timeout".toList message then some .infra
      else some .handler
    | none => some .handler

def finishJob (r : SandboxResult) (elapsed : ℤ) (now : Time) (e : Execution) : Option Execution :=
  (storedError r.error).map fun message =>
    -- a rejected transition is swallowed and the other columns are written all the same
    let e := match e.transitionTo (newStatus r) with
      | .ok e' => e'
      | .error _ => e
    { e with
      completedAt := some now
      durationMs := some (reportedDuration r elapsed)
      result := r.result
      errorMessage := message
      failureKind := classifyFailure r.success message
      k8sJobName := r.k8sJobName }

/-- How the awaited `sandbox.execute` ends under `asyncio.wait_for`. -/
inductive SandboxOutcome where
  | returned (r : SandboxResult)
  | timeoutError
  | raised (exc : Text)

def SandboxOutcome.result (elapsed : ℤ) : SandboxOutcome → SandboxResult
  | .returned r => r
  | .timeoutError =>
    { SandboxResult.failure "Execution timed out (worker timeout)" with durationMs := some elapsed }
  | .raised exc =>
    { SandboxResult.failure "" with
      error := some (.str ("Sandbox error: ".toList ++ exc))
      durationMs := some elapsed }

def finishLogs (r : SandboxResult) (newId : ℕ → Uuid) (now : Time) (e : Execution) :
    List ExecutionLog :=
  r.logs.zipIdx.map fun entry =>
    ⟨newId entry.2, e.id, now, entry.1.level, entry.1.stream, entry.1.message, entry.2⟩

/-! ## Stale recovery -/

def isStale (grace : ℤ) (now : Time) (e : Execution) : Bool :=
  match e.startedAt with
  | some t => !decide (now - (max 1 e.timeout * 2 + grace) * 1000000 < t)
  | none => false

def recoverStale (grace : ℤ) (now : Time) (e : Execution) : Option Execution :=
  if e.status = .running ∧ isStale grace now e then
    match e.transitionTo .failed with
    | .error _ => none
    | .ok e' => some
      { e' with
        completedAt := some now
        failureKind := some .infra
        errorMessage :=
          some "Worker did not report completion before stale recovery deadline".toList
        durationMs := e.startedAt.map fun t => (now - t).tdiv 1000 }
  else none

def recoveryLog (newId : Uuid → Uuid) (now : Time) (e : Execution) : ExecutionLog :=
  ⟨newId e.id, e.id, now, "ERROR".toList, "system".toList,
    "Stale execution recovered: worker did not report completion".toList, 0⟩

/-! ## A failed enqueue -/

inductive Origin where
  | trigger
  | invoke
  | ephemeral
  | scheduler
  deriving DecidableEq, Repr

def Origin.errorMessage (exc : Text) : Origin → Text
  | .scheduler => exc
  | _ => "Failed to enqueue: ".toList ++ exc

/-- The status is assigned, not moved by `transition_to`. -/
def failEnqueue (origin : Origin) (exc : Text) (e : Execution) : Execution :=
  { e with
    status := .failed
    errorMessage := some (origin.errorMessage exc)
    failureKind := some .queue }

/-! ## What each transaction can do -/

@[simp] theorem failEnqueue_status (origin : Origin) (exc : Text) (e : Execution) :
    (e.failEnqueue origin exc).status = .failed := rfl

theorem failEnqueue_sameRequest (origin : Origin) (exc : Text) (e : Execution) :
    SameRequest e (e.failEnqueue origin exc) := .refl e

theorem cancelExecution_ok {e e' : Execution} :
    e.cancelExecution = .ok e' ↔
      .cancelled ∈ e.status.validTransitions ∧ e' = { e with status := .cancelled } :=
  transitionTo_ok

theorem startJob_some {workerId : Text} {now : Time} {e e' : Execution} :
    e.startJob workerId now = some e' ↔ e.status = .queued ∧
      e' = { e with status := .running, startedAt := some now, workerId := some workerId } := by
  unfold startJob
  cases h : e.transitionTo .running with
  | ok e₁ =>
    obtain ⟨hmem, rfl⟩ := transitionTo_ok.mp h
    have hq : e.status = .queued := mem_running.mp hmem
    simp [hq, eq_comm]
  | error err =>
    have hq : e.status ≠ .queued := fun hq => transitionTo_error h (mem_running.mpr hq)
    simp [hq]

theorem finishJob_some {r : SandboxResult} {elapsed : ℤ} {now : Time} {e e' : Execution}
    (h : e.finishJob r elapsed now = some e') :
    SameRequest e e' ∧ (e'.status = e.status ∨
      newStatus r ∈ e.status.validTransitions ∧ e'.status = newStatus r) := by
  obtain ⟨message, -, rfl⟩ := Option.map_eq_some_iff.mp h
  cases ht : e.transitionTo (newStatus r) with
  | ok e₁ =>
    obtain ⟨hmem, rfl⟩ := transitionTo_ok.mp ht
    exact ⟨SameRequest.refl e, Or.inr ⟨hmem, rfl⟩⟩
  | error err => exact ⟨SameRequest.refl e, Or.inl rfl⟩

theorem newStatus_ne_queued (r : SandboxResult) : newStatus r ≠ .queued := by
  unfold newStatus
  split_ifs
  · decide
  · decide
  · decide

theorem finishJob_status {r : SandboxResult} {elapsed : ℤ} {now : Time} {e e' : Execution}
    (h : e.finishJob r elapsed now = some e') (hs : newStatus r ∈ e.status.validTransitions) :
    e'.status = newStatus r := by
  rcases (finishJob_some h).2 with hk | ⟨-, hk⟩
  · obtain ⟨message, -, rfl⟩ := Option.map_eq_some_iff.mp h
    rw [transitionTo_of_mem hs]
  · exact hk

theorem newStatus_completed_iff {r : SandboxResult} :
    newStatus r = .completed ↔ r.timedOut = false ∧ r.success = true := by
  unfold newStatus
  split_ifs with ht hs
  · simp [ht]
  · simp [ht, hs]
  · simp [ht, hs]

theorem recoverStale_some {grace : ℤ} {now : Time} {e e' : Execution}
    (h : e.recoverStale grace now = some e') :
    e.status = .running ∧ isStale grace now e = true ∧ SameRequest e e' ∧
      e'.status = .failed := by
  unfold recoverStale at h
  split_ifs at h with hrun
  cases ht : e.transitionTo .failed with
  | ok e₁ =>
    obtain ⟨-, rfl⟩ := transitionTo_ok.mp ht
    simp only [ht, Option.some.injEq] at h
    subst h
    exact ⟨hrun.1, hrun.2, SameRequest.refl e, rfl⟩
  | error err => simp [ht] at h

theorem startJob_sameRequest {workerId : Text} {now : Time} {e e' : Execution}
    (h : e.startJob workerId now = some e') : SameRequest e e' := by
  obtain ⟨-, rfl⟩ := startJob_some.mp h
  exact SameRequest.refl e

theorem cancelExecution_sameRequest {e e' : Execution} (h : e.cancelExecution = .ok e') :
    SameRequest e e' := by
  obtain ⟨-, rfl⟩ := cancelExecution_ok.mp h
  exact SameRequest.refl e

end Execution
end PyFaaS
