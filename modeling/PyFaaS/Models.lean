import PyFaaS.JsonValue

/-!
# Execution rows and their state machine

The `executions` and `execution_logs` tables of `shared/db/models.py`, the
transition table and the check made on an in-memory row. `flush` is the update
the session emits for an edited row: only the columns that differ from what was
loaded reach the committed row.
-/

namespace PyFaaS

abbrev Uuid := ℕ

/-- Microseconds. -/
abbrev Time := ℤ

inductive ExecutionStatus where
  | pending
  | queued
  | running
  | completed
  | failed
  | timedOut
  | cancelled
  deriving DecidableEq, Repr

namespace ExecutionStatus

def validTransitions : ExecutionStatus → List ExecutionStatus
  | .pending => [.queued, .cancelled]
  | .queued => [.running, .cancelled, .failed]
  | .running => [.completed, .failed, .timedOut, .cancelled]
  | .completed => []
  | .failed => []
  | .timedOut => []
  | .cancelled => []

structure TransitionError where
  current : ExecutionStatus
  next : ExecutionStatus
  allowed : List ExecutionStatus
  deriving DecidableEq, Repr

def validateTransition (current next : ExecutionStatus) : Except TransitionError Unit :=
  if next ∈ current.validTransitions then .ok () else .error ⟨current, next, current.validTransitions⟩

def terminal : ExecutionStatus → Bool
  | .completed | .failed | .timedOut | .cancelled => true
  | _ => false

theorem validTransitions_eq_nil {s : ExecutionStatus} :
    s.validTransitions = [] ↔ s.terminal = true := by
  cases s <;> simp [validTransitions, terminal]

theorem mem_running {s : ExecutionStatus} : .running ∈ s.validTransitions ↔ s = .queued := by
  cases s <;> simp [validTransitions]

end ExecutionStatus

inductive ExecutionType where
  | function
  | ephemeral
  deriving DecidableEq, Repr

inductive FailureKind where
  | queue
  | infra
  | handler
  deriving DecidableEq, Repr

structure Execution where
  id : Uuid
  functionId : Option Uuid
  functionVersionId : Option Uuid
  triggeredBy : Option Uuid
  apiKeyId : Option Uuid
  executionType : ExecutionType
  scheduleId : Option Uuid
  status : ExecutionStatus
  payload : Json
  result : Option Json
  errorMessage : Option Text
  failureKind : Option FailureKind
  workerId : Option Text
  k8sJobName : Option Text
  queuedAt : Option Time
  startedAt : Option Time
  completedAt : Option Time
  durationMs : Option ℤ
  attemptNumber : ℕ
  timeout : ℕ
  createdAt : Time
  deriving DecidableEq, Repr

structure ExecutionLog where
  id : Uuid
  executionId : Uuid
  timestamp : Time
  level : Text
  stream : Text
  message : Text
  sequence : ℕ
  deriving DecidableEq, Repr

namespace Execution

def transitionTo (e : Execution) (newStatus : ExecutionStatus) :
    Except ExecutionStatus.TransitionError Execution :=
  match ExecutionStatus.validateTransition e.status newStatus with
  | .ok () => .ok { e with status := newStatus }
  | .error err => .error err

theorem transitionTo_ok {e e' : Execution} {s : ExecutionStatus} :
    e.transitionTo s = .ok e' ↔ s ∈ e.status.validTransitions ∧ e' = { e with status := s } := by
  unfold transitionTo ExecutionStatus.validateTransition
  split_ifs with h
  · simp [h, eq_comm]
  · simp [h]

theorem transitionTo_of_mem {e : Execution} {s : ExecutionStatus}
    (h : s ∈ e.status.validTransitions) : e.transitionTo s = .ok { e with status := s } :=
  transitionTo_ok.mpr ⟨h, rfl⟩

theorem transitionTo_error {e : Execution} {s : ExecutionStatus}
    {err : ExecutionStatus.TransitionError} (h : e.transitionTo s = .error err) :
    s ∉ e.status.validTransitions := by
  intro hs
  rw [transitionTo_of_mem hs] at h
  cases h

/-- A column goes into the UPDATE only when the edit changed it. -/
def column {β : Type*} [DecidableEq β] (loaded edited committed : β) : β :=
  if edited = loaded then committed else edited

@[simp] theorem column_same {β : Type*} [DecidableEq β] (loaded edited : β) :
    column loaded edited loaded = edited := by
  unfold column
  split_ifs with h
  · exact h.symm
  · rfl

@[simp] theorem column_unchanged {β : Type*} [DecidableEq β] (loaded committed : β) :
    column loaded loaded committed = committed := by
  simp [column]

theorem column_changed {β : Type*} [DecidableEq β] {loaded edited : β} (committed : β)
    (h : edited ≠ loaded) : column loaded edited committed = edited := by
  simp [column, h]

/-- The committed row after the session has flushed `edited`, which it had
loaded as `loaded`. The identity and the request columns are never edited. -/
def flush (loaded edited committed : Execution) : Execution :=
  { committed with
    status := column loaded.status edited.status committed.status
    result := column loaded.result edited.result committed.result
    errorMessage := column loaded.errorMessage edited.errorMessage committed.errorMessage
    failureKind := column loaded.failureKind edited.failureKind committed.failureKind
    workerId := column loaded.workerId edited.workerId committed.workerId
    k8sJobName := column loaded.k8sJobName edited.k8sJobName committed.k8sJobName
    startedAt := column loaded.startedAt edited.startedAt committed.startedAt
    completedAt := column loaded.completedAt edited.completedAt committed.completedAt
    durationMs := column loaded.durationMs edited.durationMs committed.durationMs }

@[simp] theorem flush_id (loaded edited committed : Execution) :
    (flush loaded edited committed).id = committed.id := rfl

@[simp] theorem flush_status (loaded edited committed : Execution) :
    (flush loaded edited committed).status =
      column loaded.status edited.status committed.status := rfl

def SameRequest (e e' : Execution) : Prop :=
  e'.id = e.id ∧ e'.functionId = e.functionId ∧ e'.functionVersionId = e.functionVersionId ∧
    e'.triggeredBy = e.triggeredBy ∧ e'.apiKeyId = e.apiKeyId ∧
    e'.executionType = e.executionType ∧ e'.scheduleId = e.scheduleId ∧
    e'.payload = e.payload ∧ e'.queuedAt = e.queuedAt ∧ e'.attemptNumber = e.attemptNumber ∧
    e'.timeout = e.timeout ∧ e'.createdAt = e.createdAt

theorem SameRequest.refl (e : Execution) : SameRequest e e := by
  simp [SameRequest]

theorem flush_self {loaded edited : Execution} (h : SameRequest loaded edited) :
    flush loaded edited loaded = edited := by
  obtain ⟨h1, h2, h3, h4, h5, h6, h7, h8, h9, h10, h11, h12⟩ := h
  cases loaded
  cases edited
  simp_all [flush]

end Execution
end PyFaaS
