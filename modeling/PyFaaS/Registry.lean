import PyFaaS.ExecutionTable
import PyFaaS.Tables

/-!
# Functions, versions, schedules and keys

The remaining tables of `shared/db/models.py` that the routers and the scheduler
read, and `choose_execution_version`, which picks the version an execution runs.
-/

namespace PyFaaS

inductive FunctionStatus where
  | active
  | inactive
  | deprecated
  deriving DecidableEq, Repr

inductive ScheduleStatus where
  | active
  | paused
  | deleted
  deriving DecidableEq, Repr

structure Function where
  id : Uuid
  ownerId : Uuid
  name : Text
  description : Option Text
  runtime : Text
  status : FunctionStatus
  activeVersionId : Option Uuid
  canaryVersionId : Option Uuid
  canaryPercent : ℕ
  tags : Json
  createdAt : Time
  updatedAt : Time
  deriving DecidableEq, Repr

structure FunctionVersion where
  id : Uuid
  functionId : Uuid
  versionNumber : ℕ
  entrypoint : Text
  artifactPath : Text
  artifactHash : Text
  artifactSize : ℕ
  environment : Json
  timeout : ℕ
  memoryMb : ℕ
  isActive : Bool
  changeNotes : Option Text
  createdAt : Time
  deriving DecidableEq, Repr

structure VersionActivation where
  id : Uuid
  functionId : Uuid
  actorId : Option Uuid
  previousVersionId : Option Uuid
  activatedVersionId : Option Uuid
  canaryVersionId : Option Uuid
  canaryPercent : ℕ
  action : Text
  createdAt : Time
  deriving DecidableEq, Repr

structure Schedule where
  id : Uuid
  functionId : Uuid
  ownerId : Uuid
  name : Text
  cronExpression : Text
  payload : Json
  status : ScheduleStatus
  nextRunAt : Option Time
  lastRunAt : Option Time
  lastExecutionId : Option Uuid
  missedRuns : ℕ
  createdAt : Time
  updatedAt : Time
  deriving DecidableEq, Repr

structure ApiKey where
  id : Uuid
  ownerId : Uuid
  name : Text
  keyHash : Text
  keyPrefix : Text
  revokedAt : Option Time
  lastUsedAt : Option Time
  createdAt : Time
  deriving DecidableEq, Repr

instance : Keyed Function Uuid := ⟨Function.id⟩
instance : Keyed FunctionVersion Uuid := ⟨FunctionVersion.id⟩
instance : Keyed VersionActivation Uuid := ⟨VersionActivation.id⟩
instance : Keyed Schedule Uuid := ⟨Schedule.id⟩
instance : Keyed ApiKey Uuid := ⟨ApiKey.id⟩
instance : Keyed Execution Uuid := ⟨Execution.id⟩

/-- `draw` is what `secrets.randbelow(100)` returns. -/
def chooseExecutionVersion (versions : List FunctionVersion) (fn : Function) (draw : ℕ)
    (explicitVersionId : Option Uuid) : Option FunctionVersion :=
  let versionId : Option Uuid :=
    match explicitVersionId with
    | some v => some v
    | none =>
      if fn.canaryVersionId.isSome && decide (0 < fn.canaryPercent) &&
          (decide (100 ≤ fn.canaryPercent) || decide (draw < fn.canaryPercent)) then
        fn.canaryVersionId
      else fn.activeVersionId
  match versionId with
  | none => none
  | some v => versions.find? fun version =>
      decide (version.id = v) && decide (version.functionId = fn.id) && version.isActive

theorem chooseExecutionVersion_mem {versions : List FunctionVersion} {fn : Function} {draw : ℕ}
    {explicitVersionId : Option Uuid} {version : FunctionVersion}
    (h : chooseExecutionVersion versions fn draw explicitVersionId = some version) :
    version ∈ versions ∧ version.functionId = fn.id := by
  unfold chooseExecutionVersion at h
  simp only at h
  split at h
  · cases h
  · have hprop := List.find?_some h
    simp only [Bool.and_eq_true, decide_eq_true_eq] at hprop
    exact ⟨List.mem_of_find?_eq_some h, hprop.1.2⟩

end PyFaaS
