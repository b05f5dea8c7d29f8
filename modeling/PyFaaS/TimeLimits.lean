import PyFaaS.ExecutionTable
import PyFaaS.ResultProtocol
import PyFaaS.Sandbox

/-!
# Time limits

Five guards can end a run. The subprocess wait, the `DeadlineExceeded` condition
and the deadline of `_wait_for_job` set `timed_out`; the alarm of the runner only
shows in its report and its exit code, and the `wait_for` of the worker builds a
result without the flag.
-/

namespace PyFaaS.Sandbox
open Runner SandboxLogs

inductive Guard where
  | alarm
  | localWait
  | deadlineExceeded
  | jobDeadline
  | workerWait
  deriving DecidableEq

def Guard.flagged : Guard → Bool
  | .localWait | .deadlineExceeded | .jobDeadline => true
  | .alarm | .workerWait => false

def AlarmReported (codec : JsonCodec) (env : Environment) (w : World) : Prop :=
  ∃ c r, (main codec env w).report = some (c, r) ∧ r.get? "timed_out".toList = some (.bool true)

inductive EndedBy (codec : JsonCodec) : JobRun → Guard → Prop where
  | alarmLocal {env : Environment} {w : World} (h : AlarmReported codec env w) :
      EndedBy codec (.local (.exited (processStatus codec env w) (processOutput codec env w))) .alarm
  | alarmJob {env : Environment} {w : World} {c : Cluster} {jobName : Text} {job : JobStatus}
      (h : AlarmReported codec env w) (hlogs : c.podLogs = some (processOutput codec env w))
      (hcreate : c.createJob = .ok ()) (hpolls : EndsWith c.polls job) (hs : job.succeeded = 0)
      (hf : job.failed ≠ 0) (hd : Sandbox.deadlineExceeded job = false) :
      EndedBy codec (.kubernetes c jobName) .alarm
  | localWait {output : Text} : EndedBy codec (.local (.timedOut output)) .localWait
  | deadlineExceeded {c : Cluster} {jobName : Text} {job : JobStatus} (hcreate : c.createJob = .ok ())
      (hpolls : EndsWith c.polls job) (hs : job.succeeded = 0) (hf : job.failed ≠ 0)
      (hd : Sandbox.deadlineExceeded job = true) :
      EndedBy codec (.kubernetes c jobName) .deadlineExceeded
  | jobDeadline {c : Cluster} {jobName : Text} (hcreate : c.createJob = .ok ())
      (hpolls : ∀ poll ∈ c.polls, Unfinished poll) : EndedBy codec (.kubernetes c jobName) .jobDeadline
  | workerWait : EndedBy codec .workerTimeout .workerWait

variable {codec : JsonCodec} {run : JobRun} {g : Guard} {elapsed now : ℤ} {e e' : Execution}

theorem kubernetesExecute_failed {c : Cluster} {job : JobStatus} (hcreate : c.createJob = .ok ())
    (hpolls : EndsWith c.polls job) (hs : job.succeeded = 0) (hf : job.failed ≠ 0) (jobName : Text) :
    kubernetesExecute codec c jobName elapsed =
      .ok { classifyFailedJob c job (getPodLogs c) with
        k8sJobName := some jobName, durationMs := some elapsed } := by
  unfold kubernetesExecute
  rw [hcreate]
  simp only [Except.bind, waitForJob_failed hpolls hs hf]

theorem outcome_timedOut (h : EndedBy codec run g) :
    ((run.outcome codec elapsed).result elapsed).timedOut = g.flagged := by
  cases h with
  | @alarmLocal env w halarm =>
    cases hparse : parseResultFromLogs codec (processOutput codec env w) with
    | error exc =>
      simp only [JobRun.outcome, dockerLocalExecute_raises hparse]
      rfl
    | ok parsed =>
      simp only [JobRun.outcome, dockerLocalExecute_exited hparse]
      rfl
  | alarmJob halarm hlogs hcreate hpolls hs hf hd =>
    simp only [JobRun.outcome, kubernetesExecute_failed hcreate hpolls hs hf]
    exact hd
  | localWait => rfl
  | deadlineExceeded hcreate hpolls hs hf hd =>
    simp only [JobRun.outcome, kubernetesExecute_failed hcreate hpolls hs hf]
    exact hd
  | jobDeadline hcreate hpolls =>
    simp only [JobRun.outcome, kubernetesExecute, hcreate, Except.bind, waitForJob_deadline hpolls]
    rfl
  | workerWait => rfl

/-- A run that a time limit ended is recorded as timed out exactly if the guard
is the subprocess wait, the Job condition or the deadline of `_wait_for_job`. -/
theorem timed_out_recorded_iff (hrun : EndedBy codec run g) (he : e.status = .running)
    (h : run.finish codec elapsed now e = some e') :
    e'.status = .timedOut ↔ g.flagged = true := by
  have hflagged : ((run.outcome codec elapsed).result elapsed).timedOut = g.flagged := outcome_timedOut hrun
  rw [finish_status he h, ← hflagged]
  unfold Execution.newStatus
  split_ifs with ht hs
  · simp [ht]
  · simp [ht]
  · simp [ht]

theorem timed_out_recorded_subprocess :
    ∃ e', JobRun.finish sampleCodec 35000 5 (.local (.timedOut [])) runningRow = some e' ∧
      e'.status = .timedOut := by
  have hfinish : ∃ e', JobRun.finish sampleCodec 35000 5 (.local (.timedOut [])) runningRow = some e' :=
    ⟨_, rfl⟩
  obtain ⟨e', he'⟩ := hfinish
  exact ⟨e', he', (timed_out_recorded_iff .localWait rfl he').mpr rfl⟩

/-- The alarm of the runner under the subprocess of the worker: the row fails. -/
theorem alarm_recorded_failed :
    ¬ ∀ (codec : JsonCodec) (run : JobRun) (g : Guard) (elapsed now : ℤ) (e e' : Execution),
      EndedBy codec run g → e.status = .running → run.finish codec elapsed now e = some e' →
        e'.status = .timedOut := by
  intro hclaim
  have halarm : AlarmReported sampleCodec sampleEnvironment (sampleWorld ⟨[], .raised alarmRaised⟩) :=
    ⟨_, _, rfl, rfl⟩
  have hfinish : ((JobRun.local (.exited
      (processStatus sampleCodec sampleEnvironment (sampleWorld ⟨[], .raised alarmRaised⟩))
      (processOutput sampleCodec sampleEnvironment (sampleWorld ⟨[], .raised alarmRaised⟩)))).finish
        sampleCodec 30000 5 runningRow).map Execution.status = some .failed := by
    decide +kernel
  obtain ⟨e', he', hstatus⟩ := Option.map_eq_some_iff.mp hfinish
  have htimed := hclaim _ _ _ _ _ _ e' (.alarmLocal halarm) rfl he'
  rw [hstatus] at htimed
  exact absurd htimed (by decide)

end PyFaaS.Sandbox
