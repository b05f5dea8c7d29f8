import PyFaaS.ExecutionTransactions

/-!
# The two sandbox paths

`_docker_local_execute` and `KubernetesSandbox.execute` of `k8s_sandbox.py`. What
the subprocess and the cluster do is given: how the wait for the process ends,
and what each call to the Kubernetes API answers. The polls are those made before
the deadline of `_wait_for_job`.
-/

namespace PyFaaS.Sandbox
open TextLines SandboxLogs
open Execution (SandboxOutcome)

/-! ## The subprocess of the worker -/

inductive LocalWait where
  | notStarted (exc : Text)
  | exited (status : ℤ) (output : Text)
  | timedOut (output : Text)

/-- The text of `parsed.get("error") or "Execution failed"`. -/
def reportedError : Option Json → Json
  | some (.obj fields) =>
    match fields.lookup "error".toList with
    | some error => if error.truthy then error else .str "Execution failed".toList
    | none => .str "Execution failed".toList
  | _ => .str "Execution failed".toList

def dockerLocalExecute (codec : JsonCodec) (wait : LocalWait) (elapsed : ℤ) :
    Except Text SandboxResult :=
  match wait with
  | .notStarted exc => .error exc
  | .timedOut output => .ok
      { SandboxResult.failure "Execution timed out" with
        timedOut := true
        logs := formatLogs output
        durationMs := some elapsed }
  | .exited status output =>
    match parseResultFromLogs codec output with
    | .error exc => .error exc
    | .ok parsed => .ok
        { success := decide (status = 0)
          result := parsed
          error := if status = 0 then none else some (reportedError parsed)
          logs := formatLogs output
          durationMs := some elapsed
          timedOut := false
          k8sJobName := none }

/-! ## The Kubernetes Job -/

inductive ApiError where
  | apiException (reason : Text)
  | other (exc : Text)

structure Condition where
  type : Text
  reason : Option Text
  deriving DecidableEq

structure JobStatus where
  succeeded : ℕ
  failed : ℕ
  conditions : List Condition
  deriving DecidableEq

structure Terminated where
  reason : Option Text

structure ContainerStatus where
  terminated : Option Terminated

/-- What the cluster answers: `podLogs` is the whole output of the container, or
nothing when the logs or the pods cannot be read. -/
structure Cluster where
  createJob : Except ApiError Unit
  polls : List (Except ApiError JobStatus)
  podLogs : Option Text
  pods : Except Text (List (List ContainerStatus))

def tailLinesLimit : ℕ := 1000

def getPodLogs (c : Cluster) : Text :=
  match c.podLogs with
  | some output => tailLines tailLinesLimit output
  | none => []

def deadlineExceeded (job : JobStatus) : Bool :=
  job.conditions.any fun condition =>
    decide (condition.type = "Failed".toList) && decide (condition.reason = some "DeadlineExceeded".toList)

def terminationReason (pods : List (List ContainerStatus)) : Option Text :=
  pods.flatten.findSome? fun status =>
    match status.terminated with
    | some ⟨some reason⟩ => if reason.isEmpty then none else some reason
    | _ => none

def failureText (c : Cluster) (job : JobStatus) : Text :=
  if deadlineExceeded job then "Execution timed out".toList
  else match c.pods with
    | .error _ => "Execution failed".toList
    | .ok pods =>
      match terminationReason pods with
      | none => "Execution failed".toList
      | some reason =>
        if reason = "OOMKilled".toList then "Execution exceeded memory limit".toList
        else "Execution failed: ".toList ++ reason

def classifyFailedJob (c : Cluster) (job : JobStatus) (logs : Text) : SandboxResult where
  success := false
  result := none
  error := some (.str (failureText c job))
  logs := formatLogs logs
  durationMs := none
  timedOut := deadlineExceeded job
  k8sJobName := none

def waitForJob (codec : JsonCodec) (c : Cluster) :
    List (Except ApiError JobStatus) → Except ApiError SandboxResult
  | [] => .ok
      { SandboxResult.failure "Worker-side timeout waiting for Kubernetes Job" with timedOut := true }
  | .error err :: _ => .error err
  | .ok job :: rest =>
    if job.succeeded ≠ 0 then
      match parseResultFromLogs codec (getPodLogs c) with
      | .error exc => .error (.other exc)
      | .ok parsed => .ok
          { success := true
            result := parsed
            error := none
            logs := formatLogs (getPodLogs c)
            durationMs := none
            timedOut := false
            k8sJobName := none }
    else if job.failed ≠ 0 then .ok (classifyFailedJob c job (getPodLogs c))
    else waitForJob codec c rest

def kubernetesExecute (codec : JsonCodec) (c : Cluster) (jobName : Text) (elapsed : ℤ) :
    Except Text SandboxResult :=
  match c.createJob.bind fun _ => waitForJob codec c c.polls with
  | .ok r => .ok { r with k8sJobName := some jobName, durationMs := some elapsed }
  | .error (.other exc) => .error exc
  | .error (.apiException reason) => .ok
      { SandboxResult.failure "" with
        error := some (.str ("Kubernetes API error: ".toList ++ reason))
        durationMs := some elapsed
        k8sJobName := some jobName }

/-! ## The tail of the logs -/

theorem splitlines_tail (output : Text) :
    splitlines output = splitlines (headLines tailLinesLimit output) ++
      splitlines (tailLines tailLinesLimit output) :=
  splitlines_tailLines (by decide) output

theorem formatLogs_tail_iff (output : Text) :
    formatLogs output = formatLogs (tailLines tailLinesLimit output) ↔
      ∀ line ∈ splitlines (headLines tailLinesLimit output), isResultLine line = true := by
  unfold formatLogs
  rw [splitlines_tail output, List.filter_append, List.map_append, List.append_left_eq_self,
    List.map_eq_nil_iff, List.filter_eq_nil_iff]
  simp

/-! ## Under the worker -/

/-- One run of a job: on either path, or cut off by the `wait_for` of the worker. -/
inductive JobRun where
  | local (wait : LocalWait)
  | kubernetes (c : Cluster) (jobName : Text)
  | workerTimeout

def JobRun.outcome (codec : JsonCodec) (elapsed : ℤ) : JobRun → SandboxOutcome
  | .local wait =>
    match dockerLocalExecute codec wait elapsed with
    | .ok r => .returned r
    | .error exc => .raised exc
  | .kubernetes c jobName =>
    match kubernetesExecute codec c jobName elapsed with
    | .ok r => .returned r
    | .error exc => .raised exc
  | .workerTimeout => .timeoutError

def JobRun.finish (codec : JsonCodec) (elapsed now : ℤ) (run : JobRun) (e : Execution) :
    Option Execution :=
  e.finishJob ((run.outcome codec elapsed).result elapsed) elapsed now

/-! ## What each path returns -/

def Unfinished (poll : Except ApiError JobStatus) : Prop :=
  ∃ job, poll = .ok job ∧ job.succeeded = 0 ∧ job.failed = 0

def EndsWith (polls : List (Except ApiError JobStatus)) (job : JobStatus) : Prop :=
  ∃ earlier rest, polls = earlier ++ .ok job :: rest ∧ ∀ poll ∈ earlier, Unfinished poll

variable {codec : JsonCodec} {c : Cluster}

theorem dockerLocalExecute_raises {status elapsed : ℤ} {output exc : Text}
    (h : parseResultFromLogs codec output = .error exc) :
    dockerLocalExecute codec (.exited status output) elapsed = .error exc := by
  simp only [dockerLocalExecute, h]

theorem dockerLocalExecute_exited {status elapsed : ℤ} {output : Text} {parsed : Option Json}
    (h : parseResultFromLogs codec output = .ok parsed) :
    dockerLocalExecute codec (.exited status output) elapsed = .ok
      ⟨decide (status = 0), parsed, if status = 0 then none else some (reportedError parsed),
        formatLogs output, some elapsed, false, none⟩ := by
  simp only [dockerLocalExecute, h]

theorem waitForJob_skip {earlier rest : List (Except ApiError JobStatus)}
    (h : ∀ poll ∈ earlier, Unfinished poll) :
    waitForJob codec c (earlier ++ rest) = waitForJob codec c rest := by
  induction earlier with
  | nil => rfl
  | cons poll earlier ih =>
    obtain ⟨job, rfl, hsucceeded, hfailed⟩ := h poll List.mem_cons_self
    rw [List.cons_append, waitForJob]
    simp only [hsucceeded, hfailed, ne_eq, not_true_eq_false, if_false]
    exact ih fun poll' hpoll' => h poll' (List.mem_cons_of_mem _ hpoll')

theorem waitForJob_deadline {polls : List (Except ApiError JobStatus)}
    (h : ∀ poll ∈ polls, Unfinished poll) :
    waitForJob codec c polls = waitForJob codec c [] := by
  have hskip : waitForJob codec c (polls ++ []) = _ := waitForJob_skip h
  rwa [List.append_nil] at hskip

theorem waitForJob_succeeded {polls : List (Except ApiError JobStatus)} {job : JobStatus}
    (h : EndsWith polls job) (hs : job.succeeded ≠ 0) :
    waitForJob codec c polls = match parseResultFromLogs codec (getPodLogs c) with
      | .error exc => .error (.other exc)
      | .ok parsed => .ok ⟨true, parsed, none, formatLogs (getPodLogs c), none, false, none⟩ := by
  obtain ⟨earlier, rest, rfl, hearlier⟩ := h
  rw [waitForJob_skip hearlier, waitForJob, if_pos hs]

theorem waitForJob_failed {polls : List (Except ApiError JobStatus)} {job : JobStatus}
    (h : EndsWith polls job) (hs : job.succeeded = 0) (hf : job.failed ≠ 0) :
    waitForJob codec c polls = .ok (classifyFailedJob c job (getPodLogs c)) := by
  obtain ⟨earlier, rest, rfl, hearlier⟩ := h
  rw [waitForJob_skip hearlier, waitForJob, if_neg (by simp [hs]), if_pos hf]

theorem finish_status {run : JobRun} {elapsed now : ℤ} {e e' : Execution} (he : e.status = .running)
    (h : run.finish codec elapsed now e = some e') :
    e'.status = Execution.newStatus ((run.outcome codec elapsed).result elapsed) := by
  refine Execution.finishJob_status h ?_
  rw [he]
  unfold Execution.newStatus
  split_ifs
  · decide
  · decide
  · decide

end PyFaaS.Sandbox
