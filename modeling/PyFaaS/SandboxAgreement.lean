import PyFaaS.ResultProtocol
import PyFaaS.Sandbox

/-!
# The two sandbox paths on one run

A runner that ends on its own shows the worker its exit code and its output. The
subprocess path reads both; the Kubernetes path reads the Job, the last thousand
lines of the output, and on failure the reason of the container only.
-/

namespace PyFaaS.Sandbox
open TextLines SandboxLogs Runner

structure EndedWith (c : Cluster) (status : ℤ) (output : Text) : Prop where
  ended : ∃ job, EndsWith c.polls job ∧ (job.succeeded ≠ 0 ↔ status = 0) ∧
    (job.failed ≠ 0 ↔ status ≠ 0) ∧ deadlineExceeded job = false
  container : ∃ reason, c.pods = .ok [[⟨some ⟨some reason⟩⟩]] ∧
    (reason = "Completed".toList ∨ reason = "Error".toList)
  logs : c.podLogs = some output

def SameReport (r s : SandboxResult) : Prop :=
  r.success = s.success ∧ r.result = s.result ∧ r.error = s.error ∧ r.timedOut = s.timedOut ∧
    r.logs = s.logs

inductive Agree : Except Text SandboxResult → Except ApiError SandboxResult → Prop where
  | reports {r s : SandboxResult} (h : SameReport r s) : Agree (.ok r) (.ok s)
  | raises (exc : Text) : Agree (.error exc) (.error (.other exc))

/-- The lines that the tail leaves out do not show: none of them is a log line,
and none of them is the result line. -/
def TailTells (codec : JsonCodec) (output : Text) : Prop :=
  (∃ exc, parseResultFromLogs codec (tailLines tailLinesLimit output) = .error exc) ∨
    (decodedLine codec (tailLines tailLinesLimit output) ≠ .ok none ∨
      parseResultFromLogs codec (headLines tailLinesLimit output) = .ok none) ∧
    ∀ line ∈ splitlines (headLines tailLinesLimit output), isResultLine line = true

variable {codec : JsonCodec} {c : Cluster} {output : Text}

theorem agree_reports_iff {r s : SandboxResult} : Agree (.ok r) (.ok s) ↔ SameReport r s := by
  constructor
  · intro h
    cases h with
    | reports h => exact h
  · exact .reports

theorem not_agree_raises {exc : Text} {s : SandboxResult} : ¬ Agree (.error exc) (.ok s) := by
  intro h
  cases h

theorem parse_tail (codec : JsonCodec) (output : Text) :
    parseResultFromLogs codec output =
      if decodedLine codec (tailLines tailLinesLimit output) = .ok none
      then parseResultFromLogs codec (headLines tailLinesLimit output)
      else parseResultFromLogs codec (tailLines tailLinesLimit output) := by
  rw [parse_eq_lastValue, splitlines_tail, lastValue_append]
  simp only [← lastValue_none_iff, parse_eq_lastValue]
  cases lastValue codec (splitlines (tailLines tailLinesLimit output)) with
  | error exc => simp
  | ok found =>
    cases found with
    | none => simp
    | some j => simp

theorem tailTells_of_length_le (h : (lfLines output).length ≤ tailLinesLimit) :
    TailTells codec output := by
  have hhead : headLines tailLinesLimit output = [] := by
    rw [headLines, Nat.sub_eq_zero_of_le h, List.take_zero]
    rfl
  unfold TailTells
  rw [hhead]
  have hsplit : splitlines [] = [] := rfl
  refine Or.inr ⟨Or.inr rfl, fun line hline => ?_⟩
  rw [hsplit] at hline
  exact absurd hline List.not_mem_nil

/-- A failed run never looks the same: the Job tells its reason, the subprocess
path tells what the runner reported. -/
theorem not_agree_failed {status elapsed : ℤ} (h : EndedWith c status output) (hc : status ≠ 0) :
    ¬ Agree (dockerLocalExecute codec (.exited status output) elapsed)
      (waitForJob codec c c.polls) := by
  obtain ⟨⟨job, hends, hsucceeded, hfailed, hdeadline⟩, ⟨reason, hpods, hreason⟩, -⟩ := h
  rw [waitForJob_failed hends (not_not.mp (hsucceeded.not.mpr hc)) (hfailed.mpr hc)]
  cases hparse : parseResultFromLogs codec output with
  | error exc =>
    rw [dockerLocalExecute_raises hparse]
    exact not_agree_raises
  | ok parsed =>
    rw [dockerLocalExecute_exited hparse]
    intro hagree
    obtain ⟨-, hresult, herror, -⟩ := agree_reports_iff.mp hagree
    obtain rfl : parsed = none := hresult
    have htext : "Execution failed".toList = failureText c job := by
      simpa [hc, reportedError, classifyFailedJob] using herror
    have hjob : failureText c job = "Execution failed: ".toList ++ reason := by
      rcases hreason with rfl | rfl <;>
        simp [failureText, hdeadline, hpods, terminationReason]
    rw [hjob] at htext
    exact absurd (congrArg List.length htext) (by simp)

theorem agree_succeeded {elapsed : ℤ} (h : EndedWith c 0 output) :
    Agree (dockerLocalExecute codec (.exited 0 output) elapsed) (waitForJob codec c c.polls) ↔
      TailTells codec output := by
  obtain ⟨⟨job, hends, hsucceeded, -, -⟩, -, hlogs⟩ := h
  have htail : getPodLogs c = tailLines tailLinesLimit output := by rw [getPodLogs, hlogs]
  rw [waitForJob_succeeded hends (hsucceeded.mpr rfl), htail]
  unfold TailTells
  rw [← formatLogs_tail_iff]
  have hparse := parse_tail codec output
  cases ht : parseResultFromLogs codec (tailLines tailLinesLimit output) with
  | error exc =>
    have hnone : decodedLine codec (tailLines tailLinesLimit output) ≠ .ok none := by
      intro h
      simp [parseResultFromLogs, h, Except.map] at ht
    rw [if_neg hnone, ht] at hparse
    rw [dockerLocalExecute_raises hparse]
    exact iff_of_true (.raises exc) (Or.inl ⟨exc, rfl⟩)
  | ok found =>
    simp only [reduceCtorEq, exists_const, false_or]
    by_cases hnone : decodedLine codec (tailLines tailLinesLimit output) = .ok none
    · have hfound : found = none := by
        simpa [parseResultFromLogs, hnone, Except.map, eq_comm] using ht
      rw [if_pos hnone] at hparse
      cases hh : parseResultFromLogs codec (headLines tailLinesLimit output) with
      | error exc =>
        rw [dockerLocalExecute_raises (hparse.trans hh)]
        simp [not_agree_raises, hnone]
      | ok parsed =>
        rw [dockerLocalExecute_exited (hparse.trans hh)]
        simp [agree_reports_iff, SameReport, hnone, hfound]
    · rw [if_neg hnone, ht] at hparse
      rw [dockerLocalExecute_exited hparse]
      simp [agree_reports_iff, SameReport, hnone]

/-- The two paths agree exactly on a run that ends with exit code zero and whose
cut off lines do not show. -/
theorem sandbox_paths_agree_iff {status elapsed : ℤ} (h : EndedWith c status output) :
    Agree (dockerLocalExecute codec (.exited status output) elapsed) (waitForJob codec c c.polls) ↔
      status = 0 ∧ TailTells codec output := by
  by_cases hc : status = 0
  · subst hc
    rw [agree_succeeded h]
    simp
  · exact iff_of_false (not_agree_failed h hc) fun hboth => hc hboth.1

/-! ## A Job that its first poll shows as ended -/

def endedCluster (status : ℤ) (output : Text) : Cluster where
  createJob := .ok ()
  polls := [.ok ⟨if status = 0 then 1 else 0, if status = 0 then 0 else 1, []⟩]
  podLogs := some output
  pods := .ok [[⟨some ⟨some (if status = 0 then "Completed".toList else "Error".toList)⟩⟩]]

theorem endedCluster_endedWith (status : ℤ) (output : Text) :
    EndedWith (endedCluster status output) status output where
  ended := by
    refine ⟨_, ⟨[], [], rfl, fun _ h => absurd h List.not_mem_nil⟩, ?_, ?_, rfl⟩
    · by_cases hc : status = 0 <;> simp [hc]
    · by_cases hc : status = 0 <;> simp [hc]
  container := by
    refine ⟨_, rfl, ?_⟩
    by_cases hc : status = 0 <;> simp [hc]
  logs := rfl

theorem sandbox_paths_agree_printed :
    Agree (dockerLocalExecute sampleCodec (.exited 0 "done\n".toList) 12)
      (waitForJob sampleCodec (endedCluster 0 "done\n".toList) (endedCluster 0 "done\n".toList).polls) :=
  (sandbox_paths_agree_iff (endedCluster_endedWith 0 _)).mpr
    ⟨rfl, tailTells_of_length_le (by decide)⟩

/-- A handler that raises: the subprocess path tells the exception, the Job its
reason `Error`. -/
theorem sandbox_paths_disagree_raised :
    ¬ ∀ (codec : JsonCodec) (env : Environment) (w : World) (c : Cluster) (elapsed : ℤ),
      EndedWith c (processStatus codec env w) (processOutput codec env w) →
        Agree (dockerLocalExecute codec (.exited (processStatus codec env w) (processOutput codec env w)) elapsed)
          (waitForJob codec c c.polls) := by
  intro hclaim
  have hstatus : processStatus sampleCodec sampleEnvironment (sampleWorld ⟨[], .raised boom⟩) ≠ 0 := by
    decide
  have hended := endedCluster_endedWith
    (processStatus sampleCodec sampleEnvironment (sampleWorld ⟨[], .raised boom⟩))
    (processOutput sampleCodec sampleEnvironment (sampleWorld ⟨[], .raised boom⟩))
  exact not_agree_failed hended hstatus (hclaim _ _ _ _ 12 hended)

end PyFaaS.Sandbox
