import PyFaaS.ResultProtocol
import PyFaaS.Sandbox
import PyFaaS.ExecutionTable

/-!
# What stands behind a completed execution

The worker infers success from the exit code or from the Job, and reads the
result from the logs. Exit code zero is the runner's own only if user code did
not end the interpreter, and the result is the runner's own only if its line was
fetched and nothing of user code disturbs it.
-/

namespace PyFaaS.Runner
open BufferedOutput TextLines SandboxLogs

/-! ## How user code leaves the runner -/

def Raised.leaves (exc : Raised) : Option Escape :=
  match exc.describe.ends with
  | .error e => some e
  | .ok _ =>
    match exc.again.ends with
    | .error e => some e
    | .ok _ => none

def Called.leaves (ran : UserRun Called) : Option Escape :=
  match ran.ends with
  | .escape e => some e
  | .raised exc => exc.leaves
  | .returned v =>
    match v.dumps.ends with
    | .escape e => some e
    | .raised exc => exc.leaves
    | .encodes _ => none

def leaves (codec : JsonCodec) (env : Environment) (w : World) : Option Escape :=
  match w.prologue with
  | some e => some e
  | none =>
    if (setUp env w).failure.isSome then none
    else match w.load.ends with
      | .escape e => some e
      | .raised exc => exc.leaves
      | .handler =>
        match parsePayload codec env.payload with
        | .error traceback => some (.uncaught traceback)
        | .ok payload => Called.leaves (w.call payload)

def CallReturned (codec : JsonCodec) (env : Environment) (w : World) : Prop :=
  w.prologue = none ∧ (setUp env w).failure = none ∧ w.load.ends = .handler ∧
    ∃ payload v, parsePayload codec env.payload = .ok payload ∧ (w.call payload).ends = .returned v

def Encoded (codec : JsonCodec) (env : Environment) (w : World) : Prop :=
  w.prologue = none ∧ (setUp env w).failure = none ∧ w.load.ends = .handler ∧
    ∃ payload, parsePayload codec env.payload = .ok payload ∧
      ∃ v j, (w.call payload).ends = .returned v ∧ v.dumps.ends = .encodes j

def succeeds (r : Json) : Option Json := r.get? "success".toList

/-- The three ways `main` ends: past its handlers without a report, with a report
of a failure, or with a report of success when the result is `encoded`. -/
inductive Ends (encoded : Prop) : Finished → Option Escape → Prop where
  | escaped {f : Finished} {e : Escape} (hexit : f.exit = .escape e) (hreport : f.report = none) :
      Ends encoded f (some e)
  | failed {f : Finished} {c : Console} {r : Json} (hnot : ¬ encoded) (hexit : f.exit = .returned 1)
      (hreport : f.report = some (c, r)) (hr : succeeds r = some (.bool false)) : Ends encoded f none
  | succeeded {f : Finished} {c : Console} {r : Json} (hencoded : encoded)
      (hexit : f.exit = .returned 0) (hreport : f.report = some (c, r))
      (hr : succeeds r = some (.bool true)) : Ends encoded f none

variable {codec : JsonCodec} {encoded : Prop}

theorem Ends.congr {encoded' : Prop} {f : Finished} {l : Option Escape} (h : Ends encoded f l)
    (hiff : encoded ↔ encoded') : Ends encoded' f l :=
  propext hiff ▸ h

end PyFaaS.Runner

namespace PyFaaS.Sandbox
open Runner TextLines SandboxLogs

/-- The run shows success, and this is the text that the result is read from. -/
inductive Reads : JobRun → Text → Prop where
  | exited (output : Text) : Reads (.local (.exited 0 output)) output
  | succeeded {c : Cluster} {jobName : Text} {job : JobStatus} (hcreate : c.createJob = .ok ())
      (hpolls : EndsWith c.polls job) (hs : job.succeeded ≠ 0) :
      Reads (.kubernetes c jobName) (getPodLogs c)

/-- The logs are there, down to the line in front of the late text. -/
def Fetched (late : Text) : JobRun → Prop
  | .kubernetes c _ => c.podLogs ≠ none ∧ (lfLines late).length < tailLinesLimit
  | _ => True

def Sound (codec : JsonCodec) (env : Environment) (w : World) (result : Option Json) : Prop :=
  CallReturned codec env w ∧ ∃ c r, (main codec env w).report = some (c, r) ∧
    r.get? "success".toList = some (.bool true) ∧ result = some r

/-- Whenever the run shows success and its text can be read, user code has not
ended the interpreter in the place of `main`, has not disturbed the report, and the
logs were fetched as far as the report. -/
def Faithful (codec : JsonCodec) (env : Environment) (w : World) (run : JobRun) : Prop :=
  ∀ text, Reads run text → (∃ exc, parseResultFromLogs codec text = .error exc) ∨
    leaves codec env w = none ∧ (w.late.ends = some 0 → Encoded codec env w) ∧
      Undisturbed codec (leftOpen codec env w) w.late ∧ Fetched (lateText w.late) run

variable {codec : JsonCodec} {env : Environment} {w : World} {run : JobRun} {text : Text}
  {elapsed now : ℤ} {e e' : Execution}

end PyFaaS.Sandbox
