import PyFaaS.CompletedRuns

/-!
# The recorded kind of a failure

The worker tells its own failures from those of a handler by phrases in the error
text of the result. On the local path the text of the exception that a handler
raises comes through the report of `main` and the reader of its output into this
very text.
-/

namespace PyFaaS.Runner
open BufferedOutput TextLines SandboxLogs

def Called.raises (ran : UserRun Called) : Option Raised :=
  match ran.ends with
  | .raised exc => some exc
  | .returned v =>
    match v.dumps.ends with
    | .raised exc => some exc
    | _ => none
  | .escape _ => none

def Raised.result (exc : Raised) (message traceback : Text) : Json :=
  if exc.isTimeout then
    .obj [("success".toList, .bool false), ("error".toList, .str message), ("timed_out".toList, .bool true)]
  else
    .obj [("success".toList, .bool false), ("error".toList, .str message), ("traceback".toList, .str traceback)]

variable {codec : JsonCodec} {env : Environment} {w : World} {exc : Raised} {message : Text}

end PyFaaS.Runner

namespace PyFaaS.Sandbox
open Runner TextLines SandboxLogs

variable {codec : JsonCodec} {env : Environment} {w : World} {exc : Raised} {message : Text}
  {elapsed now : ℤ} {e : Execution}

end PyFaaS.Sandbox
