import PyFaaS.LogSequence
import PyFaaS.SandboxLogs

/-!
# The lines of the output that become log rows

`_format_logs` leaves out every line that starts with the marker, while
`_parse_result_from_logs` takes one of them. What it keeps becomes rows only in the
transaction that finishes the execution, and on Kubernetes only from the tail of the
logs. All lines but the result are kept exactly if the text has no marker line beside a
decodable one and that transaction comes about with the whole text.
-/

namespace PyFaaS.SandboxLogs
open TextLines
variable {codec : JsonCodec} {raw : Text} {lines : List (Text × ℕ)} {i : ℕ} {j : Json}

end PyFaaS.SandboxLogs

namespace PyFaaS.Sandbox
open TextLines SandboxLogs
variable {codec : JsonCodec} {raw : Text} {run : JobRun} {elapsed : ℤ}

/-! ## What a run hands to the worker -/

end PyFaaS.Sandbox

namespace PyFaaS.Platform
open Sandbox SandboxLogs
variable {W Q : Type} [DecidableEq W] [DecidableEq Q] {s t : Platform W Q} {a : Action W Q} {w : W} {job : Job}
  {r : SandboxResult} {elapsed : ℤ} {codec : JsonCodec} {raw : Text}

/-! ## The rows of the finish transaction -/

end PyFaaS.Platform
