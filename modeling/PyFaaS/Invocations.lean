import PyFaaS.CompletedRuns
import PyFaaS.PayloadDelivery

/-!
# Invocations from end to end

A triggered execution passes through a queue member, the environment of a process, the
runner, the shared pipe and the sandbox into its row. What the handler made of the payload
is what the row says at the end, unless user code disturbs the report.
-/

namespace PyFaaS.Invocations
open Api BufferedOutput PayloadDelivery ProcessEnvironment Runner Runs Sandbox SandboxLogs Submissions TextLines

/-! ## What a call amounts to -/

structure Verdict where
  code : ℤ
  report : Json
  message : Option Text
  deriving DecidableEq

variable {codec : JsonCodec} {env : Runner.Environment} {w : World} {x : Verdict} {elapsed now : ℤ} {e : Execution}

/-! ## The runner -/

variable {payload : Json}

section
variable {W Q R : Type} [DecidableEq W] [DecidableEq Q] [DecidableEq R] {c : Config} {s t : State W Q R}

end

/-! A handler that returns an empty object. -/

def sampleVerdict : Verdict where
  code := 0
  report := .obj [("success".toList, .bool true), ("result".toList, .obj []), ("duration_ms".toList, .int 0)]
  message := none

def sampleCodec : JsonCodec := .ofTable
  [((sampleBody ['v']).payload, sampleEncoding ['v']), (sampleMember ['v'], sampleMemberText ['v']),
    (sampleVerdict.report, "\x7b\"success\": true, \"result\": \x7b\x7d, \"duration_ms\": 0\x7d".toList)]

def sampleRow : Execution :=
  { (newFunctionExecution 7 sampleGiven sampleFunction sampleVersion none (sampleBody ['v']).payload 300).row with
    status := .queued }

end PyFaaS.Invocations
