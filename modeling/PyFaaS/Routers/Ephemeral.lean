import PyFaaS.EphemeralConcurrency
import PyFaaS.Submissions

/-!
# `api/routers/ephemeral.py`
-/

namespace PyFaaS.Api
open Transactions Database Submissions
open EphemeralRate (EphemeralSettings)
open EphemeralConcurrency (isActive)

structure EphemeralGate where
  sandboxEnabled : Bool
  ephemeralLocalExecutionEnabled : Bool

def enforceEphemeralGate (gate : EphemeralGate) : Session Unit :=
  require (gate.sandboxEnabled || gate.ephemeralLocalExecutionEnabled) (.exception 403
    ("Ephemeral raw-code execution requires SANDBOX_ENABLED=true. " ++
      "For local-only testing set EPHEMERAL_LOCAL_EXECUTION_ENABLED=true, " ++
      "but do not use that mode for untrusted code.").toList)

section
variable (limits : EphemeralSettings) (key : ApiKey)

/-- `count` is the answer of the increment, if there was one. -/
def enforceRateLimits (count : Option ℕ) : Session Unit := do
  let count ← found count .internal
  require (decide (count ≤ limits.ephemeralRateLimitPerMinute)) (.exception 429
    ("Ephemeral execution rate limit exceeded (" ++ toString limits.ephemeralRateLimitPerMinute ++
      "/minute)").toList)
  let activeCount ← query fun db => (db.executions.filter (isActive key.id)).length
  require (decide (activeCount < limits.ephemeralConcurrencyLimit)) (.exception 429
    ("Ephemeral execution concurrency limit exceeded (" ++ toString limits.ephemeralConcurrencyLimit ++
      ")").toList)

def executeEphemeral (gate : EphemeralGate) (g : Given) (body : EphemeralExecution) (count : Option ℕ)
    (wait : Bool) : Session Response := do
  enforceEphemeralGate gate
  enforceRateLimits limits key count
  let n := newEphemeralExecution key g body
  let execution ← submit g .ephemeral n
  let execution ← awaitTerminal n.id (if wait then g.observed else []) execution
  return .ofExecution execution

end

end PyFaaS.Api
