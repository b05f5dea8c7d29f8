import Mathlib.Tactic.Simps.Basic
import PyFaaS.ExecutionTable
import PyFaaS.SortedSet
import PyFaaS.Runs

/-!
# The execution platform as a step relation

One state holds the execution tables, the two Redis sets, every request that is
still inside its enqueue and every worker. A step is what happens up to the next
await point of one party. Database transactions are atomic; a Redis command may
be applied and still raise; a worker may raise or crash wherever it waits.

`accepted`, `startTransactions` and `launched` only record what has happened.
-/

namespace PyFaaS
open Execution (Origin SandboxOutcome)

/-- A request whose execution row is committed and whose enqueue is not over. -/
inductive RequestPhase where
  | committed (origin : Origin) (n : NewExecution)
  | enqueuing (origin : Origin) (n : NewExecution) (loaded : Execution) (attempts : ℕ)
  | failing (origin : Origin) (loaded : Execution) (exc : Text)

def RequestPhase.new? : RequestPhase → Option NewExecution
  | .committed _ n | .enqueuing _ n _ _ => some n
  | .failing _ _ _ => none

inductive WorkerPhase where
  | polling
  | popped (job : Job)
  | dequeued (job : Job)
  | started (job : Job)
  | executing (job : Job)
  | reporting (job : Job) (r : SandboxResult) (elapsed : ℤ)
  | acking (job : Job)
  | dead

namespace WorkerPhase

def job? : WorkerPhase → Option Job
  | .popped job | .dequeued job | .started job | .executing job | .reporting job _ _
  | .acking job => some job
  | .polling | .dead => none

def unstarted? : WorkerPhase → Option Job
  | .popped job | .dequeued job => some job
  | _ => none

def starting? : WorkerPhase → Option Uuid
  | .started job => some job.jobId
  | _ => none

end WorkerPhase

structure Platform (W Q : Type) where
  db : ExecutionTable
  queue : SortedSet Job
  processing : SortedSet Job
  requests : Q → Option RequestPhase
  workers : W → WorkerPhase
  accepted : List Uuid
  startTransactions : List Uuid
  launched : List Uuid

namespace Platform
variable {W Q : Type}

def initial : Platform W Q where
  db := .empty
  queue := []
  processing := []
  requests := fun _ => none
  workers := fun _ => .polling
  accepted := []
  startTransactions := []
  launched := []

inductive Action (W Q : Type) where
  | create (q : Q) (origin : Origin) (n : NewExecution)
  | refresh (q : Q)
  | enqueue (q : Q) (score : ℤ) (applied : Bool) (reply : Option Text)
  | failEnqueue (q : Q)
  | abandon (q : Q)
  | redeliver (job : Job) (score : ℤ)
  | cancel (id : Uuid)
  | pop (w : W) (job : Job)
  | popLost (w : W) (job : Job)
  | track (w : W) (score : ℤ)
  | start (w : W) (workerId : Text) (now : Time)
  | launch (w : W)
  | sandboxEnds (w : W) (outcome : SandboxOutcome) (elapsed : ℤ)
  | finish (w : W) (now : Time) (newId : ℕ → Uuid)
  | ack (w : W)
  | raised (w : W)
  | crash (w : W)
  | restart (w : W)
  | recover (grace : ℤ) (now : Time) (newId : Uuid → Uuid)

def maxAttempts : ℕ := 3

def acked (processing : SortedSet Job) (job : Job) : SortedSet Job :=
  match processing.find? fun entry => entry.1.jobId = job.jobId with
  | some entry => processing.zrem entry.1
  | none => processing

variable [DecidableEq W] [DecidableEq Q]

@[simps] def setDb (s : Platform W Q) (db : ExecutionTable) : Platform W Q := { s with db := db }

@[simps] def setQueue (s : Platform W Q) (queue : SortedSet Job) : Platform W Q :=
  { s with queue := queue }

@[simps] def setProcessing (s : Platform W Q) (processing : SortedSet Job) : Platform W Q :=
  { s with processing := processing }

@[simps] def setRequest (s : Platform W Q) (q : Q) (phase : Option RequestPhase) : Platform W Q :=
  { s with requests := Function.update s.requests q phase }

@[simps] def setWorker (s : Platform W Q) (w : W) (phase : WorkerPhase) : Platform W Q :=
  { s with workers := Function.update s.workers w phase }

@[simps] def accept (s : Platform W Q) (id : Uuid) : Platform W Q :=
  { s with accepted := id :: s.accepted }

@[simps] def noteStart (s : Platform W Q) (id : Uuid) : Platform W Q :=
  { s with startTransactions := id :: s.startTransactions }

@[simps] def noteLaunch (s : Platform W Q) (id : Uuid) : Platform W Q :=
  { s with launched := id :: s.launched }

inductive Step (s : Platform W Q) : Action W Q → Platform W Q → Prop where
  /-- the row is committed in the middle of the request -/
  | create {q : Q} {origin : Origin} {n : NewExecution} (hq : s.requests q = none)
      (fresh : s.db.row n.row.id = none) :
      Step s (.create q origin n)
        ((s.setRequest q (some (.committed origin n))).setDb (s.db.insert n.row fresh))
  | refresh {q : Q} {origin : Origin} {n : NewExecution} {e : Execution}
      (hq : s.requests q = some (.committed origin n)) (hrow : s.db.row n.id = some e) :
      Step s (.refresh q) (s.setRequest q (some (.enqueuing origin n e 0)))
  | enqueueOk {q : Q} {origin : Origin} {n : NewExecution} {loaded : Execution} {attempts : ℕ}
      {score : ℤ} (hq : s.requests q = some (.enqueuing origin n loaded attempts)) :
      Step s (.enqueue q score true none)
        (((s.setRequest q none).setQueue (s.queue.zadd n.job score)).accept n.id)
  /-- the attempt raises, applied or not, and is made again or gives up -/
  | enqueueRaises {q : Q} {origin : Origin} {n : NewExecution} {loaded : Execution} {attempts : ℕ}
      {score : ℤ} {applied : Bool} {exc : Text}
      (hq : s.requests q = some (.enqueuing origin n loaded attempts)) :
      Step s (.enqueue q score applied (some exc))
        ((s.setRequest q (some (if attempts + 1 < maxAttempts
            then .enqueuing origin n loaded (attempts + 1) else .failing origin loaded exc))).setQueue
          (if applied then s.queue.zadd n.job score else s.queue))
  | failEnqueue {q : Q} {origin : Origin} {loaded : Execution} {exc : Text}
      (hq : s.requests q = some (.failing origin loaded exc)) :
      Step s (.failEnqueue q)
        ((s.setRequest q none).setDb (s.db.commit (.failEnqueue origin exc loaded)))
  /-- an exception or a crash ends the request early -/
  | abandon {q : Q} : Step s (.abandon q) (s.setRequest q none)
  | redeliver {job : Job} {score : ℤ} :
      Step s (.redeliver job score) (s.setQueue (s.queue.zadd job score))
  | cancel {id : Uuid} : Step s (.cancel id) (s.setDb (s.db.commit (.cancel id)))
  | pop {w : W} {job : Job} (hw : s.workers w = .polling) (hjob : s.queue.least job = true) :
      Step s (.pop w job) ((s.setWorker w (.popped job)).setQueue (s.queue.zrem job))
  /-- the pop is applied and its reply is lost -/
  | popLost {w : W} {job : Job} (hw : s.workers w = .polling) (hjob : s.queue.least job = true) :
      Step s (.popLost w job) (s.setQueue (s.queue.zrem job))
  | track {w : W} {job : Job} {score : ℤ} (hw : s.workers w = .popped job) :
      Step s (.track w score)
        ((s.setWorker w (.dequeued job)).setProcessing (s.processing.zadd job score))
  | startOk {w : W} {job : Job} {workerId : Text} {now : Time} {e e' : Execution}
      (hw : s.workers w = .dequeued job) (hrow : s.db.row job.jobId = some e)
      (hstart : e.startJob workerId now = some e') :
      Step s (.start w workerId now)
        (((s.setWorker w (.started job)).setDb
          (s.db.commit (.start job.jobId workerId now))).noteStart job.jobId)
  /-- no row, a cancelled row or a rejected transition: nothing is written -/
  | startSkip {w : W} {job : Job} {workerId : Text} {now : Time}
      (hw : s.workers w = .dequeued job)
      (hskip : ∀ e, s.db.row job.jobId = some e → e.startJob workerId now = none) :
      Step s (.start w workerId now) ((s.setWorker w (.acking job)).noteStart job.jobId)
  | launch {w : W} {job : Job} (hw : s.workers w = .started job) :
      Step s (.launch w) ((s.setWorker w (.executing job)).noteLaunch job.jobId)
  | sandboxEnds {w : W} {job : Job} {outcome : SandboxOutcome} {elapsed : ℤ}
      (hw : s.workers w = .executing job) :
      Step s (.sandboxEnds w outcome elapsed)
        (s.setWorker w (.reporting job (outcome.result elapsed) elapsed))
  | finishOk {w : W} {job : Job} {r : SandboxResult} {elapsed : ℤ} {now : Time}
      {newId : ℕ → Uuid} {e e' : Execution} (hw : s.workers w = .reporting job r elapsed)
      (hrow : s.db.row job.jobId = some e) (hfinish : e.finishJob r elapsed now = some e') :
      Step s (.finish w now newId)
        ((s.setWorker w (.acking job)).setDb
          (s.db.commit (.finish job.jobId r elapsed now newId)))
  | finishMissing {w : W} {job : Job} {r : SandboxResult} {elapsed : ℤ} {now : Time}
      {newId : ℕ → Uuid} (hw : s.workers w = .reporting job r elapsed)
      (hrow : s.db.row job.jobId = none) :
      Step s (.finish w now newId) (s.setWorker w (.acking job))
  | finishRaises {w : W} {job : Job} {r : SandboxResult} {elapsed : ℤ} {now : Time}
      {newId : ℕ → Uuid} {e : Execution} (hw : s.workers w = .reporting job r elapsed)
      (hrow : s.db.row job.jobId = some e) (hfinish : e.finishJob r elapsed now = none) :
      Step s (.finish w now newId) (s.setWorker w .polling)
  | ack {w : W} {job : Job} (hw : s.workers w = .acking job) :
      Step s (.ack w) ((s.setWorker w .polling).setProcessing (acked s.processing job))
  /-- an exception reaches the loop of `run`: the job is neither acknowledged nor put back -/
  | raised {w : W} (hw : s.workers w ≠ .dead) : Step s (.raised w) (s.setWorker w .polling)
  | crash {w : W} : Step s (.crash w) (s.setWorker w .dead)
  | restart {w : W} (hw : s.workers w = .dead) : Step s (.restart w) (s.setWorker w .polling)
  | recover {grace : ℤ} {now : Time} {newId : Uuid → Uuid} :
      Step s (.recover grace now newId) (s.setDb (s.db.commit (.recover grace now newId)))

def IsInitial (s : Platform W Q) : Prop := s = initial

abbrev Reachable (s : Platform W Q) : Prop := Runs.Reachable Step IsInitial s

/-! ## What a step does to the tables -/

variable {s t : Platform W Q} {a : Action W Q} {as : List (Action W Q)} {id : Uuid}

theorem Step.tables (h : Step s a t) :
    t.db = s.db ∨ (∃ n fresh, t.db = s.db.insert n fresh) ∨
      ∃ edit, t.db = s.db.commit edit ∧ (edit.overrides = none ∨
        (∃ w now newId job r elapsed, a = .finish w now newId ∧
          s.workers w = .reporting job r elapsed ∧ edit.overrides = some job.jobId) ∨
        ∃ q origin loaded exc, a = .failEnqueue q ∧
          s.requests q = some (.failing origin loaded exc) ∧ edit.overrides = some loaded.id) := by
  cases h with
  | create hq fresh => exact Or.inr (Or.inl ⟨_, fresh, rfl⟩)
  | failEnqueue hq =>
    exact Or.inr (Or.inr ⟨_, rfl, Or.inr (Or.inr ⟨_, _, _, _, rfl, hq, rfl⟩)⟩)
  | cancel => exact Or.inr (Or.inr ⟨_, rfl, Or.inl rfl⟩)
  | startOk hw hrow hstart => exact Or.inr (Or.inr ⟨_, rfl, Or.inl rfl⟩)
  | finishOk hw hrow hfinish =>
    exact Or.inr (Or.inr ⟨_, rfl, Or.inr (Or.inl ⟨_, _, _, _, _, _, rfl, hw, rfl⟩)⟩)
  | recover => exact Or.inr (Or.inr ⟨_, rfl, Or.inl rfl⟩)
  | _ => exact Or.inl rfl

/-- The tables stay, the new row of a request comes in, or one edit is committed;
only a request to cancel commits a cancellation. -/
theorem Step.edits (h : Step s a t) :
    t.db = s.db ∨ (∃ q origin n fresh, a = .create q origin n ∧ t.db = s.db.insert n.row fresh) ∨
      ∃ edit, t.db = s.db.commit edit ∧ ∀ id, edit = .cancel id → a = .cancel id := by
  cases h with
  | create hq fresh => exact Or.inr (Or.inl ⟨_, _, _, fresh, rfl, rfl⟩)
  | failEnqueue hq => exact Or.inr (Or.inr ⟨_, rfl, nofun⟩)
  | @cancel id =>
    refine Or.inr (Or.inr ⟨.cancel id, rfl, ?_⟩)
    intro id' hid
    rw [Edit.cancel.inj hid]
  | startOk hw hrow hstart => exact Or.inr (Or.inr ⟨_, rfl, nofun⟩)
  | finishOk hw hrow hfinish => exact Or.inr (Or.inr ⟨_, rfl, nofun⟩)
  | recover => exact Or.inr (Or.inr ⟨_, rfl, nofun⟩)
  | _ => exact Or.inl rfl

theorem Step.row_some (h : Step s a t) {e : Execution} (he : s.db.row id = some e) :
    ∃ e', t.db.row id = some e' := by
  rcases h.tables with hdb | ⟨n, fresh, hdb⟩ | ⟨edit, hdb, -⟩
  · exact ⟨e, hdb ▸ he⟩
  · exact ⟨e, hdb ▸ ExecutionTable.row_insert_of_some he fresh⟩
  · exact ⟨edit.after e, hdb ▸ ExecutionTable.row_commit_of_some he⟩

theorem Step.not_queued (h : Step s a t) {e e' : Execution} (he : s.db.row id = some e)
    (hne : e.status ≠ .queued) (he' : t.db.row id = some e') : e'.status ≠ .queued := by
  rcases h.tables with hdb | ⟨n, fresh, hdb⟩ | ⟨edit, hdb, -⟩
  · rw [hdb, he] at he'
    exact Option.some.inj he' ▸ hne
  · rw [hdb, ExecutionTable.row_insert_of_some he fresh] at he'
    exact Option.some.inj he' ▸ hne
  · rw [hdb, ExecutionTable.row_commit_of_some he] at he'
    exact Option.some.inj he' ▸ edit.after_not_queued hne

end Platform
end PyFaaS
