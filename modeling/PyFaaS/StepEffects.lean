import PyFaaS.Platform

/-!
# What one step does to the tables

Every step inserts the row of a new execution, runs one transaction over the
tables or leaves them alone. So what becomes of a row, and which log rows it
gets, is a function of the state before the step and of the action.
-/

namespace PyFaaS
open Runs

namespace ExecutionTable

theorem row_of_mem {db : ExecutionTable} {e : Execution} (h : e ∈ db.executions) : db.row e.id = some e := by
  have hkey : ∀ {rows : List Execution}, (rows.map Execution.id).Nodup → e ∈ rows →
      rows.find? (fun row => row.id = e.id) = some e := by
    intro rows hnodup hmem
    induction rows with
    | nil => cases hmem
    | cons row rows ih =>
      obtain ⟨hnot, hnodup⟩ := List.nodup_cons.mp hnodup
      rcases List.mem_cons.mp hmem with rfl | hmem
      · simp
      · have hne : row.id ≠ e.id := fun hid => hnot (hid ▸ List.mem_map_of_mem hmem)
        simpa [hne] using ih hnodup hmem
  exact hkey db.primaryKey h

theorem commit_of_none {db : ExecutionTable} {edit : Edit} (h : ∀ e ∈ db.executions, edit.row e = none) :
    db.commit edit = db := by
  have hrows : db.executions.map edit.after = db.executions := by
    conv_rhs => rw [← List.map_id db.executions]
    exact List.map_congr_left fun e he => by simp [Edit.after, h e he]
  have hlogs : db.executions.flatMap edit.logsAfter = [] :=
    List.flatMap_eq_nil_iff.mpr fun e he => by simp [Edit.logsAfter, h e he]
  cases db
  simp_all [commit]

end ExecutionTable

namespace Execution
variable {e e' : Execution} {r : SandboxResult} {elapsed : ℤ} {now : Time}

structure Finished (r : SandboxResult) (now : Time) (e e' : Execution) : Prop where
  status : e'.status = if newStatus r ∈ e.status.validTransitions then newStatus r else e.status
  completedAt : e'.completedAt = some now
  errorMessage : storedError r.error = some e'.errorMessage
  failureKind : e'.failureKind = classifyFailure r.success e'.errorMessage
  startedAt : e'.startedAt = e.startedAt
  workerId : e'.workerId = e.workerId

theorem finished_of_finishJob (h : e.finishJob r elapsed now = some e') : Finished r now e e' := by
  obtain ⟨message, hmessage, rfl⟩ := Option.map_eq_some_iff.mp h
  cases ht : e.transitionTo (newStatus r) with
  | ok e₁ =>
    obtain ⟨hmem, rfl⟩ := transitionTo_ok.mp ht
    exact ⟨by simp [hmem], rfl, hmessage, rfl, rfl, rfl⟩
  | error err => exact ⟨by simp [transitionTo_error ht], rfl, hmessage, rfl, rfl, rfl⟩

end Execution

namespace Edit
open Execution

inductive Writes : Edit → Execution → Execution → Prop where
  | cancel {e : Execution} (hopen : .cancelled ∈ e.status.validTransitions) :
      Writes (.cancel e.id) e { e with status := .cancelled }
  | start {e : Execution} {workerId : Text} {now : Time} (hqueued : e.status = .queued) :
      Writes (.start e.id workerId now) e
        { e with status := .running, startedAt := some now, workerId := some workerId }
  | finish {e e' : Execution} {r : SandboxResult} {elapsed : ℤ} {now : Time} {newId : ℕ → Uuid}
      (hfinish : e.finishJob r elapsed now = some e') : Writes (.finish e.id r elapsed now newId) e e'
  | recover {e : Execution} {grace : ℤ} {now : Time} {newId : Uuid → Uuid} {message : Text} {duration : Option ℤ}
      (hrunning : e.status = .running) (hstale : isStale grace now e = true) :
      Writes (.recover grace now newId) e
        { e with
          status := .failed
          completedAt := some now
          failureKind := some .infra
          errorMessage := some message
          durationMs := duration }
  | failEnqueue {e loaded : Execution} {origin : Origin} {exc : Text} (hid : e.id = loaded.id) :
      Writes (.failEnqueue origin exc loaded) e (.flush loaded (loaded.failEnqueue origin exc) e)

variable {edit : Edit} {e e' : Execution}

theorem row_writes (h : edit.row e = some e') : Writes edit e e' := by
  cases edit with
  | cancel i =>
    by_cases hid : e.id = i
    · subst i
      cases hc : e.cancelExecution with
      | ok e₁ =>
        obtain ⟨hopen, rfl⟩ := cancelExecution_ok.mp hc
        rw [row, if_pos rfl, hc] at h
        obtain rfl := Option.some.inj h
        exact .cancel hopen
      | error err =>
        rw [row, if_pos rfl, hc] at h
        cases h
    · rw [row, if_neg hid] at h
      cases h
  | start i workerId now =>
    by_cases hid : e.id = i
    · subst i
      rw [row, if_pos rfl] at h
      obtain ⟨hqueued, rfl⟩ := startJob_some.mp h
      exact .start hqueued
    · rw [row, if_neg hid] at h
      cases h
  | finish i r elapsed now newId =>
    by_cases hid : e.id = i
    · subst i
      rw [row, if_pos rfl] at h
      exact .finish h
    · rw [row, if_neg hid] at h
      cases h
  | recover grace now newId =>
    obtain ⟨hrunning, hstale, -⟩ := recoverStale_some h
    have hfailed : e.transitionTo .failed = .ok { e with status := .failed } :=
      transitionTo_of_mem (by rw [hrunning]; decide)
    rw [row, recoverStale, if_pos ⟨hrunning, hstale⟩, hfailed] at h
    obtain rfl := Option.some.inj h
    exact .recover hrunning hstale
  | failEnqueue origin exc loaded =>
    by_cases hid : e.id = loaded.id
    · rw [row, if_pos hid] at h
      obtain rfl := Option.some.inj h
      exact .failEnqueue hid
    · rw [row, if_neg hid] at h
      cases h

theorem after_cases (edit : Edit) (e : Execution) :
    edit.row e = none ∧ edit.after e = e ∨ Writes edit e (edit.after e) := by
  cases hrow : edit.row e with
  | none => exact Or.inl ⟨rfl, by rw [after, hrow, Option.getD_none]⟩
  | some e' =>
    rw [after, hrow, Option.getD_some]
    exact Or.inr (row_writes hrow)

theorem after_startedAt (edit : Edit) (e : Execution) :
    (edit.after e).startedAt = e.startedAt ∨ e.status = .queued ∧ (edit.after e).startedAt ≠ none := by
  rcases edit.after_cases e with ⟨-, hsame⟩ | hwrites
  · exact Or.inl (by rw [hsame])
  · generalize edit.after e = e' at hwrites
    cases hwrites with
    | start hqueued => exact Or.inr ⟨hqueued, by simp⟩
    | finish hfinish => exact Or.inl (finished_of_finishJob hfinish).startedAt
    | failEnqueue hid => exact Or.inl (column_unchanged _ _)
    | _ => exact Or.inl rfl

end Edit

def WorkerPhase.begun? : WorkerPhase → Option Job
  | .started job | .executing job | .reporting job _ _ => some job
  | _ => none

def RequestPhase.loaded? : RequestPhase → Option Execution
  | .committed _ _ => none
  | .enqueuing _ _ loaded _ | .failing _ loaded _ => some loaded

namespace Platform
variable {W Q : Type}

def edit? (s : Platform W Q) : Action W Q → Option Edit
  | .cancel id => some (.cancel id)
  | .start w workerId now =>
    match s.workers w with
    | .dequeued job => some (.start job.jobId workerId now)
    | _ => none
  | .finish w now newId =>
    match s.workers w with
    | .reporting job r elapsed => some (.finish job.jobId r elapsed now newId)
    | _ => none
  | .failEnqueue q =>
    match s.requests q with
    | some (.failing origin loaded exc) => some (.failEnqueue origin exc loaded)
    | _ => none
  | .recover grace now newId => some (.recover grace now newId)
  | _ => none

inductive Commits (s : Platform W Q) : Action W Q → Edit → Prop where
  | cancel (id : Uuid) : Commits s (.cancel id) (.cancel id)
  | start {w : W} {job : Job} (workerId : Text) (now : Time) (hw : s.workers w = .dequeued job) :
      Commits s (.start w workerId now) (.start job.jobId workerId now)
  | finish {w : W} {job : Job} {r : SandboxResult} {elapsed : ℤ} (now : Time) (newId : ℕ → Uuid)
      (hw : s.workers w = .reporting job r elapsed) :
      Commits s (.finish w now newId) (.finish job.jobId r elapsed now newId)
  | failEnqueue {q : Q} {origin : Execution.Origin} {loaded : Execution} {exc : Text}
      (hq : s.requests q = some (.failing origin loaded exc)) :
      Commits s (.failEnqueue q) (.failEnqueue origin exc loaded)
  | recover (grace : ℤ) (now : Time) (newId : Uuid → Uuid) :
      Commits s (.recover grace now newId) (.recover grace now newId)

theorem edit?_eq_some {s : Platform W Q} {a : Action W Q} {edit : Edit} :
    s.edit? a = some edit ↔ Commits s a edit := by
  constructor
  · intro h
    unfold edit? at h
    split at h
    · obtain rfl := Option.some.inj h
      exact .cancel _
    · split at h
      · rename_i hw
        obtain rfl := Option.some.inj h
        exact .start _ _ hw
      · cases h
    · split at h
      · rename_i hw
        obtain rfl := Option.some.inj h
        exact .finish _ _ hw
      · cases h
    · split at h
      · rename_i hq
        obtain rfl := Option.some.inj h
        exact .failEnqueue hq
      · cases h
    · obtain rfl := Option.some.inj h
      exact .recover _ _ _
    · cases h
  · intro h
    cases h with
    | cancel id => rfl
    | start workerId now hw => simp only [edit?, hw]
    | finish now newId hw => simp only [edit?, hw]
    | failEnqueue hq => simp only [edit?, hq]
    | recover grace now newId => rfl

theorem reporting_of_finish {s : Platform W Q} {a : Action W Q} {id : Uuid} {r : SandboxResult} {elapsed : ℤ}
    {now : Time} {newId : ℕ → Uuid} (h : s.edit? a = some (.finish id r elapsed now newId)) :
    ∃ w job, a = .finish w now newId ∧ s.workers w = .reporting job r elapsed ∧ job.jobId = id := by
  generalize hedit : Edit.finish id r elapsed now newId = edit at h
  cases edit?_eq_some.mp h with
  | finish now' newId' hw =>
    obtain ⟨rfl, rfl, rfl, rfl, rfl⟩ := Edit.finish.inj hedit
    exact ⟨_, _, rfl, hw, rfl⟩
  | _ => cases hedit

theorem failing_of_failEnqueue {s : Platform W Q} {a : Action W Q} {origin : Execution.Origin} {exc : Text}
    {loaded : Execution} (h : s.edit? a = some (.failEnqueue origin exc loaded)) :
    ∃ q, a = .failEnqueue q ∧ s.requests q = some (.failing origin loaded exc) := by
  cases edit?_eq_some.mp h with
  | failEnqueue hq => exact ⟨_, rfl, hq⟩

def after (s : Platform W Q) (a : Action W Q) (e : Execution) : Execution :=
  match s.edit? a with
  | some edit => edit.after e
  | none => e

theorem after_of {s : Platform W Q} {a : Action W Q} {e : Execution} {P : Execution → Prop} (hsame : P e)
    (hedit : ∀ edit, s.edit? a = some edit → P (edit.after e)) : P (s.after a e) := by
  cases h : s.edit? a with
  | none => rwa [after, h]
  | some edit =>
    rw [after, h]
    exact hedit edit h

theorem after_start {s : Platform W Q} {w : W} {job : Job} {workerId : Text} {now : Time} {e : Execution}
    (hw : s.workers w = .dequeued job) (hrow : s.db.row job.jobId = some e) (hqueued : e.status = .queued) :
    s.after (.start w workerId now) e =
      { e with status := .running, startedAt := some now, workerId := some workerId } := by
  have hstart : e.startJob workerId now =
      some { e with status := .running, startedAt := some now, workerId := some workerId } :=
    Execution.startJob_some.mpr ⟨hqueued, rfl⟩
  simp [after, edit?, hw, Edit.after, Edit.row, ExecutionTable.row_id hrow, hstart]

def newLogs (s : Platform W Q) (a : Action W Q) (e : Execution) : List ExecutionLog :=
  match s.edit? a with
  | some edit => edit.logsAfter e
  | none => []

variable [DecidableEq W] [DecidableEq Q] {s t : Platform W Q} {a : Action W Q} {id : Uuid}

theorem Step.effect (h : Step s a t) :
    (∃ q origin n fresh, a = .create q origin n ∧ t.db = s.db.insert n.row fresh) ∨
      (∃ edit, s.edit? a = some edit ∧ t.db = s.db.commit edit) ∨ s.edit? a = none ∧ t.db = s.db := by
  cases h with
  | create hq fresh => exact Or.inl ⟨_, _, _, fresh, rfl, rfl⟩
  | failEnqueue hq => exact Or.inr (Or.inl ⟨_, by simp only [edit?, hq], rfl⟩)
  | cancel => exact Or.inr (Or.inl ⟨_, rfl, rfl⟩)
  | startOk hw hrow hstart => exact Or.inr (Or.inl ⟨_, by simp only [edit?, hw], rfl⟩)
  | @startSkip w job workerId now hw hskip =>
    refine Or.inr (Or.inl ⟨.start job.jobId workerId now, by simp only [edit?, hw], ?_⟩)
    refine (ExecutionTable.commit_of_none fun e (he : e ∈ s.db.executions) => ?_).symm
    by_cases hid : e.id = job.jobId
    · simpa [Edit.row, hid] using hskip e (hid ▸ ExecutionTable.row_of_mem he)
    · simp [Edit.row, hid]
  | finishOk hw hrow hfinish => exact Or.inr (Or.inl ⟨_, by simp only [edit?, hw], rfl⟩)
  | @finishMissing w job r elapsed now newId hw hrow =>
    refine Or.inr (Or.inl ⟨.finish job.jobId r elapsed now newId, by simp only [edit?, hw], ?_⟩)
    refine (ExecutionTable.commit_of_none fun e (he : e ∈ s.db.executions) => ?_).symm
    have hid : e.id ≠ job.jobId := by
      intro hid
      have hsome := hid ▸ ExecutionTable.row_of_mem he
      rw [hrow] at hsome
      cases hsome
    simp [Edit.row, hid]
  | @finishRaises w job r elapsed now newId e hw hrow hfinish =>
    refine Or.inr (Or.inl ⟨.finish job.jobId r elapsed now newId, by simp only [edit?, hw], ?_⟩)
    refine (ExecutionTable.commit_of_none fun e' (he' : e' ∈ s.db.executions) => ?_).symm
    by_cases hid : e'.id = job.jobId
    · have hsome := hid ▸ ExecutionTable.row_of_mem he'
      obtain rfl : e = e' := Option.some.inj (hrow.symm.trans hsome)
      simp [Edit.row, hfinish]
    · simp [Edit.row, hid]
  | recover => exact Or.inr (Or.inl ⟨_, rfl, rfl⟩)
  | _ => exact Or.inr (Or.inr ⟨rfl, rfl⟩)

omit [DecidableEq W] [DecidableEq Q] in
theorem edit?_create (s : Platform W Q) (q : Q) (origin : Execution.Origin) (n : NewExecution) :
    s.edit? (.create q origin n) = none := rfl

theorem Step.row_after (h : Step s a t) {e : Execution} (he : s.db.row id = some e) :
    t.db.row id = some (s.after a e) := by
  rcases h.effect with ⟨q, origin, n, fresh, rfl, hdb⟩ | ⟨edit, hedit, hdb⟩ | ⟨hedit, hdb⟩
  · rw [hdb, ExecutionTable.row_insert_of_some he fresh, after, edit?_create]
  · rw [hdb, ExecutionTable.row_commit_of_some he, after, hedit]
  · rw [hdb, he, after, hedit]

theorem Step.row_before (h : Step s a t) {e' : Execution} (he' : t.db.row id = some e') :
    (∃ q origin n, a = .create q origin n ∧ s.db.row id = none ∧ n.id = id ∧ e' = n.row) ∨
      ∃ e, s.db.row id = some e ∧ e' = s.after a e := by
  cases hrow : s.db.row id with
  | some e =>
    have hafter := h.row_after hrow
    exact Or.inr ⟨e, rfl, Option.some.inj (he'.symm.trans hafter)⟩
  | none =>
    rcases h.effect with ⟨q, origin, n, fresh, rfl, hdb⟩ | ⟨edit, hedit, hdb⟩ | ⟨hedit, hdb⟩
    · by_cases hid : n.row.id = id
      · subst hid
        rw [hdb, ExecutionTable.row_insert_self] at he'
        exact Or.inl ⟨q, origin, n, rfl, rfl, rfl, (Option.some.inj he').symm⟩
      · rw [hdb, ExecutionTable.row_insert_of_ne fresh hid, hrow] at he'
        cases he'
    · rw [hdb, ExecutionTable.row_commit, hrow] at he'
      cases he'
    · rw [hdb, hrow] at he'
      cases he'

theorem Step.logs_after (h : Step s a t) (id : Uuid) :
    t.db.logsOf id = s.db.logsOf id ++ ((s.db.row id).map (s.newLogs a)).getD [] := by
  have hnone : s.edit? a = none → ((s.db.row id).map (s.newLogs a)).getD [] = [] := by
    intro hedit
    cases s.db.row id with
    | none => rfl
    | some e => simp [newLogs, hedit]
  rcases h.effect with ⟨q, origin, n, fresh, rfl, hdb⟩ | ⟨edit, hedit, hdb⟩ | ⟨hedit, hdb⟩
  · rw [hdb, ExecutionTable.logsOf_insert, hnone (edit?_create ..), List.append_nil]
  · have hlogs : s.newLogs a = edit.logsAfter := funext fun e => by simp only [newLogs, hedit]
    rw [hdb, ExecutionTable.logsOf_commit, hlogs]
  · rw [hdb, hnone hedit, List.append_nil]

/-! ## Workers and requests -/

inductive Moves (s : Platform W Q) (w : W) : Action W Q → WorkerPhase → Prop where
  | pop {job : Job} (hw : s.workers w = .polling) (hjob : s.queue.least job = true) :
      Moves s w (.pop w job) (.popped job)
  | track {job : Job} {score : ℤ} (hw : s.workers w = .popped job) : Moves s w (.track w score) (.dequeued job)
  | start {job : Job} {workerId : Text} {now : Time} {e e' : Execution} (hw : s.workers w = .dequeued job)
      (hrow : s.db.row job.jobId = some e) (hstart : e.startJob workerId now = some e') :
      Moves s w (.start w workerId now) (.started job)
  | launch {job : Job} (hw : s.workers w = .started job) : Moves s w (.launch w) (.executing job)
  | sandboxEnds {job : Job} {outcome : Execution.SandboxOutcome} {elapsed : ℤ} (hw : s.workers w = .executing job) :
      Moves s w (.sandboxEnds w outcome elapsed) (.reporting job (outcome.result elapsed) elapsed)
  | done {a : Action W Q} {job : Job} (hw : (s.workers w).job? = some job) : Moves s w a (.acking job)
  | idle {a : Action W Q} {p : WorkerPhase} (hp : p.job? = none) : Moves s w a p

theorem Step.worker (h : Step s a t) (w : W) : t.workers w = s.workers w ∨ Moves s w a (t.workers w) := by
  have hset : ∀ {v : W} {p : WorkerPhase}, Moves s v a p →
      (s.setWorker v p).workers w = s.workers w ∨ Moves s w a ((s.setWorker v p).workers w) := by
    intro v p hmoves
    by_cases hw : w = v
    · subst w
      exact Or.inr (by simpa using hmoves)
    · exact Or.inl (by simp [hw])
  cases h with
  | pop hw hjob => exact hset (.pop hw hjob)
  | track hw => exact hset (.track hw)
  | startOk hw hrow hstart => exact hset (.start hw hrow hstart)
  | startSkip hw hskip => exact hset (.done (by rw [hw]; rfl))
  | launch hw => exact hset (.launch hw)
  | sandboxEnds hw => exact hset (.sandboxEnds hw)
  | finishOk hw hrow hfinish => exact hset (.done (by rw [hw]; rfl))
  | finishMissing hw hrow => exact hset (.done (by rw [hw]; rfl))
  | finishRaises hw hrow hfinish => exact hset (.idle rfl)
  | ack hw => exact hset (.idle rfl)
  | raised hw => exact hset (.idle rfl)
  | crash => exact hset (.idle rfl)
  | restart hw => exact hset (.idle rfl)
  | _ => exact Or.inl rfl

theorem Step.begun (h : Step s a t) {w : W} {job : Job} (hw : (t.workers w).begun? = some job) :
    (s.workers w).begun? = some job ∨
      ∃ workerId now e, a = .start w workerId now ∧ s.workers w = .dequeued job ∧
        s.db.row job.jobId = some e ∧ e.status = .queued := by
  rcases h.worker w with hsame | hmoves
  · exact Or.inl (hsame ▸ hw)
  · generalize t.workers w = p at hw hmoves
    cases hmoves with
    | start hdequeued hrow hstart =>
      obtain rfl := Option.some.inj hw
      exact Or.inr ⟨_, _, _, rfl, hdequeued, hrow, (Execution.startJob_some.mp hstart).1⟩
    | launch hstarted => exact Or.inl (by rw [hstarted]; exact hw)
    | sandboxEnds hexecuting => exact Or.inl (by rw [hexecuting]; exact hw)
    | @idle _ p hp => cases p <;> simp_all [WorkerPhase.begun?, WorkerPhase.job?]
    | _ => cases hw

theorem Step.dequeued {w : W} {workerId : Text} {now : Time} (h : Step s (.start w workerId now) t) :
    ∃ job, s.workers w = .dequeued job := by
  cases h with
  | startOk hw hrow hstart => exact ⟨_, hw⟩
  | startSkip hw hskip => exact ⟨_, hw⟩

inductive Proceeds (s : Platform W Q) (q : Q) : Action W Q → Option RequestPhase → Prop where
  | create {origin : Execution.Origin} {n : NewExecution} (fresh : s.db.row n.id = none) :
      Proceeds s q (.create q origin n) (some (.committed origin n))
  | refresh {origin : Execution.Origin} {n : NewExecution} {e : Execution}
      (hq : s.requests q = some (.committed origin n)) (hrow : s.db.row n.id = some e) :
      Proceeds s q (.refresh q) (some (.enqueuing origin n e 0))
  | retry {origin : Execution.Origin} {n : NewExecution} {loaded : Execution} {attempts : ℕ} {score : ℤ}
      {applied : Bool} {exc : Text} (hq : s.requests q = some (.enqueuing origin n loaded attempts)) :
      Proceeds s q (.enqueue q score applied (some exc)) (some (.enqueuing origin n loaded (attempts + 1)))
  | giveUp {origin : Execution.Origin} {n : NewExecution} {loaded : Execution} {attempts : ℕ} {score : ℤ}
      {applied : Bool} {exc : Text} (hq : s.requests q = some (.enqueuing origin n loaded attempts)) :
      Proceeds s q (.enqueue q score applied (some exc)) (some (.failing origin loaded exc))
  | done {a : Action W Q} : Proceeds s q a none

theorem Step.request (h : Step s a t) (q : Q) : t.requests q = s.requests q ∨ Proceeds s q a (t.requests q) := by
  have hset : ∀ {q' : Q} {p : Option RequestPhase}, Proceeds s q' a p →
      (s.setRequest q' p).requests q = s.requests q ∨ Proceeds s q a ((s.setRequest q' p).requests q) := by
    intro q' p hproceeds
    by_cases hq : q = q'
    · subst q
      exact Or.inr (by simpa using hproceeds)
    · exact Or.inl (by simp [hq])
  cases h with
  | create hq fresh => exact hset (.create fresh)
  | refresh hq hrow => exact hset (.refresh hq hrow)
  | enqueueOk hq => exact hset .done
  | @enqueueRaises q' origin n loaded attempts score applied exc hq =>
    by_cases hmore : attempts + 1 < maxAttempts
    · rw [if_pos hmore]
      exact hset (.retry hq)
    · rw [if_neg hmore]
      exact hset (.giveUp hq)
  | failEnqueue hq => exact hset .done
  | abandon => exact hset .done
  | _ => exact Or.inl rfl

theorem Step.requested (h : Step s a t) {q : Q} {p : RequestPhase} {n : NewExecution} (hp : t.requests q = some p)
    (hn : p.new? = some n) :
    (∃ p', s.requests q = some p' ∧ p'.new? = some n) ∨
      ∃ origin fresh, a = .create q origin n ∧ t.db = s.db.insert n.row fresh := by
  rcases h.request q with hsame | hproceeds
  · exact Or.inl ⟨p, hsame ▸ hp, hn⟩
  · rw [hp] at hproceeds
    cases hproceeds with
    | create fresh =>
      cases hn
      cases h with
      | create hq fresh => exact Or.inr ⟨_, fresh, rfl, rfl⟩
    | refresh hq hrow => exact Or.inl ⟨_, hq, hn⟩
    | retry hq => exact Or.inl ⟨_, hq, hn⟩
    | giveUp hq => cases hn

theorem Step.loaded (h : Step s a t) {q : Q} {p : RequestPhase} {e : Execution} (hp : t.requests q = some p)
    (he : p.loaded? = some e) :
    (∃ p', s.requests q = some p' ∧ p'.loaded? = some e) ∨ ∃ id, s.db.row id = some e := by
  rcases h.request q with hsame | hproceeds
  · exact Or.inl ⟨p, hsame ▸ hp, he⟩
  · rw [hp] at hproceeds
    cases hproceeds with
    | create fresh => cases he
    | refresh hq hrow =>
      cases he
      exact Or.inr ⟨_, hrow⟩
    | retry hq => exact Or.inl ⟨_, hq, he⟩
    | giveUp hq => exact Or.inl ⟨_, hq, he⟩

end Platform
end PyFaaS
