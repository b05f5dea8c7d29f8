import PyFaaS.ExecutionTransactions

/-!
# The execution tables under atomic transactions

`Edit` lists the transactions that change committed execution rows. Committing
one maps it over the table and appends the log rows it adds; a row that the
transaction does not select or does not change is kept.
-/

namespace PyFaaS

/-- What a request for an execution asks for: the row it inserts and the job it
enqueues are both made from this. -/
structure NewExecution where
  id : Uuid
  functionId : Option Uuid
  functionVersionId : Option Uuid
  triggeredBy : Option Uuid
  apiKeyId : Option Uuid
  executionType : ExecutionType
  scheduleId : Option Uuid
  payload : Json
  now : Time
  timeout : ℕ
  artifactPath : Option Text
  entrypoint : Text
  environment : Json
  memoryMb : ℕ
  sourceCode : Option Text
  deriving DecidableEq, Repr

structure Job where
  jobId : Uuid
  functionId : Option Uuid
  versionId : Option Uuid
  artifactPath : Option Text
  entrypoint : Text
  payload : Json
  timeout : ℕ
  environment : Json
  memoryMb : ℕ
  executionType : ExecutionType
  sourceCode : Option Text
  deriving DecidableEq, Repr

namespace NewExecution

def row (n : NewExecution) : Execution where
  id := n.id
  functionId := n.functionId
  functionVersionId := n.functionVersionId
  triggeredBy := n.triggeredBy
  apiKeyId := n.apiKeyId
  executionType := n.executionType
  scheduleId := n.scheduleId
  status := .queued
  payload := n.payload
  result := none
  errorMessage := none
  failureKind := none
  workerId := none
  k8sJobName := none
  queuedAt := some n.now
  startedAt := none
  completedAt := none
  durationMs := none
  attemptNumber := 1
  timeout := n.timeout
  createdAt := n.now

def job (n : NewExecution) : Job where
  jobId := n.id
  functionId := n.functionId
  versionId := n.functionVersionId
  artifactPath := n.artifactPath
  entrypoint := n.entrypoint
  payload := n.payload
  timeout := n.timeout
  environment := n.environment
  memoryMb := n.memoryMb
  executionType := n.executionType
  sourceCode := n.sourceCode

end NewExecution

def sampleRequest : NewExecution where
  id := 1
  functionId := none
  functionVersionId := none
  triggeredBy := some 7
  apiKeyId := some 3
  executionType := .ephemeral
  scheduleId := none
  payload := .obj []
  now := 0
  timeout := 30
  artifactPath := none
  entrypoint := "handler.handler".toList
  environment := .obj []
  memoryMb := 128
  sourceCode := some "def handler(): return {}".toList

def runningRow : Execution := { sampleRequest.row with status := .running }

structure ExecutionTable where
  executions : List Execution
  logs : List ExecutionLog
  primaryKey : (executions.map Execution.id).Nodup

open Execution in
inductive Edit where
  | cancel (id : Uuid)
  | start (id : Uuid) (workerId : Text) (now : Time)
  | finish (id : Uuid) (r : SandboxResult) (elapsed : ℤ) (now : Time) (newId : ℕ → Uuid)
  | recover (grace : ℤ) (now : Time) (newId : Uuid → Uuid)
  | failEnqueue (origin : Origin) (exc : Text) (loaded : Execution)

namespace Edit

def row : Edit → Execution → Option Execution
  | .cancel id, e => if e.id = id then e.cancelExecution.toOption else none
  | .start id workerId now, e => if e.id = id then e.startJob workerId now else none
  | .finish id r elapsed now _, e => if e.id = id then e.finishJob r elapsed now else none
  | .recover grace now _, e => e.recoverStale grace now
  | .failEnqueue origin exc loaded, e =>
    if e.id = loaded.id then some (.flush loaded (loaded.failEnqueue origin exc) e) else none

def newLogs : Edit → Execution → List ExecutionLog
  | .finish _ r _ now newId, e => e.finishLogs r newId now
  | .recover _ now newId, e => [e.recoveryLog newId now]
  | _, _ => []

def after (edit : Edit) (e : Execution) : Execution := (edit.row e).getD e

def logsAfter (edit : Edit) (e : Execution) : List ExecutionLog :=
  if (edit.row e).isSome then edit.newLogs e else []

theorem row_sameRequest (edit : Edit) {e e' : Execution} (h : edit.row e = some e') :
    Execution.SameRequest e e' := by
  cases edit with
  | cancel id =>
    simp only [row] at h
    split_ifs at h
    cases hc : e.cancelExecution with
    | ok e₁ =>
      rw [hc] at h
      cases h
      exact Execution.cancelExecution_sameRequest hc
    | error err => simp [hc, Except.toOption] at h
  | start id workerId now =>
    simp only [row] at h
    split_ifs at h
    exact Execution.startJob_sameRequest h
  | finish id r elapsed now newId =>
    simp only [row] at h
    split_ifs at h
    exact (Execution.finishJob_some h).1
  | recover grace now newId => exact (Execution.recoverStale_some h).2.2.1
  | failEnqueue origin exc loaded =>
    simp only [row] at h
    split_ifs at h
    obtain rfl := Option.some.inj h
    exact .refl e

theorem after_sameRequest (edit : Edit) (e : Execution) : Execution.SameRequest e (edit.after e) := by
  unfold after
  cases h : edit.row e with
  | none => exact .refl e
  | some e' => exact edit.row_sameRequest h

theorem after_id (edit : Edit) (e : Execution) : (edit.after e).id = e.id := (edit.after_sameRequest e).1

theorem logsAfter_executionId {edit : Edit} {e : Execution} {log : ExecutionLog}
    (h : log ∈ edit.logsAfter e) : log.executionId = e.id := by
  unfold logsAfter at h
  split_ifs at h
  · cases edit with
    | finish id r elapsed now newId =>
      simp only [newLogs, Execution.finishLogs, List.mem_map] at h
      obtain ⟨entry, -, rfl⟩ := h
      rfl
    | recover grace now newId =>
      simp only [newLogs, List.mem_singleton] at h
      subst h
      rfl
    | cancel id => simp [newLogs] at h
    | start id workerId now => simp [newLogs] at h
    | failEnqueue origin exc loaded => simp [newLogs] at h
  · simp at h

/-- The row that is written without a passed transition check. -/
def overrides : Edit → Option Uuid
  | .finish id _ _ _ _ => some id
  | .failEnqueue _ _ loaded => some loaded.id
  | _ => none

theorem row_status (edit : Edit) {e e' : Execution} (h : edit.row e = some e') :
    e'.status = e.status ∨ e'.status ≠ .queued := by
  cases edit with
  | cancel id =>
    simp only [row] at h
    split_ifs at h
    cases hc : e.cancelExecution with
    | ok e₁ =>
      rw [hc] at h
      cases h
      rw [(Execution.cancelExecution_ok.mp hc).2]
      exact Or.inr (by simp)
    | error err => simp [hc, Except.toOption] at h
  | start id workerId now =>
    simp only [row] at h
    split_ifs at h
    rw [(Execution.startJob_some.mp h).2]
    exact Or.inr (by simp)
  | finish id r elapsed now newId =>
    simp only [row] at h
    split_ifs at h
    rcases (Execution.finishJob_some h).2 with hs | ⟨-, hs⟩
    · exact Or.inl hs
    · exact Or.inr (hs ▸ Execution.newStatus_ne_queued r)
  | recover grace now newId =>
    rw [(Execution.recoverStale_some h).2.2.2]
    exact Or.inr (by decide)
  | failEnqueue origin exc loaded =>
    simp only [row] at h
    split_ifs at h
    obtain rfl := Option.some.inj h
    rw [Execution.flush_status, Execution.failEnqueue_status]
    by_cases hl : loaded.status = .failed
    · rw [hl, Execution.column_unchanged]
      exact Or.inl rfl
    · rw [Execution.column_changed _ (Ne.symm hl)]
      exact Or.inr (by decide)

theorem after_not_queued (edit : Edit) {e : Execution} (he : e.status ≠ .queued) :
    (edit.after e).status ≠ .queued := by
  unfold after
  cases h : edit.row e with
  | none => exact he
  | some e' =>
    rcases edit.row_status h with hs | hs
    · exact hs ▸ he
    · exact hs

inductive Moved (edit : Edit) (e e' : Execution) : Prop where
  | cancelled (hedit : edit = .cancel e.id) (hopen : .cancelled ∈ e.status.validTransitions)
      (hstatus : e'.status = .cancelled)
  | started (hqueued : e.status = .queued) (hstatus : e'.status = .running) (hat : e'.startedAt ≠ none)
  | ended (hstatus : e'.status = .completed ∨ e'.status = .failed ∨ e'.status = .timedOut)
  | kept (hstatus : e'.status = e.status) (hat : e'.startedAt = e.startedAt)

theorem moved_finish {id : Uuid} {r : SandboxResult} {elapsed : ℤ} {now : Time} {newId : ℕ → Uuid}
    {e e' : Execution} (h : e.finishJob r elapsed now = some e') :
    Moved (.finish id r elapsed now newId) e e' := by
  obtain ⟨message, -, rfl⟩ := Option.map_eq_some_iff.mp h
  cases ht : e.transitionTo (Execution.newStatus r) with
  | ok e₁ =>
    obtain ⟨-, rfl⟩ := Execution.transitionTo_ok.mp ht
    apply Moved.ended
    simp only [Execution.newStatus]
    split_ifs
    · exact Or.inr (Or.inr rfl)
    · exact Or.inl rfl
    · exact Or.inr (Or.inl rfl)
  | error err => exact .kept rfl rfl

theorem moved_failEnqueue (origin : Execution.Origin) (exc : Text) (loaded e : Execution) :
    Moved (.failEnqueue origin exc loaded) e (.flush loaded (loaded.failEnqueue origin exc) e) := by
  by_cases hl : loaded.status = .failed
  · apply Moved.kept
    · rw [Execution.flush_status, Execution.failEnqueue_status, hl, Execution.column_unchanged]
    · exact Execution.column_unchanged _ _
  · apply Moved.ended
    rw [Execution.flush_status, Execution.failEnqueue_status, Execution.column_changed _ (Ne.symm hl)]
    exact Or.inr (Or.inl rfl)

theorem row_moved (edit : Edit) {e e' : Execution} (h : edit.row e = some e') : Moved edit e e' := by
  cases edit with
  | cancel id =>
    simp only [row] at h
    split_ifs at h with hid
    cases hc : e.cancelExecution with
    | ok e₁ =>
      rw [hc] at h
      obtain rfl := Option.some.inj h
      obtain ⟨hopen, rfl⟩ := Execution.cancelExecution_ok.mp hc
      exact .cancelled (by rw [hid]) hopen rfl
    | error err => simp [hc, Except.toOption] at h
  | start id workerId now =>
    simp only [row] at h
    split_ifs at h
    obtain ⟨hqueued, rfl⟩ := Execution.startJob_some.mp h
    exact .started hqueued rfl nofun
  | finish id r elapsed now newId =>
    simp only [row] at h
    split_ifs at h
    exact moved_finish h
  | recover grace now newId => exact .ended (Or.inr (Or.inl (Execution.recoverStale_some h).2.2.2))
  | failEnqueue origin exc loaded =>
    simp only [row] at h
    split_ifs at h
    obtain rfl := Option.some.inj h
    exact moved_failEnqueue origin exc loaded e

theorem after_moved (edit : Edit) (e : Execution) : Moved edit e (edit.after e) := by
  unfold after
  cases h : edit.row e with
  | none => exact .kept rfl rfl
  | some e' => exact edit.row_moved h

end Edit

namespace ExecutionTable

def empty : ExecutionTable := ⟨[], [], List.nodup_nil⟩

def row (db : ExecutionTable) (id : Uuid) : Option Execution :=
  db.executions.find? fun e => e.id = id

def logsOf (db : ExecutionTable) (id : Uuid) : List ExecutionLog :=
  db.logs.filter fun log => log.executionId = id

theorem row_id {db : ExecutionTable} {id : Uuid} {e : Execution} (h : db.row id = some e) :
    e.id = id := by
  simpa using List.find?_some h

theorem row_none {db : ExecutionTable} {id : Uuid} :
    db.row id = none ↔ id ∉ db.executions.map Execution.id := by
  simp [row, List.find?_eq_none]

def insert (db : ExecutionTable) (e : Execution) (fresh : db.row e.id = none) :
    ExecutionTable where
  executions := db.executions ++ [e]
  logs := db.logs
  primaryKey := by
    rw [List.map_append, List.nodup_append]
    refine ⟨db.primaryKey, by simp, ?_⟩
    intro a ha b hb hab
    obtain rfl : b = e.id := by simpa using hb
    exact row_none.mp fresh (hab ▸ ha)

def commit (db : ExecutionTable) (edit : Edit) : ExecutionTable where
  executions := db.executions.map edit.after
  logs := db.logs ++ db.executions.flatMap edit.logsAfter
  primaryKey := by
    have hid : Execution.id ∘ edit.after = Execution.id := funext edit.after_id
    rw [List.map_map, hid]
    exact db.primaryKey

theorem row_insert_of_some {db : ExecutionTable} {id : Uuid} {e n : Execution}
    (h : db.row id = some e) (fresh : db.row n.id = none) :
    (db.insert n fresh).row id = some e := by
  unfold row at h
  simp [row, insert, List.find?_append, h]

theorem row_insert_of_ne {db : ExecutionTable} {id : Uuid} {n : Execution}
    (fresh : db.row n.id = none) (h : n.id ≠ id) : (db.insert n fresh).row id = db.row id := by
  simp [row, insert, List.find?_append, h]

theorem row_insert_self {db : ExecutionTable} {n : Execution} (fresh : db.row n.id = none) :
    (db.insert n fresh).row n.id = some n := by
  have h := fresh
  unfold row at h
  simp [row, insert, List.find?_append, h]

@[simp] theorem logsOf_insert (db : ExecutionTable) (n : Execution) (fresh : db.row n.id = none)
    (id : Uuid) : (db.insert n fresh).logsOf id = db.logsOf id := rfl

theorem row_commit (db : ExecutionTable) (edit : Edit) (id : Uuid) :
    (db.commit edit).row id = (db.row id).map edit.after := by
  simp only [row, commit, List.find?_map]
  congr 2
  funext e
  simp [edit.after_id]

theorem row_commit_of_some {db : ExecutionTable} {edit : Edit} {id : Uuid} {e : Execution}
    (h : db.row id = some e) : (db.commit edit).row id = some (edit.after e) := by
  rw [row_commit, h]
  rfl

theorem row_commit_start {db : ExecutionTable} {id : Uuid} {workerId : Text} {now : Time}
    {e e' : Execution} (h : db.row id = some e) (hstart : e.startJob workerId now = some e') :
    (db.commit (.start id workerId now)).row id = some e' := by
  have hedit : Edit.row (.start id workerId now) e = some e' := by simp [Edit.row, row_id h, hstart]
  rw [row_commit_of_some h, Edit.after, hedit, Option.getD_some]

theorem filter_flatMap_logs {rows : List Execution} (hkey : (rows.map Execution.id).Nodup)
    {g : Execution → List ExecutionLog} (hg : ∀ e, ∀ log ∈ g e, log.executionId = e.id)
    (id : Uuid) :
    (rows.flatMap g).filter (fun log => log.executionId = id) =
      ((rows.find? fun e => e.id = id).map g).getD [] := by
  induction rows with
  | nil => rfl
  | cons e rows ih =>
    obtain ⟨hnot, hkey⟩ := List.nodup_cons.mp hkey
    rw [List.flatMap_cons, List.filter_append, ih hkey]
    by_cases he : e.id = id
    · have hself : (g e).filter (fun log => log.executionId = id) = g e :=
        List.filter_eq_self.mpr fun log hlog => by simpa using (hg e log hlog).trans he
      have hrest : rows.find? (fun e => e.id = id) = none := by
        rw [List.find?_eq_none]
        intro e' he' heq
        exact hnot (List.mem_map.mpr ⟨e', he', by simpa [he] using heq⟩)
      simp [hself, hrest, he]
    · have hnone : (g e).filter (fun log => log.executionId = id) = [] :=
        List.filter_eq_nil_iff.mpr fun log hlog => by simpa [hg e log hlog] using he
      simp [hnone, he]

theorem logsOf_commit (db : ExecutionTable) (edit : Edit) (id : Uuid) :
    (db.commit edit).logsOf id =
      db.logsOf id ++ ((db.row id).map edit.logsAfter).getD [] := by
  unfold logsOf
  rw [commit, List.filter_append,
    filter_flatMap_logs db.primaryKey (fun e log => Edit.logsAfter_executionId)]
  rfl

end ExecutionTable
end PyFaaS
