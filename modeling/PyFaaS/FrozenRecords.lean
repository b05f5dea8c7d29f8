import PyFaaS.Platform

/-!
# Terminal execution records

Cancellation, the start transaction and stale recovery leave a terminal row
alone. The finish transaction writes its columns also when its transition was
rejected, and a failed enqueue assigns the status: these two rewrite a terminal
row when one is there at their commit.
-/

namespace PyFaaS
open Runs

namespace Execution
open ExecutionStatus

theorem cancelExecution_terminal {e : Execution} (he : e.status.terminal = true) :
    e.cancelExecution.toOption = none := by
  cases h : e.cancelExecution with
  | ok e' =>
    have hmem := (cancelExecution_ok.mp h).1
    rw [validTransitions_eq_nil.mpr he] at hmem
    exact absurd hmem List.not_mem_nil
  | error err => rfl

theorem startJob_terminal {workerId : Text} {now : Time} {e : Execution}
    (he : e.status.terminal = true) : e.startJob workerId now = none := by
  cases h : e.startJob workerId now with
  | none => rfl
  | some e' =>
    rw [(startJob_some.mp h).1] at he
    exact absurd he (by decide)

theorem recoverStale_terminal {grace : ℤ} {now : Time} {e : Execution}
    (he : e.status.terminal = true) : e.recoverStale grace now = none := by
  cases h : e.recoverStale grace now with
  | none => rfl
  | some e' =>
    rw [(recoverStale_some h).1] at he
    exact absurd he (by decide)

/-- The columns of an execution that a terminal status is to fix. -/
structure SameOutcome (e e' : Execution) : Prop where
  status : e'.status = e.status
  result : e'.result = e.result
  errorMessage : e'.errorMessage = e.errorMessage
  failureKind : e'.failureKind = e.failureKind
  completedAt : e'.completedAt = e.completedAt
  durationMs : e'.durationMs = e.durationMs
  k8sJobName : e'.k8sJobName = e.k8sJobName

theorem SameOutcome.refl (e : Execution) : SameOutcome e e := ⟨rfl, rfl, rfl, rfl, rfl, rfl, rfl⟩

end Execution

namespace Edit

theorem row_terminal {edit : Edit} {e : Execution} (he : e.status.terminal = true)
    (hid : edit.overrides ≠ some e.id) : edit.row e = none := by
  cases edit with
  | cancel id => simp [row, Execution.cancelExecution_terminal he]
  | start id workerId now => simp [row, Execution.startJob_terminal he]
  | finish id r elapsed now newId =>
    have hne : e.id ≠ id := fun h => hid (congrArg some h.symm)
    simp [row, hne]
  | recover grace now newId => exact Execution.recoverStale_terminal he
  | failEnqueue origin exc loaded =>
    have hne : e.id ≠ loaded.id := fun h => hid (congrArg some h.symm)
    simp [row, hne]

end Edit

namespace ExecutionTable

/-- A terminal row of `db` is still there in `db'` with its outcome and its log. -/
def Frozen (db db' : ExecutionTable) (id : Uuid) : Prop :=
  ∀ e, db.row id = some e → e.status.terminal = true →
    ∃ e', db'.row id = some e' ∧ e.SameOutcome e' ∧ db'.logsOf id = db.logsOf id

theorem Frozen.refl (db : ExecutionTable) (id : Uuid) : Frozen db db id :=
  fun e he _ => ⟨e, he, .refl e, rfl⟩

theorem Frozen.trans {db db' db'' : ExecutionTable} {id : Uuid} (h : Frozen db db' id)
    (k : Frozen db' db'' id) : Frozen db db'' id := by
  intro e he hterm
  obtain ⟨e', he', ho, hlogs⟩ := h e he hterm
  obtain ⟨e'', he'', ho', hlogs'⟩ := k e' he' (ho.status ▸ hterm)
  refine ⟨e'', he'', ?_, hlogs'.trans hlogs⟩
  exact ⟨ho'.status.trans ho.status, ho'.result.trans ho.result,
    ho'.errorMessage.trans ho.errorMessage, ho'.failureKind.trans ho.failureKind,
    ho'.completedAt.trans ho.completedAt, ho'.durationMs.trans ho.durationMs,
    ho'.k8sJobName.trans ho.k8sJobName⟩

theorem frozen_insert {db : ExecutionTable} {n : Execution} (fresh : db.row n.id = none)
    (id : Uuid) : Frozen db (db.insert n fresh) id :=
  fun e he _ => ⟨e, row_insert_of_some he fresh, .refl e, rfl⟩

theorem frozen_commit {db : ExecutionTable} {edit : Edit} {id : Uuid}
    (h : ∀ e, db.row id = some e → e.status.terminal = true → edit.overrides ≠ some id) :
    Frozen db (db.commit edit) id := by
  intro e he hterm
  have hid : e.id = id := row_id he
  have hnone : edit.row e = none := Edit.row_terminal hterm (hid ▸ h e he hterm)
  refine ⟨e, ?_, .refl e, ?_⟩
  · rw [row_commit_of_some he, Edit.after, hnone, Option.getD_none]
  · rw [logsOf_commit, he]
    simp [Edit.logsAfter, hnone]

end ExecutionTable

namespace Platform
variable {W Q : Type} [DecidableEq W] [DecidableEq Q] {s t : Platform W Q} {a : Action W Q}

/-- The two transactions that override a row find it still open. -/
def Timely (s : Platform W Q) : Action W Q → Prop
  | .finish w _ _ => ∀ job r elapsed e, s.workers w = .reporting job r elapsed →
      s.db.row job.jobId = some e → e.status.terminal = false
  | .failEnqueue q => ∀ origin loaded exc e, s.requests q = some (.failing origin loaded exc) →
      s.db.row loaded.id = some e → e.status.terminal = false
  | _ => True

theorem Step.frozen (htimely : Timely s a) (h : Step s a t) (id : Uuid) :
    s.db.Frozen t.db id := by
  rcases h.tables with hdb | ⟨n, fresh, hdb⟩ | ⟨edit, hdb, hedit⟩
  · rw [hdb]
    exact .refl _ _
  · rw [hdb]
    exact ExecutionTable.frozen_insert fresh id
  · rw [hdb]
    refine ExecutionTable.frozen_commit fun e he hterm hover => ?_
    rcases hedit with hnone | ⟨w, now, newId, job, r, elapsed, rfl, hw, hjob⟩ |
      ⟨q, origin, loaded, exc, rfl, hq, hloaded⟩
    · rw [hnone] at hover
      cases hover
    · obtain rfl : job.jobId = id := Option.some.inj (hjob.symm.trans hover)
      exact absurd hterm (by simp [htimely job r elapsed e hw he])
    · obtain rfl : loaded.id = id := Option.some.inj (hloaded.symm.trans hover)
      exact absurd hterm (by simp [htimely origin loaded exc e hq he])

/-- Along a run in which every finish transaction and every failed enqueue finds
its row open, a terminal row keeps its outcome and its log. -/
theorem terminal_records_frozen {as : List (Action W Q)}
    (h : Run (fun s a t => Timely s a ∧ Step s a t) s as t) (id : Uuid) :
    s.db.Frozen t.db id :=
  h.compare (I := fun _ => True) (C := fun s t => s.db.Frozen t.db id) (fun _ => .refl _ _)
    (fun _ _ _ => .trans) (fun _ _ _ _ _ => trivial) (fun _ _ _ _ h => h.2.frozen h.1 id) trivial

/-- A cancelled row stays as it is while stale recovery and a second
cancellation pass over it. -/
theorem terminal_records_frozen_cancelled :
    ∃ s t : Platform Unit Unit, Reachable s ∧
      (s.db.row 1).map Execution.status = some .cancelled ∧ s.db.Frozen t.db 1 := by
  refine ⟨_, _, ⟨initial, [.create () .ephemeral sampleRequest, .cancel 1], rfl,
    .cons (.create rfl rfl) (.cons .cancel (.nil _))⟩, rfl, terminal_records_frozen
      (.cons (a := .recover 60 5 id) ⟨by trivial, .recover⟩
        (.cons (a := .cancel 1) ⟨by trivial, .cancel⟩ (.nil _))) 1⟩

/-- The run of the defect: the execution is cancelled while its worker is in the
sandbox, and the finish transaction writes its result over the cancelled row. -/
theorem cancelled_record_rewritten :
    ¬ ∀ (s t : Platform Unit Unit) (as : List (Action Unit Unit)), Reachable s →
      Run Step s as t → ∀ id, s.db.Frozen t.db id := by
  intro hclaim
  have hrun : ∃ s t : Platform Unit Unit, Reachable s ∧
      Run Step s [.launch (), .sandboxEnds () .timeoutError 40, .finish () 50 id] t ∧
      (s.db.row 1).map Execution.status = some .cancelled ∧
      (s.db.row 1).map Execution.completedAt = some none ∧
      (t.db.row 1).map Execution.completedAt = some (some 50) := by
    refine ⟨_, _, ⟨initial, [.create () .ephemeral sampleRequest, .refresh (),
      .enqueue () 0 true none, .pop () sampleRequest.job, .track () 0, .start () "w-0".toList 1,
      .cancel 1], rfl, .cons (.create rfl rfl) (.cons (.refresh rfl rfl) (.cons (.enqueueOk rfl)
      (.cons (.pop rfl rfl) (.cons (.track rfl) (.cons (.startOk rfl rfl rfl)
      (.cons .cancel (.nil _)))))))⟩, .cons (.launch rfl) (.cons (.sandboxEnds rfl)
      (.cons (.finishOk rfl rfl rfl) (.nil _))), rfl, rfl, rfl⟩
  obtain ⟨s, t, hs, hst, hstatus, hbefore, hafter⟩ := hrun
  obtain ⟨e, he, hcancelled⟩ := Option.map_eq_some_iff.mp hstatus
  obtain ⟨e', he', ho, -⟩ := hclaim s t _ hs hst 1 e he (by rw [hcancelled]; rfl)
  have hchange := ho.completedAt
  simp_all

end Platform
end PyFaaS
