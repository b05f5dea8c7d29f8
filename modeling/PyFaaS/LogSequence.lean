import Mathlib.Data.List.Nodup
import PyFaaS.RecordCoherence

/-!
# The numbering of an execution's log

The finish transaction numbers the lines of the sandbox from 0, and stale
recovery writes one row under 0. Neither looks at the rows that are there, so the
numbers repeat exactly when a worker with lines to report comes to an execution
that has a log already.
-/

namespace PyFaaS
open Runs

variable {logs new : List ExecutionLog}

namespace Execution

end Execution

namespace Edit
open Execution

variable {edit : Edit} {e : Execution}

theorem after_entered (h : e.status ≠ .pending) : (edit.after e).status ≠ .pending := by
  cases edit.after_moved e with
  | cancelled hedit hopen hstatus => simp [hstatus]
  | started hqueued hstatus hat => simp [hstatus]
  | ended hstatus => rcases hstatus with hstatus | hstatus | hstatus <;> simp [hstatus]
  | kept hstatus hat => rwa [hstatus]

theorem after_terminal (h : e.status.terminal = true) : (edit.after e).status.terminal = true := by
  rcases edit.after_cases e with ⟨-, hsame⟩ | hwrites
  · rwa [hsame]
  · generalize edit.after e = e' at hwrites
    cases hwrites with
    | cancel hopen =>
      rw [mem_cancelled_iff.mp hopen] at h
      cases h
    | start hqueued =>
      rw [hqueued] at h
      cases h
    | finish hfinish =>
      rw [(finished_of_finishJob hfinish).status, ExecutionStatus.validTransitions_eq_nil.mpr h]
      simpa using h
    | recover hrunning hstale => rfl
    | @failEnqueue _ loaded origin exc hid =>
      rw [flush_status, failEnqueue_status]
      by_cases hl : loaded.status = .failed
      · rw [hl, column_unchanged, h]
      · rw [column_changed _ (Ne.symm hl)]
        rfl

theorem logsAfter_cases (edit : Edit) (e : Execution) :
    edit.logsAfter e = [] ∨
      (∃ r elapsed now newId, edit = .finish e.id r elapsed now newId ∧ Finished r now e (edit.after e) ∧
        edit.logsAfter e = e.finishLogs r newId now) ∨
      (∃ grace now newId, edit = .recover grace now newId) ∧ e.status = .running ∧ (edit.after e).status = .failed := by
  rcases edit.after_cases e with ⟨hnone, -⟩ | hwrites
  · exact Or.inl (by simp [logsAfter, hnone])
  · by_cases hwritten : (edit.row e).isSome = true
    · rw [logsAfter, if_pos hwritten]
      generalize edit.after e = e' at hwrites
      cases hwrites with
      | finish hfinish =>
        exact Or.inr (Or.inl ⟨_, _, _, _, rfl, finished_of_finishJob hfinish, rfl⟩)
      | recover hrunning hstale => exact Or.inr (Or.inr ⟨⟨_, _, _, rfl⟩, hrunning, rfl⟩)
      | _ => exact Or.inl rfl
    · exact Or.inl (by rw [logsAfter, if_neg hwritten])

end Edit

namespace Platform
variable {W Q : Type}

structure Unlogged (s : Platform W Q) : Prop where
  logs : ∀ id, (∀ e, s.db.row id = some e → e.status.terminal = false) → s.db.logsOf id = []
  entered : ∀ id e, s.db.row id = some e → e.status ≠ .pending
  begun : BegunLeft s

variable [DecidableEq W] [DecidableEq Q] {s t : Platform W Q} {a : Action W Q}

omit [DecidableEq W] [DecidableEq Q] in
theorem Unlogged.terminal (h : Unlogged s) {id : Uuid} {e : Execution} (he : s.db.row id = some e)
    (hlogs : s.newLogs a e ≠ []) : (s.after a e).status.terminal = true := by
  cases hedit : s.edit? a with
  | none => simp [newLogs, hedit] at hlogs
  | some edit =>
    simp only [newLogs, hedit] at hlogs
    simp only [after, hedit]
    rcases edit.logsAfter_cases e with hnone | ⟨r, elapsed, now, newId, rfl, hfinished, -⟩ | ⟨-, -, hfailed⟩
    · exact absurd hnone hlogs
    · refine hfinished.terminal (h.entered id e he) ?_
      obtain ⟨w, job, -, hw, hid⟩ := reporting_of_finish hedit
      have hleft : Left s job.jobId := h.begun w job (by rw [hw]; rfl)
      exact hleft.not_queued (by rw [hid, ExecutionTable.row_id he, he])
    · rw [hfailed]
      rfl

theorem Unlogged.step (h : Unlogged s) (hstep : Step s a t) : Unlogged t := by
  refine ⟨fun id hopen => ?_, fun id e' he' => ?_, h.begun.step hstep⟩
  · have hbefore : ∀ e, s.db.row id = some e → e.status.terminal = false := by
      intro e he
      by_contra hclosed
      have hended : e.status.terminal = true := by simpa using hclosed
      have hterminal : (s.after a e).status.terminal = true :=
        after_of (P := fun row => row.status.terminal = true) hended fun _ _ => Edit.after_terminal hended
      rw [hopen _ (hstep.row_after he)] at hterminal
      cases hterminal
    rw [hstep.logs_after, h.logs id hbefore, List.nil_append]
    cases hrow : s.db.row id with
    | none => rfl
    | some e =>
      by_contra hlogs
      have hterminal := h.terminal hrow hlogs
      rw [hopen _ (hstep.row_after hrow)] at hterminal
      cases hterminal
  · rcases hstep.row_before he' with ⟨q, origin, n, -, -, -, rfl⟩ | ⟨e, he, rfl⟩
    · simp [NewExecution.row]
    · exact after_of (P := fun row => row.status ≠ .pending) (h.entered id e he) fun _ _ =>
        Edit.after_entered (h.entered id e he)

end Platform
end PyFaaS
