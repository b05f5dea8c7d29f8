import Mathlib.Data.Prod.Lex
import PyFaaS.LogSequence
import PyFaaS.Routers.Executions
import PyFaaS.Tailing

/-!
# Reading the log of a running execution

A client of `GET /executions/{execution_id}/logs` asks for the rows behind those that it
has, while workers and stale recovery add rows. The numbering starts at 0 in each
transaction, so the rows of a later one may come to stand in front of earlier ones.
-/

namespace PyFaaS.LogReading
open Api Platform Runs SortedPages Tailing

def logKey (log : ExecutionLog) : ℕ ×ₗ Time := toLex (log.sequence, log.timestamp)

theorem logOrder_iff {a b : ExecutionLog} : logOrder a b = true ↔ logKey a ≤ logKey b := by
  rw [logKey, logKey, Prod.Lex.toLex_le_toLex]
  simp [logOrder]

theorem listing_mergeSort (rows : List ExecutionLog) : Listing logKey rows (rows.mergeSort logOrder) := by
  refine ⟨List.mergeSort_perm rows _, ?_⟩
  have hsorted : (rows.mergeSort logOrder).Pairwise fun a b => logOrder a b = true := by
    apply List.pairwise_mergeSort
    · intro a b c hab hbc
      exact logOrder_iff.mpr ((logOrder_iff.mp hab).trans (logOrder_iff.mp hbc))
    · intro a b
      rw [Bool.or_eq_true, logOrder_iff, logOrder_iff]
      exact le_total _ _
  exact hsorted.imp logOrder_iff.mp

theorem logsOf_answer (executionId : Uuid) (p : Page) (db : Database) :
    ∃ l, Listing logKey (db.logs.filter fun log => decide (log.executionId = executionId)) l ∧
      (Api.logsOf executionId p).run db =
        .ok (.executionLogs executionId (((l.drop p.offset).take p.limit).map ExecutionLogEntry.ofRow) l.length,
          db) := by
  refine ⟨_, listing_mergeSort _, ?_⟩
  rw [List.length_mergeSort]
  rfl

variable {W Q : Type} [DecidableEq W] [DecidableEq Q] {s t : Platform W Q} {a : Action W Q}

def added (s : Platform W Q) (a : Action W Q) (id : Uuid) : List ExecutionLog :=
  ((s.db.row id).map (s.newLogs a)).getD []

end PyFaaS.LogReading
