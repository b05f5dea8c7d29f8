import PyFaaS.ExecutionTable
import PyFaaS.StaleReads

/-!
# Interleaved status transactions

Every transaction that changes the status of one execution, split into its plain
read of the row and its later commit. The status check runs on the copy that was
read, so the committed history leaves the transition table exactly when a commit
writes over a terminal status that its transaction did not know of.
-/

namespace PyFaaS.StatusInterleaving
open Runs StaleReads Execution ExecutionStatus

inductive Writer where
  | cancel
  | start (workerId : Text) (now : Time)
  | finish (r : SandboxResult) (elapsed : ℤ) (now : Time)
  | recover (grace : ℤ) (now : Time)
  | failEnqueue (origin : Origin) (exc : Text)

namespace Writer

def edit : Writer → Execution → Option Execution
  | .cancel, e => e.cancelExecution.toOption
  | .start workerId now, e => e.startJob workerId now
  | .finish r elapsed now, e => e.finishJob r elapsed now
  | .recover grace now, e => e.recoverStale grace now
  | .failEnqueue origin exc, e => some (e.failEnqueue origin exc)

def written (w : Writer) (loaded row : Execution) : Execution :=
  match w.edit loaded with
  | some edited => flush loaded edited row
  | none => row

def target : Writer → ExecutionStatus
  | .cancel => .cancelled
  | .start _ _ => .running
  | .finish r _ _ => newStatus r
  | .recover _ _ => .failed
  | .failEnqueue _ _ => .failed

def passes : Writer → Execution → Prop
  | .cancel, e => .cancelled ∈ e.status.validTransitions
  | .start _ _, e => .running ∈ e.status.validTransitions
  | .finish r _ _, e => newStatus r ∈ e.status.validTransitions ∧ (storedError r.error).isSome
  | .recover grace now, e => e.status = .running ∧ isStale grace now e
  | .failEnqueue _ _, _ => True

theorem edit_status {w : Writer} {e : Execution} (h : w.passes e) :
    ∃ e', w.edit e = some e' ∧ e'.status = w.target := by
  cases w with
  | cancel =>
    refine ⟨{ e with status := .cancelled }, ?_, rfl⟩
    rw [edit, cancelExecution_ok.mpr ⟨h, rfl⟩]
    rfl
  | start workerId now => exact ⟨_, startJob_some.mpr ⟨mem_running.mp h, rfl⟩, rfl⟩
  | finish r elapsed now =>
    obtain ⟨message, hmessage⟩ := Option.isSome_iff_exists.mp h.2
    have he : ∃ e', e.finishJob r elapsed now = some e' := by simp [finishJob, hmessage]
    obtain ⟨e', he⟩ := he
    exact ⟨e', he, finishJob_status he h.1⟩
  | recover grace now =>
    have hmem : ExecutionStatus.failed ∈ e.status.validTransitions := by
      rw [h.1]
      decide
    have ht := transitionTo_of_mem hmem
    exact ⟨_, by simp only [edit, recoverStale, h.1, h.2, ht, and_self, if_true]; rfl, rfl⟩
  | failEnqueue origin exc => exact ⟨_, rfl, rfl⟩

theorem edit_status_of_fails {w : Writer} {e e' : Execution} (h : ¬ w.passes e)
    (he : w.edit e = some e') : e'.status = e.status := by
  cases w with
  | cancel =>
    cases hc : e.cancelExecution with
    | ok e₁ => exact absurd (cancelExecution_ok.mp hc).1 h
    | error err => simp [edit, hc, Except.toOption] at he
  | start workerId now => exact absurd (mem_running.mpr (startJob_some.mp he).1) h
  | finish r elapsed now =>
    rcases (finishJob_some he).2 with hs | ⟨hmem, -⟩
    · exact hs
    · refine absurd ⟨hmem, ?_⟩ h
      obtain ⟨message, hmessage, -⟩ := Option.map_eq_some_iff.mp he
      simp [hmessage]
  | recover grace now =>
    obtain ⟨hrun, hstale, -⟩ := recoverStale_some he
    exact absurd ⟨hrun, hstale⟩ h
  | failEnqueue origin exc => exact absurd trivial h

theorem written_status (w : Writer) (loaded row : Execution) :
    (w.passes loaded ∧ (w.written loaded row).status =
      column loaded.status w.target row.status) ∨
    (¬ w.passes loaded ∧ (w.written loaded row).status = row.status) := by
  unfold written
  by_cases h : w.passes loaded
  · obtain ⟨e', he, hstatus⟩ := edit_status h
    left
    simp only [he, flush_status, hstatus]
    exact ⟨h, trivial⟩
  · right
    cases he : w.edit loaded with
    | none => exact ⟨h, rfl⟩
    | some e' =>
      simp only [flush_status, edit_status_of_fails h he, column_unchanged]
      exact ⟨h, trivial⟩

end Writer

/-! ## The transition table under interleaving -/

def Follows (s s' : ExecutionStatus) : Prop := s ≠ s' → s' ∈ s.validTransitions

instance : DecidableRel Follows := fun s s' =>
  inferInstanceAs (Decidable (s ≠ s' → s' ∈ s.validTransitions))

/-- The copy is at most as far in the life of the execution as the row. -/
def Behind : ExecutionStatus → ExecutionStatus → Prop
  | .pending, _ => False
  | .queued, s => s ≠ .pending
  | .running, s => s = .running ∨ s.terminal = true
  | l, s => s = l

theorem behind_self {l s : ExecutionStatus} (h : Behind l s) : Behind s s := by
  cases l <;> cases s <;> simp_all [Behind, terminal]

theorem behind_follows {l s s' : ExecutionStatus} (h : Behind l s) (hs : Follows s s') :
    Behind l s' := by
  cases l <;> cases s <;> cases s' <;> simp_all [Behind, Follows, terminal, validTransitions]

/-- The commit finds the row open, or closed with the very status it writes, or
the transaction's own check has failed. -/
def FindsOpen (w : Writer) (loaded row : Execution) : Prop :=
  w.passes loaded → row.status.terminal = true → row.status = w.target

theorem target_mem {w : Writer} {loaded : Execution} (h : w.passes loaded) :
    w.target ∈ loaded.status.validTransitions ∨ w.target = .failed := by
  cases w with
  | cancel => exact Or.inl h
  | start workerId now => exact Or.inl h
  | finish r elapsed now => exact Or.inl h.1
  | recover grace now => exact Or.inr rfl
  | failEnqueue origin exc => exact Or.inr rfl

theorem follows_column {l s t : ExecutionStatus} (hb : Behind l s)
    (ht : t ∈ l.validTransitions ∨ t = .failed) :
    Follows s (column l t s) ↔ (s.terminal = true → s = t) := by
  cases l <;> cases s <;> cases t <;>
    simp_all [Behind, Follows, column, terminal, validTransitions]

theorem follows_written_iff {w : Writer} {loaded row : Execution}
    (hb : Behind loaded.status row.status) :
    FindsOpen w loaded row ↔ Follows row.status (w.written loaded row).status := by
  rcases w.written_status loaded row with ⟨hpass, hstatus⟩ | ⟨hfail, hstatus⟩
  · rw [hstatus, follows_column hb (target_mem hpass)]
    exact ⟨fun h => h hpass, fun h _ => h⟩
  · rw [hstatus]
    exact ⟨fun _ h => absurd rfl h, fun _ h => absurd h hfail⟩

/-! ## Runs -/

def statuses {τ : Type*} (s : Shared τ Writer Execution) : List ExecutionStatus :=
  s.history.map Execution.status

structure FollowsTable (h : List ExecutionStatus) : Prop where
  consecutive : h.IsChain Follows
  final : h.Pairwise fun s s' => s.terminal = true → s' = s

theorem followsTable_iff {h : List ExecutionStatus} : FollowsTable h ↔ h.IsChain Follows := by
  refine ⟨FollowsTable.consecutive, fun hc => ⟨hc, ?_⟩⟩
  have : IsTrans ExecutionStatus fun s s' => s.terminal = true → s' = s := by
    refine ⟨fun s s' s'' hs hs' hterm => ?_⟩
    obtain rfl := hs hterm
    exact hs' hterm
  refine List.isChain_iff_pairwise.mp (hc.imp fun s s' hf hterm => ?_)
  by_contra hne
  have hmem := hf (Ne.symm hne)
  rw [validTransitions_eq_nil.mpr hterm] at hmem
  exact List.not_mem_nil hmem

variable {τ : Type*} [DecidableEq τ]

abbrev Step : Shared τ Writer Execution → Action τ Writer → Shared τ Writer Execution → Prop :=
  Fires (step Writer.written)

abbrev OpenStep : Shared τ Writer Execution → Action τ Writer → Shared τ Writer Execution → Prop :=
  FiresWhen (Admits FindsOpen) (step Writer.written)

/-- From the committed insert of a queued execution, the status history follows
the transition table exactly in the runs whose commits all find the row open. -/
theorem history_follows_iff {e : Execution} (he : e.status = .queued)
    {t : Shared τ Writer Execution} {as : List (Action τ Writer)} (h : Run Step (.start e) as t) :
    FollowsTable (statuses t) ↔ Run OpenStep (.start e) as t := by
  have hsynced : Synced (fun l r : Execution => Behind l.status r.status)
      (.start e : Shared τ Writer Execution) := synced_start (by simp [he, Behind])
  have hself : ∀ l r : Execution, Behind l.status r.status → Behind r.status r.status :=
    fun _ _ => behind_self
  have hiff := history_isChain_iff (Q := fun r r' => Follows r.status r'.status) hself
    (fun _ _ _ => behind_follows) (fun _ _ _ => follows_written_iff) hsynced h
  rw [followsTable_iff, statuses, List.isChain_map, hiff]
  exact ⟨fun hc => hc.2, fun hrun => ⟨.singleton _, hrun⟩⟩

/-- A cancellation that reads the row after the worker has started it. -/
theorem history_follows_started_then_cancelled :
    ∃ t : Shared Bool Writer Execution,
      statuses t = [.queued, .running, .cancelled] ∧ FollowsTable (statuses t) := by
  have hrun : Run OpenStep (.start sampleRequest.row) [.read true (.start "w-0".toList 5),
      .commit true, .read false .cancel, .commit false] _ :=
    .cons ⟨trivial, rfl⟩ (.cons ⟨fun _ _ _ _ hterm => absurd hterm (by decide), rfl⟩
      (.cons ⟨trivial, rfl⟩ (.cons ⟨fun _ _ _ _ hterm => absurd hterm (by decide), rfl⟩ (.nil _))))
  exact ⟨_, by decide, (history_follows_iff rfl (hrun.mono FiresWhen.fires)).mpr hrun⟩

/-- The lost update: the cancellation and the start of the worker both read the
queued row, the cancellation commits, and the start commits over it. -/
theorem cancelled_then_running :
    ¬ ∀ (e : Execution) (t : Shared Bool Writer Execution) (as : List (Action Bool Writer)),
      e.status = .queued → Run Step (.start e) as t → FollowsTable (statuses t) := by
  intro hclaim
  have hrun : ∃ t : Shared Bool Writer Execution,
      execute (step Writer.written) (.start sampleRequest.row) [.read true (.start "w-0".toList 5),
        .read false .cancel, .commit false, .commit true] = some t ∧
      statuses t = [.queued, .cancelled, .running] := ⟨_, rfl, by decide⟩
  obtain ⟨t, ht, hstatuses⟩ := hrun
  have hfollows := (hclaim _ t _ rfl (run_of_execute ht)).consecutive
  rw [hstatuses] at hfollows
  exact absurd hfollows (by decide)

end PyFaaS.StatusInterleaving
