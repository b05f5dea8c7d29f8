import PyFaaS.StepEffects

/-!
# Cancellation of executions

The transition table lets a running row be cancelled, and the route cancels it
while its worker goes on. If only waiting rows are cancelled, no worker is inside
the sandbox for a cancelled row.
-/

namespace PyFaaS
open Runs

namespace Execution

structure Timed (e : Execution) : Prop where
  running : e.status = .running → e.startedAt ≠ none
  waiting : e.status = .pending ∨ e.status = .queued → e.startedAt = none

structure Begun (e : Execution) : Prop where
  pending : e.status ≠ .pending
  queued : e.status ≠ .queued
  cancelled : e.status ≠ .cancelled

theorem cancelled_mem {s : ExecutionStatus} :
    .cancelled ∈ s.validTransitions ↔ s = .pending ∨ s = .queued ∨ s = .running := by
  cases s <;> simp [ExecutionStatus.validTransitions]

theorem Timed.moved {edit : Edit} {e e' : Execution} (h : e.Timed) (hmoved : edit.Moved e e') : e'.Timed := by
  cases hmoved with
  | cancelled hedit hopen hstatus => constructor <;> simp [hstatus]
  | started hqueued hstatus hat => exact ⟨fun _ => hat, by simp [hstatus]⟩
  | ended hstatus =>
    rcases hstatus with hstatus | hstatus | hstatus
    · constructor <;> simp [hstatus]
    · constructor <;> simp [hstatus]
    · constructor <;> simp [hstatus]
  | kept hstatus hat =>
    constructor
    · rw [hstatus, hat]
      exact h.running
    · rw [hstatus, hat]
      exact h.waiting

theorem Begun.moved {edit : Edit} {e e' : Execution} (h : e.Begun)
    (hcancel : edit = .cancel e.id → e.status ≠ .running) (hmoved : edit.Moved e e') : e'.Begun := by
  cases hmoved with
  | cancelled hedit hopen hstatus =>
    rcases cancelled_mem.mp hopen with hpending | hqueued | hrunning
    · exact absurd hpending h.pending
    · exact absurd hqueued h.queued
    · exact absurd hrunning (hcancel hedit)
  | started hqueued hstatus hat => exact absurd hqueued h.queued
  | ended hstatus =>
    rcases hstatus with hstatus | hstatus | hstatus
    · constructor <;> simp [hstatus]
    · constructor <;> simp [hstatus]
    · constructor <;> simp [hstatus]
  | kept hstatus hat => exact ⟨hstatus ▸ h.pending, hstatus ▸ h.queued, hstatus ▸ h.cancelled⟩

end Execution

def WorkerPhase.running? : WorkerPhase → Option Job
  | .started job | .executing job => some job
  | _ => none

namespace Platform
variable {W Q : Type}

def NoneRunsCancelled (s : Platform W Q) : Prop :=
  ∀ id e, s.db.row id = some e → e.status = .cancelled →
    ∀ w job, (s.workers w).running? = some job → job.jobId ≠ id

def AnswersUnstarted (s : Platform W Q) (p : Action W Q × Platform W Q) : Prop :=
  ∀ id e e', p.1 = .cancel id → s.db.row id = some e → e.cancelExecution = .ok e' → e.startedAt = none

def CancelsWaiting (s : Platform W Q) (p : Action W Q × Platform W Q) : Prop :=
  ∀ id e, p.1 = .cancel id → s.db.row id = some e → e.status ≠ .running

variable [DecidableEq W] [DecidableEq Q] {s t : Platform W Q} {a : Action W Q} {id : Uuid}

/-! ## Rows -/

theorem Step.moved (h : Step s a t) {e' : Execution} (he' : t.db.row id = some e') :
    s.db.row id = some e' ∨ (s.db.row id = none ∧ ∃ n : NewExecution, e' = n.row) ∨
      ∃ e edit, s.db.row id = some e ∧ Edit.Moved edit e e' ∧ (edit = .cancel e.id → a = .cancel id) := by
  rcases h.edits with hdb | ⟨q, origin, n, fresh, rfl, hdb⟩ | ⟨edit, hdb, hcancel⟩
  · exact Or.inl (hdb ▸ he')
  · rw [hdb] at he'
    by_cases hid : n.row.id = id
    · subst hid
      rw [ExecutionTable.row_insert_self] at he'
      exact Or.inr (Or.inl ⟨fresh, n, (Option.some.inj he').symm⟩)
    · rw [ExecutionTable.row_insert_of_ne fresh hid] at he'
      exact Or.inl he'
  · rw [hdb, ExecutionTable.row_commit] at he'
    obtain ⟨e, he, rfl⟩ := Option.map_eq_some_iff.mp he'
    refine Or.inr (Or.inr ⟨e, edit, he, edit.after_moved e, ?_⟩)
    intro hedit
    rw [← ExecutionTable.row_id he]
    exact hcancel e.id hedit

def AllTimed (s : Platform W Q) : Prop := ∀ id e, s.db.row id = some e → e.Timed

theorem AllTimed.step (h : AllTimed s) (hstep : Step s a t) : AllTimed t := by
  intro id e' he'
  rcases hstep.moved he' with hold | ⟨-, n, rfl⟩ | ⟨e, edit, he, hmoved, -⟩
  · exact h id e' hold
  · exact ⟨nofun, fun _ => rfl⟩
  · exact (h id e he).moved hmoved

omit [DecidableEq W] [DecidableEq Q] in
theorem answersUnstarted_iff (h : AllTimed s) (p : Action W Q × Platform W Q) :
    AnswersUnstarted s p ↔ CancelsWaiting s p := by
  constructor
  · intro hanswers id e hcancel he hrunning
    have hok : e.cancelExecution = .ok { e with status := .cancelled } :=
      Execution.cancelExecution_ok.mpr ⟨Execution.cancelled_mem.mpr (Or.inr (Or.inr hrunning)), rfl⟩
    exact (h id e he).running hrunning (hanswers id e _ hcancel he hok)
  · intro hwaiting id e e' hcancel he hok
    obtain ⟨hopen, -⟩ := Execution.cancelExecution_ok.mp hok
    rcases Execution.cancelled_mem.mp hopen with hpending | hqueued | hrunning
    · exact (h id e he).waiting (Or.inl hpending)
    · exact (h id e he).waiting (Or.inr hqueued)
    · exact absurd hrunning (hwaiting id e hcancel he)

/-! ## Workers -/

def Underway (s : Platform W Q) : Prop :=
  ∀ w job, (s.workers w).running? = some job → ∃ e, s.db.row job.jobId = some e ∧ e.Begun

theorem Step.running (h : Step s a t) {w : W} {job : Job} (hw : (t.workers w).running? = some job) :
    (s.workers w).running? = some job ∨ ∃ e, t.db.row job.jobId = some e ∧ e.Begun := by
  rcases h.worker w with hsame | hmoves
  · exact Or.inl (hsame ▸ hw)
  · generalize t.workers w = p at hw hmoves
    cases hmoves with
    | start hdequeued hrow hstart =>
      obtain rfl := Option.some.inj hw
      refine Or.inr ⟨_, h.row_after hrow, ?_⟩
      rw [after_start hdequeued hrow (Execution.startJob_some.mp hstart).1]
      constructor <;> simp
    | launch hstarted => exact Or.inl (by rw [hstarted]; exact hw)
    | @idle _ p hp => cases p <;> cases hp <;> cases hw
    | _ => cases hw

theorem Underway.step (h : Underway s) (hstep : Step s a t) (hwaiting : CancelsWaiting s (a, t)) :
    Underway t := by
  intro w job hw
  rcases hstep.running hw with hold | hnew
  · obtain ⟨e, he, hbegun⟩ := h w job hold
    obtain ⟨e', he'⟩ := hstep.row_some he
    refine ⟨e', he', ?_⟩
    rcases hstep.moved he' with hsame | ⟨hnone, -⟩ | ⟨e₀, edit, he₀, hmoved, hcancel⟩
    · obtain rfl := Option.some.inj (he.symm.trans hsame)
      exact hbegun
    · rw [he] at hnone
      cases hnone
    · obtain rfl := Option.some.inj (he.symm.trans he₀)
      exact hbegun.moved (fun hedit => hwaiting _ _ (hcancel hedit) he) hmoved
  · exact hnew

omit [DecidableEq W] [DecidableEq Q] in
theorem Underway.noneRunsCancelled (h : Underway s) : NoneRunsCancelled s := by
  intro id e he hcancelled w job hw hid
  obtain ⟨e', he', hbegun⟩ := h w job hw
  rw [hid, he] at he'
  obtain rfl := Option.some.inj he'
  exact hbegun.cancelled hcancelled

omit [DecidableEq W] [DecidableEq Q] in
theorem underway_initial : Underway (initial : Platform W Q) := nofun

omit [DecidableEq W] [DecidableEq Q] in
theorem allTimed_initial : AllTimed (initial : Platform W Q) := by
  intro id e he
  simp [initial, ExecutionTable.empty, ExecutionTable.row] at he

/-- No worker runs a cancelled execution and every cancellation finds its execution
not started, in all of a run, exactly if every cancellation finds the row not running. -/
theorem cancelled_not_running_iff {path : List (Action W Q × Platform W Q)} (hpath : Path Step initial path) :
    Throughout reached NoneRunsCancelled initial path ∧ Along reached AnswersUnstarted initial path ↔
      Along reached CancelsWaiting initial path := by
  have hanswers : Along reached AnswersUnstarted initial path ↔ Along reached CancelsWaiting initial path := by
    apply along_iff (J := AllTimed) _ _ hpath allTimed_initial
    · exact fun _ _ htimed hstep => htimed.step hstep
    · exact fun _ p htimed _ => answersUnstarted_iff htimed p
  constructor
  · intro h
    exact hanswers.mp h.2
  · intro hwaiting
    refine ⟨?_, hanswers.mpr hwaiting⟩
    have hunderway : Throughout reached Underway initial path := by
      apply throughout_of_step _ (hpath.and hwaiting) underway_initial
      exact fun _ _ hstep hs => hs.step hstep.1 hstep.2
    exact hunderway.imp fun _ hs => hs.noneRunsCancelled

/-- An execution is cancelled in the queue, and a worker skips its job. -/
theorem cancelled_not_running_skipped : ∃ path : List (Action Unit Unit × Platform Unit Unit),
    path.map Prod.fst = [.create () .ephemeral sampleRequest, .refresh (), .enqueue () 0 true none,
      .cancel 1, .pop () sampleRequest.job, .track () 0, .start () "w-0".toList 1] ∧
      Throughout reached NoneRunsCancelled initial path ∧ Along reached AnswersUnstarted initial path := by
  have hrun : ∃ path : List (Action Unit Unit × Platform Unit Unit), Path Step initial path ∧
      path.map Prod.fst = [.create () .ephemeral sampleRequest, .refresh (), .enqueue () 0 true none,
        .cancel 1, .pop () sampleRequest.job, .track () 0, .start () "w-0".toList 1] ∧
      Along reached CancelsWaiting initial path := by
    refine ⟨_, .cons (.create rfl rfl) (.cons (.refresh rfl rfl) (.cons (.enqueueOk rfl)
      (.cons .cancel (.cons (.pop rfl rfl) (.cons (.track rfl) (.cons (.startSkip rfl ?_) .nil)))))), rfl,
      .cons (fun _ _ h => nomatch h) (.cons (fun _ _ h => nomatch h) (.cons (fun _ _ h => nomatch h)
      (.cons ?_ (.cons (fun _ _ h => nomatch h) (.cons (fun _ _ h => nomatch h)
      (.cons (fun _ _ h => nomatch h) .nil))))))⟩
    · intro e he
      cases he
      rfl
    · intro id e hid he hrunning
      cases hid
      cases he
      cases hrunning
  obtain ⟨path, hpath, hactions, hwaiting⟩ := hrun
  exact ⟨path, hactions, (cancelled_not_running_iff hpath).mpr hwaiting⟩

/-- An execution is cancelled while a worker is inside the sandbox for it. -/
theorem running_cancelled : ¬ ∀ path : List (Action Unit Unit × Platform Unit Unit), Path Step initial path →
    Throughout reached NoneRunsCancelled initial path := by
  intro hclaim
  have hrun : ∃ path : List (Action Unit Unit × Platform Unit Unit), Path Step initial path ∧
      ¬ Throughout reached NoneRunsCancelled initial path := by
    refine ⟨[(.create () .ephemeral sampleRequest, _), (.refresh (), _), (.enqueue () 0 true none, _),
      (.pop () sampleRequest.job, _), (.track () 0, _), (.start () "w-0".toList 1, _), (.launch (), _),
      (.cancel 1, _)], .cons (.create rfl rfl) (.cons (.refresh rfl rfl) (.cons (.enqueueOk rfl)
      (.cons (.pop rfl rfl) (.cons (.track rfl) (.cons (.startOk rfl rfl rfl) (.cons (.launch rfl)
      (.cons .cancel .nil))))))), ?_⟩
    rintro ⟨-, -, -, -, -, -, -, -, hlast⟩
    exact hlast 1 _ rfl rfl () _ rfl rfl
  obtain ⟨path, hpath, hnot⟩ := hrun
  exact hnot (hclaim path hpath)

end Platform
end PyFaaS
