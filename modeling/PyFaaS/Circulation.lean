import PyFaaS.StepEffects

/-!
# Where a job circulates

A job comes in with the request that creates its execution and goes on to the
queue, to workers and to the processing set. As long as nothing else puts jobs
into the queue, every job agrees with the row of its execution, and there is one
job for each execution.
-/

namespace PyFaaS
open Runs

structure Job.Describes (job : Job) (e : Execution) : Prop where
  functionId : job.functionId = e.functionId
  versionId : job.versionId = e.functionVersionId
  payload : job.payload = e.payload
  timeout : job.timeout = e.timeout
  executionType : job.executionType = e.executionType

theorem NewExecution.job_describes_row (n : NewExecution) : n.job.Describes n.row := ⟨rfl, rfl, rfl, rfl, rfl⟩

theorem Job.Describes.of_sameRequest {job : Job} {e e' : Execution} (h : job.Describes e)
    (hsame : Execution.SameRequest e e') : job.Describes e' := by
  obtain ⟨-, hfunction, hversion, -, -, htype, -, hpayload, -, -, htimeout, -⟩ := hsame
  exact ⟨h.functionId.trans hfunction.symm, h.versionId.trans hversion.symm, h.payload.trans hpayload.symm,
    h.timeout.trans htimeout.symm, h.executionType.trans htype.symm⟩

namespace Platform
variable {W Q : Type} {s t : Platform W Q} {job : Job} {id : Uuid}

inductive Circulates (s : Platform W Q) (job : Job) : Prop where
  | requested {q : Q} {p : RequestPhase} {n : NewExecution} (hp : s.requests q = some p)
      (hn : p.new? = some n) (hjob : n.job = job)
  | queued (h : s.queue.Holds job)
  | held {w : W} (h : (s.workers w).job? = some job)
  | tracked (h : s.processing.Holds job)

variable [DecidableEq W] [DecidableEq Q] {a : Action W Q}

/-! ## Rows -/

theorem Step.sameRequest (h : Step s a t) {e : Execution} (he : s.db.row id = some e) :
    ∃ e', t.db.row id = some e' ∧ Execution.SameRequest e e' :=
  ⟨_, h.row_after he, after_of (P := Execution.SameRequest e) (.refl e) fun edit _ => edit.after_sameRequest e⟩

theorem Step.row_back (h : Step s a t) {e' : Execution} (he' : t.db.row id = some e') :
    (∃ e, s.db.row id = some e ∧ Execution.SameRequest e e') ∨
      ∃ q origin n, a = .create q origin n ∧ e' = n.row := by
  rcases h.row_before he' with ⟨q, origin, n, hcreate, -, -, hrow⟩ | ⟨e, he, rfl⟩
  · exact Or.inr ⟨q, origin, n, hcreate, hrow⟩
  · exact Or.inl ⟨e, he, after_of (P := Execution.SameRequest e) (.refl e) fun edit _ => edit.after_sameRequest e⟩

/-! ## Places -/

omit [DecidableEq Q] in
theorem setWorker_job {w v : W} {p : WorkerPhase} (h : ((s.setWorker w p).workers v).job? = some job) :
    v = w ∧ p.job? = some job ∨ v ≠ w ∧ (s.workers v).job? = some job := by
  by_cases hv : v = w
  · subst v
    exact Or.inl ⟨rfl, by simpa using h⟩
  · exact Or.inr ⟨hv, by simpa [hv] using h⟩

theorem Step.queued (hstep : Step s a t) (h : t.queue.Holds job) :
    s.queue.Holds job ∨ (∃ q p n, s.requests q = some p ∧ p.new? = some n ∧ n.job = job) ∨
      ∃ score, a = .redeliver job score := by
  cases hstep with
  | enqueueOk hq =>
    rcases (SortedSet.holds_zadd _ _ _ _).mp h with rfl | hold
    · exact Or.inr (Or.inl ⟨_, _, _, hq, rfl, rfl⟩)
    · exact Or.inl hold
  | @enqueueRaises q origin n loaded attempts score applied exc hq =>
    cases applied with
    | true =>
      rcases (SortedSet.holds_zadd _ _ _ _).mp h with rfl | hold
      · exact Or.inr (Or.inl ⟨_, _, _, hq, rfl, rfl⟩)
      · exact Or.inl hold
    | false => exact Or.inl h
  | redeliver =>
    rcases (SortedSet.holds_zadd _ _ _ _).mp h with rfl | hold
    · exact Or.inr (Or.inr ⟨_, rfl⟩)
    · exact Or.inl hold
  | pop hw hjob => exact Or.inl ((SortedSet.holds_zrem _ _ _).mp h).2
  | popLost hw hjob => exact Or.inl ((SortedSet.holds_zrem _ _ _).mp h).2
  | _ => exact Or.inl h

theorem Step.held (hstep : Step s a t) {w : W} (h : (t.workers w).job? = some job) :
    (s.workers w).job? = some job ∨ a = .pop w job ∧ s.queue.Holds job := by
  rcases hstep.worker w with hsame | hmoves
  · exact Or.inl (hsame ▸ h)
  · generalize t.workers w = p at h hmoves
    cases hmoves with
    | @pop job' hpolling hleast =>
      obtain rfl : job' = job := Option.some.inj h
      obtain ⟨entry, hmem, hentry⟩ := List.any_eq_true.mp hleast
      simp only [Bool.and_eq_true, decide_eq_true_eq] at hentry
      refine Or.inr ⟨rfl, entry.2, ?_⟩
      rw [← hentry.1]
      exact hmem
    | track hpopped => exact Or.inl (by rw [hpopped]; exact h)
    | start hdequeued hrow hstart => exact Or.inl (by rw [hdequeued]; exact h)
    | launch hstarted => exact Or.inl (by rw [hstarted]; exact h)
    | sandboxEnds hexecuting => exact Or.inl (by rw [hexecuting]; exact h)
    | done hheld => exact Or.inl (hheld.trans h)
    | idle hnone =>
      rw [hnone] at h
      cases h

omit [DecidableEq W] [DecidableEq Q] in
theorem acked_subset {processing : SortedSet Job} {job job' : Job} (h : (acked processing job).Holds job') :
    processing.Holds job' := by
  unfold acked at h
  split at h
  · exact ((SortedSet.holds_zrem _ _ _).mp h).2
  · exact h

theorem Step.tracked (hstep : Step s a t) (h : t.processing.Holds job) :
    s.processing.Holds job ∨ ∃ w, (s.workers w).job? = some job ∧ (t.workers w).job? = some job := by
  cases hstep with
  | @track w job' score hw =>
    rcases (SortedSet.holds_zadd _ _ _ _).mp h with rfl | hold
    · exact Or.inr ⟨w, by rw [hw]; rfl, by simp [WorkerPhase.job?]⟩
    · exact Or.inl hold
  | ack hw => exact Or.inl (acked_subset h)
  | _ => exact Or.inl h

theorem Step.circulates (hstep : Step s a t) (h : Circulates t job) :
    Circulates s job ∨ (∃ q origin n fresh, a = .create q origin n ∧ t.db = s.db.insert n.row fresh ∧ n.job = job) ∨
      ∃ score, a = .redeliver job score := by
  cases h with
  | requested hp hn hjob =>
    rcases hstep.requested hp hn with ⟨p', hp', hn'⟩ | ⟨origin, fresh, hcreate, hdb⟩
    · exact Or.inl (.requested hp' hn' hjob)
    · exact Or.inr (Or.inl ⟨_, origin, _, fresh, hcreate, hdb, hjob⟩)
  | queued h =>
    rcases hstep.queued h with hold | ⟨q, p, n, hp, hn, hjob⟩ | hredeliver
    · exact Or.inl (.queued hold)
    · exact Or.inl (.requested hp hn hjob)
    · exact Or.inr (Or.inr hredeliver)
  | held h =>
    rcases hstep.held h with hold | ⟨-, hold⟩
    · exact Or.inl (.held hold)
    · exact Or.inl (.queued hold)
  | tracked h =>
    rcases hstep.tracked h with hold | ⟨w, hold, -⟩
    · exact Or.inl (.tracked hold)
    · exact Or.inl (.held hold)

/-! ## The row behind a job -/

def Enqueued (a : Action W Q) : Prop := ∀ job score, a ≠ .redeliver job score

/-- Every job agrees with the row of its execution, and is the only one for it. -/
structure Backed (s : Platform W Q) : Prop where
  row : ∀ job, Circulates s job → ∃ e, s.db.row job.jobId = some e ∧ job.Describes e
  unique : ∀ job job', Circulates s job → Circulates s job' → job.jobId = job'.jobId → job = job'

omit [DecidableEq W] [DecidableEq Q] in
theorem not_circulates_initial (job : Job) : ¬ Circulates (initial : Platform W Q) job := by
  intro h
  cases h with
  | requested hp hn hjob => cases hp
  | queued h => exact SortedSet.holds_nil job h
  | held h => cases h
  | tracked h => exact SortedSet.holds_nil job h

omit [DecidableEq W] [DecidableEq Q] in
theorem backed_initial : Backed (initial : Platform W Q) :=
  ⟨fun job h => absurd h (not_circulates_initial job), fun job _ h => absurd h (not_circulates_initial job)⟩

theorem Backed.step (h : Backed s) (ha : Enqueued a) (hstep : Step s a t) : Backed t := by
  -- the job of a new execution meets no other job of the same id, since its row is new
  have hnew : ∀ {n : NewExecution} {job : Job}, s.db.row n.row.id = none → Circulates s job →
      n.job.jobId ≠ job.jobId := by
    intro n job fresh hjob hid
    obtain ⟨e, he, -⟩ := h.row job hjob
    rw [← hid] at he
    change s.db.row n.row.id = some e at he
    rw [fresh] at he
    cases he
  constructor
  · intro job hjob
    rcases hstep.circulates hjob with hold | ⟨q, origin, n, fresh, -, hdb, rfl⟩ | ⟨score, hredeliver⟩
    · obtain ⟨e, he, hdescribes⟩ := h.row job hold
      obtain ⟨e', he', hsame⟩ := hstep.sameRequest he
      exact ⟨e', he', hdescribes.of_sameRequest hsame⟩
    · refine ⟨n.row, ?_, n.job_describes_row⟩
      rw [hdb]
      exact ExecutionTable.row_insert_self fresh
    · exact absurd hredeliver (ha job score)
  · intro job job' hjob hjob' hid
    rcases hstep.circulates hjob with hold | ⟨q, origin, n, fresh, hcreate, -, rfl⟩ | ⟨score, hredeliver⟩
    · rcases hstep.circulates hjob' with hold' | ⟨q, origin, n, fresh, -, -, rfl⟩ | ⟨score, hredeliver⟩
      · exact h.unique job job' hold hold' hid
      · exact absurd hid.symm (hnew fresh hold)
      · exact absurd hredeliver (ha job' score)
    · rcases hstep.circulates hjob' with hold' | ⟨q', origin', n', -, hcreate', -, rfl⟩ | ⟨score, hredeliver⟩
      · exact absurd hid (hnew fresh hold')
      · obtain ⟨-, -, rfl⟩ := Action.create.inj (hcreate.symm.trans hcreate')
        rfl
      · exact absurd hredeliver (ha job' score)
    · exact absurd hredeliver (ha job score)

end Platform
end PyFaaS
