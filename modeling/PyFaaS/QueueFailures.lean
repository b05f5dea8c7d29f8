import PyFaaS.RecordCoherence

/-!
# Failures reported by the queue

An attempt of `enqueue_job` can be applied and still raise, so the job of a
request that gives up may be with a worker already. The branch behind the last
attempt writes FAILED over the row whatever the worker has done to it. An
execution that is failed this way has not run as long as that write comes before
the start transaction.
-/

namespace PyFaaS
open Runs

namespace Edit
open Execution

variable {edit : Edit} {e : Execution}

theorem queue_of_after (h : (edit.after e).failureKind = some .queue) :
    e.failureKind = some .queue ∨ ∃ origin exc loaded, edit = .failEnqueue origin exc loaded ∧ e.id = loaded.id := by
  rcases edit.after_cases e with ⟨-, hsame⟩ | hwrites
  · exact Or.inl (hsame ▸ h)
  · generalize edit.after e = e' at h hwrites
    cases hwrites with
    | cancel hopen => exact Or.inl h
    | start hqueued => exact Or.inl h
    | finish hfinish =>
      rw [(finished_of_finishJob hfinish).failureKind] at h
      exact absurd h (classifyFailure_ne_queue _ _)
    | recover hrunning hstale => cases h
    | failEnqueue hid => exact Or.inr ⟨_, _, _, rfl, hid⟩

theorem after_failEnqueue {loaded : Execution} (hid : e.id = loaded.id) (origin : Origin) (exc : Text) :
    (Edit.failEnqueue origin exc loaded).after e = flush loaded (loaded.failEnqueue origin exc) e := by
  simp [Edit.after, Edit.row, hid]

end Edit

def RequestPhase.id : RequestPhase → Uuid
  | .committed _ n | .enqueuing _ n _ _ => n.id
  | .failing _ loaded _ => loaded.id

namespace Platform
variable {W Q : Type}

def FailsUnstarted (s : Platform W Q) (p : Action W Q × Platform W Q) : Prop :=
  ∀ q origin loaded exc e, p.1 = .failEnqueue q → s.requests q = some (.failing origin loaded exc) →
    s.db.row loaded.id = some e → e.startedAt = none

/-! ## Requests and their rows -/

structure Submitting (s : Platform W Q) : Prop where
  unique : ∀ q q' p p', s.requests q = some p → s.requests q' = some p' → p.id = p'.id → q = q'
  row : ∀ q p, s.requests q = some p → ∃ e, s.db.row p.id = some e ∧ e.failureKind ≠ some .queue
  loaded : ∀ q p e, s.requests q = some p → p.loaded? = some e → e.id = p.id ∧ e.failureKind ≠ some .queue
  failed : ∀ q p e, s.requests q = some p → p.loaded? = some e → e.status = .failed → Left s e.id

variable [DecidableEq W] [DecidableEq Q] {s t : Platform W Q} {a : Action W Q}

theorem Submitting.origin (h : Submitting s) (hstep : Step s a t) {q : Q} {p : RequestPhase}
    (hp : t.requests q = some p) :
    (∃ p', s.requests q = some p' ∧ p'.id = p.id) ∨
      ∃ origin n, a = .create q origin n ∧ s.db.row n.id = none ∧ p = .committed origin n := by
  rcases hstep.request q with hsame | hproceeds
  · exact Or.inl ⟨p, hsame ▸ hp, rfl⟩
  · rw [hp] at hproceeds
    cases hproceeds with
    | create fresh => exact Or.inr ⟨_, _, rfl, fresh, rfl⟩
    | refresh hq hrow => exact Or.inl ⟨_, hq, rfl⟩
    | retry hq => exact Or.inl ⟨_, hq, rfl⟩
    | giveUp hq => exact Or.inl ⟨_, hq, (h.loaded q _ _ hq rfl).1.symm⟩

theorem Submitting.after_unblamed (h : Submitting s) (hstep : Step s a t) {q : Q} {p p' : RequestPhase} {e : Execution}
    (hp : s.requests q = some p) (hp' : t.requests q = some p') (he : s.db.row p.id = some e)
    (hkind : e.failureKind ≠ some .queue) : (s.after a e).failureKind ≠ some .queue := by
  refine after_of (P := fun row => row.failureKind ≠ some .queue) hkind fun edit hedit hqueue => ?_
  rcases Edit.queue_of_after hqueue with hold | ⟨origin, exc, loaded, rfl, hid⟩
  · exact hkind hold
  · obtain ⟨q', rfl, hq'⟩ := failing_of_failEnqueue hedit
    have hsame : p.id = loaded.id := (ExecutionTable.row_id he).symm.trans hid
    obtain rfl : q = q' := h.unique q q' p _ hp hq' hsame
    cases hstep with
    | failEnqueue hq => simp at hp'

theorem Submitting.step (h : Submitting s) (hstep : Step s a t) : Submitting t := by
  -- no open request is about the execution that a new request creates
  have hfresh : ∀ {q : Q} {p : RequestPhase} {n : NewExecution}, s.requests q = some p → s.db.row n.id = none →
      p.id ≠ n.id := by
    intro q p n hp fresh hid
    obtain ⟨e, he, -⟩ := h.row q p hp
    rw [hid, fresh] at he
    cases he
  constructor
  · intro q q' p p' hp hp' hid
    rcases h.origin hstep hp with ⟨p₀, hp₀, hid₀⟩ | ⟨origin, n, ha, fresh, rfl⟩
    · rcases h.origin hstep hp' with ⟨p₁, hp₁, hid₁⟩ | ⟨origin, n, ha, fresh, rfl⟩
      · exact h.unique q q' p₀ p₁ hp₀ hp₁ (hid₀.trans (hid.trans hid₁.symm))
      · exact absurd (hid₀.trans hid) (hfresh hp₀ fresh)
    · rcases h.origin hstep hp' with ⟨p₁, hp₁, hid₁⟩ | ⟨origin', n', ha', fresh', rfl⟩
      · exact absurd (hid₁.trans hid.symm) (hfresh hp₁ fresh)
      · exact (Action.create.inj (ha.symm.trans ha')).1
  · intro q p hp
    rcases h.origin hstep hp with ⟨p₀, hp₀, hid₀⟩ | ⟨origin, n, rfl, fresh, rfl⟩
    · obtain ⟨e, he, hkind⟩ := h.row q p₀ hp₀
      exact ⟨_, hid₀ ▸ hstep.row_after he, h.after_unblamed hstep hp₀ hp he hkind⟩
    · refine ⟨n.row, ?_, by simp [NewExecution.row]⟩
      cases hstep with
      | create hq fresh => exact ExecutionTable.row_insert_self fresh
  · intro q p e hp he
    rcases hstep.request q with hsame | hproceeds
    · exact h.loaded q p e (hsame ▸ hp) he
    · rw [hp] at hproceeds
      cases hproceeds with
      | create fresh => cases he
      | refresh hq hrow =>
        obtain rfl := Option.some.inj he
        obtain ⟨e', he', hkind⟩ := h.row q _ hq
        obtain rfl := Option.some.inj (hrow.symm.trans he')
        exact ⟨ExecutionTable.row_id hrow, hkind⟩
      | retry hq =>
        obtain ⟨hid, hkind⟩ := h.loaded q _ e hq he
        exact ⟨hid, hkind⟩
      | giveUp hq =>
        obtain rfl := Option.some.inj he
        exact ⟨rfl, (h.loaded q _ _ hq rfl).2⟩
  · intro q p e hp he hfailed
    rcases hstep.loaded hp he with ⟨p', hp', he'⟩ | ⟨id, hrow⟩
    · exact (h.failed q p' e hp' he' hfailed).step hstep
    · obtain rfl := ExecutionTable.row_id hrow
      have hleft : Left s e.id := ⟨e, hrow, by simp [hfailed]⟩
      exact hleft.step hstep

/-! ## Started executions -/

structure Stamped (s : Platform W Q) : Prop where
  launched : ∀ id ∈ s.launched, ∃ e, s.db.row id = some e ∧ e.startedAt ≠ none
  begun : ∀ w job, (s.workers w).begun? = some job → ∃ e, s.db.row job.jobId = some e ∧ e.startedAt ≠ none

theorem Step.launched (h : Step s a t) : t.launched = s.launched ∨
    ∃ w job, a = .launch w ∧ s.workers w = .started job ∧ t.launched = job.jobId :: s.launched := by
  cases h with
  | launch hw => exact Or.inr ⟨_, _, rfl, hw, rfl⟩
  | _ => exact Or.inl rfl

theorem Stamped.step (h : Stamped s) (hstep : Step s a t) : Stamped t := by
  have hkept : ∀ {id e}, s.db.row id = some e → e.startedAt ≠ none →
      ∃ e', t.db.row id = some e' ∧ e'.startedAt ≠ none := by
    intro id e he hat
    refine ⟨_, hstep.row_after he, after_of (P := fun row => row.startedAt ≠ none) hat fun edit _ => ?_⟩
    rcases edit.after_startedAt e with hsame | ⟨-, hset⟩
    · rwa [hsame]
    · exact hset
  constructor
  · intro id hid
    rcases hstep.launched with hsame | ⟨w, job, rfl, hw, hlaunched⟩
    · obtain ⟨e, he, hat⟩ := h.launched id (hsame ▸ hid)
      exact hkept he hat
    · rw [hlaunched] at hid
      rcases List.mem_cons.mp hid with rfl | hid
      · obtain ⟨e, he, hat⟩ := h.begun w job (by rw [hw]; rfl)
        exact hkept he hat
      · obtain ⟨e, he, hat⟩ := h.launched id hid
        exact hkept he hat
  · intro w job hw
    rcases hstep.begun hw with hold | ⟨workerId, now, e, rfl, hdequeued, hrow, hqueued⟩
    · obtain ⟨e, he, hat⟩ := h.begun w job hold
      exact hkept he hat
    · refine ⟨_, hstep.row_after hrow, ?_⟩
      simp [after_start hdequeued hrow hqueued]

/-! ## Steps -/

def Unstarted (s : Platform W Q) : Prop :=
  ∀ id e, s.db.row id = some e → e.failureKind = some .queue → e.startedAt = none ∧ e.status ≠ .queued

theorem Unstarted.step (h : Unstarted s) (hs : Submitting s) (hfits : FailsUnstarted s (a, t)) (hstep : Step s a t) :
    Unstarted t := by
  intro id e' he' hqueue
  rcases hstep.row_before he' with ⟨q, origin, n, -, -, -, rfl⟩ | ⟨e, he, rfl⟩
  · cases hqueue
  · revert hqueue
    refine after_of (P := fun row => row.failureKind = some .queue → row.startedAt = none ∧ row.status ≠ .queued)
      (h id e he) ?_
    intro edit hedit hqueue
    rcases Edit.queue_of_after hqueue with hold | ⟨origin, exc, loaded, rfl, hid⟩
    · obtain ⟨hat, hne⟩ := h id e he hold
      rcases edit.after_startedAt e with hsame | ⟨hqueued, -⟩
      · exact ⟨hsame.trans hat, edit.after_not_queued hne⟩
      · exact absurd hqueued hne
    · obtain ⟨q, ha, hq⟩ := failing_of_failEnqueue hedit
      have hrow : s.db.row loaded.id = some e := by rw [← hid, ExecutionTable.row_id he, he]
      rw [Edit.after_failEnqueue hid]
      refine ⟨(Execution.column_unchanged _ _).trans (hfits q origin loaded exc e ha hq hrow), ?_⟩
      rw [Execution.flush_status, Execution.failEnqueue_status]
      by_cases hl : loaded.status = .failed
      · rw [hl, Execution.column_unchanged]
        exact (hs.failed q _ loaded hq rfl hl).not_queued hrow
      · rw [Execution.column_changed _ (Ne.symm hl)]
        simp

end Platform
end PyFaaS
