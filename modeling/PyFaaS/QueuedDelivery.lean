import PyFaaS.StepEffects

/-!
# Delivery of queued executions

A queued execution whose enqueue has returned has a job in the queue or at a
worker that has not started it. A job lives only in the memory of the worker
from the pop on: whoever loses it there while its row is still queued orphans the
execution, since nothing reads the processing set and recovery looks at running
rows only.
-/

namespace PyFaaS.Platform
open Runs
variable {W Q : Type} [DecidableEq W] [DecidableEq Q] {s t : Platform W Q} {a : Action W Q}
  {as : List (Action W Q)} {id : Uuid}

def Queued (s : Platform W Q) (id : Uuid) : Prop :=
  ∃ e, s.db.row id = some e ∧ e.status = .queued

/-- In the queue, or held by a live worker inside `_poll_once`. -/
def Delivered (s : Platform W Q) (id : Uuid) : Prop :=
  (∃ job, s.queue.Holds job ∧ job.jobId = id) ∨
    ∃ w job, (s.workers w).job? = some job ∧ job.jobId = id

def Awaited (s : Platform W Q) (id : Uuid) : Prop :=
  (∃ job, s.queue.Holds job ∧ job.jobId = id) ∨
    ∃ w job, (s.workers w).unstarted? = some job ∧ job.jobId = id

theorem job?_of_unstarted? {p : WorkerPhase} {job : Job} (h : p.unstarted? = some job) :
    p.job? = some job := by
  cases p <;> first | exact h | cases h

omit [DecidableEq W] [DecidableEq Q] in
theorem Awaited.delivered (h : Awaited s id) : Delivered s id := by
  rcases h with hqueue | ⟨w, job, hw, hid⟩
  · exact Or.inl hqueue
  · exact Or.inr ⟨w, job, job?_of_unstarted? hw, hid⟩

/-- The job of an accepted execution is not lost while its row is queued: not by
a lost reply of the pop, nor by an exception or a crash before the commit of the
start transaction. -/
def Careful (s : Platform W Q) : Action W Q → Prop
  | .popLost _ job => job.jobId ∈ s.accepted → ¬ Queued s job.jobId
  | .raised w | .crash w => ∀ job, (s.workers w).unstarted? = some job →
      job.jobId ∈ s.accepted → ¬ Queued s job.jobId
  | _ => True

structure Tracked (s : Platform W Q) : Prop where
  accepted : ∀ id ∈ s.accepted, ∃ e, s.db.row id = some e
  requests : ∀ q p n, s.requests q = some p → RequestPhase.new? p = some n →
    ∃ e, s.db.row n.id = some e
  awaited : ∀ id ∈ s.accepted, Queued s id → Awaited s id

/-! ## The parts of the state that a step moves -/

omit [DecidableEq Q] in
theorem Awaited.setWorker (h : Awaited s id) {w : W} {p : WorkerPhase}
    (hkeep : ∀ job, (s.workers w).unstarted? = some job → job.jobId = id → p.unstarted? = some job) :
    Awaited (s.setWorker w p) id := by
  rcases h with hqueue | ⟨v, job, hv, hid⟩
  · exact Or.inl hqueue
  · by_cases hvw : v = w
    · subst v
      exact Or.inr ⟨w, job, by simpa using hkeep job hv hid, hid⟩
    · exact Or.inr ⟨v, job, by simpa [hvw] using hv, hid⟩

omit [DecidableEq W] [DecidableEq Q] in
theorem Awaited.zadd (h : Awaited s id) (job : Job) (score : ℤ) :
    Awaited (s.setQueue (s.queue.zadd job score)) id := by
  rcases h with ⟨job', hheld, hid⟩ | hheld
  · exact Or.inl ⟨job', (SortedSet.holds_zadd _ _ _ _).mpr (Or.inr hheld), hid⟩
  · exact Or.inr hheld

omit [DecidableEq W] [DecidableEq Q] in
theorem Awaited.zrem (h : Awaited s id) {job : Job} (hne : job.jobId ≠ id) :
    Awaited (s.setQueue (s.queue.zrem job)) id := by
  rcases h with ⟨job', hheld, rfl⟩ | hheld
  · refine Or.inl ⟨job', (SortedSet.holds_zrem _ _ _).mpr ⟨?_, hheld⟩, rfl⟩
    rintro rfl
    exact hne rfl
  · exact Or.inr hheld

theorem Step.queued_before (h : Step s a t) {e : Execution} (he : s.db.row id = some e)
    (hq : Queued t id) : Queued s id := by
  obtain ⟨e', he', hstatus⟩ := hq
  by_contra hnot
  exact h.not_queued he (fun hqueued => hnot ⟨e, he, hqueued⟩) he' hstatus

theorem Step.awaited (hcareful : Careful s a) (hstep : Step s a t) (hacc : id ∈ s.accepted)
    (hs : Queued s id) (ht : Queued t id) (h : Awaited s id) : Awaited t id := by
  cases hstep with
  | enqueueOk hq => exact h.zadd _ _
  | @enqueueRaises q origin n loaded attempts score applied exc hq =>
    cases applied with
    | true => exact h.zadd _ _
    | false => exact h
  | redeliver => exact h.zadd _ _
  | @pop w job hw hjob =>
    by_cases hid : job.jobId = id
    · exact Or.inr ⟨w, job, by simp [WorkerPhase.unstarted?], hid⟩
    · have hmoved : Awaited (s.setWorker w (.popped job)) id :=
        h.setWorker fun job' hjob' _ => by rw [hw] at hjob'; cases hjob'
      exact hmoved.zrem hid
  | @popLost w job hw hjob =>
    by_cases hid : job.jobId = id
    · subst hid
      exact absurd hs (hcareful hacc)
    · exact h.zrem hid
  | track hw => exact h.setWorker fun job' hjob' _ => by rw [hw] at hjob'; exact hjob'
  | @startOk w job workerId now e e' hw hrow hstart =>
    refine h.setWorker (p := .started job) fun job' hjob' hid => ?_
    rw [hw] at hjob'
    obtain rfl := Option.some.inj hjob'
    subst hid
    obtain ⟨e₁, he₁, hqueued⟩ := ht
    obtain rfl := Option.some.inj (he₁.symm.trans (ExecutionTable.row_commit_start hrow hstart))
    rw [(Execution.startJob_some.mp hstart).2] at hqueued
    cases hqueued
  | @startSkip w job workerId now hw hskip =>
    refine h.setWorker (p := .acking job) fun job' hjob' hid => ?_
    rw [hw] at hjob'
    obtain rfl := Option.some.inj hjob'
    subst hid
    obtain ⟨e, he, hqueued⟩ := hs
    have hnone := hskip e he
    rw [Execution.startJob_some.mpr ⟨hqueued, rfl⟩] at hnone
    cases hnone
  | launch hw => exact h.setWorker fun job' hjob' _ => by rw [hw] at hjob'; cases hjob'
  | sandboxEnds hw => exact h.setWorker fun job' hjob' _ => by rw [hw] at hjob'; cases hjob'
  | finishOk hw hrow hfinish =>
    exact h.setWorker fun job' hjob' _ => by rw [hw] at hjob'; cases hjob'
  | finishMissing hw hrow => exact h.setWorker fun job' hjob' _ => by rw [hw] at hjob'; cases hjob'
  | finishRaises hw hrow hfinish =>
    exact h.setWorker fun job' hjob' _ => by rw [hw] at hjob'; cases hjob'
  | ack hw => exact h.setWorker fun job' hjob' _ => by rw [hw] at hjob'; cases hjob'
  | raised hw =>
    exact h.setWorker fun job' hjob' hid => absurd (hid ▸ hs) (hcareful job' hjob' (hid ▸ hacc))
  | crash => exact h.setWorker fun job' hjob' hid => absurd (hid ▸ hs) (hcareful job' hjob' (hid ▸ hacc))
  | restart hw => exact h.setWorker fun job' hjob' _ => by rw [hw] at hjob'; cases hjob'
  | _ => exact h

theorem Step.accepted (hstep : Step s a t) (h : id ∈ t.accepted) :
    id ∈ s.accepted ∨ ∃ q p n, s.requests q = some p ∧ p.new? = some n ∧ n.id = id ∧ Awaited t id := by
  cases hstep with
  | @enqueueOk q origin n loaded attempts score hq =>
    rcases List.mem_cons.mp h with rfl | hold
    · refine Or.inr ⟨q, _, n, hq, rfl, rfl, Or.inl ⟨n.job, ?_, rfl⟩⟩
      exact (SortedSet.holds_zadd _ _ _ _).mpr (Or.inl rfl)
    · exact Or.inl hold
  | _ => exact Or.inl h

theorem Tracked.step (h : Tracked s) (hcareful : Careful s a) (hstep : Step s a t) : Tracked t := by
  have hrequested : ∀ q p n, s.requests q = some p → p.new? = some n → ∃ e, t.db.row n.id = some e := by
    intro q p n hp hn
    obtain ⟨e, he⟩ := h.requests q p n hp hn
    exact hstep.row_some he
  refine ⟨?_, ?_, ?_⟩
  · intro id hid
    rcases hstep.accepted hid with hold | ⟨q, p, n, hp, hn, rfl, -⟩
    · obtain ⟨e, he⟩ := h.accepted id hold
      exact hstep.row_some he
    · exact hrequested q p n hp hn
  · intro q p n hp hn
    rcases hstep.requested hp hn with ⟨p', hp', hn'⟩ | ⟨origin, fresh, -, hdb⟩
    · exact hrequested q p' n hp' hn'
    · exact ⟨_, hdb ▸ ExecutionTable.row_insert_self fresh⟩
  · intro id hid hqueued
    rcases hstep.accepted hid with hold | ⟨-, -, -, -, -, -, hawaited⟩
    · obtain ⟨e, he⟩ := h.accepted id hold
      have hbefore := hstep.queued_before he hqueued
      exact hstep.awaited hcareful hold hbefore hqueued (h.awaited id hold hbefore)
    · exact hawaited

omit [DecidableEq W] [DecidableEq Q] in
theorem tracked_initial : Tracked (initial : Platform W Q) :=
  ⟨fun _ h => absurd h List.not_mem_nil, fun _ _ _ h => absurd h (by simp [initial]),
    fun _ h => absurd h List.not_mem_nil⟩

/-- In a run in which no accepted job is lost while its row is queued, every
accepted queued execution is in the queue or held by a live worker. -/
theorem queued_executions_delivered
    (h : Run (fun s a t => Careful s a ∧ Step s a t) (initial : Platform W Q) as s) :
    ∀ id ∈ s.accepted, Queued s id → Delivered s id := by
  have htracked := h.invariant (fun _ _ _ hi hstep => hi.step hstep.1 hstep.2) tracked_initial
  exact fun id hid hqueued => (htracked.awaited id hid hqueued).delivered

theorem queued_execution_delivered_popped :
    ∃ s : Platform Unit Unit, s.accepted = [1] ∧ Delivered s 1 := by
  have hrun : Run (fun s a t => Careful s a ∧ Step s a t) (initial : Platform Unit Unit)
      [.create () .ephemeral sampleRequest, .refresh (), .enqueue () 0 true none,
        .pop () sampleRequest.job] _ :=
    .cons ⟨by trivial, .create rfl rfl⟩ (.cons ⟨by trivial, .refresh rfl rfl⟩
      (.cons ⟨by trivial, .enqueueOk rfl⟩ (.cons ⟨by trivial, .pop rfl rfl⟩ (.nil _))))
  exact ⟨_, rfl, queued_executions_delivered hrun 1 List.mem_cons_self ⟨_, rfl, rfl⟩⟩

/-- The run of the defect: a database error in the start transaction reaches the
loop of the worker, and the job is gone. -/
theorem queued_execution_orphaned :
    ¬ ∀ (s : Platform Unit Unit), Reachable s → ∀ id ∈ s.accepted, Queued s id → Delivered s id := by
  intro hclaim
  have hrun : ∃ s : Platform Unit Unit, Reachable s ∧ s.accepted = [1] ∧ Queued s 1 ∧
      s.queue = [] ∧ s.workers () = .polling := by
    refine ⟨_, ⟨initial, [.create () .ephemeral sampleRequest, .refresh (), .enqueue () 0 true none,
      .pop () sampleRequest.job, .track () 0, .raised ()], rfl,
      .cons (.create rfl rfl) (.cons (.refresh rfl rfl) (.cons (.enqueueOk rfl)
      (.cons (.pop rfl rfl) (.cons (.track rfl) (.cons (.raised (by simp)) (.nil _))))))⟩,
      rfl, ⟨_, rfl, rfl⟩, rfl, rfl⟩
  obtain ⟨s, hs, hacc, hqueued, hqueue, hworker⟩ := hrun
  rcases hclaim s hs 1 (by simp [hacc]) hqueued with ⟨job, hheld, -⟩ | ⟨w, job, hw, -⟩
  · rw [hqueue] at hheld
    exact SortedSet.holds_nil job hheld
  · cases w
    rw [hworker] at hw
    cases hw

end PyFaaS.Platform
