import PyFaaS.StepEffects

/-!
# Sandbox launches under duplicate delivery

Only a start transaction that finds the row queued leads to a launch, and it
takes the row out of the queue for good. However often a job is delivered, one
worker gets past its start transaction.
-/

namespace PyFaaS.Platform
open Runs
variable {W Q : Type} [DecidableEq W] [DecidableEq Q] {s t : Platform W Q} {a : Action W Q}
  {as : List (Action W Q)} {id : Uuid}

def Left (s : Platform W Q) (id : Uuid) : Prop :=
  ∃ e, s.db.row id = some e ∧ e.status ≠ .queued

structure Exclusive (s : Platform W Q) : Prop where
  started : ∀ w id, (s.workers w).starting? = some id → Left s id ∧ id ∉ s.launched ∧
    id ∈ s.startTransactions
  single : ∀ w w' id, (s.workers w).starting? = some id → (s.workers w').starting? = some id → w = w'
  launched : ∀ id ∈ s.launched, Left s id ∧ id ∈ s.startTransactions
  once : s.launched.Nodup

omit [DecidableEq Q] in
theorem setWorker_starting {w : W} {p : WorkerPhase} (hp : p.starting? = none) (v : W) (id : Uuid)
    (h : ((s.setWorker w p).workers v).starting? = some id) : (s.workers v).starting? = some id := by
  by_cases hv : v = w
  · subst v
    simp [hp] at h
  · simpa [hv] using h

theorem Step.starting (h : Step s a t) (hstart : ∀ w workerId now, a ≠ .start w workerId now) {w : W} {id : Uuid}
    (hw : (t.workers w).starting? = some id) : (s.workers w).starting? = some id := by
  rcases h.worker w with hsame | hmoves
  · exact hsame ▸ hw
  · generalize t.workers w = p at hw hmoves
    cases hmoves with
    | start hdequeued hrow hstarted => exact (hstart _ _ _ rfl).elim
    | @idle _ p hp => cases p <;> cases hp <;> cases hw
    | _ => cases hw

theorem Step.launches (h : Step s a t) :
    (∃ w job, s.workers w = .started job ∧ t = (s.setWorker w (.executing job)).noteLaunch job.jobId) ∨
    (∃ w job e, s.db.row job.jobId = some e ∧ e.status = .queued ∧ Left t job.jobId ∧
      t = ((s.setWorker w (.started job)).setDb t.db).noteStart job.jobId) ∨
    (t.launched = s.launched ∧ s.startTransactions ⊆ t.startTransactions ∧
      ∀ w id, (t.workers w).starting? = some id → (s.workers w).starting? = some id) := by
  have hothers := h.starting
  cases h with
  | @launch w job hw => exact Or.inl ⟨w, job, hw, rfl⟩
  | @startOk w job workerId now e e' hw hrow hstart =>
    refine Or.inr (Or.inl ⟨w, job, e, hrow, (Execution.startJob_some.mp hstart).1,
      ⟨e', ExecutionTable.row_commit_start hrow hstart, ?_⟩, rfl⟩)
    rw [(Execution.startJob_some.mp hstart).2]
    simp
  | startSkip hw hskip =>
    exact Or.inr (Or.inr ⟨rfl, List.subset_cons_self _ _, setWorker_starting rfl⟩)
  | _ => exact Or.inr (Or.inr ⟨rfl, List.Subset.refl _, fun _ _ => hothers (by simp)⟩)

theorem Left.step (h : Left s id) (hstep : Step s a t) : Left t id := by
  obtain ⟨e, he, hne⟩ := h
  obtain ⟨e', he'⟩ := hstep.row_some he
  exact ⟨e', he', hstep.not_queued he hne he'⟩

omit [DecidableEq W] [DecidableEq Q] in
theorem Left.not_queued (h : Left s id) {e : Execution} (he : s.db.row id = some e) :
    e.status ≠ .queued := by
  obtain ⟨e', he', hne⟩ := h
  exact Option.some.inj (he'.symm.trans he) ▸ hne

def BegunLeft (s : Platform W Q) : Prop := ∀ w job, (s.workers w).begun? = some job → Left s job.jobId

omit [DecidableEq W] [DecidableEq Q] in
theorem begunLeft_initial : BegunLeft (initial : Platform W Q) := fun _ _ h => by cases h

theorem BegunLeft.step (h : BegunLeft s) (hstep : Step s a t) : BegunLeft t := by
  intro w job hw
  rcases hstep.begun hw with hold | ⟨workerId, now, e, rfl, hdequeued, hrow, hqueued⟩
  · exact (h w job hold).step hstep
  · refine ⟨_, hstep.row_after hrow, ?_⟩
    simp [after_start hdequeued hrow hqueued]

omit [DecidableEq Q] in
theorem Exclusive.launch (h : Exclusive s) {w : W} {job : Job} (hw : s.workers w = .started job) :
    Exclusive ((s.setWorker w (.executing job)).noteLaunch job.jobId) := by
  have hown : (s.workers w).starting? = some job.jobId := by rw [hw]; rfl
  obtain ⟨hleft, hnot, hstart⟩ := h.started w _ hown
  refine ⟨?_, ?_, ?_, List.nodup_cons.mpr ⟨hnot, h.once⟩⟩
  · intro v id hv
    have hold := setWorker_starting rfl v id hv
    obtain ⟨hleft', hnot', hstart'⟩ := h.started v id hold
    refine ⟨hleft', fun hmem => ?_, hstart'⟩
    rcases List.mem_cons.mp hmem with rfl | hmem
    · obtain rfl := h.single v w _ hold hown
      simp [WorkerPhase.starting?] at hv
    · exact hnot' hmem
  · intro v v' id hv hv'
    exact h.single v v' id (setWorker_starting rfl v id hv) (setWorker_starting rfl v' id hv')
  · intro id hid
    rcases List.mem_cons.mp hid with rfl | hid
    · exact ⟨hleft, hstart⟩
    · exact h.launched id hid

theorem Exclusive.start (h : Exclusive s) (hstep : Step s a t) {w : W} {job : Job} {e : Execution}
    (hrow : s.db.row job.jobId = some e) (hqueued : e.status = .queued) (hleft : Left t job.jobId)
    (ht : t = ((s.setWorker w (.started job)).setDb t.db).noteStart job.jobId) : Exclusive t := by
  have hfresh : ∀ id, Left s id → id ≠ job.jobId := by
    rintro id hid rfl
    exact hid.not_queued hrow hqueued
  have hworkers : ∀ v id, (t.workers v).starting? = some id →
      v = w ∧ id = job.jobId ∨ (s.workers v).starting? = some id := by
    intro v id hv
    rw [ht] at hv
    by_cases hvw : v = w
    · subst v
      exact Or.inl ⟨rfl, (by simpa [WorkerPhase.starting?] using hv : job.jobId = id).symm⟩
    · exact Or.inr (by simpa [hvw] using hv)
  have hlaunched : t.launched = s.launched := by rw [ht]; rfl
  have hstarts : t.startTransactions = job.jobId :: s.startTransactions := by rw [ht]; rfl
  refine ⟨?_, ?_, ?_, hlaunched ▸ h.once⟩
  · intro v id hv
    rw [hlaunched, hstarts]
    rcases hworkers v id hv with ⟨-, rfl⟩ | hold
    · exact ⟨hleft, fun hmem => hfresh _ (h.launched _ hmem).1 rfl, List.mem_cons_self⟩
    · obtain ⟨hleft', hnot', hstart'⟩ := h.started v id hold
      exact ⟨hleft'.step hstep, hnot', List.mem_cons_of_mem _ hstart'⟩
  · intro v v' id hv hv'
    rcases hworkers v id hv with ⟨rfl, rfl⟩ | hold
    · rcases hworkers v' _ hv' with ⟨rfl, hid⟩ | hold'
      · rfl
      · exact absurd rfl (hfresh _ (h.started v' _ hold').1)
    · rcases hworkers v' _ hv' with ⟨rfl, hid⟩ | hold'
      · exact absurd hid (hfresh _ (h.started v _ hold).1)
      · exact h.single v v' id hold hold'
  · intro id hid
    rw [hlaunched] at hid
    rw [hstarts]
    exact ⟨(h.launched id hid).1.step hstep, List.mem_cons_of_mem _ (h.launched id hid).2⟩

theorem Exclusive.step (h : Exclusive s) (hstep : Step s a t) : Exclusive t := by
  rcases hstep.launches with ⟨w, job, hw, rfl⟩ | ⟨w, job, e, hrow, hqueued, hleft, ht⟩ |
    ⟨hlaunched, hstarts, hstarting⟩
  · exact h.launch hw
  · exact h.start hstep hrow hqueued hleft ht
  · refine ⟨?_, ?_, ?_, hlaunched ▸ h.once⟩
    · intro v id hv
      obtain ⟨hleft, hnot, hstart⟩ := h.started v id (hstarting v id hv)
      exact ⟨hleft.step hstep, hlaunched ▸ hnot, hstarts hstart⟩
    · intro v v' id hv hv'
      exact h.single v v' id (hstarting v id hv) (hstarting v' id hv')
    · intro id hid
      rw [hlaunched] at hid
      exact ⟨(h.launched id hid).1.step hstep, hstarts (h.launched id hid).2⟩

omit [DecidableEq W] [DecidableEq Q] in
theorem exclusive_initial : Exclusive (initial : Platform W Q) :=
  ⟨fun _ _ h => absurd h (by simp [initial, WorkerPhase.starting?]),
    fun _ _ _ h => absurd h (by simp [initial, WorkerPhase.starting?]),
    fun _ h => absurd h List.not_mem_nil, List.nodup_nil⟩

theorem exclusive_reachable (h : Reachable s) : Exclusive s :=
  h.invariant (I := Exclusive) (fun s (hs : s = initial) => hs ▸ exclusive_initial)
    (fun _ _ _ hi hstep => hi.step hstep)

structure Closed (s : Platform W Q) (id : Uuid) : Prop where
  left : Left s id
  idle : ∀ w, (s.workers w).starting? ≠ some id
  unlaunched : id ∉ s.launched

theorem Closed.step (h : Closed s id) (hstep : Step s a t) : Closed t id := by
  rcases hstep.launches with ⟨w, job, hw, rfl⟩ | ⟨w, job, e, hrow, hqueued, -, ht⟩ |
    ⟨hlaunched, -, hstarting⟩
  · have hne : id ≠ job.jobId := by
      rintro rfl
      exact h.idle w (by rw [hw]; rfl)
    refine ⟨h.left.step hstep, fun v hv => h.idle v (setWorker_starting rfl v id hv), ?_⟩
    exact List.not_mem_cons_of_ne_of_not_mem hne h.unlaunched
  · have hne : job.jobId ≠ id := by
      rintro rfl
      exact h.left.not_queued hrow hqueued
    have hlaunched : t.launched = s.launched := by rw [ht]; rfl
    refine ⟨h.left.step hstep, fun v hv => ?_, hlaunched ▸ h.unlaunched⟩
    rw [ht] at hv
    by_cases hvw : v = w
    · subst v
      exact hne (by simpa [WorkerPhase.starting?] using hv)
    · exact h.idle v (by simpa [hvw] using hv)
  · exact ⟨h.left.step hstep, fun v hv => h.idle v (hstarting v id hv), hlaunched ▸ h.unlaunched⟩

/-- However jobs are delivered, the sandbox is started at most once for an
execution, and never for one that was committed cancelled or failed before the
first start transaction on it. -/
theorem sandbox_launched_at_most_once (h : Reachable s) :
    s.launched.Nodup ∧ ∀ id e, s.db.row id = some e → (e.status = .cancelled ∨ e.status = .failed) →
      id ∉ s.startTransactions → ∀ t as, Run Step s as t → id ∉ t.launched := by
  have hs := exclusive_reachable h
  refine ⟨hs.once, fun id e he hclosed hstart t as hrun => ?_⟩
  have hne : e.status ≠ .queued := by
    rcases hclosed with hstatus | hstatus
    · simp [hstatus]
    · simp [hstatus]
  have hbegin : Closed s id := ⟨⟨e, he, hne⟩, fun w hw => hstart (hs.started w id hw).2.2,
    fun hmem => hstart (hs.launched id hmem).2⟩
  exact (hrun.invariant (I := fun s => Closed s id) (fun _ _ _ hi hstep => hi.step hstep)
    hbegin).unlaunched

/-- A cancelled execution whose job is still popped and tracked by a worker. -/
theorem sandbox_launched_at_most_once_cancelled :
    ∃ s t : Platform Unit Unit, (s.db.row 1).map Execution.status = some .cancelled ∧
      t.workers () = .acking sampleRequest.job ∧ 1 ∉ t.launched := by
  have hrun : ∃ s t : Platform Unit Unit, Reachable s ∧
      Run Step s [.pop () sampleRequest.job, .track () 0, .start () "w-0".toList 1] t ∧
      (s.db.row 1).map Execution.status = some .cancelled ∧ s.startTransactions = [] ∧
      t.workers () = .acking sampleRequest.job := by
    refine ⟨_, _, ⟨initial, [.create () .ephemeral sampleRequest, .refresh (),
      .enqueue () 0 true none, .cancel 1], rfl, .cons (.create rfl rfl) (.cons (.refresh rfl rfl)
      (.cons (.enqueueOk rfl) (.cons .cancel (.nil _))))⟩, .cons (.pop rfl rfl) (.cons (.track rfl)
      (.cons (.startSkip rfl ?_) (.nil _))), rfl, rfl, rfl⟩
    intro e he
    cases he
    rfl
  obtain ⟨s, t, hs, hst, hstatus, hstarts, hworker⟩ := hrun
  obtain ⟨e, he, hcancelled⟩ := Option.map_eq_some_iff.mp hstatus
  exact ⟨s, t, hstatus, hworker, (sandbox_launched_at_most_once hs).2 1 e he (Or.inl hcancelled)
    (by simp [hstarts]) t _ hst⟩

end PyFaaS.Platform
