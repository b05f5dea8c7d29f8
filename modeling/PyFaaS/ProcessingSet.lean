import PyFaaS.Circulation

/-!
# The processing set

A job gets into the processing set when a worker has popped it and leaves it by
the acknowledgement at the end of `_poll_once`. An exception that reaches the loop
of `run` before that leaves the member behind.
-/

namespace PyFaaS.Platform
open Runs
variable {W Q : Type} {s t : Platform W Q}

structure InFlight (s : Platform W Q) : Prop where
  held : ∀ job, s.processing.Holds job → ∃ w, (s.workers w).job? = some job
  idle : (∀ w, (s.workers w).job? = none) → s.processing = []

inductive Drops (s : Platform W Q) : Action W Q → W → Prop
  | raised (w : W) : Drops s (.raised w) w
  | finish {w : W} {job : Job} {r : SandboxResult} {elapsed : ℤ} (now : Time) (newId : ℕ → Uuid) {e : Execution}
      (hw : s.workers w = .reporting job r elapsed) (hrow : s.db.row job.jobId = some e)
      (hfinish : e.finishJob r elapsed now = none) : Drops s (.finish w now newId) w

/-- A worker drops a tracked job only while another worker holds the same. -/
def DropsSafely (s : Platform W Q) (p : Action W Q × Platform W Q) : Prop :=
  ∀ w job, Drops s p.1 w → (s.workers w).job? = some job → s.processing.Holds job →
    ∃ v, v ≠ w ∧ (s.workers v).job? = some job

def crashFree : Action W Q → Bool
  | .redeliver _ _ | .crash _ => false
  | _ => true

theorem enqueued_of_crashFree {a : Action W Q} (ha : crashFree a = true) : Enqueued a := by
  rintro job score rfl
  cases ha

theorem inFlight_of_held (h : ∀ job, s.processing.Holds job → ∃ w, (s.workers w).job? = some job) : InFlight s := by
  refine ⟨h, fun hidle => List.eq_nil_iff_forall_not_mem.mpr fun entry hentry => ?_⟩
  obtain ⟨w, hw⟩ := h entry.1 ⟨entry.2, hentry⟩
  rw [hidle w] at hw
  cases hw

variable [DecidableEq W] [DecidableEq Q] {a : Action W Q}

omit [DecidableEq Q] in
theorem InFlight.setWorker (h : InFlight s) {w : W} {p : WorkerPhase}
    (hkeep : ∀ job, (s.workers w).job? = some job → p.job? = some job) : InFlight (s.setWorker w p) := by
  refine inFlight_of_held fun job hjob => ?_
  obtain ⟨v, hv⟩ := h.held job hjob
  by_cases hvw : v = w
  · subst v
    exact ⟨w, by simpa using hkeep job hv⟩
  · exact ⟨v, by simpa [hvw] using hv⟩

omit [DecidableEq Q] in
theorem inFlight_polling_iff (h : InFlight s) {w : W} : InFlight (s.setWorker w .polling) ↔
    ∀ job, (s.workers w).job? = some job → s.processing.Holds job →
      ∃ v, v ≠ w ∧ (s.workers v).job? = some job := by
  constructor
  · intro ht job _ hjob
    obtain ⟨v, hv⟩ := ht.held job hjob
    rcases setWorker_job hv with ⟨-, hnone⟩ | ⟨hne, hold⟩
    · cases hnone
    · exact ⟨v, hne, hold⟩
  · intro hother
    refine inFlight_of_held fun job hjob => ?_
    obtain ⟨v, hv⟩ := h.held job hjob
    by_cases hvw : v = w
    · subst v
      obtain ⟨v', hne, hv'⟩ := hother job hv hjob
      exact ⟨v', by simpa [hne] using hv'⟩
    · exact ⟨v, by simpa [hvw] using hv⟩

omit [DecidableEq W] [DecidableEq Q] in
theorem acked_removes (hbacked : Backed s) {job : Job} (hjob : s.processing.Holds job) :
    ¬ (acked s.processing job).Holds job := by
  unfold acked
  cases hfind : s.processing.find? fun entry => entry.1.jobId = job.jobId with
  | none =>
    obtain ⟨score, hmem⟩ := hjob
    have hnot := List.find?_eq_none.mp hfind (job, score) hmem
    simp at hnot
  | some entry =>
    have hmem : s.processing.Holds entry.1 := ⟨entry.2, List.mem_of_find?_eq_some hfind⟩
    have hid : entry.1.jobId = job.jobId := by simpa using List.find?_some hfind
    have hsame : entry.1 = job := hbacked.unique entry.1 job (.tracked hmem) (.tracked hjob) hid
    intro hheld
    exact ((SortedSet.holds_zrem _ _ _).mp hheld).1 hsame.symm

omit [DecidableEq Q] in
theorem InFlight.ack (h : InFlight s) (hbacked : Backed s) {w : W} {job : Job} (hw : s.workers w = .acking job) :
    InFlight ((s.setWorker w .polling).setProcessing (acked s.processing job)) := by
  have hheld : (s.workers w).job? = some job := by rw [hw]; rfl
  refine inFlight_of_held fun job' hjob' => ?_
  have hold : s.processing.Holds job' := acked_subset hjob'
  obtain ⟨v, hv⟩ := h.held job' hold
  by_cases hvw : v = w
  · subst v
    obtain rfl : job = job' := Option.some.inj (hheld.symm.trans hv)
    exact absurd hjob' (acked_removes hbacked hold)
  · exact ⟨v, by simpa [hvw] using hv⟩

/-! ## Steps -/

theorem inFlight_iff (hbacked : Backed s) (h : InFlight s) (ha : crashFree a = true) (hstep : Step s a t) :
    InFlight t ↔ DropsSafely s (a, t) := by
  -- no other step drops a job
  have hkept : InFlight t → (∀ w, ¬ Drops s a w) → (InFlight t ↔ DropsSafely s (a, t)) :=
    fun ht hnot => iff_of_true ht fun w job hdrops => absurd hdrops (hnot w)
  have hmoved : ∀ {w : W} {p : WorkerPhase} (p' : WorkerPhase), s.workers w = p → p.job? = none ∨ p'.job? = p.job? →
      InFlight (s.setWorker w p') := by
    intro w p p' hw hsame
    refine h.setWorker fun job hjob => ?_
    rw [hw] at hjob
    rcases hsame with hnone | hsame
    · rw [hnone] at hjob
      cases hjob
    · rw [hsame, hjob]
  cases hstep with
  | @pop w job hw hjob =>
    have ht := hmoved (.popped job) hw (Or.inl rfl)
    exact hkept ⟨ht.held, ht.idle⟩ fun v hdrops => by cases hdrops
  | @track w job score hw =>
    have ht := hmoved (.dequeued job) hw (Or.inr rfl)
    refine hkept (inFlight_of_held fun job' hjob' => ?_) fun v hdrops => by cases hdrops
    rcases (SortedSet.holds_zadd _ _ _ _).mp hjob' with rfl | hold
    · exact ⟨w, by simp [WorkerPhase.job?]⟩
    · exact ht.held job' hold
  | @startOk w job workerId now e e' hw hrow hstart =>
    have ht := hmoved (.started job) hw (Or.inr rfl)
    exact hkept ⟨ht.held, ht.idle⟩ fun v hdrops => by cases hdrops
  | @startSkip w job workerId now hw hskip =>
    have ht := hmoved (.acking job) hw (Or.inr rfl)
    exact hkept ⟨ht.held, ht.idle⟩ fun v hdrops => by cases hdrops
  | @launch w job hw =>
    have ht := hmoved (.executing job) hw (Or.inr rfl)
    exact hkept ⟨ht.held, ht.idle⟩ fun v hdrops => by cases hdrops
  | sandboxEnds hw => exact hkept (hmoved _ hw (Or.inr rfl)) fun v hdrops => by cases hdrops
  | @finishOk w job r elapsed now newId e e' hw hrow hfinish =>
    have ht := hmoved (.acking job) hw (Or.inr rfl)
    refine hkept ⟨ht.held, ht.idle⟩ fun v hdrops => ?_
    cases hdrops with
    | finish now newId hw' hrow' hfinish' => simp_all
  | finishMissing hw hrow =>
    refine hkept (hmoved _ hw (Or.inr rfl)) fun v hdrops => ?_
    cases hdrops with
    | finish now newId hw' hrow' hfinish' => simp_all
  | @finishRaises w job r elapsed now newId e hw hrow hfinish =>
    rw [inFlight_polling_iff h]
    constructor
    · rintro ht v job' hdrops
      cases hdrops
      exact ht job'
    · exact fun hdrops job' => hdrops w job' (.finish now newId hw hrow hfinish)
  | ack hw => exact hkept (h.ack hbacked hw) fun v hdrops => by cases hdrops
  | @raised w hw =>
    rw [inFlight_polling_iff h]
    constructor
    · rintro ht v job' hdrops
      cases hdrops
      exact ht job'
    · exact fun hdrops job' => hdrops w job' (.raised w)
  | crash => cases ha
  | restart hw => exact hkept (hmoved _ hw (Or.inl rfl)) fun v hdrops => by cases hdrops
  | _ => exact hkept ⟨h.held, h.idle⟩ fun v hdrops => by cases hdrops

omit [DecidableEq W] [DecidableEq Q] in
theorem inFlight_initial : InFlight (initial : Platform W Q) :=
  inFlight_of_held fun job hjob => absurd hjob (SortedSet.holds_nil job)

/-- The processing set tracks the jobs in flight in every state of a run exactly if no
exception drops a tracked job that no other worker holds. -/
theorem processing_set_iff {path : List (Action W Q × Platform W Q)} (hpath : Path Step initial path)
    (hcrash : Along reached (fun _ p => crashFree p.1 = true) initial path) :
    Throughout reached InFlight initial path ↔ Along reached DropsSafely initial path := by
  apply throughout_iff (J := Backed) _ _ (hpath.and hcrash) backed_initial inFlight_initial
  · exact fun s p hbacked hstep => hbacked.step (enqueued_of_crashFree hstep.2) hstep.1
  · exact fun s p hbacked hstep h => inFlight_iff hbacked h hstep.2 hstep.1

theorem processing_set_iff_cancelled : ∃ path : List (Action Unit Unit × Platform Unit Unit),
    path.map Prod.fst = [.create () .ephemeral sampleRequest, .refresh (), .enqueue () 0 true none, .cancel 1,
      .pop () sampleRequest.job, .track () 0, .start () [] 0, .ack ()] ∧ Throughout reached InFlight initial path := by
  refine ⟨[(_, _), (_, _), (_, _), (_, _), (_, _), (_, _), (_, _), (_, _)], rfl, (processing_set_iff
    (.cons (.create rfl rfl) (.cons (.refresh rfl rfl) (.cons (.enqueueOk rfl) (.cons .cancel (.cons (.pop rfl rfl)
      (.cons (.track rfl) (.cons (.startSkip rfl ?_) (.cons (.ack rfl) .nil)))))))) ?_).mpr ?_⟩
  · intro e he
    cases he
    rfl
  · exact .cons rfl (.cons rfl (.cons rfl (.cons rfl (.cons rfl (.cons rfl (.cons rfl (.cons rfl .nil)))))))
  · have hnot : ∀ {s : Platform Unit Unit} {p : Action Unit Unit × Platform Unit Unit}, (∀ w, ¬ Drops s p.1 w) →
        DropsSafely s p := fun hdrops w job h => absurd h (hdrops w)
    refine .cons ?_ (.cons ?_ (.cons ?_ (.cons ?_ (.cons ?_ (.cons ?_ (.cons ?_ (.cons ?_ .nil))))))) <;>
      exact hnot fun w h => by cases h

/-- A call that raises behind the pop leaves a member of the processing set for good. -/
theorem processing_set_leaks : ¬ ∀ path : List (Action Unit Unit × Platform Unit Unit), Path Step initial path →
    Along reached (fun _ p => crashFree p.1 = true) initial path → Throughout reached InFlight initial path := by
  intro hclaim
  have hrun : ∃ path : List (Action Unit Unit × Platform Unit Unit), Path Step initial path ∧
      Along reached (fun _ p => crashFree p.1 = true) initial path ∧ ¬ Throughout reached InFlight initial path := by
    refine ⟨[(.create () .ephemeral sampleRequest, _), (.refresh (), _), (.enqueue () 0 true none, _),
      (.pop () sampleRequest.job, _), (.track () 0, _), (.raised (), _)],
      .cons (.create rfl rfl) (.cons (.refresh rfl rfl) (.cons (.enqueueOk rfl) (.cons (.pop rfl rfl)
        (.cons (.track rfl) (.cons (.raised (by simp)) .nil))))),
      .cons rfl (.cons rfl (.cons rfl (.cons rfl (.cons rfl (.cons rfl .nil))))), ?_⟩
    intro hall
    have hlast := hall.2.2.2.2.2.2
    have hempty := hlast.idle fun _ => rfl
    cases hempty
  obtain ⟨path, hpath, hcrash, hnot⟩ := hrun
  exact hnot (hclaim path hpath hcrash)

end PyFaaS.Platform
