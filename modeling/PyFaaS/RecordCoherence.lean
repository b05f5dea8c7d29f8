import PyFaaS.FrozenRecords
import PyFaaS.Sandbox
import PyFaaS.SandboxLaunches

/-!
# Coherent execution records

The eight columns that the writers of an execution share, over whole runs. The
new row, the start transaction and stale recovery keep them coherent. A
cancellation and a failed enqueue close a row without its end time, and a finish
transaction writes the columns of its result also where its status is refused.
-/

namespace PyFaaS
open Runs

structure SandboxResult.Sound (r : SandboxResult) : Prop where
  error : r.success = true → r.error = none
  timedOut : r.success = true → r.timedOut = false

theorem SandboxResult.sound_of_failed {r : SandboxResult} (h : r.success = false) : r.Sound := by
  constructor <;> simp [h]

namespace Sandbox
variable {codec : JsonCodec} {elapsed : ℤ} {r : SandboxResult}

theorem dockerLocalExecute_sound {wait : LocalWait} (h : dockerLocalExecute codec wait elapsed = .ok r) : r.Sound := by
  cases wait with
  | notStarted exc => cases h
  | timedOut output =>
    obtain rfl := Except.ok.inj h
    exact SandboxResult.sound_of_failed rfl
  | exited status output =>
    cases hparse : SandboxLogs.parseResultFromLogs codec output with
    | error exc =>
      rw [dockerLocalExecute_raises hparse] at h
      cases h
    | ok parsed =>
      rw [dockerLocalExecute_exited hparse] at h
      obtain rfl := Except.ok.inj h
      constructor <;> simp +contextual

theorem waitForJob_sound {c : Cluster} {polls : List (Except ApiError JobStatus)}
    (h : waitForJob codec c polls = .ok r) : r.Sound := by
  induction polls with
  | nil =>
    obtain rfl := Except.ok.inj h
    exact SandboxResult.sound_of_failed rfl
  | cons poll polls ih =>
    cases poll with
    | error err => cases h
    | ok job =>
      rw [waitForJob] at h
      split_ifs at h with hs hf
      · cases hparse : SandboxLogs.parseResultFromLogs codec (getPodLogs c) with
        | error exc =>
          rw [hparse] at h
          cases h
        | ok parsed =>
          rw [hparse] at h
          obtain rfl := Except.ok.inj h
          exact ⟨fun _ => rfl, fun _ => rfl⟩
      · obtain rfl := Except.ok.inj h
        exact SandboxResult.sound_of_failed rfl
      · exact ih h

theorem kubernetesExecute_sound {c : Cluster} {jobName : Text}
    (h : kubernetesExecute codec c jobName elapsed = .ok r) : r.Sound := by
  unfold kubernetesExecute at h
  cases hwait : c.createJob.bind fun _ => waitForJob codec c c.polls with
  | error err =>
    rw [hwait] at h
    cases err with
    | other exc => cases h
    | apiException reason =>
      obtain rfl := Except.ok.inj h
      exact SandboxResult.sound_of_failed rfl
  | ok r' =>
    rw [hwait] at h
    obtain rfl := Except.ok.inj h
    have hsound : r'.Sound := by
      cases hcreate : c.createJob with
      | error err =>
        rw [hcreate] at hwait
        cases hwait
      | ok _ =>
        rw [hcreate] at hwait
        exact waitForJob_sound hwait
    exact ⟨hsound.error, hsound.timedOut⟩

theorem outcome_sound (run : JobRun) (ms : ℤ) : ((run.outcome codec ms).result elapsed).Sound := by
  cases run with
  | «local» wait =>
    cases hexec : dockerLocalExecute codec wait ms with
    | error exc =>
      simp only [JobRun.outcome, hexec]
      exact SandboxResult.sound_of_failed rfl
    | ok r =>
      simp only [JobRun.outcome, hexec]
      exact dockerLocalExecute_sound hexec
  | kubernetes c jobName =>
    cases hexec : kubernetesExecute codec c jobName ms with
    | error exc =>
      simp only [JobRun.outcome, hexec]
      exact SandboxResult.sound_of_failed rfl
    | ok r =>
      simp only [JobRun.outcome, hexec]
      exact kubernetesExecute_sound hexec
  | workerTimeout => exact SandboxResult.sound_of_failed rfl

end Sandbox

/-! ## One row -/

namespace Execution
open ExecutionStatus

structure Coherent (e : Execution) : Prop where
  terminal : e.status.terminal = true → e.completedAt ≠ none
  failureKind : e.failureKind ≠ none ↔ e.status = .failed ∨ e.status = .timedOut
  errorMessage : e.status = .completed → e.errorMessage = none
  running : e.status = .running → e.startedAt ≠ none ∧ e.workerId ≠ none
  waiting : e.status = .pending ∨ e.status = .queued → e.result = none ∧ e.startedAt = none ∧ e.completedAt = none

structure Kept (e : Execution) : Prop where
  entered : e.status ≠ .pending
  unfinished : e.status.terminal = false → e.completedAt = none
  queueFailure : e.failureKind = some .queue → e.status = .failed

variable {e e' loaded : Execution} {r : SandboxResult} {elapsed : ℤ} {now : Time}

theorem mem_cancelled_iff {status : ExecutionStatus} :
    .cancelled ∈ status.validTransitions ↔ status.terminal = false := by
  cases status <;> simp [validTransitions, ExecutionStatus.terminal]

theorem coherent_row (n : NewExecution) : n.row.Coherent := by
  constructor <;> simp [NewExecution.row, ExecutionStatus.terminal]

theorem kept_row (n : NewExecution) : n.row.Kept := by
  constructor <;> simp [NewExecution.row]

theorem classifyFailure_failed (error : Option Text) :
    classifyFailure false error = some .infra ∨ classifyFailure false error = some .handler := by
  cases error with
  | none => exact Or.inr rfl
  | some message =>
    simp only [classifyFailure, Bool.false_eq_true, if_false]
    split_ifs
    · exact Or.inl rfl
    · exact Or.inr rfl

theorem classifyFailure_eq_none {success : Bool} {error : Option Text} :
    classifyFailure success error = none ↔ success = true := by
  cases success with
  | true => exact iff_of_true rfl rfl
  | false => rcases classifyFailure_failed error with h | h <;> simp [h]

theorem classifyFailure_ne_queue (success : Bool) (error : Option Text) :
    classifyFailure success error ≠ some .queue := by
  cases success with
  | true => exact nofun
  | false => rcases classifyFailure_failed error with h | h <;> simp [h]

theorem newStatus_mem_running (r : SandboxResult) : newStatus r ∈ ExecutionStatus.running.validTransitions := by
  unfold newStatus
  split_ifs <;> simp [validTransitions]

theorem coherent_iff_of_terminal (h : e.status.terminal = true) :
    e.Coherent ↔ e.completedAt ≠ none ∧ (e.failureKind ≠ none ↔ e.status = .failed ∨ e.status = .timedOut) ∧
      (e.status = .completed → e.errorMessage = none) := by
  constructor
  · exact fun hc => ⟨hc.terminal h, hc.failureKind, hc.errorMessage⟩
  · rintro ⟨hcompleted, hfailure, herror⟩
    refine ⟨fun _ => hcompleted, hfailure, herror, fun hrunning => ?_, fun hwaiting => ?_⟩
    · rw [hrunning] at h
      cases h
    · rcases hwaiting with hwaiting | hwaiting <;> · rw [hwaiting] at h; cases h

theorem terminal_of_not_open (hpending : e.status ≠ .pending) (hqueued : e.status ≠ .queued)
    (hrunning : e.status ≠ .running) : e.status.terminal = true := by
  cases hs : e.status <;> simp_all [ExecutionStatus.terminal]

theorem finishJob_coherent_iff (hkept : e.Kept) (hleft : e.status ≠ .queued) (hr : r.Sound)
    (hfinish : e.finishJob r elapsed now = some e') :
    e'.Coherent ↔ e.status = .running ∨ (r.success = true ↔ e.status = .completed ∨ e.status = .cancelled) := by
  obtain ⟨hstatus, hcompleted, hmessage, hfailure, hstarted, hworker⟩ := finished_of_finishJob hfinish
  have hnone : e'.failureKind = none ↔ r.success = true := by rw [hfailure, classifyFailure_eq_none]
  have hset : e'.completedAt ≠ none := by simp [hcompleted]
  have herror : r.success = true → e'.errorMessage = none := by
    intro hsuccess
    rw [hr.error hsuccess] at hmessage
    exact (Option.some.inj hmessage).symm
  by_cases hrunning : e.status = .running
  · have hnew : e'.status = newStatus r := by rw [hstatus, hrunning, if_pos (newStatus_mem_running r)]
    refine iff_of_true ?_ (Or.inl hrunning)
    cases hsuccess : r.success with
    | true =>
      have hcompletes : e'.status = .completed := by
        rw [hnew, newStatus_completed_iff]
        exact ⟨hr.timedOut hsuccess, hsuccess⟩
      rw [coherent_iff_of_terminal (by rw [hcompletes]; rfl), hcompletes]
      exact ⟨hset, by simp [hnone.mpr hsuccess], fun _ => herror hsuccess⟩
    | false =>
      have hfails : e'.status = .failed ∨ e'.status = .timedOut := by
        rw [hnew, newStatus, hsuccess]
        cases r.timedOut <;> simp
      have hkind : e'.failureKind ≠ none := by simp [hnone, hsuccess]
      rcases hfails with hfails | hfails
      · rw [coherent_iff_of_terminal (by rw [hfails]; rfl), hfails]
        exact ⟨hset, by simp [hkind], (fun hcompletes => by cases hcompletes)⟩
      · rw [coherent_iff_of_terminal (by rw [hfails]; rfl), hfails]
        exact ⟨hset, by simp [hkind], (fun hcompletes => by cases hcompletes)⟩
  · have hterminal : e.status.terminal = true := terminal_of_not_open hkept.entered hleft hrunning
    have hold : e'.status = e.status := by
      rw [hstatus, validTransitions_eq_nil.mpr hterminal]
      simp
    rw [coherent_iff_of_terminal (hold ▸ hterminal), hold, not_iff_comm, not_or]
    cases hs : e.status <;> simp_all [ExecutionStatus.terminal]

theorem Finished.terminal (h : Finished r now e e') (hentered : e.status ≠ .pending) (hleft : e.status ≠ .queued) :
    e'.status.terminal = true := by
  rw [h.status]
  by_cases hrunning : e.status = .running
  · rw [hrunning, if_pos (newStatus_mem_running r), newStatus]
    cases r.timedOut <;> cases r.success <;> rfl
  · have hterminal : e.status.terminal = true := terminal_of_not_open hentered hleft hrunning
    rw [validTransitions_eq_nil.mpr hterminal]
    simpa using hterminal

theorem Finished.kept (h : Finished r now e e') (hkept : e.Kept) (hleft : e.status ≠ .queued) : e'.Kept := by
  have hclosed : e'.status.terminal = true := h.terminal hkept.entered hleft
  refine ⟨fun hpending => ?_, fun hopen => ?_, fun hqueue => ?_⟩
  · rw [hpending] at hclosed
    cases hclosed
  · rw [hopen] at hclosed
    cases hclosed
  · rw [h.failureKind] at hqueue
    exact absurd hqueue (classifyFailure_ne_queue _ _)

theorem flush_failEnqueue (hqueue : loaded.failureKind = some .queue → loaded.status = .failed)
    (hfailed : loaded.status = .failed → e.status = .failed) (origin : Origin) (exc : Text) :
    (flush loaded (loaded.failEnqueue origin exc) e).status = .failed ∧
      ((flush loaded (loaded.failEnqueue origin exc) e).failureKind = some .queue ∨
        e.status = .failed ∧ (flush loaded (loaded.failEnqueue origin exc) e).failureKind = e.failureKind) ∧
      (flush loaded (loaded.failEnqueue origin exc) e).completedAt = e.completedAt := by
  refine ⟨?_, ?_, column_unchanged _ _⟩
  · rw [flush_status, failEnqueue_status]
    by_cases hl : loaded.status = .failed
    · rw [hl, column_unchanged, hfailed hl]
    · rw [column_changed _ (Ne.symm hl)]
  · by_cases hk : loaded.failureKind = some .queue
    · refine Or.inr ⟨hfailed (hqueue hk), ?_⟩
      simp [flush, failEnqueue, hk]
    · exact Or.inl (column_changed _ (Ne.symm hk))

end Execution

namespace Edit

def Fair : Edit → Execution → Prop
  | .finish id r _ _ _, e => r.Sound ∧ (e.id = id → e.status ≠ .queued)
  | .failEnqueue _ _ loaded, e => (loaded.failureKind = some .queue → loaded.status = .failed) ∧
      (e.id = loaded.id → loaded.status = .failed → e.status = .failed)
  | _, _ => True

/-- A cancellation and a failed enqueue find the row closed, and a finish finds it
running or with a status that tells the same of the run. -/
def Fits : Edit → Execution → Prop
  | .cancel id, e => e.id = id → e.status.terminal = true
  | .finish id r _ _ _, e => e.id = id → Execution.storedError r.error ≠ none →
      e.status = .running ∨ (r.success = true ↔ e.status = .completed ∨ e.status = .cancelled)
  | .failEnqueue _ _ loaded, e => e.id = loaded.id → e.status.terminal = true
  | .start _ _ _, _ | .recover _ _ _, _ => True

open Execution

variable {edit : Edit} {e : Execution}

theorem after_kept (h : e.Kept) (hfair : edit.Fair e) : (edit.after e).Kept := by
  rcases edit.after_cases e with ⟨-, hsame⟩ | hwrites
  · rwa [hsame]
  · generalize edit.after e = e' at hwrites
    cases hwrites with
    | cancel hopen =>
      refine ⟨nofun, nofun, fun hqueue => ?_⟩
      rw [h.queueFailure hqueue] at hopen
      cases hopen
    | start hqueued =>
      have hnotyet : e.completedAt = none := h.unfinished (by rw [hqueued]; rfl)
      refine ⟨nofun, fun _ => hnotyet, fun hqueue => ?_⟩
      have hfailed := h.queueFailure hqueue
      rw [hqueued] at hfailed
      cases hfailed
    | finish hfinish => exact (finished_of_finishJob hfinish).kept h (hfair.2 rfl)
    | recover hrunning hstale => exact ⟨nofun, nofun, nofun⟩
    | @failEnqueue _ loaded origin exc hid =>
      obtain ⟨hstatus, -⟩ := flush_failEnqueue hfair.1 (hfair.2 hid) origin exc
      constructor
      · rw [hstatus]
        exact nofun
      · rw [hstatus]
        exact nofun
      · exact fun _ => hstatus

theorem after_failed (h : e.status = .failed) (hfair : edit.Fair e) : (edit.after e).status = .failed := by
  rcases edit.after_cases e with ⟨-, hsame⟩ | hwrites
  · rwa [hsame]
  · generalize edit.after e = e' at hwrites
    cases hwrites with
    | cancel hopen =>
      rw [h] at hopen
      cases hopen
    | start hqueued =>
      rw [h] at hqueued
      cases hqueued
    | finish hfinish =>
      rw [(finished_of_finishJob hfinish).status, h]
      simp [ExecutionStatus.validTransitions]
    | recover hrunning hstale => rfl
    | @failEnqueue _ loaded origin exc hid =>
      obtain ⟨hstatus, -⟩ := flush_failEnqueue hfair.1 (hfair.2 hid) origin exc
      exact hstatus

theorem after_coherent_iff (h : e.Coherent) (hkept : e.Kept) (hfair : edit.Fair e) :
    (edit.after e).Coherent ↔ edit.Fits e := by
  rcases edit.after_cases e with ⟨hnone, hsame⟩ | hwrites
  · rw [hsame]
    refine iff_of_true h ?_
    cases edit with
    | cancel i =>
      intro hid
      by_contra hopen
      have hcancel : e.cancelExecution = .ok { e with status := .cancelled } :=
        cancelExecution_ok.mpr ⟨mem_cancelled_iff.mpr (by simpa using hopen), rfl⟩
      rw [row, if_pos hid, hcancel] at hnone
      cases hnone
    | finish i r elapsed now newId =>
      intro hid herror
      obtain ⟨message, hmessage⟩ := Option.ne_none_iff_exists'.mp herror
      simp [row, hid, finishJob, hmessage] at hnone
    | failEnqueue origin exc loaded =>
      intro hid
      simp [row, hid] at hnone
    | _ => exact trivial
  · generalize edit.after e = e' at hwrites
    cases hwrites with
    | cancel hopen =>
      have hnot : e.status.terminal = false := mem_cancelled_iff.mp hopen
      refine iff_of_false (fun hc => hc.terminal rfl (hkept.unfinished hnot)) fun hfits => ?_
      rw [hfits rfl] at hnot
      cases hnot
    | start hqueued =>
      have hkind : e.failureKind = none := by
        by_contra hset
        rcases h.failureKind.mp hset with hfailed | hfailed <;> simp [hqueued] at hfailed
      refine iff_of_true ?_ trivial
      constructor <;> simp [hkind, ExecutionStatus.terminal]
    | @finish _ _ r elapsed now newId hfinish =>
      have herror : storedError r.error ≠ none := by
        obtain ⟨-, -, hmessage, -⟩ := finished_of_finishJob hfinish
        simp [hmessage]
      rw [finishJob_coherent_iff hkept (hfair.2 rfl) hfair.1 hfinish]
      exact ⟨fun hc _ _ => hc, fun hfits => hfits rfl herror⟩
    | recover hrunning hstale =>
      refine iff_of_true ?_ trivial
      constructor <;> simp
    | @failEnqueue _ loaded origin exc hid =>
      obtain ⟨hstatus, hkind, hcompleted⟩ := flush_failEnqueue hfair.1 (hfair.2 hid) origin exc
      have hset : (flush loaded (loaded.failEnqueue origin exc) e).failureKind ≠ none := by
        rcases hkind with hqueue | ⟨hfailed, hsame⟩
        · simp [hqueue]
        · rw [hsame]
          exact h.failureKind.mpr (Or.inl hfailed)
      rw [coherent_iff_of_terminal (by rw [hstatus]; rfl), hstatus, hcompleted]
      constructor
      · intro hclosed _
        by_contra hopen
        exact hclosed.1 (hkept.unfinished (by simpa using hopen))
      · intro hfits
        exact ⟨h.terminal (hfits hid), by simp [hset], (fun hcompletes => by cases hcompletes)⟩

end Edit

namespace Platform
variable {W Q : Type}

def Coherent (s : Platform W Q) : Prop := ∀ id e, s.db.row id = some e → e.Coherent

def SandboxReturns : Action W Q → Prop
  | .sandboxEnds _ outcome _ => ∃ codec ms, ∃ run : Sandbox.JobRun, outcome = run.outcome codec ms
  | _ => True

def FitsRows (s : Platform W Q) (p : Action W Q × Platform W Q) : Prop :=
  ∀ edit, s.edit? p.1 = some edit → ∀ id e, s.db.row id = some e → edit.Fits e

structure Orderly (s : Platform W Q) : Prop where
  rows : ∀ id e, s.db.row id = some e → e.Kept
  begun : BegunLeft s
  results : ∀ w job r elapsed, s.workers w = .reporting job r elapsed → r.Sound
  queueFailures : ∀ q p e, s.requests q = some p → p.loaded? = some e →
    e.failureKind = some .queue → e.status = .failed
  loaded : ∀ q p e, s.requests q = some p → p.loaded? = some e →
    ∃ e', s.db.row e.id = some e' ∧ (e.status = .failed → e'.status = .failed)

variable [DecidableEq W] [DecidableEq Q] {s t : Platform W Q} {a : Action W Q}

omit [DecidableEq W] [DecidableEq Q] in
theorem orderly_initial : Orderly (initial : Platform W Q) := by
  constructor
  · exact fun _ _ h => by cases h
  · exact begunLeft_initial
  · exact fun _ _ _ _ h => by cases h
  · exact fun _ _ _ h => by cases h
  · exact fun _ _ _ h => by cases h

omit [DecidableEq W] [DecidableEq Q] in
theorem Orderly.fair (h : Orderly s) {edit : Edit} (hedit : s.edit? a = some edit) {id : Uuid} {e : Execution}
    (he : s.db.row id = some e) : edit.Fair e := by
  have hid : e.id = id := ExecutionTable.row_id he
  cases edit?_eq_some.mp hedit with
  | @finish w job r elapsed now newId hw =>
    refine ⟨h.results w job r elapsed hw, fun hjob => ?_⟩
    have hleft : Left s job.jobId := h.begun w job (by rw [hw]; rfl)
    exact hleft.not_queued (hjob ▸ hid ▸ he)
  | @failEnqueue q origin loaded exc hq =>
    refine ⟨h.queueFailures q _ loaded hq rfl, fun hloaded => ?_⟩
    obtain ⟨e', he', hfailed⟩ := h.loaded q _ loaded hq rfl
    rw [← hloaded, hid, he] at he'
    exact Option.some.inj he' ▸ hfailed
  | _ => exact trivial

omit [DecidableEq W] [DecidableEq Q] in
theorem Orderly.after_kept (h : Orderly s) {id : Uuid} {e : Execution} (he : s.db.row id = some e) :
    (s.after a e).Kept :=
  after_of (h.rows id e he) fun _ hedit => Edit.after_kept (h.rows id e he) (h.fair hedit he)

omit [DecidableEq W] [DecidableEq Q] in
theorem Orderly.after_failed (h : Orderly s) {id : Uuid} {e : Execution} (he : s.db.row id = some e)
    (hfailed : e.status = .failed) : (s.after a e).status = .failed :=
  after_of (P := fun e' => e'.status = .failed) hfailed fun _ hedit => Edit.after_failed hfailed (h.fair hedit he)

theorem Orderly.step (h : Orderly s) (ha : SandboxReturns a) (hstep : Step s a t) : Orderly t := by
  constructor
  · intro id e' he'
    rcases hstep.row_before he' with ⟨q, origin, n, -, -, -, rfl⟩ | ⟨e, he, rfl⟩
    · exact Execution.kept_row n
    · exact h.after_kept he
  · exact h.begun.step hstep
  · intro w job r elapsed hw
    rcases hstep.worker w with hsame | hmoves
    · exact h.results w job r elapsed (hsame ▸ hw)
    · rw [hw] at hmoves
      cases hmoves with
      | sandboxEnds hexecuting =>
        obtain ⟨codec, ms, run, rfl⟩ := ha
        exact Sandbox.outcome_sound run ms
      | idle hp => cases hp
  · intro q p e hp he
    rcases hstep.loaded hp he with ⟨p', hp', he'⟩ | ⟨id, hrow⟩
    · exact h.queueFailures q p' e hp' he'
    · exact (h.rows id e hrow).queueFailure
  · intro q p e hp he
    have hkeeps : ∀ e₀, s.db.row e.id = some e₀ → (e.status = .failed → e₀.status = .failed) →
        ∃ e', t.db.row e.id = some e' ∧ (e.status = .failed → e'.status = .failed) := by
      intro e₀ he₀ hfailed
      exact ⟨_, hstep.row_after he₀, fun hloaded => h.after_failed he₀ (hfailed hloaded)⟩
    rcases hstep.loaded hp he with ⟨p', hp', he'⟩ | ⟨id, hrow⟩
    · obtain ⟨e₀, he₀, hfailed⟩ := h.loaded q p' e hp' he'
      exact hkeeps e₀ he₀ hfailed
    · obtain rfl := ExecutionTable.row_id hrow
      exact hkeeps e hrow id

theorem coherent_step_iff (hs : Orderly s) (h : Coherent s) (hstep : Step s a t) :
    Coherent t ↔ FitsRows s (a, t) := by
  constructor
  · intro ht edit hedit id e he
    have hafter := ht id _ (hstep.row_after he)
    rw [after, hedit] at hafter
    exact (Edit.after_coherent_iff (h id e he) (hs.rows id e he) (hs.fair hedit he)).mp hafter
  · intro hfits id e' he'
    rcases hstep.row_before he' with ⟨q, origin, n, -, -, -, rfl⟩ | ⟨e, he, rfl⟩
    · exact Execution.coherent_row n
    · refine after_of (h id e he) fun edit hedit => ?_
      exact (Edit.after_coherent_iff (h id e he) (hs.rows id e he) (hs.fair hedit he)).mpr (hfits edit hedit id e he)

omit [DecidableEq W] [DecidableEq Q] in
theorem coherent_initial : Coherent (initial : Platform W Q) := fun _ _ h => by cases h

/-- The rows are coherent along a run exactly if every transaction in it fits its rows. -/
theorem coherent_records_iff {path : List (Action W Q × Platform W Q)} (hpath : Path Step initial path)
    (hruns : Along reached (fun _ p => SandboxReturns p.1) initial path) :
    Throughout reached Coherent initial path ↔ Along reached FitsRows initial path := by
  apply throughout_iff (J := Orderly) _ _ (hpath.and hruns) orderly_initial coherent_initial
  · exact fun s p horderly hstep => horderly.step hstep.2 hstep.1
  · exact fun s p horderly hstep h => coherent_step_iff horderly h hstep.1

theorem coherent_records_iff_failed : ∃ path : List (Action Unit Unit × Platform Unit Unit),
    path.map Prod.fst = [.create () .ephemeral sampleRequest, .refresh (), .enqueue () 0 true none,
      .pop () sampleRequest.job, .track () 0, .start () [] 1, .launch (), .sandboxEnds () .timeoutError 60,
      .finish () 61 id, .cancel 1] ∧ Throughout reached Coherent initial path := by
  have hruns : SandboxReturns (.sandboxEnds () .timeoutError 60 : Action Unit Unit) :=
    ⟨.ofTable [], 0, .workerTimeout, rfl⟩
  have hquiet : ∀ {s t : Platform Unit Unit} {a : Action Unit Unit}, s.edit? a = none → FitsRows s (a, t) := by
    intro s t a hnone edit hedit
    rw [hnone] at hedit
    cases hedit
  refine ⟨[(_, _), (_, _), (_, _), (_, _), (_, _), (_, _), (_, _), (_, _), (_, _), (_, _)], rfl, (coherent_records_iff
    (.cons (.create rfl rfl) (.cons (.refresh rfl rfl) (.cons (.enqueueOk rfl) (.cons (.pop rfl rfl)
      (.cons (.track rfl) (.cons (.startOk rfl rfl rfl) (.cons (.launch rfl) (.cons (.sandboxEnds rfl)
        (.cons (.finishOk rfl rfl rfl) (.cons .cancel .nil))))))))))
    (.cons trivial (.cons trivial (.cons trivial (.cons trivial (.cons trivial (.cons trivial (.cons trivial
      (.cons hruns (.cons trivial (.cons trivial .nil))))))))))).mpr
    (.cons (hquiet rfl) (.cons (hquiet rfl) (.cons (hquiet rfl) (.cons (hquiet rfl) (.cons (hquiet rfl) (.cons ?_
      (.cons (hquiet rfl) (.cons (hquiet rfl) (.cons ?_ (.cons ?_ .nil))))))))))⟩
  · intro edit hedit id e he
    obtain rfl := Option.some.inj hedit
    exact trivial
  · intro edit hedit id e he
    obtain rfl := Option.some.inj hedit
    intro _ _
    obtain rfl := List.mem_singleton.mp (List.mem_of_find?_eq_some he)
    exact Or.inl rfl
  · intro edit hedit id e he
    obtain rfl := Option.some.inj hedit
    intro _
    obtain rfl := List.mem_singleton.mp (List.mem_of_find?_eq_some he)
    rfl

/-- The run of the defect: a queued execution is cancelled. -/
theorem cancelled_record_incoherent : ¬ ∀ path : List (Action Unit Unit × Platform Unit Unit),
    Path Step initial path → Along reached (fun _ p => SandboxReturns p.1) initial path →
      Throughout reached Coherent initial path := by
  intro hclaim
  have hrun : ∃ path : List (Action Unit Unit × Platform Unit Unit), Path Step initial path ∧
      Along reached (fun _ p => SandboxReturns p.1) initial path ∧ ¬ Throughout reached Coherent initial path := by
    refine ⟨[(.create () .ephemeral sampleRequest, _), (.cancel 1, _)], .cons (.create rfl rfl) (.cons .cancel .nil),
      .cons trivial (.cons trivial .nil), ?_⟩
    intro hall
    have hcoherent := hall.2.2 1 { sampleRequest.row with status := .cancelled } rfl
    exact hcoherent.terminal rfl rfl
  obtain ⟨path, hpath, hruns, hnot⟩ := hrun
  exact hnot (hclaim path hpath hruns)

end Platform
end PyFaaS
