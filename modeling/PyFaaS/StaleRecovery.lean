import PyFaaS.PayloadLimit
import PyFaaS.StepEffects

/-!
# Stale recovery against the clock

The four ways an execution is submitted, under one clock. Each worker is seen at
three moments: the reading that its start transaction writes, the entry into its
wait for the sandbox and the end of that wait. The wait is cut off at the limit of
the job, so what passes beyond the limit is clean-up. As long as the delays of a
worker stay below the limit itself, it is through with its execution when the
row is old enough to be recovered.
-/

namespace PyFaaS.StaleRecovery
open Runs Submissions Api

structure WorkerSettings where
  staleTimeoutGrace : ℤ

def WorkerSettings.default : WorkerSettings := ⟨60⟩

structure Timing where
  startedAt : ℤ
  waitFrom : ℤ
  waitUntil : ℤ

structure State (W Q R : Type) where
  submissions : Submissions.State W Q R
  clock : ℤ
  timing : W → Timing

inductive Action (W Q R : Type) where
  | elapse (d : ℤ)
  | act (a : Submissions.Action W Q R)

variable {W Q R : Type}

def initial (clock : ℤ) : State W Q R := ⟨Submissions.initial, clock, fun _ => ⟨clock, clock, clock⟩⟩

namespace State

abbrev platform (s : State W Q R) : Platform W Q := s.submissions.platform

end State

def waitLimit (timeout : ℕ) : ℤ := (timeout + 30) * 1000000

/-- How long the start commit, the clean-up of the wait and the result transaction of
a worker have taken so far. -/
def delay (s : State W Q R) (w : W) : ℤ :=
  match s.platform.workers w with
  | .started _ => s.clock - (s.timing w).startedAt
  | .executing job => ((s.timing w).waitFrom - (s.timing w).startedAt) +
      max 0 (s.clock - ((s.timing w).waitFrom + waitLimit job.timeout))
  | .reporting job _ _ => ((s.timing w).waitFrom - (s.timing w).startedAt) +
      max 0 ((s.timing w).waitUntil - ((s.timing w).waitFrom + waitLimit job.timeout)) +
      (s.clock - (s.timing w).waitUntil)
  | _ => 0

/-- The delays of every worker sum to less than T + 30 seconds. -/
def Prompt (s : State W Q R) : Prop :=
  ∀ w job, (s.platform.workers w).begun? = some job → delay s w < waitLimit job.timeout

def TimeoutsAgree (s : State W Q R) : Prop :=
  ∀ job, Platform.Circulates s.platform job →
    ∃ e, s.platform.db.row job.jobId = some e ∧ job.timeout = e.timeout ∧ 1 ≤ e.timeout ∧ e.timeout ≤ 3600

def SparesLive (s : State W Q R) (p : Action W Q R × State W Q R) : Prop :=
  ∀ grace now newId id e, p.1 = .act (.platform (.recover grace now newId)) → s.platform.db.row id = some e →
    e.recoverStale grace now ≠ none → ∀ w job, (s.platform.workers w).begun? = some job → job.jobId ≠ id

section
variable [DecidableEq W] [DecidableEq Q] [DecidableEq R]

def stamp (clock : ℤ) (timing : W → Timing) : Submissions.Action W Q R → W → Timing
  | .platform (.start w _ now) => Function.update timing w { timing w with startedAt := now }
  | .platform (.launch w) => Function.update timing w { timing w with waitFrom := clock }
  | .platform (.sandboxEnds w _ _) => Function.update timing w { timing w with waitUntil := clock }
  | _ => timing

/-- The start transaction and the recovery have read the clock before they commit. -/
def ReadsClock (settings : WorkerSettings) (clock : ℤ) : Submissions.Action W Q R → Prop
  | .platform (.start _ _ now) => now ≤ clock
  | .platform (.recover grace now _) => grace = settings.staleTimeoutGrace ∧ now ≤ clock
  | _ => True

inductive Step (c : Config) (settings : WorkerSettings) (s : State W Q R) : Action W Q R → State W Q R → Prop where
  | elapse {d : ℤ} (hd : 0 ≤ d) : Step c settings s (.elapse d) { s with clock := s.clock + d }
  | act {a : Submissions.Action W Q R} {t : Submissions.State W Q R} (hstep : Submissions.Step c s.submissions a t)
      (hclock : ReadsClock settings s.clock a) :
      Step c settings s (.act a) ⟨t, s.clock, stamp s.clock s.timing a⟩

end

/-! ## Timeouts -/

def Bounded (timeout : ℕ) : Prop := 1 ≤ timeout ∧ timeout ≤ 3600

theorem bounded_of_valid {form : VersionForm} (h : form.valid = true) : Bounded form.timeout.toNat := by
  simp only [VersionForm.valid, Bool.and_eq_true, decide_eq_true_eq] at h
  constructor <;> omega

theorem bounded_timeoutOr {codec : JsonCodec} {body : ExecutionTrigger} {default : ℕ}
    (h : acceptsTrigger codec body = true) (hdefault : Bounded default) : Bounded (body.timeoutOr default) := by
  unfold ExecutionTrigger.timeoutOr
  cases hbody : body.timeout with
  | none => exact hdefault
  | some timeout =>
    obtain ⟨hlow, hhigh⟩ := acceptsTrigger_timeout h hbody
    have hne : timeout ≠ 0 := by omega
    simpa only [hne, if_false] using ⟨hlow, hhigh⟩

theorem bounded_ephemeral {platform : PlatformSettings} {codec : JsonCodec} {body : EphemeralExecution}
    (h : acceptsEphemeral platform codec body = true) : Bounded body.timeout := by
  have hlimits := acceptsEphemeral_timeout h
  constructor <;> omega

structure TimeoutsBounded (s : Submissions.State W Q R) : Prop where
  versions : ∀ version ∈ s.versions, Bounded version.timeout
  rows : ∀ id e, s.platform.db.row id = some e → Bounded e.timeout

theorem timeoutsBounded_initial : TimeoutsBounded (Submissions.initial : Submissions.State W Q R) :=
  ⟨fun _ h => absurd h List.not_mem_nil, fun _ _ h => (by cases h)⟩

variable [DecidableEq W] [DecidableEq Q]

theorem bounded_row {p p' : Platform W Q} {a : Platform.Action W Q} (hstep : Platform.Step p a p')
    (h : ∀ id e, p.db.row id = some e → Bounded e.timeout)
    (hnew : ∀ q origin n, a = .create q origin n → Bounded n.timeout) {id : Uuid} {e' : Execution}
    (he' : p'.db.row id = some e') : Bounded e'.timeout := by
  rcases hstep.row_back he' with ⟨e, he, -, -, -, -, -, -, -, -, -, -, htimeout, -⟩ | ⟨q, origin, n, hcreate, rfl⟩
  · rw [htimeout]
    exact h id e he
  · exact hnew q origin n hcreate

variable [DecidableEq R] {c : Config} {settings : WorkerSettings}

inductive Drives (s t : Platform W Q) : Submissions.Action W Q R → Prop where
  | rests {a : Submissions.Action W Q R} (ha : ∀ b, a ≠ .platform b) (hsame : t = s) : Drives s t a
  | creates {a : Submissions.Action W Q R} (ha : ∀ b, a ≠ .platform b) {q : Q} {origin : Execution.Origin}
      {n : NewExecution} (hstep : Platform.Step s (.create q origin n) t) (hn : Bounded n.timeout) : Drives s t a
  | acts {b : Platform.Action W Q} (hb : internal b = true) (hstep : Platform.Step s b t) : Drives s t (.platform b)

theorem drives_of_step {s t : Submissions.State W Q R} {a : Submissions.Action W Q R}
    (h : ∀ version ∈ s.versions, Bounded version.timeout) (hstep : Submissions.Step c s a t) :
    Drives s.platform t.platform a := by
  cases hstep with
  | trigger hbody hversion hp => exact .creates (by simp) hp (bounded_timeoutOr hbody (h _ hversion))
  | invoke hbody hversion hp => exact .creates (by simp) hp (h _ hversion)
  | ephemeral hbody hp => exact .creates (by simp) hp (bounded_ephemeral hbody)
  | fire hr hversion hp => exact .creates (by simp) hp (h _ hversion)
  | platform ha hp => exact .acts ha hp
  | _ => exact .rests (by simp) rfl

theorem TimeoutsBounded.step {s t : Submissions.State W Q R} {a : Submissions.Action W Q R} (h : TimeoutsBounded s)
    (hstep : Submissions.Step c s a t) : TimeoutsBounded t := by
  constructor
  · cases hstep with
    | createVersion hform htimeout henvironment =>
      intro version hversion
      rcases List.mem_append.mp hversion with hold | hnew
      · exact h.versions version hold
      · obtain rfl := List.mem_singleton.mp hnew
        exact htimeout ▸ bounded_of_valid hform
    | deleteVersions => exact fun version hversion => h.versions version (List.mem_filter.mp hversion).1
    | _ => exact h.versions
  · intro id e he
    cases drives_of_step h.versions hstep with
    | rests ha hsame => exact h.rows id e (hsame ▸ he)
    | creates ha hp hn =>
      refine bounded_row hp h.rows (fun q origin n hsame => ?_) he
      obtain ⟨-, -, rfl⟩ := Platform.Action.create.inj hsame
      exact hn
    | acts hb hp =>
      refine bounded_row hp h.rows (fun q origin n hsame => ?_) he
      rw [hsame] at hb
      cases hb

/-! ## Readings -/

def Stamped (s : State W Q R) : Prop :=
  ∀ w job, (s.platform.workers w).begun? = some job →
    ∃ e, s.platform.db.row job.jobId = some e ∧ e.startedAt = some (s.timing w).startedAt ∧ e.status ≠ .queued

omit [DecidableEq Q] [DecidableEq R] in
theorem stamp_startedAt {clock : ℤ} {timing : W → Timing} {a : Submissions.Action W Q R} {w : W}
    (h : ∀ workerId now, a ≠ .platform (.start w workerId now)) :
    (stamp clock timing a w).startedAt = (timing w).startedAt := by
  cases a with
  | platform b =>
    cases b with
    | start v workerId now =>
      have hne : w ≠ v := fun hsame => h workerId now (by rw [hsame])
      simp [stamp, hne]
    | launch v => by_cases hv : w = v <;> simp [stamp, hv]
    | sandboxEnds v outcome elapsed => by_cases hv : w = v <;> simp [stamp, hv]
    | _ => rfl
  | _ => rfl

theorem kept_row {p p' : Platform W Q} {b : Platform.Action W Q} (hstep : Platform.Step p b p') {id : Uuid}
    {e : Execution} {reading : Time} (he : p.db.row id = some e) (hat : e.startedAt = some reading)
    (hne : e.status ≠ .queued) :
    ∃ e', p'.db.row id = some e' ∧ e'.startedAt = some reading ∧ e'.status ≠ .queued := by
  refine ⟨_, hstep.row_after he, ?_⟩
  refine Platform.after_of (P := fun row => row.startedAt = some reading ∧ row.status ≠ .queued) ⟨hat, hne⟩
    fun edit _ => ?_
  rcases edit.after_startedAt e with hsame | ⟨hqueued, -⟩
  · exact ⟨hsame.trans hat, edit.after_not_queued hne⟩
  · exact absurd hqueued hne

theorem Stamped.step {s t : State W Q R} {a : Action W Q R} (h : Stamped s)
    (hversions : ∀ version ∈ s.submissions.versions, Bounded version.timeout) (hstep : Step c settings s a t) :
    Stamped t := by
  cases hstep with
  | elapse hd => exact h
  | @act a t hstep hclock =>
    have hkept : ∀ {b w job}, Platform.Step s.platform b t.platform → (s.platform.workers w).begun? = some job →
        (∀ workerId now, a ≠ .platform (.start w workerId now)) →
          ∃ e, t.platform.db.row job.jobId = some e ∧
            e.startedAt = some (stamp s.clock s.timing a w).startedAt ∧ e.status ≠ .queued := by
      intro b w job hp hold hreading
      obtain ⟨e, he, hat, hne⟩ := h w job hold
      rw [stamp_startedAt hreading]
      exact kept_row hp he hat hne
    intro w job hw
    cases drives_of_step hversions hstep with
    | rests ha hsame =>
      change ∃ e, t.platform.db.row job.jobId = some e ∧ e.startedAt = some (stamp s.clock s.timing a w).startedAt ∧
        e.status ≠ .queued
      have hold : (t.platform.workers w).begun? = some job := hw
      rw [hsame] at hold
      rw [hsame, stamp_startedAt fun _ _ => ha _]
      exact h w job hold
    | creates ha hp hn =>
      rcases hp.begun hw with hold | ⟨workerId, now, e, hstart, -⟩
      · exact hkept hp hold fun _ _ => ha _
      · cases hstart
    | @acts b hb hp =>
      rcases hp.begun hw with hold | ⟨workerId, now, e, rfl, hdequeued, hrow, hqueued⟩
      · refine hkept hp hold fun workerId now hstart => ?_
        obtain rfl := Submissions.Action.platform.inj hstart
        obtain ⟨job', hdequeued⟩ := hp.dequeued
        rw [hdequeued] at hold
        cases hold
      · refine ⟨_, hp.row_after hrow, ?_⟩
        simp [Platform.after_start hdequeued hrow hqueued, stamp]

/-! ## Recovery -/

omit [DecidableEq W] [DecidableEq Q] [DecidableEq R] in
/-- Before its row can be recovered, a worker that is prompt is through with it. -/
theorem clock_lt_of_prompt {s : State W Q R} (h : Prompt s) {w : W} {job : Job}
    (hw : (s.platform.workers w).begun? = some job) :
    s.clock < (s.timing w).startedAt + (job.timeout * 2 + 60) * 1000000 := by
  have hdelay := h w job hw
  unfold delay at hdelay
  cases hphase : s.platform.workers w <;> rw [hphase] at hw hdelay <;> cases hw
  · simp only [waitLimit] at hdelay
    omega
  · simp only [waitLimit] at hdelay
    omega
  · simp only [waitLimit] at hdelay
    omega

theorem sparesLive_of_stamped {s t : State W Q R} {a : Action W Q R} (hgrace : 60 ≤ settings.staleTimeoutGrace)
    (hbacked : Platform.Backed s.platform) (h : Stamped s) (hprompt : Prompt s) (hstep : Step c settings s a t) :
    SparesLive s (a, t) := by
  intro grace now newId id e ha he hrecovered w job hw hid
  subst hid
  obtain rfl : a = .act (.platform (.recover grace now newId)) := ha
  have hclock : grace = settings.staleTimeoutGrace ∧ now ≤ s.clock := by
    cases hstep with
    | act hstep hclock => exact hclock
  obtain ⟨e', hrecover⟩ := Option.ne_none_iff_exists'.mp hrecovered
  obtain ⟨-, hstale, -⟩ := Execution.recoverStale_some hrecover
  obtain ⟨e₁, he₁, hat, -⟩ := h w job hw
  obtain rfl : e = e₁ := Option.some.inj (he.symm.trans he₁)
  have hheld : (s.platform.workers w).job? = some job := by
    revert hw
    cases s.platform.workers w <;> simp [WorkerPhase.begun?, WorkerPhase.job?]
  obtain ⟨e₂, he₂, hdescribes⟩ := hbacked.row job (.held hheld)
  obtain rfl : e = e₂ := Option.some.inj (he.symm.trans he₂)
  have hlast := clock_lt_of_prompt hprompt hw
  have htimeout : job.timeout = e.timeout := hdescribes.timeout
  obtain ⟨rfl, hnow⟩ := hclock
  have hage : (s.timing w).startedAt + (max 1 e.timeout * 2 + settings.staleTimeoutGrace) * 1000000 ≤ s.clock := by
    simp only [Execution.isStale, hat, Bool.not_eq_true', decide_eq_false_iff_not] at hstale
    exact Int.le_trans (Int.add_le_of_le_sub_right (Int.not_lt.mp hstale)) hnow
  omega

structure Kept (s : State W Q R) : Prop where
  backed : Platform.Backed s.platform
  timeouts : TimeoutsBounded s.submissions
  stamped : Stamped s

omit [DecidableEq W] [DecidableEq Q] [DecidableEq R] in
theorem kept_initial (clock : ℤ) : Kept (initial clock : State W Q R) :=
  ⟨Platform.backed_initial, timeoutsBounded_initial, fun _ _ hw => (by cases hw)⟩

theorem Kept.step {s t : State W Q R} {a : Action W Q R} (h : Kept s) (hstep : Step c settings s a t) : Kept t := by
  have hstamped : Stamped t := h.stamped.step h.timeouts.versions hstep
  cases hstep with
  | elapse hd => exact ⟨h.backed, h.timeouts, hstamped⟩
  | act hstep hclock => exact ⟨hstep.platform_backed h.backed, h.timeouts.step hstep, hstamped⟩

omit [DecidableEq W] [DecidableEq Q] [DecidableEq R] in
theorem Kept.timeoutsAgree {s : State W Q R} (h : Kept s) : TimeoutsAgree s := by
  intro job hjob
  obtain ⟨e, he, hdescribes⟩ := h.backed.row job hjob
  have hbounded : Bounded e.timeout := h.timeouts.rows _ e he
  exact ⟨e, he, hdescribes.timeout, hbounded⟩

/-- Every job has the timeout of its row, and when a recovery fails an execution, the
worker that has started it is past its wait and its result. -/
theorem recovery_spares_live (hgrace : 60 ≤ settings.staleTimeoutGrace) {clock : ℤ}
    {path : List (Action W Q R × State W Q R)} (hpath : Path (Step c settings) (initial clock) path)
    (hprompt : Along reached (fun s _ => Prompt s) (initial clock) path) :
    Throughout reached TimeoutsAgree (initial clock) path ∧ Along reached SparesLive (initial clock) path := by
  constructor
  · have hkept : Throughout reached Kept (initial clock) path :=
      throughout_of_step (fun _ _ hstep h => h.step hstep) hpath (kept_initial clock)
    exact hkept.imp fun _ h => h.timeoutsAgree
  · apply along_of_invariant (J := Kept) _ _ (hpath.and hprompt) (kept_initial clock)
    · exact fun _ _ h hstep => h.step hstep.1
    · exact fun _ _ h hstep => sparesLive_of_stamped hgrace h.backed h.stamped hstep.2 hstep.1

/-- The worker of an ephemeral execution crashes in its wait, and a recovery fails the execution. -/
theorem recovery_spares_live_crashed : ∃ path : List (Action Unit Unit Unit × State Unit Unit Unit),
    path.map Prod.fst = [.act (.ephemeral () sampleKey sampleGiven sampleEphemeral), .act (.platform (.refresh ())),
      .act (.platform (.enqueue () 0 true none)),
      .act (.platform (.pop () (newEphemeralExecution sampleKey sampleGiven sampleEphemeral).job)),
      .act (.platform (.track () 0)), .act (.platform (.start () [] 0)), .act (.platform (.launch ())),
      .elapse 60000000, .act (.platform (.crash ())), .elapse 60000000, .act (.platform (.recover 60 120000000 id))] ∧
    Throughout reached TimeoutsAgree (initial 0) path ∧ Along reached SparesLive (initial 0) path := by
  have hidle : ∀ {s : State Unit Unit Unit}, (s.platform.workers ()).begun? = none → Prompt s := by
    intro s hnone w job hw
    rw [hnone] at hw
    cases hw
  have hlive : ∀ {s : State Unit Unit Unit} {job : Job}, (s.platform.workers ()).begun? = some job →
      delay s () < waitLimit job.timeout → Prompt s := by
    intro s job hbegun hdelay w job' hw
    obtain rfl := Option.some.inj (hbegun.symm.trans hw)
    exact hdelay
  have hgrace : 60 ≤ WorkerSettings.default.staleTimeoutGrace := by decide
  refine ⟨[(_, _), (_, _), (_, _), (_, _), (_, _), (_, _), (_, _), (_, _), (_, _), (_, _), (_, _)], rfl,
    recovery_spares_live (c := sampleConfig emptyCodec) hgrace
      (.cons (.act (.ephemeral (by decide) (.create rfl rfl)) trivial)
        (.cons (.act (.platform rfl (.refresh rfl rfl)) trivial)
        (.cons (.act (.platform rfl (.enqueueOk rfl)) trivial)
        (.cons (.act (.platform rfl (.pop rfl rfl)) trivial)
        (.cons (.act (.platform rfl (.track rfl)) trivial)
        (.cons (.act (.platform rfl (.startOk rfl rfl rfl)) (Int.le_refl 0))
        (.cons (.act (.platform rfl (.launch rfl)) trivial)
        (.cons (.elapse (by decide))
        (.cons (.act (.platform rfl .crash) trivial)
        (.cons (.elapse (by decide))
        (.cons (.act (.platform rfl .recover) ⟨rfl, Int.le_refl 120000000⟩) .nil)))))))))))
      (.cons (hidle rfl) (.cons (hidle rfl) (.cons (hidle rfl) (.cons (hidle rfl) (.cons (hidle rfl) (.cons (hidle rfl)
        (.cons (hlive rfl (by decide)) (.cons (hlive rfl (by decide))
          (.cons (hlive rfl (by decide)) (.cons (hidle rfl) (.cons (hidle rfl) .nil)))))))))))⟩

end PyFaaS.StaleRecovery
