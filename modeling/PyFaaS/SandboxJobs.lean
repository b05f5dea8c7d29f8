import Mathlib.Logic.Function.Basic
import PyFaaS.Models
import PyFaaS.Runs

/-!
# Jobs of a `KubernetesSandbox`

`execute` hands its calls of the Kubernetes API to executor threads and awaits them. A
task may be cancelled at each of its awaits, and the call that it awaited goes on. Here
any number of tasks run `execute` on one instance, with the sandbox enabled.
-/

namespace PyFaaS.SandboxJobs
open Runs

inductive Outcome where
  | success
  | apiException
  | otherException
  deriving DecidableEq

/-- A call that is handed to the executor, picked up by a thread, and over. -/
inductive CallState where
  | idle
  | queued
  | running
  | done (outcome : Outcome)
  deriving DecidableEq

namespace CallState

def ended : CallState → Bool
  | idle | done _ => true
  | queued | running => false

def begun : CallState → Bool
  | running | done _ => true
  | idle | queued => false

end CallState

inductive Phase where
  | ready
  | ensuring
  | creating
  | waiting
  | deleting
  | finished
  deriving DecidableEq

structure Execution where
  phase : Phase
  ensure : CallState
  create : CallState
  delete : CallState
  made : Bool
  deriving DecidableEq

inductive Event where
  | runtimeClassRead
  | createIssued
  | created
  | deleteIssued
  deriving DecidableEq

inductive Move where
  | start
  | runEnsure
  | endRead (outcome : Outcome)
  | runCreate
  | failCreate
  | makeJob
  | endCreate (outcome : Outcome)
  | endWait
  | runDelete
  | endDelete (outcome : Outcome)
  | resume
  | cancel
  deriving DecidableEq

namespace Execution

def fresh : Execution := ⟨.ready, .idle, .idle, .idle, false⟩

def cleanUp (e : Execution) : Execution := { e with phase := .deleting, delete := .queued }

def resume (e : Execution) : Option Execution :=
  match e.phase, e.ensure, e.create, e.delete with
  | .ensuring, .done .success, _, _ => some { e with phase := .creating, create := .queued }
  | .ensuring, .done _, _, _ => some e.cleanUp
  | .creating, _, .done .success, _ => some { e with phase := .waiting }
  | .creating, _, .done _, _ => some e.cleanUp
  | .deleting, _, _, .done _ => some { e with phase := .finished }
  | _, _, _, _ => none

def cancel (e : Execution) : Option Execution :=
  match e.phase with
  | .ensuring | .creating | .waiting => some e.cleanUp
  | .deleting => some { e with phase := .finished }
  | .ready | .finished => none

section
variable (runtimeClass : Text) (checked : Bool)

def move (e : Execution) : Move → Option (Execution × Option Event)
  | .start => if e.phase = .ready then some ({ e with phase := .ensuring, ensure := .queued }, none) else none
  -- `_ensure_runtime_class`
  | .runEnsure =>
    if e.ensure = .queued then
      if checked then some ({ e with ensure := .done .success }, none)
      else if runtimeClass.isEmpty then some ({ e with ensure := .done .apiException }, none)
      else some ({ e with ensure := .running }, none)
    else none
  | .endRead outcome =>
    if e.ensure = .running then
      some ({ e with ensure := .done outcome }, if outcome = .success then some .runtimeClassRead else none)
    else none
  -- `_create_job`, which may raise before it issues the call
  | .runCreate => if e.create = .queued then some ({ e with create := .running }, some .createIssued) else none
  | .failCreate => if e.create = .queued then some ({ e with create := .done .otherException }, none) else none
  | .makeJob =>
    if e.create = .running ∧ e.made = false then some ({ e with made := true }, some .created) else none
  | .endCreate outcome =>
    if e.create = .running ∧ (outcome = .success → e.made = true) then
      some ({ e with create := .done outcome }, none)
    else none
  -- `_wait_for_job` returns or raises
  | .endWait => if e.phase = .waiting then some (e.cleanUp, none) else none
  | .runDelete => if e.delete = .queued then some ({ e with delete := .running }, some .deleteIssued) else none
  | .endDelete outcome => if e.delete = .running then some ({ e with delete := .done outcome }, none) else none
  | .resume => e.resume.map fun e => (e, none)
  | .cancel => e.cancel.map fun e => (e, none)

end

def settled (e : Execution) : Bool :=
  decide (e.phase = .finished) && e.ensure.ended && e.create.ended && e.delete.ended

def creationPending (e : Execution) : Bool := !e.create.ended && !e.made

end Execution

structure Sandbox (K : Type) where
  checked : Bool
  execs : K → Execution
  log : List (K × Event)

namespace Sandbox

variable {K : Type}

def fresh : Sandbox K := ⟨false, fun _ => .fresh, []⟩

variable [DecidableEq K]

def step (runtimeClass : Text) (s : Sandbox K) (a : K × Move) : Option (Sandbox K) :=
  ((s.execs a.1).move runtimeClass s.checked a.2).map fun (e, event) =>
    { checked := s.checked || decide (event = some .runtimeClassRead)
      execs := Function.update s.execs a.1 e
      log := s.log ++ (event.map (Prod.mk a.1)).toList }

end Sandbox

section
variable {α : Type} {trace : List α} {x y z : α}

def Followed (trace : List α) (x y : α) : Prop := ∀ before behind, trace = before ++ x :: behind → y ∈ behind

theorem concat_cases {before behind : List α} (h : trace ++ [z] = before ++ x :: behind) :
    (behind = [] ∧ z = x) ∨ ∃ rest, behind = rest ++ [z] ∧ trace = before ++ x :: rest := by
  cases List.eq_nil_or_concat behind with
  | inl hnil =>
    rw [hnil] at h
    exact Or.inl ⟨hnil, List.singleton_inj.mp (List.append_inj_right' h rfl)⟩
  | inr hlast =>
    obtain ⟨rest, last, rfl⟩ := hlast
    rw [List.concat_eq_append, ← List.cons_append, ← List.append_assoc] at h
    have hz : z = last := List.singleton_inj.mp (List.append_inj_right' h rfl)
    exact Or.inr ⟨rest, by rw [List.concat_eq_append, hz], List.append_inj_left' h rfl⟩

theorem Followed.concat (h : Followed trace x y) (hz : z ≠ x) : Followed (trace ++ [z]) x y := by
  intro before behind htrace
  cases concat_cases htrace with
  | inl hlast => exact absurd hlast.2 hz
  | inr hrest =>
    obtain ⟨rest, rfl, hrest⟩ := hrest
    exact List.mem_append_left _ (h before rest hrest)

theorem followed_concat_self (hxy : y ≠ x) : Followed (trace ++ [y]) x y := by
  intro before behind htrace
  cases concat_cases htrace with
  | inl hlast => exact absurd hlast.2 hxy
  | inr hrest =>
    obtain ⟨rest, rfl, -⟩ := hrest
    exact List.mem_append_right _ (List.mem_singleton_self y)

end

namespace Execution
variable {runtimeClass : Text} {checked : Bool} {e e' : Execution} {trace : List Event} {m : Move}
  {event : Option Event}

theorem resume_cases (h : e.resume = some e') :
    (e.phase = .ensuring ∧ e.ensure = .done .success ∧ e' = { e with phase := .creating, create := .queued }) ∨
    ((e.phase = .ensuring ∨ e.phase = .creating) ∧ e' = e.cleanUp) ∨
    (e.phase = .creating ∧ e' = { e with phase := .waiting }) ∨
    (e.phase = .deleting ∧ e' = { e with phase := .finished }) := by
  unfold resume at h
  split at h <;> cases h <;> simp [*]

theorem cancel_cases (h : e.cancel = some e') :
    ((e.phase = .ensuring ∨ e.phase = .creating ∨ e.phase = .waiting) ∧ e' = e.cleanUp) ∨
    (e.phase = .deleting ∧ e' = { e with phase := .finished }) := by
  unfold cancel at h
  split at h <;> cases h <;> simp [*]

inductive Moved (checked : Bool) (e : Execution) : Move → Execution → Option Event → Prop
  | start (ready : e.phase = .ready) : Moved checked e .start { e with phase := .ensuring, ensure := .queued } none
  | runEnsure (queued : e.ensure = .queued) (ensure : CallState) (known : ensure = .done .success → checked = true) :
      Moved checked e .runEnsure { e with ensure := ensure } none
  | endRead (running : e.ensure = .running) (outcome : Outcome) :
      Moved checked e (.endRead outcome) { e with ensure := .done outcome }
        (if outcome = .success then some .runtimeClassRead else none)
  | runCreate (queued : e.create = .queued) :
      Moved checked e .runCreate { e with create := .running } (some .createIssued)
  | failCreate (queued : e.create = .queued) :
      Moved checked e .failCreate { e with create := .done .otherException } none
  | makeJob (running : e.create = .running) (unmade : e.made = false) :
      Moved checked e .makeJob { e with made := true } (some .created)
  | endCreate (running : e.create = .running) (outcome : Outcome) :
      Moved checked e (.endCreate outcome) { e with create := .done outcome } none
  | endWait (waiting : e.phase = .waiting) : Moved checked e .endWait e.cleanUp none
  | runDelete (queued : e.delete = .queued) :
      Moved checked e .runDelete { e with delete := .running } (some .deleteIssued)
  | endDelete (running : e.delete = .running) (outcome : Outcome) :
      Moved checked e (.endDelete outcome) { e with delete := .done outcome } none
  | resume (e' : Execution) (resumed : e.resume = some e') : Moved checked e .resume e' none
  | cancel (e' : Execution) (cancelled : e.cancel = some e') : Moved checked e .cancel e' none

theorem moved (h : e.move runtimeClass checked m = some (e', event)) : Moved checked e m e' event := by
  cases m with
  | resume =>
    obtain ⟨e'', hresume, hpair⟩ := Option.map_eq_some_iff.mp h
    cases hpair
    exact .resume _ hresume
  | cancel =>
    obtain ⟨e'', hcancel, hpair⟩ := Option.map_eq_some_iff.mp h
    cases hpair
    exact .cancel _ hcancel
  | runEnsure =>
    simp only [move] at h
    split_ifs at h with hqueued hchecked <;> cases h
    · exact .runEnsure hqueued _ fun _ => hchecked
    · exact .runEnsure hqueued _ (by simp)
    · exact .runEnsure hqueued _ (by simp)
  | endRead outcome =>
    simp only [move] at h
    split_ifs at h with hrunning hsuccess <;> cases h
    · simpa only [if_pos hsuccess] using Moved.endRead hrunning outcome
    · simpa only [if_neg hsuccess] using Moved.endRead hrunning outcome
  | endCreate outcome =>
    simp only [move] at h
    split_ifs at h with hrunning
    cases h
    exact .endCreate hrunning.1 outcome
  | _ =>
    simp only [move] at h
    split_ifs at h with hguard
    cases h
    constructor <;> simp [hguard]

structure Orderly (e : Execution) (trace : List Event) : Prop where
  early : e.phase = .ready ∨ e.phase = .ensuring → e.create = .idle
  ensured : e.create ≠ .idle → e.ensure = .done .success
  before : e.phase ≠ .deleting → e.phase ≠ .finished → e.delete = .idle
  behind : e.phase = .deleting ∨ e.phase = .finished → e.delete ≠ .idle
  unmade : e.made = false → .created ∉ trace
  issued : e.delete.begun = true → e.creationPending = false ∧ Followed trace .created .deleteIssued

theorem Orderly.cleanUp (h : Orderly e trace) : Orderly e.cleanUp trace := by
  refine ⟨?_, h.ensured, ?_, ?_, h.unmade, ?_⟩ <;> simp [Execution.cleanUp, CallState.begun]

theorem Orderly.move (h : Orderly e trace) (hcond : m = .runDelete → e.creationPending = false)
    (hmove : e.move runtimeClass checked m = some (e', event)) : Orderly e' (trace ++ event.toList) := by
  obtain ⟨hearly, hensured, hbefore, hbehind, hunmade, hissued⟩ := h
  cases moved hmove with
  | start ready =>
    simp [ready] at hearly hbefore
    refine ⟨?_, ?_, ?_, ?_, ?_, ?_⟩ <;> simp [hearly, hbefore, CallState.begun]
    exact hunmade
  | runEnsure queued ensure known =>
    rw [Option.toList_none, List.append_nil]
    exact ⟨hearly, fun h => absurd (hensured h) (by simp [queued]), hbefore, hbehind, hunmade, hissued⟩
  | endRead running outcome =>
    have hnot : ∀ event' ∈ (if outcome = .success then some Event.runtimeClassRead else none).toList,
        event' = .runtimeClassRead := by
      split_ifs <;> simp
    refine ⟨hearly, fun h => absurd (hensured h) (by simp [running]), hbefore, hbehind, fun h => ?_, fun h => ?_⟩
    · rw [List.mem_append, not_or]
      exact ⟨hunmade h, fun hmem => by cases hnot _ hmem⟩
    · refine ⟨(hissued h).1, ?_⟩
      split_ifs
      · exact (hissued h).2.concat (by decide)
      · rw [Option.toList_none, List.append_nil]
        exact (hissued h).2
  | runCreate queued =>
    refine ⟨fun h => ?_, fun _ => hensured (by simp [queued]), hbefore, hbehind, fun h => by simpa using hunmade h,
      fun h => ?_⟩
    · rw [hearly h] at queued
      cases queued
    · obtain ⟨hpending, hfollowed⟩ := hissued h
      rw [creationPending, queued] at hpending
      exact ⟨hpending, hfollowed.concat (by decide)⟩
  | failCreate queued =>
    rw [Option.toList_none, List.append_nil]
    refine ⟨fun h => ?_, fun _ => hensured (by simp [queued]), hbefore, hbehind, hunmade,
      fun h => ⟨rfl, (hissued h).2⟩⟩
    rw [hearly h] at queued
    cases queued
  | makeJob running unmade =>
    -- the call is under way and has made no Job, so the delete is not issued yet
    refine ⟨hearly, hensured, hbefore, hbehind, fun h => by simp at h, fun h => ?_⟩
    have hpending := (hissued h).1
    simp [creationPending, running, unmade, CallState.ended] at hpending
  | endCreate running outcome =>
    rw [Option.toList_none, List.append_nil]
    refine ⟨fun h => ?_, fun _ => hensured (by simp [running]), hbefore, hbehind, hunmade,
      fun h => ⟨rfl, (hissued h).2⟩⟩
    rw [hearly h] at running
    cases running
  | endWait waiting =>
    rw [Option.toList_none, List.append_nil]
    exact Orderly.cleanUp ⟨hearly, hensured, hbefore, hbehind, hunmade, hissued⟩
  | runDelete queued =>
    refine ⟨hearly, hensured, fun h h' => ?_, fun _ => by simp, fun h => by simpa using hunmade h, fun _ => ?_⟩
    · rw [hbefore h h'] at queued
      cases queued
    · exact ⟨hcond rfl, followed_concat_self (by decide)⟩
  | endDelete running outcome =>
    rw [Option.toList_none, List.append_nil]
    refine ⟨hearly, hensured, fun h h' => ?_, fun _ => by simp, hunmade, fun _ => hissued (by rw [running]; rfl)⟩
    rw [hbefore h h'] at running
    cases running
  | resume _ resumed =>
    rw [Option.toList_none, List.append_nil]
    obtain ⟨hphase, hdone, rfl⟩ | ⟨-, rfl⟩ | ⟨hphase, rfl⟩ | ⟨hphase, rfl⟩ := resume_cases resumed
    · have hidle := hbefore (by simp [hphase]) (by simp [hphase])
      refine ⟨by simp, fun _ => hdone, fun _ _ => hidle, by simp, hunmade, fun h => ?_⟩
      rw [hidle] at h
      cases h
    · exact Orderly.cleanUp ⟨hearly, hensured, hbefore, hbehind, hunmade, hissued⟩
    · have hidle := hbefore (by simp [hphase]) (by simp [hphase])
      exact ⟨by simp, hensured, fun _ _ => hidle, by simp, hunmade, hissued⟩
    · exact ⟨by simp, hensured, by simp, fun _ => hbehind (Or.inl hphase), hunmade, hissued⟩
  | cancel _ cancelled =>
    rw [Option.toList_none, List.append_nil]
    obtain ⟨-, rfl⟩ | ⟨hphase, rfl⟩ := cancel_cases cancelled
    · exact Orderly.cleanUp ⟨hearly, hensured, hbefore, hbehind, hunmade, hissued⟩
    · exact ⟨by simp, hensured, by simp, fun _ => hbehind (Or.inl hphase), hunmade, hissued⟩

theorem Orderly.followed (h : Orderly e trace) (hsettled : e.settled = true) :
    Followed trace .created .deleteIssued := by
  simp only [settled, Bool.and_eq_true, decide_eq_true_iff] at hsettled
  obtain ⟨⟨⟨hphase, -⟩, -⟩, hover⟩ := hsettled
  have hnot := h.behind (Or.inr hphase)
  refine (h.issued ?_).2
  cases hdelete : e.delete with
  | idle => exact absurd hdelete hnot
  | queued =>
    rw [hdelete] at hover
    cases hover
  | running => rfl
  | done outcome => rfl

def follow (runtimeClass : Text) (checked : Bool) (e : Execution) : List Move → Option (Execution × List Event)
  | [] => some (e, [])
  | m :: moves => (e.move runtimeClass checked m).bind fun (e, event) =>
    (follow runtimeClass checked e moves).map fun (e, events) => (e, event.toList ++ events)

theorem exists_follow {phase : Phase} {create : CallState} (hphase : phase = .deleting ∨ phase = .finished)
    (hcreate : create = .queued ∨ create = .running) : ∃ moves events e',
      follow runtimeClass checked ⟨phase, .done .success, create, .running, false⟩ moves =
        some (e', events ++ [.created]) ∧ .runtimeClassRead ∉ events ++ [.created] ∧ e'.settled = true := by
  obtain rfl | rfl := hphase <;> obtain rfl | rfl := hcreate
  · exact ⟨[.runCreate, .makeJob, .endCreate .success, .endDelete .success, .resume], [.createIssued], _, rfl,
      by decide, rfl⟩
  · exact ⟨[.makeJob, .endCreate .success, .endDelete .success, .resume], [], _, rfl, by decide, rfl⟩
  · exact ⟨[.runCreate, .makeJob, .endCreate .success, .endDelete .success], [.createIssued], _, rfl, by decide, rfl⟩
  · exact ⟨[.makeJob, .endCreate .success, .endDelete .success], [], _, rfl, by decide, rfl⟩

structure Backed (read : Prop) (e : Execution) : Prop where
  ensured : e.ensure = .done .success → read
  creating : e.create ≠ .idle → read

theorem Backed.mono {read read' : Prop} (h : Backed read e) (himp : read → read') : Backed read' e :=
  ⟨fun he => himp (h.ensured he), fun he => himp (h.creating he)⟩

theorem Backed.move {read : Prop} (h : Backed read e) (hchecked : checked = true → read)
    (hmove : e.move runtimeClass checked m = some (e', event)) :
    Backed (read ∨ event = some .runtimeClassRead) e' ∧ (event = some .createIssued → read) := by
  have hkept : Backed (read ∨ event = some .runtimeClassRead) e := h.mono Or.inl
  cases moved hmove with
  | start => exact ⟨⟨by simp, hkept.creating⟩, by simp⟩
  | runEnsure _ ensure known => exact ⟨⟨fun hdone => Or.inl (hchecked (known hdone)), hkept.creating⟩, by simp⟩
  | endRead _ outcome =>
    refine ⟨⟨fun hdone => Or.inr (if_pos (CallState.done.inj hdone)), hkept.creating⟩, ?_⟩
    split_ifs <;> simp
  | runCreate queued =>
    have hread := h.creating (by simp [queued])
    exact ⟨⟨hkept.ensured, fun _ => Or.inl hread⟩, fun _ => hread⟩
  | failCreate queued => exact ⟨⟨hkept.ensured, fun _ => hkept.creating (by simp [queued])⟩, by simp⟩
  | endCreate running => exact ⟨⟨hkept.ensured, fun _ => hkept.creating (by simp [running])⟩, by simp⟩
  | makeJob | endWait | runDelete | endDelete => exact ⟨⟨hkept.ensured, hkept.creating⟩, by simp⟩
  | resume _ resumed =>
    obtain ⟨-, hdone, rfl⟩ | ⟨-, rfl⟩ | ⟨-, rfl⟩ | ⟨-, rfl⟩ := resume_cases resumed
    · exact ⟨⟨hkept.ensured, fun _ => hkept.ensured hdone⟩, by simp⟩
    all_goals exact ⟨⟨hkept.ensured, hkept.creating⟩, by simp⟩
  | cancel _ cancelled =>
    obtain ⟨-, rfl⟩ | ⟨-, rfl⟩ := cancel_cases cancelled
    all_goals exact ⟨⟨hkept.ensured, hkept.creating⟩, by simp⟩

end Execution

namespace Sandbox
variable {K : Type} [DecidableEq K] {runtimeClass : Text} {s t : Sandbox K} {a : K × Move} {as : List (K × Move)}
  {k : K} {jobName : K → Text}

def traceOf (k : K) (log : List (K × Event)) : List Event := (log.filter fun call => decide (call.1 = k)).map Prod.snd

def FailsClosed (s : Sandbox K) : Prop := ∀ k before behind, s.log = before ++ (k, .createIssued) :: behind →
  ∃ k', (k', .runtimeClassRead) ∈ before

/-- When an execution is over, every Job it made has had a delete call for its name
behind its creation. -/
def LeavesNoJob (jobName : K → Text) (s : Sandbox K) : Prop := ∀ k, (s.execs k).settled = true →
  ∀ before behind, s.log = before ++ (k, .created) :: behind →
    ∃ k', jobName k' = jobName k ∧ (k', .deleteIssued) ∈ behind

/-- No delete is issued while the creation of the same execution may still come. -/
def InOrder (s : Sandbox K) (a : K × Move) : Prop := a.2 = .runDelete → (s.execs a.1).creationPending = false

theorem step_cases (h : s.step runtimeClass a = some t) : ∃ e event,
    (s.execs a.1).move runtimeClass s.checked a.2 = some (e, event) ∧
      t.checked = (s.checked || decide (event = some .runtimeClassRead)) ∧
      t.execs = Function.update s.execs a.1 e ∧ t.log = s.log ++ (event.map (Prod.mk a.1)).toList := by
  obtain ⟨⟨e, event⟩, hmove, rfl⟩ := Option.map_eq_some_iff.mp h
  exact ⟨e, event, hmove, rfl, rfl, rfl⟩

structure Guarded (s : Sandbox K) : Prop where
  checked : s.checked = true → ∃ k, (k, .runtimeClassRead) ∈ s.log
  backed : ∀ k, (s.execs k).Backed (∃ k', (k', .runtimeClassRead) ∈ s.log)
  closed : s.FailsClosed

theorem Guarded.step (hs : s.Guarded) (h : s.step runtimeClass a = some t) : t.Guarded := by
  obtain ⟨e, event, hmove, hchecked, hexecs, hlog⟩ := step_cases h
  obtain ⟨hbacked, hissued⟩ := (hs.backed a.1).move hs.checked hmove
  have hread : (∃ k, (k, .runtimeClassRead) ∈ s.log) ∨ event = some .runtimeClassRead →
      ∃ k, (k, .runtimeClassRead) ∈ t.log := by
    intro hread
    rw [hlog]
    cases hread with
    | inl hold =>
      obtain ⟨k, hk⟩ := hold
      exact ⟨k, List.mem_append_left _ hk⟩
    | inr hnew => exact ⟨a.1, by simp [hnew]⟩
  refine ⟨fun hc => hread ?_, fun k => ?_, fun k before behind hsplit => ?_⟩
  · rw [hchecked, Bool.or_eq_true, decide_eq_true_iff] at hc
    exact hc.imp_left hs.checked
  · rw [hexecs]
    by_cases hk : k = a.1
    · rw [hk, Function.update_self]
      exact hbacked.mono hread
    · rw [Function.update_of_ne hk]
      exact (hs.backed k).mono fun hold => hread (Or.inl hold)
  · rw [hlog] at hsplit
    cases event with
    | none =>
      rw [Option.map_none, Option.toList_none, List.append_nil] at hsplit
      exact hs.closed k before behind hsplit
    | some event =>
      obtain ⟨hnil, hlast⟩ | ⟨rest, rfl, hold⟩ := concat_cases hsplit
      · -- the call that is issued now
        rw [hnil] at hsplit
        have hbefore : before = s.log := (List.append_inj_left' hsplit rfl).symm
        rw [hbefore]
        exact hissued (congrArg some (Prod.mk.inj hlast).2)
      · exact hs.closed k before rest hold

theorem traceOf_append (log log' : List (K × Event)) : traceOf k (log ++ log') = traceOf k log ++ traceOf k log' := by
  rw [traceOf, List.filter_append, List.map_append]
  rfl

theorem orderly_step (hs : ∀ k, (s.execs k).Orderly (traceOf k s.log)) (hcond : s.InOrder a)
    (h : s.step runtimeClass a = some t) : ∀ k, (t.execs k).Orderly (traceOf k t.log) := by
  obtain ⟨e, event, hmove, -, hexecs, hlog⟩ := step_cases h
  intro k
  rw [hexecs, hlog, traceOf_append]
  by_cases hk : k = a.1
  · have htrace : traceOf k (event.map (Prod.mk a.1)).toList = event.toList := by
      cases event <;> simp [traceOf, hk]
    rw [htrace, hk, Function.update_self]
    exact (hs a.1).move hcond hmove
  · have htrace : traceOf k (event.map (Prod.mk a.1)).toList = [] := by
      cases event <;> simp [traceOf, Ne.symm hk]
    rw [htrace, List.append_nil, Function.update_of_ne hk]
    exact hs k

theorem leavesNoJob_of_orderly (h : ∀ k, (s.execs k).Orderly (traceOf k s.log)) : s.LeavesNoJob jobName := by
  intro k hsettled before behind hlog
  have htrace : traceOf k s.log = traceOf k before ++ .created :: traceOf k behind := by
    rw [hlog, traceOf_append]
    simp [traceOf]
  obtain ⟨call, hcall, hevent⟩ := List.mem_map.mp ((h k).followed hsettled _ _ htrace)
  obtain ⟨hmem, hown⟩ := List.mem_filter.mp hcall
  refine ⟨k, rfl, ?_⟩
  rwa [← hevent, ← of_decide_eq_true hown]

theorem orderly_run (h : Run (FiresWhen InOrder (step runtimeClass)) fresh as s) :
    ∀ k, (s.execs k).Orderly (traceOf k s.log) := by
  refine Run.invariant (I := fun s => ∀ k, (s.execs k).Orderly (traceOf k s.log))
    (fun _ _ _ hs hstep => orderly_step hs hstep.1 hstep.2) h fun k => ?_
  refine ⟨by simp [fresh, Execution.fresh], by simp [fresh, Execution.fresh], by simp [fresh, Execution.fresh],
    by simp [fresh, Execution.fresh], by simp [fresh, traceOf], by simp [fresh, Execution.fresh, CallState.begun]⟩

theorem run_follow {moves : List Move} {e : Execution} {events : List Event}
    (h : (s.execs k).follow runtimeClass s.checked moves = some (e, events)) (hread : .runtimeClassRead ∉ events) :
    ∃ u, Run (Fires (step runtimeClass)) s (moves.map (Prod.mk k)) u ∧ u.execs k = e ∧
      u.log = s.log ++ events.map (Prod.mk k) := by
  induction moves generalizing s events with
  | nil =>
    cases h
    exact ⟨s, .nil s, rfl, by simp⟩
  | cons m moves ih =>
    obtain ⟨⟨e', event⟩, hmove, hrest⟩ := Option.bind_eq_some_iff.mp h
    obtain ⟨⟨e'', rest⟩, hfollow, hpair⟩ := Option.map_eq_some_iff.mp hrest
    cases hpair
    rw [List.mem_append, not_or] at hread
    have hunread : event ≠ some .runtimeClassRead := by
      rintro rfl
      simp at hread
    let next : Sandbox K :=
      { checked := s.checked || decide (event = some .runtimeClassRead)
        execs := Function.update s.execs k e'
        log := s.log ++ (event.map (Prod.mk k)).toList }
    have hstep : step runtimeClass s (k, m) = some next := by rw [step, hmove]; rfl
    have hnext : (next.execs k).follow runtimeClass next.checked moves = some (e, rest) := by
      have hchecked : next.checked = s.checked := by simp [next, hunread]
      rw [hchecked]
      simpa [next] using hfollow
    obtain ⟨u, hrun, hexec, hlog⟩ := ih hnext hread.2
    refine ⟨u, .cons hstep hrun, hexec, ?_⟩
    rw [hlog, List.map_append, ← List.append_assoc]
    congr 1
    cases event <;> rfl

/-- A delete that is issued while the creation is under way can be followed by the
creation alone. -/
theorem outOfOrder_leaves (h : Run (FiresWhen InOrder (step runtimeClass)) fresh as s)
    (hstep : step runtimeClass s (k, .runDelete) = some t) (hpending : (s.execs k).creationPending = true) :
    ∃ bs u, Run (Fires (step runtimeClass)) t bs u ∧ ¬ u.LeavesNoJob jobName := by
  have horderly := orderly_run h k
  obtain ⟨e, event, hmove, -, hexecs, -⟩ := step_cases hstep
  simp only [Execution.move] at hmove
  split_ifs at hmove with hqueued
  cases hmove
  have hphase : (s.execs k).phase = .deleting ∨ (s.execs k).phase = .finished := by
    by_contra hearly
    rw [not_or] at hearly
    have hidle := horderly.before hearly.1 hearly.2
    rw [hqueued] at hidle
    cases hidle
  rw [Execution.creationPending, Bool.and_eq_true, Bool.not_eq_true', Bool.not_eq_true'] at hpending
  have hcreate : (s.execs k).create = .queued ∨ (s.execs k).create = .running := by
    cases hc : (s.execs k).create <;> simp [hc, CallState.ended] at hpending ⊢
  have hensured := horderly.ensured (by rintro hidle; simp [hidle] at hcreate)
  have hexec : t.execs k = ⟨(s.execs k).phase, .done .success, (s.execs k).create, .running, false⟩ := by
    rw [hexecs, Function.update_self, hensured, hpending.2]
  obtain ⟨moves, events, e', hfollow, hread, hsettled⟩ := Execution.exists_follow hphase hcreate
  rw [← hexec] at hfollow
  obtain ⟨u, hrun, hend, hlog⟩ := run_follow hfollow hread
  refine ⟨_, u, hrun, fun hleaves => ?_⟩
  rw [List.map_append, ← List.append_assoc] at hlog
  obtain ⟨k', -, hmem⟩ := hleaves k (hend ▸ hsettled) _ [] hlog
  cases hmem

/-- Every run fails closed, and a run that issues its deletes in order leaves no Job. -/
theorem execute_leavesNoJob (runtimeClass : Text) (jobName : K → Text) (as : List (K × Move)) (t : Sandbox K) :
    (Run (Fires (step runtimeClass)) fresh as t → t.FailsClosed) ∧
      (Run (FiresWhen InOrder (step runtimeClass)) fresh as t → t.LeavesNoJob jobName) := by
  constructor
  · intro h
    have hguarded : (fresh : Sandbox K).Guarded := by
      refine ⟨by simp [fresh], fun k => ⟨by simp [fresh, Execution.fresh], by simp [fresh, Execution.fresh]⟩, ?_⟩
      intro k before behind hlog
      simp [fresh] at hlog
    exact (h.invariant (fun _ _ _ hs hstep => hs.step hstep) hguarded).closed
  · intro h
    exact leavesNoJob_of_orderly (orderly_run h)

instance (s : Sandbox K) (a : K × Move) : Decidable (s.InOrder a) := inferInstanceAs (Decidable (_ = _ → _ = _))

def plainRun : List (Unit × Move) :=
  [.start, .runEnsure, .endRead .success, .resume, .runCreate, .makeJob, .endCreate .success, .resume, .endWait,
    .runDelete, .endDelete .success, .resume].map (Prod.mk ())

theorem plainRun_leavesNoJob : ∃ t : Sandbox Unit, t.log = [.runtimeClassRead, .createIssued, .created,
    .deleteIssued].map (Prod.mk ()) ∧ t.FailsClosed ∧ t.LeavesNoJob fun _ => "sopm-exec-0a1b2c3d-4e5f60".toList := by
  have hends : ∃ t,
      execute (fun s a => if InOrder s a then step "gvisor".toList s a else none) fresh plainRun = some t ∧
      t.log = [.runtimeClassRead, .createIssued, .created, .deleteIssued].map (Prod.mk ()) := ⟨_, rfl, rfl⟩
  obtain ⟨t, ht, hlog⟩ := hends
  have hrun := run_of_execute_when ht
  have hkept := execute_leavesNoJob "gvisor".toList (fun _ : Unit => "sopm-exec-0a1b2c3d-4e5f60".toList) plainRun t
  exact ⟨t, hlog, hkept.1 (hrun.mono FiresWhen.fires), hkept.2 hrun⟩

def cancelledRun : List (Unit × Move) :=
  [.start, .runEnsure, .endRead .success, .resume, .runCreate, .cancel, .runDelete, .endDelete .apiException, .resume,
    .makeJob, .endCreate .success].map (Prod.mk ())

theorem cancelledRun_leaves : ¬ ∀ (as : List (Unit × Move)) (t : Sandbox Unit),
    Run (Fires (step "gvisor".toList)) fresh as t →
      t.FailsClosed ∧ t.LeavesNoJob fun _ => "sopm-exec-0a1b2c3d-4e5f60".toList := by
  intro h
  have hends : ∃ t, execute (step "gvisor".toList) fresh cancelledRun = some t ∧ (t.execs ()).settled = true ∧
      t.log = [((), .runtimeClassRead), ((), .createIssued), ((), .deleteIssued), ((), .created)] := ⟨_, rfl, rfl, rfl⟩
  obtain ⟨t, ht, hsettled, hlog⟩ := hends
  obtain ⟨k, -, hmem⟩ := (h cancelledRun t (run_of_execute ht)).2 () hsettled
    [((), .runtimeClassRead), ((), .createIssued), ((), .deleteIssued)] [] hlog
  cases hmem

end Sandbox

end PyFaaS.SandboxJobs
