import Mathlib.Algebra.Order.Ring.Rat
import Mathlib.Data.Char
import Mathlib.Data.List.Lex
import PyFaaS.JsonValue
import PyFaaS.Retry
import PyFaaS.ScoredSet

/-!
# `dequeue_job` under errors of the server

The pop from the queue and the insert into the processing set are two commands, and
the retry begins with the first one again. A member that is popped and not inserted
is in neither set, and one that an earlier attempt has moved is not returned.
-/

namespace PyFaaS.JobDequeue
open Retry (retry retry_ok retry_error retry_invariant)

inductive Command where
  | ok
  | raisesBefore (exc : Text)
  | raisesAfter (exc : Text)

structure Faults where
  bzpopmin : Command
  zadd : Command

structure Store (μ : Type) where
  queue : ScoredSet μ ℚ
  processing : ScoredSet μ ℚ

section
variable {μ ν : Type} [LinearOrder μ] (loads : μ → Except Text ν)

def attempt (f : Faults) (s : Store μ) : Except Text (Option ν) × Store μ :=
  match f.bzpopmin, s.queue.popMin with
  | .raisesBefore exc, _ => (.error exc, s)
  | .raisesAfter exc, none => (.error exc, s)
  | .raisesAfter exc, some (_, rest) => (.error exc, { s with queue := rest })
  | .ok, none => (.ok none, s)
  | .ok, some ((job, score), rest) =>
    match f.zadd with
    | .raisesBefore exc => (.error exc, { s with queue := rest })
    | .raisesAfter exc => (.error exc, ⟨rest, s.processing.add job score⟩)
    | .ok => ((loads job).map some, ⟨rest, s.processing.add job score⟩)

/-- `dequeue_job` behind `redis_retry`, which makes up to three attempts. -/
def dequeueJob (f₁ f₂ f₃ : Faults) (s : Store μ) : Except Text (Option ν) × Store μ :=
  retry (attempt loads) f₁ [f₂, f₃] s

end

section
variable {μ ν : Type}

def Store.Holds (s : Store μ) (m : μ) : Prop := s.queue.Holds m ∨ s.processing.Holds m

def Moved (s t : Store μ) (m : μ) : Prop :=
  s.queue.Holds m ∧ ¬ t.queue.Holds m ∨ ¬ s.processing.Holds m ∧ t.processing.Holds m

structure Conserves (loads : μ → Except Text ν) (s : Store μ) (ended : Except Text (Option ν) × Store μ) : Prop where
  kept : ∀ m, s.Holds m → ended.2.Holds m
  returned : ∀ job, ended.1 = .ok (some job) →
    ∃ m, loads m = .ok job ∧ ended.2.processing.Holds m ∧ ∀ m', Moved s ended.2 m' ↔ m' = m

def Faults.tracks (f : Faults) : Bool :=
  match f.bzpopmin, f.zadd with
  | .ok, .ok | .ok, .raisesAfter _ => true
  | _, _ => false

def Faults.clean (loads : μ → Except Text ν) (f : Faults) (m : μ) : Bool :=
  match f.bzpopmin, f.zadd with
  | .ok, .ok => (loads m).toBool
  | _, _ => false

/-- The attempts whose pop takes effect take the members of the queue in their order.
Each of them inserts its member into the processing set, unless it is there, and one
that raises nowhere is the first of them. -/
def Conserving [LinearOrder μ] (loads : μ → Except Text ν) (processing : ScoredSet μ ℚ) :
    Bool → ScoredSet μ ℚ → List Faults → Prop
  | _, _, [] => True
  | taken, queue, f :: rest =>
    match f.bzpopmin, queue.popMin with
    | .raisesBefore _, _ => Conserving loads processing taken queue rest
    | _, none => True
    | _, some ((m, _), queue') => (f.tracks = true ∨ processing.Holds m) ∧
        if f.clean loads m then taken = false else Conserving loads processing true queue' rest

end

variable {μ ν : Type} [LinearOrder μ] {loads : μ → Except Text ν} {s s₀ t : Store μ} {f : Faults} {m : μ} {score : ℚ}
  {rest : ScoredSet μ ℚ}

/-! ## One attempt -/

theorem attempt_gone (f : Faults) (h : ¬ s.Holds m) : ¬ (attempt loads f s).2.Holds m := by
  have hqueue : ¬ s.queue.Holds m := fun hm => h (Or.inl hm)
  have hprocessing : ¬ s.processing.Holds m := fun hm => h (Or.inr hm)
  -- only a member of the queue gets into the processing set
  have hpopped : ∀ {entry : μ × ℚ} {rest : ScoredSet μ ℚ}, s.queue.popMin = some (entry, rest) →
      ¬ rest.Holds m ∧ m ≠ entry.1 := by
    intro entry rest hpop
    constructor
    · exact fun hm => hqueue ((ScoredSet.holds_popMin hpop).mp hm).2
    · rintro rfl
      exact hqueue (ScoredSet.popMin_holds hpop)
  unfold attempt
  cases hpop : s.queue.popMin with
  | none => cases f.bzpopmin <;> exact h
  | some p =>
    obtain ⟨⟨job, score⟩, rest⟩ := p
    obtain ⟨hrest, hne⟩ := hpopped hpop
    have hleft : ¬ (Store.mk rest s.processing).Holds m := fun hm => hm.elim hrest hprocessing
    have htracked : ¬ (Store.mk rest (s.processing.add job score)).Holds m := by
      rintro (hm | hm)
      · exact hrest hm
      · exact (ScoredSet.holds_add.mp hm).elim hne hprocessing
    cases f.bzpopmin with
    | raisesBefore exc => exact h
    | raisesAfter exc => exact hleft
    | ok =>
      cases f.zadd with
      | raisesBefore exc => exact hleft
      | raisesAfter exc => exact htracked
      | ok => exact htracked

theorem gone_stays (f : Faults) (later : List Faults) (h : ¬ s.Holds m) :
    ¬ (retry (attempt loads) f later s).2.Holds m :=
  retry_invariant (I := fun s : Store μ => ¬ s.Holds m) (fun f _ hs => attempt_gone f hs) h

theorem gone_behind {later : List Faults} {e : Text} (h : attempt loads f s = (.error e, t)) (hgone : ¬ t.Holds m) :
    ¬ (retry (attempt loads) f later s).2.Holds m := by
  cases later with
  | nil =>
    have hrun : retry (attempt loads) f [] s = (.error e, t) := h
    rw [hrun]
    exact hgone
  | cons f' later =>
    rw [retry_error h]
    exact gone_stays f' later hgone

/-! ## The attempts so far -/

structure Progress (s₀ s : Store μ) (taken : Bool) : Prop where
  kept : ∀ m, s₀.Holds m → s.Holds m
  queue : ∀ m, s.queue.Holds m → s₀.queue.Holds m
  processing : ∀ m, s.queue.Holds m → (s.processing.Holds m ↔ s₀.processing.Holds m)
  untouched : taken = false → s = s₀
  took : taken = true → ∃ m, s₀.queue.Holds m ∧ ¬ s.queue.Holds m

omit [LinearOrder μ] in
theorem Progress.start (s : Store μ) : Progress s s false :=
  ⟨fun _ h => h, fun _ h => h, fun _ _ => Iff.rfl, fun _ => rfl, fun h => by cases h⟩

theorem Progress.take {taken : Bool} {processing : ScoredSet μ ℚ} (h : Progress s₀ s taken)
    (hpop : s.queue.popMin = some ((m, score), rest))
    (hprocessing : ∀ n, processing.Holds n ↔ n = m ∨ s.processing.Holds n) :
    Progress s₀ ⟨rest, processing⟩ true := by
  have hrest : ∀ n, rest.Holds n ↔ n ≠ m ∧ s.queue.Holds n := fun n => ScoredSet.holds_popMin hpop
  have hm : s.queue.Holds m := ScoredSet.popMin_holds hpop
  constructor
  · intro n hn
    by_cases hne : n = m
    · exact Or.inr ((hprocessing n).mpr (Or.inl hne))
    · rcases h.kept n hn with hn | hn
      · exact Or.inl ((hrest n).mpr ⟨hne, hn⟩)
      · exact Or.inr ((hprocessing n).mpr (Or.inr hn))
  · exact fun n hn => h.queue n ((hrest n).mp hn).2
  · intro n hn
    obtain ⟨hne, hn⟩ := (hrest n).mp hn
    rw [hprocessing, ← h.processing n hn]
    exact ⟨fun hor => hor.resolve_left hne, Or.inr⟩
  · exact fun hfalse => by cases hfalse
  · exact fun _ => ⟨m, h.queue m hm, fun hold => ((hrest m).mp hold).1 rfl⟩

omit [LinearOrder μ] in
theorem conserves_of_kept {r : Except Text (Option ν)} (hkept : ∀ m, s₀.Holds m → t.Holds m)
    (hr : ∀ job, r ≠ .ok (some job)) : Conserves loads s₀ (r, t) :=
  ⟨hkept, fun job hjob => absurd hjob (hr job)⟩

theorem conserves_returned_iff {taken : Bool} {job : ν} (h : Progress s₀ s taken)
    (hpop : s.queue.popMin = some ((m, score), rest)) (hloads : loads m = .ok job) :
    Conserves loads s₀ (.ok (some job), ⟨rest, s.processing.add m score⟩) ↔ taken = false := by
  have hnext : Progress s₀ ⟨rest, s.processing.add m score⟩ true := h.take hpop fun n => ScoredSet.holds_add
  have hm : s.queue.Holds m := ScoredSet.popMin_holds hpop
  have hleft : ∀ n, rest.Holds n ↔ n ≠ m ∧ s.queue.Holds n := fun n => ScoredSet.holds_popMin hpop
  have hmoved : Moved s₀ ⟨rest, s.processing.add m score⟩ m :=
    Or.inl ⟨h.queue m hm, fun hold => ((hleft m).mp hold).1 rfl⟩
  constructor
  · intro hconserves
    obtain ⟨n, -, -, halone⟩ := hconserves.returned job rfl
    cases taken with
    | false => rfl
    | true =>
      obtain ⟨m', hm', hgone⟩ := h.took rfl
      have hmoved' : Moved s₀ ⟨rest, s.processing.add m score⟩ m' :=
        Or.inl ⟨hm', fun hold => hgone ((hleft m').mp hold).2⟩
      have hsame : m' = m := ((halone m').mp hmoved').trans ((halone m).mp hmoved).symm
      rw [hsame] at hgone
      exact absurd hm hgone
  · intro hfalse
    obtain rfl : s = s₀ := h.untouched hfalse
    refine ⟨hnext.kept, fun job' hjob' => ?_⟩
    obtain rfl : job = job' := Option.some.inj (Except.ok.inj hjob')
    refine ⟨m, hloads, ScoredSet.holds_add.mpr (Or.inl rfl), fun m' => ⟨?_, ?_⟩⟩
    · rintro (⟨hold, hgone⟩ | ⟨hnew, hadded⟩)
      · by_contra hne
        exact hgone ((hleft m').mpr ⟨hne, hold⟩)
      · exact (ScoredSet.holds_add.mp hadded).resolve_right hnew
    · rintro rfl
      exact hmoved

/-! ## The whole call -/

theorem conserving_empty {processing queue : ScoredSet μ ℚ} {taken : Bool} {faults : List Faults}
    (h : queue.popMin = none) : Conserving loads processing taken queue faults := by
  induction faults with
  | nil => trivial
  | cons f faults ih =>
    rw [Conserving, h]
    cases f.bzpopmin with
    | raisesBefore exc => exact ih
    | ok => trivial
    | raisesAfter exc => trivial

section
variable {taken : Bool} {later : List Faults} {e : Text} (h : Progress s₀ s taken)
  (hnext : ∀ {e t taken'}, attempt loads f s = (.error e, t) → Progress s₀ t taken' →
    (Conserves loads s₀ (retry (attempt loads) f later s) ↔ Conserving loads s₀.processing taken' t.queue later))
  (hpop : s.queue.popMin = some ((m, score), rest))
include h hnext hpop

theorem conserves_untracked (hrun : attempt loads f s = (.error e, { s with queue := rest })) :
    Conserves loads s₀ (retry (attempt loads) f later s) ↔
      s₀.processing.Holds m ∧ Conserving loads s₀.processing true rest later := by
  have hm : s.queue.Holds m := ScoredSet.popMin_holds hpop
  by_cases hheld : s.processing.Holds m
  · rw [hnext hrun (h.take hpop fun n => ⟨Or.inr, fun hor => hor.elim (fun hn => hn ▸ hheld) id⟩)]
    exact (and_iff_right ((h.processing m hm).mp hheld)).symm
  · refine iff_of_false (fun hconserves => ?_) fun hcond => hheld ((h.processing m hm).mpr hcond.1)
    have hgone : ¬ (Store.mk rest s.processing).Holds m := by
      rintro (hold | hold)
      · exact ((ScoredSet.holds_popMin hpop).mp hold).1 rfl
      · exact hheld hold
    exact gone_behind hrun hgone (hconserves.kept m (Or.inl (h.queue m hm)))

theorem conserves_tracked (hrun : attempt loads f s = (.error e, ⟨rest, s.processing.add m score⟩)) :
    Conserves loads s₀ (retry (attempt loads) f later s) ↔ Conserving loads s₀.processing true rest later :=
  hnext hrun (h.take hpop fun _ => ScoredSet.holds_add)

theorem conserves_take (htakes : ∀ exc, f.bzpopmin ≠ .raisesBefore exc) :
    Conserves loads s₀ (retry (attempt loads) f later s) ↔ (f.tracks = true ∨ s₀.processing.Holds m) ∧
      if f.clean loads m then taken = false else Conserving loads s₀.processing true rest later := by
  cases hbzpopmin : f.bzpopmin with
  | raisesBefore exc => exact absurd hbzpopmin (htakes exc)
  | raisesAfter exc =>
    have hrun : attempt loads f s = (.error exc, { s with queue := rest }) := by
      simp only [attempt, hbzpopmin, hpop]
    rw [conserves_untracked h hnext hpop hrun]
    simp [Faults.tracks, Faults.clean, hbzpopmin]
  | ok =>
    cases hzadd : f.zadd with
    | raisesBefore exc =>
      have hrun : attempt loads f s = (.error exc, { s with queue := rest }) := by
        simp only [attempt, hbzpopmin, hpop, hzadd]
      rw [conserves_untracked h hnext hpop hrun]
      simp [Faults.tracks, Faults.clean, hbzpopmin, hzadd]
    | raisesAfter exc =>
      have hrun : attempt loads f s = (.error exc, ⟨rest, s.processing.add m score⟩) := by
        simp only [attempt, hbzpopmin, hpop, hzadd]
      rw [conserves_tracked h hnext hpop hrun]
      simp [Faults.tracks, Faults.clean, hbzpopmin, hzadd]
    | ok =>
      have hrun : attempt loads f s = ((loads m).map some, ⟨rest, s.processing.add m score⟩) := by
        simp only [attempt, hbzpopmin, hpop, hzadd]
      have htracks : f.tracks = true := by simp only [Faults.tracks, hbzpopmin, hzadd]
      have hclean : f.clean loads m = (loads m).toBool := by simp only [Faults.clean, hbzpopmin, hzadd]
      rw [htracks, hclean]
      cases hloads : loads m with
      | error exc =>
        rw [hloads] at hrun
        rw [conserves_tracked h hnext hpop hrun]
        simp [Except.toBool]
      | ok job =>
        rw [hloads] at hrun
        rw [Retry.retry_ok hrun, conserves_returned_iff h hpop hloads]
        simp [Except.toBool]

end

theorem conserves_attempt {taken : Bool} {later : List Faults} (h : Progress s₀ s taken)
    (hnext : ∀ {e t taken'}, attempt loads f s = (.error e, t) → Progress s₀ t taken' →
      (Conserves loads s₀ (retry (attempt loads) f later s) ↔ Conserving loads s₀.processing taken' t.queue later)) :
    Conserves loads s₀ (retry (attempt loads) f later s) ↔
      Conserving loads s₀.processing taken s.queue (f :: later) := by
  cases hbzpopmin : f.bzpopmin with
  | raisesBefore exc =>
    have hrun : attempt loads f s = (.error exc, s) := by
      cases hpop : s.queue.popMin <;> simp only [attempt, hbzpopmin, hpop]
    rw [hnext hrun h, Conserving, hbzpopmin]
  | raisesAfter exc =>
    cases hpop : s.queue.popMin with
    | none =>
      have hrun : attempt loads f s = (.error exc, s) := by simp only [attempt, hbzpopmin, hpop]
      rw [hnext hrun h, Conserving, hbzpopmin, hpop]
      exact iff_of_true (conserving_empty hpop) trivial
    | some p =>
      obtain ⟨⟨m, score⟩, rest⟩ := p
      rw [Conserving, hbzpopmin, hpop]
      exact conserves_take h hnext hpop (by simp [hbzpopmin])
  | ok =>
    cases hpop : s.queue.popMin with
    | none =>
      have hrun : attempt loads f s = (.ok none, s) := by simp only [attempt, hbzpopmin, hpop]
      rw [Retry.retry_ok hrun, Conserving, hbzpopmin, hpop]
      exact iff_of_true (conserves_of_kept h.kept (by simp)) trivial
    | some p =>
      obtain ⟨⟨m, score⟩, rest⟩ := p
      rw [Conserving, hbzpopmin, hpop]
      exact conserves_take h hnext hpop (by simp [hbzpopmin])

theorem conserves_iff {taken : Bool} {later : List Faults} (h : Progress s₀ s taken) :
    Conserves loads s₀ (retry (attempt loads) f later s) ↔
      Conserving loads s₀.processing taken s.queue (f :: later) := by
  induction later generalizing f s taken with
  | nil =>
    refine conserves_attempt h fun {e t taken'} hrun ht => ?_
    have hend : retry (attempt loads) f [] s = (.error e, t) := hrun
    rw [hend]
    exact iff_of_true (conserves_of_kept ht.kept (by simp)) trivial
  | cons f' later ih =>
    refine conserves_attempt h fun {e t taken'} hrun ht => ?_
    rw [retry_error hrun]
    exact ih ht

/-- The call conserves the jobs exactly if each attempt that takes a member inserts it
into the processing set, unless it is there, and an attempt that raises nowhere is the
first that takes one. -/
theorem dequeue_conserves_iff (loads : μ → Except Text ν) (f₁ f₂ f₃ : Faults) (s : Store μ) :
    Conserves loads s (dequeueJob loads f₁ f₂ f₃ s) ↔
      Conserving loads s.processing false s.queue [f₁, f₂, f₃] :=
  conserves_iff (Progress.start s)

def oneJob (member : μ) : Store μ := ⟨ScoredSet.empty.add member 0, ScoredSet.empty⟩

theorem popMin_oneJob (member : μ) :
    (oneJob member).queue.popMin = some ((member, 0), (oneJob member).queue.remove member) := by
  have honly : ∀ other ∈ (oneJob member).queue, other = (member, 0) := by
    intro other hother
    rcases ScoredSet.mem_add.mp hother with rfl | ⟨hempty, -⟩
    · rfl
    · exact absurd hempty (ScoredSet.not_mem_empty other)
  apply ScoredSet.popMin_of_least (ScoredSet.mem_add.mpr (Or.inl rfl))
  intro other hother
  rw [honly other hother]

/-- The connection is lost between the pop and the insert, and the next attempt finds
the queue empty. -/
theorem dequeue_loses : ¬ ∀ (loads : Text → Except Text Text) (f₁ f₂ f₃ : Faults) (s : Store Text),
    Conserves loads s (dequeueJob loads f₁ f₂ f₃ s) := by
  intro hclaim
  have hconserves := hclaim .ok ⟨.ok, .raisesBefore "Connection lost".toList⟩ ⟨.ok, .ok⟩ ⟨.ok, .ok⟩
    (oneJob "\x7b\"job_id\": \"1\"\x7d".toList)
  rw [dequeueJob, conserves_iff (Progress.start _), Conserving, popMin_oneJob] at hconserves
  rcases hconserves.1 with htracks | hheld
  · cases htracks
  · obtain ⟨score, hempty⟩ := hheld
    exact ScoredSet.not_mem_empty _ hempty

end PyFaaS.JobDequeue
